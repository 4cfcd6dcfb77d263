import QueryTypes.JsonHost.Basic
import QueryTypes.Proofs.Selection.Errors

/-!
# Arguments by name

A field that is given its arguments by name comes to what it comes to by position, with each declared
argument looked up, unless a name is not declared. Object types and bound objects agree in this
through every adapter around a field and every conversion around a value: what the adapters declare
as arguments is what the resolver inside decodes.
-/

namespace QueryTypes

variable {S : Signature} {c d : S.Context} {D : Definitions S}

/-! ## Names -/

theorem Keyed.lookup_eq_of_perm {α : Type} {m m' : Keyed α} (hkeys : m.keys.Nodup)
    (hperm : m.Perm m') (key : String) : m'.lookup key = m.lookup key := by
  have hkeys' : m'.keys.Nodup := (hperm.map Prod.fst).nodup_iff.1 hkeys
  cases h : m.lookup key with
  | some a => exact lookup_eq_some_of_mem hkeys' (hperm.mem_iff.1 (mem_of_lookup h))
  | none =>
    cases h' : m'.lookup key with
    | some a =>
      have hsome := lookup_eq_some_of_mem hkeys (hperm.mem_iff.2 (mem_of_lookup h'))
      rw [h] at hsome
      cases hsome
    | none => rfl

/-- The first of the names that is not the name of an argument. -/
def FirstUndeclared (arguments : List S.Argument) (names : List String) (name : String) : Prop :=
  ∃ before after, names = before ++ name :: after ∧
    (∀ key ∈ before, ∃ a ∈ arguments, a.name = key) ∧ ∀ a ∈ arguments, a.name ≠ name

theorem undeclared?_eq_some_iff {arguments : List S.Argument} {args : Keyed Payload}
    {name : String} :
    undeclared? arguments args = some name ↔ FirstUndeclared arguments args.keys name := by
  simp only [undeclared?, List.find?_eq_some_iff_append, FirstUndeclared]
  constructor
  · rintro ⟨hname, before, after, hkeys, hbefore⟩
    exact ⟨before, after, hkeys, by simpa using hbefore, by simpa using hname⟩
  · rintro ⟨before, after, hkeys, hbefore, hname⟩
    exact ⟨by simpa using hname, before, after, hkeys, by simpa using hbefore⟩

theorem exists_firstUndeclared_iff {arguments : List S.Argument} {args : Keyed Payload} :
    (∃ name, FirstUndeclared arguments args.keys name) ↔
      ∃ key ∈ args.keys, ∀ a ∈ arguments, a.name ≠ key := by
  simp only [← undeclared?_eq_some_iff, ← Option.isSome_iff_exists]
  simp [undeclared?]

/-! ## Agreement -/

/-- Resolving by name and resolving by position agree on a field of a type, of which it is known
which arguments it declares if there is one of the name. -/
structure AgreesByName {α : Type} (declared : Option (List S.Argument)) (owner field : String)
    (resolve : List (Option Payload) → Outcome ResolveError α)
    (resolveNamed : Keyed Payload → Outcome ResolveError α) : Prop where
  /-- A field that is not declared is refused in the same way. -/
  unknownField : ∀ args values f t,
    resolveNamed args = .error (.unknownField f t) ↔ resolve values = .error (.unknownField f t)
  /-- And no other field is. -/
  unknownField_iff : ∀ args f t,
    resolveNamed args = .error (.unknownField f t) ↔ declared = none ∧ f = field ∧ t = owner
  /-- The first name that is not declared is refused. -/
  unknownArgument : ∀ arguments, declared = some arguments → ∀ args name f t,
    resolveNamed args = .error (.unknownArgument name f t) ↔
      FirstUndeclared arguments args.keys name ∧ f = field ∧ t = owner
  /-- And there is one if any name is not declared. -/
  unknownArgument_iff : ∀ arguments, declared = some arguments → ∀ args,
    (∃ name f t, resolveNamed args = .error (.unknownArgument name f t)) ↔
      ∃ key ∈ args.keys, ∀ a ∈ arguments, a.name ≠ key
  /-- Names that are all declared are looked up in the order of the declaration. -/
  positional : ∀ arguments, declared = some arguments → ∀ args,
    (∀ key ∈ args.keys, ∃ a ∈ arguments, a.name = key) →
      resolveNamed args = resolve (arguments.map fun a => args.lookup a.name)
  /-- The number of payloads is always right. -/
  arity : ∀ args cause, resolveNamed args = .error (.invalidArguments cause) →
    cause.isArity = false
  /-- The order of the names matters for nothing but which undeclared one is reported. -/
  permuted : ∀ args args' : Keyed Payload, args.keys.Nodup → args.Perm args' →
    resolveNamed args' = resolveNamed args ∨ ∃ name name',
      resolveNamed args = .error (.unknownArgument name field owner) ∧
        resolveNamed args' = .error (.unknownArgument name' field owner)

namespace AgreesByName
variable {α β : Type} {declared : Option (List S.Argument)} {owner field : String}
  {resolve : List (Option Payload) → Outcome ResolveError α}
  {resolveNamed : Keyed Payload → Outcome ResolveError α}

/-- What is done with the resolutions afterwards makes no difference. -/
theorem map (h : AgreesByName declared owner field resolve resolveNamed) (g : α → β) :
    AgreesByName declared owner field (fun values => g <$> resolve values)
      (fun args => g <$> resolveNamed args) := by
  constructor
  · simpa only [Outcome.map_eq_error_iff] using h.unknownField
  · simpa only [Outcome.map_eq_error_iff] using h.unknownField_iff
  · simpa only [Outcome.map_eq_error_iff] using h.unknownArgument
  · simpa only [Outcome.map_eq_error_iff] using h.unknownArgument_iff
  · intro arguments hdeclared args hargs
    rw [h.positional arguments hdeclared args hargs]
  · simpa only [Outcome.map_eq_error_iff] using h.arity
  · intro args args' hkeys hperm
    simp only [Outcome.map_eq_error_iff]
    rcases h.permuted args args' hkeys hperm with heq | hrefused
    · exact .inl (by rw [heq])
    · exact .inr hrefused

theorem carryResolution {resolve : List (Option Payload) → Outcome ResolveError (S.FieldResolution c)}
    {resolveNamed : Keyed Payload → Outcome ResolveError (S.FieldResolution c)}
    (h : AgreesByName declared owner field resolve resolveNamed) (chain : S.Conversions c d) :
    AgreesByName declared owner field (fun values => S.carryResolution chain (resolve values))
      (fun args => S.carryResolution chain (resolveNamed args)) := by
  induction chain with
  | nil => exact h
  | snoc chain n ih => exact ih.map (S.convertResolution n)

/-- A field that is not there is refused either way. -/
theorem of_not_declared (hresolve : ∀ values, resolve values = .error (.unknownField field owner))
    (hnamed : ∀ args, resolveNamed args = .error (.unknownField field owner)) :
    AgreesByName (S := S) none owner field resolve resolveNamed where
  unknownField := fun args values f t => by rw [hnamed args, hresolve values]
  unknownField_iff := fun args f t => by simp [hnamed args, eq_comm]
  unknownArgument := nofun
  unknownArgument_iff := nofun
  positional := nofun
  arity := fun args cause h => by
    rw [hnamed args] at h
    cases h
  permuted := fun args args' _ _ => .inl (by rw [hnamed args, hnamed args'])

/-- A field that is there refuses names that it does not declare, and otherwise fails in decoding
only. -/
theorem of_declared {arguments : List S.Argument}
    (hresolve : ∀ values e, resolve values = .error e → ∃ cause, e = .invalidArguments cause)
    (harity : ∀ args cause, resolve (QueryTypes.positional arguments args) =
      .error (.invalidArguments cause) → cause.isArity = false)
    (hrefused : ∀ args name, undeclared? arguments args = some name →
      resolveNamed args = .error (.unknownArgument name field owner))
    (hnamed : ∀ args, undeclared? arguments args = none →
      resolveNamed args = resolve (QueryTypes.positional arguments args)) :
    AgreesByName (some arguments) owner field resolve resolveNamed := by
  have hpositional : ∀ values f t, resolve values ≠ .error (.unknownField f t) := by
    intro values f t h
    obtain ⟨cause, hcause⟩ := hresolve values _ h
    cases hcause
  have hfield : ∀ args f t, resolveNamed args ≠ .error (.unknownField f t) := by
    intro args f t h
    cases hargs : undeclared? arguments args with
    | some name =>
      rw [hrefused args name hargs] at h
      cases h
    | none => exact hpositional _ f t (hnamed args hargs ▸ h)
  have hargument : ∀ args name f t, resolveNamed args = .error (.unknownArgument name f t) ↔
      FirstUndeclared arguments args.keys name ∧ f = field ∧ t = owner := by
    intro args name f t
    rw [← undeclared?_eq_some_iff]
    cases hargs : undeclared? arguments args with
    | some name' => simp [hrefused args name' hargs, eq_comm]
    | none =>
      rw [hnamed args hargs]
      refine iff_of_false (fun h => ?_) nofun
      obtain ⟨cause, hcause⟩ := hresolve _ _ h
      cases hcause
  constructor
  case unknownField =>
    exact fun args values f t => iff_of_false (hfield args f t) (hpositional values f t)
  case unknownField_iff => exact fun args f t => iff_of_false (hfield args f t) nofun
  case unknownArgument =>
    rintro _ ⟨⟩
    exact hargument
  case unknownArgument_iff =>
    rintro _ ⟨⟩ args
    simp [hargument, exists_firstUndeclared_iff]
  case positional =>
    rintro _ ⟨⟩ args hargs
    exact hnamed args (undeclared?_eq_none_iff.2 hargs)
  case arity =>
    intro args cause h
    cases hargs : undeclared? arguments args with
    | some name =>
      rw [hrefused args name hargs] at h
      cases h
    | none => exact harity args cause (hnamed args hargs ▸ h)
  case permuted =>
    intro args args' hkeys hperm
    have hnames : ∀ key, key ∈ args'.keys ↔ key ∈ args.keys := fun key =>
      (hperm.map Prod.fst).mem_iff.symm
    have hlookup : QueryTypes.positional arguments args' = QueryTypes.positional arguments args := by
      simp only [QueryTypes.positional, Keyed.lookup_eq_of_perm hkeys hperm]
    cases hargs : undeclared? arguments args with
    | none =>
      have hargs' : undeclared? arguments args' = none := by
        rw [undeclared?_eq_none_iff] at hargs ⊢
        simpa only [hnames] using hargs
      exact .inl (by rw [hnamed args hargs, hnamed args' hargs', hlookup])
    | some name =>
      cases hargs' : undeclared? arguments args' with
      | none =>
        rw [undeclared?_eq_none_iff] at hargs'
        have hnone : undeclared? arguments args = none :=
          undeclared?_eq_none_iff.2 (by simpa only [hnames] using hargs')
        rw [hargs] at hnone
        cases hnone
      | some name' =>
        exact .inr ⟨name, name', hrefused args name hargs, hrefused args' name' hargs'⟩

end AgreesByName

/-! ## Fields by name -/

theorem Fields.agreesByName (D : Definitions S) (fields : Fields S c) (owner field : String)
    (parent : S.Value) :
    AgreesByName ((fields.shapes.find? (·.name == field)).map FieldShape.arguments) owner field
      (fields.resolve D owner parent field) (fields.resolveNamed D owner parent field) := by
  have hdeclared : (fields.shapes.find? (·.name == field)).map FieldShape.arguments =
      (List.lookup field fields).map Resolver.arguments := by
    rw [find?_shapes, Option.map_map]
    rfl
  rw [hdeclared]
  cases hr : List.lookup field fields with
  | none =>
    apply AgreesByName.of_not_declared
    · intro values
      simp only [resolve, hr]
    · intro args
      simp only [resolveNamed, hr]
  | some r =>
    apply AgreesByName.of_declared
    · intro values e h
      simp only [resolve, hr] at h
      obtain ⟨cause, -, hcause⟩ := Outcome.mapError_eq_error h
      exact ⟨cause, hcause.symm⟩
    · intro args cause h
      simp only [resolve, hr] at h
      obtain ⟨_, hdecode, hcause⟩ := Outcome.mapError_eq_error h
      cases hcause
      exact r.isArity_of_resolve parent hdecode
    · intro args name h
      simp only [resolveNamed, hr, h]
    · intro args h
      simp only [resolveNamed, resolve, hr, h]

/-! ## Objects by name -/

/-- Conversions leave the declared arguments as they are. -/
theorem ObjectShape.arguments_carry (chain : S.Conversions c d) (s : ObjectShape S c)
    (field : String) :
    ((chain.carry ObjectShape.convert s).field? field).map FieldShape.arguments =
      (s.field? field).map FieldShape.arguments := by
  induction chain with
  | nil => rfl
  | snoc chain n ih =>
    have hfield : ((chain.carry ObjectShape.convert s).convert n).field? field = _ :=
      OutputShape.field?_convert n (.object (chain.carry ObjectShape.convert s)) field
    change (((chain.carry ObjectShape.convert s).convert n).field? field).map _ = _
    rw [hfield, Option.map_map, ← ih]
    rfl

/-- Resolving by name and resolving by position agree on every field of every object type and of
every bound object. -/
theorem resolveNamed_agrees (D : Definitions S) :
    (∀ {c : S.Context} (o : ObjectType S c) (parent : S.Value) (field : String),
      AgreesByName ((o.shape.field? field).map FieldShape.arguments) o.name field
        (o.resolve D parent field) (o.resolveNamed D parent field)) ∧
    ∀ {c : S.Context} (o : BoundObject S c) (field : String),
      AgreesByName ((o.shape.field? field).map FieldShape.arguments) o.typename field
        (o.resolve D field) (o.resolveNamed D field) := by
  constructor
  · intro c o parent field
    exact Fields.agreesByName D o.fields o.name field parent
  · intro c o field
    have hown := Fields.agreesByName D o.type.fields o.type.name field o.value
    have hcarried := hown.carryResolution o.conversions
    rw [BoundObject.shape, ObjectShape.arguments_carry]
    exact hcarried

/-! ## Greetings -/

namespace Greetings
open JsonHost

/-- The texts that greetings come to. -/
def definitions : Definitions (host 0 1) := ⟨Fin.elim0, fun _ => .scalar "String" id⟩

/-- Two texts. -/
def names : (host 0 1).Arguments :=
  .merge pair (.single "first" .argument (.scalar "String" Reader.string.read) none)
    (.single "last" .argument (.scalar "String" Reader.string.read) none)

/-- A greeting of two names, in a context that it was not written in. -/
def greeter : ObjectType (host 0 1) Context.async :=
  ObjectType.convert Conversion.lift <| ObjectType.contramap (fun j => part j (.name "user"))
    ⟨"Greeter", [("greet",
      .declared (.withArguments names ⟨Fin.last 0, .nil⟩ fun _ args => .pure args))]⟩

def ada : Payload := .leaf (.string "Ada")

def lovelace : Payload := .leaf (.string "Lovelace")

/-- The names in the other order are looked up, and a name that is not declared is refused. -/
theorem resolveNamed_agrees_greeter :
    greeter.resolveNamed definitions .null "greet" [("last", lovelace), ("first", ada)] =
        greeter.resolve definitions .null "greet" [some ada, some lovelace] ∧
      greeter.resolveNamed definitions .null "greet" [("last", lovelace), ("middle", ada)] =
        .error (.unknownArgument "middle" "greet" "Greeter") := by
  have hagrees := (resolveNamed_agrees definitions).1 greeter .null "greet"
  constructor
  · exact hagrees.positional _ rfl _ (by decide)
  · refine (hagrees.unknownArgument _ rfl _ _ _ _).2 ⟨⟨["last"], [], rfl, ?_, ?_⟩, rfl, rfl⟩
    · decide
    · decide

end Greetings
end QueryTypes
