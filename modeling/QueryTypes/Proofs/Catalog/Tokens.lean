import QueryTypes.Proofs.Catalog.Accepted
import QueryTypes.Proofs.Decoding.Entries

/-!
# Declared tokens

Which types a query type declares, part by part, and what becomes of the tokens of its enums. Shapes
keep the tokens of an output enum as they were declared, and of an input enum each token once. So the
rules tell whether an output enum repeats a token, and cannot tell for an input enum: what an input
enum declares under a repeated token is dropped, and the query type is accepted.
-/

namespace QueryTypes

variable {S : Signature} {c d : S.Context} {D : Definitions S}

/-! ## Parts of types -/

/-- An output type or an input type. -/
inductive DeclaredType (S : Signature) (c : S.Context) where
  | output (type : OutputType S c)
  | input (type : S.Input)

/-- The same type in another context. -/
def DeclaredType.convert (n : S.Conversion c d) : DeclaredType S c → DeclaredType S d
  | .output type => .output (.converted n type)
  | .input type => .input type

/-- The input types of the declared arguments. -/
def Field.inputs : Field S c → List S.Input
  | .simple _ _ => []
  | .withArguments slots _ _ => slots.entries.map Entry.input

/-- The input types of the declared arguments. -/
def Resolver.inputs : {c : S.Context} → Resolver S c → List S.Input
  | _, .declared field => field.inputs
  | _, .contramapped _ inner => inner.inputs
  | _, .converted _ inner => inner.inputs

/-- The member's object type, with the conversions that the member has been through. -/
def Member.type : {c : S.Context} → Member S c → OutputType S c
  | _, .concrete object _ => .object object
  | _, .contramapped _ inner => inner.type
  | _, .converted n inner => .converted n inner.type

namespace OutputType

/-- The fields of an object or interface. -/
def fields : OutputType S c → Fields S c
  | .object type => type.fields
  | .abstract type => type.fields
  | _ => []

/-- The members of an interface or union. -/
def members : OutputType S c → List (Member S c)
  | .abstract type => type.members
  | _ => []

/-- The name of an enum and its tokens with their values. -/
def enumeration? : {c : S.Context} → OutputType S c → Option (String × List (String × S.Value))
  | _, .enumeration name pairs => some (name, pairs)
  | _, .converted _ inner => inner.enumeration?
  | _, _ => none

/-- The types that a type is made of or refers to directly. -/
inductive Uses (D : Definitions S) : {c : S.Context} → OutputType S c → DeclaredType S c → Prop
  | item {c : S.Context} {items : S.Value → List S.Value} {item : OutputType S c} :
      Uses D (.list items item) (.output item)
  | inner {c : S.Context} {view : S.Value → Option S.Value} {inner : OutputType S c} :
      Uses D (.optional view inner) (.output inner)
  | field {c : S.Context} {t : OutputType S c} {f : String × Resolver S c} :
      f ∈ t.fields → Uses D t (.output (f.2.output.type D))
  | argument {c : S.Context} {t : OutputType S c} {f : String × Resolver S c} {i : S.Input} :
      f ∈ t.fields → i ∈ f.2.inputs → Uses D t (.input i)
  | member {c : S.Context} {t : OutputType S c} {m : Member S c} :
      m ∈ t.members → Uses D t (.output m.type)
  | converted {c d : S.Context} {n : S.Conversion c d} {inner : OutputType S c}
      {x : DeclaredType S c} : Uses D inner x → Uses D (.converted n inner) (x.convert n)

end OutputType

/-- The input types that an input type is made of or refers to directly. -/
inductive InputType.Uses {V : Type} {n : Nat} (table : InputTable V n) :
    InputType V n → InputType V n → Prop
  | item {item : InputType V n} {assemble : List V → V} : Uses table (.list item assemble) item
  | inner {inner : InputType V n} {assemble : Option V → V} :
      Uses table (.optional inner assemble) inner
  | map {f : V → V} {inner : InputType V n} : Uses table (.map f inner) inner
  | reference {name : String} {target : Fin n} : Uses table (.reference name target) (table target)
  | slot {name : String} {slots : Slots V n} {e : Entry V n} :
      e ∈ slots.entries → Uses table (.object name slots) e.input

/-- The types that a query type declares, itself included. -/
inductive Declares (D : Definitions S) (query : ObjectType S c) : DeclaredType S c → Prop
  | query : Declares D query (.output (.object query))
  | output {t : OutputType S c} {x : DeclaredType S c} :
      Declares D query (.output t) → t.Uses D x → Declares D query x
  | input {i j : S.Input} :
      Declares D query (.input i) → i.Uses D.input j → Declares D query (.input j)

/-! ## Links between their shapes -/

theorem Field.arguments_eq (f : Field S c) :
    f.arguments.map Slot.input = f.inputs.map InputType.shape := by
  cases f with
  | simple => rfl
  | withArguments slots =>
    simp only [arguments, inputs, slots.declarations_eq, List.map_map]
    rfl

theorem Resolver.arguments_eq (r : Resolver S c) :
    r.arguments.map Slot.input = r.inputs.map InputType.shape := by
  induction r with
  | declared field => exact field.arguments_eq
  | contramapped _ _ ih | converted _ _ ih => exact ih

theorem Member.shape_type (m : Member S c) : m.type.shape = .object m.shape := by
  induction m with
  | concrete => rfl
  | contramapped _ _ ih => exact ih
  | converted n _ ih => exact congrArg (OutputShape.convert n) ih

theorem OutputShape.core_convert (n : S.Conversion c d) (s : OutputShape S c) :
    (s.convert n).core = s.core.convert n := by
  induction s with
  | list _ ih | optional _ ih => exact ih
  | _ => rfl

namespace OutputType
variable {t : OutputType S c}

theorem fields_shape {f : String × Resolver S c} (hf : f ∈ t.fields) :
    ⟨f.1, f.2.arguments, f.2.output⟩ ∈ t.shape.core.fields?.getD [] := by
  cases t with
  | object type => exact List.mem_map_of_mem hf
  | abstract type =>
    cases type with
    | interface => exact List.mem_map_of_mem hf
    | union => cases hf
  | _ => cases hf

theorem members_shape {m : Member S c} (hm : m ∈ t.members) : m.shape ∈ t.shape.core.members := by
  cases t with
  | abstract type => cases type <;> exact List.mem_map_of_mem hm
  | _ => cases hm

theorem shape_of_enumeration {name : String} {pairs : List (String × S.Value)}
    (h : t.enumeration? = some (name, pairs)) :
    t.shape = .enumeration name (pairs.map Prod.fst) := by
  induction t with
  | enumeration => cases h; rfl
  | converted n _ ih => exact congrArg (OutputShape.convert n) (ih h)
  | _ => cases h

end OutputType

namespace Definition

/-- The same definition in another context. -/
def convert (n : S.Conversion c d) : Definition S c → Definition S d
  | .output s => .output (s.convert n)
  | .input s => .input s

theorem Links.convert {s : OutputShape S c} {e : Definition S c} (n : S.Conversion c d)
    (h : (Definition.output s).Links D e) :
    (Definition.output (s.convert n)).Links D (e.convert n) := by
  cases h with
  | @field f hf =>
    have hmem : f.convert n ∈ (Definition.output (s.convert n)).fields := by
      rw [fields, OutputShape.fields_convert]
      exact List.mem_map_of_mem hf
    have hlink := Links.field (D := D) hmem
    rwa [FieldShape.convert, OutputRef.shape_convert, OutputShape.core_convert] at hlink
  | @member m hm =>
    refine .member (m := m.convert n) ?_
    rw [members, OutputShape.members_convert]
    exact List.mem_map_of_mem hm
  | @input i j hi hlead =>
    refine .input (s := i) ?_ hlead
    obtain ⟨f, hf, hi⟩ := List.mem_flatMap.1 hi
    refine List.mem_flatMap.2 ⟨f.convert n, ?_, hi⟩
    rw [OutputShape.fields_convert]
    exact List.mem_map_of_mem hf

end Definition

/-- The type's shape is the definition inside lists and optionals, or one that it links to. -/
def DeclaredType.Follows (D : Definitions S) (d : Definition S c) : DeclaredType S c → Prop
  | .output t => d = .output t.shape.core ∨ d.Links D (.output t.shape.core)
  | .input i => ∀ e, i.shape.LeadsTo D.input e → d.Links D (.input e)

theorem OutputType.Uses.follows {t : OutputType S c} {x : DeclaredType S c} (h : t.Uses D x) :
    x.Follows D (.output t.shape.core) := by
  induction h with
  | item | inner => exact .inl rfl
  | @field _ t f hf =>
    exact .inr (.field (f := ⟨f.1, f.2.arguments, f.2.output⟩) (OutputType.fields_shape hf))
  | @argument _ t f i hf hi =>
    refine fun e he => .input ?_ he
    refine List.mem_flatMap.2 ⟨_, OutputType.fields_shape hf, ?_⟩
    rw [Resolver.arguments_eq]
    exact List.mem_map_of_mem hi
  | member hm =>
    refine .inr ?_
    rw [Member.shape_type]
    exact .member (OutputType.members_shape hm)
  | @converted _ _ n inner x _ ih =>
    rw [OutputType.shape, OutputShape.core_convert]
    cases x with
    | output u =>
      rcases ih with heq | hlink
      · refine .inl ?_
        rw [OutputType.shape, OutputShape.core_convert]
        exact congrArg (Definition.convert n) heq
      · refine .inr ?_
        rw [OutputType.shape, OutputShape.core_convert]
        exact hlink.convert n
    | input i => exact fun e he => (ih e he).convert n

theorem InputType.Uses.follows {i j : S.Input} (h : i.Uses D.input j) {e : InputShape S.inputs}
    (he : j.shape.LeadsTo D.input e) :
    i.shape.LeadsTo D.input e ∨
      ∃ d, i.shape.LeadsTo D.input d ∧ (Definition.input d : Definition S c).Links D (.input e) := by
  cases h with
  | item => exact .inl (.list he)
  | inner => exact .inl (.optional he)
  | map => exact .inl he
  | reference => exact .inl (.reference he)
  | @slot name slots e hmem =>
    refine .inr ⟨_, .object _ _, .input ?_ he⟩
    rw [slots.declarations_eq]
    exact List.mem_map_of_mem (List.mem_map_of_mem hmem)

/-- The definitions that a type stands for are reached. -/
def DeclaredType.Reached (D : Definitions S) (query : ObjectType S c) : DeclaredType S c → Prop
  | .output t => Reaches D query (.output t.shape.core)
  | .input i => ∀ e, i.shape.LeadsTo D.input e → Reaches D query (.input e)

/-- Whatever is declared is reached. -/
theorem Declares.reached {query : ObjectType S c} {x : DeclaredType S c} (h : Declares D query x) :
    x.Reached D query := by
  induction h with
  | query => exact .refl
  | @output t x _ huses ih =>
    have hfollows := huses.follows
    cases x with
    | output u =>
      rcases hfollows with heq | hlink
      · rw [DeclaredType.Reached, ← heq]
        exact ih
      · exact ih.tail hlink
    | input i => exact fun e he => ih.tail (hfollows e he)
  | @input i j _ huses ih =>
    intro e he
    rcases huses.follows (c := c) he with he | ⟨d, hd, hlink⟩
    · exact ih e he
    · exact (ih d hd).tail hlink

/-! ## Tokens of enums -/

/-- An input enum breaks a rule by a name or by having no tokens. No rule finds that it repeats one. -/
theorem checkInput_enumeration_eq_error {name : String} {pairs : List (String × S.Value)}
    {e : SchemaError}
    (h : checkInput (InputType.enumeration name pairs : S.Input).shape = .error e) :
    (∃ part kind, e = .invalidName part kind) ∨ e = .emptyType name .values := by
  change checkEnum name (Keyed.ofPairs pairs).keys = .error e at h
  unfold checkEnum at h
  cases hname : requireName name .enum with
  | error e' =>
    rw [hname] at h
    cases h
    exact .inl ⟨_, _, requireName_eq_error hname⟩
  | ok _ =>
    cases hsome : requireSome name .values (Keyed.ofPairs pairs).keys with
    | error e' =>
      rw [hname, hsome] at h
      cases h
      unfold requireSome at hsome
      split at hsome <;> cases hsome
      exact .inr rfl
    | ok _ =>
      rw [hname, hsome] at h
      obtain ⟨token, -, hfails⟩ := requireDistinct_eq_error
        (by simpa using Keyed.nodup_keys_ofPairs pairs) (by simp) h
      rcases hfails with hfails | hfails
      · exact .inl ⟨_, _, requireName_eq_error hfails⟩
      · cases hfails

theorem WellFormedEnum.nodup {name : String} {values : List String}
    (h : WellFormedEnum name values) : values.Nodup := by
  have hdistinct := h.distinct
  rwa [List.map_id] at hdistinct

namespace Definition
variable {r : Definition S c}

/-- No definition that keeps the rules has a token twice. -/
theorem WellFormed.nodup_values (h : r.WellFormed D) (hnamed : r.IsNamed) :
    (r.contents D).values.Nodup := by
  cases r with
  | output s =>
    cases s with
    | enumeration name values => exact WellFormedEnum.nodup h
    | list | optional => cases hnamed
    | _ => exact List.nodup_nil
  | input s =>
    cases s with
    | enumeration name values => exact WellFormedEnum.nodup h
    | list | optional | reference => cases hnamed
    | _ => exact List.nodup_nil

theorem IsNamed.eq_enumeration {values : List String} {s : InputShape S.inputs}
    (hnamed : (Definition.input s : Definition S c).IsNamed)
    (h : s.contents = ⟨.enum, [], [], values⟩) : s = .enumeration s.namedType values := by
  have hkind : s.kind = .enum := congrArg Contents.kind h
  cases s with
  | enumeration name values' =>
    have hvalues : values' = values := congrArg Contents.values h
    rw [hvalues]
    rfl
  | scalar | object => cases hkind
  | list | optional | reference => cases hnamed

end Definition

section Accepted
variable {query : ObjectType S c} {schema : Schema S c}

/-- Where an accepted schema speaks for everything its query type reaches, the output enums that the
query type declares have distinct tokens. The entry of an input enum has each declared token once, so
the declared tokens are distinct exactly if they are what is entered. -/
theorem declared_tokens (h : Schema.ofQuery D query = .ok schema)
    (hspeaks : ∀ d, Reaches D query d → schema.catalog.SpeaksFor D d) :
    (∀ t name pairs, Declares D query (.output t) → t.enumeration? = some (name, pairs) →
      (pairs.map Prod.fst).Nodup) ∧
    ∀ name pairs, Declares D query (.input (.enumeration name pairs)) →
      ∃ values, schema.input? name = some (.enumeration name values) ∧ values.Nodup ∧
        (∀ token, token ∈ values ↔ token ∈ pairs.map Prod.fst) ∧
        ((pairs.map Prod.fst).Nodup ↔ values = pairs.map Prod.fst) := by
  refine ⟨fun t name pairs ht hpairs => ?_, fun name pairs hi => ?_⟩
  · have hreached := ht.reached
    rw [DeclaredType.Reached, OutputType.shape_of_enumeration hpairs] at hreached
    obtain ⟨r, hr, hcontents⟩ := hspeaks _ hreached
    obtain ⟨hholds, -⟩ := Catalog.entered?_holds hr
    have hnamed := ((ofQuery_consistent h).named _ _ hholds).2
    have hnodup := (wellFormed_of_holds h hholds).nodup_values hnamed
    rw [hcontents] at hnodup
    exact hnodup
  · obtain ⟨r, hr, hcontents⟩ := hspeaks _ (hi.reached _ (.enumeration name _))
    obtain ⟨hholds, -⟩ := Catalog.entered?_holds hr
    obtain ⟨hname, hnamed⟩ := (ofQuery_consistent h).named _ _ hholds
    obtain ⟨s, hs, rfl⟩ := Option.map_eq_some_iff.1 hr
    have hnodup := Keyed.nodup_keys_ofPairs pairs
    refine ⟨(Keyed.ofPairs pairs).keys, ?_, hnodup, fun token => ?_, fun hdistinct => ?_, ?_⟩
    · have heq := hnamed.eq_enumeration hcontents
      rw [← show name = s.namedType from hname] at heq
      exact hs.trans (congrArg some heq)
    · rw [← Keyed.exists_lookup, Keyed.exists_lookup_ofPairs]
    · rw [Keyed.ofPairs_eq_self hdistinct]
      rfl
    · exact fun heq => heq ▸ hnodup

end Accepted

/-! ## Paints -/

namespace Paints
open JsonHost

/-- The colours that paints have. -/
def definitions : Definitions (host 0 1) where
  input i := i.elim0
  output _ := .enumeration "Color" [("RED", .int 0), ("GREEN", .int 1)]

/-- A query for the colour of a paint, whose argument is an enum of the given tokens. -/
def query (name : String) (tokens : List (String × Json)) : ObjectType (host 0 1) .thunk :=
  ⟨"Query", [("color", .declared (.withArguments
    (.single "paint" .argument (.enumeration name tokens) none) ⟨Fin.last 0, .nil⟩
    fun _ paint => .pure paint))]⟩

theorem declares_paint (name : String) (tokens : List (String × Json)) :
    Declares definitions (query name tokens) (.input (.enumeration name tokens)) :=
  .output .query (.argument List.mem_cons_self List.mem_cons_self)

/-- An argument that declares one token for two values is accepted. -/
theorem exists_accepted_repeated : ∃ schema,
    Schema.ofQuery definitions (query "Paint" [("RED", .int 0), ("RED", .int 1)]) = .ok schema ∧
      ∃ name pairs,
        Declares definitions (query "Paint" [("RED", .int 0), ("RED", .int 1)])
          (.input (.enumeration name pairs)) ∧
        ¬ (pairs.map Prod.fst).Nodup :=
  ⟨_, by rfl, _, _, declares_paint _ _, by decide⟩

/-- Colours as results and as arguments. -/
def colors : ObjectType (host 0 1) .thunk := query "Color" [("RED", .int 0), ("GREEN", .int 1)]

def schema : Schema (host 0 1) .thunk where
  query := colors
  catalog.outputs := [("Query", .object colors.shape),
    ("Color", .enumeration "Color" ["RED", "GREEN"])]
  catalog.inputs := [("Color", .enumeration "Color" ["RED", "GREEN"])]

theorem accepted : Schema.ofQuery definitions colors = .ok schema := by rfl

/-- A query for colours reaches itself and colours, on both sides. -/
theorem eq_of_reaches {d : Definition (host 0 1) .thunk} (h : Reaches definitions colors d) :
    d = colors.definition ∨ d = .output (.enumeration "Color" ["RED", "GREEN"]) ∨
      d = .input (.enumeration "Color" ["RED", "GREEN"]) := by
  induction h with
  | refl => exact .inl rfl
  | tail _ hlink ih =>
    rcases ih with rfl | rfl | rfl
    · cases hlink with
      | field hf =>
        rw [List.mem_singleton.1 hf]
        exact .inr (.inl rfl)
      | member hm => cases hm
      | input hs hlead =>
        rw [List.mem_singleton.1 hs] at hlead
        cases hlead
        exact .inr (.inr rfl)
    · exact absurd hlink (Definition.not_links rfl rfl rfl)
    · exact absurd hlink (Definition.not_links rfl rfl rfl)

/-- Colours of two tokens are entered with both of them, and neither is declared twice. -/
theorem colors_distinct :
    (∀ t name pairs, Declares definitions colors (.output t) → t.enumeration? = some (name, pairs) →
      (pairs.map Prod.fst).Nodup) ∧
    ∃ values, schema.input? "Color" = some (.enumeration "Color" values) ∧
      values = ["RED", "GREEN"] := by
  have hspeaks : ∀ d, Reaches definitions colors d → schema.catalog.SpeaksFor definitions d := by
    intro d hd
    rcases eq_of_reaches hd with rfl | rfl | rfl
    · exact ⟨_, rfl, rfl⟩
    · exact ⟨_, rfl, rfl⟩
    · exact ⟨_, rfl, rfl⟩
  obtain ⟨houtput, hinput⟩ := declared_tokens accepted hspeaks
  obtain ⟨values, hvalues, -, -, hdistinct⟩ := hinput _ _ (declares_paint _ _)
  exact ⟨houtput, values, hvalues, hdistinct.1 (by decide)⟩

end Paints
end QueryTypes
