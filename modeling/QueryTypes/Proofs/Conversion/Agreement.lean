import QueryTypes.Proofs.Conversion.JsonHost
import QueryTypes.Proofs.Conversion.Walk

/-!
# All ways of converting agree

An object, interface or union can be put together anew from converted fields and members, converted
as a whole, converted as an output type, or bound first and converted then. `Mirrors` relates the
parts of a type to those of its conversion; the bound values of two types whose parts mirror each
other agree, and values that agree are the same to every walk.
-/

namespace QueryTypes

variable {S : Signature} {c d : S.Context} {n : S.Conversion c d} {D : Definitions S}

/-! ## Converted parts -/

/-- A held field declares and resolves what another does, converted. -/
structure Resolver.Mirrors (D : Definitions S) (n : S.Conversion c d) (r' : Resolver S d)
    (r : Resolver S c) : Prop where
  arguments : r'.arguments = r.arguments
  output : r'.output = r.output.convert n
  resolve : ∀ name parent args,
    r'.resolve D name parent args = S.convertResolution n <$> r.resolve D name parent args

theorem Resolver.mirrors_converted (r : Resolver S c) : (Resolver.converted n r).Mirrors D n r :=
  ⟨rfl, rfl, fun _ _ _ => rfl⟩

/-- A field may be converted before it is held. -/
theorem Resolver.mirrors_declared (hE : S.MapsCompose) (hn : S.Natural n) (f : Field S c) :
    (Resolver.declared (f.convert n)).Mirrors D n (.declared f) := by
  have houtput : (f.convert n).output = f.output.convert n := by cases f <;> rfl
  refine ⟨by cases f <;> rfl, houtput, fun name parent args => ?_⟩
  simp only [Resolver.resolve, Field.resolve_convert, houtput, OutputRef.type_convert]
  cases f.resolve D name parent args with
  | ok r => exact congrArg Outcome.ok (convertResolution_bind hE hn _ r)
  | error e => rfl
  | unfinished => rfl

/-- Fields of the same names that mirror each other one by one. -/
inductive Fields.Mirrors (D : Definitions S) (n : S.Conversion c d) : Fields S d → Fields S c → Prop
  | nil : Mirrors D n [] []
  | cons (name : String) {r' : Resolver S d} {r : Resolver S c} {rest' : Fields S d}
      {rest : Fields S c} : r'.Mirrors D n r → Mirrors D n rest' rest →
      Mirrors D n ((name, r') :: rest') ((name, r) :: rest)

namespace Fields

/-- Fields built one by one from the same things mirror each other if each two of them do. -/
theorem mirrors_map {ι : Type} {f' : ι → Resolver S d} {f : ι → Resolver S c}
    (h : ∀ i, (f' i).Mirrors D n (f i)) (named : List (String × ι)) :
    Fields.Mirrors D n (named.map fun p => (p.1, f' p.2)) (named.map fun p => (p.1, f p.2)) := by
  induction named with
  | nil => exact .nil
  | cons p rest ih => exact .cons p.1 (h p.2) ih

theorem mirrors_convert (fields : Fields S c) : Fields.Mirrors D n (fields.convert n) fields := by
  have h : Fields.Mirrors D n (fields.convert n) (fields.map fun p => (p.1, p.2)) :=
    mirrors_map Resolver.mirrors_converted fields
  simpa using h

variable {fields' : Fields S d} {fields : Fields S c}

theorem Mirrors.shapes (h : Fields.Mirrors D n fields' fields) :
    fields'.shapes = fields.shapes.map (FieldShape.convert n) := by
  induction h with
  | nil => rfl
  | cons name hr _ ih =>
    simp only [Fields.shapes, List.map_cons] at ih ⊢
    rw [ih, hr.arguments, hr.output]
    rfl

/-- The field of a name mirrors the field of that name. -/
theorem Mirrors.lookup (h : Fields.Mirrors D n fields' fields) (name : String) :
    (List.lookup name fields' = none ∧ List.lookup name fields = none) ∨
      ∃ r' r, List.lookup name fields' = some r' ∧ List.lookup name fields = some r ∧
        r'.Mirrors D n r := by
  induction h with
  | nil => exact .inl ⟨rfl, rfl⟩
  | @cons own r' r _ _ hr _ ih =>
    simp only [Keyed.lookup_cons]
    by_cases heq : name = own
    · exact .inr ⟨r', r, by simp [heq], by simp [heq], hr⟩
    · simpa [heq] using ih

theorem Mirrors.resolve (h : Fields.Mirrors D n fields' fields) (owner : String) (parent : S.Value)
    (field : String) (args : List (Option Payload)) :
    fields'.resolve D owner parent field args =
      S.convertResolution n <$> fields.resolve D owner parent field args := by
  unfold Fields.resolve
  rcases h.lookup field with ⟨h', h⟩ | ⟨r', r, h', h, hr⟩
  · rw [h', h]
    rfl
  · rw [h', h]
    dsimp only
    rw [hr.resolve, Outcome.map_mapError]

theorem Mirrors.resolveNamed (h : Fields.Mirrors D n fields' fields) (owner : String)
    (parent : S.Value) (field : String) (args : Keyed Payload) :
    fields'.resolveNamed D owner parent field args =
      S.convertResolution n <$> fields.resolveNamed D owner parent field args := by
  unfold Fields.resolveNamed
  rcases h.lookup field with ⟨h', h⟩ | ⟨r', r, h', h, hr⟩
  · rw [h', h]
    rfl
  · rw [h', h]
    dsimp only
    rw [hr.arguments]
    split
    · rfl
    · rw [hr.resolve, Outcome.map_mapError]

end Fields

/-! ## Converted types -/

/-- An object of the same name whose fields mirror another's. -/
structure ObjectType.Mirrors (D : Definitions S) (n : S.Conversion c d) (o' : ObjectType S d)
    (o : ObjectType S c) : Prop where
  name : o'.name = o.name
  fields : Fields.Mirrors D n o'.fields o.fields

theorem ObjectType.mirrors_convert (o : ObjectType S c) : ObjectType.Mirrors D n (o.convert n) o :=
  ⟨rfl, o.fields.mirrors_convert⟩

/-- Binding to a type that mirrors another is binding to the other and converting. -/
theorem ObjectType.bind_agrees {o' : ObjectType S d} {o : ObjectType S c}
    (h : ObjectType.Mirrors D n o' o) (v : S.Value) :
    (Bound.object (o'.bind v)).Agrees D ((Bound.object (o.bind v)).convert n) := by
  have hshape : o'.shape = o.shape.convert n := by
    simp only [ObjectType.shape, ObjectShape.convert, h.name, h.fields.shapes]
  refine ⟨?_, fun op => ?_⟩
  · change View.object o'.name (OutputShape.object o'.shape) =
      .object o.name (.object (o.shape.convert n))
    rw [h.name, hshape]
  · cases op with
    | resolve field args =>
      change Reached.ofOutcome (o'.fields.resolve D o'.name v field args) =
        .ofOutcome (S.convertResolution n <$> o.fields.resolve D o.name v field args)
      rw [h.name, h.fields.resolve]
    | resolveNamed field args =>
      change Reached.ofOutcome (o'.fields.resolveNamed D o'.name v field args) =
        .ofOutcome (S.convertResolution n <$> o.fields.resolveNamed D o.name v field args)
      rw [h.name, h.fields.resolveNamed]
    | item index => rfl
    | narrow => rfl

/-- An interface or union with converted members, and with fields that mirror another's. -/
inductive AbstractType.Mirrors (D : Definitions S) (n : S.Conversion c d) :
    AbstractType S d → AbstractType S c → Prop
  | interface (name : String) {fields' : Fields S d} {fields : Fields S c}
      (members : List (Member S c)) : Fields.Mirrors D n fields' fields →
      Mirrors D n (.interface name fields' (members.map (Member.converted n)))
        (.interface name fields members)
  | union (name : String) (members : List (Member S c)) :
      Mirrors D n (.union name (members.map (Member.converted n))) (.union name members)

namespace AbstractType

theorem mirrors_convert (t : AbstractType S c) : Mirrors D n (t.convert n) t := by
  cases t with
  | interface name fields members => exact .interface name members (fields.mirrors_convert)
  | union name members => exact .union name members

variable {t' : AbstractType S d} {t : AbstractType S c}

theorem Mirrors.name (h : Mirrors D n t' t) : t'.name = t.name := by
  cases h <;> rfl

theorem Mirrors.fields (h : Mirrors D n t' t) : Fields.Mirrors D n t'.fields t.fields := by
  cases h with
  | interface name members hfields => exact hfields
  | union name members => exact .nil

theorem Mirrors.members (h : Mirrors D n t' t) :
    t'.members = t.members.map (Member.converted n) := by
  cases h <;> rfl

theorem Mirrors.shape (h : Mirrors D n t' t) : t'.shape = t.shape.convert n := by
  have hmembers : ∀ members : List (Member S c), (members.map (Member.converted n)).map Member.shape =
      (members.map Member.shape).map (ObjectShape.convert n) := fun members => by
    rw [List.map_map, List.map_map]
    rfl
  cases h with
  | interface name members hfields =>
    simp only [AbstractType.shape, OutputShape.convert, hmembers, hfields.shapes]
  | union name members => simp only [AbstractType.shape, OutputShape.convert, hmembers]

/-- The first member that accepts the value is the converted first one. -/
theorem Mirrors.narrow (h : Mirrors D n t' t) (v : S.Value) :
    t'.narrow v = (t.narrow v).map (BoundObject.convert n) := by
  have hfirst : ∀ members : List (Member S c),
      (members.map (Member.converted n)).findSome? (·.narrow v) =
        (members.findSome? (·.narrow v)).map (BoundObject.convert n) := by
    intro members
    induction members with
    | nil => rfl
    | cons m rest ih =>
      have hm : (Member.converted n m).narrow v = (m.narrow v).map (BoundObject.convert n) := rfl
      simp only [List.map_cons, List.findSome?_cons, hm, ih]
      cases m.narrow v <;> rfl
  unfold AbstractType.narrow
  rw [h.members, hfirst, h.name]
  cases t.members.findSome? (·.narrow v) <;> rfl

theorem bind_agrees (h : Mirrors D n t' t) (v : S.Value) :
    (Bound.abstract (t'.bind v)).Agrees D ((Bound.abstract (t.bind v)).convert n) := by
  refine ⟨?_, fun op => ?_⟩
  · change View.abstract t'.name t'.shape = .abstract t.name (t.shape.convert n)
    rw [h.name, h.shape]
  · cases op with
    | resolve field args =>
      change Reached.ofOutcome (t'.fields.resolve D t'.name v field args) =
        .ofOutcome (S.convertResolution n <$> t.fields.resolve D t.name v field args)
      rw [h.name, h.fields.resolve]
    | narrow =>
      change Reached.map Bound.object (.ofExcept (t'.narrow v)) =
        .map Bound.object (.ofExcept ((t.narrow v).map (BoundObject.convert n)))
      rw [h.narrow]
    | resolveNamed field args => rfl
    | item index => rfl

end AbstractType

/-! ## Walks that run what they resolve -/

/-- A step of a walk: an operation on a value, or running a resolution. -/
inductive Action where
  | operate (op : Operation)
  | run

namespace Reached

/-- One more step of a walk, where `run` runs the computations of the context. Errors end a walk. -/
def next (D : Definitions S) (run : {α : Type} → S.Deferred c α → α) :
    Action → Reached S.toEffects c (Bound S c) → Reached S.toEffects c (Bound S c)
  | .operate op, .value b => b.step D op
  | .run, .resolution (.pure b) => .value b
  | .run, .resolution (.deferred x) => .value (run x)
  | _, .failed e => .failed e
  | _, .unfinished => .unfinished
  | _, _ => .refused

/-- Where a path leads to. -/
def walk (D : Definitions S) (run : {α : Type} → S.Deferred c α → α) (path : List Action)
    (start : Reached S.toEffects c (Bound S c)) : Reached S.toEffects c (Bound S c) :=
  path.foldl (fun reached action => reached.next D run action) start

/-- Two outcomes of a walk are the same: the same error, the same resolution with the same
computation in it, or values that agree. -/
inductive Same (D : Definitions S) : Reached S.toEffects c (Bound S c) →
    Reached S.toEffects c (Bound S c) → Prop
  | refl (r : Reached S.toEffects c (Bound S c)) : Same D r r
  | value {a b : Bound S c} : a.Agrees D b → Same D (.value a) (.value b)

/-- One step from the same leads to the same. -/
theorem Same.next {r r' : Reached S.toEffects c (Bound S c)} (h : Same D r r')
    (run : {α : Type} → S.Deferred c α → α) (action : Action) :
    Same D (r.next D run action) (r'.next D run action) := by
  cases h with
  | refl => exact .refl _
  | value hab =>
    cases action with
    | operate op =>
      change Same D (Bound.step D op _) (Bound.step D op _)
      rw [hab.step op]
      exact .refl _
    | run => exact .refl _

theorem Same.walk {r r' : Reached S.toEffects c (Bound S c)} (h : Same D r r')
    (run : {α : Type} → S.Deferred c α → α) (path : List Action) :
    Same D (r.walk D run path) (r'.walk D run path) := by
  induction path generalizing r r' with
  | nil => exact h
  | cons action rest ih => exact ih (h.next run action)

end Reached

/-! ## Putting a type together -/

/-- An object, interface or union as it is put together from declared fields and from members. -/
inductive Parts (S : Signature) (c : S.Context) where
  | object (name : String) (fields : List (String × Field S c))
  | interface (name : String) (fields : List (String × Field S c)) (members : List (Member S c))
  | union (name : String) (members : List (Member S c))

/-- Fields held as they are declared. -/
def Fields.ofDeclared (fields : List (String × Field S c)) : Fields S c :=
  fields.map fun p => (p.1, .declared p.2)

namespace Parts

/-- The output type put together. -/
def output : Parts S c → OutputType S c
  | .object name fields => .object ⟨name, .ofDeclared fields⟩
  | .interface name fields members => .abstract (.interface name (.ofDeclared fields) members)
  | .union name members => .abstract (.union name members)

/-- Every field and every member converted by itself. -/
def convertEach (n : S.Conversion c d) : Parts S c → Parts S d
  | .object name fields => .object name (fields.map fun p => (p.1, p.2.convert n))
  | .interface name fields members =>
    .interface name (fields.map fun p => (p.1, p.2.convert n)) (members.map (Member.converted n))
  | .union name members => .union name (members.map (Member.converted n))

/-- The object, interface or union converted as a whole, as an output type. -/
def convertWhole (n : S.Conversion c d) : Parts S c → OutputType S d
  | .object name fields => .object (.convert n ⟨name, .ofDeclared fields⟩)
  | .interface name fields members =>
    .abstract (.convert n (.interface name (.ofDeclared fields) members))
  | .union name members => .abstract (.convert n (.union name members))

theorem mirrors_ofDeclared (hE : S.MapsCompose) (hn : S.Natural n)
    (fields : List (String × Field S c)) :
    Fields.Mirrors D n (.ofDeclared (fields.map fun p => (p.1, p.2.convert n)))
      (.ofDeclared fields) := by
  have h : Fields.Mirrors D n (fields.map fun p => (p.1, .declared (p.2.convert n)))
      (.ofDeclared fields) :=
    Fields.mirrors_map (Resolver.mirrors_declared hE hn) fields
  simpa [Fields.ofDeclared, Function.comp_def] using h

theorem convertEach_agrees (hE : S.MapsCompose) (hn : S.Natural n) (x : Parts S c) (v : S.Value) :
    ((x.convertEach n).output.bind v).Agrees D ((x.output.bind v).convert n) := by
  cases x with
  | object name fields =>
    have h : ObjectType.Mirrors D n ⟨name, .ofDeclared (fields.map fun p => (p.1, p.2.convert n))⟩
        ⟨name, .ofDeclared fields⟩ := ⟨rfl, mirrors_ofDeclared hE hn fields⟩
    exact ObjectType.bind_agrees h v
  | interface name fields members =>
    exact AbstractType.bind_agrees (.interface name members (mirrors_ofDeclared hE hn fields)) v
  | union name members => exact AbstractType.bind_agrees (.union name members) v

theorem convertWhole_agrees (x : Parts S c) (v : S.Value) :
    ((x.convertWhole n).bind v).Agrees D ((x.output.bind v).convert n) := by
  cases x with
  | object name fields => exact ObjectType.bind_agrees (ObjectType.mirrors_convert _) v
  | interface name fields members => exact AbstractType.bind_agrees (AbstractType.mirrors_convert _) v
  | union name members => exact AbstractType.bind_agrees (AbstractType.mirrors_convert _) v

end Parts

/-- However an object, interface or union is carried to another context, every walk over its values
comes to the same: put together anew from converted fields and members, converted as a whole,
converted as an output type, or converted after binding. -/
theorem conversions_agree (hE : S.MapsCompose) (hn : S.Natural n) (x : Parts S c) (v : S.Value)
    (run : {α : Type} → S.Deferred d α → α) (path : List Action) :
    let reached (b : Bound S d) := (Reached.value b).walk D run path
    Reached.Same D (reached ((x.convertEach n).output.bind v))
        (reached ((x.output.bind v).convert n)) ∧
      Reached.Same D (reached ((x.convertWhole n).bind v))
        (reached ((x.output.bind v).convert n)) ∧
      Reached.Same D (reached ((OutputType.converted n x.output).bind v))
        (reached ((x.output.bind v).convert n)) :=
  ⟨.walk (.value (x.convertEach_agrees hE hn v)) run path,
    .walk (.value (x.convertWhole_agrees v)) run path, .refl _⟩

namespace JsonHost

/-- Texts alone. -/
def texts : Definitions (host 0 1) := ⟨Fin.elim0, fun _ => .scalar "String" id⟩

/-- A user that is its own name, looked up later. -/
def user : Parts (host 0 1) .thunk :=
  .object "User" [("name", .simple ⟨0, .nil⟩ fun v => .deferred fun _ => v)]

/-- A user put together anew for contexts that keep a log has the name that the user has. -/
theorem user_convertEach_name :
    Reached.Same texts
      ((Reached.value ((user.convertEach Conversion.log).output.bind (.string "Ada"))).walk texts
        runner.run [.operate (.resolve "name" []), .run])
      (.value (.leaf (.string "Ada"))) :=
  (conversions_agree mapsCompose (natural Conversion.log) user (.string "Ada") runner.run _).1

end JsonHost
end QueryTypes
