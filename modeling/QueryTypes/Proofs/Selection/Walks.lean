import QueryTypes.Proofs.Conformance.Binding
import QueryTypes.Proofs.Conversion.JsonHost
import QueryTypes.Proofs.Document.Interfaces
import QueryTypes.Proofs.Selection.Uniform

/-!
# Walks that follow the schema

A walk starts at a root value, resolves fields that the schema declares for the type of the object
at hand, and narrows abstract values; after narrowing it may ask for the fields of the member or of
the interface. Over uniform outputs the objects and abstract values that such a walk meets have entries
under their names, so a client that knows nothing but the schema never asks for an unknown name.
The invariant is that everything met has a reached shape.
-/

namespace QueryTypes

variable {S : Signature} {c : S.Context} {D : Definitions S} {R : Runner S.toEffects}

/-! ## Walks -/

/-- The schema declares the field, with arguments of the given names, for one of the types. -/
def Schema.Offers (schema : Schema S c) (types : List String) (field : String)
    (args : Keyed Payload) : Prop :=
  ∃ t ∈ types, ∃ r, schema.output? t = some r ∧ r.Declares field args

/-- The type by which a value is asked for fields, if it is an object. -/
def Bound.typenames : Bound S c → List String
  | .object o => [o.typename]
  | _ => []

/-- A walk from the root meets the value, and may ask it for the fields of the given types. -/
inductive Schema.Visits (schema : Schema S c) (D : Definitions S) (R : Runner S.toEffects)
    (root : S.Value) : Bound S c → List String → Prop
  | root : Visits schema D R root (.object (schema.bind root)) [(schema.bind root).typename]
  /-- What a field gives when run, or an item anywhere in its lists. -/
  | field {o : BoundObject S c} {types : List String} {field : String} {args : Keyed Payload}
      {r : S.FieldResolution c} {path : List Nat} {b : Bound S c} :
      Visits schema D R root (.object o) types → schema.Offers types field args →
      o.resolveNamed D field args = .ok r → (R.resolved r).item? path = some b →
      Visits schema D R root b b.typenames
  /-- The member, also asked as what it was narrowed from. -/
  | narrow {a : BoundAbstract S c} {types : List String} {o : BoundObject S c} :
      Visits schema D R root (.abstract a) types → a.narrow = .ok o →
      Visits schema D R root (.object o) [o.typename, a.typename]

/-! ## Shapes of what is met -/

/-- An object or abstract value has the shape inside the lists and optionals of `s`. -/
def Bound.HasCore (s : OutputShape S c) : Bound S c → Prop
  | .object o => s.core = .object o.shape
  | .abstract a => s.core = a.shape
  | _ => True

theorem Bound.IsShaped.hasCore {b x : Bound S c} {s : OutputShape S c} (h : b.IsShaped s)
    {path : List Nat} (hx : b.item? path = some x) : x.HasCore s := by
  have hself {b x : Bound S c} (hb : ∀ items, b ≠ .list items) {path : List Nat}
      (hx : b.item? path = some x) : x = b := by
    cases path with
    | nil => exact (Option.some.inj hx).symm
    | cons i path =>
      cases b with
      | list items => exact absurd rfl (hb items)
      | _ => cases hx
  induction h generalizing path with
  | leaf | token | unmapped | null =>
    rw [hself (by simp) hx]
    trivial
  | list _ ih =>
    cases path with
    | nil =>
      cases hx
      trivial
    | cons i path =>
      obtain ⟨b, hb, hx⟩ := Option.bind_eq_some_iff.1 hx
      exact ih b (List.mem_of_getElem? hb) hx
  | present _ ih => exact ih hx
  | object h =>
    rw [hself (by simp) hx]
    exact congrArg OutputShape.object h.symm
  | interface h | union h =>
    rw [hself (by simp) hx]
    exact h.symm

/-! ## The invariant -/

section Accepted
variable {query : ObjectType S c} {schema : Schema S c} {root : S.Value}

/-- What is met has a reached shape, and each type that an object is asked as is its own or that of
a reached abstract output with the object among its members. -/
def Follows (D : Definitions S) (query : ObjectType S c) (types : List String) : Bound S c → Prop
  | .object o => Reaches D query (.output (.object o.shape)) ∧ ∀ t ∈ types,
      t = o.typename ∨ ∃ s : OutputShape S c, Reaches D query (.output s) ∧ s.namedType = t ∧
        o.shape ∈ s.members
  | .abstract a => Reaches D query (.output a.shape)
  | _ => True

/-- The shape of an object that follows declares what the schema offers. -/
theorem declares_of_offers (h : Schema.ofQuery D query = .ok schema) (hu : Uniform D query)
    (htrue : TruthfulReferences D query) {o : BoundObject S c} {types : List String}
    (hfollows : Follows D query types (.object o)) {field : String} {args : Keyed Payload}
    (hoffers : schema.Offers types field args) :
    (OutputShape.object o.shape).Declares field args := by
  obtain ⟨hreach, htypes⟩ := hfollows
  obtain ⟨t, ht, r, hr, hd⟩ := hoffers
  obtain ⟨-, hname, hrreach, -⟩ := reaches_of_output? h hr
  -- asked as what it was narrowed from, the entry of that name has a member of the object's name
  rcases htypes t ht with rfl | ⟨s, hs, hst, hmember⟩
  · exact (hu _ r hreach hrreach (o.typename_eq.symm.trans hname.symm)).declares hd
  · have halike : r.Alike D s := hu r s hrreach hs (hname.trans hst.symm)
    obtain ⟨k, hk, hkname⟩ := halike.exists_member hmember
    have hkobject : (OutputShape.object o.shape).Alike D (.object k) :=
      hu _ _ hreach (hrreach.tail (.member hk)) hkname.symm
    exact hkobject.declares (declares_of_member h hu htrue hr hd hk)

namespace Follows
variable {o : BoundObject S c} {types : List String}

theorem start (h : Schema.ofQuery D query = .ok schema) :
    Follows D query [(schema.bind root).typename] (.object (schema.bind root)) := by
  have hroot : (schema.bind root).shape = query.shape := by rw [← query_eq_of_ofQuery h]; rfl
  refine ⟨?_, fun t ht => .inl (List.mem_singleton.1 ht)⟩
  rw [hroot]
  exact .refl

/-- What a declared field gives is inside the output that the field refers to. -/
theorem field (hE : S.AllNatural) (hfollows : Follows D query types (.object o)) {field : String}
    {args : Keyed Payload} (hd : (OutputShape.object o.shape).Declares field args)
    {r : S.FieldResolution c} (hresolve : o.resolveNamed D field args = .ok r) {path : List Nat}
    {b : Bound S c} (hitem : (R.resolved r).item? path = some b) :
    Follows D query b.typenames b := by
  obtain ⟨f, hf, -⟩ := hd
  obtain ⟨v, hbound⟩ := (BoundObject.resolveNamed_yields (R := R) hE hf hresolve).resolved
  have hcore : b.HasCore (f.output.shape D) :=
    ((f.output.type D).bind_isShaped v).hasCore (hbound ▸ hitem)
  have hreach : Reaches D query (.output (f.output.shape D).core) :=
    hfollows.1.tail (.field (List.mem_of_find?_eq_some hf))
  cases b with
  | object o' =>
    have hshape : (f.output.shape D).core = .object o'.shape := hcore
    exact ⟨hshape ▸ hreach, fun t ht => .inl (List.mem_singleton.1 ht)⟩
  | abstract a =>
    have hshape : (f.output.shape D).core = a.shape := hcore
    rwa [hshape] at hreach
  | _ => trivial

theorem narrow {a : BoundAbstract S c} (hreach : Follows D query types (.abstract a))
    (hnarrow : a.narrow = .ok o) : Follows D query [o.typename, a.typename] (.object o) := by
  have hmember : o.shape ∈ a.shape.members := BoundAbstract.shape_of_narrow hnarrow
  refine ⟨hreach.tail (.member hmember), fun t ht => ?_⟩
  rcases List.mem_cons.1 ht with rfl | ht
  · exact .inl rfl
  · cases List.mem_singleton.1 ht
    exact .inr ⟨a.shape, hreach, a.typename_eq.symm, hmember⟩

end Follows

/-- Whatever a walk meets follows. -/
theorem follows_of_visits (hE : S.AllNatural) (h : Schema.ofQuery D query = .ok schema)
    (hu : Uniform D query) (htrue : TruthfulReferences D query) {b : Bound S c}
    {types : List String} (hv : schema.Visits D R root b types) : Follows D query types b := by
  induction hv with
  | root => exact .start h
  | field _ hoffers hresolve hitem ih =>
    exact ih.field hE (declares_of_offers h hu htrue ih hoffers) hresolve hitem
  | narrow _ hnarrow ih => exact .narrow ih hnarrow

/-! ## What a walk meets -/

theorem BoundAbstract.kind_shape (a : BoundAbstract S c) :
    a.shape.kind = .interface ∨ a.shape.kind = .union := by
  obtain ⟨origin, type, value, conversions⟩ := a
  induction conversions with
  | nil =>
    cases type with
    | interface name fields members => exact .inl rfl
    | union name members => exact .inr rfl
  | snoc chain n ih =>
    have hkind : (BoundAbstract.mk origin type value (chain.snoc n)).shape.kind =
        (BoundAbstract.mk origin type value chain).shape.kind := OutputShape.kind_convert n _
    rwa [hkind]

/-- Walks that follow an accepted schema of uniform outputs ask for nothing unknown. Every object
that one meets has an entry of its name that is an object, and a field that the schema offers is
refused for the payloads of its arguments only. Every abstract value has an entry of its name that
is an interface or a union; it narrows to objects with the names of members of that entry, and is
refused only if no member accepts the value. -/
theorem walks_ask_known_names (hE : S.AllNatural) (h : Schema.ofQuery D query = .ok schema)
    (hu : Uniform D query) (htrue : TruthfulReferences D query) {b : Bound S c}
    {types : List String} (hv : schema.Visits D R root b types) :
    (∀ o, b = .object o → (∃ s, schema.output? o.typename = some (.object s)) ∧
      ∀ field args, schema.Offers types field args → ∀ e,
        o.resolveNamed D field args = .error e → e.OfArguments) ∧
    ∀ a, b = .abstract a → ∃ r, schema.output? a.typename = some r ∧
      (r.kind = .interface ∨ r.kind = .union) ∧
      (∀ o, a.narrow = .ok o → ∃ m ∈ r.members, m.name = o.typename) ∧
      ∀ e, a.narrow = .error e → e = .noMatchingMember a.typename := by
  have hfollows := follows_of_visits hE h hu htrue hv
  refine ⟨fun o hb => ?_, fun a hb => ?_⟩
  · subst hb
    obtain ⟨r, hr, halike⟩ := entered_of_reaches h hu hfollows.1
    obtain ⟨-, -, hreach, -⟩ := reaches_of_output? h hr
    obtain ⟨s, rfl⟩ := OutputShape.exists_object (isSome_name?_of_reaches hreach) halike.kind
    refine ⟨⟨s, o.typename_eq ▸ hr⟩, fun field args hoffers e he => ?_⟩
    exact BoundObject.ofArguments_of_resolveNamed
      (declares_of_offers h hu htrue hfollows hoffers) he
  · subst hb
    obtain ⟨r, hr, halike⟩ := entered_of_reaches h hu hfollows
    refine ⟨r, a.typename_eq ▸ hr, halike.kind ▸ a.kind_shape, fun o ho => ?_,
      fun e he => a.narrow_eq_error he⟩
    obtain ⟨k, hk, hname⟩ := halike.exists_member (BoundAbstract.shape_of_narrow ho)
    exact ⟨k, hk, hname.trans o.typename_eq.symm⟩

end Accepted

/-! ## Asking a dog that is a pet -/

namespace Pets
open JsonHost

/-- A dog refers to texts only. -/
theorem eq_of_dog_links {t : Fin 4} (ht : (definitions.output t).shape = .scalar "String")
    {d : Definition (host 0 4) Context.thunk}
    (h : (Definition.output (.object (dog t).shape)).Links definitions d) :
    d = .output (.scalar "String") := by
  have htext : (OutputRef.shape definitions ⟨t, .nil⟩).core = .scalar "String" :=
    congrArg OutputShape.core ht
  cases h with
  | field hf =>
    rcases List.mem_cons.1 hf with rfl | hf
    · exact congrArg Definition.output htext
    · cases List.mem_singleton.1 hf
      exact congrArg Definition.output htext
  | member hm => cases hm
  | input hs _ => cases hs

theorem eq_of_reaches {d : Definition (host 0 4) Context.thunk} (h : Reaches definitions query d) :
    d = query.definition ∨ d = .output (.object (dog 0).shape) ∨ d = .output pet.shape ∨
      d = .output (.object (dog 1).shape) ∨ d = .output (.scalar "String") := by
  induction h with
  | refl => exact .inl rfl
  | @tail d e _ hlink ih =>
    rcases ih with rfl | rfl | rfl | rfl | rfl
    · cases hlink with
      | field hf =>
        rcases List.mem_cons.1 hf with rfl | hf
        · exact .inr (.inl rfl)
        · cases List.mem_singleton.1 hf
          exact .inr (.inr (.inl rfl))
      | member hm => cases hm
      | input hs _ => cases hs
    · exact .inr (.inr (.inr (.inr (eq_of_dog_links rfl hlink))))
    · cases hlink with
      | field hf =>
        cases List.mem_singleton.1 hf
        exact .inr (.inr (.inr (.inr rfl)))
      | member hm =>
        cases List.mem_singleton.1 hm
        exact .inr (.inr (.inr (.inl rfl)))
      | input hs _ => cases hs
    · exact .inr (.inr (.inr (.inr (eq_of_dog_links rfl hlink))))
    · exact absurd hlink (Definition.not_links rfl rfl rfl)

theorem uniform : Uniform definitions query := by
  intro s t hs ht hname
  rcases eq_of_reaches hs with h | h | h | h | h <;> cases h <;>
    rcases eq_of_reaches ht with h | h | h | h | h <;> cases h <;>
      first
      | exact ⟨rfl, rfl, rfl⟩
      | exact absurd hname (by decide)

theorem truthful : TruthfulReferences definitions query := by
  intro d hd s hs
  rcases eq_of_reaches hd with rfl | rfl | rfl | rfl | rfl <;> cases hs

/-- A dog. -/
def rex : Json := .object [("kind", .int 1), ("name", .string "Rex")]

theorem visits_rex :
    schema.Visits definitions runner rex (.object ((dog 1).bind rex)) ["Dog", "Pet"] := by
  have hpet : schema.Offers ["Query"] "pet" [] :=
    ⟨"Query", .head _, .object query.shape, rfl, ⟨"pet", [], ⟨3, .nil⟩⟩, rfl, by simp [Keyed.keys]⟩
  have hitem : Bound.item? (.abstract (pet.bind rex)) [] = some (.abstract (pet.bind rex)) := rfl
  have hmet : schema.Visits definitions runner rex (.abstract (pet.bind rex)) [] :=
    .field .root hpet rfl hitem
  exact .narrow hmet rfl

/-- Rex may be asked for the fields of a dog and for those of a pet. -/
theorem rex_asked : (∃ s, schema.output? "Dog" = some (.object s)) ∧
    ∀ field args, schema.Offers ["Dog", "Pet"] field args → ∀ e,
      ((dog 1).bind rex).resolveNamed definitions field args = .error e → e.OfArguments :=
  (walks_ask_known_names natural accepted uniform truthful visits_rex).1 _ rfl

end Pets
end QueryTypes
