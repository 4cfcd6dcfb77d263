import QueryTypes.Proofs.Conformance.Yields
import QueryTypes.Proofs.Conversion.Agreement

/-!
# Bound values conform to declared shapes

`Bound.Fits` is one layer of conformance, as deep as lists and optionals go. Objects and abstract
values are looked into one layer at a time (`Bound.Conforms`), since types may be recursive: every
value a field gives conforms, one layer less deep, to the output that the field declares. Every
object value conforms to its own shape (`BoundObject.conforms`), so binding only has to give values
whose shapes are the declared ones.
-/

namespace QueryTypes

variable {S : Signature} {c d : S.Context} {D : Definitions S} {R : Runner S.toEffects}

/-! ## Conformance -/

/-- A bound value fits a shape, given which objects and abstract values fit theirs. -/
inductive Bound.Fits (O : ObjectShape S c → BoundObject S c → Prop)
    (A : OutputShape S c → BoundAbstract S c → Prop) : OutputShape S c → Bound S c → Prop
  | leaf (name : String) (json : Json) : Fits O A (.scalar name) (.leaf json)
  | token (name : String) {values : List String} {token : String} :
      token ∈ values → Fits O A (.enumeration name values) (.token token)
  | unmapped (name : String) (values : List String) :
      Fits O A (.enumeration name values) (.unmapped name)
  | list {item : OutputShape S c} {items : List (Bound S c)} :
      (∀ b ∈ items, Fits O A item b) → Fits O A (.list item) (.list items)
  | null (inner : OutputShape S c) : Fits O A (.optional inner) .null
  | present {inner : OutputShape S c} {b : Bound S c} :
      Fits O A inner b → Fits O A (.optional inner) b
  | object {s : ObjectShape S c} {o : BoundObject S c} : O s o → Fits O A (.object s) (.object o)
  | interface {name : String} {fields : List (FieldShape S c)} {members : List (ObjectShape S c)}
      {a : BoundAbstract S c} :
      A (.interface name fields members) a → Fits O A (.interface name fields members) (.abstract a)
  | union {name : String} {members : List (ObjectShape S c)} {a : BoundAbstract S c} :
      A (.union name members) a → Fits O A (.union name members) (.abstract a)

/-- An object has the name and the shape it should, and what its declared fields give when run
satisfies `P` with the shape of their output. -/
structure BoundObject.Conforms (D : Definitions S) (R : Runner S.toEffects)
    (P : OutputShape S c → Bound S c → Prop) (s : ObjectShape S c) (o : BoundObject S c) : Prop where
  typename : o.typename = s.name
  shape : o.shape = s
  resolve : ∀ name f, s.field? name = some f → ∀ args r, o.resolve D name args = .ok r →
    P (f.output.shape D) (R.resolved r)
  resolveNamed : ∀ name f, s.field? name = some f → ∀ args r, o.resolveNamed D name args = .ok r →
    P (f.output.shape D) (R.resolved r)

/-- An abstract value has the name and the shape it should, narrows to nothing but members, and what
its declared fields give when run satisfies `P`. -/
structure BoundAbstract.Conforms (D : Definitions S) (R : Runner S.toEffects)
    (P : OutputShape S c → Bound S c → Prop) (s : OutputShape S c) (a : BoundAbstract S c) :
    Prop where
  typename : a.typename = s.namedType
  shape : a.shape = s
  narrow : ∀ o, a.narrow = .ok o → ∃ m ∈ s.members, o.Conforms D R P m
  resolve : ∀ name f, s.field? name = some f → ∀ args r, a.resolve D name args = .ok r →
    P (f.output.shape D) (R.resolved r)

/-- A bound value conforms to a shape through `k` layers of objects and abstract values. -/
def Bound.Conforms (D : Definitions S) (R : Runner S.toEffects) :
    Nat → OutputShape S c → Bound S c → Prop
  | 0 => fun _ _ => True
  | k + 1 => Bound.Fits (BoundObject.Conforms D R (Conforms D R k))
      (BoundAbstract.Conforms D R (Conforms D R k))

theorem Bound.Fits.mono {O O' : ObjectShape S c → BoundObject S c → Prop}
    {A A' : OutputShape S c → BoundAbstract S c → Prop} (hO : ∀ s o, O s o → O' s o)
    (hA : ∀ s a, A s a → A' s a) {s : OutputShape S c} {b : Bound S c} (h : b.Fits O A s) :
    b.Fits O' A' s := by
  induction h with
  | leaf name json => exact .leaf name json
  | token name h => exact .token name h
  | unmapped name values => exact .unmapped name values
  | list _ ih => exact .list ih
  | null inner => exact .null inner
  | present _ ih => exact .present ih
  | object h => exact .object (hO _ _ h)
  | interface h => exact .interface (hA _ _ h)
  | union h => exact .union (hA _ _ h)

/-- A bound value fits a shape as far as the shapes of its objects and abstract values go. -/
def Bound.IsShaped (b : Bound S c) (s : OutputShape S c) : Prop :=
  b.Fits (fun s o => o.shape = s) (fun s a => a.shape = s) s

/-! ## Binding gives the declared shapes -/

theorem Bound.IsShaped.convert (n : S.Conversion c d) {b : Bound S c} {s : OutputShape S c}
    (h : b.IsShaped s) : (b.convert n).IsShaped (s.convert n) := by
  induction h with
  | leaf name json => exact .leaf name json
  | token name h => exact .token name h
  | unmapped name values => exact .unmapped name values
  | @list item items _ ih =>
    refine Fits.list fun b hb => ?_
    rw [convertItems_eq_map] at hb
    obtain ⟨x, hx, rfl⟩ := List.mem_map.1 hb
    exact ih x hx
  | null inner => exact .null _
  | present _ ih => exact .present ih
  | object h => exact .object (congrArg (ObjectShape.convert n) h)
  | interface h => exact .interface (congrArg (OutputShape.convert n) h)
  | union h => exact .union (congrArg (OutputShape.convert n) h)

theorem OutputType.bind_isShaped : {c : S.Context} → (t : OutputType S c) → (v : S.Value) →
    (t.bind v).IsShaped t.shape
  | _, .scalar name encode, v => .leaf name (encode v)
  | _, .enumeration name pairs, v => by
    unfold OutputType.bind
    split
    · rename_i p hp
      exact .token name (List.mem_map_of_mem (List.mem_of_find?_eq_some hp))
    · exact .unmapped name _
  | _, .list items item, v => by
    refine .list fun b hb => ?_
    obtain ⟨x, -, rfl⟩ := List.mem_map.1 hb
    exact bind_isShaped item x
  | _, .optional view inner, v => by
    unfold OutputType.bind
    split
    · exact .present (bind_isShaped inner _)
    · exact .null _
  | _, .object type, v => .object rfl
  | _, .abstract type, v => by
    cases type with
    | interface name fields members => exact .interface rfl
    | union name members => exact .union rfl
  | _, .converted n inner, v => (bind_isShaped inner v).convert n

/-! ## Names and members -/

theorem BoundObject.typename_eq (o : BoundObject S c) : o.typename = o.shape.name := by
  obtain ⟨origin, type, value, conversions⟩ := o
  induction conversions with
  | nil => rfl
  | snoc chain n ih => exact ih

theorem BoundAbstract.typename_eq (a : BoundAbstract S c) : a.typename = a.shape.namedType := by
  obtain ⟨origin, type, value, conversions⟩ := a
  induction conversions with
  | nil => cases type <;> rfl
  | snoc chain n ih => exact ih.trans (OutputShape.namedType_convert n _).symm

/-- A member narrows to objects of its own shape. -/
theorem Member.shape_of_narrow : {c : S.Context} → (m : Member S c) → (v : S.Value) →
    {o : BoundObject S c} → m.narrow v = some o → o.shape = m.shape
  | _, .concrete object narrowing, v, o, h => by
    obtain ⟨x, -, rfl⟩ := Option.map_eq_some_iff.1 h
    rfl
  | _, .contramapped f inner, v, o, h => shape_of_narrow inner (f v) h
  | _, .converted n inner, v, o, h => by
    obtain ⟨x, hx, rfl⟩ := Option.map_eq_some_iff.1 h
    exact congrArg (ObjectShape.convert n) (shape_of_narrow inner v hx)

theorem AbstractType.shape_of_narrow {t : AbstractType S c} {v : S.Value} {o : BoundObject S c}
    (h : t.narrow v = .ok o) : o.shape ∈ t.shape.members := by
  have hmembers : t.shape.members = t.members.map Member.shape := by
    cases t <;> rfl
  unfold AbstractType.narrow at h
  split at h
  · rename_i found hfound
    cases h
    obtain ⟨m, hm, hnarrow⟩ := List.exists_of_findSome?_eq_some hfound
    rw [hmembers, m.shape_of_narrow v hnarrow]
    exact List.mem_map_of_mem hm
  · cases h

/-- An abstract value narrows to objects of the shapes of its members. -/
theorem BoundAbstract.shape_of_narrow {a : BoundAbstract S c} {o : BoundObject S c}
    (h : a.narrow = .ok o) : o.shape ∈ a.shape.members := by
  obtain ⟨origin, type, value, conversions⟩ := a
  induction conversions with
  | nil => exact AbstractType.shape_of_narrow h
  | snoc chain n ih =>
    have hlink : (BoundAbstract.narrow ⟨origin, type, value, chain⟩).map (BoundObject.convert n) =
        .ok o := h
    cases hinner : BoundAbstract.narrow ⟨origin, type, value, chain⟩ with
    | ok inner =>
      rw [hinner] at hlink
      cases hlink
      change inner.shape.convert n ∈ (OutputShape.convert n _).members
      rw [OutputShape.members_convert]
      exact List.mem_map_of_mem (ih hinner)
    | error e =>
      rw [hinner] at hlink
      cases hlink

/-! ## Layers -/

section Layers
variable {k : Nat} (hE : S.AllNatural)
  (hk : ∀ (r : OutputRef S c) (b : Bound S c), r.Binds D b → b.Conforms D R k (r.shape D))
include hE hk

/-- An object value conforms to its own shape if what its fields give conforms. -/
theorem BoundObject.conforms (o : BoundObject S c) :
    o.Conforms D R (Bound.Conforms D R k) o.shape where
  typename := o.typename_eq
  shape := rfl
  resolve := fun _ _ hf _ _ h => hk _ _ (resolve_yields hE hf h).resolved
  resolveNamed := fun _ _ hf _ _ h => hk _ _ (resolveNamed_yields hE hf h).resolved

theorem BoundAbstract.conforms (a : BoundAbstract S c) :
    a.Conforms D R (Bound.Conforms D R k) a.shape where
  typename := a.typename_eq
  shape := rfl
  narrow := fun o h => ⟨o.shape, shape_of_narrow h, o.conforms hE hk⟩
  resolve := fun _ _ hf _ _ h => hk _ _ (resolve_yields hE hf h).resolved

theorem Bound.IsShaped.conforms {b : Bound S c} {s : OutputShape S c} (h : b.IsShaped s) :
    b.Conforms D R (k + 1) s :=
  h.mono (fun _ o ho => ho ▸ o.conforms hE hk) fun _ a ha => ha ▸ a.conforms hE hk

end Layers

theorem OutputType.bind_conforms (hE : S.AllNatural) (k : Nat) (t : OutputType S c) (v : S.Value) :
    (t.bind v).Conforms D R k t.shape := by
  -- by layers, not by types: the output of a field is no part of the type that has the field
  induction k generalizing c t v with
  | zero => trivial
  | succ k ih =>
    refine (t.bind_isShaped v).conforms hE fun r b hb => ?_
    obtain ⟨x, rfl⟩ := hb
    exact ih (r.type D) x

/-! ## Lists -/

/-- How many items there are at each level of lists. -/
inductive Nesting where
  | item
  | list (items : List Nesting)

mutual
/-- The lists in a bound value. -/
def Bound.nesting : Bound S c → Nesting
  | .list items => .list (Bound.nestings items)
  | _ => .item

def Bound.nestings : List (Bound S c) → List Nesting
  | [] => []
  | b :: rest => Bound.nesting b :: Bound.nestings rest
end

/-- The lists that a type finds in a value. -/
def OutputType.nesting : {c : S.Context} → OutputType S c → S.Value → Nesting
  | _, .list items item, v => .list ((items v).map item.nesting)
  | _, .optional view inner, v =>
    match view v with
    | some x => inner.nesting x
    | none => .item
  | _, .converted _ inner, v => inner.nesting v
  | _, _, _ => .item

theorem Bound.nestings_eq_map (items : List (Bound S c)) :
    Bound.nestings items = items.map Bound.nesting := by
  induction items with
  | nil => rfl
  | cons b rest ih => rw [Bound.nestings, ih, List.map_cons]

mutual
theorem Bound.nesting_convert (n : S.Conversion c d) : (b : Bound S c) →
    (b.convert n).nesting = b.nesting
  | .list items => by
    simp only [Bound.convert, Bound.nesting]
    rw [Bound.nestings_convert n items]
  | .leaf _ | .token _ | .null | .object _ | .abstract _ | .unmapped _ => by
    simp only [Bound.convert, Bound.nesting]

theorem Bound.nestings_convert (n : S.Conversion c d) : (items : List (Bound S c)) →
    Bound.nestings (Bound.convertItems n items) = Bound.nestings items
  | [] => rfl
  | b :: rest => by
    simp only [Bound.convertItems, Bound.nestings]
    rw [Bound.nesting_convert n b, Bound.nestings_convert n rest]
end

/-- Binding keeps the number of items of every list. -/
theorem OutputType.nesting_bind : {c : S.Context} → (t : OutputType S c) → (v : S.Value) →
    (t.bind v).nesting = t.nesting v
  | _, .scalar _ _, _ => by simp only [OutputType.bind, Bound.nesting, OutputType.nesting]
  | _, .enumeration _ pairs, v => by
    simp only [OutputType.bind, OutputType.nesting]
    cases pairs.find? fun p => p.2 == v <;> simp only [Bound.nesting]
  | _, .list items item, v => by
    simp only [OutputType.bind, Bound.nesting, OutputType.nesting, Bound.nestings_eq_map,
      List.map_map]
    exact congrArg Nesting.list (List.map_congr_left fun x _ => nesting_bind item x)
  | _, .optional view inner, v => by
    simp only [OutputType.bind, OutputType.nesting]
    cases view v with
    | some x => exact nesting_bind inner x
    | none => simp only [Bound.nesting]
  | _, .object _, _ => by simp only [OutputType.bind, Bound.nesting, OutputType.nesting]
  | _, .abstract _, _ => by simp only [OutputType.bind, Bound.nesting, OutputType.nesting]
  | _, .converted n inner, v => by
    simp only [OutputType.bind, OutputType.nesting]
    exact (Bound.nesting_convert n _).trans (nesting_bind inner v)

/-! ## Encoded lists -/

namespace Bound

/-- The value is a leaf, a token, null or a list. -/
def IsPlain : Bound S c → Prop
  | .object _ | .abstract _ | .unmapped _ => False
  | _ => True

/-- No object, abstract value or value without a token is anywhere in the nested lists. -/
def AllPlain (b : Bound S c) : Prop := ∀ path x, b.item? path = some x → x.IsPlain

theorem allPlain_list (items : List (Bound S c)) :
    (list items).AllPlain ↔ ∀ b ∈ items, b.AllPlain := by
  constructor
  · intro h b hb path x hx
    obtain ⟨i, hi⟩ := List.mem_iff_getElem?.1 hb
    exact h (i :: path) x (by simp [item?, hi, hx])
  · intro h path x hx
    cases path with
    | nil =>
      cases hx
      trivial
    | cons i path =>
      obtain ⟨b, hb, hx⟩ := Option.bind_eq_some_iff.1 hx
      exact h b (List.mem_of_getElem? hb) path x hx

/-- A value that is not a list has nothing in it but itself. -/
theorem allPlain_iff {b : Bound S c} (hb : ∀ items, b ≠ .list items) : b.AllPlain ↔ b.IsPlain := by
  refine ⟨fun h => h [] b rfl, fun h path x hx => ?_⟩
  cases path with
  | nil =>
    cases hx
    exact h
  | cons i path =>
    cases b with
    | list items => exact absurd rfl (hb items)
    | _ => cases hx

theorem isSome_itemsToJson? (items : List (Bound S c)) :
    (itemsToJson? items).isSome ↔ ∀ b ∈ items, b.toJson?.isSome := by
  induction items with
  | nil => simp [itemsToJson?]
  | cons b rest ih =>
    rw [List.forall_mem_cons, ← ih, itemsToJson?]
    cases b.toJson? <;> cases itemsToJson? rest <;> simp

mutual
/-- Exactly the values without objects, abstract values and errors in their lists encode. -/
theorem isSome_toJson? : (b : Bound S c) → (b.toJson?.isSome ↔ b.AllPlain)
  | .list items => by
    rw [allPlain_list, toJson?, Option.isSome_map, isSome_itemsToJson?]
    exact isSome_toJson?_items items
  | .leaf _ | .token _ | .null | .object _ | .abstract _ | .unmapped _ => by
    rw [allPlain_iff (by simp)]
    simp [toJson?, IsPlain]

theorem isSome_toJson?_items : (items : List (Bound S c)) →
    ((∀ b ∈ items, b.toJson?.isSome) ↔ ∀ b ∈ items, b.AllPlain)
  | [] => by simp
  | b :: rest => by
    rw [List.forall_mem_cons, List.forall_mem_cons, isSome_toJson? b, isSome_toJson?_items rest]
end

end Bound

/-! ## Binding -/

/-- Whatever a type binds conforms to its shape through any number of layers: what the declared fields
of an object or interface give when run, with any arguments, conforms to the outputs they declare.
Lists keep their numbers of items at every level, and a bound value encodes without a selection
exactly if its lists hold no object, abstract value or value without a token. -/
theorem bound_values_conform (hE : S.AllNatural) (D : Definitions S) (R : Runner S.toEffects)
    (t : OutputType S c) (v : S.Value) :
    (∀ k, (t.bind v).Conforms D R k t.shape) ∧ (t.bind v).nesting = t.nesting v ∧
      ∀ b : Bound S c, b.toJson?.isSome ↔ ∀ path x, b.item? path = some x → x.IsPlain :=
  ⟨fun k => t.bind_conforms hE k v, t.nesting_bind v, Bound.isSome_toJson?⟩

namespace JsonHost

/-- A user conforms to its type, and so does the name it has. -/
theorem user_conforms :
    (user.output.bind (.string "Ada")).Conforms texts runner 2 user.output.shape :=
  (bound_values_conform natural texts runner user.output (.string "Ada")).1 2

end JsonHost
end QueryTypes
