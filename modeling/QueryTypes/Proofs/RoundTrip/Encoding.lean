import Mathlib.Data.List.Forall2
import QueryTypes.Proofs.Conversion.Laws

/-!
# The JSON of whole values

`Bound.Encodes` is the encoding of a bound value without a selection: lists item by item, and
objects as the JSON object of all their fields, each resolved without arguments, run, and encoded
likewise.
It says what `Bound.toJson?` says wherever that has an answer, and goes on below objects.
-/

namespace QueryTypes

/-! ## Members of JSON objects -/

namespace Json

theorem lookup_putMember (members : List (String × Json)) (name : String) (value : Json)
    (k : String) :
    (putMember members name value).lookup k =
      if k = name then some value else members.lookup k := by
  induction members with
  | nil => simp [putMember, Keyed.lookup_cons]
  | cons m rest ih =>
    obtain ⟨key, v⟩ := m
    simp only [putMember]
    split
    · rename_i h
      subst h
      simp only [Keyed.lookup_cons]
      split <;> rfl
    · rename_i hne
      -- put before the first greater key, or further on
      split
      · simp only [Keyed.lookup_cons]
      · simp only [Keyed.lookup_cons, ih]
        by_cases hk : k = key
        · subst hk
          simp [Ne.symm hne]
        · simp [hk]

/-- Of the members given under a name, the last one counts. -/
theorem member?_ofMembers (pairs : List (String × Json)) (k : String) :
    (ofMembers pairs).member? k = pairs.reverse.lookup k := by
  suffices h : ∀ members : List (String × Json),
      (pairs.foldl (fun ms p => putMember ms p.1 p.2) members).lookup k =
        (pairs.reverse.lookup k).or (members.lookup k) from (h []).trans (by simp)
  induction pairs with
  | nil => simp
  | cons p rest ih =>
    intro members
    rw [List.foldl_cons, ih, List.reverse_cons, List.lookup_append, lookup_putMember,
      Keyed.lookup_cons]
    cases rest.reverse.lookup k <;> by_cases h : k = p.1 <;> simp [h]

end Json

/-! ## Encoding -/

variable {S : Signature} {c : S.Context} {D : Definitions S} {R : Runner S.toEffects}

/-- The JSON of a bound value with everything in it. -/
inductive Bound.Encodes (D : Definitions S) (R : Runner S.toEffects) : Bound S c → Json → Prop
  | leaf (json : Json) : Encodes D R (.leaf json) json
  | token (name : String) : Encodes D R (.token name) (.string name)
  | null : Encodes D R .null .null
  | list {items : List (Bound S c)} {js : List Json} :
      items.length = js.length → (∀ b j, (b, j) ∈ items.zip js → Encodes D R b j) →
      Encodes D R (.list items) (.array js)
  /-- All fields that the object declares, each run and encoded. -/
  | object {o : BoundObject S c} {resolved : String → S.FieldResolution c}
      {members : List (String × Json)} :
      members.map Prod.fst = o.shape.fields.map FieldShape.name →
      (∀ f ∈ o.shape.fields, o.resolve D f.name [] = .ok (resolved f.name)) →
      (∀ name j, (name, j) ∈ members → Encodes D R (R.resolved (resolved name)) j) →
      Encodes D R (.object o) (Json.ofMembers members)

namespace Bound

theorem encodes_list_iff {items : List (Bound S c)} {j : Json} :
    (list items).Encodes D R j ↔
      ∃ js, List.Forall₂ (Encodes D R) items js ∧ j = .array js := by
  constructor
  · intro h
    cases h with
    | list hlen hzip => exact ⟨_, List.forall₂_iff_zip.2 ⟨hlen, fun {b j} => hzip b j⟩, rfl⟩
  · rintro ⟨js, hjs, rfl⟩
    obtain ⟨hlen, hzip⟩ := List.forall₂_iff_zip.1 hjs
    exact .list hlen fun b j => hzip

mutual
/-- Where a bound value encodes without a selection, that is its encoding. -/
theorem encodes_of_toJson? : (b : Bound S c) → {j : Json} → b.toJson? = some j → b.Encodes D R j
  | .leaf json, _, h => by
    cases h
    exact .leaf json
  | .token name, _, h => by
    cases h
    exact .token name
  | .null, _, h => by
    cases h
    exact .null
  | .list items, _, h => by
    rw [toJson?, Option.map_eq_some_iff] at h
    obtain ⟨js, hjs, rfl⟩ := h
    exact encodes_list_iff.2 ⟨js, encodes_of_itemsToJson? items hjs, rfl⟩
  | .object _, _, h => by simp [toJson?] at h
  | .abstract _, _, h => by simp [toJson?] at h
  | .unmapped _, _, h => by simp [toJson?] at h

theorem encodes_of_itemsToJson? : (items : List (Bound S c)) → {js : List Json} →
    itemsToJson? items = some js → List.Forall₂ (Encodes D R) items js
  | [], _, h => by
    cases h
    exact .nil
  | b :: rest, _, h => by
    rw [itemsToJson?] at h
    split at h
    · rename_i j js hj hjs
      cases h
      exact .cons (encodes_of_toJson? b hj) (encodes_of_itemsToJson? rest hjs)
    · cases h
end

end Bound
end QueryTypes
