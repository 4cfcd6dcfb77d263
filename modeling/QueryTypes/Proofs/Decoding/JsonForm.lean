import QueryTypes.JsonHost.Basic
import QueryTypes.Proofs.Decoding.Grammar
import QueryTypes.Proofs.RoundTrip.Encoding

/-!
# Payloads as JSON

What a query writes out as lists, objects and tokens may as well be handed over as one JSON leaf.
`Payload.jsonForm` is that leaf. Each view of a payload shows at least as much of the leaf, so a
payload that stands for a value stands for it as JSON too. The induction is on what the payload
stands for; parts that were leaves before stay as they are.
-/

namespace QueryTypes

/-! ## The JSON form of a payload -/

namespace Payload

/-- The fields of every native object inside have names of their own. -/
inductive Distinct : Payload → Prop
  | leaf (json : Json) : Distinct (.leaf json)
  | list {items : List Payload} : (∀ p ∈ items, Distinct p) → Distinct (.list items)
  | object {fields : Keyed Payload} :
      fields.keys.Nodup → (∀ f ∈ fields, Distinct f.2) → Distinct (.object fields)
  | token (name : String) : Distinct (.token name)

/-- The payload as one leaf. -/
def jsonForm (p : Payload) : Payload := .leaf p.toJson

@[simp] theorem jsonForm_leaf (json : Json) : (leaf json).jsonForm = .leaf json := by
  simp only [jsonForm, toJson]

theorem itemsToJson_eq_map (items : List Payload) : itemsToJson items = items.map toJson := by
  induction items with
  | nil => simp only [itemsToJson, List.map_nil]
  | cons p rest ih => simp only [itemsToJson, List.map_cons, ih]

theorem fieldsToJson_eq_map (fields : List (String × Payload)) :
    fieldsToJson fields = fields.map fun f => (f.1, f.2.toJson) := by
  induction fields with
  | nil => simp only [fieldsToJson, List.map_nil]
  | cons f rest ih => simp only [fieldsToJson, List.map_cons, ih]

variable {p : Payload}

theorem Names.jsonForm {name : String} (h : p.Names name) : p.jsonForm.Names name := by
  cases h with
  | token name =>
    simp only [Payload.jsonForm, toJson]
    exact .string name
  | string name =>
    rw [jsonForm_leaf]
    exact .string name

theorem Lists.jsonForm {elements : List Payload} (h : p.Lists elements) :
    p.jsonForm.Lists (elements.map Payload.jsonForm) := by
  cases h with
  | list =>
    have hmap : elements.map Payload.jsonForm = (elements.map toJson).map .leaf := by
      rw [List.map_map]
      rfl
    rw [hmap, Payload.jsonForm, toJson, itemsToJson_eq_map]
    exact .array _
  | array items =>
    have hmap : (items.map leaf).map Payload.jsonForm = items.map .leaf := by simp
    rw [hmap, jsonForm_leaf]
    exact .array items

theorem Lists.distinct {elements : List Payload} (h : p.Lists elements) (hp : p.Distinct) :
    ∀ q ∈ elements, q.Distinct := by
  cases h with
  | list items =>
    cases hp with
    | list hitems => exact hitems
  | array items =>
    intro q hq
    obtain ⟨json, -, rfl⟩ := List.mem_map.1 hq
    exact .leaf json

/-- Under each name the members of the object stand as they stood among the fields. -/
theorem lookup_ofMembers {fields : Keyed Payload} (h : fields.keys.Nodup)
    {members : List (String × Json)}
    (hmembers : Json.ofMembers (fieldsToJson fields) = .object members) (key : String) :
    members.lookup key = (fields.lookup key).map toJson := by
  have hnodup : (Keyed.keys (fields.map fun f => (f.1, f.2.toJson)).reverse).Nodup := by
    rw [Keyed.keys, List.map_reverse, List.map_map]
    exact List.pairwise_reverse.2 (h.imp Ne.symm)
  have hlast := Json.member?_ofMembers (fieldsToJson fields) key
  rw [hmembers, Json.member?, fieldsToJson_eq_map] at hlast
  rw [hlast, ← Keyed.lookup_map]
  -- names are distinct, so the last member of a name is the first
  cases hfirst : List.lookup key (fields.map fun f => (f.1, f.2.toJson)) with
  | some json =>
    have hmem := Keyed.mem_of_lookup hfirst
    exact Keyed.lookup_eq_some_of_mem hnodup (List.mem_reverse.2 hmem)
  | none =>
    rw [List.lookup_eq_none_iff] at hfirst ⊢
    intro m hm
    exact hfirst m (List.mem_reverse.1 hm)

theorem Keys.jsonForm {fields : Keyed Payload} (h : p.Keys fields) (hp : p.Distinct) :
    ∃ members, p.jsonForm.Keys members ∧
      ∀ key, members.lookup key = (fields.lookup key).map Payload.jsonForm := by
  cases h with
  | object fields =>
    cases hp with
    | object hkeys _ =>
      obtain ⟨members, hmembers⟩ :
        ∃ members, Json.ofMembers (fieldsToJson fields) = .object members := ⟨_, rfl⟩
      rw [Payload.jsonForm, toJson, hmembers]
      refine ⟨_, .leaf members, fun key => ?_⟩
      rw [Keyed.lookup_map, lookup_ofMembers hkeys hmembers, Option.map_map]
      rfl
  | leaf members =>
    rw [jsonForm_leaf]
    refine ⟨_, .leaf members, fun key => ?_⟩
    rw [Keyed.lookup_map, Option.map_map]
    cases members.lookup key <;> simp

theorem Keys.distinct {fields : Keyed Payload} (h : p.Keys fields) (hp : p.Distinct) {key : String}
    {q : Payload} (hq : fields.lookup key = some q) : q.Distinct := by
  have hmem := Keyed.mem_of_lookup hq
  cases h with
  | object fields =>
    cases hp with
    | object _ hfields => exact hfields _ hmem
  | leaf members =>
    obtain ⟨m, -, heq⟩ := List.mem_map.1 hmem
    cases heq
    exact .leaf m.2

theorem isNull_jsonForm (h : p.isNull = false) : p.jsonForm.isNull = false := by
  cases p with
  | leaf json => rwa [jsonForm_leaf]
  | list items => simp only [jsonForm, toJson, isNull]
  | object fields => simp only [jsonForm, toJson, Json.ofMembers, isNull]
  | token name => simp only [jsonForm, toJson, isNull]

end Payload

/-! ## Values of the JSON form -/

variable {V : Type} {n : Nat} {table : InputTable V n}

/-- What a payload stands for, its JSON form stands for. -/
theorem InputType.Gives.jsonForm {input : InputType V n} {p : Payload} {a : V}
    (h : input.Gives table p a) (hp : p.Distinct) : input.Gives table p.jsonForm a := by
  induction h with
  | scalar hjson hread =>
    rw [Payload.jsonForm_leaf]
    exact .scalar hjson hread
  | enumeration htoken ha => exact .enumeration htoken.jsonForm ha
  | object hfields hkeys hlen _ hdefault hopt _ hassemble hpresent hnull =>
    obtain ⟨members, hmembers, hlookup⟩ := hfields.jsonForm hp
    -- no name is new or gone, so the same entries are present and absent
    refine .object hmembers ?_ hlen ?_ ?_ ?_ ?_ hassemble
    · intro key hkey
      obtain ⟨q, hq⟩ := Keyed.exists_lookup.2 hkey
      rw [hlookup, Option.map_eq_some_iff] at hq
      obtain ⟨q', hq', -⟩ := hq
      exact hkeys key (Keyed.exists_lookup.1 ⟨q', hq'⟩)
    · intro e v q hev hq
      rw [hlookup, Option.map_eq_some_iff] at hq
      obtain ⟨q', hq', rfl⟩ := hq
      exact hpresent e v q' hev hq' (hfields.distinct hp hq')
    · intro e v d hev hnone
      rw [hlookup, Option.map_eq_none_iff] at hnone
      exact hdefault e v d hev hnone
    · intro e v hev hnone
      rw [hlookup, Option.map_eq_none_iff] at hnone
      exact hopt e v hev hnone
    · intro e v hev hnone hd
      rw [hlookup, Option.map_eq_none_iff] at hnone
      have hgives := hnull e v hev hnone hd (.leaf .null)
      rwa [Payload.null, Payload.jsonForm_leaf] at hgives
  | list helements hlen _ hzip =>
    refine .list helements.jsonForm (by rwa [List.length_map]) ?_
    intro q v hqv
    rw [List.zip_map_left] at hqv
    obtain ⟨⟨q', v'⟩, hmem, heq⟩ := List.mem_map.1 hqv
    cases heq
    exact hzip q' v' hmem (helements.distinct hp q' (List.of_mem_zip hmem).1)
  | null inner assemble =>
    rw [Payload.null, Payload.jsonForm_leaf]
    exact .null inner assemble
  | present hnull _ ih => exact .present (Payload.isNull_jsonForm hnull) (ih hp)
  | map _ ih => exact .map (ih hp)
  | reference _ ih => exact .reference (ih hp)

theorem Entry.Takes.jsonForm {e : Entry V n} {value : Option Payload} {v : V}
    (h : e.Takes (InputType.Gives table) value v) (hvalue : ∀ p, value = some p → p.Distinct) :
    e.Takes (InputType.Gives table) (value.map Payload.jsonForm) v := by
  cases h with
  | present h => exact .present (h.jsonForm (hvalue _ rfl))
  | default hdefault => exact .default hdefault
  | null hdefault hopt h => exact .null hdefault hopt h

/-! ## Slots in either form -/

/-- The payload of a slot as it was, or as JSON. -/
def EitherForm (value value' : Option Payload) : Prop :=
  value' = value ∨ value' = value.map Payload.jsonForm

theorem Entry.Takes.eitherForm {entries : List (Entry V n)} {values values' : List (Option Payload)}
    {vs : List V} (hforms : List.Forall₂ EitherForm values values')
    (hvalues : ∀ p, some p ∈ values → p.Distinct)
    (h : List.Forall₂ (fun x v => x.1.Takes (InputType.Gives table) x.2 v) (entries.zip values) vs) :
    List.Forall₂ (fun x v => x.1.Takes (InputType.Gives table) x.2 v) (entries.zip values') vs := by
  induction hforms generalizing entries vs with
  | nil => exact h
  | @cons value value' rest rest' hform _ ih =>
    cases entries with
    | nil => exact h
    | cons e entries =>
      rw [List.zip_cons_cons] at h ⊢
      cases h with
      | cons htakes h =>
        refine .cons ?_ (ih (fun p hp => hvalues p (List.mem_cons_of_mem _ hp)) h)
        rcases hform with rfl | rfl
        · exact htakes
        · exact htakes.jsonForm fun p hp => hvalues p (hp ▸ List.mem_cons_self)

theorem Slots.decode_eitherForm {slots : Slots V n} {owner : String}
    {values values' : List (Option Payload)} {a : V}
    (hforms : List.Forall₂ EitherForm values values') (hvalues : ∀ p, some p ∈ values → p.Distinct)
    (h : slots.decode table owner values = .ok a) : slots.decode table owner values' = .ok a := by
  rw [decode_eq_ok_iff] at h ⊢
  obtain ⟨hlen, vs, htakes, hassemble⟩ := h
  exact ⟨hforms.length_eq ▸ hlen, vs, Entry.Takes.eitherForm hforms hvalues htakes, hassemble⟩

/-- What a payload decodes to, its JSON decodes to, through any number of references: as a payload of
an input type, and in any of the slots that payloads are given to by position or by name, whichever
of the other slots are given JSON. -/
theorem decodes_from_json (table : InputTable V n) :
    (∀ (input : InputType V n) (p : Payload) (a : V), p.Distinct →
      input.decode table p = .ok a → input.decode table p.jsonForm = .ok a) ∧
    (∀ (slots : Slots V n) (owner : String) (values values' : List (Option Payload)) (a : V),
      (∀ p, some p ∈ values → p.Distinct) → List.Forall₂ EitherForm values values' →
      slots.decode table owner values = .ok a → slots.decode table owner values' = .ok a) ∧
    (∀ (slots : Slots V n) (owner : String) (fields fields' : Keyed Payload) (a : V),
      (∀ f ∈ fields, f.2.Distinct) →
      (∀ key, EitherForm (fields.lookup key) (fields'.lookup key)) →
      slots.decodeNamed table owner fields = .ok a →
      slots.decodeNamed table owner fields' = .ok a) := by
  refine ⟨?_, ?_, ?_⟩
  · intro input p a hp h
    rw [InputType.decode_eq_ok_iff] at h ⊢
    exact h.jsonForm hp
  · intro slots owner values values' a hvalues hforms h
    exact Slots.decode_eitherForm hforms hvalues h
  · intro slots owner fields fields' a hfields hforms h
    refine Slots.decode_eitherForm ?_ ?_ h
    · simp only [positional, List.forall₂_map_left_iff, List.forall₂_map_right_iff,
        List.forall₂_same]
      exact fun slot _ => hforms slot.name
    · intro p hp
      obtain ⟨slot, -, hslot⟩ := List.mem_map.1 hp
      exact hfields _ (Keyed.mem_of_lookup hslot)

/-! ## A tree in colours -/

namespace Palette
open JsonHost

def color : InputType Json 1 :=
  .enumeration "Color" [("RED", .int 0), ("GREEN", .int 1)]

/-- Trees have a colour, and trees as children. -/
def definitions : InputTable Json 1 := fun _ =>
  .object "Tree" (.merge pair (.single "color" .field color none)
    (.single "children" .field (.list (.reference "Tree" (Fin.last 0)) .array) (some (.array []))))

def tree : InputType Json 1 := .reference "Tree" (Fin.last 0)

/-- A red tree with two children, the second one written as JSON. -/
def written : Payload :=
  .object [("color", .token "RED"), ("children", .list [.object [("color", .token "GREEN")],
    .leaf (.object [("color", .string "RED")])])]

/-- The tree as JSON decodes to the colours of the tree that was written. -/
theorem tree_from_json :
    tree.decode definitions written.jsonForm =
      .ok (pair (.int 0) (.array [pair (.int 1) (.array []), pair (.int 0) (.array [])])) := by
  refine (decodes_from_json definitions).1 tree written _ ?_ (by rfl)
  refine .object (by decide) fun f hf => ?_
  rcases List.mem_pair.1 hf with rfl | rfl
  · exact .token _
  · refine .list fun p hp => ?_
    rcases List.mem_pair.1 hp with rfl | rfl
    · refine .object (by decide) fun f hf => ?_
      rw [List.mem_singleton.1 hf]
      exact .token _
    · exact .leaf _

end Palette
end QueryTypes
