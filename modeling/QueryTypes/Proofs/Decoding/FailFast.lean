import QueryTypes.Proofs.Decoding.Failures
import QueryTypes.Proofs.Decoding.JsonForm

/-!
# The first failure decides

Decoding stops at the first slot or element that fails. What stands behind it, keys that are not
declared and further elements have no say in the error: payloads that are the same up to the failure
fail with the same error. At the failing slot itself the payloads may differ in the same way once
more, so the relation between them, `InputType.SameUpToFailure`, goes down to any depth.
-/

namespace QueryTypes

variable {V : Type} {n : Nat} {table : InputTable V n}

/-! ## The first failure of a list -/

namespace Outcome
variable {ε α β : Type} {f : α → Outcome ε β} {xs : List α} {i : Nat} {err : ε}

/-- Number `i` fails with the error, and everything before it comes to a value. -/
def FailsFirst (f : α → Outcome ε β) (xs : List α) (i : Nat) (err : ε) : Prop :=
  (∀ x ∈ xs.take i, ∃ b, f x = .ok b) ∧ ∃ x, xs[i]? = some x ∧ f x = .error err

theorem mapM_eq_error_iff_failsFirst : xs.mapM f = .error err ↔ ∃ i, FailsFirst f xs i err := by
  rw [mapM_eq_error_iff]
  constructor
  · rintro ⟨before, x, after, rfl, hbefore, hx⟩
    exact ⟨before.length, by simpa using hbefore, x, by simp, hx⟩
  · rintro ⟨i, hbefore, x, hi, hx⟩
    obtain ⟨hlt, rfl⟩ := List.getElem?_eq_some_iff.1 hi
    refine ⟨xs.take i, xs[i], xs.drop (i + 1), ?_, hbefore, hx⟩
    rw [← List.drop_eq_getElem_cons hlt, List.take_append_drop]

end Outcome

/-- Where the first payload fails, the second fails with the same error. -/
def InputType.FailsAs (table : InputTable V n) (input : InputType V n) (p p' : Payload) : Prop :=
  ∀ err, input.decode table p = .error err → input.decode table p' = .error err

theorem InputType.FailsAs.of_decode {input : InputType V n} {p p' : Payload} {err : DecodeError}
    (h : input.decode table p = .error err) (h' : input.decode table p' = .error err) :
    input.FailsAs table p p' := by
  intro e he
  rw [h] at he
  cases he
  exact h'

/-! ## The first failure of a list of payloads -/

/-- The payloads are the same before number `i`, and related there. -/
structure Payload.AgreeUpTo (R : Payload → Payload → Prop) (i : Nat)
    (elements elements' : List Payload) : Prop where
  before : elements'.take i = elements.take i
  element : Option.Rel R elements[i]? elements'[i]?

theorem Payload.AgreeUpTo.imp {R R' : Payload → Payload → Prop} {i : Nat}
    {elements elements' : List Payload} (h : AgreeUpTo R i elements elements')
    (hR : ∀ p p', R p p' → R' p p') : AgreeUpTo R' i elements elements' :=
  ⟨h.before, optionRel_imp h.element hR⟩

namespace InputType
variable {item : InputType V n} {assemble : List V → V} {p : Payload} {i : Nat}
  {elements elements' : List Payload} {err : DecodeError}

theorem failsFirst_of_agree (h : Outcome.FailsFirst (item.decode table) elements i err)
    (hagree : Payload.AgreeUpTo (item.FailsAs table) i elements elements') :
    Outcome.FailsFirst (item.decode table) elements' i err := by
  obtain ⟨hbefore, q, hi, hq⟩ := h
  have hrel := hagree.element
  rw [hi] at hrel
  generalize hi' : elements'[i]? = element at hrel
  cases hrel with
  | @some _ q' hrel => exact ⟨hagree.before ▸ hbefore, q', hi', hrel err hq⟩

theorem decode_list_of_failsFirst (helements : p.Lists elements)
    (h : Outcome.FailsFirst (item.decode table) elements i err) :
    (InputType.list item assemble).decode table p = .error err := by
  rw [decode_list helements, Outcome.mapM_eq_error_iff_failsFirst.2 ⟨i, h⟩, Outcome.map_error]

end InputType

/-! ## The first failure of a row of slots -/

theorem Entry.decode_eq_error_of_failsAs {e : Entry V n} {owner : String} {err : DecodeError}
    {value value' : Option Payload} (hrel : Option.Rel (e.input.FailsAs table) value value')
    (h : e.decode table owner value = .error err) : e.decode table owner value' = .error err := by
  cases hrel with
  | none => exact h
  | some hrel =>
    rw [decode_eq_error_iff, fails_some_iff] at h ⊢
    obtain ⟨cause, hcause, herr⟩ := h
    exact ⟨cause, hrel cause hcause, herr⟩

namespace Slots
variable {slots : Slots V n} {owner name : String} {values values' : List (Option Payload)}
  {i : Nat} {err : DecodeError} {p : Payload} {fields fields' : Keyed Payload}

/-- Slot number `i` fails with the error, and all slots before it decode. -/
def FailsFirst (table : InputTable V n) (slots : Slots V n) (owner : String)
    (values : List (Option Payload)) (i : Nat) (err : DecodeError) : Prop :=
  Outcome.FailsFirst (fun x => x.1.decode table owner x.2) (slots.entries.zip values) i err

/-- The payloads are the same before slot number `i`; there they are related for its input, or both
absent. -/
structure AgreeUpTo (R : InputType V n → Payload → Payload → Prop) (slots : Slots V n) (i : Nat)
    (values values' : List (Option Payload)) : Prop where
  before : values'.take i = values.take i
  slot : ∀ e, slots.entries[i]? = some e →
    Option.Rel (Option.Rel (R e.input)) values[i]? values'[i]?

theorem AgreeUpTo.imp {R R' : InputType V n → Payload → Payload → Prop}
    (h : slots.AgreeUpTo R i values values') (hR : ∀ input p p', R input p p' → R' input p p') :
    slots.AgreeUpTo R' i values values' :=
  ⟨h.before, fun e he => optionRel_imp (h.slot e he) fun _ _ hvalue =>
    optionRel_imp hvalue (hR e.input)⟩

/-- Fields agree up to an entry if they are the same for those before it. -/
theorem AgreeUpTo.of_lookup {R : InputType V n → Payload → Payload → Prop} {e : Entry V n}
    (hbefore : ∀ e ∈ slots.entries.take i, fields'.lookup e.name = fields.lookup e.name)
    (he : slots.entries[i]? = some e)
    (hsome : (fields'.lookup e.name).isSome = (fields.lookup e.name).isSome)
    (hR : ∀ q q', fields.lookup e.name = some q → fields'.lookup e.name = some q' →
      R e.input q q') :
    slots.AgreeUpTo R i (positional slots.declarations fields)
      (positional slots.declarations fields') := by
  refine ⟨?_, fun e' he' => ?_⟩
  · simp only [positional_eq, ← List.map_take]
    exact List.map_congr_left hbefore
  · obtain rfl : e = e' := Option.some.inj (he.symm.trans he')
    simp only [positional_eq, List.getElem?_map, he, Option.map_some]
    exact .some (optionRel_of_isSome_eq hsome hR)

theorem FailsFirst.of_agree (h : slots.FailsFirst table owner values i err)
    (hagree : slots.AgreeUpTo (InputType.FailsAs table) i values values') :
    slots.FailsFirst table owner values' i err := by
  obtain ⟨hbefore, ⟨e, value⟩, hi, hvalue⟩ := h
  obtain ⟨he, hi⟩ := List.getElem?_zip_eq_some.1 hi
  have hrel := hagree.slot e he
  rw [hi] at hrel
  generalize hi' : values'[i]? = slot at hrel
  cases hrel with
  | @some _ value' hrel =>
    refine ⟨?_, (e, value'), List.getElem?_zip_eq_some.2 ⟨he, hi'⟩,
      e.decode_eq_error_of_failsAs hrel hvalue⟩
    rw [List.zip, List.take_zipWith, hagree.before, ← List.take_zipWith]
    exact hbefore

theorem decode_of_failsFirst (hlen : values.length = slots.size)
    (h : slots.FailsFirst table owner values i err) :
    slots.decode table owner values = .error err :=
  (Outcome.eq_error_iff_of_map_eq_map (decode_eq_row hlen)).2
    (Outcome.mapM_eq_error_iff_failsFirst.2 ⟨i, h⟩)

theorem decodeNamed_of_failsFirst
    (h : slots.FailsFirst table owner (positional slots.declarations fields) i err) :
    slots.decodeNamed table owner fields = .error err :=
  decode_of_failsFirst (slots.length_positional fields) h

/-- The keys of an object are not looked at where a slot fails. -/
theorem decode_object_of_failsFirst (hfields : p.Keys fields)
    (h : slots.FailsFirst table name (positional slots.declarations fields) i err) :
    (InputType.object name slots).decode table p = .error err := by
  rw [InputType.decode_object hfields, decodeNamed_of_failsFirst h, Outcome.error_bind]

end Slots

/-! ## The same up to a failure -/

theorem Payload.Keys.isNull {p : Payload} {fields : Keyed Payload} (h : p.Keys fields) :
    p.isNull = false := by
  cases h <;> rfl

theorem Payload.Lists.isNull {p : Payload} {elements : List Payload} (h : p.Lists elements) :
    p.isNull = false := by
  cases h <;> rfl

namespace InputType
variable {input : InputType V n} {p p' : Payload}

/-- The payloads are the same up to the first failure of the first one. They agree before the slot or
element that fails, and in this one up to its own first failure. -/
inductive SameUpToFailure (table : InputTable V n) : InputType V n → Payload → Payload → Prop
  | refl (input : InputType V n) (p : Payload) : SameUpToFailure table input p p
  | object {name : String} {slots : Slots V n} {p p' : Payload} {fields fields' : Keyed Payload}
      (i : Nat) {e : Entry V n} {err : DecodeError} :
      p.Keys fields → p'.Keys fields' →
      slots.FailsFirst table name (positional slots.declarations fields) i err →
      (∀ e ∈ slots.entries.take i, fields'.lookup e.name = fields.lookup e.name) →
      slots.entries[i]? = some e →
      (fields'.lookup e.name).isSome = (fields.lookup e.name).isSome →
      (∀ q q', fields.lookup e.name = some q → fields'.lookup e.name = some q' →
        SameUpToFailure table e.input q q') →
      SameUpToFailure table (.object name slots) p p'
  | list {item : InputType V n} {assemble : List V → V} {p p' q q' : Payload}
      {elements elements' : List Payload} (i : Nat) {err : DecodeError} :
      p.Lists elements → p'.Lists elements' →
      Outcome.FailsFirst (item.decode table) elements i err →
      elements'.take i = elements.take i → elements[i]? = some q → elements'[i]? = some q' →
      SameUpToFailure table item q q' → SameUpToFailure table (.list item assemble) p p'
  | optional {inner : InputType V n} {assemble : Option V → V} {p p' : Payload} :
      SameUpToFailure table inner p p' → SameUpToFailure table (.optional inner assemble) p p'
  | map {f : V → V} {inner : InputType V n} {p p' : Payload} :
      SameUpToFailure table inner p p' → SameUpToFailure table (.map f inner) p p'
  | reference {name : String} {target : Fin n} {p p' : Payload} :
      SameUpToFailure table (table target) p p' →
      SameUpToFailure table (.reference name target) p p'

theorem SameUpToFailure.isNull_eq (h : SameUpToFailure table input p p') :
    p'.isNull = p.isNull := by
  induction h with
  | refl input p => rfl
  | object i hfields hfields' => exact hfields'.isNull.trans hfields.isNull.symm
  | list i helements helements' => exact helements'.isNull.trans helements.isNull.symm
  | optional _ ih => exact ih
  | map _ ih => exact ih
  | reference _ ih => exact ih

theorem SameUpToFailure.failsAs (h : SameUpToFailure table input p p') :
    input.FailsAs table p p' := by
  induction h with
  | refl input p => exact fun err herr => herr
  | object i hfields hfields' hfirst hbefore he hsome _ ih =>
    have hfirst' := hfirst.of_agree (.of_lookup hbefore he hsome ih)
    exact .of_decode (Slots.decode_object_of_failsFirst hfields hfirst)
      (Slots.decode_object_of_failsFirst hfields' hfirst')
  | list i helements helements' hfirst hbefore hi hi' _ ih =>
    have hfirst' := failsFirst_of_agree hfirst ⟨hbefore, hi ▸ hi' ▸ .some ih⟩
    exact .of_decode (decode_list_of_failsFirst helements hfirst)
      (decode_list_of_failsFirst helements' hfirst')
  | @optional inner assemble p p' hsame ih =>
    intro err herr
    cases hnull : p.isNull with
    | true =>
      rw [decode_eq, decodeWith, if_pos hnull] at herr
      cases herr
    | false =>
      rw [decode_optional hnull] at herr
      rw [decode_optional (hsame.isNull_eq.trans hnull), ih err (Outcome.map_eq_error herr),
        Outcome.map_error]
  | map _ ih =>
    intro err herr
    rw [decode_map] at herr ⊢
    rw [ih err (Outcome.map_eq_error herr), Outcome.map_error]
  | reference _ ih =>
    intro err herr
    rw [decode_reference] at herr ⊢
    exact ih err herr

end InputType

/-! ## Fail-fast decoding -/

/-- The first failing slot or element decides on the error: whatever agrees up to it fails with the
same error, and there it is enough to agree up to the first failure once more. -/
theorem first_failure_decides (table : InputTable V n) :
    -- objects
    (∀ (name : String) (slots : Slots V n) (p p' : Payload) (fields fields' : Keyed Payload)
      (i : Nat) (err : DecodeError), p.Keys fields → p'.Keys fields' →
      slots.FailsFirst table name (positional slots.declarations fields) i err →
      slots.AgreeUpTo (InputType.SameUpToFailure table) i (positional slots.declarations fields)
        (positional slots.declarations fields') →
      (InputType.object name slots).decode table p = .error err ∧
        (InputType.object name slots).decode table p' = .error err) ∧
    -- lists
    (∀ (item : InputType V n) (assemble : List V → V) (p p' : Payload)
      (elements elements' : List Payload) (i : Nat) (err : DecodeError),
      p.Lists elements → p'.Lists elements' →
      Outcome.FailsFirst (item.decode table) elements i err →
      Payload.AgreeUpTo (item.SameUpToFailure table) i elements elements' →
      (InputType.list item assemble).decode table p = .error err ∧
        (InputType.list item assemble).decode table p' = .error err) ∧
    -- slots by position
    (∀ (slots : Slots V n) (owner : String) (values values' : List (Option Payload)) (i : Nat)
      (err : DecodeError), values.length = slots.size → values'.length = slots.size →
      slots.FailsFirst table owner values i err →
      slots.AgreeUpTo (InputType.SameUpToFailure table) i values values' →
      slots.decode table owner values = .error err ∧
        slots.decode table owner values' = .error err) ∧
    -- slots by name
    (∀ (slots : Slots V n) (owner : String) (fields fields' : Keyed Payload) (i : Nat)
      (err : DecodeError),
      slots.FailsFirst table owner (positional slots.declarations fields) i err →
      slots.AgreeUpTo (InputType.SameUpToFailure table) i (positional slots.declarations fields)
        (positional slots.declarations fields') →
      slots.decodeNamed table owner fields = .error err ∧
        slots.decodeNamed table owner fields' = .error err) ∧
    -- payloads at any depth
    (∀ (input : InputType V n) (p p' : Payload) (err : DecodeError),
      input.SameUpToFailure table p p' →
      input.decode table p = .error err → input.decode table p' = .error err) := by
  have hslots {slots : Slots V n} {owner : String} {values values' : List (Option Payload)}
      {i : Nat} {err : DecodeError} (hfirst : slots.FailsFirst table owner values i err)
      (hagree : slots.AgreeUpTo (InputType.SameUpToFailure table) i values values') :
      slots.FailsFirst table owner values' i err :=
    hfirst.of_agree (hagree.imp fun _ _ _ h => h.failsAs)
  refine ⟨?_, ?_, ?_, ?_, ?_⟩
  · intro name slots p p' fields fields' i err hfields hfields' hfirst hagree
    exact ⟨Slots.decode_object_of_failsFirst hfields hfirst,
      Slots.decode_object_of_failsFirst hfields' (hslots hfirst hagree)⟩
  · intro item assemble p p' elements elements' i err helements helements' hfirst hagree
    exact ⟨InputType.decode_list_of_failsFirst helements hfirst,
      InputType.decode_list_of_failsFirst helements' (InputType.failsFirst_of_agree hfirst
        (hagree.imp fun _ _ h => h.failsAs))⟩
  · intro slots owner values values' i err hlen hlen' hfirst hagree
    exact ⟨Slots.decode_of_failsFirst hlen hfirst,
      Slots.decode_of_failsFirst hlen' (hslots hfirst hagree)⟩
  · intro slots owner fields fields' i err hfirst hagree
    exact ⟨Slots.decodeNamed_of_failsFirst hfirst,
      Slots.decodeNamed_of_failsFirst (hslots hfirst hagree)⟩
  · intro input p p' err hsame
    exact hsame.failsAs err

/-! ## A tree in a colour there is not -/

namespace Palette

def green : Payload := .object [("color", .token "GREEN")]

/-- Two trees by position. -/
def trees : Slots Json 1 :=
  .merge JsonHost.pair (.single "left" .argument tree none) (.single "right" .argument tree none)

/-- A red tree whose second child is blue. -/
def blueChild : Payload :=
  .object [("color", .token "RED"),
    ("children", .list [green, .object [("color", .token "BLUE")], green])]

/-- The same up to the colour of the second child, and with a lot more that is wrong. -/
def worse : Payload :=
  .object [("size", .leaf (.int 2)), ("color", .token "RED"),
    ("children", .list [green, .object [("children", .token "NONE"), ("color", .token "BLUE")]])]

theorem blueChild_sameUpToFailure : tree.SameUpToFailure definitions blueChild worse := by
  -- the second slot, in it the second child, and of this the first slot
  refine .reference (.object 1 (.object _) (.object _)
    ⟨List.forall_mem_singleton.2 ⟨_, rfl⟩, _, rfl, rfl⟩ (List.forall_mem_singleton.2 rfl)
    rfl rfl fun q q' hq hq' => ?_)
  cases hq
  cases hq'
  refine .list 1 (.list _) (.list _) ⟨List.forall_mem_singleton.2 ⟨_, rfl⟩, _, rfl, rfl⟩ rfl rfl rfl
    (.reference (.object 0 (.object _) (.object _) ⟨List.forall_mem_nil _, _, rfl, rfl⟩
      (List.forall_mem_nil _) rfl rfl fun q q' hq hq' => ?_))
  cases hq
  cases hq'
  exact .refl _ _

theorem trees_fail_alike :
    trees.decode definitions "graft" [some blueChild, some green] =
        .error (.invalidArgument "left" (.unknownEnumToken "BLUE" "Color")) ∧
      trees.decode definitions "graft" [some worse, none] =
        .error (.invalidArgument "left" (.unknownEnumToken "BLUE" "Color")) := by
  refine (first_failure_decides definitions).2.2.1 trees "graft" _ _ 0 _ rfl rfl ?_ ?_
  · exact ⟨by simp, _, rfl, rfl⟩
  · refine ⟨rfl, fun e he => ?_⟩
    cases he
    exact .some (.some blueChild_sameUpToFailure)

end Palette
end QueryTypes
