import QueryTypes.Proofs.Decoding.Grammar
import QueryTypes.Proofs.Selection.Errors

/-!
# Trees of slots as rows of entries

A tree of slots decodes as its row of entries: one payload an entry by position, from left to right,
the first failure first, and then the values put together as the tree combines them. The tree
matters for nothing but the combining, so trees of one row fail alike, and merges that are grouped
differently give the same results if their functions are.
-/

namespace QueryTypes

variable {V : Type} {n : Nat} {table : InputTable V n}

/-! ## Lists of outcomes -/

namespace Outcome
variable {ε α β γ : Type}

/-- Outcomes with the same values and the same errors are equal. -/
theorem ext {x y : Outcome ε α} (hok : ∀ a, x = .ok a ↔ y = .ok a)
    (herror : ∀ e, x = .error e ↔ y = .error e) : x = y := by
  cases x with
  | ok a => exact ((hok a).1 rfl).symm
  | error e => exact ((herror e).1 rfl).symm
  | unfinished =>
    cases y with
    | ok a => exact (hok a).2 rfl
    | error e => exact (herror e).2 rfl
    | unfinished => rfl

/-- Outcomes that agree after a map have the same errors. -/
theorem eq_error_iff_of_map_eq_map {x : Outcome ε α} {y : Outcome ε β} {f : α → γ} {g : β → γ}
    (h : f <$> x = g <$> y) {e : ε} : x = .error e ↔ y = .error e := by
  rcases cases_of_map_eq_map h with ⟨a, b, rfl, rfl, -⟩ | ⟨e', rfl, rfl⟩ | ⟨rfl, rfl⟩
  · simp
  · simp
  · simp

end Outcome

/-! ## One entry -/

namespace Entry
variable {owner : String} {e : Entry V n} {value : Option Payload} {v : V} {err : DecodeError}

/-- The values of an entry: what its payload decodes as, or where there is none its default, or else
what null decodes as. -/
def Decodes (table : InputTable V n) (e : Entry V n) : Option Payload → V → Prop :=
  e.Takes fun t p a => t.decode table p = .ok a

/-- The errors of an entry: its payload does not decode, or there is none and nothing that could
stand in for it. -/
inductive Fails (table : InputTable V n) (owner : String) (e : Entry V n) :
    Option Payload → DecodeError → Prop
  | argument {p : Payload} {cause : DecodeError} :
      e.kind = .argument → e.input.decode table p = .error cause →
      Fails table owner e (some p) (.invalidArgument e.name cause)
  | field {p : Payload} {cause : DecodeError} :
      e.kind = .field → e.input.decode table p = .error cause →
      Fails table owner e (some p) cause
  | missingArgument :
      e.kind = .argument → e.default = none → e.input.shape.isOptional = false →
      Fails table owner e none (.missingArgument e.name owner)
  | missingField :
      e.kind = .field → e.default = none → e.input.shape.isOptional = false →
      Fails table owner e none (.missingField e.name owner)

theorem decode_eq_ok_iff_decodes :
    e.decode table owner value = .ok v ↔ e.Decodes table value v := by
  simp only [decode_eq_ok_iff, Decodes, InputType.decode_eq_ok_iff]

theorem decode_some_eq_error_iff {p : Payload} :
    e.decode table owner (some p) = .error err ↔ e.Fails table owner (some p) err := by
  have hread : e.decode table owner (some p) =
      (e.input.decode table p).mapError (e.kind.wrap e.name) := by
    rw [InputType.decode_eq]
    rfl
  rw [hread]
  constructor
  · intro h
    obtain ⟨cause, hcause, rfl⟩ := Outcome.mapError_eq_error h
    cases hkind : e.kind with
    | field => exact .field hkind hcause
    | argument => exact .argument hkind hcause
  · intro h
    cases h with
    | argument hkind hcause => rw [hkind, hcause]; rfl
    | field hkind hcause => rw [hkind, hcause]; rfl

theorem decode_none_eq_error_iff :
    e.decode table owner none = .error err ↔ e.Fails table owner none err := by
  constructor
  · intro h
    cases hdefault : e.default with
    | some a =>
      simp only [decode, read, hdefault] at h
      cases h
    | none =>
      simp only [decode, read, hdefault] at h
      by_cases hopt : e.input.shape.isOptional
      -- null decodes where the input is optional
      · obtain ⟨a, ha⟩ : ∃ a, e.input.Gives table .null a := InputType.exists_gives_null hopt
        rw [if_pos hopt, ← InputType.decode_eq, InputType.decode_of_gives ha] at h
        cases h
      · rw [if_neg hopt] at h
        cases hkind : e.kind with
        | field =>
          rw [hkind] at h
          cases h
          exact .missingField hkind hdefault (by simpa using hopt)
        | argument =>
          rw [hkind] at h
          cases h
          exact .missingArgument hkind hdefault (by simpa using hopt)
  · intro h
    cases h with
    | missingArgument hkind hdefault hopt =>
      simp [decode, read, hdefault, hopt, hkind, SlotKind.missing]
    | missingField hkind hdefault hopt =>
      simp [decode, read, hdefault, hopt, hkind, SlotKind.missing]

theorem decode_eq_error_iff :
    e.decode table owner value = .error err ↔ e.Fails table owner value err := by
  cases value with
  | some p => exact decode_some_eq_error_iff
  | none => exact decode_none_eq_error_iff

end Entry

/-! ## Combining -/

namespace Slots
variable {slots slots' : Slots V n} {owner : String} {values : List (Option Payload)} {a : V}

/-- The tree combines values, one an entry, to the value. -/
inductive Combines : Slots V n → List V → V → Prop
  | single {name : String} {kind : SlotKind} {input : InputType V n} {default : Option V} (a : V) :
      Combines (.single name kind input default) [a] a
  | merge {combine : V → V → V} {left right : Slots V n} {as bs : List V} {a b : V} :
      Combines left as a → Combines right bs b →
      Combines (.merge combine left right) (as ++ bs) (combine a b)
  | map {f : V → V} {slots : Slots V n} {as : List V} {a : V} :
      Combines slots as a → Combines (.map f slots) as (f a)

theorem Combines.length_eq {vs : List V} (h : slots.Combines vs a) : vs.length = slots.size := by
  induction h with
  | single => rfl
  | merge _ _ ihleft ihright => rw [List.length_append, ihleft, ihright, size]
  | map _ ih => exact ih

theorem Combines.assemble_eq {vs : List V} (h : slots.Combines vs a) :
    slots.assemble vs = some a := by
  induction h with
  | single => rfl
  | @merge combine left right as bs a b hleft _ ihleft ihright =>
    have htake : (as ++ bs).take left.size = as := List.take_left' hleft.length_eq
    have hdrop : (as ++ bs).drop left.size = bs := List.drop_left' hleft.length_eq
    simp only [assemble, htake, hdrop, ihleft, ihright]
    rfl
  | map _ ih =>
    rw [assemble, ih]
    rfl

theorem combines_of_assemble (slots : Slots V n) {vs : List V} {a : V}
    (hlen : vs.length = slots.size) (h : slots.assemble vs = some a) : slots.Combines vs a := by
  match slots with
  | .single .. =>
    obtain ⟨b, rfl⟩ := List.length_eq_one_iff.1 hlen
    cases h
    exact .single _
  | .merge combine left right =>
    rw [size] at hlen
    have hleft : (vs.take left.size).length = left.size := by
      rw [List.length_take, hlen]; omega
    have hright : (vs.drop left.size).length = right.size := by
      rw [List.length_drop, hlen]; omega
    obtain ⟨b, hb⟩ := left.exists_assemble hleft
    obtain ⟨c, hc⟩ := right.exists_assemble hright
    simp only [assemble, hb, hc] at h
    cases h
    rw [← List.take_append_drop left.size vs]
    exact .merge (left.combines_of_assemble hleft hb) (right.combines_of_assemble hright hc)
  | .map f inner =>
    obtain ⟨b, hb⟩ := inner.exists_assemble hlen
    rw [assemble, hb] at h
    cases h
    exact .map (inner.combines_of_assemble hlen hb)

theorem assemble_eq_some_iff {vs : List V} (hlen : vs.length = slots.size) :
    slots.assemble vs = some a ↔ slots.Combines vs a :=
  ⟨slots.combines_of_assemble hlen, Combines.assemble_eq⟩

/-! ## The row -/

theorem decode_eq_error_of_length (h : values.length ≠ slots.entries.length) :
    slots.decode table owner values =
      .error (.arityMismatch owner slots.entries.length values.length) := by
  rw [length_entries] at h ⊢
  rw [decode, if_neg h]

theorem decode_eq_arity_iff :
    (∃ o expected actual,
      slots.decode table owner values = .error (.arityMismatch o expected actual)) ↔
        values.length ≠ slots.entries.length := by
  constructor
  · rintro ⟨o, expected, actual, h⟩ hlen
    have hinner := isArity_of_decode (hlen.trans slots.length_entries) h
    cases hinner
  · intro h
    exact ⟨_, _, _, decode_eq_error_of_length h⟩

theorem decode_eq_ok_iff_row (hlen : values.length = slots.entries.length) :
    slots.decode table owner values = .ok a ↔ ∃ results,
      List.Forall₂ (fun x v => x.1.Decodes table x.2 v) (slots.entries.zip values) results ∧
        slots.Combines results a := by
  rw [length_entries] at hlen
  rw [← Outcome.some_map_eq_ok_iff, decode_eq_row hlen]
  simp only [Outcome.map_eq_ok_iff, Outcome.mapM_eq_ok_iff, Entry.decode_eq_ok_iff_decodes]
  refine exists_congr fun results => and_congr_right fun hresults => assemble_eq_some_iff ?_
  rw [← hresults.length_eq, List.length_zip, length_entries, hlen, Nat.min_self]

theorem decode_eq_error_iff_row (hlen : values.length = slots.entries.length) {err : DecodeError} :
    slots.decode table owner values = .error err ↔ ∃ before e value after,
      slots.entries.zip values = before ++ (e, value) :: after ∧
        (∀ x ∈ before, ∃ v, x.1.Decodes table x.2 v) ∧
        e.Fails table owner value err := by
  rw [length_entries] at hlen
  rw [Outcome.eq_error_iff_of_map_eq_map (decode_eq_row hlen), Outcome.mapM_eq_error_iff]
  simp only [Entry.decode_eq_ok_iff_decodes, Entry.decode_eq_error_iff, Prod.exists]

/-! ## Trees of one row -/

theorem declarations_congr (h : slots'.entries = slots.entries) :
    slots'.declarations = slots.declarations := by
  rw [declarations_eq, declarations_eq, h]

/-- Trees of one row fail alike. -/
theorem decode_eq_error_congr (h : slots'.entries = slots.entries) {err : DecodeError} :
    slots'.decode table owner values = .error err ↔
      slots.decode table owner values = .error err := by
  by_cases hlen : values.length = slots.entries.length
  · rw [decode_eq_error_iff_row hlen, decode_eq_error_iff_row (h ▸ hlen), h]
  · rw [decode_eq_error_of_length hlen, decode_eq_error_of_length (h ▸ hlen), h]

/-- The trees differ in how merges are grouped, and their functions are grouped accordingly. -/
inductive Reassociates : Slots V n → Slots V n → Prop
  | assoc {f g f' g' : V → V → V} {x y z : Slots V n} :
      (∀ a b c, g (f a b) c = f' a (g' b c)) →
      Reassociates (.merge g (.merge f x y) z) (.merge f' x (.merge g' y z))
  | refl (x : Slots V n) : Reassociates x x
  | symm {x y : Slots V n} : Reassociates x y → Reassociates y x
  | trans {x y z : Slots V n} : Reassociates x y → Reassociates y z → Reassociates x z
  | merge {f : V → V → V} {x x' y y' : Slots V n} :
      Reassociates x x' → Reassociates y y' → Reassociates (.merge f x y) (.merge f x' y')
  | map {f : V → V} {x x' : Slots V n} : Reassociates x x' → Reassociates (.map f x) (.map f x')

theorem Reassociates.entries_eq (h : slots.Reassociates slots') :
    slots'.entries = slots.entries := by
  induction h with
  | assoc _ => simp only [entries, List.append_assoc]
  | refl => rfl
  | symm _ ih => exact ih.symm
  | trans _ _ ih ih' => exact ih'.trans ih
  | merge _ _ ih ih' => rw [entries, entries, ih, ih']
  | map _ ih => exact ih

theorem combines_merge_iff {f : V → V → V} {x y : Slots V n} {vs : List V} :
    (Slots.merge f x y).Combines vs a ↔ ∃ as bs b c, x.Combines as b ∧ y.Combines bs c ∧
      as ++ bs = vs ∧ f b c = a := by
  constructor
  · intro h
    cases h with
    | merge hx hy => exact ⟨_, _, _, _, hx, hy, rfl, rfl⟩
  · rintro ⟨as, bs, b, c, hx, hy, rfl, rfl⟩
    exact .merge hx hy

theorem combines_map_iff {f : V → V} {x : Slots V n} {vs : List V} :
    (Slots.map f x).Combines vs a ↔ ∃ b, x.Combines vs b ∧ f b = a := by
  constructor
  · intro h
    cases h with
    | map hx => exact ⟨_, hx, rfl⟩
  · rintro ⟨b, hx, rfl⟩
    exact .map hx

theorem Reassociates.combines_iff (h : slots.Reassociates slots') {vs : List V} :
    slots'.Combines vs a ↔ slots.Combines vs a := by
  induction h generalizing vs a with
  | @assoc f g f' g' x y z hassoc =>
    constructor
    · intro h
      obtain ⟨as, _, b, _, hx, hyz, rfl, rfl⟩ := combines_merge_iff.1 h
      obtain ⟨bs, cs, c, d, hy, hz, rfl, rfl⟩ := combines_merge_iff.1 hyz
      rw [← List.append_assoc, ← hassoc]
      exact .merge (.merge hx hy) hz
    · intro h
      obtain ⟨_, cs, _, d, hxy, hz, rfl, rfl⟩ := combines_merge_iff.1 h
      obtain ⟨as, bs, b, c, hx, hy, rfl, rfl⟩ := combines_merge_iff.1 hxy
      rw [List.append_assoc, hassoc]
      exact .merge hx (.merge hy hz)
  | refl => exact Iff.rfl
  | symm _ ih => exact ih.symm
  | trans _ _ ih ih' => exact ih'.trans ih
  | merge _ _ ih ih' => simp only [combines_merge_iff, ih, ih']
  | map _ ih => simp only [combines_map_iff, ih]

theorem Reassociates.decode_eq (h : slots.Reassociates slots') :
    slots'.decode table owner values = slots.decode table owner values := by
  by_cases hlen : values.length = slots.entries.length
  · refine Outcome.ext (fun a => ?_) fun err => decode_eq_error_congr h.entries_eq
    rw [decode_eq_ok_iff_row hlen, decode_eq_ok_iff_row (h.entries_eq ▸ hlen), h.entries_eq]
    simp only [h.combines_iff]
  · rw [decode_eq_error_of_length hlen, decode_eq_error_of_length (h.entries_eq ▸ hlen),
      h.entries_eq]

/-- Decoding a tree of slots is decoding its row of entries. It fails for the number of payloads
exactly if that is not the number of entries. Otherwise every entry is given the payload at its own
position; the first entry that fails is the failure, and if none does, the tree combines the values.
Trees of one row declare the same and fail alike, and how merges are grouped makes no difference if
their functions are grouped accordingly. -/
theorem decode_reads_row (table : InputTable V n) (slots : Slots V n) (owner : String)
    (values : List (Option Payload)) :
    ((∃ o expected actual,
      slots.decode table owner values = .error (.arityMismatch o expected actual)) ↔
        values.length ≠ slots.entries.length) ∧
    (values.length ≠ slots.entries.length → slots.decode table owner values =
      .error (.arityMismatch owner slots.entries.length values.length)) ∧
    (values.length = slots.entries.length →
      (∀ a, slots.decode table owner values = .ok a ↔ ∃ results,
        List.Forall₂ (fun x v => x.1.Decodes table x.2 v) (slots.entries.zip values) results ∧
          slots.Combines results a) ∧
      ∀ err, slots.decode table owner values = .error err ↔ ∃ before e value after,
        slots.entries.zip values = before ++ (e, value) :: after ∧
          (∀ x ∈ before, ∃ v, x.1.Decodes table x.2 v) ∧
          e.Fails table owner value err) ∧
    ∀ slots' : Slots V n,
      (slots'.entries = slots.entries → slots'.declarations = slots.declarations ∧
        ∀ err, slots'.decode table owner values = .error err ↔
          slots.decode table owner values = .error err) ∧
      (slots.Reassociates slots' → slots'.entries = slots.entries ∧
        slots'.decode table owner values = slots.decode table owner values) := by
  refine ⟨decode_eq_arity_iff, decode_eq_error_of_length, fun hlen => ?_, fun slots' => ?_⟩
  · exact ⟨fun a => decode_eq_ok_iff_row hlen, fun err => decode_eq_error_iff_row hlen⟩
  · exact ⟨fun h => ⟨declarations_congr h, fun err => decode_eq_error_congr h⟩,
      fun h => ⟨h.entries_eq, h.decode_eq⟩⟩

end Slots

/-! ## Words -/

namespace Words

/-- A text as it is. -/
def input : InputType String 0 :=
  .scalar "Text" fun
    | .string s => .ok s
    | _ => .error "expected a text"

/-- An argument that takes a text. -/
def text (name : String) : Slots String 0 := .single name .argument input none

/-- Three texts joined from the left. -/
def fromLeft : Slots String 0 :=
  .merge (· ++ ·) (.merge (· ++ ·) (text "a") (text "b")) (text "c")

/-- Three texts joined from the right. -/
def fromRight : Slots String 0 :=
  .merge (· ++ ·) (text "a") (.merge (· ++ ·) (text "b") (text "c"))

/-- Three payloads, of which the first is a text. -/
def values : List (Option Payload) :=
  [some (.leaf (.string "x")), some (.leaf (.bool true)), none]

/-- The second entry fails, however the merges are grouped. -/
theorem decode_reads_row_words :
    fromLeft.decode Fin.elim0 "f" values =
        .error (.invalidArgument "b" (.invalidScalar "Text" "expected a text")) ∧
      fromRight.decode Fin.elim0 "f" values = fromLeft.decode Fin.elim0 "f" values := by
  obtain ⟨-, -, hrow, htrees⟩ := Slots.decode_reads_row Fin.elim0 fromLeft "f" values
  have hsecond : Entry.Fails Fin.elim0 "f" ⟨"b", .argument, input, none⟩ (some (.leaf (.bool true)))
      (.invalidArgument "b" (.invalidScalar "Text" "expected a text")) :=
    .argument rfl rfl
  constructor
  · refine ((hrow rfl).2 _).2 ⟨[(⟨"a", .argument, input, none⟩, some (.leaf (.string "x")))], _, _,
      [(⟨"c", .argument, input, none⟩, none)], rfl, fun x hx => ?_, hsecond⟩
    rw [List.mem_singleton.1 hx]
    exact ⟨"x", .present rfl⟩
  · exact ((htrees fromRight).2 (.assoc fun _ _ _ => String.append_assoc)).2

end Words
end QueryTypes
