import Mathlib.Data.List.Forall2
import QueryTypes.InputType.Decode

/-!
# Slots read from left to right

A tree of slots has its entries in a row (`Slots.entries`). Reading the tree is reading each entry
in turn and then assembling the values (`Slots.read_eq`), so what holds of every entry holds of the
tree. `InputType.induction` is induction on input types that goes below an object through its
entries.
-/

namespace QueryTypes

variable {V : Type} {n : Nat}

/-! ## Lists of outcomes -/

namespace Outcome
variable {ε α β γ : Type}

theorem bind_eq_ok_iff {x : Outcome ε α} {f : α → Outcome ε β} {b : β} :
    (x >>= f) = .ok b ↔ ∃ a, x = .ok a ∧ f a = .ok b :=
  ⟨bind_eq_ok, fun ⟨_, hx, hf⟩ => hx ▸ hf⟩

theorem map_eq_ok_iff {x : Outcome ε α} {f : α → β} {b : β} :
    f <$> x = .ok b ↔ ∃ a, x = .ok a ∧ f a = b :=
  ⟨map_eq_ok, fun ⟨_, hx, hf⟩ => hx ▸ hf ▸ rfl⟩

theorem some_map_eq_ok_iff {x : Outcome ε α} {a : α} : some <$> x = .ok (some a) ↔ x = .ok a := by
  simp [map_eq_ok_iff]

/-- A list comes to values exactly if its items do, one by one. -/
theorem mapM_eq_ok_iff {f : α → Outcome ε β} {xs : List α} {ys : List β} :
    xs.mapM f = .ok ys ↔ List.Forall₂ (fun x y => f x = .ok y) xs ys := by
  induction xs generalizing ys with
  | nil => simp [eq_comm]
  | cons x xs ih =>
    simp only [List.mapM_cons, bind_eq_ok_iff, pure_eq, List.forall₂_cons_left_iff, ih]
    constructor
    · rintro ⟨y, hy, ys', hys, heq⟩
      cases heq
      exact ⟨y, ys', hy, hys, rfl⟩
    · rintro ⟨y, ys', hy, hys, rfl⟩
      exact ⟨y, hy, ys', hys, rfl⟩

theorem mapM_congr {f g : α → Outcome ε β} {xs : List α} (h : ∀ x ∈ xs, f x = g x) :
    xs.mapM f = xs.mapM g := by
  induction xs with
  | nil => rfl
  | cons x xs ih =>
    obtain ⟨hx, hxs⟩ := List.forall_mem_cons.1 h
    rw [List.mapM_cons, List.mapM_cons, hx, ih hxs]

theorem map_eq_error {x : Outcome ε α} {f : α → β} {e : ε} (h : f <$> x = .error e) :
    x = .error e := by
  cases x <;> cases h
  rfl

theorem map_eq_unfinished {x : Outcome ε α} {f : α → β} (h : f <$> x = .unfinished) :
    x = .unfinished := by
  cases x <;> cases h
  rfl

/-- Outcomes that agree after a map are of one kind, with the same error if they have one. -/
theorem cases_of_map_eq_map {x : Outcome ε α} {y : Outcome ε β} {f : α → γ} {g : β → γ}
    (h : f <$> x = g <$> y) :
    (∃ a b, x = .ok a ∧ y = .ok b ∧ f a = g b) ∨ (∃ e, x = .error e ∧ y = .error e) ∨
      (x = .unfinished ∧ y = .unfinished) := by
  cases y with
  | ok b =>
    obtain ⟨a, ha, hab⟩ := map_eq_ok h
    exact .inl ⟨a, b, ha, rfl, hab⟩
  | error e => exact .inr (.inl ⟨e, map_eq_error h, rfl⟩)
  | unfinished => exact .inr (.inr ⟨map_eq_unfinished h, rfl⟩)

end Outcome

/-! ## Lists side by side -/

namespace Aligned
variable {α β : Type}

theorem exists_forall₂ {R : α → β → Prop} {as : List α} (h : ∀ a ∈ as, ∃ b, R a b) :
    ∃ bs, List.Forall₂ R as bs := by
  induction as with
  | nil => exact ⟨[], .nil⟩
  | cons a as ih =>
    obtain ⟨b, hb⟩ := h a List.mem_cons_self
    obtain ⟨bs, hbs⟩ := ih fun a ha => h a (List.mem_cons_of_mem _ ha)
    exact ⟨b :: bs, .cons hb hbs⟩

theorem exists_mem_zip {as : List α} {bs : List β} (h : as.length = bs.length) {a : α}
    (ha : a ∈ as) : ∃ b, (a, b) ∈ as.zip bs := by
  rw [← List.map_fst_zip (Nat.le_of_eq h)] at ha
  obtain ⟨⟨a', b⟩, hab, rfl⟩ := List.mem_map.1 ha
  exact ⟨b, hab⟩

end Aligned

/-! ## Entries -/

/-- One slot with its input and its default. -/
structure Entry (V : Type) (n : Nat) where
  name : String
  kind : SlotKind
  input : InputType V n
  default : Option V

namespace Entry

/-- What the slot declares. -/
def declaration (e : Entry V n) : Slot (InputShape n) :=
  ⟨e.name, e.kind, e.input.shape, e.default.isSome⟩

/-- Decodes the payload of one slot, if there is one. -/
def read (unfold : Unfolding V n) (owner : String) (e : Entry V n) (value : Option Payload) :
    Outcome DecodeError V :=
  match value, e.default with
  | some p, _ => (e.input.decodeWith unfold p).mapError (e.kind.wrap e.name)
  | none, some a => .ok a
  | none, none =>
    if e.input.shape.isOptional then
      (e.input.decodeWith unfold .null).mapError (e.kind.wrap e.name)
    else .error (e.kind.missing e.name owner)

end Entry

namespace Slots

/-- The slots from left to right. -/
def entries : Slots V n → List (Entry V n)
  | .single name kind input default => [⟨name, kind, input, default⟩]
  | .merge _ left right => left.entries ++ right.entries
  | .map _ slots => slots.entries

/-- The result of the slots from one value a slot; there is none if there are too few. -/
def assemble : Slots V n → List V → Option V
  | .single .., values => values.head?
  | .merge combine left right, values => do
    let a ← left.assemble (values.take left.size)
    let b ← right.assemble (values.drop left.size)
    return combine a b
  | .map f slots, values => (slots.assemble values).map f

theorem declarations_eq (slots : Slots V n) :
    slots.declarations = slots.entries.map Entry.declaration := by
  match slots with
  | .single name kind input default => simp only [declarations, entries]; rfl
  | .merge _ left right =>
    simp only [declarations, entries, List.map_append, declarations_eq left, declarations_eq right]
  | .map _ inner => simp only [declarations, entries, declarations_eq inner]

theorem length_entries (slots : Slots V n) : slots.entries.length = slots.size := by
  rw [← slots.length_declarations, declarations_eq, List.length_map]

theorem exists_assemble (slots : Slots V n) {values : List V} (h : values.length = slots.size) :
    ∃ a, slots.assemble values = some a := by
  match slots with
  | .single .. =>
    obtain ⟨a, rfl⟩ := List.length_eq_one_iff.1 h
    exact ⟨a, rfl⟩
  | .merge combine left right =>
    rw [size] at h
    have hleft : (values.take left.size).length = left.size := by
      rw [List.length_take, h]; omega
    have hright : (values.drop left.size).length = right.size := by
      rw [List.length_drop, h]; omega
    obtain ⟨a, ha⟩ := left.exists_assemble hleft
    obtain ⟨b, hb⟩ := right.exists_assemble hright
    exact ⟨combine a b, by simp [assemble, ha, hb]⟩
  | .map f inner =>
    obtain ⟨a, ha⟩ := inner.exists_assemble h
    exact ⟨f a, by simp [assemble, ha]⟩

theorem positional_eq (slots : Slots V n) (fields : Keyed Payload) :
    positional slots.declarations fields = slots.entries.map fun e => fields.lookup e.name := by
  rw [declarations_eq, positional, List.map_map]
  rfl

theorem length_positional (slots : Slots V n) (fields : Keyed Payload) :
    (positional slots.declarations fields).length = slots.size := by
  rw [positional_eq, List.length_map, length_entries]

/-- Reading slots is reading their entries one after the other, then assembling the values. -/
theorem read_eq (unfold : Unfolding V n) (owner : String) (slots : Slots V n)
    (values : List (Option Payload)) (h : values.length = slots.size) :
    some <$> slots.read unfold owner values =
      slots.assemble <$> (slots.entries.zip values).mapM fun x => x.1.read unfold owner x.2 := by
  match slots with
  | .single name kind input default =>
    obtain ⟨value, rfl⟩ := List.length_eq_one_iff.1 h
    simp only [read, entries, List.zip_cons_cons, List.zip_nil_left, List.mapM_cons, List.mapM_nil]
    change some <$> Entry.read unfold owner ⟨name, kind, input, default⟩ value = _
    cases Entry.read unfold owner ⟨name, kind, input, default⟩ value <;> rfl
  | .merge combine left right =>
    have hl : (values.take left.size).length = left.entries.length := by
      rw [List.length_take, length_entries, h, size]; omega
    have hr : (values.drop left.size).length = right.size := by
      rw [List.length_drop, h, size]; omega
    have hleft := read_eq unfold owner left (values.take left.size) (hl.trans left.length_entries)
    have hright := read_eq unfold owner right (values.drop left.size) hr
    have hzip : (left.entries ++ right.entries).zip values =
        left.entries.zip (values.take left.size) ++ right.entries.zip (values.drop left.size) := by
      rw [← List.zip_append hl.symm, List.take_append_drop]
    rw [read, entries, hzip, List.mapM_append]
    -- the entries on the right are read only if all on the left have been
    rcases Outcome.cases_of_map_eq_map hleft with ⟨a, as, ha, has, hassemble⟩ | ⟨e, ha, has⟩ |
      ⟨ha, has⟩
    · rcases Outcome.cases_of_map_eq_map hright with ⟨b, bs, hb, hbs, hassemble'⟩ | ⟨e, hb, hbs⟩ |
        ⟨hb, hbs⟩
      · have hlen : as.length = left.size := by
          have := (Outcome.mapM_eq_ok_iff.1 has).length_eq
          rw [List.length_zip, hl, Nat.min_self, left.length_entries] at this
          exact this.symm
        have htake : (as ++ bs).take left.size = as := List.take_left' hlen
        have hdrop : (as ++ bs).drop left.size = bs := List.drop_left' hlen
        simp only [ha, has, hb, hbs, Outcome.ok_bind, Outcome.pure_eq, Outcome.map_ok, assemble,
          htake, hdrop, ← hassemble, ← hassemble']
        rfl
      · rw [ha, has, hb, hbs]
        rfl
      · rw [ha, has, hb, hbs]
        rfl
    · rw [ha, has]
      rfl
    · rw [ha, has]
      rfl
  | .map f inner =>
    have hinner := read_eq unfold owner inner values h
    calc some <$> f <$> inner.read unfold owner values
        = Option.map f <$> some <$> inner.read unfold owner values := by
          simp only [← comp_map]; rfl
      _ = _ := by rw [hinner, ← comp_map]; rfl

theorem read_positional_eq (unfold : Unfolding V n) (owner : String) (slots : Slots V n)
    (fields : Keyed Payload) :
    some <$> slots.read unfold owner (positional slots.declarations fields) =
      slots.assemble <$>
        slots.entries.mapM fun e => e.read unfold owner (fields.lookup e.name) := by
  have hzip : slots.entries.zip (positional slots.declarations fields) =
      slots.entries.map fun e => (e, fields.lookup e.name) := by
    rw [positional_eq, List.zip_eq_zipWith, List.zipWith_map_right, List.zipWith_self]
  rw [read_eq unfold owner slots _ (slots.length_positional fields), hzip, List.mapM_map]
  rfl

end Slots

/-! ## Declared names -/

theorem undeclared?_eq_none_iff {declared : List (Slot (InputShape n))} {fields : Keyed Payload} :
    undeclared? declared fields = none ↔ ∀ key ∈ fields.keys, ∃ a ∈ declared, a.name = key := by
  simp [undeclared?]

/-! ## Induction through entries -/

theorem Slots.sizeOf_input_lt (slots : Slots V n) {e : Entry V n} (he : e ∈ slots.entries) :
    sizeOf e.input < sizeOf slots := by
  match slots with
  | .single name kind input default =>
    rw [entries, List.mem_singleton] at he
    subst he
    simp only [Slots.single.sizeOf_spec]
    omega
  | .merge combine left right =>
    simp only [Slots.merge.sizeOf_spec]
    rcases List.mem_append.1 he with he | he
    · have := left.sizeOf_input_lt he
      omega
    · have := right.sizeOf_input_lt he
      omega
  | .map f inner =>
    have := inner.sizeOf_input_lt he
    simp only [Slots.map.sizeOf_spec]
    omega

/-- Induction on input types that goes below an object through its entries. -/
@[elab_as_elim]
theorem InputType.induction {motive : InputType V n → Prop}
    (scalar : ∀ name read, motive (.scalar name read))
    (enumeration : ∀ name pairs, motive (.enumeration name pairs))
    (object : ∀ name slots, (∀ e ∈ slots.entries, motive e.input) → motive (.object name slots))
    (list : ∀ item assemble, motive item → motive (.list item assemble))
    (optional : ∀ inner assemble, motive inner → motive (.optional inner assemble))
    (map : ∀ f inner, motive inner → motive (.map f inner))
    (reference : ∀ name target, motive (.reference name target)) (t : InputType V n) :
    motive t := by
  -- the size of the tree, since the entries of an object are no direct parts of it
  induction hsize : sizeOf t using Nat.strongRecOn generalizing t with
  | ind size below =>
    subst hsize
    cases t with
    | scalar name read => exact scalar name read
    | enumeration name pairs => exact enumeration name pairs
    | object name slots =>
      refine object name slots fun e he => below _ ?_ e.input rfl
      have := slots.sizeOf_input_lt he
      simp only [InputType.object.sizeOf_spec]
      omega
    | list item assemble => exact list item assemble (below _ (by simp) item rfl)
    | optional inner assemble => exact optional inner assemble (below _ (by simp) inner rfl)
    | map f inner => exact map f inner (below _ (by simp) inner rfl)
    | reference name target => exact reference name target

end QueryTypes
