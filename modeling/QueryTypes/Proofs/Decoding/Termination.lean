import Mathlib.Data.Fintype.Card
import QueryTypes.JsonHost.Basic
import QueryTypes.Proofs.Decoding.Copies
import QueryTypes.Proofs.Decoding.Grammar

/-!
# Recursive decoding returns

A table is guarded if every cycle of its references passes through a list or an input object. These
are exactly the tables over which every payload decodes to a value or an error. A list or an input
object leads to less deep payloads; at one payload only references that stand outside all lists and
objects are followed, and over a guarded table these never lead round in a circle.
-/

namespace QueryTypes

variable {V : Type} {n : Nat}

/-! ## Cycles of references -/

/-- The input refers to a definition, below a list or an input object or outside of all. -/
inductive InputType.Refers : InputType V n → (below : Bool) → Fin n → Prop
  | reference (name : String) (target : Fin n) : Refers (.reference name target) false target
  | optional {inner : InputType V n} {assemble : Option V → V} {below : Bool} {t : Fin n} :
      inner.Refers below t → Refers (.optional inner assemble) below t
  | map {f : V → V} {inner : InputType V n} {below : Bool} {t : Fin n} :
      inner.Refers below t → Refers (.map f inner) below t
  | list {item : InputType V n} {assemble : List V → V} {below : Bool} {t : Fin n} :
      item.Refers below t → Refers (.list item assemble) true t
  | object {name : String} {slots : Slots V n} {e : Entry V n} {below : Bool} {t : Fin n} :
      e ∈ slots.entries → e.input.Refers below t → Refers (.object name slots) true t

namespace InputTable

/-- A path of references from one definition to another; `passed` says whether it passes through a
list or an input object. -/
inductive Path (table : InputTable V n) : Fin n → (passed : Bool) → Fin n → Prop
  | single {s t : Fin n} {below : Bool} : (table s).Refers below t → Path table s below t
  | cons {s t r : Fin n} {below passed : Bool} :
      (table s).Refers below t → Path table t passed r → Path table s (below || passed) r

/-- Every cycle of references passes through a list or an input object. -/
def Guarded (table : InputTable V n) : Prop := ∀ t passed, table.Path t passed t → passed = true

/-- A reference to the second definition that the first one holds outside all lists and objects. -/
def Direct (table : InputTable V n) (s t : Fin n) : Prop := (table s).Refers false t

variable {table : InputTable V n}

theorem path_false_iff {s t : Fin n} :
    table.Path s false t ↔ Relation.TransGen table.Direct s t := by
  constructor
  · intro h
    generalize hpassed : false = passed at h
    induction h with
    | single h =>
      subst hpassed
      exact .single h
    | cons h _ ih =>
      obtain ⟨rfl, hrest⟩ := Bool.or_eq_false_iff.1 hpassed.symm
      exact .head h (ih hrest.symm)
  · intro h
    induction h using Relation.TransGen.head_induction_on with
    | single h => exact .single h
    | head h _ ih => exact .cons h ih

theorem guarded_iff_acyclic :
    table.Guarded ↔ ∀ t, ¬ Relation.TransGen table.Direct t t := by
  simp only [Guarded, ← path_false_iff, Bool.forall_bool, reduceCtorEq, imp_false, implies_true,
    and_true]

/-- Over a guarded table the direct references end, since there are finitely many definitions. -/
theorem Guarded.wellFounded (h : table.Guarded) : WellFounded fun s t => table.Direct t s := by
  have hirrefl : Std.Irrefl (Relation.TransGen fun s t => table.Direct t s) :=
    ⟨fun t ht => guarded_iff_acyclic.1 h t (Relation.transGen_swap.1 ht)⟩
  have hfinite : Finite (Fin n) := ⟨Equiv.refl _⟩
  exact Subrelation.wf (r := Relation.TransGen fun s t => table.Direct t s)
    (fun {_ _} hst => .single hst) (Finite.wellFounded_of_trans_of_irrefl _)

end InputTable

/-! ## Outcomes that are there -/

namespace Outcome
variable {ε δ α β : Type} {x : Outcome ε α}

theorem isFinished_iff : x.isFinished ↔ ∃ r, x = .ofExcept r := by
  constructor
  · intro h
    cases x with
    | ok a => exact ⟨.ok a, rfl⟩
    | error e => exact ⟨.error e, rfl⟩
    | unfinished => cases h
  · rintro ⟨r, rfl⟩
    cases r <;> rfl

theorem isFinished_bind {f : α → Outcome ε β} (h : x.isFinished) (hf : ∀ a, (f a).isFinished) :
    (x >>= f).isFinished := by
  cases x with
  | ok a => exact hf a
  | error e => rfl
  | unfinished => cases h

@[simp] theorem isFinished_map (f : α → β) : (f <$> x).isFinished = x.isFinished := by
  cases x <;> rfl

@[simp] theorem isFinished_mapError (f : ε → δ) : (x.mapError f).isFinished = x.isFinished := by
  cases x <;> rfl

theorem isFinished_mapM {f : α → Outcome ε β} {xs : List α} (h : ∀ a ∈ xs, (f a).isFinished) :
    (xs.mapM f).isFinished := by
  induction xs with
  | nil => rfl
  | cons a xs ih =>
    rw [List.mapM_cons]
    refine isFinished_bind (h a List.mem_cons_self) fun b => ?_
    exact isFinished_bind (ih fun a ha => h a (List.mem_cons_of_mem _ ha)) fun _ => rfl

theorem some_map_injective {x y : Outcome ε α} (h : some <$> x = some <$> y) : x = y :=
  (Below.of_map_some (.inr h)).antisymm (Below.of_map_some (.inr h.symm))

end Outcome

/-! ## Absent fields -/

theorem InputType.exists_decodeWith_null {input : InputType V n} (h : input.shape.isOptional) :
    ∃ v, ∀ u, input.decodeWith u .null = .ok v := by
  induction input using InputType.induction with
  | optional inner assemble => exact ⟨assemble none, fun u => by simp only [decodeWith]; rfl⟩
  | map f inner ih =>
    obtain ⟨v, hv⟩ := ih (by simpa only [shape] using h)
    exact ⟨f v, fun u => by simp only [decodeWith, hv, Outcome.map_ok]⟩
  | _ => simp [shape, InputShape.isOptional] at h

namespace Entry
variable {e : Entry V n} {u u' : Unfolding V n} {owner : String} {value : Option Payload}

/-- An absent field that has a default or may be null takes one value, whatever references come to. -/
theorem exists_read_absent (h : e.default.isSome ∨ e.input.shape.isOptional) :
    ∃ v, ∀ u owner, e.read u owner none = .ok v := by
  cases hdefault : e.default with
  | some a => exact ⟨a, fun u owner => by simp only [read, hdefault]⟩
  | none =>
    have hopt : e.input.shape.isOptional := by simpa [hdefault] using h
    obtain ⟨v, hv⟩ := InputType.exists_decodeWith_null hopt
    exact ⟨v, fun u owner => by simp only [read, hdefault, hopt, hv, if_true, Outcome.mapError]⟩

/-- Reading an absent field follows no reference. -/
theorem exists_read_none (e : Entry V n) (owner : String) :
    ∃ r, ∀ u, e.read u owner none = .ofExcept r := by
  by_cases habsent : e.default.isSome ∨ e.input.shape.isOptional
  · obtain ⟨v, hv⟩ := exists_read_absent habsent
    exact ⟨.ok v, fun u => hv u owner⟩
  · simp only [not_or, Bool.not_eq_true, Option.isSome_eq_false_iff,
      Option.isNone_iff_eq_none] at habsent
    exact ⟨.error (e.kind.missing e.name owner), fun u => by
      simp only [read, habsent]
      rfl⟩

theorem isFinished_read (h : ∀ p, value = some p → (e.input.decodeWith u p).isFinished) :
    (e.read u owner value).isFinished := by
  cases value with
  | some p =>
    simp only [read, Outcome.isFinished_mapError]
    exact h p rfl
  | none =>
    obtain ⟨r, hr⟩ := e.exists_read_none owner
    exact Outcome.isFinished_iff.2 ⟨r, hr u⟩

theorem read_congr_present
    (h : ∀ p, value = some p → e.input.decodeWith u p = e.input.decodeWith u' p) :
    e.read u owner value = e.read u' owner value := by
  cases value with
  | some p => simp only [read, h p rfl]
  | none =>
    obtain ⟨r, hr⟩ := e.exists_read_none owner
    rw [hr, hr]

end Entry

/-- An object decodes through references inside the fields that are present, and through no others. -/
theorem InputType.decodeWith_object_congr {name : String} {slots : Slots V n} {p : Payload}
    {fields : Keyed Payload} (hfields : p.fields? = some fields) {u u' : Unfolding V n}
    (h : ∀ e ∈ slots.entries, ∀ q, fields.lookup e.name = some q →
      e.input.decodeWith u q = e.input.decodeWith u' q) :
    (InputType.object name slots).decodeWith u p = (InputType.object name slots).decodeWith u' p := by
  have hread : slots.read u name (positional slots.declarations fields) =
      slots.read u' name (positional slots.declarations fields) := by
    refine Outcome.some_map_injective ?_
    rw [slots.read_positional_eq, slots.read_positional_eq]
    exact congrArg _ (Outcome.mapM_congr fun e he => Entry.read_congr_present (h e he))
  simp only [decodeWith, hfields, hread]

/-! ## Decoding returns -/

namespace InputType
variable {table : InputTable V n} {u : Unfolding V n} {input : InputType V n} {p : Payload}

/-- At the payload itself only references outside all lists and objects are followed. -/
theorem isFinished_decodeWith (hsame : ∀ t, input.Refers false t → (u t p).isFinished)
    (hless : ∀ t q, q.depth < p.depth → (u t q).isFinished) : (input.decodeWith u p).isFinished := by
  induction input using InputType.induction generalizing p with
  | scalar name read =>
    simp only [decodeWith]
    split
    · rfl
    · split <;> rfl
    · rfl
  | enumeration name pairs =>
    simp only [decodeWith]
    split
    · split <;> rfl
    · rfl
  | object name slots ih =>
    simp only [decodeWith]
    split
    · rename_i fields hfields
      refine Outcome.isFinished_bind ?_ fun _ => by split <;> rfl
      rw [← Outcome.isFinished_map some, slots.read_positional_eq, Outcome.isFinished_map]
      refine Outcome.isFinished_mapM fun e he => Entry.isFinished_read fun q hq => ?_
      have hdepth := p.depth_lt_of_fields hfields hq
      exact ih e he (fun t _ => hless t q hdepth) fun t q' hq' => hless t q' (hq'.trans hdepth)
    · rfl
  | list item assemble ih =>
    simp only [decodeWith]
    split
    · rename_i elements helements
      rw [Outcome.isFinished_map]
      refine Outcome.isFinished_mapM fun q hq => ?_
      have hdepth := p.depth_lt_of_elements helements hq
      exact ih (fun t _ => hless t q hdepth) fun t q' hq' => hless t q' (hq'.trans hdepth)
    · rfl
  | optional inner assemble ih =>
    simp only [decodeWith]
    split
    · rfl
    · rw [Outcome.isFinished_map]
      exact ih (fun t ht => hsame t ht.optional) hless
  | map f inner ih =>
    simp only [decodeWith, Outcome.isFinished_map]
    exact ih (fun t ht => hsame t ht.map) hless
  | reference name target =>
    simp only [decodeWith]
    exact hsame target (.reference name target)

/-- On the depth of the payload, and at one payload on the references outside all lists and
objects. -/
theorem isFinished_decode (h : table.Guarded) (input : InputType V n) (p : Payload) :
    (input.decode table p).isFinished := by
  induction hdepth : p.depth using Nat.strongRecOn generalizing input p with
  | ind depth below =>
    have hless : ∀ t q, q.depth < p.depth → ((table t).decode table q).isFinished :=
      fun t q hq => below q.depth (hdepth ▸ hq) (table t) q rfl
    have hsame : ∀ t, ((table t).decode table p).isFinished := by
      intro t
      induction t using h.wellFounded.induction with
      | h t ih =>
        rw [decode_eq]
        exact isFinished_decodeWith ih hless
    rw [decode_eq]
    exact isFinished_decodeWith (fun t _ => hsame t) hless

/-- A reference outside all lists and objects is followed at every payload other than null. -/
theorem decodeWith_unfinished {t : Fin n} (h : input.Refers false t) (hp : p.isNull = false)
    (hu : u t p = .unfinished) : input.decodeWith u p = .unfinished := by
  generalize hbelow : false = below at h
  induction h with
  | reference name target => simp only [decodeWith, hu]
  | optional _ ih => simp [decodeWith, hp, ih hu hbelow]
  | map _ ih => simp only [decodeWith, ih hu hbelow, Outcome.map_unfinished]
  | list _ _ => cases hbelow
  | object _ _ _ => cases hbelow

end InputType

namespace InputTable
variable {table : InputTable V n}

/-- On a cycle of direct references no number of unfoldings is enough. -/
theorem unfold_of_cycle {p : Payload} (hp : p.isNull = false) (k : Nat) {t : Fin n}
    (h : Relation.TransGen table.Direct t t) : table.unfold k t p = .unfinished := by
  induction k generalizing t with
  | zero => rfl
  | succ k ih =>
    obtain ⟨s, hts, hst⟩ := Relation.TransGen.head'_iff.1 h
    exact InputType.decodeWith_unfinished hts hp (ih (.tail' hst hts))

/-- Over the guarded tables, and over no others, every payload decodes to a value or an error. -/
theorem guarded_iff_decode_returns :
    table.Guarded ↔ ∀ (input : InputType V n) (p : Payload), ∃ r,
      input.decode table p = .ofExcept r := by
  constructor
  · exact fun h input p => Outcome.isFinished_iff.1 (InputType.isFinished_decode h input p)
  · refine fun h => guarded_iff_acyclic.2 fun t ht => ?_
    obtain ⟨r, hr⟩ := h (.reference "" t) (.leaf (.bool true))
    have hcycle : (InputType.reference "" t).decode table (.leaf (.bool true)) = .unfinished := by
      rw [InputType.decode, InputType.decodeWith]
      exact unfold_of_cycle rfl _ ht
    rw [hcycle] at hr
    cases r <;> cases hr

end InputTable

theorem Slots.isFinished_decode {table : InputTable V n} (h : table.Guarded) (slots : Slots V n)
    (owner : String) (values : List (Option Payload)) :
    (slots.decode table owner values).isFinished := by
  by_cases hlen : values.length = slots.size
  · rw [← Outcome.isFinished_map some, slots.decode_eq_row hlen, Outcome.isFinished_map]
    refine Outcome.isFinished_mapM fun x _ => Entry.isFinished_read fun p _ => ?_
    rw [← InputType.decode_eq]
    exact InputType.isFinished_decode h x.1.input p
  · rw [decode, if_neg hlen]
    rfl

/-! ## How often references are unfolded -/

namespace InputTable
variable (table : InputTable V n) (last : Unfolding V n)

/-- References that unfold `k` times inside each other and then come to what `last` says. -/
def unfoldThen : Nat → Unfolding V n
  | 0 => last
  | k + 1 => fun t p => (table t).decodeWith (unfoldThen k) p

variable {table last}

theorem unfold_below_unfoldThen (k : Nat) (t : Fin n) (p : Payload) :
    (table.unfold k t p).Below (table.unfoldThen last k t p) := by
  induction k generalizing t p with
  | zero => exact .inl rfl
  | succ k ih => exact InputType.decodeWith_below fun t q _ => ih t q

/-- Unfolding references beforehand, however often, and decoding what is left. -/
theorem unfoldThen_decode (k : Nat) :
    table.unfoldThen (fun t => (table t).decode table) k = fun t => (table t).decode table := by
  induction k with
  | zero => rfl
  | succ k ih =>
    funext t p
    simp only [unfoldThen, ih, ← InputType.decode_eq]

/-- What comes after enough unfoldings is never asked for. -/
theorem Guarded.decodeWith_unfoldThen (h : table.Guarded) (input : InputType V n) {p : Payload}
    {k : Nat} (hk : unfoldings n p.depth ≤ k) :
    input.decodeWith (table.unfoldThen last k) p = input.decode table p := by
  have hbelow : (input.decodeWith (table.unfold k) p).Below
      (input.decodeWith (table.unfoldThen last k) p) :=
    InputType.decodeWith_below fun t q _ => unfold_below_unfoldThen k t q
  rw [InputType.decodeWith_unfold hk] at hbelow
  exact (hbelow.eq_of_isFinished fun _ => InputType.isFinished_decode h input p).symm

end InputTable

/-! ## The outcome of recursive decoding -/

/-- Over a guarded table every payload decodes to a value or an error, and so do the payloads of
slots. It is the same one however many references are unfolded beforehand, whatever would come after
enough unfoldings, and in however many copies the definitions occur. A field that is absent and has
a default or may be null takes its value without following any reference, so an object is decoded
through the references of the fields that are present alone. -/
theorem decode_returns_of_guarded {table : InputTable V n} (h : table.Guarded) :
    (∀ (input : InputType V n) (p : Payload), ∃ r : Except DecodeError V,
      input.decode table p = .ofExcept r ∧
      (∀ k, input.decodeWith (table.unfoldThen (fun t => (table t).decode table) k) p =
        .ofExcept r) ∧
      (∀ k last, unfoldings n p.depth ≤ k →
        input.decodeWith (table.unfoldThen last k) p = .ofExcept r) ∧
      ∀ {m : Nat} (copies : InputTable V m) (original : Fin m → Fin n) (copy : InputType V m),
        (∀ i, (copies i).retarget original = table (original i)) →
        copy.retarget original = input → copy.decode copies p = .ofExcept r) ∧
    (∀ (slots : Slots V n) owner values, ∃ r, slots.decode table owner values = .ofExcept r) ∧
    (∀ e : Entry V n, e.default.isSome ∨ e.input.shape.isOptional →
      ∃ v, ∀ u owner, e.read u owner none = .ok v) ∧
    ∀ name (slots : Slots V n) (p : Payload) fields, p.fields? = some fields → ∀ u u',
      (∀ e ∈ slots.entries, ∀ q, fields.lookup e.name = some q →
        e.input.decodeWith u q = e.input.decodeWith u' q) →
      (InputType.object name slots).decodeWith u p = (InputType.object name slots).decodeWith u' p := by
  refine ⟨fun input p => ?_, fun slots owner values => ?_, fun _ => Entry.exists_read_absent,
    fun _ _ _ _ hfields _ _ => InputType.decodeWith_object_congr hfields⟩
  · obtain ⟨r, hr⟩ := InputTable.guarded_iff_decode_returns.1 h input p
    refine ⟨r, hr, fun k => ?_, fun k last hk => ?_, fun copies original copy hcopies hcopy => ?_⟩
    · rw [InputTable.unfoldThen_decode, ← InputType.decode_eq, hr]
    · rw [h.decodeWith_unfoldThen input hk, hr]
    · rw [InputType.decode_copies hcopies, hcopy, hr]
  · exact Outcome.isFinished_iff.1 (slots.isFinished_decode h owner values)

namespace Nodes
open JsonHost

/-- A node with a label, and with a node after it that may be absent; `next` says which definition
that one has. -/
def node {n : Nat} (next : Fin n) : InputType Json n :=
  .object "Node" (.merge pair
    (.single "label" .field (.scalar "String" Reader.string.read) none)
    (.single "next" .field (.optional (.reference "Node" next) orNull) none))

/-- Nodes that refer to themselves. -/
def nodes : InputTable Json 1 := fun _ => node (Fin.last 0)

/-- Two copies of the nodes that refer to each other. -/
def alternating : InputTable Json 2 := fun i => node i.rev

theorem nodes_guarded : nodes.Guarded := by
  intro t passed hpath
  cases hpath with
  | single h => cases h; rfl
  | cons h _ => cases h; rfl

/-- A node whose next one is absent decodes to a value, and to the same one with two
copies of the definition. -/
theorem node_decodes :
    let last := Payload.leaf (.object [("label", .string "last")])
    ∃ v, (InputType.reference "Node" (Fin.last 0)).decode nodes last = .ok v ∧
      (InputType.reference "Node" (Fin.last 1)).decode alternating last = .ok v := by
  intro last
  obtain ⟨r, hr, -, -, hcopies⟩ :=
    (decode_returns_of_guarded nodes_guarded).1 (.reference "Node" (Fin.last 0)) last
  have hvalue : (InputType.reference "Node" (Fin.last 0)).decode nodes last =
      .ok (pair (.string "last") .null) := by rfl
  obtain rfl : Except.ok (pair (.string "last") .null) = r :=
    Outcome.ofExcept_injective (hvalue.symm.trans hr)
  exact ⟨_, hr, hcopies alternating (fun _ => Fin.last 0) (.reference "Node" (Fin.last 1))
    (fun _ => rfl) rfl⟩

end Nodes
end QueryTypes
