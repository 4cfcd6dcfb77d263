import Mathlib.Data.Fintype.Card
import Mathlib.Order.Monotone.Basic
import QueryTypes.Proofs.Decoding.Entries

/-!
# Enough unfoldings

`InputType.decode` allows a number of unfoldings that it computes from the payload. That number is
enough: with any larger one the outcome is the same (`InputType.decodeWith_unfold`), because at one
payload the definitions that have come to an outcome only become more, and there are no more than
`n`. Decoding therefore satisfies the equation that leaves the number out (`InputType.decode_eq`).
-/

namespace QueryTypes

variable {V : Type} {n : Nat}

/-! ## Outcomes that get further -/

namespace Outcome
variable {ε δ α β : Type} {x y z : Outcome ε α}

/-- Whether there is a value or an error. -/
def isFinished : Outcome ε α → Bool
  | .unfinished => false
  | _ => true

/-- The first outcome is the second, unless it is unfinished. -/
def Below (x y : Outcome ε α) : Prop := x = .unfinished ∨ x = y

theorem Below.refl (x : Outcome ε α) : x.Below x := .inr rfl

theorem Below.trans (h : x.Below y) (h' : y.Below z) : x.Below z := by
  rcases h with rfl | rfl
  · exact .inl rfl
  · exact h'

theorem Below.isFinished (h : x.Below y) (hx : x.isFinished) : y.isFinished := by
  rcases h with rfl | rfl
  · cases hx
  · exact hx

theorem Below.eq_of_isFinished (h : x.Below y) (hy : y.isFinished → x.isFinished) : x = y := by
  rcases h with rfl | rfl
  · cases y with
    | unfinished => rfl
    | _ => cases hy rfl
  · rfl

theorem Below.antisymm (h : x.Below y) (h' : y.Below x) : x = y := by
  rcases h with rfl | rfl
  · rcases h' with rfl | h'
    · rfl
    · exact h'.symm
  · rfl

theorem Below.bind {f g : α → Outcome ε β} (h : x.Below y) (hf : ∀ a, (f a).Below (g a)) :
    (x >>= f).Below (y >>= g) := by
  rcases h with rfl | rfl
  · exact .inl rfl
  · cases x with
    | ok a => exact hf a
    | error e => exact .refl _
    | unfinished => exact .refl _

theorem Below.map (f : α → β) (h : x.Below y) : (f <$> x).Below (f <$> y) := by
  rcases h with rfl | rfl
  · exact .inl rfl
  · exact .refl _

theorem Below.mapError (f : ε → δ) (h : x.Below y) : (x.mapError f).Below (y.mapError f) := by
  rcases h with rfl | rfl
  · exact .inl rfl
  · exact .refl _

theorem Below.of_map_some (h : (some <$> x).Below (some <$> y)) : x.Below y := by
  rcases h with h | h
  · exact .inl (map_eq_unfinished h)
  · cases x <;> cases y <;> cases h <;> exact .refl _

theorem Below.mapM {f g : α → Outcome ε β} {xs : List α} (h : ∀ a ∈ xs, (f a).Below (g a)) :
    (xs.mapM f).Below (xs.mapM g) := by
  induction xs with
  | nil => exact .refl _
  | cons a xs ih =>
    rw [List.mapM_cons, List.mapM_cons]
    refine (h a List.mem_cons_self).bind fun b => ?_
    exact (ih fun a ha => h a (List.mem_cons_of_mem _ ha)).bind fun _ => .refl _

end Outcome

/-! ## Smaller payloads -/

theorem Json.depth_le_of_mem {j : Json} {items : List Json} (h : j ∈ items) :
    j.depth ≤ depthItems items := by
  induction items with
  | nil => cases h
  | cons i rest ih =>
    rw [depthItems]
    rcases List.mem_cons.1 h with rfl | h
    · exact Nat.le_max_left _ _
    · exact (ih h).trans (Nat.le_max_right _ _)

theorem Json.depth_le_of_member {name : String} {j : Json} {members : List (String × Json)}
    (h : (name, j) ∈ members) : j.depth ≤ depthMembers members := by
  induction members with
  | nil => cases h
  | cons m rest ih =>
    obtain ⟨k, i⟩ := m
    rw [depthMembers]
    rcases List.mem_cons.1 h with h | h
    · cases h
      exact Nat.le_max_left _ _
    · exact (ih h).trans (Nat.le_max_right _ _)

namespace Payload
variable {p q : Payload}

theorem depth_le_of_mem {items : List Payload} (h : q ∈ items) : q.depth ≤ depthItems items := by
  induction items with
  | nil => cases h
  | cons i rest ih =>
    rw [depthItems]
    rcases List.mem_cons.1 h with rfl | h
    · exact Nat.le_max_left _ _
    · exact (ih h).trans (Nat.le_max_right _ _)

theorem depth_le_of_field {name : String} {fields : List (String × Payload)}
    (h : (name, q) ∈ fields) : q.depth ≤ depthFields fields := by
  induction fields with
  | nil => cases h
  | cons f rest ih =>
    obtain ⟨k, i⟩ := f
    rw [depthFields]
    rcases List.mem_cons.1 h with h | h
    · cases h
      exact Nat.le_max_left _ _
    · exact (ih h).trans (Nat.le_max_right _ _)

theorem depth_lt_of_elements {ps : List Payload} (h : p.elements? = some ps) (hq : q ∈ ps) :
    q.depth < p.depth := by
  unfold elements? at h
  split at h
  · cases h
    exact Nat.lt_succ_of_le (depth_le_of_mem hq)
  · cases h
    obtain ⟨j, hj, rfl⟩ := List.mem_map.1 hq
    exact Nat.lt_succ_of_le (Json.depth_le_of_mem hj)
  · cases h

theorem depth_lt_of_fields {fields : Keyed Payload} {name : String} (h : p.fields? = some fields)
    (hq : fields.lookup name = some q) : q.depth < p.depth := by
  have hmem : (name, q) ∈ fields := Keyed.mem_of_lookup hq
  unfold fields? at h
  split at h
  · cases h
    exact Nat.lt_succ_of_le (depth_le_of_field hmem)
  · cases h
    obtain ⟨m, hm, heq⟩ := List.mem_map.1 hmem
    cases heq
    exact Nat.lt_succ_of_le (Json.depth_le_of_member hm)
  · cases h

end Payload

/-! ## Decoding looks at no other payloads -/

section Locality
variable {u u' : Unfolding V n}

theorem InputType.decodeWith_null {input : InputType V n} (h : input.shape.isOptional) :
    input.decodeWith u .null = input.decodeWith u' .null := by
  induction input using InputType.induction with
  | optional inner assemble => simp only [decodeWith]; rfl
  | map f inner ih =>
    simp only [decodeWith]
    rw [ih (by simpa only [shape] using h)]
  | _ => simp [shape, InputShape.isOptional] at h

/-- What decoding comes to depends on what references come to, at the payload itself and at less
deep ones. -/
theorem InputType.decodeWith_below {input : InputType V n} {p : Payload}
    (h : ∀ t q, q = p ∨ q.depth < p.depth → (u t q).Below (u' t q)) :
    (input.decodeWith u p).Below (input.decodeWith u' p) := by
  induction input using InputType.induction generalizing p with
  | scalar name read => simp only [decodeWith]; exact .refl _
  | enumeration name pairs => simp only [decodeWith]; exact .refl _
  | object name slots ih =>
    simp only [decodeWith]
    split
    · rename_i fields hfields
      refine Outcome.Below.bind (.of_map_some ?_) fun _ => .refl _
      rw [slots.read_positional_eq, slots.read_positional_eq]
      refine (Outcome.Below.mapM fun e he => ?_).map _
      -- only a payload that is given is decoded below the object; a default needs no decoding
      cases hvalue : fields.lookup e.name with
      | some q =>
        have hdepth := p.depth_lt_of_fields hfields hvalue
        refine (ih e he fun t q' hq' => h t q' (.inr ?_)).mapError _
        rcases hq' with rfl | hq' <;> omega
      | none =>
        cases hdefault : e.default with
        | some a =>
          simp only [Entry.read, hdefault]
          exact .refl _
        | none =>
          simp only [Entry.read, hdefault]
          split
          · rename_i hopt
            rw [InputType.decodeWith_null hopt]
            exact .refl _
          · exact .refl _
    · exact .refl _
  | list item assemble ih =>
    simp only [decodeWith]
    split
    · rename_i elements helements
      refine (Outcome.Below.mapM fun q hq => ih fun t q' hq' => h t q' (.inr ?_)).map _
      have := p.depth_lt_of_elements helements hq
      rcases hq' with rfl | hq' <;> omega
    · exact .refl _
  | optional inner assemble ih =>
    simp only [decodeWith]
    split
    · exact .refl _
    · exact (ih h).map _
  | map f inner ih =>
    simp only [decodeWith]
    exact (ih h).map _
  | reference name target =>
    simp only [decodeWith]
    exact h target p (.inl rfl)

theorem InputType.decodeWith_congr {input : InputType V n} {p : Payload}
    (h : ∀ t q, q = p ∨ q.depth < p.depth → u t q = u' t q) :
    input.decodeWith u p = input.decodeWith u' p :=
  (decodeWith_below fun t q hq => .inr (h t q hq)).antisymm
    (decodeWith_below fun t q hq => .inr (h t q hq).symm)

end Locality

/-! ## More unfoldings -/

namespace InputTable
variable (table : InputTable V n)

theorem unfold_below_succ (k : Nat) (t : Fin n) (p : Payload) :
    (table.unfold k t p).Below (table.unfold (k + 1) t p) := by
  induction k generalizing t p with
  | zero => exact .inl rfl
  | succ k ih => exact InputType.decodeWith_below fun t q _ => ih t q

theorem unfold_below {k l : Nat} (h : k ≤ l) (t : Fin n) (p : Payload) :
    (table.unfold k t p).Below (table.unfold l t p) := by
  induction h with
  | refl => exact .refl _
  | step _ ih => exact ih.trans (table.unfold_below_succ _ t p)

/-- The definitions that come to an outcome at the payload within `k` unfoldings. -/
def finished (p : Payload) (k : Nat) : Finset (Fin n) := {t | (table.unfold k t p).isFinished}

variable {table} {p : Payload}

theorem finished_mono {k l : Nat} (h : k ≤ l) : table.finished p k ⊆ table.finished p l := by
  intro t ht
  simp only [finished, Finset.mem_filter, Finset.mem_univ, true_and] at ht ⊢
  exact (table.unfold_below h t p).isFinished ht

theorem unfold_eq_of_card_eq {k l : Nat} (h : k ≤ l)
    (hcard : (table.finished p k).card = (table.finished p l).card) (t : Fin n) :
    table.unfold k t p = table.unfold l t p := by
  have hset : table.finished p k = table.finished p l :=
    Finset.eq_of_subset_of_card_le (finished_mono h) hcard.ge
  refine (table.unfold_below h t p).eq_of_isFinished fun ht => ?_
  have hmem : t ∈ table.finished p l := by simpa [finished] using ht
  rw [← hset] at hmem
  simpa [finished] using hmem

/-- One more unfolding changes nothing at a payload if the last one changed nothing there, once all
less deep payloads have come to their outcomes. -/
theorem unfold_succ_stable {k : Nat}
    (hless : ∀ q : Payload, q.depth < p.depth → ∀ t, table.unfold k t q = table.unfold (k + 1) t q)
    (h : ∀ t, table.unfold k t p = table.unfold (k + 1) t p) (t : Fin n) :
    table.unfold (k + 1) t p = table.unfold (k + 2) t p := by
  change (table t).decodeWith (table.unfold k) p = (table t).decodeWith (table.unfold (k + 1)) p
  refine InputType.decodeWith_congr fun t' q hq => ?_
  rcases hq with rfl | hq
  · exact h t'
  · exact hless q hq t'

/-- At payloads less deep than `d`, `n * d` unfoldings are enough. -/
theorem unfold_settled_below (d : Nat) :
    ∀ p : Payload, p.depth < d → ∀ k, n * d ≤ k → ∀ t,
      table.unfold k t p = table.unfold (n * d) t p := by
  induction d with
  | zero => intro p hp; omega
  | succ d ih =>
    intro p hp k hk t
    have hless : ∀ j, ∀ q : Payload, q.depth < p.depth → ∀ t,
        table.unfold (n * d + j) t q = table.unfold (n * d + j + 1) t q := fun j q hq t => by
      rw [ih q (by omega) (n * d + j) (by omega) t, ih q (by omega) (n * d + j + 1) (by omega) t]
    -- the definitions finished at `p` grow by at least one or stay the same from there on
    have hcard : ∀ m, n ≤ m →
        (table.finished p (n * d + m)).card = (table.finished p (n * d + n)).card := by
      intro m hm
      refine Nat.stabilises_of_monotone (f := fun j => (table.finished p (n * d + j)).card)
        (fun i j hij => Finset.card_le_card (finished_mono (by omega)))
        (fun j => (Finset.card_le_univ _).trans (Fintype.card_fin n).le) (fun j hj => ?_) hm
      have hstep := unfold_succ_stable (hless j) fun t =>
        unfold_eq_of_card_eq (by omega : n * d + j ≤ n * d + j + 1) hj t
      refine congrArg Finset.card (Finset.filter_congr fun t _ => ?_)
      rw [show n * d + (j + 1) = n * d + j + 1 by omega,
        show n * d + (j + 2) = n * d + j + 2 by omega, hstep t]
    obtain ⟨m, rfl⟩ := Nat.exists_eq_add_of_le ((Nat.mul_le_mul_left n d.le_succ).trans hk)
    have hmul : n * (d + 1) = n * d + n := Nat.mul_succ n d
    rw [hmul]
    exact (unfold_eq_of_card_eq (by omega) (hcard m (by omega)).symm t).symm

/-- The number of unfoldings that decoding allows is enough. -/
theorem unfold_settled {k : Nat} (hk : unfoldings n p.depth ≤ k) (t : Fin n) :
    table.unfold k t p = table.unfold (unfoldings n p.depth) t p :=
  unfold_settled_below (p.depth + 1) p (Nat.lt_succ_self _) k hk t

end InputTable

/-! ## Decoding without a number of unfoldings -/

namespace InputType
variable {table : InputTable V n} {input : InputType V n} {p : Payload}

theorem unfoldings_le {q : Payload} (hq : q = p ∨ q.depth < p.depth) :
    unfoldings n q.depth ≤ unfoldings n p.depth := by
  refine Nat.mul_le_mul_left n ?_
  rcases hq with rfl | hq <;> omega

/-- What references come to where their definitions are decoded. -/
theorem unfold_eq_decode (t : Fin n) {k : Nat} (hk : unfoldings n p.depth ≤ k) :
    table.unfold k t p = (table t).decode table p := by
  rw [InputTable.unfold_settled hk t, ← InputTable.unfold_settled (Nat.le_succ _) t]
  rfl

/-- Decoding with more unfoldings than allowed comes to the same. -/
theorem decodeWith_unfold {k : Nat} (hk : unfoldings n p.depth ≤ k) :
    input.decodeWith (table.unfold k) p = input.decode table p := by
  refine decodeWith_congr fun t q hq => ?_
  rw [unfold_eq_decode t ((unfoldings_le hq).trans hk), unfold_eq_decode t (unfoldings_le hq)]

/-- A payload is decoded as the input type says, references as their definitions. -/
theorem decode_eq :
    input.decode table p = input.decodeWith (fun t => (table t).decode table) p :=
  decodeWith_congr fun t _ hq => unfold_eq_decode t (unfoldings_le hq)

end InputType
end QueryTypes
