import QueryTypes.Proofs.Catalog.Growth
import Mathlib.Data.Finset.Card
import Mathlib.Data.Fintype.Card
import Mathlib.Order.Monotone.Basic

/-!
# Enough steps

Collections are given a number of steps beforehand. It is enough for two reasons. A path of
references that does not go round in a circle has no more of them than there are definitions
(`definition?_eq_some_iff`). And each name is entered once on either side, so what entries put in line
is paid for by `unspent`, the costs of the names that are still to be entered: it goes down by the
cost of a definition whenever that definition is entered (`unspent_enter`).
-/

namespace QueryTypes

/-! ## Following references to the end -/

namespace InputShape
variable {V : Type} {n : Nat} {table : InputTable V n} {s d : InputShape n}

theorem definitionWith_mono {u u' : Fin n → Option (InputShape n)}
    (h : ∀ t d, u t = some d → u' t = some d) :
    ∀ {s d : InputShape n}, s.definitionWith u = some d → s.definitionWith u' = some d
  | .list item, _, hd => definitionWith_mono (s := item) h hd
  | .optional inner, _, hd => definitionWith_mono (s := inner) h hd
  | .reference _ target, d, hd => h target d hd
  | .scalar _, _, hd | .enumeration _ _, _, hd | .object _ _, _, hd => hd

theorem definitionAt_succ {k : Nat} (t : Fin n) (d : InputShape n)
    (h : definitionAt table k t = some d) : definitionAt table (k + 1) t = some d := by
  induction k generalizing t d with
  | zero => cases h
  | succ k ih => exact definitionWith_mono ih h

theorem definitionAt_mono {k l : Nat} (hkl : k ≤ l) {t : Fin n} (h : definitionAt table k t = some d) :
    definitionAt table l t = some d := by
  induction hkl with
  | refl => exact h
  | step _ ih => exact definitionAt_succ t d ih

variable (table) in
/-- The definitions of the table that come down to something within `k` references. -/
def found (k : Nat) : Finset (Fin n) := {t | (definitionAt table k t).isSome}

theorem mem_found {k : Nat} {t : Fin n} :
    t ∈ found table k ↔ ∃ d, definitionAt table k t = some d := by
  simp only [found, Finset.mem_filter, Finset.mem_univ, true_and, Option.isSome_iff_exists]

theorem found_mono : Monotone (found table) := by
  intro k l hkl t ht
  obtain ⟨d, hd⟩ := mem_found.1 ht
  exact mem_found.2 ⟨d, definitionAt_mono hkl hd⟩

theorem definitionAt_eq_of_card_eq {k l : Nat} (hkl : k ≤ l)
    (hcard : (found table k).card = (found table l).card) :
    definitionAt table k = definitionAt table l := by
  have hset : found table k = found table l :=
    Finset.eq_of_subset_of_card_le (found_mono hkl) hcard.ge
  funext t
  cases hl : definitionAt table l t with
  | some d =>
    have hmem : t ∈ found table l := mem_found.2 ⟨d, hl⟩
    rw [← hset] at hmem
    obtain ⟨e, he⟩ := mem_found.1 hmem
    rw [he, ← hl, definitionAt_mono hkl he]
  | none =>
    cases hk : definitionAt table k t with
    | none => rfl
    | some e => rw [definitionAt_mono hkl hk] at hl; cases hl

/-- Following more than `n` references finds nothing new: the definitions found grow with each
reference, or have stopped growing for good. -/
theorem definitionAt_eq {k : Nat} (hk : n ≤ k) : definitionAt table k = definitionAt table n := by
  refine (definitionAt_eq_of_card_eq hk ?_).symm
  refine (Nat.stabilises_of_monotone (f := fun k => (found table k).card)
    (fun i j hij => Finset.card_le_card (found_mono hij))
    (fun k => (Finset.card_le_univ _).trans (Fintype.card_fin n).le) (fun k hcard => ?_) hk).symm
  have hsame := definitionAt_eq_of_card_eq k.le_succ hcard
  have hnext : definitionAt table (k + 1) = definitionAt table (k + 2) := by
    funext t
    exact congrArg (fun u => (table t).shape.definitionWith u) hsame
  exact congrArg Finset.card (Finset.filter_congr fun t _ => by rw [hnext])

theorem LeadsTo.exists_definitionAt (h : s.LeadsTo table d) :
    ∃ k, s.definitionWith (definitionAt table k) = some d := by
  induction h with
  | scalar | enumeration | object => exact ⟨0, rfl⟩
  | list _ ih | optional _ ih => exact ih
  | reference _ ih =>
    obtain ⟨k, hk⟩ := ih
    exact ⟨k + 1, hk⟩

/-- What an input comes down to is found in `n` references, if it comes down to anything. -/
theorem definition?_eq_some_iff : s.definition? table = some d ↔ s.LeadsTo table d := by
  refine ⟨leadsTo_of_definition?, fun h => ?_⟩
  obtain ⟨k, hk⟩ := h.exists_definitionAt
  by_cases hkn : k ≤ n
  · exact definitionWith_mono (fun t e => definitionAt_mono hkn) hk
  · rw [definitionAt_eq (by omega)] at hk
    exact hk

theorem definition?_eq_none_iff : s.definition? table = none ↔ ∀ d, ¬ s.LeadsTo table d := by
  rw [Option.eq_none_iff_forall_ne_some]
  exact forall_congr' fun d => not_congr definition?_eq_some_iff

/-- Where every definition of the table comes down to something, every input does. -/
theorem exists_leadsTo (h : ∀ t, ∃ d, (table t).shape.LeadsTo table d) :
    ∀ s : InputShape n, ∃ d, s.LeadsTo table d
  | .scalar name => ⟨_, .scalar name⟩
  | .enumeration name values => ⟨_, .enumeration name values⟩
  | .object name fields => ⟨_, .object name fields⟩
  | .list item => (exists_leadsTo h item).imp fun _ => .list
  | .optional inner => (exists_leadsTo h inner).imp fun _ => .optional
  | .reference _ target => (h target).imp fun _ => .reference

end InputShape

/-! ## Costs of entries -/

namespace Catalog
variable {S : Signature} {c : S.Context} {catalog : Catalog S c} {d : Definition S c}
  {budget : List (String × Nat)}

/-- The names entered on a side. -/
def names (catalog : Catalog S c) : Side → List String
  | .output => Keyed.keys catalog.outputs
  | .input => Keyed.keys catalog.inputs

/-- What a budget has for the names that have not been entered. -/
def unspent (entered : List String) (budget : List (String × Nat)) : Nat :=
  total ((budget.filter fun x => x.1 ∉ entered).map Prod.snd)

@[simp] theorem total_nil : total [] = 0 := rfl

@[simp] theorem total_cons (k : Nat) (steps : List Nat) : total (k :: steps) = k + total steps := rfl

@[simp] theorem total_append (l m : List Nat) : total (l ++ m) = total l + total m :=
  List.sum_append

theorem total_flatMap {α : Type} (f : α → List (String × Nat)) (l : List α) :
    total ((l.flatMap f).map Prod.snd) = total (l.map fun a => total ((f a).map Prod.snd)) := by
  induction l with
  | nil => rfl
  | cons a rest ih =>
    rw [List.flatMap_cons, List.map_append, total_append, ih, List.map_cons, total_cons]

theorem total_map_le {α : Type} {f g : α → Nat} {l : List α} (h : ∀ a, f a ≤ g a) :
    total (l.map f) ≤ total (l.map g) := by
  induction l with
  | nil => exact Nat.le_refl 0
  | cons a rest ih =>
    have ha := h a
    rw [List.map_cons, List.map_cons, total_cons, total_cons]
    omega

theorem unspent_cons (entered : List String) (x : String × Nat) (budget : List (String × Nat)) :
    unspent entered (x :: budget) =
      (if x.1 ∈ entered then 0 else x.2) + unspent entered budget := by
  by_cases hx : x.1 ∈ entered <;> simp [unspent, hx]

theorem unspent_le (entered : List String) (budget : List (String × Nat)) :
    unspent entered budget ≤ total (budget.map Prod.snd) := by
  induction budget with
  | nil => exact Nat.le_refl 0
  | cons x budget ih =>
    rw [unspent_cons, List.map_cons, total_cons]
    split <;> omega

theorem unspent_append_le (entered more : List String) (budget : List (String × Nat)) :
    unspent (entered ++ more) budget ≤ unspent entered budget := by
  induction budget with
  | nil => exact Nat.le_refl 0
  | cons x budget ih =>
    rw [unspent_cons, unspent_cons]
    by_cases hx : x.1 ∈ entered
    · have hmore : x.1 ∈ entered ++ more := List.mem_append_left more hx
      rw [if_pos hx, if_pos hmore]
      omega
    · rw [if_neg hx]
      split <;> omega

/-- A new name takes its cost away. -/
theorem unspent_append_add_le {entered : List String} {name : String} {cost : Nat}
    (hnew : name ∉ entered) (hcost : (name, cost) ∈ budget) :
    unspent (entered ++ [name]) budget + cost ≤ unspent entered budget := by
  induction budget with
  | nil => cases hcost
  | cons x budget ih =>
    rw [unspent_cons, unspent_cons]
    rcases List.mem_cons.1 hcost with rfl | hcost
    · have hrest := unspent_append_le entered [name] budget
      simp only [List.mem_append, List.mem_singleton, or_true, if_true, hnew, if_false]
      omega
    · have hrest := ih hcost
      by_cases hx : x.1 ∈ entered
      · have hmore : x.1 ∈ entered ++ [name] := List.mem_append_left [name] hx
        rw [if_pos hx, if_pos hmore]
        omega
      · rw [if_neg hx]
        split <;> omega

theorem names_enter (catalog : Catalog S c) (d : Definition S c) :
    (catalog.enter d).names d.side = catalog.names d.side ++ [d.name] := by
  cases d <;> simp [enter, names, Keyed.keys, Definition.side, Definition.name]

theorem not_mem_names {side : Side} {name : String} (h : catalog.entered? side name = none) :
    name ∉ catalog.names side := by
  intro hname
  cases side with
  | output =>
    obtain ⟨s, hs⟩ := Keyed.exists_lookup.2 hname
    rw [entered?_output hs] at h
    cases h
  | input =>
    obtain ⟨s, hs⟩ := Keyed.exists_lookup.2 hname
    rw [entered?_input hs] at h
    cases h

/-- Entering a definition takes away what it costs. -/
theorem unspent_enter {cost : Nat} (hnone : catalog.entered? d.side d.name = none)
    (hcost : (d.name, cost) ∈ budget) :
    unspent ((catalog.enter d).names d.side) budget + cost ≤ unspent (catalog.names d.side) budget := by
  rw [names_enter]
  exact unspent_append_add_le (not_mem_names hnone) hcost

/-- What is entered already stays paid for. -/
theorem unspent_extends {before after : Catalog S c} (h : before.Extends after) (side : Side)
    (budget : List (String × Nat)) :
    unspent (after.names side) budget ≤ unspent (before.names side) budget := by
  cases side with
  | output =>
    obtain ⟨more, hmore⟩ := h.outputs
    rw [names, names, ← hmore, Keyed.keys, List.map_append]
    exact unspent_append_le _ _ _
  | input =>
    obtain ⟨more, hmore⟩ := h.inputs
    rw [names, names, ← hmore, Keyed.keys, List.map_append]
    exact unspent_append_le _ _ _

end Catalog

/-! ## Costs of inputs -/

namespace InputShape
variable {V : Type} {n : Nat} {table : InputTable V n} {s d : InputShape n}
  {budget : List (String × Nat)}

mutual
/-- The definitions inside a shape, each with the number of its fields. -/
def costs : InputShape n → List (String × Nat)
  | .scalar name => [(name, 0)]
  | .enumeration name _ => [(name, 0)]
  | .object name fields => (name, fields.length) :: slotCosts fields
  | .list item => item.costs
  | .optional inner => inner.costs
  | .reference _ _ => []

def slotCosts : List (Slot (InputShape n)) → List (String × Nat)
  | [] => []
  | ⟨_, _, s, _⟩ :: rest => costs s ++ slotCosts rest
end

mutual
theorem fieldCount_eq : ∀ s : InputShape n, s.fieldCount = Catalog.total (s.costs.map Prod.snd)
  | .scalar _ | .enumeration _ _ | .reference _ _ => by simp [fieldCount, costs]
  | .object _ fields => by simp [fieldCount, costs, fieldCounts_eq fields]
  | .list item => by simp [fieldCount, costs, fieldCount_eq item]
  | .optional inner => by simp [fieldCount, costs, fieldCount_eq inner]

theorem fieldCounts_eq : ∀ fields : List (Slot (InputShape n)),
    fieldCounts fields = Catalog.total ((slotCosts fields).map Prod.snd)
  | [] => by simp [fieldCounts, slotCosts]
  | ⟨_, _, s, _⟩ :: rest => by
    simp [fieldCounts, slotCosts, fieldCount_eq s, fieldCounts_eq rest]
end

theorem slotCosts_eq (fields : List (Slot (InputShape n))) :
    slotCosts fields = fields.flatMap fun f => f.input.costs := by
  induction fields with
  | nil => simp [slotCosts]
  | cons f rest ih => rw [slotCosts, ih, List.flatMap_cons]

/-- The definitions inside what an input leads to stand inside the input or in the table. -/
theorem LeadsTo.costs_subset (h : s.LeadsTo table d) (hs : s.costs ⊆ budget)
    (htable : ∀ t, (table t).shape.costs ⊆ budget) : d.costs ⊆ budget := by
  induction h with
  | scalar | enumeration | object => exact hs
  | list _ ih | optional _ ih => exact ih (by simpa only [InputShape.costs] using hs)
  | reference _ ih => exact ih (htable _)

/-- What an input leads to costs what it puts in line. -/
theorem LeadsTo.cost_mem (h : s.LeadsTo table d) :
    (d.namedType, d.fieldInputs.length) ∈ d.costs := by
  induction h with
  | list _ ih | optional _ ih | reference _ ih => exact ih
  | _ => simp [InputShape.costs, namedType, fieldInputs]

theorem costs_subset_of_mem_fieldInputs {t : InputShape n} (ht : t ∈ s.fieldInputs) :
    t.costs ⊆ s.costs := by
  cases s with
  | object name fields =>
    obtain ⟨f, hf, rfl⟩ := List.mem_map.1 ht
    simp only [InputShape.costs, slotCosts_eq]
    exact fun x hx => List.mem_cons_of_mem _ (List.mem_flatMap.2 ⟨f, hf, hx⟩)
  | _ => cases ht

end InputShape

/-! ## Costs of outputs -/

section Outputs
variable {S : Signature} {c d : S.Context} {D : Definitions S}

namespace Catalog

/-- The steps of outputs in line, lists and optionals counted. -/
def lineSteps (line : List (OutputShape S c)) : Nat := total (line.map OutputShape.steps)

@[simp] theorem lineSteps_nil : lineSteps ([] : List (OutputShape S c)) = 0 := rfl

@[simp] theorem lineSteps_cons (s : OutputShape S c) (line : List (OutputShape S c)) :
    lineSteps (s :: line) = s.steps + lineSteps line := rfl

@[simp] theorem lineSteps_append (line more : List (OutputShape S c)) :
    lineSteps (line ++ more) = lineSteps line + lineSteps more := by
  simp [lineSteps]

theorem lineSteps_objects (members : List (ObjectShape S c)) :
    lineSteps (members.map .object) = members.length := by
  induction members with
  | nil => rfl
  | cons m rest ih =>
    rw [List.map_cons, lineSteps_cons, ih]
    exact Nat.add_comm 1 rest.length

end Catalog

/-- An object by name, with the steps of what its fields refer to. -/
def ObjectShape.cost (D : Definitions S) (o : ObjectShape S c) : String × Nat :=
  (o.name, FieldShape.steps D o.fields)

namespace OutputShape

/-- The definitions inside a shape, each with the steps of what it refers to. -/
def costs (D : Definitions S) : OutputShape S c → List (String × Nat)
  | .scalar name => [(name, 0)]
  | .enumeration name _ => [(name, 0)]
  | .list item => item.costs D
  | .optional inner => inner.costs D
  | .object shape => [shape.cost D]
  | .interface name fields members =>
    (name, FieldShape.steps D fields + members.length) :: members.map (ObjectShape.cost D)
  | .union name members => (name, members.length) :: members.map (ObjectShape.cost D)

theorem steps_pos (s : OutputShape S c) : 0 < s.steps := by
  cases s <;> simp [steps]

@[simp] theorem steps_convert (n : S.Conversion c d) (s : OutputShape S c) :
    (s.convert n).steps = s.steps := by
  induction s with
  | list _ ih | optional _ ih => exact congrArg (· + 1) ih
  | _ => rfl

end OutputShape

@[simp] theorem FieldShape.steps_convert (n : S.Conversion c d) (fields : List (FieldShape S c)) :
    FieldShape.steps D (fields.map (·.convert n)) = FieldShape.steps D fields := by
  simp only [steps, List.map_map]
  refine congrArg Catalog.total (List.map_congr_left fun f _ => ?_)
  exact OutputShape.steps_convert n (f.output.shape D)

@[simp] theorem ObjectShape.cost_convert (n : S.Conversion c d) (o : ObjectShape S c) :
    (o.convert n).cost D = o.cost D := by
  simp [cost, convert]

theorem ObjectShape.steps_eq (members : List (ObjectShape S c)) :
    ObjectShape.steps D members =
      members.length + Catalog.total ((members.map (ObjectShape.cost D)).map Prod.snd) := by
  induction members with
  | nil => rfl
  | cons m rest ih =>
    simp only [steps, List.map_cons, Catalog.total_cons, List.length_cons] at ih ⊢
    rw [ih, cost]
    omega

namespace OutputShape

/-- No conversion changes what entering costs. -/
@[simp] theorem costs_convert (n : S.Conversion c d) (s : OutputShape S c) :
    (s.convert n).costs D = s.costs D := by
  induction s with
  | list _ ih | optional _ ih => exact ih
  | _ => simp [OutputShape.convert, OutputShape.costs, Function.comp_def]

theorem weight_eq (s : OutputShape S c) :
    s.weight D = s.steps + Catalog.total ((s.costs D).map Prod.snd) := by
  induction s with
  | list _ ih | optional _ ih =>
    simp only [weight, steps, OutputShape.costs, ih]
    omega
  | object o => simp [weight, steps, OutputShape.costs, ObjectShape.cost]
  | interface name fields members =>
    simp only [weight, steps, OutputShape.costs, ObjectShape.steps_eq, List.map_cons,
      Catalog.total_cons]
    omega
  | union name members =>
    simp only [weight, steps, OutputShape.costs, ObjectShape.steps_eq, List.map_cons,
      Catalog.total_cons]
  | _ => simp [weight, steps, OutputShape.costs]

end OutputShape

theorem OutputRef.costs_shape (r : OutputRef S c) :
    (r.shape D).costs D = (D.output r.target).shape.costs D := by
  obtain ⟨target, chain⟩ := r
  induction chain with
  | nil => rfl
  | snoc chain n ih =>
    exact (OutputShape.costs_convert n (OutputRef.shape D ⟨target, chain⟩)).trans ih

namespace OutputShape
variable {budget : List (String × Nat)} {s t : OutputShape S c}

theorem costs_subset_of_mem_successors (hs : s.costs D ⊆ budget)
    (htable : ∀ i, (D.output i).shape.costs D ⊆ budget) (ht : t ∈ s.successors D) :
    t.costs D ⊆ budget := by
  rcases List.mem_append.1 ht with ht | ht
  · obtain ⟨f, -, rfl⟩ := List.mem_map.1 ht
    rw [OutputRef.costs_shape]
    exact htable _
  · obtain ⟨m, hm, rfl⟩ := List.mem_map.1 ht
    refine fun x hx => hs ?_
    rw [List.mem_singleton.1 hx]
    cases s with
    | interface | union => exact List.mem_cons_of_mem _ (List.mem_map_of_mem hm)
    | _ => cases hm

theorem lineSteps_successors :
    Catalog.lineSteps (s.successors D) =
      FieldShape.steps D (s.fields?.getD []) + s.members.length := by
  rw [successors, Catalog.lineSteps_append, Catalog.lineSteps_objects, Catalog.lineSteps,
    List.map_map]
  rfl

/-- A named output costs what it puts in line. -/
theorem cost_mem (hnamed : s.name?.isSome) :
    (s.namedType, Catalog.lineSteps (s.successors D)) ∈ s.costs D := by
  rw [lineSteps_successors]
  cases s with
  | list | optional => cases hnamed
  | object | interface => exact List.mem_cons_self
  | scalar | enumeration | union =>
    simp [OutputShape.costs, namedType, fields?, members, FieldShape.steps]

end OutputShape
end Outputs
end QueryTypes
