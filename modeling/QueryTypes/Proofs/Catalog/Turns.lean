import QueryTypes.Proofs.Catalog.Closure
import QueryTypes.Proofs.Catalog.Steps

/-!
# Collecting turn by turn

A collection as a loop that is given no number of steps: what is left to do is a stack of inputs and
a line of outputs, and each turn takes one list, optional or reference off an input or output, or
enters a definition (`Work.turn`). The loop returns what `Catalog.collect` and
`Catalog.collectInput` come to, and never returns where they do not finish
(`Work.Follows.outcome`). It is endless only if it comes to an input that goes round in a circle.
-/

namespace QueryTypes

variable {S : Signature} {c : S.Context}

/-! ## One turn -/

/-- What is left to do: the inputs, which go first, the outputs in line, and what is entered so
far. -/
structure Work (S : Signature) (c : S.Context) where
  inputs : List (InputShape S.inputs)
  outputs : List (OutputShape S c)
  catalog : Catalog S c

/-- What a turn comes to: more work, or a result. -/
inductive Turn (S : Signature) (c : S.Context) where
  | next (work : Work S c)
  | last (result : Except (Rejection S c) (Catalog S c))

namespace Work
variable {D : Definitions S} {w w' w'' : Work S c}

/-- One turn of the loop. -/
def turn (D : Definitions S) : Work S c → Turn S c
  | ⟨.list item :: inputs, outputs, catalog⟩ => .next ⟨item :: inputs, outputs, catalog⟩
  | ⟨.optional inner :: inputs, outputs, catalog⟩ => .next ⟨inner :: inputs, outputs, catalog⟩
  | ⟨.reference _ target :: inputs, outputs, catalog⟩ =>
    .next ⟨(D.input target).shape :: inputs, outputs, catalog⟩
  | ⟨s :: inputs, outputs, catalog⟩ =>
    match catalog.addInput D s with
    | .error reason => .last (.error ⟨reason, catalog⟩)
    | .ok none => .next ⟨inputs, outputs, catalog⟩
    | .ok (some extended) => .next ⟨s.fieldInputs ++ inputs, outputs, extended⟩
  | ⟨[], .list item :: line, catalog⟩ => .next ⟨[], line ++ [item], catalog⟩
  | ⟨[], .optional inner :: line, catalog⟩ => .next ⟨[], line ++ [inner], catalog⟩
  | ⟨[], s :: line, catalog⟩ =>
    match catalog.addOutput D s with
    | .error reason => .last (.error ⟨reason, catalog⟩)
    | .ok none => .next ⟨[], line, catalog⟩
    | .ok (some extended) => .next ⟨(Definition.output s).inputs, line ++ s.successors D, extended⟩
  | ⟨[], [], catalog⟩ => .last (.ok catalog)

/-- Any number of turns, none of them the last. -/
def Turns (D : Definitions S) : Work S c → Work S c → Prop :=
  Relation.ReflTransGen fun w w' => w.turn D = .next w'

/-- After some turns comes the last one, with the given result. -/
def Returns (D : Definitions S) (w : Work S c) (result : Except (Rejection S c) (Catalog S c)) :
    Prop :=
  ∃ w', w.Turns D w' ∧ w'.turn D = .last result

/-- No turn is the last. -/
def Endless (D : Definitions S) (w : Work S c) : Prop :=
  ∀ w', w.Turns D w' → ∃ w'', w'.turn D = .next w''

/-- The input to take next leads to no definition. -/
def Circles (D : Definitions S) (w : Work S c) : Prop :=
  ∃ s rest, w.inputs = s :: rest ∧ ∀ d, ¬ s.LeadsTo D.input d

/-! ## Runs of turns -/

theorem Turns.trans (h : w.Turns D w') (h' : w'.Turns D w'') : w.Turns D w'' :=
  Relation.ReflTransGen.trans h h'

/-- There is one way only. -/
theorem Turns.total (h : w.Turns D w') (h' : w.Turns D w'') : w'.Turns D w'' ∨ w''.Turns D w' :=
  Relation.ReflTransGen.total_of_right_unique
    (fun _ _ _ ha hb => Turn.next.inj (ha.symm.trans hb)) h h'

theorem Turns.returns {r : Except (Rejection S c) (Catalog S c)} (h : w.Turns D w')
    (hr : w'.Returns D r) : w.Returns D r := by
  obtain ⟨w'', hw, hlast⟩ := hr
  exact ⟨w'', h.trans hw, hlast⟩

/-- The last turn has no successor. -/
theorem Turns.eq_of_last {r : Except (Rejection S c) (Catalog S c)} (h : w.Turns D w')
    (hlast : w.turn D = .last r) : w' = w := by
  rcases Relation.ReflTransGen.cases_head h with rfl | ⟨_, hnext, -⟩
  · rfl
  · rw [hlast] at hnext
    cases hnext

theorem Returns.unique {r r' : Except (Rejection S c) (Catalog S c)} (h : w.Returns D r)
    (h' : w.Returns D r') : r = r' := by
  obtain ⟨w₁, hw₁, hr⟩ := h
  obtain ⟨w₂, hw₂, hr'⟩ := h'
  have hsame : w₁ = w₂ := by
    rcases hw₁.total hw₂ with h | h
    · exact (h.eq_of_last hr).symm
    · exact h.eq_of_last hr'
  rw [hsame, hr'] at hr
  cases hr
  rfl

theorem Returns.not_endless {r : Except (Rejection S c) (Catalog S c)} (h : w.Returns D r) :
    ¬ w.Endless D := by
  intro hendless
  obtain ⟨w', hw, hlast⟩ := h
  obtain ⟨_, hnext⟩ := hendless w' hw
  rw [hlast] at hnext
  cases hnext

/-- An input that leads nowhere takes one more turn, and then leads nowhere still. -/
theorem Circles.next (h : w.Circles D) : ∃ w', w.turn D = .next w' ∧ w'.Circles D := by
  obtain ⟨inputs, outputs, catalog⟩ := w
  obtain ⟨s, rest, rfl, hs⟩ := h
  cases s with
  | scalar name => exact absurd (.scalar name) (hs _)
  | enumeration name values => exact absurd (.enumeration name values) (hs _)
  | object name fields => exact absurd (.object name fields) (hs _)
  | list item => exact ⟨_, rfl, item, rest, rfl, fun d hd => hs d (.list hd)⟩
  | optional inner => exact ⟨_, rfl, inner, rest, rfl, fun d hd => hs d (.optional hd)⟩
  | reference name target => exact ⟨_, rfl, _, rest, rfl, fun d hd => hs d (.reference hd)⟩

theorem Circles.turns (h : w.Circles D) (hw : w.Turns D w') : w'.Circles D := by
  induction hw with
  | refl => exact h
  | tail _ hnext ih =>
    obtain ⟨_, hnext', hcircles⟩ := ih.next
    rw [hnext] at hnext'
    cases hnext'
    exact hcircles

/-- Whoever comes to an input that goes round in a circle never returns. -/
theorem Circles.endless (h : w'.Circles D) (hw : w.Turns D w') : w.Endless D := by
  intro v hv
  rcases hv.total hw with hvw | hwv
  · rcases Relation.ReflTransGen.cases_head hvw with rfl | ⟨v', hnext, -⟩
    · exact h.next.imp fun _ => And.left
    · exact ⟨v', hnext⟩
  · exact (h.turns hwv).next.imp fun _ => And.left

/-- Lists, optionals and references are taken off turn by turn. -/
theorem turns_of_leadsTo {s d : InputShape S.inputs} (h : s.LeadsTo D.input d)
    (inputs : List (InputShape S.inputs)) (outputs : List (OutputShape S c))
    (catalog : Catalog S c) :
    Turns D ⟨s :: inputs, outputs, catalog⟩ ⟨d :: inputs, outputs, catalog⟩ := by
  induction h with
  | scalar | enumeration | object => exact .refl
  | list _ ih | optional _ ih | reference _ ih => exact .head rfl ih

/-- The turn that enters an input. -/
theorem turn_of_leadsTo {s d : InputShape S.inputs} (h : s.LeadsTo D.input d)
    (inputs : List (InputShape S.inputs)) (outputs : List (OutputShape S c))
    (catalog : Catalog S c) :
    turn D ⟨d :: inputs, outputs, catalog⟩ =
      match catalog.addInput D d with
      | .error reason => .last (.error ⟨reason, catalog⟩)
      | .ok none => .next ⟨inputs, outputs, catalog⟩
      | .ok (some extended) => .next ⟨d.fieldInputs ++ inputs, outputs, extended⟩ := by
  induction h with
  | scalar | enumeration | object => rfl
  | list _ ih | optional _ ih | reference _ ih => exact ih

/-- The turn that enters an output. -/
theorem turn_output {s : OutputShape S c} (hlist : ∀ item, s ≠ .list item)
    (hopt : ∀ inner, s ≠ .optional inner) (line : List (OutputShape S c)) (catalog : Catalog S c) :
    turn D ⟨[], s :: line, catalog⟩ =
      match catalog.addOutput D s with
      | .error reason => .last (.error ⟨reason, catalog⟩)
      | .ok none => .next ⟨[], line, catalog⟩
      | .ok (some extended) =>
        .next ⟨(Definition.output s).inputs, line ++ s.successors D, extended⟩ := by
  cases s with
  | list item => exact absurd rfl (hlist item)
  | optional inner => exact absurd rfl (hopt inner)
  | _ => rfl

/-! ## The loop and the outcome -/

/-- What the loop does where a collection comes to an outcome: it goes on with the catalog, returns
the error, or comes to an input that goes round in a circle. -/
def Follows (D : Definitions S) (w : Work S c) (goal : Catalog S c → Work S c) :
    Outcome (Rejection S c) (Catalog S c) → Prop
  | .ok after => w.Turns D (goal after)
  | .error e => w.Returns D (.error e)
  | .unfinished => ∃ w', w.Turns D w' ∧ w'.Circles D

namespace Follows
variable {goal goal' : Catalog S c → Work S c} {x : Outcome (Rejection S c) (Catalog S c)}

theorem turns (hw : w.Turns D w') (h : w'.Follows D goal x) : w.Follows D goal x := by
  cases x with
  | ok after => exact hw.trans h
  | error e => exact hw.returns h
  | unfinished =>
    obtain ⟨v, hv, hcircles⟩ := h
    exact ⟨v, hw.trans hv, hcircles⟩

theorem bind {f : Catalog S c → Outcome (Rejection S c) (Catalog S c)} (h : w.Follows D goal x)
    (hf : ∀ after, x = .ok after → (goal after).Follows D goal' (f after)) :
    w.Follows D goal' (x >>= f) := by
  cases x with
  | ok after => exact (hf after rfl).turns h
  | error e => exact h
  | unfinished => exact h

theorem returns_or_endless (h : w.Follows D (⟨[], [], ·⟩) x) :
    (∃ r, x = .ofExcept r ∧ w.Returns D r) ∨ (x = .unfinished ∧ w.Endless D) := by
  cases x with
  | ok after => exact .inl ⟨.ok after, rfl, _, h, rfl⟩
  | error e => exact .inl ⟨.error e, rfl, h⟩
  | unfinished =>
    obtain ⟨w', hw, hcircles⟩ := h
    exact .inr ⟨rfl, hcircles.endless hw⟩

/-- The loop returns what the collection comes to, and never returns where it does not finish. -/
theorem outcome (h : w.Follows D (⟨[], [], ·⟩) x) :
    (∀ r, x = .ofExcept r ↔ w.Returns D r) ∧ (x = .unfinished ↔ w.Endless D) := by
  rcases h.returns_or_endless with ⟨r, rfl, hr⟩ | ⟨rfl, hendless⟩
  · refine ⟨fun r' => ⟨fun heq => ?_, fun hr' => ?_⟩, fun heq => ?_, fun hendless => ?_⟩
    · rwa [← Outcome.ofExcept_injective heq]
    · rw [hr.unique hr']
    · cases r <;> cases heq
    · exact absurd hendless hr.not_endless
  · refine ⟨fun r => ⟨fun heq => ?_, fun hr => ?_⟩, fun _ => hendless, fun _ => rfl⟩
    · cases r <;> cases heq
    · exact absurd hendless hr.not_endless

end Follows
end Work

/-! ## Collections follow the loop -/

namespace Catalog
variable {D : Definitions S} {budget : List (String × Nat)} {catalog : Catalog S c}

/-- With enough steps for the inputs pending and for all that can still be entered, collecting
follows the loop. -/
theorem collectPending_follows (budget : List (String × Nat)) {fuel : Nat}
    {pending : List (InputShape S.inputs)}
    (htable : ∀ t, (D.input t).shape.costs ⊆ budget) (hpending : ∀ s ∈ pending, s.costs ⊆ budget)
    (hfuel : pending.length + unspent (catalog.names .input) budget ≤ fuel)
    (inputs : List (InputShape S.inputs)) (outputs : List (OutputShape S c)) :
    Work.Follows D ⟨pending ++ inputs, outputs, catalog⟩ (⟨inputs, outputs, ·⟩)
      (collectPending D fuel pending catalog) := by
  fun_induction collectPending D fuel pending catalog with
  | case1 => exact .refl
  | case2 => simp at hfuel
  | case3 fuel s pending catalog hs =>
    exact ⟨_, .refl, s, _, rfl, InputShape.definition?_eq_none_iff.1 hs⟩
  | case4 fuel s pending catalog d hs reason hadd =>
    have hlead := InputShape.leadsTo_of_definition? hs
    refine ⟨_, Work.turns_of_leadsTo hlead _ _ _, ?_⟩
    rw [Work.turn_of_leadsTo hlead, hadd]
  | case5 fuel s pending catalog d hs hadd ih =>
    have hlead := InputShape.leadsTo_of_definition? hs
    have hturn := Work.turn_of_leadsTo hlead (pending ++ inputs) outputs catalog
    rw [hadd] at hturn
    have hrest := ih (fun t ht => hpending t (List.mem_cons_of_mem _ ht)) (by
      simp only [List.length_cons] at hfuel
      omega)
    exact hrest.turns (.tail (Work.turns_of_leadsTo hlead _ _ _) hturn)
  | case6 fuel s pending catalog d hs extended hadd ih =>
    have hlead := InputShape.leadsTo_of_definition? hs
    have hturn := Work.turn_of_leadsTo hlead (pending ++ inputs) outputs catalog
    rw [hadd] at hturn
    rcases addInput_takes hadd with ⟨hr, -⟩ | ⟨hnone, -, hr⟩
    · cases hr
    cases hr
    have hcosts : d.costs ⊆ budget := hlead.costs_subset (hpending s List.mem_cons_self) htable
    -- the name of the entry was paid for, which pays for the inputs of its fields
    have hspent := unspent_enter hnone (hcosts hlead.cost_mem)
    have hrest := ih (fun t ht => by
      rcases List.mem_append.1 ht with ht | ht
      · exact List.Subset.trans (InputShape.costs_subset_of_mem_fieldInputs ht) hcosts
      · exact hpending t (List.mem_cons_of_mem _ ht)) (by
      simp only [List.length_append, List.length_cons, Definition.side] at hfuel hspent ⊢
      omega)
    rw [List.append_assoc] at hrest
    exact hrest.turns (.tail (Work.turns_of_leadsTo hlead _ _ _) hturn)

/-- Collecting an input and everything it refers to follows the loop. -/
theorem collectInput_follows (s : InputShape S.inputs) (inputs : List (InputShape S.inputs))
    (outputs : List (OutputShape S c)) (catalog : Catalog S c) :
    Work.Follows D ⟨s :: inputs, outputs, catalog⟩ (⟨inputs, outputs, ·⟩)
      (catalog.collectInput D s) := by
  let budget := s.costs ++ (List.finRange S.inputs).flatMap fun i => (D.input i).shape.costs
  have hsteps : inputSteps D s = 1 + total (budget.map Prod.snd) := by
    simp only [inputSteps, budget, InputShape.fieldCount_eq, List.map_append, total_append,
      total_flatMap, Nat.add_assoc]
  refine collectPending_follows budget (fun t => ?_) ?_ ?_ inputs outputs
  · exact fun x hx => List.mem_append_right _ (List.mem_flatMap.2 ⟨t, List.mem_finRange t, hx⟩)
  · intro t ht
    rw [List.mem_singleton.1 ht]
    exact List.subset_append_left _ _
  · have hunspent := unspent_le (catalog.names .input) budget
    rw [hsteps, List.length_singleton]
    omega

theorem collectInputs_follows (pending inputs : List (InputShape S.inputs))
    (outputs : List (OutputShape S c)) (catalog : Catalog S c) :
    Work.Follows D ⟨pending ++ inputs, outputs, catalog⟩ (⟨inputs, outputs, ·⟩)
      (pending.foldlM (fun catalog s => catalog.collectInput D s) catalog) := by
  induction pending generalizing catalog with
  | nil => exact .refl
  | cons s rest ih =>
    rw [List.foldlM_cons]
    exact (collectInput_follows s (rest ++ inputs) outputs catalog).bind fun mid _ => ih mid

/-- One list or optional taken off is one step less, and costs nothing. -/
theorem lineSteps_back (s item : OutputShape S c) {line : List (OutputShape S c)} {more fuel : Nat}
    (hcosts : s.costs D = item.costs D) (hsteps : s.steps = item.steps + 1)
    (hline : ∀ t ∈ s :: line, t.costs D ⊆ budget)
    (hfuel : lineSteps (s :: line) + more ≤ fuel + 1) :
    (∀ t ∈ line ++ [item], t.costs D ⊆ budget) ∧ lineSteps (line ++ [item]) + more ≤ fuel := by
  refine ⟨fun t ht => ?_, ?_⟩
  · rcases List.mem_append.1 ht with ht | ht
    · exact hline t (List.mem_cons_of_mem _ ht)
    · rw [List.mem_singleton.1 ht, ← hcosts]
      exact hline s List.mem_cons_self
  · rw [lineSteps_cons] at hfuel
    rw [lineSteps_append, lineSteps_cons, lineSteps_nil]
    omega

/-- With enough steps for the outputs in line and for all that can still be entered, collecting
follows the loop. -/
theorem collectLine_follows (budget : List (String × Nat)) {fuel : Nat}
    {line : List (OutputShape S c)}
    (htable : ∀ i, (D.output i).shape.costs D ⊆ budget) (hline : ∀ s ∈ line, s.costs D ⊆ budget)
    (hfuel : lineSteps line + unspent (catalog.names .output) budget ≤ fuel) :
    Work.Follows D ⟨[], line, catalog⟩ (⟨[], [], ·⟩) (collectLine D fuel line catalog) := by
  fun_induction collectLine D fuel line catalog with
  | case1 => exact .refl
  | case2 s line catalog =>
    have hpos := s.steps_pos
    rw [lineSteps_cons] at hfuel
    omega
  | case3 fuel item line catalog ih =>
    obtain ⟨hline, hfuel⟩ := lineSteps_back (.list item) item rfl rfl hline hfuel
    exact (ih hline hfuel).turns (.head rfl .refl)
  | case4 fuel inner line catalog ih =>
    obtain ⟨hline, hfuel⟩ := lineSteps_back (.optional inner) inner rfl rfl hline hfuel
    exact (ih hline hfuel).turns (.head rfl .refl)
  | case5 fuel s line catalog hlist hopt reason hadd =>
    refine ⟨_, .refl, ?_⟩
    rw [Work.turn_output hlist hopt, hadd]
  | case6 fuel s line catalog hlist hopt hadd ih =>
    have hturn := Work.turn_output (D := D) hlist hopt line catalog
    rw [hadd] at hturn
    have hpos := s.steps_pos
    have hrest := ih (fun t ht => hline t (List.mem_cons_of_mem _ ht)) (by
      rw [lineSteps_cons] at hfuel
      omega)
    exact hrest.turns (.head hturn .refl)
  | case7 fuel s line catalog hlist hopt extended hadd ih =>
    have hturn := Work.turn_output (D := D) hlist hopt line catalog
    rw [hadd] at hturn
    rcases addOutput_takes hadd with ⟨hr, -⟩ | ⟨hnone, -, hr⟩
    · cases hr
    cases hr
    have hcosts : s.costs D ⊆ budget := hline s List.mem_cons_self
    have hnamed : s.name?.isSome := Definition.isNamed_output hlist hopt
    -- the name of the entry was paid for, which pays for its successors
    have hspent := unspent_enter hnone (hcosts (OutputShape.cost_mem hnamed))
    refine Work.Follows.turns (.head hturn .refl) ?_
    have hargs := collectInputs_follows (D := D) (Definition.output s).inputs []
      (line ++ s.successors D) (catalog.enter (.output s))
    rw [List.append_nil] at hargs
    refine hargs.bind fun mid hmid => ih mid (fun t ht => ?_) ?_
    · rcases List.mem_append.1 ht with ht | ht
      · exact hline t (List.mem_cons_of_mem _ ht)
      · exact OutputShape.costs_subset_of_mem_successors hcosts htable ht
    · have hkept := unspent_extends (collectInputs_grows hmid).extends .output budget
      have hpos := s.steps_pos
      rw [lineSteps_cons] at hfuel
      rw [lineSteps_append]
      simp only [Definition.side] at hspent
      omega

/-- Collecting an output and everything it refers to follows the loop. -/
theorem collect_follows (s : OutputShape S c) (catalog : Catalog S c) :
    Work.Follows D ⟨[], [s], catalog⟩ (⟨[], [], ·⟩) (catalog.collect D s) := by
  let budget := s.costs D ++ (List.finRange S.outputs).flatMap fun i => (D.output i).shape.costs D
  have hsteps : s.steps + total (budget.map Prod.snd) ≤ outputSteps D s := by
    have htable := total_map_le (l := List.finRange S.outputs) fun i =>
      Nat.le_of_add_left_le (OutputShape.weight_eq (D := D) (D.output i).shape).ge
    simp only [budget, List.map_append, total_append, total_flatMap]
    rw [outputSteps, OutputShape.weight_eq]
    omega
  refine collectLine_follows budget (fun i => ?_) ?_ ?_
  · exact fun x hx => List.mem_append_right _ (List.mem_flatMap.2 ⟨i, List.mem_finRange i, hx⟩)
  · intro t ht
    rw [List.mem_singleton.1 ht]
    exact List.subset_append_left _ _
  · have hunspent := unspent_le (catalog.names .output) budget
    rw [lineSteps_cons, lineSteps_nil]
    omega

end Catalog

/-! ## Termination -/

section Termination
variable {D : Definitions S}

/-- A collection comes to what the loop returns, and does not finish exactly where the loop never
returns. That is where it comes to an input that goes round in a circle. -/
theorem collect_eq_loop (s : OutputShape S c) (catalog : Catalog S c) :
    (∀ r, catalog.collect D s = .ofExcept r ↔ Work.Returns D ⟨[], [s], catalog⟩ r) ∧
    (catalog.collect D s = .unfinished ↔ Work.Endless D ⟨[], [s], catalog⟩) ∧
    (Work.Endless D ⟨[], [s], catalog⟩ ↔
      ∃ w, Work.Turns D ⟨[], [s], catalog⟩ w ∧ w.Circles D) := by
  have hfollows := Catalog.collect_follows (D := D) s catalog
  obtain ⟨hreturns, hendless⟩ := hfollows.outcome
  refine ⟨hreturns, hendless, fun h => ?_, ?_⟩
  · rw [hendless.2 h] at hfollows
    exact hfollows
  · intro ⟨w, hw, hcircles⟩
    exact hcircles.endless hw

theorem collect_returns (htable : ∀ i, ∃ d, (D.input i).shape.LeadsTo D.input d)
    (s : OutputShape S c) (catalog : Catalog S c) :
    ∃ r, Work.Returns D ⟨[], [s], catalog⟩ r ∧ catalog.collect D s = .ofExcept r := by
  rcases (Catalog.collect_follows (D := D) s catalog).returns_or_endless with
    ⟨r, hr, hreturns⟩ | ⟨-, hendless⟩
  · exact ⟨r, hreturns, hr⟩
  · obtain ⟨-, -, hcircle⟩ := collect_eq_loop (D := D) s catalog
    obtain ⟨_, -, t, _, -, hcircles⟩ := hcircle.1 hendless
    obtain ⟨d, hd⟩ := InputShape.exists_leadsTo htable t
    exact absurd hd (hcircles d)

theorem ofQuery_of_collect {query : ObjectType S c} {catalog : Catalog S c}
    (h : Catalog.empty.collect D (.object query.shape) = .ok catalog) :
    Schema.ofQuery D query =
      (Outcome.ofExcept (checkDefinitions D catalog.outputs catalog.inputs) >>= fun _ =>
        .ok ⟨query, catalog⟩) := by
  rw [Schema.ofQuery, h]
  rfl

/-- Once the catalog is collected, a schema or an error is there. -/
theorem exists_ofQuery_eq {query : ObjectType S c} {r : Except (Rejection S c) (Catalog S c)}
    (h : Catalog.empty.collect D (.object query.shape) = .ofExcept r) :
    ∃ r, Schema.ofQuery D query = .ofExcept r := by
  cases r with
  | error e =>
    refine ⟨.error e.reason, ?_⟩
    rw [Schema.ofQuery, h]
    rfl
  | ok catalog =>
    rw [ofQuery_of_collect h]
    cases checkDefinitions D catalog.outputs catalog.inputs with
    | error e => exact ⟨.error e, rfl⟩
    | ok _ => exact ⟨.ok ⟨query, catalog⟩, rfl⟩

/-- Collecting returns for every output and every query type where every definition of the table of
inputs comes down to a scalar, an enum or an input object in finitely many steps. Collecting an input
that never comes down to one never returns. -/
theorem collection_terminates (D : Definitions S) :
    ((∀ i, ∃ d, (D.input i).shape.LeadsTo D.input d) →
      (∀ (s : OutputShape S c) (catalog : Catalog S c),
        ∃ r, Work.Returns D ⟨[], [s], catalog⟩ r ∧ catalog.collect D s = .ofExcept r) ∧
      ∀ query : ObjectType S c, ∃ r, Schema.ofQuery D query = .ofExcept r) ∧
    ∀ (s : InputShape S.inputs) (catalog : Catalog S c), (∀ d, ¬ s.LeadsTo D.input d) →
      Work.Endless D ⟨[s], [], catalog⟩ ∧ catalog.collectInput D s = .unfinished := by
  refine ⟨fun htable => ⟨collect_returns htable, fun query => ?_⟩, fun s catalog hs => ?_⟩
  · obtain ⟨r, -, hr⟩ := collect_returns htable (.object query.shape) Catalog.empty
    exact exists_ofQuery_eq hr
  · have hendless : Work.Endless D ⟨[s], [], catalog⟩ :=
      Work.Circles.endless ⟨s, [], rfl, hs⟩ .refl
    exact ⟨hendless, (Catalog.collectInput_follows s [] [] catalog).outcome.2.2 hendless⟩

end Termination

/-! ## Lists of themselves -/

namespace Loops
open JsonHost

/-- A list whose items are such lists again. -/
def definitions : Definitions (host 1 0) where
  input _ := .list (.reference "Loop" (Fin.last 0)) .array
  output i := i.elim0

/-- The list, by name. -/
def byName : InputShape 1 := .reference "Loop" (Fin.last 0)

theorem not_leadsTo (d : InputShape 1) : ¬ byName.LeadsTo definitions.input d := by
  suffices h : ∀ s, s.LeadsTo definitions.input d → s ≠ byName ∧ s ≠ .list byName from
    fun hd => (h byName hd).1 rfl
  intro s hs
  induction hs with
  | list _ ih => exact ⟨nofun, fun h => ih.1 (InputShape.list.inj h)⟩
  | reference _ ih =>
    refine ⟨fun h => ih.2 ?_, nofun⟩
    cases h
    rfl
  | _ => exact ⟨nofun, nofun⟩

/-- Trees of trees are collected, lists of themselves are not. -/
theorem trees_finish :
    (∃ r, Schema.ofQuery Trees.definitions (Trees.depthOf Trees.byName) = .ofExcept r) ∧
    Work.Endless definitions ⟨[byName], [], (Catalog.empty : Catalog (host 1 0) .thunk)⟩ ∧
    (Catalog.empty : Catalog (host 1 0) .thunk).collectInput definitions byName = .unfinished :=
  ⟨((collection_terminates Trees.definitions).1 fun _ => ⟨_, .object _ _⟩).2 _,
    (collection_terminates definitions).2 byName Catalog.empty not_leadsTo⟩

end Loops
end QueryTypes
