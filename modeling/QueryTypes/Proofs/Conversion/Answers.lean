import QueryTypes.Bound.Selection
import QueryTypes.Proofs.Conversion.Walk

/-!
# Answers under conversions

The answer to a selection depends on what an object shows and what its fields resolve to, no more
(`Selection.answers_of_agrees`). A conversion that preserves what computations give therefore leaves
every answer as it is: what a converted field gives when run is the converted value, and so on down
the selection (`Selection.answers_convert`).
-/

namespace QueryTypes

variable {S : Signature} {c d : S.Context} {D : Definitions S}

/-! ## Values -/

section Values
variable {n : S.Conversion c d} {f' : BoundObject S d → Outcome ResolveError Answer}
  {f : BoundObject S c → Outcome ResolveError Answer}

mutual
/-- A converted value is answered like the value if its objects are. -/
theorem Bound.answerWith_convert (h : ∀ o, f' (o.convert n) = f o) :
    (b : Bound S c) → (b.convert n).answerWith f' = b.answerWith f
  | .leaf _ => by simp only [Bound.convert, Bound.answerWith]
  | .token _ => by simp only [Bound.convert, Bound.answerWith]
  | .null => by simp only [Bound.convert, Bound.answerWith]
  | .list items => by
    simp only [Bound.convert, Bound.answerWith]
    rw [Bound.itemsWith_convert h items]
  | .object o => by
    simp only [Bound.convert, Bound.answerWith]
    exact h o
  | .abstract a => by
    have hnarrow : (a.convert n).narrow = a.narrow.map (BoundObject.convert n) := rfl
    simp only [Bound.convert, Bound.answerWith, hnarrow]
    cases a.narrow with
    | ok o => exact h o
    | error e => rfl
  | .unmapped _ => by simp only [Bound.convert, Bound.answerWith]

theorem Bound.itemsWith_convert (h : ∀ o, f' (o.convert n) = f o) :
    (items : List (Bound S c)) →
      Bound.itemsWith f' (Bound.convertItems n items) = Bound.itemsWith f items
  | [] => by simp only [Bound.convertItems, Bound.itemsWith]
  | b :: rest => by
    simp only [Bound.convertItems, Bound.itemsWith]
    rw [Bound.answerWith_convert h b, Bound.itemsWith_convert h rest]
end

end Values

/-! ## Selections -/

/-- What a converted resolution gives is the converted value. -/
theorem Runner.resolved_convert {R : Runner S.toEffects} {n : S.Conversion c d} (hR : R.Preserves n)
    (r : S.FieldResolution c) :
    R.resolved (S.convertResolution n r) = (R.resolved r).convert n := by
  cases r with
  | pure b => rfl
  | deferred x => exact (hR _).trans (R.run_map (Bound.convert n) x)

/-- The answer to a selected field in terms of `Runner.resolved`. -/
theorem Selection.answer_eq (R : Runner S.toEffects) (name : String)
    (arguments : List (String × Payload)) (selected : List Selection) (o : BoundObject S c) :
    Selection.answer D R.run (.field name arguments selected) o =
      if name = typenameField then .ok (name, .json (.string o.typename))
      else do
        let resolution ← o.resolveNamed D name arguments
        let answer ← (R.resolved resolution).answerWith fun inner =>
          Answer.object <$> Selection.answers D R.run selected inner
        return (name, answer) := by
  rw [Selection.answer]
  split
  · rfl
  · cases o.resolveNamed D name arguments with
    | ok r => cases r <;> rfl
    | error e => rfl
    | unfinished => rfl

mutual
theorem Selection.answer_convert {R : Runner S.toEffects} {n : S.Conversion c d}
    (hR : R.Preserves n) : (s : Selection) → (o : BoundObject S c) →
      Selection.answer D R.run s (o.convert n) = Selection.answer D R.run s o
  | .field name arguments selected, o => by
    have hresolve : (o.convert n).resolveNamed D name arguments =
        S.convertResolution n <$> o.resolveNamed D name arguments := rfl
    have hinner : ∀ inner : BoundObject S c,
        (Answer.object <$> Selection.answers D R.run selected (inner.convert n)) =
          Answer.object <$> Selection.answers D R.run selected inner := fun inner => by
      rw [Selection.answers_convert hR selected inner]
    rw [Selection.answer_eq, Selection.answer_eq, hresolve]
    split
    · rfl
    · cases o.resolveNamed D name arguments with
      | ok r =>
        simp only [Outcome.map_ok, Outcome.ok_bind]
        rw [Runner.resolved_convert hR, Bound.answerWith_convert hinner]
      | error e => rfl
      | unfinished => rfl

/-- A conversion that preserves what computations give preserves the answers of an object. -/
theorem Selection.answers_convert {R : Runner S.toEffects} {n : S.Conversion c d}
    (hR : R.Preserves n) : (selected : List Selection) → (o : BoundObject S c) →
      Selection.answers D R.run selected (o.convert n) = Selection.answers D R.run selected o
  | [], _ => by simp only [Selection.answers]
  | s :: rest, o => by
    simp only [Selection.answers]
    rw [Selection.answer_convert hR s o, Selection.answers_convert hR rest o]
end

theorem Reached.ofOutcome_injective {E : Effects} {c : E.Context} {α : Type}
    {x y : Outcome ResolveError (Resolution E c α)} (h : ofOutcome x = ofOutcome y) : x = y := by
  cases x <;> cases y <;> cases h <;> rfl

/-- Objects that agree give the same answers. -/
theorem Selection.answers_of_agrees (R : Runner S.toEffects) {o o' : BoundObject S c}
    (h : (Bound.object o).Agrees D (.object o')) (selected : List Selection) :
    Selection.answers D R.run selected o = Selection.answers D R.run selected o' := by
  have htypename : o.typename = o'.typename := by
    have hview : View.object o.typename (OutputShape.object o.shape) =
      .object o'.typename (.object o'.shape) := h.view
    injection hview
  have hresolve : ∀ name args, o.resolveNamed D name args = o'.resolveNamed D name args :=
    fun name args => Reached.ofOutcome_injective (h.step (.resolveNamed name args))
  induction selected with
  | nil => simp only [Selection.answers]
  | cons s rest ih =>
    obtain ⟨name, arguments, inner⟩ := s
    simp only [Selection.answers, Selection.answer_eq, htypename, hresolve, ih]

end QueryTypes
