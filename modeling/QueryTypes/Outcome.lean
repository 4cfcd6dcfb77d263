/-!
# Outcomes

What following definitions that refer to each other comes to: a value, an error, or neither when
the references lead round in a circle. Outcomes form a monad that stops at the first step without a
value.
-/

namespace QueryTypes

/-- A value, an error, or no answer at all. -/
inductive Outcome (ε α : Type) where
  | ok (value : α)
  | error (reason : ε)
  | unfinished
  deriving DecidableEq

namespace Outcome
variable {ε δ α β γ : Type}

/-- Continues with the value, if there is one. -/
protected def bind : Outcome ε α → (α → Outcome ε β) → Outcome ε β
  | .ok a, f => f a
  | .error e, _ => .error e
  | .unfinished, _ => .unfinished

instance : Monad (Outcome ε) where
  pure := .ok
  bind := Outcome.bind

/-- Transforms the error, if there is one. -/
def mapError (f : ε → δ) : Outcome ε α → Outcome δ α
  | .ok a => .ok a
  | .error e => .error (f e)
  | .unfinished => .unfinished

/-- A result as an outcome. -/
def ofExcept : Except ε α → Outcome ε α
  | .ok a => .ok a
  | .error e => .error e

@[simp] theorem pure_eq (a : α) : (pure a : Outcome ε α) = .ok a := rfl
@[simp] theorem ok_bind (a : α) (f : α → Outcome ε β) : (Outcome.ok a >>= f) = f a := rfl
@[simp] theorem error_bind (e : ε) (f : α → Outcome ε β) :
    (Outcome.error e >>= f) = .error e := rfl
@[simp] theorem unfinished_bind (f : α → Outcome ε β) :
    ((Outcome.unfinished : Outcome ε α) >>= f) = .unfinished := rfl
@[simp] theorem map_ok (f : α → β) (a : α) : f <$> (Outcome.ok a : Outcome ε α) = .ok (f a) := rfl
@[simp] theorem map_error (f : α → β) (e : ε) :
    f <$> (Outcome.error e : Outcome ε α) = .error e := rfl
@[simp] theorem map_unfinished (f : α → β) :
    f <$> (Outcome.unfinished : Outcome ε α) = .unfinished := rfl

theorem bind_eq_ok {x : Outcome ε α} {f : α → Outcome ε β} {b : β} (h : (x >>= f) = .ok b) :
    ∃ a, x = .ok a ∧ f a = .ok b := by
  cases x with
  | ok a => exact ⟨a, rfl, h⟩
  | error e => cases h
  | unfinished => cases h

theorem map_eq_ok {x : Outcome ε α} {f : α → β} {b : β} (h : f <$> x = .ok b) :
    ∃ a, x = .ok a ∧ f a = b := by
  obtain ⟨a, ha, hb⟩ := bind_eq_ok h
  cases hb
  exact ⟨a, ha, rfl⟩

theorem mapError_eq_ok {x : Outcome ε α} {f : ε → δ} {a : α} (h : x.mapError f = .ok a) :
    x = .ok a := by
  cases x <;> cases h
  rfl

theorem map_mapError (f : α → β) (g : ε → δ) (x : Outcome ε α) :
    (f <$> x).mapError g = f <$> x.mapError g := by
  cases x <;> rfl

theorem ofExcept_injective {x y : Except ε α} (h : ofExcept x = ofExcept y) : x = y := by
  cases x <;> cases y <;> cases h <;> rfl

instance : LawfulMonad (Outcome ε) :=
  LawfulMonad.mk' (Outcome ε) (fun x => by cases x <;> rfl) (fun _ _ => rfl)
    (fun x _ _ => by cases x <;> rfl)

end Outcome
end QueryTypes
