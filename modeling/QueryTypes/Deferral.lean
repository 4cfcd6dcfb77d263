/-!
# Deferred work

A resolver either has its value at hand or hands over a computation of some context: a thunk, a
future, a writer. `Effects` gathers the contexts of a host, what computations look like in each, and
the conversions between contexts. `Resolution` is the value at hand or the computation; `Chain` is a
path of conversions, first one innermost.
-/

namespace QueryTypes

/-- The contexts of a host with their computations, and the conversions between them. -/
structure Effects where
  Context : Type
  /-- A computation of a value, in a context. -/
  Deferred : Context → Type → Type
  /-- A value at hand as a computation. -/
  pure : {c : Context} → {α : Type} → α → Deferred c α
  /-- A computation whose result is transformed afterwards. -/
  map : {c : Context} → {α β : Type} → (α → β) → Deferred c α → Deferred c β
  Conversion : Context → Context → Type
  /-- A computation carried over to another context. -/
  convert : {c d : Context} → {α : Type} → Conversion c d → Deferred c α → Deferred d α

/-- A value at hand, or a computation of it. -/
inductive Resolution (E : Effects) (c : E.Context) (α : Type) where
  | pure (value : α)
  | deferred (computation : E.Deferred c α)

namespace Resolution
variable {E : Effects} {c d : E.Context} {α β : Type}

def isPure : Resolution E c α → Bool
  | .pure _ => true
  | .deferred _ => false

/-- Transforms the value, now or when the computation has run. -/
def map (f : α → β) : Resolution E c α → Resolution E c β
  | .pure a => .pure (f a)
  | .deferred x => .deferred (E.map f x)

/-- Both cases as a computation. -/
def intoDeferred : Resolution E c α → E.Deferred c α
  | .pure a => E.pure a
  | .deferred x => x

/-- Converts the computation; a value at hand stays as it is. -/
def convert (n : E.Conversion c d) : Resolution E c α → Resolution E d α
  | .pure a => .pure a
  | .deferred x => .deferred (E.convert n x)

@[simp] theorem isPure_map (f : α → β) (r : Resolution E c α) : (r.map f).isPure = r.isPure := by
  cases r <;> rfl

@[simp] theorem isPure_convert (n : E.Conversion c d) (r : Resolution E c α) :
    (r.convert n).isPure = r.isPure := by
  cases r <;> rfl

end Resolution

/-- Conversions one after the other. -/
inductive Chain (E : Effects) : E.Context → E.Context → Type where
  | nil {c : E.Context} : Chain E c c
  | snoc {a b c : E.Context} : Chain E a b → E.Conversion b c → Chain E a c

/-- Carries a thing along a chain, given how one conversion carries it. -/
def Chain.carry {E : Effects} {F : E.Context → Type}
    (step : {a b : E.Context} → E.Conversion a b → F a → F b) {a : E.Context} :
    {b : E.Context} → Chain E a b → F a → F b
  | _, .nil, x => x
  | _, .snoc chain n, x => step n (carry step chain x)

end QueryTypes
