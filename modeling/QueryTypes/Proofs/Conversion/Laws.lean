import QueryTypes.Bound.Resolve

/-!
# Laws of contexts and conversions

What a host has to promise about its contexts: mapping twice is mapping once (`MapsCompose`), and a
conversion may go before or after a mapping (`Natural`). From these, a resolution that is converted
along a chain keeps its case, and its computation is converted by each link once, first link first
(`Resolution.along`).
-/

namespace QueryTypes

/-! ## Laws -/

namespace Effects
variable (E : Effects)

/-- Transforming the result of a computation twice is transforming it once. -/
def MapsCompose : Prop :=
  ∀ {c : E.Context} {α β γ : Type} (f : α → β) (g : β → γ) (x : E.Deferred c α),
    E.map g (E.map f x) = E.map (g ∘ f) x

/-- The conversion does not look at the result of a computation. -/
def Natural {c d : E.Context} (n : E.Conversion c d) : Prop :=
  ∀ {α β : Type} (f : α → β) (x : E.Deferred c α), E.convert n (E.map f x) = E.map f (E.convert n x)

end Effects

/-- What runs the computations of every context; a mapped one gives the transformed result. -/
structure Runner (E : Effects) where
  run : {c : E.Context} → {α : Type} → E.Deferred c α → α
  run_map : ∀ {c : E.Context} {α β : Type} (f : α → β) (x : E.Deferred c α),
    run (E.map f x) = f (run x)

/-- Runs a resolution: a value at hand is there, a computation is run. -/
def Runner.resolved {E : Effects} (R : Runner E) {c : E.Context} {α : Type} :
    Resolution E c α → α
  | .pure a => a
  | .deferred x => R.run x

theorem Runner.resolved_map {E : Effects} (R : Runner E) {c : E.Context} {α β : Type} (f : α → β)
    (r : Resolution E c α) : R.resolved (r.map f) = f (R.resolved r) := by
  cases r with
  | pure a => rfl
  | deferred x => exact R.run_map f x

/-- The conversion preserves what a computation gives. -/
def Runner.Preserves {E : Effects} (R : Runner E) {c d : E.Context} (n : E.Conversion c d) : Prop :=
  ∀ {α : Type} (x : E.Deferred c α), R.run (E.convert n x) = R.run x

/-! ## Chains -/

namespace Chain
variable {E : Effects} {a b c : E.Context} {α β : Type}

/-- Every conversion of the chain has the property. -/
def All (P : {a b : E.Context} → E.Conversion a b → Prop) {a : E.Context} :
    {b : E.Context} → Chain E a b → Prop
  | _, .nil => True
  | _, .snoc chain n => chain.All P ∧ P n

/-- One chain after the other. -/
def append (first : Chain E a b) : {c : E.Context} → Chain E b c → Chain E a c
  | _, .nil => first
  | _, .snoc chain n => .snoc (append first chain) n

/-- A computation converted by each link once, first link first. -/
def convert (chain : Chain E a b) (x : E.Deferred a α) : E.Deferred b α :=
  chain.carry (F := fun c => E.Deferred c α) (fun n y => E.convert n y) x

theorem all_append {P : {a b : E.Context} → E.Conversion a b → Prop} {first : Chain E a b}
    (hf : first.All P) {second : Chain E b c} (hs : second.All P) : (first.append second).All P := by
  induction second with
  | nil => exact hf
  | snoc second n ih => exact ⟨ih hs.1, hs.2⟩

theorem all_of_forall {P : {a b : E.Context} → E.Conversion a b → Prop}
    (h : ∀ {a b : E.Context} (n : E.Conversion a b), P n) (chain : Chain E a b) : chain.All P := by
  induction chain with
  | nil => trivial
  | snoc chain n ih => exact ⟨ih, h n⟩

theorem convert_append (first : Chain E a b) (second : Chain E b c) (x : E.Deferred a α) :
    (first.append second).convert x = second.convert (first.convert x) := by
  induction second with
  | nil => rfl
  | snoc second n ih => exact congrArg (E.convert n) ih

/-- A chain of natural conversions is natural. -/
theorem convert_map {chain : Chain E a b} (h : chain.All E.Natural) (f : α → β)
    (x : E.Deferred a α) : chain.convert (E.map f x) = E.map f (chain.convert x) := by
  induction chain with
  | nil => rfl
  | snoc chain n ih =>
    have hrest : chain.convert (E.map f x) = E.map f (chain.convert x) := ih h.1
    calc E.convert n (chain.convert (E.map f x))
        = E.convert n (E.map f (chain.convert x)) := by rw [hrest]
      _ = E.map f (E.convert n (chain.convert x)) := h.2 f _

end Chain

/-! ## Resolutions -/

namespace Resolution
variable {E : Effects} {c d : E.Context} {α β γ : Type}

/-- The resolution after a chain of conversions: a value at hand stays as it is, a computation is
converted by each link once, first link first. -/
def along (chain : Chain E c d) : Resolution E c α → Resolution E d α
  | .pure a => .pure a
  | .deferred x => .deferred (chain.convert x)

theorem map_map (hE : E.MapsCompose) (f : α → β) (g : β → γ) (r : Resolution E c α) :
    (r.map f).map g = r.map (g ∘ f) := by
  cases r with
  | pure a => rfl
  | deferred x => exact congrArg Resolution.deferred (hE f g x)

theorem map_convert {n : E.Conversion c d} (hn : E.Natural n) (f : α → β) (r : Resolution E c α) :
    (r.convert n).map f = (r.map f).convert n := by
  cases r with
  | pure a => rfl
  | deferred x => exact congrArg Resolution.deferred (hn f x).symm

theorem map_along {chain : Chain E c d} (h : chain.All E.Natural) (f : α → β)
    (r : Resolution E c α) : (r.along chain).map f = (r.map f).along chain := by
  cases r with
  | pure a => rfl
  | deferred x => exact congrArg Resolution.deferred (Chain.convert_map h f x).symm

theorem along_nil (r : Resolution E c α) : r.along .nil = r := by
  cases r <;> rfl

theorem along_snoc {e : E.Context} (chain : Chain E c d) (n : E.Conversion d e)
    (r : Resolution E c α) : r.along (chain.snoc n) = (r.along chain).convert n := by
  cases r <;> rfl

/-- One more conversion in front of a chain. -/
theorem along_convert {e : E.Context} (n : E.Conversion c d) (chain : Chain E d e)
    (r : Resolution E c α) :
    (r.convert n).along chain = r.along ((Chain.nil.snoc n).append chain) := by
  cases r with
  | pure a => rfl
  | deferred x => exact congrArg Resolution.deferred (Chain.convert_append (Chain.nil.snoc n) chain x).symm

end Resolution

/-! ## Fields and bound values -/

section Binding
variable {S : Signature} {c d : S.Context} {D : Definitions S}

/-- Binding what a converted field gives to the converted output is converting what the field gives
and the bound value in it. -/
theorem convertResolution_bind (hE : S.MapsCompose) {n : S.Conversion c d} (hn : S.Natural n)
    (t : OutputType S c) (r : S.Resolves c S.Value) :
    (r.convert n).map (OutputType.converted n t).bind = S.convertResolution n (r.map t.bind) := by
  have hbind : (OutputType.converted n t).bind = Bound.convert n ∘ t.bind := rfl
  calc (r.convert n).map (OutputType.converted n t).bind
      = (r.map (Bound.convert n ∘ t.bind)).convert n := by rw [hbind, Resolution.map_convert hn]
    _ = ((r.map t.bind).map (Bound.convert n)).convert n := by rw [Resolution.map_map hE]

/-- A field in another context gives the converted resolutions of the field, and the same errors. -/
theorem Field.resolve_convert (n : S.Conversion c d) (f : Field S c) (name : String)
    (parent : S.Value) (args : List (Option Payload)) :
    (f.convert n).resolve D name parent args =
      Resolution.convert n <$> f.resolve D name parent args := by
  cases f with
  | simple output resolve =>
    simp only [Field.convert, Field.resolve]
    split <;> rfl
  | withArguments slots output resolve =>
    simp only [Field.convert, Field.resolve, map_bind]
    rfl

end Binding
end QueryTypes
