import QueryTypes.Proofs.Conversion.JsonHost

/-!
# Mappings and conversions in turn

On its way to a client a resolution is mapped and converted, in whatever order the layers around it
do so. `Steps` is such a sequence. A value at hand meets the mapped functions only
(`Steps.run_pure`). A computation may as well be converted by all conversions first and mapped
afterwards (`Steps.run_deferred`), since each conversion may go before a mapping.
-/

namespace QueryTypes

/-! ## Laws -/

namespace Effects
variable (E : Effects)

/-- Not transforming the result of a computation leaves the computation as it is. -/
def MapsIdentity : Prop :=
  ∀ {c : E.Context} {α : Type} (x : E.Deferred c α), E.map id x = x

end Effects

/-- A value at hand is what running it gives. -/
def Runner.RunsPure {E : Effects} (R : Runner E) : Prop :=
  ∀ {c : E.Context} {α : Type} (a : α), R.run (E.pure a : E.Deferred c α) = a

theorem Runner.run_intoDeferred {E : Effects} {R : Runner E} (hR : R.RunsPure) {c : E.Context}
    {α : Type} (r : Resolution E c α) : R.run r.intoDeferred = R.resolved r := by
  cases r with
  | pure a => exact hR a
  | deferred x => rfl

theorem Runner.resolved_of_preserves {E : Effects} {R : Runner E} {c d : E.Context}
    {n : E.Conversion c d} (hn : R.Preserves n) {α : Type} (r : Resolution E c α) :
    R.resolved (r.convert n) = R.resolved r := by
  cases r with
  | pure a => rfl
  | deferred x => exact hn x

/-- What computations do besides giving a result, as far as it can be observed. It does not depend
on the result. -/
structure Observer (E : Effects) where
  Effect : E.Context → Type
  effect : {c : E.Context} → {α : Type} → E.Deferred c α → Effect c
  /-- What happens where there is a value at hand. -/
  ofPure : (c : E.Context) → Effect c
  effect_pure : ∀ {c : E.Context} {α : Type} (a : α), effect (E.pure a) = ofPure c
  effect_map : ∀ {c : E.Context} {α β : Type} (f : α → β) (x : E.Deferred c α),
    effect (E.map f x) = effect x

/-! ## Steps -/

/-- Mappings and conversions one after the other, each taking what the one before it gives. -/
inductive Steps (E : Effects) (c : E.Context) (α : Type) : E.Context → Type → Type 1 where
  | nil : Steps E c α c α
  | map {d : E.Context} {β γ : Type} : Steps E c α d β → (β → γ) → Steps E c α d γ
  | convert {d e : E.Context} {β : Type} : Steps E c α d β → E.Conversion d e → Steps E c α e β

namespace Steps
variable {E : Effects} {c d e : E.Context} {α β γ : Type}

/-- The resolution after the steps. -/
def run : {d : E.Context} → {β : Type} → Steps E c α d β → Resolution E c α → Resolution E d β
  | _, _, .nil, r => r
  | _, _, .map steps f, r => (steps.run r).map f
  | _, _, .convert steps n, r => (steps.run r).convert n

/-- All mapped functions, first one first. -/
def function : {d : E.Context} → {β : Type} → Steps E c α d β → α → β
  | _, _, .nil, a => a
  | _, _, .map steps f, a => f (steps.function a)
  | _, _, .convert steps _, a => steps.function a

/-- The conversions, first one first. -/
def conversions : {d : E.Context} → {β : Type} → Steps E c α d β → Chain E c d
  | _, _, .nil => .nil
  | _, _, .map steps _ => steps.conversions
  | _, _, .convert steps n => steps.conversions.snoc n

/-- A computation of any context after the mappings alone, first one first. -/
def mapEach : {d : E.Context} → {β : Type} → Steps E c α d β → E.Deferred e α → E.Deferred e β
  | _, _, .nil, x => x
  | _, _, .map steps f, x => E.map f (steps.mapEach x)
  | _, _, .convert steps _, x => steps.mapEach x

/-- The steps, and then more. -/
def append (first : Steps E c α d β) :
    {e : E.Context} → {γ : Type} → Steps E d β e γ → Steps E c α e γ
  | _, _, .nil => first
  | _, _, .map steps f => .map (append first steps) f
  | _, _, .convert steps n => .convert (append first steps) n

theorem run_append (first : Steps E c α d β) (second : Steps E d β e γ) (r : Resolution E c α) :
    (first.append second).run r = second.run (first.run r) := by
  induction second with
  | nil => rfl
  | map steps f ih => exact congrArg (Resolution.map f) ih
  | convert steps n ih => exact congrArg (Resolution.convert n) ih

/-! ## What one step keeps, and what all keep -/

theorem isPure_run (steps : Steps E c α d β) (r : Resolution E c α) :
    (steps.run r).isPure = r.isPure := by
  induction steps with
  | nil => rfl
  | map steps f ih => rw [run, Resolution.isPure_map, ih]
  | convert steps n ih => rw [run, Resolution.isPure_convert, ih]

theorem run_pure (steps : Steps E c α d β) (a : α) :
    steps.run (.pure a) = .pure (steps.function a) := by
  induction steps with
  | nil => rfl
  | map steps f ih => rw [run, ih]; rfl
  | convert steps n ih => rw [run, ih]; rfl

/-- A conversion may go before all the mappings. -/
theorem convert_mapEach {n : E.Conversion d e} (hn : E.Natural n) {b : E.Context}
    (steps : Steps E c α b β) (x : E.Deferred d α) :
    E.convert n (steps.mapEach x) = steps.mapEach (E.convert n x) := by
  induction steps with
  | nil => rfl
  | map steps f ih =>
    calc E.convert n (E.map f (steps.mapEach x))
        = E.map f (E.convert n (steps.mapEach x)) := hn f _
      _ = E.map f (steps.mapEach (E.convert n x)) := by rw [ih]
  | convert steps _ ih => exact ih

/-- A computation is converted by all conversions, and then mapped. -/
theorem run_deferred {steps : Steps E c α d β} (h : steps.conversions.All E.Natural)
    (x : E.Deferred c α) :
    steps.run (.deferred x) = .deferred (steps.mapEach (steps.conversions.convert x)) := by
  induction steps with
  | nil => rfl
  | map steps f ih => rw [run, ih h]; rfl
  | convert steps n ih =>
    rw [run, ih h.1]
    exact congrArg Resolution.deferred (convert_mapEach h.2 steps _)

theorem mapEach_eq_map (hE : E.MapsCompose) (hid : E.MapsIdentity) (steps : Steps E c α d β)
    (x : E.Deferred e α) : steps.mapEach x = E.map steps.function x := by
  induction steps with
  | nil => exact (hid x).symm
  | map steps f ih =>
    calc E.map f (steps.mapEach x)
        = E.map f (E.map steps.function x) := by rw [ih]
      _ = E.map (f ∘ steps.function) x := hE _ f x
  | convert steps n ih => exact ih

theorem effect_mapEach (O : Observer E) (steps : Steps E c α d β) (x : E.Deferred e α) :
    O.effect (steps.mapEach x) = O.effect x := by
  induction steps with
  | nil => rfl
  | map steps f ih => exact (O.effect_map f _).trans ih
  | convert steps n ih => exact ih

theorem resolved_run {R : Runner E} {steps : Steps E c α d β}
    (h : steps.conversions.All R.Preserves) (r : Resolution E c α) :
    R.resolved (steps.run r) = steps.function (R.resolved r) := by
  induction steps with
  | nil => rfl
  | map steps f ih => rw [run, R.resolved_map, ih h, function]
  | convert steps n ih =>
    rw [run, Runner.resolved_of_preserves h.2, ih h.1, function]

/-! ## Mappings and conversions apart -/

/-- A run of steps is its mappings and its conversions, apart. It keeps the case of the resolution;
what comes out when it is run is the mapped value, wherever the conversions stand; and a value at
hand is mapped and no more, while a computation is converted by each conversion once and in order and
then mapped, so it does what it does when it is converted alone. A mapping and a conversion next to
each other may be exchanged. The last part alone is about one host, that of JSON values, where a
future that is ready is a function of no argument just as a thunk is, and lifting a thunk leaves it as
it is: the conversions of this host, identity and lifting among them, are natural and preserve what
computations give. -/
theorem run_apart (E : Effects) :
    (∀ {c d : E.Context} {α β : Type} (steps : Steps E c α d β) (r : Resolution E c α),
      (steps.run r).isPure = r.isPure) ∧
    (∀ R : Runner E, R.RunsPure → ∀ {c d : E.Context} {α β : Type} (steps : Steps E c α d β),
      steps.conversions.All R.Preserves → ∀ r : Resolution E c α,
        R.run (steps.run r).intoDeferred = steps.function (R.resolved r)) ∧
    (∀ {c d : E.Context} {α β : Type} (steps : Steps E c α d β) (a : α),
      (steps.run (.pure a)).intoDeferred = E.pure (steps.function a)) ∧
    (∀ {c d : E.Context} {α β : Type} (steps : Steps E c α d β),
      steps.conversions.All E.Natural → ∀ x : E.Deferred c α,
        (steps.run (.deferred x)).intoDeferred = steps.mapEach (steps.conversions.convert x) ∧
        (E.MapsCompose → E.MapsIdentity → (steps.run (.deferred x)).intoDeferred =
          E.map steps.function (steps.conversions.convert x))) ∧
    (∀ (O : Observer E) {c d : E.Context} {α β : Type} (steps : Steps E c α d β),
      (∀ a, O.effect (steps.run (.pure a)).intoDeferred = O.ofPure d) ∧
      (steps.conversions.All E.Natural → ∀ x : E.Deferred c α,
        O.effect (steps.run (.deferred x)).intoDeferred =
          O.effect (steps.conversions.convert x))) ∧
    (∀ {c d e b : E.Context} {α β γ δ : Type} (before : Steps E c α d β) (f : β → γ)
      (n : E.Conversion d e) (after : Steps E e γ b δ), E.Natural n → ∀ r : Resolution E c α,
        (((before.map f).convert n).append after).run r =
          (((before.convert n).map f).append after).run r) ∧
    ∀ {c d : JsonHost.Context} (n : JsonHost.Conversion c d),
      (JsonHost.host 0 0).Natural n ∧
        (JsonHost.runner : Runner (JsonHost.host 0 0).toEffects).Preserves n := by
  refine ⟨isPure_run, fun R hR _ _ _ _ steps h r => ?_, fun steps a => ?_, fun steps h x => ?_,
    fun O _ _ _ _ steps => ⟨fun a => ?_, fun h x => ?_⟩, fun before f n after hn r => ?_,
    fun n => ⟨JsonHost.natural n, JsonHost.runner_preserves n⟩⟩
  · rw [R.run_intoDeferred hR, resolved_run h]
  · rw [run_pure]; rfl
  · rw [run_deferred h]
    exact ⟨rfl, fun hE hid => mapEach_eq_map hE hid steps _⟩
  · rw [run_pure]
    exact O.effect_pure _
  · rw [run_deferred h]
    exact effect_mapEach O steps _
  · have hlast : ((before.map f).convert n).run r = ((before.convert n).map f).run r :=
      (Resolution.map_convert hn f _).symm
    rw [run_append, run_append, hlast]

end Steps

namespace JsonHost

/-- The lines that a computation logs. -/
def observer : Observer (host 0 0).toEffects where
  Effect := fun _ => List String
  effect := fun {c} {_} x => (run c x).lines
  ofPure := fun _ => []
  effect_pure := by
    intro c α a
    cases c <;> rfl
  effect_map := by
    intro c α β f x
    cases c <;> rfl

theorem runner_runsPure : (runner : Runner (host 0 0).toEffects).RunsPure := by
  intro c α a
  cases c <;> rfl

theorem mapsIdentity : (host 0 0).MapsIdentity := by
  intro c α x
  cases c <;> rfl

/-- Doubles a number and starts a log. -/
def doubled : Steps (host 0 0).toEffects Context.thunk Nat Context.log Nat :=
  (Steps.nil.map (2 * ·)).convert Conversion.log

/-- Doubles a number and starts a log, adds one, and goes on with the log. -/
def doubledAndOne : Steps (host 0 0).toEffects Context.thunk Nat Context.log Nat :=
  (doubled.map (· + 1)).convert (Conversion.tag "again")

/-- Twenty is doubled, one is added, and both lines are logged in order; the second line may as well
be logged before one is added. -/
theorem doubledAndOne_twenty :
    runner.run (doubledAndOne.run (.deferred fun _ => 20)).intoDeferred = 41 ∧
      observer.effect (doubledAndOne.run (.deferred fun _ => 20)).intoDeferred =
        ["log", "again"] ∧
      (doubledAndOne.run (.deferred fun _ => 20)).intoDeferred =
        (⟨41, ["log", "again"]⟩ : Logged Nat) ∧
      doubledAndOne.run (.deferred fun _ => 20) =
        ((doubled.convert (Conversion.tag "again")).map (· + 1)).run (.deferred fun _ => 20) := by
  obtain ⟨-, hvalue, -, hcomputation, heffect, hexchange, -⟩ :=
    Steps.run_apart (host 0 0).toEffects
  refine ⟨hvalue runner runner_runsPure doubledAndOne (Chain.all_of_forall runner_preserves _) _,
    (heffect observer doubledAndOne).2 (Chain.all_of_forall natural _) _,
    (hcomputation doubledAndOne (Chain.all_of_forall natural _) _).2 mapsCompose mapsIdentity, ?_⟩
  exact hexchange doubled (· + 1) (Conversion.tag "again") .nil (natural _) (.deferred fun _ => 20)

end JsonHost
end QueryTypes
