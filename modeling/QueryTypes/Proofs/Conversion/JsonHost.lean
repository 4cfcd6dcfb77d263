import QueryTypes.JsonHost.Basic
import QueryTypes.Proofs.Conversion.Laws

/-!
# The laws of the JSON host

Thunks, futures and logs keep the laws of contexts, and every conversion between them is natural.
Running forgets the lines of a log, so each conversion preserves what a computation gives.
-/

namespace QueryTypes.JsonHost

variable {inputs outputs : Nat}

theorem mapsCompose : (host inputs outputs).MapsCompose := by
  intro c α β γ f g x
  cases c <;> rfl

theorem natural {c d : Context} (n : Conversion c d) : (host inputs outputs).Natural n := by
  intro α β f x
  cases n <;> rfl

/-- Runs thunks and futures, and takes the value of a log. -/
def runner : Runner (host inputs outputs).toEffects where
  run := fun {c} {_} x => (run c x).value
  run_map := by
    intro c α β f x
    cases c <;> rfl

theorem runner_preserves {c d : Context} (n : Conversion c d) :
    (runner : Runner (host inputs outputs).toEffects).Preserves n := by
  intro α x
  cases n <;> rfl

end QueryTypes.JsonHost
