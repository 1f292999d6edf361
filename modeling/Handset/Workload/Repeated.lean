import Handset.Step
import Handset.Value

/-!
# Repeated work

A workload is set up once and then run any number of times. Each run starts from the state that the
run before it left, and answers a summary of what it did.
-/
namespace Handset

structure Workload (σ : Type) where
  start : Except Fault σ
  run : Step σ Value

namespace Workload

variable {σ : Type}

/-- The summaries of so many runs from a state on. A run that fails has no summary, and the next one
goes on with what it left. -/
def summariesFrom (run : Step σ Value) : (times : Nat) → σ → List (Except Fault Value)
  | 0, _ => []
  | times + 1, s =>
    let (summary, next) := run.on s
    summary :: summariesFrom run times next

def summaries (w : Workload σ) (times : Nat) : Except Fault (List (Except Fault Value)) :=
  w.start.map (summariesFrom w.run times)

@[simp] theorem length_summariesFrom (run : Step σ Value) (times : Nat) (s : σ) :
    (summariesFrom run times s).length = times := by
  induction times generalizing s with
  | zero => rfl
  | succ times ih => simp [summariesFrom, ih]

/-- Work that starts from nothing in every run. -/
def afresh (outcome : Except Fault Value) : Workload Unit :=
  { start := .ok (), run := Step.lift outcome }

end Workload

end Handset
