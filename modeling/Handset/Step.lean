import Handset.Fault
import Handset.Log

/-!
# Steps

A step works on a state and may fail; what it changed before a failure stays. Parts of the handset
that keep a log share the ways to write to it.
-/
namespace Handset

/-- A step on a state of type `σ`. -/
abbrev Step (σ : Type) := ExceptT Fault (StateM σ)

class Journal (σ : Type) where
  log : σ → Log
  setLog : σ → Log → σ

namespace Step

variable {σ τ α : Type}

/-- What a step answers on a state, and the state after it. -/
def on (step : Step σ α) (s : σ) : Except Fault α × σ :=
  StateT.run (ExceptT.run step) s

def lift (outcome : Except Fault α) : Step σ α :=
  match outcome with
  | .ok a => pure a
  | .error fault => throw fault

def report [Journal σ] (level : Level) (text : String) : Step σ Unit :=
  modify fun s => Journal.setLog s ((Journal.log s).add level text)

/-- Runs a step; a failure is logged with its reason and answered with `otherwise`. -/
def attempt [Journal σ] (label : String) (otherwise : α) (step : Step σ α) : Step σ α :=
  tryCatch step fun fault => do
    let reason := fault.message
    report .error s!"{label}: {reason}"
    pure otherwise

/-- Runs a step on a part of the state, which writes to the log of the whole. -/
def within [Journal σ] [Journal τ] (part : σ → τ) (setPart : σ → τ → σ) (step : Step τ α) :
    Step σ α := do
  let s ← get
  let (outcome, t) := step.on (Journal.setLog (part s) (Journal.log s))
  set (Journal.setLog (setPart s t) (Journal.log t))
  lift outcome

end Step

end Handset
