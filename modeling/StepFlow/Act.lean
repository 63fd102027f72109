import StepFlow.Fault

/-!
Acts: what a step does to the world outside. The world is a state of any type, so an act is a
function from the state to an answer and the state after it. An act that does not answer has
failed, with a fault, or was cancelled; the state it leaves behind stays.
-/
namespace StepFlow

/-- Why an act gives no answer. -/
inductive Halt where
  | fault (f : Fault)
  | cancelled
  deriving DecidableEq, Repr

abbrev Act (σ α : Type) := ExceptT Halt (StateM σ) α

namespace Act

variable {σ α : Type}

/-- The answer of an act, or why there is none, and the state after it. -/
def perform (act : Act σ α) (s : σ) : Except Halt α × σ := act.run s

/-- A pure computation as an act that leaves the world alone. -/
def ofExcept (r : Except Fault α) : Act σ α := fun s =>
  (match r with
    | .ok a => .ok a
    | .error f => .error (.fault f), s)

def fail (f : Fault) : Act σ α := ofExcept (.error f)

/-- An act that also answers when it fails; nothing answers for one that is cancelled. -/
def attempt (act : Act σ α) : Act σ (Except Fault α) := fun s =>
  match act.perform s with
  | (.ok a, s) => (.ok (.ok a), s)
  | (.error (.fault f), s) => (.ok (.error f), s)
  | (.error .cancelled, s) => (.error .cancelled, s)

/-- An act that cannot fail. -/
def ofState (act : StateM σ α) : Act σ α := fun s =>
  let (a, s) := act.run s
  (.ok a, s)

end Act

end StepFlow
