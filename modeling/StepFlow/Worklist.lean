import StepFlow.Value.Display

/-!
Worklists: items in the order they were added, taken from the front by any number of readers. All
readers share one cursor. A reader that once found nothing to take is spent and takes nothing more,
even when items are added later.
-/
namespace StepFlow

structure Worklist (α : Type) where
  taken : List α
  pending : List α

namespace Worklist

variable {α : Type}

def ofList (items : List α) : Worklist α := ⟨[], items⟩

/-- Everything ever added, in order. -/
def items (w : Worklist α) : List α := w.taken ++ w.pending

def size (w : Worklist α) : Nat := w.items.length

def extend (w : Worklist α) (more : List α) : Worklist α := { w with pending := w.pending ++ more }

def enqueue (w : Worklist α) (a : α) : Worklist α := w.extend [a]

/-- A reader is spent once it has found nothing to take. -/
structure Reader where
  spent : Bool

def newReader : Reader := ⟨false⟩

/-- The next item for a reader. -/
def take (w : Worklist α) (r : Reader) : Option α × Worklist α × Reader :=
  if r.spent then (none, w, r)
  else match w.pending with
    | [] => (none, w, ⟨true⟩)
    | a :: rest => (some a, ⟨w.taken ++ [a], rest⟩, r)

/-- All pending items at once. -/
def drain (w : Worklist α) : List α × Worklist α := (w.pending, ⟨w.items, []⟩)

@[simp] theorem items_extend (w : Worklist α) (more : List α) :
    (w.extend more).items = w.items ++ more := by simp [items, extend]

/-- Taking an item neither loses nor adds one. -/
theorem items_take (w : Worklist α) (r : Reader) : (w.take r).2.1.items = w.items := by
  unfold take
  split
  · rfl
  · split
    · rfl
    · rename_i h
      simp [items, h]

def describe (w : Worklist Value) : Except Fault String := do
  return "<ExecutionQueue pending=" ++ (← (Value.list w.pending).inspect) ++ ">"

end Worklist

end StepFlow
