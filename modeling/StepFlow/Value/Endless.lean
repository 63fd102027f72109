import StepFlow.Value

/-!
Values that hold themselves, as only documents with aliases can spell them out. The place where
such a value comes again is held as a record that shows dots. What has such a place cannot be
written to its end.
-/
namespace StepFlow.Value

/-- Where a value goes on inside of itself. -/
def endless : Value := .record .document "..." [] []

mutual

/-- Whether a value goes on without an end. -/
def isEndless : Value → Bool
  | .record mark .. => mark = .document
  | .list items => anyEndless items
  | .map fields => anyFieldEndless fields
  | .keyed entries => anyEntryEndless entries
  | _ => false

def anyEndless : List Value → Bool
  | [] => false
  | v :: rest => isEndless v || anyEndless rest

def anyFieldEndless : List (String × Value) → Bool
  | [] => false
  | (_, v) :: rest => isEndless v || anyFieldEndless rest

def anyEntryEndless : List (Value × Value) → Bool
  | [] => false
  | (_, v) :: rest => isEndless v || anyEntryEndless rest

end

end StepFlow.Value
