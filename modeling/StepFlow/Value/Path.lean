import StepFlow.Value.Attribute

/-!
Reading into values by names. A missing name reads as null and ends the path; lists and texts have
a length and nothing else; the attributes of other things are read by name unless it begins with an
underscore, and those of records may fail.
-/
namespace StepFlow.Value

/-- The attribute of a thing, null when it has none of that name. -/
def readAttribute (attributes : Table Value) (failing : Table String) (name : String) :
    Except Fault Value :=
  if name.toList.head? = some '_' then .ok .null
  else match failing.get? name with
    | some why => .error (.raised why)
    | none => .ok (field attributes name)

/-- One name read out of a value. -/
def segment (v : Value) (name : String) : Except Fault Value :=
  match v with
  | .map fields => .ok (field fields name)
  | .keyed entries => .ok (field (textEntries entries) name)
  | .list items => .ok (if name = "length" then .int items.length else .null)
  | .text s => .ok (if name = "length" then .int (Text.length s) else .null)
  | .timestamp t => readAttribute t.attributes [] name
  | .bytes content => readAttribute (bytesAttributes content) [] name
  | .set members => readAttribute (setAttributes members) [] name
  | .record _ _ attributes failing => readAttribute attributes failing name
  | _ => .ok .null

/-- The names of a path read one after the other. -/
def path (v : Value) : List String → Except Fault Value
  | [] => .ok v
  | name :: rest =>
    match v with
    | .null => .ok .null
    | v => do (← v.segment name).path rest

end StepFlow.Value
