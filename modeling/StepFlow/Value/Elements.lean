import StepFlow.Fault

/-!
Going through a value: the items of a list or a set, the names of a mapping, the codes of a text,
the numbers of bytes.
Other values have no elements and going through them is a fault.
-/
namespace StepFlow.Value

def elements : Value → Except Fault (List Value)
  | .list items => .ok items
  | .set members => .ok members
  | .map fields => .ok (fields.map fun entry => .text entry.1)
  | .keyed entries => .ok (entries.map Prod.fst)
  | .text s => .ok ((Text.codes s).map fun code => .text (Text.ofCodes [code]))
  | .bytes content => .ok (content.map fun b => .int b.toNat)
  | v => .error (.notIterable v.kind)

/-- The elements of a setting; one that counts as left out has none. -/
def settingElements (v : Value) : Except Fault (List Value) :=
  if v.isVoid then .ok [] else v.elements

/-- The fields of a mapping that settings are read from. -/
def settingFields (v : Value) : Except Fault (Table Value) :=
  match v.fields? with
  | some fields => .ok fields
  | none => .error (.missingAttribute v.kind "get")

/-- A value as a member of a set, a fault when it cannot be one. -/
def hashed (v : Value) : Except Fault Value :=
  if v.isHashable then .ok v else .error (.unhashable v.kind)

end StepFlow.Value
