import StepFlow.Schema.Integer
import StepFlow.Value.Display

/-!
Readers of single fields. Lists, sets and mappings are taken as they are, a set as the list of its
members; integers and booleans are also read from booleans, doubles and texts that stand for one.
Wherever a text is wanted, bytes that encode one are as good, also for a name in a mapping.
-/
namespace StepFlow.Schema

abbrev Reader (α : Type) := Value → Checked α

variable {α : Type}

def anything : Reader Value := fun v => .ok v

def text : Reader String
  | .text s => .ok s
  | .bytes content => (Text.ofBytes? content).elim (.fail .unsoundText) .ok
  | _ => .fail .textExpected

/-- A text of characters alone, as numbers and truth values are spelled with. The flaw is that of
bytes which encode no text. -/
def spelling? (flaw : Flaw) : Value → Option (Checked String)
  | .text s => some (if Text.isSound s then .ok s else .fail .unsoundText)
  | .bytes content => some ((Text.ofBytes? content).elim (.fail flaw) .ok)
  | _ => none

def someText : Reader String := fun v => do
  let s ← (spelling? .unsoundText v).getD (.fail .textExpected)
  if s.isEmpty then .fail .textTooShort else return s

def optional (reader : Reader α) : Reader (Option α)
  | .null => .ok none
  | v => (reader v).map some

def list (reader : Reader α) : Reader (List α)
  | .list items | .set items =>
    Checked.all (items.mapIdx fun position v => (reader v).within (.index position))
  | _ => .fail .listExpected

/-- The place of an entry under a name of any kind. What is neither a text nor an integer is shown
in its place. -/
def namePlace : Value → Place
  | .text s => .name (Text.replaceSurrogates s)
  | .bool b => .index (if b then 1 else 0)
  | .int n => if fitsWord n then .index n else .name (toString n)
  | k => .name (String.ofList k.inspected)

/-- The name of an entry. -/
def entryName (k : Value) : Checked String := (text k).within (.name "[key]")

/-- An entry of a mapping. Problems of its name come before those of its value. -/
def entry (reader : Reader α) (k v : Value) : Checked (String × α) :=
  ((Checked.and (.ok Prod.mk) (entryName k)).and (reader v)).within (namePlace k)

/-- A mapping by the texts of its names. Of entries whose names are one text the last counts. -/
def mapping (reader : Reader α) : Reader (Table α)
  | .map entries => Checked.all (entries.map fun (name, v) => entry reader (.text name) v)
  | .keyed entries => (Checked.all (entries.map fun (k, v) => entry reader k v)).map Table.ofList
  | _ => .fail .mappingExpected

/-- One of a few texts. -/
def choice (options : List String) : Reader String
  | .text s =>
    if options.contains s then .ok s
    else if Text.isSound s then .fail .otherChoice
    else .fail .unsoundText
  | _ => .fail .otherChoice

def integer : Reader Int
  | .bool b => .ok (if b then 1 else 0)
  | .int n => .ok n
  | .real x => integerDouble x
  | .nan _ => .fail .finiteExpected
  | v => do integerText (← (spelling? .integerText v).getD (.fail .integerExpected))

def integerFrom (minimum : Int) : Reader Int := fun v =>
  match integer v with
  | .ok n => if minimum ≤ n then .ok n else .fail .belowMinimum
  | .error problems => .error problems

def trueWords : List String := ["1", "t", "y", "true", "yes", "on"]

def falseWords : List String := ["0", "f", "n", "false", "no", "off"]

/-- The boolean that an integer stands for. Those beyond 64 bits do not count as integers. -/
def booleanInteger (n : Int) : Checked Bool :=
  if n = 0 then .ok false
  else if n = 1 then .ok true
  else if fitsWord n then .fail .booleanText
  else .fail .booleanExpected

/-- The boolean that a word stands for in any letter case. -/
def booleanText (s : String) : Checked Bool :=
  let word := s.toLower
  if trueWords.contains word then .ok true
  else if falseWords.contains word then .ok false
  else .fail .booleanText

def boolean : Reader Bool
  | .bool b => .ok b
  | .int n => booleanInteger n
  | .real x =>
    match integerDouble x with
    | .ok n => booleanInteger n
    | .error _ => .fail .booleanExpected
  | v => do booleanText (← (spelling? .booleanText v).getD (.fail .booleanExpected))

/-- The two names of a field: the one in stored documents, and the one in settings and dumps. -/
structure FieldName where
  stored : String
  plain : String

/-- A field of one name. -/
def sole (name : String) : FieldName := ⟨name, name⟩

/-- Which of its names a field is written under. -/
inductive Naming where
  | stored
  | plain
  deriving DecidableEq, Repr

def FieldName.under (name : FieldName) : Naming → String
  | .stored => name.stored
  | .plain => name.plain

/-- The value given for a field and the name it is given under. The stored name counts where both
are given. -/
def given? (fields : Table Value) (name : FieldName) : Option (String × Value) :=
  match fields.get? name.stored with
  | some v => some (name.stored, v)
  | none => (fields.get? name.plain).map fun v => (name.plain, v)

/-- A field that has to be there. Problems name it as it is given, or else as it is stored. -/
def required (reader : Reader α) (name : FieldName) (fields : Table Value) : Checked α :=
  match given? fields name with
  | some (given, v) => (reader v).within (.name given)
  | none => (Checked.fail .missing).within (.name name.stored)

/-- A field that may be left out. -/
def defaulted (reader : Reader α) (name : FieldName) (fallback : α) (fields : Table Value) :
    Checked α :=
  match given? fields name with
  | some (given, v) => (reader v).within (.name given)
  | none => .ok fallback

/-- Reads the fields of a mapping. -/
def model (reader : Table Value → Checked α) : Reader α := fun v =>
  match v.fields? with
  | some fields => reader fields
  | none => .fail .modelExpected

/-- Whether the texts among the names in a mapping are of characters alone. -/
def hasSoundNames (v : Value) : Bool :=
  (v.fields?.getD []).all fun entry => Text.isSound entry.1

/-- What a mapping holds beside the fields that are known. The names have to be texts or bytes that
encode one; an encoded name that a known field is also given under in plain text does not count. -/
def leftover (known : List String) : Reader (Table Value)
  | .map fields => .ok (fields.filter fun entry => !known.contains entry.1)
  | .keyed entries =>
    let given := known.filter (Value.textEntries entries).contains
    (Checked.all (entries.map fun (k, v) =>
      match text k with
      | .ok name => .ok (if given.contains name then none else some (name, v))
      | .error _ => (Checked.fail .nameExpected).within (namePlace k))).map fun kept =>
        Table.ofList (kept.filterMap id)
  | _ => .ok []

end StepFlow.Schema
