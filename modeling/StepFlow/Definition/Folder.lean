import StepFlow.Definition.Shelf
import StepFlow.Json.Reader
import StepFlow.Text.Lower
import StepFlow.Text.Undecoded
import StepFlow.Value.Endless

/-!
Folders of definitions: one file for each, a JSON or YAML document by its suffix. The name of a
definition is that of its file without the suffix unless the document gives another. Files are
taken in the order of their names, and other files do not count. What reads YAML is a parameter.
-/
namespace StepFlow

open Schema

/-- Why the bytes of a YAML document are not read: it is malformed, or the reader raises an error of
another kind. -/
inductive YamlFailure where
  | malformed
  | raised (category message : String)
  deriving DecidableEq, Repr

/-- What reads the bytes of a YAML document. -/
abbrev YamlReader := ByteArray → Except YamlFailure Value

structure File where
  name : String
  bytes : ByteArray

namespace File

/-- A name cut before its last point. A point at the very beginning or end cuts nothing off. -/
def splitName (name : String) : String × String :=
  let cs := name.toList
  let suffix := (cs.reverse.takeWhile (· ≠ '.')).length
  let stem := cs.length - suffix - 1
  if suffix = 0 || stem = 0 || suffix = cs.length then (name, "")
  else (String.ofList (cs.take stem), String.ofList (cs.drop stem))

def stem (f : File) : String := (splitName f.name).1

/-- The suffix in lower case. -/
def suffix (f : File) : String := Text.lower (splitName f.name).2

def suffixes : List String := [".json", ".yaml", ".yml"]

def isDefinition (f : File) : Bool := suffixes.contains f.suffix

end File

/-- Why a file gives no definition. -/
inductive FileRefusal where
  /-- The bytes are no text. -/
  | notText (bytes : Text.Bytes)
  | notDocument (file : String)
  | notMapping (file : String)
  | notDefinition (file : String) (problems : List Problem)
  /-- An error of another kind that reading a YAML document raises. -/
  | raised (category message : String)
  /-- An integer of too many digits. -/
  | numeral (digits : Nat)
  /-- The definition holds a value that goes on without an end, so that it cannot be written. -/
  | endless
  deriving DecidableEq, Repr

namespace FileRefusal

def category : FileRefusal → String
  | notText _ => "UnicodeDecodeError"
  | notDocument _ | notMapping _ | notDefinition .. => "FlowLoaderError"
  | raised category _ => category
  | numeral _ => "ValueError"
  | endless => "RecursionError"

def message : FileRefusal → String
  | notText bytes => Text.undecodedMessage bytes
  | notDocument file => file
  | notMapping file => file ++ ": expected a mapping at the top level"
  | notDefinition file _ => file ++ ": invalid flow definition"
  | raised _ message => message
  | numeral digits => Number.tooManyDigits digits
  | endless => "maximum recursion depth exceeded"

end FileRefusal

namespace File

/-- The document in a JSON file. -/
def jsonDocument (f : File) : Except FileRefusal Value :=
  match (String.fromUTF8? f.bytes).map Text.ofCharacters with
  | none => .error (.notText f.bytes.data.toList)
  | some text =>
    match Json.parse text with
    | .ok v => .ok v
    | .error .malformed => .error (.notDocument f.name)
    | .error (.numeralTooLong digits) => .error (.numeral digits)

/-- The document in a file. -/
def document (yaml : YamlReader) (f : File) : Except FileRefusal Value :=
  if f.suffix = ".json" then f.jsonDocument
  else
    match yaml f.bytes with
    | .ok v => .ok v
    | .error .malformed => .error (.notDocument f.name)
    | .error (.raised category message) => .error (.raised category message)

/-- The fields of a document with a name, which is the file's own if none is given. -/
def named (f : File) (fields : Table Value) : Table Value :=
  if fields.contains "name" then fields else fields.put "name" (.text f.stem)

/-- The definition that some fields make up. -/
def definition (f : File) (fields : Table Value) : Except FileRefusal Definition :=
  (Definition.read (.map (f.named fields))).mapError (.notDefinition f.name)

/-- The definition in a file. -/
def load (yaml : YamlReader) (f : File) : Except FileRefusal Definition :=
  match f.document yaml with
  | .error refusal => .error refusal
  | .ok v =>
    match v.fields? with
    | some fields => f.definition fields
    | none => .error (.notMapping f.name)

end File

/-- A definition that is going to be written again. It has to come to an end. -/
def Definition.writable (d : Definition) : Except FileRefusal Definition :=
  if (d.dump .stored).isEndless then .error .endless else .ok d

/-- The files of a folder in any order. -/
structure Folder where
  files : List File

namespace Folder

/-- The files with definitions in the order of their names. -/
def definitionFiles (d : Folder) : List File :=
  (d.files.filter File.isDefinition).mergeSort fun f g => !Text.precedes g.name f.name

/-- The names of the definitions, each once. -/
def names (d : Folder) : List String :=
  sortedNames (d.definitionFiles.map File.stem).eraseDups

/-- The file of a name: the first with it counts. -/
def file? (d : Folder) (name : String) : Option File :=
  d.definitionFiles.find? fun f => f.stem = name

/-- The definition of a name. -/
def load? (yaml : YamlReader) (d : Folder) (name : String) : Except FileRefusal (Option Definition) :=
  match d.file? name with
  | none => .ok none
  | some f => (f.load yaml).map some

/-- All definitions, or the first refusal. -/
def loadAll (yaml : YamlReader) (d : Folder) : Except FileRefusal (List Definition) :=
  d.definitionFiles.mapM (File.load yaml)

/-- The definition of a name, to be written again. -/
def get? (yaml : YamlReader) (d : Folder) (name : String) :
    Except FileRefusal (Option Definition) := do
  match ← d.load? yaml name with
  | none => return none
  | some definition => definition.writable.map some

/-- All definitions, to be written again. -/
def all (yaml : YamlReader) (d : Folder) : Except FileRefusal (List Definition) := do
  (← d.loadAll yaml).mapM Definition.writable

end Folder

end StepFlow
