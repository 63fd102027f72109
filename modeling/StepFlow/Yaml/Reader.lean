import StepFlow.Definition.Folder
import StepFlow.Yaml.Document

/-! Reading the files of a folder as YAML: their bytes are decoded as a whole before the document is
read. -/
namespace StepFlow.Yaml

/-- A failure as what reads the files of a folder tells it. -/
def Failure.told : Failure → YamlFailure
  | .malformed => .malformed
  | failure => .raised failure.category failure.message

/-- Reads the bytes of a document. -/
def reader : YamlReader := fun bytes =>
  match (String.fromUTF8? bytes).map Text.ofCharacters with
  | none => .error (.raised "UnicodeDecodeError" (Text.undecodedMessage bytes.data.toList))
  | some text => (parse text).mapError Failure.told

end StepFlow.Yaml
