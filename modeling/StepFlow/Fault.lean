import StepFlow.Number.Numeral
import StepFlow.Schema.Problem

/-!
Faults: everything that can go wrong inside a step or an operation, by its cause. The wording is
in one place, `Fault.message`; a fault without a text of its own is described by its category.
-/
namespace StepFlow

inductive Fault where
  /-- A value was used as a template, a mapping or a text, and its kind is none of these. -/
  | missingAttribute (kind : Kind) (name : String)
  | notIterable (kind : Kind)
  /-- A list or a mapping was used as the member of a set or the key of a table. -/
  | unhashable (kind : Kind)
  /-- Metadata of a run is fixed once the run has begun. -/
  | readOnly
  /-- The ledger of a run has an entry of this step already. -/
  | alreadyWritten (id : String)
  /-- An integer beyond the range of doubles was needed as a double. -/
  | integerTooLarge
  | notANumber
  | infinite
  /-- Text held an integer of more digits than may be read. -/
  | numeralTooLong (digits : Nat)
  /-- An integer of more digits than may be written was to become text. -/
  | integerTooLong
  | badNumeral (numeral : String)
  | badRole (shown : String)
  | badElement (position : Nat) (kind : Kind)
  /-- The name of an entry was to be written in a document, and its kind is none that names have. -/
  | unfitName (kind : Kind)
  | noProviders
  /-- A model has no field of a name. -/
  | unknownField (model name : String)
  /-- Settings were needed that are not fit. -/
  | unfitSettings (problems : List Schema.Problem)
  /-- A capability, an executor or an attribute of a record failed with a text. -/
  | raised (text : String)
  deriving DecidableEq, Repr

namespace Fault

/-- The category that stands in for an empty message. -/
def category : Fault → String
  | missingAttribute .. => "AttributeError"
  | notIterable _ | unhashable _ | readOnly | badElement .. | unfitName _ => "TypeError"
  | alreadyWritten _ => "ContextWriteError"
  | integerTooLarge | infinite => "OverflowError"
  | notANumber | numeralTooLong _ | integerTooLong | badNumeral _ | badRole _ | noProviders
  | unknownField .. => "ValueError"
  | unfitSettings _ => "ValidationError"
  | raised _ => "RuntimeError"

def message : Fault → String
  | missingAttribute kind name => "'" ++ kind.name ++ "' object has no attribute '" ++ name ++ "'"
  | notIterable kind => "'" ++ kind.name ++ "' object is not iterable"
  | unhashable kind => "unhashable type: '" ++ kind.name ++ "'"
  | readOnly => "'mappingproxy' object does not support item assignment"
  | alreadyWritten id =>
    "[ContextBus] Step \"" ++ id ++ "\" already has an entry. Context is append-only."
  | integerTooLarge => "int too large to convert to float"
  | notANumber => "cannot convert float NaN to integer"
  | infinite => "cannot convert float infinity to integer"
  | numeralTooLong digits => Number.tooManyDigits digits
  | integerTooLong =>
    "Exceeds the limit (" ++ toString Number.digitLimit ++
      " digits) for integer string conversion; use sys.set_int_max_str_digits() to increase the limit"
  | badNumeral numeral => Number.notAnInteger 10 numeral
  | badRole shown => shown ++ " is not a valid MessageRole"
  | badElement position kind =>
    "sequence item " ++ toString position ++ ": expected str instance, " ++ kind.name ++ " found"
  | unfitName kind => "keys must be str, int, float, bool or None, not " ++ kind.name
  | noProviders => "llm_capability needs at least one provider"
  | unknownField model name => "\"" ++ model ++ "\" object has no field \"" ++ name ++ "\""
  | unfitSettings _ => ""
  | raised text => text

/-- The message, or the category when there is none. -/
def description (f : Fault) : String := if f.message.isEmpty then f.category else f.message

/-- The message, or what the place of the failure says when there is none. -/
def messageOr (f : Fault) (fallback : String) : String :=
  if f.message.isEmpty then fallback else f.message

/-- The result of arithmetic, none being a fault of range. -/
def ofRange {α : Type} : Option α → Except Fault α
  | some a => .ok a
  | none => .error integerTooLarge

end Fault

end StepFlow
