import StepFlow.Number.Numeral
import StepFlow.Timestamp

/-!
What can be wrong with a YAML document. Either the document itself is malformed, or a scalar in it
has a text that does not fit its type.
-/
namespace StepFlow.Yaml

/-- The parts of a timestamp that can be out of range. -/
inductive DatePart where
  | year (n : Nat)
  | month
  | day
  | hour
  | minute
  | second
  /-- A distance from universal time of a day or more, in minutes. -/
  | offset (minutes : Int)
  deriving DecidableEq, Repr

inductive Failure where
  | malformed
  | characterRange
  | emptyNumeral
  | badInteger (base : Nat) (text : String)
  | badReal (text : String)
  | integerTooLong (digits : Nat)
  | badTruth (text : String)
  | badDate (part : DatePart)
  | notTimestamp
  deriving DecidableEq, Repr

def DatePart.message : DatePart → String
  | .year n => "year " ++ toString n ++ " is out of range"
  | .month => "month must be in 1..12"
  | .day => "day is out of range for month"
  | .hour => "hour must be in 0..23"
  | .minute => "minute must be in 0..59"
  | .second => "second must be in 0..59"
  | .offset minutes =>
    "offset must be a timedelta strictly between -timedelta(hours=24) and timedelta(hours=24), not "
      ++ spanText minutes ++ "."

namespace Failure

def category : Failure → String
  | .malformed => "YAMLError"
  | .emptyNumeral => "IndexError"
  | .badTruth _ => "KeyError"
  | .notTimestamp => "AttributeError"
  | .characterRange | .badInteger .. | .badReal _ | .integerTooLong _ | .badDate _ => "ValueError"

def message : Failure → String
  | .malformed => ""
  | .characterRange => "chr() arg not in range(0x110000)"
  | .emptyNumeral => "string index out of range"
  | .badInteger base text => Number.notAnInteger base text
  | .badReal text => "could not convert string to float: " ++ Text.quoted text
  | .integerTooLong digits => Number.tooManyDigits digits
  | .badTruth text => Text.quoted text
  | .badDate part => part.message
  | .notTimestamp => "'NoneType' object has no attribute 'groupdict'"

end Failure

end StepFlow.Yaml
