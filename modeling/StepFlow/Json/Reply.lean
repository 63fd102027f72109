import StepFlow.Fault
import StepFlow.Json.Extract
import StepFlow.Json.Reader
import StepFlow.Json.Repair

/-!
Reading the reply of a model as JSON, as far as it is JSON. A strict reading takes the whole reply
or a reply that is one fence; a lenient one also digs the document out of prose and repairs it. A
reply that stays text is handed back as it was. The one failure is an integer of too many digits.
-/
namespace StepFlow.Json

/-- The value of a text, `none` when it is no document. -/
def parse? (cs : List Char) : Except Fault (Option Value) :=
  match parseChars cs with
  | .ok v => .ok (some v)
  | .error .malformed => .ok none
  | .error (.numeralTooLong digits) => .error (.numeralTooLong digits)

/-- The inside of a text that is one fence as a whole. -/
def wholeFence? (cs : List Char) : Option (List Char) :=
  if fenceMark.isPrefixOf cs then
    let inner := cs.drop 3
    let body := (dropWord? ['j', 's', 'o', 'n'] inner).getD inner
    if fenceMark.isSuffixOf body then some (Text.trim (body.take (body.length - 3))) else none
  else none

/-- The strict reading of a text that is no document as it stands. -/
def strictly (cs : List Char) : Except Fault (Option Value) :=
  match wholeFence? (Text.trim cs) with
  | some body => parse? body
  | none => .ok none

/-- The lenient reading of a text that is no document as it stands. -/
def leniently (cs : List Char) : Except Fault (Option Value) := do
  let extracted := extractChars cs
  let found ← if extracted = cs then pure none else parse? extracted
  if found.isSome then return found
  let repaired := repairChars extracted
  if repaired = extracted then return none else parse? repaired

/-- The value of a reply, `none` when it is text. -/
def replyValue? (lenient : Bool) (cs : List Char) : Except Fault (Option Value) := do
  if Text.allBlank cs then return none
  let found ← parse? cs
  if found.isSome then return found
  if lenient then leniently cs else strictly cs

/-- Whether a reply is JSON, with its value, or with the reply itself when it is not. -/
def readReply (lenient : Bool) (reply : Value) : Except Fault (Bool × Value) :=
  match reply with
  | .text s => do
    match ← replyValue? lenient s.toList with
    | some v => return (true, v)
    | none => return (false, reply)
  | reply => .ok (false, reply)

end StepFlow.Json
