import StepFlow.Text.Blank

/-!
Finding a document inside a text: in the first fence, a fence marked as JSON before any other, and
otherwise between the first opening and the last closing bracket, braces before square brackets.
-/
namespace StepFlow.Json

/-- Three back-quotes. -/
def fenceMark : List Char := ['\x60', '\x60', '\x60']

/-- Whether a character is a letter of the fence's name: in either case, and a long s counts as
an s. -/
def matchesLetter (letter c : Char) : Bool :=
  c.toLower = letter || (letter = 's' && c.toNat = 0x17F)

/-- What follows a word in any letter case, if the list begins with it. -/
def dropWord? : List Char → List Char → Option (List Char)
  | [], cs => some cs
  | _ :: _, [] => none
  | letter :: word, c :: cs => if matchesLetter letter c then dropWord? word cs else none

/-- What follows the first fence that is marked as JSON. -/
def afterMarkedFence? : List Char → Option (List Char)
  | [] => none
  | c :: cs =>
    if fenceMark.isPrefixOf (c :: cs) then
      match dropWord? ['j', 's', 'o', 'n'] ((c :: cs).drop 3) with
      | some rest => some rest
      | none => afterMarkedFence? cs
    else afterMarkedFence? cs

/-- The text up to the closing fence, without the blanks around it. -/
def fenced? (cs : List Char) : Option (List Char) :=
  match Text.cutAt fenceMark (Text.trimLeft cs) with
  | (body, some _) => some (Text.trim body)
  | (_, none) => none

/-- From the first opening bracket to the last closing one, if that is not before it. -/
def between? (opening closing : Char) (cs : List Char) : Option (List Char) :=
  let start := cs.dropWhile (· ≠ opening)
  let reach := (start.reverse.dropWhile (· ≠ closing)).reverse
  if reach.isEmpty then none else some reach

/-- The part of a text that is most likely a document, or the text without blanks around it. -/
def extractChars (text : List Char) : List Char :=
  let cs := Text.trim text
  let marked := (afterMarkedFence? cs).bind fenced?
  let plain := (Text.cutAt fenceMark cs).2.bind fenced?
  match marked <|> plain <|> between? '{' '}' cs <|> between? '[' ']' cs with
  | some found => found
  | none => cs

def extract (text : String) : String := String.ofList (extractChars text.toList)

end StepFlow.Json
