import StepFlow.Value.Display

/-!
Writing values as JSON. A `Style` fixes the separators and whether characters beyond ASCII are
escaped. Doubles that are no JSON numbers are written by name, what JSON has no form for as the text
it shows, and a name that is no text as a string of what stands for it. A name that has no form of its
own is not written at all, and neither is an integer of too many digits.
-/
namespace StepFlow.Json

structure Style where
  itemSeparator : List Char
  nameSeparator : List Char
  asciiOnly : Bool

/-- The style of values inside texts: no blanks, and characters as they are. -/
def compact : Style := ⟨[','], [':'], false⟩

/-- The style of log lines: blanks after separators, and ASCII alone. -/
def spaced : Style := ⟨[',', ' '], [':', ' '], true⟩

/-- One code unit as an escape of four hexadecimal digits. -/
def unitEscape (unit : Nat) : List Char := '\\' :: 'u' :: Text.hexDigits 4 unit

/-- The escape of any code; one beyond the basic plane takes a pair of surrogates. -/
def codeEscape (code : Nat) : List Char :=
  if code < 0x10000 then unitEscape code
  else
    unitEscape (0xD800 + (code - 0x10000) / 0x400) ++
      unitEscape (0xDC00 + (code - 0x10000) % 0x400)

/-- One code inside a string. -/
def stringCode (asciiOnly : Bool) (code : Nat) : List Char :=
  if code = 0x22 then ['\\', '"']
  else if code = 0x5C then ['\\', '\\']
  else if code = 10 then ['\\', 'n']
  else if code = 13 then ['\\', 'r']
  else if code = 9 then ['\\', 't']
  else if code = 8 then ['\\', 'b']
  else if code = 12 then ['\\', 'f']
  else if code < 0x20 then codeEscape code
  else if asciiOnly && 0x7E < code then codeEscape code
  else Text.ofCode code

def stringChars (style : Style) (s : String) : List Char :=
  '"' :: (Text.codes s).flatMap (stringCode style.asciiOnly) ++ ['"']

mutual

/-- The characters of a value, whatever the size of its integers. -/
def chars (style : Style) : Value → List Char
  | .null => ['n', 'u', 'l', 'l']
  | .bool true => ['t', 'r', 'u', 'e']
  | .bool false => ['f', 'a', 'l', 's', 'e']
  | .int n => (toString n).toList
  | .real x => (Number.documentLayout.text x).toList
  | .nan _ => (Number.documentLayout.text Number.notANumber).toList
  | .text s => stringChars style s
  | .list items => '[' :: itemChars style items ++ [']']
  | .map fields => '{' :: fieldChars style fields ++ ['}']
  | .keyed entries => '{' :: entryChars style entries ++ ['}']
  | .bytes content => stringChars style (Value.shown (.bytes content))
  | .timestamp t => stringChars style (Value.shown (.timestamp t))
  | .set members => stringChars style (Value.shown (.set members))
  | .record _ shown _ _ => stringChars style shown

def itemChars (style : Style) : List Value → List Char
  | [] => []
  | [v] => chars style v
  | v :: rest => chars style v ++ style.itemSeparator ++ itemChars style rest

def fieldChars (style : Style) : List (String × Value) → List Char
  | [] => []
  | [(name, v)] => stringChars style name ++ style.nameSeparator ++ chars style v
  | (name, v) :: rest =>
    stringChars style name ++ style.nameSeparator ++ chars style v ++ style.itemSeparator ++
      fieldChars style rest

def nameChars (style : Style) : Value → List Char
  | .text s => stringChars style s
  | k => '"' :: chars style k ++ ['"']

def entryChars (style : Style) : List (Value × Value) → List Char
  | [] => []
  | [(k, v)] => nameChars style k ++ style.nameSeparator ++ chars style v
  | (k, v) :: rest =>
    nameChars style k ++ style.nameSeparator ++ chars style v ++ style.itemSeparator ++
      entryChars style rest

end

/-- Whether a value can be the name of an entry. -/
def isName : Value → Bool
  | .null | .bool _ | .int _ | .real _ | .nan _ | .text _ => true
  | _ => false

/-- What keeps the name of an entry from being written. -/
def nameObstacle? (k : Value) : Option Fault :=
  if !isName k then some (.unfitName k.kind)
  else if k.isWritable then none
  else some .integerTooLong

mutual

/-- The first thing in a value that keeps it from being written. -/
def obstacle? : Value → Option Fault
  | .int n => if (Value.int n).isWritable then none else some .integerTooLong
  | .set members => if (Value.set members).isWritable then none else some .integerTooLong
  | .list items => itemObstacle? items
  | .map fields => fieldObstacle? fields
  | .keyed entries => entryObstacle? entries
  | _ => none

def itemObstacle? : List Value → Option Fault
  | [] => none
  | v :: rest => (obstacle? v).or (itemObstacle? rest)

def fieldObstacle? : List (String × Value) → Option Fault
  | [] => none
  | (_, v) :: rest => (obstacle? v).or (fieldObstacle? rest)

def entryObstacle? : List (Value × Value) → Option Fault
  | [] => none
  | (k, v) :: rest => (nameObstacle? k).or ((obstacle? v).or (entryObstacle? rest))

end

/-- The JSON text of a value. -/
def write (style : Style) (v : Value) : Except Fault String :=
  match obstacle? v with
  | some f => .error f
  | none => .ok (String.ofList (chars style v))

end StepFlow.Json
