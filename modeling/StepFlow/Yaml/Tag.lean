import StepFlow.Yaml.Timestamp

/-!
Tags: the types of nodes. A plain scalar without a tag has the type that its text looks like; the
words for truth values are many, integers come in five bases, and what looks like nothing else is
text.
-/
namespace StepFlow.Yaml

inductive Tag where
  | null | bool | int | real | binary | timestamp | omap | pairs | set | text | list | map
  | merge | fallback
  | unknown (name : String)
  deriving DecidableEq, Repr

namespace Tag

/-- What the names of all known tags begin with. -/
def family : String := "tag:yaml.org,2002:"

/-- The known tags by the ends of their names. -/
def known : List (String × Tag) :=
  [("null", .null), ("bool", .bool), ("int", .int), ("float", .real), ("binary", .binary),
    ("timestamp", .timestamp), ("omap", .omap), ("pairs", .pairs), ("set", .set), ("str", .text),
    ("seq", .list), ("map", .map), ("merge", .merge), ("value", .fallback)]

def ofName (name : String) : Tag :=
  ((known.map fun (suffix, tag) => (family ++ suffix, tag)).lookup name).getD (.unknown name)

end Tag

def truthWords : List String :=
  ["yes", "Yes", "YES", "no", "No", "NO", "true", "True", "TRUE", "false", "False", "FALSE", "on",
    "On", "ON", "off", "Off", "OFF"]

def nullWords : List String := ["~", "null", "Null", "NULL", ""]

def isDigitOrLine (c : Char) : Bool := Text.isAsciiDigit c || c == '_'

/-- The parts of a list between the places of a character. -/
def splitAtEach (mark : Char) : List Char → List (List Char)
  | [] => [[]]
  | c :: cs =>
    match splitAtEach mark cs with
    | [] => [[c]]
    | part :: parts => if c = mark then [] :: part :: parts else (c :: part) :: parts

def dropSign : List Char → List Char
  | '-' :: cs => cs
  | '+' :: cs => cs
  | cs => cs

/-- One or two digits below sixty. -/
def isSixtieth : List Char → Bool
  | [x] => Text.isAsciiDigit x
  | [x, y] => '0' ≤ x && x ≤ '5' && Text.isAsciiDigit y
  | _ => false

/-- A digit in a range and then digits or underscores. -/
def isCount (first : Char) : List Char → Bool
  | [] => false
  | c :: cs => first ≤ c && c ≤ '9' && cs.all isDigitOrLine

/-- A number in base sixty: its parts are between colons. -/
def isSexagesimal : List (List Char) → Bool
  | whole :: part :: parts => isCount '1' whole && (part :: parts).all isSixtieth
  | _ => false

def looksLikeInteger (cs : List Char) : Bool :=
  match dropSign cs with
  | '0' :: 'b' :: c :: rest => (c :: rest).all fun c => c == '0' || c == '1' || c == '_'
  | '0' :: 'x' :: c :: rest => (c :: rest).all fun c => (Text.hexValue? c).isSome || c == '_'
  | ['0'] => true
  | '0' :: rest => rest.all fun c => ('0' ≤ c && c ≤ '7') || c == '_'
  | body => isCount '1' body || isSexagesimal (splitAtEach ':' body)

/-- An exponent, which always has a sign, or nothing. -/
def looksLikeExponent : List Char → Bool
  | [] => true
  | e :: sign :: c :: rest =>
    (e == 'e' || e == 'E') && (sign == '-' || sign == '+') && (c :: rest).all Text.isAsciiDigit
  | _ => false

/-- A fraction after its point. -/
def looksLikeFraction (cs : List Char) : Bool := looksLikeExponent (cs.dropWhile isDigitOrLine)

/-- A double in base sixty: the last part has the point. -/
def isSexagesimalReal (parts : List (List Char)) : Bool :=
  match parts, parts.getLast? with
  | whole :: _ :: _, some last =>
    isCount '0' whole && (parts.tail.dropLast).all isSixtieth &&
      isSixtieth (last.takeWhile (· ≠ '.')) &&
      (match last.dropWhile (· ≠ '.') with
        | '.' :: fraction => fraction.all isDigitOrLine
        | _ => false)
  | _, _ => false

def infinityWords : List String := [".inf", ".Inf", ".INF"]

def notNumberWords : List String := [".nan", ".NaN", ".NAN"]

def looksLikeReal (cs : List Char) : Bool :=
  let body := dropSign cs
  let whole := body.takeWhile isDigitOrLine
  (isCount '0' whole &&
      (match body.drop whole.length with
        | '.' :: rest => looksLikeFraction rest
        | _ => false)) ||
    (match cs with
      | '.' :: c :: rest => Text.isAsciiDigit c && looksLikeFraction rest
      | _ => false) ||
    isSexagesimalReal (splitAtEach ':' body) ||
    infinityWords.contains (String.ofList body) || notNumberWords.contains (String.ofList cs)

/-- The type that a text looks like. A lone line feed looks like nothing. -/
def Tag.ofPlain (text : String) : Tag :=
  let cs := if text = "\n" then ['\n'] else dropFinalBreak text.toList
  let s := String.ofList cs
  if truthWords.contains s then .bool
  else if looksLikeReal cs then .real
  else if looksLikeInteger cs then .int
  else if s = "<<" then .merge
  else if nullWords.contains s then .null
  else if looksLikeTimestamp cs then .timestamp
  else if s = "=" then .fallback
  else .text

end StepFlow.Yaml
