import StepFlow.Text.Lower
import StepFlow.Value
import StepFlow.Yaml.Tag

/-!
Values of scalars by their tags. Underscores in numbers count for nothing. A tag that is written
out may not fit the text of its scalar.
-/
namespace StepFlow.Yaml

def withoutLines (s : String) : List Char := s.toList.filter (· ≠ '_')

/-- The value of digits in a base, if all of them are digits of it. -/
def basedValue? (base : Nat) (cs : List Char) : Option Nat :=
  if cs.isEmpty then none
  else cs.foldlM (fun n c => do
    let d ← Text.hexValue? c
    if d < base then some (base * n + d) else none) 0

/-- An integer in a base that a letter after a zero may repeat, of any number of digits. -/
def based (base : Nat) (letter : Char) (cs : List Char) : Except Failure Int :=
  let (negative, body) := Number.splitSign (Number.plainDigits (Text.trimWhiteSpace cs))
  let digits := match body with
    | '0' :: c :: rest => if c.toLower = letter then rest else body
    | body => body
  match basedValue? base digits with
  | some n => .ok (if negative then -(n : Int) else n)
  | none => .error (.badInteger base (String.ofList cs))

def decimal (cs : List Char) : Except Failure Int :=
  match Number.readInt (String.ofList cs) with
  | .value n => .ok n
  | .malformed => .error (.badInteger 10 (String.ofList cs))
  | .tooLong digits => .error (.integerTooLong digits)

/-- An integer without its sign. -/
def unsignedInteger (cs : List Char) : Except Failure Int :=
  match cs with
  | [] => .error .emptyNumeral
  | ['0'] => .ok 0
  | '0' :: 'b' :: rest => based 2 'b' rest
  | '0' :: 'x' :: rest => based 16 'x' rest
  | '0' :: _ => based 8 'o' cs
  | _ =>
    if cs.contains ':' then do
      let parts ← (splitAtEach ':' cs).mapM decimal
      return parts.foldl (fun n part => 60 * n + part) 0
    else decimal cs

def integer (s : String) : Except Failure Int :=
  match withoutLines s with
  | [] => .error .emptyNumeral
  | '-' :: cs => (unsignedInteger cs).map fun n => -n
  | cs => unsignedInteger (dropSign cs)

def double (cs : List Char) : Except Failure Float :=
  match Number.float? (String.ofList cs) with
  | some x => .ok x
  | none => .error (.badReal (String.ofList cs))

/-- A double without its sign. In base sixty the parts are added from the last one on. -/
def unsignedReal (cs : List Char) : Except Failure Float :=
  if cs = ".inf".toList then .ok (1.0 / 0.0)
  else if cs = ".nan".toList then .ok Number.notANumber
  else if cs.contains ':' then do
    let parts ← (splitAtEach ':' cs).mapM double
    return (parts.reverse.foldl (fun (sum, base) part =>
      (sum + part * Number.nearest false base 1, base * 60)) (0.0, 1)).1
  else double cs

def real (s : String) : Except Failure Float :=
  match (Text.lower (String.ofList (withoutLines s))).toList with
  | [] => .error .emptyNumeral
  | '-' :: cs => (unsignedReal cs).map fun x => -x
  | cs => unsignedReal (dropSign cs)

def truth (s : String) : Except Failure Bool :=
  let word := Text.lower s
  if ["yes", "true", "on"].contains word then .ok true
  else if ["no", "false", "off"].contains word then .ok false
  else .error (.badTruth word)

def timestamp (s : String) : Except Failure Timestamp :=
  match Timestamp.ofText? 1 (dropFinalBreak s.toList) with
  | none => .error .notTimestamp
  | some t =>
    match t.problem? with
    | some part => .error (.badDate part)
    | none => .ok t

/-- The six bits of a character of base 64. -/
def sextet? (c : Char) : Option Nat :=
  if 'A' ≤ c && c ≤ 'Z' then some (c.toNat - 65)
  else if 'a' ≤ c && c ≤ 'z' then some (c.toNat - 71)
  else if Text.isAsciiDigit c then some (c.toNat + 4)
  else if c = '+' then some 62
  else if c = '/' then some 63
  else none

/-- The bytes of one group of sextets. Four make three bytes, and those at the end one less than
their number. -/
def groupBytes : List Nat → Text.Bytes
  | [a, b] => [.ofNat ((a * 64 + b) / 16)]
  | [a, b, c] =>
    let n := (a * 64 + b) * 64 + c
    [.ofNat (n / 1024), .ofNat (n / 4)]
  | [a, b, c, d] =>
    let n := ((a * 64 + b) * 64 + c) * 64 + d
    [.ofNat (n / 65536), .ofNat (n / 256), .ofNat n]
  | _ => []

/-- The bytes of a text in base 64, a group having been begun and so many marks having filled it.
Other characters do not count, and neither does a mark where it fills nothing. -/
def base64Bytes? : List Nat → Nat → List Char → Option Text.Bytes
  | group, _, [] => if group.isEmpty then some [] else none
  | group, marks, c :: cs =>
    if c = '=' then
      if group.length < 2 then base64Bytes? group marks cs
      else if 4 ≤ group.length + marks + 1 then some (groupBytes group)
      else base64Bytes? group (marks + 1) cs
    else
      match sextet? c with
      | none => base64Bytes? group marks cs
      | some n =>
        if group.length = 3 then (base64Bytes? [] 0 cs).map (groupBytes (group ++ [n]) ++ ·)
        else base64Bytes? (group ++ [n]) 0 cs

/-- The bytes that a text stands for. -/
def binary (s : String) : Except Failure Text.Bytes :=
  if s.toList.all fun c => c.toNat < 128 then
    (base64Bytes? [] 0 s.toList).elim (.error .malformed) .ok
  else .error .malformed

/-- The value of a scalar. -/
def scalarValue (tag : Tag) (s : String) : Except Failure Value :=
  match tag with
  | .null => .ok .null
  | .bool => (truth s).map .bool
  | .int => (integer s).map .int
  | .real => (real s).map fun x => .ofFloat x .document
  | .timestamp => (timestamp s).map .timestamp
  | .text => .ok (.text s)
  | .binary => (binary s).map .bytes
  | _ => .error .malformed

end StepFlow.Yaml
