import StepFlow.Text.Bytes
import StepFlow.Yaml.Cursor
import StepFlow.Yaml.Failure
import StepFlow.Yaml.Token

/-!
Tokens that are names: anchors and aliases, tags with their handles, and directives.
-/
namespace StepFlow.Yaml

/-- The characters that anchors, handles and directives are named with. -/
def isNameChar (c : Char) : Bool :=
  Text.isAsciiDigit c || ('A' ≤ c && c ≤ 'Z') || ('a' ≤ c && c ≤ 'z') || c == '-' || c == '_'

/-- The characters that a tag may have after its handle. -/
def isTagChar (c : Char) : Bool :=
  isNameChar c || [';', '/', '?', ':', '@', '&', '=', '+', '$', ',', '.', '!', '~', '*', '\'', '(',
    ')', '[', ']', '%'].contains c

/-- What may follow an anchor or an alias. -/
def endsAnchor (next : Option Char) : Bool :=
  endsWord next || (next.any fun c => ['?', ':', ',', ']', '\x7d', '%', '@', '\x60'].contains c)

/-- A name that is not empty. -/
def name (c : Cursor) : Except Failure (String × Cursor) :=
  let cs := c.rest.takeWhile isNameChar
  if cs.isEmpty then .error .malformed else .ok (String.ofList cs, c.forward cs.length)

/-- The name of an anchor or an alias, after its mark. -/
def anchorName (c : Cursor) : Except Failure (String × Cursor) := do
  let (s, c) ← name c
  if endsAnchor c.peek then return (s, c) else throw .malformed

/-- The bytes of escapes in a row, and how many characters they take. -/
def escapedBytes : List Char → Option (List UInt8)
  | '%' :: x :: y :: rest => do
    let n ← Text.hexValueOf? [x, y]
    return UInt8.ofNat n :: (← escapedBytes rest)
  | '%' :: _ => none
  | _ => some []

/-- The text of a tag after its handle, within `fuel` pieces. Escapes are bytes of UTF-8. -/
def tagText : Nat → List Char → Cursor → Except Failure (List Char × Cursor)
  | 0, text, c => .ok (text, c)
  | fuel + 1, text, c =>
    if c.peek = some '%' then
      match escapedBytes c.rest with
      | none => .error .malformed
      | some bytes =>
        match Text.ofBytes? bytes with
        | some s => tagText fuel (text ++ s.toList) (c.forward (3 * bytes.length))
        | none => .error .malformed
    else
      let cs := c.rest.takeWhile fun x => isTagChar x && x != '%'
      if cs.isEmpty then .ok (text, c) else tagText fuel (text ++ cs) (c.forward cs.length)

/-- The text of a tag that is not empty. -/
def tagSuffix (c : Cursor) : Except Failure (String × Cursor) := do
  let (cs, c') ← tagText (c.rest.length + 1) [] c
  if c'.index = c.index then throw .malformed
  return (String.ofList cs, c')

/-- A handle: one mark, or a name between two of them. -/
def tagHandle (c : Cursor) : Except Failure (String × Cursor) :=
  match c.rest with
  | '!' :: rest =>
    if rest.head? = some ' ' then .ok ("!", c.next)
    else
      let cs := rest.takeWhile isNameChar
      if rest[cs.length]? = some '!' then
        .ok (String.ofList ('!' :: cs ++ ['!']), c.forward (cs.length + 2))
      else .error .malformed
  | _ => .error .malformed

/-- Whether a further mark comes before the word is over. -/
def hasHandle (rest : List Char) : Bool :=
  (rest.takeWhile fun x => !(x == ' ' || isBreak x)).contains '!'

/-- What may follow a tag or a directive. -/
def endsTag (next : Option Char) : Bool := endsLine next || next = some ' '

/-- A tag at its mark. -/
def tagToken (c : Cursor) : Except Failure (Token × Cursor) := do
  let (token, c) ← match c.next.peek with
    | some '<' => do
      let (suffix, c) ← tagSuffix (c.forward 2)
      if c.peek = some '>' then pure (Token.tag none suffix, c.next) else throw Failure.malformed
    | following =>
      if endsWord following then pure (Token.tag none "!", c.next)
      else do
        let (handle, c) ← if hasHandle c.next.rest then tagHandle c else pure ("!", c.next)
        let (suffix, c) ← tagSuffix c
        pure (Token.tag (some handle) suffix, c)
  if endsTag c.peek then return (token, c) else throw .malformed

/-- A number in a directive. -/
def versionNumber (c : Cursor) : Except Failure (Nat × Cursor) :=
  let digits := c.rest.takeWhile Text.isAsciiDigit
  if digits.isEmpty then .error .malformed
  else .ok (Text.decimalValue digits, c.forward digits.length)

/-- What a directive of a name says. -/
def directiveBody (name : String) (c : Cursor) : Except Failure (Directive × Cursor) := do
  if name = "YAML" then
    let (major, c) ← versionNumber c.dropSpaces
    if c.peek ≠ some '.' then throw .malformed
    let (minor, c) ← versionNumber c.next
    if endsTag c.peek then return (.version major minor, c) else throw .malformed
  else if name = "TAG" then
    let (handle, c) ← tagHandle c.dropSpaces
    if c.peek ≠ some ' ' then throw .malformed
    let (expansion, c) ← tagSuffix c.dropSpaces
    if endsTag c.peek then return (.tag handle expansion, c) else throw .malformed
  else return (.other, c.dropWhile fun x => !isBreak x)

/-- A directive at its mark, up to the end of its line. -/
def directiveToken (c : Cursor) : Except Failure (Token × Cursor) := do
  let (s, c) ← name c.next
  if !endsTag c.peek then throw .malformed
  let (d, c) ← directiveBody s c
  let c := c.dropSpaces.dropComment
  if endsLine c.peek then return (.directive d, c.dropBreak) else throw .malformed

end StepFlow.Yaml
