import StepFlow.Yaml.Cursor

/-!
Plain scalars: text without quotes. One goes on over spaces and line breaks as long as the next
line is indented enough, a single break counting as a space. Tabs end it.
-/
namespace StepFlow.Yaml.Plain

/-- What ends the key of a mapping when it comes after a colon. -/
def endsKey (inFlow : Bool) (next : Option Char) : Bool :=
  endsWord next || (inFlow && (next.any fun c => [',', '[', ']', '\x7b', '\x7d'].contains c))

/-- Whether a scalar stops before this text. -/
def stops (inFlow : Bool) : List Char → Bool
  | [] => true
  | c :: rest =>
    endsWord (some c) || (c == ':' && endsKey inFlow rest.head?) ||
      (inFlow && [',', '?', '[', ']', '\x7b', '\x7d'].contains c)

/-- The characters up to where a scalar stops. -/
def run (inFlow : Bool) : List Char → List Char
  | [] => []
  | c :: rest => if stops inFlow (c :: rest) then [] else c :: run inFlow rest

/-- Goes over blank lines and indentation, within `fuel` characters. Nothing is given when a
document ends there. -/
def skipLines : Nat → List Char → Cursor → Option (List Char) × Cursor
  | 0, breaks, c => (some breaks, c)
  | fuel + 1, breaks, c =>
    if c.peek = some ' ' then skipLines fuel breaks c.next
    else match c.takeBreak? with
      | some (x, c) =>
        if marksDocument c.rest then (none, c) else skipLines fuel (breaks ++ [x]) c
      | none => (some breaks, c)

/-- What stands between two lines of a scalar: the first break is a space unless more follow. -/
def folded (first : Char) (breaks : List Char) : List Char :=
  (if first ≠ '\n' then [first] else if breaks.isEmpty then [' '] else []) ++ breaks

/-- The space after a part of a scalar, the cursor behind it, and whether it holds a line break.
An empty space ends the scalar. -/
def space (c : Cursor) : List Char × Cursor × Bool :=
  let after := c.dropSpaces
  match after.takeBreak? with
  | none => (c.rest.takeWhile isSpace, after, false)
  | some (first, next) =>
    if marksDocument next.rest then ([], next, true)
    else match skipLines next.rest.length [] next with
      | (some breaks, next) => (folded first breaks, next, true)
      | (none, next) => ([], next, true)

/-- The rest of a scalar, within `fuel` parts: its text, the cursor behind it, and whether that is
at the beginning of a line. -/
def scan (inFlow : Bool) (indent : Int) :
    Nat → List Char → List Char → Bool → Cursor → List Char × Cursor × Bool
  | 0, text, _, fresh, c => (text, c, fresh)
  | fuel + 1, text, pending, fresh, c =>
    let part := if c.peek = some '#' then [] else run inFlow c.rest
    if part.isEmpty then (text, c, fresh)
    else
      let text := text ++ pending ++ part
      let (gap, c, fresh) := space (c.forward part.length)
      if gap.isEmpty || c.peek = some '#' || (!inFlow && (c.column : Int) < indent) then
        (text, c, fresh)
      else scan inFlow indent fuel text gap fresh c

end StepFlow.Yaml.Plain
