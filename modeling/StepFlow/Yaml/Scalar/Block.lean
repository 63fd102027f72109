import StepFlow.Text.Digit
import StepFlow.Yaml.Cursor
import StepFlow.Yaml.Failure

/-!
Block scalars: lines that are indented more than what they belong to. A literal scalar keeps its
line breaks; in a folded one, a break between two lines that begin with text is a space. The header
says what becomes of the breaks at the end.
-/
namespace StepFlow.Yaml.Block

/-- What becomes of the breaks at the end: one is kept, all, or none. -/
inductive Chomping where
  | clip | keep | strip
  deriving DecidableEq, Repr

structure Header where
  chomping : Chomping
  increment : Option Nat

def chomping? : Char → Option Chomping
  | '+' => some .keep
  | '-' => some .strip
  | _ => none

/-- The indentation that a digit asks for. -/
def increment? (c : Char) : Option Nat :=
  if Text.isAsciiDigit c then some (c.toNat - 48) else none

/-- The two marks of a header in either order, each at most once. -/
def header (c : Cursor) : Header × Cursor :=
  match c.peek.bind chomping?, c.peek.bind increment? with
  | some chomping, _ =>
    match c.next.peek.bind increment? with
    | some n => (⟨chomping, some n⟩, c.next.next)
    | none => (⟨chomping, none⟩, c.next)
  | none, some n =>
    match c.next.peek.bind chomping? with
    | some chomping => (⟨chomping, some n⟩, c.next.next)
    | none => (⟨.clip, some n⟩, c.next)
  | none, none => (⟨.clip, none⟩, c)

/-- The rest of the line of a header: nothing but a comment. -/
def endHeader (c : Cursor) : Except Failure Cursor :=
  if endsLine c.peek || c.peek = some ' ' then
    let c := c.dropSpaces.dropComment
    if endsLine c.peek then .ok c.dropBreak else .error .malformed
  else .error .malformed

/-- Goes over blank lines and indentation of any depth, within `fuel` characters: the breaks and
the deepest column. -/
def leading : Nat → List Char → Nat → Cursor → List Char × Nat × Cursor
  | 0, breaks, deepest, c => (breaks, deepest, c)
  | fuel + 1, breaks, deepest, c =>
    match c.takeBreak? with
    | some (x, c) => leading fuel (breaks ++ [x]) deepest c
    | none =>
      if c.peek = some ' ' then leading fuel breaks (max deepest c.next.column) c.next
      else (breaks, deepest, c)

/-- Goes over spaces up to a column, within `fuel` characters. -/
def indentTo (indent : Nat) : Nat → Cursor → Cursor
  | 0, c => c
  | fuel + 1, c =>
    if c.column < indent && c.peek = some ' ' then indentTo indent fuel c.next else c

/-- Goes over blank lines and up to the indentation of the scalar, within `fuel` lines. -/
def between (indent : Nat) : Nat → List Char → Cursor → List Char × Cursor
  | 0, breaks, c => (breaks, c)
  | fuel + 1, breaks, c =>
    let c := indentTo indent indent c
    match c.takeBreak? with
    | some (x, c) => between indent fuel (breaks ++ [x]) c
    | none => (breaks, c)

/-- Whether a line begins with text. -/
def beginsWithText (c : Cursor) : Bool :=
  match c.peek with
  | some x => !isSpaceOrTab x
  | none => true

/-- What a break between two lines counts as. -/
def joint (folded : Bool) (before after : Cursor) (lineBreak breaks : List Char) : List Char :=
  if folded && lineBreak = ['\n'] && beginsWithText before && beginsWithText after then
    if breaks.isEmpty then [' '] else []
  else lineBreak

/-- The break at the cursor, if there is one. -/
def breakHere (c : Cursor) : List Char :=
  match c.takeBreak? with
  | some (x, _) => [x]
  | none => []

/-- The lines of a scalar, within `fuel` lines: the text, the last break, the breaks after it. -/
def lines (folded : Bool) (indent : Nat) :
    Nat → List Char → List Char → Cursor → List Char × List Char × List Char × Cursor
  | 0, text, breaks, c => (text, [], breaks, c)
  | fuel + 1, text, breaks, c =>
    if c.column ≠ indent || c.rest.isEmpty then (text, [], breaks, c)
    else
      let line := c.rest.takeWhile fun x => !isBreak x
      let atEnd := c.forward line.length
      let lineBreak := breakHere atEnd
      let text := text ++ breaks ++ line
      let (breaks, after) := between indent (atEnd.rest.length + 1) [] atEnd.dropBreak
      if after.column = indent && !after.rest.isEmpty then
        lines folded indent fuel (text ++ joint folded c after lineBreak breaks) breaks after
      else (text, lineBreak, breaks, after)

/-- The scalar after its first character. The indentation is that of the lines around it. -/
def scan (folded : Bool) (outer : Int) (c : Cursor) : Except Failure (List Char × Cursor) := do
  let (h, c) := header c
  if h.increment = some 0 then throw .malformed
  let c ← endHeader c
  let least := max (outer + 1) 1
  let fuel := c.rest.length + 1
  let (indent, breaks, c) := match h.increment with
    | none =>
      let (breaks, deepest, c) := leading fuel [] 0 c
      (max least.toNat deepest, breaks, c)
    | some n =>
      let indent := least.toNat + n - 1
      let (breaks, c) := between indent fuel [] c
      (indent, breaks, c)
  let (text, lineBreak, breaks, c) := lines folded indent fuel [] breaks c
  return (match h.chomping with
    | .clip => text ++ lineBreak
    | .keep => text ++ lineBreak ++ breaks
    | .strip => text, c)

end StepFlow.Yaml.Block
