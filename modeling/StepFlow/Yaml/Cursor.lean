import StepFlow.Text.Code

/-!
Cursors: places in the text of a document. A line ends at a line feed, a next-line character or
one of the two separators of Unicode. Columns count the codes since then, a byte order mark aside.
-/
namespace StepFlow.Yaml

/-- What is left of a text, and how much stands before it: in all, in lines, in this line. -/
structure Cursor where
  rest : List Char
  index : Nat
  line : Nat
  column : Nat

def isBreak (c : Char) : Bool :=
  c == '\n' || c == '\u0085' || c == '\u2028' || c == '\u2029'

def isSpace (c : Char) : Bool := c == ' '

def isSpaceOrTab (c : Char) : Bool := c == ' ' || c == '\t'

/-- Whether a word is over before what comes next. -/
def endsWord : Option Char → Bool
  | none => true
  | some c => isSpaceOrTab c || isBreak c

/-- Whether a line is over before what comes next. -/
def endsLine : Option Char → Bool
  | none => true
  | some c => isBreak c

/-- Whether a line that begins like this ends or begins a document. -/
def marksDocument : List Char → Bool
  | '-' :: '-' :: '-' :: rest => endsWord rest.head?
  | '.' :: '.' :: '.' :: rest => endsWord rest.head?
  | _ => false

namespace Cursor

def ofText (cs : List Char) : Cursor := ⟨cs, 0, 0, 0⟩

def peek (c : Cursor) : Option Char := c.rest.head?

/-- The character after the next one. -/
def peekSecond (c : Cursor) : Option Char := c.rest[1]?

/-- Goes over one character. The second half of a code counts for nothing. -/
def next (c : Cursor) : Cursor :=
  match c.rest with
  | [] => c
  | x :: rest =>
    if Text.isSecondHalf x then { c with rest }
    else if isBreak x then ⟨rest, c.index + 1, c.line + 1, 0⟩
    else ⟨rest, c.index + 1, c.line, if x = '\uFEFF' then c.column else c.column + 1⟩

def forward : Nat → Cursor → Cursor
  | 0, c => c
  | n + 1, c => forward n c.next

/-- Goes over all characters of a kind. -/
def dropWhile (c : Cursor) (p : Char → Bool) : Cursor :=
  c.forward (c.rest.takeWhile p).length

def dropSpaces (c : Cursor) : Cursor := c.dropWhile isSpace

/-- Goes over a comment, if one begins here. -/
def dropComment (c : Cursor) : Cursor :=
  if c.peek = some '#' then c.dropWhile fun x => !isBreak x else c

/-- A line break as it counts in scalars, and the cursor behind it. Only the two separators keep
their own character. -/
def takeBreak? (c : Cursor) : Option (Char × Cursor) :=
  match c.rest with
  | x :: _ =>
    if isBreak x then some (if x = '\u2028' || x = '\u2029' then x else '\n', c.next) else none
  | [] => none

/-- Goes over a line break, if there is one. -/
def dropBreak (c : Cursor) : Cursor :=
  match c.takeBreak? with
  | some (_, c) => c
  | none => c

end Cursor

end StepFlow.Yaml
