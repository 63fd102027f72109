import StepFlow.Text.Digit
import StepFlow.Yaml.Cursor
import StepFlow.Yaml.Failure

/-!
Quoted scalars. Between single quotes only the quote itself is written in another way, twice;
between double quotes a backslash begins an escape. Line breaks fold as in plain scalars, and
indentation does not count.
-/
namespace StepFlow.Yaml.Quoted

/-- The escapes that stand for one character each. -/
def escapes : List (Char × Char) :=
  [('0', '\x00'), ('a', '\x07'), ('b', '\x08'), ('t', '\t'), ('\t', '\t'), ('n', '\n'),
    ('v', '\x0b'), ('f', '\x0c'), ('r', '\r'), ('e', '\x1b'), (' ', ' '), ('"', '"'),
    ('\\', '\\'), ('/', '/'), ('N', '\u0085'), ('_', '\u00a0'), ('L', '\u2028'), ('P', '\u2029')]

/-- The number of hexadecimal digits after the escapes that give a code. -/
def codeWidth? : Char → Option Nat
  | 'x' => some 2
  | 'u' => some 4
  | 'U' => some 8
  | _ => none

/-- A code as it is written. -/
def ofCode (n : Nat) : Except Failure (List Char) :=
  if n < Text.codeLimit then .ok (Text.ofCode n) else .error .characterRange

/-- Goes over blank lines and the blanks before the next line, within `fuel` lines. No document may
end there. -/
def skipLines : Nat → List Char → Cursor → Except Failure (List Char × Cursor)
  | 0, breaks, c => .ok (breaks, c)
  | fuel + 1, breaks, c =>
    if marksDocument c.rest then .error .malformed
    else
      let c := c.dropWhile isSpaceOrTab
      match c.takeBreak? with
      | some (x, c) => skipLines fuel (breaks ++ [x]) c
      | none => .ok (breaks, c)

/-- The text of an escape after its backslash, and the cursor behind it. A line break is dropped. -/
def escape (c : Cursor) : Except Failure (List Char × Cursor) :=
  match c.rest with
  | [] => .error .malformed
  | x :: rest =>
    match escapes.lookup x, codeWidth? x with
    | some y, _ => .ok ([y], c.next)
    | none, some width =>
      let digits := rest.take width
      match Text.hexValueOf? digits with
      | some n =>
        if digits.length < width then .error .malformed
        else do return (← ofCode n, c.forward (width + 1))
      | none => .error .malformed
    | none, none =>
      match c.takeBreak? with
      | some (_, c) => skipLines (c.rest.length + 1) [] c
      | none => .error .malformed

/-- The text of blanks or of line breaks between two words, and the cursor behind it. -/
def gap (c : Cursor) : Except Failure (List Char × Cursor) :=
  let after := c.dropWhile isSpaceOrTab
  match after.takeBreak? with
  | none => .ok (c.rest.takeWhile isSpaceOrTab, after)
  | some (first, next) => do
    let (breaks, next) ← skipLines (next.rest.length + 1) [] next
    return ((if first ≠ '\n' then [first] else if breaks.isEmpty then [' '] else []) ++ breaks, next)

/-- The rest of a scalar after its first quote, within `fuel` pieces. -/
def scan (double : Bool) : Nat → List Char → Cursor → Except Failure (List Char × Cursor)
  | 0, _, _ => .error .malformed
  | fuel + 1, text, c =>
    match c.rest with
    | [] => .error .malformed
    | x :: _ =>
      if x = (if double then '"' else '\'') then
        if !double && c.peekSecond = some '\'' then scan double fuel (text ++ ['\'']) (c.forward 2)
        else .ok (text, c.next)
      else if double && x = '\\' then do
        let (piece, c) ← escape c.next
        scan double fuel (text ++ piece) c
      else if isSpaceOrTab x || isBreak x then do
        let (piece, c) ← gap c
        scan double fuel (text ++ piece) c
      else scan double fuel (text ++ [x]) c.next

end StepFlow.Yaml.Quoted
