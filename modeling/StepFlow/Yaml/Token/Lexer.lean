import StepFlow.Yaml.Scalar.Block
import StepFlow.Yaml.Scalar.Plain
import StepFlow.Yaml.Scalar.Quoted
import StepFlow.Yaml.Token.Name

/-!
Lexing YAML documents. Indentation opens and closes block collections. That something is the key of
a mapping shows only at its colon, which has to come on the same line; until then its place is
kept as a candidate, one for each level of nested flow collections.
-/
namespace StepFlow.Yaml

/-- A token that may turn out to begin a key. One that has to be a key must meet its colon. -/
structure Candidate where
  place : Nat
  required : Bool
  index : Nat
  line : Nat
  column : Nat

/-- How far lexing has come. The candidates begin with that of the innermost level; outside of all
collections the indentation is -1. -/
structure Lexing where
  cursor : Cursor
  indent : Int
  outer : List Int
  keyAllowed : Bool
  candidates : List (Option Candidate)
  tokens : List Token

namespace Lexing

def start (cs : List Char) : Lexing := ⟨.ofText cs, -1, [], true, [none], []⟩

/-- Whether the cursor is inside a flow collection. -/
def inFlow (s : Lexing) : Bool := 1 < s.candidates.length

def push (s : Lexing) (t : Token) : Lexing := { s with tokens := s.tokens ++ [t] }

/-- A single mark as a token. -/
def pushMark (s : Lexing) (t : Token) : Lexing := { s.push t with cursor := s.cursor.next }

/-- Longest distance between the begin of a key and its colon. -/
def keyLimit : Nat := 1024

/-- A candidate that is still possible at a cursor. -/
def refreshed (c : Cursor) : Option Candidate → Except Failure (Option Candidate)
  | none => .ok none
  | some k =>
    if k.line ≠ c.line || keyLimit < c.index - k.index then
      if k.required then .error .malformed else .ok none
    else .ok (some k)

/-- Drops the candidates that are no longer possible. -/
def dropStale (s : Lexing) : Except Failure Lexing := do
  return { s with candidates := ← s.candidates.mapM (refreshed s.cursor) }

/-- Puts another candidate in the place of the innermost one, which must not have to be a key. -/
def setCandidate (s : Lexing) (k : Option Candidate) : Except Failure Lexing :=
  match s.candidates with
  | [] => .ok s
  | old :: rest =>
    if old.any Candidate.required then .error .malformed
    else .ok { s with candidates := k :: rest }

def dropCandidate (s : Lexing) : Except Failure Lexing := s.setCandidate none

/-- Keeps the place of the next token as a candidate where keys are allowed. -/
def keepCandidate (s : Lexing) : Except Failure Lexing :=
  if s.keyAllowed then
    s.setCandidate (some
      { place := s.tokens.length
        required := !s.inFlow && s.indent == (s.cursor.column : Int)
        index := s.cursor.index
        line := s.cursor.line
        column := s.cursor.column })
  else .ok s

/-- The levels that are left at a column, and how many were closed. -/
def closeLevels (column : Int) : Int → List Int → Nat → Int × List Int × Nat
  | indent, [], n => (indent, [], n)
  | indent, level :: levels, n =>
    if column < indent then closeLevels column level levels (n + 1) else (indent, level :: levels, n)

/-- Closes the block collections that are indented more than a column. -/
def unwind (s : Lexing) (column : Int) : Lexing :=
  if s.inFlow then s
  else
    let (indent, outer, n) := closeLevels column s.indent s.outer 0
    { s with indent, outer, tokens := s.tokens ++ List.replicate n .blockEnd }

/-- Opens a block collection at a column that is indented more than the one around it. -/
def openBlock (s : Lexing) (column : Nat) (place : Nat) (t : Token) : Lexing :=
  if s.indent < (column : Int) then
    { s with indent := column, outer := s.indent :: s.outer, tokens := s.tokens.insertIdx place t }
  else s

/-- Opens a block collection at the cursor. -/
def openBlockHere (s : Lexing) (t : Token) : Lexing :=
  s.openBlock s.cursor.column s.tokens.length t

/-- Goes over spaces, comments and line breaks, within `fuel` lines. A new line allows a key. -/
def skip : Nat → Lexing → Lexing
  | 0, s => s
  | fuel + 1, s =>
    let c := s.cursor.dropSpaces.dropComment
    match c.takeBreak? with
    | some (_, c) => skip fuel { s with cursor := c, keyAllowed := s.keyAllowed || !s.inFlow }
    | none => { s with cursor := c }

/-- A byte order mark counts only at the very beginning. -/
def skipOrderMark (s : Lexing) : Lexing :=
  if s.cursor.index = 0 && s.cursor.peek = some '\uFEFF' then { s with cursor := s.cursor.next }
  else s

/-- The end of everything that is open. -/
def closeAll (s : Lexing) : Except Failure Lexing := do
  let s ← (s.unwind (-1)).dropCandidate
  return { s with keyAllowed := false }

def documentMark (s : Lexing) (t : Token) : Except Failure Lexing := do
  let s ← s.closeAll
  return { s.push t with cursor := s.cursor.forward 3 }

def directive (s : Lexing) : Except Failure Lexing := do
  let s ← s.closeAll
  let (t, cursor) ← directiveToken s.cursor
  return { s.push t with cursor }

def flowBegin (s : Lexing) (t : Token) : Except Failure Lexing := do
  let s ← s.keepCandidate
  return { s.pushMark t with candidates := none :: s.candidates, keyAllowed := true }

/-- A flow collection can only end where one is open. -/
def flowEnd (s : Lexing) (t : Token) : Except Failure Lexing := do
  if !s.inFlow then throw .malformed
  let s ← s.dropCandidate
  return { s.pushMark t with candidates := s.candidates.tail, keyAllowed := false }

def flowEntry (s : Lexing) : Except Failure Lexing := do
  let s ← s.dropCandidate
  return { s.pushMark .flowEntry with keyAllowed := true }

def blockEntry (s : Lexing) : Except Failure Lexing := do
  if !s.inFlow && !s.keyAllowed then throw .malformed
  let s := if s.inFlow then s else s.openBlockHere .blockSequence
  let s ← s.dropCandidate
  return { s.pushMark .blockEntry with keyAllowed := true }

def explicitKey (s : Lexing) : Except Failure Lexing := do
  if !s.inFlow && !s.keyAllowed then throw .malformed
  let s := if s.inFlow then s else s.openBlockHere .blockMapping
  let s ← s.dropCandidate
  return { s.pushMark .key with keyAllowed := !s.inFlow }

/-- The colon of a key whose place was kept. -/
def keyedValue (s : Lexing) (k : Candidate) : Lexing :=
  let s := { s with candidates := none :: s.candidates.tail
                    tokens := s.tokens.insertIdx k.place .key }
  let s := if s.inFlow then s else s.openBlock k.column k.place .blockMapping
  { s.pushMark .value with keyAllowed := false }

/-- A colon on its own. -/
def bareValue (s : Lexing) : Except Failure Lexing := do
  if !s.inFlow && !s.keyAllowed then throw .malformed
  let s := if s.inFlow then s else s.openBlockHere .blockMapping
  let s ← s.dropCandidate
  return { s.pushMark .value with keyAllowed := !s.inFlow }

def value (s : Lexing) : Except Failure Lexing :=
  match s.candidates with
  | some k :: _ => .ok (s.keyedValue k)
  | _ => s.bareValue

/-- A token that may begin a key, read by a function from the cursor. -/
def keyLike (s : Lexing) (read : Cursor → Except Failure (Token × Cursor)) :
    Except Failure Lexing := do
  let s ← s.keepCandidate
  let (t, cursor) ← read s.cursor
  return { s.push t with cursor, keyAllowed := false }

def quoted (double : Bool) (c : Cursor) : Except Failure (Token × Cursor) := do
  let (text, c) ← Quoted.scan double c.rest.length [] c.next
  return (.scalar (String.ofList text) false, c)

def anchored (token : String → Token) (c : Cursor) : Except Failure (Token × Cursor) := do
  let (s, c) ← anchorName c.next
  return (token s, c)

def block (s : Lexing) (folded : Bool) : Except Failure Lexing := do
  let s ← s.dropCandidate
  let (text, cursor) ← Block.scan folded s.indent s.cursor.next
  return { s.push (.scalar (String.ofList text) false) with cursor, keyAllowed := true }

def plain (s : Lexing) : Except Failure Lexing := do
  let s ← s.keepCandidate
  let (text, cursor, fresh) :=
    Plain.scan s.inFlow (s.indent + 1) s.cursor.rest.length [] [] false s.cursor
  return { s.push (.scalar (String.ofList text) true) with cursor, keyAllowed := fresh }

/-- The characters that never begin a plain scalar. -/
def indicators : List Char :=
  ['-', '?', ':', ',', '[', ']', '\x7b', '\x7d', '#', '&', '*', '!', '|', '>', '\'', '"', '%', '@',
    '\x60']

/-- Whether a plain scalar begins here. Three marks begin one when more text follows. -/
def beginsPlain (s : Lexing) (x : Char) : Bool :=
  (!endsWord (some x) && !indicators.contains x) ||
    (!endsWord s.cursor.peekSecond && (x == '-' || (!s.inFlow && (x == '?' || x == ':'))))

/-- The token that begins with a character which is no mark of a whole document. -/
def token (s : Lexing) (x : Char) : Except Failure Lexing :=
  let alone := endsWord s.cursor.peekSecond
  if x = '[' then s.flowBegin .flowSequence
  else if x = '\x7b' then s.flowBegin .flowMapping
  else if x = ']' then s.flowEnd .flowSequenceEnd
  else if x = '\x7d' then s.flowEnd .flowMappingEnd
  else if x = ',' then s.flowEntry
  else if x = '-' && alone then s.blockEntry
  else if x = '?' && (s.inFlow || alone) then s.explicitKey
  else if x = ':' && (s.inFlow || alone) then s.value
  else if x = '*' then s.keyLike (anchored .alias)
  else if x = '&' then s.keyLike (anchored .anchor)
  else if x = '!' then s.keyLike tagToken
  else if x = '|' && !s.inFlow then s.block false
  else if x = '>' && !s.inFlow then s.block true
  else if x = '\'' then s.keyLike (quoted false)
  else if x = '"' then s.keyLike (quoted true)
  else if s.beginsPlain x then s.plain
  else .error .malformed

/-- What begins at the cursor: a mark of a whole document at the beginning of a line, or a token. -/
def begin (s : Lexing) (x : Char) : Except Failure Lexing :=
  if s.cursor.column = 0 && x = '%' then s.directive
  else if s.cursor.column = 0 && marksDocument s.cursor.rest then
    s.documentMark (if x = '-' then .documentStart else .documentEnd)
  else s.token x

/-- The tokens from here on, within `fuel` steps. -/
def run : Nat → Lexing → Except Failure (List Token)
  | 0, _ => .error .malformed
  | fuel + 1, s => do
    let s ← (skip (s.cursor.rest.length + 1) s.skipOrderMark).dropStale
    match s.cursor.peek with
    | none => return (← s.closeAll).tokens
    | some x => run fuel (← (s.unwind s.cursor.column).begin x)

end Lexing

/-- The tokens of a text. -/
def Token.ofText (cs : List Char) : Except Failure (List Token) :=
  Lexing.run (cs.length + 1) (.start cs)

end StepFlow.Yaml
