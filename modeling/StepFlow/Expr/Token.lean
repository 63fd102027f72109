import StepFlow.Number.Numeral
import StepFlow.Value.Ordering

/-!
Tokens of expressions. Scanning never fails: characters that begin no token are skipped, an
unterminated text runs to the end, and a run of digits and points that is no numeral is a number
that is not a number.
-/
namespace StepFlow.Expr

inductive Token where
  | text (s : String)
  | int (n : Int)
  | real (x : Float)
  | bool (b : Bool)
  | null
  | ident (name : String)
  | relation (r : Relation)
  | and
  | or
  | not
  | dot
  | opening
  | closing

namespace Token

def isIdentStart (c : Char) : Bool := ('a' ≤ c && c ≤ 'z') || ('A' ≤ c && c ≤ 'Z') || c = '_'

def isIdentChar (c : Char) : Bool := isIdentStart c || Text.isAsciiDigit c || c = '-'

def isNumberChar (c : Char) : Bool := Text.isAsciiDigit c || c = '.'

/-- The body of a quoted text and what follows its closing quote. A backslash stands for the
character after it. -/
def quotedBody (quote : Char) : List Char → List Char × List Char
  | [] => ([], [])
  | [c] => if c = quote then ([], []) else ([c], [])
  | c :: d :: cs =>
    if c = quote then ([], d :: cs)
    else if c = '\\' then
      let (body, rest) := quotedBody quote cs
      (d :: body, rest)
    else
      let (body, rest) := quotedBody quote (d :: cs)
      (c :: body, rest)

/-- The number that a run of digits and points spells. -/
def ofNumeral (negative : Bool) (cs : List Char) : Token :=
  if cs.contains '.' then
    match Number.numeral? negative cs with
    | some n => .real n.toFloat
    | none => .real Number.notANumber
  else if Number.digitLimit < cs.length then .real Number.notANumber
  else .int (if negative then -(Text.decimalValue cs : Int) else Text.decimalValue cs)

/-- Four words are literals, every other name is an identifier. -/
def ofName (name : String) : Token :=
  if name = "true" then .bool true
  else if name = "false" then .bool false
  else if name = "null" || name = "undefined" then .null
  else .ident name

/-- The operators of two characters. -/
def pair? (c d : Char) : Option Token :=
  match c, d with
  | '=', '=' => some (.relation .eq)
  | '!', '=' => some (.relation .ne)
  | '>', '=' => some (.relation .ge)
  | '<', '=' => some (.relation .le)
  | '&', '&' => some .and
  | '|', '|' => some .or
  | _, _ => none

def single? (c : Char) : Option Token :=
  match c with
  | '>' => some (.relation .gt)
  | '<' => some (.relation .lt)
  | '!' => some .not
  | '.' => some .dot
  | '(' => some .opening
  | ')' => some .closing
  | _ => none

/-- An operator, a name, or a character to skip. -/
def symbolOrName (c : Char) (cs : List Char) : Option Token × List Char :=
  match single? c with
  | some t => (some t, cs)
  | none =>
    if isIdentStart c then
      (some (ofName (String.ofList (c :: cs.takeWhile isIdentChar))), cs.dropWhile isIdentChar)
    else (none, cs)

/-- The token that begins at `c`, if one does, and what follows it. -/
def first (c : Char) (cs : List Char) : Option Token × List Char :=
  if Text.isBlank c then (none, cs)
  else if c = '\'' || c = '"' then
    let (body, rest) := quotedBody c cs
    (some (.text (String.ofList body)), rest)
  else if Text.isAsciiDigit c then
    (some (ofNumeral false (c :: cs.takeWhile isNumberChar)), cs.dropWhile isNumberChar)
  else if c = '-' && (cs.head?.map Text.isAsciiDigit).getD false then
    (some (ofNumeral true (cs.takeWhile isNumberChar)), cs.dropWhile isNumberChar)
  else match cs with
    | [] => symbolOrName c []
    | d :: rest =>
      match pair? c d with
      | some t => (some t, rest)
      | none => symbolOrName c (d :: rest)

theorem length_dropWhile_le (p : Char → Bool) (cs : List Char) :
    (cs.dropWhile p).length ≤ cs.length := (List.dropWhile_suffix p).sublist.length_le

theorem quotedBody_length (quote : Char) (cs : List Char) :
    (quotedBody quote cs).2.length ≤ cs.length := by
  fun_induction quotedBody quote cs <;> simp_all <;> omega

theorem symbolOrName_length (c : Char) (cs : List Char) :
    (symbolOrName c cs).2.length ≤ cs.length := by
  unfold symbolOrName
  split
  · exact Nat.le_refl _
  · split
    · exact length_dropWhile_le _ _
    · exact Nat.le_refl _

/-- A token takes at least the character it begins at. -/
theorem first_length (c : Char) (cs : List Char) : (first c cs).2.length ≤ cs.length := by
  unfold first
  split
  · exact Nat.le_refl _
  split
  · exact quotedBody_length _ _
  split
  · exact length_dropWhile_le _ _
  split
  · exact length_dropWhile_le _ _
  split
  · exact symbolOrName_length _ _
  · split
    · simp
    · exact symbolOrName_length _ _

def scan : List Char → List Token
  | [] => []
  | c :: cs => (first c cs).1.toList ++ scan (first c cs).2
termination_by cs => cs.length
decreasing_by
  have := first_length c cs
  simp only [List.length_cons]
  omega

/-- The tokens of an expression, blanks around it aside. -/
def ofText (s : String) : List Token := scan s.toList

end Token

end StepFlow.Expr
