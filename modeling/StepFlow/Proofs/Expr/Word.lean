import Mathlib.Data.Set.List
import StepFlow.Proofs.Expr.Faithful

/-! Words: tokens as they can be written. A line of words with single blanks between them is scanned
as the tokens that they are written for, in any order, and what any text is scanned as are the tokens
of words and doubles. -/
namespace StepFlow.Expr

/-- The quotes that a text can stand in. -/
inductive Quote where
  | single
  | double

namespace Quote

def char : Quote → Char
  | .single => '\''
  | .double => '"'

/-- A text inside of quotes: a backslash goes before the quote and before a backslash. -/
def escaped (quote : Quote) (body : List Char) : List Char :=
  body.flatMap fun c => if c = quote.char || c = '\\' then ['\\', c] else [c]

theorem eq_or_eq (quote : Quote) : quote.char = '\'' ∨ quote.char = '"' := by
  cases quote with
  | single => exact .inl rfl
  | double => exact .inr rfl

theorem quoted_escaped (quote : Quote) (body : List Char) :
    Quoted quote.char body (quote.escaped body) := by
  induction body with
  | nil => exact .nil
  | cons c body ih =>
      rw [escaped, List.flatMap_cons]
      split
      · exact .escaped c ih
      · rename_i hPlain
        simp only [Bool.or_eq_true, decide_eq_true_eq, not_or] at hPlain
        exact .plain hPlain.1 hPlain.2 ih

end Quote

/-- What can be written for one token. The digits of an integer are not more than are read, and a name
is none of the words that stand for values. -/
inductive Word where
  | text (quote : Quote) (s : String)
  | int (n : Int) (hCount : (Value.int n).isWritable = true)
  | bool (b : Bool)
  | null
  | name (s : String) (hName : IsName s)
  | relation (r : Relation)
  | and
  | or
  | not
  | dot
  | opening
  | closing

namespace Word

def token : Word → Token
  | .text _ s => .text s
  | .int n _ => .int n
  | .bool b => .bool b
  | .null => .null
  | .name s _ => .ident s
  | .relation r => .relation r
  | .and => .and
  | .or => .or
  | .not => .not
  | .dot => .dot
  | .opening => .opening
  | .closing => .closing

def spelling : Word → String
  | .text quote s => String.ofList (quote.char :: (quote.escaped s.toList ++ [quote.char]))
  | .int n _ => toString n
  | .bool b => if b then "true" else "false"
  | .null => "null"
  | .name s _ => s
  | .relation r => r.spelling
  | .and => "&&"
  | .or => "||"
  | .not => "!"
  | .dot => "."
  | .opening => "("
  | .closing => ")"

/-- A line of words, with a blank between each and the next. -/
def line (words : List Word) : String := " ".intercalate (words.map spelling)

section Scanned

variable {rest : List Char} (hApart : Apart rest)
include hApart

theorem scan_int {n : Int} (hCount : (Value.int n).isWritable = true) :
    Token.scan ((toString n).toList ++ rest) = .int n :: Token.scan rest := by
  rw [Value.isWritable_int_iff] at hCount
  have hDigits : ∀ c ∈ Nat.toDigits 10 n.natAbs, Text.isAsciiDigit c = true :=
    fun _ => Text.isAsciiDigit_of_mem_toDigits
  have hSpelled := Text.decimalValue_toDigits n.natAbs
  rw [Text.toList_toString]
  split
  · rename_i hSign
    cases hShape : Nat.toDigits 10 n.natAbs with
    | nil => exact absurd hShape Nat.toDigits_ne_nil
    | cons digit digits =>
        rw [hShape] at hDigits hCount hSpelled
        rw [List.cons_append,
          Token.scan_of_first (Token.first_natural hDigits hCount hApart.ends_number), hSpelled,
          Int.natAbs_of_nonneg hSign]
  · have hAbs : -(n.natAbs : Int) = n := by omega
    rw [List.cons_append, Token.scan_of_first
      (Token.first_negative Nat.toDigits_ne_nil hDigits hCount hApart.ends_number), hSpelled, hAbs]

theorem scan_relation (r : Relation) :
    Token.scan (r.spelling.toList ++ rest) = .relation r :: Token.scan rest := by
  cases r with
  | eq | ne | le | ge => exact Token.scan_of_first rfl
  | lt => exact Token.scan_single rfl rfl (hApart.ends_operator (by decide) (by decide))
  | gt => exact Token.scan_single rfl rfl (hApart.ends_operator (by decide) (by decide))

/-- A word is scanned as its token where it stands apart from what follows. -/
theorem scan_spelling (w : Word) :
    Token.scan (w.spelling.toList ++ rest) = w.token :: Token.scan rest := by
  cases w with
  | text quote s =>
      have hFirst := Token.first_text quote.eq_or_eq (quote.quoted_escaped s.toList) rest
      rw [String.ofList_toList] at hFirst
      rw [spelling, String.toList_ofList, List.cons_append, List.append_assoc, List.singleton_append,
        Token.scan_of_first hFirst]
      rfl
  | int n hCount => exact scan_int hApart hCount
  | bool b =>
      cases b with
      | true =>
          show Token.scan ("true".toList ++ rest) = .bool true :: Token.scan rest
          exact Token.scan_word (by rfl) (by rfl) (List.all_eq_true.mp rfl) hApart.ends_name
      | false =>
          show Token.scan ("false".toList ++ rest) = .bool false :: Token.scan rest
          exact Token.scan_word (by rfl) (by rfl) (List.all_eq_true.mp rfl) hApart.ends_name
  | null =>
      show Token.scan ("null".toList ++ rest) = .null :: Token.scan rest
      exact Token.scan_word (by rfl) (by rfl) (List.all_eq_true.mp rfl) hApart.ends_name
  | name s hName => exact Token.scan_name hName hApart.ends_name
  | relation r => exact scan_relation hApart r
  | and => exact Token.scan_of_first rfl
  | or => exact Token.scan_of_first rfl
  | not => exact Token.scan_single rfl rfl (hApart.ends_operator (by decide) (by decide))
  | dot => exact Token.scan_single rfl rfl (hApart.ends_operator (by decide) (by decide))
  | opening => exact Token.scan_single rfl rfl (hApart.ends_operator (by decide) (by decide))
  | closing => exact Token.scan_single rfl rfl (hApart.ends_operator (by decide) (by decide))

end Scanned

/-- A line of words is scanned as their tokens. -/
theorem ofText_line (words : List Word) : Token.ofText (line words) = words.map token := by
  unfold Token.ofText line
  induction words with
  | nil => rw [List.map_nil, String.intercalate_nil, String.toList_empty, Token.scan_nil, List.map_nil]
  | cons w words ih =>
      cases words with
      | nil =>
          have hApart : Apart [] := nofun
          have hScan := w.scan_spelling hApart
          rw [List.append_nil, Token.scan_nil] at hScan
          rw [List.map_singleton, String.intercalate_singleton, hScan, List.map_singleton]
      | cons next words =>
          have hBlank : ∀ c ∈ [' '], Text.isBlank c = true := List.all_eq_true.mp rfl
          have hSpace : " ".toList = [' '] := rfl
          have hApart : Apart ([' '] ++ (" ".intercalate ((next :: words).map spelling)).toList) := by
            rintro c ⟨⟩
            rfl
          rw [List.map_cons, List.map_cons, String.intercalate_cons_cons, ← List.map_cons,
            String.toList_append, String.toList_append, hSpace, List.append_assoc,
            w.scan_spelling hApart, Token.scan_blanks hBlank, ih]
          rfl

section Produced

/-- A token that is a double or that of a word. -/
def Covered (t : Token) : Prop := ∃ part : Float ⊕ Word, Sum.elim .real token part = t

theorem covered_ofNumeral (negative : Bool) {cs : List Char}
    (hChars : ∀ c ∈ cs, Token.isNumberChar c = true) : Covered (Token.ofNumeral negative cs) := by
  unfold Token.ofNumeral
  split
  · split
    · exact ⟨.inl _, rfl⟩
    · exact ⟨.inl _, rfl⟩
  split
  · exact ⟨.inl _, rfl⟩
  · rename_i hPoint hCount
    have hDigits : ∀ c ∈ cs, Text.isAsciiDigit c = true := by
      intro c hMem
      rcases isNumberChar_iff.mp (hChars c hMem) with hDigit | hDot
      · exact hDigit
      · have hSame : c = '.' := Char.toNat_inj.mp hDot
        exact absurd (List.contains_iff_mem.mpr (hSame ▸ hMem)) hPoint
    have hWritable := isWritable_decimalValue hDigits (Nat.le_of_not_lt hCount)
    cases negative with
    | false => exact ⟨.inr (.int _ hWritable), rfl⟩
    | true => exact ⟨.inr (.int _ ((Value.isWritable_neg _).trans hWritable)), rfl⟩

theorem covered_ofName {c : Char} {cs : List Char} (hStart : Token.isIdentStart c = true)
    (hChars : ∀ d ∈ cs, Token.isIdentChar d = true) :
    Covered (Token.ofName (String.ofList (c :: cs))) := by
  unfold Token.ofName
  split
  · exact ⟨.inr (.bool true), rfl⟩
  split
  · exact ⟨.inr (.bool false), rfl⟩
  split
  · exact ⟨.inr .null, rfl⟩
  · rename_i hTrue hFalse hNull
    simp only [Bool.or_eq_true, decide_eq_true_eq, not_or] at hNull
    refine ⟨.inr (.name _ ⟨⟨c, cs, String.toList_ofList, hStart, hChars⟩, ?_⟩), rfl⟩
    simp only [List.mem_cons, List.not_mem_nil, or_false, not_or]
    exact ⟨hTrue, hFalse, hNull⟩

theorem covered_pair {c d : Char} {t : Token} (h : Token.pair? c d = some t) : Covered t := by
  unfold Token.pair? at h
  split at h
  · exact ⟨.inr (.relation .eq), Option.some.inj h⟩
  · exact ⟨.inr (.relation .ne), Option.some.inj h⟩
  · exact ⟨.inr (.relation .ge), Option.some.inj h⟩
  · exact ⟨.inr (.relation .le), Option.some.inj h⟩
  · exact ⟨.inr .and, Option.some.inj h⟩
  · exact ⟨.inr .or, Option.some.inj h⟩
  · cases h

theorem covered_single {c : Char} {t : Token} (h : Token.single? c = some t) : Covered t := by
  unfold Token.single? at h
  split at h
  · exact ⟨.inr (.relation .gt), Option.some.inj h⟩
  · exact ⟨.inr (.relation .lt), Option.some.inj h⟩
  · exact ⟨.inr .not, Option.some.inj h⟩
  · exact ⟨.inr .dot, Option.some.inj h⟩
  · exact ⟨.inr .opening, Option.some.inj h⟩
  · exact ⟨.inr .closing, Option.some.inj h⟩
  · cases h

theorem covered_symbolOrName {c : Char} {cs : List Char} {t : Token}
    (h : (Token.symbolOrName c cs).1 = some t) : Covered t := by
  unfold Token.symbolOrName at h
  split at h
  · rename_i hSingle
    exact Option.some.inj h ▸ covered_single hSingle
  split at h
  · rename_i hStart
    exact Option.some.inj h ▸ covered_ofName hStart (List.all_eq_true.mp List.all_takeWhile)
  · cases h

theorem covered_first {c : Char} {cs : List Char} {t : Token}
    (h : (Token.first c cs).1 = some t) : Covered t := by
  have hRun : ∀ d ∈ cs.takeWhile Token.isNumberChar, Token.isNumberChar d = true :=
    List.all_eq_true.mp List.all_takeWhile
  unfold Token.first at h
  split at h
  · cases h
  split at h
  · exact ⟨.inr (.text .single _), Option.some.inj h⟩
  split at h
  · rename_i hDigit
    exact Option.some.inj h ▸ covered_ofNumeral false
      (List.forall_mem_cons.mpr ⟨numberChar_of_digit hDigit, hRun⟩)
  split at h
  · exact Option.some.inj h ▸ covered_ofNumeral true hRun
  split at h
  · exact covered_symbolOrName h
  split at h
  · rename_i hPair
    exact Option.some.inj h ▸ covered_pair hPair
  · exact covered_symbolOrName h

/-- Each token that is scanned is a double or that of a word. -/
theorem covered_of_mem_scan {cs : List Char} {t : Token} (h : t ∈ Token.scan cs) : Covered t := by
  induction cs using Token.scan.induct with
  | case1 =>
      rw [Token.scan_nil] at h
      cases h
  | case2 c cs ih =>
      rw [Token.scan_cons, List.mem_append] at h
      rcases h with hFirst | hLater
      · exact covered_first (Option.mem_toList.mp hFirst)
      · exact ih hLater

end Produced

end Word

/-- Scanning undoes writing: a line of words is scanned as the tokens that they are written for. These
are all there are besides doubles. -/
theorem words_scanned :
    (∀ words : List Word, Token.ofText (Word.line words) = words.map Word.token) ∧
      ∀ s, ∃ parts : List (Float ⊕ Word), Token.ofText s = parts.map (Sum.elim .real Word.token) := by
  refine ⟨Word.ofText_line, fun s => ?_⟩
  have hRange : Token.ofText s ∈ Set.range (List.map (Sum.elim .real Word.token)) := by
    rw [Set.range_list_map]
    exact fun t hMem => Word.covered_of_mem_scan hMem
  obtain ⟨parts, hParts⟩ := hRange
  exact ⟨parts, hParts.symm⟩

end StepFlow.Expr
