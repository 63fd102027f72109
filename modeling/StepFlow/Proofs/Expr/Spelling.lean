import Mathlib.Data.List.TakeWhile
import StepFlow.Expr.Token.Describe
import StepFlow.Proofs.Expr.Phrase
import StepFlow.Proofs.Text.Decimal
import StepFlow.Proofs.Text.Trim

/-! Expressions as they are written: the spellings of an item, and items with blanks between them.
Scanning what is written gives the tokens of what is meant. -/
namespace StepFlow.Expr

open Text (isAsciiDigit_iff trimRight_append trimRight_blanks trim_eq)

/-- A text between quotes. Any character may be escaped, a quote or a backslash has to be. -/
inductive Quoted (quote : Char) : List Char → List Char → Prop where
  | nil : Quoted quote [] []
  | plain {c : Char} {body written : List Char} (hQuote : c ≠ quote) (hEscape : c ≠ '\\')
      (h : Quoted quote body written) : Quoted quote (c :: body) (c :: written)
  | escaped (c : Char) {body written : List Char} (h : Quoted quote body written) :
      Quoted quote (c :: body) ('\\' :: c :: written)

/-- The names that paths can be made of. -/
structure IsName (name : String) : Prop where
  shape : ∃ c cs, name.toList = c :: cs ∧ Token.isIdentStart c = true ∧
    ∀ d ∈ cs, Token.isIdentChar d = true
  free : name ∉ ["true", "false", "null", "undefined"]

/-- Further names behind their dots. Blanks may stand on either side of a dot. -/
inductive Dotted : List String → List Char → Prop where
  | nil : Dotted [] []
  | cons {before behind cs : List Char} {name : String} {names : List String}
      (hBefore : ∀ c ∈ before, Text.isBlank c = true)
      (hBehind : ∀ c ∈ behind, Text.isBlank c = true) (hName : IsName name)
      (hRest : Dotted names cs) :
      Dotted (name :: names) (before ++ '.' :: (behind ++ (name.toList ++ cs)))

/-- The ways to write an item. -/
inductive Item.Spelled : Item Operand → List Char → Prop where
  | text {quote : Char} {body written : List Char} (hQuote : quote = '\'' ∨ quote = '"')
      (h : Quoted quote body written) :
      Spelled (.operand (.literal (.text (String.ofList body)))) (quote :: (written ++ [quote]))
  | natural {digits : List Char} (hSome : digits ≠ [])
      (hDigits : ∀ c ∈ digits, Text.isAsciiDigit c = true)
      (hCount : digits.length ≤ Number.digitLimit) :
      Spelled (.operand (.literal (.int (Text.decimalValue digits)))) digits
  | negative {digits : List Char} (hSome : digits ≠ [])
      (hDigits : ∀ c ∈ digits, Text.isAsciiDigit c = true)
      (hCount : digits.length ≤ Number.digitLimit) :
      Spelled (.operand (.literal (.int (-(Text.decimalValue digits : Int))))) ('-' :: digits)
  | trueWord : Spelled (.operand (.literal (.bool true))) "true".toList
  | falseWord : Spelled (.operand (.literal (.bool false))) "false".toList
  | nullWord : Spelled (.operand (.literal .null)) "null".toList
  | undefinedWord : Spelled (.operand (.literal .null)) "undefined".toList
  | path {name : String} {names : List String} {cs : List Char} (hName : IsName name)
      (hRest : Dotted names cs) : Spelled (.operand (.path name names)) (name.toList ++ cs)
  | relation (r : Relation) : Spelled (.relation r) r.spelling.toList
  | and : Spelled .and ['&', '&']
  | or : Spelled .or ['|', '|']
  | not : Spelled .not ['!']
  | opening : Spelled .opening ['(']
  | closing : Spelled .closing [')']

/-- A list of characters is empty or begins with a blank. -/
def Apart (cs : List Char) : Prop := ∀ c, cs.head? = some c → Text.isBlank c = true

/-- Items in a line, each apart from the next one. -/
inductive Laid : List (Item Operand) → List Char → Prop where
  | nil {blanks : List Char} (hBlanks : ∀ c ∈ blanks, Text.isBlank c = true) : Laid [] blanks
  | cons {item : Item Operand} {items : List (Item Operand)} {blanks written rest : List Char}
      (hBlanks : ∀ c ∈ blanks, Text.isBlank c = true) (hFirst : item.Spelled written)
      (hApart : Apart rest) (hRest : Laid items rest) :
      Laid (item :: items) (blanks ++ (written ++ rest))

/-- A text is a way to write a tree. Parentheses may be more than are needed. -/
def Written (text : String) (e : Expr Operand) : Prop :=
  ∃ items, Sentence .or items e ∧ Laid items text.toList

section Characters

theorem isIdentStart_iff {c : Char} :
    Token.isIdentStart c = true ↔
      (97 ≤ c.toNat ∧ c.toNat ≤ 122) ∨ (65 ≤ c.toNat ∧ c.toNat ≤ 90) ∨ c.toNat = 95 := by
  have hUnderscore : c = '_' ↔ c.toNat = 95 := by
    rw [← Char.toNat_inj]
    rfl
  simp [Token.isIdentStart, Char.le_def, UInt32.le_iff_toNat_le, hUnderscore, or_assoc]

theorem isIdentChar_iff {c : Char} :
    Token.isIdentChar c = true ↔
      Token.isIdentStart c = true ∨ Text.isAsciiDigit c = true ∨ c.toNat = 45 := by
  have hMinus : c = '-' ↔ c.toNat = 45 := by
    rw [← Char.toNat_inj]
    rfl
  simp [Token.isIdentChar, hMinus, or_assoc]

theorem isNumberChar_iff {c : Char} :
    Token.isNumberChar c = true ↔ Text.isAsciiDigit c = true ∨ c.toNat = 46 := by
  have hPoint : c = '.' ↔ c.toNat = 46 := by
    rw [← Char.toNat_inj]
    rfl
  simp [Token.isNumberChar, hPoint]

/-- Blanks are no part of a name or a number. -/
theorem not_blank_of_identChar {c : Char} (h : Token.isIdentChar c = true) :
    Text.isBlank c = false := by
  rw [isIdentChar_iff, isIdentStart_iff, isAsciiDigit_iff] at h
  unfold Text.isBlank Text.isWhiteSpace
  simp only [Bool.or_eq_false_iff, Bool.and_eq_false_iff, decide_eq_false_iff_not, beq_eq_false_iff_ne]
  omega

theorem not_blank_of_numberChar {c : Char} (h : Token.isNumberChar c = true) :
    Text.isBlank c = false := by
  rw [isNumberChar_iff, isAsciiDigit_iff] at h
  unfold Text.isBlank Text.isWhiteSpace
  simp only [Bool.or_eq_false_iff, Bool.and_eq_false_iff, decide_eq_false_iff_not, beq_eq_false_iff_ne]
  omega

theorem numberChar_of_digit {c : Char} (h : Text.isAsciiDigit c = true) :
    Token.isNumberChar c = true := isNumberChar_iff.mpr (.inl h)

theorem identChar_of_blank {c : Char} (hBlank : Text.isBlank c = true) :
    Token.isIdentChar c = false := by
  cases hChar : Token.isIdentChar c with
  | false => rfl
  | true =>
      rw [not_blank_of_identChar hChar] at hBlank
      cases hBlank

theorem numberChar_of_blank {c : Char} (hBlank : Text.isBlank c = true) :
    Token.isNumberChar c = false := by
  cases hChar : Token.isNumberChar c with
  | false => rfl
  | true =>
      rw [not_blank_of_numberChar hChar] at hBlank
      cases hBlank

/-- What stands apart goes on with no name, no number and no operator. -/
theorem Apart.ends_name {rest : List Char} (hApart : Apart rest) :
    ∀ d, rest.head? = some d → Token.isIdentChar d = false :=
  fun d hHead => identChar_of_blank (hApart d hHead)

theorem Apart.ends_number {rest : List Char} (hApart : Apart rest) :
    ∀ d, rest.head? = some d → Token.isNumberChar d = false :=
  fun d hHead => numberChar_of_blank (hApart d hHead)

theorem Apart.ends_operator {rest : List Char} (hApart : Apart rest) {c : Char} (hAnd : c ≠ '&')
    (hOr : c ≠ '|') : ∀ d, rest.head? = some d → Token.pair? c d = none := by
  intro d hHead
  have hBlank := hApart d hHead
  unfold Token.pair?
  split
  · cases hBlank
  · cases hBlank
  · cases hBlank
  · cases hBlank
  · exact absurd rfl hAnd
  · exact absurd rfl hOr
  · rfl

/-- A run that is not continued is taken as a whole. -/
theorem takeWhile_run {p : Char → Bool} {run rest : List Char} (hRun : ∀ c ∈ run, p c = true)
    (hEnd : ∀ c, rest.head? = some c → p c = false) :
    (run ++ rest).takeWhile p = run ∧ (run ++ rest).dropWhile p = rest := by
  rw [List.takeWhile_append_of_pos hRun, List.dropWhile_append_of_pos hRun]
  cases rest with
  | nil => simp
  | cons c rest =>
      have hHead := hEnd c rfl
      simp [hHead]

end Characters

namespace Token

theorem scan_nil : scan [] = [] := by rw [scan.eq_def]

theorem scan_cons (c : Char) (cs : List Char) :
    scan (c :: cs) = (first c cs).1.toList ++ scan (first c cs).2 := by
  rw [scan.eq_def]

theorem scan_of_first {c : Char} {cs rest : List Char} {t : Token}
    (h : first c cs = (some t, rest)) : scan (c :: cs) = t :: scan rest := by
  rw [scan_cons, h]
  rfl

theorem scan_blanks {blanks : List Char} (hBlanks : ∀ c ∈ blanks, Text.isBlank c = true)
    (cs : List Char) : scan (blanks ++ cs) = scan cs := by
  induction blanks with
  | nil => rfl
  | cons c blanks ih =>
      have hFirst : first c (blanks ++ cs) = (none, blanks ++ cs) := by
        unfold first
        rw [if_pos (hBlanks c List.mem_cons_self)]
      rw [List.cons_append, scan_cons, hFirst]
      exact ih fun d hMem => hBlanks d (List.mem_cons_of_mem _ hMem)

theorem quotedBody_of_quoted {quote : Char} {body written : List Char} (hQuote : quote ≠ '\\')
    (h : Quoted quote body written) (rest : List Char) :
    quotedBody quote (written ++ quote :: rest) = (body, rest) := by
  induction h with
  | nil =>
      cases rest with
      | nil => simp [quotedBody]
      | cons d rest => simp [quotedBody]
  | @plain c body written hPlain hEscape _ ih =>
      cases hTail : written ++ quote :: rest with
      | nil => simp at hTail
      | cons d tail =>
          rw [hTail] at ih
          rw [List.cons_append, hTail, quotedBody, if_neg hPlain, if_neg hEscape, ih]
  | @escaped c body written _ ih =>
      rw [List.cons_append, List.cons_append, quotedBody, if_neg (Ne.symm hQuote), if_pos rfl, ih]

theorem first_text {quote : Char} {body written : List Char}
    (hQuote : quote = '\'' ∨ quote = '"') (h : Quoted quote body written) (rest : List Char) :
    first quote (written ++ quote :: rest) = (some (.text (String.ofList body)), rest) := by
  have hBlank : Text.isBlank quote = false := by
    rcases hQuote with rfl | rfl
    · rfl
    · rfl
  have hEscape : quote ≠ '\\' := by
    rcases hQuote with rfl | rfl
    · decide
    · decide
  have hEither : (quote = '\'' || quote = '"') = true := by simpa using hQuote
  unfold first
  rw [hBlank, if_neg (by simp), if_pos hEither, quotedBody_of_quoted hEscape h]

/-- The digits of an integer spell it. -/
theorem ofNumeral_digits (negative : Bool) {digits : List Char}
    (hDigits : ∀ c ∈ digits, Text.isAsciiDigit c = true)
    (hCount : digits.length ≤ Number.digitLimit) :
    ofNumeral negative digits =
      .int (if negative then -(Text.decimalValue digits : Int) else Text.decimalValue digits) := by
  have hPoint : digits.contains '.' = false := by
    rw [List.contains_eq_mem, decide_eq_false_iff_not]
    intro hMem
    have hDigit := hDigits _ hMem
    cases hDigit
  unfold ofNumeral
  rw [hPoint, if_neg (by simp), if_neg (by omega)]

theorem first_natural {digit : Char} {digits rest : List Char}
    (hDigits : ∀ c ∈ digit :: digits, Text.isAsciiDigit c = true)
    (hCount : (digit :: digits).length ≤ Number.digitLimit)
    (hEnd : ∀ c, rest.head? = some c → isNumberChar c = false) :
    first digit (digits ++ rest) =
      (some (.int (Text.decimalValue (digit :: digits))), rest) := by
  have hDigit := hDigits digit List.mem_cons_self
  have hBlank := not_blank_of_numberChar (numberChar_of_digit hDigit)
  have hRun : ∀ c ∈ digits, isNumberChar c = true := fun c hMem =>
    numberChar_of_digit (hDigits c (List.mem_cons_of_mem _ hMem))
  have hQuote : ¬ (digit = '\'' || digit = '"') = true := by
    intro hQuote
    simp only [Bool.or_eq_true, decide_eq_true_eq] at hQuote
    rcases hQuote with rfl | rfl
    · cases hDigit
    · cases hDigit
  obtain ⟨hTake, hDrop⟩ := takeWhile_run hRun hEnd
  unfold first
  rw [hBlank, if_neg (by simp), if_neg hQuote, if_pos hDigit, hTake, hDrop,
    ofNumeral_digits false hDigits hCount]
  rfl

theorem first_negative {digits rest : List Char} (hSome : digits ≠ [])
    (hDigits : ∀ c ∈ digits, Text.isAsciiDigit c = true)
    (hCount : digits.length ≤ Number.digitLimit)
    (hEnd : ∀ c, rest.head? = some c → isNumberChar c = false) :
    first '-' (digits ++ rest) = (some (.int (-(Text.decimalValue digits : Int))), rest) := by
  have hRun : ∀ c ∈ digits, isNumberChar c = true := fun c hMem => numberChar_of_digit (hDigits c hMem)
  have hHead : ('-' = '-' && ((digits ++ rest).head?.map Text.isAsciiDigit).getD false) = true := by
    cases digits with
    | nil => exact absurd rfl hSome
    | cons digit digits => simp [hDigits digit List.mem_cons_self]
  obtain ⟨hTake, hDrop⟩ := takeWhile_run hRun hEnd
  unfold first
  rw [if_neg (by decide), if_neg (by decide), if_neg (by decide), if_pos hHead, hTake, hDrop,
    ofNumeral_digits true hDigits hCount]
  rfl

/-- A name begins like no other token. -/
theorem ne_of_start {c d : Char} (hStart : isIdentStart c = true) (hOther : isIdentStart d = false) :
    c ≠ d := by
  rintro rfl
  rw [hOther] at hStart
  cases hStart

theorem pair?_of_start {c : Char} (hStart : isIdentStart c = true) (d : Char) : pair? c d = none := by
  unfold pair?
  split
  · exact absurd rfl (ne_of_start hStart rfl)
  · exact absurd rfl (ne_of_start hStart rfl)
  · exact absurd rfl (ne_of_start hStart rfl)
  · exact absurd rfl (ne_of_start hStart rfl)
  · exact absurd rfl (ne_of_start hStart rfl)
  · exact absurd rfl (ne_of_start hStart rfl)
  · rfl

theorem single?_of_start {c : Char} (hStart : isIdentStart c = true) : single? c = none := by
  unfold single?
  split
  · exact absurd rfl (ne_of_start hStart rfl)
  · exact absurd rfl (ne_of_start hStart rfl)
  · exact absurd rfl (ne_of_start hStart rfl)
  · exact absurd rfl (ne_of_start hStart rfl)
  · exact absurd rfl (ne_of_start hStart rfl)
  · exact absurd rfl (ne_of_start hStart rfl)
  · rfl

theorem symbolOrName_name {c : Char} {cs rest : List Char} (hStart : isIdentStart c = true)
    (hChars : ∀ d ∈ cs, isIdentChar d = true)
    (hEnd : ∀ d, rest.head? = some d → isIdentChar d = false) :
    symbolOrName c (cs ++ rest) = (some (ofName (String.ofList (c :: cs))), rest) := by
  obtain ⟨hTake, hDrop⟩ := takeWhile_run hChars hEnd
  unfold symbolOrName
  rw [single?_of_start hStart]
  simp only
  rw [if_pos hStart, hTake, hDrop]

/-- A name is neither a number nor an operator nor a text. -/
theorem first_name {c : Char} {cs rest : List Char} (hStart : isIdentStart c = true)
    (hChars : ∀ d ∈ cs, isIdentChar d = true)
    (hEnd : ∀ d, rest.head? = some d → isIdentChar d = false) :
    first c (cs ++ rest) = (some (ofName (String.ofList (c :: cs))), rest) := by
  have hBlank := not_blank_of_identChar (isIdentChar_iff.mpr (.inl hStart))
  have hDigit : ¬ Text.isAsciiDigit c = true := by
    rw [isAsciiDigit_iff]
    rw [isIdentStart_iff] at hStart
    omega
  have hSingleQuote : c ≠ '\'' := ne_of_start hStart rfl
  have hDoubleQuote : c ≠ '"' := ne_of_start hStart rfl
  have hMinus : c ≠ '-' := ne_of_start hStart rfl
  have hName := symbolOrName_name hStart hChars hEnd
  unfold first
  rw [hBlank, if_neg (by simp), if_neg (by simp [hSingleQuote, hDoubleQuote]), if_neg hDigit,
    if_neg (by simp [hMinus])]
  cases hRest : cs ++ rest with
  | nil => simpa [hRest] using hName
  | cons d after =>
      rw [hRest] at hName
      simp only [pair?_of_start hStart]
      exact hName

theorem scan_name {name : String} (hName : IsName name) {rest : List Char}
    (hEnd : ∀ d, rest.head? = some d → isIdentChar d = false) :
    scan (name.toList ++ rest) = .ident name :: scan rest := by
  obtain ⟨c, cs, hShape, hStart, hChars⟩ := hName.shape
  have hFree := hName.free
  simp only [List.mem_cons, List.not_mem_nil, or_false, not_or] at hFree
  have hOf : String.ofList (c :: cs) = name := by rw [← hShape, String.ofList_toList]
  rw [hShape, List.cons_append, scan_of_first (first_name hStart hChars hEnd), hOf]
  simp [ofName, hFree]

/-- The four words are read as names are. -/
theorem scan_word {word : String} {c : Char} {cs rest : List Char} (hWord : word.toList = c :: cs)
    (hStart : isIdentStart c = true) (hChars : ∀ d ∈ cs, isIdentChar d = true)
    (hEnd : ∀ d, rest.head? = some d → isIdentChar d = false) :
    scan (word.toList ++ rest) = ofName word :: scan rest := by
  have hOf : String.ofList (c :: cs) = word := by rw [← hWord, String.ofList_toList]
  rw [hWord, List.cons_append, scan_of_first (first_name hStart hChars hEnd), hOf]

/-- An operator of one character is told from a longer one by what follows it. -/
theorem first_single {c : Char} {t : Token} {rest : List Char}
    (hKind : (Text.isBlank c || c = '\'' || c = '"' || Text.isAsciiDigit c || c = '-') = false)
    (hSingle : single? c = some t) (hPair : ∀ d, rest.head? = some d → pair? c d = none) :
    first c rest = (some t, rest) := by
  simp only [Bool.or_eq_false_iff, decide_eq_false_iff_not] at hKind
  obtain ⟨⟨⟨⟨hBlank, hQuote⟩, hQuotes⟩, hDigit⟩, hMinus⟩ := hKind
  have hSymbol : ∀ cs, symbolOrName c cs = (some t, cs) := by
    intro cs
    unfold symbolOrName
    rw [hSingle]
  unfold first
  rw [hBlank, hDigit, if_neg (by simp), if_neg (by simp [hQuote, hQuotes]), if_neg (by simp),
    if_neg (by simp [hMinus])]
  cases rest with
  | nil => exact hSymbol []
  | cons d rest =>
      simp only [hPair d rfl]
      exact hSymbol _

theorem scan_single {c : Char} {t : Token} {rest : List Char}
    (hKind : (Text.isBlank c || c = '\'' || c = '"' || Text.isAsciiDigit c || c = '-') = false)
    (hSingle : single? c = some t) (hPair : ∀ d, rest.head? = some d → pair? c d = none) :
    scan (c :: rest) = t :: scan rest := scan_of_first (first_single hKind hSingle hPair)

end Token

/-- Names and their dots are scanned one by one. -/
theorem Dotted.scan {names : List String} {cs : List Char} (h : Dotted names cs) {rest : List Char}
    (hApart : Apart rest) :
    (∀ d, (cs ++ rest).head? = some d → Token.isIdentChar d = false) ∧
      Token.scan (cs ++ rest) = dotted names ++ Token.scan rest := by
  induction h with
  | nil => exact ⟨hApart.ends_name, rfl⟩
  | @cons before behind cs name names hBefore hBehind hName _ ih =>
      obtain ⟨hEnd, hScan⟩ := ih
      have hDot : Token.scan ('.' :: (behind ++ (name.toList ++ (cs ++ rest)))) =
          .dot :: .ident name :: (dotted names ++ Token.scan rest) := by
        rw [Token.scan_single rfl rfl fun _ _ => rfl, Token.scan_blanks hBehind,
          Token.scan_name hName hEnd, hScan]
      refine ⟨?_, ?_⟩
      · intro d hHead
        cases before with
        | nil =>
            cases hHead
            rfl
        | cons b before =>
            cases hHead
            exact identChar_of_blank (hBefore d List.mem_cons_self)
      · simp only [List.append_assoc, List.cons_append]
        rw [Token.scan_blanks hBefore, hDot]
        rfl

/-- An item is scanned as the tokens that show it. -/
theorem Item.Spelled.scan {item : Item Operand} {written : List Char} (h : item.Spelled written)
    {rest : List Char} (hApart : Apart rest) :
    ∃ ts, item.Shown ts ∧ Token.scan (written ++ rest) = ts ++ Token.scan rest := by
  cases h with
  | @text quote body written hQuote hQuoted =>
      refine ⟨[.text (String.ofList body)], .literal rfl, ?_⟩
      have hFirst := Token.first_text hQuote hQuoted rest
      rw [List.cons_append, List.append_assoc, List.singleton_append,
        Token.scan_of_first hFirst]
      rfl
  | natural hSome hDigits hCount =>
      refine ⟨[.int (Text.decimalValue written)], .literal rfl, ?_⟩
      cases written with
      | nil => exact absurd rfl hSome
      | cons digit digits =>
          exact Token.scan_of_first (Token.first_natural hDigits hCount hApart.ends_number)
  | @negative digits hSome hDigits hCount =>
      refine ⟨[.int (-(Text.decimalValue digits : Int))], .literal rfl, ?_⟩
      exact Token.scan_of_first (Token.first_negative hSome hDigits hCount hApart.ends_number)
  | trueWord =>
      refine ⟨[.bool true], .literal rfl, ?_⟩
      exact Token.scan_word (by rfl) (by rfl) (List.all_eq_true.mp rfl) hApart.ends_name
  | falseWord =>
      refine ⟨[.bool false], .literal rfl, ?_⟩
      exact Token.scan_word (by rfl) (by rfl) (List.all_eq_true.mp rfl) hApart.ends_name
  | nullWord =>
      refine ⟨[.null], .literal rfl, ?_⟩
      exact Token.scan_word (by rfl) (by rfl) (List.all_eq_true.mp rfl) hApart.ends_name
  | undefinedWord =>
      refine ⟨[.null], .literal rfl, ?_⟩
      exact Token.scan_word (by rfl) (by rfl) (List.all_eq_true.mp rfl) hApart.ends_name
  | @path name names cs hName hRest =>
      obtain ⟨hEnd, hScan⟩ := hRest.scan hApart
      refine ⟨_, .path name names, ?_⟩
      rw [List.append_assoc, Token.scan_name hName hEnd, hScan]
      rfl
  | relation r =>
      refine ⟨[.relation r], .relation r, ?_⟩
      cases r with
      | eq | ne | le | ge => exact Token.scan_of_first rfl
      | lt =>
          change Token.scan ('<' :: rest) = .relation .lt :: Token.scan rest
          exact Token.scan_single rfl rfl (hApart.ends_operator (by decide) (by decide))
      | gt =>
          change Token.scan ('>' :: rest) = .relation .gt :: Token.scan rest
          exact Token.scan_single rfl rfl (hApart.ends_operator (by decide) (by decide))
  | and => exact ⟨[.and], .and, Token.scan_of_first rfl⟩
  | or => exact ⟨[.or], .or, Token.scan_of_first rfl⟩
  | not =>
      exact ⟨[.not], .not,
        Token.scan_single rfl rfl (hApart.ends_operator (by decide) (by decide))⟩
  | opening => exact ⟨[.opening], .opening, Token.scan_single rfl rfl fun _ _ => rfl⟩
  | closing => exact ⟨[.closing], .closing, Token.scan_single rfl rfl fun _ _ => rfl⟩

/-- Items in a line are scanned as the tokens that show them. -/
theorem Laid.scan {items : List (Item Operand)} {cs : List Char} (h : Laid items cs) :
    ∃ tokens, Shows tokens items ∧ Token.scan cs = tokens := by
  induction h with
  | @nil blanks hBlanks =>
      refine ⟨[], .nil, ?_⟩
      have hScan := Token.scan_blanks hBlanks []
      rw [List.append_nil] at hScan
      rw [hScan, Token.scan_nil]
  | @cons item items blanks written rest hBlanks hFirst hApart _ ih =>
      obtain ⟨ts, hShown, hScan⟩ := hFirst.scan hApart
      obtain ⟨us, hShows, hRest⟩ := ih
      refine ⟨ts ++ us, .cons hShown hShows, ?_⟩
      rw [Token.scan_blanks hBlanks, hScan, hRest]

section Trimmed

theorem IsName.last {name : String} (h : IsName name) :
    ∃ before c, name.toList = before ++ [c] ∧ Text.isBlank c = false := by
  obtain ⟨c, cs, hShape, hStart, hChars⟩ := h.shape
  have hAll : ∀ d ∈ c :: cs, Text.isBlank d = false := by
    intro d hMem
    rcases List.mem_cons.mp hMem with rfl | hMem
    · exact not_blank_of_identChar (isIdentChar_iff.mpr (.inl hStart))
    · exact not_blank_of_identChar (hChars d hMem)
  refine ⟨(c :: cs).dropLast, (c :: cs).getLast (by simp), ?_, ?_⟩
  · rw [hShape, List.dropLast_concat_getLast]
  · exact hAll _ (List.getLast_mem _)

theorem Dotted.last {names : List String} {cs : List Char} (h : Dotted names cs) :
    cs = [] ∨ ∃ before c, cs = before ++ [c] ∧ Text.isBlank c = false := by
  induction h with
  | nil => exact .inl rfl
  | @cons before behind cs name names _ _ hName _ ih =>
      right
      rcases ih with rfl | ⟨front, c, rfl, hLast⟩
      · obtain ⟨front, c, hShape, hLast⟩ := hName.last
        exact ⟨before ++ '.' :: (behind ++ front), c, by simp [hShape], hLast⟩
      · exact ⟨before ++ '.' :: (behind ++ (name.toList ++ front)), c, by simp, hLast⟩

/-- An item ends with a character that is not blank. -/
theorem Item.Spelled.last {item : Item Operand} {written : List Char} (h : item.Spelled written) :
    ∃ before c, written = before ++ [c] ∧ Text.isBlank c = false := by
  have hDigit : ∀ {digits : List Char}, digits ≠ [] →
      (∀ c ∈ digits, Text.isAsciiDigit c = true) →
      ∃ before c, digits = before ++ [c] ∧ Text.isBlank c = false := by
    intro digits hSome hDigits
    refine ⟨digits.dropLast, digits.getLast hSome, (List.dropLast_concat_getLast hSome).symm, ?_⟩
    exact not_blank_of_numberChar (numberChar_of_digit (hDigits _ (List.getLast_mem hSome)))
  cases h with
  | @text quote body written hQuote _ =>
      refine ⟨quote :: written, quote, rfl, ?_⟩
      rcases hQuote with rfl | rfl
      · rfl
      · rfl
  | natural hSome hDigits _ => exact hDigit hSome hDigits
  | negative hSome hDigits _ =>
      obtain ⟨before, c, rfl, hLast⟩ := hDigit hSome hDigits
      exact ⟨'-' :: before, c, rfl, hLast⟩
  | trueWord => exact ⟨['t', 'r', 'u'], 'e', rfl, rfl⟩
  | falseWord => exact ⟨['f', 'a', 'l', 's'], 'e', rfl, rfl⟩
  | nullWord => exact ⟨['n', 'u', 'l'], 'l', rfl, rfl⟩
  | undefinedWord => exact ⟨['u', 'n', 'd', 'e', 'f', 'i', 'n', 'e'], 'd', rfl, rfl⟩
  | @path name names cs hName hRest =>
      rcases hRest.last with rfl | ⟨front, c, rfl, hLast⟩
      · obtain ⟨front, c, hShape, hLast⟩ := hName.last
        exact ⟨front, c, by simp [hShape], hLast⟩
      · exact ⟨name.toList ++ front, c, by simp, hLast⟩
  | relation r =>
      cases r with
      | eq => exact ⟨['='], '=', rfl, rfl⟩
      | ne => exact ⟨['!'], '=', rfl, rfl⟩
      | lt => exact ⟨[], '<', rfl, rfl⟩
      | le => exact ⟨['<'], '=', rfl, rfl⟩
      | gt => exact ⟨[], '>', rfl, rfl⟩
      | ge => exact ⟨['>'], '=', rfl, rfl⟩
  | and => exact ⟨['&'], '&', rfl, rfl⟩
  | or => exact ⟨['|'], '|', rfl, rfl⟩
  | not => exact ⟨[], '!', rfl, rfl⟩
  | opening => exact ⟨[], '(', rfl, rfl⟩
  | closing => exact ⟨[], ')', rfl, rfl⟩

theorem Apart.trimRight {rest : List Char} (h : Apart rest) : Apart (Text.trimRight rest) := by
  intro c hHead
  have hPrefix : Text.trimRight rest <+: rest := by
    have hSuffix := (List.dropWhile_suffix (l := rest.reverse) Text.isBlank)
    rw [← List.reverse_prefix, List.reverse_reverse] at hSuffix
    exact hSuffix
  obtain ⟨tail, hTail⟩ := hPrefix
  cases hTrimmed : Text.trimRight rest with
  | nil =>
      rw [hTrimmed] at hHead
      cases hHead
  | cons d ds =>
      rw [hTrimmed] at hHead hTail
      cases hHead
      apply h c
      rw [← hTail]
      rfl

/-- Blanks at the end do not matter. -/
theorem Laid.trimRight {items : List (Item Operand)} {cs : List Char} (h : Laid items cs) :
    Laid items (Text.trimRight cs) := by
  induction h with
  | nil hBlanks =>
      rw [trimRight_blanks hBlanks]
      exact .nil (by simp)
  | @cons item items blanks written rest hBlanks hFirst hApart _ ih =>
      obtain ⟨front, c, rfl, hLast⟩ := hFirst.last
      have hTrim : Text.trimRight (blanks ++ ((front ++ [c]) ++ rest)) =
          blanks ++ ((front ++ [c]) ++ Text.trimRight rest) := by
        have hStop : Text.trimRight ((blanks ++ front) ++ c :: rest) =
            (blanks ++ front) ++ c :: Text.trimRight rest := trimRight_append hLast
        simpa using hStop
      rw [hTrim]
      exact .cons hBlanks hFirst hApart.trimRight ih

/-- Blanks at the begin do not matter to any text. -/
theorem scan_trimLeft (cs : List Char) : Token.scan (Text.trimLeft cs) = Token.scan cs := by
  have hBlanks : ∀ c ∈ cs.takeWhile Text.isBlank, Text.isBlank c = true :=
    List.all_eq_true.mp List.all_takeWhile
  have hScan := Token.scan_blanks hBlanks (cs.dropWhile Text.isBlank)
  rw [List.takeWhile_append_dropWhile] at hScan
  exact hScan.symm

/-- Blanks around a line do not matter. -/
theorem Laid.scan_trim {items : List (Item Operand)} {cs : List Char} (h : Laid items cs) :
    Shows (Token.scan (Text.trim cs)) items := by
  obtain ⟨tokens, hShows, hScan⟩ := h.trimRight.scan
  rw [trim_eq, scan_trimLeft, hScan]
  exact hShows

end Trimmed

end StepFlow.Expr
