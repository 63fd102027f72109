import StepFlow.Proofs.Json.Spelling

/-! Readings that fail on an integer of too many digits. The text then holds such an integer, and it is
neither a part of a longer number nor the begin of a fraction. -/
namespace StepFlow.Json

/-- The characters of numbers. -/
def isNumeralChar (c : Char) : Bool :=
  Text.isAsciiDigit c || c == '.' || c == 'e' || c == 'E' || c == '+' || c == '-'

theorem isNumeralChar_of_not_atom {c : Char} (h : isAtomChar c = false) : isNumeralChar c = false := by
  rw [← Bool.not_eq_true]
  intro hNumeral
  simp only [isNumeralChar, Bool.or_eq_true, beq_iff_eq] at hNumeral
  obtain ((((hDigit | rfl) | rfl) | rfl) | rfl) | rfl := hNumeral
  · cases h.symm.trans (isAtomChar_of_isAsciiDigit hDigit)
  all_goals cases h

/-- A text behind which another number can begin. -/
def Detached (front : List Char) : Prop := ∀ c, front.getLast? = some c → isNumeralChar c = false

namespace Detached

theorem nil : Detached [] := by
  rintro _ ⟨⟩

theorem of_apart {front : List Char} (h : ∀ c ∈ front, isAtomChar c = false) : Detached front :=
  fun c hLast => isNumeralChar_of_not_atom (h c (List.mem_of_getLast? hLast))

theorem append {front back : List Char} (hFront : Detached front) (hBack : Detached back) :
    Detached (front ++ back) := by
  intro c hLast
  rw [List.getLast?_append, Option.or_eq_some_iff] at hLast
  rcases hLast with hLast | ⟨-, hLast⟩
  · exact hBack c hLast
  · exact hFront c hLast

/-- A mark and blanks end what stands in front of them. -/
theorem mark (front : List Char) {c : Char} {s : List Char} (hMark : isAtomChar c = false)
    (hs : Spaces s) : Detached (front ++ c :: s) := by
  intro d hLast
  rw [List.getLast?_append_of_ne_nil _ (List.cons_ne_nil c s)] at hLast
  refine isNumeralChar_of_not_atom ?_
  rcases List.mem_cons.mp (List.mem_of_getLast? hLast) with rfl | hSpace
  · exact hMark
  · exact isAtomChar_of_isSpace (hs d hSpace)

end Detached

/-- An integer of so many digits begins a text: neither a fraction nor an exponent follows them. -/
structure Leads (n : Nat) (cs : List Char) : Prop where
  length : (wholeDigits cs).1.length = n
  fraction : (fractionDigits (wholeDigits cs).2).1 = []
  exponent : (exponentDigits (wholeDigits cs).2).1 = none

/-- An integer of so many digits stands in the text, with a sign or without, and these are too many. -/
structure Overlong (n : Nat) (cs : List Char) : Prop where
  many : Number.digitLimit < n
  literal : ∃ front sign rest, cs = front ++ (sign ++ rest) ∧ Detached front ∧
    (sign = [] ∨ sign = ['-']) ∧ Leads n rest

variable {n : Nat} {cs : List Char}

namespace Overlong

theorem behind {front : List Char} (hFront : Detached front) (h : Overlong n cs) :
    Overlong n (front ++ cs) := by
  obtain ⟨hMany, before, sign, rest, rfl, hBefore, hInteger⟩ := h
  exact ⟨hMany, front ++ before, sign, rest, (List.append_assoc ..).symm, hFront.append hBefore,
    hInteger⟩

/-- An integer stays one in front of what does not go on with it. -/
theorem append {more : List Char} (hApart : Apart more) (h : Overlong n cs) :
    Overlong n (cs ++ more) := by
  obtain ⟨hMany, front, sign, rest, rfl, hFront, hSign, hLeads⟩ := h
  refine ⟨hMany, front, sign, rest ++ more, by simp, hFront, hSign, ?_, ?_, ?_⟩
  · rw [wholeDigits_apart hApart, hLeads.length]
  · rw [wholeDigits_apart hApart, fractionDigits_append hApart, hLeads.fraction]
  · rw [wholeDigits_apart hApart, exponentDigits_append hApart, hLeads.exponent]

end Overlong

theorem isAsciiDigit_of_wholeDigits : ∀ c ∈ (wholeDigits cs).1, Text.isAsciiDigit c = true := by
  unfold wholeDigits
  split
  · exact List.forall_mem_singleton.mpr rfl
  · exact List.all_eq_true.mp List.all_takeWhile

/-- An integer has no more digits than the text that it stands in. -/
theorem Overlong.le_countP (h : Overlong n cs) : n ≤ cs.countP Text.isAsciiDigit := by
  obtain ⟨-, front, sign, rest, rfl, -, -, hLeads⟩ := h
  have hWhole : (wholeDigits rest).1 <+: rest := ⟨_, wholeDigits_append rest⟩
  have hBehind : rest <:+ front ++ (sign ++ rest) := ⟨front ++ sign, by simp⟩
  calc n = (wholeDigits rest).1.countP Text.isAsciiDigit := by
        rw [List.countP_eq_length.mpr isAsciiDigit_of_wholeDigits, hLeads.length]
    _ ≤ rest.countP Text.isAsciiDigit := hWhole.sublist.countP_le
    _ ≤ (front ++ (sign ++ rest)).countP Text.isAsciiDigit := hBehind.sublist.countP_le

/-- Without digits behind it, a point is left. -/
theorem fractionDigits_of_nil (h : (fractionDigits cs).1 = []) : (fractionDigits cs).2 = cs := by
  unfold fractionDigits at h ⊢
  split
  · simp only at h ⊢
    split
    · rfl
    · rename_i hSome
      rw [if_neg hSome] at h
      exact absurd (List.isEmpty_iff.mpr h) hSome
  · rfl

theorem leads_of_digitNumber {negative : Bool}
    (h : digitNumber negative cs = .error (.numeralTooLong n)) : Number.digitLimit < n ∧ Leads n cs := by
  unfold digitNumber at h
  simp only at h
  split at h
  · cases h
  · split at h
    · rename_i hInteger
      split at h
      · rename_i hMany
        cases h
        rw [Bool.and_eq_true, List.isEmpty_iff, Option.isNone_iff_eq_none] at hInteger
        rw [fractionDigits_of_nil hInteger.1] at hInteger
        exact ⟨hMany, rfl, hInteger.1, hInteger.2⟩
      · cases h
    · cases h

theorem overlong_atom (h : atom cs = .error (.numeralTooLong n)) : Overlong n cs := by
  unfold atom at h
  split at h
  · cases h
  · split at h
    · obtain ⟨hMany, hLeads⟩ := leads_of_digitNumber h
      exact ⟨hMany, [], ['-'], _, rfl, .nil, .inr rfl, hLeads⟩
    · obtain ⟨hMany, hLeads⟩ := leads_of_digitNumber h
      exact ⟨hMany, [], [], _, rfl, .nil, .inl rfl, hLeads⟩

/-- A reading that fails on an integer of so many digits. -/
def Exceeds {α : Type} (n : Nat) (reader : (cs : List Char) → Reading α cs) (cs : List Char) : Prop :=
  (reader cs).pair = .error (.numeralTooLong n)

theorem not_exceeds_readName : ¬ Exceeds n readName cs := by
  intro h
  unfold Exceeds readName at h
  split at h
  · split at h
    · cases h
    · split at h
      · cases h
      · cases h
  · cases h

theorem exceeds_of_map {α β : Type} {reader : (cs : List Char) → Reading α cs}
    {f : α × List Char → β × List Char}
    (h : (reader cs).pair.map f = .error (.numeralTooLong n)) : Exceeds n reader cs := by
  unfold Exceeds
  cases hRead : (reader cs).pair with
  | error e =>
      rw [hRead] at h
      cases h
      rfl
  | ok out =>
      rw [hRead] at h
      cases h

theorem exists_of_reads_value {rest : List Char} {v : Value} (h : Reads readValue cs v rest) :
    ∃ w, cs = w ++ rest ∧ rest.length < cs.length := by
  obtain ⟨w, hText, -⟩ := spelling_rules.of_reads h
  exact ⟨w, hText, (exists_of_reads h).1⟩

/-- An integer behind blanks is one behind them and what stands in front of them. -/
theorem overlong_of_skipSpace (front : List Char) {c : Char} (hMark : isAtomChar c = false)
    {rest : List Char} (h : Overlong n (skipSpace rest)) : Overlong n (front ++ c :: rest) := by
  have hBlanks : Spaces (rest.takeWhile isSpace) := List.all_eq_true.mp List.all_takeWhile
  have hText : front ++ c :: rest = (front ++ c :: rest.takeWhile isSpace) ++ skipSpace rest := by
    rw [List.append_assoc, List.cons_append, skipSpace, List.takeWhile_append_dropWhile]
  rw [hText]
  exact h.behind (.mark front hMark hBlanks)

/-- The same behind a mark with blanks on both sides. -/
theorem overlong_of_mark (front : List Char) {c : Char} (hMark : isAtomChar c = false)
    {rest more : List Char} (hMore : skipSpace rest = c :: more) (h : Overlong n (skipSpace more)) :
    Overlong n (front ++ rest) := by
  have hText : front ++ rest = (front ++ rest.takeWhile isSpace) ++ c :: more := by
    rw [List.append_assoc, ← hMore, skipSpace, List.takeWhile_append_dropWhile]
  rw [hText]
  exact overlong_of_skipSpace _ hMark h

section Readers

variable
  (hItems : ∀ later : List Char, later.length < cs.length →
    Exceeds n readItems later → Overlong n later)
  (hEntries : ∀ later : List Char, later.length < cs.length →
    Exceeds n readEntries later → Overlong n later)

include hItems hEntries in
theorem overlong_readValue (h : Exceeds n readValue cs) : Overlong n cs := by
  unfold Exceeds at h
  by_cases hQuote : cs.head? = some '"'
  · obtain ⟨tail, rfl⟩ := List.head?_eq_some_iff.mp hQuote
    rw [pair_readValue_quote] at h
    split at h <;> cases h
  by_cases hBracket : cs.head? = some '['
  · obtain ⟨tail, rfl⟩ := List.head?_eq_some_iff.mp hBracket
    by_cases hOpen : ∃ after, skipSpace tail = ']' :: after
    · obtain ⟨after, hEnd⟩ := hOpen
      cases (pair_readValue_emptyList hEnd).symm.trans h
    · rw [pair_readValue_list (not_exists.mp hOpen)] at h
      have hShorter := Nat.lt_succ_of_le (skipSpace_length tail)
      exact overlong_of_skipSpace [] rfl (hItems _ hShorter (exceeds_of_map h))
  by_cases hBrace : cs.head? = some '\x7b'
  · obtain ⟨tail, rfl⟩ := List.head?_eq_some_iff.mp hBrace
    by_cases hOpen : ∃ after, skipSpace tail = '}' :: after
    · obtain ⟨after, hEnd⟩ := hOpen
      cases (pair_readValue_emptyMap hEnd).symm.trans h
    · rw [pair_readValue_map (not_exists.mp hOpen)] at h
      have hShorter := Nat.lt_succ_of_le (skipSpace_length tail)
      exact overlong_of_skipSpace [] rfl (hEntries _ hShorter (exceeds_of_map h))
  rw [pair_readValue_other fun c hHead => ⟨fun hSame => hQuote (hSame ▸ hHead),
    fun hSame => hBracket (hSame ▸ hHead), fun hSame => hBrace (hSame ▸ hHead)⟩] at h
  exact overlong_atom h

include hItems in
theorem overlong_readItems (hValue : Exceeds n readValue cs → Overlong n cs)
    (h : Exceeds n readItems cs) : Overlong n cs := by
  unfold Exceeds at h
  rw [pair_readItems] at h
  split at h
  · rename_i hFailed
    cases h
    exact hValue hFailed
  · rename_i v rest hRead
    obtain ⟨w, rfl, hShorter⟩ := exists_of_reads_value hRead
    split at h
    · cases h
    · rename_i more hComma
      have hLater := hItems _ ((skipSpace_lt hComma).trans hShorter) (exceeds_of_map h)
      exact overlong_of_mark w rfl hComma hLater
    · cases h

include hEntries in
theorem overlong_readEntries
    (hValue : ∀ later : List Char, later.length < cs.length →
      Exceeds n readValue later → Overlong n later)
    (h : Exceeds n readEntries cs) : Overlong n cs := by
  unfold Exceeds at h
  rw [pair_readEntries] at h
  split at h
  · rename_i hFailed
    cases h
    exact (not_exceeds_readName hFailed).elim
  · rename_i name start hName
    obtain ⟨hStart, -⟩ := exists_of_reads hName
    obtain ⟨raw, -, s, t, rfl, -, -, -, ht⟩ := exists_name hName
    have hText : '"' :: (raw ++ (s ++ ':' :: (t ++ start))) =
        ('"' :: (raw ++ s) ++ ':' :: t) ++ start := by simp
    have hFront : Detached ('"' :: (raw ++ s) ++ ':' :: t) := .mark _ rfl ht
    split at h
    · rename_i hFailed
      cases h
      rw [hText]
      exact (hValue _ hStart hFailed).behind hFront
    · rename_i v rest hRead
      obtain ⟨w, rfl, hShorter⟩ := exists_of_reads_value hRead
      split at h
      · cases h
      · rename_i more hComma
        have hLater := hEntries _ ((skipSpace_lt hComma).trans (hShorter.trans hStart))
          (exceeds_of_map h)
        rw [hText]
        exact (overlong_of_mark w rfl hComma hLater).behind hFront
      · cases h

end Readers

theorem overlong_readers (cs : List Char) : (Exceeds n readValue cs → Overlong n cs) ∧
    (Exceeds n readItems cs → Overlong n cs) ∧ (Exceeds n readEntries cs → Overlong n cs) :=
  readers_induction (fun _ => overlong_readValue)
    (fun _ hValue hItems => overlong_readItems hItems hValue)
    (fun _ hValue hEntries => overlong_readEntries hEntries hValue) cs

/-- A text that is not read for an integer of too many digits holds one. -/
theorem overlong_of_parseChars (h : parseChars cs = .error (.numeralTooLong n)) : Overlong n cs := by
  rw [parseChars_eq] at h
  split at h
  · rename_i hFailed
    cases h
    have hBlanks : Spaces (cs.takeWhile isSpace) := List.all_eq_true.mp List.all_takeWhile
    rw [← List.takeWhile_append_dropWhile (p := isSpace) (l := cs)]
    exact ((overlong_readers _).1 hFailed).behind
      (.of_apart fun c hMem => isAtomChar_of_isSpace (hBlanks c hMem))
  · split at h <;> cases h

theorem digitNumber_replicate {n : Nat} (hMany : Number.digitLimit < n) :
    digitNumber false (List.replicate n '9') = .error (.numeralTooLong n) := by
  obtain ⟨m, rfl⟩ : ∃ m, n = m + 1 := ⟨n - 1, by omega⟩
  have hDigits : ∀ c ∈ List.replicate (m + 1) '9', Text.isAsciiDigit c = true := by
    intro c hMem
    rw [List.eq_of_mem_replicate hMem]
    rfl
  have hWhole := wholeDigits_run hDigits (by simp [List.replicate_succ])
  unfold digitNumber
  rw [hWhole]
  simp [fractionDigits, exponentDigits, hMany]

theorem parseChars_replicate {n : Nat} (hMany : Number.digitLimit < n) :
    parseChars (List.replicate n '9') = .error (.numeralTooLong n) := by
  obtain ⟨m, rfl⟩ : ∃ m, n = m + 1 := ⟨n - 1, by omega⟩
  have hAtom : atom ('9' :: List.replicate m '9') = .error (.numeralTooLong (m + 1)) :=
    digitNumber_replicate hMany
  refine parseChars_of_failure ?_
  change (readValue ('9' :: List.replicate m '9')).pair = _
  rw [pair_readValue_atom rfl, hAtom]

end StepFlow.Json
