import Mathlib.Data.List.TakeWhile
import StepFlow.Json.Lexeme
import StepFlow.Proofs.Text.Decimal
import StepFlow.Text.Blank

/-! Lexemes with other text behind them. A string is read alike whatever stands behind its closing
quote, and a number or a word is, unless one of its characters comes next. None of these characters
is a blank, a quote, a comma, a colon or a bracket, and a string holds no bare control character. -/
namespace StepFlow.Json

/-- The characters of numbers and words. -/
def isAtomChar (c : Char) : Bool :=
  let n := c.toNat
  (48 ≤ n && n ≤ 57) || (65 ≤ n && n ≤ 90) || (97 ≤ n && n ≤ 122) || n == 43 || n == 45 || n == 46

/-- A text in front of which a number or a word ends. -/
def Apart (rest : List Char) : Prop := ∀ c, rest.head? = some c → isAtomChar c = false

theorem Apart.nil : Apart [] := by
  rintro _ ⟨⟩

theorem Apart.cons {c : Char} (hOther : isAtomChar c = false) (rest : List Char) :
    Apart (c :: rest) := by
  rintro _ ⟨⟩
  exact hOther

theorem Apart.append {front rest : List Char} (hFront : ∀ c ∈ front, isAtomChar c = false)
    (hRest : Apart rest) : Apart (front ++ rest) := by
  cases front with
  | nil => exact hRest
  | cons c front => exact .cons (hFront c List.mem_cons_self) _

theorem isAtomChar_of_isAsciiDigit {c : Char} (h : Text.isAsciiDigit c = true) :
    isAtomChar c = true := by
  have hRange := Text.isAsciiDigit_iff.mp h
  simp [isAtomChar, hRange]

section Behind

variable {p : Char → Bool}

/-- What is left of a text behind characters of one kind. -/
def Behind (p : Char → Bool) (cs rest : List Char) : Prop :=
  ∃ front, cs = front ++ rest ∧ ∀ c ∈ front, p c = true

theorem Behind.refl (cs : List Char) : Behind p cs cs := ⟨[], rfl, nofun⟩

theorem Behind.trans {cs middle rest : List Char} (h : Behind p cs middle)
    (hLater : Behind p middle rest) : Behind p cs rest := by
  obtain ⟨front, rfl, hFront⟩ := h
  obtain ⟨back, rfl, hBack⟩ := hLater
  refine ⟨front ++ back, (List.append_assoc ..).symm, fun c hMem => ?_⟩
  exact (List.mem_append.mp hMem).elim (hFront c) (hBack c)

theorem Behind.cons {c : Char} {cs rest : List Char} (hKind : p c = true) (h : Behind p cs rest) :
    Behind p (c :: cs) rest :=
  Behind.trans ⟨[c], rfl, by simpa using hKind⟩ h

/-- What is read as a whole is of the one kind. -/
theorem Behind.all {cs : List Char} (h : Behind p cs []) : ∀ c ∈ cs, p c = true := by
  obtain ⟨front, rfl, hFront⟩ := h
  rwa [List.append_nil]

end Behind

/-- A run of digits that no zero leads is a whole number. -/
theorem wholeDigits_run {digits : List Char} (hDigits : ∀ c ∈ digits, Text.isAsciiDigit c = true)
    (hLeading : digits.head? ≠ some '0') : wholeDigits digits = (digits, []) := by
  unfold wholeDigits
  split
  · exact absurd rfl hLeading
  · unfold Number.splitDigits
    rw [List.takeWhile_eq_self_iff.mpr hDigits, List.dropWhile_eq_nil_iff.mpr hDigits]

section Appended

variable {rest : List Char}

section Split

variable {p : Char → Bool} (hRest : ∀ c, rest.head? = some c → p c = false) (cs : List Char)
include hRest

theorem takeWhile_append_of_head : (cs ++ rest).takeWhile p = cs.takeWhile p := by
  induction cs with
  | nil =>
      cases rest with
      | nil => rfl
      | cons c rest => simp [hRest c rfl]
  | cons c cs ih => cases hHead : p c <;> simp [hHead, ih]

theorem dropWhile_append_of_head : (cs ++ rest).dropWhile p = cs.dropWhile p ++ rest := by
  induction cs with
  | nil =>
      cases rest with
      | nil => rfl
      | cons c rest => simp [hRest c rfl]
  | cons c cs ih => cases hHead : p c <;> simp [hHead, ih]

end Split

variable (hApart : Apart rest) (cs : List Char)
include hApart

theorem Apart.head?_ne {c : Char} (hAtom : isAtomChar c = true) : rest.head? ≠ some c := by
  intro hHead
  rw [hApart c hHead] at hAtom
  cases hAtom

theorem splitDigits_append :
    Number.splitDigits (cs ++ rest) =
      ((Number.splitDigits cs).1, (Number.splitDigits cs).2 ++ rest) := by
  have hDigits : ∀ c, rest.head? = some c → Text.isAsciiDigit c = false := by
    intro c hHead
    rw [← Bool.not_eq_true]
    exact fun hDigit => hApart.head?_ne (isAtomChar_of_isAsciiDigit hDigit) hHead
  unfold Number.splitDigits
  rw [takeWhile_append_of_head hDigits, dropWhile_append_of_head hDigits]

theorem splitSign_append :
    Number.splitSign (cs ++ rest) = ((Number.splitSign cs).1, (Number.splitSign cs).2 ++ rest) := by
  cases cs with
  | nil =>
      unfold Number.splitSign
      split
      · exact (hApart.head?_ne (c := '-') rfl (by simp_all)).elim
      · exact (hApart.head?_ne (c := '+') rfl (by simp_all)).elim
      · rfl
  | cons c cs =>
      rw [List.cons_append]
      unfold Number.splitSign
      split <;> simp_all

theorem wholeDigits_apart :
    wholeDigits (cs ++ rest) = ((wholeDigits cs).1, (wholeDigits cs).2 ++ rest) := by
  have hDigits := splitDigits_append hApart cs
  cases cs with
  | nil =>
      unfold wholeDigits
      split
      · exact (hApart.head?_ne (c := '0') rfl (by simp_all)).elim
      · exact hDigits
  | cons c cs =>
      by_cases hZero : c = '0'
      · subst hZero
        rfl
      · have hPlain : ∀ tail, wholeDigits (c :: tail) = Number.splitDigits (c :: tail) := by
          intro tail
          unfold wholeDigits
          split
          · rename_i hHead
            exact absurd (List.cons.inj hHead).1 hZero
          · rfl
        rw [List.cons_append, hPlain, hPlain]
        exact hDigits

theorem fractionDigits_append :
    fractionDigits (cs ++ rest) = ((fractionDigits cs).1, (fractionDigits cs).2 ++ rest) := by
  cases cs with
  | nil =>
      unfold fractionDigits
      split
      · exact (hApart.head?_ne (c := '.') rfl (by simp_all)).elim
      · rfl
  | cons c cs =>
      by_cases hPoint : c = '.'
      · subst hPoint
        rw [List.cons_append]
        simp only [fractionDigits, splitDigits_append hApart cs]
        split <;> simp
      · have hPlain : ∀ tail, fractionDigits (c :: tail) = ([], c :: tail) := by
          intro tail
          unfold fractionDigits
          split
          · rename_i hHead
            exact absurd (List.cons.inj hHead).1 hPoint
          · rfl
        rw [List.cons_append, hPlain, hPlain]
        rfl

theorem exponentDigits_append :
    exponentDigits (cs ++ rest) = ((exponentDigits cs).1, (exponentDigits cs).2 ++ rest) := by
  cases cs with
  | nil =>
      cases rest with
      | nil => rfl
      | cons c rest =>
          have hMark : ¬ (c = 'e' || c = 'E') = true := by
            rw [Bool.or_eq_true, decide_eq_true_eq, decide_eq_true_eq]
            rintro (rfl | rfl)
            · exact hApart.head?_ne (c := 'e') rfl rfl
            · exact hApart.head?_ne (c := 'E') rfl rfl
          simp only [List.nil_append, exponentDigits, if_neg hMark]
  | cons c cs =>
      rw [List.cons_append]
      simp only [exponentDigits, splitSign_append hApart cs,
        splitDigits_append hApart (Number.splitSign cs).2]
      split
      · split <;> simp
      · simp

/-- A number is read alike in front of a text that does not go on with it. -/
theorem digitNumber_append (negative : Bool) :
    digitNumber negative (cs ++ rest) =
      (digitNumber negative cs).map fun (v, left) => (v, left ++ rest) := by
  simp only [digitNumber, wholeDigits_apart hApart, fractionDigits_append hApart,
    exponentDigits_append hApart]
  split
  · rfl
  · split
    · split <;> rfl
    · rfl

end Appended

section Atoms

variable {rest : List Char}

/-- Words hold letters and a sign. -/
theorem isAtomChar_of_mem_words {entry : String × Value} (hMem : entry ∈ words) :
    ∀ c ∈ entry.1.toList, isAtomChar c = true := by
  simp only [words, List.mem_cons, List.not_mem_nil, or_false] at hMem
  obtain rfl | rfl | rfl | rfl | rfl | rfl := hMem <;> exact List.all_eq_true.mp rfl

/-- A word does not reach into what cannot belong to it. -/
theorem isPrefixOf_append (hApart : Apart rest) {word : List Char}
    (hWord : ∀ c ∈ word, isAtomChar c = true) (cs : List Char) :
    word.isPrefixOf (cs ++ rest) = word.isPrefixOf cs := by
  induction word generalizing cs with
  | nil => rfl
  | cons letter word ih =>
      cases cs with
      | nil =>
          cases rest with
          | nil => rfl
          | cons c rest =>
              have hOther : letter ≠ c := by
                rintro rfl
                exact hApart.head?_ne (hWord letter List.mem_cons_self) rfl
              simp [List.isPrefixOf, hOther]
      | cons c cs =>
          have hLater := ih (fun d hMem => hWord d (List.mem_cons_of_mem _ hMem)) cs
          simp only [List.cons_append, List.isPrefixOf, hLater]

theorem word?_append (hApart : Apart rest) {word : String} {v : Value} (hMem : (word, v) ∈ words)
    (cs : List Char) :
    word? word v (cs ++ rest) = (word? word v cs).map fun (v, left) => (v, left ++ rest) := by
  unfold word?
  rw [isPrefixOf_append hApart (isAtomChar_of_mem_words hMem)]
  split
  · rename_i hHead
    have hLength := (List.isPrefixOf_iff_prefix.mp hHead).length_le
    rw [String.length_toList] at hLength
    rw [List.drop_append_of_le_length hLength]
    rfl
  · rfl

theorem findSome?_word?_append (hApart : Apart rest) (cs : List Char) {entries : List (String × Value)}
    (hWords : ∀ entry ∈ entries, entry ∈ words) :
    (entries.findSome? fun (w, v) => word? w v (cs ++ rest)) =
      (entries.findSome? fun (w, v) => word? w v cs).map fun (v, left) => (v, left ++ rest) := by
  induction entries with
  | nil => rfl
  | cons entry entries ih =>
      obtain ⟨word, v⟩ := entry
      simp only [List.findSome?_cons, word?_append hApart (hWords _ List.mem_cons_self)]
      cases word? word v cs with
      | some found => rfl
      | none => exact ih fun other hMem => hWords other (List.mem_cons_of_mem _ hMem)

/-- A number or a word is read alike in front of a text that does not go on with it. -/
theorem atom_append (hApart : Apart rest) (cs : List Char) :
    atom (cs ++ rest) = (atom cs).map fun (v, left) => (v, left ++ rest) := by
  unfold atom
  rw [findSome?_word?_append hApart cs fun _ hMem => hMem]
  cases words.findSome? fun (w, v) => word? w v cs with
  | some found => rfl
  | none =>
      cases cs with
      | nil =>
          simp only [Option.map_none, List.nil_append]
          split
          · exact (hApart.head?_ne (c := '-') rfl (by simp_all)).elim
          · exact digitNumber_append hApart [] false
      | cons c cs =>
          by_cases hSign : c = '-'
          · subst hSign
            exact digitNumber_append hApart cs true
          · simp only [Option.map_none, List.cons_append]
            split
            · rename_i hHead
              exact absurd (List.cons.inj hHead).1 hSign
            · split
              · rename_i hHead
                exact absurd (List.cons.inj hHead).1 hSign
              · exact digitNumber_append hApart (c :: cs) false

/-- Nothing is read of a text that begins with another character. -/
theorem atom_of_apart (hApart : Apart rest) : atom rest = .error .malformed := atom_append hApart []

theorem behind_splitDigits (cs : List Char) : Behind isAtomChar cs (Number.splitDigits cs).2 := by
  refine ⟨cs.takeWhile Text.isAsciiDigit, List.takeWhile_append_dropWhile.symm, fun c hMem => ?_⟩
  exact isAtomChar_of_isAsciiDigit (List.all_eq_true.mp List.all_takeWhile c hMem)

theorem behind_wholeDigits (cs : List Char) : Behind isAtomChar cs (wholeDigits cs).2 := by
  unfold wholeDigits
  split
  · exact .cons rfl (.refl _)
  · exact behind_splitDigits cs

theorem behind_fractionDigits (cs : List Char) : Behind isAtomChar cs (fractionDigits cs).2 := by
  unfold fractionDigits
  split
  · rename_i tail
    simp only
    split
    · exact .refl _
    · exact .cons rfl (behind_splitDigits tail)
  · exact .refl cs

theorem behind_splitSign (cs : List Char) : Behind isAtomChar cs (Number.splitSign cs).2 := by
  unfold Number.splitSign
  split
  · exact .cons rfl (.refl _)
  · exact .cons rfl (.refl _)
  · exact .refl cs

theorem behind_exponentDigits (cs : List Char) : Behind isAtomChar cs (exponentDigits cs).2 := by
  unfold exponentDigits
  split
  · rename_i c tail
    split
    · rename_i hMark
      have hAtom : isAtomChar c = true := by
        rw [Bool.or_eq_true, decide_eq_true_eq, decide_eq_true_eq] at hMark
        obtain rfl | rfl := hMark <;> rfl
      simp only
      split
      · exact .refl _
      · exact .cons hAtom ((behind_splitSign tail).trans (behind_splitDigits _))
    · exact .refl _
  · exact .refl _

theorem behind_digitNumber {negative : Bool} {cs rest : List Char} {v : Value}
    (h : digitNumber negative cs = .ok (v, rest)) : Behind isAtomChar cs rest := by
  have hAll := ((behind_wholeDigits cs).trans (behind_fractionDigits _)).trans
    (behind_exponentDigits _)
  unfold digitNumber at h
  simp only at h
  split at h
  · cases h
  · split at h
    · split at h
      · cases h
      · exact (Prod.mk.inj (Except.ok.inj h)).2 ▸ hAll
    · exact (Prod.mk.inj (Except.ok.inj h)).2 ▸ hAll

/-- A number or a word takes none but its characters. -/
theorem behind_atom {cs rest : List Char} {v : Value} (h : atom cs = .ok (v, rest)) :
    Behind isAtomChar cs rest := by
  unfold atom at h
  split at h
  · rename_i found hFound
    cases h
    obtain ⟨⟨word, w⟩, hMem, hWord⟩ := List.exists_of_findSome?_eq_some hFound
    simp only [word?] at hWord
    split at hWord
    · rename_i hHead
      obtain ⟨tail, rfl⟩ := List.isPrefixOf_iff_prefix.mp hHead
      have hRest : rest = tail := by
        rw [← (Prod.mk.inj (Option.some.inj hWord)).2, ← String.length_toList, List.drop_left]
      exact ⟨word.toList, by rw [hRest], isAtomChar_of_mem_words hMem⟩
    · cases hWord
  · split at h
    · exact .cons rfl (behind_digitNumber h)
    · exact behind_digitNumber h

/-- The values that numbers and words stand for. -/
inductive Atomic : Value → Prop where
  | null : Atomic .null
  | bool (b : Bool) : Atomic (.bool b)
  | int (n : Int) : Atomic (.int n)
  | real (x : Float) : Atomic (.real x)
  | nan (mark : Mark) : Atomic (.nan mark)

theorem atomic_of_mem_words {entry : String × Value} (hMem : entry ∈ words) : Atomic entry.2 := by
  simp only [words, List.mem_cons, List.not_mem_nil, or_false] at hMem
  obtain rfl | rfl | rfl | rfl | rfl | rfl := hMem
  all_goals constructor

theorem atomic_of_digitNumber {negative : Bool} {cs rest : List Char} {v : Value}
    (h : digitNumber negative cs = .ok (v, rest)) : Atomic v := by
  unfold digitNumber at h
  simp only at h
  split at h
  · cases h
  · split at h
    · split at h
      · cases h
      · cases h
        exact .int _
    · cases h
      exact .real _

theorem atomic_of_atom {cs rest : List Char} {v : Value} (h : atom cs = .ok (v, rest)) :
    Atomic v := by
  unfold atom at h
  split at h
  · rename_i found hFound
    cases h
    obtain ⟨entry, hMem, hWord⟩ := List.exists_of_findSome?_eq_some hFound
    change word? entry.1 entry.2 cs = some (v, rest) at hWord
    unfold word? at hWord
    split at hWord
    · rw [← (Prod.mk.inj (Option.some.inj hWord)).1]
      exact atomic_of_mem_words hMem
    · cases hWord
  · split at h
    all_goals exact atomic_of_digitNumber h

end Atoms

section Strings

/-- The characters that may stand in a string as they are. -/
def isBare (c : Char) : Bool := 0x20 ≤ c.toNat

theorem isBare_of_hexValue? {c : Char} {n : Nat} (h : Text.hexValue? c = some n) :
    isBare c = true := by
  have hLetter : ∀ d : Char, 0x20 ≤ d.toNat → d ≤ c → isBare c = true := by
    intro d hBare hBelow
    rw [Char.le_def, UInt32.le_iff_toNat_le] at hBelow
    exact decide_eq_true (hBare.trans hBelow)
  unfold Text.hexValue? at h
  split at h
  · rename_i hDigit
    simp only [Text.isAsciiDigit, Bool.and_eq_true, decide_eq_true_eq] at hDigit
    exact hLetter '0' (by decide) hDigit.1
  · split at h
    · rename_i hLower
      simp only [Bool.and_eq_true, decide_eq_true_eq] at hLower
      exact hLetter 'a' (by decide) hLower.1
    · split at h
      · rename_i hUpper
        simp only [Bool.and_eq_true, decide_eq_true_eq] at hUpper
        exact hLetter 'A' (by decide) hUpper.1
      · cases h

theorem isBare_of_hexValues {digits : List Char} {n m : Nat}
    (h : digits.foldlM (fun n c => (Text.hexValue? c).map (16 * n + ·)) n = some m) :
    ∀ c ∈ digits, isBare c = true := by
  induction digits generalizing n with
  | nil => nofun
  | cons c digits ih =>
      rw [List.foldlM_cons] at h
      obtain ⟨next, hNext, hLater⟩ := Option.bind_eq_some_iff.mp h
      obtain ⟨value, hValue, -⟩ := Option.map_eq_some_iff.mp hNext
      exact List.forall_mem_cons.mpr ⟨isBare_of_hexValue? hValue, ih hLater⟩

theorem stringBody?_quote (cs : List Char) : stringBody? ('"' :: cs) = some ([], cs) := by
  rw [stringBody?.eq_def]
  simp

theorem stringBody?_escape {cs after : List Char} {code : Nat} (h : escape? cs = some (code, after)) :
    stringBody? ('\\' :: cs) =
      (stringBody? after).map fun (body, last) => (Text.ofCode code ++ body, last) := by
  rw [stringBody?.eq_def]
  simp only [Char.reduceEq, if_false, if_true]
  split
  · rename_i hNone
    cases h.symm.trans hNone
  · rename_i hSome
    cases h.symm.trans hSome
    rfl

theorem stringBody?_plain {c : Char} (hQuote : c ≠ '"') (hEscape : c ≠ '\\') (hBare : 0x20 ≤ c.toNat)
    (cs : List Char) :
    stringBody? (c :: cs) = (stringBody? cs).map fun (body, last) => (c :: body, last) := by
  rw [stringBody?.eq_def]
  simp only [if_neg hQuote, if_neg hEscape, if_neg (Nat.not_lt.mpr hBare)]

/-- What is true of a closing quote and is kept by escapes and other characters in front is true of
all string bodies. -/
theorem stringBody?_induction {motive : List Char → List Char → List Char → Prop}
    (quote : ∀ rest, motive ('"' :: rest) [] rest)
    (escape : ∀ {cs after body rest code}, escape? cs = some (code, after) →
      stringBody? after = some (body, rest) → motive after body rest →
      motive ('\\' :: cs) (Text.ofCode code ++ body) rest)
    (plain : ∀ {c cs body rest}, c ≠ '"' → c ≠ '\\' → 0x20 ≤ c.toNat →
      stringBody? cs = some (body, rest) → motive cs body rest → motive (c :: cs) (c :: body) rest)
    {cs body rest : List Char} (h : stringBody? cs = some (body, rest)) : motive cs body rest := by
  fun_induction stringBody? cs generalizing body with
  | case1 => cases h
  | case2 cs =>
      cases h
      exact quote _
  | case3 => cases h
  | case4 cs code after hCode hQuote ih =>
      obtain ⟨⟨more, last⟩, hBody, hSame⟩ := Option.map_eq_some_iff.mp h
      cases hSame
      exact escape hCode hBody (ih hBody)
  | case5 => cases h
  | case6 c cs hQuote hEscape hBare ih =>
      obtain ⟨⟨more, last⟩, hBody, hSame⟩ := Option.map_eq_some_iff.mp h
      cases hSame
      exact plain hQuote hEscape (Nat.not_lt.mp hBare) hBody (ih hBody)

/-- A backslash in a string begins an escape. -/
theorem exists_escape? {cs : List Char} {found : List Char × List Char}
    (h : stringBody? ('\\' :: cs) = some found) : ∃ code after, escape? cs = some (code, after) := by
  rw [stringBody?.eq_def] at h
  simp only [Char.reduceEq, if_false, if_true] at h
  split at h
  · cases h
  · rename_i code after hCode
    exact ⟨code, after, hCode⟩

theorem lowSurrogate?_of_ne {c : Char} (hOther : c ≠ '\\') (cs : List Char) :
    lowSurrogate? (c :: cs) = none := by
  unfold lowSurrogate?
  split
  · rename_i hHead
    exact absurd (List.cons.inj hHead).1 hOther
  · rfl

theorem lowSurrogate?_letter {c : Char} (hOther : c ≠ 'u') (cs : List Char) :
    lowSurrogate? ('\\' :: c :: cs) = none := by
  unfold lowSurrogate?
  split
  · rename_i hHead
    exact absurd (List.cons.inj (List.cons.inj hHead).2).1 hOther
  · rfl

/-- A reader takes this much of a text, whatever stands behind it. -/
def Takes {α : Type} (reader : List Char → Option (α × List Char)) (front : List Char) (a : α) : Prop :=
  ∀ rest, reader (front ++ rest) = some (a, rest)

theorem unit?_takes {cs left : List Char} {n : Nat} (h : unit? cs = some (n, left)) :
    ∃ front, cs = front ++ left ∧ (∀ c ∈ front, isBare c = true) ∧ Takes unit? front n := by
  unfold unit? at h
  split at h
  · rename_i a b c d tail
    obtain ⟨value, hValue, hSame⟩ := Option.map_eq_some_iff.mp h
    cases hSame
    refine ⟨[a, b, c, d], rfl, isBare_of_hexValues hValue, fun rest => ?_⟩
    simp only [unit?, List.cons_append, List.nil_append, hValue, Option.map_some]
  · cases h

theorem lowSurrogate?_takes {cs left : List Char} {n : Nat} (h : lowSurrogate? cs = some (n, left)) :
    ∃ front, cs = front ++ left ∧ (∀ c ∈ front, isBare c = true) ∧ Takes lowSurrogate? front n := by
  unfold lowSurrogate? at h
  split at h
  · split at h
    · rename_i low after hUnit
      split at h
      · rename_i hRange
        obtain ⟨rfl, rfl⟩ := Prod.mk.inj (Option.some.inj h)
        obtain ⟨front, rfl, hBare, hTakes⟩ := unit?_takes hUnit
        refine ⟨'\\' :: 'u' :: front, rfl, ?_, fun rest => ?_⟩
        · exact List.forall_mem_cons.mpr ⟨rfl, List.forall_mem_cons.mpr ⟨rfl, hBare⟩⟩
        · simp only [List.cons_append, lowSurrogate?, hTakes rest, hRange, if_true]
      · cases h
    · cases h
  · cases h

section Body

variable {raw left body : List Char} (hBody : Takes stringBody? raw body)
include hBody

/-- Where a string goes on without the second half of a pair, what stands behind it makes none. -/
theorem lowSurrogate?_eq_none (hNone : lowSurrogate? (raw ++ left) = none) (rest : List Char) :
    lowSurrogate? (raw ++ rest) = none := by
  have hRead := hBody []
  rw [List.append_nil] at hRead
  match raw with
  | [] =>
      rw [stringBody?.eq_def] at hRead
      cases hRead
  | c :: tail =>
      by_cases hBackslash : c = '\\'
      · subst hBackslash
        obtain ⟨code, after, hCode⟩ := exists_escape? hRead
        match tail with
        | [] => cases hCode
        | d :: tail =>
            by_cases hUnit : d = 'u'
            · subst hUnit
              simp only [escape?, if_true, Option.map_eq_some_iff, Prod.exists] at hCode
              obtain ⟨n, after, hUnit, -⟩ := hCode
              obtain ⟨front, rfl, -, hTakes⟩ := unit?_takes hUnit
              simp only [List.cons_append, List.append_assoc, lowSurrogate?,
                show ∀ more, unit? (front ++ more) = some (n, more) from hTakes] at hNone ⊢
              split at hNone
              · cases hNone
              · rename_i hRange
                rw [if_neg hRange]
            · exact lowSurrogate?_letter hUnit _
      · exact lowSurrogate?_of_ne hBackslash _

theorem unitCode_takes {unit code : Nat} {cs : List Char} (h : unitCode unit cs = (code, raw ++ left)) :
    ∃ front, cs = front ++ (raw ++ left) ∧ (∀ c ∈ front, isBare c = true) ∧
      ∀ rest, unitCode unit (front ++ (raw ++ rest)) = (code, raw ++ rest) := by
  unfold unitCode at h
  split at h
  · rename_i hHigh
    split at h
    · rename_i low last hLow
      obtain ⟨rfl, rfl⟩ := Prod.mk.inj h
      obtain ⟨front, rfl, hBare, hTakes⟩ := lowSurrogate?_takes hLow
      refine ⟨front, rfl, hBare, fun rest => ?_⟩
      rw [unitCode, if_pos hHigh, hTakes]
    · rename_i hLow
      obtain ⟨rfl, rfl⟩ := Prod.mk.inj h
      refine ⟨[], rfl, nofun, fun rest => ?_⟩
      rw [List.nil_append, unitCode, if_pos hHigh, lowSurrogate?_eq_none hBody hLow]
  · rename_i hPlain
    obtain ⟨rfl, rfl⟩ := Prod.mk.inj h
    exact ⟨[], rfl, nofun, fun rest => by rw [List.nil_append, unitCode, if_neg hPlain]⟩

theorem escape?_takes {code : Nat} {cs : List Char} (h : escape? cs = some (code, raw ++ left)) :
    ∃ front, cs = front ++ (raw ++ left) ∧ (∀ c ∈ front, isBare c = true) ∧
      ∀ rest, escape? (front ++ (raw ++ rest)) = some (code, raw ++ rest) := by
  match cs with
  | [] => cases h
  | c :: tail =>
      rw [escape?] at h
      split at h
      · rename_i hLetter
        obtain ⟨⟨n, after⟩, hUnit, hCode⟩ := Option.map_eq_some_iff.mp h
        obtain ⟨front, rfl, hFront, hTakes⟩ := unit?_takes hUnit
        obtain ⟨second, rfl, hSecond, hCodes⟩ := unitCode_takes hBody hCode
        refine ⟨c :: (front ++ second), by simp, ?_, fun rest => ?_⟩
        · exact List.forall_mem_cons.mpr
            ⟨hLetter ▸ rfl, List.forall_mem_append.mpr ⟨hFront, hSecond⟩⟩
        · rw [List.cons_append, List.append_assoc, escape?, if_pos hLetter, hTakes]
          exact congrArg some (hCodes rest)
      · rename_i hLetter
        obtain ⟨value, hValue, hSame⟩ := Option.map_eq_some_iff.mp h
        cases hSame
        refine ⟨[c], rfl, ?_, fun rest => ?_⟩
        · rw [List.forall_mem_singleton]
          unfold letterEscape? at hValue
          split at hValue
          case h_9 => cases hValue
          all_goals rfl
        · rw [List.singleton_append, escape?, if_neg hLetter, hValue]
          rfl

end Body

/-- A string is read alike whatever stands behind its closing quote, and takes no bare control
character. -/
theorem stringBody?_takes {cs body left : List Char} (h : stringBody? cs = some (body, left)) :
    ∃ inside, cs = (inside ++ ['"']) ++ left ∧ (∀ c ∈ inside, isBare c = true) ∧
      Takes stringBody? (inside ++ ['"']) body := by
  refine stringBody?_induction
    (motive := fun cs body left => ∃ inside, cs = (inside ++ ['"']) ++ left ∧
      (∀ c ∈ inside, isBare c = true) ∧ Takes stringBody? (inside ++ ['"']) body) ?_ ?_ ?_ h
  · exact fun left => ⟨[], rfl, nofun, stringBody?_quote⟩
  · rintro cs after body left code hCode - ⟨inside, rfl, hInside, hTakes⟩
    obtain ⟨front, rfl, hFront, hEscape⟩ := escape?_takes hTakes hCode
    refine ⟨'\\' :: (front ++ inside), by simp, ?_, fun rest => ?_⟩
    · exact List.forall_mem_cons.mpr ⟨rfl, List.forall_mem_append.mpr ⟨hFront, hInside⟩⟩
    · have hText : '\\' :: (front ++ inside) ++ ['"'] ++ rest =
          '\\' :: (front ++ ((inside ++ ['"']) ++ rest)) := by simp
      rw [hText, stringBody?_escape (hEscape rest), hTakes]
      rfl
  · rintro c cs body left hQuote hEscape hBare - ⟨inside, rfl, hInside, hTakes⟩
    refine ⟨c :: inside, rfl, ?_, fun rest => ?_⟩
    · exact List.forall_mem_cons.mpr ⟨decide_eq_true hBare, hInside⟩
    · rw [List.cons_append, List.cons_append, stringBody?_plain hQuote hEscape hBare, hTakes]
      rfl

/-- A string is read of what it takes alone. -/
theorem exists_string {cs body left : List Char} (h : stringBody? cs = some (body, left)) :
    ∃ inside, cs = (inside ++ ['"']) ++ left ∧ (∀ c ∈ inside, isBare c = true) ∧
      stringBody? (inside ++ ['"']) = some (body, []) := by
  obtain ⟨inside, hText, hBare, hTakes⟩ := stringBody?_takes h
  have hAlone := hTakes []
  rw [List.append_nil] at hAlone
  exact ⟨inside, hText, hBare, hAlone⟩

/-- What is read of a string is read of it in front of any text. -/
theorem stringBody?_append {raw body : List Char} (h : stringBody? raw = some (body, [])) :
    Takes stringBody? raw body := by
  obtain ⟨inside, hText, -, hTakes⟩ := stringBody?_takes h
  rwa [hText, List.append_nil]

end Strings

end StepFlow.Json
