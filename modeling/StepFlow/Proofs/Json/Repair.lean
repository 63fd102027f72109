import StepFlow.Json.Repair
import StepFlow.Proofs.Json.Extract

/-! What repairs leave alone. A text without the marks of a block comment keeps all of its characters,
and so does one in which a quote stands between any slash and the begin of its line. A comma goes
only where blanks and a closing bracket follow. -/
namespace StepFlow.Json

section BlockComments

variable {cs : List Char}

theorem dropBlockComments_eq_self (hNone : ¬ Encloses ['/', '*'] ['*', '/'] cs) :
    dropBlockComments cs = cs := by
  fun_induction dropBlockComments cs with
  | case1 => rfl
  | case2 rest before after hCut ih =>
      refine absurd ⟨[], before, after, ?_⟩ hNone
      rw [← Text.cutAt_append hCut]
      simp
  | case3 rest before hCut ih =>
      exact congrArg ('/' :: ·) (ih fun h => hNone (h.of_infix (List.suffix_cons '/' _).isInfix))
  | case4 c rest hOther ih =>
      exact congrArg (c :: ·) (ih fun h => hNone (h.of_infix (List.suffix_cons c rest).isInfix))

theorem sublist_dropBlockComments (cs : List Char) : (dropBlockComments cs).Sublist cs := by
  fun_induction dropBlockComments cs with
  | case1 => exact .refl []
  | case2 rest before after hCut ih =>
      have hAfter : after <:+ '/' :: '*' :: rest := by
        rw [← Text.cutAt_append hCut]
        exact ⟨'/' :: '*' :: (before ++ ['*', '/']), by simp⟩
      exact ih.trans hAfter.sublist
  | case3 rest before hCut ih => exact ih.cons_cons '/'
  | case4 c rest hOther ih => exact ih.cons_cons c

end BlockComments

section LineComments

/-- Every slash has a quote in front of it on its line. -/
def Sheltered (cs : List Char) : Prop :=
  ∀ front back, cs = front ++ '/' :: back → ∃ before line, front = before ++ '"' :: line ∧ '\n' ∉ line

namespace Sheltered

variable {cs ds : List Char}

theorem of_not_mem (hNone : '/' ∉ cs) : Sheltered cs := by
  rintro front back rfl
  exact absurd (List.mem_append_right front List.mem_cons_self) hNone

theorem append (hFirst : Sheltered cs) (hLater : Sheltered ds) : Sheltered (cs ++ ds) := by
  intro front back hText
  rcases List.append_eq_append_iff.mp hText with ⟨more, rfl, hDs⟩ | ⟨more, hCs, hBack⟩
  · obtain ⟨before, line, rfl, hLine⟩ := hLater more back hDs
    exact ⟨cs ++ before, line, by simp, hLine⟩
  · cases more with
    | nil =>
        obtain ⟨before, line, hFront, hLine⟩ := hLater [] back hBack.symm
        exact absurd hFront (by simp)
    | cons c more =>
        rw [← (List.cons.inj hBack).1] at hCs
        exact hFirst front more hCs

theorem quoted {inside : List Char} (hLine : '\n' ∉ inside) :
    Sheltered ('"' :: (inside ++ ['"'])) := by
  intro front back hText
  cases front with
  | nil => cases (List.cons.inj hText).1
  | cons c front =>
      obtain ⟨rfl, hRest⟩ := List.cons.inj hText
      refine ⟨[], front, rfl, fun hMem => ?_⟩
      have hIn : '\n' ∈ inside ++ ['"'] := hRest ▸ List.mem_append_left _ hMem
      rcases List.mem_append.mp hIn with hInside | hQuote
      · exact hLine hInside
      · cases List.mem_singleton.mp hQuote

/-- Behind the begin of a line, or of the text, no slash comes next. -/
theorem afterLineComment? {front : List Char} (h : Sheltered (front ++ cs))
    (hStart : front = [] ∨ ∃ before, front = before ++ ['\n']) : afterLineComment? cs = none := by
  unfold Json.afterLineComment?
  split
  · rename_i rest hSlashes
    exfalso
    have hBlanks : ∀ c ∈ cs.takeWhile Text.isBlank, Text.isBlank c = true :=
      List.all_eq_true.mp List.all_takeWhile
    have hSplit := List.takeWhile_append_dropWhile (p := Text.isBlank) (l := cs)
    rw [hSlashes] at hSplit
    obtain ⟨before, line, hFront, hLine⟩ := h (front ++ cs.takeWhile Text.isBlank) ('/' :: rest)
      (by rw [List.append_assoc, hSplit])
    have hQuote : '"' ∉ cs.takeWhile Text.isBlank := fun hMem => by cases hBlanks '"' hMem
    rcases hStart with rfl | ⟨start, rfl⟩
    · exact hQuote (show '"' ∈ [] ++ _ from hFront ▸ List.mem_append_right before List.mem_cons_self)
    · rw [List.append_assoc] at hFront
      have hBehind : '"' ∉ ['\n'] ++ cs.takeWhile Text.isBlank := by simpa using hQuote
      obtain ⟨middle, rfl⟩ := exists_of_back hBehind hFront
      have hSame : middle ++ (['\n'] ++ cs.takeWhile Text.isBlank) = line := by simpa using hFront
      exact hLine (hSame ▸ by simp)
  · rfl

end Sheltered

theorem dropLineComments_eq_self (front : List Char) {cs : List Char} {atStart : Bool}
    (h : Sheltered (front ++ cs))
    (hStart : atStart = true → front = [] ∨ ∃ before, front = before ++ ['\n']) :
    dropLineComments atStart cs = cs := by
  induction cs generalizing front atStart with
  | nil =>
      rw [dropLineComments.eq_def]
      cases atStart <;> rfl
  | cons c cs ih =>
      have hNone : (if atStart then afterLineComment? (c :: cs) else none) = none := by
        cases atStart with
        | false => rfl
        | true => exact h.afterLineComment? (hStart rfl)
      have hBehind : Sheltered ((front ++ [c]) ++ cs) := by simpa using h
      have hLater : dropLineComments (c = '\n') cs = cs :=
        ih _ hBehind fun hEnd => .inr ⟨front, by rw [of_decide_eq_true hEnd]⟩
      rw [dropLineComments.eq_def]
      split
      · rename_i hSome
        cases hNone.symm.trans hSome
      · simp only [hLater]

theorem suffix_of_afterLineComment? {rest : List Char} (h : afterLineComment? cs = some rest) :
    rest <:+ cs := by
  unfold afterLineComment? at h
  split at h
  · rename_i body hBody
    cases h
    have hBehind : body <:+ cs.dropWhile Text.isBlank := ⟨['/', '/'], hBody.symm⟩
    exact ((List.dropWhile_suffix _).trans hBehind).trans (List.dropWhile_suffix Text.isBlank)
  · cases h

theorem sublist_dropLineComments (atStart : Bool) (cs : List Char) :
    (dropLineComments atStart cs).Sublist cs := by
  fun_induction dropLineComments atStart cs with
  | case1 atStart cs rest hComment ih =>
      split at hComment
      · exact ih.trans (suffix_of_afterLineComment? hComment).sublist
      · cases hComment
  | case2 => exact .refl []
  | case3 atStart c rest hNone ih => exact ih.cons_cons c

end LineComments

section TrailingCommas

variable {cs blanks : List Char} {c : Char}

theorem dropTrailingCommas_cons (hOther : c ≠ ',') (rest : List Char) :
    dropTrailingCommas (c :: rest) = c :: dropTrailingCommas rest := by
  rw [dropTrailingCommas, if_neg hOther]

/-- Where there is no comma, nothing goes. -/
theorem dropTrailingCommas_append (hNone : ',' ∉ cs) (rest : List Char) :
    dropTrailingCommas (cs ++ rest) = cs ++ dropTrailingCommas rest := by
  induction cs with
  | nil => rfl
  | cons c cs ih =>
      have hOther : c ≠ ',' := fun hSame => hNone (hSame ▸ List.mem_cons_self)
      rw [List.cons_append, dropTrailingCommas_cons hOther,
        ih fun hMem => hNone (List.mem_cons_of_mem c hMem), List.cons_append]

/-- What becomes of a comma is for the first character behind the blanks after it to say. -/
theorem dropTrailingCommas_comma {rest after : List Char}
    (h : rest.dropWhile Text.isBlank = c :: after) :
    dropTrailingCommas (',' :: rest) =
      if c = '}' ∨ c = ']' then c :: dropTrailingCommas after else ',' :: dropTrailingCommas rest := by
  rw [dropTrailingCommas, if_pos rfl]
  split
  · rename_i d later _ hRest _
    cases h.symm.trans hRest
    simp only [Bool.or_eq_true, decide_eq_true_eq]
  · rename_i hRest _
    cases h.symm.trans hRest

theorem sublist_dropTrailingCommas (cs : List Char) : (dropTrailingCommas cs).Sublist cs := by
  induction hn : cs.length using Nat.strongRecOn generalizing cs with
  | _ n ih =>
    subst hn
    cases cs with
    | nil =>
        rw [dropTrailingCommas]
    | cons c rest =>
        have hRest : (dropTrailingCommas rest).Sublist rest := ih _ (Nat.lt_succ_self _) rest rfl
        by_cases hComma : c = ','
        · subst hComma
          have hBehind : rest.dropWhile Text.isBlank <:+ rest := List.dropWhile_suffix _
          cases hNext : rest.dropWhile Text.isBlank with
          | nil =>
              rw [dropTrailingCommas, if_pos rfl]
              split
              · rename_i hSome _
                cases hNext.symm.trans hSome
              · exact hRest.cons_cons ','
          | cons d after =>
              rw [hNext] at hBehind
              have hLess : after.length < (',' :: rest).length :=
                Nat.lt_succ_of_lt (hBehind.length_le)
              rw [dropTrailingCommas_comma hNext]
              split
              · exact (((ih _ hLess after rfl).cons_cons d).trans hBehind.sublist).cons ','
              · exact hRest.cons_cons ','
        · rw [dropTrailingCommas_cons hComma]
          exact hRest.cons_cons c

section Comma

variable (hBlanks : ∀ d ∈ blanks, Text.isBlank d = true) (rest : List Char)
include hBlanks

/-- A comma goes with the blanks between it and a closing bracket. -/
theorem dropTrailingCommas_closing (hClosing : c = '}' ∨ c = ']') :
    dropTrailingCommas (',' :: (blanks ++ c :: rest)) = c :: dropTrailingCommas rest := by
  have hFull : Text.isBlank c = false := by obtain rfl | rfl := hClosing <;> rfl
  rw [dropTrailingCommas_comma (Text.dropWhile_blanks hBlanks hFull rest), if_pos hClosing]

/-- A comma stays in front of anything else. -/
theorem dropTrailingCommas_other (hFull : Text.isBlank c = false) (hOther : ¬ (c = '}' ∨ c = ']')) :
    dropTrailingCommas (',' :: (blanks ++ c :: rest)) =
      ',' :: dropTrailingCommas (blanks ++ c :: rest) := by
  rw [dropTrailingCommas_comma (Text.dropWhile_blanks hBlanks hFull rest), if_neg hOther]

end Comma

/-- A text in which no comma has only blanks between it and a closing bracket. -/
def Tidy (cs : List Char) : Prop :=
  ∀ blanks c, (∀ d ∈ blanks, Text.isBlank d = true) → c = '}' ∨ c = ']' →
    ¬ ',' :: (blanks ++ [c]) <:+: cs

theorem Tidy.of_not_mem (hNone : ',' ∉ cs) : Tidy cs :=
  fun _ _ _ _ hInside => hNone (hInside.subset List.mem_cons_self)

theorem Tidy.of_infix {part : List Char} (hPart : part <:+: cs) (h : Tidy cs) : Tidy part :=
  fun blanks c hBlanks hClosing hInside => h blanks c hBlanks hClosing (hInside.trans hPart)

/-- A tidy text stays as it is, unless blanks or a comma end it. -/
theorem Tidy.dropTrailingCommas {last : Char} (hFull : Text.isBlank last = false) (hLast : last ≠ ',')
    (h : Tidy (cs ++ [last])) (rest : List Char) :
    dropTrailingCommas (cs ++ last :: rest) = cs ++ last :: dropTrailingCommas rest := by
  induction cs with
  | nil => exact dropTrailingCommas_cons hLast rest
  | cons c cs ih =>
      have hLater := ih (h.of_infix (List.suffix_cons c _).isInfix)
      by_cases hComma : c = ','
      · subst hComma
        have hPresent : ∃ d ∈ cs ++ [last], Text.isBlank d = false := ⟨last, by simp, hFull⟩
        obtain ⟨blanks, d, tail, hSplit, hBlanks, hFirst⟩ := Text.exists_first hPresent
        have hText : cs ++ last :: rest = blanks ++ d :: (tail ++ rest) := by
          rw [List.append_cons, hSplit]
          simp
        have hOther : ¬ (d = '}' ∨ d = ']') := by
          intro hClosing
          refine h blanks d hBlanks hClosing ⟨[], tail, ?_⟩
          rw [List.cons_append, hSplit]
          simp
        rw [List.cons_append, hText, dropTrailingCommas_other hBlanks _ hFirst hOther, ← hText, hLater]
        rfl
      · rw [List.cons_append, dropTrailingCommas_cons hComma, hLater]
        rfl

end TrailingCommas

/-- Repairs drop characters and do nothing else. -/
theorem sublist_repairChars (cs : List Char) : (repairChars cs).Sublist cs :=
  (Text.infix_of_trim _).sublist.trans ((sublist_dropTrailingCommas _).trans
    ((sublist_dropLineComments true _).trans (sublist_dropBlockComments cs)))

end StepFlow.Json
