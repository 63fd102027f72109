import Mathlib.Data.List.DropRight
import Mathlib.Data.List.TakeWhile
import StepFlow.Text.Blank

/-! Laws of trimming. It stops on either side at the first character that is not blank, the two
sides can be trimmed in either order, and a part of a text stays a part of it. -/
namespace StepFlow.Text

/-- Trimming stops at a character that is not blank. -/
theorem trimRight_append {cs rest : List Char} {c : Char} (hLast : isBlank c = false) :
    trimRight (cs ++ c :: rest) = cs ++ c :: trimRight rest := by
  have hStop : (c :: cs.reverse).dropWhile isBlank = c :: cs.reverse := by
    rw [List.dropWhile_cons, hLast, if_neg (by simp)]
  unfold trimRight
  rw [List.reverse_append, List.reverse_cons, List.append_assoc, List.singleton_append,
    List.dropWhile_append]
  split
  · rename_i hEmpty
    rw [hStop, List.isEmpty_iff.mp hEmpty]
    simp
  · simp

theorem trimRight_blanks {blanks : List Char} (hBlanks : ∀ c ∈ blanks, isBlank c = true) :
    trimRight blanks = [] := by
  unfold trimRight
  rw [List.reverse_eq_nil_iff, List.dropWhile_eq_nil_iff]
  intro c hMem
  exact hBlanks c (List.mem_reverse.mp hMem)

/-- The two ends of a text can be trimmed in either order. -/
theorem trim_eq (cs : List Char) : trim cs = trimLeft (trimRight cs) := by
  have hBlanks : ∀ c ∈ cs.takeWhile isBlank, isBlank c = true :=
    List.all_eq_true.mp List.all_takeWhile
  have hSplit := List.takeWhile_append_dropWhile (p := isBlank) (l := cs)
  unfold trim trimLeft
  cases hRest : cs.dropWhile isBlank with
  | nil =>
      rw [hRest, List.append_nil] at hSplit
      rw [hSplit] at hBlanks
      rw [trimRight_blanks hBlanks]
      rfl
  | cons c rest =>
      have hFirst : isBlank c = false := by
        have hHead := List.head?_dropWhile_not isBlank cs
        rw [hRest] at hHead
        simpa using hHead
      rw [hRest] at hSplit
      have hStop : trimRight ([] ++ c :: rest) = [] ++ c :: trimRight rest :=
        trimRight_append hFirst
      rw [← hSplit, trimRight_append hFirst, List.dropWhile_append_of_pos hBlanks,
        List.dropWhile_cons, hFirst, if_neg (by simp)]
      exact hStop

/-- Trimming on the left stops at a character that is not blank. -/
theorem trimLeft_append {cs rest : List Char} {c : Char} (hFirst : isBlank c = false) :
    trimLeft (cs ++ c :: rest) = trimLeft cs ++ c :: rest := by
  unfold trimLeft
  rw [List.dropWhile_append]
  split
  · rename_i hEmpty
    rw [List.isEmpty_iff.mp hEmpty, List.dropWhile_cons, hFirst, if_neg (by simp)]
    rfl
  · rfl

theorem trimRight_trimRight (cs : List Char) :
    trimRight (trimRight cs) = trimRight cs := by
  unfold trimRight
  rw [List.reverse_reverse, List.dropWhile_idempotent]

theorem trimLeft_trimLeft (cs : List Char) :
    trimLeft (trimLeft cs) = trimLeft cs := List.dropWhile_idempotent isBlank _

/-- A trimmed text stays as it is. -/
theorem trim_trim (cs : List Char) : trim (trim cs) = trim cs := by
  have hSwap : trim (trim cs) = trimRight (trimLeft (trim cs)) := rfl
  rw [hSwap, trim_eq cs, trimLeft_trimLeft, ← trim_eq]
  unfold trim
  rw [trimRight_trimRight]

/-- What is not blank begins, once trimmed on the left, with a character that is not blank. -/
theorem trimLeft_of_present {cs : List Char} (h : ∃ c ∈ cs, isBlank c = false) :
    ∃ c rest, trimLeft cs = c :: rest ∧ isBlank c = false := by
  cases hRest : trimLeft cs with
  | nil =>
      obtain ⟨c, hMem, hFull⟩ := h
      rw [List.dropWhile_eq_nil_iff.mp hRest c hMem] at hFull
      cases hFull
  | cons c rest =>
      refine ⟨c, rest, rfl, ?_⟩
      have hHead := List.head?_dropWhile_not isBlank cs
      unfold trimLeft at hRest
      rw [hRest] at hHead
      simpa using hHead

/-- What is not blank has a first character that is not, with blanks in front of it. -/
theorem exists_first {cs : List Char} (h : ∃ c ∈ cs, isBlank c = false) :
    ∃ blanks c rest, cs = blanks ++ c :: rest ∧ (∀ d ∈ blanks, isBlank d = true) ∧
      isBlank c = false := by
  obtain ⟨c, rest, hRest, hFull⟩ := trimLeft_of_present h
  refine ⟨cs.takeWhile isBlank, c, rest, ?_, List.all_eq_true.mp List.all_takeWhile, hFull⟩
  rw [← hRest]
  exact List.takeWhile_append_dropWhile.symm

/-- A text whose ends are not blank is trimmed already. -/
theorem trim_of_ends {cs front rest : List Char} {c d : Char} (hFirst : isBlank c = false)
    (hLast : isBlank d = false) (hHead : cs = c :: rest) (hEnd : cs = front ++ [d]) :
    trim cs = cs := by
  have hLeft : trimLeft cs = cs := by
    rw [trimLeft, hHead, List.dropWhile_cons, hFirst, if_neg (by simp)]
  have hRight : trimRight (front ++ [d]) = front ++ [d] := trimRight_append hLast
  rw [trim, hLeft, hEnd, hRight]

/-- A text is what is left of it by trimming, with blanks around it. -/
theorem exists_trim (cs : List Char) : ∃ left right, cs = left ++ (trim cs ++ right) ∧
    (∀ c ∈ left, isBlank c = true) ∧ ∀ c ∈ right, isBlank c = true := by
  have hBlanks : ∀ ds : List Char, ∀ c ∈ ds.takeWhile isBlank, isBlank c = true :=
    fun ds => List.all_eq_true.mp List.all_takeWhile
  have hBack := congrArg List.reverse
    (List.takeWhile_append_dropWhile (p := isBlank) (l := (trimLeft cs).reverse))
  rw [List.reverse_append, List.reverse_reverse] at hBack
  refine ⟨cs.takeWhile isBlank, ((trimLeft cs).reverse.takeWhile isBlank).reverse, ?_, hBlanks cs, ?_⟩
  · exact (List.takeWhile_append_dropWhile.symm).trans (congrArg (cs.takeWhile isBlank ++ ·) hBack.symm)
  · exact fun c hMem => hBlanks _ c (List.mem_reverse.mp hMem)

/-- Blanks around a text are trimmed. -/
theorem trim_around {left right : List Char} (hLeft : ∀ c ∈ left, isBlank c = true)
    (hRight : ∀ c ∈ right, isBlank c = true) (cs : List Char) :
    trim (left ++ (cs ++ right)) = trim cs := by
  have hFront : trimLeft (left ++ (cs ++ right)) = trimLeft (cs ++ right) :=
    List.dropWhile_append_of_pos hLeft
  have hBack : trimRight (cs ++ right) = trimRight cs := by
    unfold trimRight
    rw [List.reverse_append,
      List.dropWhile_append_of_pos fun c hMem => hRight c (List.mem_reverse.mp hMem)]
  rw [trim, hFront, ← trim, trim_eq, hBack, ← trim_eq]

section Blanks

variable {blanks : List Char} (hBlanks : ∀ c ∈ blanks, isBlank c = true)
include hBlanks

theorem dropWhile_blanks {c : Char} (hFirst : isBlank c = false) (cs : List Char) :
    (blanks ++ c :: cs).dropWhile isBlank = c :: cs := by
  rw [List.dropWhile_append_of_pos hBlanks, List.dropWhile_cons, hFirst, if_neg (by simp)]

theorem takeWhile_blanks {c : Char} (hFirst : isBlank c = false) (cs : List Char) :
    (blanks ++ c :: cs).takeWhile isBlank = blanks := by
  rw [List.takeWhile_append_of_pos hBlanks, List.takeWhile_cons, hFirst, if_neg (by simp),
    List.append_nil]

end Blanks

theorem infix_trimLeft {part cs : List Char} (h : part <:+: cs) : trimLeft part <:+: trimLeft cs := by
  obtain ⟨before, after, rfl⟩ := h
  unfold trimLeft
  rw [List.append_assoc, List.dropWhile_append]
  split
  · rw [List.dropWhile_append]
    split
    · rename_i hEmpty
      rw [List.isEmpty_iff.mp hEmpty]
      exact List.nil_infix
    · exact (List.prefix_append _ _).isInfix
  · have hPart : part.dropWhile isBlank <:+: part ++ after :=
      (List.dropWhile_suffix isBlank).isInfix.trans (List.prefix_append part after).isInfix
    exact hPart.trans (List.suffix_append _ _).isInfix

theorem infix_trimRight {part cs : List Char} (h : part <:+: cs) :
    trimRight part <:+: trimRight cs := by
  have hReversed : part.reverse <:+: cs.reverse := List.reverse_infix.mpr h
  exact List.reverse_infix.mpr (infix_trimLeft hReversed)

/-- A part of a text, trimmed, is a part of the trimmed text. -/
theorem infix_trim {part cs : List Char} (h : part <:+: cs) : trim part <:+: trim cs :=
  infix_trimRight (infix_trimLeft h)

theorem infix_of_trimRight (cs : List Char) : trimRight cs <:+: cs := by
  have hReversed := (List.dropWhile_suffix (l := cs.reverse) isBlank).isInfix
  have hBack := List.reverse_infix.mpr hReversed
  rwa [List.reverse_reverse] at hBack

theorem infix_of_trim (cs : List Char) : trim cs <:+: cs :=
  (infix_of_trimRight _).trans (List.dropWhile_suffix isBlank).isInfix

end StepFlow.Text
