import StepFlow.Proofs.Json.Reply

/-! What is taken for the document of a text without fences: all from its first opening bracket to its
last closing one, braces before square brackets. -/
namespace StepFlow.Json

/-- A text that holds a mark and, somewhere behind it, another. -/
def Encloses (opening closing cs : List Char) : Prop :=
  ∃ front inside back, cs = front ++ (opening ++ (inside ++ (closing ++ back)))

variable {opening closing cs : List Char}

theorem Encloses.of_infix {part : List Char} (hPart : part <:+: cs) (h : Encloses opening closing part) :
    Encloses opening closing cs := by
  obtain ⟨before, after, rfl⟩ := hPart
  obtain ⟨front, inside, back, rfl⟩ := h
  exact ⟨before ++ front, inside, back ++ after, by simp⟩

theorem Encloses.of_parts {part : List Char} (front : List Char) (hPart : closing <:+: part) :
    Encloses opening closing (front ++ (opening ++ part)) := by
  obtain ⟨inside, back, rfl⟩ := hPart
  exact ⟨front, inside, back, by simp⟩

/-- A mark needs its characters. -/
theorem not_encloses {c : Char} (hMark : c ∈ opening) (hNone : c ∉ cs) :
    ¬ Encloses opening closing cs := by
  rintro ⟨front, inside, back, rfl⟩
  exact hNone (List.mem_append_right _ (List.mem_append_left _ hMark))

section Fences

/-- A fence is closed. -/
theorem fenceMark_infix_of_fenced? {found : List Char} (h : fenced? cs = some found) :
    fenceMark <:+: cs := by
  unfold fenced? at h
  split at h
  · rename_i body after hCut
    have hInside : fenceMark <:+: Text.trimLeft cs := ⟨body, after, Text.cutAt_append hCut⟩
    exact hInside.trans (List.dropWhile_suffix Text.isBlank).isInfix
  · cases h

variable (hNone : ¬ Encloses fenceMark fenceMark cs)
include hNone

theorem marked_eq_none : (afterMarkedFence? cs).bind fenced? = none := by
  rw [Option.bind_eq_none_iff]
  intro rest hRest
  rw [Option.eq_none_iff_forall_ne_some]
  intro found hFound
  obtain ⟨front, word, rfl, -⟩ := afterMarkedFence?_eq_some hRest
  have hBehind : fenceMark <:+: word ++ rest :=
    (fenceMark_infix_of_fenced? hFound).trans (List.suffix_append word rest).isInfix
  exact hNone (.of_parts front hBehind)

theorem plain_eq_none : (Text.cutAt fenceMark cs).2.bind fenced? = none := by
  rw [Option.bind_eq_none_iff]
  intro rest hRest
  rw [Option.eq_none_iff_forall_ne_some]
  intro found hFound
  have hText : (Text.cutAt fenceMark cs).1 ++ fenceMark ++ rest = cs :=
    Text.cutAt_append (Prod.ext rfl hRest)
  rw [← hText, List.append_assoc] at hNone
  exact hNone (.of_parts _ (fenceMark_infix_of_fenced? hFound))

end Fences

theorem extractChars_of_unfenced (hNone : ¬ Encloses fenceMark fenceMark (Text.trim cs)) :
    extractChars cs = ((between? '\x7b' '}' (Text.trim cs)).or
      (between? '[' ']' (Text.trim cs))).getD (Text.trim cs) := by
  unfold extractChars
  simp only [marked_eq_none hNone, plain_eq_none hNone]
  cases between? '\x7b' '}' (Text.trim cs) with
  | some found => rfl
  | none => cases between? '[' ']' (Text.trim cs) <;> rfl

section Cores

variable {mark : Char}

/-- What begins with a mark begins behind a text without it. -/
theorem exists_of_front {front cs before after : List Char} (hFront : mark ∉ front)
    (h : front ++ cs = before ++ mark :: after) : ∃ middle, cs = middle ++ mark :: after := by
  induction front generalizing before with
  | nil => exact ⟨before, h⟩
  | cons c front ih =>
      cases before with
      | nil => exact absurd (List.cons.inj h).1 fun hSame => hFront (hSame ▸ List.mem_cons_self)
      | cons d before =>
          exact ih (fun hMem => hFront (List.mem_cons_of_mem c hMem)) (List.cons.inj h).2

/-- What ends with a mark ends before a text without it. -/
theorem exists_of_back {back cs before after : List Char} (hBack : mark ∉ back)
    (h : cs ++ back = before ++ mark :: after) : ∃ middle, cs = before ++ mark :: middle := by
  induction cs generalizing before with
  | nil =>
      refine absurd ?_ hBack
      rw [show back = before ++ mark :: after from h]
      exact List.mem_append_right before List.mem_cons_self
  | cons c cs ih =>
      cases before with
      | nil => exact ⟨cs, by rw [(List.cons.inj h).1]; rfl⟩
      | cons d before =>
          obtain ⟨middle, rfl⟩ := ih (List.cons.inj h).2
          exact ⟨middle, by rw [(List.cons.inj h).1]; rfl⟩

end Cores

section Between

variable {first last : Char}

theorem dropWhile_ne {front : List Char} (hFront : first ∉ front) (rest : List Char) :
    (front ++ first :: rest).dropWhile (· ≠ first) = first :: rest := by
  rw [List.dropWhile_append_of_pos, List.dropWhile_cons, if_neg (by simp)]
  intro c hMem
  exact decide_eq_true fun hSame => hFront (hSame ▸ hMem)

/-- What stands between brackets is found where it begins with the first and ends with the last. -/
theorem between?_eq_some {front back : List Char} (hFront : first ∉ front) (hBack : last ∉ back)
    (inside : List Char) :
    between? first last (front ++ first :: (inside ++ last :: back)) =
      some (first :: (inside ++ [last])) := by
  have hStart := dropWhile_ne hFront (inside ++ last :: back)
  have hReversed : (first :: (inside ++ last :: back)).reverse =
      back.reverse ++ last :: (first :: inside).reverse := by simp
  have hReach : (first :: (inside ++ last :: back)).reverse.dropWhile (· ≠ last) =
      last :: (first :: inside).reverse := by
    rw [hReversed]
    exact dropWhile_ne (fun hMem => hBack (List.mem_reverse.mp hMem)) _
  unfold between?
  simp only [hStart, hReach]
  simp

/-- Nothing is found without a closing bracket behind an opening one. -/
theorem between?_eq_none (hOther : first ≠ last) (hNone : ¬ Encloses [first] [last] cs) :
    between? first last cs = none := by
  by_cases hMem : first ∈ cs
  · obtain ⟨front, rest, rfl, hFront⟩ := List.eq_append_cons_of_mem hMem
    have hRest : ∀ c ∈ first :: rest, c ≠ last := by
      refine List.forall_mem_cons.mpr ⟨hOther, ?_⟩
      rintro _ hLast rfl
      obtain ⟨inside, back, rfl⟩ := List.append_of_mem hLast
      exact hNone ⟨front, inside, back, rfl⟩
    have hReach : (first :: rest).reverse.dropWhile (· ≠ last) = [] := by
      rw [List.dropWhile_eq_nil_iff]
      exact fun c hMem => decide_eq_true (hRest c (List.mem_reverse.mp hMem))
    unfold between?
    simp only [dropWhile_ne hFront, hReach]
    rfl
  · have hStart : cs.dropWhile (· ≠ first) = [] := by
      rw [List.dropWhile_eq_nil_iff]
      intro c hIn
      exact decide_eq_true fun hSame => hMem (hSame ▸ hIn)
    unfold between?
    simp only [hStart]
    rfl

end Between

section Parts

variable {cs found : List Char}

theorem infix_of_fenced? (h : fenced? cs = some found) : found <:+: cs := by
  unfold fenced? at h
  split at h
  · rename_i body after hCut
    cases h
    have hBody : body <:+: Text.trimLeft cs :=
      ⟨[], fenceMark ++ after, by rw [← Text.cutAt_append hCut]; simp⟩
    exact ((Text.infix_of_trim body).trans hBody).trans (List.dropWhile_suffix Text.isBlank).isInfix
  · cases h

theorem suffix_of_afterMarkedFence? {rest : List Char} (h : afterMarkedFence? cs = some rest) :
    rest <:+ cs := by
  obtain ⟨front, word, rfl, -⟩ := afterMarkedFence?_eq_some h
  exact ⟨front ++ (fenceMark ++ word), by simp⟩

theorem infix_of_between? {first last : Char} (h : between? first last cs = some found) :
    found <:+: cs := by
  unfold between? at h
  simp only at h
  split at h
  · cases h
  · cases h
    have hReach := List.reverse_prefix.mpr
      (List.dropWhile_suffix (l := (cs.dropWhile (· ≠ first)).reverse) (· ≠ last))
    rw [List.reverse_reverse] at hReach
    exact hReach.isInfix.trans (List.dropWhile_suffix _).isInfix

/-- What is taken for a document is a part of the text. -/
theorem infix_extractChars (cs : List Char) : extractChars cs <:+: cs := by
  refine List.IsInfix.trans ?_ (Text.infix_of_trim cs)
  unfold extractChars
  simp only
  split
  · rename_i found hFound
    simp only [Option.orElse_eq_orElse, Option.orElse_eq_or, Option.or_eq_some_iff] at hFound
    rcases hFound with hMarked | ⟨-, hPlain | ⟨-, hBraces | ⟨-, hBrackets⟩⟩⟩
    · obtain ⟨rest, hRest, hFenced⟩ := Option.bind_eq_some_iff.mp hMarked
      exact (infix_of_fenced? hFenced).trans (suffix_of_afterMarkedFence? hRest).isInfix
    · obtain ⟨rest, hRest, hFenced⟩ := Option.bind_eq_some_iff.mp hPlain
      have hText : (Text.cutAt fenceMark (Text.trim cs)).1 ++ fenceMark ++ rest = Text.trim cs :=
        Text.cutAt_append (Prod.ext rfl hRest)
      exact (infix_of_fenced? hFenced).trans ⟨_, [], by rw [List.append_nil, hText]⟩
    · exact infix_of_between? hBraces
    · exact infix_of_between? hBrackets
  · exact List.infix_rfl

theorem infix_of_wholeFence? (h : wholeFence? cs = some found) : found <:+: cs := by
  obtain ⟨tag, inside, rfl, rfl, -⟩ := wholeFence?_eq_some_iff.mp h
  exact (Text.infix_of_trim inside).trans ⟨fenceMark ++ tag, fenceMark, by simp⟩

end Parts

end StepFlow.Json
