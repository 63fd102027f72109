import StepFlow.Proofs.Expr.Blank

/-! The braces around a condition, which can be left out. What stands between them is evaluated
without the blanks at its ends, and so is a condition without braces. Only where there is nothing
but blanks the two forms evaluate different texts, and neither of these has a token. -/
namespace StepFlow.Expr

open Pattern (Braceless braced)

variable {context : Context}

/-- A condition is decided by what its body comes to. -/
theorem condition_congr {text other : String}
    (h : evaluate (conditionBody text) context = evaluate (conditionBody other) context) :
    condition text context = condition other context := by
  rw [condition, condition, h]

/-- Blanks around a condition do not count. -/
theorem conditionBody_around {left right : List Char} (hLeft : ∀ c ∈ left, Text.isBlank c = true)
    (hRight : ∀ c ∈ right, Text.isBlank c = true) (cs : List Char) :
    conditionBody (String.ofList (left ++ (cs ++ right))) = conditionBody (String.ofList cs) := by
  rw [conditionBody, conditionBody, String.toList_ofList, String.toList_ofList,
    Text.trim_around hLeft hRight]

/-- What holds no brace is its own body, trimmed. -/
theorem conditionBody_of_braceless {e : List Char} (hPlain : Braceless e) :
    conditionBody (String.ofList e) = String.ofList (Text.trim e) := by
  have hTrim : Braceless (Text.trim e) :=
    hPlain.sublist ((Pattern.trimRight_sublist _).trans (Pattern.trimLeft_sublist e))
  have hWhole : Placeholder.whole? (Text.trim e) = none := by
    cases hCases : Text.trim e with
    | nil => rfl
    | cons c cs =>
        rw [hCases] at hTrim
        exact Template.whole?_of_plain (hTrim c List.mem_cons_self).1 cs
  rw [conditionBody, String.toList_ofList, hWhole]
  rfl

/-- Nothing is trimmed off an expression in braces. -/
theorem trim_braced (e : List Char) : Text.trim (braced e) = braced e := by
  have hEnd : braced e = ('{' :: '{' :: (e ++ ['}'])) ++ ['}'] := by simp [braced]
  exact Text.trim_of_ends (by decide) (by decide) rfl hEnd

theorem conditionBody_braced {e : List Char} (hPlain : Braceless e)
    (hPresent : ∃ c ∈ e, Text.isBlank c = false) :
    conditionBody (String.ofList (braced e)) = String.ofList (Text.trim e) := by
  rw [conditionBody, String.toList_ofList, trim_braced, Placeholder.whole?_braced hPlain hPresent]
  rfl

/-- Between braces, blanks come to nothing. The last of them is evaluated, or the braces themselves
if there is none. -/
theorem evaluate_conditionBody_blanks {blanks : List Char}
    (hBlanks : ∀ c ∈ blanks, Text.isBlank c = true) :
    evaluate (conditionBody (String.ofList (braced blanks))) context = (.null, []) := by
  have hWhole : Placeholder.whole? (braced blanks) = blanks.getLast?.map ([·]) := by
    have hNone : Text.trimLeft blanks = [] := List.dropWhile_eq_nil_iff.mpr hBlanks
    rw [Placeholder.whole?, Placeholder.inside?_eq_some_iff.mpr rfl]
    simp [hNone]
  rw [conditionBody, String.toList_ofList, trim_braced, hWhole]
  cases hLast : blanks.getLast? with
  | none =>
      obtain rfl : blanks = [] := List.getLast?_eq_none_iff.mp hLast
      apply evaluate_of_no_tokens
      have hTrim := trim_braced []
      rw [Option.map_none, Option.getD_none, String.toList_ofList, hTrim]
      simp only [braced, List.nil_append]
      rw [Token.scan_brace (.inl rfl), Token.scan_brace (.inl rfl), Token.scan_brace (.inr rfl),
        Token.scan_brace (.inr rfl)]
      exact Token.scan.eq_def []
  | some blank =>
      apply evaluate_blanks
      intro c hMem
      rw [List.mem_singleton.mp hMem]
      exact hBlanks blank (List.mem_of_getLast? hLast)

/-- Blanks are no braces. -/
theorem braceless_of_blanks {blanks : List Char} (hBlanks : ∀ c ∈ blanks, Text.isBlank c = true) :
    Braceless blanks := by
  intro c hMem
  have hBlank := hBlanks c hMem
  refine ⟨?_, ?_⟩
  · rintro rfl
    exact absurd hBlank (by decide)
  · rintro rfl
    exact absurd hBlank (by decide)

/-- The braces around a condition can be left out, and so can all blanks on either side of them.
With them or without, an expression that holds no brace comes to the same truth or to the same
fault, and the same is told about it. It may be blank, malformed or end inside of a text. -/
theorem condition_braced {u w e w' u' : List Char} (hPlain : Braceless e)
    (hBlanks : ∀ blanks ∈ [u, w, w', u'], Text.allBlank blanks = true) (context : Context) :
    condition (String.ofList (u ++ (braced (w ++ (e ++ w')) ++ u'))) context =
      condition (String.ofList e) context := by
  obtain ⟨hu, hw, hw', hu'⟩ : (∀ c ∈ u, Text.isBlank c = true) ∧ (∀ c ∈ w, Text.isBlank c = true) ∧
      (∀ c ∈ w', Text.isBlank c = true) ∧ ∀ c ∈ u', Text.isBlank c = true := by
    simpa [Text.allBlank] using hBlanks
  apply condition_congr
  rw [conditionBody_around hu hu', conditionBody_of_braceless hPlain]
  by_cases hPresent : ∃ c ∈ e, Text.isBlank c = false
  · have hInside : Braceless (w ++ (e ++ w')) := by
      intro c hMem
      simp only [List.mem_append] at hMem
      rcases hMem with hMem | hMem | hMem
      · exact braceless_of_blanks hw c hMem
      · exact hPlain c hMem
      · exact braceless_of_blanks hw' c hMem
    obtain ⟨c, hMem, hFull⟩ := hPresent
    rw [conditionBody_braced hInside ⟨c, by simp [hMem], hFull⟩, Text.trim_around hw hw']
  · -- both forms come to nothing, although they are not evaluated as the same text
    have hAll : ∀ c ∈ e, Text.isBlank c = true := by
      intro c hMem
      by_contra hFull
      exact hPresent ⟨c, hMem, Bool.eq_false_of_not_eq_true hFull⟩
    have hInside : ∀ c ∈ w ++ (e ++ w'), Text.isBlank c = true := by
      intro c hMem
      simp only [List.mem_append] at hMem
      rcases hMem with hMem | hMem | hMem
      · exact hw c hMem
      · exact hAll c hMem
      · exact hw' c hMem
    have hNothing : ∀ c ∈ Text.trim e, Text.isBlank c = true :=
      fun c hMem => hAll c ((Text.infix_of_trim e).subset hMem)
    rw [evaluate_conditionBody_blanks hInside, evaluate_blanks hNothing]

/-- A text that is not closed, with a blank at its end, is one of these expressions. -/
theorem unclosed_text_braced :
    Braceless "a == 'b ".toList ∧
    (∀ blanks ∈ [['\n'], ['\t'], [' ', ' '], [' ']], Text.allBlank blanks = true) ∧
    ∀ context, condition (String.ofList
        (['\n'] ++ (braced (['\t'] ++ ("a == 'b ".toList ++ [' ', ' '])) ++ [' ']))) context =
      condition (String.ofList "a == 'b ".toList) context := by
  have hPlain : Braceless "a == 'b ".toList := by simp [Braceless]
  have hBlanks : ∀ blanks ∈ [['\n'], ['\t'], [' ', ' '], [' ']], Text.allBlank blanks = true := by
    decide
  exact ⟨hPlain, hBlanks, condition_braced hPlain hBlanks⟩

end StepFlow.Expr
