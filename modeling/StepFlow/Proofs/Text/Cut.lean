import StepFlow.Text.Blank

/-! Cutting a text at a mark. The cut is made where the mark first begins, so that what stands before
it holds none. -/
namespace StepFlow.Text

variable {mark : List Char}

/-- What stands before a cut begins the text. -/
theorem prefix_of_cutAt (cs : List Char) : (cutAt mark cs).1 <+: cs := by
  induction cs with
  | nil => exact List.nil_prefix
  | cons c cs ih =>
      unfold cutAt
      split
      · exact List.nil_prefix
      · exact (List.prefix_cons_inj c).mpr ih

/-- Before a cut there is no mark. -/
theorem not_infix_of_cutAt (hMark : mark ≠ []) (cs : List Char) : ¬ mark <:+: (cutAt mark cs).1 := by
  induction cs with
  | nil => exact fun hPart => hMark (List.eq_nil_of_infix_nil hPart)
  | cons c cs ih =>
      unfold cutAt
      split
      · exact fun hPart => hMark (List.eq_nil_of_infix_nil hPart)
      · rename_i hHead
        intro hPart
        rcases List.infix_cons_iff.mp hPart with hPrefix | hLater
        · have hWhole : c :: (cutAt mark cs).1 <+: c :: cs :=
            (List.prefix_cons_inj c).mpr (prefix_of_cutAt cs)
          exact hHead (List.isPrefixOf_iff_prefix.mpr (hPrefix.trans hWhole))
        · exact ih hLater

/-- A text that holds the mark is cut. -/
theorem exists_cutAt {cs : List Char} (h : mark <:+: cs) :
    ∃ before after, cutAt mark cs = (before, some after) := by
  induction cs with
  | nil =>
      rw [List.eq_nil_of_infix_nil h]
      exact ⟨[], [], rfl⟩
  | cons c cs ih =>
      by_cases hHead : mark.isPrefixOf (c :: cs) = true
      · exact ⟨[], (c :: cs).drop mark.length, by rw [cutAt, if_pos hHead]⟩
      · rcases List.infix_cons_iff.mp h with hPrefix | hLater
        · exact absurd (List.isPrefixOf_iff_prefix.mpr hPrefix) hHead
        · obtain ⟨before, after, hCut⟩ := ih hLater
          exact ⟨c :: before, after, by rw [cutAt, if_neg hHead, hCut]⟩

end StepFlow.Text
