import StepFlow.Proofs.Json.Overlong
import StepFlow.Proofs.Json.Reply

/-! What a strict reading accepts: a reply that is a document, and a reply that is no document but one
fence around a document. Every other reply is handed back, unless an integer in it is too long. -/
namespace StepFlow.Json

/-- A text that is one fence around another: its opening mark can be tagged, and there can be blanks
on either side of what it holds. -/
def Fences (cs doc : List Char) : Prop :=
  ∃ tag left right, cs = fenceMark ++ (tag ++ (left ++ (doc ++ (right ++ fenceMark)))) ∧
    (tag = [] ∨ IsTag tag) ∧ (∀ c ∈ left, Text.isBlank c = true) ∧
    ∀ c ∈ right, Text.isBlank c = true

/-- What a reply comes to as it stands or, where it is no document, as one fence. -/
def ComesTo (s : String) (r : Except Failure Value) : Prop :=
  parse s = r ∨ (∀ v, parse s ≠ .ok v) ∧ ∃ doc, Fences (Text.trim s.toList) doc ∧ parseChars doc = r

section Fences

variable {cs doc body : List Char} {v : Value}

theorem fences_of_wholeFence? (h : wholeFence? cs = some body) : Fences cs body := by
  obtain ⟨tag, inside, rfl, rfl, hTag⟩ := wholeFence?_eq_some_iff.mp h
  obtain ⟨left, right, hInside, hLeft, hRight⟩ := Text.exists_trim inside
  refine ⟨tag, left, right, ?_, ?_, hLeft, hRight⟩
  · conv_lhs => rw [hInside]
    simp
  · rcases hTag with hTag | ⟨hNone, -⟩
    · exact .inr hTag
    · exact .inl hNone

/-- Only an s has a third form. -/
theorem eq_or_eq_of_matchesLetter {letter upper c : Char} (hOther : letter ≠ 's')
    (hCase : letter.val = upper.val + ('a'.val - 'A'.val)) (h : matchesLetter letter c = true) :
    c = letter ∨ c = upper := by
  have hLower : c.toLower = letter := by simpa [matchesLetter, hOther] using h
  unfold Char.toLower at hLower
  split at hLower
  · have hVal : c.val + ('a'.val - 'A'.val) = upper.val + ('a'.val - 'A'.val) :=
      (congrArg Char.val hLower).trans hCase
    exact .inr (Char.ext ((UInt32.add_left_inj _).mp hVal))
  · exact .inl hLower

/-- What a tag begins with. -/
theorem eq_or_eq_of_first {c : Char} (h : matchesLetter 'j' c = true) : c = 'j' ∨ c = 'J' :=
  eq_or_eq_of_matchesLetter (by decide) rfl h

/-- What a tag ends with. -/
theorem eq_or_eq_of_last {c : Char} (h : matchesLetter 'n' c = true) : c = 'n' ∨ c = 'N' :=
  eq_or_eq_of_matchesLetter (by decide) rfl h

/-- No number goes on behind a tag. -/
theorem IsTag.detached {tag : List Char} (h : IsTag tag) : Detached tag := by
  obtain ⟨c, front, hText, hLast⟩ : ∃ c front, tag = front ++ [c] ∧ matchesLetter 'n' c = true := by
    match tag, h with
    | [_, _, _, c], .cons _ (.cons _ (.cons _ (.cons hLast .nil))) => exact ⟨c, [_, _, _], rfl, hLast⟩
  intro d hEnd
  rw [hText, List.getLast?_concat] at hEnd
  cases hEnd
  obtain rfl | rfl := eq_or_eq_of_last hLast
  · rfl
  · rfl

/-- No document begins with the letter of a tag. -/
theorem parseChars_tag {c : Char} (hLetter : matchesLetter 'j' c = true) (rest : List Char) :
    parseChars (c :: rest) = .error .malformed := by
  refine parseChars_of_failure ?_
  obtain rfl | rfl := eq_or_eq_of_first hLetter
  · change (readValue ('j' :: rest)).pair = _
    rw [pair_readValue_atom rfl]
    rfl
  · change (readValue ('J' :: rest)).pair = _
    rw [pair_readValue_atom rfl]
    rfl

/-- A document, with blanks in front of it or not, begins with no tag. -/
theorem dropWord?_of_parseChars (h : parseChars doc = .ok v) {left : List Char}
    (hLeft : ∀ c ∈ left, Text.isBlank c = true) (more : List Char) :
    dropWord? ['j', 's', 'o', 'n'] (left ++ (doc ++ more)) = none := by
  cases hWord : dropWord? ['j', 's', 'o', 'n'] (left ++ (doc ++ more)) with
  | none => rfl
  | some rest =>
      exfalso
      obtain ⟨tag, hText, hTag⟩ := dropWord?_eq_some_iff.mp hWord
      cases hTag with
      | @cons _ c _ tag hLetter _ =>
          match left, doc with
          | [], [] => cases parseChars_nil.symm.trans h
          | [], d :: doc =>
              rw [(List.cons.inj hText).1] at h
              cases (parseChars_tag hLetter doc).symm.trans h
          | d :: left, doc =>
              have hBlank := hLeft d List.mem_cons_self
              rw [(List.cons.inj hText).1] at hBlank
              obtain rfl | rfl := eq_or_eq_of_first hLetter
              · cases hBlank
              · cases hBlank

/-- A fence around a document holds that document, without the blanks around it. -/
theorem wholeFence?_of_fences (hFence : Fences cs doc) (h : parseChars doc = .ok v) :
    wholeFence? cs = some (Text.trim doc) := by
  obtain ⟨tag, left, right, rfl, hTag, hLeft, hRight⟩ := hFence
  refine wholeFence?_eq_some_iff.mpr ⟨tag, left ++ (doc ++ right), by simp, ?_, ?_⟩
  · exact Text.trim_around hLeft hRight doc
  · rcases hTag with rfl | hTag
    · refine .inr ⟨rfl, ?_⟩
      rw [List.append_assoc, List.append_assoc]
      exact dropWord?_of_parseChars h hLeft _
    · exact .inl hTag

/-- What a fence holds stands in front of blanks or of its closing mark. -/
theorem overlong_of_fences {n : Nat} (hFence : Fences cs doc) (h : Overlong n doc) :
    Overlong n cs := by
  obtain ⟨tag, left, right, rfl, hTag, hLeft, hRight⟩ := hFence
  have hApart : Apart (right ++ fenceMark) :=
    (Apart.cons rfl _).append fun c hMem => isAtomChar_of_isBlank (hRight c hMem)
  have hMark : Detached fenceMark := by
    rintro _ ⟨⟩
    rfl
  have hTagged : Detached tag := by
    rcases hTag with rfl | hTag
    · exact .nil
    · exact hTag.detached
  have hBlanks : Detached left := .of_apart fun c hMem => isAtomChar_of_isBlank (hLeft c hMem)
  exact (((h.append hApart).behind hBlanks).behind hTagged).behind hMark

theorem parseChars_behind_blanks {left : List Char} (hLeft : ∀ c ∈ left, Text.isBlank c = true)
    (rest : List Char) : parseChars (left ++ '\x60' :: rest) = .error .malformed := by
  induction left with
  | nil => exact parseChars_backquote rest
  | cons c left ih =>
      have hLater := ih fun d hMem => hLeft d (List.mem_cons_of_mem c hMem)
      cases hSpace : isSpace c with
      | true =>
          have hSkip : skipSpace (c :: (left ++ '\x60' :: rest)) = skipSpace (left ++ '\x60' :: rest) :=
            skipSpace_of_spaces (List.forall_mem_singleton.mpr hSpace) _
          rw [parseChars_eq] at hLater
          rw [List.cons_append, parseChars_eq, hSkip, hLater]
      | false =>
          have hOther : isOpening c = false := by
            rw [← Bool.not_eq_true]
            intro hOpening
            cases (isBlank_of_isOpening hOpening).symm.trans (hLeft c List.mem_cons_self)
          exact parseChars_stray hSpace hOther _

/-- A reply that is a fence is no document, and holds more than blanks. -/
theorem not_document_of_fences (hFence : Fences (Text.trim cs) doc) :
    parseChars cs = .error .malformed ∧ Text.allBlank cs = false := by
  obtain ⟨tag, left, right, hTrim, -⟩ := hFence
  obtain ⟨before, after, hText, hBefore, -⟩ := Text.exists_trim cs
  rw [hTrim] at hText
  rw [hText]
  refine ⟨parseChars_behind_blanks hBefore _, ?_⟩
  simp [Text.allBlank, fenceMark, show Text.isBlank '\x60' = false from rfl]

end Fences

theorem overlong_of_trim {n : Nat} {cs : List Char} (h : Overlong n (Text.trim cs)) :
    Overlong n cs := by
  obtain ⟨left, right, hText, hLeft, hRight⟩ := Text.exists_trim cs
  have hApart : Apart right :=
    List.append_nil right ▸ Apart.append (fun c hMem => isAtomChar_of_isBlank (hRight c hMem)) .nil
  rw [hText]
  exact (h.append hApart).behind (.of_apart fun c hMem => isAtomChar_of_isBlank (hLeft c hMem))

variable {s : String}

theorem strictly_eq_some_iff {cs : List Char} {v : Value} :
    strictly cs = .ok (some v) ↔ ∃ doc, Fences (Text.trim cs) doc ∧ parseChars doc = .ok v := by
  unfold strictly
  constructor
  · intro h
    split at h
    · rename_i body hWhole
      exact ⟨body, fences_of_wholeFence? hWhole, parse?_eq_some_iff.mp h⟩
    · cases h
  · rintro ⟨doc, hFence, h⟩
    rw [wholeFence?_of_fences hFence h]
    exact parse?_eq_some_iff.mpr (parseChars_trim h)

/-- A strict reading accepts what a reply comes to, and nothing else. -/
theorem readReply_strict_iff {v : Value} :
    readReply false (.text s) = .ok (true, v) ↔ ComesTo s (.ok v) := by
  rw [readReply_text_iff, replyValue?_eq_some_iff, parse?_eq_some_iff, parse?_eq_none_iff]
  simp only [Bool.false_eq_true, if_false, strictly_eq_some_iff]
  constructor
  · rintro ⟨-, hWhole | ⟨hNone, hFence⟩⟩
    · exact .inl hWhole
    · refine .inr ⟨fun w hRead => ?_, hFence⟩
      cases hNone.symm.trans hRead
  · rintro (hWhole | ⟨-, doc, hFence, hRead⟩)
    · exact ⟨allBlank_of_parseChars hWhole, .inl hWhole⟩
    · obtain ⟨hNone, hFull⟩ := not_document_of_fences hFence
      exact ⟨hFull, .inr ⟨hNone, doc, hFence, hRead⟩⟩

/-- A strict reading fails only on an integer of too many digits. -/
theorem readReply_strict_error {f : Fault} (h : readReply false (.text s) = .error f) :
    ∃ n, f = .numeralTooLong n ∧ ComesTo s (.error (.numeralTooLong n)) ∧ Overlong n s.toList := by
  obtain ⟨-, hWhole | ⟨hNone, hStrict⟩⟩ :=
    replyValue?_eq_error_iff.mp (readReply_text_error_iff.mp h)
  · obtain ⟨n, rfl, hRead⟩ := parse?_eq_error_iff.mp hWhole
    exact ⟨n, rfl, .inl hRead, overlong_of_parseChars hRead⟩
  · change strictly s.toList = .error f at hStrict
    unfold strictly at hStrict
    split at hStrict
    · rename_i body hBody
      obtain ⟨n, rfl, hRead⟩ := parse?_eq_error_iff.mp hStrict
      have hFence := fences_of_wholeFence? hBody
      have hOverlong := overlong_of_trim (overlong_of_fences hFence (overlong_of_parseChars hRead))
      refine ⟨n, rfl, .inr ⟨fun v hDocument => ?_, body, hFence, hRead⟩, hOverlong⟩
      cases (parse?_eq_none_iff.mp hNone).symm.trans hDocument
    · cases hStrict

/-- A strict reading accepts exactly the replies that are a document and those that are one fence
around a document, with the value of that document. It hands back every other reply as it was, except
for one that is not read because of an integer of too many digits that it holds. -/
theorem strict_reading (s : String) :
    (∀ v, readReply false (.text s) = .ok (true, v) ↔ ComesTo s (.ok v)) ∧
      ((∀ v, ¬ ComesTo s (.ok v)) →
        readReply false (.text s) = .ok (false, .text s) ∨
          ∃ n, readReply false (.text s) = .error (.numeralTooLong n) ∧
            ComesTo s (.error (.numeralTooLong n)) ∧ Overlong n s.toList) := by
  refine ⟨fun v => readReply_strict_iff, fun hNone => ?_⟩
  cases hReply : readReply false (.text s) with
  | error f =>
      obtain ⟨n, rfl, hComes, hOverlong⟩ := readReply_strict_error hReply
      exact .inr ⟨n, rfl, hComes, hOverlong⟩
  | ok out =>
      obtain ⟨accepted, v⟩ := out
      cases accepted with
      | true => exact absurd (readReply_strict_iff.mp hReply) (hNone v)
      | false =>
          rw [eq_of_readReply_refused hReply]
          exact .inl rfl

end StepFlow.Json
