import Mathlib.Data.List.Forall2
import StepFlow.Json.Reply
import StepFlow.Proofs.Json.Spelling
import StepFlow.Proofs.Text.Cut
import StepFlow.Proofs.Text.Trim

/-! Strict and lenient readings of a reply. A strict reading takes the closing fence to be the one
at the end of the reply, a lenient one takes the first behind the opening one. The two agree unless
the document itself holds what looks like a fence. What a lenient reading then looks at is a part of
the document. -/
namespace StepFlow.Json

/-- A text that neither holds the mark of a fence nor could become a part of one at its ends. -/
structure Unfenced (cs : List Char) : Prop where
  present : cs ≠ []
  inside : ¬ fenceMark <:+: cs
  first : cs.head? ≠ some '\x60'
  last : cs.getLast? ≠ some '\x60'

namespace Unfenced

theorem reverse {cs : List Char} (h : Unfenced cs) : Unfenced cs.reverse where
  present := fun hNil => h.present (List.reverse_eq_nil_iff.mp hNil)
  inside := fun hPart => h.inside (List.reverse_infix.mp hPart)
  first := List.head?_reverse ▸ h.last
  last := List.getLast?_reverse ▸ h.first

theorem cons {cs : List Char} (h : Unfenced cs) {c : Char} (hOther : c ≠ '\x60') :
    Unfenced (c :: cs) where
  present := List.cons_ne_nil c cs
  inside := by
    intro hPart
    rcases List.infix_cons_iff.mp hPart with hPrefix | hLater
    · exact hOther (List.cons_prefix_cons.mp hPrefix).1.symm
    · exact h.inside hLater
  first := fun hHead => hOther (Option.some.inj hHead)
  last := by
    rw [List.getLast?_cons_of_ne_nil h.present]
    exact h.last

theorem behind_blanks {blanks cs : List Char} (hBlanks : ∀ c ∈ blanks, Text.isBlank c = true)
    (h : Unfenced cs) : Unfenced (blanks ++ cs) := by
  induction blanks with
  | nil => exact h
  | cons c blanks ih =>
      have hBlank : Text.isBlank c = true := hBlanks c List.mem_cons_self
      have hOther : c ≠ '\x60' := by
        rintro rfl
        cases hBlank
      exact (ih fun d hMem => hBlanks d (List.mem_cons_of_mem c hMem)).cons hOther

theorem of_trimLeft {cs : List Char} (h : Unfenced (Text.trimLeft cs)) : Unfenced cs := by
  have hBlanks : ∀ c ∈ cs.takeWhile Text.isBlank, Text.isBlank c = true :=
    List.all_eq_true.mp List.all_takeWhile
  have hSplit := List.takeWhile_append_dropWhile (p := Text.isBlank) (l := cs)
  rw [← hSplit]
  exact h.behind_blanks hBlanks

/-- Blanks around a text make no fence of it. -/
theorem of_trim {cs : List Char} (h : Unfenced (Text.trim cs)) : Unfenced cs := by
  refine of_trimLeft ?_
  have hReversed : Unfenced (Text.trimLeft (Text.trimLeft cs).reverse) := by
    have hBack := h.reverse
    rwa [Text.trim, Text.trimRight, List.reverse_reverse] at hBack
  have hBack := hReversed.of_trimLeft.reverse
  rwa [List.reverse_reverse] at hBack

/-- Behind such a text, a mark stands at the first place where there is one. -/
theorem closed {cs front back : List Char} (h : Unfenced cs)
    (hText : cs ++ fenceMark = front ++ (fenceMark ++ back)) : front = cs := by
  rcases List.append_eq_append_iff.mp hText with ⟨more, hFront, hMark⟩ | ⟨more, hCs, hMark⟩
  · have hLength := congrArg List.length hMark
    simp only [List.length_append] at hLength
    have hNone : more = [] := List.eq_nil_of_length_eq_zero (by omega)
    rw [hFront, hNone, List.append_nil]
  · by_cases hNone : more = []
    · rw [hCs, hNone, List.append_nil]
    · -- The mark would begin within the text, and end within it or close behind it.
      exfalso
      have hLast : ∀ c, more.getLast? = some c → c ≠ '\x60' := by
        rintro c hSome rfl
        refine h.last ?_
        rw [hCs, List.getLast?_append, hSome]
        rfl
      match more, hNone, hMark with
      | [a], _, hMark => exact hLast a rfl (List.cons.inj hMark).1.symm
      | [a, b], _, hMark => exact hLast b rfl (List.cons.inj (List.cons.inj hMark).2).1.symm
      | a :: b :: c :: rest, _, hMark =>
          simp only [fenceMark, List.cons_append, List.nil_append, List.cons.injEq] at hMark
          obtain ⟨rfl, rfl, rfl, -⟩ := hMark
          exact h.inside ⟨front, rest, by rw [hCs]; simp [fenceMark]⟩

/-- Between two marks, such a text leaves no place for a third with something behind it. -/
theorem opened {cs front back : List Char} (h : Unfenced cs)
    (hText : fenceMark ++ (cs ++ fenceMark) = front ++ (fenceMark ++ back)) :
    front = [] ∨ front = fenceMark ++ cs := by
  obtain ⟨first, rest, rfl⟩ := List.exists_cons_of_ne_nil h.present
  have hFirst : first ≠ '\x60' := fun hQuote => h.first (congrArg some hQuote)
  match front with
  | [] => exact .inl rfl
  | [a] =>
      simp only [fenceMark, List.cons_append, List.nil_append, List.cons.injEq] at hText
      exact absurd hText.2.2.2.1 hFirst
  | [a, b] =>
      simp only [fenceMark, List.cons_append, List.nil_append, List.cons.injEq] at hText
      exact absurd hText.2.2.2.1 hFirst
  | a :: b :: c :: later =>
      simp only [fenceMark, List.cons_append, List.nil_append, List.cons.injEq] at hText
      obtain ⟨rfl, rfl, rfl, hRest⟩ := hText
      have hLater : later = first :: rest := h.closed hRest
      exact .inr (by rw [hLater]; rfl)

end Unfenced

section Fences

/-- A word in some letter case, and what follows it. -/
theorem dropWord?_eq_some_iff {word cs rest : List Char} :
    dropWord? word cs = some rest ↔
      ∃ tag, cs = tag ++ rest ∧ List.Forall₂ (fun letter c => matchesLetter letter c = true) word tag := by
  induction word generalizing cs with
  | nil =>
      constructor
      · intro h
        exact ⟨[], Option.some.inj h, .nil⟩
      · rintro ⟨_, rfl, ⟨⟩⟩
        rfl
  | cons letter word ih =>
      constructor
      · intro h
        cases cs with
        | nil => cases h
        | cons c cs =>
            rw [dropWord?] at h
            split at h
            · rename_i hLetter
              obtain ⟨tag, rfl, hTag⟩ := ih.mp h
              exact ⟨c :: tag, rfl, .cons hLetter hTag⟩
            · cases h
      · rintro ⟨_, rfl, hTag⟩
        cases hTag with
        | cons hLetter hLater =>
            rw [List.cons_append, dropWord?, if_pos hLetter]
            exact ih.mpr ⟨_, rfl, hLater⟩

/-- What follows a fence marked as JSON stands behind the mark and the four letters. -/
theorem afterMarkedFence?_eq_some {cs rest : List Char} (h : afterMarkedFence? cs = some rest) :
    ∃ front word, cs = front ++ (fenceMark ++ (word ++ rest)) ∧ word.length = 4 := by
  induction cs with
  | nil => cases h
  | cons c cs ih =>
      have hLater : afterMarkedFence? cs = some rest → ∃ front word,
          c :: cs = front ++ (fenceMark ++ (word ++ rest)) ∧ word.length = 4 := by
        intro hRest
        obtain ⟨front, word, hText, hLength⟩ := ih hRest
        exact ⟨c :: front, word, congrArg (c :: ·) hText, hLength⟩
      rw [afterMarkedFence?] at h
      split at h
      · rename_i hHead
        split at h
        · rename_i found hWord
          obtain ⟨tail, hTail⟩ := List.isPrefixOf_iff_prefix.mp hHead
          rw [← hTail] at hWord
          obtain ⟨word, hText, hLetters⟩ := dropWord?_eq_some_iff.mp hWord
          change tail = word ++ found at hText
          cases h
          exact ⟨[], word, by rw [← hTail, hText]; rfl, hLetters.length_eq.symm⟩
        · exact hLater h
      · exact hLater h

theorem afterMarkedFence?_fenceMark (cs : List Char) :
    afterMarkedFence? (fenceMark ++ cs) =
      match dropWord? ['j', 's', 'o', 'n'] cs with
      | some rest => some rest
      | none => afterMarkedFence? ('\x60' :: '\x60' :: cs) := rfl

/-- The name of the format behind the opening mark, in some letter case. -/
def IsTag (tag : List Char) : Prop :=
  List.Forall₂ (fun letter c => matchesLetter letter c = true) ['j', 's', 'o', 'n'] tag

/-- What a reply that is one fence holds stands between two marks, the first with its tag if there is
one. -/
theorem wholeFence?_eq_some_iff {cs body : List Char} :
    wholeFence? cs = some body ↔ ∃ tag inside, cs = fenceMark ++ (tag ++ (inside ++ fenceMark)) ∧
      Text.trim inside = body ∧
        (IsTag tag ∨ tag = [] ∧ dropWord? ['j', 's', 'o', 'n'] (inside ++ fenceMark) = none) := by
  have hTake : ∀ inside : List Char,
      (inside ++ fenceMark).take ((inside ++ fenceMark).length - 3) = inside := by
    intro inside
    rw [List.length_append]
    exact List.take_left
  constructor
  · intro h
    unfold wholeFence? at h
    split at h
    · rename_i hHead
      obtain ⟨tail, rfl⟩ := List.isPrefixOf_iff_prefix.mp hHead
      have hTail : (fenceMark ++ tail).drop 3 = tail := rfl
      simp only [hTail] at h
      split at h
      · rename_i hEnd
        obtain ⟨inside, hInside⟩ := List.isSuffixOf_iff_suffix.mp hEnd
        rw [← hInside, hTake] at h
        cases hWord : dropWord? ['j', 's', 'o', 'n'] tail with
        | some rest =>
            rw [hWord] at hInside
            obtain ⟨tag, rfl, hTag⟩ := dropWord?_eq_some_iff.mp hWord
            exact ⟨tag, inside, by rw [hInside]; rfl, Option.some.inj h, .inl hTag⟩
        | none =>
            rw [hWord] at hInside
            change inside ++ fenceMark = tail at hInside
            subst hInside
            exact ⟨[], inside, rfl, Option.some.inj h, .inr ⟨rfl, hWord⟩⟩
      · cases h
    · cases h
  · rintro ⟨tag, inside, rfl, rfl, hTag⟩
    have hBody : (dropWord? ['j', 's', 'o', 'n'] (tag ++ (inside ++ fenceMark))).getD
        (tag ++ (inside ++ fenceMark)) = inside ++ fenceMark := by
      rcases hTag with hTag | ⟨rfl, hNone⟩
      · rw [dropWord?_eq_some_iff.mpr ⟨tag, rfl, hTag⟩]
        rfl
      · rw [List.nil_append, hNone]
        rfl
    have hHead : fenceMark.isPrefixOf (fenceMark ++ (tag ++ (inside ++ fenceMark))) = true :=
      List.isPrefixOf_iff_prefix.mpr (List.prefix_append ..)
    have hEnd : fenceMark.isSuffixOf (inside ++ fenceMark) = true :=
      List.isSuffixOf_iff_suffix.mpr (List.suffix_append ..)
    have hDrop : (fenceMark ++ (tag ++ (inside ++ fenceMark))).drop 3 = tag ++ (inside ++ fenceMark) :=
      rfl
    unfold wholeFence?
    simp only [if_pos hHead, hDrop, hBody, if_pos hEnd, hTake]

/-- The document of a reply that is one fence is marked as JSON, or is followed by the closing mark as
it stands behind the opening one. -/
theorem wholeFence?_eq_some {cs body : List Char} (h : wholeFence? cs = some body) :
    ∃ inside, Text.trim inside = body ∧ (afterMarkedFence? cs = some (inside ++ fenceMark) ∨
      cs = fenceMark ++ (inside ++ fenceMark) ∧
        dropWord? ['j', 's', 'o', 'n'] (inside ++ fenceMark) = none) := by
  obtain ⟨tag, inside, rfl, hBody, hTag | ⟨rfl, hNone⟩⟩ := wholeFence?_eq_some_iff.mp h
  · refine ⟨inside, hBody, .inl ?_⟩
    rw [afterMarkedFence?_fenceMark, dropWord?_eq_some_iff.mpr ⟨tag, rfl, hTag⟩]
  · exact ⟨inside, hBody, .inr ⟨rfl, hNone⟩⟩

/-- What is found in a fence within a text and the mark behind it: a part of the text, up to the
first mark. -/
theorem fenced?_part {cs rest found : List Char} (hRest : rest <:+ cs ++ fenceMark)
    (h : fenced? rest = some found) : found <:+: Text.trim cs ∧ ¬ fenceMark <:+: found := by
  unfold fenced? at h
  split at h
  · rename_i body after hCut
    cases h
    have hQuiet : ¬ fenceMark <:+: body := by
      have hBefore : ¬ fenceMark <:+: (Text.cutAt fenceMark (Text.trimLeft rest)).1 :=
        Text.not_infix_of_cutAt (by decide) _
      rwa [hCut] at hBefore
    have hPart : body <:+: cs := by
      obtain ⟨front, hText⟩ := (List.dropWhile_suffix Text.isBlank).trans hRest
      have hParts : (front ++ body) ++ (fenceMark ++ after) = cs ++ fenceMark := by
        rw [← hText, ← Text.trimLeft, ← Text.cutAt_append hCut]
        simp
      have hLength := congrArg List.length hParts
      simp only [List.length_append] at hLength
      have hPrefix : front ++ body <+: cs :=
        List.prefix_of_prefix_length_le ⟨_, hParts⟩ (List.prefix_append ..)
          (by simp only [List.length_append]; omega)
      exact (List.suffix_append front body).isInfix.trans hPrefix.isInfix
    exact ⟨Text.infix_trim hPart, fun hMark => hQuiet (hMark.trans (Text.infix_of_trim body))⟩
  · cases h

/-- A mark at the end closes the fence, unless there is one before it. -/
theorem fenced?_closed (cs : List Char) :
    ∃ before after, Text.trimLeft cs ++ fenceMark = before ++ (fenceMark ++ after) ∧
      fenced? (cs ++ fenceMark) = some (Text.trim before) := by
  have hLeft : Text.trimLeft (cs ++ fenceMark) = Text.trimLeft cs ++ fenceMark :=
    Text.trimLeft_append (by decide)
  have hMark : fenceMark <:+: Text.trimLeft cs ++ fenceMark := (List.suffix_append ..).isInfix
  obtain ⟨before, after, hCut⟩ := Text.exists_cutAt hMark
  refine ⟨before, after, ?_, ?_⟩
  · rw [← List.append_assoc, Text.cutAt_append hCut]
  · unfold fenced?
    rw [hLeft, hCut]

/-- What is fenced and looks like no fence itself is found as a whole. -/
theorem fenced?_unfenced {cs : List Char} (h : Unfenced (Text.trim cs)) :
    fenced? (cs ++ fenceMark) = some (Text.trim cs) := by
  have hTrim : Text.trim (Text.trimLeft cs) = Text.trim cs := by
    rw [Text.trim, Text.trimLeft_trimLeft, ← Text.trim]
  obtain ⟨before, after, hText, hFound⟩ := fenced?_closed cs
  have hBefore : before = Text.trimLeft cs := (hTrim ▸ h).of_trim.closed hText
  rw [hFound, hBefore, hTrim]

end Fences

section Extraction

variable {cs found body : List Char}

theorem extractChars_of_marked (h : (afterMarkedFence? (Text.trim cs)).bind fenced? = some found) :
    extractChars cs = found := by
  unfold extractChars
  simp only [h]
  rfl

theorem extractChars_of_plain (hNone : (afterMarkedFence? (Text.trim cs)).bind fenced? = none)
    (h : (Text.cutAt fenceMark (Text.trim cs)).2.bind fenced? = some found) :
    extractChars cs = found := by
  unfold extractChars
  simp only [hNone, h]
  rfl

/-- What a lenient reading looks at in a reply that is one fence: a part of the document, in which
no mark is left. -/
theorem extractChars_part (h : wholeFence? (Text.trim cs) = some body) :
    extractChars cs <:+: body ∧ ¬ fenceMark <:+: extractChars cs := by
  obtain ⟨inside, rfl, hMarked | ⟨hText, hWord⟩⟩ := wholeFence?_eq_some h
  · obtain ⟨before, -, -, hFound⟩ := fenced?_closed inside
    rw [extractChars_of_marked (by rw [hMarked]; exact hFound)]
    exact fenced?_part List.suffix_rfl hFound
  · cases hLater : (afterMarkedFence? (Text.trim cs)).bind fenced? with
    | some found =>
        obtain ⟨rest, hRest, hFound⟩ := Option.bind_eq_some_iff.mp hLater
        obtain ⟨front, word, hParts, hLength⟩ := afterMarkedFence?_eq_some hRest
        rw [extractChars_of_marked hLater]
        have hRestSuffix : rest <:+ Text.trim cs :=
          ⟨front ++ (fenceMark ++ word), by rw [hParts]; simp⟩
        have hInsideSuffix : inside ++ fenceMark <:+ Text.trim cs := ⟨fenceMark, hText.symm⟩
        -- Less is left behind the first mark and a word than behind the first mark.
        have hShorter : rest.length ≤ (inside ++ fenceMark).length := by
          have hSame := congrArg List.length (hParts.symm.trans hText)
          simp only [List.length_append] at hSame ⊢
          omega
        exact fenced?_part (List.suffix_of_suffix_length_le hRestSuffix hInsideSuffix hShorter) hFound
    | none =>
        obtain ⟨before, -, -, hFound⟩ := fenced?_closed inside
        have hCut : Text.cutAt fenceMark (Text.trim cs) = ([], some (inside ++ fenceMark)) := by
          rw [hText]
          rfl
        rw [extractChars_of_plain hLater (by rw [hCut]; exact hFound)]
        exact fenced?_part List.suffix_rfl hFound

/-- A document that looks like no fence is all that a lenient reading looks at. -/
theorem extractChars_unfenced (h : wholeFence? (Text.trim cs) = some body) (hBody : Unfenced body) :
    extractChars cs = body := by
  obtain ⟨inside, rfl, hMarked | ⟨hText, hWord⟩⟩ := wholeFence?_eq_some h
  · exact extractChars_of_marked (by rw [hMarked]; exact fenced?_unfenced hBody)
  · have hNone : afterMarkedFence? (Text.trim cs) = none := by
      cases hLater : afterMarkedFence? (Text.trim cs) with
      | none => rfl
      | some rest =>
          rw [hText, afterMarkedFence?_fenceMark, hWord] at hLater
          obtain ⟨front, word, hParts, hLength⟩ := afterMarkedFence?_eq_some hLater
          have hWhole : fenceMark ++ (inside ++ fenceMark) =
              ('\x60' :: front) ++ (fenceMark ++ (word ++ rest)) := congrArg ('\x60' :: ·) hParts
          rcases hBody.of_trim.opened hWhole with hNil | hFront
          · cases hNil
          · have hSame := congrArg List.length hWhole
            rw [hFront] at hSame
            simp only [List.length_append] at hSame
            omega
    have hCut : Text.cutAt fenceMark (Text.trim cs) = ([], some (inside ++ fenceMark)) := by
      rw [hText]
      rfl
    exact extractChars_of_plain (by rw [hNone]; rfl) (by rw [hCut]; exact fenced?_unfenced hBody)

end Extraction

theorem parse?_eq_some_iff {cs : List Char} {v : Value} :
    parse? cs = .ok (some v) ↔ parseChars cs = .ok v := by
  unfold parse?
  cases parseChars cs with
  | ok w => simp
  | error e => cases e <;> simp

theorem parse?_eq_none_iff {cs : List Char} :
    parse? cs = .ok none ↔ parseChars cs = .error .malformed := by
  unfold parse?
  cases parseChars cs with
  | ok w => simp
  | error e => cases e <;> simp

theorem parse?_eq_error_iff {cs : List Char} {f : Fault} :
    parse? cs = .error f ↔
      ∃ n, f = .numeralTooLong n ∧ parseChars cs = .error (.numeralTooLong n) := by
  unfold parse?
  cases parseChars cs with
  | ok w => simp
  | error e => cases e <;> simp [eq_comm]

/-- A document without the mark of a fence looks like no fence. -/
theorem unfenced_of_parse? {cs : List Char} {v : Value} (h : parse? cs = .ok (some v))
    (hInside : ¬ fenceMark <:+: cs) : Unfenced cs where
  present := by
    rintro rfl
    cases parseChars_nil.symm.trans (parse?_eq_some_iff.mp h)
  inside := hInside
  first := head?_of_parseChars (parse?_eq_some_iff.mp h)
  last := getLast?_of_parseChars (parse?_eq_some_iff.mp h)

/-- A reply that is one fence around a document with the mark of a fence in it. All that a lenient
reading looks at is a part of the document without such a mark. -/
structure Nested (cs body : List Char) (v : Value) : Prop where
  whole : wholeFence? (Text.trim cs) = some body
  document : parse? body = .ok (some v)
  marked : fenceMark <:+: body
  part : extractChars cs <:+: body
  unmarked : ¬ fenceMark <:+: extractChars cs

theorem length_lt_of_wholeFence? {cs body : List Char} (h : wholeFence? (Text.trim cs) = some body) :
    body.length < cs.length := by
  have hTrim : (Text.trim cs).length ≤ cs.length := (Text.infix_of_trim cs).length_le
  obtain ⟨inside, rfl, hMarked | ⟨hText, -⟩⟩ := wholeFence?_eq_some h
  · have hInside : (Text.trim inside).length ≤ inside.length := (Text.infix_of_trim inside).length_le
    obtain ⟨front, word, hParts, -⟩ := afterMarkedFence?_eq_some hMarked
    have hLength := congrArg List.length hParts
    simp only [List.length_append, fenceMark, List.length_cons] at hLength
    omega
  · have hInside : (Text.trim inside).length ≤ inside.length := (Text.infix_of_trim inside).length_le
    have hLength := congrArg List.length hText
    simp only [List.length_append, fenceMark, List.length_cons] at hLength
    omega

/-- A document that is taken out of a text is its value. -/
theorem leniently_of_extract {cs found : List Char} {v : Value} (hExtract : extractChars cs = found)
    (hChanged : found ≠ cs) (hRead : parse? found = .ok (some v)) : leniently cs = .ok (some v) := by
  unfold leniently
  rw [hExtract]
  simp only [if_neg hChanged, hRead]
  rfl

/-- What is taken out of a text and is a document only when repaired is read with the repairs. -/
theorem leniently_of_repair {cs found : List Char} {v : Value} (hExtract : extractChars cs = found)
    (hNone : parse? found = .ok none) (hChanged : repairChars found ≠ found)
    (hRead : parse? (repairChars found) = .ok (some v)) : leniently cs = .ok (some v) := by
  unfold leniently
  rw [hExtract]
  simp only [hNone, ite_self, pure, Except.pure, bind, Except.bind]
  rw [if_neg hChanged]
  exact hRead

/-- A lenient reading of what a strict reading finds in one fence finds the same, unless the
document holds the mark of a fence. -/
theorem leniently_of_strictly {cs : List Char} {v : Value} (h : strictly cs = .ok (some v)) :
    leniently cs = .ok (some v) ∨ ∃ body, Nested cs body v := by
  unfold strictly at h
  split at h
  · rename_i body hWhole
    by_cases hMark : fenceMark <:+: body
    · obtain ⟨hPart, hUnmarked⟩ := extractChars_part hWhole
      exact .inr ⟨body, hWhole, h, hMark, hPart, hUnmarked⟩
    · have hExtract : extractChars cs = body :=
        extractChars_unfenced hWhole (unfenced_of_parse? h hMark)
      have hChanged : body ≠ cs := by
        rintro rfl
        exact Nat.lt_irrefl _ (length_lt_of_wholeFence? hWhole)
      exact .inl (leniently_of_extract hExtract hChanged h)
  · cases h

theorem readReply_text_iff {lenient : Bool} {s : String} {v : Value} :
    readReply lenient (.text s) = .ok (true, v) ↔ replyValue? lenient s.toList = .ok (some v) := by
  unfold readReply
  cases hFound : replyValue? lenient s.toList with
  | error f => simp [hFound, bind, Except.bind]
  | ok found => cases found <;> simp [hFound, bind, Except.bind, pure, Except.pure]

theorem readReply_text_error_iff {lenient : Bool} {s : String} {f : Fault} :
    readReply lenient (.text s) = .error f ↔ replyValue? lenient s.toList = .error f := by
  unfold readReply
  cases hFound : replyValue? lenient s.toList with
  | error g => simp [hFound, bind, Except.bind]
  | ok found => cases found <;> simp [hFound, bind, Except.bind, pure, Except.pure]

/-- What is not accepted is handed back. -/
theorem eq_of_readReply_refused {lenient : Bool} {reply v : Value}
    (h : readReply lenient reply = .ok (false, v)) : v = reply := by
  cases reply with
  | text s =>
      unfold readReply at h
      cases hFound : replyValue? lenient s.toList with
      | error g => simp [hFound, bind, Except.bind] at h
      | ok found => cases found <;> simp_all [bind, Except.bind, pure, Except.pure]
  | _ => exact (Prod.mk.inj (Except.ok.inj h)).2.symm

/-- A reply is read as it stands where that can be done, and by the strict or the lenient rules
otherwise. -/
theorem replyValue?_eq_some_iff {lenient : Bool} {cs : List Char} {v : Value} :
    replyValue? lenient cs = .ok (some v) ↔ Text.allBlank cs = false ∧
      (parse? cs = .ok (some v) ∨ parse? cs = .ok none ∧
        (if lenient then leniently cs else strictly cs) = .ok (some v)) := by
  unfold replyValue?
  cases Text.allBlank cs with
  | true => simp [pure, Except.pure]
  | false =>
      cases parse? cs with
      | error f => simp [bind, Except.bind]
      | ok found => cases found <;> simp [bind, Except.bind, pure, Except.pure]

/-- Reading a reply fails where reading it as it stands does, or what is tried then. -/
theorem replyValue?_eq_error_iff {lenient : Bool} {cs : List Char} {f : Fault} :
    replyValue? lenient cs = .error f ↔ Text.allBlank cs = false ∧
      (parse? cs = .error f ∨ parse? cs = .ok none ∧
        (if lenient then leniently cs else strictly cs) = .error f) := by
  unfold replyValue?
  cases Text.allBlank cs with
  | true => simp [pure, Except.pure]
  | false =>
      cases parse? cs with
      | error f => simp [bind, Except.bind]
      | ok found => cases found <;> simp [bind, Except.bind, pure, Except.pure]

/-- A reply that is a document as it stands is accepted in either way. -/
theorem readReply_of_parse {lenient : Bool} {s : String} {v : Value} (h : parse s = .ok v) :
    readReply lenient (.text s) = .ok (true, v) :=
  readReply_text_iff.mpr (replyValue?_eq_some_iff.mpr
    ⟨allBlank_of_parseChars h, .inl (parse?_eq_some_iff.mpr h)⟩)

/-- A reply that is no document as it stands is accepted where the lenient rules accept it. -/
theorem readReply_of_leniently {s : String} {v : Value} (hBlank : Text.allBlank s.toList = false)
    (hNone : parse s = .error .malformed) (h : leniently s.toList = .ok (some v)) :
    readReply true (.text s) = .ok (true, v) :=
  readReply_text_iff.mpr (replyValue?_eq_some_iff.mpr
    ⟨hBlank, .inr ⟨parse?_eq_none_iff.mpr hNone, h⟩⟩)

theorem parse?_backquote (rest : List Char) : parse? ('\x60' :: rest) = .ok none := by
  unfold parse?
  rw [parseChars_backquote]

/-- A reply that is read neither as it stands nor leniently is handed back. -/
theorem readReply_refused {s : String} (hBlank : Text.allBlank s.toList = false)
    (hNone : parse? s.toList = .ok none) (hLenient : leniently s.toList = .ok none) :
    readReply true (.text s) = .ok (false, .text s) := by
  have hValue : replyValue? true s.toList = .ok none := by
    unfold replyValue?
    rw [hBlank, hNone]
    exact hLenient
  unfold readReply
  simp only [hValue]
  rfl

/-- A string in a fence is accepted by a strict reading. -/
theorem readReply_fenced_string {s : String} {fence quoted body : List Char}
    (hText : s.toList = '\x60' :: fence)
    (hWhole : wholeFence? (Text.trim s.toList) = some ('"' :: quoted))
    (hQuoted : stringBody? quoted = some (body, [])) :
    readReply false (.text s) = .ok (true, .text (String.ofList body)) := by
  have hBlank : Text.allBlank s.toList = false := by rw [hText]; rfl
  have hNone : parse? s.toList = .ok none := by rw [hText, parse?_backquote]
  have hStrict : strictly s.toList = .ok (some (.text (String.ofList body))) := by
    unfold strictly
    rw [hWhole]
    simp only [parse?, parseChars_quoted hQuoted]
  have hValue : replyValue? false s.toList = .ok (some (.text (String.ofList body))) :=
    replyValue?_eq_some_iff.mpr ⟨hBlank, .inr ⟨hNone, hStrict⟩⟩
  exact readReply_text_iff.mpr hValue

/-- What a strict reading accepts a lenient reading accepts too, with the same value, unless the
reply is one fence around a document that holds the mark of a fence. -/
theorem lenient_of_strict {reply v : Value} (h : readReply false reply = .ok (true, v)) :
    readReply true reply = .ok (true, v) ∨
      ∃ s body, reply = .text s ∧ Nested s.toList body v := by
  cases reply with
  | text s =>
      obtain ⟨hBlank, hRead⟩ := replyValue?_eq_some_iff.mp (readReply_text_iff.mp h)
      rcases hRead with hWhole | ⟨hNone, hStrict⟩
      · exact .inl (readReply_text_iff.mpr (replyValue?_eq_some_iff.mpr ⟨hBlank, .inl hWhole⟩))
      · rcases leniently_of_strictly hStrict with hLenient | ⟨body, hNested⟩
        · have hValue : replyValue? true s.toList = .ok (some v) :=
            replyValue?_eq_some_iff.mpr ⟨hBlank, .inr ⟨hNone, hLenient⟩⟩
          exact .inl (readReply_text_iff.mpr hValue)
        · exact .inr ⟨s, body, rfl, hNested⟩
  | _ => cases h

/-- A fenced string without back-quotes is read leniently as it is read strictly. -/
theorem fenced_letter_read_alike :
    readReply true (.text "```json\n\"a\"\n```") = .ok (true, .text "a") := by
  have hWhole : wholeFence? (Text.trim "```json\n\"a\"\n```".toList) = some ['"', 'a', '"'] := by
    decide
  have hStrict : readReply false (.text "```json\n\"a\"\n```") = .ok (true, .text "a") :=
    readReply_fenced_string rfl hWhole (by cbv)
  rcases lenient_of_strict hStrict with hLenient | ⟨s, body, hText, hNested⟩
  · exact hLenient
  · cases hText
    cases hWhole.symm.trans hNested.whole
    exact absurd hNested.marked (by decide)

/-- A string of three back-quotes in a fence: a strict reading finds it, and a lenient one takes its
back-quotes for the closing fence and accepts nothing. -/
theorem fence_in_string_refused :
    readReply false (.text "```\"```\"```") = .ok (true, .text "```") ∧
      readReply true (.text "```\"```\"```") = .ok (false, .text "```\"```\"```") := by
  constructor
  · have hWhole : wholeFence? (Text.trim "```\"```\"```".toList) =
        some ['"', '\x60', '\x60', '\x60', '"'] := by decide
    exact readReply_fenced_string rfl hWhole (by cbv)
  · have hNone : parse? "```\"```\"```".toList = .ok none := parse?_backquote _
    have hBlank : Text.allBlank "```\"```\"```".toList = false := rfl
    have hExtract : extractChars "```\"```\"```".toList = ['"'] := by decide
    have hPart : parse? ['"'] = .ok none := by
      unfold parse?
      rw [parseChars_unclosed (by cbv)]
    have hRepair : repairChars ['"'] = ['"'] := by cbv
    have hLenient : leniently "```\"```\"```".toList = .ok none := by
      unfold leniently
      rw [hExtract]
      simp only [hPart, hRepair]
      rfl
    exact readReply_refused hBlank hNone hLenient

end StepFlow.Json
