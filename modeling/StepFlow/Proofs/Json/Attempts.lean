import StepFlow.Proofs.Json.Overlong
import StepFlow.Proofs.Json.Repair

/-! The attempts at a reply. What is tried as its document are the texts of a list: the reply as it
stands, and then what stands in its fence, or what is dug out of it and what that is when repaired.
The first of them that is not malformed decides, be it a document or one with an integer of too many
digits. -/
namespace StepFlow.Json

/-- What is tried of a reply that is no document as it stands. -/
def laterAttempts (lenient : Bool) (cs : List Char) : List (List Char) :=
  if lenient then
    let extracted := extractChars cs
    let repaired := repairChars extracted
    (if extracted = cs then [] else [extracted]) ++ if repaired = extracted then [] else [repaired]
  else (wholeFence? (Text.trim cs)).toList

/-- The texts that are tried as the document of a reply, one after the other. -/
def attempts (lenient : Bool) (cs : List Char) : List (List Char) :=
  if Text.allBlank cs then [] else cs :: laterAttempts lenient cs

/-- The first text of a list that is not malformed comes to something. -/
def Settles (texts : List (List Char)) (r : Except Failure Value) : Prop :=
  ∃ before part after, texts = before ++ part :: after ∧
    (∀ earlier ∈ before, parseChars earlier = .error .malformed) ∧ parseChars part = r

/-- The document of the first text that is not malformed. -/
def firstDocument : List (List Char) → Except Fault (Option Value)
  | [] => .ok none
  | cs :: rest => do
    let found ← parse? cs
    if found.isSome then return found
    firstDocument rest

variable {texts : List (List Char)} {lenient : Bool} {cs : List Char}

theorem settles_nil {r : Except Failure Value} : ¬ Settles [] r := by
  rintro ⟨before, part, after, hTexts, -⟩
  cases before <;> cases hTexts

theorem settles_cons {r : Except Failure Value} : Settles (cs :: texts) r ↔
    parseChars cs = r ∨ parseChars cs = .error .malformed ∧ Settles texts r := by
  constructor
  · rintro ⟨before, part, after, hTexts, hEarlier, hPart⟩
    cases before with
    | nil =>
        cases hTexts
        exact .inl hPart
    | cons first before =>
        cases hTexts
        obtain ⟨hFirst, hBefore⟩ := List.forall_mem_cons.mp hEarlier
        exact .inr ⟨hFirst, before, part, after, rfl, hBefore, hPart⟩
  · rintro (hFirst | ⟨hFirst, before, part, after, rfl, hEarlier, hPart⟩)
    · exact ⟨[], cs, texts, rfl, nofun, hFirst⟩
    · exact ⟨cs :: before, part, after, rfl, List.forall_mem_cons.mpr ⟨hFirst, hEarlier⟩, hPart⟩

theorem firstDocument_eq_some_iff {v : Value} :
    firstDocument texts = .ok (some v) ↔ Settles texts (.ok v) := by
  induction texts with
  | nil => simp [firstDocument, settles_nil]
  | cons cs texts ih =>
      rw [settles_cons, ← parse?_eq_some_iff, ← parse?_eq_none_iff, ← ih, firstDocument]
      rcases parse? cs with f | _ | w <;> simp [bind, Except.bind, pure, Except.pure]

theorem firstDocument_eq_error_iff {f : Fault} : firstDocument texts = .error f ↔
    ∃ n, f = .numeralTooLong n ∧ Settles texts (.error (.numeralTooLong n)) := by
  induction texts with
  | nil => simp [firstDocument, settles_nil]
  | cons cs texts ih =>
      simp only [settles_cons]
      unfold firstDocument parse?
      cases hRead : parseChars cs with
      | ok v => simp [bind, Except.bind, pure, Except.pure]
      | error e =>
          cases e with
          | malformed => simpa [bind, Except.bind] using ih
          | numeralTooLong n => simp [bind, Except.bind, eq_comm]

theorem firstDocument_eq_none_iff : firstDocument texts = .ok none ↔
    ∀ part ∈ texts, parseChars part = .error .malformed := by
  induction texts with
  | nil => simp [firstDocument]
  | cons cs texts ih =>
      rw [List.forall_mem_cons, ← parse?_eq_none_iff, ← ih, firstDocument]
      rcases parse? cs with f | _ | w <;> simp [bind, Except.bind, pure, Except.pure]

theorem firstDocument_singleton (cs : List Char) : firstDocument [cs] = parse? cs := by
  unfold firstDocument
  rcases parse? cs with f | _ | v <;> rfl

theorem strictly_eq (cs : List Char) : strictly cs = firstDocument (laterAttempts false cs) := by
  unfold strictly
  change _ = firstDocument (wholeFence? (Text.trim cs)).toList
  cases wholeFence? (Text.trim cs) with
  | none => rfl
  | some body => exact (firstDocument_singleton body).symm

theorem leniently_eq (cs : List Char) : leniently cs = firstDocument (laterAttempts true cs) := by
  have hRepaired : (if repairChars (extractChars cs) = extractChars cs then .ok none
      else parse? (repairChars (extractChars cs))) =
        firstDocument (if repairChars (extractChars cs) = extractChars cs then []
          else [repairChars (extractChars cs)]) := by
    split
    · rfl
    · exact (firstDocument_singleton _).symm
  unfold leniently laterAttempts
  by_cases hExtracted : extractChars cs = cs
  · simp only [hExtracted, if_true] at hRepaired ⊢
    exact hRepaired
  · simp only [hExtracted, if_false, if_true, List.singleton_append, firstDocument, ← hRepaired]
    rfl

/-- A reply is read by trying its texts. -/
theorem replyValue?_eq (lenient : Bool) (cs : List Char) :
    replyValue? lenient cs = firstDocument (attempts lenient cs) := by
  unfold replyValue? attempts
  cases Text.allBlank cs with
  | true => rfl
  | false =>
      rw [leniently_eq, strictly_eq]
      cases lenient <;> rfl

theorem sublist_of_mem_attempts {part : List Char} (h : part ∈ attempts lenient cs) :
    part.Sublist cs := by
  unfold attempts at h
  split at h
  · cases h
  rcases List.mem_cons.mp h with rfl | hLater
  · exact .refl _
  unfold laterAttempts at hLater
  split at hLater
  · have hExtracted : (extractChars cs).Sublist cs := (infix_extractChars cs).sublist
    rcases List.mem_append.mp hLater with hPart | hPart
    · split at hPart
      · cases hPart
      · rwa [List.mem_singleton.mp hPart]
    · split at hPart
      · cases hPart
      · rw [List.mem_singleton.mp hPart]
        exact (sublist_repairChars _).trans hExtracted
  · have hPart := infix_of_wholeFence? (Option.mem_toList.mp hLater)
    exact (hPart.trans (Text.infix_of_trim cs)).sublist

/-- All that reading a reply can fail on is an integer of too many digits. -/
theorem readReply_eq_error {reply : Value} {f : Fault} (h : readReply lenient reply = .error f) :
    ∃ n, f = .numeralTooLong n := by
  cases reply with
  | text s =>
      rw [readReply_text_error_iff, replyValue?_eq, firstDocument_eq_error_iff] at h
      obtain ⟨n, rfl, -⟩ := h
      exact ⟨n, rfl⟩
  | _ => cases h

theorem readReply_refused_iff {s : String} {v : Value} :
    readReply lenient (.text s) = .ok (false, v) ↔
      v = .text s ∧ replyValue? lenient s.toList = .ok none := by
  unfold readReply
  cases hFound : replyValue? lenient s.toList with
  | error f => simp [hFound, bind, Except.bind]
  | ok found => cases found <;> simp [hFound, bind, Except.bind, pure, Except.pure, eq_comm]

/-- Reading a reply comes to what the first of its texts that is not malformed comes to. It hands the
reply back when all of them are malformed, and fails only where an integer of too many digits decides,
which a reply of no more digits than that does not hold. -/
theorem reply_read_unless_overlong (lenient : Bool) (s : String) :
    ((∃ out, readReply lenient (.text s) = .ok out) ↔
        ∀ n, ¬ Settles (attempts lenient s.toList) (.error (.numeralTooLong n))) ∧
      (∀ n, Settles (attempts lenient s.toList) (.error (.numeralTooLong n)) →
        readReply lenient (.text s) = .error (.numeralTooLong n) ∧
          (∃ part ∈ attempts lenient s.toList, Overlong n part) ∧
          Number.digitLimit < s.toList.countP Text.isAsciiDigit) ∧
      (∀ v, readReply lenient (.text s) = .ok (true, v) ↔
        Settles (attempts lenient s.toList) (.ok v)) ∧
      ∀ v, readReply lenient (.text s) = .ok (false, v) ↔
        v = .text s ∧ ∀ part ∈ attempts lenient s.toList, parseChars part = .error .malformed := by
  have hError : ∀ f, readReply lenient (.text s) = .error f ↔ ∃ n, f = .numeralTooLong n ∧
      Settles (attempts lenient s.toList) (.error (.numeralTooLong n)) := by
    intro f
    rw [readReply_text_error_iff, replyValue?_eq, firstDocument_eq_error_iff]
  refine ⟨?_, fun n hSettles => ⟨(hError _).mpr ⟨n, rfl, hSettles⟩, ?_⟩, fun v => ?_, fun v => ?_⟩
  · cases hReply : readReply lenient (.text s) with
    | ok out =>
        refine iff_of_true ⟨out, rfl⟩ fun n hSettles => ?_
        cases hReply.symm.trans ((hError _).mpr ⟨n, rfl, hSettles⟩)
    | error f =>
        obtain ⟨n, -, hSettles⟩ := (hError f).mp hReply
        exact iff_of_false (by rintro ⟨_, ⟨⟩⟩) fun hNone => hNone n hSettles
  · obtain ⟨before, part, after, hTexts, -, hRead⟩ := hSettles
    have hMem : part ∈ attempts lenient s.toList := by
      rw [hTexts]
      exact List.mem_append_right before List.mem_cons_self
    have hOverlong : Overlong n part := overlong_of_parseChars hRead
    refine ⟨⟨part, hMem, hOverlong⟩, ?_⟩
    calc Number.digitLimit < n := hOverlong.many
      _ ≤ part.countP Text.isAsciiDigit := hOverlong.le_countP
      _ ≤ s.toList.countP Text.isAsciiDigit := (sublist_of_mem_attempts hMem).countP_le
  · rw [readReply_text_iff, replyValue?_eq, firstDocument_eq_some_iff]
  · rw [readReply_refused_iff, replyValue?_eq, firstDocument_eq_none_iff]

/-- An integer of one digit too many is neither read nor handed back. -/
theorem digits_not_handed_back :
    readReply true (.text (String.ofList (List.replicate (Number.digitLimit + 1) '9'))) =
        .error (.numeralTooLong (Number.digitLimit + 1)) ∧
      readReply false (.text (String.ofList (List.replicate (Number.digitLimit + 1) '9'))) =
        .error (.numeralTooLong (Number.digitLimit + 1)) := by
  have hFirst : ∀ lenient, Settles
      (attempts lenient (List.replicate (Number.digitLimit + 1) '9'))
      (.error (.numeralTooLong (Number.digitLimit + 1))) := fun lenient =>
    ⟨[], _, laterAttempts lenient _, rfl, nofun, parseChars_replicate (Nat.lt_succ_self _)⟩
  constructor
  · rw [readReply_text_error_iff, replyValue?_eq, firstDocument_eq_error_iff, String.toList_ofList]
    exact ⟨_, rfl, hFirst true⟩
  · rw [readReply_text_error_iff, replyValue?_eq, firstDocument_eq_error_iff, String.toList_ofList]
    exact ⟨_, rfl, hFirst false⟩

end StepFlow.Json
