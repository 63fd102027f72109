import StepFlow.Proofs.Json.Extract

/-! An object inside prose without brackets and back-quotes. A lenient reading finds it, unless the
text as a whole is a string already, which is then the value of the reply. -/
namespace StepFlow.Json

/-- Text without brackets and back-quotes. -/
def Prose (cs : List Char) : Prop := ∀ c ∈ ['\x7b', '}', '[', ']', '\x60'], c ∉ cs

instance (cs : List Char) : Decidable (Prose cs) :=
  decidable_of_iff ((['\x7b', '}', '[', ']', '\x60'].all fun c => !cs.contains c) = true)
    (by simp [Prose])

theorem Prose.append {front back : List Char} (hFront : Prose front) (hBack : Prose back) :
    Prose (front ++ back) := by
  intro c hMark hMem
  exact (List.mem_append.mp hMem).elim (hFront c hMark) (hBack c hMark)

theorem Prose.of_spaces {s : List Char} (hs : Spaces s) : Prose s := by
  intro c hMark hMem
  have hSpace := hs c hMem
  simp only [List.mem_cons, List.not_mem_nil, or_false] at hMark
  obtain rfl | rfl | rfl | rfl | rfl := hMark <;> cases hSpace

theorem Prose.of_subset {cs ds : List Char} (h : Prose ds) (hSubset : cs ⊆ ds) : Prose cs :=
  fun c hMark hMem => h c hMark (hSubset hMem)

/-- Two marks of a fence stand within what the prose is around. -/
theorem Prose.encloses {front back cs : List Char} (hFront : Prose front) (hBack : Prose back)
    (h : Encloses fenceMark fenceMark (front ++ (cs ++ back))) : Encloses fenceMark fenceMark cs := by
  obtain ⟨before, inside, after, hText⟩ := h
  obtain ⟨middle, hMiddle⟩ := exists_of_front (hFront '\x60' (by simp)) hText
  have hEnd : cs ++ back =
      (middle ++ (fenceMark ++ (inside ++ ['\x60', '\x60']))) ++ '\x60' :: after := by
    rw [hMiddle]
    simp [fenceMark]
  obtain ⟨last, rfl⟩ := exists_of_back (hBack '\x60' (by simp)) hEnd
  exact ⟨middle, inside, last, by simp [fenceMark]⟩

/-- A document that begins in prose before a brace is a string. -/
theorem text_of_prose {c : Char} {rest : List Char} {v : Value} {left : List Char}
    (hBracket : c ≠ '[') (hBrace : c ≠ '\x7b') (hMem : '\x7b' ∈ rest)
    (h : Reads readValue (c :: rest) v left) (hLeft : Spaces left) : ∃ body, v = .text body := by
  by_cases hQuote : c = '"'
  · subst hQuote
    rw [Reads, pair_readValue_quote] at h
    split at h
    · cases h
    · cases h
      exact ⟨_, rfl⟩
  · rw [Reads, pair_readValue_other (by rintro _ ⟨⟩; exact ⟨hQuote, hBracket, hBrace⟩)] at h
    -- Neither a number or a word nor the blanks behind it hold the brace.
    obtain ⟨taken, hText, hTaken⟩ := behind_atom h
    have hIn : '\x7b' ∈ taken ++ left := hText ▸ List.mem_cons_of_mem c hMem
    rcases List.mem_append.mp hIn with hAtom | hSpace
    · cases hTaken _ hAtom
    · cases hLeft _ hSpace

section Object

variable {front inside back : List Char} {fields : Table Value} (hFront : Prose front)
  (hBack : Prose back) (h : Spells (.value (.map fields)) ('\x7b' :: (inside ++ ['}'])))

include hFront h in
/-- If such a text is a document as it stands, then it is the object or a string. -/
theorem whole_of_prose {v : Value}
    (hWhole : parseChars (front ++ ('\x7b' :: (inside ++ ['}']) ++ back)) = .ok v) :
    v = .map fields ∨ ∃ body, v = .text body := by
  by_cases hSpaces : Spaces front
  · have hParted : Parted ('\x7b' :: (inside ++ ['}'])) back := by
      intro c hLast hAtom
      rw [← List.cons_append, List.getLast?_concat] at hLast
      cases hLast
      cases hAtom
    rw [parseChars_eq, h.skipSpace_append hSpaces, h.read (fun _ _ hSame => hSame.2) back hParted]
      at hWhole
    simp only at hWhole
    split at hWhole
    · exact .inl (Except.ok.inj hWhole).symm
    · cases hWhole
  · obtain ⟨c, rest, hStart⟩ := List.exists_cons_of_ne_nil (mt List.dropWhile_eq_nil_iff.mp hSpaces)
    have hMem : c ∈ front := (List.dropWhile_suffix isSpace).subset (hStart ▸ List.mem_cons_self)
    have hSkip : skipSpace (front ++ ('\x7b' :: (inside ++ ['}']) ++ back)) =
        c :: (rest ++ ('\x7b' :: (inside ++ ['}']) ++ back)) := by
      rw [skipSpace, List.dropWhile_append, hStart]
      rfl
    rw [parseChars_eq, hSkip] at hWhole
    split at hWhole
    · cases hWhole
    · rename_i w left hRead
      split at hWhole
      · rename_i hLeft
        cases hWhole
        refine .inr (text_of_prose ?_ ?_ (by simp) hRead ?_)
        · rintro rfl
          exact hFront '[' (by simp) hMem
        · rintro rfl
          exact hFront '\x7b' (by simp) hMem
        · exact List.dropWhile_eq_nil_iff.mp (List.isEmpty_iff.mp hLeft)
      · cases hWhole

include hFront hBack in
/-- What is taken out of such a text is the object, unless two marks of a fence stand in it. -/
theorem extractChars_of_prose
    (hFences : ¬ Encloses fenceMark fenceMark ('\x7b' :: (inside ++ ['}']))) :
    extractChars (front ++ ('\x7b' :: (inside ++ ['}']) ++ back)) = '\x7b' :: (inside ++ ['}']) := by
  have hTrim : Text.trim (front ++ ('\x7b' :: (inside ++ ['}']) ++ back)) =
      Text.trimLeft front ++ '\x7b' :: (inside ++ '}' :: Text.trimRight back) := by
    have hText : front ++ ('\x7b' :: (inside ++ ['}']) ++ back) =
        front ++ '\x7b' :: (inside ++ '}' :: back) := by simp
    have hSplit : Text.trimLeft front ++ '\x7b' :: (inside ++ '}' :: back) =
        (Text.trimLeft front ++ '\x7b' :: inside) ++ '}' :: back := by simp
    rw [Text.trim, hText, Text.trimLeft_append rfl, hSplit, Text.trimRight_append rfl]
    simp
  have hLeft : Prose (Text.trimLeft front) :=
    hFront.of_subset (List.dropWhile_suffix Text.isBlank).subset
  have hRight : Prose (Text.trimRight back) := hBack.of_subset (Text.infix_of_trimRight back).subset
  have hNone : ¬ Encloses fenceMark fenceMark
      (Text.trimLeft front ++ '\x7b' :: (inside ++ '}' :: Text.trimRight back)) := by
    intro hMarks
    refine hFences (hLeft.encloses hRight ?_)
    simpa using hMarks
  rw [extractChars_of_unfenced (hTrim ▸ hNone), hTrim,
    between?_eq_some (hLeft '\x7b' (by simp)) (hRight '}' (by simp))]
  rfl

end Object

section Sentence

variable {p d s : String} {fields : Table Value}

/-- An object in prose is found, unless the text as a whole is a string. The text must not begin as an
integer of too many digits does, and where two marks of a fence stand in the object, nothing is said
of a text that is no document as it stands. -/
theorem object_in_prose (hDocument : parse d = .ok (.map fields)) (hBefore : Prose p.toList)
    (hBehind : Prose s.toList) (hNumerals : ∀ n, parse (p ++ d ++ s) ≠ .error (.numeralTooLong n))
    (hFences : Encloses fenceMark fenceMark d.toList → ∃ v, parse (p ++ d ++ s) = .ok v) :
    readReply true (.text (p ++ d ++ s)) = .ok (true, .map fields) ∨
      ∃ body, parse (p ++ d ++ s) = .ok (.text body) ∧
        readReply true (.text (p ++ d ++ s)) = .ok (true, .text body) := by
  obtain ⟨before, w, behind, hText, hSpacesBefore, hSpacesBehind, hSpells⟩ :=
    parseChars_eq_ok_iff.mp hDocument
  obtain ⟨inside, -, rfl, -⟩ := hSpells.exists_braces
  have hFront : Prose (p.toList ++ before) := hBefore.append (.of_spaces hSpacesBefore)
  have hBack : Prose (behind ++ s.toList) := (Prose.of_spaces hSpacesBehind).append hBehind
  have hSentence : (p ++ d ++ s).toList = (p.toList ++ before) ++
      ('\x7b' :: (inside ++ ['}']) ++ (behind ++ s.toList)) := by
    rw [String.toList_append, String.toList_append, hText]
    simp
  cases hWhole : parse (p ++ d ++ s) with
  | ok v =>
      have hReply : readReply true (.text (p ++ d ++ s)) = .ok (true, v) := readReply_of_parse hWhole
      rw [parse, hSentence] at hWhole
      obtain rfl | ⟨body, rfl⟩ := whole_of_prose hFront hSpells hWhole
      · exact .inl hReply
      · exact .inr ⟨body, rfl, hReply⟩
  | error e =>
      cases e with
      | numeralTooLong n => exact absurd hWhole (hNumerals n)
      | malformed =>
          refine .inl ?_
          have hNone : ¬ Encloses fenceMark fenceMark ('\x7b' :: (inside ++ ['}'])) := by
            intro hMarks
            obtain ⟨v, hRead⟩ := hFences (hMarks.of_infix ⟨before, behind, by rw [hText]; simp⟩)
            cases hWhole.symm.trans hRead
          have hFound : parseChars ('\x7b' :: (inside ++ ['}'])) = .ok (.map fields) :=
            parseChars_eq_ok_iff.mpr ⟨[], _, [], by simp, .nil, .nil, hSpells⟩
          have hChanged : '\x7b' :: (inside ++ ['}']) ≠ (p ++ d ++ s).toList := by
            intro hSame
            rw [hSame] at hFound
            cases hWhole.symm.trans hFound
          have hExtract := extractChars_of_prose hFront hBack hNone
          rw [← hSentence] at hExtract
          have hBlank : Text.allBlank (p ++ d ++ s).toList = false := by
            rw [hSentence]
            simp [Text.allBlank, show Text.isBlank '}' = false from rfl]
          exact readReply_of_leniently hBlank hWhole
            (leniently_of_extract hExtract hChanged (parse?_eq_some_iff.mpr hFound))

end Sentence

theorem parse_question :
    parse "\x7b\"intent\": \"question\"\x7d" = .ok (.map [("intent", .text "question")]) := by
  have hName : stringBody? "intent\"".toList = some ("intent".toList, []) := by cbv
  have hText : stringBody? "question\"".toList = some ("question".toList, []) := by cbv
  have hEntry : Spells (.entry "intent" (.text "question")) "\"intent\": \"question\"".toList :=
    .entry hName (s := []) (t := [' ']) .nil (by decide) (.string hText)
  have hEntries : Spells (.entries [("intent", .text "question")]) _ :=
    .lastEntry (g := []) hEntry ⟨rfl, .nil⟩
  have hObject : Spells (.value (.map (Table.ofList [("intent", .text "question")]))) _ :=
    .map (s := []) .nil hEntries
  exact parseChars_eq_ok_iff.mpr ⟨[], _, [], rfl, .nil, .nil, hObject⟩

/-- A question between two remarks. -/
theorem question_in_prose :
    readReply true (.text ("Sure! " ++ "\x7b\"intent\": \"question\"\x7d" ++ " Hope that helps.")) =
      .ok (true, .map [("intent", .text "question")]) := by
  have hWhole : parse ("Sure! " ++ "\x7b\"intent\": \"question\"\x7d" ++ " Hope that helps.") =
      .error .malformed := by
    refine parseChars_of_failure ?_
    change (readValue ('S' :: _)).pair = _
    rw [pair_readValue_atom rfl]
    rfl
  have hNone : ¬ Encloses fenceMark fenceMark "\x7b\"intent\": \"question\"\x7d".toList :=
    not_encloses (c := '\x60') (by decide) (by decide)
  have hReply := object_in_prose (p := "Sure! ") (s := " Hope that helps.") parse_question
    (by decide) (by decide) (fun n hLong => Failure.noConfusion (Except.error.inj (hWhole.symm.trans hLong)))
    fun hMarks => (hNone hMarks).elim
  rcases hReply with hFound | ⟨body, hText, -⟩
  · exact hFound
  · cases hWhole.symm.trans hText

/-- Between two quotes an object is a string: the text as a whole is one. -/
theorem quoted_object_stays_text :
    parse "\x7b\x7d" = .ok (.map []) ∧ Prose "\"".toList ∧
      readReply true (.text ("\"" ++ "\x7b\x7d" ++ "\"")) = .ok (true, .text "\x7b\x7d") := by
  refine ⟨?_, by decide, ?_⟩
  · exact parseChars_eq_ok_iff.mpr ⟨[], _, [], rfl, .nil, .nil, .emptyMap (s := []) .nil⟩
  · have hBody : stringBody? "\x7b\x7d\"".toList = some ("\x7b\x7d".toList, []) := by cbv
    exact readReply_of_parse (parseChars_quoted hBody)

end StepFlow.Json
