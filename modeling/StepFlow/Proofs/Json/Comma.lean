import StepFlow.Proofs.Json.Repair

/-! Commas in front of closing brackets. A document with such commas in it is not read as it stands. A
lenient reading takes it as a whole and drops them again, and finds the document without them, where
nothing within its strings looks like a fence, a comment or such a comma, and a list holds no braces. -/
namespace StepFlow.Json

/-- Blanks in front of a closing bracket, and the same with a comma among them or without. -/
def Inserted (g g' : List Char) : Prop :=
  Spaces g ∧ (g' = g ∨ ∃ s t, g = s ++ t ∧ g' = s ++ ',' :: t)

variable {c : Content} {w w' : List Char}

section Reading

/-- That a text is not read as what it would spell, for its form. -/
def Content.Unread (w : List Char) : Content → Prop
  | .value _ => ∀ rest, (readValue (w ++ rest)).pair = .error .malformed
  | .entry _ _ => ∀ rest, ∃ name start,
      Reads readName (w ++ rest) name start ∧ (readValue start).pair = .error .malformed
  | .items _ => ∀ rest, (readItems (w ++ ']' :: rest)).pair = .error .malformed
  | .entries _ => ∀ rest, (readEntries (w ++ '}' :: rest)).pair = .error .malformed

/-- No item begins with a closing bracket, so none can follow a comma behind the last one. -/
theorem readItems_trailing {start s t rest : List Char} {v : Value} (hs : Spaces s) (ht : Spaces t)
    (hLast : Reads readValue start v (s ++ ',' :: (t ++ ']' :: rest))) :
    (readItems start).pair = .error .malformed := by
  have hNone : (readItems (']' :: rest)).pair = .error .malformed := by
    rw [pair_readItems, pair_readValue_other (by rintro _ ⟨⟩; decide),
      atom_of_apart (.cons rfl rest)]
  rw [pair_readItems_next hLast (skipSpace_before hs rfl _), skipSpace_before ht rfl, hNone]
  rfl

theorem readEntries_trailing {cs start s t rest : List Char} {name : String} {v : Value}
    (hs : Spaces s) (ht : Spaces t) (hName : Reads readName cs name start)
    (hLast : Reads readValue start v (s ++ ',' :: (t ++ '}' :: rest))) :
    (readEntries cs).pair = .error .malformed := by
  have hNone : (readEntries ('}' :: rest)).pair = .error .malformed := by
    rw [pair_readEntries]
    rfl
  rw [pair_readEntries_next hLast hName (skipSpace_before hs rfl _), skipSpace_before ht rfl, hNone]
  rfl

/-- A text with a comma in front of a closing bracket is not read. -/
theorem Alike.unread (h : Alike Inserted c w w') : w' = w ∨ c.Unread w' := by
  have hGap : ∀ g g', Inserted g g' → Spaces g := fun _ _ hInserted => hInserted.1
  induction h with
  | string => exact .inl rfl
  | atom => exact .inl rfl
  | emptyList => exact .inl rfl
  | emptyMap => exact .inl rfl
  | @list s w w' vs hs h ih =>
      rcases ih with rfl | hUnread
      · exact .inl rfl
      · refine .inr fun rest => ?_
        rw [List.cons_append, List.append_assoc, List.append_assoc, List.singleton_append,
          pair_readValue_list (h.swap.skipSpace_ne hs rfl _), h.swap.skipSpace_append hs, hUnread rest]
        rfl
  | @map s w w' fields hs h ih =>
      rcases ih with rfl | hUnread
      · exact .inl rfl
      · refine .inr fun rest => ?_
        rw [List.cons_append, List.append_assoc, List.append_assoc, List.singleton_append,
          pair_readValue_map (h.swap.skipSpace_ne hs rfl _), h.swap.skipSpace_append hs, hUnread rest]
        rfl
  | entry hName hs ht h ih =>
      rcases ih with rfl | hUnread
      · exact .inl rfl
      · exact .inr fun rest => ⟨_, _, h.swap.reads_name hName hs ht rest, hUnread rest⟩
  | @lastItem w w' g g' v h hg ih =>
      rcases ih with rfl | hUnread
      · obtain ⟨hSpaces, rfl | ⟨s, t, rfl, rfl⟩⟩ := hg
        · exact .inl rfl
        · obtain ⟨hs, ht⟩ := List.forall_mem_append.mp hSpaces
          refine .inr fun rest => ?_
          have hText : (w' ++ (s ++ ',' :: t)) ++ ']' :: rest =
              w' ++ (s ++ ',' :: (t ++ ']' :: rest)) := by simp
          have hApart : Apart (s ++ ',' :: (t ++ ']' :: rest)) := apart_spaces hs (.cons rfl _)
          rw [hText]
          exact readItems_trailing hs ht (h.read hGap _ (hApart.parted _))
      · refine .inr fun rest => ?_
        rw [List.append_assoc, pair_readItems, hUnread]
  | @nextItem w w' s t ws ws' v vs h hs ht hLater ih ihLater =>
      have hText : ∀ rest, (w' ++ (s ++ ',' :: (t ++ ws'))) ++ ']' :: rest =
          w' ++ (s ++ ',' :: (t ++ (ws' ++ ']' :: rest))) := by simp
      rcases ih with rfl | hUnread
      · rcases ihLater with rfl | hUnread
        · exact .inl rfl
        · refine .inr fun rest => ?_
          have hApart : Apart (s ++ ',' :: (t ++ (ws' ++ ']' :: rest))) :=
            apart_spaces hs (.cons rfl _)
          rw [hText, pair_readItems_next (h.read hGap _ (hApart.parted _)) (skipSpace_before hs rfl _),
            hLater.swap.skipSpace_append ht, hUnread rest]
          rfl
      · refine .inr fun rest => ?_
        rw [hText, pair_readItems, hUnread]
  | @lastEntry w w' g g' name v h hg ih =>
      rcases ih with rfl | hUnread
      · obtain ⟨hSpaces, rfl | ⟨s, t, rfl, rfl⟩⟩ := hg
        · exact .inl rfl
        · obtain ⟨hs, ht⟩ := List.forall_mem_append.mp hSpaces
          refine .inr fun rest => ?_
          have hText : (w' ++ (s ++ ',' :: t)) ++ '}' :: rest =
              w' ++ (s ++ ',' :: (t ++ '}' :: rest)) := by simp
          have hApart : Apart (s ++ ',' :: (t ++ '}' :: rest)) := apart_spaces hs (.cons rfl _)
          obtain ⟨start, hName, hValue⟩ := h.read hGap _ hApart
          rw [hText]
          exact readEntries_trailing hs ht hName hValue
      · refine .inr fun rest => ?_
        obtain ⟨name, start, hName, hFailed⟩ := hUnread (g' ++ '}' :: rest)
        rw [List.append_assoc, pair_readEntries, hName]
        simp only [hFailed]
  | @nextEntry w w' s t ws ws' name v fields h hs ht hLater ih ihLater =>
      have hText : ∀ rest, (w' ++ (s ++ ',' :: (t ++ ws'))) ++ '}' :: rest =
          w' ++ (s ++ ',' :: (t ++ (ws' ++ '}' :: rest))) := by simp
      rcases ih with rfl | hUnread
      · rcases ihLater with rfl | hUnread
        · exact .inl rfl
        · refine .inr fun rest => ?_
          have hApart : Apart (s ++ ',' :: (t ++ (ws' ++ '}' :: rest))) :=
            apart_spaces hs (.cons rfl _)
          obtain ⟨start, hName, hValue⟩ := h.read hGap _ hApart
          rw [hText, pair_readEntries_next hValue hName (skipSpace_before hs rfl _),
            hLater.swap.skipSpace_append ht, hUnread rest]
          rfl
      · refine .inr fun rest => ?_
        obtain ⟨name, start, hName, hFailed⟩ := hUnread (s ++ ',' :: (t ++ (ws' ++ '}' :: rest)))
        rw [hText, pair_readEntries, hName]
        simp only [hFailed]

end Reading

section Cleaning

/-- What stands behind the last item or entry. -/
def Content.closing : Content → List Char
  | .items _ => [']']
  | .entries _ => ['}']
  | _ => []

theorem comma_not_mem {s : List Char} (hs : Spaces s) : ',' ∉ s := fun hMem => by cases hs _ hMem

/-- In front of a closing bracket, an added comma goes again. -/
theorem Inserted.cleaned {g g' : List Char} (hg : Inserted g g') {c : Char}
    (hClosing : c = '}' ∨ c = ']') : ∃ k, Spaces k ∧ ∀ rest,
      dropTrailingCommas (g' ++ c :: rest) = k ++ c :: dropTrailingCommas rest := by
  have hOther : c ≠ ',' := by
    rintro rfl
    obtain hSame | hSame := hClosing <;> cases hSame
  obtain ⟨hSpaces, rfl | ⟨s, t, rfl, rfl⟩⟩ := hg
  · refine ⟨g', hSpaces, fun rest => ?_⟩
    rw [dropTrailingCommas_append (comma_not_mem hSpaces), dropTrailingCommas_cons hOther]
  · obtain ⟨hs, ht⟩ := List.forall_mem_append.mp hSpaces
    refine ⟨s, hs, fun rest => ?_⟩
    rw [List.append_assoc, dropTrailingCommas_append (comma_not_mem hs), List.cons_append,
      dropTrailingCommas_closing (fun d hMem => isBlank_of_isSpace (ht d hMem)) rest hClosing]

/-- In front of what is spelled, a comma stays. -/
theorem Alike.dropTrailingCommas_before {gap : List Char → List Char → Prop} (h : Alike gap c w w')
    {s t : List Char} (hs : Spaces s) (ht : Spaces t) (rest : List Char) :
    dropTrailingCommas (s ++ ',' :: (t ++ (w ++ rest))) =
      s ++ ',' :: (t ++ dropTrailingCommas (w ++ rest)) := by
  obtain ⟨first, tail, -, rfl, -, hFirst⟩ := h.exists_cons
  have hOther : ¬ (first = '}' ∨ first = ']') := by
    rintro (rfl | rfl) <;> cases hFirst
  rw [dropTrailingCommas_append (comma_not_mem hs), List.cons_append,
    dropTrailingCommas_other (fun d hMem => isBlank_of_isSpace (ht d hMem)) _
      (isBlank_of_isOpening hFirst) hOther, dropTrailingCommas_append (comma_not_mem ht)]

/-- A string stays where no comma in it looks like one before a closing bracket. -/
theorem dropTrailingCommas_string {raw body : List Char} (hBody : stringBody? raw = some (body, []))
    (hTidy : Tidy ('"' :: raw)) (rest : List Char) :
    dropTrailingCommas ('"' :: (raw ++ rest)) = '"' :: (raw ++ dropTrailingCommas rest) := by
  obtain ⟨inside, rfl, -, -⟩ := exists_string hBody
  rw [List.append_nil] at hTidy ⊢
  have hString : dropTrailingCommas (('"' :: inside) ++ '"' :: rest) =
      ('"' :: inside) ++ '"' :: dropTrailingCommas rest :=
    Tidy.dropTrailingCommas rfl (by decide) hTidy rest
  simpa using hString

/-- Without the added commas, a text spells the same. -/
theorem Alike.cleaned (h : Alike Inserted c w w') (hTidy : Tidy w) : ∃ u, Spells c u ∧ ∀ rest,
    dropTrailingCommas (w' ++ (c.closing ++ rest)) = u ++ (c.closing ++ dropTrailingCommas rest) := by
  induction h with
  | @string raw body hBody =>
      exact ⟨'"' :: raw, .string hBody, dropTrailingCommas_string hBody hTidy⟩
  | @atom w v hAtom =>
      have hNone : ',' ∉ w := fun hMem => by cases (behind_atom hAtom).all _ hMem
      exact ⟨w, .atom hAtom, dropTrailingCommas_append hNone⟩
  | @emptyList s hs =>
      have hNone : ',' ∉ '[' :: (s ++ [']']) := by simp [comma_not_mem hs]
      exact ⟨_, .emptyList hs, dropTrailingCommas_append hNone⟩
  | @emptyMap s hs =>
      have hNone : ',' ∉ '\x7b' :: (s ++ ['}']) := by simp [comma_not_mem hs]
      exact ⟨_, .emptyMap hs, dropTrailingCommas_append hNone⟩
  | @list s w w' vs hs h ih =>
      obtain ⟨u, hSpells, hClean⟩ := ih (hTidy.of_infix ⟨'[' :: s, [']'], by simp⟩)
      refine ⟨_, .list hs hSpells, fun rest => ?_⟩
      have hNone : ',' ∉ '[' :: s := by simp [comma_not_mem hs]
      have hInside : dropTrailingCommas (w' ++ ']' :: rest) = u ++ ']' :: dropTrailingCommas rest :=
        hClean rest
      have hStart := dropTrailingCommas_append hNone (w' ++ ']' :: rest)
      rw [hInside] at hStart
      simpa [Content.closing] using hStart
  | @map s w w' fields hs h ih =>
      obtain ⟨u, hSpells, hClean⟩ := ih (hTidy.of_infix ⟨'\x7b' :: s, ['}'], by simp⟩)
      refine ⟨_, .map hs hSpells, fun rest => ?_⟩
      have hNone : ',' ∉ '\x7b' :: s := by simp [comma_not_mem hs]
      have hInside : dropTrailingCommas (w' ++ '}' :: rest) = u ++ '}' :: dropTrailingCommas rest :=
        hClean rest
      have hStart := dropTrailingCommas_append hNone (w' ++ '}' :: rest)
      rw [hInside] at hStart
      simpa [Content.closing] using hStart
  | @entry raw name s t w w' v hName hs ht h ih =>
      obtain ⟨u, hSpells, hClean⟩ :=
        ih (hTidy.of_infix ⟨'"' :: (raw ++ (s ++ ':' :: t)), [], by simp⟩)
      refine ⟨_, .entry hName hs ht hSpells, fun rest => ?_⟩
      have hNone : ',' ∉ s ++ ':' :: t := by simp [comma_not_mem hs, comma_not_mem ht]
      have hValue : dropTrailingCommas (w' ++ rest) = u ++ dropTrailingCommas rest := hClean rest
      have hString := dropTrailingCommas_string hName
        (hTidy.of_infix ⟨[], s ++ ':' :: (t ++ w), by simp⟩) ((s ++ ':' :: t) ++ (w' ++ rest))
      rw [dropTrailingCommas_append hNone, hValue] at hString
      simpa [Content.closing] using hString
  | @lastItem w w' g g' v h hg ih =>
      obtain ⟨u, hSpells, hClean⟩ := ih (hTidy.of_infix (List.prefix_append w g).isInfix)
      obtain ⟨k, hk, hLast⟩ := hg.cleaned (.inr rfl)
      refine ⟨_, .lastItem hSpells ⟨rfl, hk⟩, fun rest => ?_⟩
      have hFirst : dropTrailingCommas (w' ++ (g' ++ ']' :: rest)) =
          u ++ dropTrailingCommas (g' ++ ']' :: rest) := hClean _
      rw [hLast] at hFirst
      simpa [Content.closing] using hFirst
  | @nextItem w w' s t ws ws' v vs h hs ht hLater ih ihLater =>
      obtain ⟨u, hSpells, hClean⟩ := ih (hTidy.of_infix (List.prefix_append w _).isInfix)
      obtain ⟨us, hSpellsLater, hCleanLater⟩ :=
        ihLater (hTidy.of_infix ⟨w ++ (s ++ ',' :: t), [], by simp⟩)
      refine ⟨_, .nextItem hSpells hs ht hSpellsLater, fun rest => ?_⟩
      have hFirst : dropTrailingCommas (w' ++ (s ++ ',' :: (t ++ (ws' ++ ']' :: rest)))) =
          u ++ dropTrailingCommas (s ++ ',' :: (t ++ (ws' ++ ']' :: rest))) := hClean _
      have hRest : dropTrailingCommas (ws' ++ ']' :: rest) = us ++ ']' :: dropTrailingCommas rest :=
        hCleanLater rest
      rw [hLater.swap.dropTrailingCommas_before hs ht, hRest] at hFirst
      simpa [Content.closing] using hFirst
  | @lastEntry w w' g g' name v h hg ih =>
      obtain ⟨u, hSpells, hClean⟩ := ih (hTidy.of_infix (List.prefix_append w g).isInfix)
      obtain ⟨k, hk, hLast⟩ := hg.cleaned (.inl rfl)
      refine ⟨_, .lastEntry hSpells ⟨rfl, hk⟩, fun rest => ?_⟩
      have hFirst : dropTrailingCommas (w' ++ (g' ++ '}' :: rest)) =
          u ++ dropTrailingCommas (g' ++ '}' :: rest) := hClean _
      rw [hLast] at hFirst
      simpa [Content.closing] using hFirst
  | @nextEntry w w' s t ws ws' name v fields h hs ht hLater ih ihLater =>
      obtain ⟨u, hSpells, hClean⟩ := ih (hTidy.of_infix (List.prefix_append w _).isInfix)
      obtain ⟨us, hSpellsLater, hCleanLater⟩ :=
        ihLater (hTidy.of_infix ⟨w ++ (s ++ ',' :: t), [], by simp⟩)
      refine ⟨_, .nextEntry hSpells hs ht hSpellsLater, fun rest => ?_⟩
      have hFirst : dropTrailingCommas (w' ++ (s ++ ',' :: (t ++ (ws' ++ '}' :: rest)))) =
          u ++ dropTrailingCommas (s ++ ',' :: (t ++ (ws' ++ '}' :: rest))) := hClean _
      have hRest : dropTrailingCommas (ws' ++ '}' :: rest) = us ++ '}' :: dropTrailingCommas rest :=
        hCleanLater rest
      rw [hLater.swap.dropTrailingCommas_before hs ht, hRest] at hFirst
      simpa [Content.closing] using hFirst

end Cleaning

section Lines

theorem Sheltered.of_spaces {s : List Char} (hs : Spaces s) : Sheltered s :=
  .of_not_mem fun hMem => by cases hs _ hMem

theorem Sheltered.cons {d : Char} {cs : List Char} (hOther : d ≠ '/') (h : Sheltered cs) :
    Sheltered (d :: cs) :=
  Sheltered.append (.of_not_mem (show '/' ∉ [d] by simpa using hOther.symm)) h

theorem Sheltered.string {raw body : List Char} (hBody : stringBody? raw = some (body, [])) :
    Sheltered ('"' :: raw) := by
  obtain ⟨inside, rfl, hBare, -⟩ := exists_string hBody
  rw [List.append_nil]
  exact .quoted fun hMem => by cases hBare _ hMem

theorem Inserted.sheltered {g g' : List Char} (hg : Inserted g g') : Sheltered g' := by
  obtain ⟨hSpaces, rfl | ⟨s, t, rfl, rfl⟩⟩ := hg
  · exact .of_spaces hSpaces
  · obtain ⟨hs, ht⟩ := List.forall_mem_append.mp hSpaces
    exact (Sheltered.of_spaces hs).append (.cons (by decide) (.of_spaces ht))

/-- Only strings hold slashes, and no string holds the end of a line. -/
theorem Alike.sheltered (h : Alike Inserted c w w') : Sheltered w' := by
  induction h with
  | string hBody => exact .string hBody
  | atom hAtom => exact .of_not_mem fun hMem => by cases (behind_atom hAtom).all _ hMem
  | emptyList hs =>
      exact .cons (by decide) ((Sheltered.of_spaces hs).append (.cons (by decide) (.of_spaces .nil)))
  | list hs _ ih =>
      exact .cons (by decide) ((Sheltered.of_spaces hs).append
        (ih.append (.cons (by decide) (.of_spaces .nil))))
  | emptyMap hs =>
      exact .cons (by decide) ((Sheltered.of_spaces hs).append (.cons (by decide) (.of_spaces .nil)))
  | map hs _ ih =>
      exact .cons (by decide) ((Sheltered.of_spaces hs).append
        (ih.append (.cons (by decide) (.of_spaces .nil))))
  | entry hName hs ht _ ih =>
      exact (Sheltered.string hName).append ((Sheltered.of_spaces hs).append
        (.cons (by decide) ((Sheltered.of_spaces ht).append ih)))
  | lastItem _ hg ih => exact ih.append hg.sheltered
  | nextItem _ hs ht _ ih ihLater =>
      exact ih.append ((Sheltered.of_spaces hs).append
        (.cons (by decide) ((Sheltered.of_spaces ht).append ihLater)))
  | lastEntry _ hg ih => exact ih.append hg.sheltered
  | nextEntry _ hs ht _ ih ihLater =>
      exact ih.append ((Sheltered.of_spaces hs).append
        (.cons (by decide) ((Sheltered.of_spaces ht).append ihLater)))

end Lines

section Marks

/-- A text and what is left of it without some of its commas. -/
inductive Thinned : List Char → List Char → Prop where
  | nil : Thinned [] []
  | keep {t d : List Char} (c : Char) (h : Thinned t d) : Thinned (c :: t) (c :: d)
  | drop {t d : List Char} (h : Thinned t d) : Thinned (',' :: t) d

namespace Thinned

theorem refl (t : List Char) : Thinned t t := by
  induction t with
  | nil => exact .nil
  | cons c t ih => exact .keep c ih

theorem append {t d t' d' : List Char} (h : Thinned t d) (hLater : Thinned t' d') :
    Thinned (t ++ t') (d ++ d') := by
  induction h with
  | nil => exact hLater
  | keep c _ ih => exact .keep c ih
  | drop _ ih => exact .drop ih

theorem behind {t d : List Char} (front : List Char) (h : Thinned t d) :
    Thinned (front ++ t) (front ++ d) := (refl front).append h

theorem exists_of_append {front back d : List Char} (h : Thinned (front ++ back) d) :
    ∃ front' back', d = front' ++ back' ∧ Thinned front front' ∧ Thinned back back' := by
  induction front generalizing d with
  | nil => exact ⟨[], d, rfl, .nil, h⟩
  | cons c front ih =>
      cases h with
      | keep _ hLater =>
          obtain ⟨front', back', rfl, hFront, hBack⟩ := ih hLater
          exact ⟨c :: front', back', rfl, .keep c hFront, hBack⟩
      | drop hLater =>
          obtain ⟨front', back', rfl, hFront, hBack⟩ := ih hLater
          exact ⟨front', back', rfl, .drop hFront, hBack⟩

theorem eq_of_not_mem {t d : List Char} (hNone : ',' ∉ t) (h : Thinned t d) : d = t := by
  induction h with
  | nil => rfl
  | keep c _ ih => rw [ih fun hMem => hNone (List.mem_cons_of_mem c hMem)]
  | drop => exact absurd List.mem_cons_self hNone

/-- What stands together without a comma in it stands together still. -/
theorem exists_of_part {front part back d : List Char} (hPart : ',' ∉ part)
    (h : Thinned (front ++ (part ++ back)) d) :
    ∃ front' back', d = front' ++ (part ++ back') ∧ Thinned back back' := by
  obtain ⟨front', rest, rfl, -, hRest⟩ := h.exists_of_append
  obtain ⟨part', back', rfl, hSame, hBack⟩ := hRest.exists_of_append
  exact ⟨front', back', by rw [hSame.eq_of_not_mem hPart], hBack⟩

/-- Two marks without commas were there before commas were added. -/
theorem encloses {opening closing t d : List Char} (hOpening : ',' ∉ opening)
    (hClosing : ',' ∉ closing) (h : Thinned t d) (hMarks : Encloses opening closing t) :
    Encloses opening closing d := by
  obtain ⟨front, inside, back, rfl⟩ := hMarks
  obtain ⟨front', rest, rfl, hRest⟩ := h.exists_of_part hOpening
  obtain ⟨inside', back', rfl, -⟩ := hRest.exists_of_part hClosing
  exact ⟨front', inside', back', rfl⟩

end Thinned

theorem Inserted.thinned {g g' : List Char} (hg : Inserted g g') : Thinned g' g := by
  obtain ⟨-, rfl | ⟨s, t, rfl, rfl⟩⟩ := hg
  · exact .refl _
  · exact (Thinned.drop (.refl t)).behind s

theorem Alike.thinned (h : Alike Inserted c w w') : Thinned w' w := by
  induction h with
  | string => exact .refl _
  | atom => exact .refl _
  | emptyList => exact .refl _
  | @list s _ _ _ _ _ ih => exact .keep '[' ((ih.append (.refl [']'])).behind s)
  | emptyMap => exact .refl _
  | @map s _ _ _ _ _ ih => exact .keep '\x7b' ((ih.append (.refl ['}'])).behind s)
  | @entry raw _ s t _ _ _ _ _ _ _ ih =>
      exact .keep '"' (((Thinned.keep ':' (ih.behind t)).behind s).behind raw)
  | lastItem _ hg ih => exact ih.append hg.thinned
  | @nextItem _ _ s t _ _ _ _ _ _ _ _ ih ihLater =>
      exact ih.append ((Thinned.keep ',' (ihLater.behind t)).behind s)
  | lastEntry _ hg ih => exact ih.append hg.thinned
  | @nextEntry _ _ s t _ _ _ _ _ _ _ _ _ ih ihLater =>
      exact ih.append ((Thinned.keep ',' (ihLater.behind t)).behind s)

end Marks

/-- A document, and the same with a comma in front of some of the brackets that close its lists and
objects, none of them in an empty one. -/
def Trailed (d t : List Char) : Prop :=
  ∃ v before w w' behind, d = before ++ (w ++ behind) ∧ t = before ++ (w' ++ behind) ∧
    Spaces before ∧ Spaces behind ∧ Alike Inserted (.value v) w w'

/-- Every document has these texts, itself among them. -/
theorem trailed_of_parseChars {d : List Char} {v : Value} (h : parseChars d = .ok v) :
    Trailed d d := by
  obtain ⟨s, w, t, rfl, hs, ht, hSpells⟩ := parseChars_eq_ok_iff.mp h
  have hKept : ∀ g g', Unchanged g g' → Inserted g g' := by
    rintro g _ ⟨rfl, hg⟩
    exact ⟨hg, .inl rfl⟩
  exact ⟨v, s, w, w, t, rfl, rfl, hs, ht, hSpells.mono hKept⟩

/-- A document that repairs of it can be told from: it holds no two marks of a fence, no marks of a
block comment, no comma that blanks and a closing bracket follow, and if it is a list no braces. -/
structure Quiet (v : Value) (d : List Char) : Prop where
  fences : ¬ Encloses fenceMark fenceMark d
  comments : ¬ Encloses ['/', '*'] ['*', '/'] d
  commas : Tidy d
  braces : ∀ vs, v = .list vs → ¬ Encloses ['\x7b'] ['}'] d

theorem Quiet.of_infix {v : Value} {part d : List Char} (hPart : part <:+: d) (h : Quiet v d) :
    Quiet v part where
  fences := fun hMarks => h.fences (hMarks.of_infix hPart)
  comments := fun hMarks => h.comments (hMarks.of_infix hPart)
  commas := h.commas.of_infix hPart
  braces := fun vs hList hMarks => h.braces vs hList (hMarks.of_infix hPart)

section Repairing

variable {v : Value} (h : Alike Inserted (.value v) w w') (hQuiet : Quiet v w)
include h hQuiet

/-- Repaired, such a text is the document without the commas. -/
theorem Alike.repaired : parseChars (repairChars w') = .ok v := by
  obtain ⟨u, hSpells, hClean⟩ := h.cleaned hQuiet.commas
  have hBlock : dropBlockComments w' = w' :=
    dropBlockComments_eq_self fun hMarks =>
      hQuiet.comments (h.thinned.encloses (by decide) (by decide) hMarks)
  have hLine : dropLineComments true w' = w' :=
    dropLineComments_eq_self [] h.sheltered fun _ => .inl rfl
  have hCommas : dropTrailingCommas w' = u := by
    have hWhole : dropTrailingCommas (w' ++ []) = u ++ dropTrailingCommas [] := hClean []
    rwa [List.append_nil, dropTrailingCommas, List.append_nil] at hWhole
  rw [repairChars, hBlock, hLine, hCommas, hSpells.trim]
  exact parseChars_eq_ok_iff.mpr ⟨[], u, [], by simp, .nil, .nil, hSpells⟩

/-- Such a text is taken as a whole, without the blanks around it. -/
theorem Alike.extracted (hKind : (∃ vs, v = .list vs) ∨ ∃ fields, v = .map fields) {cs : List Char}
    (hTrim : Text.trim cs = w') : extractChars cs = w' := by
  have hMarks : ∀ opening closing, ',' ∉ opening → ',' ∉ closing →
      Encloses opening closing w' → Encloses opening closing w :=
    fun _ _ hOpening hClosing => h.thinned.encloses hOpening hClosing
  have hNone : ¬ Encloses fenceMark fenceMark (Text.trim cs) :=
    fun hFences => hQuiet.fences (hMarks _ _ (by decide) (by decide) (hTrim ▸ hFences))
  rw [extractChars_of_unfenced hNone, hTrim]
  obtain ⟨vs, rfl⟩ | ⟨fields, rfl⟩ := hKind
  · have hBraces : between? '\x7b' '}' w' = none :=
      between?_eq_none (by decide) fun hPair =>
        hQuiet.braces vs rfl (hMarks _ _ (by decide) (by decide) hPair)
    obtain ⟨-, inside, -, rfl⟩ := h.exists_brackets
    have hWhole : between? '[' ']' ('[' :: (inside ++ [']'])) = some ('[' :: (inside ++ [']'])) :=
      between?_eq_some (List.not_mem_nil (a := '[')) (List.not_mem_nil (a := ']')) inside
    rw [hBraces, hWhole]
    rfl
  · obtain ⟨-, inside, -, rfl⟩ := h.exists_braces
    have hWhole : between? '\x7b' '}' ('\x7b' :: (inside ++ ['}'])) =
        some ('\x7b' :: (inside ++ ['}'])) :=
      between?_eq_some (List.not_mem_nil (a := '\x7b')) (List.not_mem_nil (a := '}')) inside
    rw [hWhole]
    rfl

end Repairing

/-- Commas in front of closing brackets change nothing about what a lenient reading finds, where
repairs can be told from the document. -/
theorem trailing_commas_dropped {d t : String} {v : Value} (hDocument : parse d = .ok v)
    (hKind : (∃ vs, v = .list vs) ∨ ∃ fields, v = .map fields) (hTrailed : Trailed d.toList t.toList)
    (hQuiet : Quiet v d.toList) : readReply true (.text t) = .ok (true, v) := by
  obtain ⟨v', before, w, w', behind, hD, hT, hBefore, hBehind, h⟩ := hTrailed
  have hSame : parse d = .ok v' := by
    rw [parse, hD]
    exact parseChars_of_alike (fun _ _ hInserted => hInserted.1) h hBefore hBehind
  cases hDocument.symm.trans hSame
  have hPart : Quiet v w := hQuiet.of_infix ⟨before, behind, by rw [hD]; simp⟩
  rcases h.unread with rfl | hUnread
  · refine readReply_of_parse ?_
    rw [parse, hT, ← hD]
    exact hDocument
  · have hNone : parse t = .error .malformed := by
      refine parseChars_of_failure ?_
      rw [hT, h.swap.skipSpace_append hBefore]
      exact hUnread behind
    have hTrim : Text.trim t.toList = w' := by
      rw [hT, Text.trim_around (fun c hMem => isBlank_of_isSpace (hBefore c hMem))
        (fun c hMem => isBlank_of_isSpace (hBehind c hMem)), h.swap.trim]
    have hFound : parseChars w' = .error .malformed := by
      have hStart : skipSpace w' = w' := by simpa using h.swap.skipSpace_append (s := []) .nil []
      refine parseChars_of_failure ?_
      have hRead : (readValue (w' ++ [])).pair = .error .malformed := hUnread []
      rwa [hStart, ← List.append_nil w']
    have hRepaired := h.repaired hPart
    have hChanged : repairChars w' ≠ w' := by
      intro hKept
      rw [hKept] at hRepaired
      cases hFound.symm.trans hRepaired
    have hBlank : Text.allBlank t.toList = false := by
      obtain ⟨first, rest, -, rfl, -, hFirst⟩ := h.swap.exists_cons
      rw [hT]
      simp [Text.allBlank, isBlank_of_isOpening hFirst]
    exact readReply_of_leniently hBlank hNone (leniently_of_repair (h.extracted hPart hKind hTrim)
      (parse?_eq_none_iff.mpr hFound) hChanged (parse?_eq_some_iff.mpr hRepaired))

section Documents

variable {v : Value} (h : Alike Inserted (.value v) w w')
include h

theorem Alike.document : parseChars w = .ok v := by
  have hRead := parseChars_of_alike (fun _ _ hInserted => hInserted.1) h (s := []) (t := [])
    .nil .nil
  rwa [List.nil_append, List.append_nil] at hRead

theorem Alike.trailed : Trailed w w' :=
  ⟨v, [], w, w', [], by simp, by simp, .nil, .nil, h⟩

end Documents

/-- An object with a list of one number, and commas behind both of their last members. -/
theorem items_with_commas_read :
    readReply true (.text "\x7b\"items\": [1,],\x7d") =
      .ok (true, .map [("items", .list [.int 1])]) := by
  have hName : stringBody? "items\"".toList = some ("items".toList, []) := by cbv
  have hNumber : atom ['1'] = .ok (.int 1, []) := rfl
  have hAdded : Inserted [] [','] := ⟨.nil, .inr ⟨[], [], rfl, rfl⟩⟩
  have hItems : Alike Inserted (.items [.int 1]) ['1'] ['1', ','] := .lastItem (.atom hNumber) hAdded
  have hEntry : Alike Inserted (.entry "items" (.list [.int 1])) "\"items\": [1]".toList
      "\"items\": [1,]".toList := .entry hName (s := []) (t := [' ']) .nil (by decide)
    (.list (s := []) .nil hItems)
  have hObject : Alike Inserted (.value (.map [("items", .list [.int 1])]))
      "\x7b\"items\": [1]\x7d".toList "\x7b\"items\": [1,],\x7d".toList :=
    .map (s := []) .nil (.lastEntry hEntry hAdded)
  have hQuiet : Quiet (.map [("items", .list [.int 1])]) "\x7b\"items\": [1]\x7d".toList :=
    { fences := not_encloses (c := '\x60') (by decide) (by decide)
      comments := not_encloses (c := '/') (by decide) (by decide)
      commas := Tidy.of_not_mem (by decide)
      braces := fun vs hList => Value.noConfusion hList }
  exact trailing_commas_dropped hObject.document (.inr ⟨_, rfl⟩) hObject.trailed hQuiet

/-- A comma and a bracket in a string, which look like a comma before a closing bracket: with a comma
behind the string, the one in the string goes too. -/
theorem comma_in_string_dropped :
    parse "[\"a,]\"]" = .ok (.list [.text "a,]"]) ∧
      Trailed "[\"a,]\"]".toList "[\"a,]\",]".toList ∧
        readReply true (.text "[\"a,]\",]") = .ok (true, .list [.text "a]"]) := by
  have hString : stringBody? "a,]\"".toList = some ("a,]".toList, []) := by cbv
  have hAdded : Inserted [] [','] := ⟨.nil, .inr ⟨[], [], rfl, rfl⟩⟩
  have hList : Alike Inserted (.value (.list [.text "a,]"])) "[\"a,]\"]".toList "[\"a,]\",]".toList :=
    .list (s := []) .nil (.lastItem (.string hString) hAdded)
  refine ⟨hList.document, hList.trailed, ?_⟩
  have hLeft : stringBody? "a]\"".toList = some ("a]".toList, []) := by cbv
  have hKept : Inserted [] [] := ⟨.nil, .inl rfl⟩
  have hRepaired : Alike Inserted (.value (.list [.text "a]"])) "[\"a]\"]".toList "[\"a]\"]".toList :=
    .list (s := []) .nil (.lastItem (.string hLeft) hKept)
  have hUnread := hList.unread.resolve_left (by decide)
  have hNone : parse "[\"a,]\",]" = .error .malformed := by
    refine parseChars_of_failure ?_
    exact hUnread []
  have hExtract : extractChars "[\"a,]\",]".toList = "[\"a,]\",]".toList := by decide
  have hRepair : repairChars "[\"a,]\",]".toList = "[\"a]\"]".toList := by cbv
  refine readReply_of_leniently rfl hNone (leniently_of_repair hExtract (parse?_eq_none_iff.mpr hNone) ?_ ?_)
  · rw [hRepair]
    decide
  · rw [hRepair]
    exact parse?_eq_some_iff.mpr hRepaired.document

end StepFlow.Json
