import Mathlib.Data.List.Basic
import StepFlow.Proofs.Json.Grammar
import StepFlow.Proofs.Json.Reader

/-! What is read of a text is what it spells, and what it spells is read of it: `parseChars_eq_ok_iff`.
The ends of documents and the blanks around them follow from the grammar. -/
namespace StepFlow.Json

variable {gap : List Char → List Char → Prop} {c : Content} {w w' : List Char}

theorem skipSpace_of_spaces {s : List Char} (hs : Spaces s) (rest : List Char) :
    skipSpace (s ++ rest) = skipSpace rest := List.dropWhile_append_of_pos hs

theorem skipSpace_before {s : List Char} (hs : Spaces s) {c : Char} (hOther : isSpace c = false)
    (rest : List Char) : skipSpace (s ++ c :: rest) = c :: rest := by
  rw [skipSpace_of_spaces hs, skipSpace, List.dropWhile_cons, hOther, if_neg (by simp)]

/-- A text that does not go on with a number or a word that the text before it ends with. -/
def Parted (w rest : List Char) : Prop :=
  ∀ c, w.getLast? = some c → isAtomChar c = true → Apart rest

theorem Apart.parted {rest : List Char} (h : Apart rest) (w : List Char) : Parted w rest :=
  fun _ _ _ => h

namespace Alike

variable {s : List Char} (h : Alike gap c w w')
include h

theorem skipSpace_append (hs : Spaces s) (rest : List Char) :
    skipSpace (s ++ (w ++ rest)) = w ++ rest := by
  obtain ⟨first, tail, -, rfl, -, hFirst⟩ := h.exists_cons
  have hOther : isSpace first = false := by
    rw [← Bool.not_eq_true]
    exact fun hSpace => Bool.noConfusion (hFirst.symm.trans (isOpening_of_isSpace hSpace))
  exact skipSpace_before hs hOther _

/-- What is spelled begins with no closing bracket. -/
theorem skipSpace_ne (hs : Spaces s) {closing : Char} (hClosing : isOpening closing = false)
    (rest after : List Char) : skipSpace (s ++ (w ++ rest)) ≠ closing :: after := by
  obtain ⟨first, tail, -, rfl, -, hFirst⟩ := h.exists_cons
  rw [h.skipSpace_append hs]
  intro hSame
  rw [(List.cons.inj hSame).1, hClosing] at hFirst
  cases hFirst

/-- The name of an entry is read up to its value. -/
theorem reads_name {raw name t : List Char} (hName : stringBody? raw = some (name, []))
    (hs : Spaces s) (ht : Spaces t) (rest : List Char) :
    Reads readName (('"' :: (raw ++ (s ++ ':' :: (t ++ w)))) ++ rest) (String.ofList name)
      (w ++ rest) := by
  have hText : ('"' :: (raw ++ (s ++ ':' :: (t ++ w)))) ++ rest =
      '"' :: (raw ++ (s ++ ':' :: (t ++ (w ++ rest)))) := by simp
  rw [hText, Reads, pair_readName_quote, stringBody?_append hName]
  simp only [skipSpace_before hs (show isSpace ':' = false from rfl), h.skipSpace_append ht]

end Alike

/-- What a text that spells something is read as in front of others. -/
def Content.Read (w : List Char) : Content → Prop
  | .value v => ∀ rest, Parted w rest → Reads readValue (w ++ rest) v rest
  | .entry name v => ∀ rest, Apart rest → ∃ start,
      Reads readName (w ++ rest) name start ∧ Reads readValue start v rest
  | .items vs => ∀ rest, Reads readItems (w ++ ']' :: rest) vs rest
  | .entries fields => ∀ rest, Reads readEntries (w ++ '}' :: rest) fields rest

/-- What a text spells is what is read of it. -/
theorem Alike.read (hGap : ∀ g g', gap g g' → Spaces g) (h : Alike gap c w w') : c.Read w := by
  induction h with
  | string hBody =>
      intro rest _
      rw [Reads, List.cons_append, pair_readValue_quote, stringBody?_append hBody]
  | atom hAtom =>
      intro rest hParted
      obtain ⟨first, tail, rfl, hFirst⟩ := exists_cons_of_atom hAtom
      have hApart : Apart rest := hParted _ (List.getLast?_eq_some_getLast (by simp))
        ((behind_atom hAtom).all _ (List.getLast_mem _))
      rw [Reads, List.cons_append, pair_readValue_atom hFirst, ← List.cons_append,
        atom_append hApart, hAtom]
      rfl
  | emptyList hs =>
      intro rest _
      rw [List.cons_append, List.append_assoc]
      exact pair_readValue_emptyList (skipSpace_before hs rfl _)
  | emptyMap hs =>
      intro rest _
      rw [List.cons_append, List.append_assoc]
      exact pair_readValue_emptyMap (skipSpace_before hs rfl _)
  | list hs h ih =>
      intro rest _
      rw [Reads, List.cons_append, List.append_assoc, List.append_assoc, List.singleton_append,
        pair_readValue_list (h.skipSpace_ne hs rfl _), h.skipSpace_append hs, ih rest]
      rfl
  | map hs h ih =>
      intro rest _
      rw [Reads, List.cons_append, List.append_assoc, List.append_assoc, List.singleton_append,
        pair_readValue_map (h.skipSpace_ne hs rfl _), h.skipSpace_append hs, ih rest]
      rfl
  | entry hName hs ht h ih =>
      intro rest hApart
      exact ⟨_, h.reads_name hName hs ht rest, ih rest (hApart.parted _)⟩
  | @lastItem w w' g g' v h hg ih =>
      intro rest
      have hSpaces := hGap g g' hg
      have hApart : Apart (g ++ ']' :: rest) := apart_spaces hSpaces (.cons rfl _)
      rw [List.append_assoc]
      exact pair_readItems_last (ih _ (hApart.parted w)) (skipSpace_before hSpaces rfl rest)
  | @nextItem w w' s t ws ws' v vs h hs ht hLater ih ihLater =>
      intro rest
      have hText : (w ++ (s ++ ',' :: (t ++ ws))) ++ ']' :: rest =
          w ++ (s ++ ',' :: (t ++ (ws ++ ']' :: rest))) := by simp
      have hApart : Apart (s ++ ',' :: (t ++ (ws ++ ']' :: rest))) := apart_spaces hs (.cons rfl _)
      rw [hText, Reads, pair_readItems_next (ih _ (hApart.parted w)) (skipSpace_before hs rfl _),
        hLater.skipSpace_append ht, ihLater rest]
      rfl
  | @lastEntry w w' g g' name v h hg ih =>
      intro rest
      have hSpaces := hGap g g' hg
      have hApart : Apart (g ++ '}' :: rest) := apart_spaces hSpaces (.cons rfl _)
      obtain ⟨start, hName, hValue⟩ := ih _ hApart
      rw [List.append_assoc]
      exact pair_readEntries_last hValue hName (skipSpace_before hSpaces rfl rest)
  | @nextEntry w w' s t ws ws' name v fields h hs ht hLater ih ihLater =>
      intro rest
      have hText : (w ++ (s ++ ',' :: (t ++ ws))) ++ '}' :: rest =
          w ++ (s ++ ',' :: (t ++ (ws ++ '}' :: rest))) := by simp
      have hApart : Apart (s ++ ',' :: (t ++ (ws ++ '}' :: rest))) := apart_spaces hs (.cons rfl _)
      obtain ⟨start, hName, hValue⟩ := ih _ hApart
      rw [hText, Reads, pair_readEntries_next hValue hName (skipSpace_before hs rfl _),
        hLater.skipSpace_append ht, ihLater rest]
      rfl

/-- A document is read as what it spells, whatever blanks are around it. -/
theorem parseChars_of_alike (hGap : ∀ g g', gap g g' → Spaces g) {v : Value}
    (h : Alike gap (.value v) w w') {s t : List Char} (hs : Spaces s) (ht : Spaces t) :
    parseChars (s ++ (w ++ t)) = .ok v := by
  have hApart : Apart t := List.append_nil t ▸ apart_spaces ht .nil
  rw [parseChars_eq, h.skipSpace_append hs, h.read hGap t (hApart.parted w)]
  simp only [skipSpace, List.dropWhile_eq_nil_iff.mpr ht, List.isEmpty_nil, if_true]

/-- The gaps of a text that is read as it stands. -/
def Unchanged (g g' : List Char) : Prop := g' = g ∧ Spaces g

/-- What a text spells. -/
abbrev Spells (c : Content) (w : List Char) : Prop := Alike Unchanged c w w

section Soundness

theorem exists_spaces (cs : List Char) : ∃ s, Spaces s ∧ cs = s ++ skipSpace cs :=
  ⟨cs.takeWhile isSpace, List.all_eq_true.mp List.all_takeWhile, List.takeWhile_append_dropWhile.symm⟩

theorem exists_name {cs start : List Char} {name : String} (h : Reads readName cs name start) :
    ∃ raw body s t, cs = '"' :: (raw ++ (s ++ ':' :: (t ++ start))) ∧ name = String.ofList body ∧
      stringBody? raw = some (body, []) ∧ Spaces s ∧ Spaces t := by
  unfold Reads readName at h
  split at h
  · rename_i tail
    split at h
    · cases h
    · rename_i body after hBody
      split at h
      · rename_i last hColon
        cases h
        obtain ⟨inside, rfl, -, hRaw⟩ := exists_string hBody
        obtain ⟨s, hs, hAfter⟩ := exists_spaces after
        obtain ⟨t, ht, hLast⟩ := exists_spaces last
        rw [hColon, hLast] at hAfter
        exact ⟨inside ++ ['"'], body, s, t, by rw [hAfter], rfl, hRaw, hs, ht⟩
      · cases h
  · cases h

/-- What is read of a text is what a part of it spells, up to the closing bracket. A number or a word
is known to be spelled where nothing goes on with it. -/
theorem spelling_rules : Rules
    (fun cs v rest => ∃ w, cs = w ++ rest ∧ (Apart rest → Spells (.value v) w))
    (fun cs vs after => ∃ w, cs = w ++ ']' :: after ∧ Spells (.items vs) w)
    (fun cs fields after => ∃ w, cs = w ++ '}' :: after ∧ Spells (.entries fields) w) where
  string := by
    intro tail body after hBody
    obtain ⟨inside, rfl, -, hRaw⟩ := exists_string hBody
    exact ⟨'"' :: (inside ++ ['"']), rfl, fun _ => .string hRaw⟩
  emptyList := by
    intro tail after hEnd
    obtain ⟨s, hs, hTail⟩ := exists_spaces tail
    exact ⟨'[' :: (s ++ [']']), by rw [hTail, hEnd]; simp, fun _ => .emptyList hs⟩
  list := by
    rintro tail vs after ⟨w, hStart, h⟩
    obtain ⟨s, hs, hTail⟩ := exists_spaces tail
    exact ⟨'[' :: (s ++ (w ++ [']'])), by rw [hTail, hStart]; simp, fun _ => .list hs h⟩
  emptyMap := by
    intro tail after hEnd
    obtain ⟨s, hs, hTail⟩ := exists_spaces tail
    exact ⟨'\x7b' :: (s ++ ['}']), by rw [hTail, hEnd]; simp, fun _ => .emptyMap hs⟩
  map := by
    rintro tail fields after ⟨w, hStart, h⟩
    obtain ⟨s, hs, hTail⟩ := exists_spaces tail
    exact ⟨'\x7b' :: (s ++ (w ++ ['}'])), by rw [hTail, hStart]; simp, fun _ => .map hs h⟩
  atom := by
    intro cs v rest hAtom
    obtain ⟨w, rfl, -⟩ := behind_atom hAtom
    refine ⟨w, rfl, fun hApart => .atom ?_⟩
    rw [atom_append hApart] at hAtom
    cases hAlone : Json.atom w with
    | error e =>
        rw [hAlone] at hAtom
        cases hAtom
    | ok found =>
        obtain ⟨_, left⟩ := found
        rw [hAlone] at hAtom
        obtain ⟨rfl, hLeft⟩ := Prod.mk.inj (Except.ok.inj hAtom)
        rw [List.append_left_eq_self.mp hLeft]
  lastItem := by
    rintro cs v rest after ⟨w, rfl, h⟩ hEnd
    obtain ⟨g, hg, hRest⟩ := exists_spaces rest
    rw [hEnd] at hRest
    have hApart : Apart (g ++ ']' :: after) := apart_spaces hg (.cons rfl _)
    rw [hRest] at h ⊢
    exact ⟨w ++ g, (List.append_assoc ..).symm, .lastItem (h hApart) ⟨rfl, hg⟩⟩
  nextItem := by
    rintro cs v rest more vs after ⟨w, rfl, h⟩ hComma ⟨ws, hStart, hLater⟩
    obtain ⟨s, hs, hRest⟩ := exists_spaces rest
    obtain ⟨t, ht, hMore⟩ := exists_spaces more
    rw [hComma, hMore, hStart] at hRest
    have hApart : Apart (s ++ ',' :: (t ++ (ws ++ ']' :: after))) := apart_spaces hs (.cons rfl _)
    rw [hRest] at h ⊢
    exact ⟨w ++ (s ++ ',' :: (t ++ ws)), by simp, .nextItem (h hApart) hs ht hLater⟩
  lastEntry := by
    rintro cs name start v rest after hName ⟨w, rfl, h⟩ hEnd
    obtain ⟨raw, body, s, t, rfl, rfl, hBody, hs, ht⟩ := exists_name hName
    obtain ⟨g, hg, hRest⟩ := exists_spaces rest
    rw [hEnd] at hRest
    have hApart : Apart (g ++ '}' :: after) := apart_spaces hg (.cons rfl _)
    rw [hRest] at h ⊢
    exact ⟨('"' :: (raw ++ (s ++ ':' :: (t ++ w)))) ++ g, by simp,
      .lastEntry (.entry hBody hs ht (h hApart)) ⟨rfl, hg⟩⟩
  nextEntry := by
    rintro cs name start v rest more fields after hName ⟨w, rfl, h⟩ hComma ⟨ws, hStart, hLater⟩
    obtain ⟨raw, body, s, t, rfl, rfl, hBody, hs, ht⟩ := exists_name hName
    obtain ⟨s', hs', hRest⟩ := exists_spaces rest
    obtain ⟨t', ht', hMore⟩ := exists_spaces more
    rw [hComma, hMore, hStart] at hRest
    have hApart : Apart (s' ++ ',' :: (t' ++ (ws ++ '}' :: after))) := apart_spaces hs' (.cons rfl _)
    rw [hRest] at h ⊢
    exact ⟨('"' :: (raw ++ (s ++ ':' :: (t ++ w)))) ++ (s' ++ ',' :: (t' ++ ws)), by simp,
      .nextEntry (.entry hBody hs ht (h hApart)) hs' ht' hLater⟩

end Soundness

/-- A document is what spells its value, with nothing but blanks around it. -/
theorem parseChars_eq_ok_iff {cs : List Char} {v : Value} :
    parseChars cs = .ok v ↔
      ∃ s w t, cs = s ++ (w ++ t) ∧ Spaces s ∧ Spaces t ∧ Spells (.value v) w := by
  constructor
  · intro h
    obtain ⟨rest, ⟨w, hStart, hSpells⟩, hRest⟩ := spelling_rules.of_parseChars h
    obtain ⟨s, hs, hText⟩ := exists_spaces cs
    have hSpaces : Spaces rest := List.dropWhile_eq_nil_iff.mp hRest
    have hApart : Apart rest := List.append_nil rest ▸ apart_spaces hSpaces .nil
    exact ⟨s, w, rest, by rw [hText, hStart], hs, hSpaces, hSpells hApart⟩
  · rintro ⟨s, w, t, rfl, hs, ht, h⟩
    exact parseChars_of_alike (fun _ _ hSame => hSame.2) h hs ht

/-- A document ends, before its last blanks, as a value does. -/
theorem exists_last_of_parseChars {cs : List Char} {v : Value} (h : parseChars cs = .ok v) :
    ∃ front last t, cs = front ++ last :: t ∧ Spaces t ∧ isClosing last = true := by
  obtain ⟨s, w, t, rfl, -, ht, hSpells⟩ := parseChars_eq_ok_iff.mp h
  obtain ⟨front, -, last, rfl, -, hLast⟩ := hSpells.exists_last
  exact ⟨s ++ front, last, t, by simp, ht, hLast⟩

/-- What begins with no value is no document. -/
theorem parseChars_stray {c : Char} (hSpace : isSpace c = false) (hOther : isOpening c = false)
    (rest : List Char) : parseChars (c :: rest) = .error .malformed := by
  simp only [isOpening, Bool.or_eq_false_iff, beq_eq_false_iff_ne] at hOther
  obtain ⟨⟨⟨hQuote, hBracket⟩, hBrace⟩, hAtom⟩ := hOther
  refine parseChars_of_failure ?_
  rw [skipSpace, List.dropWhile_cons, hSpace, if_neg (by simp),
    pair_readValue_other (by rintro _ ⟨⟩; exact ⟨hQuote, hBracket, hBrace⟩)]
  exact atom_of_apart (.cons hAtom rest)

theorem parseChars_backquote (rest : List Char) :
    parseChars ('\x60' :: rest) = .error .malformed := parseChars_stray rfl rfl rest

/-- A document does not begin with a back-quote. -/
theorem head?_of_parseChars {cs : List Char} {v : Value} (h : parseChars cs = .ok v) :
    cs.head? ≠ some '\x60' := by
  intro hQuote
  obtain ⟨rest, rfl⟩ := List.head?_eq_some_iff.mp hQuote
  rw [parseChars_backquote] at h
  cases h

/-- A document does not end with a back-quote. -/
theorem getLast?_of_parseChars {cs : List Char} {v : Value} (h : parseChars cs = .ok v) :
    cs.getLast? ≠ some '\x60' := by
  obtain ⟨front, last, t, rfl, ht, hLast⟩ := exists_last_of_parseChars h
  intro hQuote
  rw [List.getLast?_append_cons] at hQuote
  rcases List.mem_cons.mp (List.mem_of_getLast? hQuote) with rfl | hSpace
  · cases hLast
  · cases ht _ hSpace

/-- A document stays one without the blanks around it. -/
theorem parseChars_trim {cs : List Char} {v : Value} (h : parseChars cs = .ok v) :
    parseChars (Text.trim cs) = .ok v := by
  obtain ⟨s, w, t, rfl, hs, ht, hSpells⟩ := parseChars_eq_ok_iff.mp h
  rw [Text.trim_around (fun c hMem => isBlank_of_isSpace (hs c hMem))
    (fun c hMem => isBlank_of_isSpace (ht c hMem)), hSpells.trim]
  exact parseChars_eq_ok_iff.mpr ⟨[], w, [], by simp, .nil, .nil, hSpells⟩

/-- A document holds more than blanks. -/
theorem allBlank_of_parseChars {cs : List Char} {v : Value} (h : parseChars cs = .ok v) :
    Text.allBlank cs = false := by
  obtain ⟨front, last, t, rfl, -, hLast⟩ := exists_last_of_parseChars h
  simp [Text.allBlank, isBlank_of_isClosing hLast]

end StepFlow.Json
