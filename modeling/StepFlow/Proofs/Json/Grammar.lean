import StepFlow.Proofs.Json.Lexeme
import StepFlow.Proofs.Text.Trim

/-! The grammar of documents. A text spells a value, an entry, or the items or entries of a list or an
object that is not empty. Two texts are related that spell the same and may differ in front of the
brackets that close such lists and objects: where they may not differ, what is related to itself is
what spells something. -/
namespace StepFlow.Json

/-- Blanks as they may stand between the lexemes of a document. -/
def Spaces (s : List Char) : Prop := ∀ c ∈ s, isSpace c = true

instance (s : List Char) : Decidable (Spaces s) :=
  decidable_of_iff (s.all isSpace = true) List.all_eq_true

theorem Spaces.nil : Spaces [] := List.forall_mem_nil _

/-- What a text can spell: a value, an entry of an object, or all that stands in a pair of brackets,
up to the closing one. -/
inductive Content where
  | value (v : Value)
  | entry (name : String) (v : Value)
  | items (vs : List Value)
  | entries (fields : List (String × Value))

/-- Two texts that spell the same and are alike but for what stands in front of the brackets that close
lists and objects that are not empty. How they may differ there is for `gap` to say. -/
inductive Alike (gap : List Char → List Char → Prop) : Content → List Char → List Char → Prop where
  | string {raw body : List Char} (hBody : stringBody? raw = some (body, [])) :
      Alike gap (.value (.text (String.ofList body))) ('"' :: raw) ('"' :: raw)
  | atom {w : List Char} {v : Value} (hAtom : Json.atom w = .ok (v, [])) : Alike gap (.value v) w w
  | emptyList {s : List Char} (hs : Spaces s) :
      Alike gap (.value (.list [])) ('[' :: (s ++ [']'])) ('[' :: (s ++ [']']))
  | list {s w w' : List Char} {vs : List Value} (hs : Spaces s) (h : Alike gap (.items vs) w w') :
      Alike gap (.value (.list vs)) ('[' :: (s ++ (w ++ [']']))) ('[' :: (s ++ (w' ++ [']'])))
  | emptyMap {s : List Char} (hs : Spaces s) :
      Alike gap (.value (.map [])) ('\x7b' :: (s ++ ['}'])) ('\x7b' :: (s ++ ['}']))
  | map {s w w' : List Char} {fields : List (String × Value)} (hs : Spaces s)
      (h : Alike gap (.entries fields) w w') :
      Alike gap (.value (.map (Table.ofList fields))) ('\x7b' :: (s ++ (w ++ ['}'])))
        ('\x7b' :: (s ++ (w' ++ ['}'])))
  | entry {raw name s t w w' : List Char} {v : Value} (hName : stringBody? raw = some (name, []))
      (hs : Spaces s) (ht : Spaces t) (h : Alike gap (.value v) w w') :
      Alike gap (.entry (String.ofList name) v) ('"' :: (raw ++ (s ++ ':' :: (t ++ w))))
        ('"' :: (raw ++ (s ++ ':' :: (t ++ w'))))
  | lastItem {w w' g g' : List Char} {v : Value} (h : Alike gap (.value v) w w') (hGap : gap g g') :
      Alike gap (.items [v]) (w ++ g) (w' ++ g')
  | nextItem {w w' s t ws ws' : List Char} {v : Value} {vs : List Value}
      (h : Alike gap (.value v) w w') (hs : Spaces s) (ht : Spaces t)
      (hLater : Alike gap (.items vs) ws ws') :
      Alike gap (.items (v :: vs)) (w ++ (s ++ ',' :: (t ++ ws))) (w' ++ (s ++ ',' :: (t ++ ws')))
  | lastEntry {w w' g g' : List Char} {name : String} {v : Value}
      (h : Alike gap (.entry name v) w w') (hGap : gap g g') :
      Alike gap (.entries [(name, v)]) (w ++ g) (w' ++ g')
  | nextEntry {w w' s t ws ws' : List Char} {name : String} {v : Value}
      {fields : List (String × Value)} (h : Alike gap (.entry name v) w w') (hs : Spaces s)
      (ht : Spaces t) (hLater : Alike gap (.entries fields) ws ws') :
      Alike gap (.entries ((name, v) :: fields)) (w ++ (s ++ ',' :: (t ++ ws)))
        (w' ++ (s ++ ',' :: (t ++ ws')))

/-- The characters that a value or an entry can begin with. -/
def isOpening (c : Char) : Bool := c == '"' || c == '[' || c == '\x7b' || isAtomChar c

variable {gap : List Char → List Char → Prop} {c : Content} {w w' : List Char}

theorem exists_cons_of_atom {v : Value} (h : atom w = .ok (v, [])) :
    ∃ first rest, w = first :: rest ∧ isAtomChar first = true := by
  cases w with
  | nil => cases h
  | cons first rest => exact ⟨first, rest, rfl, (behind_atom h).all first List.mem_cons_self⟩

/-- Both texts begin with the same character. -/
theorem Alike.exists_cons (h : Alike gap c w w') :
    ∃ first rest rest', w = first :: rest ∧ w' = first :: rest' ∧ isOpening first = true := by
  induction h with
  | string => exact ⟨'"', _, _, rfl, rfl, rfl⟩
  | atom hAtom =>
      obtain ⟨first, rest, rfl, hFirst⟩ := exists_cons_of_atom hAtom
      exact ⟨first, rest, rest, rfl, rfl, by simp [isOpening, hFirst]⟩
  | emptyList => exact ⟨'[', _, _, rfl, rfl, rfl⟩
  | list => exact ⟨'[', _, _, rfl, rfl, rfl⟩
  | emptyMap => exact ⟨'\x7b', _, _, rfl, rfl, rfl⟩
  | map => exact ⟨'\x7b', _, _, rfl, rfl, rfl⟩
  | entry => exact ⟨'"', _, _, rfl, rfl, rfl⟩
  | lastItem _ _ ih =>
      obtain ⟨first, rest, rest', rfl, rfl, hFirst⟩ := ih
      exact ⟨first, _, _, rfl, rfl, hFirst⟩
  | nextItem _ _ _ _ ih =>
      obtain ⟨first, rest, rest', rfl, rfl, hFirst⟩ := ih
      exact ⟨first, _, _, rfl, rfl, hFirst⟩
  | lastEntry _ _ ih =>
      obtain ⟨first, rest, rest', rfl, rfl, hFirst⟩ := ih
      exact ⟨first, _, _, rfl, rfl, hFirst⟩
  | nextEntry _ _ _ _ ih =>
      obtain ⟨first, rest, rest', rfl, rfl, hFirst⟩ := ih
      exact ⟨first, _, _, rfl, rfl, hFirst⟩

/-- The two texts can change places. -/
theorem Alike.swap (h : Alike gap c w w') : Alike (fun g g' => gap g' g) c w' w := by
  induction h with
  | string hBody => exact .string hBody
  | atom hAtom => exact .atom hAtom
  | emptyList hs => exact .emptyList hs
  | list hs _ ih => exact .list hs ih
  | emptyMap hs => exact .emptyMap hs
  | map hs _ ih => exact .map hs ih
  | entry hName hs ht _ ih => exact .entry hName hs ht ih
  | lastItem _ hGap ih => exact .lastItem ih hGap
  | nextItem _ hs ht _ ih ihLater => exact .nextItem ih hs ht ihLater
  | lastEntry _ hGap ih => exact .lastEntry ih hGap
  | nextEntry _ hs ht _ ih ihLater => exact .nextEntry ih hs ht ihLater

/-- More gaps make more texts alike. -/
theorem Alike.mono {gap' : List Char → List Char → Prop} (hGap : ∀ g g', gap g g' → gap' g g')
    (h : Alike gap c w w') : Alike gap' c w w' := by
  induction h with
  | string hBody => exact .string hBody
  | atom hAtom => exact .atom hAtom
  | emptyList hs => exact .emptyList hs
  | list hs _ ih => exact .list hs ih
  | emptyMap hs => exact .emptyMap hs
  | map hs _ ih => exact .map hs ih
  | entry hName hs ht _ ih => exact .entry hName hs ht ih
  | lastItem _ hg ih => exact .lastItem ih (hGap _ _ hg)
  | nextItem _ hs ht _ ih ihLater => exact .nextItem ih hs ht ihLater
  | lastEntry _ hg ih => exact .lastEntry ih (hGap _ _ hg)
  | nextEntry _ hs ht _ ih ihLater => exact .nextEntry ih hs ht ihLater

/-- The characters that a value can end with. -/
def isClosing (c : Char) : Bool := c == '"' || c == ']' || c == '}' || isAtomChar c

/-- Both texts of a value end with the same character. -/
theorem Alike.exists_last {v : Value} (h : Alike gap (.value v) w w') :
    ∃ front front' last, w = front ++ [last] ∧ w' = front' ++ [last] ∧ isClosing last = true := by
  cases h with
  | string hBody =>
      obtain ⟨inside, rfl, -, -⟩ := exists_string hBody
      exact ⟨'"' :: inside, '"' :: inside, '"', by simp, by simp, rfl⟩
  | atom hAtom =>
      obtain ⟨first, rest, rfl, -⟩ := exists_cons_of_atom hAtom
      have hLast := (behind_atom hAtom).all _ (List.getLast_mem (List.cons_ne_nil first rest))
      have hText := (List.dropLast_concat_getLast (List.cons_ne_nil first rest)).symm
      exact ⟨_, _, _, hText, hText, by simp [isClosing, hLast]⟩
  | @emptyList s =>
      exact ⟨'[' :: s, '[' :: s, ']', rfl, rfl, rfl⟩
  | @list s w w' =>
      exact ⟨'[' :: (s ++ w), '[' :: (s ++ w'), ']', by simp, by simp, rfl⟩
  | @emptyMap s =>
      exact ⟨'\x7b' :: s, '\x7b' :: s, '}', rfl, rfl, rfl⟩
  | @map s w w' =>
      exact ⟨'\x7b' :: (s ++ w), '\x7b' :: (s ++ w'), '}', by simp, by simp, rfl⟩

/-- An object stands in braces. -/
theorem Alike.exists_braces {fields : Table Value} (h : Alike gap (.value (.map fields)) w w') :
    ∃ inside inside', w = '\x7b' :: (inside ++ ['}']) ∧ w' = '\x7b' :: (inside' ++ ['}']) := by
  cases h with
  | atom hAtom => cases atomic_of_atom hAtom
  | @emptyMap s => exact ⟨s, s, rfl, rfl⟩
  | @map s w w' => exact ⟨s ++ w, s ++ w', by simp, by simp⟩

/-- A list stands in brackets. -/
theorem Alike.exists_brackets {vs : List Value} (h : Alike gap (.value (.list vs)) w w') :
    ∃ inside inside', w = '[' :: (inside ++ [']']) ∧ w' = '[' :: (inside' ++ [']']) := by
  cases h with
  | atom hAtom => cases atomic_of_atom hAtom
  | @emptyList s => exact ⟨s, s, rfl, rfl⟩
  | @list s w w' => exact ⟨s ++ w, s ++ w', by simp, by simp⟩

section Blanks

theorem isOpening_of_isSpace {c : Char} (h : isSpace c = true) : isOpening c = false := by
  simp only [isSpace, Bool.or_eq_true, decide_eq_true_eq] at h
  obtain ((rfl | rfl) | rfl) | rfl := h <;> rfl

theorem isAtomChar_of_isSpace {c : Char} (h : isSpace c = true) : isAtomChar c = false := by
  simp only [isSpace, Bool.or_eq_true, decide_eq_true_eq] at h
  obtain ((rfl | rfl) | rfl) | rfl := h <;> rfl

theorem apart_spaces {s rest : List Char} (hs : Spaces s) (hRest : Apart rest) :
    Apart (s ++ rest) :=
  hRest.append fun c hMem => isAtomChar_of_isSpace (hs c hMem)

theorem isBlank_of_isAtomChar {c : Char} (h : isAtomChar c = true) : Text.isBlank c = false := by
  simp only [isAtomChar, Bool.or_eq_true, Bool.and_eq_true, decide_eq_true_eq, beq_iff_eq] at h
  simp only [Text.isBlank, Text.isWhiteSpace, Bool.or_eq_false_iff, Bool.and_eq_false_iff,
    decide_eq_false_iff_not, beq_eq_false_iff_ne]
  omega

theorem isBlank_of_isOpening {c : Char} (h : isOpening c = true) : Text.isBlank c = false := by
  simp only [isOpening, Bool.or_eq_true, beq_iff_eq] at h
  obtain ((rfl | rfl) | rfl) | hAtom := h
  · rfl
  · rfl
  · rfl
  · exact isBlank_of_isAtomChar hAtom

theorem isBlank_of_isClosing {c : Char} (h : isClosing c = true) : Text.isBlank c = false := by
  simp only [isClosing, Bool.or_eq_true, beq_iff_eq] at h
  obtain ((rfl | rfl) | rfl) | hAtom := h
  · rfl
  · rfl
  · rfl
  · exact isBlank_of_isAtomChar hAtom

theorem isBlank_of_isSpace {c : Char} (h : isSpace c = true) : Text.isBlank c = true := by
  simp only [isSpace, Bool.or_eq_true, decide_eq_true_eq] at h
  obtain ((rfl | rfl) | rfl) | rfl := h <;> rfl

theorem isAtomChar_of_isBlank {c : Char} (h : Text.isBlank c = true) : isAtomChar c = false := by
  rw [← Bool.not_eq_true]
  intro hAtom
  rw [isBlank_of_isAtomChar hAtom] at h
  cases h

/-- There are no blanks around a value. -/
theorem Alike.trim {v : Value} (h : Alike gap (.value v) w w') : Text.trim w = w := by
  obtain ⟨first, rest, -, hHead, -, hFirst⟩ := h.exists_cons
  obtain ⟨front, -, last, hEnd, -, hLast⟩ := h.exists_last
  exact Text.trim_of_ends (isBlank_of_isOpening hFirst) (isBlank_of_isClosing hLast) hHead hEnd

end Blanks

end StepFlow.Json
