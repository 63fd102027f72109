import StepFlow.Proofs.Json.Lexeme
import StepFlow.Json.Reader

/-! What readers give. Each has an equation without the bound on what it leaves of the text, and a
property that all ways of reading keep is true of all that is read: `Rules.of_parseChars`. -/
namespace StepFlow.Json

section Pairs

variable {α : Type}

/-- What is read and what is left, without the bound on what is left. -/
def Reading.pair {cs : List Char} (reading : Reading α cs) : Except Failure (α × List Char) :=
  reading.map Subtype.val

theorem pair_of_eq {cs rest : List Char} {reading : Reading α cs} {a : α} {hShorter}
    (h : reading = .ok ⟨(a, rest), hShorter⟩) : reading.pair = .ok (a, rest) := by
  rw [h]
  rfl

/-- What a reader gives, and what it leaves of the text. -/
abbrev Reads (reader : (cs : List Char) → Reading α cs) (cs : List Char) (a : α)
    (rest : List Char) : Prop :=
  (reader cs).pair = .ok (a, rest)

theorem exists_of_reads {reader : (cs : List Char) → Reading α cs} {cs rest : List Char} {a : α}
    (h : Reads reader cs a rest) : ∃ hShorter, reader cs = .ok ⟨(a, rest), hShorter⟩ := by
  unfold Reads Reading.pair at h
  cases hRead : reader cs with
  | error e =>
      rw [hRead] at h
      cases h
  | ok out =>
      rw [hRead] at h
      obtain ⟨⟨_, _⟩, hShorter⟩ := out
      cases h
      exact ⟨hShorter, rfl⟩

theorem pair_readAtom (cs : List Char) : (readAtom cs).pair = atom cs := by
  unfold readAtom
  split
  · rename_i h
    exact h.symm
  · rename_i h
    exact h.symm

theorem pair_readName_quote (tail : List Char) : (readName ('"' :: tail)).pair =
    match stringBody? tail with
    | none => .error .malformed
    | some (name, after) =>
      match skipSpace after with
      | ':' :: last => .ok (String.ofList name, skipSpace last)
      | _ => .error .malformed := by
  unfold readName
  simp only
  split
  · rename_i h
    simp only [h]
    rfl
  · rename_i name after h
    simp only [h]
    split
    · rename_i last hColon
      simp only [hColon]
      rfl
    · rename_i hOther
      split
      · rename_i last hColon
        exact (hOther _ hColon).elim
      · rfl

theorem pair_readValue_quote (tail : List Char) : (readValue ('"' :: tail)).pair =
    match stringBody? tail with
    | none => .error .malformed
    | some (body, after) => .ok (.text (String.ofList body), after) := by
  rw [readValue.eq_def]
  simp only
  split
  · rename_i h
    simp only [h]
    rfl
  · rename_i h
    simp only [h]
    rfl

section Brackets

variable {tail : List Char}

theorem pair_readValue_emptyList {after : List Char} (h : skipSpace tail = ']' :: after) :
    (readValue ('[' :: tail)).pair = .ok (.list [], after) := by
  rw [readValue.eq_def]
  simp only
  split
  · rename_i hEnd
    cases h.symm.trans hEnd
    rfl
  · rename_i hOpen
    exact (hOpen _ h).elim

theorem pair_readValue_list (hOpen : ∀ after, skipSpace tail ≠ ']' :: after) :
    (readValue ('[' :: tail)).pair =
      (readItems (skipSpace tail)).pair.map fun (vs, after) => (.list vs, after) := by
  rw [readValue.eq_def]
  simp only
  split
  · rename_i hFailed
    rw [hFailed]
    rfl
  · rename_i hRead
    rw [hRead]
    rfl

theorem pair_readValue_emptyMap {after : List Char} (h : skipSpace tail = '}' :: after) :
    (readValue ('\x7b' :: tail)).pair = .ok (.map [], after) := by
  rw [readValue.eq_def]
  simp only
  split
  · rename_i hEnd
    cases h.symm.trans hEnd
    rfl
  · rename_i hOpen
    exact (hOpen _ h).elim

theorem pair_readValue_map (hOpen : ∀ after, skipSpace tail ≠ '}' :: after) :
    (readValue ('\x7b' :: tail)).pair =
      (readEntries (skipSpace tail)).pair.map fun (fields, after) =>
        (.map (Table.ofList fields), after) := by
  rw [readValue.eq_def]
  simp only
  split
  · rename_i hFailed
    rw [hFailed]
    rfl
  · rename_i hRead
    rw [hRead]
    rfl

end Brackets

/-- What begins with neither a quote nor a bracket is read as a number or a word. -/
theorem pair_readValue_other {cs : List Char}
    (hFirst : ∀ c, cs.head? = some c → c ≠ '"' ∧ c ≠ '[' ∧ c ≠ '\x7b') :
    (readValue cs).pair = atom cs := by
  rw [readValue.eq_def]
  split
  · exact ((hFirst _ rfl).1 rfl).elim
  · exact ((hFirst _ rfl).2.1 rfl).elim
  · exact ((hFirst _ rfl).2.2 rfl).elim
  · exact pair_readAtom cs

theorem pair_readValue_atom {c : Char} (hFirst : isAtomChar c = true) (cs : List Char) :
    (readValue (c :: cs)).pair = atom (c :: cs) := by
  have hOther : ∀ d, isAtomChar d = false → c ≠ d := by
    rintro _ hNone rfl
    cases hFirst.symm.trans hNone
  refine pair_readValue_other ?_
  rintro _ ⟨⟩
  exact ⟨hOther '"' rfl, hOther '[' rfl, hOther '\x7b' rfl⟩

theorem pair_readItems (cs : List Char) : (readItems cs).pair =
    match (readValue cs).pair with
    | .error e => .error e
    | .ok (v, rest) =>
      match skipSpace rest with
      | ']' :: after => .ok ([v], after)
      | ',' :: more => (readItems (skipSpace more)).pair.map fun (vs, after) => (v :: vs, after)
      | _ => .error .malformed := by
  rw [readItems.eq_def]
  split
  · rename_i h
    simp only [h]
    rfl
  · rename_i v rest hShorter h
    have hPair : (readValue cs).pair = .ok (v, rest) := pair_of_eq h
    simp only [hPair]
    split
    · rename_i hEnd
      simp only [hEnd]
      rfl
    · rename_i more hComma
      simp only [hComma]
      cases readItems (skipSpace more) <;> rfl
    · rename_i hEnd hComma
      split
      · rename_i h
        exact (hEnd _ h).elim
      · rename_i h
        exact (hComma _ h).elim
      · rfl

theorem pair_readEntries (cs : List Char) : (readEntries cs).pair =
    match (readName cs).pair with
    | .error e => .error e
    | .ok (name, start) =>
      match (readValue start).pair with
      | .error e => .error e
      | .ok (v, rest) =>
        match skipSpace rest with
        | '}' :: after => .ok ([(name, v)], after)
        | ',' :: more =>
          (readEntries (skipSpace more)).pair.map fun (fields, after) => ((name, v) :: fields, after)
        | _ => .error .malformed := by
  rw [readEntries.eq_def]
  split
  · rename_i h
    simp only [h]
    rfl
  · rename_i name start hStart hName
    have hNamePair : (readName cs).pair = .ok (name, start) := pair_of_eq hName
    simp only [hNamePair]
    split
    · rename_i h
      simp only [h]
      rfl
    · rename_i v rest hShorter h
      have hPair : (readValue start).pair = .ok (v, rest) := pair_of_eq h
      simp only [hPair]
      split
      · rename_i hEnd
        simp only [hEnd]
        rfl
      · rename_i more hComma
        simp only [hComma]
        cases readEntries (skipSpace more) <;> rfl
      · rename_i hEnd hComma
        split
        · rename_i h
          exact (hEnd _ h).elim
        · rename_i h
          exact (hComma _ h).elim
        · rfl

section Continued

variable {cs start rest more : List Char} {v : Value} {name : String}
  (hValue : Reads readValue start v rest)
include hValue

theorem pair_readItems_last {after : List Char} (hEnd : skipSpace rest = ']' :: after) :
    (readItems start).pair = .ok ([v], after) := by
  rw [pair_readItems, hValue]
  simp only [hEnd]

theorem pair_readItems_next (hComma : skipSpace rest = ',' :: more) :
    (readItems start).pair =
      (readItems (skipSpace more)).pair.map fun (vs, after) => (v :: vs, after) := by
  rw [pair_readItems, hValue]
  simp only [hComma]

theorem pair_readEntries_last {after : List Char} (hName : Reads readName cs name start)
    (hEnd : skipSpace rest = '}' :: after) : (readEntries cs).pair = .ok ([(name, v)], after) := by
  rw [pair_readEntries, hName]
  simp only [hValue, hEnd]

theorem pair_readEntries_next (hName : Reads readName cs name start)
    (hComma : skipSpace rest = ',' :: more) :
    (readEntries cs).pair =
      (readEntries (skipSpace more)).pair.map fun (fields, after) => ((name, v) :: fields, after) := by
  rw [pair_readEntries, hName]
  simp only [hValue, hComma]

end Continued

theorem parseChars_eq (cs : List Char) : parseChars cs =
    match (readValue (skipSpace cs)).pair with
    | .error e => .error e
    | .ok (v, rest) => if (skipSpace rest).isEmpty then .ok v else .error .malformed := by
  unfold parseChars
  cases readValue (skipSpace cs) <;> rfl

end Pairs

section Rules

/-- Properties of what is read of a list and of what is left of it, one of values, one of items and
one of entries, that are kept by all ways in which these are read. -/
structure Rules (value : List Char → Value → List Char → Prop)
    (items : List Char → List Value → List Char → Prop)
    (entries : List Char → List (String × Value) → List Char → Prop) : Prop where
  string : ∀ {tail body after}, stringBody? tail = some (body, after) →
    value ('"' :: tail) (.text (String.ofList body)) after
  emptyList : ∀ {tail after}, skipSpace tail = ']' :: after → value ('[' :: tail) (.list []) after
  list : ∀ {tail vs after}, items (skipSpace tail) vs after → value ('[' :: tail) (.list vs) after
  emptyMap : ∀ {tail after}, skipSpace tail = '}' :: after → value ('\x7b' :: tail) (.map []) after
  map : ∀ {tail fields after}, entries (skipSpace tail) fields after →
    value ('\x7b' :: tail) (.map (Table.ofList fields)) after
  atom : ∀ {cs v rest}, Json.atom cs = .ok (v, rest) → value cs v rest
  lastItem : ∀ {cs v rest after}, value cs v rest → skipSpace rest = ']' :: after →
    items cs [v] after
  nextItem : ∀ {cs v rest more vs after}, value cs v rest → skipSpace rest = ',' :: more →
    items (skipSpace more) vs after → items cs (v :: vs) after
  lastEntry : ∀ {cs name start v rest after}, Reads readName cs name start → value start v rest →
    skipSpace rest = '}' :: after → entries cs [(name, v)] after
  nextEntry : ∀ {cs name start v rest more fields after}, Reads readName cs name start →
    value start v rest → skipSpace rest = ',' :: more → entries (skipSpace more) fields after →
    entries cs ((name, v) :: fields) after

/-- What a reader gives and leaves has a property. -/
def Gives {α : Type} (good : List Char → α → List Char → Prop)
    (reader : (cs : List Char) → Reading α cs) (cs : List Char) : Prop :=
  ∀ out, reader cs = .ok out → good cs out.1.1 out.1.2

theorem skipSpace_lt {cs more : List Char} {c : Char} (h : skipSpace cs = c :: more) :
    (skipSpace more).length < cs.length := by
  have hSpace := skipSpace_length cs
  rw [h] at hSpace
  exact Nat.lt_of_le_of_lt (skipSpace_length more) hSpace

/-- The readers call each other on shorter texts, and a list of items begins with a value. -/
theorem readers_induction {value items entries : List Char → Prop}
    (hValue : ∀ cs : List Char, (∀ later : List Char, later.length < cs.length → items later) →
      (∀ later : List Char, later.length < cs.length → entries later) → value cs)
    (hItems : ∀ cs : List Char, value cs →
      (∀ later : List Char, later.length < cs.length → items later) → items cs)
    (hEntries : ∀ cs : List Char, (∀ later : List Char, later.length < cs.length → value later) →
      (∀ later : List Char, later.length < cs.length → entries later) → entries cs)
    (cs : List Char) : value cs ∧ items cs ∧ entries cs := by
  induction hn : cs.length using Nat.strongRecOn generalizing cs with
  | _ n ih =>
    subst hn
    have hFirst : value cs := hValue cs (fun later hShorter => (ih _ hShorter later rfl).2.1)
      fun later hShorter => (ih _ hShorter later rfl).2.2
    refine ⟨hFirst, ?_, ?_⟩
    · exact hItems cs hFirst fun later hShorter => (ih _ hShorter later rfl).2.1
    · exact hEntries cs (fun later hShorter => (ih _ hShorter later rfl).1)
        fun later hShorter => (ih _ hShorter later rfl).2.2

namespace Rules

variable {value : List Char → Value → List Char → Prop}
  {items : List Char → List Value → List Char → Prop}
  {entries : List Char → List (String × Value) → List Char → Prop}
  (rules : Rules value items entries) {cs : List Char}
include rules

theorem gives_value
    (hItems : ∀ later : List Char, later.length < cs.length → Gives items readItems later)
    (hEntries : ∀ later : List Char, later.length < cs.length → Gives entries readEntries later) :
    Gives value readValue cs := by
  intro out h
  rw [readValue.eq_def] at h
  split at h
  · split at h
    · cases h
    · rename_i hBody
      cases h
      exact rules.string hBody
  · rename_i tail
    have hStart : (skipSpace tail).length < ('[' :: tail).length :=
      Nat.lt_succ_of_le (skipSpace_length tail)
    split at h
    · rename_i hEnd
      cases h
      exact rules.emptyList hEnd
    · split at h
      · cases h
      · rename_i hRead
        cases h
        exact rules.list (hItems _ hStart _ hRead)
  · rename_i tail
    have hStart : (skipSpace tail).length < ('\x7b' :: tail).length :=
      Nat.lt_succ_of_le (skipSpace_length tail)
    split at h
    · rename_i hEnd
      cases h
      exact rules.emptyMap hEnd
    · split at h
      · cases h
      · rename_i hRead
        cases h
        exact rules.map (hEntries _ hStart _ hRead)
  · unfold readAtom at h
    split at h
    · cases h
    · rename_i hAtom
      cases h
      exact rules.atom hAtom

theorem gives_items (hValue : Gives value readValue cs)
    (hItems : ∀ later : List Char, later.length < cs.length → Gives items readItems later) :
    Gives items readItems cs := by
  intro out h
  rw [readItems.eq_def] at h
  split at h
  · cases h
  · rename_i v rest hShorter hRead
    have hFirst : value cs v rest := hValue _ hRead
    split at h
    · rename_i hEnd
      cases h
      exact rules.lastItem hFirst hEnd
    · rename_i more hComma
      split at h
      · cases h
      · rename_i hLater
        cases h
        have hNext := Nat.lt_trans (skipSpace_lt hComma) hShorter
        exact rules.nextItem hFirst hComma (hItems _ hNext _ hLater)
    · cases h

theorem gives_entries
    (hValue : ∀ later : List Char, later.length < cs.length → Gives value readValue later)
    (hEntries : ∀ later : List Char, later.length < cs.length → Gives entries readEntries later) :
    Gives entries readEntries cs := by
  intro out h
  rw [readEntries.eq_def] at h
  split at h
  · cases h
  · rename_i name start hStart hRead
    have hName : Reads readName cs name start := pair_of_eq hRead
    split at h
    · cases h
    · rename_i v rest hShorter hRead
      have hFirst : value start v rest := hValue start hStart _ hRead
      split at h
      · rename_i hEnd
        cases h
        exact rules.lastEntry hName hFirst hEnd
      · rename_i more hComma
        split at h
        · cases h
        · rename_i hLater
          cases h
          have hNext := Nat.lt_trans (skipSpace_lt hComma) (Nat.lt_trans hShorter hStart)
          exact rules.nextEntry hName hFirst hComma (hEntries _ hNext _ hLater)
      · cases h

/-- What all ways of reading keep is true of all that is read. -/
theorem gives (cs : List Char) :
    Gives value readValue cs ∧ Gives items readItems cs ∧ Gives entries readEntries cs :=
  readers_induction (fun _ => rules.gives_value) (fun _ => rules.gives_items)
    (fun _ => rules.gives_entries) cs

/-- What is read of a value has the property. -/
theorem of_reads {v : Value} {rest : List Char} (h : Reads readValue cs v rest) :
    value cs v rest := by
  obtain ⟨hShorter, hRead⟩ := exists_of_reads h
  exact (rules.gives cs).1 _ hRead

/-- The value of a document has the property, with nothing but blanks left behind it. -/
theorem of_parseChars {v : Value} (h : parseChars cs = .ok v) :
    ∃ rest, value (skipSpace cs) v rest ∧ skipSpace rest = [] := by
  unfold parseChars at h
  split at h
  · cases h
  · rename_i w rest hShorter hRead
    split at h
    · rename_i hEmpty
      cases h
      exact ⟨rest, (rules.gives (skipSpace cs)).1 _ hRead, List.isEmpty_iff.mp hEmpty⟩
    · cases h

end Rules

end Rules

section Documents

variable {cs : List Char}

theorem parseChars_of_pair {v : Value} (h : (readValue (skipSpace cs)).pair = .ok (v, [])) :
    parseChars cs = .ok v := by
  rw [parseChars_eq, h]
  rfl

theorem parseChars_of_failure {e : Failure} (h : (readValue (skipSpace cs)).pair = .error e) :
    parseChars cs = .error e := by
  rw [parseChars_eq, h]

theorem parseChars_nil : parseChars [] = .error .malformed := by
  refine parseChars_of_failure ?_
  change (readValue []).pair = _
  rw [pair_readValue_other (by rintro _ ⟨⟩)]
  rfl

/-- A string and nothing else is a document. -/
theorem parseChars_quoted {rest body : List Char} (h : stringBody? rest = some (body, [])) :
    parseChars ('"' :: rest) = .ok (.text (String.ofList body)) := by
  refine parseChars_of_pair ?_
  change (readValue ('"' :: rest)).pair = _
  rw [pair_readValue_quote, h]

theorem parseChars_unclosed {rest : List Char} (h : stringBody? rest = none) :
    parseChars ('"' :: rest) = .error .malformed := by
  refine parseChars_of_failure ?_
  change (readValue ('"' :: rest)).pair = _
  rw [pair_readValue_quote, h]

end Documents

end StepFlow.Json
