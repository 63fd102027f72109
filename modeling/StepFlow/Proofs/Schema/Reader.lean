import StepFlow.Proofs.Table
import StepFlow.Schema.Reader

/-! Reading back what has been read. What a reader makes of a value can be written down as a value of
the plainest kind, and is read from that as it is: texts and lists of texts, numbers, truth values,
mappings by the texts of their names. -/
namespace StepFlow

namespace Text

/-- Characters are no surrogates. -/
theorem isSound_ofCharacters (s : String) : isSound (ofCharacters s) = true := by
  have hValid : ∀ code ∈ s.toList.map Char.toNat, code < codeLimit ∧ isSurrogate code = false := by
    intro code hMem
    obtain ⟨c, -, rfl⟩ := List.mem_map.mp hMem
    have hChar : c.toNat < 0xD800 ∨ 0xDFFF < c.toNat ∧ c.toNat < 0x110000 := c.valid
    unfold codeLimit isSurrogate
    refine ⟨by omega, ?_⟩
    rw [Bool.and_eq_false_iff, decide_eq_false_iff_not, decide_eq_false_iff_not]
    omega
  unfold isSound ofCharacters
  rw [codes_ofCodes fun code hMem => (hValid code hMem).1, List.all_eq_true]
  intro code hMem
  rw [(hValid code hMem).2]
  rfl

/-- What bytes encode is sound. -/
theorem isSound_of_ofBytes? {content : Bytes} {s : String} (h : ofBytes? content = some s) :
    isSound s = true := by
  unfold ofBytes? at h
  obtain ⟨characters, -, rfl⟩ := Option.map_eq_some_iff.mp h
  exact isSound_ofCharacters characters

end Text

namespace Schema

variable {α β : Type}

namespace Checked

theorem and_eq_ok_iff {f : Checked (α → β)} {a : Checked α} {b : β} :
    Checked.and f a = .ok b ↔ ∃ g x, f = .ok g ∧ a = .ok x ∧ g x = b := by
  cases f <;> cases a <;> simp [Checked.and]

theorem within_eq_ok_iff {place : Place} {c : Checked α} {a : α} :
    c.within place = .ok a ↔ c = .ok a := by
  cases c <;> simp [within]

theorem all_ok (xs : List α) : all (xs.map .ok) = .ok xs := by
  induction xs with
  | nil => rfl
  | cons x xs ih => rw [List.map_cons, all, ih]; rfl

/-- All items are read when each is. -/
theorem all_eq_ok {cs : List (Checked α)} {xs : List α} (h : all cs = .ok xs) :
    cs = xs.map .ok := by
  induction cs generalizing xs with
  | nil => cases h; rfl
  | cons c cs ih =>
      obtain ⟨g, rest, hHead, hRest, hAll⟩ := and_eq_ok_iff.mp h
      obtain ⟨f, x, hCons, hItem, rfl⟩ := and_eq_ok_iff.mp hHead
      cases hCons
      rw [← hAll, ih hRest, hItem]
      rfl

end Checked

section Readers

variable {reader : Reader α} {write : α → Value} {name : FieldName} {fields : Table Value}

theorem text_text (s : String) : text (.text s) = .ok s := rfl

theorem integer_int (n : Int) : integer (.int n) = .ok n := rfl

theorem boolean_bool (b : Bool) : boolean (.bool b) = .ok b := rfl

/-- What may be left out is read back when it is never written as null. -/
theorem optional_ofOption (hPresent : ∀ a, write a ≠ .null) {a : Option α}
    (h : ∀ b, a = some b → reader (write b) = .ok b) :
    optional reader (Value.ofOption write a) = .ok a := by
  cases a with
  | none => rfl
  | some b =>
      unfold Value.ofOption optional
      split
      · rename_i hNull
        exact absurd hNull (hPresent b)
      · rw [h b rfl]
        rfl

/-- A list is read back when all its items are. -/
theorem list_map {xs : List α} (h : ∀ x ∈ xs, reader (write x) = .ok x) :
    list reader (.list (xs.map write)) = .ok xs := by
  have hItems : ((xs.map write).mapIdx fun position v => (reader v).within (.index position)) =
      xs.map .ok := by
    refine List.ext_getElem (by simp) fun position hBound _ => ?_
    rw [List.length_mapIdx, List.length_map] at hBound
    rw [List.getElem_mapIdx, List.getElem_map, List.getElem_map, h _ (List.getElem_mem hBound)]
    rfl
  unfold list
  simp only [hItems, Checked.all_ok]

/-- A table is read back from the mapping that it is written as. -/
theorem mapping_map {t : Table α} (h : ∀ a ∈ t.values, reader (write a) = .ok a) :
    mapping reader (.map (t.map fun named => (named.1, write named.2))) = .ok t := by
  have hEntries : (t.map fun named => (named.1, write named.2)).map
      (fun named => entry reader (.text named.1) named.2) = t.map .ok := by
    rw [List.map_map]
    refine List.map_congr_left fun named hMem => ?_
    change entry reader (.text named.1) (write named.2) = .ok named
    rw [entry, h named.2 (List.mem_map_of_mem hMem)]
    rfl
  have hMapping (entries : Table Value) : mapping reader (.map entries) =
      Checked.all (entries.map fun named => entry reader (.text named.1) named.2) := rfl
  rw [hMapping, hEntries, Checked.all_ok]

theorem list_texts (xs : List String) : list text (.list (xs.map .text)) = .ok xs :=
  list_map fun _ _ => rfl

theorem optional_text (s : Option String) : optional text (Value.ofOption .text s) = .ok s :=
  optional_ofOption nofun fun _ _ => rfl

/-- A mapping whose values are taken as they are is read from itself. -/
theorem mapping_anything (t : Table Value) : mapping anything (.map t) = .ok t := by
  have hTable : mapping anything (.map (t.map fun named => (named.1, id named.2))) = .ok t :=
    mapping_map fun _ _ => rfl
  rwa [show (t.map fun named => (named.1, id named.2)) = t from List.map_id t] at hTable

/-- What is spelled is of characters alone. -/
theorem isSound_of_spelling? {flaw : Flaw} {v : Value} {s : String}
    (h : spelling? flaw v = some (.ok s)) : Text.isSound s = true := by
  unfold spelling? at h
  split at h
  · rename_i t
    split at h
    · rename_i hSound
      cases h
      exact hSound
    · cases h
  · rename_i content
    cases hText : Text.ofBytes? content with
    | none =>
        rw [hText] at h
        cases h
    | some t =>
        rw [hText] at h
        cases h
        exact Text.isSound_of_ofBytes? hText
  · cases h

theorem someText_text {s : String} (hSound : Text.isSound s = true) (hSome : s.isEmpty = false) :
    someText (.text s) = .ok s := by
  unfold someText spelling?
  simp only [hSound, if_true, Option.getD_some]
  change (if s.isEmpty = true then _ else _) = _
  rw [if_neg (by rw [hSome]; decide)]
  rfl

/-- Where some text is wanted, it is of characters alone and not empty. -/
theorem someText_eq_ok {v : Value} {s : String} (h : someText v = .ok s) :
    Text.isSound s = true ∧ s.isEmpty = false := by
  unfold someText at h
  cases hSpelled : (spelling? .unsoundText v).getD (.fail .textExpected) with
  | error problems =>
      rw [hSpelled] at h
      cases h
  | ok t =>
      rw [hSpelled] at h
      change (if t.isEmpty = true then _ else _) = _ at h
      split at h
      · cases h
      · rename_i hSome
        cases h
        refine ⟨?_, Bool.eq_false_iff.mpr hSome⟩
        cases hGiven : spelling? .unsoundText v with
        | none =>
            rw [hGiven] at hSpelled
            cases hSpelled
        | some spelled =>
            rw [hGiven, Option.getD_some] at hSpelled
            exact isSound_of_spelling? (hSpelled ▸ hGiven)

theorem choice_eq_ok {options : List String} {v : Value} {s : String}
    (h : choice options v = .ok s) : s ∈ options := by
  unfold choice at h
  split at h
  · split at h
    · rename_i hMem
      cases h
      exact List.contains_iff_mem.mp hMem
    · split at h <;> cases h
  · cases h

theorem choice_text {options : List String} {s : String} (h : s ∈ options) :
    choice options (.text s) = .ok s := by
  exact if_pos (List.contains_iff_mem.mpr h)

theorem integerFrom_eq_ok {minimum n : Int} {v : Value} (h : integerFrom minimum v = .ok n) :
    minimum ≤ n := by
  unfold integerFrom at h
  split at h
  · split at h
    · rename_i hLeast
      cases h
      exact hLeast
    · cases h
  · cases h

theorem integerFrom_int {minimum n : Int} (h : minimum ≤ n) :
    integerFrom minimum (.int n) = .ok n := if_pos h

theorem required_of_given {v : Value} {a : α} (hGiven : ∃ k, given? fields name = some (k, v))
    (h : reader v = .ok a) : required reader name fields = .ok a := by
  obtain ⟨k, hGiven⟩ := hGiven
  unfold required
  rw [hGiven]
  exact Checked.within_eq_ok_iff.mpr h

theorem defaulted_of_given {fallback : α} {v : Value} {a : α}
    (hGiven : ∃ k, given? fields name = some (k, v)) (h : reader v = .ok a) :
    defaulted reader name fallback fields = .ok a := by
  obtain ⟨k, hGiven⟩ := hGiven
  unfold defaulted
  rw [hGiven]
  exact Checked.within_eq_ok_iff.mpr h

/-- A required field is read from what is given for it. -/
theorem required_eq_ok {a : α} (h : required reader name fields = .ok a) :
    ∃ k v, given? fields name = some (k, v) ∧ reader v = .ok a := by
  unfold required at h
  split at h
  · rename_i k v hGiven
    exact ⟨k, v, hGiven, Checked.within_eq_ok_iff.mp h⟩
  · cases h

/-- A field with a default is read from what is given for it, or is the default. -/
theorem defaulted_eq_ok {fallback a : α} (h : defaulted reader name fallback fields = .ok a) :
    (∃ k v, given? fields name = some (k, v) ∧ reader v = .ok a) ∨ a = fallback := by
  unfold defaulted at h
  split at h
  · rename_i k v hGiven
    exact .inl ⟨k, v, hGiven, Checked.within_eq_ok_iff.mp h⟩
  · exact .inr (Except.ok.inj h).symm

/-- The items of a list are read one by one. -/
theorem list_eq_ok {v : Value} {xs : List α} (h : list reader v = .ok xs) :
    ∃ items, (v = .list items ∨ v = .set items) ∧ ∀ x ∈ xs, ∃ item ∈ items, reader item = .ok x := by
  have hItems : ∀ items : List Value,
      Checked.all (items.mapIdx fun position v => (reader v).within (.index position)) = .ok xs →
        ∀ x ∈ xs, ∃ item ∈ items, reader item = .ok x := by
    intro items hAll x hMem
    obtain ⟨position, hBound, rfl⟩ := List.getElem_of_mem hMem
    have hSame := Checked.all_eq_ok hAll
    have hLength : items.length = xs.length := by
      have hLengths := congrArg List.length hSame
      rwa [List.length_mapIdx, List.length_map] at hLengths
    have hItem : (items.mapIdx fun position v => (reader v).within (.index position))[position]? =
        some (.ok xs[position]) := by
      rw [hSame, List.getElem?_map, List.getElem?_eq_getElem hBound]
      rfl
    rw [List.getElem?_mapIdx, List.getElem?_eq_getElem (hLength ▸ hBound)] at hItem
    exact ⟨_, List.getElem_mem _, Checked.within_eq_ok_iff.mp (Option.some.inj hItem)⟩
  unfold list at h
  split at h
  · exact ⟨_, .inl rfl, hItems _ h⟩
  · exact ⟨_, .inr rfl, hItems _ h⟩
  · cases h

theorem model_eq_ok {reader : Table Value → Checked α} {v : Value} {a : α}
    (h : model reader v = .ok a) : ∃ fields, v.fields? = some fields ∧ reader fields = .ok a := by
  unfold model at h
  split at h
  · rename_i fields hFields
    exact ⟨fields, hFields, h⟩
  · cases h

theorem given?_mem {k : String} {v : Value} (h : given? fields name = some (k, v)) :
    (k, v) ∈ fields := by
  unfold given? at h
  split at h
  · rename_i w hStored
    cases h
    exact Table.mem_of_get? hStored
  · simp only [Option.map_eq_some_iff, Prod.mk.injEq] at h
    obtain ⟨w, hPlain, rfl, rfl⟩ := h
    exact Table.mem_of_get? hPlain

end Readers

section Leftovers

variable {known : List String} {v : Value} {extra : Table Value}

/-- Fields that can stand beside known ones: under names of their own, each once, that are of
characters alone. -/
structure Beside (known : List String) (extra : Table Value) : Prop where
  once : extra.keys.Nodup
  unknown : ∀ name ∈ extra.keys, name ∉ known
  sound : ∀ name ∈ extra.keys, Text.isSound name = true

/-- A name in a mapping is a text or one that bytes encode. -/
theorem text_eq_ok {k : Value} {name : String} (h : text k = .ok name) :
    k = .text name ∨ ∃ content, k = .bytes content ∧ Text.ofBytes? content = some name := by
  unfold text at h
  split at h
  · cases h
    exact .inl rfl
  · rename_i content
    cases hText : Text.ofBytes? content with
    | none =>
        rw [hText] at h
        cases h
    | some t =>
        rw [hText] at h
        cases h
        exact .inr ⟨content, rfl, hText⟩
  · cases h

theorem mem_textEntries {entries : List (Value × Value)} {name : String} {v : Value}
    (h : (.text name, v) ∈ entries) : (name, v) ∈ Value.textEntries entries :=
  List.mem_filterMap.mpr ⟨(.text name, v), h, rfl⟩

/-- A mapping gives a name in bytes, and not as a text. -/
def InBytes (v : Value) (name : String) : Prop :=
  ∃ entries content w, v = .keyed entries ∧ (.bytes content, w) ∈ entries ∧
    Text.ofBytes? content = some name ∧ name ∉ (Value.textEntries entries).keys

/-- What is left over has each name once. -/
theorem once_of_leftover (hOnce : ∀ fields, v = .map fields → (Table.keys fields).Nodup)
    (h : leftover known v = .ok extra) : extra.keys.Nodup := by
  cases v with
  | map fields =>
      cases h
      exact (hOnce fields rfl).sublist (List.filter_sublist.map Prod.fst)
  | keyed entries =>
      unfold leftover at h
      simp only [Except.map] at h
      split at h
      · cases h
      · cases h
        have hEmpty : (Table.keys ([] : Table Value)).Nodup := List.nodup_nil
        exact Table.nodup_keys_merge hEmpty _
  | _ =>
      cases h
      exact List.nodup_nil

/-- Every name that is left over of a mapping with some name that is no text is of characters alone,
and none is known but such as are given in bytes. -/
theorem mem_leftover_keyed {entries : List (Value × Value)} {name : String}
    (hSound : hasSoundNames (.keyed entries) = true) (h : leftover known (.keyed entries) = .ok extra)
    (hMem : name ∈ extra.keys) :
    Text.isSound name = true ∧ (name ∈ known → InBytes (.keyed entries) name) := by
  unfold leftover at h
  simp only [Except.map] at h
  split at h
  · cases h
  rename_i kept hKept
  cases h
  have hEntries := Checked.all_eq_ok hKept
  have hListed : name ∈ Table.keys (kept.filterMap id) := by
    rcases Table.mem_keys_merge.mp hMem with hNone | hListed
    · cases hNone
    · exact hListed
  obtain ⟨⟨name, v⟩, hEntry, rfl⟩ := List.mem_map.mp hListed
  obtain ⟨found, hFound, rfl⟩ := List.mem_filterMap.mp hEntry
  have hRead : (.ok (some (name, v)) : Checked (Option (String × Value))) ∈ kept.map .ok :=
    List.mem_map_of_mem hFound
  rw [← hEntries] at hRead
  obtain ⟨⟨k, w⟩, hMem, hName⟩ := List.mem_map.mp hRead
  cases hText : text k with
  | error problems =>
      rw [hText] at hName
      cases hName
  | ok spelled =>
      rw [hText] at hName
      simp only [Except.ok.injEq] at hName
      split at hName
      · cases hName
      rename_i hNot
      cases hName
      have hGiven : name ∈ known → name ∉ (Value.textEntries entries).keys := by
        intro hKnown hOther
        apply hNot
        rw [List.contains_iff_mem, List.mem_filter, Table.contains_iff_mem_keys]
        exact ⟨hKnown, hOther⟩
      rcases text_eq_ok hText with rfl | ⟨content, rfl, hContent⟩
      · have hText := mem_textEntries hMem
        exact ⟨List.all_eq_true.mp hSound (name, v) hText,
          fun hKnown => absurd (List.mem_map_of_mem hText) (hGiven hKnown)⟩
      · exact ⟨Text.isSound_of_ofBytes? hContent,
          fun hKnown => ⟨entries, content, v, rfl, hMem, hContent, hGiven hKnown⟩⟩

/-- The same for what is left over of any data. -/
theorem mem_leftover {name : String} (hSound : hasSoundNames v = true)
    (h : leftover known v = .ok extra) (hMem : name ∈ extra.keys) :
    Text.isSound name = true ∧ (name ∈ known → InBytes v name) := by
  cases v with
  | map fields =>
      cases h
      obtain ⟨entry, hEntry, rfl⟩ := List.mem_map.mp hMem
      obtain ⟨hField, hUnknown⟩ := List.mem_filter.mp hEntry
      refine ⟨List.all_eq_true.mp hSound entry hField, fun hKnown => ?_⟩
      rw [List.contains_iff_mem.mpr hKnown] at hUnknown
      cases hUnknown
  | keyed entries => exact mem_leftover_keyed hSound h hMem
  | _ =>
      cases h
      cases hMem

/-- Behind known fields, what can stand beside them is what is left over. -/
theorem leftover_append {base : Table Value} (hBase : ∀ name ∈ base.keys, name ∈ known)
    (h : Beside known extra) : leftover known (.map (base ++ extra)) = .ok extra := by
  have hNone : base.filter (fun entry => !known.contains entry.1) = [] := by
    rw [List.filter_eq_nil_iff]
    intro entry hMem
    simp [hBase entry.1 (List.mem_map_of_mem hMem)]
  have hAll : extra.filter (fun entry => !known.contains entry.1) = extra := by
    rw [List.filter_eq_self]
    intro entry hMem
    simp [h.unknown entry.1 (List.mem_map_of_mem hMem)]
  unfold leftover
  simp only [List.filter_append, hNone, hAll, List.nil_append]

end Leftovers

end Schema

end StepFlow
