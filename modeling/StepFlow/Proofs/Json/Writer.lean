import StepFlow.Proofs.Json.Reply
import StepFlow.Proofs.Table
import StepFlow.Proofs.Text.Code
import StepFlow.Proofs.Text.Decimal
import StepFlow.Value.Interpolated

/-! Data as it is written. The compact text of a value is a way to spell it: each code of a string is
read back from its escape or from the characters that it is written with, an integer from its digits,
and lists and mappings from what they hold. So what a template shows of a list or a mapping is a
document of it: `interpolated_read_back`. -/
namespace StepFlow.Json

/-- Data as documents hold it, doubles aside. A text is of any codes, integers have no more digits than
may be written, and a mapping has each of its names once. -/
inductive Data : Value → Prop where
  | null : Data .null
  | bool (b : Bool) : Data (.bool b)
  | int {n : Int} (hCount : (Value.int n).isWritable = true) : Data (.int n)
  | text {s : String} (hCoded : Text.Coded s) : Data (.text s)
  | list {items : List Value} (h : ∀ v ∈ items, Data v) : Data (.list items)
  | map {fields : Table Value} (hOnce : fields.keys.Nodup)
      (hNames : ∀ name ∈ fields.keys, Text.Coded name) (h : ∀ entry ∈ fields, Data entry.2) :
      Data (.map fields)

section Strings

/-- A unit that is no surrogate is read back from its escape. -/
theorem escape?_unit {unit : Nat} (hPlain : unit < 0xD800) (rest : List Char) :
    escape? ('u' :: (Text.hexDigits 4 unit ++ rest)) = some (unit, rest) := by
  have hUnit : unit? (Text.hexDigits 4 unit ++ rest) = some (unit, rest) := by
    change (Text.hexValueOf? (Text.hexDigits 4 unit)).map (·, rest) = _
    rw [Text.hexValueOf?_hexDigits, Nat.mod_eq_of_lt (by omega)]
    rfl
  have hAlone : ¬ (0xD800 ≤ unit && unit < 0xDC00) = true := by simp; omega
  rw [escape?, if_pos rfl, hUnit]
  exact congrArg some (if_neg hAlone)

/-- Characters that need no escape are read as they are. -/
theorem stringBody?_bare {front : List Char}
    (hBare : ∀ c ∈ front, c ≠ '"' ∧ c ≠ '\\' ∧ 0x20 ≤ c.toNat) (rest : List Char) :
    stringBody? (front ++ rest) = (stringBody? rest).map fun (body, last) => (front ++ body, last) := by
  induction front with
  | nil => simp
  | cons c front ih =>
      obtain ⟨⟨hQuote, hEscape, hBound⟩, hLater⟩ := List.forall_mem_cons.mp hBare
      rw [List.cons_append, stringBody?_plain hQuote hEscape hBound, ih hLater, Option.map_map]
      rfl

/-- Each code of a string is read back from what is written for it. -/
theorem stringBody?_code {code : Nat} (hBound : code < Text.codeLimit) (rest : List Char) :
    stringBody? (stringCode false code ++ rest) =
      (stringBody? rest).map fun (body, last) => (Text.ofCode code ++ body, last) := by
  unfold stringCode
  -- the codes that have an escape of one letter
  iterate 7
    split
    · subst code
      exact stringBody?_escape rfl
  -- another control character is a unit of its own, and all else stands as it is
  split
  · rename_i hControl
    rw [codeEscape, if_pos (by omega)]
    exact stringBody?_escape (escape?_unit (by omega) rest)
  · rename_i hQuote hEscape _ _ _ _ _ hControl
    rw [Bool.false_and, if_neg (by simp)]
    refine stringBody?_bare (fun c hMem => ?_) rest
    have hBlock : Text.blockStart = 0x10F800 := rfl
    rcases Text.toNat_of_mem_ofCode hBound hMem with hSame | hHalf
    · exact ⟨fun h => hQuote (hSame ▸ h ▸ rfl), fun h => hEscape (hSame ▸ h ▸ rfl), by omega⟩
    · refine ⟨?_, ?_, by omega⟩
      · rintro rfl
        exact absurd hHalf (by decide)
      · rintro rfl
        exact absurd hHalf (by decide)

theorem stringBody?_codes {codes : List Nat} (hBound : ∀ code ∈ codes, code < Text.codeLimit)
    (rest : List Char) :
    stringBody? (codes.flatMap (stringCode false) ++ '"' :: rest) =
      some (codes.flatMap Text.ofCode, rest) := by
  induction codes with
  | nil => exact stringBody?_quote rest
  | cons code codes ih =>
      obtain ⟨hFirst, hLater⟩ := List.forall_mem_cons.mp hBound
      rw [List.flatMap_cons, List.append_assoc, stringBody?_code hFirst, ih hLater,
        List.flatMap_cons]
      rfl

/-- A string is read back from its text. -/
theorem exists_stringChars {s : String} (h : Text.Coded s) :
    ∃ raw, stringChars compact s = '"' :: raw ∧ stringBody? raw = some (s.toList, []) := by
  obtain ⟨hBound, hText⟩ := h.codes_spec
  have hBody := stringBody?_codes hBound []
  rw [hText] at hBody
  exact ⟨_, rfl, hBody⟩

end Strings

section Integers

/-- Where a digit is among the first two characters there is no word. -/
theorem findSome?_words_of_digit {cs : List Char} {c : Char} (hDigit : Text.isAsciiDigit c = true)
    (hMem : c ∈ cs.take 2) {found : Value × List Char} :
    (words.findSome? fun entry => word? entry.1 entry.2 cs) ≠ some found := by
  intro hFound
  obtain ⟨entry, hWord, hHead⟩ := List.exists_of_findSome?_eq_some hFound
  have hLetters : 2 ≤ entry.1.toList.length ∧
      ∀ d ∈ entry.1.toList, (!Text.isAsciiDigit d) = true := by
    simp only [words, List.mem_cons, List.not_mem_nil, or_false] at hWord
    obtain rfl | rfl | rfl | rfl | rfl | rfl := hWord <;> exact ⟨by decide, List.all_eq_true.mp rfl⟩
  unfold word? at hHead
  split at hHead
  · rename_i hPrefix
    obtain ⟨tail, rfl⟩ := List.isPrefixOf_iff_prefix.mp hPrefix
    rw [List.take_append_of_le_length hLetters.1] at hMem
    have hLetter := hLetters.2 c (List.mem_of_mem_take hMem)
    rw [hDigit] at hLetter
    cases hLetter
  · cases hHead

theorem wholeDigits_toDigits (n : Nat) :
    wholeDigits (Nat.toDigits 10 n) = (Nat.toDigits 10 n, []) := by
  rcases Nat.eq_zero_or_pos n with rfl | hPos
  · rfl
  · exact wholeDigits_run (fun _ => Text.isAsciiDigit_of_mem_toDigits)
      (Text.head?_toDigits_ne_zero hPos)

theorem digitNumber_toDigits (negative : Bool) {n : Nat}
    (hCount : (Nat.toDigits 10 n).length ≤ Number.digitLimit) :
    digitNumber negative (Nat.toDigits 10 n) = .ok (.int (if negative then -(n : Int) else n), []) := by
  have hSome : (Nat.toDigits 10 n).isEmpty = false := by simp
  unfold digitNumber
  rw [wholeDigits_toDigits]
  simp [fractionDigits, exponentDigits, hSome, Nat.not_lt.mpr hCount, Text.decimalValue_toDigits]

/-- An integer is read back from its text. -/
theorem atom_toString {n : Int} (hCount : (Value.int n).isWritable = true) :
    atom (toString n).toList = .ok (.int n, []) := by
  rw [Value.isWritable_int_iff] at hCount
  rw [Text.toList_toString]
  cases hShape : Nat.toDigits 10 n.natAbs with
  | nil => exact absurd hShape Nat.toDigits_ne_nil
  | cons c digits =>
      -- a digit is the first or, behind a sign, the second character, so not even -Infinity matches
      have hDigit : Text.isAsciiDigit c = true :=
        Text.isAsciiDigit_of_mem_toDigits (hShape ▸ List.mem_cons_self)
      split
      · rename_i hSign
        have hPlain : c ≠ '-' := by
          rintro rfl
          cases hDigit
        unfold atom
        split
        · rename_i hFound
          exact absurd hFound (findSome?_words_of_digit hDigit (by simp))
        split
        · rename_i hMinus
          exact absurd (List.cons.inj hMinus).1 hPlain
        · rw [← hShape, digitNumber_toDigits false hCount, if_neg (by simp), Int.natAbs_of_nonneg hSign]
      · rename_i hSign
        have hAbs : -(n.natAbs : Int) = n := by omega
        unfold atom
        split
        · rename_i hFound
          exact absurd hFound (findSome?_words_of_digit hDigit (by simp))
        · simp only
          rw [← hShape, digitNumber_toDigits true hCount, if_pos rfl, hAbs]

end Integers

section Values

/-- What items are spelled with is what they are written with, commas between them. -/
theorem spells_items {items : List Value} (hSome : items ≠ [])
    (h : ∀ v ∈ items, Spells (.value v) (chars compact v)) :
    Spells (.items items) (itemChars compact items) := by
  induction items with
  | nil => exact absurd rfl hSome
  | cons v items ih =>
      obtain ⟨hFirst, hLater⟩ := List.forall_mem_cons.mp h
      cases items with
      | nil =>
          have hLast := Alike.lastItem (g := []) hFirst ⟨rfl, .nil⟩
          simpa [itemChars] using hLast
      | cons w items =>
          have hNext := Alike.nextItem (s := []) (t := []) hFirst .nil .nil
            (ih (List.cons_ne_nil _ _) hLater)
          simpa [itemChars, compact] using hNext

theorem spells_entry {name : String} {v : Value} (hName : Text.Coded name)
    (h : Spells (.value v) (chars compact v)) :
    Spells (.entry name v) (stringChars compact name ++ ':' :: chars compact v) := by
  obtain ⟨raw, hRaw, hBody⟩ := exists_stringChars hName
  have hEntry : Spells (.entry (String.ofList name.toList) v)
      ('"' :: (raw ++ ([] ++ ':' :: ([] ++ chars compact v)))) := .entry hBody .nil .nil h
  rw [String.ofList_toList] at hEntry
  rw [hRaw]
  exact hEntry

theorem spells_entries {fields : Table Value} (hSome : fields ≠ [])
    (h : ∀ entry ∈ fields, Spells (.entry entry.1 entry.2)
      (stringChars compact entry.1 ++ ':' :: chars compact entry.2)) :
    Spells (.entries fields) (fieldChars compact fields) := by
  induction fields with
  | nil => exact absurd rfl hSome
  | cons entry fields ih =>
      obtain ⟨name, v⟩ := entry
      obtain ⟨hFirst, hLater⟩ := List.forall_mem_cons.mp h
      cases fields with
      | nil =>
          have hLast := Alike.lastEntry (g := []) hFirst ⟨rfl, .nil⟩
          simpa [fieldChars, compact] using hLast
      | cons next fields =>
          have hNext := Alike.nextEntry (s := []) (t := []) hFirst .nil .nil
            (ih (List.cons_ne_nil _ _) hLater)
          simpa [fieldChars, compact] using hNext

/-- What data is written as spells it. -/
theorem Data.spells {v : Value} (h : Data v) : Spells (.value v) (chars compact v) := by
  induction h with
  | null =>
      rw [chars]
      exact .atom rfl
  | bool b =>
      cases b with
      | true =>
          rw [chars]
          exact .atom rfl
      | false =>
          rw [chars]
          exact .atom rfl
  | int hCount =>
      rw [chars]
      exact .atom (atom_toString hCount)
  | @text s hCoded =>
      obtain ⟨raw, hRaw, hBody⟩ := exists_stringChars hCoded
      have hString : Spells (.value (.text (String.ofList s.toList))) ('"' :: raw) := .string hBody
      rw [String.ofList_toList] at hString
      rw [chars, hRaw]
      exact hString
  | @list items _ ih =>
      rw [chars]
      by_cases hNone : items = []
      · rw [hNone, itemChars]
        exact .emptyList (s := []) .nil
      · exact .list (s := []) .nil (spells_items hNone ih)
  | @map fields hOnce hNames _ ih =>
      rw [chars]
      by_cases hNone : fields = []
      · rw [hNone, fieldChars]
        exact .emptyMap (s := []) .nil
      · have hEntries := spells_entries hNone fun entry hMem =>
          spells_entry (hNames entry.1 (List.mem_map_of_mem hMem)) (ih entry hMem)
        have hTable : Table.ofList fields = fields := Table.merge_of_new hOnce fun _ _ => List.not_mem_nil
        have hMap := Alike.map (s := []) .nil hEntries
        rw [hTable] at hMap
        exact hMap

theorem itemObstacle?_of_forall {items : List Value} (h : ∀ v ∈ items, obstacle? v = none) :
    itemObstacle? items = none := by
  induction items with
  | nil => rw [itemObstacle?]
  | cons v items ih =>
      obtain ⟨hFirst, hLater⟩ := List.forall_mem_cons.mp h
      rw [itemObstacle?, hFirst, ih hLater, Option.or_none]

theorem fieldObstacle?_of_forall {fields : Table Value}
    (h : ∀ entry ∈ fields, obstacle? entry.2 = none) : fieldObstacle? fields = none := by
  induction fields with
  | nil => rw [fieldObstacle?]
  | cons entry fields ih =>
      obtain ⟨name, v⟩ := entry
      obtain ⟨hFirst, hLater⟩ := List.forall_mem_cons.mp h
      rw [fieldObstacle?, hFirst, ih hLater, Option.or_none]

/-- Nothing keeps data from being written. -/
theorem Data.obstacle?_eq_none {v : Value} (h : Data v) : obstacle? v = none := by
  induction h with
  | null | bool | text => unfold obstacle?; rfl
  | int hCount =>
      rw [obstacle?]
      exact if_pos hCount
  | list _ ih =>
      rw [obstacle?]
      exact itemObstacle?_of_forall ih
  | map _ _ _ ih =>
      rw [obstacle?]
      exact fieldObstacle?_of_forall ih

/-- What data is written as is a document of it. -/
theorem Data.write_parse {v : Value} (h : Data v) :
    ∃ text, write compact v = .ok text ∧ parse text = .ok v := by
  refine ⟨String.ofList (chars compact v), ?_, ?_⟩
  · unfold write
    rw [h.obstacle?_eq_none]
  · rw [parse, String.toList_ofList]
    exact parseChars_eq_ok_iff.mpr ⟨[], _, [], by simp, .nil, .nil, h.spells⟩

end Values

/-- What a template shows of a list or a mapping is read back as it was, strictly or leniently, down
to the order of its names. -/
theorem interpolated_read_back {v : Value} (hData : Data v)
    (hKind : (∃ items, v = .list items) ∨ ∃ fields, v = .map fields) :
    ∃ text, v.interpolated = .ok text ∧ ∀ lenient, readReply lenient (.text text) = .ok (true, v) := by
  obtain ⟨text, hText, hParse⟩ := hData.write_parse
  refine ⟨text, ?_, fun lenient => readReply_of_parse hParse⟩
  rcases hKind with ⟨items, rfl⟩ | ⟨fields, rfl⟩
  · exact hText
  · exact hText

/-- Data with all kinds of characters in it: those that are escaped, one beyond ASCII, and a surrogate
that has no partner. -/
def nestedData : Value :=
  .map [("\"a\\b\"", .list [.null, .bool false, .int (-40), .list [], .map [],
    .text (Text.ofCodes [0x22, 0x5C, 0x0A, 0x01, 0x7F, 0xE9, 0xD800])])]

theorem nested_data_read_back :
    Data nestedData ∧ ∃ text, nestedData.interpolated = .ok text ∧
      ∀ lenient, readReply lenient (.text text) = .ok (true, nestedData) := by
  have hName : Text.Coded "\"a\\b\"" := ⟨[0x22, 0x61, 0x5C, 0x62, 0x22], by decide, by decide⟩
  have hText : Text.Coded (Text.ofCodes [0x22, 0x5C, 0x0A, 0x01, 0x7F, 0xE9, 0xD800]) :=
    ⟨_, by decide, rfl⟩
  have hInt : Data (.int (-40)) := .int (Value.isWritable_int_iff.mpr (by decide))
  have hItems : Data (.list [.null, .bool false, .int (-40), .list [], .map [],
      .text (Text.ofCodes [0x22, 0x5C, 0x0A, 0x01, 0x7F, 0xE9, 0xD800])]) := by
    refine .list ?_
    simp only [List.forall_mem_cons]
    exact ⟨.null, .bool false, hInt, .list nofun, .map List.nodup_nil nofun nofun, .text hText, nofun⟩
  have hData : Data nestedData := .map (by decide) (List.forall_mem_singleton.mpr hName)
    (List.forall_mem_singleton.mpr hItems)
  exact ⟨hData, interpolated_read_back hData (.inr ⟨_, rfl⟩)⟩

end StepFlow.Json
