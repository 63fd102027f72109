import StepFlow.Number.Numeral
import StepFlow.Value

/-!
The lexemes of JSON: blanks, strings and numbers. Strings hold no bare control characters, and a
surrogate without its partner stands alone. Three names of doubles are read beside the numerals.
-/
namespace StepFlow.Json

/-- Why a text is no document: its form, or an integer of too many digits. The first that is met
from left to right counts. -/
inductive Failure where
  | malformed
  | numeralTooLong (digits : Nat)
  deriving DecidableEq, Repr

def isSpace (c : Char) : Bool := c = ' ' || c = '\t' || c = '\n' || c = '\r'

def skipSpace (cs : List Char) : List Char := cs.dropWhile isSpace

theorem skipSpace_length (cs : List Char) : (skipSpace cs).length ≤ cs.length :=
  (List.dropWhile_suffix isSpace).sublist.length_le

/-- A code unit of four hexadecimal digits, and what follows it. -/
def unit? : List Char → Option (Nat × List Char)
  | a :: b :: c :: d :: rest => (Text.hexValueOf? [a, b, c, d]).map (·, rest)
  | _ => none

theorem unit?_length {cs rest : List Char} {n : Nat} (h : unit? cs = some (n, rest)) :
    rest.length < cs.length := by
  unfold unit? at h
  split at h
  · simp only [Option.map_eq_some_iff, Prod.mk.injEq] at h
    obtain ⟨_, _, _, rfl⟩ := h
    simp only [List.length_cons]
    omega
  · simp at h

/-- The second half of a surrogate pair. -/
def lowSurrogate? : List Char → Option (Nat × List Char)
  | '\\' :: 'u' :: cs =>
    match unit? cs with
    | some (low, rest) => if 0xDC00 ≤ low && low < 0xE000 then some (low, rest) else none
    | none => none
  | _ => none

theorem lowSurrogate?_length {cs rest : List Char} {n : Nat}
    (h : lowSurrogate? cs = some (n, rest)) : rest.length < cs.length := by
  unfold lowSurrogate? at h
  split at h
  · split at h
    · rename_i hu
      split at h
      · simp only [Option.some.injEq, Prod.mk.injEq] at h
        have := unit?_length hu
        rw [h.2] at this
        simp only [List.length_cons]
        omega
      · simp at h
    · simp at h
  · simp at h

/-- The code of a code unit, together with its partner when it begins a pair. -/
def unitCode (unit : Nat) (cs : List Char) : Nat × List Char :=
  if 0xD800 ≤ unit && unit < 0xDC00 then
    match lowSurrogate? cs with
    | some (low, rest) => (0x10000 + (unit - 0xD800) * 0x400 + (low - 0xDC00), rest)
    | none => (unit, cs)
  else (unit, cs)

theorem unitCode_length (unit : Nat) (cs : List Char) :
    (unitCode unit cs).2.length ≤ cs.length := by
  unfold unitCode
  split
  · split
    · rename_i h
      exact Nat.le_of_lt (lowSurrogate?_length h)
    · exact Nat.le_refl _
  · exact Nat.le_refl _

/-- The code that an escape of one letter stands for. -/
def letterEscape? (c : Char) : Option Nat :=
  match c with
  | '"' | '\\' | '/' => some c.toNat
  | 'b' => some 8
  | 'f' => some 12
  | 'n' => some 10
  | 'r' => some 13
  | 't' => some 9
  | _ => none

/-- The code that an escape stands for, its backslash read. -/
def escape? : List Char → Option (Nat × List Char)
  | [] => none
  | c :: rest =>
    if c = 'u' then (unit? rest).map fun (unit, after) => unitCode unit after
    else (letterEscape? c).map (·, rest)

theorem escape?_length {cs rest : List Char} {code : Nat} (h : escape? cs = some (code, rest)) :
    rest.length < cs.length := by
  unfold escape? at h
  split at h
  · simp at h
  · split at h
    · simp only [Option.map_eq_some_iff, Prod.exists] at h
      obtain ⟨unit, after, hu, hc⟩ := h
      have h1 := unit?_length hu
      have h2 := unitCode_length unit after
      rw [hc] at h2
      simp only [List.length_cons] at h2 ⊢
      omega
    · simp only [Option.map_eq_some_iff, Prod.mk.injEq] at h
      obtain ⟨_, _, _, rfl⟩ := h
      simp

/-- The body of a string whose quote is read, and what follows its closing quote. -/
def stringBody? (cs : List Char) : Option (List Char × List Char) :=
  match cs with
  | [] => none
  | c :: rest =>
    if c = '"' then some ([], rest)
    else if c = '\\' then
      match _h : escape? rest with
      | none => none
      | some (code, after) =>
        (stringBody? after).map fun (body, last) => (Text.ofCode code ++ body, last)
    else if c.toNat < 0x20 then none
    else (stringBody? rest).map fun (body, last) => (c :: body, last)
termination_by cs.length
decreasing_by
  · have := escape?_length _h
    simp only [List.length_cons]
    omega
  · simp

theorem stringBody?_length {cs body rest : List Char} (h : stringBody? cs = some (body, rest)) :
    rest.length < cs.length := by
  induction hn : cs.length using Nat.strongRecOn generalizing cs body rest with
  | _ n ih =>
    rw [stringBody?.eq_def] at h
    split at h
    · simp at h
    · rename_i c cs'
      simp only [List.length_cons] at hn
      split at h
      · simp only [Option.some.injEq, Prod.mk.injEq] at h
        rw [← h.2]
        omega
      split at h
      · split at h
        · simp at h
        · rename_i code after he
          have hlt := escape?_length he
          simp only [Option.map_eq_some_iff, Prod.exists, Prod.mk.injEq] at h
          obtain ⟨b, r, hb, _, rfl⟩ := h
          have := ih after.length (by omega) hb rfl
          omega
      split at h
      · simp at h
      · simp only [Option.map_eq_some_iff, Prod.exists, Prod.mk.injEq] at h
        obtain ⟨b, r, hb, _, rfl⟩ := h
        have := ih cs'.length (by omega) hb rfl
        omega

/-- The digits of a whole number: one zero, or digits that begin with another. -/
def wholeDigits : List Char → List Char × List Char
  | '0' :: rest => (['0'], rest)
  | cs => Number.splitDigits cs

/-- A point and the digits behind it, when both are there. -/
def fractionDigits (cs : List Char) : List Char × List Char :=
  match cs with
  | '.' :: rest =>
    let (digits, after) := Number.splitDigits rest
    if digits.isEmpty then ([], cs) else (digits, after)
  | _ => ([], cs)

/-- A mark, a sign and digits, when mark and digits are there. -/
def exponentDigits (cs : List Char) : Option Int × List Char :=
  match cs with
  | c :: rest =>
    if c = 'e' || c = 'E' then
      let (negative, body) := Number.splitSign rest
      let (digits, after) := Number.splitDigits body
      if digits.isEmpty then (none, cs)
      else
        let size : Int := Text.decimalValue digits
        (some (if negative then -size else size), after)
    else (none, cs)
  | [] => (none, cs)

theorem splitDigits_length (cs : List Char) :
    (Number.splitDigits cs).2.length ≤ cs.length := by
  exact (List.dropWhile_suffix _).sublist.length_le

theorem splitSign_length (cs : List Char) : (Number.splitSign cs).2.length ≤ cs.length := by
  unfold Number.splitSign
  split <;> simp

/-- A whole number and what follows it make up the list. -/
theorem wholeDigits_append (cs : List Char) : (wholeDigits cs).1 ++ (wholeDigits cs).2 = cs := by
  unfold wholeDigits
  split
  · rfl
  · exact List.takeWhile_append_dropWhile

theorem fractionDigits_length (cs : List Char) : (fractionDigits cs).2.length ≤ cs.length := by
  unfold fractionDigits
  split
  · rename_i rest
    have := splitDigits_length rest
    simp only
    split
    · exact Nat.le_refl _
    · simp only [List.length_cons]
      omega
  · exact Nat.le_refl _

theorem exponentDigits_length (cs : List Char) : (exponentDigits cs).2.length ≤ cs.length := by
  unfold exponentDigits
  split
  · rename_i c rest
    split
    · have h1 := splitSign_length rest
      have h2 := splitDigits_length (Number.splitSign rest).2
      simp only
      split
      · exact Nat.le_refl _
      · simp only [List.length_cons]
        omega
    · exact Nat.le_refl _
  · exact Nat.le_refl _

/-- A number of digits: an integer unless it has a fraction or an exponent. -/
def digitNumber (negative : Bool) (cs : List Char) : Except Failure (Value × List Char) :=
  let (whole, rest) := wholeDigits cs
  let (fraction, rest) := fractionDigits rest
  let (exponent, rest) := exponentDigits rest
  if whole.isEmpty then .error .malformed
  else if fraction.isEmpty && exponent.isNone then
    if Number.digitLimit < whole.length then .error (.numeralTooLong whole.length)
    else
      let size : Int := Text.decimalValue whole
      .ok (.int (if negative then -size else size), rest)
  else .ok (.real (Number.Numeral.ofParts negative whole fraction (exponent.getD 0)).toFloat, rest)

/-- A number takes at least one digit. -/
theorem digitNumber_length {negative : Bool} {cs rest : List Char} {v : Value}
    (h : digitNumber negative cs = .ok (v, rest)) : rest.length < cs.length := by
  have h1 := congrArg List.length (wholeDigits_append cs)
  have h2 := fractionDigits_length (wholeDigits cs).2
  have h3 := exponentDigits_length (fractionDigits (wholeDigits cs).2).2
  rw [List.length_append] at h1
  unfold digitNumber at h
  simp only at h
  split at h
  · simp at h
  rename_i hwhole
  have hpos : 0 < (wholeDigits cs).1.length := List.length_pos_iff.2 (by simpa using hwhole)
  split at h
  · split at h
    · simp at h
    · simp only [Except.ok.injEq, Prod.mk.injEq] at h
      rw [← h.2]
      omega
  · simp only [Except.ok.injEq, Prod.mk.injEq] at h
    rw [← h.2]
    omega

/-- Reads a word that stands for a value. -/
def word? (word : String) (v : Value) (cs : List Char) : Option (Value × List Char) :=
  if word.toList.isPrefixOf cs then some (v, cs.drop word.length) else none

theorem word?_length {word : String} {v w : Value} {cs rest : List Char}
    (h : word? word v cs = some (w, rest)) : rest.length + word.length = cs.length := by
  unfold word? at h
  split at h
  · rename_i hp
    obtain ⟨tail, ht⟩ := List.isPrefixOf_iff_prefix.1 hp
    simp only [Option.some.injEq, Prod.mk.injEq] at h
    rw [← h.2, ← ht, List.length_append, String.length_toList, List.length_drop,
      List.length_append, String.length_toList]
    omega
  · simp at h

/-- The words that stand for values, and the values. -/
def words : List (String × Value) :=
  [("null", .null), ("true", .bool true), ("false", .bool false), ("NaN", .nan .document),
    ("Infinity", .real (1.0 / 0.0)), ("-Infinity", .real (-1.0 / 0.0))]

theorem length_pos_of_mem_words {entry : String × Value} (h : entry ∈ words) :
    0 < entry.1.length := by
  simp only [words, List.mem_cons, List.not_mem_nil, or_false] at h
  obtain rfl | rfl | rfl | rfl | rfl | rfl := h <;> decide

/-- A value that is neither string, list nor mapping. -/
def atom (cs : List Char) : Except Failure (Value × List Char) :=
  match words.findSome? fun (w, v) => word? w v cs with
  | some found => .ok found
  | none =>
    match cs with
    | '-' :: rest => digitNumber true rest
    | cs => digitNumber false cs

theorem atom_length {cs rest : List Char} {v : Value} (h : atom cs = .ok (v, rest)) :
    rest.length < cs.length := by
  unfold atom at h
  split at h
  · rename_i found hf
    simp only [Except.ok.injEq] at h
    subst h
    obtain ⟨entry, hmem, hw⟩ := List.exists_of_findSome?_eq_some hf
    have := word?_length hw
    have := length_pos_of_mem_words hmem
    omega
  · split at h
    · exact Nat.lt_succ_of_lt (digitNumber_length h)
    · exact digitNumber_length h

end StepFlow.Json
