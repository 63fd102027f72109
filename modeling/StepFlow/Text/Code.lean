/-!
Codes: what texts are made of. Most are those of characters, but surrogates, which are no
characters, may stand among them, since escapes can spell them. A text is held as a string in which
a surrogate, and likewise a character of the last block of codes, is written as two characters of
that block, a first half and a second half. No character is both, so halves never run together and
what is found in the string is found in the text. Main statement: a text made from codes has these
codes.
-/
namespace StepFlow.Text

/-- All codes are below. -/
def codeLimit : Nat := 0x110000

def isSurrogate (code : Nat) : Bool := 0xD800 ≤ code && code < 0xE000

/-- The first code of the block that halves are taken from. -/
def blockStart : Nat := 0x10F800

/-- The first codes of the block are first halves, as many after them second halves. -/
def halves : Nat := 64

def isFirstHalf (c : Char) : Bool := blockStart ≤ c.toNat && c.toNat < blockStart + halves

def isSecondHalf (c : Char) : Bool :=
  blockStart + halves ≤ c.toNat && c.toNat < blockStart + 2 * halves

/-- The number of a code among those that are written in two halves: the surrogates and then the
block. -/
def pairNumber? (code : Nat) : Option Nat :=
  if isSurrogate code then some (code - 0xD800)
  else if blockStart ≤ code then some (0x800 + (code - blockStart))
  else none

/-- The code of two halves. -/
def ofHalves (c d : Char) : Nat :=
  let number := halves * (c.toNat - blockStart) + (d.toNat - (blockStart + halves))
  if number < 0x800 then 0xD800 + number else blockStart + (number - 0x800)

/-- A code as it is written. -/
def ofCode (code : Nat) : List Char :=
  match pairNumber? code with
  | some number =>
    [Char.ofNat (blockStart + number / halves), Char.ofNat (blockStart + halves + number % halves)]
  | none => [Char.ofNat code]

/-- The text of some codes. -/
def ofCodes (codes : List Nat) : String := String.ofList (codes.flatMap ofCode)

/-- The codes that characters are written for. -/
def codesOf : List Char → List Nat
  | [] => []
  | [c] => [c.toNat]
  | c :: d :: cs =>
    if isFirstHalf c && isSecondHalf d then ofHalves c d :: codesOf cs
    else c.toNat :: codesOf (d :: cs)

/-- The codes of a text. -/
def codes (s : String) : List Nat := codesOf s.toList

/-- The text of any characters. -/
def ofCharacters (s : String) : String := ofCodes (s.toList.map Char.toNat)

/-- The characters of a text. A surrogate is replaced. -/
def characters (s : String) : String :=
  String.ofList ((codes s).map fun code => if isSurrogate code then '\uFFFD' else Char.ofNat code)

/-- The number of codes in a text. -/
def length (s : String) : Nat := (codes s).length

/-- Whether a text comes before another in the order of codes. -/
def precedes (s t : String) : Bool := decide (codes s < codes t)

/-- Whether a text is one of characters alone. -/
def isSound (s : String) : Bool := (codes s).all fun code => !isSurrogate code

/-- A text of characters alone: the three bytes that would stand for a surrogate are replaced, each
by a character of its own. -/
def replaceSurrogates (s : String) : String :=
  ofCodes ((codes s).flatMap fun code =>
    if isSurrogate code then List.replicate 3 0xFFFD else [code])

theorem toNat_ofNat_of_isValidChar {n : Nat} (h : n.isValidChar) : (Char.ofNat n).toNat = n := by
  rw [Char.ofNat, dif_pos h]
  rfl

/-- The characters of the block are characters. -/
theorem toNat_ofNat_of_block {n : Nat} (h : blockStart ≤ n) (hn : n < codeLimit) :
    (Char.ofNat n).toNat = n := by
  simp only [blockStart, codeLimit] at h hn
  exact toNat_ofNat_of_isValidChar (Or.inr ⟨by omega, by omega⟩)

theorem codesOf_cons_of_not_half {c : Char} (h : isFirstHalf c = false) (cs : List Char) :
    codesOf (c :: cs) = c.toNat :: codesOf cs := by
  cases cs <;> simp [codesOf, h]

theorem isSurrogate_iff (code : Nat) :
    isSurrogate code = true ↔ 0xD800 ≤ code ∧ code < 0xE000 := by
  rw [isSurrogate, Bool.and_eq_true, decide_eq_true_eq, decide_eq_true_eq]

/-- Two halves can tell the numbers of all codes that are written in halves, and each code is found
again by its number. -/
theorem pairNumber?_eq_some {code number : Nat} (h : pairNumber? code = some number)
    (hc : code < codeLimit) :
    number < halves * halves ∧
      (if number < 0x800 then 0xD800 + number else blockStart + (number - 0x800)) = code := by
  have hblock : blockStart = 0x10F800 := rfl
  have hlimit : codeLimit = 0x110000 := rfl
  have hhalves : halves * halves = 0x1000 := rfl
  unfold pairNumber? at h
  split at h
  · rename_i hs
    have := (isSurrogate_iff code).1 hs
    have := Option.some.inj h
    split <;> omega
  · split at h
    · have := Option.some.inj h
      split <;> omega
    · exact nomatch h

/-- The two halves of a number are characters of their own. -/
theorem toNat_halves {number : Nat} (h : number < halves * halves) :
    (Char.ofNat (blockStart + number / halves)).toNat = blockStart + number / halves ∧
      (Char.ofNat (blockStart + halves + number % halves)).toNat =
        blockStart + halves + number % halves := by
  have hfirst : number / halves < halves := Nat.div_lt_of_lt_mul h
  have hsecond : number % halves < halves := Nat.mod_lt _ (by decide)
  have hhalves : halves = 64 := rfl
  have hblock : blockStart = 0x10F800 := rfl
  have hlimit : codeLimit = 0x110000 := rfl
  generalize number / halves = first at *
  generalize number % halves = second at *
  exact ⟨toNat_ofNat_of_block (by omega) (by omega), toNat_ofNat_of_block (by omega) (by omega)⟩

/-- Two halves are read as the code that they are written for. -/
theorem codesOf_halves {code number : Nat} (h : pairNumber? code = some number)
    (hc : code < codeLimit) (cs : List Char) :
    codesOf (Char.ofNat (blockStart + number / halves) ::
      Char.ofNat (blockStart + halves + number % halves) :: cs) = code :: codesOf cs := by
  obtain ⟨hbound, hcode⟩ := pairNumber?_eq_some h hc
  obtain ⟨hfirst, hsecond⟩ := toNat_halves hbound
  have hdiv : number / halves < halves := Nat.div_lt_of_lt_mul hbound
  have hmod : number % halves < halves := Nat.mod_lt _ (by decide)
  have hsum : halves * (number / halves) + number % halves = number := Nat.div_add_mod _ _
  rw [codesOf, isFirstHalf, isSecondHalf, ofHalves, hfirst, hsecond, Nat.add_sub_cancel_left,
    Nat.add_sub_cancel_left, hsum, hcode]
  simp [hdiv, Nat.two_mul, ← Nat.add_assoc, hmod]

/-- A code that is not written in halves is that of a character below the block. -/
theorem pairNumber?_eq_none {code : Nat} (h : pairNumber? code = none) (hc : code < codeLimit) :
    code.isValidChar ∧ code < blockStart := by
  have hlimit : codeLimit = 0x110000 := rfl
  unfold pairNumber? at h
  split at h
  · exact nomatch h
  split at h
  · exact nomatch h
  rename_i hs hlow
  rw [isSurrogate_iff] at hs
  refine ⟨?_, Nat.lt_of_not_le hlow⟩
  rcases Nat.lt_or_ge code 0xD800 with hless | hmore
  · exact Or.inl hless
  · exact Or.inr ⟨by omega, by omega⟩

/-- A code is read as it is written, whatever follows it. -/
theorem codesOf_ofCode_append {code : Nat} (h : code < codeLimit) (cs : List Char) :
    codesOf (ofCode code ++ cs) = code :: codesOf cs := by
  unfold ofCode
  split
  · rename_i number hnumber
    exact codesOf_halves hnumber h cs
  · rename_i hnone
    obtain ⟨hvalid, hlow⟩ := pairNumber?_eq_none hnone h
    have hcode := toNat_ofNat_of_isValidChar hvalid
    have hhalf : isFirstHalf (Char.ofNat code) = false := by
      rw [isFirstHalf, hcode, decide_eq_false (Nat.not_le.mpr hlow), Bool.false_and]
    rw [List.singleton_append, codesOf_cons_of_not_half hhalf, hcode]

/-- A text made from codes has these codes. -/
theorem codes_ofCodes {list : List Nat} (h : ∀ code ∈ list, code < codeLimit) :
    codes (ofCodes list) = list := by
  rw [codes, ofCodes, String.toList_ofList]
  induction list with
  | nil => rfl
  | cons code rest ih =>
    rw [List.flatMap_cons, codesOf_ofCode_append (h code List.mem_cons_self),
      ih fun c hc => h c (List.mem_cons_of_mem _ hc)]

end StepFlow.Text
