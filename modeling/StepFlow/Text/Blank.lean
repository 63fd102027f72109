/-!
Blank characters and trimming. A blank is any character of Unicode white space, the four
information separators included; a zero-width space is not one. Trimming works on the characters
of a text, so that its laws are the laws of `dropWhile`.
-/
namespace StepFlow.Text

/-- The characters that Unicode lists as white space. -/
def isWhiteSpace (c : Char) : Bool :=
  let n := c.toNat
  (9 ≤ n && n ≤ 13) || n == 0x20 || n == 0x85 || n == 0xA0 || n == 0x1680 ||
    (0x2000 ≤ n && n ≤ 0x200A) || n == 0x2028 || n == 0x2029 || n == 0x202F || n == 0x205F ||
    n == 0x3000

/-- White space together with the separators from U+001C to U+001F. -/
def isBlank (c : Char) : Bool := isWhiteSpace c || (28 ≤ c.toNat && c.toNat ≤ 31)

def trimLeft (cs : List Char) : List Char := cs.dropWhile isBlank

def trimRight (cs : List Char) : List Char := (cs.reverse.dropWhile isBlank).reverse

def trim (cs : List Char) : List Char := trimRight (trimLeft cs)

/-- Trims white space alone, as it may stand around numerals. -/
def trimWhiteSpace (cs : List Char) : List Char :=
  ((cs.dropWhile isWhiteSpace).reverse.dropWhile isWhiteSpace).reverse

def allBlank (cs : List Char) : Bool := cs.all isBlank

/-- Cuts a list before the first place where `mark` begins. The second part is `none` when the
mark does not occur, and otherwise what follows it. -/
def cutAt (mark : List Char) : List Char → List Char × Option (List Char)
  | [] => ([], if mark.isEmpty then some [] else none)
  | c :: cs =>
    if mark.isPrefixOf (c :: cs) then ([], some ((c :: cs).drop mark.length))
    else
      let (before, after) := cutAt mark cs
      (c :: before, after)

/-- A cut loses nothing: the parts with the mark between them are the list again. -/
theorem cutAt_append {mark cs before after : List Char}
    (h : cutAt mark cs = (before, some after)) : before ++ mark ++ after = cs := by
  induction cs generalizing before after with
  | nil =>
    simp only [cutAt] at h
    split at h
    · rename_i hm
      have : mark = [] := List.isEmpty_iff.1 hm
      simp_all
    · simp at h
  | cons c cs ih =>
    simp only [cutAt] at h
    split at h
    · rename_i hp
      obtain ⟨tail, ht⟩ := List.isPrefixOf_iff_prefix.1 hp
      simp only [Prod.mk.injEq, Option.some.injEq] at h
      obtain ⟨rfl, rfl⟩ := h
      simp [← ht]
    · cases hc : cutAt mark cs with
      | mk b a =>
        rw [hc] at h
        simp only [Prod.mk.injEq] at h
        obtain ⟨rfl, rfl⟩ := h
        simpa using ih hc

end StepFlow.Text
