import StepFlow.Text.Bytes

/-!
What is wrong with bytes that encode no text: the place of the first sequence that begins no
character or breaks off, its length up to there, and why it is refused.
-/
namespace StepFlow.Text

/-- A character that has begun: its first byte, how many bytes have been read and are left to read,
and the range of the next one. -/
structure Sequence where
  first : UInt8
  read : Nat
  left : Nat
  low : UInt8
  high : UInt8

/-- What a byte between characters is: a character, the beginning of one, or nothing of the kind. -/
inductive Lead where
  | single
  | sequence (s : Sequence)
  | unfit

def Lead.ofByte (b : UInt8) : Lead :=
  let begun (left : Nat) (low high : UInt8) : Lead := .sequence ⟨b, 1, left, low, high⟩
  if b < 0x80 then .single
  else if b < 0xC2 then .unfit
  else if b < 0xE0 then begun 1 0x80 0xBF
  else if b < 0xF0 then begun 2 (if b = 0xE0 then 0xA0 else 0x80) (if b = 0xED then 0x9F else 0xBF)
  else if b < 0xF5 then begun 3 (if b = 0xF0 then 0x90 else 0x80) (if b = 0xF4 then 0x8F else 0xBF)
  else .unfit

/-- A sequence after one more byte, unless that completes it. Only the second byte is of a range of
its own. -/
def Sequence.next? (s : Sequence) : Option Sequence :=
  if s.left ≤ 1 then none
  else some { s with read := s.read + 1, left := s.left - 1, low := 0x80, high := 0xBF }

/-- Bytes that are not decoded: from where on, how many, the first of them, and why. -/
structure Undecoded where
  start : Nat
  length : Nat
  first : UInt8
  reason : String

/-- The first bytes that are not decoded, from a place on and within a character or between two. -/
def undecoded? : Option Sequence → Nat → Bytes → Option Undecoded
  | none, _, [] => none
  | some s, n, [] => some ⟨n - s.read, s.read, s.first, "unexpected end of data"⟩
  | none, n, b :: rest =>
    match Lead.ofByte b with
    | .single => undecoded? none (n + 1) rest
    | .sequence s => undecoded? (some s) (n + 1) rest
    | .unfit => some ⟨n, 1, b, "invalid start byte"⟩
  | some s, n, b :: rest =>
    if s.low ≤ b && b ≤ s.high then undecoded? s.next? (n + 1) rest
    else some ⟨n - s.read, s.read, s.first, "invalid continuation byte"⟩

def Undecoded.message (u : Undecoded) : String :=
  let place := if u.length = 1 then
      "byte 0x" ++ String.ofList (hexDigits 2 u.first.toNat) ++ " in position " ++ toString u.start
    else
      "bytes in position " ++ toString u.start ++ "-" ++ toString (u.start + u.length - 1)
  "'utf-8' codec can't decode " ++ place ++ ": " ++ u.reason

/-- What bytes that encode no text are refused with. -/
def undecodedMessage (bytes : Bytes) : String :=
  ((undecoded? none 0 bytes).map Undecoded.message).getD ""

end StepFlow.Text
