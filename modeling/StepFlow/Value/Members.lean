import StepFlow.Number.Nearest
import StepFlow.Value

/-!
The order in which a set goes through its members. Numbers stand in a table of slots: each takes
the first free slot on a way that its key alone decides, and a table that gets full gives way to a
wider one. Any other members keep the order in which they are given.
-/
namespace StepFlow.Value

/-- The keys of numbers are residues of this prime. -/
def keyPrime : Nat := Number.twoTo 61 - 1

/-- A residue with a sign. Minus one is no key. -/
def signedKey (negative : Bool) (residue : Nat) : Int :=
  if !negative then residue else if residue = 1 then -2 else -residue

/-- The key of a number, which equal numbers of all kinds share. -/
def key? : Value → Option Int
  | .bool b => some (if b then 1 else 0)
  | .int n => some (signedKey (decide (n < 0)) (n.natAbs % keyPrime))
  | .real x =>
    match Number.Binary.ofFloat? x with
    | some b =>
      some (signedKey b.negative (b.mantissa * Number.twoTo (b.exponent % 61).toNat % keyPrime))
    | none => some (if x < 0.0 then -314159 else 314159)
  | _ => none

/-- A number with its key as a word of 64 bits. -/
structure Member where
  key : Nat
  number : Value

/-- A member, if a value is a number. -/
def member? (v : Value) : Option Member :=
  (key? v).map fun key => ⟨(key % (Number.twoTo 64 : Int)).toNat, v⟩

/-- Slots, of which there is a power of two. -/
abbrev Slots := Array (Option Member)

namespace Slots

/-- The least width. -/
def leastWidth : Nat := 8

def free (width : Nat) : Slots := Array.replicate width none

/-- The least width beyond a number. -/
def widthBeyond (n : Nat) : Nat := max leastWidth (Number.twoTo (n.log2 + 1))

/-- The members in the order of their slots. -/
def members (slots : Slots) : List Member := slots.toList.filterMap id

/-- The first free slot among one slot and the nine behind it. If these are not all there, it
stands alone. -/
def freeNear? (slots : Slots) (place : Nat) : Option Nat :=
  let behind := if place + 9 < slots.size then 9 else 0
  ((List.range (behind + 1)).map (place + ·)).find? fun i => slots[i]?.join.isNone

/-- The slot that a member takes, from a place on and within `fuel` turns. At every turn what is
left of the key moves the place. -/
def freeSlot (slots : Slots) : Nat → Nat → Nat → Nat
  | 0, _, place => place
  | fuel + 1, left, place =>
    match slots.freeNear? place with
    | some i => i
    | none =>
      let left := left / 32
      freeSlot slots fuel left ((5 * place + 1 + left) % slots.size)

def put (slots : Slots) (m : Member) : Slots :=
  slots.setIfInBounds (slots.freeSlot (slots.size + 64) m.key (m.key % slots.size)) (some m)

/-- The same members in as many slots as there are beyond a number. -/
def widened (slots : Slots) (n : Nat) : Slots := slots.members.foldl put (free (widthBeyond n))

/-- Puts a further member. Three of five slots are never taken. -/
def add (slots : Slots) (m : Member) : Slots :=
  let slots := slots.put m
  let taken := slots.members.length
  if 5 * taken < 3 * (slots.size - 1) then slots else slots.widened (4 * taken)

/-- The slots for so many members that come at once. -/
def roomFor (n : Nat) : Slots :=
  free (if 5 * n < 3 * (leastWidth - 1) then leastWidth else widthBeyond (2 * n))

end Slots

/-- The members of a set that is made of some values at once, and then copied one by one. -/
def membersInOrder (values : List Value) : List Value :=
  match values.mapM member? with
  | some given =>
    let made := given.foldl Slots.add (Slots.roomFor given.length)
    (made.members.foldl Slots.add (Slots.free Slots.leastWidth)).members.map Member.number
  | none => values

end StepFlow.Value
