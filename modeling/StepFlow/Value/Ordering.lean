import StepFlow.Fault
import StepFlow.Value.Equality

/-!
Truth, loose equality and ordering, as conditions use them. What is no text and no number is always
true, null aside. Loose equality reads numbers out of texts, exactly; an ordering of anything but
two texts takes both sides to doubles first, so it can fail on an integer beyond their range.
-/
namespace StepFlow

/-- The relations that compare two operands. -/
inductive Relation where
  | eq | ne | lt | le | gt | ge
  deriving DecidableEq, Repr

namespace Value

/-- The nearest double to an integer, a fault when none is finite. -/
def doubleOf (n : Int) : Except Fault Float :=
  match Number.ofInt? n with
  | some x => .ok x
  | none => .error .integerTooLarge

def truth : Value → Except Fault Bool
  | .null => .ok false
  | .bool b => .ok b
  | .int n => if n = 0 then .ok false else (doubleOf n).map fun _ => true
  | .real x => .ok (x != 0.0)
  | .nan _ => .ok false
  | .text s => .ok (s != "")
  | .bytes _ | .timestamp _ | .list _ | .set _ | .map _ | .keyed _ | .record .. => .ok true

/-- The double that a text spells. A blank text is zero, and any other text that spells none is
not a number. -/
def doubleOfText (s : String) : Float :=
  let trimmed := Text.trim s.toList
  if trimmed.isEmpty then 0.0
  else (Number.float? (String.ofList trimmed)).getD Number.notANumber

/-- The double that an ordering sees. -/
def double : Value → Except Fault Float
  | .bool b => .ok (if b then 1.0 else 0.0)
  | .int n => doubleOf n
  | .real x => .ok x
  | .text s => .ok (doubleOfText s)
  | .null | .nan _ | .bytes _ | .timestamp _ | .list _ | .set _ | .map _ | .keyed _ | .record .. =>
    .ok Number.notANumber

/-- Equality of conditions. Null equals null alone; a text beside a number or a boolean is read as
a number; all else is equality of values. -/
def looseEquals (v w : Value) : Bool :=
  match v, w with
  | .null, .null => true
  | .null, _ => false
  | _, .null => false
  | .text s, .text t => s == t
  | .text s, w =>
    match w.quantity? with
    | some q => (Quantity.real (doubleOfText s)).same q
    | none => false
  | v, .text t =>
    match v.quantity? with
    | some q => q.same (.real (doubleOfText t))
    | none => false
  | v, w => v.same w

/-- An ordering of doubles. Nothing is ordered beside a value that is not a number. -/
def orderDoubles (r : Relation) (x y : Float) : Bool :=
  match r with
  | .lt => x < y
  | .le => x ≤ y
  | .gt => x > y
  | .ge => x ≥ y
  | .eq => x == y
  | .ne => x != y

/-- An ordering of texts by their codes. -/
def orderTexts (r : Relation) (s t : String) : Bool :=
  match r with
  | .lt => Text.precedes s t
  | .le => !Text.precedes t s
  | .gt => Text.precedes t s
  | .ge => !Text.precedes s t
  | .eq => s == t
  | .ne => s != t

/-- Orders two values: null is never ordered, two texts go by their codes, all else by doubles. -/
def order (r : Relation) (v w : Value) : Except Fault Bool :=
  match v, w with
  | .null, _ => .ok false
  | _, .null => .ok false
  | .text s, .text t => .ok (orderTexts r s t)
  | v, w => do
    let x ← v.double
    let y ← w.double
    return !x.isNaN && !y.isNaN && orderDoubles r x y

/-- Any relation between two values. -/
def relate (r : Relation) (v w : Value) : Except Fault Bool :=
  match r with
  | .eq => .ok (v.looseEquals w)
  | .ne => .ok (!v.looseEquals w)
  | r => v.order r w

end Value

end StepFlow
