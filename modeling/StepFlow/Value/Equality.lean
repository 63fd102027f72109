import StepFlow.Number.Quantity
import StepFlow.Value

/-!
Equality of values. Integers and doubles are compared exactly and a boolean counts as zero or one;
lists agree place by place, sets and mappings in any order, and records only if they are one. A
double that is not a number differs from itself, so equality is not reflexive; but inside lists,
sets and mappings it agrees with itself, as one thing in both of them.
-/
namespace StepFlow

namespace Value

/-- The exact number in a value. -/
def quantity? : Value → Option Quantity
  | .bool b => some (Quantity.ofBool b)
  | .int n => some (.int n)
  | .real x => some (.real x)
  | .nan _ => some (.real Number.notANumber)
  | _ => none

/-- Whether two values are one double that is not a number. -/
def isOne : Value → Value → Bool
  | .nan m, .nan n => m == n
  | _, _ => false

mutual

def same : Value → Value → Bool
  | .null, .null => true
  | .text s, .text t => s == t
  | .bytes xs, .bytes ys => xs == ys
  | .timestamp s, .timestamp t => s.same t
  | .list xs, .list ys => sameItems xs ys
  | .set xs, .set ys => xs.length == ys.length && sameMembers xs ys
  | .map xs, .map ys => xs.length == ys.length && sameFields xs ys
  | .keyed xs, .keyed ys => xs.length == ys.length && sameEntries xs ys
  | .record m s _ _, .record n t _ _ => m == n && s == t
  | v, w =>
    match v.quantity?, w.quantity? with
    | some p, some q => p.same q
    | _, _ => false

def sameItems : List Value → List Value → Bool
  | [], [] => true
  | v :: vs, w :: ws => (isOne v w || same v w) && sameItems vs ws
  | _, _ => false

/-- Whether the second set holds each member of the first. -/
def sameMembers : List Value → List Value → Bool
  | [], _ => true
  | v :: rest, other => other.any (fun w => isOne v w || same v w) && sameMembers rest other

/-- Whether the second mapping holds an equal entry for each entry of the first. -/
def sameFields : List (String × Value) → List (String × Value) → Bool
  | [], _ => true
  | (name, v) :: rest, other =>
    (match other.lookup name with
      | some w => isOne v w || same v w
      | none => false) && sameFields rest other

/-- As for fields, under names of any kind. -/
def sameEntries : List (Value × Value) → List (Value × Value) → Bool
  | [], _ => true
  | (k, v) :: rest, other =>
    other.any (fun (l, w) => (isOne k l || same k l) && (isOne v w || same v w)) &&
      sameEntries rest other

end

/-- Whether a list of texts holds a value. -/
def isOneOf (v : Value) (texts : List String) : Bool :=
  match v with
  | .text s => texts.contains s
  | _ => false

theorem isOneOf_iff {v : Value} {texts : List String} :
    v.isOneOf texts = true ↔ ∃ s ∈ texts, v = .text s := by
  cases v with
  | text s => simp [isOneOf]
  | _ => simp [isOneOf]

/-- Whether a value is one particular text. -/
def isText (v : Value) (s : String) : Bool := v.isOneOf [s]

end Value

end StepFlow
