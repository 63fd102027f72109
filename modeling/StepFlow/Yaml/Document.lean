import StepFlow.Value.Endless
import StepFlow.Value.Equality
import StepFlow.Value.Members
import StepFlow.Yaml.Node.Grammar
import StepFlow.Yaml.Scalar.Typed

/-!
Reading YAML documents as values. The mappings that a mapping merges come before its own entries,
so that its own count where names are equal. Documents are built level by level, and the failure
that is met first in this order is the one of the document.
-/
namespace StepFlow.Yaml

/-- A part of a document, or the failure in it that is met first, with its level. -/
abbrev Built (α : Type) := Except (Nat × Failure) α

namespace Built

variable {α β : Type}

def malformed (level : Nat) : Built α := .error (level, .malformed)

/-- Puts a further part to those before it. Of two failures the one nearer to the root counts, and
on one level the earlier. -/
def and (f : Built (α → β)) (a : Built α) : Built β :=
  match f, a with
  | .ok f, .ok a => .ok (f a)
  | .ok _, .error y => .error y
  | .error x, .ok _ => .error x
  | .error x, .error y => .error (if y.1 < x.1 then y else x)

end Built

abbrev Entries := List (Value × Value)

/-- Whether two names are one in a mapping. -/
def isSameName (k l : Value) : Bool := k.isOne l || k.same l

/-- Puts an entry into a mapping. A name that is there keeps its place. -/
def putEntry : Entries → Value × Value → Entries
  | [], entry => [entry]
  | (k, v) :: rest, entry =>
    if isSameName k entry.1 then (k, entry.2) :: rest else (k, v) :: putEntry rest entry

/-- The mapping of some entries, of which later ones count more. -/
def mappingValue (entries : Entries) : Value :=
  if entries.all fun entry => entry.1.kind = .text then
    .map (Table.ofList (Value.textEntries entries))
  else .keyed (entries.foldl putEntry [])

/-- The set of the names of some entries. -/
def setValue (entries : Entries) : Value :=
  .set (Value.membersInOrder ((entries.foldl putEntry []).map Prod.fst))

/-- A value as the name of an entry. Lists, sets and mappings are none. -/
def nameValue (level : Nat) (k : Value) : Built Value :=
  if k.isHashable then .ok k else Built.malformed level

mutual

/-- Whether only mappings are merged into a mapping of some entries, and into those. -/
def mergesMappings : List (Node × Node) → Bool
  | [] => true
  | (k, v) :: rest => (k.tag != .merge || isMergeable v) && mergesMappings rest

/-- Whether a node can be merged: a mapping, or a sequence of them. A cycle adds nothing. -/
def isMergeable : Node → Bool
  | .mapping _ entries => mergesMappings entries
  | .sequence _ items => areMergeable items
  | .cycle _ => true
  | .scalar .. => false

def areMergeable : List Node → Bool
  | [] => true
  | .mapping _ entries :: rest => mergesMappings entries && areMergeable rest
  | .cycle _ :: rest => areMergeable rest
  | _ :: _ => false

end

namespace Node

mutual

/-- The text of a node as a scalar. That of a mapping is the one under a lone equals sign. -/
def scalarText? : Node → Option String
  | .scalar _ s => some s
  | .mapping _ entries => defaultText? entries
  | .sequence .. | .cycle _ => none

def defaultText? : List (Node × Node) → Option String
  | [] => none
  | (k, v) :: rest => if k.tag = .fallback then scalarText? v else defaultText? rest

end

mutual

/-- The value of a node on a level. -/
def value (level : Nat) : Node → Built Value
  | .scalar tag s => (scalarValue tag s).mapError (level, ·)
  | .sequence .list items => (values (level + 1) items).map .list
  | .sequence .omap items => (pairs (level + 1) items).map .list
  | .sequence .pairs items => (pairs (level + 1) items).map .list
  | .sequence _ _ => Built.malformed level
  | .mapping .map entries => (allEntries (level + 1) entries).map mappingValue
  | .mapping .set entries => (allEntries (level + 1) entries).map setValue
  | .mapping tag entries =>
    match defaultText? entries with
    | some s => (scalarValue tag s).mapError (level, ·)
    | none => Built.malformed level
  | .cycle _ => .ok .endless

def values (level : Nat) : List Node → Built (List Value)
  | [] => .ok []
  | n :: rest => Built.and ((n.value level).map List.cons) (values level rest)

/-- Mappings of one entry each, as lists of a name and a value. -/
def pairs (level : Nat) : List Node → Built (List Value)
  | [] => .ok []
  | .mapping _ [(k, v)] :: rest =>
    Built.and
      (Built.and ((k.value level).map fun k v => List.cons (Value.list [k, v])) (v.value level))
      (pairs level rest)
  | .cycle _ :: rest => (pairs level rest).map (.endless :: ·)
  | _ :: _ => Built.malformed level

/-- The entries of a mapping, those that it merges first. -/
def allEntries (level : Nat) (entries : List (Node × Node)) : Built Entries :=
  if mergesMappings entries then (fields level entries).map fun (merged, own) => merged ++ own
  else Built.malformed level

/-- The entries that are merged into a mapping, and its own. -/
def fields (level : Nat) : List (Node × Node) → Built (Entries × Entries)
  | [] => .ok ([], [])
  | (k, v) :: rest =>
    if k.tag = .merge then
      Built.and ((mergedEntries level v).map fun here (more, own) => (here ++ more, own))
        (fields level rest)
    else
      Built.and
        (Built.and ((keyValue level k).map fun k v (merged, own) => (merged, (k, v) :: own))
          (v.value level))
        (fields level rest)

/-- The name of an entry. A lone equals sign is a text here, and a cycle is no name. -/
def keyValue (level : Nat) : Node → Built Value
  | .scalar .fallback s => .ok (.text s)
  | .cycle _ => Built.malformed level
  | k => do nameValue level (← k.value level)

/-- The entries of what is merged. Of the mappings in a sequence earlier ones count more. -/
def mergedEntries (level : Nat) : Node → Built Entries
  | .mapping _ entries => (fields level entries).map fun (merged, own) => merged ++ own
  | .sequence _ items => mergedItems level items
  | .cycle _ => .ok []
  | .scalar .. => Built.malformed level

def mergedItems (level : Nat) : List Node → Built Entries
  | [] => .ok []
  | n :: rest => Built.and ((mergedEntries level n).map fun here later => later ++ here)
      (mergedItems level rest)

end

end Node

/-- The characters that a document may hold. -/
def isPermitted (c : Char) : Bool :=
  let n := c.toNat
  n == 9 || n == 10 || n == 13 || (0x20 ≤ n && n ≤ 0x7E) || n == 0x85 ||
    (0xA0 ≤ n && n ≤ 0xD7FF) || (0xE000 ≤ n && n ≤ 0xFFFD) || 0x10000 ≤ n

/-- Line breaks of two characters or of another kind as line feeds. -/
def unifyBreaks : List Char → List Char
  | '\r' :: '\n' :: cs => '\n' :: unifyBreaks cs
  | '\r' :: cs => '\n' :: unifyBreaks cs
  | c :: cs => c :: unifyBreaks cs
  | [] => []

/-- Reads the text of a document. Without one the value is null. -/
def parse (s : String) : Except Failure Value := do
  let cs := unifyBreaks s.toList
  if !cs.all isPermitted then throw .malformed
  match ← Node.ofTokens (← Token.ofText cs) with
  | none => return .null
  | some n => (n.value 0).mapError Prod.snd

end StepFlow.Yaml
