import StepFlow.Yaml.Tag

/-!
Nodes of YAML documents, every one with its tag. Anchors and aliases are gone, unless an alias
stands inside of what it names. Such cycles are followed some times, so that what looks at the
upper levels of a document finds them as they are.
-/
namespace StepFlow.Yaml

inductive Node where
  | scalar (tag : Tag) (text : String)
  | sequence (tag : Tag) (items : List Node)
  | mapping (tag : Tag) (entries : List (Node × Node))
  /-- The node of an anchor, which is around the place itself. -/
  | cycle (anchor : String)

namespace Node

def tag : Node → Tag
  | .scalar tag _ => tag
  | .sequence tag _ => tag
  | .mapping tag _ => tag
  | .cycle _ => .map

/-- The node where nothing is written. -/
def empty : Node := .scalar .null ""

mutual

/-- A node with other nodes in place of its cycles. -/
def replaceCycles (f : String → Node) : Node → Node
  | .scalar tag s => .scalar tag s
  | .sequence tag items => .sequence tag (replaceInItems f items)
  | .mapping tag entries => .mapping tag (replaceInEntries f entries)
  | .cycle anchor => f anchor

def replaceInItems (f : String → Node) : List Node → List Node
  | [] => []
  | n :: rest => replaceCycles f n :: replaceInItems f rest

def replaceInEntries (f : String → Node) : List (Node × Node) → List (Node × Node)
  | [] => []
  | (k, v) :: rest => (replaceCycles f k, replaceCycles f v) :: replaceInEntries f rest

end

/-- A node in which every cycle is followed so many times. -/
def unrolled (anchored : String → Node) : Nat → Node → Node
  | 0, n => n
  | times + 1, n => n.replaceCycles fun anchor => unrolled anchored times (anchored anchor)

end Node

end StepFlow.Yaml
