/-!
Tokens of YAML documents. Indentation has become tokens of its own: a block collection has a token
where it begins and one where it ends, and so have the keys of mappings.
-/
namespace StepFlow.Yaml

inductive Directive where
  | version (major minor : Nat)
  | tag (handle expansion : String)
  | other
  deriving DecidableEq, Repr

inductive Token where
  | directive (d : Directive)
  | documentStart
  | documentEnd
  | blockSequence
  | blockMapping
  | blockEnd
  | flowSequence
  | flowSequenceEnd
  | flowMapping
  | flowMappingEnd
  | blockEntry
  | flowEntry
  | key
  | value
  | alias (name : String)
  | anchor (name : String)
  /-- A tag: a handle and the rest of its name, or the name alone. -/
  | tag (handle : Option String) (suffix : String)
  | scalar (text : String) (plain : Bool)
  deriving DecidableEq, Repr

end StepFlow.Yaml
