import StepFlow.Yaml.Node
import StepFlow.Yaml.Token.Lexer

/-!
From tokens to nodes. A stream holds one document at most. Anchors are unique in it, and an alias
stands for the node of its anchor.
-/
namespace StepFlow.Yaml

/-- How far the tokens are read. An anchor has no node while its node is being read. -/
structure Reading where
  tokens : List Token
  anchors : List (String × Option Node)
  handles : List (String × String)

abbrev Read := StateT Reading (Except Failure)

namespace Read

variable {α : Type}

def fail : Read α := fun _ => .error .malformed

def peek : Read (Option Token) := fun s => .ok (s.tokens.head?, s)

def skip : Read Unit := fun s => .ok ((), { s with tokens := s.tokens.tail })

/-- Goes over a token if it comes next. -/
def accept (t : Token) : Read Bool := do
  if (← peek) = some t then
    skip
    return true
  return false

def expect (t : Token) : Read Unit := do
  if !(← accept t) then fail

/-- Whether one of some tokens comes next, or none at all where that counts. -/
def at_ (tokens : List Token) : Read Bool := do
  match ← peek with
  | some t => return tokens.contains t
  | none => return false

end Read

open Read

/-- The two handles that always have a meaning. -/
def standardHandles : List (String × String) := [("!", "!"), ("!!", Tag.family)]

/-- The anchor and the tag that a node may have, each at most once. -/
structure Properties where
  anchor : Option String
  tag : Option (Option String × String)

def anchor? : Read (Option String) := do
  match ← peek with
  | some (.anchor name) => do
    skip
    return some name
  | _ => return none

def tag? : Read (Option (Option String × String)) := do
  match ← peek with
  | some (.tag handle suffix) => do
    skip
    return some (handle, suffix)
  | _ => return none

def properties : Read Properties := do
  match ← anchor? with
  | some name => return ⟨some name, ← tag?⟩
  | none => do
    let tag ← tag?
    if tag.isSome then return ⟨← anchor?, tag⟩ else return ⟨none, none⟩

/-- The name of a tag; its handle must be known. -/
def tagName : Option String × String → Read String
  | (none, suffix) => return suffix
  | (some handle, suffix) => do
    match (← get).handles.lookup handle with
    | some expansion => return expansion ++ suffix
    | none => fail

/-- The tag of a collection. A single mark is no tag. -/
def collectionTag (name : Option String) (standard : Tag) : Tag :=
  match name with
  | none => standard
  | some name => if name = "!" then standard else .ofName name

/-- The tag of a scalar. Only a plain one without a tag has the type that it looks like. -/
def scalarTag (name : Option String) (text : String) (plain : Bool) : Tag :=
  match name with
  | none => if plain then .ofPlain text else .text
  | some name => if name = "!" then .ofPlain text else .ofName name

/-- Where a node stands. In the value of a mapping a sequence need not be indented. -/
inductive NodePlace where
  | block | blockValue | flow
  deriving DecidableEq, Repr

/-- Notes that the node of an anchor is being read. -/
def openAnchor : Option String → Read Unit
  | none => return ()
  | some name => do
    if ((← get).anchors.lookup name).isSome then fail
    modify fun s => { s with anchors := (name, none) :: s.anchors }

def closeAnchor (name : Option String) (n : Node) : Read Node := do
  match name with
  | none => return n
  | some name => do
    modify fun s => { s with anchors := (name, some n) :: s.anchors }
    return n

def aliased (name : String) : Read Node := do
  match (← get).anchors.lookup name with
  | some (some n) => return n
  | some none => return .cycle name
  | none => fail

/-- What ends a key or a value of a block mapping that is not written. -/
def blockEnds : List Token := [.key, .value, .blockEnd]

/-- A node of which only its properties are written. -/
def absent (name : Option String) (marked : Bool) : Read Node := do
  if marked then return .scalar (scalarTag name "" true) "" else fail

mutual

/-- The node that comes next, within `fuel` nested steps. -/
def node (fuel : Nat) (place : NodePlace) : Read Node :=
  match fuel with
  | 0 => fail
  | fuel + 1 => do
    match ← peek with
    | some (.alias name) => do
      skip
      aliased name
    | _ => do
      let p ← properties
      let name ← match p.tag with
        | some tag => do pure (some (← tagName tag))
        | none => pure none
      openAnchor p.anchor
      let n ← content fuel place name (p.anchor.isSome || p.tag.isSome)
      closeAnchor p.anchor n

/-- A node after its properties. With properties nothing more need be written. -/
def content (fuel : Nat) (place : NodePlace) (name : Option String) (marked : Bool) : Read Node :=
  match fuel with
  | 0 => fail
  | fuel + 1 => do
    match ← peek with
    | some (.scalar text plain) => do
      skip
      return .scalar (scalarTag name text plain) text
    | some .flowSequence => do
      skip
      return .sequence (collectionTag name .list) (← flowItems fuel true)
    | some .flowMapping => do
      skip
      return .mapping (collectionTag name .map) (← flowEntries fuel true)
    | some .blockEntry =>
      if place = .blockValue then
        return .sequence (collectionTag name .list) (← bareItems fuel)
      else absent name marked
    | some .blockSequence =>
      if place = .flow then absent name marked
      else do
        skip
        return .sequence (collectionTag name .list) (← blockItems fuel)
    | some .blockMapping =>
      if place = .flow then absent name marked
      else do
        skip
        return .mapping (collectionTag name .map) (← blockEntries fuel)
    | _ => absent name marked

/-- A node, or the empty one where one of some tokens comes next. -/
def nodeUnless (fuel : Nat) (place : NodePlace) (ends : List Token) : Read Node :=
  match fuel with
  | 0 => fail
  | fuel + 1 => do
    if ← at_ ends then return Node.empty else node fuel place

/-- The items of a block sequence up to its end. -/
def blockItems (fuel : Nat) : Read (List Node) :=
  match fuel with
  | 0 => fail
  | fuel + 1 => do
    if ← accept .blockEntry then
      let n ← nodeUnless fuel .block [.blockEntry, .blockEnd]
      return n :: (← blockItems fuel)
    expect .blockEnd
    return []

/-- The items of a sequence that is not indented. -/
def bareItems (fuel : Nat) : Read (List Node) :=
  match fuel with
  | 0 => fail
  | fuel + 1 => do
    if ← accept .blockEntry then
      let n ← nodeUnless fuel .block [.blockEntry, .key, .value, .blockEnd]
      return n :: (← bareItems fuel)
    return []

/-- The entries of a block mapping up to its end. Each begins with a key. -/
def blockEntries (fuel : Nat) : Read (List (Node × Node)) :=
  match fuel with
  | 0 => fail
  | fuel + 1 => do
    if ← accept .key then
      let k ← nodeUnless fuel .blockValue blockEnds
      let v ← if ← accept .value then nodeUnless fuel .blockValue blockEnds else pure Node.empty
      return (k, v) :: (← blockEntries fuel)
    expect .blockEnd
    return []

/-- The items of a flow sequence up to its end. A key makes an item a mapping of one entry. -/
def flowItems (fuel : Nat) (first : Bool) : Read (List Node) :=
  match fuel with
  | 0 => fail
  | fuel + 1 => do
    if ← accept .flowSequenceEnd then return []
    if !first then expect .flowEntry
    if ← accept .key then
      let k ← nodeUnless fuel .flow [.value, .flowEntry, .flowSequenceEnd]
      let v ← if ← accept .value then nodeUnless fuel .flow [.flowEntry, .flowSequenceEnd]
        else pure Node.empty
      return .mapping .map [(k, v)] :: (← flowItems fuel false)
    if ← accept .flowSequenceEnd then return []
    let n ← node fuel .flow
    return n :: (← flowItems fuel false)

/-- The entries of a flow mapping up to its end. One without a key mark has no value. -/
def flowEntries (fuel : Nat) (first : Bool) : Read (List (Node × Node)) :=
  match fuel with
  | 0 => fail
  | fuel + 1 => do
    if ← accept .flowMappingEnd then return []
    if !first then expect .flowEntry
    if ← accept .key then
      let k ← nodeUnless fuel .flow [.value, .flowEntry, .flowMappingEnd]
      let v ← if ← accept .value then nodeUnless fuel .flow [.flowEntry, .flowMappingEnd]
        else pure Node.empty
      return (k, v) :: (← flowEntries fuel false)
    if ← accept .flowMappingEnd then return []
    let n ← node fuel .flow
    return (n, Node.empty) :: (← flowEntries fuel false)

end

/-- The handles that directives give, from the first of them on. -/
def directives : List Token → Option Nat → List (String × String) →
    Except Failure (List Token × List (String × String))
  | .directive (.version major _) :: rest, version, handles =>
    if version.isSome || major ≠ 1 then .error .malformed else directives rest (some major) handles
  | .directive (.tag handle expansion) :: rest, version, handles =>
    if (handles.lookup handle).isSome then .error .malformed
    else directives rest version (handles ++ [(handle, expansion)])
  | .directive .other :: rest, version, handles => directives rest version handles
  | tokens, _, handles => .ok (tokens, handles)

/-- The one node of a document. -/
def documentNode : Read Node := do
  node (4 * (← get).tokens.length + 8) .block

/-- A document after its begin. -/
def documentContent : Read Node := do
  match ← peek with
  | none => return Node.empty
  | some (.directive _) => return Node.empty
  | some .documentStart => return Node.empty
  | some .documentEnd => return Node.empty
  | some _ => documentNode

def isDocumentEnd (t : Token) : Bool := t = .documentEnd

/-- The document of a stream, if there is one. -/
def document : Read (Option Node) := do
  match ← peek with
  | none => return none
  | some t =>
    let explicit := match t with
      | .directive _ | .documentStart => true
      | _ => false
    if explicit then
      let (tokens, handles) ← (directives (← get).tokens none [] : Except Failure _)
      modify fun s => { s with tokens, handles := handles ++ standardHandles }
      expect .documentStart
      return some (← documentContent)
    else return some (← documentNode)

/-- How many levels of a document are looked at. Whatever lies below is taken or refused as it is. -/
def levels : Nat := 6

/-- The document of some tokens. Nothing may follow it but ends of documents. -/
def Node.ofTokens (tokens : List Token) : Except Failure (Option Node) := do
  let (n, s) ← document.run ⟨tokens, [], standardHandles⟩
  let anchored (name : String) : Node := ((s.anchors.lookup name).join).getD (.cycle name)
  if s.tokens.all isDocumentEnd then return n.map (Node.unrolled anchored levels)
  else throw .malformed

end StepFlow.Yaml
