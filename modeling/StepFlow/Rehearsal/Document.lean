import StepFlow.Executor.Builtin
import StepFlow.Rehearsal

/-!
Rehearsals as documents: the scripts of capabilities, providers, tools and executors read from
data, and what the world was asked for written down. What a document leaves out is filled in, so
an empty one is a rehearsal in which everything answers.
-/
namespace StepFlow.Rehearsal

/-- The fields of a mapping; other values have none. -/
def fieldsOf : Value → Table Value
  | .map fields => fields
  | _ => []

def itemsOf (fields : Table Value) (name : String) (fallback : List Value) : List Value :=
  match fields.get? name with
  | some (.list items) => items
  | _ => fallback

def textOr (fields : Table Value) (name fallback : String) : String :=
  match fields.get? name with
  | some (.text s) => s
  | _ => fallback

def optionalText (fields : Table Value) (name : String) : Option String :=
  match fields.get? name with
  | some (.text s) => some s
  | _ => none

def optionalCount (fields : Table Value) (name : String) : Option Int :=
  match fields.get? name with
  | some (.int n) => some n
  | _ => none

def given (fields : Table Value) (name : String) (fallback : Value) : Value :=
  (fields.get? name).getD fallback

/-- The seconds in a value. -/
def secondsOf : Value → Float
  | .int n => Number.nearest (n < 0) n.natAbs 1
  | .real x => x
  | .nan _ => Number.notANumber
  | _ => 0.0

/-- Three counts as a usage. -/
def usageOf : Value → Option Usage
  | .list [.int prompt, .int completion, .int total] => some ⟨prompt, completion, total⟩
  | _ => none

variable {α : Type}

def cueOf (answer : Table Value → α) (cue : Table Value) : Cue α :=
  { seconds := secondsOf (Value.field cue "advance")
    ending := match optionalText cue "raise", cue.get? "cancel" with
      | some text, _ => .failure text
      | none, some (.bool true) => .cancel
      | _, _ => .answer (answer cue) }

/-- The script under a name. A missing one has the single cue given. -/
def scriptOf (fields : Table Value) (name : String) (byDefault : Table Value)
    (answer : Table Value → α) : Script α :=
  (itemsOf fields name [.map byDefault]).map fun v => cueOf answer (fieldsOf v)

def completionOf (cue : Table Value) : Completion :=
  ⟨given cue "content" (.text "ok"),
    usageOf (given cue "usage" (.list [.int 10, .int 5, .int 15]))⟩

def chunkOf (v : Value) : Chunk :=
  let chunk := fieldsOf v
  ⟨Value.field chunk "content", given chunk "score" (.int 1), Value.field chunk "source"⟩

def findingsOf (cue : Table Value) : SearchResult :=
  ⟨(itemsOf cue "chunks" []).map chunkOf, (optionalCount cue "totalTokens").getD 0⟩

def outcomeOf (cue : Table Value) : ToolOutcome :=
  ⟨Value.field cue "output", optionalText cue "error"⟩

def castOf (fields : Table Value) : Cast :=
  { model := scriptOf fields "llm" [] completionOf
    search := scriptOf fields "search" [] findingsOf
    tool := scriptOf fields "tool" [("output", .map [("ok", .bool true)])] outcomeOf }

def replyOf (cue : Table Value) : ProviderReply :=
  let usage := fieldsOf (Value.field cue "usage")
  ⟨given cue "content" (.text "ok"), optionalCount usage "input_tokens",
    optionalCount usage "output_tokens", optionalCount usage "total_tokens"⟩

def providersOf (items : List Value) : List (Provider World) :=
  items.mapIdx fun n v =>
    let fields := fieldsOf v
    provider n (textOr fields "name" "") (scriptOf fields "replies" [] replyOf)

def toolResultOf (cue : Table Value) : ToolResult :=
  { text := textOr cue "text" ""
    isError := (Value.field cue "is_error").same (.bool true)
    structured := Value.field cue "structured" }

/-- The schema of a tool without parameters. -/
def standardSchema : Value := .map [("type", .text "object"), ("properties", .map [])]

def toolOf (n : Nat) (v : Value) : Tool World :=
  let fields := fieldsOf v
  tool n (Value.field fields "name") (given fields "description" (.text "d"))
    (given fields "input_schema" standardSchema)
    (scriptOf fields "results" [("text", .text "ok")] toolResultOf)

/-- The tools of a document, registered in order. -/
def toolboxOf (items : List Value) : Except ToolRefusal (Toolbox World) :=
  (items.mapIdx toolOf).foldlM Toolbox.register Toolbox.empty

/-- The result that a cue stands for. Without an output it is the id of the step. -/
def resultOf (cue : Table Value) (step : Step) : StepResult :=
  { output := given cue "output" (.text step.id)
    usage := usageOf (Value.field cue "usage")
    error := optionalText cue "error"
    nextBranch := Value.field cue "next_branch"
    metadata := Value.field cue "meta" }

/-- The executors of a document by type. -/
def executorsOf (items : List Value) : List (String × Executor World) :=
  items.mapIdx fun n v =>
    let fields := fieldsOf v
    (textOr fields "type" "", executor n (scriptOf fields "replies" [] resultOf))

/-- The built-in executors of a host with those of a document over them. -/
def allExecutors (host : Host World) (items : List Value) : Table (Executor World) :=
  Table.ofList ((Builtin.all.map fun b => (b.type, b.executor host)) ++ executorsOf items)

/-- A request to a capability as it is written down. -/
def Request.capability? : Request → Option Value
  | .model c =>
    some (.map ([("cap", .text "llm"), ("model", c.model), ("system_prompt", .text c.systemPrompt),
      ("messages", .list (c.messages.map .map)), ("temperature", c.temperature),
      ("max_tokens", c.maxTokens), ("provider_order", c.providerOrder)] ++
      match c.responseFormat with
      | some format => [("response_format", .text format)]
      | none => []))
  | .search c =>
    some (.map [("cap", .text "search"), ("query", .text c.query),
      ("vector_store_ids", .list c.storeIds), ("top_k", c.topK), ("min_score", c.minScore),
      ("account_id", c.accountId)])
  | .tool c =>
    some (.map [("cap", .text "tool"), ("tool_name", c.tool), ("input", .map c.input),
      ("account_id", c.accountId)])
  | _ => none

/-- A request to the provider of a number. -/
def Request.toProvider? (n : Nat) : Request → Option Value
  | .completion k messages config =>
    if k = n then
      some (.map [("messages", .list (messages.map Message.dump)), ("config", config.dump)])
    else none
  | _ => none

/-- A request to the tool of a number. -/
def Request.toTool? (n : Nat) : Request → Option Value
  | .use k input => if k = n then some (.map input) else none
  | _ => none

namespace World

def calls (w : World) : Value := .list (w.requests.filterMap Request.capability?)

/-- What each of some named things was asked for. -/
def seenBy (w : World) (request : Nat → Request → Option Value) (items : List Value) : Value :=
  .list (items.mapIdx fun n v =>
    .map [("name", Value.field (fieldsOf v) "name"),
      ("seen", .list (w.requests.filterMap (request n)))])

def seenByProviders (w : World) (items : List Value) : Value :=
  w.seenBy Request.toProvider? items

def seenByTools (w : World) (items : List Value) : Value := w.seenBy Request.toTool? items

end World

end StepFlow.Rehearsal
