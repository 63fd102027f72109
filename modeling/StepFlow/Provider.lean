import StepFlow.Executor.Basic
import StepFlow.Value.Display
import StepFlow.Value.Elements

/-!
Providers of models. A pool of them answers a call with the first provider that does not fail; the
named ones are tried first, in the order of the call, and then the others in the order of the pool.
-/
namespace StepFlow

inductive Role where
  | system | user | assistant
  deriving DecidableEq, Repr

namespace Role

def word : Role → String
  | .system => "system"
  | .user => "user"
  | .assistant => "assistant"

/-- The role of a word. Any other value is refused with what it looks like. -/
def ofValue (v : Value) : Except Fault Role :=
  if v.isText "system" then .ok .system
  else if v.isText "user" then .ok .user
  else if v.isText "assistant" then .ok .assistant
  else .error (.badRole (String.ofList v.inspected))

end Role

structure Message where
  role : Role
  content : Value

namespace Message

def dump (m : Message) : Value := .map [("role", .text m.role.word), ("content", m.content)]

/-- A message from its fields: by default the user's, and empty. -/
def ofFields (fields : Table Value) : Except Fault Message := do
  return ⟨← Role.ofValue ((fields.get? "role").getD (.text "user")),
    (fields.get? "content").getD (.text "")⟩

end Message

/-- What a call asks of any provider. -/
structure ProviderConfig where
  model : Value
  temperature : Value
  maxTokens : Value
  responseFormat : Option String

namespace ProviderConfig

def dump (c : ProviderConfig) : Value :=
  .map [("model", c.model), ("temperature", c.temperature), ("max_tokens", c.maxTokens),
    ("response_format", Value.ofOption .text c.responseFormat)]

/-- The configuration of a call. Only JSON is asked for as a format. -/
def ofCall (call : ModelCall) : ProviderConfig :=
  { model := call.model
    temperature := match call.temperature with
      | .null => .real 0.7
      | v => v
    maxTokens := match call.maxTokens with
      | .null => .int 1024
      | v => v
    responseFormat := if call.responseFormat = some "json" then some "json" else none }

end ProviderConfig

/-- The reply of a provider with the counts it reports. -/
structure ProviderReply where
  content : Value
  inputTokens : Option Int
  outputTokens : Option Int
  totalTokens : Option Int

/-- Counts that are not reported are zero, and the total is then the sum. -/
def ProviderReply.usage (r : ProviderReply) : Usage :=
  let input := r.inputTokens.getD 0
  let output := r.outputTokens.getD 0
  ⟨input, output, r.totalTokens.getD (input + output)⟩

/-- A provider. One may stand at several places of a pool: those of one name and one mark are the
same. -/
structure Provider (σ : Type) where
  name : String
  mark : Nat
  complete : List Message → ProviderConfig → Act σ ProviderReply

namespace Provider

variable {σ : Type}

/-- What providers are told apart by. -/
def label (p : Provider σ) : String × Nat := (p.name, p.mark)

/-- The messages of a call, the system prompt in front if there is one. -/
def conversation (call : ModelCall) : Except Fault (List Message) := do
  let messages ← call.messages.mapM Message.ofFields
  return (if call.systemPrompt.isEmpty then [] else [⟨.system, .text call.systemPrompt⟩]) ++ messages

/-- The place of the last name that is equal. -/
def placeOf? (names : List String) (name : String) : Option Nat :=
  (names.reverse.findIdx? (· = name)).map (names.length - 1 - ·)

/-- The places of named providers in the order of their mention. -/
def ranked (names : List String) (order : List Value) : List Nat :=
  order.filterMap fun v =>
    match v with
    | .text name => placeOf? names name
    | _ => none

/-- The places to try: those of named providers as often as they are named, then the places of all
others. A provider that is named has no further turn at another place of its own. -/
def ordered (labels : List (String × Nat)) (order : List Value) : List Nat :=
  let first := ranked (labels.map Prod.fst) order
  first ++ (List.range labels.length).filter fun place =>
    first.all fun other => labels[other]? ≠ labels[place]?

/-- Tries providers one after the other. The last failure counts when none answers. -/
def tryAll (messages : List Message) (config : ProviderConfig) (last : Fault) :
    List (Provider σ) → Act σ Completion
  | [] => Act.fail last
  | p :: rest => do
    match ← Act.attempt (p.complete messages config) with
    | .ok reply => return ⟨reply.content, some reply.usage⟩
    | .error f => tryAll messages config f rest

/-- One call answered by a pool of providers. -/
def callPool (pool : List (Provider σ)) (call : ModelCall) : Act σ Completion := do
  let messages ← Act.ofExcept (conversation call)
  let order ← Act.ofExcept call.providerOrder.settingElements
  let places := ordered (pool.map Provider.label) order
  tryAll messages (ProviderConfig.ofCall call) (.raised "No LLM provider available")
    (places.filterMap fun place => pool[place]?)

/-- A model call answered by a pool, which must not be empty. -/
def pooled (pool : List (Provider σ)) : Except Fault (ModelCall → Act σ Completion) :=
  if pool.isEmpty then .error .noProviders else .ok (callPool pool)

end Provider

end StepFlow
