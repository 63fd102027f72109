import StepFlow.Executor.Basic
import StepFlow.Executor.Inputs
import StepFlow.Value.Elements
import StepFlow.Value.Ordering

/-!
Steps that search knowledge. The query is the first true one of two inputs and the content of the
trigger; without a query the step fails with an empty output.
-/
namespace StepFlow.Executor

variable {σ : Type}

def standardTopK : Value := .int 5

def standardMinScore : Value := .real 0.3

/-- The stores to search. A single text names one store. -/
def storeIds (config : Table Value) : Except Fault (List Value) :=
  match (Value.field config "vectorStoreIds").orElse (.list []) with
  | .text s => .ok [.text s]
  | v => v.elements

def emptyFindings : Value := .map [("chunks", .list []), ("context", .text "")]

/-- The first true value of some. -/
def firstTrue : List Value → Except Fault (Option Value)
  | [] => .ok none
  | v :: rest => do if ← v.truth then return some v else firstTrue rest

def Chunk.dump (c : Chunk) : Value :=
  .map [("content", c.content), ("score", c.score), ("source", c.source)]

/-- The contents of the chunks from one position on, each a text. -/
def chunkTexts : Nat → List Chunk → Except Fault (List String)
  | _, [] => .ok []
  | position, c :: rest =>
    match c.content with
    | .text s => do return s :: (← chunkTexts (position + 1) rest)
    | v => .error (.badElement position v.kind)

/-- The result of a search as a step's. -/
def searchOutcome (stores : List Value) (topK minScore : Value) (found : SearchResult) :
    Except Fault StepResult := do
  let texts ← chunkTexts 0 found.chunks
  pure
    { output := .map [("chunks", .list (found.chunks.map Chunk.dump)),
        ("context", .text (String.intercalate "\n\n" texts)),
        ("chunksFound", .int found.chunks.length), ("totalTokens", .int found.totalTokens)]
      usage := some { total := found.totalTokens }
      error := none
      nextBranch := .null
      metadata := .map [("vectorStoreIds", .list stores), ("topK", topK), ("minScore", minScore),
        ("chunksFound", .int found.chunks.length)] }

def retrieval (host : Host σ) : Executor σ := fun step ledger budget => do
  let config := step.config
  let stores ← Act.ofExcept (storeIds config)
  let topK := (Value.field config "topK").numberOr standardTopK
  let minScore := (Value.field config "minScore").numberOr standardMinScore
  match ← host.guard budget .null [] with
  | some violation => return .failure violation.message
  | none =>
    let inputs ← Act.ofExcept (Inputs.resolve step.inputs ledger.context)
    let query ← Act.ofExcept (firstTrue [Value.field inputs "query",
      Value.field inputs "user_message", Value.ofOption .text ledger.trigger.content])
    match query with
    | none => return .failure "No query provided for RAG search" emptyFindings
    | some query =>
      let found ← Act.attempt do
        let text ← Act.ofExcept query.interpolated
        host.search
          { query := text, storeIds := stores, topK, minScore, accountId := host.accountId }
      match found with
      | .error f => return .failure (f.messageOr "RAG search failed") emptyFindings
      | .ok found => Act.ofExcept (searchOutcome stores topK minScore found)

end StepFlow.Executor
