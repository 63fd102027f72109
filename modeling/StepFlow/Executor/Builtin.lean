import StepFlow.Executor.Completion
import StepFlow.Executor.Reshape
import StepFlow.Executor.Retrieval
import StepFlow.Executor.Routing
import StepFlow.Executor.Rules
import StepFlow.Executor.ToolUse

/-!
The executors that come with the engine, by the types of the steps they carry out.
-/
namespace StepFlow

inductive Builtin where
  | llm | rag | deterministic | tool | router | transform
  deriving DecidableEq, Repr

namespace Builtin

/-- All of them in the order of their registration. -/
def all : List Builtin := [.llm, .rag, .deterministic, .tool, .router, .transform]

def type : Builtin → String
  | .llm => "llm"
  | .rag => "rag"
  | .deterministic => "deterministic"
  | .tool => "tool"
  | .router => "router"
  | .transform => "transform"

def title : Builtin → String
  | .llm => "LLMExecutor"
  | .rag => "RAGExecutor"
  | .deterministic => "DeterministicExecutor"
  | .tool => "ToolExecutor"
  | .router => "RouterExecutor"
  | .transform => "TransformExecutor"

def ofType? (type : String) : Option Builtin := all.find? fun b => b.type = type

def executor {σ : Type} (host : Host σ) : Builtin → Executor σ
  | .llm => Executor.completion host
  | .rag => Executor.retrieval host
  | .deterministic => Executor.rules
  | .tool => Executor.toolUse host
  | .router => Executor.routing host
  | .transform => Executor.reshape

/-- The types that stored flows may name. One of them has no executor here. -/
def storedTypes : List String :=
  ["llm", "rag", "deterministic", "tool", "router", "human-in-loop", "transform"]

end Builtin

end StepFlow
