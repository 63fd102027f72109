import StepFlow.Provider
import StepFlow.Tool

/-!
Rehearsals: flows run against a scripted world. A script is a list of cues that are played in
order, the last one again and again; a cue lets time pass, and then answers, fails or cancels. The
world keeps the time, how often each script was played and what it was asked for.
-/
namespace StepFlow.Rehearsal

/-- What a cue comes to. -/
inductive Ending (α : Type) where
  | answer (a : α)
  | failure (text : String)
  | cancel

structure Cue (α : Type) where
  seconds : Float
  ending : Ending α

abbrev Script (α : Type) := List (Cue α)

/-- The cue of the play of a number, counted from zero. -/
def Script.cue? {α : Type} (s : Script α) (play : Nat) : Option (Cue α) :=
  match s[play]? with
  | some cue => some cue
  | none => s.getLast?

/-- What a world is asked for. Providers and tools are numbered. -/
inductive Request where
  | model (call : ModelCall)
  | search (call : SearchCall)
  | tool (call : ToolCall)
  | completion (provider : Nat) (messages : List Message) (config : ProviderConfig)
  | use (tool : Nat) (input : Table Value)

/-- Whose script is played. -/
inductive Part where
  | model | search | tool
  | provider (n : Nat)
  | toolbox (n : Nat)
  | executor (n : Nat)
  deriving DecidableEq, Repr

structure World where
  clock : Float
  plays : List Part
  requests : List Request

namespace World

def start (clock : Float) : World := ⟨clock, [], []⟩

end World

variable {α : Type}

/-- Keeps a request. -/
def note (request : Request) : Act World Unit :=
  Act.ofState fun w => ((), { w with requests := w.requests ++ [request] })

/-- What a cue comes to as an answer. -/
def Ending.toExcept : Ending α → Except Halt α
  | .answer a => .ok a
  | .failure text => .error (.fault (.raised text))
  | .cancel => .error .cancelled

/-- Plays the next cue of a script. -/
def play (part : Part) (script : Script α) : Act World α := fun w =>
  let w' := { w with plays := part :: w.plays }
  match script.cue? (w.plays.count part) with
  | some cue => (cue.ending.toExcept, { w' with clock := w.clock + cue.seconds })
  | none => (.error (.fault (.raised "list index out of range")), w')

/-- The scripts of the three capabilities. -/
structure Cast where
  model : Script Completion
  search : Script SearchResult
  tool : Script ToolOutcome

/-- The seconds of the world, as its scripts let them pass. -/
def seconds : StateM World Float := fun w => (w.clock, w)

def stamp : StateM World Float := fun w => (w.clock * 1000.0, w)

/-- A clock that stands still. -/
def stillSeconds : StateM World Float := fun w => (0.0, w)

def Cast.host (cast : Cast) (accountId providerOrder : Value)
    (settings : Except Fault Settings) : Host World :=
  { callModel := fun call => do
      note (.model call)
      play .model cast.model
    search := fun call => do
      note (.search call)
      play .search cast.search
    callTool := fun call => do
      note (.tool call)
      play .tool cast.tool
    seconds, stamp, accountId, providerOrder, settings }

/-- A provider that follows a script. -/
def provider (n : Nat) (name : String) (script : Script ProviderReply) : Provider World :=
  { name
    mark := n
    complete := fun messages config => do
      note (.completion n messages config)
      play (.provider n) script }

/-- A tool that follows a script. -/
def tool (n : Nat) (name description inputSchema : Value) (script : Script ToolResult) :
    Tool World :=
  { name, description, inputSchema
    run := fun input => do
      note (.use n input)
      play (.toolbox n) script }

/-- An executor that follows a script. Its answers may depend on the step. -/
def executor (n : Nat) (script : Script (Step → StepResult)) : Executor World :=
  fun step _ _ => do return (← play (.executor n) script) step

end StepFlow.Rehearsal
