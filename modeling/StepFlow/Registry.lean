import StepFlow.Table
import StepFlow.Value.Display

/-!
Registries of executors by step type. Registering a type again replaces its executor in place. A
sealed registry is never changed again.
-/
namespace StepFlow

structure Registry (α : Type) where
  entries : Table α
  isSealed : Bool

/-- Why a registry refuses a change. -/
inductive RegistryRefusal where
  | sealedForRegistering (type : String)
  | sealedForRemoving (type : String)
  | noType (shown : String)
  deriving DecidableEq, Repr

def RegistryRefusal.message : RegistryRefusal → String
  | .sealedForRegistering type =>
    "Cannot register executor for type '" ++ type ++ "': registry is sealed"
  | .sealedForRemoving type =>
    "Cannot unregister executor for type '" ++ type ++ "': registry is sealed"
  | .noType shown => "Executor must declare a step type: " ++ shown

namespace Registry

variable {α : Type}

def ofList (entries : List (String × α)) : Registry α := ⟨Table.ofList entries, false⟩

def types (r : Registry α) : List String := r.entries.keys

def get? (r : Registry α) (type : String) : Option α := r.entries.get? type

/-- Registers under the given type. The executor is shown when there is none. -/
def register (r : Registry α) (type : String) (a : α) (shown : String) :
    Except RegistryRefusal (Registry α) :=
  if r.isSealed then .error (.sealedForRegistering type)
  else if type.isEmpty then .error (.noType shown)
  else .ok { r with entries := r.entries.put type a }

/-- Removes a type, and says whether it was there. -/
def unregister (r : Registry α) (type : String) : Except RegistryRefusal (Bool × Registry α) :=
  if r.isSealed then .error (.sealedForRemoving type)
  else .ok (r.entries.contains type, { r with entries := r.entries.erase type })

def close (r : Registry α) : Registry α := { r with isSealed := true }

def describe (r : Registry α) : String :=
  "<ExecutorRegistry types=" ++ Value.inspectTexts r.types ++ " sealed=" ++
    (if r.isSealed then "True" else "False") ++ ">"

end Registry

/-- How an executor shows itself. -/
def executorLabel (title type : String) : String :=
  "<" ++ title ++ " type=" ++ Text.quoted type ++ ">"

end StepFlow
