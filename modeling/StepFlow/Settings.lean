import StepFlow.Fault
import StepFlow.Scopes

/-!
Settings of the engine: what a run does where its order leaves something open, and how its log is
written.
-/
namespace StepFlow

open Schema

structure Settings where
  maxSteps : Int
  abortOnError : Bool
  defaultModel : String
  defaultScopes : Scopes
  logLevel : String
  jsonLogs : Bool
  metricsEnabled : Bool
  deriving DecidableEq, Repr

namespace Settings

def logLevels : List String := ["DEBUG", "INFO", "WARNING", "ERROR", "CRITICAL"]

def standardModel : String := "llama-3.1-8b-instant"

/-- Upper case of the letters that level names have; a dotless i is one of them. -/
def upper (c : Char) : Char := if c.toNat = 0x131 then 'I' else c.toUpper

/-- A level in any letter case. -/
def readLevel : Reader String
  | .text s => choice logLevels (.text (s.map upper))
  | v => choice logLevels v

def readFields (fields : Table Value) : Checked Settings :=
  ((((((Checked.and (.ok Settings.mk)
    (defaulted (integerFrom 1) (sole "default_max_steps") 50 fields)).and
    (defaulted boolean (sole "abort_on_error") true fields)).and
    (defaulted text (sole "default_llm_model") standardModel fields)).and
    (defaulted Scopes.read (sole "default_scopes") .standard fields)).and
    (defaulted readLevel (sole "log_level") "INFO" fields)).and
    (defaulted boolean (sole "json_logs") false fields)).and
    (defaulted boolean (sole "metrics_enabled") true fields)

def read : Reader Settings := model readFields

def dump (naming : Naming) (s : Settings) : Value :=
  .map [("default_max_steps", .int s.maxSteps), ("abort_on_error", .bool s.abortOnError),
    ("default_llm_model", .text s.defaultModel), ("default_scopes", s.defaultScopes.dump naming),
    ("log_level", .text s.logLevel), ("json_logs", .bool s.jsonLogs),
    ("metrics_enabled", .bool s.metricsEnabled)]

/-- How log lines are laid out. Lines that are documents stand alone. -/
def lineFormat (s : Settings) : String :=
  if s.jsonLogs then "%(message)s" else "%(asctime)s - %(name)s - %(levelname)s - %(message)s"

end Settings

end StepFlow
