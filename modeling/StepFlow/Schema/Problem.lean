import StepFlow.Value

/-!
What is wrong with data that should have a certain shape: a list of problems, each with its place
and its kind. Reading the parts of something reports the problems of all parts, in order.
-/
namespace StepFlow.Schema

/-- One turn on the way into data: an entry of a mapping or an item of a list. Entries may have
integers for names. -/
inductive Place where
  | name (s : String)
  | index (n : Int)
  deriving DecidableEq, Repr

inductive Flaw where
  | missing
  /-- A field whose name is no text. -/
  | nameExpected
  | textExpected
  /-- A text with surrogates where one of characters alone is needed. -/
  | unsoundText
  | textTooShort
  | listExpected
  | mappingExpected
  | modelExpected
  | integerExpected
  | integerText
  | integerFraction
  | integerSize
  | finiteExpected
  | booleanExpected
  | booleanText
  | otherChoice
  | belowMinimum
  | frozen
  | unknownField
  deriving DecidableEq, Repr

/-- The word for a flaw in reports. -/
def Flaw.word : Flaw → String
  | .missing => "missing"
  | .nameExpected => "invalid_key"
  | .textExpected => "string_type"
  | .unsoundText => "string_unicode"
  | .textTooShort => "string_too_short"
  | .listExpected => "list_type"
  | .mappingExpected => "dict_type"
  | .modelExpected => "model_type"
  | .integerExpected => "int_type"
  | .integerText => "int_parsing"
  | .integerFraction => "int_from_float"
  | .integerSize => "int_parsing_size"
  | .finiteExpected => "finite_number"
  | .booleanExpected => "bool_type"
  | .booleanText => "bool_parsing"
  | .otherChoice => "literal_error"
  | .belowMinimum => "greater_than_equal"
  | .frozen => "frozen_instance"
  | .unknownField => "no_such_attribute"

structure Problem where
  places : List Place
  flaw : Flaw
  deriving DecidableEq, Repr

def Place.dump : Place → Value
  | .name s => .text s
  | .index n => .int n

def Problem.dump (p : Problem) : Value :=
  .map [("loc", .list (p.places.map Place.dump)), ("type", .text p.flaw.word)]

/-- A value of the wanted shape, or everything that is wrong with the data. -/
abbrev Checked (α : Type) := Except (List Problem) α

namespace Checked

variable {α β : Type}

def fail (flaw : Flaw) : Checked α := .error [⟨[], flaw⟩]

/-- The problems of a part, seen from the whole. -/
def within (place : Place) : Checked α → Checked α
  | .ok a => .ok a
  | .error problems => .error (problems.map fun p => { p with places := place :: p.places })

/-- Puts a further part to a whole under construction. Problems of both are kept. -/
def and (f : Checked (α → β)) (a : Checked α) : Checked β :=
  match f, a with
  | .ok f, .ok a => .ok (f a)
  | .ok _, .error problems => .error problems
  | .error problems, .ok _ => .error problems
  | .error problems, .error more => .error (problems ++ more)

/-- All items in order, or the problems of all of them. -/
def all : List (Checked α) → Checked (List α)
  | [] => .ok []
  | a :: rest => Checked.and (Checked.and (.ok List.cons) a) (all rest)

end Checked

end StepFlow.Schema
