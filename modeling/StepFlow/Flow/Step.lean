import StepFlow.Schema.Reader

/-!
Steps: the nodes of a flow. The settings of a step are for its executor alone to understand, and
fields that a step does not know are kept in their order.
-/
namespace StepFlow

open Schema

/-- Where a flow goes after a step: no word about it, one step, several at once, or names for a
router's branches. -/
inductive Next where
  | unset
  | one (id : String)
  | several (ids : List String)
  | named (branches : Table String)
  deriving DecidableEq, Repr

structure Step where
  id : String
  type : String
  config : Table Value
  inputs : Option (Table String)
  condition : Option String
  next : Next
  extra : Table Value

/-- All readings of a field with several shapes, and the problems of each when none fits. -/
def Next.read : Reader Next
  | .null => .ok .unset
  | v =>
    match text v, list text v, mapping text v with
    | .ok id, _, _ => .ok (.one id)
    | _, .ok ids, _ => .ok (.several ids)
    | _, _, .ok branches => .ok (.named branches)
    | first, second, third =>
      ((((Checked.and (.ok fun _ _ _ => Next.unset) (first.within (.name "str"))).and
        (second.within (.name "list[str]"))).and (third.within (.name "dict[str,str]"))))

def Next.dump : Next → Value
  | .unset => .null
  | .one id => .text id
  | .several ids => .list (ids.map .text)
  | .named branches => .map (branches.map fun (name, id) => (name, .text id))

namespace Step

/-- The names of the fields that every step has. -/
def fieldNames : List String := ["id", "type", "config", "inputs", "condition", "next"]

/-- Settings given as null are none. -/
def readConfig : Reader (Table Value)
  | .null => .ok []
  | v => mapping anything v

def readFields (fields : Table Value) : Checked (Table Value → Step) :=
  (((((Checked.and (.ok Step.mk) (required someText (sole "id") fields)).and
    (required someText (sole "type") fields)).and
    (defaulted readConfig (sole "config") [] fields)).and
    (defaulted (optional (mapping text)) (sole "inputs") none fields)).and
    (defaulted (optional text) (sole "condition") none fields)).and
    (defaulted Next.read (sole "next") .unset fields)

/-- Reads a step together with the fields that it does not know. A name with surrogates spoils the
step as a whole. -/
def read : Reader Step := fun v =>
  if hasSoundNames v then Checked.and (model readFields v) (leftover fieldNames v)
  else .fail .unsoundText

def dump (s : Step) : Value :=
  .map (Table.merge [("id", .text s.id), ("type", .text s.type), ("config", .map s.config),
    ("inputs", Value.ofOption (fun inputs => .map (inputs.map fun (name, t) => (name, .text t)))
      s.inputs),
    ("condition", Value.ofOption .text s.condition), ("next", s.next.dump)] s.extra)

end Step

end StepFlow
