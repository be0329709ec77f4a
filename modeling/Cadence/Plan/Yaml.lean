import Cadence.Plan.Basic
import Cadence.Yaml.Node

/-!
The levels of a plan from YAML.

Every scalar is text, whatever it looks like, and a value that is missing is an
empty collection.  Fields without a meaning are passed over; a field with one
may be given once.  In a map from names the last entry of a name counts.
-/

namespace Cadence

namespace Yaml.Document

variable {α : Type}

def text? (d : Document) (node : Node) : Option String :=
  match d.resolve node with
  | some (.scalar text _) => some text
  | _ => none

def items? (d : Document) (node : Node) : Option (List Node) :=
  match d.resolve node with
  | some (.sequence items) => some items
  | some (.scalar "" true) => some []
  | _ => none

/-- The pairs of a mapping, all of whose keys have to be scalars. -/
def fields? (d : Document) (node : Node) : Option (List (String × Node)) :=
  match d.resolve node with
  | some (.mapping pairs) =>
      pairs.mapM (fun (key, value) => (d.text? key).map (·, value))
  | some (.scalar "" true) => some []
  | _ => none

def table? (d : Document) (decode : Node → Option α) (node : Node) : Option (Table String α) := do
  let fields ← d.fields? node
  return .ofList (← fields.mapM (fun (name, value) => (decode value).map (name, ·)))

def texts? (d : Document) (node : Node) : Option (List String) := do
  (← d.items? node).mapM d.text?

/-- The value of a field, `absent` without it; none if it is given twice or does not decode. -/
def field? (fields : List (String × Node)) (name : String) (absent : Option α)
    (decode : Node → Option α) : Option α :=
  match fields.filter (·.1 = name) with
  | [] => absent
  | [(_, value)] => decode value
  | _ => none

end Yaml.Document

namespace Plan

open Yaml.Document (field?)

def domainOfYaml? (d : Yaml.Document) (node : Yaml.Node) : Option Domain := do
  let fields ← d.fields? node
  return {
    options := ← field? fields "options" (some ∅) (d.table? d.text?)
    metrics := ← field? fields "metrics" (some []) d.texts?
    errorPolicies := ← field? fields "errors" (some ∅) (d.table? d.text?) }

def levelOfYaml? (d : Yaml.Document) (node : Yaml.Node) : Option Level := do
  let fields ← d.fields? node
  return {
    freq := ← field? fields "freq" none d.text?
    collect := ← field? fields "collect" (some ∅) (d.table? (domainOfYaml? d)) }

/-- The levels that a YAML text describes; none if it is not one of levels. -/
def levelsOfYaml? (text : String) : Option (Table String Level) := do
  let d ← Yaml.parse? text
  d.table? (levelOfYaml? d) d.root

end Plan

end Cadence
