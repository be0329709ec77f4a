import Cadence.FileTree
import Cadence.Plan.Order
import Cadence.Plan.Yaml

/-!
The plans that can be switched to, by name.

A plan gets into the store only if it is valid and its name is free; otherwise
the store stays as it was.  The empty name asks for the plan loaded first.
-/

namespace Cadence

structure PlanStore where
  plans : Table String Plan := ∅
  first : Option String := none
  deriving DecidableEq

namespace PlanStore

def empty : PlanStore := {}

instance : EmptyCollection PlanStore := ⟨empty⟩

instance : Inhabited PlanStore := ⟨empty⟩

/-- The plan that a YAML text describes, if it can be taken up under `name`. -/
def read (store : PlanStore) (name source text : String) : Except PlanError Plan := do
  if let some existing := store.plans[name]? then
    throw (.duplicatePlan name existing.source)
  match Plan.levelsOfYaml? text with
  | none => throw (.malformed name)
  | some levels =>
      let plan := Plan.ofLevels name source levels
      plan.validate
      return plan

def add (store : PlanStore) (plan : Plan) : PlanStore :=
  { plans := store.plans.insert plan.name plan
    first := store.first.or (some plan.name) }

def load (store : PlanStore) (name source text : String) : Except PlanError PlanStore :=
  (store.read name source text).map store.add

/-- Loads a file as the plan named by the stem of its path. -/
def loadFile (store : PlanStore) (tree : FileTree) (path : String) :
    Except PlanError (String × PlanStore) := do
  let text ← (tree.read path).mapError (fun e => .unreadable path e.message)
  let name := (fileStem? path).getD path
  return (name, ← store.load name path text)

/-- Loads files in turn, up to the first that fails. -/
def loadFiles (store : PlanStore) (tree : FileTree) (paths : List String) :
    Except PlanError PlanStore :=
  paths.foldlM (fun store path => (store.loadFile tree path).map (·.2)) store

def find (store : PlanStore) (name : String) : Except PlanError Plan := do
  let name ←
    if name = "" then
      match store.first with
      | some first => pure first
      | none => throw .noPlans
    else pure name
  match store.plans[name]? with
  | some plan => return plan
  | none => throw (.unknownPlan name)

def names (store : PlanStore) : List String := store.plans.keys

def isEmpty (store : PlanStore) : Bool := store.plans.isEmpty

def defaultName : String := "default"

/-- A plan that needs no files. -/
def defaultText : String :=
  "kpi:
  freq: 5s
  collect:
    status.global:
      metrics:
        - queries
        - threads_running
    host.cpu:
      metrics:
        - usage
standard:
  freq: 20s
  collect:
    status.global:
      metrics:
        - threads_connected
        - bytes_received
        - bytes_sent
        - slow_queries
    host.memory:
      metrics:
        - used_percent
host:
  freq: 60s
  collect:
    host.load:
      metrics:
        - load1
        - load5
        - load15
    host.memory:
      metrics:
        - total
        - swap_percent
"

def withDefault (store : PlanStore) : Except PlanError PlanStore :=
  store.load defaultName "builtin" defaultText

end PlanStore

end Cadence
