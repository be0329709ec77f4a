import Cadence.Plan.Basic

/-!
What each level of a plan asks one domain for.

A collector keeps two such sets: the live one, from which it answers, and a
staged one for a plan that is being prepared.
-/

namespace Cadence

structure Selected where
  metrics : List String := []
  options : Table String String := ∅
  deriving DecidableEq, Inhabited

namespace Selected

def ofDomain (d : Domain) : Selected := { metrics := d.metrics, options := d.options }

/-- An empty metric list selects everything. -/
def wants (s : Selected) (metric : String) : Bool :=
  s.metrics.isEmpty || s.metrics.contains metric

def option? (s : Selected) (key : String) : Option String := s.options[key]?

end Selected

/-- What the levels of a plan select from `domain`, by level name. -/
def Plan.selections (plan : Plan) (domain : String) : Table String Selected :=
  .ofList (plan.levels.values.filterMap (fun level =>
    level.collect[domain]?.map (fun d => (level.name, .ofDomain d))))

structure Selection where
  live : Table String Selected := ∅
  staged : Option (Table String Selected) := none
  deriving DecidableEq, Inhabited

namespace Selection

/-- Stages what `plan` selects from `domain`, in place of an earlier staged set. -/
def stage (s : Selection) (plan : Plan) (domain : String) : Selection :=
  { s with staged := some (plan.selections domain) }

/-- Makes the staged set live, if there is one. -/
def commit (s : Selection) : Selection :=
  match s.staged with
  | some staged => { live := staged, staged := none }
  | none => s

def get? (s : Selection) (level : String) : Option Selected := s.live[level]?

end Selection

/-- What a collector can be asked for, for listings. -/
structure Help where
  domain : String
  description : String
  /-- Names of options and what they do. -/
  options : List (String × String) := []
  metrics : List String := []
  errorPolicies : List String := []
  deriving DecidableEq, Repr

end Cadence
