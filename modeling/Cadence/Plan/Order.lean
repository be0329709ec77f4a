import Cadence.Duration.Parser
import Cadence.Plan.Basic
import Cadence.Plan.Error

/-!
Validation of a plan and the order of its levels.

A plan is valid if every frequency is at least a second, no two levels share
one, and all metric names are well-formed.  Sorting lists the levels by
ascending frequency and, once per plan, folds each level into every coarser one:
a domain the coarser level lacks is copied, and of a domain it has the metric
lists are joined.
-/

namespace Cadence

/-- A level as the scheduler sees it: its name and its period in seconds. -/
structure SortedLevel where
  name : String
  freq : Nat
  deriving DecidableEq, Repr, Inhabited

namespace Plan

/-- The frequency of a level in whole seconds, with fractions cut off. -/
def freqSecs (plan : String) (level : Level) : Except PlanError Nat :=
  match Duration.parse (Text.trim level.freq) with
  | .error e => .error (.invalidFreq plan level.name level.freq e.message)
  | .ok d =>
      if d.secs = 0 then .error (.invalidFreq plan level.name level.freq "must be at least 1s")
      else .ok d.secs

def isMetricChar (c : Char) : Bool := c.isAlphanum || c = '_' || c = '-'

def isMetricName (name : String) : Bool := name.toList.all isMetricChar

/-- The first metric of a level, domain by domain, that is no metric name. -/
def badMetric? (level : Level) : Option (Domain × String) :=
  level.collect.values.findSome? (fun domain =>
    (domain.metrics.find? (fun m => !isMetricName m)).map (domain, ·))

/-- Checks the levels in turn; `seen` holds the names of the earlier ones by frequency. -/
def checkLevels (plan : String) (seen : Table Nat String) : List Level → Except PlanError Unit
  | [] => .ok ()
  | level :: rest => do
      let secs ← freqSecs plan level
      if let some first := seen[secs]? then
        throw (.duplicateFreq plan first level.name secs)
      if let some (domain, metric) := badMetric? level then
        throw (.invalidMetric plan level.name domain.name metric)
      checkLevels plan (seen.insert secs level.name) rest

def validate (plan : Plan) : Except PlanError Unit :=
  checkLevels plan.name ∅ plan.levels.values

/-- Puts a level in front of the first one that is coarser. -/
def insertByFreq (level : SortedLevel) : List SortedLevel → List SortedLevel
  | [] => [level]
  | other :: rest =>
      if level.freq < other.freq then level :: other :: rest
      else other :: insertByFreq level rest

def byFreq (levels : List SortedLevel) : List SortedLevel :=
  levels.foldl (fun sorted level => insertByFreq level sorted) []

/-- The domains of a coarser level once those of a finer one are folded in. -/
def fold (finer coarser : Table String Domain) : Table String Domain :=
  finer.toList.foldl
    (fun collect (name, domain) =>
      match collect[name]? with
      | some own => collect.insert name { own with metrics := own.metrics ++ domain.metrics }
      | none => collect.insert name domain)
    coarser

/-- Folds the level named `finer` into the one named `coarser`. -/
def foldLevel (levels : Table String Level) (finer coarser : String) : Table String Level :=
  match levels[finer]?, levels[coarser]? with
  | some source, some target =>
      levels.insert coarser { target with collect := fold source.collect target.collect }
  | _, _ => levels

/-- Folds every level into all that come after it, the finest level first. -/
def inherit (levels : Table String Level) : List SortedLevel → Table String Level
  | [] => levels
  | level :: rest =>
      inherit (rest.foldl (fun levels other => foldLevel levels level.name other.name) levels) rest

/-- The levels by ascending frequency, and the plan with inheritance applied. -/
def sort (plan : Plan) : Except PlanError (List SortedLevel × Plan) := do
  plan.validate
  let levels ← plan.levels.values.mapM (fun level => do
    return { name := level.name, freq := ← freqSecs plan.name level : SortedLevel })
  let sorted := byFreq levels
  if plan.inherited then return (sorted, plan)
  return (sorted, { plan with levels := inherit plan.levels sorted, inherited := true })

end Plan

/-- The coarsest of the levels, given by ascending frequency, that divides `tick`. -/
def dueLevel? (levels : List SortedLevel) (tick : Nat) : Option SortedLevel :=
  levels.reverse.find? (fun level => 0 < level.freq && tick % level.freq = 0)

end Cadence
