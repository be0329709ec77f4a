import Cadence.Table.Basic

/-!
Collection plans.

A plan is a named set of levels.  A level asks for domains at its own frequency,
and for each domain it lists metrics and options.  Names are carried in the
values as well as in the keys, so that a level can be handed on by itself.
-/

namespace Cadence

/-- What a level asks one domain for.  An empty metric list asks for everything. -/
structure Domain where
  name : String := ""
  options : Table String String := ∅
  metrics : List String := []
  errorPolicies : Table String String := ∅
  deriving DecidableEq, Inhabited

structure Level where
  name : String := ""
  /-- A duration such as `5s` or `1m`. -/
  freq : String
  collect : Table String Domain := ∅
  deriving DecidableEq, Inhabited

structure Plan where
  name : String
  /-- Where the plan came from: the path of its file, or a word for a plan that has none. -/
  source : String
  levels : Table String Level
  /-- Whether finer levels have been folded into the coarser ones. -/
  inherited : Bool
  deriving DecidableEq, Inhabited

namespace Plan

/-- The level and its domains named by their keys. -/
def nameLevel (key : String) (level : Level) : Level :=
  { level with
    name := key
    collect := level.collect.map (fun name domain => { domain with name }) }

/-- A plan in which every level and domain bears the name of its key. -/
def ofLevels (name source : String) (levels : Table String Level) : Plan :=
  { name, source, levels := levels.map nameLevel, inherited := false }

/-- Every domain that some level collects, once each, in ascending order. -/
def domains (plan : Plan) : List String :=
  (plan.levels.values.foldl
    (fun (names : Table String Unit) level =>
      level.collect.keys.foldl (fun names d => names.insert d ()) names) ∅).keys

/-- The levels that collect `domain`, in key order. -/
def levelsWith (plan : Plan) (domain : String) : List Level :=
  plan.levels.values.filter (fun level => level.collect.contains domain)

end Plan

end Cadence
