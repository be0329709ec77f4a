import Cadence.Plan.Basic

/-!
Changes to the levels of a plan.

An edit leaves alone whether inheritance has been applied.
-/

namespace Cadence.Plan

/-- Gives a level another frequency; none if the plan has no such level. -/
def setFreq? (plan : Plan) (name freq : String) : Option Plan :=
  plan.levels[name]?.map (fun level =>
    { plan with levels := plan.levels.insert name { level with freq } })

/-- Appends a metric to a domain of a level; a domain that is missing starts out empty. -/
def pushMetric? (plan : Plan) (name domain metric : String) : Option Plan :=
  plan.levels[name]?.map (fun level =>
    let d : Domain := level.collect[domain]?.getD {}
    let collect := level.collect.insert domain { d with metrics := d.metrics ++ [metric] }
    { plan with levels := plan.levels.insert name { level with collect } })

def removeLevel (plan : Plan) (name : String) : Plan :=
  { plan with levels := plan.levels.erase name }

/-- Puts a level under its name, which it takes over. -/
def insertLevel (plan : Plan) (name : String) (level : Level) : Plan :=
  { plan with levels := plan.levels.insert name { level with name } }

end Cadence.Plan
