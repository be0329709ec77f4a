import Cadence.Json.Decode
import Cadence.Plan.Basic

/-!
The levels of a plan from JSON and to JSON.

Names are not written: a level and a domain take theirs from the keys they stand
under.  Empty options and error policies are left out.
-/

namespace Cadence

open Json (field? fieldUnlessEmpty)

def Domain.toJson (domain : Domain) : Json :=
  .object (fieldUnlessEmpty "options" .string domain.options ++
    [("metrics", .ofTexts domain.metrics)] ++
    fieldUnlessEmpty "errors" .string domain.errorPolicies)

def Domain.ofJson? (v : Json) : Option Domain := do
  let fields ← v.record? ["options", "metrics", "errors"]
  return {
    options := ← field? fields "options" (some ∅) (Json.table? Json.text?)
    metrics := ← field? fields "metrics" (some []) Json.texts?
    errorPolicies := ← field? fields "errors" (some ∅) (Json.table? Json.text?) }

def Level.toJson (level : Level) : Json :=
  .object [("freq", .string level.freq), ("collect", .ofTable Domain.toJson level.collect)]

def Level.ofJson? (v : Json) : Option Level := do
  let fields ← v.record? ["freq", "collect"]
  return {
    freq := ← field? fields "freq" none Json.text?
    collect := ← field? fields "collect" (some ∅) (Json.table? Domain.ofJson?) }

namespace Plan

def levelsToJson (plan : Plan) : Json := .ofTable Level.toJson plan.levels

def levelsOfJson? (v : Json) : Option (Table String Level) := v.table? Level.ofJson?

end Plan

end Cadence
