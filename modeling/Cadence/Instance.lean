import Cadence.Database
import Cadence.ErrorChain

/-!
Whether the monitored instance refuses writes.
-/

namespace Cadence

/-- How the read-only flag could not be read. -/
inductive ReadOnlyError where
  | query (reason : QueryError)
  | noRow
  | column (reason : QueryError)
  deriving DecidableEq, Repr

def ReadOnlyError.chain : ReadOnlyError → ErrorChain
  | query reason => ["querying @@read_only", reason.message]
  | noRow => ["@@read_only returned no row"]
  | column reason => [reason.message]

/-- The flag in the first row of an answer; any number but zero means read-only. -/
def readOnlyFlag (answer : QueryResult) : Except ReadOnlyError Bool := do
  let rows ← answer.mapError .query
  match rows with
  | [] => throw .noRow
  | row :: _ => return (← (row.integer "ro").mapError .column) ≠ 0

end Cadence
