import Cadence.Database
import Cadence.Decimal.Reader
import Cadence.ErrorChain
import Cadence.Metric.Basic
import Cadence.Selection
import Cadence.Text.Basic

/-!
The collector of the database's global status variables.

A variable is reported under its lower-cased name, and only if its value reads
as a number.
-/

namespace Cadence.GlobalStatus

def domain : String := "status.global"

/-- The variables that are values of the moment; all others count up. -/
def gauges : List String :=
  ["threads_running", "threads_connected", "threads_cached", "open_files", "open_tables",
    "max_used_connections", "innodb_buffer_pool_pages_dirty", "innodb_buffer_pool_pages_free"]

def help : Help where
  domain := domain
  description := "Global status variables"
  options := [("all", "yes: collect every numeric status variable, ignoring the metric list")]

inductive Failure where
  | query (reason : QueryError)
  | column (reason : QueryError)
  deriving DecidableEq, Repr

def Failure.chain : Failure → ErrorChain
  | query reason => ["SHOW GLOBAL STATUS", reason.message]
  | column reason => [reason.message]

/-- Whether a selection asks for the variable with this lower-cased name. -/
def asksFor (s : Selected) (name : String) : Bool :=
  s.option? "all" = some "yes" || s.wants name

/-- The value a row contributes, if any. -/
def readRow (s : Selected) (row : Row) : Except Failure (Option MetricValue) := do
  let name := Text.lower (← (row.text "Variable_name").mapError .column)
  if !asksFor s name then return none
  let text ← (row.text "Value").mapError .column
  return (parseFloat? (Text.trim text)).map (fun value =>
    if name ∈ gauges then .gauge name value else .counter name value)

def readRows (s : Selected) (rows : List Row) : Except Failure (List MetricValue) := do
  return (← rows.mapM (readRow s)).filterMap id

/-- What a level gets out of the answer to the query for all variables; nothing, whatever the
answer, if it selects nothing from the domain. -/
def collect (selected : Option Selected) (answer : QueryResult) :
    Except Failure (List MetricValue) :=
  match selected with
  | none => .ok []
  | some s => do readRows s (← answer.mapError .query)

end Cadence.GlobalStatus
