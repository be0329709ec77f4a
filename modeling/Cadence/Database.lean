import Cadence.Table.Basic

/-!
Answers of a database, and what can go wrong with them.
-/

namespace Cadence

inductive Cell where
  | null
  | text (value : String)
  | integer (value : Int)
  deriving DecidableEq, Repr

/-- A row by column name. -/
abbrev Row := Table String Cell

inductive QueryError where
  /-- The database refused the query with this text. -/
  | refused (text : String)
  /-- There was no result at all. -/
  | noResult
  /-- A column is missing, NULL or of another type. -/
  | unreadable (column : String)
  deriving DecidableEq, Repr

abbrev QueryResult := Except QueryError (List Row)

def QueryError.message : QueryError → String
  | refused text => s!"Custom Error: {text}"
  | noResult => "no result"
  | unreadable column => s!"column {column} cannot be read"

namespace Row

def text (row : Row) (column : String) : Except QueryError String :=
  match row[column]? with
  | some (.text s) => .ok s
  | _ => .error (.unreadable column)

def integer (row : Row) (column : String) : Except QueryError Int :=
  match row[column]? with
  | some (.integer n) => .ok n
  | _ => .error (.unreadable column)

end Row

end Cadence
