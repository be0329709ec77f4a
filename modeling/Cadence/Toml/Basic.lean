import Cadence.Json.Basic

/-!
TOML values and the tables that its lines build up.

A table remembers how it came about, because that decides whether a later line
may add to it: one that only lies on the path of a header may still get a header
of its own, and one that dotted keys made may get more dotted keys.
-/

namespace Cadence

namespace Toml

inductive Origin where
  /-- Written out under a header or in braces. -/
  | written
  /-- On the path of a header. -/
  | implied
  /-- On the path of a dotted key. -/
  | dotted
  deriving DecidableEq, Repr

end Toml

inductive Toml where
  | string (value : String)
  | integer (value : Int)
  | float
  | boolean (value : Bool)
  | time
  | list (items : List Toml)
  | table (origin : Toml.Origin) (fields : List (String × Toml))
  /-- A table in braces, to which nothing is added. -/
  | braces (fields : List (String × Toml))
  /-- The tables under headers in double brackets, last first. -/
  | tables (items : List Toml)
  deriving Inhabited

namespace Toml

abbrev Fields := List (String × Toml)

def replace (fields : Fields) (key : String) (v : Toml) : Fields :=
  if (fields.lookup key).isSome then fields.map (fun f => if f.1 = key then (key, v) else f)
  else fields ++ [(key, v)]

/-- Changes the table at the end of a path of headers. -/
def underHeaders (change : Fields → Option Fields) : List String → Fields → Option Fields
  | [], fields => change fields
  | key :: path, fields =>
      match fields.lookup key with
      | none => do
          return replace fields key (.table .implied (← underHeaders change path []))
      | some (.table origin inner) => do
          return replace fields key (.table origin (← underHeaders change path inner))
      | some (.tables (.table origin inner :: earlier)) => do
          let last := .table origin (← underHeaders change path inner)
          return replace fields key (.tables (last :: earlier))
      | _ => none

/-- Binds the last name of a dotted key in the table at the end of the names before it. -/
def addDotted (v : Toml) : List String → Origin → Fields → Option Fields
  | [], _, _ => none
  | [key], _, fields =>
      if (fields.lookup key).isSome then none else some (fields ++ [(key, v)])
  | key :: next :: path, _, fields =>
      let deeper (origin : Origin) (inner : Fields) : Option Fields :=
        if path.isEmpty && origin ≠ .dotted then none
        else addDotted v (next :: path) origin inner
      match fields.lookup key with
      | none => do
          return replace fields key (.table .dotted (← deeper .dotted []))
      | some (.table origin inner) =>
          if origin = .written then none
          else do return replace fields key (.table origin (← deeper origin inner))
      | some (.tables (.table origin inner :: earlier)) => do
          return replace fields key (.tables (.table origin (← deeper origin inner) :: earlier))
      | _ => none

/-- Binds dotted keys in turn. -/
def addPairs (pairs : List (List String × Toml)) (fields : Fields) : Option Fields :=
  pairs.foldlM (fun fields (path, v) => addDotted v path .written fields) fields

/-- A header with the pairs under it, or the pairs in front of all headers. -/
inductive Section where
  | top (pairs : List (List String × Toml))
  | table (path : List String) (key : String) (pairs : List (List String × Toml))
  | element (path : List String) (key : String) (pairs : List (List String × Toml))

def addSection (root : Fields) : Section → Option Fields
  | .top pairs => addPairs pairs root
  | .table path key pairs =>
      underHeaders (fun fields => do
        let start ← match fields.lookup key with
          | none => some []
          | some (.table .implied inner) => some inner
          | _ => none
        return replace fields key (.table .written (← addPairs pairs start))) path root
  | .element path key pairs =>
      underHeaders (fun fields => do
        let earlier ← match fields.lookup key with
          | none => some []
          | some (.tables items) => some items
          | _ => none
        return replace fields key (.tables (.table .written (← addPairs pairs []) :: earlier)))
        path root

mutual

/-- The same data in JSON; a time is a record of its own and a float has no use. -/
def toJson : Toml → Json
  | .string s => .string s
  | .integer n => .ofInt n
  | .float => .null
  | .boolean b => .bool b
  | .time => .object []
  | .list items => .list (itemsToJson items)
  | .table _ fields => .object (fieldsToJson fields)
  | .braces fields => .object (fieldsToJson fields)
  | .tables items => .list (itemsToJson items).reverse

def itemsToJson : List Toml → List Json
  | [] => []
  | v :: rest => v.toJson :: itemsToJson rest

def fieldsToJson : List (String × Toml) → List (String × Json)
  | [] => []
  | (key, v) :: rest => (key, v.toJson) :: fieldsToJson rest

end

end Toml

end Cadence
