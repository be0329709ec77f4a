import Cadence.Json.Basic
import Cadence.Table.Basic

/-!
Typed values from JSON.

A record may be written as an object, in which fields without a meaning are
passed over and none with one is repeated, or as the list of its fields in their
order, in which the last ones may be missing.
-/

namespace Cadence.Json

variable {α β : Type}

def text? : Json → Option String
  | .string s => some s
  | _ => none

def items? : Json → Option (List Json)
  | .list items => some items
  | _ => none

def texts? (v : Json) : Option (List String) := do
  (← v.items?).mapM text?

/-- A map from names; the last entry of a name counts, but all of them have to decode. -/
def table? (decode : Json → Option α) : Json → Option (Table String α)
  | .object fields => do
      return .ofList (← fields.mapM (fun (name, v) => (decode v).map (name, ·)))
  | _ => none

/-- The fields of a record that has fields of these names. -/
def record? (names : List String) : Json → Option (List (String × Json))
  | .object fields =>
      let known := fields.filter (·.1 ∈ names)
      if (known.map (·.1)).Nodup then some known else none
  | .list items => if items.length ≤ names.length then some (names.zip items) else none
  | _ => none

/-- The value of a field, or `absent` without it. -/
def field? (fields : List (String × Json)) (name : String) (absent : Option α)
    (decode : Json → Option α) : Option α :=
  match fields.lookup name with
  | some v => decode v
  | none => absent

def ofTexts (texts : List String) : Json := .list (texts.map .string)

def ofTable (encode : α → Json) (t : Table String α) : Json :=
  .object (t.toList.map (fun (name, v) => (name, encode v)))

/-- A field that is left out if its table is empty. -/
def fieldUnlessEmpty (name : String) (encode : α → Json) (t : Table String α) :
    List (String × Json) :=
  if t.isEmpty then [] else [(name, ofTable encode t)]

end Cadence.Json
