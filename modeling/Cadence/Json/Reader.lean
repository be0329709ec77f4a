import Cadence.Json.Token
import Cadence.Json.Number

/-!
From lexemes to a value.

The reader goes through the lexemes once and keeps the containers that are still
open on a stack, innermost first.
-/

namespace Cadence.Json

/-- An open container with what it holds so far, last first. -/
inductive Open where
  | list (items : List Json)
  | object (fields : List (String × Json))
  /-- An object in which the value of `name` is still to come. -/
  | field (name : String) (fields : List (String × Json))

inductive ReadState where
  | value (stack : List Open)
  /-- Just behind an opening bracket. -/
  | firstItem (stack : List Open)
  /-- Just behind an opening brace. -/
  | firstField (stack : List Open)
  /-- Behind a comma of an object. -/
  | nextField (fields : List (String × Json)) (stack : List Open)
  | colon (name : String) (fields : List (String × Json)) (stack : List Open)
  /-- Behind a value in an open container. -/
  | behind (stack : List Open)
  | done (value : Json)

/-- Hands a finished value to the innermost open container. -/
def put (v : Json) : List Open → ReadState
  | [] => .done v
  | .list items :: stack => .behind (.list (v :: items) :: stack)
  | .field name fields :: stack => .behind (.object ((name, v) :: fields) :: stack)
  | .object fields :: stack => .behind (.object fields :: stack)

/-- A lexeme where a value is due. -/
def readValue (t : Token) (stack : List Open) : Option ReadState :=
  match t with
  | .null => some (put .null stack)
  | .bool b => some (put (.bool b) stack)
  | .number n => some (put (.number n) stack)
  | .string s => some (put (.string s) stack)
  | .unpaired => some (put .unpaired stack)
  | .openBracket => some (.firstItem stack)
  | .openBrace => some (.firstField stack)
  | _ => none

def readStep (state : ReadState) (t : Token) : Option ReadState :=
  match state, t with
  | .value stack, t => readValue t stack
  | .firstItem stack, .closeBracket => some (put (.list []) stack)
  | .firstItem stack, t => readValue t (.list [] :: stack)
  | .firstField stack, .closeBrace => some (put (.object []) stack)
  | .firstField stack, .string name => some (.colon name [] stack)
  | .nextField fields stack, .string name => some (.colon name fields stack)
  | .colon name fields stack, .colon => some (.value (.field name fields :: stack))
  | .behind (.list items :: stack), .comma => some (.value (.list items :: stack))
  | .behind (.list items :: stack), .closeBracket => some (put (.list items.reverse) stack)
  | .behind (.object fields :: stack), .comma => some (.nextField fields stack)
  | .behind (.object fields :: stack), .closeBrace => some (put (.object fields.reverse) stack)
  | _, _ => none

/-- The value of a JSON text; none if the text is not JSON. -/
def parse? (text : String) : Option Json := do
  let tokens ← scan text.toList
  match ← tokens.foldlM readStep (.value []) with
  | .done v => some v
  | _ => none

end Cadence.Json
