import Cadence.Json.Basic

/-!
Writing JSON on one line, without blanks.

In a string only the quote, the backslash and the control characters are
escaped, with the short escapes where there are any.
-/

namespace Cadence

namespace JsonNumber

def renderDigits (digits : List Nat) : List Char := digits.map Nat.digitChar

def render (n : JsonNumber) : List Char :=
  (if n.negative then ['-'] else []) ++ renderDigits n.whole ++
    (if n.fraction.isEmpty then [] else '.' :: renderDigits n.fraction) ++
    match n.exponent with
    | none => []
    | some (.ofNat e) => 'e' :: '+' :: Nat.toDigits 10 e
    | some (.negSucc e) => 'e' :: '-' :: Nat.toDigits 10 (e + 1)

end JsonNumber

namespace Json

def escapeChar (c : Char) : List Char :=
  match c with
  | '"' => ['\\', '"']
  | '\\' => ['\\', '\\']
  | '\x08' => ['\\', 'b']
  | '\x0c' => ['\\', 'f']
  | '\n' => ['\\', 'n']
  | '\r' => ['\\', 'r']
  | '\t' => ['\\', 't']
  | c =>
      if c < ' ' then
        ['\\', 'u', '0', '0', Nat.digitChar (c.toNat / 16), Nat.digitChar (c.toNat % 16)]
      else [c]

def quote (s : String) : List Char :=
  '"' :: s.toList.flatMap escapeChar ++ ['"']

mutual

def renderChars : Json → List Char
  | .null => "null".toList
  | .bool true => "true".toList
  | .bool false => "false".toList
  | .number n => n.render
  | .string s => quote s
  | .unpaired => "null".toList
  | .list [] => ['[', ']']
  | .list (item :: items) => '[' :: renderChars item ++ renderItems items
  | .object [] => ['{', '}']
  | .object ((name, value) :: fields) =>
      '{' :: quote name ++ ':' :: renderChars value ++ renderFields fields

def renderItems : List Json → List Char
  | [] => [']']
  | item :: items => ',' :: renderChars item ++ renderItems items

def renderFields : List (String × Json) → List Char
  | [] => ['}']
  | (name, value) :: fields =>
      ',' :: quote name ++ ':' :: renderChars value ++ renderFields fields

end

def render (v : Json) : String := String.ofList v.renderChars

end Json

end Cadence
