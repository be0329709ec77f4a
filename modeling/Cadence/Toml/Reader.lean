import Cadence.Toml.Scalar

/-!
From a TOML text to its table.

Lists and braces nest at most 79 deep.  Loops are bounded by the number of
characters, of which every round takes at least one.
-/

namespace Cadence.Toml

/-- A comment up to the end of its line. -/
def skipComment (cs : List Char) : List Char :=
  match cs with
  | '#' :: rest => rest.dropWhile isTextChar
  | cs => cs

/-- Nothing but blanks and a comment up to the end of the line. -/
def lineEnd? (cs : List Char) : Option (List Char) :=
  match skipComment (skipBlanks cs) with
  | [] => some []
  | cs => newline? cs

/-- Passes blanks, comments and line breaks between the items of a list. -/
def skipSpace : (fuel : Nat) → List Char → List Char
  | 0, cs => cs
  | fuel + 1, cs =>
      let cs := skipBlanks cs
      match newline? (skipComment cs) with
      | some rest => skipSpace fuel rest
      | none => cs

def isBareChar (c : Char) : Bool := c.isAlphanum || c = '_' || c = '-'

def key? (cs : List Char) : Option (String × List Char) :=
  match cs with
  | '"' :: _ | '\'' :: _ => shortString? cs
  | cs =>
      let name := cs.takeWhile isBareChar
      if name.isEmpty then none else some (String.ofList name, cs.drop name.length)

/-- Keys with dots between them, and the blanks behind. -/
def dottedKey? : (fuel : Nat) → List Char → Option (List String × List Char)
  | 0, _ => none
  | fuel + 1, cs => do
      let (key, cs) ← key? (skipBlanks cs)
      match skipBlanks cs with
      | '.' :: rest =>
          let (keys, rest) ← dottedKey? fuel rest
          return (key :: keys, rest)
      | rest => return ([key], rest)

mutual

def value? : (fuel depth : Nat) → List Char → Option (Toml × List Char)
  | 0, _, _ => none
  | fuel + 1, depth, cs =>
      match cs with
      | '"' :: _ | '\'' :: _ => (string? cs).map (fun (s, rest) => (.string s, rest))
      | '[' :: rest =>
          if depth ≤ 1 then none
          else (items? fuel (depth - 1) rest).map (fun (items, rest) => (.list items, rest))
      | '\x7b' :: rest =>
          if depth ≤ 1 then none
          else do
            let (pairs, rest) ← pairs? fuel (depth - 1) true rest
            return (.braces (← addPairs pairs []), rest)
      | cs =>
          let (token, rest) := word cs
          (wordValue? token).map (·, rest)

/-- The items up to the closing bracket, with commas between them and perhaps behind. -/
def items? : (fuel depth : Nat) → List Char → Option (List Toml × List Char)
  | 0, _, _ => none
  | fuel + 1, depth, cs =>
      match skipSpace (cs.length + 1) cs with
      | ']' :: rest => some ([], rest)
      | cs => do
          let (v, cs) ← value? fuel depth cs
          match skipSpace (cs.length + 1) cs with
          | ']' :: rest => return ([v], rest)
          | ',' :: rest =>
              let (items, rest) ← items? fuel depth rest
              return (v :: items, rest)
          | _ => failure

/-- The pairs up to the closing brace, all on one line and without a comma behind. -/
def pairs? : (fuel depth : Nat) → (first : Bool) → List Char →
    Option (List (List String × Toml) × List Char)
  | 0, _, _, _ => none
  | fuel + 1, depth, first, cs =>
      match first, skipBlanks cs with
      | true, '\x7d' :: rest => some ([], rest)
      | _, cs => do
          let (path, v, cs) ← pair? fuel depth cs
          match skipBlanks cs with
          | '\x7d' :: rest => return ([(path, v)], rest)
          | ',' :: rest =>
              let (pairs, rest) ← pairs? fuel depth false rest
              return ((path, v) :: pairs, rest)
          | _ => failure

def pair? : (fuel depth : Nat) → List Char → Option (List String × Toml × List Char)
  | 0, _, _ => none
  | fuel + 1, depth, cs => do
      match ← dottedKey? (cs.length + 1) cs with
      | (path, '=' :: rest) =>
          let (v, rest) ← value? fuel depth (skipBlanks rest)
          return (path, v, rest)
      | _ => failure

end

/-- The path in a header, and what follows the brackets that close it. -/
def header? (closing : List Char) (cs : List Char) : Option (List String × List Char) := do
  let (path, cs) ← dottedKey? (cs.length + 1) cs
  if closing.isPrefixOf cs then return (path, cs.drop closing.length) else failure

/-- Puts a pair under the header read last. -/
def Section.add (pair : List String × Toml) : Section → Section
  | .top pairs => .top (pairs ++ [pair])
  | .table path key pairs => .table path key (pairs ++ [pair])
  | .element path key pairs => .element path key (pairs ++ [pair])

/-- The sections of a text, given the one that is open. -/
def sections? : (fuel : Nat) → Section → List Char → Option (List Section)
  | 0, _, _ => none
  | fuel + 1, current, cs =>
      let opened (path : List String) (start : List String → String → Section)
          (cs : List Char) : Option (List Section) := do
        let key ← path.getLast?
        return current :: (← sections? fuel (start path.dropLast key) (← lineEnd? cs))
      match skipBlanks cs with
      | [] => some [current]
      | '[' :: '[' :: rest => do
          let (path, rest) ← header? [']', ']'] rest
          opened path (Section.element · · []) rest
      | '[' :: rest => do
          let (path, rest) ← header? [']'] rest
          opened path (Section.table · · []) rest
      | cs =>
          match lineEnd? cs with
          | some rest => sections? fuel current rest
          | none => do
              let (path, v, rest) ← pair? (2 * cs.length + 2) 80 cs
              sections? fuel (current.add (path, v)) (← lineEnd? rest)

/-- The table of a text, or none if it is not TOML. -/
def parse? (text : String) : Option Toml := do
  let cs := text.toList
  let cs := if cs.head? = some '\uFEFF' then cs.drop 1 else cs
  let sections ← sections? (cs.length + 1) (.top []) cs
  return .table .written (← sections.foldlM addSection [])

end Cadence.Toml
