import Cadence.Yaml.Scalar

/-!
The lexemes of a YAML text.

Block structure is made explicit: indentation opens and closes blocks, and a key
in front of a colon is marked once the colon is seen.  For that the scanner
remembers, for every level of flow brackets, where a key may have begun; a key
has to lie on one line and within 1024 characters.
-/

namespace Cadence.Yaml

inductive Token where
  | streamEnd
  | version (major minor : Nat)
  | tagDirective (handle : String)
  | documentStart
  | documentEnd
  | blockSequenceStart
  | blockMappingStart
  | blockEnd
  | flowSequenceStart
  | flowSequenceEnd
  | flowMappingStart
  | flowMappingEnd
  | blockEntry
  | flowEntry
  | key
  | value
  | alias (name : String)
  | anchor (name : String)
  | tag (handle : String)
  | scalar (text : String) (plain : Bool)
  deriving DecidableEq, Repr

/-- Where a key may have begun. -/
structure PossibleKey where
  /-- The number of lexemes before it. -/
  position : Nat
  place : Cursor
  /-- Whether nothing but a key may stand there. -/
  required : Bool

structure Scanner where
  cursor : Cursor
  /-- The lexemes so far, last first, and their number. -/
  found : List Token := []
  count : Nat := 0
  /-- The columns of the open blocks, innermost first. -/
  blocks : List Nat := []
  /-- For the block level and every open flow bracket, innermost first. -/
  keys : List (Option PossibleKey) := [none]
  keyAllowed : Bool := true

namespace Scanner

def inFlow (s : Scanner) : Bool := 1 < s.keys.length

def indent? (s : Scanner) : Option Nat := s.blocks.head?

def push (s : Scanner) (t : Token) : Scanner :=
  { s with found := t :: s.found, count := s.count + 1 }

/-- Puts a lexeme in front of the last `count - position` ones. -/
def insertAt (s : Scanner) (position : Nat) (t : Token) : Scanner :=
  let behind := s.count - position
  { s with
    found := s.found.take behind ++ t :: s.found.drop behind
    count := s.count + 1 }

def moveTo (s : Scanner) (c : Cursor) : Scanner := { s with cursor := c }

/-- Opens a block at `column`, if that is further right than the innermost one. -/
def openBlock (s : Scanner) (column : Nat) (position : Nat) (t : Token) : Scanner :=
  if !s.inFlow && s.indent?.elim true (· < column) then
    { s with blocks := column :: s.blocks }.insertAt position t
  else s

/-- Closes the blocks that lie right of `column`. -/
def closeBlocks (s : Scanner) (keeps : Nat → Bool) : Scanner :=
  if s.inFlow then s
  else
    let closed := (s.blocks.takeWhile (fun b => !keeps b)).length
    { s with
      blocks := s.blocks.drop closed
      found := List.replicate closed .blockEnd ++ s.found
      count := s.count + closed }

def isStale (c : Cursor) (key : PossibleKey) : Bool :=
  key.place.line < c.line || key.place.index + 1024 < c.index

/-- Gives up the keys that can no longer be completed; none if one of them had to be. -/
def dropStaleKeys (s : Scanner) : Option Scanner :=
  let stale (k : Option PossibleKey) : Bool := k.elim false (isStale s.cursor)
  if s.keys.any (fun k => stale k && k.elim false (·.required)) then none
  else some { s with keys := s.keys.map (fun k => if stale k then none else k) }

/-- Gives up the key of the current level; none if it had to be one. -/
def dropKey (s : Scanner) : Option Scanner :=
  match s.keys with
  | [] => some s
  | k :: keys =>
      if k.elim false (·.required) then none else some { s with keys := none :: keys }

/-- Notes that a key may begin here. -/
def noteKey (s : Scanner) : Option Scanner :=
  if s.keyAllowed then do
    let required := !s.inFlow && s.indent? = some s.cursor.column
    let s ← s.dropKey
    return { s with
      keys := some ⟨s.count, s.cursor, required⟩ :: s.keys.drop 1 }
  else some s

def allowKey (s : Scanner) (allowed : Bool) : Scanner := { s with keyAllowed := allowed }

/-- Passes blanks, comments and line breaks; the bound is the number of characters left. -/
def skipSpace : Nat → Scanner → Scanner
  | 0, s => s
  | fuel + 1, s =>
      let c := s.cursor
      let c := if c.column = 0 && c.sees '\uFEFF' then c.skip else c
      let c := c.skipWhile (fun x => x = ' ' || ((s.inFlow || !s.keyAllowed) && x = '\t'))
      let c := c.skipComment
      if c.seesBreak then
        skipSpace fuel { s with cursor := c.skipBreak, keyAllowed := s.keyAllowed || !s.inFlow }
      else { s with cursor := c }

def number? (c : Cursor) : Option (Nat × Cursor) :=
  let (digits, behind) := c.takeWhile Char.isDigit
  if digits.isEmpty || 9 < digits.length then none
  else some (digits.foldl (fun n d => n * 10 + (d.toNat - '0'.toNat)) 0, behind)

def isUriChar (x : Char) : Bool :=
  isWordChar x || x ∈ [';', '/', '?', ':', '@', '&', '=', '+', '$', '.', '%', '!', '~', '*',
    '\'', '(', ')']

/-- Escaped bytes in a tag have two hexadecimal digits each. -/
def escapesComplete : List Char → Bool
  | [] => true
  | '%' :: a :: b :: rest => (hexDigit? a).isSome && (hexDigit? b).isSome && escapesComplete rest
  | '%' :: _ => false
  | _ :: rest => escapesComplete rest

/-- The rest of a tag; it must not be empty unless something stands in front of it. -/
def tagRest (c : Cursor) (inBrackets started : Bool) : Option Cursor :=
  let (text, behind) :=
    c.takeWhile (fun x => isUriChar x || (inBrackets && (x = ',' || x = '[' || x = ']')))
  if (text.isEmpty && !started) || !escapesComplete text then none else some behind

/-- `!`, or a word between two of them; without the second one, `!` and the word. -/
def tagHandle (c : Cursor) : Option (List Char × Bool × Cursor) :=
  if !c.sees '!' then none
  else
    let (word, behind) := c.skip.takeWhile isWordChar
    if behind.sees '!' then some ('!' :: word ++ ['!'], true, behind.skip)
    else some ('!' :: word, false, behind)

def directive (s : Scanner) : Option Scanner := do
  let s ← (s.closeBlocks (fun _ => false)).dropKey
  let s := s.allowKey false
  let (name, c) := s.cursor.skip.takeWhile isWordChar
  if name.isEmpty || !c.blankAt 0 then failure
  let (token, c) ←
    if name = "YAML".toList then do
      let (major, c) ← number? c.skipGaps
      if !c.sees '.' then failure
      let (minor, c) ← number? c.skip
      some (Token.version major minor, c)
    else if name = "TAG".toList then do
      let (handle, complete, c) ← tagHandle c.skipGaps
      if !complete && handle ≠ ['!'] then failure
      if !c.seesGap then failure
      let c ← tagRest c.skipGaps true false
      if !c.blankAt 0 then failure
      some (Token.tagDirective (String.ofList handle), c)
    else none
  let c := c.skipGaps.skipComment
  if !c.lineEnds then failure
  return (s.moveTo c.skipBreak).push token

def documentMarker (s : Scanner) (t : Token) : Option Scanner := do
  let s ← (s.closeBlocks (fun _ => false)).dropKey
  return ((s.allowKey false).moveTo (s.cursor.skipMany 3)).push t

def flowStart (s : Scanner) (t : Token) : Option Scanner := do
  let s ← s.noteKey
  return ({ s with keys := none :: s.keys, keyAllowed := true }.moveTo s.cursor.skip).push t

def flowEnd (s : Scanner) (t : Token) : Option Scanner := do
  let s ← s.dropKey
  let keys := if s.inFlow then s.keys.drop 1 else s.keys
  return ({ s with keys, keyAllowed := false }.moveTo s.cursor.skip).push t

def flowEntry (s : Scanner) : Option Scanner := do
  let s ← s.dropKey
  return ((s.allowKey true).moveTo s.cursor.skip).push .flowEntry

def blockEntry (s : Scanner) : Option Scanner := do
  if !s.inFlow && !s.keyAllowed then failure
  let s ← (s.openBlock s.cursor.column s.count .blockSequenceStart).dropKey
  return ((s.allowKey true).moveTo s.cursor.skip).push .blockEntry

def explicitKey (s : Scanner) : Option Scanner := do
  if !s.inFlow && !s.keyAllowed then failure
  let s ← (s.openBlock s.cursor.column s.count .blockMappingStart).dropKey
  return ((s.allowKey !s.inFlow).moveTo s.cursor.skip).push .key

def value (s : Scanner) : Option Scanner := do
  let s ← match s.keys.head?.join with
    | some k =>
        if isStale s.cursor k then none
        else
          let s := (s.insertAt k.position .key).openBlock k.place.column k.position .blockMappingStart
          some { s with keys := none :: s.keys.drop 1, keyAllowed := false }
    | none =>
        if !s.inFlow && !s.keyAllowed then none
        else
          some ((s.openBlock s.cursor.column s.count .blockMappingStart).allowKey !s.inFlow)
  return (s.moveTo s.cursor.skip).push .value

/-- An alias or an anchor: a word behind its indicator. -/
def named (s : Scanner) (t : String → Token) : Option Scanner := do
  let s ← s.noteKey
  let (name, c) := s.cursor.skip.takeWhile isWordChar
  let ended := c.blankAt 0 ||
    c.peek.elim false (fun x => x ∈ ['?', ':', ',', ']', '\x7d', '%', '@', '\x60'])
  if name.isEmpty || !ended then failure
  return ((s.allowKey false).moveTo c).push (t (String.ofList name))

def tag (s : Scanner) : Option Scanner := do
  let s ← s.noteKey
  let (handle, c) ←
    if s.cursor.seesAt 1 '<' then do
      let c ← tagRest (s.cursor.skipMany 2) true false
      if !c.sees '>' then none else some ("", c.skip)
    else do
      let (handle, complete, c) ← tagHandle s.cursor
      if complete then
        let c ← tagRest c false false
        some (String.ofList handle, c)
      else
        let c ← tagRest c false true
        some ("!", c)
  if !c.blankAt 0 && !(s.inFlow && c.sees ',') then failure
  return ((s.allowKey false).moveTo c).push (.tag handle)

def block (s : Scanner) (literal : Bool) : Option Scanner := do
  let s ← s.dropKey
  let (text, c) ← blockScalar literal s.indent? s.cursor
  return ((s.allowKey true).moveTo c).push (.scalar (String.ofList text) false)

def quoted (s : Scanner) (single : Bool) : Option Scanner := do
  let s ← s.noteKey
  let (text, c) ← quotedScalar single s.cursor
  return ((s.allowKey false).moveTo c).push (.scalar (String.ofList text) false)

def plain (s : Scanner) : Option Scanner := do
  let s ← s.noteKey
  let (text, broken, c) ← plainScalar s.inFlow (s.indent?.elim 0 (· + 1)) s.cursor
  return ((s.allowKey broken).moveTo c).push (.scalar (String.ofList text) true)

/-- Whether a plain scalar may start with `x`, behind which the cursor `next` stands. -/
def startsPlain (inFlow : Bool) (x : Char) (next : Cursor) : Bool :=
  if x = '-' then !next.seesGap
  else if x = '?' || x = ':' then !inFlow && !next.blankAt 0
  else
    x ∉ [',', '[', ']', '\x7b', '\x7d', '#', '&', '*', '!', '|', '>', '\'', '"', '%', '@', '\x60'] &&
      !isGap x && !isBreak x

/-- Takes the lexeme that starts with `x`. -/
def fetch (s : Scanner) (x : Char) : Option Scanner :=
  let c := s.cursor
  if c.column = 0 && x = '%' then s.directive
  else if c.seesMarker '-' then s.documentMarker .documentStart
  else if c.seesMarker '.' then s.documentMarker .documentEnd
  else if x = '[' then s.flowStart .flowSequenceStart
  else if x = '\x7b' then s.flowStart .flowMappingStart
  else if x = ']' then s.flowEnd .flowSequenceEnd
  else if x = '\x7d' then s.flowEnd .flowMappingEnd
  else if x = ',' then s.flowEntry
  else if x = '-' && c.blankAt 1 then s.blockEntry
  else if x = '?' && (s.inFlow || c.blankAt 1) then s.explicitKey
  else if x = ':' && (s.inFlow || c.blankAt 1) then s.value
  else if x = '*' then s.named .alias
  else if x = '&' then s.named .anchor
  else if x = '!' then s.tag
  else if x = '|' && !s.inFlow then s.block true
  else if x = '>' && !s.inFlow then s.block false
  else if x = '\'' then s.quoted true
  else if x = '"' then s.quoted false
  else if startsPlain s.inFlow x c.skip then s.plain
  else none

def finish (s : Scanner) : Option (List Token) := do
  let s ← (s.closeBlocks (fun _ => false)).dropKey
  return (s.push .streamEnd).found.reverse

/-- Takes lexemes to the end; every one takes at least one character. -/
def run : Nat → Scanner → Option (List Token)
  | 0, _ => none
  | fuel + 1, s => do
      let s ← (skipSpace (s.cursor.rest.length + 1) s).dropStaleKeys
      let s := s.closeBlocks (fun b => b ≤ s.cursor.column)
      match s.cursor.peek with
      | none => s.finish
      | some x => run fuel (← s.fetch x)

end Scanner

/-- All lexemes of a text, or none if it is not YAML. -/
def scan (text : List Char) : Option (List Token) :=
  if text.all isAllowed then
    Scanner.run (text.length + 1) { cursor := Cursor.ofText text }
  else none

end Cadence.Yaml
