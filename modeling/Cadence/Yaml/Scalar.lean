import Cadence.Yaml.Cursor

/-!
Scalars of a YAML text: plain, quoted and block.

Inside a flow of lines a single line break reads as a blank and each further one
as itself.  Loops are bounded by the number of characters that are left, of
which every round takes at least one.
-/

namespace Cadence.Yaml

/-- Gaps and line breaks between two pieces of a scalar. -/
structure Spacing where
  /-- Gaps on the line of the piece before. -/
  gaps : List Char := []
  firstBreak : List Char := []
  moreBreaks : List Char := []
  /-- Whether a line break has been passed. -/
  broken : Bool := false
  deriving DecidableEq, Repr

/-- How spacing reads between two pieces. -/
def Spacing.fold (s : Spacing) : List Char :=
  if s.broken then
    if s.firstBreak = ['\n'] then (if s.moreBreaks.isEmpty then [' '] else s.moreBreaks)
    else s.firstBreak ++ s.moreBreaks
  else s.gaps

/-- Passes gaps and breaks; none if a tab stands where only indentation may. -/
def spacing (indent : Option Nat) : Nat → Cursor → Spacing → Option (Spacing × Cursor)
  | 0, c, s => some (s, c)
  | fuel + 1, c, s =>
      match c.peek with
      | none => some (s, c)
      | some x =>
          if isGap x then
            if s.broken then
              if x = '\t' && indent.elim false (c.column < ·) then none
              else spacing indent fuel c.skip s
            else spacing indent fuel c.skip { s with gaps := s.gaps ++ [x] }
          else if isBreak x then
            if s.broken then
              spacing indent fuel c.skipBreak { s with moreBreaks := s.moreBreaks ++ c.breakText }
            else
              spacing indent fuel c.skipBreak
                { s with gaps := [], firstBreak := c.breakText, broken := true }
          else some (s, c)

def isFlowIndicator (x : Char) : Bool :=
  x = ',' || x = '[' || x = ']' || x = '{' || x = '}'

/-- The non-blank characters in front that belong to a plain scalar. -/
def plainPiece (inFlow : Bool) : Nat → Cursor → List Char → Option (List Char × Cursor)
  | 0, c, piece => some (piece.reverse, c)
  | fuel + 1, c, piece =>
      match c.peek with
      | none => some (piece.reverse, c)
      | some x =>
          if c.blankAt 0 then some (piece.reverse, c)
          else if inFlow && x = ':' &&
              (c.peekAt 1).elim false (fun y => isFlowIndicator y || y = '?') then none
          else if (x = ':' && c.blankAt 1) || (inFlow && isFlowIndicator x) then
            some (piece.reverse, c)
          else plainPiece inFlow fuel c.skip (x :: piece)

/-- The rest of a plain scalar, whether it ended behind a line break, and the place behind it. -/
def plainRest (inFlow : Bool) (indent : Nat) :
    Nat → Cursor → List Char → Spacing → Option (List Char × Bool × Cursor)
  | 0, c, text, s => some (text, s.broken, c)
  | fuel + 1, c, text, s => do
      if c.seesDocumentMarker || c.sees '#' then return (text, s.broken, c)
      let (piece, c) ← plainPiece inFlow c.rest.length c []
      let text := if piece.isEmpty then text else text ++ s.fold ++ piece
      let s := if piece.isEmpty then s else {}
      if !(c.seesGap || c.seesBreak) then return (text, s.broken, c)
      let (s, c) ← spacing (some indent) c.rest.length c s
      if !inFlow && c.column < indent then return (text, s.broken, c)
      plainRest inFlow indent fuel c text s

/-- A plain scalar: its text, whether it ended behind a line break, and the place behind it. -/
def plainScalar (inFlow : Bool) (indent : Nat) (c : Cursor) :
    Option (List Char × Bool × Cursor) :=
  plainRest inFlow indent (c.rest.length + 1) c [] {}

def hexDigit? (x : Char) : Option Nat :=
  if x.isDigit then some (x.toNat - '0'.toNat)
  else if 'a' ≤ x ∧ x ≤ 'f' then some (x.toNat - 'a'.toNat + 10)
  else if 'A' ≤ x ∧ x ≤ 'F' then some (x.toNat - 'A'.toNat + 10)
  else none

/-- The character of a numeric escape with `digits` hexadecimal digits. -/
def hexEscape (c : Cursor) (digits : Nat) : Option (Char × Cursor) := do
  let found := c.rest.take digits
  if found.length ≠ digits then failure
  let n ← found.foldlM (fun n x => (hexDigit? x).map (n * 16 + ·)) 0
  if (0xD800 ≤ n && n ≤ 0xDFFF) || 0x10FFFF < n then failure
  return (Char.ofNat n, c.skipMany digits)

/-- The character that an escape stands for, given by the letter behind the backslash. -/
def namedEscape? (x : Char) : Option Char :=
  match x with
  | '0' => some '\x00'
  | 'a' => some '\x07'
  | 'b' => some '\x08'
  | 't' => some '\t'
  | '\t' => some '\t'
  | 'n' => some '\n'
  | 'v' => some '\x0b'
  | 'f' => some '\x0c'
  | 'r' => some '\r'
  | 'e' => some '\x1b'
  | ' ' => some ' '
  | '"' => some '"'
  | '/' => some '/'
  | '\\' => some '\\'
  | 'N' => some '\x85'
  | '_' => some (Char.ofNat 0xA0)
  | 'L' => some (Char.ofNat 0x2028)
  | 'P' => some (Char.ofNat 0x2029)
  | _ => none

def escape (c : Cursor) : Option (Char × Cursor) := do
  let x ← c.peek
  match x with
  | 'x' => hexEscape c.skip 2
  | 'u' => hexEscape c.skip 4
  | 'U' => hexEscape c.skip 8
  | x => return (← namedEscape? x, c.skip)

/-- The non-blank characters up to a gap, a break, the closing quote or an escaped line break. -/
def quotedPiece (single : Bool) :
    Nat → Cursor → List Char → Option (List Char × Bool × Cursor)
  | 0, c, piece => some (piece.reverse, false, c)
  | fuel + 1, c, piece =>
      match c.peek with
      | none => some (piece.reverse, false, c)
      | some x =>
          if c.blankAt 0 then some (piece.reverse, false, c)
          else if single then
            if x = '\'' then
              if c.seesAt 1 '\'' then quotedPiece single fuel (c.skipMany 2) ('\'' :: piece)
              else some (piece.reverse, false, c)
            else quotedPiece single fuel c.skip (x :: piece)
          else if x = '"' then some (piece.reverse, false, c)
          else if x = '\\' then
            if c.skip.seesBreak then some (piece.reverse, true, c.skip.skipBreak)
            else
              match escape c.skip with
              | some (y, c) => quotedPiece single fuel c (y :: piece)
              | none => none
          else quotedPiece single fuel c.skip (x :: piece)

def quotedRest (single : Bool) : Nat → Cursor → List Char → Option (List Char × Cursor)
  | 0, _, _ => none
  | fuel + 1, c, text => do
      if c.seesDocumentMarker || c.atEnd then failure
      let (piece, broken, c) ← quotedPiece single c.rest.length c []
      let text := text ++ piece
      if c.sees (if single then '\'' else '"') then return (text, c.skip)
      let (s, c) ← spacing none c.rest.length c { broken }
      quotedRest single fuel c (text ++ s.fold)

/-- A quoted scalar, from its opening quote on. -/
def quotedScalar (single : Bool) (c : Cursor) : Option (List Char × Cursor) :=
  quotedRest single (c.rest.length + 1) c.skip []

/-- What becomes of the line breaks at the end of a block scalar. -/
inductive Chomping where
  | strip
  | clip
  | keep
  deriving DecidableEq, Repr

structure BlockHeader where
  chomping : Chomping := .clip
  increment : Option Nat := none
  deriving DecidableEq, Repr

def chomping? (c : Cursor) : Option Chomping :=
  if c.sees '+' then some .keep else if c.sees '-' then some .strip else none

/-- An indentation digit; zero is refused. -/
def increment? (c : Cursor) : Option (Option Nat) :=
  match c.peek with
  | some x =>
      if x = '0' then none
      else if x.isDigit then some (some (x.toNat - '0'.toNat))
      else some none
  | none => some none

/-- The two header characters, in either order. -/
def blockHeader (c : Cursor) : Option (BlockHeader × Cursor) := do
  match chomping? c with
  | some chomping =>
      let increment ← increment? c.skip
      return ({ chomping, increment }, if increment.isSome then c.skip.skip else c.skip)
  | none =>
      match ← increment? c with
      | none => return ({}, c)
      | some n =>
          match chomping? c.skip with
          | some chomping => return ({ chomping, increment := some n }, c.skip.skip)
          | none => return ({ increment := some n }, c.skip)

/-- Passes indentation and empty lines; `indent` is zero while it is still to be found. -/
def blockBreaks (indent : Nat) :
    Nat → Cursor → Nat → List Char → Option (Nat × List Char × Cursor)
  | 0, c, widest, breaks => some (widest, breaks, c)
  | fuel + 1, c, widest, breaks =>
      let narrow (c : Cursor) : Bool := indent = 0 || c.column < indent
      let spaces := (c.rest.takeWhile (· = ' ')).length
      let c := c.skipMany (if indent = 0 then spaces else min spaces (indent - c.column))
      let widest := max widest c.column
      if narrow c && c.sees '\t' then none
      else if c.seesBreak then
        blockBreaks indent fuel c.skipBreak widest (breaks ++ c.breakText)
      else some (widest, breaks, c)

/-- The lines of a block scalar from the first one that is not empty. -/
def blockLines (literal : Bool) (indent : Nat) :
    Nat → Cursor → List Char → List Char → List Char → Bool →
      Option (List Char × List Char × List Char × Cursor)
  | 0, c, text, firstBreak, moreBreaks, _ => some (text, firstBreak, moreBreaks, c)
  | fuel + 1, c, text, firstBreak, moreBreaks, afterGap => do
      if c.column ≠ indent || c.atEnd then return (text, firstBreak, moreBreaks, c)
      let startsWithGap := c.seesGap
      let join :=
        if !literal && firstBreak = ['\n'] && !afterGap && !startsWithGap then
          (if moreBreaks.isEmpty then [' '] else [])
        else firstBreak
      let (line, c) := c.takeWhile (fun x => !isBreak x)
      let (_, more, next) ← blockBreaks indent (c.rest.length + 1) c.skipBreak 0 []
      blockLines literal indent fuel next (text ++ join ++ moreBreaks ++ line) c.breakText more
        startsWithGap

/-- A block scalar from its indicator on, in a block of indentation `outer`, if in any. -/
def blockScalar (literal : Bool) (outer : Option Nat) (c : Cursor) :
    Option (List Char × Cursor) := do
  let (header, c) ← blockHeader c.skip
  let c := c.skipGaps.skipComment
  if !c.lineEnds then failure
  let c := c.skipBreak
  let given := header.increment.elim 0 (· + outer.getD 0)
  let (widest, breaks, c) ← blockBreaks given (c.rest.length + 1) c 0 []
  let least := outer.elim 0 (· + 1)
  let indent := if given = 0 then max 1 (max widest least) else given
  let (text, firstBreak, moreBreaks, c) ←
    blockLines literal indent (c.rest.length + 1) c [] [] breaks false
  let tail := match header.chomping with
    | .strip => []
    | .clip => firstBreak
    | .keep => firstBreak ++ moreBreaks
  return (text ++ tail, c)

end Cadence.Yaml
