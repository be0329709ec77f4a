/-!
A place in a YAML text.

Columns and lines count from zero.  A carriage return with the line feed behind
it is one line break; the next-line character and the two Unicode separators are
breaks as well.
-/

namespace Cadence.Yaml

structure Cursor where
  rest : List Char
  index : Nat
  line : Nat
  column : Nat
  deriving DecidableEq, Repr

def isBreak (c : Char) : Bool :=
  c = '\n' || c = '\r' || c = '\x85' || c.toNat = 0x2028 || c.toNat = 0x2029

def isGap (c : Char) : Bool := c = ' ' || c = '\t'

/-- A letter, a digit, `_` or `-`. -/
def isWordChar (c : Char) : Bool := c.isAlphanum || c = '_' || c = '-'

/-- The characters a YAML text may contain. -/
def isAllowed (c : Char) : Bool :=
  let n := c.toNat
  n = 0x09 || n = 0x0A || n = 0x0D || (0x20 ≤ n && n ≤ 0x7E) || n = 0x85 ||
    (0xA0 ≤ n && n ≤ 0xD7FF) || (0xE000 ≤ n && n ≤ 0xFFFD) || 0x10000 ≤ n

namespace Cursor

def ofText (text : List Char) : Cursor := ⟨text, 0, 0, 0⟩

def peek (c : Cursor) : Option Char := c.rest.head?

def peekAt (c : Cursor) (n : Nat) : Option Char := c.rest[n]?

def sees (c : Cursor) (x : Char) : Bool := c.peek = some x

def seesAt (c : Cursor) (n : Nat) (x : Char) : Bool := c.peekAt n = some x

def atEnd (c : Cursor) : Bool := c.rest.isEmpty

/-- Whether the character `n` places ahead is a gap, a break or the end. -/
def blankAt (c : Cursor) (n : Nat) : Bool :=
  match c.peekAt n with
  | none => true
  | some x => isGap x || isBreak x

/-- Whether the line ends here. -/
def lineEnds (c : Cursor) : Bool :=
  match c.peek with
  | none => true
  | some x => isBreak x

def seesGap (c : Cursor) : Bool := c.peek.elim false isGap

def seesBreak (c : Cursor) : Bool := c.peek.elim false isBreak

/-- One character on, within the line. -/
def skip (c : Cursor) : Cursor :=
  match c.rest with
  | [] => c
  | _ :: rest => ⟨rest, c.index + 1, c.line, c.column + 1⟩

def skipMany (c : Cursor) (n : Nat) : Cursor := n.repeat skip c

/-- Behind the line break; without one, where it was. -/
def skipBreak (c : Cursor) : Cursor :=
  match c.rest with
  | '\r' :: '\n' :: rest => ⟨rest, c.index + 2, c.line + 1, 0⟩
  | x :: rest => if isBreak x then ⟨rest, c.index + 1, c.line + 1, 0⟩ else c
  | [] => c

/-- What a line break reads as: the two separators stand for themselves. -/
def breakText (c : Cursor) : List Char :=
  match c.peek with
  | some x =>
      if x.toNat = 0x2028 || x.toNat = 0x2029 then [x] else if isBreak x then ['\n'] else []
  | none => []

def skipWhile (c : Cursor) (p : Char → Bool) : Cursor :=
  c.skipMany (c.rest.takeWhile p).length

/-- The characters in front that satisfy `p`, and the place behind them. -/
def takeWhile (c : Cursor) (p : Char → Bool) : List Char × Cursor :=
  (c.rest.takeWhile p, c.skipWhile p)

def skipGaps (c : Cursor) : Cursor := c.skipWhile isGap

/-- To the end of the line, if a comment starts here. -/
def skipComment (c : Cursor) : Cursor :=
  if c.sees '#' then c.skipWhile (fun x => !isBreak x) else c

/-- Whether a line starts here with three times `x`. -/
def seesMarker (c : Cursor) (x : Char) : Bool :=
  c.column = 0 && c.seesAt 0 x && c.seesAt 1 x && c.seesAt 2 x && c.blankAt 3

def seesDocumentMarker (c : Cursor) : Bool := c.seesMarker '-' || c.seesMarker '.'

end Cursor

end Cadence.Yaml
