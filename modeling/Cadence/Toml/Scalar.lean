import Cadence.Toml.Basic

/-!
Scalars of a TOML text: strings in their four forms, numbers, truth values and
times.
-/

namespace Cadence.Toml

def isBlank (c : Char) : Bool := c = ' ' || c = '\t'

def skipBlanks (cs : List Char) : List Char := cs.dropWhile isBlank

/-- Characters that stand for themselves: all but the control characters other than the tab. -/
def isTextChar (c : Char) : Bool := c = '\t' || (' ' ≤ c && c ≠ '\x7f')

def newline? : List Char → Option (List Char)
  | '\n' :: rest => some rest
  | '\r' :: '\n' :: rest => some rest
  | _ => none

/-- Passes blanks and line breaks; `fuel` bounds the number of characters. -/
def skipLines : (fuel : Nat) → List Char → List Char
  | 0, cs => cs
  | fuel + 1, cs =>
      match newline? (skipBlanks cs) with
      | some rest => skipLines fuel rest
      | none => skipBlanks cs

def hexValue? (digits : List Char) : Option Nat :=
  digits.foldlM (fun n c =>
    if c.isDigit then some (n * 16 + (c.toNat - '0'.toNat))
    else if 'a' ≤ c ∧ c ≤ 'f' then some (n * 16 + (c.toNat - 'a'.toNat + 10))
    else if 'A' ≤ c ∧ c ≤ 'F' then some (n * 16 + (c.toNat - 'A'.toNat + 10))
    else none) 0

/-- The character with this code point, which must not be a surrogate. -/
def charOf? (n : Nat) : Option Char := if n.isValidChar then some (Char.ofNat n) else none

/-- An escaped character, from behind the backslash. -/
def escape? : List Char → Option (Char × List Char)
  | 'b' :: rest => some ('\x08', rest)
  | 't' :: rest => some ('\t', rest)
  | 'n' :: rest => some ('\n', rest)
  | 'f' :: rest => some ('\x0c', rest)
  | 'r' :: rest => some ('\r', rest)
  | '"' :: rest => some ('"', rest)
  | '\\' :: rest => some ('\\', rest)
  | 'u' :: rest => coded 4 rest
  | 'U' :: rest => coded 8 rest
  | _ => none
where
  coded (width : Nat) (cs : List Char) : Option (Char × List Char) :=
    if (cs.take width).length = width then
      ((hexValue? (cs.take width)).bind charOf?).map (·, cs.drop width)
    else none

/-- How a string is delimited. -/
structure Style where
  quote : Char
  /-- Whether a backslash escapes. -/
  escapes : Bool
  /-- Whether it goes over lines and ends with three quotes. -/
  long : Bool

/-- The quotes behind a closing triple that still belong to the text, two at most. -/
def extraQuotes (quote : Char) (cs : List Char) : Nat :=
  min 2 (cs.takeWhile (· = quote)).length

/-- The text up to the closing quotes; `fuel` bounds the number of characters. -/
def body (style : Style) : (fuel : Nat) → List Char → Option (List Char × List Char)
  | 0, _ => none
  | fuel + 1, cs =>
      let goOn (text rest : List Char) : Option (List Char × List Char) :=
        (body style fuel rest).map (fun (more, rest) => (text ++ more, rest))
      match cs with
      | [] => none
      | c :: rest =>
          if c = style.quote then
            if !style.long then some ([], rest)
            else if rest.take 2 = [c, c] then
              let extra := extraQuotes c (rest.drop 2)
              some (List.replicate extra c, rest.drop (2 + extra))
            else goOn [c] rest
          else if c = '\\' && style.escapes then
            match newline? (skipBlanks rest) with
            | some behind =>
                if style.long then goOn [] (skipLines (behind.length + 1) behind) else none
            | none =>
                match escape? rest with
                | some (e, rest) => goOn [e] rest
                | none => none
          else if isTextChar c then goOn [c] rest
          else
            match newline? cs with
            | some behind => if style.long then goOn ['\n'] behind else none
            | none => none

/-- A string of one line. -/
def shortString? (cs : List Char) : Option (String × List Char) :=
  match cs with
  | c :: rest =>
      if c = '"' || c = '\'' then
        (body ⟨c, c = '"', false⟩ cs.length rest).map (fun (t, rest) => (String.ofList t, rest))
      else none
  | [] => none

def string? (cs : List Char) : Option (String × List Char) :=
  match cs with
  | a :: b :: c :: rest =>
      if (a = '"' || a = '\'') && b = a && c = a then
        (body ⟨a, a = '"', true⟩ cs.length ((newline? rest).getD rest)).map
          (fun (t, rest) => (String.ofList t, rest))
      else shortString? cs
  | cs => shortString? cs

/-- Whether these are digits with single underscores between them. -/
def isDigits (isDigit : Char → Bool) (cs : List Char) : Bool :=
  let parts := cs.splitOn '_'
  parts.all (fun part => !part.isEmpty && part.all isDigit)

def digitsValue (base : Nat) (cs : List Char) : Option Nat :=
  (cs.filter (· ≠ '_')).foldlM (fun n c => (hexValue? [c]).map (n * base + ·)) 0

def inRange (n : Int) : Bool :=
  -Int.ofNat (Nat.pow 2 63) ≤ n && n < Int.ofNat (Nat.pow 2 63)

def splitSign : List Char → Bool × List Char
  | '+' :: rest => (false, rest)
  | '-' :: rest => (true, rest)
  | cs => (false, cs)

/-- Decimal digits without a leading zero. -/
def isPlainInteger (cs : List Char) : Bool :=
  isDigits Char.isDigit cs && (cs.length = 1 || cs.head? ≠ some '0')

def integer? (cs : List Char) : Option Int := do
  let n : Int ← match cs with
    | '0' :: 'x' :: rest =>
        if isDigits (fun c => (hexValue? [c]).isSome) rest then (digitsValue 16 rest).map (↑·)
        else none
    | '0' :: 'o' :: rest =>
        if isDigits (fun c => '0' ≤ c && c ≤ '7') rest then (digitsValue 8 rest).map (↑·) else none
    | '0' :: 'b' :: rest =>
        if isDigits (fun c => c = '0' || c = '1') rest then (digitsValue 2 rest).map (↑·) else none
    | cs =>
        let (negative, digits) := splitSign cs
        if isPlainInteger digits then
          (digitsValue 10 digits).map (fun n => if negative then -(n : Int) else n)
        else none
  if inRange n then some n else none

/-- Whether the digits, scaled by `10 ^ exponent`, stay below the largest double. -/
def fitsDouble (digits : List Char) (exponent : Int) : Bool :=
  let n := (digitsValue 10 digits).getD 0
  n = 0 || exponent + digits.length < 300 || (exponent + digits.length < 310 &&
    !(Float.ofScientific n (exponent < 0) exponent.natAbs).isInf)

def isFloat (cs : List Char) : Bool :=
  let (_, cs) := splitSign cs
  if cs = "inf".toList || cs = "nan".toList then true
  else
    let mantissa := cs.takeWhile (fun c => c ≠ 'e' && c ≠ 'E')
    let power := (cs.drop mantissa.length).drop 1
    let whole := mantissa.takeWhile (· ≠ '.')
    let places := (mantissa.drop whole.length).drop 1
    let hasPoint := whole.length < mantissa.length
    let hasPower := mantissa.length < cs.length
    let (down, powerDigits) := splitSign power
    let exponent : Int := ((digitsValue 10 powerDigits).getD 0 : Nat)
    isPlainInteger whole && (hasPoint || hasPower) &&
      (!hasPoint || isDigits Char.isDigit places) &&
      (!hasPower || isDigits Char.isDigit powerDigits) &&
      fitsDouble ((whole ++ places).filter (· ≠ '_'))
        ((if down then -exponent else exponent) - (places.filter (· ≠ '_')).length)

def twoDigits? : List Char → Option (Nat × List Char)
  | a :: b :: rest =>
      if a.isDigit && b.isDigit then
        some ((a.toNat - '0'.toNat) * 10 + (b.toNat - '0'.toNat), rest)
      else none
  | _ => none

def isOffset (cs : List Char) : Bool :=
  match cs with
  | [] | ['Z'] | ['z'] => true
  | sign :: rest =>
      (sign = '+' || sign = '-') &&
        match twoDigits? rest with
        | some (hours, ':' :: rest) =>
            match twoDigits? rest with
            | some (minutes, []) => hours < 24 && minutes < 60
            | _ => false
        | _ => false

/-- Hours, minutes and seconds with decimal places, and behind them what `ends` accepts. -/
def isTime (ends : List Char → Bool) (cs : List Char) : Bool :=
  match twoDigits? cs with
  | some (hours, ':' :: cs) =>
      match twoDigits? cs with
      | some (minutes, ':' :: cs) =>
          match twoDigits? cs with
          | some (seconds, cs) =>
              let behind := match cs with
                | '.' :: places =>
                    if places.head?.any Char.isDigit then places.dropWhile Char.isDigit else cs
                | cs => cs
              hours < 24 && minutes < 60 && seconds ≤ 60 && ends behind
          | none => false
      | _ => false
  | _ => false

def lastDay (year month : Nat) : Nat :=
  if month = 2 then if year % 4 = 0 ∧ (year % 100 ≠ 0 ∨ year % 400 = 0) then 29 else 28
  else if month ∈ [4, 6, 9, 11] then 30
  else 31

/-- Ten characters of a date. -/
def isDate (cs : List Char) : Bool :=
  match twoDigits? cs with
  | some (century, cs) =>
      match twoDigits? cs with
      | some (year, '-' :: cs) =>
          match twoDigits? cs with
          | some (month, '-' :: cs) =>
              match twoDigits? cs with
              | some (day, []) =>
                  1 ≤ month && month ≤ 12 && 1 ≤ day && day ≤ lastDay (century * 100 + year) month
              | _ => false
          | _ => false
      | _ => false
  | none => false

def isMoment (cs : List Char) : Bool :=
  isTime List.isEmpty cs ||
    (isDate (cs.take 10) &&
      match cs.drop 10 with
      | [] => true
      | mark :: clock => (mark = 'T' || mark = 't' || mark = ' ') && isTime isOffset clock)

def isWordChar (c : Char) : Bool :=
  c.isAlphanum || c = '+' || c = '-' || c = '.' || c = '_' || c = ':'

/-- The word in front; a date takes along a time of day behind one blank. -/
def word (cs : List Char) : List Char × List Char :=
  let first := cs.takeWhile isWordChar
  let behind := cs.drop first.length
  let second := (behind.drop 1).takeWhile isWordChar
  if isDate first && behind.head? = some ' ' && (twoDigits? second).isSome then
    (first ++ ' ' :: second, behind.drop (1 + second.length))
  else (first, behind)

/-- A value that is written as a word. -/
def wordValue? (cs : List Char) : Option Toml :=
  if cs = "true".toList then some (.boolean true)
  else if cs = "false".toList then some (.boolean false)
  else if isMoment cs then some .time
  else if isFloat cs then some .float
  else (integer? cs).map .integer

end Cadence.Toml
