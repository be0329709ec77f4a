import Cadence.Json.Basic

/-!
The lexemes of JSON.

A string literal is first cut into characters and 16-bit units, and the units
are then paired.  Every step takes at least one character from the input, which
is what `scan` ends by.
-/

namespace Cadence.Json

inductive Token where
  | openBrace
  | closeBrace
  | openBracket
  | closeBracket
  | colon
  | comma
  | null
  | bool (value : Bool)
  | number (value : JsonNumber)
  | string (value : String)
  | unpaired
  deriving DecidableEq, Repr

/-- A character of a string literal, or a 16-bit unit given by its four hexadecimal digits. -/
inductive Piece where
  | char (c : Char)
  | unit (n : Nat)
  deriving DecidableEq, Repr

def isBlank (c : Char) : Bool :=
  c = ' ' || c = '\n' || c = '\t' || c = '\r'

def hexDigit? (c : Char) : Option Nat :=
  if c.isDigit then some (c.toNat - '0'.toNat)
  else if 'a' ≤ c ∧ c ≤ 'f' then some (c.toNat - 'a'.toNat + 10)
  else if 'A' ≤ c ∧ c ≤ 'F' then some (c.toNat - 'A'.toNat + 10)
  else none

def hexValue? (digits : List Char) : Option Nat :=
  digits.foldlM (fun n c => (hexDigit? c).map (n * 16 + ·)) 0

/-- The character that a one-letter escape stands for. -/
def escaped? (c : Char) : Option Char :=
  match c with
  | '"' => some '"'
  | '\\' => some '\\'
  | '/' => some '/'
  | 'b' => some '\x08'
  | 'f' => some '\x0c'
  | 'n' => some '\n'
  | 'r' => some '\r'
  | 't' => some '\t'
  | _ => none

/-- The pieces up to the closing quote, and what follows it. -/
def pieces : List Char → Option (List Piece × List Char)
  | [] => none
  | '"' :: rest => some ([], rest)
  | '\\' :: 'u' :: a :: b :: c :: d :: rest =>
      match hexValue? [a, b, c, d], pieces rest with
      | some n, some (found, rest) => some (.unit n :: found, rest)
      | _, _ => none
  | '\\' :: e :: rest =>
      match escaped? e, pieces rest with
      | some c, some (found, rest) => some (.char c :: found, rest)
      | _, _ => none
  | c :: rest =>
      if c < ' ' then none
      else (pieces rest).map (fun (found, rest) => (.char c :: found, rest))

theorem pieces_shorter {cs rest : List Char} {found : List Piece}
    (h : pieces cs = some (found, rest)) : rest.length < cs.length := by
  fun_induction pieces cs generalizing found rest with
  | case1 => cases h
  | case2 r => cases h; simp
  | case3 a b c d r n found' rest' hp _ ih =>
      cases h
      have := ih hp
      simp only [List.length_cons]
      omega
  | case4 => cases h
  | case5 e r _ c found' rest' hp _ ih =>
      cases h
      have := ih hp
      simp only [List.length_cons]
      omega
  | case6 => cases h
  | case7 => cases h
  | case8 c r _ _ _ _ ih =>
      obtain ⟨⟨f, r'⟩, hp, he⟩ := Option.map_eq_some_iff.1 h
      cases he
      have := ih hp
      simp only [List.length_cons]
      omega

def isHighSurrogate (n : Nat) : Bool := 0xD800 ≤ n && n ≤ 0xDBFF

def isLowSurrogate (n : Nat) : Bool := 0xDC00 ≤ n && n ≤ 0xDFFF

/-- The text of the pieces: a high surrogate and the low one after it make one character. -/
def pairUnits : List Piece → Option (List Char)
  | [] => some []
  | .char c :: rest => (pairUnits rest).map (c :: ·)
  | .unit high :: .unit low :: rest =>
      if isHighSurrogate high then
        if isLowSurrogate low then
          (pairUnits rest).map
            (Char.ofNat ((high - 0xD800) * 0x400 + (low - 0xDC00) + 0x10000) :: ·)
        else none
      else if isLowSurrogate high then none
      else (pairUnits (.unit low :: rest)).map (Char.ofNat high :: ·)
  | .unit n :: rest =>
      if isHighSurrogate n || isLowSurrogate n then none
      else (pairUnits rest).map (Char.ofNat n :: ·)

def isNumberChar (c : Char) : Bool :=
  c.isDigit || c = '-' || c = '+' || c = '.' || c = 'e' || c = 'E'

def digitValue (c : Char) : Nat := c.toNat - '0'.toNat

/-- The digits in front, and what follows them. -/
def digits (cs : List Char) : List Nat × List Char :=
  ((cs.takeWhile Char.isDigit).map digitValue, cs.dropWhile Char.isDigit)

/-- `e` or `E`, a sign or none, and at least one digit. -/
def exponent? (cs : List Char) : Option Int :=
  let magnitude (cs : List Char) : Option Nat :=
    if !cs.isEmpty && cs.all Char.isDigit then
      some (cs.foldl (fun n c => n * 10 + digitValue c) 0)
    else none
  match cs with
  | '+' :: rest => (magnitude rest).map (fun n => (n : Int))
  | '-' :: rest => (magnitude rest).map (fun n => -(n : Int))
  | cs => (magnitude cs).map (fun n => (n : Int))

/-- A whole literal: no leading zero, digits on both sides of a point. -/
def number? (cs : List Char) : Option JsonNumber := do
  let (negative, cs) := match cs with
    | '-' :: rest => (true, rest)
    | _ => (false, cs)
  let (whole, cs) := digits cs
  if whole.isEmpty || (whole.head? = some 0 && 1 < whole.length) then failure
  let (fraction, cs) ← match cs with
    | '.' :: rest =>
        let (fraction, rest) := digits rest
        if fraction.isEmpty then none else some (fraction, rest)
    | cs => some ([], cs)
  match cs with
  | [] => some ⟨negative, whole, fraction, none⟩
  | e :: rest =>
      if e = 'e' || e = 'E' then
        (exponent? rest).map (fun n => ⟨negative, whole, fraction, some n⟩)
      else none

/-- The word `word` in front of the input, and what follows it. -/
def after? (word : List Char) (cs : List Char) : Option (List Char) :=
  if word.isPrefixOf cs then some (cs.drop word.length) else none

theorem after?_length {word cs rest : List Char} (h : after? word cs = some rest) :
    rest.length = cs.length - word.length := by
  unfold after? at h
  split at h
  · cases h; simp
  · cases h

/-- The lexeme in front of an input that starts with `c`, and what follows it. -/
def next (c : Char) (rest : List Char) : Option (Token × List Char) :=
  match c with
  | '{' => some (.openBrace, rest)
  | '}' => some (.closeBrace, rest)
  | '[' => some (.openBracket, rest)
  | ']' => some (.closeBracket, rest)
  | ':' => some (.colon, rest)
  | ',' => some (.comma, rest)
  | 'n' => (after? "ull".toList rest).map (.null, ·)
  | 't' => (after? "rue".toList rest).map (.bool true, ·)
  | 'f' => (after? "alse".toList rest).map (.bool false, ·)
  | '"' =>
      (pieces rest).map (fun (found, rest) =>
        ((pairUnits found).elim .unpaired (fun cs => .string (String.ofList cs)), rest))
  | _ =>
      if c = '-' || c.isDigit then
        (number? (c :: rest.takeWhile isNumberChar)).map
          (fun n => (.number n, rest.dropWhile isNumberChar))
      else none

theorem length_dropWhile_le (p : Char → Bool) (cs : List Char) :
    (cs.dropWhile p).length ≤ cs.length :=
  (List.dropWhile_sublist p).length_le

theorem next_length_le {c : Char} {rest rest' : List Char} {t : Token}
    (h : next c rest = some (t, rest')) : rest'.length ≤ rest.length := by
  unfold next at h
  split at h
  case h_7 | h_8 | h_9 =>
    obtain ⟨r, hr, he⟩ := Option.map_eq_some_iff.1 h
    cases he
    have := after?_length hr
    omega
  case h_10 =>
    obtain ⟨⟨found, r⟩, hr, he⟩ := Option.map_eq_some_iff.1 h
    cases he
    exact Nat.le_of_lt (pieces_shorter hr)
  case h_11 =>
    split at h
    · obtain ⟨n, hn, he⟩ := Option.map_eq_some_iff.1 h
      cases he
      exact length_dropWhile_le _ _
    · cases h
  all_goals
    cases h
    exact Nat.le_refl _

/-- All lexemes of a text, or none if some part of it is no lexeme. -/
def scan (cs : List Char) : Option (List Token) :=
  match cs with
  | [] => some []
  | c :: rest =>
      if isBlank c then scan rest
      else
        match _taken : next c rest with
        | none => none
        | some (t, rest') => (scan rest').map (t :: ·)
termination_by cs.length
decreasing_by
  · simp
  · have := next_length_le _taken
    simp only [List.length_cons]
    omega

end Cadence.Json
