import Cadence.Proofs.Json.Numbers

/-!
# The lexemes of what is printed

A printed value is cut into the lexemes that it was put together from.  A number
goes on up to a character that is in no number, and no other character can come
behind a value.
-/

namespace Cadence.Json

/-! ### Strings -/

/-- How a character of a text is read back. -/
def pieceOf (c : Char) : Piece :=
  if c < ' ' ∧ c ∉ ['\x08', '\x0c', '\n', '\r', '\t'] then .unit c.toNat else .char c

theorem hexValue?_control : ∀ n < 32,
    hexValue? ['0', '0', Nat.digitChar (n / 16), Nat.digitChar (n % 16)] = some n := by
  decide

theorem pieces_letter {e c : Char} (he : escaped? e = some c) (hletter : e ≠ 'u')
    (rest : List Char) :
    pieces ('\\' :: e :: rest) =
      (pieces rest).map (fun (found, rest) => (.char c :: found, rest)) := by
  rw [pieces]
  · rw [he]
    cases pieces rest <;> rfl
  · rintro a b c d rest rfl
    exact absurd rfl hletter

theorem pieces_escapeChar (c : Char) (rest : List Char) :
    pieces (escapeChar c ++ rest) =
      (pieces rest).map (fun (found, rest) => (pieceOf c :: found, rest)) := by
  unfold escapeChar
  split
  case h_8 hquote hbackslash hb hf hn hr ht =>
    split
    · next hcontrol =>
        have hpiece : pieceOf c = .unit c.toNat :=
          if_pos ⟨hcontrol, by simpa using ⟨hb, hf, hn, hr, ht⟩⟩
        rw [hpiece]
        simp only [List.cons_append, List.nil_append]
        rw [pieces, hexValue?_control c.toNat hcontrol]
        cases pieces rest <;> rfl
    · next hplain =>
        have hpiece : pieceOf c = .char c := if_neg fun h => hplain h.1
        rw [hpiece, List.singleton_append, pieces, if_neg hplain]
        · exact hquote
        · intros
          exact hbackslash ‹_›
        · intros
          exact hbackslash ‹_›
  all_goals exact pieces_letter rfl (by decide) rest

theorem pieces_quote (cs rest : List Char) :
    pieces (cs.flatMap escapeChar ++ '"' :: rest) = some (cs.map pieceOf, rest) := by
  induction cs with
  | nil => rw [List.flatMap_nil, List.nil_append, pieces, List.map_nil]
  | cons c cs ih =>
      rw [List.flatMap_cons, List.append_assoc, pieces_escapeChar, ih]
      rfl

theorem pairUnits_unit {n : Nat} (h : n < 32) (rest : List Piece) :
    pairUnits (.unit n :: rest) = (pairUnits rest).map (Char.ofNat n :: ·) := by
  have hhigh : isHighSurrogate n = false := by simp [isHighSurrogate]; omega
  have hlow : isLowSurrogate n = false := by simp [isLowSurrogate]; omega
  rcases rest with _ | ⟨_ | _, _⟩ <;> simp [pairUnits, hhigh, hlow]

theorem pairUnits_pieceOf (cs : List Char) : pairUnits (cs.map pieceOf) = some cs := by
  induction cs with
  | nil => rw [List.map_nil, pairUnits]
  | cons c cs ih =>
      rw [List.map_cons, pieceOf]
      split
      · next hcontrol =>
          rw [pairUnits_unit (n := c.toNat) hcontrol.1, ih, Char.ofNat_toNat, Option.map_some]
      · rw [pairUnits, ih, Option.map_some]

/-! ### Lexemes -/

theorem scan_cons {c : Char} {rest behind : List Char} {t : Token} (hblank : isBlank c = false)
    (hnext : next c rest = some (t, behind)) :
    scan (c :: rest) = (scan behind).map (t :: ·) := by
  rw [scan, if_neg (by simp [hblank])]
  split
  · next hnone => simp [hnext] at hnone
  · next hsome =>
      obtain ⟨rfl, rfl⟩ := Prod.mk.inj (Option.some.inj (hnext.symm.trans hsome))
      rfl

/-- The text starts with these lexemes, if no number goes on behind it. -/
def Lexes (cs : List Char) (ts : List Token) : Prop :=
  ∀ rest : List Char, (∀ c ∈ rest.head?, isNumberChar c = false) →
    scan (cs ++ rest) = (scan rest).map (ts ++ ·)

theorem Lexes.append {cs cs' : List Char} {ts ts' : List Token} (h : Lexes cs ts)
    (h' : Lexes cs' ts') (hstop : ∃ c rest, cs' = c :: rest ∧ isNumberChar c = false) :
    Lexes (cs ++ cs') (ts ++ ts') := by
  obtain ⟨c, more, rfl, hc⟩ := hstop
  intro rest hrest
  rw [List.append_assoc, h _ (by simpa using hc), h' rest hrest]
  simp [Option.map_map, Function.comp_def]

/-- A lexeme that ends by itself. -/
theorem Lexes.mark {c : Char} {cs : List Char} {t : Token} {ts : List Token}
    (hblank : isBlank c = false) (hnext : ∀ rest, next c rest = some (t, rest)) (h : Lexes cs ts) :
    Lexes (c :: cs) (t :: ts) := by
  intro rest hrest
  rw [List.cons_append, scan_cons hblank (hnext _), h rest hrest]
  simp [Option.map_map, Function.comp_def]

theorem lexes_nil : Lexes [] [] := by
  intro rest _
  simp

theorem lexes_quote (s : String) : Lexes (quote s) [.string s] := by
  intro rest _
  have hnext : next '"' (s.toList.flatMap escapeChar ++ '"' :: rest) = some (.string s, rest) := by
    simp [next, pieces_quote, pairUnits_pieceOf]
  simpa [quote] using scan_cons (by decide) hnext

theorem next_number {c : Char} (h : c = '-' ∨ c.isDigit) (rest : List Char) :
    next c rest = (number? (c :: rest.takeWhile isNumberChar)).map
      (fun n => (.number n, rest.dropWhile isNumberChar)) := by
  unfold next
  split
  case h_11 => exact if_pos (by simpa using h)
  all_goals simp at h

theorem lexes_number {n : JsonNumber} (h : n.Literal) : Lexes n.render [.number n] := by
  intro rest hrest
  have hread := n.number?_render h
  have hchars := fun c hc => n.isNumberChar_of_mem_render (c := c) h hc
  obtain ⟨c, more, hrender, hc⟩ := n.head_render h
  rw [hrender] at hread hchars ⊢
  obtain ⟨hfront, hbehind⟩ := span_append (fun c hc => hchars c (List.mem_cons_of_mem _ hc)) hrest
  have hnext : next c (more ++ rest) = some (.number n, rest) := by
    rw [next_number hc, hfront, hbehind, hread, Option.map_some]
  refine scan_cons ?_ hnext
  have hblank : ∀ d, isBlank d → ¬(d = '-' ∨ d.isDigit) := by
    intro d hd
    simp only [isBlank, Bool.or_eq_true, decide_eq_true_eq] at hd
    rcases hd with ((rfl | rfl) | rfl) | rfl <;> decide
  exact Bool.eq_false_iff.2 fun hb => hblank c hb hc

theorem lexes_word {c : Char} {word : List Char} {t : Token} (hblank : isBlank c = false)
    (hnext : ∀ rest, next c rest = (after? word rest).map (t, ·)) : Lexes (c :: word) [t] := by
  intro rest _
  refine scan_cons hblank ?_
  simp [hnext, after?]

/-! ### Values -/

mutual

/-- What is printed as a value: numbers that have a literal, and whole texts. -/
def Printable : Json → Prop
  | .number n => n.Literal
  | .unpaired => False
  | .list items => PrintableItems items
  | .object fields => PrintableFields fields
  | _ => True

def PrintableItems : List Json → Prop
  | [] => True
  | item :: items => Printable item ∧ PrintableItems items

def PrintableFields : List (String × Json) → Prop
  | [] => True
  | (_, value) :: fields => Printable value ∧ PrintableFields fields

end

mutual

def tokensOf : Json → List Token
  | .null => [.null]
  | .bool b => [.bool b]
  | .number n => [.number n]
  | .string s => [.string s]
  | .unpaired => [.unpaired]
  | .list [] => [.openBracket, .closeBracket]
  | .list (item :: items) => .openBracket :: (tokensOf item ++ tokensOfItems items)
  | .object [] => [.openBrace, .closeBrace]
  | .object ((name, value) :: fields) =>
      .openBrace :: .string name :: .colon :: (tokensOf value ++ tokensOfFields fields)

def tokensOfItems : List Json → List Token
  | [] => [.closeBracket]
  | item :: items => .comma :: (tokensOf item ++ tokensOfItems items)

def tokensOfFields : List (String × Json) → List Token
  | [] => [.closeBrace]
  | (name, value) :: fields =>
      .comma :: .string name :: .colon :: (tokensOf value ++ tokensOfFields fields)

end

theorem renderItems_head (items : List Json) :
    ∃ c rest, renderItems items = c :: rest ∧ isNumberChar c = false := by
  cases items <;> rw [renderItems] <;> exact ⟨_, _, rfl, by decide⟩

theorem renderFields_head (fields : List (String × Json)) :
    ∃ c rest, renderFields fields = c :: rest ∧ isNumberChar c = false := by
  rcases fields with _ | ⟨⟨name, value⟩, fields⟩ <;> rw [renderFields] <;>
    exact ⟨_, _, rfl, by decide⟩

theorem Lexes.field {cs : List Char} {ts : List Token} (h : Lexes cs ts) (name : String) :
    Lexes (quote name ++ ':' :: cs) (.string name :: .colon :: ts) :=
  (lexes_quote name).append (.mark (by decide) (fun _ => rfl) h) ⟨_, _, rfl, by decide⟩

mutual

theorem lexes_renderChars : ∀ v : Json, v.Printable → Lexes v.renderChars (tokensOf v)
  | .null, _ => by
      rw [renderChars, tokensOf]
      exact lexes_word (by decide) fun _ => rfl
  | .bool true, _ => by
      rw [renderChars, tokensOf]
      exact lexes_word (by decide) fun _ => rfl
  | .bool false, _ => by
      rw [renderChars, tokensOf]
      exact lexes_word (by decide) fun _ => rfl
  | .number n, h => by
      rw [renderChars, tokensOf]
      exact lexes_number (by simpa [Printable] using h)
  | .string s, _ => by
      rw [renderChars, tokensOf]
      exact lexes_quote s
  | .unpaired, h => by simp [Printable] at h
  | .list [], _ => by
      rw [renderChars, tokensOf]
      exact .mark (by decide) (fun _ => rfl) (.mark (by decide) (fun _ => rfl) lexes_nil)
  | .list (item :: items), h => by
      rw [Printable, PrintableItems] at h
      rw [renderChars, tokensOf]
      exact .mark (by decide) (fun _ => rfl) ((lexes_renderChars item h.1).append
        (lexes_renderItems items h.2) (renderItems_head items))
  | .object [], _ => by
      rw [renderChars, tokensOf]
      exact .mark (by decide) (fun _ => rfl) (.mark (by decide) (fun _ => rfl) lexes_nil)
  | .object ((name, value) :: fields), h => by
      rw [Printable, PrintableFields] at h
      rw [renderChars, tokensOf]
      have hvalue := (lexes_renderChars value h.1).append (lexes_renderFields fields h.2)
        (renderFields_head fields)
      simpa using Lexes.mark (c := '\x7b') (by decide) (fun _ => rfl) (hvalue.field name)

theorem lexes_renderItems :
    ∀ items, PrintableItems items → Lexes (renderItems items) (tokensOfItems items)
  | [], _ => by
      rw [renderItems, tokensOfItems]
      exact .mark (by decide) (fun _ => rfl) lexes_nil
  | item :: items, h => by
      rw [PrintableItems] at h
      rw [renderItems, tokensOfItems]
      exact .mark (by decide) (fun _ => rfl) ((lexes_renderChars item h.1).append
        (lexes_renderItems items h.2) (renderItems_head items))

theorem lexes_renderFields :
    ∀ fields, PrintableFields fields → Lexes (renderFields fields) (tokensOfFields fields)
  | [], _ => by
      rw [renderFields, tokensOfFields]
      exact .mark (by decide) (fun _ => rfl) lexes_nil
  | (name, value) :: fields, h => by
      rw [PrintableFields] at h
      rw [renderFields, tokensOfFields]
      have hvalue := (lexes_renderChars value h.1).append (lexes_renderFields fields h.2)
        (renderFields_head fields)
      simpa using Lexes.mark (c := ',') (by decide) (fun _ => rfl) (hvalue.field name)

end

end Cadence.Json
