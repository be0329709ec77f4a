import Cadence.Json.Number
import Cadence.Json.Printer
import Cadence.Json.Token
import Cadence.Proofs.Text.Digits

/-!
# Number literals

What is printed for a number is a literal, and the reader takes it for the number
it was.
-/

namespace Cadence

open Json (digitValue isNumberChar)

namespace JsonNumber

/-- The numbers that have a literal: digits in front of the point, and no needless zero first. -/
structure Literal (n : JsonNumber) : Prop where
  whole_ne : n.whole ≠ []
  leading : n.whole.head? = some 0 → n.whole.length = 1
  whole_lt : ∀ d ∈ n.whole, d < 10
  fraction_lt : ∀ d ∈ n.fraction, d < 10

variable {n : JsonNumber} {ds : List Nat}

theorem isDigit_of_mem_renderDigits (h : ∀ d ∈ ds, d < 10) {c : Char}
    (hc : c ∈ renderDigits ds) : c.isDigit := by
  obtain ⟨d, hd, rfl⟩ := List.mem_map.1 hc
  simpa using h d hd

theorem digits_renderDigits (h : ∀ d ∈ ds, d < 10) {rest : List Char}
    (hrest : ∀ c ∈ rest.head?, c.isDigit = false) :
    Json.digits (renderDigits ds ++ rest) = (ds, rest) := by
  obtain ⟨hfront, hbehind⟩ := span_append (fun c hc => isDigit_of_mem_renderDigits h hc) hrest
  rw [Json.digits, hfront, hbehind, renderDigits, List.map_map]
  have hvalues : ∀ d ∈ ds, (digitValue ∘ Nat.digitChar) d = id d :=
    fun d hd => Nat.toNat_digitChar_sub_48_of_lt_ten (h d hd)
  rw [List.map_congr_left hvalues, List.map_id]

/-- The power of ten as it is written. -/
def renderExponent : Option Int → List Char
  | none => []
  | some (.ofNat e) => 'e' :: '+' :: Nat.toDigits 10 e
  | some (.negSucc e) => 'e' :: '-' :: Nat.toDigits 10 (e + 1)

/-- What stands behind the sign. -/
def renderUnsigned (n : JsonNumber) : List Char :=
  renderDigits n.whole ++ ((if n.fraction.isEmpty then [] else '.' :: renderDigits n.fraction) ++
    renderExponent n.exponent)

theorem render_eq (n : JsonNumber) :
    n.render = (if n.negative then ['-'] else []) ++ n.renderUnsigned := by
  simp only [render, renderUnsigned, List.append_assoc]
  rfl

theorem exponent?_toDigits (e : Nat) :
    Json.exponent? ('+' :: Nat.toDigits 10 e) = some (e : Int) ∧
      Json.exponent? ('-' :: Nat.toDigits 10 e) = some (-(e : Int)) := by
  have hdigits : (Nat.toDigits 10 e).all Char.isDigit = true :=
    List.all_eq_true.2 fun c hc => isDigit_of_mem_toDigits hc
  have hvalue : (Nat.toDigits 10 e).foldl (fun n c => n * 10 + digitValue c) 0 = e :=
    foldl_toDigits e
  simp [Json.exponent?, hdigits, hvalue]

theorem exponent?_renderExponent (e : Int) :
    ∃ rest, renderExponent (some e) = 'e' :: rest ∧ Json.exponent? rest = some e := by
  cases e with
  | ofNat e => exact ⟨_, rfl, (exponent?_toDigits e).1⟩
  | negSucc e => exact ⟨_, rfl, (exponent?_toDigits (e + 1)).2⟩

/-- The reader behind the sign. -/
def unsigned? (negative : Bool) (cs : List Char) : Option JsonNumber := do
  let (whole, cs) := Json.digits cs
  if whole.isEmpty || (whole.head? = some 0 && 1 < whole.length) then failure
  let (fraction, cs) ← match cs with
    | '.' :: rest =>
        let (fraction, rest) := Json.digits rest
        if fraction.isEmpty then none else some (fraction, rest)
    | cs => some ([], cs)
  match cs with
  | [] => some ⟨negative, whole, fraction, none⟩
  | e :: rest =>
      if e = 'e' || e = 'E' then
        (Json.exponent? rest).map (fun n => ⟨negative, whole, fraction, some n⟩)
      else none

theorem number?_minus (cs : List Char) : Json.number? ('-' :: cs) = unsigned? true cs := rfl

theorem number?_plus {cs : List Char} (h : ∀ rest, cs ≠ '-' :: rest) :
    Json.number? cs = unsigned? false cs := by
  unfold Json.number?
  split
  next negative behind hsign =>
    split at hsign
    · exact absurd rfl (h _)
    · cases hsign
      rfl

theorem unsigned?_renderUnsigned (h : n.Literal) :
    unsigned? n.negative n.renderUnsigned = some n := by
  obtain ⟨negative, whole, fraction, exponent⟩ := n
  obtain ⟨hne, hleading, hwhole, hfraction⟩ := h
  dsimp only at hne hleading hwhole hfraction ⊢
  have hcheck : (whole.isEmpty || (whole.head? = some 0 && decide (1 < whole.length))) = false := by
    by_cases hzero : whole.head? = some 0
    · simp [hne, hleading hzero]
    · simp [hne, hzero]
  have hmark : ∀ c ∈ (renderExponent exponent).head?, c.isDigit = false := by
    rcases exponent with _ | _ | _ <;> simp [renderExponent]
  have hbehind : ∀ c ∈ ((if fraction.isEmpty then [] else '.' :: renderDigits fraction) ++
      renderExponent exponent).head?, c.isDigit = false := by
    cases fraction with
    | nil => simpa using hmark
    | cons d rest => simp
  rw [renderUnsigned, unsigned?, digits_renderDigits hwhole hbehind]
  simp only [hcheck]
  cases fraction with
  | nil =>
      cases exponent with
      | none => rfl
      | some e =>
          obtain ⟨rest, hrender, hread⟩ := exponent?_renderExponent e
          simp [hrender, hread]
  | cons d rest =>
      have hread := digits_renderDigits hfraction hmark
      simp only [List.isEmpty_cons, Bool.false_eq_true, if_false, List.cons_append, hread]
      cases exponent with
      | none => rfl
      | some e =>
          obtain ⟨rest, hrender, hexp⟩ := exponent?_renderExponent e
          simp [hrender, hexp]

/-- The literal of a number is read as that number. -/
theorem number?_render (h : n.Literal) : Json.number? n.render = some n := by
  have hread := unsigned?_renderUnsigned h
  obtain ⟨negative, whole, fraction, exponent⟩ := n
  obtain ⟨d, rest, rfl⟩ := List.exists_cons_of_ne_nil h.whole_ne
  rw [render_eq]
  cases negative with
  | true => exact (number?_minus _).trans hread
  | false =>
      refine (number?_plus fun behind hminus => ?_).trans hread
      have hdigit := isDigit_of_mem_renderDigits h.whole_lt (List.mem_map_of_mem List.mem_cons_self)
      simp [(List.cons.inj hminus).1] at hdigit

theorem isNumberChar_of_mem_render (h : n.Literal) {c : Char} (hc : c ∈ n.render) :
    isNumberChar c := by
  have hdigits : ∀ ds : List Nat, (∀ d ∈ ds, d < 10) → c ∈ renderDigits ds → isNumberChar c :=
    fun ds hds hmem => by simp [isNumberChar, isDigit_of_mem_renderDigits hds hmem]
  have hpower : ∀ e, c ∈ Nat.toDigits 10 e → isNumberChar c :=
    fun e hmem => by simp [isNumberChar, isDigit_of_mem_toDigits hmem]
  rw [render_eq, renderUnsigned] at hc
  simp only [List.mem_append] at hc
  rcases hc with hsign | hwhole | hfraction | hexponent
  · split at hsign <;> simp_all [isNumberChar]
  · exact hdigits _ h.whole_lt hwhole
  · split at hfraction
    · simp at hfraction
    · rcases List.mem_cons.1 hfraction with rfl | hmem
      · rfl
      · exact hdigits _ h.fraction_lt hmem
  · rcases hexp : n.exponent with _ | e | e
    all_goals
      simp only [hexp, renderExponent, List.mem_cons, List.not_mem_nil] at hexponent
    · rcases hexponent with rfl | rfl | hmem
      · rfl
      · rfl
      · exact hpower _ hmem
    · rcases hexponent with rfl | rfl | hmem
      · rfl
      · rfl
      · exact hpower _ hmem

theorem head_render (h : n.Literal) :
    ∃ c rest, n.render = c :: rest ∧ (c = '-' ∨ c.isDigit) := by
  obtain ⟨d, ds, hwhole⟩ := List.exists_cons_of_ne_nil h.whole_ne
  rw [render_eq, renderUnsigned, hwhole]
  split
  · exact ⟨_, _, rfl, .inl rfl⟩
  · refine ⟨_, _, rfl, .inr ?_⟩
    simpa using h.whole_lt d (by simp [hwhole])

/-! ### The digits of a number -/

theorem digitsOf_ne_nil (n : Nat) : digitsOf n ≠ [] := by simp [digitsOf]

theorem digitsOf_of_lt {n : Nat} (h : n < 10) : digitsOf n = [n] := by
  simp [digitsOf, Nat.toDigits_of_lt_base h, Nat.toNat_digitChar_sub_48_of_lt_ten h]

theorem digitsOf_of_le {n : Nat} (h : 10 ≤ n) : digitsOf n = digitsOf (n / 10) ++ [n % 10] := by
  have hlast := Nat.toNat_digitChar_sub_48_of_lt_ten (n := n % 10) (by omega)
  simp [digitsOf, Nat.toDigits_of_base_le (by decide : 1 < 10) h, hlast]

theorem lt_of_mem_digitsOf {n d : Nat} (h : d ∈ digitsOf n) : d < 10 := by
  induction n using Nat.strongRecOn with
  | _ n ih =>
      by_cases hn : n < 10
      · rw [digitsOf_of_lt hn, List.mem_singleton] at h
        omega
      · rw [digitsOf_of_le (by omega), List.mem_append, List.mem_singleton] at h
        rcases h with h | rfl
        · exact ih (n / 10) (by omega) h
        · omega

theorem head_digitsOf {n : Nat} (h : n ≠ 0) : (digitsOf n).head? ≠ some 0 := by
  induction n using Nat.strongRecOn with
  | _ n ih =>
      by_cases hn : n < 10
      · simpa [digitsOf_of_lt hn] using h
      · have hfront := ih (n / 10) (by omega) (by omega)
        obtain ⟨first, rest, hcons⟩ := List.exists_cons_of_ne_nil (digitsOf_ne_nil (n / 10))
        rw [hcons] at hfront
        rw [digitsOf_of_le (by omega), hcons]
        exact hfront

/-- Whatever the decimal, it is written as a literal. -/
theorem literal_ofDecimal (negative : Bool) (d : Decimal) : (ofDecimal negative d).Literal := by
  unfold ofDecimal
  extract_lets digits leading places
  have hlt : ∀ x ∈ digits, x < 10 := fun x hx => lt_of_mem_digitsOf hx
  obtain ⟨first, rest, hdigits⟩ := List.exists_cons_of_ne_nil (digitsOf_ne_nil d.digits)
  replace hdigits : digits = first :: rest := hdigits
  split
  · exact ⟨by simp, by simp, by simp, by simp⟩
  next hzero =>
  have hfirst : first ≠ 0 := by
    have := head_digitsOf hzero
    simpa [digits, hdigits] using this
  split
  · -- one digit in front of the point
    rw [hdigits] at hlt ⊢
    obtain ⟨hhead, hrest⟩ := List.forall_mem_cons.1 hlt
    exact ⟨by simp, by simp, by simpa using hhead, by simpa using hrest⟩
  split
  · -- none but a zero
    refine ⟨by simp, by simp, by simp, fun x hx => ?_⟩
    rcases List.mem_append.1 hx with hx | hx
    · obtain rfl := List.eq_of_mem_replicate hx
      decide
    · exact hlt x hx
  next hleading =>
  obtain ⟨k, hk⟩ : ∃ k, places = k + 1 := ⟨leading.toNat, by omega⟩
  split
  · -- zeros up to the point
    refine ⟨by simp [hdigits], by simp [hdigits, hfirst], fun x hx => ?_, by simp⟩
    rcases List.mem_append.1 hx with hx | hx
    · exact hlt x hx
    · obtain rfl := List.eq_of_mem_replicate hx
      decide
  · exact ⟨by simp [hdigits, hk], by simp [hdigits, hk, hfirst],
      fun x hx => hlt x (List.mem_of_mem_take hx), fun x hx => hlt x (List.mem_of_mem_drop hx)⟩

end JsonNumber

end Cadence
