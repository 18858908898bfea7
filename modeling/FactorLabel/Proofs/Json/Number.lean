import FactorLabel.Json.Number
import FactorLabel.Proofs.Number.Code
import FactorLabel.Proofs.Text.Scan

/-!
# JSON numbers read back

A written number is read part by part, and each part ends where the next one starts. So the number
is found again, whatever follows it, as long as that does not go on with the number.

What a number was written for is found again too: an integer, and a finite double with its sign,
whether it was written positionally or with an exponent.
-/

namespace FactorLabel.Json.Number

open FactorLabel.Number Text

/-! ## The parts of a number -/

/-- Could the character be a part of a number that has begun? -/
def goesOn (c : Char) : Bool := c.isDigit || c == '.' || c == 'e' || c == 'E'

theorem text_eq (n : Number) : n.text = markText '-' n.negative ++
    (decimalText n.whole ++ (fractionText n.fraction ++ exponentText n.exponent)) := by
  rw [text, List.append_assoc, List.append_assoc]
  rfl

variable {rest : List Char}

theorem of_goesOn_eq_false {c : Char} (h : goesOn c = false) :
    c.isDigit = false ∧ (c == '.') = false ∧ ¬(c = 'e' ∨ c = 'E') := by
  simpa [goesOn, and_assoc] using h

theorem stops_isDigit (h : Stops goesOn rest) : Stops Char.isDigit rest :=
  fun c hc => (of_goesOn_eq_false (h c hc)).1

theorem stops_point (h : Stops goesOn rest) : Stops (· == '.') rest :=
  fun c hc => (of_goesOn_eq_false (h c hc)).2.1

theorem stops_exponentText_append {p : Char → Bool} (hp : p 'e' = false) (h : Stops p rest)
    (e : Option Int) : Stops p (exponentText e ++ rest) := by
  cases e with
  | none => exact h
  | some e => exact stops_cons hp

/-- A number starts with a minus sign or with a digit. -/
theorem text_head (n : Number) : ∃ c s, n.text = c :: s ∧ (c = '-' ∨ c.isDigit = true) := by
  rw [text_eq]
  cases n.negative with
  | true => exact ⟨'-', _, rfl, .inl rfl⟩
  | false =>
      obtain ⟨c, s, htext, hdigit⟩ := decimalText_head n.whole
      rw [htext]
      exact ⟨c, _, rfl, .inr hdigit⟩

/-! ## Each part is read as it is written -/

theorem readDigits?_append {ds : List Char} (hne : ds ≠ []) (hds : ∀ c ∈ ds, c.isDigit = true)
    (h : Stops Char.isDigit rest) : readDigits? (ds ++ rest) = some (ds, rest) := by
  rw [readDigits?, takeWhile_append_of_stops hds h, dropWhile_append_of_stops hds h, if_neg]
  simpa using hne

theorem readDigits?_decimalText (n : Nat) (h : Stops Char.isDigit rest) :
    readDigits? (decimalText n ++ rest) = some (decimalText n, rest) :=
  readDigits?_append (decimalText_ne_nil n) (decimalText_isDigit n) h

theorem readWhole?_decimalText (n : Nat) (h : Stops Char.isDigit rest) :
    readWhole? (decimalText n ++ rest) = some (n, rest) := by
  -- a zero in front is the whole numeral
  have hzero : ¬((decimalText n).head? = some '0' ∧ (decimalText n).length ≠ 1) := by
    rintro ⟨hhead, hlength⟩
    rw [eq_zero_of_head_decimalText hhead] at hlength
    exact hlength rfl
  simp only [readWhole?, readDigits?_decimalText n h, if_neg hzero, decimalValue_decimalText]

theorem readFraction?_fractionText {fraction : List Char}
    (hfraction : ∀ c ∈ fraction, c.isDigit = true) (hdigit : Stops Char.isDigit rest)
    (hpoint : Stops (· == '.') rest) :
    readFraction? (fractionText fraction ++ rest) = some (fraction, rest) := by
  rw [fractionText]
  split
  · rename_i hempty
    rw [List.isEmpty_iff.mp hempty, List.nil_append, readFraction?.eq_def]
    split
    · exact absurd (hpoint '.' rfl) (by decide)
    · rfl
  · rename_i hne
    exact readDigits?_append (by simpa using hne) hfraction hdigit

theorem readExponent?_exponentText (e : Option Int) (h : Stops goesOn rest) :
    readExponent? (exponentText e ++ rest) = some (e, rest) := by
  cases e with
  | none =>
      cases rest with
      | nil => rfl
      | cons c rest =>
          exact if_neg (of_goesOn_eq_false (h c rfl)).2.2
  | some e =>
      have hread := readDigits?_decimalText e.natAbs (stops_isDigit h)
      rw [exponentText, List.cons_append, List.cons_append, readExponent?, if_pos (.inl rfl)]
      by_cases hneg : e < 0
      · simp only [if_pos hneg, takeSign, hread, Option.map_some, if_true,
          decimalValue_decimalText]
        rw [(by omega : -(e.natAbs : Int) = e)]
      · simp only [if_neg hneg, takeSign, hread, Option.map_some, decimalValue_decimalText,
          Bool.false_eq_true, if_false]
        rw [(by omega : (e.natAbs : Int) = e)]

/-- **A number is read as it is written.** -/
theorem read?_text {n : Number} (hfraction : ∀ c ∈ n.fraction, c.isDigit = true)
    (h : Stops goesOn rest) : read? (n.text ++ rest) = some (n, rest) := by
  have hexponent := readExponent?_exponentText n.exponent h
  have hfrac := readFraction?_fractionText hfraction
    (stops_exponentText_append rfl (stops_isDigit h) n.exponent)
    (stops_exponentText_append rfl (stops_point h) n.exponent)
  have hwhole := readWhole?_decimalText n.whole (stops_fractionText_append n.fraction rfl
    (stops_exponentText_append rfl (stops_isDigit h) n.exponent))
  have hmark : takeMark '-' (n.text ++ rest) = (n.negative, decimalText n.whole ++
      (fractionText n.fraction ++ (exponentText n.exponent ++ rest))) := by
    rw [text_eq, List.append_assoc, List.append_assoc, List.append_assoc]
    exact takeMark_append fun _ => stops_decimalText_append rfl n.whole _
  simp only [read?, hmark, hwhole, hfrac, hexponent, Option.bind_eq_bind, Option.bind_some]

/-! ## What a number was written for -/

theorem toInt?_ofInt (n : Int) : toInt? (ofInt n) = some n := by
  have hnot : ¬(decide (n < 0) = true ∧ n.natAbs = 0) := by
    rw [decide_eq_true_iff]
    omega
  rw [ofInt, toInt?, if_pos ⟨rfl, rfl, hnot⟩]
  by_cases hneg : n < 0
  · rw [if_pos (decide_eq_true hneg), (by omega : -(n.natAbs : Int) = n)]
  · rw [if_neg (by simpa using hneg), (by omega : (n.natAbs : Int) = n)]

/-- Without an exponent a number is read as what stands around the point. -/
theorem magnitude_eq_ofParts (negative : Bool) (whole : Nat) (fraction : List Char) :
    (⟨negative, whole, fraction, none⟩ : Number).magnitude
      = .ofParts (decimalText whole) fraction := by
  rw [Decimal.ofParts, decimalValue_append, decimalValue_decimalText, magnitude, Option.getD_none,
    Int.zero_sub]
  rfl

theorem value_ofParts_zero (whole : List Char) :
    (Decimal.ofParts whole ['0']).value = (Decimal.ofParts whole []).value := by
  have hzero : decimalValue ['0'] = 0 := rfl
  rw [Decimal.ofParts, Decimal.ofParts, decimalValue_append, hzero, List.append_nil]
  simp [Decimal.value]

/-- Positionally or with an exponent, the number that is written is the decimal. -/
theorem value_magnitude_ofDecimal (negative : Bool) (d : Decimal) :
    (ofDecimal negative d).magnitude.value = d.value := by
  have hparts := d.value_ofParts_text
  simp only [ofDecimal]
  split
  · rw [magnitude_eq_ofParts]
    split
    · rename_i hempty
      rw [List.isEmpty_iff.mp hempty] at hparts
      rw [value_ofParts_zero, hparts]
    · exact hparts
  · -- the digits behind the point are as many as the exponent counts
    generalize (decimalText d.digits).length - 1 = rest
    have hdigits : d.digits / 10 ^ rest * 10 ^ rest + d.digits % 10 ^ rest = d.digits :=
      Nat.div_add_mod' _ _
    have hexponent : d.exponent + (rest : Int) - rest = d.exponent := by omega
    simp only [magnitude, length_lastDigits, decimalValue_lastDigits, Nat.pow_eq, hdigits,
      Option.getD_some, hexponent]

theorem ofDecimal_isDigit (negative : Bool) (d : Decimal) :
    ∀ c ∈ (ofDecimal negative d).fraction, c.isDigit = true := by
  simp only [ofDecimal]
  split
  · split
    · intro c hc
      rw [List.mem_singleton.mp hc]
      rfl
    · exact lastDigits_isDigit _ _
  · exact lastDigits_isDigit _ _

/-- **A finite double is read as it is written.** -/
theorem toFloat?_ofFloat {x : Float} (h : x.isFinite = true) : toFloat? (ofFloat x) = some x := by
  have hcode : (ofFloat x).magnitude.nearestCode = code x :=
    (Decimal.nearestCode_congr (value_magnitude_ofDecimal _ _)).trans
      (nearestCode_shortest .even (code_lt_of_isFinite h))
  have hfloat : (ofFloat x).magnitude.toFloat (ofFloat x).negative = x := by
    have hsign : (ofFloat x).negative = signBit x := by
      rw [ofFloat, ofDecimal]
      split
      · rfl
      · rfl
    rw [Decimal.toFloat, hcode, hsign, ofCode_code]
  simp only [toFloat?, hfloat, if_pos h]

end FactorLabel.Json.Number
