import FactorLabel.Proofs.Display.Accuracy
import FactorLabel.Proofs.Grammar.Factor
import FactorLabel.Token.Pattern

/-!
# Shown factors are in normal form

A finite factor is written with a fixed number of places, and then the text is trimmed. Both texts
are factors that can be read, and they stand for the same number. The trimmed one is in normal form:
there are no zeros that do not count, and zero has no sign.

Trimming never touches the whole digits, so the zeros of a hundred are kept even where no place and
no point stand behind them. It is the same for every factor and for any number of places, whether
the factor was scaled or was too large to be.
-/

namespace FactorLabel

open Text Number Display

namespace FactorToken

variable {places : Nat} {t u : FactorToken}

/-- The number in front of the percent sign. -/
def number (t : FactorToken) : ℚ := signed t.negative (Decimal.ofParts t.whole t.fraction).value

/-- The token of a minus sign and a zero. -/
def negativeZero : FactorToken := ⟨true, ['0'], [], false⟩

/-- `t` is a number in normal form, with at most `places` decimal places. -/
structure Normal (places : Nat) (t : FactorToken) : Prop where
  percent : t.percent = false
  nonempty : t.whole ≠ []
  whole : ∀ c ∈ t.whole, c.isDigit = true
  /-- A zero is the first of the whole digits only if it is the only one. -/
  leading : t.whole.head? = some '0' → t.whole = ['0']
  fraction : ∀ c ∈ t.fraction, c.isDigit = true
  length_le : t.fraction.length ≤ places
  /-- No zero stands at the end of the decimal places. -/
  last : t.fraction.getLast? ≠ some '0'
  ne_negativeZero : t ≠ negativeZero

theorem Normal.wellFormed (h : t.Normal places) : t.WellFormed where
  nonempty := h.nonempty
  whole c hc := isNumeral_of_isDigit (h.whole c hc)
  fraction c hc := isNumeral_of_isDigit (h.fraction c hc)

theorem WellFormed.text_eq_negativeZero_iff (h : t.WellFormed) :
    t.text = ['-', '0'] ↔ t = negativeZero := by
  have hzero : negativeZero.WellFormed := by
    refine ⟨List.cons_ne_nil _ _, fun c hc => ?_, fun c hc => absurd hc List.not_mem_nil⟩
    rw [List.mem_singleton.mp hc]
    exact isNumeral_of_isDigit rfl
  constructor
  · intro htext
    exact h.text_inj hzero htext
  · rintro rfl
    rfl

/-- There are digits at the end, those of the places if there are any. -/
theorem Normal.getLast?_text (h : t.Normal places) : t.text.getLast? ≠ some '.' := by
  have hdigits : ∃ s ds, t.text = s ++ ds ∧ ds ≠ [] ∧ ∀ c ∈ ds, c.isDigit = true := by
    rw [text_eq, h.percent, show markText '%' false = [] from rfl, List.append_nil]
    cases hfraction : t.fraction with
    | nil =>
        refine ⟨markText '-' t.negative, t.whole, ?_, h.nonempty, h.whole⟩
        rw [show fractionText [] = [] from rfl, List.append_nil]
    | cons c fraction =>
        refine ⟨markText '-' t.negative ++ (t.whole ++ ['.']), c :: fraction, ?_,
          List.cons_ne_nil c fraction, fun d hd => h.fraction d (hfraction ▸ hd)⟩
        rw [List.append_assoc, List.append_assoc]
        rfl
  obtain ⟨s, ds, htext, hne, hds⟩ := hdigits
  intro hlast
  rw [htext, List.getLast?_append_of_ne_nil s hne] at hlast
  exact absurd (hds '.' (List.mem_of_getLast? hlast)) (by decide)

/-! ## Trimming -/

/-- The token without zeros at the end of the places. -/
def dropZeros (t : FactorToken) : FactorToken := { t with fraction := trimEnd '0' t.fraction }

/-- The token, and zero without its sign. -/
def dropSign (t : FactorToken) : FactorToken :=
  if t = negativeZero then { negativeZero with negative := false } else t

/-- What trimming leaves. -/
def trim (t : FactorToken) : FactorToken := t.dropZeros.dropSign

/-- Whether zero had a sign or not, the other parts are the same. -/
theorem dropSign_parts (t : FactorToken) :
    t.dropSign.whole = t.whole ∧ t.dropSign.fraction = t.fraction
      ∧ t.dropSign.percent = t.percent := by
  unfold dropSign
  by_cases hzero : t = negativeZero
  · rw [if_pos hzero, hzero]
    exact ⟨rfl, rfl, rfl⟩
  · rw [if_neg hzero]
    exact ⟨rfl, rfl, rfl⟩

theorem dropSign_ne_negativeZero (t : FactorToken) : t.dropSign ≠ negativeZero := by
  unfold dropSign
  by_cases hzero : t = negativeZero
  · rw [if_pos hzero]
    exact fun h => Bool.false_ne_true (congrArg negative h)
  · rw [if_neg hzero]
    exact hzero

theorem number_dropSign (t : FactorToken) : t.dropSign.number = t.number := by
  unfold dropSign
  by_cases hzero : t = negativeZero
  · have hvalue : (Decimal.ofParts ['0'] []).value = 0 := zero_mul _
    have hnumber : negativeZero.number = -(Decimal.ofParts ['0'] []).value := rfl
    rw [if_pos hzero, hzero, hnumber, hvalue, neg_zero]
    exact hvalue
  · rw [if_neg hzero]

theorem WellFormed.text_dropSign (h : t.WellFormed) :
    t.dropSign.text = if t.text = ['-', '0'] then ['0'] else t.text := by
  rw [if_congr h.text_eq_negativeZero_iff rfl rfl]
  exact apply_ite text _ _ _

theorem WellFormed.dropZeros (h : t.WellFormed) : t.dropZeros.WellFormed :=
  ⟨h.nonempty, h.whole, fun c hc => h.fraction c ((trimEnd_isPrefix '0' t.fraction).subset hc)⟩

theorem number_dropZeros (t : FactorToken) : t.dropZeros.number = t.number := by
  rw [number, number, dropZeros, value_ofParts_trimEnd]

/-- `t` is what trimming leaves of `u`. Zeros are all that is taken off the places, the whole digits
stay, and so does the number. -/
structure Trimmed (u t : FactorToken) : Prop where
  whole : t.whole = u.whole
  zeros : ∃ n, u.fraction = t.fraction ++ List.replicate n '0'
  number : t.number = u.number

theorem trimmed_trim (t : FactorToken) : Trimmed t t.trim where
  whole := t.dropZeros.dropSign_parts.1
  zeros := by
    rw [trim, t.dropZeros.dropSign_parts.2.1]
    exact trimEnd_append_replicate '0' t.fraction
  number := by rw [trim, number_dropSign, number_dropZeros]

/-! ## A fixed number of places -/

/-- The token of a finite double with exactly `places` decimal places. -/
def fixed (places : Nat) (x : Float) : FactorToken :=
  let d := roundedDecimal places (code x)
  ⟨signBit x, decimalText d.whole, d.fraction, false⟩

theorem length_fraction_fixed (places : Nat) (x : Float) :
    (fixed places x).fraction.length = places := by
  have hplaces : (-(roundedDecimal places (code x)).exponent).toNat = places := by
    simp [roundedDecimal]
  rw [fixed, Decimal.fraction, length_lastDigits, hplaces]

theorem fraction_fixed_isDigit (places : Nat) (x : Float) :
    ∀ c ∈ (fixed places x).fraction, c.isDigit = true := lastDigits_isDigit _ _

theorem wellFormed_fixed (places : Nat) (x : Float) : (fixed places x).WellFormed where
  nonempty := decimalText_ne_nil _
  whole c hc := isNumeral_of_isDigit (decimalText_isDigit _ c hc)
  fraction c hc := isNumeral_of_isDigit (fraction_fixed_isDigit places x c hc)

theorem text_fixed (places : Nat) (x : Float) : (fixed places x).text = fixedText places x := by
  rw [text_eq, show markText '%' (fixed places x).percent = [] from rfl, List.append_nil]
  rfl

/-- What is trimmed is in normal form. -/
theorem normal_trim_fixed (places : Nat) (x : Float) : (fixed places x).trim.Normal places := by
  obtain ⟨hwhole, hfraction, hpercent⟩ := (fixed places x).dropZeros.dropSign_parts
  have hkept := trimEnd_isPrefix '0' (fixed places x).fraction
  rw [show trimEnd '0' _ = _ from hfraction.symm] at hkept
  refine ⟨hpercent, ?_, ?_, ?_, ?_, ?_, ?_, dropSign_ne_negativeZero _⟩
  · rw [trim, hwhole]
    exact decimalText_ne_nil _
  · rw [trim, hwhole]
    exact decimalText_isDigit _
  · rw [trim, hwhole]
    intro hhead
    have hzero := eq_zero_of_head_decimalText hhead
    show decimalText (roundedDecimal places (code x)).whole = _
    rw [hzero]
    rfl
  · exact fun c hc => fraction_fixed_isDigit places x c (hkept.subset hc)
  · exact hkept.length_le.trans (length_fraction_fixed places x).le
  · rw [trim, hfraction]
    exact getLast?_trimEnd '0' _

/-- Trimming the text is trimming the token. -/
theorem text_trim_fixed (places : Nat) (x : Float) :
    (fixed places (roundPlaces places x)).trim.text = finiteText places x := by
  have htext : trimPlaces (fixedText places (roundPlaces places x))
      = (fixed places (roundPlaces places x)).dropZeros.text := by
    rw [fixedText, show signText (roundPlaces places x) = markText '-' (signBit _) from rfl,
      trimPlaces_text, text_eq, show markText '%' _ = [] from rfl, List.append_nil]
    rfl
  rw [finiteText, htext, trim, (wellFormed_fixed places _).dropZeros.text_dropSign]

end FactorToken

/-! ## The result -/

namespace Display

variable {places : Nat} {x : Float}

/-- Rounding leaves a finite factor finite, scaled or not. -/
theorem isFinite_roundPlaces (hx : x.isFinite = true) : (roundPlaces places x).isFinite = true := by
  cases h : (scaled places x).isFinite with
  | false => rwa [roundPlaces_of_not_isFinite h]
  | true =>
      obtain ⟨n, haway, hwhole, hparts⟩ := roundPlaces_of_isFinite hx h
      have hquot := codeNear_quotient_lt h haway hwhole
      have hcode := (hparts hquot).2
      rw [← ofCode_code (roundPlaces places x), hcode]
      exact Double.isFinite_ofCode _ hquot

/-- `x` is shown as the token `t` in normal form. That is what trimming leaves of the token `u`,
which has all the places. -/
structure NormalText (places : Nat) (x : Float) (u t : FactorToken) : Prop where
  /-- What is written with a fixed number of places is a number. -/
  finite : (roundPlaces places x).isFinite = true
  untrimmed : FactorToken.whole? (fixedText places (roundPlaces places x)) = some u
  length_eq : u.fraction.length = places
  trimmed : u.Trimmed t
  normal : t.Normal places
  text : (factorText places x).toList = t.text
  /-- The text is taken for a factor as a whole. -/
  accepted : Pattern.factor.read? (factorText places x).toList = some (Pattern.ofFactor t)
  ne_negativeZero : factorText places x ≠ "-0"
  last : (factorText places x).toList.getLast? ≠ some '.'

/--
**A finite factor is shown in normal form.**

The text can be read as a factor, whatever the factor and however many places. Before it was trimmed
it stood for the same number.
-/
theorem factorText_normal (places : Nat) {x : Float} (hx : x.isFinite = true) :
    ∃ u t, NormalText places x u t := by
  obtain ⟨u, hu⟩ : ∃ u, u = FactorToken.fixed places (roundPlaces places x) := ⟨_, rfl⟩
  have hnormal : u.trim.Normal places := hu ▸ FactorToken.normal_trim_fixed places _
  have htext : (factorText places x).toList = u.trim.text := by
    rw [factorText_of_isFinite hx, hu, FactorToken.text_trim_fixed]
  refine ⟨u, u.trim, isFinite_roundPlaces hx, ?_, ?_, u.trimmed_trim, hnormal, htext, ?_, ?_, ?_⟩
  · rw [← FactorToken.text_fixed, ← hu]
    exact FactorToken.whole?_eq_some_iff.mpr ⟨hu ▸ FactorToken.wellFormed_fixed places _, rfl⟩
  · rw [hu]
    exact FactorToken.length_fraction_fixed places _
  · have hread := FactorToken.whole?_eq_some_iff.mpr ⟨hnormal.wellFormed, htext⟩
    rw [Pattern.read?, hread, Option.map_some]
  · intro hzero
    rw [hzero] at htext
    exact hnormal.ne_negativeZero (hnormal.wellFormed.text_eq_negativeZero_iff.mp htext.symm)
  · rw [htext]
    exact hnormal.getLast?_text

/-- A factor that is rounded to a negative zero, and a hundred, which is too large to be scaled to
four hundred places. -/
theorem factorText_normal_regimes :
    fixedText 2 (roundPlaces 2 (-0.001)) = "-0.00".toList ∧ factorText 2 (-0.001) = "0"
    ∧ (scaled 400 100).isFinite = false ∧ factorText 400 100 = "100"
    ∧ (∃ u t, NormalText 2 (-0.001) u t) ∧ ∃ u t, NormalText 400 100 u t := by
  refine ⟨by decide +kernel, by decide +kernel, by decide +kernel, by decide +kernel, ?_, ?_⟩
  · exact factorText_normal 2 (by decide +kernel)
  · exact factorText_normal 400 (by decide +kernel)

end Display

end FactorLabel
