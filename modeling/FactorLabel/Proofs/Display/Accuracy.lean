import FactorLabel.Proofs.Display.Correct

/-!
# How accurate a shown factor is

Three roundings stand between a factor and its text, besides that of the power of ten: the factor is
scaled, it is rounded to a whole number, and it is scaled back. Then the result is written with a
fixed number of places, and it is rounded once more. What they add up to is never much, and so the
text is near the factor, whatever the factor and however many places.

It is not the nearest text for all factors. From two to the fifty-second on a scaled factor has no
halves, and the power of ten itself is rounded past the twenty-second.
-/

namespace FactorLabel.Display

open Number Text

/-- What holds of the text of a finite factor. -/
structure Accuracy (places : Nat) (x : Float) : Prop where
  /-- The text shows some multiple of the unit of the last place, and one that is near. -/
  near : ∃ n : ℤ, Shows places (n / 10 ^ places) (factorText places x).toList
    ∧ |n / 10 ^ places - value x| ≤ 2 / 10 ^ places + |value x| / 2 ^ 51
  /-- A factor that is too large to be scaled is rounded by the printer, and it rounds a half to the
  even neighbour. -/
  unscaled : (scaled places x).isFinite = false →
    ∃ n : ℤ, RoundsEven (value x * 10 ^ places) n
      ∧ Shows places (n / 10 ^ places) (factorText places x).toList
  /-- No factor can be scaled by so large a power of ten. -/
  beyond : 309 ≤ places → (scaled places x).isFinite = false
  /-- Where scaling loses nothing, the text is right. -/
  lossless : places ≤ 22 → (scaled places x).isFinite = true →
    value (scaled places x) = value x * 10 ^ places → Correct places x
  /-- Where the scaled factor stays small, it is the scaled factor that is rounded as it should be,
  and the text is right unless scaling pushes the factor. -/
  small : places ≤ 22 → |value x| * 10 ^ places < 2 ^ 52 →
    (∃ n : ℤ, RoundsAway (value (scaled places x)) n
      ∧ Shows places (n / 10 ^ places) (factorText places x).toList)
    ∧ (Correct places x ↔ ¬PushedOntoHalf places x)
  /-- Whole numbers are shown as they are, if they are not too large, and if they are too large to
  be scaled. -/
  whole : ∀ k : ℤ, value x = k →
    places ≤ 22 ∧ |k| * 10 ^ places ≤ 2 ^ 53 ∨ (scaled places x).isFinite = false →
    Shows places k (factorText places x).toList

variable {places : Nat} {x : Float}

/-! ## The roundings together -/

/-- The roundings added up: `q` is scaled by `a` to `s`, rounded to `r`, scaled back to `w`, and `n`
units of the last place are shown, of which there are `t` in one. -/
theorem near_of_roundings {q a s r w n t m : ℚ} (ht : 1 ≤ t) (ha : 9 / 10 * t ≤ a)
    (hm : m ≤ 1 / t / 1000) (hs : |s - q * a| ≤ q * a / 2 ^ 53 + m) (hr : |s - r| ≤ 1 / 2)
    (hw : |w - r / a| ≤ r / a / 2 ^ 53 + m) (hn : |w * t - n| ≤ 1 / 2) (hq : 0 ≤ q) :
    |n / t - q| ≤ 2 / t + q / 2 ^ 51 := by
  have hpos : 0 < t := by linarith
  have hapos : 0 < a := by linarith
  obtain ⟨d, hd⟩ : ∃ d, d = 1 / t := ⟨_, rfl⟩
  have hdpos : 0 < d := by
    rw [hd]
    positivity
  have hdone : d ≤ 1 := by
    rw [hd, div_le_one hpos]
    exact ht
  have hda : 9 / 10 ≤ d * a := by
    rw [hd, one_div, inv_mul_eq_div, le_div_iff₀ hpos]
    exact ha
  rw [← hd] at hm
  -- scaling and rounding to a whole number, seen from before scaling
  have hscaled : |r / a - q| ≤ 2 / 3 * d + q / 2 ^ 53 := by
    have hsum : |r - q * a| ≤ 1 / 2 + (q * a / 2 ^ 53 + m) := by
      have h := abs_sub_le r s (q * a)
      rw [abs_sub_comm r s] at h
      linarith
    rw [abs_div_sub _ hapos, div_le_iff₀ hapos]
    have hexpand : (2 / 3 * d + q / 2 ^ 53) * a = 2 / 3 * (d * a) + q * a / 2 ^ 53 := by ring
    rw [hexpand]
    linarith
  -- and printing, seen from before the last place is counted
  have hprinted : |w - n / t| ≤ d / 2 := by
    have hdt : d / 2 * t = 1 / 2 := by
      rw [hd]
      field_simp
    rw [abs_sub_comm, abs_div_sub _ hpos, div_le_iff₀ hpos, hdt, abs_sub_comm]
    exact hn
  have htwo : 2 / t = 2 * d := by
    rw [hd]
    ring
  rw [htwo]
  rw [abs_le] at *
  constructor
  · linarith
  · linarith

theorem smallest_le (hplaces : places ≤ 308) :
    (2 : ℚ) ^ (-1075 : ℤ) ≤ 1 / 10 ^ places / 1000 := by
  have hten : (10 : ℚ) ^ places * 1000 ≤ 2 ^ (1075 : ℤ) := by
    have hlast : 10 ^ 308 * 1000 ≤ 2 ^ 1075 := by decide +kernel
    have hpow : (10 : ℚ) ^ places ≤ 10 ^ 308 := pow_le_pow_right₀ (by norm_num) hplaces
    refine (mul_le_mul_of_nonneg_right hpow (by norm_num)).trans ?_
    exact_mod_cast hlast
  rw [div_div, zpow_neg, one_div]
  exact inv_anti₀ (by positivity) hten

/-- What is scaled back is not too large for a double. -/
theorem codeNear_quotient_lt (h : (scaled places x).isFinite = true) {n : Nat}
    (haway : RoundsAway (magnitude (code (scaled places x))) n)
    (hwhole : n ≤ 2 ^ 52 ∨ magnitude (code (scaled places x)) = n) :
    codeNear (n / magnitude (code (powerOfTen places))) < infinityCode := by
  rcases Nat.eq_zero_or_pos places with rfl | hpos
  · -- nothing is scaled
    rw [(powerOfTen_of_le (Nat.zero_le 22)).2, pow_zero, div_one]
    rcases hwhole with hle | hmag
    · exact (codeNear_natCast (Nat.le_trans hle (by norm_num))).1
    · rw [← hmag, codeNear_magnitude (code_lt_of_isFinite h)]
      exact code_lt_of_isFinite h
  · have hpower := (powerOfTen_of_isFinite (isFinite_of_mul_powerOfTen h)).2.2
    have hnine : 9 ≤ magnitude (code (powerOfTen places)) := by
      have hten : (10 : ℚ) ≤ 10 ^ places := le_self_pow₀ (by norm_num) hpos.ne'
      linarith
    have hlarge := magnitude_lt (code_lt_of_isFinite h)
    have hn := (abs_le.mp haway.near).1
    rw [Int.cast_natCast] at hn
    rw [show (1024 : ℤ) = (1023 + 1 : Nat) from rfl, zpow_natCast, pow_succ'] at hlarge
    refine codeNear_lt (div_nonneg (Nat.cast_nonneg n) (magnitude_nonneg _)) ?_
    have hone : (1 : ℚ) ≤ 2 ^ 1023 := one_le_pow₀ one_le_two
    generalize (2 : ℚ) ^ 1023 = b at *
    rw [div_lt_iff₀ (by linarith)]
    calc (n : ℚ) < b * 9 := by linarith
      _ ≤ b * magnitude (code (powerOfTen places)) := by gcongr

/-- A text is near if it shows a number that is near the magnitude, with the sign of the factor. -/
theorem near_of_magnitude {n : Nat}
    (h : |n / 10 ^ places - magnitude (code x)| ≤ 2 / 10 ^ places + magnitude (code x) / 2 ^ 51)
    (hshows : Shows places (signedInt (signBit x) n / 10 ^ places) (factorText places x).toList) :
    ∃ n : ℤ, Shows places (n / 10 ^ places) (factorText places x).toList
      ∧ |n / 10 ^ places - value x| ≤ 2 / 10 ^ places + |value x| / 2 ^ 51 := by
  refine ⟨_, hshows, ?_⟩
  rw [abs_value, cast_signedInt, signed_div, value, abs_signed_sub]
  exact h

theorem near_of_isFinite (hx : x.isFinite = true) :
    ∃ n : ℤ, Shows places (n / 10 ^ places) (factorText places x).toList
      ∧ |n / 10 ^ places - value x| ≤ 2 / 10 ^ places + |value x| / 2 ^ 51 := by
  have hten : (0 : ℚ) < 10 ^ places := by positivity
  have hnonneg := magnitude_nonneg (code x)
  cases h : (scaled places x).isFinite with
  | false =>
      obtain ⟨n, hn, hshows⟩ := unscaled_of_isFinite hx h
      refine ⟨n, hshows, ?_⟩
      have hnear := hn.near
      have hsmall : 0 ≤ |value x| / 2 ^ 51 := by positivity
      rw [abs_sub_comm] at hnear
      rw [abs_div_sub _ hten]
      calc |n - value x * 10 ^ places| / 10 ^ places ≤ 2 / 10 ^ places := by
            gcongr
            linarith
        _ ≤ 2 / 10 ^ places + |value x| / 2 ^ 51 := le_add_of_nonneg_right hsmall
  | true =>
      obtain ⟨r, haway, hwhole, hparts⟩ := roundPlaces_of_isFinite hx h
      have hscale := isFinite_of_mul_powerOfTen h
      obtain ⟨hplaces, -, hpower⟩ := powerOfTen_of_isFinite hscale
      have hquot := codeNear_quotient_lt h haway hwhole
      obtain ⟨hsign, hcode⟩ := hparts hquot
      obtain ⟨-, hscaled, hfin⟩ := scaled_of_isFinite hx h
      obtain ⟨n, hn, hshows⟩ := shows_finiteText places x
      rw [hcode] at hn
      rw [hscaled] at haway
      rw [hsign] at hshows
      have hr := haway.near
      have hn := hn.near
      rw [Int.cast_natCast] at hr hn
      refine near_of_magnitude (near_of_roundings (one_le_pow₀ (by norm_num)) hpower
        (smallest_le hplaces) (abs_magnitude_codeNear_sub_le ?_ hfin) hr
        (abs_magnitude_codeNear_sub_le ?_ hquot) hn hnonneg) (factorText_of_isFinite hx ▸ hshows)
      · exact mul_nonneg hnonneg (magnitude_nonneg _)
      · exact div_nonneg (by positivity) (magnitude_nonneg _)

/-! ## The result -/

/-- The value of a positive double as a quotient. -/
theorem value_eq_div {n d : Nat} (hsign : signBit x = false) (hd : 0 < d)
    (h : numerator (code x) * d = n * denominator (code x)) : value x = n / d := by
  have hden : 0 < denominator (code x) := Nat.two_pow_pos _
  rw [value, hsign, signed, if_neg Bool.false_ne_true, ← numerator_div_denominator,
    div_eq_div_iff (by positivity) (by positivity)]
  exact_mod_cast h

/-- Digits that can be checked show the number that they stand for. -/
theorem shows_of_digits {n : Nat} (whole : Nat) (fraction : List Char) {s : List Char}
    (htext : s = decimalText whole ++ fractionText fraction)
    (hdigits : ∀ c ∈ fraction, c.isDigit = true) (hlength : fraction.length ≤ places)
    (hlast : fraction.getLast? ≠ some '0')
    (hvalue : decimalValue (decimalText whole ++ fraction) * 10 ^ places
      = n * 10 ^ fraction.length) : Shows places ((n : ℤ) / 10 ^ places) s := by
  have hq : (0 : ℚ) ≤ (n : ℤ) / 10 ^ places := by positivity
  refine ⟨whole, fraction, ?_, hdigits, hlength, hlast, ?_⟩
  · rw [htext, decide_eq_false hq.not_gt]
    rfl
  · rw [abs_of_nonneg hq, Decimal.ofParts, Decimal.value, zpow_neg, zpow_natCast,
      ← div_eq_mul_inv, div_eq_div_iff (by positivity) (by positivity)]
    exact_mod_cast hvalue

/-- **The accuracy of a shown factor.** -/
theorem factorText_accuracy (places : Nat) {x : Float} (hx : x.isFinite = true) :
    Accuracy places x where
  near := near_of_isFinite hx
  unscaled h := unscaled_of_isFinite hx h
  beyond hplaces := by
    refine Bool.eq_false_iff.mpr fun h => ?_
    have := (powerOfTen_of_isFinite (isFinite_of_mul_powerOfTen h)).1
    omega
  lossless hplaces h hexact := correct_of_lossless hx hplaces h hexact
  small hplaces hlt := small_of_isFinite hx hplaces hlt
  whole k hk hrange := by
    rcases hrange with ⟨hplaces, hle⟩ | h
    · exact shows_whole hx hplaces hk hle
    · obtain ⟨n, hn, hshows⟩ := unscaled_of_isFinite hx h
      exact shows_of_near hk hn.near hshows

/-- One eighth is scaled without loss. So it is shown rounded, and its half goes away from zero. -/
theorem factorText_accuracy_eighth : (0.125 : Float).isFinite = true ∧ Correct 2 0.125 := by
  have hfin : (0.125 : Float).isFinite = true := by decide +kernel
  have hvalue : value 0.125 = (1 : Nat) / (8 : Nat) :=
    value_eq_div (by decide +kernel) (by decide) (by decide +kernel)
  have hscaled : value (scaled 2 0.125) = (25 : Nat) / (2 : Nat) :=
    value_eq_div (by decide +kernel) (by decide) (by decide +kernel)
  refine ⟨hfin, (factorText_accuracy 2 hfin).lossless (by decide) (by decide +kernel) ?_⟩
  rw [hvalue, hscaled]
  norm_num

/-- A text is wrong if it shows another number than the factor is rounded to. -/
theorem not_correct_of_shows {n m d : Nat}
    (hshows : Shows places ((n : ℤ) / 10 ^ places) (factorText places x).toList)
    (hvalue : value x = m / d) (hfar : ¬RoundsAway (m / d * 10 ^ places) n) :
    ¬Correct places x := by
  intro h
  have haway := h.roundsAway hshows
  rw [hvalue] at haway
  exact hfar haway

/-- A whole number and a half that are too large: scaled by a power of ten the first is no double,
and the second loses its half. A number below a half is no larger than others, but scaling pushes it
up onto the half. -/
theorem not_correct_large :
    ¬Correct 2 4184424907223391 ∧ ¬Correct 1 450359962737050.25 ∧ ¬Correct 2 2.675 := by
  refine ⟨?_, ?_, ?_⟩
  · have hshows : Shows 2 (((418442490722339050 : Nat) : ℤ) / 10 ^ 2)
        (factorText 2 4184424907223391).toList :=
      shows_of_digits 4184424907223390 ['5'] (by decide +kernel)
        (fun c hc => List.mem_singleton.mp hc ▸ rfl) (by decide) (by decide) (by decide +kernel)
    have hvalue : value 4184424907223391 = (4184424907223391 : Nat) / (1 : Nat) :=
      value_eq_div (by decide +kernel) (by decide) (by decide +kernel)
    refine not_correct_of_shows hshows hvalue ?_
    rw [RoundsAway]
    norm_num
  · have hshows : Shows 1 (((4503599627370502 : Nat) : ℤ) / 10 ^ 1)
        (factorText 1 450359962737050.25).toList :=
      shows_of_digits 450359962737050 ['2'] (by decide +kernel)
        (fun c hc => List.mem_singleton.mp hc ▸ rfl) (by decide) (by decide) (by decide +kernel)
    have hvalue : value 450359962737050.25 = (1801439850948201 : Nat) / (4 : Nat) :=
      value_eq_div (by decide +kernel) (by decide) (by decide +kernel)
    refine not_correct_of_shows hshows hvalue ?_
    rw [RoundsAway]
    norm_num
  · have hshows : Shows 2 (((268 : Nat) : ℤ) / 10 ^ 2) (factorText 2 2.675).toList :=
      shows_of_digits 2 ['6', '8'] (by decide +kernel) (List.all_eq_true.mp rfl) (by decide)
        (by decide) (by decide +kernel)
    have hvalue : value 2.675 = (3011782250804019 : Nat) / (1125899906842624 : Nat) :=
      value_eq_div (by decide +kernel) (by decide) (by decide +kernel)
    refine not_correct_of_shows hshows hvalue ?_
    rw [RoundsAway]
    norm_num

end FactorLabel.Display
