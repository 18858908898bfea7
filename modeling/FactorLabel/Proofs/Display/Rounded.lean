import FactorLabel.Proofs.Display.Scale
import FactorLabel.Proofs.Display.Shown

/-!
# How a shown factor is rounded

A factor is scaled by a power of ten, rounded to a whole number and scaled back, and then it is
written with a fixed number of places. Each step is described on its own here, by what it does to
the sign and to the magnitude. Scaling, both ways, takes the nearest double. Rounding to a whole
number goes away from zero at a half, and what it rounds is the scaled double. Writing rounds once
more, to the even neighbour at a half, and trimming changes nothing about the number.
-/

namespace FactorLabel.Display

open Number
open Number.Double (isFinite_ofCode isFinite_ofCode_infinity code_ofCode signBit_ofCode
  mul_eq_ofCode div_eq_ofCode)

/-! ## Rounding away from zero -/

/-- `n` is a whole number nearest to `q`, and the one further from zero if there are two. -/
def RoundsAway (q : ℚ) (n : ℤ) : Prop := |q - n| < 1 / 2 ∨ |q - n| = 1 / 2 ∧ |q| < |(n : ℚ)|

theorem RoundsAway.near {q : ℚ} {n : ℤ} (h : RoundsAway q n) : |q - n| ≤ 1 / 2 := by
  rcases h with h | ⟨h, -⟩
  · exact h.le
  · exact h.le

theorem roundsAway_iff {q : ℚ} (hq : 0 ≤ q) (n : Nat) :
    RoundsAway q n ↔ n - 1 / 2 ≤ q ∧ q < n + 1 / 2 := by
  have hn : (0 : ℚ) ≤ n := by positivity
  rw [RoundsAway, Int.cast_natCast, abs_of_nonneg hq, abs_of_nonneg hn]
  constructor
  · rintro (h | ⟨h, hlt⟩)
    · rw [abs_lt] at h
      exact ⟨by linarith, by linarith⟩
    · rw [abs_of_neg (by linarith)] at h
      exact ⟨by linarith, by linarith⟩
  · rintro ⟨hlo, hhi⟩
    rcases hlo.eq_or_lt with heq | hlt
    · right
      rw [abs_of_neg (by linarith)]
      exact ⟨by linarith, by linarith⟩
    · left
      rw [abs_lt]
      exact ⟨by linarith, by linarith⟩

/-- The whole number of a sign and a magnitude. -/
def signedInt (negative : Bool) (n : Nat) : ℤ := if negative then -n else n

theorem cast_signedInt (negative : Bool) (n : Nat) :
    (signedInt negative n : ℚ) = signed negative n := by
  cases negative with
  | true => exact Int.cast_neg _
  | false => rfl

theorem abs_signed_sub (negative : Bool) (a b : ℚ) :
    |signed negative a - signed negative b| = |a - b| := by
  cases negative with
  | true =>
      show |-a - -b| = _
      rw [neg_sub_neg, abs_sub_comm]
  | false => rfl

theorem signed_mul (negative : Bool) (a b : ℚ) :
    signed negative a * b = signed negative (a * b) := by
  cases negative with
  | true => exact neg_mul a b
  | false => rfl

theorem signed_div (negative : Bool) (a b : ℚ) :
    signed negative a / b = signed negative (a / b) := by
  cases negative with
  | true => exact neg_div b a
  | false => rfl

theorem roundsAway_signed {q : ℚ} (negative : Bool) (n : Nat) :
    RoundsAway (signed negative q) (signedInt negative n) ↔ RoundsAway q n := by
  rw [RoundsAway, RoundsAway, cast_signedInt, abs_signed_sub, abs_signed, abs_signed,
    Int.cast_natCast]

theorem roundsEven_signed {q : ℚ} (negative : Bool) (n : Nat) :
    RoundsEven (signed negative q) (signedInt negative n) ↔ RoundsEven q n := by
  have heven : Even (signedInt negative n) ↔ Even (n : ℤ) := by
    cases negative with
    | true => exact even_neg
    | false => exact Iff.rfl
  rw [RoundsEven, RoundsEven, cast_signedInt, abs_signed_sub, heven, Int.cast_natCast]

/-! ## Rounding to a whole number -/

/-- A double counted in whole units is a whole number. -/
theorem denominator_eq_one {c : Nat} (h : 0 ≤ unitExponent c) : denominator c = 1 := by
  rw [denominator, Int.toNat_eq_zero.mpr (by omega), Nat.pow_eq, Nat.pow_zero]

/-- A double counted in parts of a unit is less than the last double that has halves. -/
theorem magnitude_lt_of_unitExponent {c : Nat} (h : unitExponent c < 0) : magnitude c < 2 ^ 52 := by
  have hs : (significand c : ℚ) < 2 ^ 53 := by exact_mod_cast (significand_bounds c).1
  calc magnitude c < 2 ^ 53 * 2 ^ unitExponent c := by
        rw [magnitude]
        gcongr
    _ ≤ 2 ^ 53 * 2 ^ (-1 : ℤ) := by
        gcongr
        · exact one_le_two
        · omega
    _ = 2 ^ 52 := by norm_num

/-- The division rounds a half more than the quotient down. -/
theorem half_more_bounds (num : Nat) {den : Nat} (hden : 0 < den) :
    (((2 * num + den) / (2 * den) : Nat) : ℚ) ≤ num / den + 1 / 2
      ∧ (num : ℚ) / den + 1 / 2 < ((2 * num + den) / (2 * den) : Nat) + 1 := by
  have hpos : (0 : ℚ) < den := by exact_mod_cast hden
  have hlo := Nat.div_mul_le_self (2 * num + den) (2 * den)
  have hhi := Nat.lt_mul_div_succ (2 * num + den) (Nat.mul_pos two_pos hden)
  generalize (2 * num + den) / (2 * den) = n at *
  have hsum : (num : ℚ) / den + 1 / 2 = (2 * num + den) / (2 * den) := by field_simp
  rw [hsum, le_div_iff₀ (by positivity), div_lt_iff₀ (by positivity), mul_comm ((n : ℚ) + 1)]
  exact ⟨by exact_mod_cast hlo, by exact_mod_cast hhi⟩

/-- **Rounding to a whole number goes away from zero at a half**, and it changes nothing where a
double has no places behind the point. -/
theorem roundHalfAway_of_isFinite {x : Float} (hx : x.isFinite = true) :
    ∃ n : Nat, RoundsAway (magnitude (code x)) n ∧ (n ≤ 2 ^ 52 ∨ magnitude (code x) = n)
      ∧ (roundHalfAway x).isFinite = true ∧ signBit (roundHalfAway x) = signBit x
      ∧ magnitude (code (roundHalfAway x)) = n := by
  rcases lt_or_ge (unitExponent (code x)) 0 with hunit | hunit
  · obtain ⟨n, hn⟩ : ∃ n : Nat, (2 * numerator (code x) + denominator (code x))
      / (2 * denominator (code x)) = n := ⟨_, rfl⟩
    have hround : roundHalfAway x = ofCode (signBit x) (codeNear n) := by
      have hfin := code_lt_of_isFinite hx
      have hone := nearestCode_eq_codeNear n Nat.one_pos
      rw [Nat.cast_one, div_one] at hone
      rw [roundHalfAway, if_neg (by omega)]
      simp only [hn, hone]
    have hbounds := half_more_bounds (numerator (code x))
      (show 0 < denominator (code x) from Nat.two_pow_pos _)
    rw [hn, numerator_div_denominator] at hbounds
    have hle : n ≤ 2 ^ 52 := by
      have hlarge := magnitude_lt_of_unitExponent hunit
      have hlt : (n : ℚ) < 2 ^ 52 + 1 := by linarith [hbounds.1]
      exact Nat.lt_succ_iff.mp (by exact_mod_cast hlt)
    obtain ⟨hlt, hmag⟩ := codeNear_natCast (Nat.le_trans hle (by norm_num))
    refine ⟨n, ?_, .inl hle, ?_⟩
    · refine (roundsAway_iff (magnitude_nonneg _) n).mpr ⟨?_, ?_⟩
      · linarith [hbounds.1]
      · linarith [hbounds.2]
    · rw [hround, isFinite_ofCode _ hlt, signBit_ofCode _ hlt, code_ofCode _ hlt]
      exact ⟨rfl, rfl, hmag⟩
  · have hround : roundHalfAway x = x := if_pos (.inr hunit)
    have hmag : magnitude (code x) = numerator (code x) :=
      magnitude_eq_natCast (by rw [denominator_eq_one hunit, Nat.mul_one])
    refine ⟨numerator (code x), ?_, .inr hmag, ?_⟩
    · rw [hmag]
      exact (roundsAway_iff (by positivity) _).mpr ⟨by linarith, by linarith⟩
    · rw [hround]
      exact ⟨hx, rfl, hmag⟩

/-! ## Scaling, and scaling back -/

variable {places : Nat} {x : Float}

/-- The factor scaled by a power of ten, in doubles. -/
def scaled (places : Nat) (x : Float) : Float := x * powerOfTen places

theorem scale_pos (h : (powerOfTen places).isFinite = true) :
    0 < magnitude (code (powerOfTen places)) :=
  lt_of_lt_of_le (by positivity) (powerOfTen_of_isFinite h).2.2

theorem finite_of_ofCode {negative : Bool} {q : ℚ}
    (h : (ofCode negative (codeNear q)).isFinite = true) : codeNear q < infinityCode := by
  refine lt_of_le_of_ne (codeNear_le q) fun heq => ?_
  rw [heq, isFinite_ofCode_infinity] at h
  exact Bool.false_ne_true h

/-- Scaling keeps the sign, and it rounds once. -/
theorem scaled_of_isFinite (hx : x.isFinite = true) (h : (scaled places x).isFinite = true) :
    signBit (scaled places x) = signBit x ∧ code (scaled places x)
        = codeNear (magnitude (code x) * magnitude (code (powerOfTen places)))
      ∧ codeNear (magnitude (code x) * magnitude (code (powerOfTen places))) < infinityCode := by
  have hscale := isFinite_of_mul_powerOfTen h
  have hprod := mul_eq_ofCode hx hscale
  rw [(powerOfTen_of_isFinite hscale).2.1, Bool.xor_false] at hprod
  rw [scaled, hprod] at h ⊢
  have hlt := finite_of_ofCode h
  exact ⟨signBit_ofCode _ hlt, code_ofCode _ hlt, hlt⟩

/-- **Rounding to some places**, unless the scaled factor is too large: it keeps the sign, and what
is scaled back is a whole number. -/
theorem roundPlaces_of_isFinite (hx : x.isFinite = true) (h : (scaled places x).isFinite = true) :
    ∃ n : Nat, RoundsAway (magnitude (code (scaled places x))) n
      ∧ (n ≤ 2 ^ 52 ∨ magnitude (code (scaled places x)) = n)
      ∧ (codeNear (n / magnitude (code (powerOfTen places))) < infinityCode →
        signBit (roundPlaces places x) = signBit x ∧ code (roundPlaces places x)
          = codeNear (n / magnitude (code (powerOfTen places)))) := by
  have hscale := isFinite_of_mul_powerOfTen h
  have hpos : 0 < code (powerOfTen places) := by
    refine Nat.pos_of_ne_zero fun hzero => ?_
    have := scale_pos hscale
    rw [hzero, magnitude_zero] at this
    exact lt_irrefl _ this
  obtain ⟨n, haway, hwhole, hfin, hsign, hmag⟩ := roundHalfAway_of_isFinite h
  refine ⟨n, haway, hwhole, fun hlt => ?_⟩
  have hback : roundPlaces places x = roundHalfAway (scaled places x) / powerOfTen places :=
    if_pos h
  have hquot := div_eq_ofCode hfin hscale hpos
  rw [hsign, (scaled_of_isFinite hx h).1, (powerOfTen_of_isFinite hscale).2.1, Bool.xor_false,
    hmag] at hquot
  rw [hback, hquot]
  exact ⟨signBit_ofCode _ hlt, code_ofCode _ hlt⟩

theorem roundPlaces_of_not_isFinite (h : (scaled places x).isFinite = false) :
    roundPlaces places x = x := by
  refine if_neg ?_
  show ¬(scaled places x).isFinite = true
  rw [h]
  exact Bool.false_ne_true

/-! ## The text -/

/-- **What is shown is a number of units of the last place**, the even one of two that are
equally near to the rounded factor. -/
theorem shows_finiteText (places : Nat) (x : Float) :
    ∃ n : Nat, RoundsEven (magnitude (code (roundPlaces places x)) * 10 ^ places) n
      ∧ Shows places (signedInt (signBit (roundPlaces places x)) n / 10 ^ places)
        (finiteText places x) := by
  have hden : 0 < denominator (code (roundPlaces places x)) := Nat.two_pow_pos _
  have hround := roundsEven_divRoundEven
    (numerator (code (roundPlaces places x)) * 10 ^ places) hden
  rw [Nat.cast_mul, mul_div_right_comm, numerator_div_denominator, Nat.cast_pow,
    Nat.cast_ofNat] at hround
  refine ⟨_, hround, ?_⟩
  rw [cast_signedInt, signed_div]
  exact shows_trimmed places _ (signBit (roundPlaces places x))

theorem factorText_of_isFinite (hx : x.isFinite = true) :
    (factorText places x).toList = finiteText places x := by
  obtain ⟨hnan, hinf⟩ := isFinite_iff.mp hx
  rw [factorText, hnan, hinf]
  exact String.toList_ofList

end FactorLabel.Display
