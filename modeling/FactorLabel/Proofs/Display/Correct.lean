import FactorLabel.Proofs.Display.Rounded

/-!
# When a shown factor is right

A shown factor is right if it is the multiple of the unit of the last place that is nearest to the
factor, the one further from zero at a half. What is rounded is the scaled factor, though, and that
is a double. So the text is right if nothing was lost in scaling, and whole numbers are shown as
they are as long as they stay small enough. Among the other factors that stay small when they are
scaled, the text is wrong for those only that scaling pushes up onto a half.
-/

namespace FactorLabel.Display

open Number
open Number.Double (isFinite_ofCode mul_eq_ofCode)

/-- The number that a finite double stands for. -/
def value (x : Float) : ℚ := signed (signBit x) (magnitude (code x))

/-- The text shows the multiple of the unit of the last place that is nearest to the factor, and the
one further from zero if there are two. -/
def Correct (places : Nat) (x : Float) : Prop :=
  ∃ n : ℤ, RoundsAway (value x * 10 ^ places) n
    ∧ Shows places (n / 10 ^ places) (factorText places x).toList

/-- Scaling makes the factor larger than it should be, and there it lies halfway between two whole
numbers. -/
def PushedOntoHalf (places : Nat) (x : Float) : Prop :=
  |value x| * 10 ^ places < |value (scaled places x)|
    ∧ ∃ k : Nat, |value (scaled places x)| = k + 1 / 2

variable {places : Nat} {x : Float}

/-- A text is right if the number that it shows is, since it shows no other. -/
theorem Correct.roundsAway {n : ℤ} (h : Correct places x)
    (hshows : Shows places (n / 10 ^ places) (factorText places x).toList) :
    RoundsAway (value x * 10 ^ places) n := by
  obtain ⟨m, hm, hshows'⟩ := h
  have hquot := hshows'.unique hshows
  rw [div_left_inj' (by positivity)] at hquot
  obtain rfl : m = n := by exact_mod_cast hquot
  exact hm

theorem abs_value (x : Float) : |value x| = magnitude (code x) :=
  (abs_signed _ _).trans (abs_of_nonneg (magnitude_nonneg _))

/-! ## Scaling back -/

/-- **Up to `2 ^ 52` a whole number is found again** when it is scaled back and printed. -/
theorem roundsEven_back {n : Nat} (hplaces : places ≤ 22) (hn : n ≤ 2 ^ 52) :
    codeNear (n / 10 ^ places) < infinityCode
      ∧ RoundsEven (magnitude (codeNear (n / 10 ^ places)) * 10 ^ places) n := by
  have hten : (0 : ℚ) < 10 ^ places := by positivity
  have hq : (0 : ℚ) ≤ n / 10 ^ places := by positivity
  have hn' : (n : ℚ) ≤ 2 ^ 52 := by exact_mod_cast hn
  have hfin : codeNear (n / 10 ^ places) < infinityCode := by
    refine codeNear_lt hq ?_
    calc (n : ℚ) / 10 ^ places ≤ n := div_le_self (by positivity) (one_le_pow₀ (by norm_num))
      _ ≤ 2 ^ 52 := hn'
      _ < 2 ^ 1023 := pow_lt_pow_right₀ one_lt_two (by norm_num)
  refine ⟨hfin, ?_⟩
  rcases Nat.eq_zero_or_pos n with rfl | hpos
  · refine .of_eq ?_
    rw [Nat.cast_zero, zero_div, codeNear_zero, magnitude_zero, zero_mul, Nat.cast_zero,
      Int.cast_zero]
  · have hone : (1 : ℚ) ≤ n := by exact_mod_cast hpos
    have hlarge : (2 : ℚ) ^ (-1022 : ℤ) ≤ n / 10 ^ places := by
      have hpow : (10 : ℚ) ^ places ≤ 10 ^ 22 := pow_le_pow_right₀ (by norm_num) hplaces
      calc (2 : ℚ) ^ (-1022 : ℤ) ≤ 2 ^ (-74 : ℤ) := zpow_le_zpow_right₀ one_le_two (by norm_num)
        _ ≤ 1 / 10 ^ 22 := by norm_num
        _ ≤ n / 10 ^ places := div_le_div₀ (by linarith) hone hten hpow
    have hnear := (abs_magnitude_codeNear_sub hq hfin).trans (half_unit_le_of_le hlarge)
    have hback : |magnitude (codeNear (n / 10 ^ places)) * 10 ^ places - n| ≤ n / 2 ^ 53 := by
      rw [abs_sub_comm, abs_div_sub _ hten, div_right_comm, div_le_div_iff_of_pos_right hten,
        abs_sub_comm] at hnear
      exact hnear
    -- only the largest of them can be off by a half, and it is even
    rw [RoundsEven, Int.cast_natCast]
    rcases hn.lt_or_eq with hlt | rfl
    · left
      have hlt' : (n : ℚ) < 2 ^ 52 := by exact_mod_cast hlt
      linarith
    · have hhalf := hback.trans (show ((2 ^ 52 : Nat) : ℚ) / 2 ^ 53 ≤ 1 / 2 by norm_num)
      rcases hhalf.lt_or_eq with h | h
      · exact .inl h
      · exact .inr ⟨h, by decide⟩

/-- **What is shown of a factor that can be scaled back** is the scaled factor, rounded away from
zero at a half. -/
theorem shows_scaled (hx : x.isFinite = true) (hplaces : places ≤ 22)
    (h : (scaled places x).isFinite = true)
    (hback : magnitude (code (scaled places x)) ≤ 2 ^ 52
      ∨ magnitude (code (scaled places x)) = magnitude (code x) * 10 ^ places) :
    ∃ n : Nat, RoundsAway (magnitude (code (scaled places x))) n
      ∧ Shows places (signedInt (signBit x) n / 10 ^ places) (factorText places x).toList := by
  obtain ⟨n, haway, hwhole, hparts⟩ := roundPlaces_of_isFinite hx h
  rw [(powerOfTen_of_le hplaces).2] at hparts
  have hround : codeNear (n / 10 ^ places) < infinityCode
      ∧ RoundsEven (magnitude (codeNear (n / 10 ^ places)) * 10 ^ places) n := by
    rcases Nat.lt_or_ge (2 ^ 52) n with hlarge | hle
    · -- a whole number this large is the scaled factor itself, and it is scaled back exactly
      have hlarge' : (2 ^ 52 : ℚ) < n := by exact_mod_cast hlarge
      have hmag := hwhole.resolve_left (by omega)
      have hexact := hback.resolve_left (by rw [hmag]; exact hlarge'.not_ge)
      have hquot : (n : ℚ) / 10 ^ places = magnitude (code x) := by
        rw [← hmag, hexact, mul_div_cancel_right₀ _ (by positivity)]
      have hfin := code_lt_of_isFinite hx
      rw [hquot, codeNear_magnitude hfin, ← hexact, hmag]
      exact ⟨hfin, .of_eq rfl⟩
    · exact roundsEven_back hplaces hle
  obtain ⟨hsign, hcode⟩ := hparts hround.1
  obtain ⟨m, hm, hshows⟩ := shows_finiteText places x
  rw [hcode] at hm
  obtain rfl : m = n := by exact_mod_cast hm.unique hround.2
  rw [hsign] at hshows
  rw [factorText_of_isFinite hx]
  exact ⟨m, haway, hshows⟩

theorem value_mul (x : Float) (places : Nat) :
    value x * 10 ^ places = signed (signBit x) (magnitude (code x) * 10 ^ places) :=
  signed_mul _ _ _

/-- A text is right if it shows the rounded magnitude, with the sign of the factor. -/
theorem correct_of_magnitude {n : Nat}
    (h : RoundsAway (magnitude (code x) * 10 ^ places) n)
    (hshows : Shows places (signedInt (signBit x) n / 10 ^ places) (factorText places x).toList) :
    Correct places x := by
  refine ⟨_, ?_, hshows⟩
  rw [value_mul]
  exact (roundsAway_signed _ n).mpr h

/-! ## Exact scaling -/

theorem correct_of_lossless (hx : x.isFinite = true) (hplaces : places ≤ 22)
    (h : (scaled places x).isFinite = true)
    (hexact : value (scaled places x) = value x * 10 ^ places) : Correct places x := by
  have hmag : magnitude (code (scaled places x)) = magnitude (code x) * 10 ^ places := by
    have habs := congrArg abs hexact
    rw [abs_mul, abs_value, abs_value, abs_of_pos (by positivity)] at habs
    exact habs
  obtain ⟨n, haway, hshows⟩ := shows_scaled hx hplaces h (.inr hmag)
  rw [hmag] at haway
  exact correct_of_magnitude haway hshows

/-- Scaling by a small power of ten rounds once, and nothing else. -/
theorem scaled_of_le (hx : x.isFinite = true) (hplaces : places ≤ 22)
    (hfin : codeNear (magnitude (code x) * 10 ^ places) < infinityCode) :
    (scaled places x).isFinite = true
      ∧ magnitude (code (scaled places x)) = magnitude (codeNear (magnitude (code x) * 10 ^ places))
      ∧ signBit (scaled places x) = signBit x := by
  obtain ⟨hscale, hmag⟩ := powerOfTen_of_le hplaces
  have hprod := mul_eq_ofCode hx hscale
  rw [hmag] at hprod
  have h : (scaled places x).isFinite = true := by
    rw [scaled, hprod]
    exact isFinite_ofCode _ hfin
  obtain ⟨hsign, hcode, -⟩ := scaled_of_isFinite hx h
  rw [hmag] at hcode
  exact ⟨h, congrArg magnitude hcode, hsign⟩

/-- What is shown of a whole number is nearest to it only if it is the number itself. -/
theorem shows_of_near {k n : ℤ} (hk : value x = k) (h : |value x * 10 ^ places - n| ≤ 1 / 2)
    (hshows : Shows places (n / 10 ^ places) (factorText places x).toList) :
    Shows places k (factorText places x).toList := by
  have hn : k * 10 ^ places = n := by
    have hlt : |((k * 10 ^ places : ℤ) : ℚ) - n| < 1 := by
      rw [Int.cast_mul, Int.cast_pow, Int.cast_ofNat, ← hk]
      exact lt_of_le_of_lt h (by norm_num)
    exact sub_eq_zero.mp (Int.abs_lt_one_iff.mp (by exact_mod_cast hlt))
  rw [← hn, Int.cast_mul, Int.cast_pow, Int.cast_ofNat, mul_div_cancel_right₀ _ (by positivity)]
    at hshows
  exact hshows

theorem shows_whole (hx : x.isFinite = true) (hplaces : places ≤ 22) {k : ℤ} (hk : value x = k)
    (hle : |k| * 10 ^ places ≤ 2 ^ 53) : Shows places k (factorText places x).toList := by
  have hten : (0 : ℚ) < 10 ^ places := by positivity
  have hmag : magnitude (code x) * 10 ^ places = (k.natAbs * 10 ^ places : Nat) := by
    rw [← abs_value, hk, Nat.cast_mul, Nat.cast_natAbs, Int.cast_abs, Nat.cast_pow, Nat.cast_ofNat]
  have hle' : k.natAbs * 10 ^ places ≤ 2 ^ 53 := by
    have h : ((k.natAbs * 10 ^ places : Nat) : ℤ) ≤ 2 ^ 53 := by
      rw [Nat.cast_mul, Nat.cast_natAbs, Nat.cast_pow, Nat.cast_ofNat]
      exact hle
    exact_mod_cast h
  obtain ⟨hfin, hnear⟩ := codeNear_natCast hle'
  rw [← hmag] at hfin hnear
  obtain ⟨h, hscaled, hsign⟩ := scaled_of_le hx hplaces hfin
  have hexact : value (scaled places x) = value x * 10 ^ places := by
    rw [value_mul, value, hscaled, hnear, hsign]
  obtain ⟨n, haway, hshows⟩ := correct_of_lossless hx hplaces h hexact
  exact shows_of_near hk haway.near hshows

/-! ## Small scaled factors -/

/-- Below `2 ^ 52` rounding to a double does not pass a half. -/
theorem magnitude_codeNear_halves {q : ℚ} (hq : 0 ≤ q) (hlt : q < 2 ^ 52) (k : Nat) :
    (q ≤ k / 2 → magnitude (codeNear q) ≤ k / 2)
      ∧ ((k : ℚ) / 2 ≤ q → k / 2 ≤ magnitude (codeNear q)) := by
  have hfin : codeNear q < infinityCode :=
    codeNear_lt hq (hlt.trans (pow_lt_pow_right₀ one_lt_two (by norm_num)))
  have hunit : unitNear q ≤ -1 := unitNear_le hq (by norm_num) (by exact_mod_cast hlt)
  have hhalf : (k : ℚ) / 2 = k * 2 ^ (-1 : ℤ) := by rw [zpow_neg_one, div_eq_mul_inv]
  rw [hhalf]
  exact ⟨magnitude_codeNear_le hq hfin hunit, le_magnitude_codeNear hq hfin hunit⟩

/-- **Rounding to a double can only push onto a half.** A number below `2 ^ 52` and the double next
to it are on the same side of every half, unless the double is the half. -/
theorem roundsAway_iff_not_pushed {q : ℚ} (hq : 0 ≤ q) (hlt : q < 2 ^ 52) {n : Nat}
    (h : RoundsAway (magnitude (codeNear q)) n) :
    RoundsAway q n
      ↔ ¬(q < magnitude (codeNear q) ∧ ∃ k : Nat, magnitude (codeNear q) = k + 1 / 2) := by
  have hhalves := magnitude_codeNear_halves hq hlt
  rw [roundsAway_iff (magnitude_nonneg _)] at h
  rw [roundsAway_iff hq]
  generalize magnitude (codeNear q) = m at *
  obtain ⟨hlo, hhi⟩ := h
  constructor
  · rintro ⟨hlo', -⟩ ⟨hpushed, k, hk⟩
    have hkn : k < n := by
      have hkn' : (k : ℚ) < n := by linarith
      exact_mod_cast hkn'
    have hstep : (k : ℚ) + 1 ≤ n := by exact_mod_cast hkn
    linarith
  · intro hnot
    constructor
    · by_contra hbelow
      rw [not_le] at hbelow
      cases n with
      | zero =>
          rw [Nat.cast_zero] at hbelow
          linarith
      | succ j =>
          have hhalf := (hhalves (2 * j + 1)).1
          push_cast at hlo hbelow hhalf
          have hm : m ≤ (2 * j + 1) / 2 := hhalf (by linarith)
          exact hnot ⟨by linarith, j, by linarith⟩
    · by_contra habove
      rw [not_lt] at habove
      have hhalf := (hhalves (2 * n + 1)).2
      push_cast at hhalf
      have hm : ((2 : ℚ) * n + 1) / 2 ≤ m := hhalf (by linarith)
      linarith

theorem small_of_isFinite (hx : x.isFinite = true) (hplaces : places ≤ 22)
    (hlt : |value x| * 10 ^ places < 2 ^ 52) :
    (∃ n : ℤ, RoundsAway (value (scaled places x)) n
      ∧ Shows places (n / 10 ^ places) (factorText places x).toList)
    ∧ (Correct places x ↔ ¬PushedOntoHalf places x) := by
  have hten : (0 : ℚ) < 10 ^ places := by positivity
  rw [abs_value] at hlt
  have hq : 0 ≤ magnitude (code x) * 10 ^ places := mul_nonneg (magnitude_nonneg _) hten.le
  have hfin := codeNear_lt hq (hlt.trans (pow_lt_pow_right₀ one_lt_two (by norm_num)))
  obtain ⟨h, hmag, hsign⟩ := scaled_of_le hx hplaces hfin
  have hle : magnitude (code (scaled places x)) ≤ 2 ^ 52 := by
    have hhalf := (magnitude_codeNear_halves hq hlt (2 ^ 53)).1
    rw [hmag]
    norm_num at hhalf ⊢
    exact hhalf (by linarith)
  obtain ⟨n, haway, hshows⟩ := shows_scaled hx hplaces h (.inl hle)
  refine ⟨⟨_, ?_, hshows⟩, ?_⟩
  · rw [value, hsign]
    exact (roundsAway_signed _ n).mpr haway
  · -- only one number is shown, so the text is right if that number is
    have hcorrect : Correct places x ↔ RoundsAway (magnitude (code x) * 10 ^ places) n := by
      constructor
      · intro hcorrect
        have haway' := hcorrect.roundsAway hshows
        rw [value_mul] at haway'
        exact (roundsAway_signed _ n).mp haway'
      · intro haway'
        exact correct_of_magnitude haway' hshows
    rw [hmag] at haway
    rw [hcorrect, PushedOntoHalf, abs_value, abs_value, hmag]
    exact roundsAway_iff_not_pushed hq hlt haway

/-! ## Factors that cannot be scaled -/

theorem unscaled_of_isFinite (hx : x.isFinite = true) (h : (scaled places x).isFinite = false) :
    ∃ n : ℤ, RoundsEven (value x * 10 ^ places) n
      ∧ Shows places (n / 10 ^ places) (factorText places x).toList := by
  obtain ⟨n, hn, hshows⟩ := shows_finiteText places x
  rw [roundPlaces_of_not_isFinite h] at hn hshows
  rw [factorText_of_isFinite hx, value_mul]
  exact ⟨_, (roundsEven_signed _ n).mpr hn, hshows⟩

end FactorLabel.Display
