import FactorLabel.Number.Binary
import Mathlib.Algebra.Order.Field.Power
import Mathlib.Data.Int.Log
import Mathlib.Data.Rat.Floor
import Mathlib.Tactic.Positivity
import Mathlib.Tactic.Ring

/-!
# The magnitude of a code

A finite code stands for a rational number, so many units of so large a power of two. Rounding a
quotient starts from the binary order of magnitude of the quotient, which is its logarithm to
base two, rounded down. A quotient that has the magnitude of a code exactly is rounded to
this code: the order of magnitude picks the unit of the code, and then nothing is left to round.
-/

namespace FactorLabel.Number

/-- The number that a finite code stands for. -/
def magnitude (c : Nat) : ℚ := significand c * 2 ^ unitExponent c

/-! ## Quotients and powers of two

The code multiplies numerator or denominator by a power of two, whichever keeps it whole. -/

/-- Multiplying the denominator by `2 ^ e`, or the numerator by `2 ^ (-e)`, divides by `2 ^ e`. -/
theorem scaled_div (num den : Nat) (e : Int) :
    ((num * 2 ^ (-e).toNat : Nat) : ℚ) / ((den * 2 ^ e.toNat : Nat) : ℚ)
      = num / den / 2 ^ e := by
  obtain ⟨n, rfl | rfl⟩ := e.eq_nat_or_neg
  · simp only [Int.toNat_neg_natCast, Int.toNat_natCast, pow_zero, mul_one, Nat.cast_mul,
      Nat.cast_pow, Nat.cast_ofNat, zpow_natCast]
    rw [div_div]
  · simp only [neg_neg, Int.toNat_neg_natCast, Int.toNat_natCast, pow_zero, mul_one, Nat.cast_mul,
      Nat.cast_pow, Nat.cast_ofNat, zpow_neg, zpow_natCast, div_inv_eq_mul]
    ring

theorem scaled_le_iff {num den : Nat} (hden : 0 < den) (e : Int) :
    den * 2 ^ e.toNat ≤ num * 2 ^ (-e).toNat ↔ (2 : ℚ) ^ e ≤ num / den := by
  have hpos : (0 : ℚ) < ((den * 2 ^ e.toNat : Nat) : ℚ) := by
    exact_mod_cast Nat.mul_pos hden (Nat.two_pow_pos _)
  have htwo : (0 : ℚ) < 2 ^ e := by positivity
  rw [← Nat.cast_le (α := ℚ), ← one_le_div hpos, scaled_div, one_le_div htwo]

theorem log2_bounds {n : Nat} (hn : 0 < n) :
    (2 : ℚ) ^ (n.log2 : Int) ≤ n ∧ (n : ℚ) < 2 ^ ((n.log2 : Int) + 1) := by
  have hlo : 2 ^ n.log2 ≤ n := Nat.log2_self_le (by omega)
  have hhi : n < 2 ^ (n.log2 + 1) := Nat.lt_log2_self
  constructor
  · rw [zpow_natCast]
    exact_mod_cast hlo
  · rw [← Nat.cast_succ, zpow_natCast]
    exact_mod_cast hhi

/-- **The order of magnitude is the logarithm.** -/
theorem floorLog2_eq_log {num den : Nat} (hnum : 0 < num) (hden : 0 < den) :
    floorLog2 num den = Int.log 2 (num / den : ℚ) := by
  have hq : (0 : ℚ) < num / den := by positivity
  obtain ⟨hnumlo, hnumhi⟩ := log2_bounds hnum
  obtain ⟨hdenlo, hdenhi⟩ := log2_bounds hden
  have hlo : (2 : ℚ) ^ ((num.log2 : Int) - den.log2 - 1) ≤ num / den := by
    rw [le_div_iff₀ (by positivity)]
    calc (2 : ℚ) ^ ((num.log2 : Int) - den.log2 - 1) * den
        ≤ 2 ^ ((num.log2 : Int) - den.log2 - 1) * 2 ^ ((den.log2 : Int) + 1) := by gcongr
      _ = 2 ^ (num.log2 : Int) := by
        rw [← zpow_add₀ (by norm_num)]
        congr 1
        ring
      _ ≤ num := hnumlo
  have hhi : (num / den : ℚ) < 2 ^ ((num.log2 : Int) - den.log2 + 1) := by
    rw [div_lt_iff₀ (by positivity)]
    calc (num : ℚ) < 2 ^ ((num.log2 : Int) + 1) := hnumhi
      _ = 2 ^ ((num.log2 : Int) - den.log2 + 1) * 2 ^ (den.log2 : Int) := by
        rw [← zpow_add₀ (by norm_num)]
        congr 1
        ring
      _ ≤ 2 ^ ((num.log2 : Int) - den.log2 + 1) * den := by gcongr
  -- the difference of the two logarithms is right or one too large, and one comparison tells
  have hle := (Int.zpow_le_iff_le_log (b := 2) (by decide) hq).mp hlo
  have hlt := (Int.lt_zpow_iff_log_lt (b := 2) (by decide) hq).mp hhi
  have hstep := @scaled_le_iff num den hden ((num.log2 : Int) - den.log2)
  have hlog := Int.zpow_le_iff_le_log (b := 2) (x := (num.log2 : Int) - den.log2) (by decide) hq
  simp only [floorLog2]
  split
  · rename_i h
    have := hlog.mp (hstep.mp h)
    omega
  · rename_i h
    have := mt (fun h' => hstep.mpr (hlog.mpr h')) h
    omega

/-! ## Significand and unit -/

theorem binade_eq : binade = 2 ^ 52 := rfl

/-- The codes of the lowest binade are their own significands. -/
theorem parts_of_lt {c : Nat} (h : c < binade) : significand c = c ∧ unitExponent c = -1074 :=
  ⟨if_pos h, if_pos h⟩

/-- In the other binades the leading bit is not in the code. -/
theorem parts_of_le {c : Nat} (h : binade ≤ c) :
    significand c = binade + c % binade ∧ unitExponent c = (c / binade : Nat) - 1075 :=
  ⟨if_neg (by omega), if_neg (by omega)⟩

theorem significand_pos {c : Nat} (hc : 0 < c) : 0 < significand c := by
  have hb : 0 < binade := by decide
  rcases Nat.lt_or_ge c binade with h | h
  · rw [(parts_of_lt h).1]
    exact hc
  · rw [(parts_of_le h).1]
    omega

/-- A significand fills its fifty-three bits, or the unit is the smallest. -/
theorem significand_bounds (c : Nat) :
    significand c < 2 ^ 53 ∧ (2 ^ 52 ≤ significand c ∨ unitExponent c = -1074) := by
  have hmod := Nat.mod_lt c (show 0 < binade by decide)
  rcases Nat.lt_or_ge c binade with h | h
  · obtain ⟨hs, hu⟩ := parts_of_lt h
    rw [binade_eq] at h
    omega
  · obtain ⟨hs, hu⟩ := parts_of_le h
    rw [binade_eq] at hmod hs
    omega

theorem unitExponent_bounds {c : Nat} (hc : c < infinityCode) :
    -1074 ≤ unitExponent c ∧ unitExponent c ≤ 971 := by
  have hinf : infinityCode = 2047 * 2 ^ 52 := rfl
  rcases Nat.lt_or_ge c binade with h | h
  · rw [(parts_of_lt h).2]
    omega
  · rw [(parts_of_le h).2]
    rw [binade_eq] at h ⊢
    omega

/-- A code is put together from its unit and its significand. -/
theorem code_of_unitExponent (c : Nat) :
    (unitExponent c + 1074).toNat * binade + significand c = c := by
  rcases Nat.lt_or_ge c binade with h | h
  · obtain ⟨hs, hu⟩ := parts_of_lt h
    rw [hs, hu, Int.add_left_neg, Int.toNat_zero, Nat.zero_mul, Nat.zero_add]
  · obtain ⟨hs, hu⟩ := parts_of_le h
    rw [hs, hu]
    rw [binade_eq] at h ⊢
    omega

theorem magnitude_pos {c : Nat} (hc : 0 < c) : 0 < magnitude c := by
  have hs : (0 : ℚ) < significand c := by exact_mod_cast significand_pos hc
  rw [magnitude]
  positivity

theorem magnitude_eq_zero_iff {c : Nat} : magnitude c = 0 ↔ c = 0 := by
  constructor
  · intro h
    rcases Nat.eq_zero_or_pos c with hc | hc
    · exact hc
    · exact absurd h (magnitude_pos hc).ne'
  · rintro rfl
    rw [magnitude, significand, if_pos (by decide), Nat.cast_zero, zero_mul]

theorem magnitude_zero : magnitude 0 = 0 := magnitude_eq_zero_iff.mpr rfl

/-- The order of magnitude of a code gives its unit. -/
theorem unitExponent_eq_log {c : Nat} (hc : 0 < c) (hfin : c < infinityCode) :
    max (Int.log 2 (magnitude c) - 52) (-1074) = unitExponent c := by
  obtain ⟨hlt, hfull⟩ := significand_bounds c
  have hlo := (unitExponent_bounds hfin).1
  have hpos := magnitude_pos hc
  have hupper : Int.log 2 (magnitude c) < unitExponent c + 53 := by
    refine (Int.lt_zpow_iff_log_lt (b := 2) (by decide) hpos).mp ?_
    have hs : (significand c : ℚ) < 2 ^ (53 : ℤ) := by exact_mod_cast hlt
    rw [Nat.cast_ofNat, add_comm, zpow_add₀ (by norm_num), magnitude]
    gcongr
  -- a significand that is not full has the smallest unit, whatever the logarithm is
  rcases hfull with hge | hunit
  · have hlower : unitExponent c + 52 ≤ Int.log 2 (magnitude c) := by
      refine (Int.zpow_le_iff_le_log (b := 2) (by decide) hpos).mp ?_
      have hs : (2 : ℚ) ^ (52 : ℤ) ≤ significand c := by exact_mod_cast hge
      rw [Nat.cast_ofNat, add_comm, zpow_add₀ (by norm_num), magnitude]
      gcongr
    omega
  · omega

/-! ## Rounding what needs no rounding -/

theorem divRoundEven_mul (m : Nat) {d : Nat} (hd : 0 < d) : divRoundEven (m * d) d = m := by
  simp only [divRoundEven, Nat.mul_div_cancel m hd, Nat.mul_mod_left]
  exact if_pos (.inl hd)

/-- **Exact quotients.** A quotient with the magnitude of a finite code is rounded to this code. -/
theorem nearestCode_of_magnitude {c num den : Nat} (hden : 0 < den) (hfin : c < infinityCode)
    (h : (num / den : ℚ) = magnitude c) : nearestCode num den = c := by
  rcases Nat.eq_zero_or_pos c with rfl | hc
  · have hzero : (num : ℚ) / den = 0 := h.trans (magnitude_eq_zero_iff.mpr rfl)
    have hnum : num = 0 := by
      rcases div_eq_zero_iff.mp hzero with hn | hd
      · exact_mod_cast hn
      · exact absurd (by exact_mod_cast hd) (Nat.pos_iff_ne_zero.mp hden)
    exact if_pos hnum
  · have hpos := magnitude_pos hc
    have hnum : 0 < num := by
      rcases Nat.eq_zero_or_pos num with rfl | hn
      · rw [Nat.cast_zero, zero_div] at h
        exact absurd h hpos.ne
      · exact hn
    have hunit : max (floorLog2 num den - 52) (-1074) = unitExponent c := by
      rw [floorLog2_eq_log hnum hden, h, unitExponent_eq_log hc hfin]
    have hscaled : num * 2 ^ (-unitExponent c).toNat
        = significand c * (den * 2 ^ (unitExponent c).toNat) := by
      have hdiv := scaled_div num den (unitExponent c)
      rw [h, magnitude, mul_div_assoc, div_self (by positivity), mul_one,
        div_eq_iff (by positivity)] at hdiv
      exact_mod_cast hdiv
    -- counted in units of the code the quotient is whole, so nothing is rounded off
    have hround : divRoundEven (num * Nat.pow 2 (-unitExponent c).toNat)
        (den * Nat.pow 2 (unitExponent c).toNat) = significand c := by
      have hd : 0 < den * 2 ^ (unitExponent c).toNat := Nat.mul_pos hden (Nat.two_pow_pos _)
      show divRoundEven (num * 2 ^ (-unitExponent c).toNat) (den * 2 ^ (unitExponent c).toNat) = _
      rw [hscaled, divRoundEven_mul _ hd]
    rw [nearestCode, if_neg (by omega)]
    simp only [hunit, hround, code_of_unitExponent]
    omega

end FactorLabel.Number
