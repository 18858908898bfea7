import FactorLabel.Proofs.Number.Value
import Mathlib.Algebra.Order.Ring.Abs
import Mathlib.Tactic.Linarith

/-!
# The nearest double as a function of a rational

Rounding a quotient depends on its value only, so it is rounding a rational number. It counts the
rational in units, and the unit follows from the order of magnitude; then it takes the nearest
whole number of units, the even one of two. All that is said of the nearest double here follows
from that: whole numbers of its units are not passed by rounding, and it is at most half a unit
away.
-/

namespace FactorLabel.Number

/-! ## The nearest whole number -/

/-- `n` is a whole number nearest to `q`, and the even one if there are two. -/
def RoundsEven (q : ℚ) (n : ℤ) : Prop := |q - n| < 1 / 2 ∨ |q - n| = 1 / 2 ∧ Even n

namespace RoundsEven

theorem near {q : ℚ} {n : ℤ} (h : RoundsEven q n) : |q - n| ≤ 1 / 2 := by
  rcases h with h | ⟨h, -⟩
  · exact h.le
  · exact h.le

theorem of_eq {q : ℚ} {n : ℤ} (h : q = n) : RoundsEven q n := by
  refine .inl ?_
  rw [h, sub_self, abs_zero]
  norm_num

/-- Two whole numbers that are equally near are neighbours, and one of them is odd. -/
theorem unique {q : ℚ} {m n : ℤ} (hm : RoundsEven q m) (hn : RoundsEven q n) : m = n := by
  by_contra hne
  have hstep : (1 : ℚ) ≤ |(m : ℚ) - n| := by
    exact_mod_cast Int.one_le_abs (sub_ne_zero.mpr hne)
  have hsum : |(m : ℚ) - n| ≤ |q - m| + |q - n| := by
    rw [abs_sub_comm q m]
    exact abs_sub_le (m : ℚ) q n
  rcases hm with hm | ⟨hm, heven⟩
  · linarith [hn.near]
  · rcases hn with hn | ⟨hn, heven'⟩
    · linarith
    · have hone : |m - n| = 1 := by
        have h : |(m : ℚ) - n| = 1 := by linarith
        exact_mod_cast h
      obtain ⟨a, ha⟩ := heven
      obtain ⟨b, hb⟩ := heven'
      rcases (abs_eq (by decide)).mp hone with h | h
      · omega
      · omega

/-- Rounding does not pass a whole number. -/
theorem le_of_le {q : ℚ} {n k : ℤ} (h : RoundsEven q n) (hk : q ≤ k) : n ≤ k := by
  by_contra hlt
  have hstep : (k : ℚ) + 1 ≤ n := by exact_mod_cast Int.not_le.mp hlt
  linarith [(abs_le.mp h.near).1]

theorem ge_of_ge {q : ℚ} {n k : ℤ} (h : RoundsEven q n) (hk : k ≤ q) : k ≤ n := by
  by_contra hlt
  have hstep : (n : ℚ) + 1 ≤ k := by exact_mod_cast Int.not_le.mp hlt
  linarith [(abs_le.mp h.near).2]

end RoundsEven

/-- How far a quotient is off, counted in the divisor. -/
theorem abs_div_sub {a b : ℚ} (q : ℚ) (hb : 0 < b) : |a / b - q| = |a - q * b| / b := by
  have hsplit : a / b - q = (a - q * b) / b := by
    rw [sub_div, mul_div_cancel_right₀ _ hb.ne']
  rw [hsplit, abs_div, abs_of_pos hb]

/-! A division leaves a rest, and whether the quotient is rounded up depends on the rest, compared
with half of the divisor. -/

theorem div_eq_add_rest (num : Nat) {den : Nat} (hden : 0 < den) :
    (num : ℚ) / den = (num / den : Nat) + (num % den : Nat) / den := by
  have hpos : (0 : ℚ) < den := by exact_mod_cast hden
  rw [div_eq_iff hpos.ne', add_mul, div_mul_cancel₀ _ hpos.ne']
  exact_mod_cast (Nat.div_add_mod' num den).symm

theorem rest_lt_half_iff (r : Nat) {den : Nat} (hden : 0 < den) :
    (r : ℚ) / den < 1 / 2 ↔ 2 * r < den := by
  have hpos : (0 : ℚ) < den := by exact_mod_cast hden
  rw [div_lt_div_iff₀ hpos two_pos, one_mul, mul_comm]
  exact_mod_cast Iff.rfl

theorem rest_eq_half_iff (r : Nat) {den : Nat} (hden : 0 < den) :
    (r : ℚ) / den = 1 / 2 ↔ 2 * r = den := by
  have hpos : (0 : ℚ) < den := by exact_mod_cast hden
  rw [div_eq_div_iff hpos.ne' two_ne_zero, one_mul, mul_comm]
  exact_mod_cast Iff.rfl

theorem rest_lt_one (num : Nat) {den : Nat} (hden : 0 < den) :
    ((num % den : Nat) : ℚ) / den < 1 := by
  have hpos : (0 : ℚ) < den := by exact_mod_cast hden
  rw [div_lt_one hpos]
  exact_mod_cast Nat.mod_lt num hden

theorem roundsEven_divRoundEven (num : Nat) {den : Nat} (hden : 0 < den) :
    RoundsEven (num / den) (divRoundEven num den : Nat) := by
  have hless := rest_lt_half_iff (num % den) hden
  have hhalf := rest_eq_half_iff (num % den) hden
  have hone := rest_lt_one num hden
  have hnonneg : (0 : ℚ) ≤ (num % den : Nat) / den := by positivity
  rw [div_eq_add_rest num hden, divRoundEven]
  generalize num / den = q
  generalize ((num % den : Nat) : ℚ) / den = rest at *
  split
  · rename_i hdown
    rw [RoundsEven, Int.cast_natCast, add_sub_cancel_left, abs_of_nonneg hnonneg]
    rcases hdown with hlt | ⟨heq, heven⟩
    · exact .inl (hless.mpr hlt)
    · exact .inr ⟨hhalf.mpr heq, by exact_mod_cast Nat.even_iff.mpr heven⟩
  · rename_i hup
    have hge : 1 / 2 ≤ rest := not_lt.mp fun h => hup (.inl (hless.mp h))
    rw [RoundsEven, Nat.cast_succ, Int.cast_add, Int.cast_natCast, Int.cast_one,
      add_sub_add_left_eq_sub, abs_sub_comm, abs_of_pos (by linarith)]
    rcases hge.lt_or_eq with hlt | heq
    · exact .inl (by linarith)
    · refine .inr ⟨by linarith, ?_⟩
      have hodd : q % 2 ≠ 0 := fun h => hup (.inr ⟨hhalf.mp heq.symm, h⟩)
      exact_mod_cast Nat.even_iff.mpr (show (q + 1) % 2 = 0 by omega)

/-! ## The unit -/

/-- The exponent of the unit in which `q` is counted. -/
def unitNear (q : ℚ) : ℤ := max (Int.log 2 q - 52) (-1074)

/-- The code of the double nearest to `q`. -/
def codeNear (q : ℚ) : Nat := nearestCode q.num.toNat q.den

theorem toNat_num_div_den {q : ℚ} (hq : 0 ≤ q) : (q.num.toNat : ℚ) / q.den = q := by
  have hnum : ((q.num.toNat : ℤ) : ℚ) = q.num := by
    rw [Int.toNat_of_nonneg (Rat.num_nonneg.mpr hq)]
  rw [← Int.cast_natCast, hnum, Rat.num_div_den]

theorem nearestCode_eq_codeNear (num : Nat) {den : Nat} (hden : 0 < den) :
    nearestCode num den = codeNear (num / den) :=
  nearestCode_congr hden (Rat.den_pos _) (toNat_num_div_den (by positivity)).symm

theorem exists_roundsEven {q : ℚ} (hq : 0 ≤ q) : ∃ m : Nat, RoundsEven q m := by
  have h := roundsEven_divRoundEven q.num.toNat (Rat.den_pos q)
  rw [toNat_num_div_den hq] at h
  exact ⟨_, h⟩

theorem codeNear_zero : codeNear 0 = 0 := by
  rw [codeNear, nearestCode]
  exact if_pos rfl

/-- **The nearest double counts units.** -/
theorem codeNear_eq {q : ℚ} (hq : 0 < q) {m : Nat} (h : RoundsEven (q / 2 ^ unitNear q) m) :
    codeNear q = min ((unitNear q + 1074).toNat * binade + m) infinityCode := by
  have hnum : 0 < q.num.toNat := by
    have := Rat.num_pos.mpr hq
    omega
  have hunit : max (floorLog2 q.num.toNat q.den - 52) (-1074) = unitNear q := by
    rw [floorLog2_eq_log hnum (Rat.den_pos q), toNat_num_div_den hq.le, unitNear]
  have hunits : divRoundEven (q.num.toNat * 2 ^ (-unitNear q).toNat)
      (q.den * 2 ^ (unitNear q).toNat) = m := by
    have hround := roundsEven_divRoundEven (q.num.toNat * 2 ^ (-unitNear q).toNat)
      (Nat.mul_pos (Rat.den_pos q) (Nat.two_pow_pos (unitNear q).toNat))
    rw [scaled_div, toNat_num_div_den hq.le] at hround
    exact_mod_cast hround.unique h
  rw [codeNear, nearestCode, if_neg hnum.ne']
  simp only [hunit, Nat.pow_eq, hunits]

theorem unitNear_ge (q : ℚ) : -1074 ≤ unitNear q := le_max_right _ _

theorem lt_units {q : ℚ} (hq : 0 < q) : q < 2 ^ 53 * 2 ^ unitNear q := by
  have hlog : Int.log 2 q < unitNear q + 53 := by
    rw [unitNear]
    omega
  have h := (Int.lt_zpow_iff_log_lt (b := 2) (by decide) hq).mpr hlog
  rw [Nat.cast_ofNat, zpow_add₀ two_ne_zero] at h
  linarith

/-- The count of units is full, or the unit is the smallest. -/
theorem units_le {q : ℚ} (hq : 0 < q) : 2 ^ 52 * 2 ^ unitNear q ≤ q ∨ unitNear q = -1074 := by
  rcases le_or_gt (Int.log 2 q - 52) (-1074) with hle | hlt
  · exact .inr (max_eq_right hle)
  · have hlog : unitNear q + 52 = Int.log 2 q := by
      rw [unitNear]
      omega
    have h := Int.zpow_log_le_self (b := 2) (by decide) hq
    rw [← hlog, Nat.cast_ofNat, zpow_add₀ two_ne_zero] at h
    exact .inl (by linarith)

theorem units_bounds {q : ℚ} (hq : 0 < q) {m : Nat} (h : RoundsEven (q / 2 ^ unitNear q) m) :
    m ≤ 2 ^ 53 ∧ (2 ^ 52 ≤ m ∨ unitNear q = -1074) := by
  have hpos : (0 : ℚ) < 2 ^ unitNear q := by positivity
  constructor
  · have hlt : q / 2 ^ unitNear q ≤ ((2 ^ 53 : ℤ) : ℚ) := by
      rw [div_le_iff₀ hpos]
      exact_mod_cast (lt_units hq).le
    exact_mod_cast h.le_of_le hlt
  · rcases units_le hq with hle | hunit
    · have hge : ((2 ^ 52 : ℤ) : ℚ) ≤ q / 2 ^ unitNear q := by
        rw [le_div_iff₀ hpos]
        exact_mod_cast hle
      exact .inl (by exact_mod_cast h.ge_of_ge hge)
    · exact .inr hunit

/-! ## The magnitude of the nearest double -/

/-- A full count of units, or any count of the smallest, is a code taken apart. -/
theorem parts_of_units {u : ℤ} {m : Nat} (hu : -1074 ≤ u) (hlt : m < 2 ^ 53)
    (hfull : 2 ^ 52 ≤ m ∨ u = -1074) :
    significand ((u + 1074).toNat * binade + m) = m
      ∧ unitExponent ((u + 1074).toNat * binade + m) = u := by
  rw [binade_eq]
  rcases Nat.lt_or_ge ((u + 1074).toNat * 2 ^ 52 + m) binade with h | h
  · obtain ⟨hs, he⟩ := parts_of_lt h
    rw [hs, he]
    rw [binade_eq] at h
    omega
  · obtain ⟨hs, he⟩ := parts_of_le h
    rw [hs, he]
    rw [binade_eq] at h ⊢
    omega

theorem magnitude_of_units {u : ℤ} {m : Nat} (hu : -1074 ≤ u) (hle : m ≤ 2 ^ 53)
    (hfull : 2 ^ 52 ≤ m ∨ u = -1074) :
    magnitude ((u + 1074).toNat * binade + m) = m * 2 ^ u := by
  rcases Nat.lt_or_ge m (2 ^ 53) with hlt | hge
  · obtain ⟨hs, he⟩ := parts_of_units hu hlt hfull
    rw [magnitude, hs, he]
  -- rounded up to the next power of two, which is a full count of the next unit
  · obtain rfl : m = 2 ^ 53 := Nat.le_antisymm hle hge
    have hcode : (u + 1074).toNat * binade + 2 ^ 53 = (u + 1 + 1074).toNat * binade + 2 ^ 52 := by
      rw [binade_eq]
      omega
    obtain ⟨hs, he⟩ := parts_of_units (u := u + 1) (m := 2 ^ 52) (by omega) (by decide)
      (.inl (Nat.le_refl _))
    rw [hcode, magnitude, hs, he, zpow_add₀ two_ne_zero, zpow_one]
    push_cast
    ring

theorem magnitude_codeNear {q : ℚ} (hq : 0 ≤ q) (hfin : codeNear q < infinityCode) :
    ∃ m : Nat, RoundsEven (q / 2 ^ unitNear q) m ∧ magnitude (codeNear q) = m * 2 ^ unitNear q := by
  rcases hq.eq_or_lt with rfl | hpos
  · refine ⟨0, .of_eq (by simp), ?_⟩
    rw [codeNear_zero, magnitude_zero]
    simp
  · obtain ⟨m, hm⟩ := exists_roundsEven (q := q / 2 ^ unitNear q) (by positivity)
    obtain ⟨hle, hfull⟩ := units_bounds hpos hm
    have hcode := codeNear_eq hpos hm
    refine ⟨m, hm, ?_⟩
    rw [hcode, Nat.min_eq_left (by omega)]
    exact magnitude_of_units (unitNear_ge q) hle hfull

theorem magnitude_nonneg (c : Nat) : 0 ≤ magnitude c := by
  rw [magnitude]
  positivity

theorem codeNear_magnitude {c : Nat} (hc : c < infinityCode) : codeNear (magnitude c) = c :=
  nearestCode_of_magnitude (Rat.den_pos _) hc (toNat_num_div_den (magnitude_nonneg c))

/-- Numbers that are not too large have a finite double near them. -/
theorem codeNear_lt {q : ℚ} (hq : 0 ≤ q) (hlt : q < 2 ^ 1023) : codeNear q < infinityCode := by
  rcases hq.eq_or_lt with rfl | hpos
  · rw [codeNear_zero]
    decide
  · obtain ⟨m, hm⟩ := exists_roundsEven (q := q / 2 ^ unitNear q) (by positivity)
    have hle := (units_bounds hpos hm).1
    have hlog : Int.log 2 q < 1023 := by
      refine (Int.lt_zpow_iff_log_lt (b := 2) (by decide) hpos).mp ?_
      exact_mod_cast hlt
    have hunit : unitNear q ≤ 970 := by
      rw [unitNear]
      omega
    have hinf : infinityCode = 2047 * 2 ^ 52 := rfl
    rw [codeNear_eq hpos hm, binade_eq]
    omega

/-! ## What rounding keeps -/

/-- A multiple of a larger unit is a multiple of the unit. -/
theorem exists_units {q : ℚ} {e : ℤ} (he : unitNear q ≤ e) (k : Nat) :
    ∃ n : ℤ, (k * 2 ^ e : ℚ) = n * 2 ^ unitNear q := by
  obtain ⟨d, hd⟩ : ∃ d : Nat, e = unitNear q + d := ⟨(e - unitNear q).toNat, by omega⟩
  refine ⟨k * 2 ^ d, ?_⟩
  rw [hd, zpow_add₀ two_ne_zero, zpow_natCast]
  push_cast
  ring

/-- **Rounding does not pass a multiple of its unit.** -/
theorem magnitude_codeNear_le {q : ℚ} (hq : 0 ≤ q) (hfin : codeNear q < infinityCode) {e : ℤ}
    (he : unitNear q ≤ e) {k : Nat} (h : q ≤ k * 2 ^ e) :
    magnitude (codeNear q) ≤ k * 2 ^ e := by
  obtain ⟨m, hm, hmag⟩ := magnitude_codeNear hq hfin
  obtain ⟨n, hn⟩ := exists_units he k
  rw [hn] at h ⊢
  have hpos : (0 : ℚ) < 2 ^ unitNear q := by positivity
  have hle := hm.le_of_le ((div_le_iff₀ hpos).mpr h)
  rw [hmag]
  have hcast : ((m : ℤ) : ℚ) ≤ n := by exact_mod_cast hle
  rw [Int.cast_natCast] at hcast
  gcongr

theorem le_magnitude_codeNear {q : ℚ} (hq : 0 ≤ q) (hfin : codeNear q < infinityCode) {e : ℤ}
    (he : unitNear q ≤ e) {k : Nat} (h : k * 2 ^ e ≤ q) :
    k * 2 ^ e ≤ magnitude (codeNear q) := by
  obtain ⟨m, hm, hmag⟩ := magnitude_codeNear hq hfin
  obtain ⟨n, hn⟩ := exists_units he k
  rw [hn] at h ⊢
  have hpos : (0 : ℚ) < 2 ^ unitNear q := by positivity
  have hle := hm.ge_of_ge ((le_div_iff₀ hpos).mpr h)
  rw [hmag]
  have hcast : (n : ℚ) ≤ ((m : ℤ) : ℚ) := by exact_mod_cast hle
  rw [Int.cast_natCast] at hcast
  gcongr

/-- **Rounding is off by half a unit at most.** -/
theorem abs_magnitude_codeNear_sub {q : ℚ} (hq : 0 ≤ q) (hfin : codeNear q < infinityCode) :
    |magnitude (codeNear q) - q| ≤ 2 ^ unitNear q / 2 := by
  obtain ⟨m, hm, hmag⟩ := magnitude_codeNear hq hfin
  have hpos : (0 : ℚ) < 2 ^ unitNear q := by positivity
  have hnear := hm.near
  rw [Int.cast_natCast, abs_div_sub _ hpos, div_le_iff₀ hpos] at hnear
  rw [hmag, abs_sub_comm]
  calc |q - m * 2 ^ unitNear q| ≤ 1 / 2 * 2 ^ unitNear q := hnear
    _ = 2 ^ unitNear q / 2 := by ring

/-! ## How near it is -/

/-- Half a unit is a small part of the number, or half of the smallest unit. -/
theorem half_unit_le {q : ℚ} (hq : 0 < q) :
    (2 : ℚ) ^ unitNear q / 2 ≤ q / 2 ^ 53 ∨ (2 : ℚ) ^ unitNear q / 2 = 2 ^ (-1075 : ℤ) := by
  rcases units_le hq with hle | hunit
  · left
    rw [le_div_iff₀ (by positivity)]
    linarith
  · right
    rw [hunit, div_eq_iff two_ne_zero, ← zpow_add_one₀ two_ne_zero]
    rfl

theorem abs_magnitude_codeNear_sub_le {q : ℚ} (hq : 0 ≤ q) (hfin : codeNear q < infinityCode) :
    |magnitude (codeNear q) - q| ≤ q / 2 ^ 53 + 2 ^ (-1075 : ℤ) := by
  have hsmallest : (0 : ℚ) < 2 ^ (-1075 : ℤ) := by positivity
  rcases hq.eq_or_lt with rfl | hpos
  · rw [codeNear_zero, magnitude_zero, sub_zero, abs_zero, zero_div, zero_add]
    exact hsmallest.le
  · have hnear := abs_magnitude_codeNear_sub hq hfin
    have hquot : 0 ≤ q / 2 ^ 53 := by positivity
    rcases half_unit_le hpos with h | h <;> linarith

theorem unitNear_le {q : ℚ} (hq : 0 ≤ q) {e : ℤ} (he : -52 ≤ e) (h : q < 2 ^ (e + 53)) :
    unitNear q ≤ e := by
  have hlog : Int.log 2 q - 52 ≤ e := by
    rcases hq.eq_or_lt with rfl | hpos
    · rw [Int.log_zero_right]
      omega
    · have := (Int.lt_zpow_iff_log_lt (b := 2) (by decide) hpos).mp (by exact_mod_cast h)
      omega
  rw [unitNear]
  omega

/-- The smallest unit belongs to small numbers only. -/
theorem half_unit_le_of_le {q : ℚ} (hq : 2 ^ (-1022 : ℤ) ≤ q) :
    (2 : ℚ) ^ unitNear q / 2 ≤ q / 2 ^ 53 := by
  have hpos : 0 < q := lt_of_lt_of_le (by positivity) hq
  have hlog := (Int.zpow_le_iff_le_log (b := 2) (by decide) hpos).mp (by exact_mod_cast hq)
  have hunit : 52 + unitNear q = Int.log 2 q := by
    rw [unitNear]
    omega
  have hlow := Int.zpow_log_le_self (b := 2) (by decide) hpos
  rw [← hunit, Nat.cast_ofNat, zpow_add₀ two_ne_zero] at hlow
  rw [le_div_iff₀ (by positivity)]
  linarith

theorem half_unit_le_of_one_le {q : ℚ} (hq : 1 ≤ q) : (2 : ℚ) ^ unitNear q / 2 ≤ q / 2 ^ 53 :=
  half_unit_le_of_le ((zpow_le_one_of_nonpos₀ one_le_two (by norm_num)).trans hq)

/-- Whole numbers that are not too large are their own nearest doubles. -/
theorem codeNear_natCast {n : Nat} (h : n ≤ 2 ^ 53) :
    codeNear n < infinityCode ∧ magnitude (codeNear n) = n := by
  have hq : (0 : ℚ) ≤ n := by positivity
  have hle : (n : ℚ) ≤ 2 ^ 53 := by exact_mod_cast h
  have hfin : codeNear n < infinityCode := by
    refine codeNear_lt hq (lt_of_le_of_lt hle ?_)
    exact pow_lt_pow_right₀ one_lt_two (by norm_num)
  refine ⟨hfin, ?_⟩
  -- the largest of them is counted in twos
  rcases hle.lt_or_eq with hlt | heq
  · have hunit : unitNear n ≤ 0 := unitNear_le hq (by norm_num) (by simpa using hlt)
    have hn : (n : ℚ) = n * 2 ^ (0 : ℤ) := by rw [zpow_zero, mul_one]
    refine le_antisymm ?_ ?_
    · exact (magnitude_codeNear_le hq hfin hunit hn.le).trans hn.ge
    · exact hn.le.trans (le_magnitude_codeNear hq hfin hunit hn.ge)
  · have hunit : unitNear n ≤ 1 := by
      refine unitNear_le hq (by norm_num) ?_
      rw [heq]
      norm_num
    have hn : (n : ℚ) = (2 ^ 52 : Nat) * 2 ^ (1 : ℤ) := by
      rw [heq]
      norm_num
    refine le_antisymm ?_ ?_
    · exact (magnitude_codeNear_le hq hfin hunit hn.le).trans hn.ge
    · exact hn.le.trans (le_magnitude_codeNear hq hfin hunit hn.ge)

theorem magnitude_lt {c : Nat} (hc : c < infinityCode) : magnitude c < 2 ^ (1024 : ℤ) := by
  have hs : (significand c : ℚ) < 2 ^ (53 : ℤ) := by exact_mod_cast (significand_bounds c).1
  calc magnitude c < 2 ^ (53 : ℤ) * 2 ^ unitExponent c := by
        rw [magnitude]
        gcongr
    _ ≤ 2 ^ (53 : ℤ) * 2 ^ (971 : ℤ) := by
        gcongr
        · exact one_le_two
        · exact (unitExponent_bounds hc).2
    _ = 2 ^ (1024 : ℤ) := by
        rw [← zpow_add₀ two_ne_zero]
        rfl

/-- The magnitude of a code as the quotient that the code keeps. -/
theorem numerator_div_denominator (c : Nat) : (numerator c : ℚ) / denominator c = magnitude c := by
  have h := scaled_div (significand c) 1 (-unitExponent c)
  rw [neg_neg, one_mul, Nat.cast_one, div_one, zpow_neg, div_inv_eq_mul] at h
  exact h

theorem magnitude_eq_natCast {c n : Nat} (h : numerator c = n * denominator c) :
    magnitude c = n := by
  have hpos : (denominator c : ℚ) ≠ 0 := by
    have := Nat.two_pow_pos (-unitExponent c).toNat
    exact_mod_cast this.ne'
  rw [← numerator_div_denominator, h, Nat.cast_mul, mul_div_cancel_right₀ _ hpos]

end FactorLabel.Number
