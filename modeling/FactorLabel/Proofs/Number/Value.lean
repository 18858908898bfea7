import FactorLabel.Number.Decimal
import FactorLabel.Proofs.Number.Magnitude

/-!
# Equal numbers are read alike

The same number can be written as many decimals: digits may move behind the point, and zeros may
be added. All of them are read as the same double. Rounding a quotient depends on its value only,
and the two shortcuts for very large and very small decimals give what rounding would give.
-/

namespace FactorLabel.Number

/-! ## Quotients -/

theorem divRoundEven_mul_right (num den : Nat) {k : Nat} (hk : 0 < k) :
    divRoundEven (num * k) (den * k) = divRoundEven num den := by
  have hlt : 2 * (num % den * k) < den * k ↔ 2 * (num % den) < den := by
    rw [← Nat.mul_assoc]
    exact Nat.mul_lt_mul_right hk
  have heq : 2 * (num % den * k) = den * k ↔ 2 * (num % den) = den := by
    rw [← Nat.mul_assoc]
    exact Nat.mul_left_inj hk.ne'
  simp only [divRoundEven, Nat.mul_div_mul_right _ _ hk, Nat.mul_mod_mul_right, hlt, heq]

theorem divRoundEven_congr {num den num' den' : Nat} (hden : 0 < den) (hden' : 0 < den')
    (h : num * den' = num' * den) : divRoundEven num den = divRoundEven num' den' :=
  calc divRoundEven num den
      = divRoundEven (num * den') (den * den') := (divRoundEven_mul_right _ _ hden').symm
    _ = divRoundEven (num' * den) (den' * den) := by rw [h, Nat.mul_comm den]
    _ = divRoundEven num' den' := divRoundEven_mul_right _ _ hden

/-- **Rounding sees the value only.** -/
theorem nearestCode_congr {num den num' den' : Nat} (hden : 0 < den) (hden' : 0 < den')
    (h : (num / den : ℚ) = num' / den') : nearestCode num den = nearestCode num' den' := by
  have hcross : num * den' = num' * den := by
    rw [div_eq_div_iff (by positivity) (by positivity)] at h
    exact_mod_cast h
  rcases Nat.eq_zero_or_pos num with rfl | hnum
  · have hnum' : num' = 0 := by
      rw [Nat.zero_mul] at hcross
      exact (Nat.mul_eq_zero.mp hcross.symm).resolve_right hden.ne'
    rw [hnum', nearestCode, nearestCode, if_pos rfl, if_pos rfl]
  · have hnum' : 0 < num' := by
      have hpos : 0 < num' * den := hcross ▸ Nat.mul_pos hnum hden'
      exact Nat.pos_of_mul_pos_right hpos
    have horder : floorLog2 num den = floorLog2 num' den' := by
      rw [floorLog2_eq_log hnum hden, floorLog2_eq_log hnum' hden', h]
    have hround : ∀ u : Int, divRoundEven (num * Nat.pow 2 (-u).toNat) (den * Nat.pow 2 u.toNat)
        = divRoundEven (num' * Nat.pow 2 (-u).toNat) (den' * Nat.pow 2 u.toNat) := by
      intro u
      refine divRoundEven_congr (Nat.mul_pos hden (Nat.two_pow_pos _))
        (Nat.mul_pos hden' (Nat.two_pow_pos _)) ?_
      rw [Nat.mul_mul_mul_comm, hcross, Nat.mul_mul_mul_comm]
    simp only [nearestCode, if_neg hnum.ne', if_neg hnum'.ne', horder, hround]

theorem le_divRoundEven {m num den : Nat} (hden : 0 < den) (h : m * den ≤ num) :
    m ≤ divRoundEven num den := by
  have hquot : m ≤ num / den := (Nat.le_div_iff_mul_le hden).mpr h
  simp only [divRoundEven]
  split
  · exact hquot
  · exact Nat.le_succ_of_le hquot

theorem divRoundEven_of_lt {num den : Nat} (h : 2 * num < den) : divRoundEven num den = 0 := by
  have hlt : num < den := by omega
  simp only [divRoundEven, Nat.div_eq_of_lt hlt, Nat.mod_eq_of_lt hlt]
  exact if_pos (.inl h)

/-- From two to the 1024th on there is only infinity. -/
theorem nearestCode_of_le {num den : Nat} (hden : 0 < den)
    (h : (2 : ℚ) ^ (1024 : ℤ) ≤ num / den) : nearestCode num den = infinityCode := by
  have hpos : (0 : ℚ) < num / den := lt_of_lt_of_le (by positivity) h
  have hnum : 0 < num := by
    rcases Nat.eq_zero_or_pos num with rfl | hnum
    · rw [Nat.cast_zero, zero_div] at hpos
      exact absurd hpos (lt_irrefl 0)
    · exact hnum
  have horder := floorLog2_eq_log hnum hden
  have hlarge : 1024 ≤ floorLog2 num den := by
    rw [horder]
    exact (Int.zpow_le_iff_le_log (b := 2) (by decide) hpos).mp h
  obtain ⟨n, hn⟩ : ∃ n : Nat, floorLog2 num den = n + 52 :=
    ⟨(floorLog2 num den - 52).toNat, by omega⟩
  have hunit : max (floorLog2 num den - 52) (-1074) = n := by omega
  -- the unit alone leads to the last binade but one, and a full significand is a binade more
  have hfull : 2 ^ 52 ≤ divRoundEven (num * Nat.pow 2 (-(n : Int)).toNat)
      (den * Nat.pow 2 (n : Int).toNat) := by
    have hle := (scaled_le_iff hden (floorLog2 num den)).mpr (by
      rw [horder]
      exact Int.zpow_log_le_self (by decide) hpos)
    rw [hn, (by omega : ((n : Int) + 52).toNat = 52 + n),
      (by omega : (-((n : Int) + 52)).toNat = 0), Nat.pow_zero, Nat.mul_one, Nat.pow_add] at hle
    rw [Int.toNat_natCast, (by omega : (-(n : Int)).toNat = 0)]
    refine le_divRoundEven (Nat.mul_pos hden (Nat.two_pow_pos n)) ?_
    show 2 ^ 52 * (den * 2 ^ n) ≤ num * 2 ^ 0
    rw [Nat.mul_left_comm, Nat.pow_zero, Nat.mul_one]
    exact hle
  rw [nearestCode, if_neg hnum.ne']
  simp only [hunit, binade_eq]
  have hinf : infinityCode = 2047 * 2 ^ 52 := rfl
  omega

/-- Below half of the smallest unit there is only zero. -/
theorem nearestCode_of_lt {num den : Nat} (hden : 0 < den)
    (h : (num / den : ℚ) < 2 ^ (-1075 : ℤ)) : nearestCode num den = 0 := by
  rcases Nat.eq_zero_or_pos num with rfl | hnum
  · exact if_pos rfl
  · have hpos : (0 : ℚ) < num / den := by positivity
    have hsmall : floorLog2 num den < -1075 := by
      rw [floorLog2_eq_log hnum hden]
      exact (Int.lt_zpow_iff_log_lt (b := 2) (by decide) hpos).mp h
    -- a name for the exponent of the unit keeps its power from being worked out
    obtain ⟨u, hu⟩ : ∃ u : Int, u = -1074 := ⟨_, rfl⟩
    have hunit : max (floorLog2 num den - 52) (-1074) = u := by omega
    have hdouble : ((2 * num : Nat) / den : ℚ) < 2 ^ u :=
      calc ((2 * num : Nat) / den : ℚ) = 2 * (num / den) := by
            rw [Nat.cast_mul, Nat.cast_ofNat, mul_div_assoc]
        _ < 2 * 2 ^ (-1075 : ℤ) := by gcongr
        _ = 2 ^ (1 + (-1075 : ℤ)) := (zpow_one_add₀ two_ne_zero _).symm
        _ = 2 ^ u := by rw [hu]; rfl
    have hround : divRoundEven (num * Nat.pow 2 (-u).toNat) (den * Nat.pow 2 u.toNat) = 0 := by
      refine divRoundEven_of_lt ?_
      rw [← Nat.mul_assoc]
      exact Nat.lt_of_not_le fun hle => not_le.mpr hdouble ((scaled_le_iff hden u).mp hle)
    rw [nearestCode, if_neg hnum.ne']
    simp only [hunit, hround]
    rw [hu]
    rfl

/-! ## Decimals -/

namespace Decimal

/-- The number that a decimal stands for. -/
def value (d : Decimal) : ℚ := d.digits * 10 ^ d.exponent

/-- The quotient that is rounded when a decimal is read. -/
theorem scaled_eq_value (d : Decimal) :
    ((d.digits * 10 ^ d.exponent.toNat : Nat) : ℚ) / ((10 ^ (-d.exponent).toNat : Nat) : ℚ)
      = d.value := by
  rw [value]
  obtain ⟨n, hn | hn⟩ := d.exponent.eq_nat_or_neg
  · rw [hn]
    simp
  · rw [hn]
    simp [div_eq_mul_inv]

/-- A decimal has at most one bit less in front of its power of ten than it is written with. -/
theorem value_lt (d : Decimal) : d.value < 10 ^ (d.exponent + d.digits.log2 + 1) := by
  have hdigits : (d.digits : ℚ) < 10 ^ ((d.digits.log2 : ℤ) + 1) := by
    have hlt : d.digits < 2 ^ (d.digits.log2 + 1) := Nat.lt_log2_self
    have hle : 2 ^ (d.digits.log2 + 1) ≤ 10 ^ (d.digits.log2 + 1) :=
      Nat.pow_le_pow_left (by decide) _
    rw [← Nat.cast_succ, zpow_natCast]
    exact_mod_cast Nat.lt_of_lt_of_le hlt hle
  rw [value, add_assoc, zpow_add₀ (by norm_num), mul_comm]
  gcongr

/-- Past `10 ^ 310` there is no finite double. -/
theorem largest_lt : (2 : ℚ) ^ (1024 : ℤ) ≤ 10 ^ (310 : ℤ) := by
  have h : 2 ^ 1024 ≤ 10 ^ 310 := by decide +kernel
  exact_mod_cast h

/-- Below `10 ^ (-330)` a number is not even half of the smallest unit. -/
theorem lt_half_smallest : (10 : ℚ) ^ (-330 : ℤ) ≤ 2 ^ (-1075 : ℤ) := by
  have h : 2 ^ 1075 ≤ 10 ^ 330 := by decide +kernel
  rw [zpow_neg, zpow_neg]
  refine inv_anti₀ (by positivity) ?_
  exact_mod_cast h

/-- The shortcuts give what rounding gives. -/
theorem nearestCode_eq (d : Decimal) : d.nearestCode
    = Number.nearestCode (d.digits * 10 ^ d.exponent.toNat) (10 ^ (-d.exponent).toNat) := by
  have hden : 0 < 10 ^ (-d.exponent).toNat := Nat.pow_pos (by decide)
  rw [nearestCode]
  split
  · rename_i hzero
    rw [hzero, Nat.zero_mul, Number.nearestCode, if_pos rfl]
  · rename_i hdigits
    split
    · rename_i hlarge
      have hone : (1 : ℚ) ≤ d.digits := by exact_mod_cast Nat.pos_of_ne_zero hdigits
      refine (nearestCode_of_le hden ?_).symm
      rw [scaled_eq_value]
      calc (2 : ℚ) ^ (1024 : ℤ) ≤ 10 ^ (310 : ℤ) := largest_lt
        _ ≤ 10 ^ d.exponent := zpow_le_zpow_right₀ (by norm_num) (Int.le_of_lt hlarge)
        _ ≤ d.value := le_mul_of_one_le_left (by positivity) hone
    · split
      · rename_i hsmall
        refine (nearestCode_of_lt hden ?_).symm
        rw [scaled_eq_value]
        calc d.value < 10 ^ (d.exponent + d.digits.log2 + 1) := d.value_lt
          _ ≤ 10 ^ (-330 : ℤ) := zpow_le_zpow_right₀ (by norm_num) (Int.le_of_lt hsmall)
          _ ≤ 2 ^ (-1075 : ℤ) := lt_half_smallest
      · rfl

/-- **Equal decimals are read as the same double.** -/
theorem nearestCode_congr {d d' : Decimal} (h : d.value = d'.value) :
    d.nearestCode = d'.nearestCode := by
  rw [nearestCode_eq, nearestCode_eq]
  refine Number.nearestCode_congr (Nat.pow_pos (by decide)) (Nat.pow_pos (by decide)) ?_
  rw [scaled_eq_value, scaled_eq_value, h]

/-- **Exact decimals.** A decimal with the value of a finite code is read as this code. -/
theorem nearestCode_of_value {d : Decimal} {c : Nat} (hfin : c < infinityCode)
    (h : d.value = magnitude c) : d.nearestCode = c := by
  rw [nearestCode_eq]
  exact nearestCode_of_magnitude (Nat.pow_pos (by decide)) hfin (d.scaled_eq_value.trans h)

end Decimal

end FactorLabel.Number
