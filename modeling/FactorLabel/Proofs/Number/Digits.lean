import FactorLabel.Number.Radix
import FactorLabel.Proofs.Text.Scan
import Mathlib.Data.List.Induction
import Mathlib.Tactic.Ring

/-!
# Digits and the number they stand for

Writing a number as digits and reading the digits gives the number back. The digits are taken
off the low end with some fuel, and the fuel is enough because every step halves the number at
least.
-/

namespace FactorLabel.Number

/-! ## In any base -/

theorem ofDigits_concat (base : Nat) (ds : List Nat) (d : Nat) :
    ofDigits base (ds ++ [d]) = ofDigits base ds * base + d :=
  List.foldl_append

theorem ofDigits_append (base : Nat) (as bs : List Nat) :
    ofDigits base (as ++ bs) = ofDigits base as * base ^ bs.length + ofDigits base bs := by
  induction bs using List.reverseRecOn with
  | nil => simp [ofDigits]
  | append_singleton bs d ih =>
      rw [← List.append_assoc, ofDigits_concat, ih, ofDigits_concat, List.length_append,
        List.length_singleton, Nat.pow_succ]
      ring

theorem ofDigits_cons (base d : Nat) (ds : List Nat) :
    ofDigits base (d :: ds) = d * base ^ ds.length + ofDigits base ds := by
  have h := ofDigits_append base [d] ds
  have hone : ofDigits base [d] = d := by simp [ofDigits]
  rw [hone] at h
  exact h

theorem ofDigits_replicate_zero (base n : Nat) : ofDigits base (List.replicate n 0) = 0 := by
  induction n with
  | zero => rfl
  | succ n ih => rw [List.replicate_succ, ofDigits_cons, ih, Nat.zero_mul]

/-- Every step takes at least one bit. -/
theorem div_lt_two_pow {base : Nat} (hb : 2 ≤ base) {fuel n : Nat} (h : n < 2 ^ (fuel + 1)) :
    n / base < 2 ^ fuel := by
  have hle : n / base ≤ n / 2 := Nat.div_le_div_left hb (by omega)
  rw [Nat.pow_succ] at h
  omega

/-- Enough fuel loses no digit. -/
theorem ofDigits_digitsFrom {base : Nat} (hb : 2 ≤ base) {fuel n : Nat} (h : n < 2 ^ fuel)
    (acc : List Nat) : ofDigits base (digitsFrom base fuel n acc)
      = n * base ^ acc.length + ofDigits base acc := by
  -- the digits found so far stand behind the number, so they take part in the induction
  induction fuel generalizing n acc with
  | zero =>
      have hn : n = 0 := by omega
      rw [hn, Nat.zero_mul, Nat.zero_add]
      rfl
  | succ fuel ih =>
      have hmod := Nat.div_add_mod n base
      rw [digitsFrom]
      split
      · rename_i hzero
        rw [hzero, Nat.mul_zero, Nat.zero_add] at hmod
        rw [ofDigits_cons, hmod]
      · rw [ih (div_lt_two_pow hb h), ofDigits_cons, List.length_cons, Nat.pow_succ]
        calc n / base * (base ^ acc.length * base) + (n % base * base ^ acc.length
              + ofDigits base acc)
            = (base * (n / base) + n % base) * base ^ acc.length + ofDigits base acc := by ring
          _ = n * base ^ acc.length + ofDigits base acc := by rw [hmod]

/-- **Digits read back.** -/
theorem ofDigits_digits {base : Nat} (hb : 2 ≤ base) (n : Nat) :
    ofDigits base (digits base n) = n := by
  rw [digits, ofDigits_digitsFrom hb Nat.lt_log2_self]
  simp [ofDigits]

theorem digitsFrom_ne_nil (base fuel n : Nat) {acc : List Nat} (h : acc ≠ []) :
    digitsFrom base fuel n acc ≠ [] := by
  induction fuel generalizing n acc with
  | zero => exact h
  | succ fuel ih =>
      rw [digitsFrom]
      split
      · exact List.cons_ne_nil _ _
      · exact ih _ (List.cons_ne_nil _ _)

theorem digits_ne_nil (base n : Nat) : digits base n ≠ [] := by
  rw [digits, digitsFrom]
  split
  · exact List.cons_ne_nil _ _
  · exact digitsFrom_ne_nil _ _ _ (List.cons_ne_nil _ _)

/-- A positive number starts with a positive digit. -/
theorem head_digitsFrom {base : Nat} (hb : 2 ≤ base) {fuel n : Nat} (h : n < 2 ^ fuel)
    (hn : 0 < n) (acc : List Nat) :
    ∃ d ∈ (digitsFrom base fuel n acc).head?, 0 < d := by
  induction fuel generalizing n acc with
  | zero => omega
  | succ fuel ih =>
      have hmod := Nat.div_add_mod n base
      rw [digitsFrom]
      split
      · rename_i hzero
        rw [hzero, Nat.mul_zero, Nat.zero_add] at hmod
        exact ⟨_, rfl, hmod.symm ▸ hn⟩
      · rename_i hquot
        exact ih (div_lt_two_pow hb h) (Nat.pos_of_ne_zero hquot) _

theorem head_digits {base : Nat} (hb : 2 ≤ base) {n : Nat} (hn : 0 < n) :
    ∃ d ∈ (digits base n).head?, 0 < d := head_digitsFrom hb Nat.lt_log2_self hn []

/-! ## In decimal -/

theorem digitChar_of_lt {d : Nat} (h : d < 10) :
    (digitChar d).isDigit = true ∧ digitValue (digitChar d) = d := by
  have hall : ∀ d < 10, (digitChar d).isDigit = true ∧ digitValue (digitChar d) = d := by decide
  exact hall d h

theorem ne_of_isDigit {c d : Char} (hc : c.isDigit = true) (hd : d.isDigit = false) : c ≠ d := by
  rintro rfl
  exact Bool.false_ne_true (hd.symm.trans hc)

theorem decimalText_isDigit (n : Nat) : ∀ c ∈ decimalText n, c.isDigit = true := by
  intro c hc
  obtain ⟨d, hd, rfl⟩ := List.mem_map.mp hc
  exact (digitChar_of_lt (digits_lt (by decide) n d hd)).1

theorem decimalText_ne_nil (n : Nat) : decimalText n ≠ [] := fun h =>
  digits_ne_nil 10 n (List.map_eq_nil_iff.mp h)

theorem decimalText_head (n : Nat) : ∃ c s, decimalText n = c :: s ∧ c.isDigit = true := by
  cases htext : decimalText n with
  | nil => exact absurd htext (decimalText_ne_nil n)
  | cons c s => exact ⟨c, s, rfl, decimalText_isDigit n c (htext ▸ List.mem_cons_self)⟩

/-- A numeral is not taken for a mark in front of it. -/
theorem stops_decimalText_append {d : Char} (hd : d.isDigit = false) (n : Nat) (rest : List Char) :
    Text.Stops (· == d) (decimalText n ++ rest) := by
  obtain ⟨c, s, htext, hdigit⟩ := decimalText_head n
  rw [htext]
  exact Text.stops_cons (beq_eq_false_iff_ne.mpr (ne_of_isDigit hdigit hd))

theorem decimalValue_decimalText (n : Nat) : decimalValue (decimalText n) = n := by
  have hmap : (decimalText n).map digitValue = digits 10 n := by
    rw [decimalText, List.map_map]
    refine (List.map_congr_left fun d hd => ?_).trans (List.map_id _)
    exact (digitChar_of_lt (digits_lt (by decide) n d hd)).2
  rw [decimalValue, hmap, ofDigits_digits (by decide)]

/-- Only the number zero starts with a zero. -/
theorem eq_zero_of_head_decimalText {n : Nat} (h : (decimalText n).head? = some '0') : n = 0 := by
  rcases Nat.eq_zero_or_pos n with hn | hn
  · exact hn
  · obtain ⟨d, hd, hpos⟩ : ∃ d ∈ (digits 10 n).head?, 0 < d := head_digits (by decide) hn
    have hmem : d ∈ digits 10 n := List.mem_of_mem_head? hd
    have hvalue := (digitChar_of_lt (digits_lt (by decide) n d hmem)).2
    rw [decimalText, List.head?_map, hd, Option.map_some] at h
    rw [Option.some.inj h] at hvalue
    have hzero : digitValue '0' = 0 := rfl
    omega

theorem decimalValue_append (a b : List Char) :
    decimalValue (a ++ b) = decimalValue a * 10 ^ b.length + decimalValue b := by
  rw [decimalValue, List.map_append, ofDigits_append, List.length_map, decimalValue, decimalValue]

theorem decimalValue_cons (c : Char) (s : List Char) :
    decimalValue (c :: s) = digitValue c * 10 ^ s.length + decimalValue s := by
  rw [decimalValue, List.map_cons, ofDigits_cons, List.length_map, decimalValue]

/-! ## The last digits -/

theorem length_lastDigitsFrom (width n : Nat) (acc : List Char) :
    (lastDigitsFrom width n acc).length = width + acc.length := by
  induction width generalizing n acc with
  | zero => rw [lastDigitsFrom, Nat.zero_add]
  | succ width ih =>
      rw [lastDigitsFrom, ih, List.length_cons]
      omega

theorem lastDigitsFrom_isDigit (width n : Nat) {acc : List Char}
    (h : ∀ c ∈ acc, c.isDigit = true) : ∀ c ∈ lastDigitsFrom width n acc, c.isDigit = true := by
  induction width generalizing n acc with
  | zero => exact h
  | succ width ih =>
      refine ih _ fun c hc => ?_
      rcases List.mem_cons.mp hc with rfl | hc
      · exact (digitChar_of_lt (Nat.mod_lt n (by decide))).1
      · exact h c hc

theorem decimalValue_lastDigitsFrom (width n : Nat) (acc : List Char) :
    decimalValue (lastDigitsFrom width n acc)
      = n % 10 ^ width * 10 ^ acc.length + decimalValue acc := by
  induction width generalizing n acc with
  | zero => rw [lastDigitsFrom, Nat.pow_zero, Nat.mod_one, Nat.zero_mul, Nat.zero_add]
  | succ width ih =>
      have hmod : n % 10 ^ (width + 1) = n % 10 + 10 * (n / 10 % 10 ^ width) := by
        rw [Nat.pow_succ, Nat.mul_comm, Nat.mod_mul]
      rw [lastDigitsFrom, ih, decimalValue_cons, (digitChar_of_lt (Nat.mod_lt n (by decide))).2,
        List.length_cons, hmod, Nat.pow_succ]
      ring

theorem length_lastDigits (width n : Nat) : (lastDigits width n).length = width :=
  length_lastDigitsFrom width n []

theorem lastDigits_isDigit (width n : Nat) : ∀ c ∈ lastDigits width n, c.isDigit = true :=
  lastDigitsFrom_isDigit width n fun _ hc => absurd hc List.not_mem_nil

theorem decimalValue_lastDigits (width n : Nat) :
    decimalValue (lastDigits width n) = n % 10 ^ width := by
  rw [lastDigits, decimalValue_lastDigitsFrom, List.length_nil, Nat.pow_zero, Nat.mul_one]
  rfl

end FactorLabel.Number
