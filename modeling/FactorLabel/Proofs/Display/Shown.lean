import FactorLabel.Display.Factor
import FactorLabel.Proofs.Number.Nearest
import FactorLabel.Proofs.Number.Readback
import Mathlib.Data.List.DropRight

/-!
# What a shown number denotes

A shown number is a minus sign, if the number is negative, the whole digits, and then the point and
the decimal places, if there are any. No zero stands in front of the whole digits and none at the
end of the places, so the text is as short as it can be, and it denotes one number only.

Trimming takes zeros and the point off the end of a text with a fixed number of places. It
leaves such a text, for the same number, except that it can leave a negative zero.
-/

namespace FactorLabel.Display

open Number Text

/-- `s` is `q`, written with the whole number `whole` and the decimal places `fraction`. -/
structure Written (places : Nat) (q : ℚ) (whole : Nat) (fraction s : List Char) : Prop where
  text : s = markText '-' (decide (q < 0)) ++ (decimalText whole ++ fractionText fraction)
  digits : ∀ c ∈ fraction, c.isDigit = true
  length_le : fraction.length ≤ places
  /-- No zero stands at the end of the decimal places. -/
  last : fraction.getLast? ≠ some '0'
  value : (Decimal.ofParts (decimalText whole) fraction).value = |q|

/-- `s` is the shortest text of the number `q`, which has at most `places` decimal places. -/
def Shows (places : Nat) (q : ℚ) (s : List Char) : Prop :=
  ∃ whole fraction, Written places q whole fraction s

/-! ## Reading a shown number -/

theorem stops_fractionText (fraction : List Char) :
    Stops Char.isDigit (fractionText fraction) := by
  have h := stops_fractionText_append (p := Char.isDigit) fraction rfl stops_nil
  rw [List.append_nil] at h
  exact h

theorem drop_fractionText (fraction : List Char) : (fractionText fraction).drop 1 = fraction := by
  cases fraction <;> rfl

/-- The whole digits and the places are found again at the point. -/
theorem parts_of_append {whole whole' : Nat} {fraction fraction' : List Char}
    (h : decimalText whole ++ fractionText fraction
      = decimalText whole' ++ fractionText fraction') :
    decimalText whole = decimalText whole' ∧ fraction = fraction' := by
  have hwhole := congrArg (List.takeWhile Char.isDigit) h
  have hfraction := congrArg (List.dropWhile Char.isDigit) h
  simp only [takeWhile_append_of_stops (decimalText_isDigit _) (stops_fractionText _)] at hwhole
  simp only [dropWhile_append_of_stops (decimalText_isDigit _) (stops_fractionText _)] at hfraction
  have hdigits := congrArg (List.drop 1) hfraction
  rw [drop_fractionText, drop_fractionText] at hdigits
  exact ⟨hwhole, hdigits⟩

theorem Written.takeMark {places : Nat} {q : ℚ} {whole : Nat} {fraction s : List Char}
    (h : Written places q whole fraction s) :
    takeMark '-' s = (decide (q < 0), decimalText whole ++ fractionText fraction) := by
  rw [h.text]
  exact takeMark_append fun _ => stops_decimalText_append rfl _ _

/-- **A text shows one number.** -/
theorem Shows.unique {places places' : Nat} {q q' : ℚ} {s : List Char} (h : Shows places q s)
    (h' : Shows places' q' s) : q = q' := by
  obtain ⟨whole, fraction, hw⟩ := h
  obtain ⟨whole', fraction', hw'⟩ := h'
  obtain ⟨hsign, hrest⟩ := Prod.mk.inj (hw.takeMark.symm.trans hw'.takeMark)
  obtain ⟨hwhole, hfraction⟩ := parts_of_append hrest
  have habs : |q| = |q'| := by rw [← hw.value, ← hw'.value, hwhole, hfraction]
  rw [decide_eq_decide] at hsign
  rcases lt_or_ge q 0 with hneg | hpos
  · rw [abs_of_neg hneg, abs_of_neg (hsign.mp hneg)] at habs
    linarith
  · rw [abs_of_nonneg hpos, abs_of_nonneg (not_lt.mp (mt hsign.mpr hpos.not_gt))] at habs
    exact habs

/-- No number is shown as a negative zero, for that would be read as zero. -/
theorem Written.ne_negativeZero {places : Nat} {q : ℚ} {whole : Nat} {fraction s : List Char}
    (h : Written places q whole fraction s) : s ≠ ['-', '0'] := by
  rintro rfl
  have hzero : Text.takeMark '-' ['-', '0'] = (true, decimalText 0 ++ fractionText []) := rfl
  obtain ⟨hsign, hrest⟩ := Prod.mk.inj (h.takeMark.symm.trans hzero)
  obtain ⟨hwhole, hfraction⟩ := parts_of_append hrest
  have hvalue := h.value
  rw [hwhole, hfraction] at hvalue
  have hq : q = 0 := abs_eq_zero.mp (hvalue.symm.trans (zero_mul _))
  exact (of_decide_eq_true hsign).ne hq

/-! ## Taking characters off the end -/

theorem trimEnd_concat (c d : Char) (s : List Char) :
    trimEnd c (s ++ [d]) = if d = c then trimEnd c s else s ++ [d] := by
  have h := List.rdropWhile_concat (fun x => x == c) s d
  simp only [beq_iff_eq] at h
  exact h

/-- Nothing is taken off beyond another character. -/
theorem trimEnd_append_cons {c d : Char} (hd : d ≠ c) (s t : List Char) :
    trimEnd c (s ++ d :: t) = s ++ d :: trimEnd c t := by
  induction t using List.reverseRecOn with
  | nil => exact (trimEnd_concat c d s).trans (if_neg hd)
  | append_singleton t x ih =>
      rw [← List.cons_append, ← List.append_assoc, trimEnd_concat, trimEnd_concat]
      split
      · exact ih
      · rw [List.append_assoc, List.cons_append]

theorem getLast?_trimEnd (c : Char) (s : List Char) : (trimEnd c s).getLast? ≠ some c := by
  induction s using List.reverseRecOn with
  | nil => exact Option.some_ne_none c ∘ Eq.symm
  | append_singleton s x ih =>
      rw [trimEnd_concat]
      split
      · exact ih
      · rename_i hne
        rw [List.getLast?_concat]
        exact fun h => hne (Option.some.inj h)

theorem trimEnd_eq_self {c : Char} {s : List Char} (h : s.getLast? ≠ some c) :
    trimEnd c s = s := by
  rcases List.eq_nil_or_concat' s with rfl | ⟨s, d, rfl⟩
  · rfl
  · rw [List.getLast?_concat] at h
    exact (trimEnd_concat c d s).trans (if_neg fun heq => h (congrArg some heq))

theorem trimEnd_isPrefix (c : Char) (s : List Char) : trimEnd c s <+: s :=
  List.rdropWhile_prefix (fun x => x == c) s

theorem trimEnd_append_replicate (c : Char) (s : List Char) :
    ∃ n, s = trimEnd c s ++ List.replicate n c := by
  induction s using List.reverseRecOn with
  | nil => exact ⟨0, rfl⟩
  | append_singleton s d ih =>
      rw [trimEnd_concat]
      by_cases hd : d = c
      · obtain ⟨n, hn⟩ := ih
        refine ⟨n + 1, ?_⟩
        rw [if_pos hd, List.replicate_succ', ← List.append_assoc, ← hn, hd]
      · rw [if_neg hd]
        exact ⟨0, (List.append_nil _).symm⟩

/-- Zeros at the end of the decimal places do not count. -/
theorem value_ofParts_trimEnd (whole fraction : List Char) :
    (Decimal.ofParts whole (trimEnd '0' fraction)).value
      = (Decimal.ofParts whole fraction).value := by
  induction fraction using List.reverseRecOn with
  | nil => rfl
  | append_singleton s x ih =>
      rw [trimEnd_concat]
      split
      · rename_i hx
        have hten : (10 : ℚ) * 10 ^ (-((s.length : ℤ) + 1)) = 10 ^ (-(s.length : ℤ)) := by
          rw [← zpow_one_add₀ (by norm_num)]
          congr 1
          omega
        have hzero : decimalValue (whole ++ (s ++ ['0'])) = decimalValue (whole ++ s) * 10 := by
          rw [← List.append_assoc, decimalValue_append]
          rfl
        rw [ih, hx]
        simp only [Decimal.ofParts, Decimal.value, hzero, List.length_append, List.length_singleton]
        push_cast
        rw [mul_assoc, hten]
      · rfl

/-! ## Trimming a fixed number of places -/

theorem trimPlaces_of_point {pre fraction : List Char} (hpre : pre.getLast? ≠ some '.')
    (hdigits : ∀ c ∈ fraction, c.isDigit = true) :
    trimPlaces (pre ++ '.' :: fraction) = pre ++ fractionText (trimEnd '0' fraction) := by
  have hcontains : (pre ++ '.' :: fraction).contains '.' = true := by simp
  have hkept := (trimEnd_isPrefix '0' fraction).subset
  rw [trimPlaces, if_pos hcontains, trimEnd_append_cons (by decide)]
  generalize trimEnd '0' fraction = kept at *
  rcases List.eq_nil_or_concat' kept with rfl | ⟨kept, d, rfl⟩
  · -- no place is left, so the point goes as well
    rw [trimEnd_concat, if_pos rfl]
    exact (trimEnd_eq_self hpre).trans (List.append_nil _).symm
  · have hd : d ≠ '.' := ne_of_isDigit (hdigits d (hkept (by simp))) rfl
    have hne : (kept ++ [d]).isEmpty = false := by simp
    rw [fractionText, hne, if_neg Bool.false_ne_true, ← List.cons_append, ← List.append_assoc,
      trimEnd_concat, if_neg hd]

theorem trimPlaces_of_no_point {s : List Char} (h : '.' ∉ s) : trimPlaces s = s :=
  if_neg (by simpa using h)

theorem not_mem_markText_append (negative : Bool) (n : Nat) :
    '.' ∉ markText '-' negative ++ decimalText n := by
  intro h
  rcases List.mem_append.mp h with h | h
  · cases negative
    · exact absurd h List.not_mem_nil
    · exact absurd (List.mem_singleton.mp h) (by decide)
  · exact absurd (decimalText_isDigit n _ h) (by decide)

/-- Trimming leaves the sign and the whole digits as they are, and the places without the zeros at
their end. -/
theorem trimPlaces_text (negative : Bool) (d : Decimal) :
    trimPlaces (markText '-' negative ++ d.text) = markText '-' negative ++
      (decimalText d.whole ++ fractionText (trimEnd '0' d.fraction)) := by
  have htext : d.text = decimalText d.whole ++ fractionText d.fraction := rfl
  have hpoint := not_mem_markText_append negative d.whole
  have hdigits := lastDigits_isDigit (-d.exponent).toNat d.digits
  rw [htext, ← List.append_assoc, ← List.append_assoc]
  cases hfraction : d.fraction with
  | nil =>
      show trimPlaces (_ ++ []) = _ ++ []
      rw [List.append_nil]
      exact trimPlaces_of_no_point hpoint
  | cons c fraction =>
      refine trimPlaces_of_point (fun h => hpoint (List.mem_of_getLast? h)) ?_
      rw [← hfraction]
      exact hdigits

/-! ## The number that is left -/

theorem eq_zero_of_digitValue {c : Char} (hc : c.isDigit = true) (h : digitValue c = 0) :
    c = '0' := by
  have hge : '0'.toNat ≤ c.toNat := by
    simp only [Char.isDigit, Bool.and_eq_true, decide_eq_true_eq] at hc
    exact hc.1
  rw [digitValue] at h
  exact Char.toNat_inj.mp (by omega)

/-- Only zero is written with zeros alone. -/
theorem fraction_eq_nil (whole : List Char) {fraction : List Char}
    (hdigits : ∀ c ∈ fraction, c.isDigit = true) (hlast : fraction.getLast? ≠ some '0')
    (hvalue : decimalValue (whole ++ fraction) = 0) : fraction = [] := by
  rcases List.eq_nil_or_concat' fraction with hnil | ⟨s, c, rfl⟩
  · exact hnil
  · have hone : decimalValue [c] = digitValue c := by simp [decimalValue, ofDigits]
    rw [← List.append_assoc, decimalValue_append, hone] at hvalue
    have hc := eq_zero_of_digitValue (hdigits c (by simp)) (Nat.eq_zero_of_add_eq_zero_left hvalue)
    rw [List.getLast?_concat, hc] at hlast
    exact absurd rfl hlast

/-- The number of a sign and a magnitude. -/
def signed (negative : Bool) (q : ℚ) : ℚ := if negative then -q else q

theorem abs_signed (negative : Bool) (q : ℚ) : |signed negative q| = |q| := by
  cases negative with
  | true => exact abs_neg q
  | false => rfl

theorem signed_lt_zero_iff (negative : Bool) {q : ℚ} (hq : 0 ≤ q) :
    signed negative q < 0 ↔ negative = true ∧ q ≠ 0 := by
  cases negative with
  | true =>
      show -q < 0 ↔ _
      rw [neg_lt_zero, hq.lt_iff_ne']
      exact (and_iff_right rfl).symm
  | false => exact iff_of_false hq.not_gt fun h => Bool.false_ne_true h.1

/-- Zeros are all that is taken off the end of the places. -/
theorem trimmed_fraction (d : Decimal) :
    (∀ c ∈ trimEnd '0' d.fraction, c.isDigit = true)
    ∧ (trimEnd '0' d.fraction).length ≤ (-d.exponent).toNat
    ∧ (Decimal.ofParts (decimalText d.whole) (trimEnd '0' d.fraction)).value = d.value := by
  have hkept := trimEnd_isPrefix '0' d.fraction
  refine ⟨fun c hc => ?_, ?_, ?_⟩
  · exact lastDigits_isDigit (-d.exponent).toNat d.digits c (hkept.subset hc)
  · exact hkept.length_le.trans (length_lastDigits _ _).le
  · rw [value_ofParts_trimEnd, Decimal.value_ofParts_text]

/-- Nothing but one zero is left of zero. -/
theorem trimmed_zero {d : Decimal} (hd : d.digits = 0) :
    decimalText d.whole ++ fractionText (trimEnd '0' d.fraction) = ['0'] := by
  obtain ⟨hdigits, -, hvalue⟩ := trimmed_fraction d
  have hwhole : decimalText d.whole = ['0'] := by
    rw [Decimal.whole, hd, Nat.zero_mul, Nat.zero_div]
    rfl
  have hfraction : trimEnd '0' d.fraction = [] := by
    refine fraction_eq_nil (decimalText d.whole) hdigits (getLast?_trimEnd '0' _) ?_
    rw [Decimal.value, Decimal.value, hd, Nat.cast_zero, zero_mul] at hvalue
    rcases mul_eq_zero.mp hvalue with h | h
    · exact_mod_cast h
    · exact absurd h (by positivity)
  rw [hwhole, hfraction]
  rfl

/-- **Trimming keeps the number.** What is left of a text with a fixed number of places is the
shortest text of the same number, where a negative zero is mended. -/
theorem shows_trimmed (places n : Nat) (negative : Bool) :
    Shows places (signed negative (n / 10 ^ places))
      (let s := trimPlaces (markText '-' negative ++ (⟨n, -(places : Int)⟩ : Decimal).text)
      if s = ['-', '0'] then ['0'] else s) := by
  obtain ⟨d, hd⟩ : ∃ d : Decimal, d = ⟨n, -(places : Int)⟩ := ⟨_, rfl⟩
  obtain ⟨q, hq⟩ : ∃ q : ℚ, q = n / 10 ^ places := ⟨_, rfl⟩
  have hnonneg : 0 ≤ q := by
    rw [hq]
    positivity
  have hzero : q = 0 ↔ n = 0 := by
    rw [hq, div_eq_zero_iff, or_iff_left (by positivity), Nat.cast_eq_zero]
  have hsign : signed negative q < 0 ↔ negative = true ∧ n ≠ 0 := by
    rw [signed_lt_zero_iff negative hnonneg, Ne, hzero]
  obtain ⟨hdigits, hlength, hvalue⟩ := trimmed_fraction d
  have hplaces : (-d.exponent).toNat = places := by simp [hd]
  have hdq : d.value = q := by
    rw [hd, hq, Decimal.value, zpow_neg, zpow_natCast, div_eq_mul_inv]
  have hwritten : ∀ s, s = markText '-' (decide (signed negative q < 0)) ++
      (decimalText d.whole ++ fractionText (trimEnd '0' d.fraction)) →
      Written places (signed negative q) d.whole (trimEnd '0' d.fraction) s := fun s hs =>
    { text := hs
      digits := hdigits
      length_le := hlength.trans hplaces.le
      last := getLast?_trimEnd '0' _
      value := by rw [hvalue, hdq, abs_signed, abs_of_nonneg hnonneg] }
  rw [← hd, ← hq]
  refine ⟨_, _, hwritten _ ?_⟩
  simp only [trimPlaces_text]
  rcases Nat.eq_zero_or_pos n with hn | hn
  · -- the sign of zero is taken off
    rw [decide_eq_false fun h => (hsign.mp h).2 hn, trimmed_zero (hd ▸ hn)]
    cases negative <;> rfl
  · have hmark : decide (signed negative q < 0) = negative := by
      refine Bool.eq_iff_iff.mpr ?_
      rw [decide_eq_true_iff, hsign, and_iff_left hn.ne']
    have hkept := (hwritten _ rfl).ne_negativeZero
    rw [hmark] at hkept ⊢
    exact if_neg hkept

end FactorLabel.Display
