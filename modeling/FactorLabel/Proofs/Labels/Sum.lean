import FactorLabel.Labels.Lookup
import Mathlib.Algebra.BigOperators.Group.List.Basic
import Mathlib.Algebra.Ring.Int.Defs

/-!
# Sums of exponents

Adding powers to a map is done one power at a time, and every single addition stops at the end
of the range. As long as no exponent is negative that makes no difference: the exponent that
comes out is the plain sum, cut off once at the largest exponent. With both signs it would, since
a sum that was cut off does not come back.

The second half is about two maps that give every label the same exponent. Their entries are the
same up to order, which is what `==` on maps decides.
-/

namespace FactorLabel

namespace Exponent

theorem toInt_largest : largest.toInt = 2 ^ 63 - 1 := by decide

theorem largest_nonneg : 0 ≤ largest.toInt := by decide

theorem toInt_le (a : Exponent) : a.toInt ≤ largest.toInt := Int64.toInt_le a

/-- A sum stops at the end of the range that it passes. -/
theorem toInt_saturatingAdd_eq (a b : Exponent) : (a.saturatingAdd b).toInt
    = max Int64.minValue.toInt (min Int64.maxValue.toInt (a.toInt + b.toInt)) := by
  have hle : Int64.minValue.toInt ≤ Int64.maxValue.toInt := by decide
  rw [saturatingAdd, Int64.ofIntClamp]
  split
  · split
    · rw [Int64.toInt_ofIntLE]
      omega
    · omega
  · omega

/-- A sum that is not negative can only leave the range at its upper end. -/
theorem toInt_saturatingAdd {a b : Exponent} (h : 0 ≤ a.toInt + b.toInt) :
    (a.saturatingAdd b).toInt = min largest.toInt (a.toInt + b.toInt) := by
  have hmin : Int64.minValue.toInt ≤ 0 := by decide
  have hmax : 0 ≤ Int64.maxValue.toInt := by decide
  rw [toInt_saturatingAdd_eq, largest]
  omega

/-- A difference that is no larger than the largest exponent, in either direction, does not wrap
round. -/
theorem toInt_sub {a b : Exponent} (hlo : -largest.toInt ≤ a.toInt - b.toInt)
    (hhi : a.toInt - b.toInt ≤ largest.toInt) : (a - b).toInt = a.toInt - b.toInt := by
  rw [toInt_largest] at hlo hhi
  rw [Int64.toInt_sub]
  exact Int.bmod_eq_of_le (by omega) (by omega)

/-- A sum within the range is not cut off. -/
theorem toInt_saturatingAdd_of_le {a b : Exponent} (hlo : Int64.minValue.toInt ≤ a.toInt + b.toInt)
    (hhi : a.toInt + b.toInt ≤ Int64.maxValue.toInt) :
    (a.saturatingAdd b).toInt = a.toInt + b.toInt := by
  rw [toInt_saturatingAdd_eq]
  omega

theorem saturatingAdd_zero (a : Exponent) : a.saturatingAdd 0 = a := by
  rw [saturatingAdd, Int64.toInt_zero, Int.add_zero, Int64.ofIntClamp_toInt]

theorem pos_iff {a : Exponent} : 0 < a ↔ 0 < a.toInt := by
  rw [Int64.lt_iff_toInt_lt, Int64.toInt_zero]

theorem toInt_eq_zero_iff {a : Exponent} : a.toInt = 0 ↔ a = 0 := by
  rw [← Int64.toInt_inj, Int64.toInt_zero]

/-- The range reaches one further down than up. -/
theorem toInt_minValue : Int64.minValue.toInt = -largest.toInt - 1 := by decide

theorem ne_zero_of_pos {a : Exponent} (h : 0 < a) : a ≠ 0 := by
  rintro rfl
  exact absurd h (by decide)

end Exponent

/-- What the powers in a list add up to for `label`. -/
def weight (label : String) (ps : List Power) : Int :=
  (ps.map fun p => if p.label = label then p.exponent.toInt else 0).sum

@[simp] theorem weight_nil (label : String) : weight label [] = 0 := rfl

theorem weight_cons (label : String) (p : Power) (ps : List Power) :
    weight label (p :: ps)
      = (if p.label = label then p.exponent.toInt else 0) + weight label ps := by
  rw [weight, List.map_cons, List.sum_cons, weight]

/-- No power takes anything away. -/
def NonNegative (ps : List Power) : Prop := ∀ p ∈ ps, 0 ≤ p.exponent.toInt

theorem weight_nonneg {label : String} {ps : List Power} (h : NonNegative ps) :
    0 ≤ weight label ps := by
  induction ps with
  | nil => exact Int.le_refl 0
  | cons p ps ih =>
      rw [weight_cons]
      have hp := h p List.mem_cons_self
      have hps := ih fun q hq => h q (List.mem_cons_of_mem p hq)
      split <;> omega

/-- Where no label comes twice, one power decides. -/
theorem weight_of_nodup {ps : List Power} (hd : (ps.map Power.label).Nodup) (label : String) :
    weight label ps = (exponentIn label ps).toInt := by
  induction ps with
  | nil => rfl
  | cons p ps ih =>
      rw [List.map_cons, List.nodup_cons] at hd
      rw [weight_cons, exponentIn_cons, ih hd.2]
      split
      · rename_i hp
        subst hp
        rw [exponentIn_of_not_mem hd.1, Int64.toInt_zero, Int.add_zero]
      · rw [Int.zero_add]

namespace Labels

theorem extend_cons (m : Labels) (p : Power) (ps : List Power) :
    m.extend (p :: ps) = (m.add p.label p.exponent).extend ps := rfl

theorem mul_eq_extend (a b : Labels) : a * b = a.extend b.entries := rfl

theorem get_one (label : String) : (1 : Labels).get label = 0 := rfl

theorem nodup_labels (m : Labels) : m.labels.Nodup := m.distinct

/-- Where no label comes twice, every exponent is met by one power at most. -/
theorem get_extend_of_nodup (m : Labels) {ps : List Power} (hd : (ps.map Power.label).Nodup)
    (label : String) :
    (m.extend ps).get label = (m.get label).saturatingAdd (exponentIn label ps) := by
  induction ps generalizing m with
  | nil =>
      rw [exponentIn_nil, Exponent.saturatingAdd_zero]
      rfl
  | cons p ps ih =>
      rw [List.map_cons, List.nodup_cons] at hd
      rw [extend_cons, ih _ hd.2, get_add, exponentIn_cons]
      by_cases hp : label = p.label
      · subst hp
        rw [if_pos rfl, if_pos rfl, exponentIn_of_not_mem hd.1, Exponent.saturatingAdd_zero]
      · rw [if_neg hp, if_neg (Ne.symm hp)]

/-- **A product adds exponents,** each of them once. -/
theorem get_mul (a b : Labels) (label : String) :
    (a * b).get label = (a.get label).saturatingAdd (b.get label) :=
  get_extend_of_nodup a b.distinct label

theorem weight_entries (m : Labels) (label : String) :
    weight label m.entries = (m.get label).toInt :=
  weight_of_nodup m.distinct label

theorem toInt_get_add {m : Labels} (hm : ∀ label, 0 ≤ (m.get label).toInt) {p : Power}
    (hp : 0 ≤ p.exponent.toInt) (label : String) :
    ((m.add p.label p.exponent).get label).toInt
      = min Exponent.largest.toInt
          ((m.get label).toInt + if p.label = label then p.exponent.toInt else 0) := by
  have hlabel := hm label
  have hle := Exponent.toInt_le (m.get label)
  rw [get_add]
  by_cases h : label = p.label
  · rw [if_pos h, if_pos h.symm, Exponent.toInt_saturatingAdd (by omega)]
  · rw [if_neg h, if_neg (Ne.symm h)]
    omega

/-- **Cut off once.** Powers without negative exponents add up to their plain sum, or to the
largest exponent if that is smaller. -/
theorem toInt_get_extend {m : Labels} (hm : ∀ label, 0 ≤ (m.get label).toInt) {ps : List Power}
    (hps : NonNegative ps) (label : String) :
    ((m.extend ps).get label).toInt
      = min Exponent.largest.toInt ((m.get label).toInt + weight label ps) := by
  induction ps generalizing m with
  | nil =>
      have hle := Exponent.toInt_le (m.get label)
      rw [weight_nil, Int.add_zero]
      show (m.get label).toInt = _
      omega
  | cons p ps ih =>
      have hp : 0 ≤ p.exponent.toInt := hps p List.mem_cons_self
      have hrest : NonNegative ps := fun q hq => hps q (List.mem_cons_of_mem p hq)
      have hadd := toInt_get_add hm hp
      have hmax := Exponent.largest_nonneg
      have hm' : ∀ other, 0 ≤ ((m.add p.label p.exponent).get other).toInt := by
        intro other
        have hother := hm other
        rw [hadd]
        split <;> omega
      have hweight : 0 ≤ weight label ps := weight_nonneg hrest
      -- a sum that was cut off stays so, since nothing is taken away later
      rw [extend_cons, ih hm' hrest, hadd, weight_cons]
      omega

/-! ## Maps with the same exponents -/

/-- The entries are the labels with an exponent that is not zero. -/
theorem mem_entries_iff {m : Labels} {p : Power} :
    p ∈ m.entries ↔ m.get p.label = p.exponent ∧ p.exponent ≠ 0 := by
  constructor
  · exact fun h => ⟨get_of_mem h, m.nonzero p h⟩
  · rintro ⟨hget, hne⟩
    obtain ⟨q, hq, hlabel⟩ := List.mem_map.mp (mem_labels_iff.mpr (hget ▸ hne))
    have hexp : q.exponent = p.exponent := by rw [← get_of_mem hq, hlabel, hget]
    obtain ⟨ql, qe⟩ := q
    obtain ⟨pl, pe⟩ := p
    cases hlabel
    cases hexp
    exact hq

theorem toInt_ne_zero_of_mem {m : Labels} {p : Power} (hp : p ∈ m.entries) :
    p.exponent.toInt ≠ 0 := fun hzero => m.nonzero p hp (Exponent.toInt_eq_zero_iff.mp hzero)

/-- What holds of zero and of every entry holds of every label. -/
theorem forall_get {m : Labels} {P : Exponent → Prop} (hzero : P 0)
    (h : ∀ p ∈ m.entries, P p.exponent) (label : String) : P (m.get label) := by
  by_cases hget : m.get label = 0
  · rw [hget]
    exact hzero
  · exact h ⟨label, m.get label⟩ (mem_entries_iff.mpr ⟨rfl, hget⟩)

theorem nodup_entries (m : Labels) : m.entries.Nodup :=
  (List.pairwise_map.mp m.distinct).imp fun hne heq => hne (congrArg _ heq)

/-- Maps with the same exponents hold the same entries, perhaps in another order. -/
theorem entries_perm {a b : Labels} (h : ∀ label, a.get label = b.get label) :
    a.entries.Perm b.entries := by
  refine (List.perm_ext_iff_of_nodup a.nodup_entries b.nodup_entries).mpr fun p => ?_
  rw [mem_entries_iff, mem_entries_iff, h]

/-- Maps with the same entries are equal in the sense of `==`, whatever the order. -/
theorem beq_of_perm {a b : Labels} (h : a.entries.Perm b.entries) : (a == b) = true := by
  show (a.size == b.size && a.entries.all fun p => b.get p.label == p.exponent) = true
  rw [Bool.and_eq_true, beq_iff_eq, List.all_eq_true]
  refine ⟨h.length_eq, fun p hp => ?_⟩
  rw [beq_iff_eq, get_of_mem (h.mem_iff.mp hp)]

/-- Maps with the same exponents are equal in the sense of `==`. -/
theorem beq_of_get {a b : Labels} (h : ∀ label, a.get label = b.get label) :
    (a == b) = true :=
  beq_of_perm (entries_perm h)

/-- Maps that are equal in the sense of `==` have the same exponents: all entries of the first are
entries of the second, and there are no more of those. -/
theorem get_of_beq {a b : Labels} (h : (a == b) = true) (label : String) :
    a.get label = b.get label := by
  have hall : (a.size == b.size && a.entries.all fun p => b.get p.label == p.exponent) = true := h
  rw [Bool.and_eq_true, beq_iff_eq, List.all_eq_true] at hall
  obtain ⟨hsize, hentries⟩ := hall
  have hsubset : a.entries ⊆ b.entries := by
    intro p hp
    exact mem_entries_iff.mpr ⟨beq_iff_eq.mp (hentries p hp), a.nonzero p hp⟩
  have hperm : a.entries.Perm b.entries :=
    (List.subperm_of_subset a.nodup_entries hsubset).perm_of_length_le (Nat.le_of_eq hsize.symm)
  have hsame : ∀ p : Power, p ∈ a.entries ∨ p ∈ b.entries → a.get p.label = b.get p.label := by
    intro p hp
    have hpa : p ∈ a.entries := hp.elim id hperm.mem_iff.mpr
    rw [get_of_mem hpa, get_of_mem (hperm.mem_iff.mp hpa)]
  -- a label with an exponent in either map is the label of an entry
  by_cases ha : a.get label = 0
  · by_cases hb : b.get label = 0
    · rw [ha, hb]
    · obtain ⟨p, hp, rfl⟩ := List.mem_map.mp (mem_labels_iff.mpr hb)
      exact hsame p (.inr hp)
  · obtain ⟨p, hp, rfl⟩ := List.mem_map.mp (mem_labels_iff.mpr ha)
    exact hsame p (.inl hp)

/-- What `==` decides. -/
theorem beq_iff_get {a b : Labels} : (a == b) = true ↔ ∀ label, a.get label = b.get label :=
  ⟨get_of_beq, beq_of_get⟩

end Labels

end FactorLabel
