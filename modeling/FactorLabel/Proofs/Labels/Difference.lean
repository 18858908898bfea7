import FactorLabel.Proofs.Labels.Net
import FactorLabel.Proofs.Labels.Order

/-!
# Signed differences of units

Cancelling subtracts one map of exponents from another. The walk visits a label that is on both
sides twice. After the first visit it is in the result, or its exponents were equal and it is not;
and where they were equal the second visit finds them equal again. So the second visit never adds
anything, and the entries of the result are those of the numerator that are left, followed by what
only the denominator has.
-/

namespace FactorLabel

namespace Exponent

theorem sub_eq_zero_iff {a b : Exponent} : a - b = 0 ↔ a = b := by
  constructor
  · intro h
    have hcancel : a - b + b = a := Int64.sub_add_cancel a b
    rw [← hcancel, h, Int64.zero_add]
  · rintro rfl
    exact Int64.sub_self a

end Exponent

namespace Labels

variable (a b : Labels)

/-! ## The order of the entries -/

/-- One label of the walk comes in at the end, unless it is in already or its exponents are
equal. -/
theorem labels_cancelStep (net : Labels) (label : String) :
    (cancelStep a b net label).labels
      = if label ∈ net.labels ∨ a.get label = b.get label then net.labels
        else net.labels ++ [label] := by
  unfold cancelStep
  by_cases hin : label ∈ net.labels
  · rw [if_pos (contains_iff.mpr (mem_labels_iff.mp hin)), if_pos (.inl hin)]
  · have hnot : ¬ net.contains label = true := fun h => hin (mem_labels_iff.mpr (contains_iff.mp h))
    rw [if_neg hnot, labels_set]
    by_cases heq : a.get label = b.get label
    · rw [if_pos (Exponent.sub_eq_zero_iff.mpr heq), if_pos (.inr heq), List.erase_of_not_mem hin]
    · rw [if_neg fun h => heq (Exponent.sub_eq_zero_iff.mp h), if_neg hin,
        if_neg fun h => h.elim hin heq]

/-- The walk over distinct labels adds those that are not in yet and have different exponents. -/
theorem labels_cancelWalk {ls : List String} (hd : ls.Nodup) (net : Labels) :
    (ls.foldl (cancelStep a b) net).labels
      = net.labels ++ ls.filter fun label => label ∉ net.labels ∧ a.get label ≠ b.get label := by
  induction ls generalizing net with
  | nil => simp
  | cons label ls ih =>
      rw [List.nodup_cons] at hd
      have hstep := labels_cancelStep a b net label
      rw [List.foldl_cons, ih hd.2]
      by_cases hskip : label ∈ net.labels ∨ a.get label = b.get label
      · have hout : ¬ (label ∉ net.labels ∧ a.get label ≠ b.get label) := by tauto
        rw [if_pos hskip] at hstep
        rw [hstep, List.filter_cons_of_neg (by simpa using hout)]
      · have hnew : label ∉ net.labels ∧ a.get label ≠ b.get label := by tauto
        rw [if_neg hskip] at hstep
        -- the label that has come in is not among the others, so their test stays as it was
        have hrest : ls.filter (fun l => l ∉ net.labels ++ [label] ∧ a.get l ≠ b.get l)
            = ls.filter fun l => l ∉ net.labels ∧ a.get l ≠ b.get l := by
          refine List.filter_congr fun l hl => ?_
          have hne : l ≠ label := fun h => hd.1 (h ▸ hl)
          simp [hne]
        rw [hstep, hrest, List.filter_cons_of_pos (by simpa using hnew), List.append_assoc]
        rfl

/-- **The order of the result.** What is left of the numerator stands first, then what only the
denominator has. -/
theorem labels_cancel :
    (a.cancel b).labels
      = a.labels.filter (fun label => a.get label ≠ b.get label)
        ++ b.labels.filter fun label => label ∉ a.labels := by
  have hfirst : (a.labels.foldl (cancelStep a b) empty).labels
      = a.labels.filter fun label => a.get label ≠ b.get label := by
    have hempty : empty.labels = [] := rfl
    rw [labels_cancelWalk a b a.nodup_labels, hempty]
    simp
  rw [cancel_eq, List.foldl_append, labels_cancelWalk a b b.nodup_labels, hfirst]
  congr 1
  refine List.filter_congr fun label hlabel => ?_
  rw [decide_eq_decide, List.mem_filter, decide_eq_true_eq]
  by_cases hin : label ∈ a.labels
  · -- the first visit has brought the label in, unless its exponents are equal
    simp only [hin, true_and, not_true_eq_false, iff_false]
    tauto
  · have hzero : a.get label = 0 := Decidable.of_not_not fun h => hin (mem_labels_iff.mpr h)
    have hne : a.get label ≠ b.get label := by
      rw [hzero]
      exact (mem_labels_iff.mp hlabel).symm
    simp [hin, hne]

/-- Over nothing a unit is itself, the order of its entries included. -/
theorem cancel_empty : a.cancel empty = a := by
  refine eq_of_labels_of_get ?_ fun label => ?_
  · have hall : a.labels.filter (fun label => a.get label ≠ empty.get label) = a.labels := by
      refine List.filter_eq_self.mpr fun label hlabel => ?_
      rw [get_empty, decide_eq_true_eq]
      exact mem_labels_iff.mp hlabel
    rw [labels_cancel, hall]
    exact List.append_nil _
  · rw [get_cancel, get_empty, Int64.sub_zero]

/-! ## Exponents -/

variable {a b}

/-- All differences of exponents are exponents that can be negated. -/
def Subtractable (a b : Labels) : Prop :=
  ∀ label, Int64.minValue.toInt < (a.get label).toInt - (b.get label).toInt
    ∧ (a.get label).toInt - (b.get label).toInt ≤ Int64.maxValue.toInt

/-- No sum of exponents is cut off. -/
def Addable (a b : Labels) : Prop :=
  ∀ label, Int64.minValue.toInt ≤ (a.get label).toInt + (b.get label).toInt
    ∧ (a.get label).toInt + (b.get label).toInt ≤ Int64.maxValue.toInt

theorem Subtractable.toInt_get_cancel (h : Subtractable a b) (label : String) :
    ((a.cancel b).get label).toInt = (a.get label).toInt - (b.get label).toInt := by
  have hlabel := h label
  have hmin := Exponent.toInt_minValue
  have hmax : Int64.maxValue.toInt = Exponent.largest.toInt := rfl
  rw [get_cancel]
  exact Exponent.toInt_sub (by omega) (by omega)

/-- Exponents that are not negative have differences that are no larger than themselves. -/
theorem subtractable_of_nonneg (ha : ∀ label, 0 ≤ (a.get label).toInt)
    (hb : ∀ label, 0 ≤ (b.get label).toInt) : Subtractable a b := by
  intro label
  have hA := ha label
  have hB := hb label
  have hale := Exponent.toInt_le (a.get label)
  have hble := Exponent.toInt_le (b.get label)
  have hmin := Exponent.toInt_minValue
  have hmax : Int64.maxValue.toInt = Exponent.largest.toInt := rfl
  omega

theorem Subtractable.symm (h : Subtractable a b) : Subtractable b a := by
  intro label
  have hlabel := h label
  have hmin : Int64.minValue.toInt = -Int64.maxValue.toInt - 1 := Exponent.toInt_minValue
  omega

theorem Addable.toInt_get_mul (h : Addable a b) (label : String) :
    ((a * b).get label).toInt = (a.get label).toInt + (b.get label).toInt := by
  rw [get_mul]
  exact Exponent.toInt_saturatingAdd_of_le (h label).1 (h label).2

/-- What was taken away can be added again. -/
theorem Subtractable.addable (h : Subtractable a b) : Addable b (a.cancel b) := by
  intro label
  have hlo := Int64.minValue_le_toInt (a.get label)
  have hhi := Int64.toInt_le (a.get label)
  rw [h.toInt_get_cancel]
  omega

/-- A common factor changes no difference. -/
theorem Subtractable.mul_right (h : Subtractable a b) {c : Labels} (ha : Addable a c)
    (hb : Addable b c) : Subtractable (a * c) (b * c) := by
  intro label
  have hlabel := h label
  rw [ha.toInt_get_mul, hb.toInt_get_mul]
  omega

/--
**Cancelling is signed subtraction.**

Where no difference leaves the range, the net exponent of every label is the difference of its
exponents. The labels that are left of the numerator stand first, in its order, and behind them
what only the denominator has, in the order of that. The other way round the same labels are left,
with negated exponents. The denominator times what is left is the numerator, nothing cancels
against no labels, and a factor on both sides makes no difference.
-/
theorem cancel_is_subtraction (h : Subtractable a b) :
    (∀ label, ((a.cancel b).get label).toInt = (a.get label).toInt - (b.get label).toInt)
    ∧ (a.cancel b).labels
        = a.labels.filter (fun label => (a.get label).toInt - (b.get label).toInt ≠ 0)
          ++ b.labels.filter (fun label => label ∉ a.labels)
    ∧ (∀ label, (label ∈ (b.cancel a).labels ↔ label ∈ (a.cancel b).labels)
        ∧ ((b.cancel a).get label).toInt = -((a.cancel b).get label).toInt)
    ∧ (b * a.cancel b == a) = true
    ∧ a.cancel empty = a
    ∧ ∀ c, Addable a c → Addable b c → ((a * c).cancel (b * c) == a.cancel b) = true := by
  refine ⟨h.toInt_get_cancel, ?_, fun label => ?_, ?_, a.cancel_empty, fun c ha hb => ?_⟩
  · rw [labels_cancel]
    congr 1
    refine List.filter_congr fun label _ => ?_
    rw [decide_eq_decide, Ne, Ne, ← Int64.toInt_inj]
    omega
  · have hforth := h.toInt_get_cancel label
    have hback := h.symm.toInt_get_cancel label
    refine ⟨?_, by omega⟩
    rw [mem_labels_iff, mem_labels_iff, Ne, Ne, ← Int64.toInt_inj, ← Int64.toInt_inj,
      Int64.toInt_zero]
    omega
  · refine beq_of_get fun label => Int64.toInt_inj.mp ?_
    rw [h.addable.toInt_get_mul, h.toInt_get_cancel]
    omega
  · refine beq_of_get fun label => Int64.toInt_inj.mp ?_
    rw [(h.mul_right ha hb).toInt_get_cancel, h.toInt_get_cancel, ha.toInt_get_mul,
      hb.toInt_get_mul]
    omega

/-- A cubic metre and a second. -/
def cubicMetreSecond : Labels := (Labels.empty.add "m" 3).add "s" 1

/-- A squared kilogram, a second and a metre. -/
def kilogramMetre : Labels := ((Labels.empty.add "kg" 2).add "s" 1).add "m" 1

/-- The second is visited twice and stays out. -/
theorem cancel_is_subtraction_metres :
    Subtractable cubicMetreSecond kilogramMetre
    ∧ Addable cubicMetreSecond kilogramMetre ∧ Addable kilogramMetre kilogramMetre
    ∧ (cubicMetreSecond.cancel kilogramMetre).labels = ["m", "kg"]
    ∧ (kilogramMetre * cubicMetreSecond.cancel kilogramMetre == cubicMetreSecond) = true
    ∧ ((cubicMetreSecond * kilogramMetre).cancel (kilogramMetre * kilogramMetre)
        == cubicMetreSecond.cancel kilogramMetre) = true := by
  have hover : ∀ label, 0 ≤ (cubicMetreSecond.get label).toInt
      ∧ (cubicMetreSecond.get label).toInt ≤ 4 := by
    intro label
    rw [cubicMetreSecond, get_add, get_add, get_empty]
    split <;> split <;> decide
  have hunder : ∀ label, 0 ≤ (kilogramMetre.get label).toInt
      ∧ (kilogramMetre.get label).toInt ≤ 4 := by
    intro label
    rw [kilogramMetre, get_add, get_add, get_add, get_empty]
    split <;> split <;> split <;> decide
  have hmin : Int64.minValue.toInt < -100 := by decide
  have hmax : 100 < Int64.maxValue.toInt := by decide
  have hsub : Subtractable cubicMetreSecond kilogramMetre := by
    intro label
    have hn := hover label
    have hd := hunder label
    omega
  have hadd : Addable cubicMetreSecond kilogramMetre := by
    intro label
    have hn := hover label
    have hd := hunder label
    omega
  have hself : Addable kilogramMetre kilogramMetre := by
    intro label
    have hd := hunder label
    omega
  obtain ⟨-, horder, -, hback, -, hcommon⟩ := cancel_is_subtraction hsub
  exact ⟨hsub, hadd, hself, horder.trans (by decide), hback, hcommon _ hadd hself⟩

end Labels

end FactorLabel
