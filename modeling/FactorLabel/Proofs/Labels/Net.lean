import FactorLabel.Labels.Basic
import FactorLabel.Proofs.Labels.Sum

/-!
# Net exponents

Cancelling walks over the labels of both sides and sets each one that is not yet in the result.
A label whose difference is zero never gets in, so it may be set again and again; it is set to
zero every time. Hence the result gives *every* label the difference of its exponents, those that
are on neither side included.
-/

namespace FactorLabel.Labels

/-- One label of the walk. -/
def cancelStep (a b net : Labels) (label : String) : Labels :=
  if net.contains label then net else net.set label (a.get label - b.get label)

theorem cancel_eq (a b : Labels) :
    a.cancel b = (a.labels ++ b.labels).foldl (cancelStep a b) empty := rfl

/-- A label of the walk is set unless it has an exponent already. -/
theorem get_cancelStep (a b net : Labels) (label other : String) :
    (cancelStep a b net label).get other
      = if other = label ∧ net.get label = 0 then a.get label - b.get label
        else net.get other := by
  unfold cancelStep
  by_cases h : net.get label = 0
  · have hc : ¬ net.contains label := fun hc => contains_iff.mp hc h
    rw [if_neg hc, get_set]
    by_cases ho : other = label
    · rw [if_pos ho, if_pos ⟨ho, h⟩]
    · rw [if_neg ho, if_neg fun hand => ho hand.1]
  · rw [if_pos (contains_iff.mpr h), if_neg fun hand => h hand.2]

/-- The walk over some labels: each of them has its difference, and the others stay. -/
theorem get_cancelWalk (a b : Labels) (ls : List String) (net : Labels) (label : String) :
    (ls.foldl (cancelStep a b) net).get label
      = if label ∈ ls ∧ net.get label = 0 then a.get label - b.get label
        else net.get label := by
  induction ls generalizing net with
  | nil => simp
  | cons l ls ih =>
      rw [List.foldl_cons, ih, get_cancelStep]
      -- the first visit decides: it sets the exponent, or the difference is zero anyway
      by_cases hl : label = l
      · subst hl
        by_cases hz : net.get label = 0
        · simp only [hz, and_self, if_true, List.mem_cons, true_or]
          split <;> rfl
        · simp only [hz, and_false, if_false]
      · simp only [hl, false_and, if_false, List.mem_cons, false_or]

/-- **The net exponent of every label is the difference of its exponents.** -/
theorem get_cancel (a b : Labels) (label : String) :
    (a.cancel b).get label = a.get label - b.get label := by
  rw [cancel_eq, get_cancelWalk, get_empty]
  by_cases hmem : label ∈ a.labels ++ b.labels
  · rw [if_pos ⟨hmem, rfl⟩]
  · rw [if_neg fun h => hmem h.1]
    rw [List.mem_append, not_or] at hmem
    have ha : a.get label = 0 := Decidable.of_not_not fun h => hmem.1 (mem_labels_iff.mpr h)
    have hb : b.get label = 0 := Decidable.of_not_not fun h => hmem.2 (mem_labels_iff.mpr h)
    rw [ha, hb]
    rfl

/-- Exponents that are not negative have differences within the range. -/
theorem toInt_get_cancel {a b : Labels} {label : String} (ha : 0 ≤ (a.get label).toInt)
    (hb : 0 ≤ (b.get label).toInt) :
    ((a.cancel b).get label).toInt = (a.get label).toInt - (b.get label).toInt := by
  have hale := Exponent.toInt_le (a.get label)
  have hble := Exponent.toInt_le (b.get label)
  rw [get_cancel]
  exact Exponent.toInt_sub (by omega) (by omega)

end FactorLabel.Labels
