import FactorLabel.Display.Ratio
import FactorLabel.Ratio

/-!
# Running products

The two sides of a chain are multiplied up by separate folds, one of which skips the missing
denominators while the other counts them as one. Here both become one fold that takes a term at
a time, so an argument over a chain is an induction on its terms.
-/

namespace FactorLabel

/-- Labels without entries are neutral on the right, the order of the entries included. -/
theorem Labels.mul_of_entries_nil {a b : Labels} (h : b.entries = []) : a * b = a := by
  show a.extend b.entries = a
  rw [h]
  rfl

namespace Ratio

/-- The factor on one side, one if nothing stands there. -/
def factorOn (r : Ratio) (s : Side) : Float := ((r.side s).map Quantity.factor).getD 1

/-- The labels on one side, none if nothing stands there. -/
def labelsOn (r : Ratio) (s : Side) : Labels := ((r.side s).map Quantity.labels).getD .empty

/-- The factors on one side, multiplied onto `start`. -/
def runningFactor (s : Side) (start : Float) (rs : List Ratio) : Float :=
  rs.foldl (fun acc r => acc * r.factorOn s) start

/-- The labels on one side, multiplied onto `start`. -/
def runningLabels (s : Side) (start : Labels) (rs : List Ratio) : Labels :=
  rs.foldl (fun acc r => acc * r.labelsOn s) start

theorem runningLabels_cons (s : Side) (start : Labels) (r : Ratio) (rs : List Ratio) :
    runningLabels s start (r :: rs) = runningLabels s (start * r.labelsOn s) rs := rfl

theorem factorProduct_eq (s : Side) (rs : List Ratio) :
    factorProduct s rs = runningFactor s 1 rs := rfl

/-- Skipping a missing side is multiplying by no labels. -/
theorem labelProduct_eq (s : Side) (rs : List Ratio) :
    labelProduct s rs = runningLabels s 1 rs := by
  unfold labelProduct runningLabels
  rw [List.foldl_filterMap]
  congr
  funext acc r
  unfold labelsOn
  cases r.side s with
  | none => exact (Labels.mul_of_entries_nil rfl).symm
  | some q => rfl

theorem quotient_product (rs : List Ratio) :
    (product rs).quotient = runningFactor .numerator 1 rs / runningFactor .denominator 1 rs := by
  rw [← factorProduct_eq, ← factorProduct_eq]
  rfl

theorem netLabels_product (rs : List Ratio) :
    (product rs).netLabels
      = (runningLabels .numerator 1 rs).cancel (runningLabels .denominator 1 rs) := by
  rw [← labelProduct_eq, ← labelProduct_eq]
  rfl

end Ratio

end FactorLabel
