import FactorLabel.Proofs.Chain.Denominator
import FactorLabel.Proofs.Labels.Regroup

/-!
# Multiplying up in parts

A chain may be cut in two, and the products of the parts multiplied. For the factors that is not
so, since every product of doubles is rounded; for the labels it is, as long as no exponent is
negative. Then a label never goes out again, so each label stands where it came in first, and a sum
that has reached its end stays there. Hence products can be regrouped with the order of their
entries, and the cut does not show.

The product of a chain is a ratio, and the product of that ratio alone is the ratio itself: nothing
is multiplied but one and no labels.
-/

namespace FactorLabel

namespace Ratio

/-! ## The labels of a chain in two parts -/

variable {s : Side} {rs xs ys : List Ratio} {start : Labels}

/-- What stands on one side of a chain takes no exponent away. -/
def NonNegativeOn (s : Side) (rs : List Ratio) : Prop :=
  ∀ r ∈ rs, NonNegative (r.labelsOn s).entries

theorem nonNegative_runningLabels (hstart : NonNegative start.entries) (h : NonNegativeOn s rs) :
    NonNegative (runningLabels s start rs).entries := by
  induction rs generalizing start with
  | nil => exact hstart
  | cons r rs ih =>
      exact ih (Labels.nonNegative_mul hstart (h r List.mem_cons_self)) fun r' hr' =>
        h r' (List.mem_cons_of_mem r hr')

/-- **The start can be split off.** A chain that is multiplied onto a start comes to the start times
its own product. -/
theorem runningLabels_eq_mul (hstart : NonNegative start.entries) (h : NonNegativeOn s rs) :
    runningLabels s start rs = start * runningLabels s 1 rs := by
  -- for every start, since each term goes over to the start of the others
  induction rs generalizing start with
  | nil => exact (Labels.mul_one start).symm
  | cons r rs ih =>
      have hr : NonNegative (r.labelsOn s).entries := h r List.mem_cons_self
      have hrs : NonNegativeOn s rs := fun r' hr' => h r' (List.mem_cons_of_mem r hr')
      calc runningLabels s start (r :: rs)
          = (start * r.labelsOn s) * runningLabels s 1 rs :=
            ih (Labels.nonNegative_mul hstart hr) hrs
        _ = start * (r.labelsOn s * runningLabels s 1 rs) :=
            Labels.mul_assoc_of_nonNegative hstart hr
              (nonNegative_runningLabels Labels.nonNegative_one hrs)
        _ = start * runningLabels s 1 (r :: rs) := by
            rw [runningLabels_cons, Labels.one_mul, ih hr hrs]

theorem labelProduct_append (hxs : NonNegativeOn s xs) (hys : NonNegativeOn s ys) :
    labelProduct s (xs ++ ys) = labelProduct s xs * labelProduct s ys := by
  have hsplit : runningLabels s 1 (xs ++ ys) = runningLabels s (runningLabels s 1 xs) ys :=
    List.foldl_append
  rw [labelProduct_eq, labelProduct_eq, labelProduct_eq, hsplit,
    runningLabels_eq_mul (nonNegative_runningLabels Labels.nonNegative_one hxs) hys]

/-! ## A single ratio -/

/-- Alone a ratio is multiplied by one and by no labels, so at most its denominator is written
out. -/
theorem product_singleton (r : Ratio) : product [r] = r.explicit := by
  have hside : ∀ s, sideProduct s [r] = ⟨r.factorOn s, r.labelsOn s⟩ := by
    intro s
    have hfactor : factorProduct s [r] = 1 * r.factorOn s := rfl
    have hlabels : runningLabels s 1 [r] = 1 * r.labelsOn s := rfl
    rw [sideProduct, hfactor, labelProduct_eq, hlabels, Number.Double.one_mul, Labels.one_mul]
  rw [product, hside, hside]
  obtain ⟨num, den⟩ := r
  cases den <;> rfl

/--
**Multiplying up in parts.**

Where no exponent is negative, the labels of a chain in two parts are those of the first part times
those of the second, on either side and in the same order. What a chain multiplies out to is kept
when it is multiplied out again: the product of a product is the product. And a single ratio is
shown like its product.
-/
theorem product_in_parts :
    (∀ (s : Side) (xs ys : List Ratio), NonNegativeOn s xs → NonNegativeOn s ys →
      labelProduct s (xs ++ ys) = labelProduct s xs * labelProduct s ys)
    ∧ (∀ rs : List Ratio, product [product rs] = product rs)
    ∧ ∀ (st : Settings) (r : Ratio), st.ratioText (product [r]) = st.ratioText r := by
  refine ⟨fun s xs ys => labelProduct_append, fun rs => product_singleton _, fun st r => ?_⟩
  rw [product_singleton]
  exact (r.fills_explicit.ratioText st).symm

/-- A second, and as many metres as can be counted. -/
def endlessMetres : List Ratio :=
  [⟨⟨2, Labels.empty.add "s" 1⟩, none⟩, ⟨⟨3, Labels.empty.add "m" .largest⟩, none⟩]

/-- A metre more, and a second. -/
def anotherMetre : List Ratio :=
  [⟨⟨5, Labels.empty.add "m" 1⟩, some ⟨7, Labels.empty.add "h" 1⟩⟩,
    ⟨⟨1, Labels.metreSecond 0 1⟩, none⟩]

/-- The metre more is cut off, and the second stays in front. -/
theorem product_in_parts_metres :
    NonNegativeOn .numerator endlessMetres ∧ NonNegativeOn .numerator anotherMetre
    ∧ labelProduct .numerator (endlessMetres ++ anotherMetre)
        = labelProduct .numerator endlessMetres * labelProduct .numerator anotherMetre
    ∧ (labelProduct .numerator (endlessMetres ++ anotherMetre)).entries
        = [⟨"s", 2⟩, ⟨"m", .largest⟩] := by
  have hxs : NonNegativeOn .numerator endlessMetres := by
    unfold NonNegativeOn NonNegative
    decide
  have hys : NonNegativeOn .numerator anotherMetre := by
    unfold NonNegativeOn NonNegative
    decide
  exact ⟨hxs, hys, product_in_parts.1 .numerator _ _ hxs hys, by decide⟩

/-- With a negative exponent the cut shows: a metre that goes out and comes in again stands behind
the second, unless the part that it does so in is multiplied up on its own. -/
example :
    (labelProduct .numerator [⟨⟨1, Labels.metreSecond 1 1⟩, none⟩,
      ⟨⟨1, Labels.metreSecond (-1) 0⟩, none⟩, ⟨⟨1, Labels.metreSecond 1 0⟩, none⟩]).labels
        = ["s", "m"]
    ∧ (labelProduct .numerator [⟨⟨1, Labels.metreSecond 1 1⟩, none⟩]
        * labelProduct .numerator [⟨⟨1, Labels.metreSecond (-1) 0⟩, none⟩,
            ⟨⟨1, Labels.metreSecond 1 0⟩, none⟩]).labels = ["m", "s"] := by
  decide

end Ratio

end FactorLabel
