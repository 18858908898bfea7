import FactorLabel.Proofs.Display.Sides
import FactorLabel.Proofs.Ratio.Running

/-!
# What a chain adds up to, label by label

The labels of a chain are added up term by term and cancelled at the end, over maps that keep
the order in which their labels came in. None of that shows in the result: each label has one
number, the sum of its exponents over the terms, and the printed labels are a function of these
numbers. So a chain may be reordered, and what is printed of a label is decided by the sign of
one sum.

Everything here is about chains whose exponents are positive, as they are after reading a field.
-/

namespace FactorLabel.Ratio

/-- No label stands on either side with an exponent that is not positive. -/
def PositiveLabels (r : Ratio) : Prop :=
  ∀ s, ∀ p ∈ (r.labelsOn s).entries, 0 < p.exponent

/-- What the exponents of `label` on one side of a chain add up to. -/
def total (s : Side) (label : String) (rs : List Ratio) : Int :=
  (rs.map fun r => ((r.labelsOn s).get label).toInt).sum

/-- What `label` adds up to over a chain, the numerators counted up and the denominators down. -/
def netTotal (label : String) (rs : List Ratio) : Int :=
  (rs.map fun r => ((r.labelsOn .numerator).get label).toInt
    - ((r.labelsOn .denominator).get label).toInt).sum

theorem total_cons (s : Side) (label : String) (r : Ratio) (rs : List Ratio) :
    total s label (r :: rs) = ((r.labelsOn s).get label).toInt + total s label rs :=
  List.sum_cons

theorem netTotal_eq (label : String) (rs : List Ratio) :
    netTotal label rs = total .numerator label rs - total .denominator label rs := by
  induction rs with
  | nil => rfl
  | cons r rs ih =>
      rw [total_cons, total_cons]
      have hcons : netTotal label (r :: rs) = ((r.labelsOn .numerator).get label).toInt
          - ((r.labelsOn .denominator).get label).toInt + netTotal label rs := List.sum_cons
      omega

theorem total_perm {rs rs' : List Ratio} (h : rs.Perm rs') (s : Side) (label : String) :
    total s label rs = total s label rs' :=
  (h.map _).sum_eq

/-! ## The product of a chain -/

theorem PositiveLabels.nonNegative {r : Ratio} (h : r.PositiveLabels) (s : Side) :
    NonNegative (r.labelsOn s).entries := fun p hp =>
  Int.le_of_lt (Exponent.pos_iff.mp (h s p hp))

theorem total_nonneg {rs : List Ratio} (h : ∀ r ∈ rs, r.PositiveLabels) (s : Side)
    (label : String) : 0 ≤ total s label rs := by
  induction rs with
  | nil => exact Int.le_refl 0
  | cons r rs ih =>
      have hr : 0 ≤ weight label (r.labelsOn s).entries :=
        weight_nonneg ((h r List.mem_cons_self).nonNegative s)
      have hrs := ih fun r' hr' => h r' (List.mem_cons_of_mem r hr')
      rw [Labels.weight_entries] at hr
      rw [total_cons]
      omega

/-- The labels of a chain, multiplied onto labels that are not negative. -/
theorem toInt_get_runningLabels {start : Labels} (hstart : ∀ label, 0 ≤ (start.get label).toInt)
    {rs : List Ratio} (h : ∀ r ∈ rs, r.PositiveLabels) (s : Side) (label : String) :
    ((runningLabels s start rs).get label).toInt
      = min Exponent.largest.toInt ((start.get label).toInt + total s label rs) := by
  induction rs generalizing start with
  | nil =>
      have hle := Exponent.toInt_le (start.get label)
      show (start.get label).toInt = min _ ((start.get label).toInt + 0)
      omega
  | cons r rs ih =>
      have hr := (h r List.mem_cons_self).nonNegative s
      have hrs : ∀ r' ∈ rs, r'.PositiveLabels := fun r' hr' => h r' (List.mem_cons_of_mem r hr')
      have hterm : ∀ other, ((start * r.labelsOn s).get other).toInt
          = min Exponent.largest.toInt
              ((start.get other).toInt + ((r.labelsOn s).get other).toInt) := by
        intro other
        rw [Labels.mul_eq_extend, Labels.toInt_get_extend hstart hr, Labels.weight_entries]
      have hmax := Exponent.largest_nonneg
      have hnext : ∀ other, 0 ≤ ((start * r.labelsOn s).get other).toInt := by
        intro other
        have hweight : 0 ≤ weight other (r.labelsOn s).entries := weight_nonneg hr
        rw [Labels.weight_entries] at hweight
        have hother := hstart other
        rw [hterm]
        omega
      have htotal := total_nonneg hrs s label
      -- one cut-off inside another is a single one, as no summand is negative
      rw [runningLabels_cons, ih hnext hrs, hterm, total_cons]
      omega

/-- Each exponent of a product is the sum over the chain, cut off once. -/
theorem toInt_get_labelProduct {rs : List Ratio} (h : ∀ r ∈ rs, r.PositiveLabels) (s : Side)
    (label : String) : ((labelProduct s rs).get label).toInt
      = min Exponent.largest.toInt (total s label rs) := by
  have hone : ∀ other, 0 ≤ ((1 : Labels).get other).toInt := fun _ => Int.le_refl 0
  rw [labelProduct_eq, toInt_get_runningLabels hone h, Labels.get_one, Int64.toInt_zero,
    Int.zero_add]

theorem labelProduct_get_perm {rs rs' : List Ratio} (h : ∀ r ∈ rs, r.PositiveLabels)
    (hperm : rs.Perm rs') (s : Side) (label : String) :
    (labelProduct s rs).get label = (labelProduct s rs').get label := by
  have h' : ∀ r ∈ rs', r.PositiveLabels := fun r hr => h r (hperm.mem_iff.mpr hr)
  rw [← Int64.toInt_inj, toInt_get_labelProduct h, toInt_get_labelProduct h',
    total_perm hperm]

theorem get_netLabels_product (rs : List Ratio) (label : String) :
    (product rs).netLabels.get label
      = (labelProduct .numerator rs).get label - (labelProduct .denominator rs).get label :=
  Labels.get_cancel _ _ label

/-- Below the largest exponent the net labels of a product are the net sums. -/
theorem toInt_get_netLabels_product {rs : List Ratio} (h : ∀ r ∈ rs, r.PositiveLabels)
    (hmax : ∀ s label, total s label rs ≤ Exponent.largest.toInt) (label : String) :
    ((product rs).netLabels.get label).toInt = netTotal label rs := by
  have hside : ∀ s, ((labelProduct s rs).get label).toInt = total s label rs := by
    intro s
    have hs := hmax s label
    rw [toInt_get_labelProduct h]
    omega
  have hnonneg : ∀ s, 0 ≤ ((labelProduct s rs).get label).toInt := by
    intro s
    rw [hside]
    exact total_nonneg h s label
  have hnet := Labels.toInt_get_cancel (hnonneg .numerator) (hnonneg .denominator)
  rw [hside, hside, ← netTotal_eq] at hnet
  exact hnet

/--
**Cancelling a chain is exact, and the order of its terms does not matter.**

On each side every exponent is the sum over the terms, cut off at the largest exponent. A chain
in another order has equal labels on each side and the same text behind its factor. And as long
as no sum is cut off, the net exponent of a label is its net sum over the terms, and the label is
written above the line if that sum is positive, below it if it is negative, and nowhere if it is
zero: what is written are the two lists of these labels.
-/
theorem product_labels_exact {rs : List Ratio} (h : ∀ r ∈ rs, r.PositiveLabels) :
    (∀ s label, ((labelProduct s rs).get label).toInt
        = min Exponent.largest.toInt (total s label rs))
    ∧ (∀ rs', rs.Perm rs' →
        (∀ s, (labelProduct s rs == labelProduct s rs') = true)
        ∧ ∀ st : Settings, st.ratioText (product rs')
            = Display.factorText st.decimalPlaces (product rs').quotient
              ++ st.labelPart (product rs))
    ∧ ((∀ s label, total s label rs ≤ Exponent.largest.toInt) → ∀ label,
        ((product rs).netLabels.get label).toInt = netTotal label rs
        ∧ (label ∈ (product rs).netLabels.above.map Power.label ↔ 0 < netTotal label rs)
        ∧ (label ∈ (product rs).netLabels.below.map Power.label ↔ netTotal label rs < 0))
    ∧ ∀ st : Settings, st.labelsText (product rs).netLabels
        = st.written (product rs).netLabels.above (product rs).netLabels.below := by
  refine ⟨toInt_get_labelProduct h, fun rs' hperm => ⟨fun s => ?_, fun st => ?_⟩,
    fun hmax label => ?_, fun st => st.labelsText_eq _⟩
  · exact Labels.beq_of_get (labelProduct_get_perm h hperm s)
  · have hnet : ∀ label, (product rs').netLabels.get label = (product rs).netLabels.get label := by
      intro label
      rw [get_netLabels_product, get_netLabels_product, labelProduct_get_perm h hperm,
        labelProduct_get_perm h hperm]
    rw [Settings.ratioText_eq, st.labelPart_congr hnet]
  · have hnet := toInt_get_netLabels_product h hmax label
    refine ⟨hnet, ?_, ?_⟩
    · rw [Labels.mem_above_iff, hnet]
    · rw [Labels.mem_below_iff, hnet]

/-- Sixty metres an hour, for twenty-four hours. -/
def hourly : List Ratio :=
  [⟨⟨60, Labels.empty.add "m" 1⟩, some ⟨1, Labels.empty.add "h" 1⟩⟩,
    ⟨⟨24, Labels.empty.add "h" 1⟩, none⟩]

/-- The hours of `hourly` cancel and the metres are written above the line. -/
theorem product_labels_exact_hourly :
    (∀ r ∈ hourly, r.PositiveLabels)
    ∧ (∀ s label, total s label hourly ≤ Exponent.largest.toInt)
    ∧ "m" ∈ (product hourly).netLabels.above.map Power.label
    ∧ "h" ∉ (product hourly).netLabels.above.map Power.label := by
  have hpos : ∀ r ∈ hourly, r.PositiveLabels := by
    intro r hr s
    rcases List.mem_pair.mp hr with rfl | rfl <;> cases s <;> decide
  have hone : ∀ name label, ((Labels.empty.add name 1).get label).toInt ≤ 1 := by
    intro name label
    rw [Labels.get_add, Labels.get_empty]
    split <;> decide
  have hmax : ∀ s label, total s label hourly ≤ Exponent.largest.toInt := by
    intro s label
    have hm := hone "m" label
    have hh := hone "h" label
    rw [Exponent.toInt_largest]
    cases s with
    | numerator =>
        show ((Labels.empty.add "m" 1).get label).toInt
          + (((Labels.empty.add "h" 1).get label).toInt + 0) ≤ _
        omega
    | denominator =>
        show ((Labels.empty.add "h" 1).get label).toInt
          + ((Labels.empty.get label).toInt + 0) ≤ _
        rw [Labels.get_empty, Int64.toInt_zero]
        omega
  have hexact := (product_labels_exact hpos).2.2.1 hmax
  refine ⟨hpos, hmax, (hexact "m").2.1.mpr (by decide), fun h => ?_⟩
  exact absurd ((hexact "h").2.1.mp h) (by decide)

end FactorLabel.Ratio
