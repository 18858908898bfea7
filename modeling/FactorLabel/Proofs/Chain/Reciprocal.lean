import FactorLabel.Chain.Samples
import FactorLabel.Chain.Script
import FactorLabel.Proofs.Chain.Session
import FactorLabel.Proofs.Chain.Simplify
import FactorLabel.Proofs.Display.Unambiguous

/-!
# Turning a whole chain over

Turning over every term, each one once and in any order, turns the product over. A term without a
denominator is no exception: the number one that it gets above the line is what the missing
denominator counted as. So the products of the two sides change places as they are, and it is the
cancelled labels that turn their signs. Cancelling starts with the other side now, so their entries
come in another order, but the two sides of the line do not see that.
-/

namespace FactorLabel

/-! ## Opposite labels -/

namespace Labels

variable {a b : Labels}

/-- Every label of the one map has the opposite exponent in the other. -/
def Opposed (a b : Labels) : Prop := ∀ label, (b.get label).toInt = -(a.get label).toInt

theorem Opposed.symm (h : Opposed a b) : Opposed b a := by
  intro label
  rw [h, Int.neg_neg]

/-- An exponent that has an opposite can be negated. -/
theorem Opposed.toInt_neg (h : Opposed a b) (label : String) :
    (-a.get label).toInt = -(a.get label).toInt := by
  have hle := Exponent.toInt_le (b.get label)
  rw [h] at hle
  exact Exponent.toInt_neg (by omega)

theorem Opposed.inverse_mem_iff (h : Opposed a b) (p : Power) :
    p.inverse ∈ a.entries ↔ p ∈ b.entries := by
  have hget : b.get p.label = -a.get p.label := by
    rw [← Int64.toInt_inj, h, h.toInt_neg]
  rw [mem_entries_iff, mem_entries_iff, hget]
  show a.get p.label = -p.exponent ∧ -p.exponent ≠ 0 ↔ _
  rw [Int64.neg_ne_zero, ← Int64.neg_inj, Int64.neg_neg]

/-- The entries of opposite maps are turned over, and come in any order. -/
theorem Opposed.entries_perm (h : Opposed a b) : b.entries.Perm (a.entries.map Power.inverse) := by
  have hback : Function.Involutive Power.inverse := Power.inverse_inverse
  have hnodup : (a.entries.map Power.inverse).Nodup := a.nodup_entries.map hback.injective
  refine (List.perm_ext_iff_of_nodup b.nodup_entries hnodup).mpr fun p => ?_
  rw [List.mem_map_of_involutive hback, h.inverse_mem_iff]

/-- **The sides change places.** What stands below the line stands above it in the opposite map. -/
theorem Opposed.above_eq (h : Opposed a b) : b.above = a.below := by
  have hsign : ∀ p ∈ a.entries, (0 < p.inverse.exponent : Bool) = !decide (0 < p.exponent) := by
    intro p hp
    have hneg := h.toInt_neg p.label
    have hne := toInt_ne_zero_of_mem hp
    rw [get_of_mem hp] at hneg
    show decide (0 < -p.exponent) = _
    rw [← decide_not, decide_eq_decide, Exponent.pos_iff, Exponent.pos_iff, hneg]
    omega
  refine Power.mergeSort_eq_of_perm ((h.entries_perm.filter _).trans ?_)
  rw [List.filter_map]
  exact .of_eq (congrArg _ (List.filter_congr hsign))

/-- Cancelling the other way round negates every difference. -/
theorem Subtractable.opposed (h : Subtractable a b) : Opposed (a.cancel b) (b.cancel a) := by
  intro label
  rw [h.toInt_get_cancel, h.symm.toInt_get_cancel]
  omega

end Labels

/-! ## Every term turned over -/

namespace Ratio

variable (r : Ratio) (rs : List Ratio) (s : Side)

theorem factorOn_flip : r.flip.factorOn s = r.factorOn s.opposite := by
  obtain ⟨num, den⟩ := r
  cases s with
  | numerator => cases den <;> rfl
  | denominator => rfl

theorem labelsOn_flip : r.flip.labelsOn s = r.labelsOn s.opposite := by
  obtain ⟨num, den⟩ := r
  cases s with
  | numerator => cases den <;> rfl
  | denominator => rfl

/-- Both folds meet the same quantities in the same order. -/
theorem sideProduct_map_flip : sideProduct s (rs.map flip) = sideProduct s.opposite rs := by
  have hfactor : factorProduct s (rs.map flip) = factorProduct s.opposite rs := by
    rw [factorProduct_eq, factorProduct_eq, runningFactor, List.foldl_map]
    simp only [factorOn_flip]
    rfl
  have hlabels : labelProduct s (rs.map flip) = labelProduct s.opposite rs := by
    rw [labelProduct_eq, labelProduct_eq, runningLabels, List.foldl_map]
    simp only [labelsOn_flip]
    rfl
  rw [sideProduct, hfactor, hlabels, sideProduct]

theorem product_map_flip : product (rs.map flip) = (product rs).flip := by
  rw [product, sideProduct_map_flip, sideProduct_map_flip]
  rfl

theorem side_flip_product : (product rs).flip.side s = (product rs).side s.opposite := by
  cases s <;> rfl

end Ratio

namespace Chain

variable {c : Chain} {indices : List Nat}

/-- Turning terms over, one after the other: each is turned as often as its index comes. -/
theorem getElem?_run_flip (c : Chain) (indices : List Nat) (i : Nat) :
    (c.run (indices.map .flip)).terms[i]? = c.terms[i]?.map Term.flip^[indices.count i] := by
  induction indices generalizing c with
  | nil => exact Option.map_id_apply.symm
  | cons index indices ih =>
      have hstep : (c.flip index).terms[i]?
          = (fun t => if index = i then Term.flip t else t) <$> c.terms[i]? :=
        List.getElem?_modify ..
      show ((c.flip index).run (indices.map .flip)).terms[i]? = _
      rw [ih, hstep, Option.map_eq_map, Option.map_map, List.count_cons]
      by_cases hi : index = i
      · subst hi
        simp only [if_true, beq_self_eq_true]
        rfl
      · simp only [hi, if_false, beq_iff_eq, Nat.add_zero]
        rfl

/-- **In any order.** Each term is turned over once. -/
theorem terms_run_flip (h : indices.Perm (List.range c.length)) :
    (c.run (indices.map .flip)).terms = c.terms.map Term.flip := by
  refine List.ext_getElem? fun i => ?_
  rw [getElem?_run_flip, List.getElem?_map, h.count_eq]
  rcases Nat.lt_or_ge i c.length with hlt | hge
  · rw [List.count_eq_one_of_mem List.nodup_range (List.mem_range.mpr hlt), Function.iterate_one]
  · rw [List.getElem?_eq_none hge]
    rfl

theorem product_run_flip (h : indices.Perm (List.range c.length)) :
    (c.run (indices.map .flip)).product = c.product.flip := by
  have hratios : (c.run (indices.map .flip)).ratios = c.ratios.map Ratio.flip := by
    rw [ratios, terms_run_flip h, ratios, List.map_map, List.map_map]
    rfl
  rw [product, hratios, Ratio.product_map_flip, product]

/--
**The reciprocal.**

Turn every term of a chain over, each one once and in any order. Then the two sides of the product
change places, with their factors and their labels in the same order, and the chain is evaluated to
the text of the product turned over. If the net exponents of the chain are exponents that can be
negated, they are all negated, and what was written above the line is now written below it.
-/
theorem run_flip_reciprocal (h : indices.Perm (List.range c.length)) :
    (∀ s, (c.run (indices.map .flip)).product.side s = c.product.side s.opposite)
    ∧ (c.run (indices.map .flip)).evaluate = Settings.default.ratioText c.product.flip
    ∧ (Labels.Subtractable (Ratio.labelProduct .numerator c.ratios)
          (Ratio.labelProduct .denominator c.ratios) →
        (∀ label, ((c.run (indices.map .flip)).product.netLabels.get label).toInt
            = -(c.product.netLabels.get label).toInt)
        ∧ ∀ st : Settings,
            st.labelsText c.product.netLabels
              = st.written c.product.netLabels.above c.product.netLabels.below
            ∧ st.labelsText (c.run (indices.map .flip)).product.netLabels
              = st.written c.product.netLabels.below c.product.netLabels.above) := by
  have hproduct := product_run_flip h
  refine ⟨fun s => ?_, ?_, fun hsub => ?_⟩
  · rw [hproduct]
    exact Ratio.side_flip_product c.ratios s
  · rw [evaluate, ratioText_simplify, hproduct]
  · have hopposed : Labels.Opposed c.product.netLabels
        (c.run (indices.map .flip)).product.netLabels := by
      rw [hproduct]
      exact hsub.opposed
    refine ⟨hopposed, fun st => ⟨st.labelsText_eq _, ?_⟩⟩
    rw [st.labelsText_eq, hopposed.above_eq, hopposed.symm.above_eq]

/-- Five days of picking, turned over term by term. The grapes are left, now below the line, with
nothing above it. -/
theorem run_flip_reciprocal_picking :
    [2, 0, 3, 1].Perm (List.range (grapesPerMetre .counted).length)
    ∧ Labels.Subtractable (Ratio.labelProduct .numerator (grapesPerMetre .counted).ratios)
        (Ratio.labelProduct .denominator (grapesPerMetre .counted).ratios)
    ∧ Settings.default.labelsText (grapesPerMetre .counted).product.netLabels = "grapes"
    ∧ Settings.default.labelsText
        ((grapesPerMetre .counted).run ([2, 0, 3, 1].map .flip)).product.netLabels
          = " / grapes" := by
  have hperm : [2, 0, 3, 1].Perm (List.range (grapesPerMetre .counted).length) := by decide
  have hnonneg : ∀ s label,
      0 ≤ ((Ratio.labelProduct s (grapesPerMetre .counted).ratios).get label).toInt := by
    intro s
    refine Labels.forall_get (P := fun n => 0 ≤ n.toInt) (by decide) ?_
    cases s <;> decide +kernel
  have hsub := Labels.subtractable_of_nonneg (hnonneg .numerator) (hnonneg .denominator)
  have htexts := ((run_flip_reciprocal hperm).2.2 hsub).2 Settings.default
  exact ⟨hperm, hsub, htexts.1.trans (by decide +kernel), htexts.2.trans (by decide +kernel)⟩

end Chain

end FactorLabel
