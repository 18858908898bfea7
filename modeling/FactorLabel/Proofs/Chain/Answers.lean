import FactorLabel.Chain.Evaluate
import FactorLabel.Proofs.Chain.Related
import FactorLabel.Proofs.Labels.Sum
import FactorLabel.Proofs.Ratio.Running

/-!
# Questions about two chains

What is asked of a chain is asked of its ratios, one after the other. So a relation between ratios
that a question does not see is not seen in the answers for chains related by it. Each question
has its own condition: some relations keep the labels of every ratio as they are, others keep only
their exponents.
-/

namespace FactorLabel

/-- Exponents that are the same in every ratio come to the same exponents. -/
theorem Ratio.get_runningLabels_congr {s : Side} {rs rs' : List Ratio}
    (h : List.Forall₂ (fun r r' : Ratio => ∀ label,
      (r.labelsOn s).get label = (r'.labelsOn s).get label) rs rs')
    {m m' : Labels} (hm : ∀ label, m.get label = m'.get label) (label : String) :
    (runningLabels s m rs).get label = (runningLabels s m' rs').get label := by
  induction h generalizing m m' with
  | nil => exact hm label
  | cons hr _ ih =>
      rw [runningLabels_cons, runningLabels_cons]
      -- a sum that is cut off is cut off on both sides
      refine ih fun other => ?_
      rw [Labels.get_mul, Labels.get_mul, hm, hr]

namespace Chain.Related

variable {R : TermId → TermId → Prop} {S : Ratio → Ratio → Prop} {c c' : Chain}

theorem ratios (h : c.Related R S c') : List.Forall₂ S c.ratios c'.ratios :=
  List.rel_map (fun _ _ hterm => hterm.2) h

/-- What is asked of each ratio is answered alike. -/
theorem map_ratios {β : Type} (h : c.Related R S c') {f : Ratio → β}
    (hf : ∀ r r', S r r' → f r = f r') : c.ratios.map f = c'.ratios.map f := by
  rw [← List.forall₂_eq_eq_eq]
  exact List.rel_map hf h.ratios

theorem factorProduct (h : c.Related R S c') {s : Side}
    (hS : ∀ r r', S r r' → r.factorOn s = r'.factorOn s) :
    Ratio.factorProduct s c.ratios = Ratio.factorProduct s c'.ratios := by
  have hmap := h.map_ratios (f := (Ratio.factorOn · s)) hS
  rw [Ratio.factorProduct_eq, Ratio.factorProduct_eq, Ratio.runningFactor, Ratio.runningFactor,
    ← List.foldl_map, hmap, List.foldl_map]

theorem labelProduct (h : c.Related R S c') {s : Side}
    (hS : ∀ r r', S r r' → r.labelsOn s = r'.labelsOn s) :
    Ratio.labelProduct s c.ratios = Ratio.labelProduct s c'.ratios := by
  have hmap := h.map_ratios (f := (Ratio.labelsOn · s)) hS
  rw [Ratio.labelProduct_eq, Ratio.labelProduct_eq, Ratio.runningLabels, Ratio.runningLabels,
    ← List.foldl_map, hmap, List.foldl_map]

theorem get_labelProduct (h : c.Related R S c') {s : Side}
    (hS : ∀ r r', S r r' → ∀ label, (r.labelsOn s).get label = (r'.labelsOn s).get label)
    (label : String) : (Ratio.labelProduct s c.ratios).get label
      = (Ratio.labelProduct s c'.ratios).get label := by
  rw [Ratio.labelProduct_eq, Ratio.labelProduct_eq]
  exact Ratio.get_runningLabels_congr (h.ratios.imp hS) (fun _ => rfl) label

theorem text (h : c.Related R S c') {st : Settings}
    (hS : ∀ r r', S r r' → st.ratioText r = st.ratioText r') : c.text st = c'.text st :=
  congrArg String.join (h.map_ratios fun r r' hr => by rw [hS r r' hr])

theorem needsPeriod (h : c.Related R S c')
    (hS : ∀ r r', S r r' → r.hasTrivialDenominator = r'.hasTrivialDenominator) (index : Nat) :
    c.needsPeriod index = c'.needsPeriod index := by
  have hthis := forall₂_getElem? h index
  have hnext := forall₂_getElem? h (index + 1)
  rw [Chain.needsPeriod, Chain.needsPeriod]
  generalize c.terms[index]? = t, c'.terms[index]? = t' at hthis ⊢
  generalize c.terms[index + 1]? = u, c'.terms[index + 1]? = u' at hnext ⊢
  cases hthis with
  | none => rfl
  | some hterm =>
      cases hnext with
      | none => rfl
      | some hterm' =>
          dsimp only
          rw [hS _ _ hterm.2, hS _ _ hterm'.2]

end Chain.Related

end FactorLabel
