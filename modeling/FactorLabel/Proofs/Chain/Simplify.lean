import FactorLabel.Chain.Evaluate
import FactorLabel.Proofs.Number.Sign
import FactorLabel.Proofs.Ratio.Running
import FactorLabel.Term.Fresh

/-!
# Dropping trivial terms keeps the result

A chain is evaluated without its trivial terms. The terms one and one over one may go because
one is neutral. Minus one over minus one is different: dropping it negates the product above the
line *and* the one below it. So the two chains do not have the same products, and the invariant
is that their products differ in sign on both sides or on neither. The quotient does not see
that.

The chain of trivial terms only is a branch of its own in `Chain.simplify`; there the result is
the text of the empty product.
-/

namespace FactorLabel

namespace Ratio

/-! ## What a trivial term is -/

/-- A trivial term has the same factor on both sides, one or minus one. -/
theorem factorOn_of_isTrivial {r : Ratio} (h : r.isTrivial = true) :
    (∀ s, r.factorOn s = 1) ∨ (∀ s, r.factorOn s = -1) := by
  obtain ⟨num, den⟩ := r
  rw [isTrivial, Bool.and_eq_true] at h
  cases den with
  | none =>
      -- a bare numerator is compared with one only
      refine .inl fun s => ?_
      cases s with
      | numerator => exact Number.Double.eq_one_of_beq h.2
      | denominator => rfl
  | some d =>
      rcases Bool.or_eq_true .. ▸ h.2 with hone | hminus
      · rw [Bool.and_eq_true] at hone
        refine .inl fun s => ?_
        cases s with
        | numerator => exact Number.Double.eq_one_of_beq hone.1
        | denominator => exact Number.Double.eq_one_of_beq hone.2
      · rw [Bool.and_eq_true] at hminus
        refine .inr fun s => ?_
        cases s with
        | numerator => exact Number.Double.eq_neg_one_of_beq hminus.1
        | denominator => exact Number.Double.eq_neg_one_of_beq hminus.2

theorem entries_of_not_hasLabels {q : Quantity} (h : q.hasLabels = false) :
    q.labels.entries = [] := by
  simpa [Quantity.hasLabels, Labels.isEmpty] using h

/-- A trivial term has no labels on either side. -/
theorem labelsOn_of_isTrivial {r : Ratio} (h : r.isTrivial = true) (s : Side) :
    (r.labelsOn s).entries = [] := by
  obtain ⟨num, den⟩ := r
  rw [isTrivial, Bool.and_eq_true, Bool.and_eq_true] at h
  cases s with
  | numerator => exact entries_of_not_hasLabels (by simpa using h.1.1)
  | denominator =>
      cases den with
      | none => rfl
      | some d => exact entries_of_not_hasLabels (by simpa using h.1.2)

/-! ## The products of both chains -/

/-- Equal on both sides, or opposite on both sides. -/
def AgreeUpToSign (a b : Side → Float) : Prop := (∀ s, a s = b s) ∨ (∀ s, a s = -b s)

/-- One more term on both chains. -/
theorem AgreeUpToSign.mul {a b : Side → Float} (h : AgreeUpToSign a b) (r : Ratio) :
    AgreeUpToSign (fun s => a s * r.factorOn s) (fun s => b s * r.factorOn s) := by
  rcases h with heq | hneg
  · refine .inl fun s => ?_
    show a s * r.factorOn s = b s * r.factorOn s
    rw [heq s]
  · refine .inr fun s => ?_
    show a s * r.factorOn s = -(b s * r.factorOn s)
    rw [hneg s, Number.Double.neg_mul]

/-- A trivial term on the first chain only. -/
theorem AgreeUpToSign.mul_trivial {a b : Side → Float} (h : AgreeUpToSign a b) {r : Ratio}
    (hr : r.isTrivial = true) : AgreeUpToSign (fun s => a s * r.factorOn s) b := by
  rcases factorOn_of_isTrivial hr with hone | hminus
  · have hsame : (fun s => a s * r.factorOn s) = a :=
      funext fun s => by rw [hone s, Number.Double.mul_one]
    rw [hsame]
    exact h
  · have hflip : (fun s => a s * r.factorOn s) = fun s => -a s :=
      funext fun s => by rw [hminus s, Number.Double.mul_neg_one]
    rw [hflip]
    -- both products of the first chain turn round, so the two cases change places
    rcases h with heq | hneg
    · exact .inr fun s => congrArg _ (heq s)
    · refine .inl fun s => ?_
      show -a s = b s
      rw [hneg s, Number.Double.neg_neg]

/-- The quotient does not see a sign that both sides share. -/
theorem AgreeUpToSign.div {a b : Side → Float} (h : AgreeUpToSign a b) :
    a .numerator / a .denominator = b .numerator / b .denominator := by
  rcases h with heq | hneg
  · rw [heq, heq]
  · rw [hneg, hneg, Number.Double.neg_div_neg]

/-- **The sign invariant.** Without its trivial terms a chain has the same products up to a sign
that both sides share. -/
theorem runningFactor_filter (rs : List Ratio) {a b : Side → Float} (h : AgreeUpToSign a b) :
    AgreeUpToSign (fun s => runningFactor s (a s) rs)
      (fun s => runningFactor s (b s) (rs.filter fun r => !r.isTrivial)) := by
  -- the products so far take part in the induction: a dropped term changes one chain only
  induction rs generalizing a b with
  | nil => exact h
  | cons r rs ih =>
      cases hr : r.isTrivial with
      | true =>
          rw [List.filter_cons_of_neg (by simp [hr])]
          exact ih (h.mul_trivial hr)
      | false =>
          rw [List.filter_cons_of_pos (by simp [hr])]
          exact ih (h.mul r)

theorem quotient_product_filter (rs : List Ratio) :
    (product (rs.filter fun r => !r.isTrivial)).quotient = (product rs).quotient := by
  have hstart : AgreeUpToSign (fun _ => 1) (fun _ => 1) := .inl fun _ => rfl
  rw [quotient_product, quotient_product]
  exact (runningFactor_filter rs hstart).div.symm

/-- Trivial terms add no label, so even the order of the labels stays. -/
theorem runningLabels_filter (s : Side) (start : Labels) (rs : List Ratio) :
    runningLabels s start (rs.filter fun r => !r.isTrivial) = runningLabels s start rs := by
  induction rs generalizing start with
  | nil => rfl
  | cons r rs ih =>
      cases hr : r.isTrivial with
      | true =>
          rw [List.filter_cons_of_neg (by simp [hr]), runningLabels_cons,
            Labels.mul_of_entries_nil (labelsOn_of_isTrivial hr s)]
          exact ih start
      | false =>
          rw [List.filter_cons_of_pos (by simp [hr]), runningLabels_cons, runningLabels_cons]
          exact ih _

end Ratio

/-- The text of a ratio is made of its quotient and its net labels. -/
theorem Settings.ratioText_congr (s : Settings) {r r' : Ratio} (hq : r.quotient = r'.quotient)
    (hl : r.netLabels = r'.netLabels) : s.ratioText r = s.ratioText r' := by
  simp only [Settings.ratioText, hq, hl]

theorem Settings.ratioText_product_filter (s : Settings) (rs : List Ratio) :
    s.ratioText (.product (rs.filter fun r => !r.isTrivial)) = s.ratioText (.product rs) := by
  refine s.ratioText_congr (Ratio.quotient_product_filter rs) ?_
  rw [Ratio.netLabels_product, Ratio.netLabels_product, Ratio.runningLabels_filter,
    Ratio.runningLabels_filter]

namespace Chain

/-! ## The two branches of simplification -/

theorem ratios_filter (c : Chain) :
    (c.terms.filter fun t => !t.isTrivial).map Term.toRatio
      = c.ratios.filter fun r => !r.isTrivial := by
  rw [ratios, List.filter_map]
  rfl

/-- The number one is itself trivial, so it comes to the empty product. -/
theorem ratioText_identity (s : Settings) (fresh : TermId) :
    s.ratioText (identity fresh).product = s.ratioText (.product []) := by
  have htrivial : Ratio.identity.isTrivial = true := by decide +kernel
  have hdrop := s.ratioText_product_filter [Ratio.identity]
  rw [List.filter_cons_of_neg (by simp [htrivial]), List.filter_nil] at hdrop
  exact hdrop.symm

theorem ratioText_simplify (s : Settings) (c : Chain) :
    s.ratioText c.simplify.product = s.ratioText c.product := by
  have hdrop := s.ratioText_product_filter c.ratios
  rw [← ratios_filter] at hdrop
  unfold simplify
  split
  · rename_i hall
    -- a lone trivial term is kept, and several give way to the number one
    split
    · rfl
    · rw [hall] at hdrop
      rw [ratioText_identity]
      exact hdrop
  · exact hdrop

/-- **Simplification never changes the result.** A chain is evaluated to the text of its whole
product, trivial terms included. If there are no others that text is `1`. -/
theorem evaluate_eq_ratioText (c : Chain) :
    c.evaluate = Settings.default.ratioText c.product
      ∧ ((∀ t ∈ c.terms, t.isTrivial = true) → c.evaluate = "1") := by
  refine ⟨ratioText_simplify _ c, fun hall => ?_⟩
  have hnone : (c.terms.filter fun t => !t.isTrivial) = [] :=
    List.filter_eq_nil_iff.mpr fun t ht => by simp [hall t ht]
  have hempty : Settings.default.ratioText (.product []) = "1" := by decide +kernel
  have hdrop := Settings.default.ratioText_product_filter c.ratios
  rw [← ratios_filter, hnone] at hdrop
  rw [evaluate, ratioText_simplify, ← hempty]
  exact hdrop.symm

/-- Three terms that are all trivial, two of them minus one over minus one. -/
theorem evaluate_all_trivial :
    (⟨[⟨⟨.scalar (-1), some (.scalar (-1))⟩, .compose 0 (.replicate 10 0)⟩,
      ⟨.identity, .compose 1 (.replicate 10 0)⟩,
      ⟨⟨.scalar (-1), some (.scalar (-1))⟩, .compose 2 (.replicate 10 0)⟩], by simp⟩
      : Chain).evaluate = "1" := by
  refine (evaluate_eq_ratioText _).2 fun t ht => ?_
  simp only [List.mem_cons, List.not_mem_nil, or_false] at ht
  rcases ht with rfl | rfl | rfl <;> decide +kernel

end Chain

end FactorLabel
