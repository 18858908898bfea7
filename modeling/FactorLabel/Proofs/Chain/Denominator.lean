import FactorLabel.Chain.Samples
import FactorLabel.Proofs.Chain.Answers
import FactorLabel.Proofs.Chain.Session
import FactorLabel.Proofs.Chain.Simplify

/-!
# A missing denominator is one

A denominator may be missing, or it may be the number one, written out. The two are different
chains, and turning a ratio over twice leads from the one to the other. But no question about a
chain tells them apart, and no edit makes more of the difference than there was.
-/

namespace FactorLabel

/-- The same ratio, or the number one written below the line where nothing stood. -/
inductive Ratio.Fills : Ratio → Ratio → Prop where
  | same (r : Ratio) : Ratio.Fills r r
  | one (q : Quantity) : Ratio.Fills ⟨q, none⟩ ⟨q, some .identity⟩

namespace Ratio

/-! ## One ratio -/

/-- The ratio with its denominator written out. -/
def explicit (r : Ratio) : Ratio := ⟨r.numerator, some (r.denominator.getD .identity)⟩

theorem fills_explicit (r : Ratio) : r.Fills r.explicit := by
  obtain ⟨num, den⟩ := r
  cases den with
  | none => exact .one num
  | some d => exact .same _

/-- Turned over twice a ratio is the same, with its denominator written out. -/
theorem flip_flip (r : Ratio) : r.flip.flip = r.explicit := rfl

namespace Fills

variable {r r' : Ratio}

theorem factorOn (h : r.Fills r') (s : Side) : r.factorOn s = r'.factorOn s := by
  cases h with
  | same => rfl
  | one q => cases s <;> rfl

theorem labelsOn (h : r.Fills r') (s : Side) : r.labelsOn s = r'.labelsOn s := by
  cases h with
  | same => rfl
  | one q => cases s <;> rfl

theorem hasTrivialDenominator (h : r.Fills r') :
    r.hasTrivialDenominator = r'.hasTrivialDenominator := by
  cases h with
  | same => rfl
  | one q =>
      show true = Quantity.isTrivial (some .identity)
      decide +kernel

/-- The number one below the line is compared as a missing denominator is: with one, and not with
minus one. -/
theorem isTrivial (h : r.Fills r') : r.isTrivial = r'.isTrivial := by
  cases h with
  | same => rfl
  | one q =>
      have hlabels : Quantity.identity.hasLabels = false := rfl
      have hone : (Quantity.identity.factor == 1) = true := by decide +kernel
      have hminus : (Quantity.identity.factor == -1) = false := by decide +kernel
      simp only [Ratio.isTrivial, Option.all_none, Option.all_some, hlabels, hone, hminus,
        Bool.not_false, Bool.and_true, Bool.and_false, Bool.or_false]

theorem ratioText (h : r.Fills r') (st : Settings) : st.ratioText r = st.ratioText r' := by
  refine st.ratioText_congr ?_ ?_
  · show r.factorOn .numerator / r.factorOn .denominator
      = r'.factorOn .numerator / r'.factorOn .denominator
    rw [h.factorOn, h.factorOn]
  · show (r.labelsOn .numerator).cancel (r.labelsOn .denominator)
      = (r'.labelsOn .numerator).cancel (r'.labelsOn .denominator)
    rw [h.labelsOn, h.labelsOn]

end Fills

/-- What is entered or turned over is the same on both sides, or leaves the difference as it is. -/
theorem respected_fills : Respected Fills where
  identity := .same _
  set := by
    intro r r' text q s h _
    cases h with
    | same => exact .same _
    | one num =>
        cases s with
        | numerator => exact .one q
        | denominator => exact .same _
  flip := by
    intro r r' h
    cases h with
    | same => exact .same _
    | one num => exact .same _
  isTrivial := Fills.isTrivial

end Ratio

/-! ## Chains -/

namespace Chain

/-- No question about the chains tells them apart. -/
structure SameAnswers (c c' : Chain) : Prop where
  trivial : c.ratios.map Ratio.isTrivial = c'.ratios.map Ratio.isTrivial
  factors : ∀ s, Ratio.factorProduct s c.ratios = Ratio.factorProduct s c'.ratios
  /-- The labels stand in the same order. -/
  labels : ∀ s, Ratio.labelProduct s c.ratios = Ratio.labelProduct s c'.ratios
  product : c.product = c'.product
  ratioTexts : ∀ st : Settings, c.ratios.map st.ratioText = c'.ratios.map st.ratioText
  text : ∀ st, c.text st = c'.text st
  needsPeriod : ∀ index, c.needsPeriod index = c'.needsPeriod index
  evaluate : c.evaluate = c'.evaluate

variable {R : TermId → TermId → Prop} {c c' : Chain}

namespace Related

theorem product (h : c.Related R Ratio.Fills c') : c.product = c'.product := by
  have hside : ∀ s, Ratio.sideProduct s c.ratios = Ratio.sideProduct s c'.ratios := by
    intro s
    rw [Ratio.sideProduct, h.factorProduct fun _ _ hr => hr.factorOn s,
      h.labelProduct fun _ _ hr => hr.labelsOn s, Ratio.sideProduct]
  rw [Chain.product, Ratio.product, hside, hside, Chain.product, Ratio.product]

theorem sameAnswers (h : c.Related R Ratio.Fills c') : c.SameAnswers c' where
  trivial := h.map_ratios fun _ _ hr => hr.isTrivial
  factors s := h.factorProduct fun _ _ hr => hr.factorOn s
  labels s := h.labelProduct fun _ _ hr => hr.labelsOn s
  product := h.product
  ratioTexts st := h.map_ratios fun _ _ hr => hr.ratioText st
  text st := h.text fun _ _ hr => hr.ratioText st
  needsPeriod := h.needsPeriod fun _ _ hr => hr.hasTrivialDenominator
  evaluate := by rw [evaluate, evaluate, (h.simplify Ratio.respected_fills).product]

end Related

/-! ## Turning over twice -/

/-- The chain with the denominator of one term written out. -/
def explicit (c : Chain) (index : Nat) : Chain :=
  c.modify index fun t => ⟨t.toRatio.explicit, t.id⟩

theorem flip_flip (c : Chain) (index : Nat) : (c.flip index).flip index = c.explicit index := by
  refine ext_terms ?_
  show (c.terms.modify index Term.flip).modify index Term.flip
    = c.terms.modify index fun t => ⟨t.toRatio.explicit, t.id⟩
  rw [List.modify_modify_eq]
  rfl

/-- Only a denominator that was missing is written out. -/
theorem related_explicit (c : Chain) (index : Nat) :
    c.Related (· = ·) Ratio.Fills (c.explicit index) :=
  forall₂_modify_self (fun _ => ⟨rfl, .same _⟩) (fun t => ⟨rfl, t.toRatio.fills_explicit⟩) _ _

/--
**A missing denominator is one.**

Let two chains agree except that the second may have the number one written out below the line
where the first has nothing. Then all questions about them have the same answers, and whatever is
done to both, the answers stay the same. The identifiers may be related in any way: they may be
equal, or differ where either session has drawn one.

To turn a term over twice is to write its denominator out, and changes no answer.
-/
theorem missing_denominator_is_one {R : TermId → TermId → Prop} {c c' : Chain}
    (h : c.Related R Ratio.Fills c') :
    c.SameAnswers c'
    ∧ (∀ e e', e.Related R Ratio.Fills e' →
        (c.apply e).Related R Ratio.Fills (c'.apply e') ∧ (c.apply e).SameAnswers (c'.apply e'))
    ∧ (∀ script script', List.Forall₂ (Edit.Related R Ratio.Fills) script script' →
        (c.run script).Related R Ratio.Fills (c'.run script')
        ∧ (c.run script).SameAnswers (c'.run script'))
    ∧ ∀ index, (c.flip index).flip index = c.explicit index
        ∧ c.Related (· = ·) Ratio.Fills (c.explicit index)
        ∧ ((c.flip index).flip index).evaluate = c.evaluate := by
  refine ⟨h.sameAnswers, fun e e' he => ?_, fun script script' hscript => ?_, fun index => ?_⟩
  · have happly := h.apply Ratio.respected_fills he
    exact ⟨happly, happly.sameAnswers⟩
  · have hrun := h.run Ratio.respected_fills hscript
    exact ⟨hrun, hrun.sameAnswers⟩
  · have hexplicit := c.related_explicit index
    rw [flip_flip]
    exact ⟨rfl, hexplicit, hexplicit.sameAnswers.evaluate.symm⟩

/-- Equal identifiers, or those that two sessions have drawn. -/
def EqualOrDrawn (a b : TermId) : Prop := a = b ∨ (a = .counted 5 ∧ b = .counted 6)

/-- Fifteen planks stay fifteen planks over one, in a session that uses what was written out and
draws an identifier of its own. -/
theorem missing_denominator_is_one_planks :
    ((planksAndWood .counted).run
        [.flip 0, .update 0 .denominator "1", .insert 1 (.identity (.counted 5)), .move 0 3,
          .simplify, .flip 2]).SameAnswers
      (((planksAndWood .counted).explicit 0).run
        [.flip 0, .update 0 .denominator "1", .insert 1 (.identity (.counted 6)), .move 0 3,
          .simplify, .flip 2]) := by
  have hstart : (planksAndWood .counted).Related EqualOrDrawn Ratio.Fills
      ((planksAndWood .counted).explicit 0) :=
    ((planksAndWood .counted).related_explicit 0).imp fun _ _ hterm => ⟨.inl hterm.1, hterm.2⟩
  refine ((missing_denominator_is_one hstart).2.2.1 _ _ ?_).2
  refine .cons (.flip 0) (.cons (.update _ _ _) (.cons (.insert 1 ⟨.inr ⟨rfl, rfl⟩, .same _⟩) ?_))
  exact .cons (.move 0 3) (.cons .simplify (.cons (.flip 2) .nil))

end Chain

end FactorLabel
