import FactorLabel.Chain.Samples
import FactorLabel.Proofs.Chain.Answers
import FactorLabel.Proofs.Chain.Confirm
import FactorLabel.Proofs.Chain.Simplify
import FactorLabel.Proofs.Display.Sides

/-!
# Equal chains are interchangeable

Chains are compared by `==`, which asks for the same identifiers, for factors that compare equal as
numbers, and for labels with the same exponents, in whatever order they stand. The order does leak:
it is there in the labels of a product and in what is left of them when they cancel. But no
exponent depends on it, and what is displayed is sorted by an order that is total. So equal chains
have the same results, and the same edit makes equal chains of them.

Zero has two forms that compare equal, and one divided by them is not. Chains without a negative
zero have none of that: there, factors that compare equal are the same double. Nothing that is typed
is a negative zero.
-/

namespace FactorLabel

open Number

namespace Number.Double

/-- Comparing tells all doubles apart but the two zeros, and what is not a number is not equal to
itself. -/
theorem beq_iff_of_unsigned {x y : Float} (hx : x ≠ -0) (hy : y ≠ -0) :
    (x == y) = true ↔ x = y ∧ x ≠ Float.nan := by
  constructor
  · intro h
    obtain ⟨hnan, -, heq | ⟨-, hneg⟩ | ⟨hneg, -⟩⟩ := Float.beq_iff_ne_nan_and_eq.mp h
    · exact ⟨heq, hnan⟩
    · exact absurd hneg hy
    · exact absurd hneg hx
  · rintro ⟨rfl, hnan⟩
    exact Float.beq_iff_ne_nan_and_eq.mpr ⟨hnan, hnan, .inl rfl⟩

end Number.Double

/-! ## Quantities -/

/-- The same number, with the same exponents. -/
structure Quantity.Alike (q q' : Quantity) : Prop where
  factor : q.factor = q'.factor
  number : q.factor ≠ Float.nan
  unsigned : q.factor ≠ -0
  labels : ∀ label, q.labels.get label = q'.labels.get label

/-- No negative zero. -/
def Quantity.Unsigned (q : Quantity) : Prop := q.factor ≠ -0

namespace Quantity

variable {q q' : Quantity}

/-- Without negative zeros this is what `==` decides. -/
theorem alike_iff : q.Alike q' ↔ (q == q') = true ∧ q.Unsigned ∧ q'.Unsigned := by
  have hbeq : (q == q') = true
      ↔ (q.factor == q'.factor) = true ∧ (q.labels == q'.labels) = true := Bool.and_eq_true_iff
  rw [hbeq, Labels.beq_iff_get]
  constructor
  · intro h
    have hunsigned : q'.factor ≠ -0 := h.factor ▸ h.unsigned
    refine ⟨⟨?_, h.labels⟩, h.unsigned, hunsigned⟩
    exact (Double.beq_iff_of_unsigned h.unsigned hunsigned).mpr ⟨h.factor, h.number⟩
  · rintro ⟨⟨hfactor, hlabels⟩, hq, hq'⟩
    obtain ⟨heq, hnan⟩ := (Double.beq_iff_of_unsigned hq hq').mp hfactor
    exact ⟨heq, hnan, hq, hlabels⟩

theorem Canonical.alike (h : q.Canonical) : q.Alike q :=
  ⟨rfl, Double.ne_nan_of_isNaN_eq_false h.number, h.unsigned, fun _ => rfl⟩

/-- Maps with the same exponents have equally many entries. -/
theorem Alike.hasLabels (h : q.Alike q') : q.hasLabels = q'.hasLabels := by
  have hlength := (Labels.entries_perm h.labels).length_eq
  have hempty : q.labels.entries = [] ↔ q'.labels.entries = [] := by
    rw [← List.length_eq_zero_iff, hlength, List.length_eq_zero_iff]
  rw [Quantity.hasLabels, Quantity.hasLabels, Labels.isEmpty, Labels.isEmpty, Bool.eq_iff_iff]
  simp [hempty]

theorem Alike.isIdentity (h : q.Alike q') : q.isIdentity = q'.isIdentity := by
  rw [Quantity.isIdentity, Quantity.isIdentity, h.factor, h.hasLabels]

end Quantity

/-! ## Ratios -/

/-- **The text of a ratio does not show the order of its labels.** It is made of the factors and the
exponents on both sides. -/
theorem Settings.ratioText_congr_get (st : Settings) {r r' : Ratio}
    (hfactor : ∀ s, r.factorOn s = r'.factorOn s)
    (hlabels : ∀ s label, (r.labelsOn s).get label = (r'.labelsOn s).get label) :
    st.ratioText r = st.ratioText r' := by
  have hquotient : r.quotient = r'.quotient := by
    show r.factorOn .numerator / r.factorOn .denominator
      = r'.factorOn .numerator / r'.factorOn .denominator
    rw [hfactor, hfactor]
  have hnet : ∀ label, r.netLabels.get label = r'.netLabels.get label := by
    intro label
    show ((r.labelsOn .numerator).cancel (r.labelsOn .denominator)).get label
      = ((r'.labelsOn .numerator).cancel (r'.labelsOn .denominator)).get label
    rw [Labels.get_cancel, Labels.get_cancel, hlabels, hlabels]
  rw [st.ratioText_eq, st.ratioText_eq, hquotient, st.labelPart_congr hnet]

/-- Alike on both sides of the line, or nothing below it in both. -/
structure Ratio.Alike (r r' : Ratio) : Prop where
  numerator : r.numerator.Alike r'.numerator
  denominator : Option.Rel Quantity.Alike r.denominator r'.denominator

namespace Ratio

variable {r r' : Ratio}

theorem denominator_alike_iff {d d' : Option Quantity} : Option.Rel Quantity.Alike d d'
    ↔ (d == d') = true ∧ (∀ q ∈ d, q.Unsigned) ∧ ∀ q ∈ d', q.Unsigned := by
  cases d with
  | none =>
      cases d' with
      | none => exact ⟨fun _ => ⟨rfl, nofun, nofun⟩, fun _ => .none⟩
      | some q' => exact ⟨nofun, fun h => nomatch h.1⟩
  | some q =>
      cases d' with
      | none => exact ⟨nofun, fun h => nomatch h.1⟩
      | some q' =>
          have hsome : (some q == some q') = (q == q') := rfl
          rw [Option.rel_some_some, Quantity.alike_iff, hsome]
          simp only [Option.mem_def, Option.some.injEq, forall_eq']

/-- Without negative zeros this is what `==` decides. -/
theorem alike_iff : r.Alike r' ↔
    (r == r') = true ∧ r.Every Quantity.Unsigned ∧ r'.Every Quantity.Unsigned := by
  have hbeq : (r == r') = true
      ↔ (r.numerator == r'.numerator) = true ∧ (r.denominator == r'.denominator) = true :=
    Bool.and_eq_true_iff
  rw [hbeq, every_iff, every_iff]
  constructor
  · rintro ⟨hnum, hden⟩
    obtain ⟨hn, hl, hr⟩ := Quantity.alike_iff.mp hnum
    obtain ⟨hd, hdl, hdr⟩ := denominator_alike_iff.mp hden
    exact ⟨⟨hn, hd⟩, ⟨hl, hdl⟩, hr, hdr⟩
  · rintro ⟨⟨hn, hd⟩, ⟨hl, hdl⟩, hr, hdr⟩
    exact ⟨Quantity.alike_iff.mpr ⟨hn, hl, hr⟩, denominator_alike_iff.mpr ⟨hd, hdl, hdr⟩⟩

theorem Canonical.alike (h : r.Canonical) : r.Alike r := by
  obtain ⟨hnum, hden⟩ := canonical_iff.mp h
  refine ⟨hnum.alike, ?_⟩
  cases hd : r.denominator with
  | none => exact .none
  | some d => exact .some (hden d hd).alike

namespace Alike

theorem side (h : r.Alike r') (s : Side) : Option.Rel Quantity.Alike (r.side s) (r'.side s) := by
  cases s with
  | numerator => exact .some h.numerator
  | denominator => exact h.denominator

theorem factorOn (h : r.Alike r') (s : Side) : r.factorOn s = r'.factorOn s := by
  have hside := h.side s
  rw [Ratio.factorOn, Ratio.factorOn]
  generalize r.side s = q, r'.side s = q' at hside ⊢
  cases hside with
  | none => rfl
  | some hq => exact hq.factor

theorem get_labelsOn (h : r.Alike r') (s : Side) (label : String) :
    (r.labelsOn s).get label = (r'.labelsOn s).get label := by
  have hside := h.side s
  rw [Ratio.labelsOn, Ratio.labelsOn]
  generalize r.side s = q, r'.side s = q' at hside ⊢
  cases hside with
  | none => rfl
  | some hq => exact hq.labels label

theorem hasTrivialDenominator (h : r.Alike r') :
    r.hasTrivialDenominator = r'.hasTrivialDenominator := by
  have hden := h.denominator
  rw [Ratio.hasTrivialDenominator, Ratio.hasTrivialDenominator, Quantity.isTrivial,
    Quantity.isTrivial]
  generalize r.denominator = d, r'.denominator = d' at hden ⊢
  cases hden with
  | none => rfl
  | some hq => exact hq.isIdentity

theorem isTrivial (h : r.Alike r') : r.isTrivial = r'.isTrivial := by
  have hden := h.denominator
  rw [Ratio.isTrivial, Ratio.isTrivial, h.numerator.factor, h.numerator.hasLabels]
  generalize r.denominator = d, r'.denominator = d' at hden ⊢
  cases hden with
  | none => rfl
  | some hq => simp only [Option.all_some, hq.hasLabels, hq.factor]

theorem ratioText (h : r.Alike r') (st : Settings) : st.ratioText r = st.ratioText r' :=
  st.ratioText_congr_get h.factorOn h.get_labelsOn

end Alike

/-- What is entered is canonical, so it is like itself. -/
theorem respected_alike : Respected Alike where
  identity := Canonical.alike canonical_identity
  set := by
    intro r r' text q s h hread
    have hq : q.Alike q := (Field.canonical_of_quantity? hread).alike
    cases s with
    | numerator => exact ⟨hq, h.denominator⟩
    | denominator => exact ⟨h.numerator, .some hq⟩
  flip := by
    intro r r' h
    refine ⟨?_, .some h.numerator⟩
    have hden := h.denominator
    show (r.denominator.getD .identity).Alike (r'.denominator.getD .identity)
    generalize r.denominator = d, r'.denominator = d' at hden ⊢
    cases hden with
    | none => exact Quantity.canonical_identity.alike
    | some hq => exact hq
  isTrivial := Alike.isTrivial

end Ratio

/-! ## Chains -/

theorem Term.related_alike_iff {t t' : Term} : t.Related (· = ·) Ratio.Alike t' ↔ (t == t') = true
    ∧ t.toRatio.Every Quantity.Unsigned ∧ t'.toRatio.Every Quantity.Unsigned := by
  have hbeq : (t == t') = true ↔ (t.id == t'.id) = true ∧ (t.toRatio == t'.toRatio) = true :=
    Bool.and_eq_true_iff
  have hid : (t.id == t'.id) = true ↔ t.id = t'.id := beq_iff_eq
  rw [Term.Related, Ratio.alike_iff, hbeq, hid, and_assoc]

theorem forall₂_related_alike_iff {ts ts' : List Term} :
    List.Forall₂ (Term.Related (· = ·) Ratio.Alike) ts ts' ↔ (ts == ts') = true
      ∧ (∀ t ∈ ts, t.toRatio.Every Quantity.Unsigned)
      ∧ ∀ t ∈ ts', t.toRatio.Every Quantity.Unsigned := by
  induction ts generalizing ts' with
  | nil =>
      cases ts' with
      | nil => exact ⟨fun _ => ⟨rfl, nofun, nofun⟩, fun _ => .nil⟩
      | cons t' ts' => exact ⟨nofun, fun h => nomatch h.1⟩
  | cons t ts ih =>
      cases ts' with
      | nil => exact ⟨nofun, fun h => nomatch h.1⟩
      | cons t' ts' =>
          rw [List.forall₂_cons, Term.related_alike_iff, ih, List.cons_beq_cons, Bool.and_eq_true,
            List.forall_mem_cons, List.forall_mem_cons]
          tauto

/-- The same edit on both chains. Terms that are put in are equal and have no negative zero. -/
def Edit.Alike : Edit → Edit → Prop := Edit.Related (· = ·) Ratio.Alike

namespace Chain

/-- No factor in the chain is a negative zero. -/
def Unsigned (c : Chain) : Prop := c.Every Quantity.Unsigned

/-- Without negative zeros this is what `==` decides. -/
theorem related_alike_iff {c c' : Chain} : c.Related (· = ·) Ratio.Alike c'
    ↔ (c == c') = true ∧ c.Unsigned ∧ c'.Unsigned := forall₂_related_alike_iff

/-- The chains come to the same result, and are set out alike. -/
structure SameResults (c c' : Chain) : Prop where
  evaluate : c.evaluate = c'.evaluate
  text : ∀ st, c.text st = c'.text st
  ratioText : ∀ st : Settings, st.ratioText c.product = st.ratioText c'.product
  factor : ∀ s, c.product.factorOn s = c'.product.factorOn s
  /-- The labels may stand in another order. -/
  labels : ∀ s, (c.product.labelsOn s == c'.product.labelsOn s) = true
  needsPeriod : ∀ index, c.needsPeriod index = c'.needsPeriod index

variable {c c' : Chain}

theorem factorOn_product (c : Chain) (s : Side) :
    c.product.factorOn s = Ratio.factorProduct s c.ratios := by
  cases s <;> rfl

theorem labelsOn_product (c : Chain) (s : Side) :
    c.product.labelsOn s = Ratio.labelProduct s c.ratios := by
  cases s <;> rfl

namespace Related

variable {R : TermId → TermId → Prop}

theorem get_labelsOn_product (h : c.Related R Ratio.Alike c') (s : Side) (label : String) :
    (c.product.labelsOn s).get label = (c'.product.labelsOn s).get label := by
  rw [labelsOn_product, labelsOn_product]
  exact h.get_labelProduct (fun _ _ hr => hr.get_labelsOn s) label

theorem factorOn_product (h : c.Related R Ratio.Alike c') (s : Side) :
    c.product.factorOn s = c'.product.factorOn s := by
  rw [Chain.factorOn_product, Chain.factorOn_product]
  exact h.factorProduct fun _ _ hr => hr.factorOn s

/-- The product need not be a number, but it is the same one if it is, and the labels differ in
nothing but their order. -/
theorem ratioText_product (h : c.Related R Ratio.Alike c') (st : Settings) :
    st.ratioText c.product = st.ratioText c'.product :=
  st.ratioText_congr_get h.factorOn_product h.get_labelsOn_product

theorem sameResults (h : c.Related R Ratio.Alike c') : c.SameResults c' where
  evaluate := (h.simplify Ratio.respected_alike).ratioText_product .default
  text st := h.text fun _ _ hr => hr.ratioText st
  ratioText := h.ratioText_product
  factor := h.factorOn_product
  labels s := Labels.beq_of_get (h.get_labelsOn_product s)
  needsPeriod := h.needsPeriod fun _ _ hr => hr.hasTrivialDenominator

end Related

/--
**Equality is a congruence.**

Equal chains without negative zeros come to the same result: the same texts with all settings, the
same factors, and equal labels on each side of the product. The same edit makes equal chains of
them, so they stay interchangeable in every session.
-/
theorem beq_congruence (h : (c == c') = true) (hc : c.Unsigned) (hc' : c'.Unsigned) :
    c.SameResults c'
    ∧ (c.simplify == c'.simplify) = true
    ∧ (∀ index, (c.flip index == c'.flip index) = true)
    ∧ (∀ source target, (c.move source target == c'.move source target) = true)
    ∧ (∀ index s text, (c.update index s text == c'.update index s text) = true)
    ∧ ∀ script script', List.Forall₂ Edit.Alike script script' →
        (c.run script == c'.run script') = true
        ∧ (c.run script).Unsigned ∧ (c'.run script').Unsigned
        ∧ (c.run script).SameResults (c'.run script') := by
  have hrelated := related_alike_iff.mpr ⟨h, hc, hc'⟩
  have hedit : ∀ e, Edit.Alike e e → (c.apply e == c'.apply e) = true := by
    intro e he
    exact (related_alike_iff.mp (hrelated.apply Ratio.respected_alike he)).1
  refine ⟨hrelated.sameResults, hedit _ .simplify, fun index => hedit _ (.flip index),
    fun source target => hedit _ (.move source target),
    fun index s text => hedit _ (.update index s text), fun script script' hscript => ?_⟩
  have hrun := hrelated.run Ratio.respected_alike hscript
  obtain ⟨hbeq, hleft, hright⟩ := related_alike_iff.mp hrun
  exact ⟨hbeq, hleft, hright, hrun.sameResults⟩

/-- Powers as they are listed, or the other way round. -/
def listed (turned : Bool) (ps : List Power) : Labels :=
  .ofList (if turned then ps.reverse else ps)

/-- More metres than there are exponents, over hours and seconds. -/
def overflowing (turned : Bool) : Chain :=
  ⟨[⟨⟨⟨2, listed turned [⟨"m", .largest⟩, ⟨"s", 1⟩]⟩, none⟩, .counted 0⟩,
    ⟨⟨⟨3, listed turned [⟨"kg", 1⟩, ⟨"m", 1⟩]⟩, some ⟨4, listed turned [⟨"h", 1⟩, ⟨"s", 2⟩]⟩⟩,
      .counted 1⟩], by simp⟩

/-- The labels of the product stand in another order, and nobody sees it. -/
theorem beq_congruence_overflowing :
    (overflowing false == overflowing true) = true
    ∧ (overflowing false).Unsigned ∧ (overflowing true).Unsigned
    ∧ ((overflowing false).product.labelsOn .numerator).labels
        ≠ ((overflowing true).product.labelsOn .numerator).labels
    ∧ (overflowing false).SameResults (overflowing true)
    ∧ ((overflowing false).run [.flip 0, .update 1 .denominator "2 s m", .simplify]).evaluate
        = ((overflowing true).run
            [.flip 0, .update 1 .denominator "2 s m", .simplify]).evaluate := by
  have hbeq : (overflowing false == overflowing true) = true := by decide +kernel
  have hfactors : (2 : Float) ≠ -0 ∧ (3 : Float) ≠ -0 ∧ (4 : Float) ≠ -0 := by decide +kernel
  have hunsigned : ∀ turned, (overflowing turned).Unsigned := by
    intro turned t ht
    rw [Ratio.every_iff]
    rcases List.mem_pair.mp ht with rfl | rfl
    · exact ⟨hfactors.1, nofun⟩
    · refine ⟨hfactors.2.1, fun q hq => ?_⟩
      cases hq
      exact hfactors.2.2
  obtain ⟨hresults, -, -, -, -, hrun⟩ := beq_congruence hbeq (hunsigned false) (hunsigned true)
  refine ⟨hbeq, hunsigned false, hunsigned true, by decide +kernel, hresults, ?_⟩
  exact (hrun _ _ (.cons (.flip 0) (.cons (.update _ _ _) (.cons .simplify .nil)))).2.2.2.evaluate

end Chain

end FactorLabel
