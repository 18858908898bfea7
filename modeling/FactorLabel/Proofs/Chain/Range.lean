import FactorLabel.Chain.Evaluate
import FactorLabel.Proofs.Chain.Session
import FactorLabel.Proofs.Labels.Checked
import FactorLabel.Proofs.Ratio.Total

/-!
# No exponent passes the range

What is typed has positive exponents, however large a power is written, since reading stops at the
largest exponent and so does adding up. So they stay positive in every chain that a session comes
to. Along such a chain both sides of the product have exponents between zero and the largest one,
and neither cancelling them nor writing what is left passes the range.
-/

namespace FactorLabel

/-- No label of the quantity has an exponent that is not positive. -/
def Quantity.PositiveLabels (q : Quantity) : Prop := ∀ p ∈ q.labels.entries, 0 < p.exponent

namespace Quantity

theorem positiveLabels_identity : identity.PositiveLabels := fun _ hp => nomatch hp

theorem Canonical.positiveLabels {q : Quantity} (h : q.Canonical) : q.PositiveLabels :=
  fun p hp => (h.typed p hp).2

end Quantity

namespace Ratio

/-- A side that is missing has no labels at all. -/
theorem Every.positiveLabels {r : Ratio} (h : r.Every Quantity.PositiveLabels) :
    r.PositiveLabels := by
  intro s p hp
  rw [labelsOn] at hp
  cases hside : r.side s with
  | none =>
      rw [hside] at hp
      exact nomatch hp
  | some q =>
      rw [hside] at hp
      exact h s q hside p hp

theorem PositiveLabels.withinRange {r : Ratio} (h : r.PositiveLabels) : r.WithinRange := by
  refine withinRange_of_nonneg fun s label => ?_
  rw [← Labels.weight_entries]
  exact weight_nonneg (h.nonNegative s)

/-- Adding up stops at the largest exponent, so the sides of a product are as good as the terms. -/
theorem withinRange_product {rs : List Ratio} (h : ∀ r ∈ rs, r.PositiveLabels) :
    (product rs).WithinRange := by
  refine withinRange_of_nonneg fun s label => ?_
  have hmax := Exponent.largest_nonneg
  have htotal := total_nonneg h s label
  have hside : ((product rs).labelsOn s).get label = (labelProduct s rs).get label := by
    cases s <;> rfl
  rw [hside, toInt_get_labelProduct h]
  omega

end Ratio

namespace Chain

/-- The result of the chain, if no exponent passes the range on the way to it. -/
def evaluate? (c : Chain) : Option String := Settings.default.ratioText? c.simplify.product

/-- The text of the chain, if no exponent passes the range on the way to it. -/
def text? (s : Settings) (c : Chain) : Option String := s.chainText? c.ratios

/-- Neither evaluating the chain nor writing its terms passes the range. -/
structure WithinRange (c : Chain) : Prop where
  result : c.simplify.product.WithinRange
  terms : ∀ r ∈ c.ratios, r.WithinRange
  evaluated : c.evaluate? = some c.evaluate
  written : ∀ s, c.text? s = some (c.text s)

theorem Every.withinRange {c : Chain} (h : c.Every Quantity.PositiveLabels) :
    c.WithinRange := by
  have hpositive : ∀ {c' : Chain}, c'.Every Quantity.PositiveLabels →
      ∀ r ∈ c'.ratios, r.PositiveLabels := by
    intro c' h' r hr
    obtain ⟨t, ht, rfl⟩ := List.mem_map.mp hr
    exact (h' t ht).positiveLabels
  -- to simplify is an edit that puts nothing in
  have hsimplify : c.simplify.Every Quantity.PositiveLabels :=
    h.apply (e := .simplify) Quantity.positiveLabels_identity
      (fun _ _ hq => (Field.canonical_of_quantity? hq).positiveLabels) trivial
  have hresult := Ratio.withinRange_product (hpositive hsimplify)
  have hterms : ∀ r ∈ c.ratios, r.WithinRange := fun r hr => (hpositive h r hr).withinRange
  refine ⟨hresult, hterms, hresult.checked _, fun s => ?_⟩
  have htexts : c.ratios.mapM s.ratioText? = some (c.ratios.map s.ratioText) :=
    Text.mapM_eq_pure_map fun r hr => (hterms r hr).checked s
  rw [text?, Settings.chainText?, htexts, Option.map_some, List.map_map]
  rfl

/--
**No exponent passes the range.**

As long as every exponent of a chain is positive, no difference that is taken when it is evaluated
or written is larger than the largest exponent in either direction, every power below the line can
be turned over, and each label is written with the magnitude of its net exponent. With a check at
every difference and every negation the texts are the same.

Exponents are positive in every sample, and they stay so whatever is typed, as long as nothing else
is put in.
-/
theorem exponents_within_range :
    (∀ c : Chain, c.Every Quantity.PositiveLabels → c.WithinRange)
    ∧ (∀ c, Sample c → c.Every Quantity.PositiveLabels)
    ∧ ∀ (c : Chain) (script : List Edit), c.Every Quantity.PositiveLabels →
        (∀ e ∈ script, e.Every Quantity.PositiveLabels) →
        (c.run script).Every Quantity.PositiveLabels := by
  refine ⟨fun c h => h.withinRange, fun c hsample t ht s q hq => ?_, fun c script h hscript => ?_⟩
  · exact (hsample.canonical t ht s q hq).positiveLabels
  · exact h.run Quantity.positiveLabels_identity
      (fun _ _ hq => (Field.canonical_of_quantity? hq).positiveLabels) hscript

/-- Twice the largest power of a metre below the line, and once above it. -/
def saturating : List Edit :=
  [.update 0 .denominator "1 m^99999999999999999999 m^99999999999999999999",
    .update 2 .denominator "2 m^99999999999999999999 h", .flip 1,
    .insert 3 (.identity (.counted 5))]

/-- The metres stop at the largest exponent below the line, and are written with it. -/
theorem exponents_within_range_saturating :
    ((grapesPerDay .counted).run saturating).Every Quantity.PositiveLabels
    ∧ ((grapesPerDay .counted).run saturating).WithinRange
    ∧ ((grapesPerDay .counted).run saturating).simplify.product.netLabels.get "m"
      = -Exponent.largest := by
  obtain ⟨hrange, hsample, hrun⟩ := exponents_within_range
  have hpositive := hrun _ saturating (hsample _ (.grapesPerDay .counted)) fun e he => by
    simp only [saturating, List.mem_cons, List.not_mem_nil, or_false] at he
    rcases he with rfl | rfl | rfl | rfl
    · trivial
    · trivial
    · trivial
    · exact Ratio.every_identity Quantity.positiveLabels_identity
  exact ⟨hpositive, hrange _ hpositive, by decide +kernel⟩

end Chain

end FactorLabel
