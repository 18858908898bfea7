import FactorLabel.Display.Ratio
import FactorLabel.Ratio
import FactorLabel.Term.Basic

/-!
# Chains

The terms whose product is the quantity that is being converted, in order. A chain is never
empty: where nothing is left, the number one stands in, under a fresh identifier. So whatever
may come out empty takes a fresh identifier along, and uses it only in that case.
-/

namespace FactorLabel

/-- One or more terms, in order. -/
structure Chain where
  terms : List Term
  nonempty : terms ≠ []

namespace Chain

theorem ext_terms {c c' : Chain} (h : c.terms = c'.terms) : c = c' := by
  cases c
  cases c'
  cases h
  rfl

/-- The number one. -/
def identity (fresh : TermId) : Chain := ⟨[.identity fresh], by simp⟩

/-- A chain of the given terms, the number one if there are none. -/
def ofTerms (fresh : TermId) (ts : List Term) : Chain :=
  if h : ts = [] then identity fresh else ⟨ts, h⟩

/-- A chain of the given ratios. The `i`-th one gets the `i`-th of the fresh identifiers. -/
def ofRatios (fresh : Nat → TermId) (rs : List Ratio) : Chain :=
  ofTerms (fresh rs.length) (rs.mapIdx fun i r => ⟨r, fresh i⟩)

/-- The number of terms. -/
def length (c : Chain) : Nat := c.terms.length

/-- The terms without their identifiers. -/
def ratios (c : Chain) : List Ratio := c.terms.map Term.toRatio

/-- The identifiers of the terms, in the order of the chain. -/
def ids (c : Chain) : List TermId := c.terms.map Term.id

/-- The term in front. There always is one. -/
def first (c : Chain) : Term := c.terms.head c.nonempty

instance : BEq Chain := ⟨fun a b => a.terms == b.terms⟩

end Chain

end FactorLabel
