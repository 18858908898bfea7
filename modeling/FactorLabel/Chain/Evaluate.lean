import FactorLabel.Chain.Basic

/-!
# Questions about a chain

What a chain comes to, and how it is set out. Trivial terms do not change the result, so they are
dropped before it is worked out.
-/

namespace FactorLabel.Chain

/-- Drops the trivial terms. If all are trivial, a lone term is kept as it is, and several become
the number one under the identifier of the first. -/
def simplify (c : Chain) : Chain :=
  if h : c.terms.filter (!·.isTrivial) = [] then
    (if c.length = 1 then c else identity c.first.id)
  else ⟨c.terms.filter (!·.isTrivial), h⟩

/-- The ratio that the chain multiplies out to. -/
def product (c : Chain) : Ratio := Ratio.product c.ratios

/-- The reduced result in canonical form, worked out on the simplified chain. -/
def evaluate (c : Chain) : String := Settings.default.ratioText c.simplify.product

/-- The terms in parentheses, each in reduced form. -/
def text (s : Settings) (c : Chain) : String := s.chainText c.ratios

/-- Is a multiplication sign needed behind the term at `index`? It is where another term follows
and neither of the two has a denominator to be seen. -/
def needsPeriod (c : Chain) (index : Nat) : Bool :=
  match c.terms[index]?, c.terms[index + 1]? with
  | some t, some u => t.hasTrivialDenominator && u.hasTrivialDenominator
  | _, _ => false

end FactorLabel.Chain
