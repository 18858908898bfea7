import FactorLabel.Chain.Basic

/-!
# Sample chains

Chains that a host may start with.
-/

namespace FactorLabel.Chain

/-- A factor with a single label. -/
def labelled (x : Float) (label : String) : Quantity := ⟨x, Labels.empty.add label 1⟩

/-- Five days of picking, which comes to 14400 grapes. -/
def grapesPerMetre (fresh : Nat → TermId) : Chain :=
  ofRatios fresh [
    ⟨labelled 2 "grapes", some (labelled 1 "m")⟩,
    ⟨labelled 60 "m", some (labelled 1 "h")⟩,
    ⟨labelled 24 "h", some (labelled 1 "d")⟩,
    ⟨labelled 5 "d", none⟩]

/-- Planks made of wood made of planks. -/
def planksAndWood (fresh : Nat → TermId) : Chain :=
  ofRatios fresh [
    ⟨labelled 15 "planks", none⟩,
    ⟨labelled 4 "planks", some (labelled 1 "wood")⟩,
    ⟨labelled 1 "wood", some (labelled 3 "planks")⟩]

/-- A day of picking, which comes to 2880 grapes a day. -/
def grapesPerDay (fresh : Nat → TermId) : Chain :=
  ofRatios fresh [
    ⟨labelled 2 "grapes", some (labelled 1 "m")⟩,
    ⟨labelled 60 "m", some (labelled 1 "h")⟩,
    ⟨labelled 24 "h", some (labelled 1 "d")⟩]

end FactorLabel.Chain
