import FactorLabel.Ratio

/-!
# Terms

A ratio with an identifier: one link of a chain. A term keeps its identifier while it is edited and
moved, so that a host can follow it. An identifier is eighteen ASCII letters and digits and means
nothing in a calculation.
-/

namespace FactorLabel

/-! ## Identifiers -/

/-- Eighteen ASCII letters and digits. -/
structure TermId where
  text : String
  length_text : text.toList.length = 18
  alphanumeric : text.toList.all Char.isAlphanum = true
  deriving DecidableEq

/-- A text that is no identifier. -/
structure TermIdError where
  input : String
  deriving DecidableEq, Repr

namespace TermIdError

/-- The wording of the error. -/
def message (e : TermIdError) : String := "'" ++ e.input ++ "' is not a valid ratio id"

end TermIdError

namespace TermId

/-- The identifier with that text. -/
def ofText? (s : String) : Except TermIdError TermId :=
  if h : s.toList.length = 18 ∧ s.toList.all Char.isAlphanum = true then .ok ⟨s, h.1, h.2⟩
  else .error ⟨s⟩

end TermId

/-! ## Terms -/

/-- A ratio that can be told apart from others of the same value. -/
structure Term extends Ratio where
  id : TermId

namespace Term

/-- The number one, under the given identifier. -/
def identity (id : TermId) : Term := ⟨.identity, id⟩

instance : BEq Term := ⟨fun a b => a.id == b.id && a.toRatio == b.toRatio⟩

/-- Puts a quantity on one side. The identifier stays. -/
def set (t : Term) (s : Side) (q : Quantity) : Term := ⟨t.toRatio.set s q, t.id⟩

/-- Turns the ratio over. The identifier stays. -/
def flip (t : Term) : Term := ⟨t.toRatio.flip, t.id⟩

end Term

end FactorLabel
