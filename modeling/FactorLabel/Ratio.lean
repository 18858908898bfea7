import FactorLabel.Quantity

/-!
# Ratios

A quantity over another one. The denominator may be missing, and then it counts as one.

Ratios are multiplied on each side from left to right: factors as doubles, labels by adding
exponents. The product keeps both sides as they come out; nothing is cancelled and nothing is
divided.
-/

namespace FactorLabel

/-! ## The sides of a ratio -/

/-- Above or below the line. -/
inductive Side where
  | numerator
  | denominator
  deriving DecidableEq, Repr

/-- A text that names no side. -/
structure SideError where
  input : String
  deriving DecidableEq, Repr

namespace SideError

/-- The wording of the error. -/
def message (e : SideError) : String :=
  "Expected 'numerator' or 'denominator', got '" ++ e.input ++ "'"

end SideError

namespace Side

/-- Both sides, the upper one first. -/
def all : List Side := [numerator, denominator]

/-- What a side is called. -/
def name : Side → String
  | numerator => "numerator"
  | denominator => "denominator"

/-- The side that is called so. -/
def ofName? (s : String) : Except SideError Side :=
  match all.find? (·.name == s) with
  | some side => .ok side
  | none => .error ⟨s⟩

/-- The other side. -/
def opposite : Side → Side
  | numerator => denominator
  | denominator => numerator

end Side

/-! ## Ratios -/

/-- A numerator over a denominator, if there is one. -/
structure Ratio where
  numerator : Quantity
  denominator : Option Quantity

namespace Ratio

/-- The number one, without a denominator. -/
def identity : Ratio := ⟨.identity, none⟩

instance : Inhabited Ratio := ⟨identity⟩

instance : BEq Ratio := ⟨fun a b => a.numerator == b.numerator && a.denominator == b.denominator⟩

/-- The quantity on one side, if there is one. -/
def side (r : Ratio) : Side → Option Quantity
  | .numerator => some r.numerator
  | .denominator => r.denominator

/-- The factor below the line, one if there is none. -/
def denominatorFactor (r : Ratio) : Float := (r.denominator.map Quantity.factor).getD 1

/-- The labels below the line. -/
def denominatorLabels (r : Ratio) : Labels := (r.denominator.map Quantity.labels).getD .empty

/-- Puts a quantity on one side. -/
def set (r : Ratio) (s : Side) (q : Quantity) : Ratio :=
  match s with
  | .numerator => { r with numerator := q }
  | .denominator => { r with denominator := some q }

theorem side_set (r : Ratio) (s s' : Side) (q : Quantity) :
    (r.set s q).side s' = if s' = s then some q else r.side s' := by
  cases s <;> cases s' <;> rfl

/-- Turns the ratio over. A missing denominator becomes the numerator one. -/
def flip (r : Ratio) : Ratio := ⟨r.denominator.getD .identity, some r.numerator⟩

/-- Is the denominator missing, or exactly one without labels? -/
def hasTrivialDenominator (r : Ratio) : Bool := Quantity.isTrivial r.denominator

/-- Is the ratio one, one over one, or minus one over minus one, without labels? -/
def isTrivial (r : Ratio) : Bool :=
  !r.numerator.hasLabels && r.denominator.all (!·.hasLabels) &&
    match r.denominator with
    | none => r.numerator.factor == 1
    | some d =>
        (r.numerator.factor == 1 && d.factor == 1) ||
          (r.numerator.factor == -1 && d.factor == -1)

/-! ## The product of a chain of ratios -/

/-- The product of the factors on one side. A missing quantity counts as one. -/
def factorProduct (s : Side) (rs : List Ratio) : Float :=
  rs.foldl (fun acc r => acc * ((r.side s).map Quantity.factor).getD 1) 1

/-- The product of the labels on one side. -/
def labelProduct (s : Side) (rs : List Ratio) : Labels :=
  (rs.filterMap (·.side s)).foldl (fun acc q => acc * q.labels) 1

/-- The product of the quantities on one side. -/
def sideProduct (s : Side) (rs : List Ratio) : Quantity := ⟨factorProduct s rs, labelProduct s rs⟩

/-- The ratio that a chain multiplies out to. -/
def product (rs : List Ratio) : Ratio :=
  ⟨sideProduct .numerator rs, some (sideProduct .denominator rs)⟩

end Ratio

end FactorLabel
