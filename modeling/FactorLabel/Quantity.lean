import FactorLabel.Labels.Basic
import FactorLabel.Number.Decimal

/-!
# Quantities

A number with a unit. The factor is any double; a quantity without labels is a plain number.
-/

namespace FactorLabel

/-- A factor and the labels attached to it. -/
structure Quantity where
  factor : Float
  labels : Labels

namespace Quantity

/-- A number without labels. -/
def scalar (x : Float) : Quantity := ⟨x, .empty⟩

/-- The number one. -/
def identity : Quantity := scalar 1

instance : Inhabited Quantity := ⟨identity⟩

/-- Is there a unit? -/
def hasLabels (q : Quantity) : Bool := !q.labels.isEmpty

/-- Is this exactly one, without labels? -/
def isIdentity (q : Quantity) : Bool := q.factor == 1 && !q.hasLabels

/-- Is the quantity missing, or exactly one without labels? -/
def isTrivial (q : Option Quantity) : Bool := q.all isIdentity

/-- Factors are compared as numbers, and labels without regard to their order. -/
instance : BEq Quantity := ⟨fun a b => a.factor == b.factor && a.labels == b.labels⟩

/-- The text one would type for the quantity: the factor, then the labels in their order. -/
def text (q : Quantity) : String :=
  if q.labels.isEmpty then Number.plainText q.factor
  else Number.plainText q.factor ++ " " ++ q.labels.text

/-! ## Approximate comparison

Factors are compared within a tolerance, labels exactly. -/

/-- The distance from one to the next larger double. -/
def defaultTolerance : Float := 2.220446049250313e-16

/-- Do the factors differ by no more than `epsilon`? -/
def withinAbsolute (epsilon : Float) (a b : Quantity) : Bool :=
  a.labels == b.labels && decide ((a.factor - b.factor).abs ≤ epsilon)

/-- Are two numbers equal, or closer than `epsilon`, or closer than the share `maxRelative` of the
larger one? An infinite number is close to itself only. -/
def closeRelative (epsilon maxRelative x y : Float) : Bool :=
  x == y ||
    (!x.isInf && !y.isInf &&
      (decide ((x - y).abs ≤ epsilon) ||
        decide ((x - y).abs ≤ (if x.abs < y.abs then y.abs else x.abs) * maxRelative)))

/-- Are the factors close in relation to their size? -/
def withinRelative (epsilon maxRelative : Float) (a b : Quantity) : Bool :=
  a.labels == b.labels && closeRelative epsilon maxRelative a.factor b.factor

end Quantity

end FactorLabel
