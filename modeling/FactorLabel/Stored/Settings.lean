import FactorLabel.Display.Ratio
import FactorLabel.Json.Number
import FactorLabel.Json.Value

/-!
# Stored records

How values are kept as JSON, and taken back from it. A record is an object with named fields in any
order. Fields of other names are passed over, but no field may be given twice. A record may also be
an array of its fields in their proper order, and then the last ones may be missing.

A function `ofJson?` answers nothing where the value does not have the right shape.

The settings are a record in which every field may be missing, and then has its default.
-/

namespace FactorLabel

namespace Json

/-- Are the names of all fields texts, and is none of the `known` ones repeated? -/
def namesAreFine (known : List String) (fs : List (Option String × Json)) : Bool :=
  fs.all (·.1.isSome) &&
    known.all fun name => decide ((fs.filter (·.1 == some name)).length ≤ 1)

/-- The value of the first field of that name. -/
def lookup (fs : List (Option String × Json)) (name : String) : Option Json :=
  (fs.find? (·.1 == some name)).map Prod.snd

/-- The values of the `known` fields of a record, in that order, some of which may be missing. -/
def record? (known : List String) : Json → Option (List (Option Json))
  | array items =>
      if items.length ≤ known.length then
        some (items.map some ++ List.replicate (known.length - items.length) none)
      else none
  | object fs => if namesAreFine known fs then some (known.map (lookup fs)) else none
  | _ => none

/-- The text of a string. -/
def text? : Json → Option String
  | string s => s
  | _ => none

/-- A finite double. -/
def float? : Json → Option Float
  | number n => n.toFloat?
  | _ => none

/-- A double, or `null` where it is not finite. -/
def ofFloat (x : Float) : Json := if x.isFinite then number (Number.ofFloat x) else null

/-- An integer that is written without point and exponent. -/
def int? : Json → Option Int
  | number n => n.toInt?
  | _ => none

/-- An integer as a value. -/
def ofInt (n : Int) : Json := number (Number.ofInt n)

/-- A natural number below two to the sixty-fourth. -/
def word? (j : Json) : Option Nat := do
  let n ← int? j
  if 0 ≤ n ∧ n < UInt64.size then some n.toNat else none

/-- The value of a field, `d` if it is missing. -/
def fieldOr {α : Type} (d : α) (read? : Json → Option α) : Option Json → Option α
  | none => some d
  | some j => read? j

end Json

/-! ## Settings -/

namespace Settings

/-- The record of all three choices. -/
def toJson (s : Settings) : Json :=
  .fields [("decimal_places", .ofInt s.decimalPlaces), ("label_separator", .text s.labelSeparator),
    ("ratio_separator", .text s.ratioSeparator)]

/-- The settings of a record. A choice that is missing has its default. -/
def ofJson? (j : Json) : Option Settings :=
  match j.record? ["decimal_places", "label_separator", "ratio_separator"] with
  | some [places, labelSeparator, ratioSeparator] => do
      return ⟨← Json.fieldOr default.decimalPlaces Json.word? places,
        ← Json.fieldOr default.labelSeparator Json.text? labelSeparator,
        ← Json.fieldOr default.ratioSeparator Json.text? ratioSeparator⟩
  | _ => none

end Settings

end FactorLabel
