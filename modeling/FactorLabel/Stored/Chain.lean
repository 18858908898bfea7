import FactorLabel.Chain.Basic
import FactorLabel.Stored.Settings

/-!
# Stored chains

A chain is the array of its terms. An empty array is taken for the number one.

Labels are an object from label to exponent, in the order of the entries, and the exponents of a
repeated label are added up. A quantity is a factor and, if there are any, labels; a ratio is a
numerator and, if there is one, a denominator. A term has its identifier in front of them.
-/

namespace FactorLabel

/-! ## Labels -/

namespace Power

/-- The power in one field of an object. -/
def ofField? (f : Option String × Json) : Option Power := do
  let label ← f.1
  let n ← f.2.int?
  if Int64.minValue.toInt ≤ n ∧ n ≤ Int64.maxValue.toInt then some ⟨label, Int64.ofInt n⟩
  else none

end Power

namespace Labels

/-- The object from label to exponent. -/
def toJson (m : Labels) : Json :=
  .fields (m.entries.map fun p => (p.label, .ofInt p.exponent.toInt))

/-- The labels that an object adds up to. -/
def ofJson? : Json → Option Labels
  | .object fs => (fs.mapM Power.ofField?).map ofList
  | _ => none

end Labels

/-! ## Quantities -/

namespace Quantity

/-- The record of the factor and, if there are any, the labels. -/
def toJson (q : Quantity) : Json :=
  .fields (("factor", .ofFloat q.factor) ::
    (if q.labels.isEmpty then [] else [("labels", q.labels.toJson)]))

/-- The quantity of a record. Its labels may be missing. -/
def ofJson? (j : Json) : Option Quantity :=
  match j.record? ["factor", "labels"] with
  | some [some factor, labels] => do
      return ⟨← factor.float?, ← Json.fieldOr .empty Labels.ofJson? labels⟩
  | _ => none

end Quantity

/-! ## Ratios and terms -/

namespace Side

/-- The name of the side. -/
def toJson (s : Side) : Json := .text s.name

/-- The side of a name, which may also be the one field of an object, without a value. -/
def ofJson? : Json → Option Side
  | .string (some name) => (ofName? name).toOption
  | .object [(some name, .null)] => (ofName? name).toOption
  | _ => none

end Side

namespace TermId

/-- The identifier as a string. -/
def toJson (id : TermId) : Json := .text id.text

/-- The identifier of a string. -/
def ofJson? (j : Json) : Option TermId := j.text?.bind fun s => (ofText? s).toOption

end TermId

namespace Ratio

/-- The fields of a ratio. Without a denominator there is no field for it. -/
def toFields (r : Ratio) : List (String × Json) :=
  ("numerator", r.numerator.toJson) ::
    (match r.denominator with
      | none => []
      | some q => [("denominator", q.toJson)])

/-- The record of both sides. -/
def toJson (r : Ratio) : Json := .fields r.toFields

/-- A denominator, which `null` says there is not. -/
def denominatorOfJson? : Json → Option (Option Quantity)
  | .null => some none
  | j => (Quantity.ofJson? j).map some

/-- The ratio of the given fields. -/
def ofFields? (numerator : Json) (denominator : Option Json) : Option Ratio := do
  return ⟨← Quantity.ofJson? numerator, ← Json.fieldOr none denominatorOfJson? denominator⟩

/-- The ratio of a record. Its denominator may be missing. -/
def ofJson? (j : Json) : Option Ratio :=
  match j.record? ["numerator", "denominator"] with
  | some [some numerator, denominator] => ofFields? numerator denominator
  | _ => none

end Ratio

namespace Term

/-- The record of the ratio, with the identifier in front. -/
def toJson (t : Term) : Json := .fields (("id", t.id.toJson) :: t.toFields)

/-- The term of a record. -/
def ofJson? (j : Json) : Option Term :=
  match j.record? ["id", "numerator", "denominator"] with
  | some [some id, some numerator, denominator] => do
      let id ← TermId.ofJson? id
      return ⟨← Ratio.ofFields? numerator denominator, id⟩
  | _ => none

end Term

/-! ## Chains -/

namespace Chain

/-- The array of the stored terms. -/
def toJson (c : Chain) : Json := .array (c.terms.map Term.toJson)

/-- The chain of stored terms. An empty array is the number one, under the identifier `fresh`. -/
def ofJson? (fresh : TermId) : Json → Option Chain
  | .array items => (items.mapM Term.ofJson?).map (ofTerms fresh)
  | _ => none

end Chain

end FactorLabel
