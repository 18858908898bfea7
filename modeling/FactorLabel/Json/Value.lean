/-!
# JSON values

What a JSON text stands for. Objects keep their fields as they are written, in order and with
repetitions, and numbers keep their written parts, since a reader may ask for an integer and
`1.0` is not one. A string whose escapes leave half a surrogate pair alone is well formed but
stands for no text; it does no harm where nobody looks at it.
-/

namespace FactorLabel

/-- The parts of a written number. -/
structure Json.Number where
  negative : Bool
  whole : Nat
  /-- The digits after the point; there is no point without them. -/
  fraction : List Char
  exponent : Option Int
  deriving DecidableEq, Repr

/-- A JSON value. -/
inductive Json where
  | null
  | bool (b : Bool)
  | number (n : Json.Number)
  /-- A string, and the text it stands for, if any. -/
  | string (s : Option String)
  | array (items : List Json)
  | object (fields : List (Option String × Json))

namespace Json

/-- A string that stands for a text. -/
def text (s : String) : Json := string (some s)

/-- An object whose names are texts. -/
def fields (fs : List (String × Json)) : Json := object (fs.map fun f => (some f.1, f.2))

end Json

end FactorLabel
