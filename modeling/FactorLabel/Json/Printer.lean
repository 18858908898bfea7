import FactorLabel.Json.Number
import FactorLabel.Json.Quoted

/-!
# Writing JSON

The compact form, without any blanks. A string that stands for no text is written empty.
-/

namespace FactorLabel.Json

/-- The word for a truth value. -/
def boolText (b : Bool) : List Char := if b then "true".toList else "false".toList

/-- A string that may stand for no text. -/
def stringText (s : Option String) : List Char := Quoted.encode (s.getD "").toList

mutual

/-- The characters of a value. -/
def render : Json → List Char
  | null => "null".toList
  | bool b => boolText b
  | number n => n.text
  | string s => stringText s
  | array [] => ['[', ']']
  | array (x :: xs) => '[' :: (render x ++ renderItems xs)
  | object [] => ['{', '}']
  | object ((k, v) :: fs) => '{' :: (stringText k ++ ':' :: (render v ++ renderFields fs))

/-- The items after the first one, and the closing bracket. -/
def renderItems : List Json → List Char
  | [] => [']']
  | x :: xs => ',' :: (render x ++ renderItems xs)

/-- The fields after the first one, and the closing brace. -/
def renderFields : List (Option String × Json) → List Char
  | [] => ['}']
  | (k, v) :: fs => ',' :: (stringText k ++ ':' :: (render v ++ renderFields fs))

end

/-- A value as a text. -/
def write (j : Json) : String := String.ofList j.render

end FactorLabel.Json
