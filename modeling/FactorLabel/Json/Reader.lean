import FactorLabel.Json.Number
import FactorLabel.Json.Quoted

/-!
# Reading JSON

A text is read as one value with blanks around it, or refused. Each step takes at least one
character, so the length of the text bounds the number of steps.
-/

namespace FactorLabel.Json

/-- A blank between the parts of a value: space, tab, line feed or carriage return. -/
def isSpace (c : Char) : Bool := c == ' ' || c == '\t' || c == '\n' || c == '\r'

/-- The text without the blanks in front. -/
def skipSpace (s : List Char) : List Char := s.dropWhile isSpace

/-- The name of a field and the colon behind it. -/
def readName? (s : List Char) : Option (Option String × List Char) :=
  match skipSpace s with
  | '"' :: rest =>
      match Quoted.decode? rest with
      | some (name, rest) =>
          match skipSpace rest with
          | ':' :: rest => some (name, rest)
          | _ => none
      | none => none
  | _ => none

mutual

/-- A value at the front, with blanks before it, and what comes after it. The fuel bounds the number
of steps. -/
def readValue? : Nat → List Char → Option (Json × List Char)
  | 0, _ => none
  | fuel + 1, s =>
      match skipSpace s with
      | 'n' :: 'u' :: 'l' :: 'l' :: rest => some (null, rest)
      | 't' :: 'r' :: 'u' :: 'e' :: rest => some (bool true, rest)
      | 'f' :: 'a' :: 'l' :: 's' :: 'e' :: rest => some (bool false, rest)
      | '"' :: rest => (Quoted.decode? rest).map fun (s, rest) => (string s, rest)
      | '[' :: rest =>
          match skipSpace rest with
          | ']' :: rest => some (array [], rest)
          | _ =>
              match readValue? fuel rest with
              | some (x, rest) =>
                  (readItems? fuel rest).map fun (xs, rest) => (array (x :: xs), rest)
              | none => none
      | '{' :: rest =>
          match skipSpace rest with
          | '}' :: rest => some (object [], rest)
          | _ =>
              match readName? rest with
              | some (k, rest) =>
                  match readValue? fuel rest with
                  | some (v, rest) =>
                      (readFields? fuel rest).map fun (fs, rest) => (object ((k, v) :: fs), rest)
                  | none => none
              | none => none
      | s => (Number.read? s).map fun (n, rest) => (number n, rest)

/-- The items after the first one, up to the closing bracket. -/
def readItems? : Nat → List Char → Option (List Json × List Char)
  | 0, _ => none
  | fuel + 1, s =>
      match skipSpace s with
      | ']' :: rest => some ([], rest)
      | ',' :: rest =>
          match readValue? fuel rest with
          | some (x, rest) => (readItems? fuel rest).map fun (xs, rest) => (x :: xs, rest)
          | none => none
      | _ => none

/-- The fields after the first one, up to the closing brace. -/
def readFields? : Nat → List Char → Option (List (Option String × Json) × List Char)
  | 0, _ => none
  | fuel + 1, s =>
      match skipSpace s with
      | '}' :: rest => some ([], rest)
      | ',' :: rest =>
          match readName? rest with
          | some (k, rest) =>
              match readValue? fuel rest with
              | some (v, rest) =>
                  (readFields? fuel rest).map fun (fs, rest) => ((k, v) :: fs, rest)
              | none => none
          | none => none
      | _ => none

end

/-- The value that the whole text is, if it is one. -/
def read? (s : String) : Option Json :=
  match readValue? (s.toList.length + 1) s.toList with
  | some (j, rest) => if (skipSpace rest).isEmpty then some j else none
  | none => none

end FactorLabel.Json
