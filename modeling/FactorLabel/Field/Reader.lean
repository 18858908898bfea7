import FactorLabel.Quantity
import FactorLabel.Token.Cursor

/-!
# Edit fields

The text of one edit field, read as a quantity. A factor comes first, if it is a word of its
own; the other words are labels. Nothing that is typed is refused: without a factor the factor
is one, and a word that is no label is left out and reported. Only the empty field is not a
quantity: it says that nothing was entered.

What is reported are findings: what went wrong on the way without stopping the work, in the order it
was found. Whoever asked for the work decides what to do about it.
-/

namespace FactorLabel

open Text

/-! ## Findings -/

/-- Problems that were found and recovered from. -/
structure Findings (α : Type) where
  items : Array α
  deriving Repr

namespace Findings

variable {α : Type}

/-- Nothing was found. -/
def empty : Findings α := ⟨#[]⟩

/-- One more finding, behind those found before. -/
def push (f : Findings α) (a : α) : Findings α := ⟨f.items.push a⟩

/-- Was nothing found? -/
def isEmpty (f : Findings α) : Bool := f.items.isEmpty

/-- The number of findings. -/
def size (f : Findings α) : Nat := f.items.size

/-- The findings in the order they were made. -/
def toList (f : Findings α) : List α := f.items.toList

@[simp] theorem toList_empty : (empty : Findings α).toList = [] := rfl

@[simp] theorem toList_push (f : Findings α) (a : α) : (f.push a).toList = f.toList ++ [a] := by
  simp [toList, push]

theorem toList_inj {f g : Findings α} : f.toList = g.toList ↔ f = g := by
  cases f
  cases g
  simp [toList]

@[simp] theorem size_eq_length (f : Findings α) : f.size = f.toList.length := rfl

end Findings

/-! ## Reading a field -/

/-- A word of an edit field that is not a label. -/
structure LabelFault where
  token : String
  span : Span
  deriving DecidableEq, Repr

namespace LabelFault

/-- What a user is told: the word, and the bytes it stands at. -/
def message (f : LabelFault) : String :=
  "'" ++ f.token ++ "' at " ++ String.ofList f.span.text ++ " is not a valid label"

end LabelFault

namespace Field

/-- The number that a factor text stands for, one if it is no factor. -/
def factorValue (text : String) : Float :=
  ((FactorToken.whole? text.toList).map FactorToken.value).getD 1

/-- The factor in front, and the place where the labels begin. -/
def readFactor (s : List Char) : Float × Cursor :=
  match FactorToken.segment? s with
  | some (t, gap, rest) => (t.value, ⟨rest, byteLength (t.text ++ gap)⟩)
  | none => (1, Cursor.start s)

/-- Counts a word as a label, or reports it. -/
def readWord (state : Labels × Findings LabelFault) (word : Lexeme) :
    Labels × Findings LabelFault :=
  match LabelToken.whole? word.text with
  | some t => (state.1.add (String.ofList t.label) t.exponent, state.2)
  | none => (state.1, state.2.push ⟨String.ofList word.text, word.span⟩)

/-- The labels from a place on, with the faults added to those found before. -/
def readLabels (c : Cursor) (found : Findings LabelFault) : Labels × Findings LabelFault :=
  (c.readAll .run).1.foldl readWord (.empty, found)

/-- The quantity in a field, with the faults added to those found before. -/
def read (text : String) (found : Findings LabelFault) : Option Quantity × Findings LabelFault :=
  if text.isEmpty then (none, found)
  else
    let (factor, c) := readFactor text.toList
    let (labels, found) := readLabels c found
    (some ⟨factor, labels⟩, found)

/-- The quantity in a field, whatever its faults. Only an empty field has none. -/
def quantity? (text : String) : Option Quantity := (read text .empty).1

/-- What a field shows before anything is typed: the quantity, or nothing if there is none. -/
def text (q : Option Quantity) : String := (q.map Quantity.text).getD ""

end Field

end FactorLabel
