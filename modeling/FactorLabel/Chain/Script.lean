import FactorLabel.Chain.Evaluate
import FactorLabel.Field.Reader

/-!
# Editing a chain

Every edit gives a new chain. An index that is out of range, or a field that was left empty,
leaves the chain as it is.

An edit is also a value, and a script of edits is a list of them. The edits that may empty a chain
bring the identifier along that is used in that case.
-/

namespace FactorLabel

namespace Chain

/-- Replaces the term at `index` by `f` of it. -/
def modify (c : Chain) (index : Nat) (f : Term → Term) : Chain :=
  ⟨c.terms.modify index f, by
    rw [← List.length_pos_iff, List.length_modify, List.length_pos_iff]
    exact c.nonempty⟩

/-- Puts a term in front of the one at `index`, or at the end if there is none. -/
def insert (c : Chain) (index : Nat) (t : Term) : Chain :=
  ⟨c.terms.insertIdx (min index c.length) t, by
    have hle : min index c.length ≤ c.terms.length := Nat.min_le_right _ _
    rw [← List.length_pos_iff, List.length_insertIdx_of_le_length hle]
    exact Nat.succ_pos _⟩

/-- Is an edit of this side ignored? A denominator of one says no more than a missing one. -/
def isIgnored (s : Side) (q : Quantity) : Bool := s == .denominator && q.isIdentity

/-- Enters a text in the field on one side of the term at `index`. -/
def update (c : Chain) (index : Nat) (s : Side) (text : String) : Chain :=
  match Field.quantity? text with
  | none => c
  | some q => if isIgnored s q then c else c.modify index (·.set s q)

/-- Takes out the term at `index`. The number one stands in for the last one. -/
def remove (c : Chain) (fresh : TermId) (index : Nat) : Chain :=
  if index < c.length then ofTerms fresh (c.terms.eraseIdx index) else c

/-- Turns the term at `index` over. -/
def flip (c : Chain) (index : Nat) : Chain := c.modify index Term.flip

/-- Takes the term at `source` out and puts it back so that it ends up at `target`. -/
def move (c : Chain) (source target : Nat) : Chain :=
  if h : source < c.length ∧ target < c.length then
    ⟨(c.terms.eraseIdx source).insertIdx target (c.terms.get ⟨source, h.1⟩), by
      have hlen : (c.terms.eraseIdx source).length = c.length - 1 :=
        List.length_eraseIdx_of_lt h.1
      have hpos : target ≤ (c.terms.eraseIdx source).length := by omega
      rw [← List.length_pos_iff, List.length_insertIdx_of_le_length hpos]
      exact Nat.succ_pos _⟩
  else c

/-- The terms at the given indices, as often as they are given. -/
def select (c : Chain) (fresh : TermId) (indices : List Nat) : Chain :=
  ofTerms fresh (indices.filterMap (c.terms[·]?))

end Chain

/-! ## Scripts -/

/-- One step of an editing session. -/
inductive Edit where
  | insert (index : Nat) (term : Term)
  | update (index : Nat) (side : Side) (text : String)
  | remove (fresh : TermId) (index : Nat)
  | flip (index : Nat)
  | move (source target : Nat)
  | simplify
  | select (fresh : TermId) (indices : List Nat)

namespace Chain

/-- What one edit makes of the chain. -/
def apply (c : Chain) : Edit → Chain
  | .insert index t => c.insert index t
  | .update index s text => c.update index s text
  | .remove fresh index => c.remove fresh index
  | .flip index => c.flip index
  | .move source target => c.move source target
  | .simplify => c.simplify
  | .select fresh indices => c.select fresh indices

/-- What a script makes of the chain. Its edits are done one after the other. -/
def run (c : Chain) (script : List Edit) : Chain := script.foldl apply c

end Chain

end FactorLabel
