/-!
# Sets of characters

A property of characters is a list of ranges of code points. Membership is one scan over the
ranges, so a question about a single character, or about the few characters of a small set,
is settled by evaluation.

The smallest of the sets that are needed is that of the blanks, which separate the words of an edit
field: white space together with every separator of general category Z. They are twenty-five
characters, so a line break, a no-break space and an ideographic space all divide two labels alike.
-/

namespace FactorLabel.Text

/-- A set of characters, given by inclusive ranges of code points. -/
structure CharSet where
  ranges : List (Nat × Nat)

namespace CharSet

/-- Is the character in one of the ranges? -/
def contains (s : CharSet) (c : Char) : Bool :=
  s.ranges.any fun r => Nat.ble r.1 c.toNat && Nat.ble c.toNat r.2

theorem contains_iff {s : CharSet} {c : Char} :
    s.contains c ↔ ∃ r ∈ s.ranges, r.1 ≤ c.toNat ∧ c.toNat ≤ r.2 := by
  simp [contains]

end CharSet

/-! ## Blank characters -/

/-- White space and the separators of general category Z. -/
def blanks : CharSet := ⟨[
    (0x9, 0xD), (0x20, 0x20), (0x85, 0x85), (0xA0, 0xA0), (0x1680, 0x1680), (0x2000, 0x200A),
    (0x2028, 0x2029), (0x202F, 0x202F), (0x205F, 0x205F), (0x3000, 0x3000)]⟩

/-- Does the character separate words? -/
def isBlank (c : Char) : Bool := blanks.contains c

/-- The blanks of ASCII text are separators. -/
theorem isBlank_of_isWhitespace {c : Char} (h : c.isWhitespace = true) : isBlank c = true := by
  simp only [Char.isWhitespace, Bool.or_eq_true, decide_eq_true_eq] at h
  rcases h with ((rfl | rfl) | rfl) | rfl <;> decide

end FactorLabel.Text
