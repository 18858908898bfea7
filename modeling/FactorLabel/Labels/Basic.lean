import FactorLabel.Number.Radix

/-!
# Labels with exponents

The unit of a quantity: a finite map from label to exponent, in which a label with exponent
zero is the same as no label. The entries keep the order in which their labels last came in,
which is the order they are shown in, but two maps are equal when they give every label the
same exponent.

Every change goes through `alter`, which replaces the exponent of one label by a function of
it, so the two invariants (no label twice, no exponent zero) are checked there once.

An exponent is a signed word of sixty-four bits. Sums that leave the range stop at its end, so a
label that is counted too often keeps the largest exponent instead of turning into its own
reciprocal.
-/

namespace FactorLabel

/-! ## Exponents -/

/-- The power that a label is raised to. -/
abbrev Exponent := Int64

namespace Exponent

/-- The sum, or the end of the range that it passes. -/
def saturatingAdd (a b : Exponent) : Exponent := Int64.ofIntClamp (a.toInt + b.toInt)

/-- The exponent that sums stop at. -/
def largest : Exponent := Int64.maxValue

end Exponent

/-! ## Powers -/

/-- A label raised to a power. -/
structure Power where
  label : String
  exponent : Exponent
  deriving DecidableEq, Repr

namespace Power

/-- The label, with its exponent behind a caret if that is above one. -/
def text (p : Power) : String :=
  if 1 < p.exponent then
    p.label ++ "^" ++ String.ofList (Number.decimalText p.exponent.toInt.toNat)
  else p.label

/-- The same label on the other side of the line. -/
def inverse (p : Power) : Power := ⟨p.label, -p.exponent⟩

end Power

/-! ## Changing one entry of a list -/

/-- The entries with the exponent of `label` replaced by `f` of it. An absent label has exponent
zero and comes in at the end; a label that gets exponent zero goes out. -/
def alterEntries (label : String) (f : Exponent → Exponent) : List Power → List Power
  | [] => if f 0 = 0 then [] else [⟨label, f 0⟩]
  | p :: rest =>
      if p.label = label then
        if f p.exponent = 0 then rest else ⟨label, f p.exponent⟩ :: rest
      else p :: alterEntries label f rest

/-- Nothing comes in but `label`, and not with exponent zero. -/
theorem mem_alterEntries {label : String} {f : Exponent → Exponent} {l : List Power} {q : Power}
    (h : q ∈ alterEntries label f l) : q ∈ l ∨ (q.label = label ∧ q.exponent ≠ 0) := by
  induction l with
  | nil =>
      simp only [alterEntries] at h
      split at h
      · simp at h
      · simp_all
  | cons p rest ih =>
      simp only [alterEntries] at h
      split at h
      · split at h
        · exact .inl (List.mem_cons_of_mem _ h)
        · rcases List.mem_cons.mp h with rfl | h
          · exact .inr ⟨rfl, by assumption⟩
          · exact .inl (List.mem_cons_of_mem _ h)
      · rcases List.mem_cons.mp h with rfl | h
        · exact .inl List.mem_cons_self
        · rcases ih h with h | h
          · exact .inl (List.mem_cons_of_mem _ h)
          · exact .inr h

theorem nodup_alterEntries {label : String} {f : Exponent → Exponent} {l : List Power}
    (h : (l.map Power.label).Nodup) : ((alterEntries label f l).map Power.label).Nodup := by
  induction l with
  | nil =>
      simp only [alterEntries]
      split <;> simp
  | cons p rest ih =>
      rw [List.map_cons, List.nodup_cons] at h
      simp only [alterEntries]
      split
      · rename_i hp
        split
        · exact h.2
        · rw [List.map_cons, List.nodup_cons]
          exact ⟨hp ▸ h.1, h.2⟩
      · rename_i hp
        rw [List.map_cons, List.nodup_cons]
        refine ⟨fun hmem => ?_, ih h.2⟩
        obtain ⟨q, hq, hlabel⟩ := List.mem_map.mp hmem
        rcases mem_alterEntries hq with hq | ⟨hq, _⟩
        · exact h.1 (hlabel ▸ List.mem_map_of_mem hq)
        · exact hp (hlabel.symm.trans hq)

/-! ## The map -/

/-- Labels with their exponents: no label twice, and none with exponent zero. -/
structure Labels where
  entries : List Power
  distinct : (entries.map Power.label).Nodup
  nonzero : ∀ p ∈ entries, p.exponent ≠ 0

namespace Labels

/-- No labels: the unit of a plain number. -/
def empty : Labels := ⟨[], by simp, by simp⟩

instance : Inhabited Labels := ⟨empty⟩

/-- The number of labels. -/
def size (m : Labels) : Nat := m.entries.length

/-- Are there no labels? -/
def isEmpty (m : Labels) : Bool := m.entries.isEmpty

/-- The labels in the order of the entries. -/
def labels (m : Labels) : List String := m.entries.map Power.label

/-- The exponent of `label`, zero if it is absent. -/
def get (m : Labels) (label : String) : Exponent :=
  ((m.entries.find? (·.label == label)).map Power.exponent).getD 0

/-- Has the label an exponent? -/
def contains (m : Labels) (label : String) : Bool := m.entries.any (·.label == label)

/-- Replaces the exponent of one label by `f` of it. -/
def alter (m : Labels) (label : String) (f : Exponent → Exponent) : Labels where
  entries := alterEntries label f m.entries
  distinct := nodup_alterEntries m.distinct
  nonzero p hp := (mem_alterEntries hp).elim (m.nonzero p) (·.2)

/-- Adds `n` to the exponent of a label, up to the end of the range. -/
def add (m : Labels) (label : String) (n : Exponent) : Labels :=
  m.alter label (·.saturatingAdd n)

/-- Gives a label the exponent `n`. -/
def set (m : Labels) (label : String) (n : Exponent) : Labels := m.alter label fun _ => n

/-- Adds powers one after the other. -/
def extend (m : Labels) (ps : List Power) : Labels :=
  ps.foldl (fun m p => m.add p.label p.exponent) m

/-- The map that a list of powers adds up to. -/
def ofList (ps : List Power) : Labels := empty.extend ps

/-- The product of two units adds the entries of the second to the first. -/
instance : Mul Labels := ⟨fun a b => a.extend b.entries⟩

instance : One Labels := ⟨empty⟩

/-- Same number of labels, and every entry of the first has its exponent in the second. -/
instance : BEq Labels :=
  ⟨fun a b => a.size == b.size && a.entries.all fun p => b.get p.label == p.exponent⟩

/-- The powers in order, with spaces between them. -/
def text (m : Labels) : String := " ".intercalate (m.entries.map Power.text)

/-! ## Cancelling

What is left of a unit over another one: each label with the difference of its exponents.
Labels of the numerator come first, and a label whose exponents are equal is gone. -/

/-- The net exponent of every label of a numerator and a denominator. -/
def cancel (numerator denominator : Labels) : Labels :=
  (numerator.labels ++ denominator.labels).foldl
    (fun net label =>
      if net.contains label then net
      else net.set label (numerator.get label - denominator.get label))
    empty

end Labels

end FactorLabel
