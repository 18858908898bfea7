import FactorLabel.Labels.Basic

/-!
# What the operations on labels do to lookups

Labels are used through `get`. Each operation is described by what it does to `get`, and an
entry exists exactly for the labels whose exponent is not zero.
-/

namespace FactorLabel

/-! ## Lookup in a list of entries -/

/-- The exponent that a list of entries gives to `label`. -/
def exponentIn (label : String) (l : List Power) : Exponent :=
  ((l.find? (·.label == label)).map Power.exponent).getD 0

@[simp] theorem exponentIn_nil (label : String) : exponentIn label [] = 0 := rfl

theorem exponentIn_cons (label : String) (p : Power) (l : List Power) :
    exponentIn label (p :: l) = if p.label = label then p.exponent else exponentIn label l := by
  simp only [exponentIn, List.find?_cons]
  split <;> simp_all

theorem exponentIn_of_not_mem {label : String} {l : List Power} (h : label ∉ l.map Power.label) :
    exponentIn label l = 0 := by
  induction l with
  | nil => rfl
  | cons p l ih =>
      simp only [List.map_cons, List.mem_cons, not_or] at h
      rw [exponentIn_cons, if_neg (Ne.symm h.1), ih h.2]

theorem exponentIn_of_mem {l : List Power} (hd : (l.map Power.label).Nodup) {p : Power}
    (hp : p ∈ l) : exponentIn p.label l = p.exponent := by
  induction l with
  | nil => simp at hp
  | cons q l ih =>
      rw [List.map_cons, List.nodup_cons] at hd
      rw [exponentIn_cons]
      rcases List.mem_cons.mp hp with rfl | hp
      · rw [if_pos rfl]
      · have hne : q.label ≠ p.label := by
          intro h
          exact hd.1 (h ▸ List.mem_map_of_mem hp)
        rw [if_neg hne, ih hd.2 hp]

/-- Altering one label changes its exponent and no other. -/
theorem exponentIn_alterEntries {l : List Power} (hd : (l.map Power.label).Nodup)
    (label other : String) (f : Exponent → Exponent) :
    exponentIn other (alterEntries label f l)
      = if other = label then f (exponentIn other l) else exponentIn other l := by
  induction l with
  | nil =>
      simp only [alterEntries, exponentIn_nil]
      by_cases hz : f 0 = 0
      · simp [hz]
      · rw [if_neg hz, exponentIn_cons, exponentIn_nil]
        by_cases ho : other = label
        · simp [ho]
        · simp [ho, Ne.symm ho]
  | cons p l ih =>
      rw [List.map_cons, List.nodup_cons] at hd
      simp only [alterEntries]
      by_cases hp : p.label = label
      · subst hp
        rw [if_pos rfl]
        by_cases ho : other = p.label
        · subst ho
          rw [if_pos rfl, exponentIn_cons, if_pos rfl]
          split
          · rename_i hz
            rw [hz, exponentIn_of_not_mem hd.1]
          · rw [exponentIn_cons, if_pos rfl]
        · rw [if_neg ho, exponentIn_cons, if_neg (Ne.symm ho)]
          split
          · rfl
          · rw [exponentIn_cons, if_neg (Ne.symm ho)]
      · rw [if_neg hp, exponentIn_cons, exponentIn_cons, ih hd.2]
        by_cases ho : other = label
        · subst ho
          simp [hp]
        · simp [ho]

namespace Labels

theorem get_eq (m : Labels) (label : String) : m.get label = exponentIn label m.entries := rfl

@[simp] theorem get_empty (label : String) : empty.get label = 0 := rfl

theorem get_alter (m : Labels) (label other : String) (f : Exponent → Exponent) :
    (m.alter label f).get other = if other = label then f (m.get other) else m.get other :=
  exponentIn_alterEntries m.distinct label other f

theorem get_add (m : Labels) (label other : String) (n : Exponent) :
    (m.add label n).get other
      = if other = label then (m.get other).saturatingAdd n else m.get other :=
  get_alter m label other _

theorem get_set (m : Labels) (label other : String) (n : Exponent) :
    (m.set label n).get other = if other = label then n else m.get other :=
  get_alter m label other _

theorem get_of_mem {m : Labels} {p : Power} (hp : p ∈ m.entries) : m.get p.label = p.exponent :=
  exponentIn_of_mem m.distinct hp

theorem mem_labels_iff {m : Labels} {label : String} : label ∈ m.labels ↔ m.get label ≠ 0 := by
  constructor
  · intro h
    obtain ⟨p, hp, rfl⟩ := List.mem_map.mp h
    rw [get_of_mem hp]
    exact m.nonzero p hp
  · intro h
    by_cases hm : label ∈ m.labels
    · exact hm
    · exact absurd (exponentIn_of_not_mem hm) h

theorem contains_iff {m : Labels} {label : String} : m.contains label ↔ m.get label ≠ 0 := by
  rw [← mem_labels_iff]
  simp [contains, labels]

end Labels

end FactorLabel
