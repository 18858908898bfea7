import FactorLabel.Token.Label

/-!
# Characters that never meet

A separator ends a factor and it ends a label, and a caret ends the name in a label. All three
rest on one fact about the tables: no separator is a numeral, a mark of a factor or a character
of a label, and no caret is in a label. There are only twenty-five separators, so the tables are
asked about each of them.
-/

namespace FactorLabel.Text

/-- The characters of a set, one by one. -/
def CharSet.chars (s : CharSet) : List Char :=
  s.ranges.flatMap fun r => (List.range' r.1 (r.2 + 1 - r.1)).map Char.ofNat

theorem CharSet.mem_chars {s : CharSet} {c : Char} (h : s.contains c = true) : c ∈ s.chars := by
  obtain ⟨r, hr, hlo, hhi⟩ := CharSet.contains_iff.mp h
  refine List.mem_flatMap.mpr ⟨r, hr, List.mem_map.mpr ⟨c.toNat, ?_, Char.ofNat_toNat c⟩⟩
  rw [List.mem_range'_1]
  omega

/-- White space: what the property White_Space holds of. -/
def whiteSpace : CharSet := ⟨[
    (0x9, 0xD), (0x20, 0x20), (0x85, 0x85), (0xA0, 0xA0), (0x1680, 0x1680), (0x2000, 0x200A),
    (0x2028, 0x2029), (0x202F, 0x202F), (0x205F, 0x205F), (0x3000, 0x3000)]⟩

/-- General category Z: Zs, Zl and Zp. -/
def categoryZ : CharSet := ⟨[
    (0x20, 0x20), (0xA0, 0xA0), (0x1680, 0x1680), (0x2000, 0x200A), (0x2028, 0x2029),
    (0x202F, 0x202F), (0x205F, 0x205F), (0x3000, 0x3000)]⟩

/-- A separator is white space or of category Z. -/
theorem isBlank_iff {c : Char} :
    isBlank c = true ↔ whiteSpace.contains c = true ∨ categoryZ.contains c = true := by
  constructor
  · exact .inl
  · rintro (h | h)
    · exact h
    -- category Z adds nothing to white space
    · have hchars : categoryZ.chars.all isBlank = true := by decide +kernel
      exact List.all_eq_true.mp hchars c (CharSet.mem_chars h)

theorem of_isBlank {c : Char} (h : isBlank c = true) :
    isNumeral c = false ∧ continuesLabel c = false ∧ c ≠ '.' ∧ c ≠ '%' ∧ c ≠ '^' := by
  have hchars : blanks.chars.all (fun d => !isNumeral d && !continuesLabel d && d != '.'
      && d != '%' && d != '^') = true := by
    decide +kernel
  have hc := List.all_eq_true.mp hchars c (CharSet.mem_chars h)
  simp only [Bool.and_eq_true, Bool.not_eq_true', bne_iff_ne, and_assoc] at hc
  exact hc

theorem isBlank_eq_false_of_isNumeral {c : Char} (h : isNumeral c = true) : isBlank c = false :=
  Bool.eq_false_iff.mpr fun hb => by simp [(of_isBlank hb).1] at h

theorem isBlank_eq_false_of_continuesLabel {c : Char} (h : continuesLabel c = true) :
    isBlank c = false :=
  Bool.eq_false_iff.mpr fun hb => by simp [(of_isBlank hb).2.1] at h

theorem ne_caret_of_continuesLabel {c : Char} (h : continuesLabel c = true) : c ≠ '^' := by
  rintro rfl
  exact absurd h (by decide +kernel)

/-- The first character of a label could also stand behind the first. -/
theorem continuesLabel_of_startsLabel {c : Char} {rest : List Char}
    (h : startsLabel (c :: rest) = true) : continuesLabel c = true := by
  have hdegree : labelMarks.contains '°' = true := by decide
  simp only [startsLabel, Bool.or_eq_true, Bool.and_eq_true, beq_iff_eq] at h
  simp only [continuesLabel, Bool.or_eq_true]
  rcases h with (((h | rfl) | h) | h) | h
  · simp [h]
  · exact .inr hdegree
  · simp [h]
  · simp [h]
  · simp [h.1]

/-- Every character of a label is one that a label may go on with. -/
theorem continuesLabel_of_isLabel {s : List Char} (h : isLabel s = true) :
    ∀ c ∈ s, continuesLabel c = true := by
  cases s with
  | nil => exact fun c hc => absurd hc List.not_mem_nil
  | cons c rest =>
      obtain ⟨hstart, hrest⟩ := Bool.and_eq_true_iff.mp h
      intro d hd
      rcases List.mem_cons.mp hd with rfl | hd
      · exact continuesLabel_of_startsLabel hstart
      · exact List.all_eq_true.mp hrest d hd

end FactorLabel.Text
