import FactorLabel.Proofs.Grammar.Alphabet
import Mathlib.Computability.Language

/-!
# The written forms as regular languages

A field is read with hand-written scans, and its grammar is a handful of regular expressions.
Here the expressions are languages, put together from classes of characters, and nothing in them
says how they are scanned for.
-/

namespace FactorLabel.Grammar

open Text Computability

/-! ## The operators of an expression -/

/-- One character of a class. -/
def one (p : Char → Bool) : Language Char := {w | ∃ c, p c = true ∧ w = [c]}

/-- This character. -/
def mark (c : Char) : Language Char := {[c]}

/-- A word of the language, or nothing. -/
def optional (l : Language Char) : Language Char := 1 + l

/-- One or more words of the language. -/
def repeated (l : Language Char) : Language Char := l * l∗

variable {p : Char → Bool} {l : Language Char} {w : List Char}

theorem mem_one : w ∈ one p ↔ ∃ c, p c = true ∧ w = [c] := Iff.rfl

theorem mem_mark {c : Char} : w ∈ mark c ↔ w = [c] := Iff.rfl

theorem mem_optional : w ∈ optional l ↔ w = [] ∨ w ∈ l := Iff.rfl

theorem one_beq (c : Char) : one (· == c) = mark c := by
  refine Language.ext fun v => ?_
  simp only [mem_one, mem_mark, beq_iff_eq, exists_eq_left]

/-- Any number of characters of a class are a word of nothing else. -/
theorem mem_kstar_one : w ∈ (one p)∗ ↔ ∀ c ∈ w, p c = true := by
  rw [Language.mem_kstar]
  constructor
  · rintro ⟨ws, rfl, hws⟩ c hc
    obtain ⟨v, hv, hcv⟩ := List.mem_flatten.mp hc
    obtain ⟨d, hd, rfl⟩ := hws v hv
    rw [List.mem_singleton.mp hcv]
    exact hd
  · intro h
    refine ⟨w.map fun c => [c], ?_, fun v hv => ?_⟩
    -- the words of the star are the characters one by one
    · rw [← List.flatMap_def, List.flatMap_singleton']
    · obtain ⟨c, hc, rfl⟩ := List.mem_map.mp hv
      exact ⟨c, h c hc, rfl⟩

theorem mem_repeated_one : w ∈ repeated (one p) ↔ w ≠ [] ∧ ∀ c ∈ w, p c = true := by
  rw [repeated, Language.mem_mul]
  constructor
  · rintro ⟨_, ⟨c, hc, rfl⟩, b, hb, rfl⟩
    rw [mem_kstar_one] at hb
    refine ⟨List.cons_ne_nil c b, fun d hd => ?_⟩
    rcases List.mem_cons.mp hd with rfl | hd
    · exact hc
    · exact hb d hd
  · rintro ⟨hne, h⟩
    cases w with
    | nil => exact absurd rfl hne
    | cons c b =>
        exact ⟨[c], ⟨c, h c List.mem_cons_self, rfl⟩, b,
          mem_kstar_one.mpr fun d hd => h d (List.mem_cons_of_mem c hd), rfl⟩

/-! ## The expressions -/

/-- White space, or a character of category Z. -/
def separator (c : Char) : Bool := whiteSpace.contains c || categoryZ.contains c

/-- One or more numerals. -/
def numerals : Language Char := repeated (one isNumeral)

/-- A factor: a minus sign, numerals, a point with more numerals, and a percent sign. -/
def factor : Language Char :=
  optional (mark '-') * numerals * optional (mark '.' * numerals) * optional (mark '%')

/-- What a label starts with: a letter, the degree sign, an emoji with or without a skin tone, a
character that is an emoji by default, or one that is made an emoji by the variation selector. -/
def nameStart : Language Char :=
  one isLetter + mark '°' + one emojiModifierBase.contains * optional (one emojiModifier.contains)
    + one emojiPresentation.contains + one emoji.contains * mark pictureSelector

/-- What a label goes on with. -/
def nameNext : Language Char :=
  one emoji.contains + one emojiModifierBase.contains + one emojiModifier.contains
    + mark pictureSelector + one emojiPresentation.contains + one joinControls.contains
    + one isLetter + one isNumeral + one fun c => labelMarks.contains c

/-- A label without an exponent. -/
def name : Language Char := nameStart * nameNext∗

/-- A label, with or without an exponent behind a caret. -/
def label : Language Char := name * optional (mark '^' * numerals)

theorem mem_numerals : w ∈ numerals ↔ w ≠ [] ∧ ∀ c ∈ w, isNumeral c = true := mem_repeated_one

theorem separator_eq : separator = isBlank := by
  funext c
  rw [Bool.eq_iff_iff, separator, Bool.or_eq_true, isBlank_iff]

/-! ## Names -/

theorem nameNext_eq : nameNext = one continuesLabel := by
  ext w
  simp only [nameNext, Language.mem_add, mem_one, mem_mark, continuesLabel, Bool.or_eq_true,
    beq_iff_eq, or_and_right, exists_or, exists_eq_left]

theorem continuesLabel_pictureSelector : continuesLabel pictureSelector = true := by
  decide +kernel

/-- A start of a name starts a label, whatever stands behind it, and goes on as a label does. -/
theorem startsLabel_of_mem {a : List Char} (h : a ∈ nameStart) (b : List Char) :
    startsLabel (a ++ b) = true ∧ ∀ c ∈ a.tail, continuesLabel c = true := by
  have hone : ∀ c : Char, ∀ d ∈ [c].tail, continuesLabel d = true := fun _ d hd =>
    absurd hd List.not_mem_nil
  simp only [nameStart, Language.mem_add, Language.mem_mul, mem_one, mem_mark, mem_optional] at h
  rcases h with (((⟨c, hc, rfl⟩ | rfl) | ⟨_, ⟨c, hc, rfl⟩, v, hv, rfl⟩) | ⟨c, hc, rfl⟩)
    | ⟨_, ⟨c, hc, rfl⟩, _, rfl, rfl⟩
  · exact ⟨by simp [startsLabel, hc], hone c⟩
  · exact ⟨by simp [startsLabel], hone '°'⟩
  · refine ⟨by simp [startsLabel, hc], ?_⟩
    rcases hv with rfl | ⟨d, hd, rfl⟩
    · exact hone c
    · intro e he
      rw [List.mem_singleton.mp he]
      simp [continuesLabel, hd]
  · exact ⟨by simp [startsLabel, hc], hone c⟩
  · refine ⟨by simp [startsLabel, hc], fun e he => ?_⟩
    rw [List.mem_singleton.mp he]
    exact continuesLabel_pictureSelector

/-- Where a label may start, a start of a name stands in front. -/
theorem exists_mem_nameStart {c : Char} {rest : List Char}
    (h : startsLabel (c :: rest) = true) :
    ∃ a b, a ++ b = c :: rest ∧ a ∈ nameStart ∧ ∀ d ∈ b, d ∈ rest := by
  simp only [startsLabel, Bool.or_eq_true, Bool.and_eq_true, beq_iff_eq] at h
  simp only [nameStart, Language.mem_add, Language.mem_mul, mem_one, mem_mark, mem_optional]
  rcases h with (((h | rfl) | h) | h) | ⟨h, hnext⟩
  · exact ⟨[c], rest, rfl, .inl (.inl (.inl (.inl ⟨c, h, rfl⟩))), fun _ => id⟩
  · exact ⟨['°'], rest, rfl, .inl (.inl (.inl (.inr rfl))), fun _ => id⟩
  · exact ⟨[c], rest, rfl, .inl (.inl (.inr ⟨[c], ⟨c, h, rfl⟩, [], .inl rfl, rfl⟩)), fun _ => id⟩
  · exact ⟨[c], rest, rfl, .inl (.inr ⟨c, h, rfl⟩), fun _ => id⟩
  · obtain ⟨rest', rfl⟩ := List.head?_eq_some_iff.mp hnext
    exact ⟨[c, pictureSelector], rest', rfl, .inr ⟨[c], ⟨c, h, rfl⟩, [pictureSelector], rfl, rfl⟩,
      fun _ => List.mem_cons_of_mem pictureSelector⟩

/-- The scan for labels accepts the names and nothing else. -/
theorem isLabel_iff : isLabel w = true ↔ w ∈ name := by
  rw [name, nameNext_eq, Language.mem_mul]
  constructor
  · intro h
    cases w with
    | nil => exact absurd h Bool.false_ne_true
    | cons c rest =>
        obtain ⟨hstart, hrest⟩ := Bool.and_eq_true_iff.mp h
        obtain ⟨a, b, hab, ha, hb⟩ := exists_mem_nameStart hstart
        exact ⟨a, ha, b,
          mem_kstar_one.mpr fun d hd => List.all_eq_true.mp hrest d (hb d hd), hab⟩
  · rintro ⟨a, ha, b, hb, rfl⟩
    rw [mem_kstar_one] at hb
    obtain ⟨hstart, htail⟩ := startsLabel_of_mem ha b
    refine Bool.and_eq_true_iff.mpr ⟨hstart, List.all_eq_true.mpr fun d hd => ?_⟩
    cases a with
    -- no start is empty, but the scan need not know that
    | nil => exact hb d (List.mem_of_mem_tail hd)
    | cons c a =>
        rcases List.mem_append.mp hd with hd | hd
        · exact htail d hd
        · exact hb d hd

/-- No character of a name separates words or starts an exponent. -/
theorem of_mem_name (h : w ∈ name) : w ≠ [] ∧ ∀ c ∈ w, isBlank c = false ∧ c ≠ '^' := by
  have hlabel := isLabel_iff.mpr h
  refine ⟨?_, fun c hc => ?_⟩
  · rintro rfl
    exact Bool.false_ne_true hlabel
  · have hnext := continuesLabel_of_isLabel hlabel c hc
    exact ⟨isBlank_eq_false_of_continuesLabel hnext, ne_caret_of_continuesLabel hnext⟩

/-- A label as written has no separator in it. -/
theorem of_mem_label {w : List Char} (h : w ∈ label) :
    w ≠ [] ∧ ∀ c ∈ w, isBlank c = false := by
  obtain ⟨l, hl, v, hv, rfl⟩ := h
  obtain ⟨hne, hname⟩ := of_mem_name hl
  refine ⟨fun hnil => hne (List.append_eq_nil_iff.mp hnil).1, fun c hc => ?_⟩
  rcases List.mem_append.mp hc with hc | hc
  · exact (hname c hc).1
  · rcases hv with rfl | ⟨_, rfl, d, hd, rfl⟩
    · exact absurd hc List.not_mem_nil
    · rcases List.mem_cons.mp hc with rfl | hc
      · decide
      · exact isBlank_eq_false_of_isNumeral ((mem_numerals.mp hd).2 c hc)

end FactorLabel.Grammar
