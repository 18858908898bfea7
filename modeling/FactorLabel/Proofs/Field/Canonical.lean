import FactorLabel.Proofs.Field.RoundTrip
import FactorLabel.Proofs.Number.Status

/-!
# Canonical quantities

A quantity that comes from a field is of a special kind, whatever was typed: its labels can be
typed again, and its factor is a number and no negative zero. It may be infinite.
-/

namespace FactorLabel

open Number Text

/-- What a field can be read as. -/
structure Quantity.Canonical (q : Quantity) : Prop where
  number : q.factor.isNaN = false
  unsigned : q.factor ≠ -0
  typed : q.labels.Typed

instance (m : Labels) : Decidable m.Typed :=
  decidable_of_iff (∀ p ∈ m.entries, isLabel p.label.toList = true ∧ 0 < p.exponent) <| by
    simp only [Labels.Typed, Grammar.isLabel_iff]

instance (q : Quantity) : Decidable q.Canonical :=
  decidable_of_iff (q.factor.isNaN = false ∧ q.factor ≠ -0 ∧ q.labels.Typed)
    ⟨fun h => ⟨h.1, h.2.1, h.2.2⟩, fun h => ⟨h.number, h.unsigned, h.typed⟩⟩

theorem Quantity.canonical_identity : Quantity.identity.Canonical := by decide +kernel

namespace Number.Double

/-- Only negative zero is changed when zero loses its sign. -/
theorem normal_eq_iff {x : Float} : (if x == 0 then 0 else x) = x ↔ x ≠ -0 := by
  have hzero : (0 : Float) ≠ -0 := by decide +kernel
  constructor
  · rintro h rfl
    exact hzero h
  · intro h
    split
    · rename_i hx
      rcases (Float.beq_iff_ne_nan_and_eq.mp hx).2.2 with heq | ⟨_, hneg⟩ | ⟨hneg, _⟩
      · exact heq.symm
      · exact absurd hneg hzero
      · exact absurd hneg h
    · rfl

end Number.Double

namespace FactorToken

/-- The value of a written factor is a number. -/
theorem isNaN_value (t : FactorToken) : t.value.isNaN = false := by
  have hdigits := Decimal.isNaN_toFloat t.negative (Decimal.ofParts t.whole t.fraction)
  have hhundred : Double.unpacked 100
      = .finite .positive 7036874417766400 (-46) (by decide) := rfl
  have hone : (1 : Float).isNaN = false := by decide +kernel
  have hzero : (0 : Float).isNaN = false := by decide +kernel
  rw [value]
  split
  · dsimp only
    split
    · split
      · exact hzero
      · exact Double.isNaN_div hdigits hhundred
    · split
      · exact hzero
      · exact hdigits
  · exact hone

end FactorToken

namespace Field

theorem isNaN_readFactor (s : List Char) : (readFactor s).1.isNaN = false := by
  rw [readFactor]
  split
  · exact FactorToken.isNaN_value _
  · show (1 : Float).isNaN = false
    decide +kernel

/-- **A field is read as a canonical quantity.** -/
theorem canonical_of_quantity? {t : String} {q : Quantity} (h : quantity? t = some q) :
    q.Canonical := by
  have ht : t ≠ "" := by
    rintro rfl
    exact nomatch h
  rw [quantity?_of_ne ht] at h
  cases h
  exact {
    number := isNaN_readFactor _
    unsigned := Double.normal_eq_iff.mp (divides_normal (divides_iff.mpr ⟨rfl, rfl⟩))
    typed := typed_ofList_powers _ }

/-! ## What is shown, read again -/

/-- A finite quantity is read as it was. -/
theorem quantity?_text_of_not_isInf {q : Quantity} (h : q.Canonical)
    (hinf : q.factor.isInf = false) : quantity? (text (some q)) = some q := by
  have hread := read_text_some (isFinite_iff.mpr ⟨h.number, hinf⟩) h.typed .empty
  rw [quantity?, hread, Double.normal_eq_iff.mpr h.unsigned]

/-- What is shown of an infinite factor. -/
def infinityWord (negative : Bool) : List Char := markText '-' negative ++ ['i', 'n', 'f']

theorem toList_text_of_isInf {q : Quantity} (hinf : q.factor.isInf = true) :
    (text (some q)).toList = infinityWord (signBit q.factor)
      ++ (if q.labels.entries = [] then [] else [' ']) ++ q.labels.text.toList := by
  rw [toList_text, plainText_of_isInf hinf, String.toList_append, String.toList_ofList]
  rfl

/-- There is no factor in front of the word, with or without its sign. -/
theorem segment?_infinityWord (negative : Bool) (rest : List Char) :
    FactorToken.segment? (infinityWord negative ++ rest) = none := by
  have hread : FactorToken.read? (infinityWord negative ++ rest) = none := by
    cases negative <;> rfl
  rw [FactorToken.segment?, hread]

theorem readFactor_text_of_isInf {q : Quantity} (hinf : q.factor.isInf = true) :
    readFactor (text (some q)).toList = (1, .start (text (some q)).toList) := by
  rw [toList_text_of_isInf hinf, List.append_assoc, readFactor, segment?_infinityWord]

theorem infinityWord_ne_nil (negative : Bool) : infinityWord negative ≠ [] := by
  cases negative <;> exact List.cons_ne_nil _ _

theorem isBlank_infinityWord (negative : Bool) :
    ∀ c ∈ infinityWord negative, isBlank c = false := by
  have hall : (infinityWord negative).all (!isBlank ·) = true := by cases negative <;> decide
  simpa using hall

theorem reading_infinityWord (negative : Bool) : Grammar.reading (infinityWord negative)
    = if negative = true then none else some ⟨"inf", 1⟩ := by
  cases negative <;> decide +kernel

/-- The word is a label if it has no sign. The words behind it are the labels that were shown. -/
theorem powers_text_of_isInf {q : Quantity} (hinf : q.factor.isInf = true)
    (h : q.labels.Typed) : Grammar.powers (text (some q)).toList
      = (if signBit q.factor = true then [] else [⟨"inf", 1⟩]) ++ q.labels.entries := by
  have hne := infinityWord_ne_nil (signBit q.factor)
  have hsolid := isBlank_infinityWord (signBit q.factor)
  have hruns : Grammar.runs (text (some q)).toList
      = infinityWord (signBit q.factor) :: Grammar.runs q.labels.text.toList := by
    rw [toList_text_of_isInf hinf, List.append_assoc]
    by_cases hempty : q.labels.entries = []
    · have htext : q.labels.text.toList = [] := by
        rw [Labels.toList_text, hempty]
        rfl
      rw [if_pos hempty, htext, List.append_nil, Grammar.runs_append hne hsolid stops_nil]
    · have hspace : isBlank ' ' = true := by decide
      rw [if_neg hempty, List.singleton_append,
        Grammar.runs_append hne hsolid (stops_cons (by simp [hspace])),
        Grammar.runs_blank_cons hspace]
  have hpowers := h.powers_text
  rw [Grammar.powers] at hpowers
  rw [Grammar.powers, hruns, List.filterMap_cons, reading_infinityWord, hpowers]
  cases signBit q.factor <;> rfl

/-- Infinity is written as a word that is read as a label, or as nothing with a sign in front. The
factor that is read is one. -/
theorem quantity?_text_of_isInf {q : Quantity} (h : q.Canonical) (hinf : q.factor.isInf = true) :
    ∃ m, quantity? (text (some q)) = some ⟨1, m⟩
      ∧ (m.isEmpty = true ↔ signBit q.factor = true ∧ q.labels.isEmpty = true) := by
  have hne : text (some q) ≠ "" := by
    intro hempty
    have htext := toList_text_of_isInf hinf
    rw [hempty, List.append_assoc, String.toList_empty] at htext
    exact infinityWord_ne_nil _ (List.append_eq_nil_iff.mp htext.symm).1
  have hread := quantity?_of_ne hne
  rw [readFactor_text_of_isInf hinf] at hread
  refine ⟨_, hread, ?_⟩
  show (Labels.ofList (Grammar.powers (text (some q)).toList)).isEmpty = true ↔ _
  rw [Labels.isEmpty_ofList (Grammar.powers_pos _), powers_text_of_isInf hinf h.typed,
    Labels.isEmpty]
  cases signBit q.factor <;> simp

end Field

end FactorLabel
