import FactorLabel.Proofs.Field.Meaning
import FactorLabel.Proofs.Number.Code

/-!
# Written quantities, piece by piece

A quantity is written as a factor and words, with a space between any two of them. Each piece is
looked at by itself: the factor is a factor token that has the number for its value, a power is a
word that is read as the power, and words with spaces between them are cut at the spaces and
nowhere else.
-/

namespace FactorLabel

open Text Number

/-! ## The factor -/

namespace FactorToken

/-- The token that a finite double is written as. -/
def ofFloat (x : Float) : FactorToken :=
  ⟨signBit x, decimalText (shortest .up (code x)).whole, (shortest .up (code x)).fraction, false⟩

theorem ofFloat_isDigit (x : Float) :
    ∀ c ∈ (ofFloat x).whole ++ (ofFloat x).fraction, c.isDigit = true := by
  intro c hc
  rcases List.mem_append.mp hc with hc | hc
  · exact decimalText_isDigit _ c hc
  · exact lastDigits_isDigit _ _ c hc

theorem wellFormed_ofFloat (x : Float) : (ofFloat x).WellFormed := by
  have hnumeral : ∀ c ∈ (ofFloat x).whole ++ (ofFloat x).fraction, isNumeral c = true :=
    fun c hc => isNumeral_of_isDigit (ofFloat_isDigit x c hc)
  exact ⟨decimalText_ne_nil _, fun c hc => hnumeral c (List.mem_append_left _ hc),
    fun c hc => hnumeral c (List.mem_append_right _ hc)⟩

theorem text_ofFloat (x : Float) : (ofFloat x).text = plainDigits x := by
  show signText x ++ decimalText (shortest .up (code x)).whole ++ _ ++ [] = _
  rw [List.append_nil, List.append_assoc]
  rfl

theorem text_ne_nil {t : FactorToken} (h : t.WellFormed) : t.text ≠ [] := by
  intro hnil
  rw [text_eq, List.append_eq_nil_iff, List.append_eq_nil_iff] at hnil
  exact h.nonempty hnil.2.1

/-- The number that a finite double is written as, zero without its sign. -/
theorem value_ofFloat {x : Float} (h : x.isFinite = true) :
    (ofFloat x).value = if x == 0 then 0 else x := by
  have hfin := code_lt_of_isFinite h
  -- the digits are those of a decimal that reads back as the code of `x`
  have hread := nearestCode_shortest .up hfin
  have hascii : (ofFloat x).isAscii = true := List.all_eq_true.mpr (ofFloat_isDigit x)
  have hcode : (Decimal.ofParts (ofFloat x).whole (ofFloat x).fraction).nearestCode = code x :=
    (Decimal.nearestCode_ofParts_text _).trans hread
  have hfloat :
      (Decimal.ofParts (ofFloat x).whole (ofFloat x).fraction).toFloat (signBit x) = x := by
    rw [Decimal.toFloat, hcode, ofCode_code]
  have hpercent : (ofFloat x).percent = false := rfl
  have hnegative : (ofFloat x).negative = signBit x := rfl
  simp only [value, hascii, if_true, hnegative, hfloat, hpercent, Bool.false_eq_true, if_false]

end FactorToken

/-! ## The words -/

namespace Power

theorem toList_text (p : Power) : p.text.toList = p.label.toList ++
    if 1 < p.exponent then '^' :: decimalText p.exponent.toInt.toNat else [] := by
  rw [text]
  split
  · rw [String.toList_append, String.toList_append, String.toList_ofList, String.toList_ofList,
      List.append_assoc]
    rfl
  · rw [List.append_nil]

/-- **A power is read as it is written.** -/
theorem reads_text {p : Power} (hname : p.label.toList ∈ Grammar.name) (hpos : 0 < p.exponent) :
    Grammar.Reads p.text.toList (some p) := by
  have hlabel : (some p : Option Power) = some ⟨String.ofList p.label.toList, p.exponent⟩ := by
    rw [String.ofList_toList]
  have hpos' := Exponent.pos_iff.mp hpos
  have hone : (1 : Exponent).toInt = 1 := by decide
  rw [hlabel, toList_text]
  split
  · rename_i habove
    rw [Int64.lt_iff_toInt_lt, hone] at habove
    have hdigits := decimalText_isDigit p.exponent.toInt.toNat
    have hvalue := decimalValue_decimalText p.exponent.toInt.toNat
    have hle := Exponent.toInt_le p.exponent
    refine .power hname (Grammar.mem_numerals.mpr ⟨decimalText_ne_nil _, ?_⟩) rfl
      (.digits hdigits ?_ ?_)
    · exact fun c hc => isNumeral_of_isDigit (hdigits c hc)
    · omega
    · omega
  · rename_i habove
    rw [Int64.lt_iff_toInt_lt, hone] at habove
    have hexponent : p.exponent = 1 := by
      rw [← Int64.toInt_inj, hone]
      omega
    rw [hexponent, List.append_nil]
    exact .once hname rfl .absent

end Power

namespace Grammar

theorem stops_intercalate {ws : List (List Char)}
    (h : ∀ w ∈ ws, w ≠ [] ∧ ∀ c ∈ w, isBlank c = false) :
    Stops isBlank ([' '].intercalate ws) := by
  rcases ws with _ | ⟨_ | ⟨c, w⟩, ws⟩
  · exact stops_nil
  · exact absurd rfl (h [] List.mem_cons_self).1
  · rw [List.intercalate_cons_cons_left]
    exact stops_cons ((h (c :: w) List.mem_cons_self).2 c List.mem_cons_self)

/-- Words with spaces between them are cut at the spaces. -/
theorem runs_intercalate {ws : List (List Char)}
    (h : ∀ w ∈ ws, w ≠ [] ∧ ∀ c ∈ w, isBlank c = false) : runs ([' '].intercalate ws) = ws := by
  induction ws with
  | nil => exact runs_nil
  | cons w ws ih =>
      obtain ⟨hne, hw⟩ := h w List.mem_cons_self
      have hws := ih fun v hv => h v (List.mem_cons_of_mem w hv)
      cases ws with
      | nil => rw [List.intercalate_singleton, runs_word hne hw]
      | cons v vs =>
          rw [List.intercalate_cons_cons, List.append_assoc, List.singleton_append,
            runs_append_blank (by decide), runs_word hne hw, hws, List.singleton_append]

end Grammar

end FactorLabel
