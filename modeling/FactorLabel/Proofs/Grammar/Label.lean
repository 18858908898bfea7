import FactorLabel.Proofs.Grammar.Language
import FactorLabel.Proofs.Labels.Sum
import FactorLabel.Proofs.Text.Scan

/-!
# Labels and what they count for

No name has a caret in it, so a label divides into name and exponent at its first caret and in no
other way. The exponent is a text of numerals from any script, but only decimal digits are
counted, and counting stops at the first other numeral and at the largest exponent. What a word
counts for is written down below as a relation, case by case, without the order in which the
cases are tried.
-/

namespace FactorLabel

open Text Number

namespace LabelToken

theorem readPower?_cons {c : Char} {d : List Char} {power : Option (List Char)} :
    readPower? (c :: d) = some power ↔ d ∈ Grammar.numerals ∧ power = some d := by
  rw [Grammar.mem_numerals, ← List.all_eq_true]
  cases d with
  | nil => simp [readPower?]
  | cons e d =>
      simp only [readPower?, List.isEmpty_cons, Bool.not_false, Bool.true_and]
      split
      · rename_i hall
        simp [hall, eq_comm]
      · rename_i hall
        simp [hall]

theorem ne_caret_of_mem_name {l : List Char} (hl : l ∈ Grammar.name) :
    ∀ c ∈ l, decide (c ≠ '^') = true := fun c hc =>
  decide_eq_true ((Grammar.of_mem_name hl).2 c hc).2

/-- Without a caret the whole word is the name. -/
theorem whole?_name {l : List Char} (hl : l ∈ Grammar.name) : whole? l = some ⟨l, none⟩ := by
  have hstop : Stops (fun c => decide (c ≠ '^')) [] := stops_nil
  have htake := takeWhile_append_of_stops (ne_caret_of_mem_name hl) hstop
  have hdrop := dropWhile_append_of_stops (ne_caret_of_mem_name hl) hstop
  rw [List.append_nil] at htake hdrop
  simp only [whole?, htake, hdrop, Grammar.isLabel_iff.mpr hl, if_true]
  rfl

/-- The first caret ends the name, and the exponent behind it may have no other. -/
theorem whole?_power {l d : List Char} (hl : l ∈ Grammar.name) (hd : d ∈ Grammar.numerals) :
    whole? (l ++ '^' :: d) = some ⟨l, some d⟩ := by
  have hstop : Stops (fun c => decide (c ≠ '^')) ('^' :: d) := stops_cons (by simp)
  have htake := takeWhile_append_of_stops (ne_caret_of_mem_name hl) hstop
  have hdrop := dropWhile_append_of_stops (ne_caret_of_mem_name hl) hstop
  have hread := (readPower?_cons (c := '^')).mpr ⟨hd, rfl⟩
  simp only [whole?, htake, hdrop, Grammar.isLabel_iff.mpr hl, if_true, hread]
  rfl

/-- A label is read as the name and the exponent that it is written with. -/
theorem whole?_eq_some_iff {w : List Char} {t : LabelToken} :
    whole? w = some t ↔
      t.label ∈ Grammar.name ∧ (∀ d ∈ t.power, d ∈ Grammar.numerals) ∧ w = t.text := by
  constructor
  · intro h
    have hw := (List.takeWhile_append_dropWhile (p := fun c => decide (c ≠ '^')) (l := w)).symm
    simp only [whole?] at h
    split at h
    · rename_i hname
      obtain ⟨power, hread, rfl⟩ := Option.map_eq_some_iff.mp h
      refine ⟨Grammar.isLabel_iff.mp hname, ?_⟩
      rcases hbehind : w.dropWhile (fun c => decide (c ≠ '^')) with _ | ⟨c, d⟩
      · rw [hbehind] at hread hw
        cases hread
        exact ⟨fun d hd => absurd hd (Option.not_mem_none d), hw.trans (List.append_nil _)⟩
      -- a scan that stopped before the end stopped at a caret
      · have hc : c = '^' := by
          have hstop := stops_dropWhile (p := fun c => decide (c ≠ '^')) w c (by rw [hbehind]; rfl)
          simpa using hstop
        subst hc
        rw [hbehind] at hread hw
        obtain ⟨hd, rfl⟩ := readPower?_cons.mp hread
        refine ⟨fun e he => ?_, ?_⟩
        · rw [← Option.some.inj he]
          exact hd
        · exact hw
    · exact nomatch h
  · rintro ⟨hname, hpower, rfl⟩
    obtain ⟨name, power⟩ := t
    cases power with
    | none => exact whole?_name hname
    | some d => exact whole?_power hname (hpower d rfl)

end LabelToken

namespace Grammar

/-- What an exponent counts for. Without one a label counts once. -/
inductive Counts : Option (List Char) → Exponent → Prop where
  | absent : Counts none 1
  /-- Digits that stand for zero count as one. -/
  | zero {d : List Char} (digits : ∀ c ∈ d, c.isDigit = true) (value : decimalValue d = 0) :
      Counts (some d) 1
  /-- Other digits count for their value, or for the largest exponent. -/
  | digits {d : List Char} {n : Exponent} (digits : ∀ c ∈ d, c.isDigit = true)
      (value : decimalValue d ≠ 0) (cut : n.toInt = min ↑(decimalValue d) Exponent.largest.toInt) :
      Counts (some d) n
  /-- A numeral of another kind makes it one, but not if the digits in front are too many. -/
  | other {d rest : List Char} {c : Char} (digits : ∀ c ∈ d, c.isDigit = true)
      (numeral : c.isDigit = false) (value : decimalValue d ≤ Exponent.largest.toInt) :
      Counts (some (d ++ c :: rest)) 1
  | overflow {d rest : List Char} {c : Char} (digits : ∀ c ∈ d, c.isDigit = true)
      (numeral : c.isDigit = false) (value : Exponent.largest.toInt < decimalValue d) :
      Counts (some (d ++ c :: rest)) Exponent.largest

/-- What a word of the label text counts for: a label is counted, anything else is left out. -/
inductive Reads (w : List Char) : Option Power → Prop where
  | left (h : w ∉ label) : Reads w none
  | once {l : List Char} {n : Exponent} (name : l ∈ Grammar.name) (text : w = l)
      (count : Counts none n) : Reads w (some ⟨String.ofList l, n⟩)
  | power {l d : List Char} {n : Exponent} (name : l ∈ Grammar.name) (numerals : d ∈ numerals)
      (text : w = l ++ '^' :: d) (count : Counts (some d) n) :
      Reads w (some ⟨String.ofList l, n⟩)

theorem powerValue_digits {d : List Char} (h : ∀ c ∈ d, c.isDigit = true) :
    LabelToken.powerValue d = if Exponent.largest.toInt < decimalValue d then Exponent.largest
      else if decimalValue d = 0 then 1 else Int64.ofNat (decimalValue d) := by
  have htake := takeWhile_append_of_stops h stops_nil
  rw [List.append_nil] at htake
  simp [LabelToken.powerValue, htake, List.all_eq_true.mpr h, ite_not]

theorem powerValue_other {d rest : List Char} {c : Char} (h : ∀ c ∈ d, c.isDigit = true)
    (hc : c.isDigit = false) : LabelToken.powerValue (d ++ c :: rest)
      = if Exponent.largest.toInt < decimalValue d then Exponent.largest else 1 := by
  have hstop : Stops Char.isDigit (c :: rest) := stops_cons hc
  have htake := takeWhile_append_of_stops h hstop
  have hall : (d ++ c :: rest).all Char.isDigit = false := by simp [hc]
  simp [LabelToken.powerValue, htake, hall]

theorem toInt_ofNat_of_le {n : Nat} (h : (n : Int) ≤ Exponent.largest.toInt) :
    (Int64.ofNat n).toInt = n := by
  rw [Exponent.toInt_largest] at h
  exact Int64.toInt_ofNat_of_lt (by omega)

theorem counts_powerValue (d : List Char) : Counts (some d) (LabelToken.powerValue d) := by
  by_cases hd : ∀ c ∈ d, c.isDigit = true
  · rw [powerValue_digits hd]
    split
    · rename_i hlarge
      refine .digits hd ?_ (by omega)
      have hpos := Exponent.largest_nonneg
      omega
    · rename_i hle
      split
      · rename_i hzero
        exact .zero hd hzero
      · rename_i hne
        refine .digits hd hne ?_
        rw [toInt_ofNat_of_le (by omega)]
        omega
  -- the digits in front of the first other numeral decide
  · have hsplit := (List.takeWhile_append_dropWhile (p := Char.isDigit) (l := d)).symm
    have hdigits : ∀ c ∈ d.takeWhile Char.isDigit, c.isDigit = true := fun c hc =>
      List.mem_takeWhile_imp hc
    rcases hbehind : d.dropWhile Char.isDigit with _ | ⟨c, rest⟩
    · exact absurd (List.dropWhile_eq_nil_iff.mp hbehind) hd
    · have hc : c.isDigit = false := stops_dropWhile d c (by rw [hbehind]; rfl)
      rw [hbehind] at hsplit
      rw [hsplit, powerValue_other hdigits hc]
      split
      · rename_i hlarge
        exact .overflow hdigits hc hlarge
      · rename_i hle
        exact .other hdigits hc (by omega)

/-- The cases cover every exponent, and what they say agrees. -/
theorem counts_iff {power : Option (List Char)} {n : Exponent} :
    Counts power n ↔ n = (power.map LabelToken.powerValue).getD 1 := by
  constructor
  · intro h
    cases h with
    | absent => rfl
    | zero hd hzero =>
        show _ = LabelToken.powerValue _
        rw [powerValue_digits hd, if_neg, if_pos hzero]
        have hpos := Exponent.largest_nonneg
        omega
    | digits hd hne hcut =>
        show _ = LabelToken.powerValue _
        rw [← Int64.toInt_inj, hcut, powerValue_digits hd, if_neg hne]
        split
        · omega
        · rw [toInt_ofNat_of_le (by omega)]
          omega
    | other hd hc hle =>
        show _ = LabelToken.powerValue _
        rw [powerValue_other hd hc, if_neg (by omega)]
    | overflow hd hc hlarge =>
        show _ = LabelToken.powerValue _
        rw [powerValue_other hd hc, if_pos hlarge]
  · rintro rfl
    cases power with
    | none => exact .absent
    | some d => exact counts_powerValue d

/-- What a word is counted as. -/
def reading (w : List Char) : Option Power :=
  (LabelToken.whole? w).map fun t => ⟨String.ofList t.label, t.exponent⟩

theorem mem_label_iff {w : List Char} : w ∈ label ↔ ∃ t, LabelToken.whole? w = some t := by
  rw [label, Language.mem_mul]
  constructor
  · rintro ⟨l, hl, v, hv, rfl⟩
    rcases hv with rfl | ⟨_, rfl, d, hd, rfl⟩
    · rw [List.append_nil]
      exact ⟨_, LabelToken.whole?_name hl⟩
    · exact ⟨_, LabelToken.whole?_power hl hd⟩
  · rintro ⟨⟨l, power⟩, h⟩
    obtain ⟨hl, hpower, rfl⟩ := LabelToken.whole?_eq_some_iff.mp h
    cases power with
    | none => exact ⟨l, hl, [], .inl rfl, List.append_nil l⟩
    | some d => exact ⟨l, hl, _, .inr ⟨['^'], rfl, d, hpower d rfl, rfl⟩, rfl⟩

theorem Reads.name {w : List Char} {p : Power} (h : Reads w (some p)) :
    p.label.toList ∈ Grammar.name := by
  cases h with
  | once hname => rwa [String.toList_ofList]
  | power hname => rwa [String.toList_ofList]

/-- A word is read as one thing only. -/
theorem reads_iff {w : List Char} {p : Option Power} : Reads w p ↔ p = reading w := by
  constructor
  · intro h
    cases h with
    | left h =>
        have hnone : LabelToken.whole? w = none :=
          Option.eq_none_iff_forall_ne_some.mpr fun t ht => h (mem_label_iff.mpr ⟨t, ht⟩)
        rw [reading, hnone]
        rfl
    | once hl htext hcount =>
        rw [reading, htext, LabelToken.whole?_name hl, counts_iff.mp hcount]
        rfl
    | power hl hd htext hcount =>
        rw [reading, htext, LabelToken.whole?_power hl hd, counts_iff.mp hcount]
        rfl
  · rintro rfl
    rw [reading]
    cases h : LabelToken.whole? w with
    | none =>
        exact .left fun hmem => by
          obtain ⟨t, ht⟩ := mem_label_iff.mp hmem
          exact nomatch h.symm.trans ht
    | some t =>
        obtain ⟨l, power⟩ := t
        obtain ⟨hl, hpower, htext⟩ := LabelToken.whole?_eq_some_iff.mp h
        cases power with
        | none => exact .once hl htext .absent
        | some d => exact .power hl (hpower d rfl) htext (counts_powerValue d)

/-- The labels are the words that count. -/
theorem mem_label_iff_reads {w : List Char} : w ∈ label ↔ ∃ p, Reads w (some p) := by
  simp only [mem_label_iff, reads_iff, reading, eq_comm (a := some _), Option.map_eq_some_iff]
  constructor
  · rintro ⟨t, ht⟩
    exact ⟨_, t, ht, rfl⟩
  · rintro ⟨_, t, ht, -⟩
    exact ⟨t, ht⟩

end Grammar

end FactorLabel
