import FactorLabel.Proofs.Field.Written

/-!
# A field is read as it was written

Writing a quantity into a field and reading the field gives the quantity back, with its labels in
their order and without a complaint. Only negative zero does not come back: it is read as zero.

It follows that a field settles at once. What is shown for a text that was read is read as the
same quantity.
-/

namespace FactorLabel

open Text

/-- The labels can be typed: they are names, and their exponents are positive. -/
def Labels.Typed (m : Labels) : Prop :=
  ∀ p ∈ m.entries, p.label.toList ∈ Grammar.name ∧ 0 < p.exponent

namespace Labels

variable {m : Labels}

theorem Typed.reads (h : m.Typed) {p : Power} (hp : p ∈ m.entries) :
    Grammar.Reads p.text.toList (some p) :=
  Power.reads_text (h p hp).1 (h p hp).2

theorem toList_text (m : Labels) :
    m.text.toList = [' '].intercalate (m.entries.map fun p => p.text.toList) := by
  rw [text, String.toList_intercalate, List.map_map]
  rfl

/-- The powers of labels that can be typed are written without separators in them. -/
theorem Typed.words (h : m.Typed) : ∀ w ∈ m.entries.map fun p => p.text.toList,
    w ≠ [] ∧ ∀ c ∈ w, isBlank c = false := by
  intro w hw
  obtain ⟨p, hp, rfl⟩ := List.mem_map.mp hw
  exact Grammar.of_mem_label (Grammar.mem_label_iff_reads.mpr ⟨p, h.reads hp⟩)

theorem Typed.runs_text (h : m.Typed) :
    Grammar.runs m.text.toList = m.entries.map fun p => p.text.toList := by
  rw [toList_text, Grammar.runs_intercalate h.words]

theorem Typed.powers_text (h : m.Typed) : Grammar.powers m.text.toList = m.entries := by
  rw [Grammar.powers, h.runs_text, List.filterMap_map]
  have hread : ∀ p ∈ m.entries, (Grammar.reading ∘ fun p => p.text.toList) p = some p :=
    fun p hp => (Grammar.reads_iff.mp (h.reads hp)).symm
  exact (List.filterMap_congr hread).trans List.filterMap_some

end Labels

namespace Field

/-! ## Reading what is written -/

/-- The text of a quantity: its factor, then a space and its labels if it has any. -/
theorem toList_text (q : Quantity) : (text (some q)).toList = (Number.plainText q.factor).toList
    ++ (if q.labels.entries = [] then [] else [' ']) ++ q.labels.text.toList := by
  show (Quantity.text q).toList = _
  rw [Quantity.text, Labels.isEmpty, Labels.toList_text]
  by_cases hempty : q.labels.entries = []
  · rw [hempty, if_pos List.isEmpty_nil, if_pos rfl, List.map_nil, List.intercalate_nil,
      List.append_nil, List.append_nil]
  · rw [if_neg (by simpa using hempty), if_neg hempty, String.toList_append, String.toList_append,
      Labels.toList_text]
    rfl

theorem toList_text_of_isFinite {q : Quantity} (hfin : q.factor.isFinite = true) :
    (text (some q)).toList = (FactorToken.ofFloat q.factor).text
      ++ (if q.labels.entries = [] then [] else [' ']) ++ q.labels.text.toList := by
  rw [toList_text, Number.plainText_of_isFinite hfin, String.toList_ofList,
    FactorToken.text_ofFloat]

/-- The text divides where it was put together. -/
theorem split_text {q : Quantity} (hfin : q.factor.isFinite = true) (h : q.labels.Typed) :
    Grammar.Split (text (some q)).toList (FactorToken.ofFloat q.factor).text
      (if q.labels.entries = [] then [] else [' ']) q.labels.text.toList where
  text := toList_text_of_isFinite hfin
  factor := Grammar.mem_factor_iff.mpr ⟨_, FactorToken.wellFormed_ofFloat q.factor, rfl⟩
  gap c hc := by
    rw [Grammar.separator_eq]
    split at hc
    · exact absurd hc List.not_mem_nil
    · rw [List.mem_singleton.mp hc]
      decide
  maximal := by
    rw [Grammar.separator_eq, Labels.toList_text]
    exact Grammar.stops_intercalate h.words
  ended := by
    by_cases hempty : q.labels.entries = []
    · refine .inr ⟨if_pos hempty, ?_⟩
      rw [Labels.toList_text, hempty]
      rfl
    · refine .inl ?_
      rw [if_neg hempty]
      exact List.cons_ne_nil _ _

/-- The factor and the labels are found where they were written. -/
theorem readFactor_text {q : Quantity} (hfin : q.factor.isFinite = true) (h : q.labels.Typed) :
    (readFactor (text (some q)).toList).1 = (if q.factor == 0 then 0 else q.factor)
    ∧ (readFactor (text (some q)).toList).2.remaining = q.labels.text.toList := by
  have hdivides := divides_iff.mp (.split (split_text hfin h))
  rw [factorValue_text (FactorToken.wellFormed_ofFloat q.factor),
    FactorToken.value_ofFloat hfin] at hdivides
  exact hdivides

/-- Nothing is reported where all words are labels. -/
theorem readLabels_snd {c : Cursor} (found : Findings LabelFault)
    (h : ∀ w ∈ Grammar.runs c.remaining, w ∈ Grammar.label) : (readLabels c found).2 = found := by
  have hnone : faults c = [] := by
    refine List.map_eq_nil_iff.mpr (List.filter_eq_nil_iff.mpr fun x hx => ?_)
    have hmem : x.text ∈ Grammar.runs c.remaining := by
      rw [← Cursor.readAll_run]
      exact List.mem_map_of_mem hx
    obtain ⟨t, ht⟩ := Grammar.mem_label_iff.mp (h x.text hmem)
    simp [ht]
  rw [← Findings.toList_inj, toList_readLabels, hnone, List.append_nil]

theorem read_text_some {q : Quantity} (hfin : q.factor.isFinite = true) (h : q.labels.Typed)
    (found : Findings LabelFault) : read (text (some q)) found
      = (some ⟨if q.factor == 0 then 0 else q.factor, q.labels⟩, found) := by
  obtain ⟨hfactor, hrest⟩ := readFactor_text hfin h
  have hne : text (some q) ≠ "" := by
    intro hempty
    have hnil := toList_text_of_isFinite hfin
    rw [hempty, String.toList_empty] at hnil
    exact FactorToken.text_ne_nil (FactorToken.wellFormed_ofFloat q.factor)
      (List.append_eq_nil_iff.mp (List.append_eq_nil_iff.mp hnil.symm).1).1
  have hlabels : ∀ w ∈ Grammar.runs q.labels.text.toList, w ∈ Grammar.label := by
    intro w hw
    rw [h.runs_text] at hw
    obtain ⟨p, hp, rfl⟩ := List.mem_map.mp hw
    exact Grammar.mem_label_iff_reads.mpr ⟨p, h.reads hp⟩
  rw [read_of_ne hne, readLabels_snd found (hrest ▸ hlabels), hfactor, hrest, h.powers_text,
    Labels.ofList_entries]

/-! ## What is read can be written -/

/-- Taking the sign off zero twice is taking it off once. -/
theorem normal_normal (x : Float) :
    (if (if x == 0 then 0 else x) == 0 then 0 else if x == 0 then 0 else x)
      = if x == 0 then 0 else x := by
  by_cases hx : (x == 0) = true
  · rw [if_pos hx, ite_self]
  · rw [if_neg hx, if_neg hx]

/-- No factor is read as negative zero. -/
theorem factorValue_normal (s : String) :
    (if factorValue s == 0 then 0 else factorValue s) = factorValue s := by
  have hone : (if (1 : Float) == 0 then 0 else 1) = (1 : Float) := if_neg (by decide +kernel)
  rw [factorValue]
  cases FactorToken.whole? s.toList with
  | none => exact hone
  | some t =>
      show (if t.value == 0 then 0 else t.value) = t.value
      rw [FactorToken.value]
      split
      · exact normal_normal _
      · exact hone

theorem divides_normal {t s : List Char} {x : Float} (h : Grammar.Divides t x s) :
    (if x == 0 then 0 else x) = x := by
  cases h with
  | split _ => exact factorValue_normal _
  | whole _ => exact if_neg (by decide +kernel)

theorem typed_ofList_powers (s : List Char) : (Labels.ofList (Grammar.powers s)).Typed := by
  intro p hp
  have hpos := Grammar.powers_pos s
  constructor
  -- the label comes from a word that was read
  · have hmem : p.label ∈ (Labels.ofList (Grammar.powers s)).labels := List.mem_map_of_mem hp
    rw [Labels.labels_ofList hpos, List.mem_eraseDups] at hmem
    obtain ⟨p', hp', hlabel⟩ := List.mem_map.mp hmem
    obtain ⟨w, _, hw⟩ := List.mem_filterMap.mp hp'
    rw [← hlabel]
    exact (Grammar.reads_iff.mpr hw.symm).name
  -- the exponent is a sum of positive ones, cut off far above zero
  · have hget := Labels.get_ofList_nonneg hpos p.label
    rw [Labels.get_of_mem hp] at hget
    have hne := Labels.toInt_ne_zero_of_mem hp
    rw [Exponent.pos_iff]
    omega

/--
**Reading undoes writing.**

A quantity with a finite factor, and with labels that can be typed, is read back from its own
text, except that negative zero loses its sign, and nothing is reported. So for every text with a
finite factor, what is shown of it is read as the text was.
-/
theorem read_text (found : Findings LabelFault) :
    (∀ q : Quantity, q.factor.isFinite = true → q.labels.Typed →
      read (text (some q)) found
        = (some ⟨if q.factor == 0 then 0 else q.factor, q.labels⟩, found))
    ∧ ∀ t : String, (∀ q ∈ quantity? t, q.factor.isFinite = true) →
      quantity? (text (quantity? t)) = quantity? t := by
  refine ⟨fun q hfin h => read_text_some hfin h found, fun t hfin => ?_⟩
  by_cases ht : t = ""
  · rw [ht]
    rfl
  · have hread := quantity?_of_ne ht
    have hback := read_text_some (hfin _ hread) (typed_ofList_powers _) .empty
    have hnormal := divides_normal (divides_iff.mpr ⟨rfl, rfl⟩ :
      Grammar.Divides t.toList (readFactor t.toList).1 (readFactor t.toList).2.remaining)
    rw [hread, quantity?, hback, hnormal]

/-- Minus half a joule second squared. -/
def halfJoule : Quantity := ⟨-0.5, (Labels.empty.add "J" 1).add "s" 2⟩

/-- A quantity comes back from its text, and a percentage of negative zero settles. -/
theorem read_text_halfJoule :
    halfJoule.factor.isFinite = true ∧ halfJoule.labels.Typed
    ∧ read (text (some halfJoule)) .empty = (some halfJoule, .empty)
    ∧ quantity? (text (quantity? "-0% m^2 s")) = quantity? "-0% m^2 s" := by
  have hfin : halfJoule.factor.isFinite = true := by decide +kernel
  have htyped : halfJoule.labels.Typed := by
    intro p hp
    rcases List.mem_pair.mp hp with rfl | rfl
    · exact ⟨Grammar.isLabel_iff.mp (by decide +kernel), by decide⟩
    · exact ⟨Grammar.isLabel_iff.mp (by decide +kernel), by decide⟩
  have hfactor : (if halfJoule.factor == 0 then 0 else halfJoule.factor) = halfJoule.factor :=
    if_neg (by decide +kernel)
  have hback := (read_text .empty).1 halfJoule hfin htyped
  rw [hfactor] at hback
  refine ⟨hfin, htyped, hback, (read_text .empty).2 "-0% m^2 s" fun q hq => ?_⟩
  rw [quantity?_of_ne (by decide)] at hq
  cases hq
  decide +kernel

end Field

end FactorLabel
