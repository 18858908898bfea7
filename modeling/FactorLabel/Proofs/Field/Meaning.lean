import FactorLabel.Field.Reader
import FactorLabel.Proofs.Grammar.Factor
import FactorLabel.Proofs.Grammar.Label
import FactorLabel.Proofs.Grammar.Runs
import FactorLabel.Proofs.Labels.Order
import Mathlib.Data.List.Forall2
import Mathlib.Data.List.ReduceOption

/-!
# What a field means

Reading a field is a scan for the factor, a walk over the words and a sum kept in a map. The
meaning of a text is said here without any of them: how the text divides, what each word counts
for, and what the counts add up to. The main result is that a field is read as what it means,
whatever the text.
-/

namespace FactorLabel

open Text

namespace Grammar

/-- How a text divides into the number in front and the label text. Where no factor is a word of
its own, the number is one and all of the text is label text. -/
inductive Divides (t : List Char) : Float → List Char → Prop where
  | split {f s r : List Char} (h : Split t f s r) :
      Divides t (Field.factorValue (String.ofList f)) r
  | whole (h : ∀ f s r, ¬ Split t f s r) : Divides t 1 t

/-- The labels that a label text stands for: every word is read, the powers of a label are added
up and cut off at the largest exponent, and the labels stand in the order of first occurrence. -/
def Collects (s : List Char) (m : Labels) : Prop :=
  ∃ readings : List (Option Power), List.Forall₂ Reads (runs s) readings
    ∧ (∀ l, (m.get l).toInt = min Exponent.largest.toInt (weight l readings.reduceOption))
    ∧ m.labels = (readings.reduceOption.map Power.label).eraseDups

/-- The text stands for the quantity. -/
def Parses (t : List Char) (q : Quantity) : Prop :=
  ∃ s, Divides t q.factor s ∧ Collects s q.labels

theorem Counts.pos {power : Option (List Char)} {n : Exponent} (h : Counts power n) : 0 < n := by
  have hone : (0 : Exponent) < 1 := by decide
  have hlargest : (0 : Exponent) < Exponent.largest := by decide
  cases h with
  | absent => exact hone
  | zero => exact hone
  | digits _ hne hcut =>
      have hmax := Exponent.pos_iff.mp hlargest
      rw [Exponent.pos_iff]
      omega
  | other => exact hone
  | overflow => exact hlargest

theorem Reads.pos {w : List Char} {p : Power} (h : Reads w (some p)) : 0 < p.exponent := by
  cases h with
  | once _ _ hcount => exact hcount.pos
  | power _ _ _ hcount => exact hcount.pos

/-- The powers that the words of a label text are counted as. -/
def powers (s : List Char) : List Power := (runs s).filterMap reading

theorem powers_pos (s : List Char) : ∀ p ∈ powers s, 0 < p.exponent := by
  intro p hp
  obtain ⟨w, _, hw⟩ := List.mem_filterMap.mp hp
  exact (reads_iff.mpr hw.symm).pos

theorem forall₂_reads_iff {ws : List (List Char)} {readings : List (Option Power)} :
    List.Forall₂ Reads ws readings ↔ readings = ws.map reading := by
  constructor
  · intro h
    induction h with
    | nil => rfl
    | cons hread _ ih => rw [List.map_cons, reads_iff.mp hread, ih]
  · rintro rfl
    induction ws with
    | nil => exact .nil
    | cons w ws ih => exact .cons (reads_iff.mpr rfl) ih

theorem reduceOption_map_reading (ws : List (List Char)) :
    (ws.map reading).reduceOption = ws.filterMap reading := by
  rw [List.reduceOption, List.filterMap_map, Function.id_comp]

/-- Adding up the powers of the words is the only way to collect them. -/
theorem collects_iff {s : List Char} {m : Labels} :
    Collects s m ↔ m = Labels.ofList (powers s) := by
  have hlabels := Labels.labels_ofList (powers_pos s)
  have hget := Labels.toInt_get_ofList (powers_pos s)
  constructor
  · rintro ⟨readings, hreads, hm, hmlabels⟩
    rw [forall₂_reads_iff.mp hreads, reduceOption_map_reading] at hm hmlabels
    refine Labels.eq_of_labels_of_get (hmlabels.trans hlabels.symm) fun l => ?_
    rw [← Int64.toInt_inj, hm, hget, powers]
  · rintro rfl
    refine ⟨_, forall₂_reads_iff.mpr rfl, ?_, ?_⟩
    · rw [reduceOption_map_reading]
      exact hget
    · rw [reduceOption_map_reading]
      exact hlabels

end Grammar

/-- The fault of a word that is no label. -/
def LabelFault.ofWord (word : Lexeme) : LabelFault := ⟨String.ofList word.text, word.span⟩

namespace Field

theorem factorValue_text {t : FactorToken} (h : t.WellFormed) :
    factorValue (String.ofList t.text) = t.value := by
  rw [factorValue, String.toList_ofList, FactorToken.whole?_eq_some_iff.mpr ⟨h, rfl⟩]
  rfl

/-- A field divides the way its factor is read. -/
theorem divides_iff {t s : List Char} {x : Float} :
    Grammar.Divides t x s ↔ (readFactor t).1 = x ∧ (readFactor t).2.remaining = s := by
  cases hsegment : FactorToken.segment? t with
  | none =>
      have hnone : ∀ f s r, ¬ Grammar.Split t f s r := by
        intro f s r h
        obtain ⟨token, hsome, _⟩ := Grammar.split_iff_segment?.mp h
        exact nomatch hsegment.symm.trans hsome
      have hread : readFactor t = (1, Cursor.start t) := by rw [readFactor, hsegment]
      rw [hread]
      constructor
      · rintro (hsplit | _)
        · exact absurd hsplit (hnone _ _ _)
        · exact ⟨rfl, rfl⟩
      · rintro ⟨rfl, rfl⟩
        exact .whole hnone
  | some segment =>
      obtain ⟨token, gap, rest⟩ := segment
      have hwf := (FactorToken.segment?_eq_some_iff.mp hsegment).1
      -- a text with a split does not also stand as a whole
      have hsplit := Grammar.split_iff_segment?.mpr ⟨token, hsegment, rfl⟩
      have hread : readFactor t
          = (factorValue (String.ofList token.text), ⟨rest, byteLength (token.text ++ gap)⟩) := by
        rw [readFactor, hsegment, factorValue_text hwf]
      rw [hread]
      constructor
      · rintro (hsplit' | hnone)
        · obtain ⟨rfl, rfl, rfl⟩ := hsplit'.unique hsplit
          exact ⟨rfl, rfl⟩
        · exact absurd hsplit (hnone _ _ _)
      · rintro ⟨rfl, rfl⟩
        exact .split hsplit

theorem foldl_readWord_fst (words : List Lexeme) (m : Labels) (found : Findings LabelFault) :
    (words.foldl readWord (m, found)).1
      = m.extend ((words.map Lexeme.text).filterMap Grammar.reading) := by
  induction words generalizing m found with
  | nil => rfl
  | cons word words ih =>
      rw [List.foldl_cons, List.map_cons, List.filterMap_cons, Grammar.reading, readWord]
      cases LabelToken.whole? word.text with
      | none => exact ih m _
      | some t => exact ih (m.add (String.ofList t.label) t.exponent) found

theorem readLabels_fst (c : Cursor) (found : Findings LabelFault) :
    (readLabels c found).1 = Labels.ofList (Grammar.powers c.remaining) := by
  rw [readLabels, foldl_readWord_fst, Cursor.readAll_run]
  rfl

/-- The words from a place on that are no labels, as they are reported. -/
def faults (c : Cursor) : List LabelFault :=
  ((c.readAll .run).1.filter fun x => (LabelToken.whole? x.text).isNone).map LabelFault.ofWord

theorem toList_foldl_readWord (words : List Lexeme) (m : Labels) (found : Findings LabelFault) :
    (words.foldl readWord (m, found)).2.toList = found.toList
      ++ (words.filter fun x => (LabelToken.whole? x.text).isNone).map LabelFault.ofWord := by
  induction words generalizing m found with
  | nil => rw [List.filter_nil, List.map_nil, List.append_nil, List.foldl_nil]
  | cons word words ih =>
      rw [List.foldl_cons, readWord]
      cases hword : LabelToken.whole? word.text with
      | none =>
          rw [ih, Findings.toList_push, List.append_assoc,
            List.filter_cons_of_pos (by simp [hword])]
          rfl
      | some t => rw [ih, List.filter_cons_of_neg (by simp [hword])]

theorem toList_readLabels (c : Cursor) (found : Findings LabelFault) :
    (readLabels c found).2.toList = found.toList ++ faults c :=
  toList_foldl_readWord _ _ found

/-- A field that is not empty is a quantity: the factor, and the sum of the powers behind it. -/
theorem read_of_ne {t : String} (h : t ≠ "") (found : Findings LabelFault) :
    read t found = (some ⟨(readFactor t.toList).1,
      Labels.ofList (Grammar.powers (readFactor t.toList).2.remaining)⟩,
      (readLabels (readFactor t.toList).2 found).2) := by
  have hempty : t.isEmpty = false := by simpa using h
  rw [read, hempty, ← readLabels_fst _ found]
  rfl

theorem quantity?_of_ne {t : String} (h : t ≠ "") :
    quantity? t = some ⟨(readFactor t.toList).1,
      Labels.ofList (Grammar.powers (readFactor t.toList).2.remaining)⟩ := by
  rw [quantity?, read_of_ne h]

theorem factor_quantity? {s : List Char} (hs : s ≠ []) :
    ∃ q, quantity? (String.ofList s) = some q ∧ q.factor = (readFactor s).1 := by
  have hne : String.ofList s ≠ "" := fun hempty =>
    hs (String.ofList_inj.mp (hempty.trans String.ofList_nil.symm))
  have hread := quantity?_of_ne hne
  rw [String.toList_ofList] at hread
  exact ⟨_, hread, rfl⟩

/--
**A field is read as what it means.**

Only the empty text is no quantity. Any other text has one split at most, and it is read as the
quantity it stands for and as no other.
-/
theorem quantity?_eq_some_iff_parses (t : String) :
    (quantity? t = none ↔ t = "")
    ∧ {p : List Char × List Char × List Char |
        Grammar.Split t.toList p.1 p.2.1 p.2.2}.Subsingleton
    ∧ ∀ q, quantity? t = some q ↔ t ≠ "" ∧ Grammar.Parses t.toList q := by
  refine ⟨?_, ?_, fun q => ?_⟩
  · constructor
    · intro hnone
      by_cases ht : t = ""
      · exact ht
      · exact nomatch hnone.symm.trans (quantity?_of_ne ht)
    · rintro rfl
      rfl
  · rintro ⟨f, s, r⟩ h ⟨f', s', r'⟩ h'
    obtain ⟨rfl, rfl, rfl⟩ := h.unique h'
    rfl
  · by_cases ht : t = ""
    · subst ht
      exact ⟨fun h => (nomatch h), fun h => absurd rfl h.1⟩
    · rw [quantity?_of_ne ht]
      constructor
      · intro h
        cases h
        exact ⟨ht, _, divides_iff.mpr ⟨rfl, rfl⟩, Grammar.collects_iff.mpr rfl⟩
      · rintro ⟨_, s, hdivides, hcollects⟩
        obtain ⟨hfactor, hrest⟩ := divides_iff.mp hdivides
        obtain ⟨factor, labels⟩ := q
        rw [hfactor, hrest, ← Grammar.collects_iff.mp hcollects]

end Field

end FactorLabel
