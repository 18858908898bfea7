import FactorLabel.Proofs.Display.Reduced
import FactorLabel.Proofs.Field.Written

/-!
# Labels that print alike

The text of labels does not tell in which order they were entered, since both sides are sorted.
It tells everything else. Cut at its spaces, the text is the powers with bullets between them, then
the line, then the powers below it. Neither a bullet nor the line is a label, so the words in front
of the line are read as the powers above it, and those behind it as the powers below it. Two maps
with the same text have the same sides, and so the same exponents.
-/

namespace FactorLabel

open Text

/-! ## The words of the text -/

namespace Grammar

/-- A word between two spaces is a word of the text. -/
theorem runs_append_word {w : List Char} (hne : w ≠ []) (hw : ∀ c ∈ w, isBlank c = false)
    (s t : List Char) : runs (s ++ ' ' :: (w ++ ' ' :: t)) = runs s ++ w :: runs t := by
  have hspace : isBlank ' ' = true := by decide
  rw [runs_append_blank hspace, runs_append_blank hspace, runs_word hne hw, List.singleton_append]

/-- With a word between any two of them, words are cut at the spaces around it. -/
theorem runs_intercalate_word {w : List Char} (hne : w ≠ []) (hw : ∀ c ∈ w, isBlank c = false)
    {ws : List (List Char)} (h : ∀ v ∈ ws, v ≠ [] ∧ ∀ c ∈ v, isBlank c = false) :
    runs ((' ' :: (w ++ [' '])).intercalate ws) = ws.intersperse w := by
  induction ws with
  | nil => exact runs_nil
  | cons v ws ih =>
      obtain ⟨hvne, hv⟩ := h v List.mem_cons_self
      have hws := ih fun u hu => h u (List.mem_cons_of_mem v hu)
      cases ws with
      | nil => rw [List.intercalate_singleton, runs_word hvne hv, List.intersperse_singleton]
      | cons u us =>
          rw [List.intercalate_cons_cons, List.append_assoc, List.cons_append, List.append_assoc,
            List.singleton_append, runs_append_word hne hw, runs_word hvne hv, hws,
            List.intersperse_cons_cons, List.singleton_append]

/-- Words between the others that count for nothing are not counted. -/
theorem filterMap_intersperse {w : List Char} (hw : reading w = none) (ws : List (List Char)) :
    (ws.intersperse w).filterMap reading = ws.filterMap reading := by
  induction ws with
  | nil => rfl
  | cons v ws ih =>
      cases ws with
      | nil => rfl
      | cons u us =>
          rw [List.intersperse_cons_cons, List.filterMap_cons, List.filterMap_cons_none hw, ih,
            List.filterMap_cons (l := u :: us)]

theorem forall_mem_intersperse {P : List Char → Prop} {w : List Char} (hw : P w)
    {ws : List (List Char)} (h : ∀ v ∈ ws, P v) : ∀ v ∈ ws.intersperse w, P v := by
  induction ws with
  | nil => exact h
  | cons v ws ih =>
      have hws := ih fun u hu => h u (List.mem_cons_of_mem v hu)
      cases ws with
      | nil => exact h
      | cons u us =>
          rw [List.intersperse_cons_cons, List.forall_mem_cons, List.forall_mem_cons]
          exact ⟨h v List.mem_cons_self, hw, hws⟩

/-- The powers above and below the line of a text: what the words in front of the line and those
behind it count for. -/
def readSides (t : String) : List Power × List Power :=
  let words := runs t.toList
  ((words.takeWhile (· ≠ ['/'])).filterMap reading,
    (words.dropWhile (· ≠ ['/'])).filterMap reading)

end Grammar

namespace Power

/-- A power that is read as it is written: its label is a name, and its exponent is positive. -/
structure Legible (p : Power) : Prop where
  name : p.label.toList ∈ Grammar.name
  pos : 0 < p.exponent

variable {p : Power}

theorem inverse_inverse (p : Power) : p.inverse.inverse = p := by
  show (⟨p.label, - -p.exponent⟩ : Power) = p
  rw [Int64.neg_neg]

theorem Legible.reading (h : p.Legible) : Grammar.reading p.text.toList = some p :=
  (Grammar.reads_iff.mp (reads_text h.name h.pos)).symm

theorem Legible.solid (h : p.Legible) :
    p.text.toList ≠ [] ∧ ∀ c ∈ p.text.toList, isBlank c = false :=
  Grammar.of_mem_label (Grammar.mem_label_iff_reads.mpr ⟨p, reads_text h.name h.pos⟩)

end Power

/-! ## Reading the text back -/

namespace Settings

open Grammar

variable {ps : List Power}

theorem reading_bullet : reading ['•'] = none := by decide +kernel

theorem reading_line : reading ['/'] = none := by decide +kernel

/-- The words of one side are the powers, with bullets between them. -/
theorem runs_joined (h : ∀ p ∈ ps, p.Legible) :
    runs (default.joined ps).toList = (ps.map fun p => p.text.toList).intersperse ['•'] := by
  have hbullet : ∀ c ∈ ['•'], isBlank c = false := List.forall_mem_singleton.mpr (by decide)
  rw [joined, String.toList_intercalate, List.map_map]
  refine runs_intercalate_word (List.cons_ne_nil _ _) hbullet fun w hw => ?_
  obtain ⟨p, hp, rfl⟩ := List.mem_map.mp hw
  exact (h p hp).solid

/-- One side is read back. -/
theorem filterMap_runs_joined (h : ∀ p ∈ ps, p.Legible) :
    (runs (default.joined ps).toList).filterMap reading = ps := by
  rw [runs_joined h, filterMap_intersperse reading_bullet, List.filterMap_map]
  have hread : ps.filterMap (reading ∘ fun p => p.text.toList) = ps.filterMap some :=
    List.filterMap_congr fun p hp => (h p hp).reading
  rw [hread, List.filterMap_some]

/-- The line is on neither side. -/
theorem ne_line_of_mem_runs_joined (h : ∀ p ∈ ps, p.Legible) :
    ∀ w ∈ runs (default.joined ps).toList, w ≠ ['/'] := by
  rw [runs_joined h]
  refine forall_mem_intersperse (by decide) fun w hw => ?_
  obtain ⟨p, hp, rfl⟩ := List.mem_map.mp hw
  intro hline
  have hread := (h p hp).reading
  rw [hline, reading_line] at hread
  exact nomatch hread

/-- **Both sides are read back.** -/
theorem readSides_written {above below : List Power} (habove : ∀ p ∈ above, p.Legible)
    (hbelow : ∀ p ∈ below, p.Legible) :
    readSides (default.written above below) = (above, below) := by
  have hline : ∀ w ∈ runs (default.joined above).toList, decide (w ≠ ['/']) = true :=
    fun w hw => decide_eq_true (ne_line_of_mem_runs_joined habove w hw)
  rw [readSides, written]
  split
  · rename_i hempty
    -- a side that is written as nothing is nothing
    have hnil := filterMap_runs_joined hbelow
    rw [String.isEmpty_iff.mp hempty] at hnil
    have hbelow_nil : below = [] := hnil.symm
    have hall := List.takeWhile_eq_self_iff.mpr hline
    have hnone := List.dropWhile_eq_nil_iff.mpr hline
    rw [hall, hnone, filterMap_runs_joined habove, hbelow_nil, List.filterMap_nil]
  · have hruns : runs (default.joined above ++ default.ratioSeparator
        ++ default.joined below).toList
          = runs (default.joined above).toList ++ ['/'] :: runs (default.joined below).toList := by
      have hsolid : ∀ c ∈ ['/'], isBlank c = false := List.forall_mem_singleton.mpr (by decide)
      rw [String.toList_append, String.toList_append, List.append_assoc]
      exact runs_append_word (List.cons_ne_nil _ _) hsolid _ _
    rw [hruns, List.takeWhile_append_of_pos hline, List.dropWhile_append_of_pos hline,
      List.takeWhile_cons_of_neg (by simp), List.dropWhile_cons_of_neg (by simp),
      List.append_nil, List.filterMap_cons_none reading_line, filterMap_runs_joined habove,
      filterMap_runs_joined hbelow]

end Settings

namespace Labels

/-- Every label is the name of a label, without an exponent. -/
def Named (m : Labels) : Prop := ∀ label ∈ m.labels, label.toList ∈ Grammar.name

variable {m a b : Labels}

theorem Named.legible (hname : m.Named) (hrev : m.Reversible) {p : Power}
    (hp : p ∈ m.above ∨ p ∈ m.below) : p.Legible :=
  ⟨hname p.label (mem_labels_of_mem_side hp), Exponent.pos_iff.mpr (hrev.pos_of_mem_side hp)⟩

/-- **The text of labels is read back.** -/
theorem Named.readSides_labelsText (hname : m.Named) (hrev : m.Reversible) :
    Grammar.readSides (Settings.default.labelsText m) = (m.above, m.below) :=
  Settings.readSides_written (fun _ hp => hname.legible hrev (.inl hp))
    fun _ hp => hname.legible hrev (.inr hp)

/-- The entries are the powers of both sides, those below the line turned back. -/
theorem entries_perm_sides (m : Labels) :
    m.entries.Perm (m.above ++ m.below.map Power.inverse) := by
  have hback : Power.inverse ∘ Power.inverse = id := funext Power.inverse_inverse
  have habove : m.above.Perm (m.entries.filter (0 < ·.exponent)) := List.mergeSort_perm _ _
  have hbelow : (m.below.map Power.inverse).Perm (m.entries.filter (!0 < ·.exponent)) := by
    refine ((List.mergeSort_perm _ _).map _).trans ?_
    rw [List.map_map, hback, List.map_id]
  exact ((habove.append hbelow).trans (List.filter_append_perm _ m.entries)).symm

/-- The two sides tell everything but the order of the entries. -/
theorem beq_of_sides (habove : a.above = b.above) (hbelow : a.below = b.below) :
    (a == b) = true := by
  have hb := b.entries_perm_sides
  rw [← habove, ← hbelow] at hb
  exact beq_of_perm (a.entries_perm_sides.trans hb.symm)

/--
**The text of labels is canonical.**

Equal maps have the same text, whatever the settings are and however the maps were made. With the
default settings, and labels that are names, maps that have the same text are equal. So two maps
print alike if and only if they give every label the same exponent.
-/
theorem labelsText_canonical (ha : a.Reversible) (hb : b.Reversible) :
    ((a == b) = true → ∀ s : Settings, s.labelsText a = s.labelsText b)
    ∧ (a.Named → b.Named →
        (Settings.default.labelsText a = Settings.default.labelsText b ↔ (a == b) = true)
        ∧ (Settings.default.labelsText a = Settings.default.labelsText b
            ↔ ∀ label, a.get label = b.get label)) := by
  have hsame : (a == b) = true → ∀ s : Settings, s.labelsText a = s.labelsText b := by
    intro h s
    rw [s.labelsText_eq, s.labelsText_eq, above_congr (get_of_beq h), below_congr (get_of_beq h)]
  refine ⟨hsame, fun hna hnb => ?_⟩
  have hback : Settings.default.labelsText a = Settings.default.labelsText b →
      (a == b) = true := by
    intro htext
    have hsides := hna.readSides_labelsText ha
    rw [htext, hnb.readSides_labelsText hb, Prod.mk.injEq] at hsides
    exact beq_of_sides hsides.1.symm hsides.2.symm
  have hiff := Iff.intro hback fun h => hsame h Settings.default
  exact ⟨hiff, hiff.trans beq_iff_get⟩

/-- Kilometres in two spellings, over squared hours. -/
def spelledKilometres : Labels := ((Labels.empty.add "km" 1).add "Km" 1).add "h" (-2)

/-- The same by another way, with seconds that come and go. -/
def spelledKilometresTurned : Labels :=
  (((((Labels.empty.add "h" (-1)).add "s" 4).add "Km" 1).add "h" (-1)).add "s" (-4)).add "km" 1

/-- A squared kilometre, over squared hours. -/
def squaredKilometres : Labels := (Labels.empty.add "km" 2).add "h" (-2)

/-- The spellings are told apart and stand in the same order, wherever they came in. -/
theorem labelsText_canonical_kilometres :
    (spelledKilometres.Reversible ∧ spelledKilometres.Named)
    ∧ (spelledKilometresTurned.Reversible ∧ spelledKilometresTurned.Named)
    ∧ (squaredKilometres.Reversible ∧ squaredKilometres.Named)
    ∧ spelledKilometres.labels ≠ spelledKilometresTurned.labels
    ∧ (∀ s : Settings, s.labelsText spelledKilometres = s.labelsText spelledKilometresTurned)
    ∧ Settings.default.labelsText spelledKilometres
      ≠ Settings.default.labelsText squaredKilometres := by
  have hnames : ∀ label ∈ ["km", "Km", "h"], label.toList ∈ Grammar.name := by
    intro label hlabel
    refine Grammar.isLabel_iff.mp ?_
    revert label
    decide +kernel
  have hmap : ∀ m : Labels, m.Reversible → (∀ label ∈ m.labels, label ∈ ["km", "Km", "h"]) →
      m.Reversible ∧ m.Named :=
    fun m hrev hlabels => ⟨hrev, fun label h => hnames label (hlabels label h)⟩
  have hspelled := hmap spelledKilometres (by decide) (by decide)
  have hturned := hmap spelledKilometresTurned (by decide) (by decide)
  have hsquared := hmap squaredKilometres (by decide) (by decide)
  refine ⟨hspelled, hturned, hsquared, by decide, ?_, fun htext => ?_⟩
  · exact (labelsText_canonical hspelled.1 hturned.1).1 (by decide)
  · have hbeq :=
      ((labelsText_canonical hspelled.1 hsquared.1).2 hspelled.2 hsquared.2).1.mp htext
    exact absurd hbeq (by decide)

end Labels

end FactorLabel
