import FactorLabel.Display.Ratio
import FactorLabel.Proofs.Labels.Net

/-!
# The two sides of the line

Displayed labels are two sorted lists of powers: those above the line, and those below it turned
over. The order they are sorted by is total and tells any two powers apart, so each list depends
on the exponents alone and not on the order of the entries.
-/

namespace FactorLabel

namespace Power

/-! ## The order of powers -/

theorem order_eq : Power.order = compareLex (fun p q => compare q.exponent p.exponent)
    (compareLex (compareOn sortName) (compareOn label)) := rfl

instance transCmp_order : Std.TransCmp Power.order := by
  have hdescending : Std.TransCmp fun p q : Power => compare q.exponent p.exponent :=
    { eq_swap := fun {p q} => Std.OrientedOrd.eq_swap
      isLE_trans := fun {p q r} hpq hqr => Std.TransOrd.isLE_trans hqr hpq }
  -- the other two comparisons are lexicographic ones that the library knows
  rw [order_eq]
  infer_instance

theorem precedes_trans {p q r : Power} (hpq : p.precedes q = true) (hqr : q.precedes r = true) :
    p.precedes r = true := Std.TransCmp.isLE_trans hpq hqr

theorem precedes_total (p q : Power) : (p.precedes q || q.precedes p) = true := by
  have hswap : q.order p = (p.order q).swap := Std.OrientedCmp.eq_swap
  unfold precedes
  rw [hswap]
  cases p.order q <;> rfl

theorem eq_of_precedes {p q : Power} (hpq : p.precedes q = true) (hqp : q.precedes p = true) :
    p = q := by
  have heq : p.order q = .eq := Std.OrientedCmp.isLE_antisymm hpq hqp
  unfold order at heq
  rw [Ordering.then_eq_eq, Ordering.then_eq_eq] at heq
  obtain ⟨hexp, -, hlabel⟩ := heq
  have hexp' := Std.LawfulEqOrd.eq_of_compare hexp
  have hlabel' := Std.LawfulEqOrd.eq_of_compare hlabel
  obtain ⟨pl, pe⟩ := p
  obtain ⟨ql, qe⟩ := q
  cases hexp'
  cases hlabel'
  rfl

theorem pairwise_mergeSort (ps : List Power) :
    (ps.mergeSort precedes).Pairwise fun p q => p.precedes q = true :=
  @List.pairwise_mergeSort _ precedes (fun _ _ _ => precedes_trans) precedes_total ps

/-- **Sorting forgets the order.** -/
theorem mergeSort_eq_of_perm {ps qs : List Power} (h : ps.Perm qs) :
    ps.mergeSort precedes = qs.mergeSort precedes := by
  have hperm : (ps.mergeSort precedes).Perm (qs.mergeSort precedes) :=
    (List.mergeSort_perm ps _).trans (h.trans (List.mergeSort_perm qs _).symm)
  have hantisymm : ∀ p q : Power, p ∈ ps.mergeSort precedes → q ∈ qs.mergeSort precedes →
      p.precedes q = true → q.precedes p = true → p = q :=
    fun _ _ _ _ hpq hqp => eq_of_precedes hpq hqp
  exact hperm.eq_of_pairwise hantisymm (pairwise_mergeSort ps) (pairwise_mergeSort qs)

end Power

namespace Labels

/-! ## The powers on each side -/

/-- The powers above the line, in the order they are written in. -/
def above (m : Labels) : List Power :=
  (m.entries.filter (0 < ·.exponent)).mergeSort Power.precedes

/-- The powers below the line, turned over, in the order they are written in. -/
def below (m : Labels) : List Power :=
  ((m.entries.filter (!0 < ·.exponent)).map Power.inverse).mergeSort Power.precedes

theorem above_congr {a b : Labels} (h : ∀ label, a.get label = b.get label) :
    a.above = b.above :=
  Power.mergeSort_eq_of_perm ((entries_perm h).filter _)

theorem below_congr {a b : Labels} (h : ∀ label, a.get label = b.get label) :
    a.below = b.below :=
  Power.mergeSort_eq_of_perm (((entries_perm h).filter _).map _)

/-- A label stands above the line if its exponent is positive. -/
theorem mem_above_iff {m : Labels} {label : String} :
    label ∈ m.above.map Power.label ↔ 0 < (m.get label).toInt := by
  constructor
  · intro h
    obtain ⟨p, hp, rfl⟩ := List.mem_map.mp h
    rw [above, List.mem_mergeSort, List.mem_filter, decide_eq_true_eq] at hp
    rw [get_of_mem hp.1]
    exact Exponent.pos_iff.mp hp.2
  · intro h
    have hne : m.get label ≠ 0 := fun h0 => by rw [h0] at h; exact absurd h (by decide)
    obtain ⟨p, hp, rfl⟩ := List.mem_map.mp (mem_labels_iff.mpr hne)
    refine List.mem_map.mpr ⟨p, ?_, rfl⟩
    rw [above, List.mem_mergeSort, List.mem_filter, decide_eq_true_eq, ← get_of_mem hp]
    exact ⟨hp, Exponent.pos_iff.mpr h⟩

/-- A label stands below the line if its exponent is negative. -/
theorem mem_below_iff {m : Labels} {label : String} :
    label ∈ m.below.map Power.label ↔ (m.get label).toInt < 0 := by
  have hnot : ∀ {p : Power}, p ∈ m.entries →
      ((!decide (0 < p.exponent)) = true ↔ (m.get p.label).toInt < 0) := by
    intro p hp
    -- a stored exponent is not zero, so what is not positive is negative
    have hne := toInt_ne_zero_of_mem hp
    rw [get_of_mem hp, Bool.not_eq_true', decide_eq_false_iff_not, Exponent.pos_iff]
    omega
  constructor
  · intro h
    obtain ⟨q, hq, rfl⟩ := List.mem_map.mp h
    rw [below, List.mem_mergeSort] at hq
    obtain ⟨p, hp, rfl⟩ := List.mem_map.mp hq
    rw [List.mem_filter] at hp
    exact (hnot hp.1).mp hp.2
  · intro h
    have hne : m.get label ≠ 0 := fun h0 => by rw [h0] at h; exact absurd h (by decide)
    obtain ⟨p, hp, rfl⟩ := List.mem_map.mp (mem_labels_iff.mpr hne)
    refine List.mem_map.mpr ⟨p.inverse, ?_, rfl⟩
    rw [below, List.mem_mergeSort]
    exact List.mem_map_of_mem (List.mem_filter.mpr ⟨hp, (hnot hp).mpr h⟩)

end Labels

/-! ## The text of both sides -/

namespace Settings

/-- Powers on one side of the line. -/
def joined (s : Settings) (ps : List Power) : String :=
  s.labelSeparator.intercalate (ps.map Power.text)

/-- Powers above and below the line. The line is left out if nothing is written below it. -/
def written (s : Settings) (above below : List Power) : String :=
  if (s.joined below).isEmpty then s.joined above
  else s.joined above ++ s.ratioSeparator ++ s.joined below

theorem labelsText_eq (s : Settings) (m : Labels) :
    s.labelsText m = s.written m.above m.below := rfl

/-- What a displayed ratio has behind its factor: nothing, or a space and the labels. -/
def labelPart (s : Settings) (r : Ratio) : String :=
  let labels := trimStart (s.written r.netLabels.above r.netLabels.below)
  if labels.isEmpty then "" else " " ++ labels

/-- A displayed ratio is its factor and its labels. -/
theorem ratioText_eq (s : Settings) (r : Ratio) :
    s.ratioText r = Display.factorText s.decimalPlaces r.quotient ++ s.labelPart r := by
  unfold ratioText labelPart
  rw [← labelsText_eq]
  by_cases h : (trimStart (s.labelsText r.netLabels)).isEmpty = true
  · simp only [h, if_true, String.append_empty]
  · simp only [h, if_false, Bool.false_eq_true, String.append_assoc]

/-- The label part depends on the net exponents only. -/
theorem labelPart_congr (s : Settings) {r r' : Ratio}
    (h : ∀ label, r.netLabels.get label = r'.netLabels.get label) :
    s.labelPart r = s.labelPart r' := by
  unfold labelPart
  rw [Labels.above_congr h, Labels.below_congr h]

end Settings

end FactorLabel
