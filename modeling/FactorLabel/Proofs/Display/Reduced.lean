import FactorLabel.Proofs.Labels.Checked
import FactorLabel.Proofs.Labels.Difference

/-!
# The text of a ratio in reduced form

A ratio is shown by cancelling, dividing the net labels into two lists, turning one of them over,
sorting both and putting the text together, with a scan at the end that takes a space away if
nothing stands above the line. Here the text is said without any of that. For each side there is a
list of labels with positive counts, and which labels are in it and in what order is decided by the
differences of exponents alone; the text is the factor with these lists behind it.
-/

namespace FactorLabel

open Text

/-- A label that can stand in a text: it is not empty, and nothing in it separates words. -/
def Solid (label : String) : Prop := label ≠ "" ∧ ∀ c ∈ label.toList, isBlank c = false

-- by a scan over the label, and not over all characters
instance : DecidablePred Solid := fun label =>
  decidable_of_iff (label ≠ "" ∧ label.toList.all (!isBlank ·) = true) (by simp [Solid])

/-! ## Counted labels -/

/-- A label and how often it counts on its side of the line. -/
@[ext]
structure Counted where
  label : String
  count : Nat
  deriving DecidableEq, Repr

namespace Counted

/-- The label, with its count behind a caret if that is above one. -/
def text (x : Counted) : String := Power.textOfMagnitude x.label x.count

/-- The label in lower case. -/
def sortName (x : Counted) : String := String.ofList (lowercase x.label.toList)

/-- The larger count stands in front. Among equal counts the alphabet decides, first without regard
to case and then with it. -/
def Before (x y : Counted) : Prop :=
  y.count < x.count
  ∨ x.count = y.count ∧ (x.sortName < y.sortName ∨ x.sortName = y.sortName ∧ x.label < y.label)

theorem Before.asymm {x y : Counted} (hxy : x.Before y) (hyx : y.Before x) : False := by
  rcases hxy with hcount | ⟨hcount, hxy⟩
  · rcases hyx with hcount' | ⟨hcount', -⟩ <;> omega
  · rcases hyx with hcount' | ⟨-, hyx⟩
    · omega
    · rcases hxy with hname | ⟨hname, hlabel⟩ <;> rcases hyx with hname' | ⟨hname', hlabel'⟩
      · exact String.lt_asymm hname hname'
      · exact String.lt_irrefl _ (hname' ▸ hname)
      · exact String.lt_irrefl _ (hname ▸ hname')
      · exact String.lt_asymm hlabel hlabel'

end Counted

/-- The list has every label with a positive number, once and with its number, and it is in
order. -/
structure Lists (number : String → Int) (xs : List Counted) : Prop where
  mem : ∀ x, x ∈ xs ↔ 0 < x.count ∧ number x.label = x.count
  once : (xs.map Counted.label).Nodup
  ordered : xs.Pairwise Counted.Before

theorem Lists.eq_nil_iff {number : String → Int} {xs : List Counted} (h : Lists number xs) :
    xs = [] ↔ ∀ label, number label ≤ 0 := by
  constructor
  · rintro rfl label
    by_contra hpos
    have hmem := (h.mem ⟨label, (number label).toNat⟩).mpr ⟨by simp; omega, by simp; omega⟩
    exact List.not_mem_nil hmem
  · intro hle
    refine List.eq_nil_iff_forall_not_mem.mpr fun x hx => ?_
    obtain ⟨hpos, hnumber⟩ := (h.mem x).mp hx
    have hx := hle x.label
    omega

/-- There is only one such list. -/
theorem Lists.unique {number : String → Int} {xs ys : List Counted} (hx : Lists number xs)
    (hy : Lists number ys) : xs = ys := by
  have hperm : xs.Perm ys :=
    (List.perm_ext_iff_of_nodup (hx.once.of_map _) (hy.once.of_map _)).mpr
      fun x => (hx.mem x).trans (hy.mem x).symm
  exact hperm.eq_of_pairwise (fun _ _ _ _ hxy hyx => (hxy.asymm hyx).elim) hx.ordered hy.ordered

namespace Power

/-- A power with a positive exponent, as a label and how often it counts. -/
def counted (p : Power) : Counted := ⟨p.label, p.exponent.toInt.toNat⟩

theorem text_counted {p : Power} (h : 0 < p.exponent.toInt) : p.counted.text = p.text :=
  (text_eq (Int.toNat_of_nonneg (Int.le_of_lt h)).symm).symm

/-- Sorted powers that differ are in strict order. -/
theorem before_of_precedes {p q : Power} (hp : 0 < p.exponent.toInt) (hq : 0 < q.exponent.toInt)
    (hprecedes : p.precedes q = true) (hne : p ≠ q) : p.counted.Before q.counted := by
  have hlt : p.order q = .lt := by
    cases horder : p.order q with
    | lt => rfl
    | eq =>
        have hswap : q.order p = (p.order q).swap := Std.OrientedCmp.eq_swap
        have hback : q.precedes p = true := by
          rw [precedes, hswap, horder]
          rfl
        exact absurd (eq_of_precedes hprecedes hback) hne
    | gt =>
        rw [precedes, horder] at hprecedes
        exact absurd hprecedes Bool.false_ne_true
  have hstring : ∀ s t : String, compare s t = .lt ↔ s < t := fun _ _ =>
    compareOfLessAndEq_eq_lt
  rw [order, Ordering.then_eq_lt, Ordering.then_eq_lt, Std.compare_eq_lt, hstring, hstring,
    Std.LawfulEqOrd.compare_eq_iff_eq, Std.LawfulEqOrd.compare_eq_iff_eq,
    Int64.lt_iff_toInt_lt] at hlt
  rcases hlt with hexp | ⟨hexp, hname⟩
  · refine .inl ?_
    show q.exponent.toInt.toNat < p.exponent.toInt.toNat
    omega
  · refine .inr ⟨?_, hname⟩
    show p.exponent.toInt.toNat = q.exponent.toInt.toNat
    rw [hexp]

end Power

/-- Sorted powers are a list of labels with their counts. -/
theorem lists_counted {number : String → Int} {ps : List Power}
    (hexp : ∀ p ∈ ps, 0 < p.exponent.toInt ∧ number p.label = p.exponent.toInt)
    (hall : ∀ label, 0 < number label → label ∈ ps.map Power.label)
    (honce : (ps.map Power.label).Nodup)
    (hsorted : ps.Pairwise fun p q => p.precedes q = true) :
    Lists number (ps.map Power.counted) where
  mem x := by
    constructor
    · intro hx
      obtain ⟨p, hp, rfl⟩ := List.mem_map.mp hx
      obtain ⟨hpos, hnumber⟩ := hexp p hp
      show 0 < p.exponent.toInt.toNat ∧ number p.label = ↑p.exponent.toInt.toNat
      omega
    · rintro ⟨hpos, hnumber⟩
      obtain ⟨p, hp, hlabel⟩ := List.mem_map.mp (hall x.label (by omega))
      have hexp' := (hexp p hp).2
      rw [hlabel, hnumber] at hexp'
      refine List.mem_map.mpr ⟨p, hp, ?_⟩
      rw [Power.counted, hlabel, ← hexp', Int.toNat_natCast]
  once := by
    rw [List.map_map]
    exact honce
  ordered := by
    have hdistinct : ps.Pairwise (· ≠ ·) :=
      (List.pairwise_map.mp honce).imp fun hne heq => hne (congrArg _ heq)
    rw [List.pairwise_map]
    refine (hsorted.and hdistinct).imp_of_mem fun {p q} hp hq hpq => ?_
    exact Power.before_of_precedes (hexp p hp).1 (hexp q hq).1 hpq.1 hpq.2

/-! ## The two sides -/

namespace Labels

/-- Every power can be turned over: none has the smallest exponent. -/
def Reversible (m : Labels) : Prop := ∀ p ∈ m.entries, p.exponent ≠ Int64.minValue

instance : DecidablePred Reversible := fun m =>
  inferInstanceAs (Decidable (∀ p ∈ m.entries, p.exponent ≠ Int64.minValue))

variable {m : Labels}

theorem Reversible.le (h : m.Reversible) (label : String) :
    -Exponent.largest.toInt ≤ (m.get label).toInt := by
  have hne : m.get label ≠ Int64.minValue :=
    forall_get (P := (· ≠ Int64.minValue)) (by decide) h label
  have hmin := Exponent.toInt_minValue
  have hlo := Int64.minValue_le_toInt (m.get label)
  rw [Ne, ← Int64.toInt_inj] at hne
  omega

theorem mem_labels_of_mem_side {p : Power} (hp : p ∈ m.above ∨ p ∈ m.below) :
    p.label ∈ m.labels := by
  refine mem_labels_iff.mpr fun hzero => ?_
  rcases hp with hp | hp
  · have hpos := (exponent_of_mem_above hp).2
    rw [hzero] at hpos
    exact absurd hpos (by decide)
  · have hneg := (exponent_of_mem_below hp).2
    rw [hzero] at hneg
    exact absurd hneg (by decide)

theorem nodup_above (m : Labels) : (m.above.map Power.label).Nodup := by
  have hperm := (List.mergeSort_perm (m.entries.filter (0 < ·.exponent)) Power.precedes).map
    Power.label
  exact hperm.nodup_iff.mpr (m.distinct.sublist (List.filter_sublist.map _))

theorem nodup_below (m : Labels) : (m.below.map Power.label).Nodup := by
  have hperm := (List.mergeSort_perm ((m.entries.filter (!0 < ·.exponent)).map Power.inverse)
    Power.precedes).map Power.label
  rw [List.map_map] at hperm
  exact hperm.nodup_iff.mpr (m.distinct.sublist (List.filter_sublist.map _))

theorem lists_above (m : Labels) :
    Lists (fun label => (m.get label).toInt) (m.above.map Power.counted) := by
  refine lists_counted (fun p hp => ?_) (fun label h => mem_above_iff.mpr h) m.nodup_above
    (Power.pairwise_mergeSort _)
  obtain ⟨hexp, hpos⟩ := exponent_of_mem_above hp
  rw [hexp]
  exact ⟨hpos, rfl⟩

theorem Reversible.toInt_of_mem_below (h : m.Reversible) {p : Power} (hp : p ∈ m.below) :
    0 < p.exponent.toInt ∧ -(m.get p.label).toInt = p.exponent.toInt := by
  obtain ⟨hexp, hneg⟩ := exponent_of_mem_below hp
  rw [hexp, Exponent.toInt_neg (h.le p.label)]
  omega

/-- What stands on a side of the line counts on it. -/
theorem Reversible.pos_of_mem_side (h : m.Reversible) {p : Power}
    (hp : p ∈ m.above ∨ p ∈ m.below) : 0 < p.exponent.toInt := by
  rcases hp with hp | hp
  · obtain ⟨hexp, hpos⟩ := exponent_of_mem_above hp
    rw [hexp]
    exact hpos
  · exact (h.toInt_of_mem_below hp).1

theorem Reversible.lists_below (h : m.Reversible) :
    Lists (fun label => -(m.get label).toInt) (m.below.map Power.counted) := by
  refine lists_counted (fun p hp => h.toInt_of_mem_below hp)
    (fun label hpos => mem_below_iff.mpr (by omega)) m.nodup_below (Power.pairwise_mergeSort _)

/-- What is left when labels cancel was on one of the sides. -/
theorem mem_labels_of_cancel {a b : Labels} {label : String} (h : label ∈ (a.cancel b).labels) :
    label ∈ a.labels ∨ label ∈ b.labels := by
  rw [mem_labels_iff, get_cancel, Ne, Exponent.sub_eq_zero_iff] at h
  rw [mem_labels_iff, mem_labels_iff]
  by_cases hzero : a.get label = 0
  · refine .inr fun hzero' => h ?_
    rw [hzero, hzero']
  · exact .inl hzero

theorem Subtractable.reversible {a b : Labels} (h : Subtractable a b) :
    (a.cancel b).Reversible := by
  intro p hp hmin
  have hnet := h.toInt_get_cancel p.label
  have hlo := (h p.label).1
  rw [get_of_mem hp, hmin] at hnet
  omega

end Labels

/-! ## The text -/

namespace Settings

/-- Counted labels with the separator between them. -/
def joinedCounts (s : Settings) (xs : List Counted) : String :=
  s.labelSeparator.intercalate (xs.map Counted.text)

/-- Counted labels behind `lead`, or nothing if there are none. -/
def behind (s : Settings) (lead : String) (xs : List Counted) : String :=
  if xs.isEmpty then "" else lead ++ s.joinedCounts xs

theorem joined_eq (s : Settings) {ps : List Power} (h : ∀ p ∈ ps, 0 < p.exponent.toInt) :
    s.joined ps = s.joinedCounts (ps.map Power.counted) := by
  rw [joined, joinedCounts, List.map_map]
  congr 1
  exact List.map_congr_left fun p hp => (Power.text_counted (h p hp)).symm

theorem joinedCounts_cons (s : Settings) (x : Counted) (xs : List Counted) :
    ∃ rest, (s.joinedCounts (x :: xs)).toList = x.label.toList ++ rest := by
  have htext : ∃ rest, x.text.toList = x.label.toList ++ rest := by
    rw [Counted.text, Power.textOfMagnitude]
    split
    · rw [String.append_assoc, String.toList_append]
      exact ⟨_, rfl⟩
    · exact ⟨[], (List.append_nil _).symm⟩
  obtain ⟨rest, hrest⟩ := htext
  rw [joinedCounts, String.toList_intercalate, List.map_cons, List.map_cons, hrest]
  cases (xs.map Counted.text).map String.toList with
  | nil => exact ⟨rest, List.intercalate_singleton⟩
  | cons y ys =>
      rw [List.intercalate_cons_cons, List.append_assoc, List.append_assoc]
      exact ⟨_, rfl⟩

/-- A text that starts with labels has no space in front of it. -/
theorem trimStart_counts (s : Settings) {x : Counted} (hx : Solid x.label) (xs : List Counted)
    (t : String) : trimStart (s.joinedCounts (x :: xs) ++ t) = s.joinedCounts (x :: xs) ++ t
      ∧ (s.joinedCounts (x :: xs) ++ t).isEmpty = false := by
  obtain ⟨hne, hsolid⟩ := hx
  obtain ⟨rest, hrest⟩ := s.joinedCounts_cons x xs
  cases hlabel : x.label.toList with
  | nil => exact absurd (String.toList_eq_nil_iff.mp hlabel) hne
  | cons c label =>
      have hc : isBlank c = false := hsolid c (hlabel ▸ List.mem_cons_self)
      have htext : (s.joinedCounts (x :: xs) ++ t).toList = c :: (label ++ rest ++ t.toList) := by
        rw [String.toList_append, hrest, hlabel, List.cons_append, List.cons_append]
      constructor
      · rw [trimStart, htext, List.dropWhile_cons_of_neg (by simp [hc]), ← htext,
          String.ofList_toList]
      · refine String.isEmpty_eq_false_iff.mpr fun hempty => ?_
        rw [hempty] at htext
        exact List.cons_ne_nil _ _ htext.symm

/-- Where nothing stands above the line, the line loses the space in front of it. -/
theorem trimStart_line (t : String) : trimStart (" / " ++ t) = "/ " ++ t := by
  have hblank : isBlank ' ' = true := by decide
  have hsolid : isBlank '/' = false := by decide
  apply String.toList_inj.mp
  rw [trimStart, String.toList_ofList, String.toList_append, String.toList_append]
  show (' ' :: '/' :: ' ' :: t.toList).dropWhile isBlank = '/' :: ' ' :: t.toList
  rw [List.dropWhile_cons_of_pos hblank, List.dropWhile_cons_of_neg (by simp [hsolid])]

/-- **Spaces and lines.** The text of both sides behind a space, without a space too many, is one
space in front of the labels above the line, and the line in front of those below it. -/
theorem trimStart_sides (s : Settings) (hline : s.ratioSeparator = " / ")
    {upper lower : List Counted} (hupper : ∀ x ∈ upper, Solid x.label)
    (hlower : ∀ x ∈ lower, Solid x.label) :
    (let labels := trimStart (if (s.joinedCounts lower).isEmpty then s.joinedCounts upper
        else s.joinedCounts upper ++ s.ratioSeparator ++ s.joinedCounts lower)
      if labels.isEmpty then "" else " " ++ labels)
      = s.behind " " upper ++ s.behind " / " lower := by
  have hempty : (s.joinedCounts []).isEmpty = true := rfl
  cases lower with
  | nil =>
      simp only [hempty, if_true]
      cases upper with
      | nil => rfl
      | cons x xs =>
          obtain ⟨htrim, hne⟩ := s.trimStart_counts (hupper x List.mem_cons_self) xs ""
          rw [String.append_empty] at htrim hne
          rw [htrim, hne]
          exact (String.append_empty).symm
  | cons y ys =>
      have hlower := (s.trimStart_counts (hlower y List.mem_cons_self) ys "").2
      rw [String.append_empty] at hlower
      simp only [hlower, Bool.false_eq_true, if_false, hline, String.append_assoc]
      cases upper with
      | nil =>
          have hlabels : s.joinedCounts [] ++ (" / " ++ s.joinedCounts (y :: ys))
              = " / " ++ s.joinedCounts (y :: ys) := String.empty_append
          have hne : ("/ " ++ s.joinedCounts (y :: ys)).isEmpty = false :=
            String.isEmpty_eq_false_iff.mpr fun h =>
              absurd (String.append_eq_empty_iff.mp h).1 (by decide)
          rw [hlabels, trimStart_line, hne, behind, behind, List.isEmpty_nil, List.isEmpty_cons,
            if_pos rfl, String.empty_append, if_neg Bool.false_ne_true, if_neg Bool.false_ne_true,
            ← String.append_assoc]
          rfl
      | cons x xs =>
          obtain ⟨htrim, hne⟩ := s.trimStart_counts (hupper x List.mem_cons_self) xs
            (" / " ++ s.joinedCounts (y :: ys))
          rw [htrim, hne]
          simp only [behind, List.isEmpty_cons, Bool.false_eq_true, if_false, String.append_assoc]

end Settings

/-! ## Reduced ratios -/

namespace Ratio

/-- How often a label is left over once both sides are cancelled. It is negative below the line. -/
def netCount (r : Ratio) (label : String) : Int :=
  ((r.labelsOn .numerator).get label).toInt - ((r.labelsOn .denominator).get label).toInt

/-- Labels on the sides of the line come from the two sides of the ratio. -/
theorem solid_of_mem_side {r : Ratio}
    (hsolid : ∀ side, ∀ label ∈ (r.labelsOn side).labels, Solid label) {p : Power}
    (hp : p ∈ r.netLabels.above ∨ p ∈ r.netLabels.below) : Solid p.label := by
  rcases Labels.mem_labels_of_cancel (Labels.mem_labels_of_mem_side hp) with h | h
  · exact hsolid .numerator p.label h
  · exact hsolid .denominator p.label h

section

variable {r : Ratio} (hnet : (r.labelsOn .numerator).Subtractable (r.labelsOn .denominator))

include hnet

theorem toInt_get_netLabels (label : String) : (r.netLabels.get label).toInt = r.netCount label :=
  hnet.toInt_get_cancel label

theorem lists_above : Lists r.netCount (r.netLabels.above.map Power.counted) := by
  have hcount : (fun label => (r.netLabels.get label).toInt) = r.netCount :=
    funext (toInt_get_netLabels hnet)
  rw [← hcount]
  exact r.netLabels.lists_above

theorem lists_below :
    Lists (fun label => -r.netCount label) (r.netLabels.below.map Power.counted) := by
  have hcount : (fun label => -(r.netLabels.get label).toInt) = fun label => -r.netCount label :=
    funext fun label => congrArg Neg.neg (toInt_get_netLabels hnet label)
  rw [← hcount]
  exact hnet.reversible.lists_below

/-- The label part is the counted labels of both sides. -/
theorem labelPart_eq (hsolid : ∀ side, ∀ label ∈ (r.labelsOn side).labels, Solid label)
    {s : Settings} (hline : s.ratioSeparator = " / ") :
    s.labelPart r = s.behind " " (r.netLabels.above.map Power.counted)
      ++ s.behind " / " (r.netLabels.below.map Power.counted) := by
  have hrev : r.netLabels.Reversible := hnet.reversible
  have habove := s.joined_eq fun p hp => hrev.pos_of_mem_side (.inl hp)
  have hbelow := s.joined_eq fun p hp => hrev.pos_of_mem_side (.inr hp)
  rw [Settings.labelPart, Settings.written, habove, hbelow]
  refine s.trimStart_sides hline (fun x hx => ?_) fun x hx => ?_
  · obtain ⟨p, hp, rfl⟩ := List.mem_map.mp hx
    exact solid_of_mem_side hsolid (.inl hp)
  · obtain ⟨p, hp, rfl⟩ := List.mem_map.mp hx
    exact solid_of_mem_side hsolid (.inr hp)

end

/--
**A ratio is shown in reduced form.**

The text is the quotient of the factors, rounded, and behind it the labels that are left over. Those
that are left over above the line stand there, and those below it stand behind ` / `, each of them
once and with how often it is left over. The larger counts come first, and then the alphabet
decides. A side that nothing is left over on is not written, and a line that nothing stands below
is not either; if there are no labels left, the text is the number alone, and if there are none
above the line, one space stands in front of it.
-/
theorem ratioText_reduced (r : Ratio) (places : Nat)
    (hsolid : ∀ side, ∀ label ∈ (r.labelsOn side).labels, Solid label)
    (hnet : (r.labelsOn .numerator).Subtractable (r.labelsOn .denominator)) :
    ∃ upper lower : List Counted,
      Lists r.netCount upper
      ∧ Lists (fun label => -r.netCount label) lower
      ∧ (upper = [] ↔ ∀ label, r.netCount label ≤ 0)
      ∧ (lower = [] ↔ ∀ label, 0 ≤ r.netCount label)
      ∧ let s : Settings := { decimalPlaces := places }
        let factor := Display.factorText places
          (r.factorOn .numerator / r.factorOn .denominator)
        s.ratioText r = factor ++ s.behind " " upper ++ s.behind " / " lower
        ∧ ((∀ label, r.netCount label = 0) → s.ratioText r = factor) := by
  have habove := lists_above hnet
  have hbelow := lists_below hnet
  refine ⟨_, _, habove, hbelow, habove.eq_nil_iff, hbelow.eq_nil_iff.trans ?_, ?_⟩
  · exact forall_congr' fun label => Int.neg_nonpos_iff _
  · intro s factor
    have htext : s.ratioText r = factor ++ s.behind " " (r.netLabels.above.map Power.counted)
        ++ s.behind " / " (r.netLabels.below.map Power.counted) := by
      rw [Settings.ratioText_eq, labelPart_eq hnet hsolid rfl, ← String.append_assoc]
      rfl
    refine ⟨htext, fun hzero => ?_⟩
    rw [htext, habove.eq_nil_iff.mpr fun label => Int.le_of_eq (hzero label),
      hbelow.eq_nil_iff.mpr fun label => by rw [hzero]; rfl]
    show factor ++ "" ++ "" = factor
    rw [String.append_empty, String.append_empty]

/-- Three seconds over two squared hours and squared seconds. -/
def secondsPerSquares : Ratio :=
  ⟨⟨3, Labels.empty.add "s" 1⟩, some ⟨2, (Labels.empty.add "s" 2).add "h" 2⟩⟩

theorem netCount_seconds (label : String) :
    secondsPerSquares.netCount label
      = if label = "h" then -2 else if label = "s" then -1 else 0 := by
  show ((Labels.empty.add "s" 1).get label).toInt
    - (((Labels.empty.add "s" 2).add "h" 2).get label).toInt = _
  by_cases hh : label = "h"
  · rw [hh]
    decide
  · by_cases hs : label = "s"
    · rw [hs]
      decide
    · rw [Labels.get_add, Labels.get_add, Labels.get_add, Labels.get_empty, if_neg hs, if_neg hs,
        if_neg hh, if_neg hh, if_neg hs]
      rfl

/-- One second cancels, and nothing is left above the line. -/
theorem ratioText_reduced_seconds :
    (∀ side, ∀ label ∈ (secondsPerSquares.labelsOn side).labels, Solid label)
    ∧ (secondsPerSquares.labelsOn .numerator).Subtractable (secondsPerSquares.labelsOn .denominator)
    ∧ Lists secondsPerSquares.netCount []
    ∧ Lists (fun label => -secondsPerSquares.netCount label) [⟨"h", 2⟩, ⟨"s", 1⟩]
    ∧ Settings.default.ratioText secondsPerSquares = "1.5 / h^2 • s" := by
  have hsolid : ∀ side, ∀ label ∈ (secondsPerSquares.labelsOn side).labels, Solid label := by
    intro side
    cases side <;> decide
  have hnet : (secondsPerSquares.labelsOn .numerator).Subtractable
      (secondsPerSquares.labelsOn .denominator) := by
    intro label
    show _ < secondsPerSquares.netCount label ∧ secondsPerSquares.netCount label ≤ _
    rw [netCount_seconds]
    split
    · decide
    · split <;> decide
  have hseconds : Lists (fun label => -secondsPerSquares.netCount label)
      [⟨"h", 2⟩, ⟨"s", 1⟩] := by
    refine ⟨fun x => ?_, by decide, List.pairwise_pair.mpr (.inl (by decide))⟩
    rw [netCount_seconds, List.mem_pair]
    constructor
    · rintro (rfl | rfl) <;> decide
    · rintro ⟨hpos, hnumber⟩
      split at hnumber
      · rename_i hh
        exact .inl (Counted.ext hh (Int.ofNat_inj.mp hnumber.symm))
      · split at hnumber
        · rename_i hs
          exact .inr (Counted.ext hs (Int.ofNat_inj.mp hnumber.symm))
        · exact absurd hnumber (by omega)
  obtain ⟨upper, lower, hupper, hlower, hnil, -, htext, -⟩ :=
    ratioText_reduced secondsPerSquares 2 hsolid hnet
  have hempty : upper = [] := by
    refine hnil.mpr fun label => ?_
    rw [netCount_seconds]
    split
    · decide
    · split <;> decide
  have hfactor : Display.factorText 2 (secondsPerSquares.factorOn .numerator
      / secondsPerSquares.factorOn .denominator) = "1.5" := by decide +kernel
  rw [hempty] at hupper
  rw [hfactor, hempty, hlower.unique hseconds] at htext
  exact ⟨hsolid, hnet, hupper, hseconds, htext.trans (by decide +kernel)⟩

end Ratio

end FactorLabel
