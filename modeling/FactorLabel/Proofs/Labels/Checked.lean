import FactorLabel.Proofs.Display.Sides
import FactorLabel.Proofs.Labels.History
import FactorLabel.Proofs.Ratio.Running
import FactorLabel.Proofs.Text.Scan

/-!
# Exponents within the range

Sums of exponents stop at the end of the range, but the difference that is taken when labels
cancel and the negation that turns a power over do not: past the range they would wrap round.
Here both are done once more with a check, and a text that needs a number past the range is no
text at all.

Where no exponent of a ratio is negative the checks never fail. The differences are no larger than
the largest exponent in either direction, and the smallest exponent, the one that cannot be
negated, is no such difference.
-/

namespace FactorLabel

/-! ## Checked arithmetic -/

namespace Exponent

/-- The exponent that a whole number is, if it is in the range. -/
def ofInt? (n : Int) : Option Exponent :=
  if Int64.minValue.toInt ≤ n ∧ n ≤ Int64.maxValue.toInt then some (Int64.ofInt n) else none

/-- The difference, if it is in the range. -/
def sub? (a b : Exponent) : Option Exponent := ofInt? (a.toInt - b.toInt)

/-- The negative, if it is in the range. -/
def neg? (a : Exponent) : Option Exponent := ofInt? (-a.toInt)

/-- Only the smallest exponent has no negative. -/
theorem toInt_neg {a : Exponent} (h : -largest.toInt ≤ a.toInt) : (-a).toInt = -a.toInt := by
  have hle := toInt_le a
  rw [toInt_largest] at h hle
  rw [Int64.toInt_neg]
  exact Int.bmod_eq_of_le (by omega) (by omega)

theorem ofInt?_of_toInt {a : Exponent} {n : Int} (h : a.toInt = n) : ofInt? n = some a := by
  rw [← h, ofInt?, if_pos ⟨Int64.minValue_le_toInt a, Int64.toInt_le a⟩, Int64.ofInt_toInt]

theorem sub?_eq {a b : Exponent} (hlo : -largest.toInt ≤ a.toInt - b.toInt)
    (hhi : a.toInt - b.toInt ≤ largest.toInt) : sub? a b = some (a - b) :=
  ofInt?_of_toInt (toInt_sub hlo hhi)

theorem neg?_eq {a : Exponent} (h : -largest.toInt ≤ a.toInt) : neg? a = some (-a) :=
  ofInt?_of_toInt (toInt_neg h)

end Exponent

namespace Power

/-- The power turned over, if its exponent has a negative. -/
def inverse? (p : Power) : Option Power := p.exponent.neg?.map fun n => ⟨p.label, n⟩

/-- A label with the given magnitude behind a caret, if that is above one. -/
def textOfMagnitude (label : String) (n : Nat) : String :=
  if 1 < n then label ++ "^" ++ String.ofList (Number.decimalText n) else label

theorem text_eq {p : Power} {n : Nat} (h : p.exponent.toInt = n) :
    p.text = textOfMagnitude p.label n := by
  have hone : (1 : Exponent).toInt = 1 := by decide
  have hiff : 1 < p.exponent ↔ 1 < n := by
    rw [Int64.lt_iff_toInt_lt, hone, h]
    omega
  simp only [text, textOfMagnitude, hiff, h, Int.toNat_natCast]

end Power

namespace Labels

/-- The net exponents, if every difference that is taken is in the range. -/
def cancel? (numerator denominator : Labels) : Option Labels :=
  (numerator.labels ++ denominator.labels).foldlM
    (fun net label =>
      if net.contains label then some net
      else ((numerator.get label).sub? (denominator.get label)).map (net.set label))
    empty

/-- Where no difference passes the range, checking changes nothing. -/
theorem cancel?_eq {a b : Labels}
    (h : ∀ label, (a.get label).sub? (b.get label) = some (a.get label - b.get label)) :
    a.cancel? b = some (a.cancel b) := by
  have hstep : (fun (net : Labels) label => if net.contains label then some net
      else ((a.get label).sub? (b.get label)).map (net.set label))
        = fun net label => some (cancelStep a b net label) := by
    funext net label
    rw [h, cancelStep]
    split <;> rfl
  rw [cancel?, hstep, cancel_eq]
  exact List.foldlM_pure

/-- Above the line a power keeps its exponent. -/
theorem exponent_of_mem_above {m : Labels} {p : Power} (hp : p ∈ m.above) :
    p.exponent = m.get p.label ∧ 0 < (m.get p.label).toInt := by
  have hpos := mem_above_iff.mp (List.mem_map_of_mem hp)
  rw [above, List.mem_mergeSort, List.mem_filter] at hp
  exact ⟨(get_of_mem hp.1).symm, hpos⟩

/-- Below the line a power is turned over. -/
theorem exponent_of_mem_below {m : Labels} {p : Power} (hp : p ∈ m.below) :
    p.exponent = -m.get p.label ∧ (m.get p.label).toInt < 0 := by
  have hneg := mem_below_iff.mp (List.mem_map_of_mem hp)
  rw [below, List.mem_mergeSort] at hp
  obtain ⟨q, hq, rfl⟩ := List.mem_map.mp hp
  have hget : m.get q.inverse.label = q.exponent := get_of_mem (List.mem_of_mem_filter hq)
  refine ⟨?_, hneg⟩
  rw [hget]
  rfl

end Labels

/-! ## Checked texts -/

namespace Settings

/-- The text of labels, if every power below the line can be turned over. -/
def labelsText? (s : Settings) (m : Labels) : Option String :=
  ((m.entries.filter (!0 < ·.exponent)).mapM Power.inverse?).map fun turned =>
    let above := s.sideText (m.entries.filter (0 < ·.exponent))
    let below := s.sideText turned
    if below.isEmpty then above else above ++ s.ratioSeparator ++ below

/-- The text of a ratio, if no exponent passes the range on the way to it. -/
def ratioText? (s : Settings) (r : Ratio) : Option String := do
  let net ← r.numerator.labels.cancel? r.denominatorLabels
  let labels ← s.labelsText? net
  let factor := Display.factorText s.decimalPlaces r.quotient
  let labels := trimStart labels
  return if labels.isEmpty then factor else factor ++ " " ++ labels

/-- The text of a chain, if no exponent passes the range on the way to it. -/
def chainText? (s : Settings) (rs : List Ratio) : Option String :=
  (rs.mapM s.ratioText?).map fun texts => String.join (texts.map fun t => "(" ++ t ++ ")")

theorem labelsText?_eq (s : Settings) {m : Labels}
    (h : ∀ p ∈ m.entries, -Exponent.largest.toInt ≤ p.exponent.toInt) :
    s.labelsText? m = some (s.labelsText m) := by
  have hturned : (m.entries.filter (!0 < ·.exponent)).mapM Power.inverse?
      = some ((m.entries.filter (!0 < ·.exponent)).map Power.inverse) := by
    refine Text.mapM_eq_pure_map fun p hp => ?_
    rw [Power.inverse?, Exponent.neg?_eq (h p (List.mem_of_mem_filter hp))]
    rfl
  rw [labelsText?, hturned]
  rfl

end Settings

/-! ## Ratios -/

namespace Ratio

/-- Nothing that the text of the ratio is made of passes the range, neither a difference nor the
negation of a net exponent. So every power is written with the magnitude of its net exponent. -/
structure WithinRange (r : Ratio) : Prop where
  difference : ∀ label, -Exponent.largest.toInt
      ≤ (r.numerator.labels.get label).toInt - (r.denominatorLabels.get label).toInt
    ∧ (r.numerator.labels.get label).toInt - (r.denominatorLabels.get label).toInt
      ≤ Exponent.largest.toInt
  net : ∀ label, (r.netLabels.get label).toInt
    = (r.numerator.labels.get label).toInt - (r.denominatorLabels.get label).toInt
  turned : ∀ p ∈ r.netLabels.entries, p.inverse.exponent.toInt = -p.exponent.toInt
  /-- The text of the labels is that of the powers above the line and of those below it. -/
  text : ∀ s : Settings, s.labelsText r.netLabels = s.written r.netLabels.above r.netLabels.below
  written : ∀ p ∈ r.netLabels.above ++ r.netLabels.below,
    p.text = Power.textOfMagnitude p.label (r.netLabels.get p.label).toInt.natAbs
  /-- With a check at every difference and negation the text is the same. -/
  checked : ∀ s : Settings, s.ratioText? r = some (s.ratioText r)

/-- **Exponents that are not negative stay within the range.** -/
theorem withinRange_of_nonneg {r : Ratio}
    (h : ∀ s label, 0 ≤ ((r.labelsOn s).get label).toInt) : r.WithinRange := by
  have hnum : ∀ label, 0 ≤ (r.numerator.labels.get label).toInt := h .numerator
  have hden : ∀ label, 0 ≤ (r.denominatorLabels.get label).toInt := h .denominator
  have hdiff : ∀ label, -Exponent.largest.toInt
        ≤ (r.numerator.labels.get label).toInt - (r.denominatorLabels.get label).toInt
      ∧ (r.numerator.labels.get label).toInt - (r.denominatorLabels.get label).toInt
        ≤ Exponent.largest.toInt := by
    intro label
    have hnumle := Exponent.toInt_le (r.numerator.labels.get label)
    have hdenle := Exponent.toInt_le (r.denominatorLabels.get label)
    have hn := hnum label
    have hd := hden label
    omega
  have hnet : ∀ label, (r.netLabels.get label).toInt
      = (r.numerator.labels.get label).toInt - (r.denominatorLabels.get label).toInt :=
    fun label => Labels.toInt_get_cancel (hnum label) (hden label)
  -- so the smallest exponent is not among the net ones
  have hentries : ∀ p ∈ r.netLabels.entries, -Exponent.largest.toInt ≤ p.exponent.toInt := by
    intro p hp
    rw [← Labels.get_of_mem hp, hnet]
    exact (hdiff p.label).1
  refine ⟨hdiff, hnet, fun p hp => Exponent.toInt_neg (hentries p hp),
    fun s => s.labelsText_eq r.netLabels, fun p hp => ?_, fun s => ?_⟩
  · rcases List.mem_append.mp hp with hp | hp
    · obtain ⟨hexp, hpos⟩ := Labels.exponent_of_mem_above hp
      refine Power.text_eq ?_
      rw [hexp]
      omega
    · obtain ⟨hexp, hneg⟩ := Labels.exponent_of_mem_below hp
      have hlo := (hdiff p.label).1
      rw [← hnet] at hlo
      refine Power.text_eq ?_
      rw [hexp, Exponent.toInt_neg hlo]
      omega
  · have hcancel := Labels.cancel?_eq (a := r.numerator.labels) (b := r.denominatorLabels)
      fun label => Exponent.sub?_eq (hdiff label).1 (hdiff label).2
    have hlabels := s.labelsText?_eq hentries
    rw [netLabels] at hlabels
    rw [Settings.ratioText?, hcancel]
    simp only [bind, Option.bind, hlabels, pure]
    rfl

end Ratio

end FactorLabel
