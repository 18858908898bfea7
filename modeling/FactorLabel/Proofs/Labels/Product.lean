import FactorLabel.Proofs.Labels.Difference
import FactorLabel.Proofs.Labels.Equality

/-!
# Products of maps

A product adds exponents label by label, so its laws are those of a sum that stops at the ends of
the range. Such a sum does not care for the order of its two terms, and zero adds nothing. But what
is cut off is lost, and so it can matter which two of three terms are added first: if two of them
leave the range, their sum has stopped at its end, and a third one that leads back into the range
starts from there. In no other way can the two groupings differ. Hence they agree where nothing is
cut off, and where no exponent is negative, since then nothing ever leads back.

All of this is about exponents. A label that goes out and comes in again stands at the end, so equal
products may well have their entries in different orders. Only the product with the empty map keeps
the order.
-/

namespace FactorLabel

namespace Exponent

theorem saturatingAdd_comm (a b : Exponent) : a.saturatingAdd b = b.saturatingAdd a := by
  rw [saturatingAdd, saturatingAdd, Int.add_comm]

/-- A sum is in the range, or it has stopped at the end that it passes. -/
theorem saturatingAdd_cases (a b : Exponent) :
    (Int64.minValue.toInt ≤ a.toInt + b.toInt ∧ a.toInt + b.toInt ≤ Int64.maxValue.toInt
      ∧ (a.saturatingAdd b).toInt = a.toInt + b.toInt)
    ∨ (Int64.maxValue.toInt < a.toInt + b.toInt
      ∧ (a.saturatingAdd b).toInt = Int64.maxValue.toInt)
    ∨ (a.toInt + b.toInt < Int64.minValue.toInt
      ∧ (a.saturatingAdd b).toInt = Int64.minValue.toInt) := by
  have hle : Int64.minValue.toInt ≤ Int64.maxValue.toInt := by decide
  rw [toInt_saturatingAdd_eq]
  omega

/-- The sum `n` is past an end of the range, and `c` leads back from there. -/
def LeadsBack (n : Int) (c : Exponent) : Prop :=
  (Int64.maxValue.toInt < n ∧ c.toInt < 0) ∨ (n < Int64.minValue.toInt ∧ 0 < c.toInt)

theorem saturatingAdd_assoc {a b c : Exponent} (hleft : ¬ LeadsBack (a.toInt + b.toInt) c)
    (hright : ¬ LeadsBack (b.toInt + c.toInt) a) :
    (a.saturatingAdd b).saturatingAdd c = a.saturatingAdd (b.saturatingAdd c) := by
  have ha := And.intro (Int64.minValue_le_toInt a) (Int64.toInt_le a)
  have hc := And.intro (Int64.minValue_le_toInt c) (Int64.toInt_le c)
  unfold LeadsBack at hleft hright
  rw [← Int64.toInt_inj, toInt_saturatingAdd_eq (a.saturatingAdd b),
    toInt_saturatingAdd_eq a (b.saturatingAdd c)]
  -- each of the two sums is in the range or past one of its ends
  rcases saturatingAdd_cases a b with hab | hab | hab <;>
    rcases saturatingAdd_cases b c with hbc | hbc | hbc <;> omega

/-- A sum that has stopped ends up elsewhere than one that has not. -/
theorem LeadsBack.ne {a b c : Exponent} (h : LeadsBack (a.toInt + b.toInt) c) :
    (a.saturatingAdd b).saturatingAdd c ≠ a.saturatingAdd (b.saturatingAdd c) := by
  have hmin : Int64.minValue.toInt = -2 ^ 63 := by decide
  have hmax : Int64.maxValue.toInt = 2 ^ 63 - 1 := by decide
  have ha := And.intro (Int64.minValue_le_toInt a) (Int64.toInt_le a)
  have hb := And.intro (Int64.minValue_le_toInt b) (Int64.toInt_le b)
  have hc := And.intro (Int64.minValue_le_toInt c) (Int64.toInt_le c)
  unfold LeadsBack at h
  -- two exponents with a sum past an end have the same sign, and the third has the other one
  have hrest := toInt_saturatingAdd_of_le (a := b) (b := c) (by omega) (by omega)
  rw [Ne, ← Int64.toInt_inj, toInt_saturatingAdd_eq (a.saturatingAdd b),
    toInt_saturatingAdd_eq a (b.saturatingAdd c), hrest]
  rcases saturatingAdd_cases a b with hab | hab | hab
  · omega
  · omega
  · omega

/-- **What is cut off is lost.** Three exponents have one sum, unless two neighbours leave the range
and the third leads back into it. -/
theorem saturatingAdd_assoc_iff {a b c : Exponent} :
    (a.saturatingAdd b).saturatingAdd c = a.saturatingAdd (b.saturatingAdd c)
      ↔ ¬ LeadsBack (a.toInt + b.toInt) c ∧ ¬ LeadsBack (b.toInt + c.toInt) a := by
  constructor
  · intro h
    refine ⟨fun hleft => hleft.ne h, fun hright => ?_⟩
    -- read from the right
    rw [Int.add_comm] at hright
    refine hright.ne ?_
    rw [saturatingAdd_comm c b, saturatingAdd_comm _ a, ← h, saturatingAdd_comm _ c,
      saturatingAdd_comm a b]
  · rintro ⟨hleft, hright⟩
    exact saturatingAdd_assoc hleft hright

theorem not_leadsBack_of_nonneg {n : Int} {c : Exponent} (hn : 0 ≤ n) (hc : 0 ≤ c.toInt) :
    ¬ LeadsBack n c := by
  have hmin : Int64.minValue.toInt < 0 := by decide
  unfold LeadsBack
  omega

theorem not_leadsBack_of_le {n : Int} (c : Exponent) (hlo : Int64.minValue.toInt ≤ n)
    (hhi : n ≤ Int64.maxValue.toInt) : ¬ LeadsBack n c := by
  unfold LeadsBack
  omega

end Exponent

namespace Labels

variable {a b c : Labels}

theorem one_mul (a : Labels) : 1 * a = a := a.ofList_entries

theorem mul_one (a : Labels) : a * 1 = a := rfl

theorem mul_comm_beq (a b : Labels) : (a * b == b * a) = true := by
  refine beq_of_get fun label => ?_
  rw [get_mul, get_mul, Exponent.saturatingAdd_comm]

/-- Products can be regrouped if the sums of exponents can, label by label. -/
theorem mul_assoc_beq_iff : ((a * b) * c == a * (b * c)) = true ↔ ∀ label,
    ¬ Exponent.LeadsBack ((a.get label).toInt + (b.get label).toInt) (c.get label)
    ∧ ¬ Exponent.LeadsBack ((b.get label).toInt + (c.get label).toInt) (a.get label) := by
  simp only [beq_iff_get, get_mul, Exponent.saturatingAdd_assoc_iff]

theorem get_nonneg (h : NonNegative a.entries) : ∀ label, 0 ≤ (a.get label).toInt :=
  forall_get (P := fun n => 0 ≤ n.toInt) (Int.le_refl 0) h

/--
**The laws of multiplication.**

The empty map is neutral on both sides, the order of the entries included. A product has the sums
of exponents, cut off at the ends of the range, and its factors may change places. Three factors may
be regrouped exactly if no label has two neighbouring exponents that leave the range and a third one
that leads back into it. So they may be where no exponent is negative, and where neither of the two
sums that are taken first leaves the range; what the sum of all three does makes no difference.
-/
theorem mul_laws (a b c : Labels) :
    (1 * a = a ∧ a * 1 = a)
    ∧ (a * b == b * a) = true
    ∧ (∀ label, (a * b).get label = (a.get label).saturatingAdd (b.get label))
    ∧ (((a * b) * c == a * (b * c)) = true ↔ ∀ label,
        ¬ Exponent.LeadsBack ((a.get label).toInt + (b.get label).toInt) (c.get label)
        ∧ ¬ Exponent.LeadsBack ((b.get label).toInt + (c.get label).toInt) (a.get label))
    ∧ (NonNegative a.entries → NonNegative b.entries → NonNegative c.entries →
        ((a * b) * c == a * (b * c)) = true)
    ∧ (Addable a b → Addable b c → ((a * b) * c == a * (b * c)) = true) := by
  refine ⟨⟨a.one_mul, a.mul_one⟩, a.mul_comm_beq b, a.get_mul b, mul_assoc_beq_iff,
    fun ha hb hc => mul_assoc_beq_iff.mpr fun label => ?_,
    fun hab hbc => mul_assoc_beq_iff.mpr fun label => ?_⟩
  · have hA := get_nonneg ha label
    have hB := get_nonneg hb label
    have hC := get_nonneg hc label
    exact ⟨Exponent.not_leadsBack_of_nonneg (Int.add_nonneg hA hB) hC,
      Exponent.not_leadsBack_of_nonneg (Int.add_nonneg hB hC) hA⟩
  · exact ⟨Exponent.not_leadsBack_of_le _ (hab label).1 (hab label).2,
      Exponent.not_leadsBack_of_le _ (hbc label).1 (hbc label).2⟩

/-- Metres and seconds. -/
def metreSecond (metres seconds : Exponent) : Labels :=
  (Labels.empty.add "m" metres).add "s" seconds

/-- Metres without end can be regrouped. So can a metre that goes out and comes in again, but then
it stands in another place. -/
theorem mul_laws_metres :
    NonNegative (metreSecond .largest 1).entries ∧ NonNegative (metreSecond 1 0).entries
    ∧ ((metreSecond .largest 1 * metreSecond 1 0) * metreSecond 1 0
        == metreSecond .largest 1 * (metreSecond 1 0 * metreSecond 1 0)) = true
    ∧ Addable (metreSecond 1 1) (metreSecond (-1) 0)
    ∧ Addable (metreSecond (-1) 0) (metreSecond 1 0)
    ∧ ((metreSecond 1 1 * metreSecond (-1) 0) * metreSecond 1 0
        == metreSecond 1 1 * (metreSecond (-1) 0 * metreSecond 1 0)) = true
    ∧ ((metreSecond 1 1 * metreSecond (-1) 0) * metreSecond 1 0).labels = ["s", "m"]
    ∧ (metreSecond 1 1 * (metreSecond (-1) 0 * metreSecond 1 0)).labels = ["m", "s"] := by
  have hlargest : NonNegative (metreSecond .largest 1).entries := by
    unfold NonNegative
    decide
  have hone : NonNegative (metreSecond 1 0).entries := by
    unfold NonNegative
    decide
  have hmin : Int64.minValue.toInt < -100 := by decide
  have hmax : 100 < Int64.maxValue.toInt := by decide
  have hsmall : ∀ m : Labels, (∀ p ∈ m.entries, -1 ≤ p.exponent.toInt ∧ p.exponent.toInt ≤ 1) →
      ∀ label, -1 ≤ (m.get label).toInt ∧ (m.get label).toInt ≤ 1 :=
    fun m h => forall_get (P := fun n => -1 ≤ n.toInt ∧ n.toInt ≤ 1) (by decide) h
  have hout : Addable (metreSecond 1 1) (metreSecond (-1) 0) := by
    intro label
    have hleft := hsmall (metreSecond 1 1) (by decide) label
    have hright := hsmall (metreSecond (-1) 0) (by decide) label
    omega
  have hin : Addable (metreSecond (-1) 0) (metreSecond 1 0) := by
    intro label
    have hleft := hsmall (metreSecond (-1) 0) (by decide) label
    have hright := hsmall (metreSecond 1 0) (by decide) label
    omega
  obtain ⟨-, -, -, -, hnonneg, -⟩ :=
    mul_laws (metreSecond .largest 1) (metreSecond 1 0) (metreSecond 1 0)
  obtain ⟨-, -, -, -, -, haddable⟩ :=
    mul_laws (metreSecond 1 1) (metreSecond (-1) 0) (metreSecond 1 0)
  exact ⟨hlargest, hone, hnonneg hlargest hone hone, hout, hin, haddable hout hin, by decide,
    by decide⟩

/-- A metre too many is lost, and then a metre less takes one of the others away. -/
example : ((Labels.empty.add "m" .largest * Labels.empty.add "m" 1) * Labels.empty.add "m" (-1)
    == Labels.empty.add "m" .largest * (Labels.empty.add "m" 1 * Labels.empty.add "m" (-1)))
      = false := by
  decide

end Labels

end FactorLabel
