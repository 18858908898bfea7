import FactorLabel.Number.Radix
import FactorLabel.Term.Basic

/-!
# Fresh identifiers

A fresh identifier is made of the time and of chance: eight digits in base thirty-six count the
milliseconds, and ten more are random. Drawing one is the only place where the clock and chance come
in.
-/

namespace FactorLabel.TermId

open Number

/-- The last eight digits of the time in base thirty-six, with zeros in front if it has fewer. -/
def timeDigits (millis : UInt64) : List Nat :=
  let ds := digits 36 millis.toNat
  let padded := List.replicate (8 - ds.length) 0 ++ ds
  padded.drop (padded.length - 8)

theorem length_timeDigits (millis : UInt64) : (timeDigits millis).length = 8 := by
  simp [timeDigits]
  omega

theorem timeDigits_lt (millis : UInt64) : ∀ d ∈ timeDigits millis, d < 36 := by
  intro d hd
  rcases List.mem_append.mp (List.mem_of_mem_drop hd) with h | h
  · have := (List.mem_replicate.mp h).2
    omega
  · exact digits_lt (by decide) _ d h

/-- The character of a digit below thirty-six is a letter or a digit. -/
theorem isAlphanum_digitChar (d : Nat) (h : d < 36) : (digitChar d).isAlphanum = true := by
  have all : ∀ i : Fin 36, (digitChar i.val).isAlphanum = true := by decide
  exact all ⟨d, h⟩

/-- The identifier of a time in milliseconds and ten random digits. -/
def compose (millis : UInt64) (chance : Vector (Fin 36) 10) : TermId where
  text := String.ofList ((timeDigits millis ++ chance.toList.map Fin.val).map digitChar)
  length_text := by simp [length_timeDigits]
  alphanumeric := by
    rw [String.toList_ofList, List.all_eq_true]
    intro c hc
    obtain ⟨d, hd, rfl⟩ := List.mem_map.mp hc
    rcases List.mem_append.mp hd with h | h
    · exact isAlphanum_digitChar d (timeDigits_lt millis d h)
    · obtain ⟨i, -, rfl⟩ := List.mem_map.mp h
      exact isAlphanum_digitChar i i.isLt

/-! ## Drawing -/

/-- The milliseconds of a time in nanoseconds since the start of 1970. A part of a millisecond is
dropped. Times before the start, and those past the range of a word, count as the start. -/
def millisOf (nanos : Int) : UInt64 :=
  let millis := nanos.tdiv 1000000
  if 0 ≤ millis ∧ millis < UInt64.size then UInt64.ofNat millis.toNat else 0

theorem toNat_millisOf {nanos : Int} (h : 0 ≤ nanos) (hlt : nanos / 1000000 < UInt64.size) :
    ((millisOf nanos).toNat : Int) = nanos / 1000000 := by
  have hdiv : nanos.tdiv 1000000 = nanos / 1000000 := Int.tdiv_eq_ediv_of_nonneg h
  have hnonneg : 0 ≤ nanos / 1000000 := Int.ediv_nonneg h (by decide)
  rw [millisOf, hdiv, if_pos ⟨hnonneg, hlt⟩, UInt64.toNat_ofNat_of_lt' (by omega)]
  exact Int.toNat_of_nonneg hnonneg

theorem millisOf_of_neg {nanos : Int} (h : nanos < 0) : millisOf nanos = 0 := by
  have hnonpos : nanos.tdiv 1000000 ≤ 0 := by
    have hpos : 0 ≤ (-nanos).tdiv 1000000 := Int.tdiv_nonneg (by omega) (by decide)
    rw [Int.neg_tdiv] at hpos
    omega
  unfold millisOf
  dsimp only
  split
  · rename_i hrange
    rw [Int.le_antisymm hnonpos hrange.1]
    rfl
  · rfl

/-- A digit below thirty-six, drawn at random. -/
def drawDigit : BaseIO (Fin 36) := do
  return Fin.ofNat 36 (← IO.rand 0 35)

/-- A fresh identifier, of the time that the clock shows and ten random digits. The clock counts the
nanoseconds since the start of 1970, and without one it is always the start. -/
def draw (clock : BaseIO Int := pure 0) : BaseIO TermId := do
  let nanos ← clock
  let chance ← Vector.ofFnM fun _ => drawDigit
  return compose (millisOf nanos) chance

end FactorLabel.TermId
