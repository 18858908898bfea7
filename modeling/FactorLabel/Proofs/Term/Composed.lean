import FactorLabel.Proofs.Number.Radix
import FactorLabel.Term.Fresh

/-!
# What a fresh identifier is made of

A fresh identifier is eight digits of the time and ten random ones. The time can have fewer digits
than eight or more, so its numeral is padded in front and cut in front. Whatever the time and the
random digits are, none of the steps fails, and both can be read off the identifier again: the time
up to the digits that were cut, and every random digit.

The digits of the time come first and are as many as in any other identifier. So as long as nothing
is cut, identifiers are in the order of their times.
-/

namespace FactorLabel.TermId

open Number Text

variable {millis millis' : UInt64} {chance chance' : Vector (Fin 36) 10}

theorem ext_text {a b : TermId} (h : a.text = b.text) : a = b := by
  cases a
  cases b
  cases h
  rfl

/-! ## The digits of the time -/

/-- **The digits count the time,** up to those that are cut off. -/
theorem ofDigits_timeDigits (millis : UInt64) :
    ofDigits 36 (timeDigits millis) = millis.toNat % 36 ^ 8 := by
  have hlt : ofDigits 36 (timeDigits millis) < 36 ^ (timeDigits millis).length :=
    ofDigits_lt (by decide) (timeDigits_lt millis)
  rw [length_timeDigits] at hlt
  obtain ⟨padded, hpadded⟩ : ∃ padded, padded
      = List.replicate (8 - (digits 36 millis.toNat).length) 0 ++ digits 36 millis.toNat := ⟨_, rfl⟩
  have hvalue : ofDigits 36 padded = millis.toNat := by
    rw [hpadded, ofDigits_append, ofDigits_replicate_zero, Nat.zero_mul, Nat.zero_add,
      ofDigits_digits (by decide)]
  have htime : timeDigits millis = padded.drop (padded.length - 8) := by rw [hpadded, timeDigits]
  have hcut := ofDigits_append 36 (padded.take (padded.length - 8)) (timeDigits millis)
  rw [length_timeDigits, htime, List.take_append_drop, hvalue, ← htime] at hcut
  rw [hcut, Nat.mul_add_mod', Nat.mod_eq_of_lt hlt]

theorem timeDigits_inj :
    timeDigits millis = timeDigits millis' ↔ millis.toNat % 36 ^ 8 = millis'.toNat % 36 ^ 8 := by
  rw [← ofDigits_timeDigits, ← ofDigits_timeDigits]
  constructor
  · exact congrArg _
  · intro h
    refine ofDigits_inj (by decide) ?_ (timeDigits_lt millis) (timeDigits_lt millis') h
    rw [length_timeDigits, length_timeDigits]

/-! ## The characters -/

theorem chance_lt (chance : Vector (Fin 36) 10) : ∀ d ∈ chance.toList.map Fin.val, d < 36 := by
  intro d hd
  obtain ⟨i, -, rfl⟩ := List.mem_map.mp hd
  exact i.isLt

theorem toList_text_compose (millis : UInt64) (chance : Vector (Fin 36) 10) :
    (compose millis chance).text.toList
      = (timeDigits millis).map digitChar ++ (chance.toList.map Fin.val).map digitChar := by
  rw [compose, String.toList_ofList, List.map_append]

theorem take_text_compose (millis : UInt64) (chance : Vector (Fin 36) 10) :
    (compose millis chance).text.toList.take 8 = (timeDigits millis).map digitChar := by
  rw [toList_text_compose, List.take_left' (by rw [List.length_map, length_timeDigits])]

theorem drop_text_compose (millis : UInt64) (chance : Vector (Fin 36) 10) :
    (compose millis chance).text.toList.drop 8 = (chance.toList.map Fin.val).map digitChar := by
  rw [toList_text_compose, List.drop_left' (by rw [List.length_map, length_timeDigits])]

/-! ## Step by step -/

/-- The characters of a fresh identifier, step by step. The numeral of the time is padded to eight
characters, and those in front of the last eight are left out. Then each random digit is looked up.
There is no answer if a step fails. -/
def assembled? (millis : UInt64) (chance : List Nat) : Option (List Char) := do
  let numeral ← (inRadix millis 36).toOption
  let padded := numeral.toList.leftpad 8 '0'
  let surplus ← if 8 ≤ padded.length then some (padded.length - 8) else none
  let drawn ← (chance.mapM digitChar?).toOption
  return padded.drop surplus ++ drawn

/-- **No step fails.** -/
theorem assembled?_eq (millis : UInt64) (chance : Vector (Fin 36) 10) :
    assembled? millis (chance.toList.map Fin.val) = some (compose millis chance).text.toList := by
  obtain ⟨ds, hds⟩ : ∃ ds, ds = digits 36 millis.toNat := ⟨_, rfl⟩
  have hnumeral : inRadix millis 36 = .ok (String.ofList (ds.map digitChar)) := by
    rw [hds]
    exact inRadix_eq millis (by decide) (by decide)
  have hpadded : (ds.map digitChar).leftpad 8 '0'
      = (List.replicate (8 - ds.length) 0 ++ ds).map digitChar := by
    rw [List.leftpad, List.map_append, List.map_replicate, List.length_map]
    rfl
  have hlength : 8 ≤ (List.replicate (8 - ds.length) 0 ++ ds).length := by
    rw [List.length_append, List.length_replicate]
    omega
  have hdrawn : (chance.toList.map Fin.val).mapM digitChar?
      = .ok ((chance.toList.map Fin.val).map digitChar) := by
    exact mapM_eq_pure_map fun d hd => digitChar?_of_lt (chance_lt chance d hd)
  have htime : timeDigits millis = (List.replicate (8 - ds.length) 0 ++ ds).drop
      ((List.replicate (8 - ds.length) 0 ++ ds).length - 8) := by rw [hds, timeDigits]
  rw [toList_text_compose, htime]
  simp only [assembled?, hnumeral, hdrawn, Except.toOption, Option.bind_eq_bind, Option.bind_some,
    String.toList_ofList, hpadded, List.length_map, if_pos hlength, List.map_drop]
  rfl

/-! ## Reading it again -/

/-- The identifier `id` is made of the time `millis` and the random digits `chance`, and shows
both. -/
structure MadeOf (millis : UInt64) (chance : Vector (Fin 36) 10) (id : TermId) : Prop where
  assembled : assembled? millis (chance.toList.map Fin.val) = some id.text.toList
  length : id.text.toList.length = 18
  characters : ∀ c ∈ id.text.toList, c.isDigit = true ∨ c.isLower = true
  readBack : ofText? id.text = .ok id
  time : ofRadix? 36 (id.text.toList.take 8) = some (millis.toNat % 36 ^ 8)
  chance : (id.text.toList.drop 8).mapM digitOf? = some (chance.toList.map Fin.val)

theorem ofText?_text (id : TermId) : ofText? id.text = .ok id :=
  dif_pos ⟨id.length_text, id.alphanumeric⟩

theorem madeOf_compose (millis : UInt64) (chance : Vector (Fin 36) 10) :
    MadeOf millis chance (compose millis chance) where
  assembled := assembled?_eq millis chance
  length := (compose millis chance).length_text
  characters := by
    intro c hc
    rw [toList_text_compose, ← List.map_append] at hc
    obtain ⟨d, hd, rfl⟩ := List.mem_map.mp hc
    have hlt : d < 36 := (List.mem_append.mp hd).elim (timeDigits_lt millis d) (chance_lt chance d)
    exact isDigit_or_isLower (digitOf?_digitChar hlt)
  readBack := ofText?_text _
  time := by
    have hne : timeDigits millis ≠ [] :=
      List.ne_nil_of_length_pos (by rw [length_timeDigits]; decide)
    rw [take_text_compose, ofRadix?_map_digitChar (by decide) hne (timeDigits_lt millis),
      ofDigits_timeDigits]
  chance := by
    rw [drop_text_compose]
    exact mapM_map_of_back fun d hd => digitOf?_digitChar (chance_lt chance d hd)

/-- **What an identifier is made of can be read off it,** and nothing else is in it. -/
theorem compose_inj : compose millis chance = compose millis' chance'
    ↔ millis.toNat % 36 ^ 8 = millis'.toNat % 36 ^ 8 ∧ chance = chance' := by
  rw [← timeDigits_inj]
  constructor
  · intro h
    have htext := congrArg (fun id : TermId => id.text.toList) h
    have htime := congrArg (List.take 8) htext
    have hchance := congrArg (List.drop 8) htext
    simp only [take_text_compose] at htime
    simp only [drop_text_compose] at hchance
    have hdigits := map_digitChar_inj (chance_lt chance) (chance_lt chance') hchance
    have hlist := List.map_injective_iff.mpr Fin.val_injective hdigits
    exact ⟨map_digitChar_inj (timeDigits_lt millis) (timeDigits_lt millis') htime,
      Vector.toList_inj.mp hlist⟩
  · rintro ⟨htime, rfl⟩
    refine ext_text (String.toList_inj.mp ?_)
    rw [toList_text_compose, toList_text_compose, htime]

/-- As long as the digits of the time suffice, the earlier identifier comes first. -/
theorem compose_lt (h : millis < millis') (hlt : millis'.toNat < 36 ^ 8) :
    (compose millis chance).text < (compose millis' chance').text := by
  rw [String.lt_iff, toList_text_compose, toList_text_compose]
  refine map_digitChar_lt ?_ (timeDigits_lt millis) (timeDigits_lt millis') ?_ _ _
  · rw [length_timeDigits, length_timeDigits]
  · have hnat : millis.toNat < millis'.toNat := h
    rw [ofDigits_timeDigits, ofDigits_timeDigits, Nat.mod_eq_of_lt hlt, Nat.mod_eq_of_lt (by omega)]
    exact hnat

/--
**An identifier is its time and its random digits.**

It can be made of every time and of all random digits, and both can be read off it, the time up to
its last eight digits. So it differs from any identifier where one of the two differs. And it comes
before every later one, up to the time that has more than eight digits.
-/
theorem composed_of_time_and_chance (millis millis' : UInt64)
    (chance chance' : Vector (Fin 36) 10) :
    MadeOf millis chance (compose millis chance)
    ∧ (compose millis chance = compose millis' chance'
      ↔ millis.toNat % 36 ^ 8 = millis'.toNat % 36 ^ 8 ∧ chance = chance')
    ∧ (millis < millis' → millis'.toNat < 36 ^ 8 →
      (compose millis chance).text < (compose millis' chance').text) :=
  ⟨madeOf_compose millis chance, compose_inj, compose_lt⟩

/-- From the first time to the last one with eight digits, against the order of the random digits.
One millisecond later the digits of the time start again. -/
theorem composed_of_time_and_chance_turn :
    (compose 0 (Vector.replicate 10 35)).text
      < (compose 2821109907455 (Vector.replicate 10 0)).text
    ∧ compose 2821109907456 (Vector.replicate 10 35) = compose 0 (Vector.replicate 10 35)
    ∧ (compose 0 (Vector.replicate 10 35)).text = "00000000zzzzzzzzzz" := by
  refine ⟨?_, ?_, by decide +kernel⟩
  · exact (composed_of_time_and_chance 0 2821109907455 _ _).2.2 (by decide) (by decide)
  · exact (composed_of_time_and_chance 2821109907456 0 _ _).2.1.mpr ⟨by decide, rfl⟩

end FactorLabel.TermId
