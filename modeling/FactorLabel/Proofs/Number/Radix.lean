import FactorLabel.Number.Radix
import FactorLabel.Proofs.Number.Digits
import Mathlib.Data.Nat.Digits.Lemmas

/-!
# Numerals in a radix are read back

A number is divided by the radix over and over, and every rest is looked up in a table of thirty-six
characters. Within the bounds of the radix no rest is too large for the table, nor for the byte it
is handed on in, so the lookup never fails. What is written is the one numeral of the number: its
characters are digits of the radix, there is no zero in front, and reading it gives the number.
-/

namespace FactorLabel.Number

open Text

variable {base radix n : Nat} {ds : List Nat}

/-! ## The digits of a number -/

/-- The digits stand for the same number the other way round, the lowest first. -/
theorem ofDigits_eq (base : Nat) (ds : List Nat) :
    ofDigits base ds = Nat.ofDigits base ds.reverse := by
  induction ds using List.reverseRecOn with
  | nil => rfl
  | append_singleton ds d ih =>
      rw [ofDigits_concat, List.reverse_append, List.reverse_singleton, List.singleton_append,
        Nat.ofDigits_cons, ← ih, Nat.mul_comm, Nat.add_comm]

theorem ofDigits_lt (hb : 2 ≤ base) (h : ∀ d ∈ ds, d < base) :
    ofDigits base ds < base ^ ds.length := by
  rw [ofDigits_eq, ← List.length_reverse]
  exact Nat.ofDigits_lt_base_pow_length hb fun d hd => h d (List.mem_reverse.mp hd)

/-- As many digits that stand for the same number are the same. -/
theorem ofDigits_inj (hb : 2 ≤ base) {ds' : List Nat} (hlength : ds.length = ds'.length)
    (h : ∀ d ∈ ds, d < base) (h' : ∀ d ∈ ds', d < base)
    (heq : ofDigits base ds = ofDigits base ds') : ds = ds' := by
  rw [ofDigits_eq, ofDigits_eq] at heq
  refine List.reverse_injective (Nat.ofDigits_inj_of_len_eq hb ?_ ?_ ?_ heq)
  · rw [List.length_reverse, List.length_reverse, hlength]
  · exact fun d hd => h d (List.mem_reverse.mp hd)
  · exact fun d hd => h' d (List.mem_reverse.mp hd)

/-- The digits make a numeral: there are some, none is too large, and a zero is in front only if it
is alone. -/
structure Digital (base : Nat) (ds : List Nat) : Prop where
  nonempty : ds ≠ []
  lt : ∀ d ∈ ds, d < base
  leading : ds.head? = some 0 → ds = [0]

theorem digital_digits (hb : 2 ≤ base) (n : Nat) : Digital base (digits base n) where
  nonempty := digits_ne_nil base n
  lt := digits_lt (by omega) n
  leading := by
    intro hzero
    rcases Nat.eq_zero_or_pos n with rfl | hn
    · have hdiv : 0 / base = 0 := Nat.zero_div base
      rw [digits, digitsFrom, if_pos hdiv, Nat.zero_mod]
    · obtain ⟨d, hd, hpos⟩ := head_digits hb hn
      rw [hzero] at hd
      have := Option.some.inj hd
      omega

/-- Digits with a positive one in front are those that dividing finds. -/
theorem Digital.natDigits_eq (hb : 2 ≤ base) (h : Digital base ds) (hhead : ds.head? ≠ some 0) :
    Nat.digits base (ofDigits base ds) = ds.reverse := by
  rw [ofDigits_eq]
  refine Nat.digits_ofDigits base hb _ (fun d hd => h.lt d (List.mem_reverse.mp hd)) ?_
  intro hne hzero
  refine hhead ?_
  rw [List.getLast_reverse] at hzero
  rw [List.head?_eq_some_head h.nonempty, hzero]

theorem Digital.eq_of_ofDigits (hb : 2 ≤ base) (h : Digital base ds) :
    ds = if ofDigits base ds = 0 then [0] else (Nat.digits base (ofDigits base ds)).reverse := by
  by_cases hhead : ds.head? = some 0
  · have hds := h.leading hhead
    have hzero : ofDigits base ds = 0 := by simp [hds, ofDigits]
    rw [if_pos hzero, hds]
  · have hdigits := h.natDigits_eq hb hhead
    have hne : ofDigits base ds ≠ 0 := by
      intro hzero
      rw [hzero, Nat.digits_zero] at hdigits
      exact h.nonempty (List.reverse_eq_nil_iff.mp hdigits.symm)
    rw [if_neg hne, hdigits, List.reverse_reverse]

/-- **A number has one numeral.** -/
theorem Digital.unique (hb : 2 ≤ base) {ds' : List Nat} (h : Digital base ds)
    (h' : Digital base ds') (heq : ofDigits base ds = ofDigits base ds') : ds = ds' := by
  have hds := h.eq_of_ofDigits hb
  rw [heq] at hds
  exact hds.trans (h'.eq_of_ofDigits hb).symm

/-! ## Their characters -/

/-- The digit of a character: first the decimal digits, then the small Latin letters. -/
def digitOf? (c : Char) : Option Nat :=
  if c.isDigit then some (c.toNat - '0'.toNat)
  else if c.isLower then some (c.toNat - 'a'.toNat + 10)
  else none

/-- The number that a text stands for. It stands for none if it is empty, or if a character is no
digit of the radix. -/
def ofRadix? (radix : Nat) (s : List Char) : Option Nat :=
  if s.isEmpty then none
  else (s.mapM fun c => (digitOf? c).filter (· < radix)).map (ofDigits radix)

theorem digitOf?_digitChar {d : Nat} (h : d < 36) : digitOf? (digitChar d) = some d := by
  have hall : ∀ d < 36, digitOf? (digitChar d) = some d := by decide
  exact hall d h

theorem digitChar?_of_lt {d : Nat} (h : d < 36) : digitChar? d = .ok (digitChar d) := if_pos h

/-- What characters stand for is what their digits stand for. -/
theorem ofRadix?_map_digitChar (hr : radix ≤ 36) (hne : ds ≠ []) (hlt : ∀ d ∈ ds, d < radix) :
    ofRadix? radix (ds.map digitChar) = some (ofDigits radix ds) := by
  have hempty : (ds.map digitChar).isEmpty = false := by simpa using hne
  have hread : (ds.map digitChar).mapM (fun c => (digitOf? c).filter (· < radix)) = some ds := by
    refine mapM_map_of_back fun d hd => ?_
    have hd := hlt d hd
    rw [digitOf?_digitChar (by omega)]
    exact if_pos (decide_eq_true hd)
  rw [ofRadix?, hempty, if_neg Bool.false_ne_true, hread, Option.map_some]

/-- Characters that are read as digits are decimal digits or small Latin letters. -/
theorem isDigit_or_isLower {c : Char} {d : Nat} (h : digitOf? c = some d) :
    c.isDigit = true ∨ c.isLower = true := by
  unfold digitOf? at h
  by_cases hdigit : c.isDigit = true
  · exact .inl hdigit
  · rw [if_neg hdigit] at h
    by_cases hlower : c.isLower = true
    · exact .inr hlower
    · rw [if_neg hlower] at h
      exact nomatch h

/-- Digits can be told apart by their characters. -/
theorem map_digitChar_inj {ds ds' : List Nat} (h : ∀ d ∈ ds, d < 36) (h' : ∀ d ∈ ds', d < 36)
    (heq : ds.map digitChar = ds'.map digitChar) : ds = ds' := by
  have hread := congrArg (List.mapM digitOf?) heq
  rw [mapM_map_of_back fun d hd => digitOf?_digitChar (h d hd),
    mapM_map_of_back fun d hd => digitOf?_digitChar (h' d hd)] at hread
  exact Option.some.inj hread

theorem digitChar_lt {d d' : Nat} (h : d' < 36) (hlt : d < d') : digitChar d < digitChar d' := by
  have hall : ∀ d' < 36, ∀ d < d', digitChar d < digitChar d' := by decide +kernel
  exact hall d' h d hlt

/-- The smaller of two numbers with as many digits comes first, whatever stands behind them. -/
theorem map_digitChar_lt {ds ds' : List Nat} (hlength : ds.length = ds'.length)
    (h : ∀ d ∈ ds, d < 36) (h' : ∀ d ∈ ds', d < 36) (hlt : ofDigits 36 ds < ofDigits 36 ds')
    (s t : List Char) : ds.map digitChar ++ s < ds'.map digitChar ++ t := by
  induction ds generalizing ds' with
  | nil =>
      rw [List.length_nil] at hlength
      rw [List.length_eq_zero_iff.mp hlength.symm] at hlt
      exact absurd hlt (Nat.lt_irrefl _)
  | cons d ds ih =>
      cases ds' with
      | nil => exact absurd hlength (Nat.succ_ne_zero _)
      | cons d' ds' =>
          obtain ⟨hd, hds⟩ := List.forall_mem_cons.mp h
          obtain ⟨hd', hds'⟩ := List.forall_mem_cons.mp h'
          have htail : ds.length = ds'.length := Nat.succ.inj hlength
          have hbelow' : ofDigits 36 ds' < 36 ^ ds'.length := ofDigits_lt (by decide) hds'
          rw [ofDigits_cons, ofDigits_cons, htail] at hlt
          rw [List.map_cons, List.map_cons, List.cons_append, List.cons_append,
            List.cons_lt_cons_iff]
          rcases Nat.lt_trichotomy d d' with hdd | rfl | hdd
          · exact .inl (digitChar_lt hd' hdd)
          · exact .inr ⟨rfl, ih htail hds hds' (by omega)⟩
          · have hmul := Nat.mul_le_mul_right (36 ^ ds'.length) (show d' + 1 ≤ d from hdd)
            rw [Nat.succ_mul] at hmul
            omega

/-- The text `s` is the numeral of the number `n`. -/
structure Numeral (radix n : Nat) (s : String) : Prop where
  /-- Each character is looked up for a digit below the radix. -/
  digits : ∀ c ∈ s.toList, ∃ d < radix, digitChar? d = .ok c
  value : ofRadix? radix s.toList = some n
  leading : s.toList.head? = some '0' → s = "0"

/-- The characters of digits are a numeral. -/
theorem Digital.numeral (hr : radix ≤ 36) (h : Digital radix ds) :
    Numeral radix (ofDigits radix ds) (String.ofList (ds.map digitChar)) where
  digits := by
    intro c hc
    rw [String.toList_ofList] at hc
    obtain ⟨d, hd, rfl⟩ := List.mem_map.mp hc
    have hlt := h.lt d hd
    exact ⟨d, hlt, digitChar?_of_lt (by omega)⟩
  value := by
    rw [String.toList_ofList]
    exact ofRadix?_map_digitChar hr h.nonempty h.lt
  leading := by
    intro hhead
    rw [String.toList_ofList, List.head?_map] at hhead
    obtain ⟨d, hd, hchar⟩ := Option.map_eq_some_iff.mp hhead
    have hlt := h.lt d (List.mem_of_mem_head? hd)
    have hzero : d = 0 := by
      have hdigit := digitOf?_digitChar (show d < 36 by omega)
      rw [hchar] at hdigit
      exact (Option.some.inj hdigit).symm
    rw [h.leading (hzero ▸ hd)]
    rfl

/-- A numeral is made of the characters of digits. -/
theorem Numeral.exists_digital {s : String} (hr : radix ≤ 36) (h : Numeral radix n s) :
    ∃ ds, Digital radix ds ∧ ofDigits radix ds = n ∧ s = String.ofList (ds.map digitChar) := by
  have hback : ∀ c ∈ s.toList, ∃ d < radix, digitOf? c = some d ∧ digitChar d = c := by
    intro c hc
    obtain ⟨d, hd, hchar⟩ := h.digits c hc
    rw [digitChar?_of_lt (by omega)] at hchar
    have hcd := Except.ok.inj hchar
    exact ⟨d, hd, hcd ▸ digitOf?_digitChar (by omega), hcd⟩
  -- the digits are found by looking the characters up
  obtain ⟨ds, hds⟩ : ∃ ds, ds = s.toList.map fun c => (digitOf? c).getD 0 := ⟨_, rfl⟩
  have hchars : ds.map digitChar = s.toList := by
    rw [hds, List.map_map]
    refine (List.map_congr_left fun c hc => ?_).trans (List.map_id _)
    obtain ⟨d, -, hread, hchar⟩ := hback c hc
    rw [Function.comp_apply, hread]
    exact hchar
  have hlt : ∀ d ∈ ds, d < radix := by
    intro d hd
    rw [hds] at hd
    obtain ⟨c, hc, rfl⟩ := List.mem_map.mp hd
    obtain ⟨d, hd, hread, -⟩ := hback c hc
    rw [hread]
    exact hd
  have hne : ds ≠ [] := by
    rintro rfl
    have hvalue := h.value
    rw [← hchars] at hvalue
    exact nomatch hvalue
  have hs : s = String.ofList (ds.map digitChar) := by rw [hchars, String.ofList_toList]
  refine ⟨ds, ⟨hne, hlt, fun hhead => ?_⟩, ?_, hs⟩
  · have hzero : s = "0" := h.leading (by rw [← hchars, List.head?_map, hhead]; rfl)
    rw [hds, hzero]
    rfl
  · have hvalue := h.value
    rw [← hchars, ofRadix?_map_digitChar hr hne hlt] at hvalue
    exact Option.some.inj hvalue

theorem Numeral.unique {s s' : String} (hb : 2 ≤ radix) (hr : radix ≤ 36)
    (h : Numeral radix n s) (h' : Numeral radix n s') : s = s' := by
  obtain ⟨ds, hds, hvalue, rfl⟩ := h.exists_digital hr
  obtain ⟨ds', hds', hvalue', rfl⟩ := h'.exists_digital hr
  rw [hds.unique hb hds' (hvalue.trans hvalue'.symm)]

/-! ## Writing -/

/-- Within the bounds no digit is too large for its byte or for the table. -/
theorem inRadix_eq (value : UInt64) (hb : 2 ≤ radix) (hr : radix ≤ 36) :
    inRadix value radix = .ok (String.ofList ((digits radix value.toNat).map digitChar)) := by
  have hchars : (digits radix value.toNat).mapM (fun d => digitChar? (d % 256))
      = .ok ((digits radix value.toNat).map digitChar) := by
    refine mapM_eq_pure_map fun d hd => ?_
    have hlt := digits_lt (show 0 < radix by omega) value.toNat d hd
    rw [Nat.mod_eq_of_lt (by omega)]
    exact digitChar?_of_lt (by omega)
  rw [inRadix, if_pos ⟨hb, hr⟩, hchars]
  rfl

theorem numeral_inRadix (value : UInt64) (hb : 2 ≤ radix) (hr : radix ≤ 36) :
    ∃ s, inRadix value radix = .ok s ∧ Numeral radix value.toNat s := by
  refine ⟨_, inRadix_eq value hb hr, ?_⟩
  have h := (digital_digits hb value.toNat).numeral hr
  rw [ofDigits_digits hb] at h
  exact h

/--
**Numbers are written as their numerals.**

Within the bounds every number has a text. The text is the numeral of the number and no other text
is, and no other number is written like this. Out of bounds no number is written at all.
-/
theorem inRadix_writes_numerals (radix : Nat) (value : UInt64) :
    (2 ≤ radix ∧ radix ≤ 36 → ∃ s, inRadix value radix = .ok s
      ∧ Numeral radix value.toNat s ∧ (∀ s', Numeral radix value.toNat s' → s' = s)
      ∧ ∀ value', inRadix value' radix = .ok s → value' = value)
    ∧ (¬(2 ≤ radix ∧ radix ≤ 36) → inRadix value radix = .error .outOfBounds) := by
  constructor
  · rintro ⟨hb, hr⟩
    obtain ⟨s, hs, hnumeral⟩ := numeral_inRadix value hb hr
    refine ⟨s, hs, hnumeral, fun s' h => h.unique hb hr hnumeral, ?_⟩
    intro value' hs'
    obtain ⟨s', heq, hnumeral'⟩ := numeral_inRadix value' hb hr
    have hss' : s' = s := Except.ok.inj (heq.symm.trans hs')
    have hvalue := hnumeral'.value
    rw [hss', hnumeral.value] at hvalue
    exact UInt64.toNat_inj.mp (Option.some.inj hvalue).symm
  · exact fun h => if_neg h

/-- The largest number in the largest radix, and zero in one that is too large. -/
theorem inRadix_writes_numerals_largest :
    inRadix 0xFFFFFFFFFFFFFFFF 36 = .ok "3w5e11264sgsf"
    ∧ ofRadix? 36 "3w5e11264sgsf".toList = some 0xFFFFFFFFFFFFFFFF
    ∧ inRadix 0 37 = .error .outOfBounds := by
  have htext : inRadix 0xFFFFFFFFFFFFFFFF 36 = .ok "3w5e11264sgsf" := by decide +kernel
  obtain ⟨s, hs, hnumeral, -⟩ :=
    (inRadix_writes_numerals 36 0xFFFFFFFFFFFFFFFF).1 ⟨by decide, by decide⟩
  cases Except.ok.inj (hs.symm.trans htext)
  exact ⟨htext, hnumeral.value, (inRadix_writes_numerals 37 0).2 (by decide)⟩

end FactorLabel.Number
