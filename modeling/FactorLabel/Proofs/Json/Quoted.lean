import FactorLabel.Json.Quoted

/-!
# Quoted strings read back

A character is written as itself or behind a backslash, and either way it is read as the one unit
that it is. No character is a surrogate, so the units are joined one by one and any text is found
again.
-/

namespace FactorLabel.Json.Quoted

/-! ## One character -/

/-- The three ways in which a character is written: with a letter of its own, with its number, or
as it is. -/
theorem escape_cases (c : Char) :
    (∃ d, d ≠ 'u' ∧ unescape? d = some c ∧ escape c = ['\\', d])
    ∨ (c.toNat < 0x20 ∧ escape c
        = ['\\', 'u', '0', '0', hexDigit (c.toNat / 16), hexDigit (c.toNat % 16)])
    ∨ (c ≠ '"' ∧ c ≠ '\\' ∧ ¬c.toNat < 0x20 ∧ escape c = [c]) := by
  by_cases hletter : c ∈ ['"', '\\', '\x08', '\x0c', '\n', '\r', '\t']
  · left
    simp only [List.mem_cons, List.not_mem_nil, or_false] at hletter
    rcases hletter with rfl | rfl | rfl | rfl | rfl | rfl | rfl
    all_goals exact ⟨_, by decide, rfl, rfl⟩
  · right
    simp only [List.mem_cons, List.not_mem_nil, or_false, not_or] at hletter
    obtain ⟨hquote, hbackslash, hb, hf, hn, hr, ht⟩ := hletter
    rw [escape, if_neg hquote, if_neg hbackslash, if_neg hb, if_neg hf, if_neg hn, if_neg hr,
      if_neg ht]
    by_cases hcontrol : c.toNat < 0x20
    · exact .inl ⟨hcontrol, if_pos hcontrol⟩
    · exact .inr ⟨hquote, hbackslash, hcontrol, if_neg hcontrol⟩

/-- The number of a control character is read as it is written. -/
theorem hexQuad?_hexDigit {n : Nat} (h : n < 0x20) :
    hexQuad? '0' '0' (hexDigit (n / 16)) (hexDigit (n % 16)) = some n := by
  have hall : ∀ n < 0x20, hexQuad? '0' '0' (hexDigit (n / 16)) (hexDigit (n % 16)) = some n := by
    decide
  exact hall n h

variable (rest : List Char)

theorem readUnits?_letter {c d : Char} (hu : d ≠ 'u') (h : unescape? d = some c) :
    readUnits? ('\\' :: d :: rest)
      = (readUnits? rest).map fun (ns, rest) => (c.toNat :: ns, rest) := by
  rw [readUnits?]
  · simp only [h]
  · rintro a b c d rest hd -
    exact hu hd

theorem readUnits?_self {c : Char} (hquote : c ≠ '"') (hbackslash : c ≠ '\\')
    (hcontrol : ¬c.toNat < 0x20) :
    readUnits? (c :: rest) = (readUnits? rest).map fun (ns, rest) => (c.toNat :: ns, rest) := by
  rw [readUnits?]
  · exact if_neg (not_or.mpr ⟨hbackslash, hcontrol⟩)
  · exact fun h => hquote h
  · exact fun _ _ _ _ _ h _ => hbackslash h
  · exact fun _ _ h _ => hbackslash h

/-- **One character is one unit.** -/
theorem readUnits?_escape (c : Char) :
    readUnits? (escape c ++ rest)
      = (readUnits? rest).map fun (ns, rest) => (c.toNat :: ns, rest) := by
  rcases escape_cases c with ⟨d, hu, hd, he⟩ | ⟨hcontrol, he⟩ | ⟨hquote, hbackslash, hcontrol, he⟩
  · rw [he]
    exact readUnits?_letter rest hu hd
  · rw [he]
    show readUnits? ('\\' :: 'u' :: '0' :: '0' :: _ :: _ :: rest) = _
    rw [readUnits?]
    simp only [hexQuad?_hexDigit hcontrol]
  · rw [he]
    exact readUnits?_self rest hquote hbackslash hcontrol

/-! ## Whole texts -/

theorem readUnits?_escape_all (s : List Char) :
    readUnits? (s.flatMap escape ++ '"' :: rest) = some (s.map Char.toNat, rest) := by
  induction s with
  | nil =>
      show readUnits? ('"' :: rest) = _
      rw [readUnits?]
      rfl
  | cons c s ih =>
      rw [List.flatMap_cons, List.append_assoc, readUnits?_escape, ih]
      rfl

/-- A character is no surrogate. -/
theorem not_surrogate (c : Char) : isHigh c.toNat = false ∧ isLow c.toNat = false := by
  have hvalid : c.toNat < 0xD800 ∨ 0xDFFF < c.toNat ∧ c.toNat < 0x110000 := c.valid
  simp only [isHigh, isLow, Bool.and_eq_false_iff, decide_eq_false_iff_not]
  omega

theorem join?_toNat (s : List Char) : join? (s.map Char.toNat) = some s := by
  induction s with
  | nil => rfl
  | cons c s ih =>
      obtain ⟨hhigh, hlow⟩ := not_surrogate c
      cases s with
      | nil => simp only [List.map_cons, List.map_nil, join?, hhigh, hlow, Char.ofNat_toNat]; rfl
      | cons d s =>
          rw [List.map_cons] at ih
          simp only [List.map_cons, join?, hhigh, hlow, ih, Char.ofNat_toNat]
          rfl

/-- **A text is read as it is written.** -/
theorem decode?_escape_all (s : String) :
    decode? (s.toList.flatMap escape ++ '"' :: rest) = some (some s, rest) := by
  simp only [decode?, readUnits?_escape_all, Option.map_some, join?_toNat, String.ofList_toList]

end FactorLabel.Json.Quoted
