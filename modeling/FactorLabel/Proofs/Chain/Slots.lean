import FactorLabel.Proofs.Chain.Confirm
import FactorLabel.Proofs.Chain.Identity
import FactorLabel.Proofs.Chain.Simplified

/-!
# Entering a text

A chain is a list of identifiers, and for each of them two slots, of which the lower one may be
empty. Entering a text writes one slot, or nothing: it is ignored where there is no such term, where
nothing was typed, and where the number one would come below the line. Above the line the number one
is written like any other, so the two sides have different rules.

A chain is known by its identifiers and its slots. So what two edits come to is settled slot by
slot: edits of different slots do not see each other, and of two edits of the same slot the later
one stays.
-/

namespace FactorLabel

theorem Quantity.isIdentity_iff {q : Quantity} : q.isIdentity = true ↔ q = .identity := by
  constructor
  · intro h
    obtain ⟨hfactor, hlabels⟩ := Bool.and_eq_true_iff.mp h
    refine eq_scalar (Ratio.entries_of_not_hasLabels ?_) (Number.Double.eq_one_of_beq hfactor)
    simpa using hlabels
  · rintro rfl
    decide +kernel

/-- A term that is turned over takes what was entered along. -/
theorem Term.flip_set (t : Term) (s : Side) (q : Quantity) :
    (t.set s q).flip = t.flip.set s.opposite q := by
  cases s <;> rfl

namespace Chain

variable {c c' : Chain} {index : Nat} {s : Side} {text : String}

/-! ## Slots -/

/-- **A chain is known by its identifiers and its slots.** -/
theorem eq_of_ids_of_slot (hids : c.ids = c'.ids) (hslot : ∀ i s, c.slot i s = c'.slot i s) :
    c = c' := by
  refine ext_terms (List.ext_getElem? fun i => ?_)
  have hid : c.terms[i]?.map Term.id = c'.terms[i]?.map Term.id := by
    rw [← List.getElem?_map, ← List.getElem?_map]
    exact congrArg (·[i]?) hids
  have hnum : c.terms[i]?.bind (·.side .numerator) = c'.terms[i]?.bind (·.side .numerator) :=
    hslot i .numerator
  have hden : c.terms[i]?.bind (·.side .denominator) = c'.terms[i]?.bind (·.side .denominator) :=
    hslot i .denominator
  generalize c.terms[i]? = t, c'.terms[i]? = t' at hid hnum hden ⊢
  cases t with
  | none =>
      cases t' with
      | none => rfl
      | some t' => exact nomatch hid
  | some t =>
      cases t' with
      | none => exact nomatch hid
      | some t' =>
          obtain ⟨⟨num, den⟩, id⟩ := t
          obtain ⟨⟨num', den'⟩, id'⟩ := t'
          cases hid
          cases hnum
          cases hden
          rfl

theorem length_eq_of_ids (h : c.ids = c'.ids) : c.length = c'.length := by
  have hlength := congrArg List.length h
  rwa [ids, ids, List.length_map, List.length_map] at hlength

/-- A slot that is written holds what was written, and the others hold what they held. -/
theorem slot_modify_set (c : Chain) (index i : Nat) (s s' : Side) (q : Quantity) :
    (c.modify index (·.set s q)).slot i s'
      = if (i, s') = (index, s) ∧ index < c.length then some q else c.slot i s' := by
  simp only [slot, modify, List.getElem?_modify, Prod.mk.injEq]
  by_cases hi : index = i
  · subst hi
    cases ht : c.terms[index]? with
    | none =>
        have hge : c.length ≤ index := List.getElem?_eq_none_iff.mp ht
        rw [if_neg fun h => Nat.not_lt.mpr hge h.2]
        rfl
    | some t =>
        have hlt : index < c.length := (List.getElem?_eq_some_iff.mp ht).1
        simp only [hlt, true_and, and_true, if_true]
        exact t.side_set s s' q
  · rw [if_neg fun h => hi h.1.1.symm]
    simp only [if_neg hi]
    cases c.terms[i]? <;> rfl

/-! ## One edit -/

/-- What a text puts into a slot on the given side, if it is not ignored. -/
def entered? (s : Side) (text : String) : Option Quantity :=
  (Field.quantity? text).filter fun q => !isIgnored s q

theorem isIgnored_iff {q : Quantity} : isIgnored s q = true ↔ s = .denominator ∧ q = .identity := by
  rw [isIgnored, Bool.and_eq_true, beq_iff_eq, Quantity.isIdentity_iff]

theorem entered?_eq_some_iff {q : Quantity} : entered? s text = some q
    ↔ Field.quantity? text = some q ∧ ¬ (s = .denominator ∧ q = .identity) := by
  rw [entered?, Option.filter_eq_some_iff, ← isIgnored_iff, Bool.not_eq_true', Bool.not_eq_true]

theorem update_of_entered {q : Quantity} (h : entered? s text = some q) :
    c.update index s text = c.modify index (·.set s q) := by
  obtain ⟨hread, hkept⟩ := entered?_eq_some_iff.mp h
  rw [update, hread]
  exact if_neg fun hignored => hkept (isIgnored_iff.mp hignored)

theorem update_of_not_entered (h : entered? s text = none) : c.update index s text = c := by
  rw [update]
  split
  · rfl
  · rename_i q hread
    have hignored := Option.filter_eq_none_iff.mp h q hread
    exact if_pos (by simpa using hignored)

/-- **One edit, slot by slot.** -/
theorem slot_update_eq (c : Chain) (index i : Nat) (s s' : Side) (text : String) :
    (c.update index s text).slot i s'
      = if (i, s') = (index, s) ∧ index < c.length then (entered? s text).or (c.slot i s')
        else c.slot i s' := by
  cases h : entered? s text with
  | none =>
      rw [update_of_not_entered h]
      exact (ite_self _).symm
  | some q =>
      rw [update_of_entered h]
      exact c.slot_modify_set index i s s' q

theorem length_update (c : Chain) (index : Nat) (s : Side) (text : String) :
    (c.update index s text).length = c.length :=
  length_eq_of_ids (c.ids_update index s text)

/-! ## Two edits -/

/-- Different slots do not see each other. -/
theorem update_comm {index' : Nat} {s' : Side} (text text' : String)
    (h : (index, s) ≠ (index', s')) :
    (c.update index s text).update index' s' text'
      = (c.update index' s' text').update index s text := by
  refine eq_of_ids_of_slot (by simp only [ids_update]) fun i r => ?_
  simp only [slot_update_eq, length_update]
  by_cases hfirst : (i, r) = (index, s)
  · have hsecond : (i, r) ≠ (index', s') := fun heq => h (hfirst.symm.trans heq)
    simp only [hsecond, false_and, if_false]
  · simp only [hfirst, false_and, if_false]

/-- The later edit of a slot stays. -/
theorem update_update {text' : String} (text : String) (h : entered? s text' ≠ none) :
    (c.update index s text).update index s text' = c.update index s text' := by
  obtain ⟨q, hq⟩ := Option.ne_none_iff_exists'.mp h
  refine eq_of_ids_of_slot (by simp only [ids_update]) fun i r => ?_
  simp only [slot_update_eq, length_update, hq, Option.some_or]
  by_cases hslot : (i, r) = (index, s) ∧ index < c.length
  · rw [if_pos hslot, if_pos hslot]
  · rw [if_neg hslot, if_neg hslot, if_neg hslot]

/-- To enter a text and turn the term over is to turn it over and enter the text on the other
side. -/
theorem flip_update {q : Quantity} (hread : Field.quantity? text = some q) (hne : q ≠ .identity) :
    (c.update index s text).flip index = (c.flip index).update index s.opposite text := by
  have hentered : ∀ r, entered? r text = some q := fun r =>
    entered?_eq_some_iff.mpr ⟨hread, fun h => hne h.2⟩
  rw [update_of_entered (hentered s), update_of_entered (hentered s.opposite)]
  refine ext_terms ?_
  show (c.terms.modify index (·.set s q)).modify index Term.flip
    = (c.terms.modify index Term.flip).modify index (·.set s.opposite q)
  rw [List.modify_modify_eq, List.modify_modify_eq]
  exact congrArg (c.terms.modify index) (funext fun t => t.flip_set s q)

/-- Where entering a text does nothing: there is no such term, nothing was typed, or it is the
number one below the line. -/
def Ignores (c : Chain) (index : Nat) (s : Side) (text : String) : Prop :=
  c.length ≤ index ∨ text = "" ∨ (s = .denominator ∧ Field.quantity? text = some .identity)

theorem quantity?_eq_identity_iff : Field.quantity? text = some .identity
    ↔ (Field.quantity? text).any Quantity.isIdentity = true := by
  cases Field.quantity? text with
  | none => exact ⟨fun h => (nomatch h), fun h => (nomatch h)⟩
  | some q => rw [Option.some_inj, Option.any_some, Quantity.isIdentity_iff]

instance : Decidable (c.Ignores index s text) :=
  decidable_of_iff (c.length ≤ index ∨ text = "" ∨
    (s = .denominator ∧ (Field.quantity? text).any Quantity.isIdentity = true))
    (by rw [Ignores, quantity?_eq_identity_iff])

theorem entered?_eq_none_iff : entered? s text = none
    ↔ text = "" ∨ (s = .denominator ∧ Field.quantity? text = some .identity) := by
  have hempty : Field.quantity? text = none ↔ text = "" := by
    by_cases ht : text = ""
    · subst ht
      exact ⟨fun _ => rfl, fun _ => rfl⟩
    · rw [Field.quantity?_of_ne ht]
      exact ⟨fun h => (nomatch h), fun h => absurd h ht⟩
  rw [← hempty]
  cases hread : Field.quantity? text with
  | none => simp [entered?, hread]
  | some q => simp [entered?, hread, isIgnored_iff]

/-- The second chain is the first with the quantity in one slot, and all else as it was. -/
structure Writes (c : Chain) (index : Nat) (s : Side) (q : Quantity) (c' : Chain) : Prop where
  written : c'.slot index s = some q
  slots : ∀ i s', (i, s') ≠ (index, s) → c'.slot i s' = c.slot i s'
  terms : ∀ i, i ≠ index → c'.terms[i]? = c.terms[i]?
  ids : c'.ids = c.ids
  length : c'.length = c.length

/-- There is only one such chain. -/
theorem Writes.unique {q : Quantity} {d : Chain} (h : c.Writes index s q c')
    (h' : c.Writes index s q d) : c' = d := by
  refine eq_of_ids_of_slot (h.ids.trans h'.ids.symm) fun i r => ?_
  by_cases hslot : (i, r) = (index, s)
  · cases hslot
    rw [h.written, h'.written]
  · rw [h.slots i r hslot, h'.slots i r hslot]

theorem writes_update {q : Quantity} (hindex : index < c.length) (h : entered? s text = some q) :
    c.Writes index s q (c.update index s text) where
  written := by rw [slot_update_eq, if_pos ⟨rfl, hindex⟩, h, Option.some_or]
  slots i s' hne := by rw [slot_update_eq, if_neg fun hslot => hne hslot.1]
  terms i hne := by
    rw [update_of_entered h]
    exact List.getElem?_modify_ne _ _ (Ne.symm hne)
  ids := c.ids_update index s text
  length := c.length_update index s text

/--
**Entering a text writes one slot.**

If the text is not ignored it is read as a quantity, and the edited chain is the one that has this
quantity in the slot and is the same in all else. If it is ignored, nothing happens. Hence edits of
different slots may change places, whatever is typed, and an edit that is not ignored undoes any
earlier one of the same slot. And a text that is not read as the number one may be entered before a
term is turned over, or afterwards on the other side.
-/
theorem update_writes_slot (c : Chain) (index : Nat) (s : Side) (text : String) :
    (c.Ignores index s text → c.update index s text = c)
    ∧ (¬ c.Ignores index s text → ∃ q, Field.quantity? text = some q
        ∧ ∀ c', c.Writes index s q c' ↔ c' = c.update index s text)
    ∧ (∀ index' s' text', (index, s) ≠ (index', s') →
        (c.update index s text).update index' s' text'
          = (c.update index' s' text').update index s text)
    ∧ (∀ text', ¬ c.Ignores index s text' →
        (c.update index s text).update index s text' = c.update index s text')
    ∧ ∀ q, Field.quantity? text = some q → q ≠ .identity →
        (c.update index s text).flip index = (c.flip index).update index s.opposite text := by
  refine ⟨fun h => ?_, fun h => ?_, fun index' s' text' => update_comm text text',
    fun text' h => ?_, fun q => flip_update⟩
  · rcases h with hout | hnone
    · refine eq_of_ids_of_slot (c.ids_update index s text) fun i r => ?_
      rw [slot_update_eq, if_neg fun hslot => Nat.not_lt.mpr hout hslot.2]
    · exact update_of_not_entered (entered?_eq_none_iff.mpr hnone)
  · rw [Ignores, not_or, ← entered?_eq_none_iff, Nat.not_le] at h
    obtain ⟨q, hq⟩ := Option.ne_none_iff_exists'.mp h.2
    have hwrites := writes_update h.1 hq
    exact ⟨q, (entered?_eq_some_iff.mp hq).1, fun c' =>
      ⟨fun h' => h'.unique hwrites, fun heq => heq ▸ hwrites⟩⟩
  · rw [Ignores, not_or, ← entered?_eq_none_iff] at h
    exact update_update text h.2

/-- On the day of picking a word that is no label leaves the number one, and below the line that is
ignored. Five kilograms are not. -/
theorem update_writes_slot_picking :
    (grapesPerDay .counted).Ignores 0 .denominator "1 $$"
    ∧ (grapesPerDay .counted).update 0 .denominator "1 $$" = grapesPerDay .counted
    ∧ ¬ (grapesPerDay .counted).Ignores 2 .denominator "5 kg"
    ∧ (∃ q, Field.quantity? "5 kg" = some q ∧ q ≠ .identity
        ∧ (grapesPerDay .counted).Writes 2 .denominator q
            ((grapesPerDay .counted).update 2 .denominator "5 kg")
        ∧ ((grapesPerDay .counted).update 2 .denominator "5 kg").flip 2
            = ((grapesPerDay .counted).flip 2).update 2 .numerator "5 kg")
    ∧ ((grapesPerDay .counted).update 2 .denominator "5 kg").update 2 .numerator "1"
        = ((grapesPerDay .counted).update 2 .numerator "1").update 2 .denominator "5 kg"
    ∧ ((grapesPerDay .counted).update 2 .denominator "7").update 2 .denominator "5 kg"
        = (grapesPerDay .counted).update 2 .denominator "5 kg" := by
  have hone : (grapesPerDay .counted).Ignores 0 .denominator "1 $$" := by decide +kernel
  have hfive : ¬ (grapesPerDay .counted).Ignores 2 .denominator "5 kg" := by decide +kernel
  obtain ⟨hignored, -⟩ := update_writes_slot (grapesPerDay .counted) 0 .denominator "1 $$"
  obtain ⟨-, hwrites, hcomm, -, hflip⟩ :=
    update_writes_slot (grapesPerDay .counted) 2 .denominator "5 kg"
  obtain ⟨-, -, -, hlater, -⟩ := update_writes_slot (grapesPerDay .counted) 2 .denominator "7"
  obtain ⟨q, hread, hq⟩ := hwrites hfive
  have hne : q ≠ .identity := fun h => hfive (.inr (.inr ⟨rfl, h ▸ hread⟩))
  exact ⟨hone, hignored hone, hfive, ⟨q, hread, hne, (hq _).mpr rfl, hflip q hread hne⟩,
    hcomm 2 .numerator "1" (by decide), hlater "5 kg" hfive⟩

end Chain

end FactorLabel
