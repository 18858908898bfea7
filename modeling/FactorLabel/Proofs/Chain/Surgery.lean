import FactorLabel.Proofs.Chain.Identity

/-!
# Terms that come in, go out and move

A list with an element put in is known by the other elements, the one that was put in, and its
place. All edits by position are said with this one relation. To put a term in is to go from the
others to the list, to take one out is to go back, and to move a term is to go back at one place and
forth at another. So the edits undo each other, and nobody has to count what was shifted by one, and
in which direction.
-/

namespace FactorLabel

/-! ## An element among the others -/

/-- The list has `a` at the place `i`, and the others are `rest`, in their order. -/
structure PutIn {α : Type} (rest : List α) (i : Nat) (a : α) (l : List α) : Prop where
  placed : l[i]? = some a
  others : l.eraseIdx i = rest

namespace PutIn

variable {α : Type} {rest l l' : List α} {i : Nat} {a : α}

theorem insertIdx (h : i ≤ rest.length) (a : α) : PutIn rest i a (rest.insertIdx i a) where
  placed := by rw [List.getElem?_insertIdx_self, if_pos h]
  others := List.eraseIdx_insertIdx_self a

theorem length_eq (h : PutIn rest i a l) : l.length = rest.length + 1 := by
  have hlt := (List.getElem?_eq_some_iff.mp h.placed).1
  rw [← h.others, List.length_eraseIdx_of_lt hlt]
  omega

theorem le_length (h : PutIn rest i a l) : i ≤ rest.length := by
  have hlt := (List.getElem?_eq_some_iff.mp h.placed).1
  have hlength := h.length_eq
  omega

theorem eq_insertIdx (h : PutIn rest i a l) : l = rest.insertIdx i a := by
  obtain ⟨hlt, hget⟩ := List.getElem?_eq_some_iff.mp h.placed
  rw [← h.others, ← hget, List.insertIdx_eraseIdx_getElem hlt]

/-- **The others, the element and its place are all there is to the list.** -/
theorem unique (h : PutIn rest i a l) (h' : PutIn rest i a l') : l = l' :=
  h.eq_insertIdx.trans h'.eq_insertIdx.symm

/-- Taking an element out and putting it in again. -/
theorem exists_moved {source target : Nat} (hsource : source < l.length)
    (htarget : target < l.length) :
    ∃ a rest, PutIn rest source a l ∧ PutIn rest target a (moved source target l) := by
  have hle : target ≤ (l.eraseIdx source).length := by
    rw [List.length_eraseIdx_of_lt hsource]
    omega
  refine ⟨l[source], l.eraseIdx source, ⟨List.getElem?_eq_getElem hsource, rfl⟩, ?_⟩
  rw [moved, dif_pos ⟨hsource, htarget⟩]
  exact insertIdx hle l[source]

end PutIn

/-! ## The edits -/

namespace Chain

variable {c c' : Chain} {index source target : Nat} {t : Term} {rest : List Term}

theorem putIn_insert (c : Chain) (index : Nat) (t : Term) :
    PutIn c.terms (min index c.length) t (c.insert index t).terms :=
  .insertIdx (Nat.min_le_right index c.length) t

/-- The term at an index and the terms that are left are put together to the chain. -/
theorem putIn_remove (fresh : TermId) (hmore : 1 < c.length) (h : c.terms[index]? = some t) :
    PutIn (c.remove fresh index).terms index t c.terms := by
  have hlt : index < c.length := (List.getElem?_eq_some_iff.mp h).1
  have hlength : (c.terms.eraseIdx index).length = c.length - 1 := List.length_eraseIdx_of_lt hlt
  have hne : c.terms.eraseIdx index ≠ [] := by
    rw [← List.length_pos_iff]
    omega
  refine ⟨h, ?_⟩
  rw [remove, if_pos hlt, ofTerms, dif_neg hne]

theorem exists_putIn_move (hsource : source < c.length) (htarget : target < c.length) :
    ∃ t rest, PutIn rest source t c.terms ∧ PutIn rest target t (c.move source target).terms := by
  rw [terms_move]
  exact PutIn.exists_moved hsource htarget

/-! Each edit is the only one that does what it does. -/

theorem insert_eq (h : PutIn c.terms index t c'.terms) : c.insert index t = c' := by
  have hmin : min index c.length = index := Nat.min_eq_left h.le_length
  have hput := c.putIn_insert index t
  rw [hmin] at hput
  exact ext_terms (hput.unique h)

/-- A chain that came from another one by putting a term in has a term to spare. -/
theorem remove_eq (fresh : TermId) (h : PutIn c'.terms index t c.terms) :
    c.remove fresh index = c' := by
  have hpos := List.length_pos_iff.mpr c'.nonempty
  have hmore : 1 < c.length := by
    rw [length, h.length_eq]
    omega
  have hput := putIn_remove fresh hmore h.placed
  exact ext_terms (hput.others.symm.trans h.others)

theorem move_eq (h : PutIn rest source t c.terms) (h' : PutIn rest target t c'.terms) :
    c.move source target = c' := by
  have hlength : c.length = rest.length + 1 := h.length_eq
  have hsource := h.le_length
  have htarget := h'.le_length
  have hsourceLt : source < c.length := by omega
  have htargetLt : target < c.length := by omega
  obtain ⟨u, others, hout, hin⟩ := exists_putIn_move hsourceLt htargetLt
  -- the same place holds the same term, among the same others
  cases hout.placed.symm.trans h.placed
  cases hout.others.symm.trans h.others
  exact ext_terms (hin.unique h')

theorem move_of_not_lt (h : ¬ (source < c.length ∧ target < c.length)) :
    c.move source target = c := dif_neg h

/--
**Edits by position.**

A term is put in at its index, or at the end if there is no such index, and the others stay as they
are. Taking it out again gives the chain back, and so does putting a term back that was not the only
one. A term that is moved ends up at the target, with the others in their old order; moving it back
gives the chain back, and moving it to its own place does nothing. An index that is out of range
does nothing either.
-/
theorem edits_by_position (c : Chain) :
    (∀ index t, PutIn c.terms (min index c.length) t (c.insert index t).terms
      ∧ ∀ fresh, (c.insert index t).remove fresh (min index c.length) = c)
    ∧ (∀ fresh index t, 1 < c.length → c.terms[index]? = some t →
        PutIn (c.remove fresh index).terms index t c.terms
        ∧ (c.remove fresh index).insert index t = c)
    ∧ (∀ source target, source < c.length → target < c.length →
        (c.move source target).terms.Perm c.terms
        ∧ (∃ t rest, PutIn rest source t c.terms
            ∧ PutIn rest target t (c.move source target).terms)
        ∧ (c.move source target).move target source = c)
    ∧ (∀ index, c.move index index = c)
    ∧ ∀ index, c.length ≤ index → (∀ fresh, c.remove fresh index = c) ∧ c.flip index = c
        ∧ ∀ other, c.move index other = c ∧ c.move other index = c := by
  refine ⟨fun index t => ?_, fun fresh index t hmore ht => ?_,
    fun source target hsource htarget => ?_, fun index => ?_, fun index hout => ?_⟩
  · have hput := c.putIn_insert index t
    exact ⟨hput, fun fresh => remove_eq fresh hput⟩
  · have hput := putIn_remove fresh hmore ht
    exact ⟨hput, insert_eq hput⟩
  · obtain ⟨t, rest, htaken, hput⟩ := exists_putIn_move hsource htarget
    refine ⟨?_, ⟨t, rest, htaken, hput⟩, move_eq hput htaken⟩
    rw [terms_move]
    exact moved_perm source target c.terms
  · by_cases hlt : index < c.length
    · have hput : PutIn (c.terms.eraseIdx index) index c.terms[index] c.terms :=
        ⟨List.getElem?_eq_getElem hlt, rfl⟩
      exact move_eq hput hput
    · exact move_of_not_lt fun h => hlt h.1
  · have hnot := Nat.not_lt.mpr hout
    exact ⟨fun fresh => if_neg hnot, ext_terms (List.modify_eq_self hout),
      fun other => ⟨move_of_not_lt fun h => hnot h.1, move_of_not_lt fun h => hnot h.2⟩⟩

/-- Five days of picking. A term that is put in at the largest index of a machine word is the last
one, the second term is taken out and put back, and the first one goes to the end and back. -/
theorem edits_by_position_picking :
    ((grapesPerMetre .counted).insert 18446744073709551615 (.identity (.counted 9))).ids
        = [0, 1, 2, 3, 9].map .counted
    ∧ ((grapesPerMetre .counted).insert 18446744073709551615 (.identity (.counted 9))).remove
        (.counted 7) 4 = grapesPerMetre .counted
    ∧ 1 < (grapesPerMetre .counted).length
    ∧ (∃ t, (grapesPerMetre .counted).terms[1]? = some t
        ∧ ((grapesPerMetre .counted).remove (.counted 7) 1).insert 1 t = grapesPerMetre .counted)
    ∧ ((grapesPerMetre .counted).move 0 3).ids = [1, 2, 3, 0].map .counted
    ∧ ((grapesPerMetre .counted).move 0 3).move 3 0 = grapesPerMetre .counted
    ∧ (grapesPerMetre .counted).move 0 4 = grapesPerMetre .counted := by
  obtain ⟨hinsert, hremove, hmove, -, hout⟩ := edits_by_position (grapesPerMetre .counted)
  have hmore : 1 < (grapesPerMetre .counted).length := by decide
  exact ⟨by decide, (hinsert 18446744073709551615 (.identity (.counted 9))).2 (.counted 7), hmore,
    ⟨_, rfl, (hremove (.counted 7) 1 _ hmore rfl).2⟩, by decide,
    (hmove 0 3 (by decide) (by decide)).2.2, ((hout 4 (by decide)).2.2 0).2⟩

end Chain

end FactorLabel
