import FactorLabel.Proofs.Chain.Session
import Mathlib.Data.List.Perm.Subperm

/-!
# Terms that can be followed

A host that follows a term by its identifier has to know what an edit does to the identifiers of a
chain. Each edit does one thing to them: nothing, a move, one more, one fewer, or a selection in
the old order. So if nothing is put in under an identifier that is in use, no identifier is ever
used twice, and none turns up that nobody put in.
-/

namespace FactorLabel

/-- The element at `source` taken out and put back so that it ends up at `target`. -/
def moved {α : Type} (source target : Nat) (l : List α) : List α :=
  if h : source < l.length ∧ target < l.length then
    (l.eraseIdx source).insertIdx target (l.get ⟨source, h.1⟩)
  else l

theorem map_moved {α β : Type} (f : α → β) (source target : Nat) (l : List α) :
    (moved source target l).map f = moved source target (l.map f) := by
  simp only [moved, List.length_map]
  split
  · rw [List.map_insertIdx, ← List.eraseIdx_map, List.get_eq_getElem, List.get_eq_getElem,
      List.getElem_map]
  · rfl

theorem moved_perm {α : Type} (source target : Nat) (l : List α) :
    (moved source target l).Perm l := by
  rw [moved]
  split
  · rename_i hlt
    have hle : target ≤ (l.eraseIdx source).length := by
      rw [List.length_eraseIdx_of_lt hlt.1]
      omega
    exact (List.perm_insertIdx _ _ hle).trans (List.getElem_cons_eraseIdx_perm hlt.1)
  · exact .refl _

/-- A change at one place is not seen by what it leaves alone. -/
theorem map_modify_of_forall {α β : Type} {f : α → α} {g : α → β} (h : ∀ a, g (f a) = g a)
    (l : List α) (index : Nat) : (l.modify index f).map g = l.map g := by
  induction l generalizing index with
  | nil => rw [List.modify_nil]
  | cons a l ih =>
      cases index with
      | zero => rw [List.modify_zero_cons, List.map_cons, List.map_cons, h]
      | succ index => rw [List.modify_succ_cons, List.map_cons, List.map_cons, ih]

namespace Chain

/-! ## What an edit does to the identifiers -/

theorem ids_modify (c : Chain) (index : Nat) {f : Term → Term} (h : ∀ t, (f t).id = t.id) :
    (c.modify index f).ids = c.ids := map_modify_of_forall h c.terms index

theorem ids_update (c : Chain) (index : Nat) (s : Side) (text : String) :
    (c.update index s text).ids = c.ids := by
  rw [update]
  split
  · rfl
  · split
    · rfl
    · exact c.ids_modify index fun _ => rfl

theorem ids_flip (c : Chain) (index : Nat) : (c.flip index).ids = c.ids :=
  c.ids_modify index fun _ => rfl

theorem terms_move (c : Chain) (source target : Nat) :
    (c.move source target).terms = moved source target c.terms := by
  rw [move, apply_dite Chain.terms]
  rfl

theorem ids_move (c : Chain) (source target : Nat) :
    (c.move source target).ids = moved source target c.ids := by
  rw [ids, terms_move, map_moved, ids]

theorem ids_insert (c : Chain) (index : Nat) (t : Term) :
    (c.insert index t).ids = c.ids.insertIdx (min index c.length) t.id := by
  rw [ids, insert, List.map_insertIdx, ids]

/-- The number one stands in only where the last term is taken out. -/
theorem ids_remove (c : Chain) (fresh : TermId) (index : Nat) :
    (c.remove fresh index).ids =
      if index < c.length then if c.length = 1 then [fresh] else c.ids.eraseIdx index
      else c.ids := by
  rw [remove]
  split
  · rename_i hlt
    have hlength : (c.terms.eraseIdx index).length = c.length - 1 := List.length_eraseIdx_of_lt hlt
    have hlast : c.terms.eraseIdx index = [] ↔ c.length = 1 := by
      rw [← List.length_eq_zero_iff]
      omega
    rw [ofTerms]
    split
    · rename_i hnil
      rw [if_pos (hlast.mp hnil)]
      rfl
    · rename_i hnil
      rw [if_neg fun hone => hnil (hlast.mpr hone), ids, ids, List.eraseIdx_map]
  · rfl

/-- The terms that are kept keep their identifiers, and the number one has that of the first. -/
theorem ids_simplify (c : Chain) :
    c.simplify.ids =
      if c.terms.all (·.isTrivial) then [c.first.id]
      else (c.terms.filter (!·.isTrivial)).map Term.id := by
  have hall : c.terms.filter (!·.isTrivial) = [] ↔ c.terms.all (·.isTrivial) = true := by
    simp [List.filter_eq_nil_iff]
  rw [simplify]
  split
  · rename_i hnil
    rw [if_pos (hall.mp hnil)]
    split
    · rename_i hone
      obtain ⟨t, ht⟩ := List.length_eq_one_iff.mp hone
      simp only [ids, first, ht, List.map_cons, List.map_nil, List.head_cons]
    · rfl
  · rename_i hnil
    rw [if_neg fun htrivial => hnil (hall.mpr htrivial), ids]

theorem first_id_sublist (c : Chain) : [c.first.id].Sublist c.ids :=
  List.singleton_sublist.mpr (List.mem_map_of_mem (List.head_mem c.nonempty))

theorem ids_simplify_sublist (c : Chain) : c.simplify.ids.Sublist c.ids := by
  rw [ids_simplify]
  split
  · exact c.first_id_sublist
  · exact List.filter_sublist.map Term.id

/-- What each edit of a single term does to the identifiers, and what simplification does. -/
structure KeepsIdentity (c : Chain) : Prop where
  update : ∀ index s text, (c.update index s text).ids = c.ids
  flip : ∀ index, (c.flip index).ids = c.ids
  /-- Identifiers go with their terms. -/
  move : ∀ source target, (c.move source target).terms = moved source target c.terms
    ∧ (c.move source target).ids = moved source target c.ids
  insert : ∀ index t, (c.insert index t).ids = c.ids.insertIdx (min index c.length) t.id
  remove : ∀ fresh index, (c.remove fresh index).ids =
    if index < c.length then if c.length = 1 then [fresh] else c.ids.eraseIdx index else c.ids
  simplify : c.simplify.ids.Sublist c.ids
  /-- Several terms that are all trivial become one, which has the identifier of the first. -/
  simplify_trivial : 1 < c.length → (∀ t ∈ c.terms, t.isTrivial = true) →
    c.simplify.ids = [c.first.id]

theorem keepsIdentity (c : Chain) : c.KeepsIdentity where
  update := c.ids_update
  flip := c.ids_flip
  move source target := ⟨c.terms_move source target, c.ids_move source target⟩
  insert := c.ids_insert
  remove := c.ids_remove
  simplify := c.ids_simplify_sublist
  simplify_trivial _ hall := by rw [ids_simplify, if_pos (List.all_eq_true.mpr hall)]

/-! ## One step -/

/-- The identifiers that an edit brings in. A removal has one ready, and uses it for the number one
that stands in for the last term. -/
def introducedBy (c : Chain) : Edit → List TermId
  | .insert _ t => [t.id]
  | .remove fresh index => if index < c.length ∧ c.length = 1 then [fresh] else []
  | _ => []

theorem introducedBy_nodup (c : Chain) (e : Edit) : (c.introducedBy e).Nodup := by
  cases e with
  | insert index t => exact List.nodup_singleton _
  | remove fresh index =>
      rw [introducedBy]
      split
      · exact List.nodup_singleton _
      · exact .nil
  | update index s text => exact .nil
  | flip index => exact .nil
  | move source target => exact .nil
  | simplify => exact .nil
  | select fresh indices => exact .nil

end Chain

/-- A selection may take a term several times. All other edits keep the terms apart. -/
def Edit.KeepsApart : Edit → Prop
  | .select _ _ => False
  | _ => True

namespace Chain

/-- **One step.** Each identifier after an edit is one from before it, or one that it brings in,
counted as often as it occurs. -/
theorem ids_apply_subperm (c : Chain) {e : Edit} (h : e.KeepsApart) :
    (c.apply e).ids.Subperm (c.introducedBy e ++ c.ids) := by
  cases e with
  | insert index t =>
      rw [apply, ids_insert]
      have hle : min index c.length ≤ c.ids.length := by
        rw [ids, List.length_map]
        exact Nat.min_le_right _ _
      exact (List.perm_insertIdx _ _ hle).subperm
  | update index s text =>
      rw [apply, ids_update]
      exact .refl _
  | remove fresh index =>
      rw [apply, ids_remove, introducedBy]
      by_cases hlt : index < c.length
      · by_cases hone : c.length = 1
        · rw [if_pos hlt, if_pos hone, if_pos ⟨hlt, hone⟩]
          exact (List.sublist_append_left _ _).subperm
        · rw [if_pos hlt, if_neg hone, if_neg fun h => hone h.2]
          exact (List.eraseIdx_sublist _ _).subperm
      · rw [if_neg hlt, if_neg fun h => hlt h.1]
        exact .refl _
  | flip index =>
      rw [apply, ids_flip]
      exact .refl _
  | move source target =>
      rw [apply, ids_move]
      exact (moved_perm _ _ _).subperm
  | simplify => exact c.ids_simplify_sublist.subperm
  | select fresh indices => exact h.elim

/-- No identifier occurs more often than before, unless it is a new one, which occurs once. -/
theorem count_ids_apply (c : Chain) {e : Edit} (h : e.KeepsApart)
    (hnew : ∀ id ∈ c.introducedBy e, id ∉ c.ids) (id : TermId) :
    (c.apply e).ids.count id ≤ max (c.ids.count id) 1 := by
  have hcount := (c.ids_apply_subperm h).count_le id
  rw [List.count_append] at hcount
  by_cases hid : id ∈ c.introducedBy e
  · have hzero : c.ids.count id = 0 := List.count_eq_zero.mpr (hnew id hid)
    have hone := List.nodup_iff_count_le_one.mp (c.introducedBy_nodup e) id
    omega
  · have hzero : (c.introducedBy e).count id = 0 := List.count_eq_zero.mpr hid
    omega

/-! ## Whole runs -/

/-- Whatever the script brings in differs at that time from all identifiers in the chain. -/
inductive Fresh : Chain → List Edit → Prop where
  | nil (c : Chain) : Fresh c []
  | cons {c : Chain} {e : Edit} {script : List Edit} (apart : e.KeepsApart)
      (new : ∀ id ∈ c.introducedBy e, id ∉ c.ids) (rest : Fresh (c.apply e) script) :
      Fresh c (e :: script)

/-- The identifiers that the steps of a script bring in. -/
def introduced (c : Chain) : List Edit → List TermId
  | [] => []
  | e :: script => c.introducedBy e ++ (c.apply e).introduced script

variable {c : Chain} {script : List Edit}

theorem Fresh.of_prefix (h : c.Fresh script) {done : List Edit} (hdone : done <+: script) :
    c.Fresh done := by
  induction h generalizing done with
  | nil c =>
      rw [List.prefix_nil.mp hdone]
      exact .nil c
  | cons apart new _ ih =>
      cases done with
      | nil => exact .nil _
      | cons e' done =>
          obtain ⟨rfl, hrest⟩ := List.cons_prefix_cons.mp hdone
          exact .cons apart new (ih hrest)

/-- The bound of one step is the bound of a whole run, since it is reached only once. -/
theorem Fresh.count_ids_run (h : c.Fresh script) (id : TermId) :
    (c.run script).ids.count id ≤ max (c.ids.count id) 1 := by
  induction h with
  | nil c => exact Nat.le_max_left _ _
  | @cons c e script apart new rest ih =>
      have hstep := c.count_ids_apply apart new id
      have hrest : (c.run (e :: script)).ids.count id ≤ max ((c.apply e).ids.count id) 1 := ih
      omega

theorem Fresh.nodup_run (h : c.Fresh script) (hstart : c.ids.Nodup) : (c.run script).ids.Nodup := by
  rw [List.nodup_iff_count_le_one] at hstart ⊢
  intro id
  have hcount := h.count_ids_run id
  have hone := hstart id
  omega

theorem Fresh.mem_ids_run (h : c.Fresh script) {id : TermId} (hid : id ∈ (c.run script).ids) :
    id ∈ c.ids ∨ id ∈ c.introduced script := by
  induction h with
  | nil c => exact .inl hid
  | @cons c e script apart new rest ih =>
      rw [introduced, List.mem_append]
      rcases ih hid with hold | hlater
      · rcases List.mem_append.mp ((c.ids_apply_subperm apart).subset hold) with hnew | hold
        · exact .inr (.inl hnew)
        · exact .inl hold
      · exact .inr (.inr hlater)

/-- A chain of given ratios has the identifiers that were drawn for it. -/
theorem nodup_ids_ofRatios {fresh : Nat → TermId} {rs : List Ratio}
    (h : ∀ i < rs.length, ∀ j < rs.length, fresh i = fresh j → i = j) :
    (ofRatios fresh rs).ids.Nodup := by
  rw [ofRatios, ofTerms]
  split
  · exact List.nodup_singleton _
  · have hids : (rs.mapIdx fun i r => (⟨r, fresh i⟩ : Term)).map Term.id
        = (List.range rs.length).map fresh := by
      refine List.ext_getElem (by simp) fun i _ _ => ?_
      rw [List.getElem_map, List.getElem_mapIdx, List.getElem_map, List.getElem_range]
    rw [ids, hids]
    refine List.Nodup.map_on (fun i hi j hj => ?_) List.nodup_range
    exact h i (List.mem_range.mp hi) j (List.mem_range.mp hj)

/--
**Terms can be followed by their identifiers.**

Every edit keeps the identifiers with their terms. Take a script that brings in only identifiers
that are not in use at the time. Then no chain on the way has an identifier twice, unless the first
chain had it already, and even then not more often. At the end there are only identifiers that
were there at the start or that a step brought in.

A chain that is made of ratios has no identifier twice, if none is drawn twice for it.
-/
theorem identity_of_terms :
    (∀ c : Chain, c.KeepsIdentity)
    ∧ (∀ (c : Chain) (script : List Edit), c.Fresh script →
        (∀ done, done <+: script →
          (c.ids.Nodup → (c.run done).ids.Nodup)
          ∧ ∀ id, (c.run done).ids.count id ≤ max (c.ids.count id) 1)
        ∧ ∀ id ∈ (c.run script).ids, id ∈ c.ids ∨ id ∈ c.introduced script)
    ∧ ∀ (fresh : Nat → TermId) (rs : List Ratio),
        (∀ i < rs.length, ∀ j < rs.length, fresh i = fresh j → i = j) →
        (ofRatios fresh rs).ids.Nodup := by
  refine ⟨keepsIdentity, fun c script h => ⟨fun done hdone => ?_, fun id hid => h.mem_ids_run hid⟩,
    fun fresh rs h => nodup_ids_ofRatios h⟩
  have hfresh := h.of_prefix hdone
  exact ⟨hfresh.nodup_run, hfresh.count_ids_run⟩

/-- The number one is put in and simplified away again, and in the end every term is taken out, so
that one takes their place. -/
def emptied : List Edit :=
  [.insert 9 (.identity (.counted 5)), .update 0 .denominator "-2 m", .flip 0, .move 0 3, .simplify,
    .remove (.counted 6) 1, .remove (.counted 6) 0, .remove (.counted 6) 0]

/-- A day of picking that is taken apart. -/
theorem identity_of_terms_emptied :
    ((grapesPerDay .counted).run emptied).ids.Nodup
      ∧ ∀ id ∈ ((grapesPerDay .counted).run emptied).ids,
        id ∈ (grapesPerDay .counted).ids ∨ id ∈ (grapesPerDay .counted).introduced emptied := by
  have hfresh : (grapesPerDay .counted).Fresh emptied := by
    repeat refine .cons trivial (by decide +kernel) ?_
    exact .nil _
  obtain ⟨-, hrun, hdrawn⟩ := identity_of_terms
  have hstart : (grapesPerDay .counted).ids.Nodup := hdrawn .counted _ (by decide +kernel)
  obtain ⟨hway, hend⟩ := hrun _ _ hfresh
  exact ⟨(hway emptied (List.prefix_refl _)).1 hstart, hend⟩

end Chain

end FactorLabel
