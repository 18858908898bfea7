import FactorLabel.Proofs.Labels.Order
import FactorLabel.Stored.Chain
import Mathlib.Data.Set.Card

/-!
# The history of a map

Labels are kept as a list of entries that is searched, overwritten in place, shortened and
extended. Here a map is described by its history instead, the writes that made it, and without
any list: what a label has is what the writes to that label leave of zero, and where it stands is
decided by when it came in for the last time. A map that is added to another one counts as the
writes of its entries.

The invariant is `Reflects`. One write keeps it, and every way to make a map is a list of writes.
-/

namespace FactorLabel

/-! ## Writes -/

/-- One change of the exponent of one label. -/
inductive Write where
  | add (label : String) (n : Exponent)
  | set (label : String) (n : Exponent)
  deriving DecidableEq

namespace Write

/-- The label that is written. -/
def label : Write → String
  | add label _ => label
  | set label _ => label

/-- What the write makes of the exponent of its label. Sums stop at both ends of the range. -/
def result : Write → Int → Int
  | add _ n, x => max Int64.minValue.toInt (min Int64.maxValue.toInt (x + n.toInt))
  | set _ n, _ => n.toInt

/-- A power that is added. -/
def ofPower (p : Power) : Write := add p.label p.exponent

/-- What the write makes of the labels. -/
def apply (m : Labels) : Write → Labels
  | add label n => m.add label n
  | set label n => m.set label n

end Write

/-- What the writes leave of the exponent zero. Writes to other labels do not count. -/
def exponentAfter (ws : List Write) (label : String) : Int :=
  ws.foldl (fun x w => if w.label = label then w.result x else x) 0

/-- The last time that the label comes in: it is absent after `k` writes, and from then on it is
there. -/
structure EntersAt (ws : List Write) (label : String) (k : Nat) : Prop where
  lt : k < ws.length
  absent : exponentAfter (ws.take k) label = 0
  present : ∀ i, k < i → i ≤ ws.length → exponentAfter (ws.take i) label ≠ 0

/-- The map is what its history says. -/
structure Reflects (ws : List Write) (m : Labels) : Prop where
  distinct : m.labels.Nodup
  nonzero : ∀ p ∈ m.entries, p.exponent ≠ 0
  exponent : ∀ label, (m.get label).toInt = exponentAfter ws label
  contains : ∀ label, m.contains label = true ↔ exponentAfter ws label ≠ 0
  size : m.size = {label | exponentAfter ws label ≠ 0}.ncard
  /-- The labels stand in the order in which they came in for the last time. -/
  order : m.labels.Pairwise fun a b => ∃ i j, EntersAt ws a i ∧ EntersAt ws b j ∧ i < j

/-- How maps are made, and the writes that each way comes to. -/
inductive Made : List Write → Labels → Prop where
  | empty : Made [] .empty
  | add {ws : List Write} {m : Labels} (made : Made ws m) (label : String) (n : Exponent) :
      Made (ws ++ [.add label n]) (m.add label n)
  | set {ws : List Write} {m : Labels} (made : Made ws m) (label : String) (n : Exponent) :
      Made (ws ++ [.set label n]) (m.set label n)
  | extend {ws : List Write} {m : Labels} (made : Made ws m) (ps : List Power) :
      Made (ws ++ ps.map .ofPower) (m.extend ps)
  /-- The entries of the second factor are added to the first, in their order. -/
  | mul {ws ws' : List Write} {a b : Labels} (left : Made ws a) (right : Made ws' b) :
      Made (ws ++ b.entries.map .ofPower) (a * b)
  | collect (ps : List Power) : Made (ps.map .ofPower) (.ofList ps)
  /-- The fields of an object are added one after the other. -/
  | parsed {fields : List (Option String × Json)} {m : Labels}
      (read : Labels.ofJson? (.object fields) = some m) :
      Made ((fields.filterMap Power.ofField?).map .ofPower) m

/-! ## Exponents -/

theorem exponentAfter_concat (ws : List Write) (w : Write) (label : String) :
    exponentAfter (ws ++ [w]) label
      = if w.label = label then w.result (exponentAfter ws label) else exponentAfter ws label :=
  List.foldl_append

namespace Labels

theorem toInt_get_write {ws : List Write} {m : Labels}
    (h : ∀ label, (m.get label).toInt = exponentAfter ws label) (w : Write) (label : String) :
    ((w.apply m).get label).toInt = exponentAfter (ws ++ [w]) label := by
  rw [exponentAfter_concat, ← h]
  cases w with
  | add l n =>
      show ((m.add l n).get label).toInt = if l = label then _ else _
      rw [get_add]
      by_cases hl : label = l
      · rw [if_pos hl, if_pos hl.symm, Exponent.toInt_saturatingAdd_eq]
        rfl
      · rw [if_neg hl, if_neg (Ne.symm hl)]
  | set l n =>
      show ((m.set l n).get label).toInt = if l = label then _ else _
      rw [get_set]
      by_cases hl : label = l
      · rw [if_pos hl, if_pos hl.symm]
        rfl
      · rw [if_neg hl, if_neg (Ne.symm hl)]

/-! ## The order of the labels -/

/-- One write: the label goes out, stays where it is, or comes in at the end. -/
theorem labels_write (m : Labels) (w : Write) : (w.apply m).labels =
    if (w.apply m).get w.label = 0 then m.labels.erase w.label
    else if w.label ∈ m.labels then m.labels else m.labels ++ [w.label] := by
  -- both writes alter the exponent of one label
  have halter : ∀ (label : String) (f : Exponent → Exponent), (m.alter label f).labels =
      if (m.alter label f).get label = 0 then m.labels.erase label
      else if label ∈ m.labels then m.labels else m.labels ++ [label] := by
    intro label f
    rw [get_alter, if_pos rfl]
    exact m.labels_alter label f
  cases w with
  | add l n => exact halter l _
  | set l n => exact halter l _

end Labels

theorem EntersAt.concat {ws : List Write} {label : String} {k : Nat} (h : EntersAt ws label k)
    {w : Write} (hpresent : exponentAfter (ws ++ [w]) label ≠ 0) :
    EntersAt (ws ++ [w]) label k where
  lt := by
    have hlt := h.lt
    rw [List.length_append]
    omega
  absent := by
    rw [List.take_append_of_le_length (Nat.le_of_lt h.lt)]
    exact h.absent
  present i hki hi := by
    rw [List.length_append, List.length_singleton] at hi
    rcases Nat.lt_or_ge ws.length i with hlast | hbefore
    · have hall : ws.length + 1 = i := by omega
      rw [← hall, List.take_of_length_le (by simp)]
      exact hpresent
    · rw [List.take_append_of_le_length hbefore]
      exact h.present i hki hbefore

/-- A label that the last write brought in came in with it. -/
theorem EntersAt.last {ws : List Write} {w : Write} {label : String}
    (habsent : exponentAfter ws label = 0) (hpresent : exponentAfter (ws ++ [w]) label ≠ 0) :
    EntersAt (ws ++ [w]) label ws.length where
  lt := by simp
  absent := by
    rw [List.take_left]
    exact habsent
  present i hki hi := by
    rw [List.length_append, List.length_singleton] at hi
    have hall : ws.length + 1 = i := by omega
    rw [← hall, List.take_of_length_le (by simp)]
    exact hpresent

/-- Every label that is there came in at some time. -/
theorem exists_entersAt {ws : List Write} {label : String} (h : exponentAfter ws label ≠ 0) :
    ∃ k, EntersAt ws label k := by
  induction ws using List.reverseRecOn with
  | nil => exact absurd rfl h
  | append_singleton ws w ih =>
      by_cases hz : exponentAfter ws label = 0
      · exact ⟨ws.length, .last hz h⟩
      · obtain ⟨k, hk⟩ := ih hz
        exact ⟨k, hk.concat h⟩

/-! ## One write -/

namespace Reflects

variable {ws : List Write} {m : Labels}

/-- Distinct labels, exponents that are not zero and lookups belong together; only the exponents
and the order have to be shown. -/
theorem of_exponent_of_order (hexp : ∀ label, (m.get label).toInt = exponentAfter ws label)
    (horder : m.labels.Pairwise fun a b => ∃ i j, EntersAt ws a i ∧ EntersAt ws b j ∧ i < j) :
    Reflects ws m := by
  have hne : ∀ label, m.get label ≠ 0 ↔ exponentAfter ws label ≠ 0 := by
    intro label
    rw [← hexp, Ne, Ne, Exponent.toInt_eq_zero_iff]
  refine ⟨m.distinct, m.nonzero, hexp, fun label => ?_, ?_, horder⟩
  · rw [Labels.contains_iff, hne]
  · have hset : {label | exponentAfter ws label ≠ 0} = (m.labels.toFinset : Set String) := by
      ext label
      rw [Set.mem_ofPred_eq, Finset.mem_coe, List.mem_toFinset, Labels.mem_labels_iff, hne]
    have hdistinct : m.labels.Nodup := m.distinct
    rw [hset, Set.ncard_coe_finset, List.toFinset_card_of_nodup hdistinct]
    exact (List.length_map Power.label).symm

theorem exponentAfter_ne_zero_of_mem (h : Reflects ws m) {label : String}
    (hmem : label ∈ m.labels) : exponentAfter ws label ≠ 0 := by
  rw [← h.exponent, Ne, Exponent.toInt_eq_zero_iff]
  exact Labels.mem_labels_iff.mp hmem

/-- **One write.** The map after it reflects the history with the write at its end. -/
theorem write (h : Reflects ws m) (w : Write) : Reflects (ws ++ [w]) (w.apply m) := by
  have hexp := Labels.toInt_get_write h.exponent w
  refine of_exponent_of_order hexp ?_
  have hpresent : ∀ a ∈ (w.apply m).labels, exponentAfter (ws ++ [w]) a ≠ 0 := by
    intro a ha
    rw [← hexp, Ne, Exponent.toInt_eq_zero_iff]
    exact Labels.mem_labels_iff.mp ha
  -- labels that were there before and still are keep their times, hence their order
  have hkept : ∀ l : List String, l.Sublist m.labels → (∀ a ∈ l, a ∈ (w.apply m).labels) →
      l.Pairwise fun a b => ∃ i j, EntersAt (ws ++ [w]) a i ∧ EntersAt (ws ++ [w]) b j ∧ i < j := by
    intro l hsub hmem
    refine (h.order.sublist hsub).imp_of_mem fun {a b} ha hb hab => ?_
    obtain ⟨i, j, hi, hj, hij⟩ := hab
    exact ⟨i, j, hi.concat (hpresent a (hmem a ha)), hj.concat (hpresent b (hmem b hb)), hij⟩
  have hlabels := Labels.labels_write m w
  split at hlabels
  · rw [hlabels]
    exact hkept _ List.erase_sublist fun a ha => by rwa [hlabels]
  · rename_i hne
    split at hlabels
    · rw [hlabels]
      exact hkept _ (List.Sublist.refl _) fun a ha => by rwa [hlabels]
    · rename_i hnew
      have hold : ∀ a ∈ m.labels, a ∈ (w.apply m).labels := by
        intro a ha
        rw [hlabels]
        exact List.mem_append_left _ ha
      have hzero : exponentAfter ws w.label = 0 := by
        rw [← h.exponent, Exponent.toInt_eq_zero_iff]
        exact Decidable.of_not_not fun hn => hnew (Labels.mem_labels_iff.mpr hn)
      have hlast : EntersAt (ws ++ [w]) w.label ws.length := by
        refine .last hzero (hpresent _ ?_)
        rw [hlabels]
        exact List.mem_append_right _ List.mem_cons_self
      rw [hlabels, List.pairwise_append]
      refine ⟨hkept _ (List.Sublist.refl _) hold, List.pairwise_singleton _ _, fun a ha b hb => ?_⟩
      rw [List.mem_singleton.mp hb]
      obtain ⟨k, hk⟩ := exists_entersAt (h.exponentAfter_ne_zero_of_mem ha)
      exact ⟨k, ws.length, hk.concat (hpresent a (hold a ha)), hlast, hk.lt⟩

theorem empty : Reflects [] .empty :=
  of_exponent_of_order (fun _ => rfl) List.Pairwise.nil

/-- A map that is written from nothing reflects what was written. -/
theorem of_writes (ws : List Write) : Reflects ws (ws.foldl Write.apply .empty) := by
  induction ws using List.reverseRecOn with
  | nil => exact empty
  | append_singleton ws w ih =>
      rw [List.foldl_append]
      exact ih.write w

end Reflects

/-! ## Making a map -/

theorem Labels.extend_eq_writes (m : Labels) (ps : List Power) :
    m.extend ps = (ps.map Write.ofPower).foldl Write.apply m := by
  rw [List.foldl_map]
  rfl

theorem filterMap_of_mapM {α β : Type} {f : α → Option β} {l : List α} {l' : List β}
    (h : l.mapM f = some l') : l.filterMap f = l' := by
  induction l generalizing l' with
  | nil => exact Option.some.inj h
  | cons a l ih =>
      rw [List.mapM_cons] at h
      obtain ⟨b, hb, hrest⟩ := Option.bind_eq_some_iff.mp h
      obtain ⟨bs, hbs, hcons⟩ := Option.bind_eq_some_iff.mp hrest
      rw [List.filterMap_cons_some hb, ih hbs]
      exact Option.some.inj hcons

/-- An object is read only if every field is. -/
theorem Labels.ofJson?_object {fields : List (Option String × Json)} {m : Labels}
    (h : Labels.ofJson? (.object fields) = some m) :
    m = .ofList (fields.filterMap Power.ofField?) := by
  obtain ⟨ps, hps, rfl⟩ := Option.map_eq_some_iff.mp h
  rw [filterMap_of_mapM hps]

/-- Every way to make a map comes to its writes, one after the other. -/
theorem Made.eq_writes {ws : List Write} {m : Labels} (h : Made ws m) :
    m = ws.foldl Write.apply .empty := by
  induction h with
  | empty => rfl
  | add _ label n ih =>
      rw [List.foldl_append, ← ih]
      rfl
  | set _ label n ih =>
      rw [List.foldl_append, ← ih]
      rfl
  | extend _ ps ih => rw [List.foldl_append, ← ih, Labels.extend_eq_writes]
  | mul _ _ ih _ => rw [List.foldl_append, ← ih, Labels.mul_eq_extend, Labels.extend_eq_writes]
  | collect ps => exact Labels.extend_eq_writes .empty ps
  | parsed read => rw [Labels.ofJson?_object read, Labels.ofList, Labels.extend_eq_writes]

/--
**A map is what its history says.**

However a map was made, its labels are distinct and have exponents that are not zero. The exponent
of a label is what the writes to that label leave of zero, and the labels stand in the order in
which they came in for the last time. So one more write takes its label out, leaves it in its
place, or puts it at the end, and moves no other label.
-/
theorem Made.reflects {ws : List Write} {m : Labels} (h : Made ws m) :
    Reflects ws m ∧ ∀ w : Write, (w.apply m).labels =
      if exponentAfter (ws ++ [w]) w.label = 0 then m.labels.erase w.label
      else if exponentAfter ws w.label ≠ 0 then m.labels else m.labels ++ [w.label] := by
  have hreflects : Reflects ws m := h.eq_writes ▸ Reflects.of_writes ws
  refine ⟨hreflects, fun w => ?_⟩
  rw [Labels.labels_write]
  refine if_congr ?_ rfl (if_congr ?_ rfl rfl)
  · rw [← (hreflects.write w).exponent, ← Int64.toInt_zero, Int64.toInt_inj]
  · rw [← hreflects.exponent, ← Int64.toInt_zero, Ne, Int64.toInt_inj, Labels.mem_labels_iff]

/-- Two metres and a second lose the metres and are multiplied by a metre. -/
def returning : Labels :=
  ((Labels.empty.add "m" 2).add "s" 1).add "m" (-2) * Labels.empty.add "m" 1

/-- The metre that comes back stands behind the second. -/
theorem reflects_returning :
    Made [.add "m" 2, .add "s" 1, .add "m" (-2), .add "m" 1] returning
    ∧ Reflects [.add "m" 2, .add "s" 1, .add "m" (-2), .add "m" 1] returning
    ∧ returning.labels = ["s", "m"] := by
  have hmade : Made [.add "m" 2, .add "s" 1, .add "m" (-2), .add "m" 1] returning :=
    .mul (.add (.add (.add .empty "m" 2) "s" 1) "m" (-2)) (.add .empty "m" 1)
  exact ⟨hmade, hmade.reflects.1, by decide⟩

end FactorLabel
