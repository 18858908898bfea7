import FactorLabel.Proofs.Labels.Sum
import Mathlib.Data.List.Induction

/-!
# The order of the entries

Powers with positive exponents never take a label out of a map, so adding them up leaves the labels
in the order in which they first came in. Adding up the entries of a map, from nothing, gives the
map back with its order.
-/

namespace FactorLabel

/-! ## One entry -/

/-- A label that is there stays where it is, unless its exponent becomes zero. -/
theorem map_label_alterEntries {label : String} {f : Exponent → Exponent} {l : List Power}
    (hmem : label ∈ l.map Power.label) (hf : f (exponentIn label l) ≠ 0) :
    (alterEntries label f l).map Power.label = l.map Power.label := by
  induction l with
  | nil => exact absurd hmem List.not_mem_nil
  | cons p l ih =>
      rw [exponentIn_cons] at hf
      simp only [alterEntries]
      split
      · rename_i hp
        rw [if_pos hp] at hf
        rw [if_neg hf, List.map_cons, List.map_cons, hp]
      · rename_i hp
        rw [if_neg hp] at hf
        rw [List.map_cons, List.mem_cons] at hmem
        rw [List.map_cons, List.map_cons, ih (hmem.resolve_left (Ne.symm hp)) hf]

/-- A label that is not there comes in at the end. -/
theorem alterEntries_of_not_mem {label : String} {f : Exponent → Exponent} {l : List Power}
    (hmem : label ∉ l.map Power.label) (hf : f 0 ≠ 0) :
    alterEntries label f l = l ++ [⟨label, f 0⟩] := by
  induction l with
  | nil => exact if_neg hf
  | cons p l ih =>
      rw [List.map_cons, List.mem_cons, not_or] at hmem
      rw [alterEntries, if_neg (Ne.symm hmem.1), ih hmem.2, List.cons_append]

/-- A label that gets exponent zero goes out. -/
theorem map_label_alterEntries_of_eq_zero {label : String} {f : Exponent → Exponent}
    {l : List Power} (hf : f (exponentIn label l) = 0) :
    (alterEntries label f l).map Power.label = (l.map Power.label).erase label := by
  induction l with
  | nil =>
      rw [exponentIn_nil] at hf
      rw [alterEntries, if_pos hf]
      rfl
  | cons p l ih =>
      rw [exponentIn_cons] at hf
      rw [alterEntries, List.map_cons]
      split
      · rename_i hp
        rw [if_pos hp] at hf
        rw [if_pos hf, hp, List.erase_cons_head]
      · rename_i hp
        rw [if_neg hp] at hf
        rw [List.map_cons, ih hf, List.erase_cons_tail (by simpa using hp)]

namespace Labels

theorem ext_entries {a b : Labels} (h : a.entries = b.entries) : a = b := by
  cases a
  cases b
  cases h
  rfl

/-- The order of the labels and their exponents are all there is to a map. -/
theorem eq_of_labels_of_get {a b : Labels} (hlabels : a.labels = b.labels)
    (hget : ∀ label, a.get label = b.get label) : a = b := by
  have hentries : ∀ m : Labels, m.entries = m.labels.map fun label => ⟨label, m.get label⟩ := by
    intro m
    rw [labels, List.map_map]
    refine (List.map_id _).symm.trans (List.map_congr_left fun p hp => ?_)
    rw [Function.comp_apply, get_of_mem hp]
    rfl
  refine ext_entries ?_
  rw [hentries a, hentries b, hlabels]
  exact List.map_congr_left fun label _ => by rw [hget]

/-- A change of one label: it goes out, stays where it is, or comes in at the end. -/
theorem labels_alter (m : Labels) (label : String) (f : Exponent → Exponent) :
    (m.alter label f).labels =
      if f (m.get label) = 0 then m.labels.erase label
      else if label ∈ m.labels then m.labels else m.labels ++ [label] := by
  rw [get_eq]
  split
  · rename_i hzero
    exact map_label_alterEntries_of_eq_zero hzero
  · rename_i hne
    split
    · rename_i hmem
      exact map_label_alterEntries hmem hne
    · rename_i hmem
      rw [exponentIn_of_not_mem hmem] at hne
      show (alterEntries label f m.entries).map Power.label = _
      rw [alterEntries_of_not_mem hmem hne, List.map_append]
      rfl

theorem labels_set (m : Labels) (label : String) (n : Exponent) :
    (m.set label n).labels =
      if n = 0 then m.labels.erase label
      else if label ∈ m.labels then m.labels else m.labels ++ [label] :=
  m.labels_alter label fun _ => n

theorem zero_saturatingAdd (n : Exponent) : Exponent.saturatingAdd 0 n = n := by
  rw [Exponent.saturatingAdd, Int64.toInt_zero, Int.zero_add, Int64.ofIntClamp_toInt]

theorem entries_add_of_not_mem {m : Labels} {p : Power} (hmem : p.label ∉ m.labels)
    (hp : p.exponent ≠ 0) : (m.add p.label p.exponent).entries = m.entries ++ [p] := by
  have hzero := zero_saturatingAdd p.exponent
  have halter := alterEntries_of_not_mem (f := (Exponent.saturatingAdd · p.exponent)) hmem
    (by rw [hzero]; exact hp)
  rw [hzero] at halter
  exact halter

/-- A label that is already there keeps its place. -/
theorem labels_add_of_mem {m : Labels} (hm : ∀ label, 0 ≤ (m.get label).toInt) {p : Power}
    (hp : 0 < p.exponent) (hmem : p.label ∈ m.labels) :
    (m.add p.label p.exponent).labels = m.labels := by
  have hpos := Exponent.pos_iff.mp hp
  have hlabel := hm p.label
  have hsum := Exponent.toInt_saturatingAdd (a := m.get p.label) (b := p.exponent) (by omega)
  refine map_label_alterEntries hmem fun hzero => ?_
  have hzero' : (m.get p.label).saturatingAdd p.exponent = 0 := hzero
  rw [hzero', Int64.toInt_zero, Exponent.toInt_largest] at hsum
  omega

/-! ## Adding up -/

theorem ofList_concat (ps : List Power) (p : Power) :
    ofList (ps ++ [p]) = (ofList ps).add p.label p.exponent :=
  List.foldl_append

/-- Each exponent is the sum of the powers, cut off once. -/
theorem toInt_get_ofList {ps : List Power} (h : ∀ p ∈ ps, 0 < p.exponent) (label : String) :
    ((ofList ps).get label).toInt = min Exponent.largest.toInt (weight label ps) := by
  have hps : NonNegative ps := fun p hp => Int.le_of_lt (Exponent.pos_iff.mp (h p hp))
  have hget := toInt_get_extend (m := empty) (fun _ => Int.le_refl 0) hps label
  rw [get_empty, Int64.toInt_zero, Int.zero_add] at hget
  exact hget

theorem get_ofList_nonneg {ps : List Power} (h : ∀ p ∈ ps, 0 < p.exponent) (label : String) :
    0 ≤ ((ofList ps).get label).toInt := by
  have hweight : 0 ≤ weight label ps :=
    weight_nonneg fun p hp => Int.le_of_lt (Exponent.pos_iff.mp (h p hp))
  have hmax := Exponent.largest_nonneg
  rw [toInt_get_ofList h]
  omega

/-- **First come, first shown.** Positive powers add up to a map with their labels in the order of
first occurrence. -/
theorem labels_ofList {ps : List Power} (h : ∀ p ∈ ps, 0 < p.exponent) :
    (ofList ps).labels = (ps.map Power.label).eraseDups := by
  -- from the right end, since the last power meets the labels of all the others
  induction ps using List.reverseRecOn with
  | nil => rfl
  | append_singleton ps p ih =>
      have hps : ∀ q ∈ ps, 0 < q.exponent := fun q hq => h q (List.mem_append_left [p] hq)
      have hp : 0 < p.exponent := h p (List.mem_append_right ps List.mem_cons_self)
      have hlabels := ih hps
      have hmem : p.label ∈ (ofList ps).labels ↔ p.label ∈ ps.map Power.label := by
        rw [hlabels, List.mem_eraseDups]
      rw [ofList_concat, List.map_append, List.map_singleton, List.eraseDups_append, ← hlabels]
      by_cases hin : p.label ∈ ps.map Power.label
      · rw [labels_add_of_mem (get_ofList_nonneg hps) hp (hmem.mpr hin)]
        simp only [List.removeAll, List.filter_cons, List.elem_eq_mem, hin, decide_true,
          Bool.not_true, Bool.false_eq_true, if_false, List.filter_nil, List.eraseDups_nil,
          List.append_nil]
      · have hnew : p.label ∉ (ofList ps).labels := fun hm => hin (hmem.mp hm)
        rw [labels, entries_add_of_not_mem hnew (Exponent.ne_zero_of_pos hp)]
        simp only [List.removeAll, List.filter_cons, List.elem_eq_mem, hin, decide_false,
          Bool.not_false, if_true, List.filter_nil, List.eraseDups_cons, List.eraseDups_nil, labels,
          List.map_append, List.map_singleton]

/-- Positive powers do not cancel out. -/
theorem isEmpty_ofList {ps : List Power} (h : ∀ p ∈ ps, 0 < p.exponent) :
    (ofList ps).isEmpty = ps.isEmpty := by
  have hlabels : (ofList ps).entries.map Power.label = (ps.map Power.label).eraseDups :=
    labels_ofList h
  cases ps with
  | nil => rfl
  | cons p ps =>
      rw [List.map_cons, List.eraseDups_cons] at hlabels
      have hne : (ofList (p :: ps)).entries ≠ [] := by
        intro hnil
        rw [hnil] at hlabels
        exact List.cons_ne_nil _ _ hlabels.symm
      rw [isEmpty, List.isEmpty_cons]
      simpa using hne

/-- Different labels with exponents that are not zero are added up as they are. -/
theorem entries_ofList {ps : List Power} (hd : (ps.map Power.label).Nodup)
    (hne : ∀ p ∈ ps, p.exponent ≠ 0) : (ofList ps).entries = ps := by
  induction ps using List.reverseRecOn with
  | nil => rfl
  | append_singleton ps p ih =>
      rw [List.map_append, List.map_singleton, List.nodup_append] at hd
      have hentries := ih hd.1 fun q hq => hne q (List.mem_append_left [p] hq)
      have hnew : p.label ∉ (ofList ps).labels := by
        intro hmem
        rw [labels, hentries] at hmem
        exact hd.2.2 p.label hmem p.label List.mem_cons_self rfl
      rw [ofList_concat, entries_add_of_not_mem hnew
        (hne p (List.mem_append_right ps List.mem_cons_self)), hentries]

/-- A map is what its entries add up to. -/
theorem ofList_entries (m : Labels) : ofList m.entries = m :=
  ext_entries (entries_ofList m.distinct m.nonzero)

end Labels

end FactorLabel
