import FactorLabel.Proofs.Labels.Product

/-!
# Maps without negative exponents

Where no exponent is negative, nothing that is added takes a label out, so each label stands where
it came in first, and a sum that has reached the end of the range stays there. Products can then be
regrouped with the order of their entries. So a list of positive powers may be cut anywhere: what it
adds up to is the product of what its two parts add up to.
-/

namespace FactorLabel

theorem eraseDups_of_nodup {l : List String} (h : l.Nodup) : l.eraseDups = l := by
  induction l with
  | nil => rfl
  | cons label l ih =>
      rw [List.nodup_cons] at h
      have hkeep : l.filter (fun other => !other == label) = l := by
        refine List.filter_eq_self.mpr fun other hother => ?_
        have hne : other ≠ label := fun heq => h.1 (heq ▸ hother)
        simpa using hne
      rw [List.eraseDups_cons, hkeep, ih h.2]

namespace Labels

variable {a b c : Labels}

theorem nonNegative_iff : NonNegative a.entries ↔ ∀ label, 0 ≤ (a.get label).toInt := by
  refine ⟨get_nonneg, fun h p hp => ?_⟩
  rw [← get_of_mem hp]
  exact h p.label

theorem nonNegative_one : NonNegative (1 : Labels).entries := fun _ hp => nomatch hp

theorem nonNegative_mul (ha : NonNegative a.entries) (hb : NonNegative b.entries) :
    NonNegative (a * b).entries := by
  refine nonNegative_iff.mpr fun label => ?_
  have hA := get_nonneg ha label
  have hB := get_nonneg hb label
  have hmax := Exponent.largest_nonneg
  rw [get_mul, Exponent.toInt_saturatingAdd (by omega)]
  omega

/-- An entry is not zero, so it is positive if it is not negative. -/
theorem pos_of_nonNegative (h : NonNegative a.entries) : ∀ p ∈ a.entries, 0 < p.exponent := by
  intro p hp
  have hnonneg := h p hp
  have hne := toInt_ne_zero_of_mem hp
  exact Exponent.pos_iff.mpr (by omega)

/-- **First come, first shown.** A product has the labels of its first factor, and then those that
only the second has. -/
theorem labels_mul (ha : NonNegative a.entries) (hb : NonNegative b.entries) :
    (a * b).labels = a.labels ++ b.labels.filter fun label => label ∉ a.labels := by
  have hall : a * b = ofList (a.entries ++ b.entries) := by
    have happend : ofList (a.entries ++ b.entries) = (ofList a.entries).extend b.entries :=
      List.foldl_append
    rw [happend, ofList_entries, mul_eq_extend]
  have hpos : ∀ p ∈ a.entries ++ b.entries, 0 < p.exponent := by
    intro p hp
    exact (List.mem_append.mp hp).elim (pos_of_nonNegative ha p) (pos_of_nonNegative hb p)
  have hrest : b.labels.removeAll a.labels = b.labels.filter fun label => label ∉ a.labels := by
    refine List.filter_congr fun label _ => ?_
    rw [List.elem_eq_mem, decide_not]
  have hdistinct : (b.labels.removeAll a.labels).Nodup := b.nodup_labels.filter _
  calc (a * b).labels
      = (a.labels ++ b.labels).eraseDups := by rw [hall, labels_ofList hpos, List.map_append]; rfl
    _ = a.labels ++ b.labels.removeAll a.labels := by
        rw [List.eraseDups_append, eraseDups_of_nodup a.nodup_labels, eraseDups_of_nodup hdistinct]
    _ = a.labels ++ b.labels.filter fun label => label ∉ a.labels := by rw [hrest]

/-- **Products can be regrouped,** the order of their entries included. -/
theorem mul_assoc_of_nonNegative (ha : NonNegative a.entries) (hb : NonNegative b.entries)
    (hc : NonNegative c.entries) : (a * b) * c = a * (b * c) := by
  refine eq_of_labels_of_get ?_ fun label => ?_
  · have hleft : ∀ label, label ∈ a.labels ++ b.labels.filter (fun l => l ∉ a.labels)
        ↔ label ∈ a.labels ∨ label ∈ b.labels := by
      intro label
      rw [List.mem_append, List.mem_filter, decide_eq_true_eq]
      tauto
    rw [labels_mul (nonNegative_mul ha hb) hc, labels_mul ha hb,
      labels_mul ha (nonNegative_mul hb hc), labels_mul hb hc, List.filter_append,
      List.filter_filter, List.append_assoc]
    -- a label of the third map is new if it is in neither of the others
    congr 2
    refine List.filter_congr fun label _ => ?_
    simp only [hleft, not_or, Bool.decide_and]
  · have hA := get_nonneg ha label
    have hB := get_nonneg hb label
    have hC := get_nonneg hc label
    rw [get_mul, get_mul, get_mul, get_mul]
    exact Exponent.saturatingAdd_assoc (Exponent.not_leadsBack_of_nonneg (by omega) hC)
      (Exponent.not_leadsBack_of_nonneg (by omega) hA)

/-! ## Adding up in parts -/

theorem nonNegative_ofList {ps : List Power} (h : ∀ p ∈ ps, 0 < p.exponent) :
    NonNegative (ofList ps).entries :=
  nonNegative_iff.mpr (get_ofList_nonneg h)

/-- One more power is one more factor. -/
theorem add_eq_mul (m : Labels) {p : Power} (hp : p.exponent ≠ 0) :
    m.add p.label p.exponent = m * ofList [p] := by
  have hentries : (ofList [p]).entries = [p] := by
    refine entries_ofList (List.pairwise_singleton (· ≠ ·) p.label) fun q hq => ?_
    rwa [List.mem_singleton.mp hq]
  rw [mul_eq_extend, hentries]
  rfl

/-- **Positive powers are added up in parts.** -/
theorem ofList_append {ps qs : List Power} (hps : ∀ p ∈ ps, 0 < p.exponent)
    (hqs : ∀ q ∈ qs, 0 < q.exponent) : ofList (ps ++ qs) = ofList ps * ofList qs := by
  -- from the right end, where a power comes in
  induction qs using List.reverseRecOn with
  | nil =>
      rw [List.append_nil]
      exact (mul_one (ofList ps)).symm
  | append_singleton qs q ih =>
      have hq : 0 < q.exponent := hqs q (List.mem_append_right qs List.mem_cons_self)
      have hinit : ∀ q ∈ qs, 0 < q.exponent := fun q hq => hqs q (List.mem_append_left _ hq)
      have hlast : NonNegative (ofList [q]).entries :=
        nonNegative_ofList fun p hp => by rwa [List.mem_singleton.mp hp]
      calc ofList (ps ++ (qs ++ [q]))
          = ofList (ps ++ qs) * ofList [q] := by
            rw [← List.append_assoc, ofList_concat, add_eq_mul _ (Exponent.ne_zero_of_pos hq)]
        _ = ofList ps * ofList qs * ofList [q] := by rw [ih hinit]
        _ = ofList ps * (ofList qs * ofList [q]) :=
            mul_assoc_of_nonNegative (nonNegative_ofList hps) (nonNegative_ofList hinit) hlast
        _ = ofList ps * ofList (qs ++ [q]) := by
            rw [ofList_concat, add_eq_mul _ (Exponent.ne_zero_of_pos hq)]

end Labels

end FactorLabel
