import FactorLabel.Proofs.Chain.Session
import FactorLabel.Proofs.Labels.History
import FactorLabel.Proofs.Stored.Record
import FactorLabel.Stored.Settings

/-!
# Nothing is lost in storage

What is written to a text comes back from it as it was: identifiers, the order of terms and of
labels, every bit of a factor, and whether a denominator was there. Writing leaves out what is
empty and reading supplies it, so the two have to agree on what a missing part means.

Each kind of value builds on the kinds of its parts. What goes through are the values with finite
factors, for which JSON has numbers, and no others are accepted.
-/

namespace FactorLabel

/-! ## Labels -/

theorem Power.ofField?_back (p : Power) :
    ofField? (some p.label, .ofInt p.exponent.toInt) = some p := by
  have hrange := And.intro (Int64.minValue_le_toInt p.exponent) (Int64.toInt_le p.exponent)
  simp only [ofField?, Json.int?_ofInt, Option.bind_eq_bind, Option.bind_some, if_pos hrange,
    Int64.ofInt_toInt]

namespace Labels

theorem writable_toJson (m : Labels) : m.toJson.Writable := by
  refine .fields fun f hf => ?_
  obtain ⟨p, -, rfl⟩ := List.mem_map.mp hf
  exact Json.writable_ofInt _

/-- The entries add up to the map again, in the same order. -/
theorem ofJson?_toJson (m : Labels) : ofJson? m.toJson = some m := by
  have hfields := Text.mapM_map_of_back (l := m.entries) fun p _ => p.ofField?_back
  rw [toJson, Json.fields, List.map_map, ofJson?]
  exact (congrArg _ hfields).trans (congrArg some m.ofList_entries)

theorem faithful : Json.Faithful toJson ofJson? fun _ => True where
  writable := writable_toJson
  back m _ := m.ofJson?_toJson
  kept _ _ _ := trivial

end Labels

/-! ## Quantities -/

namespace Quantity

/-- The factor is a number that JSON has. -/
def Finite (q : Quantity) : Prop := q.factor.isFinite = true

theorem writable_toJson (q : Quantity) : q.toJson.Writable := by
  refine .fields fun f hf => ?_
  rcases List.mem_cons.mp hf with rfl | hf
  · exact Json.writable_ofFloat _
  · split at hf
    · exact absurd hf List.not_mem_nil
    · rw [List.mem_singleton.mp hf]
      exact q.labels.writable_toJson

/-- Labels are missing where there are none, and only there. -/
theorem record?_toJson (q : Quantity) : q.toJson.record? ["factor", "labels"]
    = some [some (.ofFloat q.factor), if q.labels.isEmpty then none else some q.labels.toJson] := by
  rw [toJson]
  split
  · exact Json.record?_fields (by simp) _
  · exact Json.record?_fields (by simp) _

theorem fieldOr_labels (m : Labels) :
    Json.fieldOr .empty Labels.ofJson? (if m.isEmpty then none else some m.toJson) = some m := by
  split
  · rename_i hempty
    exact congrArg some (Labels.ext_entries (List.isEmpty_iff.mp hempty)).symm
  · exact m.ofJson?_toJson

theorem ofJson?_toJson {q : Quantity} (h : q.Finite) : ofJson? q.toJson = some q := by
  simp only [ofJson?, record?_toJson, Json.float?_ofFloat h, fieldOr_labels, Option.bind_eq_bind,
    Option.bind_some, Option.pure_def]

theorem finite_of_ofJson? {j : Json} {q : Quantity} (h : ofJson? j = some q) : q.Finite := by
  rw [ofJson?] at h
  split at h
  · obtain ⟨x, hx, h⟩ := Option.bind_eq_some_iff.mp h
    obtain ⟨m, -, h⟩ := Option.bind_eq_some_iff.mp h
    rw [← Option.some.inj h]
    exact Json.isFinite_of_float? hx
  · cases h

theorem faithful : Json.Faithful toJson ofJson? Finite where
  writable := writable_toJson
  back _ h := ofJson?_toJson h
  kept _ _ h := finite_of_ofJson? h

theorem finite_identity : identity.Finite := by
  rw [Finite]
  decide +kernel

end Quantity

/-! ## Ratios -/

namespace Ratio

theorem writable_toFields (r : Ratio) : ∀ f ∈ r.toFields, f.2.Writable := by
  intro f hf
  rcases List.mem_cons.mp hf with rfl | hf
  · exact r.numerator.writable_toJson
  · split at hf
    · exact absurd hf List.not_mem_nil
    · rw [List.mem_singleton.mp hf]
      exact Quantity.writable_toJson _

theorem fieldOr_denominator {d : Option Quantity} (h : ∀ q ∈ d, q.Finite) :
    Json.fieldOr none denominatorOfJson? (d.map Quantity.toJson) = some d := by
  cases d with
  | none => rfl
  | some q =>
      -- a quantity is an object, and so it is not taken for a denominator that is not there
      show (Quantity.ofJson? q.toJson).map some = some (some q)
      rw [Quantity.ofJson?_toJson (h q rfl), Option.map_some]

theorem ofFields?_back {r : Ratio} (h : r.Every Quantity.Finite) :
    ofFields? r.numerator.toJson (r.denominator.map Quantity.toJson) = some r := by
  obtain ⟨hnum, hden⟩ := every_iff.mp h
  simp only [ofFields?, Quantity.ofJson?_toJson hnum, fieldOr_denominator hden,
    Option.bind_eq_bind, Option.bind_some, Option.pure_def]

theorem finite_of_denominatorOfJson? {j : Json} {d : Option Quantity}
    (h : denominatorOfJson? j = some d) : ∀ q ∈ d, q.Finite := by
  rw [denominatorOfJson?.eq_def] at h
  split at h
  · rw [← Option.some.inj h]
    exact fun q hq => absurd hq (Option.not_mem_none q)
  · obtain ⟨q, hq, rfl⟩ := Option.map_eq_some_iff.mp h
    intro q' hq'
    rw [← Option.some.inj hq']
    exact Quantity.finite_of_ofJson? hq

theorem finite_of_ofFields? {numerator : Json} {denominator : Option Json} {r : Ratio}
    (h : ofFields? numerator denominator = some r) : r.Every Quantity.Finite := by
  obtain ⟨num, hnum, h⟩ := Option.bind_eq_some_iff.mp h
  obtain ⟨den, hden, h⟩ := Option.bind_eq_some_iff.mp h
  rw [← Option.some.inj h]
  refine every_iff.mpr ⟨Quantity.finite_of_ofJson? hnum, ?_⟩
  cases denominator with
  | none =>
      rw [← Option.some.inj hden]
      exact fun q hq => absurd hq (Option.not_mem_none q)
  | some j => exact finite_of_denominatorOfJson? hden

theorem record?_toJson (r : Ratio) : r.toJson.record? ["numerator", "denominator"]
    = some [some r.numerator.toJson, r.denominator.map Quantity.toJson] := by
  obtain ⟨num, _ | den⟩ := r
  · exact Json.record?_fields (by simp [toFields]) _
  · exact Json.record?_fields (by simp [toFields]) _

theorem faithful : Json.Faithful toJson ofJson? (·.Every Quantity.Finite) where
  writable r := .fields r.writable_toFields
  back r h := by simp only [ofJson?, record?_toJson, ofFields?_back h]
  kept j r h := by
    rw [ofJson?] at h
    split at h
    · exact finite_of_ofFields? h
    · cases h

end Ratio

/-! ## Terms -/

theorem TermId.ofJson?_toJson (id : TermId) : ofJson? id.toJson = some id := by
  have htext : ofText? id.text = .ok id := dif_pos ⟨id.length_text, id.alphanumeric⟩
  show (ofText? id.text).toOption = some id
  rw [htext]
  rfl

namespace Term

theorem record?_toJson (t : Term) : t.toJson.record? ["id", "numerator", "denominator"]
    = some [some t.id.toJson, some t.numerator.toJson, t.denominator.map Quantity.toJson] := by
  obtain ⟨⟨num, _ | den⟩, id⟩ := t
  · exact Json.record?_fields (by simp [Ratio.toFields]) _
  · exact Json.record?_fields (by simp [Ratio.toFields]) _

theorem writable_toJson (t : Term) : t.toJson.Writable := by
  refine .fields fun f hf => ?_
  rcases List.mem_cons.mp hf with rfl | hf
  · exact .text t.id.text
  · exact t.writable_toFields f hf

theorem faithful : Json.Faithful toJson ofJson? (·.toRatio.Every Quantity.Finite) where
  writable := writable_toJson
  back t h := by
    simp only [ofJson?, record?_toJson, TermId.ofJson?_toJson, Ratio.ofFields?_back h,
      Option.bind_eq_bind, Option.bind_some, Option.pure_def]
  kept j t h := by
    rw [ofJson?] at h
    split at h
    · obtain ⟨id, -, h⟩ := Option.bind_eq_some_iff.mp h
      obtain ⟨r, hr, h⟩ := Option.bind_eq_some_iff.mp h
      rw [← Option.some.inj h]
      exact Ratio.finite_of_ofFields? hr
    · cases h

end Term

/-! ## Chains -/

namespace Chain

theorem ofTerms_terms (fresh : TermId) (c : Chain) : ofTerms fresh c.terms = c := dif_neg c.nonempty

theorem faithful (fresh : TermId) :
    Json.Faithful toJson (ofJson? fresh) (·.Every Quantity.Finite) where
  writable c := .array fun j hj => by
    obtain ⟨t, -, rfl⟩ := List.mem_map.mp hj
    exact t.writable_toJson
  back c h := by
    have hterms := Text.mapM_map_of_back fun t ht => Term.faithful.back t (h t ht)
    rw [toJson, ofJson?, hterms, Option.map_some, ofTerms_terms]
  kept j c h := by
    cases j with
    | array items =>
        obtain ⟨ts, hts, rfl⟩ := Option.map_eq_some_iff.mp h
        intro t ht
        rcases mem_ofTerms ht with ht | rfl
        · rw [← filterMap_of_mapM hts] at ht
          obtain ⟨j, -, hj⟩ := List.mem_filterMap.mp ht
          exact Term.faithful.kept j t hj
        · exact Ratio.every_identity Quantity.finite_identity
    | _ => cases h

end Chain

/-! ## Settings -/

namespace Settings

theorem writable_toJson (s : Settings) : s.toJson.Writable := by
  refine .fields fun f hf => ?_
  simp only [List.mem_cons, List.not_mem_nil, or_false] at hf
  rcases hf with rfl | rfl | rfl
  · exact Json.writable_ofInt _
  · exact .text s.labelSeparator
  · exact .text s.ratioSeparator

theorem record?_toJson (s : Settings) :
    s.toJson.record? ["decimal_places", "label_separator", "ratio_separator"]
      = some [some (.ofInt s.decimalPlaces), some (.text s.labelSeparator),
          some (.text s.ratioSeparator)] := Json.record?_fields (by simp) _

theorem ofJson?_of_record? {j places : Json} {n : Nat} {label ratio : String}
    (hrecord : j.record? ["decimal_places", "label_separator", "ratio_separator"]
      = some [some places, some (.text label), some (.text ratio)])
    (hplaces : places.word? = some n) : ofJson? j = some ⟨n, label, ratio⟩ := by
  rw [ofJson?, hrecord]
  exact Option.bind_eq_some_iff.mpr ⟨n, hplaces, rfl⟩

theorem ofJson?_toJson {s : Settings} (h : s.decimalPlaces < UInt64.size) :
    ofJson? s.toJson = some s :=
  ofJson?_of_record? s.record?_toJson (Json.word?_of_int? (Json.int?_ofInt _) h)

theorem lt_of_ofJson? {j : Json} {s : Settings} (h : ofJson? j = some s) :
    s.decimalPlaces < UInt64.size := by
  rw [ofJson?] at h
  split at h
  · rename_i places _ _ _
    obtain ⟨n, hn, h⟩ := Option.bind_eq_some_iff.mp h
    obtain ⟨labelSeparator, -, h⟩ := Option.bind_eq_some_iff.mp h
    obtain ⟨ratioSeparator, -, h⟩ := Option.bind_eq_some_iff.mp h
    rw [← Option.some.inj h]
    cases places with
    | none =>
        rw [← Option.some.inj hn]
        show default.decimalPlaces < UInt64.size
        decide
    | some j => exact Json.lt_of_word? hn
  · cases h

theorem faithful : Json.Faithful toJson ofJson? (·.decimalPlaces < UInt64.size) where
  writable := writable_toJson
  back _ h := ofJson?_toJson h
  kept _ _ h := lt_of_ofJson? h

end Settings

/--
**Nothing is lost in storage.**

A value that is written to a text is read back from it unchanged: identifiers, the order of terms
and of labels, every bit of a factor, and whether a denominator is there, be it the number one. The
factors have to be finite, and a number of decimal places has to fit in a word; nothing else is
asked. What is accepted from any text has these properties, and comes back if it is written again.

The fresh identifier stands ready for an empty array of terms, which no chain is written as.
-/
theorem storage_lossless (fresh : TermId) :
    Json.Lossless Labels.toJson Labels.ofJson? (fun _ => True)
    ∧ Json.Lossless Quantity.toJson Quantity.ofJson? Quantity.Finite
    ∧ Json.Lossless Ratio.toJson Ratio.ofJson? (·.Every Quantity.Finite)
    ∧ Json.Lossless Term.toJson Term.ofJson? (·.toRatio.Every Quantity.Finite)
    ∧ Json.Lossless Chain.toJson (Chain.ofJson? fresh) (·.Every Quantity.Finite)
    ∧ Json.Lossless Settings.toJson Settings.ofJson? (·.decimalPlaces < UInt64.size) :=
  ⟨Labels.faithful.lossless, Quantity.faithful.lossless, Ratio.faithful.lossless,
    Term.faithful.lossless, (Chain.faithful fresh).lossless, Settings.faithful.lossless⟩

/-- Minus zero and the smallest double, labels that have to be escaped, a negative exponent, the
number one below the line and the same identifier twice. -/
def Chain.awkward : Chain :=
  ⟨[⟨⟨⟨-0.0, .ofList [⟨"\"\\\x07", -3⟩, ⟨"😀\n", Int64.maxValue⟩]⟩, some .identity⟩, .counted 1⟩,
    ⟨⟨⟨5e-324, .ofList [⟨"", 1⟩]⟩, none⟩, .counted 1⟩], by simp⟩

theorem storage_lossless_awkward :
    Json.load (Chain.ofJson? (.counted 2)) Chain.awkward.toJson.write = some Chain.awkward := by
  refine (storage_lossless (.counted 2)).2.2.2.2.1.back _ fun t ht => ?_
  simp only [Chain.awkward, List.mem_cons, List.not_mem_nil, or_false] at ht
  rcases ht with rfl | rfl
  · refine Ratio.every_iff.mpr ⟨?_, fun q hq => ?_⟩
    · rw [Quantity.Finite]
      decide +kernel
    · rw [← Option.some.inj hq]
      exact Quantity.finite_identity
  · refine Ratio.every_iff.mpr ⟨?_, fun q hq => absurd hq (Option.not_mem_none q)⟩
    rw [Quantity.Finite]
    decide +kernel

end FactorLabel
