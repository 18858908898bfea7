import FactorLabel.Proofs.Chain.Session
import FactorLabel.Proofs.Chain.Simplify
import FactorLabel.Proofs.Labels.Order

/-!
# Simplified chains

The number one has three forms as a term, and simplification is there to be rid of them. What it
leaves cannot be simplified further: terms of which none is one, or a single term. A single one may
be any of the three. It stays what it is, since the number one is written in its place only where
several terms give way to it.
-/

namespace FactorLabel

/-! ## The forms of the number one -/

/-- The number one, bare or over one, or minus one over minus one. -/
inductive Ratio.IsOne : Ratio → Prop where
  | bare : Ratio.IsOne .identity
  | overOne : Ratio.IsOne ⟨.identity, some .identity⟩
  | overMinusOne : Ratio.IsOne ⟨.scalar (-1), some (.scalar (-1))⟩

theorem Quantity.eq_scalar {q : Quantity} {x : Float} (hlabels : q.labels.entries = [])
    (hfactor : q.factor = x) : q = .scalar x := by
  obtain ⟨factor, labels⟩ := q
  subst hfactor
  rw [scalar, Labels.ext_entries (a := labels) (b := .empty) hlabels]

namespace Ratio

/-- A term is trivial if it is one of the three forms. -/
theorem isTrivial_iff_isOne {r : Ratio} : r.isTrivial = true ↔ r.IsOne := by
  constructor
  · intro h
    obtain ⟨num, den⟩ := r
    have hlabels := labelsOn_of_isTrivial h
    have hscalar : ∀ x, num.factor = x → num = .scalar x :=
      fun x => Quantity.eq_scalar (hlabels .numerator)
    cases den with
    | none =>
        have hfactor : (num.factor == 1) = true := (Bool.and_eq_true_iff.mp h).2
        rw [hscalar 1 (Number.Double.eq_one_of_beq hfactor)]
        exact .bare
    | some d =>
        have hscalar' : ∀ x, d.factor = x → d = .scalar x :=
          fun x => Quantity.eq_scalar (hlabels .denominator)
        rcases factorOn_of_isTrivial h with hone | hminus
        · rw [hscalar 1 (hone .numerator), hscalar' 1 (hone .denominator)]
          exact .overOne
        · rw [hscalar (-1) (hminus .numerator), hscalar' (-1) (hminus .denominator)]
          exact .overMinusOne
  · intro h
    cases h <;> decide +kernel

instance : DecidablePred IsOne := fun _ => decidable_of_iff _ isTrivial_iff_isOne

end Ratio

namespace Chain

variable {c : Chain}

/-- What simplification looks for. -/
theorem filter_isOne (ts : List Term) :
    (ts.filter fun t => !t.isTrivial) = ts.filter fun t => ¬ t.IsOne := by
  refine List.filter_congr fun t _ => ?_
  have hsame : t.isTrivial = decide t.IsOne := by
    rw [Bool.eq_iff_iff, decide_eq_true_eq]
    exact Ratio.isTrivial_iff_isOne
  rw [hsame, decide_not]

/-! ## The result -/

theorem terms_simplify_of_exists (h : ∃ t ∈ c.terms, ¬ t.IsOne) :
    c.simplify.terms = c.terms.filter fun t => ¬ t.IsOne := by
  obtain ⟨t, ht, hone⟩ := h
  have hkept : (c.terms.filter fun t => !t.isTrivial) ≠ [] := by
    rw [filter_isOne]
    exact List.ne_nil_of_mem (List.mem_filter.mpr ⟨ht, by simpa using hone⟩)
  rw [simplify, dif_neg hkept]
  exact filter_isOne c.terms

theorem simplify_of_forall (h : ∀ t ∈ c.terms, t.IsOne) :
    c.simplify = if c.length = 1 then c else identity c.first.id := by
  have hnone : (c.terms.filter fun t => !t.isTrivial) = [] := by
    rw [filter_isOne]
    exact List.filter_eq_nil_iff.mpr fun t ht => by simpa using h t ht
  rw [simplify, dif_pos hnone]

/-- No term is one, or there is a single term. -/
def Simplified (c : Chain) : Prop := c.length = 1 ∨ ∀ t ∈ c.terms, ¬ t.IsOne

theorem simplified_simplify (c : Chain) : c.simplify.Simplified := by
  by_cases h : ∀ t ∈ c.terms, t.IsOne
  · left
    rw [simplify_of_forall h]
    split
    · assumption
    · rfl
  · right
    rw [terms_simplify_of_exists (by simpa using h)]
    intro t ht
    simpa using (List.mem_filter.mp ht).2

/-- **A simplified chain stays as it is,** and no other does. -/
theorem simplify_eq_self_iff : c.simplify = c ↔ c.Simplified := by
  refine ⟨fun h => h ▸ c.simplified_simplify, fun hsimplified => ?_⟩
  by_cases h : ∀ t ∈ c.terms, t.IsOne
  · -- all terms are one, and there is some term, so there is a single one
    have hlength : c.length = 1 := by
      refine hsimplified.resolve_right fun hnone => ?_
      exact hnone c.first (List.head_mem c.nonempty) (h c.first (List.head_mem c.nonempty))
    rw [simplify_of_forall h, if_pos hlength]
  · have hexists : ∃ t ∈ c.terms, ¬ t.IsOne := by simpa using h
    refine ext_terms ?_
    rw [terms_simplify_of_exists hexists]
    refine List.filter_eq_self.mpr fun t ht => ?_
    rw [decide_eq_true_eq]
    rcases hsimplified with hlength | hnone
    · -- a single term is the one that is not one
      obtain ⟨u, hu⟩ := List.length_eq_one_iff.mp hlength
      obtain ⟨v, hv, hone⟩ := hexists
      rw [hu, List.mem_singleton] at ht hv
      rwa [ht, ← hv]
    · exact hnone t ht

/--
**Simplifying reduces, and once is enough.**

If some term is not one, the terms that are left are those that are not one, as they were and in
their order. If all are one, a single term is left, and it is one: the term of the chain itself if
there was no other, and else the bare number one, under the identifier of the first term. In either
case simplifying again changes nothing, the identifiers included. The terms that are dropped are the
trivial ones: without labels, and one, one over one, or minus one over minus one.
-/
theorem simplify_once (c : Chain) :
    c.simplify.simplify = c.simplify
    ∧ (c.simplify = c ↔ c.length = 1 ∨ ∀ t ∈ c.terms, ¬ t.IsOne)
    ∧ ((∃ t ∈ c.terms, ¬ t.IsOne) →
        c.simplify.terms = c.terms.filter (fun t => ¬ t.IsOne)
        ∧ ∀ t ∈ c.simplify.terms, ¬ t.IsOne)
    ∧ ((∀ t ∈ c.terms, t.IsOne) →
        (∃ t, c.simplify.terms = [t] ∧ t.IsOne)
        ∧ (c.length = 1 → c.simplify = c)
        ∧ (c.length ≠ 1 → c.simplify = identity c.first.id))
    ∧ ∀ r : Ratio, r.isTrivial = true ↔ r.IsOne := by
  refine ⟨simplify_eq_self_iff.mpr c.simplified_simplify, simplify_eq_self_iff, fun h => ?_,
    fun h => ?_, fun r => Ratio.isTrivial_iff_isOne⟩
  · have hterms := terms_simplify_of_exists h
    refine ⟨hterms, fun t ht => ?_⟩
    rw [hterms] at ht
    simpa using (List.mem_filter.mp ht).2
  · have hsimplify := simplify_of_forall h
    refine ⟨?_, fun hlength => ?_, fun hlength => ?_⟩
    · rw [hsimplify]
      split
      · rename_i hlength
        obtain ⟨t, ht⟩ := List.length_eq_one_iff.mp hlength
        exact ⟨t, ht, h t (ht ▸ List.mem_singleton_self t)⟩
      · exact ⟨_, rfl, .bare⟩
    · rw [hsimplify, if_pos hlength]
    · rw [hsimplify, if_neg hlength]

/-- Half a dozen of something between two terms that are one. -/
def padded : Chain :=
  ⟨[⟨⟨.scalar (-1), some (.scalar (-1))⟩, .counted 0⟩, ⟨⟨.scalar 6, none⟩, .counted 1⟩,
    ⟨⟨.identity, some .identity⟩, .counted 2⟩], by simp⟩

/-- Nothing but one. -/
def oneOverAndOver : Chain :=
  ⟨[⟨⟨.scalar (-1), some (.scalar (-1))⟩, .counted 3⟩, .identity (.counted 4)], by simp⟩

/-- The half dozen is left of the first chain, and the first identifier of the second. -/
theorem simplify_once_padded :
    (∃ t ∈ padded.terms, ¬ t.IsOne) ∧ padded.simplify.ids = [.counted 1]
    ∧ (∀ t ∈ oneOverAndOver.terms, t.IsOne) ∧ oneOverAndOver.length ≠ 1
    ∧ oneOverAndOver.simplify = identity (.counted 3) := by
  have hsix : ∃ t ∈ padded.terms, ¬ t.IsOne := by decide +kernel
  have hone : ∀ t ∈ oneOverAndOver.terms, t.IsOne := by decide +kernel
  have hlength : oneOverAndOver.length ≠ 1 := by decide
  have hkept := ((simplify_once padded).2.2.1 hsix).1
  have hids : padded.simplify.ids = (padded.terms.filter fun t => ¬ t.IsOne).map Term.id :=
    congrArg (List.map Term.id) hkept
  exact ⟨hsix, hids.trans (by decide +kernel), hone, hlength,
    ((simplify_once oneOverAndOver).2.2.2.1 hone).2.2 hlength⟩

end Chain

end FactorLabel
