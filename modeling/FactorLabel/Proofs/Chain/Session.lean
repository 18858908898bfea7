import FactorLabel.Chain.Samples
import FactorLabel.Chain.Script
import FactorLabel.Json.Reader
import FactorLabel.Proofs.Field.Canonical
import FactorLabel.Stored.Chain
import FactorLabel.Term.Fresh

/-!
# What a session comes to

A session starts with some chain and edits it step by step. What one step can do to the terms is
said once: each term of the edited chain is an old one, perhaps turned over or with one side
entered anew, or the one that was put in, or the number one. So whatever holds of these, and in
particular that all quantities are canonical, holds of every chain that a session comes to.
-/

namespace FactorLabel

/-! ## One step -/

namespace Chain

/-- Where a term of an edited chain comes from. -/
inductive Comes (c : Chain) : Edit → Term → Prop where
  | kept {e : Edit} {t : Term} (old : t ∈ c.terms) : Comes c e t
  | inserted (index : Nat) (t : Term) : Comes c (.insert index t) t
  | entered {index : Nat} {s : Side} {text : String} {t : Term} {q : Quantity} (old : t ∈ c.terms)
      (read : Field.quantity? text = some q) : Comes c (.update index s text) (t.set s q)
  | flipped {index : Nat} {t : Term} (old : t ∈ c.terms) : Comes c (.flip index) t.flip
  | one {e : Edit} (id : TermId) : Comes c e (.identity id)

theorem mem_ofTerms {fresh : TermId} {ts : List Term} {t : Term}
    (h : t ∈ (ofTerms fresh ts).terms) : t ∈ ts ∨ t = .identity fresh := by
  rw [ofTerms] at h
  split at h
  · exact .inr (List.mem_singleton.mp h)
  · exact .inl h

theorem mem_modify {c : Chain} {index : Nat} {f : Term → Term} {t : Term}
    (h : t ∈ (c.modify index f).terms) : t ∈ c.terms ∨ ∃ u ∈ c.terms, t = f u := by
  obtain ⟨i, hi, rfl⟩ := List.mem_iff_getElem.mp h
  have hlt : i < c.terms.length := by rwa [modify, List.length_modify] at hi
  simp only [modify, List.getElem_modify]
  split
  · exact .inr ⟨_, List.getElem_mem hlt, rfl⟩
  · exact .inl (List.getElem_mem hlt)

/-- **What a step can do.** -/
theorem comes_of_mem_apply {c : Chain} {e : Edit} {t : Term} (h : t ∈ (c.apply e).terms) :
    Comes c e t := by
  cases e with
  | insert index u =>
      rcases List.eq_or_mem_of_mem_insertIdx h with rfl | h
      · exact .inserted index t
      · exact .kept h
  | update index s text =>
      simp only [apply, update] at h
      split at h
      · exact .kept h
      · rename_i q hread
        split at h
        · exact .kept h
        · rcases mem_modify h with h | ⟨u, hu, rfl⟩
          · exact .kept h
          · exact .entered hu hread
  | remove fresh index =>
      simp only [apply, remove] at h
      split at h
      · rcases mem_ofTerms h with h | rfl
        · exact .kept (List.mem_of_mem_eraseIdx h)
        · exact .one fresh
      · exact .kept h
  | flip index =>
      rcases mem_modify h with h | ⟨u, hu, rfl⟩
      · exact .kept h
      · exact .flipped hu
  | move source target =>
      simp only [apply, move] at h
      split at h
      · rename_i hlt
        rcases List.eq_or_mem_of_mem_insertIdx h with rfl | h
        · exact .kept (List.get_mem _ _)
        · exact .kept (List.mem_of_mem_eraseIdx h)
      · exact .kept h
  | simplify =>
      simp only [apply, simplify] at h
      split at h
      · split at h
        · exact .kept h
        · rw [List.mem_singleton.mp h]
          exact .one c.first.id
      · exact .kept (List.mem_of_mem_filter h)
  | select fresh indices =>
      rcases mem_ofTerms h with h | rfl
      · obtain ⟨i, _, hi⟩ := List.mem_filterMap.mp h
        exact .kept (List.mem_of_getElem? hi)
      · exact .one fresh

end Chain

/-! ## What holds of every quantity -/

/-- Both quantities have the property, as far as they are there. -/
def Ratio.Every (P : Quantity → Prop) (r : Ratio) : Prop := ∀ s, ∀ q ∈ r.side s, P q

/-- Nothing is put in that does not have the property. -/
def Edit.Every (P : Quantity → Prop) : Edit → Prop
  | .insert _ t => t.toRatio.Every P
  | _ => True

/-- Every quantity of every term has the property. -/
def Chain.Every (P : Quantity → Prop) (c : Chain) : Prop := ∀ t ∈ c.terms, t.toRatio.Every P

section

variable {P : Quantity → Prop}

namespace Ratio

theorem every_iff {r : Ratio} : r.Every P ↔ P r.numerator ∧ ∀ q ∈ r.denominator, P q := by
  constructor
  · exact fun h => ⟨h .numerator _ rfl, h .denominator⟩
  · rintro ⟨hnum, hden⟩ (_ | _) q hq
    · rwa [← Option.some.inj hq]
    · exact hden q hq

theorem every_identity (hone : P .identity) : identity.Every P :=
  every_iff.mpr ⟨hone, fun _ hq => nomatch hq⟩

theorem Every.set {r : Ratio} (h : r.Every P) (s : Side) {q : Quantity} (hq : P q) :
    (r.set s q).Every P := by
  intro s' q' hq'
  rw [side_set] at hq'
  split at hq'
  · rwa [← Option.some.inj hq']
  · exact h s' q' hq'

theorem Every.flip {r : Ratio} (hone : P .identity) (h : r.Every P) : r.flip.Every P := by
  obtain ⟨hnum, hden⟩ := every_iff.mp h
  refine every_iff.mpr ⟨?_, fun q hq => ?_⟩
  -- above the line now stands what was below, or the number one
  · show P (r.denominator.getD .identity)
    cases hd : r.denominator with
    | none => exact hone
    | some d => exact hden d hd
  · rwa [← Option.some.inj hq]

end Ratio

namespace Chain

/-- What holds of the number one and of all that can be typed is kept by every edit. -/
theorem Every.apply (hone : P .identity) (hread : ∀ text, ∀ q ∈ Field.quantity? text, P q)
    {c : Chain} (h : c.Every P) {e : Edit} (he : e.Every P) : (c.apply e).Every P := by
  intro t ht
  cases comes_of_mem_apply ht with
  | kept old => exact h t old
  | inserted index t => exact he
  | entered old read => exact (h _ old).set _ (hread _ _ read)
  | flipped old => exact (h _ old).flip hone
  | one id => exact Ratio.every_identity hone

theorem Every.run (hone : P .identity) (hread : ∀ text, ∀ q ∈ Field.quantity? text, P q)
    {c : Chain} (h : c.Every P) {script : List Edit} (hscript : ∀ e ∈ script, e.Every P) :
    (c.run script).Every P := by
  induction script generalizing c with
  | nil => exact h
  | cons e script ih =>
      exact ih (h.apply hone hread (hscript e List.mem_cons_self)) fun e' he' =>
        hscript e' (List.mem_cons_of_mem e he')

end Chain

end

/-! ## Canonical chains -/

/-- Both quantities are canonical, as far as they are there. -/
def Ratio.Canonical (r : Ratio) : Prop := ∀ s, ∀ q ∈ r.side s, q.Canonical

namespace Ratio

theorem canonical_iff {r : Ratio} :
    r.Canonical ↔ r.numerator.Canonical ∧ ∀ q ∈ r.denominator, q.Canonical := every_iff

instance (r : Ratio) : Decidable r.Canonical := decidable_of_iff' _ canonical_iff

theorem canonical_identity : identity.Canonical := every_identity Quantity.canonical_identity

end Ratio

/-- Nothing is put in that is not canonical. -/
def Edit.Canonical : Edit → Prop
  | .insert _ t => t.toRatio.Canonical
  | _ => True

namespace Chain

/-- Every term is canonical. -/
def Canonical (c : Chain) : Prop := ∀ t ∈ c.terms, t.toRatio.Canonical

/-- **Canonical chains stay canonical.** -/
theorem Canonical.run {c : Chain} (h : c.Canonical) {script : List Edit}
    (hscript : ∀ e ∈ script, e.Canonical) : (c.run script).Canonical :=
  Every.run Quantity.canonical_identity (fun _ _ => Field.canonical_of_quantity?) h hscript

theorem canonical_identity (fresh : TermId) : (identity fresh).Canonical := by
  intro t ht
  rw [List.mem_singleton.mp ht]
  exact Ratio.canonical_identity

theorem canonical_ofRatios {rs : List Ratio} (fresh : Nat → TermId)
    (h : ∀ r ∈ rs, r.Canonical) : (ofRatios fresh rs).Canonical := by
  intro t ht
  rcases mem_ofTerms ht with ht | rfl
  · obtain ⟨i, hi, rfl⟩ := List.mem_mapIdx.mp ht
    exact h _ (List.getElem_mem hi)
  · exact Ratio.canonical_identity

end Chain

/-! ## Where a session starts -/

/-- The chains that a host may start with. -/
inductive Sample : Chain → Prop where
  | identity (fresh : TermId) : Sample (.identity fresh)
  | grapesPerMetre (fresh : Nat → TermId) : Sample (.grapesPerMetre fresh)
  | planksAndWood (fresh : Nat → TermId) : Sample (.planksAndWood fresh)
  | grapesPerDay (fresh : Nat → TermId) : Sample (.grapesPerDay fresh)

/-- A session starts with a sample, with given ratios or terms, or with what is read from a text. -/
inductive Origin : Chain → Prop where
  | sample {c : Chain} (h : Sample c) : Origin c
  | ratios (fresh : Nat → TermId) (rs : List Ratio) : Origin (.ofRatios fresh rs)
  | terms (fresh : TermId) (ts : List Term) : Origin (.ofTerms fresh ts)
  | stored {fresh : TermId} {text : String} {j : Json} {c : Chain}
      (read : Json.read? text = some j) (shape : Chain.ofJson? fresh j = some c) : Origin c

theorem Sample.canonical {c : Chain} (h : Sample c) : c.Canonical := by
  cases h with
  | identity fresh => exact Chain.canonical_identity fresh
  | grapesPerMetre fresh => exact Chain.canonical_ofRatios fresh (by decide +kernel)
  | planksAndWood fresh => exact Chain.canonical_ofRatios fresh (by decide +kernel)
  | grapesPerDay fresh => exact Chain.canonical_ofRatios fresh (by decide +kernel)

/-- The chain is well-formed: it is not empty, its identifiers are eighteen ASCII letters and
digits, and its labels are maps without an exponent zero. -/
structure Sound (c : Chain) : Prop where
  nonempty : c.terms ≠ []
  ids : ∀ t ∈ c.terms, t.id.text.toList.length = 18 ∧ ∀ x ∈ t.id.text.toList, x.isAlphanum = true
  labels : ∀ t ∈ c.terms, ∀ s, ∀ q ∈ t.side s,
    q.labels.labels.Nodup ∧ ∀ p ∈ q.labels.entries, p.exponent ≠ 0

/-- No chain can be built that is not well-formed. -/
theorem Chain.sound (c : Chain) : Sound c where
  nonempty := c.nonempty
  ids t _ := ⟨t.id.length_text, List.all_eq_true.mp t.id.alphanumeric⟩
  labels _ _ _ q _ := ⟨q.labels.distinct, q.labels.nonzero⟩

/--
**What holds of every chain that a session comes to.**

However a session starts and whatever is done in it, the chain is well-formed. If it starts with a
canonical chain, as every sample is, and only canonical terms are put in, as the number one is, then
every quantity stays canonical, whatever is typed.
-/
theorem session_invariant (script : List Edit) :
    (∀ c, Origin c → Sound (c.run script)
      ∧ (c.Canonical → (∀ e ∈ script, e.Canonical) → (c.run script).Canonical))
    ∧ (∀ c, Sample c → c.Canonical)
    ∧ ∀ index fresh, (Edit.insert index (.identity fresh)).Canonical := by
  refine ⟨fun c _ => ?_, fun c hsample => hsample.canonical, fun index fresh => ?_⟩
  -- being well-formed is kept by the types of chains, identifiers and labels
  · exact ⟨(c.run script).sound, fun hcanonical hscript => hcanonical.run hscript⟩
  · exact Ratio.canonical_identity

/-- Identifiers without chance, told apart by the time. -/
def TermId.counted (i : Nat) : TermId := .compose (UInt64.ofNat i) (.replicate 10 ⟨0, by decide⟩)

/-- One edit of each kind. What is typed has a sign on its zero, an exponent, a word that is no
label and a numeral that is no digit, and in the end nothing is selected. -/
def Edit.everyKind : List Edit :=
  [.insert 9 (.identity (.counted 5)), .update 0 .denominator "-0% m^99 $$ ٣", .flip 0, .move 0 2,
    .remove (.counted 6) 1, .simplify, .select (.counted 7) [40]]

/-- A session on the day of picking that uses every edit. -/
theorem session_invariant_picking :
    Sound ((Chain.grapesPerDay .counted).run Edit.everyKind)
      ∧ ((Chain.grapesPerDay .counted).run Edit.everyKind).Canonical := by
  obtain ⟨hrun, hsample, hone⟩ := session_invariant Edit.everyKind
  obtain ⟨hsound, hcanonical⟩ := hrun _ (.sample (.grapesPerDay .counted))
  refine ⟨hsound, hcanonical (hsample _ (.grapesPerDay .counted)) fun e he => ?_⟩
  simp only [Edit.everyKind, List.mem_cons, List.not_mem_nil, or_false] at he
  rcases he with rfl | rfl | rfl | rfl | rfl | rfl | rfl
  · exact hone 9 (.counted 5)
  all_goals trivial

end FactorLabel
