import FactorLabel.Chain.Script
import Mathlib.Data.List.Forall2

/-!
# Two sessions side by side

What two chains have in common, term by term, stays common to them if both are edited in the same
way. Here that is proved once, for any relation between identifiers and any relation between
ratios that the edits of a single term keep. Every edit looks at the ratios only to see whether
they are trivial, and at the identifiers not at all.
-/

namespace FactorLabel

/-! ## Lists of related elements -/

section

variable {α β : Type} {P : α → β → Prop} {l : List α} {l' : List β}

theorem forall₂_modify (h : List.Forall₂ P l l') {f : α → α} {g : β → β}
    (hfg : ∀ a b, P a b → P (f a) (g b)) (index : Nat) :
    List.Forall₂ P (l.modify index f) (l'.modify index g) := by
  induction h generalizing index with
  | nil =>
      rw [List.modify_nil, List.modify_nil]
      exact .nil
  | cons hab h ih =>
      cases index with
      | zero => exact .cons (hfg _ _ hab) h
      | succ index => exact .cons hab (ih index)

theorem forall₂_modify_self {Q : α → α → Prop} (hself : ∀ a, Q a a) {f : α → α}
    (hf : ∀ a, Q a (f a)) (l : List α) (index : Nat) : List.Forall₂ Q l (l.modify index f) := by
  induction l generalizing index with
  | nil =>
      rw [List.modify_nil]
      exact .nil
  | cons a l ih =>
      cases index with
      | zero => exact .cons (hf a) (List.forall₂_same.mpr fun b _ => hself b)
      | succ index => exact .cons (hself a) (ih index)

theorem forall₂_eraseIdx (h : List.Forall₂ P l l') (index : Nat) :
    List.Forall₂ P (l.eraseIdx index) (l'.eraseIdx index) := by
  induction h generalizing index with
  | nil => exact .nil
  | cons hab h ih =>
      cases index with
      | zero => exact h
      | succ index => exact .cons hab (ih index)

theorem forall₂_insertIdx (h : List.Forall₂ P l l') {a : α} {b : β} (hab : P a b) (index : Nat) :
    List.Forall₂ P (l.insertIdx index a) (l'.insertIdx index b) := by
  induction h generalizing index with
  | nil =>
      cases index with
      | zero => exact .cons hab .nil
      | succ index => exact .nil
  | cons hcd h ih =>
      cases index with
      | zero => exact .cons hab (.cons hcd h)
      | succ index => exact .cons hcd (ih index)

/-- Related lists have related elements at the same places. -/
theorem forall₂_getElem? (h : List.Forall₂ P l l') (index : Nat) :
    Option.Rel P l[index]? l'[index]? := by
  induction h generalizing index with
  | nil => exact .none
  | cons hab h ih =>
      cases index with
      | zero => exact .some hab
      | succ index => exact ih index

theorem forall₂_filterMap_getElem? (h : List.Forall₂ P l l') (indices : List Nat) :
    List.Forall₂ P (indices.filterMap (l[·]?)) (indices.filterMap (l'[·]?)) := by
  have hindices : List.Forall₂ (· = ·) indices indices := List.forall₂_same.mpr fun _ _ => rfl
  refine List.rel_filterMap (fun i j hij => ?_) hindices
  rw [hij]
  exact forall₂_getElem? h j

end

/-! ## Related chains -/

/-- A relation between ratios that the edits of a term keep and that simplification does not see. -/
structure Ratio.Respected (S : Ratio → Ratio → Prop) : Prop where
  identity : S .identity .identity
  set : ∀ {r r' : Ratio} {text : String} {q : Quantity} (s : Side), S r r' →
    Field.quantity? text = some q → S (r.set s q) (r'.set s q)
  flip : ∀ {r r' : Ratio}, S r r' → S r.flip r'.flip
  isTrivial : ∀ {r r' : Ratio}, S r r' → r.isTrivial = r'.isTrivial

section

variable (R : TermId → TermId → Prop) (S : Ratio → Ratio → Prop)

/-- Terms with related identifiers and related ratios. -/
def Term.Related (t t' : Term) : Prop := R t.id t'.id ∧ S t.toRatio t'.toRatio

/-- Chains of related terms. -/
def Chain.Related (c c' : Chain) : Prop := List.Forall₂ (Term.Related R S) c.terms c'.terms

/-- The same edit on both chains. The terms that are put in are related, and so are the identifiers
that stand ready for the case that nothing is left. -/
inductive Edit.Related : Edit → Edit → Prop where
  | insert (index : Nat) {t t' : Term} (h : t.Related R S t') :
      Edit.Related (.insert index t) (.insert index t')
  | update (index : Nat) (s : Side) (text : String) :
      Edit.Related (.update index s text) (.update index s text)
  | remove {fresh fresh' : TermId} (h : R fresh fresh') (index : Nat) :
      Edit.Related (.remove fresh index) (.remove fresh' index)
  | flip (index : Nat) : Edit.Related (.flip index) (.flip index)
  | move (source target : Nat) : Edit.Related (.move source target) (.move source target)
  | simplify : Edit.Related .simplify .simplify
  | select {fresh fresh' : TermId} (h : R fresh fresh') (indices : List Nat) :
      Edit.Related (.select fresh indices) (.select fresh' indices)

end

namespace Chain.Related

variable {R : TermId → TermId → Prop} {S : Ratio → Ratio → Prop} {c c' : Chain}

theorem length_eq (h : c.Related R S c') : c.length = c'.length := List.Forall₂.length_eq h

theorem first (h : c.Related R S c') : c.first.Related R S c'.first := by
  obtain ⟨ts, hne⟩ := c
  obtain ⟨ts', hne'⟩ := c'
  cases h with
  | nil => exact absurd rfl hne
  | cons hterm _ => exact hterm

theorem ofTerms (hS : Ratio.Respected S) {fresh fresh' : TermId} (hfresh : R fresh fresh')
    {ts ts' : List Term} (h : List.Forall₂ (Term.Related R S) ts ts') :
    (Chain.ofTerms fresh ts).Related R S (Chain.ofTerms fresh' ts') := by
  cases h with
  | nil => exact .cons ⟨hfresh, hS.identity⟩ .nil
  | cons hterm h => exact .cons hterm h

theorem simplify (hS : Ratio.Respected S) (h : c.Related R S c') :
    c.simplify.Related R S c'.simplify := by
  have hsame : ∀ t t' : Term, t.Related R S t' →
      ((!t.isTrivial) = true ↔ (!t'.isTrivial) = true) := by
    intro t t' hterm
    rw [hS.isTrivial hterm.2]
  have hkept : List.Forall₂ (Term.Related R S) (c.terms.filter fun t => !t.isTrivial)
      (c'.terms.filter fun t => !t.isTrivial) := List.rel_filter hsame h
  have hnil : (c.terms.filter fun t => !t.isTrivial) = []
      ↔ (c'.terms.filter fun t => !t.isTrivial) = [] := by
    rw [← List.length_eq_zero_iff, hkept.length_eq, List.length_eq_zero_iff]
  rw [Chain.simplify, Chain.simplify, ← h.length_eq]
  -- both chains take the same branch
  by_cases hall : (c.terms.filter fun t => !t.isTrivial) = []
  · rw [dif_pos hall, dif_pos (hnil.mp hall)]
    split
    · exact h
    · exact .cons ⟨h.first.1, hS.identity⟩ .nil
  · rw [dif_neg hall, dif_neg fun hall' => hall (hnil.mpr hall')]
    exact hkept

/-- **One edit on both chains.** -/
theorem apply (hS : Ratio.Respected S) (h : c.Related R S c') {e e' : Edit}
    (he : e.Related R S e') : (c.apply e).Related R S (c'.apply e') := by
  have hlength := h.length_eq
  cases he with
  | insert index hterm =>
      simp only [Chain.apply, Chain.insert, Chain.Related, hlength]
      exact forall₂_insertIdx h hterm _
  | update index s text =>
      simp only [Chain.apply, Chain.update]
      split
      · exact h
      · rename_i q hread
        split
        · exact h
        · have hset : ∀ t t' : Term, t.Related R S t' → (t.set s q).Related R S (t'.set s q) :=
            fun t t' hterm => ⟨hterm.1, hS.set s hterm.2 hread⟩
          exact forall₂_modify h hset index
  | remove hfresh index =>
      simp only [Chain.apply, Chain.remove, hlength]
      split
      · exact ofTerms hS hfresh (forall₂_eraseIdx h index)
      · exact h
  | flip index =>
      have hflip : ∀ t t' : Term, t.Related R S t' → t.flip.Related R S t'.flip :=
        fun t t' hterm => ⟨hterm.1, hS.flip hterm.2⟩
      exact forall₂_modify h hflip index
  | move source target =>
      simp only [Chain.apply, Chain.move, hlength]
      split
      · rename_i hlt
        have hterm := List.Forall₂.get h (hlength.symm ▸ hlt.1 : source < c.length) hlt.1
        exact forall₂_insertIdx (forall₂_eraseIdx h source) hterm target
      · exact h
  | simplify => exact h.simplify hS
  | select hfresh indices => exact ofTerms hS hfresh (forall₂_filterMap_getElem? h indices)

/-- **Sessions side by side.** Chains that are related stay so in a session that does the same to
both. -/
theorem run (hS : Ratio.Respected S) (h : c.Related R S c') {script script' : List Edit}
    (hscript : List.Forall₂ (Edit.Related R S) script script') :
    (c.run script).Related R S (c'.run script') := by
  induction hscript generalizing c c' with
  | nil => exact h
  | cons he _ ih => exact ih (h.apply hS he)

end Chain.Related

end FactorLabel
