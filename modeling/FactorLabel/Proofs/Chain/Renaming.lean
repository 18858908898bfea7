import FactorLabel.Chain.Samples
import FactorLabel.Proofs.Chain.Answers
import FactorLabel.Proofs.Chain.Session

/-!
# Identifiers are never looked at

An identifier belongs to its term and goes where the term goes, and nothing depends on what it is.
This is said in two ways. Two chains that differ in nothing but their identifiers stay so in any
session that does the same to both, and answer all questions alike. And renaming the identifiers,
even so that several become the same, may be done before a session or after it: so the terms that
are kept, dropped and edited are the same ones, whatever they are called.
-/

namespace FactorLabel

theorem Ratio.respected_eq : Ratio.Respected (· = ·) where
  identity := rfl
  set s h _ := congrArg (Ratio.set · s _) h
  flip h := congrArg Ratio.flip h
  isTrivial h := congrArg Ratio.isTrivial h

/-! ## Chains that differ in their identifiers -/

/-- The same edit. Terms that are put in may have different identifiers, and so may those that are
drawn. -/
def Edit.SameButIds : Edit → Edit → Prop := Edit.Related (fun _ _ => True) (· = ·)

namespace Chain

/-- The same ratios, and the same answers. -/
structure SameButIds (c c' : Chain) : Prop where
  ratios : c.ratios = c'.ratios
  length : c.length = c'.length
  evaluate : c.evaluate = c'.evaluate
  product : c.product = c'.product
  text : ∀ st, c.text st = c'.text st
  needsPeriod : ∀ index, c.needsPeriod index = c'.needsPeriod index

variable {c c' : Chain}

theorem related_eq_iff : c.Related (fun _ _ => True) (· = ·) c' ↔ c.ratios = c'.ratios := by
  have hterm : Term.Related (fun _ _ => True) (· = ·) = fun t t' => t.toRatio = t'.toRatio := by
    funext t t'
    exact propext ⟨fun h => h.2, fun h => ⟨trivial, h⟩⟩
  rw [← List.forall₂_eq_eq_eq, ratios, ratios, List.forall₂_map_left_iff,
    List.forall₂_map_right_iff, Related, hterm]

theorem sameButIds_of_ratios (h : c.ratios = c'.ratios) : c.SameButIds c' := by
  have hrelated := related_eq_iff.mpr h
  have hsimplify := related_eq_iff.mp (hrelated.simplify Ratio.respected_eq)
  exact {
    ratios := h
    length := hrelated.length_eq
    evaluate := by rw [evaluate, evaluate, Chain.product, Chain.product, hsimplify]
    product := congrArg Ratio.product h
    text := fun st => congrArg st.chainText h
    needsPeriod := hrelated.needsPeriod fun _ _ hr => congrArg Ratio.hasTrivialDenominator hr }

end Chain

/-! ## Renaming -/

section

variable (f : TermId → TermId)

/-- The same ratio under another identifier. -/
def Term.rename (t : Term) : Term := ⟨t.toRatio, f t.id⟩

/-- The same ratios under other identifiers. -/
def Chain.rename (c : Chain) : Chain :=
  ⟨c.terms.map (Term.rename f), fun h => c.nonempty (List.map_eq_nil_iff.mp h)⟩

/-- The edit with the identifiers that it brings along renamed. -/
def Edit.rename : Edit → Edit
  | .insert index t => .insert index (t.rename f)
  | .update index s text => .update index s text
  | .remove fresh index => .remove (f fresh) index
  | .flip index => .flip index
  | .move source target => .move source target
  | .simplify => .simplify
  | .select fresh indices => .select (f fresh) indices

end

/-- The second identifier is the name of the first. -/
def TermId.Renamed (f : TermId → TermId) (a b : TermId) : Prop := f a = b

theorem Term.related_renamed_eq (f : TermId → TermId) :
    Term.Related (TermId.Renamed f) (· = ·) = fun t t' => t.rename f = t' := by
  funext ⟨r, id⟩ ⟨r', id'⟩
  refine propext ⟨?_, ?_⟩
  · rintro ⟨hid, hratio⟩
    cases hid
    cases hratio
    rfl
  · intro h
    cases h
    exact ⟨rfl, rfl⟩

theorem Edit.related_rename (f : TermId → TermId) (e : Edit) :
    e.Related (TermId.Renamed f) (· = ·) (e.rename f) := by
  have hname : ∀ id, TermId.Renamed f id (f id) := fun _ => rfl
  cases e with
  | insert index t => exact .insert index ⟨rfl, rfl⟩
  | update index s text => exact .update index s text
  | remove fresh index => exact .remove (hname fresh) index
  | flip index => exact .flip index
  | move source target => exact .move source target
  | simplify => exact .simplify
  | select fresh indices => exact .select (hname fresh) indices

namespace Chain

theorem ratios_rename (f : TermId → TermId) (c : Chain) : (c.rename f).ratios = c.ratios :=
  List.map_map.trans rfl

theorem related_renamed_iff {f : TermId → TermId} {c c' : Chain} :
    c.Related (TermId.Renamed f) (· = ·) c' ↔ c.rename f = c' := by
  have hext : c.rename f = c' ↔ c.terms.map (Term.rename f) = c'.terms :=
    ⟨congrArg terms, fun h => ext_terms h⟩
  rw [hext, ← List.forall₂_eq_eq_eq, List.forall₂_map_left_iff, Related,
    Term.related_renamed_eq]

/--
**Identifiers do not count.**

Take two chains with the same ratios, and two scripts with the same edits, in which the terms that
are put in and the identifiers that are drawn may be called differently. After every step the two
chains have the same ratios, and every question about them has the same answer.

Renaming all identifiers, in any way, before a session gives what it gives after the session.
-/
theorem ids_do_not_count :
    (∀ (c c' : Chain) (script script' : List Edit), c.ratios = c'.ratios →
        List.Forall₂ Edit.SameButIds script script' → ∀ n,
          (c.run (script.take n)).SameButIds (c'.run (script'.take n)))
    ∧ ∀ (f : TermId → TermId) (c : Chain) (script : List Edit),
        (c.rename f).run (script.map (Edit.rename f)) = (c.run script).rename f := by
  refine ⟨fun c c' script script' h hscript n => ?_, fun f c script => ?_⟩
  · have hrun := (related_eq_iff.mpr h).run Ratio.respected_eq (List.forall₂_take n hscript)
    exact sameButIds_of_ratios (related_eq_iff.mp hrun)
  · have hstart : c.Related (TermId.Renamed f) (· = ·) (c.rename f) := related_renamed_iff.mpr rfl
    have hscript : List.Forall₂ (Edit.Related (TermId.Renamed f) (· = ·)) script
        (script.map (Edit.rename f)) := by
      rw [List.forall₂_map_right_iff, List.forall₂_same]
      exact fun e _ => e.related_rename f
    exact (related_renamed_iff.mp (hstart.run Ratio.respected_eq hscript)).symm

/-- Planks are put in and taken out again, everything is simplified away, and the last term is taken
out. The identifiers are drawn from the given one on. -/
def drawingFrom (i : Nat) : List Edit :=
  [.insert 1 ⟨⟨.scalar (-1), some (.scalar (-1))⟩, .counted i⟩, .move 0 2, .flip 1, .simplify,
    .update 0 .numerator "1", .select (.counted (i + 1)) [0, 0], .remove (.counted (i + 2)) 0,
    .remove (.counted (i + 3)) 0]

/-- All terms of the second chain have one identifier, and its session draws it again. -/
theorem ids_do_not_count_planks :
    (planksAndWood .counted).ids.Nodup
    ∧ ((planksAndWood .counted).rename fun _ => .counted 0).ids
        = [.counted 0, .counted 0, .counted 0]
    ∧ ((planksAndWood .counted).run ((drawingFrom 5).take 6)).SameButIds
        (((planksAndWood .counted).rename fun _ => .counted 0).run ((drawingFrom 0).take 6)) := by
  refine ⟨by decide +kernel, by decide +kernel, ?_⟩
  refine ids_do_not_count.1 _ _ _ _ (ratios_rename _ _).symm ?_ 6
  refine .cons (.insert 1 ⟨trivial, rfl⟩) (.cons (.move 0 2) (.cons (.flip 1) (.cons .simplify ?_)))
  refine .cons (.update _ _ _) (.cons (.select trivial _) (.cons (.remove trivial 0) ?_))
  exact .cons (.remove trivial 0) .nil

end Chain

end FactorLabel
