import FactorLabel.Proofs.Chain.Session

/-!
# Confirming what is shown

A field shows the quantity that it is made for. Confirming it unchanged enters that text, and then
nothing should happen. It is so for every finite factor, in every chain that a session on a sample
comes to: the quantities are canonical, so what is shown is read as it was, and a missing
denominator shows the empty text, which is ignored.

It is not so for an infinite factor. What is shown of it is a word, and a word is read as a label
or is left out.
-/

namespace FactorLabel

open Number

/-! ## Comparing chains -/

theorem Quantity.Canonical.beq_self {q : Quantity} (h : q.Canonical) : (q == q) = true := by
  have hne := Double.ne_nan_of_isNaN_eq_false h.number
  have hfactor : (q.factor == q.factor) = true :=
    Float.beq_iff_ne_nan_and_eq.mpr ⟨hne, hne, .inl rfl⟩
  exact Bool.and_eq_true_iff.mpr ⟨hfactor, Labels.beq_of_get fun _ => rfl⟩

theorem Ratio.Canonical.beq_self {r : Ratio} (h : r.Canonical) : (r == r) = true := by
  obtain ⟨hnum, hden⟩ := canonical_iff.mp h
  refine Bool.and_eq_true_iff.mpr ⟨hnum.beq_self, ?_⟩
  cases hd : r.denominator with
  | none => rfl
  | some d => exact (hden d hd).beq_self

namespace Term

theorem beq_self {t : Term} (h : t.toRatio.Canonical) : (t == t) = true :=
  Bool.and_eq_true_iff.mpr ⟨beq_self_eq_true t.id, h.beq_self⟩

theorem list_beq_self {ts : List Term} (h : ∀ t ∈ ts, t.toRatio.Canonical) :
    (ts == ts) = true := by
  induction ts with
  | nil => rfl
  | cons t ts ih =>
      have ht := beq_self (h t List.mem_cons_self)
      rw [List.cons_beq_cons, ht, ih fun u hu => h u (List.mem_cons_of_mem t hu)]
      rfl

/-- Lists that compare equal have equal terms at the same places. -/
theorem beq_of_list_beq {ts ts' : List Term} (h : (ts == ts') = true) {i : Nat} {t t' : Term}
    (ht : ts[i]? = some t) (ht' : ts'[i]? = some t') : (t == t') = true := by
  induction ts generalizing ts' i with
  | nil => exact nomatch ht
  | cons u ts ih =>
      cases ts' with
      | nil => exact nomatch ht'
      | cons u' ts' =>
          rw [List.cons_beq_cons, Bool.and_eq_true] at h
          cases i with
          | zero =>
              cases ht
              cases ht'
              exact h.1
          | succ i => exact ih h.2 ht ht'

end Term

/-! ## Entering what is shown -/

/-- What is shown of the quantity can be entered without a change. Of the infinities only a minus
infinity without labels can, and only below the line: it is read as one, and there one is
ignored. -/
def Quantity.Settles (s : Side) (q : Quantity) : Prop :=
  q.factor.isInf = true → s = .denominator ∧ signBit q.factor = true ∧ q.labels.isEmpty = true

instance (s : Side) (q : Quantity) : Decidable (q.Settles s) :=
  inferInstanceAs (Decidable (_ → _ ∧ _ ∧ _))

namespace Chain

/-- The quantity on one side of the term at `index`. -/
def slot (c : Chain) (index : Nat) (s : Side) : Option Quantity :=
  c.terms[index]?.bind fun t => t.side s

/-- Enters what is shown of one side. -/
def confirm (c : Chain) (index : Nat) (s : Side) : Chain :=
  c.update index s (Field.text (c.slot index s))

variable {c : Chain} {index : Nat} {s : Side} {q : Quantity}

theorem modify_eq_self {f : Term → Term} (h : ∀ t ∈ c.terms[index]?, f t = t) :
    c.modify index f = c := by
  refine ext_terms (List.ext_getElem? fun i => ?_)
  show (c.terms.modify index f)[i]? = c.terms[i]?
  rw [List.getElem?_modify]
  cases ht : c.terms[i]? with
  | none => rfl
  | some t =>
      refine congrArg some ?_
      split
      · rename_i hi
        exact h t (hi ▸ ht)
      · rfl

theorem set_side {t : Term} (h : t.side s = some q) : t.set s q = t := by
  obtain ⟨⟨numerator, denominator⟩, id⟩ := t
  cases s with
  | numerator =>
      cases h
      rfl
  | denominator =>
      have h : denominator = some q := h
      rw [h]
      rfl

theorem one_beq_eq_false {x : Float} (h : x.isInf = true) : ((1 : Float) == x) = false := by
  rw [Bool.eq_false_iff]
  intro hone
  rcases (Float.beq_iff_ne_nan_and_eq.mp hone).2.2 with rfl | ⟨hzero, _⟩ | ⟨hzero, _⟩
  · exact absurd h (by decide +kernel)
  · exact absurd hzero (by decide +kernel)
  · exact absurd hzero (by decide +kernel)

/-- Another factor on one side makes another chain. -/
theorem modify_beq_eq_false {t : Term} {q' : Quantity} (ht : c.terms[index]? = some t)
    (hside : t.side s = some q) (hne : (q'.factor == q.factor) = false) :
    (c.modify index (·.set s q') == c) = false := by
  rw [Bool.eq_false_iff]
  intro hbeq
  have hnew : (c.modify index (·.set s q')).terms[index]? = some (t.set s q') := by
    simp only [modify, List.getElem?_modify, if_true, ht]
    rfl
  have hterm := Term.beq_of_list_beq hbeq hnew ht
  have hratio : (t.toRatio.set s q' == t.toRatio) = true := (Bool.and_eq_true_iff.mp hterm).2
  have hquantity : (q' == q) = true := by
    obtain ⟨hnum, hden⟩ := Bool.and_eq_true_iff.mp hratio
    cases s with
    | numerator =>
        cases hside
        exact hnum
    | denominator =>
        have hside : t.denominator = some q := hside
        rw [hside] at hden
        exact hden
  rw [(Bool.and_eq_true_iff.mp hquantity).1] at hne
  exact Bool.noConfusion hne

/-- What was entered is shown, unless it was ignored. -/
theorem slot_update {text : String} (hread : Field.quantity? text = some q)
    (hignored : isIgnored s q = false) (hindex : index < c.length) :
    (c.update index s text).slot index s = some q := by
  have hterm : c.terms[index]? = some c.terms[index] := List.getElem?_eq_getElem hindex
  have hslot : (c.modify index (·.set s q)).slot index s = (c.terms[index].set s q).side s := by
    simp only [slot, modify, List.getElem?_modify, if_true, hterm]
    rfl
  rw [update, hread]
  dsimp only
  rw [hignored, if_neg Bool.false_ne_true, hslot]
  cases s <;> rfl

/-- What is read of an infinite factor is ignored if the quantity settles. -/
theorem isIgnored_iff_settles {m : Labels} (hinf : q.factor.isInf = true)
    (hempty : m.isEmpty = true ↔ signBit q.factor = true ∧ q.labels.isEmpty = true) :
    isIgnored s ⟨1, m⟩ = true ↔ q.Settles s := by
  have hone : ((1 : Float) == 1) = true := by decide +kernel
  rw [isIgnored, Quantity.isIdentity, Quantity.hasLabels, hone, Bool.true_and, Bool.not_not,
    Bool.and_eq_true, beq_iff_eq, hempty]
  exact ⟨fun h _ => h, fun h => h hinf⟩

theorem Canonical.confirm_eq_self (h : c.Canonical) (hsettles : ∀ q ∈ c.slot index s, q.Settles s) :
    c.confirm index s = c := by
  rw [confirm, update]
  cases hslot : c.slot index s with
  | none => rfl
  | some q =>
      obtain ⟨t, ht, hside⟩ := Option.bind_eq_some_iff.mp hslot
      have hq := h t (List.mem_of_getElem? ht) s q hside
      cases hinf : q.factor.isInf with
      | false =>
          rw [Field.quantity?_text_of_not_isInf hq hinf]
          dsimp only
          split
          · rfl
          · refine modify_eq_self fun t' ht' => ?_
            rw [ht] at ht'
            rw [← Option.some.inj ht']
            exact set_side hside
      | true =>
          obtain ⟨m, hread, hempty⟩ := Field.quantity?_text_of_isInf hq hinf
          rw [hread]
          exact if_pos ((isIgnored_iff_settles hinf hempty).mpr (hsettles q hslot))

theorem Canonical.confirm_beq_eq_false (h : c.Canonical) (hslot : c.slot index s = some q)
    (hsettles : ¬ q.Settles s) : (c.confirm index s == c) = false := by
  obtain ⟨t, ht, hside⟩ := Option.bind_eq_some_iff.mp hslot
  have hq := h t (List.mem_of_getElem? ht) s q hside
  have hinf : q.factor.isInf = true := (Classical.not_imp.mp hsettles).1
  obtain ⟨m, hread, hempty⟩ := Field.quantity?_text_of_isInf hq hinf
  have hne : ((⟨1, m⟩ : Quantity).factor == q.factor) = false := one_beq_eq_false hinf
  rw [confirm, update, hslot, hread]
  dsimp only
  rw [if_neg fun hguard => hsettles ((isIgnored_iff_settles hinf hempty).mp hguard)]
  exact modify_beq_eq_false ht hside hne

/-- **Exactly the quantities that settle can be confirmed.** -/
theorem Canonical.confirm_beq_iff (h : c.Canonical) :
    (c.confirm index s == c) = true ↔ ∀ q ∈ c.slot index s, q.Settles s := by
  constructor
  · intro hbeq q hslot
    by_contra hsettles
    exact Bool.false_ne_true ((h.confirm_beq_eq_false hslot hsettles).symm.trans hbeq)
  · intro hsettles
    rw [h.confirm_eq_self hsettles]
    exact Term.list_beq_self h

end Chain

/-- Only the number one is put in. -/
def Edit.InsertsOne : Edit → Prop
  | .insert _ t => ∃ fresh, t = .identity fresh
  | _ => True

theorem Edit.InsertsOne.canonical {e : Edit} (h : e.InsertsOne) : e.Canonical := by
  cases e with
  | insert index t =>
      obtain ⟨fresh, rfl⟩ := h
      exact Ratio.canonical_identity
  | _ => trivial

/--
**Confirming what is shown.**

In every chain that a session on a sample comes to, entering what a field shows changes nothing,
whatever was typed before, unless the factor is infinite. The digits of a field may be too many for
any double, and then it is.
-/
theorem Chain.confirm_run {c : Chain} (hsample : Sample c) {script : List Edit}
    (hscript : ∀ e ∈ script, e.InsertsOne) (index : Nat) (s : Side) :
    ((c.run script).confirm index s = c.run script ↔
      ∀ q ∈ (c.run script).slot index s, q.Settles s)
    ∧ (((c.run script).confirm index s == c.run script) = true ↔
      ∀ q ∈ (c.run script).slot index s, q.Settles s) := by
  have h : (c.run script).Canonical :=
    hsample.canonical.run fun e he => (hscript e he).canonical
  refine ⟨⟨fun hsame => h.confirm_beq_iff.mp ?_, h.confirm_eq_self⟩, h.confirm_beq_iff⟩
  rw [hsame]
  exact Term.list_beq_self h

/-- Zero below the line, with a label that reached its largest exponent, comes back. -/
theorem Chain.confirm_run_picking :
    ((Chain.grapesPerDay .counted).run [.update 0 .denominator "-0% m^99999999999999999999 m",
        .flip 1, .insert 9 (.identity (.counted 5))]).confirm 0 .denominator
      = (Chain.grapesPerDay .counted).run [.update 0 .denominator "-0% m^99999999999999999999 m",
        .flip 1, .insert 9 (.identity (.counted 5))] := by
  refine (confirm_run (.grapesPerDay .counted) (fun e he => ?_) 0 .denominator).1.mpr ?_
  · simp only [List.mem_cons, List.not_mem_nil, or_false] at he
    rcases he with rfl | rfl | rfl
    · trivial
    · trivial
    · exact ⟨_, rfl⟩
  · decide +kernel

namespace Field

/-- More digits than a double has room for. -/
def overlong : List Char := '1' :: List.replicate 309 '0'

theorem isInf_readFactor_overlong : (readFactor overlong).1.isInf = true := by decide +kernel

end Field

/-- A single edit is enough for a field that cannot be confirmed: infinity is shown as `inf`, which
is read as a label. -/
theorem Chain.confirm_update_of_isInf (fresh : TermId) {text : String} {q : Quantity}
    (hread : Field.quantity? text = some q) (hinf : q.factor.isInf = true) :
    (((identity fresh).run [.update 0 .numerator text]).confirm 0 .numerator
      == (identity fresh).run [.update 0 .numerator text]) = false := by
  have hcanonical : ((identity fresh).run [.update 0 .numerator text]).Canonical := by
    refine (canonical_identity fresh).run fun e he => ?_
    rw [List.mem_singleton.mp he]
    trivial
  have hslot : ((identity fresh).run [.update 0 .numerator text]).slot 0 .numerator = some q :=
    slot_update hread rfl Nat.one_pos
  exact hcanonical.confirm_beq_eq_false hslot fun hsettles => nomatch (hsettles hinf).1

/-- Three hundred and ten digits are too many. -/
theorem Chain.confirm_overlong :
    Sample (.identity (.counted 0))
    ∧ (∀ e ∈ [Edit.update 0 .numerator (String.ofList Field.overlong)], e.InsertsOne)
    ∧ (((identity (.counted 0)).run [.update 0 .numerator (String.ofList Field.overlong)]).confirm
        0 .numerator
      == (identity (.counted 0)).run [.update 0 .numerator (String.ofList Field.overlong)])
        = false := by
  obtain ⟨q, hread, hfactor⟩ := Field.factor_quantity? (List.cons_ne_nil _ _ : Field.overlong ≠ [])
  have hinf : q.factor.isInf = true := hfactor ▸ Field.isInf_readFactor_overlong
  refine ⟨.identity _, fun e he => ?_, confirm_update_of_isInf _ hread hinf⟩
  rw [List.mem_singleton.mp he]
  trivial

end FactorLabel
