import FactorLabel.Proofs.Grammar.Language
import FactorLabel.Proofs.Text.Scan
import FactorLabel.Token.Factor

/-!
# Factors

A factor is read off the front of a text by one scan, without going back. That is no restriction:
what may follow the longest factor is a numeral, a point or a percent sign at best, and none of
them ends a word. So the scan finds a factor that is a word of its own exactly when the text has
one, and there is never a choice. Nor does it matter how the text goes on behind the separator.
-/

namespace FactorLabel

open Text

namespace FactorToken

/-- The parts of the token are made of numerals, and there are some in front of the point. -/
structure WellFormed (t : FactorToken) : Prop where
  nonempty : t.whole ≠ []
  whole : ∀ c ∈ t.whole, isNumeral c = true
  fraction : ∀ c ∈ t.fraction, isNumeral c = true

theorem text_eq (t : FactorToken) :
    t.text = markText '-' t.negative ++
      (t.whole ++ (fractionText t.fraction ++ markText '%' t.percent)) := by
  simp only [text, numberText, percentText, markText, fractionText, List.append_assoc]

/-- A factor has no separator in it. -/
theorem WellFormed.solid {t : FactorToken} (h : t.WellFormed) :
    ∀ c ∈ t.text, isBlank c = false := by
  have hwhole : ∀ c ∈ t.whole, isBlank c = false := fun c hc =>
    isBlank_eq_false_of_isNumeral (h.whole c hc)
  have hfraction : ∀ c ∈ fractionText t.fraction, isBlank c = false := by
    intro c hc
    rw [fractionText] at hc
    split at hc
    · exact absurd hc List.not_mem_nil
    · rcases List.mem_cons.mp hc with rfl | hc
      · decide
      · exact isBlank_eq_false_of_isNumeral (h.fraction c hc)
  have hmark : ∀ (m : Char) (present : Bool), isBlank m = false →
      ∀ c ∈ markText m present, isBlank c = false := by
    intro m present hm c hc
    cases present with
    | true => rwa [List.mem_singleton.mp hc]
    | false => exact absurd hc List.not_mem_nil
  rw [text_eq]
  simp only [List.forall_mem_append]
  exact ⟨hmark '-' _ (by decide), hwhole, hfraction, hmark '%' _ (by decide)⟩

/-! ## Reading -/

theorem takeFraction_sound {s fraction rest : List Char}
    (h : takeFraction s = (fraction, rest)) :
    s = fractionText fraction ++ rest ∧ ∀ c ∈ fraction, isNumeral c = true := by
  unfold takeFraction at h
  split at h
  · split at h
    · cases h
      exact ⟨rfl, fun c hc => absurd hc List.not_mem_nil⟩
    · rename_i hne
      cases h
      refine ⟨?_, fun c hc => List.mem_takeWhile_imp hc⟩
      rw [fractionText, if_neg hne, List.cons_append, List.takeWhile_append_dropWhile]
  · cases h
    exact ⟨rfl, fun c hc => absurd hc List.not_mem_nil⟩

theorem takeFraction_complete {fraction rest : List Char}
    (hfraction : ∀ c ∈ fraction, isNumeral c = true) (hrest : Stops isNumeral rest)
    (hpoint : Stops (· == '.') rest) :
    takeFraction (fractionText fraction ++ rest) = (fraction, rest) := by
  cases fraction with
  | nil =>
      cases rest with
      | nil => rfl
      | cons c rest =>
          have hc : c ≠ '.' := by simpa using hpoint c rfl
          simp [fractionText, takeFraction, hc]
  | cons c fraction =>
      have htake := takeWhile_append_of_stops hfraction hrest
      have hdrop := dropWhile_append_of_stops hfraction hrest
      rw [fractionText, if_neg (by simp), List.cons_append]
      simp only [takeFraction, htake, hdrop, List.isEmpty_cons, Bool.false_eq_true, if_false]

theorem read?_sound {s rest : List Char} {t : FactorToken} (h : read? s = some (t, rest)) :
    t.WellFormed ∧ s = t.text ++ rest := by
  -- what each scan returns gets a name before the reader is opened
  rcases hsign : takeMark '-' s with ⟨negative, s₁⟩
  rcases hfraction : takeFraction (s₁.dropWhile isNumeral) with ⟨fraction, s₂⟩
  rcases hpercent : takeMark '%' s₂ with ⟨percent, s₃⟩
  simp only [read?, hsign, hfraction, hpercent] at h
  split at h
  · exact nomatch h
  · rename_i hne
    cases h
    obtain ⟨hs₁, hnumerals⟩ := takeFraction_sound hfraction
    refine ⟨⟨?_, fun c hc => List.mem_takeWhile_imp hc, hnumerals⟩, ?_⟩
    · simpa using hne
    · rw [text_eq, eq_of_takeMark hsign, List.append_assoc, List.append_assoc, List.append_assoc,
        ← eq_of_takeMark hpercent, ← hs₁, List.takeWhile_append_dropWhile]

/-- What stops a factor: the end of the text, or a separator. -/
def Ends (rest : List Char) : Prop := ∀ c ∈ rest.head?, isBlank c = true

theorem Ends.stops {rest : List Char} (h : Ends rest) {p : Char → Bool}
    (hp : ∀ c, isBlank c = true → p c = false) : Stops p rest := fun c hc => hp c (h c hc)

/-- A factor in front of a separator or the end is read as it stands. -/
theorem read?_complete {t : FactorToken} (ht : t.WellFormed) {rest : List Char}
    (hrest : Ends rest) : read? (t.text ++ rest) = some (t, rest) := by
  obtain ⟨negative, whole, fraction, percent⟩ := t
  obtain ⟨hnonempty, hwhole, hfraction⟩ := ht
  have hpercent : takeMark '%' (markText '%' percent ++ rest) = (percent, rest) :=
    takeMark_append fun _ => hrest.stops fun c hc => by simp [(of_isBlank hc).2.2.2.1]
  -- nothing behind the numerals goes on with numerals
  have hnumeral : Stops isNumeral (markText '%' percent ++ rest) :=
    stops_markText_append percent (by decide +kernel) (hrest.stops fun c hc => (of_isBlank hc).1)
  have hpoint : Stops (· == '.') (markText '%' percent ++ rest) :=
    stops_markText_append percent (by decide)
      (hrest.stops fun c hc => by simp [(of_isBlank hc).2.2.1])
  have htail := stops_fractionText_append fraction (by decide +kernel) hnumeral
  have hsign : takeMark '-' (markText '-' negative ++
      (whole ++ (fractionText fraction ++ (markText '%' percent ++ rest))))
      = (negative, whole ++ (fractionText fraction ++ (markText '%' percent ++ rest))) := by
    -- without a sign the first character is a numeral, which is no sign
    refine takeMark_append fun _ => ?_
    cases whole with
    | nil => exact absurd rfl hnonempty
    | cons c whole =>
        refine stops_cons (beq_eq_false_iff_ne.mpr ?_)
        rintro rfl
        exact absurd (hwhole '-' List.mem_cons_self) (by decide +kernel)
  have hne : whole.isEmpty = false := by simpa using hnonempty
  rw [text_eq, List.append_assoc, List.append_assoc, List.append_assoc]
  simp only [read?, hsign, takeWhile_append_of_stops hwhole htail,
    dropWhile_append_of_stops hwhole htail, takeFraction_complete hfraction hnumeral hpoint,
    hpercent, hne, Bool.false_eq_true, if_false]

theorem ends_nil : Ends [] := fun _ h => absurd h (by simp)

/-- Separators stop a factor, and at the end of the text there need not be any. -/
theorem ends_append {gap rest : List Char} (hgap : ∀ c ∈ gap, isBlank c = true)
    (h : gap ≠ [] ∨ rest = []) : Ends (gap ++ rest) := by
  cases gap with
  | nil =>
      rw [h.resolve_left (fun hne => hne rfl)]
      exact ends_nil
  | cons c gap =>
      intro d hd
      rw [← Option.some.inj hd]
      exact hgap c List.mem_cons_self

/-- Factors are the texts of well-formed tokens, and each is the text of one token only. -/
theorem whole?_eq_some_iff {s : List Char} {t : FactorToken} :
    whole? s = some t ↔ t.WellFormed ∧ s = t.text := by
  constructor
  · intro h
    unfold whole? at h
    split at h
    · rename_i hread
      cases h
      obtain ⟨ht, hs⟩ := read?_sound hread
      exact ⟨ht, hs.trans (List.append_nil _)⟩
    · exact nomatch h
  · rintro ⟨ht, rfl⟩
    have hread := read?_complete ht ends_nil
    rw [List.append_nil] at hread
    rw [whole?, hread]

/-- Factors that are written alike are the same. -/
theorem WellFormed.text_inj {t u : FactorToken} (h : t.WellFormed) (h' : u.WellFormed)
    (heq : t.text = u.text) : t = u := by
  have hread := whole?_eq_some_iff.mpr ⟨h, heq.symm⟩
  rw [whole?_eq_some_iff.mpr ⟨h', rfl⟩] at hread
  exact (Option.some.inj hread).symm

/-! ## The factor in front of a field -/

/-- A factor in front, the separators behind it, and what comes after them. -/
theorem segment?_eq_some_iff {s gap rest : List Char} {t : FactorToken} :
    segment? s = some (t, gap, rest) ↔
      t.WellFormed ∧ s = t.text ++ gap ++ rest ∧ (∀ c ∈ gap, isBlank c = true)
        ∧ Stops isBlank rest ∧ (gap ≠ [] ∨ rest = []) := by
  constructor
  · intro h
    unfold segment? at h
    split at h
    · rename_i t' behind hread
      obtain ⟨ht, hs⟩ := read?_sound hread
      split at h
      · rename_i hends
        cases h
        refine ⟨ht, ?_, fun c hc => List.mem_takeWhile_imp hc, stops_dropWhile behind, ?_⟩
        · rw [List.append_assoc, List.takeWhile_append_dropWhile, hs]
        · rcases hends with hempty | hgap
          · rw [List.isEmpty_iff.mp hempty]
            exact .inr rfl
          · exact .inl (by simpa using hgap)
      · exact nomatch h
    · exact nomatch h
  · rintro ⟨ht, rfl, hgap, hrest, hends⟩
    have htake := takeWhile_append_of_stops hgap hrest
    have hdrop := dropWhile_append_of_stops hgap hrest
    have hread : read? (t.text ++ (gap ++ rest)) = some (t, gap ++ rest) :=
      read?_complete ht (ends_append hgap hends)
    have hsplit : (gap ++ rest).isEmpty = true ∨ (!gap.isEmpty) = true := by
      rcases hends with hne | rfl
      · exact .inr (by simpa using hne)
      · cases gap with
        | nil => exact .inl rfl
        | cons c gap => exact .inr rfl
    simp only [segment?, List.append_assoc, hread, htake, hdrop]
    exact if_pos hsplit

/-! ## A factor in front of a text that goes on -/

variable {f : FactorToken} {t gap rest u : List Char}

/-- The factor `f` is a word at the front of the text `t`, and `rest` is what stands behind it. -/
structure Leads (f : FactorToken) (t rest : List Char) : Prop where
  wellFormed : f.WellFormed
  text : t = f.text ++ rest
  ends : Ends rest

theorem Leads.segment? (h : Leads f t rest) :
    FactorToken.segment? t = some (f, rest.takeWhile isBlank, rest.dropWhile isBlank) := by
  refine segment?_eq_some_iff.mpr
    ⟨h.wellFormed, ?_, fun c hc => List.mem_takeWhile_imp hc, stops_dropWhile rest, ?_⟩
  · rw [List.append_assoc, List.takeWhile_append_dropWhile]
    exact h.text
  · cases rest with
    | nil => exact .inr rfl
    | cons c rest =>
        rw [List.takeWhile_cons_of_pos (h.ends c rfl)]
        exact .inl (List.cons_ne_nil c _)

theorem leads_of_segment? (h : FactorToken.segment? t = some (f, gap, rest)) :
    Leads f t (gap ++ rest) := by
  obtain ⟨hwf, htext, hgap, -, hends⟩ := segment?_eq_some_iff.mp h
  exact ⟨hwf, by rw [htext, List.append_assoc], ends_append hgap hends⟩

/-- One factor at most is a word at the front of a text. -/
theorem Leads.unique {g : FactorToken} {rest' : List Char} (h : Leads f t rest)
    (h' : Leads g t rest') : f = g ∧ rest = rest' := by
  have hsegment := h.segment?.symm.trans h'.segment?
  obtain ⟨hfg, -⟩ := Prod.mk.inj (Option.some.inj hsegment)
  cases hfg
  exact ⟨rfl, List.append_cancel_left (h.text.symm.trans h'.text)⟩

theorem Leads.append (h : Leads f t rest) (hne : gap ≠ []) (hgap : ∀ c ∈ gap, isBlank c = true)
    (u : List Char) : Leads f (t ++ gap ++ u) (rest ++ gap ++ u) where
  wellFormed := h.wellFormed
  text := by
    rw [h.text]
    simp only [List.append_assoc]
  ends := by
    obtain ⟨d, gap, rfl⟩ := List.exists_cons_of_ne_nil hne
    intro c hc
    cases rest with
    | nil =>
        rw [← Option.some.inj hc]
        exact hgap d List.mem_cons_self
    | cons c' rest => exact h.ends c hc

/-- **No factor comes into being.** A factor in front of a text that goes on behind a separator was
there before. -/
theorem Leads.of_append (h : Leads f (t ++ gap ++ u) rest) (hne : gap ≠ [])
    (hgap : ∀ c ∈ gap, isBlank c = true) : ∃ rest, Leads f t rest := by
  obtain ⟨d, gap, rfl⟩ := List.exists_cons_of_ne_nil hne
  have htext := h.text
  rw [List.append_assoc] at htext
  rcases List.append_eq_append_iff.mp htext with ⟨m, hm, hrest⟩ | ⟨m, hm, hrest⟩
  · cases m with
    | nil => exact ⟨[], h.wellFormed, by rw [hm, List.append_nil, List.append_nil], ends_nil⟩
    -- the separator would be in the factor
    | cons c m =>
        obtain ⟨rfl, -⟩ := List.cons.inj hrest
        have hsolid := h.wellFormed.solid d (by
          rw [hm]
          exact List.mem_append_right t List.mem_cons_self)
        exact absurd (hsolid.symm.trans (hgap d List.mem_cons_self)) Bool.false_ne_true
  · refine ⟨m, h.wellFormed, hm, fun c hc => h.ends c ?_⟩
    rw [hrest]
    exact List.mem_head?_append_of_mem_head? hc

end FactorToken

namespace Grammar

theorem mem_optional_mark {c : Char} {w : List Char} :
    w ∈ optional (mark c) ↔ ∃ present, w = markText c present := by
  rw [mem_optional, mem_mark]
  constructor
  · rintro (rfl | rfl)
    · exact ⟨false, rfl⟩
    · exact ⟨true, rfl⟩
  · rintro ⟨present, rfl⟩
    cases present with
    | true => exact .inr rfl
    | false => exact .inl rfl

theorem mem_optional_fraction {w : List Char} :
    w ∈ optional (mark '.' * numerals) ↔
      ∃ fraction, (∀ c ∈ fraction, isNumeral c = true) ∧ w = fractionText fraction := by
  rw [mem_optional, Language.mem_mul]
  constructor
  · rintro (rfl | ⟨_, rfl, b, hb, rfl⟩)
    · exact ⟨[], fun c hc => absurd hc List.not_mem_nil, rfl⟩
    · obtain ⟨hne, hnumerals⟩ := mem_numerals.mp hb
      exact ⟨b, hnumerals, by simp [fractionText, hne]⟩
  · rintro ⟨fraction, hnumerals, rfl⟩
    cases fraction with
    | nil => exact .inl rfl
    | cons c fraction =>
        exact .inr ⟨['.'], rfl, c :: fraction,
          mem_numerals.mpr ⟨List.cons_ne_nil c fraction, hnumerals⟩, rfl⟩

/-- A factor without the percent sign. -/
def number : Language Char := optional (mark '-') * numerals * optional (mark '.' * numerals)

theorem mem_number_iff {w : List Char} :
    w ∈ number ↔ ∃ t : FactorToken, t.WellFormed ∧ w = t.numberText := by
  simp only [number, Language.mem_mul, mem_optional_mark, mem_optional_fraction, mem_numerals]
  constructor
  · rintro ⟨_, ⟨_, ⟨negative, rfl⟩, whole, ⟨hne, hwhole⟩, rfl⟩, _, ⟨fraction, hfraction, rfl⟩, rfl⟩
    exact ⟨⟨negative, whole, fraction, false⟩, ⟨hne, hwhole, hfraction⟩, rfl⟩
  · rintro ⟨t, ht, rfl⟩
    exact ⟨_, ⟨_, ⟨t.negative, rfl⟩, t.whole, ⟨ht.nonempty, ht.whole⟩, rfl⟩,
      _, ⟨t.fraction, ht.fraction, rfl⟩, rfl⟩

/-- The factors are the texts of the well-formed tokens. -/
theorem mem_factor_iff {w : List Char} :
    w ∈ factor ↔ ∃ t : FactorToken, t.WellFormed ∧ w = t.text := by
  have hfactor : factor = number * optional (mark '%') := rfl
  simp only [hfactor, Language.mem_mul, mem_number_iff, mem_optional_mark]
  constructor
  · rintro ⟨_, ⟨t, ht, rfl⟩, _, ⟨percent, rfl⟩, rfl⟩
    exact ⟨{ t with percent }, ⟨ht.nonempty, ht.whole, ht.fraction⟩, rfl⟩
  · rintro ⟨t, ht, rfl⟩
    exact ⟨_, ⟨t, ht, rfl⟩, _, ⟨t.percent, rfl⟩, rfl⟩

/-! ## Splits -/

/-- The text `t` is the factor `f`, the separators `s` and the label text `r`. The separators are
all that stand behind the factor, and only at the end of the text there need not be any. -/
structure Split (t f s r : List Char) : Prop where
  text : t = f ++ s ++ r
  factor : f ∈ Grammar.factor
  gap : ∀ c ∈ s, separator c = true
  maximal : ∀ c ∈ r.head?, separator c = false
  ended : s ≠ [] ∨ s = [] ∧ r = []

theorem split_iff_segment? {t f s r : List Char} :
    Split t f s r ↔ ∃ token, FactorToken.segment? t = some (token, s, r) ∧ f = token.text := by
  constructor
  · rintro ⟨htext, hfactor, hgap, hmax, hended⟩
    obtain ⟨token, hwf, rfl⟩ := mem_factor_iff.mp hfactor
    rw [separator_eq] at hgap hmax
    exact ⟨token, FactorToken.segment?_eq_some_iff.mpr
      ⟨hwf, htext, hgap, hmax, hended.imp_right And.right⟩, rfl⟩
  · rintro ⟨token, hsegment, rfl⟩
    obtain ⟨hwf, htext, hgap, hmax, hended⟩ := FactorToken.segment?_eq_some_iff.mp hsegment
    rw [← separator_eq] at hgap hmax
    refine ⟨htext, mem_factor_iff.mpr ⟨token, hwf, rfl⟩, hgap, hmax, ?_⟩
    rcases hended with hne | rfl
    · exact .inl hne
    · by_cases hs : s = []
      · exact .inr ⟨hs, rfl⟩
      · exact .inl hs

/-- **No choice.** A text has one split at most. -/
theorem Split.unique {t f s r f' s' r' : List Char} (h : Split t f s r)
    (h' : Split t f' s' r') : f = f' ∧ s = s' ∧ r = r' := by
  obtain ⟨token, hsegment, rfl⟩ := split_iff_segment?.mp h
  obtain ⟨token', hsegment', rfl⟩ := split_iff_segment?.mp h'
  cases hsegment.symm.trans hsegment'
  exact ⟨rfl, rfl, rfl⟩

end Grammar

end FactorLabel
