import FactorLabel.Field.Reader
import FactorLabel.Proofs.Grammar.Expression
import FactorLabel.Proofs.Grammar.Factor

/-!
# The two expressions for a factor

A factor is looked for twice. One expression finds it in front of a field, together with the
separators that end it. The other takes it apart when it has been cut out. They are written down
separately, and both are matched by trying: if a factor does not end a word, a shorter one is tried.

No shorter one is ever found. There is no separator in a factor, so a factor that a separator ends
is the longest one in front, and the other way round, if the longest one is not ended by a separator
then none is. This is why the scan, which tries nothing, finds the match, and why what the first
expression cuts out is what the second one takes apart.
-/

namespace FactorLabel

open Text

/-! ## The expressions -/

namespace Grammar

/-- A sign, numerals, and a point with more numerals. -/
def numberRegex : Regex :=
  .seq (.optional (.one (· == '-'))) (.seq (.oneOrMore isNumeral)
    (.optional (.seq (.one (· == '.')) (.oneOrMore isNumeral))))

/-- A percent sign, or none. -/
def percentRegex : Regex := .optional (.one (· == '%'))

/-- A factor that is the whole text. -/
def factorRegex : Regex := .seq (.group 1 numberRegex) (.seq (.group 2 percentRegex) .finish)

/-- What ends a factor: separators, or the end of the text. -/
def gapRegex : Regex := .either (.oneOrMore separator) .finish

/-- A factor in front, with what ends it. -/
def segmentRegex : Regex := .seq (.group 1 (.seq numberRegex percentRegex)) gapRegex

variable {w : Way} {n : Nat} {s x : List Char}

theorem plain_numberRegex : numberRegex.Plain := by
  simp [numberRegex, Regex.Plain, Regex.optional, Regex.oneOrMore]

theorem plain_percentRegex : percentRegex.Plain := ⟨trivial, trivial⟩

theorem language_numberRegex : numberRegex.language = number := by
  simp only [numberRegex, Regex.language, Regex.optional, Regex.oneOrMore, one_beq, number,
    optional, numerals, repeated, mul_assoc, add_comm (1 : Language Char)]

theorem language_percentRegex : percentRegex.language = optional (mark '%') := by
  simp only [percentRegex, Regex.language, Regex.optional, one_beq, optional,
    add_comm (1 : Language Char)]

end Grammar

/-! ## A factor that is the whole text -/

namespace FactorToken

/-- The way to match a factor. -/
def way (t : FactorToken) : Grammar.Way :=
  ⟨t.text, [(1, ⟨0, t.numberText⟩), (2, ⟨byteLength t.numberText, t.percentText⟩)], []⟩

theorem piece_way (t : FactorToken) : t.way.piece 2 = Pattern.ofFactor t := rfl

end FactorToken

namespace Grammar

variable {w : Way} {n : Nat} {s x : List Char}

/-- A text is a factor in one way, if in any. -/
theorem mem_ways_factorRegex : w ∈ factorRegex.ways 0 x ↔
    ∃ t, FactorToken.whole? x = some t ∧ w = t.way := by
  rw [factorRegex, Regex.mem_ways_seq]
  constructor
  · rintro ⟨u, hu, v, hv, rfl⟩
    obtain ⟨a, behind, rfl, rfl, ha⟩ := (Regex.mem_ways_group_iff plain_numberRegex).mp hu
    obtain ⟨u', hu', v', hv', rfl⟩ := Regex.mem_ways_seq.mp hv
    obtain ⟨b, rest, rfl, hbehind, hb⟩ := (Regex.mem_ways_group_iff plain_percentRegex).mp hu'
    obtain ⟨hend, rfl⟩ := Regex.mem_ways_finish.mp hv'
    rw [language_numberRegex] at ha
    rw [language_percentRegex] at hb
    obtain ⟨t, ht, rfl⟩ := mem_number_iff.mp ha
    obtain ⟨percent, rfl⟩ := mem_optional_mark.mp hb
    have hpercent : behind = markText '%' percent := by
      have hrest : rest = [] := hend
      have happend : behind = markText '%' percent ++ rest := hbehind
      rw [happend, hrest, List.append_nil]
    refine ⟨{ t with percent }, FactorToken.whole?_eq_some_iff.mpr ⟨?_, ?_⟩, ?_⟩
    · exact ⟨ht.nonempty, ht.whole, ht.fraction⟩
    · rw [hpercent]
      rfl
    · simp [Way.append, FactorToken.way, FactorToken.text, FactorToken.numberText,
        FactorToken.percentText, markText]
  · rintro ⟨t, ht, rfl⟩
    obtain ⟨hwf, rfl⟩ := FactorToken.whole?_eq_some_iff.mp ht
    have hnumber : t.numberText ∈ numberRegex.language := by
      rw [language_numberRegex]
      exact mem_number_iff.mpr ⟨t, hwf, rfl⟩
    have hpercent : t.percentText ∈ percentRegex.language := by
      rw [language_percentRegex]
      exact mem_optional_mark.mpr ⟨t.percent, rfl⟩
    have hfront := (Regex.mem_ways_group_iff (n := 0) (i := 1) plain_numberRegex).mpr
      ⟨t.numberText, t.percentText, rfl, rfl, hnumber⟩
    have hbehind := (Regex.mem_ways_group_iff (n := 0 + byteLength t.numberText) (i := 2)
      plain_percentRegex).mpr
      ⟨t.percentText, [], rfl, (List.append_nil t.percentText).symm, hpercent⟩
    refine ⟨_, hfront, _, Regex.mem_ways_seq.mpr
      ⟨_, hbehind, _, Regex.mem_ways_finish.mpr ⟨rfl, rfl⟩, rfl⟩, ?_⟩
    simp [Way.append, FactorToken.way, FactorToken.text]

/-- The match is the factor that the scan finds. -/
theorem read?_factorRegex (x : List Char) : factorRegex.read? 2 x = Pattern.factor.read? x := by
  rw [Regex.read?_of_ways fun w => mem_ways_factorRegex, Pattern.read?]
  simp only [FactorToken.piece_way]

/-! ## A factor in front -/

/-- Only a separator or the end of the text ends a factor. -/
theorem ends_of_mem_ways (h : w ∈ gapRegex.ways n s) : FactorToken.Ends s := by
  have hplain : (Regex.oneOrMore separator).Plain := ⟨trivial, trivial⟩
  rcases Regex.mem_ways_either.mp h with h | h
  · obtain ⟨v, rest, -, rfl, hv⟩ := (Regex.mem_ways_iff hplain).mp h
    obtain ⟨hne, hgap⟩ := mem_repeated_one.mp hv
    rw [separator_eq] at hgap
    exact FactorToken.ends_append hgap (.inl hne)
  · rw [(Regex.mem_ways_finish.mp h).1]
    exact FactorToken.ends_nil

/-- All separators are taken. -/
theorem head?_ways_gapRegex (h : FactorToken.Ends s) :
    (gapRegex.ways n s).head? = some ⟨s.takeWhile separator, [], s.dropWhile separator⟩ := by
  cases s with
  | nil => rfl
  | cons c s =>
      have hc : separator c = true := by
        rw [separator_eq]
        exact h c rfl
      rw [gapRegex, Regex.ways, List.head?_append, Regex.head?_ways_oneOrMore hc]
      rfl

/-- The ways of the first group take the factors in front. -/
theorem mem_ways_front {u : Way} :
    u ∈ (Regex.group 1 (.seq numberRegex percentRegex)).ways 0 x ↔
      ∃ f rest, u = ⟨f, [(1, ⟨0, f⟩)], rest⟩ ∧ x = f ++ rest ∧ f ∈ factor := by
  have hlanguage : (Regex.seq numberRegex percentRegex).language = factor := by
    rw [Regex.language, language_numberRegex, language_percentRegex]
    rfl
  have hplain : (Regex.seq numberRegex percentRegex).Plain :=
    ⟨plain_numberRegex, plain_percentRegex⟩
  rw [Regex.mem_ways_group_iff hplain, hlanguage]

/-- Whatever is tried, what is found is a factor that is a word of its own. -/
theorem leads_of_mem_ways {u v : Way}
    (hu : u ∈ (Regex.group 1 (.seq numberRegex percentRegex)).ways 0 x)
    (hv : v ∈ gapRegex.ways n u.rest) :
    ∃ f : FactorToken, FactorToken.Leads f x u.rest
      ∧ u = ⟨f.text, [(1, ⟨0, f.text⟩)], u.rest⟩ := by
  obtain ⟨_, rest, rfl, hx, hfactor⟩ := mem_ways_front.mp hu
  obtain ⟨f, hwf, rfl⟩ := mem_factor_iff.mp hfactor
  exact ⟨f, ⟨hwf, hx, ends_of_mem_ways hv⟩, rfl⟩

variable {f : FactorToken} {t rest : List Char}

/-- The first way that goes through is the factor with all separators behind it. -/
theorem head?_ways_segmentRegex (h : FactorToken.Leads f t rest) :
    (segmentRegex.ways 0 t).head? = some ⟨f.text ++ rest.takeWhile separator,
      [(1, ⟨0, f.text⟩)], rest.dropWhile separator⟩ := by
  have hfront : (⟨f.text, [(1, ⟨0, f.text⟩)], rest⟩ : Way)
      ∈ (Regex.group 1 (.seq numberRegex percentRegex)).ways 0 t :=
    mem_ways_front.mpr ⟨f.text, rest, rfl, h.text, mem_factor_iff.mpr ⟨f, h.wellFormed, rfl⟩⟩
  rw [segmentRegex, Regex.head?_ways_seq hfront]
  · rw [head?_ways_gapRegex h.ends, Option.map_some, Way.append, List.append_nil]
  · intro u hu hne
    -- another factor that goes on is a word of its own as well, and there is one such factor only
    obtain ⟨v, hv⟩ := List.exists_mem_of_ne_nil _ hne
    obtain ⟨g, hleads, hug⟩ := leads_of_mem_ways hu hv
    obtain ⟨rfl, hrest⟩ := hleads.unique h
    rw [hug, hrest]

theorem ways_segmentRegex_eq_nil (h : ∀ f rest, ¬FactorToken.Leads f t rest) :
    segmentRegex.ways 0 t = [] := by
  refine List.eq_nil_iff_forall_not_mem.mpr fun w hw => ?_
  obtain ⟨u, hu, v, hv, -⟩ := Regex.mem_ways_seq.mp hw
  obtain ⟨f, hleads, -⟩ := leads_of_mem_ways hu hv
  exact h f u.rest hleads

theorem read?_factorSegment (h : FactorToken.Leads f t rest) :
    Pattern.factorSegment.read? t
      = some ⟨f.text ++ rest.takeWhile separator, [some ⟨0, f.text⟩]⟩ := by
  rw [Pattern.read?, h.segment?, separator_eq]
  rfl

theorem exists_leads_of_read? {piece : Piece} (h : Pattern.factorSegment.read? t = some piece) :
    ∃ f rest, FactorToken.Leads f t rest := by
  obtain ⟨⟨f, gap, rest⟩, hsegment, -⟩ := Option.map_eq_some_iff.mp h
  exact ⟨f, gap ++ rest, FactorToken.leads_of_segment? hsegment⟩

theorem read?_factorSegment_eq_none (h : ∀ f rest, ¬FactorToken.Leads f t rest) :
    Pattern.factorSegment.read? t = none := by
  refine Option.eq_none_iff_forall_ne_some.mpr fun piece hread => ?_
  obtain ⟨f, rest, hleads⟩ := exists_leads_of_read? hread
  exact h f rest hleads

/-- The match is what the scan finds. -/
theorem read?_segmentRegex (t : List Char) :
    segmentRegex.read? 1 t = Pattern.factorSegment.read? t := by
  by_cases h : ∃ f rest, FactorToken.Leads f t rest
  · obtain ⟨f, rest, hleads⟩ := h
    rw [Regex.read?, head?_ways_segmentRegex hleads, read?_factorSegment hleads]
    rfl
  · have hnone : ∀ f rest, ¬FactorToken.Leads f t rest := fun f rest hleads => h ⟨f, rest, hleads⟩
    rw [Regex.read?, ways_segmentRegex_eq_nil hnone, read?_factorSegment_eq_none hnone]
    rfl

/-! ## The longest factor -/

/-- Of the factors that stand in front of `t`, the longest is `f`. -/
structure Longest (f t : List Char) : Prop where
  factor : f ∈ Grammar.factor
  front : f <+: t
  longest : ∀ g ∈ Grammar.factor, g <+: t → g.length ≤ f.length

theorem Longest.unique {f g t : List Char} (h : Longest f t) (h' : Longest g t) : f = g := by
  have hlength : f.length = g.length :=
    Nat.le_antisymm (h'.longest f h.factor h.front) (h.longest g h'.factor h'.front)
  exact (List.prefix_of_prefix_length_le h.front h'.front hlength.le).eq_of_length hlength

/-- **A factor that is a word of its own is the longest.** A longer one would go on over the
separator. -/
theorem longest_of_leads (h : FactorToken.Leads f t rest) : Longest f.text t where
  factor := mem_factor_iff.mpr ⟨f, h.wellFormed, rfl⟩
  front := ⟨rest, h.text.symm⟩
  longest := by
    intro g hg hfront
    by_contra hlt
    obtain ⟨token, hwf, rfl⟩ := mem_factor_iff.mp hg
    have hfg : f.text <+: token.text :=
      List.prefix_of_prefix_length_le ⟨rest, h.text.symm⟩ hfront (by omega)
    obtain ⟨m, hm⟩ := hfg
    obtain ⟨r, hr⟩ := hfront
    cases m with
    | nil =>
        rw [List.append_nil] at hm
        rw [hm] at hlt
        omega
    | cons c m =>
        have hrest : rest = c :: m ++ r := by
          rw [← hm, List.append_assoc] at hr
          exact List.append_cancel_left (h.text.symm.trans hr.symm)
        have hblank := h.ends c (by rw [hrest]; rfl)
        have hsolid := hwf.solid c (by
          rw [← hm]
          exact List.mem_append_right _ List.mem_cons_self)
        exact Bool.false_ne_true (hsolid.symm.trans hblank)

/-- If the longest factor goes on into something else, no factor is a word of its own. -/
theorem not_leads_of_longest {p : List Char} {c : Char} (h : Longest p t)
    (ht : t = p ++ c :: rest) (hc : separator c = false) :
    ∀ f rest, ¬FactorToken.Leads f t rest := by
  intro f rest' hleads
  have hp : p = f.text := h.unique (longest_of_leads hleads)
  have hrest : rest' = c :: rest := by
    have htext := hleads.text
    rw [ht, hp] at htext
    exact (List.append_cancel_left htext).symm
  have hblank := hleads.ends c (by rw [hrest]; rfl)
  rw [separator_eq] at hc
  exact Bool.false_ne_true (hc.symm.trans hblank)

/-! ## The result -/

/-- The two expressions for a factor go together on the text `t`. -/
structure FactorsAgree (t : List Char) : Prop where
  /-- What the scans find is what is matched by trying. -/
  matched : segmentRegex.read? 1 t = Pattern.factorSegment.read? t
    ∧ factorRegex.read? 2 t = Pattern.factor.read? t
  /-- What is cut out in front is the longest factor there. It is taken apart as a whole, into a
  number and a percent sign, so the number that is read from the field is always its value. -/
  cut : ∀ piece, Pattern.factorSegment.read? t = some piece →
    ∃ f gap number percent token, piece = ⟨f ++ gap, [some ⟨0, f⟩]⟩
      ∧ (∀ c ∈ gap, separator c = true) ∧ Longest f t
      ∧ Pattern.factor.read? f
          = some ⟨f, [some ⟨0, number⟩, some ⟨byteLength number, percent⟩]⟩
      ∧ number ++ percent = f
      ∧ FactorToken.whole? f = some token ∧ (Field.readFactor t).1 = token.value
  /-- A factor is found in front of separators, all of which are taken, and it is found alone. -/
  found : ∀ f gap rest, t = f ++ gap ++ rest → (Pattern.factor.read? f).isSome = true →
    (∀ c ∈ gap, separator c = true) → (∀ c ∈ rest.head?, separator c = false) →
    gap ≠ [] ∨ rest = [] → Pattern.factorSegment.read? t = some ⟨f ++ gap, [some ⟨0, f⟩]⟩
  /-- If the longest factor does not end a word, nothing is found, whatever is tried. -/
  stuck : ∀ f c rest, Longest f t → t = f ++ c :: rest → separator c = false →
    Pattern.factorSegment.read? t = none ∧ segmentRegex.ways 0 t = []

/-- **The two expressions agree.** -/
theorem factors_agree (t : List Char) : FactorsAgree t where
  matched := ⟨read?_segmentRegex t, read?_factorRegex t⟩
  cut := by
    intro piece hread
    obtain ⟨f, rest, hleads⟩ := exists_leads_of_read? hread
    have hwhole := FactorToken.whole?_eq_some_iff.mpr ⟨hleads.wellFormed, rfl⟩
    refine ⟨f.text, rest.takeWhile separator, f.numberText, f.percentText, f, ?_,
      fun c hc => List.mem_takeWhile_imp hc, longest_of_leads hleads, ?_, rfl, hwhole, ?_⟩
    · rw [read?_factorSegment hleads] at hread
      exact (Option.some.inj hread).symm
    · rw [Pattern.read?, hwhole]
      rfl
    · rw [Field.readFactor, hleads.segment?]
  found := by
    intro f gap rest ht hf hgap hrest hends
    obtain ⟨piece, hpiece⟩ := Option.isSome_iff_exists.mp hf
    obtain ⟨token, hwhole, -⟩ := Option.map_eq_some_iff.mp hpiece
    obtain ⟨hwf, rfl⟩ := FactorToken.whole?_eq_some_iff.mp hwhole
    have hblank : ∀ c ∈ gap, isBlank c = true := by
      rw [← separator_eq]
      exact hgap
    have hleads : FactorToken.Leads token t (gap ++ rest) :=
      ⟨hwf, by rw [ht, List.append_assoc], FactorToken.ends_append hblank hends⟩
    rw [read?_factorSegment hleads, takeWhile_append_of_stops hgap hrest]
  stuck := by
    intro f c rest hlongest ht hc
    have hnone := not_leads_of_longest hlongest ht hc
    exact ⟨read?_factorSegment_eq_none hnone, ways_segmentRegex_eq_nil hnone⟩

/-- A percentage with two separators behind it is cut out. A number with two points is not, although
a shorter factor is in front of its second point. -/
theorem factors_agree_points :
    Pattern.factorSegment.read? "-7.5%\u00a0\u2003m".toList
        = some ⟨"-7.5%\u00a0\u2003".toList, [some ⟨0, "-7.5%".toList⟩]⟩
    ∧ Longest "12.5".toList "12.5.3 m".toList
    ∧ Pattern.factorSegment.read? "12.5.3 m".toList = none := by
  have hwhole : FactorToken.whole? "12.5".toList
      = some ⟨false, "12".toList, "5".toList, false⟩ := by
    decide +kernel
  have hprefixes : ∀ g ∈ "12.5.3 m".toList.inits,
      (FactorToken.whole? g).isSome = true → g.length ≤ 4 := by
    decide +kernel
  have hlongest : Longest "12.5".toList "12.5.3 m".toList :=
    { factor := mem_factor_iff.mpr ⟨_, FactorToken.whole?_eq_some_iff.mp hwhole⟩
      front := by decide +kernel
      longest := by
        intro g hg hfront
        obtain ⟨token, hg⟩ := mem_factor_iff.mp hg
        have hsome := FactorToken.whole?_eq_some_iff.mpr hg
        exact hprefixes g (List.mem_inits _ _ |>.mpr hfront) (by rw [hsome]; rfl) }
  refine ⟨?_, hlongest, ?_⟩
  · refine (factors_agree "-7.5%\u00a0\u2003m".toList).found "-7.5%".toList "\u00a0\u2003".toList
      "m".toList (by decide +kernel) (by decide +kernel) ?_ ?_ (.inl (by decide +kernel))
    · exact List.all_eq_true.mp (by decide +kernel)
    · intro c hc
      rw [← Option.some.inj hc]
      decide +kernel
  · exact ((factors_agree "12.5.3 m".toList).stuck "12.5".toList '.' "3 m".toList hlongest
      (by decide +kernel) (by decide +kernel)).1

end Grammar

end FactorLabel
