import FactorLabel.Proofs.Grammar.Expression
import FactorLabel.Proofs.Grammar.Label
import FactorLabel.Proofs.Grammar.Runs

/-!
# The groups of a label

The expression for a label can be matched in several ways. A letter may be an emoji too, a skin tone
may go with the emoji in front of it or with what the name goes on with, and so on. But no character
of a name is a caret, so all ways take the same name and the same exponent, and it does not matter
which of them is tried first. So the scan for labels, which does not try anything, finds the match.
-/

namespace FactorLabel

open Text

namespace Grammar

/-! ## The expression -/

/-- What a name may start with. -/
def nameStarts : List Regex := [
  .one isLetter,
  .one (· == '°'),
  .seq (.one emojiModifierBase.contains) (.optional (.one emojiModifier.contains)),
  .one emojiPresentation.contains,
  .seq (.one emoji.contains) (.one (· == pictureSelector))]

/-- A name, with the alternatives for its start in the order in which they are tried. -/
def nameRegex (starts : List Regex) : Regex := .seq (.firstOf starts) (.many continuesLabel)

/-- The exponent, if there is one, and the end of the text. -/
def powerRegex : Regex :=
  .seq (.optional (.seq (.one (· == '^')) (.group 2 (.oneOrMore isNumeral)))) .finish

/-- A name, and after it the exponent, that are the whole text. -/
def labelRegex (starts : List Regex) : Regex := .seq (.group 1 (nameRegex starts)) powerRegex

variable {starts : List Regex} {w : Way} {n : Nat} {s x : List Char}

/-- In whatever order the alternatives are tried, they are the starts of a name. -/
theorem language_starts (h : starts.Perm nameStarts) :
    (Regex.firstOf starts).language = nameStart := by
  rw [Regex.language_firstOf_perm h, Regex.language_firstOf]
  simp only [nameStarts, List.map_cons, List.map_nil, List.sum_cons, List.sum_nil, add_zero,
    Regex.language, Regex.optional, one_beq, nameStart, optional, add_assoc,
    add_comm (1 : Language Char)]

theorem plain_nameRegex (h : starts.Perm nameStarts) : (nameRegex starts).Plain := by
  refine ⟨Regex.plain_firstOf fun e he => ?_, trivial⟩
  have hstart := h.mem_iff.mp he
  simp only [nameStarts, List.mem_cons, List.not_mem_nil, or_false] at hstart
  rcases hstart with rfl | rfl | rfl | rfl | rfl
  · trivial
  · trivial
  · exact ⟨trivial, trivial, trivial⟩
  · trivial
  · exact ⟨trivial, trivial⟩

theorem language_nameRegex (h : starts.Perm nameStarts) : (nameRegex starts).language = name := by
  rw [name, nameNext_eq, ← language_starts h]
  rfl

/-! ## The ways to match it -/

/-- Behind a name nothing is left, or a caret and numerals. -/
theorem mem_ways_powerRegex : w ∈ powerRegex.ways n s ↔
    (s = [] ∧ w = ⟨[], [], []⟩)
      ∨ ∃ d ∈ numerals, s = '^' :: d ∧ w = ⟨'^' :: d, [(2, ⟨n + 1, d⟩)], []⟩ := by
  have hcaret : (Regex.one (· == '^')).language = mark '^' := one_beq '^'
  have hplain : (Regex.one (· == '^')).Plain := trivial
  have hnumerals : (Regex.oneOrMore isNumeral).Plain := ⟨trivial, trivial⟩
  rw [powerRegex, Regex.mem_ways_seq]
  constructor
  · rintro ⟨u, hu, v, hv, rfl⟩
    obtain ⟨hend, rfl⟩ := Regex.mem_ways_finish.mp hv
    rcases Regex.mem_ways_either.mp hu with hu | hu
    · obtain ⟨a, ha, b, hb, rfl⟩ := Regex.mem_ways_seq.mp hu
      obtain ⟨v, _, rfl, rfl, hmark⟩ := (Regex.mem_ways_iff hplain).mp ha
      rw [hcaret, mem_mark] at hmark
      obtain ⟨d, rest, rfl, rfl, hd⟩ := (Regex.mem_ways_group_iff hnumerals).mp hb
      cases hmark
      cases hend
      exact .inr ⟨d, hd, by rw [List.append_nil, List.singleton_append],
        by simp [Way.append, Char.utf8Size]⟩
    · rw [Regex.mem_ways_nothing] at hu
      cases hu
      exact .inl ⟨hend, rfl⟩
  · rintro (⟨rfl, rfl⟩ | ⟨d, hd, rfl, rfl⟩)
    · exact ⟨⟨[], [], []⟩, Regex.mem_ways_either.mpr (.inr List.mem_cons_self), ⟨[], [], []⟩,
        Regex.mem_ways_finish.mpr ⟨rfl, rfl⟩, rfl⟩
    · have hfront : (⟨['^'], [], d⟩ : Way) ∈ (Regex.one (· == '^')).ways n ('^' :: d) :=
        List.mem_cons_self
      have hbehind : (⟨d, [(2, ⟨n + 1, d⟩)], []⟩ : Way)
          ∈ (Regex.group 2 (.oneOrMore isNumeral)).ways (n + 1) d :=
        (Regex.mem_ways_group_iff hnumerals).mpr ⟨d, [], rfl, (List.append_nil d).symm, hd⟩
      have hpower := Regex.mem_ways_seq.mpr ⟨_, hfront, _, hbehind, rfl⟩
      refine ⟨_, Regex.mem_ways_either.mpr (.inl hpower), ⟨[], [], []⟩,
        Regex.mem_ways_finish.mpr ⟨rfl, rfl⟩, by simp [Way.append]⟩

end Grammar

namespace LabelToken

/-- The way to match a label. -/
def way (t : LabelToken) : Grammar.Way :=
  ⟨t.text, (1, ⟨0, t.label⟩) :: (t.power.map fun d => (2, ⟨byteLength t.label + 1, d⟩)).toList, []⟩

theorem piece_way (t : LabelToken) : t.way.piece 2 = Pattern.ofLabel t := by
  obtain ⟨l, power⟩ := t
  cases power <;> rfl

end LabelToken

namespace Grammar

variable {starts : List Regex} {w : Way} {n : Nat} {s x : List Char}

/-- **All ways are alike.** -/
theorem mem_ways_labelRegex (h : starts.Perm nameStarts) : w ∈ (labelRegex starts).ways 0 x ↔
    ∃ t, LabelToken.whole? x = some t ∧ w = t.way := by
  have hname := language_nameRegex h
  rw [labelRegex, Regex.mem_ways_seq]
  constructor
  · rintro ⟨u, hu, v, hv, rfl⟩
    obtain ⟨l, rest, rfl, rfl, hl⟩ := (Regex.mem_ways_group_iff (plain_nameRegex h)).mp hu
    rw [hname] at hl
    rcases mem_ways_powerRegex.mp hv with ⟨hrest, rfl⟩ | ⟨d, hd, hrest, rfl⟩
    · cases hrest
      exact ⟨⟨l, none⟩, by rw [List.append_nil, LabelToken.whole?_name hl],
        by simp [Way.append, LabelToken.way, LabelToken.text]⟩
    · cases hrest
      exact ⟨⟨l, some d⟩, LabelToken.whole?_power hl hd,
        by simp [Way.append, LabelToken.way, LabelToken.text]⟩
  · rintro ⟨⟨l, power⟩, ht, rfl⟩
    obtain ⟨hl, hpower, rfl⟩ := LabelToken.whole?_eq_some_iff.mp ht
    rw [← hname] at hl
    have hgroup : ∀ rest, (⟨l, [(1, ⟨0, l⟩)], rest⟩ : Way)
        ∈ (Regex.group 1 (nameRegex starts)).ways 0 (l ++ rest) := fun rest =>
      (Regex.mem_ways_group_iff (plain_nameRegex h)).mpr ⟨l, rest, rfl, rfl, hl⟩
    cases power with
    | none =>
        have hfront := hgroup []
        rw [List.append_nil] at hfront
        exact ⟨_, hfront, _, mem_ways_powerRegex.mpr (.inl ⟨rfl, rfl⟩),
          by simp [Way.append, LabelToken.way, LabelToken.text]⟩
    | some d =>
        exact ⟨_, hgroup ('^' :: d), _,
          mem_ways_powerRegex.mpr (.inr ⟨d, hpower d rfl, rfl, rfl⟩),
          by simp [Way.append, LabelToken.way, LabelToken.text]⟩

/-- The match is the label that the scan finds. -/
theorem read?_labelRegex (h : starts.Perm nameStarts) :
    (labelRegex starts).read? 2 x = Pattern.label.read? x := by
  rw [Regex.read?_of_ways fun w => mem_ways_labelRegex h, Pattern.read?]
  simp only [LabelToken.piece_way]

/-! ## Names, character by character -/

/-- The character `c` may start a name that goes on with `rest`. -/
def StartsName (c : Char) (rest : List Char) : Prop :=
  isLetter c = true ∨ c = '°' ∨ emojiModifierBase.contains c = true
    ∨ emojiPresentation.contains c = true
    ∨ (emoji.contains c = true ∧ rest.head? = some pictureSelector)

theorem mem_name_iff {l : List Char} : l ∈ name ↔
    ∃ c rest, l = c :: rest ∧ StartsName c rest ∧ ∀ d ∈ rest, continuesLabel d = true := by
  have hstart : ∀ c rest, startsLabel (c :: rest) = true ↔ StartsName c rest := by
    intro c rest
    simp only [startsLabel, StartsName, Bool.or_eq_true, Bool.and_eq_true, beq_iff_eq, or_assoc]
  rw [← isLabel_iff]
  cases l with
  | nil => simp [isLabel, startsLabel]
  | cons c rest =>
      rw [isLabel, Bool.and_eq_true, hstart, List.all_eq_true]
      constructor
      · rintro ⟨hc, hrest⟩
        exact ⟨c, rest, rfl, hc, hrest⟩
      · rintro ⟨_, _, hl, hc, hrest⟩
        cases hl
        exact ⟨hc, hrest⟩

end Grammar

/-- The token is a name, and an exponent of numerals if it has one. -/
structure LabelToken.Proper (t : LabelToken) : Prop where
  name : ∃ c rest, t.label = c :: rest ∧ Grammar.StartsName c rest
    ∧ ∀ d ∈ rest, continuesLabel d = true
  power : ∀ d ∈ t.power, d ≠ [] ∧ ∀ c ∈ d, isNumeral c = true

theorem LabelToken.whole?_eq_some_iff_proper {x : List Char} {t : LabelToken} :
    whole? x = some t ↔ t.Proper ∧ x = t.text := by
  simp only [whole?_eq_some_iff, Grammar.mem_name_iff, Grammar.mem_numerals]
  exact ⟨fun h => ⟨⟨h.1, h.2.1⟩, h.2.2⟩, fun h => ⟨h.1.name, h.1.power, h.2⟩⟩

namespace Grammar

/--
**A label is matched in one way.**

A text is matched if it is a name, or a name, a caret and numerals, and then the groups are the name
and the numerals. So it is in whatever order the starts of a name are tried, and whatever else is
preferred. There is no caret and no separator in the name, so a label is one word, and a word that
starts with it does not end inside it.
-/
theorem label_matched_one_way (x : List Char) :
    (∀ piece, Pattern.label.read? x = some piece ↔
      ∃ t : LabelToken, t.Proper ∧ x = t.text ∧ piece = Pattern.ofLabel t)
    ∧ (∀ starts, starts.Perm nameStarts →
        (labelRegex starts).read? 2 x = Pattern.label.read? x
        ∧ ∀ w ∈ (labelRegex starts).ways 0 x, Pattern.label.read? x = some (w.piece 2))
    ∧ ∀ t : LabelToken, t.Proper → x = t.text →
        (∀ c ∈ t.label, c ≠ '^' ∧ separator c = false)
        ∧ runs x = [x]
        ∧ ∀ rest, Pattern.run.read? (x ++ rest)
            = some ⟨x ++ rest.takeWhile (fun c => !separator c), []⟩ := by
  refine ⟨fun piece => ?_, fun starts hstarts => ⟨read?_labelRegex hstarts, fun w hw => ?_⟩,
    fun t ht hx => ?_⟩
  · simp only [Pattern.read?, Option.map_eq_some_iff, LabelToken.whole?_eq_some_iff_proper,
      and_assoc, eq_comm (a := piece)]
  · obtain ⟨t, ht, rfl⟩ := (mem_ways_labelRegex hstarts).mp hw
    rw [Pattern.read?, ht, LabelToken.piece_way, Option.map_some]
  · have hwhole := LabelToken.whole?_eq_some_iff_proper.mpr ⟨ht, hx⟩
    obtain ⟨hname, -, -⟩ := LabelToken.whole?_eq_some_iff.mp hwhole
    obtain ⟨hne, hsolid⟩ := of_mem_label (mem_label_iff.mpr ⟨t, hwhole⟩)
    rw [separator_eq]
    refine ⟨fun c hc => ?_, runs_word hne hsolid, fun rest => ?_⟩
    · obtain ⟨hblank, hcaret⟩ := (of_mem_name hname).2 c hc
      exact ⟨hcaret, hblank⟩
    · have htake : (x ++ rest).takeWhile (!isBlank ·) = x ++ rest.takeWhile (!isBlank ·) :=
        List.takeWhile_append_of_pos fun c hc => by simp [hsolid c hc]
      refine Pattern.read?_run_eq_some_iff.mpr ⟨by rw [htake], ?_⟩
      exact List.append_ne_nil_of_left_ne_nil hne _

/-- A thumb of a medium skin tone to the twelfth. There are three ways to match it, of which another
one comes first if the alternatives are tried from the last to the first. -/
theorem label_matched_one_way_thumb :
    nameStarts.reverse.Perm nameStarts
    ∧ ((labelRegex nameStarts).ways 0 "👍🏽^12".toList).length = 3
    ∧ (labelRegex nameStarts.reverse).read? 2 "👍🏽^12".toList
        = some ⟨"👍🏽^12".toList, [some ⟨0, "👍🏽".toList⟩, some ⟨9, "12".toList⟩]⟩
    ∧ LabelToken.Proper ⟨"👍🏽".toList, some "12".toList⟩
    ∧ runs "👍🏽^12".toList = ["👍🏽^12".toList] := by
  have hperm : nameStarts.reverse.Perm nameStarts := List.reverse_perm nameStarts
  have hread : Pattern.label.read? "👍🏽^12".toList
      = some ⟨"👍🏽^12".toList, [some ⟨0, "👍🏽".toList⟩, some ⟨9, "12".toList⟩]⟩ := by
    decide +kernel
  have hproper : LabelToken.Proper ⟨"👍🏽".toList, some "12".toList⟩ :=
    (LabelToken.whole?_eq_some_iff_proper (x := "👍🏽^12".toList)).mp (by decide +kernel) |>.1
  obtain ⟨-, horder, hword⟩ := label_matched_one_way "👍🏽^12".toList
  exact ⟨hperm, by decide +kernel, (horder _ hperm).1.trans hread, hproper,
    (hword _ hproper (by decide +kernel)).2.1⟩

end Grammar

end FactorLabel
