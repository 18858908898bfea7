import FactorLabel.Proofs.Grammar.Language
import FactorLabel.Token.Pattern
import Mathlib.Algebra.BigOperators.Group.List.Basic

/-!
# Expressions that are matched by trying

A regular expression does not only have a language. It is matched by trying one thing after another,
and what its groups are may depend on which of them is tried first. Here an expression gives all the
ways in which it can be matched at the front of a text, in the order in which they are tried. The
first of them is the match.

Without groups the order does not matter: there is a way for every word of the language that stands
in front, and no other.
-/

namespace FactorLabel.Grammar

open Text Computability

/-- A regular expression with numbered groups, to be matched at the front of a text. -/
inductive Regex where
  /-- One character of a class. -/
  | one (p : Char → Bool)
  /-- Any number of characters of a class, as many as possible by preference. -/
  | many (p : Char → Bool)
  /-- The first, and behind it the second. -/
  | seq (e f : Regex)
  /-- The first by preference, or else the second. -/
  | either (e f : Regex)
  | nothing
  /-- The end of the text. -/
  | finish
  | group (i : Nat) (e : Regex)

/-- A way to match: what is taken, the groups that take part, and what is left. -/
structure Way where
  taken : List Char
  groups : List (Nat × Part)
  rest : List Char
  deriving DecidableEq

namespace Way

/-- One way, and behind it the other. -/
def append (w v : Way) : Way := ⟨w.taken ++ v.taken, w.groups ++ v.groups, v.rest⟩

/-- The piece that is taken, with the groups from one to `n`. -/
def piece (n : Nat) (w : Way) : Piece :=
  ⟨w.taken, (List.range n).map fun i => w.groups.lookup (i + 1)⟩

end Way

namespace Regex

/-- The first of the expressions that can be matched. -/
def firstOf (es : List Regex) : Regex := es.foldr either (one fun _ => false)

/-- The expression, or nothing. -/
def optional (e : Regex) : Regex := either e nothing

/-- One or more characters of a class. -/
def oneOrMore (p : Char → Bool) : Regex := seq (one p) (many p)

/-- The ways to take characters of a class, the longest first. -/
def manyWays (p : Char → Bool) : List Char → List Way
  | [] => [⟨[], [], []⟩]
  | c :: s =>
      if p c then (manyWays p s).map (Way.append ⟨[c], [], s⟩) ++ [⟨[], [], c :: s⟩]
      else [⟨[], [], c :: s⟩]

/-- The ways to match the expression at the front of `s`, which stands `n` bytes behind the start.
They are in the order in which they are tried. -/
def ways : Regex → Nat → List Char → List Way
  | one _, _, [] => []
  | one p, _, c :: s => if p c then [⟨[c], [], s⟩] else []
  | many p, _, s => manyWays p s
  | seq e f, n, s =>
      (e.ways n s).flatMap fun w => (f.ways (n + byteLength w.taken) w.rest).map w.append
  | either e f, n, s => e.ways n s ++ f.ways n s
  | nothing, _, s => [⟨[], [], s⟩]
  | finish, _, s => if s.isEmpty then [⟨[], [], []⟩] else []
  | group i e, n, s => (e.ways n s).map fun w => { w with groups := (i, ⟨n, w.taken⟩) :: w.groups }

/-- The match with its first `n` groups, if there is one. -/
def read? (e : Regex) (n : Nat) (s : List Char) : Option Piece := (e.ways 0 s).head?.map (·.piece n)

variable {e f : Regex} {n : Nat} {s : List Char} {w : Way} {p : Char → Bool}

theorem mem_ways_seq : w ∈ (seq e f).ways n s ↔
    ∃ u ∈ e.ways n s, ∃ v ∈ f.ways (n + byteLength u.taken) u.rest, u.append v = w := by
  simp only [ways, List.mem_flatMap, List.mem_map]

theorem mem_ways_either : w ∈ (either e f).ways n s ↔ w ∈ e.ways n s ∨ w ∈ f.ways n s :=
  List.mem_append

theorem mem_ways_nothing : w ∈ nothing.ways n s ↔ w = ⟨[], [], s⟩ := List.mem_singleton

theorem mem_ways_finish : w ∈ finish.ways n s ↔ s = [] ∧ w = ⟨[], [], []⟩ := by
  cases s <;> simp [ways]

theorem mem_ways_group {i : Nat} : w ∈ (group i e).ways n s ↔
    ∃ u ∈ e.ways n s, ⟨u.taken, (i, ⟨n, u.taken⟩) :: u.groups, u.rest⟩ = w := List.mem_map

/-- Where all ways are alike, it does not matter which of them comes first. -/
theorem read?_of_ways {α : Type} {o : Option α} {way : α → Way}
    (h : ∀ w, w ∈ e.ways 0 s ↔ ∃ a, o = some a ∧ w = way a) :
    e.read? n s = o.map fun a => (way a).piece n := by
  rw [read?]
  cases o with
  | none =>
      have hnil : e.ways 0 s = [] := List.eq_nil_iff_forall_not_mem.mpr fun w hw => by
        obtain ⟨a, hsome, -⟩ := (h w).mp hw
        exact nomatch hsome
      rw [hnil]
      rfl
  | some a =>
      obtain ⟨w, ws, hlist⟩ := List.exists_cons_of_ne_nil
        (List.ne_nil_of_mem ((h (way a)).mpr ⟨a, rfl, rfl⟩))
      obtain ⟨b, hsome, rfl⟩ := (h w).mp (hlist ▸ List.mem_cons_self)
      cases hsome
      rw [hlist, List.head?_cons, Option.map_some, Option.map_some]

/-! ## Which way comes first -/

/-- Where only one way of the first goes on, the second decides which way is taken. -/
theorem head?_ways_seq {u : Way} (hu : u ∈ e.ways n s)
    (hunique : ∀ u' ∈ e.ways n s,
      f.ways (n + byteLength u'.taken) u'.rest ≠ [] → u' = u) :
    ((seq e f).ways n s).head?
      = (f.ways (n + byteLength u.taken) u.rest).head?.map u.append := by
  rw [ways, List.head?_flatMap]
  simp only [List.head?_map]
  cases hfirst : (e.ways n s).findSome? fun u' =>
      (f.ways (n + byteLength u'.taken) u'.rest).head?.map u'.append with
  | none => exact (List.findSome?_eq_none_iff.mp hfirst u hu).symm
  | some w =>
      obtain ⟨u', hu', hw⟩ := List.exists_of_findSome?_eq_some hfirst
      have hgoes : f.ways (n + byteLength u'.taken) u'.rest ≠ [] := by
        intro hnil
        rw [hnil] at hw
        exact nomatch hw
      rw [← hunique u' hu' hgoes]
      exact hw.symm

/-- As many characters as possible are tried first. -/
theorem head?_manyWays :
    (manyWays p s).head? = some ⟨s.takeWhile p, [], s.dropWhile p⟩ := by
  induction s with
  | nil => rfl
  | cons c s ih =>
      rw [manyWays]
      by_cases hc : p c = true
      · rw [if_pos hc, List.head?_append, List.head?_map, ih, List.takeWhile_cons_of_pos hc,
          List.dropWhile_cons_of_pos hc]
        rfl
      · rw [if_neg hc, List.takeWhile_cons_of_neg hc, List.dropWhile_cons_of_neg hc]
        rfl

theorem head?_ways_oneOrMore {c : Char} (hc : p c = true) :
    ((oneOrMore p).ways n (c :: s)).head?
      = some ⟨(c :: s).takeWhile p, [], (c :: s).dropWhile p⟩ := by
  have hone : (one p).ways n (c :: s) = [⟨[c], [], s⟩] := if_pos hc
  rw [oneOrMore, head?_ways_seq (u := ⟨[c], [], s⟩)]
  · rw [ways, head?_manyWays, List.takeWhile_cons_of_pos hc, List.dropWhile_cons_of_pos hc]
    rfl
  · rw [hone]
    exact List.mem_cons_self
  · intro u' hu' _
    rw [hone] at hu'
    exact List.mem_singleton.mp hu'

/-! ## Expressions without groups -/

/-- The words of an expression. -/
def language : Regex → Language Char
  | one p => Grammar.one p
  | many p => (Grammar.one p)∗
  | seq e f => e.language * f.language
  | either e f => e.language + f.language
  | nothing => 1
  | finish => 1
  | group _ e => e.language

/-- There are no groups in the expression, and it does not ask for the end of the text. -/
def Plain : Regex → Prop
  | one _ => True
  | many _ => True
  | seq e f => e.Plain ∧ f.Plain
  | either e f => e.Plain ∧ f.Plain
  | nothing => True
  | finish => False
  | group _ _ => False

theorem mem_manyWays : w ∈ manyWays p s ↔
    ∃ v rest, w = ⟨v, [], rest⟩ ∧ s = v ++ rest ∧ ∀ c ∈ v, p c = true := by
  -- every expression of this kind may take nothing
  have hnil : ∀ s : List Char, ∃ v rest, (⟨[], [], s⟩ : Way) = ⟨v, [], rest⟩ ∧ s = v ++ rest
      ∧ ∀ c ∈ v, p c = true := fun s =>
    ⟨[], s, rfl, rfl, fun c hc => absurd hc List.not_mem_nil⟩
  induction s generalizing w with
  | nil =>
      rw [manyWays, List.mem_singleton]
      constructor
      · rintro rfl
        exact hnil []
      · rintro ⟨v, rest, rfl, hs, -⟩
        obtain ⟨rfl, rfl⟩ := List.append_eq_nil_iff.mp hs.symm
        rfl
  | cons c s ih =>
      rw [manyWays]
      constructor
      · intro h
        split at h
        · rename_i hc
          rcases List.mem_append.mp h with h | h
          · obtain ⟨u, hu, rfl⟩ := List.mem_map.mp h
            obtain ⟨v, rest, rfl, rfl, hv⟩ := ih.mp hu
            exact ⟨c :: v, rest, rfl, rfl, List.forall_mem_cons.mpr ⟨hc, hv⟩⟩
          · rw [List.mem_singleton.mp h]
            exact hnil (c :: s)
        · rw [List.mem_singleton.mp h]
          exact hnil (c :: s)
      · rintro ⟨v, rest, rfl, hs, hv⟩
        cases v with
        | nil =>
            rw [hs, List.nil_append]
            split
            · exact List.mem_append_right _ List.mem_cons_self
            · exact List.mem_cons_self
        | cons d v =>
            cases hs
            obtain ⟨hd, hv⟩ := List.forall_mem_cons.mp hv
            rw [if_pos hd]
            exact List.mem_append_left _
              (List.mem_map.mpr ⟨⟨v, [], rest⟩, ih.mpr ⟨v, rest, rfl, rfl, hv⟩, rfl⟩)

/-- **Without groups there is a way for each word in front,** and no other way. -/
theorem mem_ways_iff (h : e.Plain) : w ∈ e.ways n s ↔
    ∃ v rest, w = ⟨v, [], rest⟩ ∧ s = v ++ rest ∧ v ∈ e.language := by
  induction e generalizing n s w with
  | one p =>
      constructor
      · intro hw
        cases s with
        | nil => exact absurd hw List.not_mem_nil
        | cons c s =>
            rw [ways] at hw
            split at hw
            · rename_i hc
              exact ⟨[c], s, List.mem_singleton.mp hw, rfl, c, hc, rfl⟩
            · exact absurd hw List.not_mem_nil
      · rintro ⟨_, rest, rfl, rfl, c, hc, rfl⟩
        rw [List.singleton_append, ways, if_pos hc]
        exact List.mem_cons_self
  | many p =>
      simp only [language, mem_kstar_one]
      exact mem_manyWays
  | seq e f ihe ihf =>
      rw [mem_ways_seq]
      constructor
      · rintro ⟨u, hu, v, hv, rfl⟩
        obtain ⟨a, _, rfl, rfl, ha⟩ := (ihe h.1).mp hu
        obtain ⟨b, rest, rfl, rfl, hb⟩ := (ihf h.2).mp hv
        exact ⟨a ++ b, rest, rfl, (List.append_assoc a b rest).symm, a, ha, b, hb, rfl⟩
      · rintro ⟨_, rest, rfl, rfl, a, ha, b, hb, rfl⟩
        exact ⟨⟨a, [], b ++ rest⟩,
          (ihe h.1).mpr ⟨a, b ++ rest, rfl, List.append_assoc a b rest, ha⟩,
          ⟨b, [], rest⟩, (ihf h.2).mpr ⟨b, rest, rfl, rfl, hb⟩, rfl⟩
  | either e f ihe ihf =>
      rw [mem_ways_either, ihe h.1, ihf h.2]
      simp only [language, Language.mem_add, and_or_left, exists_or]
  | nothing =>
      rw [mem_ways_nothing]
      constructor
      · rintro rfl
        exact ⟨[], s, rfl, rfl, rfl⟩
      · rintro ⟨_, rest, rfl, rfl, rfl⟩
        rfl
  | finish => exact h.elim
  | group i e => exact h.elim

theorem mem_ways_group_iff (h : e.Plain) {i : Nat} : w ∈ (group i e).ways n s ↔
    ∃ v rest, w = ⟨v, [(i, ⟨n, v⟩)], rest⟩ ∧ s = v ++ rest ∧ v ∈ e.language := by
  rw [mem_ways_group]
  constructor
  · rintro ⟨u, hu, rfl⟩
    obtain ⟨v, rest, rfl, hs, hv⟩ := (mem_ways_iff h).mp hu
    exact ⟨v, rest, rfl, hs, hv⟩
  · rintro ⟨v, rest, rfl, hs, hv⟩
    exact ⟨⟨v, [], rest⟩, (mem_ways_iff h).mpr ⟨v, rest, rfl, hs, hv⟩, rfl⟩

/-! ## Alternatives -/

theorem language_firstOf (es : List Regex) : (firstOf es).language = (es.map language).sum := by
  induction es with
  | nil =>
      refine Language.ext fun v => ⟨?_, fun hv => absurd hv (Language.notMem_zero v)⟩
      rintro ⟨c, hc, -⟩
      exact absurd hc Bool.false_ne_true
  | cons e es ih =>
      rw [List.map_cons, List.sum_cons, ← ih]
      rfl

/-- The order of the alternatives is no matter of the language. -/
theorem language_firstOf_perm {es fs : List Regex} (h : es.Perm fs) :
    (firstOf es).language = (firstOf fs).language := by
  rw [language_firstOf, language_firstOf]
  exact (h.map language).sum_eq

theorem plain_firstOf {es : List Regex} (h : ∀ e ∈ es, e.Plain) : (firstOf es).Plain := by
  induction es with
  | nil => trivial
  | cons e es ih =>
      exact ⟨h e List.mem_cons_self, ih fun f hf => h f (List.mem_cons_of_mem e hf)⟩

end Regex

end FactorLabel.Grammar
