import FactorLabel.Proofs.Field.Faults
import FactorLabel.Proofs.Grammar.Joined
import FactorLabel.Proofs.Labels.Regroup

/-!
# A field that goes on

Whoever types on behind a separator adds labels. The factor is what it was, since a factor is ended
by a separator as it is by the end of the text, and what is no factor does not become one. The words
that were there stay where they are, so the new labels are multiplied onto the old ones, and the new
faults are reported behind the old ones.
-/

namespace FactorLabel

open Text

variable {t u gap rest : List Char} {f : FactorToken}

/-- The same token, `n` bytes further on. -/
def LabelFault.shift (f : LabelFault) (n : Nat) : LabelFault := ⟨f.token, f.span.shift n⟩

namespace Field

/-! ## The factor and the words -/

theorem readFactor_of_leads (h : f.Leads t rest) : readFactor t
    = (f.value, ⟨rest.dropWhile isBlank, byteLength (f.text ++ rest.takeWhile isBlank)⟩) := by
  rw [readFactor, h.segment?]

theorem readFactor_of_not_leads (h : ¬ ∃ f rest, FactorToken.Leads f t rest) :
    readFactor t = (1, .start t) := by
  cases hsegment : FactorToken.segment? t with
  | none => rw [readFactor, hsegment]
  | some segment => exact absurd ⟨_, _, FactorToken.leads_of_segment? hsegment⟩ h

/-- The words behind the factor, each at its place in the field. -/
def words (t : List Char) : List Lexeme := ((readFactor t).2.readAll .run).1

theorem words_of_leads (h : f.Leads t rest) :
    words t = ((⟨rest, byteLength f.text⟩ : Cursor).readAll .run).1 := by
  have hwalk := (readFactor t).2.walk_readAll.1
  rw [readFactor_of_leads h, byteLength_append] at hwalk
  have hskip := hwalk.skip fun c hc => List.mem_takeWhile_imp hc
  rw [List.takeWhile_append_dropWhile] at hskip
  rw [Cursor.readAll_eq_of_walk hskip, words, readFactor_of_leads h, byteLength_append]

/-- **A field that goes on behind a separator.** It has the factor and the words that it had, and
those that come in. -/
theorem readFactor_append (hne : gap ≠ []) (hgap : ∀ c ∈ gap, isBlank c = true)
    (t u : List Char) : (readFactor (t ++ gap ++ u)).1 = (readFactor t).1
    ∧ words (t ++ gap ++ u) = words t
      ++ ((Cursor.start u).readAll .run).1.map (·.shift (byteLength (t ++ gap))) := by
  by_cases h : ∃ f rest, FactorToken.Leads f t rest
  · obtain ⟨f, rest, h⟩ := h
    have happend := h.append hne hgap u
    constructor
    · rw [readFactor_of_leads happend, readFactor_of_leads h]
    · have hplace : byteLength (t ++ gap) = byteLength f.text + byteLength (rest ++ gap) := by
        rw [h.text, List.append_assoc, byteLength_append]
      rw [words_of_leads happend, words_of_leads h, Cursor.readAll_append hne hgap, hplace]
  · have happend : ¬ ∃ f rest, FactorToken.Leads f (t ++ gap ++ u) rest :=
      fun ⟨f, rest, hleads⟩ => h ⟨f, hleads.of_append hne hgap⟩
    constructor
    · rw [readFactor_of_not_leads happend, readFactor_of_not_leads h]
    · rw [words, readFactor_of_not_leads happend, words, readFactor_of_not_leads h]
      simp only [Cursor.start, Cursor.readAll_append hne hgap, Nat.zero_add]

/-- The labels come from the words alone. -/
theorem powers_eq (t : List Char) : Grammar.powers (readFactor t).2.remaining
    = ((words t).map Lexeme.text).filterMap Grammar.reading := by
  rw [words, Cursor.readAll_run]
  rfl

theorem powers_append (hne : gap ≠ []) (hgap : ∀ c ∈ gap, isBlank c = true) (t u : List Char) :
    Grammar.powers (readFactor (t ++ gap ++ u)).2.remaining
      = Grammar.powers (readFactor t).2.remaining ++ Grammar.powers u := by
  have htexts : ∀ (ws : List Lexeme) (n : Nat),
      (ws.map (·.shift n)).map Lexeme.text = ws.map Lexeme.text :=
    fun ws n => List.map_map
  rw [powers_eq, (readFactor_append hne hgap t u).2, List.map_append, htexts, List.filterMap_append,
    ← powers_eq, Cursor.readAll_run]
  rfl

theorem faults_append (hne : gap ≠ []) (hgap : ∀ c ∈ gap, isBlank c = true) (t u : List Char) :
    faults (readFactor (t ++ gap ++ u)).2 = faults (readFactor t).2
      ++ (faults (.start u)).map (·.shift (byteLength (t ++ gap))) := by
  have hwords := (readFactor_append hne hgap t u).2
  rw [words, words] at hwords
  rw [faults, hwords, List.filter_append, List.map_append, List.filter_map, List.map_map, faults,
    faults, List.map_map]
  rfl

/-! ## Typing on -/

theorem isBlank_of_mem_space : ∀ c ∈ [' '], isBlank c = true :=
  List.forall_mem_singleton.mpr (by decide)

/-- Behind a one there are no words, so behind a one and a space there is what is typed there. -/
theorem words_one : words ['1'] = [] := by
  have hread : (readFactor ['1']).2 = ⟨[], 1⟩ := by decide +kernel
  rw [words, hread, Cursor.readAll_eq_of_walk (.done (List.forall_mem_nil _))]

theorem words_one_append (u : List Char) : words (['1'] ++ [' '] ++ u)
    = ((Cursor.start u).readAll .run).1.map (·.shift 2) := by
  rw [(readFactor_append (List.cons_ne_nil _ _) isBlank_of_mem_space _ u).2, words_one]
  rfl

theorem faults_one_append (u : List Char) : faults (readFactor (['1'] ++ [' '] ++ u)).2
    = (faults (.start u)).map (·.shift 2) := by
  rw [faults_append (List.cons_ne_nil _ _) isBlank_of_mem_space, faults, ← words, words_one]
  rfl

theorem powers_one_append (u : List Char) :
    Grammar.powers (readFactor (['1'] ++ [' '] ++ u)).2.remaining = Grammar.powers u := by
  rw [powers_append (List.cons_ne_nil _ _) isBlank_of_mem_space, powers_eq, words_one]
  rfl

/-- What comes of the field `t` if `u` is typed behind the separators `s`. -/
structure Continues (t s u : String) : Prop where
  /-- The factor stays, and the labels are multiplied by the new ones. -/
  quantity : ∃ q r, quantity? t = some q ∧ quantity? ("1 " ++ u) = some r
    ∧ ∀ found, (read (t ++ s ++ u) found).1 = some ⟨q.factor, q.labels * r.labels⟩
  /-- The new faults come behind the old ones, at the places where the new text stands. -/
  faults : ∃ later : List LabelFault,
    (∀ found, (read ("1 " ++ u) found).2.toList = found.toList ++ later.map (·.shift 2))
    ∧ ∀ found, (read (t ++ s ++ u) found).2.toList
      = (read t found).2.toList ++ later.map (·.shift (t ++ s).utf8ByteSize)
  /-- So do the new words, and the old ones stay where they are. -/
  words : ∃ later : List Lexeme, words ("1 " ++ u).toList = later.map (·.shift 2)
    ∧ words (t ++ s ++ u).toList
      = words t.toList ++ later.map (·.shift (t ++ s).utf8ByteSize)
  /-- Other separators would do as well. -/
  spacing : ∀ s' : String, s' ≠ "" → (∀ c ∈ s'.toList, Grammar.separator c = true) →
    quantity? (t ++ s' ++ u) = quantity? (t ++ s ++ u)

theorem quantity?_append {t s : String} (ht : t ≠ "") (hs : s ≠ "")
    (hsep : ∀ c ∈ s.toList, Grammar.separator c = true) (u : String) :
    quantity? (t ++ s ++ u) = some ⟨(readFactor t.toList).1,
      Labels.ofList (Grammar.powers (readFactor t.toList).2.remaining)
        * Labels.ofList (Grammar.powers u.toList)⟩ := by
  have hne : t ++ s ++ u ≠ "" := by simp [ht]
  have hgap : s.toList ≠ [] := by simpa using hs
  rw [Grammar.separator_eq] at hsep
  rw [quantity?_of_ne hne, String.toList_append, String.toList_append,
    (readFactor_append hgap hsep _ _).1, powers_append hgap hsep,
    Labels.ofList_append (Grammar.powers_pos _) (Grammar.powers_pos _)]

/--
**Whoever types on adds labels.**

Behind a field and a separator, whatever is typed leaves the factor and the words of the field as
they are. Its labels are multiplied onto those of the field, in their order, and its faults are
reported behind those of the field. Both are what they are behind any other factor, only further on.
Which separators stand in between and how many makes no difference.
-/
theorem continues {t s : String} (ht : t ≠ "") (hs : s ≠ "")
    (hsep : ∀ c ∈ s.toList, Grammar.separator c = true) (u : String) : Continues t s u := by
  have hgap : s.toList ≠ [] := by simpa using hs
  have hblank : ∀ c ∈ s.toList, isBlank c = true := by rwa [Grammar.separator_eq] at hsep
  have hsize : byteLength (t.toList ++ s.toList) = (t ++ s).utf8ByteSize := by
    rw [byteLength_eq, ← String.toList_append, String.ofList_toList]
  have htext : (t ++ s ++ u).toList = t.toList ++ s.toList ++ u.toList := by
    rw [String.toList_append, String.toList_append]
  have hone : ("1 " ++ u).toList = ['1'] ++ [' '] ++ u.toList := String.toList_append
  refine ⟨?_, ⟨faults (.start u.toList), fun found => ?_, fun found => ?_⟩,
    ⟨((Cursor.start u.toList).readAll .run).1, ?_, ?_⟩, fun s' hs' hsep' => ?_⟩
  · have hne : "1 " ++ u ≠ "" := by simp
    refine ⟨_, _, quantity?_of_ne ht, quantity?_of_ne hne, fun found => ?_⟩
    rw [(read_appends _ found).1, quantity?_append ht hs hsep, hone, powers_one_append]
  · rw [(read_appends _ found).2, hone, faults_one_append]
  · rw [(read_appends _ found).2, (read_appends _ found).2, htext, faults_append hgap hblank, hsize,
      List.append_assoc]
  · rw [hone, words_one_append]
  · rw [htext, (readFactor_append hgap hblank _ _).2, hsize]
  · rw [quantity?_append ht hs' hsep', quantity?_append ht hs hsep]

/-- Metres and square metres are added up. Two words are no labels, one in front of the separators
and one behind them. -/
theorem continues_metres : Continues "12 m $$" "\u00a0 " " m^2 é% s"
    ∧ ((quantity? "12 m $$\u00a0  m^2 é% s").map fun q => q.labels.entries)
        = some [⟨"m", 3⟩, ⟨"s", 1⟩]
    ∧ (read "12 m $$\u00a0  m^2 é% s" .empty).2.toList = [⟨"$$", ⟨5, 7⟩⟩, ⟨"é%", ⟨15, 18⟩⟩] :=
  ⟨continues (by decide) (by decide) (List.all_eq_true.mp (by decide +kernel)) " m^2 é% s",
    by decide +kernel, by decide +kernel⟩

end Field

end FactorLabel
