import FactorLabel.Proofs.Field.Meaning
import FactorLabel.Proofs.Grammar.Places

/-!
# What is reported about a field

A word of the label text is either counted or reported. The report names the bytes of the whole
field, also of what stands in front of the labels, and these bytes are the word and no more. What
was reported before stays in front and has no influence on what is read.
-/

namespace FactorLabel

open Text

namespace LabelFault

/-- The fault of the word `w` of a field, behind `before`. -/
def after (before w : List Char) : LabelFault := ofWord ⟨w, .of (byteLength before) w⟩

/-- The span is not empty, it cuts the text between characters, and the bytes in it are the token.
Next to it stands a separator, or nothing. -/
def Placed (t : String) (f : LabelFault) : Prop :=
  ∃ before after : String, t = before ++ f.token ++ after
    ∧ f.span.start = before.utf8ByteSize
    ∧ f.span.stop = (before ++ f.token).utf8ByteSize
    ∧ f.span.start < f.span.stop
    ∧ (∀ c ∈ before.toList.getLast?, Grammar.separator c = true)
    ∧ (∀ c ∈ after.toList.head?, Grammar.separator c = true)

theorem placed_after {t : String} {before w rest : List Char}
    (h : Grammar.Run t.toList before w rest) : Placed t (after before w) := by
  refine ⟨String.ofList before, String.ofList rest, ?_, byteLength_eq before, ?_, ?_, ?_, ?_⟩
  · rw [← String.toList_inj, h.text]
    simp [after, ofWord]
  · rw [String.utf8ByteSize_append, ← byteLength_eq]
    exact congrArg (byteLength before + ·) (byteLength_eq w)
  · exact Nat.lt_add_of_pos_right (byteLength_pos h.nonempty)
  · rw [String.toList_ofList]
    exact h.front
  · rw [String.toList_ofList]
    exact h.back

end LabelFault

namespace Field

/-- The faults are the words that are no labels, each at its place. -/
theorem mem_faults {front s : List Char} {f : LabelFault} :
    f ∈ faults ⟨s, byteLength front⟩ ↔ ∃ before w rest, Grammar.Run s before w rest
      ∧ w ∉ Grammar.label ∧ f = .after (front ++ before) w := by
  have hwalk := (Cursor.walk_readAll ⟨s, byteLength front⟩).1
  simp only [faults, List.mem_map, List.mem_filter, Option.isNone_iff_eq_none]
  constructor
  · rintro ⟨x, ⟨hx, hlabel⟩, rfl⟩
    obtain ⟨before, rest, hrun, hspan⟩ := (hwalk.mem_iff x).mp hx
    refine ⟨before, x.text, rest, hrun, ?_, ?_⟩
    · rw [Grammar.mem_label_iff, hlabel]
      simp
    · rw [LabelFault.after, byteLength_append, ← hspan]
  · rintro ⟨before, w, rest, hrun, hlabel, rfl⟩
    refine ⟨⟨w, .of (byteLength (front ++ before)) w⟩, ⟨?_, ?_⟩, rfl⟩
    · refine (hwalk.mem_iff _).mpr ⟨before, rest, hrun, ?_⟩
      rw [byteLength_append]
    · rw [Grammar.mem_label_iff] at hlabel
      exact Option.eq_none_iff_forall_ne_some.mpr fun t ht => hlabel ⟨t, ht⟩

theorem faults_ordered (c : Cursor) :
    (faults c).Pairwise fun f g => f.span.stop < g.span.start := by
  have hwalk := c.walk_readAll.1.ordered
  exact List.pairwise_map.mpr (hwalk.filter _)

/-! ## The front of the field -/

/-- What is read before the labels: nothing, or a factor and the separators behind it. -/
theorem readFactor_front (t : List Char) : ∃ front, t = front ++ (readFactor t).2.remaining
    ∧ (readFactor t).2.position = byteLength front
    ∧ ((readFactor t).2.remaining ≠ [] → ∀ c ∈ front.getLast?, Grammar.separator c = true) := by
  cases hsegment : FactorToken.segment? t with
  | none =>
      have hread : readFactor t = (1, Cursor.start t) := by rw [readFactor, hsegment]
      rw [hread]
      exact ⟨[], rfl, rfl, fun _ c hc => absurd hc (by simp)⟩
  | some segment =>
      obtain ⟨token, gap, rest⟩ := segment
      have hread : readFactor t = (token.value, ⟨rest, byteLength (token.text ++ gap)⟩) := by
        rw [readFactor, hsegment]
      obtain ⟨-, htext, hgap, -, hends⟩ := FactorToken.segment?_eq_some_iff.mp hsegment
      rw [hread]
      refine ⟨token.text ++ gap, htext, rfl, fun hrest c hc => ?_⟩
      rw [List.getLast?_append_of_ne_nil _ (hends.resolve_right hrest)] at hc
      rw [Grammar.separator_eq]
      exact hgap c (List.mem_of_getLast? hc)

/-- What is reported about the field `t`: the label text `s` stands in it behind `front`. -/
structure Reports (t : String) (front s : List Char) (faults : List LabelFault) : Prop where
  divides : ∃ x, Grammar.Divides t.toList x s
  text : t.toList = front ++ s
  /-- What was found before stays as it is and does not change what is read. -/
  appended : ∀ found, (read t found).1 = quantity? t
    ∧ (read t found).2.toList = found.toList ++ faults
  /-- The faults are those of the words that are no labels. -/
  exact : ∀ f, f ∈ faults ↔ ∃ before w after, Grammar.Run s before w after
    ∧ w ∉ Grammar.label ∧ f = .after (front ++ before) w
  placed : ∀ f ∈ faults, f.Placed t
  ordered : faults.Pairwise fun f g => f.span.stop < g.span.start
  /-- Every word is counted or reported, and none is both. -/
  shared : ∀ q ∈ quantity? t, Grammar.Collects s q.labels
    ∧ ∀ before w after, Grammar.Run s before w after →
      Xor (∃ p, Grammar.Reads w (some p) ∧ p.label ∈ q.labels.labels)
        (LabelFault.after (front ++ before) w ∈ faults)
  /-- The walk over the words does not stop before the end of the label text. -/
  consumed : (readFactor t.toList).2.remaining = s
    ∧ ((readFactor t.toList).2.readAll .run).2.remaining = []

/-- The faults come behind what was found before, which does not change what is read. -/
theorem read_appends (t : String) (found : Findings LabelFault) :
    (read t found).1 = quantity? t
    ∧ (read t found).2.toList = found.toList ++ faults (readFactor t.toList).2 := by
  by_cases ht : t = ""
  · subst ht
    have hnone : faults (.start []) = [] := by
      rw [faults, Cursor.readAll]
      rfl
    show _ ∧ found.toList = found.toList ++ faults (.start [])
    rw [hnone, List.append_nil]
    exact ⟨rfl, rfl⟩
  · rw [quantity?_of_ne ht, read_of_ne ht]
    exact ⟨rfl, toList_readLabels _ found⟩

/-- A word of the label text is reported if it is no label. -/
theorem mem_faults_iff_of_run {front s before w rest : List Char}
    (h : Grammar.Run s before w rest) :
    LabelFault.after (front ++ before) w ∈ faults ⟨s, byteLength front⟩ ↔ w ∉ Grammar.label := by
  rw [mem_faults]
  constructor
  · rintro ⟨before', w', rest', -, hlabel, hfault⟩
    have hw : w = w' := String.ofList_inj.mp (congrArg LabelFault.token hfault)
    rwa [hw]
  · exact fun hlabel => ⟨before, w, rest, h, hlabel, rfl⟩

/-- A word of the label text is counted if it is a label. -/
theorem counted_iff_of_run {s before w rest : List Char} (h : Grammar.Run s before w rest) :
    (∃ p, Grammar.Reads w (some p) ∧ p.label ∈ (Labels.ofList (Grammar.powers s)).labels)
      ↔ w ∈ Grammar.label := by
  rw [Grammar.mem_label_iff_reads]
  constructor
  · rintro ⟨p, hp, -⟩
    exact ⟨p, hp⟩
  · rintro ⟨p, hp⟩
    refine ⟨p, hp, ?_⟩
    rw [Labels.labels_ofList (Grammar.powers_pos s), List.mem_eraseDups]
    exact List.mem_map_of_mem
      (List.mem_filterMap.mpr ⟨w, h.mem_runs, (Grammar.reads_iff.mp hp).symm⟩)

/--
**What is reported is exact.**

The words of the label text that are no labels are reported, in their order and behind what was
found before, and nothing else is. Each is named together with the bytes of the field that it is
in. The other words are counted.
-/
theorem exists_reports (t : String) : ∃ front s faults, Reports t front s faults := by
  obtain ⟨front, htext, hposition, hfront⟩ := readFactor_front t.toList
  obtain ⟨s, hs⟩ : ∃ s, s = (readFactor t.toList).2.remaining := ⟨_, rfl⟩
  have hcursor : (readFactor t.toList).2 = ⟨s, byteLength front⟩ := by rw [hs, ← hposition]
  rw [← hs] at htext hfront
  -- a word of the label text is a word of the field
  have hrun : ∀ before w rest, Grammar.Run s before w rest →
      Grammar.Run t.toList (front ++ before) w rest := by
    intro before w rest h
    rw [htext]
    refine h.append_left fun _ => hfront ?_
    rintro rfl
    exact Grammar.Run.not_of_blank (fun c hc => absurd hc List.not_mem_nil) h
  refine ⟨front, s, faults ⟨s, byteLength front⟩, {
    divides := ⟨_, divides_iff.mpr ⟨rfl, hs.symm⟩⟩
    text := htext
    appended := hcursor ▸ read_appends t
    exact := fun f => mem_faults
    placed := ?_
    ordered := faults_ordered _
    shared := ?_
    consumed := ⟨hs.symm, (Cursor.walk_readAll _).2⟩ }⟩
  · intro f hf
    obtain ⟨before, w, rest, h, -, rfl⟩ := mem_faults.mp hf
    exact LabelFault.placed_after (hrun before w rest h)
  · intro q hq
    have ht : t ≠ "" := by
      rintro rfl
      exact nomatch hq
    have hlabels : q.labels = Labels.ofList (Grammar.powers s) := by
      rw [quantity?_of_ne ht, ← hs] at hq
      cases hq
      rfl
    refine ⟨Grammar.collects_iff.mpr hlabels, fun before w rest h => ?_⟩
    rw [hlabels, counted_iff_of_run h, mem_faults_iff_of_run h, xor_not_right]

/-- Two dollar signs are no label. They are in the bytes from five to seven of the whole field. -/
theorem reports_dollars : ∃ front s, Reports "12 m $$ s" front s [⟨"$$", ⟨5, 7⟩⟩] := by
  obtain ⟨front, s, faults, h⟩ := exists_reports "12 m $$ s"
  have hfaults : faults = [⟨"$$", ⟨5, 7⟩⟩] := by
    have hread : (read "12 m $$ s" .empty).2.toList = [⟨"$$", ⟨5, 7⟩⟩] := by decide +kernel
    rw [← hread, (h.appended .empty).2, Findings.toList_empty, List.nil_append]
  exact ⟨front, s, hfaults ▸ h⟩

end Field

end FactorLabel
