import FactorLabel.Json.Printer
import FactorLabel.Json.Reader
import FactorLabel.Proofs.Json.Number
import FactorLabel.Proofs.Json.Quoted

/-!
# Written values read back

A value that is written can be read again, and is the same. A value ends where its text ends: a
string, an array and an object have a mark at their end, and a number is followed by a comma, a
bracket or nothing. That is all that has to be known of what comes behind a value.
-/

namespace FactorLabel.Json

open Text

/-- A value of which nothing is lost in writing: what stands behind a point are digits, and every
string and every name stands for a text. -/
inductive Writable : Json → Prop where
  | null : Writable null
  | bool (b : Bool) : Writable (bool b)
  | number {n : Number} (h : ∀ c ∈ n.fraction, c.isDigit = true) : Writable (number n)
  | text (s : String) : Writable (text s)
  | array {items : List Json} (h : ∀ j ∈ items, Writable j) : Writable (array items)
  | object {fs : List (Option String × Json)} (names : ∀ f ∈ fs, f.1.isSome = true)
      (h : ∀ f ∈ fs, Writable f.2) : Writable (object fs)

/-- Wherever the text of a value stands, the value is read from it. Each step takes a character, so
as many steps as the text has characters are enough. -/
def ReadsBack (j : Json) : Prop :=
  ∀ (fuel : Nat) (rest : List Char), j.render.length ≤ fuel + 1 → Stops Number.goesOn rest →
    readValue? (fuel + 1) (j.render ++ rest) = some (j, rest)

attribute [simp] render renderItems renderFields

/-! ## How a text begins -/

/-- The text of a value starts neither with a blank nor with a closing bracket. -/
def Begins (s : List Char) : Prop := ∃ c t, s = c :: t ∧ isSpace c = false ∧ c ≠ ']'

theorem skipSpace_cons {c : Char} (h : isSpace c = false) (s : List Char) :
    skipSpace (c :: s) = c :: s := dropWhile_of_stops (stops_cons h)

theorem Begins.append {s : List Char} (h : Begins s) (rest : List Char) : Begins (s ++ rest) := by
  obtain ⟨c, t, rfl, hspace, hbracket⟩ := h
  exact ⟨c, t ++ rest, rfl, hspace, hbracket⟩

/-- What starts a number starts no other value, and is no blank. -/
theorem Number.not_mem_of_head {c : Char} (hc : c = '-' ∨ c.isDigit = true) :
    c ∉ [' ', '\t', '\n', '\r', ']', 'n', 't', 'f', '"', '[', '{'] := by
  rcases hc with rfl | hdigit
  · decide
  · intro hmem
    have hnone : [' ', '\t', '\n', '\r', ']', 'n', 't', 'f', '"', '[', '{'].all
        (!·.isDigit) = true := rfl
    have hno := List.all_eq_true.mp hnone c hmem
    rw [hdigit] at hno
    exact Bool.false_ne_true hno

theorem begins_render (j : Json) : Begins j.render := by
  cases j with
  | null => exact ⟨'n', _, rfl, by decide, by decide⟩
  | bool b =>
      cases b with
      | true => exact ⟨'t', _, rfl, by decide, by decide⟩
      | false => exact ⟨'f', _, rfl, by decide, by decide⟩
  | number n =>
      obtain ⟨c, t, htext, hc⟩ := n.text_head
      have hnot := Number.not_mem_of_head hc
      simp only [List.mem_cons, List.not_mem_nil, or_false, not_or] at hnot
      rw [render]
      exact ⟨c, t, htext, by simp [isSpace, hnot], hnot.2.2.2.2.1⟩
  | string s => exact ⟨'"', _, by rw [render]; rfl, by decide, by decide⟩
  | array items =>
      cases items with
      | nil => exact ⟨'[', _, by rw [render], by decide, by decide⟩
      | cons x xs => exact ⟨'[', _, by rw [render], by decide, by decide⟩
  | object fs =>
      cases fs with
      | nil => exact ⟨'{', _, by rw [render], by decide, by decide⟩
      | cons f fs => exact ⟨'{', _, by rw [render], by decide, by decide⟩

/-- No text is empty, so what is enough for it is one step at least. -/
theorem ReadsBack.of_length_le {j : Json} (h : ReadsBack j) (fuel : Nat)
    (hfuel : j.render.length ≤ fuel) {rest : List Char} (hrest : Stops Number.goesOn rest) :
    readValue? fuel (j.render ++ rest) = some (j, rest) := by
  cases fuel with
  | zero =>
      obtain ⟨c, t, htext, -⟩ := begins_render j
      rw [htext] at hfuel
      exact absurd hfuel (Nat.not_succ_le_zero _)
  | succ fuel => exact h fuel rest hfuel hrest

/-! ## Simple values -/

theorem readsBack_null : ReadsBack null := by
  intro fuel rest _ _
  rw [render]
  rfl

theorem readsBack_bool (b : Bool) : ReadsBack (bool b) := by
  intro fuel rest _ _
  rw [render]
  cases b with
  | true => rfl
  | false => rfl

/-- What starts no other value is read as a number. -/
theorem readValue?_of_number {c : Char} (hc : c = '-' ∨ c.isDigit = true) (fuel : Nat)
    (s : List Char) : readValue? (fuel + 1) (c :: s)
      = (Number.read? (c :: s)).map fun (n, rest) => (number n, rest) := by
  have hnot := Number.not_mem_of_head hc
  simp only [List.mem_cons, List.not_mem_nil, or_false, not_or] at hnot
  rw [readValue?, skipSpace_cons (by simp [isSpace, hnot])]
  split
  case h_7 => rfl
  all_goals
    rename_i heq
    exact absurd (List.cons.inj heq).1 (by tauto)

theorem readsBack_number {n : Number} (h : ∀ c ∈ n.fraction, c.isDigit = true) :
    ReadsBack (number n) := by
  intro fuel rest _ hrest
  obtain ⟨c, t, htext, hc⟩ := n.text_head
  have hread := Number.read?_text h hrest
  rw [htext, List.cons_append] at hread
  rw [render, htext, List.cons_append, readValue?_of_number hc, hread]
  rfl

theorem stringText_append (s : String) (rest : List Char) :
    stringText (some s) ++ rest = '"' :: (s.toList.flatMap Quoted.escape ++ '"' :: rest) := by
  simp [stringText, Quoted.encode]

theorem readValue?_string (fuel : Nat) (s : List Char) : readValue? (fuel + 1) ('"' :: s)
    = (Quoted.decode? s).map fun (s, rest) => (string s, rest) := rfl

theorem readsBack_text (s : String) : ReadsBack (text s) := by
  intro fuel rest _ _
  rw [text, render, stringText_append, readValue?_string]
  simp only [Quoted.decode?_escape_all, Option.map_some]

theorem readName?_stringText {name : Option String} (h : name.isSome = true) (rest : List Char) :
    readName? (stringText name ++ ':' :: rest) = some (name, rest) := by
  obtain ⟨s, rfl⟩ := Option.isSome_iff_exists.mp h
  rw [stringText_append, readName?, skipSpace_cons rfl]
  simp only [Quoted.decode?_escape_all, skipSpace_cons (show isSpace ':' = false from rfl)]

/-! ## Arrays -/

theorem stops_renderItems (items : List Json) (rest : List Char) :
    Stops Number.goesOn (renderItems items ++ rest) := by
  cases items with
  | nil => exact stops_cons rfl
  | cons x xs => exact stops_cons rfl

theorem readItems?_renderItems {items : List Json} (h : ∀ j ∈ items, ReadsBack j) {fuel : Nat}
    (hfuel : (renderItems items).length ≤ fuel) (rest : List Char) :
    readItems? fuel (renderItems items ++ rest) = some (items, rest) := by
  induction items generalizing fuel with
  | nil =>
      cases fuel with
      | zero => exact absurd hfuel (Nat.not_succ_le_zero _)
      | succ fuel =>
          rw [renderItems, List.cons_append, readItems?, skipSpace_cons rfl]
          rfl
  | cons j items ih =>
      cases fuel with
      | zero => exact absurd hfuel (Nat.not_succ_le_zero _)
      | succ fuel =>
          rw [renderItems, List.length_cons, List.length_append] at hfuel
          have hitem := (h j List.mem_cons_self).of_length_le fuel (by omega)
            (stops_renderItems items rest)
          have hitems : readItems? fuel (renderItems items ++ rest) = some (items, rest) :=
            ih (fun i hi => h i (List.mem_cons_of_mem _ hi)) (by omega)
          rw [renderItems, List.cons_append, List.append_assoc, readItems?, skipSpace_cons rfl]
          simp only [hitem, hitems, Option.map_some]

theorem readValue?_array {s : List Char} (h : Begins s) (fuel : Nat) :
    readValue? (fuel + 1) ('[' :: s) =
      match readValue? fuel s with
      | some (x, rest) => (readItems? fuel rest).map fun (xs, rest) => (array (x :: xs), rest)
      | none => none := by
  obtain ⟨c, t, rfl, hspace, hbracket⟩ := h
  rw [readValue?, skipSpace_cons rfl]
  simp only [skipSpace_cons hspace]
  split
  · rename_i heq
    exact absurd (List.cons.inj heq).1 hbracket
  · rfl

theorem readsBack_array {items : List Json} (h : ∀ j ∈ items, ReadsBack j) :
    ReadsBack (array items) := by
  intro fuel rest hfuel _
  cases items with
  | nil =>
      rw [render]
      rfl
  | cons x xs =>
      rw [render, List.length_cons, List.length_append] at hfuel
      have hitem := (h x List.mem_cons_self).of_length_le fuel (by omega)
        (stops_renderItems xs rest)
      have hitems := readItems?_renderItems (fun i hi => h i (List.mem_cons_of_mem _ hi))
        (by omega : (renderItems xs).length ≤ fuel) rest
      rw [render, List.cons_append, List.append_assoc,
        readValue?_array ((begins_render x).append _)]
      simp only [hitem, hitems, Option.map_some]

/-! ## Objects -/

theorem stops_renderFields (fs : List (Option String × Json)) (rest : List Char) :
    Stops Number.goesOn (renderFields fs ++ rest) := by
  cases fs with
  | nil => exact stops_cons rfl
  | cons f fs => exact stops_cons rfl

/-- The name of the field is a text, and its value reads back. -/
def FieldReadsBack (f : Option String × Json) : Prop := f.1.isSome = true ∧ ReadsBack f.2

theorem readFields?_renderFields {fs : List (Option String × Json)}
    (h : ∀ f ∈ fs, FieldReadsBack f) {fuel : Nat} (hfuel : (renderFields fs).length ≤ fuel)
    (rest : List Char) : readFields? fuel (renderFields fs ++ rest) = some (fs, rest) := by
  induction fs generalizing fuel with
  | nil =>
      cases fuel with
      | zero => exact absurd hfuel (Nat.not_succ_le_zero _)
      | succ fuel =>
          rw [renderFields, List.cons_append, readFields?, skipSpace_cons rfl]
          rfl
  | cons f fs ih =>
      obtain ⟨name, v⟩ := f
      obtain ⟨hname, hvalue⟩ : name.isSome = true ∧ ReadsBack v := h _ List.mem_cons_self
      cases fuel with
      | zero => exact absurd hfuel (Nat.not_succ_le_zero _)
      | succ fuel =>
          simp only [renderFields, List.length_cons, List.length_append] at hfuel
          have hread := hvalue.of_length_le fuel (by omega) (stops_renderFields fs rest)
          have hfields : readFields? fuel (renderFields fs ++ rest) = some (fs, rest) :=
            ih (fun g hg => h g (List.mem_cons_of_mem _ hg)) (by omega)
          rw [renderFields, List.cons_append, List.append_assoc, List.cons_append,
            List.append_assoc, readFields?, skipSpace_cons rfl]
          simp only [readName?_stringText hname, hread, hfields, Option.map_some]

theorem readValue?_object (fuel : Nat) (name : Option String) (rest : List Char) :
    readValue? (fuel + 1) ('{' :: (stringText name ++ rest)) =
      match readName? (stringText name ++ rest) with
      | some (k, rest) =>
          match readValue? fuel rest with
          | some (v, rest) =>
              (readFields? fuel rest).map fun (fs, rest) => (object ((k, v) :: fs), rest)
          | none => none
      | none => none := by
  -- a name starts with a quote, which is no closing brace
  rfl

theorem readsBack_object {fs : List (Option String × Json)} (h : ∀ f ∈ fs, FieldReadsBack f) :
    ReadsBack (object fs) := by
  intro fuel rest hfuel _
  cases fs with
  | nil =>
      rw [render]
      rfl
  | cons f fs =>
      obtain ⟨name, v⟩ := f
      obtain ⟨hname, hvalue⟩ : name.isSome = true ∧ ReadsBack v := h _ List.mem_cons_self
      simp only [render, List.length_cons, List.length_append] at hfuel
      have hread := hvalue.of_length_le fuel (by omega) (stops_renderFields fs rest)
      have hfields := readFields?_renderFields (fun g hg => h g (List.mem_cons_of_mem _ hg))
        (by omega : (renderFields fs).length ≤ fuel) rest
      rw [render, List.cons_append, List.append_assoc, List.cons_append, List.append_assoc,
        readValue?_object]
      simp only [readName?_stringText hname, hread, hfields, Option.map_some]

/-! ## All values -/

/-- **A value is read as it is written.** -/
theorem Writable.readsBack {j : Json} (h : Writable j) : ReadsBack j := by
  induction h with
  | null => exact readsBack_null
  | bool b => exact readsBack_bool b
  | number h => exact readsBack_number h
  | text s => exact readsBack_text s
  | array _ ih => exact readsBack_array ih
  | object names _ ih => exact readsBack_object fun f hf => ⟨names f hf, ih f hf⟩

theorem read?_write {j : Json} (h : Writable j) : read? j.write = some j := by
  have hread := h.readsBack j.render.length [] (Nat.le_succ _) stops_nil
  rw [List.append_nil] at hread
  simp only [read?, write, String.toList_ofList, hread]
  rfl

end FactorLabel.Json
