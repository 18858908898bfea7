import FactorLabel.Text.Span
import Mathlib.Data.List.TakeWhile

/-!
# Where a scan stops

A scan takes characters of a class and stops in front of the first that is none, or at the end
of the text. If the text is put together from such a run and a rest that stops it, the scan finds
exactly these two. Where no element is ever refused, a scan goes through to the end.
-/

namespace FactorLabel.Text

/-- A scan for the class `p` takes nothing from `s`. -/
def Stops (p : Char → Bool) (s : List Char) : Prop := ∀ c ∈ s.head?, p c = false

variable {p : Char → Bool} {w rest : List Char}

theorem stops_nil : Stops p [] := fun _ h => absurd h (by simp)

theorem stops_cons {c : Char} (h : p c = false) : Stops p (c :: rest) := by
  intro d hd
  rw [← Option.some.inj hd]
  exact h

theorem stops_dropWhile (s : List Char) : Stops p (s.dropWhile p) := by
  intro c hc
  have hnot := List.head?_dropWhile_not p s
  rw [hc] at hnot
  exact hnot

theorem takeWhile_of_stops (h : Stops p rest) : rest.takeWhile p = [] := by
  cases rest with
  | nil => rfl
  | cons c rest => exact List.takeWhile_cons_of_neg (by simp [h c rfl])

theorem dropWhile_of_stops (h : Stops p rest) : rest.dropWhile p = rest := by
  cases rest with
  | nil => rfl
  | cons c rest => exact List.dropWhile_cons_of_neg (by simp [h c rfl])

theorem takeWhile_append_of_stops (hw : ∀ c ∈ w, p c = true) (h : Stops p rest) :
    (w ++ rest).takeWhile p = w := by
  rw [List.takeWhile_append_of_pos hw, takeWhile_of_stops h, List.append_nil]

theorem dropWhile_append_of_stops (hw : ∀ c ∈ w, p c = true) (h : Stops p rest) :
    (w ++ rest).dropWhile p = rest := by
  rw [List.dropWhile_append_of_pos hw, dropWhile_of_stops h]

/-! ## Marks -/

/-- A mark as written, or nothing. -/
def markText (c : Char) (present : Bool) : List Char := if present then [c] else []

theorem stops_markText_append {c : Char} (present : Bool) (hc : p c = false) (h : Stops p rest) :
    Stops p (markText c present ++ rest) := by
  cases present with
  | true => exact stops_cons hc
  | false => exact h

theorem eq_of_takeMark {c : Char} {s : List Char} {present : Bool}
    (h : takeMark c s = (present, rest)) : s = markText c present ++ rest := by
  cases s with
  | nil =>
      cases h
      rfl
  | cons d s =>
      rw [takeMark] at h
      split at h
      · rename_i hd
        cases h
        rw [hd]
        rfl
      · cases h
        rfl

/-- A mark is found if it is there and not found if something else stands in its place. -/
theorem takeMark_append {c : Char} {present : Bool}
    (h : present = false → Stops (· == c) rest) :
    takeMark c (markText c present ++ rest) = (present, rest) := by
  cases present with
  | true => exact if_pos rfl
  | false =>
      cases rest with
      | nil => rfl
      | cons d rest => exact if_neg (by simpa using h rfl d rfl)

/-! ## Fractions -/

/-- The fraction as written, with its point, or nothing if it has no digits. -/
def fractionText (fraction : List Char) : List Char :=
  if fraction.isEmpty then [] else '.' :: fraction

theorem stops_fractionText_append (fraction : List Char) (hpoint : p '.' = false)
    (h : Stops p rest) : Stops p (fractionText fraction ++ rest) := by
  cases fraction with
  | nil => exact h
  | cons c fraction => exact stops_cons hpoint

/-! ## One by one -/

/-- Where every element has a value, all of them do. -/
theorem mapM_eq_pure_map {m : Type → Type} [Monad m] [LawfulMonad m] {α β : Type} {f : α → m β}
    {g : α → β} {l : List α} (h : ∀ a ∈ l, f a = pure (g a)) : l.mapM f = pure (l.map g) := by
  induction l with
  | nil => rw [List.mapM_nil, List.map_nil]
  | cons a l ih =>
      rw [List.mapM_cons, h a List.mem_cons_self, ih fun b hb => h b (List.mem_cons_of_mem a hb)]
      simp only [pure_bind, List.map_cons]

/-- If each element comes back, the list does. -/
theorem mapM_map_of_back {α β : Type} {f : α → β} {g : β → Option α} {l : List α}
    (h : ∀ a ∈ l, g (f a) = some a) : (l.map f).mapM g = some l := by
  rw [List.mapM_map]
  exact (mapM_eq_pure_map (g := id) h).trans (congrArg some (List.map_id l))

end FactorLabel.Text
