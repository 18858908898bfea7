import FactorLabel.Proofs.Json.ReadBack
import FactorLabel.Stored.Settings

/-!
# Values that are taken back as they were stored

What it means that a kind of value is stored without loss, and the parts that all kinds are made
of: numbers, and records with their fields.
-/

namespace FactorLabel

namespace Json

/-! ## Storing a kind of value -/

/-- The value that a text stands for, if it has the right shape. -/
def load {α : Type} (ofJson? : Json → Option α) (text : String) : Option α :=
  (read? text).bind ofJson?

section

variable {α : Type} (toJson : α → Json) (ofJson? : Json → Option α) (Kept : α → Prop)

/-- How a kind of value is stored and taken back: the values that are kept come back as they were,
and only such values are accepted. -/
structure Faithful : Prop where
  writable : ∀ x, (toJson x).Writable
  back : ∀ x, Kept x → ofJson? (toJson x) = some x
  kept : ∀ j x, ofJson? j = some x → Kept x

/-- The same for texts. Whatever is accepted comes back when it is written again. -/
structure Lossless : Prop where
  back : ∀ x, Kept x → load ofJson? (toJson x).write = some x
  kept : ∀ text x, load ofJson? text = some x → Kept x
  again : ∀ text x, load ofJson? text = some x → load ofJson? (toJson x).write = some x

variable {toJson : α → Json} {ofJson? : Json → Option α} {Kept : α → Prop}

theorem Faithful.lossless (h : Faithful toJson ofJson? Kept) : Lossless toJson ofJson? Kept := by
  have hback : ∀ x, Kept x → load ofJson? (toJson x).write = some x := by
    intro x hx
    rw [load, read?_write (h.writable x), Option.bind_some, h.back x hx]
  have hkept : ∀ text x, load ofJson? text = some x → Kept x := by
    intro text x hload
    obtain ⟨j, -, hj⟩ := Option.bind_eq_some_iff.mp hload
    exact h.kept j x hj
  exact ⟨hback, hkept, fun text x hload => hback x (hkept text x hload)⟩

end

/-! ## Numbers -/

theorem writable_ofInt (n : Int) : (ofInt n).Writable :=
  .number fun _ h => absurd h List.not_mem_nil

theorem int?_ofInt (n : Int) : int? (ofInt n) = some n := Number.toInt?_ofInt n

theorem writable_ofFloat (x : Float) : (ofFloat x).Writable := by
  rw [ofFloat]
  split
  · exact .number (Number.ofDecimal_isDigit _ _)
  · exact .null

theorem float?_ofFloat {x : Float} (h : x.isFinite = true) : float? (ofFloat x) = some x := by
  rw [ofFloat, if_pos h]
  exact Number.toFloat?_ofFloat h

theorem isFinite_of_float? {j : Json} {x : Float} (h : float? j = some x) : x.isFinite = true := by
  cases j with
  | number n =>
      simp only [float?, Number.toFloat?] at h
      split at h
      · rename_i hfinite
        rw [← Option.some.inj h]
        exact hfinite
      · cases h
  | _ => cases h

theorem word?_of_int? {j : Json} {n : Nat} (hj : int? j = some (n : Int))
    (h : n < UInt64.size) : word? j = some n := by
  have hrange : ∀ bound : Nat, n < bound → (0 : Int) ≤ n ∧ (n : Int) < bound := by omega
  refine Option.bind_eq_some_iff.mpr ⟨n, hj, ?_⟩
  rw [if_pos (hrange _ h), Int.toNat_natCast]

theorem lt_of_word? {j : Json} {n : Nat} (h : word? j = some n) : n < UInt64.size := by
  obtain ⟨i, -, hi⟩ := Option.bind_eq_some_iff.mp h
  split at hi
  · have hn := Option.some.inj hi
    omega
  · cases hi

/-! ## Records -/

theorem Writable.fields {fs : List (String × Json)} (h : ∀ f ∈ fs, f.2.Writable) :
    (fields fs).Writable := by
  refine .object (fun f hf => ?_) fun f hf => ?_
  · obtain ⟨g, -, rfl⟩ := List.mem_map.mp hf
    rfl
  · obtain ⟨g, hg, rfl⟩ := List.mem_map.mp hf
    exact h g hg

theorem namesAreFine_of_nodup {fs : List (String × Json)} (h : (fs.map Prod.fst).Nodup)
    (known : List String) : namesAreFine known (fs.map fun f => (some f.1, f.2)) = true := by
  have hcount : ∀ name, (fs.filter (·.1 == name)).length ≤ 1 := by
    intro name
    have hone := List.nodup_iff_count_le_one.mp h name
    rwa [List.count, List.countP_map, List.countP_eq_length_filter] at hone
  simp only [namesAreFine, List.filter_map, List.length_map, Bool.and_eq_true, List.all_eq_true]
  refine ⟨fun f hf => ?_, fun name _ => decide_eq_true (hcount name)⟩
  obtain ⟨g, -, rfl⟩ := List.mem_map.mp hf
  rfl

theorem lookup_map (fs : List (String × Json)) (name : String) :
    lookup (fs.map fun f => (some f.1, f.2)) name
      = (fs.find? (·.1 == name)).map Prod.snd := by
  rw [lookup, List.find?_map, Option.map_map]
  rfl

/-- The fields of a record are found by their names. -/
theorem record?_fields {fs : List (String × Json)} (h : (fs.map Prod.fst).Nodup)
    (known : List String) : (fields fs).record? known
      = some (known.map fun name => (fs.find? (·.1 == name)).map Prod.snd) := by
  rw [fields, record?, if_pos (namesAreFine_of_nodup h known)]
  exact congrArg some (List.map_congr_left fun name _ => lookup_map fs name)

end Json

end FactorLabel
