import FactorLabel.Proofs.Labels.Sum

/-!
# Equal maps

Comparing two maps is a shortcut: the entries of the first are looked up in the second, the numbers
of entries are compared, and nobody looks the other way. That is enough, since no label comes twice
and no exponent is zero: if all entries of the first are found and the second has no more of them,
none is left over. So `==` decides whether two maps give every label the same exponent, and the
order of the entries has no part in it.

Products only depend on the exponents, so equal maps can take each other's place in a product, even
where a sum of exponents is cut off.
-/

namespace FactorLabel.Labels

variable {a b c d : Labels}

/-- Equal maps hold the same entries, perhaps in another order. -/
theorem beq_iff_perm : (a == b) = true ↔ a.entries.Perm b.entries :=
  ⟨fun h => entries_perm (get_of_beq h), beq_of_perm⟩

instance : EquivBEq Labels where
  rfl := beq_of_get fun _ => rfl
  symm h := beq_of_get fun label => (get_of_beq h label).symm
  trans h h' := beq_of_get fun label => (get_of_beq h label).trans (get_of_beq h' label)

/-- Equal factors have equal products. -/
theorem mul_beq_mul (hleft : (a == b) = true) (hright : (c == d) = true) :
    (a * c == b * d) = true := by
  refine beq_of_get fun label => ?_
  rw [get_mul, get_mul, get_of_beq hleft, get_of_beq hright]

/--
**Equality is extensional.**

However two maps were made, they are equal if and only if they give every label the same exponent,
and if and only if their entries are the same up to order. So equality is an equivalence, and equal
maps have equal products with any third map, on either side of it.
-/
theorem beq_extensional :
    (∀ a b : Labels, ((a == b) = true ↔ ∀ label, a.get label = b.get label)
      ∧ ((a == b) = true ↔ a.entries.Perm b.entries))
    ∧ Equivalence (fun a b : Labels => (a == b) = true)
    ∧ ∀ a b : Labels, (a == b) = true →
        ∀ c, (a * c == b * c) = true ∧ (c * a == c * b) = true := by
  refine ⟨fun a b => ⟨beq_iff_get, beq_iff_perm⟩, ⟨fun _ => BEq.rfl, BEq.symm, BEq.trans⟩, ?_⟩
  intro a b h c
  exact ⟨mul_beq_mul h BEq.rfl, mul_beq_mul BEq.rfl h⟩

/-- As many metres as can be counted, over two seconds. -/
def countlessMetres : Labels := (Labels.empty.add "m" .largest).add "s" (-2)

/-- The same, with the seconds in front. -/
def countlessMetresTurned : Labels := (Labels.empty.add "s" (-2)).add "m" .largest

/-- One metre more is cut off on either side, and the seconds stay where they are. -/
theorem beq_extensional_countless :
    (countlessMetres == countlessMetresTurned) = true
    ∧ countlessMetres.labels ≠ countlessMetresTurned.labels
    ∧ (countlessMetres * Labels.empty.add "m" 1
        == countlessMetresTurned * Labels.empty.add "m" 1) = true
    ∧ (countlessMetres * Labels.empty.add "m" 1 == countlessMetres) = true := by
  have hbeq : (countlessMetres == countlessMetresTurned) = true := by decide
  exact ⟨hbeq, by decide, (beq_extensional.2.2 _ _ hbeq _).1, by decide⟩

end FactorLabel.Labels
