/-!
Sets of characters given by closed ranges of code points.
-/
namespace RemoteEval.Text

abbrev Ranges := List (Nat × Nat)

def Ranges.has (ranges : Ranges) (c : Char) : Bool :=
  ranges.any fun range => range.1 ≤ c.toNat && c.toNat ≤ range.2

theorem Ranges.has_iff (ranges : Ranges) (c : Char) :
    ranges.has c = true ↔ ∃ range ∈ ranges, range.1 ≤ c.toNat ∧ c.toNat ≤ range.2 := by
  simp [Ranges.has]

/-- A character outside every range of one set is found by testing the ranges' ends. -/
theorem Ranges.not_has_of_disjoint (ranges others : Ranges) (c : Char)
    (hdisjoint : ∀ r ∈ ranges, ∀ o ∈ others, r.2 < o.1 ∨ o.2 < r.1)
    (hc : ranges.has c = true) : others.has c = false := by
  obtain ⟨r, hr, hlo, hhi⟩ := (has_iff ranges c).1 hc
  rw [Bool.eq_false_iff]
  intro hother
  obtain ⟨o, ho, holo, hohi⟩ := (has_iff others c).1 hother
  have := hdisjoint r hr o ho
  omega

end RemoteEval.Text
