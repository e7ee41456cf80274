import Edn.Pattern.CharSet

/-!
# Sets of characters compared

A set is a table of ranges in ascending order, so two sets can be compared by
their ranges.

* `CharSet.contains_of_apart`: sets whose ranges lie apart have no character
  in common.
* `CharSet.contains_of_within`: a set whose ranges lie in those of another
  one has no other characters.
-/

namespace Edn.CharSet

/-! ## Ranges -/

/-- A character of a set lies in one of its ranges. -/
theorem exists_range_of_contains {s : CharSet} {c : Char} (h : s.contains c = true) :
    ∃ range ∈ s.table, range.1 ≤ c.toNat ∧ c.toNat ≤ range.2 := by
  obtain ⟨table⟩ := s
  change table.holds c.toNat = true at h
  dsimp only
  induction table with
  | nil => cases h
  | cons range rest ih =>
    obtain ⟨first, last⟩ := range
    simp only [Text.CodeTable.holds] at h
    split at h
    · cases h
    · next hfirst =>
      rcases Bool.or_eq_true_iff.1 h with hlast | hrest
      · exact ⟨_, List.mem_cons_self, Nat.le_of_not_lt hfirst, of_decide_eq_true hlast⟩
      · obtain ⟨range, hmem, hrange⟩ := ih hrest
        exact ⟨range, List.mem_cons_of_mem _ hmem, hrange⟩

/-- In a table in ascending order, every range is searched. -/
theorem contains_of_mem {s : CharSet} {c : Char} {range : Nat × Nat}
    (hordered : s.table.Pairwise fun a b => a.1 ≤ b.1) (hmem : range ∈ s.table)
    (hlow : range.1 ≤ c.toNat) (hhigh : c.toNat ≤ range.2) : s.contains c = true := by
  obtain ⟨table⟩ := s
  change table.holds c.toNat = true
  dsimp only at hordered hmem
  induction table with
  | nil => cases hmem
  | cons first rest ih =>
    obtain ⟨hfirst, hrest⟩ := List.pairwise_cons.1 hordered
    rw [Text.CodeTable.holds]
    rcases List.mem_cons.1 hmem with rfl | hmem
    · rw [if_neg (Nat.not_lt.2 hlow), Bool.or_eq_true]
      exact .inl (decide_eq_true hhigh)
    · rw [if_neg (Nat.not_lt.2 (Nat.le_trans (hfirst range hmem) hlow)), Bool.or_eq_true]
      exact .inr (ih hrest hmem)

theorem contains_single (d c : Char) : (single d).contains c = decide (c = d) := by
  have h : c = d ↔ c.toNat = d.toNat := ⟨fun h => h ▸ rfl, fun h => Char.toNat_inj.1 h⟩
  simp only [contains, single, range, Text.CodeTable.holds, h]
  grind

/-! ## Comparing sets -/

/-- Two sets have no character in common, as their ranges tell. -/
def apart (s t : CharSet) : Bool :=
  s.table.all fun (first, last) => t.table.all fun (low, high) =>
    decide (last < low) || decide (high < first)

theorem contains_of_apart {s t : CharSet} {c : Char} (h : s.apart t = true)
    (hs : s.contains c = true) : t.contains c = false := by
  rw [← Bool.not_eq_true]
  intro ht
  obtain ⟨a, ha, ha'⟩ := exists_range_of_contains hs
  obtain ⟨b, hb, hb'⟩ := exists_range_of_contains ht
  have := List.all_eq_true.1 (List.all_eq_true.1 h a ha) b hb
  grind

/-- All ranges of a set lie in ranges of another one. -/
def within (s t : CharSet) : Bool :=
  s.table.all fun (first, last) => t.table.any fun (low, high) =>
    decide (low ≤ first) && decide (last ≤ high)

theorem contains_of_within {s t : CharSet} {c : Char} (h : s.within t = true)
    (ht : t.table.Pairwise fun a b => a.1 ≤ b.1) (hs : s.contains c = true) :
    t.contains c = true := by
  obtain ⟨a, ha, ha'⟩ := exists_range_of_contains hs
  obtain ⟨b, hb, hb'⟩ := List.any_eq_true.1 (List.all_eq_true.1 h a ha)
  simp only [Bool.and_eq_true, decide_eq_true_eq] at hb'
  exact contains_of_mem ht hb (Nat.le_trans hb'.1 ha'.1) (Nat.le_trans ha'.2 hb'.2)

end Edn.CharSet
