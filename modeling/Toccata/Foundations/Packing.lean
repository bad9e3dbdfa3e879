import Mathlib

/-! # Ranges that fit side by side

Ranges of numbers, each by its start and its length. Ranges that lie in an interval and
have nothing in common are together no longer than it.
-/

namespace Foundations

/-- The numbers in any of these ranges. -/
def covered : List (Nat × Nat) → Finset Nat
  | [] => ∅
  | r :: rest => Finset.Ico r.1 (r.1 + r.2) ∪ covered rest

theorem mem_covered {ranges : List (Nat × Nat)} {i : Nat} :
    i ∈ covered ranges ↔ ∃ r ∈ ranges, r.1 ≤ i ∧ i < r.1 + r.2 := by
  induction ranges with
  | nil => simp [covered]
  | cons r rest ih => simp [covered, ih]

/-- Ranges apart are as many numbers as they are long. -/
theorem card_covered {ranges : List (Nat × Nat)}
    (apart : ranges.Pairwise fun r r' => r.1 + r.2 ≤ r'.1 ∨ r'.1 + r'.2 ≤ r.1) :
    (covered ranges).card = (ranges.map (·.2)).sum := by
  induction ranges with
  | nil => rfl
  | cons r rest ih =>
      rw [List.pairwise_cons] at apart
      have disjoint : Disjoint (Finset.Ico r.1 (r.1 + r.2)) (covered rest) := by
        rw [Finset.disjoint_left]
        intro i here there
        rw [Finset.mem_Ico] at here
        obtain ⟨r', member, low, high⟩ := mem_covered.mp there
        have := apart.1 r' member
        omega
      rw [covered, Finset.card_union_of_disjoint disjoint, ih apart.2, Nat.card_Ico, List.map_cons,
        List.sum_cons, Nat.add_sub_cancel_left]

theorem sum_le_of_apart {ranges : List (Nat × Nat)} {low high : Nat}
    (apart : ranges.Pairwise fun r r' => r.1 + r.2 ≤ r'.1 ∨ r'.1 + r'.2 ≤ r.1)
    (inside : ∀ r ∈ ranges, low ≤ r.1 ∧ r.1 + r.2 ≤ high) : (ranges.map (·.2)).sum ≤ high - low := by
  rw [← card_covered apart, ← Nat.card_Ico]
  apply Finset.card_le_card
  intro i member
  obtain ⟨r, listed, first, last⟩ := mem_covered.mp member
  have := inside r listed
  rw [Finset.mem_Ico]
  omega

/-- What holds of any two entries of a multiset, of one twice if it is there twice, holds
    pairwise of its entries in any order. -/
theorem pairwise_of_pairs {α : Type} {R : α → α → Prop} {m : Multiset α}
    (pairs : ∀ x y, {x, y} ≤ m → R x y) : m.toList.Pairwise R := by
  rw [List.pairwise_iff_forall_sublist]
  intro x y both
  apply pairs
  rw [← Multiset.coe_toList m]
  exact both.subperm

end Foundations
