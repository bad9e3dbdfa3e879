import Mathlib.Order.Interval.Set.Defs
import Mathlib.Data.Set.Basic
import Mathlib.Data.Nat.Find
import Mathlib.Tactic.Common

/-! # Maximal runs of a set of naturals

The maximal intervals of a set, each given by its first member and its length.
Runs never touch, so taking one whole run out, or putting in an interval which
touches nothing, changes the collection of runs by exactly that one.
-/

namespace Foundations

/-- `[h, h + c)` is a maximal nonempty interval of `F`. -/
structure IsRun (F : Set Nat) (h c : Nat) : Prop where
  pos : 0 < c
  inside : ∀ k, h ≤ k → k < h + c → k ∈ F
  left : ∀ k, k + 1 = h → k ∉ F
  right : h + c ∉ F

namespace IsRun

variable {F : Set Nat} {h c h' c' n : Nat}

theorem head_mem (r : IsRun F h c) : h ∈ F :=
  r.inside h le_rfl (by have := r.pos; omega)

theorem last_mem (r : IsRun F h c) : h + c - 1 ∈ F :=
  r.inside _ (by have := r.pos; omega) (by have := r.pos; omega)

/-- A run reaching at least as far left as a shared member starts where the
    other one starts. -/
private theorem start_le (r : IsRun F h c) (r' : IsRun F h' c') {k : Nat}
    (hi' : k < h' + c') (lo : h ≤ k) : h ≤ h' := by
  by_contra late
  have before : h - 1 + 1 = h := by omega
  exact r.left (h - 1) before (r'.inside _ (by omega) (by omega))

private theorem stop_le (r : IsRun F h c) (r' : IsRun F h' c') {k : Nat}
    (lo' : h' ≤ k) (hi : k < h + c) : h' + c' ≤ h + c := by
  by_contra short
  exact r.right (r'.inside _ (by omega) (by omega))

/-- Two runs sharing a member are the same run. -/
theorem eq_of_overlap (r : IsRun F h c) (r' : IsRun F h' c') {k : Nat}
    (lo : h ≤ k) (hi : k < h + c) (lo' : h' ≤ k) (hi' : k < h' + c') : h = h' ∧ c = c' := by
  have startLe := r.start_le r' hi' lo
  have startGe := r'.start_le r hi lo'
  have stopLe := r.stop_le r' lo' hi
  have stopGe := r'.stop_le r lo hi'
  omega

theorem count_unique (r : IsRun F h c) (r' : IsRun F h c') : c = c' :=
  (r.eq_of_overlap r' le_rfl (by have := r.pos; omega) le_rfl (by have := r'.pos; omega)).2

/-- Distinct runs leave a gap between them. -/
theorem separated (r : IsRun F h c) (r' : IsRun F h' c') (different : h ≠ h') :
    h + c < h' ∨ h' + c' < h := by
  by_contra close
  rcases Nat.lt_or_ge h h' with lt | ge
  · by_cases touch : h + c = h'
    · exact r.right (touch ▸ r'.head_mem)
    · have := r.eq_of_overlap r' (k := h') (by omega) (by omega) le_rfl
        (by have := r'.pos; omega)
      exact different this.1
  · by_cases touch : h' + c' = h
    · exact r'.right (touch ▸ r.head_mem)
    · have := r.eq_of_overlap r' (k := h) le_rfl (by have := r.pos; omega) (by omega) (by omega)
      exact different this.1

theorem le_bound (r : IsRun F h c) (bounded : ∀ k ∈ F, k < n) : h + c ≤ n := by
  have := bounded _ r.last_mem
  have := r.pos
  omega

end IsRun

section Existence

variable {F : Set Nat} {n : Nat}

/-- A member with no left neighbour heads a run, provided the set is bounded. -/
theorem exists_run_from (bounded : ∀ k ∈ F, k < n) {h : Nat} (member : h ∈ F)
    (left : ∀ k, k + 1 = h → k ∉ F) : ∃ c, IsRun F h c := by
  classical
  have leaves : ∃ c, h + c ∉ F := ⟨n, fun inside => by have := bounded _ inside; omega⟩
  refine ⟨Nat.find leaves, ?_, ?_, left, Nat.find_spec leaves⟩
  · rw [Nat.find_pos]
    exact fun out => out member
  · intro k lo hi
    have early := Nat.find_min leaves (m := k - h) (by omega)
    rw [not_not] at early
    simpa only [Nat.add_sub_cancel' lo] using early

/-- A member with no right neighbour ends a run. -/
theorem exists_run_to {t : Nat} (member : t ∈ F) (right : t + 1 ∉ F) :
    ∃ c, c ≤ t + 1 ∧ IsRun F (t + 1 - c) c := by
  classical
  -- The least start from which everything up to `t` belongs to the set.
  have starts : ∃ h, h ≤ t ∧ ∀ k, h ≤ k → k ≤ t → k ∈ F :=
    ⟨t, le_rfl, fun k lo hi => le_antisymm hi lo ▸ member⟩
  obtain ⟨below, filled⟩ := Nat.find_spec starts
  refine ⟨t + 1 - Nat.find starts, by omega, ?_⟩
  have head : t + 1 - (t + 1 - Nat.find starts) = Nat.find starts := by omega
  rw [head]
  refine ⟨by omega, fun k lo hi => filled k lo (by omega), ?_, ?_⟩
  · intro k next inside
    refine Nat.find_min starts (m := k) (by omega) ⟨by omega, ?_⟩
    intro j lo hi
    rcases Nat.eq_or_lt_of_le lo with rfl | later
    · exact inside
    · exact filled j (by omega) hi
  · have stop : Nat.find starts + (t + 1 - Nat.find starts) = t + 1 := by omega
    rw [stop]
    exact right

/-- Every member of a bounded set lies on exactly one run. -/
theorem exists_run_through (bounded : ∀ k ∈ F, k < n) {k : Nat} (member : k ∈ F) :
    ∃ h c, IsRun F h c ∧ h ≤ k ∧ k < h + c := by
  classical
  have leaves : ∃ c, k + c + 1 ∉ F := ⟨n, fun inside => by have := bounded _ inside; omega⟩
  have filled : ∀ j, j ≤ Nat.find leaves → k + j ∈ F := by
    intro j le
    cases j with
    | zero => exact member
    | succ j =>
        have early := Nat.find_min leaves (m := j) (by omega)
        rw [not_not] at early
        exact early
  obtain ⟨c, cle, r⟩ := exists_run_to (filled _ le_rfl) (Nat.find_spec leaves)
  refine ⟨_, c, r, ?_, by omega⟩
  by_contra after
  exact r.left _ (by omega : k + Nat.find leaves + 1 - c - 1 + 1 = _)
    (by
      have := filled (k + Nat.find leaves + 1 - c - 1 - k) (by omega)
      simpa only [Nat.add_sub_cancel' (show k ≤ k + Nat.find leaves + 1 - c - 1 by omega)] using this)

end Existence

section Surgery

variable {F : Set Nat} {h c h' c' : Nat}

/-- Taking a whole run out removes that run and no other. -/
theorem isRun_diff (r : IsRun F h c) :
    IsRun (F \ Set.Ico h (h + c)) h' c' ↔ IsRun F h' c' ∧ h' ≠ h := by
  constructor
  · intro r'
    have stop : h' + c' ∉ F := by
      intro inside
      have out : h' + c' ∈ Set.Ico h (h + c) := by
        by_contra out
        exact r'.right ⟨inside, out⟩
      have last := r'.last_mem
      have := r'.pos
      have notIn : ¬ (h ≤ h' + c' - 1) := fun lo => last.2 ⟨lo, by have := out.2; omega⟩
      have first : h = h' + c' := by have := out.1; omega
      exact r.left (h' + c' - 1) (by omega) last.1
    refine ⟨⟨r'.pos, fun k lo hi => (r'.inside k lo hi).1, ?_, stop⟩, ?_⟩
    · intro k next inside
      have out : k ∈ Set.Ico h (h + c) := by
        by_contra out
        exact r'.left k next ⟨inside, out⟩
      have head := r'.head_mem
      have past : h + c = h' := by
        by_contra gap
        exact head.2 ⟨by have := out.1; omega, by have := out.2; omega⟩
      exact r.right (past ▸ head.1)
    · rintro rfl
      exact r'.head_mem.2 ⟨le_rfl, by have := r.pos; omega⟩
  · rintro ⟨r', different⟩
    have apart := r.separated r' different.symm
    refine ⟨r'.pos, fun k lo hi => ⟨r'.inside k lo hi, ?_⟩, fun k next inside => ?_, fun inside => ?_⟩
    · rintro ⟨lo', hi'⟩
      omega
    · exact r'.left k next inside.1
    · exact r'.right inside.1

/-- Putting in an interval which touches nothing adds that run and no other. -/
theorem isRun_union (pos : 0 < c) (outside : ∀ k, h ≤ k → k < h + c → k ∉ F)
    (left : ∀ k, k + 1 = h → k ∉ F) (right : h + c ∉ F) :
    IsRun (F ∪ Set.Ico h (h + c)) h' c' ↔ IsRun F h' c' ∨ (h' = h ∧ c' = c) := by
  have added : IsRun (F ∪ Set.Ico h (h + c)) h c := by
    refine ⟨pos, fun k lo hi => Or.inr ⟨lo, hi⟩, ?_, ?_⟩
    · rintro k next (inside | ⟨lo, -⟩)
      · exact left k next inside
      · omega
    · rintro (inside | ⟨-, hi⟩)
      · exact right inside
      · omega
  have back : (F ∪ Set.Ico h (h + c)) \ Set.Ico h (h + c) = F := by
    ext k
    constructor
    · rintro ⟨inside | inside, out⟩
      · exact inside
      · exact (out inside).elim
    · exact fun inside => ⟨Or.inl inside, fun ⟨lo, hi⟩ => outside k lo hi inside⟩
  have others : IsRun _ h' c' ↔ _ := isRun_diff added
  rw [back] at others
  rw [others]
  constructor
  · intro r'
    by_cases same : h' = h
    · subst same
      exact Or.inr ⟨rfl, r'.count_unique added⟩
    · exact Or.inl ⟨r', same⟩
  · rintro (⟨r', -⟩ | ⟨rfl, rfl⟩)
    · exact r'
    · exact added

/-- Taking the front of a run out is taking it whole and putting the rest back. -/
theorem IsRun.diff_split {n : Nat} (r : IsRun F h c) (split : n < c) :
    F \ Set.Ico h (h + n) = F \ Set.Ico h (h + c) ∪ Set.Ico (h + n) (h + n + (c - n)) := by
  ext k
  simp only [Set.mem_union, Set.mem_sdiff, Set.mem_Ico]
  constructor
  · rintro ⟨inside, out⟩
    by_cases tail : h ≤ k ∧ k < h + c
    · exact Or.inr ⟨by omega, by omega⟩
    · exact Or.inl ⟨inside, tail⟩
  · rintro (⟨inside, out⟩ | ⟨lo, hi⟩)
    · exact ⟨inside, fun ⟨lo, hi⟩ => out ⟨lo, by omega⟩⟩
    · exact ⟨r.inside k (by omega) (by omega), by omega⟩

/-- Taking the front of a run leaves its rest as one run and every other run as it
    was. -/
theorem isRun_take {n : Nat} (r : IsRun F h c) (pos : 0 < n) (short : n ≤ c) :
    IsRun (F \ Set.Ico h (h + n)) h' c' ↔
      (IsRun F h' c' ∧ h' ≠ h) ∨ (n < c ∧ h' = h + n ∧ c' = c - n) := by
  rcases Nat.eq_or_lt_of_le short with rfl | split
  · rw [isRun_diff r]
    constructor
    · exact Or.inl
    · rintro (other | ⟨impossible, -⟩)
      · exact other
      · exact (Nat.lt_irrefl n impossible).elim
  · rw [r.diff_split split, isRun_union (by omega), isRun_diff r]
    · constructor
      · rintro (other | ⟨rfl, rfl⟩)
        · exact Or.inl other
        · exact Or.inr ⟨split, rfl, rfl⟩
      · rintro (other | ⟨-, rfl, rfl⟩)
        · exact Or.inl other
        · exact Or.inr ⟨rfl, rfl⟩
    · exact fun k lo hi inside => inside.2 ⟨by omega, by omega⟩
    · exact fun k next inside => inside.2 ⟨by omega, by omega⟩
    · rw [show h + n + (c - n) = h + c by omega]
      exact fun inside => r.right inside.1

theorem not_isRun_empty : ¬ IsRun ∅ h c := fun r => r.head_mem

/-- A full initial segment is one run. -/
theorem isRun_Iio {n : Nat} : IsRun (Set.Iio n) h c ↔ h = 0 ∧ c = n ∧ 0 < n := by
  constructor
  · intro r
    have last : h + c - 1 < n := r.last_mem
    have stop : ¬ h + c < n := r.right
    have := r.pos
    have first : h = 0 := by
      by_contra later
      exact r.left (h - 1) (by omega) (show h - 1 < n by omega)
    omega
  · rintro ⟨rfl, rfl, pos⟩
    exact ⟨pos, fun k _ hi => show k < c by omega, fun k next => by omega, by simp⟩

end Surgery

end Foundations
