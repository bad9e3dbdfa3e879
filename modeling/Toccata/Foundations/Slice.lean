import Mathlib.Logic.Function.Basic
import Mathlib.Tactic.Common

/-! # Fixed-length slices with checked indexing

A slice is allocated once and never grows. Indexing outside it is a panic, so
checked reads and writes answer `none` there; the total readers below are only
meaningful under a bound which the caller has already established.
-/

namespace Foundations

/-- A boxed slice: its length, and the contents of every cell. Cells at or past
    `len` carry no information and are never read by the checked accessors. -/
structure Slice (α : Type) where
  len : Nat
  cell : Nat → α

namespace Slice

variable {α : Type}

def replicate (n : Nat) (v : α) : Slice α := ⟨n, fun _ => v⟩

/-- Checked read: `none` is the out-of-bounds panic. -/
def get? (s : Slice α) (i : Nat) : Option α :=
  if i < s.len then some (s.cell i) else none

def put (s : Slice α) (i : Nat) (v : α) : Slice α :=
  { s with cell := Function.update s.cell i v }

/-- Checked write: `none` is the out-of-bounds panic. -/
def set? (s : Slice α) (i : Nat) (v : α) : Option (Slice α) :=
  if i < s.len then some (s.put i v) else none

@[simp] theorem replicate_len (n : Nat) (v : α) : (replicate n v).len = n := rfl

@[simp] theorem replicate_cell (n : Nat) (v : α) (i : Nat) : (replicate n v).cell i = v := rfl

@[simp] theorem put_len (s : Slice α) (i : Nat) (v : α) : (s.put i v).len = s.len := rfl

theorem put_cell (s : Slice α) (i j : Nat) (v : α) :
    (s.put i v).cell j = if j = i then v else s.cell j := by
  simp only [put, Function.update_apply]

@[simp] theorem put_cell_same (s : Slice α) (i : Nat) (v : α) : (s.put i v).cell i = v := by
  simp only [put_cell, if_true]

theorem put_cell_other {s : Slice α} {i j : Nat} {v : α} (different : j ≠ i) :
    (s.put i v).cell j = s.cell j := by
  simp only [put_cell, if_neg different]

theorem get?_inside {s : Slice α} {i : Nat} (inside : i < s.len) : s.get? i = some (s.cell i) :=
  if_pos inside

theorem set?_inside {s : Slice α} {i : Nat} (inside : i < s.len) (v : α) :
    s.set? i v = some (s.put i v) :=
  if_pos inside

/-! ## Ranges -/

/-- The cells below `n`, in order. -/
def front (s : Slice α) (n : Nat) : List α := (List.range n).map s.cell

/-- Write entries from cell `first` on. -/
def fill (s : Slice α) (first : Nat) (xs : List α) : Slice α :=
  { s with cell := fun i => if first ≤ i then (xs[i - first]?).getD (s.cell i) else s.cell i }

/-- Reverse the cells `[lo, hi)`. -/
def reverse (s : Slice α) (lo hi : Nat) : Slice α :=
  { s with cell := fun i => if lo ≤ i ∧ i < hi then s.cell (lo + (hi - 1 - i)) else s.cell i }

/-- Move the cells `[lo, hi)` to `dest`; the ranges may overlap. -/
def copyWithin (s : Slice α) (lo hi dest : Nat) : Slice α :=
  { s with
    cell := fun i => if dest ≤ i ∧ i < dest + (hi - lo) then s.cell (lo + (i - dest)) else s.cell i }

@[simp] theorem front_zero (s : Slice α) : s.front 0 = [] := rfl

@[simp] theorem front_length (s : Slice α) (n : Nat) : (s.front n).length = n := by
  rw [front, List.length_map, List.length_range]

theorem front_succ (s : Slice α) (n : Nat) : s.front (n + 1) = s.front n ++ [s.cell n] := by
  rw [front, List.range_succ, List.map_append, List.map_singleton, front]

theorem front_congr {s s' : Slice α} {n : Nat} (same : ∀ i < n, s'.cell i = s.cell i) :
    s'.front n = s.front n := by
  apply List.map_congr_left
  intro i low
  exact same i (List.mem_range.mp low)

theorem front_put (s : Slice α) {i n : Nat} (v : α) (high : n ≤ i) : (s.put i v).front n = s.front n :=
  front_congr fun _ low => put_cell_other (by omega)

/-- A list that agrees with the cells one by one is the front. -/
theorem front_eq {s : Slice α} {xs : List α} (same : ∀ i, i < xs.length → xs[i]? = some (s.cell i)) :
    s.front xs.length = xs := by
  apply List.ext_getElem?
  intro i
  by_cases low : i < xs.length
  · rw [same i low, front, List.getElem?_map, List.getElem?_range low, Option.map_some]
  · rw [List.getElem?_eq_none (by rw [front_length]; omega), List.getElem?_eq_none (by omega)]

theorem front_take (s : Slice α) {k n : Nat} (low : k ≤ n) : (s.front n).take k = s.front k := by
  rw [front, ← List.map_take, List.take_range, Nat.min_eq_left low, front]

/-- Entries written at the bottom and reversed in place lie there backwards. -/
theorem front_fill_reverse (s : Slice α) (xs : List α) :
    ((s.fill 0 xs).reverse 0 xs.length).front xs.length = xs.reverse := by
  have length : xs.length = xs.reverse.length := List.length_reverse.symm
  rw [length]
  apply front_eq
  intro i low
  rw [List.length_reverse] at low
  have high : xs.length - 1 - i < xs.length := by omega
  simp only [reverse, fill, List.length_reverse, Nat.zero_le, low, and_self, if_true, Nat.zero_add,
    Nat.sub_zero]
  rw [List.getElem?_reverse low, List.getElem?_eq_getElem high, Option.getD_some]

/-- Cells moved to the bottom are what was there without its first `k`. -/
theorem front_copyWithin (s : Slice α) (k n : Nat) :
    (s.copyWithin k n 0).front (n - k) = (s.front n).drop k := by
  have length : n - k = ((s.front n).drop k).length := by rw [List.length_drop, front_length]
  rw [length]
  apply front_eq
  intro i low
  rw [List.length_drop, front_length] at low
  rw [List.getElem?_drop, front, List.getElem?_map, List.getElem?_range (by omega), Option.map_some]
  simp only [copyWithin, Nat.zero_le, Nat.zero_add, Nat.sub_zero, low, and_self, if_true]

end Slice

end Foundations
