import Mathlib.Data.BitVec
import Mathlib.Algebra.BigOperators.Group.Finset.Basic
import Mathlib.Tactic.Common

/-! # 64-bit words read as sets of bit positions

Masks, the lowest set bit and the population count of a machine word, stated in
terms of single bits, so that bitmap proofs never look at the value of a word.
-/

namespace Foundations

/-- A machine word. -/
abbrev Word := BitVec 64

namespace Word

/-- The mask with only bit `i`. -/
def bit (i : Nat) : Word := 1#64 <<< i

/-- The number of trailing zero bits; 64 on the zero word. -/
def trailingZeros (w : Word) : Nat := w.ctz.toNat

/-- The number of one bits. -/
def countOnes (w : Word) : Nat := w.cpop.toNat

theorem getLsbD_bit (i j : Nat) : (bit i).getLsbD j = decide (j = i ∧ i < 64) := by
  rw [bit, ← BitVec.twoPow_eq, BitVec.getLsbD_twoPow]
  by_cases inside : i < 64 <;> by_cases same : j = i <;> simp_all [eq_comm]

theorem getLsbD_outside {w : Word} {i : Nat} (outside : 64 ≤ i) : w.getLsbD i = false :=
  BitVec.getLsbD_of_ge w i outside

theorem eq_zero_iff {w : Word} : w = 0#64 ↔ ∀ i < 64, w.getLsbD i = false := by
  constructor
  · rintro rfl i -
    exact BitVec.getLsbD_zero
  · intro clear
    apply BitVec.eq_of_getLsbD_eq
    intro i inside
    rw [clear i inside, BitVec.getLsbD_zero]

theorem ne_zero_iff {w : Word} : w ≠ 0#64 ↔ ∃ i < 64, w.getLsbD i = true := by
  rw [Ne, eq_zero_iff]
  push Not
  simp only [Bool.not_eq_false]

theorem trailingZeros_lt {w : Word} (nonzero : w ≠ 0#64) : w.trailingZeros < 64 := by
  have small := BitVec.lt_def.mp (BitVec.ctz_lt_iff_ne_zero.mpr nonzero)
  exact small

theorem getLsbD_trailingZeros {w : Word} (nonzero : w ≠ 0#64) :
    w.getLsbD w.trailingZeros = true :=
  BitVec.getLsbD_true_ctz_of_ne_zero nonzero

theorem trailingZeros_le {w : Word} {i : Nat} (set : w.getLsbD i = true) : w.trailingZeros ≤ i := by
  by_contra early
  have clear := BitVec.getLsbD_false_of_lt_ctz (x := w) (i := i) (by simpa [trailingZeros] using early)
  rw [set] at clear
  cases clear

theorem getLsbD_high (b i : Nat) :
    (BitVec.allOnes 64 <<< b).getLsbD i = decide (b ≤ i ∧ i < 64) := by
  rw [BitVec.getLsbD_shiftLeft, BitVec.getLsbD_allOnes]
  by_cases lo : b ≤ i
  · by_cases hi : i < 64 <;> simp [lo, hi]
    omega
  · simp [lo, Nat.lt_of_not_le lo]

/-- The population count counts the set positions. -/
theorem countOnes_eq_card (w : Word) :
    w.countOnes = ((Finset.range 64).filter (fun i => w.getLsbD i = true)).card := by
  have general : ∀ n, BitVec.cpopNatRec w n 0
      = ((Finset.range n).filter (fun i => w.getLsbD i = true)).card := by
    intro n
    induction n with
    | zero => simp
    | succ n ih =>
        rw [BitVec.cpopNatRec_succ, BitVec.cpopNatRec_eq, ih, Finset.range_add_one,
          Finset.filter_insert]
        cases set : w.getLsbD n with
        | false => simp
        | true => simp
  rw [countOnes, BitVec.toNat_cpop, general]

end Word

/-- A 64-bit result after wrap-around. -/
def wrap64 (x : Nat) : Nat := x % 2 ^ 64

/-- A `u32` result after wrap-around. -/
def wrap32 (x : Nat) : Nat := x % 2 ^ 32

/-- A `u16` result after truncation. -/
def wrap16 (x : Nat) : Nat := x % 2 ^ 16

theorem wrap64_small {x : Nat} (small : x < 2 ^ 64) : wrap64 x = x := Nat.mod_eq_of_lt small

theorem wrap32_small {x : Nat} (small : x < 2 ^ 32) : wrap32 x = x := Nat.mod_eq_of_lt small

theorem wrap16_small {x : Nat} (small : x < 2 ^ 16) : wrap16 x = x := Nat.mod_eq_of_lt small

end Foundations
