import Toccata.Foundations.Word
import Mathlib.Logic.Function.Basic
import Mathlib.Data.Finset.Card
import Mathlib.Data.List.Sort
import Mathlib.Order.Interval.Finset.Nat
import Mathlib.Tactic.NormNum

/-! # Bitmaps kept in words

A bitmap is a sequence of words; its bit `i` is bit `i % 64` of word `i / 64`.
Updates are of whole words, and everything else is said about single bits.
-/

namespace Foundations

namespace Word

/-- The mask with exactly the bits listed. -/
def maskOf : List Nat → Word
  | [] => 0#64
  | i :: rest => bit i ||| maskOf rest

/-- Up to `room` set bits of a word, the lowest first. -/
def lowest : Nat → Word → List Nat
  | 0, _ => []
  | room + 1, w =>
      if w = 0#64 then [] else
        w.trailingZeros :: lowest room (w &&& ~~~ bit w.trailingZeros)

theorem getLsbD_maskOf (bits : List Nat) (i : Nat) :
    (maskOf bits).getLsbD i = decide (i ∈ bits ∧ i < 64) := by
  induction bits with
  | nil => simp [maskOf]
  | cons b rest ih =>
      rw [maskOf, BitVec.getLsbD_or, ih, getLsbD_bit]
      by_cases same : i = b
      · subst same
        simp
      · simp [same]

theorem getLsbD_clear (w : Word) {i j : Nat} (inside : i < 64) :
    (w &&& ~~~ bit i).getLsbD j = (w.getLsbD j && decide (j ≠ i)) := by
  rw [BitVec.getLsbD_and, BitVec.getLsbD_not, getLsbD_bit]
  by_cases high : j < 64
  · by_cases same : j = i <;> simp [high, same, inside]
  · simp [getLsbD_outside (Nat.le_of_not_lt high)]

/-- `(1 << n) - 1` has the bits below `n`. -/
theorem getLsbD_low {n i : Nat} (inside : n < 64) :
    (bit n - 1#64).getLsbD i = decide (i < n) := by
  have value : (bit n - 1#64).toNat = 2 ^ n - 1 := by
    have small : 2 ^ n < 2 ^ 64 := Nat.pow_lt_pow_right (by decide) inside
    have pos : 0 < 2 ^ n := Nat.two_pow_pos n
    rw [bit, BitVec.toNat_sub, BitVec.toNat_shiftLeft, BitVec.toNat_ofNat, Nat.shiftLeft_eq]
    norm_num
    have : 18446744073709551615 + 2 ^ n = (2 ^ n - 1) + 18446744073709551616 := by omega
    rw [this, Nat.add_mod_right, Nat.mod_eq_of_lt (by omega)]
  rw [BitVec.getLsbD, value, Nat.testBit_two_pow_sub_one]

theorem set_of_mem_lowest {room : Nat} {w : Word} {i : Nat} (member : i ∈ lowest room w) :
    w.getLsbD i = true := by
  induction room generalizing w with
  | zero => simp [lowest] at member
  | succ room ih =>
      rw [lowest] at member
      split at member
      · simp at member
      · rename_i nonzero
        rcases List.mem_cons.mp member with rfl | later
        · exact getLsbD_trailingZeros nonzero
        · have kept := ih later
          rw [getLsbD_clear w (trailingZeros_lt nonzero), Bool.and_eq_true] at kept
          exact kept.1

theorem lt_of_mem_lowest {room : Nat} {w : Word} {i : Nat} (member : i ∈ lowest room w) :
    i < 64 := by
  by_contra high
  have set := set_of_mem_lowest member
  rw [getLsbD_outside (Nat.le_of_not_lt high)] at set
  cases set

theorem lowest_nodup (room : Nat) (w : Word) : (lowest room w).Nodup := by
  induction room generalizing w with
  | zero => simp [lowest]
  | succ room ih =>
      rw [lowest]
      split
      · exact List.nodup_nil
      · rename_i nonzero
        refine List.nodup_cons.mpr ⟨fun again => ?_, ih _⟩
        have kept := set_of_mem_lowest again
        rw [getLsbD_clear w (trailingZeros_lt nonzero)] at kept
        simp at kept

theorem lowest_length (room : Nat) (w : Word) : (lowest room w).length ≤ room := by
  induction room generalizing w with
  | zero => simp [lowest]
  | succ room ih =>
      rw [lowest]
      split
      · simp
      · exact Nat.succ_le_succ (ih _)

/-- The set positions, the lowest first. -/
def positions (w : Word) : List Nat := (List.range 64).filter fun i => w.getLsbD i

theorem mem_positions {w : Word} {i : Nat} : i ∈ w.positions ↔ w.getLsbD i = true := by
  rw [positions, List.mem_filter, List.mem_range]
  constructor
  · intro set
    exact set.2
  · intro set
    refine ⟨?_, set⟩
    by_contra high
    rw [getLsbD_outside (Nat.le_of_not_lt high)] at set
    cases set

theorem positions_sorted (w : Word) : w.positions.Pairwise (· < ·) :=
  List.pairwise_lt_range.filter _

theorem positions_zero : positions 0#64 = [] := by decide

theorem positions_cons {w : Word} (nonzero : w ≠ 0#64) :
    w.positions = w.trailingZeros :: (w &&& ~~~ bit w.trailingZeros).positions := by
  have low := trailingZeros_lt nonzero
  apply List.Pairwise.eq_of_mem_iff w.positions_sorted
  · refine List.pairwise_cons.mpr ⟨?_, positions_sorted _⟩
    intro i member
    rw [mem_positions, getLsbD_clear w low, Bool.and_eq_true, decide_eq_true_eq] at member
    exact Nat.lt_of_le_of_ne (trailingZeros_le member.1) member.2.symm
  · intro i
    rw [List.mem_cons, mem_positions, mem_positions, getLsbD_clear w low, Bool.and_eq_true,
      decide_eq_true_eq]
    constructor
    · intro set
      by_cases first : i = w.trailingZeros
      · exact .inl first
      · exact .inr ⟨set, first⟩
    · rintro (rfl | ⟨set, -⟩)
      · exact getLsbD_trailingZeros nonzero
      · exact set

theorem lowest_eq (room : Nat) (w : Word) : lowest room w = w.positions.take room := by
  induction room generalizing w with
  | zero => rfl
  | succ room ih =>
      rw [lowest]
      split
      · rename_i zero
        rw [zero, positions_zero, List.take_nil]
      · rename_i nonzero
        rw [positions_cons nonzero, List.take_succ_cons, ih]

end Word

/-- Two bits that are not both set add up to their disjunction. -/
theorem toNat_or {a b : Bool} (apart : a.toNat + b.toNat ≤ 1) :
    (a || b).toNat = a.toNat + b.toNat := by
  revert apart
  cases a <;> cases b <;> decide

/-- A bit cleared where `m` is set. -/
theorem toNat_and_not {a m : Bool} (within : m = true → a = true) :
    (a && !m).toNat + m.toNat = a.toNat := by
  revert within
  cases a <;> cases m <;> decide

def bitAt (words : Nat → Word) (i : Nat) : Bool := (words (i / 64)).getLsbD (i % 64)

theorem bitAt_update (words : Nat → Word) (w : Nat) (v : Word) (i : Nat) :
    bitAt (Function.update words w v) i =
      if i / 64 = w then v.getLsbD (i % 64) else bitAt words i := by
  rw [bitAt, Function.update_apply]
  split <;> rfl

theorem bitAt_word {words : Nat → Word} {w b : Nat} (inside : b < 64) :
    bitAt words (w * 64 + b) = (words w).getLsbD b := by
  rw [bitAt, show (w * 64 + b) / 64 = w by omega, show (w * 64 + b) % 64 = b by omega]

/-- The bits set in the first `n` words, word by word. -/
def countBelow (words : Nat → Word) : Nat → Nat
  | 0 => 0
  | n + 1 => countBelow words n + (words n).countOnes

theorem countBelow_congr {words words' : Nat → Word} {n : Nat}
    (same : ∀ w, w < n → words w = words' w) : countBelow words n = countBelow words' n := by
  induction n with
  | zero => rfl
  | succ n ih =>
      rw [countBelow, countBelow, ih fun w below => same w (by omega), same n (by omega)]

theorem countBelow_eq_card (words : Nat → Word) (n : Nat) :
    countBelow words n = ((Finset.range (n * 64)).filter fun i => bitAt words i = true).card := by
  induction n with
  | zero => simp [countBelow]
  | succ n ih =>
      have split : Finset.range ((n + 1) * 64) =
          Finset.range (n * 64) ∪ (Finset.range 64).map (addLeftEmbedding (n * 64)) := by
        ext i
        simp only [Finset.mem_range, Finset.mem_union, Finset.mem_map, addLeftEmbedding_apply]
        constructor
        · intro inside
          by_cases low : i < n * 64
          · exact .inl low
          · exact .inr ⟨i - n * 64, by omega, by omega⟩
        · rintro (low | ⟨b, inside, rfl⟩) <;> omega
      have apart : Disjoint (Finset.range (n * 64))
          ((Finset.range 64).map (addLeftEmbedding (n * 64))) := by
        rw [Finset.disjoint_left]
        intro i low high
        obtain ⟨b, -, rfl⟩ := Finset.mem_map.mp high
        simp only [Finset.mem_range, addLeftEmbedding_apply] at low
        omega
      rw [countBelow, ih, split, Finset.filter_union,
        Finset.card_union_of_disjoint (Finset.disjoint_filter_filter apart), Finset.filter_map,
        Finset.card_map, Word.countOnes_eq_card]
      congr 2
      refine Finset.filter_congr fun b member => ?_
      rw [Function.comp_apply, addLeftEmbedding_apply, bitAt_word (Finset.mem_range.mp member)]

/-- A bitmap with no bits past `slots` that counts `slots` of them is full. -/
theorem full_of_countBelow {words : Nat → Word} {n slots : Nat}
    (tiled : ∀ i, i < n * 64 → bitAt words i = true → i < slots)
    (counted : countBelow words n = slots) {i : Nat} (inside : i < slots) :
    bitAt words i = true := by
  have subset : (Finset.range (n * 64)).filter (fun i => bitAt words i = true) ⊆
      Finset.range slots := by
    intro j member
    obtain ⟨low, set⟩ := Finset.mem_filter.mp member
    exact Finset.mem_range.mpr (tiled j (Finset.mem_range.mp low) set)
  have all := Finset.eq_of_subset_of_card_le subset (by
    rw [← countBelow_eq_card, counted, Finset.card_range])
  have member : i ∈ (Finset.range (n * 64)).filter fun i => bitAt words i = true :=
    all ▸ Finset.mem_range.mpr inside
  exact (Finset.mem_filter.mp member).2

end Foundations
