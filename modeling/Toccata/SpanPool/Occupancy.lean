import Toccata.SpanPool
import Mathlib.Data.Set.Insert

/-! # The two-level occupancy bitmap

`Occupied B` ties both bitmap levels to the set `B` of nonempty buckets. Setting
and clearing a bucket move that set by one element, and the search returns the
least element at or above its argument.
-/

namespace Toccata.SpanPool

open Foundations

/-- Both levels record exactly `B`. Summary bits past the last `l0` word are
    clear, so the closing scan cannot be led outside `l0`. -/
structure Occupied (p : SpanPool) (B : Set Nat) : Prop where
  small : ∀ c ∈ B, c < 2 ^ 32
  summarized : p.l0.len ≤ p.l1.len * 64
  within : ∀ c ∈ B, c < p.l0.len * 64
  level0 : ∀ c, c < p.l0.len * 64 → ((p.l0.cell (c / 64)).getLsbD (c % 64) = true ↔ c ∈ B)
  level1 : ∀ i, i < p.l1.len * 64 →
    ((p.l1.cell (i / 64)).getLsbD (i % 64) = true ↔ i < p.l0.len ∧ p.l0.cell i ≠ 0#64)

namespace Occupied

variable {p : SpanPool} {B : Set Nat}

/-- A bit of one `l0` word, addressed by word and position. -/
theorem bit0 (o : p.Occupied B) {w b : Nat} (hw : w < p.l0.len) (hb : b < 64) :
    (p.l0.cell w).getLsbD b = true ↔ w * 64 + b ∈ B := by
  have bits := o.level0 (w * 64 + b) (by omega)
  rwa [show (w * 64 + b) / 64 = w by omega, show (w * 64 + b) % 64 = b by omega] at bits

theorem bit1 (o : p.Occupied B) {i b : Nat} (hi : i < p.l1.len) (hb : b < 64) :
    (p.l1.cell i).getLsbD b = true ↔
      i * 64 + b < p.l0.len ∧ p.l0.cell (i * 64 + b) ≠ 0#64 := by
  have bits := o.level1 (i * 64 + b) (by omega)
  rwa [show (i * 64 + b) / 64 = i by omega, show (i * 64 + b) % 64 = b by omega] at bits

/-- A nonempty word is one which holds an element. -/
theorem word_ne_zero (o : p.Occupied B) {w : Nat} (hw : w < p.l0.len) :
    p.l0.cell w ≠ 0#64 ↔ ∃ c ∈ B, c / 64 = w := by
  rw [Word.ne_zero_iff]
  constructor
  · rintro ⟨b, hb, set⟩
    exact ⟨w * 64 + b, (o.bit0 hw hb).mp set, by omega⟩
  · rintro ⟨c, member, rfl⟩
    exact ⟨c % 64, Nat.mod_lt _ (by omega), (o.level0 c (o.within c member)).mpr member⟩

end Occupied

variable {p : SpanPool} {B : Set Nat}

theorem bitSet_occupied (o : p.Occupied B) {c : Nat} (inside : c < p.l0.len * 64)
    (small : c < 2 ^ 32) :
    ∃ l0 l1, p.bitSet c = some { p with l0, l1 } ∧
      { p with l0, l1 }.Occupied (insert c B) ∧ l0.len = p.l0.len ∧ l1.len = p.l1.len := by
  have hw : c / 64 < p.l0.len := by omega
  have hs : c / 64 / 64 < p.l1.len := by have := o.summarized; omega
  refine ⟨p.l0.put (c / 64) (p.l0.cell (c / 64) ||| Word.bit (c % 64)),
    p.l1.put (c / 64 / 64) (p.l1.cell (c / 64 / 64) ||| Word.bit (c / 64 % 64)), ?_,
    ⟨?_, o.summarized, ?_, ?_, ?_⟩, rfl, rfl⟩
  · simp only [bitSet, Slice.get?_inside hw, Slice.set?_inside hw, Slice.get?_inside hs,
      Slice.set?_inside hs, Option.bind_eq_bind, Option.bind_some, Option.pure_def]
  · rintro d (rfl | member)
    · exact small
    · exact o.small d member
  · rintro d (rfl | member)
    · exact inside
    · exact o.within d member
  · intro d hd
    rw [Set.mem_insert_iff, ← o.level0 d hd]
    simp only [Slice.put_cell]
    by_cases same : d / 64 = c / 64
    · rw [if_pos same, BitVec.getLsbD_or, Word.getLsbD_bit, same]
      simp only [Bool.or_eq_true, decide_eq_true_eq]
      constructor
      · rintro (set | ⟨position, -⟩)
        · exact Or.inr set
        · exact Or.inl (by omega)
      · rintro (rfl | set)
        · exact Or.inr ⟨rfl, Nat.mod_lt _ (by omega)⟩
        · exact Or.inl set
    · rw [if_neg same]
      constructor
      · exact Or.inr
      · rintro (rfl | set)
        · exact (same rfl).elim
        · exact set
  · intro i hi
    have old := o.level1 i hi
    have filled : p.l0.cell (c / 64) ||| Word.bit (c % 64) ≠ 0#64 := by
      rw [Word.ne_zero_iff]
      refine ⟨c % 64, Nat.mod_lt _ (by omega), ?_⟩
      simp [Word.getLsbD_bit, Nat.mod_lt]
    simp only [Slice.put_cell, Slice.put_len]
    by_cases same : i = c / 64
    · subst same
      simp only [if_true]
      refine iff_of_true ?_ ⟨hw, filled⟩
      simp [Word.getLsbD_bit, Nat.mod_lt]
    · rw [if_neg same, ← old]
      by_cases word : i / 64 = c / 64 / 64
      · rw [if_pos word, BitVec.getLsbD_or, Word.getLsbD_bit, word]
        have apart : i % 64 ≠ c / 64 % 64 := by omega
        simp [apart]
      · rw [if_neg word]

theorem bitClear_occupied (o : p.Occupied B) {c : Nat} (inside : c < p.l0.len * 64) :
    ∃ l0 l1, p.bitClear c = some { p with l0, l1 } ∧
      { p with l0, l1 }.Occupied (B \ {c}) ∧ l0.len = p.l0.len ∧ l1.len = p.l1.len := by
  have hw : c / 64 < p.l0.len := by omega
  have hs : c / 64 / 64 < p.l1.len := by have := o.summarized; omega
  have hb : c % 64 < 64 := Nat.mod_lt _ (by omega)
  let cleared := p.l0.cell (c / 64) &&& ~~~ Word.bit (c % 64)
  have level0 : ∀ d, d < p.l0.len * 64 →
      (((p.l0.put (c / 64) cleared).cell (d / 64)).getLsbD (d % 64) = true ↔ d ∈ B \ {c}) := by
    intro d hd
    rw [Set.mem_sdiff, Set.mem_singleton_iff, ← o.level0 d hd, Slice.put_cell]
    by_cases same : d / 64 = c / 64
    · rw [if_pos same, same]
      simp only [cleared, BitVec.getLsbD_and, BitVec.getLsbD_not, Word.getLsbD_bit,
        Bool.and_eq_true, Bool.not_eq_true', decide_eq_true_eq, decide_eq_false_iff_not]
      have := Nat.mod_lt d (show 0 < 64 by omega)
      constructor
      · rintro ⟨set, -, differs⟩
        exact ⟨set, by rintro rfl; exact differs ⟨rfl, hb⟩⟩
      · rintro ⟨set, differs⟩
        exact ⟨set, this, by omega⟩
    · rw [if_neg same]
      exact ⟨fun set => ⟨set, by rintro rfl; exact same rfl⟩, fun h => h.1⟩
  have small : ∀ d ∈ B \ {c}, d < 2 ^ 32 := fun d member => o.small d member.1
  have within : ∀ d ∈ B \ {c}, d < p.l0.len * 64 := fun d member => o.within d member.1
  by_cases empty : cleared = 0#64
  · refine ⟨p.l0.put (c / 64) cleared,
      p.l1.put (c / 64 / 64) (p.l1.cell (c / 64 / 64) &&& ~~~ Word.bit (c / 64 % 64)), ?_,
      ⟨small, o.summarized, within, level0, ?_⟩, rfl, rfl⟩
    · simp only [bitClear, Slice.get?_inside hw, Slice.set?_inside hw, Slice.get?_inside hs,
        Slice.set?_inside hs, Option.bind_eq_bind, Option.bind_some, Option.pure_def]
      rw [if_pos empty]
    intro i hi
    have old := o.level1 i hi
    simp only [Slice.put_cell, Slice.put_len]
    by_cases same : i = c / 64
    · subst same
      simp only [if_true]
      refine iff_of_false ?_ (fun h => h.2 empty)
      simp [Word.getLsbD_bit, Nat.mod_lt]
    · rw [if_neg same, ← old]
      by_cases word : i / 64 = c / 64 / 64
      · rw [if_pos word, BitVec.getLsbD_and, BitVec.getLsbD_not, Word.getLsbD_bit, word]
        have apart : i % 64 ≠ c / 64 % 64 := by omega
        simp [apart, Nat.mod_lt]
      · rw [if_neg word]
  · refine ⟨p.l0.put (c / 64) cleared, p.l1, ?_,
      ⟨small, o.summarized, within, level0, ?_⟩, rfl, rfl⟩
    · simp only [bitClear, Slice.get?_inside hw, Slice.set?_inside hw,
        Option.bind_eq_bind, Option.bind_some, Option.pure_def]
      rw [if_neg empty]
    intro i hi
    have old := o.level1 i hi
    simp only [Slice.put_cell, Slice.put_len]
    by_cases same : i = c / 64
    · subst same
      rw [old, if_pos rfl]
      have before : p.l0.cell (c / 64) ≠ 0#64 := by
        intro zero
        exact empty (by simp [cleared, zero])
      exact ⟨fun h => ⟨h.1, empty⟩, fun h => ⟨h.1, before⟩⟩
    · rw [if_neg same]
      exact old

/-! ## The search -/

/-- What the search promises about its answer. -/
def Least (B : Set Nat) (c : Nat) : Option Nat → Prop
  | none => ∀ d ∈ B, d < c
  | some m => m ∈ B ∧ c ≤ m ∧ ∀ d ∈ B, c ≤ d → m ≤ d

/-- The first nonempty word at or after a position holds the least element. -/
theorem lowestIn_least (o : p.Occupied B) {c nw : Nat} (inside : nw < p.l0.len)
    (filled : p.l0.cell nw ≠ 0#64) (after : c ≤ nw * 64)
    (skipped : ∀ w < nw, c ≤ w * 64 + 63 → ∀ d ∈ B, d / 64 = w → d < c) :
    ∃ r, p.lowestIn nw = some r ∧ Least B c r := by
  have low := Word.trailingZeros_lt filled
  have member := (o.bit0 inside low).mp (Word.getLsbD_trailingZeros filled)
  have small := o.small _ member
  have exact : wrap32 (wrap32 (nw * 64) + (p.l0.cell nw).trailingZeros)
      = nw * 64 + (p.l0.cell nw).trailingZeros := by
    rw [wrap32_small (x := nw * 64) (by omega), wrap32_small (by omega)]
  refine ⟨some (nw * 64 + (p.l0.cell nw).trailingZeros), ?_, ?_, by omega, ?_⟩
  · simp only [lowestIn, Slice.get?_inside inside, Option.bind_eq_bind, Option.bind_some,
      Option.pure_def, exact]
  · exact member
  · intro d member above
    rcases Nat.lt_trichotomy (d / 64) nw with earlier | same | later
    · have := skipped (d / 64) earlier (by omega) d member rfl
      omega
    · have set := (o.level0 d (o.within d member)).mpr member
      rw [same] at set
      have := Word.trailingZeros_le set
      omega
    · omega

theorem scanSummary_least (o : p.Occupied B) {c : Nat} : ∀ steps li, li + steps = p.l1.len →
    c ≤ li * 64 * 64 → (∀ d ∈ B, d / 64 < li * 64 → d < c) →
    ∃ r, p.scanSummary steps li = some r ∧ Least B c r := by
  intro steps
  induction steps with
  | zero =>
      intro li all after skipped
      refine ⟨none, rfl, fun d member => skipped d member ?_⟩
      have := o.within d member
      have := o.summarized
      omega
  | succ steps ih =>
      intro li all after skipped
      have inside : li < p.l1.len := by omega
      simp only [scanSummary, Slice.get?_inside inside, Option.bind_eq_bind, Option.bind_some]
      by_cases filled : p.l1.cell li ≠ 0#64
      · rw [if_pos filled]
        have low := Word.trailingZeros_lt filled
        obtain ⟨hw, word⟩ := (o.bit1 inside low).mp (Word.getLsbD_trailingZeros filled)
        refine lowestIn_least o hw word (by omega) ?_
        intro w before _ d member same
        by_cases earlier : w < li * 64
        · exact skipped d member (by omega)
        -- a word between the start of this summary word and its lowest bit is empty
        · exfalso
          have wInside : w < p.l0.len := by have := o.within d member; omega
          have nonempty := (o.word_ne_zero wInside).mpr ⟨d, member, same⟩
          have set := (o.bit1 inside (b := w - li * 64) (by omega)).mpr
            (by rw [show li * 64 + (w - li * 64) = w by omega]; exact ⟨wInside, nonempty⟩)
          have := Word.trailingZeros_le set
          omega
      · rw [if_neg filled]
        refine ih (li + 1) (by omega) (by omega) ?_
        intro d member before
        by_cases earlier : d / 64 < li * 64
        · exact skipped d member earlier
        · exfalso
          have wInside : d / 64 < p.l0.len := by have := o.within d member; omega
          have nonempty := (o.word_ne_zero wInside).mpr ⟨d, member, rfl⟩
          have set := (o.bit1 inside (b := d / 64 - li * 64) (by omega)).mpr
            (by rw [show li * 64 + (d / 64 - li * 64) = d / 64 by omega]; exact ⟨wInside, nonempty⟩)
          exact filled (Word.ne_zero_iff.mpr ⟨_, by omega, set⟩)

/-- The search never indexes outside the bitmaps and returns the least occupied
    bucket at or above `c`. -/
theorem findFirstSetGe_least (o : p.Occupied B) (c : Nat) :
    ∃ r, p.findFirstSetGe c = some r ∧ Least B c r := by
  unfold findFirstSetGe
  by_cases beyond : p.l0.len * 64 ≤ c
  · refine ⟨none, by simp only [if_pos beyond, Option.pure_def], ?_⟩
    intro d member
    have := o.within d member
    omega
  have hw : c / 64 < p.l0.len := by omega
  have hs : c / 64 / 64 < p.l1.len := by have := o.summarized; omega
  simp only [if_neg beyond, Slice.get?_inside hw, Option.bind_eq_bind, Option.bind_some,
    Option.pure_def]
  have masked_bit : ∀ b, (p.l0.cell (c / 64) &&& (BitVec.allOnes 64 <<< (c % 64))).getLsbD b = true ↔
      (p.l0.cell (c / 64)).getLsbD b = true ∧ c % 64 ≤ b ∧ b < 64 := by
    intro b
    rw [BitVec.getLsbD_and, Word.getLsbD_high, Bool.and_eq_true, decide_eq_true_eq]
  by_cases here : p.l0.cell (c / 64) &&& (BitVec.allOnes 64 <<< (c % 64)) ≠ 0#64
  · rw [if_pos here]
    have low := Word.trailingZeros_lt here
    obtain ⟨set, above, -⟩ := (masked_bit _).mp (Word.getLsbD_trailingZeros here)
    refine ⟨_, rfl, ?_⟩
    have found := (o.bit0 hw low).mp set
    have small := o.small _ found
    rw [wrap32_small (x := c / 64 * 64) (by omega), wrap32_small (by omega)]
    refine ⟨found, by omega, ?_⟩
    intro d member after
    by_cases same : d / 64 = c / 64
    · have bits := (o.level0 d (o.within d member)).mpr member
      rw [same] at bits
      have := Word.trailingZeros_le ((masked_bit _).mpr ⟨bits, by omega, Nat.mod_lt _ (by omega)⟩)
      omega
    · omega
  · rw [if_neg here]
    -- nothing of `B` lies in the starting word at or above `c`
    have clear : ∀ d ∈ B, d / 64 = c / 64 → d < c := by
      intro d member same
      by_contra above
      refine here (Word.ne_zero_iff.mpr ⟨d % 64, Nat.mod_lt _ (by omega), (masked_bit _).mpr ⟨?_, by omega,
        Nat.mod_lt _ (by omega)⟩⟩)
      have bits := (o.level0 d (o.within d member)).mpr member
      rwa [same] at bits
    have tail : (∀ d ∈ B, c / 64 < d / 64 → d / 64 < (c / 64 / 64 + 1) * 64 → False) →
        ∃ r, p.scanSummary (p.l1.len - (c / 64 / 64 + 1)) (c / 64 / 64 + 1) = some r ∧ Least B c r := by
      intro none
      refine scanSummary_least o _ _ (by omega) (by omega) ?_
      intro d member before
      rcases Nat.lt_trichotomy (d / 64) (c / 64) with lt | eq | gt
      · omega
      · exact clear d member eq
      · exact (none d member gt before).elim
    by_cases wb : c / 64 % 64 < 63
    · simp only [if_pos wb, Slice.get?_inside hs, Option.bind_some]
      have rest_bit : ∀ b, (p.l1.cell (c / 64 / 64) &&& (BitVec.allOnes 64 <<< (c / 64 % 64 + 1))).getLsbD b = true ↔
          (p.l1.cell (c / 64 / 64)).getLsbD b = true ∧ c / 64 % 64 + 1 ≤ b ∧ b < 64 := by
        intro b
        rw [BitVec.getLsbD_and, Word.getLsbD_high, Bool.and_eq_true, decide_eq_true_eq]
      -- a word of this summary group after the starting one shows in the masked summary
      have shows : ∀ d ∈ B, c / 64 < d / 64 → d / 64 < (c / 64 / 64 + 1) * 64 →
          (p.l1.cell (c / 64 / 64) &&& (BitVec.allOnes 64 <<< (c / 64 % 64 + 1))).getLsbD
            (d / 64 - c / 64 / 64 * 64) = true := by
        intro d member after before
        have wInside : d / 64 < p.l0.len := by have := o.within d member; omega
        refine (rest_bit _).mpr ⟨?_, by omega, by omega⟩
        refine (o.bit1 hs (by omega)).mpr ?_
        rw [show c / 64 / 64 * 64 + (d / 64 - c / 64 / 64 * 64) = d / 64 by omega]
        exact ⟨wInside, (o.word_ne_zero wInside).mpr ⟨d, member, rfl⟩⟩
      by_cases more : p.l1.cell (c / 64 / 64) &&& (BitVec.allOnes 64 <<< (c / 64 % 64 + 1)) ≠ 0#64
      · rw [if_pos more]
        have low := Word.trailingZeros_lt more
        obtain ⟨set, above, -⟩ := (rest_bit _).mp (Word.getLsbD_trailingZeros more)
        obtain ⟨hn, word⟩ := (o.bit1 hs low).mp set
        refine lowestIn_least o hn word (by omega) ?_
        intro w before reach d member same
        rcases Nat.lt_trichotomy w (c / 64) with lt | eq | gt
        · omega
        · exact clear d member (by omega)
        · have := Word.trailingZeros_le (shows d member (by omega) (by omega))
          omega
      · rw [if_neg more]
        refine tail (fun d member after before => more ?_)
        exact Word.ne_zero_iff.mpr ⟨_, by omega, shows d member after before⟩
    · simp only [if_neg wb, ne_eq, not_true_eq_false, if_false]
      exact tail (fun d member after before => by omega)

/-! ## Any sequence of updates -/

theorem new_occupied (numSpans : Nat) : (new numSpans).Occupied ∅ := by
  unfold new
  refine ⟨by simp, ?_, by simp, ?_, ?_⟩
  · simp only [Slice.replicate_len]
    omega
  · intro c _
    simp
  · intro i _
    simp

/-- One update of the occupancy. -/
inductive BitOp where
  | set (c : Nat)
  | clear (c : Nat)
deriving Repr, DecidableEq

namespace BitOp

def bucket : BitOp → Nat
  | .set c | .clear c => c

def run (p : SpanPool) : BitOp → Option SpanPool
  | .set c => p.bitSet c
  | .clear c => p.bitClear c

/-- What an update does to the set of occupied buckets. -/
def track (B : Set Nat) : BitOp → Set Nat
  | .set c => insert c B
  | .clear c => B \ {c}

end BitOp

/-- Updates one after the other. -/
def updates (p : SpanPool) (ops : List BitOp) : Option SpanPool := ops.foldlM BitOp.run p

/-- The buckets that were set and not cleared since. -/
def occupiedAfter (B : Set Nat) (ops : List BitOp) : Set Nat := ops.foldl BitOp.track B

theorem update_occupied (o : p.Occupied B) {op : BitOp} (inside : op.bucket < p.l0.len * 64)
    (small : op.bucket < 2 ^ 32) :
    ∃ p', op.run p = some p' ∧ p'.Occupied (op.track B) ∧ p'.l0.len = p.l0.len := by
  cases op with
  | set c =>
      obtain ⟨l0, l1, run, occupied, same, -⟩ := bitSet_occupied o inside small
      exact ⟨_, run, occupied, same⟩
  | clear c =>
      obtain ⟨l0, l1, run, occupied, same, -⟩ := bitClear_occupied o inside
      exact ⟨_, run, occupied, same⟩

theorem updates_occupied (o : p.Occupied B) {ops : List BitOp}
    (inside : ∀ op ∈ ops, op.bucket < p.l0.len * 64 ∧ op.bucket < 2 ^ 32) :
    ∃ p', p.updates ops = some p' ∧ p'.Occupied (occupiedAfter B ops) := by
  induction ops generalizing p B with
  | nil => exact ⟨p, rfl, o⟩
  | cons op ops ih =>
      obtain ⟨first, others⟩ := List.forall_mem_cons.mp inside
      obtain ⟨p₁, run, o₁, len⟩ := update_occupied o first.1 first.2
      rw [← len] at others
      obtain ⟨p', rest, o'⟩ := ih o₁ others
      refine ⟨p', ?_, o'⟩
      rw [updates, List.foldlM_cons, run]
      exact rest

/-- After any updates of buckets that exist, the search from any index is in bounds and
    finds the least occupied bucket from there on. -/
theorem search_exact (numSpans : Nat) (ops : List BitOp)
    (buckets : ∀ op ∈ ops, op.bucket ≤ max numSpans 1 ∧ op.bucket < 2 ^ 32) :
    ∃ p, (new numSpans).updates ops = some p ∧
      ∀ c, ∃ r, p.findFirstSetGe c = some r ∧ Least (occupiedAfter ∅ ops) c r := by
  have words : ∀ op ∈ ops, op.bucket < (new numSpans).l0.len * 64 ∧ op.bucket < 2 ^ 32 := by
    intro op member
    obtain ⟨low, small⟩ := buckets op member
    refine ⟨?_, small⟩
    simp only [new, Slice.replicate_len]
    omega
  obtain ⟨p, run, occupied⟩ := updates_occupied (new_occupied numSpans) words
  exact ⟨p, run, fun c => findFirstSetGe_least occupied c⟩

/-- The answer lies in the second summary word, past a word that was emptied again. -/
theorem search_exact_second_summary : ∃ p, (new 5000).updates [.set 70, .set 4500, .clear 70] = some p ∧
    p.findFirstSetGe 3 = some (some 4500) := by
  obtain ⟨p, run, search⟩ := search_exact 5000 [.set 70, .set 4500, .clear 70] (by decide)
  obtain ⟨r, found, least⟩ := search 3
  refine ⟨p, run, ?_⟩
  cases r with
  | none =>
      have : 4500 < 3 := least 4500 (by simp [occupiedAfter, BitOp.track])
      omega
  | some m =>
      obtain ⟨member, -⟩ := least
      have only : m = 4500 := by
        simp only [occupiedAfter, BitOp.track, List.foldl_cons, List.foldl_nil, Set.mem_sdiff,
          Set.mem_insert_iff, Set.mem_empty_iff_false, or_false, Set.mem_singleton_iff] at member
        omega
      rw [found, only]

end Toccata.SpanPool
