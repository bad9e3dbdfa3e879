import Toccata.Foundations.Bitmap
import Toccata.SpanPool

/-! # Span metadata

The arena is cut into spans of 64 KiB. Each span has two bitmaps over its slots: the
free bits its owner may hand out, and those deposited since by other threads. It has
a link of its cell's active list, and an entry of the table that recovers class and
home from a pointer. The arrays are sized at build time and indexed by spans of the
arena, so they are total here.
-/

namespace Toccata

open Foundations

def spanBytes : Nat := 65536

/-- Words per span in either bitmap. -/
def spanBitmapWords : Nat := 128

structure SpanBitmaps where
  base : Nat
  /-- Free slots of the owner, touched under its lock only. -/
  allocWords : Nat → Nat → Word
  /-- Slots freed by others and not folded yet. -/
  freeWords : Nat → Nat → Word
  nextActive : Nat → Nat
  onList : Nat → Bool

namespace SpanBitmaps

def new (base : Nat) : SpanBitmaps where
  base := base
  allocWords _ _ := 0#64
  freeWords _ _ := 0#64
  nextActive _ := noSpan
  onList _ := false

def spanOf (b : SpanBitmaps) (ptr : Nat) : Nat := wrap32 ((ptr - b.base) / spanBytes)

def spanBase (b : SpanBitmaps) (idx : Nat) : Nat := b.base + idx * spanBytes

/-- The span, bitmap word and bit of an object. -/
def locate (b : SpanBitmaps) (ptr osz : Nat) : Nat × Nat × Nat :=
  let span := b.spanOf ptr
  let slot := (ptr - b.spanBase span) / osz
  (span, slot / 64, slot % 64)

def next (b : SpanBitmaps) (idx : Nat) : Nat := b.nextActive idx

def putAlloc (b : SpanBitmaps) (idx w : Nat) (v : Word) : SpanBitmaps :=
  { b with allocWords := Function.update b.allocWords idx (Function.update (b.allocWords idx) w v) }

def putFree (b : SpanBitmaps) (idx w : Nat) (v : Word) : SpanBitmaps :=
  { b with freeWords := Function.update b.freeWords idx (Function.update (b.freeWords idx) w v) }

/-- Push `idx` on an active list whose head is `head`. -/
def linkFront (b : SpanBitmaps) (idx head : Nat) : SpanBitmaps :=
  { b with
    nextActive := Function.update b.nextActive idx head
    onList := Function.update b.onList idx true }

/-- Deposit a mask of free bits. -/
def setMask (b : SpanBitmaps) (idx w : Nat) (mask : Word) : SpanBitmaps :=
  b.putFree idx w (b.freeWords idx w ||| mask)

/-- Deposit one free bit. -/
def set (b : SpanBitmaps) (idx slot : Nat) : SpanBitmaps :=
  b.setMask idx (slot / 64) (Word.bit (slot % 64))

/-- Move the deposits of a word to its owner's side. -/
def foldFreeWord (b : SpanBitmaps) (idx w : Nat) : Word × SpanBitmaps :=
  if b.freeWords idx w = 0#64 then (b.allocWords idx w, b) else
    let incoming := b.freeWords idx w
    let b := b.putFree idx w 0#64
    let merged := b.allocWords idx w ||| incoming
    (merged, b.putAlloc idx w merged)

def allocSetMask (b : SpanBitmaps) (idx w : Nat) (mask : Word) : SpanBitmaps :=
  b.putAlloc idx w (b.allocWords idx w ||| mask)

def allocClear (b : SpanBitmaps) (idx w : Nat) (taken : Word) : SpanBitmaps :=
  b.putAlloc idx w (b.allocWords idx w &&& ~~~ taken)

/-- Fold the words from `w` on, `left` of them, counting free bits. -/
def foldCount (idx : Nat) : Nat → Nat → Nat → SpanBitmaps → Nat × SpanBitmaps
  | 0, _, count, b => (count, b)
  | left + 1, w, count, b =>
      let (word, b) := b.foldFreeWord idx w
      foldCount idx left (w + 1) (count + word.countOnes) b

/-- Whether every slot is a free bit, folding on the way. -/
def isFullyFree (b : SpanBitmaps) (idx slotsPerSpan : Nat) : Bool × SpanBitmaps :=
  let nwords := (slotsPerSpan + 63) / 64
  let (freeCount, b) := foldCount idx nwords 0 0 b
  if freeCount ≠ slotsPerSpan then (false, b) else
    ((List.range nwords).all fun w => b.freeWords idx w = 0#64, b)

/-- Take `idx` off an active list, given its predecessor there; the new head. -/
def unlinkActive (b : SpanBitmaps) (idx prev head : Nat) : Nat × SpanBitmaps :=
  let succ := b.nextActive idx
  let (newHead, nextActive) :=
    if prev = noSpan then (succ, b.nextActive)
    else (head, Function.update b.nextActive prev succ)
  (newHead, { b with
    nextActive := Function.update nextActive idx noSpan
    onList := Function.update b.onList idx false })

/-- Mark `perSpan` fresh slots free, whole words first. -/
def tileWords (b : SpanBitmaps) (span : Nat) : Nat → SpanBitmaps
  | 0 => b
  | n + 1 => (b.tileWords span n).allocSetMask span n (BitVec.allOnes 64)

def tileSpan (b : SpanBitmaps) (span perSpan : Nat) : SpanBitmaps :=
  let b := b.tileWords span (perSpan / 64)
  if perSpan % 64 = 0 then b
  else b.allocSetMask span (perSpan / 64) (Word.bit (perSpan % 64) - 1#64)

/-- Clear the first `clearWords` words of both bitmaps. -/
def resetBitmaps (b : SpanBitmaps) (idx clearWords : Nat) : SpanBitmaps :=
  { b with
    allocWords := Function.update b.allocWords idx
      fun w => if w < clearWords then 0#64 else b.allocWords idx w
    freeWords := Function.update b.freeWords idx
      fun w => if w < clearWords then 0#64 else b.freeWords idx w }

/-! ## Single bits -/

def allocBit (b : SpanBitmaps) (k i : Nat) : Bool := bitAt (b.allocWords k) i

def freeBit (b : SpanBitmaps) (k i : Nat) : Bool := bitAt (b.freeWords k) i

theorem putAlloc_allocBit (b : SpanBitmaps) (idx w : Nat) (v : Word) (k i : Nat) :
    (b.putAlloc idx w v).allocBit k i =
      if k = idx ∧ i / 64 = w then v.getLsbD (i % 64) else b.allocBit k i := by
  by_cases same : k = idx
  · subst same
    simp only [allocBit, putAlloc, Function.update_self, bitAt_update, true_and]
  · simp only [allocBit, putAlloc, Function.update_of_ne same, same, false_and, if_false]

theorem putFree_freeBit (b : SpanBitmaps) (idx w : Nat) (v : Word) (k i : Nat) :
    (b.putFree idx w v).freeBit k i =
      if k = idx ∧ i / 64 = w then v.getLsbD (i % 64) else b.freeBit k i := by
  by_cases same : k = idx
  · subst same
    simp only [freeBit, putFree, Function.update_self, bitAt_update, true_and]
  · simp only [freeBit, putFree, Function.update_of_ne same, same, false_and, if_false]

@[simp] theorem putAlloc_freeBit (b : SpanBitmaps) (idx w : Nat) (v : Word) (k i : Nat) :
    (b.putAlloc idx w v).freeBit k i = b.freeBit k i := rfl

@[simp] theorem putFree_allocBit (b : SpanBitmaps) (idx w : Nat) (v : Word) (k i : Nat) :
    (b.putFree idx w v).allocBit k i = b.allocBit k i := rfl

/-- What stays the same when only bits change. -/
structure SameLinks (b b' : SpanBitmaps) : Prop where
  base : b'.base = b.base
  nextActive : b'.nextActive = b.nextActive
  onList : b'.onList = b.onList

theorem SameLinks.refl (b : SpanBitmaps) : SameLinks b b := ⟨rfl, rfl, rfl⟩

theorem SameLinks.trans {b b' b'' : SpanBitmaps} (h : SameLinks b b') (h' : SameLinks b' b'') :
    SameLinks b b'' :=
  ⟨h'.base.trans h.base, h'.nextActive.trans h.nextActive, h'.onList.trans h.onList⟩

theorem setMask_freeBit (b : SpanBitmaps) (idx w : Nat) (mask : Word) (k i : Nat) :
    (b.setMask idx w mask).freeBit k i =
      (b.freeBit k i || (decide (k = idx ∧ i / 64 = w) && mask.getLsbD (i % 64))) := by
  rw [setMask, putFree_freeBit]
  by_cases here : k = idx ∧ i / 64 = w
  · obtain ⟨rfl, rfl⟩ := here
    simp [freeBit, bitAt]
  · simp [here]

/-- Folding moves the deposits of one word and forgets none. -/
theorem foldFreeWord_spec (b : SpanBitmaps) (idx w : Nat) :
    SameLinks b (b.foldFreeWord idx w).2 ∧
    (b.foldFreeWord idx w).1 = (b.foldFreeWord idx w).2.allocWords idx w ∧
    ∀ k i, (b.foldFreeWord idx w).2.allocBit k i =
        (b.allocBit k i || (decide (k = idx ∧ i / 64 = w) && b.freeBit k i)) ∧
      (b.foldFreeWord idx w).2.freeBit k i =
        (b.freeBit k i && !decide (k = idx ∧ i / 64 = w)) := by
  unfold foldFreeWord
  split
  · rename_i none
    refine ⟨SameLinks.refl b, rfl, fun k i => ?_⟩
    by_cases here : k = idx ∧ i / 64 = w
    · obtain ⟨rfl, rfl⟩ := here
      have clear : b.freeBit k i = false := by rw [freeBit, bitAt, none, BitVec.getLsbD_zero]
      simp [clear]
    · simp [here]
  · refine ⟨⟨rfl, rfl, rfl⟩, ?_, fun k i => ?_⟩
    · simp only [putAlloc, Function.update_self]
    · rw [putAlloc_allocBit, putAlloc_freeBit, putFree_freeBit, putFree_allocBit]
      by_cases here : k = idx ∧ i / 64 = w
      · obtain ⟨rfl, rfl⟩ := here
        simp [allocBit, freeBit, bitAt, putFree]
      · simp [here]

theorem allocSetMask_allocBit (b : SpanBitmaps) (idx w : Nat) (mask : Word) (k i : Nat) :
    (b.allocSetMask idx w mask).allocBit k i =
      (b.allocBit k i || (decide (k = idx ∧ i / 64 = w) && mask.getLsbD (i % 64))) := by
  rw [allocSetMask, putAlloc_allocBit]
  by_cases here : k = idx ∧ i / 64 = w
  · obtain ⟨rfl, rfl⟩ := here
    simp [allocBit, bitAt]
  · simp [here]

theorem allocClear_allocBit (b : SpanBitmaps) (idx w : Nat) (taken : Word) (k i : Nat) :
    (b.allocClear idx w taken).allocBit k i =
      (b.allocBit k i && !(decide (k = idx ∧ i / 64 = w) && taken.getLsbD (i % 64))) := by
  rw [allocClear, putAlloc_allocBit]
  by_cases here : k = idx ∧ i / 64 = w
  · obtain ⟨rfl, rfl⟩ := here
    simp [allocBit, bitAt, Nat.mod_lt]
  · simp [here]

theorem tileWords_spec (b : SpanBitmaps) (span n : Nat) :
    SameLinks b (b.tileWords span n) ∧ (b.tileWords span n).freeWords = b.freeWords ∧
    ∀ k i, (b.tileWords span n).allocBit k i =
      (b.allocBit k i || decide (k = span ∧ i < n * 64)) := by
  induction n with
  | zero => exact ⟨SameLinks.refl b, rfl, fun k i => by simp [tileWords]⟩
  | succ n ih =>
      obtain ⟨links, free, bits⟩ := ih
      refine ⟨links.trans ⟨rfl, rfl, rfl⟩, free, fun k i => ?_⟩
      rw [tileWords, allocSetMask_allocBit, bits, BitVec.getLsbD_allOnes,
        decide_eq_true (Nat.mod_lt i (by decide)), Bool.and_true, Bool.or_assoc, ← Bool.decide_or]
      congr 1
      refine decide_eq_decide.mpr ⟨?_, ?_⟩
      · rintro (⟨same, low⟩ | ⟨same, here⟩)
        · exact ⟨same, by omega⟩
        · exact ⟨same, by omega⟩
      · rintro ⟨same, low⟩
        by_cases below : i < n * 64
        · exact .inl ⟨same, below⟩
        · exact .inr ⟨same, by omega⟩

/-- Tiling sets the bits of exactly the first `perSpan` slots. -/
theorem tileSpan_spec (b : SpanBitmaps) (span perSpan : Nat) :
    SameLinks b (b.tileSpan span perSpan) ∧ (b.tileSpan span perSpan).freeWords = b.freeWords ∧
    ∀ k i, (b.tileSpan span perSpan).allocBit k i =
      (b.allocBit k i || decide (k = span ∧ i < perSpan)) := by
  obtain ⟨links, free, bits⟩ := b.tileWords_spec span (perSpan / 64)
  unfold tileSpan
  split
  · rename_i whole
    refine ⟨links, free, fun k i => ?_⟩
    rw [bits, show perSpan / 64 * 64 = perSpan by omega]
  · refine ⟨links.trans ⟨rfl, rfl, rfl⟩, free, fun k i => ?_⟩
    rw [allocSetMask_allocBit, bits, Word.getLsbD_low (Nat.mod_lt _ (by decide)), Bool.or_assoc,
      ← Bool.decide_and, ← Bool.decide_or]
    congr 1
    refine decide_eq_decide.mpr ⟨?_, ?_⟩
    · rintro (⟨same, low⟩ | ⟨⟨same, here⟩, low⟩)
      · exact ⟨same, by omega⟩
      · exact ⟨same, by omega⟩
    · rintro ⟨same, low⟩
      by_cases below : i < perSpan / 64 * 64
      · exact .inl ⟨same, below⟩
      · exact .inr ⟨⟨same, by omega⟩, by omega⟩

theorem resetBitmaps_bits (b : SpanBitmaps) (idx clearWords k i : Nat) :
    (b.resetBitmaps idx clearWords).allocBit k i =
        (b.allocBit k i && !decide (k = idx ∧ i / 64 < clearWords)) ∧
      (b.resetBitmaps idx clearWords).freeBit k i =
        (b.freeBit k i && !decide (k = idx ∧ i / 64 < clearWords)) := by
  by_cases same : k = idx
  · subst same
    by_cases low : i / 64 < clearWords <;>
      simp [resetBitmaps, allocBit, freeBit, bitAt, low]
  · simp [resetBitmaps, allocBit, freeBit, same]

/-! ## Fully free spans -/

/-- Every slot of the span is a free bit, on either side. -/
def FullyFree (b : SpanBitmaps) (k slots : Nat) : Prop :=
  ∀ i < slots, b.allocBit k i = true ∨ b.freeBit k i = true

instance (b : SpanBitmaps) (k slots : Nat) : Decidable (b.FullyFree k slots) :=
  inferInstanceAs (Decidable (∀ i < slots, b.allocBit k i = true ∨ b.freeBit k i = true))

/-- The deposits chosen by `m` moved to the owner's side. -/
structure Moved (m : Nat → Nat → Bool) (b b' : SpanBitmaps) : Prop where
  links : SameLinks b b'
  alloc : ∀ k i, b'.allocBit k i = (b.allocBit k i || (m k i && b.freeBit k i))
  free : ∀ k i, b'.freeBit k i = (b.freeBit k i && !m k i)

theorem Moved.fullyFree {m : Nat → Nat → Bool} {b b' : SpanBitmaps} (moved : Moved m b b')
    {k slots : Nat} : b'.FullyFree k slots ↔ b.FullyFree k slots := by
  refine forall_congr' fun i => imp_congr_right fun _ => ?_
  rw [moved.alloc, moved.free]
  cases b.allocBit k i <;> cases b.freeBit k i <;> cases m k i <;> simp

theorem foldFreeWord_moved (b : SpanBitmaps) (idx w : Nat) :
    Moved (fun k i => decide (k = idx ∧ i / 64 = w)) b (b.foldFreeWord idx w).2 := by
  obtain ⟨links, -, bits⟩ := b.foldFreeWord_spec idx w
  exact ⟨links, fun k i => (bits k i).1, fun k i => (bits k i).2⟩

theorem foldFreeWord_other {b : SpanBitmaps} {idx w w' : Nat} (other : w' ≠ w) :
    (b.foldFreeWord idx w).2.allocWords idx w' = b.allocWords idx w' := by
  unfold foldFreeWord
  split
  · rfl
  · simp only [putAlloc, putFree, Function.update_self, Function.update_of_ne other]

theorem foldCount_succ (idx left w count : Nat) (b : SpanBitmaps) :
    foldCount idx (left + 1) w count b =
      foldCount idx left (w + 1) (count + (b.foldFreeWord idx w).1.countOnes) (b.foldFreeWord idx w).2 :=
  rfl

/-- Folding word after word moves the deposits of all of them, and counts what is
    then on the owner's side. -/
theorem foldCount_spec (idx left w count : Nat) (b : SpanBitmaps) :
    Moved (fun k i => decide (k = idx ∧ w ≤ i / 64 ∧ i / 64 < w + left)) b
      (foldCount idx left w count b).2 ∧
    (∀ w' < w, (foldCount idx left w count b).2.allocWords idx w' = b.allocWords idx w') ∧
    (foldCount idx left w count b).1 + countBelow ((foldCount idx left w count b).2.allocWords idx) w =
      count + countBelow ((foldCount idx left w count b).2.allocWords idx) (w + left) := by
  induction left generalizing w count b with
  | zero =>
      have none : ∀ k i, decide (k = idx ∧ w ≤ i / 64 ∧ i / 64 < w + 0) = false := by
        intro k i
        apply decide_eq_false
        omega
      refine ⟨⟨SameLinks.refl b, fun k i => ?_, fun k i => ?_⟩, fun _ _ => rfl, rfl⟩
      · rw [none, Bool.false_and, Bool.or_false]
        rfl
      · rw [none, Bool.not_false, Bool.and_true]
        rfl
  | succ left ih =>
      rw [foldCount_succ]
      have first := b.foldFreeWord_moved idx w
      obtain ⟨-, word, -⟩ := b.foldFreeWord_spec idx w
      obtain ⟨rest, kept, counted⟩ := ih (w + 1) (count + (b.foldFreeWord idx w).1.countOnes)
        (b.foldFreeWord idx w).2
      have split : ∀ k i, decide (k = idx ∧ w ≤ i / 64 ∧ i / 64 < w + (left + 1)) =
          (decide (k = idx ∧ i / 64 = w) ||
            decide (k = idx ∧ w + 1 ≤ i / 64 ∧ i / 64 < w + 1 + left)) := by
        intro k i
        rw [← Bool.decide_or]
        apply decide_eq_decide.mpr
        omega
      refine ⟨⟨first.links.trans rest.links, fun k i => ?_, fun k i => ?_⟩, fun w' low => ?_, ?_⟩
      · rw [rest.alloc, first.alloc, first.free, split]
        cases decide (k = idx ∧ i / 64 = w) <;>
          cases decide (k = idx ∧ w + 1 ≤ i / 64 ∧ i / 64 < w + 1 + left) <;> simp
      · rw [rest.free, first.free, split, Bool.not_or, Bool.and_assoc]
      · rw [kept w' (by omega), foldFreeWord_other (by omega)]
      · rw [countBelow, kept w (by omega), ← word] at counted
        rw [show w + (left + 1) = w + 1 + left by omega]
        omega

/-- `isFullyFree` answers what it says, for a span whose bits are all slots. -/
theorem isFullyFree_spec (b : SpanBitmaps) (idx slots : Nat)
    (tiled : ∀ i, b.allocBit idx i = true ∨ b.freeBit idx i = true → i < slots) :
    Moved (fun k i => decide (k = idx ∧ i / 64 < (slots + 63) / 64)) b (b.isFullyFree idx slots).2 ∧
    ((b.isFullyFree idx slots).1 = true ↔ b.FullyFree idx slots) := by
  obtain ⟨moved, -, counted⟩ := foldCount_spec idx ((slots + 63) / 64) 0 0 b
  simp only [countBelow, Nat.add_zero, Nat.zero_add, Nat.zero_le, true_and] at moved counted
  obtain ⟨b', result⟩ : ∃ b', (foldCount idx ((slots + 63) / 64) 0 0 b).2 = b' := ⟨_, rfl⟩
  rw [result] at moved counted
  have eq : b.isFullyFree idx slots = if countBelow (b'.allocWords idx) ((slots + 63) / 64) ≠ slots
      then (false, b') else
      ((List.range ((slots + 63) / 64)).all fun w => b'.freeWords idx w = 0#64, b') := by
    rw [← counted, ← result]
    rfl
  have within : ∀ i, b'.allocBit idx i = true → i < slots := by
    intro i set
    rw [moved.alloc, Bool.or_eq_true, Bool.and_eq_true] at set
    rcases set with old | new
    · exact tiled i (.inl old)
    · exact tiled i (.inr new.2)
  have emptied : (List.range ((slots + 63) / 64)).all (fun w => b'.freeWords idx w = 0#64) = true := by
    rw [List.all_eq_true]
    intro w member
    rw [decide_eq_true_eq, Word.eq_zero_iff]
    intro i low
    have clear := moved.free idx (w * 64 + i)
    rw [freeBit, bitAt_word low] at clear
    rw [clear, decide_eq_true, Bool.not_true, Bool.and_false]
    exact ⟨rfl, by have := List.mem_range.mp member; omega⟩
  rw [eq]
  by_cases full : countBelow (b'.allocWords idx) ((slots + 63) / 64) = slots
  · rw [if_neg (not_not.mpr full)]
    refine ⟨moved, ⟨fun _ => ?_, fun _ => emptied⟩⟩
    rw [← moved.fullyFree]
    intro i inside
    exact .inl (full_of_countBelow (fun j _ => within j) full inside)
  · rw [if_pos full]
    refine ⟨moved, ⟨fun same => (Bool.false_ne_true same).elim, fun free => (full ?_).elim⟩⟩
    have set : ∀ i < slots, b'.allocBit idx i = true := by
      intro i inside
      rw [moved.alloc, decide_eq_true ⟨rfl, by omega⟩, Bool.true_and, Bool.or_eq_true]
      exact free i inside
    rw [countBelow_eq_card]
    have all : (Finset.range ((slots + 63) / 64 * 64)).filter
        (fun i => bitAt (b'.allocWords idx) i = true) = Finset.range slots := by
      ext i
      simp only [Finset.mem_filter, Finset.mem_range]
      constructor
      · rintro ⟨-, bit⟩
        exact within i bit
      · intro inside
        exact ⟨by omega, set i inside⟩
    rw [all, Finset.card_range]

end SpanBitmaps

/-! ## The span table -/

/-- The class marker of large runs. -/
def largeClass : Nat := 65534

/-- The entries, packed as `class << 16 | home`; 0 is unassigned. -/
structure SpanTable where
  base : Nat
  len : Nat
  entry : Nat → Nat

namespace SpanTable

def new (base len : Nat) : SpanTable := ⟨base, len, fun _ => 0⟩

def numSpans (t : SpanTable) : Nat := (t.len + (spanBytes - 1)) / spanBytes

def pack (cls home : Nat) : Nat := cls * 65536 + home

def indexOf (t : SpanTable) (ptr : Nat) : Option Nat :=
  if ptr < t.base ∨ t.base + t.len ≤ ptr then none else some ((ptr - t.base) / spanBytes)

/-- The last span that overlaps `[ptr, ptr + bytes)`, up to the last of the table. -/
def lastOf (t : SpanTable) (ptr bytes : Nat) : Nat :=
  let endAddr := wrap64 (ptr + bytes + (2 ^ 64 - 1))
  min (wrap64 (endAddr + (2 ^ 64 - t.base)) / spanBytes) (t.numSpans - 1)

/-- Tag every span that overlaps `[ptr, ptr + bytes)`. -/
def assignRange (t : SpanTable) (ptr bytes cls home : Nat) : SpanTable :=
  match t.indexOf ptr with
  | none => t
  | some start =>
      { t with entry := fun k => if start ≤ k ∧ k ≤ t.lastOf ptr bytes then pack cls home else t.entry k }

/-- Whether the slice `start..=end` of `assignRange` is out of order, which panics;
    only a range whose end wrapped can be. -/
def rangeFaults (t : SpanTable) (ptr bytes : Nat) : Bool :=
  (t.indexOf ptr).any fun start => t.lastOf ptr bytes + 1 < start

def unpack (v : Nat) : Option (Nat × Nat) := if v = 0 then none else some (v / 65536, v % 65536)

def lookup (t : SpanTable) (ptr : Nat) : Option (Nat × Nat) :=
  (t.indexOf ptr).bind fun idx => unpack (t.entry idx)

/-- The home field; 65535 outside the arena. -/
def homeRelaxed (t : SpanTable) (ptr : Nat) : Nat :=
  match t.indexOf ptr with
  | none => 65535
  | some idx => t.entry idx % 65536

end SpanTable

end Toccata
