import Mathlib.Algebra.BigOperators.Group.Finset.Basic
import Mathlib.Algebra.Order.Group.Multiset
import Mathlib.Data.Multiset.AddSub
import Mathlib.Tactic.Abel
import Mathlib.Tactic.Common

/-! # The per-CPU slab

Every CPU owns one bounded stack of object pointers per class. This is the slab
seen from outside one `pop` or `push`: an attempt is answered by the block of the
CPU it resolves to, or declines. That the restartable and the locked sequences
implement such attempts is a matter of its own.
-/

namespace Toccata

/-- Outcome of a fast-path attempt. -/
inductive Fast (α : Type) where
  | ok (a : α)
  | needsSlow
deriving Repr, DecidableEq

/-- One class's stack on one CPU: the header's `capacity`, and the live pointers
    `slots[0..current)` with the last pushed first. -/
structure CpuStack where
  capacity : Nat
  slots : List Nat
deriving Repr, DecidableEq

/-- What one attempt on the slab meets: the CPU id the thread runs on, the address
    of its thread-local anchor, and whether it gives up. -/
structure Turn where
  cpu : Nat
  anchor : Nat
  declines : Bool
deriving Repr, DecidableEq

def fallbackShard (numCpus anchor : Nat) : Nat :=
  (anchor / 2 ^ 6) % 2 ^ 32 % max numCpus 1

def resolvedCpu (numCpus cpu anchor : Nat) : Nat :=
  if cpu < numCpus then cpu else fallbackShard numCpus anchor

theorem resolvedCpu_lt {numCpus : Nat} (pos : 0 < numCpus) (cpu anchor : Nat) :
    resolvedCpu numCpus cpu anchor < numCpus := by
  simp only [resolvedCpu, fallbackShard]
  split
  · assumption
  · have : max numCpus 1 = numCpus := by omega
    rw [this]
    exact Nat.mod_lt _ pos

/-- A stack whose slots start at `off` in the block, after `p` was written at `addr` there. -/
def CpuStack.overwritten (s : CpuStack) (off addr p : Nat) : CpuStack :=
  if off ≤ addr ∧ (addr - off) % 8 = 0 then
    { s with slots := (s.slots.reverse.set ((addr - off) / 8) p).reverse }
  else s

/-- Slab geometry with the blocks it describes, by CPU and class. In a block the slots of
    class `cls` start at `slotsOffs[cls]`, and nothing in the code keeps them apart. Slots
    that reach back into the headers are not told from others. -/
structure SlabLayout where
  numCpus : Nat
  slotsOffs : List Nat
  stack : Nat → Nat → CpuStack

namespace SlabLayout

def put (l : SlabLayout) (cpu cls : Nat) (s : CpuStack) : SlabLayout :=
  { l with stack := fun cpu' cls' => if cpu' = cpu ∧ cls' = cls then s else l.stack cpu' cls' }

/-- The slot of index `i`, from the start of the block. -/
def slotAddr (l : SlabLayout) (cls i : Nat) : Nat := l.slotsOffs.getD cls 0 + i * 8

/-- A pointer written into the block of a CPU shows in every stack that has a slot there. -/
def write (l : SlabLayout) (cpu addr p : Nat) : SlabLayout :=
  { l with stack := fun cpu' cls =>
      if cpu' = cpu ∧ cls < l.slotsOffs.length then
        (l.stack cpu cls).overwritten (l.slotsOffs.getD cls 0) addr p
      else l.stack cpu' cls }

/-- A popped null is dropped and reported as a miss. -/
def pop (l : SlabLayout) (cls : Nat) : Option Turn → Fast Nat × SlabLayout
  | none => (.needsSlow, l)
  | some turn =>
      if turn.declines then (.needsSlow, l) else
        let cpu := resolvedCpu l.numCpus turn.cpu turn.anchor
        match (l.stack cpu cls).slots with
        | [] => (.needsSlow, l)
        | p :: rest =>
            (if p = 0 then .needsSlow else .ok p,
              l.put cpu cls { l.stack cpu cls with slots := rest })

def push (l : SlabLayout) (cls p : Nat) : Option Turn → Fast Unit × SlabLayout
  | none => (.needsSlow, l)
  | some turn =>
      if turn.declines then (.needsSlow, l) else
        let cpu := resolvedCpu l.numCpus turn.cpu turn.anchor
        let s := l.stack cpu cls
        if s.capacity ≤ s.slots.length then (.needsSlow, l) else
          (.ok (), (l.write cpu (l.slotAddr cls s.slots.length) p).put cpu cls
            { s with slots := p :: s.slots })

/-- Everything the CPUs cache for one class. -/
def cached (l : SlabLayout) (cls : Nat) : Multiset Nat :=
  ∑ cpu ∈ Finset.range l.numCpus, ((l.stack cpu cls).slots : Multiset Nat)

/-- No stack holds more than its capacity, and the slots of different classes are apart. -/
structure Apart (l : SlabLayout) : Prop where
  fits : ∀ cpu cls, (l.stack cpu cls).slots.length ≤ (l.stack cpu cls).capacity
  slots : ∀ cpu cls cls' i j, cls < l.slotsOffs.length → cls' < l.slotsOffs.length → cls ≠ cls' →
    i < (l.stack cpu cls).capacity → j < (l.stack cpu cls').capacity →
    l.slotAddr cls i ≠ l.slotAddr cls' j

@[simp] theorem put_numCpus (l : SlabLayout) (cpu cls : Nat) (s : CpuStack) :
    (l.put cpu cls s).numCpus = l.numCpus := rfl

@[simp] theorem put_stack_same (l : SlabLayout) (cpu cls : Nat) (s : CpuStack) :
    (l.put cpu cls s).stack cpu cls = s := by
  simp only [put, and_self, if_true]

theorem put_stack_other {l : SlabLayout} {cpu cls cpu' cls' : Nat} {s : CpuStack}
    (different : ¬(cpu' = cpu ∧ cls' = cls)) :
    (l.put cpu cls s).stack cpu' cls' = l.stack cpu' cls' := by
  simp only [put, if_neg different]

theorem put_cached_other {l : SlabLayout} {cpu cls cls' : Nat} {s : CpuStack}
    (different : cls' ≠ cls) : (l.put cpu cls s).cached cls' = l.cached cls' := by
  refine Finset.sum_congr rfl fun cpu' _ => ?_
  rw [put_stack_other fun same => different same.2]

/-- Replacing one block's slots exchanges them in what the class caches. -/
theorem put_cached {l : SlabLayout} {cpu : Nat} (cls : Nat) (inside : cpu < l.numCpus)
    (s : CpuStack) :
    (l.put cpu cls s).cached cls + ((l.stack cpu cls).slots : Multiset Nat) =
      l.cached cls + (s.slots : Multiset Nat) := by
  have member := Finset.mem_range.mpr inside
  simp only [cached, put_numCpus]
  rw [← Finset.add_sum_erase _ _ member, ← Finset.add_sum_erase _ _ member, put_stack_same]
  have rest : ∀ cpu' ∈ (Finset.range l.numCpus).erase cpu,
      (((l.put cpu cls s).stack cpu' cls).slots : Multiset Nat) = (l.stack cpu' cls).slots := by
    intro cpu' other
    rw [put_stack_other fun same => (Finset.mem_erase.mp other).1 same.1]
  rw [Finset.sum_congr rfl rest]
  abel

theorem write_other {l : SlabLayout} {cpu cpu' : Nat} (different : cpu' ≠ cpu) (addr p cls : Nat) :
    (l.write cpu addr p).stack cpu' cls = l.stack cpu' cls :=
  if_neg fun same => different same.1

/-- An attempt to pop leaves the slab alone, or takes the top of one stack. -/
theorem pop_cases {l : SlabLayout} (pos : 0 < l.numCpus) (cls : Nat) (turn : Option Turn) :
    l.pop cls turn = (.needsSlow, l) ∨
    ∃ cpu p rest, cpu < l.numCpus ∧ (l.stack cpu cls).slots = p :: rest ∧
      l.pop cls turn = (if p = 0 then .needsSlow else .ok p,
        l.put cpu cls { l.stack cpu cls with slots := rest }) := by
  cases turn with
  | none => exact .inl rfl
  | some turn =>
      simp only [pop]
      split
      · exact .inl rfl
      · split
        · exact .inl rfl
        · rename_i p rest top
          exact .inr ⟨_, p, rest, resolvedCpu_lt pos _ _, top, rfl⟩

theorem overwritten_other {s : CpuStack} {off addr : Nat} (p : Nat)
    (other : ∀ j < s.slots.length, off + j * 8 ≠ addr) : s.overwritten off addr p = s := by
  unfold CpuStack.overwritten
  split
  · rename_i here
    have beyond : s.slots.reverse.length ≤ (addr - off) / 8 := by
      rw [List.length_reverse]
      by_contra inside
      have := other ((addr - off) / 8) (by omega)
      omega
    rw [List.set_eq_of_length_le beyond, List.reverse_reverse]
  · rfl

/-- A write leaves capacities and lengths as they are. -/
theorem write_shape (l : SlabLayout) (cpu addr p cpu' cls : Nat) :
    ((l.write cpu addr p).stack cpu' cls).capacity = (l.stack cpu' cls).capacity ∧
      ((l.write cpu addr p).stack cpu' cls).slots.length = (l.stack cpu' cls).slots.length := by
  unfold write
  dsimp only
  split
  · rename_i here
    rw [here.1, CpuStack.overwritten]
    split
    · exact ⟨rfl, by simp only [List.length_reverse, List.length_set]⟩
    · exact ⟨rfl, rfl⟩
  · exact ⟨rfl, rfl⟩

/-- Where slots are apart, a push writes no other stack. -/
theorem write_apart {l : SlabLayout} (apart : l.Apart) {cpu cls : Nat} (isClass : cls < l.slotsOffs.length)
    (room : (l.stack cpu cls).slots.length < (l.stack cpu cls).capacity) (p : Nat) :
    l.write cpu (l.slotAddr cls (l.stack cpu cls).slots.length) p = l := by
  have same : ∀ cls' < l.slotsOffs.length, (l.stack cpu cls').overwritten (l.slotsOffs.getD cls' 0)
      (l.slotAddr cls (l.stack cpu cls).slots.length) p = l.stack cpu cls' := by
    intro cls' isClass'
    refine overwritten_other p fun j below meet => ?_
    by_cases own : cls = cls'
    · subst own
      unfold slotAddr at meet
      omega
    · exact apart.slots cpu cls cls' _ j isClass isClass' own room (below.trans_le (apart.fits cpu cls'))
        meet.symm
  unfold write
  congr 1
  funext cpu' cls'
  split
  · rename_i here
    rw [same cls' here.2, here.1]
  · rfl

/-- A stack replaced by one within its capacity leaves the slots where they are. -/
theorem Apart.put {l : SlabLayout} (apart : l.Apart) {cpu cls : Nat} {slots : List Nat}
    (fits : slots.length ≤ (l.stack cpu cls).capacity) :
    (l.put cpu cls { l.stack cpu cls with slots }).Apart := by
  have stack : ∀ cpu' cls', (l.put cpu cls { l.stack cpu cls with slots }).stack cpu' cls' =
      if cpu' = cpu ∧ cls' = cls then { l.stack cpu cls with slots } else l.stack cpu' cls' :=
    fun _ _ => rfl
  have capacity : ∀ cpu' cls', ((l.put cpu cls { l.stack cpu cls with slots }).stack cpu' cls').capacity =
      (l.stack cpu' cls').capacity := by
    intro cpu' cls'
    rw [stack]
    split
    · rename_i here
      rw [here.1, here.2]
    · rfl
  constructor
  · intro cpu' cls'
    rw [stack]
    split
    · exact fits
    · exact apart.fits cpu' cls'
  · intro cpu' cls₁ cls₂ i j
    rw [capacity, capacity]
    exact apart.slots cpu' cls₁ cls₂ i j

theorem Apart.pop {l : SlabLayout} (apart : l.Apart) {cpu cls p : Nat} {rest : List Nat}
    (top : (l.stack cpu cls).slots = p :: rest) :
    (l.put cpu cls { l.stack cpu cls with slots := rest }).Apart := by
  apply apart.put
  have fits := apart.fits cpu cls
  rw [top, List.length_cons] at fits
  omega

/-- A slab of one class. -/
theorem Apart.single {l : SlabLayout} {off : Nat} (one : l.slotsOffs = [off])
    (fits : ∀ cpu cls, (l.stack cpu cls).slots.length ≤ (l.stack cpu cls).capacity) : l.Apart where
  fits := fits
  slots cpu cls cls' i j isClass isClass' different := by
    rw [one, List.length_singleton] at isClass isClass'
    omega

/-- An attempt to push leaves the slab alone, or adds to a stack with room. -/
theorem push_cases {l : SlabLayout} (pos : 0 < l.numCpus) (apart : l.Apart) {cls : Nat}
    (isClass : cls < l.slotsOffs.length) (p : Nat) (turn : Option Turn) :
    l.push cls p turn = (.needsSlow, l) ∨
    ∃ cpu, cpu < l.numCpus ∧ (l.stack cpu cls).slots.length < (l.stack cpu cls).capacity ∧
      l.push cls p turn = (.ok (),
        l.put cpu cls { l.stack cpu cls with slots := p :: (l.stack cpu cls).slots }) := by
  cases turn with
  | none => exact .inl rfl
  | some turn =>
      simp only [push]
      split
      · exact .inl rfl
      · split
        · exact .inl rfl
        · rename_i room
          rw [write_apart apart isClass (Nat.lt_of_not_le room)]
          exact .inr ⟨_, resolvedCpu_lt pos _ _, Nat.lt_of_not_le room, rfl⟩

theorem cached_of_pop {l : SlabLayout} {cpu cls p : Nat} {rest : List Nat}
    (inside : cpu < l.numCpus) (top : (l.stack cpu cls).slots = p :: rest) :
    l.cached cls = p ::ₘ (l.put cpu cls { l.stack cpu cls with slots := rest }).cached cls := by
  have exchange := put_cached cls inside { l.stack cpu cls with slots := rest }
  rw [top, ← Multiset.cons_coe, Multiset.add_cons, ← Multiset.cons_add] at exchange
  exact (add_right_cancel exchange).symm

theorem cached_of_push {l : SlabLayout} {cpu cls : Nat} (p : Nat) (inside : cpu < l.numCpus) :
    (l.put cpu cls { l.stack cpu cls with slots := p :: (l.stack cpu cls).slots }).cached cls =
      p ::ₘ l.cached cls := by
  have exchange := put_cached cls inside
    { l.stack cpu cls with slots := p :: (l.stack cpu cls).slots }
  rw [← Multiset.cons_coe, Multiset.add_cons, ← Multiset.cons_add] at exchange
  exact add_right_cancel exchange

end SlabLayout

end Toccata
