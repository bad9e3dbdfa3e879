import Toccata.SubHeap.Custody

/-! # Rebalancing a seized CPU, in memory

`rebalance_capacity` works on the slab's bytes: it finds the header and the slots of a
class by shifting the CPU id and adding offsets, and does not check the id. Here the
reservation is memory, in cells of four bytes, which every access is a multiple of. For
a CPU that has a block this is the move of `SubHeap.rebalanceCapacity`; for any other id
the block lies in the arena or past it.
-/

namespace Toccata

open Foundations SizeClass

namespace SubHeap

/-! ## Stacks within their capacity -/

/-- Every stack has the capacity it was built with, and keeps to it. -/
def Bounded (capPerClass : Nat) (l : SlabLayout) : Prop :=
  ∀ cpu cls, (l.stack cpu cls).capacity = capForClass cls capPerClass ∧
    (l.stack cpu cls).slots.length ≤ capForClass cls capPerClass

/-- What holds of the slab before holds of it after, however the program ends. -/
def KeepsSlab {α : Type} (J : SlabLayout → Prop) (m : Prog Turn SubHeap α) : Prop :=
  Triple (fun s => J s.slab) m (fun _ s => J s.slab) (fun s => J s.slab)

variable {J : SlabLayout → Prop} {α β : Type}

namespace KeepsSlab

theorem ret (a : α) : KeepsSlab J (pure a) := Triple.ret a fun _ kept => kept

theorem bind {m : Prog Turn SubHeap α} {f : α → Prog Turn SubHeap β} (first : KeepsSlab J m)
    (next : ∀ a, KeepsSlab J (f a)) : KeepsSlab J (m >>= f) :=
  Triple.bind first next

theorem inspect {f : SubHeap → Prog Turn SubHeap β} (next : ∀ s, KeepsSlab J (f s)) :
    KeepsSlab J (Prog.read >>= f) :=
  Triple.inspect fun s kept => (next s).start kept

theorem modify {f : SubHeap → SubHeap} (same : ∀ s, (f s).slab = s.slab) :
    KeepsSlab J (Prog.modify f) :=
  Triple.modify fun s kept => by
    rw [same]
    exact kept

theorem apply {f : SubHeap → α × SubHeap} (same : ∀ s, (f s).2.slab = s.slab) :
    KeepsSlab J (Prog.apply f) :=
  Triple.apply fun s kept => by
    rw [same]
    exact kept

theorem fail : KeepsSlab J (Prog.fail : Prog Turn SubHeap α) := Triple.fail fun _ kept => kept

theorem ite {c : Prop} [Decidable c] {m m' : Prog Turn SubHeap α} (yes : KeepsSlab J m)
    (no : KeepsSlab J m') : KeepsSlab J (if c then m else m') :=
  Triple.ite (fun _ => yes) fun _ => no

theorem loop {body : β → Prog Turn SubHeap (ForInStep β)} (pass : ∀ b, KeepsSlab J (body b))
    (n : Nat) (b : β) : KeepsSlab J (Prog.loop body n b) := by
  refine Triple.loop (I := fun _ _ (s : SubHeap) => J s.slab) (fun _ b => (pass b).weaken fun r s kept => ?_)
    (fun _ _ kept => kept) n b
  cases r <;> exact kept

theorem each {body : α → Prog Turn SubHeap β} (pass : ∀ a, KeepsSlab J (body a)) (entries : List α) :
    KeepsSlab J (Prog.each body entries) := by
  induction entries with
  | nil => exact ret []
  | cons a rest ih => exact (pass a).bind fun _ => ih.bind fun _ => ret _

end KeepsSlab

section Frame

theorem panicLocked_slab : KeepsSlab J (panicLocked : Prog Turn SubHeap α) :=
  .bind (.modify fun _ => rfl) fun _ => .fail

theorem taken_slab (s : SubHeap) (shard cls room : Nat) : (s.taken shard cls room).2.slab = s.slab := by
  cases valid : s.validHint shard cls with
  | true =>
      rcases scan : scanSpan (s.reuseHint shard cls) room (bitmapWords cls) (sizeOfClass cls)
        s.bitmaps with ⟨first, b₁⟩
      rcases walked : takeFrom (s.reuseHint shard cls) (bitmapWords cls) (sizeOfClass cls)
        (s.spans.numSpans + 1) (s.head shard cls) (room - first.length) b₁ with ⟨rest, seen, b₂⟩
      rw [taken_hint valid scan walked]
  | false =>
      rcases walked : takeFrom noSpan (bitmapWords cls) (sizeOfClass cls) (s.spans.numSpans + 1)
        (s.head shard cls) room s.bitmaps with ⟨objs, seen, b⟩
      rw [taken_list valid walked]

theorem adopt_slab (s : SubHeap) (shard cls slots span : Nat) :
    (s.adopt shard cls slots span).slab = s.slab := by
  unfold adopt
  simp only
  split <;> rfl

theorem adoptRun_slab (shard cls perSpan count addr : Nat) (s : SubHeap) :
    (adoptRun shard cls perSpan count addr s).slab = s.slab := by
  induction count generalizing addr s with
  | zero => rfl
  | succ count ih => rw [adoptRun, ih, adopt_slab]

theorem carveOrReuseSpans_slab (numSpans cls home : Nat) :
    KeepsSlab J (carveOrReuseSpans .alone numSpans cls home) := by
  refine KeepsSlab.bind (.bind (.ret false) fun _ => .inspect fun s => .ite (.ret _) ?_) fun range => ?_
  · split
    · exact panicLocked_slab
    · exact .ret _
    · exact KeepsSlab.bind (.modify fun _ => rfl) fun _ => .ret _
  · cases range with
    | some range => exact .ret _
    | none => exact .apply fun _ => rfl

theorem centralCarve_slab (cls myShard batch : Nat) : KeepsSlab J (centralCarve .alone cls myShard batch) := by
  refine .inspect fun s => .ite ?_ ?_
  · refine (carveOrReuseSpans_slab _ _ _).bind fun range => .ite (.ret _) ?_
    exact KeepsSlab.bind (.modify fun s => adopt_slab _ _ _ _ _) fun _ => .ret _
  · refine (carveOrReuseSpans_slab _ _ _).bind fun range => .ite (.ret _) ?_
    exact KeepsSlab.bind (.modify fun s => adoptRun_slab _ _ _ _ _ _) fun _ => .ret _

theorem centralTake_slab (shard cls room : Nat) : KeepsSlab J (centralTake shard cls room) :=
  .apply fun s => taken_slab s shard cls room

theorem centralDeposit_slab (obj osz : Nat) : KeepsSlab J (centralDeposit obj osz) :=
  .modify fun _ => rfl

theorem takeOrCarve_slab (cls myShard : Nat) : KeepsSlab J (takeOrCarve .alone cls myShard) :=
  .inspect fun _ => (centralTake_slab _ _ _).bind fun _ => .ite
    ((centralCarve_slab _ _ _).bind fun _ => .ite (.ret _) (centralTake_slab _ _ _)) (.ret _)

theorem refillBatch_slab (cls thread room : Nat) : KeepsSlab J (refillBatch .alone cls thread room) :=
  .inspect fun _ => (centralTake_slab _ _ _).bind fun _ => .loop (fun _ => .ite (.ret _)
    ((centralCarve_slab _ _ _).bind fun _ => .ite (.ret _)
      ((centralTake_slab _ _ _).bind fun _ => .ite (.ret _) (.ret _)))) _ _

theorem allocLarge_slab (size : Nat) : KeepsSlab J (allocLarge size) := by
  have record : ∀ ptr, KeepsSlab J (allocLarge.record size ptr) := by
    intro ptr
    unfold allocLarge.record
    refine .inspect fun s => ?_
    generalize s.large.runSpans.set? (s.large.spanIndex ptr) (wrap32 (spanCount size)) = recorded
    cases recorded with
    | none => exact panicLocked_slab
    | some runSpans =>
        exact KeepsSlab.bind (.modify fun _ => rfl) fun _ => .ite panicLocked_slab
          (.bind (.modify fun _ => rfl) fun _ => .ret _)
  unfold allocLarge
  refine .inspect fun s => .ite .fail ?_
  generalize s.large.pool.alloc (wrap32 (spanCount size)) = found
  generalize s.arena.carveRun (runBytes size) = carved
  rcases found with _ | ⟨_ | headIdx, pool⟩
  · exact panicLocked_slab
  · rcases carved with _ | ⟨start, arena⟩
    · exact .ret _
    · exact KeepsSlab.bind (.modify fun _ => rfl) fun _ => record _
  · exact KeepsSlab.bind (.modify fun _ => rfl) fun _ => record _

theorem deallocLarge_slab (ptr : Nat) : KeepsSlab J (deallocLarge ptr) := by
  refine .inspect fun s => ?_
  split
  · exact .fail
  · refine KeepsSlab.bind (.modify fun _ => rfl) fun _ => .ite (.ret _) (.ite .fail ?_)
    split
    · exact .modify fun _ => rfl
    · exact panicLocked_slab

theorem retire_slab (s : SubHeap) (shard cls prev span : Nat) :
    (s.retire shard cls prev span).slab = s.slab := by
  unfold retire
  simp only
  split <;> rfl

theorem reclaimWalk_slab (shard cls steps cap prev span : Nat) (s : SubHeap) :
    (reclaimWalk shard cls steps cap prev span s).2.slab = s.slab := by
  induction steps generalizing cap prev span s with
  | zero => rfl
  | succ steps ih =>
      rw [reclaimWalk]
      split
      · rfl
      · simp only
        split
        · rw [ih, retire_slab]
        · rw [ih]

theorem fileRuns_slab (group : Nat) (spans : List Nat) : KeepsSlab J (fileRuns group spans) := by
  have file : ∀ span, KeepsSlab J (fileRun group span) := by
    intro span
    unfold fileRun
    refine .inspect fun s => ?_
    generalize s.large.pool.free (wrap32 (s.large.spanIndex (s.bitmaps.spanBase span))) group = filed
    cases filed with
    | none => exact panicLocked_slab
    | some pool => exact .modify fun _ => rfl
  exact .inspect fun _ => .ite .fail (.bind (.each file _) fun _ => .ret _)

theorem reclaimLocked_slab (shard cls cap : Nat) : KeepsSlab J (reclaimLocked shard cls cap) := by
  refine Triple.pin fun s kept => ?_
  rcases out : reclaimWalk shard cls (s.spans.numSpans + 1) (min cap 32) noSpan (s.head shard cls) s
    with ⟨gone, s'⟩
  have same := reclaimWalk_slab shard cls (s.spans.numSpans + 1) (min cap 32) noSpan
    (s.head shard cls) s
  rw [out] at same
  refine (reclaimLocked_spec out).weaken fun _ s₁ ends => ?_
  rw [ends.2, same]
  exact kept

theorem reclaimCell_slab (shard cls cap : Nat) : KeepsSlab J (reclaimCell shard cls cap) := by
  unfold reclaimCell
  refine .ite (.ret _) (.bind (reclaimLocked_slab shard cls cap) fun retired => .ite (.ret _) ?_)
  exact .bind (fileRuns_slab _ _) fun _ => .ret _

theorem reclaimEmptySpans_slab (maxPerLock : Nat) : KeepsSlab J (reclaimEmptySpans maxPerLock) := by
  have cells : ∀ cap shard cls, KeepsSlab J (reclaimCells cap shard cls) := fun cap shard cls =>
    .inspect fun _ => .loop (fun _ => .bind (reclaimCell_slab shard cls cap) fun _ =>
      .ite (.ret _) (.ret _)) _ _
  exact .inspect fun s => .bind (.each (fun _ => cells _ _ _) _) fun _ => .ret _

/-! A property of the slab that pops and pushes keep, every call keeps. -/

variable (pops : ∀ l cls turn, J l → J (SlabLayout.pop l cls turn).2)
  (pushes : ∀ l cls p turn, J l → J (SlabLayout.push l cls p turn).2)

include pops in
theorem slabPop_slab (cls : Nat) : KeepsSlab J (slabPop cls) :=
  Triple.bind (Triple.ask fun _ _ kept => kept) fun turn => Triple.apply fun s kept =>
    pops s.slab cls turn kept

include pushes in
theorem slabPush_slab (cls p : Nat) : KeepsSlab J (slabPush cls p) :=
  Triple.bind (Triple.ask fun _ _ kept => kept) fun turn => Triple.apply fun s kept =>
    pushes s.slab cls p turn kept

include pushes in
theorem stash_slab (cls p : Nat) : KeepsSlab J (stash cls p) := by
  refine .bind (slabPush_slab pushes cls p) fun r => ?_
  cases r with
  | ok => exact .ret _
  | needsSlow => exact centralDeposit_slab _ _

include pops pushes in
theorem allocClass_slab (cls thread : Nat) : KeepsSlab J (allocClass cls thread) := by
  refine .bind (slabPop_slab pops cls) fun r => ?_
  cases r with
  | ok p => exact .ret _
  | needsSlow =>
      refine .bind (takeOrCarve_slab cls thread) fun got => ?_
      cases got with
      | nil => exact .ret _
      | cons p rest => exact .bind (.each (stash_slab pushes cls) rest) fun _ => .ret _

include pops pushes in
theorem freeLocal_slab (cls p : Nat) : KeepsSlab J (freeLocal cls p) := by
  refine .bind (slabPush_slab pushes cls p) fun r => ?_
  cases r with
  | ok => exact .ret _
  | needsSlow =>
      refine .bind (.loop (fun _ => .bind (.bind (slabPop_slab pops cls) fun r => ?_) fun again =>
        .ite (.ret _) (.ret _)) _ _) fun _ => stash_slab pushes cls p
      cases r with
      | ok q => exact .bind (centralDeposit_slab _ _) fun _ => .ret _
      | needsSlow => exact .ret _

include pops pushes in
theorem deallocClass_slab (p cls thread : Nat) : KeepsSlab J (deallocClass p cls thread) :=
  .inspect fun _ => .ite (freeLocal_slab pops pushes cls p) (centralDeposit_slab _ _)

theorem flushPending_slab (p : Pending) : KeepsSlab J (flushPending p) :=
  .ite (.ret _) (.modify fun _ => rfl)

include pops pushes in
theorem batchAll_slab (cls thread : Nat) (ptrs : List Nat) (pending : Pending) :
    KeepsSlab J (batchAll cls thread ptrs pending) := by
  induction ptrs generalizing pending with
  | nil => exact .ret _
  | cons p rest ih =>
      refine .bind (.inspect fun _ => .ite ?_ ?_) ih
      · exact .bind (freeLocal_slab pops pushes cls p) fun _ => .ret _
      · exact .ite (.bind (flushPending_slab pending) fun _ => .ret _) (.ret _)

include pops pushes in
theorem deallocByPtr_slab (p thread : Nat) : KeepsSlab J (deallocByPtr p thread) := by
  refine .inspect fun s => ?_
  split
  · exact .ret _
  · exact .ite (.bind (deallocLarge_slab p) fun _ => .ret _)
      (.bind (deallocClass_slab pops pushes p _ thread) fun _ => .ret _)

end Frame

namespace World

variable {J : SlabLayout → Prop} {w : World} {thread : Nat} {env : List Turn}

theorem call_slab {α : Type} {m : Prog Turn SubHeap α} {got : α → World → World}
    (keeps : KeepsSlab J m) (same : ∀ a w, (got a w).sub = w.sub) (kept : J w.sub.slab) :
    J (w.call m env got).sub.slab :=
  call_spec (Q := fun w => J w.sub.slab) ((keeps.start kept).weaken fun a s kept => by
    rw [same]
    exact kept)

/-- What pops and pushes keep of the slab, every call keeps. -/
theorem after_slab (pops : ∀ l cls turn, J l → J (SlabLayout.pop l cls turn).2)
    (pushes : ∀ l cls p turn, J l → J (SlabLayout.push l cls p turn).2)
    (drops : ∀ l cpu cls p rest, (SlabLayout.stack l cpu cls).slots = p :: rest → J l →
      J (l.put cpu cls { l.stack cpu cls with slots := rest }))
    (kept : J w.sub.slab) (op : Op) : J (w.after thread env op).sub.slab := by
  cases op with
  | allocClass cls => exact call_slab (allocClass_slab pops pushes cls thread) (fun _ _ => rfl) kept
  | alloc size =>
      rw [after]
      cases found : classFor size with
      | some cls =>
          refine call_slab ?_ (fun _ _ => rfl) kept
          rw [SubHeap.alloc, found]
          exact allocClass_slab pops pushes cls thread
      | none =>
          refine call_slab ?_ (fun _ _ => rfl) kept
          rw [SubHeap.alloc, found]
          exact allocLarge_slab size
  | allocLarge size => exact call_slab (allocLarge_slab size) (fun _ _ => rfl) kept
  | refillBatch cls room => exact call_slab (refillBatch_slab cls thread room) (fun _ _ => rfl) kept
  | deallocClass p cls =>
      rw [after]
      exact call_slab (deallocClass_slab pops pushes p cls thread) (fun _ _ => rfl) kept
  | deallocClassBatch ptrs cls =>
      rw [after]
      refine call_slab ?_ (fun _ _ => rfl) kept
      refine .bind (batchAll_slab pops pushes cls thread ptrs _) fun pending => ?_
      exact .bind (flushPending_slab pending) fun _ => .ite (.ret _) (.modify fun _ => rfl)
  | deallocObject p cls =>
      rw [after]
      exact call_slab (deallocByPtr_slab pops pushes p thread) (fun _ _ => rfl) kept
  | deallocRun p size =>
      rw [after]
      exact call_slab (deallocByPtr_slab pops pushes p thread) (fun _ _ => rfl) kept
  | deallocForeign p => exact call_slab (deallocByPtr_slab pops pushes p thread) (fun _ _ => rfl) kept
  | reclaimEmptySpans maxPerLock =>
      exact call_slab (reclaimEmptySpans_slab maxPerLock) (fun _ _ => rfl) kept
  | rebalanceCapacity cpu cls count =>
      rw [after]
      refine call_slab ?_ (fun _ _ => rfl) kept
      have moved : ∀ n s, J s.slab → J ((rebalanceOne cpu cls)^[n] s).slab := by
        intro n
        induction n with
        | zero => exact fun s kept => kept
        | succ n ih =>
            intro s kept
            rw [Function.iterate_succ_apply]
            apply ih
            unfold rebalanceOne
            split
            · exact kept
            · rename_i obj rest top
              have dropped := drops s.slab cpu cls obj rest top kept
              simp only
              split <;> exact dropped
      exact Triple.inspect fun s kept => Triple.bind (Triple.modify fun s' same =>
        moved _ s' (same ▸ kept)) fun _ => Triple.ret _ fun _ kept => kept

theorem bounded_put {capPerClass cpu cls : Nat} {l : SlabLayout} {s : CpuStack}
    (bounded : Bounded capPerClass l) (capacity : s.capacity = (l.stack cpu cls).capacity)
    (fits : s.slots.length ≤ capForClass cls capPerClass) : Bounded capPerClass (l.put cpu cls s) := by
  intro cpu' cls'
  by_cases here : cpu' = cpu ∧ cls' = cls
  · obtain ⟨rfl, rfl⟩ := here
    rw [SlabLayout.put_stack_same]
    exact ⟨capacity.trans (bounded cpu' cls').1, fits⟩
  · rw [SlabLayout.put_stack_other here]
    exact bounded cpu' cls'

/-- A write changes entries, not how many there are. -/
theorem bounded_write {capPerClass : Nat} {l : SlabLayout} (bounded : Bounded capPerClass l)
    (cpu addr p : Nat) : Bounded capPerClass (l.write cpu addr p) := by
  intro cpu' cls'
  obtain ⟨capacity, length⟩ := l.write_shape cpu addr p cpu' cls'
  rw [capacity, length]
  exact bounded cpu' cls'

/-- No stack ever outgrows the capacity it was built with. -/
theorem Reached.bounded {c : Config} {admitted : Nat → Op → Prop} (reached : Reached c admitted w) :
    Bounded c.capPerClass w.sub.slab := by
  apply reached.invariant (I := fun w => Bounded c.capPerClass w.sub.slab)
  · rintro _ rfl cpu cls
    exact ⟨rfl, Nat.zero_le _⟩
  · rintro w _ bounded ⟨thread, env, op, -, -⟩
    refine after_slab ?_ ?_ ?_ bounded op
    · intro l cls turn bounded
      cases turn with
      | none => exact bounded
      | some turn =>
          simp only [SlabLayout.pop]
          split
          · exact bounded
          · split
            · exact bounded
            · rename_i p rest top
              have within := (bounded (resolvedCpu l.numCpus turn.cpu turn.anchor) cls).2
              rw [top, List.length_cons] at within
              exact bounded_put bounded rfl (Nat.le_of_succ_le within)
    · intro l cls p turn bounded
      cases turn with
      | none => exact bounded
      | some turn =>
          simp only [SlabLayout.push]
          split
          · exact bounded
          · split
            · exact bounded
            · rename_i room
              have same := (bounded (resolvedCpu l.numCpus turn.cpu turn.anchor) cls).1
              refine bounded_put (bounded_write bounded _ _ p) (l.write_shape ..).1.symm ?_
              rw [List.length_cons]
              omega
    · intro l cpu cls p rest top bounded
      have within := (bounded cpu cls).2
      rw [top, List.length_cons] at within
      exact bounded_put bounded rfl (Nat.le_of_succ_le within)

end World

/-! ## Memory -/

/-- The sub-heap as bytes: the cells of the reservation and around it by address, the
    bitmaps, which lie elsewhere, and the stop flags. -/
structure Raw where
  cells : Nat → BitVec 32
  bitmaps : SpanBitmaps
  stopped : Nat → Bool

namespace Config

def numSpans (c : Config) : Nat := (c.budgetBytes + (spanBytes - 1)) / spanBytes

/-- The block of a CPU id, whether there is one or not. -/
def block (c : Config) (cpu : Nat) : Nat := c.base + cpu * stride c.capPerClass

def headerAt (c : Config) (cpu cls : Nat) : Nat := c.block cpu + cls * 8

def slotAt (c : Config) (cpu cls i : Nat) : Nat :=
  c.block cpu + wrap32 (slotsStart c.capPerClass cls) + i * 8

/-- Eight bytes inside the reservation. -/
def Covers (c : Config) (a : Nat) : Prop := c.base ≤ a ∧ a + 8 ≤ c.arenaBase + c.budgetBytes

instance (c : Config) (a : Nat) : Decidable (c.Covers a) := inferInstanceAs (Decidable (_ ∧ _))

end Config

namespace Raw

variable (c : Config)

def current (r : Raw) (cpu cls : Nat) : Nat := (r.cells (c.headerAt cpu cls)).toNat

def capacity (r : Raw) (cpu cls : Nat) : Nat := (r.cells (c.headerAt cpu cls + 4)).toNat

def slot (r : Raw) (cpu cls i : Nat) : Nat :=
  (r.cells (c.slotAt cpu cls i)).toNat + (r.cells (c.slotAt cpu cls i + 4)).toNat * 2 ^ 32

def setCurrent (r : Raw) (cpu cls n : Nat) : Raw :=
  { r with cells := Function.update r.cells (c.headerAt cpu cls) (BitVec.ofNat 32 n) }

/-- A CPU id past the flags falls on the last of them. -/
def setStopped (r : Raw) (cpu : Nat) (stopped : Bool) : Raw :=
  { r with stopped := Function.update r.stopped (min cpu (max c.numCpus 1 - 1)) stopped }

/-- The guard is the CPU id; `can` is whether the kernel has the membarrier, `fenced`
    whether it succeeded. -/
def seizeCpu (r : Raw) (can fenced : Bool) (cpu : Nat) : Option Nat × Raw :=
  if !can then (none, r) else
    let r := r.setStopped c cpu true
    if !fenced then (none, r.setStopped c cpu false) else (some cpu, r)

/-- Set the free bit of an object; `none` is an index past the bitmap, or a division by
    the size of the sentinel class. -/
def centralDeposit (r : Raw) (obj osz : Nat) : Option Raw :=
  let span := wrap32 (wrap64 (obj + 2 ^ 64 - c.arenaBase) / spanBytes)
  let slot := wrap32 (wrap64 (obj + 2 ^ 64 - (c.arenaBase + span * spanBytes)) / osz)
  let word := span * spanBitmapWords + slot / 64
  let (idx, w) := (word / spanBitmapWords, word % spanBitmapWords)
  if osz = 0 ∨ c.numSpans * spanBitmapWords ≤ word then none
  else some { r with bitmaps := r.bitmaps.setMask idx w (Word.bit (slot % 64)) }

/-- One object off the stack; `none` is also an access outside the reservation. -/
def rebalanceOne (r : Raw) (cpu cls : Nat) : Option Raw :=
  if ¬ c.Covers (c.headerAt cpu cls) then none else
    let newCur := r.current c cpu cls - 1
    if ¬ c.Covers (c.slotAt cpu cls newCur) then none else
      let obj := r.slot c cpu cls newCur
      let r := r.setCurrent c cpu cls newCur
      if obj = 0 then some r else r.centralDeposit c obj (sizeOfClass cls)

def rebalanceLoop (cpu cls : Nat) : Nat → Raw → Option Raw
  | 0, r => some r
  | n + 1, r => (r.rebalanceOne c cpu cls).bind (rebalanceLoop cpu cls n)

def rebalanceCapacity (r : Raw) (cpu cls count : Nat) : Option (Nat × Raw) :=
  if numClasses ≤ cls ∨ ¬ c.Covers (c.headerAt cpu cls) then none else
    let take := min count (r.current c cpu cls)
    if take = 0 then some (0, r) else (rebalanceLoop c cpu cls take r).map (take, ·)

/-- Memory holds what the sub-heap has: its bitmaps, and every CPU's stacks. -/
structure Mirrors (r : Raw) (s : SubHeap) : Prop where
  bitmaps : r.bitmaps = s.bitmaps
  current : ∀ cpu < s.slab.numCpus, ∀ cls < numClasses,
    r.current c cpu cls = (s.slab.stack cpu cls).slots.length
  capacity : ∀ cpu < s.slab.numCpus, ∀ cls < numClasses,
    r.capacity c cpu cls = (s.slab.stack cpu cls).capacity
  slots : ∀ cpu < s.slab.numCpus, ∀ cls < numClasses, ∀ i < (s.slab.stack cpu cls).slots.length,
    (s.slab.stack cpu cls).slots.reverse[i]? = some (r.slot c cpu cls i)

/-- `n` objects went from the top of one stack to the free bits of their own slots, and
    nothing else changed: no other header, no slot, no flag and no cell of the arena. -/
structure Moved (cpu cls n : Nat) (r r' : Raw) : Prop where
  current : r'.current c cpu cls + n = r.current c cpu cls
  bits : ∀ k i, r'.bitmaps.freeBit k i = true ↔ r.bitmaps.freeBit k i = true ∨
    ∃ j, r'.current c cpu cls ≤ j ∧ j < r.current c cpu cls ∧ i < slotsPerSpan (sizeOfClass cls) ∧
      r.slot c cpu cls j = c.arenaBase + k * spanBytes + i * sizeOfClass cls
  alloc : r'.bitmaps.allocWords = r.bitmaps.allocWords
  links : SpanBitmaps.SameLinks r.bitmaps r'.bitmaps
  headers : ∀ cpu' < max c.numCpus 1, ∀ cls' < numClasses,
    r'.capacity c cpu' cls' = r.capacity c cpu' cls' ∧
    (¬ (cpu' = cpu ∧ cls' = cls) → r'.current c cpu' cls' = r.current c cpu' cls')
  slots : ∀ cpu' < max c.numCpus 1, ∀ cls' < numClasses, ∀ i < capForClass cls' c.capPerClass,
    r'.slot c cpu' cls' i = r.slot c cpu' cls' i
  arena : ∀ a, c.arenaBase ≤ a → r'.cells a = r.cells a
  stopped : r'.stopped = r.stopped

/-- The call does what it is for, and only that. -/
def Confined (r : Raw) (cpu cls count : Nat) : Prop :=
  ∃ r', r.rebalanceCapacity c cpu cls count = some (min count (r.current c cpu cls), r') ∧
    Moved c cpu cls (min count (r.current c cpu cls)) r r'

end Raw

/-! ## Addresses -/

theorem headers_le (cap cls : Nat) : numClasses * 12 ≤ slotsStart cap cls := by
  have : numClasses * 12 ≤ (numClasses * 8 + numClasses * 4 + 7) / 8 * 8 := by decide
  unfold slotsStart
  omega

theorem blockBytes_le (cap : Nat) : blockBytes cap ≤ stride cap := by
  have := Nat.lt_log2_self (n := max (blockBytes cap) 1 - 1)
  unfold stride
  omega

theorem slotsStart_all (cap : Nat) : slotsStart cap numClasses = blockBytes cap := rfl

namespace Config

variable {c : Config} {cpu cpu' cls cls' i : Nat}

/-- The offset of a byte in its block, within the block. -/
theorem block_inj {off off' : Nat} (inside : off < stride c.capPerClass)
    (inside' : off' < stride c.capPerClass) (same : c.block cpu + off = c.block cpu' + off') :
    cpu = cpu' ∧ off = off' := by
  unfold block at same
  have pos : 0 < stride c.capPerClass := Nat.two_pow_pos _
  have quotient := congrArg (· / stride c.capPerClass)
    (show off + cpu * stride c.capPerClass = off' + cpu' * stride c.capPerClass by omega)
  simp only [Nat.add_mul_div_right _ _ pos, Nat.div_eq_of_lt inside, Nat.div_eq_of_lt inside',
    Nat.zero_add] at quotient
  subst quotient
  exact ⟨rfl, by omega⟩

/-- The block of a CPU id that has one ends before the arena. -/
theorem block_below {off : Nat} (inside : off < stride c.capPerClass) (has : cpu < max c.numCpus 1) :
    c.block cpu + off < c.arenaBase := by
  have := Nat.mul_le_mul_right (stride c.capPerClass) (Nat.succ_le_of_lt has)
  rw [Nat.succ_mul] at this
  unfold block arenaBase slabBytes
  rw [Nat.mul_comm (stride c.capPerClass)]
  omega

/-- Any other block starts in the arena or past it. -/
theorem block_beyond (past : max c.numCpus 1 ≤ cpu) : c.arenaBase ≤ c.block cpu := by
  have := Nat.mul_le_mul_right (stride c.capPerClass) past
  unfold block arenaBase slabBytes
  rw [Nat.mul_comm (stride c.capPerClass)]
  omega

theorem header_inside (off : Nat) (isClass : cls < numClasses) (cell : off < 8) :
    cls * 8 + off < numClasses * 8 ∧ cls * 8 + off < stride c.capPerClass := by
  have := headers_le c.capPerClass numClasses
  have := blockBytes_le c.capPerClass
  rw [slotsStart_all] at *
  omega

/-- A slot lies behind the headers of its block. -/
theorem slot_inside (off : Nat) (narrow : blockBytes c.capPerClass ≤ 2 ^ 32) (isClass : cls < numClasses)
    (room : i < capForClass cls c.capPerClass) (cell : off < 8) :
    numClasses * 8 ≤ wrap32 (slotsStart c.capPerClass cls) + i * 8 + off ∧
      wrap32 (slotsStart c.capPerClass cls) + i * 8 + off < stride c.capPerClass := by
  have behind := headers_le c.capPerClass cls
  have ends := slotsStart_le c.capPerClass isClass
  have whole := blockBytes_le c.capPerClass
  rw [slotsStart_all] at ends
  rw [wrap32_small (by omega)]
  omega

end Config

/-! ## The move -/

namespace Raw

variable {c : Config} {r r' : Raw} {cpu cpu' cls cls' i n : Nat}

theorem setCurrent_current (small : n < 2 ^ 32) : (r.setCurrent c cpu cls n).current c cpu cls = n := by
  simp only [current, setCurrent, Function.update_self, BitVec.toNat_ofNat, Nat.mod_eq_of_lt small]

/-- The free bit of slot `i` of span `k`, set. -/
def deposited (r : Raw) (k i : Nat) : Raw := { r with bitmaps := r.bitmaps.set k i }

theorem deposited_slot (k j : Nat) : (r.deposited k j).slot c cpu cls i = r.slot c cpu cls i := rfl

theorem deposited_current (k j : Nat) :
    (r.deposited k j).current c cpu cls = r.current c cpu cls := rfl

/-- Only the header's own cell is written. -/
theorem setCurrent_other {a : Nat} (other : a ≠ c.headerAt cpu cls) :
    (r.setCurrent c cpu cls n).cells a = r.cells a :=
  Function.update_of_ne other _ _

theorem header_ne_header (isClass : cls < numClasses) (isClass' : cls' < numClasses)
    (different : ¬ (cpu' = cpu ∧ cls' = cls)) : c.headerAt cpu' cls' ≠ c.headerAt cpu cls := by
  intro same
  have inside := (Config.header_inside (c := c) 0 isClass (by decide)).2
  have inside' := (Config.header_inside (c := c) 0 isClass' (by decide)).2
  obtain ⟨one, two⟩ := Config.block_inj inside' inside same
  exact different ⟨one, by omega⟩

theorem capacity_ne_header (isClass : cls < numClasses) (isClass' : cls' < numClasses) :
    c.headerAt cpu' cls' + 4 ≠ c.headerAt cpu cls := by
  intro same
  have inside := (Config.header_inside (c := c) 0 isClass (by decide)).2
  have inside' := (Config.header_inside (c := c) 4 isClass' (by decide)).2
  obtain ⟨-, two⟩ := Config.block_inj inside' inside
    (by simpa only [Config.headerAt, Nat.add_assoc, Nat.add_zero] using same)
  omega

theorem slot_ne_header (off : Nat) (narrow : blockBytes c.capPerClass ≤ 2 ^ 32)
    (isClass : cls < numClasses) (isClass' : cls' < numClasses)
    (room : i < capForClass cls' c.capPerClass) (cell : off < 8) :
    c.slotAt cpu' cls' i + off ≠ c.headerAt cpu cls := by
  intro same
  have inside := Config.header_inside (c := c) 0 isClass (by decide)
  have inside' := Config.slot_inside (c := c) off narrow isClass' room cell
  obtain ⟨-, two⟩ := Config.block_inj inside'.2 inside.2
    (by simpa only [Config.headerAt, Config.slotAt, Nat.add_assoc, Nat.add_zero] using same)
  omega

theorem setCurrent_slot (narrow : blockBytes c.capPerClass ≤ 2 ^ 32) (isClass : cls < numClasses)
    (isClass' : cls' < numClasses) (room : i < capForClass cls' c.capPerClass) :
    (r.setCurrent c cpu cls n).slot c cpu' cls' i = r.slot c cpu' cls' i := by
  have low : c.slotAt cpu' cls' i + 0 ≠ c.headerAt cpu cls :=
    slot_ne_header 0 narrow isClass isClass' room (by decide)
  have high : c.slotAt cpu' cls' i + 4 ≠ c.headerAt cpu cls :=
    slot_ne_header 4 narrow isClass isClass' room (by decide)
  rw [Nat.add_zero] at low
  rw [slot, slot, setCurrent_other low, setCurrent_other high]

/-- A slot of the arena, by its address. -/
structure Addresses (c : Config) (cls obj k i : Nat) : Prop where
  isClass : IsClass cls
  inside : k < c.numSpans
  slot : i < slotsPerSpan (sizeOfClass cls)
  addr : obj = c.arenaBase + k * spanBytes + i * sizeOfClass cls

/-- A slot has one address. -/
theorem Addresses.inj {obj k k' i' : Nat} (h : Addresses c cls obj k i)
    (slot : i' < slotsPerSpan (sizeOfClass cls))
    (addr : obj = c.arenaBase + k' * spanBytes + i' * sizeOfClass cls) : k' = k ∧ i' = i := by
  have low := offset_lt h.isClass.size_pos h.slot
  have low' := offset_lt h.isClass.size_pos slot
  have same := h.addr
  unfold spanBytes at *
  have spans : k' = k := by omega
  subst spans
  exact ⟨rfl, Nat.eq_of_mul_eq_mul_right h.isClass.size_pos (by omega)⟩

theorem centralDeposit_slot {obj k : Nat} (mapped : c.Mapped) (h : Addresses c cls obj k i) :
    r.centralDeposit c obj (sizeOfClass cls) = some (r.deposited k i) := by
  obtain ⟨isClass, inside, slot, rfl⟩ := h
  have low := offset_lt isClass.size_pos slot
  have top := mapped.top
  have few : i < 8192 := by
    have := (class_geometry cls isClass.lt isClass.pos).1
    have := Nat.mul_le_mul_left i this
    unfold spanBytes at low
    omega
  have within : k * spanBytes < c.budgetBytes := by
    unfold Config.numSpans spanBytes at inside
    unfold spanBytes
    omega
  have span : wrap32 (wrap64 (c.arenaBase + k * spanBytes + i * sizeOfClass cls + 2 ^ 64 -
      c.arenaBase) / spanBytes) = k := by
    unfold wrap32 wrap64 spanBytes at *
    omega
  have index : wrap32 (wrap64 (c.arenaBase + k * spanBytes + i * sizeOfClass cls + 2 ^ 64 -
      (c.arenaBase + k * spanBytes)) / sizeOfClass cls) = i := by
    rw [show c.arenaBase + k * spanBytes + i * sizeOfClass cls + 2 ^ 64 -
      (c.arenaBase + k * spanBytes) = i * sizeOfClass cls + 2 ^ 64 by omega, wrap64,
      Nat.add_mod_right, Nat.mod_eq_of_lt (by unfold spanBytes at low; omega),
      Nat.mul_div_cancel _ isClass.size_pos, wrap32_small (by omega)]
  simp only [centralDeposit, span, index]
  have word : (k * spanBitmapWords + i / 64) / spanBitmapWords = k ∧
      (k * spanBitmapWords + i / 64) % spanBitmapWords = i / 64 := by
    unfold spanBitmapWords
    omega
  rw [if_neg, word.1, word.2]
  · rfl
  · have := isClass.size_pos
    unfold spanBitmapWords
    omega

/-- One stack in memory, listed from the top. -/
structure Loaded (c : Config) (cpu cls : Nat) (objs : List Nat) (r : Raw) : Prop where
  current : r.current c cpu cls = objs.length
  slots : ∀ i < objs.length, objs.reverse[i]? = some (r.slot c cpu cls i)

theorem Loaded.small {objs : List Nat} (loaded : Loaded c cpu cls objs r) : objs.length < 2 ^ 32 := by
  rw [← loaded.current]
  exact BitVec.isLt _

section Stack

variable (mapped : c.Mapped) (narrow : blockBytes c.capPerClass ≤ 2 ^ 32) (has : cpu < max c.numCpus 1)
  (isClass : cls < numClasses)

include narrow has isClass in
theorem covered : c.Covers (c.headerAt cpu cls) ∧
    ∀ i < capForClass cls c.capPerClass, c.Covers (c.slotAt cpu cls i) := by
  have headerEnd := Config.block_below (Config.header_inside 7 isClass (by decide)).2 has
  refine ⟨⟨by unfold Config.headerAt Config.block; omega, ?_⟩, fun i room => ⟨?_, ?_⟩⟩
  · unfold Config.headerAt
    omega
  · unfold Config.slotAt Config.block
    omega
  · have slotEnd := Config.block_below
      (Config.slot_inside (c := c) (i := i) 7 narrow isClass room (by decide)).2 has
    unfold Config.slotAt
    omega

include mapped narrow has isClass in
theorem rebalanceOne_loaded {obj k : Nat} {rest : List Nat} (loaded : Loaded c cpu cls (obj :: rest) r)
    (fits : rest.length < capForClass cls c.capPerClass) (slot : Addresses c cls obj k i) :
    r.rebalanceOne c cpu cls = some ((r.setCurrent c cpu cls rest.length).deposited k i) ∧
      Loaded c cpu cls rest ((r.setCurrent c cpu cls rest.length).deposited k i) := by
  obtain ⟨header, slots⟩ := covered narrow has isClass
  have top : r.slot c cpu cls rest.length = obj := by
    have last := loaded.slots rest.length (by simp)
    rw [List.reverse_cons, List.getElem?_append_right (by simp), List.length_reverse, Nat.sub_self,
      List.getElem?_cons_zero] at last
    exact (Option.some.inj last).symm
  have nonNull : obj ≠ 0 := by
    have := mapped.nonNull
    have := slot.addr
    unfold Config.arenaBase at this
    omega
  have small := loaded.small
  rw [List.length_cons] at small
  constructor
  · have newCur : r.current c cpu cls - 1 = rest.length := by
      rw [loaded.current, List.length_cons, Nat.add_sub_cancel]
    simp only [rebalanceOne, newCur, top, if_neg (not_not_intro header),
      if_neg (not_not_intro (slots _ fits)), if_neg nonNull]
    exact centralDeposit_slot mapped slot
  · constructor
    · rw [deposited_current, setCurrent_current (by omega)]
    · intro j below
      have old := loaded.slots j (by rw [List.length_cons]; omega)
      rw [List.reverse_cons, List.getElem?_append_left (by rwa [List.length_reverse])] at old
      rw [old, deposited_slot, setCurrent_slot narrow isClass isClass (by omega)]

theorem deposited_freeBit (k j k' i' : Nat) : (r.deposited k j).bitmaps.freeBit k' i' = true ↔
    r.bitmaps.freeBit k' i' = true ∨ (k' = k ∧ i' = j) := by
  rw [deposited, SpanBitmaps.set, SpanBitmaps.setMask_freeBit, Word.getLsbD_bit]
  simp only [Bool.or_eq_true, Bool.and_eq_true, decide_eq_true_eq]
  refine or_congr_right ⟨fun h => ⟨h.1.1, by omega⟩, ?_⟩
  rintro ⟨rfl, rfl⟩
  exact ⟨⟨rfl, rfl⟩, rfl, Nat.mod_lt _ (by decide)⟩

/-- What the loop does to memory when it takes `objs` off a stack. -/
structure Taken (c : Config) (cpu cls : Nat) (objs : List Nat) (r r' : Raw) : Prop where
  cells : ∀ a, a ≠ c.headerAt cpu cls → r'.cells a = r.cells a
  bits : ∀ k i, r'.bitmaps.freeBit k i = true ↔ r.bitmaps.freeBit k i = true ∨
    ∃ obj ∈ objs, i < slotsPerSpan (sizeOfClass cls) ∧
      obj = c.arenaBase + k * spanBytes + i * sizeOfClass cls
  alloc : r'.bitmaps.allocWords = r.bitmaps.allocWords
  links : SpanBitmaps.SameLinks r.bitmaps r'.bitmaps
  stopped : r'.stopped = r.stopped

theorem Taken.none (c : Config) (cpu cls : Nat) (r : Raw) : Taken c cpu cls [] r r :=
  ⟨fun _ _ => rfl, by simp, rfl, .refl _, rfl⟩

theorem Taken.cons {obj k : Nat} {objs : List Nat} (slot : Addresses c cls obj k i)
    (later : Taken c cpu cls objs ((r.setCurrent c cpu cls n).deposited k i) r') :
    Taken c cpu cls (obj :: objs) r r' where
  cells a other := (later.cells a other).trans (setCurrent_other other)
  bits k' i' := by
    rw [later.bits, deposited_freeBit, or_assoc]
    refine or_congr_right ?_
    simp only [List.mem_cons, exists_eq_or_imp]
    refine or_congr_left ⟨?_, fun h => slot.inj h.1 h.2⟩
    rintro ⟨rfl, rfl⟩
    exact ⟨slot.slot, slot.addr⟩
  alloc := later.alloc
  links := by
    have set : SpanBitmaps.SameLinks r.bitmaps
        ((r.setCurrent c cpu cls n).deposited k i).bitmaps := ⟨rfl, rfl, rfl⟩
    exact set.trans later.links
  stopped := later.stopped

include mapped narrow has isClass in
theorem rebalanceLoop_loaded {objs : List Nat} (loaded : Loaded c cpu cls objs r)
    (fits : objs.length ≤ capForClass cls c.capPerClass)
    (slots : ∀ obj ∈ objs, ∃ k i, Addresses c cls obj k i) (n : Nat) (enough : n ≤ objs.length) :
    ∃ r', rebalanceLoop c cpu cls n r = some r' ∧ Loaded c cpu cls (objs.drop n) r' ∧
      Taken c cpu cls (objs.take n) r r' := by
  induction n generalizing objs r with
  | zero => exact ⟨r, rfl, loaded, .none c cpu cls r⟩
  | succ n ih =>
      cases objs with
      | nil => cases enough
      | cons obj rest =>
          rw [List.length_cons] at fits enough
          obtain ⟨⟨k, i, slot⟩, slots⟩ := List.forall_mem_cons.mp slots
          obtain ⟨first, loaded⟩ := rebalanceOne_loaded mapped narrow has isClass loaded
            (by omega) slot
          obtain ⟨r', ran, left, taken⟩ := ih loaded (by omega) slots (by omega)
          exact ⟨r', by rw [rebalanceLoop, first, Option.bind_some, ran], left, taken.cons slot⟩

end Stack

/-- The top `n` entries of a stack, as slots of memory. -/
theorem Loaded.mem_take {objs : List Nat} (loaded : Loaded c cpu cls objs r) (enough : n ≤ objs.length)
    {obj : Nat} : obj ∈ objs.take n ↔
      ∃ j, objs.length - n ≤ j ∧ j < objs.length ∧ r.slot c cpu cls j = obj := by
  constructor
  · intro member
    obtain ⟨t, below, same⟩ := List.mem_take_iff_getElem.mp member
    have inside : objs.length - 1 - t < objs.length := by omega
    refine ⟨objs.length - 1 - t, by omega, inside, ?_⟩
    have here := loaded.slots _ inside
    rw [List.getElem?_reverse inside, show objs.length - 1 - (objs.length - 1 - t) = t by omega,
      List.getElem?_eq_getElem (by omega), same] at here
    exact (Option.some.inj here).symm
  · rintro ⟨j, above, below, rfl⟩
    have here := loaded.slots j below
    rw [List.getElem?_reverse below] at here
    obtain ⟨inside, same⟩ := List.getElem?_eq_some_iff.mp here
    exact List.mem_take_iff_getElem.mpr ⟨objs.length - 1 - j, by omega, same⟩

theorem Taken.moved {objs : List Nat} (narrow : blockBytes c.capPerClass ≤ 2 ^ 32)
    (has : cpu < max c.numCpus 1) (isClass : cls < numClasses) (loaded : Loaded c cpu cls objs r)
    (enough : n ≤ objs.length) (loaded' : Loaded c cpu cls (objs.drop n) r')
    (taken : Taken c cpu cls (objs.take n) r r') : Moved c cpu cls n r r' where
  current := by
    rw [loaded.current, loaded'.current, List.length_drop]
    omega
  bits k i := by
    rw [taken.bits, loaded.current, loaded'.current, List.length_drop]
    refine or_congr_right ⟨?_, ?_⟩
    · rintro ⟨obj, member, slot, addr⟩
      obtain ⟨j, above, below, same⟩ := (loaded.mem_take enough).mp member
      exact ⟨j, above, below, slot, same.trans addr⟩
    · rintro ⟨j, above, below, slot, addr⟩
      exact ⟨_, (loaded.mem_take enough).mpr ⟨j, above, below, rfl⟩, slot, addr⟩
  alloc := taken.alloc
  links := taken.links
  headers cpu' _ cls' isClass' := by
    constructor
    · rw [capacity, capacity, taken.cells _ (capacity_ne_header isClass isClass')]
    · intro different
      rw [current, current, taken.cells _ (header_ne_header isClass isClass' different)]
  slots cpu' _ cls' isClass' i room := by
    have low : c.slotAt cpu' cls' i + 0 ≠ c.headerAt cpu cls :=
      slot_ne_header 0 narrow isClass isClass' room (by decide)
    have high : c.slotAt cpu' cls' i + 4 ≠ c.headerAt cpu cls :=
      slot_ne_header 4 narrow isClass isClass' room (by decide)
    rw [Nat.add_zero] at low
    rw [slot, slot, taken.cells _ low, taken.cells _ high]
  arena a beyond := by
    apply taken.cells
    have below := Config.block_below (Config.header_inside 0 isClass (by decide)).2 has
    unfold Config.headerAt
    omega
  stopped := taken.stopped

/-! ## Which CPU ids are safe -/

variable {w : World} {count : Nat}

theorem bare_ledger (mapped : c.Mapped)
    (reached : World.Reached c (fun _ op => op.size + (spanBytes - 1) < 2 ^ 64) w) :
    World.Tracked .bare False (c.geometry fun _ => True) w :=
  reached.tracked mapped fun _ _ bound =>
    ⟨bound, fun on => (on rfl).elim, trivial, fun on => nomatch on⟩

/-- What a CPU caches are slots of the arena. -/
theorem stack_slots (mapped : c.Mapped)
    (reached : World.Reached c (fun _ op => op.size + (spanBytes - 1) < 2 ^ 64) w)
    (has : cpu < w.sub.slab.numCpus) {obj : Nat} (member : obj ∈ (w.sub.slab.stack cpu cls).slots) :
    ∃ k i, Addresses c cls obj k i := by
  obtain ⟨_, _, _, W, role, ledger, -⟩ := bare_ledger mapped reached
  have cached : obj ∈ w.sub.slab.cached cls :=
    Multiset.mem_sum.mpr ⟨cpu, Finset.mem_range.mpr has, Multiset.mem_coe.mpr member⟩
  obtain ⟨k, sh, i, active, slot, addr⟩ := ledger.slots.outside cls obj (.inl cached)
  obtain ⟨isClass, -, inside, -⟩ := ledger.cells.groups k k cls sh active
  refine ⟨k, i, isClass, ?_, slot, addr⟩
  rwa [SpanTable.numSpans, ledger.stock.grid.len] at inside

/-- A guard moves what its CPU caches and touches nothing else exactly when its CPU has a
    block, or there is nothing to move where its block would be. -/
theorem rebalance_confined_iff {r₀ : Raw} {can fenced : Bool} {guard : Nat} (mapped : c.Mapped)
    (narrow : blockBytes c.capPerClass ≤ 2 ^ 32)
    (reached : World.Reached c (fun _ op => op.size + (spanBytes - 1) < 2 ^ 64) w)
    (mirrors : r.Mirrors c w.sub) (seized : r₀.seizeCpu c can fenced cpu = (some guard, r))
    (isClass : cls < numClasses) (count : Nat) :
    r.Confined c guard cls count ↔ cpu < max c.numCpus 1 ∨
      c.Covers (c.headerAt cpu cls) ∧ (count = 0 ∨ r.cells (c.headerAt cpu cls) = 0#32) := by
  obtain rfl : cpu = guard := by
    unfold seizeCpu at seized
    split at seized
    · cases seized
    · simp only at seized
      split at seized
      · cases seized
      · cases seized
        rfl
  constructor
  · rintro ⟨r', ran, moved⟩
    rw [or_iff_not_imp_left, not_lt]
    intro past
    unfold rebalanceCapacity at ran
    split at ran
    · cases ran
    · rename_i valid
      refine ⟨not_not.mp (not_or.mp valid).2, ?_⟩
      have beyond := Config.block_beyond past
      have same : r'.current c cpu cls = r.current c cpu cls := by
        rw [current, current, moved.arena _ (by unfold Config.headerAt; omega)]
      have none := moved.current
      rw [same] at none
      have zero : count = 0 ∨ r.current c cpu cls = 0 := by omega
      exact zero.imp_right fun empty => BitVec.eq_of_toNat_eq empty
  · rintro (has | ⟨covers, none⟩)
    · obtain ⟨_, _, _, W, role, ledger, -⟩ := bare_ledger mapped reached
      have inside : cpu < w.sub.slab.numCpus := by
        rw [ledger.stock.grid.numCpus]
        exact has
      have loaded : Loaded c cpu cls (w.sub.slab.stack cpu cls).slots r :=
        ⟨mirrors.current cpu inside cls isClass, mirrors.slots cpu inside cls isClass⟩
      have enough : min count (r.current c cpu cls) ≤ (w.sub.slab.stack cpu cls).slots.length := by
        rw [loaded.current]
        exact min_le_right _ _
      obtain ⟨r', ran, left, taken⟩ := rebalanceLoop_loaded mapped narrow has isClass loaded
        (reached.bounded cpu cls).2 (fun obj member => stack_slots mapped reached inside member)
        _ enough
      refine ⟨r', ?_, taken.moved narrow has isClass loaded enough left⟩
      rw [rebalanceCapacity, if_neg (by
        rw [not_or, not_not]
        exact ⟨by omega, (covered narrow has isClass).1⟩)]
      simp only
      split
      · rename_i zero
        rw [zero] at ran ⊢
        rw [Option.some.inj ran]
      · rw [ran, Option.map_some]
    · have zero : min count (r.current c cpu cls) = 0 := by
        rcases none with rfl | empty
        · exact Nat.zero_min _
        · rw [current, empty, BitVec.toNat_zero, Nat.min_zero]
      refine ⟨r, ?_, ?_⟩
      · rw [rebalanceCapacity, if_neg (by
          rw [not_or, not_not]
          exact ⟨by omega, covers⟩)]
        simp only [zero, if_true]
      · rw [zero]
        exact ⟨rfl, fun k i => by simp; omega, rfl, .refl _, fun _ _ _ _ => ⟨rfl, fun _ => rfl⟩,
          fun _ _ _ _ _ _ => rfl, fun _ _ => rfl, rfl⟩

/-- The memory of the outstanding run: its one CPU caches nothing, and the application has
    written a five to its object, sixteen bytes in. -/
def written : Raw where
  cells a :=
    if a = World.fiveSpans.arenaBase + 3 * spanBytes + 16 then 5#32
    else if a < 4096 + numClasses * 8 ∧ a % 8 = 4 then
      BitVec.ofNat 32 (capForClass ((a - 4096) / 8) 8)
    else 0#32
  bitmaps := World.outstanding.sub.bitmaps
  stopped _ := false

theorem written_mirrors (cells : r.cells = written.cells) (bitmaps : r.bitmaps = written.bitmaps) :
    r.Mirrors World.fiveSpans World.outstanding.sub := by
  have one : World.outstanding.sub.slab.numCpus = 1 := by decide +kernel
  have none : ∀ cls < numClasses, (World.outstanding.sub.slab.stack 0 cls).slots = [] := by
    decide +kernel
  have header : ∀ cls < numClasses, (written.cells (World.fiveSpans.headerAt 0 cls)).toNat = 0 ∧
      (written.cells (World.fiveSpans.headerAt 0 cls + 4)).toNat =
        (World.outstanding.sub.slab.stack 0 cls).capacity := by
    decide +kernel
  refine ⟨bitmaps, fun cpu has cls isClass => ?_, fun cpu has cls isClass => ?_,
    fun cpu has cls isClass i below => ?_⟩
  · obtain rfl : cpu = 0 := by omega
    rw [none cls isClass, current, cells, (header cls isClass).1, List.length_nil]
  · obtain rfl : cpu = 0 := by omega
    rw [capacity, cells, (header cls isClass).2]
  · obtain rfl : cpu = 0 := by omega
    rw [none cls isClass] at below
    cases below

theorem seizeCpu_ok (r : Raw) (c : Config) (cpu : Nat) :
    r.seizeCpu c true true cpu = (some cpu, r.setStopped c cpu true) := rfl

theorem outstanding_bare :
    World.Reached World.fiveSpans (fun _ op => op.size + (spanBytes - 1) < 2 ^ 64) World.outstanding :=
  (World.outstanding_reached _ (by decide) (by decide)).reached

/-- The scattered run with its last object freed too: two lie on the stack of the CPU. -/
def shelved : World := World.scattered.after 0 [⟨0, 0, false⟩] (.deallocClass (World.quarter 3 0) 38)

/-- Its memory. -/
def stored : Raw where
  cells a :=
    if a = World.fiveSpans.headerAt 0 38 then 2#32
    else if a = World.fiveSpans.slotAt 0 38 0 then BitVec.ofNat 32 (World.quarter 3 1)
    else if a = World.fiveSpans.slotAt 0 38 1 then BitVec.ofNat 32 (World.quarter 3 0)
    else if a < 4096 + numClasses * 8 ∧ a % 8 = 4 then
      BitVec.ofNat 32 (capForClass ((a - 4096) / 8) 8)
    else 0#32
  bitmaps := shelved.sub.bitmaps
  stopped _ := false

theorem shelved_run : shelved.sub.slab.numCpus = 1 ∧ ∀ cls < numClasses,
    (shelved.sub.slab.stack 0 cls).slots =
      (if cls = 38 then [World.quarter 3 0, World.quarter 3 1] else []) ∧
    (stored.cells (World.fiveSpans.headerAt 0 cls)).toNat = (if cls = 38 then 2 else 0) ∧
    (stored.cells (World.fiveSpans.headerAt 0 cls + 4)).toNat =
      (shelved.sub.slab.stack 0 cls).capacity := by
  decide +kernel

attribute [irreducible] shelved

theorem stored_mirrors (cells : r.cells = stored.cells) (bitmaps : r.bitmaps = stored.bitmaps) :
    r.Mirrors World.fiveSpans shelved.sub := by
  obtain ⟨one, each⟩ := shelved_run
  have slots : stored.slot World.fiveSpans 0 38 0 = World.quarter 3 1 ∧
      stored.slot World.fiveSpans 0 38 1 = World.quarter 3 0 := by decide +kernel
  refine ⟨bitmaps, fun cpu has cls isClass => ?_, fun cpu has cls isClass => ?_,
    fun cpu has cls isClass i below => ?_⟩
  · obtain rfl : cpu = 0 := by omega
    obtain ⟨list, current, -⟩ := each cls isClass
    rw [Raw.current, cells, current, list]
    split <;> rfl
  · obtain rfl : cpu = 0 := by omega
    rw [capacity, cells, (each cls isClass).2.2]
  · obtain rfl : cpu = 0 := by omega
    rw [(each cls isClass).1] at below ⊢
    by_cases only : cls = 38
    · subst only
      rw [if_pos rfl] at below ⊢
      have same : r.slot World.fiveSpans 0 38 i = stored.slot World.fiveSpans 0 38 i := by
        rw [slot, slot, cells]
      rw [same]
      rcases i with _ | _ | i
      · rw [slots.1]
        rfl
      · rw [slots.2]
        rfl
      · simp only [List.length_cons, List.length_nil] at below
        omega
    · rw [if_neg only] at below
      cases below

theorem shelved_bare :
    World.Reached World.fiveSpans (fun _ op => op.size + (spanBytes - 1) < 2 ^ 64) shelved := by
  have reached := World.scattered_reached (fun _ op => op.size + (spanBytes - 1) < 2 ^ 64)
    fun _ op _ none => by
      unfold spanBytes
      omega
  unfold shelved
  exact reached.reached.call 0 [⟨0, 0, false⟩] (.deallocClass (World.quarter 3 0) 38)
    (by decide +kernel) (by decide)

/-- The CPU the sub-heap has a block for: of the two objects on its stack the upper one
    goes back to its bitmap. -/
theorem rebalance_confined_iff_zero : ∃ r',
    (stored.setStopped World.fiveSpans 0 true).rebalanceCapacity World.fiveSpans 0 38 1 = some (1, r') ∧
      Moved World.fiveSpans 0 38 1 (stored.setStopped World.fiveSpans 0 true) r' ∧
      r'.bitmaps.freeBit 3 0 = true := by
  have mirrors : (stored.setStopped World.fiveSpans 0 true).Mirrors World.fiveSpans shelved.sub :=
    stored_mirrors rfl rfl
  have exact := rebalance_confined_iff World.fiveSpans_mapped (by decide +kernel) shelved_bare
    mirrors (seizeCpu_ok stored World.fiveSpans 0) (by decide : 38 < numClasses) 1
  obtain ⟨r', ran, moved⟩ := exact.mpr (.inl (by decide))
  have two : (stored.setStopped World.fiveSpans 0 true).current World.fiveSpans 0 38 = 2 := by
    decide +kernel
  have upper : (stored.setStopped World.fiveSpans 0 true).slot World.fiveSpans 0 38 1 =
      World.quarter 3 0 := by decide +kernel
  rw [two] at ran moved
  refine ⟨r', ran, moved, (moved.bits 3 0).mpr (.inr ⟨1, ?_, ?_, by decide, ?_⟩)⟩
  · have := moved.current
    omega
  · omega
  · exact upper

/-- CPU 49 of a machine, for a sub-heap of one CPU: its block would start at the object the
    application holds, and rebalancing overwrites the five there with a two. -/
theorem rebalance_overwrites : World.fiveSpans.Mapped ∧
    World.Reached World.fiveSpans (fun _ op => op.size + (spanBytes - 1) < 2 ^ 64) World.outstanding ∧
    written.Mirrors World.fiveSpans World.outstanding.sub ∧
    (World.fiveSpans.arenaBase + 3 * spanBytes, 44) ∈ World.outstanding.objects ∧
    written.seizeCpu World.fiveSpans true true 49 =
      (some 49, written.setStopped World.fiveSpans 49 true) ∧
    ((written.setStopped World.fiveSpans 49 true).rebalanceCapacity World.fiveSpans 49 2 3).map
        (fun x => (x.1, x.2.cells (World.fiveSpans.arenaBase + 3 * spanBytes + 16))) =
      some (3, 2#32) ∧
    ¬ (written.setStopped World.fiveSpans 49 true).Confined World.fiveSpans 49 2 3 := by
  have ran : ((written.setStopped World.fiveSpans 49 true).rebalanceCapacity World.fiveSpans
      49 2 3).map (fun x => (x.1, x.2.cells (World.fiveSpans.arenaBase + 3 * spanBytes + 16))) =
      some (3, 2#32) := by decide +kernel
  have before : (written.setStopped World.fiveSpans 49 true).cells
      (World.fiveSpans.arenaBase + 3 * spanBytes + 16) = 5#32 := by decide +kernel
  refine ⟨World.fiveSpans_mapped, outstanding_bare, written_mirrors rfl rfl, ?_, seizeCpu_ok .., ran, ?_⟩
  · simp [World.outstanding_run.2.1, spanBytes]
  rintro ⟨r', ran', moved⟩
  have same := moved.arena (World.fiveSpans.arenaBase + 3 * spanBytes + 16) (by omega)
  rw [ran', Option.map_some, same, before] at ran
  have changed : 5#32 = 2#32 := congrArg Prod.snd (Option.some.inj ran)
  exact absurd changed (by decide)

end Raw

end SubHeap

end Toccata
