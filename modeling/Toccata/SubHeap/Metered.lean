import Mathlib.Data.BitVec
import Toccata.SubHeap

/-! # Live counters

Every CPU has one cell of counters, with a half for itself and an atomic half for
others. What is live is the sum over all cells: an object may be charged to one cell
and credited to another, so a cell by itself may go negative. A metered sub-heap runs
the programs of the sub-heap and charges as they do, on whatever CPU the thread is
told it runs on; ids past the last cell share it. A batch of frees charges once.
-/

namespace Toccata

open Foundations SizeClass

/-- 64-bit and wrapping. -/
structure CpuCounter where
  localBytes : BitVec 64
  localObjs : BitVec 64
  remoteBytes : BitVec 64
  remoteObjs : BitVec 64

structure PerCpuCounters where
  len : Nat
  cells : Nat → CpuCounter

namespace PerCpuCounters

def new (numCpus : Nat) : PerCpuCounters where
  len := max numCpus 1
  cells _ := ⟨0#64, 0#64, 0#64, 0#64⟩

def cell (c : PerCpuCounters) (cpu : Nat) : Nat := min cpu (c.len - 1)

def addLocal (c : PerCpuCounters) (cpu : Nat) (bytes objs : Int) : PerCpuCounters :=
  let old := c.cells (c.cell cpu)
  { c with cells := Function.update c.cells (c.cell cpu) { old with
      localBytes := old.localBytes + BitVec.ofInt 64 bytes
      localObjs := old.localObjs + BitVec.ofInt 64 objs } }

def addRemote (c : PerCpuCounters) (cpu : Nat) (bytes objs : Int) : PerCpuCounters :=
  let old := c.cells (c.cell cpu)
  { c with cells := Function.update c.cells (c.cell cpu) { old with
      remoteBytes := old.remoteBytes + BitVec.ofInt 64 bytes
      remoteObjs := old.remoteObjs + BitVec.ofInt 64 objs } }

/-- The wrapped sum over the cells. -/
def sumBytes (c : PerCpuCounters) : BitVec 64 :=
  ((List.range c.len).map fun i => (c.cells i).localBytes + (c.cells i).remoteBytes).sum

def sumObjs (c : PerCpuCounters) : BitVec 64 :=
  ((List.range c.len).map fun i => (c.cells i).localObjs + (c.cells i).remoteObjs).sum

def totalBytes (c : PerCpuCounters) : Nat := (max c.sumBytes.toInt 0).toNat

def totalObjs (c : PerCpuCounters) : Nat := (max c.sumObjs.toInt 0).toNat

end PerCpuCounters

/-- A sub-heap with its counters. -/
structure Metered where
  sub : SubHeap
  counters : PerCpuCounters

namespace Metered

def lift {α : Type} (m : Prog Turn SubHeap α) : Prog Turn Metered α :=
  Prog.within Metered.sub (fun sub m => { m with sub }) m

def addLocal (cpu : Nat) (bytes objs : Int) : Prog Turn Metered Unit :=
  Prog.modify fun m => { m with counters := m.counters.addLocal cpu bytes objs }

def addRemote (cpu : Nat) (bytes objs : Int) : Prog Turn Metered Unit :=
  Prog.modify fun m => { m with
    counters := m.counters.addRemote (min cpu (m.counters.len - 1)) bytes objs }

def liveBytes (m : Metered) : Nat := m.counters.totalBytes

def liveObjects (m : Metered) : Nat := m.counters.totalObjs

/-! ## Charges -/

def allocClass (cls threadShard cpu : Nat) : Prog Turn Metered (Option Nat) := do
  match ← lift (SubHeap.allocClass cls threadShard) with
  | none => return none
  | some p => do
      addLocal cpu (sizeOfClass cls) 1
      return some p

def deallocClass (p cls threadShard cpu : Nat) : Prog Turn Metered Unit := do
  lift (SubHeap.deallocClass p cls threadShard)
  addLocal cpu (-sizeOfClass cls) (-1)

def deallocClassBatch (ptrs : List Nat) (cls threadShard cpu : Nat) : Prog Turn Metered Unit := do
  lift (SubHeap.deallocClassBatch ptrs cls threadShard)
  if 0 < ptrs.length then
    addLocal cpu (-sizeOfClass cls * ptrs.length) (-ptrs.length)
  else
    return ()

def refillBatch (cls threadShard room cpu : Nat) : Prog Turn Metered (List Nat) := do
  let objs ← lift (SubHeap.refillBatch .alone cls threadShard room)
  if 0 < objs.length then
    addLocal cpu (sizeOfClass cls * objs.length) objs.length
    return objs
  else
    return objs

def allocLarge (size cpu : Nat) : Prog Turn Metered (Option Nat) := do
  match ← lift (SubHeap.allocLarge size) with
  | none => return none
  | some p => do
      addRemote cpu (SubHeap.runBytes size) 1
      return some p

/-- The run is credited by the length its record had, once it is back in the pool. -/
def deallocLarge (ptr cpu : Nat) : Prog Turn Metered Unit := do
  let m ← Prog.read
  let spanCount := (m.sub.large.runSpans.get? (m.sub.large.spanIndex ptr)).getD 0
  lift (SubHeap.deallocLarge ptr)
  if spanCount = 0 then
    return ()
  else
    addRemote cpu (-(spanCount * spanBytes : Nat)) (-1)

def deallocByPtr (ptr threadShard cpu : Nat) : Prog Turn Metered Bool := do
  let m ← Prog.read
  match m.sub.spans.lookup ptr with
  | none => return false
  | some (cls, _) => do
      if cls = largeClass then deallocLarge ptr cpu else deallocClass ptr cls threadShard cpu
      return true

def alloc (size threadShard cpu : Nat) : Prog Turn Metered (Option Nat) :=
  match classFor size with
  | some cls => allocClass cls threadShard cpu
  | none => allocLarge size cpu

/-- The objects freed one after another. -/
def deallocEach (cls threadShard cpu : Nat) : List Nat → Prog Turn Metered Unit
  | [] => return ()
  | p :: rest => do
      deallocClass p cls threadShard cpu
      deallocEach cls threadShard cpu rest

end Metered

/-! ## Deposits commute -/

namespace SubHeap

/-- A mask of free bits deposited in one word. -/
def masked (span word : Nat) (mask : Word) (s : SubHeap) : SubHeap :=
  { s with bitmaps := s.bitmaps.setMask span word mask }

/-- The memory once the gathered bits are deposited. -/
def Pending.flushed (pending : Pending) (s : SubHeap) : SubHeap :=
  if pending.mask = 0#64 then s else s.masked pending.span pending.word pending.mask

variable {s : SubHeap} {span word span' word' : Nat} {mask mask' : Word} {pending : Pending}
  {cls p thread : Nat}

theorem setMask_freeWords (b : SpanBitmaps) (k w : Nat) :
    (b.setMask span word mask).freeWords k w =
      b.freeWords k w ||| if k = span ∧ w = word then mask else 0#64 := by
  simp only [SpanBitmaps.setMask, SpanBitmaps.putFree]
  by_cases here : k = span
  · subst here
    by_cases low : w = word
    · subst low
      simp
    · simp [low]
  · simp [here]

theorem setMask_comm (b : SpanBitmaps) :
    (b.setMask span word mask).setMask span' word' mask' =
      (b.setMask span' word' mask').setMask span word mask := by
  have words : ((b.setMask span word mask).setMask span' word' mask').freeWords =
      ((b.setMask span' word' mask').setMask span word mask).freeWords := by
    funext k w
    simp only [setMask_freeWords, BitVec.or_assoc]
    rw [BitVec.or_comm (if k = span ∧ w = word then mask else 0#64)]
  simp only [SpanBitmaps.setMask, SpanBitmaps.putFree] at words ⊢
  rw [words]

theorem setMask_same (b : SpanBitmaps) :
    (b.setMask span word mask).setMask span word mask' = b.setMask span word (mask ||| mask') := by
  simp only [SpanBitmaps.setMask, SpanBitmaps.putFree, Function.update_self, Function.update_idem,
    BitVec.or_assoc]

theorem deposited_masked (obj osz : Nat) :
    (s.masked span word mask).deposited obj osz = (s.deposited obj osz).masked span word mask := by
  simp only [deposited, masked, SpanBitmaps.set]
  rw [setMask_comm]
  rfl

theorem slabPop_commutes : Commutes (masked span word mask) (slabPop cls) :=
  Commutes.ask.bind fun _ => Commutes.apply fun _ => rfl

theorem slabPush_commutes : Commutes (masked span word mask) (slabPush cls p) :=
  Commutes.ask.bind fun _ => Commutes.apply fun _ => rfl

theorem centralDeposit_commutes (osz : Nat) :
    Commutes (masked span word mask) (centralDeposit p osz) :=
  Commutes.modify fun _ => deposited_masked p osz

theorem stash_commutes : Commutes (masked span word mask) (stash cls p) := by
  apply slabPush_commutes.bind
  intro r
  cases r with
  | ok => exact Commutes.ret ()
  | needsSlow => exact centralDeposit_commutes _

theorem drain_commutes : Commutes (masked span word mask) (drain cls p) := by
  refine Commutes.bind (Commutes.upTo ?_ _) fun _ => stash_commutes
  apply slabPop_commutes.bind
  intro r
  cases r with
  | ok q => exact (centralDeposit_commutes _).bind fun _ => Commutes.ret true
  | needsSlow => exact Commutes.ret false

/-- A local free does not notice a deposit still to come. -/
theorem freeLocal_commutes : Commutes (masked span word mask) (freeLocal cls p) := by
  apply slabPush_commutes.bind
  intro r
  cases r with
  | ok => exact Commutes.ret ()
  | needsSlow => exact drain_commutes

theorem Pending.commutes (pending : Pending) (cls p : Nat) : Commutes pending.flushed (freeLocal cls p) := by
  by_cases empty : pending.mask = 0#64
  · have same : pending.flushed = id := by
      funext s
      rw [flushed, if_pos empty, id]
    rw [same]
    exact fun _ _ => rfl
  · have same : pending.flushed = masked pending.span pending.word pending.mask := by
      funext s
      rw [flushed, if_neg empty]
    rw [same]
    exact freeLocal_commutes

/-! ## A batch and its objects one by one -/

/-- A local free never panics, and leaves the arena where it is. -/
theorem freeLocal_returns (cls p base : Nat) : Triple (·.bitmaps.base = base) (freeLocal cls p)
    (fun _ s => s.bitmaps.base = base) (fun _ => False) := by
  have pops : Triple (·.bitmaps.base = base) (slabPop cls) (fun _ s => s.bitmaps.base = base)
      (fun _ => False) :=
    Triple.bind (Triple.ask fun _ _ here => here) fun _ => Triple.apply fun _ here => here
  have pushes : Triple (·.bitmaps.base = base) (slabPush cls p) (fun _ s => s.bitmaps.base = base)
      (fun _ => False) :=
    Triple.bind (Triple.ask fun _ _ here => here) fun _ => Triple.apply fun _ here => here
  have deposits : ∀ q, Triple (·.bitmaps.base = base) (centralDeposit q (sizeOfClass cls))
      (fun _ s => s.bitmaps.base = base) (fun _ => False) :=
    fun _ => Triple.modify fun _ here => here
  have stashes : Triple (·.bitmaps.base = base) (stash cls p) (fun _ s => s.bitmaps.base = base)
      (fun _ => False) := by
    apply Triple.bind pushes
    intro r
    cases r with
    | ok => exact Triple.ret () fun _ here => here
    | needsSlow => exact deposits p
  apply Triple.bind pushes
  intro r
  cases r with
  | ok => exact Triple.ret () fun _ here => here
  | needsSlow =>
      refine Triple.bind (Triple.upTo _ (Triple.bind pops fun r => ?_)) fun _ => stashes
      cases r with
      | ok q => exact Triple.bind (deposits q) fun _ => Triple.ret true fun _ here => here
      | needsSlow => exact Triple.ret false fun _ here => here

theorem bit_ne_zero {i : Nat} (inside : i < 64) : Word.bit i ≠ 0#64 :=
  Word.ne_zero_iff.mpr ⟨i, inside, by simp [Word.getLsbD_bit, inside]⟩

theorem flushed_bit {i : Nat} (inside : i < 64) :
    (Pending.mk span word (Word.bit i)).flushed s = s.masked span word (Word.bit i) :=
  if_neg (bit_ne_zero inside)

/-- A bit gathered with the others is deposited after them. -/
theorem flushed_gathered {i : Nat} (inside : i < 64) :
    { pending with mask := pending.mask ||| Word.bit i }.flushed s =
      (pending.flushed s).masked pending.span pending.word (Word.bit i) := by
  have some : pending.mask ||| Word.bit i ≠ 0#64 :=
    Word.ne_zero_iff.mpr ⟨i, inside, by simp [Word.getLsbD_bit, inside]⟩
  rw [Pending.flushed, if_neg some, Pending.flushed]
  by_cases empty : pending.mask = 0#64
  · rw [if_pos empty, empty, BitVec.zero_or]
  · rw [if_neg empty]
    simp only [masked, setMask_same]

/-- The free bit of an object in the arena, as the batch finds it. -/
theorem deposited_located (osz : Nat) (near : p < s.bitmaps.base + 2 ^ 48) :
    s.deposited p osz = s.masked (s.bitmaps.locate p osz).1 (s.bitmaps.locate p osz).2.1
      (Word.bit (s.bitmaps.locate p osz).2.2) := by
  have inside : (p - s.bitmaps.base) / spanBytes < 2 ^ 32 := by
    rw [Nat.div_lt_iff_lt_mul (by decide)]
    unfold spanBytes
    omega
  have low : p - s.bitmaps.spanBase (s.bitmaps.spanOf p) < 2 ^ 32 := by
    rw [SpanBitmaps.spanBase, SpanBitmaps.spanOf, wrap32_small inside]
    unfold spanBytes
    omega
  have slot := wrap32_small (Nat.lt_of_le_of_lt (Nat.div_le_self _ osz) low)
  simp only [deposited, masked, SpanBitmaps.set, SpanBitmaps.locate, slot]

theorem isLocal_flushed : (pending.flushed s).isLocal p thread = s.isLocal p thread := by
  rw [Pending.flushed]
  split <;> rfl

theorem locate_flushed (osz : Nat) :
    (pending.flushed s).bitmaps.locate p osz = s.bitmaps.locate p osz := by
  rw [Pending.flushed]
  split <;> rfl

theorem base_flushed : (pending.flushed s).bitmaps.base = s.bitmaps.base := by
  rw [Pending.flushed]
  split <;> rfl

/-- One object of a batch: what is gathered, deposited, is what its free by itself
    leaves. -/
theorem batchOne_deallocClass (cls thread : Nat) (pending : Pending) (env : List Turn)
    (near : p < s.bitmaps.base + 2 ^ 48) :
    ∃ pending' s' env', batchOne cls thread pending p s env = (some pending', s', env') ∧
      deallocClass p cls thread (pending.flushed s) env = (some (), pending'.flushed s', env') ∧
      s'.bitmaps.base = s.bitmaps.base := by
  rw [batchOne, deallocClass, Prog.read_bind, Prog.read_bind, isLocal_flushed]
  by_cases here : s.isLocal p thread = true
  · rw [if_pos here, if_pos here]
    have ends := freeLocal_returns cls p s.bitmaps.base s env rfl
    have same := pending.commutes cls p s env
    rcases outcome : freeLocal cls p s env with ⟨_ | _, s', env'⟩ <;>
      simp only [outcome] at ends same
    exact ⟨pending, s', env', Prog.bind_some outcome, same, ends⟩
  · rw [if_neg here, if_neg here]
    have bit : (s.bitmaps.locate p (sizeOfClass cls)).2.2 < 64 := Nat.mod_lt _ (by decide)
    have deposit := deposited_located (s := pending.flushed s) (sizeOfClass cls) (by rwa [base_flushed])
    rw [locate_flushed] at deposit
    rcases place : s.bitmaps.locate p (sizeOfClass cls) with ⟨span, word, i⟩
    rw [place] at bit deposit
    by_cases moved : span ≠ pending.span ∨ word ≠ pending.word
    · refine ⟨⟨span, word, Word.bit i⟩, pending.flushed s, env, ?_, ?_, base_flushed⟩
      · simp only [if_pos moved, flushPending, Pending.flushed]
        split <;> rfl
      · rw [flushed_bit bit, ← deposit]
        rfl
    · obtain ⟨rfl, rfl⟩ : span = pending.span ∧ word = pending.word := by grind
      refine ⟨{ pending with mask := pending.mask ||| Word.bit i }, s, env, ?_, ?_, rfl⟩
      · simp only [if_neg moved]
        rfl
      · rw [flushed_gathered bit, ← deposit]
        rfl

end SubHeap

namespace PerCpuCounters

variable {c : PerCpuCounters}

theorem addLocal_zero (cpu : Nat) : c.addLocal cpu 0 0 = c := by
  simp [addLocal]

theorem addLocal_addLocal (cpu : Nat) (bytes objs bytes' objs' : Int) :
    (c.addLocal cpu bytes objs).addLocal cpu bytes' objs' =
      c.addLocal cpu (bytes + bytes') (objs + objs') := by
  simp [addLocal, cell, BitVec.ofInt_add, add_assoc]

/-- The same charge `n` times is one charge of `n` times as much. -/
theorem addLocal_iterate (cpu : Nat) (bytes objs : Int) (n : Nat) :
    (fun c : PerCpuCounters => c.addLocal cpu bytes objs)^[n] c = c.addLocal cpu (bytes * n) (objs * n) := by
  induction n with
  | zero => simp [addLocal_zero]
  | succ n ih =>
      rw [Function.iterate_succ_apply', ih, addLocal_addLocal]
      push_cast
      rw [mul_add, mul_add, mul_one, mul_one]

end PerCpuCounters

namespace Metered

open SubHeap in
/-- What a batch gathers and deposits in the end is what its objects leave when they
    are freed in order. -/
theorem batchAll_deallocEach (cls thread cpu : Nat) (ptrs : List Nat) (pending : Pending) (m : Metered)
    (env : List Turn) (near : ∀ p ∈ ptrs, p < m.sub.bitmaps.base + 2 ^ 48) :
    ∃ pending' s' env', batchAll cls thread ptrs pending m.sub env = (some pending', s', env') ∧
      deallocEach cls thread cpu ptrs ⟨pending.flushed m.sub, m.counters⟩ env =
        (some (), ⟨pending'.flushed s', (fun c : PerCpuCounters =>
          c.addLocal cpu (-sizeOfClass cls) (-1))^[ptrs.length] m.counters⟩, env') := by
  induction ptrs generalizing pending m env with
  | nil => exact ⟨pending, m.sub, env, rfl, rfl⟩
  | cons p rest ih =>
      obtain ⟨first, others⟩ := List.forall_mem_cons.mp near
      obtain ⟨pending₁, s₁, env₁, one, alone, base⟩ :=
        batchOne_deallocClass cls thread pending env first
      rw [← base] at others
      obtain ⟨pending', s', env', all, each⟩ :=
        ih pending₁ ⟨s₁, m.counters.addLocal cpu (-sizeOfClass cls) (-1)⟩ env₁ others
      refine ⟨pending', s', env', ?_, ?_⟩
      · rw [batchAll, Prog.bind_some one, all]
      · have charged : deallocClass p cls thread cpu ⟨pending.flushed m.sub, m.counters⟩ env =
            (some (), ⟨pending₁.flushed s₁, m.counters.addLocal cpu (-sizeOfClass cls) (-1)⟩, env₁) := by
          simp only [deallocClass, lift, Prog.within, Bind.bind, alone]
          rfl
        rw [deallocEach, Prog.bind_some charged, each]
        rfl

open SubHeap in
/-- A batch free is its frees one by one, but for the reuse hint of one cell. -/
theorem deallocClassBatch_one_by_one (m : Metered) (ptrs : List Nat) (cls thread cpu : Nat)
    (env : List Turn) (near : ∀ p ∈ ptrs, p < m.sub.bitmaps.base + 2 ^ 48) :
    ∃ m' env' shard hint, deallocEach cls thread cpu ptrs m env = (some (), m', env') ∧
      deallocClassBatch ptrs cls thread cpu m env =
        (some (), { m' with sub := m'.sub.setHint shard cls hint }, env') := by
  obtain ⟨pending, s', env', all, each⟩ := batchAll_deallocEach cls thread cpu ptrs .none m env near
  have flush : flushPending pending s' env' = (some (), pending.flushed s', env') := by
    rw [flushPending, Pending.flushed]
    split <;> rfl
  -- publishing no hint is publishing the old one
  obtain ⟨shard, hint, sub⟩ : ∃ shard hint, SubHeap.deallocClassBatch ptrs cls thread m.sub env =
      (some (), (pending.flushed s').setHint shard cls hint, env') := by
    rw [SubHeap.deallocClassBatch, Prog.bind_some all, Prog.bind_some flush]
    by_cases none : pending.span = noSpan
    · refine ⟨0, (pending.flushed s').reuseHint 0 cls, ?_⟩
      rw [if_pos none, setHint, Function.update_eq_self, Function.update_eq_self]
      rfl
    · rw [if_neg none]
      exact ⟨_, _, rfl⟩
  refine ⟨_, env', shard, hint, each, ?_⟩
  have lifted : lift (SubHeap.deallocClassBatch ptrs cls thread) m env =
      (some (), ⟨(pending.flushed s').setHint shard cls hint, m.counters⟩, env') := by
    simp only [lift, Prog.within, sub]
  rw [deallocClassBatch, Prog.bind_some lifted, PerCpuCounters.addLocal_iterate]
  cases ptrs with
  | nil =>
      rw [if_neg (by simp)]
      simp only [List.length_nil, Nat.cast_zero, mul_zero, PerCpuCounters.addLocal_zero]
      rfl
  | cons p rest =>
      rw [if_pos (by simp), neg_one_mul]
      rfl

/-- An arena of five spans, where thread 0 took the first objects of two spans. -/
def stocked : Metered :=
  (refillBatch 44 0 2 0 ⟨SubHeap.buildStandalone 4096 (5 * 65536) 1 (some 3) 8, .new 1⟩ []).2.1

/-- Both are freed by thread 1, whose shard is another one. -/
theorem deallocClassBatch_one_by_one_stocked :
    (refillBatch 44 0 2 0 ⟨SubHeap.buildStandalone 4096 (5 * 65536) 1 (some 3) 8, .new 1⟩ []).1 =
      some [204800, 139264] ∧
    ∃ m' env' shard hint,
      deallocEach 44 1 0 [204800, 139264] stocked [] = (some (), m', env') ∧
      deallocClassBatch [204800, 139264] 44 1 0 stocked [] =
        (some (), { m' with sub := m'.sub.setHint shard 44 hint }, env') := by
  refine ⟨by decide +kernel, deallocClassBatch_one_by_one stocked _ 44 1 0 [] ?_⟩
  intro p held
  simp only [List.mem_cons, List.not_mem_nil, or_false] at held
  omega

end Metered

end Toccata
