import Toccata.Rseq.Fallback

/-! # Seizing a CPU

The supervisor stops a CPU's writers before it moves objects off their stacks: it
sets the CPU's stop flag, issues a membarrier that aborts every restartable section
in flight there, and clears the flag when the guard is dropped. Restartable sections
test the flag inside the section; the locked path tests it before it takes the lock,
and not again.
-/

namespace Toccata.Rseq.Seize

open Foundations

/-- Where a writer is: past the flag test of a section on `cpu`, or in the locked
    path on that CPU's block. -/
inductive Writer where
  | idle
  | tested (cpu cls : Nat) (op : Fallback.Op)
  | acquire (cpu cls : Nat) (op : Fallback.Op)
  | readHeader (cpu cls : Nat) (op : Fallback.Op)
  | accessSlot (cpu cls : Nat) (op : Fallback.Op) (cur : Nat)
  | writeCurrent (cpu cls : Nat) (op : Fallback.Op) (cur : Nat)
  | release (cpu cls : Nat)
deriving Repr, DecidableEq

/-- Past the flag test of the locked path on `cpu`, with writes still to come. -/
def Writer.pending (cpu : Nat) : Writer → Bool
  | .acquire c _ _ | .readHeader c _ _ | .accessSlot c _ _ _ | .writeCurrent c _ _ _ => c = cpu
  | _ => false

def Writer.inSection (cpu : Nat) : Writer → Bool
  | .tested c _ _ => c = cpu
  | _ => false

/-- Where a guard is in `rebalance_capacity`, with how many objects are to go. -/
inductive Phase where
  | held
  | take (cls left : Nat)
  | loaded (cls left cur : Nat)
  | slotted (cls left cur obj : Nat)
  | written (cls left obj : Nat)
deriving Repr, DecidableEq

def Phase.cls? : Phase → Option Nat
  | .held => none
  | .take cls _ | .loaded cls _ _ | .slotted cls _ _ _ | .written cls _ _ => some cls

/-- A call of `seize_cpu`: the flag set, the membarrier failed, or the guard. A guard
    remembers what each stack held when it was returned, and what rebalancing has
    taken off since. -/
inductive Seizer where
  | idle
  | barrier (cpu : Nat)
  | undo (cpu : Nat)
  | guard (cpu : Nat) (phase : Phase) (seen moved : Nat → List Nat)

/-- The CPU of a call whose flag is set and not cleared. -/
def Seizer.cpu? : Seizer → Option Nat
  | .idle => none
  | .barrier cpu | .undo cpu | .guard cpu _ _ _ => some cpu

def Seizer.rebalancing (cpu cls : Nat) : Seizer → Prop
  | .guard c phase _ _ => c = cpu ∧ phase.cls? = some cls
  | _ => False

/-- An object was taken off a stack: guards of that CPU note it. -/
def Seizer.note (cpu cls obj : Nat) : Seizer → Seizer
  | .guard c phase seen moved =>
      .guard c phase seen
        (if c = cpu then Function.update moved cls (moved cls ++ [obj]) else moved)
  | other => other

structure Slabs where
  block : Nat → Nat → Block
  stop : Nat → Bool
  lock : Nat → Nat → Bool
  writer : Nat → Writer
  seizer : Nat → Seizer
  bitmap : List Nat

namespace Slabs

def contents (s : Slabs) (cpu cls : Nat) : List Nat :=
  live (s.block cpu cls).slots (s.block cpu cls).current

def setBlock (s : Slabs) (cpu cls : Nat) (b : Block) : Slabs :=
  { s with block := Function.update s.block cpu (Function.update (s.block cpu) cls b) }

def setLock (s : Slabs) (cpu cls : Nat) (b : Bool) : Slabs :=
  { s with lock := Function.update s.lock cpu (Function.update (s.lock cpu) cls b) }

def setWriter (s : Slabs) (t : Nat) (w : Writer) : Slabs :=
  { s with writer := Function.update s.writer t w }

def setSeizer (s : Slabs) (g : Nat) (z : Seizer) : Slabs :=
  { s with seizer := Function.update s.seizer g z }

/-- A CPU id past the flags falls on the last of them. -/
def flagOf (numCpus cpu : Nat) : Nat := min cpu (max numCpus 1 - 1)

def setStopped (s : Slabs) (numCpus cpu : Nat) (b : Bool) : Slabs :=
  { s with stop := Function.update s.stop (flagOf numCpus cpu) b }

/-! ## Writers -/

/-- The stack after a committed section. -/
def commit (b : Block) : Fallback.Op → Block
  | .pop => if b.current = 0 then b else { b with current := b.current - 1 }
  | .push obj =>
      if b.capacity ≤ b.current then b else
        { b with current := b.current + 1, slots := Function.update b.slots b.current obj }

/-- A writer's next step once it has started: the section commits, or the locked
    path goes on. -/
def execWriter (s : Slabs) (t : Nat) : Slabs :=
  match s.writer t with
  | .idle => s
  | .tested cpu cls op =>
      (s.setBlock cpu cls (commit (s.block cpu cls) op)).setWriter t .idle
  | .acquire cpu cls op =>
      if s.lock cpu cls then s else
        (s.setLock cpu cls true).setWriter t (.readHeader cpu cls op)
  | .readHeader cpu cls .pop =>
      let cur := (s.block cpu cls).current
      s.setWriter t (if cur = 0 then .release cpu cls else .accessSlot cpu cls .pop cur)
  | .readHeader cpu cls (.push obj) =>
      let b := s.block cpu cls
      s.setWriter t (if b.capacity ≤ b.current then .release cpu cls
        else .accessSlot cpu cls (.push obj) b.current)
  | .accessSlot cpu cls .pop cur => s.setWriter t (.writeCurrent cpu cls .pop cur)
  | .accessSlot cpu cls (.push obj) cur =>
      let b := s.block cpu cls
      (s.setBlock cpu cls { b with slots := Function.update b.slots cur obj }).setWriter t
        (.writeCurrent cpu cls (.push obj) cur)
  | .writeCurrent cpu cls .pop cur =>
      (s.setBlock cpu cls { s.block cpu cls with current := cur - 1 }).setWriter t (.release cpu cls)
  | .writeCurrent cpu cls (.push _) cur =>
      (s.setBlock cpu cls { s.block cpu cls with current := cur + 1 }).setWriter t (.release cpu cls)
  | .release cpu cls => (s.setLock cpu cls false).setWriter t .idle

/-- Writers on the CPUs the layout has. Sections and the locked path start with the
    flag clear; a section may be aborted. -/
inductive WriterStep (numCpus : Nat) (s : Slabs) : Slabs → Prop where
  | test {t} (cpu cls : Nat) (op : Fallback.Op) : s.writer t = .idle → cpu < numCpus →
      s.stop (flagOf numCpus cpu) = false →
      WriterStep numCpus s (s.setWriter t (.tested cpu cls op))
  | check {t} (cpu cls : Nat) (op : Fallback.Op) : s.writer t = .idle → cpu < numCpus →
      s.stop (flagOf numCpus cpu) = false →
      WriterStep numCpus s (s.setWriter t (.acquire cpu cls op))
  | abort {t cpu cls op} : s.writer t = .tested cpu cls op →
      WriterStep numCpus s (s.setWriter t .idle)
  | exec (t : Nat) : WriterStep numCpus s (s.execWriter t)

/-! ## The supervisor -/

/-- The next step of a guard's rebalancing. -/
def execGuard (s : Slabs) (g : Nat) : Slabs :=
  match s.seizer g with
  | .guard cpu (.take cls left) seen moved =>
      s.setSeizer g (.guard cpu (.loaded cls left (s.block cpu cls).current) seen moved)
  | .guard cpu (.loaded cls left cur) seen moved =>
      s.setSeizer g (.guard cpu (.slotted cls left cur ((s.block cpu cls).slots (cur - 1))) seen moved)
  | .guard cpu (.slotted cls left cur obj) seen moved =>
      let s' := (s.setSeizer g (.guard cpu (.written cls left obj) seen moved)).setBlock cpu cls
        { s.block cpu cls with current := cur - 1 }
      { s' with seizer := fun g' => (s'.seizer g').note cpu cls obj }
  | .guard cpu (.written cls left obj) seen moved =>
      { s.setSeizer g (.guard cpu (if left - 1 = 0 then .held else .take cls (left - 1)) seen moved) with
        bitmap := if obj = 0 then s.bitmap else s.bitmap ++ [obj] }
  | _ => s

/-- `seize_cpu` sets the flag first. -/
inductive SetFlag (numCpus : Nat) (s : Slabs) (g cpu : Nat) : Slabs → Prop where
  | mk : s.seizer g = .idle →
      SetFlag numCpus s g cpu ((s.setStopped numCpus cpu true).setSeizer g (.barrier cpu))

/-- What the membarrier does to the sections in flight on a CPU. -/
def abortSections (s : Slabs) (cpu : Nat) : Slabs :=
  { s with writer := fun t => if (s.writer t).inSection cpu then .idle else s.writer t }

/-- The membarrier succeeds and the guard is returned. -/
inductive Barrier (s : Slabs) (g cpu : Nat) : Slabs → Prop where
  | mk : s.seizer g = .barrier cpu →
      Barrier s g cpu ((s.abortSections cpu).setSeizer g
        (.guard cpu .held (s.contents cpu) fun _ => []))

/-- The flag is cleared, by a drop of the guard or after a failed membarrier. -/
inductive ClearFlag (numCpus : Nat) (s : Slabs) (g cpu : Nat) : Slabs → Prop where
  | drop {seen moved} : s.seizer g = .guard cpu .held seen moved →
      ClearFlag numCpus s g cpu ((s.setStopped numCpus cpu false).setSeizer g .idle)
  | undo : s.seizer g = .undo cpu →
      ClearFlag numCpus s g cpu ((s.setStopped numCpus cpu false).setSeizer g .idle)

/-- A guard of a CPU the layout has starts to move up to `count` objects. -/
inductive Rebalance (numCpus : Nat) (s : Slabs) (g cpu cls : Nat) : Slabs → Prop where
  | mk {seen moved} (count : Nat) : s.seizer g = .guard cpu .held seen moved → cpu < numCpus →
      Rebalance numCpus s g cpu cls (s.setSeizer g (.guard cpu
        (if min count (s.block cpu cls).current = 0 then .held
          else .take cls (min count (s.block cpu cls).current)) seen moved))

/-- What every thread may do at any time. -/
inductive Step (numCpus : Nat) (s s' : Slabs) : Prop where
  | writer : WriterStep numCpus s s' → Step numCpus s s'
  | setFlag (g cpu : Nat) : SetFlag numCpus s g cpu s' → Step numCpus s s'
  | barrier (g cpu : Nat) : Barrier s g cpu s' → Step numCpus s s'
  | barrierFails (g cpu : Nat) : s.seizer g = .barrier cpu → s' = s.setSeizer g (.undo cpu) →
      Step numCpus s s'
  | clearFlag (g cpu : Nat) : ClearFlag numCpus s g cpu s' → Step numCpus s s'
  | rebalance (g cpu cls : Nat) : Rebalance numCpus s g cpu cls s' → Step numCpus s s'
  | execGuard (g : Nat) : s' = s.execGuard g → Step numCpus s s'

/-- The steps under which a seize is exclusive: at a membarrier no locked writer of
    the CPU has writes to come, a flag is cleared when no other call has it set, and
    one guard at a time rebalances a stack. -/
inductive ExclusiveStep (numCpus : Nat) (s s' : Slabs) : Prop where
  | writer : WriterStep numCpus s s' → ExclusiveStep numCpus s s'
  | setFlag (g cpu : Nat) : SetFlag numCpus s g cpu s' → ExclusiveStep numCpus s s'
  | barrier (g cpu : Nat) : Barrier s g cpu s' → (∀ t, (s.writer t).pending cpu = false) →
      ExclusiveStep numCpus s s'
  | barrierFails (g cpu : Nat) : s.seizer g = .barrier cpu → s' = s.setSeizer g (.undo cpu) →
      ExclusiveStep numCpus s s'
  | clearFlag (g cpu : Nat) : ClearFlag numCpus s g cpu s' →
      (∀ g' cpu', g' ≠ g → (s.seizer g').cpu? = some cpu' →
        flagOf numCpus cpu' ≠ flagOf numCpus cpu) → ExclusiveStep numCpus s s'
  | rebalance (g cpu cls : Nat) : Rebalance numCpus s g cpu cls s' →
      (∀ g', g' ≠ g → ¬ (s.seizer g').rebalancing cpu cls) → ExclusiveStep numCpus s s'
  | execGuard (g : Nat) : s' = s.execGuard g → ExclusiveStep numCpus s s'

structure Initial (s : Slabs) : Prop where
  writers : ∀ t, s.writer t = .idle
  seizers : ∀ g, s.seizer g = .idle

/-- Nothing a writer of `cpu` has begun can still write. -/
def Quiet (s : Slabs) (cpu : Nat) : Prop :=
  ∀ t, (s.writer t).pending cpu = false ∧ (s.writer t).inSection cpu = false

/-- What a live guard promises: no step of a writer changes its CPU's stacks, and
    each of them still holds what it held when the guard was returned, less what
    rebalancing took off. -/
structure Sealed (numCpus : Nat) (s : Slabs) (cpu : Nat) (seen moved : Nat → List Nat) : Prop where
  unmodified : ∀ s', WriterStep numCpus s s' → s'.block cpu = s.block cpu
  accounted : ∀ cls, seen cls = moved cls ++ s.contents cpu cls

/-! ## Writers and a set flag -/

variable {numCpus cpu : Nat} {s s' : Slabs}

theorem setBlock_other {c cls : Nat} {b : Block} (different : c ≠ cpu) :
    (s.setBlock c cls b).block cpu = s.block cpu :=
  Function.update_of_ne different.symm ..

theorem execWriter_block {t : Nat} (quiet : s.Quiet cpu) :
    (s.execWriter t).block cpu = s.block cpu := by
  obtain ⟨pending, inSection⟩ := quiet t
  have apart : ∀ {c : Nat}, decide (c = cpu) = false → c ≠ cpu := fun h => of_decide_eq_false h
  cases at_pc : s.writer t with
  | idle => simp only [execWriter, at_pc]
  | release => simp only [execWriter, at_pc]; rfl
  | tested c cls op =>
      rw [at_pc] at inSection
      simp only [execWriter, at_pc]
      exact setBlock_other (apart inSection)
  | acquire c cls op =>
      simp only [execWriter, at_pc]
      split <;> rfl
  | readHeader c cls op => cases op <;> simp only [execWriter, at_pc] <;> rfl
  | accessSlot c cls op cur =>
      rw [at_pc] at pending
      cases op with
      | pop => simp only [execWriter, at_pc]; rfl
      | push obj =>
          simp only [execWriter, at_pc]
          exact setBlock_other (apart pending)
  | writeCurrent c cls op cur =>
      rw [at_pc] at pending
      cases op <;>
      · simp only [execWriter, at_pc]
        exact setBlock_other (apart pending)

theorem WriterStep.block_eq (taken : WriterStep numCpus s s') (quiet : s.Quiet cpu) :
    s'.block cpu = s.block cpu := by
  cases taken with
  | test | check | abort => rfl
  | exec t => exact execWriter_block quiet

theorem execWriter_frame (t : Nat) :
    (s.execWriter t).seizer = s.seizer ∧ (s.execWriter t).stop = s.stop := by
  unfold execWriter
  split <;> (try split) <;> exact ⟨rfl, rfl⟩

theorem WriterStep.frame (taken : WriterStep numCpus s s') :
    s'.seizer = s.seizer ∧ s'.stop = s.stop := by
  cases taken with
  | test | check | abort => exact ⟨rfl, rfl⟩
  | exec t => exact execWriter_frame t

theorem Quiet.setWriter {t : Nat} {w : Writer} (quiet : s.Quiet cpu)
    (pending : w.pending cpu = false) (inSection : w.inSection cpu = false) :
    (s.setWriter t w).Quiet cpu := by
  intro u
  by_cases same : u = t
  · subst same
    simp only [Slabs.setWriter, Function.update_self]
    exact ⟨pending, inSection⟩
  · simp only [Slabs.setWriter, Function.update_of_ne same]
    exact quiet u

theorem Quiet.execWriter {t : Nat} (quiet : s.Quiet cpu) : (s.execWriter t).Quiet cpu := by
  obtain ⟨pending, inSection⟩ := quiet t
  have still : ∀ {block lock w}, w.pending cpu = false → w.inSection cpu = false →
      Quiet ({ s with block, lock }.setWriter t w) cpu :=
    fun {block lock w} h h' => Quiet.setWriter (s := { s with block, lock }) quiet h h'
  cases at_pc : s.writer t with
  | idle => simpa only [Slabs.execWriter, at_pc] using quiet
  | tested | release =>
      simp only [Slabs.execWriter, at_pc]
      exact still rfl rfl
  | acquire c cls op =>
      rw [at_pc] at pending
      simp only [Slabs.execWriter, at_pc]
      split
      · exact quiet
      · exact still pending rfl
  | readHeader c cls op =>
      rw [at_pc] at pending
      cases op <;>
      · simp only [Slabs.execWriter, at_pc]
        split
        · exact still rfl rfl
        · exact still pending rfl
  | accessSlot c cls op cur =>
      rw [at_pc] at pending
      cases op <;>
      · simp only [Slabs.execWriter, at_pc]
        exact still pending rfl
  | writeCurrent c cls op cur =>
      cases op <;>
      · simp only [Slabs.execWriter, at_pc]
        exact still rfl rfl

theorem WriterStep.quiet (taken : WriterStep numCpus s s') (quiet : s.Quiet cpu)
    (stopped : s.stop (flagOf numCpus cpu) = true) : s'.Quiet cpu := by
  -- a writer that starts has read its own CPU's flag clear
  have other : ∀ {c : Nat}, s.stop (flagOf numCpus c) = false → decide (c = cpu) = false := by
    intro c clear
    refine decide_eq_false fun same => ?_
    rw [same, stopped] at clear
    cases clear
  cases taken with
  | test c cls op _ _ clear => exact quiet.setWriter rfl (other clear)
  | check c cls op _ _ clear => exact quiet.setWriter (other clear) rfl
  | abort => exact quiet.setWriter rfl rfl
  | exec t => exact quiet.execWriter

/-! ## The invariant -/

/-- What a guard relies on midway through its rebalancing. -/
def Relies (blocks : Nat → Block) : Phase → Prop
  | .held => True
  | .take cls left => left ≠ 0 ∧ left ≤ (blocks cls).current
  | .loaded cls left cur => left ≠ 0 ∧ left ≤ cur ∧ cur = (blocks cls).current
  | .slotted cls left cur obj =>
      left ≠ 0 ∧ left ≤ cur ∧ cur = (blocks cls).current ∧ obj = (blocks cls).slots (cur - 1)
  | .written cls left _ => left - 1 ≤ (blocks cls).current

/-- A guard's own part of the invariant. -/
structure Kept (s : Slabs) (cpu : Nat) (phase : Phase) (seen moved : Nat → List Nat) : Prop where
  quiet : s.Quiet cpu
  accounted : ∀ cls, seen cls = moved cls ++ s.contents cpu cls
  relies : Relies (s.block cpu) phase

structure Inv (numCpus : Nat) (s : Slabs) : Prop where
  flagged : ∀ g cpu, (s.seizer g).cpu? = some cpu → s.stop (flagOf numCpus cpu) = true
  kept : ∀ g cpu phase seen moved, s.seizer g = .guard cpu phase seen moved →
    s.Kept cpu phase seen moved
  apart : ∀ g g' cpu cls, (s.seizer g).rebalancing cpu cls → (s.seizer g').rebalancing cpu cls →
    g = g'

theorem Initial.inv (initial : Initial s) : Inv numCpus s where
  flagged g cpu held := by
    rw [initial.seizers] at held
    cases held
  kept g cpu phase seen moved held := by
    rw [initial.seizers] at held
    cases held
  apart g g' cpu cls held := by
    rw [initial.seizers] at held
    cases held

theorem Kept.congr {phase : Phase} {seen moved : Nat → List Nat} (kept : s.Kept cpu phase seen moved)
    (quiet : s'.Quiet cpu) (block : s'.block cpu = s.block cpu) : s'.Kept cpu phase seen moved := by
  refine ⟨quiet, fun cls => ?_, ?_⟩
  · rw [kept.accounted cls, contents, contents, block]
  · rw [block]
    exact kept.relies

theorem Inv.writer (inv : Inv numCpus s) (taken : WriterStep numCpus s s') : Inv numCpus s' := by
  obtain ⟨seizer, stop⟩ := taken.frame
  refine ⟨?_, ?_, ?_⟩
  · rw [seizer, stop]
    exact inv.flagged
  · intro g cpu phase seen moved at_g
    rw [seizer] at at_g
    have kept := inv.kept _ _ _ _ _ at_g
    have stopped := inv.flagged g cpu (by rw [at_g]; rfl)
    exact kept.congr (taken.quiet kept.quiet stopped) (taken.block_eq kept.quiet)
  · rw [seizer]
    exact inv.apart

/-- One call moves on and the blocks stay; others keep what they had. -/
theorem Inv.setSeizer (inv : Inv numCpus s) {g : Nat} {z : Seizer}
    (flagged : ∀ cpu, z.cpu? = some cpu → s.stop (flagOf numCpus cpu) = true)
    (kept : ∀ cpu phase seen moved, z = .guard cpu phase seen moved → s.Kept cpu phase seen moved)
    (apart : ∀ g' cpu cls, g' ≠ g → z.rebalancing cpu cls → ¬ (s.seizer g').rebalancing cpu cls) :
    Inv numCpus (s.setSeizer g z) where
  flagged g' cpu held := by
    by_cases same : g' = g
    · subst same
      simp only [Slabs.setSeizer, Function.update_self] at held
      exact flagged cpu held
    · simp only [Slabs.setSeizer, Function.update_of_ne same] at held
      exact inv.flagged g' cpu held
  kept g' cpu phase seen moved held := by
    by_cases same : g' = g
    · subst same
      simp only [Slabs.setSeizer, Function.update_self] at held
      obtain ⟨quiet, accounted, relies⟩ := kept cpu phase seen moved held
      exact ⟨quiet, accounted, relies⟩
    · simp only [Slabs.setSeizer, Function.update_of_ne same] at held
      obtain ⟨quiet, accounted, relies⟩ := inv.kept g' cpu phase seen moved held
      exact ⟨quiet, accounted, relies⟩
  apart a b cpu cls ra rb := by
    simp only [Slabs.setSeizer, Function.update_apply] at ra rb
    split at ra <;> split at rb
    · rename_i h h'
      rw [h, h']
    · rename_i h h'
      exact (apart b cpu cls h' ra rb).elim
    · rename_i h h'
      exact (apart a cpu cls h rb ra).elim
    · exact inv.apart a b cpu cls ra rb

theorem Inv.setFlag (inv : Inv numCpus s) {g : Nat} (taken : SetFlag numCpus s g cpu s') :
    Inv numCpus s' := by
  obtain ⟨idle⟩ := taken
  have raised : Inv numCpus (s.setStopped numCpus cpu true) := by
    refine ⟨fun g' cpu' held => ?_, fun g' c ph seen moved held => ?_, inv.apart⟩
    · simp only [setStopped, Function.update_apply]
      split
      · rfl
      · exact inv.flagged g' cpu' held
    · obtain ⟨quiet, accounted, relies⟩ := inv.kept g' c ph seen moved held
      exact ⟨quiet, accounted, relies⟩
  refine raised.setSeizer (fun cpu' same => ?_) (fun _ _ _ _ held => by cases held)
    (fun _ _ _ _ r => r.elim)
  cases same
  exact Function.update_self ..

theorem Inv.barrier (inv : Inv numCpus s) {g : Nat} (taken : Barrier s g cpu s')
    (alone : ∀ t, (s.writer t).pending cpu = false) : Inv numCpus s' := by
  obtain ⟨waiting⟩ := taken
  have quieter : ∀ c, s.Quiet c → (s.abortSections cpu).Quiet c := by
    intro c quiet t
    simp only [abortSections]
    split
    · exact ⟨rfl, rfl⟩
    · exact quiet t
  have silent : (s.abortSections cpu).Quiet cpu := by
    intro t
    simp only [abortSections]
    split
    · exact ⟨rfl, rfl⟩
    · rename_i outside
      exact ⟨alone t, Bool.eq_false_iff.mpr outside⟩
  have calmed : Inv numCpus (s.abortSections cpu) := by
    refine ⟨inv.flagged, fun g' c ph seen moved held => ?_, inv.apart⟩
    have kept := inv.kept g' c ph seen moved held
    exact kept.congr (quieter c kept.quiet) rfl
  refine calmed.setSeizer (fun c same => ?_) (fun c ph seen moved held => ?_) (fun g' c cls _ r => ?_)
  · cases same
    exact inv.flagged g cpu (by rw [waiting]; rfl)
  · cases held
    exact ⟨silent, fun _ => rfl, trivial⟩
  · cases r.2

theorem Inv.clearFlag (inv : Inv numCpus s) {g : Nat} (taken : ClearFlag numCpus s g cpu s')
    (last : ∀ g' cpu', g' ≠ g → (s.seizer g').cpu? = some cpu' →
      flagOf numCpus cpu' ≠ flagOf numCpus cpu) : Inv numCpus s' := by
  have cleared : Inv numCpus ((s.setStopped numCpus cpu false).setSeizer g .idle) := by
    refine ⟨fun g' cpu' held => ?_, fun g' c ph seen moved held => ?_, fun a b c cls ra rb => ?_⟩
    · by_cases same : g' = g
      · subst same
        simp only [Slabs.setSeizer, Function.update_self] at held
        cases held
      · simp only [Slabs.setSeizer, setStopped, Function.update_of_ne same] at held ⊢
        rw [Function.update_of_ne (last g' cpu' same held)]
        exact inv.flagged g' cpu' held
    · by_cases same : g' = g
      · subst same
        simp only [Slabs.setSeizer, Function.update_self] at held
        cases held
      · simp only [Slabs.setSeizer, setStopped, Function.update_of_ne same] at held
        obtain ⟨quiet, accounted, relies⟩ := inv.kept g' c ph seen moved held
        exact ⟨quiet, accounted, relies⟩
    · simp only [Slabs.setSeizer, setStopped, Function.update_apply] at ra rb
      split at ra
      · exact ra.elim
      · split at rb
        · exact rb.elim
        · exact inv.apart a b c cls ra rb
  cases taken with
  | drop => exact cleared
  | undo => exact cleared

theorem Inv.rebalance (inv : Inv numCpus s) {g cls : Nat}
    (taken : Rebalance numCpus s g cpu cls s')
    (alone : ∀ g', g' ≠ g → ¬ (s.seizer g').rebalancing cpu cls) : Inv numCpus s' := by
  obtain ⟨count, held, _⟩ := taken
  have kept := inv.kept _ _ _ _ _ held
  refine inv.setSeizer (fun c same => ?_) (fun c ph seen moved same => ?_)
    (fun g' c cls' other r => ?_)
  · cases same
    exact inv.flagged g cpu (by rw [held]; rfl)
  · cases same
    refine ⟨kept.quiet, kept.accounted, ?_⟩
    split
    · trivial
    · rename_i some
      exact ⟨some, by omega⟩
  · obtain ⟨same, at_cls⟩ := r
    subst same
    split at at_cls
    · cases at_cls
    · cases at_cls
      exact alone g' other

/-! ## Rebalancing -/

theorem note_cpu? (z : Seizer) (c cls obj : Nat) : (z.note c cls obj).cpu? = z.cpu? := by
  cases z <;> rfl

theorem note_rebalancing (z : Seizer) (c cls obj k cls' : Nat) :
    (z.note c cls obj).rebalancing k cls' ↔ z.rebalancing k cls' := by
  cases z <;> exact Iff.rfl

/-- The block written by a guard's rebalancing, read back. -/
theorem setBlock_contents {c cls k cls' : Nat} {b : Block} :
    (s.setBlock c cls b).contents k cls' =
      if k = c ∧ cls' = cls then live b.slots b.current else s.contents k cls' := by
  simp only [contents, setBlock, Function.update_apply]
  by_cases h : k = c <;> by_cases h' : cls' = cls <;> simp [h, h']

/-- The top of a stack goes from its contents to the guards' notes. -/
theorem accounted_taken {c cls : Nat} {seen moved : Nat → List Nat}
    (some : (s.block cpu cls).current ≠ 0)
    (accounted : ∀ cls', seen cls' = moved cls' ++ s.contents c cls') (cls' : Nat) :
    seen cls' =
      (if c = cpu then Function.update moved cls
        (moved cls ++ [(s.block cpu cls).slots ((s.block cpu cls).current - 1)]) else moved) cls' ++
      (s.setBlock cpu cls { s.block cpu cls with
        current := (s.block cpu cls).current - 1 }).contents c cls' := by
  rw [accounted cls', setBlock_contents]
  by_cases same : c = cpu
  · subst same
    by_cases at_cls : cls' = cls
    · subst at_cls
      obtain ⟨n, current⟩ := Nat.exists_eq_succ_of_ne_zero some
      simp only [contents, current, live, Nat.succ_eq_add_one, Nat.add_sub_cancel, if_true,
        Function.update_self, and_self, List.append_assoc, List.singleton_append]
    · simp only [at_cls, if_true, and_false, if_false, Function.update_of_ne at_cls, contents]
  · simp only [same, if_false, false_and]

theorem Relies.other {blocks : Nat → Block} {cls : Nat} {b : Block} {phase : Phase}
    (different : phase.cls? ≠ some cls) (relies : Relies blocks phase) :
    Relies (Function.update blocks cls b) phase := by
  cases phase with
  | held => trivial
  | take k | loaded k | slotted k | written k =>
      have apart : k ≠ cls := fun same => different (congrArg some same)
      simpa only [Relies, Function.update_of_ne apart] using relies

theorem Inv.takeTop (inv : Inv numCpus s) {g cls left cur obj : Nat} {seen moved : Nat → List Nat}
    (at_g : s.seizer g = .guard cpu (.slotted cls left cur obj) seen moved) :
    Inv numCpus (s.execGuard g) := by
  have kept := inv.kept _ _ _ _ _ at_g
  obtain ⟨nonzero, enough, current, top⟩ := kept.relies
  subst current
  subst top
  have active : (s.seizer g).rebalancing cpu cls := by
    rw [at_g]
    exact ⟨rfl, rfl⟩
  have some : (s.block cpu cls).current ≠ 0 := by omega
  simp only [execGuard, at_g]
  refine ⟨fun g' c held => ?_, fun g' c ph seen' moved' held => ?_, fun a b c k ra rb => ?_⟩
  · rw [note_cpu?] at held
    by_cases same : g' = g
    · subst same
      simp only [setBlock, Slabs.setSeizer, Function.update_self] at held
      exact inv.flagged g' c (by rw [at_g]; exact held)
    · simp only [setBlock, Slabs.setSeizer, Function.update_of_ne same] at held
      exact inv.flagged g' c held
  · by_cases same : g' = g
    · subst same
      simp only [setBlock, Slabs.setSeizer, Function.update_self, Seizer.note, Seizer.guard.injEq,
        if_true] at held
      obtain ⟨rfl, rfl, rfl, rfl⟩ := held
      refine ⟨kept.quiet, fun cls' => ?_, ?_⟩
      · have after := accounted_taken some kept.accounted cls'
        rw [if_pos rfl] at after
        exact after
      · simp only [Slabs.setBlock, Slabs.setSeizer, Relies, Function.update_self]
        omega
    · simp only [setBlock, Slabs.setSeizer, Function.update_of_ne same] at held
      cases at_other : s.seizer g' with
      | idle | barrier | undo =>
          rw [at_other] at held
          cases held
      | guard c' ph' seen'' moved'' =>
          rw [at_other] at held
          simp only [Seizer.note, Seizer.guard.injEq] at held
          obtain ⟨rfl, rfl, rfl, rfl⟩ := held
          have kept' := inv.kept _ _ _ _ _ at_other
          refine ⟨kept'.quiet, accounted_taken some kept'.accounted, ?_⟩
          by_cases on : c' = cpu
          · subst on
            simp only [setBlock, Slabs.setSeizer, Function.update_self]
            refine kept'.relies.other fun also => same ?_
            exact inv.apart g' g c' cls (by rw [at_other]; exact ⟨rfl, also⟩) active
          · simp only [setBlock, Slabs.setSeizer, Function.update_of_ne on]
            exact kept'.relies
  · rw [note_rebalancing] at ra rb
    have before : ∀ g', ((s.setSeizer g (.guard cpu (.written cls left
        ((s.block cpu cls).slots ((s.block cpu cls).current - 1))) seen moved)).seizer g').rebalancing
          c k → (s.seizer g').rebalancing c k := by
      intro g' r
      by_cases same : g' = g
      · subst same
        simp only [Slabs.setSeizer, Function.update_self] at r
        rw [at_g]
        exact r
      · simpa only [Slabs.setSeizer, Function.update_of_ne same] using r
    exact inv.apart a b c k (before a ra) (before b rb)

/-- A step of rebalancing that only moves the guard on, on the same stack if any. -/
theorem Inv.movePhase (inv : Inv numCpus s) {g : Nat} {phase phase' : Phase}
    {seen moved : Nat → List Nat} (at_g : s.seizer g = .guard cpu phase seen moved)
    (stays : ∀ cls, phase'.cls? = some cls → phase.cls? = some cls)
    (relies : Relies (s.block cpu) phase') :
    Inv numCpus (s.setSeizer g (.guard cpu phase' seen moved)) := by
  have kept := inv.kept _ _ _ _ _ at_g
  refine inv.setSeizer (fun c same => ?_) (fun c ph seen' moved' same => ?_)
    (fun g' c cls other r r' => ?_)
  · cases same
    exact inv.flagged g cpu (by rw [at_g]; rfl)
  · cases same
    exact ⟨kept.quiet, kept.accounted, relies⟩
  · refine other (inv.apart g' g c cls r' ?_)
    rw [at_g]
    exact ⟨r.1, stays cls r.2⟩

theorem Inv.execGuard (inv : Inv numCpus s) {g : Nat} : Inv numCpus (s.execGuard g) := by
  cases at_g : s.seizer g with
  | idle | barrier | undo => simpa only [Slabs.execGuard, at_g] using inv
  | guard cpu phase seen moved =>
      have relies := (inv.kept _ _ _ _ _ at_g).relies
      cases phase with
      | held => simpa only [Slabs.execGuard, at_g] using inv
      | take cls left =>
          simp only [Slabs.execGuard, at_g]
          exact inv.movePhase at_g (fun _ same => same) ⟨relies.1, relies.2, rfl⟩
      | loaded cls left cur =>
          simp only [Slabs.execGuard, at_g]
          exact inv.movePhase at_g (fun _ same => same)
            ⟨relies.1, relies.2.1, relies.2.2, rfl⟩
      | slotted cls left cur obj => exact inv.takeTop at_g
      | written cls left obj =>
          simp only [Slabs.execGuard, at_g]
          have next : Inv numCpus (s.setSeizer g (.guard cpu
              (if left - 1 = 0 then .held else .take cls (left - 1)) seen moved)) := by
            split
            · exact inv.movePhase at_g (fun _ same => by cases same) trivial
            · rename_i more
              exact inv.movePhase at_g (fun _ same => same) ⟨more, relies⟩
          refine ⟨next.flagged, fun g' c ph seen' moved' held => ?_, next.apart⟩
          obtain ⟨quiet, accounted, relies⟩ := next.kept g' c ph seen' moved' held
          exact ⟨quiet, accounted, relies⟩

theorem Inv.step (inv : Inv numCpus s) (taken : ExclusiveStep numCpus s s') : Inv numCpus s' := by
  cases taken with
  | writer taken => exact inv.writer taken
  | setFlag g cpu taken => exact inv.setFlag taken
  | barrier g cpu taken alone => exact inv.barrier taken alone
  | barrierFails g cpu waiting same =>
      subst same
      refine inv.setSeizer (fun c same => ?_) (fun _ _ _ _ held => by cases held)
        (fun _ _ _ _ r => r.elim)
      cases same
      exact inv.flagged g cpu (by rw [waiting]; rfl)
  | clearFlag g cpu taken last => exact inv.clearFlag taken last
  | rebalance g cpu cls taken alone => exact inv.rebalance taken alone
  | execGuard g same => exact same ▸ inv.execGuard

/-- In every run of exclusive steps, a CPU with a live guard has stacks no writer
    changes, and what rebalancing moved is exactly what they lost. -/
theorem reachable_sealed (reached : Reachable Initial (ExclusiveStep numCpus) s) {g : Nat}
    {phase : Phase} {seen moved : Nat → List Nat}
    (returned : s.seizer g = .guard cpu phase seen moved) : Sealed numCpus s cpu seen moved := by
  have inv : Inv numCpus s := reached.invariant (fun _ initial => initial.inv)
    fun _ _ inv taken => inv.step taken
  have kept := inv.kept _ _ _ _ _ returned
  exact ⟨fun _ taken => taken.block_eq kept.quiet, kept.accounted⟩

/-- One CPU, whose stacks hold the pointer 4096. -/
def lone : Slabs where
  block _ _ := ⟨1, 8, fun _ => 4096⟩
  stop _ := false
  lock _ _ := false
  writer _ := .idle
  seizer _ := .idle
  bitmap := []

theorem lone_initial : Initial lone := ⟨fun _ => rfl, fun _ => rfl⟩

/-- The membarrier aborts a section of the seized CPU, and the pointer of its stack moves
    while a locked pop goes on at the other CPU. -/
theorem reachable_sealed_moved :
    ∃ s seen moved, Reachable Initial (ExclusiveStep 2) s ∧
      s.seizer 0 = .guard 0 .held seen moved ∧ s.bitmap = [4096] ∧ (s.block 1 2).current = 0 ∧
      Sealed 2 s 0 seen moved := by
  have h₀ : Reachable Initial (ExclusiveStep 2) lone := .start lone_initial
  have h₁ := h₀.next (.writer (.test (t := 1) 0 2 .pop rfl (by decide) rfl))
  have h₂ := h₁.next (.setFlag 0 0 (.mk rfl))
  have h₃ := h₂.next (.barrier 0 0 (.mk rfl) fun t => by
    by_cases one : t = 1
    · rw [one]
      rfl
    · simp [Slabs.setSeizer, setStopped, Slabs.setWriter, Function.update_of_ne one, lone, Writer.pending])
  have h₄ := h₃.next (.writer (.check (t := 2) 1 2 .pop rfl (by decide) rfl))
  have h₅ := h₄.next (.rebalance 0 0 2 (.mk 1 rfl (by decide)) fun g other r => by
    have idle : g ≠ 0 := other
    simp [Slabs.setSeizer, setStopped, abortSections, Slabs.setWriter, Function.update_of_ne idle, lone] at r
    exact r)
  have h₆ := (h₅.next (.writer (.exec 2))).next (.execGuard 0 rfl)
  have h₇ := (h₆.next (.writer (.exec 2))).next (.execGuard 0 rfl)
  have h₈ := (h₇.next (.writer (.exec 2))).next (.execGuard 0 rfl)
  have h₉ := (h₈.next (.writer (.exec 2))).next (.execGuard 0 rfl)
  exact ⟨_, _, _, h₉, rfl, by decide +kernel, by decide +kernel, reachable_sealed (g := 0) h₉ rfl⟩

/-- A pop that tested the flag before it was set goes on under the guard: it takes
    the lock and writes `current` of the seized CPU. -/
theorem locked_pop_writes_seized :
    ∃ s seen moved, Reachable Initial (Step 1) s ∧ s.seizer 0 = .guard 0 .held seen moved ∧
      ¬ Sealed 1 s 0 seen moved := by
  have h₀ : Reachable Initial (Step 1) lone := .start lone_initial
  have h₁ := h₀.next (.writer (.check (t := 1) 0 2 .pop rfl (by decide) rfl))
  have h₂ := h₁.next (.setFlag 0 0 (.mk rfl))
  have h₃ := h₂.next (.barrier 0 0 (.mk rfl))
  have h₄ := h₃.next (.writer (.exec 1))
  have h₅ := h₄.next (.writer (.exec 1))
  have h₆ := h₅.next (.writer (.exec 1))
  refine ⟨_, _, _, h₆, rfl, fun sealed => ?_⟩
  have same := congrArg (fun blocks => (blocks 2).current) (sealed.unmodified _ (.exec 1))
  revert same
  decide +kernel

end Slabs

end Toccata.Rseq.Seize
