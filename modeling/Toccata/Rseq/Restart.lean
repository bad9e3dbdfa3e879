import Toccata.Foundations.Transition
import Toccata.Foundations.Word
import Toccata.Slab

/-! # Restartable pop and push

The assembly of `pop` and `push`, one instruction group at a time. The kernel runs
at most one thread on a CPU; a thread that is preempted, migrated or signalled
between the start of its section and the store that commits it goes back to the
abort label. The other registers are reloaded there, the retry budget is not.
-/

namespace Toccata.Rseq

open Foundations

/-- One class's stack in one CPU's block, as laid out in memory. -/
structure Block where
  current : Nat
  capacity : Nat
  slots : Nat → Nat

/-- The first `n` slots, from the top. -/
def live (slots : Nat → Nat) : Nat → List Nat
  | 0 => []
  | n + 1 => slots n :: live slots n

def Block.stack (b : Block) : CpuStack := ⟨b.capacity, live b.slots b.current⟩

inductive Op where
  | pop (cls : Nat)
  | push (cls obj : Nat)
deriving Repr, DecidableEq

def Op.cls : Op → Nat
  | .pop cls => cls
  | .push cls _ => cls

/-- What the caller is told: committed with this pointer on this CPU, take the
    slow path, or use the locked fallback. -/
inductive Result where
  | ok (obj cpu : Nat)
  | needsSlow
  | fallback
deriving Repr, DecidableEq

/-- The instruction group a thread is about to execute, with the registers later
    groups read. From `checkCpu` up to `commit` the thread is in the section. -/
inductive Pc where
  | hint
  | arm (cpu : Nat)
  | checkCpu (cpu : Nat)
  | checkStop (cpu : Nat)
  | loadCurrent (cpu : Nat)
  | loadCapacity (cpu cur : Nat)
  | slot (cpu cur : Nat)
  | commit (cpu cur obj : Nat)
  | done (result : Result)
deriving Repr, DecidableEq

def Pc.inSection : Pc → Bool
  | .checkCpu _ | .checkStop _ | .loadCurrent _ | .loadCapacity _ _ | .slot _ _
  | .commit _ _ _ => true
  | _ => false

/-- What an operation did to a stack, or found there. -/
inductive Event where
  | popped (obj : Nat)
  | pushed (obj : Nat)
  | empty
  | full
deriving Repr, DecidableEq

/-- The atomic bounded stack: `none` when the event is impossible. -/
def Event.apply (s : CpuStack) : Event → Option CpuStack
  | .popped obj =>
      match s.slots with
      | [] => none
      | p :: rest => if p = obj then some { s with slots := rest } else none
  | .pushed obj =>
      if s.slots.length < s.capacity then some { s with slots := obj :: s.slots } else none
  | .empty => if s.slots = [] then some s else none
  | .full => if s.capacity ≤ s.slots.length then some s else none

def replay : List Event → CpuStack → Option CpuStack
  | [], s => some s
  | e :: later, s => e.apply s >>= replay later

/-- One attempt of one thread. The retry budget is a register; `passes`, `entries`
    and `groups` count passes of the abort label, section starts and instruction
    groups; `committed` remembers what was committed where, and `refused` what
    was found where when the stack could not serve. -/
structure Thread where
  op : Op
  loops : Nat
  pc : Pc
  passes : Nat
  entries : Nat
  groups : Nat
  committed : Option (Nat × Event)
  refused : Option (Nat × Event)

def Thread.call (op : Op) : Thread := ⟨op, 5, .hint, 0, 0, 0, none, none⟩

/-- The kernel's abort: back to the label when in the section. -/
def Thread.abort (th : Thread) : Thread :=
  if th.pc.inSection then { th with pc := .hint } else th

/-- Memory, the kernel's view of who runs where, and what was observed of each
    stack. `registered` threads have their `cpu_id` fields kept by the kernel. -/
structure Machine where
  block : Nat → Nat → Block
  stop : Nat → Bool
  running : Nat → Option Nat
  cpuIdStart : Nat → Nat
  cpuId : Nat → Nat
  thread : Nat → Thread
  history : Nat → Nat → List Event

namespace Machine

def setThread (s : Machine) (t : Nat) (th : Thread) : Machine :=
  { s with thread := Function.update s.thread t th }

def setBlock (s : Machine) (cpu cls : Nat) (b : Block) : Machine :=
  { s with block := Function.update s.block cpu (Function.update (s.block cpu) cls b) }

def observe (s : Machine) (cpu cls : Nat) (e : Event) : Machine :=
  let seen := s.history cpu cls ++ [e]
  { s with history := Function.update s.history cpu (Function.update (s.history cpu) cls seen) }

/-- Thread `t` executes its next instruction group. -/
def exec (numCpus : Nat) (s : Machine) (t : Nat) : Machine :=
  let th := s.thread t
  let go (pc : Pc) : Thread := { th with pc, groups := th.groups + 1 }
  match th.pc with
  | .hint =>
      -- load cpu_id_start, bound it, and spend one retry
      let cpu := s.cpuIdStart t
      let next := { go (.arm cpu) with passes := th.passes + 1 }
      if numCpus ≤ cpu then s.setThread t { next with pc := .done .fallback }
      else if th.loops - 1 = 0 then s.setThread t { next with loops := 0, pc := .done .fallback }
      else s.setThread t { next with loops := th.loops - 1 }
  | .arm cpu => s.setThread t { go (.checkCpu cpu) with entries := th.entries + 1 }
  | .checkCpu cpu => s.setThread t (go (if cpu = s.cpuId t then .checkStop cpu else .hint))
  | .checkStop cpu => s.setThread t (go (if s.stop cpu then .done .fallback else .loadCurrent cpu))
  | .loadCurrent cpu =>
      let cur := (s.block cpu th.op.cls).current
      match th.op with
      | .pop cls =>
          if cur = 0 then
            (s.observe cpu cls .empty).setThread t
              { go (.done .needsSlow) with refused := some (cpu, .empty) }
          else s.setThread t (go (.slot cpu (cur - 1)))
      | .push _ _ => s.setThread t (go (.loadCapacity cpu cur))
  | .loadCapacity cpu cur =>
      if (s.block cpu th.op.cls).capacity ≤ cur then
        (s.observe cpu th.op.cls .full).setThread t
          { go (.done .needsSlow) with refused := some (cpu, .full) }
      else s.setThread t (go (.slot cpu cur))
  | .slot cpu cur =>
      match th.op with
      | .pop cls => s.setThread t (go (.commit cpu cur ((s.block cpu cls).slots cur)))
      | .push cls obj =>
          let b := s.block cpu cls
          (s.setBlock cpu cls { b with slots := Function.update b.slots cur obj }).setThread t
            (go (.commit cpu (wrap32 (cur + 1)) obj))
  | .commit cpu cur obj =>
      let b := s.block cpu th.op.cls
      let e := match th.op with
        | .pop _ => Event.popped obj
        | .push _ obj => Event.pushed obj
      let answer := match th.op with
        | .pop _ => obj
        | .push _ _ => 0
      ((s.setBlock cpu th.op.cls { b with current := cur }).observe cpu th.op.cls e).setThread t
        { go (.done (.ok answer cpu)) with committed := some (cpu, e) }
  | .done _ => s

def finished (th : Thread) : Prop := ∃ r, th.pc = .done r

/-- One step: a running thread executes or starts a new attempt, the kernel
    schedules, preempts or signals, or somebody writes a stop flag. -/
inductive Step (numCpus : Nat) (registered : Nat → Bool) (s : Machine) : Machine → Prop where
  | exec {k t} : s.running k = some t → Step numCpus registered s (s.exec numCpus t)
  | call {k t} (op : Op) : s.running k = some t → finished (s.thread t) →
      Step numCpus registered s (s.setThread t (.call op))
  | signal {k t} : s.running k = some t →
      Step numCpus registered s (s.setThread t (s.thread t).abort)
  | preempt {k t} : s.running k = some t →
      Step numCpus registered s
        { s.setThread t (s.thread t).abort with running := Function.update s.running k none }
  | resume {t} (k : Nat) : s.running k = none → (∀ j, s.running j ≠ some t) →
      Step numCpus registered s { s with
        running := Function.update s.running k (some t)
        cpuIdStart := if registered t then Function.update s.cpuIdStart t k else s.cpuIdStart
        cpuId := if registered t then Function.update s.cpuId t k else s.cpuId }
  | setStop (cpu : Nat) (b : Bool) :
      Step numCpus registered s { s with stop := Function.update s.stop cpu b }

/-- Before any attempt: nobody runs, the stacks are within bounds, and a thread
    without a registration has an area that never passes the checks. -/
structure Initial (numCpus : Nat) (registered : Nat → Bool) (s : Machine) : Prop where
  idle : ∀ k, s.running k = none
  finished : ∀ t, s.thread t = ⟨.pop 0, 0, .done .fallback, 0, 0, 0, none, none⟩
  bounded : ∀ cpu cls, (s.block cpu cls).current ≤ (s.block cpu cls).capacity
  narrow : ∀ cpu cls, (s.block cpu cls).capacity < 2 ^ 32
  unregistered : ∀ t, registered t = false → numCpus ≤ s.cpuIdStart t ∨ s.cpuIdStart t ≠ s.cpuId t
  unobserved : ∀ cpu cls, s.history cpu cls = []

/-! ## What the registers say -/

/-- Past the CPU check a thread runs on the CPU it works on, and what it has loaded
    is still so. -/
def Synced (numCpus : Nat) (registered : Nat → Bool) (s : Machine) (t : Nat) (th : Thread) :
    Prop :=
  match th.pc with
  | .hint | .done _ => True
  | .arm cpu | .checkCpu cpu => cpu < numCpus ∧ (registered t = false → cpu = s.cpuIdStart t)
  | .checkStop cpu | .loadCurrent cpu => s.running cpu = some t
  | .loadCapacity cpu cur => s.running cpu = some t ∧ cur = (s.block cpu th.op.cls).current ∧
      ∃ cls obj, th.op = .push cls obj
  | .slot cpu cur => s.running cpu = some t ∧
      match th.op with
      | .pop cls => (s.block cpu cls).current = cur + 1
      | .push cls _ => (s.block cpu cls).current = cur ∧ cur < (s.block cpu cls).capacity
  | .commit cpu cur obj => s.running cpu = some t ∧
      match th.op with
      | .pop cls => (s.block cpu cls).current = cur + 1 ∧ (s.block cpu cls).slots cur = obj
      | .push cls pushed => cur = (s.block cpu cls).current + 1 ∧
          (s.block cpu cls).current < (s.block cpu cls).capacity ∧
          (s.block cpu cls).slots (s.block cpu cls).current = pushed

/-- How far into a pass an instruction group is. -/
def rank : Pc → Nat
  | .hint => 8
  | .arm _ => 1
  | .checkCpu _ => 2
  | .checkStop _ => 3
  | .loadCurrent _ => 4
  | .loadCapacity _ _ => 5
  | .slot _ _ => 6
  | .commit _ _ _ => 7
  | .done _ => 8

/-- A pass costs a retry, and at most eight groups. -/
def Paced (th : Thread) : Prop :=
  match th.pc with
  | .done _ => th.passes ≤ 5 ∧ th.entries ≤ 4 ∧ th.groups ≤ 33
  | .arm _ => th.passes + th.loops = 5 ∧ 1 ≤ th.loops ∧ th.entries + 1 ≤ th.passes ∧
      th.groups + 8 ≤ 8 * th.passes + 1
  | pc => th.passes + th.loops = 5 ∧ 1 ≤ th.loops ∧ th.entries ≤ th.passes ∧
      th.groups + 8 ≤ 8 * th.passes + rank pc

/-- The event an operation commits, with the pointer it returns. -/
def commits : Op → Nat → Event
  | .pop _, obj => .popped obj
  | .push _ pushed, _ => .pushed pushed

/-- What sends an operation to the slow path. -/
def refuses : Op → Event
  | .pop _ => .empty
  | .push _ _ => .full

/-- A thread has committed exactly when it is told so, and found its stack empty
    or full exactly when it is sent to the slow path. -/
def Honest (th : Thread) : Prop :=
  match th.pc with
  | .done (.ok obj cpu) => th.committed = some (cpu, commits th.op obj) ∧ th.refused = none
  | .done .needsSlow => th.committed = none ∧ ∃ cpu, th.refused = some (cpu, refuses th.op)
  | _ => th.committed = none ∧ th.refused = none

/-- The invariant; `first` is the machine at the start. -/
structure Inv (numCpus : Nat) (registered : Nat → Bool) (first s : Machine) : Prop where
  alone : ∀ j k t, s.running j = some t → s.running k = some t → j = k
  kept : ∀ k t, registered t = true → s.running k = some t → s.cpuIdStart t = k ∧ s.cpuId t = k
  unregistered : ∀ t, registered t = false → numCpus ≤ s.cpuIdStart t ∨ s.cpuIdStart t ≠ s.cpuId t
  synced : ∀ t, Synced numCpus registered s t (s.thread t)
  bounded : ∀ cpu cls, (s.block cpu cls).current ≤ (s.block cpu cls).capacity
  narrow : ∀ cpu cls, (s.block cpu cls).capacity < 2 ^ 32
  observed : ∀ cpu cls,
    replay (s.history cpu cls) (first.block cpu cls).stack = some (s.block cpu cls).stack
  paced : ∀ t, Paced (s.thread t)
  honest : ∀ t, Honest (s.thread t)

end Machine

/-! ## Stacks in memory -/

theorem live_length (slots : Nat → Nat) (n : Nat) : (live slots n).length = n := by
  induction n with
  | zero => rfl
  | succ n ih => rw [live, List.length_cons, ih]

theorem live_congr {slots slots' : Nat → Nat} {n : Nat} (same : ∀ i < n, slots' i = slots i) :
    live slots' n = live slots n := by
  induction n with
  | zero => rfl
  | succ n ih =>
      rw [live, live, same n (Nat.lt_succ_self n), ih fun i lt => same i (Nat.lt_succ_of_lt lt)]

/-- A scratch write at the top is invisible. -/
theorem live_scratch (slots : Nat → Nat) (n v : Nat) :
    live (Function.update slots n v) n = live slots n :=
  live_congr fun _ lt => Function.update_of_ne (Nat.ne_of_lt lt) ..

theorem replay_append (events : List Event) (e : Event) (s : CpuStack) :
    replay (events ++ [e]) s = replay events s >>= e.apply := by
  induction events generalizing s with
  | nil => simp [replay]
  | cons first later ih =>
      simp only [List.cons_append, replay, bind_assoc]
      cases first.apply s with
      | none => rfl
      | some s' => exact ih s'

namespace Machine

variable {numCpus : Nat} {registered : Nat → Bool} {first s : Machine} {t : Nat}

@[simp] theorem setThread_same (s : Machine) (t : Nat) (th : Thread) :
    (s.setThread t th).thread t = th := Function.update_self ..

theorem setThread_other (s : Machine) {t t' : Nat} (th : Thread) (different : t' ≠ t) :
    (s.setThread t th).thread t' = s.thread t' := Function.update_of_ne different ..

@[simp] theorem setBlock_same (s : Machine) (cpu cls : Nat) (b : Block) :
    (s.setBlock cpu cls b).block cpu cls = b := by
  simp only [setBlock, Function.update_self]

theorem setBlock_other (s : Machine) {cpu cls cpu' cls' : Nat} (b : Block)
    (different : ¬ (cpu' = cpu ∧ cls' = cls)) :
    (s.setBlock cpu cls b).block cpu' cls' = s.block cpu' cls' := by
  by_cases here : cpu' = cpu
  · subst here
    simp only [setBlock, Function.update_self]
    exact Function.update_of_ne (fun same => different ⟨rfl, same⟩) ..
  · simp only [setBlock, Function.update_of_ne here]

theorem observe_same (s : Machine) (cpu cls : Nat) (e : Event) :
    (s.observe cpu cls e).history cpu cls = s.history cpu cls ++ [e] := by
  simp only [observe, Function.update_self]

theorem observe_other (s : Machine) {cpu cls cpu' cls' : Nat} (e : Event)
    (different : ¬ (cpu' = cpu ∧ cls' = cls)) :
    (s.observe cpu cls e).history cpu' cls' = s.history cpu' cls' := by
  by_cases here : cpu' = cpu
  · subst here
    simp only [observe, Function.update_self]
    exact Function.update_of_ne (fun same => different ⟨rfl, same⟩) ..
  · simp only [observe, Function.update_of_ne here]

/-! ## Frames -/

theorem forall_setThread {P : Nat → Thread → Prop} {th : Thread} (new : P t th)
    (old : ∀ t', P t' (s.thread t')) : ∀ t', P t' ((s.setThread t th).thread t') := by
  intro t'
  by_cases same : t' = t
  · subst same
    rwa [setThread_same]
  · rw [setThread_other s th same]
    exact old t'

theorem forall_setBlock {P : Nat → Nat → Block → Prop} {cpu cls : Nat} {b : Block}
    (new : P cpu cls b) (old : ∀ cpu' cls', P cpu' cls' (s.block cpu' cls')) :
    ∀ cpu' cls', P cpu' cls' ((s.setBlock cpu cls b).block cpu' cls') := by
  intro cpu' cls'
  by_cases same : cpu' = cpu ∧ cls' = cls
  · obtain ⟨rfl, rfl⟩ := same
    rwa [setBlock_same]
  · rw [setBlock_other s b same]
    exact old cpu' cls'

/-- A step that only moves one thread on. -/
theorem Inv.move (inv : Inv numCpus registered first s) {th : Thread}
    (synced : Synced numCpus registered s t th) (paced : Paced th) (honest : Honest th) :
    Inv numCpus registered first (s.setThread t th) :=
  { inv with
    synced := forall_setThread (P := Synced numCpus registered s) synced inv.synced
    paced := forall_setThread (P := fun _ => Paced) paced inv.paced
    honest := forall_setThread (P := fun _ => Honest) honest inv.honest }

/-- Other threads do not depend on the blocks of a CPU they do not run on. -/
theorem Synced.frame {cpu cls : Nat} {b : Block} {t' : Nat} {th : Thread}
    (here : s.running cpu = some t) (different : t' ≠ t)
    (synced : Synced numCpus registered s t' th) :
    Synced numCpus registered (s.setBlock cpu cls b) t' th := by
  have elsewhere : ∀ {cpu'}, s.running cpu' = some t' → ∀ cls',
      (s.setBlock cpu cls b).block cpu' cls' = s.block cpu' cls' := by
    intro cpu' there cls'
    refine setBlock_other s b fun both => different ?_
    rw [both.1, here] at there
    exact (Option.some.inj there).symm
  unfold Synced at synced ⊢
  split at synced
  all_goals first
    | exact synced
    | simp only [elsewhere synced.1]
      exact synced

theorem setBlock_self (s : Machine) (cpu cls : Nat) :
    s.setBlock cpu cls (s.block cpu cls) = s := by
  simp only [setBlock, Function.update_eq_self]

/-- A write to the block of the CPU a thread runs on, with the thread moving on:
    everybody else stays in step. -/
theorem Inv.write (inv : Inv numCpus registered first s) {cpu cls : Nat} {b : Block} {th : Thread}
    (here : s.running cpu = some t) (fits : b.current ≤ b.capacity) (narrow : b.capacity < 2 ^ 32)
    (same : b.stack = (s.block cpu cls).stack)
    (synced : Synced numCpus registered (s.setBlock cpu cls b) t th) (paced : Paced th)
    (honest : Honest th) :
    Inv numCpus registered first ((s.setBlock cpu cls b).setThread t th) where
  alone := inv.alone
  kept := inv.kept
  unregistered := inv.unregistered
  synced t' := by
    by_cases same : t' = t
    · subst same
      rwa [setThread_same]
    · rw [setThread_other _ th same]
      exact (inv.synced t').frame here same
  bounded := forall_setBlock (P := fun _ _ b => b.current ≤ b.capacity) fits inv.bounded
  narrow := forall_setBlock (P := fun _ _ b => b.capacity < 2 ^ 32) narrow inv.narrow
  observed := by
    refine forall_setBlock (P := fun cpu cls b => replay (s.history cpu cls) _ = some b.stack) ?_
      inv.observed
    rw [same]
    exact inv.observed cpu cls
  paced := forall_setThread (P := fun _ => Paced) paced inv.paced
  honest := forall_setThread (P := fun _ => Honest) honest inv.honest

/-- An event on the stack of the CPU a thread runs on. -/
theorem Inv.event (inv : Inv numCpus registered first s) {cpu cls : Nat} {b : Block} {e : Event}
    {th : Thread} (here : s.running cpu = some t) (fits : b.current ≤ b.capacity)
    (narrow : b.capacity < 2 ^ 32) (applies : e.apply (s.block cpu cls).stack = some b.stack)
    (synced : Synced numCpus registered (s.setBlock cpu cls b) t th) (paced : Paced th)
    (honest : Honest th) :
    Inv numCpus registered first (((s.setBlock cpu cls b).observe cpu cls e).setThread t th) where
  alone := inv.alone
  kept := inv.kept
  unregistered := inv.unregistered
  synced t' := by
    by_cases same : t' = t
    · subst same
      rwa [setThread_same]
    · rw [setThread_other _ th same]
      exact (inv.synced t').frame here same
  bounded := forall_setBlock (P := fun _ _ b => b.current ≤ b.capacity) fits inv.bounded
  narrow := forall_setBlock (P := fun _ _ b => b.capacity < 2 ^ 32) narrow inv.narrow
  observed cpu' cls' := by
    show replay (((s.setBlock cpu cls b).observe cpu cls e).history cpu' cls') _ =
      some ((s.setBlock cpu cls b).block cpu' cls').stack
    by_cases same : cpu' = cpu ∧ cls' = cls
    · obtain ⟨rfl, rfl⟩ := same
      rw [observe_same, replay_append, setBlock_same]
      exact (congrArg (· >>= e.apply) (inv.observed cpu' cls')).trans applies
    · rw [observe_other _ e same, setBlock_other s b same]
      exact inv.observed cpu' cls'
  paced := forall_setThread (P := fun _ => Paced) paced inv.paced
  honest := forall_setThread (P := fun _ => Honest) honest inv.honest

/-- A refusal: the stack is as it was when it was found empty or full. -/
theorem Inv.refuse (inv : Inv numCpus registered first s) {cpu cls : Nat} {e : Event}
    {th : Thread} (here : s.running cpu = some t)
    (applies : e.apply (s.block cpu cls).stack = some (s.block cpu cls).stack)
    (synced : Synced numCpus registered s t th) (paced : Paced th) (honest : Honest th) :
    Inv numCpus registered first ((s.observe cpu cls e).setThread t th) := by
  have done := inv.event here (inv.bounded cpu cls) (inv.narrow cpu cls) applies
    (by rwa [setBlock_self]) paced honest
  rwa [setBlock_self] at done

/-! ## One instruction group -/

/-- Whatever group a running thread is at, executing it keeps the invariant. -/
theorem Inv.exec (inv : Inv numCpus registered first s) {k : Nat} (runs : s.running k = some t) :
    Inv numCpus registered first (s.exec numCpus t) := by
  have synced := inv.synced t
  have paced := inv.paced t
  have honest := inv.honest t
  cases at_pc : (s.thread t).pc with
  | hint =>
      simp only [Paced, Honest, at_pc, rank] at paced honest
      simp only [Machine.exec, at_pc]
      split
      · exact inv.move trivial (by simp only [Paced]; omega) honest
      · split
        · exact inv.move trivial (by simp only [Paced]; omega) honest
        · exact inv.move ⟨by omega, fun _ => rfl⟩ (by simp only [Paced]; omega) honest
  | arm cpu =>
      simp only [Synced, Paced, Honest, at_pc] at synced paced honest
      simp only [Machine.exec, at_pc]
      exact inv.move synced (by simp only [Paced, rank]; omega) honest
  | checkCpu cpu =>
      simp only [Synced, Paced, Honest, at_pc, rank] at synced paced honest
      simp only [Machine.exec, at_pc]
      split
      · rename_i current
        -- an area the kernel does not keep never passes this check
        have kept : registered t = true := by
          by_contra not
          have unkept := Bool.eq_false_iff.mpr not
          rcases inv.unregistered t unkept with large | different
          · have := synced.2 unkept
            omega
          · exact different ((synced.2 unkept).symm.trans current)
        refine inv.move ?_ (by simp only [Paced, rank]; omega) honest
        show s.running cpu = some t
        rw [current, (inv.kept k t kept runs).2, runs]
      · exact inv.move trivial (by simp only [Paced, rank]; omega) honest
  | checkStop cpu =>
      simp only [Synced, Paced, Honest, at_pc, rank] at synced paced honest
      simp only [Machine.exec, at_pc]
      split
      · exact inv.move trivial (by simp only [Paced]; omega) honest
      · exact inv.move synced (by simp only [Paced, rank]; omega) honest
  | loadCurrent cpu =>
      simp only [Synced, Paced, Honest, at_pc, rank] at synced paced honest
      simp only [Machine.exec, at_pc]
      cases op : (s.thread t).op with
      | pop cls =>
          simp only
          split
          · rename_i none
            refine inv.refuse synced ?_ trivial (by simp only [Paced]; omega)
              ⟨honest.1, cpu, by simp only [refuses]⟩
            simp only [Op.cls] at none
            simp only [Event.apply, Block.stack, none, live, if_true]
          · rename_i some
            simp only [Op.cls] at some
            exact inv.move ⟨synced, by simp only [Op.cls]; omega⟩
              (by simp only [Paced, rank]; omega) honest
      | push cls obj =>
          exact inv.move ⟨synced, rfl, cls, obj, rfl⟩ (by simp only [Paced, rank]; omega)
            honest
  | loadCapacity cpu cur =>
      simp only [Synced, Paced, Honest, at_pc, rank] at synced paced honest
      obtain ⟨here, loaded, cls, obj, op⟩ := synced
      simp only [op, Op.cls] at loaded
      simp only [Machine.exec, at_pc, op, Op.cls]
      split
      · rename_i most
        refine inv.refuse here ?_ trivial (by simp only [Paced]; omega)
          ⟨honest.1, cpu, by simp only [refuses]⟩
        simp only [Event.apply, Block.stack, live_length]
        rw [if_pos (by omega)]
      · exact inv.move ⟨here, by simp only; omega⟩ (by simp only [Paced, rank]; omega) honest
  | slot cpu cur =>
      simp only [Synced, Paced, Honest, at_pc, rank] at synced paced honest
      obtain ⟨here, loaded⟩ := synced
      simp only [Machine.exec, at_pc]
      cases op : (s.thread t).op with
      | pop cls =>
          simp only [op] at loaded
          exact inv.move ⟨here, loaded, rfl⟩ (by simp only [Paced, rank]; omega) honest
      | push cls obj =>
          simp only [op] at loaded
          have narrow := inv.narrow cpu cls
          refine inv.write here (inv.bounded cpu cls) narrow ?_ ?_
            (by simp only [Paced, rank]; omega) honest
          · simp only [Block.stack, loaded.1, live_scratch]
          · refine ⟨here, ?_, ?_, ?_⟩ <;> simp only [setBlock_same]
            · rw [wrap32_small (by omega), loaded.1]
            · omega
            · rw [loaded.1, Function.update_self]
  | commit cpu cur obj =>
      simp only [Synced, Paced, Honest, at_pc, rank] at synced paced honest
      obtain ⟨here, loaded⟩ := synced
      simp only [Machine.exec, at_pc]
      cases op : (s.thread t).op with
      | pop cls =>
          simp only [op] at loaded
          have bounded := inv.bounded cpu cls
          refine inv.event here (by simp only [Op.cls]; omega) (inv.narrow cpu cls) ?_ trivial
            (by simp only [Paced]; omega) ⟨rfl, honest.2⟩
          simp only [Op.cls, Event.apply, Block.stack, loaded.1, live, loaded.2, if_true]
      | push cls pushed =>
          simp only [op] at loaded
          refine inv.event here (by simp only [Op.cls]; omega) (inv.narrow cpu cls) ?_ trivial
            (by simp only [Paced]; omega) ⟨rfl, honest.2⟩
          simp only [Op.cls, Event.apply, Block.stack, live_length, loaded.1, live, loaded.2.2]
          rw [if_pos loaded.2.1]
  | done r =>
      simp only [Machine.exec, at_pc]
      exact inv

/-! ## The kernel -/

/-- After an abort the thread depends on nothing it has loaded. -/
theorem Synced.abort {s' : Machine} {th : Thread} (synced : Synced numCpus registered s t th)
    (same : s'.cpuIdStart = s.cpuIdStart) : Synced numCpus registered s' t th.abort := by
  unfold Thread.abort
  cases at_pc : th.pc <;> simp only [Pc.inSection, if_true, Bool.false_eq_true, if_false]
  case arm cpu =>
    simp only [Synced, at_pc, same] at synced ⊢
    exact synced
  all_goals simp only [Synced, at_pc]

theorem Paced.abort {th : Thread} (paced : Paced th) : Paced th.abort := by
  unfold Thread.abort
  split
  · rename_i inside
    cases at_pc : th.pc <;> simp only [at_pc, Pc.inSection, Bool.false_eq_true] at inside <;>
      simp only [Paced, at_pc, rank] at paced ⊢ <;> omega
  · exact paced

theorem Honest.abort {th : Thread} (honest : Honest th) : Honest th.abort := by
  unfold Thread.abort
  split
  · rename_i inside
    cases at_pc : th.pc <;> simp only [at_pc, Pc.inSection, Bool.false_eq_true] at inside <;>
      simpa only [Honest, at_pc] using honest
  · exact honest

theorem Inv.call (inv : Inv numCpus registered first s) (op : Op) :
    Inv numCpus registered first (s.setThread t (.call op)) :=
  inv.move trivial ⟨rfl, (by decide : 1 ≤ 5), le_rfl, (by decide : 0 + 8 ≤ 8 * 0 + 8)⟩ ⟨rfl, rfl⟩

theorem Inv.signal (inv : Inv numCpus registered first s) :
    Inv numCpus registered first (s.setThread t (s.thread t).abort) :=
  inv.move ((inv.synced t).abort rfl) (inv.paced t).abort (inv.honest t).abort

theorem Inv.preempt (inv : Inv numCpus registered first s) {k : Nat}
    (runs : s.running k = some t) :
    Inv numCpus registered first
      { s.setThread t (s.thread t).abort with running := Function.update s.running k none } := by
  have stay : ∀ {j t'}, Function.update s.running k none j = some t' → s.running j = some t' := by
    intro j t' there
    by_cases same : j = k
    · rw [same, Function.update_self] at there
      cases there
    · rwa [Function.update_of_ne same] at there
  have keep : ∀ {j t'}, t' ≠ t → s.running j = some t' →
      Function.update s.running k none j = some t' := by
    intro j t' different there
    rw [Function.update_of_ne ?_]
    · exact there
    · rintro rfl
      exact different (Option.some.inj (there.symm.trans runs))
  exact { inv.signal (t := t) with
    alone := fun i j t' a b => inv.alone i j t' (stay a) (stay b)
    kept := fun j t' kept there => inv.kept j t' kept (stay there)
    synced := by
      intro t'
      by_cases same : t' = t
      · subst same
        show Synced numCpus registered _ t' ((s.setThread t' _).thread t')
        rw [setThread_same]
        exact (inv.synced t').abort rfl
      · show Synced numCpus registered _ t' ((s.setThread t _).thread t')
        rw [setThread_other s _ same]
        have synced := inv.synced t'
        unfold Synced at synced ⊢
        split at synced
        all_goals first
          | exact synced
          | exact keep same synced
          | exact ⟨keep same synced.1, synced.2⟩ }

theorem Inv.resume (inv : Inv numCpus registered first s) {k : Nat} (vacant : s.running k = none)
    (off : ∀ j, s.running j ≠ some t) :
    Inv numCpus registered first { s with
      running := Function.update s.running k (some t)
      cpuIdStart := if registered t then Function.update s.cpuIdStart t k else s.cpuIdStart
      cpuId := if registered t then Function.update s.cpuId t k else s.cpuId } := by
  have place : ∀ {j t'}, Function.update s.running k (some t) j = some t' →
      (j = k ∧ t' = t) ∨ s.running j = some t' := by
    intro j t' there
    by_cases same : j = k
    · rw [same, Function.update_self] at there
      exact .inl ⟨same, (Option.some.inj there).symm⟩
    · rw [Function.update_of_ne same] at there
      exact .inr there
  have keep : ∀ {j t'}, s.running j = some t' → Function.update s.running k (some t) j = some t' := by
    intro j t' there
    rw [Function.update_of_ne ?_]
    · exact there
    · rintro rfl
      rw [vacant] at there
      cases there
  have area : ∀ {ids : Nat → Nat} {t'}, t' ≠ t ∨ registered t' = false →
      (if registered t then Function.update ids t k else ids) t' = ids t' := by
    intro ids t' other
    split
    · rename_i kept
      refine Function.update_of_ne ?_ ..
      rintro rfl
      rcases other with different | unkept
      · exact different rfl
      · rw [kept] at unkept
        cases unkept
    · rfl
  refine { inv with alone := ?_, kept := ?_, unregistered := ?_, synced := ?_ }
  · intro i j t' a b
    rcases place a with ⟨rfl, rfl⟩ | onI
    · rcases place b with ⟨rfl, -⟩ | onJ
      · rfl
      · exact (off j onJ).elim
    · rcases place b with ⟨rfl, rfl⟩ | onJ
      · exact (off i onI).elim
      · exact inv.alone i j t' onI onJ
  · intro j t' kept there
    rcases place there with ⟨rfl, rfl⟩ | onJ
    · simp only [kept, if_true, Function.update_self, and_self]
    · have different : t' ≠ t := by
        rintro rfl
        exact off j onJ
      simp only [area (.inl different)]
      exact inv.kept j t' kept onJ
  · intro t' unkept
    simp only [area (.inr unkept)]
    exact inv.unregistered t' unkept
  · intro t'
    have synced := inv.synced t'
    show Synced numCpus registered _ t' (s.thread t')
    unfold Synced at synced ⊢
    split at synced
    all_goals first
      | exact synced
      | exact keep synced
      | exact ⟨keep synced.1, synced.2⟩
      | exact ⟨synced.1, fun unkept => (synced.2 unkept).trans (area (.inr unkept)).symm⟩

theorem Inv.step {s' : Machine} (inv : Inv numCpus registered first s)
    (taken : Step numCpus registered s s') : Inv numCpus registered first s' := by
  cases taken with
  | exec runs => exact inv.exec runs
  | call op runs ended => exact inv.call op
  | signal runs => exact inv.signal
  | preempt runs => exact inv.preempt runs
  | resume k vacant off => exact inv.resume vacant off
  | setStop cpu b => exact { inv with synced := inv.synced }

theorem Initial.inv (initial : Initial numCpus registered s) : Inv numCpus registered s s := by
  refine ⟨?_, ?_, initial.unregistered, ?_, initial.bounded, initial.narrow, ?_, ?_, ?_⟩
  · intro j k t there
    rw [initial.idle] at there
    cases there
  · intro k t _ there
    rw [initial.idle] at there
    cases there
  · intro t
    simp only [initial.finished, Synced]
  · intro cpu cls
    rw [initial.unobserved]
    rfl
  · intro t
    rw [initial.finished]
    exact ⟨by decide, by decide, by decide⟩
  · intro t
    rw [initial.finished]
    exact ⟨rfl, rfl⟩

/-! ## Every schedule -/

/-- One more event of one stack. -/
def Observes (s s' : Machine) (cpu cls : Nat) (e : Event) : Prop :=
  s'.history cpu cls = s.history cpu cls ++ [e] ∧
    ∀ cpu' cls', ¬ (cpu' = cpu ∧ cls' = cls) → s'.history cpu' cls' = s.history cpu' cls'

/-- Every stack as it was, and nothing observed of any. -/
def Quiet (s s' : Machine) : Prop :=
  s'.history = s.history ∧ ∀ cpu cls, (s'.block cpu cls).stack = (s.block cpu cls).stack ∧
    (s'.block cpu cls).current = (s.block cpu cls).current

/-- Thread `t`, which had committed nothing, commits on one stack and is told so. -/
def Commits (s s' : Machine) (t : Nat) : Prop :=
  ∃ cpu obj, (s.thread t).committed = none ∧ (s'.thread t).pc = .done (.ok obj cpu) ∧
    Observes s s' cpu (s.thread t).op.cls (commits (s.thread t).op obj) ∧
    ∀ cpu' cls', ¬ (cpu' = cpu ∧ cls' = (s.thread t).op.cls) →
      s'.block cpu' cls' = s.block cpu' cls'

/-- The thread is about to make the load its answer hangs on. -/
def Deciding (th : Thread) (cpu : Nat) : Prop :=
  match th.op with
  | .pop _ => th.pc = .loadCurrent cpu
  | .push _ _ => ∃ cur, th.pc = .loadCapacity cpu cur

/-- The stack cannot serve the operation. -/
def Refusing (b : Block) : Op → Prop
  | .pop _ => b.current = 0
  | .push _ _ => b.capacity ≤ b.current

/-- Thread `t`, at its deciding load, finds its stack empty or full and is sent to
    the slow path, with every block as it was. -/
def Refuses (s s' : Machine) (t : Nat) : Prop :=
  ∃ cpu, Deciding (s.thread t) cpu ∧ Refusing (s.block cpu (s.thread t).op.cls) (s.thread t).op ∧
    (s.thread t).refused = none ∧ (s'.thread t).pc = .done .needsSlow ∧
    Observes s s' cpu (s.thread t).op.cls (refuses (s.thread t).op) ∧ s'.block = s.block ∧
    ∀ t', t' ≠ t → s'.thread t' = s.thread t'

/-- No thread is newly sent to the slow path. -/
def Unrefused (s s' : Machine) : Prop :=
  ∀ t, (s'.thread t).pc = .done .needsSlow → (s.thread t).pc = .done .needsSlow

theorem observes (s : Machine) (th : Thread) (cpu cls : Nat) (e : Event) :
    Observes s ((s.observe cpu cls e).setThread t th) cpu cls e :=
  ⟨observe_same s cpu cls e, fun _ _ other => observe_other s e other⟩

theorem Unrefused.move {th : Thread} (other : th.pc ≠ .done .needsSlow) :
    Unrefused s (s.setThread t th) := by
  intro t' slow
  by_cases same : t' = t
  · subst same
    rw [setThread_same] at slow
    exact (other slow).elim
  · rwa [setThread_other s th same] at slow

/-- What executing one group shows: nothing, a commit, or a refusal. -/
theorem Inv.exec_shows (inv : Inv numCpus registered first s) :
    (Quiet s (s.exec numCpus t) ∧ Unrefused s (s.exec numCpus t)) ∨
      (Commits s (s.exec numCpus t) t ∧ Unrefused s (s.exec numCpus t)) ∨
      Refuses s (s.exec numCpus t) t := by
  have synced := inv.synced t
  have honest := inv.honest t
  have untouched : ∀ {th : Thread}, th.pc ≠ .done .needsSlow →
      Quiet s (s.setThread t th) ∧ Unrefused s (s.setThread t th) :=
    fun other => ⟨⟨rfl, fun _ _ => ⟨rfl, rfl⟩⟩, Unrefused.move other⟩
  cases at_pc : (s.thread t).pc with
  | hint =>
      simp only [Machine.exec, at_pc]
      split
      · exact .inl (untouched (by simp))
      · split
        · exact .inl (untouched (by simp))
        · exact .inl (untouched (by simp))
  | arm =>
      simp only [Machine.exec, at_pc]
      exact .inl (untouched (by simp))
  | checkCpu =>
      simp only [Machine.exec, at_pc]
      refine .inl (untouched ?_)
      split <;> simp
  | checkStop =>
      simp only [Machine.exec, at_pc]
      refine .inl (untouched ?_)
      split <;> simp
  | loadCurrent cpu =>
      simp only [Honest, at_pc] at honest
      simp only [Machine.exec, at_pc]
      cases op : (s.thread t).op with
      | pop cls =>
          simp only
          split
          · rename_i none
            refine .inr (.inr ⟨cpu, ?_, ?_, honest.2, ?_, ?_, rfl, fun _ => setThread_other _ _⟩)
            · simp only [Deciding, op, at_pc]
            · simpa only [Refusing, op] using none
            · rw [setThread_same]
            · rw [op]
              exact observes s _ cpu cls .empty
          · exact .inl (untouched (by simp))
      | push => exact .inl (untouched (by simp))
  | loadCapacity cpu cur =>
      simp only [Synced, Honest, at_pc] at synced honest
      obtain ⟨-, loaded, cls, obj, op⟩ := synced
      simp only [Machine.exec, at_pc]
      split
      · rename_i most
        refine .inr (.inr ⟨cpu, ?_, ?_, honest.2, ?_, ?_, rfl, fun _ => setThread_other _ _⟩)
        · simp only [Deciding, op]
          exact ⟨cur, at_pc⟩
        · rw [loaded] at most
          simpa only [Refusing, op] using most
        · rw [setThread_same]
        · rw [op]
          exact observes s _ cpu cls .full
      · exact .inl (untouched (by simp))
  | slot cpu cur =>
      simp only [Synced, at_pc] at synced
      simp only [Machine.exec, at_pc]
      cases op : (s.thread t).op with
      | pop => exact .inl (untouched (by simp))
      | push cls obj =>
          simp only [op] at synced
          refine .inl ⟨⟨rfl, forall_setBlock (P := fun cpu cls b =>
            b.stack = (s.block cpu cls).stack ∧ b.current = (s.block cpu cls).current)
            ⟨?_, rfl⟩ fun _ _ => ⟨rfl, rfl⟩⟩, Unrefused.move (by simp)⟩
          simp only [Block.stack, synced.2.1, live_scratch]
  | commit cpu cur obj =>
      simp only [Honest, at_pc] at honest
      simp only [Machine.exec, at_pc]
      refine .inr (.inl ⟨⟨cpu, _, honest.1, by rw [setThread_same], ?_, fun cpu' cls' other =>
        setBlock_other s _ other⟩, Unrefused.move (by simp)⟩)
      cases (s.thread t).op with
      | pop => exact observes (s.setBlock cpu _ _) _ cpu _ _
      | push => exact observes (s.setBlock cpu _ _) _ cpu _ _
  | done =>
      simp only [Machine.exec, at_pc]
      exact .inl ⟨⟨rfl, fun _ _ => ⟨rfl, rfl⟩⟩, fun _ slow => slow⟩

theorem abort_slow {th : Thread} (slow : th.abort.pc = .done .needsSlow) :
    th.pc = .done .needsSlow := by
  unfold Thread.abort at slow
  split at slow
  · simp only [reduceCtorEq] at slow
  · exact slow

theorem Unrefused.abort : Unrefused s (s.setThread t (s.thread t).abort) := by
  intro t' slow
  by_cases same : t' = t
  · subst same
    rw [setThread_same] at slow
    exact abort_slow slow
  · rwa [setThread_other s _ same] at slow

theorem Inv.shows {s' : Machine} (inv : Inv numCpus registered first s)
    (taken : Step numCpus registered s s') :
    (Quiet s s' ∧ Unrefused s s') ∨ (∃ t, Commits s s' t ∧ Unrefused s s') ∨
      ∃ t, Refuses s s' t := by
  have still : Quiet s { s' with block := s.block, history := s.history } :=
    ⟨rfl, fun _ _ => ⟨rfl, rfl⟩⟩
  cases taken with
  | exec runs =>
      exact inv.exec_shows.imp_right fun shown =>
        shown.imp (fun commit => ⟨_, commit⟩) fun refusal => ⟨_, refusal⟩
  | call op => exact .inl ⟨still, Unrefused.move (by simp [Thread.call])⟩
  | signal => exact .inl ⟨still, Unrefused.abort⟩
  | preempt => exact .inl ⟨still, Unrefused.abort⟩
  | resume | setStop => exact .inl ⟨still, fun _ slow => slow⟩

/-- At its deciding load an attempt is sent to the slow path exactly when the stack
    is then empty, or full. -/
theorem Inv.decides {cpu : Nat} (inv : Inv numCpus registered first s)
    (deciding : Deciding (s.thread t) cpu) :
    ((s.exec numCpus t).thread t).pc = .done .needsSlow ↔
      Refusing (s.block cpu (s.thread t).op.cls) (s.thread t).op := by
  cases op : (s.thread t).op with
  | pop cls =>
      simp only [Deciding, op] at deciding
      simp only [Machine.exec, deciding, op, Op.cls, Refusing]
      split
      · rename_i none
        simp only [setThread_same, none]
      · rename_i some
        simp only [setThread_same, some, reduceCtorEq]
  | push cls obj =>
      simp only [Deciding, op] at deciding
      obtain ⟨cur, at_pc⟩ := deciding
      have synced := inv.synced t
      simp only [Synced, at_pc, op, Op.cls] at synced
      simp only [Machine.exec, at_pc, op, Op.cls, Refusing, ← synced.2.1]
      split
      · rename_i most
        simp only [setThread_same, most]
      · rename_i fewer
        simp only [setThread_same, fewer, reduceCtorEq]

/-- An unfinished attempt of a running thread makes progress. -/
theorem exec_groups (s : Machine) (unfinished : ¬ finished (s.thread t)) :
    ((s.exec numCpus t).thread t).groups = (s.thread t).groups + 1 := by
  cases at_pc : (s.thread t).pc with
  | done r => exact (unfinished ⟨r, at_pc⟩).elim
  | hint =>
      simp only [exec, at_pc]
      split
      · rw [setThread_same]
      · split <;> rw [setThread_same]
  | loadCurrent =>
      simp only [exec, at_pc]
      cases (s.thread t).op with
      | pop =>
          simp only
          split <;> rw [setThread_same]
      | push => simp only [setThread_same]
  | loadCapacity =>
      simp only [exec, at_pc]
      split <;> rw [setThread_same]
  | slot =>
      simp only [exec, at_pc]
      cases (s.thread t).op <;> simp only [setThread_same]
  | arm | checkCpu | checkStop | commit => simp only [exec, at_pc, setThread_same]

/-- The machine refines one atomic bounded stack per CPU and class. -/
structure Refines (numCpus : Nat) (registered : Nat → Bool) (first s : Machine) : Prop where
  histories : ∀ cpu cls,
    replay (s.history cpu cls) (first.block cpu cls).stack = some (s.block cpu cls).stack
  bounded : ∀ cpu cls, (s.block cpu cls).current ≤ (s.block cpu cls).capacity
  answers : ∀ t, Honest (s.thread t)
  shows : ∀ s', Step numCpus registered s s' →
    (Quiet s s' ∧ Unrefused s s') ∨ (∃ t, Commits s s' t ∧ Unrefused s s') ∨ ∃ t, Refuses s s' t
  decides : ∀ t cpu, Deciding (s.thread t) cpu →
    (((s.exec numCpus t).thread t).pc = .done .needsSlow ↔
      Refusing (s.block cpu (s.thread t).op.cls) (s.thread t).op)
  attempts : ∀ t, (s.thread t).passes ≤ 5 ∧ (s.thread t).entries ≤ 4 ∧ (s.thread t).groups ≤ 33
  progress : ∀ t, ¬ finished (s.thread t) →
    ((s.exec numCpus t).thread t).groups = (s.thread t).groups + 1

theorem Paced.attempts {th : Thread} (paced : Paced th) :
    th.passes ≤ 5 ∧ th.entries ≤ 4 ∧ th.groups ≤ 33 := by
  unfold Paced at paced
  split at paced
  · exact paced
  · omega
  · cases at_pc : th.pc <;> simp only [at_pc, rank] at paced <;> omega

/-- Under every schedule, with aborts anywhere, what was committed is a history of
    the atomic stack, nothing else shows, and no attempt outlives its budget. -/
theorem reachable_refines (initial : Initial numCpus registered first)
    (reached : Reachable (· = first) (Step numCpus registered) s) :
    Refines numCpus registered first s := by
  have inv : Inv numCpus registered first s :=
    reached.invariant (fun _ same => same ▸ initial.inv) fun _ _ inv taken => inv.step taken
  exact ⟨inv.observed, inv.bounded, inv.honest, fun _ taken => inv.shows taken,
    fun _ _ => inv.decides, fun t => (inv.paced t).attempts, fun t => exec_groups s⟩

theorem exec_running (s : Machine) : (s.exec numCpus t).running = s.running := by
  cases at_pc : (s.thread t).pc with
  | hint =>
      simp only [exec, at_pc]
      split
      · rfl
      · split <;> rfl
  | loadCurrent =>
      simp only [exec, at_pc]
      cases (s.thread t).op with
      | pop =>
          simp only
          split <;> rfl
      | push => rfl
  | loadCapacity =>
      simp only [exec, at_pc]
      split <;> rfl
  | slot =>
      simp only [exec, at_pc]
      cases (s.thread t).op <;> rfl
  | done => simp only [exec, at_pc]
  | arm | checkCpu | checkStop | commit =>
      simp only [exec, at_pc]
      rfl

theorem reachable_exec {init : Machine → Prop} {k : Nat} (n : Nat)
    (reached : Reachable init (Step numCpus registered) s) (runs : s.running k = some t) :
    Reachable init (Step numCpus registered) ((exec numCpus · t)^[n] s) ∧
      ((exec numCpus · t)^[n] s).running k = some t := by
  induction n with
  | zero => exact ⟨reached, runs⟩
  | succ n ih =>
      rw [Function.iterate_succ_apply']
      exact ⟨ih.1.next (.exec ih.2), by rw [exec_running, ih.2]⟩

/-- A machine with empty stacks of eight slots and every thread at rest. -/
def rested : Machine :=
  ⟨fun _ _ => ⟨0, 8, fun _ => 0⟩, fun _ => false, fun _ => none, fun _ => 0, fun _ => 0,
    fun _ => ⟨.pop 0, 0, .done .fallback, 0, 0, 0, none, none⟩, fun _ _ => []⟩

theorem rested_initial : Initial 1 (fun _ => true) rested :=
  ⟨fun _ => rfl, fun _ => rfl, fun _ _ => Nat.zero_le 8, fun _ _ => (by decide : 8 < 2 ^ 32),
    by simp, fun _ _ => rfl⟩

/-- A pop finds the stack empty; a push interrupted after its scratch write starts
    over and commits once. -/
theorem reachable_refines_interrupted :
    ∃ first s, Initial 1 (fun _ => true) first ∧
      Reachable (· = first) (Step 1 fun _ => true) s ∧ s.history 0 0 = [.empty, .pushed 4096] ∧
      (s.thread 0).entries = 2 ∧ Refines 1 (fun _ => true) first s := by
  have h₀ : Reachable (· = rested) (Step 1 fun _ => true) rested := .start rfl
  have h₁ := h₀.next (.resume (t := 0) 0 rfl fun _ => by simp [rested])
  have h₂ := h₁.next (.call (k := 0) (t := 0) (.pop 0) rfl ⟨_, rfl⟩)
  have h₃ := reachable_exec (k := 0) (t := 0) 5 h₂ rfl
  have h₄ := h₃.1.next (.call (k := 0) (t := 0) (.push 0 4096) h₃.2 ⟨.needsSlow, rfl⟩)
  have h₅ := reachable_exec (k := 0) (t := 0) 7 h₄ h₃.2
  have h₆ := h₅.1.next (.signal h₅.2)
  have h₇ := (reachable_exec (k := 0) (t := 0) 8 h₆ h₅.2).1
  exact ⟨rested, _, rested_initial, h₇, by decide +kernel, by decide +kernel,
    reachable_refines rested_initial h₇⟩

end Machine

end Toccata.Rseq
