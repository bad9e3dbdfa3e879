import Toccata.Rseq.Restart
import Mathlib.Data.List.Perm.Basic

/-! # The restartable path beside the locked one

One class's stack on one CPU. A thread that runs there commits through a
restartable section, here one step. A thread whose attempt fell back works on the
block `resolvedCpu` names, whatever CPU it runs on: it checks the stop flag, takes
the block's spin lock, reads the header, reads or writes the slot, writes
`current` and unlocks, a step each. The lock keeps fallbacks apart; sections never
look at it.
-/

namespace Toccata.Rseq.Fallback

open Foundations

inductive Op where
  | pop
  | push (obj : Nat)
deriving Repr, DecidableEq

/-- Where a thread is in `pop_locked` or `push_locked`. -/
inductive Pc where
  | idle
  | checkStop (op : Op)
  | acquire (op : Op)
  | readHeader (op : Op)
  | accessSlot (op : Op) (cur : Nat)
  | writeCurrent (op : Op) (cur obj : Nat)
  | release
deriving Repr, DecidableEq

def Pc.locked : Pc → Bool
  | .readHeader _ | .accessSlot _ _ | .writeCurrent _ _ _ | .release => true
  | _ => false

/-- The header has been read and `current` not yet written. -/
def Pc.midway : Pc → Bool
  | .accessSlot _ _ | .writeCurrent _ _ _ => true
  | _ => false

/-- The stack of CPU `cpu`, its stop flag and lock, and the threads: the CPU each
    runs on, where it is in the locked path, and the pointers held, by holder. -/
structure Site where
  block : Block
  stop : Bool
  lock : Bool
  runsOn : Nat → Nat
  pc : Nat → Pc
  held : List (Nat × Nat)

namespace Site

def goto (s : Site) (t : Nat) (pc : Pc) : Site := { s with pc := Function.update s.pc t pc }

def contents (s : Site) : List Nat := live s.block.slots s.block.current

/-- A null popped is dropped, as `NonNull::new` does. -/
def give (held : List (Nat × Nat)) (t obj : Nat) : List (Nat × Nat) :=
  if obj = 0 then held else (t, obj) :: held

/-- A restartable section of a thread on this CPU that commits; one that finds the
    stop flag, or an empty or full stack, changes nothing. -/
inductive Section (numCpus cpu : Nat) (s : Site) : Site → Prop where
  | pop (t : Nat) : s.runsOn t = cpu → cpu < numCpus → s.stop = false → s.pc t = .idle →
      s.block.current ≠ 0 →
      Section numCpus cpu s { s with
        block := { s.block with current := s.block.current - 1 }
        held := give s.held t (s.block.slots (s.block.current - 1)) }
  | push (t obj : Nat) : s.runsOn t = cpu → cpu < numCpus → s.stop = false → s.pc t = .idle →
      (t, obj) ∈ s.held → s.block.current < s.block.capacity →
      Section numCpus cpu s { s with
        block := { s.block with
          current := s.block.current + 1
          slots := Function.update s.block.slots s.block.current obj }
        held := s.held.erase (t, obj) }

/-- One step of the locked path of thread `t`. A lock that is taken makes the
    thread wait. -/
def exec (s : Site) (t : Nat) : Site :=
  match s.pc t with
  | .idle => s
  | .checkStop op => if s.stop then s.goto t .idle else s.goto t (.acquire op)
  | .acquire op => if s.lock then s else { s.goto t (.readHeader op) with lock := true }
  | .readHeader .pop =>
      if s.block.current = 0 then s.goto t .release
      else s.goto t (.accessSlot .pop s.block.current)
  | .readHeader (.push obj) =>
      if s.block.capacity ≤ s.block.current then s.goto t .release
      else s.goto t (.accessSlot (.push obj) s.block.current)
  | .accessSlot .pop cur => s.goto t (.writeCurrent .pop cur (s.block.slots (cur - 1)))
  | .accessSlot (.push obj) cur =>
      { s.goto t (.writeCurrent (.push obj) cur obj) with
        block := { s.block with slots := Function.update s.block.slots cur obj } }
  | .writeCurrent .pop cur obj =>
      { s.goto t .release with
        block := { s.block with current := cur - 1 }
        held := give s.held t obj }
  | .writeCurrent (.push obj) cur _ =>
      { s.goto t .release with
        block := { s.block with current := cur + 1 }
        held := s.held.erase (t, obj) }
  | .release => { s.goto t .idle with lock := false }

/-- Everything but the sections: locked steps, the entry to the locked path after
    an attempt fell back, migrations and writes of the stop flag. A retry budget may
    be spent at any time, so an entry needs no more than that the thread resolves to
    this block. -/
inductive Other (numCpus cpu : Nat) (anchor : Nat → Nat) (s : Site) : Site → Prop where
  | exec (t : Nat) : Other numCpus cpu anchor s (s.exec t)
  | pop (t : Nat) : s.pc t = .idle → resolvedCpu numCpus (s.runsOn t) (anchor t) = cpu →
      Other numCpus cpu anchor s (s.goto t (.checkStop .pop))
  | push (t obj : Nat) : s.pc t = .idle → (t, obj) ∈ s.held →
      resolvedCpu numCpus (s.runsOn t) (anchor t) = cpu →
      Other numCpus cpu anchor s (s.goto t (.checkStop (.push obj)))
  | migrate (t k : Nat) :
      Other numCpus cpu anchor s { s with runsOn := Function.update s.runsOn t k }
  | setStop (b : Bool) : Other numCpus cpu anchor s { s with stop := b }

def Step (numCpus cpu : Nat) (anchor : Nat → Nat) (s s' : Site) : Prop :=
  Section numCpus cpu s s' ∨ Other numCpus cpu anchor s s'

/-- No thread is between its read of the header and its write of `current`. -/
def Calm (s : Site) : Prop := ∀ t, (s.pc t).midway = false

/-- A step whose section, if it is one, finds nobody midway. -/
def CalmStep (numCpus cpu : Nat) (anchor : Nat → Nat) (s s' : Site) : Prop :=
  Section numCpus cpu s s' ∧ s.Calm ∨ Other numCpus cpu anchor s s'

/-- Nobody in the locked path; every pointer is real and in one place. -/
structure Initial (s : Site) : Prop where
  idle : ∀ t, s.pc t = .idle
  unlocked : s.lock = false
  bounded : s.block.current ≤ s.block.capacity
  real : ∀ p ∈ s.held.map Prod.snd ++ s.contents, p ≠ 0
  distinct : (s.held.map Prod.snd ++ s.contents).Nodup

/-- The pointers held and stacked are still those of the beginning, each once. -/
structure Exclusive (first s : Site) : Prop where
  conserved : (s.held.map Prod.snd ++ s.contents).Perm (first.held.map Prod.snd ++ first.contents)
  once : (s.held.map Prod.snd ++ s.contents).Nodup

/-! ## Moves of a pointer -/

theorem popped {held : List (Nat × Nat)} {slots : Nat → Nat} (t : Nat) {n obj : Nat}
    (top : slots n = obj) (real : obj ≠ 0) :
    ((give held t obj).map Prod.snd ++ live slots n).Perm
      (held.map Prod.snd ++ live slots (n + 1)) := by
  rw [give, if_neg real, List.map_cons, List.cons_append, live, top]
  exact List.perm_middle.symm

theorem pushed {held : List (Nat × Nat)} {slots : Nat → Nat} {t n obj : Nat}
    (member : (t, obj) ∈ held) (top : slots n = obj) :
    ((held.erase (t, obj)).map Prod.snd ++ live slots (n + 1)).Perm
      (held.map Prod.snd ++ live slots n) := by
  rw [live, top]
  refine List.perm_middle.trans ?_
  rw [← List.cons_append]
  exact ((List.perm_cons_erase member).map Prod.snd).symm.append_right _

/-! ## The invariant -/

/-- What thread `t` relies on: the pointer it pushes is its own, and what it read
    under the lock is still so. -/
def Relies (s : Site) (t : Nat) : Pc → Prop
  | .checkStop (.push obj) | .acquire (.push obj) | .readHeader (.push obj) => (t, obj) ∈ s.held
  | .accessSlot .pop cur => s.block.current = cur ∧ cur ≠ 0
  | .accessSlot (.push obj) cur =>
      (t, obj) ∈ s.held ∧ s.block.current = cur ∧ cur < s.block.capacity
  | .writeCurrent .pop cur obj =>
      s.block.current = cur ∧ cur ≠ 0 ∧ s.block.slots (cur - 1) = obj
  | .writeCurrent (.push obj) cur _ =>
      (t, obj) ∈ s.held ∧ s.block.current = cur ∧ cur < s.block.capacity ∧ s.block.slots cur = obj
  | _ => True

structure Inv (first s : Site) : Prop where
  owner : ∀ t u, (s.pc t).locked = true → (s.pc u).locked = true → t = u
  taken : ∀ t, (s.pc t).locked = true → s.lock = true
  relies : ∀ t, s.Relies t (s.pc t)
  bounded : s.block.current ≤ s.block.capacity
  conserved : (s.held.map Prod.snd ++ s.contents).Perm (first.held.map Prod.snd ++ first.contents)

variable {numCpus cpu : Nat} {anchor : Nat → Nat} {first s s' : Site} {t : Nat}

theorem Inv.real (initial : Initial first) (inv : Inv first s) {n obj : Nat}
    (below : n < s.block.current) (top : s.block.slots n = obj) : obj ≠ 0 := by
  have inside : ∀ m, n < m → obj ∈ live s.block.slots m := by
    intro m lt
    induction m with
    | zero => omega
    | succ m ih =>
        by_cases same : n = m
        · subst same
          rw [live, top]
          exact List.mem_cons_self
        · exact List.mem_cons_of_mem _ (ih (by omega))
  refine initial.real obj (inv.conserved.mem_iff.mp ?_)
  exact List.mem_append_right _ (inside _ below)

/-- Thread `t` moves on, with the block and the holdings changed so that others
    can still rely on what they did. -/
theorem Inv.advance (inv : Inv first s) {pc : Pc} {block : Block} {lock : Bool}
    {held : List (Nat × Nat)}
    (owner : pc.locked = true → ∀ u, u ≠ t → (s.pc u).locked = false)
    (taken : ∀ u, (Function.update s.pc t pc u).locked = true → lock = true)
    (mine : Relies { s with block, lock, held } t pc)
    (others : ∀ u, u ≠ t → Relies { s with block, lock, held } u (s.pc u))
    (bounded : block.current ≤ block.capacity)
    (conserved : (held.map Prod.snd ++ live block.slots block.current).Perm
      (first.held.map Prod.snd ++ first.contents)) :
    Inv first { s with block, lock, held, pc := Function.update s.pc t pc } where
  owner u v lu lv := by
    simp only [Function.update_apply] at lu lv
    by_cases hu : u = t <;> by_cases hv : v = t
    · rw [hu, hv]
    · rw [if_pos hu] at lu
      rw [if_neg hv, owner lu v hv] at lv
      cases lv
    · rw [if_pos hv] at lv
      rw [if_neg hu, owner lv u hu] at lu
      cases lu
    · rw [if_neg hu] at lu
      rw [if_neg hv] at lv
      exact inv.owner u v lu lv
  taken := taken
  relies u := by
    by_cases hu : u = t
    · subst hu
      simp only [Function.update_self]
      exact mine
    · simp only [Function.update_of_ne hu]
      exact others u hu
  bounded := bounded
  conserved := conserved

/-- A step of the locked path that only moves the thread on. -/
theorem Inv.goto (inv : Inv first s) {pc : Pc}
    (keeps : pc.locked = true → (s.pc t).locked = true) (mine : s.Relies t pc) :
    Inv first (s.goto t pc) := by
  refine inv.advance (fun locked u other => ?_) (fun u locked => ?_) mine
    (fun u _ => inv.relies u) inv.bounded inv.conserved
  · by_contra also
    exact other (inv.owner u t (Bool.eq_true_of_not_eq_false also) (keeps locked))
  · rw [Function.update_apply] at locked
    split at locked
    · exact inv.taken t (keeps locked)
    · exact inv.taken u locked

theorem Relies.calm {u : Nat} {pc : Pc} (calm : pc.midway = false)
    (kept : ∀ obj, (u, obj) ∈ s.held → (u, obj) ∈ s'.held) (relies : s.Relies u pc) :
    s'.Relies u pc := by
  unfold Relies at relies ⊢
  split at relies
  all_goals first
    | exact kept _ relies
    | trivial

theorem mem_give {held : List (Nat × Nat)} {x : Nat × Nat} (t obj : Nat) (member : x ∈ held) :
    x ∈ give held t obj := by
  unfold give
  split
  · exact member
  · exact List.mem_cons_of_mem _ member

theorem midway_locked {pc : Pc} (unlocked : pc.locked = false) : pc.midway = false := by
  cases pc <;> first | rfl | cases unlocked

/-- The lock holder works on the block: nobody else is under the lock. -/
theorem Inv.work (inv : Inv first s) {pc : Pc} {block : Block} {held : List (Nat × Nat)}
    (locked : (s.pc t).locked = true)
    (kept : ∀ u obj, u ≠ t → (u, obj) ∈ s.held → (u, obj) ∈ held)
    (mine : Relies { s with block, held } t pc) (bounded : block.current ≤ block.capacity)
    (conserved : (held.map Prod.snd ++ live block.slots block.current).Perm
      (first.held.map Prod.snd ++ first.contents)) :
    Inv first { s.goto t pc with block, held } := by
  have alone : ∀ u, u ≠ t → (s.pc u).locked = false := by
    intro u other
    by_contra also
    exact other (inv.owner u t (Bool.eq_true_of_not_eq_false also) locked)
  exact inv.advance (fun _ => alone) (fun _ _ => inv.taken t locked) mine
    (fun u other => (inv.relies u).calm (midway_locked (alone u other)) (kept u · other))
    bounded conserved

theorem Inv.exec (initial : Initial first) (inv : Inv first s) : Inv first (s.exec t) := by
  have relies := inv.relies t
  have locked : ∀ {pc : Pc}, s.pc t = pc → pc.locked = true → (s.pc t).locked = true :=
    fun at_pc locked => at_pc ▸ locked
  cases at_pc : s.pc t with
  | idle =>
      simp only [Site.exec, at_pc]
      exact inv
  | checkStop op =>
      rw [at_pc] at relies
      simp only [Site.exec, at_pc]
      split
      · exact inv.goto (fun locked => by cases locked) trivial
      · refine inv.goto (fun locked => by cases locked) ?_
        cases op with
        | pop => trivial
        | push obj => exact relies
  | acquire op =>
      rw [at_pc] at relies
      simp only [Site.exec, at_pc]
      split
      · exact inv
      · rename_i free
        have nobody : ∀ u, (s.pc u).locked = false := by
          intro u
          by_contra also
          exact free (inv.taken u (Bool.eq_true_of_not_eq_false also))
        refine inv.advance (fun _ u _ => nobody u) (fun _ _ => rfl) ?_ (fun u _ => inv.relies u)
          inv.bounded inv.conserved
        cases op with
        | pop => trivial
        | push obj => exact relies
  | readHeader op =>
      rw [at_pc] at relies
      cases op with
      | pop =>
          simp only [Site.exec, at_pc]
          split
          · exact inv.goto (fun _ => locked at_pc rfl) trivial
          · rename_i some
            exact inv.goto (fun _ => locked at_pc rfl) ⟨rfl, some⟩
      | push obj =>
          simp only [Site.exec, at_pc]
          split
          · exact inv.goto (fun _ => locked at_pc rfl) trivial
          · rename_i room
            exact inv.goto (fun _ => locked at_pc rfl) ⟨relies, rfl, by omega⟩
  | accessSlot op cur =>
      rw [at_pc] at relies
      cases op with
      | pop =>
          simp only [Site.exec, at_pc]
          exact inv.goto (fun _ => locked at_pc rfl) ⟨relies.1, relies.2, rfl⟩
      | push obj =>
          obtain ⟨mine, current, room⟩ := relies
          simp only [Site.exec, at_pc]
          refine inv.work (locked at_pc rfl) (fun _ _ _ member => member)
            ⟨mine, current, room, Function.update_self ..⟩ inv.bounded ?_
          simp only [current, live_scratch]
          rw [← current]
          exact inv.conserved
  | writeCurrent op cur obj =>
      rw [at_pc] at relies
      cases op with
      | pop =>
          obtain ⟨current, some, top⟩ := relies
          have real := inv.real initial (n := cur - 1) (by omega) top
          simp only [Site.exec, at_pc]
          refine inv.work (locked at_pc rfl) (fun _ _ _ member => mem_give t obj member) trivial
            (by have := inv.bounded; simp only; omega) ?_
          refine (popped t top real).trans ?_
          rw [show cur - 1 + 1 = s.block.current by omega]
          exact inv.conserved
      | push obj =>
          obtain ⟨mine, current, room, top⟩ := relies
          simp only [Site.exec, at_pc]
          refine inv.work (locked at_pc rfl) (fun u obj' other member => ?_) trivial room ?_
          · exact (List.mem_erase_of_ne fun same => other (congrArg Prod.fst same)).mpr member
          · refine (pushed mine top).trans ?_
            rw [← current]
            exact inv.conserved
  | release =>
      simp only [Site.exec, at_pc]
      refine inv.advance (fun locked => by cases locked) (fun u locked' => ?_) trivial
        (fun u _ => inv.relies u) inv.bounded inv.conserved
      rw [Function.update_apply] at locked'
      split at locked'
      · cases locked'
      · rename_i other
        exact (other (inv.owner u t locked' (locked at_pc rfl))).elim

/-- A section that finds nobody midway invalidates nothing. -/
theorem Inv.section (initial : Initial first) (inv : Inv first s) (calm : s.Calm)
    (taken : Section numCpus cpu s s') : Inv first s' := by
  cases taken with
  | pop t _ _ _ _ some =>
      have real := inv.real initial (n := s.block.current - 1) (by omega) rfl
      refine { inv with relies := ?_, bounded := ?_, conserved := ?_ }
      · intro u
        exact (inv.relies u).calm (calm u) fun obj member => mem_give _ _ member
      · have := inv.bounded
        simp only
        omega
      · refine (popped t rfl real).trans ?_
        rw [show s.block.current - 1 + 1 = s.block.current by omega]
        exact inv.conserved
  | push t obj _ _ _ idle member room =>
      refine { inv with relies := ?_, bounded := room, conserved := ?_ }
      · intro u
        by_cases same : u = t
        · subst same
          simp only [idle, Relies]
        · refine (inv.relies u).calm (calm u) fun obj' member' => ?_
          exact (List.mem_erase_of_ne fun eq => same (congrArg Prod.fst eq)).mpr member'
      · refine (pushed member (Function.update_self ..)).trans ?_
        rw [live_scratch]
        exact inv.conserved

theorem Inv.step (initial : Initial first) (inv : Inv first s)
    (taken : CalmStep numCpus cpu anchor s s') : Inv first s' := by
  rcases taken with ⟨commits, calm⟩ | other
  · exact inv.section initial calm commits
  · cases other with
    | exec t => exact inv.exec initial
    | pop t => exact inv.goto (fun locked => by cases locked) trivial
    | push t obj _ member => exact inv.goto (fun locked => by cases locked) member
    | migrate => exact { inv with relies := inv.relies }
    | setStop => exact { inv with relies := inv.relies }

theorem Initial.inv (initial : Initial first) : Inv first first where
  owner t _ locked := by
    rw [initial.idle] at locked
    cases locked
  taken t locked := by
    rw [initial.idle] at locked
    cases locked
  relies t := by simp only [initial.idle, Relies]
  bounded := initial.bounded
  conserved := .refl _

/-- In every run whose sections find nobody between the header read and the write
    of `current`, each pointer stays in one place and none is lost. -/
theorem reachable_exclusive (initial : Initial first)
    (reached : Reachable (· = first) (CalmStep numCpus cpu anchor) s) : Exclusive first s := by
  have inv : Inv first s := reached.invariant (fun _ same => same ▸ initial.inv)
    fun _ _ inv taken => inv.step initial taken
  exact ⟨inv.conserved, inv.conserved.nodup_iff.mpr initial.distinct⟩

/-- One pointer on the only block; thread 0 runs on its CPU, thread 1 on a CPU
    the layout does not have. -/
def lone : Site :=
  ⟨⟨1, 8, fun _ => 4096⟩, false, false, fun t => if t = 0 then 0 else 5, fun _ => .idle, []⟩

theorem lone_initial : Initial lone :=
  ⟨fun _ => rfl, rfl, by decide, by decide, by decide⟩

/-- Thread 0 pops and pushes through sections, then thread 1 pops under the lock. -/
theorem reachable_exclusive_in_turn :
    ∃ s, Reachable (· = lone) (CalmStep 1 0 fun _ => 0) s ∧ s.held = [(1, 4096)] ∧
      Exclusive lone s := by
  have h₀ : Reachable (· = lone) (CalmStep 1 0 fun _ => 0) lone := .start rfl
  have h₁ := h₀.next (.inl ⟨.pop 0 rfl (by decide) rfl rfl (by decide), fun _ => rfl⟩)
  have h₂ := h₁.next (.inl ⟨.push 0 4096 rfl (by decide) rfl rfl (by decide) (by decide),
    fun _ => rfl⟩)
  have h₃ := h₂.next (.inr (.pop 1 rfl rfl))
  have h₄ := h₃.next (.inr (.exec 1))
  have h₅ := h₄.next (.inr (.exec 1))
  have h₆ := h₅.next (.inr (.exec 1))
  have h₇ := h₆.next (.inr (.exec 1))
  have h₈ := h₇.next (.inr (.exec 1))
  have h₉ := h₈.next (.inr (.exec 1))
  exact ⟨_, h₉, by decide +kernel, reachable_exclusive lone_initial h₉⟩

/-- Thread 1 has read the header and the slot under the lock when thread 0's
    section pops the same pointer: both end up with it. -/
theorem section_during_fallback_duplicates :
    ∃ s, Reachable (· = lone) (Step 1 0 fun _ => 0) s ∧ s.held = [(1, 4096), (0, 4096)] ∧
      ¬ Exclusive lone s := by
  have h₀ : Reachable (· = lone) (Step 1 0 fun _ => 0) lone := .start rfl
  have h₁ := h₀.next (.inr (.pop 1 rfl rfl))
  have h₂ := h₁.next (.inr (.exec 1))
  have h₃ := h₂.next (.inr (.exec 1))
  have h₄ := h₃.next (.inr (.exec 1))
  have h₅ := h₄.next (.inr (.exec 1))
  have h₆ := h₅.next (.inl (.pop 0 rfl (by decide) rfl rfl (by decide +kernel)))
  have h₇ := h₆.next (.inr (.exec 1))
  have twice : ∀ s : Site, s.held = [(1, 4096), (0, 4096)] → ¬ Exclusive lone s := by
    intro s both exclusive
    have once := exclusive.once
    rw [both] at once
    simp at once
  exact ⟨_, h₇, by decide +kernel, twice _ (by decide +kernel)⟩

end Site

end Toccata.Rseq.Fallback
