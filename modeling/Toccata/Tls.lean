import Toccata.Foundations.Transition
import Mathlib.Logic.Function.Basic

/-! # Thread caches and thread exit

The global allocator and every `frame_pool!` type keep one cache per thread: a
pointer in native TLS to storage from `calloc`, and a pthread key whose destructor
flushes and frees that storage at exit. POSIX calls the destructors of a thread in
any order, and each of them may use any of the caches. One thread is modelled, with
one cache per such module; blocks of storage are named by the `calloc` call that
returned them, so a freed block never comes back under its old name.
-/

namespace Toccata.Tls

open Foundations

inductive Storage where
  | untouched
  | live
  | freed
deriving Repr, DecidableEq

/-- What `with` ran its closure on: a transient cache on the stack, or a block that
    was then in this state. -/
inductive Run where
  | transient
  | cached (storage : Storage)
deriving Repr, DecidableEq

/-- How `calloc` and `pthread_setspecific` answer the first touch of a cache. -/
inductive Answer where
  | null
  | block (id : Nat) (registered : Bool)
deriving Repr, DecidableEq

/-- `ptr` is the native TLS pointer of a module and `specific` the thread's value of
    its key; `ended` says that its destructor has run. -/
structure Thread where
  ptr : Nat → Option Nat
  specific : Nat → Option Nat
  storage : Nat → Storage
  exiting : Bool
  ended : Nat → Bool
  runs : List Run

namespace Thread

def start : Thread where
  ptr _ := none
  specific _ := none
  storage _ := .untouched
  exiting := false
  ended _ := false
  runs := []

/-- The first touch: storage for an empty cache, remembered in TLS and under the key. -/
def init (th : Thread) (m : Nat) : Answer → Option Nat × Thread
  | .null => (none, th)
  | .block id registered =>
      (some id, { th with
        storage := Function.update th.storage id .live
        ptr := Function.update th.ptr m (some id)
        specific := if registered then Function.update th.specific m (some id) else th.specific })

def ran (th : Thread) (run : Run) : Thread := { th with runs := run :: th.runs }

/-- `tls::with`: the closure runs on the cached block, on a new one, or on a
    transient cache. -/
def withCache (th : Thread) (m : Nat) (answer : Answer) : Thread :=
  match th.ptr m with
  | some id => th.ran (.cached (th.storage id))
  | none =>
      match th.init m answer with
      | (none, th) => th.ran .transient
      | (some id, th) => th.ran (.cached (th.storage id))

/-- The destructor of a key: flush, drop and free. The value of the key was reset
    before the call; the TLS pointer stays. -/
def onThreadExit (th : Thread) (m id : Nat) : Thread :=
  { th with
    specific := Function.update th.specific m none
    storage := Function.update th.storage id .freed
    ended := Function.update th.ended m true }

/-- A block that `calloc` may return. -/
def Fresh (th : Thread) : Answer → Prop
  | .null => True
  | .block id _ => th.storage id = .untouched

/-- The thread uses a cache, from its own code or from another key's destructor;
    begins to exit; or has the destructor of a key called that holds a value. -/
inductive Step (th : Thread) : Thread → Prop where
  | call (m : Nat) (answer : Answer) : th.Fresh answer → Step th (th.withCache m answer)
  | exit : th.exiting = false → Step th { th with exiting := true }
  | destroy (m id : Nat) : th.exiting = true → th.specific m = some id →
      Step th (th.onThreadExit m id)

/-- The steps where a cache is used only while its destructor has not run. -/
inductive TimelyStep (th : Thread) : Thread → Prop where
  | call (m : Nat) (answer : Answer) : th.Fresh answer → th.ended m = false →
      TimelyStep th (th.withCache m answer)
  | exit : th.exiting = false → TimelyStep th { th with exiting := true }
  | destroy (m id : Nat) : th.exiting = true → th.specific m = some id →
      TimelyStep th (th.onThreadExit m id)

/-- No closure ran on a freed block: each had a live one, or none. -/
def Safe (th : Thread) : Prop := ∀ run ∈ th.runs, run = .transient ∨ run = .cached .live

/-! ## The invariant -/

structure Inv (th : Thread) : Prop where
  alive : ∀ m id, th.ptr m = some id → th.ended m = false → th.storage id = .live
  touched : ∀ m id, th.ptr m = some id → th.storage id ≠ .untouched
  apart : ∀ m m' id, th.ptr m = some id → th.ptr m' = some id → m = m'
  keyed : ∀ m id, th.specific m = some id → th.ptr m = some id
  safe : th.Safe

variable {th th' : Thread}

theorem start_inv : Inv start where
  alive := nofun
  touched := nofun
  apart := nofun
  keyed := nofun
  safe := nofun

theorem Inv.ran (inv : Inv th) {run : Run} (fine : run = .transient ∨ run = .cached .live) :
    Inv (th.ran run) := by
  refine { inv with safe := ?_ }
  intro run' member
  rcases List.mem_cons.mp member with rfl | old
  · exact fine
  · exact inv.safe run' old

/-- A new block is nobody else's. -/
theorem Inv.init (inv : Inv th) {m id : Nat} (registered : Bool) (null : th.ptr m = none)
    (fresh : th.storage id = .untouched) : Inv (th.init m (.block id registered)).2 := by
  have unused : ∀ m', th.ptr m' ≠ some id := fun m' held => inv.touched m' id held fresh
  have pointers : ∀ {m' id'}, Function.update th.ptr m (some id) m' = some id' →
      (m' = m ∧ id' = id) ∨ (m' ≠ m ∧ id' ≠ id ∧ th.ptr m' = some id') := by
    intro m' id' held
    by_cases same : m' = m
    · subst same
      rw [Function.update_self] at held
      exact .inl ⟨rfl, (Option.some.inj held).symm⟩
    · rw [Function.update_of_ne same] at held
      refine .inr ⟨same, ?_, held⟩
      rintro rfl
      exact unused m' held
  constructor
  · intro m' id' held running
    rcases pointers held with ⟨-, rfl⟩ | ⟨-, different, old⟩
    · exact Function.update_self ..
    · simp only [Thread.init, Function.update_of_ne different]
      exact inv.alive m' id' old running
  · intro m' id' held
    rcases pointers held with ⟨-, rfl⟩ | ⟨-, different, old⟩
    · simp only [Thread.init, Function.update_self]
      exact nofun
    · simp only [Thread.init, Function.update_of_ne different]
      exact inv.touched m' id' old
  · intro m₁ m₂ id' held held'
    rcases pointers held with ⟨rfl, rfl⟩ | ⟨-, different, old⟩ <;>
      rcases pointers held' with ⟨rfl, same⟩ | ⟨-, different', old'⟩
    · rfl
    · exact (different' rfl).elim
    · exact (different same).elim
    · exact inv.apart m₁ m₂ id' old old'
  · intro m' id' held
    have key : (m' = m ∧ id' = id) ∨ th.specific m' = some id' := by
      cases registered with
      | false => exact .inr held
      | true =>
          by_cases same : m' = m
          · subst same
            simp only [Thread.init, if_true, Function.update_self] at held
            exact .inl ⟨rfl, (Option.some.inj held).symm⟩
          · simp only [Thread.init, if_true, Function.update_of_ne same] at held
            exact .inr held
    rcases key with ⟨rfl, rfl⟩ | old
    · exact Function.update_self ..
    · have pointed := inv.keyed m' id' old
      have other : m' ≠ m := by
        rintro rfl
        rw [null] at pointed
        cases pointed
      simp only [Thread.init, Function.update_of_ne other]
      exact pointed
  · exact inv.safe

theorem Inv.withCache (inv : Inv th) {m : Nat} {answer : Answer} (fresh : th.Fresh answer)
    (running : th.ended m = false) : Inv (th.withCache m answer) := by
  unfold Thread.withCache
  split
  · rename_i id held
    apply inv.ran
    rw [inv.alive m id held running]
    exact .inr rfl
  · rename_i null
    cases answer with
    | null => exact inv.ran (.inl rfl)
    | block id registered =>
        apply (inv.init registered null fresh).ran
        simp only [Function.update_self, or_true]

/-- Only the destructed module loses its block. -/
theorem Inv.onThreadExit (inv : Inv th) {m id : Nat} (held : th.specific m = some id) :
    Inv (th.onThreadExit m id) := by
  have mine := inv.keyed m id held
  constructor
  · intro m' id' pointed running
    have other : m' ≠ m := by
      rintro rfl
      simp only [Thread.onThreadExit, Function.update_self] at running
      cases running
    simp only [Thread.onThreadExit, Function.update_of_ne other] at running
    have different : id' ≠ id := by
      rintro rfl
      exact other (inv.apart m' m _ pointed mine)
    simp only [Thread.onThreadExit, Function.update_of_ne different]
    exact inv.alive m' id' pointed running
  · intro m' id' pointed
    by_cases same : id' = id
    · subst same
      simp only [Thread.onThreadExit, Function.update_self]
      exact nofun
    · simp only [Thread.onThreadExit, Function.update_of_ne same]
      exact inv.touched m' id' pointed
  · exact inv.apart
  · intro m' id' key
    by_cases same : m' = m
    · subst same
      simp only [Thread.onThreadExit, Function.update_self] at key
      cases key
    · simp only [Thread.onThreadExit, Function.update_of_ne same] at key
      exact inv.keyed m' id' key
  · exact inv.safe

theorem Inv.step (inv : Inv th) (taken : TimelyStep th th') : Inv th' := by
  cases taken with
  | call m answer fresh running => exact inv.withCache fresh running
  | exit => exact { inv with }
  | destroy m id _ held => exact inv.onThreadExit held

/-- In every run where no cache is used after its destructor, every closure has a
    live cache or a transient one. -/
theorem reachable_safe (reached : Reachable (· = start) TimelyStep th) : th.Safe := by
  have inv : Inv th := by
    apply reached.invariant
    · rintro _ rfl
      exact start_inv
    · intro _ _ inv taken
      exact inv.step taken
  exact inv.safe

/-- A frame pool's destructor runs first; the allocator is still used after it. -/
theorem reachable_safe_ordered :
    ∃ th, Reachable (· = start) TimelyStep th ∧ th.runs.length = 3 ∧ th.Safe := by
  have h₀ : Reachable (· = start) TimelyStep start := .start rfl
  have h₁ := h₀.next (.call 0 (.block 0 true) rfl rfl)
  have h₂ := h₁.next (.call 1 (.block 1 true) rfl rfl)
  have h₃ := h₂.next (.exit rfl)
  have h₄ := h₃.next (.destroy 1 1 rfl rfl)
  have h₅ := h₄.next (.call 0 .null trivial rfl)
  have h₆ := h₅.next (.destroy 0 0 rfl rfl)
  exact ⟨_, h₆, rfl, reachable_safe h₆⟩

/-- Another key's destructor allocates after the cache's: its closure runs on the
    freed block. -/
theorem call_after_exit_uses_freed :
    ∃ th, Reachable (· = start) Step th ∧ .cached .freed ∈ th.runs ∧ ¬ th.Safe := by
  have h₀ : Reachable (· = start) Step start := .start rfl
  have h₁ := h₀.next (.call 0 (.block 0 true) rfl)
  have h₂ := h₁.next (.exit rfl)
  have h₃ := h₂.next (.destroy 0 0 rfl rfl)
  have h₄ := h₃.next (.call 0 (.block 1 true) rfl)
  have used : Run.cached .freed ∈ [Run.cached .freed, Run.cached .live] := List.mem_cons_self
  refine ⟨_, h₄, used, fun safe => ?_⟩
  rcases safe _ used with same | same <;> cases same

end Thread

end Toccata.Tls
