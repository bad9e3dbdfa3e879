import Toccata.Foundations.Transition
import Toccata.SizeClass
import Mathlib.Logic.Function.Basic

/-! # Routing in the global allocator

`alloc` goes by `MAIN`, which each thread reads once and keeps; `dealloc` goes by
the address range in `POOL_BASE` and `POOL_END`. `configure_with` publishes the
three one after the other, and threads run in between. Memory is taken as
sequentially consistent. A sub-heap is known here by the configure call that built
it and the range it reserved; what it hands out is any address there.
-/

namespace Toccata.Global

open Foundations SizeClass

structure Layout where
  size : Nat
  align : Nat
deriving Repr, DecidableEq

def Layout.need (l : Layout) : Nat := max l.size l.align

/-- Served by the thread's magazines. -/
def Layout.small (l : Layout) : Bool := l.need ≤ maxSmall && l.align ≤ minAlign

/-- Where a pointer came from: a zero-sized request, the system allocator, or the
    sub-heap of a configure call. -/
inductive Origin where
  | dangling
  | system
  | heap (id : Nat)
deriving Repr, DecidableEq

structure Allocation where
  ptr : Nat
  layout : Layout
  origin : Origin
deriving Repr, DecidableEq

/-- Where `dealloc` passed a pointer. -/
inductive Route where
  | system
  | heap (id : Nat)
  | dropped
deriving Repr, DecidableEq

/-- Where a call of `configure_with` is, with the range it reserved. -/
inductive ConfigurePc where
  | check
  | build
  | exchange (base len : Nat)
  | storeBase (base len : Nat)
  | storeEnd (base len : Nat)
  | done
deriving Repr, DecidableEq

/-- Where a thread is in `alloc` or `dealloc`. -/
inductive Pc where
  | idle
  | resolve (layout : Layout)
  | obtain (layout : Layout) (heap : Option Nat)
  | readBase (a : Allocation)
  | readEnd (a : Allocation) (base : Nat)
  | route (a : Allocation) (base limit : Nat)
  | heapOf (a : Allocation)
  | reload (a : Allocation)
deriving Repr, DecidableEq

/-- The pointer a thread is freeing. -/
def Pc.freeing : Pc → Option Allocation
  | .readBase a | .readEnd a _ | .route a _ _ | .heapOf a | .reload a => some a
  | _ => none

structure World where
  main : Option Nat
  poolBase : Nat
  poolEnd : Nat
  reserved : Nat → Option (Nat × Nat)
  configure : Nat → ConfigurePc
  pc : Nat → Pc
  heap : Nat → Option Nat
  magazine : Nat → Nat → List (Nat × Origin)
  live : List Allocation
  routed : List (Origin × Route)

def within (range : Nat × Nat) (ptr : Nat) : Prop := range.1 ≤ ptr ∧ ptr < range.1 + range.2

namespace World

def goto (w : World) (t : Nat) (pc : Pc) : World := { w with pc := Function.update w.pc t pc }

def setConfigure (w : World) (c : Nat) (pc : ConfigurePc) : World :=
  { w with configure := Function.update w.configure c pc }

def setMagazine (w : World) (t cls : Nat) (ms : List (Nat × Origin)) : World :=
  { w with magazine := Function.update w.magazine t (Function.update (w.magazine t) cls ms) }

/-- A pointer of the system allocator that has not been given back to it. -/
def systemOwns (w : World) (ptr : Nat) : Prop :=
  (∃ a ∈ w.live, a.origin = .system ∧ a.ptr = ptr) ∨
    ∃ t a, (w.pc t).freeing = some a ∧ a.origin = .system ∧ a.ptr = ptr

/-- What sub-heap `id` may hand out. -/
def heapOwns (w : World) (id ptr : Nat) : Prop := ∃ range, w.reserved id = some range ∧ within range ptr

/-- `configure_with`. A reservation is mapped where nothing else is; a call that
    finds `MAIN` set, loses the exchange or fails to reserve stops there. -/
inductive Configure (w : World) (c : Nat) : World → Prop where
  | check : w.configure c = .check →
      Configure w c (w.setConfigure c (if w.main = none then .build else .done))
  | build (base len : Nat) : w.configure c = .build → base ≠ 0 →
      (∀ ptr, w.systemOwns ptr → ¬ within (base, len) ptr) →
      Configure w c { w.setConfigure c (.exchange base len) with
        reserved := Function.update w.reserved c (some (base, len)) }
  | fail : w.configure c = .build → Configure w c (w.setConfigure c .done)
  | win (base len : Nat) : w.configure c = .exchange base len → w.main = none →
      Configure w c { w.setConfigure c (.storeBase base len) with main := some c }
  | lose (base len : Nat) : w.configure c = .exchange base len → w.main ≠ none →
      Configure w c (w.setConfigure c .done)
  | storeBase (base len : Nat) : w.configure c = .storeBase base len →
      Configure w c { w.setConfigure c (.storeEnd base len) with poolBase := base }
  | storeEnd (base len : Nat) : w.configure c = .storeEnd base len →
      Configure w c { w.setConfigure c .done with poolEnd := base + len }

/-- `Tls::heap`: what the thread has cached, or `MAIN` as it is now. -/
def resolved (w : World) (t : Nat) : Option Nat := (w.heap t).or w.main

/-- `alloc`. A magazine hit reads nothing shared; a miss, and a request no magazine
    serves, asks `Tls::heap`. A refill fills the magazine from the same sub-heap. An
    exhausted sub-heap aborts the process. -/
inductive Alloc (w : World) (t : Nat) : World → Prop where
  | zero (l : Layout) : w.pc t = .idle → l.size = 0 →
      Alloc w t { w with live := ⟨l.align, l, .dangling⟩ :: w.live }
  | hit (l : Layout) (cls : Nat) {ptr origin rest} : w.pc t = .idle → l.size ≠ 0 →
      l.small = true → classOf l.need = some cls → w.magazine t cls = (ptr, origin) :: rest →
      Alloc w t { w.setMagazine t cls rest with live := ⟨ptr, l, origin⟩ :: w.live }
  | miss (l : Layout) (cls : Nat) : w.pc t = .idle → l.size ≠ 0 → l.small = true →
      classOf l.need = some cls → w.magazine t cls = [] → Alloc w t (w.goto t (.resolve l))
  | cold (l : Layout) : w.pc t = .idle → l.size ≠ 0 → l.small = false →
      Alloc w t (w.goto t (.resolve l))
  | resolve {l} : w.pc t = .resolve l →
      Alloc w t { w.goto t (.obtain l (w.resolved t)) with
        heap := Function.update w.heap t (w.resolved t) }
  | system {l} (ptr : Nat) : w.pc t = .obtain l none → ptr ≠ 0 → (∀ c, ¬ w.heapOwns c ptr) →
      Alloc w t { w.goto t .idle with live := ⟨ptr, l, .system⟩ :: w.live }
  | systemNull {l} : w.pc t = .obtain l none → Alloc w t (w.goto t .idle)
  | refill {l id} (cls ptr : Nat) (batch : List Nat) : w.pc t = .obtain l (some id) →
      l.small = true → classOf l.need = some cls → (∀ p ∈ ptr :: batch, w.heapOwns id p) →
      Alloc w t { (w.goto t .idle).setMagazine t cls (batch.map fun p => (p, .heap id)) with
        live := ⟨ptr, l, .heap id⟩ :: w.live }
  | direct {l id} (ptr : Nat) : w.pc t = .obtain l (some id) → l.small = false →
      w.heapOwns id ptr →
      Alloc w t { w.goto t .idle with live := ⟨ptr, l, .heap id⟩ :: w.live }

/-- `dealloc` up to its read of `POOL_END`: `in_pool` loads the two bounds apart. -/
inductive Enter (w : World) (t : Nat) : World → Prop where
  | free (a : Allocation) : w.pc t = .idle → a ∈ w.live →
      Enter w t { w.goto t (if a.layout.size = 0 then .idle else .readBase a) with
        live := w.live.erase a }
  | readBase {a} : w.pc t = .readBase a → Enter w t (w.goto t (.readEnd a w.poolBase))

inductive ReadEnd (w : World) (t : Nat) (a : Allocation) (base : Nat) : World → Prop where
  | mk : w.pc t = .readEnd a base → ReadEnd w t a base (w.goto t (.route a base w.poolEnd))

def report (w : World) (t : Nat) (a : Allocation) (r : Route) : World :=
  { w.goto t .idle with routed := (a.origin, r) :: w.routed }

/-- The rest of `dealloc`. A magazine that is full gives some of its pointers back
    to the sub-heap first. -/
inductive Deliver (w : World) (t : Nat) : World → Prop where
  | system {a base limit} : w.pc t = .route a base limit → ¬ (base ≤ a.ptr ∧ a.ptr < limit) →
      Deliver w t (w.report t a .system)
  | pool {a base limit} : w.pc t = .route a base limit → base ≤ a.ptr ∧ a.ptr < limit →
      Deliver w t (w.goto t (.heapOf a))
  | cached {a id} (cls : Nat) (kept : List (Nat × Origin)) : w.pc t = .heapOf a →
      w.resolved t = some id → a.layout.small = true → classOf a.layout.need = some cls →
      (∀ x ∈ kept, x ∈ w.magazine t cls) →
      Deliver w t (({ w with heap := Function.update w.heap t (some id) }.setMagazine t cls
        ((a.ptr, a.origin) :: kept)).report t a (.heap id))
  | direct {a id} : w.pc t = .heapOf a → w.resolved t = some id → a.layout.small = false →
      Deliver w t ({ w with heap := Function.update w.heap t (some id) }.report t a (.heap id))
  | unresolved {a} : w.pc t = .heapOf a → w.resolved t = none → Deliver w t (w.goto t (.reload a))
  | reload {a} : w.pc t = .reload a →
      Deliver w t (w.report t a (w.main.elim .dropped .heap))

/-- A thread's exit flushes its magazines. -/
inductive Exit (w : World) (t : Nat) : World → Prop where
  | mk : w.pc t = .idle → Exit w t { w with
      heap := Function.update w.heap t none
      magazine := Function.update w.magazine t fun _ => [] }

inductive Step (w w' : World) : Prop where
  | configure (c : Nat) : Configure w c w' → Step w w'
  | alloc (t : Nat) : Alloc w t w' → Step w w'
  | enter (t : Nat) : Enter w t w' → Step w w'
  | readEnd (t : Nat) (a : Allocation) (base : Nat) : ReadEnd w t a base w' → Step w w'
  | deliver (t : Nat) : Deliver w t w' → Step w w'
  | exit (t : Nat) : Exit w t w' → Step w w'

/-- `POOL_END` is read at a good moment: after it was stored for a pointer of the
    sub-heap; for one of the system's, not with `POOL_BASE` read before and the end
    above the pointer. -/
structure Timely (w : World) (a : Allocation) (base : Nat) : Prop where
  heap : ∀ id, a.origin = .heap id → w.poolEnd ≠ 0
  system : a.origin = .system → base = 0 → w.poolEnd ≤ a.ptr

inductive TimelyStep (w w' : World) : Prop where
  | configure (c : Nat) : Configure w c w' → TimelyStep w w'
  | alloc (t : Nat) : Alloc w t w' → TimelyStep w w'
  | enter (t : Nat) : Enter w t w' → TimelyStep w w'
  | readEnd (t : Nat) (a : Allocation) (base : Nat) : ReadEnd w t a base w' → w.Timely a base →
      TimelyStep w w'
  | deliver (t : Nat) : Deliver w t w' → TimelyStep w w'
  | exit (t : Nat) : Exit w t w' → TimelyStep w w'

/-- Before any configuration and any allocation. -/
def start : World where
  main := none
  poolBase := 0
  poolEnd := 0
  reserved _ := none
  configure _ := .check
  pc _ := .idle
  heap _ := none
  magazine _ _ := []
  live := []
  routed := []

/-- A pointer went where it came from. -/
structure Agrees (origin : Origin) (route : Route) : Prop where
  system : route = .system ↔ origin = .system
  heap : ∀ id, route = .heap id ↔ origin = .heap id

def Faithful (w : World) : Prop := ∀ x ∈ w.routed, Agrees x.1 x.2

/-! ## The invariant -/

/-- Where a pointer of this origin lies. -/
def Placed (w : World) (ptr : Nat) : Origin → Prop
  | .dangling => True
  | .system => ∀ c, ¬ w.heapOwns c ptr
  | .heap id => w.main = some id ∧ w.heapOwns id ptr

/-- An allocation in somebody's hands. -/
structure Sound (w : World) (a : Allocation) : Prop where
  placed : w.Placed a.ptr a.origin
  sized : a.origin = .dangling → a.layout.size = 0

def pooled (o : Origin) : Prop := ∃ id, o = .heap id

def PcSound (w : World) : Pc → Prop
  | .idle | .resolve _ => True
  | .obtain _ heap => ∀ id, heap = some id → w.main = some id
  | .readBase a => w.Sound a ∧ a.layout.size ≠ 0
  | .readEnd a base => (w.Sound a ∧ a.layout.size ≠ 0) ∧ (base = 0 ∨ base = w.poolBase)
  | .route a base limit =>
      w.Sound a ∧ (a.origin = .system ∨ pooled a.origin) ∧
        ((base ≤ a.ptr ∧ a.ptr < limit) ↔ pooled a.origin)
  | .heapOf a | .reload a => w.Sound a ∧ pooled a.origin

def ConfigureSound (w : World) (c : Nat) : ConfigurePc → Prop
  | .exchange base len => w.reserved c = some (base, len)
  | .storeBase base len => w.main = some c ∧ w.reserved c = some (base, len)
  | .storeEnd base len => w.main = some c ∧ w.reserved c = some (base, len) ∧ w.poolBase = base
  | _ => True

structure Inv (w : World) : Prop where
  live : ∀ a ∈ w.live, w.Sound a
  cached : ∀ t cls, ∀ x ∈ w.magazine t cls, pooled x.2 ∧ w.Placed x.1 x.2
  threads : ∀ t, w.PcSound (w.pc t)
  configures : ∀ c, w.ConfigureSound c (w.configure c)
  resolved : ∀ t id, w.heap t = some id → w.main = some id
  reserved : ∀ c base len, w.reserved c = some (base, len) → base ≠ 0
  built : ∀ c, w.configure c = .check ∨ w.configure c = .build → w.reserved c = none
  base : w.poolBase ≠ 0 → ∃ c len, w.main = some c ∧ w.reserved c = some (w.poolBase, len)
  limit : w.poolEnd ≠ 0 → ∃ c base len, w.main = some c ∧ w.reserved c = some (base, len) ∧
    w.poolBase = base ∧ w.poolEnd = base + len
  faithful : w.Faithful

variable {w w' : World} {c t : Nat}

theorem start_inv : Inv start where
  live := nofun
  cached := nofun
  threads _ := trivial
  configures _ := trivial
  resolved := nofun
  reserved := nofun
  built _ _ := rfl
  base := fun h => (h rfl).elim
  limit := fun h => (h rfl).elim
  faithful := nofun

/-- What soundness of pointers and threads reads of the state. -/
structure Extends (w w' : World) : Prop where
  main : ∀ id, w.main = some id → w'.main = some id
  heapOwns : ∀ id ptr, w.heapOwns id ptr → w'.heapOwns id ptr
  poolBase : w.poolBase ≠ 0 → w'.poolBase = w.poolBase

theorem Placed.extends (ext : Extends w w') {ptr : Nat} {o : Origin}
    (apart : o = .system → ∀ c, ¬ w.heapOwns c ptr → ¬ w'.heapOwns c ptr)
    (placed : w.Placed ptr o) : w'.Placed ptr o := by
  cases o with
  | dangling => trivial
  | system => exact fun c => apart rfl c (placed c)
  | heap id => exact ⟨ext.main id placed.1, ext.heapOwns id ptr placed.2⟩

theorem Sound.extends (ext : Extends w w') {a : Allocation}
    (apart : a.origin = .system → ∀ c, ¬ w.heapOwns c a.ptr → ¬ w'.heapOwns c a.ptr)
    (sound : w.Sound a) : w'.Sound a :=
  ⟨sound.placed.extends ext apart, sound.sized⟩

theorem PcSound.extends (ext : Extends w w') {pc : Pc}
    (apart : ∀ a, pc.freeing = some a → a.origin = .system →
      ∀ c, ¬ w.heapOwns c a.ptr → ¬ w'.heapOwns c a.ptr)
    (sound : w.PcSound pc) : w'.PcSound pc := by
  cases pc with
  | idle | resolve => trivial
  | obtain l heap => exact fun id same => ext.main id (sound id same)
  | readBase a => exact ⟨sound.1.extends ext (apart a rfl), sound.2⟩
  | readEnd a base =>
      obtain ⟨⟨placed, sized⟩, read⟩ := sound
      refine ⟨⟨placed.extends ext (apart a rfl), sized⟩, ?_⟩
      rcases read with zero | same
      · exact .inl zero
      · by_cases zero : w.poolBase = 0
        · exact .inl (same.trans zero)
        · exact .inr (same.trans (ext.poolBase zero).symm)
  | route a base limit => exact ⟨sound.1.extends ext (apart a rfl), sound.2⟩
  | heapOf a => exact ⟨sound.1.extends ext (apart a rfl), sound.2⟩
  | reload a => exact ⟨sound.1.extends ext (apart a rfl), sound.2⟩

/-- A thread moves on, with its allocations and its cache. -/
theorem Inv.thread (inv : Inv w) (t : Nat) (pc : Pc) (heap : Option Nat)
    (magazine : Nat → List (Nat × Origin)) {live : List Allocation}
    {routed : List (Origin × Route)} (at_pc : w.PcSound pc)
    (owned : ∀ a ∈ live, a ∈ w.live ∨ w.Sound a)
    (resolves : ∀ id, heap = some id → w.main = some id)
    (cached : ∀ cls, ∀ x ∈ magazine cls, pooled x.2 ∧ w.Placed x.1 x.2)
    (faithful : ∀ x ∈ routed, x ∈ w.routed ∨ Agrees x.1 x.2) :
    Inv { w with
      pc := Function.update w.pc t pc
      heap := Function.update w.heap t heap
      magazine := Function.update w.magazine t magazine
      live, routed } := by
  have ext : Extends w { w with
      pc := Function.update w.pc t pc
      heap := Function.update w.heap t heap
      magazine := Function.update w.magazine t magazine
      live, routed } := ⟨fun _ h => h, fun _ _ h => h, fun _ => rfl⟩
  refine { inv with live := ?_, cached := ?_, threads := ?_, resolved := ?_, faithful := ?_ }
  · intro a member
    rcases owned a member with old | new
    · exact (inv.live a old).extends ext fun _ _ h => h
    · exact new.extends ext fun _ _ h => h
  · intro u cls x member
    have before : pooled x.2 ∧ w.Placed x.1 x.2 := by
      by_cases same : u = t
      · subst same
        simp only [Function.update_self] at member
        exact cached cls x member
      · simp only [Function.update_of_ne same] at member
        exact inv.cached u cls x member
    exact ⟨before.1, before.2.extends ext fun _ _ h => h⟩
  · intro u
    refine PcSound.extends ext (fun _ _ _ _ h => h) ?_
    by_cases same : u = t
    · subst same
      simpa only [Function.update_self] using at_pc
    · simpa only [Function.update_of_ne same] using inv.threads u
  · intro u id
    by_cases same : u = t
    · subst same
      simpa only [Function.update_self] using resolves id
    · simpa only [Function.update_of_ne same] using inv.resolved u id
  · intro x member
    rcases faithful x member with old | new
    · exact inv.faithful x old
    · exact new

/-- A thread moves on with its cache and records as they were. -/
theorem Inv.goto (inv : Inv w) (t : Nat) (pc : Pc) {live : List Allocation} (at_pc : w.PcSound pc)
    (owned : ∀ a ∈ live, a ∈ w.live ∨ w.Sound a) : Inv { w.goto t pc with live } := by
  have moved := inv.thread t pc (w.heap t) (w.magazine t) at_pc owned (inv.resolved t)
    (inv.cached t) (fun _ member => .inl member)
  simpa only [World.goto, Function.update_eq_self] using moved

theorem Inv.resolves (inv : Inv w) {id : Nat} (found : w.resolved t = some id) :
    w.main = some id := by
  unfold World.resolved at found
  cases at_heap : w.heap t with
  | none => rwa [at_heap] at found
  | some id' =>
      rw [at_heap] at found
      cases found
      exact inv.resolved t id at_heap

/-- What a magazine may hold after one of its lists is replaced. -/
theorem Inv.cached_update (inv : Inv w) (t cls : Nat) {ms : List (Nat × Origin)}
    (replaced : ∀ x ∈ ms, pooled x.2 ∧ w.Placed x.1 x.2) (cls' : Nat) :
    ∀ x ∈ Function.update (w.magazine t) cls ms cls', pooled x.2 ∧ w.Placed x.1 x.2 := by
  by_cases same : cls' = cls
  · subst same
    simpa only [Function.update_self] using replaced
  · simpa only [Function.update_of_ne same] using inv.cached t cls'

theorem Inv.alloc (inv : Inv w) (taken : Alloc w t w') : Inv w' := by
  have extended : ∀ {a : Allocation}, w.Sound a → ∀ b ∈ a :: w.live, b ∈ w.live ∨ w.Sound b := by
    intro a sound b member
    rcases List.mem_cons.mp member with rfl | old
    · exact .inr sound
    · exact .inl old
  cases taken with
  | zero l idle zero =>
      have moved := inv.goto t (w.pc t) (inv.threads t)
        (extended (a := ⟨l.align, l, .dangling⟩) ⟨trivial, fun _ => zero⟩)
      simpa only [World.goto, Function.update_eq_self] using moved
  | @hit l cls ptr origin rest idle _ _ _ hit =>
      have member : ∀ x ∈ (ptr, origin) :: rest, pooled x.2 ∧ w.Placed x.1 x.2 :=
        hit ▸ inv.cached t cls
      obtain ⟨⟨id, from_heap⟩, placed⟩ := member _ List.mem_cons_self
      have moved := inv.thread t (w.pc t) (w.heap t) _ (inv.threads t)
        (extended (a := ⟨ptr, l, origin⟩) ⟨placed, fun dangling => ?_⟩) (inv.resolved t)
        (inv.cached_update t cls fun x inside => member x (List.mem_cons_of_mem _ inside))
        (fun _ member => .inl member)
      · simpa only [setMagazine, Function.update_eq_self] using moved
      · cases dangling.symm.trans from_heap
  | miss l => exact inv.goto t _ trivial fun _ member => .inl member
  | cold l => exact inv.goto t _ trivial fun _ member => .inl member
  | @resolve l =>
      have moved := inv.thread t (.obtain l (w.resolved t)) (w.resolved t) (w.magazine t)
        (fun _ found => inv.resolves found) (fun _ member => .inl member)
        (fun _ found => inv.resolves found) (inv.cached t) (fun _ member => .inl member)
      simpa only [World.goto, Function.update_eq_self] using moved
  | @system l ptr _ nonzero apart => exact inv.goto t _ trivial (extended ⟨apart, nofun⟩)
  | systemNull => exact inv.goto t _ trivial fun _ member => .inl member
  | @refill l id cls ptr batch at_pc _ _ owns =>
      have main : w.main = some id := by
        have sound := inv.threads t
        rw [at_pc] at sound
        exact sound id rfl
      have fresh : ∀ x ∈ batch.map (fun p => (p, Origin.heap id)), pooled x.2 ∧ w.Placed x.1 x.2 := by
        intro x member
        obtain ⟨p, inside, rfl⟩ := List.mem_map.mp member
        exact ⟨⟨id, rfl⟩, main, owns p (List.mem_cons_of_mem _ inside)⟩
      have moved := inv.thread t .idle (w.heap t) _ trivial
        (extended (a := ⟨ptr, l, .heap id⟩) ⟨⟨main, owns ptr List.mem_cons_self⟩, nofun⟩)
        (inv.resolved t) (inv.cached_update t cls fresh) (fun _ member => .inl member)
      simpa only [World.goto, setMagazine, Function.update_eq_self] using moved
  | @direct l id ptr at_pc _ owns =>
      have sound := inv.threads t
      rw [at_pc] at sound
      exact inv.goto t _ trivial (extended ⟨⟨sound id rfl, owns⟩, nofun⟩)

theorem Inv.enter (inv : Inv w) (taken : Enter w t w') : Inv w' := by
  cases taken with
  | free a idle member =>
      refine inv.goto t _ ?_ fun b kept => .inl (List.mem_of_mem_erase kept)
      split
      · trivial
      · rename_i sized
        exact ⟨inv.live a member, sized⟩
  | readBase at_pc =>
      have sound := inv.threads t
      rw [at_pc] at sound
      exact inv.goto t _ ⟨sound, .inr rfl⟩ fun _ member => .inl member

/-- The test of `in_pool` tells where the pointer came from when its second load is
    timely. -/
theorem Inv.in_pool_iff (inv : Inv w) {a : Allocation} {base : Nat} (sound : w.Sound a)
    (sized : a.layout.size ≠ 0) (read : base = 0 ∨ base = w.poolBase) (timely : w.Timely a base) :
    (a.origin = .system ∨ pooled a.origin) ∧
      ((base ≤ a.ptr ∧ a.ptr < w.poolEnd) ↔ pooled a.origin) := by
  obtain ⟨placed, dangling⟩ := sound
  cases at_origin : a.origin with
  | dangling => exact (sized (dangling at_origin)).elim
  | system =>
      rw [at_origin] at placed
      refine ⟨.inl rfl, fun inside => ?_, fun ⟨_, same⟩ => by cases same⟩
      obtain ⟨c, b, len, main, reserved, same, last⟩ := inv.limit (by omega)
      rcases read with zero | read
      · have := timely.system at_origin zero
        omega
      · refine (placed c ⟨(b, len), reserved, ?_⟩).elim
        exact ⟨by simp only; omega, by simp only; omega⟩
  | heap id =>
      rw [at_origin] at placed
      obtain ⟨main, range, reserved, low, high⟩ := placed
      obtain ⟨c, b, len, main', reserved', same, last⟩ := inv.limit (timely.heap id at_origin)
      rw [main] at main'
      cases main'
      rw [reserved] at reserved'
      cases reserved'
      simp only at low high
      refine ⟨.inr ⟨id, rfl⟩, fun _ => ⟨id, rfl⟩, fun _ => ⟨?_, by omega⟩⟩
      rcases read with zero | read <;> omega

theorem Inv.readEnd (inv : Inv w) {a : Allocation} {base : Nat} (taken : ReadEnd w t a base w')
    (timely : w.Timely a base) : Inv w' := by
  obtain ⟨at_pc⟩ := taken
  have sound := inv.threads t
  rw [at_pc] at sound
  obtain ⟨⟨sound, sized⟩, read⟩ := sound
  exact inv.goto t _ ⟨sound, inv.in_pool_iff sound sized read timely⟩ fun _ member => .inl member

theorem agrees_system : Agrees .system .system := ⟨by simp, by simp⟩

theorem agrees_heap {id : Nat} : Agrees (.heap id) (.heap id) := ⟨by simp, fun _ => by simp⟩

/-- A pointer of the sub-heap, handed to it. -/
theorem handed {a : Allocation} {id : Nat} (sound : w.Sound a)
    (from_heap : pooled a.origin) (main : w.main = some id) : Agrees a.origin (.heap id) := by
  obtain ⟨id', same⟩ := from_heap
  have placed := sound.placed
  rw [same] at placed ⊢
  have : id' = id := Option.some.inj (placed.1.symm.trans main)
  subst this
  exact agrees_heap

theorem Inv.deliver (inv : Inv w) (taken : Deliver w t w') : Inv w' := by
  have sound := inv.threads t
  have recorded : ∀ {o : Origin} {r : Route}, Agrees o r →
      ∀ x ∈ (o, r) :: w.routed, x ∈ w.routed ∨ Agrees x.1 x.2 := by
    intro o r agrees x member
    rcases List.mem_cons.mp member with rfl | old
    · exact .inr agrees
    · exact .inl old
  cases taken with
  | system at_pc outside =>
      rw [at_pc] at sound
      obtain ⟨_, origin, decides⟩ := sound
      have system := origin.resolve_right fun from_heap => outside (decides.mpr from_heap)
      have moved := inv.thread t .idle (w.heap t) (w.magazine t) trivial
        (fun _ member => .inl member) (inv.resolved t) (inv.cached t)
        (recorded agrees_system)
      simpa only [report, World.goto, Function.update_eq_self, system] using moved
  | pool at_pc inside =>
      rw [at_pc] at sound
      obtain ⟨placed, _, decides⟩ := sound
      exact inv.goto t _ ⟨placed, decides.mp inside⟩ fun _ member => .inl member
  | @cached a id cls kept at_pc found _ _ subset =>
      rw [at_pc] at sound
      have main := inv.resolves found
      have pushed : ∀ x ∈ (a.ptr, a.origin) :: kept, pooled x.2 ∧ w.Placed x.1 x.2 := by
        intro x member
        rcases List.mem_cons.mp member with rfl | old
        · exact ⟨sound.2, sound.1.placed⟩
        · exact inv.cached t cls x (subset x old)
      have moved := inv.thread t .idle (some id) _ trivial
        (fun _ member => .inl member) (fun _ same => same ▸ main) (inv.cached_update t cls pushed)
        (recorded (handed sound.1 sound.2 main))
      simpa only [report, World.goto, setMagazine] using moved
  | @direct a id at_pc found =>
      rw [at_pc] at sound
      have main := inv.resolves found
      have moved := inv.thread t .idle (some id) (w.magazine t) trivial
        (fun _ member => .inl member) (fun _ same => same ▸ main) (inv.cached t)
        (recorded (handed sound.1 sound.2 main))
      simpa only [report, World.goto, Function.update_eq_self] using moved
  | unresolved at_pc =>
      rw [at_pc] at sound
      exact inv.goto t _ sound fun _ member => .inl member
  | @reload a at_pc =>
      rw [at_pc] at sound
      obtain ⟨id, same⟩ := sound.2
      have placed := sound.1.placed
      rw [same] at placed
      have moved := inv.thread t .idle (w.heap t) (w.magazine t) trivial
        (fun _ member => .inl member) (inv.resolved t) (inv.cached t)
        (recorded (handed sound.1 sound.2 placed.1))
      simpa only [report, World.goto, Function.update_eq_self, placed.1, Option.elim] using moved

theorem Inv.exit (inv : Inv w) (taken : Exit w t w') : Inv w' := by
  obtain ⟨idle⟩ := taken
  have moved := inv.thread t (w.pc t) none (fun _ => []) (inv.threads t)
    (fun _ member => .inl member) nofun nofun (fun _ member => .inl member)
  simpa only [Function.update_eq_self] using moved

/-- A configure call moves on, with what it has published or reserved. -/
theorem Inv.configured (inv : Inv w) {pc : ConfigurePc} {main : Option Nat} {poolBase poolEnd : Nat}
    {reserved : Nat → Option (Nat × Nat)}
    (ext : Extends w { w.setConfigure c pc with main, poolBase, poolEnd, reserved })
    (apart : ∀ ptr, w.systemOwns ptr → ∀ k, ¬ w.heapOwns k ptr →
      ¬ World.heapOwns { w.setConfigure c pc with main, poolBase, poolEnd, reserved } k ptr)
    (mine : ConfigureSound { w with main, poolBase, poolEnd, reserved } c pc)
    (others : ∀ k, k ≠ c →
      ConfigureSound { w with main, poolBase, poolEnd, reserved } k (w.configure k))
    (nonzero : ∀ k base len, reserved k = some (base, len) → base ≠ 0)
    (built : ∀ k, Function.update w.configure c pc k = .check ∨
      Function.update w.configure c pc k = .build → reserved k = none)
    (base : poolBase ≠ 0 → ∃ k len, main = some k ∧ reserved k = some (poolBase, len))
    (limit : poolEnd ≠ 0 → ∃ k base len, main = some k ∧ reserved k = some (base, len) ∧
      poolBase = base ∧ poolEnd = base + len) :
    Inv { w.setConfigure c pc with main, poolBase, poolEnd, reserved } where
  live a member :=
    (inv.live a member).extends ext fun system => apart a.ptr (.inl ⟨a, member, system, rfl⟩)
  cached u cls x member := by
    obtain ⟨⟨id, from_heap⟩, placed⟩ := inv.cached u cls x member
    refine ⟨⟨id, from_heap⟩, ?_⟩
    rw [from_heap] at placed ⊢
    exact ⟨ext.main id placed.1, ext.heapOwns id _ placed.2⟩
  threads u :=
    (inv.threads u).extends ext fun a freeing system =>
      apart a.ptr (.inr ⟨u, a, freeing, system, rfl⟩)
  configures k := by
    by_cases same : k = c
    · subst same
      simp only [setConfigure, Function.update_self]
      exact mine
    · simp only [setConfigure, Function.update_of_ne same]
      exact others k same
  resolved u id found := ext.main id (inv.resolved u id found)
  reserved := nonzero
  built := built
  base := base
  limit := limit
  faithful := inv.faithful

/-- A configure call that publishes and reserves nothing. -/
theorem Inv.setConfigure (inv : Inv w) {pc : ConfigurePc} (mine : w.ConfigureSound c pc)
    (unbuilt : pc = .check ∨ pc = .build → w.reserved c = none) : Inv (w.setConfigure c pc) := by
  refine inv.configured ⟨fun _ h => h, fun _ _ h => h, fun _ => rfl⟩ (fun _ _ _ h => h) mine
    (fun k _ => inv.configures k) inv.reserved (fun k => ?_) inv.base inv.limit
  by_cases same : k = c
  · subst same
    simpa only [Function.update_self] using unbuilt
  · simpa only [Function.update_of_ne same] using inv.built k

theorem Inv.configure (inv : Inv w) (taken : Configure w c w') : Inv w' := by
  have sound := inv.configures c
  cases taken with
  | check at_pc =>
      refine inv.setConfigure ?_ fun _ => inv.built c (.inl at_pc)
      split <;> trivial
  | build base len at_pc nonzero clear =>
      have unbuilt := inv.built c (.inr at_pc)
      have elsewhere : ∀ {k range}, w.reserved k = some range → k ≠ c := by
        rintro k range found rfl
        rw [unbuilt] at found
        cases found
      have kept : ∀ {k range}, w.reserved k = some range →
          Function.update w.reserved c (some (base, len)) k = some range := by
        intro k range found
        rwa [Function.update_of_ne (elsewhere found)]
      refine inv.configured ⟨fun _ h => h, fun id ptr ⟨range, found, inside⟩ =>
        ⟨range, kept found, inside⟩, fun _ => rfl⟩ (fun ptr owns k apart => ?_)
        (Function.update_self ..) (fun k other => ?_) (fun k b l found => ?_) (fun k first => ?_)
        (fun h => ?_) (fun h => ?_)
      · rintro ⟨range, found, inside⟩
        by_cases same : k = c
        · subst same
          simp only [Function.update_self] at found
          cases found
          exact clear ptr owns inside
        · simp only [Function.update_of_ne same] at found
          exact apart ⟨range, found, inside⟩
      · have before := inv.configures k
        cases at_k : w.configure k <;> rw [at_k] at before <;>
          simp only [ConfigureSound] at before ⊢
        · exact kept before
        · exact ⟨before.1, kept before.2⟩
        · exact ⟨before.1, kept before.2.1, before.2.2⟩
      · by_cases same : k = c
        · subst same
          simp only [Function.update_self] at found
          cases found
          exact nonzero
        · simp only [Function.update_of_ne same] at found
          exact inv.reserved k b l found
      · by_cases same : k = c
        · subst same
          simp at first
        · simp only [Function.update_of_ne same] at first ⊢
          exact inv.built k first
      · obtain ⟨k, l, main, found⟩ := inv.base h
        exact ⟨k, l, main, kept found⟩
      · obtain ⟨k, b, l, main, found, rest⟩ := inv.limit h
        exact ⟨k, b, l, main, kept found, rest⟩
  | fail at_pc => exact inv.setConfigure trivial nofun
  | win base len at_pc unset =>
      rw [at_pc] at sound
      have nobody : ∀ id, w.main ≠ some id := by
        intro id set
        rw [unset] at set
        cases set
      refine inv.configured ⟨fun id set => (nobody id set).elim, fun _ _ h => h, fun _ => rfl⟩
        (fun _ _ _ h => h) ⟨rfl, sound⟩ (fun k other => ?_) inv.reserved (fun k first => ?_)
        (fun h => ?_) (fun h => ?_)
      · have before := inv.configures k
        cases at_k : w.configure k <;> rw [at_k] at before <;>
          simp only [ConfigureSound] at before ⊢
        · exact before
        · exact (nobody k before.1).elim
        · exact (nobody k before.1).elim
      · by_cases same : k = c
        · subst same
          simp at first
        · simp only [Function.update_of_ne same] at first
          exact inv.built k first
      · obtain ⟨k, l, main, _⟩ := inv.base h
        exact (nobody k main).elim
      · obtain ⟨k, b, l, main, _⟩ := inv.limit h
        exact (nobody k main).elim
  | lose base len at_pc => exact inv.setConfigure trivial nofun
  | storeBase base len at_pc =>
      rw [at_pc] at sound
      obtain ⟨main, reserved⟩ := sound
      have only : ∀ {k : Nat}, w.main = some k → k = c := fun set =>
        Option.some.inj (set.symm.trans main)
      refine inv.configured ⟨fun _ h => h, fun _ _ h => h, fun h => ?_⟩ (fun _ _ _ h => h)
        ⟨main, reserved, rfl⟩ (fun k other => ?_) inv.reserved (fun k first => ?_)
        (fun _ => ⟨c, len, main, reserved⟩) (fun h => ?_)
      · obtain ⟨k, l, main', found⟩ := inv.base h
        rw [only main', reserved] at found
        cases found
        rfl
      · have before := inv.configures k
        cases at_k : w.configure k <;> rw [at_k] at before <;>
          simp only [ConfigureSound] at before ⊢
        · exact before
        · exact before
        · exact (other (only before.1)).elim
      · by_cases same : k = c
        · subst same
          simp at first
        · simp only [Function.update_of_ne same] at first
          exact inv.built k first
      · obtain ⟨k, b, l, main', found, _, last⟩ := inv.limit h
        have at_c := only main'
        subst at_c
        rw [reserved] at found
        cases found
        exact ⟨k, base, len, main, reserved, rfl, last⟩
  | storeEnd base len at_pc =>
      rw [at_pc] at sound
      obtain ⟨main, reserved, stored⟩ := sound
      refine inv.configured ⟨fun _ h => h, fun _ _ h => h, fun _ => rfl⟩ (fun _ _ _ h => h)
        trivial (fun k _ => ?_) inv.reserved (fun k first => ?_) inv.base
        (fun _ => ⟨c, base, len, main, reserved, stored, rfl⟩)
      · have before := inv.configures k
        cases at_k : w.configure k <;> rw [at_k] at before <;> exact before
      · by_cases same : k = c
        · subst same
          simp at first
        · simp only [Function.update_of_ne same] at first
          exact inv.built k first

theorem Inv.step (inv : Inv w) (taken : TimelyStep w w') : Inv w' := by
  cases taken with
  | configure c taken => exact inv.configure taken
  | alloc t taken => exact inv.alloc taken
  | enter t taken => exact inv.enter taken
  | readEnd t a base taken timely => exact inv.readEnd taken timely
  | deliver t taken => exact inv.deliver taken
  | exit t taken => exact inv.exit taken

/-- In every run whose loads of `POOL_END` are timely, each pointer freed goes back
    to the allocator that gave it out. -/
theorem reachable_faithful (reached : Reachable (· = start) TimelyStep w) : w.Faithful := by
  have inv : Inv w := reached.invariant (fun _ same => same ▸ start_inv) fun _ _ inv taken =>
    inv.step taken
  exact inv.faithful

/-- Configured first; then an object is allocated and freed. -/
theorem reachable_faithful_configured :
    ∃ w, Reachable (· = start) TimelyStep w ∧ w.routed = [(.heap 0, .heap 0)] ∧ w.Faithful := by
  have h₀ : Reachable (· = start) TimelyStep start := .start rfl
  have h₁ := h₀.next (.configure 0 (.check rfl))
  have h₂ := h₁.next (.configure 0 (.build 65536 131072 rfl (by decide) (by
    rintro ptr (⟨a, member, _⟩ | ⟨t, a, freeing, _⟩)
    · cases member
    · cases freeing)))
  have h₃ := h₂.next (.configure 0 (.win 65536 131072 rfl rfl))
  have h₄ := h₃.next (.configure 0 (.storeBase 65536 131072 rfl))
  have h₅ := h₄.next (.configure 0 (.storeEnd 65536 131072 rfl))
  have h₆ := h₅.next (.alloc 1 (.miss ⟨64, 8⟩ 6 rfl (by decide) rfl (by decide +kernel) rfl))
  have h₇ := h₆.next (.alloc 1 (.resolve rfl))
  have h₈ := h₇.next (.alloc 1 (.refill 6 70000 [] rfl rfl (by decide +kernel) (by
    intro p member
    obtain rfl := List.mem_singleton.mp member
    exact ⟨(65536, 131072), rfl, by decide, by decide⟩)))
  have h₉ := h₈.next (.enter 1 (.free ⟨70000, ⟨64, 8⟩, .heap 0⟩ rfl List.mem_cons_self))
  have h₁₀ := h₉.next (.enter 1 (.readBase rfl))
  have h₁₁ := h₁₀.next (.readEnd 1 _ _ (.mk rfl) ⟨fun _ _ => by decide +kernel, nofun⟩)
  have h₁₂ := h₁₁.next (.deliver 1 (.pool rfl (by decide +kernel)))
  have h₁₃ := h₁₂.next (.deliver 1 (.cached 6 [] rfl rfl rfl (by decide +kernel) nofun))
  exact ⟨_, h₁₃, by decide +kernel, reachable_faithful h₁₃⟩

/-- `MAIN` is published and `POOL_END` not yet: an object of the sub-heap is freed
    to the system allocator. -/
theorem free_before_range_misroutes :
    ∃ w, Reachable (· = start) Step w ∧ w.routed = [(.heap 0, .system)] ∧ ¬ w.Faithful := by
  have h₀ : Reachable (· = start) Step start := .start rfl
  have h₁ := h₀.next (.configure 0 (.check rfl))
  have h₂ := h₁.next (.configure 0 (.build 65536 131072 rfl (by decide) (by
    rintro ptr (⟨a, member, _⟩ | ⟨t, a, freeing, _⟩)
    · cases member
    · cases freeing)))
  have h₃ := h₂.next (.configure 0 (.win 65536 131072 rfl rfl))
  have h₄ := h₃.next (.alloc 1 (.miss ⟨64, 8⟩ 6 rfl (by decide) rfl (by decide +kernel) rfl))
  have h₅ := h₄.next (.alloc 1 (.resolve rfl))
  have h₆ := h₅.next (.alloc 1 (.refill 6 70000 [] rfl rfl (by decide +kernel) (by
    intro p member
    obtain rfl := List.mem_singleton.mp member
    exact ⟨(65536, 131072), rfl, by decide, by decide⟩)))
  have h₇ := h₆.next (.enter 1 (.free ⟨70000, ⟨64, 8⟩, .heap 0⟩ rfl List.mem_cons_self))
  have h₈ := h₇.next (.enter 1 (.readBase rfl))
  have h₉ := h₈.next (.readEnd 1 _ _ (.mk rfl))
  have h₁₀ := h₉.next (.deliver 1 (.system rfl (by decide +kernel)))
  have misrouted : ∀ w : World, w.routed = [(.heap 0, .system)] → ¬ w.Faithful := by
    intro w once faithful
    have agrees := faithful (.heap 0, .system) (by rw [once]; exact List.mem_singleton_self _)
    cases agrees.system.mp rfl
  exact ⟨_, h₁₀, by decide +kernel, misrouted _ (by decide +kernel)⟩

end World

end Toccata.Global
