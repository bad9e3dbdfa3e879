import Toccata.Global
import Toccata.Magazine.Conservation
import Toccata.SubHeap.Held

/-! # The global allocator

`alloc` and `dealloc` of a configured process, over the one sub-heap behind `MAIN` and
the `Tls` of every thread. Small requests of default alignment go through the thread's
magazines, everything else straight to the sub-heap. A thread's first call sets up its
`Tls` with `calloc`; if that fails the call runs on a transient one, which is dropped
as it stands. A thread that exits flushes its magazines. An exhausted sub-heap and a
panic end the process, so a run goes on only after a call that returned. Zeroing in
`alloc_zeroed` writes to the block alone. Every block lies in the arena, so that
`in_pool` sends no free to the system allocator.
-/

namespace Toccata

open Foundations SizeClass SubHeap Global

/-! ## Calls -/

/-- What a request takes from the sub-heap. -/
inductive Place where
  | nothing
  | object (cls : Nat)
  | run (size : Nat)
deriving Repr, DecidableEq

namespace Global.Layout

/-- Where a request is served from: its class for the magazines, the first class that
    keeps its alignment, or a run of spans. -/
def place (l : Layout) : Place :=
  if l.size = 0 then .nothing
  else if l.small then (classOf l.need).elim .nothing .object
  else if maxSmall < l.need then .run l.need
  else (alignedClass l.need l.align).elim (.run l.need) .object

end Global.Layout

namespace Cached

/-- `alloc` inside `with_tls`, for a request of some size; no pointer aborts. -/
def allocLayout (l : Layout) (thread : Nat) : Prog Turn Cached (Option Nat) :=
  if l.small then
    match classOf l.need with
    | none => Prog.fail
    | some cls => do
        match ← (if 1024 ≤ l.need then allocPrefetch cls else tryPop cls) with
        | some p => return some p
        | none => refill .alone cls thread
  else if maxSmall < l.need then
    if spanBytes < l.align then return none else lift (SubHeap.allocLarge l.need)
  else
    match alignedClass l.need l.align with
    | some cls => lift (SubHeap.allocClass cls thread)
    | none => lift (SubHeap.allocLarge l.need)

/-- `dealloc` of a pool pointer inside `with_tls`. -/
def deallocLayout (p : Nat) (l : Layout) (thread : Nat) : Prog Turn Cached Unit :=
  if l.small then
    match classOf l.need with
    | none => Prog.fail
    | some cls => free p cls thread
  else do
    let _ ← lift (SubHeap.deallocByPtr p thread)
    return ()

end Cached

/-- The thread's `TLS_PTR`: null, at its `Tls`, or at one that was freed. -/
inductive Tls where
  | untouched
  | cached (cache : ThreadCache)
  | exited

namespace Tls

instance : (t : Tls) → Decidable (t = .exited)
  | .exited => .isTrue rfl
  | .untouched => .isFalse Tls.noConfusion
  | .cached _ => .isFalse Tls.noConfusion

def cache : Tls → ThreadCache
  | .cached cache => cache
  | _ => .new

/-- What the magazines of a cached `Tls` hold, with its class. -/
def contents (t : Tls) : Multiset (Nat × Nat) := t.cache.contents

end Tls

/-- A process: the sub-heap, the threads, the blocks the application holds with their
    layouts, and what was in caches when they were dropped. -/
structure Process where
  sub : SubHeap
  tls : Nat → Tls
  blocks : Multiset (Nat × Layout)
  dropped : Multiset (Nat × Nat)

namespace Process

/-- `with_tls`, where `calloc` says whether the allocation of a first `Tls` succeeds. -/
def withTls {α : Type} (p : Process) (thread : Nat) (calloc : Bool) (m : Prog Turn Cached α)
    (env : List Turn) : Option α × Process :=
  match p.tls thread with
  | .cached cache =>
      let (r, s, _) := m ⟨p.sub, cache⟩ env
      (r, { p with sub := s.sub, tls := Function.update p.tls thread (.cached s.cache) })
  | .untouched =>
      let (r, s, _) := m ⟨p.sub, .new⟩ env
      if calloc then
        (r, { p with sub := s.sub, tls := Function.update p.tls thread (.cached s.cache) })
      else
        (r, { p with sub := s.sub, dropped := s.cache.contents + p.dropped })
  | .exited => (none, p)

/-- `alloc`; a request of no size gets a dangling pointer. -/
def alloc (p : Process) (thread : Nat) (calloc : Bool) (l : Layout) (env : List Turn) :
    Option (Option Nat) × Process :=
  if l.size = 0 then (some (some l.align), p)
  else p.withTls thread calloc (Cached.allocLayout l thread) env

def dealloc (p : Process) (thread : Nat) (calloc : Bool) (ptr : Nat) (l : Layout) (env : List Turn) :
    Option Unit × Process :=
  if l.size = 0 then (some (), p)
  else p.withTls thread calloc (Cached.deallocLayout ptr l thread) env

/-- `on_thread_exit`, and the thread is gone. -/
def exit (p : Process) (thread : Nat) (env : List Turn) : Option Unit × Process :=
  match p.tls thread with
  | .cached cache =>
      let (r, s, _) := Cached.flushAll thread ⟨p.sub, cache⟩ env
      (r, { p with
        sub := s.sub
        tls := Function.update p.tls thread .exited
        dropped := s.cache.contents + p.dropped })
  | _ => (some (), { p with tls := Function.update p.tls thread .exited })

/-- What happens in a process: calls and exits of threads, and sweeps of the supervisor. -/
inductive Call where
  | alloc (calloc : Bool) (l : Layout)
  | dealloc (calloc : Bool) (ptr : Nat) (l : Layout)
  | exit
  | sweep (maxPerLock : Nat)
deriving Repr, DecidableEq

/-- Threads that have exited make no calls, and what is freed is held. -/
def Legal (p : Process) (thread : Nat) : Call → Prop
  | .alloc _ _ | .exit => p.tls thread ≠ .exited
  | .dealloc _ ptr l => p.tls thread ≠ .exited ∧ (ptr, l) ∈ p.blocks
  | .sweep _ => True

instance (p : Process) (thread : Nat) : (call : Call) → Decidable (p.Legal thread call)
  | .alloc _ _ | .exit => inferInstanceAs (Decidable (p.tls thread ≠ .exited))
  | .dealloc _ ptr l => inferInstanceAs (Decidable (p.tls thread ≠ .exited ∧ (ptr, l) ∈ p.blocks))
  | .sweep _ => inferInstanceAs (Decidable True)

/-- The process after a call that returned. -/
def after (p : Process) (thread : Nat) (env : List Turn) : Call → Option Process
  | .alloc calloc l =>
      match p.alloc thread calloc l env with
      | (some (some ptr), p') => some { p' with blocks := (ptr, l) ::ₘ p'.blocks }
      | _ => none
  | .dealloc calloc ptr l =>
      match p.dealloc thread calloc ptr l env with
      | (some _, p') => some { p' with blocks := p'.blocks.erase (ptr, l) }
      | _ => none
  | .exit =>
      match p.exit thread env with
      | (some _, p') => some p'
      | _ => none
  | .sweep maxPerLock =>
      match SubHeap.reclaimEmptySpans maxPerLock p.sub env with
      | (some _, s, _) => some { p with sub := s }
      | _ => none

/-- One call, among those admitted, after which no carve was cut short. -/
inductive Step (admitted : Process → Nat → Call → Prop) (p : Process) : Process → Prop where
  | call (thread : Nat) (env : List Turn) (call : Call) {p' : Process} : p.Legal thread call →
      admitted p thread call → p.after thread env call = some p' → p'.sub.clipped = false →
      Step admitted p p'

/-- Configured, and nothing allocated yet. -/
def start (c : Config) : Process := ⟨c.build, fun _ => .untouched, 0, 0⟩

def Reached (c : Config) (admitted : Process → Nat → Call → Prop) : Process → Prop :=
  Reachable (· = start c) (Step admitted)

/-- A call that is known to return. -/
theorem Reached.call {c : Config} {admitted : Process → Nat → Call → Prop} {p : Process}
    (reached : Reached c admitted p) (thread : Nat) (env : List Turn) (call : Call)
    (legal : p.Legal thread call) (allowed : admitted p thread call)
    (returns : (p.after thread env call).isSome = true)
    (whole : ((p.after thread env call).getD p).sub.clipped = false) :
    Reached c admitted ((p.after thread env call).getD p) := by
  obtain ⟨p', ran⟩ := Option.isSome_iff_exists.mp returns
  rw [ran, Option.getD_some] at whole ⊢
  exact reached.next (.call thread env call legal allowed ran whole)

end Process

/-! ## Objects and runs of blocks -/

/-- A large request that passed the alignment check is as big as its size. -/
theorem Global.Layout.need_eq_size (l : Layout) (large : maxSmall < l.need) (aligned : l.align ≤ spanBytes) :
    l.need = l.size := by
  have bound : spanBytes < maxSmall := by decide
  unfold need at large ⊢
  omega

theorem spanCount_small {size : Nat} (low : size ≤ maxSmall) : spanCount size < 2 ^ 32 := by
  have bound : maxSmall = 4 * 65536 := by decide
  unfold spanCount
  rw [show spanBytes = 65536 by decide]
  omega

/-- The ways a request of some size is served. -/
theorem Global.Layout.place_cases {l : Layout} (sized : l.size ≠ 0) :
    (l.small = true ∧ ∃ cls, classOf l.need = some cls ∧ l.place = .object cls ∧ IsClass cls ∧
      l.need ≤ sizeOfClass cls) ∨
    (l.small = false ∧ l.need ≤ maxSmall ∧ ∃ cls, alignedClass l.need l.align = some cls ∧
      l.place = .object cls ∧ IsClass cls ∧ l.need ≤ sizeOfClass cls ∧ l.align ∣ sizeOfClass cls) ∨
    (l.small = false ∧ (maxSmall < l.need ∨ l.need ≤ maxSmall ∧ alignedClass l.need l.align = none) ∧
      l.place = .run l.need) := by
  have pos : 0 < l.need := by
    have := le_max_left l.size l.align
    unfold need
    omega
  unfold place
  rw [if_neg sized]
  cases small : l.small with
  | true =>
      have low : l.need ≤ maxSmall := by
        simp only [Layout.small, Bool.and_eq_true, decide_eq_true_eq] at small
        exact small.1
      obtain ⟨cls, found, first, last, fits⟩ := classOf_fits l.need pos low
      rw [if_pos rfl, found]
      exact .inl ⟨rfl, cls, rfl, rfl, ⟨first, last⟩, fits⟩
  | false =>
      rw [if_neg Bool.false_ne_true]
      by_cases large : maxSmall < l.need
      · rw [if_pos large]
        exact .inr (.inr ⟨rfl, .inl large, rfl⟩)
      · rw [if_neg large]
        have low := Nat.le_of_not_lt large
        cases found : alignedClass l.need l.align with
        | none => exact .inr (.inr ⟨rfl, .inr ⟨low, rfl⟩, rfl⟩)
        | some cls =>
            obtain ⟨first, last, fits, divides⟩ := alignedClass_some found
            exact .inr (.inl ⟨rfl, low, cls, rfl, rfl, ⟨first, last⟩, fits, divides⟩)

namespace Place

/-- The object of a pointer served from this place. -/
def object? (ptr : Nat) : Place → Multiset (Nat × Nat)
  | .object cls => {(ptr, cls)}
  | _ => 0

/-- The run of a pointer served from this place, as it is recorded. -/
def run? (ptr : Nat) : Place → Multiset (Nat × Nat)
  | .run size => {(ptr, wrap32 (spanCount size))}
  | _ => 0

@[simp] theorem object?_object (ptr cls : Nat) : (object cls).object? ptr = {(ptr, cls)} := rfl

@[simp] theorem object?_run (ptr size : Nat) : (run size).object? ptr = 0 := rfl

@[simp] theorem run?_object (ptr cls : Nat) : (object cls).run? ptr = 0 := rfl

@[simp] theorem run?_run (ptr size : Nat) : (run size).run? ptr = {(ptr, wrap32 (spanCount size))} := rfl

end Place

namespace Cached

variable {g : Geometry} {H L : Multiset (Nat × Nat)} {E : Cached → Prop} {α : Type}

/-- The magazines are sound, and the sub-heap's accounts hold with what is in them and
    `H` outside. -/
structure Accounted (g : Geometry) (H L : Multiset (Nat × Nat)) (s : Cached) : Prop where
  sound : s.cache.Sound
  sub : s.sub.Accounted g (s.cache.contents + H) L

theorem Accounted.holds {s : Cached} (held : Accounted g H L s) : Holds .tags g H L [] s :=
  ⟨held.sound, held.sub.owned⟩

theorem Accounted.after {s s' : Cached} {H' : Multiset (Nat × Nat)} (held : Accounted g H L s)
    (same : SameRuns s.sub s'.sub) (holds : Holds .tags g H' L [] s') (whole : s'.sub.clipped = false) :
    Accounted g H' L s' := by
  refine ⟨holds.1, holds.2, whole, fun h some => ?_⟩
  rw [same] at some ⊢
  exact held.sub.runs h some

/-- A program that moves objects between magazines and sub-heap. -/
theorem Accounted.moved {m : Prog Turn Cached α} {H' : α → Multiset (Nat × Nat)}
    (moves : Moves (Along SameRuns) m)
    (spec : Triple (Holds .tags g H L []) m (fun a => Holds .tags g (H' a) L []) E) :
    Triple (Accounted g H L) m (fun a s => s.sub.clipped = false → Accounted g (H' a) L s) E := by
  intro s env held
  have same : SameRuns s.sub (m s env).2.1.sub := moves s env
  have ends := spec s env held.holds
  rcases out : m s env with ⟨_ | a, s', env'⟩
  · simp only [out] at ends ⊢
    exact ends
  · simp only [out] at ends same ⊢
    exact held.after same ends

/-- A program of the sub-heap leaves the magazines alone. -/
theorem Accounted.lifted {m : Prog Turn SubHeap α} {H' : α → Multiset (Nat × Nat)}
    {L' : α → Multiset (Nat × Nat)} {F : SubHeap → Prop}
    (spec : ∀ X, Triple (SubHeap.Accounted g (X + H) L) m
      (fun a s => s.clipped = false → SubHeap.Accounted g (X + H' a) (L' a) s) F)
    (panic : ∀ s : Cached, F s.sub → E s) :
    Triple (Accounted g H L) (lift m)
      (fun a s => s.sub.clipped = false → Accounted g (H' a) (L' a) s) E := by
  intro s env held
  have ends := spec s.cache.contents s.sub env held.sub
  rcases out : m s.sub env with ⟨_ | a, sub, env'⟩
  · simp only [out] at ends
    simp only [lift, Prog.within, out]
    exact panic { s with sub } ends
  · simp only [out] at ends
    simp only [lift, Prog.within, out]
    exact fun whole => ⟨held.sound, ends whole⟩

variable {l : Layout} {thread p : Nat}

/-- Popping, with or without prefetching. -/
theorem pop_spec {cls : Nat} (inside : cls < numClasses) (wide : Prop) [Decidable wide] :
    Triple (Holds .tags g H L []) (if wide then allocPrefetch cls else tryPop cls)
      (fun r s => Holds .tags g (handed cls r + H) L [] s ∧ (r = none → (s.mag cls).len = 0)) E := by
  by_cases here : wide
  · rw [if_pos here]
    intro s env held
    rw [allocPrefetch_eq held.1 inside]
    exact tryPop_spec inside s env held
  · rw [if_neg here]
    exact tryPop_spec inside

theorem allocSmall_accounted {cls : Nat} (isClass : IsClass cls) (uses : ∀ k, g.uses k) (wide : Prop)
    [Decidable wide] :
    Triple (Accounted g H L)
      (do match ← (if wide then allocPrefetch cls else tryPop cls) with
          | some p => return some p
          | none => refill .alone cls thread)
      (fun r s => s.sub.clipped = false → Accounted g (handed cls r + H) L s) E := by
  have allowed : Allowed .tags g (thread % g.shards) := ⟨uses _, nofun⟩
  apply Accounted.moved
  · refine Moves.bind (.ite (allocPrefetch_moves cls) (tryPop_moves cls)) fun r => ?_
    cases r with
    | some p => exact .ret _
    | none => exact refill_moves (refillBatch_sameRuns .alone _ _ _)
  · refine Triple.bind (pop_spec isClass.lt wide) fun r => ?_
    cases r with
    | some p => exact Triple.ret _ fun _ kept => kept.1
    | none =>
        refine (refill_spec isClass allowed).strengthen fun s kept => ⟨?_, kept.2 rfl⟩
        simpa [handed] using kept.1

theorem allocClass_lifted {cls : Nat} (isClass : IsClass cls) (uses : ∀ k, g.uses k) :
    Triple (Accounted g H L) (lift (SubHeap.allocClass cls thread))
      (fun r s => s.sub.clipped = false → Accounted g (handed cls r + H) L s) (fun _ => False) := by
  refine Accounted.lifted (F := fun _ => False) (fun X => ?_) fun _ none => none
  refine (allocClass_accounted isClass (uses _)).weaken fun r s kept whole => ?_
  rw [add_left_comm]
  exact kept whole

theorem allocLarge_lifted {size : Nat} (bound : spanCount size < 2 ^ 32) :
    Triple (Accounted g H L) (lift (SubHeap.allocLarge size))
      (fun r s => s.sub.clipped = false → Accounted g H (handedRun size r + L) s) (fun _ => False) :=
  Accounted.lifted (fun _ => allocLarge_accounted bound) fun _ none => none

/-- An allocation takes from the sub-heap what its layout says. -/
theorem allocLayout_accounted (sized : l.size ≠ 0) (bound : spanCount l.size < 2 ^ 32)
    (uses : ∀ k, g.uses k) :
    Triple (Accounted g H L) (allocLayout l thread)
      (fun r s => s.sub.clipped = false → ∀ ptr, r = some ptr →
        Accounted g (l.place.object? ptr + H) (l.place.run? ptr + L) s) (fun _ => False) := by
  unfold allocLayout
  rcases Layout.place_cases sized with ⟨small, cls, found, place, isClass, -⟩ |
    ⟨small, low, cls, found, place, isClass, -⟩ | ⟨small, large, place⟩
  · rw [if_pos small, found, place]
    refine (allocSmall_accounted isClass uses _).weaken fun r s kept whole ptr same => ?_
    subst same
    rw [Place.run?_object, zero_add]
    exact kept whole
  · rw [small, if_neg Bool.false_ne_true, if_neg (Nat.not_lt_of_le low), found, place]
    refine (allocClass_lifted isClass uses).weaken fun r s kept whole ptr same => ?_
    subst same
    rw [Place.run?_object, zero_add]
    exact kept whole
  · have request : spanCount l.need < 2 ^ 32 → Triple (Accounted g H L) (lift (SubHeap.allocLarge l.need))
        (fun r s => s.sub.clipped = false → ∀ ptr, r = some ptr →
          Accounted g (l.place.object? ptr + H) (l.place.run? ptr + L) s) (fun _ => False) := by
      intro exact
      refine (allocLarge_lifted exact).weaken fun r s kept whole ptr same => ?_
      subst same
      rw [place, Place.object?_run, zero_add]
      exact kept whole
    rw [small, if_neg Bool.false_ne_true]
    rcases large with large | ⟨low, none⟩
    · rw [if_pos large]
      refine Triple.ite (fun _ => Triple.ret _ fun _ _ _ ptr same => by cases same) fun aligned => request ?_
      rwa [l.need_eq_size large (Nat.le_of_not_lt aligned)]
    · rw [if_neg (Nat.not_lt_of_le low), none]
      exact request (spanCount_small low)

/-- A free gives back what the layout says. -/
theorem deallocLayout_accounted (sized : l.size ≠ 0) :
    Triple (Accounted g (l.place.object? p + H) (l.place.run? p + L)) (deallocLayout p l thread)
      (fun _ s => s.sub.clipped = false → Accounted g H L s) (fun _ => False) := by
  unfold deallocLayout
  rcases Layout.place_cases sized with ⟨small, cls, found, place, isClass, -⟩ |
    ⟨small, low, cls, found, place, isClass, -⟩ | ⟨small, large, place⟩
  · rw [if_pos small, found, place, Place.object?_object, Place.run?_object, zero_add, Multiset.singleton_add]
    exact Accounted.moved (free_moves p fun _ => moves_sameRuns (deallocClassBatch_sameStock _ _ _))
      (free_spec isClass.lt)
  · rw [small, if_neg Bool.false_ne_true, place, Place.object?_object, Place.run?_object, zero_add,
      Multiset.singleton_add]
    refine Triple.bind (Accounted.lifted (F := fun _ => False) (fun X => ?_) fun _ none => none)
      fun _ => Triple.ret _ fun _ kept => kept
    rw [Multiset.add_cons]
    exact deallocByPtr_accounted
  · rw [small, if_neg Bool.false_ne_true, place, Place.object?_run, Place.run?_run, zero_add,
      Multiset.singleton_add]
    refine Triple.bind (Accounted.lifted (F := fun _ => False) (fun X => ?_) fun _ none => none)
      fun _ => Triple.ret _ fun _ kept => kept
    exact deallocByPtr_run_accounted

theorem flushAll_accounted (thread : Nat) :
    Triple (Accounted g H L) (flushAll thread)
      (fun _ s => s.sub.clipped = false → Accounted g H L s ∧ s.cache.contents = 0) E := by
  intro s env held
  have same : SameRuns s.sub (flushAll thread s env).2.1.sub :=
    flushAll_moves (fun _ _ => moves_sameRuns (deallocClass_sameStock _ _ _)) s env
  have spec : Triple (Holds .tags g H L []) (flushAll thread) _ (fun _ => False) := flushAll_spec
  have ends := spec s env held.holds
  rcases out : flushAll thread s env with ⟨_ | a, s', env'⟩
  · simp only [out] at ends
  · simp only [out] at ends same ⊢
    exact fun whole => ⟨held.after same ends.1 whole, ends.2⟩

end Cached

/-! ## The books of a process -/

namespace Process

variable {c : Config} {p p' : Process} {thread : Nat} {T : Finset Nat} {α : Type}

/-- The objects of the blocks the application holds. -/
def objects (p : Process) : Multiset (Nat × Nat) := p.blocks.bind fun b => b.2.place.object? b.1

/-- The runs of those blocks, as they are recorded. -/
def records (p : Process) : Multiset (Nat × Nat) := p.blocks.bind fun b => b.2.place.run? b.1

theorem mem_objects {ptr cls : Nat} {l : Layout} (held : (ptr, l) ∈ p.blocks) (place : l.place = .object cls) :
    (ptr, cls) ∈ p.objects := by
  refine Multiset.mem_bind.mpr ⟨_, held, ?_⟩
  rw [place]
  exact Multiset.mem_singleton_self _

theorem mem_records {ptr size : Nat} {l : Layout} (held : (ptr, l) ∈ p.blocks) (place : l.place = .run size) :
    (ptr, wrap32 (spanCount size)) ∈ p.records := by
  refine Multiset.mem_bind.mpr ⟨_, held, ?_⟩
  rw [place]
  exact Multiset.mem_singleton_self _

/-- What lies in the magazines of these threads. -/
def cached (p : Process) (T : Finset Nat) : Multiset (Nat × Nat) := ∑ t ∈ T, (p.tls t).contents

/-- The sub-heap's accounts hold with what was dropped, what is cached, and what the
    application holds outside. -/
structure Stands (c : Config) (T : Finset Nat) (p : Process) : Prop where
  sound : ∀ t, (p.tls t).cache.Sound
  outside : ∀ t ∉ T, (p.tls t).contents = 0
  books : p.sub.Accounted (c.geometry fun _ => True) (p.dropped + p.cached T + p.objects) p.records

theorem mem_outside {ptr cls : Nat} {l : Layout} (T : Finset Nat) (held : (ptr, l) ∈ p.blocks)
    (place : l.place = .object cls) : (ptr, cls) ∈ p.dropped + p.cached T + p.objects :=
  Multiset.mem_add.mpr (.inr (mem_objects held place))

/-- Whether a call runs on a transient `Tls`. -/
def transient (p : Process) (thread : Nat) (calloc : Bool) : Bool :=
  match p.tls thread with
  | .untouched => !calloc
  | _ => false

theorem transient_empty {calloc : Bool} (short : p.transient thread calloc = true) :
    (p.tls thread).contents = 0 := by
  unfold transient at short
  cases here : p.tls thread with
  | untouched => exact ThreadCache.new_contents
  | cached | exited =>
      rw [here] at short
      cases short

theorem Stands.widen (stands : Stands c T p) (t : Nat) : Stands c (insert t T) p := by
  refine ⟨stands.sound, fun t' away => stands.outside t' fun member => away (Finset.mem_insert_of_mem member), ?_⟩
  by_cases member : t ∈ T
  · rw [Finset.insert_eq_of_mem member]
    exact stands.books
  · have same : p.cached (insert t T) = p.cached T := by
      rw [cached, Finset.sum_insert member, stands.outside t member, zero_add, cached]
    rw [same]
    exact stands.books

/-- One thread's cache exchanged for another. -/
theorem cached_update (tls : Nat → Tls) (member : thread ∈ T) (t : Tls) :
    ∃ rest, ∑ t' ∈ T, (tls t').contents = (tls thread).contents + rest ∧
      ∑ t' ∈ T, (Function.update tls thread t t').contents = t.contents + rest := by
  refine ⟨∑ t' ∈ T.erase thread, (tls t').contents, (Finset.add_sum_erase _ _ member).symm, ?_⟩
  rw [← Finset.add_sum_erase _ _ member, Function.update_self]
  congr 1
  apply Finset.sum_congr rfl
  intro t' other
  rw [Function.update_of_ne (Finset.mem_erase.mp other).1]

/-- What is outside the thread's own magazines. -/
theorem cached_others (p : Process) (member : thread ∈ T) :
    ∃ X, p.dropped + p.cached T = (p.tls thread).contents + X := by
  obtain ⟨rest, before, -⟩ := cached_update p.tls member .exited
  refine ⟨p.dropped + rest, ?_⟩
  rw [cached, before]
  exact add_left_comm ..

/-- A call runs on the thread's cache or on a new one, which is then kept or dropped. -/
theorem withTls_eq {calloc : Bool} {m : Prog Turn Cached α} {env : List Turn} {r : Option α} {s : Cached}
    {env' : List Turn} (alive : p.tls thread ≠ .exited)
    (out : m ⟨p.sub, (p.tls thread).cache⟩ env = (r, s, env')) :
    p.withTls thread calloc m env = (r, if p.transient thread calloc then
        { p with sub := s.sub, dropped := s.cache.contents + p.dropped }
      else { p with sub := s.sub, tls := Function.update p.tls thread (.cached s.cache) }) := by
  unfold withTls transient
  cases here : p.tls thread with
  | exited => exact (alive here).elim
  | cached cache =>
      rw [here] at out
      dsimp only
      rw [show m ⟨p.sub, cache⟩ env = (r, s, env') from out]
      rfl
  | untouched =>
      rw [here] at out
      dsimp only
      rw [show m ⟨p.sub, .new⟩ env = (r, s, env') from out]
      cases calloc <;> rfl

/-- What was in a cache before a call and what is in it after: the rest stays. -/
theorem withTls_some {calloc : Bool} {m : Prog Turn Cached α} {env : List Turn} {a : α}
    (alive : p.tls thread ≠ .exited) (member : thread ∈ T)
    (ran : p.withTls thread calloc m env = (some a, p')) :
    ∃ s env' rest, m ⟨p.sub, (p.tls thread).cache⟩ env = (some a, s, env') ∧
      p'.sub = s.sub ∧ p'.blocks = p.blocks ∧
      p.dropped + p.cached T = (p.tls thread).contents + rest ∧
      p'.dropped + p'.cached T = s.cache.contents + rest ∧
      ∀ t, (p'.tls t).cache = (p.tls t).cache ∨ t = thread ∧ (p'.tls t).cache = s.cache := by
  rcases out : m ⟨p.sub, (p.tls thread).cache⟩ env with ⟨r, s, env'⟩
  rw [withTls_eq alive out] at ran
  obtain ⟨rfl, rfl⟩ := Prod.mk.inj ran
  cases short : p.transient thread calloc with
  | true =>
      refine ⟨s, env', p.dropped + p.cached T, rfl, rfl, rfl, ?_, ?_, fun t => .inl rfl⟩
      · rw [transient_empty short, zero_add]
      · exact add_assoc ..
  | false =>
      obtain ⟨rest, before, now⟩ := cached_update p.tls member (.cached s.cache)
      refine ⟨s, env', p.dropped + rest, rfl, rfl, rfl, ?_, ?_, fun t => ?_⟩
      · rw [cached, before]
        exact add_left_comm ..
      · exact (congrArg (p.dropped + ·) now).trans (add_left_comm ..)
      · show (Function.update p.tls thread (.cached s.cache) t).cache = _ ∨
          _ ∧ (Function.update p.tls thread (.cached s.cache) t).cache = _
        by_cases same : t = thread
        · subst same
          rw [Function.update_self]
          exact .inr ⟨rfl, rfl⟩
        · rw [Function.update_of_ne same]
          exact .inl rfl

/-- A call of a thread keeps the books, if its program does. -/
theorem Stands.withTls {calloc : Bool} {m : Prog Turn Cached α} {env : List Turn} {a : α}
    {G' R' : Multiset (Nat × Nat)} {E : Cached → Prop} (stands : Stands c T p)
    (alive : p.tls thread ≠ .exited) (member : thread ∈ T)
    (ran : p.withTls thread calloc m env = (some a, p')) (whole : p'.sub.clipped = false)
    (spec : ∀ X, Triple (Cached.Accounted (c.geometry fun _ => True) (X + p.objects) p.records) m
      (fun a' s => s.sub.clipped = false → a' = a →
        Cached.Accounted (c.geometry fun _ => True) (X + G') R' s) E) :
    (∀ t, (p'.tls t).cache.Sound) ∧ (∀ t ∉ T, (p'.tls t).contents = 0) ∧ p'.blocks = p.blocks ∧
      p'.sub.Accounted (c.geometry fun _ => True) (p'.dropped + p'.cached T + G') R' := by
  obtain ⟨s, env', rest, out, sub, blocks, before, now, caches⟩ := withTls_some alive member ran
  have ends := spec rest ⟨p.sub, (p.tls thread).cache⟩ env ⟨stands.sound thread, by
    rw [← add_assoc]
    exact before ▸ stands.books⟩
  simp only [out] at ends
  obtain ⟨sound, books⟩ := ends (sub ▸ whole) trivial
  refine ⟨fun t => ?_, fun t away => ?_, blocks, ?_⟩
  · rcases caches t with same | ⟨-, same⟩ <;> rw [same]
    · exact stands.sound t
    · exact sound
  · rcases caches t with same | ⟨same, -⟩
    · rw [Tls.contents, same]
      exact stands.outside t away
    · exact (away (same ▸ member)).elim
  · rw [now, sub, add_assoc]
    exact books

theorem bind_erase {f : Nat × Layout → Multiset (Nat × Nat)} {blocks : Multiset (Nat × Layout)}
    {b : Nat × Layout} (held : b ∈ blocks) : blocks.bind f = f b + (blocks.erase b).bind f := by
  conv_lhs => rw [← Multiset.cons_erase held, Multiset.cons_bind]

/-- Sizes for which the large allocator's arithmetic is exact. -/
def Call.small : Call → Prop
  | .alloc _ l => spanCount l.size < 2 ^ 32
  | _ => True

theorem Stands.alloc {env : List Turn} {calloc : Bool} {l : Layout} {ptr : Nat} (stands : Stands c T p)
    (alive : p.tls thread ≠ .exited) (member : thread ∈ T) (sized : l.size ≠ 0)
    (small : spanCount l.size < 2 ^ 32)
    (ran : p.withTls thread calloc (Cached.allocLayout l thread) env = (some (some ptr), p'))
    (whole : p'.sub.clipped = false) : Stands c T { p' with blocks := (ptr, l) ::ₘ p'.blocks } := by
  have spec : ∀ X, Triple (Cached.Accounted (c.geometry fun _ => True) (X + p.objects) p.records)
      (Cached.allocLayout l thread) (fun r s => s.sub.clipped = false → r = some ptr →
        Cached.Accounted (c.geometry fun _ => True) (X + (l.place.object? ptr + p.objects))
          (l.place.run? ptr + p.records) s) (fun _ => False) := by
    intro X
    refine (Cached.allocLayout_accounted sized small fun _ => trivial).weaken fun r s kept whole same => ?_
    rw [add_left_comm]
    exact kept whole ptr same
  obtain ⟨sound, outside, blocks, books⟩ := stands.withTls alive member ran whole spec
  refine ⟨sound, outside, ?_⟩
  simp only [objects, records, Multiset.cons_bind, blocks]
  exact books

theorem Stands.dealloc {env : List Turn} {calloc : Bool} {l : Layout} {ptr : Nat} (stands : Stands c T p)
    (alive : p.tls thread ≠ .exited) (member : thread ∈ T) (sized : l.size ≠ 0)
    (held : (ptr, l) ∈ p.blocks)
    (ran : p.withTls thread calloc (Cached.deallocLayout ptr l thread) env = (some (), p'))
    (whole : p'.sub.clipped = false) : Stands c T { p' with blocks := p'.blocks.erase (ptr, l) } := by
  have objects : p.objects = l.place.object? ptr + objects { p with blocks := p.blocks.erase (ptr, l) } :=
    bind_erase held
  have records : p.records = l.place.run? ptr + records { p with blocks := p.blocks.erase (ptr, l) } :=
    bind_erase held
  have spec : ∀ X, Triple (Cached.Accounted (c.geometry fun _ => True) (X + p.objects) p.records)
      (Cached.deallocLayout ptr l thread) (fun r s => s.sub.clipped = false → r = () →
        Cached.Accounted (c.geometry fun _ => True)
          (X + Process.objects { p with blocks := p.blocks.erase (ptr, l) })
          (Process.records { p with blocks := p.blocks.erase (ptr, l) }) s) (fun _ => False) := by
    intro X
    rw [objects, records, add_left_comm]
    exact (Cached.deallocLayout_accounted sized).weaken fun r s kept whole _ => kept whole
  obtain ⟨sound, outside, blocks, books⟩ := stands.withTls alive member ran whole spec
  refine ⟨sound, outside, ?_⟩
  simp only [Process.objects, Process.records, blocks] at books ⊢
  exact books

theorem exited_contents : Tls.exited.contents = 0 := ThreadCache.new_contents

/-- A thread is gone once its cache is empty. -/
theorem Stands.gone {s : SubHeap} (stands : Stands c T p) (member : thread ∈ T)
    (books : ∀ X, p.dropped + p.cached T = (p.tls thread).contents + X →
      s.Accounted (c.geometry fun _ => True) (X + p.objects) p.records) :
    Stands c T { p with sub := s, tls := Function.update p.tls thread .exited } := by
  have away : ∀ t, Function.update p.tls thread .exited t = p.tls t ∨
      Function.update p.tls thread .exited t = .exited := by
    intro t
    by_cases same : t = thread
    · rw [same, Function.update_self]
      exact .inr rfl
    · rw [Function.update_of_ne same]
      exact .inl rfl
  refine ⟨fun t => ?_, fun t outside => ?_, ?_⟩
  · rcases away t with same | same <;> simp only [same]
    · exact stands.sound t
    · exact ThreadCache.new_sound
  · rcases away t with same | same <;> simp only [same]
    · exact stands.outside t outside
    · exact exited_contents
  · obtain ⟨rest, before, now⟩ := cached_update p.tls member .exited
    rw [exited_contents, zero_add] at now
    have here := books (p.dropped + rest) (by rw [cached, before, add_left_comm])
    simp only [cached, now]
    exact here

/-- A flush that returns leaves nothing in the magazines. -/
theorem Stands.flushed {env env' : List Turn} {cache : ThreadCache} {s : Cached} {X : Multiset (Nat × Nat)}
    (stands : Stands c T p) (here : p.tls thread = .cached cache)
    (out : Cached.flushAll thread ⟨p.sub, cache⟩ env = (some (), s, env')) (whole : s.sub.clipped = false)
    (before : p.dropped + p.cached T = (p.tls thread).contents + X) : s.cache.contents = 0 ∧
      s.sub.Accounted (c.geometry fun _ => True) (X + p.objects) p.records := by
  have held : Cached.Accounted (c.geometry fun _ => True) (X + p.objects) p.records ⟨p.sub, cache⟩ := by
    rw [here] at before
    refine ⟨?_, ?_⟩
    · have := stands.sound thread
      rwa [here] at this
    · rw [← add_assoc]
      exact before ▸ stands.books
  have ends := Cached.flushAll_accounted (E := fun _ => False) thread ⟨p.sub, cache⟩ env held
  simp only [out] at ends
  obtain ⟨⟨-, sub⟩, empty⟩ := ends whole
  rw [empty, zero_add] at sub
  exact ⟨empty, sub⟩

theorem Stands.exit {env : List Turn} (stands : Stands c T p) (member : thread ∈ T)
    (ran : p.exit thread env = (some (), p')) (whole : p'.sub.clipped = false) : Stands c T p' := by
  have idle : (p.tls thread).contents = 0 →
      Stands c T { p with tls := Function.update p.tls thread .exited } := by
    intro empty
    apply stands.gone member
    intro X before
    rw [empty, zero_add] at before
    exact before ▸ stands.books
  unfold Process.exit at ran
  cases here : p.tls thread with
  | untouched =>
      rw [here] at ran
      cases ran
      exact idle (by rw [here]; exact ThreadCache.new_contents)
  | exited =>
      rw [here] at ran
      cases ran
      exact idle (by rw [here]; exact exited_contents)
  | cached cache =>
      rw [here] at ran
      dsimp only at ran
      rcases out : Cached.flushAll thread ⟨p.sub, cache⟩ env with ⟨r, s, env'⟩
      rw [out] at ran
      cases ran
      obtain ⟨X, before⟩ := p.cached_others member
      have empty := (stands.flushed here out whole before).1
      simp only [empty, zero_add]
      exact stands.gone member fun X before => (stands.flushed here out whole before).2

/-- Every call that returns keeps the books. -/
theorem Stands.after {env : List Turn} {call : Call} (stands : Stands c T p) (member : thread ∈ T)
    (legal : p.Legal thread call) (small : call.small) (ran : p.after thread env call = some p')
    (whole : p'.sub.clipped = false) : Stands c T p' := by
  cases call with
  | alloc calloc l =>
      rw [Process.after, Process.alloc] at ran
      by_cases sized : l.size = 0
      · rw [if_pos sized] at ran
        cases ran
        have place : l.place = .nothing := if_pos sized
        refine ⟨stands.sound, stands.outside, ?_⟩
        simp only [objects, records, Multiset.cons_bind, place, Place.object?, Place.run?, zero_add]
        exact stands.books
      · rw [if_neg sized] at ran
        rcases out : p.withTls thread calloc (Cached.allocLayout l thread) env with ⟨_ | _ | ptr, p₁⟩ <;>
          rw [out] at ran <;> cases ran
        exact stands.alloc legal member sized small out whole
  | dealloc calloc ptr l =>
      rw [Process.after, Process.dealloc] at ran
      by_cases sized : l.size = 0
      · rw [if_pos sized] at ran
        cases ran
        have place : l.place = .nothing := if_pos sized
        refine ⟨stands.sound, stands.outside, ?_⟩
        have books := stands.books
        simp only [objects, records, bind_erase legal.2, place, Place.object?, Place.run?, zero_add] at books ⊢
        exact books
      · rw [if_neg sized] at ran
        rcases out : p.withTls thread calloc (Cached.deallocLayout ptr l thread) env with ⟨_ | _, p₁⟩ <;>
          rw [out] at ran <;> cases ran
        exact stands.dealloc legal.1 member sized legal.2 out whole
  | exit =>
      rw [Process.after] at ran
      rcases out : p.exit thread env with ⟨_ | _, p₁⟩ <;> rw [out] at ran <;> cases ran
      exact stands.exit member out whole
  | sweep maxPerLock =>
      have swept := reclaimEmptySpans_accounted maxPerLock p.sub env stands.books
      rw [Process.after] at ran
      rcases out : SubHeap.reclaimEmptySpans maxPerLock p.sub env with ⟨_ | n, s, env'⟩ <;>
        rw [out] at ran <;> cases ran
      simp only [out] at swept
      exact ⟨stands.sound, stands.outside, swept whole⟩

/-- The books are kept in every process of a run. -/
theorem Reached.stands {admitted : Process → Nat → Call → Prop} (mapped : c.Mapped)
    (small : ∀ p t call, admitted p t call → call.small) (reached : Reached c admitted p) :
    ∃ T, Stands c T p := by
  induction reached with
  | start initial =>
      subst initial
      refine ⟨∅, fun _ => ThreadCache.new_sound, fun _ _ => ThreadCache.new_contents, ?_, rfl, ?_⟩
      · exact ⟨fun _ => .fresh, c.ledger mapped .tags fun _ => True, nofun⟩
      · exact fun h some => (some rfl).elim
  | next _ taken ih =>
      obtain ⟨T, stands⟩ := ih
      obtain ⟨thread, env, call, legal, allowed, ran, whole⟩ := taken
      exact ⟨insert thread T, (stands.widen thread).after (Finset.mem_insert_self ..) legal
        (small _ _ _ allowed) ran whole⟩

end Process

end Toccata
