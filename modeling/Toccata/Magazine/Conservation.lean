import Toccata.Magazine

/-! # A cache in front of a sub-heap

One thread's cache over a sub-heap that other threads use as well. Whatever lies in the
magazines is outside for the sub-heap, so a run of cache calls is, for its ledger, a run
of batches taken and returned. From that, every slot of a carved span keeps its one
place through every call: a bitmap, a per-CPU stack, a magazine, or somebody's hands.
-/

namespace Toccata

open Foundations SizeClass SubHeap

namespace SubHeap.World

variable {w : World}

/-- The same world with more objects outside. -/
def beside (w : World) (X : Multiset (Nat × Nat)) : World := { w with objects := X + w.objects }

theorem call_beside {α : Type} {m : Prog Turn SubHeap α} {env : List Turn} {got : α → World → World}
    (X : Multiset (Nat × Nat)) (same : ∀ a w, got a (beside w X) = beside (got a w) X) :
    (w.beside X).call m env got = (w.call m env got).beside X := by
  simp only [call, beside]
  rcases m w.sub env with ⟨_ | a, s, env'⟩
  · rfl
  · exact same a { w with sub := s }

/-- A call minds only what it is given. -/
theorem after_beside {op : Op} (thread : Nat) (env : List Turn) (X : Multiset (Nat × Nat))
    (legal : w.Legal op) : (w.beside X).after thread env op = (w.after thread env op).beside X := by
  have gained : ∀ cls (r : Option Nat) w, gainObject cls r (beside w X) = beside (gainObject cls r w) X := by
    intro cls r w
    simp only [gainObject, beside, add_left_comm]
  have given : ∀ x, x ∈ w.objects → { w.beside X with objects := (w.beside X).objects.erase x } =
      beside { w with objects := w.objects.erase x } X := by
    intro x held
    simp only [beside, Multiset.erase_add_right_pos _ held]
  cases op with
  | allocClass cls => exact call_beside X (gained cls)
  | alloc size =>
      rw [after, after]
      cases classFor size with
      | some cls => exact call_beside X (gained cls)
      | none => exact call_beside X fun _ _ => rfl
  | allocLarge size => exact call_beside X fun _ _ => rfl
  | refillBatch cls room =>
      rw [after, after]
      apply call_beside
      intro objs w
      simp only [beside, add_left_comm]
  | deallocClass p cls =>
      rw [after, after, given _ legal]
      exact call_beside X fun _ _ => rfl
  | deallocClassBatch ptrs cls =>
      have whole : { w.beside X with objects := (w.beside X).objects - ofClass cls ptrs } =
          beside { w with objects := w.objects - ofClass cls ptrs } X := by
        simp only [beside, add_tsub_assoc_of_le legal]
      rw [after, after, whole]
      exact call_beside X fun _ _ => rfl
  | deallocObject p cls =>
      rw [after, after, given _ legal]
      exact call_beside X fun _ _ => rfl
  | deallocRun p size =>
      rw [after, after]
      show (beside { w with runs := w.runs.erase (p, size) } X).call _ _ _ = _
      rw [call_beside X fun _ _ => rfl]
  | deallocForeign p =>
      rw [after, after, call_beside X fun _ _ => rfl]
  | reclaimEmptySpans maxPerLock =>
      rw [after, after, call_beside X fun _ _ => rfl]
  | rebalanceCapacity cpu cls count =>
      rw [after, after, call_beside X fun _ _ => rfl]

theorem Legal.beside {op : Op} (legal : w.Legal op) (X : Multiset (Nat × Nat)) : (w.beside X).Legal op := by
  cases op with
  | deallocClass p cls => exact Multiset.mem_add.mpr (.inr legal)
  | deallocObject p cls => exact Multiset.mem_add.mpr (.inr legal)
  | deallocClassBatch ptrs cls => exact le_trans (show ofClass cls ptrs ≤ w.objects from legal) (Multiset.le_add_left ..)
  | _ => exact legal

end SubHeap.World

/-! ## Lists under cache calls -/

namespace Cached

/-- Where the sub-heap behind a cache may go. -/
def Along (R : SubHeap → SubHeap → Prop) (s s' : Cached) : Prop := R s.sub s'.sub

variable {R : SubHeap → SubHeap → Prop}

instance [Std.Refl R] : Std.Refl (Along R) := ⟨fun s => Std.Refl.refl s.sub⟩

instance [IsTrans SubHeap R] : IsTrans Cached (Along R) :=
  ⟨fun s s' s'' h h' => IsTrans.trans (r := R) s.sub s'.sub s''.sub h h'⟩

theorem lift_moves {α : Type} {m : Prog Turn SubHeap α} (moves : Moves R m) : Moves (Along R) (lift m) :=
  fun s env => moves s.sub env

variable [Std.Refl R]

theorem magazine_moves (cls : Nat) : Moves (Along R) (magazine cls) := by
  refine .inspect fun s => ?_
  cases s.cache.mags.get? cls with
  | some m => exact .ret m
  | none => exact .fail

theorem setMagazine_moves (cls : Nat) (m : Magazine) : Moves (Along R) (setMagazine cls m) :=
  .modify fun s => Std.Refl.refl s.sub

theorem slot_moves (m : Magazine) (i : Nat) : Moves (Along R) (slot m i) := by
  rw [slot]
  cases m.ptrs.get? i with
  | some p => exact .ret p
  | none => exact .fail

theorem setTop_moves (cls : Nat) (m : Magazine) (p : Nat) : Moves (Along R) (setTop cls m p) := by
  rw [setTop]
  cases m.ptrs.set? m.len p with
  | some ptrs => exact setMagazine_moves _ _
  | none => exact .fail

variable [IsTrans SubHeap R]

theorem tryPop_moves (cls : Nat) : Moves (Along R) (tryPop cls) :=
  (magazine_moves cls).bind fun _ => .ite ((setMagazine_moves _ _).bind fun _ =>
    (slot_moves _ _).bind fun _ => .ret _) (.ret _)

theorem allocPrefetch_moves (cls : Nat) : Moves (Along R) (allocPrefetch cls) :=
  (magazine_moves cls).bind fun _ => .ite ((setMagazine_moves _ _).bind fun _ =>
    (slot_moves _ _).bind fun _ => .ite
      ((slot_moves _ _).bind fun _ => .ite ((slot_moves _ _).bind fun _ => .ret _) (.ret _))
      (.ite ((slot_moves _ _).bind fun _ => .ret _) (.ret _))) (.ret _)

theorem tryPush_moves (p cls : Nat) : Moves (Along R) (tryPush p cls) :=
  (magazine_moves cls).bind fun _ => .ite ((setTop_moves _ _ _).bind fun _ => .ret _) (.ret _)

theorem refill_moves {cls thread : Nat} (batch : Moves R (SubHeap.refillBatch .alone cls thread magCap)) :
    Moves (Along R) (refill .alone cls thread) :=
  (magazine_moves cls).bind fun _ => .ite .fail ((lift_moves batch).bind fun _ =>
    (setMagazine_moves _ _).bind fun _ => tryPop_moves cls)

theorem alloc_moves (cls thread : Nat) : Moves (Along Grown) (alloc cls thread) := by
  refine (tryPop_moves cls).bind fun r => ?_
  cases r with
  | some p => exact .ret _
  | none => exact refill_moves (refillBatch_grown .alone _ _ _)

theorem free_moves {cls thread : Nat} (p : Nat)
    (batch : ∀ ptrs, Moves R (SubHeap.deallocClassBatch ptrs cls thread)) :
    Moves (Along R) (free p cls thread) := by
  refine (tryPush_moves p cls).bind fun stored => .ite (.ret _) ?_
  exact (magazine_moves cls).bind fun _ => .ite .fail
    ((lift_moves (batch _)).bind fun _ => setTop_moves _ _ _)

theorem flushAll_moves {thread : Nat} (one : ∀ p cls, Moves R (SubHeap.deallocClass p cls thread)) :
    Moves (Along R) (flushAll thread) := by
  refine (Moves.each (fun cls => ?_) _).bind fun _ => .ret _
  refine (magazine_moves cls).bind fun _ => .upTo ((tryPop_moves cls).bind fun r => ?_) _
  cases r with
  | some p => exact (lift_moves (one _ _)).bind fun _ => .ret _
  | none => exact .ret _

end Cached

/-! ## Runs -/

/-- A cache in front of a sub-heap; the objects of `world` are outside of both. -/
structure Front where
  world : World
  cache : ThreadCache

namespace ThreadCache

/-- A call of the thread that owns the cache. -/
inductive Call where
  | tryPop (cls : Nat)
  | alloc (cls : Nat)
  | allocPrefetch (cls : Nat)
  | refill (cls : Nat)
  | tryPush (p cls : Nat)
  | free (p cls : Nat)
  | flushAll
deriving Repr, DecidableEq

/-- Calls that may carve. -/
def Call.carves : Call → Prop
  | .alloc _ | .refill _ => True
  | _ => False

end ThreadCache

open ThreadCache

namespace Front

open World

def cached (f : Front) : Cached := ⟨f.world.sub, f.cache⟩

def slots (f : Front) (cls : Nat) : List Nat := (f.cache.mags.cell cls).slots

/-- Run a program of the cache; its answer, if it does not panic, goes to the caller. -/
def call {α : Type} (f : Front) (m : Prog Turn Cached α) (env : List Turn)
    (got : α → World → World) : Front :=
  match m f.cached env with
  | (some a, s, _) => ⟨got a { f.world with sub := s.sub }, s.cache⟩
  | (none, s, _) => ⟨{ f.world with sub := s.sub }, s.cache⟩

/-- A push that is refused leaves the object with the caller. -/
def handOver (p cls : Nat) (stored : Bool) (w : World) : World :=
  if stored then { w with objects := w.objects.erase (p, cls) } else w

def after (f : Front) (thread : Nat) (env : List Turn) : Call → Front
  | .tryPop cls => f.call (Cached.tryPop cls) env (gainObject cls)
  | .alloc cls => f.call (Cached.alloc cls thread) env (gainObject cls)
  | .allocPrefetch cls => f.call (Cached.allocPrefetch cls) env (gainObject cls)
  | .refill cls => f.call (Cached.refill .alone cls thread) env (gainObject cls)
  | .tryPush p cls => f.call (Cached.tryPush p cls) env (handOver p cls)
  | .free p cls => f.call (Cached.free p cls thread) env fun _ => handOver p cls true
  | .flushAll => f.call (Cached.flushAll thread) env fun _ => id

/-- Classes exist, a refill follows a miss, and what is freed is held. -/
def Legal (f : Front) : Call → Prop
  | .tryPop cls | .alloc cls | .allocPrefetch cls => IsClass cls
  | .refill cls => IsClass cls ∧ f.slots cls = []
  | .tryPush p cls | .free p cls => (p, cls) ∈ f.world.objects
  | .flushAll => True

/-- A call of the cache's thread, or a call on the sub-heap by any thread; by bare pointer
    objects are freed there only while no carve was clipped. -/
inductive Step (thread : Nat) (f : Front) : Front → Prop where
  | call (env : List Turn) (call : Call) : f.Legal call → Step thread f (f.after thread env call)
  | other (t : Nat) (env : List Turn) (op : Op) : f.world.Legal op → op.size < 2 ^ 47 →
      (op.byPtr → f.world.sub.clipped = false) →
      Step thread f { f with world := f.world.after t env op }

def start (c : Config) : Front := ⟨World.start c, .new⟩

def Reached (c : Config) (thread : Nat) : Front → Prop := Reachable (· = start c) (Step thread)

/-! ## The ledger of a run -/

variable {c : Config} {f : Front} {thread cls p : Nat} {env : List Turn}
  {W : List (Nat × Nat)}

def geometry (c : Config) : Geometry := c.geometry fun _ => True

/-- The ledger with what the magazines and what callers hold outside. -/
def Stands (c : Config) (W : List (Nat × Nat)) (f : Front) : Prop :=
  Cached.Holds .tags (geometry c) f.world.objects f.world.records W f.cached

theorem call_spec {α : Type} {m : Prog Turn Cached α} {got : α → World → World} {Q : Front → Prop}
    (run : Triple (· = f.cached) m (fun a s => Q ⟨got a { f.world with sub := s.sub }, s.cache⟩)
      (fun _ => False)) : Q (f.call m env got) := by
  have ends := run f.cached env rfl
  unfold call
  rcases outcome : m f.cached env with ⟨_ | a, s, env'⟩ <;> simp only [outcome] at ends ⊢
  exact ends

theorem allowed (thread : Nat) : Allowed .tags (geometry c) thread := ⟨trivial, nofun⟩

/-- An allocation by any program that hands out what it answers. -/
theorem Stands.gain {m : Prog Turn Cached (Option Nat)} {P : Cached → Prop} (stands : Stands c W f)
    (here : P f.cached)
    (gains : Triple (fun s => Cached.Holds .tags (geometry c) f.world.objects
        f.world.records W s ∧ P s) m
      (fun r => Cached.Holds .tags (geometry c) (handed cls r + f.world.objects)
        f.world.records W) (fun _ => False)) :
    Stands c W (f.call m env (gainObject cls)) := by
  exact call_spec ((gains.start ⟨stands, here⟩).weaken fun r s held => held)

theorem Stands.isClass (stands : Stands c W f) (held : (p, cls) ∈ f.world.objects) :
    IsClass cls := by
  obtain ⟨-, role, ledger, -⟩ := stands
  obtain ⟨k, sh, i, active, -⟩ := ledger.slots.outside cls p (.inr (by simp [held]))
  exact ledger.cells.isClass active

theorem call_prefetch (sound : f.cache.Sound) (inside : cls < numClasses) {got : Option Nat → World → World} :
    f.call (Cached.allocPrefetch cls) env got = f.call (Cached.tryPop cls) env got := by
  have same : Cached.allocPrefetch cls f.cached env = Cached.tryPop cls f.cached env :=
    Cached.allocPrefetch_eq sound inside
  rw [call, call, same]

theorem Stands.tryPop (stands : Stands c W f) (inside : cls < numClasses) :
    Stands c W (f.call (Cached.tryPop cls) env (gainObject cls)) :=
  stands.gain (P := fun _ => True) trivial
    (((Cached.tryPop_spec inside).weaken fun _ _ kept => kept.1).strengthen fun _ pre => pre.1)

/-- Every call of the cache keeps the ledger, and loses nothing. -/
theorem Stands.after {call : Call} (stands : Stands c W f) (legal : f.Legal call) :
    Stands c W (f.after thread env call) := by
  cases call with
  | tryPop cls => exact stands.tryPop (IsClass.lt legal)
  | alloc cls =>
      exact stands.gain (P := fun _ => True) trivial
        ((Cached.alloc_spec legal (allowed _)).strengthen fun _ pre => pre.1)
  | allocPrefetch cls =>
      rw [Front.after, call_prefetch stands.1 (IsClass.lt legal)]
      exact stands.tryPop (IsClass.lt legal)
  | refill cls =>
      have empty : (f.cached.mag cls).len = 0 := by
        have length := congrArg List.length legal.2
        rwa [slots, Magazine.slots_length] at length
      exact stands.gain (P := fun s => (s.mag cls).len = 0) empty (Cached.refill_spec legal.1 (allowed _))
  | tryPush p cls =>
      have split : f.world.objects = (p, cls) ::ₘ (f.world.objects.erase (p, cls)) := by
        rw [Multiset.cons_erase legal]
      have isClass := stands.isClass legal
      unfold Stands at stands
      rw [split] at stands
      refine call_spec (((Cached.tryPush_spec isClass.lt).start stands).weaken fun stored s held => ?_)
      cases stored with
      | true =>
          rw [Cached.unstored, if_pos rfl, zero_add] at held
          exact held
      | false =>
          rw [Cached.unstored, if_neg (by decide), Multiset.singleton_add, ← split] at held
          exact held
  | free p cls =>
      have split : f.world.objects = (p, cls) ::ₘ (f.world.objects.erase (p, cls)) := by
        rw [Multiset.cons_erase legal]
      have isClass := stands.isClass legal
      unfold Stands at stands
      rw [split] at stands
      exact call_spec (((Cached.free_spec isClass.lt).start stands).weaken fun _ s held => held)
  | flushAll => exact call_spec ((Cached.flushAll_spec.start stands).weaken fun _ s held => held.1)

theorem Reached.stands (mapped : c.Mapped) (reached : Reached c thread f) :
    ∃ W, Stands c W f := by
  induction reached with
  | start initial =>
      subst initial
      have ledger := c.ledger mapped .tags fun _ => True
      refine ⟨[], ThreadCache.new_sound, fun _ => .fresh, ?_, nofun⟩
      show c.build.Ledger .tags (geometry c) _ (ThreadCache.new.contents + 0) 0 []
      rw [ThreadCache.new_contents, add_zero]
      exact ledger
  | @next f f' _ taken ih =>
      obtain ⟨W, stands⟩ := ih
      cases taken with
      | call env call legal => exact ⟨W, stands.after legal⟩
      | other t env op legal bound whole =>
          obtain ⟨sound, owned⟩ := stands
          have tracked : World.Tracked .tags True (geometry c) (f.world.beside f.cache.contents) := by
            refine ⟨0, 0, fun _ => ⟨rfl, rfl⟩, W, ?_⟩
            rw [zero_add, zero_add]
            exact owned
          have fine : Sound .tags (geometry c) t op := by
            refine ⟨?_, fun _ => ?_, trivial, nofun⟩
            · unfold spanBytes
              omega
            · unfold spanCount spanBytes
              omega
          have stepped : World.Tracked .tags True (geometry c)
              ((f.world.beside f.cache.contents).after t env op) := tracked.step
            (fun byPtr _ => ⟨Trust.tags_tagged, whole byPtr⟩) c.shards_lt (legal.beside f.cache.contents) fine
          rw [after_beside t env _ legal] at stepped
          obtain ⟨lost, lostRuns, all, W', owned'⟩ := stepped
          rw [(all trivial).1, (all trivial).2, zero_add, zero_add] at owned'
          exact ⟨W', sound, owned'⟩

/-! ## One place for every object -/

/-- How many places a slot is in: bits of the bitmaps, per-CPU stacks, the magazine of
    its class, and callers' hands. -/
def places (f : Front) (cls k i : Nat) : Nat :=
  let p := f.world.sub.arena.base + k * spanBytes + i * sizeOfClass cls
  (f.world.sub.bitmaps.allocBit k i).toNat + (f.world.sub.bitmaps.freeBit k i).toNat +
    (f.world.sub.slab.cached cls).count p + (f.slots cls).count p + f.world.objects.count (p, cls)

/-- A slot of a span on a list of the class. -/
def Carved (f : Front) (cls p : Nat) : Prop :=
  ∃ sh k i, sh < f.world.sub.numShards ∧ f.world.sub.OnList sh cls k ∧
    i < slotsPerSpan (sizeOfClass cls) ∧
    p = f.world.sub.arena.base + k * spanBytes + i * sizeOfClass cls

/-- Every object that was carved before is still carved, and in as many places. -/
def Conserves (f f' : Front) : Prop :=
  ∀ sh cls k i, sh < f.world.sub.numShards → f.world.sub.OnList sh cls k →
    i < slotsPerSpan (sizeOfClass cls) →
    f'.world.sub.OnList sh cls k ∧ f'.places cls k i = f.places cls k i

/-- Magazines within their arrays, nothing outside but carved objects, and every object
    carved in exactly one place. -/
structure Orderly (f : Front) : Prop where
  fits : ∀ cls, (f.slots cls).length ≤ magCap
  carved : ∀ cls p, cls < numClasses → p ∈ f.slots cls ∨ (p, cls) ∈ f.world.objects → f.Carved cls p
  once : ∀ sh cls k i, sh < f.world.sub.numShards → f.world.sub.OnList sh cls k →
    i < slotsPerSpan (sizeOfClass cls) → f.places cls k i = 1

theorem count_ofClass (cls p : Nat) (objs : List Nat) : (ofClass cls objs).count (p, cls) = objs.count p := by
  induction objs with
  | nil => rfl
  | cons q rest ih =>
      rw [ofClass_cons, Multiset.count_cons, ih, List.count_cons]
      congr 1
      by_cases same : q = p
      · rw [if_pos (by rw [same]), if_pos (by rw [same, beq_self_eq_true])]
      · rw [if_neg fun equal => same (congrArg Prod.fst equal).symm,
          if_neg fun equal => same (beq_iff_eq.mp equal)]

theorem count_contents (cache : ThreadCache) (inside : cls < numClasses) (p : Nat) :
    cache.contents.count (p, cls) = (cache.mags.cell cls).slots.count p := by
  rw [contents, Multiset.count_sum', Finset.sum_eq_single cls, count_ofClass]
  · intro cls' _ other
    rw [Multiset.count_eq_zero, ofClass, Multiset.mem_coe, List.mem_map]
    rintro ⟨q, -, same⟩
    exact other (congrArg Prod.snd same)
  · intro outside
    exact (outside (Finset.mem_range.mpr inside)).elim

theorem Stands.ledger (stands : Stands c W f) : ∃ role,
    f.world.sub.Ledger .tags (geometry c) role (f.cache.contents + f.world.objects)
      f.world.records W := by
  obtain ⟨-, role, ledger, -⟩ := stands
  exact ⟨role, ledger⟩

/-- In the ledger every carved object is in one place. -/
theorem Stands.places (stands : Stands c W f) {sh k i : Nat}
    (inside : sh < f.world.sub.numShards) (listed : f.world.sub.OnList sh cls k)
    (slot : i < slotsPerSpan (sizeOfClass cls)) :
    f.places cls k i = 1 := by
  obtain ⟨role, ledger⟩ := stands.ledger
  have active := (ledger.onList_iff inside).mp listed
  have once := ledger.slots.once k cls sh i active slot
  have base : f.world.sub.arena.base = c.arenaBase := ledger.stock.grid.arena
  have place : (geometry c).slotAddr k i cls = c.arenaBase + k * spanBytes + i * sizeOfClass cls := rfl
  rw [Multiset.count_add, count_contents _ (ledger.cells.isClass active).lt, place] at once
  rw [Front.places, base, ← once, slots]
  omega

/-- What was on a list stays on it while lists only grow. -/
theorem Stands.listed {f' : Front} {W' : List (Nat × Nat)}
    (stands : Stands c W f) (stands' : Stands c W' f')
    (grown : Grown f.world.sub f'.world.sub) {sh k : Nat} (inside : sh < f.world.sub.numShards)
    (listed : f.world.sub.OnList sh cls k) : f'.world.sub.OnList sh cls k := by
  obtain ⟨role, ledger⟩ := stands.ledger
  obtain ⟨role', ledger'⟩ := stands'.ledger
  obtain ⟨nodes, chain, -, members⟩ := ledger.cells.lists sh cls inside
  obtain ⟨added, chain', on⟩ := grown.lists sh cls nodes chain fun k member =>
    (ledger.cells.linked k).mpr ⟨cls, sh, (members k).mp member⟩
  refine ⟨added ++ nodes, chain', fun member => ?_, ?_⟩
  · obtain ⟨c', sh', active⟩ := (ledger'.cells.linked noSpan).mp (on noSpan member)
    have := ledger'.cells.inside active
    have := ledger'.stock.grid.small
    unfold noSpan at *
    omega
  · exact List.mem_append_right _ ((members k).mpr ((ledger.onList_iff inside).mp listed))

theorem Stands.conserves {f' : Front} (stands : Stands c W f)
    (stands' : Stands c W f') (grown : Grown f.world.sub f'.world.sub) : Conserves f f' := by
  intro sh cls k i inside listed slot
  have listed' := stands.listed stands' grown inside listed
  have before := stands.places inside listed slot
  have after := stands'.places (by rwa [grown.numShards]) listed' slot
  exact ⟨listed', by omega⟩

theorem Stands.orderly (stands : Stands c W f) : Orderly f where
  fits cls := by
    rw [slots, Magazine.slots_length]
    exact (stands.1.each cls).fits
  carved cls p inside held := by
    obtain ⟨role, ledger⟩ := stands.ledger
    have outside : (p, cls) ∈ f.cache.contents + f.world.objects := by
      rcases held with stored | out
      · rw [← Multiset.count_pos, Multiset.count_add, count_contents _ inside]
        have := List.count_pos_iff.mpr stored
        rw [slots] at this
        omega
      · simp [out]
    obtain ⟨k, sh, i, active, slot, rfl⟩ := ledger.slots.outside cls p (.inr outside)
    have shard := (ledger.cells.groups k k cls sh active).2.1
    refine ⟨sh, k, i, shard, (ledger.onList_iff shard).mpr active, slot, ?_⟩
    rw [show f.world.sub.arena.base = c.arenaBase from ledger.stock.grid.arena]
    rfl
  once sh cls k i inside listed slot := by
    have := stands.places inside listed slot
    omega

/-! ## What single calls do -/

theorem call_moves {α : Type} {m : Prog Turn Cached α} {got : α → World → World}
    {R : SubHeap → SubHeap → Prop} (moves : Moves (Cached.Along R) m)
    (same : ∀ a w, (got a w).sub = w.sub) : R f.world.sub (f.call m env got).world.sub := by
  have moved := moves f.cached env
  unfold call
  rcases outcome : m f.cached env with ⟨_ | a, s, env'⟩ <;> rw [outcome] at moved
  · exact moved
  · rw [same]
    exact moved

theorem handOver_sub (p cls : Nat) (stored : Bool) (w : World) : (handOver p cls stored w).sub = w.sub := by
  cases stored <;> rfl

theorem after_sameLists {call : Call} (quiet : ¬ call.carves) :
    SameLists f.world.sub (f.after thread env call).world.sub := by
  cases call with
  | tryPop cls => exact call_moves (Cached.tryPop_moves cls) fun _ _ => rfl
  | allocPrefetch cls => exact call_moves (Cached.allocPrefetch_moves cls) fun _ _ => rfl
  | tryPush p cls => exact call_moves (Cached.tryPush_moves p cls) (handOver_sub p cls)
  | free p cls => exact call_moves (Cached.free_moves p fun _ => deallocClassBatch_sameLists _ _ _) fun _ => handOver_sub p cls true
  | flushAll => exact call_moves (Cached.flushAll_moves fun _ _ => deallocClass_sameLists _ _ _) fun _ _ => rfl
  | alloc cls => exact (quiet trivial).elim
  | refill cls => exact (quiet trivial).elim

theorem after_grown (call : Call) : Grown f.world.sub (f.after thread env call).world.sub := by
  cases call with
  | alloc cls => exact call_moves (Cached.alloc_moves cls thread) fun _ _ => rfl
  | refill cls => exact call_moves (Cached.refill_moves (refillBatch_grown .alone _ _ _)) fun _ _ => rfl
  | _ => exact (after_sameLists id).grown

end Front

/-- The program of a call, but for its answer. -/
def ThreadCache.Call.run (thread : Nat) : Call → Prog Turn Cached Unit
  | .tryPop cls => do let _ ← Cached.tryPop cls
  | .alloc cls => do let _ ← Cached.alloc cls thread
  | .allocPrefetch cls => do let _ ← Cached.allocPrefetch cls
  | .refill cls => do let _ ← Cached.refill .alone cls thread
  | .tryPush p cls => do let _ ← Cached.tryPush p cls
  | .free p cls => Cached.free p cls thread
  | .flushAll => Cached.flushAll thread

namespace Front

open World

variable {c : Config} {f : Front} {thread cls p : Nat} {env : List Turn}
  {W : List (Nat × Nat)}

/-- A program with a specification that allows no panic returns. -/
theorem returns {α : Type} {P : Cached → Prop} {m : Prog Turn Cached α} {Q : α → Cached → Prop}
    (spec : Triple P m Q (fun _ => False)) (pre : P f.cached) : ∃ a, (m f.cached env).1 = some a := by
  have ends := spec f.cached env pre
  rcases outcome : m f.cached env with ⟨_ | a, s, env'⟩ <;> rw [outcome] at ends
  · exact ends.elim
  · exact ⟨a, rfl⟩

theorem discard {α : Type} {m : Prog Turn Cached α} (answered : ∃ a, (m f.cached env).1 = some a) :
    ((do let _ ← m : Prog Turn Cached Unit) f.cached env).1 = some () := by
  obtain ⟨a, answer⟩ := answered
  rcases outcome : m f.cached env with ⟨r, s, env'⟩
  rw [outcome] at answer
  obtain rfl : r = some a := answer
  rw [Prog.bind_some outcome]
  rfl

/-- No call indexes outside an array. -/
theorem Stands.returns {call : Call} (stands : Stands c W f) (legal : f.Legal call) :
    (call.run thread f.cached env).1 = some () := by
  cases call with
  | tryPop cls => exact discard (Front.returns (Cached.tryPop_spec (IsClass.lt legal)) stands)
  | alloc cls => exact discard (Front.returns (Cached.alloc_spec legal (allowed _)) stands)
  | allocPrefetch cls =>
      have same : Cached.allocPrefetch cls f.cached env = Cached.tryPop cls f.cached env :=
        Cached.allocPrefetch_eq stands.1 (IsClass.lt legal)
      apply discard
      rw [same]
      exact Front.returns (Cached.tryPop_spec (IsClass.lt legal)) stands
  | refill cls =>
      have empty : (f.cached.mag cls).len = 0 := by
        have length := congrArg List.length legal.2
        rwa [slots, Magazine.slots_length] at length
      exact discard (Front.returns (Cached.refill_spec legal.1 (allowed _)) ⟨stands, empty⟩)
  | tryPush p cls =>
      have isClass := stands.isClass legal
      unfold Stands at stands
      rw [← Multiset.cons_erase legal] at stands
      exact discard (Front.returns (Cached.tryPush_spec isClass.lt) stands)
  | free p cls =>
      have isClass := stands.isClass legal
      unfold Stands at stands
      rw [← Multiset.cons_erase legal] at stands
      have answered : ∃ a, (Cached.free p cls thread f.cached env).1 = some a :=
        Front.returns (Cached.free_spec isClass.lt) stands
      exact answered.choose_spec
  | flushAll =>
      have answered : ∃ a, (Cached.flushAll thread f.cached env).1 = some a :=
        Front.returns Cached.flushAll_spec stands
      exact answered.choose_spec

theorem call_some {α : Type} {m : Prog Turn Cached α} {got : α → World → World} {a : α} {s : Cached}
    {env' : List Turn} (out : m f.cached env = (some a, s, env')) :
    f.call m env got = ⟨got a { f.world with sub := s.sub }, s.cache⟩ := by
  rw [call, out]

/-- A free into a full magazine returns the bottom three quarters in one batch, keeps the
    rest in order and puts the object on top. -/
theorem Stands.free_full (stands : Stands c W f) (held : (p, cls) ∈ f.world.objects)
    (full : (f.slots cls).length = magCap) :
    (f.after thread env (.free p cls)).slots cls = (f.slots cls).drop (magCap * 3 / 4) ++ [p] ∧
    (∀ cls', cls' ≠ cls → (f.after thread env (.free p cls)).slots cls' = f.slots cls') ∧
    (f.after thread env (.free p cls)).world.sub =
      (SubHeap.deallocClassBatch ((f.slots cls).take (magCap * 3 / 4)) cls thread f.world.sub env).2.1 := by
  have isClass := stands.isClass held
  have length : (f.cached.mag cls).len = magCap := by
    rwa [slots, Magazine.slots_length] at full
  obtain ⟨-, owned⟩ := id stands
  rw [← Multiset.cons_erase held, Multiset.add_cons, ← Multiset.cons_add, ← Cached.drain_contents f.cached isClass.lt, add_assoc] at owned
  have batch := deallocClassBatch_spec (E := fun _ => False) _ thread f.cached.sub env owned
  rcases out : SubHeap.deallocClassBatch ((f.cached.mag cls).slots.take Cached.dropN) cls thread
    f.cached.sub env with ⟨_ | _, sub, env'⟩ <;> rw [out] at batch
  · exact batch.elim
  · have run : Cached.free p cls thread f.cached env = _ :=
      (Cached.free_full stands.1 isClass.lt (by omega)).trans
        (Cached.drainThenPush_eq stands.1 isClass.lt length out)
    rw [Front.after, call_some run]
    refine ⟨?_, fun cls' other => ?_, ?_⟩
    · show ((f.cached.put cls ((f.cached.mag cls).drained.pushed p)).mag cls).slots = _
      rw [Cached.put_mag, if_pos rfl, Magazine.pushed_slots, Magazine.drained_slots]
      rfl
    · show ((f.cached.put cls ((f.cached.mag cls).drained.pushed p)).mag cls').slots = _
      rw [Cached.put_mag, if_neg other]
      rfl
    · show sub = _
      exact (congrArg (fun r => r.2.1) out).symm

/-- The answers of a refill and of pops that follow it. -/
def refillThenPop (cls thread n : Nat) : Prog Turn Cached (List (Option Nat)) := do
  let first ← Cached.refill .alone cls thread
  let rest ← Prog.each (fun _ => Cached.tryPop cls) (List.replicate n ())
  return first :: rest

theorem entries_succ (objs : List Nat) (n : Nat) :
    objs.head? :: (List.range n).map (fun i => objs.tail[i]?) =
      (List.range (n + 1)).map fun i => objs[i]? := by
  rw [List.range_succ_eq_map, List.map_cons, List.map_map]
  cases objs with
  | nil => simp [Function.comp_def]
  | cons p rest => rfl

/-- Pops of a magazine loaded backwards come in order, and miss when it is empty. -/
theorem pops_eq (env : List Turn) (n : Nat) {s : Cached} {objs : List Nat} (sound : s.cache.Sound) (inside : cls < numClasses)
    (loaded : (s.mag cls).slots = objs.reverse) :
    ∃ s', Prog.each (fun _ => Cached.tryPop cls) (List.replicate n ()) s env =
      (some ((List.range n).map fun i => objs[i]?), s', env) := by
  induction n generalizing s objs with
  | zero => exact ⟨s, rfl⟩
  | succ n ih =>
      have pop : Cached.tryPop cls s env = _ := Cached.tryPop_eq sound inside
      rw [loaded, List.getLast?_reverse] at pop
      have left : ((s.put cls (s.mag cls).popped).mag cls).slots = objs.tail.reverse := by
        rw [Cached.put_mag, if_pos rfl, Magazine.popped_slots, loaded, List.dropLast_reverse]
      obtain ⟨s', rest⟩ := ih (sound.put (Cached.fine sound cls).popped cls) left
      refine ⟨s', ?_⟩
      rw [List.replicate_succ, Prog.each, Prog.bind_some pop, Prog.bind_some rest, ← entries_succ]
      rfl

/-- After a refill the pops follow the order of the batch. -/
theorem Stands.refill_order (stands : Stands c W f) (isClass : IsClass cls)
    (missed : f.slots cls = []) : ∃ objs,
      (SubHeap.refillBatch .alone cls thread magCap f.world.sub env).1 = some objs ∧ objs.length ≤ magCap ∧
      ∀ n, (refillThenPop cls thread n f.cached env).1 = some ((List.range (n + 1)).map fun i => objs[i]?) := by
  have empty : (f.cached.mag cls).len = 0 := by
    have length := congrArg List.length missed
    rwa [slots, Magazine.slots_length] at length
  obtain ⟨sound, owned⟩ := stands
  have batch := refillBatch_spec .alone (E := fun _ => False) magCap isClass (allowed (thread % c.shards))
    f.cached.sub env owned
  have few := SubHeap.refillBatch_length .alone cls thread magCap f.world.sub env trivial
  rcases out : SubHeap.refillBatch .alone cls thread magCap f.cached.sub env with ⟨_ | objs, sub, env'⟩ <;>
    rw [out] at batch
  · exact batch.elim
  · have same : SubHeap.refillBatch .alone cls thread magCap f.world.sub env = (some objs, sub, env') := out
    rw [same] at few
    refine ⟨objs, congrArg Prod.fst same, few, fun n => ?_⟩
    obtain ⟨run, slots, sound'⟩ := Cached.refill_eq sound isClass.lt empty out
    have left : (({ f.cached with sub }.put cls ((f.cached.mag cls).loaded objs).popped).mag cls).slots =
        objs.tail.reverse := by
      rw [Cached.put_mag, if_pos rfl, slots]
    obtain ⟨s', pops⟩ := pops_eq env' n (sound.put sound' cls) isClass.lt left
    rw [refillThenPop, Prog.bind_some run, Prog.bind_some pops, ← entries_succ]
    rfl

/-- A flush empties every magazine, and frees each object in them once. -/
theorem Stands.flush (stands : Stands c W f) :
    (∀ cls < numClasses, (f.after thread env .flushAll).slots cls = []) ∧
    (f.after thread env .flushAll).world.objects = f.world.objects ∧
    ∃ order : List (Nat × Nat), (order : Multiset (Nat × Nat)) = f.cache.contents ∧
      (f.after thread env .flushAll).world.sub = (Cached.deallocAll thread order f.world.sub env).2.1 := by
  obtain ⟨sound, owned⟩ := stands
  rw [← Cached.flushOrder_contents] at owned
  have freed := Cached.deallocAll_spec thread _ (E := fun _ => False) f.cached.sub env owned
  rcases out : Cached.deallocAll thread ((List.range numClasses).flatMap f.cached.flushOrder) f.cached.sub env
    with ⟨_ | done, sub, env'⟩ <;> rw [out] at freed
  · exact freed.elim
  · obtain ⟨cache, run, -, empty⟩ := Cached.flushAll_eq sound out
    rw [Front.after, call_some run]
    exact ⟨empty, rfl, _, Cached.flushOrder_contents f.cached, (congrArg (fun r => r.2.1) out).symm⟩

/-- A cache conserves objects, call by call. -/
theorem cache_conserves (mapped : c.Mapped) (reached : Reached c thread f) (env : List Turn) :
    Orderly f ∧
    (∀ call, f.Legal call → (call.run thread f.cached env).1 = some () ∧
      Conserves f (f.after thread env call) ∧ Orderly (f.after thread env call) ∧
      (¬ call.carves → SameLists f.world.sub (f.after thread env call).world.sub)) ∧
    (∀ p cls, (p, cls) ∈ f.world.objects → (f.slots cls).length = magCap →
      (f.after thread env (.free p cls)).slots cls = (f.slots cls).drop (magCap * 3 / 4) ++ [p] ∧
      (∀ cls', cls' ≠ cls → (f.after thread env (.free p cls)).slots cls' = f.slots cls') ∧
      (f.after thread env (.free p cls)).world.sub =
        (SubHeap.deallocClassBatch ((f.slots cls).take (magCap * 3 / 4)) cls thread f.world.sub env).2.1) ∧
    (∀ cls, IsClass cls → f.slots cls = [] → ∃ objs,
      (SubHeap.refillBatch .alone cls thread magCap f.world.sub env).1 = some objs ∧ objs.length ≤ magCap ∧
      ∀ n, (refillThenPop cls thread n f.cached env).1 =
        some ((List.range (n + 1)).map fun i => objs[i]?)) ∧
    (∀ cls < numClasses, (f.after thread env .flushAll).slots cls = []) ∧
    (f.after thread env .flushAll).world.objects = f.world.objects ∧
    ∃ order : List (Nat × Nat), (order : Multiset (Nat × Nat)) = f.cache.contents ∧
      (f.after thread env .flushAll).world.sub = (Cached.deallocAll thread order f.world.sub env).2.1 := by
  obtain ⟨W, stands⟩ := reached.stands mapped
  refine ⟨stands.orderly, fun call legal => ?_, fun _ _ => stands.free_full, fun _ => stands.refill_order,
    stands.flush⟩
  have stands' : Stands c W (f.after thread env call) := stands.after legal
  exact ⟨stands.returns legal, stands.conserves stands' (after_grown call), stands'.orderly, after_sameLists⟩

/-- A cache that missed once: the arena has five objects of the class, one handed out. -/
@[irreducible] def filled : Front := (start World.fiveSpans).after 0 [] (.alloc 44)

theorem filled_reached : Reached World.fiveSpans 0 filled := by
  have started : Reached World.fiveSpans 0 (start World.fiveSpans) := .start rfl
  unfold filled
  exact started.next (.call [] (.alloc 44) ⟨by decide, by decide⟩)

theorem cache_conserves_filled : (filled.slots 44).length = 4 ∧ filled.world.objects.card = 1 ∧
    Orderly filled ∧ (filled.after 0 [] .flushAll).slots 44 = [] := by
  have run : (filled.slots 44).length = 4 ∧ filled.world.objects.card = 1 := by decide +kernel
  obtain ⟨orderly, -, -, -, empty, -⟩ := cache_conserves World.fiveSpans_mapped filled_reached []
  exact ⟨run.1, run.2, orderly, empty 44 (by decide)⟩

/-- Magazines of classes 1 and 17 over a sub-heap where the two share their slots. -/
def sharing : Front := ((start World.wide).after 0 [] (.alloc 1)).after 0 [] (.alloc 17)

/-- A flush in which the first push of either class is taken and all others decline. -/
def oneEach : List Turn := ⟨0, 0, false⟩ :: List.replicate 90 ⟨0, 0, true⟩ ++ [⟨0, 0, false⟩]

theorem sharing_run : Chain sharing.world.sub.bitmaps.nextActive (sharing.world.sub.head 0 1) [0] noSpan ∧
    0 < sharing.world.sub.numShards ∧ sharing.places 1 0 1 = 1 ∧
    (sharing.after 0 oneEach .flushAll).places 1 0 1 = 0 := by
  decide +kernel

attribute [irreducible] sharing

/-- The second slot of class 1 is overwritten on its stack and is nowhere after the flush. -/
theorem flush_loses : World.wide.Placed ∧ Reached World.wide 0 sharing ∧
    ¬ Conserves sharing (sharing.after 0 oneEach .flushAll) := by
  obtain ⟨list, inside, before, after⟩ := sharing_run
  have started : Reached World.wide 0 (start World.wide) := .start rfl
  have first := started.next (.call [] (.alloc 1) ⟨by decide, by decide⟩)
  have reached : Reached World.wide 0 sharing := by
    unfold sharing
    exact first.next (.call [] (.alloc 17) ⟨by decide, by decide⟩)
  refine ⟨World.wide_placed.1, reached, fun conserves => ?_⟩
  have kept := (conserves 0 1 0 1 inside ⟨[0], list, by decide, by decide⟩ (by decide)).2
  rw [before, after] at kept
  cases kept

end Front

end Toccata
