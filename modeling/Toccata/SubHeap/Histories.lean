import Toccata.Foundations.Transition
import Toccata.SubHeap.Large

/-! # Histories of a sub-heap

A world is a sub-heap with what its callers hold: objects by class and large runs by
the size asked for. A step is one public call, made by some thread under some schedule
of slab attempts. A call that panics returns nothing and leaves the sub-heap as it
stood. What the ledger says of one state is carried here to every state of a run.
-/

namespace Toccata

open Foundations SizeClass

namespace SubHeap

/-! ## Building -/

/-- The parameters of `build_standalone`, and where its reservation lies. -/
structure Config where
  base : Nat
  budgetBytes : Nat
  numCpus : Nat
  numShards : Option Nat
  capPerClass : Nat

namespace Config

def arenaBase (c : Config) : Nat := c.base + slabBytes c.capPerClass (max c.numCpus 1)

/-- The reservation is mapped: not at null, and clear of the end of a 48-bit address
    space. -/
structure Placed (c : Config) : Prop where
  nonNull : 0 < c.base
  top : c.arenaBase + c.budgetBytes + 2 ^ 20 ≤ 2 ^ 48

/-- It is mapped, and the slots of every class start where 32 bits still reach, as they
    do in blocks of up to 2^32 bytes. -/
structure Mapped (c : Config) : Prop extends c.Placed where
  narrow : slotsStart c.capPerClass (numClasses - 1) < 2 ^ 32

def shards (c : Config) : Nat := c.numShards.elim (clampShards (wrap32 (max c.numCpus 1 * 4))) clampShards

def geometry (c : Config) (uses : Nat → Prop) : Geometry :=
  ⟨c.arenaBase, c.budgetBytes, c.shards, max c.numCpus 1, uses⟩

def build (c : Config) : SubHeap :=
  buildStandalone c.base c.budgetBytes c.numCpus c.numShards c.capPerClass

end Config

theorem clampShards_pos (n : Nat) : 0 < clampShards n := by
  unfold clampShards maxShards
  omega

theorem Config.shards_pos (c : Config) : 0 < c.shards := by
  rw [shards]
  cases c.numShards with
  | none => exact clampShards_pos _
  | some n => exact clampShards_pos n

theorem slotsStart_le (cap : Nat) {cls cls' : Nat} (less : cls < cls') :
    slotsStart cap cls + capForClass cls cap * 8 ≤ slotsStart cap cls' := by
  obtain ⟨k, rfl⟩ : ∃ k, cls' = cls + 1 + k := ⟨cls' - (cls + 1), by omega⟩
  simp only [slotsStart, List.range_add, List.map_append, List.sum_append, List.range_one,
    List.map_cons, List.map_nil, List.sum_cons, List.sum_nil, Nat.add_zero]
  omega

theorem slotsOffs_length (cap : Nat) : (slotsOffs cap).length = numClasses := by
  rw [slotsOffs, List.length_map, List.length_range]

theorem Config.build_slotsOffs (c : Config) : c.build.slab.slotsOffs = slotsOffs c.capPerClass := rfl

/-- Offsets that 32 bits hold keep the slots of the classes apart. -/
theorem Config.slab_apart {c : Config} (mapped : c.Mapped) : c.build.slab.Apart where
  fits _ _ := Nat.zero_le _
  slots _ cls cls' i j isClass isClass' different below below' := by
    rw [c.build_slotsOffs, slotsOffs_length] at isClass isClass'
    have addr : ∀ cls < numClasses, ∀ i, c.build.slab.slotAddr cls i = slotsStart c.capPerClass cls + i * 8 := by
      intro cls isClass i
      have low : slotsStart c.capPerClass cls ≤ slotsStart c.capPerClass (numClasses - 1) := by
        rcases Nat.lt_or_ge cls (numClasses - 1) with less | last
        · exact (Nat.le_add_right ..).trans (slotsStart_le c.capPerClass less)
        · rw [show cls = numClasses - 1 by omega]
      rw [SlabLayout.slotAddr, c.build_slotsOffs, slotsOffs, List.getD_eq_getElem?_getD,
        List.getElem?_map, List.getElem?_range isClass, Option.map_some, Option.getD_some, wrap32_small (low.trans_lt mapped.narrow)]
    rw [addr cls isClass, addr cls' isClass']
    have below : i < capForClass cls c.capPerClass := below
    have below' : j < capForClass cls' c.capPerClass := below'
    rcases Nat.lt_or_gt_of_ne different with less | more
    · have := slotsStart_le c.capPerClass less
      omega
    · have := slotsStart_le c.capPerClass more
      omega

theorem Config.grid {c : Config} (mapped : c.Mapped) (uses : Nat → Prop) :
    c.build.Grid (c.geometry uses) where
  arena := rfl
  bitmaps := rfl
  table := rfl
  large := rfl
  len := rfl
  limit := rfl
  nonNull := Nat.lt_of_lt_of_le mapped.nonNull (Nat.le_add_right ..)
  mapped := mapped.top
  numShards := rfl
  shards := c.shards_pos
  numCpus := rfl
  cpus := Nat.lt_of_lt_of_le one_pos (le_max_right ..)
  classes := by rw [c.build_slotsOffs, slotsOffs_length]
  slab := c.slab_apart mapped
  runs := rfl

/-- At the start every span is beyond the cursor. -/
theorem Config.ledger {c : Config} (mapped : c.Mapped) (trust : Trust) (uses : Nat → Prop) :
    c.build.Ledger trust (c.geometry uses) (fun _ => .fresh) 0 0 [] where
  stock :=
    { grid := c.grid mapped uses
      cursor := ⟨0, (Nat.add_zero _).symm.trans (by rw [Nat.zero_mul]; rfl), by simp, fun _ _ _ => rfl⟩
      stocked := nofun
      pool := by
        intro _
        have small := (c.grid mapped uses).small
        have none : {k : Nat | Role.fresh = .pooled} = ∅ := Set.eq_empty_of_forall_notMem nofun
        have some : 1 ≤ max c.build.spans.numSpans 1 := by omega
        have bound : max c.build.spans.numSpans 1 < 2 ^ 32 := by omega
        rw [none]
        exact SpanPool.new_represents some bound
      whole := fun _ k used => (used rfl).elim
      carved := by
        intro k below
        have beyond : c.arenaBase < c.arenaBase + (k + 1) * spanBytes :=
          Nat.lt_add_of_pos_right (Nat.mul_pos k.succ_pos (by decide))
        exact absurd below (Nat.not_le_of_lt beyond) }
  cells :=
    { groups := nofun
      entries := fun _ => nofun
      labels := fun k _ => .inl rfl
      lists := fun sh c _ => ⟨[], rfl, List.nodup_nil, by simp⟩
      linked := fun k => by
        constructor
        · intro listed
          cases listed
        · rintro ⟨_, _, active⟩
          cases active
      runs := fun h some => (some rfl).elim
      large := nofun }
  slots := by
    refine ⟨nofun, ?_, ?_⟩
    · intro k i set
      simp [Config.build, buildStandalone, SpanBitmaps.new, SpanBitmaps.allocBit, SpanBitmaps.freeBit,
        bitAt] at set
    · intro cls p outside
      simp [Config.build, buildStandalone, SlabLayout.cached] at outside
  larges := ⟨by simp, by simp⟩
  loose := ⟨List.nodup_nil, by simp, by simp, nofun⟩
  used := nofun
  healthy := fun _ _ => rfl

/-! ## Calls -/

/-- A public call. `dealloc_by_ptr` comes by what its pointer is: an object, a large
    run, or neither. -/
inductive Op where
  | allocClass (cls : Nat)
  | alloc (size : Nat)
  | allocLarge (size : Nat)
  | refillBatch (cls room : Nat)
  | deallocClass (p cls : Nat)
  | deallocClassBatch (ptrs : List Nat) (cls : Nat)
  | deallocObject (p cls : Nat)
  | deallocRun (p size : Nat)
  | deallocForeign (p : Nat)
  | reclaimEmptySpans (maxPerLock : Nat)
  | rebalanceCapacity (cpu cls count : Nat)
deriving Repr, DecidableEq

/-- A sub-heap, the objects callers hold with their classes, and the large runs they
    hold with the sizes asked for. -/
structure World where
  sub : SubHeap
  objects : Multiset (Nat × Nat)
  runs : Multiset (Nat × Nat)

namespace World

/-- Callers name a class and a CPU that exist, and free what they hold. -/
def Legal (w : World) : Op → Prop
  | .allocClass cls | .refillBatch cls _ => IsClass cls
  | .deallocClass p cls | .deallocObject p cls => (p, cls) ∈ w.objects
  | .deallocClassBatch ptrs cls => ofClass cls ptrs ≤ w.objects
  | .deallocRun p size => (p, size) ∈ w.runs
  | .deallocForeign p => w.sub.spans.indexOf p = none
  | .rebalanceCapacity cpu _ _ => cpu < w.sub.slab.numCpus
  | _ => True

instance (w : World) : ∀ op, Decidable (w.Legal op)
  | .allocClass cls | .refillBatch cls _ => inferInstanceAs (Decidable (IsClass cls))
  | .deallocClass p cls | .deallocObject p cls => inferInstanceAs (Decidable ((p, cls) ∈ w.objects))
  | .deallocClassBatch ptrs cls => inferInstanceAs (Decidable (ofClass cls ptrs ≤ w.objects))
  | .deallocRun p size => inferInstanceAs (Decidable ((p, size) ∈ w.runs))
  | .deallocForeign p => inferInstanceAs (Decidable (w.sub.spans.indexOf p = none))
  | .rebalanceCapacity cpu _ _ => inferInstanceAs (Decidable (cpu < w.sub.slab.numCpus))
  | .alloc _ | .allocLarge _ | .reclaimEmptySpans _ => inferInstanceAs (Decidable True)

/-- Run a program on the sub-heap; its answer, if it does not panic, goes to the caller. -/
def call {α : Type} (w : World) (m : Prog Turn SubHeap α) (env : List Turn)
    (got : α → World → World) : World :=
  match m w.sub env with
  | (some a, s, _) => got a { w with sub := s }
  | (none, s, _) => { w with sub := s }

def gainObject (cls : Nat) (r : Option Nat) (w : World) : World :=
  { w with objects := handed cls r + w.objects }

def gainRun (size : Nat) (r : Option Nat) (w : World) : World :=
  { w with runs := r.toList.map (·, size) + w.runs }

/-- The world after a call by the thread with this shard id. A free gives up what it
    frees from the start. -/
def after (w : World) (thread : Nat) (env : List Turn) : Op → World
  | .allocClass cls => w.call (SubHeap.allocClass cls thread) env (gainObject cls)
  | .alloc size =>
      w.call (SubHeap.alloc size thread) env <|
        match classFor size with
        | some cls => gainObject cls
        | none => gainRun size
  | .allocLarge size => w.call (SubHeap.allocLarge size) env (gainRun size)
  | .refillBatch cls room =>
      w.call (SubHeap.refillBatch .alone cls thread room) env fun objs w =>
        { w with objects := ofClass cls objs + w.objects }
  | .deallocClass p cls =>
      { w with objects := w.objects.erase (p, cls) }.call (SubHeap.deallocClass p cls thread) env
        fun _ => id
  | .deallocClassBatch ptrs cls =>
      { w with objects := w.objects - ofClass cls ptrs }.call
        (SubHeap.deallocClassBatch ptrs cls thread) env fun _ => id
  | .deallocObject p cls =>
      { w with objects := w.objects.erase (p, cls) }.call (SubHeap.deallocByPtr p thread) env
        fun _ => id
  | .deallocRun p size =>
      { w with runs := w.runs.erase (p, size) }.call (SubHeap.deallocByPtr p thread) env fun _ => id
  | .deallocForeign p => w.call (SubHeap.deallocByPtr p thread) env fun _ => id
  | .reclaimEmptySpans maxPerLock =>
      w.call (SubHeap.reclaimEmptySpans maxPerLock) env fun _ => id
  | .rebalanceCapacity cpu cls count =>
      w.call (SubHeap.rebalanceCapacity cpu cls count) env fun _ => id

/-- One call, among those admitted. -/
inductive Step (admitted : Nat → Op → Prop) (w : World) : World → Prop where
  | call (thread : Nat) (env : List Turn) (op : Op) : w.Legal op → admitted thread op →
      Step admitted w (w.after thread env op)

/-- A sub-heap as built, with nothing handed out. -/
def start (c : Config) : World := ⟨c.build, 0, 0⟩

/-- The worlds of runs of admitted calls. -/
def Reached (c : Config) (admitted : Nat → Op → Prop) : World → Prop :=
  Reachable (· = start c) (Step admitted)

/-- Those where in addition every carve for one object larger than a span got all the
    spans it asked for. -/
def ReachedWhole (c : Config) (admitted : Nat → Op → Prop) : World → Prop :=
  Reachable (· = start c) fun w w' => Step admitted w w' ∧ w'.sub.clipped = false

/-! ## What a run keeps -/

variable {trust : Trust} {whole : Prop} {g : Geometry} {w : World} {thread : Nat} {env : List Turn}

/-- The runs callers hold as the large allocator records them. -/
def records (w : World) : Multiset (Nat × Nat) := w.runs.map fun x => (x.1, wrap32 (spanCount x.2))

/-- The ledger holds with everything callers hold outside. In a whole run they hold all
    of it; otherwise some may have been lost in a free that did nothing. -/
def Tracked (trust : Trust) (whole : Prop) (g : Geometry) (w : World) : Prop :=
  ∃ lost lostRuns, (whole → lost = 0 ∧ lostRuns = 0) ∧
    Kept trust g (lost + w.objects) (lostRuns + w.records) w.sub

theorem call_spec {α : Type} {m : Prog Turn SubHeap α} {got : α → World → World} {Q : World → Prop}
    (run : Triple (· = w.sub) m (fun a s => Q (got a { w with sub := s }))
      (fun s => Q { w with sub := s })) : Q (w.call m env got) := by
  have ends := run w.sub env rfl
  unfold call
  rcases outcome : m w.sub env with ⟨_ | a, s, env'⟩ <;> simp only [outcome] at ends ⊢ <;> exact ends

end World

/-- The size an operation asks for. -/
def Op.size : Op → Nat
  | .alloc size | .allocLarge size => size
  | _ => 0

/-- Calls that carve under the shard id itself and not its remainder. -/
def Op.carves : Op → Prop
  | .allocClass _ | .alloc _ => True
  | _ => False

/-- Frees that find out from the table what they free. -/
def Op.byPtr : Op → Prop
  | .deallocObject _ _ | .deallocRun _ _ => True
  | _ => False

/-- What a call has to respect for the ledger to be kept. -/
structure Sound (trust : Trust) (g : Geometry) (thread : Nat) (op : Op) : Prop where
  bound : op.size + (spanBytes - 1) < 2 ^ 64
  exact : trust.tagged → spanCount op.size < 2 ^ 32
  uses : g.uses (thread % g.shards)
  back : trust.homed → op.carves → wrap16 thread % g.shards = thread % g.shards

theorem Sound.allowed {trust : Trust} {g : Geometry} {thread : Nat} {op : Op}
    (sound : Sound trust g thread op) (carves : op.carves) : Allowed trust g thread :=
  ⟨sound.uses, fun on => sound.back on carves⟩

/-- A remainder is narrow enough for its tag. -/
theorem Sound.reduced {trust : Trust} {g : Geometry} {thread : Nat} {op : Op} (pos : 0 < g.shards)
    (narrow : g.shards < 65536) (sound : Sound trust g thread op) :
    Allowed trust g (thread % g.shards) where
  uses := by
    rw [Nat.mod_mod]
    exact sound.uses
  back _ := by
    have := Nat.mod_lt thread pos
    rw [wrap16, Nat.mod_eq_of_lt (by omega : thread % g.shards < 2 ^ 16)]

theorem le_seek (size tries cls : Nat) : cls ≤ seek size tries cls := by
  induction tries generalizing cls with
  | zero => exact le_rfl
  | succ tries ih =>
      rw [seek]
      split
      · exact le_rfl
      · exact (Nat.le_succ cls).trans (ih (cls + 1))

theorem classFor_isClass {size cls : Nat} (found : classFor size = some cls) : IsClass cls := by
  rw [classFor] at found
  split at found
  · cases found
  · by_cases inside : seek (if size = 0 then 1 else size) (numClasses - 1) 1 < numClasses
    · rw [if_pos inside] at found
      cases found
      exact ⟨le_seek _ _ 1, inside⟩
    · rw [if_neg inside] at found
      cases found

namespace World

variable {trust : Trust} {whole : Prop} {g : Geometry} {w : World} {thread : Nat} {env : List Turn}
  {cls p size : Nat} {lost lostRuns : Multiset (Nat × Nat)} {W : List (Nat × Nat)}

theorem Tracked.of_owned {objects runs : Multiset (Nat × Nat)} {s : SubHeap}
    (all : whole → lost = 0 ∧ lostRuns = 0)
    (owned : Owned trust g (lost + objects) (lostRuns + records ⟨s, objects, runs⟩) W s) :
    Tracked trust whole g ⟨s, objects, runs⟩ :=
  ⟨lost, lostRuns, all, W, owned⟩

theorem Tracked.allocClass (tracked : Tracked trust whole g w) (isClass : IsClass cls)
    (allowed : Allowed trust g thread) :
    Tracked trust whole g (w.call (SubHeap.allocClass cls thread) env (gainObject cls)) := by
  obtain ⟨lost, lostRuns, all, W, owned⟩ := tracked
  refine call_spec (((allocClass_spec isClass allowed).start owned).weaken fun r s owned => ?_)
  rw [add_left_comm] at owned
  exact .of_owned all owned

theorem records_none (s : SubHeap) : (gainRun size none { w with sub := s }).records = w.records := by
  rw [records, gainRun, Option.toList_none, List.map_nil, Multiset.coe_nil, zero_add, records]

theorem records_some (s : SubHeap) : (gainRun size (some p) { w with sub := s }).records =
    (p, wrap32 (spanCount size)) ::ₘ w.records := by
  rw [records, gainRun, Option.toList_some, List.map_singleton, Multiset.coe_singleton,
    Multiset.singleton_add, Multiset.map_cons, records]

theorem Tracked.allocLarge (tracked : Tracked trust whole g w)
    (bound : size + (spanBytes - 1) < 2 ^ 64) (exact : trust.tagged → spanCount size < 2 ^ 32) :
    Tracked trust whole g (w.call (SubHeap.allocLarge size) env (gainRun size)) := by
  obtain ⟨lost, lostRuns, all, W, role, ledger, settled⟩ := tracked
  refine call_spec (((allocLarge_spec ledger settled bound exact).weaken ?_).relax ?_)
  · rintro r s' (⟨rfl, rfl⟩ | ⟨s₁, h, rfl, reserved, rfl⟩)
    · refine ⟨lost, lostRuns, all, W, role, ?_, settled⟩
      rw [records_none]
      exact ledger
    · have granted := ledger.granted reserved bound fun on => (wrap32_small (exact on)).symm
      rw [← Multiset.add_cons, ← records_some] at granted
      exact ⟨lost, lostRuns, all, W, _, granted, assign_settled settled (by simp)⟩
  · rintro s' ⟨kept, -⟩
    exact ⟨lost, lostRuns, all, kept⟩

theorem Tracked.refillBatch (tracked : Tracked trust whole g w) (isClass : IsClass cls)
    (allowed : Allowed trust g (thread % g.shards)) (room : Nat) :
    Tracked trust whole g (w.call (SubHeap.refillBatch .alone cls thread room) env fun objs w =>
      { w with objects := ofClass cls objs + w.objects }) := by
  obtain ⟨lost, lostRuns, all, W, owned⟩ := tracked
  refine call_spec (((refillBatch_spec .alone room isClass allowed).start owned).weaken fun objs s owned => ?_)
  rw [add_left_comm] at owned
  exact .of_owned all owned

/-- A free of one object, by any program that takes it back. -/
theorem Tracked.free {m : Prog Turn SubHeap Unit} (tracked : Tracked trust whole g w)
    (held : (p, cls) ∈ w.objects)
    (frees : ∀ H L W E, Triple (Owned trust g ((p, cls) ::ₘ H) L W) m (fun _ => Owned trust g H L W) E) :
    Tracked trust whole g
      (call { w with objects := w.objects.erase (p, cls) } m env fun _ => id) := by
  obtain ⟨lost, lostRuns, all, W, owned⟩ := tracked
  rw [← Multiset.cons_erase held, Multiset.add_cons] at owned
  exact call_spec (((frees _ _ _ _).start owned).weaken fun _ s owned => .of_owned all owned)

theorem Tracked.deallocClassBatch {ptrs : List Nat} (tracked : Tracked trust whole g w)
    (held : ofClass cls ptrs ≤ w.objects) :
    Tracked trust whole g (call { w with objects := w.objects - ofClass cls ptrs }
      (SubHeap.deallocClassBatch ptrs cls thread) env fun _ => id) := by
  obtain ⟨lost, lostRuns, all, W, owned⟩ := tracked
  rw [← add_tsub_cancel_of_le held, add_left_comm] at owned
  exact call_spec (((deallocClassBatch_spec ptrs thread).start owned).weaken
    fun _ s owned => .of_owned all owned)

theorem Tracked.deallocObject (tracked : Tracked trust whole g w)
    (kept : whole → trust.tagged ∧ w.sub.clipped = false) (held : (p, cls) ∈ w.objects) :
    Tracked trust whole g (call { w with objects := w.objects.erase (p, cls) }
      (SubHeap.deallocByPtr p thread) env fun _ => id) := by
  obtain ⟨lost, lostRuns, all, W, role, ledger, settled⟩ := tracked
  rw [← Multiset.cons_erase held, Multiset.add_cons] at ledger
  refine call_spec ((deallocByPtr_object kept ledger settled).weaken ?_)
  rintro _ s ⟨gone, none, owned⟩
  rw [← add_assoc] at owned
  refine .of_owned (fun here => ⟨?_, (all here).2⟩) owned
  rw [none here, (all here).1, add_zero]

theorem Tracked.deallocRun (tracked : Tracked trust whole g w)
    (kept : whole → trust.tagged) (held : (p, size) ∈ w.runs) :
    Tracked trust whole g (call { w with runs := w.runs.erase (p, size) }
      (SubHeap.deallocByPtr p thread) env fun _ => id) := by
  obtain ⟨lost, lostRuns, all, W, role, ledger, settled⟩ := tracked
  have split : w.records = (p, wrap32 (spanCount size)) ::ₘ
      records { w with runs := w.runs.erase (p, size) } := by
    conv_lhs => rw [records, ← Multiset.cons_erase held, Multiset.map_cons]
    rfl
  rw [split, Multiset.add_cons] at ledger
  obtain ⟨h, rfl, -⟩ := ledger.larges.recorded _ (Multiset.mem_cons_self ..)
  refine call_spec (((deallocByPtr_run kept ledger settled).weaken ?_).relax ?_)
  · rintro _ s ⟨gone, none, owned⟩
    rw [← add_assoc] at owned
    refine ⟨lost, gone + lostRuns, fun here => ⟨(all here).1, ?_⟩, owned⟩
    rw [none here, (all here).2, add_zero]
  · intro s kept
    exact ⟨lost, lostRuns, all, kept⟩

/-- Every call keeps the ledger. -/
theorem Tracked.step {op : Op} (tracked : Tracked trust whole g w)
    (kept : op.byPtr → whole → trust.tagged ∧ w.sub.clipped = false) (narrow : g.shards < 65536)
    (legal : w.Legal op) (sound : Sound trust g thread op) :
    Tracked trust whole g (w.after thread env op) := by
  obtain ⟨grid⟩ : Nonempty (w.sub.Grid g) := by
    obtain ⟨_, _, _, _, _, ledger, _⟩ := tracked
    exact ⟨ledger.stock.grid⟩
  have pos : 0 < g.shards := grid.numShards ▸ grid.shards
  cases op with
  | allocClass cls => exact tracked.allocClass legal (sound.allowed trivial)
  | alloc size =>
      rw [after, SubHeap.alloc]
      cases found : classFor size with
      | some cls => exact tracked.allocClass (classFor_isClass found) (sound.allowed trivial)
      | none => exact tracked.allocLarge sound.bound sound.exact
  | allocLarge size => exact tracked.allocLarge sound.bound sound.exact
  | refillBatch cls room => exact tracked.refillBatch legal (sound.reduced pos narrow) room
  | deallocClass p cls => exact tracked.free legal fun _ _ _ _ => deallocClass_spec thread
  | deallocClassBatch ptrs cls => exact tracked.deallocClassBatch legal
  | deallocObject p cls => exact tracked.deallocObject (kept trivial) legal
  | deallocRun p size => exact tracked.deallocRun (fun all => (kept trivial all).1) legal
  | deallocForeign p =>
      have none : w.sub.spans.lookup p = none := by
        rw [SpanTable.lookup, show w.sub.spans.indexOf p = none from legal, Option.bind_none]
      rw [after, call, deallocByPtr_none none]
      exact tracked
  | reclaimEmptySpans maxPerLock =>
      obtain ⟨lost, lostRuns, all, owned⟩ := tracked
      exact call_spec ((((reclaimEmptySpans_kept maxPerLock).start owned).weaken
        fun _ s owned => ⟨lost, lostRuns, all, owned⟩).relax fun s owned => ⟨lost, lostRuns, all, owned⟩)
  | rebalanceCapacity cpu cls count =>
      obtain ⟨lost, lostRuns, all, W, owned⟩ := tracked
      have inside : cpu < g.cpus := grid.numCpus ▸ legal
      rw [after]
      exact call_spec (((rebalanceCapacity_spec inside count).start owned).weaken
        fun _ s owned => .of_owned all owned)

end World

theorem clampShards_lt (n : Nat) : clampShards n < 65536 := by
  unfold clampShards maxShards
  omega

theorem Config.shards_lt (c : Config) : c.shards < 65536 := by
  rw [shards]
  cases c.numShards with
  | none => exact clampShards_lt _
  | some n => exact clampShards_lt n

namespace World

variable {trust : Trust} {whole : Prop} {w : World} {c : Config} {admitted : Nat → Op → Prop}
  {uses : Nat → Prop}

theorem start_tracked (mapped : c.Mapped) : Tracked trust whole (c.geometry uses) (start c) := by
  refine ⟨0, 0, fun _ => ⟨rfl, rfl⟩, [], fun _ => .fresh, ?_, nofun⟩
  simpa [start, records] using c.ledger mapped trust uses

/-- The ledger holds in every world of a run. -/
theorem Reached.tracked (mapped : c.Mapped)
    (sound : ∀ thread op, admitted thread op → Sound trust (c.geometry uses) thread op)
    (reached : Reached c admitted w) : Tracked trust False (c.geometry uses) w := by
  apply reached.invariant
  · rintro _ rfl
    exact start_tracked mapped
  · rintro w _ tracked ⟨thread, env, op, legal, allowed⟩
    exact tracked.step (fun _ => nofun) c.shards_lt legal (sound thread op allowed)

/-- In a whole run it has nothing outside but what callers hold, once tags are relied on. -/
theorem ReachedWhole.tracked (mapped : c.Mapped)
    (sound : ∀ thread op, admitted thread op → Sound trust (c.geometry uses) thread op)
    (reached : ReachedWhole c admitted w) :
    Tracked trust trust.tagged (c.geometry uses) w ∧ w.sub.clipped = false := by
  refine reached.invariant (I := fun w => Tracked trust trust.tagged (c.geometry uses) w ∧
    w.sub.clipped = false) ?_ ?_
  · rintro _ rfl
    exact ⟨start_tracked mapped, rfl⟩
  · rintro w _ ⟨tracked, unclipped⟩ ⟨⟨thread, env, op, legal, allowed⟩, still⟩
    exact ⟨tracked.step (fun _ on => ⟨on, unclipped⟩) c.shards_lt legal (sound thread op allowed), still⟩

theorem ReachedWhole.reached (reached : ReachedWhole c admitted w) : Reached c admitted w := by
  induction reached with
  | start initial => exact .start initial
  | next _ taken ih => exact .next ih taken.1

/-- The runs callers hold after a call are old, or of the size it asked for. -/
theorem after_runs {op : Op} {thread : Nat} {env : List Turn} {x : Nat × Nat}
    (held : x ∈ (w.after thread env op).runs) : x ∈ w.runs ∨ x.2 = op.size := by
  have kept : ∀ {α : Type} {v : World} {m : Prog Turn SubHeap α} {got : α → World → World},
      (∀ a s, x ∈ (got a { v with sub := s }).runs → x ∈ w.runs ∨ x.2 = op.size) →
      (x ∈ v.runs → x ∈ w.runs) → x ∈ (v.call m env got).runs → x ∈ w.runs ∨ x.2 = op.size := by
    intro α v m got answered panicked held
    unfold call at held
    split at held
    · exact answered _ _ held
    · exact .inl (panicked held)
  have gained : ∀ (r : Option Nat) (s : SubHeap), x ∈ (gainRun op.size r { w with sub := s }).runs →
      x ∈ w.runs ∨ x.2 = op.size := by
    intro r s held
    cases r with
    | none => exact .inl (by simpa [gainRun] using held)
    | some p =>
        simp only [gainRun, Option.toList_some, List.map_singleton, Multiset.coe_singleton,
          Multiset.mem_add, Multiset.mem_singleton] at held
        rcases held with rfl | old
        · exact .inr rfl
        · exact .inl old
  cases op with
  | alloc size =>
      rw [after] at held
      cases found : classFor size with
      | some cls =>
          rw [found] at held
          exact kept (fun _ _ => .inl) id held
      | none =>
          rw [found] at held
          exact kept gained id held
  | allocLarge size => exact kept gained id held
  | deallocRun p size =>
      rw [after] at held
      exact kept (fun _ _ old => .inl (Multiset.mem_of_mem_erase old)) Multiset.mem_of_mem_erase held
  | _ =>
      rw [after] at held
      refine kept (fun _ _ old => ?_) (fun old => ?_) held
      · exact .inl old
      · exact old

/-- Callers hold runs of admitted sizes. -/
theorem Reached.sizes (reached : Reached c admitted w) {x : Nat × Nat} (held : x ∈ w.runs) :
    ∃ thread op, admitted thread op ∧ x.2 = op.size := by
  induction reached with
  | start initial =>
      rw [initial] at held
      simp [start] at held
  | next _ taken ih =>
      obtain ⟨thread, env, op, legal, allowed⟩ := taken
      rcases after_runs held with old | new
      · exact ih old
      · exact ⟨thread, op, allowed, new⟩

theorem Reached.call (reached : Reached c admitted w) (thread : Nat) (env : List Turn) (op : Op)
    (legal : w.Legal op) (allowed : admitted thread op) : Reached c admitted (w.after thread env op) :=
  .next reached (.call thread env op legal allowed)

theorem ReachedWhole.call (reached : ReachedWhole c admitted w) (thread : Nat) (env : List Turn)
    (op : Op) (legal : w.Legal op) (allowed : admitted thread op)
    (whole : (w.after thread env op).sub.clipped = false) :
    ReachedWhole c admitted (w.after thread env op) :=
  .next reached ⟨.call thread env op legal allowed, whole⟩

end World

end SubHeap

end Toccata
