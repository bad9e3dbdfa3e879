import Toccata.Magazine.Conservation
import Toccata.SubHeap.Interleaving

/-! # Threads with caches

Any number of threads, each with its cache, over one sub-heap whose operations
interleave. A hit and a push that fits touch the thread's own magazines only. A miss is
one batch, a full magazine gives its bottom slots to a batched free that takes its steps
among the others', and a flush frees one object after the other. What the sub-heap takes
to be outside is then in an application's hands or in a magazine, and once at that.
-/

namespace Toccata

open Foundations SizeClass SubHeap

/-- A machine whose threads have caches in front. Of what is outside, `blocks` is what
    the application holds. -/
structure Threads extends Machine where
  cache : Nat → ThreadCache
  blocks : Multiset (Nat × Nat)

namespace Threads

/-- No operation of the thread is under way. -/
def Idle (x : Threads) (thread : Nat) : Prop := ∀ other ∈ x.tasks, other.thread ≠ thread

/-- The objects that a step of an operation hands over. -/
def gained (x : Threads) (task : Task) (env : List Turn) : Multiset (Nat × Nat) :=
  match task.pc.run .among task.thread x.sub env with
  | (some (hand, _), _) => hand.1
  | (none, _) => 0

/-- The cache of a thread whose magazine was full, after a push: the bottom slots are
    gone, the rest has moved down. -/
def overflowed (cache : ThreadCache) (cls p : Nat) : ThreadCache :=
  ⟨cache.mags.put cls ((cache.mags.cell cls).drained.pushed p)⟩

/-- What the application and the threads do, and the steps of operations, which let no hint
    mislead. -/
inductive Step (x : Threads) : Threads → Prop where
  | pop (thread cls p : Nat) (env env' : List Turn) (cache : ThreadCache) : x.Idle thread → IsClass cls →
      Cached.tryPop cls ⟨x.sub, x.cache thread⟩ env = (some (some p), ⟨x.sub, cache⟩, env') →
      Step x ⟨x.toMachine, Function.update x.cache thread cache, (p, cls) ::ₘ x.blocks⟩
  | push (thread cls p : Nat) (env env' : List Turn) (cache : ThreadCache) : x.Idle thread →
      (p, cls) ∈ x.blocks →
      Cached.tryPush p cls ⟨x.sub, x.cache thread⟩ env = (some true, ⟨x.sub, cache⟩, env') →
      Step x ⟨x.toMachine, Function.update x.cache thread cache, x.blocks.erase (p, cls)⟩
  | refill (thread cls : Nat) (env env' : List Turn) (objs : List Nat) (r : Option Nat) (sub : SubHeap)
      (cache : ThreadCache) : x.Idle thread → IsClass cls → ((x.cache thread).mags.cell cls).len = 0 →
      SubHeap.refillBatch .among cls thread magCap x.sub env = (some objs, sub, env') →
      Machine.Careful x.sub ⟨thread, .refillBatch cls magCap⟩ sub →
      Cached.refill .among cls thread ⟨x.sub, x.cache thread⟩ env = (some r, ⟨sub, cache⟩, env') →
      Step x ⟨{ x.toMachine with sub, objects := ofClass cls objs + x.objects },
        Function.update x.cache thread cache, handed cls r + x.blocks⟩
  | drain (thread cls p : Nat) : x.Idle thread → (p, cls) ∈ x.blocks →
      ((x.cache thread).mags.cell cls).len = magCap →
      Step x ⟨x.toMachine.begin
          ⟨thread, .batch cls (((x.cache thread).mags.cell cls).ptrs.front Cached.dropN) .none⟩,
        Function.update x.cache thread (overflowed (x.cache thread) cls p), x.blocks.erase (p, cls)⟩
  | flush (thread cls p : Nat) (env env' : List Turn) (cache : ThreadCache) : x.Idle thread → IsClass cls →
      Cached.tryPop cls ⟨x.sub, x.cache thread⟩ env = (some (some p), ⟨x.sub, cache⟩, env') →
      Step x ⟨x.toMachine.begin ⟨thread, .free cls p⟩, Function.update x.cache thread cache, x.blocks⟩
  | enter (task : Task) : x.Idle task.thread → x.Enters task.pc → (Machine.given task.pc).1 ≤ x.blocks →
      Step x ⟨x.toMachine.begin task, x.cache, x.blocks - (Machine.given task.pc).1⟩
  | advance (before : List Task) (task : Task) (behind : List Task) (env : List Turn) :
      x.tasks = before ++ task :: behind →
      Machine.Careful x.sub task (x.toMachine.advance before task behind env).sub →
      Step x ⟨x.toMachine.advance before task behind env, x.cache, x.gained task env + x.blocks⟩

def start (c : Config) : Threads := ⟨Machine.start c, fun _ => .new, 0⟩

def Reached (c : Config) : Threads → Prop := Reachable (· = start c) Step

/-! ## Whose objects are outside -/

/-- What the magazines of some threads hold. -/
def stored (cache : Nat → ThreadCache) (T : Finset Nat) : Multiset (Nat × Nat) :=
  ∑ t ∈ T, (cache t).contents

/-- The machine is one of a run of its own, and what is outside of it is a block or in a
    magazine of one of finitely many threads. -/
structure Joined (c : Config) (x : Threads) : Prop where
  machine : Machine.Reached c Machine.Careful x.toMachine
  sound : ∀ t, (x.cache t).Sound
  owned : ∃ T : Finset Nat, (∀ t ∉ T, (x.cache t).contents = 0) ∧ x.objects = x.blocks + stored x.cache T

variable {c : Config} {x y : Threads} {thread cls p : Nat} {T : Finset Nat} {cache : ThreadCache}

theorem stored_update (caches : Nat → ThreadCache) (member : thread ∈ T) (cache : ThreadCache) :
    stored (Function.update caches thread cache) T + (caches thread).contents =
      stored caches T + cache.contents := by
  have same : ∀ t ∈ T.erase thread, (Function.update caches thread cache t).contents = (caches t).contents := by
    intro t other
    rw [Function.update_of_ne (Finset.mem_erase.mp other).1]
  rw [stored, stored, ← Finset.add_sum_erase _ _ member, ← Finset.add_sum_erase _ _ member,
    Finset.sum_congr rfl same, Function.update_self]
  abel

/-- The same with one more thread that may have something in its magazines. -/
theorem Joined.widen (joined : Joined c x) (thread : Nat) :
    ∃ T : Finset Nat, thread ∈ T ∧ (∀ t ∉ T, (x.cache t).contents = 0) ∧
      x.objects = x.blocks + stored x.cache T := by
  obtain ⟨T, outside, split⟩ := joined.owned
  refine ⟨insert thread T, Finset.mem_insert_self .., fun t away => outside t ?_, ?_⟩
  · exact fun member => away (Finset.mem_insert_of_mem member)
  · rw [split, stored, stored]
    congr 1
    exact Finset.sum_subset (Finset.subset_insert ..) fun t _ away => outside t away

/-- One thread's cache changes, and with it who holds what. -/
theorem Joined.renew (joined : Joined c x) {m : Machine} {blocks : Multiset (Nat × Nat)} (thread : Nat)
    (machine : Machine.Reached c Machine.Careful m) (sound : cache.Sound)
    (balance : m.objects + (x.blocks + (x.cache thread).contents) =
      x.objects + (blocks + cache.contents)) :
    Joined c ⟨m, Function.update x.cache thread cache, blocks⟩ := by
  obtain ⟨T, member, outside, split⟩ := joined.widen thread
  refine ⟨machine, fun t => ?_, T, fun t away => ?_, ?_⟩
  · by_cases same : t = thread
    · subst same
      simpa only [Function.update_self] using sound
    · simpa only [Function.update_of_ne same] using joined.sound t
  · have other : t ≠ thread := fun same => away (same ▸ member)
    simpa only [Function.update_of_ne other] using outside t away
  · have exchange := stored_update x.cache member cache
    apply add_right_cancel (b := x.blocks + (x.cache thread).contents)
    calc m.objects + (x.blocks + (x.cache thread).contents)
        = x.blocks + stored x.cache T + (blocks + cache.contents) := by rw [balance, split]
      _ = x.blocks + blocks + (stored x.cache T + cache.contents) := by abel
      _ = x.blocks + blocks + (stored (Function.update x.cache thread cache) T +
            (x.cache thread).contents) := by rw [exchange]
      _ = blocks + stored (Function.update x.cache thread cache) T +
            (x.blocks + (x.cache thread).contents) := by abel

/-! ## Steps -/

/-- What is taken off the top of a magazine. -/
theorem popped_contents {s : Cached} {env env' : List Turn} {sub : SubHeap} (sound : s.cache.Sound)
    (inside : cls < numClasses)
    (out : Cached.tryPop cls s env = (some (some p), ⟨sub, cache⟩, env')) :
    cache.Sound ∧ (p, cls) ::ₘ cache.contents = s.cache.contents := by
  have contents := Cached.pop_contents s inside
  rw [Cached.tryPop_eq sound inside] at out
  injection out with top rest
  injection top with top
  injection rest with after
  rw [top, after] at contents
  have kept : (s.put cls (s.mag cls).popped).cache.Sound := sound.put (Cached.fine sound cls).popped cls
  rw [after] at kept
  exact ⟨kept, contents⟩

theorem pushed_contents {s : Cached} {env env' : List Turn} {sub : SubHeap} (sound : s.cache.Sound)
    (inside : cls < numClasses)
    (out : Cached.tryPush p cls s env = (some true, ⟨sub, cache⟩, env')) :
    cache.Sound ∧ cache.contents = (p, cls) ::ₘ s.cache.contents := by
  have contents := Cached.push_contents s inside p
  rw [Cached.tryPush_eq sound inside] at out
  split at out
  · rename_i room
    injection out with _ rest
    injection rest with after
    rw [after] at contents
    have kept : (s.put cls ((s.mag cls).pushed p)).cache.Sound :=
      sound.put ((Cached.fine sound cls).pushed room p) cls
    rw [after] at kept
    exact ⟨kept, contents⟩
  · injection out with stored
    injection stored with stored
    cases stored

/-- A batch goes to the magazine, but for the object handed out. -/
theorem refilled_contents {s : Cached} {env env' env'' : List Turn} {objs : List Nat} {r : Option Nat}
    {sub sub' : SubHeap} (sound : s.cache.Sound) (inside : cls < numClasses) (missed : (s.mag cls).len = 0)
    (batch : SubHeap.refillBatch .among cls thread magCap s.sub env = (some objs, sub, env'))
    (out : Cached.refill .among cls thread s env = (some r, ⟨sub', cache⟩, env'')) :
    cache.Sound ∧ handed cls r + cache.contents = ofClass cls objs + s.cache.contents := by
  obtain ⟨refilled, filled, fine⟩ := Cached.refill_eq sound inside missed batch
  have contents := Cached.refill_contents s inside missed filled
  have kept : (s.put cls ((s.mag cls).loaded objs).popped).cache.Sound := sound.put fine cls
  generalize ((s.mag cls).loaded objs).popped = m at refilled contents kept
  rw [refilled] at out
  injection out with first rest
  injection first with first
  injection rest with after
  have same : (s.put cls m).cache = cache := congrArg Cached.cache after
  rw [same] at contents kept
  rw [← first]
  exact ⟨kept, contents⟩

/-- The bottom of a full magazine goes back, what is pushed comes in. -/
theorem overflowed_contents {s : Cached} (sound : s.cache.Sound) (inside : cls < numClasses)
    (full : (s.mag cls).len = magCap) (p : Nat) :
    (overflowed s.cache cls p).Sound ∧
      ofClass cls ((s.mag cls).ptrs.front Cached.dropN) + (overflowed s.cache cls p).contents =
        (p, cls) ::ₘ s.cache.contents ∧
      ofClass cls ((s.mag cls).ptrs.front Cached.dropN) ≤ s.cache.contents := by
  have room : (s.mag cls).drained.len < magCap := by
    simp only [Magazine.drained, full]
    decide
  have bottom : (s.mag cls).ptrs.front Cached.dropN = (s.mag cls).slots.take Cached.dropN := by
    rw [Magazine.slots, Slice.front_take _ (by rw [full]; decide)]
  have part : ofClass cls (s.mag cls).slots ≤ s.cache.contents := by
    rw [ThreadCache.contents, ← Finset.add_sum_erase _ _ (Finset.mem_range.mpr inside)]
    exact Multiset.le_add_right ..
  rw [← (s.mag cls).slots.take_append_drop Cached.dropN, ofClass_append] at part
  rw [bottom]
  exact ⟨sound.put ((Cached.fine sound cls).drained.pushed room p) cls, Cached.drain_contents s inside p,
    (Multiset.le_add_right ..).trans part⟩

theorem Joined.outside_le (joined : Joined c x) (thread : Nat) :
    x.blocks + (x.cache thread).contents ≤ x.objects := by
  obtain ⟨T, member, -, split⟩ := joined.widen thread
  rw [split, stored, ← Finset.add_sum_erase _ _ member]
  exact Multiset.add_le_add_left (Multiset.le_add_right ..)

/-- Blocks are objects of classes that exist. -/
theorem Joined.isClass (mapped : c.Mapped) (joined : Joined c x) (held : (p, cls) ∈ x.blocks) :
    IsClass cls := by
  have inv : Machine.Inv .bare (c.geometry fun _ => True) x.toMachine := joined.machine.inv mapped fun _ _ _ careful _ => careful.thread
  obtain ⟨-, ⟨lost, role, ledger, -⟩, -⟩ := inv
  have member : (p, cls) ∈ x.objects :=
    Multiset.mem_of_le (joined.outside_le 0) (Multiset.mem_add.mpr (.inl held))
  obtain ⟨k, sh, i, active, -⟩ := ledger.slots.outside cls p (.inr (Multiset.mem_add.mpr (.inr member)))
  exact ledger.cells.isClass active

/-- A batch for a miss is an operation of one step. -/
theorem Joined.refilled {room : Nat} {env env' : List Turn} {objs : List Nat} {sub : SubHeap}
    (joined : Joined c x) (idle : x.Idle thread) (isClass : IsClass cls)
    (batch : SubHeap.refillBatch .among cls thread room x.sub env = (some objs, sub, env'))
    (careful : Machine.Careful x.sub ⟨thread, .refillBatch cls room⟩ sub) :
    Machine.Reached c Machine.Careful
      { x.toMachine with sub, objects := ofClass cls objs + x.objects } := by
  have ran : (Pc.refillBatch cls room).run .among thread x.sub env =
      (some (handObjects cls objs, .done), sub, env') := by
    rw [Pc.run, Prog.bind_some batch]
    rfl
  have same : (x.toMachine.begin ⟨thread, .refillBatch cls room⟩).advance []
      ⟨thread, .refillBatch cls room⟩ x.tasks env =
      { x.toMachine with sub, objects := ofClass cls objs + x.objects } := by
    unfold Machine.advance
    simp only [Machine.begin, ran, handObjects, Machine.given, if_true, List.nil_append, Prod.fst_zero,
      Prod.snd_zero, Multiset.sub_zero, Multiset.zero_add]
  rw [← same]
  refine (joined.machine.begin thread (.refillBatch cls room) idle isClass).next
    (.advance [] ⟨thread, .refillBatch cls room⟩ x.tasks env rfl ?_)
  rwa [same]

/-- What is outside stays a block's or a magazine's. -/
theorem Joined.step (mapped : c.Mapped) (joined : Joined c x) (step : Step x y) : Joined c y := by
  cases step with
  | pop thread cls p env env' cache idle isClass out =>
      obtain ⟨sound, contents⟩ := popped_contents (joined.sound thread) isClass.lt out
      refine joined.renew thread joined.machine sound ?_
      rw [← contents, Multiset.cons_add, Multiset.add_cons]
  | push thread cls p env env' cache idle held out =>
      obtain ⟨sound, contents⟩ := pushed_contents (joined.sound thread) (joined.isClass mapped held).lt out
      refine joined.renew thread joined.machine sound ?_
      rw [contents, Multiset.add_cons, ← Multiset.cons_add, Multiset.cons_erase held]
  | refill thread cls env env' objs r sub cache idle isClass missed batch careful out =>
      obtain ⟨sound, contents⟩ := refilled_contents (s := ⟨x.sub, x.cache thread⟩) (joined.sound thread)
        isClass.lt missed batch out
      refine joined.renew thread (joined.refilled idle isClass batch careful) sound ?_
      show ofClass cls objs + x.objects + (x.blocks + (x.cache thread).contents) =
        x.objects + (handed cls r + x.blocks + cache.contents)
      calc ofClass cls objs + x.objects + (x.blocks + (x.cache thread).contents)
          = x.objects + x.blocks + (ofClass cls objs + (x.cache thread).contents) := by abel
        _ = x.objects + x.blocks + (handed cls r + cache.contents) := by rw [contents]
        _ = x.objects + (handed cls r + x.blocks + cache.contents) := by abel
  | drain thread cls p idle held full =>
      obtain ⟨sound, contents, le⟩ := overflowed_contents (s := ⟨x.sub, x.cache thread⟩)
        (joined.sound thread) (joined.isClass mapped held).lt full p
      have inside : ofClass cls (((x.cache thread).mags.cell cls).ptrs.front Cached.dropN) ≤ x.objects :=
        (le.trans (Multiset.le_add_left ..)).trans (joined.outside_le thread)
      refine joined.renew thread (joined.machine.begin thread (.batch cls _ .none) idle ⟨rfl, inside⟩) sound ?_
      have contents : ofClass cls (((x.cache thread).mags.cell cls).ptrs.front Cached.dropN) +
          (overflowed (x.cache thread) cls p).contents = (p, cls) ::ₘ (x.cache thread).contents := contents
      show x.objects - ofClass cls (((x.cache thread).mags.cell cls).ptrs.front Cached.dropN) +
          (x.blocks + (x.cache thread).contents) =
        x.objects + (x.blocks.erase (p, cls) + (overflowed (x.cache thread) cls p).contents)
      generalize ofClass cls (((x.cache thread).mags.cell cls).ptrs.front Cached.dropN) = bottom
        at contents inside ⊢
      obtain ⟨rest, whole⟩ := Multiset.le_iff_exists_add.mp inside
      rw [whole, add_tsub_cancel_left]
      calc rest + (x.blocks + (x.cache thread).contents)
          = rest + ((p, cls) ::ₘ x.blocks.erase (p, cls) + (x.cache thread).contents) := by
            rw [Multiset.cons_erase held]
        _ = rest + x.blocks.erase (p, cls) + (p, cls) ::ₘ (x.cache thread).contents := by
            rw [Multiset.cons_add, Multiset.add_cons, Multiset.add_cons, add_assoc]
        _ = rest + x.blocks.erase (p, cls) + (bottom + (overflowed (x.cache thread) cls p).contents) := by
            rw [contents]
        _ = bottom + rest + (x.blocks.erase (p, cls) + (overflowed (x.cache thread) cls p).contents) := by
            abel
  | flush thread cls p env env' cache idle isClass out =>
      obtain ⟨sound, contents⟩ := popped_contents (joined.sound thread) isClass.lt out
      have le := joined.outside_le thread
      rw [← contents] at le
      have member : (p, cls) ∈ x.objects := Multiset.mem_of_le le (by simp)
      refine joined.renew thread (joined.machine.begin thread (.free cls p) idle member) sound ?_
      show x.objects - {(p, cls)} + (x.blocks + (x.cache thread).contents) = x.objects + (x.blocks + cache.contents)
      rw [← contents, Multiset.add_cons, Multiset.add_cons, ← Multiset.cons_add, Multiset.sub_singleton,
        Multiset.cons_erase member]
  | enter task idle enters le =>
      obtain ⟨T, outside, split⟩ := joined.owned
      refine ⟨joined.machine.begin task.thread task.pc idle enters, joined.sound, T, outside, ?_⟩
      show x.objects - (Machine.given task.pc).1 = _
      rw [split, tsub_add_eq_add_tsub le]
  | advance before task behind env here careful =>
      obtain ⟨T, outside, split⟩ := joined.owned
      refine ⟨joined.machine.next (.advance before task behind env here careful), joined.sound, T, outside, ?_⟩
      unfold Machine.advance gained
      rcases task.pc.run .among task.thread x.sub env with ⟨_ | ⟨hand, pc⟩, s, env'⟩
      · simp only [zero_add]
        exact split
      · simp only [split, add_assoc]

theorem Reached.joined (mapped : c.Mapped) (reached : Reached c x) : Joined c x := by
  apply reached.invariant
  · rintro _ rfl
    refine ⟨.start rfl, fun t => ThreadCache.new_sound, ∅, fun t _ => ThreadCache.new_contents, ?_⟩
    rw [stored, Finset.sum_empty]
    rfl
  · exact fun x y joined step => joined.step mapped step

/-! ## Nothing in two hands -/

theorem Joined.stored_le (joined : Joined c x) (T : Finset Nat) : x.blocks + stored x.cache T ≤ x.objects := by
  obtain ⟨T', outside, split⟩ := joined.owned
  have all : stored x.cache (T ∪ T') = stored x.cache T' :=
    (Finset.sum_subset Finset.subset_union_right fun t _ away => outside t away).symm
  have rest : stored x.cache (T ∪ T') = stored x.cache ((T ∪ T') \ T) + stored x.cache T :=
    (Finset.sum_sdiff Finset.subset_union_left).symm
  rw [split, ← all, rest]
  exact Multiset.add_le_add_left (Multiset.le_add_left ..)

/-- Blocks, objects in the magazines of any threads and objects in the hands of operations
    have disjoint bytes, also from the large runs; and every slot of a listed span is in
    one of the places there are. -/
structure Exclusive (c : Config) (x : Threads) : Prop where
  objects : ∀ (T : Finset Nat) y z,
    {y, z} ≤ Machine.inHand (c.geometry fun _ => True) x.tasks + (x.blocks + stored x.cache T) →
      Apart y.1 (sizeOfClass y.2) z.1 (sizeOfClass z.2)
  runs : ∀ (T : Finset Nat), ∀ y ∈ x.blocks + stored x.cache T, ∀ z ∈ x.runs,
    Apart y.1 (sizeOfClass y.2) z.1 (runBytes z.2)
  slots : ∃ T : Finset Nat, (∀ t ∉ T, (x.cache t).contents = 0) ∧
    ∀ sh cls k i, sh < c.shards → x.sub.OnList sh cls k → i < slotsPerSpan (sizeOfClass cls) →
      (x.sub.bitmaps.allocBit k i).toNat + (x.sub.bitmaps.freeBit k i).toNat +
        (x.sub.slab.cached cls).count (c.arenaBase + k * spanBytes + i * sizeOfClass cls) +
        (Machine.inHand (c.geometry fun _ => True) x.tasks).count
          (c.arenaBase + k * spanBytes + i * sizeOfClass cls, cls) +
        x.blocks.count (c.arenaBase + k * spanBytes + i * sizeOfClass cls, cls) +
        (stored x.cache T).count (c.arenaBase + k * spanBytes + i * sizeOfClass cls, cls) = 1

/-- However threads with caches interleave, no object is in two magazines, in a magazine
    and in use, or in use twice. -/
theorem caches_exclusive (mapped : c.Mapped) (reached : Reached c x) : x.Exclusive c := by
  have joined := reached.joined mapped
  have inv : Machine.Inv .bare (c.geometry fun _ => True) x.toMachine := joined.machine.inv mapped fun _ _ _ careful _ => careful.thread
  have machine := inv.once
  refine ⟨fun T y z both => ?_, fun T y member z run => ?_, ?_⟩
  · exact machine.objects y z (both.trans (Multiset.add_le_add_left (joined.stored_le T)))
  · exact machine.callers.mixed y (Multiset.mem_of_le (joined.stored_le T) member) z run
  · obtain ⟨T, outside, split⟩ := joined.owned
    refine ⟨T, outside, fun sh cls k i inside listed slot => ?_⟩
    have once := machine.slots sh cls k i inside listed slot
    rw [Machine.held, split, Multiset.count_add, Multiset.count_add, ← add_assoc, ← add_assoc] at once
    exact once

/-! ## Two threads, and a batch on its way back -/

def refillOn (x : Threads) (thread cls : Nat) : Threads :=
  match SubHeap.refillBatch .among cls thread magCap x.sub [], Cached.refill .among cls thread ⟨x.sub, x.cache thread⟩ [] with
  | (some objs, sub, _), (some r, s, _) =>
      ⟨{ x.toMachine with sub, objects := ofClass cls objs + x.objects },
        Function.update x.cache thread s.cache, handed cls r + x.blocks⟩
  | _, _ => x

def pushOn (x : Threads) (thread cls p : Nat) : Threads :=
  ⟨x.toMachine, Function.update x.cache thread
      ⟨(x.cache thread).mags.put cls (((x.cache thread).mags.cell cls).pushed p)⟩, x.blocks.erase (p, cls)⟩

def drainOn (x : Threads) (thread cls p : Nat) : Threads :=
  ⟨x.toMachine.begin
      ⟨thread, .batch cls (((x.cache thread).mags.cell cls).ptrs.front Cached.dropN) .none⟩,
    Function.update x.cache thread (overflowed (x.cache thread) cls p), x.blocks.erase (p, cls)⟩

/-- A refill before any hint was stored. -/
theorem Reached.refill (mapped : c.Mapped) (reached : Reached c x)
    (none : ∀ shard cls, x.sub.reuseHint shard cls = noSpan) (small : thread < 65536) (idle : x.Idle thread)
    (isClass : IsClass cls) (missed : ((x.cache thread).mags.cell cls).len = 0) :
    Reached c (x.refillOn thread cls) ∧ ∀ shard cls', (x.refillOn thread cls).sub.reuseHint shard cls' = noSpan := by
  have steady := refillBatch_steady .among cls thread magCap x.sub []
  unfold refillOn
  rcases batch : SubHeap.refillBatch .among cls thread magCap x.sub [] with ⟨_ | objs, sub, env'⟩
  · exact ⟨reached, none⟩
  · obtain ⟨refilled, -⟩ := Cached.refill_eq (s := ⟨x.sub, x.cache thread⟩)
      ((reached.joined mapped).sound thread) isClass.lt missed batch
    rw [refilled]
    rw [batch] at steady
    exact ⟨reached.next (.refill thread cls [] env' objs _ sub _ idle isClass missed batch
      (.unhinted small id none) refilled), Machine.unhinted_steady steady none⟩

theorem Reached.push (mapped : c.Mapped) (reached : Reached c x) (idle : x.Idle thread)
    (held : (p, cls) ∈ x.blocks) (room : ((x.cache thread).mags.cell cls).len < magCap) :
    Reached c (x.pushOn thread cls p) := by
  have joined := reached.joined mapped
  have pushed : Cached.tryPush p cls ⟨x.sub, x.cache thread⟩ [] = _ :=
    Cached.tryPush_eq (joined.sound thread) (joined.isClass mapped held).lt
  rw [if_pos (show (Cached.mag ⟨x.sub, x.cache thread⟩ cls).len < magCap from room)] at pushed
  exact reached.next (.push thread cls p [] [] _ idle held pushed)

theorem Reached.drain (reached : Reached c x) (idle : x.Idle thread) (held : (p, cls) ∈ x.blocks)
    (full : ((x.cache thread).mags.cell cls).len = magCap) : Reached c (x.drainOn thread cls p) :=
  reached.next (.drain thread cls p idle held full)

theorem idle_of_none (none : x.tasks = []) (thread : Nat) : x.Idle thread := by
  rw [Idle, none]
  exact nofun

theorem pushOn_tasks (x : Threads) (thread cls p : Nat) : (x.pushOn thread cls p).tasks = x.tasks := rfl

/-! Two threads fill their magazines. The first frees its own object, and then the other's,
which does not fit. -/

def half : Threads := (start World.fiveSpans).refillOn 0 26

def filled : Threads := half.refillOn 1 26

def pushed : Threads := filled.pushOn 0 26 8192

def crossing : Threads := pushed.drainOn 0 26 73728

theorem crossing_run :
    (half.tasks = [] ∧ ((half.cache 1).mags.cell 26).len = 0) ∧
    (filled.tasks = [] ∧ (8192, 26) ∈ filled.blocks ∧ ((filled.cache 0).mags.cell 26).len < magCap) ∧
    ((73728, 26) ∈ pushed.blocks ∧ ((pushed.cache 0).mags.cell 26).len = magCap) ∧
    crossing.tasks.length = 1 ∧ (stored crossing.cache {0, 1}).card = 9 + 31 := by
  decide +kernel

attribute [irreducible] half filled pushed crossing

theorem crossing_reached : Reached World.fiveSpans crossing := by
  obtain ⟨⟨idle₁, missed⟩, ⟨idle₂, own, room⟩, ⟨other, full⟩, -⟩ := crossing_run
  have started : Reached World.fiveSpans (start World.fiveSpans) := .start rfl
  have first : Reached World.fiveSpans half ∧ ∀ shard cls, half.sub.reuseHint shard cls = noSpan := by
    unfold half
    exact started.refill World.fiveSpans_mapped (fun _ _ => rfl) (by decide) (idle_of_none rfl 0)
      (show IsClass 26 by decide) rfl
  have second : Reached World.fiveSpans filled := by
    unfold filled
    exact (first.1.refill World.fiveSpans_mapped first.2 (by decide) (idle_of_none idle₁ 1)
      (show IsClass 26 by decide) missed).1
  have third : Reached World.fiveSpans pushed := by
    unfold pushed
    exact second.push World.fiveSpans_mapped (idle_of_none idle₂ 0) own room
  have idle₃ : pushed.tasks = [] := by
    unfold pushed
    exact (pushOn_tasks ..).trans idle₂
  unfold crossing
  exact third.drain (idle_of_none idle₃ 0) other full

theorem caches_exclusive_crossing :
    (crossing.tasks.length = 1 ∧ (stored crossing.cache {0, 1}).card = 9 + 31) ∧
      crossing.Exclusive World.fiveSpans :=
  ⟨crossing_run.2.2.2, caches_exclusive World.fiveSpans_mapped crossing_reached⟩

end Threads

end Toccata
