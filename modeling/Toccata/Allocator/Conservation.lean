import Toccata.Allocator.Classes

/-! # Conservation in the global allocator

Between calls every slot of a carved span is in one place: a bitmap, a per-CPU stack, a
magazine of a thread's cached `Tls`, or a block of the application; and every span below
the cursor is on a list, in the pool or in a run some block holds. This is so as long as
no magazine is dropped with objects in it, and the one place where that happens is a
small call on a transient `Tls`: nothing flushes what the call leaves there.
-/

namespace Toccata

open Foundations SizeClass SubHeap Global
open SubHeap.World (fiveSpans fiveSpans_mapped)

namespace SubHeap

/-- Every span below the cursor is in a group on a list, in the pool, or in a run on
    record. -/
def Covered (s : SubHeap) : Prop :=
  ∃ F, s.large.pool.Represents (max s.spans.numSpans 1) F ∧
    ∀ k, s.arena.base + (k + 1) * spanBytes ≤ s.arena.cursor →
      (∃ sh cls h, sh < s.numShards ∧ s.OnList sh cls h ∧ h ≤ k ∧ k < h + groupSpans (sizeOfClass cls)) ∨
      k ∈ F ∨ ∃ h, h ≤ k ∧ k < h + s.large.runSpans.cell h

theorem Accounted.covered {g : Geometry} {H L : Multiset (Nat × Nat)} {s : SubHeap}
    (held : Accounted g H L s) : s.Covered := by
  obtain ⟨role, ledger, settled⟩ := held.owned
  refine ⟨_, ledger.stock.pool (ledger.healthy Trust.tags_tagged held.whole), fun k below => ?_⟩
  rw [ledger.stock.grid.arena] at below
  cases here : role k with
  | fresh => exact (ledger.stock.carved k below here).elim
  | claimed => exact (settled k here).elim
  | pooled => exact .inr (.inl here)
  | large h => exact .inr (.inr ⟨h, ledger.cells.large k h here⟩)
  | loose h =>
      obtain ⟨x, member, -⟩ := ledger.loose.known k h here
      cases member
  | active h cls sh =>
      obtain ⟨-, inside, -, within, group⟩ := ledger.cells.groups k h cls sh here
      have head := group h le_rfl (by omega)
      exact .inl ⟨sh, cls, h, inside, (ledger.onList_iff inside).mpr head, within⟩

end SubHeap

/-! ## Calls that leave the magazines alone -/

namespace Cached

variable {l : Layout} {P : Nat → Prop} {thread : Nat}

theorem allocLayout_confined (plain : l.small = false) : Moves (Confined P) (allocLayout l thread) := by
  unfold allocLayout
  rw [plain, if_neg Bool.false_ne_true]
  refine .ite (.ite (.ret _) (lift_confined _)) ?_
  cases alignedClass l.need l.align with
  | some cls => exact lift_confined _
  | none => exact lift_confined _

/-- The same magazines hold the same. -/
theorem Confined.contents {s s' : Cached} (same : Confined (fun _ => False) s s') :
    s'.cache.contents = s.cache.contents := by
  unfold ThreadCache.contents
  apply Finset.sum_congr rfl
  intro cls _
  rw [same cls id]

end Cached

namespace Process

variable {c : Config} {p p' : Process} {thread : Nat} {T : Finset Nat} {α : Type}

/-- A small call on a transient `Tls`. -/
def abandons (p : Process) (thread : Nat) : Call → Prop
  | .alloc calloc l | .dealloc calloc _ l => l.size ≠ 0 ∧ l.small = true ∧ p.transient thread calloc = true
  | _ => False

/-- A slot of a listed span is in one place, counting the magazines of the threads that
    have some; no span is lost, and every run on record belongs to a block. -/
structure Conserved (p : Process) : Prop where
  slots : ∃ T : Finset Nat, (∀ t ∉ T, (p.tls t).contents = 0) ∧
    ∀ sh cls k i, sh < p.sub.numShards → p.sub.OnList sh cls k → i < slotsPerSpan (sizeOfClass cls) →
      (p.sub.bitmaps.allocBit k i).toNat + (p.sub.bitmaps.freeBit k i).toNat +
        (p.sub.slab.cached cls).count (p.sub.arena.base + k * spanBytes + i * sizeOfClass cls) +
        (p.cached T).count (p.sub.arena.base + k * spanBytes + i * sizeOfClass cls, cls) +
        p.objects.count (p.sub.arena.base + k * spanBytes + i * sizeOfClass cls, cls) = 1
  spans : p.sub.Covered
  runs : ∀ h, p.sub.large.runSpans.cell h ≠ 0 →
    (p.sub.arena.base + h * spanBytes, p.sub.large.runSpans.cell h) ∈ p.records

theorem cached_eq {T' : Finset Nat} (outside : ∀ t ∉ T, (p.tls t).contents = 0)
    (outside' : ∀ t ∉ T', (p.tls t).contents = 0) : p.cached T = p.cached T' := by
  unfold cached
  rw [Finset.sum_subset Finset.subset_union_left fun t _ away => outside t away,
    Finset.sum_subset Finset.subset_union_right fun t _ away => outside' t away]

/-- Nothing is lost but what was dropped. -/
theorem Stands.conserved_iff (stands : Stands c T p) : p.Conserved ↔ p.dropped = 0 := by
  obtain ⟨role, ledger, settled⟩ := stands.books.owned
  have grid := ledger.stock.grid
  constructor
  · intro conserved
    obtain ⟨T', outside, once⟩ := conserved.slots
    rw [cached_eq outside stands.outside] at once
    rw [Multiset.eq_zero_iff_forall_notMem]
    rintro ⟨q, cls⟩ lost
    obtain ⟨k, sh, i, active, slot, rfl⟩ := ledger.slots.outside cls q (.inr (by
      simp only [Multiset.mem_add]
      exact .inl (.inl lost)))
    have inside := (ledger.cells.groups k k cls sh active).2.1
    have here := once sh cls k i inside ((ledger.onList_iff inside).mpr active) slot
    have all := ledger.slots.once k cls sh i active slot
    have some := Multiset.count_pos.mpr lost
    rw [Multiset.count_add, Multiset.count_add] at all
    rw [Geometry.slotAddr] at all some
    rw [grid.arena] at here
    omega
  · intro none
    refine ⟨⟨T, stands.outside, fun sh cls k i inside listed slot => ?_⟩, stands.books.covered, ?_⟩
    · have all := ledger.slots.once k cls sh i ((ledger.onList_iff inside).mp listed) slot
      rw [none, zero_add, Multiset.count_add, Geometry.slotAddr, ← grid.arena] at all
      omega
    · rw [grid.arena]
      exact stands.books.runs

/-! ## Runs -/

theorem withTls_dropped {calloc : Bool} {m : Prog Turn Cached α} {env : List Turn}
    (kept : p.transient thread calloc = true → Moves (Cached.Confined fun _ => False) m) :
    (p.withTls thread calloc m env).2.dropped = p.dropped := by
  by_cases alive : p.tls thread = .exited
  · rw [withTls, alive]
  · rcases out : m ⟨p.sub, (p.tls thread).cache⟩ env with ⟨r, s, env'⟩
    rw [withTls_eq alive out]
    cases short : p.transient thread calloc with
    | false => rfl
    | true =>
        have same := kept short ⟨p.sub, (p.tls thread).cache⟩ env
        rw [out] at same
        show s.cache.contents + p.dropped = p.dropped
        rw [same.contents]
        exact (congrArg (· + p.dropped) (transient_empty short)).trans (zero_add _)

/-- A call drops nothing, unless it is a small one on a transient `Tls`. -/
theorem Stands.undropped {env : List Turn} {call : Call} (stands : Stands c T p) (member : thread ∈ T)
    (kept : ¬ p.abandons thread call) (ran : p.after thread env call = some p')
    (whole : p'.sub.clipped = false) : p'.dropped = p.dropped := by
  cases call with
  | alloc calloc l =>
      rw [Process.after, Process.alloc] at ran
      by_cases sized : l.size = 0
      · rw [if_pos sized] at ran
        cases ran
        rfl
      · rw [if_neg sized] at ran
        have same : (p.withTls thread calloc (Cached.allocLayout l thread) env).2.dropped = p.dropped := by
          apply withTls_dropped
          intro short
          apply Cached.allocLayout_confined
          exact Bool.eq_false_iff.mpr fun small => kept ⟨sized, small, short⟩
        rcases out : p.withTls thread calloc (Cached.allocLayout l thread) env with ⟨_ | _ | ptr, p₁⟩ <;>
          rw [out] at ran same <;> cases ran
        exact same
  | dealloc calloc ptr l =>
      rw [Process.after, Process.dealloc] at ran
      by_cases sized : l.size = 0
      · rw [if_pos sized] at ran
        cases ran
        rfl
      · rw [if_neg sized] at ran
        have same : (p.withTls thread calloc (Cached.deallocLayout ptr l thread) env).2.dropped = p.dropped := by
          apply withTls_dropped
          intro short
          have plain : l.small = false := Bool.eq_false_iff.mpr fun small => kept ⟨sized, small, short⟩
          intro s env cls _
          exact Cached.deallocLayout_confined s env cls fun own => by
            rw [plain] at own
            cases own.1
        rcases out : p.withTls thread calloc (Cached.deallocLayout ptr l thread) env with ⟨_ | _, p₁⟩ <;>
          rw [out] at ran same <;> cases ran
        exact same
  | exit =>
      rw [Process.after, Process.exit] at ran
      cases here : p.tls thread with
      | untouched | exited =>
          rw [here] at ran
          cases ran
          rfl
      | cached cache =>
          rw [here] at ran
          dsimp only at ran
          rcases out : Cached.flushAll thread ⟨p.sub, cache⟩ env with ⟨_ | _, s, env'⟩ <;>
            rw [out] at ran <;> cases ran
          obtain ⟨X, before⟩ := p.cached_others member
          show s.cache.contents + p.dropped = p.dropped
          rw [(stands.flushed here out whole before).1, zero_add]
  | sweep maxPerLock =>
      rw [Process.after] at ran
      rcases out : SubHeap.reclaimEmptySpans maxPerLock p.sub env with ⟨_ | n, s, env'⟩ <;>
        rw [out] at ran <;> cases ran
      rfl

theorem Reached.undropped (mapped : c.Mapped)
    (reached : Reached c (fun p t call => call.small ∧ ¬ p.abandons t call) p) : p.dropped = 0 := by
  induction reached with
  | start initial =>
      subst initial
      rfl
  | next before taken ih =>
      obtain ⟨T, stands⟩ := Reached.stands mapped (fun _ _ _ allowed => allowed.1) before
      obtain ⟨thread, env, call, -, allowed, ran, whole⟩ := taken
      rw [(stands.widen thread).undropped (Finset.mem_insert_self ..) allowed.2 ran whole, ih]

/-- No object becomes unreachable in a run without small calls on a transient `Tls`. -/
theorem nothing_lost (mapped : c.Mapped)
    (reached : Reached c (fun p t call => call.small ∧ ¬ p.abandons t call) p) : p.Conserved := by
  obtain ⟨T, stands⟩ := reached.stands mapped fun _ _ _ allowed => allowed.1
  exact stands.conserved_iff.mpr (reached.undropped mapped)

theorem nothing_lost_served : served.blocks = {(8192, ⟨2048, 8⟩)} ∧ served.Conserved :=
  ⟨served_run.2.2, nothing_lost fiveSpans_mapped
    (served_reached _ ⟨show spanCount 2048 < 2 ^ 32 by decide, nofun⟩)⟩

/-- The first call of a thread for which `calloc` fails: a batch is taken, one object
    of it handed out. -/
def abandoned : Process :=
  ((start fiveSpans).after 0 [] (.alloc false ⟨2048, 8⟩)).getD (start fiveSpans)

theorem abandoned_run : (((start fiveSpans).after 0 [] (.alloc false ⟨2048, 8⟩)).isSome = true ∧
    abandoned.sub.clipped = false) ∧ abandoned.dropped.card = 31 := by
  decide +kernel

attribute [irreducible] abandoned

theorem transient_loses_batch : Reached fiveSpans (fun _ _ call => call.small) abandoned ∧
    abandoned.dropped.card = 31 ∧ ¬ abandoned.Conserved := by
  obtain ⟨⟨returns, whole⟩, lost⟩ := abandoned_run
  have started : Reached fiveSpans (fun _ _ call => call.small) (start fiveSpans) := .start rfl
  have reached : Reached fiveSpans (fun _ _ call => call.small) abandoned := by
    unfold abandoned at whole ⊢
    exact started.call 0 [] (.alloc false ⟨2048, 8⟩) nofun (show spanCount 2048 < 2 ^ 32 by decide)
      returns whole
  obtain ⟨T, stands⟩ := reached.stands fiveSpans_mapped fun _ _ _ small => small
  refine ⟨reached, lost, fun conserved => ?_⟩
  rw [stands.conserved_iff.mp conserved] at lost
  cases lost

end Process

end Toccata
