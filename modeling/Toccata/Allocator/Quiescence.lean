import Toccata.Allocator.Conservation
import Toccata.SpanPool.Histories
import Toccata.SubHeap.Hints
import Toccata.SubHeap.Seized

/-! # What comes back

A sweep that takes all it finds leaves in the pool every span below the cursor on which
nothing is out: no object in an application's hands, in a magazine or on a CPU's stack
lies in its group, and no large run covers it. When all of an application's memory is
freed and no cache holds any, that is all there was carved, in one run.
-/

namespace Toccata

open Foundations SizeClass SubHeap Global
open SubHeap.World (fiveSpans fiveSpans_mapped)

namespace SubHeap

variable {g : Geometry} {s s' : SubHeap} {role : Nat → Role} {H L : Multiset (Nat × Nat)}

/-! ## Pinned spans -/

/-- The span is one of `n` from the one that `p` lies in. -/
def From (s : SubHeap) (p n k : Nat) : Prop :=
  (p - s.arena.base) / spanBytes ≤ k ∧ k < (p - s.arena.base) / spanBytes + n

/-- Something out needs the span: an object on a CPU's stack or `out` that lies in its
    group, or a large run over it. -/
def Pinned (s : SubHeap) (out : Nat × Nat → Prop) (L : Multiset (Nat × Nat)) (k : Nat) : Prop :=
  (∃ p cls, IsClass cls ∧ (p ∈ s.slab.cached cls ∨ out (p, cls)) ∧
    s.From p (groupSpans (sizeOfClass cls)) k) ∨ ∃ y ∈ L, s.From y.1 y.2 k

/-- A slot starts in the first span of its group. -/
theorem slotAddr_span {k i cls : Nat} (slot : i < slotsPerSpan (sizeOfClass cls)) :
    (g.slotAddr k i cls - g.base) / spanBytes = k := by
  have low : i * sizeOfClass cls < spanBytes := by
    unfold slotsPerSpan at slot
    rcases Nat.eq_zero_or_pos i with rfl | pos
    · rw [Nat.zero_mul]
      decide
    · have inside : i + 1 ≤ spanBytes / sizeOfClass cls := by omega
      have fits := (Nat.mul_le_mul_right _ inside).trans (Nat.div_mul_le_self ..)
      have some : 0 < sizeOfClass cls := by
        by_contra zero
        rw [Nat.eq_zero_of_not_pos zero, Nat.div_zero] at inside
        omega
      rw [Nat.succ_mul] at fits
      omega
  rw [Geometry.slotAddr, Nat.add_assoc, Nat.add_sub_cancel_left, Nat.mul_comm, Nat.mul_add_div (by decide),
    Nat.div_eq_of_lt low, Nat.add_zero]

theorem Ledger.object_pins (ledger : s.Ledger .tags g role H L []) {p cls k : Nat}
    (out : p ∈ s.slab.cached cls ∨ (p, cls) ∈ H) (here : s.From p (groupSpans (sizeOfClass cls)) k) :
    ∃ h sh, role k = .active h cls sh := by
  obtain ⟨h, sh, i, active, slot, rfl⟩ := ledger.slots.outside cls p out
  rw [From, ledger.stock.grid.arena, slotAddr_span slot] at here
  exact ⟨h, sh, (ledger.cells.groups h h cls sh active).2.2.2.2 k here.1 here.2⟩

theorem Ledger.run_pins (ledger : s.Ledger .tags g role H L []) {y : Nat × Nat} {k : Nat} (out : y ∈ L)
    (here : s.From y.1 y.2 k) : ∃ h, role k = .large h := by
  obtain ⟨h, place, some, count⟩ := ledger.larges.recorded y out
  rw [From, ledger.stock.grid.arena, place, Nat.add_sub_cancel_left, Nat.mul_div_cancel _ (by decide),
    ← count] at here
  exact ⟨h, (ledger.cells.runs h (by rwa [count])).2.1 k here.1 here.2⟩

/-- Where no list has an empty span, the pool has the spans that nothing pins. -/
theorem Ledger.pooled_iff (ledger : s.Ledger .tags g role H L []) (settled : ∀ k, role k ≠ .claimed)
    (whole : s.clipped = false)
    (runs : ∀ h, s.large.runSpans.cell h ≠ 0 → (g.base + h * spanBytes, s.large.runSpans.cell h) ∈ L)
    (clean : ∀ sh < s.numShards, ∀ cls, IsClass cls → s.Clean role cls sh) (k : Nat) :
    role k = .pooled ↔
      s.arena.base + (k + 1) * spanBytes ≤ s.arena.cursor ∧ ¬ s.Pinned (· ∈ H) L k := by
  have base : s.arena.base = g.base := ledger.stock.grid.arena
  constructor
  · intro pooled
    refine ⟨?_, ?_⟩
    · rw [base]
      apply ledger.below_cursor whole
      simp [pooled]
    · rintro (⟨p, cls, -, out, here⟩ | ⟨y, out, here⟩)
      · obtain ⟨h, sh, active⟩ := ledger.object_pins out here
        simp [pooled] at active
      · obtain ⟨h, large⟩ := ledger.run_pins out here
        simp [pooled] at large
  · rintro ⟨below, free⟩
    rw [base] at below
    cases here : role k with
    | pooled => rfl
    | fresh => exact (ledger.stock.carved k below here).elim
    | claimed => exact (settled k here).elim
    | loose h =>
        obtain ⟨r, member, -⟩ := ledger.loose.known k h here
        cases member
    | large h =>
        have inside := ledger.cells.large k h here
        have recorded : s.large.runSpans.cell h ≠ 0 := by omega
        refine (free (.inr ⟨_, runs h recorded, ?_⟩)).elim
        rw [From, base, Nat.add_sub_cancel_left, Nat.mul_div_cancel _ (by decide)]
        exact inside
    | active h cls sh =>
        obtain ⟨isClass, inside, -, within, group⟩ := ledger.cells.groups k h cls sh here
        have head : role h = .active h cls sh := group h le_rfl (by omega)
        have empty : h ∈ s.emptyHeads role cls sh := by
          refine (mem_emptyHeads ledger.cells).mpr ⟨head, fun i slot => ?_⟩
          have once := ledger.slots.once h cls sh i head slot
          have span : s.From (g.slotAddr h i cls) (groupSpans (sizeOfClass cls)) k := by
            rw [From, base, slotAddr_span slot]
            exact within
          have uncached : (s.slab.cached cls).count (g.slotAddr h i cls) = 0 :=
            Multiset.count_eq_zero.mpr fun member => free (.inl ⟨_, cls, isClass, .inl member, span⟩)
          have unheld : H.count (g.slotAddr h i cls, cls) = 0 :=
            Multiset.count_eq_zero.mpr fun member => free (.inl ⟨_, cls, isClass, .inr member, span⟩)
          rw [uncached, unheld] at once
          cases alloc : s.bitmaps.allocBit h i with
          | true => exact .inl rfl
          | false =>
              cases freed : s.bitmaps.freeBit h i with
              | true => exact .inr rfl
              | false =>
                  rw [alloc, freed] at once
                  cases once
        rw [clean sh inside cls isClass] at empty
        exact absurd empty (Finset.notMem_empty h)

/-! ## Sweeps -/

theorem reclaimEmptySpans_uncarved (maxPerLock : Nat) : Moves Uncarved (reclaimEmptySpans maxPerLock) := by
  have cell : ∀ cap shard cls, Moves Uncarved (reclaimCell shard cls cap) := by
    intro cap shard cls
    unfold reclaimCell
    refine .ite (.ret _) ((reclaimLocked_uncarved shard cls cap).bind fun retired => .ite (.ret _) ?_)
    exact (fileRuns_uncarved _ _).bind fun _ => .ret _
  have cells : ∀ cap shard cls, Moves Uncarved (reclaimCells cap shard cls) := fun cap shard cls =>
    .inspect fun _ => .loop (fun _ => (cell cap shard cls).bind fun _ => .ite (.ret _) (.ret _)) _ _
  exact .inspect fun s => .bind (.each (fun _ => cells _ _ _) _) fun _ => .ret _

/-- After a sweep the pool has exactly the carved spans that nothing pins. -/
theorem Accounted.swept (held : Accounted g H L s) {maxPerLock : Nat} (few : maxPerLock ≤ 32)
    (env : List Turn) : ∃ n s' env', reclaimEmptySpans maxPerLock s env = (some n, s', env') ∧
      s'.arena = s.arena ∧ s'.large.pool.Represents (max s'.spans.numSpans 1)
        {k | s.arena.base + (k + 1) * spanBytes ≤ s.arena.cursor ∧ ¬ s.Pinned (· ∈ H) L k} := by
  obtain ⟨⟨role, ledger, settled⟩, whole, runs⟩ := held
  have swept := reclaimEmptySpans_spec maxPerLock ledger settled s env rfl
  have uncarved : Uncarved s (reclaimEmptySpans maxPerLock s env).2.1 := reclaimEmptySpans_uncarved maxPerLock s env
  have recorded : SameRuns s (reclaimEmptySpans maxPerLock s env).2.1 := reclaimEmptySpans_sameRuns maxPerLock s env
  have slab := reclaimEmptySpans_slab (J := (· = s.slab)) maxPerLock s env rfl
  rcases out : reclaimEmptySpans maxPerLock s env with ⟨_ | n, s', env'⟩
  · simp only [out] at swept
    exact (ledger.unblocked Trust.tags_tagged whole swept.2).elim
  · simp only [out] at swept uncarved recorded slab
    obtain ⟨role', gone, ledger', settled', -, -, clean⟩ := swept
    refine ⟨n, s', env', rfl, uncarved.same, ?_⟩
    have whole' : s'.clipped = false := uncarved.clipped.trans whole
    have shards : s'.numShards = s.numShards :=
      ledger'.stock.grid.numShards.trans ledger.stock.grid.numShards.symm
    have pool := ledger'.stock.pool (ledger'.healthy Trust.tags_tagged whole')
    have pooled := ledger'.pooled_iff settled' whole' (by rwa [recorded])
      fun sh inside cls isClass => (clean sh (by rwa [← shards]) cls isClass).mpr (.inl (by omega))
    simp only [pooled, Pinned, From, uncarved.same, slab] at pool
    exact pool

end SubHeap

namespace Process

variable {c : Config} {p p' : Process} {T : Finset Nat}

/-- Objects that a block holds, or a magazine, or that were dropped with a cache. -/
def Out (p : Process) (x : Nat × Nat) : Prop :=
  x ∈ p.dropped ∨ (∃ t, x ∈ (p.tls t).contents) ∨ x ∈ p.objects

/-- The carved spans that nothing pins. -/
def unpinned (p : Process) : Set Nat :=
  {k | p.sub.arena.base + (k + 1) * spanBytes ≤ p.sub.arena.cursor ∧ ¬ p.sub.Pinned p.Out p.records k}

def carvedSpans (p : Process) : Nat := (p.sub.arena.cursor - p.sub.arena.base) / spanBytes

theorem Stands.out_iff (stands : Stands c T p) (x : Nat × Nat) :
    x ∈ p.dropped + p.cached T + p.objects ↔ p.Out x := by
  rw [Multiset.mem_add, Multiset.mem_add, cached, Multiset.mem_sum, or_assoc, Out]
  refine or_congr_right (or_congr_left ⟨?_, ?_⟩)
  · rintro ⟨t, -, member⟩
    exact ⟨t, member⟩
  · rintro ⟨t, member⟩
    refine ⟨t, ?_, member⟩
    by_contra away
    rw [stands.outside t away] at member
    exact Multiset.notMem_zero x member

theorem Stands.swept (stands : Stands c T p) {maxPerLock : Nat} (few : maxPerLock ≤ 32) (thread : Nat)
    (env : List Turn) :
    ∃ p', p.after thread env (.sweep maxPerLock) = some p' ∧ p'.sub.arena = p.sub.arena ∧
      ∀ h count, p'.sub.large.pool.Recorded p'.sub.large.pool.numSpans h count ↔
        IsRun p.unpinned h count := by
  obtain ⟨n, s', env', ran, arena, pool⟩ := stands.books.swept few env
  simp only [stands.out_iff] at pool
  refine ⟨{ p with sub := s' }, ?_, arena, fun h count => ?_⟩
  · rw [Process.after, ran]
  · have recorded := pool.recorded h count
    rwa [← pool.sized.numSpans] at recorded

/-- Nothing pins a span when all is freed and no cache holds anything. -/
theorem unpinned_of_freed (freed : p.blocks = 0) (kept : p.dropped = 0)
    (flushed : ∀ t, (p.tls t).contents = 0) (drained : ∀ cls, IsClass cls → p.sub.slab.cached cls = 0) :
    p.unpinned = Set.Iio p.carvedSpans := by
  have objects : p.objects = 0 := by rw [Process.objects, freed, Multiset.zero_bind]
  have records : p.records = 0 := by rw [Process.records, freed, Multiset.zero_bind]
  have free : ∀ k, ¬ p.sub.Pinned p.Out p.records k := by
    rintro k (⟨q, cls, isClass, cached | lost | ⟨t, member⟩ | held, -⟩ | ⟨y, run, -⟩)
    · rw [drained cls isClass] at cached
      exact Multiset.notMem_zero q cached
    · rw [kept] at lost
      exact Multiset.notMem_zero _ lost
    · rw [flushed t] at member
      exact Multiset.notMem_zero _ member
    · rw [objects] at held
      exact Multiset.notMem_zero _ held
    · rw [records] at run
      exact Multiset.notMem_zero y run
  ext k
  simp only [unpinned, free, not_false_iff, and_true, Set.mem_ofPred_eq, Set.mem_Iio, carvedSpans]
  rw [← Nat.succ_le_iff, Nat.le_div_iff_mul_le (by decide)]
  have some : 0 < (k + 1) * spanBytes := Nat.mul_pos k.succ_pos (by decide)
  rw [Nat.succ_eq_add_one]
  omega

/-- After a sweep whose cap is one batch at most, the pool has on record the maximal runs
    of the carved spans that nothing pins. -/
theorem sweep_exact (mapped : c.Mapped) (reached : Reached c (fun _ _ call => call.small) p)
    {maxPerLock : Nat} (few : maxPerLock ≤ 32) (thread : Nat) (env : List Turn) :
    ∃ p', p.after thread env (.sweep maxPerLock) = some p' ∧ p'.sub.arena = p.sub.arena ∧
      ∀ h count, p'.sub.large.pool.Recorded p'.sub.large.pool.numSpans h count ↔
        IsRun p.unpinned h count := by
  obtain ⟨T, stands⟩ := reached.stands mapped fun _ _ _ small => small
  exact stands.swept few thread env

theorem sweep_exact_served : served.blocks = {(8192, ⟨2048, 8⟩)} ∧
    ∃ p', served.after 0 [] (.sweep 32) = some p' ∧ p'.sub.arena = served.sub.arena ∧
      ∀ h count, p'.sub.large.pool.Recorded p'.sub.large.pool.numSpans h count ↔
        IsRun served.unpinned h count :=
  ⟨served_run.2.2, sweep_exact fiveSpans_mapped
    (served_reached _ (show spanCount 2048 < 2 ^ 32 by decide)) (by decide) 0 []⟩

/-- With every block freed and no cache holding any, a sweep leaves one run of all the
    spans that were ever carved. -/
theorem everything_returns (mapped : c.Mapped) (reached : Reached c (fun _ _ call => call.small) p)
    {maxPerLock : Nat} (few : maxPerLock ≤ 32) (thread : Nat) (env : List Turn)
    (freed : p.blocks = 0) (kept : p.dropped = 0) (flushed : ∀ t, (p.tls t).contents = 0)
    (drained : ∀ cls, IsClass cls → p.sub.slab.cached cls = 0) :
    ∃ p', p.after thread env (.sweep maxPerLock) = some p' ∧ p'.sub.arena = p.sub.arena ∧
      ∀ h count, p'.sub.large.pool.Recorded p'.sub.large.pool.numSpans h count ↔
        h = 0 ∧ count = p.carvedSpans ∧ 0 < p.carvedSpans := by
  obtain ⟨T, stands⟩ := reached.stands mapped fun _ _ _ small => small
  obtain ⟨p', ran, arena, recorded⟩ := stands.swept few thread env
  refine ⟨p', ran, arena, fun h count => ?_⟩
  rw [recorded, unpinned_of_freed freed kept flushed drained]
  exact isRun_Iio

/-! ## A page lent and returned -/

section Transient

variable {thread : Nat} {env : List Turn} {l : Layout}

/-- A call on a transient `Tls` leaves none behind. -/
theorem withTls_transient {α : Type} {m : Prog Turn Cached α} (untouched : p.tls thread = .untouched) :
    (p.withTls thread false m env).2.tls = p.tls := by
  rw [withTls, untouched]
  rfl

theorem skipped_transient {α : Type} {m : Prog Turn Cached α} {r r' : Option α} {skip : Prop} [Decidable skip]
    (untouched : p.tls thread = .untouched)
    (out : (if skip then (r, p) else p.withTls thread false m env) = (r', p')) : p'.tls = p.tls := by
  split at out
  · cases out
    rfl
  · have same : (p.withTls thread false m env).2.tls = p.tls := withTls_transient untouched
    rwa [out] at same

theorem alloc_transient (untouched : p.tls thread = .untouched)
    (ran : p.after thread env (.alloc false l) = some p') : p'.tls = p.tls := by
  rw [Process.after, Process.alloc] at ran
  split at ran
  · rename_i ptr p₁ out
    cases ran
    have same : p₁.tls = p.tls := skipped_transient untouched out
    exact same
  · cases ran

theorem dealloc_transient {ptr : Nat} (untouched : p.tls thread = .untouched)
    (ran : p.after thread env (.dealloc false ptr l) = some p') : p'.tls = p.tls := by
  rw [Process.after, Process.dealloc] at ran
  split at ran
  · rename_i p₁ out
    cases ran
    have same : p₁.tls = p.tls := skipped_transient untouched out
    exact same
  · cases ran

end Transient

def lent : Process :=
  ((start fiveSpans).after 0 [] (.alloc false ⟨4096, 4096⟩)).getD (start fiveSpans)

def emptied : Process := (lent.after 0 [] (.dealloc false 8192 ⟨4096, 4096⟩)).getD lent

theorem emptied_run :
    (((start fiveSpans).after 0 [] (.alloc false ⟨4096, 4096⟩)).isSome = true ∧ lent.sub.clipped = false) ∧
    ((8192, ⟨4096, 4096⟩) ∈ lent.blocks ∧
      (lent.after 0 [] (.dealloc false 8192 ⟨4096, 4096⟩)).isSome = true ∧ emptied.sub.clipped = false) ∧
    emptied.carvedSpans = 1 ∧ emptied.blocks = 0 ∧ emptied.dropped = 0 ∧
      ∀ cls < numClasses, emptied.sub.slab.cached cls = 0 := by
  decide +kernel

attribute [irreducible] lent emptied

theorem lent_untouched : lent.tls = fun _ => .untouched := by
  obtain ⟨p₁, ran⟩ := Option.isSome_iff_exists.mp emptied_run.1.1
  unfold lent
  rw [ran]
  exact alloc_transient rfl ran

theorem emptied_untouched : emptied.tls = fun _ => .untouched := by
  obtain ⟨p₁, ran⟩ := Option.isSome_iff_exists.mp emptied_run.2.1.2.1
  unfold emptied
  rw [ran]
  exact (dealloc_transient (congrFun lent_untouched 0) ran).trans lent_untouched

theorem emptied_reached : Reached fiveSpans (fun _ _ call => call.small) emptied := by
  obtain ⟨⟨returns₁, whole₁⟩, ⟨held, returns₂, whole₂⟩, -⟩ := emptied_run
  have started : Reached fiveSpans (fun _ _ call => call.small) (start fiveSpans) := .start rfl
  have first : Reached fiveSpans (fun _ _ call => call.small) lent := by
    unfold lent at whole₁ ⊢
    exact started.call 0 [] (.alloc false ⟨4096, 4096⟩) nofun (show spanCount 4096 < 2 ^ 32 by decide)
      returns₁ whole₁
  have alive : lent.tls 0 ≠ .exited := by
    rw [lent_untouched]
    exact nofun
  unfold emptied at whole₂ ⊢
  exact first.call 0 [] (.dealloc false 8192 ⟨4096, 4096⟩) ⟨alive, held⟩ trivial returns₂ whole₂

theorem everything_returns_emptied : emptied.carvedSpans = 1 ∧
    ∃ p', emptied.after 0 [] (.sweep 32) = some p' ∧ p'.sub.arena = emptied.sub.arena ∧
      ∀ h count, p'.sub.large.pool.Recorded p'.sub.large.pool.numSpans h count ↔
        h = 0 ∧ count = emptied.carvedSpans ∧ 0 < emptied.carvedSpans := by
  obtain ⟨-, -, carved, freed, kept, drained⟩ := emptied_run
  have flushed : ∀ t, (emptied.tls t).contents = 0 := by
    intro t
    rw [emptied_untouched]
    exact ThreadCache.new_contents
  exact ⟨carved, everything_returns fiveSpans_mapped emptied_reached (by decide) 0 [] freed kept flushed
    fun cls isClass => drained cls isClass.lt⟩

end Process

end Toccata
