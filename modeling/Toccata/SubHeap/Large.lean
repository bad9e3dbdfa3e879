import Toccata.SubHeap.Reclaim

/-! # Large runs

A large run is taken from the pool or from the cursor, recorded at its first span and
tagged; freeing it turns the record back into a loose run and files it.
-/

namespace Toccata

open Foundations SizeClass

namespace SubHeap

variable {trust : Trust} {g : Geometry} {s s' : SubHeap} {role role' : Nat → Role}
  {H L : Multiset (Nat × Nat)} {W W' : List (Nat × Nat)}

/-! ## Granting a run -/

/-- What stays when a run is granted, but for the record at its first span. -/
structure Granted (s s' : SubHeap) (h w : Nat) : Prop where
  slab : s'.slab = s.slab
  head : s'.head = s.head
  bitmaps : s'.bitmaps = s.bitmaps
  numShards : s'.numShards = s.numShards
  base : s'.arena.base = s.arena.base
  limit : s'.arena.limit = s.arena.limit
  table : s'.spans.base = s.spans.base
  len : s'.spans.len = s.spans.len
  large : s'.large.arenaBase = s.large.arenaBase
  clipped : s'.clipped = s.clipped
  runSpans : s'.large.runSpans = s.large.runSpans.put h w

theorem Granted.grid {h w : Nat} (same : Granted s s' h w) (grid : s.Grid g) : s'.Grid g := by
  have numSpans : s'.spans.numSpans = s.spans.numSpans := by
    rw [SpanTable.numSpans, SpanTable.numSpans, same.len]
  obtain ⟨a, b, t, l, len, limit, nonNull, mapped, numShards, shards, numCpus, cpus, classes, slab, runs⟩ :=
    grid
  refine ⟨?_, ?_, ?_, ?_, ?_, ?_, nonNull, ?_, ?_, ?_, ?_, ?_, ?_, ?_, ?_⟩ <;>
    simp only [same.slab, same.bitmaps, same.numShards, same.base, same.limit, same.table, same.len,
      same.large, same.runSpans, numSpans, Slice.put_len] <;> assumption

/-- No run is recorded at a span that is not the first of one. -/
theorem Cells.unrecorded (cells : s.Cells trust role) {h : Nat} (other : role h ≠ .large h) :
    s.large.runSpans.cell h = 0 := by
  by_contra some
  exact other ((cells.runs h some).2.1 h le_rfl (by omega))

/-- Unused spans become a recorded run. In a table that is relied on, only their
    entries may change. -/
theorem Cells.grant {h w : Nat} (cells : s.Cells trust role) (same : Granted s s' h w) (pos : 0 < w)
    (fits : h + w ≤ s.spans.numSpans)
    (unused : ∀ k, h ≤ k → k < h + w → role k = .fresh ∨ role k = .pooled)
    (entries : ∀ k, s'.spans.entry k = s.spans.entry k ∨
      s'.spans.entry k = SpanTable.pack largeClass 0)
    (tags : trust.tagged → s'.spans.entry h = SpanTable.pack largeClass 0 ∧
      ∀ k, ¬ (h ≤ k ∧ k < h + w) → s'.spans.entry k = s.spans.entry k) :
    s'.Cells trust (assign role h w (.large h)) := by
  have numSpans : s'.spans.numSpans = s.spans.numSpans := by
    rw [SpanTable.numSpans, SpanTable.numSpans, same.len]
  have outside : ∀ {k r}, role k = r → r ≠ .fresh → r ≠ .pooled → ¬ (h ≤ k ∧ k < h + w) := by
    intro k r held used filed inside
    rcases unused k inside.1 inside.2 with fresh | pooled
    · exact used (held.symm.trans fresh)
    · exact filed (held.symm.trans pooled)
  have active : ∀ k h' c sh, assign role h w (.large h) k = .active h' c sh ↔
      role k = .active h' c sh := by
    intro k h' c sh
    exact assign_kept (by simp) fun j lo hi held => outside held (by simp) (by simp) ⟨lo, hi⟩
  have cell : ∀ k, s'.large.runSpans.cell k = if k = h then w else s.large.runSpans.cell k := by
    intro k
    rw [same.runSpans, Slice.put_cell]
  have idle : s.large.runSpans.cell h = 0 := by
    apply cells.unrecorded
    intro held
    exact outside held (by simp) (by simp) ⟨le_rfl, by omega⟩
  obtain ⟨groups, tagged, labels, lists, linked, runs, large⟩ := cells
  refine ⟨?_, ?_, ?_, ?_, ?_, ?_, ?_⟩
  · simpa only [same.numShards, numSpans, active] using groups
  · intro on h' c sh held
    rw [active] at held
    simp only [Tagged, (tags on).2 h' (outside held (by simp) (by simp)), same.numShards]
    exact tagged on h' c sh held
  · intro k low
    rw [numSpans] at low
    rcases entries k with kept | big
    · by_cases inside : h ≤ k ∧ k < h + w
      · rcases labels k low with zero | old | ⟨h', c, sh, held, -⟩ | claimed
        · exact .inl (kept.trans zero)
        · exact .inr (.inl (kept.trans old))
        · exact (outside held (by simp) (by simp) inside).elim
        · exact (outside claimed (by simp) (by simp) inside).elim
      · exact (labels k low).same kept same.numShards (assign_outside inside)
    · exact .inr (.inl big)
  · simpa only [same.numShards, same.head, same.bitmaps, active] using lists
  · simpa only [same.bitmaps, active] using linked
  · intro h' some
    rw [cell] at some ⊢
    rw [numSpans]
    by_cases here : h' = h
    · subst here
      rw [if_pos rfl]
      exact ⟨fits, fun k lo hi => assign_inside lo hi, fun on => (tags on).1⟩
    · rw [if_neg here] at some ⊢
      obtain ⟨within, roles, entry⟩ := runs h' some
      refine ⟨within, fun k lo hi => ?_, fun on => ?_⟩
      · rw [assign_outside (outside (roles k lo hi) (by simp) (by simp))]
        exact roles k lo hi
      · rcases entries h' with kept | big
        · exact kept.trans (entry on)
        · exact big
  · intro k h' held
    rw [cell]
    by_cases inside : h ≤ k ∧ k < h + w
    · rw [assign_inside inside.1 inside.2] at held
      cases held
      rw [if_pos rfl]
      exact inside
    · rw [assign_outside inside] at held
      have within := large k h' held
      rw [if_neg]
      · exact within
      · rintro rfl
        omega

/-- Unused spans granted: the run is recorded, and may be held outside. -/
theorem Ledger.grant {h w : Nat} (ledger : s.Ledger trust g role H L W) (same : Granted s s' h w)
    (pos : 0 < w) (fits : h + w ≤ s.spans.numSpans)
    (unused : ∀ k, h ≤ k → k < h + w → role k = .fresh ∨ role k = .pooled)
    (entries : ∀ k, s'.spans.entry k = s.spans.entry k ∨
      s'.spans.entry k = SpanTable.pack largeClass 0)
    (tags : trust.tagged → s'.spans.entry h = SpanTable.pack largeClass 0 ∧
      ∀ k, ¬ (h ≤ k ∧ k < h + w) → s'.spans.entry k = s.spans.entry k)
    (stock : s'.Stock g (assign role h w (.large h)))
    (healthy : trust.tagged → s'.clipped = false → s'.large.poisoned = false) :
    s'.Ledger trust g (assign role h w (.large h)) H L W ∧
      s'.Ledger trust g (assign role h w (.large h)) H ((g.base + h * spanBytes, w) ::ₘ L) W := by
  have outside : ∀ {k r}, role k = r → r ≠ .fresh → r ≠ .pooled → ¬ (h ≤ k ∧ k < h + w) := by
    intro k r held used filed inside
    rcases unused k inside.1 inside.2 with fresh | pooled
    · exact used (held.symm.trans fresh)
    · exact filed (held.symm.trans pooled)
  have active : ∀ k h' c sh, assign role h w (.large h) k = .active h' c sh ↔
      role k = .active h' c sh := by
    intro k h' c sh
    exact assign_kept (by simp) fun j lo hi held => outside held (by simp) (by simp) ⟨lo, hi⟩
  have idle : s.large.runSpans.cell h = 0 := by
    apply ledger.cells.unrecorded
    intro held
    exact outside held (by simp) (by simp) ⟨le_rfl, by omega⟩
  have elsewhere : ∀ x ∈ L, ∃ h', x.1 = g.base + h' * spanBytes ∧ x.2 ≠ 0 ∧
      s'.large.runSpans.cell h' = x.2 ∧ h' ≠ h := by
    intro x member
    obtain ⟨h', place, some, recorded⟩ := ledger.larges.recorded x member
    have other : h' ≠ h := by
      rintro rfl
      exact some (recorded.symm.trans idle)
    exact ⟨h', place, some, by rw [same.runSpans, Slice.put_cell_other other, recorded], other⟩
  have kept : s'.Ledger trust g (assign role h w (.large h)) H L W := by
    refine ⟨stock, ledger.cells.grant same pos fits unused entries tags, ⟨?_, ?_, ?_⟩,
      ⟨ledger.larges.distinct, ?_⟩, ledger.loose.kept (by simp) ?_, ?_, healthy⟩
    · simpa only [active, same.bitmaps, same.slab] using ledger.slots.once
    · simpa only [active, same.bitmaps] using ledger.slots.bits
    · simpa only [IsSlot, active, same.slab] using ledger.slots.outside
    · intro x member
      obtain ⟨h', place, some, recorded, -⟩ := elsewhere x member
      exact ⟨h', place, some, recorded⟩
    · intro k lo hi h' loose
      exact outside loose (by simp) (by simp) ⟨lo, hi⟩
    · simpa only [active] using ledger.used
  refine ⟨kept, { kept with larges := ⟨?_, ?_⟩ }⟩
  · rw [Multiset.map_cons, Multiset.nodup_cons]
    refine ⟨fun listed => ?_, ledger.larges.distinct⟩
    obtain ⟨x, member, equal⟩ := Multiset.mem_map.mp listed
    obtain ⟨h', place, -, -, other⟩ := elsewhere x member
    apply other
    rw [place] at equal
    exact Nat.eq_of_mul_eq_mul_right (by decide) (Nat.add_left_cancel equal)
  · intro x member
    rcases Multiset.mem_cons.mp member with rfl | old
    · exact ⟨h, rfl, by simp only; omega, by rw [same.runSpans, Slice.put_cell_same]⟩
    · exact kept.larges.recorded x old

/-! ## Allocating -/

variable {size h : Nat}

theorem spanCount_pos (size : Nat) : 0 < spanCount size := Nat.lt_of_lt_of_le one_pos (le_max_right ..)

/-- The bytes of a run do not wrap below the last span of the address space. -/
theorem runBytes_eq (bound : size + (spanBytes - 1) < 2 ^ 64) :
    runBytes size = spanCount size * spanBytes := by
  rw [runBytes, wrap64_small]
  unfold spanCount spanBytes at *
  omega

theorem assignRange_frame (t : SpanTable) (ptr bytes cls home : Nat) :
    (t.assignRange ptr bytes cls home).base = t.base ∧ (t.assignRange ptr bytes cls home).len = t.len ∧
      ∀ k, (t.assignRange ptr bytes cls home).entry k = t.entry k ∨
        (t.assignRange ptr bytes cls home).entry k = SpanTable.pack cls home := by
  unfold SpanTable.assignRange
  split
  · exact ⟨rfl, rfl, fun _ => .inl rfl⟩
  · refine ⟨rfl, rfl, fun k => ?_⟩
    simp only
    split
    · exact .inr rfl
    · exact .inl rfl

/-- A run taken from the pool or the cursor and not recorded yet. -/
structure Reserved (g : Geometry) (s s₁ : SubHeap) (role : Nat → Role) (h w : Nat) : Prop where
  slab : s₁.slab = s.slab
  head : s₁.head = s.head
  bitmaps : s₁.bitmaps = s.bitmaps
  numShards : s₁.numShards = s.numShards
  base : s₁.arena.base = s.arena.base
  limit : s₁.arena.limit = s.arena.limit
  spans : s₁.spans = s.spans
  large : s₁.large.arenaBase = s.large.arenaBase
  poisoned : s₁.large.poisoned = s.large.poisoned
  runSpans : s₁.large.runSpans = s.large.runSpans
  clipped : s₁.clipped = s.clipped
  pos : 0 < w
  fits : h + w ≤ s.spans.numSpans
  unused : ∀ k, h ≤ k → k < h + w → role k = .fresh ∨ role k = .pooled
  stock : s₁.Stock g (assign role h w (.large h))

/-- The state once a reserved run is recorded and tagged. -/
def granted (s₁ : SubHeap) (size h w ptr : Nat) : SubHeap :=
  { s₁ with
    large := { s₁.large with runSpans := s₁.large.runSpans.put h w }
    spans := s₁.spans.assignRange ptr (runBytes size) largeClass 0 }

variable {s₁ : SubHeap} {w : Nat}

/-- The spans tagged are those of the run, if the run is as long as it should be. -/
theorem Reserved.tagging (reserved : Reserved g s s₁ role h w) (grid : s.Grid g)
    (bound : size + (spanBytes - 1) < 2 ^ 64) (exact : spanCount size = w) :
    s.spans.assignRange (g.base + h * spanBytes) (runBytes size) largeClass 0 =
      { s.spans with entry := fun k => if h ≤ k ∧ k < h + w ∧ k < s.spans.numSpans then
          SpanTable.pack largeClass 0 else s.spans.entry k } ∧
    s.spans.rangeFaults (g.base + h * spanBytes) (runBytes size) = false := by
  have pos := reserved.pos
  have fits := reserved.fits
  have inside : h < s.spans.numSpans := by omega
  rw [runBytes_eq bound, exact]
  refine ⟨grid.assignRange largeClass 0 pos inside (by omega), ?_⟩
  have start : s.spans.indexOf (g.base + h * spanBytes + 0) = some h :=
    grid.indexOf (by decide) (by simpa using numSpans_iff.mp inside)
  rw [Nat.add_zero] at start
  rw [SpanTable.rangeFaults, start, grid.lastOf pos (by omega), Option.any_some,
    decide_eq_false_iff_not]
  omega

/-- Recording a reserved run, with the table `t` from then on. -/
theorem Ledger.recorded (ledger : s.Ledger trust g role H L W) (reserved : Reserved g s s₁ role h w)
    (t : SpanTable) (base : t.base = s.spans.base) (len : t.len = s.spans.len)
    (entries : ∀ k, t.entry k = s.spans.entry k ∨ t.entry k = SpanTable.pack largeClass 0)
    (tags : trust.tagged → t.entry h = SpanTable.pack largeClass 0 ∧
      ∀ k, ¬ (h ≤ k ∧ k < h + w) → t.entry k = s.spans.entry k) :
    let s' : SubHeap := { s₁ with
      large := { s₁.large with runSpans := s₁.large.runSpans.put h w }, spans := t }
    s'.Ledger trust g (assign role h w (.large h)) H L W ∧
      s'.Ledger trust g (assign role h w (.large h)) H ((g.base + h * spanBytes, w) ::ₘ L) W := by
  obtain ⟨grid, cursor, stocked, pool, whole, carved⟩ := reserved.stock
  have same : Granted s { s₁ with
      large := { s₁.large with runSpans := s₁.large.runSpans.put h w }, spans := t } h w := by
    refine ⟨reserved.slab, reserved.head, reserved.bitmaps, reserved.numShards,
      reserved.base, reserved.limit, base, len, reserved.large, reserved.clipped, ?_⟩
    simp only [reserved.runSpans]
  have numSpans : t.numSpans = s₁.spans.numSpans := by
    rw [SpanTable.numSpans, SpanTable.numSpans, len, reserved.spans]
  rw [reserved.spans, ← len] at cursor whole
  rw [← numSpans] at pool stocked
  refine ledger.grant same reserved.pos reserved.fits reserved.unused entries tags
    ⟨same.grid ledger.stock.grid, cursor, stocked, pool, whole, carved⟩ ?_
  intro on (unclipped : s₁.clipped = false)
  rw [reserved.clipped] at unclipped
  exact reserved.poisoned.trans (ledger.healthy on unclipped)

/-- A recorded run tagged. Where the table is relied on, the run must be as long as it
    should be. -/
theorem Ledger.granted (ledger : s.Ledger trust g role H L W) (reserved : Reserved g s s₁ role h w)
    (bound : size + (spanBytes - 1) < 2 ^ 64) (exact : trust.tagged → spanCount size = w) :
    (s₁.granted size h w (g.base + h * spanBytes)).Ledger trust g (assign role h w (.large h)) H
      ((g.base + h * spanBytes, w) ::ₘ L) W := by
  obtain ⟨base, len, entries⟩ :=
    assignRange_frame s.spans (g.base + h * spanBytes) (runBytes size) largeClass 0
  have pos := reserved.pos
  have fits := reserved.fits
  rw [SubHeap.granted, reserved.spans]
  refine (ledger.recorded reserved _ base len entries fun on => ?_).2
  rw [(reserved.tagging ledger.stock.grid bound (exact on)).1]
  refine ⟨if_pos ⟨le_rfl, by omega, by omega⟩, fun k outside => if_neg ?_⟩
  exact fun inside => outside ⟨inside.1, inside.2.1⟩

/-- What `record` does with a reserved run: it grants it, or panics over a range whose
    end wrapped. -/
theorem record_spec (ledger : s.Ledger trust g role H L W) (settled : ∀ k, role k ≠ .claimed)
    (reserved : Reserved g s s₁ role h w) (bound : size + (spanBytes - 1) < 2 ^ 64)
    (narrowed : wrap32 (spanCount size) = w) (exact : trust.tagged → spanCount size = w) :
    Triple (· = s₁) (allocLarge.record size (g.base + h * spanBytes))
      (fun r s' => r = some (g.base + h * spanBytes) ∧
        s' = s₁.granted size h w (g.base + h * spanBytes))
      (fun s' => Kept trust g H L s' ∧ spanCount size ≠ w) := by
  refine Triple.inspect fun s' same => ?_
  rw [same]
  have grid := ledger.stock.grid
  have fits := reserved.fits
  have pos := reserved.pos
  have index : s₁.large.spanIndex (g.base + h * spanBytes) = h := by
    rw [LargeAllocator.spanIndex, reserved.large, grid.large, Nat.add_sub_cancel_left,
      Nat.mul_div_cancel _ (by decide)]
  have inside : h < s₁.large.runSpans.len := by
    rw [reserved.runSpans, grid.runs]
    omega
  rw [index, narrowed, Slice.set?_inside inside]
  refine Triple.bind (Q := fun _ s' => s' = { s₁ with
    large := { s₁.large with runSpans := s₁.large.runSpans.put h w } }) (Triple.modify ?_) fun _ => ?_
  · rintro _ rfl
    rfl
  refine Triple.ite (fun faults => ?_) (fun _ => ?_)
  · have different : spanCount size ≠ w := by
      intro equal
      rw [reserved.spans, (reserved.tagging grid bound equal).2] at faults
      cases faults
    have kept := (ledger.recorded reserved s.spans rfl rfl (fun _ => .inl rfl)
      fun on => (different (exact on)).elim).1
    rw [← reserved.spans] at kept
    refine Triple.bind (Q := fun _ s' => Kept trust g H L s') (Triple.modify ?_) fun _ =>
      Triple.fail fun s' lost => ⟨lost, different⟩
    rintro _ rfl
    refine ⟨W, _, kept.poison fun on => (different (exact on)).elim, fun k held => ?_⟩
    rw [assign_other (by simp)] at held
    exact settled k held.2
  · refine Triple.bind (Q := fun _ s' => s' = s₁.granted size h w (g.base + h * spanBytes))
      (Triple.modify ?_) fun _ => Triple.ret _ fun s' done => ⟨rfl, done⟩
    rintro _ rfl
    rfl

theorem Ledger.reservePool {m : Nat} {p : SpanPool} (ledger : s.Ledger trust g role H L W)
    (pos : 0 < w) (enough : w ≤ m) (run : IsRun {k | role k = .pooled} h m)
    (represents : p.Represents (max s.spans.numSpans 1) ({k | role k = .pooled} \ Set.Ico h (h + w))) :
    Reserved g s { s with large := { s.large with pool := p } } role h w := by
  have pooled : ∀ k, h ≤ k → k < h + w → role k = .pooled :=
    fun k lo hi => run.inside k lo (by omega)
  refine ⟨rfl, rfl, rfl, rfl, rfl, rfl, rfl, rfl, rfl, rfl, rfl, pos, ?_,
    fun k lo hi => .inr (pooled k lo hi), ledger.stock.fromPool (by simp) (by simp) pooled represents⟩
  have := ledger.stock.stocked (h + w - 1) (pooled _ (by omega) (by omega))
  omega

theorem Reserved.ofCursor {n : Nat} (cursor : Nat) (pos : 0 < n) (fits : h + n ≤ s.spans.numSpans)
    (fresh : ∀ k, h ≤ k → role k = .fresh)
    (stock : Stock g { s with arena := { s.arena with cursor } } (assign role h n (.large h))) :
    Reserved g s { s with arena := { s.arena with cursor } } role h n :=
  ⟨rfl, rfl, rfl, rfl, rfl, rfl, rfl, rfl, rfl, rfl, rfl, pos, fits,
    fun k lo _ => .inl (fresh k lo), stock⟩

/-- A carve from the cursor finds the whole run, or nothing. -/
theorem Ledger.reserveCursor (ledger : s.Ledger trust g role H L W) {n start : Nat} (pos : 0 < n)
    {arena : BumpArena} (carved : s.arena.carveRun (n * spanBytes) = some (start, arena)) :
    ∃ f, start = g.base + f * spanBytes ∧ n < 2 ^ 32 ∧ Reserved g s { s with arena } role f n := by
  obtain ⟨f, cursor, low, fresh⟩ := ledger.stock.cursor
  have aligned : s.arena.base + (s.arena.cursor - s.arena.base + (spanBytes - 1)) / spanBytes *
      spanBytes = g.base + f * spanBytes := by
    rw [ledger.stock.grid.arena, cursor, Nat.add_sub_cancel_left]
    unfold spanBytes
    omega
  have limit := ledger.stock.grid.limit
  rw [BumpArena.carveRun, aligned] at carved
  split at carved
  · cases carved
  · rename_i room
    cases carved
    have within : (f + n) * spanBytes ≤ s.spans.len := by
      rw [Nat.add_mul]
      omega
    have inside : f + n ≤ s.spans.numSpans := by
      have := numSpans_iff (s := s) (k := f + n - 1)
      have : (f + n - 1) * spanBytes < s.spans.len := by
        refine lt_of_lt_of_le (Nat.mul_lt_mul_of_pos_right ?_ (by decide)) within
        omega
      omega
    have unused : ∀ k, f ≤ k → role k = .fresh := by
      apply fresh
      refine (Nat.mul_le_mul_right _ ?_).trans within
      omega
    have small := ledger.stock.grid.small
    refine ⟨f, rfl, by omega, Reserved.ofCursor _ pos inside unused ?_⟩
    have stock := ledger.stock.fromCursor (r := .large f) (by simp) (by simp) cursor unused within
    rwa [Nat.add_mul, ← Nat.add_assoc] at stock

/-- What a large allocation does: nothing, or grant a run of unused spans. The run is as
    long as the request needs unless its span count passes 32 bits. -/
theorem allocLarge_spec (ledger : s.Ledger trust g role H L W) (settled : ∀ k, role k ≠ .claimed)
    (bound : size + (spanBytes - 1) < 2 ^ 64) (exact : trust.tagged → spanCount size < 2 ^ 32) :
    Triple (· = s) (allocLarge size)
      (fun r s' => (r = none ∧ s' = s) ∨
        ∃ s₁ h, r = some (g.base + h * spanBytes) ∧
          Reserved g s s₁ role h (wrap32 (spanCount size)) ∧
          s' = s₁.granted size h (wrap32 (spanCount size)) (g.base + h * spanBytes))
      (fun s' => Kept trust g H L s' ∧ (s.large.poisoned = true ∨ 2 ^ 32 ≤ spanCount size)) := by
  have same : trust.tagged → spanCount size = wrap32 (spanCount size) :=
    fun on => (wrap32_small (exact on)).symm
  have narrow : ∀ s', Kept trust g H L s' ∧ spanCount size ≠ wrap32 (spanCount size) →
      Kept trust g H L s' ∧ (s.large.poisoned = true ∨ 2 ^ 32 ≤ spanCount size) := by
    rintro s' ⟨kept, different⟩
    refine ⟨kept, .inr ?_⟩
    by_contra small
    exact different (wrap32_small (by omega)).symm
  refine Triple.inspect fun s' begun => ?_
  rw [begun]
  refine Triple.ite (fun poisoned => Triple.fail ?_) (fun clear => ?_)
  · rintro _ rfl
    exact ⟨⟨W, role, ledger, settled⟩, .inl poisoned⟩
  · rw [Bool.not_eq_true] at clear
    rcases SpanPool.alloc_represents (ledger.stock.pool clear) (wrap32 (spanCount size)) with
      ⟨result, -⟩ | ⟨h, m, p, result, pos, enough, run, -, represents⟩
    · rw [result]
      rw [runBytes_eq bound]
      cases carved : s.arena.carveRun (spanCount size * spanBytes) with
      | none =>
          apply Triple.ret
          rintro _ rfl
          exact .inl ⟨rfl, rfl⟩
      | some claim =>
          obtain ⟨start, arena⟩ := claim
          obtain ⟨f, rfl, small, reserved⟩ := ledger.reserveCursor (spanCount_pos size) carved
          rw [← wrap32_small small] at reserved
          refine Triple.bind (Q := fun _ s' => s' = { s with arena }) (Triple.modify ?_) fun _ => ?_
          · rintro _ rfl
            rfl
          · refine ((record_spec ledger settled reserved bound rfl same).weaken ?_).relax narrow
            rintro r s' ⟨result, done⟩
            exact .inr ⟨_, f, result, reserved, done⟩
    · rw [result]
      have reserved := ledger.reservePool pos enough run represents
      have start : s.large.spanPtr h = g.base + h * spanBytes := by
        rw [LargeAllocator.spanPtr, ledger.stock.grid.large]
      refine Triple.bind (Q := fun _ s' => s' = { s with large := { s.large with pool := p } })
        (Triple.modify ?_) fun _ => ?_
      · rintro _ rfl
        rfl
      · rw [start]
        refine ((record_spec ledger settled reserved bound rfl same).weaken ?_).relax narrow
        rintro r s' ⟨result, done⟩
        exact .inr ⟨_, h, result, reserved, done⟩

/-! ## Freeing -/

variable {n : Nat}

theorem Grid.spanIndex (grid : s.Grid g) (h : Nat) :
    s.large.spanIndex (g.base + h * spanBytes) = h := by
  rw [LargeAllocator.spanIndex, grid.large, Nat.add_sub_cancel_left, Nat.mul_div_cancel _ (by decide)]

/-- Where a run held outside is recorded. -/
theorem Ledger.run (ledger : s.Ledger trust g role H ((g.base + h * spanBytes, n) ::ₘ L) W) :
    s.large.runSpans.cell h = n ∧ 0 < n ∧ h + n ≤ s.spans.numSpans ∧
      (∀ k, role k = .large h ↔ h ≤ k ∧ k < h + n) := by
  obtain ⟨h', place, some, cell⟩ := ledger.larges.recorded _ (Multiset.mem_cons_self ..)
  have same : h' = h :=
    Nat.eq_of_mul_eq_mul_right (by decide) (Nat.add_left_cancel place.symm)
  subst same
  simp only at some cell
  obtain ⟨fits, roles, -⟩ := ledger.cells.runs h' (by rw [cell]; exact some)
  rw [cell] at fits roles
  refine ⟨cell, by omega, fits, fun k => ⟨fun held => ?_, fun inside => roles k inside.1 inside.2⟩⟩
  have within := ledger.cells.large k h' held
  rwa [cell] at within

/-- The record of a run cleared: its spans are loose. -/
theorem Ledger.release (ledger : s.Ledger trust g role H ((g.base + h * spanBytes, n) ::ₘ L) W) :
    Ledger trust g { s with large := { s.large with runSpans := s.large.runSpans.put h 0 } }
      (assign role h n (.loose h)) H L ((h, n) :: W) := by
  obtain ⟨cell, pos, fits, held⟩ := ledger.run
  have kept : ∀ {r : Role}, r ≠ .loose h → r ≠ .large h → ∀ k,
      assign role h n (.loose h) k = r ↔ role k = r := by
    intro r different other k
    refine assign_kept different fun j lo hi same => ?_
    rw [(held j).mpr ⟨lo, hi⟩] at same
    exact other same.symm
  have active : ∀ k h' c sh, assign role h n (.loose h) k = .active h' c sh ↔
      role k = .active h' c sh := fun k h' c sh => kept (by simp) (by simp) k
  have runs : ∀ k h', h' ≠ h → (assign role h n (.loose h) k = .large h' ↔ role k = .large h') :=
    fun k h' other => kept (by simp) (by simpa using other) k
  obtain ⟨grid, ⟨f, here, low, fresh⟩, stocked, pool, whole, carved⟩ := ledger.stock
  obtain ⟨distinct, recorded⟩ := ledger.larges
  rw [Multiset.map_cons, Multiset.nodup_cons] at distinct
  refine ⟨⟨{ grid with }, ⟨f, here, low, fun left k beyond => ?_⟩, fun k pooled => ?_, fun clear => ?_,
    fun unclipped k used => ?_, fun k below unused => ?_⟩, ?_, ⟨?_, ?_, ?_⟩,
    ⟨distinct.2, fun x member => ?_⟩, ledger.loose.taken pos fun k lo hi h' loose => ?_, ?_, ledger.healthy⟩
  · rw [kept (by simp) (by simp)]
    exact fresh left k beyond
  · rw [kept (by simp) (by simp)] at pooled
    exact stocked k pooled
  · simp only [kept (r := .pooled) (by simp) (by simp)]
    exact pool clear
  · rw [Ne, kept (by simp) (by simp)] at used
    exact whole unclipped k used
  · rw [kept (by simp) (by simp)] at unused
    exact carved k below unused
  · obtain ⟨groups, entries, labels, lists, linked, records, large⟩ := ledger.cells
    refine ⟨?_, ?_, ?_, ?_, ?_, ?_, ?_⟩
    · simpa only [active] using groups
    · intro on h' c sh active'
      exact entries on h' c sh ((active ..).mp active')
    · intro k inside
      rcases labels k inside with zero | big | ⟨h', c, sh, role, tag⟩ | claimed
      · exact .inl zero
      · exact .inr (.inl big)
      · exact .inr (.inr (.inl ⟨h', c, sh, (active ..).mpr role, tag⟩))
      · exact .inr (.inr (.inr ((kept (by simp) (by simp) k).mpr claimed)))
    · simpa only [active] using lists
    · simpa only [active] using linked
    · intro h' some
      have other : h' ≠ h := by
        rintro rfl
        exact some (Slice.put_cell_same ..)
      simp only [Slice.put_cell_other other] at some ⊢
      obtain ⟨within, roles, entry⟩ := records h' some
      exact ⟨within, fun k lo hi => (runs k h' other).mpr (roles k lo hi), entry⟩
    · intro k h' big
      have other : h' ≠ h := by
        rintro rfl
        rw [assign_other (by simp)] at big
        exact big.1 ((held k).mp big.2)
      rw [runs k h' other] at big
      simp only [Slice.put_cell_other other]
      exact large k h' big
  · simpa only [active] using ledger.slots.once
  · simpa only [active] using ledger.slots.bits
  · simpa only [IsSlot, active] using ledger.slots.outside
  · obtain ⟨h', place, some, cell'⟩ := recorded x (Multiset.mem_cons_of_mem member)
    have other : h' ≠ h := by
      rintro rfl
      exact distinct.1 (Multiset.mem_map.mpr ⟨x, member, place⟩)
    exact ⟨h', place, some, by simp only [Slice.put_cell_other other, cell']⟩
  · rw [(held k).mpr ⟨lo, hi⟩] at loose
    cases loose
  · simpa only [active] using ledger.used

theorem assign_assign (role : Nat → Role) (h n : Nat) (r r' : Role) :
    assign (assign role h n r) h n r' = assign role h n r' := by
  funext k
  unfold assign
  split <;> rfl

/-- A large free files exactly the run it was given, unless the mutex is poisoned. -/
theorem deallocLarge_spec
    (ledger : s.Ledger trust g role H ((g.base + h * spanBytes, n) ::ₘ L) W)
    (settled : ∀ k, role k ≠ .claimed) :
    Triple (· = s) (deallocLarge (g.base + h * spanBytes))
      (fun _ s' => s'.Ledger trust g (assign role h n .pooled) H L W ∧ s.large.poisoned = false ∧
        ∃ pool, s' = { s with
          large := { s.large with pool, runSpans := s.large.runSpans.put h 0 } })
      (fun s' => Kept trust g H L s' ∧ s.large.poisoned = true) := by
  obtain ⟨cell, pos, fits, held⟩ := ledger.run
  have small := ledger.stock.grid.small
  have index := ledger.stock.grid.spanIndex h
  have inside : h < s.large.runSpans.len := by
    rw [ledger.stock.grid.runs]
    omega
  have released := ledger.release
  refine Triple.inspect fun s' same => ?_
  rw [same, index, Slice.get?_inside inside, cell]
  refine Triple.bind (Q := fun _ s' => s' = { s with
    large := { s.large with runSpans := s.large.runSpans.put h 0 } }) (Triple.modify ?_) fun _ => ?_
  · rintro _ rfl
    rw [index]
  refine Triple.ite (fun zero => by omega) fun _ => Triple.ite (fun poisoned => Triple.fail ?_)
    fun clear => ?_
  · rintro _ rfl
    exact ⟨⟨_, _, released, assign_settled settled (by simp)⟩, poisoned⟩
  · rw [Bool.not_eq_true] at clear
    obtain ⟨pool, filed, kept⟩ := released.file clear fits
    rw [assign_assign] at kept
    rw [wrap32_small (by omega), filed]
    apply Triple.modify
    rintro _ rfl
    exact ⟨kept, clear, pool, rfl⟩

/-! ## Freeing by pointer alone -/

variable {p c : Nat}

/-- An object whose spans are whole is looked up in the first of them. -/
theorem Ledger.indexOf_slot (ledger : s.Ledger trust g role H L W) {k i sh : Nat}
    (active : role k = .active k c sh) (slot : i < slotsPerSpan (sizeOfClass c)) :
    s.spans.indexOf (g.slotAddr k i c) = none ∨ s.spans.indexOf (g.slotAddr k i c) = some k := by
  have low := offset_lt (ledger.cells.isClass active).size_pos slot
  by_cases inside : k * spanBytes + i * sizeOfClass c < s.spans.len
  · exact .inr (ledger.stock.grid.indexOf low inside)
  · refine .inl ?_
    rw [SpanTable.indexOf, ledger.stock.grid.table, Geometry.slotAddr, if_pos (.inr (by omega))]

theorem Ledger.indexOf_whole (ledger : s.Ledger trust g role H L W) (whole : s.clipped = false)
    {k i sh : Nat} (active : role k = .active k c sh) (slot : i < slotsPerSpan (sizeOfClass c)) :
    s.spans.indexOf (g.slotAddr k i c) = some k := by
  have low := offset_lt (ledger.cells.isClass active).size_pos slot
  refine ledger.stock.grid.indexOf low ?_
  have := ledger.stock.whole whole k (by simp [active])
  rw [Nat.add_one_mul] at this
  omega

/-- What the table may say of an object. -/
theorem Ledger.lookup_object (ledger : s.Ledger trust g role H L W)
    (settled : ∀ k, role k ≠ .claimed) (slot : IsSlot g role p c) :
    s.spans.lookup p = none ∨ s.spans.lookup p = some (largeClass, 0) ∨
      ∃ home, s.spans.lookup p = some (c, home) := by
  obtain ⟨k, sh, i, active, low, rfl⟩ := slot
  rw [SpanTable.lookup]
  rcases ledger.indexOf_slot active low with outside | index
  · rw [outside]
    exact .inl rfl
  · rw [index, Option.bind_some]
    rcases ledger.cells.labels k (ledger.cells.inside active) with
      zero | large | ⟨h, c', sh', active', tag⟩ | claimed
    · rw [zero]
      exact .inl rfl
    · rw [large, unpack_large]
      exact .inr (.inl rfl)
    · rw [active] at active'
      cases active'
      obtain ⟨home, packed, small, -⟩ := tag
      rw [packed, unpack_pack (ledger.cells.isClass active).pos small]
      exact .inr (.inr ⟨home, rfl⟩)
    · exact (settled k claimed).elim

/-- No run is recorded where an object lies. -/
theorem Ledger.unrecorded (ledger : s.Ledger trust g role H L W) (slot : IsSlot g role p c) :
    s.large.spanIndex p < s.large.runSpans.len ∧ s.large.runSpans.cell (s.large.spanIndex p) = 0 := by
  obtain ⟨k, sh, i, active, low, rfl⟩ := slot
  have index : s.large.spanIndex (g.slotAddr k i c) = k := by
    rw [LargeAllocator.spanIndex, ledger.stock.grid.large, Geometry.slotAddr, show
      g.base + k * spanBytes + i * sizeOfClass c - g.base = i * sizeOfClass c + k * spanBytes by omega,
      Nat.add_mul_div_right _ _ (by decide),
      Nat.div_eq_of_lt (offset_lt (ledger.cells.isClass active).size_pos low), Nat.zero_add]
  rw [index, ledger.stock.grid.runs]
  exact ⟨lt_of_lt_of_le (ledger.cells.inside active) (le_max_left ..),
    ledger.cells.unrecorded (by simp [active])⟩

/-- An object is looked up under its class. -/
theorem Ledger.lookup_class (ledger : s.Ledger trust g role H L W) (on : trust.tagged)
    (whole : s.clipped = false) (slot : IsSlot g role p c) :
    ∃ home, s.spans.lookup p = some (c, home) := by
  obtain ⟨k, sh, i, active, low, rfl⟩ := slot
  obtain ⟨home, packed, small, -⟩ := ledger.cells.entries on k c sh active
  rw [SpanTable.lookup, ledger.indexOf_whole whole active low, Option.bind_some, packed,
    unpack_pack (ledger.cells.isClass active).pos small]
  exact ⟨home, rfl⟩

theorem Ledger.indexOf_run (ledger : s.Ledger trust g role H ((g.base + h * spanBytes, n) ::ₘ L) W) :
    s.spans.indexOf (g.base + h * spanBytes) = some h := by
  obtain ⟨-, pos, fits, -⟩ := ledger.run
  have inside : h * spanBytes < s.spans.len := numSpans_iff.mp (by omega)
  have index : s.spans.indexOf (g.base + h * spanBytes + 0) = some h :=
    ledger.stock.grid.indexOf (by decide) (by simpa using inside)
  rwa [Nat.add_zero] at index

/-- A large run is looked up as such, or the table has lost it. -/
theorem Ledger.lookup_run (ledger : s.Ledger trust g role H ((g.base + h * spanBytes, n) ::ₘ L) W)
    (settled : ∀ k, role k ≠ .claimed) :
    (¬ trust.tagged ∧ s.spans.lookup (g.base + h * spanBytes) = none) ∨
      s.spans.lookup (g.base + h * spanBytes) = some (largeClass, 0) := by
  obtain ⟨cell, pos, fits, held⟩ := ledger.run
  rw [SpanTable.lookup, ledger.indexOf_run, Option.bind_some]
  by_cases on : trust.tagged
  · refine .inr ?_
    rw [(ledger.cells.runs h (by omega)).2.2 on, unpack_large]
  · have large : role h = .large h := (held h).mpr ⟨le_rfl, by omega⟩
    rcases ledger.cells.labels h (by omega) with zero | tag | ⟨h', c, sh, active, -⟩ | claimed
    · rw [zero]
      exact .inl ⟨on, rfl⟩
    · rw [tag, unpack_large]
      exact .inr rfl
    · rw [large] at active
      cases active
    · exact (settled h claimed).elim

variable {t : Nat}

/-- Without an entry nothing is freed. -/
theorem deallocByPtr_none (none : s.spans.lookup p = none) :
    deallocByPtr p t s = (pure false : Prog Turn SubHeap Bool) s := by
  funext env
  rw [deallocByPtr, Prog.read_bind, none]

theorem deallocByPtr_class {home : Nat} (isClass : IsClass c)
    (found : s.spans.lookup p = some (c, home)) :
    deallocByPtr p t s = (do deallocClass p c t; return true : Prog Turn SubHeap Bool) s := by
  have small : c ≠ largeClass := by
    rintro rfl
    exact not_isClass_large isClass
  funext env
  rw [deallocByPtr, Prog.read_bind, found]
  dsimp only
  rw [if_neg small]

theorem deallocByPtr_large (found : s.spans.lookup p = some (largeClass, 0)) :
    deallocByPtr p t s = (do deallocLarge p; return true : Prog Turn SubHeap Bool) s := by
  funext env
  rw [deallocByPtr, Prog.read_bind, found]
  dsimp only
  rw [if_pos rfl]

/-- Freeing a span that is not the first of a recorded run does nothing. -/
theorem deallocLarge_unrecorded (inside : s.large.spanIndex p < s.large.runSpans.len)
    (zero : s.large.runSpans.cell (s.large.spanIndex p) = 0) :
    deallocLarge p s = (pure () : Prog Turn SubHeap Unit) s := by
  have same : s.large.runSpans.put (s.large.spanIndex p) 0 = s.large.runSpans := by
    rw [Slice.put, ← zero, Function.update_eq_self]
  funext env
  rw [deallocLarge, Prog.read_bind, Slice.get?_inside inside, zero]
  show (_, { s with large := { s.large with runSpans := _ } }, _) = _
  rw [same]
  rfl

/-- Freeing an object by its address: done, or lost where the table is no help. -/
theorem deallocByPtr_object {whole : Prop} {E : SubHeap → Prop}
    (kept : whole → trust.tagged ∧ s.clipped = false)
    (ledger : s.Ledger trust g role ((p, c) ::ₘ H) L W) (settled : ∀ k, role k ≠ .claimed) :
    Triple (· = s) (deallocByPtr p t)
      (fun _ s' => ∃ lost, (whole → lost = 0) ∧ Owned trust g (lost + H) L W s') E := by
  have slot := ledger.slots.outside c p (.inr (Multiset.mem_cons_self ..))
  have lost : ¬ whole → ∃ lost, (whole → lost = 0) ∧ Owned trust g (lost + H) L W s :=
    fun none => ⟨{(p, c)}, fun all => (none all).elim, role, by rwa [Multiset.singleton_add], settled⟩
  have found : whole → ∃ home, s.spans.lookup p = some (c, home) :=
    fun all => ledger.lookup_class (kept all).1 (kept all).2 slot
  have isClass : IsClass c := by
    obtain ⟨k, sh, i, active, -⟩ := slot
    exact ledger.cells.isClass active
  rcases ledger.lookup_object settled slot with none | large | ⟨home, here⟩
  · refine Triple.same (Triple.ret false ?_) (deallocByPtr_none none)
    rintro _ rfl
    refine lost fun all => ?_
    obtain ⟨home, here⟩ := found all
    simp [none] at here
  · refine Triple.same (Triple.bind (Q := fun _ => (· = s)) ?_ fun _ => Triple.ret true ?_)
      (deallocByPtr_large large)
    · obtain ⟨inside, zero⟩ := ledger.unrecorded slot
      exact Triple.same (Triple.ret () fun _ same => same) (deallocLarge_unrecorded inside zero)
    · rintro _ rfl
      refine lost fun all => ?_
      obtain ⟨home, here⟩ := found all
      rw [large] at here
      cases here
      exact not_isClass_large isClass
  · refine Triple.same (Triple.start (Triple.bind (deallocClass_spec t) fun _ => Triple.ret true
      fun s' owned => ?_) ⟨role, ledger, settled⟩) (deallocByPtr_class isClass here)
    exact ⟨0, fun _ => rfl, by rwa [zero_add]⟩

/-- Freeing a large run by its address. -/
theorem deallocByPtr_run {whole : Prop} (kept : whole → trust.tagged)
    (ledger : s.Ledger trust g role H ((g.base + h * spanBytes, n) ::ₘ L) W)
    (settled : ∀ k, role k ≠ .claimed) :
    Triple (· = s) (deallocByPtr (g.base + h * spanBytes) t)
      (fun _ s' => ∃ lost, (whole → lost = 0) ∧ Kept trust g H (lost + L) s')
      (fun s' => Kept trust g H L s') := by
  rcases ledger.lookup_run settled with ⟨untagged, none⟩ | large
  · refine Triple.same (Triple.ret false ?_) (deallocByPtr_none none)
    rintro _ rfl
    refine ⟨{(g.base + h * spanBytes, n)}, fun all => (untagged (kept all)).elim, W, role, ?_, settled⟩
    rwa [Multiset.singleton_add]
  · refine Triple.same (Triple.bind ((deallocLarge_spec ledger settled).relax fun s' panic => panic.1)
      fun _ => Triple.ret true fun s' freed => ?_) (deallocByPtr_large large)
    exact ⟨0, fun _ => rfl, W, _, by simpa only [zero_add] using freed.1, assign_settled settled (by simp)⟩

end SubHeap

end Toccata
