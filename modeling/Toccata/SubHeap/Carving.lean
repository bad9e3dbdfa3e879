import Toccata.SubHeap.Objects

/-! # Carving spans for a cell

A carve claims spans from the pool or from the cursor, tags them, and adopts them
into a cell: all their slots become free bits and the span joins the cell's list.
Until then a claimed span may say anything in the table.
-/

namespace Toccata

open Foundations SizeClass

/-- A carve takes nothing, or moves the cursor over spans and tags them. -/
theorem BumpArena.carveSpans_cases {a a' : BumpArena} {n cls home : Nat} {spans spans' : SpanTable}
    {range : Nat × Nat} (carved : a.carveSpans n cls home spans = (range, a', spans')) :
    a' = a ∧ spans' = spans ∨
      ∃ more bytes, more ≤ n * spanBytes ∧ a' = { a with cursor := a.cursor + more } ∧
        spans' = spans.assignRange a.cursor bytes cls home := by
  rw [BumpArena.carveSpans] at carved
  generalize (a.limit - a.cursor) / spanBytes = avail at carved
  dsimp only at carved
  split at carved
  · simp only [Prod.mk.injEq] at carved
    exact .inl ⟨carved.2.1.symm, carved.2.2.symm⟩
  · simp only [Prod.mk.injEq] at carved
    have few : min n avail * spanBytes ≤ n * spanBytes := Nat.mul_le_mul_right _ (min_le_left ..)
    exact .inr ⟨_, _, few, carved.2.1.symm, carved.2.2.symm⟩

namespace SubHeap

variable {trust : Trust} {g : Geometry} {s s' : SubHeap} {role role' : Nat → Role}
  {H L : Multiset (Nat × Nat)} {W W' : List (Nat × Nat)}

/-- What stays when only the stock of unused spans changes. -/
structure Restock (s s' : SubHeap) : Prop where
  slab : s'.slab = s.slab
  head : s'.head = s.head
  bitmaps : s'.bitmaps = s.bitmaps
  numShards : s'.numShards = s.numShards
  base : s'.arena.base = s.arena.base
  limit : s'.arena.limit = s.arena.limit
  table : s'.spans.base = s.spans.base
  len : s'.spans.len = s.spans.len
  large : s'.large.arenaBase = s.large.arenaBase
  runSpans : s'.large.runSpans = s.large.runSpans

theorem Restock.numSpans (same : Restock s s') : s'.spans.numSpans = s.spans.numSpans := by
  rw [SpanTable.numSpans, SpanTable.numSpans, same.len]

theorem Labelled.same {k : Nat} (label : s.Labelled trust role k)
    (entry : s'.spans.entry k = s.spans.entry k) (numShards : s'.numShards = s.numShards)
    (same : role' k = role k) : s'.Labelled trust role' k := by
  simpa only [Labelled, Tagged, entry, numShards, same] using label

/-- Plain spans change hands; nothing in use notices. -/
theorem Ledger.restock (ledger : s.Ledger trust g role H L W) (same : Restock s s')
    (agree : Agree role role')
    (entries : ∀ k, ¬ (role k).plain → s'.spans.entry k = s.spans.entry k)
    (labels : ∀ k, k < s'.spans.numSpans → s'.Labelled trust role' k)
    (stock : s'.Stock g role') (loose : Loose role' W')
    (healthy : trust.tagged → s'.clipped = false → s'.large.poisoned = false) :
    s'.Ledger trust g role' H L W' where
  stock := stock
  cells := by
    obtain ⟨groups, tags, -, lists, linked, runs, large⟩ := ledger.cells
    have solid : ∀ {k h c sh}, role k = .active h c sh → s'.spans.entry k = s.spans.entry k := by
      intro k h c sh active
      apply entries
      rw [active]
      exact id
    refine ⟨?_, ?_, labels, ?_, ?_, ?_, ?_⟩
    · simpa only [same.numShards, same.numSpans, agree.active] using groups
    · intro on h c sh active
      rw [agree.active] at active
      simpa only [Tagged, solid active, same.numShards] using tags on h c sh active
    · simpa only [same.numShards, same.head, same.bitmaps, agree.active] using lists
    · simpa only [same.bitmaps, agree.active] using linked
    · intro h some
      rw [same.runSpans] at some
      obtain ⟨fits, roles, entry⟩ := runs h some
      have first : role h = .large h := roles h le_rfl (by omega)
      rw [same.runSpans, same.numSpans, entries h (by rw [first]; exact id)]
      exact ⟨fits, fun k lo hi => agree.large.mpr (roles k lo hi), entry⟩
    · simpa only [same.runSpans, agree.large] using large
  slots := by
    obtain ⟨once, bits, outside⟩ := ledger.slots
    refine ⟨?_, ?_, ?_⟩
    · simpa only [agree.active, same.bitmaps, same.slab] using once
    · simpa only [agree.active, same.bitmaps] using bits
    · simpa only [IsSlot, agree.active, same.slab] using outside
  larges := by
    obtain ⟨distinct, recorded⟩ := ledger.larges
    refine ⟨distinct, ?_⟩
    simpa only [same.runSpans] using recorded
  loose := loose
  used := by
    simpa only [agree.active] using ledger.used
  healthy := healthy

theorem Loose.kept {h n : Nat} {r : Role} (loose : Loose role W) (different : ∀ h', r ≠ .loose h')
    (apart : ∀ k, h ≤ k → k < h + n → ∀ h', role k ≠ .loose h') : Loose (assign role h n r) W where
  distinct := loose.distinct
  some := loose.some
  inside x member k lo hi := by
    have held := loose.inside x member k lo hi
    rw [assign_outside]
    · exact held
    · intro within
      exact apart k within.1 within.2 _ held
  known k h' held := by
    rw [assign_other (different h').symm] at held
    exact loose.known k h' held.2

/-- Spans that nobody held loose become so. -/
theorem Loose.taken {h n : Nat} (loose : Loose role W) (pos : 0 < n)
    (apart : ∀ k, h ≤ k → k < h + n → ∀ h', role k ≠ .loose h') :
    Loose (assign role h n (.loose h)) ((h, n) :: W) where
  distinct := by
    refine List.nodup_cons.mpr ⟨fun listed => ?_, loose.distinct⟩
    obtain ⟨x, member, same⟩ := List.mem_map.mp listed
    have held := loose.inside x member x.1 le_rfl (by have := loose.some x member; omega)
    rw [same] at held
    exact apart h le_rfl (by omega) _ held
  some := List.forall_mem_cons.mpr ⟨pos, loose.some⟩
  inside := by
    refine List.forall_mem_cons.mpr ⟨fun k lo hi => assign_inside lo hi, fun x member k lo hi => ?_⟩
    have held := loose.inside x member k lo hi
    rw [assign_outside]
    · exact held
    · intro within
      exact apart k within.1 within.2 _ held
  known k h' held := by
    by_cases within : h ≤ k ∧ k < h + n
    · exact ⟨(h, n), List.mem_cons_self, within⟩
    · rw [assign_outside within] at held
      obtain ⟨x, member, inside⟩ := loose.known k h' held
      exact ⟨x, List.mem_cons_of_mem _ member, inside⟩

/-! ## Taking unused spans -/

theorem Grid.moveCursor (grid : s.Grid g) (cursor : Nat) :
    Grid g { s with arena := { s.arena with cursor } } := { grid with }

theorem Stock.retag (stock : s.Stock g role) (entry : Nat → Nat) :
    Stock g { s with spans := { s.spans with entry } } role :=
  { stock with grid := { stock.grid with } }

theorem Restock.carved (s : SubHeap) (cursor : Nat) (entry : Nat → Nat) :
    Restock s { s with arena := { s.arena with cursor }, spans := { s.spans with entry } } :=
  ⟨rfl, rfl, rfl, rfl, rfl, rfl, rfl, rfl, rfl, rfl⟩

/-- A run taken out of the pool, for whatever use. -/
theorem Stock.fromPool {h n : Nat} {r : Role} {p : SpanPool} (stock : s.Stock g role)
    (taken : r ≠ .pooled) (used : r ≠ .fresh) (pooled : ∀ k, h ≤ k → k < h + n → role k = .pooled)
    (represents : p.Represents (max s.spans.numSpans 1) ({k | role k = .pooled} \ Set.Ico h (h + n))) :
    Stock g { s with large := { s.large with pool := p } } (assign role h n r) := by
  obtain ⟨grid, ⟨f, here, low, fresh⟩, stocked, -, whole, carved⟩ := stock
  refine ⟨{ grid with }, ⟨f, here, low, fun left k beyond => ?_⟩, fun k held => ?_, fun _ => ?_,
    fun unclipped k held => ?_, fun k below held => ?_⟩
  · rw [assign_outside]
    · exact fresh left k beyond
    · intro inside
      have := fresh left k beyond
      rw [pooled k inside.1 inside.2] at this
      cases this
  · rw [assign_other taken.symm] at held
    exact stocked k held.2
  · have rest : {k | assign role h n r k = .pooled} = {k | role k = .pooled} \ Set.Ico h (h + n) := by
      ext k
      simp only [Set.mem_ofPred_eq, Set.mem_sdiff, Set.mem_Ico]
      rw [assign_other taken.symm, and_comm]
    rw [rest]
    exact represents
  · apply whole unclipped
    by_cases inside : h ≤ k ∧ k < h + n
    · rw [pooled k inside.1 inside.2]
      simp
    · rwa [assign_outside inside] at held
  · rw [assign_other used.symm] at held
    exact carved k below held.2

/-- Spans taken from the cursor on, for whatever use. -/
theorem Stock.fromCursor {f n : Nat} {r : Role} (stock : s.Stock g role)
    (taken : r ≠ .pooled) (used : r ≠ .fresh) (here : s.arena.cursor = g.base + f * spanBytes)
    (fresh : ∀ k, f ≤ k → role k = .fresh) (bound : (f + n) * spanBytes ≤ s.spans.len) :
    Stock g { s with arena := { s.arena with cursor := g.base + (f + n) * spanBytes } }
      (assign role f n r) := by
  obtain ⟨grid, -, stocked, pool, whole, carved⟩ := stock
  refine ⟨grid.moveCursor _, ⟨f + n, rfl, bound, fun _ k above => ?_⟩, fun k held => ?_, fun clear => ?_,
    fun unclipped k held => ?_, fun k below held => ?_⟩
  · rw [assign_outside (by omega)]
    exact fresh k (by omega)
  · rw [assign_other taken.symm] at held
    exact stocked k held.2
  · have rest : {k | assign role f n r k = .pooled} = {k | role k = .pooled} := by
      ext k
      refine assign_kept taken.symm fun k lo _ pooled => ?_
      rw [fresh k lo] at pooled
      cases pooled
    rw [rest]
    exact pool clear
  · by_cases inside : f ≤ k ∧ k < f + n
    · refine (Nat.mul_le_mul_right _ ?_).trans bound
      omega
    · rw [assign_outside inside] at held
      exact whole unclipped k held
  · rw [assign_other used.symm] at held
    have above : k + 1 ≤ f + n :=
      Nat.le_of_mul_le_mul_right (Nat.le_of_add_le_add_left below) (by decide)
    refine carved k ?_ held.2
    rw [here]
    refine Nat.add_le_add_left (Nat.mul_le_mul_right _ ?_) _
    have := held.1
    omega

/-! ## Claiming -/

/-- A run just claimed: `take` spans from `h` on, of `want` asked for, tagged and in
    nobody's hands but the carver's. A short run leaves no whole span in the arena. -/
structure Claimed (g : Geometry) (s : SubHeap) (role : Nat → Role) (cls home h take want : Nat) :
    Prop where
  some : 0 < take
  fits : take ≤ want
  inside : h + take ≤ s.spans.numSpans
  exact : ∀ k, role k = .claimed ↔ h ≤ k ∧ k < h + take
  tags : ∀ k, h ≤ k → k < h + take → s.spans.entry k = SpanTable.pack cls home
  short : take < want → (∀ k, h + take ≤ k → role k = .fresh) ∧
    s.arena.cursor = g.base + (h + take) * spanBytes ∧ s.spans.len < (h + take + 1) * spanBytes

/-- Unused spans claimed and tagged. -/
theorem Ledger.claim {h n : Nat} (ledger : s.Ledger trust g role H L W) (same : Restock s s')
    (unused : ∀ k, h ≤ k → k < h + n → role k = .fresh ∨ role k = .pooled)
    (entries : ∀ k, ¬ (h ≤ k ∧ k < h + n) → s'.spans.entry k = s.spans.entry k)
    (stock : s'.Stock g (assign role h n .claimed))
    (healthy : trust.tagged → s'.clipped = false → s'.large.poisoned = false) :
    s'.Ledger trust g (assign role h n .claimed) H L W := by
  have plain : ∀ k, h ≤ k → k < h + n → (role k).plain := by
    intro k lo hi
    rcases unused k lo hi with fresh | pooled
    · rw [fresh]
      trivial
    · rw [pooled]
      trivial
  refine ledger.restock same (assign_agree plain trivial) ?_ ?_ stock (ledger.loose.kept (by simp) ?_) healthy
  · intro k solid
    apply entries
    intro inside
    exact solid (plain k inside.1 inside.2)
  · intro k inside
    by_cases within : h ≤ k ∧ k < h + n
    · exact .inr (.inr (.inr (assign_inside within.1 within.2)))
    · rw [same.numSpans] at inside
      exact (ledger.cells.labels k inside).same (entries k within) same.numShards
        (assign_outside within)
  · intro k lo hi h' loose
    rcases unused k lo hi with fresh | pooled
    · rw [fresh] at loose
      cases loose
    · rw [pooled] at loose
      cases loose

theorem assign_claimed {h n : Nat} (settled : ∀ k, role k ≠ .claimed) (k : Nat) :
    assign role h n .claimed k = .claimed ↔ h ≤ k ∧ k < h + n := by
  constructor
  · intro claimed
    by_contra outside
    rw [assign_outside outside] at claimed
    exact settled k claimed
  · intro inside
    exact assign_inside inside.1 inside.2

/-- A run taken from the pool. -/
theorem Ledger.claimPool {n cls home h m : Nat} {p : SpanPool}
    (ledger : s.Ledger trust g role H L W) (settled : ∀ k, role k ≠ .claimed) (pos : 0 < n)
    (enough : n ≤ m) (run : IsRun {k | role k = .pooled} h m)
    (represents : p.Represents (max s.spans.numSpans 1) ({k | role k = .pooled} \ Set.Ico h (h + n))) :
    let s' : SubHeap := { s with
      large := { s.large with pool := p }
      spans := s.spans.assignRange (s.large.spanPtr h)
        (s.large.spanPtr h + n * spanBytes - s.large.spanPtr h) cls home }
    s'.Ledger trust g (assign role h n .claimed) H L W ∧
      s'.Claimed g (assign role h n .claimed) cls home h n n := by
  have pooled : ∀ k, h ≤ k → k < h + n → role k = .pooled :=
    fun k lo hi => run.inside k lo (by omega)
  have fits : h + n ≤ s.spans.numSpans := by
    have := ledger.stock.stocked (h + n - 1) (pooled _ (by omega) (by omega))
    omega
  have tagged : s.spans.assignRange (s.large.spanPtr h)
      (s.large.spanPtr h + n * spanBytes - s.large.spanPtr h) cls home =
      { s.spans with entry := fun k => if h ≤ k ∧ k < h + n ∧ k < s.spans.numSpans then
          SpanTable.pack cls home else s.spans.entry k } := by
    rw [LargeAllocator.spanPtr, ledger.stock.grid.large, Nat.add_sub_cancel_left]
    exact ledger.stock.grid.assignRange cls home pos (by omega) (by omega)
  rw [tagged]
  have stock := ledger.stock.fromPool (r := .claimed) (by simp) (by simp) pooled represents
  refine ⟨ledger.claim ⟨rfl, rfl, rfl, rfl, rfl, rfl, rfl, rfl, rfl, rfl⟩
    (fun k lo hi => .inr (pooled k lo hi)) (fun k outside => if_neg ?_) (stock.retag _)
    ledger.healthy, ?_⟩
  · exact fun inside => outside ⟨inside.1, inside.2.1⟩
  · refine ⟨pos, le_rfl, fits, assign_claimed settled, ?_, fun short => ?_⟩
    · intro k lo hi
      have : k < s.spans.numSpans := by omega
      exact if_pos ⟨lo, hi, this⟩
    · omega

/-- Spans taken from the cursor, as many as are left of those wanted. -/
theorem Ledger.claimCursor {n : Nat} (cls home : Nat)
    (ledger : s.Ledger trust g role H L W) (settled : ∀ k, role k ≠ .claimed) (pos : 0 < n)
    (left : (s.arena.limit - s.arena.cursor) / spanBytes ≠ 0) :
    let carved := s.arena.carveSpans n cls home s.spans
    let s' : SubHeap := { s with arena := carved.2.1, spans := carved.2.2 }
    ∃ h take, carved.1 = (g.base + h * spanBytes, g.base + (h + take) * spanBytes) ∧
      s'.Ledger trust g (assign role h take .claimed) H L W ∧
      s'.Claimed g (assign role h take .claimed) cls home h take n := by
  obtain ⟨f, cursor, low, fresh⟩ := ledger.stock.cursor
  have limit := ledger.stock.grid.limit
  have avail : (s.arena.limit - s.arena.cursor) / spanBytes =
      (s.spans.len - f * spanBytes) / spanBytes := by
    rw [limit, cursor, Nat.add_sub_add_left]
  have available : ∃ avail, (s.arena.limit - s.arena.cursor) / spanBytes = avail ∧ 0 < avail ∧
      (f + avail) * spanBytes ≤ s.spans.len ∧ s.spans.len < (f + avail + 1) * spanBytes := by
    have split := Nat.div_add_mod (s.spans.len - f * spanBytes) spanBytes
    have rest := Nat.mod_lt (s.spans.len - f * spanBytes) (show 0 < spanBytes by decide)
    refine ⟨_, rfl, Nat.pos_of_ne_zero left, ?_, ?_⟩
    · rw [avail, Nat.add_mul, Nat.mul_comm (_ / _)]
      omega
    · rw [avail, Nat.add_mul, Nat.add_mul, Nat.mul_comm (_ / _)]
      omega
  obtain ⟨avail, counted, some, within, beyond⟩ := available
  obtain ⟨take, taken⟩ : ∃ take, min n avail = take := ⟨_, rfl⟩
  have takePos : 0 < take := by omega
  have bound : (f + take) * spanBytes ≤ s.spans.len :=
    (Nat.mul_le_mul_right _ (by omega)).trans within
  have inside : f + take ≤ s.spans.numSpans := by
    have := numSpans_iff (s := s) (k := f + take - 1)
    have : (f + take - 1) * spanBytes < s.spans.len := by
      refine lt_of_lt_of_le (Nat.mul_lt_mul_of_pos_right ?_ (by decide)) bound
      omega
    omega
  have unused : ∀ k, f ≤ k → role k = .fresh := by
    apply fresh
    refine (Nat.mul_le_mul_right _ ?_).trans within
    omega
  have start : s.arena.cursor + take * spanBytes = g.base + (f + take) * spanBytes := by
    rw [cursor, Nat.add_mul, Nat.add_assoc]
  have carved : s.arena.carveSpans n cls home s.spans =
      ((g.base + f * spanBytes, g.base + (f + take) * spanBytes),
        { s.arena with cursor := g.base + (f + take) * spanBytes },
        { s.spans with entry := fun k => if f ≤ k ∧ k < f + take ∧ k < s.spans.numSpans then
            SpanTable.pack cls home else s.spans.entry k }) := by
    rw [BumpArena.carveSpans, counted]
    simp only [if_neg some.ne', taken, start]
    rw [← ledger.stock.grid.assignRange cls home takePos (by omega) (by omega), cursor,
      Nat.add_mul, ← Nat.add_assoc, Nat.add_sub_cancel_left]
  rw [carved]
  have stock := ledger.stock.fromCursor (r := .claimed) (by simp) (by simp) cursor unused bound
  refine ⟨f, take, rfl, ledger.claim (Restock.carved ..) (fun k lo _ => .inl (unused k lo))
    (fun k outside => if_neg ?_) (stock.retag _) ledger.healthy, ?_⟩
  · exact fun inside => outside ⟨inside.1, inside.2.1⟩
  · refine ⟨takePos, by omega, inside, assign_claimed settled, ?_, fun short => ⟨?_, rfl, ?_⟩⟩
    · intro k lo hi
      have : k < s.spans.numSpans := by omega
      exact if_pos ⟨lo, hi, this⟩
    · intro k above
      rw [assign_outside (by omega)]
      exact unused k (by omega)
    · have : take = avail := by omega
      rw [this]
      exact beyond

/-- A claim cut short by the end of the arena, extended past it. -/
theorem Ledger.extend {cls home h take want : Nat} (ledger : s.Ledger trust g role H L W)
    (claim : s.Claimed g role cls home h take want) (short : take < want) :
    Ledger trust g { s with clipped := true } (assign role h want .claimed) H L W := by
  obtain ⟨fresh, cursor, drained⟩ := claim.short short
  have plain : ∀ k, h ≤ k → k < h + want → role k = .claimed ∨ role k = .fresh := by
    intro k lo hi
    by_cases within : k < h + take
    · exact .inl ((claim.exact k).mpr ⟨lo, within⟩)
    · exact .inr (fresh k (by omega))
  refine ledger.restock ⟨rfl, rfl, rfl, rfl, rfl, rfl, rfl, rfl, rfl, rfl⟩
    (assign_agree ?_ trivial) (fun _ _ => rfl) ?_ ⟨{ ledger.stock.grid with }, ?_, ?_, ?_, nofun, ?_⟩
    (ledger.loose.kept (by simp) ?_) fun _ => nofun
  · intro k lo hi
    rcases plain k lo hi with held | held <;> rw [held] <;> trivial
  · intro k inside
    by_cases within : h ≤ k ∧ k < h + want
    · exact .inr (.inr (.inr (assign_inside within.1 within.2)))
    · exact (ledger.cells.labels k inside).same rfl rfl (assign_outside within)
  · obtain ⟨f, here, low, -⟩ := ledger.stock.cursor
    refine ⟨f, here, low, fun (left : (f + 1) * spanBytes ≤ s.spans.len) => ?_⟩
    have same : f * spanBytes = (h + take) * spanBytes := by omega
    rw [Nat.eq_of_mul_eq_mul_right (by decide) same] at left
    omega
  · intro k pooled
    rw [assign_other (by simp)] at pooled
    exact ledger.stock.stocked k pooled.2
  · intro clear
    have rest : {k | assign role h want .claimed k = .pooled} = {k | role k = .pooled} := by
      ext k
      refine assign_kept (by simp) fun k lo hi pooled => ?_
      rcases plain k lo hi with held | held <;> rw [held] at pooled <;> cases pooled
    rw [rest]
    exact ledger.stock.pool clear
  · intro k below held
    rw [assign_other (by simp)] at held
    exact ledger.stock.carved k below held.2
  · intro k lo hi h' loose
    rcases plain k lo hi with held | held <;> rw [held] at loose <;> cases loose

/-! ## Adopting -/

theorem adopt_eq {shard cls slots h : Nat} (off : s.bitmaps.onList h = false) :
    s.adopt shard cls slots h = { s.setHead shard cls h with
      bitmaps := (s.bitmaps.tileSpan h slots).linkFront h (s.head shard cls) } := by
  have kept : (s.bitmaps.tileSpan h slots).onList h = false := by
    rw [(s.bitmaps.tileSpan_spec h slots).1.onList]
    exact off
  simp only [adopt, kept, Bool.false_eq_true, if_false]
  rfl

theorem setHead_head (s : SubHeap) (shard cls span sh c : Nat) :
    (s.setHead shard cls span).head sh c = if sh = shard ∧ c = cls then span else s.head sh c := by
  unfold setHead
  by_cases same : sh = shard
  · subst same
    by_cases here : c = cls
    · subst here
      simp
    · simp [here]
  · simp [same]

/-- Roles of a group given to a cell: what was there is plain, so no other group, run
    or loose run loses a span. -/
theorem assign_active {h n c sh : Nat} {r' : Role} (claimed : ∀ k, h ≤ k → k < h + n → role k = .claimed)
    (different : r' ≠ .active h c sh) (other : r' ≠ .claimed) {k : Nat} :
    assign role h n (.active h c sh) k = r' ↔ role k = r' :=
  assign_kept different fun k lo hi same => other ((claimed k lo hi).symm.trans same).symm

/-- A claimed group joins the list of a cell, with all its slots free. -/
theorem Cells.adopt {h c sh : Nat} (cells : s.Cells trust role) (isClass : IsClass c)
    (inside : sh < s.numShards) (within : h < s.spans.numSpans)
    (claimed : ∀ k, h ≤ k → k < h + groupSpans (sizeOfClass c) → role k = .claimed)
    (tag : s.Tagged trust (s.spans.entry h) c sh)
    (tags : ∀ k, h ≤ k → k < h + groupSpans (sizeOfClass c) → k < s.spans.numSpans →
      s.spans.entry k = 0 ∨ s.spans.entry k = SpanTable.pack largeClass 0 ∨
        s.Tagged trust (s.spans.entry k) c sh) :
    (s.adopt sh c (slotsPerSpan (sizeOfClass c)) h).Cells trust
      (assign role h (groupSpans (sizeOfClass c)) (.active h c sh)) := by
  obtain ⟨groups, entries, labels, lists, linked, runs, large⟩ := cells
  have first : role h = .claimed := claimed h le_rfl (by have := groupSpans_pos (sizeOfClass c); omega)
  have head : assign role h (groupSpans (sizeOfClass c)) (.active h c sh) h = .active h c sh :=
    assign_inside le_rfl (by have := groupSpans_pos (sizeOfClass c); omega)
  have off : s.bitmaps.onList h = false := by
    rw [← Bool.not_eq_true, linked]
    rintro ⟨c', sh', active⟩
    rw [first] at active
    cases active
  have links := (s.bitmaps.tileSpan_spec h (slotsPerSpan (sizeOfClass c))).1
  -- heads of groups: the new one, and those there before
  have heads : ∀ h' c' sh', assign role h (groupSpans (sizeOfClass c)) (.active h c sh) h' =
      .active h' c' sh' ↔ (h' = h ∧ c' = c ∧ sh' = sh) ∨ role h' = .active h' c' sh' := by
    intro h' c' sh'
    by_cases new : h' = h ∧ c' = c ∧ sh' = sh
    · obtain ⟨rfl, rfl, rfl⟩ := new
      simp only [head, true_and, true_or]
    · rw [assign_active claimed _ (by simp)]
      · simp only [new, false_or]
      · intro same
        cases same
        exact new ⟨rfl, rfl, rfl⟩
  rw [adopt_eq off]
  refine ⟨?_, ?_, ?_, ?_, ?_, ?_, ?_⟩
  · intro k h' c' sh' active
    by_cases new : h ≤ k ∧ k < h + groupSpans (sizeOfClass c)
    · rw [assign_inside new.1 new.2] at active
      cases active
      exact ⟨isClass, inside, within, new, fun j lo hi => assign_inside lo hi⟩
    · rw [assign_outside new] at active
      obtain ⟨isClass', inside', within', place, all⟩ := groups k h' c' sh' active
      refine ⟨isClass', inside', within', place, fun j lo hi => ?_⟩
      have old := all j lo hi
      rw [assign_outside]
      · exact old
      · intro overlap
        rw [claimed j overlap.1 overlap.2] at old
        cases old
  · intro on h' c' sh' active
    rcases (heads h' c' sh').mp active with ⟨rfl, rfl, rfl⟩ | old
    · exact tag
    · exact entries on h' c' sh' old
  · intro k low
    by_cases new : h ≤ k ∧ k < h + groupSpans (sizeOfClass c)
    · rcases tags k new.1 new.2 low with zero | big | tagged
      · exact .inl zero
      · exact .inr (.inl big)
      · exact .inr (.inr (.inl ⟨h, c, sh, assign_inside new.1 new.2, tagged⟩))
    · exact (labels k low).same rfl rfl (assign_outside new)
  · intro sh' c' low
    obtain ⟨nodes, walk, distinct, members⟩ := lists sh' c' low
    have outside : h ∉ nodes := by
      intro member
      have := (members h).mp member
      rw [first] at this
      cases this
    rw [← links.nextActive] at walk
    simp only [SpanBitmaps.linkFront, setHead_head]
    by_cases here : sh' = sh ∧ c' = c
    · obtain ⟨rfl, rfl⟩ := here
      refine ⟨h :: nodes, ?_, List.nodup_cons.mpr ⟨outside, distinct⟩, fun h' => ?_⟩
      · rw [if_pos ⟨rfl, rfl⟩]
        exact walk.push outside
      · rw [heads, List.mem_cons, members]
        simp only [and_true]
    · refine ⟨nodes, ?_, distinct, fun h' => ?_⟩
      · rw [if_neg here]
        apply walk.frame
        intro x member
        apply Function.update_of_ne
        intro same
        exact outside (same ▸ member)
      · rw [heads, members]
        constructor
        · exact .inr
        · rintro (⟨-, rfl, rfl⟩ | old)
          · exact (here ⟨rfl, rfl⟩).elim
          · exact old
  · intro k
    simp only [SpanBitmaps.linkFront, links.onList]
    by_cases same : k = h
    · subst same
      rw [Function.update_self]
      exact ⟨fun _ => ⟨c, sh, head⟩, fun _ => rfl⟩
    · rw [Function.update_of_ne same, linked]
      simp only [heads, same, false_and, false_or]
  · intro h' some
    obtain ⟨fits, roles, entry⟩ := runs h' some
    refine ⟨fits, fun k lo hi => ?_, entry⟩
    rw [assign_active claimed (by simp) (by simp)]
    exact roles k lo hi
  · intro k h' big
    rw [assign_active claimed (by simp) (by simp)] at big
    exact large k h' big

/-- No object of the class is outside for a span nobody uses. -/
theorem Slots.unused {k c i : Nat} (slots : s.Slots g role H) (isClass : IsClass c)
    (slot : i < slotsPerSpan (sizeOfClass c)) (idle : ∀ sh, role k ≠ .active k c sh) :
    (s.slab.cached c).count (g.slotAddr k i c) = 0 ∧ H.count (g.slotAddr k i c, c) = 0 := by
  simp only [Multiset.count_eq_zero]
  rw [← not_or]
  intro outside
  obtain ⟨k', sh, i', active, slot', same⟩ := slots.outside c _ outside
  obtain ⟨rfl, -⟩ := slotAddr_inj isClass slot slot' same
  exact idle sh active

theorem Slots.adopt {h c n : Nat} (sh : Nat) (slots : s.Slots g role H) (isClass : IsClass c)
    (off : s.bitmaps.onList h = false) (pos : 0 < n)
    (claimed : ∀ k, h ≤ k → k < h + n → role k = .claimed) :
    (s.adopt sh c (slotsPerSpan (sizeOfClass c)) h).Slots g (assign role h n (.active h c sh)) H := by
  obtain ⟨-, free, alloc⟩ := s.bitmaps.tileSpan_spec h (slotsPerSpan (sizeOfClass c))
  have first : role h = .claimed := claimed h le_rfl (by omega)
  have clear : ∀ i, s.bitmaps.allocBit h i = false ∧ s.bitmaps.freeBit h i = false := by
    intro i
    have none : ¬ (s.bitmaps.allocBit h i = true ∨ s.bitmaps.freeBit h i = true) := by
      intro set
      obtain ⟨c', sh', active, -⟩ := slots.bits h i set
      rw [first] at active
      cases active
    simpa only [not_or, Bool.not_eq_true] using none
  have kept : ∀ {k c' sh'}, role k = .active k c' sh' →
      assign role h n (.active h c sh) k = .active k c' sh' := by
    intro k c' sh' active
    rw [assign_outside]
    · exact active
    · intro inside
      rw [claimed k inside.1 inside.2] at active
      cases active
  rw [adopt_eq off]
  refine ⟨fun k c' sh' i active slot => ?_, fun k i set => ?_, fun c' p member => ?_⟩
  · have bit : ((s.bitmaps.tileSpan h (slotsPerSpan (sizeOfClass c))).linkFront h
        (s.head sh c)).allocBit k i =
        (s.bitmaps.allocBit k i || decide (k = h ∧ i < slotsPerSpan (sizeOfClass c))) := alloc k i
    have sameFree : ((s.bitmaps.tileSpan h (slotsPerSpan (sizeOfClass c))).linkFront h
        (s.head sh c)).freeBit k i = s.bitmaps.freeBit k i := by
      simp only [SpanBitmaps.freeBit, SpanBitmaps.linkFront, free]
    simp only [bit, sameFree]
    by_cases inside : h ≤ k ∧ k < h + n
    · rw [assign_inside inside.1 inside.2] at active
      cases active
      have idle : ∀ sh', role h ≠ .active h c sh' := by
        intro sh'
        rw [first]
        simp
      obtain ⟨none, nobody⟩ := slots.unused isClass slot idle
      rw [(clear i).1, (clear i).2, decide_eq_true ⟨rfl, slot⟩]
      simp only [setHead, none, nobody]
      rfl
    · have other : k ≠ h := by
        rintro rfl
        exact inside ⟨le_rfl, by omega⟩
      rw [assign_outside inside] at active
      simp only [other, false_and, decide_false, Bool.or_false]
      exact slots.once k c' sh' i active slot
  · by_cases here : k = h ∧ i < slotsPerSpan (sizeOfClass c)
    · obtain ⟨rfl, slot⟩ := here
      exact ⟨c, sh, assign_inside le_rfl (by omega), slot⟩
    · have old : s.bitmaps.allocBit k i = true ∨ s.bitmaps.freeBit k i = true := by
        have bit := alloc k i
        rw [decide_eq_false here, Bool.or_false] at bit
        rw [← bit]
        simpa only [SpanBitmaps.freeBit, SpanBitmaps.allocBit, SpanBitmaps.linkFront, free] using set
      obtain ⟨c', sh', active, slot⟩ := slots.bits k i old
      exact ⟨c', sh', kept active, slot⟩
  · obtain ⟨k, sh', i, active, slot, same⟩ := slots.outside c' p member
    exact ⟨k, sh', i, kept active, slot, same⟩

theorem Ledger.adopt {h c sh : Nat} (ledger : s.Ledger trust g role H L W) (isClass : IsClass c)
    (inside : sh < s.numShards) (uses : g.uses sh) (within : h < s.spans.numSpans)
    (claimed : ∀ k, h ≤ k → k < h + groupSpans (sizeOfClass c) → role k = .claimed)
    (tag : s.Tagged trust (s.spans.entry h) c sh)
    (tags : ∀ k, h ≤ k → k < h + groupSpans (sizeOfClass c) → k < s.spans.numSpans →
      s.spans.entry k = 0 ∨ s.spans.entry k = SpanTable.pack largeClass 0 ∨
        s.Tagged trust (s.spans.entry k) c sh) :
    (s.adopt sh c (slotsPerSpan (sizeOfClass c)) h).Ledger trust g
      (assign role h (groupSpans (sizeOfClass c)) (.active h c sh)) H L W := by
  have pos := groupSpans_pos (sizeOfClass c)
  have off : s.bitmaps.onList h = false := by
    rw [← Bool.not_eq_true, ledger.cells.linked]
    rintro ⟨c', sh', active⟩
    rw [claimed h le_rfl (by omega)] at active
    cases active
  have cells := ledger.cells.adopt isClass inside within claimed tag tags
  have slots := ledger.slots.adopt sh isClass off pos claimed
  rw [adopt_eq off] at cells slots ⊢
  obtain ⟨grid, cursor, stocked, pool, whole, carved⟩ := ledger.stock
  have pooled : ∀ k, assign role h (groupSpans (sizeOfClass c)) (.active h c sh) k = .pooled ↔
      role k = .pooled := fun k => assign_active claimed (by simp) (by simp)
  refine ⟨⟨?_, ?_, ?_, ?_, ?_, ?_⟩, cells, slots, { ledger.larges with }, ledger.loose.kept (by simp) ?_,
    ?_, ledger.healthy⟩
  · refine { grid with bitmaps := ?_ }
    exact ((s.bitmaps.tileSpan_spec h (slotsPerSpan (sizeOfClass c))).1.base).trans grid.bitmaps
  · obtain ⟨f, here, low, fresh⟩ := cursor
    refine ⟨f, here, low, fun left k beyond => ?_⟩
    have unused := fresh left k beyond
    rw [assign_outside]
    · exact unused
    · intro overlap
      rw [claimed k overlap.1 overlap.2] at unused
      cases unused
  · intro k held
    exact stocked k ((pooled k).mp held)
  · intro clear
    simp only [pooled]
    exact pool clear
  · intro unclipped k used
    apply whole unclipped
    by_cases overlap : h ≤ k ∧ k < h + groupSpans (sizeOfClass c)
    · rw [claimed k overlap.1 overlap.2]
      simp
    · rwa [assign_outside overlap] at used
  · intro k below held
    rw [assign_other (by simp)] at held
    exact carved k below held.2
  · intro k lo hi h' loose
    rw [claimed k lo hi] at loose
    cases loose
  · intro k h' c' sh' active
    by_cases new : h ≤ k ∧ k < h + groupSpans (sizeOfClass c)
    · rw [assign_inside new.1 new.2] at active
      cases active
      exact uses
    · rw [assign_outside new] at active
      exact ledger.used k h' c' sh' active

/-- A cell with a free slot to hand out. -/
def Fed (s : SubHeap) (role : Nat → Role) (cls shard : Nat) : Prop :=
  ∃ h, role h = .active h cls shard ∧ s.bitmaps.allocBit h 0 = true

theorem adopt_fed {h c sh n : Nat} (off : s.bitmaps.onList h = false) (pos : 0 < n) :
    (s.adopt sh c (slotsPerSpan (sizeOfClass c)) h).Fed (assign role h n (.active h c sh)) c sh := by
  refine ⟨h, assign_inside le_rfl (by omega), ?_⟩
  obtain ⟨-, -, alloc⟩ := s.bitmaps.tileSpan_spec h (slotsPerSpan (sizeOfClass c))
  have first : 0 < slotsPerSpan (sizeOfClass c) := Nat.lt_of_lt_of_le one_pos (le_max_right ..)
  have bit := alloc h 0
  rw [decide_eq_true ⟨rfl, first⟩, Bool.or_true] at bit
  rw [adopt_eq off]
  exact bit

theorem adopt_frame (s : SubHeap) (shard cls slots span : Nat) :
    (s.adopt shard cls slots span).spans = s.spans ∧
      (s.adopt shard cls slots span).numShards = s.numShards := by
  simp only [SubHeap.adopt]
  split <;> exact ⟨rfl, rfl⟩

theorem adopt_clipped (s : SubHeap) (shard cls slots span : Nat) (b : Bool) :
    { s.adopt shard cls slots span with clipped := b } =
      SubHeap.adopt { s with clipped := b } shard cls slots span := by
  simp only [SubHeap.adopt]
  split <;> rfl

/-- The one group of a carve for objects larger than a span. -/
theorem Ledger.adoptGroup {c sh home h take : Nat} (ledger : s.Ledger trust g role H L W)
    (isClass : IsClass c) (inside : sh < s.numShards) (uses : g.uses sh)
    (claim : s.Claimed g role c home h take (groupSpans (sizeOfClass c)))
    (tag : s.Tagged trust (SpanTable.pack c home) c sh) :
    ∃ role', Ledger trust g { s.adopt sh c (slotsPerSpan (sizeOfClass c)) h with
        clipped := s.clipped || decide (take < groupSpans (sizeOfClass c)) } role' H L W ∧
      (∀ k, role' k ≠ .claimed) ∧
      Fed { s.adopt sh c (slotsPerSpan (sizeOfClass c)) h with
        clipped := s.clipped || decide (take < groupSpans (sizeOfClass c)) } role' c sh := by
  have pos := groupSpans_pos (sizeOfClass c)
  have some := claim.some
  have fits := claim.fits
  have within := claim.inside
  have off : s.bitmaps.onList h = false := by
    rw [← Bool.not_eq_true, ledger.cells.linked]
    rintro ⟨c', sh', active⟩
    rw [(claim.exact h).mpr ⟨le_rfl, by omega⟩] at active
    cases active
  have first : s.Tagged trust (s.spans.entry h) c sh := by
    rw [claim.tags h le_rfl (by omega)]
    exact tag
  -- past the end of the arena a span keeps the entry it had
  have tags : ∀ k, h ≤ k → k < h + groupSpans (sizeOfClass c) → k < s.spans.numSpans →
      s.spans.entry k = 0 ∨ s.spans.entry k = SpanTable.pack largeClass 0 ∨
        s.Tagged trust (s.spans.entry k) c sh := by
    intro k lo hi low
    by_cases tagged : k < h + take
    · rw [claim.tags k lo tagged]
      exact .inr (.inr tag)
    · have fresh := (claim.short (by omega)).1 k (by omega)
      rcases ledger.cells.labels k low with zero | big | ⟨h', c', sh', active, -⟩ | claimed
      · exact .inl zero
      · exact .inr (.inl big)
      · rw [fresh] at active
        cases active
      · rw [fresh] at claimed
        cases claimed
  rw [adopt_clipped]
  by_cases short : take < groupSpans (sizeOfClass c)
  · rw [decide_eq_true short, Bool.or_true]
    refine ⟨_, (ledger.extend claim short).adopt isClass inside uses (by simp only; omega)
      (fun k lo hi => assign_inside lo hi) first tags, fun k held => ?_, adopt_fed off pos⟩
    rw [assign_other (by simp), assign, if_neg] at held
    · have := (claim.exact k).mp held.2
      omega
    · omega
  · have whole : take = groupSpans (sizeOfClass c) := by omega
    rw [decide_eq_false short, Bool.or_false]
    refine ⟨_, ledger.adopt isClass inside uses (by omega)
      (fun k lo hi => (claim.exact k).mpr ⟨lo, by omega⟩) first tags, fun k held => ?_,
      adopt_fed off pos⟩
    rw [assign_other (by simp), claim.exact] at held
    omega

/-- A claimed run of single spans joins the list of a cell, span by span. -/
theorem Ledger.adoptRun {c sh : Nat} (isClass : IsClass c) (single : sizeOfClass c ≤ spanBytes)
    (uses : g.uses sh) (count : Nat) {a : Nat} (ledger : s.Ledger trust g role H L W)
    (inside : sh < s.numShards) (within : a + count ≤ s.spans.numSpans)
    (claimed : ∀ k, role k = .claimed ↔ a ≤ k ∧ k < a + count)
    (tags : ∀ k, a ≤ k → k < a + count → s.Tagged trust (s.spans.entry k) c sh) :
    ∃ role', (s.adoptRun sh c (slotsPerSpan (sizeOfClass c)) count (g.base + a * spanBytes)).Ledger
        trust g role' H L W ∧ (∀ k, role' k ≠ .claimed) ∧
      (0 < count → (s.adoptRun sh c (slotsPerSpan (sizeOfClass c)) count
        (g.base + a * spanBytes)).Fed role' c sh) := by
  induction count generalizing s role a with
  | zero =>
      refine ⟨role, ledger, fun k held => ?_, fun none => by omega⟩
      have := (claimed k).mp held
      omega
  | succ count ih =>
      have group := (isClass.fits single).1
      have here := ledger.stock.grid.spanOf (k := a) (by omega) (show 0 < spanBytes by decide)
      rw [Nat.add_zero] at here
      have one : ∀ k, a ≤ k → k < a + groupSpans (sizeOfClass c) → role k = .claimed := by
        intro k lo hi
        exact (claimed k).mpr ⟨lo, by omega⟩
      have joined := ledger.adopt isClass inside uses (by omega) one (tags a le_rfl (by omega))
        fun k lo hi _ => .inr (.inr (tags k lo (by omega)))
      have off : s.bitmaps.onList a = false := by
        rw [← Bool.not_eq_true, ledger.cells.linked]
        rintro ⟨c', sh', active⟩
        rw [one a le_rfl (by omega)] at active
        cases active
      obtain ⟨spans, numShards⟩ := s.adopt_frame sh c (slotsPerSpan (sizeOfClass c)) a
      have rest : ∀ k, assign role a (groupSpans (sizeOfClass c)) (.active a c sh) k = .claimed ↔
          a + 1 ≤ k ∧ k < a + 1 + count := by
        intro k
        rw [assign_other (by simp), claimed, group]
        omega
      rw [SubHeap.adoptRun, here]
      cases count with
      | zero =>
          refine ⟨_, joined, fun k held => ?_, fun _ => adopt_fed off (by omega)⟩
          have := (rest k).mp held
          omega
      | succ count =>
          obtain ⟨role', kept, settled, fed⟩ := ih joined (by rwa [numShards])
            (by rw [spans]; omega) rest (by
              intro k lo hi
              simp only [Tagged, spans, numShards]
              exact tags k (by omega) (by omega))
          rw [Nat.add_mul, Nat.one_mul, ← Nat.add_assoc] at kept fed
          exact ⟨role', kept, settled, fun _ => fed (by omega)⟩

/-! ## Programs -/

variable {E : SubHeap → Prop} {n cls home : Nat} {company : Company}

theorem tryLock_spec {P : SubHeap → Prop} : Triple P (tryLock company)
    (fun busy s => (company = .alone → busy = false) ∧ P s) E := by
  cases company with
  | alone => exact Triple.ret _ fun _ kept => ⟨fun _ => rfl, kept⟩
  | among => exact Triple.bind (Triple.ask fun _ _ kept => kept) fun _ => Triple.ret _ fun _ kept => ⟨nofun, kept⟩

/-- The pool has no run of `n` spans to give. -/
def Barren (s : SubHeap) (role : Nat → Role) (n : Nat) : Prop :=
  s.large.poisoned = true ∨ ∀ h c, IsRun {k | role k = .pooled} h c → c < n

/-- No whole span is left beyond the cursor. -/
def Drained (s : SubHeap) : Prop := (s.arena.limit - s.arena.cursor) / spanBytes = 0

theorem tryPoolAlloc_spec (ledger : s.Ledger trust g role H L W) (settled : ∀ k, role k ≠ .claimed)
    (pos : 0 < n) (small : n < 2 ^ 32) :
    Triple (· = s) (tryPoolAlloc company n cls home) (fun r s' =>
      (r = none ∧ s' = s ∧ (company = .alone → s.Barren role n)) ∨
      ¬ s.Barren role n ∧
        ∃ role' h, r = some (g.base + h * spanBytes, g.base + (h + n) * spanBytes) ∧
          s'.Ledger trust g role' H L W ∧ s'.Claimed g role' cls home h n n) E := by
  refine Triple.bind tryLock_spec fun busy => Triple.lift fun free => Triple.inspect fun s' same => ?_
  subst same
  refine Triple.ite (fun refused => ?_) (fun entered => ?_)
  · apply Triple.ret
    rintro _ rfl
    refine .inl ⟨rfl, rfl, fun alone => .inl ?_⟩
    rcases refused with taken | poisoned
    · rw [free alone] at taken
      cases taken
    · exact poisoned
  · obtain ⟨-, clear⟩ := not_or.mp entered
    rw [Bool.not_eq_true] at clear
    rw [wrap32_small small]
    rcases SpanPool.alloc_represents (ledger.stock.pool clear) n with
      ⟨result, zero | none⟩ | ⟨h, m, p, result, -, enough, run, -, represents⟩
    · omega
    · simp only [result]
      apply Triple.ret
      rintro _ rfl
      exact .inl ⟨rfl, rfl, fun _ => .inr none⟩
    · simp only [result]
      have fertile : ¬ s'.Barren role n := by
        rintro (poisoned | few)
        · rw [clear] at poisoned
          cases poisoned
        · have := few h m run
          omega
      refine Triple.bind (Q := fun _ s' => ∃ role', s'.Ledger trust g role' H L W ∧
        s'.Claimed g role' cls home h n n) (Triple.modify fun s same => ?_) fun _ =>
        Triple.ret _ fun s kept => ?_
      · subst same
        obtain ⟨kept, claim⟩ := ledger.claimPool settled pos enough run represents
        exact ⟨_, kept, claim⟩
      · obtain ⟨role', kept, claim⟩ := kept
        refine .inr ⟨fertile, role', h, ?_, kept, claim⟩
        rw [LargeAllocator.spanPtr, ledger.stock.grid.large, Nat.add_mul, Nat.add_assoc]

theorem carveOrReuseSpans_spec (ledger : s.Ledger trust g role H L W)
    (settled : ∀ k, role k ≠ .claimed) (pos : 0 < n) (small : n < 2 ^ 32) :
    Triple (· = s) (carveOrReuseSpans company n cls home) (fun r s' =>
      (r.1 = r.2 ∧ s' = s ∧ (company = .alone → s.Barren role n) ∧ s.Drained) ∨
      ¬ (s.Barren role n ∧ s.Drained) ∧
        ∃ role' h take, r = (g.base + h * spanBytes, g.base + (h + take) * spanBytes) ∧
          s'.Ledger trust g role' H L W ∧ s'.Claimed g role' cls home h take n) E := by
  refine Triple.bind (tryPoolAlloc_spec ledger settled pos small) fun r => ?_
  cases r with
  | some range =>
      apply Triple.ret
      rintro s' (⟨none, -⟩ | ⟨fertile, role', h, range, kept, claim⟩)
      · cases none
      · cases range
        exact .inr ⟨fun stuck => fertile stuck.1, role', h, n, rfl, kept, claim⟩
  | none =>
      apply Triple.apply
      rintro s' (⟨-, rfl, barren⟩ | ⟨-, role', h, range, -⟩)
      · by_cases drained : (s'.arena.limit - s'.arena.cursor) / spanBytes = 0
        · have nothing : s'.arena.carveSpans n cls home s'.spans =
              ((s'.arena.cursor, s'.arena.cursor), s'.arena, s'.spans) := by
            simp only [BumpArena.carveSpans, drained, if_true]
          simp only [nothing]
          exact .inl ⟨trivial, trivial, barren, drained⟩
        · obtain ⟨h, take, range, kept, claim⟩ :=
            ledger.claimCursor cls home settled pos drained
          exact .inr ⟨fun stuck => drained stuck.2, _, h, take, range, kept, claim⟩
      · cases range

/-- How many spans a carve asks for. -/
def carveWant (cls batch : Nat) : Nat :=
  if spanBytes < roundedSize cls then (roundedSize cls + (spanBytes - 1)) / spanBytes
  else max ((batch + (spanBytes / roundedSize cls - 1)) / (spanBytes / roundedSize cls)) 1

/-- What a carve does: it adds free slots to its cell, or finds no whole span in the arena
    and, when it is alone, no run in the pool. -/
theorem centralCarve_spec {myShard batch : Nat} (ledger : s.Ledger trust g role H L W)
    (settled : ∀ k, role k ≠ .claimed) (isClass : IsClass cls) (uses : g.uses (myShard % g.shards))
    (back : trust.homed → wrap16 myShard % g.shards = myShard % g.shards)
    (small : carveWant cls batch < 2 ^ 32) :
    Triple (· = s) (centralCarve company cls myShard batch) (fun count s' =>
      (count = 0 ∧ s' = s ∧ (company = .alone → s.Barren role (carveWant cls batch)) ∧ s.Drained) ∨
      (0 < count ∧ ¬ (s.Barren role (carveWant cls batch) ∧ s.Drained) ∧
        ∃ role', s'.Ledger trust g role' H L W ∧ (∀ k, role' k ≠ .claimed) ∧
          s'.Fed role' cls (myShard % g.shards))) E := by
  have numShards := ledger.stock.grid.numShards
  have shards := ledger.stock.grid.shards
  have inside : myShard % g.shards < g.shards := Nat.mod_lt _ (by omega)
  have tag : ∀ {s' : SubHeap}, s'.Grid g →
      s'.Tagged trust (SpanTable.pack cls (wrap16 myShard)) cls (myShard % g.shards) := by
    intro s' grid
    refine ⟨wrap16 myShard, rfl, Nat.mod_lt _ (by decide), ?_⟩
    rw [grid.numShards]
    exact back
  refine Triple.inspect fun s' same => ?_
  subst same
  simp only [isClass.rounded, numShards]
  refine Triple.ite (fun large => ?_) (fun single => ?_)
  · obtain ⟨slots, group⟩ := isClass.spreads large
    have want : carveWant cls batch = groupSpans (sizeOfClass cls) := by
      rw [carveWant, isClass.rounded, if_pos large, group]
    rw [want] at small ⊢
    rw [← group]
    refine Triple.bind (carveOrReuseSpans_spec ledger settled (groupSpans_pos _) small) fun range => ?_
    obtain ⟨start, runEnd⟩ := range
    refine Triple.ite (fun nothing => ?_) (fun something => ?_)
    · apply Triple.ret
      rintro s (⟨-, same, barren, drained⟩ | ⟨-, role', h, take, range, -, claim⟩)
      · exact .inl ⟨rfl, same, barren, drained⟩
      · cases range
        have := claim.some
        unfold spanBytes at nothing
        omega
    · refine Triple.bind (Q := fun _ s => ¬ (Barren _ role _ ∧ Drained _) ∧
        ∃ role', s.Ledger trust g role' H L W ∧ (∀ k, role' k ≠ .claimed) ∧
          s.Fed role' cls (myShard % g.shards)) (Triple.modify ?_) fun _ =>
        Triple.ret _ fun s kept => .inr ⟨Nat.one_pos, kept⟩
      rintro s (⟨empty, -⟩ | ⟨more, role', h, take, range, kept, claim⟩)
      · exact (something (le_of_eq empty.symm)).elim
      · cases range
        have grid := kept.stock.grid
        have here := grid.spanOf (k := h) (by have := claim.some; have := claim.inside; omega)
          (show 0 < spanBytes by decide)
        rw [Nat.add_zero] at here
        obtain ⟨role'', joined, settled', fed⟩ := kept.adoptGroup isClass
          (by rw [grid.numShards]; exact inside) uses claim (tag grid)
        have short : decide (g.base + (h + take) * spanBytes - (g.base + h * spanBytes) <
            groupSpans (sizeOfClass cls) * spanBytes) =
            decide (take < groupSpans (sizeOfClass cls)) := by
          rw [Nat.add_mul, ← Nat.add_assoc, Nat.add_sub_cancel_left]
          exact decide_eq_decide.mpr (Nat.mul_lt_mul_right (by decide))
        simp only [here, short]
        rw [slots] at joined fed
        exact ⟨more, role'', joined, settled', fed⟩
  · obtain ⟨-, slots⟩ := isClass.fits (by omega)
    have want : carveWant cls batch =
        max ((batch + (spanBytes / sizeOfClass cls - 1)) / (spanBytes / sizeOfClass cls)) 1 := by
      rw [carveWant, isClass.rounded, if_neg single]
    rw [← want]
    refine Triple.bind (carveOrReuseSpans_spec ledger settled (by omega) small) fun range => ?_
    obtain ⟨start, runEnd⟩ := range
    refine Triple.ite (fun nothing => ?_) (fun something => ?_)
    · apply Triple.ret
      rintro s (⟨-, same, barren, drained⟩ | ⟨-, role', h, take, range, -, claim⟩)
      · exact .inl ⟨rfl, same, barren, drained⟩
      · cases range
        have := claim.some
        unfold spanBytes at nothing
        omega
    · have positive : 0 < (runEnd - start + (spanBytes - 1)) / spanBytes * (spanBytes / sizeOfClass cls) := by
        rw [← slots]
        apply Nat.mul_pos
        · apply Nat.div_pos _ (by decide)
          omega
        · exact Nat.lt_of_lt_of_le one_pos (le_max_right ..)
      refine Triple.bind (Q := fun _ s => ¬ (Barren _ role _ ∧ Drained _) ∧
        ∃ role', s.Ledger trust g role' H L W ∧ (∀ k, role' k ≠ .claimed) ∧
          s.Fed role' cls (myShard % g.shards)) (Triple.modify ?_) fun _ =>
        Triple.ret _ fun s kept => .inr ⟨positive, kept⟩
      rintro s (⟨empty, -⟩ | ⟨more, role', h, take, range, kept, claim⟩)
      · exact (something (le_of_eq empty.symm)).elim
      · cases range
        have count : (g.base + (h + take) * spanBytes - (g.base + h * spanBytes) + (spanBytes - 1)) /
            spanBytes = take := by
          rw [Nat.add_mul, ← Nat.add_assoc, Nat.add_sub_cancel_left]
          unfold spanBytes
          omega
        have grid := kept.stock.grid
        obtain ⟨role'', joined, settled', fed⟩ := kept.adoptRun isClass (by omega) uses take
          (by rw [grid.numShards]; exact inside) claim.inside claim.exact fun k lo hi => by
            rw [claim.tags k lo hi]
            exact tag grid
        rw [count, ← slots]
        exact ⟨more, role'', joined, settled', fed claim.some⟩

/-! ## When a carve is clipped -/

/-- The pool has nothing for a request of `n` spans. -/
def Refused (s : SubHeap) (n : Nat) : Prop :=
  s.large.poisoned = true ∨ ∃ pool, s.large.pool.alloc (wrap32 n) = some (none, pool)

/-- A carve for one object larger than a span would be clipped: the pool has nothing
    for it, and the cursor has whole spans left, but too few. -/
def Starved (s : SubHeap) (cls : Nat) : Prop :=
  spanBytes < roundedSize cls ∧ s.Refused ((roundedSize cls + (spanBytes - 1)) / spanBytes) ∧
    0 < (s.arena.limit - s.arena.cursor) / spanBytes ∧
    (s.arena.limit - s.arena.cursor) / spanBytes < (roundedSize cls + (spanBytes - 1)) / spanBytes

theorem tryPoolAlloc_refused : Triple (· = s) (tryPoolAlloc .alone n cls home)
    (fun r s' => (r = none ∧ s' = s ∧ s.Refused n) ∨
      ∃ start, r = some (start, start + n * spanBytes) ∧ s'.clipped = s.clipped ∧ ¬ s.Refused n)
    (fun _ => True) := by
  refine Triple.bind tryLock_spec fun busy => Triple.lift fun free => Triple.inspect fun s' same => ?_
  rw [same, free rfl]
  simp only [Bool.false_eq_true, false_or]
  refine Triple.ite (fun poisoned => ?_) (fun clear => ?_)
  · apply Triple.ret
    rintro _ rfl
    exact .inl ⟨rfl, rfl, .inl poisoned⟩
  · rcases result : s.large.pool.alloc (wrap32 n) with _ | ⟨_ | h, pool⟩
    · exact fun _ _ _ => trivial
    · apply Triple.ret
      rintro _ rfl
      exact .inl ⟨rfl, rfl, .inr ⟨pool, result⟩⟩
    · have given : ¬ s.Refused n := by
        rintro (poisoned | ⟨pool, none⟩)
        · exact clear poisoned
        · rw [result] at none
          cases none
      refine Triple.bind (Q := fun _ s' => s'.clipped = s.clipped) (Triple.modify ?_) fun _ =>
        Triple.ret _ fun s' kept => .inr ⟨_, rfl, kept, given⟩
      rintro _ rfl
      rfl

theorem carveOrReuseSpans_refused : Triple (· = s) (carveOrReuseSpans .alone n cls home)
    (fun r s' => s'.clipped = s.clipped ∧
      ((¬ s.Refused n ∧ r.2 = r.1 + n * spanBytes) ∨
        (s.Refused n ∧ r.2 = r.1 + min n ((s.arena.limit - s.arena.cursor) / spanBytes) * spanBytes)))
    (fun _ => True) := by
  refine Triple.bind tryPoolAlloc_refused fun r => ?_
  cases r with
  | some range =>
      apply Triple.ret
      rintro s' (⟨none, -⟩ | ⟨start, range, kept, given⟩)
      · cases none
      · cases range
        exact ⟨kept, .inl ⟨given, rfl⟩⟩
  | none =>
      apply Triple.apply
      rintro s' (⟨-, rfl, refused⟩ | ⟨_, range, -⟩)
      · refine ⟨rfl, .inr ⟨refused, ?_⟩⟩
        dsimp only
        rw [BumpArena.carveSpans]
        by_cases drained : (s'.arena.limit - s'.arena.cursor) / spanBytes = 0
        · rw [if_pos drained, drained, Nat.min_zero, Nat.zero_mul]
          rfl
        · rw [if_neg drained]
      · cases range

theorem adoptRun_clipped (shard cls perSpan count addr : Nat) (s : SubHeap) :
    (s.adoptRun shard cls perSpan count addr).clipped = s.clipped := by
  induction count generalizing addr s with
  | zero => rfl
  | succ count ih =>
      rw [SubHeap.adoptRun, ih, adopt]
      split <;> rfl

/-- A carve is clipped exactly where one would be. -/
theorem centralCarve_clipped {myShard batch : Nat} : Triple (· = s) (centralCarve .alone cls myShard batch)
    (fun _ s' => s'.clipped = true ↔ s.clipped = true ∨ s.Starved cls) (fun _ => True) := by
  refine Triple.inspect fun s' same => ?_
  rw [same]
  refine Triple.ite (fun large => ?_) (fun single => ?_)
  · refine Triple.bind carveOrReuseSpans_refused fun range => ?_
    obtain ⟨start, runEnd⟩ := range
    refine Triple.ite (fun nothing => Triple.ret _ ?_) (fun something => ?_)
    · rintro s' ⟨kept, got⟩
      have fed : ¬ s.Starved cls := by
        rintro ⟨-, refused, some, few⟩
        rcases got with ⟨given, -⟩ | ⟨-, range⟩
        · exact given refused
        · rw [Nat.min_eq_right few.le] at range
          have := Nat.mul_pos some (show 0 < spanBytes by decide)
          simp only at range
          omega
      rw [kept, or_iff_left fed]
    · refine Triple.bind (Q := fun _ s' => s'.clipped = true ↔ s.clipped = true ∨ s.Starved cls)
        (Triple.modify ?_) fun _ => Triple.ret _ fun s' done => done
      rintro s' ⟨kept, got⟩
      rw [Bool.or_eq_true, kept, decide_eq_true_iff]
      refine or_congr_right ⟨fun short => ?_, fun ⟨_, refused, _, few⟩ => ?_⟩
      · rcases got with ⟨-, range⟩ | ⟨refused, range⟩
        · simp only at range
          omega
        · simp only at range
          rw [range, Nat.add_sub_cancel_left] at short
          have few := Nat.lt_of_mul_lt_mul_right short
          refine ⟨large, refused, Nat.pos_of_ne_zero fun zero => ?_, by omega⟩
          rw [zero, Nat.min_zero, Nat.zero_mul] at range
          omega
      · rcases got with ⟨given, -⟩ | ⟨-, range⟩
        · exact (given refused).elim
        · simp only at range
          rw [range, Nat.add_sub_cancel_left, Nat.min_eq_right few.le]
          exact Nat.mul_lt_mul_of_pos_right few (by decide)
  · have fed : ¬ s.Starved cls := fun starved => single starved.1
    refine Triple.bind carveOrReuseSpans_refused fun range => ?_
    refine Triple.ite (fun nothing => Triple.ret _ ?_) (fun something => ?_)
    · rintro s' ⟨kept, -⟩
      rw [kept, or_iff_left fed]
    · refine Triple.bind (Q := fun _ s' => s'.clipped = true ↔ s.clipped = true ∨ s.Starved cls)
        (Triple.modify ?_) fun _ => Triple.ret _ fun s' done => done
      rintro s' ⟨kept, -⟩
      rw [adoptRun_clipped, kept, or_iff_left fed]

theorem carveWant_small : ∀ cls < numClasses, 1 ≤ cls → carveWant cls (batchFor cls) < 2 ^ 32 := by
  decide +kernel

/-- What `refill_batch` and `alloc_class` need to know of the calling thread. -/
structure Allowed (trust : Trust) (g : Geometry) (myShard : Nat) : Prop where
  uses : g.uses (myShard % g.shards)
  back : trust.homed → wrap16 myShard % g.shards = myShard % g.shards

theorem centralTake_spec {shard room : Nat} (isClass : IsClass cls) (inside : shard < g.shards) :
    Triple (Owned trust g H L W) (centralTake shard cls room)
      (fun objs => Owned trust g (ofClass cls objs + H) L W) E := by
  refine Triple.apply fun s ⟨role, ledger, settled⟩ => ⟨role, ?_, settled⟩
  exact ledger.taken settled isClass (by rwa [ledger.stock.grid.numShards]) room

theorem centralCarve_owned {myShard : Nat} (isClass : IsClass cls) (allowed : Allowed trust g myShard) :
    Triple (Owned trust g H L W) (centralCarve company cls myShard (batchFor cls))
      (fun _ => Owned trust g H L W) E := by
  refine Triple.pin fun s ⟨role, ledger, settled⟩ => ?_
  refine (centralCarve_spec ledger settled isClass allowed.uses allowed.back
    (carveWant_small cls isClass.lt isClass.pos)).weaken fun count s' => ?_
  rintro (⟨-, rfl, -⟩ | ⟨-, -, role', kept, settled', -⟩)
  · exact ⟨role, ledger, settled⟩
  · exact ⟨role', kept, settled'⟩

/-- A refill keeps what its takes and its carve keep. -/
theorem takeOrCarve_rule {I : List Nat → SubHeap → Prop} {myShard shards : Nat}
    (grid : ∀ s, I [] s → s.numShards = shards)
    (takes : ∀ out room, Triple (I out) (centralTake (myShard % shards) cls room)
      (fun objs => I (out ++ objs)) E)
    (carves : ∀ out, Triple (I out) (centralCarve company cls myShard (batchFor cls)) (fun _ => I out) E) :
    Triple (I []) (takeOrCarve company cls myShard) I E := by
  refine Triple.inspect fun s kept => ?_
  rw [grid s kept]
  refine Triple.bind ((takes [] _).start kept) fun got => ?_
  refine Triple.ite (fun none => ?_) (fun _ => Triple.ret _ fun _ kept => kept)
  rw [none]
  refine Triple.bind (carves []) fun carved => ?_
  exact Triple.ite (fun _ => Triple.ret _ fun _ kept => kept) (fun _ => takes [] _)

theorem Owned.numShards (owned : Owned trust g H L W s) : s.numShards = g.shards := by
  obtain ⟨role, ledger, -⟩ := owned
  exact ledger.stock.grid.numShards

theorem Owned.shards (owned : Owned trust g H L W s) : 0 < g.shards := by
  obtain ⟨role, ledger, -⟩ := owned
  rw [← ledger.stock.grid.numShards]
  exact ledger.stock.grid.shards

/-- A take, with what was taken before. -/
theorem centralTake_more {shard : Nat} (isClass : IsClass cls) (inside : shard < g.shards)
    (out : List Nat) (room : Nat) :
    Triple (Owned trust g (ofClass cls out + H) L W) (centralTake shard cls room)
      (fun objs => Owned trust g (ofClass cls (out ++ objs) + H) L W) E := by
  refine (centralTake_spec isClass inside).weaken fun objs s kept => ?_
  rw [ofClass_append, Multiset.add_comm (ofClass cls out), Multiset.add_assoc]
  exact kept

theorem takeOrCarve_spec (company : Company) {myShard : Nat} (isClass : IsClass cls) (allowed : Allowed trust g myShard) :
    Triple (Owned trust g H L W) (takeOrCarve company cls myShard)
      (fun objs => Owned trust g (ofClass cls objs + H) L W) E := by
  refine Triple.pin fun s owned => ?_
  have inside : myShard % g.shards < g.shards := Nat.mod_lt _ owned.shards
  refine (takeOrCarve_rule (I := fun out => Owned trust g (ofClass cls out + H) L W)
    (fun _ kept => kept.numShards) (centralTake_more isClass inside)
    fun _ => centralCarve_owned isClass allowed).start ?_
  rwa [ofClass_nil, Multiset.zero_add]

/-- What an allocation hands to its caller. -/
def handed (cls : Nat) (r : Option Nat) : Multiset (Nat × Nat) := ofClass cls r.toList

theorem refill_spec {myShard : Nat} (isClass : IsClass cls) (allowed : Allowed trust g myShard) :
    Triple (Owned trust g H L W) (refill cls myShard)
      (fun r => Owned trust g (handed cls r + H) L W) E := by
  refine Triple.bind (takeOrCarve_spec .alone isClass allowed) fun objs => ?_
  cases objs with
  | nil =>
      apply Triple.ret
      exact fun s kept => kept
  | cons p rest =>
      have stashed : ∀ (rest : List Nat) {H : Multiset (Nat × Nat)},
          Triple (Owned trust g (ofClass cls rest + H) L W) (Prog.each (stash cls) rest)
            (fun _ => Owned trust g H L W) E := by
        intro rest
        induction rest with
        | nil =>
            intro H
            apply Triple.each_nil
            intro s kept
            rwa [ofClass_nil, Multiset.zero_add] at kept
        | cons q rest ih =>
            intro H
            refine Triple.each_cons (stash_spec.strengthen fun s kept => ?_) fun _ => ih
            rwa [ofClass_cons, Multiset.cons_add] at kept
      refine Triple.bind (Triple.strengthen (P := Owned trust g (ofClass cls rest + (p, cls) ::ₘ H) L W)
        (stashed rest) fun s kept => ?_) fun _ => Triple.ret _ fun s kept => ?_
      · rw [ofClass_cons, Multiset.cons_add] at kept
        rwa [Multiset.add_cons]
      · rwa [handed, Option.toList_some, ofClass_cons, ofClass_nil, Multiset.cons_add,
          Multiset.zero_add]

theorem allocClass_spec {threadShard : Nat} (isClass : IsClass cls)
    (allowed : Allowed trust g threadShard) :
    Triple (Owned trust g H L W) (allocClass cls threadShard)
      (fun r => Owned trust g (handed cls r + H) L W) E := by
  refine Triple.bind slabPop_spec fun r => ?_
  cases r with
  | ok p =>
      apply Triple.ret
      exact fun s kept => kept
  | needsSlow =>
      refine (refill_spec isClass allowed).strengthen fun s kept => ?_
      rwa [popped, Multiset.zero_add] at kept

/-- A batch keeps what its takes and its carves keep. -/
theorem refillBatch_rule {I : List Nat → SubHeap → Prop} {threadShard shards : Nat} (room : Nat)
    (grid : ∀ s, I [] s → s.numShards = shards)
    (takes : ∀ out room, Triple (I out) (centralTake (threadShard % shards % shards) cls room)
      (fun objs => I (out ++ objs)) E)
    (carves : ∀ out, Triple (I out) (centralCarve company cls (threadShard % shards) (batchFor cls))
      (fun _ => I out) E) :
    Triple (I []) (refillBatch company cls threadShard room) I E := by
  refine Triple.inspect fun s kept => ?_
  rw [grid s kept]
  refine Triple.bind ((takes [] _).start kept) fun first => ?_
  refine Triple.loop (I := fun _ => I) (fun _ out => ?_) (fun _ _ kept => kept) _ _
  refine Triple.ite (fun _ => Triple.ret _ fun _ kept => kept) (fun _ => ?_)
  refine Triple.bind (carves out) fun carved => ?_
  refine Triple.ite (fun _ => Triple.ret _ fun _ kept => kept) (fun _ => ?_)
  refine Triple.bind (takes out _) fun got => ?_
  refine Triple.ite (fun none => Triple.ret _ fun s kept => ?_) (fun _ => Triple.ret _ fun _ kept => kept)
  rwa [none, List.append_nil] at kept

theorem refillBatch_spec (company : Company) {threadShard : Nat} (room : Nat) (isClass : IsClass cls)
    (allowed : Allowed trust g (threadShard % g.shards)) :
    Triple (Owned trust g H L W) (refillBatch company cls threadShard room)
      (fun objs => Owned trust g (ofClass cls objs + H) L W) E := by
  refine Triple.pin fun s owned => ?_
  have inside : threadShard % g.shards % g.shards < g.shards := Nat.mod_lt _ owned.shards
  refine (refillBatch_rule (I := fun out => Owned trust g (ofClass cls out + H) L W) room
    (fun _ kept => kept.numShards) (centralTake_more isClass inside)
    fun _ => centralCarve_owned isClass allowed).start ?_
  rwa [ofClass_nil, Multiset.zero_add]

end SubHeap

end Toccata
