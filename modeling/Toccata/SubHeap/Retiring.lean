import Toccata.SubHeap.Taking
import Toccata.SubHeap.Reclaim

/-! # One batch of a sweep, exactly

What `reclaim_cell` does to one cell in order: the first spans of its list whose slots
are all free go, up to 32 of them and to the cap, and everything else stays as it was.
Nothing is assumed of the other cells.
-/

namespace Toccata

open Foundations SizeClass

namespace SubHeap

open SpanBitmaps

variable {g : Geometry} {s s' : SubHeap} {shard cls : Nat} {nodes gone : List Nat}

theorem moved_isFree {m : Nat → Nat → Bool} {b b' : SpanBitmaps} (moved : Moved m b b') (k i : Nat) :
    b'.isFree k i = b.isFree k i := by
  rw [SpanBitmaps.isFree, SpanBitmaps.isFree, moved.alloc, moved.free]
  cases b.allocBit k i <;> cases b.freeBit k i <;> cases m k i <;> rfl

/-- A span of one of the groups at `gone`. -/
def InGroups (cls : Nat) (gone : List Nat) (j : Nat) : Prop :=
  ∃ k ∈ gone, k ≤ j ∧ j < k + groupSpans (sizeOfClass cls)

instance (cls : Nat) (gone : List Nat) (j : Nat) : Decidable (InGroups cls gone j) :=
  inferInstanceAs (Decidable (∃ k ∈ gone, k ≤ j ∧ j < k + groupSpans (sizeOfClass cls)))

/-- The groups at `gone` have left a cell, and nothing else changed but the links of the
    cell's list and the side on which some slots are free. -/
structure Retired (s s' : SubHeap) (shard cls : Nat) (gone : List Nat) : Prop where
  heads : ∀ sh c, ¬ (sh = shard ∧ c = cls) → s'.head sh c = s.head sh c
  onList : ∀ k, s'.bitmaps.onList k = (s.bitmaps.onList k && !decide (k ∈ gone))
  free : ∀ k i, s'.bitmaps.isFree k i = (s.bitmaps.isFree k i && !decide (k ∈ gone))
  entry : ∀ j, s'.spans.entry j =
    if InGroups cls gone j then SpanTable.pack largeClass 0 else s.spans.entry j
  table : s'.spans.base = s.spans.base ∧ s'.spans.len = s.spans.len
  hint : ∀ sh c, s'.reuseHint sh c =
    if sh = shard ∧ c = cls ∧ s.reuseHint sh c ∈ gone then noSpan else s.reuseHint sh c
  base : s'.bitmaps.base = s.bitmaps.base
  rest : s'.slab = s.slab ∧ s'.numShards = s.numShards ∧ s'.arena = s.arena ∧ s'.large = s.large ∧
    s'.scans = s.scans ∧ s'.clipped = s.clipped

theorem Retired.refl (s : SubHeap) (shard cls : Nat) : Retired s s shard cls [] where
  heads _ _ _ := rfl
  onList k := by simp
  free k i := by simp
  entry j := by simp [InGroups]
  table := ⟨rfl, rfl⟩
  hint sh c := by simp
  base := rfl
  rest := ⟨rfl, rfl, rfl, rfl, rfl, rfl⟩

theorem Retired.trans {s'' : SubHeap} {gone' : List Nat} (h : Retired s s' shard cls gone)
    (h' : Retired s' s'' shard cls gone') : Retired s s'' shard cls (gone ++ gone') where
  heads sh c other := (h'.heads sh c other).trans (h.heads sh c other)
  onList k := by
    rw [h'.onList, h.onList, Bool.and_assoc, ← Bool.not_or, ← Bool.decide_or,
      decide_eq_decide.mpr (List.mem_append (a := k) (s := gone) (t := gone')).symm]
  free k i := by
    rw [h'.free, h.free, Bool.and_assoc, ← Bool.not_or, ← Bool.decide_or,
      decide_eq_decide.mpr (List.mem_append (a := k) (s := gone) (t := gone')).symm]
  entry j := by
    rw [h'.entry, h.entry]
    have either : InGroups cls (gone ++ gone') j ↔ InGroups cls gone j ∨ InGroups cls gone' j := by
      simp only [InGroups, List.mem_append, or_and_right, exists_or]
    by_cases first : InGroups cls gone j <;> by_cases second : InGroups cls gone' j <;>
      simp [either, first, second]
  table := ⟨h'.table.1.trans h.table.1, h'.table.2.trans h.table.2⟩
  hint sh c := by
    rw [h'.hint, h.hint]
    by_cases here : sh = shard ∧ c = cls
    · obtain ⟨rfl, rfl⟩ := here
      by_cases first : s.reuseHint sh c ∈ gone <;> simp [first]
    · have away : ∀ P : Prop, ¬ (sh = shard ∧ c = cls ∧ P) := fun _ h => here ⟨h.1, h.2.1⟩
      simp only [away, if_false]
  base := h'.base.trans h.base
  rest := by
    obtain ⟨slab, numShards, arena, large, scans, clipped⟩ := h.rest
    obtain ⟨slab', numShards', arena', large', scans', clipped'⟩ := h'.rest
    exact ⟨slab'.trans slab, numShards'.trans numShards, arena'.trans arena, large'.trans large,
      scans'.trans scans, clipped'.trans clipped⟩

theorem Retired.moved {m : Nat → Nat → Bool} {b : SpanBitmaps} (shard cls : Nat)
    (moved : Moved m s.bitmaps b) : Retired s { s with bitmaps := b } shard cls [] where
  heads _ _ _ := rfl
  onList k := by simp [moved.links.onList]
  free k i := by simp [moved_isFree moved]
  entry j := by simp [InGroups]
  table := ⟨rfl, rfl⟩
  hint sh c := by simp
  base := moved.links.base
  rest := ⟨rfl, rfl, rfl, rfl, rfl, rfl⟩

/-- One span retired: its bits were all slots, so its words are all cleared. -/
theorem Retired.retire {span prev : Nat} (grid : s.Grid g) (isClass : IsClass cls)
    (fits : span + groupSpans (sizeOfClass cls) ≤ s.spans.numSpans)
    (tiled : ∀ i, s.bitmaps.isFree span i = true → i < slotsPerSpan (sizeOfClass cls)) :
    Retired s (s.retire shard cls prev span) shard cls [span] := by
  have pos := groupSpans_pos (sizeOfClass cls)
  rw [retire_eq, grid.retag isClass (by omega), isClass.rounded]
  refine ⟨fun sh c other => ?_, fun k => ?_, fun k i => ?_, fun j => ?_, ⟨rfl, rfl⟩, fun sh c => ?_,
    rfl, ⟨rfl, rfl, rfl, rfl, rfl, rfl⟩⟩
  · rw [setHead_head, if_neg other]
  · simp only [resetBitmaps, unlinkActive, List.mem_singleton]
    by_cases same : k = span
    · subst same
      simp
    · simp [same]
  · obtain ⟨alloc, free⟩ := resetBitmaps_bits
      (s.bitmaps.unlinkActive span prev (s.head shard cls)).2 span
      ((slotsPerSpan (sizeOfClass cls) + 63) / 64) k i
    rw [SpanBitmaps.isFree, alloc, free]
    simp only [List.mem_singleton]
    change (s.bitmaps.allocBit k i && _ || s.bitmaps.freeBit k i && _) = _
    rw [← Bool.and_or_distrib_right]
    by_cases same : k = span
    · subst same
      cases set : s.bitmaps.isFree k i with
      | false =>
          rw [SpanBitmaps.isFree] at set
          rw [set]
          rfl
      | true =>
          have := tiled i set
          rw [SpanBitmaps.isFree] at set
          rw [set, decide_eq_true ⟨rfl, by omega⟩]
          simp
    · rw [decide_eq_false fun h => same h.1, decide_eq_false same]
      rfl
  · have group : (span ≤ j ∧ j < span + groupSpans (sizeOfClass cls) ∧ j < s.spans.numSpans) ↔
        InGroups cls [span] j := by
      simp only [InGroups, List.mem_singleton, exists_eq_left]
      exact ⟨fun h => ⟨h.1, h.2.1⟩, fun h => ⟨h.1, h.2, by omega⟩⟩
    simp only [group]
  · by_cases here : sh = shard ∧ c = cls
    · obtain ⟨rfl, rfl⟩ := here
      by_cases hinted : s.reuseHint sh c = span
      · simp only [setHint_reuseHint, and_self, if_true, List.mem_singleton, hinted]
      · simp only [List.mem_singleton, hinted, and_false, if_false]
    · have away : ∀ P : Prop, ¬ (sh = shard ∧ c = cls ∧ P) := fun _ h => here ⟨h.1, h.2.1⟩
      simp only [away, if_false]
      split
      · rw [setHint_reuseHint, if_neg here]
      · rfl

/-! ## The walk -/

/-- A cell in order whose groups lie whole in the arena. -/
structure Sweeps (g : Geometry) (s : SubHeap) (shard cls : Nat) (nodes : List Nat) : Prop where
  grid : s.Grid g
  cell : s.CellFormed shard cls nodes
  whole : ∀ k ∈ nodes, k + groupSpans (sizeOfClass cls) ≤ s.spans.numSpans

theorem Retired.grid (retired : Retired s s' shard cls gone) (grid : s.Grid g) : s'.Grid g := by
  obtain ⟨slab, numShards, arena, large, -, -⟩ := retired.rest
  obtain ⟨base, len⟩ := retired.table
  obtain ⟨a, b, t, l, span, limit, nonNull, mapped, shards, some, cpus, pos, classes, apart, runs⟩ := grid
  have numSpans : s'.spans.numSpans = s.spans.numSpans := by
    rw [SpanTable.numSpans, SpanTable.numSpans, len]
  refine ⟨?_, ?_, ?_, ?_, ?_, ?_, nonNull, ?_, ?_, ?_, ?_, ?_, ?_, ?_, ?_⟩ <;>
    simp only [slab, numShards, arena, large, base, len, retired.base, numSpans] <;> assumption

/-- A cell in order stays so, with the list it then has. -/
theorem Sweeps.step {nodes' : List Nat} (sweeps : Sweeps g s shard cls nodes)
    (retired : Retired s s' shard cls gone)
    (list : Chain s'.bitmaps.nextActive (s'.head shard cls) nodes' noSpan)
    (sub : nodes'.Sublist nodes) : Sweeps g s' shard cls nodes' := by
  have numSpans : s'.spans.numSpans = s.spans.numSpans := by
    rw [SpanTable.numSpans, SpanTable.numSpans, retired.table.2]
  refine ⟨retired.grid sweeps.grid, ⟨sweeps.cell.isClass, list, sweeps.cell.distinct.sublist sub,
    fun k member => ?_, fun k member i set => ?_⟩, fun k member => ?_⟩
  · rw [numSpans]
    exact sweeps.cell.inside k (sub.subset member)
  · rw [retired.free, Bool.and_eq_true] at set
    exact sweeps.cell.tiled k (sub.subset member) i set.1
  · rw [numSpans]
    exact sweeps.whole k (sub.subset member)

/-- What the walk leaves of the links: the list without the spans gone, and every other
    link as it was. -/
structure Relinked (s s' : SubHeap) (shard cls : Nat) (left right gone : List Nat) : Prop where
  list : Chain s'.bitmaps.nextActive (s'.head shard cls)
    (left ++ right.filter fun k => k ∉ gone) noSpan
  others : ∀ k, k ∉ left ++ right → s'.bitmaps.nextActive k = s.bitmaps.nextActive k

theorem Sweeps.still {left right : List Nat} (sweeps : Sweeps g s shard cls (left ++ right)) :
    Relinked s s shard cls left right [] := by
  refine ⟨?_, fun _ _ => rfl⟩
  rw [List.filter_eq_self.mpr (by simp)]
  exact sweeps.cell.list

/-- Groups that lie whole in the arena, touch neither each other nor the pool's free
    spans `F`. -/
structure Fresh (cls numSpans : Nat) (F : Set Nat) (spans : List Nat) : Prop where
  whole : ∀ k ∈ spans, k + groupSpans (sizeOfClass cls) ≤ numSpans
  outside : ∀ k ∈ spans, ∀ j, k ≤ j → j < k + groupSpans (sizeOfClass cls) → j ∉ F
  apart : spans.Pairwise fun k k' =>
    k + groupSpans (sizeOfClass cls) ≤ k' ∨ k' + groupSpans (sizeOfClass cls) ≤ k

/-- Where no carve was clipped, the cells of a sub-heap whose accounts balance are in order
    and their groups are not in the pool. -/
theorem Ledger.sweeps {trust : Trust} {role : Nat → Role} {H L : Multiset (Nat × Nat)}
    {W : List (Nat × Nat)} (ledger : s.Ledger trust g role H L W) (whole : s.clipped = false)
    (isClass : IsClass cls) (inside : shard < s.numShards)
    (list : Chain s.bitmaps.nextActive (s.head shard cls) nodes noSpan) (proper : noSpan ∉ nodes) :
    Sweeps g s shard cls nodes ∧ Fresh cls s.spans.numSpans {k | role k = .pooled} nodes := by
  obtain ⟨cell, active⟩ := ledger.cellFormed isClass inside list proper
  have group : ∀ k ∈ nodes, Extent role k (groupSpans (sizeOfClass cls)) (.active k cls shard) :=
    fun k member => ledger.cells.extent (active k member)
  have fits : ∀ k ∈ nodes, k + groupSpans (sizeOfClass cls) ≤ s.spans.numSpans := by
    intro k member
    have pos := (group k member).pos
    have last := (group k member).own (k + groupSpans (sizeOfClass cls) - 1) (by omega) (by omega)
    have within := ledger.stock.whole whole _ (show role _ ≠ .fresh by rw [last]; simp)
    unfold SpanTable.numSpans
    unfold spanBytes at *
    omega
  refine ⟨⟨ledger.stock.grid, cell, fits⟩, fits, fun k member j lo hi (pooled : role j = .pooled) => ?_, ?_⟩
  · rw [(group k member).own j lo hi] at pooled
    cases pooled
  · refine cell.distinct.imp_of_mem fun {k k'} member member' different => ?_
    exact (group k member).apart (group k' member') fun same => different (by cases same; rfl)

theorem Fresh.sublist {numSpans : Nat} {F : Set Nat} {spans spans' : List Nat}
    (fresh : Fresh cls numSpans F spans) (sub : spans'.Sublist spans) : Fresh cls numSpans F spans' :=
  ⟨fun k member => fresh.whole k (sub.subset member),
    fun k member => fresh.outside k (sub.subset member), fresh.apart.sublist sub⟩

end SubHeap

end Toccata
