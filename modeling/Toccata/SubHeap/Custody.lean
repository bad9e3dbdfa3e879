import Toccata.SubHeap.Histories

/-! # What callers hold

Consequences of the ledger for what is outside: the byte ranges handed out are
disjoint and lie in spans claimed for them, the span table leads back to them from a
bare pointer, and the home of a span leads back to the cell that lists it.
-/

namespace Toccata

open Foundations SizeClass

namespace SubHeap

variable {trust : Trust} {g : Geometry} {s : SubHeap} {role : Nat → Role}
  {H L : Multiset (Nat × Nat)} {W : List (Nat × Nat)}

/-- The spans on the active list of a cell. -/
def OnList (s : SubHeap) (sh c k : Nat) : Prop :=
  ∃ nodes, Chain s.bitmaps.nextActive (s.head sh c) nodes noSpan ∧ noSpan ∉ nodes ∧ k ∈ nodes

theorem Ledger.onList_iff (ledger : s.Ledger trust g role H L W) {sh c k : Nat}
    (inside : sh < s.numShards) : s.OnList sh c k ↔ role k = .active k c sh := by
  obtain ⟨nodes, chain, -, members⟩ := ledger.cells.lists sh c inside
  have outside : noSpan ∉ nodes := by
    intro member
    have := ledger.cells.inside ((members noSpan).mp member)
    have := ledger.stock.grid.small
    unfold noSpan at *
    omega
  constructor
  · rintro ⟨nodes', chain', outside', member⟩
    rw [Chain.unique chain' chain outside' outside] at member
    exact (members k).mp member
  · intro active
    exact ⟨nodes, chain, outside, (members k).mpr active⟩

/-! ## Disjointness -/

/-- Two byte ranges have nothing in common. -/
def Apart (p n q m : Nat) : Prop := p + n ≤ q ∨ q + m ≤ p

/-- An interval of spans that all play one role. -/
structure Extent (role : Nat → Role) (h n : Nat) (r : Role) : Prop where
  pos : 0 < n
  own : ∀ k, h ≤ k → k < h + n → role k = r

theorem Extent.apart {h n h' n' : Nat} {r r' : Role} (a : Extent role h n r)
    (b : Extent role h' n' r') (different : r ≠ r') : Apart h n h' n' := by
  have := a.pos
  have := b.pos
  by_contra overlap
  unfold Apart at overlap
  rcases le_total h h' with le | le
  · exact different ((a.own h' le (by omega)).symm.trans (b.own h' le_rfl (by omega)))
  · exact different ((a.own h le_rfl (by omega)).symm.trans (b.own h le (by omega)))

/-- Ranges within intervals of spans that are apart. -/
theorem Apart.within {h n h' n' p q a b : Nat} (base : Nat) (apart : Apart h n h' n')
    (low : base + h * spanBytes ≤ p) (high : p + a ≤ base + (h + n) * spanBytes)
    (low' : base + h' * spanBytes ≤ q) (high' : q + b ≤ base + (h' + n') * spanBytes) :
    Apart p a q b := by
  rcases apart with le | le
  · have := Nat.mul_le_mul_right spanBytes le
    exact .inl (by omega)
  · have := Nat.mul_le_mul_right spanBytes le
    exact .inr (by omega)

theorem slotAddr_end {k i c : Nat} (isClass : IsClass c) (slot : i < slotsPerSpan (sizeOfClass c)) :
    g.slotAddr k i c + sizeOfClass c ≤ g.base + (k + groupSpans (sizeOfClass c)) * spanBytes := by
  have fits := Nat.mul_le_mul_right (sizeOfClass c) (Nat.succ_le_of_lt slot)
  rw [Nat.succ_mul] at fits
  have := fits.trans isClass.tiles
  rw [Geometry.slotAddr, Nat.add_mul]
  omega

theorem Cells.extent (cells : s.Cells trust role) {k c sh : Nat} (active : role k = .active k c sh) :
    Extent role k (groupSpans (sizeOfClass c)) (.active k c sh) :=
  ⟨groupSpans_pos _, (cells.groups k k c sh active).2.2.2.2⟩

theorem Ledger.objects_apart (ledger : s.Ledger trust g role H L W) {x y : Nat × Nat}
    (both : {x, y} ≤ H) : Apart x.1 (sizeOfClass x.2) y.1 (sizeOfClass y.2) := by
  obtain ⟨p, c⟩ := x
  obtain ⟨q, c'⟩ := y
  obtain ⟨k, sh, i, active, slot, rfl⟩ :=
    ledger.slots.outside c p (.inr (Multiset.mem_of_le both (by simp)))
  obtain ⟨k', sh', i', active', slot', rfl⟩ :=
    ledger.slots.outside c' q (.inr (Multiset.mem_of_le both (by simp)))
  have isClass := ledger.cells.isClass active
  have isClass' := ledger.cells.isClass active'
  by_cases same : k = k'
  · subst same
    rw [active] at active'
    cases active'
    rcases Nat.lt_trichotomy i i' with lt | rfl | lt
    · have := Nat.mul_le_mul_right (sizeOfClass c) (Nat.succ_le_of_lt lt)
      rw [Nat.succ_mul] at this
      exact .inl (by simp only [Geometry.slotAddr]; omega)
    · have once := ledger.slots.once k c sh i active slot
      have twice := Multiset.count_le_of_le (g.slotAddr k i c, c) both
      simp at twice
      omega
    · have := Nat.mul_le_mul_right (sizeOfClass c) (Nat.succ_le_of_lt lt)
      rw [Nat.succ_mul] at this
      exact .inr (by simp only [Geometry.slotAddr]; omega)
  · have apart := (ledger.cells.extent active).apart (ledger.cells.extent active') (by simp [same])
    exact apart.within g.base (Nat.le_add_right ..) (slotAddr_end isClass slot) (Nat.le_add_right ..)
      (slotAddr_end isClass' slot')

/-- The spans of a large run held outside. -/
theorem Ledger.run_extent (ledger : s.Ledger trust g role H L W) {x : Nat × Nat} (held : x ∈ L) :
    ∃ h, x.1 = g.base + h * spanBytes ∧ Extent role h x.2 (.large h) := by
  obtain ⟨h, place, -⟩ := ledger.larges.recorded x held
  obtain ⟨rest, rfl⟩ := Multiset.exists_cons_of_mem held
  obtain ⟨p, n⟩ := x
  subst place
  obtain ⟨-, pos, -, roles⟩ := ledger.run
  exact ⟨h, rfl, pos, fun k lo hi => (roles k).mpr ⟨lo, hi⟩⟩

theorem Ledger.object_run_apart (ledger : s.Ledger trust g role H L W) {x y : Nat × Nat}
    (object : x ∈ H) (run : y ∈ L) : Apart x.1 (sizeOfClass x.2) y.1 (y.2 * spanBytes) := by
  obtain ⟨p, c⟩ := x
  obtain ⟨k, sh, i, active, slot, rfl⟩ := ledger.slots.outside c p (.inr object)
  obtain ⟨h, place, extent⟩ := ledger.run_extent run
  have apart := (ledger.cells.extent active).apart extent (by simp)
  refine apart.within g.base (Nat.le_add_right ..)
    (slotAddr_end (ledger.cells.isClass active) slot) place.ge ?_
  rw [place, Nat.add_mul]
  omega

theorem Ledger.runs_apart (ledger : s.Ledger trust g role H L W) {x y : Nat × Nat}
    (both : {x, y} ≤ L) : Apart x.1 (x.2 * spanBytes) y.1 (y.2 * spanBytes) := by
  obtain ⟨h, place, extent⟩ := ledger.run_extent (Multiset.mem_of_le both (by simp : x ∈ {x, y}))
  obtain ⟨h', place', extent'⟩ := ledger.run_extent (Multiset.mem_of_le both (by simp : y ∈ {x, y}))
  have different : x.1 ≠ y.1 := by
    have := Multiset.nodup_of_le (Multiset.map_le_map (f := Prod.fst) both) ledger.larges.distinct
    simpa using this
  have apart := extent.apart extent' (by rintro ⟨⟩; exact different (place.trans place'.symm))
  refine apart.within g.base place.ge ?_ place'.ge ?_
  · rw [place, Nat.add_mul]
    omega
  · rw [place', Nat.add_mul]
    omega

/-! ## One place for every slot and every span -/

namespace World

/-- The byte ranges that callers hold are pairwise disjoint. -/
structure Disjoint (w : World) : Prop where
  objects : ∀ x y, {x, y} ≤ w.objects → Apart x.1 (sizeOfClass x.2) y.1 (sizeOfClass y.2)
  mixed : ∀ x ∈ w.objects, ∀ y ∈ w.runs, Apart x.1 (sizeOfClass x.2) y.1 (runBytes y.2)
  runs : ∀ x y, {x, y} ≤ w.runs → Apart x.1 (runBytes x.2) y.1 (runBytes y.2)

/-- Every slot of a listed span is in one place: a bit of either bitmap, a per-CPU
    stack, or with a caller. Spans are assigned roles, one each, that account for the
    active lists, the pool, the large runs and the whole spans beyond the cursor. -/
structure Partitioned (w : World) : Prop where
  slots : ∀ sh cls k i, sh < w.sub.numShards → w.sub.OnList sh cls k →
    i < slotsPerSpan (sizeOfClass cls) →
    (w.sub.bitmaps.allocBit k i).toNat + (w.sub.bitmaps.freeBit k i).toNat +
      (w.sub.slab.cached cls).count (w.sub.arena.base + k * spanBytes + i * sizeOfClass cls) +
      w.objects.count (w.sub.arena.base + k * spanBytes + i * sizeOfClass cls, cls) = 1
  spans : ∃ role : Nat → Role,
    (∀ sh cls k, sh < w.sub.numShards → (w.sub.OnList sh cls k ↔ role k = .active k cls sh)) ∧
    (∀ sh cls k j, role k = .active k cls sh → k ≤ j → j < k + groupSpans (sizeOfClass cls) →
      role j = .active k cls sh) ∧
    w.sub.large.pool.Represents (max w.sub.spans.numSpans 1) {k | role k = .pooled} ∧
    (∀ h k, h ≤ k → k < h + w.sub.large.runSpans.cell h → role k = .large h) ∧
    ∀ k, w.sub.arena.cursor ≤ w.sub.arena.base + k * spanBytes →
      w.sub.arena.base + (k + 1) * spanBytes ≤ w.sub.arena.limit → role k = .fresh

variable {w : World} {c : Config}

/-- What a run promises when tags are relied on and no carve was clipped. -/
theorem ReachedWhole.ledger {admitted : Nat → Op → Prop} (mapped : c.Mapped)
    (small : ∀ thread op, admitted thread op → spanCount op.size < 2 ^ 32)
    (reached : ReachedWhole c admitted w) : w.sub.clipped = false ∧ ∃ W role,
      w.sub.Ledger .tags (c.geometry fun _ => True) role w.objects w.records W ∧
        ∀ k, role k ≠ .claimed := by
  have sound : ∀ thread op, admitted thread op →
      Sound .tags (c.geometry fun _ => True) thread op := by
    intro thread op allowed
    have := small thread op allowed
    refine ⟨?_, fun _ => this, trivial, nofun⟩
    unfold spanCount spanBytes at *
    omega
  obtain ⟨⟨lost, lostRuns, all, W, role, ledger, settled⟩, unclipped⟩ := reached.tracked mapped sound
  obtain ⟨rfl, rfl⟩ := all nofun
  rw [zero_add, zero_add] at ledger
  exact ⟨unclipped, W, role, ledger, settled⟩

/-- A run held has as many bytes as its record says. -/
theorem record_bytes {size : Nat} (small : spanCount size < 2 ^ 32) :
    wrap32 (spanCount size) * spanBytes = runBytes size := by
  rw [wrap32_small small, runBytes_eq]
  unfold spanCount spanBytes at *
  omega

theorem Disjoint.of_ledger {g : Geometry} {trust : Trust} {role : Nat → Role} {W : List (Nat × Nat)}
    (ledger : w.sub.Ledger trust g role w.objects w.records W)
    (small : ∀ x ∈ w.runs, spanCount x.2 < 2 ^ 32) : w.Disjoint where
  objects x y both := ledger.objects_apart both
  mixed x object y run := by
    have apart := ledger.object_run_apart object (Multiset.mem_map_of_mem _ run)
    rwa [record_bytes (small y run)] at apart
  runs x y both := by
    have recorded : {(x.1, wrap32 (spanCount x.2)), (y.1, wrap32 (spanCount y.2))} ≤ w.records :=
      Multiset.map_le_map both
    have apart := ledger.runs_apart recorded
    rwa [record_bytes (small x (Multiset.mem_of_le both (by simp))),
      record_bytes (small y (Multiset.mem_of_le both (by simp)))] at apart

theorem Partitioned.of_ledger {g : Geometry} {role : Nat → Role} {W : List (Nat × Nat)}
    (ledger : w.sub.Ledger .tags g role w.objects w.records W) (whole : w.sub.clipped = false) :
    w.Partitioned where
  slots sh cls k i inside listed slot := by
    have := ledger.slots.once k cls sh i ((ledger.onList_iff inside).mp listed) slot
    rwa [Geometry.slotAddr, ← ledger.stock.grid.arena] at this
  spans := by
    refine ⟨role, fun sh cls k inside => ledger.onList_iff inside, ?_, ?_, ?_, ?_⟩
    · intro sh cls k j active lo hi
      exact (ledger.cells.extent active).own j lo hi
    · exact ledger.stock.pool (ledger.healthy Trust.tags_tagged whole)
    · intro h k lo hi
      exact (ledger.cells.runs h (by omega)).2.1 k lo hi
    · intro k beyond fits
      obtain ⟨f, here, low, fresh⟩ := ledger.stock.cursor
      rw [ledger.stock.grid.limit, ledger.stock.grid.arena, Nat.add_one_mul] at fits
      rw [here, ledger.stock.grid.arena] at beyond
      have le : f ≤ k := Nat.le_of_mul_le_mul_right (Nat.le_of_add_le_add_left beyond) (by decide)
      refine fresh ?_ k le
      have := Nat.mul_le_mul_right spanBytes le
      rw [Nat.add_one_mul]
      omega

/-- An arena of five spans, and a run there that leaves an object and a large run
    outstanding. -/
def fiveSpans : Config := ⟨4096, 5 * 65536, 1, some 3, 8⟩

theorem fiveSpans_mapped : fiveSpans.Mapped := ⟨⟨by decide, by decide⟩, by decide⟩

@[irreducible] def outstanding : World := ((start fiveSpans).after 0 [] (.allocClass 44)).after 1 [] (.allocLarge 65536)

theorem outstanding_run :
    (((start fiveSpans).after 0 [] (.allocClass 44)).sub.clipped = false ∧
      outstanding.sub.clipped = false) ∧
    outstanding.objects = {(fiveSpans.arenaBase + 3 * 65536, 44)} ∧
    outstanding.runs = {(fiveSpans.arenaBase + 4 * 65536, 65536)} := by
  decide +kernel

theorem outstanding_reached (admitted : Nat → Op → Prop) (first : admitted 0 (.allocClass 44))
    (second : admitted 1 (.allocLarge 65536)) : ReachedWhole fiveSpans admitted outstanding := by
  obtain ⟨⟨whole, whole'⟩, -⟩ := outstanding_run
  have started : ReachedWhole fiveSpans admitted (start fiveSpans) := .start rfl
  have taken := started.call 0 [] (.allocClass 44) ⟨by decide, by decide⟩ first whole
  unfold outstanding at whole' ⊢
  exact taken.call 1 [] (.allocLarge 65536) trivial second whole'

/-- A slot of 16 KiB in that arena. -/
def quarter (k i : Nat) : Nat := fiveSpans.arenaBase + k * 65536 + i * 16384

/-- The twelve slots of the first three spans. -/
def firstTwelve : List Nat := (List.range 12).map fun j => quarter (j / 4) (j % 4)

/-! Fourteen objects out of four spans. Another thread frees those of the first three spans
in a batch, and one of the two left goes to the stack of the CPU. -/

def filled : World := (start fiveSpans).after 0 [] (.refillBatch 38 14)

def thinned : World := filled.after 1 [] (.deallocClassBatch firstTwelve 38)

def scattered : World := thinned.after 0 [⟨0, 0, false⟩] (.deallocClass (quarter 3 1) 38)

theorem scattered_run :
    (filled.Legal (.deallocClassBatch firstTwelve 38) ∧ thinned.Legal (.deallocClass (quarter 3 1) 38)) ∧
    filled.sub.clipped = false ∧ thinned.sub.clipped = false ∧ scattered.sub.clipped = false := by
  decide +kernel

attribute [irreducible] filled thinned scattered

theorem scattered_reached (admitted : Nat → Op → Prop)
    (all : ∀ thread op, thread < 2 → op.size = 0 → admitted thread op) :
    ReachedWhole fiveSpans admitted scattered := by
  obtain ⟨⟨held, held'⟩, whole₁, whole₂, whole₃⟩ := scattered_run
  have started : ReachedWhole fiveSpans admitted (start fiveSpans) := .start rfl
  have full : ReachedWhole fiveSpans admitted filled := by
    unfold filled at whole₁ ⊢
    exact started.call 0 [] (.refillBatch 38 14) ⟨by decide, by decide⟩ (all 0 _ (by decide) rfl) whole₁
  have freed : ReachedWhole fiveSpans admitted thinned := by
    unfold thinned at whole₂ ⊢
    exact full.call 1 [] (.deallocClassBatch firstTwelve 38) held (all 1 _ (by decide) rfl) whole₂
  unfold scattered at whole₃ ⊢
  exact freed.call 0 [⟨0, 0, false⟩] (.deallocClass (quarter 3 1) 38) held' (all 0 _ (by decide) rfl) whole₃

/-- No double hand-out. -/
theorem no_double_hand_out (mapped : c.Mapped)
    (reached : ReachedWhole c (fun thread op => thread < 65536 ∧ op.size < 2 ^ 47) w) :
    w.Disjoint ∧ w.Partitioned := by
  have small : ∀ size, size < 2 ^ 47 → spanCount size < 2 ^ 32 := by
    intro size bound
    unfold spanCount spanBytes
    omega
  obtain ⟨whole, W, role, ledger, -⟩ :=
    reached.ledger mapped fun thread op allowed => small _ allowed.2
  refine ⟨.of_ledger ledger fun x held => ?_, .of_ledger ledger whole⟩
  obtain ⟨thread, op, allowed, same⟩ := reached.reached.sizes held
  rw [same]
  exact small _ allowed.2

theorem no_double_hand_out_outstanding :
    outstanding.objects = {(fiveSpans.arenaBase + 3 * 65536, 44)} ∧
      outstanding.runs = {(fiveSpans.arenaBase + 4 * 65536, 65536)} ∧
      outstanding.Disjoint ∧ outstanding.Partitioned :=
  ⟨outstanding_run.2.1, outstanding_run.2.2, no_double_hand_out fiveSpans_mapped
    (outstanding_reached _ ⟨by decide, by decide⟩ ⟨by decide, by decide⟩)⟩

/-- Stacks so long that the offset of class 17 wraps around to that of class 1. -/
def wide : Config := ⟨4096, 4 * 65536, 1, some 1, 2 ^ 25⟩

theorem wide_placed : wide.Placed ∧ (slotsOffs wide.capPerClass)[1]? = (slotsOffs wide.capPerClass)[17]? :=
  ⟨⟨by decide, by decide⟩, by decide⟩

/-- The first slot of class 1 in that arena, once class 17 has its span. -/
def crossedSlot : Nat := wide.arenaBase + 65536

/-! An object of class 17 goes to its stack. One of class 1 goes to the other stack, and so
over the first. Class 17 hands it out, and class 1 hands it out again. -/

def taken₁₇ : World := (start wide).after 0 [] (.refillBatch 17 1)

def stacked : World := taken₁₇.after 0 [⟨0, 0, false⟩] (.deallocClass wide.arenaBase 17)

def taken₁ : World := stacked.after 0 [] (.refillBatch 1 1)

def overwritten : World := taken₁.after 0 [⟨0, 0, false⟩] (.deallocClass crossedSlot 1)

def crossed : World := overwritten.after 0 [⟨0, 0, false⟩] (.allocClass 17)

def doubled : World := crossed.after 0 [⟨0, 0, false⟩] (.allocClass 1)

theorem doubled_run :
    (taken₁₇.Legal (.deallocClass wide.arenaBase 17) ∧ taken₁.Legal (.deallocClass crossedSlot 1)) ∧
    (taken₁₇.sub.clipped = false ∧ stacked.sub.clipped = false ∧ taken₁.sub.clipped = false ∧
      overwritten.sub.clipped = false ∧ crossed.sub.clipped = false ∧ doubled.sub.clipped = false) ∧
    {(crossedSlot, 17), (crossedSlot, 1)} ≤ doubled.objects ∧ (crossedSlot, 17) ∈ crossed.objects ∧
    crossed.sub.spans.lookup crossedSlot = some (1, 0) := by
  decide +kernel

attribute [irreducible] taken₁₇ stacked taken₁ overwritten crossed doubled

theorem crossed_reached (admitted : Nat → Op → Prop)
    (all : ∀ op, op.size = 0 → admitted 0 op) : ReachedWhole wide admitted crossed := by
  obtain ⟨⟨held, held'⟩, ⟨whole₁, whole₂, whole₃, whole₄, whole₅, -⟩, -⟩ := doubled_run
  have started : ReachedWhole wide admitted (start wide) := .start rfl
  have first : ReachedWhole wide admitted taken₁₇ := by
    unfold taken₁₇ at whole₁ ⊢
    exact started.call 0 [] (.refillBatch 17 1) ⟨by decide, by decide⟩ (all _ rfl) whole₁
  have second : ReachedWhole wide admitted stacked := by
    unfold stacked at whole₂ ⊢
    exact first.call 0 [⟨0, 0, false⟩] (.deallocClass wide.arenaBase 17) held (all _ rfl) whole₂
  have third : ReachedWhole wide admitted taken₁ := by
    unfold taken₁ at whole₃ ⊢
    exact second.call 0 [] (.refillBatch 1 1) ⟨by decide, by decide⟩ (all _ rfl) whole₃
  have fourth : ReachedWhole wide admitted overwritten := by
    unfold overwritten at whole₄ ⊢
    exact third.call 0 [⟨0, 0, false⟩] (.deallocClass crossedSlot 1) held' (all _ rfl) whole₄
  unfold crossed at whole₅ ⊢
  exact fourth.call 0 [⟨0, 0, false⟩] (.allocClass 17) ⟨by decide, by decide⟩ (all _ rfl) whole₅

theorem hands_out_twice : wide.Placed ∧
    ReachedWhole wide (fun thread op => thread < 65536 ∧ op.size < 2 ^ 47) doubled ∧
    {(crossedSlot, 17), (crossedSlot, 1)} ≤ doubled.objects ∧ ¬ doubled.Disjoint := by
  obtain ⟨-, ⟨-, -, -, -, -, whole⟩, both, -, -⟩ := doubled_run
  have reached := crossed_reached (fun thread op => thread < 65536 ∧ op.size < 2 ^ 47)
    fun op none => ⟨by decide, by omega⟩
  refine ⟨wide_placed.1, ?_, both, fun disjoint => ?_⟩
  · unfold doubled at whole ⊢
    exact reached.call 0 [⟨0, 0, false⟩] (.allocClass 1) ⟨by decide, by decide⟩ ⟨by decide, by decide⟩ whole
  · have apart := disjoint.objects _ _ both
    simp only [Apart] at apart
    have pos : 0 < sizeOfClass 17 ∧ 0 < sizeOfClass 1 := by decide
    omega

/-! ## From a bare pointer -/

/-- Exactly the spans `[h, h + n)` went back to the pool, and the record of the run was
    cleared. -/
def Returned (s s' : SubHeap) (h n : Nat) : Prop :=
  ∃ pool F, s' = { s with large := { s.large with pool, runSpans := s.large.runSpans.put h 0 } } ∧
    s.large.pool.Represents (max s.spans.numSpans 1) F ∧ (∀ k, h ≤ k → k < h + n → k ∉ F) ∧
    pool.Represents (max s.spans.numSpans 1) (F ∪ Set.Ico h (h + n))

theorem Returned.of_ledger {trust : Trust} {g : Geometry} {s s' : SubHeap} {role : Nat → Role}
    {H L : Multiset (Nat × Nat)} {W : List (Nat × Nat)} {h n : Nat} {pool : SpanPool}
    (ledger : s.Ledger trust g role H ((g.base + h * spanBytes, n) ::ₘ L) W)
    (ledger' : s'.Ledger trust g (assign role h n .pooled) H L W) (clear : s.large.poisoned = false)
    (out : s' = { s with large := { s.large with pool, runSpans := s.large.runSpans.put h 0 } }) :
    Returned s s' h n := by
  obtain ⟨-, -, -, roles⟩ := ledger.run
  have pooled : {k | assign role h n .pooled k = .pooled} = {k | role k = .pooled} ∪ Set.Ico h (h + n) := by
    ext k
    show assign role h n .pooled k = .pooled ↔ role k = .pooled ∨ (h ≤ k ∧ k < h + n)
    by_cases inside : h ≤ k ∧ k < h + n
    · rw [assign_inside inside.1 inside.2]
      simp only [inside, and_self, or_true]
    · rw [assign_outside inside]
      simp only [inside, or_false]
  refine ⟨pool, _, out, ledger.stock.pool clear, ?_, ?_⟩
  · intro k lo hi (held : role k = .pooled)
    rw [(roles k).mpr ⟨lo, hi⟩] at held
    cases held
  · subst out
    rw [← pooled]
    exact ledger'.stock.pool clear

/-- The table leads from the pointer of everything held back to what it is. -/
theorem pointer_recovers (mapped : c.Mapped)
    (reached : ReachedWhole c (fun _ op => op.size < 2 ^ 47) w) (thread : Nat) :
    (∀ p cls, (p, cls) ∈ w.objects → (∃ home, w.sub.spans.lookup p = some (cls, home)) ∧
      ∀ env, deallocByPtr p thread w.sub env =
        (do deallocClass p cls thread; return true : Prog Turn SubHeap Bool) w.sub env) ∧
    (∀ p size, (p, size) ∈ w.runs → (∃ home, w.sub.spans.lookup p = some (largeClass, home)) ∧
      w.sub.large.runSpans.get? (w.sub.large.spanIndex p) = some (spanCount size) ∧
      Triple (· = w.sub) (deallocByPtr p thread)
        (fun r s' => r = true ∧ Returned w.sub s' (w.sub.large.spanIndex p) (spanCount size))
        (fun _ => False)) ∧
    ∀ p, p < c.arenaBase ∨ c.arenaBase + c.budgetBytes ≤ p → ∀ env,
      deallocByPtr p thread w.sub env = (some false, w.sub, env) := by
  have small : ∀ size, size < 2 ^ 47 → spanCount size < 2 ^ 32 := by
    intro size bound
    unfold spanCount spanBytes
    omega
  obtain ⟨whole, W, role, ledger, settled⟩ :=
    reached.ledger mapped fun thread op allowed => small _ allowed
  have grid := ledger.stock.grid
  refine ⟨fun p cls held => ?_, fun p size held => ?_, fun p outside env => ?_⟩
  · have slot := ledger.slots.outside cls p (.inr held)
    obtain ⟨home, found⟩ := ledger.lookup_class Trust.tags_tagged whole slot
    obtain ⟨k, sh, i, active, -⟩ := slot
    exact ⟨⟨home, found⟩, congrFun (deallocByPtr_class (ledger.cells.isClass active) found)⟩
  · obtain ⟨_, op, allowed, (same : size = op.size)⟩ := reached.reached.sizes held
    have narrow : wrap32 (spanCount size) = spanCount size := wrap32_small (small _ (same ▸ allowed))
    have recorded : (p, spanCount size) ∈ w.records := by
      rw [← narrow]
      exact Multiset.mem_map_of_mem (fun x : Nat × Nat => (x.1, wrap32 (spanCount x.2))) held
    obtain ⟨h, place, -⟩ := ledger.larges.recorded _ recorded
    obtain ⟨rest, split⟩ := Multiset.exists_cons_of_mem recorded
    simp only at place
    subst place
    rw [split] at ledger
    obtain ⟨cell, pos, fits, -⟩ := ledger.run
    have found : w.sub.spans.lookup _ = _ :=
      (ledger.lookup_run settled).resolve_left fun lost => lost.1 Trust.tags_tagged
    have inside : h < w.sub.large.runSpans.len := by
      rw [grid.runs]
      omega
    rw [grid.spanIndex, Slice.get?_inside inside, cell]
    refine ⟨⟨0, found⟩, rfl, Triple.same (Triple.bind
      ((deallocLarge_spec ledger settled).relax fun s' panic => ?_)
      fun _ => Triple.ret true fun s' freed => ?_) (deallocByPtr_large found)⟩
    · have healthy := ledger.healthy Trust.tags_tagged whole
      rw [healthy] at panic
      exact absurd panic.2 (by decide)
    · obtain ⟨kept, clear, pool, out⟩ := freed
      exact ⟨rfl, .of_ledger ledger kept clear out⟩
  · refine congrFun (deallocByPtr_none ?_) env
    rw [SpanTable.lookup, SpanTable.indexOf, if_pos ?_, Option.bind_none]
    rw [grid.table, grid.len]
    exact outside

theorem pointer_recovers_outstanding :
    (∃ home, outstanding.sub.spans.lookup (fiveSpans.arenaBase + 3 * 65536) = some (44, home)) ∧
      ∃ home, outstanding.sub.spans.lookup (fiveSpans.arenaBase + 4 * 65536) = some (largeClass, home) := by
  have reached := outstanding_reached (fun _ op => op.size < 2 ^ 47) (by decide) (by decide)
  obtain ⟨-, objects, runs⟩ := outstanding_run
  obtain ⟨found, found', -⟩ := pointer_recovers fiveSpans_mapped reached 0
  exact ⟨(found (fiveSpans.arenaBase + 3 * 65536) 44 (by simp [objects])).1,
    (found' (fiveSpans.arenaBase + 4 * 65536) 65536 (by simp [runs])).1⟩

/-- An object handed out for class 17 that the table calls one of class 1. -/
theorem pointer_misleads : wide.Placed ∧ ReachedWhole wide (fun _ op => op.size < 2 ^ 47) crossed ∧
    (crossedSlot, 17) ∈ crossed.objects ∧ crossed.sub.spans.lookup crossedSlot = some (1, 0) := by
  obtain ⟨-, -, -, held, found⟩ := doubled_run
  exact ⟨wide_placed.1, crossed_reached _ fun op none => by omega, held, found⟩

/-! ## Inside the arena -/

end World

/-- A span in use lies below the cursor, as long as no carve was clipped. -/
theorem Ledger.below_cursor (ledger : s.Ledger trust g role H L W) (whole : s.clipped = false) {k : Nat}
    (used : role k ≠ .fresh) : g.base + (k + 1) * spanBytes ≤ s.arena.cursor := by
  obtain ⟨f, here, low, fresh⟩ := ledger.stock.cursor
  have fits := ledger.stock.whole whole k used
  have before : k + 1 ≤ f := by
    by_contra beyond
    have := Nat.mul_le_mul_right spanBytes (by omega : f + 1 ≤ k + 1)
    exact used (fresh (by omega) k (by omega))
  have := Nat.mul_le_mul_right spanBytes before
  omega

theorem Ledger.extent_below (ledger : s.Ledger trust g role H L W) (whole : s.clipped = false) {h n : Nat}
    {r : Role} (extent : Extent role h n r) (used : r ≠ .fresh) :
    g.base + (h + n) * spanBytes ≤ s.arena.cursor := by
  have pos := extent.pos
  have last : role (h + n - 1) ≠ .fresh := by
    rwa [extent.own (h + n - 1) (by omega) (by omega)]
  have below := ledger.below_cursor whole last
  rwa [show h + n - 1 + 1 = h + n by omega] at below

namespace World

variable {w : World} {c : Config}

/-- The object lies in a group of spans on a list of its class that were all taken from
    the cursor, are not in the pool and belong to no large run. -/
def Claimed (s : SubHeap) (p cls : Nat) : Prop :=
  ∃ sh h, s.OnList sh cls h ∧ s.arena.base + h * spanBytes ≤ p ∧
    p + sizeOfClass cls ≤ s.arena.base + (h + groupSpans (sizeOfClass cls)) * spanBytes ∧
    s.arena.base + (h + groupSpans (sizeOfClass cls)) * spanBytes ≤ s.arena.cursor ∧
    (s.large.poisoned = false → ∃ F, s.large.pool.Represents (max s.spans.numSpans 1) F ∧
      ∀ k, h ≤ k → k < h + groupSpans (sizeOfClass cls) → k ∉ F) ∧
    ∀ k h', h ≤ k → k < h + groupSpans (sizeOfClass cls) →
      ¬ (h' ≤ k ∧ k < h' + s.large.runSpans.cell h')

theorem Claimed.of_ledger {trust : Trust} {g : Geometry} {s : SubHeap} {role : Nat → Role}
    {H L : Multiset (Nat × Nat)} {W : List (Nat × Nat)} {p cls : Nat}
    (ledger : s.Ledger trust g role H L W) (whole : s.clipped = false) (held : (p, cls) ∈ H) :
    Claimed s p cls ∧ p + sizeOfClass cls ≤ g.base + s.spans.len := by
  obtain ⟨k, sh, i, active, slot, rfl⟩ := ledger.slots.outside cls p (.inr held)
  have grid := ledger.stock.grid
  have isClass := ledger.cells.isClass active
  have extent := ledger.cells.extent active
  have last : role (k + groupSpans (sizeOfClass cls) - 1) = .active k cls sh :=
    extent.own _ (by have := extent.pos; omega) (by have := extent.pos; omega)
  have inside := ledger.stock.whole whole _ (show role _ ≠ .fresh by rw [last]; simp)
  rw [Nat.sub_add_cancel (by have := extent.pos; omega)] at inside
  have stop := slotAddr_end (g := g) (k := k) isClass slot
  refine ⟨⟨sh, k, (ledger.onList_iff (ledger.cells.groups k k cls sh active).2.1).mpr active, ?_, ?_, ?_,
    fun clear => ⟨_, ledger.stock.pool clear, ?_⟩, ?_⟩, by omega⟩
  · rw [grid.arena]
    exact Nat.le_add_right ..
  · rw [grid.arena]
    exact stop
  · rw [grid.arena]
    exact ledger.extent_below whole extent nofun
  · intro j lo hi (pooled : role j = .pooled)
    rw [extent.own j lo hi] at pooled
    cases pooled
  · intro j h' lo hi within
    have := (ledger.cells.runs h' (by omega)).2.1 j within.1 within.2
    rw [extent.own j lo hi] at this
    cases this

/-- Every small object lies inside the arena, in spans claimed for it, as long as no
    carve is clipped. -/
theorem object_inside (mapped : c.Mapped)
    (reached : ReachedWhole c (fun _ op => op.size + (spanBytes - 1) < 2 ^ 64) w) (p cls : Nat)
    (held : (p, cls) ∈ w.objects) :
    c.arenaBase ≤ p ∧ p + sizeOfClass cls ≤ c.arenaBase + c.budgetBytes ∧ Claimed w.sub p cls := by
  have sound : ∀ (thread : Nat) (op : Op), op.size + (spanBytes - 1) < 2 ^ 64 →
      Sound .bare (c.geometry fun _ => True) thread op :=
    fun thread op bound => ⟨bound, fun on => (on rfl).elim, trivial, nofun⟩
  obtain ⟨⟨lost, lostRuns, -, W, role, ledger, -⟩, whole⟩ := reached.tracked mapped sound
  obtain ⟨claimed, high⟩ := Claimed.of_ledger ledger whole (Multiset.mem_add.mpr (.inr held))
  have grid := ledger.stock.grid
  refine ⟨?_, ?_, claimed⟩
  · obtain ⟨sh, h, -, low, -⟩ := claimed
    rw [grid.arena] at low
    exact (Nat.le_add_right ..).trans low
  · rwa [grid.len] at high

theorem object_inside_outstanding : (fiveSpans.arenaBase + 3 * 65536, 44) ∈ outstanding.objects ∧
    fiveSpans.arenaBase + 3 * 65536 + sizeOfClass 44 ≤ fiveSpans.arenaBase + fiveSpans.budgetBytes := by
  have held : (fiveSpans.arenaBase + 3 * 65536, 44) ∈ outstanding.objects := by
    simp [outstanding_run.2.1]
  have reached := outstanding_reached (fun _ op => op.size + (spanBytes - 1) < 2 ^ 64) (by decide)
    (by decide)
  have inside := object_inside fiveSpans_mapped reached (fiveSpans.arenaBase + 3 * 65536) 44 held
  exact ⟨held, inside.2.1⟩

/-- An arena of one span. -/
def oneSpan : Config := ⟨4096, 65536, 1, some 3, 8⟩

theorem oneSpan_mapped : oneSpan.Mapped := ⟨⟨by decide, by decide⟩, by decide⟩

/-- An object of 96 KiB from the only span there is. -/
def overrun : World := (start oneSpan).after 0 [] (.allocClass 45)

theorem object_overruns_arena : oneSpan.Mapped ∧ Reached oneSpan (fun _ _ => True) overrun ∧
    (oneSpan.arenaBase, 45) ∈ overrun.objects ∧
    ¬ oneSpan.arenaBase + sizeOfClass 45 ≤ oneSpan.arenaBase + oneSpan.budgetBytes := by
  have started : Reached oneSpan (fun _ _ => True) (start oneSpan) := .start rfl
  exact ⟨oneSpan_mapped, started.call 0 [] _ ⟨by decide, by decide⟩ trivial, by decide +kernel,
    by decide⟩

end World

/-! ## Homes -/

/-- A free by a thread of the span's own shard is local. -/
theorem Ledger.isLocal (ledger : s.Ledger trust g role H L W) (on : trust.homed) {k c sh i t : Nat}
    (active : role k = .active k c sh) (slot : i < slotsPerSpan (sizeOfClass c))
    (same : t % s.numShards = sh) : s.isLocal (g.slotAddr k i c) t = true := by
  rw [SubHeap.isLocal, SpanTable.homeRelaxed]
  rcases ledger.indexOf_slot active slot with outside | index
  · simp [outside]
  · obtain ⟨home, packed, small, back⟩ := ledger.cells.entries on.tagged k c sh active
    have low : s.spans.entry k % 65536 = home := by
      rw [packed, SpanTable.pack]
      omega
    simp [index, low, back on, same]

namespace World

variable {w : World} {c : Config}

end World

end SubHeap

end Toccata
