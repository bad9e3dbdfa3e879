import Toccata.Foundations.Chain
import Toccata.SpanPool.Refinement
import Toccata.SubHeap

/-! # Who owns a span

Every span plays one role: beyond the cursor, in the pool, part of a group on the
active list of one cell, part of a live large run, or in the hands of an operation
under way. `Stock` ties the cursor and the pool to such an assignment of roles, and
`Cells` the lists, the span table and the run lengths. What an operation does to spans is a change of roles on an interval. Roles go on past the end
of the arena, where a carve clipped by the end would have found its missing spans.
-/

namespace Toccata

open Foundations SizeClass

/-! ## Classes -/

structure IsClass (cls : Nat) : Prop where
  pos : 1 ≤ cls
  lt : cls < numClasses

instance (cls : Nat) : Decidable (IsClass cls) :=
  decidable_of_iff (1 ≤ cls ∧ cls < numClasses) ⟨fun h => ⟨h.1, h.2⟩, fun h => ⟨h.pos, h.lt⟩⟩

theorem class_geometry : ∀ cls < numClasses, 1 ≤ cls →
    8 ≤ sizeOfClass cls ∧ roundedSize cls = sizeOfClass cls ∧
    groupSpans (sizeOfClass cls) ≤ 4 ∧
    slotsPerSpan (sizeOfClass cls) * sizeOfClass cls ≤ groupSpans (sizeOfClass cls) * spanBytes ∧
    (sizeOfClass cls ≤ spanBytes → groupSpans (sizeOfClass cls) = 1 ∧
      slotsPerSpan (sizeOfClass cls) = spanBytes / sizeOfClass cls) ∧
    (spanBytes < sizeOfClass cls → slotsPerSpan (sizeOfClass cls) = 1 ∧
      groupSpans (sizeOfClass cls) = (sizeOfClass cls + (spanBytes - 1)) / spanBytes) := by
  decide +kernel

namespace IsClass

variable {cls : Nat}

theorem size_pos (c : IsClass cls) : 0 < sizeOfClass cls := by
  have := (class_geometry cls c.lt c.pos).1
  omega

theorem rounded (c : IsClass cls) : roundedSize cls = sizeOfClass cls :=
  (class_geometry cls c.lt c.pos).2.1

theorem group_le (c : IsClass cls) : groupSpans (sizeOfClass cls) ≤ 4 :=
  (class_geometry cls c.lt c.pos).2.2.1

theorem tiles (c : IsClass cls) :
    slotsPerSpan (sizeOfClass cls) * sizeOfClass cls ≤ groupSpans (sizeOfClass cls) * spanBytes :=
  (class_geometry cls c.lt c.pos).2.2.2.1

theorem fits (c : IsClass cls) (small : sizeOfClass cls ≤ spanBytes) :
    groupSpans (sizeOfClass cls) = 1 ∧
      slotsPerSpan (sizeOfClass cls) = spanBytes / sizeOfClass cls :=
  (class_geometry cls c.lt c.pos).2.2.2.2.1 small

theorem spreads (c : IsClass cls) (large : spanBytes < sizeOfClass cls) :
    slotsPerSpan (sizeOfClass cls) = 1 ∧
      groupSpans (sizeOfClass cls) = (sizeOfClass cls + (spanBytes - 1)) / spanBytes :=
  (class_geometry cls c.lt c.pos).2.2.2.2.2 large

end IsClass

theorem groupSpans_pos (osz : Nat) : 0 < groupSpans osz := Nat.lt_of_lt_of_le one_pos (le_max_right ..)

/-- Every slot starts in the first span of its group. -/
theorem offset_lt {osz i : Nat} (pos : 0 < osz) (slot : i < slotsPerSpan osz) :
    i * osz < spanBytes := by
  unfold slotsPerSpan at slot
  by_cases zero : i = 0
  · subst zero
    rw [Nat.zero_mul]
    decide
  · have inside : i + 1 ≤ spanBytes / osz := by omega
    have := (Nat.le_div_iff_mul_le pos).mp inside
    have : i * osz < (i + 1) * osz := Nat.mul_lt_mul_of_pos_right (by omega) pos
    omega

/-! ## Roles -/

inductive Role where
  | fresh
  | pooled
  | active (head cls shard : Nat)
  | large (head : Nat)
  | loose (head : Nat)
  | claimed
deriving DecidableEq

/-- A role that no cell and no large run depends on. -/
def Role.plain : Role → Prop
  | .active _ _ _ | .large _ => False
  | _ => True

/-- The roles with `[head, head + count)` changed to `r`. -/
def assign (role : Nat → Role) (head count : Nat) (r : Role) (k : Nat) : Role :=
  if head ≤ k ∧ k < head + count then r else role k

/-- The same roles but for spans that are plain on both sides. -/
def Agree (role role' : Nat → Role) : Prop :=
  ∀ k, role' k = role k ∨ ((role k).plain ∧ (role' k).plain)

variable {role role' : Nat → Role} {head count k : Nat} {r : Role}

theorem assign_inside (lo : head ≤ k) (hi : k < head + count) : assign role head count r k = r :=
  if_pos ⟨lo, hi⟩

theorem assign_outside (outside : ¬ (head ≤ k ∧ k < head + count)) :
    assign role head count r k = role k :=
  if_neg outside

/-- A role that is not the one assigned was there before. -/
theorem assign_other {r' : Role} (different : r' ≠ r) :
    assign role head count r k = r' ↔ ¬ (head ≤ k ∧ k < head + count) ∧ role k = r' := by
  by_cases inside : head ≤ k ∧ k < head + count
  · rw [assign, if_pos inside]
    constructor
    · intro same
      exact (different same.symm).elim
    · intro h
      exact (h.1 inside).elim
  · rw [assign, if_neg inside]
    exact ⟨fun same => ⟨inside, same⟩, fun h => h.2⟩

/-- A role that was not there inside the interval is kept. -/
theorem assign_kept {r' : Role} (different : r' ≠ r)
    (inside : ∀ k, head ≤ k → k < head + count → role k ≠ r') :
    assign role head count r k = r' ↔ role k = r' := by
  rw [assign_other different]
  constructor
  · intro h
    exact h.2
  · intro same
    exact ⟨fun within => inside k within.1 within.2 same, same⟩

/-- Spans out of an operation's hands stay so. -/
theorem assign_settled (settled : ∀ k, role k ≠ .claimed) (released : r ≠ .claimed) :
    ∀ k, assign role head count r k ≠ .claimed := by
  intro k claimed
  rw [assign_other released.symm] at claimed
  exact settled k claimed.2

theorem assign_agree (before : ∀ k, head ≤ k → k < head + count → (role k).plain)
    (after : r.plain) : Agree role (assign role head count r) := by
  intro k
  by_cases inside : head ≤ k ∧ k < head + count
  · rw [assign, if_pos inside]
    exact .inr ⟨before k inside.1 inside.2, after⟩
  · rw [assign, if_neg inside]
    exact .inl rfl

namespace Agree

theorem refl (role : Nat → Role) : Agree role role := fun _ => .inl rfl

theorem active (agree : Agree role role') {h c sh : Nat} :
    role' k = .active h c sh ↔ role k = .active h c sh := by
  rcases agree k with same | ⟨old, new⟩
  · rw [same]
  · constructor
    · intro equal
      rw [equal] at new
      exact new.elim
    · intro equal
      rw [equal] at old
      exact old.elim

theorem large (agree : Agree role role') {h : Nat} : role' k = .large h ↔ role k = .large h := by
  rcases agree k with same | ⟨old, new⟩
  · rw [same]
  · constructor
    · intro equal
      rw [equal] at new
      exact new.elim
    · intro equal
      rw [equal] at old
      exact old.elim

end Agree

namespace SubHeap

/-- What no operation changes, and the shards whose threads take part. -/
structure Geometry where
  base : Nat
  len : Nat
  shards : Nat
  cpus : Nat
  uses : Nat → Prop

structure Grid (g : Geometry) (s : SubHeap) : Prop where
  arena : s.arena.base = g.base
  bitmaps : s.bitmaps.base = g.base
  table : s.spans.base = g.base
  large : s.large.arenaBase = g.base
  len : s.spans.len = g.len
  limit : s.arena.limit = g.base + s.spans.len
  nonNull : 0 < g.base
  mapped : g.base + s.spans.len + 2 ^ 20 ≤ 2 ^ 48
  numShards : s.numShards = g.shards
  shards : 0 < s.numShards
  numCpus : s.slab.numCpus = g.cpus
  cpus : 0 < s.slab.numCpus
  classes : s.slab.slotsOffs.length = numClasses
  slab : s.slab.Apart
  runs : s.large.runSpans.len = max s.spans.numSpans 1

/-- The spans nobody uses: beyond the cursor, as long as a whole one is left there,
    and in the pool. Without a clipped carve, no span past the last whole one is ever
    touched. Below the cursor all spans were carved. -/
structure Stock (g : Geometry) (s : SubHeap) (role : Nat → Role) : Prop where
  grid : s.Grid g
  cursor : ∃ f, s.arena.cursor = g.base + f * spanBytes ∧ f * spanBytes ≤ s.spans.len ∧
    ((f + 1) * spanBytes ≤ s.spans.len → ∀ k, f ≤ k → role k = .fresh)
  stocked : ∀ k, role k = .pooled → k < s.spans.numSpans
  pool : s.large.poisoned = false →
    s.large.pool.Represents (max s.spans.numSpans 1) {k | role k = .pooled}
  whole : s.clipped = false → ∀ k, role k ≠ .fresh → (k + 1) * spanBytes ≤ s.spans.len
  carved : ∀ k, g.base + (k + 1) * spanBytes ≤ s.arena.cursor → role k ≠ .fresh

/-- How far the span table is relied on: not at all, for the classes of spans in use, or
    also for homes that lead back to their shard. -/
inductive Trust where
  | bare
  | tags
  | homes

def Trust.tagged (t : Trust) : Prop := t ≠ .bare

theorem Trust.tags_tagged : Trust.tags.tagged := nofun

def Trust.homed (t : Trust) : Prop := t = .homes

theorem Trust.homed.tagged {t : Trust} (homed : t.homed) : t.tagged := by
  rw [show t = .homes from homed]
  exact nofun

/-- An entry of a class; where homes are kept track of, one that leads back to the
    shard. -/
def Tagged (trust : Trust) (s : SubHeap) (entry cls shard : Nat) : Prop :=
  ∃ home, entry = SpanTable.pack cls home ∧ home < 65536 ∧ (trust.homed → home % s.numShards = shard)

/-- What the table may say of a span. -/
def Labelled (trust : Trust) (s : SubHeap) (role : Nat → Role) (k : Nat) : Prop :=
  s.spans.entry k = 0 ∨ s.spans.entry k = SpanTable.pack largeClass 0 ∨
    (∃ h c sh, role k = .active h c sh ∧ s.Tagged trust (s.spans.entry k) c sh) ∨
    role k = .claimed

/-- The spans in use. A span without a role of its own may be unassigned or tagged
    as large, and never as a class. -/
structure Cells (trust : Trust) (s : SubHeap) (role : Nat → Role) : Prop where
  groups : ∀ k h c sh, role k = .active h c sh →
    IsClass c ∧ sh < s.numShards ∧ h < s.spans.numSpans ∧
      (h ≤ k ∧ k < h + groupSpans (sizeOfClass c)) ∧
      ∀ j, h ≤ j → j < h + groupSpans (sizeOfClass c) → role j = .active h c sh
  entries : trust.tagged → ∀ h c sh, role h = .active h c sh →
    s.Tagged trust (s.spans.entry h) c sh
  labels : ∀ k, k < s.spans.numSpans → s.Labelled trust role k
  lists : ∀ sh c, sh < s.numShards →
    ∃ nodes, Chain s.bitmaps.nextActive (s.head sh c) nodes noSpan ∧ nodes.Nodup ∧
      ∀ h, h ∈ nodes ↔ role h = .active h c sh
  linked : ∀ k, s.bitmaps.onList k = true ↔ ∃ c sh, role k = .active k c sh
  runs : ∀ h, s.large.runSpans.cell h ≠ 0 →
    h + s.large.runSpans.cell h ≤ s.spans.numSpans ∧
      (∀ k, h ≤ k → k < h + s.large.runSpans.cell h → role k = .large h) ∧
      (trust.tagged → s.spans.entry h = SpanTable.pack largeClass 0)
  large : ∀ k h, role k = .large h → h ≤ k ∧ k < h + s.large.runSpans.cell h

/-! ## Objects -/

def Geometry.slotAddr (g : Geometry) (k i cls : Nat) : Nat :=
  g.base + k * spanBytes + i * sizeOfClass cls

/-- A slot of a span on the list of some cell of the class. -/
def IsSlot (g : Geometry) (role : Nat → Role) (p cls : Nat) : Prop :=
  ∃ k sh i, role k = .active k cls sh ∧ i < slotsPerSpan (sizeOfClass cls) ∧ p = g.slotAddr k i cls

/-- Every slot of a carved span is in one place: a bit of either bitmap, a per-CPU
    stack, or among the objects `H` outside. -/
structure Slots (g : Geometry) (s : SubHeap) (role : Nat → Role) (H : Multiset (Nat × Nat)) : Prop where
  once : ∀ k c sh i, role k = .active k c sh → i < slotsPerSpan (sizeOfClass c) →
    (s.bitmaps.allocBit k i).toNat + (s.bitmaps.freeBit k i).toNat +
      (s.slab.cached c).count (g.slotAddr k i c) + H.count (g.slotAddr k i c, c) = 1
  bits : ∀ k i, s.bitmaps.allocBit k i = true ∨ s.bitmaps.freeBit k i = true →
    ∃ c sh, role k = .active k c sh ∧ i < slotsPerSpan (sizeOfClass c)
  outside : ∀ c p, p ∈ s.slab.cached c ∨ (p, c) ∈ H → IsSlot g role p c

/-- Large runs outside, by address and span count. -/
structure Larges (g : Geometry) (s : SubHeap) (L : Multiset (Nat × Nat)) : Prop where
  distinct : (L.map Prod.fst).Nodup
  recorded : ∀ x ∈ L, ∃ h, x.1 = g.base + h * spanBytes ∧ x.2 ≠ 0 ∧
    s.large.runSpans.cell h = x.2

/-- Runs of spans in the hands of an operation. -/
structure Loose (role : Nat → Role) (W : List (Nat × Nat)) : Prop where
  distinct : (W.map Prod.fst).Nodup
  some : ∀ x ∈ W, 0 < x.2
  inside : ∀ x ∈ W, ∀ k, x.1 ≤ k → k < x.1 + x.2 → role k = .loose x.1
  known : ∀ k h, role k = .loose h → ∃ x ∈ W, x.1 ≤ k ∧ k < x.1 + x.2

structure Ledger (trust : Trust) (g : Geometry) (s : SubHeap) (role : Nat → Role)
    (H L : Multiset (Nat × Nat)) (W : List (Nat × Nat)) : Prop where
  stock : s.Stock g role
  cells : s.Cells trust role
  slots : s.Slots g role H
  larges : s.Larges g L
  loose : Loose role W
  used : ∀ k h c sh, role k = .active h c sh → g.uses sh
  healthy : trust.tagged → s.clipped = false → s.large.poisoned = false

/-- The state between operations, and between the critical sections of one. -/
def Owned (trust : Trust) (g : Geometry) (H L : Multiset (Nat × Nat)) (W : List (Nat × Nat))
    (s : SubHeap) : Prop :=
  ∃ role, s.Ledger trust g role H L W ∧ ∀ k, role k ≠ .claimed

/-- The state between operations when runs of spans may have been lost in a panic. -/
def Kept (trust : Trust) (g : Geometry) (H L : Multiset (Nat × Nat)) (s : SubHeap) : Prop :=
  ∃ W, Owned trust g H L W s

/-! ## Geometry -/

variable {trust : Trust} {g : Geometry} {s s' : SubHeap} {H H' L L' : Multiset (Nat × Nat)} {W W' : List (Nat × Nat)}

theorem Grid.small (grid : s.Grid g) : s.spans.numSpans + 4 ≤ 2 ^ 32 := by
  have := grid.mapped
  have := grid.nonNull
  unfold SpanTable.numSpans spanBytes
  omega

/-- The table has as many spans at all times. -/
theorem Grid.numSpans (grid : s.Grid g) (grid' : s'.Grid g) :
    s'.spans.numSpans = s.spans.numSpans := by
  rw [SpanTable.numSpans, SpanTable.numSpans, grid.len, grid'.len]

theorem Grid.spanBase (grid : s.Grid g) (k : Nat) :
    s.bitmaps.spanBase k = g.base + k * spanBytes := by
  rw [SpanBitmaps.spanBase, grid.bitmaps]

/-- An address in a span is found there. -/
theorem Grid.spanOf (grid : s.Grid g) {k off : Nat} (inside : k < s.spans.numSpans)
    (low : off < spanBytes) : s.bitmaps.spanOf (g.base + k * spanBytes + off) = k := by
  have := grid.small
  rw [SpanBitmaps.spanOf, grid.bitmaps, wrap32, show g.base + k * spanBytes + off - g.base =
    off + k * spanBytes by omega, Nat.add_mul_div_right _ _ (by decide), Nat.div_eq_of_lt low,
    Nat.zero_add, Nat.mod_eq_of_lt (by omega)]

theorem Grid.indexOf (grid : s.Grid g) {k off : Nat} (low : off < spanBytes)
    (inside : k * spanBytes + off < s.spans.len) :
    s.spans.indexOf (g.base + k * spanBytes + off) = some k := by
  rw [SpanTable.indexOf, grid.table, if_neg (by omega), show
    g.base + k * spanBytes + off - g.base = off + k * spanBytes by omega,
    Nat.add_mul_div_right _ _ (by decide), Nat.div_eq_of_lt low, Nat.zero_add]

theorem numSpans_iff {k : Nat} : k < s.spans.numSpans ↔ k * spanBytes < s.spans.len := by
  unfold SpanTable.numSpans spanBytes
  omega

/-- Where a run of whole spans that starts inside the arena ends in the table. -/
theorem Grid.lastOf (grid : s.Grid g) {h n : Nat} (pos : 0 < n)
    (fits : h + n ≤ s.spans.numSpans + 4) :
    s.spans.lastOf (g.base + h * spanBytes) (n * spanBytes) =
      min (h + n - 1) (s.spans.numSpans - 1) := by
  have small := grid.small
  have mapped := grid.mapped
  have bound : (h + n) * spanBytes ≤ 2 ^ 48 := by
    unfold spanBytes
    omega
  rw [SpanTable.lastOf, grid.table, wrap64, wrap64]
  congr 1
  unfold spanBytes at *
  omega

/-- Tagging a run of whole spans that starts inside the arena. -/
theorem Grid.assignRange (grid : s.Grid g) {h n : Nat} (cls home : Nat) (pos : 0 < n)
    (inside : h < s.spans.numSpans) (fits : h + n ≤ s.spans.numSpans + 4) :
    s.spans.assignRange (g.base + h * spanBytes) (n * spanBytes) cls home =
      { s.spans with entry := fun k => if h ≤ k ∧ k < h + n ∧ k < s.spans.numSpans then
          SpanTable.pack cls home else s.spans.entry k } := by
  have start : s.spans.indexOf (g.base + h * spanBytes + 0) = some h :=
    grid.indexOf (by decide) (by simpa using numSpans_iff.mp inside)
  rw [Nat.add_zero] at start
  rw [SpanTable.assignRange, start]
  simp only [grid.lastOf pos fits]
  congr 1
  funext k
  congr 1
  refine propext ⟨fun h => ?_, fun h => ?_⟩ <;> omega

end SubHeap

end Toccata
