import Mathlib.Data.Nat.Size
import Toccata.Frame
import Toccata.SubHeap

/-! # Where the slab keeps its stacks

The slab is one block of bytes per CPU, a power of two apart: the headers of all
classes, their locks, then their slots. The offsets come from one loop and the headers
are written by another. A frame pool has a block with one class, laid out by hand.
-/

namespace Toccata

open Foundations SizeClass

/-! ## Layout -/

/-- Offsets of a class in a block, in fields of 32 bits. -/
structure ClassLoc where
  headerOff : Nat
  slotsOff : Nat
  lockOff : Nat
deriving Repr, DecidableEq, Inhabited

structure Header where
  current : Nat
  capacity : Nat
deriving Repr, DecidableEq

/-- The geometry a `SlabLayout` is made with. -/
structure SlabGeometry where
  base : Nat
  numCpus : Nat
  shift : Nat
  classes : List ClassLoc

namespace SlabGeometry

def block (g : SlabGeometry) (cpu : Nat) : Nat := g.base + cpu * 2 ^ g.shift

def header (g : SlabGeometry) (cpu cls : Nat) : Nat := g.block cpu + (g.classes.getD cls default).headerOff

def slots (g : SlabGeometry) (cpu cls : Nat) : Nat := g.block cpu + (g.classes.getD cls default).slotsOff

def lock (g : SlabGeometry) (cpu cls : Nat) : Nat := g.block cpu + (g.classes.getD cls default).lockOff

def slabBytes (g : SlabGeometry) : Nat := 2 ^ g.shift * g.numCpus

end SlabGeometry

/-- The bits needed to number the bytes of a block. -/
def shiftOf (blockBytes : Nat) : Nat := (max blockBytes 1 - 1).size

/-- The loop over the classes, `left` of them from `cls` on: their offsets, and where the
    last slots end. -/
def locate (capOf : Nat → Nat) (headersBytes : Nat) : Nat → Nat → Nat → List ClassLoc × Nat
  | 0, _, off => ([], off)
  | left + 1, cls, off =>
      let (locs, stop) := locate capOf headersBytes left (cls + 1) (off + capOf cls * 8)
      (⟨wrap32 (cls * 8), wrap32 off, wrap32 (headersBytes + cls * 4)⟩ :: locs, stop)

/-- The loops that write the headers, over the CPUs and over `n` classes. -/
def writeHeaders (capOf : Nat → Nat) (n base stride numCpus : Nat) (mem : Nat → Header) : Nat → Header :=
  (List.range numCpus).foldl (fun mem cpu => (List.range n).foldl (fun mem cls =>
    Function.update mem (base + cpu * stride + cls * 8) ⟨0, capOf cls⟩) mem) mem

namespace SubHeap

/-- The slab of `build_standalone`. -/
def slabGeometry (base numCpus capPerClass : Nat) : SlabGeometry :=
  let headersBytes := numClasses * 8
  let locksBytes := numClasses * 4
  let (classes, blockBytes) := locate (capForClass · capPerClass) headersBytes numClasses 0
    ((headersBytes + locksBytes + 7) / 8 * 8)
  ⟨base, numCpus, shiftOf blockBytes, classes⟩

def initHeaders (base numCpus capPerClass : Nat) (mem : Nat → Header) : Nat → Header :=
  writeHeaders (capForClass · capPerClass) numClasses base
    (2 ^ (slabGeometry base numCpus capPerClass).shift) numCpus mem

end SubHeap

namespace FramePool

def blockBytes : Nat := slotsOff + capPerCpu * 8

/-- The slab of `FramePool::build`, in a buffer of its own. -/
def slabGeometry (base numCpus : Nat) : SlabGeometry :=
  ⟨base, numCpus, shiftOf blockBytes, [⟨0, slotsOff, lockOff⟩]⟩

def initHeaders (base numCpus : Nat) (mem : Nat → Header) : Nat → Header :=
  (List.range numCpus).foldl (fun mem cpu =>
    Function.update mem (base + cpu * 2 ^ (slabGeometry base numCpus).shift) ⟨0, capPerCpu⟩) mem

end FramePool

/-! ## What a slab should be -/

inductive Part where
  | header
  | lock
  | slots
deriving Repr, DecidableEq

namespace Part

def bytes (capOf : Nat → Nat) (cls : Nat) : Part → Nat
  | .header => 8
  | .lock => 4
  | .slots => capOf cls * 8

/-- Natural alignment. -/
def alignment : Part → Nat
  | .header | .slots => 8
  | .lock => 4

end Part

/-- A header, a lock or the slots of one class on one CPU. -/
structure Piece where
  cpu : Nat
  cls : Nat
  part : Part
deriving Repr, DecidableEq

namespace Piece

def start (g : SlabGeometry) (x : Piece) : Nat :=
  match x.part with
  | .header => g.header x.cpu x.cls
  | .lock => g.lock x.cpu x.cls
  | .slots => g.slots x.cpu x.cls

def bytes (capOf : Nat → Nat) (x : Piece) : Nat := x.part.bytes capOf x.cls

end Piece

/-- `n` classes with these capacities on every CPU: the pieces are apart, aligned, in
    the blocks of their CPUs and inside the slab; the slots of a class end where those of
    the next start, the last at the end of the block's bytes; and the headers written say
    how many slots there are. -/
structure Tidy (g : SlabGeometry) (capOf : Nat → Nat) (n blockBytes : Nat) (headers : Nat → Header) :
    Prop where
  apart : ∀ x y : Piece, x.cpu < g.numCpus → y.cpu < g.numCpus → x.cls < n → y.cls < n → x ≠ y →
    x.start g + x.bytes capOf ≤ y.start g ∨ y.start g + y.bytes capOf ≤ x.start g
  aligned : ∀ x : Piece, x.cls < n → x.start g % x.part.alignment = 0
  inBlock : ∀ x : Piece, x.cls < n → g.base + x.cpu * 2 ^ g.shift ≤ x.start g ∧
    x.start g + x.bytes capOf ≤ g.base + (x.cpu + 1) * 2 ^ g.shift
  below : ∀ x : Piece, x.cpu < g.numCpus → x.cls < n →
    x.start g + x.bytes capOf ≤ g.base + g.slabBytes
  room : ∀ cpu cls, cls < n → g.slots cpu cls + capOf cls * 8 =
    if cls + 1 < n then g.slots cpu (cls + 1) else g.block cpu + blockBytes
  written : ∀ cpu cls, cpu < g.numCpus → cls < n → headers (g.header cpu cls) = ⟨0, capOf cls⟩

/-! ## Offsets -/

section Offsets

variable {capOf : Nat → Nat} {n cls cls' : Nat}

/-- Where the slots of a class start in a block, behind the headers and the locks. -/
def slotsAt (capOf : Nat → Nat) (n cls : Nat) : Nat :=
  (n * 8 + n * 4 + 7) / 8 * 8 + ((List.range cls).map fun c => capOf c * 8).sum

theorem slotsAt_succ (capOf : Nat → Nat) (n cls : Nat) :
    slotsAt capOf n (cls + 1) = slotsAt capOf n cls + capOf cls * 8 := by
  simp only [slotsAt, List.range_succ, List.map_append, List.sum_append, List.map_cons, List.map_nil,
    List.sum_cons, List.sum_nil]
  omega

theorem slotsAt_le (capOf : Nat → Nat) (n : Nat) (less : cls < cls') :
    slotsAt capOf n cls + capOf cls * 8 ≤ slotsAt capOf n cls' := by
  induction cls', less using Nat.le_induction with
  | base => exact (slotsAt_succ capOf n cls).ge
  | succ m _ ih =>
      rw [slotsAt_succ]
      omega

theorem slotsAt_aligned (capOf : Nat → Nat) (n cls : Nat) : slotsAt capOf n cls % 8 = 0 := by
  induction cls with
  | zero =>
      simp only [slotsAt, List.range_zero, List.map_nil, List.sum_nil]
      omega
  | succ cls ih =>
      rw [slotsAt_succ]
      omega

theorem headers_before (capOf : Nat → Nat) (n cls : Nat) : n * 12 ≤ slotsAt capOf n cls := by
  unfold slotsAt
  omega

/-- The offset of a part of a class, before it is narrowed. -/
def partAt (capOf : Nat → Nat) (n cls : Nat) : Part → Nat
  | .header => cls * 8
  | .lock => n * 8 + cls * 4
  | .slots => slotsAt capOf n cls

theorem part_ends (part : Part) (inside : cls < n) :
    partAt capOf n cls part + part.bytes capOf cls ≤ slotsAt capOf n n := by
  have before := headers_before capOf n n
  cases part with
  | header =>
      simp only [partAt, Part.bytes]
      omega
  | lock =>
      simp only [partAt, Part.bytes]
      omega
  | slots => exact slotsAt_le capOf n inside

/-- Parts of one block that are not the same are apart. -/
theorem parts_apart (capOf : Nat → Nat) {part part' : Part} (inside : cls < n) (inside' : cls' < n)
    (other : cls = cls' → part ≠ part') :
    partAt capOf n cls part + part.bytes capOf cls ≤ partAt capOf n cls' part' ∨
      partAt capOf n cls' part' + part'.bytes capOf cls' ≤ partAt capOf n cls part := by
  have before := headers_before capOf n cls
  have before' := headers_before capOf n cls'
  rcases Nat.lt_trichotomy cls cls' with less | same | more
  · have later := slotsAt_le capOf n less
    cases part <;> cases part' <;> simp only [partAt, Part.bytes] <;> omega
  · subst same
    cases part <;> cases part' <;> simp only [partAt, Part.bytes] <;>
      first
      | exact (other rfl rfl).elim
      | omega
  · have later := slotsAt_le capOf n more
    cases part <;> cases part' <;> simp only [partAt, Part.bytes] <;> omega

/-- The loop puts every class behind those before it. -/
theorem locate_eq (capOf : Nat → Nat) (headersBytes : Nat) {n : Nat} (left cls : Nat) :
    (∀ i < left, (locate capOf headersBytes left cls (slotsAt capOf n cls)).1.getD i default =
      ⟨wrap32 ((cls + i) * 8), wrap32 (slotsAt capOf n (cls + i)), wrap32 (headersBytes + (cls + i) * 4)⟩) ∧
    (locate capOf headersBytes left cls (slotsAt capOf n cls)).2 = slotsAt capOf n (cls + left) := by
  induction left generalizing cls with
  | zero => exact ⟨fun i none => (Nat.not_lt_zero i none).elim, rfl⟩
  | succ left ih =>
      obtain ⟨each, total⟩ := ih (cls + 1)
      rw [slotsAt_succ] at each total
      refine ⟨fun i inside => ?_, ?_⟩
      · cases i with
        | zero => rfl
        | succ i =>
            have rest := each i (by omega)
            rw [show cls + 1 + i = cls + (i + 1) by omega] at rest
            exact rest
      · rw [show cls + (left + 1) = cls + 1 + left by omega]
        exact total

end Offsets

theorem le_two_pow_shiftOf (blockBytes : Nat) : blockBytes ≤ 2 ^ shiftOf blockBytes := by
  have := Nat.lt_size_self (max blockBytes 1 - 1)
  unfold shiftOf
  omega

/-! ## Headers -/

/-- Writes of the same value to the same place, and of others elsewhere, leave at each
    place what was written there. -/
theorem foldl_update_mem {ι β : Type} (place : ι → Nat) (value : ι → β) {entries : List ι}
    (apart : ∀ i j, i ∈ entries → j ∈ entries → place i = place j → value i = value j)
    (mem : Nat → β) {i : ι} (member : i ∈ entries) :
    (entries.foldl (fun mem j => Function.update mem (place j) (value j)) mem) (place i) = value i := by
  induction entries using List.reverseRecOn with
  | nil => cases member
  | append_singleton entries last ih =>
      rw [List.foldl_append, List.foldl_cons, List.foldl_nil]
      by_cases same : place i = place last
      · rw [same, Function.update_self]
        exact apart last i (by simp) member same.symm
      · rw [Function.update_of_ne same]
        have earlier : i ∈ entries := by
          rcases List.mem_append.mp member with before | last
          · exact before
          · exact (same (congrArg place (List.mem_singleton.mp last))).elim
        exact ih (fun j k one two => apart j k (List.mem_append_left _ one) (List.mem_append_left _ two)) earlier

/-- The headers in the order they are written. -/
def headerOrder (n numCpus : Nat) : List (Nat × Nat) :=
  (List.range numCpus).flatMap fun cpu => (List.range n).map (cpu, ·)

theorem writeHeaders_eq (capOf : Nat → Nat) (n base stride numCpus : Nat) (mem : Nat → Header) :
    writeHeaders capOf n base stride numCpus mem = (headerOrder n numCpus).foldl
      (fun mem x => Function.update mem (base + x.1 * stride + x.2 * 8) ⟨0, capOf x.2⟩) mem := by
  rw [headerOrder, List.foldl_flatMap]
  simp only [List.foldl_map]
  rfl

/-! ## A slab is tidy -/

/-- The geometry has the offsets of the loop, none of them narrowed away. -/
structure Located (g : SlabGeometry) (capOf : Nat → Nat) (n : Nat) : Prop where
  base : g.base % 8 = 0
  some : 0 < n
  caps : ∀ cls < n, 0 < capOf cls
  narrow : slotsAt capOf n n ≤ 2 ^ 32
  shift : g.shift = shiftOf (slotsAt capOf n n)
  classes : ∀ cls < n, g.classes.getD cls default =
    ⟨wrap32 (cls * 8), wrap32 (slotsAt capOf n cls), wrap32 (n * 8 + cls * 4)⟩

namespace Located

variable {g : SlabGeometry} {capOf : Nat → Nat} {n : Nat}

theorem start_eq (located : Located g capOf n) (x : Piece) (inside : x.cls < n) :
    x.start g = g.base + x.cpu * 2 ^ g.shift + partAt capOf n x.cls x.part := by
  have narrow := located.narrow
  have ends : partAt capOf n x.cls x.part + x.part.bytes capOf x.cls ≤ _ := part_ends x.part inside
  have pos := located.caps x.cls inside
  obtain ⟨cpu, cls, part⟩ := x
  dsimp only at ends pos inside
  cases part <;>
    simp only [Piece.start, SlabGeometry.header, SlabGeometry.lock, SlabGeometry.slots, SlabGeometry.block,
      located.classes cls inside, partAt, Part.bytes] at ends ⊢ <;>
    rw [wrap32_small (by omega)]

theorem fits (located : Located g capOf n) : slotsAt capOf n n ≤ 2 ^ g.shift := by
  rw [located.shift]
  exact le_two_pow_shiftOf _

theorem inBlock (located : Located g capOf n) (x : Piece) (inside : x.cls < n) :
    g.base + x.cpu * 2 ^ g.shift ≤ x.start g ∧
      x.start g + x.bytes capOf ≤ g.base + (x.cpu + 1) * 2 ^ g.shift := by
  have fits := located.fits
  have ends : partAt capOf n x.cls x.part + x.part.bytes capOf x.cls ≤ _ := part_ends x.part inside
  rw [located.start_eq x inside, Piece.bytes, Nat.succ_mul]
  omega

theorem apart (located : Located g capOf n) (x y : Piece) (inside : x.cls < n) (inside' : y.cls < n)
    (other : x ≠ y) :
    x.start g + x.bytes capOf ≤ y.start g ∨ y.start g + y.bytes capOf ≤ x.start g := by
  have here := located.inBlock x inside
  have there := located.inBlock y inside'
  rcases Nat.lt_trichotomy x.cpu y.cpu with less | same | more
  · have : (x.cpu + 1) * 2 ^ g.shift ≤ y.cpu * 2 ^ g.shift := Nat.mul_le_mul_right _ less
    exact .inl (by omega)
  · have parts : x.cls = y.cls → x.part ≠ y.part := by
      intro cls part
      apply other
      cases x
      cases y
      simp_all
    have apart := parts_apart capOf inside inside' parts
    rw [located.start_eq x inside, located.start_eq y inside', same, Piece.bytes, Piece.bytes]
    omega
  · have : (y.cpu + 1) * 2 ^ g.shift ≤ x.cpu * 2 ^ g.shift := Nat.mul_le_mul_right _ more
    exact .inr (by omega)

/-- A block holds at least one slot, so its size is a multiple of eight. -/
theorem stride_aligned (located : Located g capOf n) : 2 ^ g.shift % 8 = 0 := by
  have fits := located.fits
  have first := slotsAt_le capOf n located.some
  have before := headers_before capOf n 0
  have pos := located.caps 0 located.some
  have some := located.some
  have large : 3 ≤ g.shift := by
    by_contra small
    have := Nat.pow_le_pow_right (show 0 < 2 by decide) (show g.shift ≤ 2 by omega)
    omega
  obtain ⟨k, shift⟩ := Nat.exists_eq_add_of_le large
  rw [shift, Nat.pow_add]
  omega

theorem aligned (located : Located g capOf n) (x : Piece) (inside : x.cls < n) :
    x.start g % x.part.alignment = 0 := by
  have base := located.base
  have block : x.cpu * 2 ^ g.shift % 8 = 0 := by
    rw [Nat.mul_mod, located.stride_aligned, Nat.mul_zero, Nat.zero_mod]
  have slots := slotsAt_aligned capOf n x.cls
  rw [located.start_eq x inside]
  obtain ⟨cpu, cls, part⟩ := x
  dsimp only at block slots ⊢
  cases part <;> simp only [partAt, Part.alignment] <;> omega

theorem below (located : Located g capOf n) (x : Piece) (has : x.cpu < g.numCpus) (inside : x.cls < n) :
    x.start g + x.bytes capOf ≤ g.base + g.slabBytes := by
  have block := (located.inBlock x inside).2
  have blocks : (x.cpu + 1) * 2 ^ g.shift ≤ g.numCpus * 2 ^ g.shift := Nat.mul_le_mul_right _ has
  rw [SlabGeometry.slabBytes, Nat.mul_comm]
  omega

theorem room (located : Located g capOf n) {cls : Nat} (cpu : Nat) (inside : cls < n) :
    g.slots cpu cls + capOf cls * 8 =
      if cls + 1 < n then g.slots cpu (cls + 1) else g.block cpu + slotsAt capOf n n := by
  have here : g.slots cpu cls = _ := located.start_eq ⟨cpu, cls, .slots⟩ inside
  rw [here]
  dsimp only [partAt]
  split
  · rename_i more
    have next : g.slots cpu (cls + 1) = _ := located.start_eq ⟨cpu, cls + 1, .slots⟩ more
    rw [next]
    dsimp only [partAt]
    rw [slotsAt_succ]
    omega
  · rename_i last
    rw [show n = cls + 1 by omega, slotsAt_succ, SlabGeometry.block]
    omega

theorem written (located : Located g capOf n) (mem : Nat → Header) {cpu cls : Nat} (has : cpu < g.numCpus)
    (inside : cls < n) :
    writeHeaders capOf n g.base (2 ^ g.shift) g.numCpus mem (g.header cpu cls) = ⟨0, capOf cls⟩ := by
  have place : ∀ cpu cls, cls < n → g.header cpu cls = g.base + cpu * 2 ^ g.shift + cls * 8 :=
    fun cpu cls inside => located.start_eq ⟨cpu, cls, .header⟩ inside
  have member : ∀ x : Nat × Nat, x ∈ headerOrder n g.numCpus → x.2 < n := by
    intro x member
    obtain ⟨cpu, -, member⟩ := List.mem_flatMap.mp member
    obtain ⟨cls, low, rfl⟩ := List.mem_map.mp member
    exact List.mem_range.mp low
  have here : (cpu, cls) ∈ headerOrder n g.numCpus :=
    List.mem_flatMap.mpr ⟨cpu, List.mem_range.mpr has, List.mem_map_of_mem (List.mem_range.mpr inside)⟩
  rw [place cpu cls inside, writeHeaders_eq]
  refine foldl_update_mem (fun x : Nat × Nat => g.base + x.1 * 2 ^ g.shift + x.2 * 8)
    (fun x : Nat × Nat => ⟨0, capOf x.2⟩) (fun x y one two same => ?_) mem here
  have same' : g.header x.1 x.2 = g.header y.1 y.2 := by
    rw [place _ _ (member x one), place _ _ (member y two)]
    exact same
  have equal : x.2 = y.2 := by
    by_contra other
    have := located.apart ⟨x.1, x.2, .header⟩ ⟨y.1, y.2, .header⟩ (member x one) (member y two) (by simp [other])
    simp only [Piece.start, Piece.bytes, Part.bytes] at this
    omega
  rw [equal]

/-- What the loops lay out and write is tidy. -/
theorem tidy (located : Located g capOf n) (mem : Nat → Header) : Tidy g capOf n (slotsAt capOf n n)
    (writeHeaders capOf n g.base (2 ^ g.shift) g.numCpus mem) where
  apart x y _ _ inside inside' := located.apart x y inside inside'
  aligned := located.aligned
  inBlock := located.inBlock
  below := located.below
  room cpu _ inside := located.room cpu inside
  written _ _ has inside := located.written mem has inside

end Located

namespace SubHeap

theorem locate_blockBytes (capPerClass : Nat) :
    (locate (capForClass · capPerClass) (numClasses * 8) numClasses 0
      ((numClasses * 8 + numClasses * 4 + 7) / 8 * 8)).2 = blockBytes capPerClass := by
  have total := (locate_eq (capForClass · capPerClass) (numClasses * 8) (n := numClasses) numClasses 0).2
  rw [Nat.zero_add] at total
  exact total

theorem capForClass_pos (cls capPerClass : Nat) : 0 < capForClass cls capPerClass :=
  Nat.lt_of_lt_of_le (by decide : 0 < 8) (le_max_right ..)

theorem slabGeometry_shift (base numCpus capPerClass : Nat) :
    (slabGeometry base numCpus capPerClass).shift = shiftOf (blockBytes capPerClass) :=
  congrArg shiftOf (locate_blockBytes capPerClass)

theorem slabGeometry_located {base : Nat} (numCpus : Nat) {capPerClass : Nat} (aligned : base % 8 = 0)
    (narrow : blockBytes capPerClass ≤ 2 ^ 32) :
    Located (slabGeometry base numCpus capPerClass) (capForClass · capPerClass) numClasses where
  base := aligned
  some := by decide
  caps cls _ := capForClass_pos cls capPerClass
  narrow := narrow
  shift := slabGeometry_shift base numCpus capPerClass
  classes cls inside := by
    have located := (locate_eq (capForClass · capPerClass) (numClasses * 8) (n := numClasses) numClasses 0).1
      cls inside
    rw [Nat.zero_add] at located
    exact located

/-- The stride of the sub-heap is that of its slab. -/
theorem slabGeometry_stride (base numCpus capPerClass : Nat) :
    2 ^ (slabGeometry base numCpus capPerClass).shift = stride capPerClass := by
  have headers : 8 ≤ blockBytes capPerClass := by
    have : 8 ≤ (numClasses * 8 + numClasses * 4 + 7) / 8 * 8 := by decide
    unfold blockBytes slotsStart
    omega
  have some : max (blockBytes capPerClass) 1 - 1 ≠ 0 := by omega
  have bits : (max (blockBytes capPerClass) 1 - 1).size = Nat.log2 (max (blockBytes capPerClass) 1 - 1) + 1 :=
    le_antisymm (Nat.size_le.mpr Nat.lt_log2_self) (Nat.lt_size.mpr (Nat.log2_self_le some))
  rw [slabGeometry_shift, shiftOf, bits, stride]

/-- The arena starts where the slab ends. -/
theorem arena_after_slab {numCpus : Nat} (some : 1 ≤ numCpus) (base budgetBytes capPerClass : Nat)
    (numShards : Option Nat) :
    (buildStandalone base budgetBytes numCpus numShards capPerClass).arena.base =
      base + (slabGeometry base numCpus capPerClass).slabBytes := by
  show base + slabBytes capPerClass (max numCpus 1) = _
  rw [SlabGeometry.slabBytes, slabGeometry_stride, slabBytes, max_eq_left some]
  rfl

end SubHeap

namespace FramePool

theorem slabGeometry_located {base : Nat} (numCpus : Nat) (aligned : base % 8 = 0) :
    Located (slabGeometry base numCpus) (fun _ => capPerCpu) 1 where
  base := aligned
  some := by decide
  caps _ _ := by decide
  narrow := by decide
  shift := rfl
  classes cls inside := by
    obtain rfl : cls = 0 := by omega
    rfl

theorem initHeaders_eq (base numCpus : Nat) (mem : Nat → Header) : initHeaders base numCpus mem =
    writeHeaders (fun _ => capPerCpu) 1 base (2 ^ (slabGeometry base numCpus).shift) numCpus mem := rfl

end FramePool

/-- The slab of a sub-heap and that of a frame pool are tidy, for any number of CPUs and
    every capacity whose block fits the offsets; the arena follows the slab. -/
theorem slabs_tidy (mem : Nat → Header) :
    (∀ base budgetBytes numCpus numShards capPerClass, 1 ≤ numCpus → base % 8 = 0 →
      SubHeap.blockBytes capPerClass ≤ 2 ^ 32 →
      Tidy (SubHeap.slabGeometry base numCpus capPerClass) (capForClass · capPerClass) numClasses
        (SubHeap.blockBytes capPerClass) (SubHeap.initHeaders base numCpus capPerClass mem) ∧
      (SubHeap.buildStandalone base budgetBytes numCpus numShards capPerClass).arena.base =
        base + (SubHeap.slabGeometry base numCpus capPerClass).slabBytes) ∧
    ∀ base numCpus, 1 ≤ numCpus → base % 8 = 0 →
      Tidy (FramePool.slabGeometry base numCpus) (fun _ => capPerCpu) 1 FramePool.blockBytes
        (FramePool.initHeaders base numCpus mem) := by
  constructor
  · intro base budgetBytes numCpus numShards capPerClass some aligned narrow
    exact ⟨(SubHeap.slabGeometry_located numCpus aligned narrow).tidy mem,
      SubHeap.arena_after_slab some base budgetBytes capPerClass numShards⟩
  · intro base numCpus _ aligned
    exact (FramePool.slabGeometry_located numCpus aligned).tidy mem

/-- Two CPUs and small stacks: a header of the second says that eight slots follow. -/
theorem slabs_tidy_two :
    SubHeap.initHeaders 4096 2 8 (fun _ => ⟨7, 7⟩) ((SubHeap.slabGeometry 4096 2 8).header 1 44) = ⟨0, 8⟩ ∧
      FramePool.initHeaders 64 2 (fun _ => ⟨7, 7⟩) ((FramePool.slabGeometry 64 2).header 1 0) = ⟨0, 256⟩ := by
  obtain ⟨heap, frames⟩ := slabs_tidy fun _ => ⟨7, 7⟩
  obtain ⟨tidy, -⟩ := heap 4096 65536 2 none 8 (by decide) (by decide) (by decide +kernel)
  exact ⟨tidy.written 1 44 (by decide) (by decide),
    (frames 64 2 (by decide) (by decide)).written 1 0 (by decide) (by decide)⟩

end Toccata
