import Toccata.Foundations.Prog
import Toccata.Foundations.Slice
import Toccata.Slab

/-! # Frame pools

A region is divided once into equal frames of a power-of-two size. Free frames
sit in the central stack, in the per-CPU slab or in a caller's magazine; the
metadata of a frame lives out of band, indexed by the frame's position.

Addresses are natural numbers below `2 ^ 64`. Programs panic on a failed index
check and ask the schedule how each slab attempt goes.
-/

namespace Toccata

open Foundations

inductive Reclaim where
  | free
  | keep
deriving Repr, DecidableEq

/-- Per-frame metadata with its policy. Both hooks act on one frame's metadata,
    which the source updates in place. -/
class FrameMeta (M : Type) where
  idle : M
  onAlloc : M → M
  onFree : M → M × Reclaim

/-- Every frame has one owner, so a free always reclaims. -/
instance : FrameMeta Unit where
  idle := ()
  onAlloc _ := ()
  onFree _ := ((), .free)

/-- Atomic reference counts wrap at 64 bits. -/
structure RefCount where
  count : Nat
deriving Repr, DecidableEq

namespace RefCount

def retain (r : RefCount) : RefCount := ⟨(r.count + 1) % 2 ^ 64⟩

/-- `Free` exactly when the count was one. -/
def release (r : RefCount) : RefCount × Reclaim :=
  (⟨(r.count + 2 ^ 64 - 1) % 2 ^ 64⟩, if r.count = 1 then .free else .keep)

end RefCount

instance : FrameMeta RefCount where
  idle := ⟨0⟩
  onAlloc _ := ⟨1⟩
  onFree := RefCount.release

/-- Backing memory: a mapping is never null and ends inside the address space. -/
structure Region where
  base : Nat
  len : Nat
  nonNull : 0 < base
  mapped : base + len ≤ 2 ^ 64

inductive FramePoolError where
  | frameSizeNotPow2 (frameSize : Nat)
  | regionTooSmall (len frameSize : Nat)
deriving Repr, DecidableEq

def batch : Nat := 32

def capPerCpu : Nat := 256

def frameMagCap : Nat := 32

/-- The pool, with the central stack's `slots[0..top)` listed from the top. -/
structure FramePool (M : Type) where
  framesBase : Nat
  frameShift : Nat
  nFrames : Nat
  slab : SlabLayout
  central : List Nat
  metadata : Slice M

def frameAddresses (base frameSize n : Nat) : List Nat :=
  (List.range n).map fun i => base + i * frameSize

namespace FramePool

/-- The block of a CPU: a header, its lock, and the slots. -/
def lockOff : Nat := 8

def slotsOff : Nat := (lockOff + 4 + 7) / 8 * 8

variable {M : Type}

/-- A power of two is its own highest bit, and its trailing zeros are its
    logarithm. Seeding pushes frame 0 first, so the last frame ends on top. -/
def build [FrameMeta M] (region : Region) (frameSize numCpus : Nat) :
    Except FramePoolError (FramePool M) :=
  if frameSize ≠ 2 ^ Nat.log2 frameSize then .error (.frameSizeNotPow2 frameSize) else
    let nFrames := region.len / frameSize
    if nFrames = 0 then .error (.regionTooSmall region.len frameSize) else
      .ok {
        framesBase := region.base
        frameShift := Nat.log2 frameSize
        nFrames
        slab := ⟨numCpus, [slotsOff], fun _ _ => ⟨capPerCpu, []⟩⟩
        central := (frameAddresses region.base frameSize nFrames).reverse
        metadata := Slice.replicate nFrames FrameMeta.idle }

def indexOf (pool : FramePool M) (ptr : Nat) : Nat :=
  (ptr + 2 ^ 64 - pool.framesBase) % 2 ^ 64 / 2 ^ pool.frameShift

/-! ## Central stack and slab -/

def centralPush (p : Nat) : Prog Turn (FramePool M) Unit :=
  Prog.update fun pool =>
    if pool.central.length < pool.nFrames then some { pool with central := p :: pool.central }
    else none

def centralPop : Prog Turn (FramePool M) (Option Nat) := do
  match (← Prog.read).central with
  | [] => pure none
  | p :: rest => do
      Prog.modify fun pool => { pool with central := rest }
      pure (some p)

def slabPop : Prog Turn (FramePool M) (Fast Nat) := do
  let turn ← Prog.ask
  let pool ← Prog.read
  Prog.modify fun pool => { pool with slab := (pool.slab.pop 0 turn).2 }
  pure (pool.slab.pop 0 turn).1

def slabPush (p : Nat) : Prog Turn (FramePool M) (Fast Unit) := do
  let turn ← Prog.ask
  let pool ← Prog.read
  Prog.modify fun pool => { pool with slab := (pool.slab.push 0 p turn).2 }
  pure (pool.slab.push 0 p turn).1

/-! ## The per-CPU layer -/

/-- Slab empty: hand out one central frame and move up to a batch more. A frame
    the slab refuses goes back and ends the loop. -/
def refill : Prog Turn (FramePool M) (Option Nat) := do
  match ← centralPop with
  | none => pure none
  | some handed => do
      Prog.upTo (batch - 1) do
        match ← centralPop with
        | none => pure false
        | some p => do
            match ← slabPush p with
            | .ok () => pure true
            | .needsSlow => do
                centralPush p
                pure false
      pure (some handed)

/-- Slab full: move half a batch to central, then stash the frame. -/
def drain (ptr : Nat) : Prog Turn (FramePool M) Unit := do
  Prog.upTo (max (batch / 2) 1) do
    match ← slabPop with
    | .ok p => do
        centralPush p
        pure true
    | .needsSlow => pure false
  match ← slabPush ptr with
  | .ok () => pure ()
  | .needsSlow => centralPush ptr

def popL2 : Prog Turn (FramePool M) (Option Nat) := do
  match ← slabPop with
  | .ok p => pure (some p)
  | .needsSlow => refill

def pushL2 (p : Nat) : Prog Turn (FramePool M) Unit := do
  match ← slabPush p with
  | .ok () => pure ()
  | .needsSlow => drain p

/-! ## Metadata -/

variable [FrameMeta M]

/-- Metadata after the policy saw an allocation. -/
def metaAlloc (p : Nat) : Prog Turn (FramePool M) Unit :=
  Prog.update fun pool => do
    let m ← pool.metadata.get? (pool.indexOf p)
    some { pool with metadata := pool.metadata.put (pool.indexOf p) (FrameMeta.onAlloc m) }

def metaFree (p : Nat) : Prog Turn (FramePool M) Reclaim := do
  match (← Prog.read).metadata.get? ((← Prog.read).indexOf p) with
  | none => Prog.fail
  | some m => do
      Prog.modify fun pool =>
        { pool with metadata := pool.metadata.put (pool.indexOf p) (FrameMeta.onFree m).1 }
      pure (FrameMeta.onFree m).2

/-! ## Calls on the pool -/

def alloc : Prog Turn (FramePool M) (Option Nat) := do
  match ← popL2 with
  | none => pure none
  | some p => do
      metaAlloc p
      pure (some p)

/-- Release one reference. The policy's answer is returned for bookkeeping; the
    source keeps it to itself. -/
def free (p : Nat) : Prog Turn (FramePool M) Reclaim := do
  match ← metaFree p with
  | .keep => pure .keep
  | .free => do
      pushL2 p
      pure .free

def recycle (p : Nat) : Prog Turn (FramePool M) Unit := pushL2 p

/-- Fill up to `n` entries of the caller's slice. -/
def allocN (n : Nat) : Prog Turn (FramePool M) (List Nat) :=
  Prog.loop (fun out => do
    match ← popL2 with
    | none => pure (.done out)
    | some p => do
        metaAlloc p
        pure (.yield (out ++ [p]))) n []

def freeN (frames : List Nat) : Prog Turn (FramePool M) (List Reclaim) :=
  Prog.each free frames

end FramePool

/-! ## Magazines -/

/-- A thread-local magazine: `ptrs[0..len)`, listed from the top. -/
structure FrameCache where
  ptrs : List Nat
deriving Repr, DecidableEq

namespace FrameCache

open FramePool

variable {M : Type}

/-- The refill loop, `n` frames short of its goal. -/
def fetch (n : Nat) (ptrs : List Nat) : Prog Turn (FramePool M) (List Nat) :=
  Prog.loop (fun ptrs => do
    match ← popL2 with
    | some p => pure (.yield (p :: ptrs))
    | none => pure (.done ptrs)) n ptrs

def refill (cache : FrameCache) : Prog Turn (FramePool M) (Option Nat × FrameCache) := do
  match ← fetch (frameMagCap / 2 - cache.ptrs.length) cache.ptrs with
  | [] => pure (none, ⟨[]⟩)
  | p :: rest => pure (some p, ⟨rest⟩)

def alloc [FrameMeta M] (cache : FrameCache) : Prog Turn (FramePool M) (Option Nat × FrameCache) := do
  match cache.ptrs with
  | p :: rest => do
      metaAlloc p
      pure (some p, ⟨rest⟩)
  | [] => do
      match ← refill cache with
      | (none, cache') => pure (none, cache')
      | (some p, cache') => do
          metaAlloc p
          pure (some p, cache')

/-- Give `n` frames from the top back to the pool; running short would underflow
    the length. -/
def flush (n : Nat) (ptrs : List Nat) : Prog Turn (FramePool M) (List Nat) :=
  Prog.loop (fun ptrs =>
    match ptrs with
    | [] => Prog.fail
    | p :: rest => do
        pushL2 p
        pure (.yield rest)) n ptrs

def store (ptrs : List Nat) (p : Nat) : Prog Turn (FramePool M) FrameCache :=
  if ptrs.length < frameMagCap then pure ⟨p :: ptrs⟩ else Prog.fail

def drainThenPush (cache : FrameCache) (p : Nat) : Prog Turn (FramePool M) FrameCache := do
  store (← flush (frameMagCap / 2) cache.ptrs) p

def recycle (cache : FrameCache) (p : Nat) : Prog Turn (FramePool M) FrameCache :=
  if cache.ptrs.length < frameMagCap then pure ⟨p :: cache.ptrs⟩ else cache.drainThenPush p

def free [FrameMeta M] (cache : FrameCache) (p : Nat) :
    Prog Turn (FramePool M) (Reclaim × FrameCache) := do
  match ← metaFree p with
  | .keep => pure (.keep, cache)
  | .free => return (.free, ← cache.recycle p)

def drop (cache : FrameCache) : Prog Turn (FramePool M) Unit := do
  let _ ← flush cache.ptrs.length cache.ptrs

end FrameCache

end Toccata
