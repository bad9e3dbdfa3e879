import Toccata.Foundations.Slice
import Toccata.Foundations.Word

/-! # The span pool

`SpanPool` indexes free runs of whole spans by their exact length: one doubly
linked bucket per length, boundary tags at the head and the tail of every run,
and a two-level occupancy bitmap over the buckets. The definitions follow the
release build, where `debug_assert!` is absent, `u32` arithmetic wraps and an
index outside a boxed slice panics; `none` is that panic.
-/

namespace Toccata

open Foundations

/-- The terminator of span lists, `u32::MAX`. -/
def noSpan : Nat := 2 ^ 32 - 1

structure SpanPool where
  numSpans : Nat
  /-- Head of the bucket of runs of exactly that many spans. -/
  bucketHead : Slice Nat
  next : Slice Nat
  prev : Slice Nat
  /-- Boundary tags: the length of the run headed, or ended, at a span; 0 for
      a span which heads, or ends, no free run. -/
  headCount : Slice Nat
  tailCount : Slice Nat
  /-- Occupancy: bit `c` of `l0` for bucket `c`, bit `i` of `l1` for word `i`
      of `l0`. -/
  l0 : Slice Word
  l1 : Slice Word

namespace SpanPool

/-- Build an empty pool. The span count is narrowed to `u32`, the slices are
    allocated at the full length. -/
def new (numSpans : Nat) : SpanPool :=
  let n := max numSpans 1
  let nbuckets := n + 1
  let l0Words := max ((nbuckets + 63) / 64) 1
  let l1Words := max ((l0Words + 63) / 64) 1
  { numSpans := wrap32 n
    bucketHead := .replicate nbuckets noSpan
    next := .replicate n noSpan
    prev := .replicate n noSpan
    headCount := .replicate n 0
    tailCount := .replicate n 0
    l0 := .replicate l0Words 0#64
    l1 := .replicate l1Words 0#64 }

/-! ## Occupancy bitmap -/

def bitSet (p : SpanPool) (c : Nat) : Option SpanPool := do
  let w := c / 64
  let word ← p.l0.get? w
  let l0 ← p.l0.set? w (word ||| Word.bit (c % 64))
  let summary ← p.l1.get? (w / 64)
  let l1 ← p.l1.set? (w / 64) (summary ||| Word.bit (w % 64))
  return { p with l0, l1 }

def bitClear (p : SpanPool) (c : Nat) : Option SpanPool := do
  let w := c / 64
  let word ← p.l0.get? w
  let cleared := word &&& ~~~ Word.bit (c % 64)
  let l0 ← p.l0.set? w cleared
  if cleared = 0#64 then
    let summary ← p.l1.get? (w / 64)
    let l1 ← p.l1.set? (w / 64) (summary &&& ~~~ Word.bit (w % 64))
    return { p with l0, l1 }
  else
    return { p with l0 }

/-- The lowest bit of the `l0` word at `nw`, as a bucket index. -/
def lowestIn (p : SpanPool) (nw : Nat) : Option (Option Nat) := do
  let word ← p.l0.get? nw
  return some (wrap32 (wrap32 (nw * 64) + word.trailingZeros))

/-- The closing scan over summary words `li, li + 1, ..`; `steps` of them are
    left. -/
def scanSummary (p : SpanPool) : Nat → Nat → Option (Option Nat)
  | 0, _ => some none
  | steps + 1, li => do
      let summary ← p.l1.get? li
      if summary ≠ 0#64 then
        p.lowestIn (li * 64 + summary.trailingZeros)
      else
        p.scanSummary steps (li + 1)

/-- Lowest occupied bucket at or above `c`. The outer option is the panic. -/
def findFirstSetGe (p : SpanPool) (c : Nat) : Option (Option Nat) := do
  if p.l0.len * 64 ≤ c then
    return none
  let w := c / 64
  let b := c % 64
  let word ← p.l0.get? w
  let masked := word &&& (BitVec.allOnes 64 <<< b)
  if masked ≠ 0#64 then
    return some (wrap32 (wrap32 (w * 64) + masked.trailingZeros))
  let lw := w / 64
  let wb := w % 64
  -- the summary bits above the starting word; bit 63 has none above it
  let rest ← if wb < 63 then do
      let summary ← p.l1.get? lw
      pure (summary &&& (BitVec.allOnes 64 <<< (wb + 1)))
    else pure 0#64
  if rest ≠ 0#64 then
    p.lowestIn (lw * 64 + rest.trailingZeros)
  else
    p.scanSummary (p.l1.len - (lw + 1)) (lw + 1)

/-! ## Bucket stacks -/

/-- Span index of the last span of `[head, head + count)`. -/
def lastSpan (head count : Nat) : Nat := wrap32 (wrap32 (head + count) + (2 ^ 32 - 1))

/-- File the free run `[head, head + count)`. -/
def link (p : SpanPool) (head count : Nat) : Option SpanPool := do
  let old ← p.bucketHead.get? count
  let next ← p.next.set? head old
  let prev ← p.prev.set? head noSpan
  let prev ← if old ≠ noSpan then prev.set? old head else pure prev
  let bucketHead ← p.bucketHead.set? count head
  let headCount ← p.headCount.set? head count
  let tailCount ← p.tailCount.set? (lastSpan head count) count
  bitSet { p with next, prev, bucketHead, headCount, tailCount } count

/-- Remove the filed run `[head, head + count)` from its bucket. -/
def unlink (p : SpanPool) (head count : Nat) : Option SpanPool := do
  let before ← p.prev.get? head
  let after ← p.next.get? head
  let p ← if before ≠ noSpan then do
      let next ← p.next.set? before after
      pure { p with next }
    else do
      let bucketHead ← p.bucketHead.set? count after
      let p := { p with bucketHead }
      if after = noSpan then p.bitClear count else pure p
  let p ← if after ≠ noSpan then do
      let prev ← p.prev.set? after before
      pure { p with prev }
    else pure p
  let headCount ← p.headCount.set? head 0
  let tailCount ← p.tailCount.set? (lastSpan head count) 0
  let next ← p.next.set? head noSpan
  let prev ← p.prev.set? head noSpan
  return { p with headCount, tailCount, next, prev }

/-! ## Public operations -/

/-- Take a run of `n` spans, splitting the shortest run that is long enough. -/
def alloc (p : SpanPool) (n : Nat) : Option (Option Nat × SpanPool) := do
  if n = 0 ∨ p.numSpans < n then
    return (none, p)
  match ← p.findFirstSetGe n with
  | none => return (none, p)
  | some m =>
    let head ← p.bucketHead.get? m
    let p ← p.unlink head m
    let p ← if n < m then p.link (wrap32 (head + n)) (m - n) else pure p
    return (some head, p)

/-- Absorb the free run starting right after `[h, h + c)`, if there is one. -/
def absorbRight (p : SpanPool) (h c : Nat) : Option (SpanPool × Nat) := do
  let right := wrap32 (h + c)
  if right < p.numSpans then
    let rc ← p.headCount.get? right
    if rc ≠ 0 then
      let p ← p.unlink right rc
      return (p, wrap32 (c + rc))
    else return (p, c)
  else return (p, c)

/-- Absorb the free run ending right before `[h, h + c)`, if there is one. -/
def absorbLeft (p : SpanPool) (h c : Nat) : Option (SpanPool × Nat × Nat) := do
  if 0 < h then
    let lc ← p.tailCount.get? (h - 1)
    if lc ≠ 0 then
      let lhead := wrap32 (h + (2 ^ 32 - lc))
      let p ← p.unlink lhead lc
      return (p, lhead, wrap32 (c + lc))
    else return (p, h, c)
  else return (p, h, c)

/-- Return `[head, head + count)`, merging with the free runs on both sides. -/
def free (p : SpanPool) (head count : Nat) : Option SpanPool := do
  let (p, c) ← p.absorbRight head count
  let (p, h, c) ← p.absorbLeft head c
  p.link h c

end SpanPool

end Toccata
