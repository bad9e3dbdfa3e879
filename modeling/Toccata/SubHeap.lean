import Toccata.Foundations.Prog
import Toccata.Meta
import Toccata.SizeClass
import Toccata.Slab

/-! # The sub-heap

A sub-heap hands out small objects of fixed classes and large runs of spans from one
arena. Small objects sit in per-CPU stacks and, behind them, in the bitmaps of the
spans on the active list of a cell, one per shard and class. Spans come from the bump
cursor or from the pool of reclaimed runs. Programs run over the sub-heap; every slab
attempt asks the schedule, a panic ends the call, and one under the mutex of the large
allocator poisons it. Sizes are 64-bit and wrap. Live counters are kept apart.
-/

namespace Toccata

open Foundations SizeClass

/-! ## The arena -/

structure BumpArena where
  cursor : Nat
  limit : Nat
  base : Nat

namespace BumpArena

/-- Claim up to `numSpans` whole spans and tag them; an empty range when the arena is
    drained. -/
def carveSpans (a : BumpArena) (numSpans cls home : Nat) (spans : SpanTable) :
    (Nat × Nat) × BumpArena × SpanTable :=
  let start := a.cursor
  let availSpans := (a.limit - start) / spanBytes
  if availSpans = 0 then ((start, start), a, spans) else
    let runEnd := start + min numSpans availSpans * spanBytes
    ((start, runEnd), { a with cursor := runEnd },
      spans.assignRange start (runEnd - start) cls home)

/-- Carve exactly `runBytes`, aligned to the span grid. -/
def carveRun (a : BumpArena) (runBytes : Nat) : Option (Nat × BumpArena) :=
  let rel := a.cursor - a.base
  let start := a.base + (rel + (spanBytes - 1)) / spanBytes * spanBytes
  let stop := start + runBytes
  if 2 ^ 64 ≤ stop ∨ a.limit < stop then none else some (start, { a with cursor := stop })

end BumpArena

/-- The pool of free runs behind its mutex, and the span count of every live run by
    its first span. -/
structure LargeAllocator where
  pool : SpanPool
  poisoned : Bool
  runSpans : Slice Nat
  arenaBase : Nat

namespace LargeAllocator

def new (arenaBase arenaBytes : Nat) : LargeAllocator :=
  let numSpans := max ((arenaBytes + (spanBytes - 1)) / spanBytes) 1
  ⟨SpanPool.new numSpans, false, .replicate numSpans 0, arenaBase⟩

def spanIndex (l : LargeAllocator) (ptr : Nat) : Nat := (ptr - l.arenaBase) / spanBytes

def spanPtr (l : LargeAllocator) (idx : Nat) : Nat := l.arenaBase + idx * spanBytes

end LargeAllocator

def batchFor (cls : Nat) : Nat :=
  let sz := sizeOfClass cls
  if sz ≤ 128 then 64 else if sz ≤ 512 then 32 else if sz ≤ 2048 then 16
  else if sz ≤ 8192 then 8 else 4

def capForClass (cls base : Nat) : Nat :=
  let sz := sizeOfClass cls
  let tier :=
    if sz ≤ 512 then base else if sz ≤ 4096 then base / 2 else if sz ≤ 32768 then base / 4 else 24
  max (min tier base) 8

/-- Object size as the carver rounds it. -/
def roundedSize (cls : Nat) : Nat := (sizeOfClass cls + (minAlign - 1)) / minAlign * minAlign

def slotsPerSpan (osz : Nat) : Nat := max (spanBytes / osz) 1

def groupSpans (osz : Nat) : Nat := max ((osz + (spanBytes - 1)) / spanBytes) 1

/-- A span scanned under a cell's lock, with its table entry then. -/
structure Scan where
  shard : Nat
  cls : Nat
  span : Nat
  entry : Nat
deriving Repr, DecidableEq

/-- `head` and `reuseHint` are the cells' fields, by shard and class. `scans` records
    what was scanned, and `clipped` whether a carve for one object larger than a span
    ever got fewer spans than it asked for; the code reads neither. -/
structure SubHeap where
  slab : SlabLayout
  head : Nat → Nat → Nat
  reuseHint : Nat → Nat → Nat
  bitmaps : SpanBitmaps
  numShards : Nat
  arena : BumpArena
  spans : SpanTable
  large : LargeAllocator
  scans : List Scan
  clipped : Bool

namespace SubHeap

def setHead (s : SubHeap) (shard cls span : Nat) : SubHeap :=
  { s with head := Function.update s.head shard (Function.update (s.head shard) cls span) }

def setHint (s : SubHeap) (shard cls span : Nat) : SubHeap :=
  { s with
    reuseHint := Function.update s.reuseHint shard (Function.update (s.reuseHint shard) cls span) }

def poison (s : SubHeap) : SubHeap := { s with large := { s.large with poisoned := true } }

/-- A panic under the large mutex. -/
def panicLocked {α : Type} : Prog Turn SubHeap α := do
  Prog.modify poison
  Prog.fail

def slabPop (cls : Nat) : Prog Turn SubHeap (Fast Nat) := do
  let turn ← Prog.ask
  Prog.apply fun s => ((s.slab.pop cls turn).1, { s with slab := (s.slab.pop cls turn).2 })

def slabPush (cls p : Nat) : Prog Turn SubHeap (Fast Unit) := do
  let turn ← Prog.ask
  Prog.apply fun s => ((s.slab.push cls p turn).1, { s with slab := (s.slab.push cls p turn).2 })

/-! ## Cells -/

/-- Set the free bit of an object. -/
def deposited (s : SubHeap) (obj osz : Nat) : SubHeap :=
  let span := s.bitmaps.spanOf obj
  let slot := wrap32 ((obj - s.bitmaps.spanBase span) / osz)
  { s with bitmaps := s.bitmaps.set span slot }

def centralDeposit (obj osz : Nat) : Prog Turn SubHeap Unit := Prog.modify (·.deposited obj osz)

/-- Hand out up to `room` objects of a span from word `w` on, `left` words to go. -/
def scanWords (span osz : Nat) : Nat → Nat → Nat → SpanBitmaps → List Nat × SpanBitmaps
  | 0, _, _, b => ([], b)
  | left + 1, w, room, b =>
      if room = 0 then ([], b) else
        let (word, b) := b.foldFreeWord span w
        if word = 0#64 then scanWords span osz left (w + 1) room b else
          let bits := Word.lowest room word
          let b := b.allocClear span w (Word.maskOf bits)
          let (rest, b) := scanWords span osz left (w + 1) (room - bits.length) b
          (bits.map (fun bit => b.spanBase span + (w * 64 + bit) * osz) ++ rest, b)

def scanSpan (span room nwords osz : Nat) (b : SpanBitmaps) : List Nat × SpanBitmaps :=
  scanWords span osz nwords 0 room b

/-- The walk of an active list from `span`, skipping the span scanned first; the
    objects, and the spans scanned. -/
def takeFrom (hint nwords osz : Nat) :
    Nat → Nat → Nat → SpanBitmaps → List Nat × List Nat × SpanBitmaps
  | 0, _, _, b => ([], [], b)
  | steps + 1, span, room, b =>
      if room = 0 ∨ span = noSpan then ([], [], b) else
        if span = hint then takeFrom hint nwords osz steps (b.next span) room b else
          let (objs, b) := scanSpan span room nwords osz b
          let (rest, seen, b) := takeFrom hint nwords osz steps (b.next span) (room - objs.length) b
          (objs ++ rest, span :: seen, b)

/-- The hint of a cell, when it is to be scanned first: only classes with few slots
    per span use it, and the span must still be tagged with the class. -/
def validHint (s : SubHeap) (shard cls : Nat) : Bool :=
  let h := s.reuseHint shard cls
  slotsPerSpan (sizeOfClass cls) ≤ 64 && h ≠ noSpan &&
    (s.spans.lookup (s.bitmaps.spanBase h)).any fun entry => entry.1 = cls

def note (s : SubHeap) (shard cls : Nat) (seen : List Nat) : List Scan :=
  seen.map fun span => ⟨shard, cls, span, s.spans.entry span⟩

/-- Words of either bitmap that hold slots of the class. -/
def bitmapWords (cls : Nat) : Nat := (slotsPerSpan (sizeOfClass cls) + 63) / 64

/-- Take up to `room` objects from a cell. A list has at most as many spans as the
    arena. -/
def taken (s : SubHeap) (shard cls room : Nat) : List Nat × SubHeap :=
  if s.validHint shard cls then
    let scan := scanSpan (s.reuseHint shard cls) room (bitmapWords cls) (sizeOfClass cls) s.bitmaps
    let walk := takeFrom (s.reuseHint shard cls) (bitmapWords cls) (sizeOfClass cls)
      (s.spans.numSpans + 1) (s.head shard cls) (room - scan.1.length) scan.2
    (scan.1 ++ walk.1, { s with
      bitmaps := walk.2.2
      scans := s.note shard cls (s.reuseHint shard cls :: walk.2.1) ++ s.scans })
  else
    let walk := takeFrom noSpan (bitmapWords cls) (sizeOfClass cls) (s.spans.numSpans + 1)
      (s.head shard cls) room s.bitmaps
    (walk.1, { s with bitmaps := walk.2.2, scans := s.note shard cls walk.2.1 ++ s.scans })

def centralTake (shard cls room : Nat) : Prog Turn SubHeap (List Nat) :=
  Prog.apply (·.taken shard cls room)

/-- Whether the program runs by itself, or in steps between those of other threads. -/
inductive Company where
  | alone
  | among
deriving Repr, DecidableEq

/-- Whether a `try_lock` finds the lock taken: never when no other thread is at work, and
    else as the schedule has it. -/
def tryLock : Company → Prog Turn SubHeap Bool
  | .alone => return false
  | .among => do
      let turn ← Prog.ask
      return turn.any (·.declines)

/-- A run of the pool, tagged, without waiting for the mutex. -/
def tryPoolAlloc (company : Company) (numSpans cls home : Nat) :
    Prog Turn SubHeap (Option (Nat × Nat)) := do
  let busy ← tryLock company
  let s ← Prog.read
  if busy ∨ s.large.poisoned then
    return none
  else
    match s.large.pool.alloc (wrap32 numSpans) with
    | none => panicLocked
    | some (none, _) => return none
    | some (some headIdx, pool) => do
        let start := s.large.spanPtr headIdx
        let stop := start + numSpans * spanBytes
        Prog.modify fun s => { s with
          large := { s.large with pool }
          spans := s.spans.assignRange start (stop - start) cls home }
        return some (start, stop)

def carveOrReuseSpans (company : Company) (numSpans cls home : Nat) :
    Prog Turn SubHeap (Nat × Nat) := do
  match ← tryPoolAlloc company numSpans cls home with
  | some range => return range
  | none =>
      Prog.apply fun s =>
        let (range, arena, spans) := s.arena.carveSpans numSpans cls home s.spans
        (range, { s with arena, spans })

/-- Mark the slots of a claimed span free and link it to its cell. -/
def adopt (s : SubHeap) (shard cls slots span : Nat) : SubHeap :=
  let s := { s with bitmaps := s.bitmaps.tileSpan span slots }
  if s.bitmaps.onList span then s else
    { s.setHead shard cls span with bitmaps := s.bitmaps.linkFront span (s.head shard cls) }

/-- The spans of a claimed run, `count` of them from address `addr` on. -/
def adoptRun (shard cls perSpan : Nat) : Nat → Nat → SubHeap → SubHeap
  | 0, _, s => s
  | count + 1, addr, s =>
      adoptRun shard cls perSpan count (addr + spanBytes)
        (s.adopt shard cls perSpan (s.bitmaps.spanOf addr))

/-- Carve spans for a cell; how many objects that made available. -/
def centralCarve (company : Company) (cls myShard batch : Nat) : Prog Turn SubHeap Nat := do
  let s ← Prog.read
  let shard := myShard % s.numShards
  let osz := roundedSize cls
  if spanBytes < osz then
    let group := (osz + (spanBytes - 1)) / spanBytes
    let (start, runEnd) ← carveOrReuseSpans company group cls (wrap16 myShard)
    if runEnd ≤ start then
      return 0
    else
      Prog.modify fun s => { s.adopt shard cls 1 (s.bitmaps.spanOf start) with
        clipped := s.clipped || runEnd - start < group * spanBytes }
      return 1
  else
    let perSpan := spanBytes / osz
    let wantSpans := max ((batch + (perSpan - 1)) / perSpan) 1
    let (start, runEnd) ← carveOrReuseSpans company wantSpans cls (wrap16 myShard)
    if runEnd ≤ start then
      return 0
    else
      let count := (runEnd - start + (spanBytes - 1)) / spanBytes
      Prog.modify (adoptRun shard cls perSpan count start)
      return count * perSpan

/-! ## Small objects -/

/-- What `refill` does under the lock of its cell: take a batch, or carve and take. -/
def takeOrCarve (company : Company) (cls myShard : Nat) : Prog Turn SubHeap (List Nat) := do
  let s ← Prog.read
  let shard := myShard % s.numShards
  let want := min (batchFor cls) 64
  let got ← centralTake shard cls want
  if got = [] then
    let carved ← centralCarve company cls myShard (batchFor cls)
    if carved = 0 then
      return []
    else
      centralTake shard cls want
  else
    return got

/-- An object for the per-CPU stack, or for the bitmap if the stack has no room. -/
def stash (cls p : Nat) : Prog Turn SubHeap Unit := do
  match ← slabPush cls p with
  | .ok _ => return ()
  | .needsSlow => centralDeposit p (sizeOfClass cls)

def refill (cls myShard : Nat) : Prog Turn SubHeap (Option Nat) := do
  match ← takeOrCarve .alone cls myShard with
  | [] => return none
  | p :: rest => do
      let _ ← Prog.each (stash cls) rest
      return some p

/-- Up to `room` objects straight from the cell, under one lock. -/
def refillBatch (company : Company) (cls threadShard room : Nat) : Prog Turn SubHeap (List Nat) := do
  let s ← Prog.read
  let myShard := threadShard % s.numShards
  let shard := myShard % s.numShards
  let first ← centralTake shard cls room
  Prog.loop (fun out => do
    if room ≤ out.length then
      return .done out
    else
      let carved ← centralCarve company cls myShard (batchFor cls)
      if carved = 0 then
        return .done out
      else
        let got ← centralTake shard cls (room - out.length)
        if got = [] then
          return .done out
        else
          return .yield (out ++ got)) (room + 1) first

def allocClass (cls threadShard : Nat) : Prog Turn SubHeap (Option Nat) := do
  match ← slabPop cls with
  | .ok p => return some p
  | .needsSlow => refill cls threadShard

/-- Half a batch from the per-CPU stack to the bitmaps, then the object itself. -/
def drain (cls p : Nat) : Prog Turn SubHeap Unit := do
  Prog.upTo (max (batchFor cls / 2) 1) do
    match ← slabPop cls with
    | .ok q => do
        centralDeposit q (sizeOfClass cls)
        return true
    | .needsSlow => return false
  stash cls p

/-- A freed object of this thread's own shard. -/
def freeLocal (cls p : Nat) : Prog Turn SubHeap Unit := do
  match ← slabPush cls p with
  | .ok _ => return ()
  | .needsSlow => drain cls p

/-- Whether a freed object goes to the local stack, by its home. -/
def isLocal (s : SubHeap) (p threadShard : Nat) : Bool :=
  let home := s.spans.homeRelaxed p
  home = 65535 || home % s.numShards = threadShard % s.numShards

def deallocClass (p cls threadShard : Nat) : Prog Turn SubHeap Unit := do
  let s ← Prog.read
  if s.isLocal p threadShard then freeLocal cls p else centralDeposit p (sizeOfClass cls)

/-- Bits gathered for one bitmap word and not deposited yet. -/
structure Pending where
  span : Nat
  word : Nat
  mask : Word
deriving Repr, DecidableEq

def Pending.none : Pending := ⟨noSpan, 0, 0#64⟩

def flushPending (p : Pending) : Prog Turn SubHeap Unit :=
  if p.mask = 0#64 then return ()
  else Prog.modify fun s => { s with bitmaps := s.bitmaps.setMask p.span p.word p.mask }

/-- One object of a batch: freed locally, or gathered with those before it. -/
def batchOne (cls threadShard : Nat) (pending : Pending) (p : Nat) :
    Prog Turn SubHeap Pending := do
  let s ← Prog.read
  if s.isLocal p threadShard then
    freeLocal cls p
    return pending
  else
    let (span, word, bit) := s.bitmaps.locate p (sizeOfClass cls)
    if span ≠ pending.span ∨ word ≠ pending.word then
      flushPending pending
      return ⟨span, word, Word.bit bit⟩
    else
      return { pending with mask := pending.mask ||| Word.bit bit }

def batchAll (cls threadShard : Nat) : List Nat → Pending → Prog Turn SubHeap Pending
  | [], pending => return pending
  | p :: rest, pending => do
      let pending ← batchOne cls threadShard pending p
      batchAll cls threadShard rest pending

/-- The cell whose hint a batch publishes, by the span's home. -/
def hintShard (s : SubHeap) (span : Nat) : Nat :=
  s.spans.homeRelaxed (s.bitmaps.spanBase span) % s.numShards % s.numShards

def deallocClassBatch (ptrs : List Nat) (cls threadShard : Nat) : Prog Turn SubHeap Unit := do
  let pending ← batchAll cls threadShard ptrs .none
  flushPending pending
  if pending.span = noSpan then
    return ()
  else
    Prog.modify fun s => s.setHint (s.hintShard pending.span) cls pending.span

/-- Move up to `count` objects off a seized CPU's stack. -/
def rebalanceOne (cpu cls : Nat) (s : SubHeap) : SubHeap :=
  match (s.slab.stack cpu cls).slots with
  | [] => s
  | obj :: rest =>
      let s := { s with slab := s.slab.put cpu cls { s.slab.stack cpu cls with slots := rest } }
      if obj = 0 then s else s.deposited obj (sizeOfClass cls)

def rebalanceCapacity (cpu cls count : Nat) : Prog Turn SubHeap Nat := do
  let s ← Prog.read
  let take := min count (s.slab.stack cpu cls).slots.length
  Prog.modify (rebalanceOne cpu cls)^[take]
  return take

/-! ## Reclaiming spans -/

/-- Take a fully free span off its cell's list and retag it. -/
def retire (s : SubHeap) (shard cls prev span : Nat) : SubHeap :=
  let osz := roundedSize cls
  let (newHead, bitmaps) := s.bitmaps.unlinkActive span prev (s.head shard cls)
  let s := { s.setHead shard cls newHead with bitmaps }
  let s := if s.reuseHint shard cls = span then s.setHint shard cls noSpan else s
  { s with
    spans := s.spans.assignRange (s.bitmaps.spanBase span) (groupSpans osz * spanBytes) largeClass 0
    bitmaps := s.bitmaps.resetBitmaps span ((slotsPerSpan osz + 63) / 64) }

/-- The walk of an active list, with `cap` retirements left; the spans retired. -/
def reclaimWalk (shard cls : Nat) : Nat → Nat → Nat → Nat → SubHeap → List Nat × SubHeap
  | 0, _, _, _, s => ([], s)
  | steps + 1, cap, prev, span, s =>
      if span = noSpan ∨ cap = 0 then ([], s) else
        let next := s.bitmaps.next span
        let (free, bitmaps) := s.bitmaps.isFullyFree span (slotsPerSpan (roundedSize cls))
        let s := { s with bitmaps }
        if free then
          let (rest, s) :=
            reclaimWalk shard cls steps (cap - 1) prev next (s.retire shard cls prev span)
          (span :: rest, s)
        else reclaimWalk shard cls steps cap span next s

/-- What `reclaim_cell` does under the lock of the cell. -/
def reclaimLocked (shard cls cap : Nat) : Prog Turn SubHeap (List Nat) :=
  Prog.apply fun s =>
    reclaimWalk shard cls (s.spans.numSpans + 1) (min cap 32) noSpan (s.head shard cls) s

/-- File one retired run in the pool. -/
def fileRun (group span : Nat) : Prog Turn SubHeap Unit := do
  let s ← Prog.read
  match s.large.pool.free (wrap32 (s.large.spanIndex (s.bitmaps.spanBase span))) group with
  | some pool => Prog.modify fun s => { s with large := { s.large with pool } }
  | none => panicLocked

def fileRuns (group : Nat) (spans : List Nat) : Prog Turn SubHeap Unit := do
  let s ← Prog.read
  if s.large.poisoned then
    Prog.fail
  else
    let _ ← Prog.each (fileRun group) spans
    return ()

def reclaimCell (shard cls cap : Nat) : Prog Turn SubHeap Nat := do
  if cap = 0 then
    return 0
  else
    let retired ← reclaimLocked shard cls cap
    if retired = [] then
      return 0
    else
      fileRuns (groupSpans (roundedSize cls)) retired
      return retired.length

/-- One batch; more may follow while batches come out full. -/
def reclaimPass (cap shard cls reclaimed : Nat) : Prog Turn SubHeap (ForInStep Nat) := do
  let got ← reclaimCell shard cls cap
  if got < cap then
    return .done (reclaimed + got)
  else
    return .yield (reclaimed + got)

/-- One cell, batch after batch; a full batch takes spans off the list, so no more
    batches follow than the arena has spans. -/
def reclaimCells (cap shard cls : Nat) : Prog Turn SubHeap Nat := do
  let s ← Prog.read
  Prog.loop (reclaimPass cap shard cls) (s.spans.numSpans + 1) 0

def reclaimEmptySpans (maxPerLock : Nat) : Prog Turn SubHeap Nat := do
  let s ← Prog.read
  let cap := max maxPerLock 1
  let cells := (List.range s.numShards).flatMap fun shard =>
    (List.range (numClasses - 1)).map fun c => (shard, c + 1)
  let got ← Prog.each (fun cell => reclaimCells cap cell.1 cell.2) cells
  return got.sum

/-! ## Large runs -/

/-- Spans of a large allocation. -/
def spanCount (size : Nat) : Nat := max ((size + (spanBytes - 1)) / spanBytes) 1

def runBytes (size : Nat) : Nat := wrap64 (spanCount size * spanBytes)

def allocLarge (size : Nat) : Prog Turn SubHeap (Option Nat) := do
  let s ← Prog.read
  if s.large.poisoned then
    Prog.fail
  else
    match s.large.pool.alloc (wrap32 (spanCount size)) with
    | none => panicLocked
    | some (some headIdx, pool) => do
        Prog.modify fun s => { s with large := { s.large with pool } }
        record size (s.large.spanPtr headIdx)
    | some (none, _) =>
        match s.arena.carveRun (runBytes size) with
        | none => return none
        | some (start, arena) => do
            Prog.modify fun s => { s with arena }
            record size start
where
  /-- Record the run and tag its spans, under the mutex. -/
  record (size ptr : Nat) : Prog Turn SubHeap (Option Nat) := do
    let s ← Prog.read
    match s.large.runSpans.set? (s.large.spanIndex ptr) (wrap32 (spanCount size)) with
    | none => panicLocked
    | some runSpans => do
        Prog.modify fun s => { s with large := { s.large with runSpans } }
        if s.spans.rangeFaults ptr (runBytes size) then
          panicLocked
        else
          Prog.modify fun s => { s with
            spans := s.spans.assignRange ptr (runBytes size) largeClass 0 }
          return some ptr

def deallocLarge (ptr : Nat) : Prog Turn SubHeap Unit := do
  let s ← Prog.read
  match s.large.runSpans.get? (s.large.spanIndex ptr) with
  | none => Prog.fail
  | some spanCount => do
      Prog.modify fun s => { s with
        large := { s.large with runSpans := s.large.runSpans.put (s.large.spanIndex ptr) 0 } }
      if spanCount = 0 then
        return ()
      else if s.large.poisoned then
        Prog.fail
      else
        match s.large.pool.free (wrap32 (s.large.spanIndex ptr)) spanCount with
        | some pool => Prog.modify fun s => { s with large := { s.large with pool } }
        | none => panicLocked

def deallocByPtr (ptr threadShard : Nat) : Prog Turn SubHeap Bool := do
  let s ← Prog.read
  match s.spans.lookup ptr with
  | none => return false
  | some (cls, _) => do
      if cls = largeClass then deallocLarge ptr else deallocClass ptr cls threadShard
      return true

def alloc (size threadShard : Nat) : Prog Turn SubHeap (Option Nat) :=
  match classFor size with
  | some cls => allocClass cls threadShard
  | none => allocLarge size

/-! ## Building -/

def maxShards : Nat := 65535

def clampShards (n : Nat) : Nat := min (max n 1) maxShards

/-- Where the slots of a class start in a block: behind the headers, the locks and the
    slots of the classes before. -/
def slotsStart (capPerClass cls : Nat) : Nat :=
  (numClasses * 8 + numClasses * 4 + 7) / 8 * 8 +
    ((List.range cls).map fun c => capForClass c capPerClass * 8).sum

/-- Bytes of one CPU's block. -/
def blockBytes (capPerClass : Nat) : Nat := slotsStart capPerClass numClasses

/-- The offsets as they are kept, in 32 bits. -/
def slotsOffs (capPerClass : Nat) : List Nat :=
  (List.range numClasses).map fun cls => wrap32 (slotsStart capPerClass cls)

def stride (capPerClass : Nat) : Nat := 2 ^ (Nat.log2 (max (blockBytes capPerClass) 1 - 1) + 1)

def slabBytes (capPerClass numCpus : Nat) : Nat := stride capPerClass * numCpus

/-- The sub-heap over a reservation at `base`; without a shard count there are four
    per CPU. -/
def buildStandalone (base budgetBytes numCpus : Nat) (numShards : Option Nat) (capPerClass : Nat) :
    SubHeap :=
  let numCpus := max numCpus 1
  let arenaBase := base + slabBytes capPerClass numCpus
  { slab := ⟨numCpus, slotsOffs capPerClass, fun _ cls => ⟨capForClass cls capPerClass, []⟩⟩
    head := fun _ _ => noSpan
    reuseHint := fun _ _ => noSpan
    bitmaps := SpanBitmaps.new arenaBase
    numShards := numShards.elim (clampShards (wrap32 (numCpus * 4))) clampShards
    arena := ⟨arenaBase, arenaBase + budgetBytes, arenaBase⟩
    spans := SpanTable.new arenaBase budgetBytes
    large := LargeAllocator.new arenaBase budgetBytes
    scans := []
    clipped := false }

end SubHeap

end Toccata
