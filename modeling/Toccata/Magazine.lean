import Toccata.SubHeap.Lists

/-! # Thread caches

In front of the sub-heap every thread keeps one magazine per class, a stack of free
objects in a fixed array. A miss pulls a whole batch from the sub-heap, an overflow
flushes the oldest three quarters, and a thread that exits flushes everything. Slots of
the arrays are indexed with checks, and a check that fails panics. What lies above the
length of a magazine is stale.
-/

namespace Toccata

open Foundations SizeClass

def magCap : Nat := 32

structure Magazine where
  len : Nat
  ptrs : Slice Nat

namespace Magazine

def new : Magazine := ⟨0, .replicate magCap 0⟩

/-- What the magazine holds, bottom first. -/
def slots (m : Magazine) : List Nat := m.ptrs.front m.len

/-- Without the top; the array keeps it. -/
def popped (m : Magazine) : Magazine := { m with len := m.len - 1 }

end Magazine

structure ThreadCache where
  mags : Slice Magazine

def ThreadCache.new : ThreadCache := ⟨.replicate numClasses .new⟩

/-- The memory of a call: the sub-heap, and the cache of the calling thread. -/
structure Cached where
  sub : SubHeap
  cache : ThreadCache

namespace Cached

def lift {α : Type} (m : Prog Turn SubHeap α) : Prog Turn Cached α :=
  Prog.within Cached.sub (fun sub s => { s with sub }) m

def magazine (cls : Nat) : Prog Turn Cached Magazine := do
  let s ← Prog.read
  match s.cache.mags.get? cls with
  | some m => return m
  | none => Prog.fail

def put (s : Cached) (cls : Nat) (m : Magazine) : Cached :=
  { s with cache := ⟨s.cache.mags.put cls m⟩ }

def setMagazine (cls : Nat) (m : Magazine) : Prog Turn Cached Unit := Prog.modify (·.put cls m)

/-- A slot, checked. -/
def slot (m : Magazine) (i : Nat) : Prog Turn Cached Nat :=
  match m.ptrs.get? i with
  | some p => return p
  | none => Prog.fail

/-- A slot written and the length raised over it. -/
def setTop (cls : Nat) (m : Magazine) (p : Nat) : Prog Turn Cached Unit :=
  match m.ptrs.set? m.len p with
  | some ptrs => setMagazine cls ⟨m.len + 1, ptrs⟩
  | none => Prog.fail

def tryPop (cls : Nat) : Prog Turn Cached (Option Nat) := do
  let m ← magazine cls
  if 0 < m.len then
    let m := m.popped
    setMagazine cls m
    let p ← slot m m.len
    return some p
  else
    return none

/-- As `tryPop`; the slots one and three below are read to prefetch what they point to,
    which has no effect on memory. -/
def allocPrefetch (cls : Nat) : Prog Turn Cached (Option Nat) := do
  let m ← magazine cls
  if 0 < m.len then
    let m := m.popped
    setMagazine cls m
    let p ← slot m m.len
    if 3 ≤ m.len then
      let _far ← slot m (m.len - 3)
    if 1 ≤ m.len then
      let _near ← slot m (m.len - 1)
    return some p
  else
    return none

/-- A batch straight into the free tail of the array, reversed so that pops follow the
    order of the batch. Slicing past the array panics. -/
def refill (company : SubHeap.Company) (cls thread : Nat) : Prog Turn Cached (Option Nat) := do
  let m ← magazine cls
  if m.ptrs.len < m.len + magCap then
    Prog.fail
  else
    let objs ← lift (SubHeap.refillBatch company cls thread magCap)
    setMagazine cls
      ⟨m.len + objs.length, (m.ptrs.fill m.len objs).reverse m.len (m.len + objs.length)⟩
    tryPop cls

def alloc (cls thread : Nat) : Prog Turn Cached (Option Nat) := do
  match ← tryPop cls with
  | some p => return some p
  | none => refill .alone cls thread

def tryPush (p cls : Nat) : Prog Turn Cached Bool := do
  let m ← magazine cls
  if m.len < magCap then
    setTop cls m p
    return true
  else
    return false

def dropN : Nat := magCap * 3 / 4

/-- Flush the bottom slots in one batch, move the rest down and push. -/
def drainThenPush (p cls thread : Nat) : Prog Turn Cached Unit := do
  let m ← magazine cls
  if m.ptrs.len < m.len then
    Prog.fail
  else
    lift (SubHeap.deallocClassBatch (m.ptrs.front dropN) cls thread)
    setTop cls ⟨m.len - dropN, m.ptrs.copyWithin dropN m.len 0⟩ p

def free (p cls thread : Nat) : Prog Turn Cached Unit := do
  if ← tryPush p cls then
    return ()
  else
    drainThenPush p cls thread

/-- Pop one object and free it to the sub-heap, if there is one. -/
def flushOne (cls thread : Nat) : Prog Turn Cached Bool := do
  match ← tryPop cls with
  | some p => do
      lift (SubHeap.deallocClass p cls thread)
      return true
  | none => return false

def flushClass (thread cls : Nat) : Prog Turn Cached Unit := do
  let m ← magazine cls
  Prog.upTo m.len (flushOne cls thread)

def flushAll (thread : Nat) : Prog Turn Cached Unit := do
  let _ ← Prog.each (flushClass thread) (List.range numClasses)
  return ()

end Cached

/-! ## What the calls do -/

/-- An array of the right size, and a length within it. -/
structure Magazine.Sound (m : Magazine) : Prop where
  cap : m.ptrs.len = magCap
  fits : m.len ≤ magCap

structure ThreadCache.Sound (c : ThreadCache) : Prop where
  classes : c.mags.len = numClasses
  each : ∀ cls, (c.mags.cell cls).Sound

theorem ThreadCache.new_sound : new.Sound := ⟨rfl, fun _ => ⟨rfl, Nat.zero_le _⟩⟩

theorem ThreadCache.Sound.put {c : ThreadCache} {m : Magazine} (sound : c.Sound) (fine : m.Sound)
    (cls : Nat) : ThreadCache.Sound ⟨c.mags.put cls m⟩ := by
  refine ⟨sound.classes, fun cls' => ?_⟩
  rw [Slice.put_cell]
  split
  · exact fine
  · exact sound.each cls'

namespace Magazine

variable {m : Magazine}

def pushed (m : Magazine) (p : Nat) : Magazine := ⟨m.len + 1, m.ptrs.put m.len p⟩

/-- The array after a batch landed in it. -/
def loaded (m : Magazine) (objs : List Nat) : Magazine :=
  ⟨m.len + objs.length, (m.ptrs.fill m.len objs).reverse m.len (m.len + objs.length)⟩

def drained (m : Magazine) : Magazine := ⟨m.len - Cached.dropN, m.ptrs.copyWithin Cached.dropN m.len 0⟩

@[simp] theorem slots_length (m : Magazine) : m.slots.length = m.len := m.ptrs.front_length m.len

theorem slots_empty (empty : m.len = 0) : m.slots = [] := by
  rw [slots, empty, Slice.front_zero]

/-- A magazine that is not empty, without its top and its top. -/
theorem slots_top (some : 0 < m.len) : m.slots = m.popped.slots ++ [m.ptrs.cell (m.len - 1)] := by
  obtain ⟨n, length⟩ : ∃ n, m.len = n + 1 := ⟨m.len - 1, by omega⟩
  rw [slots, popped, slots, length, Slice.front_succ, Nat.add_sub_cancel]

theorem popped_slots (m : Magazine) : m.popped.slots = m.slots.dropLast := by
  by_cases some : 0 < m.len
  · rw [slots_top some, List.dropLast_concat]
  · have empty : m.len = 0 := by omega
    rw [slots_empty empty, List.dropLast_nil]
    apply slots_empty
    simp only [popped, empty]

theorem pushed_slots (m : Magazine) (p : Nat) : (m.pushed p).slots = m.slots ++ [p] := by
  rw [slots, pushed, Slice.front_succ, Slice.put_cell_same, Slice.front_put _ _ le_rfl, slots]

theorem loaded_slots (empty : m.len = 0) (objs : List Nat) : (m.loaded objs).slots = objs.reverse := by
  simp only [slots, loaded, empty, Nat.zero_add]
  exact m.ptrs.front_fill_reverse objs

theorem drained_slots (m : Magazine) : m.drained.slots = m.slots.drop Cached.dropN :=
  m.ptrs.front_copyWithin Cached.dropN m.len

theorem Sound.popped (sound : m.Sound) : m.popped.Sound :=
  ⟨sound.cap, (Nat.sub_le ..).trans sound.fits⟩

theorem Sound.pushed (sound : m.Sound) (room : m.len < magCap) (p : Nat) : (m.pushed p).Sound :=
  ⟨sound.cap, room⟩

theorem Sound.loaded {objs : List Nat} (sound : m.Sound) (empty : m.len = 0)
    (few : objs.length ≤ magCap) : (m.loaded objs).Sound := by
  refine ⟨sound.cap, ?_⟩
  simp only [Magazine.loaded, empty, Nat.zero_add]
  exact few

theorem Sound.drained (sound : m.Sound) : m.drained.Sound :=
  ⟨sound.cap, (Nat.sub_le ..).trans sound.fits⟩

end Magazine

namespace Cached

variable {s : Cached} {cls p thread : Nat} {env : List Turn}

/-- The magazine of a class. -/
def mag (s : Cached) (cls : Nat) : Magazine := s.cache.mags.cell cls

theorem fine (sound : s.cache.Sound) (cls : Nat) : (s.mag cls).Sound := sound.each cls

theorem put_mag (s : Cached) (cls cls' : Nat) (m : Magazine) :
    (s.put cls m).mag cls' = if cls' = cls then m else s.mag cls' := Slice.put_cell ..

theorem put_put (s : Cached) (cls : Nat) (m m' : Magazine) : (s.put cls m).put cls m' = s.put cls m' := by
  simp only [put, Slice.put, Function.update_idem]

theorem put_self (s : Cached) (cls : Nat) : s.put cls (s.mag cls) = s := by
  simp only [put, Slice.put, mag, Function.update_eq_self]

theorem magazine_eq (sound : s.cache.Sound) (inside : cls < numClasses) :
    magazine cls s env = (some (s.mag cls), s, env) := by
  rw [magazine, Prog.read_bind, Slice.get?_inside (by rwa [sound.classes])]
  rfl

theorem setMagazine_eq (cls : Nat) (m : Magazine) :
    setMagazine cls m s env = (some (), s.put cls m, env) := rfl

theorem slot_eq {m : Magazine} {i : Nat} (inside : i < m.ptrs.len) :
    slot m i s env = (some (m.ptrs.cell i), s, env) := by
  rw [slot, Slice.get?_inside inside]
  rfl

theorem popped_inside (sound : s.cache.Sound) (cls : Nat) (more : 0 < (s.mag cls).len) :
    (s.mag cls).popped.len < (s.mag cls).popped.ptrs.len := by
  have fits := (fine sound cls).fits
  rw [Magazine.popped, (fine sound cls).cap]
  dsimp only
  omega

/-- Popping takes the top, if there is one. -/
theorem tryPop_eq (sound : s.cache.Sound) (inside : cls < numClasses) :
    tryPop cls s env = (some (s.mag cls).slots.getLast?, s.put cls (s.mag cls).popped, env) := by
  rw [tryPop, Prog.bind_some (magazine_eq sound inside)]
  by_cases more : 0 < (s.mag cls).len
  · rw [if_pos more, Magazine.slots_top more, List.getLast?_concat]
    rw [Prog.bind_some (setMagazine_eq cls _), Prog.bind_some (slot_eq (popped_inside sound cls more))]
    rfl
  · have empty : (s.mag cls).len = 0 := by omega
    have same : (s.mag cls).popped = s.mag cls := by
      rw [Magazine.popped, empty, Nat.zero_sub, ← empty]
    rw [if_neg more, Magazine.slots_empty empty, same, put_self]
    rfl

/-- The slots read for prefetching exist. -/
theorem allocPrefetch_eq (sound : s.cache.Sound) (inside : cls < numClasses) :
    allocPrefetch cls s env = tryPop cls s env := by
  rw [allocPrefetch, tryPop, Prog.bind_some (magazine_eq sound inside),
    Prog.bind_some (magazine_eq sound inside)]
  by_cases more : 0 < (s.mag cls).len
  · have low := popped_inside sound cls more
    have below : ∀ i, (s.mag cls).popped.len - i < (s.mag cls).popped.ptrs.len :=
      fun i => Nat.lt_of_le_of_lt (Nat.sub_le ..) low
    rw [if_pos more, if_pos more]
    dsimp only
    rw [Prog.bind_some (setMagazine_eq cls _), Prog.bind_some (setMagazine_eq cls _),
      Prog.bind_some (slot_eq low), Prog.bind_some (slot_eq low)]
    by_cases far : 3 ≤ (s.mag cls).popped.len
    · have near : 1 ≤ (s.mag cls).popped.len := by omega
      rw [if_pos far, Prog.bind_some (slot_eq (below 3)), if_pos near, Prog.bind_some (slot_eq (below 1))]
    · rw [if_neg far]
      by_cases near : 1 ≤ (s.mag cls).popped.len
      · rw [if_pos near, Prog.bind_some (slot_eq (below 1))]
      · rw [if_neg near]
  · rw [if_neg more, if_neg more]

theorem setTop_eq {m : Magazine} (fine : m.Sound) (room : m.len < magCap) (cls p : Nat) :
    setTop cls m p s env = (some (), s.put cls (m.pushed p), env) := by
  rw [setTop, Slice.set?_inside (by rwa [fine.cap])]
  rfl

/-- Pushing puts the object on top, if there is room. -/
theorem tryPush_eq (sound : s.cache.Sound) (inside : cls < numClasses) : tryPush p cls s env =
    if (s.mag cls).len < magCap then (some true, s.put cls ((s.mag cls).pushed p), env)
    else (some false, s, env) := by
  rw [tryPush, Prog.bind_some (magazine_eq sound inside)]
  by_cases room : (s.mag cls).len < magCap
  · rw [if_pos room, if_pos room, Prog.bind_some (setTop_eq (fine sound cls) room cls p)]
    rfl
  · rw [if_neg room, if_neg room]
    rfl

theorem lift_some {α : Type} {m : Prog Turn SubHeap α} {a : α} {sub : SubHeap} {env' : List Turn}
    (out : m s.sub env = (some a, sub, env')) : lift m s env = (some a, { s with sub }, env') := by
  rw [lift, Prog.within, out]

/-- A refill hands out the batch's first object and leaves the rest to be popped in the
    order of the batch. -/
theorem refill_eq {company : SubHeap.Company} {objs : List Nat} {sub : SubHeap} {env' : List Turn} (sound : s.cache.Sound)
    (inside : cls < numClasses) (missed : (s.mag cls).len = 0)
    (batch : SubHeap.refillBatch company cls thread magCap s.sub env = (some objs, sub, env')) :
    refill company cls thread s env = (some objs.head?,
      { s with sub }.put cls ((s.mag cls).loaded objs).popped, env') ∧
    ((s.mag cls).loaded objs).popped.slots = objs.tail.reverse ∧ ((s.mag cls).loaded objs).popped.Sound := by
  have few := SubHeap.refillBatch_length company cls thread magCap s.sub env trivial
  simp only [batch] at few
  have sound' := (fine sound cls).loaded missed few
  have loaded := Magazine.loaded_slots missed objs
  have filled : ThreadCache.Sound ⟨s.cache.mags.put cls ((s.mag cls).loaded objs)⟩ := sound.put sound' cls
  refine ⟨?_, ?_, sound'.popped⟩
  · have room : ¬ (s.mag cls).ptrs.len < (s.mag cls).len + magCap := by
      rw [missed, (fine sound cls).cap]
      omega
    have pop : tryPop cls ({ s with sub }.put cls ((s.mag cls).loaded objs)) env' = _ :=
      tryPop_eq filled inside
    rw [put_mag, if_pos rfl, put_put, loaded, List.getLast?_reverse] at pop
    rw [refill, Prog.bind_some (magazine_eq sound inside), if_neg room,
      Prog.bind_some (lift_some batch), Prog.bind_some (setMagazine_eq cls _)]
    exact pop
  · rw [Magazine.popped_slots, loaded, List.dropLast_reverse]

/-- A drain of a full magazine returns its bottom slots in one batch, keeps the rest in
    order and puts the object on top. -/
theorem drainThenPush_eq {sub : SubHeap} {env' : List Turn} (sound : s.cache.Sound)
    (inside : cls < numClasses) (full : (s.mag cls).len = magCap)
    (batch : SubHeap.deallocClassBatch ((s.mag cls).slots.take dropN) cls thread s.sub env =
      (some (), sub, env')) :
    drainThenPush p cls thread s env =
      (some (), { s with sub }.put cls ((s.mag cls).drained.pushed p), env') := by
  have bottom : (s.mag cls).ptrs.front dropN = (s.mag cls).slots.take dropN := by
    rw [Magazine.slots, Slice.front_take _ (by rw [full]; decide)]
  have whole : ¬ (s.mag cls).ptrs.len < (s.mag cls).len := by
    rw [full, (fine sound cls).cap]
    omega
  have room : (s.mag cls).drained.len < magCap := by
    simp only [Magazine.drained, full]
    decide
  rw [drainThenPush, Prog.bind_some (magazine_eq sound inside), if_neg whole, bottom,
    Prog.bind_some (lift_some batch)]
  exact setTop_eq (fine sound cls).drained room cls p

theorem free_room (sound : s.cache.Sound) (inside : cls < numClasses) (room : (s.mag cls).len < magCap) :
    free p cls thread s env = (some (), s.put cls ((s.mag cls).pushed p), env) := by
  have push : tryPush p cls s env = _ := tryPush_eq sound inside
  rw [if_pos room] at push
  rw [free, Prog.bind_some push]
  rfl

theorem free_full (sound : s.cache.Sound) (inside : cls < numClasses)
    (full : ¬ (s.mag cls).len < magCap) : free p cls thread s env = drainThenPush p cls thread s env := by
  have push : tryPush p cls s env = _ := tryPush_eq sound inside
  rw [if_neg full] at push
  rw [free, Prog.bind_some push]
  rfl

/-! ## Flushing -/

/-- Objects freed to the sub-heap one by one, each with its class. -/
def deallocAll (thread : Nat) : List (Nat × Nat) → Prog Turn SubHeap (List Unit) :=
  Prog.each fun x => SubHeap.deallocClass x.1 x.2 thread

/-- The objects of a class in the order a flush returns them, top first. -/
def flushOrder (s : Cached) (cls : Nat) : List (Nat × Nat) := (s.mag cls).slots.reverse.map (·, cls)

def emptied (m : Magazine) : Magazine := { m with len := 0 }

theorem flushOnes_eq (n : Nat) {sub : SubHeap} {env' : List Turn} {done : List Unit}
    (sound : s.cache.Sound) (inside : cls < numClasses) (length : (s.mag cls).len = n)
    (freed : deallocAll thread (s.flushOrder cls) s.sub env = (some done, sub, env')) :
    Prog.upTo n (flushOne cls thread) s env =
      (some (), { s with sub }.put cls (emptied (s.mag cls)), env') := by
  induction n generalizing s env done with
  | zero =>
      rw [flushOrder, Magazine.slots_empty length] at freed
      obtain ⟨rfl, rfl⟩ : s.sub = sub ∧ env = env' := by
        cases freed
        exact ⟨rfl, rfl⟩
      have same : emptied (s.mag cls) = s.mag cls := by
        rw [emptied, ← length]
      rw [same]
      exact congrArg (fun t => (some (), t, env)) (put_self s cls).symm
  | succ n ih =>
      have more : 0 < (s.mag cls).len := by omega
      have order : s.flushOrder cls = ((s.mag cls).ptrs.cell ((s.mag cls).len - 1), cls) ::
          (s.put cls (s.mag cls).popped).flushOrder cls := by
        rw [flushOrder, flushOrder, put_mag, if_pos rfl, Magazine.slots_top more, List.reverse_concat,
          List.map_cons]
      rw [order] at freed
      obtain ⟨_, sub₁, env₁, done', first, others⟩ := Prog.each_cons_some freed
      have popped : ({ s with sub := sub₁ }.put cls (s.mag cls).popped).cache.Sound :=
        sound.put (fine sound cls).popped cls
      have one : flushOne cls thread s env =
          (some true, { s with sub := sub₁ }.put cls (s.mag cls).popped, env₁) := by
        rw [flushOne, Prog.bind_some (tryPop_eq sound inside), Magazine.slots_top more,
          List.getLast?_concat]
        dsimp only
        rw [Prog.bind_some (lift_some (s := s.put cls (s.mag cls).popped) first)]
        rfl
      have left : deallocAll thread (({ s with sub := sub₁ }.put cls (s.mag cls).popped).flushOrder cls)
          ({ s with sub := sub₁ }.put cls (s.mag cls).popped).sub env₁ = (some done', sub, env') := others
      have rest := ih popped
        (by rw [put_mag, if_pos rfl, Magazine.popped, length, Nat.add_sub_cancel]) left
      rw [Prog.upTo_again one, rest, put_mag, if_pos rfl]
      simp only [put, Slice.put, Function.update_idem]
      rfl

theorem flushClass_eq {sub : SubHeap} {env' : List Turn} {done : List Unit} (sound : s.cache.Sound)
    (inside : cls < numClasses)
    (freed : deallocAll thread (s.flushOrder cls) s.sub env = (some done, sub, env')) :
    flushClass thread cls s env = (some (), { s with sub }.put cls (emptied (s.mag cls)), env') := by
  rw [flushClass, Prog.bind_some (magazine_eq sound inside)]
  exact flushOnes_eq _ sound inside rfl freed

/-- A flush returns every object of every magazine, class by class, and empties them. -/
theorem flushClasses_eq (classes : List Nat) {sub : SubHeap} {env' : List Turn} {done : List Unit}
    (sound : s.cache.Sound) (inside : ∀ cls ∈ classes, cls < numClasses) (distinct : classes.Nodup)
    (freed : deallocAll thread (classes.flatMap s.flushOrder) s.sub env = (some done, sub, env')) :
    ∃ units cache, Prog.each (flushClass thread) classes s env = (some units, ⟨sub, cache⟩, env') ∧
      cache.Sound ∧ ∀ cls, cache.mags.cell cls =
        if cls ∈ classes then emptied (s.mag cls) else s.mag cls := by
  induction classes generalizing s env done with
  | nil =>
      cases freed
      exact ⟨[], s.cache, rfl, sound, fun cls => by simp [mag]⟩
  | cons cls rest ih =>
      obtain ⟨outside, distinct⟩ := List.nodup_cons.mp distinct
      obtain ⟨here, inside⟩ := List.forall_mem_cons.mp inside
      rw [List.flatMap_cons] at freed
      obtain ⟨sub₁, env₁, done₁, done₂, first, others⟩ := Prog.each_append_some freed
      have flushed := flushClass_eq sound here first
      have empty : (emptied (s.mag cls)).Sound := ⟨(fine sound cls).cap, Nat.zero_le _⟩
      have same : rest.flatMap s.flushOrder =
          rest.flatMap ({ s with sub := sub₁ }.put cls (emptied (s.mag cls))).flushOrder := by
        apply List.flatMap_congr
        intro cls' member
        have other : cls' ≠ cls := fun same => outside (same ▸ member)
        rw [flushOrder, flushOrder, put_mag, if_neg other]
        rfl
      rw [same] at others
      have left : deallocAll thread
          (rest.flatMap ({ s with sub := sub₁ }.put cls (emptied (s.mag cls))).flushOrder)
          ({ s with sub := sub₁ }.put cls (emptied (s.mag cls))).sub env₁ = (some done₂, sub, env') := others
      obtain ⟨units, cache, run, sound', cells⟩ := ih (sound.put empty cls) inside distinct left
      refine ⟨() :: units, cache, ?_, sound', fun cls' => ?_⟩
      · rw [Prog.each, Prog.bind_some flushed, Prog.bind_some run]
        rfl
      · rw [cells cls', put_mag]
        by_cases this : cls' = cls
        · subst this
          simp [outside]
        · by_cases member : cls' ∈ rest <;> simp [this, member] <;> rfl

end Cached

/-! ## Magazines in the ledger -/

open SubHeap

/-- Everything the magazines hold, with its class. -/
def ThreadCache.contents (c : ThreadCache) : Multiset (Nat × Nat) :=
  ∑ cls ∈ Finset.range numClasses, ofClass cls (c.mags.cell cls).slots

theorem ThreadCache.new_contents : new.contents = 0 :=
  Finset.sum_eq_zero fun _ _ => rfl

/-- Replacing one magazine exchanges what it holds. -/
theorem ThreadCache.contents_put (c : ThreadCache) {cls : Nat} (inside : cls < numClasses) (m : Magazine) :
    contents ⟨c.mags.put cls m⟩ + ofClass cls (c.mags.cell cls).slots =
      c.contents + ofClass cls m.slots := by
  have member := Finset.mem_range.mpr inside
  have rest : ∀ cls' ∈ (Finset.range numClasses).erase cls,
      ofClass cls' ((c.mags.put cls m).cell cls').slots = ofClass cls' (c.mags.cell cls').slots := by
    intro cls' other
    rw [Slice.put_cell_other (Finset.mem_erase.mp other).1]
  rw [contents, contents, ← Finset.add_sum_erase _ _ member, ← Finset.add_sum_erase _ _ member,
    Finset.sum_congr rfl rest, Slice.put_cell_same]
  abel

namespace Cached

theorem ofClass_reverse (cls : Nat) (objs : List Nat) : ofClass cls objs.reverse = ofClass cls objs := by
  rw [ofClass, ofClass, List.map_reverse, Multiset.coe_reverse]

theorem pop_contents (s : Cached) (inside : cls < numClasses) :
    handed cls (s.mag cls).slots.getLast? + (s.put cls (s.mag cls).popped).cache.contents =
      s.cache.contents := by
  have exchange := s.cache.contents_put inside (s.mag cls).popped
  rw [Magazine.popped_slots] at exchange
  rcases (s.mag cls).slots.eq_nil_or_concat with empty | ⟨rest, top, concat⟩
  · rw [show (s.cache.mags.cell cls).slots = [] from empty] at exchange
    rw [empty] at exchange ⊢
    rw [List.dropLast_nil, ofClass_nil, add_zero, add_zero] at exchange
    rw [List.getLast?_nil, handed, Option.toList_none, ofClass_nil, zero_add]
    exact exchange
  · rw [List.concat_eq_append] at concat
    rw [show (s.cache.mags.cell cls).slots = rest ++ [top] from concat] at exchange
    rw [concat] at exchange ⊢
    rw [List.dropLast_concat, ofClass_append, add_comm (ofClass cls rest), ← add_assoc] at exchange
    rw [List.getLast?_concat, handed, Option.toList_some, add_comm]
    exact add_right_cancel exchange

theorem push_contents (s : Cached) (inside : cls < numClasses) (p : Nat) :
    (s.put cls ((s.mag cls).pushed p)).cache.contents = (p, cls) ::ₘ s.cache.contents := by
  have exchange := s.cache.contents_put inside ((s.mag cls).pushed p)
  rw [Magazine.pushed_slots, ofClass_append, add_comm (ofClass cls _), ← add_assoc, ofClass_cons,
    ofClass_nil, Multiset.cons_zero, add_comm _ {(p, cls)}, Multiset.singleton_add] at exchange
  exact add_right_cancel exchange

/-- A batch of which the first object is handed out. -/
theorem refill_contents (s : Cached) (inside : cls < numClasses) (missed : (s.mag cls).len = 0)
    {objs : List Nat} {m : Magazine} (filled : m.slots = objs.tail.reverse) :
    handed cls objs.head? + (s.put cls m).cache.contents = ofClass cls objs + s.cache.contents := by
  have exchange := s.cache.contents_put inside m
  rw [show (s.cache.mags.cell cls).slots = [] from Magazine.slots_empty missed, ofClass_nil, add_zero, filled,
    ofClass_reverse] at exchange
  rw [show (s.put cls m).cache.contents = _ from exchange]
  cases objs with
  | nil => simp [handed]
  | cons p rest =>
      rw [List.head?_cons, handed, Option.toList_some, List.tail_cons, ofClass_cons, ofClass_nil,
        ofClass_cons, Multiset.cons_zero, Multiset.singleton_add, Multiset.cons_add, add_comm (ofClass cls rest)]

theorem drain_contents (s : Cached) (inside : cls < numClasses) (p : Nat) :
    ofClass cls ((s.mag cls).slots.take dropN) +
      (s.put cls ((s.mag cls).drained.pushed p)).cache.contents = (p, cls) ::ₘ s.cache.contents := by
  have exchange := s.cache.contents_put inside ((s.mag cls).drained.pushed p)
  have split : ofClass cls (s.cache.mags.cell cls).slots =
      ofClass cls ((s.mag cls).slots.take dropN) + ofClass cls ((s.mag cls).slots.drop dropN) := by
    rw [← ofClass_append, List.take_append_drop]
    rfl
  rw [Magazine.pushed_slots, Magazine.drained_slots, ofClass_append, split, ← add_assoc,
    add_comm (ofClass cls (List.drop _ _)) (ofClass cls [p]), ← add_assoc] at exchange
  have same := add_right_cancel exchange
  rw [ofClass_cons, ofClass_nil, Multiset.cons_zero, add_comm _ {(p, cls)}, Multiset.singleton_add] at same
  rw [add_comm]
  exact same

/-! ## Every call keeps the ledger -/

section Ledger

variable {trust : Trust} {g : Geometry} {H L : Multiset (Nat × Nat)} {W : List (Nat × Nat)}
  {E : Cached → Prop}

/-- The magazines are sound, and the ledger holds with what is in them outside the
    sub-heap along with `H`. -/
def Holds (trust : Trust) (g : Geometry) (H L : Multiset (Nat × Nat)) (W : List (Nat × Nat))
    (s : Cached) : Prop :=
  s.cache.Sound ∧ Owned trust g (s.cache.contents + H) L W s.sub

/-- A miss says that the magazine is empty. -/
theorem tryPop_spec (inside : cls < numClasses) : Triple (Holds trust g H L W) (tryPop cls)
    (fun r s => Holds trust g (handed cls r + H) L W s ∧ (r = none → (s.mag cls).len = 0)) E := by
  rintro s env ⟨sound, owned⟩
  rw [tryPop_eq sound inside]
  refine ⟨⟨sound.put (fine sound cls).popped cls, ?_⟩, fun missed => ?_⟩
  · rw [← pop_contents s inside, add_assoc] at owned
    rwa [add_left_comm]
  · have empty := congrArg List.length (List.getLast?_eq_none_iff.mp missed)
    rw [Magazine.slots_length, List.length_nil] at empty
    rw [put_mag, if_pos rfl, Magazine.popped, empty]

theorem refill_spec (isClass : IsClass cls) (allowed : Allowed trust g (thread % g.shards)) :
    Triple (fun s => Holds trust g H L W s ∧ (s.mag cls).len = 0) (refill .alone cls thread)
      (fun r => Holds trust g (handed cls r + H) L W) E := by
  rintro s env ⟨⟨sound, owned⟩, missed⟩
  have batch := refillBatch_spec .alone (E := fun _ => False) magCap isClass allowed s.sub env owned
  rcases out : SubHeap.refillBatch .alone cls thread magCap s.sub env with ⟨_ | objs, sub, env'⟩ <;>
    rw [out] at batch
  · exact batch.elim
  · obtain ⟨run, slots, sound'⟩ := refill_eq sound isClass.lt missed out
    rw [run]
    refine ⟨sound.put sound' cls, ?_⟩
    have moved := refill_contents { s with sub } isClass.lt missed slots
    dsimp only at batch moved ⊢
    rw [← add_assoc, ← moved] at batch
    rwa [add_left_comm, ← add_assoc]

theorem alloc_spec (isClass : IsClass cls) (allowed : Allowed trust g (thread % g.shards)) :
    Triple (Holds trust g H L W) (alloc cls thread) (fun r => Holds trust g (handed cls r + H) L W) E := by
  refine Triple.bind (tryPop_spec isClass.lt) fun r => ?_
  cases r with
  | some p => exact Triple.ret _ fun _ kept => kept.1
  | none =>
      refine (refill_spec isClass allowed).strengthen fun s kept => ⟨?_, kept.2 rfl⟩
      simpa [handed] using kept.1

/-- Of a push that is refused the object stays outside. -/
def unstored (p cls : Nat) (stored : Bool) : Multiset (Nat × Nat) := if stored then 0 else {(p, cls)}

theorem tryPush_spec (inside : cls < numClasses) :
    Triple (Holds trust g ((p, cls) ::ₘ H) L W) (tryPush p cls)
      (fun r => Holds trust g (unstored p cls r + H) L W) E := by
  rintro s env ⟨sound, owned⟩
  rw [tryPush_eq sound inside]
  by_cases room : (s.mag cls).len < magCap
  · rw [if_pos room]
    refine ⟨sound.put ((fine sound cls).pushed room p) cls, ?_⟩
    rw [Multiset.add_cons, ← Multiset.cons_add, ← push_contents s inside] at owned
    rwa [unstored, if_pos rfl, zero_add]
  · rw [if_neg room]
    refine ⟨sound, ?_⟩
    rwa [unstored, if_neg (by decide), Multiset.singleton_add]

theorem free_spec (inside : cls < numClasses) :
    Triple (Holds trust g ((p, cls) ::ₘ H) L W) (free p cls thread) (fun _ => Holds trust g H L W) E := by
  rintro s env ⟨sound, owned⟩
  rw [Multiset.add_cons, ← Multiset.cons_add] at owned
  by_cases room : (s.mag cls).len < magCap
  · rw [free_room sound inside room]
    rw [← push_contents s inside] at owned
    exact ⟨sound.put ((fine sound cls).pushed room p) cls, owned⟩
  · have full : (s.mag cls).len = magCap := by
      have := (fine sound cls).fits
      omega
    rw [← drain_contents s inside, add_assoc] at owned
    have batch := deallocClassBatch_spec (E := fun _ => False) _ thread s.sub env owned
    rcases out : SubHeap.deallocClassBatch ((s.mag cls).slots.take dropN) cls thread s.sub env with
      ⟨_ | _, sub, env'⟩ <;> rw [out] at batch
    · exact batch.elim
    · have drained : (s.mag cls).drained.len < magCap := by
        simp only [Magazine.drained, full]
        decide
      rw [free_full sound inside room, drainThenPush_eq sound inside full out]
      exact ⟨sound.put ((fine sound cls).drained.pushed drained p) cls, batch⟩

/-- Frees one by one take everything back. -/
theorem deallocAll_spec (thread : Nat) (objs : List (Nat × Nat)) {E : SubHeap → Prop} :
    Triple (Owned trust g (objs + H) L W) (deallocAll thread objs) (fun _ => Owned trust g H L W) E := by
  induction objs with
  | nil =>
      apply Triple.each_nil
      intro s owned
      rwa [Multiset.coe_nil, zero_add] at owned
  | cons x rest ih =>
      refine Triple.each_cons ((deallocClass_spec thread).strengthen fun s owned => ?_) fun _ => ih
      rwa [← Multiset.cons_coe, Multiset.cons_add] at owned

theorem flushOrder_contents (s : Cached) :
    (((List.range numClasses).flatMap s.flushOrder : List (Nat × Nat)) : Multiset (Nat × Nat)) =
      s.cache.contents := by
  have general : ∀ n, (((List.range n).flatMap s.flushOrder : List (Nat × Nat)) : Multiset (Nat × Nat)) =
      ∑ cls ∈ Finset.range n, ofClass cls (s.cache.mags.cell cls).slots := by
    intro n
    induction n with
    | zero => rfl
    | succ n ih =>
        rw [List.range_succ, List.flatMap_append, ← Multiset.coe_add, ih, Finset.sum_range_succ,
          List.flatMap_singleton]
        congr 1
        exact ofClass_reverse n _
  exact general numClasses

theorem flushAll_eq {sub : SubHeap} {env' : List Turn} {done : List Unit} (sound : s.cache.Sound)
    (freed : deallocAll thread ((List.range numClasses).flatMap s.flushOrder) s.sub env =
      (some done, sub, env')) :
    ∃ cache, flushAll thread s env = (some (), ⟨sub, cache⟩, env') ∧ cache.Sound ∧
      ∀ cls < numClasses, (cache.mags.cell cls).slots = [] := by
  obtain ⟨units, cache, run, sound', cells⟩ := flushClasses_eq (List.range numClasses) sound
    (fun _ => List.mem_range.mp) List.nodup_range freed
  refine ⟨cache, ?_, sound', fun cls inside => ?_⟩
  · rw [flushAll, Prog.bind_some run]
    rfl
  · rw [cells cls, if_pos (List.mem_range.mpr inside)]
    exact Magazine.slots_empty rfl

theorem flushAll_spec : Triple (Holds trust g H L W) (flushAll thread)
    (fun _ s => Holds trust g H L W s ∧ s.cache.contents = 0) E := by
  rintro s env ⟨sound, owned⟩
  rw [← flushOrder_contents] at owned
  have freed := deallocAll_spec thread _ (E := fun _ => False) s.sub env owned
  rcases out : deallocAll thread ((List.range numClasses).flatMap s.flushOrder) s.sub env with
    ⟨_ | done, sub, env'⟩ <;> rw [out] at freed
  · exact freed.elim
  · obtain ⟨cache, run, sound', empty⟩ := flushAll_eq sound out
    have none : cache.contents = 0 := by
      apply Finset.sum_eq_zero
      intro cls member
      rw [empty cls (Finset.mem_range.mp member), ofClass_nil]
    rw [run]
    refine ⟨⟨sound', ?_⟩, none⟩
    simpa only [none, zero_add] using freed

end Ledger

end Cached

end Toccata
