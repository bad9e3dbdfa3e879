import Toccata.Frame.Conservation

/-! # Histories of a frame pool

Calls on a pool and on any number of magazines, each run to its end on CPUs the
schedule picks, with every slab attempt free to decline. The frames handed out
are those returned to callers and not yet reclaimed.
-/

namespace Toccata.FramePool

open Foundations

variable {M : Type}

/-- A pool with its magazines and the frames its callers hold. -/
structure World (M : Type) where
  pool : FramePool M
  caches : List FrameCache
  handed : List Nat

/-- The calls of the pool, the calls of its `i`-th magazine, and an update of the
    metadata of a held frame, as when a reference count is retained. -/
inductive Call (M : Type) where
  | alloc
  | allocN (k : Nat)
  | free (p : Nat)
  | freeN (frames : List Nat)
  | recycle (p : Nat)
  | cache
  | cacheAlloc (i : Nat)
  | cacheFree (i p : Nat)
  | cacheRecycle (i p : Nat)
  | cacheDrop (i : Nat)
  | touch (p : Nat) (f : M → M)

/-- Callers release what they hold, through magazines that exist. -/
def Call.Legal [FrameMeta M] (w : World M) : Call M → Prop
  | .alloc | .allocN _ | .cache => True
  | .free p | .recycle p | .touch p _ => p ∈ w.handed
  | .freeN frames => HeldInTurn w.pool.indexOf frames w.pool.metadata w.handed
  | .cacheAlloc i | .cacheDrop i => i < w.caches.length
  | .cacheFree i p | .cacheRecycle i p => i < w.caches.length ∧ p ∈ w.handed

namespace World

/-- Run a program on the pool; a panic leaves no world. -/
def onPool {α : Type} (w : World M) (turns : List Turn) (call : Prog Turn (FramePool M) α)
    (next : α → FramePool M → World M) : Option (World M) :=
  match call w.pool turns with
  | (some a, pool, _) => some (next a pool)
  | (none, _, _) => none

def onCache (w : World M) (i : Nat) (next : FrameCache → Option (World M)) : Option (World M) :=
  match w.caches[i]? with
  | some cache => next cache
  | none => none

def exec [FrameMeta M] (w : World M) (turns : List Turn) : Call M → Option (World M)
  | .alloc => w.onPool turns FramePool.alloc fun r pool =>
      { w with pool, handed := r.toList ++ w.handed }
  | .allocN k => w.onPool turns (FramePool.allocN k) fun frames pool =>
      { w with pool, handed := frames ++ w.handed }
  | .free p => w.onPool turns (FramePool.free p) fun answer pool =>
      { w with pool, handed := settle w.handed p answer }
  | .freeN frames => w.onPool turns (FramePool.freeN frames) fun answers pool =>
      { w with pool, handed := settleAll w.handed frames answers }
  | .recycle p => w.onPool turns (FramePool.recycle p) fun _ pool =>
      { w with pool, handed := w.handed.erase p }
  | .cache => some { w with caches := w.caches ++ [⟨[]⟩] }
  | .cacheAlloc i => w.onCache i fun cache => w.onPool turns cache.alloc fun r pool =>
      { pool, caches := w.caches.set i r.2, handed := r.1.toList ++ w.handed }
  | .cacheFree i p => w.onCache i fun cache => w.onPool turns (cache.free p) fun r pool =>
      { pool, caches := w.caches.set i r.2, handed := settle w.handed p r.1 }
  | .cacheRecycle i p => w.onCache i fun cache =>
      w.onPool turns (cache.recycle p) fun cache' pool =>
        { pool, caches := w.caches.set i cache', handed := w.handed.erase p }
  | .cacheDrop i => w.onCache i fun cache => w.onPool turns cache.drop fun _ pool =>
      { w with pool, caches := w.caches.eraseIdx i }
  | .touch p f => some { w with pool := { w.pool with
      metadata := w.pool.metadata.put (w.pool.indexOf p)
        (f (w.pool.metadata.cell (w.pool.indexOf p))) } }

/-- Worlds reached from a fresh pool by legal calls that return. -/
inductive Reached [FrameMeta M] (region : Region) (frameSize numCpus : Nat) : World M → Prop where
  | build {pool} : FramePool.build region frameSize numCpus = .ok pool →
      Reached region frameSize numCpus ⟨pool, [], []⟩
  | call {w w'} (call turns) : Reached region frameSize numCpus w → call.Legal w →
      w.exec turns call = some w' → Reached region frameSize numCpus w'

/-! ## What a call keeps -/

def stored (caches : List FrameCache) : Multiset Nat :=
  (caches.flatMap FrameCache.ptrs : List Nat)

theorem stored_set {caches : List FrameCache} {i : Nat} {cache : FrameCache}
    (at_i : caches[i]? = some cache) (cache' : FrameCache) :
    stored (caches.set i cache') = stored (caches.eraseIdx i) + (cache'.ptrs : Multiset Nat) := by
  induction caches generalizing i with
  | nil => simp at at_i
  | cons first rest ih =>
      cases i with
      | zero => simp [stored, add_comm]
      | succ i =>
          have := ih (i := i) (by simpa using at_i)
          simp only [stored, List.set_cons_succ, List.eraseIdx_cons_succ, List.flatMap_cons,
            ← Multiset.coe_add] at this ⊢
          rw [this, add_assoc]

theorem stored_get {caches : List FrameCache} {i : Nat} {cache : FrameCache}
    (at_i : caches[i]? = some cache) :
    stored caches = stored (caches.eraseIdx i) + (cache.ptrs : Multiset Nat) := by
  have same : caches.set i cache = caches := by
    obtain ⟨inside, rfl⟩ := List.getElem?_eq_some_iff.mp at_i
    exact List.set_getElem_self inside
  rw [← stored_set at_i cache, same]

/-- The pool lacks what magazines and callers have. -/
def Kept (base shift n : Nat) (w : World M) : Prop :=
  (∀ cache ∈ w.caches, cache.ptrs.length ≤ frameMagCap) ∧
  ∃ m, Lacks base shift n m (stored w.caches + (w.handed : Multiset Nat)) w.pool

variable {base shift n : Nat} {w : World M}

theorem onPool_keeps {α : Type} {P : FramePool M → Prop} {call : Prog Turn (FramePool M) α}
    {Q : α → FramePool M → Prop} {next : α → FramePool M → World M} {turns : List Turn}
    (spec : Triple P call Q (fun _ => False)) (pre : P w.pool)
    (post : ∀ a pool, Q a pool → Kept base shift n (next a pool)) :
    ∃ w', w.onPool turns call next = some w' ∧ Kept base shift n w' := by
  have ends := spec w.pool turns pre
  rcases outcome : call w.pool turns with ⟨_ | a, pool, rest⟩ <;> simp only [outcome] at ends
  exact ⟨next a pool, by simp only [onPool, outcome], post a pool ends⟩

theorem settle_left {p : Nat} {handed : List Nat} (member : p ∈ handed) (F : Multiset Nat)
    (answer : Reclaim) :
    F + (settle handed p answer : Multiset Nat) =
      Reclaim.left p (F + (handed.erase p : Multiset Nat)) answer := by
  cases answer with
  | free => rfl
  | keep => exact held_apart member F

theorem taken_handed (r : Option Nat) (F : Multiset Nat) (handed : List Nat) :
    F + (r.toList ++ handed : List Nat) = taken r (F + (handed : Multiset Nat)) := by
  cases r with
  | none => rfl
  | some p => rw [Option.toList_some, List.singleton_append, ← Multiset.cons_coe,
      Multiset.add_cons, taken]

/-- A magazine taken out and put back changed, with other frames `F` missing. -/
theorem Kept.put_cache {i : Nat} {cache cache' : FrameCache} {pool : FramePool M}
    {handed : List Nat} {m : Slice M}
    (fit : ∀ cache ∈ w.caches, cache.ptrs.length ≤ frameMagCap) (at_i : w.caches[i]? = some cache)
    (fits : cache'.ptrs.length ≤ frameMagCap)
    (lacks : Lacks base shift n m
      (stored (w.caches.eraseIdx i) + (handed : Multiset Nat) + (cache'.ptrs : Multiset Nat)) pool) :
    Kept base shift n ⟨pool, w.caches.set i cache', handed⟩ := by
  refine ⟨fun c member => ?_, m, ?_⟩
  · rcases List.mem_or_eq_of_mem_set member with old | rfl
    · exact fit c old
    · exact fits
  · rwa [stored_set at_i, add_right_comm]

/-- Every frame address is in exactly one place and no other address is anywhere,
    within the bounds of every layer. -/
structure Conserved (region : Region) (frameSize : Nat) (w : World M) : Prop where
  frames : ∀ p, w.pool.central.count p +
      ∑ cpu ∈ Finset.range w.pool.slab.numCpus, (w.pool.slab.stack cpu 0).slots.count p +
      (w.caches.map fun cache => cache.ptrs.count p).sum + w.handed.count p =
    if ∃ i < region.len / frameSize, p = region.base + i * frameSize then 1 else 0
  central : w.pool.central.length ≤ region.len / frameSize
  perCpu : ∀ cpu, (w.pool.slab.stack cpu 0).slots.length ≤ capPerCpu
  magazines : ∀ cache ∈ w.caches, cache.ptrs.length ≤ frameMagCap
  indices : ∀ p ∈ w.handed, w.pool.indexOf p < region.len / frameSize

theorem Kept.conserved {region : Region} {frameSize : Nat}
    (pow2 : frameSize = 2 ^ Nat.log2 frameSize)
    (kept : Kept region.base (Nat.log2 frameSize) (region.len / frameSize) w) :
    Conserved region frameSize w := by
  obtain ⟨fit, m, lacks⟩ := kept
  refine ⟨fun p => ?_, ?_, fun cpu => (lacks.bounded cpu).2, fit, fun p member => ?_⟩
  · have counts := congrArg (Multiset.count p) lacks.balance
    simp only [Multiset.count_add, Multiset.coe_count, SlabLayout.cached, Multiset.count_sum',
      stored, List.count_flatMap, Function.comp_def, ← add_assoc] at counts
    rw [counts, frameAddresses_nodup.count]
    simp only [mem_frameAddresses]
    rw [← pow2]
  · have := lacks.central_room
    omega
  · rw [lacks.indexOf_slot]
    exact lacks.slot_lt (Multiset.mem_add.mpr (.inr member))

/-! ## Whole histories -/

variable [FrameMeta M]

/-- One legal call returns and loses no frame. -/
theorem exec_keeps (kept : Kept base shift n w) {call : Call M} (legal : call.Legal w)
    (turns : List Turn) : ∃ w', w.exec turns call = some w' ∧ Kept base shift n w' := by
  obtain ⟨fit, m, lacks⟩ := kept
  -- a call on a magazine starts by taking it out of the stored ones
  have magazine : ∀ i < w.caches.length, ∃ cache, w.caches[i]? = some cache ∧
      cache.ptrs.length ≤ frameMagCap ∧ Lacks base shift n m (stored (w.caches.eraseIdx i) +
        (w.handed : Multiset Nat) + (cache.ptrs : Multiset Nat)) w.pool := by
    intro i inside
    have at_i := List.getElem?_eq_getElem inside
    refine ⟨_, at_i, fit _ (List.getElem_mem inside), ?_⟩
    rwa [add_right_comm, ← stored_get at_i]
  cases call with
  | alloc =>
      refine onPool_keeps alloc_takes lacks fun r pool ⟨m', h⟩ => ⟨fit, m', ?_⟩
      rwa [taken_handed]
  | allocN k =>
      refine onPool_keeps (allocN_takes k) lacks fun frames pool ⟨m', h⟩ => ⟨fit, m', ?_⟩
      rwa [← Multiset.coe_add, add_left_comm]
  | free p =>
      rw [held_apart legal] at lacks
      refine onPool_keeps (free_releases p) lacks fun answer pool ⟨_, h⟩ => ?_
      rw [← settle_left legal] at h
      exact ⟨fit, _, h⟩
  | freeN frames =>
      have held : HeldInTurn (slot base shift) frames m w.handed := by
        have := legal
        simp only [Call.Legal, lacks.indexOf_slot, lacks.metadata] at this
        exact this
      exact onPool_keeps (freeN_releases frames w.handed held) lacks fun answers pool h => ⟨fit, h⟩
  | recycle p =>
      rw [held_apart legal] at lacks
      exact onPool_keeps (pushL2_returns p) lacks fun _ pool h => ⟨fit, m, h⟩
  | cache =>
      refine ⟨_, rfl, fun cache member => ?_, m, ?_⟩
      · rcases List.mem_append.mp member with old | new
        · exact fit cache old
        · rw [List.mem_singleton.mp new]
          exact Nat.zero_le _
      · simpa only [stored, List.flatMap_append, List.flatMap_cons, List.flatMap_nil,
          List.append_nil] using lacks
  | cacheAlloc i =>
      obtain ⟨cache, at_i, fits, lacks⟩ := magazine i legal
      simp only [exec, onCache, at_i]
      refine onPool_keeps (FrameCache.alloc_takes cache fits) lacks fun r pool ⟨fits', m', h⟩ => ?_
      refine Kept.put_cache (m := m') fit at_i fits' ?_
      rwa [add_right_comm, taken_handed, add_right_comm]
  | cacheFree i p =>
      obtain ⟨cache, at_i, fits, lacks⟩ := magazine i legal.1
      simp only [exec, onCache, at_i]
      rw [held_apart legal.2, Multiset.cons_add] at lacks
      refine onPool_keeps (FrameCache.free_releases cache p fits) lacks
        fun r pool ⟨fits', m', h⟩ => ?_
      refine Kept.put_cache (m := m') fit at_i fits' ?_
      rwa [add_right_comm, settle_left legal.2, add_right_comm]
  | cacheRecycle i p =>
      obtain ⟨cache, at_i, fits, lacks⟩ := magazine i legal.1
      simp only [exec, onCache, at_i]
      rw [held_apart legal.2, Multiset.cons_add] at lacks
      exact onPool_keeps (FrameCache.recycle_returns cache p fits) lacks
        fun cache' pool ⟨fits', h⟩ => Kept.put_cache fit at_i fits' h
  | cacheDrop i =>
      obtain ⟨cache, at_i, -, lacks⟩ := magazine i legal
      simp only [exec, onCache, at_i]
      exact onPool_keeps (FrameCache.drop_returns cache) lacks fun _ pool h =>
        ⟨fun c member => fit c (List.mem_of_mem_eraseIdx member), m, h⟩
  | touch p f =>
      have marked := lacks.mark (w.pool.indexOf p) (f (m.cell (w.pool.indexOf p)))
      rw [← lacks.metadata] at marked
      exact ⟨_, rfl, fit, _, marked⟩

theorem build_kept {region : Region} {frameSize numCpus : Nat} {pool : FramePool M}
    (cpus : 0 < numCpus) (built : FramePool.build region frameSize numCpus = .ok pool) :
    frameSize = 2 ^ Nat.log2 frameSize ∧
    Kept region.base (Nat.log2 frameSize) (region.len / frameSize) ⟨pool, [], []⟩ := by
  unfold FramePool.build at built
  split at built
  · cases built
  · rename_i pow2
    simp only at built
    split at built
    · cases built
    · cases built
      have pow2 := not_not.mp pow2
      refine ⟨pow2, by simp, Slice.replicate (region.len / frameSize) FrameMeta.idle, ?_⟩
      refine ⟨region.nonNull, ?_, rfl, rfl, rfl, rfl, rfl, cpus, rfl,
        .single rfl fun _ _ => Nat.zero_le _, fun _ => ⟨rfl, Nat.zero_le _⟩, ?_⟩
      · rw [← pow2]
        have := Nat.div_mul_le_self region.len frameSize
        have := region.mapped
        omega
      · rw [← pow2]
        simp [stored, SlabLayout.cached]

theorem Reached.kept {region : Region} {frameSize numCpus : Nat} (cpus : 0 < numCpus)
    (reached : Reached region frameSize numCpus w) :
    frameSize = 2 ^ Nat.log2 frameSize ∧
    Kept region.base (Nat.log2 frameSize) (region.len / frameSize) w := by
  induction reached with
  | build built => exact build_kept cpus built
  | @call w w' call turns _ legal ran ih =>
      obtain ⟨w'', ran', kept⟩ := exec_keeps ih.2 legal turns
      rw [Option.some.inj (ran.symm.trans ran')]
      exact ⟨ih.1, kept⟩

/-- Whatever legal calls a pool went through, its frames are conserved and the
    next legal call returns. -/
theorem reached_conserves {region : Region} {frameSize numCpus : Nat} (cpus : 0 < numCpus)
    (reached : Reached region frameSize numCpus w) :
    Conserved region frameSize w ∧
    ∀ (call : Call M) (turns : List Turn), call.Legal w → (w.exec turns call).isSome := by
  obtain ⟨pow2, kept⟩ := reached.kept cpus
  refine ⟨kept.conserved pow2, fun call turns legal => ?_⟩
  obtain ⟨w', ran, -⟩ := exec_keeps kept legal turns
  rw [ran]
  rfl

/-- Two counted frames on one CPU: a refill hands out the second and caches the
    first, which a magazine then fetches. -/
theorem reached_conserves_two :
    ∃ w : World RefCount, Reached ⟨4096, 8192, by decide, by decide⟩ 4096 1 w ∧
      w.handed = [4096, 8192] ∧ Conserved ⟨4096, 8192, by decide, by decide⟩ 4096 w := by
  have h₀ : Reached ⟨4096, 8192, by decide, by decide⟩ 4096 1 _ := .build (M := RefCount) rfl
  have h₁ := Reached.call .alloc [⟨0, 0, false⟩, ⟨0, 0, false⟩] h₀ trivial rfl
  have h₂ := Reached.call .cache [] h₁ trivial rfl
  have h₃ := Reached.call (.cacheAlloc 0) [⟨0, 0, false⟩] h₂ Nat.zero_lt_one rfl
  exact ⟨_, h₃, rfl, (reached_conserves (by decide) h₃).1⟩

end World

end Toccata.FramePool
