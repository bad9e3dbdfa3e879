import Toccata.Frame.Histories

/-! # Full capacity from one CPU

A pool used from one CPU has its idle frames in that CPU's block and in the central
stack only. As long as the block declines nothing but a pop when empty and a push when
full, a request finds every idle frame: a refill hands out the central top before it
moves anything, and what the block refuses goes back.
-/

namespace Toccata

open Foundations

namespace FramePool

variable {M : Type} {base shift n numCpus cpu : Nat} {m : Slice M} {F : Multiset Nat}

/-! ## One CPU's schedules -/

/-- Attempts that reach the block of `cpu`, and may give up at any point. -/
def OnBlock (numCpus cpu : Nat) : Option Turn → Prop
  | none => True
  | some turn => resolvedCpu numCpus turn.cpu turn.anchor = cpu

/-- Attempts that reach the block of `cpu` and never give up: they are declined only by
    an empty or a full block. -/
def Steady (numCpus cpu : Nat) : Option Turn → Prop
  | none => False
  | some turn => resolvedCpu numCpus turn.cpu turn.anchor = cpu ∧ turn.declines = false

/-- Nothing is cached outside the block of `cpu`. -/
structure Alone (numCpus cpu : Nat) (pool : FramePool M) : Prop where
  cpus : pool.slab.numCpus = numCpus
  inside : cpu < numCpus
  empty : ∀ other, other ≠ cpu → (pool.slab.stack other 0).slots = []

theorem Alone.cached {pool : FramePool M} (alone : Alone numCpus cpu pool) :
    pool.slab.cached 0 = ((pool.slab.stack cpu 0).slots : Multiset Nat) := by
  apply Finset.sum_eq_single_of_mem
  · rw [alone.cpus]
    exact Finset.mem_range.mpr alone.inside
  · intro other _ different
    rw [alone.empty other different]
    rfl

theorem Alone.put {pool : FramePool M} (alone : Alone numCpus cpu pool) (s : CpuStack) :
    Alone numCpus cpu { pool with slab := pool.slab.put cpu 0 s } := by
  refine { alone with empty := fun other different => ?_ }
  rw [SlabLayout.put_stack_other fun same => different same.1]
  exact alone.empty other different

/-- A write to the block of `cpu` reaches no other. -/
theorem Alone.write {pool : FramePool M} (alone : Alone numCpus cpu pool) (addr p : Nat) :
    Alone numCpus cpu { pool with slab := pool.slab.write cpu addr p } := by
  refine { alone with empty := fun other different => ?_ }
  rw [SlabLayout.write_other different]
  exact alone.empty other different

section Block

variable {G : Option Turn → Prop}

theorem slabPop_alone (onCpu : ∀ turn, G (some turn) → resolvedCpu numCpus turn.cpu turn.anchor = cpu) :
    Under G 1 (Alone numCpus cpu) slabPop (fun _ => Alone (M := M) numCpus cpu) := by
  refine Under.bind (j := 0) (Under.ask (Q := fun turn pool => G turn ∧ Alone numCpus cpu pool)
    fun turn pool granted alone => ⟨granted, alone⟩) fun turn => Under.lift fun granted => ?_
  refine Under.inspect fun pool alone => Under.bind (j := 0) (Under.modify fun _ same => ?_)
    fun _ => Under.ret _ fun _ kept => kept
  subst same
  cases turn with
  | none => exact alone
  | some turn =>
      simp only [SlabLayout.pop, alone.cpus, onCpu turn granted]
      split
      · exact alone
      · split
        · exact alone
        · exact alone.put _

theorem slabPush_alone (onCpu : ∀ turn, G (some turn) → resolvedCpu numCpus turn.cpu turn.anchor = cpu)
    (p : Nat) : Under G 1 (Alone numCpus cpu) (slabPush p) (fun _ => Alone (M := M) numCpus cpu) := by
  refine Under.bind (j := 0) (Under.ask (Q := fun turn pool => G turn ∧ Alone numCpus cpu pool)
    fun turn pool granted alone => ⟨granted, alone⟩) fun turn => Under.lift fun granted => ?_
  refine Under.inspect fun pool alone => Under.bind (j := 0) (Under.modify fun _ same => ?_)
    fun _ => Under.ret _ fun _ kept => kept
  subst same
  cases turn with
  | none => exact alone
  | some turn =>
      simp only [SlabLayout.push, alone.cpus, onCpu turn granted]
      split
      · exact alone
      · split
        · exact alone
        · exact (alone.write _ p).put _

/-- A miss in the central stack says whatever an empty one does. -/
theorem centralPop_alone {c : Prop} :
    Under G 0 (fun pool => Alone numCpus cpu pool ∧ (pool.central = [] → c)) centralPop
      (fun r pool => Alone (M := M) numCpus cpu pool ∧ (r = none → c)) := by
  refine Under.inspect fun pool ⟨alone, empty⟩ => ?_
  cases top : pool.central with
  | nil => exact Under.ret _ fun _ same => ⟨same ▸ alone, fun _ => empty top⟩
  | cons p rest =>
      exact Under.bind (j := 0) (Under.modify fun _ same => same ▸ { alone with }) fun _ =>
        Under.ret _ fun _ kept => ⟨kept, fun none => nomatch none⟩

theorem centralPush_alone (p : Nat) :
    Under G 0 (Alone numCpus cpu) (centralPush p) (fun _ => Alone (M := M) numCpus cpu) := by
  refine Under.update fun pool pool' alone pushed => ?_
  split at pushed
  · obtain rfl := Option.some.inj pushed
    exact { alone with }
  · cases pushed

theorem refill_alone {c : Prop}
    (onCpu : ∀ turn, G (some turn) → resolvedCpu numCpus turn.cpu turn.anchor = cpu) :
    Under G (batch - 1) (fun pool => Alone numCpus cpu pool ∧ (pool.central = [] → c)) refill
      (fun r pool => Alone (M := M) numCpus cpu pool ∧ (r = none → c)) := by
  refine Under.spare (Under.bind (j := 1 * (batch - 1) + 0) centralPop_alone fun handed => ?_)
    (by decide)
  cases handed with
  | none => exact Under.ret _ fun _ h => h
  | some handed =>
      refine Under.strengthen (Under.bind (j := 0) (Under.upTo (I := Alone numCpus cpu) _ ?_)
        fun _ => Under.ret _ fun _ alone => ⟨alone, fun none => nomatch none⟩) fun _ h => h.1
      refine Under.bind (j := 1 + 0) (Under.strengthen (centralPop_alone (c := True))
        fun _ alone => ⟨alone, fun _ => trivial⟩) fun r => ?_
      cases r with
      | none => exact Under.ret _ fun _ h => h.1
      | some p =>
          refine Under.strengthen (Under.bind (j := 0) (slabPush_alone onCpu p) fun pushed => ?_)
            fun _ h => h.1
          cases pushed with
          | ok => exact Under.ret _ fun _ alone => alone
          | needsSlow =>
              exact Under.bind (j := 0) (centralPush_alone p) fun _ => Under.ret _ fun _ alone => alone

end Block

/-! ## Histories on one CPU -/

section History

theorem popL2_stays :
    Under (OnBlock numCpus cpu) 0 (Alone numCpus cpu) popL2
      (fun _ => Alone (M := M) numCpus cpu) := by
  refine Under.bind (j := 0) (Under.uncounted trivial (slabPop_alone fun _ onCpu => onCpu))
    fun r => ?_
  cases r with
  | ok p => exact Under.ret _ fun _ alone => alone
  | needsSlow =>
      exact Under.weaken (Under.strengthen (Under.uncounted trivial (refill_alone (c := True)
        fun _ onCpu => onCpu)) fun _ alone => ⟨alone, fun _ => trivial⟩) fun _ _ h => h.1

theorem pushL2_stays (p : Nat) :
    Under (OnBlock numCpus cpu) 0 (Alone numCpus cpu) (pushL2 p)
      (fun _ => Alone (M := M) numCpus cpu) := by
  have pushes : ∀ p, Under (OnBlock numCpus cpu) 0 (Alone numCpus cpu) (slabPush p)
      (fun _ => Alone (M := M) numCpus cpu) :=
    fun p => Under.uncounted trivial (slabPush_alone (fun _ onCpu => onCpu) p)
  refine Under.bind (j := 0) (pushes p) fun pushed => ?_
  cases pushed with
  | ok => exact Under.ret _ fun _ alone => alone
  | needsSlow =>
      refine Under.bind (j := 0) (Under.uncounted trivial (Under.upTo (c := 0) _ ?_)) fun _ => ?_
      · refine Under.bind (j := 0) (Under.uncounted trivial (slabPop_alone fun _ onCpu => onCpu))
          fun r => ?_
        cases r with
        | ok q =>
            exact Under.bind (j := 0) (centralPush_alone q) fun _ => Under.ret _ fun _ alone => alone
        | needsSlow => exact Under.ret _ fun _ alone => alone
      · refine Under.bind (j := 0) (pushes p) fun pushed => ?_
        cases pushed with
        | ok => exact Under.ret _ fun _ alone => alone
        | needsSlow => exact centralPush_alone p

variable [FrameMeta M] {G : Option Turn → Prop}

theorem metaAlloc_alone (p : Nat) :
    Under G 0 (Alone numCpus cpu) (metaAlloc p) (fun _ => Alone (M := M) numCpus cpu) := by
  refine Under.update fun pool pool' alone marked => ?_
  obtain ⟨v, -, same⟩ := Option.bind_eq_some_iff.mp marked
  obtain rfl := Option.some.inj same
  exact { alone with }

theorem metaFree_alone (p : Nat) :
    Under G 0 (Alone numCpus cpu) (metaFree p) (fun _ => Alone (M := M) numCpus cpu) := by
  refine Under.inspect fun pool alone => Under.inspect fun _ same => ?_
  subst same
  split
  · exact Under.fail
  · exact Under.bind (j := 0) (Under.modify fun _ same => same ▸ { alone with }) fun _ =>
      Under.ret _ fun _ kept => kept

theorem alloc_stays :
    Under (OnBlock numCpus cpu) 0 (Alone numCpus cpu) alloc (fun _ => Alone (M := M) numCpus cpu) := by
  refine Under.bind (j := 0) popL2_stays fun r => ?_
  cases r with
  | none => exact Under.ret _ fun _ alone => alone
  | some p => exact Under.bind (j := 0) (metaAlloc_alone p) fun _ => Under.ret _ fun _ alone => alone

theorem allocN_stays (k : Nat) :
    Under (OnBlock numCpus cpu) 0 (Alone numCpus cpu) (allocN k)
      (fun _ => Alone (M := M) numCpus cpu) := by
  refine Under.uncounted trivial (Under.loop (I := fun _ _ => Alone numCpus cpu) (c := 0)
    (fun _ out => ?_) (fun _ _ alone => alone) k [])
  refine Under.bind (j := 0) popL2_stays fun r => ?_
  cases r with
  | none => exact Under.ret _ fun _ alone => alone
  | some p => exact Under.bind (j := 0) (metaAlloc_alone p) fun _ => Under.ret _ fun _ alone => alone

theorem free_stays (p : Nat) :
    Under (OnBlock numCpus cpu) 0 (Alone numCpus cpu) (free p)
      (fun _ => Alone (M := M) numCpus cpu) := by
  refine Under.bind (j := 0) (metaFree_alone p) fun answer => ?_
  cases answer with
  | keep => exact Under.ret _ fun _ alone => alone
  | free => exact Under.bind (j := 0) (pushL2_stays p) fun _ => Under.ret _ fun _ alone => alone

end History

end FramePool

namespace FrameCache

open FramePool

variable {M : Type} {numCpus cpu : Nat}

theorem fetch_stays (k : Nat) (ptrs : List Nat) :
    Under (OnBlock numCpus cpu) 0 (Alone numCpus cpu) (fetch k ptrs)
      (fun _ => Alone (M := M) numCpus cpu) := by
  refine Under.uncounted trivial (Under.loop (I := fun _ _ => Alone numCpus cpu) (c := 0)
    (fun _ ptrs => ?_) (fun _ _ alone => alone) k ptrs)
  refine Under.bind (j := 0) popL2_stays fun r => ?_
  cases r with
  | none => exact Under.ret _ fun _ alone => alone
  | some p => exact Under.ret _ fun _ alone => alone

theorem flush_stays (k : Nat) (ptrs : List Nat) :
    Under (OnBlock numCpus cpu) 0 (Alone numCpus cpu) (flush k ptrs)
      (fun _ => Alone (M := M) numCpus cpu) := by
  refine Under.uncounted trivial (Under.loop (I := fun _ _ => Alone numCpus cpu) (c := 0)
    (fun _ ptrs => ?_) (fun _ _ alone => alone) k ptrs)
  cases ptrs with
  | nil => exact Under.fail
  | cons p rest =>
      exact Under.bind (j := 0) (pushL2_stays p) fun _ => Under.ret _ fun _ alone => alone

theorem alloc_stays [FrameMeta M] (cache : FrameCache) :
    Under (OnBlock numCpus cpu) 0 (Alone numCpus cpu) cache.alloc
      (fun _ => Alone (M := M) numCpus cpu) := by
  unfold FrameCache.alloc
  split
  · exact Under.bind (j := 0) (metaAlloc_alone _) fun _ => Under.ret _ fun _ alone => alone
  · refine Under.bind (j := 0) (Under.bind (j := 0) (fetch_stays _ _) fun ptrs => ?_)
      (Q := fun _ => Alone numCpus cpu) fun r => ?_
    · cases ptrs with
      | nil => exact Under.ret _ fun _ alone => alone
      | cons p rest => exact Under.ret _ fun _ alone => alone
    · rcases r with ⟨_ | p, cache'⟩
      · exact Under.ret _ fun _ alone => alone
      · exact Under.bind (j := 0) (metaAlloc_alone p) fun _ => Under.ret _ fun _ alone => alone

theorem recycle_stays (cache : FrameCache) (p : Nat) :
    Under (OnBlock numCpus cpu) 0 (Alone numCpus cpu) (cache.recycle p)
      (fun _ => Alone (M := M) numCpus cpu) := by
  refine Under.ite (fun _ => Under.ret _ fun _ alone => alone) (fun _ => ?_)
  refine Under.bind (j := 0) (flush_stays _ _) fun ptrs => ?_
  exact Under.ite (fun _ => Under.ret _ fun _ alone => alone) (fun _ => Under.fail)

theorem free_stays [FrameMeta M] (cache : FrameCache) (p : Nat) :
    Under (OnBlock numCpus cpu) 0 (Alone numCpus cpu) (cache.free p)
      (fun _ => Alone (M := M) numCpus cpu) := by
  refine Under.bind (j := 0) (metaFree_alone p) fun answer => ?_
  cases answer with
  | keep => exact Under.ret _ fun _ alone => alone
  | free =>
      exact Under.bind (j := 0) (recycle_stays cache p) fun _ => Under.ret _ fun _ alone => alone

theorem drop_stays (cache : FrameCache) :
    Under (OnBlock numCpus cpu) 0 (Alone numCpus cpu) cache.drop
      (fun _ => Alone (M := M) numCpus cpu) :=
  Under.bind (j := 0) (flush_stays _ _) fun _ => Under.ret _ fun _ alone => alone

end FrameCache

/-! ## Requests that are not given up -/

namespace FramePool

variable {M : Type} {base shift n numCpus cpu : Nat} {m : Slice M} {F : Multiset Nat}

theorem Lacks.total {pool : FramePool M} (h : Lacks base shift n m F pool) :
    pool.central.length + Multiset.card (pool.slab.cached 0) + Multiset.card F = n := by
  have sizes := congrArg Multiset.card h.balance
  simpa only [Multiset.card_add, Multiset.coe_card, frameAddresses, List.length_map,
    List.length_range] using sizes

/-- Nothing is idle exactly when all frames are missing. -/
theorem Lacks.missing_all {pool : FramePool M} (h : Lacks base shift n m F pool) :
    Multiset.card F = n ↔ F = (frameAddresses base (2 ^ shift) n : Multiset Nat) := by
  constructor
  · intro all
    apply Multiset.eq_of_le_of_card_le
    · rw [← h.balance]
      exact Multiset.le_add_left _ _
    · rw [all, Multiset.coe_card, frameAddresses, List.length_map, List.length_range]
  · intro all
    rw [all, Multiset.coe_card, frameAddresses, List.length_map, List.length_range]

theorem Lacks.missing_iff {pool : FramePool M} (h : Lacks base shift n m F pool) :
    Multiset.card F = n ↔ ∀ p ∈ frameAddresses base (2 ^ shift) n, p ∈ F := by
  rw [h.missing_all]
  constructor
  · intro all p member
    rw [all]
    exact Multiset.mem_coe.mpr member
  · intro all
    apply le_antisymm
    · rw [← h.balance]
      exact Multiset.le_add_left _ _
    · exact (Multiset.le_iff_subset (Multiset.coe_nodup.mpr frameAddresses_nodup)).mpr
        fun p member => all p (Multiset.mem_coe.mp member)

/-- The pool lacks `F` and caches on one CPU only. -/
def OnOneCpu (numCpus cpu base shift n : Nat) (m : Slice M) (F : Multiset Nat)
    (pool : FramePool M) : Prop :=
  Lacks base shift n m F pool ∧ Alone numCpus cpu pool

theorem slabPop_steady :
    Under (Steady numCpus cpu) 1 (OnOneCpu numCpus cpu base shift n m F) slabPop
      (fun r pool => r = .needsSlow → (pool.slab.stack cpu 0).slots = []) := by
  refine Under.bind (j := 0) (Under.ask (Q := fun turn pool => Steady numCpus cpu turn ∧
    OnOneCpu numCpus cpu base shift n m F pool) fun turn pool granted h => ⟨granted, h⟩)
    fun turn => Under.lift fun granted => ?_
  refine Under.inspect fun pool ⟨lacks, alone⟩ => Under.bind (j := 0) (Under.modify
    (Q := fun _ pool' => pool' = { pool with slab := (pool.slab.pop 0 turn).2 })
    fun _ same => same ▸ rfl) fun _ => Under.ret _ fun _ same missed => ?_
  subst same
  cases turn with
  | none => exact granted.elim
  | some turn =>
      simp only [SlabLayout.pop, alone.cpus, granted.1, granted.2, Bool.false_eq_true,
        if_false] at missed ⊢
      split at missed
      · rename_i empty
        simp only [empty]
      · rename_i p rest top
        have cached : p ∈ pool.slab.cached 0 := by
          rw [alone.cached, top]
          exact Multiset.mem_coe.mpr List.mem_cons_self
        obtain ⟨i, -, rfl⟩ := lacks.frame_of_cached cached
        have proper : base + i * 2 ^ shift ≠ 0 := by
          have := lacks.nonNull
          omega
        simp only [if_neg proper] at missed
        cases missed

/-- A request fails exactly when nothing is idle. -/
theorem popL2_steady :
    Under (Steady numCpus cpu) batch (OnOneCpu numCpus cpu base shift n m F) popL2
      (fun r pool => OnOneCpu numCpus cpu base shift n m (taken r F) pool ∧
        (r = none ↔ Multiset.card F = n)) := by
  have onCpu : ∀ turn, Steady numCpus cpu (some turn) →
      resolvedCpu numCpus turn.cpu turn.anchor = cpu := fun _ steady => steady.1
  have found : Under (Steady numCpus cpu) batch (OnOneCpu numCpus cpu base shift n m F) popL2
      (fun r pool => Alone numCpus cpu pool ∧ (r = none → Multiset.card F = n)) := by
    refine Under.bind (j := batch - 1) (Q := fun r pool => Alone numCpus cpu pool ∧
      (r = .needsSlow → pool.central = [] → Multiset.card F = n)) ?_ fun r => ?_
    · refine Under.weaken (Under.strengthen (Under.meet slabPop_takes (Under.both slabPop_steady
        (Under.strengthen (slabPop_alone onCpu) fun _ h => h.2))) fun _ h => ⟨h.1, h⟩)
        ?_
      rintro r pool ⟨lacks, missed, alone⟩
      refine ⟨alone, fun slow empty => ?_⟩
      subst slow
      have total := lacks.total
      rw [alone.cached, missed rfl, empty] at total
      simpa only [Fast.taken, List.length_nil, Multiset.coe_nil, Multiset.card_zero,
        Nat.zero_add] using total
    · cases r with
      | ok p => exact Under.ret _ fun _ h => ⟨h.1, fun none => (Option.some_ne_none p none).elim⟩
      | needsSlow =>
          exact Under.strengthen (refill_alone onCpu) fun _ h => ⟨h.1, h.2 rfl⟩
  refine Under.weaken (Under.strengthen (Under.meet popL2_takes found) fun _ h => ⟨h.1, h⟩) ?_
  rintro r pool ⟨lacks, alone, exhausted⟩
  refine ⟨⟨lacks, alone⟩, exhausted, fun all => ?_⟩
  cases r with
  | none => rfl
  | some p =>
      have total := lacks.total
      rw [taken, Multiset.card_cons] at total
      omega

theorem OnOneCpu.mark {pool : FramePool M} (h : OnOneCpu numCpus cpu base shift n m F pool)
    (i : Nat) (v : M) : OnOneCpu numCpus cpu base shift n (m.put i v) F
      { pool with metadata := m.put i v } :=
  ⟨h.1.mark i v, { h.2 with }⟩

variable [FrameMeta M]

theorem metaAlloc_onOneCpu {G : Option Turn → Prop} {p : Nat} (missing : p ∈ F) :
    Under G 0 (OnOneCpu numCpus cpu base shift n m F) (metaAlloc p)
      (fun _ pool => ∃ m', OnOneCpu numCpus cpu base shift n m' F pool) :=
  Under.weaken (Under.meet (metaAlloc_marks missing) (metaAlloc_alone p))
    fun _ _ ⟨⟨m', lacks⟩, alone⟩ => ⟨m', lacks, alone⟩

theorem alloc_steady :
    Under (Steady numCpus cpu) batch (OnOneCpu numCpus cpu base shift n m F) alloc
      (fun r pool => (∃ m', OnOneCpu numCpus cpu base shift n m' (taken r F) pool) ∧
        (r = none ↔ Multiset.card F = n)) := by
  refine Under.bind (j := 0) popL2_steady fun r => ?_
  cases r with
  | none => exact Under.ret _ fun _ h => ⟨⟨m, h.1⟩, h.2⟩
  | some p =>
      refine Under.strengthen (Under.lift (c := ¬ Multiset.card F = n) fun more => ?_)
        fun _ h => ⟨fun all => (Option.some_ne_none p (h.2.mpr all)).elim, h.1⟩
      exact Under.bind (j := 0) (metaAlloc_onOneCpu (Multiset.mem_cons_self p F)) fun _ =>
        Under.ret _ fun _ h => ⟨h, fun none => (Option.some_ne_none p none).elim, fun all => (more all).elim⟩

/-- A batch gets every idle frame it has room for. -/
theorem allocN_steady (k : Nat) :
    Under (Steady numCpus cpu) (batch * k) (OnOneCpu numCpus cpu base shift n m F) (allocN k)
      (fun out _ => out.length = min k (n - Multiset.card F)) := by
  refine Under.strengthen (Under.loop (I := fun j (out : List Nat) pool => out.length + j = k ∧
    ∃ m', OnOneCpu numCpus cpu base shift n m' ((out : Multiset Nat) + F) pool) (fun j out => ?_)
    (fun out pool ⟨count, m', lacks, _⟩ => ?_) k []) fun _ h => ⟨by simp, m, by simpa using h⟩
  · refine Under.lift fun count => Under.choose fun m' => Under.bind (j := 0) popL2_steady fun r => ?_
    cases r with
    | none =>
        refine Under.ret _ fun _ ⟨_, exhausted⟩ => ?_
        have all := exhausted.mp rfl
        rw [Multiset.card_add, Multiset.coe_card] at all
        omega
    | some p =>
        refine Under.strengthen (Under.bind (j := 0) (metaAlloc_onOneCpu (Multiset.mem_cons_self p _))
          fun _ => Under.ret _ fun _ ⟨m'', h⟩ => ⟨?_, m'', ?_⟩) fun _ h => h.1
        · rw [List.length_append, List.length_singleton]
          omega
        · rwa [← Multiset.coe_add, Multiset.coe_singleton, add_right_comm, add_comm,
            Multiset.singleton_add]
  · have total := lacks.total
    rw [Multiset.card_add, Multiset.coe_card] at total
    omega

end FramePool

namespace FrameCache

open FramePool

variable {M : Type} {base shift n numCpus cpu : Nat} {m : Slice M} {F : Multiset Nat}

/-- A magazine stays empty only when nothing is idle. -/
theorem fetch_steady (k : Nat) :
    Under (Steady numCpus cpu) (batch * k) (OnOneCpu numCpus cpu base shift n m F) (fetch k [])
      (fun ptrs pool => OnOneCpu numCpus cpu base shift n m (F + (ptrs : Multiset Nat)) pool ∧
        (ptrs = [] → k = 0 ∨ Multiset.card F = n)) := by
  refine Under.strengthen (Under.loop (I := fun j (ptrs : List Nat) pool =>
    OnOneCpu numCpus cpu base shift n m (F + (ptrs : Multiset Nat)) pool ∧ (ptrs = [] → j = k))
    (fun j ptrs => ?_) (fun ptrs pool h => ⟨h.1, fun empty => .inl (h.2 empty).symm⟩) k [])
    fun _ h => ⟨by simpa using h, fun _ => rfl⟩
  refine Under.strengthen (Under.bind (j := 0) popL2_steady fun r => ?_) fun _ h => h.1
  cases r with
  | none =>
      refine Under.ret _ fun _ h => ⟨h.1, fun empty => .inr ?_⟩
      subst empty
      simpa using h.2.mp rfl
  | some p =>
      refine Under.ret _ fun _ h => ⟨?_, fun empty => nomatch empty⟩
      rw [← Multiset.cons_coe, Multiset.add_cons]
      exact h.1

theorem alloc_steady [FrameMeta M] (cache : FrameCache) :
    Under (Steady numCpus cpu) (batch * (frameMagCap / 2))
      (OnOneCpu numCpus cpu base shift n m (F + (cache.ptrs : Multiset Nat))) cache.alloc
      (fun r _ => r.1 = none ↔ cache.ptrs = [] ∧ Multiset.card F = n) := by
  rcases cache with ⟨_ | ⟨p, rest⟩⟩
  · refine Under.bind (j := 0) (Q := fun r pool => (r.1 = none ↔ Multiset.card F = n) ∧
      ∃ F', OnOneCpu numCpus cpu base shift n m (taken r.1 F') pool)
      (Under.bind (j := 0) (fetch_steady (frameMagCap / 2)) fun ptrs => ?_) fun r => ?_
    · cases ptrs with
      | nil =>
          refine Under.ret _ fun _ h => ⟨⟨fun _ => ?_, fun _ => rfl⟩, _, h.1⟩
          simpa [frameMagCap] using h.2 rfl
      | cons p rest =>
          refine Under.ret _ fun _ h => ⟨⟨fun none => (Option.some_ne_none p none).elim, fun all => ?_⟩,
            F + (rest : Multiset Nat), ?_⟩
          · have total := h.1.1.total
            simp only [Multiset.coe_nil, add_zero, Multiset.card_add, Multiset.coe_card,
              List.length_cons] at total
            omega
          · rw [taken, ← Multiset.add_cons, Multiset.cons_coe]
            simpa using h.1
    · rcases r with ⟨_ | p, cache'⟩
      · exact Under.ret _ fun _ h => ⟨fun _ => ⟨rfl, h.1.mp rfl⟩, fun _ => rfl⟩
      · refine Under.lift fun found => Under.choose fun F' => ?_
        refine Under.bind (j := 0) (metaAlloc_onOneCpu (Multiset.mem_cons_self p F')) fun _ =>
          Under.ret _ fun _ _ => ⟨fun none => (Option.some_ne_none p none).elim, fun all => ?_⟩
        exact (Option.some_ne_none p (found.mpr all.2)).elim
  · have member : p ∈ F + ((p :: rest : List Nat) : Multiset Nat) :=
      Multiset.mem_add.mpr (.inr (Multiset.mem_coe.mpr List.mem_cons_self))
    refine Under.bind (j := 0) (Under.spare (metaAlloc_onOneCpu member) (Nat.zero_le _)) fun _ =>
      Under.ret _ fun _ _ => ⟨fun none => (Option.some_ne_none p none).elim,
        fun h => (List.cons_ne_nil p rest h.1).elim⟩

end FrameCache

/-! ## Whole runs -/

namespace FramePool

variable {M : Type} [FrameMeta M]

/-- The answers of one `alloc` after another, each under its own schedule. -/
def allocs : List (List Turn) → FramePool M → Option (List (Option Nat))
  | [], _ => some []
  | turns :: later, pool =>
      match alloc pool turns with
      | (some r, pool', _) => (r :: ·) <$> allocs later pool'
      | (none, _, _) => none

/-- A schedule of `k` or more attempts on one CPU that are not given up. -/
def SteadyFor (numCpus cpu k : Nat) (turns : List Turn) : Prop :=
  k ≤ turns.length ∧ ∀ turn ∈ turns, Steady numCpus cpu (some turn)

variable {base shift n numCpus cpu : Nat}

theorem alloc_returns {m : Slice M} {F : Multiset Nat} {pool : FramePool M} {turns : List Turn}
    (h : OnOneCpu numCpus cpu base shift n m F pool) (steady : SteadyFor numCpus cpu batch turns) :
    ∃ r, (alloc pool turns).1 = some r ∧
      (∃ m', OnOneCpu numCpus cpu base shift n m' (taken r F) (alloc pool turns).2.1) ∧
      (r = none ↔ Multiset.card F = n) :=
  Under.returns alloc_takes alloc_steady steady.2 (.inr steady.1) h.1 h

/-- With `k` frames idle, `k` requests succeed and the next one fails. -/
theorem allocs_exhaust (k : Nat) {m : Slice M} {F : Multiset Nat} {pool : FramePool M}
    {schedules : List (List Turn)} (h : OnOneCpu numCpus cpu base shift n m F pool)
    (idle : Multiset.card F + k = n) (count : schedules.length = k + 1)
    (steady : ∀ turns ∈ schedules, SteadyFor numCpus cpu batch turns) :
    ∃ got : List Nat, allocs schedules pool = some (got.map some ++ [none]) ∧
      (got : Multiset Nat) + F = (frameAddresses base (2 ^ shift) n : Multiset Nat) := by
  induction k generalizing m F pool schedules with
  | zero =>
      obtain ⟨turns, rfl⟩ := List.length_eq_one_iff.mp count
      obtain ⟨r, returned, -, exhausted⟩ := alloc_returns h (steady turns List.mem_cons_self)
      obtain rfl := exhausted.mpr idle
      refine ⟨[], ?_, ?_⟩
      · rcases outcome : alloc pool turns with ⟨r, pool', rest⟩
        simp only [outcome] at returned
        simp only [allocs, outcome, returned, Option.map_eq_map, Option.map_some, List.map_nil,
          List.nil_append]
      · rw [Multiset.coe_nil, zero_add]
        exact h.1.missing_all.mp idle
  | succ k ih =>
      cases schedules with
      | nil => cases count
      | cons turns later =>
          obtain ⟨first, others⟩ := List.forall_mem_cons.mp steady
          obtain ⟨r, returned, ⟨m', held⟩, exhausted⟩ := alloc_returns h first
          cases r with
          | none =>
              have := exhausted.mp rfl
              omega
          | some p =>
              rw [List.length_cons] at count
              obtain ⟨got, ran, all⟩ := ih held (by rw [taken, Multiset.card_cons]; omega)
                (by omega) others
              refine ⟨p :: got, ?_, ?_⟩
              · rcases outcome : alloc pool turns with ⟨r, pool', rest⟩
                simp only [outcome] at returned ran
                simp only [allocs, outcome, returned, ran, Option.map_eq_map, Option.map_some,
                  List.map_cons, List.cons_append]
              · rwa [taken, Multiset.add_cons, ← Multiset.cons_add, Multiset.cons_coe] at all

namespace World

/-- Worlds reached with every attempt on the block of one CPU. -/
inductive ReachedOn (region : Region) (frameSize numCpus cpu : Nat) : World M → Prop where
  | build {pool} : FramePool.build region frameSize numCpus = .ok pool →
      ReachedOn region frameSize numCpus cpu ⟨pool, [], []⟩
  | call {w w'} (call turns) : ReachedOn region frameSize numCpus cpu w → call.Legal w →
      (∀ turn ∈ turns, OnBlock numCpus cpu (some turn)) → w.exec turns call = some w' →
      ReachedOn region frameSize numCpus cpu w'

variable {region : Region} {frameSize : Nat} {w w' : World M}

theorem ReachedOn.reached (reached : ReachedOn region frameSize numCpus cpu w) :
    Reached region frameSize numCpus w := by
  induction reached with
  | build built => exact .build built
  | call call turns _ legal _ ran ih => exact .call call turns ih legal ran

omit [FrameMeta M] in
theorem onPool_alone {α : Type} {call : Prog Turn (FramePool M) α}
    {next : α → FramePool M → World M} {turns : List Turn}
    (spec : Under (OnBlock numCpus cpu) 0 (Alone numCpus cpu) call (fun _ => Alone numCpus cpu))
    (alone : Alone numCpus cpu w.pool) (onCpu : ∀ turn ∈ turns, OnBlock numCpus cpu (some turn))
    (same : ∀ a pool, (next a pool).pool = pool) (ran : w.onPool turns call next = some w') :
    Alone numCpus cpu w'.pool := by
  obtain ⟨_, -, -, ends⟩ := spec w.pool turns onCpu (.inl trivial) alone
  simp only [onPool] at ran
  rcases outcome : call w.pool turns with ⟨_ | a, pool, rest⟩ <;> simp only [outcome] at ran ends
  · cases ran
  · obtain rfl := Option.some.inj ran
    rw [same]
    exact ends a rfl

omit [FrameMeta M] in
theorem onCache_some {i : Nat} {next : FrameCache → Option (World M)}
    (ran : w.onCache i next = some w') : ∃ cache, next cache = some w' := by
  unfold onCache at ran
  split at ran
  · exact ⟨_, ran⟩
  · cases ran

theorem exec_alone (alone : Alone numCpus cpu w.pool) {call : Call M} {turns : List Turn}
    (onCpu : ∀ turn ∈ turns, OnBlock numCpus cpu (some turn)) (ran : w.exec turns call = some w') :
    Alone numCpus cpu w'.pool := by
  cases call with
  | alloc => exact onPool_alone alloc_stays alone onCpu (fun _ _ => rfl) ran
  | allocN k => exact onPool_alone (allocN_stays k) alone onCpu (fun _ _ => rfl) ran
  | free p => exact onPool_alone (free_stays p) alone onCpu (fun _ _ => rfl) ran
  | freeN frames =>
      exact onPool_alone (Under.uncounted trivial (Under.each free_stays frames)) alone onCpu
        (fun _ _ => rfl) ran
  | recycle p => exact onPool_alone (pushL2_stays p) alone onCpu (fun _ _ => rfl) ran
  | cache =>
      obtain rfl := Option.some.inj ran
      exact alone
  | cacheAlloc i =>
      obtain ⟨cache, ran⟩ := onCache_some ran
      exact onPool_alone (FrameCache.alloc_stays cache) alone onCpu (fun _ _ => rfl) ran
  | cacheFree i p =>
      obtain ⟨cache, ran⟩ := onCache_some ran
      exact onPool_alone (FrameCache.free_stays cache p) alone onCpu (fun _ _ => rfl) ran
  | cacheRecycle i p =>
      obtain ⟨cache, ran⟩ := onCache_some ran
      exact onPool_alone (FrameCache.recycle_stays cache p) alone onCpu (fun _ _ => rfl) ran
  | cacheDrop i =>
      obtain ⟨cache, ran⟩ := onCache_some ran
      exact onPool_alone (FrameCache.drop_stays cache) alone onCpu (fun _ _ => rfl) ran
  | touch p f =>
      obtain rfl := Option.some.inj ran
      exact { alone with }

theorem ReachedOn.alone (inside : cpu < numCpus)
    (reached : ReachedOn region frameSize numCpus cpu w) : Alone numCpus cpu w.pool := by
  induction reached with
  | build built =>
      unfold FramePool.build at built
      split at built
      · cases built
      · simp only at built
        split at built
        · cases built
        · cases built
          exact ⟨rfl, inside, fun _ _ => rfl⟩
  | call call turns _ _ onCpu ran ih => exact exec_alone ih onCpu ran

/-- Handed out, or in some magazine. -/
def Out (w : World M) (p : Nat) : Prop :=
  p ∈ w.handed ∨ ∃ cache ∈ w.caches, p ∈ cache.ptrs

/-- Handed out, or in a magazine other than the `i`-th. -/
def OutBut (w : World M) (i p : Nat) : Prop :=
  p ∈ w.handed ∨ ∃ j cache, j ≠ i ∧ w.caches[j]? = some cache ∧ p ∈ cache.ptrs

omit [FrameMeta M] in
theorem out_iff {p : Nat} : w.Out p ↔ p ∈ stored w.caches + (w.handed : Multiset Nat) := by
  simp only [Out, stored, Multiset.mem_add, Multiset.mem_coe, List.mem_flatMap, or_comm]

omit [FrameMeta M] in
theorem outBut_iff {i p : Nat} :
    w.OutBut i p ↔ p ∈ stored (w.caches.eraseIdx i) + (w.handed : Multiset Nat) := by
  simp only [OutBut, stored, Multiset.mem_add, Multiset.mem_coe, List.mem_flatMap,
    List.mem_eraseIdx_iff_getElem?]
  grind

/-- A pool used from one CPU refuses only what it does not have: `alloc` fails exactly when
    every frame is out, a batch gets all idle frames it has room for, a magazine fails exactly
    when it is empty and every frame is out elsewhere, and a pool that got everything back
    serves each of its frames once more before it first refuses. -/
theorem full_capacity (inside : cpu < numCpus)
    (reached : ReachedOn region frameSize numCpus cpu w) :
    (∀ turns, SteadyFor numCpus cpu batch turns → ∃ r, (FramePool.alloc w.pool turns).1 = some r ∧
      (r = none ↔ ∀ p ∈ frameAddresses region.base frameSize (region.len / frameSize), w.Out p)) ∧
    (∀ k turns, SteadyFor numCpus cpu (batch * k) turns →
      ∃ out, (FramePool.allocN k w.pool turns).1 = some out ∧
        out.length = min k (w.pool.central.length +
          ∑ cpu ∈ Finset.range numCpus, (w.pool.slab.stack cpu 0).slots.length)) ∧
    (∀ i cache turns, w.caches[i]? = some cache →
      SteadyFor numCpus cpu (batch * (frameMagCap / 2)) turns →
      ∃ r, (cache.alloc w.pool turns).1 = some r ∧
        (r.1 = none ↔ cache.ptrs = [] ∧
          ∀ p ∈ frameAddresses region.base frameSize (region.len / frameSize), w.OutBut i p)) ∧
    (w.handed = [] → w.caches = [] → ∀ schedules : List (List Turn),
      schedules.length = region.len / frameSize + 1 →
      (∀ turns ∈ schedules, SteadyFor numCpus cpu batch turns) →
      ∃ got : List Nat, allocs schedules w.pool = some (got.map some ++ [none]) ∧
        got.Perm (frameAddresses region.base frameSize (region.len / frameSize))) := by
  have alone := reached.alone inside
  obtain ⟨pow2, fit, m, lacks⟩ := reached.reached.kept (by omega)
  obtain ⟨shift, rfl⟩ : ∃ shift, frameSize = 2 ^ shift := ⟨_, pow2⟩
  rw [Nat.log2_two_pow] at lacks
  refine ⟨fun turns steady => ?_, fun k turns steady => ?_, fun i cache turns at_i steady => ?_,
    fun returned dropped schedules count steady => ?_⟩
  · obtain ⟨r, answered, -, exhausted⟩ := alloc_returns ⟨lacks, alone⟩ steady
    refine ⟨r, answered, ?_⟩
    rw [exhausted, lacks.missing_iff]
    simp only [out_iff]
  · obtain ⟨out, answered, length⟩ := Under.returns (allocN_takes k) (allocN_steady k) steady.2
      (.inr steady.1) lacks ⟨lacks, alone⟩
    refine ⟨out, answered, ?_⟩
    have total := lacks.total
    have cached : Multiset.card (w.pool.slab.cached 0) =
        ∑ cpu ∈ Finset.range numCpus, (w.pool.slab.stack cpu 0).slots.length := by
      simp only [SlabLayout.cached, alone.cpus, Multiset.card_sum, Multiset.coe_card]
    rw [cached] at total
    rw [length]
    congr 1
    omega
  · have apart : stored w.caches + (w.handed : Multiset Nat) = stored (w.caches.eraseIdx i) +
        (w.handed : Multiset Nat) + (cache.ptrs : Multiset Nat) := by
      rw [stored_get at_i, add_right_comm]
    rw [apart] at lacks
    obtain ⟨r, answered, exhausted⟩ := Under.returns
      (FrameCache.alloc_takes cache (fit cache (List.mem_of_getElem? at_i)))
      (FrameCache.alloc_steady cache) steady.2 (.inr steady.1) lacks ⟨lacks, alone⟩
    refine ⟨r, answered, exhausted.trans (and_congr_right fun empty => ?_)⟩
    simp only [outBut_iff]
    rw [empty, Multiset.coe_nil, add_zero] at lacks
    exact lacks.missing_iff
  · simp only [returned, dropped, stored, List.flatMap_nil, Multiset.coe_nil, add_zero] at lacks
    obtain ⟨got, ran, all⟩ := allocs_exhaust (region.len / 2 ^ shift) ⟨lacks, alone⟩ (by simp) count
      steady
    exact ⟨got, ran, Multiset.coe_eq_coe.mp (by simpa using all)⟩

/-- Two counted frames on one CPU: both are served, in whichever order the layers hold them,
    before a third request fails. -/
theorem full_capacity_two :
    ∃ (w : World RefCount) (got : List Nat),
      ReachedOn ⟨4096, 8192, by decide, by decide⟩ 4096 1 0 w ∧
      allocs (List.replicate 3 (List.replicate 32 ⟨0, 0, false⟩)) w.pool =
        some (got.map some ++ [none]) ∧ got.Perm [4096, 8192] := by
  have fresh : ReachedOn ⟨4096, 8192, by decide, by decide⟩ 4096 1 0 _ :=
    .build (M := RefCount) rfl
  have steady : SteadyFor 1 0 batch (List.replicate 32 ⟨0, 0, false⟩) :=
    ⟨by decide, fun turn member => by
      rw [List.eq_of_mem_replicate member]
      exact ⟨rfl, rfl⟩⟩
  obtain ⟨got, ran, all⟩ := (full_capacity (by decide) fresh).2.2.2 rfl rfl
    (List.replicate 3 (List.replicate 32 ⟨0, 0, false⟩)) rfl fun turns member => by
      rw [List.eq_of_mem_replicate member]
      exact steady
  exact ⟨_, got, fresh, ran, all⟩

end World

end FramePool

end Toccata
