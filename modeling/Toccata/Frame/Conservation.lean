import Toccata.Frame
import Mathlib.Algebra.Order.Group.Multiset

/-! # Conservation of frames

Every frame is in the central stack, in one CPU's stack, in one magazine or out
with a caller. The pool's programs are specified by what is missing from it:
`Lacks m F` holds when exactly the frames `F` are somewhere else, and each program
says which frames it takes out and which it takes back.
-/

namespace Toccata

open Foundations

/-- The frames missing after a pop, out of `F` before it. -/
def Fast.taken : Fast Nat → Multiset Nat → Multiset Nat
  | .ok p, F => p ::ₘ F
  | .needsSlow, F => F

/-- The frames missing after a push of `p`, besides which `F` was missing. -/
def Fast.left (p : Nat) (F : Multiset Nat) : Fast Unit → Multiset Nat
  | .ok _ => F
  | .needsSlow => p ::ₘ F

/-- The frames missing after a reference to `p` was released. -/
def Reclaim.left (p : Nat) (F : Multiset Nat) : Reclaim → Multiset Nat
  | .free => F
  | .keep => p ::ₘ F

/-- The frames still handed out after the policy answered a release of `p`. -/
def settle (handed : List Nat) (p : Nat) : Reclaim → List Nat
  | .free => handed.erase p
  | .keep => handed

def settleAll : List Nat → List Nat → List Reclaim → List Nat
  | handed, p :: frames, answer :: answers => settleAll (settle handed p answer) frames answers
  | handed, _, _ => handed

namespace FramePool

variable {M : Type} {base shift n : Nat} {m : Slice M} {F : Multiset Nat}

/-- All frames but `F` are in the pool, every CPU is within its bound, and the
    metadata is `m`. -/
structure Lacks (base shift n : Nat) (m : Slice M) (F : Multiset Nat) (pool : FramePool M) :
    Prop where
  nonNull : 0 < base
  mapped : base + n * 2 ^ shift ≤ 2 ^ 64
  sized : m.len = n
  framesBase : pool.framesBase = base
  frameShift : pool.frameShift = shift
  nFrames : pool.nFrames = n
  metadata : pool.metadata = m
  cpus : 0 < pool.slab.numCpus
  single : pool.slab.slotsOffs = [slotsOff]
  apart : pool.slab.Apart
  bounded : ∀ cpu, (pool.slab.stack cpu 0).capacity = capPerCpu ∧
    (pool.slab.stack cpu 0).slots.length ≤ capPerCpu
  balance : (pool.central : Multiset Nat) + pool.slab.cached 0 + F =
    (frameAddresses base (2 ^ shift) n : Multiset Nat)

def taken : Option Nat → Multiset Nat → Multiset Nat
  | some p, F => p ::ₘ F
  | none, F => F

theorem mem_frameAddresses {p : Nat} :
    p ∈ frameAddresses base (2 ^ shift) n ↔ ∃ i < n, p = base + i * 2 ^ shift := by
  simp only [frameAddresses, List.mem_map, List.mem_range]
  exact ⟨fun ⟨i, lt, same⟩ => ⟨i, lt, same.symm⟩, fun ⟨i, lt, same⟩ => ⟨i, lt, same.symm⟩⟩

theorem frameAddresses_nodup : (frameAddresses base (2 ^ shift) n).Nodup := by
  refine List.Nodup.map ?_ List.nodup_range
  intro i j same
  exact Nat.eq_of_mul_eq_mul_right (Nat.two_pow_pos shift) (Nat.add_left_cancel same)

namespace Lacks

variable {pool : FramePool M}

theorem frame_of_missing (h : Lacks base shift n m F pool) {p : Nat} (missing : p ∈ F) :
    ∃ i < n, p = base + i * 2 ^ shift := by
  have all : p ∈ (frameAddresses base (2 ^ shift) n : Multiset Nat) := by
    rw [← h.balance]
    exact Multiset.mem_add.mpr (.inr missing)
  exact mem_frameAddresses.mp (Multiset.mem_coe.mp all)

theorem frame_of_cached (h : Lacks base shift n m F pool) {p : Nat}
    (cached : p ∈ pool.slab.cached 0) : ∃ i < n, p = base + i * 2 ^ shift := by
  have all : p ∈ (frameAddresses base (2 ^ shift) n : Multiset Nat) := by
    rw [← h.balance]
    exact Multiset.mem_add.mpr (.inl (Multiset.mem_add.mpr (.inr cached)))
  exact mem_frameAddresses.mp (Multiset.mem_coe.mp all)

/-- Missing frames leave room in the central stack. -/
theorem central_room (h : Lacks base shift n m F pool) :
    pool.central.length + Multiset.card F ≤ n := by
  have sizes := congrArg Multiset.card h.balance
  simp only [Multiset.card_add, Multiset.coe_card, frameAddresses, List.length_map,
    List.length_range] at sizes
  omega

theorem indexOf_frame (h : Lacks base shift n m F pool) {i : Nat} (inside : i < n) :
    pool.indexOf (base + i * 2 ^ shift) = i := by
  have := h.mapped
  have below : i * 2 ^ shift < n * 2 ^ shift :=
    Nat.mul_lt_mul_of_pos_right inside (Nat.two_pow_pos shift)
  simp only [indexOf, h.framesBase, h.frameShift]
  rw [show base + i * 2 ^ shift + 2 ^ 64 - base = i * 2 ^ shift + 2 ^ 64 by omega,
    Nat.add_mod_right, Nat.mod_eq_of_lt (by omega), Nat.mul_div_cancel _ (Nat.two_pow_pos shift)]

end Lacks

/-! ## Moves between the layers -/

theorem centralPush_returns (p : Nat) :
    Triple (Lacks base shift n m (p ::ₘ F)) (centralPush p) (fun _ => Lacks base shift n m F)
      (fun _ => False) := by
  refine Triple.update fun pool h => ?_
  have room := h.central_room
  rw [Multiset.card_cons] at room
  refine ⟨_, if_pos (by rw [h.nFrames]; omega), { h with balance := ?_ }⟩
  rw [← h.balance, ← Multiset.cons_coe, Multiset.add_cons, Multiset.cons_add, Multiset.cons_add]

theorem centralPop_takes :
    Triple (Lacks base shift n m F) centralPop (fun r => Lacks base shift n m (taken r F))
      (fun _ => False) := by
  refine Triple.inspect fun pool h => ?_
  cases top : pool.central with
  | nil => exact Triple.ret _ fun _ same => same ▸ h
  | cons p rest =>
      refine Triple.bind (Triple.modify fun _ same => ?_) fun _ => Triple.ret _ fun _ kept => kept
      subst same
      refine { h with balance := ?_ }
      rw [← h.balance, top, ← Multiset.cons_coe, taken, Multiset.add_cons, Multiset.cons_add,
        Multiset.cons_add]

theorem slabPop_takes :
    Triple (Lacks base shift n m F) slabPop (fun r => Lacks base shift n m (r.taken F))
      (fun _ => False) := by
  refine Triple.bind (Triple.ask fun _ _ h => h) fun turn => Triple.inspect fun pool h => ?_
  refine Triple.bind (Triple.modify fun _ same => ?_) fun _ => Triple.ret _ fun _ kept => kept
  subst same
  rcases SlabLayout.pop_cases h.cpus 0 turn with stays | ⟨cpu, p, rest, inside, top, takes⟩
  · rw [stays]
    exact h
  · have out := SlabLayout.cached_of_pop inside top
    have proper : p ≠ 0 := by
      obtain ⟨i, -, rfl⟩ := h.frame_of_cached (out ▸ Multiset.mem_cons_self p _)
      have := h.nonNull
      omega
    rw [takes, if_neg proper]
    refine { h with apart := h.apart.pop top, bounded := ?_, balance := ?_ }
    · intro cpu'
      by_cases same : cpu' = cpu
      · subst same
        have := h.bounded cpu'
        rw [top, List.length_cons] at this
        simp only [SlabLayout.put_stack_same]
        omega
      · rw [SlabLayout.put_stack_other fun both => same both.1]
        exact h.bounded cpu'
    · rw [← h.balance, out, Fast.taken, Multiset.add_cons, Multiset.add_cons, Multiset.cons_add]

theorem slabPush_returns (p : Nat) :
    Triple (Lacks base shift n m (p ::ₘ F)) (slabPush p)
      (fun r => Lacks base shift n m (Fast.left p F r)) (fun _ => False) := by
  refine Triple.bind (Triple.ask fun _ _ h => h) fun turn => Triple.inspect fun pool h => ?_
  have isClass : 0 < pool.slab.slotsOffs.length := by
    rw [h.single]
    exact Nat.zero_lt_one
  refine Triple.bind (Triple.modify fun _ same => ?_) fun _ => Triple.ret _ fun _ kept => kept
  subst same
  rcases SlabLayout.push_cases h.cpus h.apart isClass p turn with stays | ⟨cpu, inside, room, puts⟩
  · rw [stays]
    exact h
  · rw [puts]
    refine { h with apart := h.apart.put room, bounded := ?_, balance := ?_ }
    · intro cpu'
      by_cases same : cpu' = cpu
      · subst same
        have := h.bounded cpu'
        simp only [SlabLayout.put_stack_same, List.length_cons]
        omega
      · rw [SlabLayout.put_stack_other fun both => same both.1]
        exact h.bounded cpu'
    · rw [← h.balance, SlabLayout.cached_of_push p inside, Fast.left, Multiset.add_cons,
        Multiset.add_cons, Multiset.cons_add]

/-! ## The per-CPU layer -/

theorem refill_takes :
    Triple (Lacks base shift n m F) refill (fun r => Lacks base shift n m (taken r F))
      (fun _ => False) := by
  refine Triple.bind centralPop_takes fun handed => ?_
  cases handed with
  | none => exact Triple.ret _ fun _ h => h
  | some handed =>
      refine Triple.bind (Triple.upTo _ ?_) fun _ => Triple.ret _ fun _ h => h
      refine Triple.bind centralPop_takes fun r => ?_
      cases r with
      | none => exact Triple.ret _ fun _ h => h
      | some p =>
          refine Triple.bind (slabPush_returns p) fun pushed => ?_
          cases pushed with
          | ok => exact Triple.ret _ fun _ h => h
          | needsSlow => exact Triple.bind (centralPush_returns p) fun _ => Triple.ret _ fun _ h => h

theorem popL2_takes :
    Triple (Lacks base shift n m F) popL2 (fun r => Lacks base shift n m (taken r F))
      (fun _ => False) := by
  refine Triple.bind slabPop_takes fun r => ?_
  cases r with
  | ok p => exact Triple.ret _ fun _ h => h
  | needsSlow => exact refill_takes

theorem drain_returns (p : Nat) :
    Triple (Lacks base shift n m (p ::ₘ F)) (drain p) (fun _ => Lacks base shift n m F)
      (fun _ => False) := by
  refine Triple.bind (Triple.upTo _ ?_) fun _ => Triple.bind (slabPush_returns p) fun r => ?_
  · refine Triple.bind slabPop_takes fun r => ?_
    cases r with
    | ok q => exact Triple.bind (centralPush_returns q) fun _ => Triple.ret _ fun _ h => h
    | needsSlow => exact Triple.ret _ fun _ h => h
  · cases r with
    | ok => exact Triple.ret _ fun _ h => h
    | needsSlow => exact centralPush_returns p

theorem pushL2_returns (p : Nat) :
    Triple (Lacks base shift n m (p ::ₘ F)) (pushL2 p) (fun _ => Lacks base shift n m F)
      (fun _ => False) := by
  refine Triple.bind (slabPush_returns p) fun r => ?_
  cases r with
  | ok => exact Triple.ret _ fun _ h => h
  | needsSlow => exact drain_returns p

/-! ## Calls on the pool -/

/-- The metadata slot of an address. -/
def slot (base shift p : Nat) : Nat := (p + 2 ^ 64 - base) % 2 ^ 64 / 2 ^ shift

namespace Lacks

variable {pool : FramePool M}

theorem indexOf_slot (h : Lacks base shift n m F pool) : pool.indexOf = slot base shift := by
  funext p
  simp only [indexOf, slot, h.framesBase, h.frameShift]

theorem slot_lt (h : Lacks base shift n m F pool) {p : Nat} (missing : p ∈ F) :
    slot base shift p < n := by
  obtain ⟨i, inside, rfl⟩ := h.frame_of_missing missing
  rw [← h.indexOf_slot, h.indexOf_frame inside]
  exact inside

/-- Metadata may change behind the frames' back. -/
theorem mark (h : Lacks base shift n m F pool) (i : Nat) (v : M) :
    Lacks base shift n (m.put i v) F { pool with metadata := m.put i v } :=
  { h with metadata := rfl, sized := h.sized }

end Lacks

theorem held_apart {p : Nat} {handed : List Nat} (member : p ∈ handed) (F : Multiset Nat) :
    F + (handed : Multiset Nat) = p ::ₘ (F + (handed.erase p : Multiset Nat)) := by
  rw [← Multiset.add_cons, Multiset.cons_coe,
    Multiset.coe_eq_coe.mpr (List.perm_cons_erase member)]

variable [FrameMeta M]

theorem metaAlloc_marks {p : Nat} (missing : p ∈ F) :
    Triple (Lacks base shift n m F) (metaAlloc p)
      (fun _ pool => ∃ m', Lacks base shift n m' F pool) (fun _ => False) := by
  refine Triple.update fun pool h => ?_
  have inside : slot base shift p < m.len := h.sized ▸ h.slot_lt missing
  rw [h.indexOf_slot, h.metadata, Slice.get?_inside inside]
  exact ⟨_, rfl, _, h.mark _ _⟩

theorem metaFree_asks {p : Nat} (missing : p ∈ F) :
    Triple (Lacks base shift n m F) (metaFree p)
      (fun r pool => r = (FrameMeta.onFree (m.cell (slot base shift p))).2 ∧
        Lacks base shift n
          (m.put (slot base shift p) (FrameMeta.onFree (m.cell (slot base shift p))).1) F pool)
      (fun _ => False) := by
  refine Triple.inspect fun pool h => Triple.inspect fun _ same => ?_
  subst same
  have inside : slot base shift p < m.len := h.sized ▸ h.slot_lt missing
  rw [h.indexOf_slot, h.metadata, Slice.get?_inside inside]
  refine Triple.bind (Triple.modify fun _ same => ?_) fun _ => Triple.ret _ fun _ kept => ⟨rfl, kept⟩
  subst same
  rw [h.indexOf_slot, h.metadata]
  exact h.mark _ _

theorem alloc_takes :
    Triple (Lacks base shift n m F) alloc (fun r pool => ∃ m', Lacks base shift n m' (taken r F) pool)
      (fun _ => False) := by
  refine Triple.bind popL2_takes fun r => ?_
  cases r with
  | none => exact Triple.ret _ fun _ h => ⟨m, h⟩
  | some p =>
      exact Triple.bind (metaAlloc_marks (Multiset.mem_cons_self p F)) fun _ =>
        Triple.ret _ fun _ h => h

theorem allocN_takes (k : Nat) :
    Triple (Lacks base shift n m F) (allocN k)
      (fun frames pool => ∃ m', Lacks base shift n m' ((frames : Multiset Nat) + F) pool)
      (fun _ => False) := by
  refine Triple.strengthen (Triple.loop (I := fun _ (out : List Nat) pool =>
    ∃ m', Lacks base shift n m' ((out : Multiset Nat) + F) pool) (fun _ out => ?_)
    (fun _ _ h => h) k []) fun _ h => ⟨m, by simpa using h⟩
  refine Triple.choose fun m' => Triple.bind popL2_takes fun r => ?_
  cases r with
  | none => exact Triple.ret _ fun _ h => ⟨m', h⟩
  | some p =>
      refine Triple.bind (metaAlloc_marks (Multiset.mem_cons_self p _)) fun _ =>
        Triple.ret _ fun _ ⟨m'', h⟩ => ⟨m'', ?_⟩
      rwa [← Multiset.coe_add, Multiset.coe_singleton, add_right_comm, add_comm,
        Multiset.singleton_add]

theorem free_releases (p : Nat) :
    Triple (Lacks base shift n m (p ::ₘ F)) (free p)
      (fun r pool => r = (FrameMeta.onFree (m.cell (slot base shift p))).2 ∧
        Lacks base shift n
          (m.put (slot base shift p) (FrameMeta.onFree (m.cell (slot base shift p))).1)
          (Reclaim.left p F r) pool)
      (fun _ => False) := by
  refine Triple.bind (metaFree_asks (Multiset.mem_cons_self p F)) fun r => ?_
  cases r with
  | keep => exact Triple.ret _ fun _ h => h
  | free =>
      refine Triple.lift fun answered => ?_
      exact Triple.bind (pushL2_returns p) fun _ => Triple.ret _ fun _ h => ⟨answered, h⟩

/-- Each frame of a batch is still handed out when its turn to be released comes:
    earlier entries of the batch may have been the same frame. -/
def HeldInTurn (index : Nat → Nat) : List Nat → Slice M → List Nat → Prop
  | [], _, _ => True
  | p :: frames, m, handed =>
      p ∈ handed ∧
      HeldInTurn index frames (m.put (index p) (FrameMeta.onFree (m.cell (index p))).1)
        (settle handed p (FrameMeta.onFree (m.cell (index p))).2)

theorem freeN_releases (frames handed : List Nat)
    (held : HeldInTurn (slot base shift) frames m handed) :
    Triple (Lacks base shift n m (F + (handed : Multiset Nat))) (freeN frames)
      (fun answers pool => ∃ m', Lacks base shift n m'
        (F + (settleAll handed frames answers : Multiset Nat)) pool)
      (fun _ => False) := by
  unfold freeN
  induction frames generalizing m handed with
  | nil => exact Triple.each_nil fun _ h => ⟨m, h⟩
  | cons p frames ih =>
      obtain ⟨member, later⟩ := held
      rw [held_apart member]
      refine Triple.each_cons (free_releases p) fun answer => Triple.lift fun answered => ?_
      rw [← answered] at later
      refine Triple.strengthen (ih _ later) fun pool h => ?_
      cases answer with
      | free => exact h
      | keep => rwa [settle, held_apart member]

end FramePool

/-! ## Calls on a magazine -/

namespace FrameCache

open FramePool

variable {M : Type} {base shift n : Nat} {m : Slice M} {F : Multiset Nat}

theorem fetch_takes (k : Nat) (ptrs : List Nat) :
    Triple (fun pool => ptrs.length + k ≤ frameMagCap / 2 ∧
        Lacks base shift n m (F + (ptrs : Multiset Nat)) pool) (fetch k ptrs)
      (fun ptrs' pool => ptrs'.length ≤ frameMagCap / 2 ∧
        Lacks base shift n m (F + (ptrs' : Multiset Nat)) pool) (fun _ => False) := by
  refine Triple.loop (I := fun k (ptrs : List Nat) pool => ptrs.length + k ≤ frameMagCap / 2 ∧
    Lacks base shift n m (F + (ptrs : Multiset Nat)) pool) (fun k ptrs => ?_)
    (fun _ _ h => h) k ptrs
  refine Triple.lift fun short => Triple.bind popL2_takes fun r => ?_
  cases r with
  | none => exact Triple.ret _ fun _ h => ⟨by omega, h⟩
  | some p =>
      refine Triple.ret _ fun _ h => ⟨by rw [List.length_cons]; omega, ?_⟩
      rwa [← Multiset.cons_coe, Multiset.add_cons]

theorem flush_returns (k : Nat) (ptrs : List Nat) :
    Triple (fun pool => k ≤ ptrs.length ∧ Lacks base shift n m (F + (ptrs : Multiset Nat)) pool)
      (flush k ptrs)
      (fun ptrs' pool => ptrs'.length + k = ptrs.length ∧
        Lacks base shift n m (F + (ptrs' : Multiset Nat)) pool) (fun _ => False) := by
  refine Triple.strengthen (Triple.loop (I := fun j (ptrs' : List Nat) pool =>
      j ≤ ptrs'.length ∧ ptrs'.length + k = ptrs.length + j ∧
        Lacks base shift n m (F + (ptrs' : Multiset Nat)) pool) (fun j ptrs' => ?_)
    (fun _ _ h => h.2) k ptrs) fun pool h => ⟨h.1, rfl, h.2⟩
  refine Triple.lift fun enough => Triple.lift fun count => ?_
  cases ptrs' with
  | nil => simp at enough
  | cons p rest =>
      rw [← Multiset.cons_coe, Multiset.add_cons]
      rw [List.length_cons] at enough count
      exact Triple.bind (pushL2_returns p) fun _ => Triple.ret _ fun _ h => ⟨by omega, by omega, h⟩

theorem recycle_returns (cache : FrameCache) (p : Nat) (fits : cache.ptrs.length ≤ frameMagCap) :
    Triple (Lacks base shift n m (p ::ₘ (F + (cache.ptrs : Multiset Nat)))) (cache.recycle p)
      (fun cache' pool => cache'.ptrs.length ≤ frameMagCap ∧
        Lacks base shift n m (F + (cache'.ptrs : Multiset Nat)) pool) (fun _ => False) := by
  refine Triple.ite (fun room => ?_) (fun full => ?_)
  · refine Triple.ret _ fun _ h => ⟨room, ?_⟩
    rwa [← Multiset.cons_coe, Multiset.add_cons]
  · rw [← Multiset.cons_add]
    refine Triple.bind (Triple.strengthen (flush_returns (frameMagCap / 2) cache.ptrs)
      fun pool h => ⟨by omega, h⟩) fun ptrs => Triple.lift fun count => ?_
    have half : ptrs.length < frameMagCap := by
      simp only [frameMagCap] at count fits ⊢
      omega
    refine Triple.ite (fun _ => Triple.ret _ fun _ h => ⟨half, ?_⟩) (fun full' => (full' half).elim)
    rwa [← Multiset.cons_coe, Multiset.add_cons, ← Multiset.cons_add]

theorem drop_returns (cache : FrameCache) :
    Triple (Lacks base shift n m (F + (cache.ptrs : Multiset Nat))) cache.drop
      (fun _ => Lacks base shift n m F) (fun _ => False) := by
  refine Triple.bind (Triple.strengthen (flush_returns cache.ptrs.length cache.ptrs)
    fun pool h => ⟨le_rfl, h⟩) fun ptrs => Triple.ret _ fun _ h => ?_
  have none : ptrs = [] := List.length_eq_zero_iff.mp (by omega)
  simpa only [none, Multiset.coe_nil, add_zero] using h.2

theorem refill_takes (cache : FrameCache) (low : cache.ptrs.length ≤ frameMagCap / 2) :
    Triple (Lacks base shift n m (F + (cache.ptrs : Multiset Nat))) cache.refill
      (fun r pool => r.2.ptrs.length ≤ frameMagCap ∧
        Lacks base shift n m (taken r.1 (F + (r.2.ptrs : Multiset Nat))) pool) (fun _ => False) := by
  refine Triple.bind (Triple.strengthen (fetch_takes _ cache.ptrs) fun pool h =>
    ⟨by omega, h⟩) fun ptrs => Triple.lift fun short => ?_
  cases ptrs with
  | nil => exact Triple.ret _ fun _ h => ⟨Nat.zero_le _, h⟩
  | cons p rest =>
      refine Triple.ret _ fun _ h => ⟨?_, ?_⟩
      · simp only [frameMagCap, List.length_cons] at short ⊢
        omega
      · rwa [taken, ← Multiset.add_cons, Multiset.cons_coe]

variable [FrameMeta M]

theorem alloc_takes (cache : FrameCache) (fits : cache.ptrs.length ≤ frameMagCap) :
    Triple (Lacks base shift n m (F + (cache.ptrs : Multiset Nat))) cache.alloc
      (fun r pool => r.2.ptrs.length ≤ frameMagCap ∧
        ∃ m', Lacks base shift n m' (taken r.1 (F + (r.2.ptrs : Multiset Nat))) pool)
      (fun _ => False) := by
  rcases cache with ⟨_ | ⟨p, rest⟩⟩
  · refine Triple.bind (refill_takes ⟨[]⟩ (Nat.zero_le _)) fun r => Triple.lift fun fits' => ?_
    rcases r with ⟨_ | p, cache'⟩
    · exact Triple.ret _ fun _ h => ⟨fits', m, h⟩
    · exact Triple.bind (metaAlloc_marks (Multiset.mem_cons_self p _)) fun _ =>
        Triple.ret _ fun _ h => ⟨fits', h⟩
  · rw [← Multiset.cons_coe, Multiset.add_cons]
    rw [List.length_cons] at fits
    exact Triple.bind (metaAlloc_marks (Multiset.mem_cons_self p _)) fun _ =>
      Triple.ret _ fun _ h => ⟨by simp only; omega, h⟩

theorem free_releases (cache : FrameCache) (p : Nat) (fits : cache.ptrs.length ≤ frameMagCap) :
    Triple (Lacks base shift n m (p ::ₘ (F + (cache.ptrs : Multiset Nat)))) (cache.free p)
      (fun r pool => r.2.ptrs.length ≤ frameMagCap ∧
        ∃ m', Lacks base shift n m' (Reclaim.left p (F + (r.2.ptrs : Multiset Nat)) r.1) pool)
      (fun _ => False) := by
  refine Triple.bind (metaFree_asks (Multiset.mem_cons_self p _)) fun answer =>
    Triple.lift fun _ => ?_
  cases answer with
  | keep => exact Triple.ret _ fun _ h => ⟨fits, _, h⟩
  | free =>
      exact Triple.bind (recycle_returns cache p fits) fun cache' => Triple.ret _ fun _ h =>
        ⟨h.1, _, h.2⟩

end FrameCache

end Toccata
