import Toccata.Frame.Capacity
import Mathlib.Data.Nat.Log

/-! # Values in typed frames

A typed pool stores one value at the start of each frame. `configure` derives the frame
size from the item type; `configure_sized` takes whatever power of two the caller names,
and the first call to succeed wins. Nothing relates the item to the frames after that,
so whether the values fit is decided by the call that won and by where the reservation
was mapped.
-/

namespace Toccata

open Foundations

/-- Size and alignment of a type: the alignment is a power of two that divides the size,
    and no value exceeds `isize::MAX` bytes. -/
structure ItemLayout where
  size : Nat
  align : Nat
  pow2 : ∃ k, align = 2 ^ k
  padded : align ∣ size
  bounded : size < 2 ^ 63

namespace TypedPool

def nextPowerOfTwo (n : Nat) : Nat := 2 ^ Nat.clog 2 n

/-- The safe ways to configure a typed pool. -/
inductive Configure where
  | configure (nFrames : Nat)
  | configureSized (nFrames frameSize : Nat)
deriving Repr, DecidableEq

namespace Configure

def nFrames : Configure → Nat
  | configure n | configureSized n _ => n

def frameSize (item : ItemLayout) : Configure → Nat
  | configure _ => nextPowerOfTwo (max item.size 8)
  | configureSized _ frameSize => frameSize

end Configure

inductive ConfigureError where
  | pool (error : FramePoolError)
  | reserve
deriving Repr, DecidableEq

/-- The pool over a reservation of its own, which the system grants or refuses; `none` is
    a panic, on an overflowing product or an empty reservation. -/
def withReservation (numCpus nFrames frameSize : Nat) (mapped : Option Region) :
    Option (Except ConfigureError (FramePool RefCount)) :=
  if frameSize ≠ 2 ^ Nat.log2 frameSize then
    some (.error (.pool (.frameSizeNotPow2 frameSize)))
  else if 2 ^ 64 ≤ nFrames * frameSize then none
  else if nFrames * frameSize = 0 then none
  else
    match mapped with
    | none => some (.error .reserve)
    | some region =>
        match FramePool.build region frameSize numCpus with
        | .ok pool => some (.ok pool)
        | .error error => some (.error (.pool error))

/-- A call to configure, with the mapping the system answers it with. -/
structure Attempt where
  call : Configure
  mapped : Option Region

/-- Mappings start at a page and are no shorter than asked for. -/
def Attempt.Honest (item : ItemLayout) (a : Attempt) : Prop :=
  ∀ region, a.mapped = some region →
    4096 ∣ region.base ∧ a.call.nFrames * a.call.frameSize item ≤ region.len

def Attempt.build (item : ItemLayout) (numCpus : Nat) (a : Attempt) :
    Option (Except ConfigureError (FramePool RefCount)) :=
  withReservation numCpus a.call.nFrames (a.call.frameSize item) a.mapped

/-- A configured pool stays as it is; otherwise a pool that could be built is published. -/
def install (item : ItemLayout) (numCpus : Nat) (s : Option (FramePool.World RefCount))
    (a : Attempt) : Option (FramePool.World RefCount) :=
  match s with
  | some w => some w
  | none =>
      match a.build item numCpus with
      | some (.ok pool) => some ⟨pool, [], []⟩
      | _ => none

/-- What a typed pool can come to, after the attempts to configure it so far: any calls on
    the pool it got, in any order, between any attempts. -/
inductive Reached (item : ItemLayout) (numCpus : Nat) :
    List Attempt → Option (FramePool.World RefCount) → Prop where
  | start : Reached item numCpus [] none
  | configure {tried s} (a : Attempt) : Reached item numCpus tried s → a.Honest item →
      Reached item numCpus (tried ++ [a]) (install item numCpus s a)
  | call {tried w w'} (call turns) : Reached item numCpus tried (some w) → call.Legal w →
      w.exec turns call = some w' → Reached item numCpus tried (some w')

/-- The region and the frame size of an attempt that yields a pool. -/
def Attempt.accepted (item : ItemLayout) (numCpus : Nat) (a : Attempt) : Option (Region × Nat) :=
  match a.mapped, a.build item numCpus with
  | some region, some (.ok _) => some (region, a.call.frameSize item)
  | _, _ => none

/-- Each value in a frame that is out is aligned, ends within its frame and shares no byte
    with another. -/
def ValuesFit (item : ItemLayout) (w : FramePool.World RefCount) : Prop :=
  ∀ p ∈ w.handed, item.align ∣ p ∧
    (∃ i < w.pool.nFrames, p = w.pool.framesBase + i * 2 ^ w.pool.frameShift ∧
      p + item.size ≤ w.pool.framesBase + (i + 1) * 2 ^ w.pool.frameShift) ∧
    ∀ q ∈ w.handed, q ≠ p → p + item.size ≤ q ∨ q + item.size ≤ p

/-- The item fits the frames of the call that won: none is too small for it, and both the
    region and, if there are more frames than one, their size are multiples of its alignment. -/
def Suits (item : ItemLayout) (region : Region) (frameSize : Nat) : Prop :=
  item.size ≤ frameSize ∧ item.align ∣ region.base ∧
    (region.len / frameSize = 1 ∨ item.align ∣ frameSize)

open FramePool (World)

variable {item : ItemLayout} {numCpus frameSize : Nat} {region : Region}

/-! ## The call that wins -/

theorem Attempt.build_ok {a : Attempt} {pool : FramePool RefCount}
    (built : a.build item numCpus = some (.ok pool)) :
    ∃ region, a.mapped = some region ∧
      FramePool.build region (a.call.frameSize item) numCpus = .ok pool := by
  unfold Attempt.build withReservation at built
  split at built
  · cases built
  · split at built
    · cases built
    · split at built
      · cases built
      · split at built
        · cases built
        · rename_i region mapped
          split at built
          · rename_i pool' ok
            cases built
            exact ⟨region, mapped, ok⟩
          · cases built

theorem Attempt.accepted_some {a : Attempt}
    (accepted : a.accepted item numCpus = some (region, frameSize)) :
    ∃ pool, a.build item numCpus = some (.ok pool) ∧
      FramePool.build region frameSize numCpus = .ok pool := by
  unfold Attempt.accepted at accepted
  split at accepted
  · rename_i mapped pool maps built
    cases accepted
    obtain ⟨region', same, ok⟩ := Attempt.build_ok built
    rw [maps] at same
    cases same
    exact ⟨pool, built, ok⟩
  · cases accepted

theorem Attempt.accepted_none {a : Attempt} (refused : a.accepted item numCpus = none)
    (pool : FramePool RefCount) : a.build item numCpus ≠ some (.ok pool) := by
  intro built
  obtain ⟨region, maps, -⟩ := Attempt.build_ok built
  simp only [Attempt.accepted, maps, built] at refused
  cases refused

theorem install_refused {a : Attempt} (refused : a.accepted item numCpus = none) :
    install item numCpus none a = none := by
  simp only [install]
  split
  · rename_i pool built
    exact (Attempt.accepted_none refused pool built).elim
  · rfl

/-- The first accepted attempt decides which pool the type gets. -/
theorem Reached.winner {tried : List Attempt} {s : Option (World RefCount)}
    (reached : Reached item numCpus tried s) :
    (tried.findSome? (Attempt.accepted item numCpus) = none → s = none) ∧
    ∀ region frameSize, tried.findSome? (Attempt.accepted item numCpus) = some (region, frameSize) →
      ∃ w, s = some w ∧ World.Reached region frameSize numCpus w := by
  induction reached with
  | start => exact ⟨fun _ => rfl, fun _ _ won => nomatch won⟩
  | @configure tried s a _ _ ih =>
      rw [List.findSome?_append]
      cases first : tried.findSome? (Attempt.accepted item numCpus) with
      | none =>
          obtain rfl := ih.1 first
          simp only [Option.none_or, List.findSome?_singleton]
          refine ⟨install_refused, fun region frameSize won => ?_⟩
          obtain ⟨pool, built, ok⟩ := Attempt.accepted_some won
          exact ⟨⟨pool, [], []⟩, by simp only [install, built], .build ok⟩
      | some winner =>
          obtain ⟨w, rfl, _⟩ := ih.2 winner.1 winner.2 first
          simp only [Option.some_or]
          refine ⟨fun none => (nomatch none), fun region frameSize won => ?_⟩
          rw [← first] at won
          exact ih.2 region frameSize won
  | @call tried w w' call turns _ legal ran ih =>
      refine ⟨fun lost => ?_, fun region frameSize won => ?_⟩
      · exact (nomatch ih.1 lost)
      · obtain ⟨w₀, same, reached⟩ := ih.2 region frameSize won
        obtain rfl := Option.some.inj same
        exact ⟨w', rfl, .call call turns reached legal ran⟩

/-- The attempts alone leave the winner's fresh pool. -/
theorem reached_fresh (tried : List Attempt) (honest : ∀ a ∈ tried, a.Honest item) :
    (tried.findSome? (Attempt.accepted item numCpus) = none → Reached item numCpus tried none) ∧
    ∀ region frameSize, tried.findSome? (Attempt.accepted item numCpus) = some (region, frameSize) →
      ∃ pool, FramePool.build region frameSize numCpus = .ok pool ∧
        Reached item numCpus tried (some ⟨pool, [], []⟩) := by
  induction tried using List.reverseRecOn with
  | nil => exact ⟨fun _ => .start, fun _ _ won => nomatch won⟩
  | append_singleton before a ih =>
      obtain ⟨lost, won⟩ := ih fun b member => honest b (List.mem_append_left _ member)
      have step := fun s (reached : Reached item numCpus before s) =>
        Reached.configure a reached (honest a (by simp))
      rw [List.findSome?_append]
      cases first : before.findSome? (Attempt.accepted item numCpus) with
      | none =>
          simp only [Option.none_or, List.findSome?_singleton]
          refine ⟨fun refused => ?_, fun region frameSize accepted => ?_⟩
          · have reached := step none (lost first)
            rwa [install_refused refused] at reached
          · obtain ⟨pool, built, ok⟩ := Attempt.accepted_some accepted
            have reached := step none (lost first)
            simp only [install, built] at reached
            exact ⟨pool, ok, reached⟩
      | some winner =>
          simp only [Option.some_or]
          refine ⟨fun none => (nomatch none), fun region frameSize same => ?_⟩
          obtain ⟨pool, ok, reached⟩ := won region frameSize (first.trans same)
          exact ⟨pool, ok, step _ reached⟩

/-- Whatever the winner's pool can come to, the type can. -/
theorem reached_of_world {tried : List Attempt} (honest : ∀ a ∈ tried, a.Honest item)
    (won : tried.findSome? (Attempt.accepted item numCpus) = some (region, frameSize))
    {w : World RefCount} (reached : World.Reached region frameSize numCpus w) :
    Reached item numCpus tried (some w) := by
  induction reached with
  | @build pool ok =>
      obtain ⟨pool', ok', fresh⟩ := (reached_fresh tried honest).2 region frameSize won
      rw [ok] at ok'
      cases ok'
      exact fresh
  | call call turns _ legal ran ih => exact .call call turns ih legal ran

/-! ## Every frame can be out at once -/

open FramePool in
/-- Requests through one magazine get any number of frames there are. -/
theorem frames_out {M : Type} [FrameMeta M] (cpus : 0 < numCpus) {pool : FramePool M}
    (built : FramePool.build region frameSize numCpus = .ok pool) (k : Nat)
    (enough : k ≤ region.len / frameSize) :
    ∃ w : World M, World.ReachedOn region frameSize numCpus 0 w ∧
      w.caches.length = 1 ∧ w.handed.length = k := by
  induction k with
  | zero => exact ⟨_, .call .cache [] (.build built) trivial (by simp) rfl, rfl, rfl⟩
  | succ k ih =>
      obtain ⟨⟨pool, caches, handed⟩, reached, single, count⟩ := ih (by omega)
      obtain ⟨cache, rfl⟩ := List.length_eq_one_iff.mp single
      obtain ⟨-, fit, m, lacks⟩ := reached.reached.kept cpus
      have alone := reached.alone cpus
      rw [show World.stored [cache] = (cache.ptrs : Multiset Nat) by simp [World.stored],
        add_comm] at lacks
      -- the attempts of one CPU, none of them given up
      obtain ⟨turns, long, steady⟩ : ∃ turns, SteadyFor numCpus 0 (batch * (frameMagCap / 2)) turns := by
        refine ⟨List.replicate (batch * (frameMagCap / 2)) ⟨0, 0, false⟩, ?_, fun turn member => ?_⟩
        · rw [List.length_replicate]
        · rw [List.eq_of_mem_replicate member]
          exact ⟨if_pos cpus, rfl⟩
      obtain ⟨⟨r, cache'⟩, answered, found⟩ := Under.returns
        (FrameCache.alloc_takes cache (fit cache List.mem_cons_self))
        (FrameCache.alloc_steady cache) steady (.inr long) lacks ⟨lacks, alone⟩
      cases r with
      | none =>
          have all := (found.mp rfl).2
          rw [Multiset.coe_card] at all
          omega
      | some p =>
          rcases outcome : cache.alloc pool turns with ⟨r, pool', rest⟩
          simp only [outcome] at answered
          have ran : World.exec ⟨pool, [cache], handed⟩ turns (.cacheAlloc 0) =
              some ⟨pool', [cache'], p :: handed⟩ := by
            simp only [World.exec, World.onCache, World.onPool, List.getElem?_cons_zero, outcome,
              answered, List.set_cons_zero, Option.toList_some, List.singleton_append]
          refine ⟨_, .call (.cacheAlloc 0) _ reached Nat.zero_lt_one
            (fun turn member => (steady turn member).1) ran, rfl, ?_⟩
          rw [List.length_cons, count]

open FramePool in
/-- In some run all frames are out together. -/
theorem all_out {M : Type} [FrameMeta M] (cpus : 0 < numCpus) {pool : FramePool M}
    (built : FramePool.build region frameSize numCpus = .ok pool) :
    ∃ w : World M, World.Reached region frameSize numCpus w ∧
      ∀ i < region.len / frameSize, region.base + i * frameSize ∈ w.handed := by
  obtain ⟨w, reached, -, count⟩ := frames_out cpus built (region.len / frameSize) le_rfl
  obtain ⟨pow2, -, m, lacks⟩ := reached.reached.kept cpus
  have total := lacks.total
  rw [Multiset.card_add, Multiset.coe_card, count] at total
  have none : World.stored w.caches = 0 := Multiset.card_eq_zero.mp (by omega)
  rw [none, zero_add] at lacks
  refine ⟨w, reached.reached, fun i inside => ?_⟩
  have out := lacks.missing_iff.mp (by rw [Multiset.coe_card, count])
    (region.base + i * 2 ^ Nat.log2 frameSize) (mem_frameAddresses.mpr ⟨i, inside, rfl⟩)
  rw [← pow2] at out
  exact Multiset.mem_coe.mp out

/-! ## Values that fit -/

open FramePool in
/-- The frames that are out, in terms of the call that won. -/
theorem handed_frame (cpus : 0 < numCpus) {w : World RefCount}
    (reached : World.Reached region frameSize numCpus w) :
    w.pool.framesBase = region.base ∧ 2 ^ w.pool.frameShift = frameSize ∧
      w.pool.nFrames = region.len / frameSize ∧
      ∀ p ∈ w.handed, ∃ i < region.len / frameSize, p = region.base + i * frameSize := by
  obtain ⟨pow2, -, m, lacks⟩ := reached.kept cpus
  refine ⟨lacks.framesBase, by rw [lacks.frameShift, ← pow2], lacks.nFrames, fun p out => ?_⟩
  obtain ⟨i, inside, same⟩ := lacks.frame_of_missing
    (Multiset.mem_add.mpr (.inr (Multiset.mem_coe.mpr out)))
  rw [← pow2] at same
  exact ⟨i, inside, same⟩

theorem Suits.fit (suits : Suits item region frameSize) (cpus : 0 < numCpus) {w : World RefCount}
    (reached : World.Reached region frameSize numCpus w) : ValuesFit item w := by
  obtain ⟨small, base, frames⟩ := suits
  obtain ⟨atBase, size, count, frame⟩ := handed_frame cpus reached
  intro p out
  rw [atBase, size, count]
  obtain ⟨i, inside, rfl⟩ := frame p out
  refine ⟨?_, ⟨i, inside, rfl, ?_⟩, fun q out' different => ?_⟩
  · rcases frames with single | divides
    · obtain rfl : i = 0 := by omega
      simpa using base
    · exact Nat.dvd_add base (Dvd.dvd.mul_left divides i)
  · rw [Nat.add_one_mul]
    omega
  · obtain ⟨j, -, rfl⟩ := frame q out'
    rcases Nat.lt_or_gt_of_ne (fun same : i = j => different (by rw [same])) with less | more
    · have := Nat.mul_le_mul_right frameSize (Nat.succ_le_of_lt less)
      rw [Nat.succ_mul] at this
      omega
    · have := Nat.mul_le_mul_right frameSize (Nat.succ_le_of_lt more)
      rw [Nat.succ_mul] at this
      omega

theorem suits_of_fit (cpus : 0 < numCpus) {w : World RefCount}
    (reached : World.Reached region frameSize numCpus w) (some : 0 < region.len / frameSize)
    (out : ∀ i < region.len / frameSize, region.base + i * frameSize ∈ w.handed)
    (fit : ValuesFit item w) : Suits item region frameSize := by
  obtain ⟨atBase, size, -, -⟩ := handed_frame cpus reached
  have first := fit _ (out 0 some)
  simp only [Nat.zero_mul, Nat.add_zero] at first
  obtain ⟨aligned, ⟨i, -, same, ends⟩, -⟩ := first
  have positive : 0 < frameSize := by
    by_contra zero
    rw [Nat.eq_zero_of_not_pos zero, Nat.div_zero] at some
    omega
  rw [atBase, size] at same ends
  obtain rfl : i = 0 := by
    rcases Nat.eq_zero_or_pos i with zero | more
    · exact zero
    · have := Nat.mul_le_mul_right frameSize more
      omega
  refine ⟨by omega, aligned, ?_⟩
  rcases Nat.lt_or_ge 1 (region.len / frameSize) with more | single
  · have second := (fit _ (out 1 more)).1
    rw [Nat.one_mul] at second
    exact .inr ((Nat.dvd_add_right aligned).mp second)
  · exact .inl (by omega)

/-- Values fit in every run exactly when the item suits the frames of the call that won. -/
theorem values_fit_iff (cpus : 0 < numCpus) {tried : List Attempt}
    (honest : ∀ a ∈ tried, a.Honest item)
    (won : tried.findSome? (Attempt.accepted item numCpus) = some (region, frameSize)) :
    (∀ w, Reached item numCpus tried (some w) → ValuesFit item w) ↔
      Suits item region frameSize := by
  constructor
  · intro fit
    obtain ⟨pool, built, -⟩ := (reached_fresh tried honest).2 region frameSize won
    obtain ⟨w, reached, out⟩ := all_out cpus built
    refine suits_of_fit cpus reached ?_ out (fit w (reached_of_world honest won reached))
    unfold FramePool.build at built
    split at built
    · cases built
    · simp only at built
      split at built
      · cases built
      · rename_i enough
        exact Nat.pos_of_ne_zero enough
  · intro suits w reached
    obtain ⟨w', same, reached⟩ := reached.winner.2 region frameSize won
    cases same
    exact suits.fit cpus reached

/-- A sized item configured by its type fits wherever the region is aligned for it. -/
theorem configure_suits (sized : 0 < item.size) (nFrames : Nat)
    (aligned : item.align ∣ region.base) :
    Suits item region (Configure.frameSize item (.configure nFrames)) := by
  have room : item.size ≤ nextPowerOfTwo (max item.size 8) :=
    le_trans (le_max_left _ _) (Nat.le_pow_clog (by decide) _)
  obtain ⟨k, pow2⟩ := item.pow2
  refine ⟨room, aligned, .inr ?_⟩
  rw [pow2]
  apply Nat.pow_dvd_pow
  apply (Nat.pow_le_pow_iff_right (by decide : 1 < 2)).mp
  rw [← pow2]
  exact le_trans (Nat.le_of_dvd sized item.padded) room

/-- An item of sixteen bytes, aligned to its size. -/
def wide : ItemLayout := ⟨16, 16, ⟨4, rfl⟩, by decide, by decide⟩

/-- Two frames of a named size on a page of memory. -/
def sized (frameSize : Nat) (small : 4096 + 2 * frameSize ≤ 2 ^ 64) : Attempt :=
  ⟨.configureSized 2 frameSize, some ⟨4096, 2 * frameSize, by decide, small⟩⟩

theorem sized_honest (frameSize : Nat) (small : 4096 + 2 * frameSize ≤ 2 ^ 64) :
    ∀ a ∈ [sized frameSize small], a.Honest item := by
  intro a only region mapped
  obtain rfl := List.mem_singleton.mp only
  obtain rfl := Option.some.inj mapped
  exact ⟨⟨1, rfl⟩, le_rfl⟩

theorem values_fit_iff_wide : Suits wide ⟨4096, 32, by decide, by decide⟩ 16 ∧
    ∀ w, Reached wide 1 [sized 16 (by decide)] (some w) → ValuesFit wide w := by
  have suits : Suits wide ⟨4096, 32, by decide, by decide⟩ 16 :=
    ⟨le_rfl, ⟨256, rfl⟩, .inr (dvd_refl 16)⟩
  have won : [sized 16 (by decide)].findSome? (Attempt.accepted wide 1) =
      some (⟨4096, 32, by decide, by decide⟩, 16) := rfl
  exact ⟨suits, (values_fit_iff (by decide) (sized_honest 16 (by decide)) won).mpr suits⟩

/-- Frames of eight bytes: the first value stored takes the first frame and runs over the
    second. -/
theorem values_overrun :
    (∀ a ∈ [sized 8 (by decide)], a.Honest wide) ∧
    ∃ w, Reached wide 1 [sized 8 (by decide)] (some w) ∧
      w.handed = [4096] ∧ ¬ ValuesFit wide w := by
  have honest : ∀ a ∈ [sized 8 (by decide)], a.Honest wide := sized_honest 8 (by decide)
  have fresh : Reached wide 1 [sized 8 (by decide)] (some ⟨_, [], []⟩) :=
    Reached.configure (sized 8 (by decide)) .start (honest _ (.head _))
  have h₁ := Reached.call .cache [] fresh trivial rfl
  have h₂ := Reached.call (.cacheAlloc 0) (List.replicate 8 ⟨0, 0, false⟩) h₁ Nat.zero_lt_one rfl
  refine ⟨honest, _, h₂, rfl, fun fit => ?_⟩
  obtain ⟨-, ⟨i, -, same, ends⟩, -⟩ := fit 4096 (.head _)
  change 4096 = 4096 + i * 8 at same
  change 4096 + 16 ≤ 4096 + (i + 1) * 8 at ends
  omega

end TypedPool

end Toccata
