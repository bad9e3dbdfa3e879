import Toccata.Foundations.Word

/-! # Reservations

`Reservation::reserve_with` maps a region, asks for huge pages, faults it in and locks
it. Every one of these may fail, and those asked for as best effort fail quietly. The
calls it makes are recorded in order with the kernel's answers. A zero length is asserted
against; notices on stderr are left out.
-/

namespace Toccata

open Foundations

/-- A capability that can be demanded, attempted or skipped. -/
inductive Require (α : Type) where
  | off
  | bestEffort (a : α)
  | required (a : α)
deriving Repr, DecidableEq

namespace Require

variable {α : Type}

def value : Require α → Option α
  | .off => none
  | .bestEffort a | .required a => some a

def isRequired : Require α → Bool
  | .required _ => true
  | _ => false

def isOff : Require α → Bool
  | .off => true
  | _ => false

end Require

inductive HugePages where
  | default
  | size (n : Nat)
deriving Repr, DecidableEq

structure ReserveOpts where
  len : Nat
  lock : Require Unit
  hugePages : Require HugePages
  populate : Bool
  dontdump : Bool
deriving Repr, DecidableEq

/-- The defaults: populated, locked, kept out of core dumps. -/
def ReserveOpts.new (len : Nat) : ReserveOpts := ⟨len, .required (), .off, true, true⟩

inductive ReserveError where
  | mmap
  | mlock (limit requested : Nat)
  | rlimitTooLow (limit requested : Nat)
  | invalidConfig (why : String)
deriving Repr, DecidableEq

structure Reservation where
  base : Nat
  len : Nat
  locked : Bool
  hugePageSize : Option Nat
deriving Repr, DecidableEq

/-! ## The kernel -/

/-- Flags of an anonymous mapping: the huge-page size as a power of two, if pages are to
    be huge, and whether to populate. -/
structure MapFlags where
  hugeShift : Option Nat
  populate : Bool
deriving Repr, DecidableEq

inductive Advice where
  | hugePage
  | willNeed
  | dontDump
deriving Repr, DecidableEq

inductive Syscall where
  | mmap (len : Nat) (flags : MapFlags) (result : Option Nat)
  | madvise (base len : Nat) (advice : Advice)
  | mlock2 (base len : Nat) (ok : Bool)
  | munmap (base len : Nat)
deriving Repr, DecidableEq

/-- How the kernel answers: the limit on locked memory, the default size of huge pages
    in `/proc/meminfo`, and what mappings and locks succeed. No mapping is at null or of
    no bytes, and huge pages have powers of two as sizes. -/
structure Kernel where
  memlockLimit : Nat
  defaultHugePageSize : Option Nat
  mmap : Nat → MapFlags → Option Nat
  mlock2 : Nat → Nat → Bool
  nonNull : ∀ len flags, mmap len flags ≠ some 0
  nonEmpty : ∀ flags, mmap 0 flags = none
  powerOfTwo : ∀ size, defaultHugePageSize = some size → ∃ k < 64, size = 2 ^ k

/-- What a call does to the mappings in place. -/
def Syscall.track (mapped : List (Nat × Nat)) : Syscall → List (Nat × Nat)
  | .mmap len _ (some base) => (base, len) :: mapped
  | .munmap base len => mapped.erase (base, len)
  | _ => mapped

/-- The mappings calls have left in place. -/
def live (calls : List Syscall) : List (Nat × Nat) := calls.foldl Syscall.track []

/-- A call that faults in all of a range. -/
def Syscall.faults (base len : Nat) : Syscall → Bool
  | .mmap len' flags (some base') => base' = base && len' = len && flags.populate
  | .madvise base' len' .willNeed => base' = base && len' = len
  | .mlock2 base' len' true => base' = base && len' = len
  | _ => false

namespace Reservation

variable (k : Kernel) (opts : ReserveOpts)

def resolveHugePages : HugePages → Except String Nat
  | .size n => if n ≠ 2 ^ Nat.log2 n then .error "huge page size must be a power of two" else .ok n
  | .default =>
      match k.defaultHugePageSize with
      | some size => .ok size
      | none => .error "could not determine the default huge page size"

/-- The length to map, and the huge-page size, if any. -/
structure Plan where
  mapLen : Nat
  hugePageSize : Option Nat
deriving Repr, DecidableEq

/-- Base pages at the length asked for. -/
def basePages : Plan := ⟨opts.len, none⟩

/-- Huge pages come first, since the lock is charged for the rounded length. -/
def resolve : Except ReserveError Plan :=
  match opts.hugePages.value with
  | none => .ok (basePages opts)
  | some h =>
      match resolveHugePages k h with
      | .ok size => .ok ⟨wrap64 ((opts.len + (size - 1)) / size * size), some size⟩
      | .error why => if opts.hugePages.isRequired then .error (.invalidConfig why) else .ok (basePages opts)

/-- The limit rules out a lock that is demanded. -/
def limited (mapLen : Nat) : Bool :=
  !opts.lock.isOff && k.memlockLimit < mapLen && k.memlockLimit ≠ 2 ^ 64 - 1 && opts.lock.isRequired

/-- Only explicit huge pages are populated by the mapping itself. -/
def flagsFor (plan : Plan) : MapFlags :=
  ⟨plan.hugePageSize.map (Nat.log2 · % 64), opts.populate && plan.hugePageSize.isSome⟩

/-- The mapping, with a second attempt at base pages. -/
def mapRegion (plan : Plan) : Option (Nat × Plan) × List Syscall :=
  let base := k.mmap plan.mapLen (flagsFor opts plan)
  let first := Syscall.mmap plan.mapLen (flagsFor opts plan) base
  if base.isNone && plan.hugePageSize.isSome && !opts.hugePages.isRequired then
    let base := k.mmap opts.len ⟨none, false⟩
    (base.map (·, basePages opts), [first, .mmap opts.len ⟨none, false⟩ base])
  else
    (base.map (·, plan), [first])

/-- The hint for transparent huge pages, and the fault-in that goes with it when no lock
    is to follow. -/
def advise (thp : Bool) (base mapLen : Nat) : List Syscall :=
  if thp then
    .madvise base mapLen .hugePage ::
      if opts.populate && opts.lock.isOff then [.madvise base mapLen .willNeed] else []
  else []

def lockRegion (base mapLen : Nat) : Except ReserveError Bool × List Syscall :=
  if opts.lock.isOff then (.ok false, [])
  else if k.mlock2 base mapLen then (.ok true, [.mlock2 base mapLen true])
  else if opts.lock.isRequired then
    (.error (.mlock k.memlockLimit mapLen), [.mlock2 base mapLen false, .munmap base mapLen])
  else (.ok false, [.mlock2 base mapLen false])

/-- What follows the mapping. -/
def finish (thp : Bool) (base : Nat) (plan : Plan) (calls : List Syscall) :
    Except ReserveError Reservation × List Syscall :=
  let calls := calls ++ advise opts thp base plan.mapLen
  match lockRegion k opts base plan.mapLen with
  | (.error e, more) => (.error e, calls ++ more)
  | (.ok locked, more) =>
      let last := if opts.dontdump then [.madvise base plan.mapLen .dontDump] else []
      (.ok ⟨base, plan.mapLen, locked, plan.hugePageSize⟩, calls ++ more ++ last)

def reserveWith : Except ReserveError Reservation × List Syscall :=
  match resolve k opts with
  | .error e => (.error e, [])
  | .ok plan =>
      if limited k opts plan.mapLen then (.error (.rlimitTooLow k.memlockLimit plan.mapLen), []) else
        -- decided before the mapping, and not again when it falls back
        let thp := plan.hugePageSize.isNone
        match mapRegion k opts plan with
        | (none, calls) => (.error .mmap, calls)
        | (some (base, plan), calls) => finish k opts thp base plan calls

def reserve (len : Nat) : Except ReserveError Reservation × List Syscall := reserveWith k (.new len)

/-! ## Resolving -/

/-- Options a caller can pass: a positive length, and 64-bit sizes. -/
structure Valid : Prop where
  pos : 0 < opts.len
  len : opts.len < 2 ^ 64
  size : ∀ n, opts.hugePages.value = some (.size n) → n < 2 ^ 64

variable {k opts} {plan : Plan}

theorem resolveHugePages_size {h : HugePages} {size : Nat} (small : ∀ n, h = .size n → n < 2 ^ 64)
    (resolved : resolveHugePages k h = .ok size) : ∃ j < 64, size = 2 ^ j := by
  cases h with
  | size n =>
      rw [resolveHugePages] at resolved
      split at resolved
      · cases resolved
      · rename_i power
        cases resolved
        have power := not_not.mp power
        refine ⟨Nat.log2 size, ?_, power⟩
        have bound := small size rfl
        rw [power] at bound
        exact (Nat.pow_lt_pow_iff_right (by decide)).mp bound
  | default =>
      rw [resolveHugePages] at resolved
      split at resolved
      · cases resolved
        exact k.powerOfTwo _ ‹_›
      · cases resolved

/-- Rounding up to a page size that divides `2 ^ 64` wraps to nothing or not at all. -/
theorem wrap64_roundUp {len j : Nat} (pos : 0 < len) (small : len < 2 ^ 64) (page : j < 64)
    (some : wrap64 ((len + (2 ^ j - 1)) / 2 ^ j * 2 ^ j) ≠ 0) :
    len ≤ wrap64 ((len + (2 ^ j - 1)) / 2 ^ j * 2 ^ j) ∧
      2 ^ j ∣ wrap64 ((len + (2 ^ j - 1)) / 2 ^ j * 2 ^ j) := by
  have whole : 2 ^ 64 = 2 ^ (64 - j) * 2 ^ j := by
    rw [← Nat.pow_add]
    congr 1
    omega
  have unit : 0 < 2 ^ j := Nat.two_pow_pos j
  have up : len ≤ (len + (2 ^ j - 1)) / 2 ^ j * 2 ^ j := by
    have := Nat.div_add_mod (len + (2 ^ j - 1)) (2 ^ j)
    have := Nat.mod_lt (len + (2 ^ j - 1)) unit
    rw [Nat.mul_comm ((len + (2 ^ j - 1)) / 2 ^ j)]
    omega
  have few : (len + (2 ^ j - 1)) / 2 ^ j ≤ 2 ^ (64 - j) := by
    rw [Nat.div_le_iff_le_mul_add_pred unit, Nat.mul_comm, ← whole]
    omega
  have top : (len + (2 ^ j - 1)) / 2 ^ j * 2 ^ j ≤ 2 ^ 64 := by
    rw [whole]
    exact Nat.mul_le_mul_right _ few
  have below : (len + (2 ^ j - 1)) / 2 ^ j * 2 ^ j < 2 ^ 64 := by
    by_contra beyond
    have all : (len + (2 ^ j - 1)) / 2 ^ j * 2 ^ j = 2 ^ 64 := by omega
    rw [wrap64, all, Nat.mod_self] at some
    exact some rfl
  rw [wrap64_small below]
  exact ⟨up, Nat.dvd_mul_left ..⟩

/-- A plan for a length that can be mapped covers what was asked for, in whole pages. -/
theorem resolve_covers (valid : Valid opts) (resolved : resolve k opts = .ok plan) (some : plan.mapLen ≠ 0) :
    opts.len ≤ plan.mapLen ∧ ∀ size, plan.hugePageSize = .some size → size ∣ plan.mapLen := by
  rw [resolve] at resolved
  split at resolved
  · cases resolved
    exact ⟨le_rfl, nofun⟩
  · rename_i h asked
    split at resolved
    · rename_i size page
      cases resolved
      obtain ⟨j, low, rfl⟩ := resolveHugePages_size (fun n same => valid.size n (by rw [asked, same])) page
      obtain ⟨covers, pages⟩ := wrap64_roundUp valid.pos valid.len low some
      refine ⟨covers, fun size same => ?_⟩
      cases same
      exact pages
    · split at resolved
      · cases resolved
      · cases resolved
        exact ⟨le_rfl, nofun⟩

/-- Without huge pages the length is that asked for. -/
theorem resolve_base (resolved : resolve k opts = .ok plan) (none : plan.hugePageSize = none) :
    plan = basePages opts := by
  rw [resolve] at resolved
  split at resolved
  · cases resolved
    rfl
  · split at resolved
    · cases resolved
      cases none
    · split at resolved
      · cases resolved
      · cases resolved
        rfl

/-! ## Faulting in -/

/-- What a populated reservation promises: all that was asked for, in whole pages,
    faulted in by one of the calls; and nothing left behind when there is none. -/
def Populated (len : Nat) : Except ReserveError Reservation × List Syscall → Prop
  | (.ok r, calls) => len ≤ r.len ∧ (∀ size, r.hugePageSize = some size → size ∣ r.len) ∧
      ∃ call ∈ calls, call.faults r.base r.len = true
  | (.error _, calls) => live calls = []

/-- Base pages are mapped and nothing faults them in: a best-effort lock on base pages
    that fails, or huge pages given up for base pages without a lock that succeeds. -/
inductive Unfaulted (k : Kernel) (opts : ReserveOpts) : Prop where
  | unlocked {plan base} : resolve k opts = .ok plan → plan.hugePageSize = none →
      k.mmap opts.len ⟨none, false⟩ = some base → opts.lock = .bestEffort () →
      k.mlock2 base opts.len = false → Unfaulted k opts
  | fellBack {plan base} : resolve k opts = .ok plan → plan.hugePageSize ≠ none →
      opts.hugePages.isRequired = false → k.mmap plan.mapLen (flagsFor opts plan) = none →
      k.mmap opts.len ⟨none, false⟩ = some base →
      opts.lock = .off ∨ opts.lock = .bestEffort () ∧ k.mlock2 base opts.len = false → Unfaulted k opts

theorem live_append (calls more : List Syscall) :
    live (calls ++ more) = more.foldl Syscall.track (live calls) := List.foldl_append

theorem advise_track (thp : Bool) (base mapLen : Nat) (mapped : List (Nat × Nat)) :
    (advise opts thp base mapLen).foldl Syscall.track mapped = mapped := by
  unfold advise
  split
  · split <;> rfl
  · rfl

/-- The advice faults pages in when no lock is to do it. -/
theorem advise_faults (thp : Bool) (base mapLen : Nat) :
    (∃ call ∈ advise opts thp base mapLen, call.faults base mapLen = true) ↔
      thp = true ∧ opts.populate = true ∧ opts.lock.isOff = true := by
  cases thp <;> cases populate : opts.populate <;> cases off : opts.lock.isOff <;>
    simp [advise, populate, off, Syscall.faults]

/-- With what a demanded lock does: fault the mapping in, or give it up. Without one it
    takes the mapping itself, the advice or a lock that succeeds. -/
theorem finish_populated_iff {thp : Bool} {base : Nat} {calls : List Syscall}
    (covers : opts.len ≤ plan.mapLen) (pages : ∀ size, plan.hugePageSize = some size → size ∣ plan.mapLen)
    (mapped : live calls = [(base, plan.mapLen)]) :
    Populated opts.len (finish k opts thp base plan calls) ↔
      opts.lock = .required () ∨ (∃ call ∈ calls, call.faults base plan.mapLen = true) ∨
      (thp = true ∧ opts.populate = true ∧ opts.lock = .off) ∨
      (opts.lock = .bestEffort () ∧ k.mlock2 base plan.mapLen = true) := by
  have succeeds : ∀ (locked : Bool) (more : List Syscall),
      lockRegion k opts base plan.mapLen = (.ok locked, more) →
      (Populated opts.len (finish k opts thp base plan calls) ↔
        (∃ call ∈ calls, call.faults base plan.mapLen = true) ∨
        (thp = true ∧ opts.populate = true ∧ opts.lock.isOff = true) ∨
        ∃ call ∈ more, call.faults base plan.mapLen = true) := by
    intro locked more out
    have last : ¬ ∃ call ∈ (if opts.dontdump then [Syscall.madvise base plan.mapLen .dontDump] else []),
        call.faults base plan.mapLen = true := by
      cases opts.dontdump <;> simp [Syscall.faults]
    rw [finish, out, ← advise_faults]
    simp only [Populated, covers, List.mem_append, or_and_right, exists_or, last, true_and, or_false, or_assoc]
    exact and_iff_right pages
  cases lock : opts.lock with
  | off =>
      have out : lockRegion k opts base plan.mapLen = (.ok false, []) := by simp [lockRegion, lock, Require.isOff]
      rw [succeeds _ _ out, lock]
      simp [Require.isOff]
  | bestEffort a =>
      cases ok : k.mlock2 base plan.mapLen with
      | true =>
          have out : lockRegion k opts base plan.mapLen = (.ok true, [.mlock2 base plan.mapLen true]) := by
            simp [lockRegion, lock, ok, Require.isOff]
          rw [succeeds _ _ out, lock]
          simp [Require.isOff, Syscall.faults]
      | false =>
          have out : lockRegion k opts base plan.mapLen = (.ok false, [.mlock2 base plan.mapLen false]) := by
            simp [lockRegion, lock, ok, Require.isOff, Require.isRequired]
          rw [succeeds _ _ out, lock]
          simp [Require.isOff, Syscall.faults]
  | required a =>
      refine iff_of_true ?_ (.inl rfl)
      cases ok : k.mlock2 base plan.mapLen with
      | true =>
          have out : lockRegion k opts base plan.mapLen = (.ok true, [.mlock2 base plan.mapLen true]) := by
            simp [lockRegion, lock, ok, Require.isOff]
          rw [succeeds _ _ out]
          exact .inr (.inr ⟨_, List.mem_singleton_self _, by simp [Syscall.faults]⟩)
      | false =>
          have out : lockRegion k opts base plan.mapLen = (.error (.mlock k.memlockLimit plan.mapLen),
              [.mlock2 base plan.mapLen false, .munmap base plan.mapLen]) := by
            simp [lockRegion, lock, ok, Require.isOff, Require.isRequired]
          rw [finish, out]
          show live ((calls ++ advise opts thp base plan.mapLen) ++ _) = []
          rw [live_append, live_append, mapped, advise_track]
          simp [Syscall.track]

/-! ## The whole reservation -/

theorem limited_required {mapLen : Nat} (out : limited k opts mapLen = true) : opts.lock.isRequired = true := by
  simp only [limited, Bool.and_eq_true] at out
  exact out.2

variable {base : Nat}

/-- The first mapping succeeds. -/
theorem populated_first (valid : Valid opts) (populate : opts.populate = true)
    (resolved : resolve k opts = .ok plan) (mapped : k.mmap plan.mapLen (flagsFor opts plan) = some base) :
    Populated opts.len (finish k opts plan.hugePageSize.isNone base plan
      [.mmap plan.mapLen (flagsFor opts plan) (some base)]) ↔ ¬ Unfaulted k opts := by
  have some : plan.mapLen ≠ 0 := by
    intro zero
    rw [zero, k.nonEmpty] at mapped
    cases mapped
  obtain ⟨covers, pages⟩ := resolve_covers valid resolved some
  rw [finish_populated_iff covers pages rfl]
  cases huge : plan.hugePageSize with
  | some size =>
      have faults : (flagsFor opts plan).populate = true := by simp [flagsFor, populate, huge]
      refine iff_of_true (.inr (.inl ⟨_, List.mem_singleton_self _, by simp [Syscall.faults, faults]⟩)) ?_
      rintro (⟨resolved', none, -⟩ | ⟨resolved', -, -, failed, -⟩) <;> rw [resolved] at resolved' <;>
        cases resolved'
      · rw [huge] at none
        cases none
      · rw [mapped] at failed
        cases failed
  | none =>
      obtain rfl := resolve_base resolved huge
      have flags : flagsFor opts (basePages opts) = ⟨none, false⟩ := by simp [flagsFor, basePages]
      rw [flags] at mapped ⊢
      have bare : ¬ ∃ call ∈ [Syscall.mmap (basePages opts).mapLen ⟨none, false⟩ (.some base)],
          call.faults base (basePages opts).mapLen = true := by simp [Syscall.faults]
      have exact : Unfaulted k opts ↔ opts.lock = .bestEffort () ∧ k.mlock2 base opts.len = false := by
        constructor
        · rintro (⟨-, -, mapped', lock, failed⟩ | ⟨resolved', huge', -⟩)
          · have same : base = _ := Option.some.inj (mapped.symm.trans mapped')
            rw [same]
            exact ⟨lock, failed⟩
          · rw [resolved] at resolved'
            cases resolved'
            exact (huge' rfl).elim
        · rintro ⟨lock, failed⟩
          exact .unlocked resolved rfl mapped lock failed
      simp only [bare, exact, populate, Option.isNone_none, true_and, false_or]
      cases opts.lock with
      | off => simp
      | bestEffort a => simp [basePages]
      | required a => simp

/-- Huge pages are given up for base pages. -/
theorem populated_retry (resolved : resolve k opts = .ok plan) (huge : plan.hugePageSize ≠ none)
    (tried : opts.hugePages.isRequired = false) (failed : k.mmap plan.mapLen (flagsFor opts plan) = none)
    (mapped : k.mmap opts.len ⟨none, false⟩ = some base) :
    Populated opts.len (finish k opts plan.hugePageSize.isNone base (basePages opts)
      [.mmap plan.mapLen (flagsFor opts plan) none, .mmap opts.len ⟨none, false⟩ (some base)]) ↔
      ¬ Unfaulted k opts := by
  have pages : ∀ size, (basePages opts).hugePageSize = some size → size ∣ (basePages opts).mapLen := by
    intro size same
    cases same
  rw [finish_populated_iff (show opts.len ≤ (basePages opts).mapLen from le_rfl) pages rfl]
  have bare : ¬ ∃ call ∈ [Syscall.mmap plan.mapLen (flagsFor opts plan) none,
      .mmap opts.len ⟨none, false⟩ (some base)], call.faults base (basePages opts).mapLen = true := by
    simp [Syscall.faults]
  have explicit : plan.hugePageSize.isNone = false := by
    rw [Option.isNone_eq_false_iff, Option.isSome_iff_ne_none]
    exact huge
  have exact : Unfaulted k opts ↔ opts.lock = .off ∨ opts.lock = .bestEffort () ∧ k.mlock2 base opts.len = false := by
    constructor
    · rintro (⟨resolved', none, -⟩ | ⟨-, -, -, -, mapped', lock⟩)
      · rw [resolved] at resolved'
        cases resolved'
        exact (huge none).elim
      · have same : base = _ := Option.some.inj (mapped.symm.trans mapped')
        rw [same]
        exact lock
    · exact fun lock => .fellBack resolved huge tried failed mapped lock
  simp only [bare, exact, explicit, Bool.false_eq_true, false_and, false_or]
  cases opts.lock with
  | off => simp
  | bestEffort a => simp [basePages]
  | required a => simp

/-- Nothing is mapped in the end. -/
theorem populated_unmapped (resolved : resolve k opts = .ok plan)
    (failed : k.mmap plan.mapLen (flagsFor opts plan) = none)
    (final : plan.hugePageSize ≠ none → opts.hugePages.isRequired = false →
      k.mmap opts.len ⟨none, false⟩ = none) : ¬ Unfaulted k opts := by
  rintro (⟨resolved', huge, mapped, -⟩ | ⟨resolved', huge, tried, -, mapped, -⟩) <;>
    rw [resolved] at resolved' <;> cases resolved'
  · obtain rfl := resolve_base resolved huge
    have flags : flagsFor opts (basePages opts) = ⟨none, false⟩ := by simp [flagsFor, basePages]
    rw [flags] at failed
    cases failed.symm.trans mapped
  · cases (final huge tried).symm.trans mapped

/-- A populated reservation keeps its promise exactly when it does not end with base
    pages that nothing faults in. -/
theorem populated_iff (k : Kernel) (opts : ReserveOpts) (valid : Valid opts) (populate : opts.populate = true) :
    Populated opts.len (reserveWith k opts) ↔ ¬ Unfaulted k opts := by
  rw [reserveWith]
  cases resolved : resolve k opts with
  | error e =>
      refine iff_of_true rfl ?_
      rintro (⟨resolved', -⟩ | ⟨resolved', -⟩) <;> rw [resolved] at resolved' <;> cases resolved'
  | ok plan =>
      dsimp only
      by_cases short : limited k opts plan.mapLen = true
      · have demanded := limited_required short
        rw [if_pos short]
        refine iff_of_true rfl ?_
        rintro (⟨-, -, -, lock, -⟩ | ⟨-, -, -, -, -, lock | ⟨lock, -⟩⟩) <;> rw [lock] at demanded <;>
          cases demanded
      · rw [if_neg short, mapRegion]
        cases first : k.mmap plan.mapLen (flagsFor opts plan) with
        | some base => exact populated_first valid populate resolved first
        | none =>
            dsimp only
            by_cases retry : (plan.hugePageSize.isSome && !opts.hugePages.isRequired) = true
            · rw [if_pos (by simpa using retry)]
              simp only [Bool.and_eq_true, Bool.not_eq_true', Option.isSome_iff_ne_none] at retry
              cases second : k.mmap opts.len ⟨none, false⟩ with
              | some base => exact populated_retry resolved retry.1 retry.2 first second
              | none => exact iff_of_true rfl (populated_unmapped resolved first fun _ _ => second)
            · rw [if_neg (by simpa using retry)]
              refine iff_of_true rfl (populated_unmapped resolved first fun huge tried => (retry ?_).elim)
              simp only [Bool.and_eq_true, Bool.not_eq_true', Option.isSome_iff_ne_none]
              exact ⟨huge, tried⟩

/-- A host that has no huge pages to give and locks nothing. -/
def bareHost : Kernel where
  memlockLimit := 2 ^ 64 - 1
  defaultHugePageSize := some (2 ^ 21)
  mmap len flags := if len = 0 ∨ flags.hugeShift.isSome then none else some 4096
  mlock2 _ _ := false
  nonNull len flags := by
    split
    · nofun
    · decide
  nonEmpty _ := rfl
  powerOfTwo size same := ⟨21, by decide, (Option.some.inj same).symm⟩

theorem populated_unlocked : Populated 65536 (reserveWith bareHost ⟨65536, .off, .off, true, true⟩) := by
  refine (populated_iff bareHost ⟨65536, .off, .off, true, true⟩ ⟨by decide, by decide, nofun⟩ rfl).mpr ?_
  rintro (⟨-, -, -, lock, -⟩ | ⟨resolved, huge, -⟩)
  · cases lock
  · cases resolved
    exact huge rfl

/-- A best-effort lock that fails, and best-effort huge pages that are not to be had:
    either way the mapping is returned without a call that faults it in. -/
theorem reservation_unfaulted :
    (Valid ⟨65536, .bestEffort (), .off, true, true⟩ ∧
      reserveWith bareHost ⟨65536, .bestEffort (), .off, true, true⟩ = (.ok ⟨4096, 65536, false, none⟩,
        [.mmap 65536 ⟨none, false⟩ (some 4096), .madvise 4096 65536 .hugePage, .mlock2 4096 65536 false,
          .madvise 4096 65536 .dontDump]) ∧
      ¬ Populated 65536 (reserveWith bareHost ⟨65536, .bestEffort (), .off, true, true⟩)) ∧
    Valid ⟨65536, .off, .bestEffort .default, true, true⟩ ∧
      reserveWith bareHost ⟨65536, .off, .bestEffort .default, true, true⟩ =
        (.ok ⟨4096, 65536, false, none⟩, [.mmap (2 ^ 21) ⟨some 21, true⟩ none,
          .mmap 65536 ⟨none, false⟩ (some 4096), .madvise 4096 65536 .dontDump]) ∧
      ¬ Populated 65536 (reserveWith bareHost ⟨65536, .off, .bestEffort .default, true, true⟩) := by
  have first : reserveWith bareHost ⟨65536, .bestEffort (), .off, true, true⟩ = (.ok ⟨4096, 65536, false, none⟩,
      [.mmap 65536 ⟨none, false⟩ (some 4096), .madvise 4096 65536 .hugePage, .mlock2 4096 65536 false,
        .madvise 4096 65536 .dontDump]) := rfl
  have second : reserveWith bareHost ⟨65536, .off, .bestEffort .default, true, true⟩ =
      (.ok ⟨4096, 65536, false, none⟩, [.mmap (2 ^ 21) ⟨some 21, true⟩ none,
        .mmap 65536 ⟨none, false⟩ (some 4096), .madvise 4096 65536 .dontDump]) := by decide +kernel
  refine ⟨⟨⟨by decide, by decide, nofun⟩, first, ?_⟩, ⟨by decide, by decide, nofun⟩, second, ?_⟩
  · rw [first]
    simp [Populated, Syscall.faults]
  · rw [second]
    simp [Populated, Syscall.faults]

end Reservation

end Toccata
