import Toccata.Reserve
import Toccata.SubHeap

/-! # Configuring the registered sub-heaps

`registry::configure` looks up a budget for every registration, checks that their sum
stays under the cap, and then builds one sub-heap after the other, each with a
reservation of its own that holds the slab besides the budget. Handles are leaked as they
are built. The registrations come from the linker, the CPU count from the system, and
every reservation meets a kernel of its own. Sizes are 64-bit: their sum saturates, the
length of a reservation wraps. Exhaustion policies are only passed along and left out.
-/

namespace Toccata

open Foundations

structure SubHeapRegistration where
  name : String
  capPerClass : Nat
deriving Repr, DecidableEq

/-- The cap, and a budget in bytes by name. -/
structure Budgets where
  total : Nat
  subs : List (String × Nat)
deriving Repr, DecidableEq

def Budgets.lookup (b : Budgets) (name : String) : Option Nat :=
  (b.subs.find? fun sub => sub.1 = name).map Prod.snd

inductive ConfigureError where
  | alreadyConfigured
  | unconfigured (name : String)
  | overBudget (requested total : Nat)
  | reserve (name : String) (e : ReserveError)
deriving Repr, DecidableEq

/-- A sub-heap with its budget and the reservation it owns. -/
structure Built where
  budgetBytes : Nat
  reservation : Reservation
  sub : SubHeap

/-- The configured sub-heaps by name. -/
abbrev Registry := List (String × Built)

namespace Registry

/-- Bytes of a reservation: the slab and the budget. -/
def footprint (numCpus bytes capPerClass : Nat) : Nat :=
  wrap64 (wrap64 (SubHeap.slabBytes capPerClass numCpus) + bytes)

/-- `build_standalone`. A reservation of no bytes panics; `none` is that. -/
def buildStandalone (k : Kernel) (numCpus bytes capPerClass : Nat) :
    Option (Except ReserveError Built) × List Syscall :=
  if footprint numCpus bytes capPerClass = 0 then (none, []) else
    match Reservation.reserve k (footprint numCpus bytes capPerClass) with
    | (.error e, calls) => (some (.error e), calls)
    | (.ok r, calls) =>
        (some (.ok ⟨bytes, r, SubHeap.buildStandalone r.base bytes numCpus none capPerClass⟩), calls)

/-- The sum of the budgets, one for every registration. -/
def validate (budgets : Budgets) : List SubHeapRegistration → Nat → Except ConfigureError Nat
  | [], sum => .ok sum
  | reg :: rest, sum =>
      match budgets.lookup reg.name with
      | none => .error (.unconfigured reg.name)
      | some b => validate budgets rest (min (sum + b) (2 ^ 64 - 1))

variable (kernel : Nat → Kernel) (numCpus : Nat) (budgets : Budgets)

/-- Build what is registered, from the `i`-th registration on. -/
def buildAll : List SubHeapRegistration → Nat → Registry →
    Option (Except ConfigureError Registry) × List Syscall
  | [], _, map => (some (.ok map), [])
  | reg :: rest, i, map =>
      match budgets.lookup reg.name with
      | none => (none, [])
      | some bytes =>
          match buildStandalone (kernel i) numCpus bytes reg.capPerClass with
          | (none, calls) => (none, calls)
          | (some (.error e), calls) => (some (.error (.reserve reg.name e)), calls)
          | (some (.ok sh), calls) =>
              let (out, more) := buildAll rest (i + 1) (map ++ [(reg.name, sh)])
              (out, calls ++ more)

/-- What a call returns, the registry after it, and the system calls it made. -/
structure Outcome where
  result : Option (Except ConfigureError Unit)
  configured : Option Registry
  calls : List Syscall

def configure (regs : List SubHeapRegistration) (configured : Option Registry) : Outcome :=
  if configured.isSome then ⟨some (.error .alreadyConfigured), configured, []⟩ else
    match validate budgets regs 0 with
    | .error e => ⟨some (.error e), configured, []⟩
    | .ok sum =>
        if budgets.total < sum then ⟨some (.error (.overBudget sum budgets.total)), configured, []⟩ else
          match buildAll kernel numCpus budgets regs 0 [] with
          | (none, calls) => ⟨none, configured, calls⟩
          | (some (.error e), calls) => ⟨some (.error e), configured, calls⟩
          | (some (.ok map), calls) => ⟨some (.ok ()), some map, calls⟩

end Registry

/-! ## One reservation -/

namespace Reservation

/-- The default reservation maps what it is asked for and locks it, or leaves nothing. -/
theorem reserve_spec (k : Kernel) (len : Nat) (mapped : List (Nat × Nat)) :
    (∃ r, (reserve k len).1 = .ok r ∧ r.len = len ∧ r.locked = true ∧
      (reserve k len).2.foldl Syscall.track mapped = (r.base, len) :: mapped) ∨
    ∃ e, (reserve k len).1 = .error e ∧ (reserve k len).2.foldl Syscall.track mapped = mapped := by
  have resolved : resolve k (.new len) = .ok ⟨len, none⟩ := rfl
  rw [reserve, reserveWith, resolved]
  dsimp only
  split
  · exact .inr ⟨_, rfl, rfl⟩
  · have region : mapRegion k (.new len) ⟨len, none⟩ = ((k.mmap len ⟨none, false⟩).map (·, ⟨len, none⟩),
        [.mmap len ⟨none, false⟩ (k.mmap len ⟨none, false⟩)]) := by
      simp [mapRegion, flagsFor]
    rw [region]
    cases answer : k.mmap len ⟨none, false⟩ with
    | none => exact .inr ⟨_, rfl, rfl⟩
    | some base =>
        cases ok : k.mlock2 base len with
        | true =>
            have out : lockRegion k (.new len) base len = (.ok true, [.mlock2 base len true]) := by
              simp [lockRegion, ReserveOpts.new, Require.isOff, ok]
            have done : finish k (.new len) true base ⟨len, none⟩ [.mmap len ⟨none, false⟩ (some base)] =
                (.ok ⟨base, len, true, none⟩, [.mmap len ⟨none, false⟩ (some base),
                  .madvise base len .hugePage, .mlock2 base len true, .madvise base len .dontDump]) := by
              simp only [finish, out]
              rfl
            exact .inl ⟨⟨base, len, true, none⟩, congrArg Prod.fst done, rfl, rfl,
              congrArg (fun outcome => outcome.2.foldl Syscall.track mapped) done⟩
        | false =>
            have out : lockRegion k (.new len) base len =
                (.error (.mlock k.memlockLimit len), [.mlock2 base len false, .munmap base len]) := by
              simp [lockRegion, ReserveOpts.new, Require.isOff, Require.isRequired, ok]
            have done : finish k (.new len) true base ⟨len, none⟩ [.mmap len ⟨none, false⟩ (some base)] =
                (.error (.mlock k.memlockLimit len), [.mmap len ⟨none, false⟩ (some base),
                  .madvise base len .hugePage, .mlock2 base len false, .munmap base len]) := by
              simp only [finish, out]
              rfl
            refine .inr ⟨.mlock k.memlockLimit len, congrArg Prod.fst done,
              (congrArg (fun outcome => outcome.2.foldl Syscall.track mapped) done).trans ?_⟩
            simp [Syscall.track]

end Reservation

namespace Registry

/-! ## The loop -/

section Loop

variable (kernel : Nat → Kernel) (numCpus : Nat) (budgets : Budgets)

/-- The `i`-th build, for this registration. -/
def outcomeAt (i : Nat) (reg : SubHeapRegistration) : Option (Except ReserveError Built) :=
  (budgets.lookup reg.name).bind fun bytes => (buildStandalone (kernel i) numCpus bytes reg.capPerClass).1

def Builds (i : Nat) (reg : SubHeapRegistration) : Prop :=
  ∃ built, outcomeAt kernel numCpus budgets i reg = some (.ok built)

def Fails (i : Nat) (reg : SubHeapRegistration) : Prop :=
  ∃ e, outcomeAt kernel numCpus budgets i reg = some (.error e)

/-- What a registration makes the process reserve. -/
def footprintOf (reg : SubHeapRegistration) : Nat :=
  footprint numCpus ((budgets.lookup reg.name).getD 0) reg.capPerClass

/-- The entry of a registration: its name, and a sub-heap with its budget. -/
def Serves (reg : SubHeapRegistration) (entry : String × Built) : Prop :=
  entry.1 = reg.name ∧ budgets.lookup reg.name = some entry.2.budgetBytes

/-- The bytes of the mappings in place. -/
def mappedBytes (mapped : List (Nat × Nat)) : Nat := (mapped.map Prod.snd).sum

/-- How the loop ends: with every registration built; at the first that fails, with those
    before it in place; or in a panic. -/
inductive Ends (regs : List SubHeapRegistration) (i : Nat) (map : Registry) (mapped : List (Nat × Nat)) :
    Option (Except ConfigureError Registry) × List Syscall → Prop where
  | built (entries : Registry) (calls : List Syscall) : List.Forall₂ (Serves budgets) regs entries →
      (∀ j reg, regs[j]? = some reg → Builds kernel numCpus budgets (i + j) reg) →
      mappedBytes (calls.foldl Syscall.track mapped) =
        (regs.map (footprintOf numCpus budgets)).sum + mappedBytes mapped →
      Ends regs i map mapped (some (.ok (map ++ entries)), calls)
  | failed (e : ConfigureError) (calls : List Syscall) (stop : Nat) (reg : SubHeapRegistration) :
      regs[stop]? = some reg → Fails kernel numCpus budgets (i + stop) reg →
      (∀ j < stop, ∀ reg, regs[j]? = some reg → Builds kernel numCpus budgets (i + j) reg) →
      (calls.foldl Syscall.track mapped).length = stop + mapped.length →
      Ends regs i map mapped (some (.error e), calls)
  | panicked (calls : List Syscall) (stop : Nat) (reg : SubHeapRegistration) : regs[stop]? = some reg →
      outcomeAt kernel numCpus budgets (i + stop) reg = none →
      (∀ j < stop, ∀ reg, regs[j]? = some reg → Builds kernel numCpus budgets (i + j) reg) →
      Ends regs i map mapped (none, calls)

variable {kernel numCpus budgets}

theorem build_spec (k : Kernel) (numCpus : Nat) {bytes : Nat} {reg : SubHeapRegistration}
    (found : budgets.lookup reg.name = some bytes) (mapped : List (Nat × Nat)) :
    (∃ built, (buildStandalone k numCpus bytes reg.capPerClass).1 = some (.ok built) ∧
      built.budgetBytes = bytes ∧ ∃ base,
        (buildStandalone k numCpus bytes reg.capPerClass).2.foldl Syscall.track mapped =
          (base, footprintOf numCpus budgets reg) :: mapped) ∨
    (∃ e, (buildStandalone k numCpus bytes reg.capPerClass).1 = some (.error e) ∧
      (buildStandalone k numCpus bytes reg.capPerClass).2.foldl Syscall.track mapped = mapped) ∨
    (buildStandalone k numCpus bytes reg.capPerClass).1 = none := by
  have foot : footprintOf numCpus budgets reg = footprint numCpus bytes reg.capPerClass := by
    rw [footprintOf, found, Option.getD_some]
  rw [buildStandalone, foot]
  split
  · exact .inr (.inr rfl)
  · obtain ⟨r, ok, -, -, calls⟩ | ⟨e, error, calls⟩ :=
      Reservation.reserve_spec k (footprint numCpus bytes reg.capPerClass) mapped
    · rcases out : Reservation.reserve k (footprint numCpus bytes reg.capPerClass) with ⟨result, made⟩
      rw [out] at ok calls
      cases ok
      exact .inl ⟨_, rfl, rfl, _, calls⟩
    · rcases out : Reservation.reserve k (footprint numCpus bytes reg.capPerClass) with ⟨result, made⟩
      rw [out] at error calls
      cases error
      exact .inr (.inl ⟨_, rfl, calls⟩)

variable {reg : SubHeapRegistration} {rest : List SubHeapRegistration} {i n : Nat}

theorem builds_cons (first : Builds kernel numCpus budgets i reg)
    (others : ∀ j < n, ∀ reg, rest[j]? = some reg → Builds kernel numCpus budgets (i + 1 + j) reg) :
    ∀ j < n + 1, ∀ reg', (reg :: rest)[j]? = some reg' → Builds kernel numCpus budgets (i + j) reg' := by
  intro j low reg' entry
  cases j with
  | zero =>
      cases entry
      exact first
  | succ j =>
      rw [List.getElem?_cons_succ] at entry
      have later := others j (by omega) reg' entry
      rwa [show i + 1 + j = i + (j + 1) by omega] at later

/-- One registration built, and how the rest ends. -/
theorem Ends.cons {map : Registry} {mapped mapped' : List (Nat × Nat)} {built : Built} {base : Nat}
    {calls more : List Syscall} {out : Option (Except ConfigureError Registry)}
    (found : budgets.lookup reg.name = some built.budgetBytes)
    (first : outcomeAt kernel numCpus budgets i reg = some (.ok built))
    (made : calls.foldl Syscall.track mapped = mapped')
    (grown : mapped' = (base, footprintOf numCpus budgets reg) :: mapped)
    (ends : Ends kernel numCpus budgets rest (i + 1) (map ++ [(reg.name, built)]) mapped' (out, more)) :
    Ends kernel numCpus budgets (reg :: rest) i map mapped (out, calls ++ more) := by
  have builds : Builds kernel numCpus budgets i reg := ⟨built, first⟩
  cases ends with
  | built entries _ serves others bytes =>
      rw [List.append_assoc, List.singleton_append]
      refine .built _ _ (.cons ⟨rfl, found⟩ serves) (fun j reg' entry => ?_) ?_
      · exact builds_cons builds (fun j _ => others j) j (Nat.lt_succ_self j) reg' entry
      · rw [List.foldl_append, made, bytes, grown, List.map_cons, List.sum_cons, mappedBytes, List.map_cons,
          List.sum_cons, mappedBytes]
        omega
  | failed e _ stop failing entry fails before length =>
      refine .failed e _ (stop + 1) failing entry ?_ (builds_cons builds before) ?_
      · rwa [show i + (stop + 1) = i + 1 + stop by omega]
      · rw [List.foldl_append, made, length, grown, List.length_cons]
        omega
  | panicked _ stop failing entry panics before =>
      refine .panicked _ (stop + 1) failing entry ?_ (builds_cons builds before)
      rwa [show i + (stop + 1) = i + 1 + stop by omega]

theorem buildAll_ends (kernel : Nat → Kernel) (numCpus : Nat) {regs : List SubHeapRegistration}
    (found : ∀ reg ∈ regs, budgets.lookup reg.name ≠ none) (i : Nat) (map : Registry)
    (mapped : List (Nat × Nat)) :
    Ends kernel numCpus budgets regs i map mapped (buildAll kernel numCpus budgets regs i map) := by
  induction regs generalizing i map mapped with
  | nil =>
      have done : Ends kernel numCpus budgets [] i map mapped (some (.ok (map ++ [])), []) :=
        .built [] [] .nil (fun _ _ entry => by cases entry) (by simp)
      rwa [List.append_nil] at done
  | cons reg rest ih =>
      obtain ⟨here, others⟩ := List.forall_mem_cons.mp found
      obtain ⟨bytes, lookup⟩ := Option.ne_none_iff_exists'.mp here
      have outcome : outcomeAt kernel numCpus budgets i reg =
          (buildStandalone (kernel i) numCpus bytes reg.capPerClass).1 := by
        rw [outcomeAt, lookup, Option.bind_some]
      have spec := build_spec (kernel i) numCpus lookup mapped
      have none : ∀ j < 0, ∀ reg', (reg :: rest)[j]? = some reg' → Builds kernel numCpus budgets (i + j) reg' :=
        fun j low => (Nat.not_lt_zero j low).elim
      rw [buildAll, lookup]
      dsimp only
      rcases out : buildStandalone (kernel i) numCpus bytes reg.capPerClass with ⟨_ | e | built, calls⟩ <;>
        rw [out] at outcome spec
      · exact .panicked calls 0 reg rfl outcome none
      · rcases spec with ⟨_, impossible, -⟩ | ⟨_, -, calls⟩ | impossible
        · cases impossible
        · refine .failed _ _ 0 reg rfl ⟨e, outcome⟩ none ?_
          rw [calls, Nat.zero_add]
        · cases impossible
      · rcases spec with ⟨_, same, budget, base, grown⟩ | ⟨_, impossible, -⟩ | impossible
        · cases same
          rw [← budget] at lookup
          exact Ends.cons lookup outcome rfl grown (ih others (i + 1) _ _)
        · cases impossible
        · cases impossible

end Loop

/-! ## The whole call -/

section Configure

variable (kernel : Nat → Kernel) (numCpus : Nat) (budgets : Budgets) (regs : List SubHeapRegistration)

/-- What a call should do: serve every registration within the cap, or leave nothing
    reserved and the registry as it was. -/
def AllOrNothing (configured : Option Registry) (outcome : Outcome) : Prop :=
  match outcome.result with
  | some (.ok _) => ∃ map, outcome.configured = some map ∧ List.Forall₂ (Serves budgets) regs map ∧
      mappedBytes (live outcome.calls) ≤ budgets.total
  | some (.error _) => live outcome.calls = [] ∧ outcome.configured = configured
  | none => True

/-- The call gets as far as building. -/
def Ready (configured : Option Registry) : Prop :=
  configured = none ∧ ∃ sum, validate budgets regs 0 = .ok sum ∧ sum ≤ budgets.total

/-- No reservation fails but the first, and if all succeed, budgets and slabs together
    stay under the cap. -/
structure Clean : Prop where
  first : ∀ i reg, regs[i]? = some reg → Fails kernel numCpus budgets i reg →
    (∀ j < i, ∀ reg, regs[j]? = some reg → Builds kernel numCpus budgets j reg) → i = 0
  fits : (∀ j reg, regs[j]? = some reg → Builds kernel numCpus budgets j reg) →
    (regs.map (footprintOf numCpus budgets)).sum ≤ budgets.total

variable {kernel numCpus budgets regs}

theorem validate_found {sum total : Nat} (valid : validate budgets regs sum = .ok total) :
    ∀ reg ∈ regs, budgets.lookup reg.name ≠ none := by
  induction regs generalizing sum with
  | nil => simp
  | cons reg rest ih =>
      rw [validate] at valid
      cases lookup : budgets.lookup reg.name with
      | none =>
          rw [lookup] at valid
          cases valid
      | some bytes =>
          rw [lookup] at valid
          refine List.forall_mem_cons.mpr ⟨?_, ih valid⟩
          rw [lookup]
          nofun

theorem Builds.not_fails {i : Nat} {reg : SubHeapRegistration} (builds : Builds kernel numCpus budgets i reg) :
    ¬ Fails kernel numCpus budgets i reg := by
  obtain ⟨built, ok⟩ := builds
  rintro ⟨e, error⟩
  rw [ok] at error
  cases error

theorem Builds.not_panics {i : Nat} {reg : SubHeapRegistration} (builds : Builds kernel numCpus budgets i reg) :
    outcomeAt kernel numCpus budgets i reg ≠ none := by
  obtain ⟨built, ok⟩ := builds
  rw [ok]
  nofun

/-- The first registration that is not built decides. -/
theorem clean_of_stop {stop : Nat} {reg : SubHeapRegistration} (entry : regs[stop]? = some reg)
    (stops : ¬ Builds kernel numCpus budgets stop reg)
    (before : ∀ j < stop, ∀ reg, regs[j]? = some reg → Builds kernel numCpus budgets j reg) :
    Clean kernel numCpus budgets regs ↔ (Fails kernel numCpus budgets stop reg → stop = 0) := by
  constructor
  · intro clean fails
    exact clean.first stop reg entry fails before
  · intro first
    refine ⟨fun i failing here fails earlier => ?_, fun all => (stops (all stop reg entry)).elim⟩
    rcases Nat.lt_trichotomy i stop with less | same | more
    · exact ((before i less failing here).not_fails fails).elim
    · subst same
      rw [entry] at here
      cases here
      exact first fails
    · exact (stops (earlier stop more reg entry)).elim

/-- Configuration is all or nothing and within its cap exactly when it stops before
    building, or no reservation but the first fails and the slabs fit as well. -/
theorem all_or_nothing_iff (kernel : Nat → Kernel) (numCpus : Nat) (budgets : Budgets)
    (regs : List SubHeapRegistration) (configured : Option Registry) :
    AllOrNothing budgets regs configured (configure kernel numCpus budgets regs configured) ↔
      (Ready budgets regs configured → Clean kernel numCpus budgets regs) := by
  rw [configure]
  cases configured with
  | some map => exact iff_of_true ⟨rfl, rfl⟩ fun ready => by cases ready.1
  | none =>
      cases valid : validate budgets regs 0 with
      | error e =>
          refine iff_of_true ⟨rfl, rfl⟩ fun ready => ?_
          obtain ⟨-, sum, ok, -⟩ := ready
          rw [valid] at ok
          cases ok
      | ok sum =>
          simp only [Option.isSome_none, Bool.false_eq_true, if_false]
          by_cases exceeds : budgets.total < sum
          · rw [if_pos exceeds]
            refine iff_of_true ⟨rfl, rfl⟩ fun ready => ?_
            obtain ⟨-, sum', ok, fits⟩ := ready
            rw [valid] at ok
            cases ok
            omega
          · have ready : Ready budgets regs none := ⟨rfl, sum, valid, Nat.le_of_not_lt exceeds⟩
            have ends := buildAll_ends kernel numCpus (validate_found valid) 0 [] []
            rw [if_neg exceeds, forall_prop_of_true ready]
            generalize buildAll kernel numCpus budgets regs 0 [] = outcome at ends
            cases ends with
            | built entries calls serves builds bytes =>
                have total : mappedBytes (live calls) = (regs.map (footprintOf numCpus budgets)).sum := bytes
                simp only [Nat.zero_add] at builds
                constructor
                · rintro ⟨_, -, -, within⟩
                  rw [total] at within
                  exact ⟨fun i reg entry fails _ => ((builds i reg entry).not_fails fails).elim, fun _ => within⟩
                · intro clean
                  refine ⟨entries, rfl, serves, ?_⟩
                  rw [total]
                  exact clean.fits builds
            | failed e calls stop reg entry fails before length =>
                simp only [Nat.zero_add] at fails before
                have held : (live calls).length = stop := length
                rw [clean_of_stop entry (fun builds => builds.not_fails fails) before]
                constructor
                · rintro ⟨empty, -⟩ _
                  rw [← held, empty, List.length_nil]
                · intro first
                  exact ⟨List.eq_nil_of_length_eq_zero (held.trans (first fails)), rfl⟩
            | panicked calls stop reg entry panics before =>
                simp only [Nat.zero_add] at panics before
                rw [clean_of_stop entry (fun builds => builds.not_panics panics) before]
                refine iff_of_true trivial fun fails => ?_
                obtain ⟨e, error⟩ := fails
                rw [panics] at error
                cases error

end Configure

/-- A host that maps and locks whatever it is asked for. -/
def generous : Kernel where
  memlockLimit := 2 ^ 64 - 1
  defaultHugePageSize := none
  mmap len _ := if len = 0 then none else some 4096
  mlock2 _ _ := true
  nonNull len flags := by
    split
    · nofun
    · decide
  nonEmpty _ := rfl
  powerOfTwo := nofun

/-- The host of the `i`-th reservation: mappings lie a gigabyte apart. -/
def spaced (i : Nat) : Kernel where
  memlockLimit := 2 ^ 64 - 1
  defaultHugePageSize := none
  mmap len _ := if len = 0 then none else some (4096 + i * 2 ^ 30)
  mlock2 _ _ := true
  nonNull len flags := by
    split
    · nofun
    · intro null
      have := Option.some.inj null
      omega
  nonEmpty _ := rfl
  powerOfTwo := nofun

/-- Two budgets, and three sub-heaps that draw on them. -/
def budgeted : Budgets := ⟨2 ^ 21, [("packet", 65536), ("session", 131072)]⟩

def registered : List SubHeapRegistration := [⟨"packet", 8⟩, ⟨"session", 16⟩, ⟨"packet", 8⟩]

/-- On two CPUs all three are built, under a cap of two megabytes. -/
theorem all_or_nothing_within : (configure spaced 2 budgeted registered none).result = some (.ok ()) ∧
    AllOrNothing budgeted registered none (configure spaced 2 budgeted registered none) := by
  refine ⟨rfl, (all_or_nothing_iff ..).mpr fun _ => ⟨fun i reg entry fails _ => ?_, fun _ => by decide +kernel⟩⟩
  have builds : Builds spaced 2 budgeted i reg := by
    match i, entry with
    | 0, rfl => exact ⟨_, rfl⟩
    | 1, rfl => exact ⟨_, rfl⟩
    | 2, rfl => exact ⟨_, rfl⟩
  exact (builds.not_fails fails).elim

/-- A cap of just the budget is exceeded by the slab; and a second reservation that fails
    leaves the first. -/
theorem over_cap_and_leaked :
    ¬ AllOrNothing ⟨65536, [("packet", 65536)]⟩ [⟨"packet", 8⟩] none
      (configure (fun _ => generous) 1 ⟨65536, [("packet", 65536)]⟩ [⟨"packet", 8⟩] none) ∧
    ¬ AllOrNothing ⟨2 ^ 20, [("packet", 65536)]⟩ [⟨"packet", 8⟩, ⟨"packet", 8⟩] none
      (configure (fun i => if i = 0 then generous else Reservation.bareHost) 1
        ⟨2 ^ 20, [("packet", 65536)]⟩ [⟨"packet", 8⟩, ⟨"packet", 8⟩] none) := by
  constructor
  · rintro ⟨map, -, -, within⟩
    exact absurd within (by decide +kernel)
  · rintro ⟨empty, -⟩
    exact absurd empty (by decide +kernel)

end Registry

end Toccata
