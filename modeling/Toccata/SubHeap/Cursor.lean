import Toccata.Foundations.Transition
import Toccata.SubHeap

/-! # Races on the arena cursor

`carve_spans` and `carve_run` share one cursor and take no lock. Each reads it, computes
a range from what it read and exchanges the cursor against the end of that range; an
exchange that fails, for whatever reason, yields a new value to compute from. Orderings
are relaxed, so a read may return any value the cursor has had. Tagging the spans of a
range comes after and is left to the caller.
-/

namespace Toccata

open Foundations

namespace BumpArena

/-- The spans `carve_spans` asks for once it has read the cursor. -/
def spansFrom (a : BumpArena) (numSpans start : Nat) : Option (Nat × Nat) :=
  let availSpans := (a.limit - start) / spanBytes
  if availSpans = 0 then none else some (start, start + min numSpans availSpans * spanBytes)

/-- The run `carve_run` asks for once it has read the cursor. -/
def runFrom (a : BumpArena) (runBytes cur : Nat) : Option (Nat × Nat) :=
  let rel := cur - a.base
  let start := a.base + (rel + (spanBytes - 1)) / spanBytes * spanBytes
  let stop := start + runBytes
  if 2 ^ 64 ≤ stop ∨ a.limit < stop then none else some (start, stop)

end BumpArena

namespace Cursor

inductive Carve where
  | spans (numSpans : Nat)
  | run (runBytes : Nat)
deriving Repr, DecidableEq

namespace Carve

/-- What callers ask for: at least one span, a positive number of whole spans. -/
def Legal : Carve → Prop
  | .spans numSpans => 1 ≤ numSpans
  | .run runBytes => 0 < runBytes ∧ runBytes % spanBytes = 0

instance : ∀ carve, Decidable (Legal carve)
  | .spans numSpans => inferInstanceAs (Decidable (1 ≤ numSpans))
  | .run runBytes => inferInstanceAs (Decidable (0 < runBytes ∧ runBytes % spanBytes = 0))

def range (a : BumpArena) (cur : Nat) : Carve → Option (Nat × Nat)
  | .spans numSpans => a.spansFrom numSpans cur
  | .run runBytes => a.runFrom runBytes cur

end Carve

/-- Where a thread is in a carve. -/
inductive Pc where
  | idle
  | load (carve : Carve)
  | compute (carve : Carve) (cur : Nat)
  | exchange (carve : Carve) (cur start stop : Nat)
deriving Repr, DecidableEq

/-- What a carve returned; `none` is the empty range of `carve_spans` as well. -/
structure Answer where
  thread : Nat
  carve : Carve
  range : Option (Nat × Nat)
deriving Repr, DecidableEq

/-- The arena, the values its cursor has had, where every thread is, and the answers,
    the last one first. -/
structure Race where
  arena : BumpArena
  past : List Nat
  pc : Nat → Pc
  answers : List Answer

namespace Race

def goto (r : Race) (t : Nat) (pc : Pc) : Race := { r with pc := Function.update r.pc t pc }

def answer (r : Race) (t : Nat) (carve : Carve) (range : Option (Nat × Nat)) : Race :=
  { r.goto t .idle with answers := ⟨t, carve, range⟩ :: r.answers }

def moveCursor (r : Race) (stop : Nat) : Race :=
  { r with arena := { r.arena with cursor := stop }, past := stop :: r.past }

/-- One step of thread `t`. An exchange can lose though the cursor is as expected. -/
inductive Step (r : Race) (t : Nat) : Race → Prop where
  | call (carve : Carve) : r.pc t = .idle → carve.Legal → Step r t (r.goto t (.load carve))
  | load {carve} (v : Nat) : r.pc t = .load carve → v ∈ r.past → Step r t (r.goto t (.compute carve v))
  | refuse {carve cur} : r.pc t = .compute carve cur → carve.range r.arena cur = none →
      Step r t (r.answer t carve none)
  | propose {carve cur start stop} : r.pc t = .compute carve cur →
      carve.range r.arena cur = some (start, stop) → Step r t (r.goto t (.exchange carve cur start stop))
  | win {carve cur start stop} : r.pc t = .exchange carve cur start stop → r.arena.cursor = cur →
      Step r t ((r.moveCursor stop).answer t carve (some (start, stop)))
  | lose {carve cur start stop} (v : Nat) : r.pc t = .exchange carve cur start stop → v ∈ r.past →
      Step r t (r.goto t (.compute carve v))

/-- An arena over `[base, limit)` that nobody has carved from. -/
def start (base limit : Nat) : Race := ⟨⟨base, limit, base⟩, [base], fun _ => .idle, []⟩

def Reached (base limit : Nat) : Race → Prop :=
  Reachable (· = start base limit) fun r r' => ∃ t, Step r t r'

/-- The ranges handed out, the last one first. -/
def granted (r : Race) : List (Nat × Nat) := r.answers.filterMap Answer.range

end Race

/-! ## What a computed range is -/

/-- On the span grid of an arena. -/
def OnGrid (base v : Nat) : Prop := ∃ k, v = base + k * spanBytes

/-- Whole spans of the arena, as many as the carve may get. -/
structure Fair (base limit : Nat) (carve : Carve) (start stop : Nat) : Prop where
  grid : OnGrid base start
  whole : ∃ n, 0 < n ∧ stop = start + n * spanBytes
  inside : stop ≤ limit
  asked : match carve with
    | .spans numSpans => stop ≤ start + numSpans * spanBytes
    | .run runBytes => stop = start + runBytes

variable {a : BumpArena} {carve : Carve} {cur first stop : Nat}

/-- Rounding up leaves a place on the grid alone. -/
theorem on_grid (base k : Nat) :
    base + (base + k * spanBytes - base + (spanBytes - 1)) / spanBytes * spanBytes = base + k * spanBytes := by
  unfold spanBytes
  omega

/-- From a cursor on the grid a carve asks for the spans right there. -/
theorem range_fair (legal : carve.Legal) (grid : OnGrid a.base cur)
    (range : carve.range a cur = some (first, stop)) : first = cur ∧ Fair a.base a.limit carve first stop := by
  obtain ⟨k, rfl⟩ := grid
  cases carve with
  | spans numSpans =>
      have some : 1 ≤ numSpans := legal
      rw [Carve.range, BumpArena.spansFrom] at range
      split at range
      · cases range
      · rename_i avail
        cases range
        have pos : 0 < min numSpans ((a.limit - (a.base + k * spanBytes)) / spanBytes) :=
          lt_min some (Nat.pos_of_ne_zero avail)
        have fits : min numSpans ((a.limit - (a.base + k * spanBytes)) / spanBytes) * spanBytes ≤
            a.limit - (a.base + k * spanBytes) :=
          (Nat.mul_le_mul_right _ (min_le_right ..)).trans (Nat.div_mul_le_self ..)
        have less : a.base + k * spanBytes ≤ a.limit := by
          by_contra beyond
          rw [Nat.sub_eq_zero_of_le (by omega), Nat.zero_div] at avail
          exact avail rfl
        refine ⟨rfl, ⟨k, rfl⟩, ⟨_, pos, rfl⟩, by omega, ?_⟩
        exact Nat.add_le_add_left (Nat.mul_le_mul_right _ (min_le_left ..)) _
  | run runBytes =>
      obtain ⟨pos, whole⟩ := legal
      rw [Carve.range, BumpArena.runFrom, on_grid] at range
      split at range
      · cases range
      · rename_i fits
        cases range
        refine ⟨rfl, ⟨k, rfl⟩, ⟨runBytes / spanBytes, ?_, ?_⟩, by omega, rfl⟩
        · unfold spanBytes at *
          omega
        · rw [Nat.div_mul_cancel (Nat.dvd_of_mod_eq_zero whole)]

/-! ## What a race keeps -/

/-- Ranges that follow each other from `base` to `stop`, the last one first. -/
def Tiled (base : Nat) : List (Nat × Nat) → Nat → Prop
  | [], stop => stop = base
  | x :: rest, stop => x.2 = stop ∧ x.1 ≤ x.2 ∧ Tiled base rest x.1

theorem Tiled.below {base : Nat} {ranges : List (Nat × Nat)} (tiled : Tiled base ranges stop) :
    ∀ x ∈ ranges, x.2 ≤ stop := by
  induction ranges generalizing stop with
  | nil => simp
  | cons x rest ih =>
      obtain ⟨ends, proper, tiled⟩ := tiled
      refine List.forall_mem_cons.mpr ⟨ends.le, fun y member => ?_⟩
      have := ih tiled y member
      omega

/-- An earlier range ends before a later one starts. -/
theorem Tiled.apart {base : Nat} {ranges : List (Nat × Nat)} (tiled : Tiled base ranges stop) :
    ranges.Pairwise fun later earlier => earlier.2 ≤ later.1 := by
  induction ranges generalizing stop with
  | nil => exact List.Pairwise.nil
  | cons x rest ih =>
      obtain ⟨-, -, tiled⟩ := tiled
      exact List.pairwise_cons.mpr ⟨tiled.below, ih tiled⟩

namespace Race

variable {base limit : Nat} {r r' : Race} {t : Nat}

/-- What a thread knows is a value the cursor has had, and what it proposes was computed
    from that. -/
def Honest (r : Race) : Pc → Prop
  | .idle => True
  | .load carve => carve.Legal
  | .compute carve cur => carve.Legal ∧ cur ∈ r.past
  | .exchange carve cur start stop =>
      carve.Legal ∧ cur ∈ r.past ∧ carve.range r.arena cur = some (start, stop)

structure Inv (base limit : Nat) (r : Race) : Prop where
  bounds : r.arena.base = base ∧ r.arena.limit = limit
  current : r.arena.cursor ∈ r.past
  grid : ∀ v ∈ r.past, OnGrid base v ∧ v ≤ r.arena.cursor
  top : r.arena.cursor ≤ limit
  honest : ∀ t, r.Honest (r.pc t)
  tiled : Tiled base r.granted r.arena.cursor
  fair : ∀ x ∈ r.answers, ∀ start stop, x.range = some (start, stop) → Fair base limit x.carve start stop

theorem start_inv (ordered : base ≤ limit) : (start base limit).Inv base limit where
  bounds := ⟨rfl, rfl⟩
  current := List.mem_singleton_self base
  grid v member := by
    rw [List.mem_singleton.mp member]
    exact ⟨⟨0, by rw [Nat.zero_mul, Nat.add_zero]⟩, le_rfl⟩
  top := ordered
  honest _ := trivial
  tiled := rfl
  fair := by simp [start]

theorem Honest.later {pc : Pc} (honest : r.Honest pc) (stop : Nat) : (r.moveCursor stop).Honest pc := by
  cases pc with
  | idle => trivial
  | load carve => exact honest
  | compute carve cur => exact ⟨honest.1, List.mem_cons_of_mem _ honest.2⟩
  | exchange carve cur start stop =>
      refine ⟨honest.1, List.mem_cons_of_mem _ honest.2.1, ?_⟩
      cases carve with
      | spans numSpans => exact honest.2.2
      | run runBytes => exact honest.2.2

theorem honest_update (all : ∀ t, r.Honest (r.pc t)) (pc : Pc) (honest : r.Honest pc) (t u : Nat) :
    r.Honest (Function.update r.pc t pc u) := by
  by_cases same : u = t
  · subst same
    rwa [Function.update_self]
  · rw [Function.update_of_ne same]
    exact all u

theorem Inv.goto (inv : Inv base limit r) (pc : Pc) (honest : r.Honest pc) (t : Nat) :
    Inv base limit (r.goto t pc) :=
  { inv with honest := honest_update inv.honest pc honest t }

theorem Inv.refuse (inv : Inv base limit r) (carve : Carve) (t : Nat) :
    Inv base limit (r.answer t carve none) where
  bounds := inv.bounds
  current := inv.current
  grid := inv.grid
  top := inv.top
  honest := honest_update inv.honest .idle trivial t
  tiled := inv.tiled
  fair := List.forall_mem_cons.mpr ⟨nofun, inv.fair⟩

/-- What a thread proposes starts at the value it read. -/
theorem Inv.proposal (inv : Inv base limit r)
    (here : r.pc t = .exchange carve cur first stop) : first = cur ∧ Fair base limit carve first stop := by
  have honest := inv.honest t
  rw [here] at honest
  obtain ⟨legal, known, range⟩ := honest
  obtain ⟨rfl, rfl⟩ := inv.bounds
  exact range_fair legal (inv.grid cur known).1 range

theorem Inv.win (inv : Inv base limit r) (here : r.pc t = .exchange carve r.arena.cursor first stop) :
    Inv base limit ((r.moveCursor stop).answer t carve (some (first, stop))) := by
  obtain ⟨rfl, fair⟩ := inv.proposal here
  obtain ⟨n, pos, ends⟩ := fair.whole
  obtain ⟨k, grid⟩ := fair.grid
  have forward : r.arena.cursor ≤ stop := by omega
  have onGrid : OnGrid base stop := ⟨k + n, by rw [ends, grid, Nat.add_mul, Nat.add_assoc]⟩
  have later : ∀ u, (r.moveCursor stop).Honest (r.pc u) := fun u => (inv.honest u).later stop
  constructor
  · exact inv.bounds
  · exact List.mem_cons_self
  · refine List.forall_mem_cons.mpr ⟨⟨onGrid, le_rfl⟩, fun v member => ?_⟩
    exact ⟨(inv.grid v member).1, (inv.grid v member).2.trans forward⟩
  · exact fair.inside
  · exact honest_update (r := r.moveCursor stop) later .idle trivial t
  · exact ⟨rfl, forward, inv.tiled⟩
  · refine List.forall_mem_cons.mpr ⟨fun start stop same => ?_, inv.fair⟩
    cases same
    exact fair

theorem Inv.step (inv : Inv base limit r) (taken : Step r t r') : Inv base limit r' := by
  have honest := inv.honest t
  cases taken with
  | call carve idle legal => exact inv.goto (.load carve) legal t
  | @load carve v here known =>
      rw [here] at honest
      exact inv.goto (.compute carve v) ⟨honest, known⟩ t
  | refuse here refused => exact inv.refuse _ t
  | @propose carve cur start stop here range =>
      rw [here] at honest
      exact inv.goto (.exchange carve cur start stop) ⟨honest.1, honest.2, range⟩ t
  | win here same =>
      subst same
      exact inv.win here
  | @lose carve cur start stop v here known =>
      rw [here] at honest
      exact inv.goto (.compute carve v) ⟨honest.1, known⟩ t

theorem Reached.inv (ordered : base ≤ limit) (reached : Reached base limit r) : Inv base limit r := by
  apply reached.invariant
  · rintro _ rfl
    exact start_inv ordered
  · rintro r r' inv ⟨t, taken⟩
    exact inv.step taken

/-! ## The cursor step by step -/

/-- A step moves the cursor only by answering a carve with the range it moved over. -/
theorem Inv.moved (inv : Inv base limit r) (taken : Step r t r') :
    r.arena.cursor ≤ r'.arena.cursor ∧ (r'.arena.cursor ≠ r.arena.cursor →
      ∃ carve, r'.answers = ⟨t, carve, some (r.arena.cursor, r'.arena.cursor)⟩ :: r.answers) := by
  cases taken with
  | call carve idle legal => exact ⟨le_rfl, fun moved => (moved rfl).elim⟩
  | load v here known => exact ⟨le_rfl, fun moved => (moved rfl).elim⟩
  | refuse here refused => exact ⟨le_rfl, fun moved => (moved rfl).elim⟩
  | propose here range => exact ⟨le_rfl, fun moved => (moved rfl).elim⟩
  | lose v here known => exact ⟨le_rfl, fun moved => (moved rfl).elim⟩
  | @win carve cur start stop here same =>
      subst same
      obtain ⟨rfl, fair⟩ := inv.proposal here
      obtain ⟨n, -, ends⟩ := fair.whole
      have forward : r.arena.cursor ≤ stop := by omega
      exact ⟨forward, fun _ => ⟨carve, rfl⟩⟩

end Race

end Cursor

namespace BumpArena

/-- `carveSpans` is the computation and the exchange in one. -/
theorem carveSpans_eq (a : BumpArena) (numSpans cls home : Nat) (spans : SpanTable) :
    a.carveSpans numSpans cls home spans = match a.spansFrom numSpans a.cursor with
      | none => ((a.cursor, a.cursor), a, spans)
      | some (start, stop) => ((start, stop), { a with cursor := stop },
          spans.assignRange start (stop - start) cls home) := by
  rw [carveSpans, spansFrom]
  split <;> rfl

theorem carveRun_eq (a : BumpArena) (runBytes : Nat) :
    a.carveRun runBytes = (a.runFrom runBytes a.cursor).map fun range => (range.1, { a with cursor := range.2 }) := by
  rw [carveRun, runFrom]
  split <;> rfl

end BumpArena

namespace Cursor.Race

variable {base limit : Nat} {r r' : Race} {t : Nat}

/-- A run handed out leads back to itself through the span index, as a `u32` too where
    the arena has no more spans than that counts. -/
theorem fair_indexed {carve : Carve} {start stop : Nat} (fair : Fair base limit carve start stop)
    {large : LargeAllocator} (origin : large.arenaBase = base) :
    large.spanPtr (large.spanIndex start) = start ∧
      (limit ≤ base + 2 ^ 48 → large.spanPtr (wrap32 (large.spanIndex start)) = start) := by
  obtain ⟨k, rfl⟩ := fair.grid
  obtain ⟨n, pos, rfl⟩ := fair.whole
  have index : large.spanIndex (base + k * spanBytes) = k := by
    rw [LargeAllocator.spanIndex, origin, Nat.add_sub_cancel_left]
    exact Nat.mul_div_cancel k (by decide)
  rw [index, LargeAllocator.spanPtr, LargeAllocator.spanPtr, origin]
  refine ⟨rfl, fun narrow => ?_⟩
  have inside := fair.inside
  have more : 1 * spanBytes ≤ n * spanBytes := Nat.mul_le_mul_right _ pos
  rw [wrap32_small]
  unfold spanBytes at *
  omega

/-- However carves of any number of threads interleave, their ranges are apart, whole and
    inside; the cursor keeps to the grid, only moves forward, and a carve that gets
    nothing does not move it. -/
theorem carves_apart (ordered : base ≤ limit) (reached : Reached base limit r) :
    (r.granted.Pairwise fun later earlier => earlier.2 ≤ later.1) ∧
    (∀ x ∈ r.answers, ∀ start stop, x.range = some (start, stop) → Fair base limit x.carve start stop) ∧
    (base ≤ r.arena.cursor ∧ r.arena.cursor ≤ limit ∧ OnGrid base r.arena.cursor) ∧
    (∀ t r', Step r t r' → r.arena.cursor ≤ r'.arena.cursor ∧
      (r'.arena.cursor ≠ r.arena.cursor →
        ∃ carve, r'.answers = ⟨t, carve, some (r.arena.cursor, r'.arena.cursor)⟩ :: r.answers) ∧
      ∀ carve, r'.answers = ⟨t, carve, none⟩ :: r.answers → r'.arena.cursor = r.arena.cursor) ∧
    ∀ large : LargeAllocator, large.arenaBase = base → ∀ x ∈ r.answers, ∀ bytes start stop,
      x.carve = .run bytes → x.range = some (start, stop) →
      large.spanPtr (large.spanIndex start) = start ∧
        (limit ≤ base + 2 ^ 48 → large.spanPtr (wrap32 (large.spanIndex start)) = start) := by
  have inv := reached.inv ordered
  obtain ⟨k, onGrid⟩ := (inv.grid _ inv.current).1
  refine ⟨inv.tiled.apart, inv.fair, ⟨by omega, inv.top, k, onGrid⟩, fun t r' taken => ?_, ?_⟩
  · obtain ⟨forward, moved⟩ := inv.moved taken
    refine ⟨forward, moved, fun carve refused => ?_⟩
    by_contra other
    obtain ⟨carve', granted⟩ := moved other
    rw [granted] at refused
    cases (List.cons.inj refused).1
  · intro large origin x member bytes start stop _ range
    exact fair_indexed (inv.fair x member start stop range) origin

/-- Two threads read the same cursor; the run wins, and the spans are carved behind it. -/
theorem carves_apart_two : ∃ r, Reached 4096 200804 r ∧
    r.granted = [(69632, 200704), (4096, 69632)] ∧
    r.granted.Pairwise fun later earlier => earlier.2 ≤ later.1 := by
  have started : Reached 4096 200804 (start 4096 200804) := .start rfl
  have called := (started.next ⟨0, .call (.spans 2) rfl (by decide)⟩).next
    ⟨1, .call (.run 65536) rfl (by decide)⟩
  have loaded := (called.next ⟨0, .load 4096 rfl (by decide)⟩).next ⟨1, .load 4096 rfl (by decide)⟩
  have first : Carve.range ⟨4096, 200804, 4096⟩ 4096 (.spans 2) = some (4096, 135168) := by decide +kernel
  have second : Carve.range ⟨4096, 200804, 4096⟩ 4096 (.run 65536) = some (4096, 69632) := by decide +kernel
  have third : Carve.range ⟨69632, 200804, 4096⟩ 69632 (.spans 2) = some (69632, 200704) := by decide +kernel
  have proposed := (loaded.next ⟨0, .propose rfl first⟩).next ⟨1, .propose rfl second⟩
  have won := (proposed.next ⟨1, .win rfl rfl⟩).next ⟨0, .lose 69632 rfl (by decide)⟩
  have again := (won.next ⟨0, .propose rfl third⟩).next ⟨0, .win rfl rfl⟩
  exact ⟨_, again, by decide, (carves_apart (by decide) again).1⟩

end Cursor.Race

end Toccata
