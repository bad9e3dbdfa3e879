import Toccata.SpanPool.Refinement

/-! # Histories of the span pool

Runs of `alloc` and `free` from a new pool, together with the set of spans the
history has left free. The recorded state is a function of that set alone.
-/

namespace Toccata.SpanPool

open Foundations

/-- The spans still free after a request for `n` spans was answered. -/
def afterAlloc (F : Set Nat) (n : Nat) : Option Nat → Set Nat
  | none => F
  | some head => F \ Set.Ico head (head + n)

/-- Pools reached from `new numSpans` by calls in any order, with the spans then
    free. A caller frees only spans which are in range and not already free. -/
inductive Reached (numSpans : Nat) : SpanPool → Set Nat → Prop where
  | new : Reached numSpans (SpanPool.new numSpans) ∅
  | alloc {p p' F n answer} : Reached numSpans p F → p.alloc n = some (answer, p') →
      Reached numSpans p' (afterAlloc F n answer)
  | free {p p' F head count} : Reached numSpans p F → 1 ≤ count → head + count ≤ numSpans →
      (∀ k, head ≤ k → k < head + count → k ∉ F) → p.free head count = some p' →
      Reached numSpans p' (F ∪ Set.Ico head (head + count))

/-- `[h, h + c)` is recorded as one free run. -/
def Recorded (p : SpanPool) (numSpans h c : Nat) : Prop :=
  h < numSpans ∧ c ≠ 0 ∧ p.headCount.cell h = c

/-- The recorded state is the collection of maximal intervals of `F`. -/
structure Refines (p : SpanPool) (numSpans : Nat) (F : Set Nat) : Prop where
  runs : ∀ h c, p.Recorded numSpans h c ↔ IsRun F h c
  apart : ∀ h c h' c', p.Recorded numSpans h c → p.Recorded numSpans h' c' → h ≠ h' →
    h + c < h' ∨ h' + c' < h
  covered : ∀ k, k ∈ F ↔ ∃ h c, p.Recorded numSpans h c ∧ h ≤ k ∧ k < h + c
  tails : ∀ t < numSpans, ∀ c, c ≠ 0 →
    (p.tailCount.cell t = c ↔ ∃ h, p.Recorded numSpans h c ∧ t + 1 = h + c)
  buckets : ∀ c ≤ numSpans, ∃ nodes, p.Bucket c nodes ∧ ∀ h, h ∈ nodes ↔ p.Recorded numSpans h c
  l0 : ∀ c ≤ numSpans,
    ((p.l0.cell (c / 64)).getLsbD (c % 64) = true ↔ p.bucketHead.cell c ≠ noSpan)
  l1 : ∀ i < p.l0.len, ((p.l1.cell (i / 64)).getLsbD (i % 64) = true ↔ p.l0.cell i ≠ 0#64)

variable {p : SpanPool} {numSpans : Nat} {F : Set Nat}

theorem Records.recorded {n len : Nat} (R : p.Records n len F) (h c : Nat) :
    p.Recorded n h c ↔ IsRun F h c := by
  constructor
  · rintro ⟨inside, nonzero, tag⟩
    exact (R.heads h inside c nonzero).mp tag
  · intro r
    have inside := R.run_lt r
    have nonzero : c ≠ 0 := by have := r.pos; omega
    exact ⟨inside, nonzero, (R.heads h inside c nonzero).mpr r⟩

theorem Represents.refines (R : p.Represents numSpans F) : p.Refines numSpans F where
  runs := R.recorded
  apart h c h' c' r r' different :=
    ((R.recorded h c).mp r).separated ((R.recorded h' c').mp r') different
  covered k := by
    simp only [R.recorded]
    constructor
    · exact exists_run_through R.bounded
    · rintro ⟨h, c, r, lo, hi⟩
      exact r.inside k lo hi
  tails t inside c nonzero := by
    rw [R.tails t inside c nonzero]
    simp only [R.recorded]
    constructor
    · rintro ⟨le, r⟩
      exact ⟨_, r, by omega⟩
    · rintro ⟨h, r, stop⟩
      rw [show t + 1 - c = h by omega]
      exact ⟨by omega, r⟩
  buckets c le := by
    simp only [R.recorded]
    exact R.buckets c le
  l0 c le := by
    obtain ⟨nodes, ⟨walk, -⟩, members⟩ := R.buckets c le
    rw [R.occupied.level0 c (by have := R.sized.words; omega), Ne, walk.empty_iff]
    constructor
    · rintro ⟨h, r⟩ none
      have := (members h).mpr r
      rw [none] at this
      exact List.not_mem_nil this
    · intro some
      obtain ⟨h, inside⟩ := List.exists_mem_of_ne_nil nodes some
      exact ⟨h, (members h).mp inside⟩
  l1 i inside := by
    rw [R.occupied.level1 i (by have := R.occupied.summarized; omega)]
    exact ⟨fun h => h.2, fun filled => ⟨inside, filled⟩⟩

/-- One call preserves the correspondence, so every history does. -/
theorem Reached.represents (pos : 1 ≤ numSpans) (small : numSpans < 2 ^ 32)
    (reached : Reached numSpans p F) : p.Represents numSpans F := by
  induction reached with
  | new => exact new_represents pos small
  | @alloc p p' F n answer _ call R =>
      rcases alloc_represents R n with ⟨none, -⟩ | ⟨h, m, p'', some, -, -, -, -, R'⟩
      · obtain ⟨rfl, rfl⟩ := Prod.mk.inj (Option.some.inj (none.symm.trans call))
        exact R
      · obtain ⟨rfl, rfl⟩ := Prod.mk.inj (Option.some.inj (some.symm.trans call))
        exact R'
  | @free p p' F head count _ nonempty fits outside call R =>
      obtain ⟨p'', done, R'⟩ := free_represents R nonempty fits outside
      rwa [Option.some.inj (call.symm.trans done)]

/-- Every history keeps the pool equal to the maximal free intervals, no call of
    it panics, the recorded runs depend on the free set alone, and a fully freed
    pool is one run. -/
theorem reached_refines (pos : 1 ≤ numSpans) (small : numSpans < 2 ^ 32)
    (reached : Reached numSpans p F) :
    p.Refines numSpans F ∧
    (∀ n, (p.alloc n).isSome) ∧
    (∀ head count, 1 ≤ count → head + count ≤ numSpans →
      (∀ k, head ≤ k → k < head + count → k ∉ F) → (p.free head count).isSome) ∧
    (∀ p', Reached numSpans p' F →
      ∀ h c, p'.Recorded numSpans h c ↔ p.Recorded numSpans h c) ∧
    (F = Set.Iio numSpans → ∀ h c, p.Recorded numSpans h c ↔ h = 0 ∧ c = numSpans) := by
  have R := reached.represents pos small
  refine ⟨R.refines, ?_, ?_, ?_, ?_⟩
  · intro n
    rcases alloc_represents R n with ⟨none, -⟩ | ⟨h, m, p', some, -⟩
    · simp only [none, Option.isSome_some]
    · simp only [some, Option.isSome_some]
  · intro head count nonempty fits outside
    obtain ⟨p', done, -⟩ := free_represents R nonempty fits outside
    simp only [done, Option.isSome_some]
  · intro p' reached' h c
    rw [(reached'.represents pos small).recorded, R.recorded]
  · rintro rfl h c
    rw [R.recorded, isRun_Iio]
    exact ⟨fun r => ⟨r.1, r.2.1⟩, fun r => ⟨r.1, r.2, pos⟩⟩

/-- Three spans, freed one by one around the middle one, are one run. -/
theorem reached_refines_three :
    ∃ p, Reached 3 p (Set.Iio 3) ∧ p.Recorded 3 0 3 := by
  have step : ∀ {p F} head, Reached 3 p F → head < 3 → head ∉ F →
      ∃ p', Reached 3 p' (F ∪ Set.Ico head (head + 1)) := by
    intro p F head reached inside outside
    have safe := (reached_refines (by decide) (by decide) reached).2.2.1 head 1 le_rfl (by omega)
      (fun k lo hi => by rwa [show k = head by omega])
    obtain ⟨p', done⟩ := Option.isSome_iff_exists.mp safe
    exact ⟨p', .free reached le_rfl (by omega) (fun k lo hi => by rwa [show k = head by omega]) done⟩
  obtain ⟨p₁, h₁⟩ := step 0 .new (by decide) (by simp)
  obtain ⟨p₂, h₂⟩ := step 2 h₁ (by decide) (by simp)
  obtain ⟨p₃, h₃⟩ := step 1 h₂ (by decide) (by simp)
  have all : (((∅ ∪ Set.Ico 0 (0 + 1)) ∪ Set.Ico 2 (2 + 1)) ∪ Set.Ico 1 (1 + 1) : Set Nat)
      = Set.Iio 3 := by
    ext k
    simp only [Set.mem_union, Set.mem_Ico, Set.mem_Iio, Set.mem_empty_iff_false, false_or]
    omega
  rw [all] at h₃
  refine ⟨p₃, h₃, ?_⟩
  exact ((reached_refines (by decide) (by decide) h₃).2.2.2.2 rfl 0 3).mpr ⟨rfl, rfl⟩

/-! ## Best fit -/

/-- Pools reached by legal calls, with the spans then free. A caller frees only spans
    which the pool counts, as the assertion of `free` asks, and which are not already
    free. -/
inductive LegallyReached (numSpans : Nat) : SpanPool → Set Nat → Prop where
  | new : LegallyReached numSpans (SpanPool.new numSpans) ∅
  | alloc {p p' F n answer} : LegallyReached numSpans p F → p.alloc n = some (answer, p') →
      LegallyReached numSpans p' (afterAlloc F n answer)
  | free {p p' F head count} : LegallyReached numSpans p F → 1 ≤ count →
      head + count ≤ p.numSpans → (∀ k, head ≤ k → k < head + count → k ∉ F) →
      p.free head count = some p' →
      LegallyReached numSpans p' (F ∪ Set.Ico head (head + count))

theorem LegallyReached.records (reached : LegallyReached numSpans p F) :
    p.Records (wrap32 (max numSpans 1)) (max numSpans 1) F := by
  induction reached with
  | new => exact new_records numSpans
  | @alloc p p' F n answer _ call R =>
      rcases alloc_represents R n with ⟨none, -⟩ | ⟨h, m, p'', some, -, -, -, -, R'⟩
      · obtain ⟨rfl, rfl⟩ := Prod.mk.inj (Option.some.inj (none.symm.trans call))
        exact R
      · obtain ⟨rfl, rfl⟩ := Prod.mk.inj (Option.some.inj (some.symm.trans call))
        exact R'
  | @free p p' F head count _ nonempty fits outside call R =>
      rw [R.sized.numSpans] at fits
      obtain ⟨p'', done, R'⟩ := free_represents R nonempty fits outside
      rwa [Option.some.inj (call.symm.trans done)]

/-- `alloc n` took the front of a shortest run that is long enough: the run headed at
    `h`, of `m` spans. -/
structure BestFit (p p' : SpanPool) (F : Set Nat) (n h m : Nat) : Prop where
  run : IsRun F h m
  enough : n ≤ m
  least : ∀ h' c', IsRun F h' c' → n ≤ c' → m ≤ c'
  whole : (∃ h', IsRun F h' n) → m = n
  /-- What is recorded afterwards are the runs of the smaller free set. -/
  recorded : ∀ h' c', p'.Recorded p'.numSpans h' c' ↔ IsRun (F \ Set.Ico h (h + n)) h' c'
  /-- These are the other runs as they were, and the rest of the split one. -/
  others : ∀ h' c', p'.Recorded p'.numSpans h' c' ↔
    (p.Recorded p.numSpans h' c' ∧ h' ≠ h) ∨ (n < m ∧ h' = h + n ∧ c' = m - n)

theorem Records.bestFit {p' : SpanPool} {n len k h m : Nat} (R : p.Records n len F)
    (R' : p'.Records n len (F \ Set.Ico h (h + k))) (pos : 0 < k) (run : IsRun F h m)
    (enough : k ≤ m) (least : ∀ h' c', IsRun F h' c' → k ≤ c' → m ≤ c') :
    BestFit p p' F k h m where
  run := run
  enough := enough
  least := least
  whole := by
    rintro ⟨h', fits⟩
    exact Nat.le_antisymm (least h' k fits le_rfl) enough
  recorded h' c' := by rw [R'.sized.numSpans, R'.recorded]
  others h' c' := by
    rw [R'.sized.numSpans, R.sized.numSpans, R'.recorded, R.recorded]
    exact isRun_take run pos enough

/-- After every legal history the pool records the maximal runs of the free spans, and
    `alloc n` answers `none`, changing nothing, exactly when `n` is 0 or no run is long
    enough; otherwise it takes the front of a shortest one. -/
theorem alloc_best_fit (reached : LegallyReached numSpans p F) (n : Nat) :
    (∀ h c, p.Recorded p.numSpans h c ↔ IsRun F h c) ∧
    ((n = 0 ∨ ∀ h c, IsRun F h c → c < n) ∧ p.alloc n = some (none, p) ∨
      (n ≠ 0 ∧ ∃ h c, IsRun F h c ∧ n ≤ c) ∧
        ∃ h m p', p.alloc n = some (some h, p') ∧ BestFit p p' F n h m) := by
  have R := reached.records
  refine ⟨fun h c => by rw [R.sized.numSpans, R.recorded], ?_⟩
  rcases alloc_represents R n with ⟨none, short⟩ | ⟨h, m, p', some, pos, enough, run, least, R'⟩
  · exact Or.inl ⟨short, none⟩
  · exact Or.inr ⟨⟨by omega, h, m, run, enough⟩, h, m, p', some,
      R.bestFit R' pos run enough least⟩

/-- Of free runs of three and of two spans, the shorter loses its front to a request for
    one. -/
theorem alloc_best_fit_shorter : ∃ p F p', LegallyReached 6 p F ∧
    p.Recorded p.numSpans 0 3 ∧ p.Recorded p.numSpans 4 2 ∧
    p.alloc 1 = some (some 4, p') ∧ BestFit p p' F 1 4 2 := by
  have apart : ∀ k, 4 ≤ k → k < 4 + 2 → k ∉ (∅ ∪ Set.Ico 0 (0 + 3) : Set Nat) := by
    intro k lo _
    simp only [Set.empty_union, Set.mem_Ico]
    omega
  obtain ⟨p₁, first, R₁⟩ := free_represents (new_records 6) (show 1 ≤ 3 by decide)
    (show 0 + 3 ≤ 6 by decide) (by simp)
  obtain ⟨p₂, second, -⟩ := free_represents R₁ (show 1 ≤ 2 by decide) (show 4 + 2 ≤ 6 by decide) apart
  have reached : LegallyReached 6 p₂ _ := .free (.free .new (by decide) (by decide) (by simp) first)
    (by decide) (R₁.sized.numSpans ▸ by decide) apart second
  have runs : ∀ h c, IsRun ((∅ ∪ Set.Ico 0 (0 + 3)) ∪ Set.Ico 4 (4 + 2)) h c ↔
      (h = 0 ∧ c = 3) ∨ (h = 4 ∧ c = 2) := by
    intro h c
    have none : ¬ IsRun ∅ h c := fun run => run.head_mem
    rw [isRun_union (by decide) apart (by simp) (by simp), isRun_union (by decide) (by simp)
      (by simp) (by simp)]
    simp only [none, false_or]
  obtain ⟨records, ⟨none | short, -⟩ | ⟨-, h, m, p', granted, fit⟩⟩ := alloc_best_fit reached 1
  · exact absurd none (by decide)
  · exact absurd (short 4 2 ((runs 4 2).mpr (.inr ⟨rfl, rfl⟩))) (by decide)
  · have least := fit.least 4 2 ((runs 4 2).mpr (.inr ⟨rfl, rfl⟩)) (by decide)
    rcases (runs h m).mp fit.run with ⟨rfl, rfl⟩ | ⟨rfl, rfl⟩
    · exact absurd least (by decide)
    · exact ⟨p₂, _, p', reached, (records 0 3).mpr ((runs 0 3).mpr (.inl ⟨rfl, rfl⟩)),
        (records 4 2).mpr fit.run, granted, fit⟩

/-! ## Pools too large for their counts -/

/-- With `2 ^ 32` spans the narrowed count is 0, the right neighbour is never
    looked at, and two adjacent free spans stay two runs. -/
theorem narrowed_count_leaves_adjacent_runs :
    ∃ p F, Reached (2 ^ 32) p F ∧ ¬ p.Refines (2 ^ 32) F := by
  obtain ⟨p₁, p₂, first, second, left, right⟩ : ∃ p₁ p₂, (new (2 ^ 32)).free 1 1 = some p₁ ∧
      p₁.free 0 1 = some p₂ ∧ p₂.headCount.cell 0 = 1 ∧ p₂.headCount.cell 1 = 1 :=
    ⟨_, _, rfl, rfl, rfl, rfl⟩
  have h₁ := Reached.free .new le_rfl (by decide) (by simp) first
  have h₂ := Reached.free h₁ le_rfl (by decide)
    (by
      rintro k - hi (none | ⟨lo, -⟩)
      · exact none
      · omega) second
  refine ⟨p₂, _, h₂, fun refines => ?_⟩
  have gap := refines.apart 0 1 1 1 ⟨by decide, by decide, left⟩ ⟨by decide, by decide, right⟩
    (by decide)
  omega

end Toccata.SpanPool
