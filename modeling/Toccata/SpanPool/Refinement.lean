import Toccata.SpanPool.Occupancy
import Toccata.Foundations.DList
import Toccata.Foundations.Run

/-! # The span pool refines a set of free spans

The abstract state of the pool is the set of spans which are free; its runs are
the maximal intervals of that set. `Represents` ties the boundary tags, the
bucket lists and the occupancy bitmap to those runs. Filing and removing a run
each change the set by one interval, and the public operations are compositions
of the two.
-/

namespace Toccata.SpanPool

open Foundations

/-- The slices have the lengths `new` gave them: `len` spans, of which the pool counts
    the first `n`. -/
structure Sized (p : SpanPool) (n len : Nat) : Prop where
  small : n < 2 ^ 32
  counted : n ≤ len
  numSpans : p.numSpans = n
  bucketHead : p.bucketHead.len = len + 1
  next : p.next.len = len
  prev : p.prev.len = len
  headCount : p.headCount.len = len
  tailCount : p.tailCount.len = len
  words : n + 1 ≤ p.l0.len * 64

/-- The nodes of bucket `c`, in list order. -/
def Bucket (p : SpanPool) (c : Nat) (nodes : List Nat) : Prop :=
  DList noSpan p.next.cell p.prev.cell noSpan (p.bucketHead.cell c) nodes ∧ nodes.Nodup

/-- The pool counts `n` of its `len` spans and records exactly the runs of the free
    set `F`. -/
structure Records (p : SpanPool) (n len : Nat) (F : Set Nat) : Prop where
  sized : p.Sized n len
  bounded : ∀ k ∈ F, k < n
  heads : ∀ h < n, ∀ c, c ≠ 0 → (p.headCount.cell h = c ↔ IsRun F h c)
  tails : ∀ t < n, ∀ c, c ≠ 0 → (p.tailCount.cell t = c ↔ c ≤ t + 1 ∧ IsRun F (t + 1 - c) c)
  buckets : ∀ c ≤ n, ∃ nodes, p.Bucket c nodes ∧ ∀ h, h ∈ nodes ↔ IsRun F h c
  occupied : p.Occupied {c | ∃ h, IsRun F h c}

/-- The pool over `n` spans records exactly the runs of the free set `F`. -/
abbrev Represents (p : SpanPool) (n : Nat) (F : Set Nat) : Prop := p.Records n n F

theorem Occupied.congr {p q : SpanPool} {B : Set Nat} (o : p.Occupied B)
    (l0 : q.l0 = p.l0) (l1 : q.l1 = p.l1) : q.Occupied B := by
  obtain ⟨small, summarized, within, level0, level1⟩ := o
  exact ⟨small, by rwa [l0, l1], by rwa [l0], by rwa [l0], by rwa [l0, l1]⟩

theorem lastSpan_eq {head count : Nat} (pos : 0 < count) (small : head + count < 2 ^ 32) :
    lastSpan head count = head + count - 1 := by
  unfold lastSpan wrap32
  omega

variable {p : SpanPool} {n len : Nat} {F : Set Nat} {head count : Nat}

namespace Records

theorem run_lt (R : p.Records n len F) {h c : Nat} (r : IsRun F h c) : h < n := R.bounded h r.head_mem

theorem run_le (R : p.Records n len F) {h c : Nat} (r : IsRun F h c) : h + c ≤ n :=
  r.le_bound R.bounded

/-- A span index is never the list terminator. -/
theorem ne_noSpan (R : p.Records n len F) {k : Nat} (inside : k < n) : k ≠ noSpan := by
  have := R.sized.small
  unfold noSpan
  omega

end Records

/-! ## Filing a run -/

/-- The pool after the writes of `link`, before the occupancy bit. -/
def linked (p : SpanPool) (head count : Nat) : SpanPool :=
  let old := p.bucketHead.cell count
  { p with
    next := p.next.put head old
    prev := if old ≠ noSpan then (p.prev.put head noSpan).put old head else p.prev.put head noSpan
    bucketHead := p.bucketHead.put count head
    headCount := p.headCount.put head count
    tailCount := p.tailCount.put (head + count - 1) count }

theorem link_eq (sized : p.Sized n len) (pos : 0 < count) (fits : head + count ≤ n)
    (old : p.bucketHead.cell count ≠ noSpan → p.bucketHead.cell count < n) :
    p.link head count = (p.linked head count).bitSet count := by
  have small := sized.small
  have counted := sized.counted
  have inBucket : count < p.bucketHead.len := by rw [sized.bucketHead]; omega
  have inNext : head < p.next.len := by rw [sized.next]; omega
  have inPrev : head < p.prev.len := by rw [sized.prev]; omega
  have inHeads : head < p.headCount.len := by rw [sized.headCount]; omega
  have inTails : head + count - 1 < p.tailCount.len := by rw [sized.tailCount]; omega
  have last : lastSpan head count = head + count - 1 := lastSpan_eq pos (by omega)
  unfold link
  simp only [Slice.get?_inside inBucket, Slice.set?_inside inNext, Slice.set?_inside inPrev,
    Slice.set?_inside inBucket, Slice.set?_inside inHeads, last,
    Slice.set?_inside inTails, Option.bind_eq_bind, Option.bind_some]
  by_cases empty : p.bucketHead.cell count = noSpan
  · simp only [linked, empty, ne_eq, not_true_eq_false, if_false, Option.pure_def, Option.bind_some]
  · have inOld : p.bucketHead.cell count < (p.prev.put head noSpan).len := by
      rw [Slice.put_len, sized.prev]
      exact (old empty).trans_le counted
    simp only [linked, ne_eq, empty, not_false_eq_true, if_true, Slice.set?_inside inOld,
      Option.bind_some]

theorem Sized.linked (sized : p.Sized n len) (head count : Nat) : (p.linked head count).Sized n len := by
  refine ⟨sized.small, sized.counted, sized.numSpans, sized.bucketHead, sized.next, ?_,
    sized.headCount, sized.tailCount, sized.words⟩
  simp only [SpanPool.linked]
  split <;> exact sized.prev

/-- Back links after `link`: the new head has none, the old head names the new
    one, every other node is untouched. -/
theorem linked_prev (p : SpanPool) (head count x : Nat) :
    (p.linked head count).prev.cell x =
      if x = p.bucketHead.cell count ∧ p.bucketHead.cell count ≠ noSpan then head
      else if x = head then noSpan else p.prev.cell x := by
  simp only [linked]
  by_cases empty : p.bucketHead.cell count = noSpan
  · simp [empty, Slice.put_cell]
  · simp [empty, Slice.put_cell]

theorem link_represents (R : p.Records n len F) (pos : 0 < count) (fits : head + count ≤ n)
    (outside : ∀ k, head ≤ k → k < head + count → k ∉ F)
    (left : ∀ k, k + 1 = head → k ∉ F) (right : head + count ∉ F) :
    ∃ p', p.link head count = some p' ∧ p'.Records n len (F ∪ Set.Ico head (head + count)) := by
  have runs : ∀ {h c}, IsRun (F ∪ Set.Ico head (head + count)) h c ↔
      IsRun F h c ∨ (h = head ∧ c = count) := isRun_union pos outside left right
  have headOut : head ∉ F := outside head le_rfl (by omega)
  obtain ⟨nodes, ⟨walk, distinct⟩, members⟩ := R.buckets count (by omega)
  have oldNode : p.bucketHead.cell count ≠ noSpan → IsRun F (p.bucketHead.cell count) count := by
    intro some
    cases nodes with
    | nil => exact (some walk).elim
    | cons first rest =>
        rw [walk.1]
        exact (members first).mp (by simp)
  rw [link_eq R.sized pos fits (fun some => R.run_lt (oldNode some))]
  have kept : (p.linked head count).Occupied {c | ∃ h, IsRun F h c} := R.occupied.congr rfl rfl
  obtain ⟨l0, l1, set, occupied, l0Len, l1Len⟩ := bitSet_occupied kept (c := count)
    (by have : n + 1 ≤ (p.linked head count).l0.len * 64 := R.sized.words
        omega)
    (by have := R.sized.small
        omega)
  have sized := R.sized.linked head count
  refine ⟨_, set, ?_⟩
  refine ⟨⟨sized.small, sized.counted, sized.numSpans, sized.bucketHead, sized.next, sized.prev,
    sized.headCount, sized.tailCount, by rw [l0Len]; exact sized.words⟩, ?_, ?_, ?_, ?_, ?_⟩
  · rintro k (inside | ⟨-, hi⟩)
    · exact R.bounded k inside
    · omega
  · intro h hh c nonzero
    rw [runs]
    simp only [linked, Slice.put_cell]
    by_cases same : h = head
    · subst same
      rw [if_pos rfl]
      constructor
      · rintro rfl
        exact Or.inr ⟨rfl, rfl⟩
      · rintro (r | ⟨-, rfl⟩)
        · exact (headOut r.head_mem).elim
        · rfl
    · rw [if_neg same, R.heads h hh c nonzero]
      simp [same]
  · intro t ht c nonzero
    rw [runs]
    simp only [linked, Slice.put_cell]
    by_cases same : t = head + count - 1
    · rw [if_pos same]
      constructor
      · rintro rfl
        exact ⟨by omega, Or.inr ⟨by omega, rfl⟩⟩
      · rintro ⟨le, r | ⟨-, rfl⟩⟩
        · have last := r.last_mem
          rw [show t + 1 - c + c - 1 = t by omega] at last
          exact (outside t (by omega) (by omega) last).elim
        · rfl
    · rw [if_neg same, R.tails t ht c nonzero]
      constructor
      · rintro ⟨le, r⟩
        exact ⟨le, Or.inl r⟩
      · rintro ⟨le, r | ⟨start, rfl⟩⟩
        · exact ⟨le, r⟩
        · omega
  · intro c hc
    by_cases same : c = count
    · subst same
      refine ⟨head :: nodes, ⟨?_, ?_⟩, ?_⟩
      · have start : ({ p.linked head c with l0, l1 } : SpanPool).bucketHead.cell c = head :=
          Slice.put_cell_same _ _ _
        rw [start]
        have notNode : ∀ x ∈ nodes, x ≠ head := by
          rintro x hx rfl
          exact headOut ((members x).mp hx).head_mem
        refine walk.push (R.ne_noSpan (by omega)) distinct ?_ ?_ ?_ ?_ ?_
        · exact Slice.put_cell_same _ _ _
        · rw [linked_prev, if_neg, if_pos rfl]
          rintro ⟨clash, some⟩
          exact headOut (clash ▸ (oldNode some).head_mem)
        · intro x hx
          exact Slice.put_cell_other (notNode x hx)
        · intro x hx notOld
          rw [linked_prev, if_neg (fun h => notOld h.1), if_neg (notNode x hx)]
        · intro some
          rw [linked_prev, if_pos ⟨rfl, some⟩]
      · exact List.nodup_cons.mpr ⟨fun hx => headOut ((members head).mp hx).head_mem, distinct⟩
      · intro h
        rw [List.mem_cons, members, runs]
        exact ⟨fun r => r.elim (fun e => Or.inr ⟨e, rfl⟩) Or.inl, fun r => r.elim Or.inr (fun e => Or.inl e.1)⟩
    · obtain ⟨others, ⟨otherWalk, otherDistinct⟩, otherMembers⟩ := R.buckets c hc
      refine ⟨others, ⟨?_, otherDistinct⟩, ?_⟩
      · have start : ({ p.linked head count with l0, l1 } : SpanPool).bucketHead.cell c =
            p.bucketHead.cell c := Slice.put_cell_other same
        rw [start]
        refine otherWalk.frame ?_ ?_
        · intro x hx
          refine Slice.put_cell_other ?_
          rintro rfl
          exact headOut ((otherMembers x).mp hx).head_mem
        · intro x hx
          have r := (otherMembers x).mp hx
          rw [linked_prev, if_neg, if_neg]
          · rintro rfl
            exact headOut r.head_mem
          · rintro ⟨rfl, some⟩
            exact same (r.count_unique (oldNode some))
      · intro h
        rw [otherMembers, runs]
        simp [same]
  · have sets : {c | ∃ h, IsRun (F ∪ Set.Ico head (head + count)) h c} =
        insert count {c | ∃ h, IsRun F h c} := by
      ext c
      simp only [Set.mem_ofPred_eq, Set.mem_insert_iff, runs]
      constructor
      · rintro ⟨h, r | ⟨-, rfl⟩⟩
        · exact Or.inr ⟨h, r⟩
        · exact Or.inl rfl
      · rintro (rfl | ⟨h, r⟩)
        · exact ⟨head, Or.inr ⟨rfl, rfl⟩⟩
        · exact ⟨h, Or.inl r⟩
    rw [sets]
    exact occupied

/-! ## Removing a run -/

/-- The pool after the writes of `unlink`, the occupancy bitmap apart. -/
def unlinked (p : SpanPool) (head count : Nat) : SpanPool :=
  let before := p.prev.cell head
  let after := p.next.cell head
  { p with
    next := (if before ≠ noSpan then p.next.put before after else p.next).put head noSpan
    prev := (if after ≠ noSpan then p.prev.put after before else p.prev).put head noSpan
    bucketHead := if before ≠ noSpan then p.bucketHead else p.bucketHead.put count after
    headCount := p.headCount.put head 0
    tailCount := p.tailCount.put (head + count - 1) 0 }

/-- `unlink` clears the bucket's bit exactly when the run was alone in it. -/
theorem unlink_eq (sized : p.Sized n len) (pos : 0 < count) (fits : head + count ≤ n)
    (before : p.prev.cell head ≠ noSpan → p.prev.cell head < n)
    (after : p.next.cell head ≠ noSpan → p.next.cell head < n) {l0 l1 : Slice Word}
    (alone : p.prev.cell head = noSpan → p.next.cell head = noSpan →
      bitClear { p with bucketHead := p.bucketHead.put count noSpan } count =
        some { p with bucketHead := p.bucketHead.put count noSpan, l0, l1 })
    (shared : ¬ (p.prev.cell head = noSpan ∧ p.next.cell head = noSpan) → l0 = p.l0 ∧ l1 = p.l1) :
    p.unlink head count = some { p.unlinked head count with l0, l1 } := by
  have small := sized.small
  have counted := sized.counted
  have inBucket : count < p.bucketHead.len := by rw [sized.bucketHead]; omega
  have inNext : head < p.next.len := by rw [sized.next]; omega
  have inPrev : head < p.prev.len := by rw [sized.prev]; omega
  have inHeads : head < p.headCount.len := by rw [sized.headCount]; omega
  have inTails : head + count - 1 < p.tailCount.len := by rw [sized.tailCount]; omega
  have last : lastSpan head count = head + count - 1 := lastSpan_eq pos (by omega)
  unfold unlink
  simp only [Slice.get?_inside inPrev, Slice.get?_inside inNext, Option.bind_eq_bind, Option.bind_some,
    Option.pure_def, last]
  by_cases first : p.prev.cell head = noSpan
  · by_cases only : p.next.cell head = noSpan
    · simp only [unlinked, first, only, ne_eq, not_true_eq_false, if_false, if_true,
        Slice.set?_inside inBucket, Option.bind_some, alone first only,
        Slice.set?_inside inHeads, Slice.set?_inside inTails, Slice.set?_inside inNext,
        Slice.set?_inside inPrev]
    · obtain ⟨rfl, rfl⟩ := shared (fun h => only h.2)
      have inAfter : p.next.cell head < p.prev.len := by rw [sized.prev]; exact (after only).trans_le counted
      have inPrev' : head < (p.prev.put (p.next.cell head) noSpan).len := inPrev
      simp only [unlinked, first, only, ne_eq, not_true_eq_false, not_false_eq_true, if_false,
        if_true, Slice.set?_inside inBucket, Option.bind_some, Slice.set?_inside inAfter,
        Slice.set?_inside inHeads, Slice.set?_inside inTails, Slice.set?_inside inNext,
        Slice.set?_inside inPrev']
  · obtain ⟨rfl, rfl⟩ := shared (fun h => first h.1)
    have inBefore : p.prev.cell head < p.next.len := by rw [sized.next]; exact (before first).trans_le counted
    have inNext' : head < (p.next.put (p.prev.cell head) (p.next.cell head)).len := inNext
    by_cases only : p.next.cell head = noSpan
    · have inNext'' : head < (p.next.put (p.prev.cell head) noSpan).len := inNext
      simp only [unlinked, first, only, ne_eq, not_true_eq_false, not_false_eq_true, if_false,
        if_true, Slice.set?_inside inBefore, Option.bind_some, Slice.set?_inside inHeads,
        Slice.set?_inside inTails, Slice.set?_inside inNext'', Slice.set?_inside inPrev]
    · have inAfter : p.next.cell head < p.prev.len := by rw [sized.prev]; exact (after only).trans_le counted
      have inPrev' : head < (p.prev.put (p.next.cell head) (p.prev.cell head)).len := inPrev
      simp only [unlinked, first, only, ne_eq, not_false_eq_true, if_true,
        Slice.set?_inside inBefore, Option.bind_some, Slice.set?_inside inAfter,
        Slice.set?_inside inHeads, Slice.set?_inside inTails, Slice.set?_inside inNext',
        Slice.set?_inside inPrev']

theorem Sized.unlinked (sized : p.Sized n len) (head count : Nat) : (p.unlinked head count).Sized n len := by
  refine ⟨sized.small, sized.counted, sized.numSpans, ?_, ?_, ?_,
    sized.headCount, sized.tailCount, sized.words⟩
  · simp only [SpanPool.unlinked]
    split <;> exact sized.bucketHead
  · simp only [SpanPool.unlinked]
    split <;> exact sized.next
  · simp only [SpanPool.unlinked]
    split <;> exact sized.prev

theorem unlinked_next {p : SpanPool} {head x : Nat} (count : Nat) (other : x ≠ head) :
    (p.unlinked head count).next.cell x =
      if x = p.prev.cell head ∧ p.prev.cell head ≠ noSpan then p.next.cell head
      else p.next.cell x := by
  simp only [unlinked, Slice.put_cell, if_neg other]
  by_cases first : p.prev.cell head = noSpan
  · simp [first]
  · simp [first, Slice.put_cell]

theorem unlinked_prev {p : SpanPool} {head x : Nat} (count : Nat) (other : x ≠ head) :
    (p.unlinked head count).prev.cell x =
      if x = p.next.cell head ∧ p.next.cell head ≠ noSpan then p.prev.cell head
      else p.prev.cell x := by
  simp only [unlinked, Slice.put_cell, if_neg other]
  by_cases last : p.next.cell head = noSpan
  · simp [last]
  · simp [last, Slice.put_cell]

theorem unlinked_bucketHead (p : SpanPool) (head count c : Nat) :
    (p.unlinked head count).bucketHead.cell c =
      if c = count ∧ p.prev.cell head = noSpan then p.next.cell head else p.bucketHead.cell c := by
  simp only [unlinked]
  by_cases first : p.prev.cell head = noSpan
  · simp [first, Slice.put_cell]
  · simp [first]

theorem unlink_represents (R : p.Records n len F) (r : IsRun F head count) :
    ∃ p', p.unlink head count = some p' ∧ p'.Records n len (F \ Set.Ico head (head + count)) := by
  have fits := R.run_le r
  have pos := r.pos
  have runs : ∀ {h c}, IsRun (F \ Set.Ico head (head + count)) h c ↔ IsRun F h c ∧ h ≠ head :=
    isRun_diff r
  obtain ⟨nodes, ⟨walk, distinct⟩, members⟩ := R.buckets count (by omega)
  obtain ⟨A, B, rfl⟩ := List.append_of_mem ((members head).mpr r)
  obtain ⟨behind, ahead⟩ := walk.neighbours
  have headProper := R.ne_noSpan (R.run_lt r)
  have notLeft : head ∉ A := fun h =>
    (List.nodup_append.mp distinct).2.2 head h head (by simp) rfl
  have notRight : head ∉ B := (List.nodup_cons.mp (List.nodup_append.mp distinct).2.1).1
  -- both neighbours are nodes of this bucket, or the terminator at its ends
  have firstIff : p.prev.cell head = noSpan ↔ A = [] := by
    constructor
    · intro none
      by_contra some
      exact walk.ne_nil _ (List.mem_append_left _ (walk.prev_mem some)) none
    · rintro rfl
      exact behind
  have lastIff : p.next.cell head = noSpan ↔ B = [] := ahead.empty_iff
  have beforeRun : p.prev.cell head ≠ noSpan → IsRun F (p.prev.cell head) count := fun some =>
    (members _).mp (List.mem_append_left _ (walk.prev_mem (fun none => some (firstIff.mpr none))))
  have afterMem : p.next.cell head ≠ noSpan → p.next.cell head ∈ B := by
    intro some
    cases B with
    | nil => exact (some ahead).elim
    | cons y ys => rw [ahead.1]; simp
  have afterRun : p.next.cell head ≠ noSpan → IsRun F (p.next.cell head) count := fun some =>
    (members _).mp (by simp [afterMem some])
  let q : SpanPool := { p with bucketHead := p.bucketHead.put count noSpan }
  have kept : q.Occupied {c | ∃ h, IsRun F h c} := R.occupied.congr rfl rfl
  have inWords : count < q.l0.len * 64 := by
    have : n + 1 ≤ q.l0.len * 64 := R.sized.words
    omega
  obtain ⟨k0, k1, clear, cleared, k0Len, -⟩ := bitClear_occupied kept inWords
  obtain ⟨l0, l1, alone, shared, occupied, l0Len⟩ : ∃ l0 l1,
      (p.prev.cell head = noSpan → p.next.cell head = noSpan →
        q.bitClear count = some { q with l0, l1 }) ∧
      (¬ (p.prev.cell head = noSpan ∧ p.next.cell head = noSpan) → l0 = p.l0 ∧ l1 = p.l1) ∧
      ({ p.unlinked head count with l0, l1 } : SpanPool).Occupied
        {c | ∃ h, IsRun (F \ Set.Ico head (head + count)) h c} ∧ l0.len = p.l0.len := by
    by_cases both : p.prev.cell head = noSpan ∧ p.next.cell head = noSpan
    · refine ⟨k0, k1, fun _ _ => clear, fun h => (h both).elim, ?_, k0Len⟩
      have sets : {c | ∃ h, IsRun (F \ Set.Ico head (head + count)) h c} =
          {c | ∃ h, IsRun F h c} \ {count} := by
        ext c
        simp only [Set.mem_ofPred_eq, Set.mem_sdiff, Set.mem_singleton_iff, runs]
        constructor
        · rintro ⟨h, run, different⟩
          refine ⟨⟨h, run⟩, ?_⟩
          rintro rfl
          have inList := (members h).mpr run
          rw [firstIff.mp both.1, lastIff.mp both.2] at inList
          exact different (by simpa using inList)
        · rintro ⟨⟨h, run⟩, different⟩
          refine ⟨h, run, ?_⟩
          rintro rfl
          exact different (run.count_unique r)
      rw [sets]
      exact cleared.congr rfl rfl
    · refine ⟨p.l0, p.l1, fun f l => (both ⟨f, l⟩).elim, fun _ => ⟨rfl, rfl⟩, ?_, rfl⟩
      have sets : {c | ∃ h, IsRun (F \ Set.Ico head (head + count)) h c} =
          {c | ∃ h, IsRun F h c} := by
        ext c
        simp only [Set.mem_ofPred_eq, runs]
        constructor
        · rintro ⟨h, run, -⟩
          exact ⟨h, run⟩
        · rintro ⟨h, run⟩
          by_cases same : h = head
          · subst same
            have len := run.count_unique r
            subst len
            -- some neighbour in the bucket witnesses the same length
            by_cases first : p.prev.cell h = noSpan
            · have some : p.next.cell h ≠ noSpan := fun l => both ⟨first, l⟩
              exact ⟨_, afterRun some, fun e => notRight (e ▸ afterMem some)⟩
            · exact ⟨_, beforeRun first, fun e =>
                notLeft (e ▸ walk.prev_mem (fun none => first (firstIff.mpr none)))⟩
          · exact ⟨h, run, same⟩
      rw [sets]
      exact R.occupied.congr rfl rfl
  rw [unlink_eq R.sized pos fits (fun some => R.run_lt (beforeRun some))
    (fun some => R.run_lt (afterRun some)) alone shared]
  have sized := R.sized.unlinked head count
  refine ⟨_, rfl, ?_⟩
  refine ⟨⟨sized.small, sized.counted, sized.numSpans, sized.bucketHead, sized.next, sized.prev,
    sized.headCount, sized.tailCount, by rw [l0Len]; exact R.sized.words⟩, ?_, ?_, ?_, ?_, occupied⟩
  · exact fun k inside => R.bounded k inside.1
  · intro h hh c nonzero
    rw [runs]
    simp only [unlinked, Slice.put_cell]
    by_cases same : h = head
    · simp [same, nonzero.symm]
    · rw [if_neg same, R.heads h hh c nonzero]
      simp [same]
  · intro t ht c nonzero
    rw [runs]
    simp only [unlinked, Slice.put_cell]
    by_cases same : t = head + count - 1
    · rw [if_pos same]
      refine iff_of_false nonzero.symm ?_
      rintro ⟨le, run, different⟩
      have := r.eq_of_overlap run (k := t) (by omega) (by omega) (by omega) (by omega)
      exact different this.1.symm
    · rw [if_neg same, R.tails t ht c nonzero]
      constructor
      · rintro ⟨le, run⟩
        refine ⟨le, run, ?_⟩
        intro start
        have len := (start ▸ run).count_unique r
        omega
      · rintro ⟨le, run, -⟩
        exact ⟨le, run⟩
  · intro c hc
    by_cases same : c = count
    · subst same
      refine ⟨A ++ B, ⟨?_, ?_⟩, ?_⟩
      · have start : ({ p.unlinked head c with l0, l1 } : SpanPool).bucketHead.cell c =
            if A = [] then p.next.cell head else p.bucketHead.cell c := by
          have := unlinked_bucketHead p head c c
          simpa [firstIff] using this
        rw [start]
        refine walk.cut distinct ?_ ?_ ?_ ?_
        · intro x hx
          have other : x ≠ head := fun e => notLeft (e ▸ hx)
          have : p.prev.cell head ≠ noSpan := fun none => by
            rw [firstIff.mp none] at hx
            exact List.not_mem_nil hx
          rw [unlinked_next c other]
          simp [this]
        · intro x hx
          have other : x ≠ head := fun e => notRight (e ▸ hx)
          rw [unlinked_next c other, if_neg]
          rintro ⟨rfl, some⟩
          exact (List.nodup_append.mp distinct).2.2 _
            (walk.prev_mem (fun none => some (firstIff.mpr none))) _ (by simp [hx]) rfl
        · intro x hx
          have other : x ≠ head := fun e => notLeft (e ▸ hx)
          rw [unlinked_prev c other, if_neg]
          rintro ⟨rfl, some⟩
          exact (List.nodup_append.mp distinct).2.2 _ hx _ (by simp [afterMem some]) rfl
        · intro x hx
          have other : x ≠ head := fun e => notRight (e ▸ hx)
          have : p.next.cell head ≠ noSpan := fun none => by
            rw [lastIff.mp none] at hx
            exact List.not_mem_nil hx
          rw [unlinked_prev c other]
          simp [this]
      · exact distinct.sublist (List.Sublist.append_left (List.sublist_cons_self _ _) _)
      · intro h
        rw [runs, ← members]
        simp only [List.mem_append, List.mem_cons]
        constructor
        · rintro (hA | hB)
          · exact ⟨Or.inl hA, fun e => notLeft (e ▸ hA)⟩
          · exact ⟨Or.inr (Or.inr hB), fun e => notRight (e ▸ hB)⟩
        · rintro ⟨hA | rfl | hB, different⟩
          · exact Or.inl hA
          · exact (different rfl).elim
          · exact Or.inr hB
    · obtain ⟨others, ⟨otherWalk, otherDistinct⟩, otherMembers⟩ := R.buckets c hc
      have apart : ∀ x ∈ others, ¬ IsRun F x count := fun x hx run =>
        same (((otherMembers x).mp hx).count_unique run)
      have otherHead : ∀ x ∈ others, x ≠ head := by
        rintro x hx rfl
        exact apart x hx r
      refine ⟨others, ⟨?_, otherDistinct⟩, ?_⟩
      · have start : ({ p.unlinked head count with l0, l1 } : SpanPool).bucketHead.cell c =
            p.bucketHead.cell c := by
          have := unlinked_bucketHead p head count c
          simpa [same] using this
        rw [start]
        refine otherWalk.frame ?_ ?_
        · intro x hx
          rw [unlinked_next count (otherHead x hx), if_neg]
          rintro ⟨rfl, some⟩
          exact apart _ hx (beforeRun some)
        · intro x hx
          rw [unlinked_prev count (otherHead x hx), if_neg]
          rintro ⟨rfl, some⟩
          exact apart _ hx (afterRun some)
      · intro h
        rw [runs, ← otherMembers]
        exact ⟨fun hx => ⟨hx, otherHead h hx⟩, fun h => h.1⟩

/-! ## Public operations -/

theorem new_records (numSpans : Nat) :
    (new numSpans).Records (wrap32 (max numSpans 1)) (max numSpans 1) ∅ := by
  have small : wrap32 (max numSpans 1) < 2 ^ 32 := Nat.mod_lt _ (by decide)
  have counted : wrap32 (max numSpans 1) ≤ max numSpans 1 := Nat.mod_le _ _
  have empty : {c | ∃ h, IsRun ∅ h c} = ∅ := by
    ext c
    simp [not_isRun_empty]
  have occupied := new_occupied numSpans
  unfold new at occupied ⊢
  refine ⟨⟨small, counted, rfl, rfl, rfl, rfl, rfl, rfl, ?_⟩, ?_, ?_, ?_, ?_, ?_⟩
  · simp only [Slice.replicate_len]
    omega
  · simp
  · intro h _ c nonzero
    simp [not_isRun_empty, nonzero.symm]
  · intro t _ c nonzero
    simp [not_isRun_empty, nonzero.symm]
  · exact fun c _ => ⟨[], ⟨rfl, List.nodup_nil⟩, fun h => by simp [not_isRun_empty]⟩
  · rw [empty]
    exact occupied

theorem new_represents {numSpans : Nat} (pos : 1 ≤ numSpans) (small : numSpans < 2 ^ 32) :
    (new numSpans).Represents numSpans ∅ := by
  have records := new_records numSpans
  rwa [show max numSpans 1 = numSpans by omega, wrap32_small small] at records

/-- What `alloc` promises: `none` only when no run is long enough; otherwise the
    head of a run of the least sufficient length, of which the first `n` spans
    are taken. -/
theorem alloc_represents (R : p.Records n len F) (k : Nat) :
    (p.alloc k = some (none, p) ∧ (k = 0 ∨ ∀ h c, IsRun F h c → c < k)) ∨
    ∃ h m p', p.alloc k = some (some h, p') ∧ 0 < k ∧ k ≤ m ∧ IsRun F h m ∧
      (∀ h' c', IsRun F h' c' → k ≤ c' → m ≤ c') ∧
      p'.Records n len (F \ Set.Ico h (h + k)) := by
  unfold alloc
  by_cases refused : k = 0 ∨ p.numSpans < k
  · refine Or.inl ⟨by simp only [if_pos refused, Option.pure_def], ?_⟩
    rcases refused with zero | large
    · exact Or.inl zero
    · refine Or.inr (fun h c r => ?_)
      have := R.run_le r
      have := R.sized.numSpans
      omega
  simp only [if_neg refused]
  obtain ⟨found, search, least⟩ := findFirstSetGe_least R.occupied k
  simp only [search, Option.bind_eq_bind, Option.bind_some, Option.pure_def]
  cases found with
  | none =>
      exact Or.inl ⟨rfl, Or.inr (fun h c r => least c ⟨h, r⟩)⟩
  | some m =>
      obtain ⟨⟨h₀, r₀⟩, enough, best⟩ := least
      have small := R.sized.small
      have counted := R.sized.counted
      have fits₀ := R.run_le r₀
      have inBucket : m < p.bucketHead.len := by rw [R.sized.bucketHead]; omega
      -- the bucket is not empty, so its head is a run of that length
      obtain ⟨nodes, ⟨walk, -⟩, members⟩ := R.buckets m (by omega)
      have r : IsRun F (p.bucketHead.cell m) m := by
        have inList := (members h₀).mpr r₀
        cases nodes with
        | nil => simp at inList
        | cons first rest =>
            rw [walk.1]
            exact (members first).mp (by simp)
      obtain ⟨h, hdef⟩ : ∃ h, p.bucketHead.cell m = h := ⟨_, rfl⟩
      rw [hdef] at r
      obtain ⟨p₁, removed, R₁⟩ := unlink_represents R r
      have fits := R.run_le r
      simp only [Slice.get?_inside inBucket, hdef, Option.bind_some, removed]
      refine Or.inr ⟨h, m, ?_⟩
      by_cases split : k < m
      · have outside : ∀ j, h + k ≤ j → j < h + k + (m - k) → j ∉ F \ Set.Ico h (h + m) :=
          fun j lo hi inside => inside.2 ⟨by omega, by omega⟩
        have left : ∀ j, j + 1 = h + k → j ∉ F \ Set.Ico h (h + m) :=
          fun j next inside => inside.2 ⟨by omega, by omega⟩
        have right : h + k + (m - k) ∉ F \ Set.Ico h (h + m) := by
          rw [show h + k + (m - k) = h + m by omega]
          exact fun inside => r.right inside.1
        have nonempty : 0 < m - k := by omega
        obtain ⟨p₂, filed, R₂⟩ := link_represents R₁ nonempty (by omega) outside left right
        rw [← r.diff_split split] at R₂
        refine ⟨p₂, ?_, by omega, enough, r, fun h' c' r' le => best c' ⟨h', r'⟩ le, R₂⟩
        simp only [if_pos split, wrap32_small (show h + k < 2 ^ 32 by omega), filed, Option.bind_some]
      · have whole : m = k := by omega
        subst whole
        refine ⟨p₁, ?_, by omega, le_rfl, r, fun h' c' r' le => le, R₁⟩
        simp only [if_neg split]

/-- A run on the right is absorbed: afterwards nothing free starts at the end. -/
theorem absorbRight_represents (R : p.Records n len F) {h c : Nat} (pos : 0 < c) (fits : h + c ≤ n)
    (outside : ∀ k, h ≤ k → k < h + c → k ∉ F) :
    ∃ p' c' F', p.absorbRight h c = some (p', c') ∧ p'.Records n len F' ∧ c ≤ c' ∧ h + c' ≤ n ∧
      F' ∪ Set.Ico h (h + c') = F ∪ Set.Ico h (h + c) ∧
      (∀ k, h ≤ k → k ≤ h + c' → k ∉ F') := by
  have small := R.sized.small
  have spans := R.sized.numSpans
  unfold absorbRight
  simp only [wrap32_small (show h + c < 2 ^ 32 by omega), spans]
  have untouched : h + c ∉ F → ∀ k, h ≤ k → k ≤ h + c → k ∉ F := by
    intro clear k lo hi
    rcases Nat.lt_or_ge k (h + c) with lt | ge
    · exact outside k lo lt
    · rwa [show k = h + c by omega]
  by_cases room : h + c < n
  · have inHeads : h + c < p.headCount.len := by rw [R.sized.headCount]; exact room.trans_le R.sized.counted
    simp only [if_pos room, Slice.get?_inside inHeads, Option.bind_eq_bind, Option.bind_some,
      Option.pure_def]
    obtain ⟨rc, rcDef⟩ : ∃ rc, p.headCount.cell (h + c) = rc := ⟨_, rfl⟩
    rw [rcDef]
    by_cases neighbour : rc ≠ 0
    · have r := (R.heads (h + c) room rc neighbour).mp rcDef
      have fits' := R.run_le r
      obtain ⟨p₁, removed, R₁⟩ := unlink_represents R r
      refine ⟨p₁, c + rc, _, ?_, R₁, by omega, by omega, ?_, ?_⟩
      · simp only [if_pos neighbour, removed, Option.bind_some,
          wrap32_small (show c + rc < 2 ^ 32 by omega)]
      · ext k
        simp only [Set.mem_union, Set.mem_sdiff, Set.mem_Ico]
        constructor
        · rintro (⟨inside, -⟩ | ⟨lo, hi⟩)
          · exact Or.inl inside
          · by_cases early : k < h + c
            · exact Or.inr ⟨lo, early⟩
            · exact Or.inl (r.inside k (by omega) (by omega))
        · rintro (inside | ⟨lo, hi⟩)
          · by_cases taken : h + c ≤ k ∧ k < h + c + rc
            · exact Or.inr ⟨by omega, by omega⟩
            · exact Or.inl ⟨inside, taken⟩
          · exact Or.inr ⟨lo, by omega⟩
      · intro k lo hi inside
        rcases Nat.lt_or_ge k (h + c) with lt | ge
        · exact outside k lo lt inside.1
        · rcases Nat.lt_or_ge k (h + c + rc) with lt' | ge'
          · exact inside.2 ⟨ge, lt'⟩
          · exact r.right (show k = h + c + rc by omega ▸ inside.1)
    · have clear : h + c ∉ F := by
        intro inside
        obtain ⟨c', r⟩ := exists_run_from R.bounded inside
          (fun k next => outside k (by omega) (by omega))
        have := (R.heads (h + c) room c' (by have := r.pos; omega)).mpr r
        exact neighbour (by have := r.pos; omega)
      refine ⟨p, c, F, ?_, R, le_rfl, fits, rfl, untouched clear⟩
      simp only [if_neg neighbour]
  · have clear : h + c ∉ F := fun inside => room (R.bounded _ inside)
    refine ⟨p, c, F, ?_, R, le_rfl, fits, rfl, untouched clear⟩
    simp only [if_neg room, Option.pure_def]

/-- A run on the left is absorbed: afterwards the interval touches nothing. -/
theorem absorbLeft_represents (R : p.Records n len F) {h c : Nat} (pos : 0 < c) (fits : h + c ≤ n)
    (outside : ∀ k, h ≤ k → k ≤ h + c → k ∉ F) :
    ∃ p' h' c' F', p.absorbLeft h c = some (p', h', c') ∧ p'.Records n len F' ∧ 0 < c' ∧
      h' + c' ≤ n ∧ F' ∪ Set.Ico h' (h' + c') = F ∪ Set.Ico h (h + c) ∧
      (∀ k, h' ≤ k → k ≤ h' + c' → k ∉ F') ∧ (∀ k, k + 1 = h' → k ∉ F') := by
  have small := R.sized.small
  have counted := R.sized.counted
  unfold absorbLeft
  by_cases start : 0 < h
  · have inTails : h - 1 < p.tailCount.len := by rw [R.sized.tailCount]; omega
    simp only [if_pos start, Slice.get?_inside inTails, Option.bind_eq_bind, Option.bind_some,
      Option.pure_def]
    obtain ⟨lc, lcDef⟩ : ∃ lc, p.tailCount.cell (h - 1) = lc := ⟨_, rfl⟩
    rw [lcDef]
    by_cases neighbour : lc ≠ 0
    · obtain ⟨le, r⟩ := (R.tails (h - 1) (by omega) lc neighbour).mp lcDef
      rw [show h - 1 + 1 - lc = h - lc by omega] at r
      obtain ⟨p₁, removed, R₁⟩ := unlink_represents R r
      have lhead : wrap32 (h + (2 ^ 32 - lc)) = h - lc := by
        unfold wrap32
        omega
      refine ⟨p₁, h - lc, c + lc, _, ?_, R₁, by omega, by omega, ?_, ?_, ?_⟩
      · simp only [if_pos neighbour, lhead, removed, Option.bind_some,
          wrap32_small (show c + lc < 2 ^ 32 by omega)]
      · ext k
        simp only [Set.mem_union, Set.mem_sdiff, Set.mem_Ico]
        constructor
        · rintro (⟨inside, -⟩ | ⟨lo, hi⟩)
          · exact Or.inl inside
          · by_cases early : k < h
            · exact Or.inl (r.inside k (by omega) (by omega))
            · exact Or.inr ⟨by omega, by omega⟩
        · rintro (inside | ⟨lo, hi⟩)
          · by_cases taken : h - lc ≤ k ∧ k < h - lc + lc
            · exact Or.inr ⟨by omega, by omega⟩
            · exact Or.inl ⟨inside, taken⟩
          · exact Or.inr ⟨by omega, by omega⟩
      · intro k lo hi inside
        rcases Nat.lt_or_ge k h with lt | ge
        · exact inside.2 ⟨lo, by omega⟩
        · exact outside k ge (by omega) inside.1
      · exact fun k next inside => r.left k next inside.1
    · have clear : ∀ k, k + 1 = h → k ∉ F := by
        rintro k next inside
        obtain ⟨c', le, r⟩ := exists_run_to inside (next ▸ outside h le_rfl (by omega))
        have tag := (R.tails (h - 1) (by omega) c' (by have := r.pos; omega)).mpr
          (by rw [show h - 1 = k by omega]; exact ⟨le, r⟩)
        exact neighbour (by have := r.pos; omega)
      refine ⟨p, h, c, F, ?_, R, pos, fits, rfl, outside, clear⟩
      simp only [if_neg neighbour]
  · refine ⟨p, h, c, F, ?_, R, pos, fits, rfl, outside, fun k next => by omega⟩
    simp only [if_neg start, Option.pure_def]

/-- `free` adds exactly the interval it is given, merged into maximal runs. -/
theorem free_represents (R : p.Records n len F) (pos : 0 < count) (fits : head + count ≤ n)
    (outside : ∀ k, head ≤ k → k < head + count → k ∉ F) :
    ∃ p', p.free head count = some p' ∧ p'.Records n len (F ∪ Set.Ico head (head + count)) := by
  obtain ⟨p₁, c₁, F₁, right, R₁, le₁, fits₁, union₁, clear₁⟩ :=
    absorbRight_represents R pos fits outside
  obtain ⟨p₂, h₂, c₂, F₂, left, R₂, pos₂, fits₂, union₂, clear₂, gap₂⟩ :=
    absorbLeft_represents R₁ (by omega) fits₁ clear₁
  obtain ⟨p₃, filed, R₃⟩ := link_represents R₂ pos₂ fits₂
    (fun k lo hi => clear₂ k lo (by omega)) gap₂ (clear₂ _ (by omega) le_rfl)
  refine ⟨p₃, ?_, ?_⟩
  · simp only [free, right, left, Option.bind_eq_bind, Option.bind_some, filed]
  · rwa [union₂, union₁] at R₃

/-! ## Runs past the end -/

theorem link_overrun (sized : p.Sized n n) (outside : n ≤ lastSpan head count) :
    p.link head count = none := by
  have tail : p.tailCount.set? (lastSpan head count) count = none := by
    rw [Slice.set?, if_neg]
    rw [sized.tailCount]
    omega
  simp only [link, tail, Option.bind_eq_bind, Option.bind_none, Option.bind_fun_none, ite_self]

/-- A run that ends past the last span is refused, after what was on its left has been
    unlinked. -/
theorem free_overrun (R : p.Represents n F) (low : head < n) (beyond : n < head + count)
    (small : head + count < 2 ^ 32) : p.free head count = none := by
  have right : p.absorbRight head count = some (p, count) := by
    rw [absorbRight, wrap32_small small, R.sized.numSpans, if_neg (by omega)]
    rfl
  unfold free
  rw [right]
  simp only [Option.bind_eq_bind, Option.bind_some]
  unfold absorbLeft
  split
  · rename_i pos
    have inside : head - 1 < p.tailCount.len := by
      rw [R.sized.tailCount]
      omega
    simp only [Slice.get?_inside inside, Option.bind_eq_bind, Option.bind_some]
    split
    · rename_i some
      obtain ⟨fits, run⟩ := (R.tails (head - 1) (by omega) _ some).mp rfl
      obtain ⟨lc, tag⟩ : ∃ lc, p.tailCount.cell (head - 1) = lc := ⟨_, rfl⟩
      rw [tag] at fits run some ⊢
      rw [show head - 1 + 1 = head by omega] at fits run
      have start : wrap32 (head + (2 ^ 32 - lc)) = head - lc := by
        unfold wrap32
        omega
      obtain ⟨p₁, removed, R₁⟩ := unlink_represents R run
      simp only [start, removed, Option.bind_some, Option.pure_def]
      apply link_overrun R₁.sized
      rw [wrap32_small (by omega), lastSpan_eq (by omega) (by omega)]
      omega
    · simp only [Option.pure_def, Option.bind_some]
      apply link_overrun R.sized
      rw [lastSpan_eq (by omega) small]
      omega
  · simp only [Option.pure_def, Option.bind_some]
    apply link_overrun R.sized
    rw [lastSpan_eq (by omega) small]
    omega
end Toccata.SpanPool
