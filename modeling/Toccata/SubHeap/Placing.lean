import Toccata.SubHeap.Lists
import Toccata.SubHeap.Requests

/-! # Where an allocation goes

An allocation moves the cursor by one carve at most, and finds an object as long as the
cursor leaves whole spans. A large run is found while there is room for it beyond the
cursor.
-/

namespace Toccata

open Foundations SizeClass

namespace SubHeap

variable {s s' : SubHeap} {limit top : Nat} {cls : Nat}

/-! ## How far allocations move the cursor -/

/-- The arena ends at `limit`, and its cursor is not past `top`. -/
structure Low (limit top : Nat) (s : SubHeap) : Prop where
  limit : s.arena.limit = limit
  cursor : s.arena.cursor ≤ top

theorem Low.more (low : Low limit top s) (n : Nat) : Low limit (top + n) s :=
  ⟨low.limit, low.cursor.trans (Nat.le_add_right ..)⟩

theorem Low.pooled (low : Low limit top s) (pool : SpanPool) (start bytes cls home : Nat) :
    Low limit top { s with
      large := { s.large with pool }, spans := s.spans.assignRange start bytes cls home } :=
  ⟨low.limit, low.cursor⟩

theorem SameStock.low (same : SameStock s s') (low : Low limit top s) : Low limit top s' :=
  ⟨same.arena ▸ low.limit, same.arena ▸ low.cursor⟩

theorem adoptRun_low (low : Low limit top s) (shard cls perSpan count addr : Nat) :
    Low limit top (s.adoptRun shard cls perSpan count addr) := by
  induction count generalizing addr s with
  | zero => exact low
  | succ count ih =>
      rw [adoptRun]
      apply ih
      unfold adopt
      simp only
      split <;> exact ⟨low.limit, low.cursor⟩

theorem tryPoolAlloc_low (numSpans cls home : Nat) :
    Triple (Low limit top) (tryPoolAlloc .alone numSpans cls home) (fun _ => Low limit top)
      (fun _ => True) := by
  refine Triple.bind tryLock_spec fun busy => Triple.lift fun _ => Triple.inspect fun s low =>
    Triple.ite (fun _ => Triple.ret _ ?_) (fun _ => ?_)
  · rintro _ rfl
    exact low
  · cases s.large.pool.alloc (wrap32 numSpans) with
    | none => exact Triple.bind (Q := fun _ _ => True) (Triple.modify fun _ _ => trivial) fun _ =>
        Triple.fail fun _ _ => trivial
    | some found =>
        obtain ⟨_ | headIdx, pool⟩ := found
        · refine Triple.ret _ ?_
          rintro _ rfl
          exact low
        · refine Triple.bind (Q := fun _ => Low limit top) (Triple.modify ?_) fun _ =>
            Triple.ret _ fun _ kept => kept
          rintro _ rfl
          exact low.pooled ..

theorem carveOrReuseSpans_low (numSpans cls home : Nat) :
    Triple (Low limit top) (carveOrReuseSpans .alone numSpans cls home)
      (fun _ => Low limit (top + numSpans * spanBytes)) (fun _ => True) := by
  refine Triple.bind (tryPoolAlloc_low numSpans cls home) fun range => ?_
  cases range with
  | some range => exact Triple.ret _ fun _ low => low.more _
  | none =>
      refine Triple.apply fun s low => ?_
      rcases carved : s.arena.carveSpans numSpans cls home s.spans with ⟨range, arena, spans⟩
      obtain ⟨rfl, -⟩ | ⟨_, _, few, rfl, -⟩ := BumpArena.carveSpans_cases carved
      · exact ⟨low.limit, (low.more _).cursor⟩
      · exact ⟨low.limit, Nat.add_le_add low.cursor few⟩

theorem centralCarve_low (cls myShard batch : Nat) :
    Triple (Low limit top) (centralCarve .alone cls myShard batch)
      (fun _ => Low limit (top + carveWant cls batch * spanBytes)) (fun _ => True) := by
  refine Triple.inspect fun s low => ?_
  have begun : ∀ s', s' = s → Low limit top s' := by
    rintro _ rfl
    exact low
  rw [carveWant]
  refine Triple.ite (fun large => ?_) (fun small => ?_)
  · rw [if_pos large]
    refine Triple.bind (Triple.strengthen (carveOrReuseSpans_low _ cls _) begun) fun range => ?_
    obtain ⟨start, runEnd⟩ := range
    refine Triple.ite (fun _ => Triple.ret _ fun _ kept => kept) (fun _ => ?_)
    exact Triple.bind (Q := fun _ => Low limit _) (Triple.modify fun s' kept => by
      have adopted := adoptRun_low kept (myShard % s.numShards) cls 1 1 start
      exact ⟨adopted.limit, adopted.cursor⟩) fun _ => Triple.ret _ fun _ kept => kept
  · rw [if_neg small]
    refine Triple.bind (Triple.strengthen (carveOrReuseSpans_low _ cls _) begun) fun range => ?_
    obtain ⟨start, runEnd⟩ := range
    refine Triple.ite (fun _ => Triple.ret _ fun _ kept => kept) (fun _ => ?_)
    exact Triple.bind (Triple.modify fun _ kept => adoptRun_low kept ..) fun _ =>
      Triple.ret _ fun _ kept => kept

/-- No carve was cut short, either. -/
structure Spare (limit top : Nat) (s : SubHeap) : Prop extends Low limit top s where
  whole : s.clipped = false

theorem moves_spare {α : Type} {m : Prog Turn SubHeap α} (moves : Moves SameStock m) (limit top : Nat) :
    Triple (Spare limit top) m (fun _ => Spare limit top) (fun _ => True) := by
  intro s env spare
  have moved := moves s env
  rcases out : m s env with ⟨_ | a, s', env'⟩
  · trivial
  · rw [out] at moved
    exact ⟨moved.low spare.toLow, moved.clipped ▸ spare.whole⟩

/-- A carve is whole when its group is a single span, or fits behind the cursor. -/
theorem centralCarve_spare {batch : Nat}
    (room : roundedSize cls ≤ spanBytes ∨ top + carveWant cls batch * spanBytes ≤ limit) (myShard : Nat) :
    Triple (Spare limit top) (centralCarve .alone cls myShard batch)
      (fun _ => Spare limit (top + carveWant cls batch * spanBytes)) (fun _ => True) := by
  intro s env spare
  have moved := centralCarve_low cls myShard batch s env spare.toLow
  have clips : Triple (· = s) (centralCarve .alone cls myShard batch)
      (fun _ s' => s'.clipped = true ↔ s.clipped = true ∨ s.Starved cls) (fun _ => True) :=
    centralCarve_clipped
  have cut := clips s env rfl
  have fed : ¬ s.Starved cls := by
    rintro ⟨large, -, -, few⟩
    rcases room with single | fits
    · omega
    · rw [carveWant, if_pos large] at fits
      have left : (roundedSize cls + (spanBytes - 1)) / spanBytes * spanBytes ≤
          s.arena.limit - s.arena.cursor := by
        have := spare.limit
        have := spare.cursor
        omega
      exact absurd ((Nat.le_div_iff_mul_le (by decide)).mpr left) (Nat.not_le_of_lt few)
  rcases out : centralCarve .alone cls myShard batch s env with ⟨_ | count, s', env'⟩
  · trivial
  · rw [out] at moved cut
    refine ⟨moved, ?_⟩
    rw [← Bool.not_eq_true]
    exact fun clipped => (cut.mp clipped).elim (by rw [spare.whole]; decide) fed

/-- An allocation moves the cursor by one carve at most. -/
theorem allocClass_spare
    (room : roundedSize cls ≤ spanBytes ∨ top + carveWant cls (batchFor cls) * spanBytes ≤ limit)
    (thread : Nat) : Triple (Spare limit top) (allocClass cls thread)
      (fun _ => Spare limit (top + carveWant cls (batchFor cls) * spanBytes)) (fun _ => True) := by
  have more : ∀ s, Spare limit top s → Spare limit (top + carveWant cls (batchFor cls) * spanBytes) s :=
    fun s spare => ⟨spare.more _, spare.whole⟩
  have carves : Triple (Spare limit top) (takeOrCarve .alone cls thread)
      (fun _ => Spare limit (top + carveWant cls (batchFor cls) * spanBytes)) (fun _ => True) := by
    refine Triple.inspect fun s spare => ?_
    refine Triple.bind (Triple.strengthen (moves_spare (centralTake_sameStock _ _ _) limit top) ?_) fun got => ?_
    · rintro _ rfl
      exact spare
    · refine Triple.ite (fun _ => ?_) (fun _ => Triple.ret _ more)
      refine Triple.bind (centralCarve_spare room thread) fun carved => ?_
      exact Triple.ite (fun _ => Triple.ret _ fun _ kept => kept) (fun _ =>
        moves_spare (centralTake_sameStock _ _ _) limit _)
  refine Triple.bind (moves_spare (slabPop_sameStock cls) limit top) fun r => ?_
  cases r with
  | ok p => exact Triple.ret _ more
  | needsSlow =>
      refine Triple.bind carves fun objs => ?_
      cases objs with
      | nil => exact Triple.ret _ fun _ kept => kept
      | cons p rest =>
          exact Triple.bind (moves_spare (.each (stash_sameStock cls) rest) limit _) fun _ =>
            Triple.ret _ fun _ kept => kept

/-! ## What is found -/

namespace World

variable {w : World} {c : Config}

/-- While the cursor leaves whole spans, an allocation finds an object. -/
theorem served (mapped : c.Mapped)
    (reached : Reached c (fun t op => t = 0 ∧ op.size + (spanBytes - 1) < 2 ^ 64) w)
    (isClass : IsClass cls) (left : w.sub.wholeSpans ≠ 0) (env : List Turn) :
    ∃ p s env', SubHeap.allocClass cls 0 w.sub (⟨0, 0, false⟩ :: env) = (some (some p), s, env') := by
  have sound : ∀ (t : Nat) (op : Op), (t = 0 ∧ op.size + (spanBytes - 1) < 2 ^ 64) →
      Sound .bare (c.geometry (· = 0 % c.shards)) t op := by
    rintro t op ⟨rfl, bound⟩
    exact ⟨bound, fun on => (on rfl).elim, rfl, nofun⟩
  obtain ⟨_, _, -, W, owned⟩ := reached.tracked mapped sound
  have allowed : Allowed .bare (c.geometry (· = 0 % c.shards)) 0 := ⟨rfl, nofun⟩
  have ready : (⟨0, 0, false⟩ : Turn).declines = false := rfl
  have returned := allocClass_spec (E := fun _ => False) isClass allowed w.sub (⟨0, 0, false⟩ :: env)
    owned
  have found := (no_object_iff mapped reached isClass ready env).not.mpr fun empty => left empty.2.2
  rcases out : SubHeap.allocClass cls 0 w.sub (⟨0, 0, false⟩ :: env) with ⟨_ | _ | p, s, env'⟩
  · simp only [out] at returned
  · simp only [out, not_true] at found
  · exact ⟨p, s, env', rfl⟩

end World

end SubHeap

end Toccata
