import Toccata.SubHeap.Lists

/-! # Nothing outside but what is held

Large runs on record are touched by large requests and large frees only. Where every
record belongs to somebody outside, no span is stuck: it is beyond the cursor, in the
pool, on a list, or part of a run that is held.
-/

namespace Toccata

open Foundations SizeClass

namespace SubHeap

variable {α : Type} {g : Geometry} {s s' : SubHeap} {H L : Multiset (Nat × Nat)} {E : SubHeap → Prop}

/-! ## Records -/

/-- The large runs on record are the same. -/
def SameRuns (s s' : SubHeap) : Prop := s'.large.runSpans = s.large.runSpans

instance : Std.Refl SameRuns := ⟨fun _ => rfl⟩

instance : IsTrans SubHeap SameRuns := ⟨fun _ _ _ h h' => h'.trans h⟩

theorem moves_sameRuns {m : Prog Turn SubHeap α} (same : Moves SameStock m) : Moves SameRuns m :=
  fun s env => congrArg LargeAllocator.runSpans (same s env).large

theorem panicLocked_sameRuns : Moves SameRuns (panicLocked : Prog Turn SubHeap α) :=
  Moves.bind (.modify fun _ => rfl) fun _ => .fail

theorem adopt_large (s : SubHeap) (shard cls slots span : Nat) :
    (s.adopt shard cls slots span).large = s.large := by
  unfold adopt
  simp only
  split <;> rfl

theorem adoptRun_large (shard cls perSpan count addr : Nat) (s : SubHeap) :
    (adoptRun shard cls perSpan count addr s).large = s.large := by
  induction count generalizing addr s with
  | zero => rfl
  | succ count ih => rw [adoptRun, ih, adopt_large]

theorem carveOrReuseSpans_sameRuns (company : Company) (numSpans cls home : Nat) :
    Moves SameRuns (carveOrReuseSpans company numSpans cls home) := by
  refine Moves.bind ((tryLock_moves company).bind fun _ => .inspect fun s => .ite (.ret _) ?_) fun range => ?_
  · split
    · exact panicLocked_sameRuns
    · exact .ret _
    · exact Moves.bind (.modify fun _ => rfl) fun _ => .ret _
  · cases range with
    | some range => exact .ret _
    | none => exact .apply fun _ => rfl

theorem centralCarve_sameRuns (company : Company) (cls myShard batch : Nat) :
    Moves SameRuns (centralCarve company cls myShard batch) := by
  refine .inspect fun s => .ite ?_ ?_
  · refine (carveOrReuseSpans_sameRuns _ _ _ _).bind fun range => .ite (.ret _) ?_
    exact Moves.bind (.modify fun s => congrArg LargeAllocator.runSpans (adopt_large ..)) fun _ => .ret _
  · refine (carveOrReuseSpans_sameRuns _ _ _ _).bind fun range => .ite (.ret _) ?_
    exact Moves.bind (.modify fun s => congrArg LargeAllocator.runSpans (adoptRun_large ..)) fun _ => .ret _

theorem allocClass_sameRuns (cls thread : Nat) : Moves SameRuns (allocClass cls thread) := by
  have takes := fun shard room => moves_sameRuns (centralTake_sameStock shard cls room)
  refine (moves_sameRuns (slabPop_sameStock cls)).bind fun r => ?_
  cases r with
  | ok p => exact .ret _
  | needsSlow =>
      refine Moves.bind (m := takeOrCarve .alone cls thread) (.inspect fun s => (takes _ _).bind fun got => .ite
        ((centralCarve_sameRuns _ _ _ _).bind fun _ => .ite (.ret _) (takes _ _)) (.ret _)) fun objs => ?_
      cases objs with
      | nil => exact .ret _
      | cons p rest =>
          exact (moves_sameRuns (.each (stash_sameStock cls) rest)).bind fun _ => .ret _

theorem refillBatch_sameRuns (company : Company) (cls thread room : Nat) :
    Moves SameRuns (refillBatch company cls thread room) :=
  .inspect fun _ => (moves_sameRuns (centralTake_sameStock _ _ _)).bind fun _ =>
    .loop (fun _ => .ite (.ret _) ((centralCarve_sameRuns _ _ _ _).bind fun _ => .ite (.ret _)
      ((moves_sameRuns (centralTake_sameStock _ _ _)).bind fun _ => .ite (.ret _) (.ret _)))) _ _

theorem retire_large (s : SubHeap) (shard cls prev span : Nat) :
    (s.retire shard cls prev span).large = s.large := by
  unfold retire
  simp only
  split <;> rfl

theorem reclaimWalk_large (shard cls steps cap prev span : Nat) (s : SubHeap) :
    (reclaimWalk shard cls steps cap prev span s).2.large = s.large := by
  induction steps generalizing cap prev span s with
  | zero => rfl
  | succ steps ih =>
      rw [reclaimWalk]
      split
      · rfl
      · simp only
        split
        · rw [ih, retire_large]
        · rw [ih]

theorem fileRuns_sameRuns (group : Nat) (spans : List Nat) : Moves SameRuns (fileRuns group spans) := by
  have file : ∀ span, Moves SameRuns (fileRun group span) := by
    intro span
    refine .inspect fun s => ?_
    generalize s.large.pool.free (wrap32 (s.large.spanIndex (s.bitmaps.spanBase span))) group = filed
    cases filed with
    | none => exact panicLocked_sameRuns
    | some pool => exact .modify fun _ => rfl
  exact .inspect fun _ => .ite .fail (.bind (.each file _) fun _ => .ret _)

theorem reclaimLocked_sameRuns (shard cls cap : Nat) : Moves SameRuns (reclaimLocked shard cls cap) := by
  intro s env
  have same := reclaimWalk_large shard cls (s.spans.numSpans + 1) (min cap 32) noSpan (s.head shard cls) s
  rcases out : reclaimWalk shard cls (s.spans.numSpans + 1) (min cap 32) noSpan (s.head shard cls) s
    with ⟨gone, s'⟩
  rw [out] at same
  have ends := reclaimLocked_spec (E := fun _ => False) out s env rfl
  rcases ran : reclaimLocked shard cls cap s env with ⟨_ | retired, s₁, env'⟩
  · simp only [ran] at ends
  · simp only [ran] at ends
    rw [ends.2]
    exact congrArg LargeAllocator.runSpans same

theorem reclaimCell_sameRuns (shard cls cap : Nat) : Moves SameRuns (reclaimCell shard cls cap) := by
  unfold reclaimCell
  refine .ite (.ret _) ((reclaimLocked_sameRuns shard cls cap).bind fun retired => .ite (.ret _) ?_)
  exact (fileRuns_sameRuns _ _).bind fun _ => .ret _

theorem reclaimEmptySpans_sameRuns (maxPerLock : Nat) : Moves SameRuns (reclaimEmptySpans maxPerLock) := by
  have cells : ∀ cap shard cls, Moves SameRuns (reclaimCells cap shard cls) := fun cap shard cls =>
    .inspect fun _ => .loop (fun _ => (reclaimCell_sameRuns shard cls cap).bind fun _ =>
      .ite (.ret _) (.ret _)) _ _
  exact .inspect fun s => .bind (.each (fun _ => cells _ _ _) _) fun _ => .ret _

/-! ## Accounts -/

/-- The ledger holds with `H` and `L` outside, nothing was lost, and every run on record
    is in `L`. -/
structure Accounted (g : Geometry) (H L : Multiset (Nat × Nat)) (s : SubHeap) : Prop where
  owned : Owned .tags g H L [] s
  whole : s.clipped = false
  runs : ∀ h, s.large.runSpans.cell h ≠ 0 → (g.base + h * spanBytes, s.large.runSpans.cell h) ∈ L

/-- A program that moves objects only. -/
theorem Accounted.moved {m : Prog Turn SubHeap α} {H' : α → Multiset (Nat × Nat)}
    (moves : Moves SameRuns m)
    (spec : Triple (Accounted g H L) m (fun a => Owned .tags g (H' a) L []) E) :
    Triple (Accounted g H L) m (fun a s => s.clipped = false → Accounted g (H' a) L s) E := by
  intro s env held
  have same := moves s env
  have ends := spec s env held
  rcases out : m s env with ⟨_ | a, s', env'⟩
  · simp only [out] at ends ⊢
    exact ends
  · simp only [out] at ends same ⊢
    refine fun whole => ⟨ends, whole, fun h some => ?_⟩
    rw [same] at some ⊢
    exact held.runs h some

theorem allocClass_accounted {cls thread : Nat} (isClass : IsClass cls) (uses : g.uses (thread % g.shards)) :
    Triple (Accounted g H L) (allocClass cls thread)
      (fun r s => s.clipped = false → Accounted g (handed cls r + H) L s) E := by
  have allowed : Allowed .tags g thread := ⟨uses, nofun⟩
  apply Accounted.moved (allocClass_sameRuns cls thread)
  exact (allocClass_spec isClass allowed).strengthen fun _ held => held.owned

/-- What a large request hands to its caller, as it is recorded. -/
def handedRun (size : Nat) (r : Option Nat) : Multiset (Nat × Nat) :=
  r.toList.map (·, wrap32 (spanCount size))

theorem allocLarge_accounted {size : Nat} (small : spanCount size < 2 ^ 32) :
    Triple (Accounted g H L) (allocLarge size)
      (fun r s => s.clipped = false → Accounted g H (handedRun size r + L) s) (fun _ => False) := by
  have bound : size + (spanBytes - 1) < 2 ^ 64 := by
    unfold spanCount spanBytes at *
    omega
  refine Triple.pin fun s held => ?_
  obtain ⟨⟨role, ledger, settled⟩, whole, runs⟩ := held
  refine ((allocLarge_spec ledger settled bound fun _ => small).weaken ?_).relax ?_
  · rintro r s' (⟨rfl, rfl⟩ | ⟨s₁, h, rfl, reserved, rfl⟩)
    · intro _
      exact ⟨⟨role, by simpa [handedRun] using ledger, settled⟩, whole, by simpa [handedRun] using runs⟩
    · intro whole'
      have granted := ledger.granted reserved bound fun _ => (wrap32_small small).symm
      refine ⟨⟨_, granted, assign_settled settled (by simp)⟩, whole', fun h' some => ?_⟩
      simp only [SubHeap.granted, reserved.runSpans, Slice.put_cell] at some ⊢
      by_cases same : h' = h
      · subst same
        rw [if_pos rfl]
        exact Multiset.mem_cons_self ..
      · rw [if_neg same] at some ⊢
        exact Multiset.mem_cons_of_mem (runs h' some)
  · rintro s' ⟨-, poisoned | large⟩
    · rw [ledger.healthy Trust.tags_tagged whole] at poisoned
      cases poisoned
    · omega

/-- An object freed by its address alone. -/
theorem deallocByPtr_accounted {p cls thread : Nat} :
    Triple (Accounted g ((p, cls) ::ₘ H) L) (deallocByPtr p thread)
      (fun _ s => s.clipped = false → Accounted g H L s) E := by
  intro s env held
  obtain ⟨⟨role, ledger, settled⟩, whole, runs⟩ := held
  have slot := ledger.slots.outside cls p (.inr (Multiset.mem_cons_self ..))
  obtain ⟨home, found⟩ := ledger.lookup_class Trust.tags_tagged whole slot
  obtain ⟨k, sh, i, active, -⟩ := slot
  rw [deallocByPtr_class (ledger.cells.isClass active) found]
  refine Triple.bind (Accounted.moved (moves_sameRuns (deallocClass_sameStock p cls thread))
    ((deallocClass_spec thread).strengthen fun _ held => held.owned))
    (fun _ => Triple.ret true fun _ kept => kept) s env ?_
  exact ⟨⟨role, ledger, settled⟩, whole, runs⟩

/-- A run freed by its address alone. -/
theorem deallocByPtr_run_accounted {p n thread : Nat} :
    Triple (Accounted g H ((p, n) ::ₘ L)) (deallocByPtr p thread)
      (fun _ s => s.clipped = false → Accounted g H L s) (fun _ => False) := by
  intro s env held
  obtain ⟨⟨role, ledger, settled⟩, whole, runs⟩ := held
  obtain ⟨h, rfl, -⟩ := ledger.larges.recorded _ (Multiset.mem_cons_self ..)
  rcases ledger.lookup_run settled with ⟨untagged, -⟩ | large
  · exact (untagged Trust.tags_tagged).elim
  · rw [deallocByPtr_large large]
    refine Triple.bind ((deallocLarge_spec ledger settled).relax fun s' panic => ?_)
      (fun _ => Triple.ret true ?_) _ env rfl
    · rw [ledger.healthy Trust.tags_tagged whole] at panic
      cases panic.2
    · rintro s' ⟨freed, -, pool, rfl⟩ whole'
      refine ⟨⟨_, freed, assign_settled settled (by simp)⟩, whole', fun h' some => ?_⟩
      simp only [Slice.put_cell] at some ⊢
      by_cases same : h' = h
      · subst same
        rw [if_pos rfl] at some
        exact (some rfl).elim
      · rw [if_neg same] at some ⊢
        refine (Multiset.mem_cons.mp (runs h' some)).resolve_left fun equal => same ?_
        exact Nat.eq_of_mul_eq_mul_right (by decide) (Nat.add_left_cancel (congrArg Prod.fst equal))

theorem reclaimEmptySpans_accounted (maxPerLock : Nat) :
    Triple (Accounted g H L) (reclaimEmptySpans maxPerLock)
      (fun _ s => s.clipped = false → Accounted g H L s) (fun _ => False) := by
  refine Accounted.moved (reclaimEmptySpans_sameRuns maxPerLock)
    (Triple.pin fun s held => ?_)
  obtain ⟨⟨role, ledger, settled⟩, whole, -⟩ := held
  refine ((reclaimEmptySpans_spec maxPerLock ledger settled).weaken ?_).relax ?_
  · rintro _ s' ⟨role', -, ledger', settled', -⟩
    exact ⟨role', ledger', settled'⟩
  · exact fun _ panic => ledger.unblocked Trust.tags_tagged whole panic.2

end SubHeap

end Toccata
