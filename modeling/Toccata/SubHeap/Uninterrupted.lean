import Toccata.Foundations.Stepwise
import Toccata.SubHeap.Interleaving

/-! # Operations alone

An operation whose steps no other comes between is the plain function. So the runs of
the machine include every history of whole calls.
-/

namespace Toccata

open Foundations SizeClass

namespace SubHeap

/-- From any state, the steps of an operation with nothing in between are the program
    `m`. -/
def Pc.Alone (thread : Nat) (pc : Pc) (m : Prog Turn SubHeap Hand) : Prop :=
  Runs (Pc.run .alone thread) .done (fun _ => True) pc m

namespace Pc

variable {thread cls p : Nat} {next : Pc} {m : Prog Turn SubHeap Hand}

/-! ## Objects -/

theorem done_alone : Alone thread .done (pure 0) := Runs.halt

theorem hand_alone : Alone thread (.hand cls p) (pure (handObjects cls [p])) :=
  Continues.runs (by simp) (.last _)

theorem deposit_alone (alone : next.Alone thread m) :
    Alone thread (.deposit cls p next) (centralDeposit p (sizeOfClass cls) >>= fun _ => m) := by
  apply Continues.runs (by simp)
  exact .after fun _ => .next alone

theorem push_alone (alone : next.Alone thread m) :
    Alone thread (.push cls p next) (stash cls p >>= fun _ => m) := by
  apply Continues.runs (by simp)
  rw [stash, Prog.bind_bind]
  apply Continues.after
  intro r
  cases r with
  | ok => exact .next alone
  | needsSlow => exact .next (deposit_alone alone)

theorem pushes_alone (objs : List Nat) (alone : next.Alone thread m) :
    Alone thread (objs.foldr (.push cls) next) (Prog.each (stash cls) objs >>= fun _ => m) := by
  induction objs with
  | nil => exact alone
  | cons p rest ih =>
      rw [Prog.each, Prog.bind_bind]
      simp only [Prog.bind_bind]
      exact push_alone ih

theorem refill_alone : Alone thread (.refill cls) (do
    let r ← SubHeap.refill cls thread
    return handObjects cls r.toList) := by
  apply Continues.runs (by simp)
  rw [SubHeap.refill, Prog.bind_bind]
  apply Continues.after
  intro objs
  cases objs with
  | nil => exact .next done_alone
  | cons p rest =>
      rw [Prog.bind_bind]
      exact .next (pushes_alone rest hand_alone)

/-- `alloc_class`. -/
theorem pop_alone (thread : Nat) : Alone thread (.pop cls) (do
    let r ← allocClass cls thread
    return handObjects cls r.toList) := by
  apply Continues.runs (by simp)
  rw [allocClass, Prog.bind_bind]
  apply Continues.after
  intro r
  cases r with
  | ok p => exact .next hand_alone
  | needsSlow => exact .next refill_alone

theorem refillBatch_alone (thread : Nat) (room : Nat) : Alone thread (.refillBatch cls room) (do
    let objs ← SubHeap.refillBatch .alone cls thread room
    return handObjects cls objs) := by
  apply Continues.runs (by simp)
  exact .after fun objs => .last _

/-- Half a batch, one object at a time. -/
theorem drain_alone (n : Nat) (alone : next.Alone thread m) : Alone thread (.drain cls n next) (do
    Prog.upTo n do
      match ← slabPop cls with
      | .ok q => do
          centralDeposit q (sizeOfClass cls)
          return true
      | .needsSlow => return false
    m) := by
  induction n with
  | zero => exact Continues.runs (by simp) (.next alone)
  | succ n ih =>
      apply Continues.runs (by simp)
      rw [Prog.upTo_succ, Prog.bind_bind, Prog.bind_bind]
      apply Continues.after
      intro r
      cases r with
      | ok q =>
          rw [Prog.bind_bind]
          exact .next (deposit_alone ih)
      | needsSlow => exact .next alone

theorem pushLocal_alone (alone : next.Alone thread m) :
    Alone thread (.pushLocal cls p next) (freeLocal cls p >>= fun _ => m) := by
  apply Continues.runs (by simp)
  rw [freeLocal, Prog.bind_bind]
  apply Continues.after
  intro r
  cases r with
  | ok => exact .next alone
  | needsSlow =>
      rw [SubHeap.drain, Prog.bind_bind]
      exact .next (drain_alone _ (push_alone alone))

/-- `dealloc_class`. -/
theorem free_alone (thread : Nat) : Alone thread (.free cls p) (do
    deallocClass p cls thread
    return 0) := by
  apply Continues.runs (by simp)
  rw [deallocClass, Prog.bind_bind]
  apply Continues.after
  intro s
  rw [Prog.ite_bind]
  apply Continues.ite
  · exact fun _ => .next (pushLocal_alone done_alone)
  · exact fun _ => .next (deposit_alone done_alone)

/-! ## Batches -/

theorem hint_alone {shard span : Nat} : Alone thread (.hint shard cls span) (do
    Prog.modify fun s => s.setHint shard cls span
    return 0) := by
  apply Continues.runs (by simp)
  exact .after fun _ => .next done_alone

theorem home_alone {span : Nat} : Alone thread (.home cls span) (do
    Prog.modify fun s => s.setHint (s.hintShard span) cls span
    return 0) := by
  apply Continues.runs (by simp)
  exact fun s env _ => .inr ⟨rfl, hint_alone s env trivial⟩

theorem flush_alone {pending : Pending} (alone : next.Alone thread m) :
    Alone thread (.flush cls pending next) (flushPending pending >>= fun _ => m) := by
  apply Continues.runs (by simp)
  exact .after fun _ => .next alone

theorem batchAll_alone (ptrs : List Nat) (pending : Pending) :
    Alone thread (.batch cls ptrs pending) (do
      let pending ← batchAll cls thread ptrs pending
      flushPending pending
      if pending.span = noSpan then
        return 0
      else
        Prog.modify fun s => s.setHint (s.hintShard pending.span) cls pending.span
        return 0) := by
  induction ptrs generalizing pending with
  | nil =>
      apply Continues.runs (by simp)
      refine .next (flush_alone ?_)
      split
      · exact done_alone
      · exact home_alone
  | cons p rest ih =>
      apply Continues.runs (by simp)
      simp only [batchAll, batchOne, Prog.bind_bind]
      apply Continues.after
      intro s
      rw [Prog.ite_bind]
      apply Continues.ite
      · intro _
        rw [Prog.bind_bind]
        exact .next (pushLocal_alone (ih pending))
      · intro _
        rcases s.bitmaps.locate p (sizeOfClass cls) with ⟨span, word, bit⟩
        simp only [Prog.ite_bind]
        apply Continues.ite
        · intro _
          rw [Prog.bind_bind]
          exact .next (flush_alone (ih _))
        · exact fun _ => .next (ih _)

/-- `dealloc_class_batch`. -/
theorem batch_alone (thread : Nat) (ptrs : List Nat) : Alone thread (.batch cls ptrs .none) (do
    deallocClassBatch ptrs cls thread
    return 0) := by
  have same : (do deallocClassBatch ptrs cls thread; return 0 : Prog Turn SubHeap Hand) = (do
      let pending ← batchAll cls thread ptrs .none
      flushPending pending
      if pending.span = noSpan then
        return 0
      else
        Prog.modify fun s => s.setHint (s.hintShard pending.span) cls pending.span
        return 0) := by
    simp only [deallocClassBatch, Prog.bind_bind, Prog.ite_bind]
    rfl
  rw [same]
  exact batchAll_alone ptrs .none

/-! ## Sweeps and stopped CPUs -/

theorem file_alone (spans : List Nat) : Alone thread (.file cls spans) (do
    fileRuns (groupSpans (roundedSize cls)) spans
    return 0) := by
  apply Continues.runs (by simp)
  exact .after fun _ => .next done_alone

theorem reclaimWalk_none (shard steps prev span : Nat) (s : SubHeap) :
    reclaimWalk shard cls steps 0 prev span s = ([], s) := by
  cases steps with
  | zero => rfl
  | succ steps => rw [reclaimWalk, if_pos (.inr rfl)]

/-- What `reclaim_cell` does once the lock is released. -/
theorem retired_continues (retired : List Nat) : Continues (Pc.run .alone thread) .done (fun _ => True)
    (pure (0, if retired = [] then .done else .file cls retired))
    (if retired = [] then
      return 0
    else do
      fileRuns (groupSpans (roundedSize cls)) retired
      return 0) := by
  by_cases none : retired = []
  · rw [if_pos none, if_pos none]
    exact .next done_alone
  · rw [if_neg none, if_neg none]
    exact .next (file_alone retired)

theorem swept_alone (shard cap : Nat) : Alone thread (.sweep shard cls cap) (do
    let retired ← reclaimLocked shard cls cap
    if retired = [] then
      return 0
    else
      fileRuns (groupSpans (roundedSize cls)) retired
      return 0) := by
  apply Continues.runs (by simp)
  have free : Pc.run .alone thread (.sweep shard cls cap) = (do
      let gone ← reclaimLocked shard cls cap
      return (0, if gone = [] then .done else .file cls gone)) := rfl
  rw [free]
  apply Continues.after
  exact retired_continues

theorem reclaimLocked_none (shard : Nat) (s : SubHeap) (env : List Turn) :
    reclaimLocked shard cls 0 s env = (some [], s, env) := by
  apply Prog.apply_some
  rw [Nat.zero_min, reclaimWalk_none]

/-- The count is not handed out. -/
theorem counted (taken : Prog Turn SubHeap (List Nat)) (file : List Nat → Prog Turn SubHeap Unit) : (do
    let retired ← taken
    if retired = [] then
      return 0
    else
      file retired
      return 0 : Prog Turn SubHeap Hand) = (do
    let _ ← (do
      let retired ← taken
      if retired = [] then
        return 0
      else
        file retired
        return retired.length : Prog Turn SubHeap Nat)
    return 0) := by
  rw [Prog.bind_bind]
  simp only [Prog.ite_bind, Prog.bind_bind]
  rfl

theorem reclaimCell_some {cap : Nat} (shard : Nat) (given : cap ≠ 0) : (do
    let retired ← reclaimLocked shard cls cap
    if retired = [] then
      return 0
    else
      fileRuns (groupSpans (roundedSize cls)) retired
      return 0 : Prog Turn SubHeap Hand) = (do
    let _ ← reclaimCell shard cls cap
    return 0) := by
  rw [reclaimCell, if_neg given]
  exact counted _ (fileRuns _)

/-- `reclaim_cell`. -/
theorem sweep_alone (thread : Nat) (shard cap : Nat) : Alone thread (.sweep shard cls cap) (do
    let _ ← reclaimCell shard cls cap
    return 0) := by
  by_cases none : cap = 0
  · subst none
    have nothing : reclaimCell shard cls 0 = return 0 := by
      rw [reclaimCell, if_pos rfl]
    rw [nothing]
    refine (swept_alone shard 0).congr fun s env _ => ?_
    rw [Prog.bind_some (reclaimLocked_none shard s env), if_pos rfl]
    rfl
  · rw [← reclaimCell_some shard none]
    exact swept_alone shard cap

theorem rebalanceOne_top {s : SubHeap} {cpu obj : Nat} {rest : List Nat}
    (top : (s.slab.stack cpu cls).slots = obj :: rest) : rebalanceOne cpu cls s =
      let popped := { s with slab := s.slab.put cpu cls { s.slab.stack cpu cls with slots := rest } }
      if obj = 0 then popped else popped.deposited obj (sizeOfClass cls) := by
  rw [rebalanceOne, top]

theorem evict_alone {cpu : Nat} (n : Nat) : Alone thread (.evict cpu cls n) (do
    Prog.modify (rebalanceOne cpu cls)^[n]
    return 0) := by
  induction n with
  | zero => exact Continues.runs (by simp) (.next done_alone)
  | succ n ih =>
      apply Continues.runs (by simp)
      apply Continues.inspect
      intro s _
      cases top : (s.slab.stack cpu cls).slots with
      | nil =>
          refine Continues.congr (.next Runs.halt) ?_
          rintro s env rfl
          have still : rebalanceOne cpu cls s = s := by
            rw [rebalanceOne, top]
          show (some 0, _, env) = (some 0, s, env)
          rw [Function.iterate_fixed still]
      | cons obj rest =>
          by_cases null : obj = 0
          · simp only [if_pos null]
            refine Continues.congr (Continues.after fun _ => .next ih) ?_
            rintro s env rfl
            show (some 0, (rebalanceOne cpu cls)^[n + 1] s, env) = _
            rw [Function.iterate_succ_apply, rebalanceOne_top top, if_pos null]
            rfl
          · simp only [if_neg null]
            refine Continues.congr (Continues.after fun _ => .next (deposit_alone ih)) ?_
            rintro s env rfl
            show (some 0, (rebalanceOne cpu cls)^[n + 1] s, env) = _
            rw [Function.iterate_succ_apply, rebalanceOne_top top, if_neg null]
            rfl

/-- `rebalance_capacity`. -/
theorem rebalance_alone (thread : Nat) {cpu : Nat} (count : Nat) : Alone thread (.rebalance cpu cls count) (do
    let _ ← rebalanceCapacity cpu cls count
    return 0) := by
  apply Continues.runs (by simp)
  rw [rebalanceCapacity, Prog.bind_bind]
  apply Continues.after
  intro s
  exact .next (evict_alone _)

/-! ## Large runs -/

variable {size : Nat}

theorem panicLocked_continues {P : SubHeap → Prop} :
    Continues (Pc.run .alone thread) .done P panicLocked panicLocked :=
  .after fun _ => .fail

theorem record_alone {start : Nat} {s : SubHeap} (clear : s.large.poisoned = false) :
    Runs (Pc.run .alone thread) .done (· = s) (.record size start) (do
      let r ← allocLarge.record size start
      return handRun size r) := by
  apply Continues.runs (by simp)
  apply Continues.inspect
  rintro t rfl
  rw [if_neg (by simp [clear])]
  exact .after fun r => .last _

theorem carveRun_alone {s : SubHeap} (clear : s.large.poisoned = false) :
    Runs (Pc.run .alone thread) .done (· = s) (.carveRun size) (do
      let r ← (match s.arena.carveRun (runBytes size) with
        | none => pure none
        | some (start, arena) => do
            Prog.modify fun s => { s with arena }
            allocLarge.record size start : Prog Turn SubHeap (Option Nat))
      return handRun size r) := by
  apply Continues.runs (by simp)
  apply Continues.inspect
  rintro t rfl
  cases t.arena.carveRun (runBytes size) with
  | none => exact .next Runs.halt
  | some claim =>
      obtain ⟨start, arena⟩ := claim
      rw [Prog.bind_bind]
      apply Continues.bind (Q := fun _ s' => s' = { t with arena })
      · apply Triple.modify
        rintro _ rfl
        rfl
      · exact fun _ => .next (record_alone clear)

/-- What `alloc_large` does with an answer of the pool, whatever it is to record and to
    carve a run. -/
theorem pooled_continues {s : SubHeap} (record : Nat → Prog Turn SubHeap (Option Nat))
    (carve : Prog Turn SubHeap (Option Nat))
    (carved : Runs (Pc.run .alone thread) .done (· = s) (.carveRun size) (do
      let r ← carve
      return handRun size r))
    (answer : Option (Option Nat × SpanPool)) :
    Continues (Pc.run .alone thread) .done (· = s) (match answer with
      | none => panicLocked
      | some (some headIdx, pool) => do
          Prog.modify fun s => { s with large := { s.large with pool } }
          let r ← record (s.large.spanPtr headIdx)
          return (handRun size r, .done)
      | some (none, _) => return (0, .carveRun size)) ((match answer with
      | none => panicLocked
      | some (some headIdx, pool) => do
          Prog.modify fun s => { s with large := { s.large with pool } }
          record (s.large.spanPtr headIdx)
      | some (none, _) => carve) >>= fun r => return handRun size r) := by
  rcases answer with _ | ⟨_ | headIdx, pool⟩
  · exact panicLocked_continues
  · exact .next carved
  · rw [Prog.bind_bind]
    apply Continues.after
    intro _
    exact .after fun r => .last _

theorem allocLarge_clear {s : SubHeap} (clear : s.large.poisoned = false) (env : List Turn) :
    allocLarge size s env = (match s.large.pool.alloc (wrap32 (spanCount size)) with
      | none => panicLocked
      | some (some headIdx, pool) => do
          Prog.modify fun s => { s with large := { s.large with pool } }
          allocLarge.record size (s.large.spanPtr headIdx)
      | some (none, _) =>
          match s.arena.carveRun (runBytes size) with
          | none => return none
          | some (start, arena) => do
              Prog.modify fun s => { s with arena }
              allocLarge.record size start : Prog Turn SubHeap (Option Nat)) s env := by
  have unpoisoned : ¬ s.large.poisoned = true := by simp [clear]
  rw [allocLarge, Prog.read_bind]
  generalize allocLarge.record size = record
  generalize s.large.pool.alloc (wrap32 (spanCount size)) = answer
  generalize s.arena.carveRun (runBytes size) = claim
  rcases answer with _ | ⟨_ | headIdx, pool⟩
  · exact congrFun (congrFun (if_neg unpoisoned) s) env
  · cases claim <;> exact congrFun (congrFun (if_neg unpoisoned) s) env
  · exact congrFun (congrFun (if_neg unpoisoned) s) env

/-- `alloc_large`. -/
theorem large_alone (thread : Nat) : Alone thread (.large size) (do
    let r ← allocLarge size
    return handRun size r) := by
  apply Continues.runs (by simp)
  apply Continues.inspect
  intro s _
  by_cases poisoned : s.large.poisoned = true
  · rw [if_pos poisoned]
    refine Continues.congr .fail ?_
    rintro s env rfl
    rw [allocLarge, Prog.bind_bind, Prog.read_bind, if_pos poisoned]
    rfl
  · rw [if_neg poisoned]
    have clear := Bool.eq_false_iff.mpr poisoned
    refine Continues.congr (pooled_continues (allocLarge.record size) _ (carveRun_alone clear) _) ?_
    rintro s env rfl
    exact Prog.bind_same (allocLarge_clear clear env) _

theorem fileLarge_alone {idx count : Nat} : Alone thread (.fileLarge idx count) (do
    let s ← Prog.read
    if s.large.poisoned then
      Prog.fail
    else
      match s.large.pool.free idx count with
      | some pool => do
          Prog.modify fun s => { s with large := { s.large with pool } }
          return 0
      | none => panicLocked) := by
  apply Continues.runs (by simp)
  apply Continues.after
  intro s
  apply Continues.ite
  · exact fun _ => .fail
  · intro _
    cases s.large.pool.free idx count with
    | none => exact panicLocked_continues
    | some pool => exact .after fun _ => .next done_alone

/-- `dealloc_large`. -/
theorem freeLarge_alone (thread : Nat) : Alone thread (.freeLarge p size) (do
    deallocLarge p
    return 0) := by
  apply Continues.runs (by simp)
  rw [deallocLarge, Prog.bind_bind]
  apply Continues.bind (Q := fun t s => t = s)
  · exact fun s env _ => rfl
  · intro s
    cases s.large.runSpans.get? (s.large.spanIndex p) with
    | none => exact .fail
    | some count =>
        rw [Prog.bind_bind]
        apply Continues.bind (Q := fun _ t => t.large.pool = s.large.pool ∧
          t.large.poisoned = s.large.poisoned)
        · apply Triple.modify
          rintro _ rfl
          exact ⟨rfl, rfl⟩
        · intro _
          by_cases zero : count = 0
          · rw [if_pos zero, if_pos zero]
            exact .next Runs.halt
          · rw [if_neg zero, if_neg zero]
            refine .next ((fileLarge_alone.strengthen fun _ _ => trivial).congr ?_)
            rintro t env ⟨pool, poisoned⟩
            rw [Prog.read_bind, pool, poisoned, Prog.ite_bind]
            cases s.large.pool.free (wrap32 (s.large.spanIndex p)) count <;> rfl

end Pc

/-! ## Locks that no one else holds -/

theorem tryLock_unanswered : Unanswered (tryLock .among) (tryLock .alone) := fun _ _ => rfl

theorem carveOrReuseSpans_unanswered (numSpans cls home : Nat) :
    Unanswered (carveOrReuseSpans .among numSpans cls home) (carveOrReuseSpans .alone numSpans cls home) := by
  refine .bind (tryLock_unanswered.bind fun busy => .inspect fun s => .ite (.ret _) ?_) fun range => ?_
  · rcases s.large.pool.alloc (wrap32 numSpans) with _ | ⟨_ | headIdx, pool⟩
    · exact .bind (.modify _) fun _ => .fail
    · exact .ret _
    · exact .bind (.modify _) fun _ => .ret _
  · cases range with
    | some range => exact .ret _
    | none => exact .apply _

theorem centralCarve_unanswered (cls myShard batch : Nat) :
    Unanswered (centralCarve .among cls myShard batch) (centralCarve .alone cls myShard batch) :=
  .inspect fun _ => .ite
    ((carveOrReuseSpans_unanswered _ _ _).bind fun _ => .ite (.ret _) (.bind (.modify _) fun _ => .ret _))
    ((carveOrReuseSpans_unanswered _ _ _).bind fun _ => .ite (.ret _) (.bind (.modify _) fun _ => .ret _))

theorem takeOrCarve_unanswered (cls myShard : Nat) :
    Unanswered (takeOrCarve .among cls myShard) (takeOrCarve .alone cls myShard) :=
  .inspect fun _ => .bind (.apply _) fun _ => .ite
    ((centralCarve_unanswered _ _ _).bind fun _ => .ite (.ret _) (.apply _)) (.ret _)

theorem refillBatch_unanswered (cls thread room : Nat) :
    Unanswered (SubHeap.refillBatch .among cls thread room) (SubHeap.refillBatch .alone cls thread room) :=
  .inspect fun _ => .bind (.apply _) fun _ =>
    .loop (fun _ => .ite (.ret _) ((centralCarve_unanswered _ _ _).bind fun _ => .ite (.ret _)
      (.bind (.apply _) fun _ => .ite (.ret _) (.ret _)))) _ _

/-- Among others, too, an operation may find every lock free. -/
theorem Pc.run_undisturbed (thread : Nat) (pc : Pc) (s : SubHeap) (env : List Turn) :
    ∃ env', (pc.run .among thread s env').1 = (pc.run .alone thread s env).1 ∧
      (pc.run .among thread s env').2.1 = (pc.run .alone thread s env).2.1 := by
  have free : ∀ pc : Pc, Unanswered (pc.run .among thread) (pc.run .alone thread) →
      ∃ env', (pc.run .among thread s env').1 = (pc.run .alone thread s env).1 ∧
        (pc.run .among thread s env').2.1 = (pc.run .alone thread s env).2.1 := by
    intro pc same
    exact ⟨[], congrArg (·.1) (same s env), congrArg (·.2.1) (same s env)⟩
  cases pc with
  | refill cls =>
      refine free _ ((takeOrCarve_unanswered cls thread).bind fun objs => ?_)
      cases objs with
      | nil => exact .ret _
      | cons => exact .ret _
  | refillBatch cls room => exact free _ ((refillBatch_unanswered cls thread room).bind fun _ => .ret _)
  | sweep shard cls cap =>
      exact free _ (tryLock_unanswered.bind fun _ => .ite (.ret _) (.bind (.apply _) fun _ => .ret _))
  | drain cls n next => cases n <;> exact ⟨env, rfl, rfl⟩
  | batch cls ptrs pending => cases ptrs <;> exact ⟨env, rfl, rfl⟩
  | evict cpu cls n => cases n <;> exact ⟨env, rfl, rfl⟩
  | _ => exact ⟨env, rfl, rfl⟩

/-! ## Histories of whole calls -/

namespace Machine

variable {c : Config} {w v : World} {thread : Nat} {pc : Pc} {behind : List Task}

/-- Every step may be taken. -/
abbrev Reach (c : Config) : Machine → Prop := Reached c fun _ _ _ => True

/-- A step of the operation alone is one among the others. -/
theorem Reached.undisturbed {s : SubHeap} {objects runs : Multiset (Nat × Nat)}
    (reached : Reach c ⟨⟨s, objects, runs⟩, ⟨thread, pc⟩ :: behind⟩) (env : List Turn) :
    Reach c (match pc.run .alone thread s env with
      | (some (hand, pc'), s', _) => ⟨⟨s', hand.1 + objects, hand.2 + runs⟩,
          if pc' = .done then behind else ⟨thread, pc'⟩ :: behind⟩
      | (none, s', _) => ⟨⟨s', objects, runs⟩, behind⟩) := by
  obtain ⟨env', answer, memory⟩ := Pc.run_undisturbed thread pc s env
  have stepped := reached.next (.advance [] ⟨thread, pc⟩ behind env' rfl trivial)
  simp only [Machine.advance, List.nil_append] at stepped
  rcases outcome : pc.run .among thread s env' with ⟨_ | ⟨hand, pc'⟩, s', rest⟩ <;>
    rcases alone : pc.run .alone thread s env with ⟨_ | ⟨hand', pc''⟩, s'', rest'⟩ <;>
    simp only [outcome, alone] at stepped answer memory ⊢
  · rwa [← memory]
  · cases answer
  · cases answer
  · cases answer
    rwa [← memory]

/-- Steps taken with nothing in between. -/
theorem Reached.ends {s : SubHeap} {env : List Turn} {out : Option Hand × SubHeap × List Turn}
    {objects runs : Multiset (Nat × Nat)} (ends : Ends (Pc.run .alone thread) .done pc s env out)
    (reached : Reach c ⟨⟨s, objects, runs⟩, if pc = .done then behind else ⟨thread, pc⟩ :: behind⟩) :
    Reach c ⟨⟨out.2.1, (out.1.getD 0).1 + objects, (out.1.getD 0).2 + runs⟩, behind⟩ := by
  induction ends with
  | halt s env =>
      rw [if_pos rfl] at reached
      show Reach c ⟨⟨s, 0 + objects, 0 + runs⟩, behind⟩
      rwa [Multiset.zero_add, Multiset.zero_add]
  | @last pc s env a s' env' unfinished step =>
      rw [if_neg unfinished] at reached
      have stepped := reached.undisturbed env
      simp only [step, if_pos] at stepped
      exact stepped
  | @next pc pc' s env s' env' out unfinished step _ ih =>
      rw [if_neg unfinished] at reached
      have stepped := reached.undisturbed env
      simp only [step] at stepped
      apply ih
      have kept : Reach c ⟨⟨s', 0 + objects, 0 + runs⟩,
        if pc' = .done then behind else ⟨thread, pc'⟩ :: behind⟩ := stepped
      rwa [Multiset.zero_add, Multiset.zero_add] at kept
  | @panic pc s env s' env' unfinished step =>
      rw [if_neg unfinished] at reached
      have stepped := reached.undisturbed env
      simp only [step] at stepped
      show Reach c ⟨⟨s', 0 + objects, 0 + runs⟩, behind⟩
      rwa [Multiset.zero_add, Multiset.zero_add]

/-- A whole call. -/
theorem Reached.call {α : Type} {m : Prog Turn SubHeap α} {give : α → Hand} {got : α → World → World}
    (alone : pc.Alone thread (do let a ← m; return give a)) (reached : Reach c ⟨w, []⟩)
    (enters : Enters ⟨w, []⟩ pc) (env : List Turn)
    (left : v = ⟨w.sub, w.objects - (given pc).1, w.runs - (given pc).2⟩)
    (gives : ∀ a s, got a { v with sub := s } = ⟨s, (give a).1 + v.objects, (give a).2 + v.runs⟩) :
    Reach c ⟨v.call m env got, []⟩ := by
  have unfinished : pc ≠ .done := by
    rintro rfl
    exact enters
  have begun := Reached.begin reached thread pc (by simp) enters
  have ended := Reached.ends (alone w.sub env trivial) (by rwa [if_neg unfinished])
  subst left
  unfold World.call
  simp only [Bind.bind] at ended
  rcases outcome : m w.sub env with ⟨_ | a, s, env'⟩ <;> simp only [outcome] at ended ⊢
  · have kept : Reach c ⟨⟨s, 0 + (w.objects - (given pc).1), 0 + (w.runs - (given pc).2)⟩, []⟩ := ended
    rwa [Multiset.zero_add, Multiset.zero_add] at kept
  · rw [gives]
    exact ended

/-- A whole call whose answer goes nowhere. -/
theorem Reached.silent {α : Type} {m : Prog Turn SubHeap α}
    (alone : pc.Alone thread (do let _ ← m; return 0)) (reached : Reach c ⟨w, []⟩)
    (enters : Enters ⟨w, []⟩ pc) (env : List Turn)
    (left : v = ⟨w.sub, w.objects - (given pc).1, w.runs - (given pc).2⟩) :
    Reach c ⟨{ v with sub := (m w.sub env).2.1 }, []⟩ := by
  have called : Reach c ⟨v.call m env fun _ w => w, []⟩ := by
    refine Reached.call alone reached enters env left fun a s => ?_
    show _ = World.mk s (0 + v.objects) (0 + v.runs)
    rw [Multiset.zero_add, Multiset.zero_add]
  subst left
  unfold World.call at called
  rcases outcome : m w.sub env with ⟨_ | a, s, env'⟩ <;> simp only [outcome] at called ⊢ <;>
    exact called

theorem call_silent {α : Type} (w : World) (m : Prog Turn SubHeap α) (env : List Turn) :
    w.call m env (fun _ => id) = { w with sub := (m w.sub env).2.1 } := by
  unfold World.call
  rcases outcome : m w.sub env with ⟨_ | a, s, env'⟩ <;> rfl

/-- What leads from one state to another while nothing is under way. -/
def Onward (c : Config) (s s' : SubHeap) : Prop :=
  ∀ objects runs, Reach c ⟨⟨s, objects, runs⟩, []⟩ → Reach c ⟨⟨s', objects, runs⟩, []⟩

instance : Std.Refl (Onward c) := ⟨fun _ _ _ reached => reached⟩

instance : IsTrans SubHeap (Onward c) :=
  ⟨fun _ _ _ first second objects runs reached => second objects runs (first objects runs reached)⟩

theorem reclaimCell_onward (mapped : c.Mapped) {shard : Nat} (inside : shard < c.shards) (cls cap : Nat) :
    Moves (Onward c) (reclaimCell shard cls cap) := by
  intro s env objects runs reached
  have inv : Inv .bare (c.geometry fun _ => True) ⟨⟨s, objects, runs⟩, []⟩ :=
    Reached.inv mapped reached nofun
  obtain ⟨-, ⟨lost, role, ledger, -⟩, -⟩ := inv
  have shards : s.numShards = c.shards := ledger.stock.grid.numShards
  have enters : Enters ⟨⟨s, objects, runs⟩, []⟩ (.sweep shard cls cap) := by
    rw [← shards] at inside
    exact inside
  exact Reached.silent (v := ⟨s, objects, runs⟩) (Pc.sweep_alone 0 shard cap) reached enters env (by simp [given])

theorem reclaimEmptySpans_onward (mapped : c.Mapped) (maxPerLock : Nat) :
    Moves (Onward c) (reclaimEmptySpans maxPerLock) := by
  intro s env objects runs reached
  have inv : Inv .bare (c.geometry fun _ => True) ⟨⟨s, objects, runs⟩, []⟩ :=
    Reached.inv mapped reached nofun
  obtain ⟨-, ⟨lost, role, ledger, -⟩, -⟩ := inv
  have shards : s.numShards = c.shards := ledger.stock.grid.numShards
  have swept : Moves (Onward c)
      (Prog.each (fun cell => reclaimCells (max maxPerLock 1) cell.1 cell.2) (allCells s.numShards)) := by
    apply Moves.each_mem
    intro cell member
    have inside := (mem_allCells.mp member).1
    rw [shards] at inside
    apply Moves.inspect
    intro _
    apply Moves.loop
    intro _
    exact (reclaimCell_onward mapped inside cell.2 _).bind fun _ => .ite (.ret _) (.ret _)
  exact (swept.bind fun _ => .ret _) s env objects runs reached

theorem Reached.object {cls : Nat} (reached : Reach c ⟨w, []⟩) (isClass : IsClass cls) (env : List Turn) :
    Reach c ⟨w.call (allocClass cls thread) env (World.gainObject cls), []⟩ := by
  refine Reached.call (Pc.pop_alone thread) reached isClass env (by simp [given]) fun r s => ?_
  cases r <;> simp [World.gainObject, handObjects, handed, ofClass]

theorem Reached.run {size : Nat} (reached : Reach c ⟨w, []⟩) (small : size < 2 ^ 47) (env : List Turn) :
    Reach c ⟨w.call (allocLarge size) env (World.gainRun size), []⟩ := by
  refine Reached.call (Pc.large_alone 0) reached small env (by simp [given]) fun r s => ?_
  simp [World.gainRun, handRun]

theorem Reached.free {p cls : Nat} (reached : Reach c ⟨w, []⟩) (held : (p, cls) ∈ w.objects)
    (env : List Turn) : Reach c ⟨{ w with
      sub := (deallocClass p cls thread w.sub env).2.1
      objects := w.objects.erase (p, cls) }, []⟩ := by
  refine Reached.silent (v := { w with objects := w.objects.erase (p, cls) })
    (Pc.free_alone thread) reached held env ?_
  simp [given]

/-- A whole call, while no carve for an object larger than a span was clipped: only
    then the table leads to the class of every object. -/
theorem Reached.after {op : Op} (mapped : c.Mapped) (reached : Reach c ⟨w, []⟩)
    (whole : w.sub.clipped = false) (legal : w.Legal op) (small : op.size < 2 ^ 47) (env : List Turn) :
    Reach c ⟨w.after thread env op, []⟩ := by
  have inv : Inv .tags (c.geometry fun _ => True) ⟨w, []⟩ := Reached.inv mapped reached nofun
  obtain ⟨-, ⟨lost, role, ledger, settled⟩, -⟩ := inv
  have same : w = ⟨w.sub, w.objects - 0, w.runs - 0⟩ := by
    rw [tsub_zero, tsub_zero]
  cases op with
  | allocClass cls => exact reached.object legal env
  | alloc size =>
      rw [World.after, SubHeap.alloc]
      cases found : classFor size with
      | some cls => exact reached.object (classFor_isClass found) env
      | none => exact reached.run small env
  | allocLarge size => exact reached.run small env
  | refillBatch cls room =>
      rw [World.after]
      refine Reached.call (Pc.refillBatch_alone thread room) reached legal env same fun objs s => ?_
      rw [handObjects, Multiset.zero_add]
  | deallocClass p cls =>
      rw [World.after, call_silent]
      exact reached.free legal env
  | deallocClassBatch ptrs cls =>
      rw [World.after, call_silent]
      refine Reached.silent (Pc.batch_alone thread ptrs) reached ⟨rfl, legal⟩ env ?_
      simp [given]
  | deallocObject p cls =>
      have slot := ledger.slots.outside cls p (.inr (Multiset.mem_add.mpr (.inr legal)))
      obtain ⟨home, found⟩ := ledger.lookup_class Trust.tags_tagged whole slot
      obtain ⟨k, sh, i, active, -⟩ := slot
      rw [World.after, call_silent, deallocByPtr_class (ledger.cells.isClass active) found,
        Prog.bind_pure_snd]
      exact reached.free legal env
  | deallocRun p size =>
      have held : (p, wrap32 (spanCount size)) ∈ recordsInHand [] + w.records :=
        Multiset.mem_add.mpr (.inr (Multiset.mem_map_of_mem _ legal))
      have found : w.sub.spans.lookup p = some (largeClass, 0) := by
        obtain ⟨h, place, -⟩ := ledger.larges.recorded _ held
        obtain ⟨rest, split⟩ := Multiset.exists_cons_of_mem held
        simp only at place
        subst place
        rw [split] at ledger
        exact (ledger.lookup_run settled).resolve_left fun lost => lost.1 Trust.tags_tagged
      rw [World.after, call_silent, deallocByPtr_large found, Prog.bind_pure_snd]
      refine Reached.silent (Pc.freeLarge_alone thread) reached legal env ?_
      simp [given]
  | deallocForeign p =>
      have nowhere : w.sub.spans.lookup p = none := by
        rw [SpanTable.lookup, show w.sub.spans.indexOf p = none from legal, Option.bind_none]
      rw [World.after, call_silent, deallocByPtr_none nowhere]
      exact reached
  | reclaimEmptySpans maxPerLock =>
      rw [World.after, call_silent]
      exact reclaimEmptySpans_onward mapped maxPerLock w.sub env w.objects w.runs reached
  | rebalanceCapacity cpu cls count =>
      rw [World.after, call_silent]
      exact Reached.silent (Pc.rebalance_alone thread count) reached legal env same

/-- Every history of whole calls is a run of the machine in which no operation starts
    before the one before it is done. -/
theorem whole_calls {admitted : Nat → Op → Prop} (mapped : c.Mapped)
    (small : ∀ thread op, admitted thread op → op.size < 2 ^ 47)
    (reached : World.ReachedWhole c admitted w) : Reach c ⟨w, []⟩ := by
  refine (reached.invariant (I := fun w => Reach c ⟨w, []⟩ ∧ w.sub.clipped = false) ?_ ?_).1
  · rintro _ rfl
    exact ⟨.start rfl, rfl⟩
  · rintro w _ ⟨reached, unclipped⟩ ⟨⟨thread, env, op, legal, allowed⟩, still⟩
    exact ⟨reached.after mapped unclipped legal (small thread op allowed) env, still⟩

theorem whole_calls_outstanding :
    World.outstanding.runs = {(World.fiveSpans.arenaBase + 4 * 65536, 65536)} ∧
      Reach World.fiveSpans ⟨World.outstanding, []⟩ :=
  ⟨by decide +kernel, whole_calls World.fiveSpans_mapped (fun _ _ small => small)
    (World.outstanding_reached (fun _ op => op.size < 2 ^ 47) (by decide) (by decide))⟩

end Machine

end SubHeap

end Toccata
