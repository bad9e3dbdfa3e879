import Toccata.SubHeap.Lists
import Toccata.SubHeap.Steps

/-! # Late hints

A reuse hint is stored without a lock, long after its span was looked at. By then the span
may be retired, tagged for another class, or in another cell of the same class. A refill
checks the class of the span its hint names, and no more. So it scans spans of its own
cell only, as long as no hint names a span of its class that another cell owns.
-/

namespace Toccata

open Foundations SizeClass

namespace BumpArena

variable {a a' : BumpArena}

/-- The same arena, its cursor where it was or further on. -/
structure Further (a a' : BumpArena) : Prop where
  base : a'.base = a.base
  limit : a'.limit = a.limit
  cursor : a.cursor ≤ a'.cursor

theorem Further.same : a.Further a := ⟨rfl, rfl, le_rfl⟩

theorem Further.trans {a'' : BumpArena} (h : a.Further a') (h' : a'.Further a'') : a.Further a'' :=
  ⟨h'.base.trans h.base, h'.limit.trans h.limit, h.cursor.trans h'.cursor⟩

theorem carveSpans_further {numSpans cls home : Nat} {spans spans' : SpanTable} {range : Nat × Nat}
    (carved : a.carveSpans numSpans cls home spans = (range, a', spans')) : a.Further a' := by
  obtain ⟨rfl, -⟩ | ⟨_, _, -, rfl, -⟩ := carveSpans_cases carved
  · exact .same
  · exact ⟨rfl, rfl, Nat.le_add_right ..⟩

theorem carveRun_further {start bytes : Nat} (carved : a.carveRun bytes = some (start, a')) :
    a.Further a' := by
  unfold carveRun at carved
  simp only at carved
  split at carved
  · cases carved
  · cases carved
    refine ⟨rfl, rfl, ?_⟩
    have up := Nat.div_add_mod (a.cursor - a.base + (spanBytes - 1)) spanBytes
    have low := Nat.mod_lt (a.cursor - a.base + (spanBytes - 1)) (by decide : 0 < spanBytes)
    rw [Nat.mul_comm] at up
    simp only
    omega

end BumpArena

namespace SubHeap

variable {trust : Trust} {g : Geometry} {s s' : SubHeap} {role : Nat → Role} {H L : Multiset (Nat × Nat)}
  {W : List (Nat × Nat)}

/-! ## Apart from refills and hints -/

/-- No hint is stored but to withdraw one, and the cursor goes on if anywhere. -/
structure Steady (s s' : SubHeap) : Prop where
  arena : s.arena.Further s'.arena
  numShards : s'.numShards = s.numShards
  hints : ∀ sh cls, s'.reuseHint sh cls = s.reuseHint sh cls ∨ s'.reuseHint sh cls = noSpan

instance : Std.Refl Steady := ⟨fun _ => ⟨.same, rfl, fun _ _ => .inl rfl⟩⟩

instance : IsTrans SubHeap Steady where
  trans s s' s'' h h' := by
    refine ⟨h.arena.trans h'.arena, h'.numShards.trans h.numShards, fun sh cls => ?_⟩
    rcases h'.hints sh cls with same | withdrawn
    · rw [same]
      exact h.hints sh cls
    · exact .inr withdrawn

/-- And nothing is scanned. -/
structure Calm (s s' : SubHeap) : Prop extends Steady s s' where
  scans : s'.scans = s.scans

instance : Std.Refl Calm := ⟨fun s => ⟨Std.Refl.refl s, rfl⟩⟩

instance : IsTrans SubHeap Calm :=
  ⟨fun _ _ _ h h' => ⟨IsTrans.trans _ _ _ h.toSteady h'.toSteady, h'.scans.trans h.scans⟩⟩

theorem Calm.kept (arena : s.arena.Further s'.arena) (numShards : s'.numShards = s.numShards)
    (hints : s'.reuseHint = s.reuseHint) (scans : s'.scans = s.scans) : Calm s s' :=
  ⟨⟨arena, numShards, fun _ _ => .inl (by rw [hints])⟩, scans⟩

/-- Nothing is carved, either. -/
structure Uncarved (s s' : SubHeap) : Prop extends Calm s s' where
  same : s'.arena = s.arena
  clipped : s'.clipped = s.clipped

instance : Std.Refl Uncarved := ⟨fun s => ⟨Std.Refl.refl s, rfl, rfl⟩⟩

instance : IsTrans SubHeap Uncarved :=
  ⟨fun _ _ _ h h' => ⟨IsTrans.trans _ _ _ h.toCalm h'.toCalm, h'.same.trans h.same,
    h'.clipped.trans h.clipped⟩⟩

theorem Uncarved.kept (arena : s'.arena = s.arena) (numShards : s'.numShards = s.numShards)
    (scans : s'.scans = s.scans) (hints : s'.reuseHint = s.reuseHint) (clipped : s'.clipped = s.clipped) :
    Uncarved s s' :=
  ⟨.kept (arena ▸ .same) numShards hints scans, arena, clipped⟩

theorem moves_calm {α : Type} {m : Prog Turn SubHeap α} (same : Moves Uncarved m) : Moves Calm m :=
  fun s env => (same s env).toCalm

theorem panicLocked_uncarved {α : Type} : Moves Uncarved (panicLocked : Prog Turn SubHeap α) :=
  Moves.bind (.modify fun _ => .kept rfl rfl rfl rfl rfl) fun _ => .fail

theorem slabPop_uncarved (cls : Nat) : Moves Uncarved (slabPop cls) :=
  .bind .ask fun _ => .apply fun _ => .kept rfl rfl rfl rfl rfl

theorem slabPush_uncarved (cls p : Nat) : Moves Uncarved (slabPush cls p) :=
  .bind .ask fun _ => .apply fun _ => .kept rfl rfl rfl rfl rfl

theorem centralDeposit_uncarved (p osz : Nat) : Moves Uncarved (centralDeposit p osz) :=
  .modify fun _ => .kept rfl rfl rfl rfl rfl

theorem flushPending_uncarved (pending : Pending) : Moves Uncarved (flushPending pending) :=
  .ite (.ret _) (.modify fun _ => .kept rfl rfl rfl rfl rfl)

theorem retire_uncarved (s : SubHeap) (shard cls prev span : Nat) :
    Uncarved s (s.retire shard cls prev span) := by
  rw [retire_eq]
  refine ⟨⟨⟨.same, rfl, fun sh c => ?_⟩, rfl⟩, rfl, rfl⟩
  dsimp only
  split
  · rw [setHint_reuseHint]
    split
    · exact .inr rfl
    · exact .inl rfl
  · exact .inl rfl

theorem reclaimWalk_uncarved {shard cls steps cap prev span : Nat} {gone : List Nat}
    (walked : reclaimWalk shard cls steps cap prev span s = (gone, s')) : Uncarved s s' := by
  have same : Uncarved s (reclaimWalk shard cls steps cap prev span s).2 := by
    clear walked
    induction steps generalizing cap prev span s with
    | zero => exact Std.Refl.refl s
    | succ steps ih =>
        have looked : ∀ b, Uncarved s { s with bitmaps := b } := fun _ => .kept rfl rfl rfl rfl rfl
        rw [reclaimWalk]
        split
        · exact Std.Refl.refl s
        · simp only
          split
          · exact IsTrans.trans _ _ _ (looked _) (IsTrans.trans _ _ _ (retire_uncarved _ shard cls prev span) ih)
          · exact IsTrans.trans _ _ _ (looked _) ih
  rwa [walked] at same

theorem reclaimLocked_uncarved (shard cls cap : Nat) : Moves Uncarved (reclaimLocked shard cls cap) :=
  .apply_eq fun _ _ _ => reclaimWalk_uncarved

theorem fileRuns_uncarved (group : Nat) (spans : List Nat) : Moves Uncarved (fileRuns group spans) := by
  have file : ∀ span, Moves Uncarved (fileRun group span) := by
    intro span
    refine .inspect fun s => ?_
    generalize s.large.pool.free (wrap32 (s.large.spanIndex (s.bitmaps.spanBase span))) group = filed
    cases filed with
    | none => exact panicLocked_uncarved
    | some pool => exact .modify fun _ => .kept rfl rfl rfl rfl rfl
  exact .inspect fun _ => .ite .fail (.bind (.each file _) fun _ => .ret _)

theorem record_uncarved (size ptr : Nat) : Moves Uncarved (allocLarge.record size ptr) := by
  unfold allocLarge.record
  refine .inspect fun s => ?_
  generalize s.large.runSpans.set? (s.large.spanIndex ptr) (wrap32 (spanCount size)) = recorded
  cases recorded with
  | none => exact panicLocked_uncarved
  | some runSpans =>
      refine Moves.bind (.modify fun _ => .kept rfl rfl rfl rfl rfl) fun _ => .ite panicLocked_uncarved ?_
      exact Moves.bind (.modify fun _ => .kept rfl rfl rfl rfl rfl) fun _ => .ret _

/-- The steps that are neither a refill nor the store of a hint. -/
def Pc.calm : Pc → Prop
  | .refill _ | .refillBatch _ _ | .hint _ _ _ => False
  | _ => True

theorem Pc.run_calm (company : Company) (thread : Nat) {pc : Pc} (calm : pc.calm) :
    Moves Calm (pc.run company thread) := by
  have pops := fun cls => moves_calm (slabPop_uncarved cls)
  have pushes := fun cls p => moves_calm (slabPush_uncarved cls p)
  have deposits := fun p osz => moves_calm (centralDeposit_uncarved p osz)
  cases pc with
  | refill | refillBatch | hint => exact calm.elim
  | done => exact .ret _
  | hand cls p => exact .ret _
  | pop cls =>
      refine (pops cls).bind fun r => ?_
      cases r with
      | ok p => exact .ret _
      | needsSlow => exact .ret _
  | push cls p next | pushLocal cls p next =>
      refine (pushes cls p).bind fun r => ?_
      cases r with
      | ok => exact .ret _
      | needsSlow => exact .ret _
  | deposit cls p next => exact (deposits p _).bind fun _ => .ret _
  | free cls p => exact .inspect fun _ => .ite (.ret _) (.ret _)
  | drain cls n next =>
      cases n with
      | zero => exact .ret _
      | succ n =>
          refine (pops cls).bind fun r => ?_
          cases r with
          | ok q => exact .ret _
          | needsSlow => exact .ret _
  | batch cls ptrs pending =>
      cases ptrs with
      | nil => exact .ret _
      | cons p rest =>
          refine .inspect fun s => .ite (.ret _) ?_
          rcases s.bitmaps.locate p (sizeOfClass cls) with ⟨span, word, bit⟩
          exact .ite (.ret _) (.ret _)
  | flush cls pending next => exact (moves_calm (flushPending_uncarved pending)).bind fun _ => .ret _
  | home cls span => exact .inspect fun _ => .ret _
  | sweep shard cls cap =>
      exact (tryLock_moves company).bind fun _ => .ite (.ret _)
        ((moves_calm (reclaimLocked_uncarved shard cls cap)).bind fun _ => .ret _)
  | file cls spans => exact (moves_calm (fileRuns_uncarved _ spans)).bind fun _ => .ret _
  | rebalance cpu cls count => exact .inspect fun _ => .ret _
  | evict cpu cls n =>
      cases n with
      | zero => exact .ret _
      | succ n =>
          refine .inspect fun s => ?_
          generalize (s.slab.stack cpu cls).slots = slots
          cases slots with
          | nil => exact .ret _
          | cons obj rest =>
              exact Moves.bind (.modify fun _ => .kept .same rfl rfl rfl) fun _ => .ret _
  | large size =>
      refine .inspect fun s => .ite .fail ?_
      generalize s.large.pool.alloc (wrap32 (spanCount size)) = answer
      rcases answer with _ | ⟨_ | headIdx, pool⟩
      · exact moves_calm panicLocked_uncarved
      · exact .ret _
      · exact Moves.bind (.modify fun _ => .kept .same rfl rfl rfl) fun _ =>
          (moves_calm (record_uncarved _ _)).bind fun _ => .ret _
  | carveRun size =>
      intro s env
      rw [Pc.run, Prog.read_bind]
      cases carved : s.arena.carveRun (runBytes size) with
      | none => exact Std.Refl.refl s
      | some claim =>
          obtain ⟨start, arena⟩ := claim
          exact .kept (BumpArena.carveRun_further carved) rfl rfl rfl
  | record size start =>
      exact .inspect fun _ => .ite .fail ((moves_calm (record_uncarved _ _)).bind fun _ => .ret _)
  | freeLarge p size =>
      refine .inspect fun s => ?_
      generalize s.large.runSpans.get? (s.large.spanIndex p) = count
      cases count with
      | none => exact .fail
      | some count =>
          exact Moves.bind (.modify fun _ => .kept .same rfl rfl rfl) fun _ => .ret _
  | fileLarge idx count =>
      refine .inspect fun s => .ite .fail ?_
      generalize s.large.pool.free idx count = filed
      cases filed with
      | none => exact moves_calm panicLocked_uncarved
      | some pool =>
          exact Moves.bind (.modify fun _ => .kept .same rfl rfl rfl) fun _ => .ret _

/-! ## Refills -/

/-- A carve for a class and a home: it sets no tag but theirs. -/
structure Carves (cls home : Nat) (s s' : SubHeap) : Prop where
  arena : s.arena.Further s'.arena
  numShards : s'.numShards = s.numShards
  scans : s'.scans = s.scans
  reuseHint : s'.reuseHint = s.reuseHint
  entries : ∀ k, s'.spans.entry k = s.spans.entry k ∨ s'.spans.entry k = SpanTable.pack cls home

section Carves

variable {cls home : Nat}

instance : Std.Refl (Carves cls home) := ⟨fun _ => ⟨.same, rfl, rfl, rfl, fun _ => .inl rfl⟩⟩

instance : IsTrans SubHeap (Carves cls home) where
  trans s s' s'' h h' := by
    refine ⟨h.arena.trans h'.arena, h'.numShards.trans h.numShards, h'.scans.trans h.scans,
      h'.reuseHint.trans h.reuseHint, fun k => ?_⟩
    rcases h'.entries k with same | tagged
    · rw [same]
      exact h.entries k
    · exact .inr tagged

theorem carves_pooled (s : SubHeap) (pool : SpanPool) (start bytes : Nat) :
    Carves cls home s { s with
      large := { s.large with pool }, spans := s.spans.assignRange start bytes cls home } :=
  ⟨.same, rfl, rfl, rfl, (assignRange_frame ..).2.2⟩

theorem carveOrReuseSpans_carves (company : Company) (numSpans : Nat) :
    Moves (Carves cls home) (carveOrReuseSpans company numSpans cls home) := by
  refine Moves.bind ((tryLock_moves company).bind fun _ => .inspect fun s => .ite (.ret _) ?_) fun range => ?_
  · split
    · exact Moves.bind (.modify fun _ => ⟨.same, rfl, rfl, rfl, fun _ => .inl rfl⟩) fun _ => .fail
    · exact .ret _
    · exact Moves.bind (.modify fun s => carves_pooled s ..) fun _ => .ret _
  · cases range with
    | some range => exact .ret _
    | none =>
        refine .apply fun s => ?_
        rcases carved : s.arena.carveSpans numSpans cls home s.spans with ⟨range, arena, spans⟩
        refine ⟨BumpArena.carveSpans_further carved, rfl, rfl, rfl, fun k => ?_⟩
        obtain ⟨-, rfl⟩ | ⟨_, _, -, -, rfl⟩ := BumpArena.carveSpans_cases carved
        · exact .inl rfl
        · exact (assignRange_frame ..).2.2 k

theorem adopt_carves (s : SubHeap) (shard slots span : Nat) :
    Carves cls home s (s.adopt shard cls slots span) := by
  unfold adopt
  dsimp only
  split <;> exact ⟨.same, rfl, rfl, rfl, fun _ => .inl rfl⟩

theorem adoptRun_carves (shard perSpan count addr : Nat) (s : SubHeap) :
    Carves cls home s (adoptRun shard cls perSpan count addr s) := by
  induction count generalizing addr s with
  | zero => exact Std.Refl.refl s
  | succ count ih => exact IsTrans.trans _ _ _ (adopt_carves s shard perSpan _) (ih ..)

theorem centralCarve_carves (company : Company) (myShard batch : Nat) :
    Moves (Carves cls (wrap16 myShard)) (centralCarve company cls myShard batch) := by
  refine .inspect fun s => .ite ?_ ?_
  · refine (carveOrReuseSpans_carves company _).bind fun range => .ite (.ret _) ?_
    refine Moves.bind (.modify fun s => ?_) fun _ => .ret _
    exact IsTrans.trans _ _ _ (adopt_carves ..) ⟨.same, rfl, rfl, rfl, fun _ => .inl rfl⟩
  · refine (carveOrReuseSpans_carves company _).bind fun range => .ite (.ret _) ?_
    exact Moves.bind (.modify fun s => adoptRun_carves ..) fun _ => .ret _

theorem Carves.calm (h : Carves cls home s s') : Calm s s' :=
  .kept h.arena h.numShards h.reuseHint h.scans

end Carves

theorem centralTake_steady (shard cls room : Nat) : Moves Steady (centralTake shard cls room) := by
  refine .apply fun s => ?_
  obtain ⟨b, scans, frame⟩ := s.taken_frame shard cls room
  rw [frame]
  exact ⟨.same, rfl, fun _ _ => .inl rfl⟩

theorem centralCarve_steady (company : Company) (cls myShard batch : Nat) :
    Moves Steady (centralCarve company cls myShard batch) :=
  fun s env => (centralCarve_carves company myShard batch s env).calm.toSteady

theorem takeOrCarve_steady (company : Company) (cls myShard : Nat) :
    Moves Steady (takeOrCarve company cls myShard) :=
  .inspect fun _ => (centralTake_steady _ _ _).bind fun _ => .ite
    ((centralCarve_steady _ _ _ _).bind fun _ => .ite (.ret _) (centralTake_steady _ _ _)) (.ret _)

theorem refillBatch_steady (company : Company) (cls thread room : Nat) :
    Moves Steady (refillBatch company cls thread room) :=
  .inspect fun _ => (centralTake_steady _ _ _).bind fun _ =>
    .loop (fun _ => .ite (.ret _) ((centralCarve_steady _ _ _ _).bind fun _ => .ite (.ret _)
      ((centralTake_steady _ _ _).bind fun _ => .ite (.ret _) (.ret _)))) _ _

/-- Only the last step of a batch stores a hint. -/
def Pc.stores : Pc → Prop
  | .hint _ _ _ => True
  | _ => False

theorem Pc.run_steady (company : Company) (thread : Nat) {pc : Pc} (silent : ¬ pc.stores) :
    Moves Steady (pc.run company thread) := by
  cases pc with
  | hint => exact (silent trivial).elim
  | refill cls =>
      refine (takeOrCarve_steady company cls thread).bind fun objs => ?_
      cases objs with
      | nil => exact .ret _
      | cons => exact .ret _
  | refillBatch cls room => exact (refillBatch_steady company cls thread room).bind fun _ => .ret _
  | _ => exact fun s env => (Pc.run_calm company thread (by exact trivial) s env).toSteady

/-! ## Whose span a hint names -/

/-- Whether a refill of the cell would follow a hint that names the span, while the span
    belongs to another cell. -/
def misleads (s : SubHeap) (shard cls span : Nat) : Bool :=
  slotsPerSpan (sizeOfClass cls) ≤ 64 && span ≠ noSpan &&
    (SpanTable.unpack (s.spans.entry span)).any fun entry =>
      entry.1 = cls && entry.2 % s.numShards ≠ shard

/-- No hint leads to a span of another cell. -/
def Straight (s : SubHeap) : Prop :=
  ∀ shard < s.numShards, ∀ cls < numClasses, s.misleads shard cls (s.reuseHint shard cls) = false

/-- Every span scanned so far belonged to the cell at that moment. -/
def Scanned (s : SubHeap) : Prop := ∀ scan ∈ s.scans, s.Tagged .homes scan.entry scan.cls scan.shard

theorem misleads_none (s : SubHeap) (shard cls : Nat) : s.misleads shard cls noSpan = false := by
  simp [misleads]

/-- Hints stay straight when no tag turns one astray. -/
theorem Straight.steady (straight : s.Straight) (steady : Steady s s')
    (tag : ∀ shard < s.numShards, ∀ cls < numClasses,
      s'.misleads shard cls (s.reuseHint shard cls) = true →
        s.misleads shard cls (s.reuseHint shard cls) = true) : s'.Straight := by
  intro shard inside cls isClass
  rw [steady.numShards] at inside
  rcases steady.hints shard cls with same | withdrawn
  · rw [same, ← Bool.not_eq_true]
    intro astray
    have := tag shard inside cls isClass astray
    rw [straight shard inside cls isClass] at this
    cases this
  · rw [withdrawn]
    exact misleads_none ..

/-- A hint stored that does not mislead. -/
theorem Straight.stored {shard cls span : Nat} (straight : s.Straight)
    (apt : s.misleads shard cls span = false) : (s.setHint shard cls span).Straight := by
  intro sh inside c isClass
  have same : (s.setHint shard cls span).misleads sh c = s.misleads sh c := rfl
  rw [same, setHint_reuseHint]
  split
  · rename_i here
    obtain ⟨rfl, rfl⟩ := here
    exact apt
  · exact straight sh inside c isClass

/-- A carve does not turn the cell's own hint astray. -/
theorem Carves.own {cls home shard k : Nat} (carved : Carves cls home s s') (pos : 0 < cls)
    (small : home < 65536) (back : home % s.numShards = shard)
    (own : s.misleads shard cls k = false) : s'.misleads shard cls k = false := by
  rcases carved.entries k with same | tagged
  · rw [misleads, same, carved.numShards]
    exact own
  · rw [misleads, tagged, unpack_pack pos small, carved.numShards, Option.any_some]
    simp [back]

/-! ## What a refill scans -/

theorem takeFrom_visits (hint nwords osz steps room : Nat) {b b' : SpanBitmaps} {span : Nat}
    {nodes objs seen : List Nat} (walk : Chain b.nextActive span nodes noSpan)
    (out : takeFrom hint nwords osz steps span room b = (objs, seen, b')) : ∀ k ∈ seen, k ∈ nodes := by
  induction steps generalizing b span nodes room objs seen with
  | zero =>
      cases out
      exact nofun
  | succ steps ih =>
      rw [takeFrom_succ] at out
      split at out
      · cases out
        exact nofun
      · rename_i going
        cases nodes with
        | nil => exact (going (.inr walk)).elim
        | cons node rest =>
            obtain ⟨rfl, tail⟩ := walk
            split at out
            · exact fun k member => List.mem_cons_of_mem _ (ih room tail out k member)
            · have links := (scanWords_bounded span osz nwords 0 room b).2
              rw [← scanSpan] at links
              generalize scanSpan span room nwords osz b = scan at links out
              rcases walked : takeFrom hint nwords osz steps (scan.2.next span)
                (room - scan.1.length) scan.2 with ⟨later, visited, b₂⟩
              have tail' : Chain scan.2.nextActive (scan.2.next span) rest noSpan := by
                rw [SpanBitmaps.next, links.nextActive]
                exact tail
              simp only [walked, Prod.mk.injEq] at out
              obtain ⟨-, rfl, rfl⟩ := out
              intro k member
              rcases List.mem_cons.mp member with rfl | later
              · exact List.mem_cons_self
              · exact List.mem_cons_of_mem _ (ih _ tail' walked k later)

theorem unpack_eq {e c home : Nat} (unpacked : SpanTable.unpack e = some (c, home)) :
    e = SpanTable.pack c home ∧ home < 65536 := by
  unfold SpanTable.unpack at unpacked
  split at unpacked
  · cases unpacked
  · cases unpacked
    unfold SpanTable.pack
    omega

theorem Scanned.noted (scanned : s.Scanned) {shard cls : Nat} (b : SpanBitmaps) {seen : List Nat}
    (own : ∀ k ∈ seen, s.Tagged .homes (s.spans.entry k) cls shard) :
    Scanned { s with bitmaps := b, scans := s.note shard cls seen ++ s.scans } := by
  intro scan member
  rcases List.mem_append.mp member with new | old
  · obtain ⟨k, visited, rfl⟩ := List.mem_map.mp new
    exact own k visited
  · exact scanned scan old

/-- A take scans spans of its own cell only, if the hint does not mislead it. -/
theorem Ledger.taken_scanned {shard cls : Nat} (ledger : s.Ledger .homes g role H L W)
    (inside : shard < s.numShards) (own : s.misleads shard cls (s.reuseHint shard cls) = false)
    (scanned : s.Scanned) (room : Nat) : (s.taken shard cls room).2.Scanned := by
  obtain ⟨nodes, walk, -, members⟩ := ledger.cells.lists shard cls inside
  have listed : ∀ k ∈ nodes, s.Tagged .homes (s.spans.entry k) cls shard := fun k member =>
    ledger.cells.entries (Trust.homed.tagged rfl) k cls shard ((members k).mp member)
  cases valid : s.validHint shard cls with
  | true =>
      have links := (scanWords_bounded (s.reuseHint shard cls) (sizeOfClass cls) (bitmapWords cls) 0 room
        s.bitmaps).2
      rcases scan : scanSpan (s.reuseHint shard cls) room (bitmapWords cls) (sizeOfClass cls)
        s.bitmaps with ⟨first, b₁⟩
      rw [← scanSpan, scan] at links
      rcases walked : takeFrom (s.reuseHint shard cls) (bitmapWords cls) (sizeOfClass cls)
        (s.spans.numSpans + 1) (s.head shard cls) (room - first.length) b₁ with ⟨rest, seen, b₂⟩
      rw [taken_hint valid scan walked]
      refine scanned.noted b₂ (List.forall_mem_cons.mpr ⟨?_, fun k member => ?_⟩)
      · simp only [validHint, Bool.and_eq_true, Option.any_eq_true, decide_eq_true_eq] at valid
        obtain ⟨⟨few, given⟩, ⟨c, home⟩, found, same⟩ := valid
        simp only at same
        subst same
        obtain ⟨-, unpacked⟩ := ledger.stock.grid.lookup_spanBase found
        obtain ⟨packed, small⟩ := unpack_eq unpacked
        refine ⟨home, packed, small, fun _ => ?_⟩
        rw [misleads, unpacked] at own
        simpa [few, given] using own
      · have walk' : Chain b₁.nextActive (s.head shard cls) nodes noSpan := by
          rw [links.nextActive]
          exact walk
        exact listed k (takeFrom_visits _ _ _ _ _ walk' walked k member)
  | false =>
      rcases walked : takeFrom noSpan (bitmapWords cls) (sizeOfClass cls) (s.spans.numSpans + 1)
        (s.head shard cls) room s.bitmaps with ⟨objs, seen, b⟩
      rw [taken_list valid walked]
      exact scanned.noted b fun k member => listed k (takeFrom_visits _ _ _ _ _ walk walked k member)

/-- A refill of a cell under way: its hint does not mislead it, and all scans were of
    spans of their cells. -/
structure Guided (g : Geometry) (H L : Multiset (Nat × Nat)) (W : List (Nat × Nat)) (shard cls : Nat)
    (s : SubHeap) : Prop where
  owned : Owned .homes g H L W s
  own : s.misleads shard cls (s.reuseHint shard cls) = false
  scanned : s.Scanned

section Guided

variable {shard cls myShard : Nat} {company : Company} {E : SubHeap → Prop}

theorem centralTake_guided (isClass : IsClass cls) (inside : shard < g.shards) (out : List Nat) (room : Nat) :
    Triple (Guided g (ofClass cls out + H) L W shard cls) (centralTake shard cls room)
      (fun objs => Guided g (ofClass cls (out ++ objs) + H) L W shard cls) E := by
  refine Triple.apply fun s ⟨owned, own, scanned⟩ => ?_
  have taken : Owned .homes g (ofClass cls (out ++ (s.taken shard cls room).1) + H) L W
      (s.taken shard cls room).2 := centralTake_more (E := E) isClass inside out room s [] owned
  obtain ⟨role, ledger, -⟩ := owned
  refine ⟨taken, ?_, ledger.taken_scanned (by rwa [ledger.stock.grid.numShards]) own scanned room⟩
  obtain ⟨b, scans, frame⟩ := s.taken_frame shard cls room
  rw [frame]
  exact own

/-- The home a carve sets leads back to the cell. -/
theorem centralCarve_guided (isClass : IsClass cls) (allowed : Allowed .homes g myShard) :
    Triple (Guided g H L W (myShard % g.shards) cls) (centralCarve company cls myShard (batchFor cls))
      (fun _ => Guided g H L W (myShard % g.shards) cls) E := by
  refine Triple.pin fun s ⟨owned, own, scanned⟩ => ?_
  refine ((centralCarve_carves company myShard _).along s (centralCarve_owned isClass allowed) owned).weaken ?_
  rintro _ s' ⟨owned', carved⟩
  refine ⟨owned', ?_, ?_⟩
  · rw [carved.reuseHint]
    refine carved.own isClass.pos (Nat.mod_lt _ (by decide)) ?_ own
    rw [owned.numShards]
    exact allowed.back rfl
  · intro scan member
    rw [carved.scans] at member
    obtain ⟨home, packed, small, back⟩ := scanned scan member
    refine ⟨home, packed, small, ?_⟩
    rwa [carved.numShards]

end Guided

theorem Scanned.calm (scanned : s.Scanned) (calm : Calm s s') : s'.Scanned := by
  intro scan member
  rw [calm.scans] at member
  obtain ⟨home, packed, small, back⟩ := scanned scan member
  refine ⟨home, packed, small, ?_⟩
  rwa [calm.numShards]

/-- Whatever the step, it scans spans of its own cell only. -/
theorem Pc.run_scanned (company : Company) {thread : Nat} {pc : Pc} (fine : pc.Fine g)
    (uses : ∀ k, g.uses k) (narrow : thread < 65536)
    (owned : Owned .homes g (pc.objects g + H) (pc.records + L) (pc.runs g ++ W) s)
    (straight : s.Straight) (scanned : s.Scanned) (env : List Turn) :
    (pc.run company thread s env).2.1.Scanned := by
  have allowed : ∀ shard, shard ≤ thread → Allowed .homes g shard := fun shard le =>
    ⟨uses _, fun _ => by rw [wrap16_small (le.trans_lt narrow)]⟩
  have shards := owned.shards
  have start : ∀ shard cls, shard < g.shards → IsClass cls → Owned .homes g (0 + H) (0 + L) W s →
      Guided g (ofClass cls [] + H) (0 + L) W shard cls s := by
    intro shard cls inside isClass owned
    refine ⟨owned, straight shard ?_ cls isClass.lt, scanned⟩
    rwa [owned.numShards]
  cases pc with
  | refill cls =>
      have inside : thread % g.shards < g.shards := Nat.mod_lt _ shards
      refine Triple.ends (Triple.bind (takeOrCarve_rule
        (I := fun out => Guided g (ofClass cls out + H) (0 + L) W (thread % g.shards) cls)
        (fun _ guided => guided.owned.numShards) (centralTake_guided fine inside)
        fun _ => centralCarve_guided fine (allowed thread le_rfl)) fun objs => ?_) env
        (start _ cls inside fine owned)
      cases objs with
      | nil => exact Triple.ret _ fun _ guided => guided.scanned
      | cons => exact Triple.ret _ fun _ guided => guided.scanned
  | refillBatch cls room =>
      have inside : thread % g.shards % g.shards < g.shards := Nat.mod_lt _ shards
      refine Triple.ends (Triple.bind (refillBatch_rule
        (I := fun out => Guided g (ofClass cls out + H) (0 + L) W (thread % g.shards % g.shards) cls) room
        (fun _ guided => guided.owned.numShards) (centralTake_guided fine inside)
        fun _ => centralCarve_guided fine (allowed _ (Nat.mod_le ..))) fun objs => ?_) env
        (start _ cls inside fine owned)
      exact Triple.ret _ fun _ guided => guided.scanned
  | hint => exact scanned
  | _ => exact scanned.calm (Pc.run_calm company thread (by exact trivial) s env)

end SubHeap

end Toccata
