import Toccata.SubHeap.Custody

/-! # Active lists outside a sweep

Only a sweep takes spans off the active lists. Everything else leaves the lists alone,
or carves and puts new spans in front of what is there. What a cell hands out is never
more than was asked for.
-/

namespace Toccata

open Foundations SizeClass

namespace SubHeap

variable {s s' : SubHeap}

/-- The lists are the same ones. -/
structure SameLists (s s' : SubHeap) : Prop where
  head : s'.head = s.head
  links : SpanBitmaps.SameLinks s.bitmaps s'.bitmaps
  numShards : s'.numShards = s.numShards

instance : Std.Refl SameLists := ⟨fun _ => ⟨rfl, SpanBitmaps.SameLinks.refl _, rfl⟩⟩

instance : IsTrans SubHeap SameLists :=
  ⟨fun _ _ _ h h' => ⟨h'.head.trans h.head, h.links.trans h'.links, h'.numShards.trans h.numShards⟩⟩

/-- Spans were only added in front. -/
structure Grown (s s' : SubHeap) : Prop where
  numShards : s'.numShards = s.numShards
  lists : ∀ sh c nodes, Chain s.bitmaps.nextActive (s.head sh c) nodes noSpan →
    (∀ k ∈ nodes, s.bitmaps.onList k = true) →
    ∃ added, Chain s'.bitmaps.nextActive (s'.head sh c) (added ++ nodes) noSpan ∧
      ∀ k ∈ added ++ nodes, s'.bitmaps.onList k = true

instance : Std.Refl Grown := ⟨fun _ => ⟨rfl, fun _ _ _ chain on => ⟨[], chain, on⟩⟩⟩

instance : IsTrans SubHeap Grown where
  trans s s' s'' h h' := by
    refine ⟨h'.numShards.trans h.numShards, fun sh c nodes chain on => ?_⟩
    obtain ⟨added, chain', on'⟩ := h.lists sh c nodes chain on
    obtain ⟨more, chain'', on''⟩ := h'.lists sh c _ chain' on'
    refine ⟨more ++ added, ?_⟩
    rw [List.append_assoc]
    exact ⟨chain'', on''⟩

theorem SameLists.grown (same : SameLists s s') : Grown s s' := by
  refine ⟨same.numShards, fun sh c nodes chain on => ⟨[], ?_, ?_⟩⟩
  · rw [same.links.nextActive, same.head]
    exact chain
  · rw [same.links.onList]
    exact on

/-! ## Taking -/

theorem scanWords_bounded (k osz left w room : Nat) (b : SpanBitmaps) :
    (scanWords k osz left w room b).1.length ≤ room ∧
      SpanBitmaps.SameLinks b (scanWords k osz left w room b).2 := by
  induction left generalizing w room b with
  | zero => exact ⟨Nat.zero_le _, .refl b⟩
  | succ left ih =>
      have folded := (b.foldFreeWord_spec k w).1
      rw [scanWords_succ]
      by_cases full : room = 0
      · rw [if_pos full]
        exact ⟨Nat.zero_le _, .refl b⟩
      · rw [if_neg full]
        generalize b.foldFreeWord k w = fold at folded ⊢
        by_cases empty : fold.1 = 0#64
        · rw [if_pos empty]
          obtain ⟨short, links⟩ := ih (w + 1) room fold.2
          exact ⟨short, folded.trans links⟩
        · rw [if_neg empty]
          have few := Word.lowest_length room fold.1
          obtain ⟨short, links⟩ := ih (w + 1) (room - (Word.lowest room fold.1).length)
            (fold.2.allocClear k w (Word.maskOf (Word.lowest room fold.1)))
          have cleared : SpanBitmaps.SameLinks fold.2
              (fold.2.allocClear k w (Word.maskOf (Word.lowest room fold.1))) := ⟨rfl, rfl, rfl⟩
          refine ⟨?_, folded.trans (cleared.trans links)⟩
          dsimp only
          rw [List.length_append, List.length_map]
          omega

theorem takeFrom_bounded (hint nwords osz steps span room : Nat) (b : SpanBitmaps) :
    (takeFrom hint nwords osz steps span room b).1.length ≤ room ∧
      SpanBitmaps.SameLinks b (takeFrom hint nwords osz steps span room b).2.2 := by
  induction steps generalizing span room b with
  | zero => exact ⟨Nat.zero_le _, .refl b⟩
  | succ steps ih =>
      rw [takeFrom_succ]
      by_cases done : room = 0 ∨ span = noSpan
      · rw [if_pos done]
        exact ⟨Nat.zero_le _, .refl b⟩
      · rw [if_neg done]
        by_cases skip : span = hint
        · rw [if_pos skip]
          exact ih (b.next span) room b
        · rw [if_neg skip]
          have scanned : (scanSpan span room nwords osz b).1.length ≤ room ∧
              SpanBitmaps.SameLinks b (scanSpan span room nwords osz b).2 :=
            scanWords_bounded span osz nwords 0 room b
          generalize scanSpan span room nwords osz b = scan at scanned ⊢
          obtain ⟨short, links⟩ := ih (scan.2.next span) (room - scan.1.length) scan.2
          refine ⟨?_, scanned.2.trans links⟩
          rw [List.length_append]
          omega

/-- A cell hands out no more than it was asked for, and keeps its list. -/
theorem taken_bounded (s : SubHeap) (shard cls room : Nat) :
    (s.taken shard cls room).1.length ≤ room ∧ SameLists s (s.taken shard cls room).2 := by
  cases valid : s.validHint shard cls with
  | true =>
      obtain ⟨few, links⟩ := scanWords_bounded (s.reuseHint shard cls) (sizeOfClass cls)
        (bitmapWords cls) 0 room s.bitmaps
      rcases scan : scanSpan (s.reuseHint shard cls) room (bitmapWords cls) (sizeOfClass cls)
        s.bitmaps with ⟨first, b₁⟩
      rw [scanSpan] at scan
      rw [scan] at few links
      obtain ⟨more, links'⟩ := takeFrom_bounded (s.reuseHint shard cls) (bitmapWords cls)
        (sizeOfClass cls) (s.spans.numSpans + 1) (s.head shard cls) (room - first.length) b₁
      rcases walked : takeFrom (s.reuseHint shard cls) (bitmapWords cls) (sizeOfClass cls)
        (s.spans.numSpans + 1) (s.head shard cls) (room - first.length) b₁ with ⟨rest, seen, b₂⟩
      rw [walked] at more links'
      rw [taken_hint valid scan walked]
      refine ⟨?_, rfl, links.trans links', rfl⟩
      rw [List.length_append]
      simp only at few more
      omega
  | false =>
      obtain ⟨few, links⟩ := takeFrom_bounded noSpan (bitmapWords cls) (sizeOfClass cls)
        (s.spans.numSpans + 1) (s.head shard cls) room s.bitmaps
      rcases walked : takeFrom noSpan (bitmapWords cls) (sizeOfClass cls) (s.spans.numSpans + 1)
        (s.head shard cls) room s.bitmaps with ⟨objs, seen, b⟩
      rw [walked] at few links
      rw [taken_list valid walked]
      exact ⟨few, rfl, links, rfl⟩

theorem centralTake_sameLists (shard cls room : Nat) : Moves SameLists (centralTake shard cls room) :=
  .apply fun s => (taken_bounded s shard cls room).2

theorem moves_grown {α : Type} {m : Prog Turn SubHeap α} (same : Moves SameLists m) : Moves Grown m :=
  fun s env => (same s env).grown

/-! ## Carving -/

theorem adopt_grown (s : SubHeap) (shard cls slots span : Nat) :
    Grown s (s.adopt shard cls slots span) := by
  have links : SpanBitmaps.SameLinks s.bitmaps (s.bitmaps.tileSpan span slots) :=
    (s.bitmaps.tileSpan_spec span slots).1
  have tiled : SameLists s { s with bitmaps := s.bitmaps.tileSpan span slots } := ⟨rfl, links, rfl⟩
  by_cases listed : (s.bitmaps.tileSpan span slots).onList span = true
  · rw [adopt, if_pos listed]
    exact tiled.grown
  · refine IsTrans.trans _ _ _ tiled.grown ?_
    rw [adopt, if_neg listed]
    refine ⟨rfl, fun sh c nodes chain on => ?_⟩
    have outside : span ∉ nodes := fun member => listed (on span member)
    have still : ∀ k ∈ nodes, Function.update (s.bitmaps.tileSpan span slots).onList span true k = true := by
      intro k member
      have other : k ≠ span := fun same => outside (same ▸ member)
      rw [Function.update_of_ne other]
      exact on k member
    rw [setHead_head]
    by_cases here : sh = shard ∧ c = cls
    · obtain ⟨rfl, rfl⟩ := here
      refine ⟨[span], ?_, ?_⟩
      · rw [if_pos ⟨rfl, rfl⟩]
        exact chain.push outside
      · intro k member
        rcases List.mem_cons.mp member with rfl | old
        · exact Function.update_self ..
        · exact still k old
    · refine ⟨[], ?_, still⟩
      rw [if_neg here]
      apply chain.frame
      intro k member
      have other : k ≠ span := fun same => outside (same ▸ member)
      exact Function.update_of_ne other ..

theorem adoptRun_grown (shard cls perSpan count addr : Nat) (s : SubHeap) :
    Grown s (adoptRun shard cls perSpan count addr s) := by
  induction count generalizing addr s with
  | zero => exact Std.Refl.refl s
  | succ count ih =>
      rw [adoptRun]
      exact IsTrans.trans _ _ _ (adopt_grown ..) (ih ..)

theorem tryLock_moves {R : SubHeap → SubHeap → Prop} [Std.Refl R] [IsTrans SubHeap R] (company : Company) :
    Moves R (tryLock company) := by
  cases company with
  | alone => exact .ret _
  | among => exact Moves.bind .ask fun _ => .ret _

theorem panicLocked_sameLists {α : Type} : Moves SameLists (panicLocked : Prog Turn SubHeap α) :=
  Moves.bind (.modify fun _ => ⟨rfl, .refl _, rfl⟩) fun _ => .fail

theorem carveOrReuseSpans_sameLists (company : Company) (numSpans cls home : Nat) :
    Moves SameLists (carveOrReuseSpans company numSpans cls home) := by
  refine Moves.bind ((tryLock_moves company).bind fun _ => .inspect fun s => .ite (.ret _) ?_) fun range => ?_
  · split
    · exact panicLocked_sameLists
    · exact .ret _
    · exact Moves.bind (.modify fun _ => ⟨rfl, .refl _, rfl⟩) fun _ => .ret _
  · cases range with
    | some range => exact .ret _
    | none => exact .apply fun _ => ⟨rfl, .refl _, rfl⟩

theorem centralCarve_grown (company : Company) (cls myShard batch : Nat) :
    Moves Grown (centralCarve company cls myShard batch) := by
  have carves := fun numSpans => moves_grown (carveOrReuseSpans_sameLists company numSpans cls (wrap16 myShard))
  refine .inspect fun s => .ite ?_ ?_
  · refine (carves _).bind fun range => .ite (.ret _) ?_
    refine Moves.bind (.modify fun s => ?_) fun _ => .ret _
    exact IsTrans.trans _ _ _ (adopt_grown ..) (SameLists.grown ⟨rfl, .refl _, rfl⟩)
  · refine (carves _).bind fun range => .ite (.ret _) ?_
    exact Moves.bind (.modify fun s => adoptRun_grown ..) fun _ => .ret _

theorem refillBatch_grown (company : Company) (cls thread room : Nat) :
    Moves Grown (refillBatch company cls thread room) :=
  .inspect fun _ => (moves_grown (centralTake_sameLists _ _ _)).bind fun _ =>
    .loop (fun _ => .ite (.ret _) ((centralCarve_grown _ _ _ _).bind fun _ => .ite (.ret _)
      ((moves_grown (centralTake_sameLists _ _ _)).bind fun _ => .ite (.ret _) (.ret _)))) _ _

/-- A batch is no longer than the room for it. -/
theorem refillBatch_length (company : Company) (cls thread room : Nat) :
    Triple (fun _ => True) (refillBatch company cls thread room) (fun objs _ => objs.length ≤ room)
      (fun _ => True) := by
  have takes : ∀ shard want n, Triple (fun _ => n ≤ room) (centralTake shard cls want)
      (fun objs _ => objs.length ≤ want ∧ n ≤ room) (fun _ => True) :=
    fun shard want n => Triple.apply fun s few => ⟨(taken_bounded s shard cls want).1, few⟩
  refine Triple.inspect fun s _ => Triple.strengthen (P := fun _ => 0 ≤ room) ?_ fun _ _ => Nat.zero_le _
  refine Triple.bind (takes _ room 0) fun first => ?_
  refine Triple.strengthen (P := fun _ => first.length ≤ room) ?_ fun _ few => few.1
  refine Triple.loop (I := fun _ (out : List Nat) _ => out.length ≤ room)
    (J := fun (out : List Nat) _ => out.length ≤ room) (fun _ out => ?_) (fun _ _ few => few) _ _
  refine Triple.ite (fun _ => Triple.ret _ fun _ few => few) (fun _ => ?_)
  refine Triple.bind ((Triple.const (out.length ≤ room)).relax fun _ _ => trivial) fun carved => ?_
  refine Triple.ite (fun _ => Triple.ret _ fun _ few => few) (fun _ => ?_)
  refine Triple.bind (takes _ (room - out.length) out.length) fun got => ?_
  refine Triple.ite (fun _ => Triple.ret _ fun _ few => few.2) (fun _ => Triple.ret _ fun _ few => ?_)
  dsimp only
  rw [List.length_append]
  omega

/-! ## Frees -/

theorem slabPop_sameLists (cls : Nat) : Moves SameLists (slabPop cls) :=
  .bind .ask fun _ => .apply fun _ => ⟨rfl, .refl _, rfl⟩

theorem slabPush_sameLists (cls p : Nat) : Moves SameLists (slabPush cls p) :=
  .bind .ask fun _ => .apply fun _ => ⟨rfl, .refl _, rfl⟩

theorem centralDeposit_sameLists (p osz : Nat) : Moves SameLists (centralDeposit p osz) :=
  .modify fun _ => ⟨rfl, ⟨rfl, rfl, rfl⟩, rfl⟩

theorem stash_sameLists (cls p : Nat) : Moves SameLists (stash cls p) := by
  refine (slabPush_sameLists cls p).bind fun r => ?_
  cases r with
  | ok => exact .ret _
  | needsSlow => exact centralDeposit_sameLists _ _

theorem freeLocal_sameLists (cls p : Nat) : Moves SameLists (freeLocal cls p) := by
  refine (slabPush_sameLists cls p).bind fun r => ?_
  cases r with
  | ok => exact .ret _
  | needsSlow =>
      refine Moves.bind (.upTo ((slabPop_sameLists cls).bind fun r => ?_) _) fun _ => stash_sameLists cls p
      cases r with
      | ok q => exact (centralDeposit_sameLists _ _).bind fun _ => .ret _
      | needsSlow => exact .ret _

theorem deallocClass_sameLists (p cls thread : Nat) : Moves SameLists (deallocClass p cls thread) :=
  .inspect fun _ => .ite (freeLocal_sameLists cls p) (centralDeposit_sameLists p _)

theorem flushPending_sameLists (pending : Pending) : Moves SameLists (flushPending pending) :=
  .ite (.ret _) (.modify fun _ => ⟨rfl, ⟨rfl, rfl, rfl⟩, rfl⟩)

theorem batchAll_sameLists (cls thread : Nat) (ptrs : List Nat) (pending : Pending) :
    Moves SameLists (batchAll cls thread ptrs pending) := by
  induction ptrs generalizing pending with
  | nil => exact .ret _
  | cons p rest ih =>
      refine Moves.bind (.inspect fun s => .ite ?_ ?_) fun _ => ih _
      · exact (freeLocal_sameLists cls p).bind fun _ => .ret _
      · exact .ite ((flushPending_sameLists _).bind fun _ => .ret _) (.ret _)

theorem deallocClassBatch_sameLists (ptrs : List Nat) (cls thread : Nat) :
    Moves SameLists (deallocClassBatch ptrs cls thread) :=
  (batchAll_sameLists _ _ _ _).bind fun _ => (flushPending_sameLists _).bind fun _ =>
    .ite (.ret _) (.modify fun _ => ⟨rfl, .refl _, rfl⟩)

/-! ## Objects move, spans do not -/

/-- The same arena and pool, and no further carve cut short. -/
structure SameStock (s s' : SubHeap) : Prop where
  arena : s'.arena = s.arena
  large : s'.large = s.large
  clipped : s'.clipped = s.clipped

instance : Std.Refl SameStock := ⟨fun _ => ⟨rfl, rfl, rfl⟩⟩

instance : IsTrans SubHeap SameStock :=
  ⟨fun _ _ _ h h' => ⟨h'.arena.trans h.arena, h'.large.trans h.large, h'.clipped.trans h.clipped⟩⟩

theorem centralTake_sameStock (shard cls room : Nat) : Moves SameStock (centralTake shard cls room) := by
  refine .apply fun s => ?_
  cases valid : s.validHint shard cls with
  | true =>
      rcases scan : scanSpan (s.reuseHint shard cls) room (bitmapWords cls) (sizeOfClass cls)
        s.bitmaps with ⟨first, b₁⟩
      rcases walked : takeFrom (s.reuseHint shard cls) (bitmapWords cls) (sizeOfClass cls)
        (s.spans.numSpans + 1) (s.head shard cls) (room - first.length) b₁ with ⟨rest, seen, b₂⟩
      rw [taken_hint valid scan walked]
      exact ⟨rfl, rfl, rfl⟩
  | false =>
      rcases walked : takeFrom noSpan (bitmapWords cls) (sizeOfClass cls) (s.spans.numSpans + 1)
        (s.head shard cls) room s.bitmaps with ⟨objs, seen, b⟩
      rw [taken_list valid walked]
      exact ⟨rfl, rfl, rfl⟩

theorem slabPop_sameStock (cls : Nat) : Moves SameStock (slabPop cls) :=
  .bind .ask fun _ => .apply fun _ => ⟨rfl, rfl, rfl⟩

theorem slabPush_sameStock (cls p : Nat) : Moves SameStock (slabPush cls p) :=
  .bind .ask fun _ => .apply fun _ => ⟨rfl, rfl, rfl⟩

theorem centralDeposit_sameStock (p osz : Nat) : Moves SameStock (centralDeposit p osz) :=
  .modify fun _ => ⟨rfl, rfl, rfl⟩

theorem stash_sameStock (cls p : Nat) : Moves SameStock (stash cls p) := by
  refine (slabPush_sameStock cls p).bind fun r => ?_
  cases r with
  | ok => exact .ret _
  | needsSlow => exact centralDeposit_sameStock _ _

theorem freeLocal_sameStock (cls p : Nat) : Moves SameStock (freeLocal cls p) := by
  refine (slabPush_sameStock cls p).bind fun r => ?_
  cases r with
  | ok => exact .ret _
  | needsSlow =>
      refine Moves.bind (.upTo ((slabPop_sameStock cls).bind fun r => ?_) _) fun _ => stash_sameStock cls p
      cases r with
      | ok q => exact (centralDeposit_sameStock _ _).bind fun _ => .ret _
      | needsSlow => exact .ret _

theorem deallocClass_sameStock (p cls thread : Nat) : Moves SameStock (deallocClass p cls thread) :=
  .inspect fun _ => .ite (freeLocal_sameStock cls p) (centralDeposit_sameStock p _)

theorem flushPending_sameStock (pending : Pending) : Moves SameStock (flushPending pending) :=
  .ite (.ret _) (.modify fun _ => ⟨rfl, rfl, rfl⟩)

theorem batchAll_sameStock (cls thread : Nat) (ptrs : List Nat) (pending : Pending) :
    Moves SameStock (batchAll cls thread ptrs pending) := by
  induction ptrs generalizing pending with
  | nil => exact .ret _
  | cons p rest ih =>
      refine Moves.bind (.inspect fun s => .ite ?_ ?_) fun _ => ih _
      · exact (freeLocal_sameStock cls p).bind fun _ => .ret _
      · exact .ite ((flushPending_sameStock _).bind fun _ => .ret _) (.ret _)

theorem deallocClassBatch_sameStock (ptrs : List Nat) (cls thread : Nat) :
    Moves SameStock (deallocClassBatch ptrs cls thread) :=
  (batchAll_sameStock _ _ _ _).bind fun _ => (flushPending_sameStock _).bind fun _ =>
    .ite (.ret _) (.modify fun _ => ⟨rfl, rfl, rfl⟩)

end SubHeap

end Toccata
