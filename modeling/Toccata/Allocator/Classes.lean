import Toccata.Allocator
import Toccata.SubHeap.Custody

/-! # Classes in the global allocator

Four routes of `alloc` and two of `dealloc` choose a class on their own, from the size
and the alignment or from the span table. They agree: a magazine of a class holds slots
of spans tagged with that class only, a block is served from the place its layout says,
and a call touches no magazine but the one of its layout's class.
-/

namespace Toccata

open Foundations SizeClass SubHeap Global
open SubHeap.World (fiveSpans fiveSpans_mapped wide wide_placed)

namespace SubHeap

/-- At a slot boundary of a listed span of the class, and tagged with it in the table. -/
def SlotOf (s : SubHeap) (cls p : Nat) : Prop :=
  (∃ sh k i, sh < s.numShards ∧ s.OnList sh cls k ∧ i < slotsPerSpan (sizeOfClass cls) ∧
    p = s.arena.base + k * spanBytes + i * sizeOfClass cls) ∧
  ∃ home, s.spans.lookup p = some (cls, home)

variable {g : Geometry} {H L : Multiset (Nat × Nat)} {s : SubHeap}

theorem Accounted.slotOf (held : Accounted g H L s) {p cls : Nat} (member : (p, cls) ∈ H) :
    s.SlotOf cls p := by
  obtain ⟨role, ledger, -⟩ := held.owned
  have slot := ledger.slots.outside cls p (.inr member)
  have found := ledger.lookup_class Trust.tags_tagged held.whole slot
  obtain ⟨k, sh, i, active, low, rfl⟩ := slot
  have inside := (ledger.cells.groups k k cls sh active).2.1
  refine ⟨⟨sh, k, i, inside, (ledger.onList_iff inside).mpr active, low, ?_⟩, found⟩
  rw [Geometry.slotAddr, ledger.stock.grid.arena]

theorem Accounted.lookup_run (held : Accounted g H L s) {p n : Nat} (member : (p, n) ∈ L) :
    ∃ home, s.spans.lookup p = some (largeClass, home) := by
  obtain ⟨role, ledger, settled⟩ := held.owned
  obtain ⟨h, place, -⟩ := ledger.larges.recorded _ member
  obtain ⟨rest, rfl⟩ := Multiset.exists_cons_of_mem member
  simp only at place
  subst place
  exact ⟨0, (ledger.lookup_run settled).resolve_left fun lost => lost.1 Trust.tags_tagged⟩

end SubHeap

/-! ## Which magazines a call touches -/

namespace Cached

variable {l : Layout} {P : Nat → Prop} {cls thread p : Nat} {α : Type}

/-- The magazines of all other classes are as they were. -/
def Confined (P : Nat → Prop) (s s' : Cached) : Prop :=
  ∀ cls, ¬ P cls → s'.cache.mags.cell cls = s.cache.mags.cell cls

instance : Std.Refl (Confined P) := ⟨fun _ _ _ => rfl⟩

instance : IsTrans Cached (Confined P) :=
  ⟨fun _ _ _ first second cls away => (second cls away).trans (first cls away)⟩

theorem lift_confined (m : Prog Turn SubHeap α) : Moves (Confined P) (lift m) := fun _ _ _ _ => rfl

theorem magazine_confined : Moves (Confined P) (magazine cls) := by
  refine .inspect fun s => ?_
  cases s.cache.mags.get? cls with
  | some m => exact .ret m
  | none => exact .fail

theorem setMagazine_confined (own : P cls) (m : Magazine) : Moves (Confined P) (setMagazine cls m) := by
  refine .modify fun s cls' away => ?_
  rw [put, Slice.put_cell, if_neg]
  rintro rfl
  exact away own

theorem setTop_confined (own : P cls) (m : Magazine) : Moves (Confined P) (setTop cls m p) := by
  rw [setTop]
  cases m.ptrs.set? m.len p with
  | some ptrs => exact setMagazine_confined own _
  | none => exact .fail

theorem free_confined (own : P cls) : Moves (Confined P) (free p cls thread) := by
  have push : Moves (Confined P) (tryPush p cls) :=
    magazine_confined.bind fun _ => .ite ((setTop_confined own _).bind fun _ => .ret _) (.ret _)
  refine push.bind fun stored => .ite (.ret _) ?_
  exact magazine_confined.bind fun _ => .ite .fail ((lift_confined _).bind fun _ => setTop_confined own _)

/-- A free changes at most the magazine of its layout's class, and none if the layout
    is not served from magazines. -/
theorem deallocLayout_confined :
    Moves (Confined fun cls => l.small = true ∧ classOf l.need = some cls) (deallocLayout p l thread) := by
  unfold deallocLayout
  cases small : l.small with
  | false => exact (lift_confined _).bind fun _ => .ret _
  | true =>
      rw [if_pos rfl]
      cases found : classOf l.need with
      | none => exact .fail
      | some cls => exact free_confined ⟨rfl, rfl⟩

end Cached

namespace Process

variable {c : Config} {p : Process}

/-- A call that leaves magazines alone does so in every thread. -/
theorem withTls_confined {α : Type} {thread : Nat} {calloc : Bool} {m : Prog Turn Cached α} {env : List Turn}
    {P : Nat → Prop} (moves : Moves (Cached.Confined P) m) (t cls : Nat) (away : ¬ P cls) :
    ((p.withTls thread calloc m env).2.tls t).cache.mags.cell cls = (p.tls t).cache.mags.cell cls := by
  by_cases alive : p.tls thread = .exited
  · rw [withTls, alive]
  · have kept := moves ⟨p.sub, (p.tls thread).cache⟩ env cls away
    rcases out : m ⟨p.sub, (p.tls thread).cache⟩ env with ⟨r, s, env'⟩
    rw [out] at kept
    rw [withTls_eq alive out]
    cases p.transient thread calloc with
    | true => rfl
    | false =>
        show (Function.update p.tls thread (.cached s.cache) t).cache.mags.cell cls = _
        by_cases same : t = thread
        · subst same
          rw [Function.update_self]
          exact kept
        · rw [Function.update_of_ne same]

/-! ## Agreement -/

/-- Requests below 2^47 bytes. -/
def Call.bounded : Call → Prop
  | .alloc _ l => l.size < 2 ^ 47
  | _ => True

theorem Call.bounded.small {call : Call} (bound : call.bounded) : call.small := by
  cases call with
  | alloc calloc l =>
      have bound : l.size < 2 ^ 47 := bound
      show spanCount l.size < 2 ^ 32
      unfold spanCount spanBytes
      omega
  | _ => trivial

/-- The pointer of a block leads to the class its layout is freed to, or to a run. -/
def Routed (s : SubHeap) (ptr : Nat) (l : Layout) : Prop :=
  (l.small = true → ∃ cls, classOf l.need = some cls ∧ s.SlotOf cls ptr) ∧
  (l.small = false → l.need ≤ maxSmall → ∀ cls, alignedClass l.need l.align = some cls → s.SlotOf cls ptr) ∧
  (l.small = false → maxSmall < l.need ∨ alignedClass l.need l.align = none →
    ∃ home, s.spans.lookup ptr = some (largeClass, home))

theorem Stands.routed {T : Finset Nat} (stands : Stands c T p) {ptr : Nat} {l : Layout}
    (held : (ptr, l) ∈ p.blocks) (sized : l.size ≠ 0) : Routed p.sub ptr l := by
  have object : ∀ cls, l.place = .object cls → p.sub.SlotOf cls ptr := fun cls place =>
    stands.books.slotOf (mem_outside T held place)
  rcases Layout.place_cases sized with ⟨small, cls, found, place, -⟩ |
    ⟨small, low, cls, found, place, -⟩ | ⟨small, large, place⟩
  · refine ⟨fun _ => ⟨cls, found, object cls place⟩, ?_, ?_⟩
    · grind
    · grind
  · refine ⟨by grind, fun _ _ cls' same => ?_, fun _ none => ?_⟩
    · rw [found] at same
      cases same
      exact object cls place
    · rw [found] at none
      rcases none with high | none
      · omega
      · cases none
  · refine ⟨by grind, fun _ low cls found => ?_, fun _ _ => ?_⟩
    · rcases large with high | ⟨-, none⟩
      · omega
      · rw [none] at found
        cases found
    · exact stands.books.lookup_run (mem_records held place)

/-- The class of a layout and the class of a span are the same wherever they meet. -/
theorem classes_agree (mapped : c.Mapped) (reached : Reached c (fun _ _ call => call.bounded) p) :
    (∀ t cls ptr, cls < numClasses → ptr ∈ ((p.tls t).cache.mags.cell cls).slots → p.sub.SlotOf cls ptr) ∧
    (∀ ptr l, (ptr, l) ∈ p.blocks → l.size ≠ 0 → Routed p.sub ptr l) ∧
    ∀ thread calloc ptr l env t cls, ¬ (l.small = true ∧ classOf l.need = some cls) →
      ((p.dealloc thread calloc ptr l env).2.tls t).cache.mags.cell cls = (p.tls t).cache.mags.cell cls := by
  obtain ⟨T, stands⟩ := reached.stands mapped fun _ _ _ bound => bound.small
  refine ⟨fun t cls ptr inside member => ?_, fun ptr l held sized => stands.routed held sized, ?_⟩
  · have stored : (ptr, cls) ∈ (p.tls t).contents := by
      rw [← Multiset.count_pos, Tls.contents, Front.count_contents _ inside]
      exact List.count_pos_iff.mpr member
    have among : t ∈ T := by
      by_contra away
      rw [stands.outside t away] at stored
      exact Multiset.notMem_zero _ stored
    apply stands.books.slotOf
    apply Multiset.mem_add.mpr ∘ .inl ∘ Multiset.mem_add.mpr ∘ .inr
    exact Multiset.mem_sum.mpr ⟨t, among, stored⟩
  · intro thread calloc ptr l env t cls away
    rw [dealloc]
    split
    · rfl
    · exact withTls_confined Cached.deallocLayout_confined t cls away

/-- One object served through a magazine, which keeps the rest of a batch. -/
def served : Process :=
  ((start fiveSpans).after 0 [] (.alloc true ⟨2048, 8⟩)).getD (start fiveSpans)

theorem served_run : (((start fiveSpans).after 0 [] (.alloc true ⟨2048, 8⟩)).isSome = true ∧
      served.sub.clipped = false) ∧
    10240 ∈ ((served.tls 0).cache.mags.cell 26).slots ∧ served.blocks = {(8192, ⟨2048, 8⟩)} := by
  decide +kernel

attribute [irreducible] served

theorem served_reached (admitted : Process → Nat → Call → Prop)
    (first : admitted (start fiveSpans) 0 (.alloc true ⟨2048, 8⟩)) : Reached fiveSpans admitted served := by
  obtain ⟨⟨returns, whole⟩, -⟩ := served_run
  have started : Reached fiveSpans admitted (start fiveSpans) := .start rfl
  unfold served at whole ⊢
  exact started.call 0 [] (.alloc true ⟨2048, 8⟩) nofun first returns whole

theorem classes_agree_served : (10240 ∈ ((served.tls 0).cache.mags.cell 26).slots ∧ served.sub.SlotOf 26 10240) ∧
    ((8192, ⟨2048, 8⟩) ∈ served.blocks ∧ Routed served.sub 8192 ⟨2048, 8⟩) := by
  obtain ⟨-, cached, blocks⟩ := served_run
  obtain ⟨magazines, routed, -⟩ := classes_agree fiveSpans_mapped
    (served_reached _ (show 2048 < 2 ^ 47 by decide))
  have held : (8192, ⟨2048, 8⟩) ∈ served.blocks := by
    rw [blocks]
    exact Multiset.mem_singleton_self _
  exact ⟨⟨cached, magazines 0 26 10240 (by decide) cached⟩, held, routed 8192 ⟨2048, 8⟩ held (by decide)⟩

/-! Where offsets wrap around, classes 9 and 31 share their slots. A push of class 31 puts
one of its objects on the stack of class 9, which drains it into the bitmap of its span at
an index of class 9. A batch of class 31 takes that bit for an object past the arena. -/

def pushed₉ : Process :=
  ((start wide).after 0 [⟨0, 0, false⟩, ⟨0, 0, false⟩] (.alloc true ⟨112, 16⟩)).getD (start wide)

def pushed₃₁ : Process :=
  (pushed₉.after 0 [⟨0, 0, false⟩, ⟨0, 0, false⟩] (.alloc true ⟨5120, 16⟩)).getD pushed₉

def drained₉ : Process := (pushed₃₁.after 0 [⟨0, 0, true⟩, ⟨0, 0, false⟩]
  (.dealloc true wide.arenaBase ⟨112, 16⟩)).getD pushed₃₁

def misfiled : Process := (drained₉.after 0 [] (.alloc true ⟨5120, 8⟩)).getD drained₉

/-- Where the bit leads. -/
def pastArena : Nat := wide.arenaBase + 65536 + 45 * 5120

theorem misfiled_run :
    (((start wide).after 0 [⟨0, 0, false⟩, ⟨0, 0, false⟩] (.alloc true ⟨112, 16⟩)).isSome = true ∧
      pushed₉.sub.clipped = false) ∧
    (pushed₉.Legal 0 (.alloc true ⟨5120, 16⟩) ∧
      (pushed₉.after 0 [⟨0, 0, false⟩, ⟨0, 0, false⟩] (.alloc true ⟨5120, 16⟩)).isSome = true ∧
      pushed₃₁.sub.clipped = false) ∧
    (pushed₃₁.Legal 0 (.dealloc true wide.arenaBase ⟨112, 16⟩) ∧
      (pushed₃₁.after 0 [⟨0, 0, true⟩, ⟨0, 0, false⟩] (.dealloc true wide.arenaBase ⟨112, 16⟩)).isSome = true ∧
      drained₉.sub.clipped = false) ∧
    (drained₉.Legal 0 (.alloc true ⟨5120, 8⟩) ∧
      (drained₉.after 0 [] (.alloc true ⟨5120, 8⟩)).isSome = true ∧ misfiled.sub.clipped = false) ∧
    pastArena ∈ ((misfiled.tls 0).cache.mags.cell 31).slots ∧ misfiled.sub.spans.lookup pastArena = none := by
  decide +kernel

attribute [irreducible] pushed₉ pushed₃₁ drained₉ misfiled

theorem misfiled_reached : Reached wide (fun _ _ call => call.bounded) misfiled := by
  obtain ⟨⟨returns₁, whole₁⟩, ⟨legal₂, returns₂, whole₂⟩, ⟨legal₃, returns₃, whole₃⟩,
    ⟨legal₄, returns₄, whole₄⟩, -⟩ := misfiled_run
  have started : Reached wide (fun _ _ call => call.bounded) (start wide) := .start rfl
  have first : Reached wide (fun _ _ call => call.bounded) pushed₉ := by
    unfold pushed₉ at whole₁ ⊢
    exact started.call 0 _ (.alloc true ⟨112, 16⟩) nofun (show 112 < 2 ^ 47 by decide) returns₁ whole₁
  have second : Reached wide (fun _ _ call => call.bounded) pushed₃₁ := by
    unfold pushed₃₁ at whole₂ ⊢
    exact first.call 0 _ (.alloc true ⟨5120, 16⟩) legal₂ (show 5120 < 2 ^ 47 by decide) returns₂ whole₂
  have third : Reached wide (fun _ _ call => call.bounded) drained₉ := by
    unfold drained₉ at whole₃ ⊢
    exact second.call 0 _ (.dealloc true wide.arenaBase ⟨112, 16⟩) legal₃ trivial returns₃ whole₃
  unfold misfiled at whole₄ ⊢
  exact third.call 0 _ (.alloc true ⟨5120, 8⟩) legal₄ (show 5120 < 2 ^ 47 by decide) returns₄ whole₄

theorem classes_disagree : wide.Placed ∧ Reached wide (fun _ _ call => call.bounded) misfiled ∧
    pastArena ∈ ((misfiled.tls 0).cache.mags.cell 31).slots ∧ ¬ misfiled.sub.SlotOf 31 pastArena := by
  obtain ⟨-, -, -, -, cached, unknown⟩ := misfiled_run
  refine ⟨wide_placed.1, misfiled_reached, cached, ?_⟩
  rintro ⟨-, home, found⟩
  rw [unknown] at found
  cases found

end Process

end Toccata
