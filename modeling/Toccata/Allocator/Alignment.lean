import Toccata.Allocator
import Toccata.SubHeap.Placing

/-! # Alignment in the global allocator

A pointer is the arena's base, plus whole spans, plus whole slots of a class chosen as a
multiple of the alignment. So it is aligned as far as the base is, and the base comes
after the slab, at whatever address that ends. An alignment past the span size is
refused for large requests only; a smaller request gets an object of a class of several
spans, at whatever span is next.
-/

namespace Toccata

open Foundations SizeClass SubHeap Global
open SubHeap.World (fiveSpans fiveSpans_mapped)

/-! ## The bytes of a block -/

namespace Place

/-- How much is served at this place. -/
def bytes : Place → Nat
  | .nothing => 0
  | .object cls => sizeOfClass cls
  | .run size => wrap32 (spanCount size) * spanBytes

end Place

theorem IsClass.eight_dvd {cls : Nat} (isClass : IsClass cls) : 8 ∣ sizeOfClass cls := by
  have all : ∀ cls < numClasses, 1 ≤ cls → 8 ∣ sizeOfClass cls := by decide
  exact all cls isClass.lt isClass.pos

namespace Global.Layout

/-- A request of some size is served an object or a run. -/
theorem served {l : Layout} (sized : l.size ≠ 0) :
    (∃ cls, l.place = .object cls) ∨ ∃ size, l.place = .run size := by
  rcases place_cases sized with ⟨-, cls, -, place, -⟩ | ⟨-, -, cls, -, place, -⟩ | ⟨-, -, place⟩
  · exact .inl ⟨cls, place⟩
  · exact .inl ⟨cls, place⟩
  · exact .inr ⟨l.need, place⟩

/-- The span count of the request, if it is one for spans, is not narrowed. -/
def Fits (l : Layout) : Prop := ∀ size, l.place = .run size → spanCount size < 2 ^ 32

/-- A class is a multiple of the alignment it is chosen for, up to the default one. -/
theorem align_dvd {l : Layout} {cls : Nat} (sized : l.size ≠ 0) (power : ∃ n, l.align = 2 ^ n)
    (place : l.place = .object cls) : l.align ∣ sizeOfClass cls := by
  rcases place_cases sized with ⟨small, cls', -, place', isClass, -⟩ |
    ⟨-, -, cls', -, place', -, -, divides⟩ | ⟨-, -, place'⟩
  · rw [place] at place'
    cases place'
    obtain ⟨n, align⟩ := power
    have narrow : l.align ≤ 2 ^ 3 := by
      rw [Layout.small, Bool.and_eq_true, decide_eq_true_eq, decide_eq_true_eq] at small
      exact small.2
    have default : l.align ∣ 8 := by
      rw [align] at narrow ⊢
      exact Nat.pow_dvd_pow 2 ((Nat.pow_le_pow_iff_right (by decide)).mp narrow)
    exact default.trans isClass.eight_dvd
  · rw [place] at place'
    cases place'
    exact divides
  · rw [place] at place'
    cases place'

/-- The spans a request takes at the least. -/
def spans (l : Layout) : Nat :=
  match l.place with
  | .nothing => 0
  | .object cls => groupSpans (sizeOfClass cls)
  | .run size => spanCount size

theorem spans_object {l : Layout} {cls : Nat} (place : l.place = .object cls) :
    l.spans = groupSpans (sizeOfClass cls) := by
  rw [spans, place]

theorem spans_run {l : Layout} {size : Nat} (place : l.place = .run size) : l.spans = spanCount size := by
  rw [spans, place]

/-- Every power of two up to the largest class is kept by some class. -/
theorem alignedClass_found {l : Layout} (sized : l.size ≠ 0) (power : ∃ n, l.align = 2 ^ n)
    (low : l.need ≤ maxSmall) : ∃ cls, alignedClass l.need l.align = some cls := by
  have pos : 0 < l.need := Nat.lt_of_lt_of_le (Nat.pos_of_ne_zero sized) (le_max_left ..)
  obtain ⟨first, found, low', inside, -⟩ := classOf_fits l.need pos low
  have divides : l.align ∣ sizeOfClass (numClasses - 1) := by
    obtain ⟨n, align⟩ := power
    have within : 2 ^ n ≤ 2 ^ 18 := by
      rw [← align]
      exact (le_max_right ..).trans low
    rw [align]
    exact Nat.pow_dvd_pow 2 ((Nat.pow_le_pow_iff_right (by decide)).mp within)
  have before : first ≤ numClasses - 1 := by omega
  have within : numClasses - 1 < first + numClasses := by omega
  obtain ⟨cls, sought⟩ := seekAligned_found before within divides (by decide)
  exact ⟨cls, by rw [alignedClass, found, Option.bind_some, sought]⟩

theorem place_aligned {l : Layout} {cls : Nat} (sized : l.size ≠ 0) (plain : l.small = false)
    (low : l.need ≤ maxSmall) (found : alignedClass l.need l.align = some cls) : l.place = .object cls := by
  rw [Layout.place, if_neg sized, plain, if_neg Bool.false_ne_true, if_neg (Nat.not_lt_of_le low), found]
  rfl

theorem plain_of_align (l : Layout) (wide : minAlign < l.align) : l.small = false := by
  rw [Layout.small, Bool.and_eq_false_iff, decide_eq_false_iff_not, decide_eq_false_iff_not]
  exact .inr (Nat.not_le_of_lt wide)

end Global.Layout

theorem Cached.allocLayout_fits {l : Layout} {thread ptr : Nat} {s s' : Cached} {env env' : List Turn}
    (sized : l.size ≠ 0) (small : spanCount l.size < 2 ^ 32)
    (ran : allocLayout l thread s env = (some (some ptr), s', env')) : l.Fits := by
  intro size run
  rcases Layout.place_cases sized with ⟨-, cls, -, place, -⟩ | ⟨-, -, cls, -, place, -⟩ | ⟨plain, large, place⟩
  · rw [place] at run
    cases run
  · rw [place] at run
    cases run
  · rw [place] at run
    cases run
    rcases large with large | ⟨low, -⟩
    · rw [allocLayout, plain, if_neg Bool.false_ne_true, if_pos large] at ran
      by_cases aligned : spanBytes < l.align
      · rw [if_pos aligned] at ran
        cases ran
      · rwa [l.need_eq_size large (Nat.le_of_not_lt aligned)]
    · exact spanCount_small low

namespace SubHeap

variable {g : Geometry} {H L : Multiset (Nat × Nat)} {s : SubHeap}

theorem Accounted.run_inside (held : Accounted g H L s) {x : Nat × Nat} (member : x ∈ L) :
    x.1 + x.2 * spanBytes ≤ g.base + g.len := by
  obtain ⟨role, ledger, -⟩ := held.owned
  obtain ⟨h, place, extent⟩ := ledger.run_extent member
  have pos := extent.pos
  have last := extent.own (h + x.2 - 1) (by omega) (by omega)
  have whole := ledger.stock.whole held.whole (h + x.2 - 1) (by rw [last]; exact nofun)
  rw [Nat.sub_add_cancel (by omega), Nat.add_mul, ledger.stock.grid.len] at whole
  omega

end SubHeap

namespace Process

variable {c : Config} {p p' : Process} {thread : Nat} {T : Finset Nat}

/-- A block lies in the arena. -/
theorem Stands.inside (stands : Stands c T p) {ptr : Nat} {l : Layout} (held : (ptr, l) ∈ p.blocks)
    (sized : l.size ≠ 0) : c.arenaBase ≤ ptr ∧ ptr + l.place.bytes ≤ c.arenaBase + c.budgetBytes := by
  obtain ⟨role, ledger, -⟩ := stands.books.owned
  rcases Layout.served sized with ⟨cls, place⟩ | ⟨size, place⟩
  · have object := mem_outside T held place
    have high := (World.Claimed.of_ledger ledger stands.books.whole object).2
    obtain ⟨k, sh, i, -, -, rfl⟩ := ledger.slots.outside cls ptr (.inr object)
    rw [ledger.stock.grid.len] at high
    rw [place]
    refine ⟨?_, high⟩
    rw [Geometry.slotAddr, Nat.add_assoc]
    exact Nat.le_add_right ..
  · have run := mem_records held place
    obtain ⟨h, here, -⟩ := ledger.larges.recorded _ run
    have high := stands.books.run_inside run
    rw [place]
    refine ⟨?_, high⟩
    rw [show ptr = _ from here]
    exact Nat.le_add_right ..

theorem bind_pair {f : Nat × Layout → Multiset (Nat × Nat)} {blocks : Multiset (Nat × Layout)}
    {b b' : Nat × Layout} (both : {b, b'} ≤ blocks) : f b + f b' ≤ blocks.bind f := by
  obtain ⟨rest, rfl⟩ := Multiset.le_iff_exists_add.mp both
  rw [Multiset.add_bind, Multiset.insert_eq_cons, Multiset.cons_bind, Multiset.singleton_bind]
  exact Multiset.le_add_right ..

/-- Two blocks have no byte in common. -/
theorem Stands.apart (stands : Stands c T p) {ptr ptr' : Nat} {l l' : Layout}
    (both : {(ptr, l), (ptr', l')} ≤ p.blocks) (sized : l.size ≠ 0) (sized' : l'.size ≠ 0) :
    Apart ptr l.place.bytes ptr' l'.place.bytes := by
  obtain ⟨role, ledger, -⟩ := stands.books.owned
  have first : (ptr, l) ∈ p.blocks := Multiset.mem_of_le both (by simp)
  have second : (ptr', l') ∈ p.blocks := Multiset.mem_of_le both (by simp)
  rcases Layout.served sized with ⟨cls, place⟩ | ⟨size, place⟩ <;>
    rcases Layout.served sized' with ⟨cls', place'⟩ | ⟨size', place'⟩
  · have pair : l.place.object? ptr + l'.place.object? ptr' ≤ p.objects := bind_pair both
    rw [place, place'] at pair ⊢
    exact ledger.objects_apart (pair.trans (Multiset.le_add_left ..))
  · rw [place, place']
    exact ledger.object_run_apart (mem_outside T first place) (mem_records second place')
  · rw [place, place']
    exact (ledger.object_run_apart (mem_outside T second place') (mem_records first place)).symm
  · have pair : l.place.run? ptr + l'.place.run? ptr' ≤ p.records := bind_pair both
    rw [place, place'] at pair ⊢
    exact ledger.runs_apart pair

/-- Up to the span size, a block is aligned as the arena is. -/
theorem Stands.aligned (stands : Stands c T p) {ptr : Nat} {l : Layout} (held : (ptr, l) ∈ p.blocks)
    (sized : l.size ≠ 0) (power : ∃ n, l.align = 2 ^ n) (narrow : l.align ≤ spanBytes) :
    l.align ∣ ptr ↔ l.align ∣ c.arenaBase := by
  obtain ⟨role, ledger, -⟩ := stands.books.owned
  have spans : l.align ∣ spanBytes := by
    obtain ⟨n, align⟩ := power
    have whole : spanBytes = 2 ^ 16 := by decide
    rw [align, whole] at narrow ⊢
    exact Nat.pow_dvd_pow 2 ((Nat.pow_le_pow_iff_right (by decide)).mp narrow)
  rcases Layout.served sized with ⟨cls, place⟩ | ⟨size, place⟩
  · obtain ⟨k, sh, i, -, -, rfl⟩ := ledger.slots.outside cls ptr (.inr (mem_outside T held place))
    have slots := (Layout.align_dvd sized power place).mul_left i
    rw [Geometry.slotAddr, ← Nat.dvd_add_iff_left slots, ← Nat.dvd_add_iff_left (spans.mul_left k)]
    rfl
  · obtain ⟨h, here, -⟩ := ledger.larges.recorded _ (mem_records held place)
    rw [show ptr = _ from here, ← Nat.dvd_add_iff_left (spans.mul_left h)]
    rfl

/-- A block lies in spans of its own, below the cursor. -/
theorem Stands.extent (stands : Stands c T p) {ptr : Nat} {l : Layout} (held : (ptr, l) ∈ p.blocks)
    (sized : l.size ≠ 0) (fits : l.Fits) :
    ∃ h, c.arenaBase + h * spanBytes ≤ ptr ∧
      ptr + l.place.bytes ≤ c.arenaBase + (h + l.spans) * spanBytes ∧
      c.arenaBase + (h + l.spans) * spanBytes ≤ p.sub.arena.cursor ∧
      (h + l.spans) * spanBytes ≤ c.budgetBytes := by
  obtain ⟨role, ledger, -⟩ := stands.books.owned
  have within : p.sub.arena.cursor ≤ c.arenaBase + c.budgetBytes := by
    obtain ⟨f, here, low, -⟩ := ledger.stock.cursor
    rw [ledger.stock.grid.len] at low
    rw [here]
    exact Nat.add_le_add_left low _
  rcases Layout.served sized with ⟨cls, place⟩ | ⟨size, place⟩
  · obtain ⟨_, h, -, low, high, below, -⟩ :=
      (World.Claimed.of_ledger ledger stands.books.whole (mem_outside T held place)).1
    rw [ledger.stock.grid.arena] at low high below
    rw [Layout.spans_object place, place]
    exact ⟨h, low, high, below, Nat.le_of_add_le_add_left (below.trans within)⟩
  · obtain ⟨h, here, extent⟩ := ledger.run_extent (mem_records held place)
    have below := ledger.extent_below stands.books.whole extent nofun
    rw [wrap32_small (fits size place)] at below
    rw [Layout.spans_run place, place]
    refine ⟨h, le_of_eq here.symm, ?_, below, Nat.le_of_add_le_add_left (below.trans within)⟩
    rw [Place.bytes, wrap32_small (fits size place), show ptr = _ from here, Nat.add_mul, Nat.add_assoc]
    exact le_rfl

/-- A class kept for an alignment past the span size fills whole spans, and is carved one
    object at a time. -/
theorem wide_class {cls align : Nat} (isClass : IsClass cls) (power : ∃ n, align = 2 ^ n)
    (wide : spanBytes < align) (divides : align ∣ sizeOfClass cls) :
    sizeOfClass cls = groupSpans (sizeOfClass cls) * spanBytes ∧
      carveWant cls (batchFor cls) = groupSpans (sizeOfClass cls) := by
  have all : ∀ cls < numClasses, 1 ≤ cls → 2 ^ 17 ∣ sizeOfClass cls →
      sizeOfClass cls = groupSpans (sizeOfClass cls) * spanBytes ∧
        carveWant cls (batchFor cls) = groupSpans (sizeOfClass cls) := by decide +kernel
  refine all cls isClass.lt isClass.pos (dvd_trans ?_ divides)
  obtain ⟨n, rfl⟩ := power
  have whole : spanBytes = 2 ^ 16 := by decide
  rw [whole, Nat.pow_lt_pow_iff_right (by decide)] at wide
  exact Nat.pow_dvd_pow 2 wide

/-- Past the span size a block starts a span. -/
theorem Stands.wide (stands : Stands c T p) {ptr : Nat} {l : Layout} (held : (ptr, l) ∈ p.blocks)
    (sized : l.size ≠ 0) (power : ∃ n, l.align = 2 ^ n) (fits : l.Fits) (wide : spanBytes < l.align)
    (less : l.need ≤ maxSmall) :
    ∃ h, ptr = c.arenaBase + h * spanBytes ∧
      c.arenaBase + (h + l.spans) * spanBytes ≤ p.sub.arena.cursor ∧
      (h + l.spans) * spanBytes ≤ c.budgetBytes := by
  obtain ⟨h, low, high, below, within⟩ := stands.extent held sized fits
  obtain ⟨cls, found⟩ := l.alignedClass_found sized power less
  obtain ⟨pos, inside, -, divides⟩ := alignedClass_some found
  have place := l.place_aligned sized (l.plain_of_align (lt_trans (by decide) wide)) less found
  have full := (wide_class ⟨pos, inside⟩ power wide divides).1
  rw [Layout.spans_object place] at high below within ⊢
  rw [place] at high
  refine ⟨h, ?_, below, within⟩
  rw [Place.bytes, Nat.add_mul] at high
  omega

theorem exit_blocks (p : Process) (thread : Nat) (env : List Turn) : (p.exit thread env).2.blocks = p.blocks := by
  unfold Process.exit
  cases p.tls thread with
  | cached | untouched | exited => rfl

/-- What is held was asked for within bounds. -/
theorem after_fits {env : List Turn} {call : Call} (legal : p.Legal thread call) (small : call.small)
    (ran : p.after thread env call = some p') (fits : ∀ b ∈ p.blocks, b.2.size ≠ 0 → b.2.Fits) :
    ∀ b ∈ p'.blocks, b.2.size ≠ 0 → b.2.Fits := by
  cases call with
  | alloc calloc l =>
      rw [Process.after, Process.alloc] at ran
      by_cases sized : l.size = 0
      · rw [if_pos sized] at ran
        cases ran
        exact Multiset.forall_mem_cons.mpr ⟨fun some => (some sized).elim, fits⟩
      · rw [if_neg sized] at ran
        rcases out : p.withTls thread calloc (Cached.allocLayout l thread) env with ⟨_ | _ | ptr, p₁⟩ <;>
          rw [out] at ran <;> cases ran
        obtain ⟨s, env', -, run, -, blocks, -⟩ := withTls_some legal (Finset.mem_singleton_self thread) out
        rw [blocks]
        exact Multiset.forall_mem_cons.mpr ⟨fun _ => Cached.allocLayout_fits sized small run, fits⟩
  | dealloc calloc ptr l =>
      rw [Process.after, Process.dealloc] at ran
      by_cases sized : l.size = 0
      · rw [if_pos sized] at ran
        cases ran
        exact fun b held => fits b (Multiset.mem_of_mem_erase held)
      · rw [if_neg sized] at ran
        rcases out : p.withTls thread calloc (Cached.deallocLayout ptr l thread) env with ⟨_ | _, p₁⟩ <;>
          rw [out] at ran <;> cases ran
        obtain ⟨s, env', -, -, -, blocks, -⟩ := withTls_some legal.1 (Finset.mem_singleton_self thread) out
        rw [blocks]
        exact fun b held => fits b (Multiset.mem_of_mem_erase held)
  | exit =>
      have blocks := p.exit_blocks thread env
      rw [Process.after] at ran
      rcases out : p.exit thread env with ⟨_ | _, p₁⟩ <;> rw [out] at ran blocks <;> cases ran
      rwa [show p'.blocks = p.blocks from blocks]
  | sweep maxPerLock =>
      rw [Process.after] at ran
      rcases out : SubHeap.reclaimEmptySpans maxPerLock p.sub env with ⟨_ | n, s, env'⟩ <;>
        rw [out] at ran <;> cases ran
      exact fits

theorem Reached.fits (reached : Reached c (fun _ _ call => call.small) p) :
    ∀ b ∈ p.blocks, b.2.size ≠ 0 → b.2.Fits := by
  induction reached with
  | start initial =>
      subst initial
      exact nofun
  | next _ taken ih =>
      obtain ⟨thread, env, call, legal, small, ran, -⟩ := taken
      exact after_fits legal small ran ih

/-- The books after a request was served. -/
theorem Reached.returned {env : List Turn} {calloc : Bool} {l : Layout} {ptr : Nat}
    (reached : Reached c (fun _ _ call => call.small) p) (mapped : c.Mapped)
    (alive : p.tls thread ≠ .exited) (sized : l.size ≠ 0) (small : spanCount l.size < 2 ^ 32)
    (ran : p.alloc thread calloc l env = (some (some ptr), p')) (whole : p'.sub.clipped = false) :
    ∃ T, Stands c T { p' with blocks := (ptr, l) ::ₘ p'.blocks } ∧
      (ptr, l) ∈ (ptr, l) ::ₘ p'.blocks ∧ l.Fits ∧ p'.blocks = p.blocks ∧
      Reached c (fun _ _ call => call.small) { p' with blocks := (ptr, l) ::ₘ p'.blocks } := by
  have returned : p.after thread env (.alloc calloc l) = some { p' with blocks := (ptr, l) ::ₘ p'.blocks } := by
    rw [Process.after, ran]
  have next : Reached c (fun _ _ call => call.small) { p' with blocks := (ptr, l) ::ₘ p'.blocks } :=
    reached.next (.call thread env (.alloc calloc l) alive small returned whole)
  obtain ⟨T, stands⟩ := next.stands mapped fun _ _ _ small => small
  refine ⟨T, stands, Multiset.mem_cons_self .., next.fits (ptr, l) (Multiset.mem_cons_self ..) sized, ?_, next⟩
  rw [Process.alloc, if_neg sized] at ran
  obtain ⟨-, -, -, -, -, blocks, -⟩ := withTls_some alive (Finset.mem_singleton_self thread) ran
  exact blocks

/-- A process that holds sixteen bytes. -/
def holding : Process := ((start fiveSpans).after 0 [] (.alloc true ⟨16, 16⟩)).getD (start fiveSpans)

attribute [irreducible] holding

end Process

end Toccata
