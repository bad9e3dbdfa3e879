import Toccata.SpanPool.Histories
import Toccata.SubHeap.Custody

/-! # Answers to requests

What a caller may read off an answer: that a large run has room for the size asked for
and touches nothing else, and that no object comes back only when none can be placed.
-/

namespace Toccata

open Foundations SizeClass

namespace SubHeap

variable {trust : Trust} {g : Geometry} {s s₁ : SubHeap} {role : Nat → Role}
  {H L : Multiset (Nat × Nat)} {W : List (Nat × Nat)} {h size : Nat}

/-! ## Large runs -/

theorem Apart.symm {p n q k : Nat} (apart : Apart p n q k) : Apart q k p n := Or.symm apart

theorem Apart.shrink {p n m q k : Nat} (apart : Apart p n q k) (less : m ≤ n) : Apart p m q k := by
  unfold Apart at *
  omega

theorem size_le_runs (size : Nat) : size ≤ spanCount size * spanBytes := by
  unfold spanCount spanBytes
  omega

/-- A run granted for `size` at span `h`: it lies in the arena, apart from all that is
    held, recorded at its first span, and only its entries of the table changed. -/
structure Run (g : Geometry) (s s' : SubHeap) (H L : Multiset (Nat × Nat)) (size h : Nat) : Prop where
  inside : g.base + h * spanBytes + size ≤ g.base + s.spans.len
  objects : ∀ x ∈ H, Apart (g.base + h * spanBytes) size x.1 (sizeOfClass x.2)
  runs : ∀ x ∈ L, Apart (g.base + h * spanBytes) size x.1 (x.2 * spanBytes)
  recorded : s'.large.runSpans.get? (s'.large.spanIndex (g.base + h * spanBytes)) = some (spanCount size)
  entries : ∀ k, s'.spans.entry k ≠ s.spans.entry k → h ≤ k ∧ k < h + spanCount size

theorem Ledger.run_granted (ledger : s.Ledger trust g role H L W)
    (whole : s.clipped = false) (small : spanCount size < 2 ^ 32)
    (bound : size + (spanBytes - 1) < 2 ^ 64)
    (reserved : Reserved g s s₁ role h (spanCount size)) :
    Run g s (s₁.granted size h (spanCount size) (g.base + h * spanBytes)) H L size h := by
  have kept := ledger.granted reserved bound fun _ => rfl
  have fits := reserved.fits
  have pos := reserved.pos
  have room := size_le_runs size
  have whole' : (s₁.granted size h (spanCount size) (g.base + h * spanBytes)).clipped = false := by
    rw [SubHeap.granted]
    generalize s₁.spans.assignRange _ _ _ _ = tagged
    exact reserved.clipped.trans whole
  refine ⟨?_, fun x held => ?_, fun x held => ?_, ?_, fun k changed => ?_⟩
  · have last : assign role h (spanCount size) (.large h) (h + spanCount size - 1) ≠ .fresh := by
      rw [assign_inside (by omega) (by omega)]
      simp
    have inside := kept.stock.whole whole' _ last
    rw [kept.stock.grid.len, ← ledger.stock.grid.len, Nat.sub_add_cancel (by omega), Nat.add_mul] at inside
    omega
  · have apart := kept.object_run_apart held (Multiset.mem_cons_self ..)
    exact apart.symm.shrink room
  · have both : {(g.base + h * spanBytes, spanCount size), x} ≤
        (g.base + h * spanBytes, spanCount size) ::ₘ L :=
      Multiset.cons_le_cons _ (Multiset.singleton_le.mpr held)
    exact (kept.runs_apart both).shrink room
  · have index := kept.stock.grid.spanIndex h
    rw [index, SubHeap.granted, Slice.get?_inside, Slice.put_cell_same]
    rw [Slice.put_len, reserved.runSpans, ledger.stock.grid.runs]
    omega
  · have tagged := (reserved.tagging ledger.stock.grid bound rfl).1
    rw [SubHeap.granted, reserved.spans, tagged] at changed
    by_contra outside
    exact changed (if_neg fun within => outside ⟨within.1, within.2.1⟩)

/-! ## What a cell has to hand out -/

variable {b b' : SpanBitmaps} {k osz cls sh : Nat}

/-- No slot of the span is free in its bitmaps. -/
def Spent (b : SpanBitmaps) (k slots : Nat) : Prop :=
  ∀ i < slots, b.allocBit k i = false ∧ b.freeBit k i = false

theorem foldFreeWord_zero {w : Nat} (zero : (b.foldFreeWord k w).1 = 0#64) :
    (b.foldFreeWord k w).2 = b ∧ b.allocWords k w = 0#64 ∧ b.freeWords k w = 0#64 := by
  rw [SpanBitmaps.foldFreeWord] at zero ⊢
  split at zero
  · rename_i free
    rw [if_pos free]
    exact ⟨rfl, zero, free⟩
  · rename_i deposited
    exact (deposited (BitVec.or_eq_zero_iff.mp zero).2).elim

/-- A scan with room that finds nothing met no bit and changed nothing. -/
theorem scanWords_nil {left w room : Nat} (some : room ≠ 0)
    (out : scanWords k osz left w room b = ([], b')) :
    b' = b ∧ ∀ i, w * 64 ≤ i → i < (w + left) * 64 →
      b.allocBit k i = false ∧ b.freeBit k i = false := by
  induction left generalizing w with
  | zero =>
      cases out
      exact ⟨rfl, fun i lo hi => by omega⟩
  | succ left ih =>
      rw [scanWords_succ, if_neg some] at out
      split at out
      · rename_i zero
        obtain ⟨same, alloc, free⟩ := foldFreeWord_zero zero
        rw [same] at out
        obtain ⟨rfl, clear⟩ := ih out
        refine ⟨rfl, fun i lo hi => ?_⟩
        by_cases here : i < (w + 1) * 64
        · have word : i / 64 = w := by omega
          rw [SpanBitmaps.allocBit, SpanBitmaps.freeBit, bitAt, bitAt, word, alloc, free]
          simp
        · exact clear i (by omega) (by omega)
      · rename_i set
        obtain ⟨nothing, -⟩ := Prod.mk.inj out
        rw [List.append_eq_nil_iff, List.map_eq_nil_iff] at nothing
        obtain ⟨room, rfl⟩ := Nat.exists_eq_succ_of_ne_zero some
        rw [Word.lowest, if_neg set] at nothing
        cases nothing.1

/-- So did a walk of the list. -/
theorem takeFrom_nil {hint nwords steps span room : Nat} {nodes seen : List Nat} (some : room ≠ 0)
    (walk : Chain b.nextActive span nodes noSpan) (outside : noSpan ∉ nodes)
    (enough : nodes.length ≤ steps)
    (out : takeFrom hint nwords osz steps span room b = ([], seen, b')) :
    b' = b ∧ ∀ h ∈ nodes, h ≠ hint → Spent b h (nwords * 64) := by
  induction steps generalizing span nodes seen with
  | zero =>
      cases List.eq_nil_of_length_eq_zero (Nat.le_zero.mp enough)
      cases out
      exact ⟨rfl, nofun⟩
  | succ steps ih =>
      rw [takeFrom_succ] at out
      cases nodes with
      | nil =>
          rw [if_pos (.inr walk)] at out
          cases out
          exact ⟨rfl, nofun⟩
      | cons node rest =>
          obtain ⟨rfl, tail⟩ := walk
          rw [List.mem_cons, not_or] at outside
          rw [if_neg (not_or.mpr ⟨some, fun stop => outside.1 stop.symm⟩)] at out
          split at out
          · rename_i first
            obtain ⟨same, clear⟩ := ih tail outside.2 (Nat.le_of_succ_le_succ enough) out
            refine ⟨same, List.forall_mem_cons.mpr ⟨fun other => (other first).elim, clear⟩⟩
          · obtain ⟨⟨objs, b₁⟩, scan⟩ : ∃ scan, scanSpan span room nwords osz b = scan := ⟨_, rfl⟩
            rw [scan] at out
            obtain ⟨⟨later, visited, b₂⟩, walked⟩ : ∃ walked, takeFrom hint nwords osz steps
                (b₁.next span) (room - objs.length) b₁ = walked := ⟨_, rfl⟩
            simp only [walked, Prod.mk.injEq, List.append_eq_nil_iff] at out
            obtain ⟨⟨rfl, rfl⟩, -, rfl⟩ := out
            obtain ⟨rfl, clear⟩ := scanWords_nil some scan
            obtain ⟨same, others⟩ := ih tail outside.2 (Nat.le_of_succ_le_succ enough) walked
            refine ⟨same, List.forall_mem_cons.mpr ⟨fun _ i low => ?_, others⟩⟩
            exact clear i (Nat.zero_le _) (by omega)

/-- A walk of spans without bits finds nothing. -/
theorem takeFrom_clear {nodes : List Nat} (hint nwords osz steps room : Nat) {span : Nat}
    (walk : Chain b.nextActive span nodes noSpan)
    (clear : ∀ h ∈ nodes, ∀ i, b.allocBit h i = false ∧ b.freeBit h i = false) :
    (takeFrom hint nwords osz steps span room b).1 = [] := by
  induction steps generalizing span nodes with
  | zero => rfl
  | succ steps ih =>
      rw [takeFrom_succ]
      cases nodes with
      | nil => rw [if_pos (.inr walk)]
      | cons node rest =>
          obtain ⟨rfl, tail⟩ := walk
          obtain ⟨first, others⟩ := List.forall_mem_cons.mp clear
          have next := ih tail others
          split
          · rfl
          · split
            · exact next
            · rw [scanSpan, scanWords_clear osz nwords 0 room first]
              exact next

/-- The list of a cell is no longer than the arena. -/
theorem Ledger.list_length (ledger : s.Ledger trust g role H L W) {nodes : List Nat}
    (distinct : nodes.Nodup) (active : ∀ h ∈ nodes, role h = .active h cls sh) :
    nodes.length ≤ s.spans.numSpans ∧ noSpan ∉ nodes := by
  have inside : ∀ h ∈ nodes, h < s.spans.numSpans :=
    fun h member => ledger.cells.inside (active h member)
  constructor
  · have := (List.toFinset_card_of_nodup distinct).symm.trans_le
      (Finset.card_le_card (t := Finset.range s.spans.numSpans) fun h member =>
        Finset.mem_range.mpr (inside h (List.mem_toFinset.mp member)))
    rwa [Finset.card_range] at this
  · intro member
    have := inside noSpan member
    have := ledger.stock.grid.small
    unfold noSpan at *
    omega

theorem Spent.shrink {k n m : Nat} (spent : Spent b k n) (less : m ≤ n) : Spent b k m :=
  fun i low => spent i (lt_of_lt_of_le low less)

theorem slots_le_words (cls : Nat) : slotsPerSpan (sizeOfClass cls) ≤ bitmapWords cls * 64 := by
  unfold bitmapWords
  omega

/-- Nothing can be taken from a cell exactly when every slot on its list is spent. -/
theorem Ledger.taken_nil (ledger : s.Ledger trust g role H L W) (settled : ∀ k, role k ≠ .claimed)
    (isClass : IsClass cls) (inside : sh < s.numShards)
    (single : ∀ k h c sh', role k = .active h c sh' → sh' = sh) {room : Nat} (some : room ≠ 0) :
    (s.taken sh cls room).1 = [] ↔
      ∀ k, role k = .active k cls sh → Spent s.bitmaps k (slotsPerSpan (sizeOfClass cls)) := by
  obtain ⟨nodes, walk, distinct, members⟩ := ledger.cells.lists sh cls inside
  obtain ⟨short, outside⟩ := ledger.list_length distinct fun h => (members h).mp
  have words := slots_le_words cls
  have all : (∀ k, role k = .active k cls sh → Spent s.bitmaps k (slotsPerSpan (sizeOfClass cls))) →
      ∀ k, role k = .active k cls sh →
        ∀ i, s.bitmaps.allocBit k i = false ∧ s.bitmaps.freeBit k i = false := by
    intro spent k active i
    have none : ¬ (s.bitmaps.allocBit k i = true ∨ s.bitmaps.freeBit k i = true) := by
      intro set
      obtain ⟨c, sh', head, low⟩ := ledger.slots.bits k i set
      rw [active] at head
      cases head
      have := spent k active i low
      simp [this] at set
    simpa only [not_or, Bool.not_eq_true] using none
  cases valid : s.validHint sh cls with
  | true =>
      obtain ⟨⟨first, b₁⟩, scan⟩ : ∃ scan, scanSpan (s.reuseHint sh cls) room (bitmapWords cls)
          (sizeOfClass cls) s.bitmaps = scan := ⟨_, rfl⟩
      obtain ⟨⟨rest, seen, b₂⟩, walked⟩ : ∃ walked, takeFrom (s.reuseHint sh cls)
          (bitmapWords cls) (sizeOfClass cls) (s.spans.numSpans + 1) (s.head sh cls)
          (room - first.length) b₁ = walked := ⟨_, rfl⟩
      rw [taken_hint valid scan walked]
      constructor
      · intro nothing
        obtain ⟨rfl, rfl⟩ := List.append_eq_nil_iff.mp nothing
        obtain ⟨rfl, clear⟩ := scanWords_nil some scan
        obtain ⟨-, others⟩ := takeFrom_nil some walk outside (by omega) walked
        intro k active
        by_cases hinted : k = s.reuseHint sh cls
        · intro i low
          exact hinted ▸ clear i (Nat.zero_le _) (by omega)
        · exact (others k ((members k).mpr active) hinted).shrink words
      · intro spent
        simp only [validHint, Bool.and_eq_true, Option.any_eq_true, decide_eq_true_eq] at valid
        obtain ⟨-, ⟨c, home⟩, found, same⟩ := valid
        simp only at same
        subst same
        obtain ⟨h, sh', hinted⟩ := ledger.cells.label_class ledger.stock.grid settled isClass found
        obtain rfl := single _ _ _ _ hinted
        have clear : ∀ i, s.bitmaps.allocBit (s.reuseHint sh' c) i = false ∧
            s.bitmaps.freeBit (s.reuseHint sh' c) i = false := by
          by_cases head : h = s.reuseHint sh' c
          · rw [head] at hinted
            exact all spent _ hinted
          · exact Cells.clear_of_member ledger.slots hinted head
        rw [scanSpan, scanWords_clear _ _ _ _ clear] at scan
        cases scan
        have nothing := takeFrom_clear (s.reuseHint sh' c) (bitmapWords c) (sizeOfClass c)
          (s.spans.numSpans + 1) (room - 0) walk fun h member => all spent h ((members h).mp member)
        rw [List.length_nil] at walked
        rw [walked] at nothing
        exact nothing
  | false =>
      obtain ⟨⟨objs, seen, b⟩, walked⟩ : ∃ walked, takeFrom noSpan (bitmapWords cls)
          (sizeOfClass cls) (s.spans.numSpans + 1) (s.head sh cls) room s.bitmaps = walked := ⟨_, rfl⟩
      rw [taken_list valid walked]
      constructor
      · intro nothing
        simp only at nothing
        subst nothing
        obtain ⟨-, others⟩ := takeFrom_nil some walk outside (by omega) walked
        intro k active
        have listed := (members k).mpr active
        exact (others k listed fun stop => outside (stop ▸ listed)).shrink words
      · intro spent
        have nothing := takeFrom_clear noSpan (bitmapWords cls) (sizeOfClass cls)
          (s.spans.numSpans + 1) room walk fun h member => all spent h ((members h).mp member)
        rw [walked] at nothing
        exact nothing

/-! ## When no object comes back -/

variable {myShard : Nat} {E : SubHeap → Prop}

theorem batchFor_pos (cls : Nat) : 0 < batchFor cls := by
  unfold batchFor
  dsimp only
  split_ifs <;> decide

/-- Every slot of the class is spent, the pool has no run for a carve and the cursor no
    whole span. -/
structure Dry (s : SubHeap) (role : Nat → Role) (cls sh : Nat) : Prop where
  spent : ∀ k, role k = .active k cls sh → Spent s.bitmaps k (slotsPerSpan (sizeOfClass cls))
  barren : s.Barren role (carveWant cls (batchFor cls))
  drained : s.Drained

/-- A refill with one shard in use comes back empty exactly when its cell is dry. -/
theorem takeOrCarve_nil (ledger : s.Ledger trust g role H L W) (settled : ∀ k, role k ≠ .claimed)
    (isClass : IsClass cls) (allowed : Allowed trust g myShard)
    (single : ∀ k, g.uses k → k = myShard % g.shards) :
    Triple (· = s) (takeOrCarve .alone cls myShard)
      (fun objs _ => objs = [] ↔ s.Dry role cls (myShard % g.shards)) E := by
  have numShards := ledger.stock.grid.numShards
  have inside : myShard % g.shards < s.numShards := by
    rw [numShards]
    exact Nat.mod_lt _ (numShards ▸ ledger.stock.grid.shards)
  have some : min (batchFor cls) 64 ≠ 0 := by
    have := batchFor_pos cls
    omega
  have one : ∀ {s : SubHeap} {role : Nat → Role} {H : Multiset (Nat × Nat)},
      s.Ledger trust g role H L W → ∀ k h c sh, role k = .active h c sh → sh = myShard % g.shards :=
    fun ledger k h c sh active => single sh (ledger.used k h c sh active)
  refine Triple.inspect fun s' same => ?_
  rw [same, numShards]
  refine Triple.bind (Q := fun got s' =>
    (got, s') = s.taken (myShard % g.shards) cls (min (batchFor cls) 64)) (Triple.apply ?_) fun got => ?_
  · rintro _ rfl
    rfl
  refine Triple.pin fun s₁ out => ?_
  have nil := ledger.taken_nil settled isClass inside (one ledger) some
  have ledger₁ := ledger.taken settled isClass inside (min (batchFor cls) 64)
  have frame := s.taken_frame (myShard % g.shards) cls (min (batchFor cls) 64)
  rw [← out] at nil ledger₁ frame
  obtain ⟨large, arena⟩ : s₁.large = s.large ∧ s₁.arena = s.arena := by
    obtain ⟨b, scans, rfl⟩ := frame
    exact ⟨rfl, rfl⟩
  refine Triple.ite (fun empty => ?_) (fun more => Triple.ret _ fun _ _ => ?_)
  · have spent := nil.mp empty
    rw [empty, ofClass_nil, Multiset.zero_add] at ledger₁
    refine Triple.bind (centralCarve_spec ledger₁ settled isClass allowed.uses allowed.back
      (carveWant_small cls isClass.lt isClass.pos)) fun count => ?_
    refine Triple.ite (fun zero => Triple.ret _ ?_) (fun carved => Triple.apply ?_)
    · rintro s₂ (⟨-, -, barren, drained⟩ | ⟨pos, -⟩)
      · have barren := barren rfl
        rw [Barren, large] at barren
        rw [Drained, arena] at drained
        exact ⟨fun _ => ⟨spent, barren, drained⟩, fun _ => rfl⟩
      · omega
    · rintro s₂ (⟨zero, -⟩ | ⟨-, stuck, role₂, ledger₂, settled₂, h, active, set⟩)
      · exact (carved zero).elim
      · have inside₂ : myShard % g.shards < s₂.numShards := by
          rw [ledger₂.stock.grid.numShards, ← numShards]
          exact numShards ▸ inside
        have nil₂ := ledger₂.taken_nil settled₂ isClass inside₂ (one ledger₂) some
        constructor
        · intro nothing
          have := nil₂.mp nothing h active 0 (Nat.lt_of_lt_of_le one_pos (le_max_right ..))
          rw [set] at this
          cases this.1
        · intro dry
          refine (stuck ⟨?_, ?_⟩).elim
          · rw [Barren, large]
            exact dry.barren
          · rw [Drained, arena]
            exact dry.drained
  · exact ⟨fun nothing => (more nothing).elim, fun dry => nil.mpr dry.spent⟩

/-- The stack of a CPU is empty and no slot of the class is free in a bitmap. -/
structure OutOfSlots (s : SubHeap) (cpu cls : Nat) : Prop where
  cached : (s.slab.stack cpu cls).slots = []
  spent : ∀ sh k, sh < s.numShards → s.OnList sh cls k →
    Spent s.bitmaps k (slotsPerSpan (sizeOfClass cls))

/-- The pool records a free run of at least `n` spans. -/
def HasRun (s : SubHeap) (n : Nat) : Prop :=
  ∃ h m, s.large.pool.Recorded (max s.spans.numSpans 1) h m ∧ n ≤ m

/-- Whole spans beyond the cursor. -/
def wholeSpans (s : SubHeap) : Nat := (s.arena.limit - s.arena.cursor) / spanBytes

/-- The spans one object needs. -/
def spansNeeded (cls : Nat) : Nat := (sizeOfClass cls + (spanBytes - 1)) / spanBytes

/-- No object of the class can be placed. -/
structure Exhausted (s : SubHeap) (cpu cls : Nat) : Prop where
  slots : s.OutOfSlots cpu cls
  pool : ¬ s.HasRun (spansNeeded cls)
  cursor : s.wholeSpans < spansNeeded cls

/-- A carve gets nothing from the pool when nobody may lock it any more, or it has no run
    that long. -/
theorem Ledger.barren_iff (ledger : s.Ledger trust g role H L W) (n : Nat) :
    s.Barren role n ↔ (s.large.poisoned = true ∨ ¬ s.HasRun n) := by
  cases clear : s.large.poisoned with
  | true => simp only [Barren, clear, true_or]
  | false =>
      have pool := ledger.stock.pool clear
      simp only [Barren, clear, Bool.false_eq_true, false_or]
      constructor
      · rintro few ⟨h, m, recorded, enough⟩
        have := few h m ((pool.recorded h m).mp recorded)
        omega
      · intro none h m run
        by_contra enough
        exact none ⟨h, m, (pool.recorded h m).mpr run, Nat.le_of_not_lt enough⟩

theorem refill_none (ledger : s.Ledger trust g role H L W) (settled : ∀ k, role k ≠ .claimed)
    (isClass : IsClass cls) (allowed : Allowed trust g myShard)
    (single : ∀ k, g.uses k → k = myShard % g.shards) :
    Triple (· = s) (refill cls myShard)
      (fun r _ => r = none ↔ s.Dry role cls (myShard % g.shards))
      (fun _ => ¬ s.Dry role cls (myShard % g.shards)) := by
  refine Triple.bind (takeOrCarve_nil ledger settled isClass allowed single) fun objs => ?_
  cases objs with
  | nil =>
      apply Triple.ret
      exact fun _ dry => ⟨fun _ => dry.mp rfl, fun _ => rfl⟩
  | cons p rest =>
      have wet : ∀ s' : SubHeap, (p :: rest = [] ↔ s.Dry role cls (myShard % g.shards)) →
          ¬ s.Dry role cls (myShard % g.shards) := by
        intro _ nil dry
        cases nil.mpr dry
      refine Triple.strengthen (Triple.bind (Triple.const _) fun _ => Triple.ret _ ?_) wet
      intro _ wet
      exact ⟨nofun, fun dry => (wet dry).elim⟩

/-- With one shard in use and a CPU that does not decline, no object comes back exactly
    when its stack is empty and the cell is dry. -/
theorem allocClass_none (ledger : s.Ledger trust g role H L W) (settled : ∀ k, role k ≠ .claimed)
    (isClass : IsClass cls) (allowed : Allowed trust g myShard)
    (single : ∀ k, g.uses k → k = myShard % g.shards) {turn : Turn} (ready : turn.declines = false)
    (env : List Turn) :
    (allocClass cls myShard s (turn :: env)).1 = some none ↔
      (s.slab.stack (resolvedCpu s.slab.numCpus turn.cpu turn.anchor) cls).slots = [] ∧
        s.Dry role cls (myShard % g.shards) := by
  have popped : slabPop cls s (turn :: env) = (some (s.slab.pop cls (some turn)).1,
      { s with slab := (s.slab.pop cls (some turn)).2 }, env) := rfl
  rw [allocClass, Prog.bind_some popped]
  simp only [SlabLayout.pop, ready, Bool.false_eq_true, if_false]
  cases stack : (s.slab.stack (resolvedCpu s.slab.numCpus turn.cpu turn.anchor) cls).slots with
  | nil =>
      have refilled := refill_none ledger settled isClass allowed single s env rfl
      simp only [true_and]
      rcases outcome : refill cls myShard s env with ⟨_ | r, s', env'⟩
      · simp only [outcome] at refilled
        simp [refilled]
      · simp only [outcome] at refilled
        simp [refilled]
  | cons p rest =>
      have cpu := resolvedCpu_lt ledger.stock.grid.cpus turn.cpu turn.anchor
      have slot : IsSlot g role p cls := by
        apply ledger.slots.outside cls p
        rw [SlabLayout.cached_of_pop cpu stack]
        exact .inl (Multiset.mem_cons_self ..)
      simp only [if_neg (ledger.ne_zero slot)]
      simp [pure]

namespace World

variable {w : World} {c : Config}

/-- A large request of fewer than 2^32 spans is granted a run, or changes nothing. -/
theorem large_request (mapped : c.Mapped)
    (reached : ReachedWhole c (fun _ op => spanCount op.size < 2 ^ 32) w)
    (size : Nat) (small : spanCount size < 2 ^ 32) :
    Triple (· = w.sub) (SubHeap.allocLarge size) (fun r s' => (r = none ∧ s' = w.sub) ∨
      ∃ h, r = some (c.arenaBase + h * spanBytes) ∧
        c.arenaBase + h * spanBytes + size ≤ c.arenaBase + c.budgetBytes ∧
        (∀ x ∈ w.objects, Apart (c.arenaBase + h * spanBytes) size x.1 (sizeOfClass x.2)) ∧
        (∀ x ∈ w.runs, Apart (c.arenaBase + h * spanBytes) size x.1 (runBytes x.2)) ∧
        s'.large.runSpans.get? (s'.large.spanIndex (c.arenaBase + h * spanBytes)) =
          some (max ((size + (spanBytes - 1)) / spanBytes) 1) ∧
        ∀ k, s'.spans.entry k ≠ w.sub.spans.entry k → h ≤ k ∧ k < h + spanCount size)
      (fun _ => False) := by
  have bound : size + (spanBytes - 1) < 2 ^ 64 := by
    unfold spanCount spanBytes at *
    omega
  obtain ⟨whole, W, role, ledger, settled⟩ := reached.ledger mapped fun _ _ allowed => allowed
  refine ((allocLarge_spec ledger settled bound fun _ => small).weaken ?_).relax ?_
  · rintro r s' (unchanged | ⟨s₁, h, result, reserved, rfl⟩)
    · exact .inl unchanged
    · rw [wrap32_small small] at reserved ⊢
      obtain ⟨inside, objects, runs, recorded, entries⟩ :=
        ledger.run_granted whole small bound reserved
      rw [ledger.stock.grid.len] at inside
      refine .inr ⟨h, result, inside, objects, fun x held => ?_, recorded, entries⟩
      obtain ⟨_, op, allowed, same⟩ := reached.reached.sizes held
      have apart := runs _ (Multiset.mem_map_of_mem _ held)
      rwa [record_bytes (by rwa [same])] at apart
  · rintro s' ⟨-, poisoned | large⟩
    · rw [ledger.healthy Trust.tags_tagged whole] at poisoned
      cases poisoned
    · omega

/-- The three empty spans of the scattered run go to the pool, and a large run of one of
    them is taken. -/
def rented : World := (scattered.after 0 [] (.reclaimEmptySpans 8)).after 1 [] (.allocLarge 65536)

theorem rented_run : rented.sub.clipped = false ∧
    (scattered.after 0 [] (.reclaimEmptySpans 8)).sub.clipped = false ∧
    rented.objects = {(quarter 3 0, 38)} ∧ rented.runs = {(quarter 0 0, 65536)} ∧
    (SubHeap.allocLarge 100000 rented.sub []).1 = some (some (quarter 1 0)) := by
  decide +kernel

attribute [irreducible] rented

theorem rented_reached : ReachedWhole fiveSpans (fun _ op => spanCount op.size < 2 ^ 32) rented := by
  obtain ⟨whole, whole₁, -⟩ := rented_run
  have reached := scattered_reached (fun _ op => spanCount op.size < 2 ^ 32) fun _ op _ none => by
    rw [none]
    decide
  unfold rented at whole ⊢
  have swept := reached.call 0 [] (.reclaimEmptySpans 8) trivial (by decide) whole₁
  exact swept.call 1 [] (.allocLarge 65536) trivial (by decide) whole

/-- Two pooled spans serve a request between a live run and a live object. -/
theorem large_request_rented : rented.objects = {(quarter 3 0, 38)} ∧
    rented.runs = {(quarter 0 0, 65536)} ∧
    ∃ s', SubHeap.allocLarge 100000 rented.sub [] = (some (some (quarter 1 0)), s', []) ∧
      Apart (quarter 1 0) 100000 (quarter 3 0) (sizeOfClass 38) ∧
      Apart (quarter 1 0) 100000 (quarter 0 0) (runBytes 65536) ∧
      s'.large.runSpans.get? (s'.large.spanIndex (quarter 1 0)) = some 2 := by
  obtain ⟨-, -, object, run, granted⟩ := rented_run
  have request := large_request fiveSpans_mapped rented_reached 100000 (by decide) rented.sub [] rfl
  rcases out : SubHeap.allocLarge 100000 rented.sub [] with ⟨r, s', env⟩
  rw [out] at granted request
  simp only at granted
  subst granted
  simp only [reduceCtorEq, false_and, false_or] at request
  obtain ⟨h, place, -, objects, runs, recorded, -⟩ := request
  rw [← Option.some.inj place] at objects runs recorded
  have rest : env = [] := by
    have same : (SubHeap.allocLarge 100000 rented.sub []).2.2 = env := by rw [out]
    rw [← same]
    decide +kernel
  subst rest
  exact ⟨object, run, s', rfl, objects _ (by rw [object]; exact Multiset.mem_singleton_self _),
    runs _ (by rw [run]; exact Multiset.mem_singleton_self _), recorded⟩

/-- The only span of an arena, allocated as a large run and freed again. -/
@[irreducible] def recycled : World :=
  ((start oneSpan).after 0 [] (.allocLarge 65536)).after 0 [] (.deallocRun oneSpan.arenaBase 65536)

theorem recycled_reached (admitted : Nat → Op → Prop) (first : admitted 0 (.allocLarge 65536))
    (second : admitted 0 (.deallocRun oneSpan.arenaBase 65536)) : Reached oneSpan admitted recycled := by
  have started : Reached oneSpan admitted (start oneSpan) := .start rfl
  have taken := started.call 0 [] (.allocLarge 65536) trivial first
  unfold recycled
  exact taken.call 0 [] (.deallocRun oneSpan.arenaBase 65536) (by decide +kernel) second

/-- A request of 2^32 + 1 spans is granted that one span. -/
theorem large_request_narrowed : oneSpan.Mapped ∧ Reached oneSpan (fun _ _ => True) recycled ∧
    (SubHeap.allocLarge (2 ^ 48 + 1) recycled.sub []).1 = some (some oneSpan.arenaBase) ∧
    ¬ oneSpan.arenaBase + (2 ^ 48 + 1) ≤ oneSpan.arenaBase + oneSpan.budgetBytes ∧
    (SubHeap.allocLarge (2 ^ 48 + 1) recycled.sub []).2.1.large.runSpans.get? 0 = some 1 :=
  ⟨oneSpan_mapped, recycled_reached _ trivial trivial, by decide +kernel, by decide +kernel,
    by decide +kernel⟩

/-- With one thread and a CPU that does not decline, no object comes back exactly when
    no slot is free, no whole span is left and the pool, if its mutex is not poisoned, has
    no run for a whole carve. -/
theorem no_object_iff {thread cls : Nat} (mapped : c.Mapped)
    (reached : Reached c (fun t op => t = thread ∧ op.size + (spanBytes - 1) < 2 ^ 64) w)
    (isClass : IsClass cls) {turn : Turn} (ready : turn.declines = false) (env : List Turn) :
    (SubHeap.allocClass cls thread w.sub (turn :: env)).1 = some none ↔
      w.sub.OutOfSlots (resolvedCpu w.sub.slab.numCpus turn.cpu turn.anchor) cls ∧
        (w.sub.large.poisoned = true ∨ ¬ w.sub.HasRun (carveWant cls (batchFor cls))) ∧
        w.sub.wholeSpans = 0 := by
  have sound : ∀ (t : Nat) (op : Op), (t = thread ∧ op.size + (spanBytes - 1) < 2 ^ 64) →
      Sound .bare (c.geometry (· = thread % c.shards)) t op := by
    rintro t op ⟨rfl, bound⟩
    exact ⟨bound, fun on => (on rfl).elim, rfl, nofun⟩
  obtain ⟨lost, lostRuns, -, W, role, ledger, settled⟩ := reached.tracked mapped sound
  have grid := ledger.stock.grid
  have shards : 0 < c.shards := c.shards_pos
  have inside : thread % c.shards < w.sub.numShards := by
    rw [grid.numShards]
    exact Nat.mod_lt _ shards
  rw [allocClass_none ledger settled isClass ⟨rfl, nofun⟩ (fun _ used => used) ready env,
    ← ledger.barren_iff]
  constructor
  · rintro ⟨cached, spent, barren, drained⟩
    refine ⟨⟨cached, fun sh k low listed => ?_⟩, barren, drained⟩
    have active := (ledger.onList_iff low).mp listed
    obtain rfl := ledger.used k k cls sh active
    exact spent k active
  · rintro ⟨⟨cached, spent⟩, barren, drained⟩
    exact ⟨cached, fun k active => spent _ k inside ((ledger.onList_iff inside).mpr active), barren,
      drained⟩

/-- Exhaustion is honest, but where a free run would do for one object and is out of
    reach: too short for a whole carve, or behind a poisoned mutex. -/
theorem exhaustion_honest_iff {thread cls : Nat} (mapped : c.Mapped)
    (reached : Reached c (fun t op => t = thread ∧ op.size + (spanBytes - 1) < 2 ^ 64) w)
    (isClass : IsClass cls) (turn : Turn) (ready : turn.declines = false) (env : List Turn) :
    ((SubHeap.allocClass cls thread w.sub (turn :: env)).1 = some none →
      w.sub.Exhausted (resolvedCpu w.sub.slab.numCpus turn.cpu turn.anchor) cls) ↔
    ¬ (w.sub.OutOfSlots (resolvedCpu w.sub.slab.numCpus turn.cpu turn.anchor) cls ∧
      w.sub.wholeSpans = 0 ∧
      (w.sub.large.poisoned = true ∨ ¬ w.sub.HasRun (carveWant cls (batchFor cls))) ∧
      w.sub.HasRun (spansNeeded cls)) := by
  have needed : 0 < spansNeeded cls := by
    have := isClass.size_pos
    unfold spansNeeded spanBytes
    omega
  rw [no_object_iff mapped reached isClass ready env]
  constructor
  · rintro honest ⟨slots, drained, barren, run⟩
    exact (honest ⟨slots, barren, drained⟩).pool run
  · rintro fine ⟨slots, barren, drained⟩
    exact ⟨slots, fun run => fine ⟨slots, drained, barren, run⟩, drained ▸ needed⟩

/-- Five objects of 64 KiB out of the five spans. -/
def handedOut : World := (start fiveSpans).after 0 [] (.refillBatch 44 5)

theorem handedOut_run : handedOut.objects.card = 5 ∧
    (SubHeap.allocClass 44 0 handedOut.sub [⟨0, 0, false⟩]).1 = some none ∧
    max handedOut.sub.spans.numSpans 1 = 5 ∧
    ∀ h < 5, handedOut.sub.large.pool.headCount.cell h = 0 := by
  decide +kernel

attribute [irreducible] handedOut

/-- No sixth object comes, and there is none. -/
theorem exhaustion_honest_handed_out : handedOut.objects.card = 5 ∧
    (SubHeap.allocClass 44 0 handedOut.sub [⟨0, 0, false⟩]).1 = some none ∧
    handedOut.sub.Exhausted (resolvedCpu handedOut.sub.slab.numCpus 0 0) 44 := by
  obtain ⟨held, refused, spans, unpooled⟩ := handedOut_run
  have started : Reached fiveSpans (fun t op => t = 0 ∧ op.size + (spanBytes - 1) < 2 ^ 64)
      (start fiveSpans) := .start rfl
  have reached := started.call 0 [] (.refillBatch 44 5) ⟨by decide, by decide⟩ ⟨rfl, by decide⟩
  have noRun : ¬ handedOut.sub.HasRun (spansNeeded 44) := by
    rintro ⟨h, m, ⟨inside, pos, head⟩, -⟩
    rw [spans] at inside
    have := unpooled h inside
    omega
  refine ⟨held, refused, (exhaustion_honest_iff fiveSpans_mapped ?_ (by decide) ⟨0, 0, false⟩ rfl
    []).mpr (fun condition => noRun condition.2.2.2) refused⟩
  unfold handedOut
  exact reached

/-- The only span is free in the pool, and two objects of 32 KiB would fit it. -/
theorem exhaustion_dishonest : oneSpan.Mapped ∧
    Reached oneSpan (fun t op => t = 0 ∧ op.size + (spanBytes - 1) < 2 ^ 64) recycled ∧
    (SubHeap.allocClass 42 0 recycled.sub [⟨0, 0, false⟩]).1 = some none ∧
    recycled.sub.HasRun (spansNeeded 42) := by
  refine ⟨oneSpan_mapped, recycled_reached _ ⟨rfl, by decide +kernel⟩ ⟨rfl, by decide +kernel⟩,
    by decide +kernel, 0, 1, ⟨by decide +kernel, by decide, by decide +kernel⟩, by decide⟩

end World

end SubHeap

end Toccata
