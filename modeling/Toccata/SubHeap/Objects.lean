import Toccata.SubHeap.Ownership

/-! # Objects between stacks, bitmaps and hands

None of these operations changes who owns a span. Each moves objects from one place
to another, and `Slots` is kept because what one place loses another gains.
-/

namespace Toccata

open Foundations SizeClass

namespace SubHeap

variable {trust : Trust} {g : Geometry} {s s' : SubHeap} {role role' : Nat → Role}
  {H H' L L' : Multiset (Nat × Nat)} {W W' : List (Nat × Nat)}

/-- What stays when only bits and stacks change. -/
structure Still (s s' : SubHeap) : Prop where
  head : s'.head = s.head
  numShards : s'.numShards = s.numShards
  arena : s'.arena = s.arena
  spans : s'.spans = s.spans
  large : s'.large = s.large
  clipped : s'.clipped = s.clipped
  cpus : s'.slab.numCpus = s.slab.numCpus
  classes : s'.slab.slotsOffs = s.slab.slotsOffs
  slab : s.slab.Apart → s'.slab.Apart
  links : SpanBitmaps.SameLinks s.bitmaps s'.bitmaps

/-- Only bits change. -/
theorem Still.bits {b : SpanBitmaps} (links : SpanBitmaps.SameLinks s.bitmaps b) :
    Still s { s with bitmaps := b } :=
  ⟨rfl, rfl, rfl, rfl, rfl, rfl, rfl, rfl, id, links⟩

theorem Stock.still (stock : s.Stock g role) (still : Still s s') : s'.Stock g role := by
  obtain ⟨grid, cursor, stocked, pool, whole, carved⟩ := stock
  obtain ⟨a, b, t, l, len, limit, nonNull, mapped, numShards, shards, numCpus, cpus, classes, slab, runs⟩ :=
    grid
  refine ⟨⟨?_, ?_, ?_, ?_, ?_, ?_, nonNull, ?_, ?_, ?_, ?_, ?_, ?_, still.slab slab, ?_⟩,
    ?_, ?_, ?_, ?_, ?_⟩ <;>
    simp only [still.arena, still.spans, still.large, still.clipped, still.numShards, still.cpus,
      still.classes, still.links.base] <;> assumption

theorem Cells.still (cells : s.Cells trust role) (still : Still s s') : s'.Cells trust role := by
  obtain ⟨groups, entries, labels, lists, linked, runs, large⟩ := cells
  refine ⟨?_, ?_, ?_, ?_, ?_, ?_, ?_⟩ <;>
    simp only [Labelled, Tagged, still.head, still.numShards, still.spans, still.large,
      still.links.nextActive, still.links.onList] at * <;> assumption

theorem Ledger.still (ledger : s.Ledger trust g role H L W) (still : Still s s')
    (slots : s'.Slots g role H') : s'.Ledger trust g role H' L W where
  stock := ledger.stock.still still
  cells := ledger.cells.still still
  slots := slots
  larges := by
    obtain ⟨distinct, recorded⟩ := ledger.larges
    refine ⟨distinct, ?_⟩
    simpa only [still.large] using recorded
  loose := ledger.loose
  used := ledger.used
  healthy := by
    simpa only [still.large, still.clipped] using ledger.healthy

/-! ## Addresses -/

theorem slotAddr_inj {k k' i i' c : Nat} (cls : IsClass c)
    (slot : i < slotsPerSpan (sizeOfClass c)) (slot' : i' < slotsPerSpan (sizeOfClass c))
    (same : g.slotAddr k i c = g.slotAddr k' i' c) : k = k' ∧ i = i' := by
  have low := offset_lt cls.size_pos slot
  have low' := offset_lt cls.size_pos slot'
  simp only [Geometry.slotAddr, spanBytes] at same low low'
  have span : k = k' := by omega
  subst span
  refine ⟨rfl, Nat.eq_of_mul_eq_mul_right cls.size_pos ?_⟩
  omega

theorem Cells.isClass (cells : s.Cells trust role) {k h c sh : Nat}
    (active : role k = .active h c sh) : IsClass c := (cells.groups k h c sh active).1

theorem Cells.inside (cells : s.Cells trust role) {k h c sh : Nat}
    (active : role k = .active h c sh) : h < s.spans.numSpans := (cells.groups k h c sh active).2.2.1

/-- Where the code looks for the bit of an object. -/
theorem Ledger.locate (ledger : s.Ledger trust g role H L W) {k c sh i : Nat}
    (active : role k = .active k c sh) (slot : i < slotsPerSpan (sizeOfClass c)) :
    s.bitmaps.spanOf (g.slotAddr k i c) = k ∧
      (g.slotAddr k i c - s.bitmaps.spanBase k) / sizeOfClass c = i := by
  have cls := ledger.cells.isClass active
  refine ⟨ledger.stock.grid.spanOf (ledger.cells.inside active) (offset_lt cls.size_pos slot), ?_⟩
  rw [ledger.stock.grid.spanBase, Geometry.slotAddr, Nat.add_sub_cancel_left, Nat.mul_div_cancel _ cls.size_pos]

/-- Objects of one bitmap word. -/
def Geometry.wordSlots (g : Geometry) (k w c : Nat) (bits : List Nat) : Multiset (Nat × Nat) :=
  (bits.map fun b => (g.slotAddr k (w * 64 + b) c, c) : List (Nat × Nat))

theorem mem_wordSlots {k w c : Nat} {bits : List Nat} {x : Nat × Nat} :
    x ∈ g.wordSlots k w c bits ↔ ∃ b ∈ bits, x = (g.slotAddr k (w * 64 + b) c, c) := by
  simp only [Geometry.wordSlots, Multiset.mem_coe, List.mem_map, eq_comm]

theorem count_wordSlots (g : Geometry) (k w k' : Nat) {c i : Nat} {bits : List Nat} (cls : IsClass c)
    (distinct : bits.Nodup)
    (low : ∀ b ∈ bits, b < 64) (inside : ∀ b ∈ bits, w * 64 + b < slotsPerSpan (sizeOfClass c))
    (slot : i < slotsPerSpan (sizeOfClass c)) :
    (g.wordSlots k w c bits).count (g.slotAddr k' i c, c) =
      (decide (k' = k ∧ i / 64 = w) && decide (i % 64 ∈ bits)).toNat := by
  induction bits with
  | nil => simp [Geometry.wordSlots]
  | cons b rest ih =>
      obtain ⟨outside, distinct⟩ := List.nodup_cons.mp distinct
      have below := low b List.mem_cons_self
      have step := ih distinct (fun b member => low b (List.mem_cons_of_mem _ member))
        fun b member => inside b (List.mem_cons_of_mem _ member)
      have first : g.wordSlots k w c (b :: rest) =
          (g.slotAddr k (w * 64 + b) c, c) ::ₘ g.wordSlots k w c rest := rfl
      rw [first, Multiset.count_cons, step]
      by_cases here : k' = k ∧ i / 64 = w ∧ i % 64 = b
      · obtain ⟨rfl, rfl, rfl⟩ := here
        have index : i / 64 * 64 + i % 64 = i := by omega
        simp [index, outside]
      · have different : (g.slotAddr k' i c, c) ≠ (g.slotAddr k (w * 64 + b) c, c) := by
          intro same
          obtain ⟨rfl, rfl⟩ := slotAddr_inj cls slot (inside b List.mem_cons_self) (Prod.mk.inj same).1
          exact here ⟨rfl, by omega, by omega⟩
        rw [if_neg different, Nat.add_zero]
        congr 1
        by_cases word : k' = k ∧ i / 64 = w
        · have other : i % 64 ≠ b := fun same => here ⟨word.1, word.2, same⟩
          simp [word, other]
        · simp [word]

/-- Objects of another class are not counted. -/
theorem count_wordSlots_other (g : Geometry) (k w p : Nat) (bits : List Nat) {c c' : Nat}
    (different : c' ≠ c) :
    (g.wordSlots k w c bits).count (p, c') = 0 := by
  rw [Multiset.count_eq_zero]
  intro member
  obtain ⟨b, -, same⟩ := mem_wordSlots.mp member
  exact different (Prod.mk.inj same).2

/-! ## Stacks -/

/-- Objects change between the stacks and the hands outside. -/
theorem Slots.swap (slots : s.Slots g role H) (bits : s'.bitmaps = s.bitmaps)
    (balance : ∀ c p, (s'.slab.cached c).count p + H'.count (p, c) =
      (s.slab.cached c).count p + H.count (p, c)) : s'.Slots g role H' where
  once k c sh i active slot := by
    have before := slots.once k c sh i active slot
    have := balance c (g.slotAddr k i c)
    rw [bits]
    omega
  bits := by
    rw [bits]
    exact slots.bits
  outside c p member := by
    apply slots.outside
    have := balance c p
    simp only [← Multiset.count_pos] at member ⊢
    omega

theorem Slots.pop (slots : s.Slots g role H) {cpu cls p : Nat} {rest : List Nat}
    (inside : cpu < s.slab.numCpus) (top : (s.slab.stack cpu cls).slots = p :: rest) :
    Slots g { s with slab := s.slab.put cpu cls { s.slab.stack cpu cls with slots := rest } } role
      ((p, cls) ::ₘ H) := by
  refine slots.swap rfl ?_
  intro c q
  simp only [Multiset.count_cons, Prod.mk.injEq]
  by_cases same : c = cls
  · subst same
    rw [SlabLayout.cached_of_pop inside top, Multiset.count_cons]
    simp only [and_true]
    omega
  · rw [SlabLayout.put_cached_other same]
    simp [same]

theorem Slots.push {cpu cls p : Nat} (slots : s.Slots g role ((p, cls) ::ₘ H))
    (inside : cpu < s.slab.numCpus) :
    Slots g { s with slab := (s.slab.put cpu cls { s.slab.stack cpu cls with
      slots := p :: (s.slab.stack cpu cls).slots }) } role H := by
  refine slots.swap rfl ?_
  intro c q
  simp only [Multiset.count_cons, Prod.mk.injEq]
  by_cases same : c = cls
  · subst same
    rw [SlabLayout.cached_of_push p inside, Multiset.count_cons]
    simp only [and_true]
    omega
  · rw [SlabLayout.put_cached_other same]
    simp [same]

/-- Only a stack changes. -/
theorem Still.stacks {cpu cls : Nat} {slots : List Nat}
    (apart : s.slab.Apart → (s.slab.put cpu cls { s.slab.stack cpu cls with slots }).Apart) :
    Still s { s with slab := s.slab.put cpu cls { s.slab.stack cpu cls with slots } } :=
  ⟨rfl, rfl, rfl, rfl, rfl, rfl, rfl, rfl, apart, SpanBitmaps.SameLinks.refl _⟩

theorem Ledger.pop (ledger : s.Ledger trust g role H L W) {cpu cls p : Nat} {rest : List Nat}
    (inside : cpu < s.slab.numCpus) (top : (s.slab.stack cpu cls).slots = p :: rest) :
    Ledger trust g
      { s with slab := s.slab.put cpu cls { s.slab.stack cpu cls with slots := rest } } role
      ((p, cls) ::ₘ H) L W :=
  ledger.still (Still.stacks fun apart => apart.pop top) (ledger.slots.pop inside top)

/-- No object is at address zero. -/
theorem Ledger.ne_zero (ledger : s.Ledger trust g role H L W) {p c : Nat}
    (slot : IsSlot g role p c) : p ≠ 0 := by
  obtain ⟨k, sh, i, -, -, rfl⟩ := slot
  have := ledger.stock.grid.nonNull
  unfold Geometry.slotAddr
  omega

/-! ## Bitmaps -/

/-- A mask of deposits: the objects of its bits leave the hands that freed them. -/
theorem Ledger.setMask {k c sh w : Nat} (bits : List Nat)
    (ledger : s.Ledger trust g role (g.wordSlots k w c bits + H) L W)
    (active : role k = .active k c sh) (distinct : bits.Nodup) (low : ∀ b ∈ bits, b < 64)
    (inside : ∀ b ∈ bits, w * 64 + b < slotsPerSpan (sizeOfClass c)) {mask : Word}
    (masked : ∀ b, mask.getLsbD b = decide (b ∈ bits)) :
    Ledger trust g { s with bitmaps := s.bitmaps.setMask k w mask } role H L W := by
  refine ledger.still (Still.bits ⟨rfl, rfl, rfl⟩) ⟨fun k' c' sh' i active' slot => ?_,
    fun k' i set => ?_, fun c' p member => ?_⟩
  · have before := ledger.slots.once k' c' sh' i active' slot
    have cls := ledger.cells.isClass active
    rw [Multiset.count_add] at before
    simp only [Geometry.slotAddr, SpanBitmaps.setMask_freeBit, masked]
    simp only [Geometry.slotAddr] at before
    have sameAlloc : (s.bitmaps.setMask k w mask).allocBit k' i = s.bitmaps.allocBit k' i := rfl
    rw [sameAlloc]
    by_cases same : c' = c
    · subst same
      have gone := count_wordSlots g k w k' cls distinct low inside slot
      simp only [Geometry.slotAddr] at gone
      rw [gone] at before
      rw [toNat_or (by omega)]
      omega
    · have other : k' ≠ k := by
        rintro rfl
        rw [active] at active'
        cases active'
        exact same rfl
      have gone := count_wordSlots_other g k w (g.base + k' * spanBytes + i * sizeOfClass c') bits
        same
      simp only [other, false_and, decide_false, Bool.false_and, Bool.or_false]
      omega
  · rw [SpanBitmaps.setMask_freeBit] at set
    rcases set with alloc | free
    · exact ledger.slots.bits k' i (.inl alloc)
    · rcases Bool.or_eq_true .. ▸ free with old | new
      · exact ledger.slots.bits k' i (.inr old)
      · obtain ⟨here, bit⟩ := Bool.and_eq_true .. ▸ new
        obtain ⟨rfl, rfl⟩ := of_decide_eq_true here
        rw [masked, decide_eq_true_eq] at bit
        have := inside _ bit
        exact ⟨c, sh, active, by omega⟩
  · exact ledger.slots.outside c' p (member.imp_right (Multiset.mem_add.mpr ∘ .inr))

/-- Deposits moved to the owner's side stay free. -/
theorem Ledger.moved {m : Nat → Nat → Bool} {b : SpanBitmaps}
    (ledger : s.Ledger trust g role H L W) (moved : SpanBitmaps.Moved m s.bitmaps b) :
    Ledger trust g { s with bitmaps := b } role H L W := by
  refine ledger.still (Still.bits moved.links) ⟨fun k c sh i active slot => ?_, fun k i set => ?_,
    ledger.slots.outside⟩
  · have before := ledger.slots.once k c sh i active slot
    simp only [moved.alloc, moved.free]
    cases m k i with
    | true =>
        rw [Bool.true_and, Bool.not_true, Bool.and_false, toNat_or (by omega)]
        simpa using before
    | false => simpa using before
  · simp only [moved.alloc, moved.free, Bool.or_eq_true, Bool.and_eq_true] at set
    rcases set with (old | moved) | kept
    · exact ledger.slots.bits k i (.inl old)
    · exact ledger.slots.bits k i (.inr moved.2)
    · exact ledger.slots.bits k i (.inr kept.1)

/-- Bits of one word handed out. -/
theorem Ledger.take (ledger : s.Ledger trust g role H L W) {k c sh w : Nat} {bits : List Nat}
    (active : role k = .active k c sh) (distinct : bits.Nodup)
    (set : ∀ b ∈ bits, b < 64 ∧ (s.bitmaps.allocWords k w).getLsbD b = true) :
    Ledger trust g { s with bitmaps := s.bitmaps.allocClear k w (Word.maskOf bits) } role
      (g.wordSlots k w c bits + H) L W := by
  have low : ∀ b ∈ bits, b < 64 := fun b member => (set b member).1
  have alloc : ∀ b ∈ bits, s.bitmaps.allocBit k (w * 64 + b) = true := by
    intro b member
    rw [SpanBitmaps.allocBit, bitAt_word (low b member)]
    exact (set b member).2
  have inside : ∀ b ∈ bits, w * 64 + b < slotsPerSpan (sizeOfClass c) := by
    intro b member
    obtain ⟨c', sh', active', slot⟩ := ledger.slots.bits k _ (.inl (alloc b member))
    rw [active] at active'
    cases active'
    exact slot
  refine ledger.still (Still.bits ⟨rfl, rfl, rfl⟩) ⟨fun k' c' sh' i active' slot => ?_,
    fun k' i bit => ?_, fun c' p member => ?_⟩
  · have before := ledger.slots.once k' c' sh' i active' slot
    have cls := ledger.cells.isClass active
    rw [Multiset.count_add]
    simp only [SpanBitmaps.allocClear_allocBit, Word.getLsbD_maskOf]
    simp only [Geometry.slotAddr] at before ⊢
    have sameFree : (s.bitmaps.allocClear k w (Word.maskOf bits)).freeBit k' i =
        s.bitmaps.freeBit k' i := rfl
    rw [sameFree]
    by_cases same : c' = c
    · subst same
      have gained := count_wordSlots g k w k' cls distinct low inside slot
      simp only [Geometry.slotAddr] at gained
      have within : (decide (k' = k ∧ i / 64 = w) && decide (i % 64 ∈ bits)) = true →
          s.bitmaps.allocBit k' i = true := by
        intro here
        rw [Bool.and_eq_true, decide_eq_true_eq, decide_eq_true_eq] at here
        obtain ⟨⟨rfl, rfl⟩, member⟩ := here
        have := alloc _ member
        rwa [show i / 64 * 64 + i % 64 = i by omega] at this
      have cleared := toNat_and_not within
      rw [gained, decide_eq_decide.mpr (and_iff_left (Nat.mod_lt i (by decide : 0 < 64)))]
      omega
    · have other : k' ≠ k := by
        rintro rfl
        rw [active] at active'
        cases active'
        exact same rfl
      have none := count_wordSlots_other g k w (g.base + k' * spanBytes + i * sizeOfClass c') bits
        same
      simp only [other, false_and, decide_false, Bool.false_and, Bool.not_false, Bool.and_true]
      omega
  · rw [SpanBitmaps.allocClear_allocBit] at bit
    rcases bit with old | old
    · exact ledger.slots.bits k' i (.inl (Bool.and_eq_true .. ▸ old).1)
    · exact ledger.slots.bits k' i (.inr old)
  · rcases member with cached | held
    · exact ledger.slots.outside c' p (.inl cached)
    · rcases Multiset.mem_add.mp held with new | old
      · obtain ⟨b, member, same⟩ := mem_wordSlots.mp new
        obtain ⟨rfl, rfl⟩ := Prod.mk.inj same
        exact ⟨k, sh, w * 64 + b, active, inside b member, rfl⟩
      · exact ledger.slots.outside c' p (.inr old)

/-! ## Taking a batch -/

/-- The objects of a batch, with their class. -/
def ofClass (c : Nat) (objs : List Nat) : Multiset (Nat × Nat) := (objs.map (·, c) : List (Nat × Nat))

@[simp] theorem ofClass_nil (c : Nat) : ofClass c [] = 0 := rfl

@[simp] theorem ofClass_cons (c p : Nat) (rest : List Nat) :
    ofClass c (p :: rest) = (p, c) ::ₘ ofClass c rest := rfl

theorem ofClass_append (c : Nat) (left right : List Nat) :
    ofClass c (left ++ right) = ofClass c left + ofClass c right := by
  rw [ofClass, List.map_append, ← Multiset.coe_add, ofClass, ofClass]

theorem scanWords_succ (k osz left w room : Nat) (b : SpanBitmaps) :
    scanWords k osz (left + 1) w room b =
      if room = 0 then ([], b)
      else if (b.foldFreeWord k w).1 = 0#64 then
        scanWords k osz left (w + 1) room (b.foldFreeWord k w).2
      else
        let bits := Word.lowest room (b.foldFreeWord k w).1
        let scanned := scanWords k osz left (w + 1) (room - bits.length)
          ((b.foldFreeWord k w).2.allocClear k w (Word.maskOf bits))
        (bits.map (fun bit => scanned.2.spanBase k + (w * 64 + bit) * osz) ++ scanned.1, scanned.2) :=
  rfl

/-- Scanning a span on the list of its class hands out slots of it. -/
theorem scanWords_spec {k c sh : Nat} (active : role k = .active k c sh) (left w room : Nat)
    {b b' : SpanBitmaps} {objs : List Nat}
    (ledger : Ledger trust g { s with bitmaps := b } role H L W)
    (out : scanWords k (sizeOfClass c) left w room b = (objs, b')) :
    Ledger trust g { s with bitmaps := b' } role (ofClass c objs + H) L W ∧
      SpanBitmaps.SameLinks b b' := by
  have same : Ledger trust g { s with bitmaps := b } role (ofClass c [] + H) L W := by
    rwa [ofClass_nil, Multiset.zero_add]
  induction left generalizing b w room H objs with
  | zero =>
      cases out
      exact ⟨same, SpanBitmaps.SameLinks.refl _⟩
  | succ left ih =>
      rw [scanWords_succ] at out
      split at out
      · cases out
        exact ⟨same, SpanBitmaps.SameLinks.refl _⟩
      · obtain ⟨links, word, -⟩ := b.foldFreeWord_spec k w
        have folded : Ledger trust g { s with bitmaps := (b.foldFreeWord k w).2 } role H L W :=
          ledger.moved (b.foldFreeWord_moved k w)
        obtain ⟨⟨first, b₁⟩, fold⟩ : ∃ fold, b.foldFreeWord k w = fold := ⟨_, rfl⟩
        rw [fold] at out links word folded
        simp only at out links word folded
        split at out
        · obtain ⟨kept, links'⟩ := ih (w + 1) room folded out (by rwa [ofClass_nil, Multiset.zero_add])
          exact ⟨kept, links.trans links'⟩
        · have set : ∀ bit ∈ Word.lowest room first,
              bit < 64 ∧ (b₁.allocWords k w).getLsbD bit = true := by
            intro bit member
            have set := Word.set_of_mem_lowest member
            refine ⟨?_, word ▸ set⟩
            by_contra high
            rw [Word.getLsbD_outside (Nat.le_of_not_lt high)] at set
            cases set
          have taken := folded.take active (Word.lowest_nodup room _) set
          obtain ⟨rest, scan⟩ : ∃ rest, scanWords k (sizeOfClass c) left (w + 1)
              (room - (Word.lowest room first).length)
              (b₁.allocClear k w (Word.maskOf (Word.lowest room first))) = rest := ⟨_, rfl⟩
          rw [scan] at out
          obtain ⟨others, b₂⟩ := rest
          obtain ⟨rfl, rfl⟩ := Prod.mk.inj out
          obtain ⟨kept, links'⟩ := ih (w + 1) _ taken scan (by rwa [ofClass_nil, Multiset.zero_add])
          have cleared : SpanBitmaps.SameLinks b₁
              (b₁.allocClear k w (Word.maskOf (Word.lowest room first))) := ⟨rfl, rfl, rfl⟩
          have base : b₂.base = g.base :=
            (links'.base.trans links.base).trans ledger.stock.grid.bitmaps
          have objects : ofClass c ((Word.lowest room first).map
              fun bit => b₂.spanBase k + (w * 64 + bit) * sizeOfClass c) =
              g.wordSlots k w c (Word.lowest room first) := by
            simp only [ofClass, Geometry.wordSlots, List.map_map, Function.comp_def,
              SpanBitmaps.spanBase, Geometry.slotAddr, base]
          refine ⟨?_, (links.trans cleared).trans links'⟩
          rw [ofClass_append, objects, Multiset.add_comm (g.wordSlots ..), Multiset.add_assoc]
          exact kept

/-- A span with no bits has nothing to hand out. -/
theorem scanWords_clear {k : Nat} (osz left w room : Nat) {b : SpanBitmaps}
    (clear : ∀ i, b.allocBit k i = false ∧ b.freeBit k i = false) :
    scanWords k osz left w room b = ([], b) := by
  induction left generalizing w with
  | zero => rfl
  | succ left ih =>
      have free : b.freeWords k w = 0#64 := by
        apply Word.eq_zero_iff.mpr
        intro i low
        rw [← bitAt_word low]
        exact (clear (w * 64 + i)).2
      have alloc : b.allocWords k w = 0#64 := by
        apply Word.eq_zero_iff.mpr
        intro i low
        rw [← bitAt_word low]
        exact (clear (w * 64 + i)).1
      have folded : b.foldFreeWord k w = (0#64, b) := by
        rw [SpanBitmaps.foldFreeWord, if_pos free, alloc]
      rw [scanWords_succ, folded]
      simp only [if_true, ih, ite_self]

theorem takeFrom_succ (hint nwords osz steps span room : Nat) (b : SpanBitmaps) :
    takeFrom hint nwords osz (steps + 1) span room b =
      if room = 0 ∨ span = noSpan then ([], [], b)
      else if span = hint then takeFrom hint nwords osz steps (b.next span) room b
      else
        let scanned := scanSpan span room nwords osz b
        let walked := takeFrom hint nwords osz steps (scanned.2.next span)
          (room - scanned.1.length) scanned.2
        (scanned.1 ++ walked.1, span :: walked.2.1, walked.2.2) :=
  rfl

/-- Walking a list of spans of the class hands out slots of them. -/
theorem takeFrom_spec {c sh : Nat} (hint nwords steps room : Nat) {b b' : SpanBitmaps} {span : Nat}
    {nodes objs seen : List Nat} (ledger : Ledger trust g { s with bitmaps := b } role H L W)
    (walk : Chain b.nextActive span nodes noSpan)
    (active : ∀ h ∈ nodes, role h = .active h c sh)
    (out : takeFrom hint nwords (sizeOfClass c) steps span room b = (objs, seen, b')) :
    Ledger trust g { s with bitmaps := b' } role (ofClass c objs + H) L W := by
  have same : Ledger trust g { s with bitmaps := b } role (ofClass c [] + H) L W := by
    rwa [ofClass_nil, Multiset.zero_add]
  induction steps generalizing b span nodes room H objs seen with
  | zero =>
      cases out
      exact same
  | succ steps ih =>
      rw [takeFrom_succ] at out
      split at out
      · cases out
        exact same
      · rename_i going
        cases nodes with
        | nil => exact (going (.inr walk)).elim
        | cons node rest =>
            obtain ⟨rfl, tail⟩ := walk
            have others : ∀ h ∈ rest, role h = .active h c sh :=
              fun h member => active h (List.mem_cons_of_mem _ member)
            split at out
            · exact ih room ledger tail others out same
            · obtain ⟨⟨first, b₁⟩, scan⟩ : ∃ scan,
                  scanSpan span room nwords (sizeOfClass c) b = scan := ⟨_, rfl⟩
              rw [scan] at out
              simp only at out
              obtain ⟨⟨later, visited, b₂⟩, walked⟩ : ∃ walked, takeFrom hint nwords (sizeOfClass c)
                  steps (b₁.next span) (room - first.length) b₁ = walked := ⟨_, rfl⟩
              rw [walked] at out
              simp only [Prod.mk.injEq] at out
              obtain ⟨rfl, rfl, rfl⟩ := out
              obtain ⟨scanned, links⟩ :=
                scanWords_spec (active span List.mem_cons_self) nwords 0 room ledger scan
              have tail' : Chain b₁.nextActive (b₁.next span) rest noSpan := by
                rw [SpanBitmaps.next, links.nextActive]
                exact tail
              rw [ofClass_append, Multiset.add_comm (ofClass c _) (ofClass c _), Multiset.add_assoc]
              exact ih (room - first.length) scanned tail' others walked
                (by rwa [ofClass_nil, Multiset.zero_add])

theorem unpack_pack {c home : Nat} (pos : 0 < c) (small : home < 65536) :
    SpanTable.unpack (SpanTable.pack c home) = some (c, home) := by
  rw [SpanTable.unpack, SpanTable.pack, if_neg (by omega)]
  congr 2 <;> omega

/-- The marker of large runs is no class. -/
theorem not_isClass_large : ¬ IsClass largeClass := by
  intro cls
  have := cls.lt
  simp [largeClass, numClasses, classSizes] at this

theorem unpack_large : SpanTable.unpack (SpanTable.pack largeClass 0) = some (largeClass, 0) :=
  unpack_pack (by unfold largeClass; omega) (by omega)

/-- What the table finds at the start of a span is the span's entry. -/
theorem Grid.lookup_spanBase (grid : s.Grid g) {k : Nat} {e : Nat × Nat}
    (found : s.spans.lookup (s.bitmaps.spanBase k) = some e) :
    k < s.spans.numSpans ∧ SpanTable.unpack (s.spans.entry k) = some e := by
  by_cases inside : k * spanBytes < s.spans.len
  · have index : s.spans.indexOf (g.base + k * spanBytes + 0) = some k :=
      grid.indexOf (by decide) (by simpa using inside)
    rw [Nat.add_zero] at index
    rw [SpanTable.lookup, grid.spanBase, index] at found
    exact ⟨numSpans_iff.mpr inside, found⟩
  · rw [SpanTable.lookup, grid.spanBase, SpanTable.indexOf, grid.table, if_pos (.inr (by omega))]
      at found
    cases found

/-- What the table says of a span whose entry names a class. -/
theorem Cells.label_class (cells : s.Cells trust role) (grid : s.Grid g)
    (settled : ∀ k, role k ≠ .claimed) {k c home : Nat} (cls : IsClass c)
    (found : s.spans.lookup (s.bitmaps.spanBase k) = some (c, home)) :
    ∃ h sh, role k = .active h c sh := by
  obtain ⟨inside, entry⟩ := grid.lookup_spanBase found
  rcases cells.labels k inside with zero | large | ⟨h, c', sh, active, tag⟩ | claim
  · rw [zero] at entry
    cases entry
  · rw [large, unpack_large] at entry
    cases entry
    exact (not_isClass_large cls).elim
  · obtain ⟨home', packed, small, -⟩ := tag
    rw [packed, unpack_pack (cells.isClass active).pos small] at entry
    cases entry
    exact ⟨h, sh, active⟩
  · exact (settled k claim).elim

/-- Spans noted as scanned. -/
theorem Ledger.noted (ledger : s.Ledger trust g role H L W) (notes : List Scan) :
    Ledger trust g { s with scans := notes ++ s.scans } role H L W where
  stock := { ledger.stock with grid := { ledger.stock.grid with } }
  cells := { ledger.cells with }
  slots := { ledger.slots with }
  larges := { ledger.larges with }
  loose := ledger.loose
  used := ledger.used
  healthy := ledger.healthy

theorem Cells.clear_of_member (slots : s.Slots g role H) {k h c sh : Nat}
    (active : role k = .active h c sh) (member : h ≠ k) (i : Nat) :
    s.bitmaps.allocBit k i = false ∧ s.bitmaps.freeBit k i = false := by
  have none : ¬ (s.bitmaps.allocBit k i = true ∨ s.bitmaps.freeBit k i = true) := by
    intro set
    obtain ⟨c', sh', head, -⟩ := slots.bits k i set
    rw [active] at head
    cases head
    exact member rfl
  simpa only [not_or, Bool.not_eq_true] using none

theorem taken_hint {shard cls room : Nat} {first rest seen : List Nat} {b₁ b₂ : SpanBitmaps}
    (valid : s.validHint shard cls = true)
    (scan : scanSpan (s.reuseHint shard cls) room (bitmapWords cls) (sizeOfClass cls) s.bitmaps =
      (first, b₁))
    (walked : takeFrom (s.reuseHint shard cls) (bitmapWords cls) (sizeOfClass cls)
      (s.spans.numSpans + 1) (s.head shard cls) (room - first.length) b₁ = (rest, seen, b₂)) :
    s.taken shard cls room = (first ++ rest, { s with
      bitmaps := b₂
      scans := s.note shard cls (s.reuseHint shard cls :: seen) ++ s.scans }) := by
  rw [SubHeap.taken, if_pos valid, scan]
  dsimp only
  rw [walked]

theorem taken_list {shard cls room : Nat} {objs seen : List Nat} {b : SpanBitmaps}
    (valid : s.validHint shard cls = false)
    (walked : takeFrom noSpan (bitmapWords cls) (sizeOfClass cls) (s.spans.numSpans + 1)
      (s.head shard cls) room s.bitmaps = (objs, seen, b)) :
    s.taken shard cls room = (objs, { s with
      bitmaps := b
      scans := s.note shard cls seen ++ s.scans }) := by
  rw [SubHeap.taken, if_neg (by simp [valid]), walked]

/-- A take touches nothing but the bitmaps. -/
theorem taken_frame (s : SubHeap) (shard cls room : Nat) :
    ∃ b scans, (s.taken shard cls room).2 = { s with bitmaps := b, scans := scans } := by
  rw [taken]
  split <;> exact ⟨_, _, rfl⟩

/-- A batch taken from a cell: slots of spans of its class. -/
theorem Ledger.taken (ledger : s.Ledger trust g role H L W) (settled : ∀ k, role k ≠ .claimed)
    {shard cls : Nat} (isClass : IsClass cls) (inside : shard < s.numShards) (room : Nat) :
    Ledger trust g (s.taken shard cls room).2 role (ofClass cls (s.taken shard cls room).1 + H) L W := by
  obtain ⟨nodes, walk, -, members⟩ := ledger.cells.lists shard cls inside
  have active : ∀ h ∈ nodes, role h = .active h cls shard := fun h member => (members h).mp member
  cases valid : s.validHint shard cls with
  | true =>
      obtain ⟨⟨first, b₁⟩, scan⟩ : ∃ scan, scanSpan (s.reuseHint shard cls) room (bitmapWords cls)
          (sizeOfClass cls) s.bitmaps = scan := ⟨_, rfl⟩
      obtain ⟨⟨rest, seen, b₂⟩, walked⟩ : ∃ walked, takeFrom (s.reuseHint shard cls)
          (bitmapWords cls) (sizeOfClass cls) (s.spans.numSpans + 1) (s.head shard cls)
          (room - first.length) b₁ = walked := ⟨_, rfl⟩
      rw [taken_hint valid scan walked]
      -- a valid hint names a span of the class, at whatever place in its group
      simp only [validHint, Bool.and_eq_true, Option.any_eq_true, decide_eq_true_eq] at valid
      obtain ⟨⟨-, given⟩, ⟨c, home⟩, found, same⟩ := valid
      simp only at same
      subst same
      obtain ⟨h, sh, hinted⟩ := ledger.cells.label_class ledger.stock.grid settled isClass found
      have scanned : Ledger trust g { s with bitmaps := b₁ } role (ofClass c first + H) L W ∧
          SpanBitmaps.SameLinks s.bitmaps b₁ := by
        by_cases head : h = s.reuseHint shard c
        · rw [head] at hinted
          exact scanWords_spec hinted _ 0 room ledger scan
        · rw [scanSpan, scanWords_clear _ _ _ _
            (Cells.clear_of_member ledger.slots hinted head)] at scan
          cases scan
          refine ⟨?_, SpanBitmaps.SameLinks.refl _⟩
          rwa [ofClass_nil, Multiset.zero_add]
      have kept := takeFrom_spec _ _ _ _ scanned.1
        (by rw [scanned.2.nextActive]; exact walk) active walked
      rw [ofClass_append, Multiset.add_comm (ofClass c _) (ofClass c _), Multiset.add_assoc]
      exact kept.noted _
  | false =>
      obtain ⟨⟨objs, seen, b⟩, walked⟩ : ∃ walked, takeFrom noSpan (bitmapWords cls)
          (sizeOfClass cls) (s.spans.numSpans + 1) (s.head shard cls) room s.bitmaps = walked :=
        ⟨_, rfl⟩
      rw [taken_list valid walked]
      have kept := takeFrom_spec _ _ _ _ ledger walk active walked
      exact kept.noted _

/-! ## Programs -/

variable {E : SubHeap → Prop} {cls p : Nat}

/-- What an attempt to pop took. -/
def popped (cls : Nat) : Fast Nat → Multiset (Nat × Nat)
  | .ok p => {(p, cls)}
  | .needsSlow => 0

theorem slabPop_spec :
    Triple (Owned trust g H L W) (slabPop cls) (fun r => Owned trust g (popped cls r + H) L W) E := by
  refine Triple.bind (Triple.ask fun _ _ owned => owned) fun turn => Triple.apply fun s owned => ?_
  obtain ⟨role, ledger, settled⟩ := owned
  refine ⟨role, ?_, settled⟩
  rcases s.slab.pop_cases ledger.stock.grid.cpus cls turn with same | ⟨cpu, p, rest, inside, top, same⟩
  · simp only [same, popped, Multiset.zero_add]
    exact ledger
  · have slot : IsSlot g role p cls := by
      apply ledger.slots.outside cls p
      rw [SlabLayout.cached_of_pop inside top]
      exact .inl (Multiset.mem_cons_self ..)
    simp only [same, if_neg (ledger.ne_zero slot), popped, Multiset.singleton_add]
    exact ledger.pop inside top

/-- What an attempt to push left in hand. -/
def unpushed (cls p : Nat) : Fast Unit → Multiset (Nat × Nat)
  | .ok _ => 0
  | .needsSlow => {(p, cls)}

theorem slabPush_spec :
    Triple (Owned trust g ((p, cls) ::ₘ H) L W) (slabPush cls p)
      (fun r => Owned trust g (unpushed cls p r + H) L W) E := by
  refine Triple.bind (Triple.ask fun _ _ owned => owned) fun turn => Triple.apply fun s owned => ?_
  obtain ⟨role, ledger, settled⟩ := owned
  refine ⟨role, ?_, settled⟩
  have isClass : cls < s.slab.slotsOffs.length := by
    obtain ⟨k, sh, i, active, -⟩ := ledger.slots.outside cls p (.inr (Multiset.mem_cons_self ..))
    rw [ledger.stock.grid.classes]
    exact (ledger.cells.groups k k cls sh active).1.lt
  rcases SlabLayout.push_cases ledger.stock.grid.cpus ledger.stock.grid.slab isClass p turn with
    same | ⟨cpu, inside, room, same⟩
  · simp only [same, unpushed, Multiset.singleton_add]
    exact ledger
  · simp only [same, unpushed, Multiset.zero_add]
    exact ledger.still (Still.stacks fun apart => apart.put room) (ledger.slots.push inside)

theorem Ledger.deposited (ledger : s.Ledger trust g role ((p, cls) ::ₘ H) L W) :
    Ledger trust g (s.deposited p (sizeOfClass cls)) role H L W := by
  obtain ⟨k, sh, i, active, slot, rfl⟩ :=
    ledger.slots.outside cls p (.inr (Multiset.mem_cons_self ..))
  obtain ⟨span, index⟩ := ledger.locate active slot
  have word : g.wordSlots k (i / 64) cls [i % 64] = {(g.slotAddr k i cls, cls)} := by
    rw [Geometry.wordSlots, List.map_singleton, show i / 64 * 64 + i % 64 = i by omega]
    rfl
  have small : i < 2 ^ 32 := by
    have : slotsPerSpan (sizeOfClass cls) ≤ spanBytes := by
      unfold slotsPerSpan
      exact max_le (Nat.div_le_self ..) (by decide)
    have : spanBytes = 65536 := rfl
    omega
  unfold SubHeap.deposited
  simp only [span, index, wrap32_small small, SpanBitmaps.set]
  apply Ledger.setMask [i % 64] _ active (List.nodup_singleton _)
  · intro b member
    rw [List.mem_singleton.mp member]
    exact Nat.mod_lt _ (by decide)
  · intro b member
    rw [List.mem_singleton.mp member]
    omega
  · intro b
    rw [Word.getLsbD_bit]
    simp only [List.mem_singleton]
    exact decide_eq_decide.mpr (and_iff_left (Nat.mod_lt _ (by decide)))
  · rwa [word, Multiset.singleton_add]

theorem centralDeposit_spec :
    Triple (Owned trust g ((p, cls) ::ₘ H) L W) (centralDeposit p (sizeOfClass cls))
      (fun _ => Owned trust g H L W) E :=
  Triple.modify fun _ ⟨role, ledger, settled⟩ => ⟨role, ledger.deposited, settled⟩

theorem stash_spec :
    Triple (Owned trust g ((p, cls) ::ₘ H) L W) (stash cls p) (fun _ => Owned trust g H L W) E := by
  refine Triple.bind slabPush_spec fun r => ?_
  cases r with
  | ok =>
      apply Triple.ret
      intro s owned
      simpa only [unpushed, Multiset.zero_add] using owned
  | needsSlow =>
      simp only [unpushed, Multiset.singleton_add]
      exact centralDeposit_spec

theorem drain_spec :
    Triple (Owned trust g ((p, cls) ::ₘ H) L W) (drain cls p) (fun _ => Owned trust g H L W) E := by
  refine Triple.bind (Triple.upTo _ ?_) fun _ => stash_spec
  refine Triple.bind slabPop_spec fun r => ?_
  cases r with
  | ok q =>
      simp only [popped, Multiset.singleton_add]
      exact Triple.bind centralDeposit_spec fun _ => Triple.ret _ fun _ owned => owned
  | needsSlow =>
      apply Triple.ret
      intro s owned
      simpa only [popped, Multiset.zero_add] using owned

theorem freeLocal_spec :
    Triple (Owned trust g ((p, cls) ::ₘ H) L W) (freeLocal cls p) (fun _ => Owned trust g H L W) E := by
  refine Triple.bind slabPush_spec fun r => ?_
  cases r with
  | ok =>
      apply Triple.ret
      intro s owned
      simpa only [unpushed, Multiset.zero_add] using owned
  | needsSlow =>
      simp only [unpushed, Multiset.singleton_add]
      exact drain_spec

theorem deallocClass_spec (threadShard : Nat) :
    Triple (Owned trust g ((p, cls) ::ₘ H) L W) (deallocClass p cls threadShard)
      (fun _ => Owned trust g H L W) E := by
  refine Triple.inspect fun s owned => ?_
  have start : ∀ s', s' = s → Owned trust g ((p, cls) ::ₘ H) L W s' := by
    rintro s' rfl
    exact owned
  split
  · exact freeLocal_spec.strengthen start
  · exact centralDeposit_spec.strengthen start

/-! ## Batched frees -/

/-- An object outside tells which span it is a slot of. -/
theorem Ledger.active_of_held (ledger : s.Ledger trust g role H L W) {k i c : Nat}
    (slot : i < slotsPerSpan (sizeOfClass c)) (held : (g.slotAddr k i c, c) ∈ H) :
    ∃ sh, role k = .active k c sh := by
  obtain ⟨k', sh, i', active, slot', same⟩ := ledger.slots.outside c _ (.inr held)
  obtain ⟨rfl, -⟩ := slotAddr_inj (ledger.cells.isClass active) slot slot' same
  exact ⟨sh, active⟩

/-- The objects gathered in a pending word. -/
structure Gathered (g : Geometry) (cls : Nat) (pending : Pending) (objs : Multiset (Nat × Nat))
    (bits : List Nat) : Prop where
  distinct : bits.Nodup
  low : ∀ b ∈ bits, b < 64
  masked : ∀ b, pending.mask.getLsbD b = decide (b ∈ bits)
  objects : objs = g.wordSlots pending.span pending.word cls bits
  inside : ∀ b ∈ bits, pending.word * 64 + b < slotsPerSpan (sizeOfClass cls)

theorem Gathered.none (g : Geometry) (cls : Nat) : Gathered g cls .none 0 [] where
  distinct := List.nodup_nil
  low := nofun
  masked _ := BitVec.getLsbD_zero
  objects := rfl
  inside := nofun

/-- The bits of a pending word are slots of one span of the class. -/
theorem Gathered.active {pending : Pending} {objs : Multiset (Nat × Nat)} {bits : List Nat}
    (gathered : Gathered g cls pending objs bits) (ledger : s.Ledger trust g role (objs + H) L W)
    (nonempty : bits ≠ []) : ∃ sh, role pending.span = .active pending.span cls sh := by
  obtain ⟨b, member⟩ := List.exists_mem_of_ne_nil bits nonempty
  apply ledger.active_of_held (gathered.inside b member)
  rw [Multiset.mem_add, gathered.objects]
  exact .inl (mem_wordSlots.mpr ⟨b, member, rfl⟩)

theorem Gathered.flush {pending : Pending} {objs : Multiset (Nat × Nat)} {bits : List Nat}
    (gathered : Gathered g cls pending objs bits) :
    Triple (Owned trust g (objs + H) L W) (flushPending pending) (fun _ => Owned trust g H L W) E := by
  have cleared : pending.mask = 0#64 → bits = [] := by
    intro zero
    rw [List.eq_nil_iff_forall_not_mem]
    intro b member
    have := gathered.masked b
    rw [zero, BitVec.getLsbD_zero, decide_eq_true member] at this
    cases this
  refine Triple.ite (fun zero => ?_) (fun some => ?_)
  · refine Triple.ret _ fun s ⟨role, ledger, settled⟩ => ⟨role, ?_, settled⟩
    rw [gathered.objects, cleared zero] at ledger
    exact (Multiset.zero_add H) ▸ ledger
  · refine Triple.modify fun s ⟨role, ledger, settled⟩ => ?_
    have nonempty : bits ≠ [] := by
      rintro rfl
      apply some
      apply BitVec.eq_of_getLsbD_eq
      intro i _
      rw [gathered.masked, BitVec.getLsbD_zero]
      rfl
    obtain ⟨sh, active⟩ := gathered.active ledger nonempty
    rw [gathered.objects] at ledger
    exact ⟨role, ledger.setMask bits active gathered.distinct gathered.low gathered.inside
      gathered.masked, settled⟩

/-- One more bit in the pending word. -/
theorem Gathered.more {pending : Pending} {objs : Multiset (Nat × Nat)} {bits : List Nat} {i : Nat}
    (gathered : Gathered g cls pending objs bits) (slot : i < slotsPerSpan (sizeOfClass cls))
    (same : i / 64 = pending.word) (new : i % 64 ∉ bits) :
    Gathered g cls { pending with mask := pending.mask ||| Word.bit (i % 64) }
      ((g.slotAddr pending.span i cls, cls) ::ₘ objs) (i % 64 :: bits) where
  distinct := List.nodup_cons.mpr ⟨new, gathered.distinct⟩
  low := List.forall_mem_cons.mpr ⟨Nat.mod_lt _ (by decide), gathered.low⟩
  masked b := by
    rw [BitVec.getLsbD_or, gathered.masked, Word.getLsbD_bit]
    simp only [Nat.mod_lt i (by decide : 0 < 64), and_true, List.mem_cons, Bool.decide_or]
    rw [Bool.or_comm]
  objects := by
    have index : pending.word * 64 + i % 64 = i := by omega
    rw [gathered.objects, Geometry.wordSlots, Geometry.wordSlots, List.map_cons, index]
    rfl
  inside := List.forall_mem_cons.mpr ⟨by simp only; omega, gathered.inside⟩

theorem Gathered.single {k i : Nat} (slot : i < slotsPerSpan (sizeOfClass cls)) :
    Gathered g cls ⟨k, i / 64, Word.bit (i % 64)⟩ {(g.slotAddr k i cls, cls)} [i % 64] where
  distinct := List.nodup_singleton _
  low b member := by
    rw [List.mem_singleton.mp member]
    exact Nat.mod_lt _ (by decide)
  masked b := by
    rw [Word.getLsbD_bit]
    simp only [List.mem_singleton]
    exact decide_eq_decide.mpr (and_iff_left (Nat.mod_lt _ (by decide)))
  objects := by
    have index : i / 64 * 64 + i % 64 = i := by omega
    rw [Geometry.wordSlots, List.map_singleton, index]
    rfl
  inside b member := by
    rw [List.mem_singleton.mp member]
    simp only
    omega

/-- An object in hand is a bit of its own, or one more of the pending word. -/
theorem Ledger.gathers {pending : Pending} {objs : Multiset (Nat × Nat)} {bits : List Nat}
    (ledger : s.Ledger trust g role ((p, cls) ::ₘ (objs + H)) L W)
    (gathered : Gathered g cls pending objs bits) :
    ∃ span word bit, s.bitmaps.locate p (sizeOfClass cls) = (span, word, bit) ∧
      Gathered g cls ⟨span, word, Word.bit bit⟩ {(p, cls)} [bit] ∧
      (span = pending.span → word = pending.word →
        Gathered g cls { pending with mask := pending.mask ||| Word.bit bit } ((p, cls) ::ₘ objs)
          (bit :: bits)) := by
  obtain ⟨k, sh, i, active, slot, rfl⟩ :=
    ledger.slots.outside cls p (.inr (Multiset.mem_cons_self ..))
  obtain ⟨span, index⟩ := ledger.locate active slot
  refine ⟨k, i / 64, i % 64, ?_, Gathered.single slot, ?_⟩
  · simp only [SpanBitmaps.locate, span, index]
  · rintro rfl word
    refine gathered.more slot word fun twice => ?_
    have once := ledger.slots.once _ cls sh i active slot
    rw [Multiset.count_cons_self, Multiset.count_add, gathered.objects,
      count_wordSlots g _ _ _ (ledger.cells.isClass active) gathered.distinct gathered.low
        gathered.inside slot, decide_eq_true ⟨rfl, word⟩, decide_eq_true twice] at once
    simp only [Bool.and_self, Bool.toNat_true] at once
    omega

theorem batchOne_spec (threadShard : Nat) {pending : Pending} {objs : Multiset (Nat × Nat)}
    {bits : List Nat} (gathered : Gathered g cls pending objs bits) :
    Triple (Owned trust g ((p, cls) ::ₘ (objs + H)) L W) (batchOne cls threadShard pending p)
      (fun pending' s => ∃ objs' bits', Gathered g cls pending' objs' bits' ∧
        Owned trust g (objs' + H) L W s) E := by
  refine Triple.inspect fun s owned => ?_
  have start : ∀ s', s' = s → Owned trust g ((p, cls) ::ₘ (objs + H)) L W s' := by
    rintro s' rfl
    exact owned
  split
  · refine Triple.bind (freeLocal_spec.strengthen start) fun _ => Triple.ret _ fun s' kept => ?_
    exact ⟨objs, bits, gathered, kept⟩
  · obtain ⟨role, ledger, settled⟩ := owned
    obtain ⟨span, word, bit, located, single, more⟩ := ledger.gathers gathered
    simp only [located]
    refine Triple.ite (fun different => ?_) (fun alike => ?_)
    · refine Triple.bind (Triple.strengthen
        (P := Owned trust g (objs + (p, cls) ::ₘ H) L W) gathered.flush
        fun s' same => ?_) fun _ => Triple.ret _ ?_
      · rw [Multiset.add_cons]
        exact start s' same
      · rintro s' ⟨role', kept, settled'⟩
        refine ⟨_, _, single, role', ?_, settled'⟩
        rw [Multiset.singleton_add]
        exact kept
    · simp only [not_or, not_not] at alike
      apply Triple.ret
      rintro s' rfl
      refine ⟨_, _, more alike.1 alike.2, role, ?_, settled⟩
      rw [Multiset.cons_add]
      exact ledger

theorem batchAll_spec (threadShard : Nat) (ptrs : List Nat) {pending : Pending}
    {objs : Multiset (Nat × Nat)} {bits : List Nat} (gathered : Gathered g cls pending objs bits) :
    Triple (Owned trust g (ofClass cls ptrs + (objs + H)) L W) (batchAll cls threadShard ptrs pending)
      (fun pending' s => ∃ objs' bits', Gathered g cls pending' objs' bits' ∧
        Owned trust g (objs' + H) L W s) E := by
  induction ptrs generalizing pending objs bits with
  | nil =>
      apply Triple.ret
      intro s owned
      rw [ofClass_nil, Multiset.zero_add] at owned
      exact ⟨objs, bits, gathered, owned⟩
  | cons p rest ih =>
      refine Triple.bind (Triple.strengthen
        (P := Owned trust g ((p, cls) ::ₘ (objs + (ofClass cls rest + H))) L W)
        (batchOne_spec threadShard gathered) fun s owned => ?_) fun pending' => ?_
      · rw [ofClass_cons, Multiset.cons_add] at owned
        rwa [add_left_comm]
      · refine Triple.choose fun objs' => Triple.choose fun bits' => Triple.lift fun gathered' => ?_
        refine (ih gathered').strengthen fun s owned => ?_
        rwa [add_left_comm]

theorem Ledger.homeRelaxed (ledger : s.Ledger trust g role H L W) (on : trust.homed) {k c sh : Nat}
    (active : role k = .active k c sh) :
    s.spans.homeRelaxed (s.bitmaps.spanBase k) % s.numShards = sh := by
  obtain ⟨home, packed, small, back⟩ := ledger.cells.entries on.tagged k c sh active
  have inside := numSpans_iff.mp (ledger.cells.inside active)
  have index : s.spans.indexOf (g.base + k * spanBytes + 0) = some k :=
    ledger.stock.grid.indexOf (by decide) (by simpa using inside)
  rw [Nat.add_zero] at index
  have home_eq : s.spans.homeRelaxed (s.bitmaps.spanBase k) = home := by
    rw [SpanTable.homeRelaxed, ledger.stock.grid.spanBase, index]
    simp only [packed, SpanTable.pack]
    omega
  rw [home_eq]
  exact back on

/-- A hint stored for a cell. -/
theorem Ledger.hinted (ledger : s.Ledger trust g role H L W) (sh c k : Nat) :
    Ledger trust g (s.setHint sh c k) role H L W where
  stock := { ledger.stock with grid := { ledger.stock.grid with } }
  cells := { ledger.cells with }
  slots := { ledger.slots with }
  larges := { ledger.larges with }
  loose := ledger.loose
  used := ledger.used
  healthy := ledger.healthy

theorem deallocClassBatch_spec (ptrs : List Nat) (threadShard : Nat) :
    Triple (Owned trust g (ofClass cls ptrs + H) L W) (deallocClassBatch ptrs cls threadShard)
      (fun _ => Owned trust g H L W) E := by
  refine Triple.bind (Triple.strengthen (P := Owned trust g (ofClass cls ptrs + (0 + H)) L W)
    (batchAll_spec threadShard ptrs (Gathered.none g cls)) fun s owned => ?_) fun pending => ?_
  · rwa [Multiset.zero_add]
  · refine Triple.choose fun objs => Triple.choose fun bits => Triple.lift fun gathered => ?_
    refine Triple.bind gathered.flush fun _ => Triple.ite (fun none => ?_) (fun given => ?_)
    · exact Triple.ret _ fun _ owned => owned
    · exact Triple.modify fun s ⟨role, ledger, settled⟩ => ⟨role, ledger.hinted .., settled⟩

/-! ## Moving objects off a stopped CPU -/

theorem rebalanceOne_owned {cpu : Nat} (inside : cpu < g.cpus) (owned : Owned trust g H L W s) :
    Owned trust g H L W (rebalanceOne cpu cls s) := by
  obtain ⟨role, ledger, settled⟩ := owned
  unfold rebalanceOne
  split
  · exact ⟨role, ledger, settled⟩
  · rename_i obj rest top
    have within : cpu < s.slab.numCpus := by rwa [ledger.stock.grid.numCpus]
    have popped := ledger.pop within top
    have slot := popped.slots.outside cls obj (.inr (Multiset.mem_cons_self ..))
    rw [if_neg (popped.ne_zero slot)]
    exact ⟨role, popped.deposited, settled⟩

theorem rebalanceCapacity_spec {cpu : Nat} (inside : cpu < g.cpus) (count : Nat) :
    Triple (Owned trust g H L W) (rebalanceCapacity cpu cls count)
      (fun _ => Owned trust g H L W) E := by
  have moved : ∀ n s, Owned trust g H L W s → Owned trust g H L W ((rebalanceOne cpu cls)^[n] s) := by
    intro n
    induction n with
    | zero => exact fun s owned => owned
    | succ n ih =>
        intro s owned
        rw [Function.iterate_succ_apply]
        exact ih _ (rebalanceOne_owned inside owned)
  refine Triple.inspect fun s owned => Triple.bind (Triple.modify fun s' same => ?_) fun _ =>
    Triple.ret _ fun _ kept => kept
  exact moved _ s' (same ▸ owned)

end SubHeap

end Toccata
