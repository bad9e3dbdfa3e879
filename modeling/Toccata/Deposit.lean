import Toccata.Foundations.Transition
import Toccata.Meta
import Mathlib.Data.List.Count

/-! # Lock-free deposits into one cell

The bitmaps of one `(shard, class)` cell under any number of freeing threads and the
one holder of its central lock. A deposit is one `fetch_or`. The holder's work is cut
where other threads can see it: the peek, the swap and the store of a fold, the
hand-out, the two passes of the emptiness test and the reset of a retired span. The
slots of a span are numbered below `slots`.
-/

namespace Toccata.Deposit

open Foundations

/-- Why a word is folded: to hand out up to `room` slots, or to count free bits. -/
inductive Task where
  | scan (room : Nat)
  | count (sum : Nat)
deriving Repr, DecidableEq

/-- Where thread `t` is in its critical section. -/
inductive Pc where
  | unlocked
  | locked (t : Nat)
  | peek (t : Nat) (task : Task) (span w : Nat)
  | swap (t : Nat) (task : Task) (span w : Nat)
  | store (t : Nat) (task : Task) (span w : Nat) (incoming : Word)
  | folded (t : Nat) (task : Task) (span w : Nat) (word : Word)
  | recheck (t span w : Nat)
  | retire (t span : Nat)
  | reset (t span w : Nat)
deriving Repr, DecidableEq

/-- The cell. `held` lists the slots in threads' hands, by holder; `deposited` and
    `moved` count, for the record, how often each slot was set in `freeWords` and how
    often it was stored to `allocWords` from there. -/
structure Cell where
  bitmaps : SpanBitmaps
  active : List Nat
  held : List (Nat × Nat × Nat)
  pc : Pc
  deposited : Nat → Nat → Nat
  moved : Nat → Nat → Nat

namespace Cell

def start : Cell := ⟨SpanBitmaps.new 0, [], [], .unlocked, fun _ _ => 0, fun _ _ => 0⟩

def wordsFor (slots : Nat) : Nat := (slots + 63) / 64

/-- Slot `w * 64 + b` of `span` for each of the bits, in the hands of `t`. -/
def slotsOf (t span w : Nat) (bits : List Nat) : List (Nat × Nat × Nat) :=
  bits.map fun b => (t, span, w * 64 + b)

/-- Slot `i` of `k` is among the bits of `word`, as word `w` of `span`. -/
def hits (span w : Nat) (word : Word) (k i : Nat) : Bool :=
  decide (k = span ∧ i / 64 = w) && word.getLsbD (i % 64)

/-- One more for each slot that is hit. -/
def tally (count : Nat → Nat → Nat) (span w : Nat) (word : Word) (k i : Nat) : Nat :=
  count k i + (hits span w word k i).toNat

/-- `set` and `set_mask`: the holder of the slots gives them up in one `fetch_or`. -/
def deposit (c : Cell) (t span w : Nat) (bits : List Nat) : Cell :=
  { c with
    bitmaps := c.bitmaps.setMask span w (Word.maskOf bits)
    held := c.held.diff (slotsOf t span w bits)
    deposited := tally c.deposited span w (Word.maskOf bits) }

/-- The next step of the lock's holder inside `scan_span`, `is_fully_free` or the
    retirement of a span. -/
def exec (slots : Nat) (c : Cell) : Cell :=
  match c.pc with
  | .unlocked | .locked _ => c
  | .peek t (.scan room) span w =>
      if room = 0 ∨ wordsFor slots ≤ w then { c with pc := .locked t }
      else if c.bitmaps.freeWords span w = 0#64 then
        { c with pc := .folded t (.scan room) span w (c.bitmaps.allocWords span w) }
      else { c with pc := .swap t (.scan room) span w }
  | .peek t (.count sum) span w =>
      if wordsFor slots ≤ w then
        { c with pc := if sum = slots then .recheck t span 0 else .locked t }
      else if c.bitmaps.freeWords span w = 0#64 then
        { c with pc := .folded t (.count sum) span w (c.bitmaps.allocWords span w) }
      else { c with pc := .swap t (.count sum) span w }
  | .swap t task span w =>
      { c with
        bitmaps := c.bitmaps.putFree span w 0#64
        pc := .store t task span w (c.bitmaps.freeWords span w) }
  | .store t task span w incoming =>
      { c with
        bitmaps := c.bitmaps.allocSetMask span w incoming
        pc := .folded t task span w (c.bitmaps.allocWords span w ||| incoming)
        moved := tally c.moved span w incoming }
  | .folded t (.scan room) span w word =>
      if word = 0#64 then { c with pc := .peek t (.scan room) span (w + 1) } else
        let bits := Word.lowest room word
        { c with
          bitmaps := c.bitmaps.allocClear span w (Word.maskOf bits)
          held := slotsOf t span w bits ++ c.held
          pc := .peek t (.scan (room - bits.length)) span (w + 1) }
  | .folded t (.count sum) span w word =>
      { c with pc := .peek t (.count (sum + word.countOnes)) span (w + 1) }
  | .recheck t span w =>
      if wordsFor slots ≤ w then { c with pc := .retire t span }
      else if c.bitmaps.freeWords span w ≠ 0#64 then { c with pc := .locked t }
      else { c with pc := .recheck t span (w + 1) }
  | .retire t span => { c with active := c.active.erase span, pc := .reset t span 0 }
  | .reset t span w =>
      if wordsFor slots ≤ w then { c with pc := .locked t } else
        { c with
          bitmaps := (c.bitmaps.putAlloc span w 0#64).putFree span w 0#64
          pc := .reset t span (w + 1) }

inductive Step (slots : Nat) (c : Cell) : Cell → Prop where
  | deposit (t span w : Nat) (bits : List Nat) : bits.Nodup → (∀ b ∈ bits, b < 64) →
      (∀ b ∈ bits, (t, span, w * 64 + b) ∈ c.held) → Step slots c (c.deposit t span w bits)
  | lock (t : Nat) : c.pc = .unlocked → Step slots c { c with pc := .locked t }
  | unlock {t} : c.pc = .locked t → Step slots c { c with pc := .unlocked }
  | carve {t} (span : Nat) : c.pc = .locked t → span ∉ c.active →
      Step slots c { c with
        bitmaps := c.bitmaps.tileSpan span slots
        active := span :: c.active }
  | scan {t} (span room : Nat) : c.pc = .locked t → span ∈ c.active →
      Step slots c { c with pc := .peek t (.scan room) span 0 }
  | check {t} (span : Nat) : c.pc = .locked t → span ∈ c.active →
      Step slots c { c with pc := .peek t (.count 0) span 0 }
  | exec : Step slots c (c.exec slots)

/-! ## Where a slot is -/

def heldCount (c : Cell) (span slot : Nat) : Nat := (c.held.map Prod.snd).count (span, slot)

/-- Drained by a swap and not stored yet. -/
def drained (c : Cell) (k i : Nat) : Bool :=
  match c.pc with
  | .store _ _ span w incoming => hits span w incoming k i
  | _ => false

/-- Nothing is lost or duplicated: a slot of a carved span is in one place, what is
    about to be handed out is in nobody's hands, every deposit is in `freeWords`, on
    its way or in `allocWords`, and a retired span has no slot held or deposited. -/
structure Conserved (slots : Nat) (c : Cell) : Prop where
  once : ∀ span ∈ c.active, ∀ slot < slots,
    c.heldCount span slot + (c.bitmaps.freeBit span slot).toNat + (c.drained span slot).toNat +
      (c.bitmaps.allocBit span slot).toNat = 1
  fresh : ∀ t room span w word, c.pc = .folded t (.scan room) span w word →
    ∀ b ∈ Word.lowest room word, c.heldCount span (w * 64 + b) = 0
  moved : ∀ span slot, c.deposited span slot =
    c.moved span slot + (c.bitmaps.freeBit span slot).toNat + (c.drained span slot).toNat
  retired : ∀ t span w, c.pc = .retire t span ∨ c.pc = .reset t span w →
    ∀ slot, c.heldCount span slot = 0 ∧ c.bitmaps.freeBit span slot = false

/-! ## Slots of a word -/

theorem hits_maskOf {span w k i : Nat} {bits : List Nat} :
    hits span w (Word.maskOf bits) k i = true ↔ k = span ∧ i / 64 = w ∧ i % 64 ∈ bits := by
  rw [hits, Word.getLsbD_maskOf, Bool.and_eq_true, decide_eq_true_iff, decide_eq_true_iff, and_assoc]
  exact and_congr_right fun _ => and_congr_right fun _ => and_iff_left (Nat.mod_lt i (by decide))

theorem count_slotsOf {t span w : Nat} {bits : List Nat} (distinct : bits.Nodup)
    (small : ∀ b ∈ bits, b < 64) (k i : Nat) :
    ((slotsOf t span w bits).map Prod.snd).count (k, i) =
      (hits span w (Word.maskOf bits) k i).toNat := by
  have injective : Function.Injective fun b => (span, w * 64 + b) := by
    intro a b same
    have := congrArg Prod.snd same
    simp only at this
    omega
  have shape : (slotsOf t span w bits).map Prod.snd = bits.map fun b => (span, w * 64 + b) := by
    simp [slotsOf]
  rw [shape, (distinct.map injective).count]
  by_cases hit : hits span w (Word.maskOf bits) k i = true
  · obtain ⟨rfl, rfl, member⟩ := hits_maskOf.mp hit
    rw [hit, if_pos, Bool.toNat_true]
    exact List.mem_map.mpr ⟨i % 64, member, by rw [Nat.div_add_mod']⟩
  · rw [Bool.eq_false_iff.mpr hit, if_neg, Bool.toNat_false]
    intro member
    obtain ⟨b, inside, same⟩ := List.mem_map.mp member
    obtain ⟨rfl, rfl⟩ := Prod.mk.inj same
    have := small b inside
    refine hit (hits_maskOf.mpr ⟨rfl, by omega, ?_⟩)
    rwa [show (w * 64 + b) % 64 = b by omega]

/-- The slots a thread deposits are among those held. -/
theorem heldCount_deposit {c : Cell} {t span w : Nat} {bits : List Nat} (distinct : bits.Nodup)
    (small : ∀ b ∈ bits, b < 64) (holds : ∀ b ∈ bits, (t, span, w * 64 + b) ∈ c.held) (k i : Nat) :
    c.heldCount k i =
      (hits span w (Word.maskOf bits) k i).toNat + (c.deposit t span w bits).heldCount k i := by
  have injective : Function.Injective fun b => (t, span, w * 64 + b) := by
    intro a b same
    have := congrArg (Prod.snd ∘ Prod.snd) same
    simp only [Function.comp_apply] at this
    omega
  have inside : slotsOf t span w bits ++ c.held.diff (slotsOf t span w bits) |>.Perm c.held := by
    refine List.subperm_append_diff_self_of_count_le fun x member => ?_
    rw [slotsOf] at member ⊢
    rw [(distinct.map injective).count, if_pos member]
    obtain ⟨b, inside, rfl⟩ := List.mem_map.mp member
    exact List.count_pos_iff.mpr (holds b inside)
  rw [← count_slotsOf (t := t) distinct small, heldCount, heldCount, deposit, ← List.count_append,
    ← List.map_append]
  exact ((inside.map Prod.snd).count_eq _).symm

/-! ## The invariant -/

/-- What the lock's holder relies on where it is. -/
def PcSound (slots : Nat) (c : Cell) : Pc → Prop
  | .unlocked | .locked _ => True
  | .peek _ task span w =>
      span ∈ c.active ∧ w ≤ wordsFor slots ∧
        ∀ sum, task = .count sum → sum = countBelow (c.bitmaps.allocWords span) w
  | .swap _ task span w | .store _ task span w _ =>
      span ∈ c.active ∧ w < wordsFor slots ∧
        ∀ sum, task = .count sum → sum = countBelow (c.bitmaps.allocWords span) w
  | .folded _ task span w word =>
      span ∈ c.active ∧ w < wordsFor slots ∧ word = c.bitmaps.allocWords span w ∧
        ∀ sum, task = .count sum → sum = countBelow (c.bitmaps.allocWords span) w
  | .recheck _ span _ | .retire _ span =>
      span ∈ c.active ∧ ∀ i < slots, c.bitmaps.allocBit span i = true
  | .reset _ span _ => span ∉ c.active

structure Inv (slots : Nat) (c : Cell) : Prop where
  distinct : c.active.Nodup
  held : ∀ x ∈ c.held, x.2.1 ∈ c.active ∧ x.2.2 < slots
  allocated : ∀ k i, c.bitmaps.allocBit k i = true →
    i < slots ∧ (k ∈ c.active ∨ ∃ t w, c.pc = .reset t k w ∧ w ≤ i / 64)
  freed : ∀ k i, c.bitmaps.freeBit k i = true → i < slots ∧ k ∈ c.active
  drains : ∀ k i, c.drained k i = true → i < slots ∧ k ∈ c.active
  once : ∀ span ∈ c.active, ∀ slot < slots,
    c.heldCount span slot + (c.bitmaps.freeBit span slot).toNat + (c.drained span slot).toNat +
      (c.bitmaps.allocBit span slot).toNat = 1
  moved : ∀ span slot, c.deposited span slot =
    c.moved span slot + (c.bitmaps.freeBit span slot).toNat + (c.drained span slot).toNat
  pc : PcSound slots c c.pc

variable {slots : Nat} {c c' : Cell} {t : Nat}

theorem start_inv : Inv slots start := by
  have clear : ∀ k i, start.bitmaps.allocBit k i = false ∧ start.bitmaps.freeBit k i = false :=
    fun _ _ => ⟨BitVec.getLsbD_zero, BitVec.getLsbD_zero⟩
  refine ⟨List.nodup_nil, nofun, fun k i set => ?_, fun k i set => ?_, nofun, nofun, fun k i => ?_,
    trivial⟩
  · rw [(clear k i).1] at set
    cases set
  · rw [(clear k i).2] at set
    cases set
  · rw [(clear k i).2]
    rfl

theorem heldCount_pos {k i : Nat} (pos : 0 < c.heldCount k i) : ∃ t, (t, k, i) ∈ c.held := by
  obtain ⟨⟨t, x⟩, member, same⟩ := List.mem_map.mp (List.count_pos_iff.mp pos)
  exact ⟨t, same ▸ member⟩

theorem Inv.heldCount_zero (inv : Inv slots c) {k i : Nat} (outside : ¬ (k ∈ c.active ∧ i < slots)) :
    c.heldCount k i = 0 := by
  by_contra some
  obtain ⟨t, member⟩ := heldCount_pos (Nat.pos_of_ne_zero some)
  exact outside (inv.held _ member)

theorem quiet {pc : Pc} (at_pc : c.pc = pc)
    (other : ∀ t task span w word, pc ≠ .store t task span w word) (k i : Nat) :
    c.drained k i = false := by
  unfold drained
  split
  · rename_i t task span w incoming same
    exact (other t task span w incoming (at_pc.symm.trans same)).elim
  · rfl

/-- The holder of the lock moves on and touches nothing. -/
theorem Inv.move (inv : Inv slots c) {pc : Pc} (before : ∀ k i, c.drained k i = false)
    (after : ∀ k i, { c with pc }.drained k i = false)
    (live : ∀ k i, c.bitmaps.allocBit k i = true → k ∈ c.active)
    (sound : PcSound slots { c with pc } pc) : Inv slots { c with pc } := by
  have same : ∀ k i, Cell.drained { c with pc } k i = c.drained k i := fun k i => by
    rw [before, after]
  refine ⟨inv.distinct, inv.held, fun k i set => ⟨(inv.allocated k i set).1, .inl (live k i set)⟩,
    inv.freed, fun k i set => ?_, ?_, ?_, sound⟩
  · rw [after] at set
    cases set
  · intro k active i small
    have := inv.once k active i small
    rwa [← same] at this
  · intro k i
    have := inv.moved k i
    rwa [← same] at this

theorem Inv.deposit (inv : Inv slots c) {span w : Nat} {bits : List Nat} (distinct : bits.Nodup)
    (small : ∀ b ∈ bits, b < 64) (holds : ∀ b ∈ bits, (t, span, w * 64 + b) ∈ c.held) :
    Inv slots (c.deposit t span w bits) := by
  have count := heldCount_deposit distinct small holds
  have free : ∀ k i, (c.deposit t span w bits).bitmaps.freeBit k i =
      (c.bitmaps.freeBit k i || hits span w (Word.maskOf bits) k i) :=
    SpanBitmaps.setMask_freeBit _ _ _ _
  have hit : ∀ k i, hits span w (Word.maskOf bits) k i = true → k ∈ c.active ∧ i < slots := by
    intro k i hit
    obtain ⟨rfl, rfl, member⟩ := hits_maskOf.mp hit
    have inside := inv.held _ (holds _ member)
    rwa [Nat.div_add_mod'] at inside
  refine ⟨inv.distinct, fun x member => inv.held x (List.diff_subset _ _ member), inv.allocated,
    fun k i set => ?_, inv.drains, fun k active i low => ?_, fun k i => ?_, ?_⟩
  · rw [free, Bool.or_eq_true] at set
    rcases set with old | new
    · exact inv.freed k i old
    · exact ⟨(hit k i new).2, (hit k i new).1⟩
  · have before := inv.once k active i low
    rw [count k i] at before
    rw [free, toNat_or (by omega)]
    have alloc : (c.deposit t span w bits).bitmaps.allocBit k i = c.bitmaps.allocBit k i := rfl
    have drained : (c.deposit t span w bits).drained k i = c.drained k i := rfl
    rw [alloc, drained]
    omega
  · have before := inv.moved k i
    have apart : (c.bitmaps.freeBit k i).toNat + (hits span w (Word.maskOf bits) k i).toNat ≤ 1 := by
      by_cases hit' : hits span w (Word.maskOf bits) k i = true
      · obtain ⟨active, low⟩ := hit k i hit'
        have only := inv.once k active i low
        rw [count k i] at only
        omega
      · rw [Bool.eq_false_iff.mpr hit', Bool.toNat_false]
        exact Bool.toNat_le _
    have drained : (c.deposit t span w bits).drained k i = c.drained k i := rfl
    have moved : (c.deposit t span w bits).moved k i = c.moved k i := rfl
    have deposited : (c.deposit t span w bits).deposited k i =
        c.deposited k i + (hits span w (Word.maskOf bits) k i).toNat := rfl
    rw [deposited, moved, drained, free, before, toNat_or apart]
    omega
  · have sound := inv.pc
    show PcSound slots (c.deposit t span w bits) c.pc
    cases at_pc : c.pc <;> rw [at_pc] at sound <;> exact sound

/-! ## Steps of the lock's holder -/

theorem putFree_free {b : SpanBitmaps} {span w k i : Nat} :
    (b.putFree span w 0#64).freeBit k i = (b.freeBit k i && !hits span w (b.freeWords span w) k i) := by
  rw [SpanBitmaps.putFree_freeBit, hits]
  by_cases here : k = span ∧ i / 64 = w
  · obtain ⟨rfl, rfl⟩ := here
    simp [SpanBitmaps.freeBit, bitAt]
  · simp [here]

theorem hits_free {b : SpanBitmaps} {span w k i : Nat}
    (hit : hits span w (b.freeWords span w) k i = true) : b.freeBit k i = true := by
  rw [hits, Bool.and_eq_true, decide_eq_true_iff] at hit
  obtain ⟨⟨rfl, rfl⟩, set⟩ := hit
  exact set

/-- The swap takes the deposits of a word out of `freeWords`. -/
theorem Inv.swap (inv : Inv slots c) {task : Task} {span w : Nat}
    (at_pc : c.pc = .swap t task span w) :
    Inv slots { c with
      bitmaps := c.bitmaps.putFree span w 0#64
      pc := .store t task span w (c.bitmaps.freeWords span w) } := by
  have sound := inv.pc
  rw [at_pc] at sound
  have before := quiet at_pc nofun
  have total : ∀ k i, ((c.bitmaps.putFree span w 0#64).freeBit k i).toNat +
      (hits span w (c.bitmaps.freeWords span w) k i).toNat = (c.bitmaps.freeBit k i).toNat := by
    intro k i
    rw [putFree_free]
    exact toNat_and_not hits_free
  refine ⟨inv.distinct, inv.held, fun k i set => ?_, fun k i set => ?_, fun k i set => ?_,
    fun k active i low => ?_, fun k i => ?_, sound⟩
  · obtain ⟨small, active | ⟨t', w', same, _⟩⟩ := inv.allocated k i set
    · exact ⟨small, .inl active⟩
    · rw [at_pc] at same
      cases same
  · rw [putFree_free, Bool.and_eq_true] at set
    exact inv.freed k i set.1
  · exact inv.freed k i (hits_free set)
  · have only := inv.once k active i low
    rw [before, ← total, Bool.toNat_false] at only
    have alloc : (c.bitmaps.putFree span w 0#64).allocBit k i = c.bitmaps.allocBit k i := rfl
    simp only [drained]
    rw [alloc]
    simp only [heldCount] at only ⊢
    omega
  · have account := inv.moved k i
    rw [before, ← total, Bool.toNat_false] at account
    simp only [drained]
    omega

/-- The store puts what was drained into `allocWords`. -/
theorem Inv.store (inv : Inv slots c) {task : Task} {span w : Nat} {incoming : Word}
    (at_pc : c.pc = .store t task span w incoming) :
    Inv slots { c with
      bitmaps := c.bitmaps.allocSetMask span w incoming
      pc := .folded t task span w (c.bitmaps.allocWords span w ||| incoming)
      moved := tally c.moved span w incoming } := by
  have sound := inv.pc
  rw [at_pc] at sound
  obtain ⟨active, inside, summed⟩ := sound
  have before : ∀ k i, c.drained k i = hits span w incoming k i := by
    intro k i
    simp only [drained, at_pc]
  have alloc : ∀ k i, (c.bitmaps.allocSetMask span w incoming).allocBit k i =
      (c.bitmaps.allocBit k i || hits span w incoming k i) :=
    SpanBitmaps.allocSetMask_allocBit _ _ _ _
  refine ⟨inv.distinct, inv.held, fun k i set => ?_, inv.freed, nofun, fun k active i low => ?_,
    fun k i => ?_, active, inside, ?_, fun sum same => ?_⟩
  · rw [alloc, Bool.or_eq_true] at set
    rcases set with old | new
    · obtain ⟨small, active | ⟨t', w', same, _⟩⟩ := inv.allocated k i old
      · exact ⟨small, .inl active⟩
      · rw [at_pc] at same
        cases same
    · rw [← before] at new
      exact ⟨(inv.drains k i new).1, .inl (inv.drains k i new).2⟩
  · have only := inv.once k active i low
    rw [before] at only
    have merged := toNat_or (a := c.bitmaps.allocBit k i) (b := hits span w incoming k i) (by omega)
    rw [← alloc] at merged
    have free : (c.bitmaps.allocSetMask span w incoming).freeBit k i = c.bitmaps.freeBit k i := rfl
    simp only [drained, Bool.toNat_false]
    rw [merged, free]
    simp only [heldCount] at only ⊢
    omega
  · have account := inv.moved k i
    rw [before] at account
    have free : (c.bitmaps.allocSetMask span w incoming).freeBit k i = c.bitmaps.freeBit k i := rfl
    simp only [drained, Bool.toNat_false, tally]
    rw [free]
    omega
  · simp only [SpanBitmaps.allocSetMask, SpanBitmaps.putAlloc, Function.update_self]
  · rw [summed sum same]
    refine countBelow_congr fun v below => ?_
    have apart : v ≠ w := by omega
    simp only [SpanBitmaps.allocSetMask, SpanBitmaps.putAlloc, Function.update_self,
      Function.update_of_ne apart]

/-- The hand-out clears the bits it takes and gives their slots to the holder. -/
theorem Inv.handOut (inv : Inv slots c) {room span w : Nat} {word : Word}
    (at_pc : c.pc = .folded t (.scan room) span w word) :
    Inv slots { c with
      bitmaps := c.bitmaps.allocClear span w (Word.maskOf (Word.lowest room word))
      held := slotsOf t span w (Word.lowest room word) ++ c.held
      pc := .peek t (.scan (room - (Word.lowest room word).length)) span (w + 1) } := by
  have sound := inv.pc
  rw [at_pc] at sound
  obtain ⟨active, inside, rfl, _⟩ := sound
  generalize shown : Word.lowest room (c.bitmaps.allocWords span w) = bits at at_pc ⊢
  have before := quiet at_pc nofun
  have small : ∀ b ∈ bits, b < 64 := by
    intro b member
    by_contra high
    have set := Word.set_of_mem_lowest (shown ▸ member)
    rw [Word.getLsbD_outside (Nat.le_of_not_lt high)] at set
    cases set
  have taken : ∀ k i, hits span w (Word.maskOf bits) k i = true → c.bitmaps.allocBit k i = true := by
    intro k i hit
    obtain ⟨rfl, rfl, member⟩ := hits_maskOf.mp hit
    exact Word.set_of_mem_lowest (shown ▸ member)
  have alloc : ∀ k i, (c.bitmaps.allocClear span w (Word.maskOf bits)).allocBit k i =
      (c.bitmaps.allocBit k i && !hits span w (Word.maskOf bits) k i) :=
    SpanBitmaps.allocClear_allocBit _ _ _ _
  refine ⟨inv.distinct, fun x member => ?_, fun k i set => ?_, inv.freed, nofun,
    fun k active i low => ?_, fun k i => ?_, active, inside, nofun⟩
  · rcases List.mem_append.mp member with new | old
    · obtain ⟨b, given, rfl⟩ := List.mem_map.mp new
      have hit : hits span w (Word.maskOf bits) span (w * 64 + b) = true := by
        have := small b given
        exact hits_maskOf.mpr ⟨rfl, by omega, by rwa [show (w * 64 + b) % 64 = b by omega]⟩
      exact ⟨active, (inv.allocated _ _ (taken _ _ hit)).1⟩
    · exact inv.held x old
  · rw [alloc, Bool.and_eq_true] at set
    obtain ⟨low, active | ⟨t', w', same, _⟩⟩ := inv.allocated k i set.1
    · exact ⟨low, .inl active⟩
    · rw [at_pc] at same
      cases same
  · have only := inv.once k active i low
    have left := toNat_and_not (taken k i)
    rw [← alloc] at left
    have count : ((slotsOf t span w bits ++ c.held).map Prod.snd).count (k, i) =
        (hits span w (Word.maskOf bits) k i).toNat + c.heldCount k i := by
      rw [List.map_append, List.count_append,
        count_slotsOf (shown ▸ Word.lowest_nodup room _) small, heldCount]
    have free : (c.bitmaps.allocClear span w (Word.maskOf bits)).freeBit k i =
        c.bitmaps.freeBit k i := rfl
    rw [before, Bool.toNat_false] at only
    simp only [drained, heldCount, Bool.toNat_false]
    rw [count, free]
    omega
  · have account := inv.moved k i
    rw [before] at account
    exact account

/-- The last word is counted: the span is full exactly when the count says so. -/
theorem Inv.full (inv : Inv slots c) {span : Nat}
    (counted : countBelow (c.bitmaps.allocWords span) (wordsFor slots) = slots) {i : Nat}
    (low : i < slots) : c.bitmaps.allocBit span i = true :=
  full_of_countBelow (fun j _ set => (inv.allocated span j set).1) counted low

theorem Inv.full_alone (inv : Inv slots c) {span : Nat} (active : span ∈ c.active)
    (full : ∀ i < slots, c.bitmaps.allocBit span i = true) (i : Nat) :
    c.heldCount span i = 0 ∧ c.bitmaps.freeBit span i = false ∧ c.drained span i = false := by
  by_cases low : i < slots
  · have only := inv.once span active i low
    rw [full i low, Bool.toNat_true] at only
    refine ⟨by omega, ?_, ?_⟩
    · exact Bool.toNat_eq_zero.mp (by omega)
    · exact Bool.toNat_eq_zero.mp (by omega)
  · refine ⟨inv.heldCount_zero fun inside => low inside.2, ?_, ?_⟩
    · exact Bool.eq_false_iff.mpr fun set => low (inv.freed span i set).1
    · exact Bool.eq_false_iff.mpr fun set => low (inv.drains span i set).1

/-- A full span leaves the active list. -/
theorem Inv.retire (inv : Inv slots c) {span : Nat} (at_pc : c.pc = .retire t span) :
    Inv slots { c with active := c.active.erase span, pc := .reset t span 0 } := by
  have sound := inv.pc
  rw [at_pc] at sound
  obtain ⟨active, full⟩ := sound
  have alone := inv.full_alone active full
  have before := quiet at_pc nofun
  have stays : ∀ {k}, k ∈ c.active → k ≠ span → k ∈ c.active.erase span := fun member other =>
    (List.mem_erase_of_ne other).mpr member
  refine ⟨inv.distinct.erase span, fun x member => ?_, fun k i set => ?_, fun k i set => ?_, nofun,
    fun k member i low => ?_, fun k i => ?_, inv.distinct.not_mem_erase⟩
  · obtain ⟨inside, low⟩ := inv.held x member
    refine ⟨stays inside fun same => ?_, low⟩
    have none := (alone x.2.2).1
    rw [heldCount, List.count_eq_zero] at none
    exact none (List.mem_map.mpr ⟨x, member, by rw [← same]⟩)
  · obtain ⟨low, _⟩ := inv.allocated k i set
    by_cases same : k = span
    · exact ⟨low, .inr ⟨t, 0, by rw [same], Nat.zero_le _⟩⟩
    · rcases (inv.allocated k i set).2 with inside | ⟨t', w', wrong, _⟩
      · exact ⟨low, .inl (stays inside same)⟩
      · rw [at_pc] at wrong
        cases wrong
  · obtain ⟨low, inside⟩ := inv.freed k i set
    refine ⟨low, stays inside fun same => ?_⟩
    rw [same, (alone i).2.1] at set
    cases set
  · have only := inv.once k (List.mem_of_mem_erase member) i low
    rw [before] at only
    exact only
  · have account := inv.moved k i
    rw [before] at account
    exact account

/-- A word of a retired span is cleared; its deposits were none. -/
theorem Inv.reset (inv : Inv slots c) {span w : Nat} (at_pc : c.pc = .reset t span w) :
    Inv slots { c with
      bitmaps := (c.bitmaps.putAlloc span w 0#64).putFree span w 0#64
      pc := .reset t span (w + 1) } := by
  have outside := inv.pc
  rw [at_pc] at outside
  have before := quiet at_pc nofun
  have free : ∀ k i, ((c.bitmaps.putAlloc span w 0#64).putFree span w 0#64).freeBit k i =
      c.bitmaps.freeBit k i := by
    intro k i
    rw [SpanBitmaps.putFree_freeBit]
    split
    · rename_i here
      rw [here.1, BitVec.getLsbD_zero]
      exact (Bool.eq_false_iff.mpr fun set => outside (inv.freed span i set).2).symm
    · rfl
  have alloc : ∀ k i, ((c.bitmaps.putAlloc span w 0#64).putFree span w 0#64).allocBit k i =
      if k = span ∧ i / 64 = w then false else c.bitmaps.allocBit k i := by
    intro k i
    rw [SpanBitmaps.putFree_allocBit, SpanBitmaps.putAlloc_allocBit, BitVec.getLsbD_zero]
  refine ⟨inv.distinct, inv.held, fun k i set => ?_, fun k i set => ?_, nofun,
    fun k active i low => ?_, fun k i => ?_, outside⟩
  · rw [alloc] at set
    split at set
    · cases set
    · rename_i elsewhere
      obtain ⟨low, inside | ⟨t', w', same, above⟩⟩ := inv.allocated k i set
      · exact ⟨low, .inl inside⟩
      · rw [at_pc] at same
        cases same
        exact ⟨low, .inr ⟨t, w + 1, rfl, by omega⟩⟩
  · rw [free] at set
    exact inv.freed k i set
  · have only := inv.once k active i low
    have other : k ≠ span := fun same => outside (same ▸ active)
    rw [before] at only
    simp only [drained]
    rw [free, alloc, if_neg fun here => other here.1]
    exact only
  · have account := inv.moved k i
    rw [before] at account
    simp only [drained]
    rw [free]
    exact account

theorem Inv.live (inv : Inv slots c) {pc : Pc} (at_pc : c.pc = pc)
    (other : ∀ t k w, pc ≠ .reset t k w) (k i : Nat) (set : c.bitmaps.allocBit k i = true) :
    k ∈ c.active := by
  rcases (inv.allocated k i set).2 with inside | ⟨t, w, same, _⟩
  · exact inside
  · exact (other t k w (at_pc.symm.trans same)).elim

theorem Inv.exec (inv : Inv slots c) : Inv slots (c.exec slots) := by
  have sound := inv.pc
  cases at_pc : c.pc with
  | unlocked => simpa only [Cell.exec, at_pc] using inv
  | locked t => simpa only [Cell.exec, at_pc] using inv
  | peek t task span w =>
      rw [at_pc] at sound
      obtain ⟨active, inside, summed⟩ := sound
      have calm := quiet at_pc (by simp)
      have carved := inv.live at_pc (by simp)
      cases task with
      | scan room =>
          simp only [Cell.exec, at_pc]
          split
          · exact inv.move calm (fun _ _ => rfl) carved trivial
          · rename_i more
            split
            · exact inv.move calm (fun _ _ => rfl) carved ⟨active, by omega, rfl, by simp⟩
            · exact inv.move calm (fun _ _ => rfl) carved ⟨active, by omega, by simp⟩
      | count sum =>
          simp only [Cell.exec, at_pc]
          split
          · rename_i done
            split
            · rename_i counted
              refine inv.move calm (fun _ _ => rfl) carved ⟨active, fun i low => ?_⟩
              have := summed sum rfl
              rw [show w = wordsFor slots by omega, counted] at this
              exact inv.full this.symm low
            · exact inv.move calm (fun _ _ => rfl) carved trivial
          · split
            · exact inv.move calm (fun _ _ => rfl) carved ⟨active, by omega, rfl, summed⟩
            · exact inv.move calm (fun _ _ => rfl) carved ⟨active, by omega, summed⟩
  | swap t task span w =>
      simp only [Cell.exec, at_pc]
      exact inv.swap at_pc
  | store t task span w incoming =>
      simp only [Cell.exec, at_pc]
      exact inv.store at_pc
  | folded t task span w word =>
      cases task with
      | scan room =>
          simp only [Cell.exec, at_pc]
          split
          · rw [at_pc] at sound
            obtain ⟨active, inside, _⟩ := sound
            exact inv.move (quiet at_pc (by simp)) (fun _ _ => rfl) (inv.live at_pc (by simp))
              ⟨active, inside, by simp⟩
          · exact inv.handOut at_pc
      | count sum =>
          rw [at_pc] at sound
          obtain ⟨active, inside, rfl, summed⟩ := sound
          simp only [Cell.exec, at_pc]
          refine inv.move (quiet at_pc (by simp)) (fun _ _ => rfl) (inv.live at_pc (by simp))
            ⟨active, inside, fun sum' same => ?_⟩
          cases same
          rw [countBelow, summed sum rfl]
  | recheck t span w =>
      rw [at_pc] at sound
      have calm := quiet at_pc (by simp)
      have carved := inv.live at_pc (by simp)
      simp only [Cell.exec, at_pc]
      split
      · exact inv.move calm (fun _ _ => rfl) carved sound
      · split
        · exact inv.move calm (fun _ _ => rfl) carved trivial
        · exact inv.move calm (fun _ _ => rfl) carved sound
  | retire t span =>
      simp only [Cell.exec, at_pc]
      exact inv.retire at_pc
  | reset t span w =>
      simp only [Cell.exec, at_pc]
      split
      · rename_i done
        refine inv.move (quiet at_pc (by simp)) (fun _ _ => rfl) (fun k i set => ?_) trivial
        obtain ⟨low, inside | ⟨t', w', same, above⟩⟩ := inv.allocated k i set
        · exact inside
        · rw [at_pc] at same
          cases same
          unfold wordsFor at done
          omega
      · exact inv.reset at_pc

/-- A fresh span joins the active list with every slot free. -/
theorem Inv.carve (inv : Inv slots c) {span : Nat} (at_pc : c.pc = .locked t)
    (outside : span ∉ c.active) :
    Inv slots { c with
      bitmaps := c.bitmaps.tileSpan span slots
      active := span :: c.active } := by
  obtain ⟨_, free, alloc⟩ := c.bitmaps.tileSpan_spec span slots
  have before := quiet at_pc nofun
  have sameFree : ∀ k i, (c.bitmaps.tileSpan span slots).freeBit k i = c.bitmaps.freeBit k i := by
    intro k i
    rw [SpanBitmaps.freeBit, free, SpanBitmaps.freeBit]
  have unset : ∀ i, c.bitmaps.allocBit span i = false ∧ c.bitmaps.freeBit span i = false := by
    intro i
    refine ⟨Bool.eq_false_iff.mpr fun set => ?_, Bool.eq_false_iff.mpr fun set => ?_⟩
    · rcases (inv.allocated span i set).2 with inside | ⟨t', w', same, _⟩
      · exact outside inside
      · rw [at_pc] at same
        cases same
    · exact outside (inv.freed span i set).2
  refine ⟨List.nodup_cons.mpr ⟨outside, inv.distinct⟩, fun x member => ?_, fun k i set => ?_,
    fun k i set => ?_, fun k i set => ?_, fun k member i low => ?_, fun k i => ?_, ?_⟩
  · exact ⟨List.mem_cons_of_mem _ (inv.held x member).1, (inv.held x member).2⟩
  · rw [alloc, Bool.or_eq_true, decide_eq_true_iff] at set
    rcases set with old | ⟨rfl, low⟩
    · obtain ⟨low, inside | ⟨t', w', same, _⟩⟩ := inv.allocated k i old
      · exact ⟨low, .inl (List.mem_cons_of_mem _ inside)⟩
      · rw [at_pc] at same
        cases same
    · exact ⟨low, .inl List.mem_cons_self⟩
  · rw [sameFree] at set
    exact ⟨(inv.freed k i set).1, List.mem_cons_of_mem _ (inv.freed k i set).2⟩
  · have := before k i
    rw [show c.drained k i = true from set] at this
    cases this
  · have still : Cell.drained { c with
        bitmaps := c.bitmaps.tileSpan span slots, active := span :: c.active } k i = false :=
      before k i
    rw [still, sameFree, alloc]
    by_cases same : k = span
    · subst same
      have none : c.heldCount k i = 0 := inv.heldCount_zero fun inside => outside inside.1
      rw [(unset i).1, (unset i).2, decide_eq_true ⟨rfl, low⟩]
      simp only [heldCount] at none ⊢
      simp only [none, Bool.toNat_false, Bool.or_true, Bool.toNat_true]
    · have only := inv.once k ((List.mem_cons.mp member).resolve_left same) i low
      rw [before] at only
      simp only [same, false_and, decide_false, Bool.or_false]
      exact only
  · have account := inv.moved k i
    rw [before] at account
    have still : Cell.drained { c with
        bitmaps := c.bitmaps.tileSpan span slots, active := span :: c.active } k i = false :=
      before k i
    rw [still, sameFree]
    exact account
  · show PcSound slots _ c.pc
    rw [at_pc]
    trivial

theorem Inv.step (inv : Inv slots c) (taken : Step slots c c') : Inv slots c' := by
  cases taken with
  | deposit t span w bits distinct small holds => exact inv.deposit distinct small holds
  | lock t at_pc =>
      exact inv.move (quiet at_pc nofun) (fun _ _ => rfl) (inv.live at_pc nofun) trivial
  | unlock at_pc =>
      exact inv.move (quiet at_pc nofun) (fun _ _ => rfl) (inv.live at_pc nofun) trivial
  | carve span at_pc outside => exact inv.carve at_pc outside
  | scan span room at_pc active =>
      exact inv.move (quiet at_pc nofun) (fun _ _ => rfl) (inv.live at_pc nofun)
        ⟨active, Nat.zero_le _, nofun⟩
  | check span at_pc active =>
      refine inv.move (quiet at_pc nofun) (fun _ _ => rfl) (inv.live at_pc nofun)
        ⟨active, Nat.zero_le _, fun sum same => ?_⟩
      cases same
      rfl
  | exec => exact inv.exec

/-- For every interleaving of deposits with the work of the lock's holder, no free is
    lost and none is duplicated. -/
theorem reachable_conserved (reached : Reachable (· = start) (Step slots) c) :
    Conserved slots c := by
  have inv : Inv slots c := reached.invariant (fun _ same => same ▸ start_inv)
    fun _ _ inv taken => inv.step taken
  refine ⟨inv.once, fun t room span w word at_pc b given => ?_, inv.moved,
    fun t span w at_pc slot => ?_⟩
  · have sound := inv.pc
    rw [at_pc] at sound
    obtain ⟨active, _, rfl, _⟩ := sound
    have set := Word.set_of_mem_lowest given
    have small : b < 64 := by
      by_contra high
      rw [Word.getLsbD_outside (Nat.le_of_not_lt high)] at set
      cases set
    rw [← bitAt_word small] at set
    have only := inv.once span active _ (inv.allocated span _ set).1
    rw [SpanBitmaps.allocBit, set, Bool.toNat_true] at only
    omega
  · have sound := inv.pc
    rcases at_pc with retires | resets
    · rw [retires] at sound
      obtain ⟨none, free, _⟩ := inv.full_alone sound.1 sound.2 slot
      exact ⟨none, free⟩
    · rw [resets] at sound
      refine ⟨inv.heldCount_zero fun inside => sound inside.1, ?_⟩
      exact Bool.eq_false_iff.mpr fun set => sound (inv.freed span slot set).2

/-- A span of one slot: it is handed out, freed while another thread holds the lock,
    folded back and found empty. -/
theorem reachable_conserved_round :
    ∃ c, Reachable (· = start) (Step 1) c ∧ c.pc = .retire 1 5 ∧ c.deposited 5 0 = 1 ∧
      Conserved 1 c := by
  have h₀ : Reachable (· = start) (Step 1) start := .start rfl
  have h₁ := h₀.next (.lock 0 rfl)
  have h₂ := h₁.next (.carve 5 rfl (by decide))
  have h₃ := h₂.next (.scan 5 1 rfl (by decide))
  have h₄ := h₃.next .exec
  have h₅ := h₄.next .exec
  have h₆ := h₅.next .exec
  have h₇ := h₆.next (.unlock (t := 0) (by decide +kernel))
  have h₈ := h₇.next (.lock 1 rfl)
  have h₉ := h₈.next (.check 5 rfl (by decide +kernel))
  have h₁₀ := h₉.next (.deposit 0 5 0 [0] (by decide) (by decide) (by decide +kernel))
  have h₁₁ := h₁₀.next .exec
  have h₁₂ := h₁₁.next .exec
  have h₁₃ := h₁₂.next .exec
  have h₁₄ := h₁₃.next .exec
  have h₁₅ := h₁₄.next .exec
  have h₁₆ := h₁₅.next .exec
  have h₁₇ := h₁₆.next .exec
  exact ⟨_, h₁₇, by decide +kernel, by decide +kernel, reachable_conserved h₁₇⟩

end Cell

end Toccata.Deposit
