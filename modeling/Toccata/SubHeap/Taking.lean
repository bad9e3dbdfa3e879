import Toccata.SubHeap.Custody

/-! # What a cell hands out

A cell is a list of spans with free bits. Taking from it visits the hinted span, if it
is still of the class, and then the list, and hands out the slots found free in that
order until there is no more room: a prefix of all free slots, each once.
-/

namespace Toccata

open Foundations SizeClass

namespace SpanBitmaps

variable {b b' : SpanBitmaps} {k w n room : Nat}

/-- A slot free on either side. -/
def isFree (b : SpanBitmaps) (k i : Nat) : Bool := b.allocBit k i || b.freeBit k i

/-- The free slots of a span in `[lo, lo + n)`, the lowest first. -/
def freeSlots (b : SpanBitmaps) (k lo n : Nat) : List Nat := (List.range' lo n).filter (b.isFree k)

theorem mem_freeSlots {lo i : Nat} :
    i ∈ b.freeSlots k lo n ↔ (lo ≤ i ∧ i < lo + n) ∧ b.isFree k i = true := by
  rw [freeSlots, List.mem_filter, List.mem_range'_1]

theorem freeSlots_sorted (b : SpanBitmaps) (k lo n : Nat) :
    (b.freeSlots k lo n).Pairwise (· < ·) :=
  (List.pairwise_lt_range' 1).filter _

theorem freeSlots_congr {lo : Nat} (same : ∀ i, lo ≤ i → b'.isFree k i = b.isFree k i) :
    b'.freeSlots k lo n = b.freeSlots k lo n :=
  List.filter_congr fun i member => same i (List.mem_range'_1.mp member).1

/-- Bits past the slots make no difference. -/
theorem freeSlots_extend {m : Nat} (le : n ≤ m) (tiled : ∀ i, b.isFree k i = true → i < n) :
    b.freeSlots k 0 m = b.freeSlots k 0 n := by
  apply List.Pairwise.eq_of_mem_iff (b.freeSlots_sorted k 0 m) (b.freeSlots_sorted k 0 n)
  intro i
  rw [mem_freeSlots, mem_freeSlots]
  constructor
  · rintro ⟨-, free⟩
    exact ⟨⟨Nat.zero_le i, by rw [Nat.zero_add]; exact tiled i free⟩, free⟩
  · rintro ⟨inside, free⟩
    exact ⟨⟨inside.1, by omega⟩, free⟩

/-- Two bitmaps that differ in the bits of one span only. -/
structure OnlyAt (k : Nat) (b b' : SpanBitmaps) : Prop where
  links : SameLinks b b'
  alloc : ∀ j, j ≠ k → b'.allocWords j = b.allocWords j
  free : ∀ j, j ≠ k → b'.freeWords j = b.freeWords j

theorem OnlyAt.refl (k : Nat) (b : SpanBitmaps) : OnlyAt k b b :=
  ⟨SameLinks.refl b, fun _ _ => rfl, fun _ _ => rfl⟩

theorem OnlyAt.trans {b'' : SpanBitmaps} (h : OnlyAt k b b') (h' : OnlyAt k b' b'') :
    OnlyAt k b b'' :=
  ⟨h.links.trans h'.links, fun j other => (h'.alloc j other).trans (h.alloc j other),
    fun j other => (h'.free j other).trans (h.free j other)⟩

theorem OnlyAt.isFree (h : OnlyAt k b b') {j : Nat} (other : j ≠ k) (i : Nat) :
    b'.isFree j i = b.isFree j i := by
  simp only [SpanBitmaps.isFree, allocBit, freeBit, h.alloc j other, h.free j other]

theorem foldFreeWord_onlyAt (b : SpanBitmaps) (k w : Nat) : OnlyAt k b (b.foldFreeWord k w).2 := by
  unfold foldFreeWord
  split
  · exact OnlyAt.refl k b
  · exact ⟨⟨rfl, rfl, rfl⟩, fun _ other => Function.update_of_ne other _ _,
      fun _ other => Function.update_of_ne other _ _⟩

theorem allocClear_onlyAt (b : SpanBitmaps) (k w : Nat) (taken : Word) :
    OnlyAt k b (b.allocClear k w taken) :=
  ⟨⟨rfl, rfl, rfl⟩, fun _ other => Function.update_of_ne other _ _, fun _ _ => rfl⟩

/-- Folding changes on which side a slot is free, not whether it is. -/
theorem foldFreeWord_isFree (b : SpanBitmaps) (k w j i : Nat) :
    (b.foldFreeWord k w).2.isFree j i = b.isFree j i := by
  obtain ⟨-, -, bits⟩ := b.foldFreeWord_spec k w
  simp only [isFree, (bits j i).1, (bits j i).2]
  cases b.allocBit j i <;> cases b.freeBit j i <;> cases decide (j = k ∧ i / 64 = w) <;> rfl

/-- The word a fold returns has the bits of the free slots. -/
theorem foldFreeWord_bit (b : SpanBitmaps) (k w : Nat) {i : Nat} (low : i < 64) :
    (b.foldFreeWord k w).1.getLsbD i = b.isFree k (w * 64 + i) := by
  obtain ⟨-, word, bits⟩ := b.foldFreeWord_spec k w
  have here : (w * 64 + i) / 64 = w := by omega
  rw [word, ← bitAt_word low]
  change (b.foldFreeWord k w).2.allocBit k (w * 64 + i) = _
  rw [(bits k (w * 64 + i)).1, here]
  simp only [and_self, decide_true, Bool.true_and, isFree]

/-- The positions of that word are the free slots of its 64. -/
theorem foldFreeWord_positions (b : SpanBitmaps) (k w : Nat) :
    (b.foldFreeWord k w).1.positions.map (w * 64 + ·) = b.freeSlots k (w * 64) 64 := by
  have shifted : (List.range 64).map (w * 64 + ·) = List.range' (w * 64) 64 := by
    rw [List.range_eq_range', List.map_add_range', Nat.add_zero]
  rw [Word.positions, freeSlots, ← shifted, List.filter_map]
  congr 1
  apply List.filter_congr
  intro i member
  exact b.foldFreeWord_bit k w (List.mem_range.mp member)

theorem freeSlots_succ (b : SpanBitmaps) (k w left : Nat) :
    b.freeSlots k (w * 64) ((left + 1) * 64) =
      b.freeSlots k (w * 64) 64 ++ b.freeSlots k ((w + 1) * 64) (left * 64) := by
  rw [freeSlots, freeSlots, freeSlots, ← List.filter_append, show (w + 1) * 64 = w * 64 + 64 by omega,
    List.range'_append_1, show 64 + left * 64 = (left + 1) * 64 by omega]

end SpanBitmaps

namespace SubHeap

open SpanBitmaps

variable {s s' : SubHeap} {b b' : SpanBitmaps} {k osz left w room : Nat} {objs : List Nat}

/-! ## One span -/

/-- Handing out the slots `taken` of a span. -/
structure HandsOut (k osz : Nat) (b b' : SpanBitmaps) (taken : List Nat) (objs : List Nat) : Prop where
  objects : objs = taken.map fun i => b.spanBase k + i * osz
  only : OnlyAt k b b'
  cleared : ∀ i, b'.isFree k i = (b.isFree k i && !decide (i ∈ taken))

theorem HandsOut.nil (k osz : Nat) (b : SpanBitmaps) : HandsOut k osz b b [] [] :=
  ⟨rfl, OnlyAt.refl k b, fun i => by simp⟩

/-- One word: its lowest free slots. -/
theorem handsOut_word (b : SpanBitmaps) (k osz w room : Nat) :
    HandsOut k osz b
      ((b.foldFreeWord k w).2.allocClear k w
        (Word.maskOf (Word.lowest room (b.foldFreeWord k w).1)))
      ((b.freeSlots k (w * 64) 64).take room)
      ((Word.lowest room (b.foldFreeWord k w).1).map
        fun bit => b.spanBase k + (w * 64 + bit) * osz) := by
  have slots : (b.freeSlots k (w * 64) 64).take room =
      (Word.lowest room (b.foldFreeWord k w).1).map (w * 64 + ·) := by
    rw [Word.lowest_eq, List.map_take, b.foldFreeWord_positions]
  refine ⟨?_, (b.foldFreeWord_onlyAt k w).trans (allocClear_onlyAt ..), fun i => ?_⟩
  · rw [slots, List.map_map]
    rfl
  · obtain ⟨-, word, bits⟩ := b.foldFreeWord_spec k w
    have kept := b.foldFreeWord_isFree k w k i
    simp only [SpanBitmaps.isFree, allocClear_allocBit, Word.getLsbD_maskOf, true_and] at kept ⊢
    change (_ || (b.foldFreeWord k w).2.freeBit k i) = _
    rw [← kept, slots]
    by_cases here : i / 64 = w
    · -- in this word nothing is left on the deposit side
      have folded : (b.foldFreeWord k w).2.freeBit k i = false := by
        rw [(bits k i).2, here]
        simp
      have index : w * 64 + i % 64 = i := by omega
      have member : i ∈ (Word.lowest room (b.foldFreeWord k w).1).map (w * 64 + ·) ↔
          i % 64 ∈ Word.lowest room (b.foldFreeWord k w).1 ∧ i % 64 < 64 := by
        rw [List.mem_map]
        constructor
        · rintro ⟨bit, set, rfl⟩
          have low := Word.lt_of_mem_lowest set
          rw [show (w * 64 + bit) % 64 = bit by omega]
          exact ⟨set, low⟩
        · rintro ⟨set, -⟩
          exact ⟨i % 64, set, index⟩
      rw [folded, Bool.or_false, Bool.or_false, decide_eq_true here, Bool.true_and,
        decide_eq_decide.mpr member]
    · have outside : ¬ i ∈ (Word.lowest room (b.foldFreeWord k w).1).map (w * 64 + ·) := by
        rw [List.mem_map]
        rintro ⟨bit, set, rfl⟩
        have low := Word.lt_of_mem_lowest set
        omega
      rw [decide_eq_false here, decide_eq_false outside]
      simp

/-- Two stretches of one span, one after the other. -/
theorem HandsOut.append {b₁ : SpanBitmaps} {taken taken' objs' : List Nat}
    (first : HandsOut k osz b b₁ taken objs) (second : HandsOut k osz b₁ b' taken' objs') :
    HandsOut k osz b b' (taken ++ taken') (objs ++ objs') where
  objects := by
    have base : b₁.spanBase k = b.spanBase k := by
      rw [SpanBitmaps.spanBase, SpanBitmaps.spanBase, first.only.links.base]
    rw [List.map_append, ← first.objects, second.objects, base]
  only := first.only.trans second.only
  cleared i := by
    rw [second.cleared, first.cleared, Bool.and_assoc, ← Bool.not_or, ← Bool.decide_or,
      decide_eq_decide.mpr (List.mem_append (a := i) (s := taken) (t := taken')).symm]

/-- A scan hands out the free slots of its words, the lowest first, until there is no
    room. -/
theorem scanWords_handsOut (k osz left w room : Nat) (b : SpanBitmaps) :
    HandsOut k osz b (scanWords k osz left w room b).2
      ((b.freeSlots k (w * 64) (left * 64)).take room) (scanWords k osz left w room b).1 := by
  induction left generalizing w room b with
  | zero =>
      rw [Nat.zero_mul, freeSlots, List.range'_zero, List.filter_nil, List.take_nil]
      exact HandsOut.nil k osz b
  | succ left ih =>
      rw [scanWords_succ]
      split
      · rename_i full
        rw [full, List.take_zero]
        exact HandsOut.nil k osz b
      · obtain ⟨word, folded, fold⟩ : ∃ word folded, b.foldFreeWord k w = (word, folded) :=
          ⟨_, _, rfl⟩
        have first := handsOut_word b k osz w room
        have free := b.foldFreeWord_isFree k w
        have only := b.foldFreeWord_onlyAt k w
        have length : (b.freeSlots k (w * 64) 64).length = word.positions.length := by
          rw [← b.foldFreeWord_positions, List.length_map, fold]
        rw [fold] at first free only
        simp only [fold]
        rw [freeSlots_succ, List.take_append]
        split
        · rename_i zero
          rw [zero, Word.positions_zero, List.length_nil] at length
          rw [List.eq_nil_of_length_eq_zero length, List.take_nil, List.length_nil, Nat.sub_zero,
            ← freeSlots_congr fun i _ => free k i]
          have moved : HandsOut k osz b folded [] [] :=
            ⟨rfl, only, fun i => by simp [free]⟩
          exact moved.append (ih (w + 1) room folded)
        · have rest := ih (w + 1) (room - (Word.lowest room word).length)
            (folded.allocClear k w (Word.maskOf (Word.lowest room word)))
          have later : freeSlots (folded.allocClear k w (Word.maskOf (Word.lowest room word))) k
              ((w + 1) * 64) (left * 64) = b.freeSlots k ((w + 1) * 64) (left * 64) := by
            apply freeSlots_congr
            intro i high
            rw [first.cleared, decide_eq_false, Bool.not_false, Bool.and_true]
            intro member
            have := (mem_freeSlots.mp (List.mem_of_mem_take member)).1
            omega
          have room' : room - (Word.lowest room word).length =
              room - (b.freeSlots k (w * 64) 64).length := by
            rw [Word.lowest_eq, List.length_take, length]
            omega
          rw [later, room'] at rest
          have base : ∀ b₂, OnlyAt k (folded.allocClear k w (Word.maskOf (Word.lowest room word))) b₂ →
              b₂.spanBase k = b.spanBase k := by
            intro b₂ after
            rw [SpanBitmaps.spanBase, SpanBitmaps.spanBase, (first.only.trans after).links.base]
          rw [room', base _ rest.only]
          exact first.append rest

/-! ## A list of spans -/

/-- The free slots of some spans, span after span. -/
def slotsOf (b : SpanBitmaps) (n : Nat) (spans : List Nat) : List (Nat × Nat) :=
  spans.flatMap fun k => (b.freeSlots k 0 n).map (k, ·)

theorem mem_slotsOf {n : Nat} {spans : List Nat} {x : Nat × Nat} :
    x ∈ slotsOf b n spans ↔ x.1 ∈ spans ∧ x.2 < n ∧ b.isFree x.1 x.2 = true := by
  simp only [slotsOf, List.mem_flatMap, List.mem_map, mem_freeSlots, Nat.zero_le, true_and,
    Nat.zero_add]
  constructor
  · rintro ⟨k, member, i, ⟨inside, free⟩, rfl⟩
    exact ⟨member, inside, free⟩
  · rintro ⟨member, inside, free⟩
    exact ⟨x.1, member, x.2, ⟨inside, free⟩, rfl⟩

/-- Within a span the slots ascend. -/
theorem slotsOf_ascending {n : Nat} {spans : List Nat} (distinct : spans.Nodup) :
    (slotsOf b n spans).Pairwise fun x y => x.1 = y.1 → x.2 < y.2 := by
  rw [slotsOf, List.pairwise_flatMap]
  constructor
  · intro k _
    rw [List.pairwise_map]
    apply (b.freeSlots_sorted k 0 n).imp
    intro i j below _
    exact below
  · refine distinct.imp fun different x member y member' same => ?_
    obtain ⟨i, -, rfl⟩ := List.mem_map.mp member
    obtain ⟨j, -, rfl⟩ := List.mem_map.mp member'
    exact (different same).elim

theorem slotsOf_congr {n : Nat} {spans : List Nat}
    (same : ∀ k ∈ spans, ∀ i, b'.isFree k i = b.isFree k i) :
    slotsOf b' n spans = slotsOf b n spans := by
  induction spans with
  | nil => rfl
  | cons k rest ih =>
      rw [slotsOf, slotsOf, List.flatMap_cons, List.flatMap_cons,
        freeSlots_congr fun i _ => same k List.mem_cons_self i]
      congr 1
      exact ih fun k member => same k (List.mem_cons_of_mem _ member)

/-- Handing out the slots `taken` of the spans `spans`. -/
structure Hands (osz : Nat) (spans : List Nat) (b b' : SpanBitmaps) (taken : List (Nat × Nat))
    (objs : List Nat) : Prop where
  objects : objs = taken.map fun x => b.spanBase x.1 + x.2 * osz
  links : SameLinks b b'
  others : ∀ k, k ∉ spans → b'.allocWords k = b.allocWords k ∧ b'.freeWords k = b.freeWords k
  cleared : ∀ k i, b'.isFree k i = (b.isFree k i && !decide ((k, i) ∈ taken))

theorem Hands.nil (osz : Nat) (spans : List Nat) (b : SpanBitmaps) : Hands osz spans b b [] [] :=
  ⟨rfl, SameLinks.refl b, fun _ _ => ⟨rfl, rfl⟩, fun k i => by simp⟩

/-- A span scanned up to its last slot. -/
theorem scanSpan_hands (k room nwords osz : Nat) (b : SpanBitmaps) :
    Hands osz [k] b (scanSpan k room nwords osz b).2 ((slotsOf b (nwords * 64) [k]).take room)
      (scanSpan k room nwords osz b).1 := by
  have out := scanWords_handsOut k osz nwords 0 room b
  rw [Nat.zero_mul] at out
  have single : (slotsOf b (nwords * 64) [k]).take room =
      ((b.freeSlots k 0 (nwords * 64)).take room).map (k, ·) := by
    rw [slotsOf, List.flatMap_singleton, List.map_take]
  rw [single]
  refine ⟨?_, out.only.links, fun j other => ?_, fun j i => ?_⟩
  · rw [List.map_map]
    exact out.objects
  · rw [List.mem_singleton] at other
    exact ⟨out.only.alloc j other, out.only.free j other⟩
  · by_cases same : j = k
    · subst same
      refine (out.cleared i).trans ?_
      congr 2
      apply decide_eq_decide.mpr
      simp only [List.mem_map, Prod.mk.injEq, true_and, exists_eq_right]
    · rw [scanSpan, out.only.isFree same, decide_eq_false, Bool.not_false, Bool.and_true]
      rintro member
      obtain ⟨_, -, equal⟩ := List.mem_map.mp member
      exact same (Prod.mk.inj equal).1.symm

/-- Some spans after others. -/
theorem Hands.append {b₁ : SpanBitmaps} {spans spans' : List Nat} {taken taken' : List (Nat × Nat)}
    {objs' : List Nat} (first : Hands osz spans b b₁ taken objs)
    (second : Hands osz spans' b₁ b' taken' objs') :
    Hands osz (spans ++ spans') b b' (taken ++ taken') (objs ++ objs') where
  objects := by
    have base : ∀ k, b₁.spanBase k = b.spanBase k := by
      intro k
      rw [SpanBitmaps.spanBase, SpanBitmaps.spanBase, first.links.base]
    rw [List.map_append, ← first.objects, second.objects]
    simp only [base]
  links := first.links.trans second.links
  others k outside := by
    rw [List.mem_append, not_or] at outside
    have one := first.others k outside.1
    have two := second.others k outside.2
    exact ⟨two.1.trans one.1, two.2.trans one.2⟩
  cleared k i := by
    rw [second.cleared, first.cleared, Bool.and_assoc, ← Bool.not_or, ← Bool.decide_or,
      decide_eq_decide.mpr (List.mem_append (a := (k, i)) (s := taken) (t := taken')).symm]

/-- A first span and then others that do not include it: together a prefix of all their
    free slots. -/
theorem Hands.cons {b₁ : SpanBitmaps} {n room : Nat} {rest : List Nat} {objs' : List Nat}
    (first : Hands osz [k] b b₁ ((slotsOf b n [k]).take room) objs) (outside : k ∉ rest)
    (second : Hands osz rest b₁ b' ((slotsOf b₁ n rest).take (room - objs.length)) objs') :
    Hands osz (k :: rest) b b' ((slotsOf b n (k :: rest)).take room) (objs ++ objs') := by
  have split : slotsOf b n (k :: rest) = slotsOf b n [k] ++ slotsOf b n rest := by
    simp only [slotsOf, List.flatMap_cons, List.flatMap_nil, List.append_nil]
  have kept : slotsOf b₁ n rest = slotsOf b n rest := by
    apply slotsOf_congr
    intro j member i
    have other : j ∉ [k] := by
      rw [List.mem_singleton]
      rintro rfl
      exact outside member
    simp only [SpanBitmaps.isFree, allocBit, freeBit, (first.others j other).1,
      (first.others j other).2]
  have length : room - objs.length = room - (slotsOf b n [k]).length := by
    rw [first.objects, List.length_map, List.length_take]
    omega
  rw [kept, length] at second
  rw [split, List.take_append]
  exact first.append second

/-- The walk of a list hands out the free slots of its spans in list order, the span
    scanned before left out. -/
theorem takeFrom_hands (hint nwords osz room : Nat) {steps head : Nat} {nodes : List Nat}
    {b : SpanBitmaps} (list : Chain b.nextActive head nodes noSpan) (distinct : nodes.Nodup)
    (proper : noSpan ∉ nodes) (enough : nodes.length ≤ steps) :
    Hands osz (nodes.filter (· ≠ hint)) b (takeFrom hint nwords osz steps head room b).2.2
      ((slotsOf b (nwords * 64) (nodes.filter (· ≠ hint))).take room)
      (takeFrom hint nwords osz steps head room b).1 := by
  induction nodes generalizing steps head room b with
  | nil =>
      rw [show head = noSpan from list]
      cases steps with
      | zero =>
          simp only [takeFrom, List.filter_nil, slotsOf, List.flatMap_nil, List.take_nil]
          exact Hands.nil osz [] b
      | succ steps =>
          rw [takeFrom_succ, if_pos (.inr rfl)]
          simp only [List.filter_nil, slotsOf, List.flatMap_nil, List.take_nil]
          exact Hands.nil osz [] b
  | cons node rest ih =>
      obtain ⟨rfl, tail⟩ := list
      obtain ⟨outside, distinct'⟩ := List.nodup_cons.mp distinct
      obtain ⟨steps, rfl⟩ : ∃ n, steps = n + 1 := ⟨steps - 1, by rw [List.length_cons] at enough; omega⟩
      rw [List.mem_cons, not_or] at proper
      rw [List.length_cons] at enough
      rw [takeFrom_succ]
      by_cases full : room = 0
      · rw [if_pos (.inl full), full, List.take_zero]
        exact Hands.nil osz _ b
      · rw [if_neg (by rintro (none | last) <;> [exact full none; exact proper.1 last.symm])]
        by_cases skipped : head = hint
        · rw [if_pos skipped, List.filter_cons_of_neg (by simpa using skipped)]
          exact ih room tail distinct' proper.2 (by omega)
        · rw [if_neg skipped, List.filter_cons_of_pos (by simpa using skipped)]
          have first := scanSpan_hands head room nwords osz b
          have tail' : Chain (scanSpan head room nwords osz b).2.nextActive
              ((scanSpan head room nwords osz b).2.next head) rest noSpan := by
            rw [SpanBitmaps.next, first.links.nextActive]
            exact tail
          apply first.cons
          · exact fun member => outside (List.mem_filter.mp member).1
          · exact ih _ tail' distinct' proper.2 (by omega)

/-! ## A cell -/

/-- A cell in order: its list ends, visits spans of the arena once each, and no bit of
    theirs lies past their slots. -/
structure CellFormed (s : SubHeap) (shard cls : Nat) (nodes : List Nat) : Prop where
  isClass : IsClass cls
  list : Chain s.bitmaps.nextActive (s.head shard cls) nodes noSpan
  distinct : nodes.Nodup
  inside : ∀ k ∈ nodes, k < s.spans.numSpans ∧ k < noSpan
  tiled : ∀ k ∈ nodes, ∀ i, s.bitmaps.isFree k i = true → i < slotsPerSpan (sizeOfClass cls)

/-- Every cell of a sub-heap whose accounts balance is in order, with the spans of its
    role on its list. -/
theorem Ledger.cellFormed {trust : Trust} {g : Geometry} {role : Nat → Role}
    {H L : Multiset (Nat × Nat)} {W : List (Nat × Nat)} {shard cls : Nat} {nodes : List Nat}
    (ledger : s.Ledger trust g role H L W) (isClass : IsClass cls) (inside : shard < s.numShards)
    (list : Chain s.bitmaps.nextActive (s.head shard cls) nodes noSpan) (proper : noSpan ∉ nodes) :
    s.CellFormed shard cls nodes ∧ ∀ k ∈ nodes, role k = .active k cls shard := by
  have active : ∀ k ∈ nodes, role k = .active k cls shard :=
    fun k member => (ledger.onList_iff inside).mp ⟨nodes, list, proper, member⟩
  have small := ledger.stock.grid.small
  obtain ⟨nodes', list', distinct, members⟩ := ledger.cells.lists shard cls inside
  have outside : noSpan ∉ nodes' := by
    intro member
    have := ledger.cells.inside ((members noSpan).mp member)
    unfold noSpan at *
    omega
  have same := Chain.unique list list' proper outside
  refine ⟨⟨isClass, list, same ▸ distinct, fun k member => ?_, fun k member i set => ?_⟩, active⟩
  · have := ledger.cells.inside (active k member)
    unfold noSpan
    omega
  · rw [SpanBitmaps.isFree, Bool.or_eq_true] at set
    obtain ⟨c, sh, role, slot⟩ := ledger.slots.bits k i set
    rw [active k member] at role
    cases role
    exact slot

/-- The hint of a cell: none, a span of its list, or one not of the class any more. -/
def HintFormed (s : SubHeap) (shard cls : Nat) (nodes : List Nat) : Prop :=
  s.reuseHint shard cls = noSpan ∨ s.reuseHint shard cls ∈ nodes ∨
    ∀ home, s.spans.lookup (s.bitmaps.spanBase (s.reuseHint shard cls)) ≠ some (cls, home)

/-- How many slots of the list are free. -/
def freeCount (s : SubHeap) (cls : Nat) (nodes : List Nat) : Nat :=
  (nodes.map fun k => (List.range (slotsPerSpan (sizeOfClass cls))).countP (s.bitmaps.isFree k)).sum

theorem slotsOf_length (b : SpanBitmaps) (n : Nat) (spans : List Nat) :
    (slotsOf b n spans).length = (spans.map fun k => (List.range n).countP (b.isFree k)).sum := by
  rw [slotsOf, List.length_flatMap]
  congr 1
  apply List.map_congr_left
  intro k _
  rw [List.length_map, freeSlots, ← List.countP_eq_length_filter, List.range_eq_range']

/-- Bits past the slots of a span are never handed out. -/
theorem CellFormed.slotsOf {shard cls : Nat} {nodes spans : List Nat}
    (cell : s.CellFormed shard cls nodes) (sub : ∀ k ∈ spans, k ∈ nodes) :
    slotsOf s.bitmaps (bitmapWords cls * 64) spans =
      slotsOf s.bitmaps (slotsPerSpan (sizeOfClass cls)) spans := by
  induction spans with
  | nil => rfl
  | cons k rest ih =>
      have le : slotsPerSpan (sizeOfClass cls) ≤ bitmapWords cls * 64 := by
        unfold bitmapWords
        omega
      rw [SubHeap.slotsOf, SubHeap.slotsOf, List.flatMap_cons, List.flatMap_cons,
        freeSlots_extend le (cell.tiled k (sub k List.mem_cons_self))]
      congr 1
      exact ih fun k member => sub k (List.mem_cons_of_mem _ member)

theorem CellFormed.length_le {shard cls : Nat} {nodes : List Nat}
    (cell : s.CellFormed shard cls nodes) : nodes.length ≤ s.spans.numSpans := by
  rw [← List.toFinset_card_of_nodup cell.distinct, ← Finset.card_range s.spans.numSpans]
  apply Finset.card_le_card
  intro k member
  exact Finset.mem_range.mpr (cell.inside k (List.mem_toFinset.mp member)).1

theorem validHint_mem {shard cls : Nat} {nodes : List Nat} (hint : s.HintFormed shard cls nodes)
    (valid : s.validHint shard cls = true) : s.reuseHint shard cls ∈ nodes := by
  simp only [validHint, Bool.and_eq_true, decide_eq_true_eq, Option.any_eq_true] at valid
  obtain ⟨⟨-, proper⟩, ⟨cls', home⟩, entry, rfl⟩ := valid
  rcases hint with none | member | retagged
  · exact (proper none).elim
  · exact member
  · exact (retagged home entry).elim

/-- The spans in the order they are visited. -/
def visited (s : SubHeap) (shard cls : Nat) (nodes : List Nat) : List Nat :=
  if s.validHint shard cls then
    s.reuseHint shard cls :: nodes.filter (· ≠ s.reuseHint shard cls)
  else nodes

/-- Every span of the list is visited, once. -/
theorem visited_perm {shard cls : Nat} {nodes : List Nat} (cell : s.CellFormed shard cls nodes)
    (hint : s.HintFormed shard cls nodes) : (s.visited shard cls nodes).Perm nodes := by
  unfold visited
  split
  · rename_i valid
    have member := validHint_mem hint valid
    have erased : nodes.filter (· ≠ s.reuseHint shard cls) = nodes.erase (s.reuseHint shard cls) := by
      rw [cell.distinct.erase_eq_filter]
      apply List.filter_congr
      intro k _
      rw [Bool.eq_iff_iff]
      simp
    rw [erased]
    exact (List.perm_cons_erase member).symm
  · exact List.Perm.refl nodes

/-- Taking from a cell hands out a prefix of its free slots, in the order of the visit. -/
theorem taken_hands {shard cls : Nat} {nodes : List Nat} (cell : s.CellFormed shard cls nodes)
    (hint : s.HintFormed shard cls nodes) (room : Nat) :
    Hands (sizeOfClass cls) (s.visited shard cls nodes) s.bitmaps (s.taken shard cls room).2.bitmaps
      ((slotsOf s.bitmaps (slotsPerSpan (sizeOfClass cls)) (s.visited shard cls nodes)).take room)
      (s.taken shard cls room).1 := by
  have proper : noSpan ∉ nodes := fun member => Nat.lt_irrefl _ (cell.inside _ member).2
  have enough : nodes.length ≤ s.spans.numSpans + 1 := Nat.le_succ_of_le cell.length_le
  rw [← cell.slotsOf fun k member => (visited_perm cell hint).mem_iff.mp member]
  cases valid : s.validHint shard cls with
  | true =>
      have first := scanSpan_hands (s.reuseHint shard cls) room (bitmapWords cls) (sizeOfClass cls)
        s.bitmaps
      rcases scan : scanSpan (s.reuseHint shard cls) room (bitmapWords cls) (sizeOfClass cls)
        s.bitmaps with ⟨objs, b₁⟩
      rw [scan] at first
      have list : Chain b₁.nextActive (s.head shard cls) nodes noSpan := by
        rw [first.links.nextActive]
        exact cell.list
      have rest := takeFrom_hands (s.reuseHint shard cls) (bitmapWords cls) (sizeOfClass cls)
        (room - objs.length) list cell.distinct proper enough
      rcases walked : takeFrom (s.reuseHint shard cls) (bitmapWords cls) (sizeOfClass cls)
        (s.spans.numSpans + 1) (s.head shard cls) (room - objs.length) b₁ with ⟨objs', seen, b₂⟩
      rw [walked] at rest
      rw [taken_hint valid scan walked, visited, if_pos valid]
      refine first.cons (fun member => ?_) rest
      exact of_decide_eq_true (List.mem_filter.mp member).2 rfl
  | false =>
      have all : nodes.filter (· ≠ noSpan) = nodes := by
        rw [List.filter_eq_self]
        intro k member
        rw [decide_eq_true_eq]
        rintro rfl
        exact proper member
      have walk := takeFrom_hands noSpan (bitmapWords cls) (sizeOfClass cls) room cell.list cell.distinct
        proper enough
      rcases walked : takeFrom noSpan (bitmapWords cls) (sizeOfClass cls) (s.spans.numSpans + 1)
        (s.head shard cls) room s.bitmaps with ⟨objs, seen, b⟩
      rw [walked, all] at walk
      rw [taken_list valid walked, visited, if_neg (by simp [valid])]
      exact walk

/-- What a take that hands out exactly free slots does. -/
structure TakesFree (s s' : SubHeap) (cls room : Nat) (nodes objs : List Nat) : Prop where
  count : objs.length = min room (s.freeCount cls nodes)
  distinct : objs.Nodup
  slots : ∀ p ∈ objs, ∃ k ∈ nodes, ∃ i < slotsPerSpan (sizeOfClass cls),
    s.bitmaps.isFree k i = true ∧ p = s.bitmaps.spanBase k + i * sizeOfClass cls ∧
      s.bitmaps.locate p (sizeOfClass cls) = (k, i / 64, i % 64)
  ascending : objs.Pairwise fun p q => s.bitmaps.spanOf p = s.bitmaps.spanOf q → p < q
  cleared : ∀ k i, s'.bitmaps.isFree k i = (s.bitmaps.isFree k i &&
    !decide (k ∈ nodes ∧ s.bitmaps.spanBase k + i * sizeOfClass cls ∈ objs))
  others : ∀ k, k ∉ nodes → s'.bitmaps.allocWords k = s.bitmaps.allocWords k ∧
    s'.bitmaps.freeWords k = s.bitmaps.freeWords k
  links : SameLinks s.bitmaps s'.bitmaps
  frame : s' = { s with bitmaps := s'.bitmaps, scans := s'.scans }

/-- The address of a slot leads back to it. -/
theorem locate_slot {b : SpanBitmaps} {cls k i : Nat} (isClass : IsClass cls) (small : k < noSpan)
    (slot : i < slotsPerSpan (sizeOfClass cls)) :
    b.locate (b.spanBase k + i * sizeOfClass cls) (sizeOfClass cls) = (k, i / 64, i % 64) := by
  have low := offset_lt isClass.size_pos slot
  have span : b.spanOf (b.spanBase k + i * sizeOfClass cls) = k := by
    rw [SpanBitmaps.spanOf, SpanBitmaps.spanBase, Nat.add_assoc, Nat.add_sub_cancel_left,
      Nat.add_comm, Nat.add_mul_div_right _ _ (by decide), Nat.div_eq_of_lt low, Nat.zero_add]
    apply wrap32_small
    unfold noSpan at small
    omega
  rw [SpanBitmaps.locate, span, Nat.add_sub_cancel_left, Nat.mul_div_cancel _ isClass.size_pos]

/-- Taking up to `room` objects from a cell in order, with any hint it may have, hands
    out exactly free slots. -/
theorem taken_free {shard cls : Nat} {nodes : List Nat} (cell : s.CellFormed shard cls nodes)
    (hint : s.HintFormed shard cls nodes) (room : Nat) :
    TakesFree s (s.taken shard cls room).2 cls room nodes (s.taken shard cls room).1 := by
  have hands := taken_hands cell hint room
  have perm := visited_perm cell hint
  have distinct := perm.nodup_iff.mpr cell.distinct
  obtain ⟨slots, slotsDef⟩ : ∃ slots,
      slotsOf s.bitmaps (slotsPerSpan (sizeOfClass cls)) (s.visited shard cls nodes) = slots := ⟨_, rfl⟩
  rw [slotsDef] at hands
  have free : ∀ x ∈ slots.take room, x.1 ∈ nodes ∧ x.2 < slotsPerSpan (sizeOfClass cls) ∧
      s.bitmaps.isFree x.1 x.2 = true := by
    intro x member
    have found := mem_slotsOf.mp (slotsDef ▸ List.mem_of_mem_take member)
    exact ⟨perm.mem_iff.mp found.1, found.2⟩
  have found : ∀ k ∈ nodes, ∀ i < slotsPerSpan (sizeOfClass cls),
      s.bitmaps.locate (s.bitmaps.spanBase k + i * sizeOfClass cls) (sizeOfClass cls) =
        (k, i / 64, i % 64) :=
    fun k member i slot => locate_slot cell.isClass (cell.inside k member).2 slot
  have order : (slots.take room).Pairwise fun x y => x.1 = y.1 → x.2 < y.2 :=
    (slotsDef ▸ slotsOf_ascending distinct).sublist (List.take_sublist _ _)
  have apart : ∀ x ∈ slots.take room, ∀ k ∈ nodes, ∀ i, i < slotsPerSpan (sizeOfClass cls) →
      s.bitmaps.spanBase x.1 + x.2 * sizeOfClass cls = s.bitmaps.spanBase k + i * sizeOfClass cls →
      x = (k, i) := by
    intro x member k inside i slot same
    obtain ⟨inside', slot', -⟩ := free x member
    have one := found x.1 inside' x.2 slot'
    rw [same, found k inside i slot, Prod.mk.injEq, Prod.mk.injEq] at one
    obtain ⟨span, word, bit⟩ := one
    exact Prod.ext span.symm (by simp only; omega)
  have ascending : (s.taken shard cls room).1.Pairwise
      fun p q => s.bitmaps.spanOf p = s.bitmaps.spanOf q → p < q := by
    rw [hands.objects, List.pairwise_map]
    refine order.imp_of_mem fun {x y} member member' below same => ?_
    obtain ⟨inside, slot, -⟩ := free x member
    obtain ⟨inside', slot', -⟩ := free y member'
    have spans : x.1 = y.1 := by
      have one := congrArg Prod.fst (found x.1 inside x.2 slot)
      have two := congrArg Prod.fst (found y.1 inside' y.2 slot')
      simp only [SpanBitmaps.locate] at one two
      rw [← one, ← two]
      exact same
    have := Nat.mul_lt_mul_of_pos_right (below spans) cell.isClass.size_pos
    rw [spans]
    omega
  refine ⟨?_, ?_, ?_, ascending, ?_, ?_, hands.links, ?_⟩
  · rw [hands.objects, List.length_map, List.length_take, ← slotsDef, slotsOf_length, freeCount,
      (perm.map _).sum_eq]
  · rw [hands.objects]
    apply List.Nodup.map_on
    · intro x member y member' same
      obtain ⟨inside', slot', -⟩ := free y member'
      exact apart x member y.1 inside' y.2 slot' same
    · exact order.imp fun below same => by
        subst same
        exact Nat.lt_irrefl _ (below rfl)
  · intro p member
    rw [hands.objects] at member
    obtain ⟨x, inList, rfl⟩ := List.mem_map.mp member
    obtain ⟨inside, slot, set⟩ := free x inList
    exact ⟨x.1, inside, x.2, slot, set, rfl, found x.1 inside x.2 slot⟩
  · intro k i
    rw [hands.cleared]
    cases set : s.bitmaps.isFree k i with
    | false => rfl
    | true =>
        congr 2
        apply decide_eq_decide.mpr
        rw [hands.objects, List.mem_map]
        constructor
        · intro member
          exact ⟨(free _ member).1, (k, i), member, rfl⟩
        · rintro ⟨inside, x, member, same⟩
          rwa [← apart x member k inside i (cell.tiled k inside i set) same]
  · intro k outside
    exact hands.others k fun member => outside (perm.mem_iff.mp member)
  · obtain ⟨b, scans, frame⟩ := s.taken_frame shard cls room
    rw [frame]

/-- Four spans with several free slots each, and a hint into the middle of the list. -/
theorem taken_free_scattered : World.scattered.sub.CellFormed 0 38 [3, 2, 1, 0] ∧
    (World.scattered.sub.taken 0 38 6).1 = [World.quarter 2 0, World.quarter 2 1, World.quarter 2 2,
      World.quarter 2 3, World.quarter 3 2, World.quarter 3 3] ∧
    TakesFree World.scattered.sub (World.scattered.sub.taken 0 38 6).2 38 6 [3, 2, 1, 0]
      (World.scattered.sub.taken 0 38 6).1 := by
  have reached := World.scattered_reached (fun _ op => op.size < 2 ^ 47) fun _ op _ none => by omega
  obtain ⟨-, _, role, ledger, -⟩ := reached.ledger World.fiveSpans_mapped fun _ op bound => by
    unfold spanCount spanBytes
    omega
  have cell : Chain World.scattered.sub.bitmaps.nextActive (World.scattered.sub.head 0 38) [3, 2, 1, 0] noSpan ∧
      World.scattered.sub.reuseHint 0 38 = 2 ∧ 0 < World.scattered.sub.numShards ∧
      (World.scattered.sub.taken 0 38 6).1 = [World.quarter 2 0, World.quarter 2 1, World.quarter 2 2,
        World.quarter 2 3, World.quarter 3 2, World.quarter 3 3] := by decide +kernel
  obtain ⟨list, hinted, inside, objs⟩ := cell
  have formed := (ledger.cellFormed ⟨by decide, by decide⟩ inside list (by decide)).1
  exact ⟨formed, objs, taken_free formed (.inr (.inl (by rw [hinted]; decide))) 6⟩

end SubHeap

end Toccata
