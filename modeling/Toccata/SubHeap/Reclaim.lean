import Toccata.SubHeap.Carving

/-! # Reclaiming empty spans

A sweep walks the list of each cell, takes off the spans whose slots are all free,
and files their groups in the pool. Between the two the groups are loose: in no list,
tagged as large, and known to the sweep alone.
-/

namespace Toccata

open Foundations SizeClass

namespace SubHeap

variable {trust : Trust} {g : Geometry} {s s' : SubHeap} {role role' : Nat → Role}
  {H L : Multiset (Nat × Nat)} {W W' : List (Nat × Nat)}

/-! ## Taking a span off its list -/

theorem unlinkActive_chain {b : SpanBitmaps} {head span : Nat} {left right : List Nat}
    (walk : Chain b.nextActive head (left ++ span :: right) noSpan)
    (distinct : (left ++ span :: right).Nodup) (proper : noSpan ∉ left) :
    Chain (b.unlinkActive span (left.getLastD noSpan) head).2.nextActive
      (b.unlinkActive span (left.getLastD noSpan) head).1 (left ++ right) noSpan := by
  have outside : span ∉ left ++ right := by
    have apart := List.nodup_middle.mp distinct
    exact (List.nodup_cons.mp apart).1
  have away : ∀ (next : Nat → Nat), ∀ x ∈ left ++ right,
      Function.update next span noSpan x = next x := by
    intro next x member
    apply Function.update_of_ne
    intro same
    exact outside (same ▸ member)
  rcases List.eq_nil_or_concat left with rfl | ⟨before, last, rfl⟩
  · obtain ⟨rfl, tail⟩ := walk
    exact tail.frame (away _)
  · rw [List.concat_eq_append] at *
    have proper' : last ≠ noSpan := by
      rintro rfl
      exact proper (by simp)
    simp only [SpanBitmaps.unlinkActive, List.getLastD_concat, if_neg proper']
    apply Chain.frame _ (away _)
    rw [List.append_assoc, List.singleton_append]
    apply Chain.cut
    · simpa using walk
    · simpa using distinct

theorem unlinkActive_other {b : SpanBitmaps} {head head' span prev : Nat} {nodes : List Nat}
    (walk : Chain b.nextActive head' nodes noSpan) (outside : span ∉ nodes) (apart : prev ∉ nodes) :
    Chain (b.unlinkActive span prev head).2.nextActive head' nodes noSpan := by
  apply walk.frame
  intro x member
  have first : x ≠ span := by
    rintro rfl
    exact outside member
  have second : x ≠ prev := by
    rintro rfl
    exact apart member
  simp only [SpanBitmaps.unlinkActive]
  rw [Function.update_of_ne first]
  split
  · rfl
  · exact Function.update_of_ne second ..

theorem setHint_reuseHint (s : SubHeap) (shard cls span sh c : Nat) :
    (s.setHint shard cls span).reuseHint sh c =
      if sh = shard ∧ c = cls then span else s.reuseHint sh c := by
  unfold setHint
  by_cases same : sh = shard
  · subst same
    by_cases here : c = cls
    · subst here
      simp
    · simp [here]
  · simp [same]

/-- Where the walk of a cell's list stands: past `left`, at the spans `right`. -/
structure Walking (s : SubHeap) (role : Nat → Role) (c sh : Nat) (left right : List Nat) : Prop where
  walk : Chain s.bitmaps.nextActive (s.head sh c) (left ++ right) noSpan
  distinct : (left ++ right).Nodup
  members : ∀ h, h ∈ left ++ right ↔ role h = .active h c sh

theorem retire_eq (s : SubHeap) (shard cls prev span : Nat) :
    s.retire shard cls prev span = { s with
      head := (s.setHead shard cls (s.bitmaps.unlinkActive span prev (s.head shard cls)).1).head
      reuseHint := if s.reuseHint shard cls = span then (s.setHint shard cls noSpan).reuseHint
        else s.reuseHint
      spans := s.spans.assignRange (s.bitmaps.spanBase span)
        (groupSpans (roundedSize cls) * spanBytes) largeClass 0
      bitmaps := (s.bitmaps.unlinkActive span prev (s.head shard cls)).2.resetBitmaps span
        ((slotsPerSpan (roundedSize cls) + 63) / 64) } := by
  by_cases hint : s.reuseHint shard cls = span
  · simp only [retire, setHead, hint, if_true]
    rfl
  · simp only [retire, setHead, hint, if_false]
    rfl

/-- The groups left when the group at `span` goes. -/
theorem Cells.retired (cells : s.Cells trust role) {span c sh : Nat}
    (active : role span = .active span c sh) (k h c' sh' : Nat) :
    assign role span (groupSpans (sizeOfClass c)) (.loose span) k = .active h c' sh' ↔
      role k = .active h c' sh' ∧ h ≠ span := by
  obtain ⟨-, -, -, -, group⟩ := cells.groups span span c sh active
  rw [assign_other (by simp)]
  constructor
  · rintro ⟨outside, old⟩
    refine ⟨old, ?_⟩
    rintro rfl
    obtain ⟨-, -, -, place, all⟩ := cells.groups k h c' sh' old
    have head := all h le_rfl (by have := groupSpans_pos (sizeOfClass c'); omega)
    rw [active] at head
    cases head
    exact outside place
  · rintro ⟨old, other⟩
    refine ⟨fun inside => ?_, old⟩
    rw [group k inside.1 inside.2] at old
    cases old
    exact other rfl

/-- The entries after the group at `span` is tagged as large. -/
theorem Grid.retag (grid : s.Grid g) {span c : Nat} (isClass : IsClass c)
    (inside : span < s.spans.numSpans) :
    s.spans.assignRange (s.bitmaps.spanBase span) (groupSpans (roundedSize c) * spanBytes)
        largeClass 0 =
      { s.spans with entry := fun k =>
          if span ≤ k ∧ k < span + groupSpans (sizeOfClass c) ∧ k < s.spans.numSpans then
            SpanTable.pack largeClass 0 else s.spans.entry k } := by
  have := isClass.group_le
  rw [isClass.rounded, grid.spanBase]
  exact grid.assignRange largeClass 0 (groupSpans_pos _) inside (by omega)

/-- The list of the cell without the span. -/
theorem Walking.retire {span c sh : Nat} {left right : List Nat} (cells : s.Cells trust role)
    (grid : s.Grid g) (walking : s.Walking role c sh left (span :: right)) :
    (s.retire sh c (left.getLastD noSpan) span).Walking
      (assign role span (groupSpans (sizeOfClass c)) (.loose span)) c sh left right := by
  have active : role span = .active span c sh := (walking.members span).mp (by simp)
  have proper : noSpan ∉ left := by
    intro member
    have := cells.inside ((walking.members noSpan).mp (List.mem_append_left _ member))
    have := grid.small
    unfold noSpan at *
    omega
  obtain ⟨apart, distinct⟩ := List.nodup_cons.mp (List.nodup_middle.mp walking.distinct)
  rw [retire_eq]
  refine ⟨?_, distinct, fun h => ?_⟩
  · simp only [setHead_head, and_self, if_true]
    exact unlinkActive_chain walking.walk walking.distinct proper
  · rw [cells.retired active, ← walking.members]
    constructor
    · intro member
      refine ⟨?_, fun same => apart (same ▸ member)⟩
      rcases List.mem_append.mp member with old | old
      · exact List.mem_append_left _ old
      · exact List.mem_append_right _ (List.mem_cons_of_mem _ old)
    · rintro ⟨member, other⟩
      rcases List.mem_append.mp member with old | old
      · exact List.mem_append_left _ old
      · rcases List.mem_cons.mp old with same | later
        · exact (other same).elim
        · exact List.mem_append_right _ later

theorem Cells.retire {span c sh : Nat} {left right : List Nat} (cells : s.Cells trust role)
    (grid : s.Grid g) (walking : s.Walking role c sh left (span :: right)) :
    (s.retire sh c (left.getLastD noSpan) span).Cells trust
      (assign role span (groupSpans (sizeOfClass c)) (.loose span)) := by
  have active : role span = .active span c sh := (walking.members span).mp (by simp)
  have mine := walking.retire cells grid
  have isClass := cells.isClass active
  have retired := cells.retired active
  have kept : ∀ k h, assign role span (groupSpans (sizeOfClass c)) (.loose span) k = .large h ↔
      role k = .large h := by
    intro k h
    apply assign_kept (by simp)
    intro j lo hi big
    rw [(cells.groups span span c sh active).2.2.2.2 j lo hi] at big
    cases big
  rw [retire_eq, grid.retag isClass (cells.inside active)] at mine ⊢
  obtain ⟨groups, entries, labels, lists, linked, runs, large⟩ := cells
  obtain ⟨-, -, -, -, group⟩ := groups span span c sh active
  refine ⟨?_, ?_, ?_, ?_, ?_, ?_, ?_⟩
  · intro k h c' sh' held
    obtain ⟨old, other⟩ := (retired ..).mp held
    obtain ⟨isClass', inside', within', place, all⟩ := groups k h c' sh' old
    exact ⟨isClass', inside', within', place, fun j lo hi => (retired ..).mpr ⟨all j lo hi, other⟩⟩
  · intro on h c' sh' held
    obtain ⟨old, other⟩ := (retired ..).mp held
    have outside : ¬ (span ≤ h ∧ h < span + groupSpans (sizeOfClass c) ∧ h < s.spans.numSpans) := by
      rintro ⟨lo, hi, -⟩
      rw [group h lo hi] at old
      cases old
      exact other rfl
    simp only [Tagged, if_neg outside]
    exact entries on h c' sh' old
  · intro k low
    by_cases inside : span ≤ k ∧ k < span + groupSpans (sizeOfClass c)
    · exact .inr (.inl (if_pos ⟨inside.1, inside.2, low⟩))
    · refine (labels k low).same (if_neg ?_) rfl (assign_outside inside)
      exact fun within => inside ⟨within.1, within.2.1⟩
  · intro sh' c' low
    by_cases here : sh' = sh ∧ c' = c
    · obtain ⟨rfl, rfl⟩ := here
      exact ⟨left ++ right, mine.walk, mine.distinct, mine.members⟩
    · obtain ⟨nodes, walk, distinct, members⟩ := lists sh' c' low
      have elsewhere : ∀ x ∈ left ++ span :: right, x ∉ nodes := by
        intro x mine theirs
        have one := (walking.members x).mp mine
        rw [(members x).mp theirs] at one
        cases one
        exact here ⟨rfl, rfl⟩
      refine ⟨nodes, ?_, distinct, fun h => ?_⟩
      · rw [setHead_head, if_neg here]
        apply unlinkActive_other walk (elsewhere span (by simp))
        intro member
        rcases List.eq_nil_or_concat left with rfl | ⟨before, last, rfl⟩
        · have := (groups _ _ _ _ ((members noSpan).mp member)).2.2.1
          have := grid.small
          unfold noSpan at *
          omega
        · rw [List.concat_eq_append, List.getLastD_concat] at member
          exact elsewhere last (by simp) member
      · rw [retired, members]
        constructor
        · intro old
          refine ⟨old, ?_⟩
          rintro rfl
          rw [active] at old
          cases old
          exact here ⟨rfl, rfl⟩
        · exact fun h => h.1
  · intro k
    simp only [SpanBitmaps.resetBitmaps, SpanBitmaps.unlinkActive, retired]
    by_cases same : k = span
    · subst same
      simp
    · rw [Function.update_of_ne same, linked]
      simp [same]
  · intro h some
    obtain ⟨fits, roles, entry⟩ := runs h some
    refine ⟨fits, fun k lo hi => (kept k h).mpr (roles k lo hi), fun on => ?_⟩
    simp only
    split
    · rfl
    · exact entry on
  · intro k h big
    exact large k h ((kept k h).mp big)

/-- A fully free span has no object outside, so its slots go with it. -/
theorem Ledger.retire {span c sh : Nat} {left right : List Nat}
    (ledger : s.Ledger trust g role H L W) (walking : s.Walking role c sh left (span :: right))
    (free : s.bitmaps.FullyFree span (slotsPerSpan (sizeOfClass c))) :
    (s.retire sh c (left.getLastD noSpan) span).Ledger trust g
      (assign role span (groupSpans (sizeOfClass c)) (.loose span)) H L
      ((span, groupSpans (sizeOfClass c)) :: W) := by
  have active : role span = .active span c sh := (walking.members span).mp (by simp)
  have isClass := ledger.cells.isClass active
  have retired := ledger.cells.retired active
  obtain ⟨-, -, within, -, group⟩ := ledger.cells.groups span span c sh active
  have pos := groupSpans_pos (sizeOfClass c)
  have cells := ledger.cells.retire ledger.stock.grid walking
  have other : ∀ {r : Role}, (∀ h c sh, r ≠ .active h c sh) → (∀ h, r ≠ .loose h) → ∀ k,
      assign role span (groupSpans (sizeOfClass c)) (.loose span) k = r ↔ role k = r := by
    intro r idle strict k
    refine assign_kept (strict span) fun j lo hi same => ?_
    rw [group j lo hi] at same
    exact idle _ _ _ same.symm
  have reset := SpanBitmaps.resetBitmaps_bits
    (s.bitmaps.unlinkActive span (left.getLastD noSpan) (s.head sh c)).2 span
    ((slotsPerSpan (roundedSize c) + 63) / 64)
  rw [retire_eq, ledger.stock.grid.retag isClass within] at cells ⊢
  refine ⟨⟨{ ledger.stock.grid with }, ?_, ?_, ?_, ?_, ?_⟩, cells, ⟨?_, ?_, ?_⟩, { ledger.larges with },
    ledger.loose.taken pos ?_, ?_, ledger.healthy⟩
  · obtain ⟨f, here, low, fresh⟩ := ledger.stock.cursor
    refine ⟨f, here, low, fun left k beyond => ?_⟩
    rw [other (by simp) (by simp)]
    exact fresh left k beyond
  · intro k pooled
    rw [other (by simp) (by simp)] at pooled
    exact ledger.stock.stocked k pooled
  · intro clear
    simp only [other (r := .pooled) (by simp) (by simp)]
    exact ledger.stock.pool clear
  · intro unclipped k used
    rw [Ne, other (by simp) (by simp)] at used
    exact ledger.stock.whole unclipped k used
  · intro k below unused
    rw [other (by simp) (by simp)] at unused
    exact ledger.stock.carved k below unused
  · intro k c' sh' i held slot
    obtain ⟨old, different⟩ := (retired ..).mp held
    obtain ⟨alloc, deposit⟩ := reset k i
    simp only [different, false_and, decide_false, Bool.not_false, Bool.and_true] at alloc deposit
    simp only [alloc, deposit]
    exact ledger.slots.once k c' sh' i old slot
  · intro k i set
    obtain ⟨alloc, deposit⟩ := reset k i
    simp only [alloc, deposit, Bool.and_eq_true, Bool.not_eq_true', decide_eq_false_iff_not] at set
    have old : s.bitmaps.allocBit k i = true ∨ s.bitmaps.freeBit k i = true :=
      set.imp And.left And.left
    obtain ⟨c', sh', head, slot⟩ := ledger.slots.bits k i old
    refine ⟨c', sh', (retired ..).mpr ⟨head, ?_⟩, slot⟩
    rintro rfl
    rw [active] at head
    cases head
    rw [isClass.rounded] at set
    rcases set with ⟨-, kept⟩ | ⟨-, kept⟩ <;> exact kept ⟨rfl, by omega⟩
  · intro c' p member
    obtain ⟨k, sh', i, head, slot, same⟩ := ledger.slots.outside c' p member
    refine ⟨k, sh', i, (retired ..).mpr ⟨head, ?_⟩, slot, same⟩
    rintro rfl
    rw [active] at head
    cases head
    have once := ledger.slots.once k c sh i active slot
    have set : 1 ≤ (s.bitmaps.allocBit k i).toNat + (s.bitmaps.freeBit k i).toNat := by
      rcases free i slot with bit | bit <;> rw [bit, Bool.toNat_true] <;> omega
    rw [← same] at once
    rcases member with cached | held
    · have := Multiset.count_pos.mpr cached
      simp only at this
      omega
    · have := Multiset.count_pos.mpr held
      omega
  · intro k lo hi h' held
    rw [group k lo hi] at held
    cases held
  · intro k h c' sh' held
    exact ledger.used k h c' sh' ((retired ..).mp held).1

/-! ## Walking a cell -/

/-- What a sweep changes: the groups at `gone` are in no cell any more. -/
structure Swept (s s' : SubHeap) (role role' : Nat → Role) (gone : List Nat) : Prop where
  roles : ∀ k h c sh, role' k = .active h c sh ↔ role k = .active h c sh ∧ h ∉ gone
  bits : ∀ k, k ∉ gone → ∀ slots, s'.bitmaps.FullyFree k slots ↔ s.bitmaps.FullyFree k slots
  settled : (∀ k, role k ≠ .claimed) → ∀ k, role' k ≠ .claimed
  poisoned : s'.large.poisoned = s.large.poisoned

theorem Swept.refl (s : SubHeap) (role : Nat → Role) : Swept s s role role [] where
  roles := by simp
  bits := by simp
  settled same := same
  poisoned := rfl

theorem Swept.trans {s'' : SubHeap} {role'' : Nat → Role} {gone gone' : List Nat}
    (h : Swept s s' role role' gone) (h' : Swept s' s'' role' role'' gone') :
    Swept s s'' role role'' (gone ++ gone') where
  roles k h₀ c sh := by
    rw [h'.roles, h.roles, List.mem_append, not_or, and_assoc]
  bits k outside slots := by
    obtain ⟨first, second⟩ := not_or.mp (mt List.mem_append.mpr outside)
    rw [h'.bits k second, h.bits k first]
  settled same := h'.settled (h.settled same)
  poisoned := h'.poisoned.trans h.poisoned

theorem Swept.moved {m : Nat → Nat → Bool} {b : SpanBitmaps} (role : Nat → Role)
    (moved : SpanBitmaps.Moved m s.bitmaps b) : Swept s { s with bitmaps := b } role role [] where
  roles := by simp
  bits k _ slots := moved.fullyFree
  settled same := same
  poisoned := rfl

theorem Swept.retire {span c sh : Nat} {left right : List Nat} (cells : s.Cells trust role)
    (walking : s.Walking role c sh left (span :: right)) :
    Swept s (s.retire sh c (left.getLastD noSpan) span) role
      (assign role span (groupSpans (sizeOfClass c)) (.loose span)) [span] where
  roles k h c' sh' := by
    rw [cells.retired ((walking.members span).mp (by simp)), List.mem_singleton]
  bits k outside slots := by
    have other : k ≠ span := fun same => outside (List.mem_singleton.mpr same)
    have reset := SpanBitmaps.resetBitmaps_bits
      (s.bitmaps.unlinkActive span (left.getLastD noSpan) (s.head sh c)).2 span
      ((slotsPerSpan (roundedSize c) + 63) / 64) k
    simp only [other, false_and, decide_false, Bool.not_false, Bool.and_true] at reset
    rw [retire_eq]
    refine forall_congr' fun i => imp_congr_right fun _ => ?_
    rw [(reset i).1, (reset i).2]
    rfl
  settled same k := by
    by_cases inside : span ≤ k ∧ k < span + groupSpans (sizeOfClass c)
    · rw [assign_inside inside.1 inside.2]
      simp
    · rw [assign_outside inside]
      exact same k
  poisoned := by
    rw [retire_eq]

theorem Loose.perm (loose : Loose role W) (same : W.Perm W') : Loose role W' where
  distinct := (same.map Prod.fst).nodup_iff.mp loose.distinct
  some x member := loose.some x (same.mem_iff.mpr member)
  inside x member := loose.inside x (same.mem_iff.mpr member)
  known k h held := by
    obtain ⟨x, member, within⟩ := loose.known k h held
    exact ⟨x, same.mem_iff.mp member, within⟩

theorem reclaimWalk_succ (shard cls steps cap prev span : Nat) (s : SubHeap) :
    reclaimWalk shard cls (steps + 1) cap prev span s =
      if span = noSpan ∨ cap = 0 then ([], s)
      else
        let checked := s.bitmaps.isFullyFree span (slotsPerSpan (roundedSize cls))
        let s' := { s with bitmaps := checked.2 }
        if checked.1 then
          let out := reclaimWalk shard cls steps (cap - 1) prev (s.bitmaps.next span)
            (s'.retire shard cls prev span)
          (span :: out.1, out.2)
        else reclaimWalk shard cls steps cap span (s.bitmaps.next span) s' :=
  rfl

/-- The walk takes the fully free spans off the list, in list order and at most `cap`
    of them. -/
theorem reclaimWalk_spec {c sh : Nat} (steps cap : Nat) {left right gone : List Nat}
    (ledger : s.Ledger trust g role H L W) (walking : s.Walking role c sh left right)
    (enough : right.length ≤ steps)
    (out : reclaimWalk sh c steps cap (left.getLastD noSpan) (right.headD noSpan) s = (gone, s')) :
    gone = (right.filter fun k => s.bitmaps.FullyFree k (slotsPerSpan (sizeOfClass c))).take cap ∧
    ∃ role', s'.Ledger trust g role' H L (gone.map (·, groupSpans (sizeOfClass c)) ++ W) ∧
      Swept s s' role role' gone := by
  induction steps generalizing s role cap left right gone W with
  | zero =>
      have empty : right = [] := List.eq_nil_of_length_eq_zero (by omega)
      subst empty
      cases out
      exact ⟨by simp, role, ledger, Swept.refl _ role⟩
  | succ steps ih =>
      cases right with
      | nil =>
          rw [reclaimWalk_succ, if_pos (.inl rfl)] at out
          cases out
          exact ⟨by simp, role, ledger, Swept.refl _ role⟩
      | cons k rest =>
          have active : role k = .active k c sh := (walking.members k).mp (by simp)
          have isClass := ledger.cells.isClass active
          have proper : k ≠ noSpan := by
            have := ledger.cells.inside active
            have := ledger.stock.grid.small
            unfold noSpan
            omega
          by_cases none : cap = 0
          · subst none
            rw [reclaimWalk_succ, if_pos (.inr rfl)] at out
            cases out
            exact ⟨rfl, role, ledger, Swept.refl _ role⟩
          · have tiled : ∀ i, s.bitmaps.allocBit k i = true ∨ s.bitmaps.freeBit k i = true →
                i < slotsPerSpan (sizeOfClass c) := by
              intro i set
              obtain ⟨c', sh', head, slot⟩ := ledger.slots.bits k i set
              rw [active] at head
              cases head
              exact slot
            obtain ⟨moved, answer⟩ := s.bitmaps.isFullyFree_spec k _ tiled
            have next : s.bitmaps.next k = rest.headD noSpan := by
              obtain ⟨middle, -, -, tail⟩ := Chain.append.mp walking.walk
              exact tail.head_eq
            rw [reclaimWalk_succ, if_neg (by simp [proper, none]), isClass.rounded, List.headD_cons,
              next] at out
            obtain ⟨b, checked⟩ : ∃ b, (s.bitmaps.isFullyFree k (slotsPerSpan (sizeOfClass c))).2 = b :=
              ⟨_, rfl⟩
            simp only [checked] at out moved
            have folded := ledger.moved moved
            have first : Swept s { s with bitmaps := b } role role [] := Swept.moved role moved
            have walking' : Walking { s with bitmaps := b } role c sh left (k :: rest) := by
              refine ⟨?_, walking.distinct, walking.members⟩
              simp only [moved.links.nextActive]
              exact walking.walk
            by_cases free : s.bitmaps.FullyFree k (slotsPerSpan (sizeOfClass c))
            · rw [if_pos (answer.mpr free)] at out
              obtain ⟨rfl, rfl⟩ := Prod.mk.inj out
              have apart : k ∉ rest :=
                (List.nodup_cons.mp (List.nodup_append.mp walking.distinct).2.1).1
              have second := first.trans (Swept.retire folded.cells walking')
              obtain ⟨taken, role', kept, swept⟩ := ih (cap - 1)
                (folded.retire walking' (moved.fullyFree.mpr free))
                (walking'.retire folded.cells folded.stock.grid) (by simpa using enough) rfl
              refine ⟨?_, role', ?_, second.trans swept⟩
              · rw [List.filter_cons_of_pos (by simpa using free), taken]
                obtain ⟨n, rfl⟩ := Nat.exists_eq_succ_of_ne_zero none
                rw [List.take_succ_cons]
                congr 2
                refine List.filter_congr fun x member => ?_
                rw [decide_eq_decide, second.bits x]
                simp only [List.nil_append, List.mem_singleton]
                rintro rfl
                exact apart member
              · refine { kept with loose := kept.loose.perm ?_ }
                rw [List.map_cons, List.cons_append]
                exact List.perm_middle
            · rw [if_neg (mt answer.mp free)] at out
              have later : Walking { s with bitmaps := b } role c sh (left ++ [k]) rest := by
                obtain ⟨walk, distinct, members⟩ := walking'
                rw [← List.singleton_append, ← List.append_assoc] at walk distinct members
                exact ⟨walk, distinct, members⟩
              obtain ⟨taken, role', kept, swept⟩ := ih cap folded later (by simpa using enough)
                (by rw [List.getLastD_concat]; exact out)
              refine ⟨?_, role', kept, first.trans swept⟩
              rw [List.filter_cons_of_neg (by simpa using free), taken]
              congr 1
              refine List.filter_congr fun x member => ?_
              rw [decide_eq_decide, first.bits x (by simp)]

/-! ## Filing runs -/

/-- A loose run filed in the pool. -/
theorem Ledger.file {h n : Nat} (ledger : s.Ledger trust g role H L ((h, n) :: W))
    (clear : s.large.poisoned = false) (fits : h + n ≤ s.spans.numSpans) :
    ∃ pool, s.large.pool.free h n = some pool ∧
      Ledger trust g { s with large := { s.large with pool } } (assign role h n .pooled) H L W := by
  have held : ∀ k, h ≤ k → k < h + n → role k = .loose h :=
    ledger.loose.inside (h, n) List.mem_cons_self
  have pos : 0 < n := ledger.loose.some (h, n) List.mem_cons_self
  have others : ∀ r : Role, r ≠ .pooled → r ≠ .loose h → ∀ k,
      assign role h n .pooled k = r ↔ role k = r := by
    intro r different other k
    refine assign_kept different fun j lo hi same => ?_
    rw [held j lo hi] at same
    exact other same.symm
  obtain ⟨pool, filed, represents⟩ := SpanPool.free_represents (ledger.stock.pool clear) pos
    (show h + n ≤ max s.spans.numSpans 1 by omega) (by
      intro k lo hi (pooled : role k = .pooled)
      rw [held k lo hi] at pooled
      cases pooled)
  refine ⟨pool, filed, ledger.restock ⟨rfl, rfl, rfl, rfl, rfl, rfl, rfl, rfl, rfl, rfl⟩
    (assign_agree ?_ trivial) (fun _ _ => rfl) ?_ ⟨{ ledger.stock.grid with }, ?_, ?_, ?_, ?_, ?_⟩ ?_
    ledger.healthy⟩
  · intro k lo hi
    rw [held k lo hi]
    trivial
  · intro k low
    by_cases inside : h ≤ k ∧ k < h + n
    · rcases ledger.cells.labels k low with zero | big | ⟨h', c, sh, active, -⟩ | claimed
      · exact .inl zero
      · exact .inr (.inl big)
      · rw [held k inside.1 inside.2] at active
        cases active
      · rw [held k inside.1 inside.2] at claimed
        cases claimed
    · exact (ledger.cells.labels k low).same rfl rfl (assign_outside inside)
  · obtain ⟨f, here, low, fresh⟩ := ledger.stock.cursor
    refine ⟨f, here, low, fun left k beyond => ?_⟩
    rw [others _ (by simp) (by simp)]
    exact fresh left k beyond
  · intro k pooled
    by_cases inside : h ≤ k ∧ k < h + n
    · have : k < s.spans.numSpans := by omega
      exact this
    · rw [assign_outside inside] at pooled
      exact ledger.stock.stocked k pooled
  · intro _
    have union : {k | assign role h n .pooled k = .pooled} =
        {k | role k = .pooled} ∪ Set.Ico h (h + n) := by
      ext k
      simp only [Set.mem_ofPred_eq, Set.mem_union, Set.mem_Ico]
      by_cases inside : h ≤ k ∧ k < h + n
      · simp only [assign_inside inside.1 inside.2, inside, and_self, or_true]
      · simp only [assign_outside inside, inside, or_false]
    rw [union]
    exact represents
  · intro unclipped k used
    rw [Ne, others _ (by simp) (by simp)] at used
    exact ledger.stock.whole unclipped k used
  · intro k below unused
    rw [others _ (by simp) (by simp)] at unused
    exact ledger.stock.carved k below unused
  · obtain ⟨distinct, some, inside, known⟩ := ledger.loose
    rw [List.map_cons, List.nodup_cons] at distinct
    refine ⟨distinct.2, fun x member => some x (List.mem_cons_of_mem _ member),
      fun x member k lo hi => ?_, fun k h' loose => ?_⟩
    · have loose := inside x (List.mem_cons_of_mem _ member) k lo hi
      rw [others _ (by simp)]
      · exact loose
      · intro same
        cases same
        exact distinct.1 (List.mem_map.mpr ⟨x, member, rfl⟩)
    · rw [assign_other (by simp)] at loose
      obtain ⟨x, member, within⟩ := known k h' loose.2
      refine ⟨x, (List.mem_cons.mp member).resolve_left ?_, within⟩
      rintro rfl
      exact loose.1 within

/-- A panic under the mutex of the large allocator. -/
theorem Ledger.poison (ledger : s.Ledger trust g role H L W)
    (clipped : trust.tagged → s.clipped = true) : Ledger trust g s.poison role H L W := by
  refine ledger.restock ⟨rfl, rfl, rfl, rfl, rfl, rfl, rfl, rfl, rfl, rfl⟩ (Agree.refl role)
    (fun _ _ => rfl) (fun k inside => (ledger.cells.labels k inside).same rfl rfl rfl)
    { ledger.stock with grid := { ledger.stock.grid with }, pool := nofun } ledger.loose
    fun on (unclipped : s.clipped = false) => ?_
  rw [clipped on] at unclipped
  cases unclipped

/-- Only a clipped group ends past the last span. -/
theorem Ledger.clipped_of_beyond {h n : Nat} (ledger : s.Ledger trust g role H L ((h, n) :: W))
    (beyond : s.spans.numSpans < h + n) : s.clipped = true := by
  by_contra unclipped
  rw [Bool.not_eq_true] at unclipped
  have pos : 0 < n := ledger.loose.some (h, n) List.mem_cons_self
  have held := ledger.loose.inside (h, n) List.mem_cons_self (h + n - 1)
    (by simp only; omega) (by simp only; omega)
  have whole := ledger.stock.whole unclipped (h + n - 1) (by rw [held]; simp)
  have := numSpans_iff (s := s) (k := h + n - 1)
  unfold spanBytes at *
  omega

/-- The state after a panic that may have lost runs in hand, and no others. -/
def Dropped (trust : Trust) (g : Geometry) (H L : Multiset (Nat × Nat)) (W : List (Nat × Nat))
    (s : SubHeap) : Prop :=
  ∃ lost, Owned trust g H L (lost ++ W) s

theorem Dropped.kept (dropped : Dropped trust g H L W s) : Kept trust g H L s :=
  dropped.imp' (· ++ W) fun _ owned => owned

/-- One run filed, or refused because it ends past the last span. -/
theorem fileRun_spec {c h : Nat} (isClass : IsClass c)
    (ledger : s.Ledger trust g role H L ((h, groupSpans (sizeOfClass c)) :: W))
    (settled : ∀ k, role k ≠ .claimed) (clear : s.large.poisoned = false)
    (inside : h < s.spans.numSpans) :
    Triple (· = s) (fileRun (groupSpans (sizeOfClass c)) h)
      (fun _ s' => h + groupSpans (sizeOfClass c) ≤ s.spans.numSpans ∧
        s'.Ledger trust g (assign role h (groupSpans (sizeOfClass c)) .pooled) H L W ∧
        Swept s s' role (assign role h (groupSpans (sizeOfClass c)) .pooled) [] ∧
        s'.spans = s.spans)
      (fun s' => Owned trust g H L ((h, groupSpans (sizeOfClass c)) :: W) s' ∧
        s.spans.numSpans < h + groupSpans (sizeOfClass c)) := by
  have small := ledger.stock.grid.small
  have index : wrap32 (s.large.spanIndex (s.bitmaps.spanBase h)) = h := by
    rw [LargeAllocator.spanIndex, ledger.stock.grid.large, ledger.stock.grid.spanBase,
      Nat.add_sub_cancel_left, Nat.mul_div_cancel _ (by decide), wrap32_small (by omega)]
  refine Triple.inspect fun s' same => ?_
  subst same
  rw [index]
  by_cases fits : h + groupSpans (sizeOfClass c) ≤ s'.spans.numSpans
  · obtain ⟨pool, filed, kept⟩ := ledger.file clear fits
    rw [filed]
    apply Triple.modify
    rintro _ rfl
    have held := ledger.loose.inside (h, groupSpans (sizeOfClass c)) List.mem_cons_self
    refine ⟨fits, kept, ⟨fun k h' c' sh' => ?_, fun _ _ _ => Iff.rfl, fun _ k => ?_, rfl⟩, rfl⟩
    · simp only [List.not_mem_nil, not_false_eq_true, and_true]
      refine assign_kept (by simp) fun j lo hi active => ?_
      rw [held j lo hi] at active
      cases active
    · by_cases within : h ≤ k ∧ k < h + groupSpans (sizeOfClass c)
      · rw [assign_inside within.1 within.2]
        simp
      · rw [assign_outside within]
        exact settled k
  · have := isClass.group_le
    have beyond : s'.spans.numSpans < h + groupSpans (sizeOfClass c) := by omega
    rw [SpanPool.free_overrun (ledger.stock.pool clear) (by omega) (by omega) (by omega)]
    refine Triple.bind (Q := fun _ s => Owned trust g H L ((h, groupSpans (sizeOfClass c)) :: W) s)
      (Triple.modify ?_) fun _ => Triple.fail fun s kept => ⟨kept, beyond⟩
    rintro _ rfl
    exact ⟨role, ledger.poison fun _ => ledger.clipped_of_beyond beyond, settled⟩

/-- Runs filed one after the other, until one ends past the last span. -/
theorem fileRun_each {c : Nat} (isClass : IsClass c) (spans : List Nat)
    (ledger : s.Ledger trust g role H L (spans.map (·, groupSpans (sizeOfClass c)) ++ W))
    (settled : ∀ k, role k ≠ .claimed) (clear : s.large.poisoned = false)
    (inside : ∀ h ∈ spans, h < s.spans.numSpans) :
    Triple (· = s) (Prog.each (fileRun (groupSpans (sizeOfClass c))) spans)
      (fun _ s' => ∃ role', s'.Ledger trust g role' H L W ∧ Swept s s' role role' [] ∧
        ∀ h ∈ spans, h + groupSpans (sizeOfClass c) ≤ s.spans.numSpans)
      (fun s' => Dropped trust g H L W s' ∧
        ∃ h ∈ spans, s.spans.numSpans < h + groupSpans (sizeOfClass c)) := by
  induction spans generalizing s role with
  | nil =>
      apply Triple.each_nil
      rintro _ rfl
      exact ⟨role, ledger, Swept.refl _ role, nofun⟩
  | cons h rest ih =>
      obtain ⟨low, others⟩ := List.forall_mem_cons.mp inside
      refine Triple.each_cons ((fileRun_spec isClass ledger settled clear low).relax ?_) fun _ =>
        Triple.pin fun s₁ ⟨fits, kept, swept, same⟩ => ?_
      · rintro s' ⟨kept, beyond⟩
        exact ⟨⟨_ :: rest.map (·, groupSpans (sizeOfClass c)), kept⟩, h, List.mem_cons_self, beyond⟩
      · rw [← same] at others fits ⊢
        refine ((ih kept (swept.settled settled) (swept.poisoned.trans clear) others).weaken ?_).relax ?_
        · rintro _ s' ⟨role', kept', swept', fit⟩
          exact ⟨role', kept', swept.trans swept', List.forall_mem_cons.mpr ⟨fits, fit⟩⟩
        · rintro s' ⟨kept', h', member, beyond⟩
          exact ⟨kept', h', List.mem_cons_of_mem _ member, beyond⟩

theorem fileRuns_spec {c : Nat} (isClass : IsClass c) (spans : List Nat)
    (ledger : s.Ledger trust g role H L (spans.map (·, groupSpans (sizeOfClass c)) ++ W))
    (settled : ∀ k, role k ≠ .claimed) (inside : ∀ h ∈ spans, h < s.spans.numSpans) :
    Triple (· = s) (fileRuns (groupSpans (sizeOfClass c)) spans)
      (fun _ s' => ∃ role', s'.Ledger trust g role' H L W ∧ Swept s s' role role' [] ∧
        s.large.poisoned = false ∧ ∀ h ∈ spans, h + groupSpans (sizeOfClass c) ≤ s.spans.numSpans)
      (fun s' => Dropped trust g H L W s' ∧ (s.large.poisoned = true ∨
        ∃ h ∈ spans, s.spans.numSpans < h + groupSpans (sizeOfClass c))) := by
  refine Triple.inspect fun s' same => ?_
  subst same
  refine Triple.ite (fun poisoned => Triple.fail ?_) fun clear => ?_
  · rintro _ rfl
    exact ⟨⟨_, role, ledger, settled⟩, .inl poisoned⟩
  · rw [Bool.not_eq_true] at clear
    refine Triple.bind ((fileRun_each isClass spans ledger settled clear inside).relax ?_) fun _ =>
      Triple.ret _ ?_
    · rintro s ⟨kept, beyond⟩
      exact ⟨kept, .inr beyond⟩
    · rintro s ⟨role', kept, swept, fits⟩
      exact ⟨role', kept, swept, clear, fits⟩

/-! ## Sweeping a cell -/

/-- The spans on a cell's list whose slots are all free. -/
def emptyHeads (s : SubHeap) (role : Nat → Role) (c sh : Nat) : Finset Nat :=
  (Finset.range s.spans.numSpans).filter fun h =>
    role h = .active h c sh ∧ s.bitmaps.FullyFree h (slotsPerSpan (sizeOfClass c))

theorem mem_emptyHeads (cells : s.Cells trust role) {c sh h : Nat} :
    h ∈ s.emptyHeads role c sh ↔
      role h = .active h c sh ∧ s.bitmaps.FullyFree h (slotsPerSpan (sizeOfClass c)) := by
  rw [emptyHeads, Finset.mem_filter, Finset.mem_range, and_iff_right_iff_imp]
  exact fun held => cells.inside held.1

theorem emptyHeads_card (s : SubHeap) (role : Nat → Role) (c sh : Nat) :
    (s.emptyHeads role c sh).card ≤ s.spans.numSpans := by
  have := Finset.card_le_card (Finset.filter_subset (fun h => role h = .active h c sh ∧
    s.bitmaps.FullyFree h (slotsPerSpan (sizeOfClass c))) (Finset.range s.spans.numSpans))
  rwa [Finset.card_range] at this

theorem Swept.emptyHeads {gone : List Nat} (swept : Swept s s' role role' gone)
    (cells : s.Cells trust role) (cells' : s'.Cells trust role') (c sh : Nat) :
    s'.emptyHeads role' c sh = s.emptyHeads role c sh \ gone.toFinset := by
  ext h
  rw [mem_emptyHeads cells', Finset.mem_sdiff, mem_emptyHeads cells, List.mem_toFinset, swept.roles]
  constructor
  · rintro ⟨⟨active, outside⟩, free⟩
    exact ⟨⟨active, (swept.bits h outside _).mp free⟩, outside⟩
  · rintro ⟨⟨active, free⟩, outside⟩
    exact ⟨⟨active, outside⟩, (swept.bits h outside _).mpr free⟩

/-- Nothing stands in the way of filing the group at `h`. -/
def Fileable (s : SubHeap) (role : Nat → Role) (h : Nat) : Prop :=
  s.large.poisoned = false ∧
    ∀ c sh, role h = .active h c sh → h + groupSpans (sizeOfClass c) ≤ s.spans.numSpans

/-- An empty span that cannot be filed, on which a sweep panics. -/
def Blocked (s : SubHeap) (role : Nat → Role) : Prop :=
  ∃ h c sh, h ∈ s.emptyHeads role c sh ∧ ¬ s.Fileable role h

/-- Without a clipped carve every empty span can be filed. -/
theorem Ledger.unblocked (ledger : s.Ledger trust g role H L W) (tagged : trust.tagged)
    (whole : s.clipped = false) : ¬ s.Blocked role := by
  rintro ⟨k, cls, sh, empty, stuck⟩
  refine stuck ⟨ledger.healthy tagged whole, fun c sh' active' => ?_⟩
  by_contra beyond
  obtain ⟨-, -, inside, -, members⟩ := ledger.cells.groups k k c sh' active'
  have last := members (k + groupSpans (sizeOfClass c) - 1) (by omega) (by omega)
  have := ledger.stock.whole whole (k + groupSpans (sizeOfClass c) - 1) (by rw [last]; simp)
  have := numSpans_iff (s := s) (k := k + groupSpans (sizeOfClass c) - 1)
  unfold spanBytes at *
  omega

theorem reclaimLocked_spec {c sh cap : Nat} {gone : List Nat} {E : SubHeap → Prop}
    (out : reclaimWalk sh c (s.spans.numSpans + 1) (min cap 32) noSpan (s.head sh c) s = (gone, s')) :
    Triple (· = s) (reclaimLocked sh c cap) (fun retired s₁ => retired = gone ∧ s₁ = s') E := by
  rintro _ env rfl
  simp only [reclaimLocked, Prog.apply, out, and_self]

/-- The walk of a whole list. -/
theorem Ledger.walked (ledger : s.Ledger trust g role H L W) {c sh cap : Nat} {gone : List Nat}
    (inside : sh < s.numShards)
    (out : reclaimWalk sh c (s.spans.numSpans + 1) cap noSpan (s.head sh c) s = (gone, s')) :
    ∃ nodes : List Nat, nodes.Nodup ∧ (∀ h, h ∈ nodes ↔ role h = .active h c sh) ∧
      gone = (nodes.filter fun k => s.bitmaps.FullyFree k (slotsPerSpan (sizeOfClass c))).take cap ∧
      ∃ role', s'.Ledger trust g role' H L (gone.map (·, groupSpans (sizeOfClass c)) ++ W) ∧
        Swept s s' role role' gone := by
  obtain ⟨nodes, walk, distinct, members⟩ := ledger.cells.lists sh c inside
  have walking : s.Walking role c sh [] nodes := ⟨walk, distinct, members⟩
  have lengths : nodes.length ≤ s.spans.numSpans + 1 := by
    have : nodes.toFinset ⊆ Finset.range s.spans.numSpans := by
      intro h member
      rw [List.mem_toFinset] at member
      exact Finset.mem_range.mpr (ledger.cells.inside ((members h).mp member))
    have := Finset.card_le_card this
    rw [List.toFinset_card_of_nodup distinct, Finset.card_range] at this
    omega
  rw [walk.head_eq] at out
  have swept := reclaimWalk_spec (s.spans.numSpans + 1) cap ledger walking lengths out
  exact ⟨nodes, distinct, members, swept⟩

/-- The section under a cell's lock: the runs retired are in hand. -/
theorem reclaimLocked_owned {c sh cap : Nat} {E : SubHeap → Prop} (inside : sh < g.shards) :
    Triple (Owned trust g H L W) (reclaimLocked sh c cap)
      (fun gone s => Owned trust g H L (gone.map (·, groupSpans (sizeOfClass c)) ++ W) s ∧
        (∀ h ∈ gone, IsClass c ∧ h < s.spans.numSpans)) E := by
  refine Triple.pin fun s ⟨role, ledger, settled⟩ => ?_
  rcases out : reclaimWalk sh c (s.spans.numSpans + 1) (min cap 32) noSpan (s.head sh c) s with ⟨gone, s'⟩
  obtain ⟨nodes, -, members, taken, role', kept, swept⟩ :=
    ledger.walked (by rwa [ledger.stock.grid.numShards]) out
  refine (reclaimLocked_spec out).weaken ?_
  rintro _ _ ⟨rfl, rfl⟩
  refine ⟨⟨role', kept, swept.settled settled⟩, fun h member => ?_⟩
  rw [taken] at member
  have active := (members h).mp (List.mem_of_mem_filter (List.mem_of_mem_take member))
  rw [← kept.stock.grid.numSpans ledger.stock.grid]
  exact ⟨ledger.cells.isClass active, ledger.cells.inside active⟩

theorem reclaimCell_spec {c sh cap : Nat} (ledger : s.Ledger trust g role H L W)
    (settled : ∀ k, role k ≠ .claimed) (inside : sh < s.numShards) (pos : 0 < cap) :
    Triple (· = s) (reclaimCell sh c cap)
      (fun n s' => ∃ role' gone, s'.Ledger trust g role' H L W ∧ Swept s s' role role' gone ∧
        n = gone.length ∧ gone.Nodup ∧ gone.toFinset ⊆ s.emptyHeads role c sh ∧
        gone.length = min (min cap 32) (s.emptyHeads role c sh).card ∧ ∀ h ∈ gone, s.Fileable role h)
      (fun s' => Kept trust g H L s' ∧ s.Blocked role) := by
  obtain ⟨gone, s₁, out⟩ : ∃ gone s₁, reclaimWalk sh c (s.spans.numSpans + 1) (min cap 32) noSpan
      (s.head sh c) s = (gone, s₁) := ⟨_, _, Prod.mk.eta.symm⟩
  obtain ⟨nodes, distinct, members, taken, role₁, kept, swept⟩ := ledger.walked inside out
  have heads : (nodes.filter fun k => s.bitmaps.FullyFree k
      (slotsPerSpan (sizeOfClass c))).toFinset = s.emptyHeads role c sh := by
    ext h
    rw [List.mem_toFinset, List.mem_filter, decide_eq_true_eq, members, mem_emptyHeads ledger.cells]
  have unique : gone.Nodup := by
    rw [taken]
    exact (distinct.filter _).sublist (List.take_sublist ..)
  have within : ∀ h ∈ gone, h ∈ s.emptyHeads role c sh := by
    intro h member
    rw [taken] at member
    rw [← heads, List.mem_toFinset]
    exact List.mem_of_mem_take member
  have count : gone.length = min (min cap 32) (s.emptyHeads role c sh).card := by
    rw [taken, List.length_take, ← heads, List.toFinset_card_of_nodup (distinct.filter _)]
  refine Triple.ite (fun none => by omega) fun _ => ?_
  refine Triple.bind (reclaimLocked_spec out) fun retired => Triple.lift fun same => ?_
  subst same
  refine Triple.ite (fun none => Triple.ret _ ?_) fun some => ?_
  · rintro _ rfl
    subst none
    exact ⟨role₁, [], kept, swept, rfl, List.nodup_nil, by simp, count, nofun⟩
  · have active : ∀ h ∈ retired, role h = .active h c sh := by
      intro h member
      exact ((mem_emptyHeads ledger.cells).mp (within h member)).1
    obtain ⟨first, member⟩ := List.exists_mem_of_ne_nil retired some
    have isClass := ledger.cells.isClass (active first member)
    have same := ledger.stock.grid.numSpans kept.stock.grid
    rw [isClass.rounded]
    refine Triple.bind ((fileRuns_spec isClass retired kept (swept.settled settled) ?_).relax ?_)
      fun _ => Triple.ret _ ?_
    · intro h listed
      rw [same]
      exact ledger.cells.inside (active h listed)
    · rintro s' ⟨dropped, poisoned | ⟨h, listed, beyond⟩⟩
      · refine ⟨dropped.kept, first, c, sh, within first member, fun fileable => ?_⟩
        rw [swept.poisoned, fileable.1] at poisoned
        cases poisoned
      · refine ⟨dropped.kept, h, c, sh, within h listed, fun fileable => ?_⟩
        have := fileable.2 c sh (active h listed)
        omega
    · rintro s' ⟨role', kept', swept', clear, fits⟩
      refine ⟨role', retired, kept', ?_, rfl, unique, ?_, count, fun h listed => ⟨?_, ?_⟩⟩
      · simpa using swept.trans swept'
      · intro h listed
        exact within h (List.mem_toFinset.mp listed)
      · rw [← swept.poisoned]
        exact clear
      · intro c' sh' held
        rw [active h listed] at held
        cases held
        rw [← same]
        exact fits h listed

/-- Spans left alone are as easy to file as before. -/
theorem Swept.fileable {gone : List Nat} (swept : Swept s s' role role' gone)
    (same : s'.spans.numSpans = s.spans.numSpans) {h : Nat} (outside : h ∉ gone) :
    s'.Fileable role' h ↔ s.Fileable role h := by
  simp only [Fileable, swept.poisoned, same, swept.roles, outside, not_false_eq_true, and_true]

/-- A cell without empty spans. -/
def Clean (s : SubHeap) (role : Nat → Role) (c sh : Nat) : Prop := s.emptyHeads role c sh = ∅

/-- What sweeping `cells` has done: the spans that are gone were empty spans of these
    cells, and all of them could be filed. -/
structure Cleared (s s' : SubHeap) (role role' : Nat → Role) (cells : List (Nat × Nat))
    (gone : List Nat) : Prop where
  swept : Swept s s' role role' gone
  distinct : gone.Nodup
  empty : ∀ h ∈ gone, ∃ cell ∈ cells, h ∈ s.emptyHeads role cell.2 cell.1
  fileable : ∀ h ∈ gone, s.Fileable role h

section Cleared

variable {s'' : SubHeap} {role'' : Nat → Role} {cells cells' : List (Nat × Nat)} {gone gone' : List Nat}

theorem Cleared.refl (s : SubHeap) (role : Nat → Role) : Cleared s s role role [] [] :=
  ⟨Swept.refl s role, List.nodup_nil, nofun, nofun⟩

/-- One sweep after another. -/
theorem Cleared.trans (kept : s.Cells trust role) (kept' : s'.Cells trust role')
    (same : s'.spans.numSpans = s.spans.numSpans) (h : Cleared s s' role role' cells gone)
    (h' : Cleared s' s'' role' role'' cells' gone') :
    Cleared s s'' role role'' (cells ++ cells') (gone ++ gone') := by
  have later : ∀ x ∈ gone', x ∉ gone ∧ ∃ cell ∈ cells', x ∈ s.emptyHeads role cell.2 cell.1 := by
    intro x member
    obtain ⟨cell, listed, held⟩ := h'.empty x member
    rw [h.swept.emptyHeads kept kept', Finset.mem_sdiff, List.mem_toFinset] at held
    exact ⟨held.2, cell, listed, held.1⟩
  refine ⟨h.swept.trans h'.swept, ?_, fun x member => ?_, fun x member => ?_⟩
  · rw [List.nodup_append]
    refine ⟨h.distinct, h'.distinct, fun a first b second equal => ?_⟩
    exact (later b second).1 (equal ▸ first)
  · rcases List.mem_append.mp member with first | second
    · obtain ⟨cell, listed, held⟩ := h.empty x first
      exact ⟨cell, List.mem_append_left _ listed, held⟩
    · obtain ⟨-, cell, listed, held⟩ := later x second
      exact ⟨cell, List.mem_append_right _ listed, held⟩
  · rcases List.mem_append.mp member with first | second
    · exact h.fileable x first
    · exact (h.swept.fileable same (later x second).1).mp (h'.fileable x second)

/-- Sweeping other cells leaves the empty spans of a cell alone. -/
theorem Cleared.untouched (kept : s.Cells trust role) (kept' : s'.Cells trust role')
    (h : Cleared s s' role role' cells gone) {cell : Nat × Nat} (other : cell ∉ cells) :
    s'.emptyHeads role' cell.2 cell.1 = s.emptyHeads role cell.2 cell.1 := by
  rw [h.swept.emptyHeads kept kept', Finset.sdiff_eq_self_iff_disjoint, Finset.disjoint_left]
  intro x held listed
  obtain ⟨cell', member, held'⟩ := h.empty x (List.mem_toFinset.mp listed)
  rw [mem_emptyHeads kept] at held held'
  rw [held.1] at held'
  obtain ⟨same, -⟩ := held'
  injection same with _ cls shard
  exact other ((Prod.ext shard cls : cell = cell') ▸ member)

/-- What blocks a later sweep was in the way from the start. -/
theorem Cleared.blocked (kept : s.Cells trust role) (kept' : s'.Cells trust role')
    (same : s'.spans.numSpans = s.spans.numSpans) (h : Cleared s s' role role' cells gone)
    (blocked : s'.Blocked role') : s.Blocked role := by
  obtain ⟨x, c, sh, held, stuck⟩ := blocked
  rw [h.swept.emptyHeads kept kept', Finset.mem_sdiff, List.mem_toFinset] at held
  exact ⟨x, c, sh, held.1, fun fileable => stuck ((h.swept.fileable same held.2).mpr fileable)⟩

end Cleared

/-- A cell under a sweep with `passes` left, after `n` spans were taken off it. Each full
    batch leaves fewer empty spans, so the passes last. -/
def Sweeping (trust : Trust) (g : Geometry) (H L : Multiset (Nat × Nat)) (W : List (Nat × Nat))
    (s : SubHeap) (role : Nat → Role) (c sh cap passes n : Nat) (s' : SubHeap) : Prop :=
  ∃ role' gone, s'.Ledger trust g role' H L W ∧ Cleared s s' role role' [(sh, c)] gone ∧
    n = gone.length ∧ (s'.emptyHeads role' c sh).card < passes ∧ (32 < cap → gone = [])

/-- A cell after its sweep. -/
def Finished (trust : Trust) (g : Geometry) (H L : Multiset (Nat × Nat)) (W : List (Nat × Nat))
    (s : SubHeap) (role : Nat → Role) (c sh cap n : Nat) (s' : SubHeap) : Prop :=
  ∃ role' gone, s'.Ledger trust g role' H L W ∧ Cleared s s' role role' [(sh, c)] gone ∧
    n = gone.length ∧ (s'.Clean role' c sh ↔ cap ≤ 32 ∨ (s.emptyHeads role c sh).card ≤ 32)

theorem Sweeping.never {c sh cap n : Nat} : ¬ Sweeping trust g H L W s role c sh cap 0 n s' := by
  rintro ⟨_, _, _, _, _, few, _⟩
  omega

theorem Sweeping.begin (ledger : s.Ledger trust g role H L W) (c sh cap : Nat) :
    Sweeping trust g H L W s role c sh cap (s.spans.numSpans + 1) 0 s := by
  refine ⟨role, [], ledger, ?_, rfl, ?_, fun _ => rfl⟩
  · exact ⟨Swept.refl _ role, List.nodup_nil, nofun, nofun⟩
  · exact Nat.lt_succ_of_le (emptyHeads_card ..)

theorem reclaimPass_spec {c sh cap : Nat} (ledger : s.Ledger trust g role H L W)
    (settled : ∀ k, role k ≠ .claimed) (inside : sh < s.numShards) (pos : 0 < cap) (k n : Nat) :
    Triple (Sweeping trust g H L W s role c sh cap (k + 1) n) (reclaimPass cap sh c n)
      (fun r s' => match r with
        | .yield n' => Sweeping trust g H L W s role c sh cap k n' s'
        | .done n' => Finished trust g H L W s role c sh cap n' s')
      (fun s' => Kept trust g H L s' ∧ s.Blocked role) := by
  refine Triple.pin fun s₁ ⟨role₁, gone, kept, cleared, total, few, once⟩ => ?_
  have sameSpans := ledger.stock.grid.numSpans kept.stock.grid
  have inside₁ : sh < s₁.numShards := by
    rw [kept.stock.grid.numShards, ← ledger.stock.grid.numShards]
    exact inside
  refine Triple.bind ((reclaimCell_spec kept (cleared.swept.settled settled) inside₁ pos).relax
    fun s' ⟨kept', blocked⟩ =>
      ⟨kept', cleared.blocked ledger.cells kept.cells sameSpans blocked⟩) fun got => ?_
  refine Triple.pin fun s₂ ⟨role₂, gone₂, kept₂, swept₂, count, unique, within, taken, files⟩ => ?_
  have both : Cleared s s₂ role role₂ [(sh, c)] (gone ++ gone₂) := by
    have next : Cleared s₁ s₂ role₁ role₂ [(sh, c)] gone₂ :=
      ⟨swept₂, unique, fun h member =>
        ⟨(sh, c), List.mem_singleton_self _, within (List.mem_toFinset.mpr member)⟩, files⟩
    obtain ⟨swept, distinct, empty, fileable⟩ :=
      cleared.trans ledger.cells kept.cells sameSpans next
    refine ⟨swept, distinct, fun h member => ?_, fileable⟩
    obtain ⟨cell, listed, held⟩ := empty h member
    rw [List.cons_append, List.nil_append, List.mem_cons, List.mem_singleton, or_self] at listed
    exact ⟨cell, List.mem_singleton.mpr listed, held⟩
  have rest : (s₂.emptyHeads role₂ c sh).card = (s₁.emptyHeads role₁ c sh).card - gone₂.length := by
    rw [swept₂.emptyHeads kept.cells kept₂.cells, Finset.card_sdiff_of_subset within,
      List.toFinset_card_of_nodup unique]
  have sum : n + got = (gone ++ gone₂).length := by
    rw [List.length_append, total, count]
  refine Triple.ite (fun short => Triple.ret _ ?_) (fun full => Triple.ret _ ?_)
  · rintro _ rfl
    refine ⟨role₂, gone ++ gone₂, kept₂, both, sum, ?_⟩
    rw [Clean, ← Finset.card_eq_zero, rest]
    by_cases narrow : cap ≤ 32
    · omega
    · have first := once (by omega)
      subst first
      have same := cleared.swept.emptyHeads ledger.cells kept.cells c sh
      rw [List.toFinset_nil, Finset.sdiff_empty] at same
      rw [← same]
      omega
  · rintro _ rfl
    exact ⟨role₂, gone ++ gone₂, kept₂, both, sum, by omega, fun wide => by omega⟩

theorem reclaimCells_spec {c sh cap : Nat} (ledger : s.Ledger trust g role H L W)
    (settled : ∀ k, role k ≠ .claimed) (inside : sh < s.numShards) (pos : 0 < cap) :
    Triple (· = s) (reclaimCells cap sh c) (Finished trust g H L W s role c sh cap)
      (fun s' => Kept trust g H L s' ∧ s.Blocked role) := by
  refine Triple.inspect fun s' same => ?_
  rw [same]
  refine (Triple.loop (I := Sweeping trust g H L W s role c sh cap) (fun k n => ?_)
    (fun _ _ out => out.never.elim) _ _).start (Sweeping.begin ledger c sh cap)
  refine (reclaimPass_spec ledger settled inside pos k n).weaken fun r s' swept => ?_
  cases r with
  | done n' => exact swept
  | yield n' => exact swept

/-! ## Sweeping all cells -/

theorem reclaimCells_each {cap : Nat} (pos : 0 < cap) (cells : List (Nat × Nat))
    (ledger : s.Ledger trust g role H L W) (settled : ∀ k, role k ≠ .claimed)
    (distinct : cells.Nodup) (inside : ∀ cell ∈ cells, cell.1 < s.numShards) :
    Triple (· = s) (Prog.each (fun cell => reclaimCells cap cell.1 cell.2) cells)
      (fun counts s' => ∃ role' gone, s'.Ledger trust g role' H L W ∧
        Cleared s s' role role' cells gone ∧ counts.sum = gone.length ∧
        ∀ cell ∈ cells, s'.Clean role' cell.2 cell.1 ↔
          cap ≤ 32 ∨ (s.emptyHeads role cell.2 cell.1).card ≤ 32)
      (fun s' => Kept trust g H L s' ∧ s.Blocked role) := by
  induction cells generalizing s role with
  | nil =>
      apply Triple.each_nil
      rintro _ rfl
      exact ⟨role, [], ledger, Cleared.refl _ role, rfl, nofun⟩
  | cons cell rest ih =>
      obtain ⟨apart, distinct⟩ := List.nodup_cons.mp distinct
      obtain ⟨here, others⟩ := List.forall_mem_cons.mp inside
      refine Triple.each_cons (reclaimCells_spec ledger settled here pos) fun n =>
        Triple.pin fun s₁ ⟨role₁, gone, kept, cleared, total, clean⟩ => ?_
      have sameSpans := ledger.stock.grid.numSpans kept.stock.grid
      have inside₁ : ∀ cell ∈ rest, cell.1 < s₁.numShards := by
        rw [kept.stock.grid.numShards, ← ledger.stock.grid.numShards]
        exact others
      refine ((ih kept (cleared.swept.settled settled) distinct inside₁).weaken ?_).relax ?_
      · rintro counts s₂ ⟨role₂, gone₂, kept₂, cleared₂, total₂, clean₂⟩
        refine ⟨role₂, gone ++ gone₂, kept₂, cleared.trans ledger.cells kept.cells sameSpans cleared₂,
          ?_, List.forall_mem_cons.mpr ⟨?_, fun cell' member => ?_⟩⟩
        · rw [List.sum_cons, total, total₂, List.length_append]
        · rw [Clean, cleared₂.untouched kept.cells kept₂.cells apart]
          exact clean
        · rw [clean₂ cell' member, cleared.untouched ledger.cells kept.cells]
          intro listed
          rw [List.mem_singleton, Prod.mk.eta] at listed
          exact apart (listed ▸ member)
      · rintro s' ⟨kept', blocked⟩
        exact ⟨kept', cleared.blocked ledger.cells kept.cells sameSpans blocked⟩

/-- The cells in the order of a sweep. -/
def allCells (numShards : Nat) : List (Nat × Nat) :=
  (List.range numShards).flatMap fun shard =>
    (List.range (numClasses - 1)).map fun c => (shard, c + 1)

theorem mem_allCells {numShards sh c : Nat} :
    (sh, c) ∈ allCells numShards ↔ sh < numShards ∧ IsClass c := by
  simp only [allCells, List.mem_flatMap, List.mem_range, List.mem_map, Prod.mk.injEq]
  constructor
  · rintro ⟨_, inside, c, low, rfl, rfl⟩
    exact ⟨inside, by omega, by omega⟩
  · rintro ⟨inside, pos, low⟩
    exact ⟨sh, inside, c - 1, by omega, rfl, by omega⟩

theorem allCells_nodup (numShards : Nat) : (allCells numShards).Nodup := by
  rw [allCells, List.nodup_flatMap]
  refine ⟨fun shard _ => ?_, ?_⟩
  · refine List.Nodup.map (fun c c' same => ?_) List.nodup_range
    have := (Prod.mk.inj same).2
    omega
  · refine List.nodup_range.imp fun different => ?_
    rw [Function.onFun, List.disjoint_left]
    intro cell first second
    obtain ⟨c, -, rfl⟩ := List.mem_map.mp first
    obtain ⟨c', -, same⟩ := List.mem_map.mp second
    exact different (Prod.mk.inj same).1.symm

/-- A sweep files the empty spans it takes off, and leaves a cell with none unless it
    takes more than 32 at a time and the cell had more. -/
theorem reclaimEmptySpans_spec (maxPerLock : Nat) (ledger : s.Ledger trust g role H L W)
    (settled : ∀ k, role k ≠ .claimed) :
    Triple (· = s) (reclaimEmptySpans maxPerLock)
      (fun n s' => ∃ role' gone, s'.Ledger trust g role' H L W ∧ (∀ k, role' k ≠ .claimed) ∧
        Cleared s s' role role' (allCells s.numShards) gone ∧ n = gone.length ∧
        ∀ sh < s.numShards, ∀ c, IsClass c → (s'.Clean role' c sh ↔
          max maxPerLock 1 ≤ 32 ∨ (s.emptyHeads role c sh).card ≤ 32))
      (fun s' => Kept trust g H L s' ∧ s.Blocked role) := by
  refine Triple.inspect fun s' same => ?_
  rw [same]
  refine Triple.bind (reclaimCells_each (by omega) (allCells s.numShards) ledger settled
    (allCells_nodup _) fun cell member => (mem_allCells.mp member).1) fun counts => Triple.ret _ ?_
  rintro s' ⟨role', gone, kept, cleared, total, clean⟩
  refine ⟨role', gone, kept, cleared.swept.settled settled, cleared, total, ?_⟩
  intro sh inside c isClass
  exact clean (sh, c) (mem_allCells.mpr ⟨inside, isClass⟩)

theorem reclaimEmptySpans_kept (maxPerLock : Nat) :
    Triple (Kept trust g H L) (reclaimEmptySpans maxPerLock) (fun _ => Kept trust g H L)
      (Kept trust g H L) := by
  refine Triple.pin fun s ⟨W, role, ledger, settled⟩ => ?_
  refine ((reclaimEmptySpans_spec maxPerLock ledger settled).weaken ?_).relax fun s' panic => panic.1
  rintro n s' ⟨role', gone, kept, settled', -⟩
  exact ⟨W, role', kept, settled'⟩

end SubHeap

end Toccata
