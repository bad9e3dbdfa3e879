import Mathlib.Data.Multiset.Sort
import Mathlib.Data.Set.Card
import Toccata.SubHeap.Placing
import Toccata.SubHeap.Seized

/-! # Whole sweeps

What a reclaim sweep leaves behind. The loop over a cell goes on while batches come out
full, but a batch is cut at 32 whatever the caller asks for, so a larger cap ends it
early. A sweep panics on an empty span that it cannot file.
-/

namespace Toccata

open Foundations SizeClass

namespace SubHeap

variable {trust : Trust} {g : Geometry} {s s' : SubHeap} {role role' : Nat → Role}
  {H L : Multiset (Nat × Nat)} {W : List (Nat × Nat)} {c sh cap : Nat}

/-! ## The loops end by themselves -/

/-- The spans on the list of a cell all of whose slots are free. -/
def emptySpans (s : SubHeap) (sh cls : Nat) : Set Nat :=
  {k | s.OnList sh cls k ∧ s.bitmaps.FullyFree k (slotsPerSpan (sizeOfClass cls))}

/-- The spans on the list of any cell. -/
def listed (s : SubHeap) : Set Nat := {k | ∃ sh cls, sh < s.numShards ∧ s.OnList sh cls k}

/-- No list has an empty span left, and `n` spans were taken off the lists. -/
structure Complete (s s' : SubHeap) (n : Nat) : Prop where
  clean : ∀ sh cls, sh < s'.numShards → s'.emptySpans sh cls = ∅
  counted : n = (s.listed \ s'.listed).ncard

/-- A sweep can file all the empty spans it finds, and takes them all when the cap does
    not exceed what one batch can hold, or no cell has more than that. -/
structure Sweepable (s : SubHeap) (cap : Nat) : Prop where
  small : cap ≤ 32 ∨ ∀ sh cls, sh < s.numShards → (s.emptySpans sh cls).ncard ≤ 32
  fileable : ∀ sh cls k, sh < s.numShards → k ∈ s.emptySpans sh cls →
    s.large.poisoned = false ∧ k + groupSpans (sizeOfClass cls) ≤ s.spans.numSpans

theorem Ledger.emptySpans_eq (ledger : s.Ledger trust g role H L W) (inside : sh < s.numShards) :
    s.emptySpans sh c = s.emptyHeads role c sh := by
  ext k
  rw [Finset.mem_coe, mem_emptyHeads ledger.cells]
  exact and_congr_left' (ledger.onList_iff inside)

theorem Ledger.emptySpans_ncard (ledger : s.Ledger trust g role H L W) (inside : sh < s.numShards) :
    (s.emptySpans sh c).ncard = (s.emptyHeads role c sh).card := by
  rw [ledger.emptySpans_eq inside, Set.ncard_coe_finset]

theorem Ledger.mem_listed (ledger : s.Ledger trust g role H L W) {k : Nat} :
    k ∈ s.listed ↔ ∃ sh cls, role k = .active k cls sh := by
  constructor
  · rintro ⟨sh, cls, inside, member⟩
    exact ⟨sh, cls, (ledger.onList_iff inside).mp member⟩
  · rintro ⟨sh, cls, active⟩
    have inside := (ledger.cells.groups k k cls sh active).2.1
    exact ⟨sh, cls, inside, (ledger.onList_iff inside).mpr active⟩

/-- The spans taken off are those no longer listed. -/
theorem Cleared.ncard {cells : List (Nat × Nat)} {gone : List Nat}
    (ledger : s.Ledger trust g role H L W) (ledger' : s'.Ledger trust g role' H L W)
    (cleared : Cleared s s' role role' cells gone) : (s.listed \ s'.listed).ncard = gone.length := by
  have same : s.listed \ s'.listed = gone.toFinset := by
    ext k
    rw [Set.mem_sdiff, ledger.mem_listed, ledger'.mem_listed, Finset.mem_coe, List.mem_toFinset]
    simp only [cleared.swept.roles]
    constructor
    · rintro ⟨⟨sh, cls, active⟩, off⟩
      by_contra stays
      exact off ⟨sh, cls, active, stays⟩
    · intro member
      obtain ⟨cell, -, empty⟩ := cleared.empty k member
      refine ⟨⟨cell.1, cell.2, ((mem_emptyHeads ledger.cells).mp empty).1⟩, ?_⟩
      rintro ⟨_, _, -, stays⟩
      exact stays member
  rw [same, Set.ncard_coe_finset, List.toFinset_card_of_nodup cleared.distinct]

theorem Ledger.fileable_iff (ledger : s.Ledger trust g role H L W) : ¬ s.Blocked role ↔
    ∀ sh cls k, sh < s.numShards → k ∈ s.emptySpans sh cls →
      s.large.poisoned = false ∧ k + groupSpans (sizeOfClass cls) ≤ s.spans.numSpans := by
  constructor
  · intro clear sh cls k inside empty
    rw [ledger.emptySpans_eq inside, Finset.mem_coe] at empty
    by_contra stuck
    refine clear ⟨k, cls, sh, empty, fun fileable => stuck ⟨fileable.1, ?_⟩⟩
    exact fileable.2 cls sh ((mem_emptyHeads ledger.cells).mp empty).1
  · rintro fine ⟨k, cls, sh, empty, stuck⟩
    have active := ((mem_emptyHeads ledger.cells).mp empty).1
    have inside := (ledger.cells.groups k k cls sh active).2.1
    obtain ⟨clear, fits⟩ := fine sh cls k inside (by rwa [ledger.emptySpans_eq inside, Finset.mem_coe])
    refine stuck ⟨clear, fun c sh' active' => ?_⟩
    rw [active] at active'
    cases active'
    exact fits

/-- Before any carve is clipped every empty span can be filed. -/
theorem Ledger.sweepable (ledger : s.Ledger trust g role H L W) (tagged : trust.tagged)
    (whole : s.clipped = false) (small : cap ≤ 32) : s.Sweepable cap :=
  ⟨.inl small, ledger.fileable_iff.mp (ledger.unblocked tagged whole)⟩

/-- A sweep is complete exactly when it is possible and its cap does no harm. -/
theorem reclaimEmptySpans_complete (ledger : s.Ledger trust g role H L W)
    (settled : ∀ k, role k ≠ .claimed) (maxPerLock : Nat) (env : List Turn) :
    (∃ n s' env', reclaimEmptySpans maxPerLock s env = (some n, s', env') ∧ Complete s s' n) ↔
      s.Sweepable (max maxPerLock 1) := by
  have swept := reclaimEmptySpans_spec maxPerLock ledger settled s env rfl
  rcases outcome : reclaimEmptySpans maxPerLock s env with ⟨_ | n, s', env'⟩
  · simp only [outcome] at swept
    constructor
    · rintro ⟨_, _, _, impossible, -⟩
      cases impossible
    · intro sweepable
      exact (ledger.fileable_iff.mpr sweepable.fileable swept.2).elim
  · simp only [outcome] at swept
    obtain ⟨role', gone, ledger', settled', cleared, total, clean⟩ := swept
    have numShards : s'.numShards = s.numShards := by
      rw [ledger'.stock.grid.numShards, ledger.stock.grid.numShards]
    have isClass : ∀ {sh cls}, (s.emptyHeads role cls sh).Nonempty → IsClass cls := by
      rintro sh cls ⟨k, empty⟩
      exact ledger.cells.isClass ((mem_emptyHeads ledger.cells).mp empty).1
    constructor
    · rintro ⟨_, _, _, same, complete⟩
      cases same
      have spotless : ∀ sh cls, sh < s.numShards → s'.Clean role' cls sh := by
        intro sh cls inside
        have none := complete.clean sh cls (by rwa [numShards])
        rw [ledger'.emptySpans_eq (by rwa [numShards])] at none
        exact Finset.coe_eq_empty.mp none
      constructor
      · by_cases narrow : max maxPerLock 1 ≤ 32
        · exact .inl narrow
        · refine .inr fun sh cls inside => ?_
          rw [ledger.emptySpans_ncard inside]
          rcases Finset.eq_empty_or_nonempty (s.emptyHeads role cls sh) with none | some
          · rw [none]
            exact Nat.zero_le _
          · exact ((clean sh inside cls (isClass some)).mp (spotless sh cls inside)).resolve_left narrow
      · rw [← ledger.fileable_iff]
        rintro ⟨k, cls, sh, empty, stuck⟩
        have active := ((mem_emptyHeads ledger.cells).mp empty).1
        have inside := (ledger.cells.groups k k cls sh active).2.1
        have none := spotless sh cls inside
        rw [Clean, cleared.swept.emptyHeads ledger.cells ledger'.cells] at none
        have taken : k ∈ gone := by
          by_contra stays
          have : k ∈ s.emptyHeads role cls sh \ gone.toFinset :=
            Finset.mem_sdiff.mpr ⟨empty, fun member => stays (List.mem_toFinset.mp member)⟩
          rw [none] at this
          exact absurd this (Finset.notMem_empty k)
        exact stuck (cleared.fileable k taken)
    · intro sweepable
      refine ⟨n, s', env', rfl, ?_, ?_⟩
      · intro sh cls inside
        rw [numShards] at inside
        rw [ledger'.emptySpans_eq (by rwa [numShards]), Finset.coe_eq_empty]
        rcases Finset.eq_empty_or_nonempty (s.emptyHeads role cls sh) with none | some
        · rw [cleared.swept.emptyHeads ledger.cells ledger'.cells, none, Finset.empty_sdiff]
        · refine (clean sh inside cls (isClass some)).mpr (sweepable.small.imp_right fun few => ?_)
          rw [← ledger.emptySpans_ncard inside]
          exact few sh cls inside
      · rw [cleared.ncard ledger ledger', total]

/-- A larger cap leaves spans of a cell with more than a batch of empty ones. -/
theorem Ledger.leaves {maxPerLock : Nat} (ledger : s.Ledger trust g role H L W)
    (settled : ∀ k, role k ≠ .claimed) (tagged : trust.tagged) (whole : s.clipped = false)
    (inside : sh < s.numShards) (wide : 32 < maxPerLock) (many : 32 < (s.emptySpans sh c).ncard)
    (env : List Turn) : ∃ n s' env', reclaimEmptySpans maxPerLock s env = (some n, s', env') ∧
      ¬ Complete s s' n := by
  have swept := reclaimEmptySpans_spec maxPerLock ledger settled s env rfl
  rcases out : reclaimEmptySpans maxPerLock s env with ⟨_ | n, s', env'⟩
  · simp only [out] at swept
    exact (ledger.unblocked tagged whole swept.2).elim
  · refine ⟨n, s', env', rfl, fun complete => ?_⟩
    have sweepable := (reclaimEmptySpans_complete ledger settled maxPerLock env).mp ⟨n, s', env', out, complete⟩
    rcases sweepable.small with narrow | few
    · omega
    · exact absurd (few sh c inside) (Nat.not_le_of_lt many)

namespace World

variable {w : World} {c : Config}

def roomy : Config := ⟨4096, 256 * 65536, 1, some 3, 8⟩

theorem roomy_mapped : roomy.Mapped := ⟨⟨by decide, by decide +kernel⟩, by decide +kernel⟩

structure Grabbing (n : Nat) (w : World) : Prop where
  reached : Reached roomy (fun t op => t = 0 ∧ op.size + (spanBytes - 1) < 2 ^ 64) w
  whole : ReachedWhole roomy (fun t op => t = 0 ∧ spanCount op.size < 2 ^ 32) w
  spare : Spare (roomy.arenaBase + roomy.budgetBytes) (roomy.arenaBase + n * 4 * spanBytes) w.sub
  held : w.objects.card = n
  classes : ∀ x ∈ w.objects, x.2 = 44

theorem Grabbing.ledger {n : Nat} {w : World} (grabbing : Grabbing n w) :
    w.sub.clipped = false ∧ ∃ W role, w.sub.Ledger .tags (roomy.geometry (· = 0)) role w.objects w.records W ∧
      ∀ k, role k ≠ .claimed := by
  have sound : ∀ t op, t = 0 ∧ spanCount op.size < 2 ^ 32 → Sound .tags (roomy.geometry (· = 0)) t op := by
    rintro t op ⟨rfl, small⟩
    refine ⟨?_, fun _ => small, Nat.zero_mod _, nofun⟩
    unfold spanCount spanBytes at *
    omega
  obtain ⟨⟨lost, lostRuns, all, W, role, ledger, settled⟩, whole⟩ := grabbing.whole.tracked roomy_mapped sound
  obtain ⟨rfl, rfl⟩ := all nofun
  rw [zero_add, zero_add] at ledger
  exact ⟨whole, W, role, ledger, settled⟩

theorem Grabbing.next {n : Nat} {w : World} (grabbing : Grabbing n w) (few : n < 64) :
    Grabbing (n + 1) (w.after 0 [⟨0, 0, false⟩] (.allocClass 44)) := by
  have isClass : IsClass 44 := by decide
  have left : w.sub.wholeSpans ≠ 0 := by
    have limit := grabbing.spare.limit
    have far := grabbing.spare.cursor
    rw [wholeSpans, Ne, Nat.div_eq_zero_iff_lt (by decide), limit]
    have budget : roomy.budgetBytes = 256 * spanBytes := by decide
    unfold spanBytes at *
    omega
  have fits : roundedSize 44 ≤ spanBytes := by decide
  have moved := allocClass_spare (.inl fits) 0 w.sub [⟨0, 0, false⟩] grabbing.spare
  obtain ⟨p, s, env, out⟩ := served roomy_mapped grabbing.reached isClass left []
  have same : w.after 0 [⟨0, 0, false⟩] (.allocClass 44) = ⟨s, (p, 44) ::ₘ w.objects, w.runs⟩ := by
    show w.call (SubHeap.allocClass 44 0) [⟨0, 0, false⟩] (gainObject 44) = _
    rw [call, out]
    rfl
  have reached := grabbing.reached.call 0 [⟨0, 0, false⟩] (.allocClass 44) isClass ⟨rfl, by decide⟩
  have whole := grabbing.whole.call 0 [⟨0, 0, false⟩] (.allocClass 44) isClass ⟨rfl, by decide⟩
  rw [same] at reached whole ⊢
  rw [out] at moved
  refine ⟨reached, whole moved.whole, ⟨⟨moved.limit, ?_⟩, moved.whole⟩, ?_, ?_⟩
  · have want : carveWant 44 (batchFor 44) = 4 := by decide
    have far := moved.cursor
    rw [want] at far
    rw [Nat.succ_mul, Nat.add_mul, ← Nat.add_assoc]
    exact far
  · rw [Multiset.card_cons, grabbing.held]
  · intro x held
    rcases Multiset.mem_cons.mp held with rfl | old
    · rfl
    · exact grabbing.classes x old

end World

end SubHeap

end Toccata
