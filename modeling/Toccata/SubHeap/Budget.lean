import Toccata.Foundations.Packing
import Toccata.SubHeap.Interleaving

/-! # The budget

What is out at any time fits below the cursor, the cursor never goes back, and it stays
within the budget. So the bytes carved bound what was out at any time before.
-/

namespace Toccata

open Foundations SizeClass

/-- The high-water of bytes carved from the arena. -/
def BumpArena.carvedBytes (a : BumpArena) (budget : Nat) : Nat := a.cursor - (a.limit - budget)

namespace SubHeap

variable {trust : Trust} {g : Geometry} {s s' : SubHeap} {role : Nat → Role} {H L : Multiset (Nat × Nat)}
  {W : List (Nat × Nat)}

/-! ## What is out fits -/

/-- The bytes of objects by their classes, of runs on record and of runs in hand. -/
def outBytes (H L : Multiset (Nat × Nat)) (W : List (Nat × Nat)) : Nat :=
  (H.map (sizeOfClass ·.2)).sum + ((L.map (·.2 * spanBytes)).sum + (W.map (·.2 * spanBytes)).sum)

/-- The ranges of everything out. -/
noncomputable def ranges (g : Geometry) (H L : Multiset (Nat × Nat)) (W : List (Nat × Nat)) :
    List (Nat × Nat) :=
  H.toList.map (fun y => (y.1, sizeOfClass y.2)) ++
    (L.toList.map (fun y => (y.1, y.2 * spanBytes)) ++
      W.map fun r => (g.base + r.1 * spanBytes, r.2 * spanBytes))

theorem ranges_sum (g : Geometry) (H L : Multiset (Nat × Nat)) (W : List (Nat × Nat)) :
    ((ranges g H L W).map (·.2)).sum = outBytes H L W := by
  have sum : ∀ (m : Multiset (Nat × Nat)) (f : Nat × Nat → Nat), (m.toList.map f).sum = (m.map f).sum := by
    intro m f
    conv_rhs => rw [← Multiset.coe_toList m, Multiset.map_coe, Multiset.sum_coe]
  simp only [ranges, outBytes, List.map_append, List.sum_append, List.map_map, ← sum]
  rfl

theorem Ledger.ranges_apart (ledger : s.Ledger trust g role H L W) :
    (ranges g H L W).Pairwise fun r r' => r.1 + r.2 ≤ r'.1 ∨ r'.1 + r'.2 ≤ r.1 := by
  rw [ranges, List.pairwise_append, List.pairwise_append]
  refine ⟨List.pairwise_map.mpr ?_, ⟨List.pairwise_map.mpr ?_, List.pairwise_map.mpr ?_, ?_⟩, ?_⟩
  · exact pairwise_of_pairs fun x y both => ledger.objects_apart both
  · refine pairwise_of_pairs fun x y both => ?_
    simpa only [Apart] using ledger.runs_apart both
  · refine ledger.loose_apart.imp fun {r r'} apart => ?_
    rcases apart with le | le
    · have := Nat.mul_le_mul_right spanBytes le
      rw [Nat.add_mul] at this
      exact .inl (by simp only; omega)
    · have := Nat.mul_le_mul_right spanBytes le
      rw [Nat.add_mul] at this
      exact .inr (by simp only; omega)
  · simp only [List.mem_map, Multiset.mem_toList]
    rintro _ ⟨y, run, rfl⟩ _ ⟨r, loose, rfl⟩
    simpa only [Apart] using ledger.run_loose_apart run loose
  · simp only [List.mem_map, List.mem_append, Multiset.mem_toList]
    rintro _ ⟨y, object, rfl⟩ _ (⟨z, run, rfl⟩ | ⟨r, loose, rfl⟩)
    · simpa only [Apart] using ledger.object_run_apart object run
    · simpa only [Apart] using ledger.object_loose_apart object loose

theorem Ledger.ranges_below (ledger : s.Ledger trust g role H L W) (whole : s.clipped = false) :
    ∀ r ∈ ranges g H L W, g.base ≤ r.1 ∧ r.1 + r.2 ≤ s.arena.cursor := by
  simp only [ranges, List.mem_append, List.mem_map, Multiset.mem_toList]
  rintro _ (⟨⟨p, cls⟩, object, rfl⟩ | ⟨y, run, rfl⟩ | ⟨r, loose, rfl⟩)
  · obtain ⟨k, sh, i, active, slot, rfl⟩ := ledger.slots.outside cls p (.inr object)
    have below := ledger.extent_below whole (ledger.cells.extent active) (by simp)
    have fits := slotAddr_end (g := g) (k := k) (ledger.cells.isClass active) slot
    exact ⟨by rw [Geometry.slotAddr]; omega, fits.trans below⟩
  · obtain ⟨h, place, extent⟩ := ledger.run_extent run
    have below := ledger.extent_below whole extent (by simp)
    rw [Nat.add_mul] at below
    exact ⟨by omega, by omega⟩
  · have below := ledger.extent_below whole (ledger.loose_extent loose) (by simp)
    rw [Nat.add_mul] at below
    exact ⟨by omega, by omega⟩

theorem Ledger.out_le (ledger : s.Ledger trust g role H L W) (whole : s.clipped = false) :
    outBytes H L W ≤ s.arena.cursor - g.base := by
  rw [← ranges_sum g]
  exact sum_le_of_apart ledger.ranges_apart (ledger.ranges_below whole)

theorem Ledger.carved_eq (ledger : s.Ledger trust g role H L W) :
    s.arena.carvedBytes g.len = s.arena.cursor - g.base := by
  have limit := ledger.stock.grid.limit
  rw [ledger.stock.grid.len] at limit
  rw [BumpArena.carvedBytes, limit, Nat.add_sub_cancel]

theorem Ledger.carved_le (ledger : s.Ledger trust g role H L W) : s.arena.carvedBytes g.len ≤ g.len := by
  obtain ⟨f, here, low, -⟩ := ledger.stock.cursor
  rw [ledger.stock.grid.len] at low
  rw [ledger.carved_eq]
  omega

/-- The cursor never goes back. -/
theorem Pc.run_further (company : Company) (thread : Nat) (pc : Pc) (s : SubHeap) (env : List Turn) :
    s.arena.Further (pc.run company thread s env).2.1.arena := by
  by_cases stores : pc.stores
  · cases pc with
    | hint => exact .same
    | _ => exact stores.elim
  · exact (Pc.run_steady company thread stores s env).arena

/-! ## Interleaved -/

namespace Machine

variable {x y : Machine} {c : Config} {admitted : SubHeap → Task → SubHeap → Prop}

/-- The bytes of everything out: what callers hold, and what operations have in hand. -/
def outBytes (c : Config) (x : Machine) : Nat :=
  SubHeap.outBytes (x.held c) (recordsInHand x.tasks + x.records) (x.retired c)

theorem Step.further (step : Step admitted x y) : x.sub.arena.Further y.sub.arena := by
  cases step with
  | enter task free enters => exact .same
  | advance before task behind env here allowed =>
      rw [advance_sub]
      exact Pc.run_further ..

/-- What is reached later is further on. -/
theorem onward_further (on : Reachable (· = x) (Step admitted) y) : x.sub.arena.Further y.sub.arena := by
  induction on with
  | start same =>
      subst same
      exact .same
  | next _ taken ih => exact ih.trans taken.further

theorem Reached.onward (reached : Reached c admitted x) (on : Reachable (· = x) (Step admitted) y) :
    Reached c admitted y := by
  induction on with
  | start same => exact same ▸ reached
  | next _ taken ih => exact ih.next taken

/-- The bytes carved bound what is out now and what was out at any time before, stay within
    the budget, and never become fewer. -/
theorem high_water (mapped : c.Mapped) (reached : Reached c Careful x)
    (whole : x.sub.clipped = false) (on : Reachable (· = x) (Step Careful) y) :
    x.outBytes c ≤ y.sub.arena.carvedBytes c.budgetBytes ∧
      y.sub.arena.carvedBytes c.budgetBytes ≤ c.budgetBytes ∧ x.sub.arena.cursor ≤ y.sub.arena.cursor := by
  have inv : ∀ {z}, Reached c Careful z → Inv .bare (c.geometry fun _ => True) z :=
    fun reached => reached.inv mapped fun _ _ _ careful _ => careful.thread
  have before := inv reached
  have after := inv (reached.onward on)
  obtain ⟨-, ⟨lost, role, ledger, -⟩, -⟩ := before
  obtain ⟨-, ⟨lost', role', ledger', -⟩, -⟩ := after
  have out := ledger.out_le whole
  have carved := ledger'.carved_eq
  have further := (onward_further on).cursor
  have listed : x.outBytes c ≤ SubHeap.outBytes (x.held c) (recordsInHand x.tasks + x.records)
      (lost ++ x.retired c) := by
    simp only [outBytes, SubHeap.outBytes, List.map_append, List.sum_append]
    omega
  refine ⟨?_, ledger'.carved_le, further⟩
  calc x.outBytes c ≤ x.sub.arena.cursor - (c.geometry fun _ => True).base := listed.trans out
    _ ≤ y.sub.arena.cursor - (c.geometry fun _ => True).base := Nat.sub_le_sub_right further _
    _ = y.sub.arena.carvedBytes c.budgetBytes := carved.symm

theorem high_water_sweeping : sweeping.outBytes World.fiveSpans = 98304 + 2 * 65536 ∧
    sweeping.outBytes World.fiveSpans ≤
      (sweeping.turn 0 []).sub.arena.carvedBytes World.fiveSpans.budgetBytes :=
  ⟨by decide +kernel, (high_water World.fiveSpans_mapped sweeping_reached (by decide +kernel)
    (.next (.start rfl) (.turn 0 [] ⟨2, .file 45 [0]⟩ (by decide +kernel)
      ⟨by decide, fun _ _ _ pc => (by cases pc), by decide +kernel⟩))).1⟩

end Machine

end SubHeap

end Toccata
