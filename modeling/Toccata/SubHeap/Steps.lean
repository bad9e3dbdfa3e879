import Toccata.SubHeap.Custody

/-! # Operations in steps

Every section under a lock is one step, and so is every lock-free action between them:
a push to a per-CPU stack, the deposit of a word of freed objects, the look at a span's
home after it, the store of a reuse hint, a carve from the cursor, the swap of a run's
record. Objects and runs in the hands of an operation belong to it until a step gives
them away, and every step keeps the ledger.
-/

namespace Toccata

open Foundations SizeClass

namespace SubHeap

/-! ## Steps -/

/-- Where an operation stands, and what it does after: `alloc_class` (`pop`, `refill`,
    `hand`), `refill_batch`, `dealloc_class` (`free`, `pushLocal`, `drain`),
    `dealloc_class_batch` (`batch`, `flush`, `home`, `hint`), `reclaim_cell` (`sweep`,
    `file`), `rebalance_capacity` (`rebalance`, `evict`), `alloc_large` (`large`,
    `carveRun`, `record`) and `dealloc_large` (`freeLarge`, `fileLarge`). -/
inductive Pc where
  | done
  | hand (cls p : Nat)
  | pop (cls : Nat)
  | refill (cls : Nat)
  | refillBatch (cls room : Nat)
  | push (cls p : Nat) (next : Pc)
  | deposit (cls p : Nat) (next : Pc)
  | free (cls p : Nat)
  | pushLocal (cls p : Nat) (next : Pc)
  | drain (cls n : Nat) (next : Pc)
  | batch (cls : Nat) (ptrs : List Nat) (pending : Pending)
  | flush (cls : Nat) (pending : Pending) (next : Pc)
  | home (cls span : Nat)
  | hint (shard cls span : Nat)
  | sweep (shard cls cap : Nat)
  | file (cls : Nat) (spans : List Nat)
  | rebalance (cpu cls count : Nat)
  | evict (cpu cls n : Nat)
  | large (size : Nat)
  | carveRun (size : Nat)
  | record (size start : Nat)
  | freeLarge (p size : Nat)
  | fileLarge (idx count : Nat)
deriving Repr, DecidableEq

/-- An operation of a thread. -/
structure Task where
  thread : Nat
  pc : Pc
deriving Repr, DecidableEq

/-- Objects with their classes, and large runs with the sizes asked for. -/
abbrev Hand := Multiset (Nat × Nat) × Multiset (Nat × Nat)

def handObjects (cls : Nat) (objs : List Nat) : Hand := (ofClass cls objs, 0)

def handRun (size : Nat) (r : Option Nat) : Hand := (0, (r.toList.map (·, size) : List (Nat × Nat)))

/-- One step: what it hands to the caller, and where the operation stands then. -/
def Pc.run (company : Company) (thread : Nat) : Pc → Prog Turn SubHeap (Hand × Pc)
  | .done => return (0, .done)
  | .hand cls p => return (handObjects cls [p], .done)
  | .pop cls => do
      match ← slabPop cls with
      | .ok p => return (0, .hand cls p)
      | .needsSlow => return (0, .refill cls)
  | .refill cls => do
      match ← takeOrCarve company cls thread with
      | [] => return (0, .done)
      | p :: rest => return (0, rest.foldr (.push cls) (.hand cls p))
  | .refillBatch cls room => do
      let objs ← SubHeap.refillBatch company cls thread room
      return (handObjects cls objs, .done)
  | .push cls p next => do
      match ← slabPush cls p with
      | .ok _ => return (0, next)
      | .needsSlow => return (0, .deposit cls p next)
  | .deposit cls p next => do
      centralDeposit p (sizeOfClass cls)
      return (0, next)
  | .free cls p => do
      let s ← Prog.read
      if s.isLocal p thread then
        return (0, .pushLocal cls p .done)
      else
        return (0, .deposit cls p .done)
  | .pushLocal cls p next => do
      match ← slabPush cls p with
      | .ok _ => return (0, next)
      | .needsSlow => return (0, .drain cls (max (batchFor cls / 2) 1) (.push cls p next))
  | .drain _ 0 next => return (0, next)
  | .drain cls (n + 1) next => do
      match ← slabPop cls with
      | .ok q => return (0, .deposit cls q (.drain cls n next))
      | .needsSlow => return (0, next)
  | .batch cls [] pending =>
      return (0, .flush cls pending (if pending.span = noSpan then .done else .home cls pending.span))
  | .batch cls (p :: rest) pending => do
      let s ← Prog.read
      if s.isLocal p thread then
        return (0, .pushLocal cls p (.batch cls rest pending))
      else
        let (span, word, bit) := s.bitmaps.locate p (sizeOfClass cls)
        if span ≠ pending.span ∨ word ≠ pending.word then
          return (0, .flush cls pending (.batch cls rest ⟨span, word, Word.bit bit⟩))
        else
          return (0, .batch cls rest { pending with mask := pending.mask ||| Word.bit bit })
  | .flush _ pending next => do
      flushPending pending
      return (0, next)
  | .home cls span => do
      let s ← Prog.read
      return (0, .hint (s.hintShard span) cls span)
  | .hint shard cls span => do
      Prog.modify fun s => s.setHint shard cls span
      return (0, .done)
  | .sweep shard cls cap => do
      -- `reclaim_cell` leaves a cell alone that another thread has locked.
      let busy ← tryLock company
      if busy then
        return (0, .done)
      else
        let gone ← reclaimLocked shard cls cap
        return (0, if gone = [] then .done else .file cls gone)
  | .file cls spans => do
      fileRuns (groupSpans (roundedSize cls)) spans
      return (0, .done)
  | .rebalance cpu cls count => do
      let s ← Prog.read
      return (0, .evict cpu cls (min count (s.slab.stack cpu cls).slots.length))
  | .evict _ _ 0 => return (0, .done)
  | .evict cpu cls (n + 1) => do
      let s ← Prog.read
      match (s.slab.stack cpu cls).slots with
      -- Not on a seized CPU, where no one else takes from the stack.
      | [] => return (0, .done)
      | obj :: rest => do
          Prog.modify fun s => { s with
            slab := s.slab.put cpu cls { s.slab.stack cpu cls with slots := rest } }
          return (0, if obj = 0 then .evict cpu cls n else .deposit cls obj (.evict cpu cls n))
  | .large size => do
      let s ← Prog.read
      if s.large.poisoned then
        Prog.fail
      else
        match s.large.pool.alloc (wrap32 (spanCount size)) with
        | none => panicLocked
        | some (some headIdx, pool) => do
            Prog.modify fun s => { s with large := { s.large with pool } }
            let r ← allocLarge.record size (s.large.spanPtr headIdx)
            return (handRun size r, .done)
        | some (none, _) => return (0, .carveRun size)
  | .carveRun size => do
      let s ← Prog.read
      match s.arena.carveRun (runBytes size) with
      | none => return (0, .done)
      | some (start, arena) => do
          Prog.modify fun s => { s with arena }
          return (0, .record size start)
  | .record size start => do
      let s ← Prog.read
      if s.large.poisoned then
        Prog.fail
      else
        let r ← allocLarge.record size start
        return (handRun size r, .done)
  | .freeLarge p _ => do
      let s ← Prog.read
      match s.large.runSpans.get? (s.large.spanIndex p) with
      | none => Prog.fail
      | some count => do
          Prog.modify fun s => { s with
            large := { s.large with runSpans := s.large.runSpans.put (s.large.spanIndex p) 0 } }
          return (0, if count = 0 then .done else .fileLarge (wrap32 (s.large.spanIndex p)) count)
  | .fileLarge idx count => do
      let s ← Prog.read
      if s.large.poisoned then
        Prog.fail
      else
        match s.large.pool.free idx count with
        | some pool => do
            Prog.modify fun s => { s with large := { s.large with pool } }
            return (0, .done)
        | none => panicLocked

/-! ## What operations hold -/

variable {trust : Trust} {g : Geometry} {s : SubHeap} {role : Nat → Role} {H L : Multiset (Nat × Nat)}
  {W W' : List (Nat × Nat)} {E : SubHeap → Prop} {cls : Nat} {company : Company}

/-- The objects gathered in a pending word. -/
def Pending.objects (g : Geometry) (cls : Nat) (p : Pending) : Multiset (Nat × Nat) :=
  g.wordSlots p.span p.word cls p.mask.positions

/-- A pending word that holds slots of one span of the class. -/
def Collected (g : Geometry) (cls : Nat) (p : Pending) : Prop :=
  Gathered g cls p (p.objects g cls) p.mask.positions

theorem Gathered.collected {p : Pending} {objs : Multiset (Nat × Nat)} {bits : List Nat}
    (gathered : Gathered g cls p objs bits) : objs = p.objects g cls ∧ Collected g cls p := by
  have members : ∀ b, b ∈ bits ↔ b ∈ p.mask.positions := by
    intro b
    rw [Word.mem_positions, gathered.masked, decide_eq_true_iff]
  have distinct : p.mask.positions.Nodup := p.mask.positions_sorted.imp fun less => less.ne
  have same : bits.Perm p.mask.positions := (List.perm_ext_iff_of_nodup gathered.distinct distinct).mpr members
  have objects : objs = p.objects g cls :=
    gathered.objects.trans (Multiset.coe_eq_coe.mpr (same.map _))
  refine ⟨objects, distinct, fun b member => gathered.low b ((members b).mpr member), fun b => ?_, rfl,
    fun b member => gathered.inside b ((members b).mpr member)⟩
  rw [gathered.masked, decide_eq_decide]
  exact members b

/-! ## Large runs in hand -/

/-- The unused spans are all that the stock knows of roles. -/
theorem Stock.same {role' : Nat → Role} (stock : s.Stock g role)
    (fresh : ∀ k, role' k = .fresh ↔ role k = .fresh)
    (pooled : ∀ k, role' k = .pooled ↔ role k = .pooled) : s.Stock g role' where
  grid := stock.grid
  cursor := by
    obtain ⟨f, here, low, unused⟩ := stock.cursor
    exact ⟨f, here, low, fun left k beyond => (fresh k).mpr (unused left k beyond)⟩
  stocked k held := stock.stocked k ((pooled k).mp held)
  pool clear := by
    simpa only [pooled] using stock.pool clear
  whole unclipped k used := stock.whole unclipped k fun unused => used ((fresh k).mpr unused)
  carved k below unused := stock.carved k below ((fresh k).mp unused)

/-- A run reserved and not recorded yet is in hand. -/
theorem Ledger.setAside {s₁ : SubHeap} {h n : Nat} (ledger : s.Ledger trust g role H L W)
    (reserved : Reserved g s s₁ role h n) :
    s₁.Ledger trust g (assign role h n (.loose h)) H L ((h, n) :: W) := by
  have unused := reserved.unused
  have plain : ∀ k, h ≤ k → k < h + n → (role k).plain := by
    intro k lo hi
    rcases unused k lo hi with fresh | pooled
    · rw [fresh]
      trivial
    · rw [pooled]
      trivial
  have same : Restock s s₁ := by
    refine ⟨reserved.slab, reserved.head, reserved.bitmaps, reserved.numShards,
      reserved.base, reserved.limit, ?_, ?_, reserved.large, reserved.runSpans⟩
    · rw [reserved.spans]
    · rw [reserved.spans]
  refine ledger.restock same (assign_agree plain trivial) (fun k _ => by rw [reserved.spans]) ?_ ?_
    (ledger.loose.taken reserved.pos fun k lo hi h' loose => ?_) fun on unclipped => ?_
  · intro k low
    rw [same.numSpans] at low
    have entry : s₁.spans.entry k = s.spans.entry k := by rw [reserved.spans]
    by_cases inside : h ≤ k ∧ k < h + n
    · rcases ledger.cells.labels k low with zero | big | ⟨h', c, sh, active, -⟩ | claimed
      · exact .inl (entry.trans zero)
      · exact .inr (.inl (entry.trans big))
      · rcases unused k inside.1 inside.2 with other | other <;> simp [active] at other
      · rcases unused k inside.1 inside.2 with other | other <;> simp [claimed] at other
    · exact (ledger.cells.labels k low).same entry reserved.numShards (assign_outside inside)
  · apply reserved.stock.same
    · intro k
      rw [assign_other (by simp), assign_other (by simp)]
    · intro k
      rw [assign_other (by simp), assign_other (by simp)]
  · rcases unused k lo hi with other | other <;> simp [loose] at other
  · rw [reserved.poisoned]
    exact ledger.healthy on (by rwa [← reserved.clipped])

/-- A run in hand is as good as one just taken from the pool. -/
theorem Ledger.readied {h n : Nat} (ledger : s.Ledger trust g role H L ((h, n) :: W))
    (settled : ∀ k, role k ≠ .claimed) (clear : s.large.poisoned = false)
    (fits : h + n ≤ s.spans.numSpans) :
    ∃ s₀ role₀, s₀.Ledger trust g role₀ H L W ∧ (∀ k, role₀ k ≠ .claimed) ∧
      Reserved g s₀ s role₀ h n := by
  obtain ⟨pool, -, filed⟩ := ledger.file clear fits
  have held := ledger.loose.inside (h, n) List.mem_cons_self
  refine ⟨_, _, filed, assign_settled settled (by simp), rfl, rfl, rfl, rfl, rfl, rfl, rfl, rfl, rfl, rfl,
    rfl, ledger.loose.some (h, n) List.mem_cons_self, fits,
    fun k lo hi => .inr (assign_inside lo hi), ?_⟩
  rw [assign_assign]
  apply ledger.stock.same
  · intro k
    refine assign_kept (by simp) fun j lo hi fresh => ?_
    simp [held j lo hi] at fresh
  · intro k
    refine assign_kept (by simp) fun j lo hi pooled => ?_
    simp [held j lo hi] at pooled

/-- The spans of the arena, the last of them perhaps in part. -/
def Geometry.numSpans (g : Geometry) : Nat := (g.len + (spanBytes - 1)) / spanBytes

theorem Grid.numSpans_geometry (grid : s.Grid g) : s.spans.numSpans = g.numSpans := by
  rw [SpanTable.numSpans, grid.len, Geometry.numSpans]

/-! ## Steps and the ledger -/

namespace Pc

/-- The objects an operation has in hand. -/
def objects (g : Geometry) : Pc → Multiset (Nat × Nat)
  | .hand cls p | .free cls p => {(p, cls)}
  | .push cls p next | .deposit cls p next | .pushLocal cls p next => (p, cls) ::ₘ next.objects g
  | .drain _ _ next => next.objects g
  | .batch cls ptrs pending => ofClass cls ptrs + pending.objects g cls
  | .flush cls pending next => pending.objects g cls + next.objects g
  | _ => 0

/-- The large runs it has in hand that are still recorded. -/
def records : Pc → Multiset (Nat × Nat)
  | .push _ _ next | .deposit _ _ next | .pushLocal _ _ next | .drain _ _ next | .flush _ _ next =>
      next.records
  | .freeLarge p size => {(p, wrap32 (spanCount size))}
  | _ => 0

/-- The runs of spans it has in hand. -/
def runs (g : Geometry) : Pc → List (Nat × Nat)
  | .push _ _ next | .deposit _ _ next | .pushLocal _ _ next | .drain _ _ next | .flush _ _ next =>
      next.runs g
  | .file cls spans => spans.map (·, groupSpans (sizeOfClass cls))
  | .record size start => [((start - g.base) / spanBytes, wrap32 (spanCount size))]
  | .fileLarge idx count => [(idx, count)]
  | _ => []

/-- What an operation relies on of its own data. -/
def Fine (g : Geometry) : Pc → Prop
  | .pop cls | .refill cls | .refillBatch cls _ => IsClass cls
  | .push _ _ next | .deposit _ _ next | .pushLocal _ _ next | .drain _ _ next => next.Fine g
  | .batch cls _ pending => Collected g cls pending
  | .flush cls pending next => Collected g cls pending ∧ next.Fine g
  | .sweep shard _ _ => shard < g.shards
  | .file cls spans => IsClass cls ∧ ∀ h ∈ spans, h < g.numSpans
  | .rebalance cpu _ _ | .evict cpu _ _ => cpu < g.cpus
  | .large size | .carveRun size => size < 2 ^ 47
  | .record size start => size < 2 ^ 47 ∧ ∃ h, start = g.base + h * spanBytes ∧
      h + wrap32 (spanCount size) ≤ g.numSpans
  | .fileLarge idx count => idx + count ≤ g.numSpans
  | _ => True

end Pc

/-- What the large allocator records of runs held. -/
def recordsOf (runs : Multiset (Nat × Nat)) : Multiset (Nat × Nat) :=
  runs.map fun x => (x.1, wrap32 (spanCount x.2))

/-- What is owned with runs in hand, in any order. -/
theorem Owned.perm (same : W.Perm W') (owned : Owned trust g H L W s) : Owned trust g H L W' s := by
  obtain ⟨role, ledger, settled⟩ := owned
  exact ⟨role, { ledger with loose := ledger.loose.perm same }, settled⟩

/-- The state after a step, and what it left in hand. -/
structure Stepped (trust : Trust) (g : Geometry) (H L : Multiset (Nat × Nat)) (W : List (Nat × Nat))
    (r : Hand × Pc) (s : SubHeap) : Prop where
  owned : Owned trust g (r.2.objects g + (r.1.1 + H)) (r.2.records + (recordsOf r.1.2 + L))
    (r.2.runs g ++ W) s
  fine : r.2.Fine g
  small : ∀ y ∈ r.1.2, y.2 < 2 ^ 47

namespace Stepped

variable {pc : Pc} {hand : Hand}

/-- Nothing is handed out in a step to `pc`. -/
theorem quiet (fine : pc.Fine g)
    (owned : Owned trust g (pc.objects g + H) (pc.records + L) (pc.runs g ++ W) s) :
    Stepped trust g H L W (0, pc) s := by
  refine ⟨?_, fine, fun y member => (Multiset.notMem_zero y member).elim⟩
  show Owned trust g (pc.objects g + (0 + H)) (pc.records + (0 + L)) (pc.runs g ++ W) s
  rwa [Multiset.zero_add, Multiset.zero_add]

/-- A step to `pc`, which has nothing in hand. -/
theorem light (objects : pc.objects g = 0) (records : pc.records = 0) (runs : pc.runs g = [])
    (fine : pc.Fine g) (small : ∀ y ∈ hand.2, y.2 < 2 ^ 47)
    (owned : Owned trust g (hand.1 + H) (recordsOf hand.2 + L) W s) :
    Stepped trust g H L W (hand, pc) s := by
  refine ⟨?_, fine, small⟩
  simp only [objects, records, runs, Multiset.zero_add]
  exact owned

/-- A step to `pc`, from nothing in hand to nothing in hand. -/
theorem bare (objects : pc.objects g = 0) (records : pc.records = 0) (runs : pc.runs g = [])
    (fine : pc.Fine g) (owned : Owned trust g H L W s) : Stepped trust g H L W (0, pc) s := by
  refine light objects records runs fine (fun y member => (Multiset.notMem_zero y member).elim) ?_
  show Owned trust g (0 + H) (0 + L) W s
  rwa [Multiset.zero_add, Multiset.zero_add]

theorem idle (owned : Owned trust g H L W s) : Stepped trust g H L W (0, .done) s :=
  bare rfl rfl rfl trivial owned

theorem handed {objs : List Nat} (owned : Owned trust g (ofClass cls objs + H) L W s) :
    Stepped trust g H L W (handObjects cls objs, .done) s := by
  refine light rfl rfl rfl trivial (fun y member => (Multiset.notMem_zero y member).elim) ?_
  show Owned trust g (ofClass cls objs + H) (0 + L) W s
  rwa [Multiset.zero_add]

end Stepped

/-- Objects to push, and one to hand out at the end. -/
theorem foldr_push (cls : Nat) (objs : List Nat) (next : Pc) :
    (objs.foldr (.push cls) next).objects g = ofClass cls objs + next.objects g ∧
      (objs.foldr (.push cls) next).records = next.records ∧
      (objs.foldr (.push cls) next).runs g = next.runs g ∧
      ((objs.foldr (.push cls) next).Fine g ↔ next.Fine g) := by
  induction objs with
  | nil => exact ⟨(Multiset.zero_add _).symm, rfl, rfl, Iff.rfl⟩
  | cons p rest ih =>
      obtain ⟨objects, records, runs, fine⟩ := ih
      refine ⟨?_, records, runs, fine⟩
      rw [List.foldr_cons, Pc.objects, objects, ofClass_cons, Multiset.cons_add]

section Steps

variable {thread : Nat} {next : Pc} {p : Nat}

theorem Pc.pop_spec (isClass : IsClass cls) :
    Triple (Owned trust g H L W) (Pc.run company thread (.pop cls)) (Stepped trust g H L W) E := by
  refine Triple.bind slabPop_spec fun r => ?_
  cases r with
  | ok p =>
      apply Triple.ret
      intro s owned
      have fine : (Pc.hand cls p).Fine g := trivial
      refine Stepped.quiet fine ?_
      show Owned trust g ({(p, cls)} + H) (0 + L) W s
      rwa [Multiset.zero_add]
  | needsSlow =>
      apply Triple.ret
      intro s owned
      rw [popped, Multiset.zero_add] at owned
      exact Stepped.bare rfl rfl rfl isClass owned

theorem Pc.refill_spec (isClass : IsClass cls) (allowed : Allowed trust g thread) :
    Triple (Owned trust g H L W) (Pc.run company thread (.refill cls)) (Stepped trust g H L W) E := by
  refine Triple.bind (takeOrCarve_spec company isClass allowed) fun objs => ?_
  cases objs with
  | nil =>
      apply Triple.ret
      intro s owned
      rw [ofClass_nil, Multiset.zero_add] at owned
      exact Stepped.idle owned
  | cons p rest =>
      apply Triple.ret
      intro s owned
      obtain ⟨objects, records, runs, fine⟩ := foldr_push (g := g) cls rest (.hand cls p)
      apply Stepped.quiet (fine.mpr trivial)
      rw [objects, records, runs]
      show Owned trust g (ofClass cls rest + {(p, cls)} + H) (0 + L) W s
      rwa [ofClass_cons, ← Multiset.singleton_add, add_comm {(p, cls)}, ← Multiset.zero_add L] at owned

theorem Pc.push_spec (fine : next.Fine g) :
    Triple (Owned trust g ((p, cls) ::ₘ next.objects g + H) (next.records + L) (next.runs g ++ W))
      (Pc.run company thread (.push cls p next)) (Stepped trust g H L W) E := by
  rw [Multiset.cons_add]
  refine Triple.bind slabPush_spec fun r => ?_
  cases r with
  | ok =>
      apply Triple.ret
      intro s owned
      rw [unpushed, Multiset.zero_add] at owned
      exact Stepped.quiet fine owned
  | needsSlow =>
      apply Triple.ret
      intro s owned
      rw [unpushed, Multiset.singleton_add, ← Multiset.cons_add] at owned
      exact Stepped.quiet fine owned

theorem Pc.deposit_spec (fine : next.Fine g) :
    Triple (Owned trust g ((p, cls) ::ₘ next.objects g + H) (next.records + L) (next.runs g ++ W))
      (Pc.run company thread (.deposit cls p next)) (Stepped trust g H L W) E := by
  rw [Multiset.cons_add]
  exact Triple.bind centralDeposit_spec fun _ => Triple.ret _ fun s owned => Stepped.quiet fine owned

theorem Pc.free_spec :
    Triple (Owned trust g ({(p, cls)} + H) (0 + L) W) (Pc.run company thread (.free cls p))
      (Stepped trust g H L W) E := by
  refine Triple.inspect fun s owned => ?_
  split
  · apply Triple.ret
    rintro s' rfl
    have fine : (Pc.pushLocal cls p .done).Fine g := trivial
    exact Stepped.quiet fine owned
  · apply Triple.ret
    rintro s' rfl
    have fine : (Pc.deposit cls p .done).Fine g := trivial
    exact Stepped.quiet fine owned

theorem Pc.pushLocal_spec (fine : next.Fine g) :
    Triple (Owned trust g ((p, cls) ::ₘ next.objects g + H) (next.records + L) (next.runs g ++ W))
      (Pc.run company thread (.pushLocal cls p next)) (Stepped trust g H L W) E := by
  rw [Multiset.cons_add]
  refine Triple.bind slabPush_spec fun r => ?_
  cases r with
  | ok =>
      apply Triple.ret
      intro s owned
      rw [unpushed, Multiset.zero_add] at owned
      exact Stepped.quiet fine owned
  | needsSlow =>
      apply Triple.ret
      intro s owned
      rw [unpushed, Multiset.singleton_add, ← Multiset.cons_add] at owned
      exact Stepped.quiet fine owned

theorem Pc.drain_spec (n : Nat) (fine : next.Fine g) :
    Triple (Owned trust g (next.objects g + H) (next.records + L) (next.runs g ++ W))
      (Pc.run company thread (.drain cls n next)) (Stepped trust g H L W) E := by
  cases n with
  | zero => exact Triple.ret _ fun s owned => Stepped.quiet fine owned
  | succ n =>
      refine Triple.bind slabPop_spec fun r => ?_
      cases r with
      | ok q =>
          apply Triple.ret
          intro s owned
          rw [popped, Multiset.singleton_add, ← Multiset.cons_add] at owned
          exact Stepped.quiet fine owned
      | needsSlow =>
          apply Triple.ret
          intro s owned
          rw [popped, Multiset.zero_add] at owned
          exact Stepped.quiet fine owned

theorem Pc.batch_spec (ptrs : List Nat) {pending : Pending} (collected : Collected g cls pending) :
    Triple (Owned trust g (ofClass cls ptrs + pending.objects g cls + H) (0 + L) W)
      (Pc.run company thread (.batch cls ptrs pending)) (Stepped trust g H L W) E := by
  cases ptrs with
  | nil =>
      apply Triple.ret
      intro s owned
      apply Stepped.quiet
      · split <;> exact ⟨collected, trivial⟩
      · rw [ofClass_nil, Multiset.zero_add, ← Multiset.add_zero (pending.objects g cls)] at owned
        split <;> exact owned
  | cons p rest =>
      rw [ofClass_cons]
      refine Triple.inspect fun s owned => ?_
      split
      · apply Triple.ret
        rintro s' rfl
        rw [Multiset.cons_add] at owned
        have fine : (Pc.pushLocal cls p (.batch cls rest pending)).Fine g := collected
        exact Stepped.quiet fine owned
      · obtain ⟨role, ledger, settled⟩ := owned
        rw [Multiset.cons_add, Multiset.cons_add, add_comm (ofClass cls rest), add_assoc] at ledger
        obtain ⟨span, word, bit, located, single, more⟩ := ledger.gathers collected
        simp only [located]
        refine Triple.ite (fun different => ?_) (fun alike => ?_)
        · apply Triple.ret
          rintro s' rfl
          obtain ⟨objects, fine⟩ := single.collected
          refine Stepped.quiet ⟨collected, fine⟩ ⟨role, ?_, settled⟩
          rw [Pc.objects, Pc.objects, ← objects, add_comm (ofClass cls rest), Multiset.singleton_add,
            Multiset.add_cons, Multiset.cons_add, add_assoc]
          exact ledger
        · simp only [not_or, not_not] at alike
          apply Triple.ret
          rintro s' rfl
          obtain ⟨objects, fine⟩ := (more alike.1 alike.2).collected
          refine Stepped.quiet fine ⟨role, ?_, settled⟩
          rw [Pc.objects, ← objects, Multiset.add_cons, Multiset.cons_add, add_comm (ofClass cls rest),
            add_assoc]
          exact ledger

theorem Pc.flush_spec {pending : Pending} (collected : Collected g cls pending) (fine : next.Fine g) :
    Triple (Owned trust g (pending.objects g cls + next.objects g + H) (next.records + L)
      (next.runs g ++ W)) (Pc.run company thread (.flush cls pending next)) (Stepped trust g H L W) E := by
  rw [add_assoc]
  refine Triple.bind collected.flush fun _ => Triple.ret _ ?_
  exact fun s owned => Stepped.quiet fine owned

theorem Pc.home_spec (cls span : Nat) :
    Triple (Owned trust g H L W) (Pc.run company thread (.home cls span)) (Stepped trust g H L W) E := by
  refine Triple.inspect fun s owned => Triple.ret _ ?_
  rintro s' rfl
  exact Stepped.bare rfl rfl rfl trivial owned

theorem Pc.hint_spec (shard span : Nat) :
    Triple (Owned trust g H L W) (Pc.run company thread (.hint shard cls span)) (Stepped trust g H L W) E := by
  refine Triple.bind (Triple.modify (Q := fun _ => Owned trust g H L W) ?_) fun _ =>
    Triple.ret _ fun s owned => Stepped.idle owned
  rintro s ⟨role, ledger, settled⟩
  exact ⟨role, ledger.hinted .., settled⟩

theorem Pc.sweep_spec {shard cap : Nat} (inside : shard < g.shards) :
    Triple (Owned trust g H L W) (Pc.run company thread (.sweep shard cls cap)) (Stepped trust g H L W) E := by
  refine Triple.bind tryLock_spec fun busy => Triple.lift fun _ => ?_
  refine Triple.ite (fun _ => Triple.ret _ fun s owned => Stepped.idle owned) (fun _ => ?_)
  refine Triple.bind (reclaimLocked_owned inside) fun gone => Triple.ret _ ?_
  rintro s ⟨owned, spans⟩
  split
  · rename_i none
    rw [none] at owned
    exact Stepped.idle owned
  · rename_i some
    obtain ⟨first, member⟩ := List.exists_mem_of_ne_nil gone some
    refine Stepped.quiet ⟨(spans first member).1, fun h listed => ?_⟩ ?_
    · obtain ⟨_, ledger, -⟩ := owned
      rw [← ledger.stock.grid.numSpans_geometry]
      exact (spans h listed).2
    · show Owned trust g (0 + H) (0 + L) _ s
      rwa [Multiset.zero_add, Multiset.zero_add]

theorem Pc.evict_spec {cpu : Nat} (n : Nat) (inside : cpu < g.cpus) :
    Triple (Owned trust g H L W) (Pc.run company thread (.evict cpu cls n)) (Stepped trust g H L W) E := by
  cases n with
  | zero => exact Triple.ret _ fun s owned => Stepped.idle owned
  | succ n =>
      refine Triple.inspect fun s owned => ?_
      split
      · apply Triple.ret
        rintro s' rfl
        exact Stepped.idle owned
      · rename_i obj rest top
        obtain ⟨role, ledger, settled⟩ := owned
        have within : cpu < s.slab.numCpus := by rwa [ledger.stock.grid.numCpus]
        have popped := ledger.pop within top
        have slot := popped.slots.outside cls obj (.inr (Multiset.mem_cons_self ..))
        rw [if_neg (popped.ne_zero slot)]
        refine Triple.bind (Q := fun _ s' => s' = { s with
          slab := s.slab.put cpu cls { s.slab.stack cpu cls with slots := rest } }) (Triple.modify ?_)
          fun _ => Triple.ret _ ?_
        · rintro _ rfl
          rfl
        · rintro _ rfl
          have fine : (Pc.deposit cls obj (.evict cpu cls n)).Fine g := inside
          refine Stepped.quiet fine ⟨role, ?_, settled⟩
          show SubHeap.Ledger trust g _ _ ((obj, cls) ::ₘ 0 + H) (0 + L) W
          rwa [Multiset.cons_add, Multiset.zero_add, Multiset.zero_add]

/-- What a panic in a step leaves: at most the runs in hand are lost, and a carve was
    clipped before, where the table is relied on. -/
def Panicked (trust : Trust) (g : Geometry) (H L : Multiset (Nat × Nat)) (W : List (Nat × Nat))
    (s s' : SubHeap) : Prop :=
  Dropped trust g H L W s' ∧ (trust.tagged → s.clipped = true)

theorem Ledger.clipped_of_poisoned (ledger : s.Ledger trust g role H L W) (on : trust.tagged)
    (poisoned : s.large.poisoned = true) : s.clipped = true := by
  by_contra unclipped
  rw [ledger.healthy on (Bool.eq_false_iff.mpr unclipped)] at poisoned
  cases poisoned

theorem Pc.file_spec {spans : List Nat} (isClass : IsClass cls) (inside : ∀ h ∈ spans, h < g.numSpans)
    (ledger : s.Ledger trust g role H L (spans.map (·, groupSpans (sizeOfClass cls)) ++ W))
    (settled : ∀ k, role k ≠ .claimed) :
    Triple (· = s) (Pc.run company thread (.file cls spans)) (Stepped trust g H L W)
      (Panicked trust g H L W s) := by
  rw [Pc.run, isClass.rounded]
  refine Triple.bind ((fileRuns_spec isClass spans ledger settled fun h member => ?_).relax ?_)
    fun _ => Triple.ret _ ?_
  · rw [ledger.stock.grid.numSpans_geometry]
    exact inside h member
  · rintro s' ⟨dropped, poisoned | ⟨h, member, beyond⟩⟩
    · exact ⟨dropped, fun on => ledger.clipped_of_poisoned on poisoned⟩
    · refine ⟨dropped, fun _ => ?_⟩
      have first := ((List.perm_cons_erase member).map
        (·, groupSpans (sizeOfClass cls))).append_right W
      exact Ledger.clipped_of_beyond { ledger with loose := ledger.loose.perm first } beyond
  · rintro s' ⟨role', kept, swept, -⟩
    exact Stepped.idle ⟨role', kept, swept.settled settled⟩

end Steps

section Large

variable {thread size : Nat}

theorem large_bounds (small : size < 2 ^ 47) :
    size + (spanBytes - 1) < 2 ^ 64 ∧ spanCount size < 2 ^ 32 := by
  unfold spanCount spanBytes
  omega

/-- A reserved run recorded and handed out. -/
theorem recordRun_spec {s₁ : SubHeap} {h : Nat} (small : size < 2 ^ 47)
    (ledger : s.Ledger trust g role H L W) (settled : ∀ k, role k ≠ .claimed)
    (reserved : Reserved g s s₁ role h (wrap32 (spanCount size))) :
    Triple (· = s₁) (do
      let r ← allocLarge.record size (g.base + h * spanBytes)
      return (handRun size r, .done)) (Stepped trust g H L W) E := by
  obtain ⟨bound, narrow⟩ := large_bounds small
  have exact : spanCount size = wrap32 (spanCount size) := (wrap32_small narrow).symm
  refine Triple.bind ((record_spec ledger settled reserved bound rfl fun _ => exact).relax
    fun _ ⟨_, different⟩ => (different exact).elim) fun r => Triple.ret _ ?_
  rintro _ ⟨rfl, rfl⟩
  refine Stepped.light rfl rfl rfl trivial (fun y member => ?_)
    ⟨assign role h (wrap32 (spanCount size)) (.large h), ?_, assign_settled settled (by simp)⟩
  · rw [List.mem_singleton.mp member]
    exact small
  · show SubHeap.Ledger trust g _ _ (0 + H) ({(_, wrap32 (spanCount size))} + L) W
    rw [Multiset.zero_add, Multiset.singleton_add]
    exact ledger.granted reserved bound fun _ => exact

theorem Pc.large_spec (small : size < 2 ^ 47) (ledger : s.Ledger trust g role H L W)
    (settled : ∀ k, role k ≠ .claimed) :
    Triple (· = s) (Pc.run company thread (.large size)) (Stepped trust g H L W) (Panicked trust g H L W s) := by
  refine Triple.inspect fun s' same => ?_
  subst same
  refine Triple.ite (fun poisoned => Triple.fail ?_) fun clear => ?_
  · rintro _ rfl
    exact ⟨⟨[], role, ledger, settled⟩, fun on => ledger.clipped_of_poisoned on poisoned⟩
  · rw [Bool.not_eq_true] at clear
    rcases SpanPool.alloc_represents (ledger.stock.pool clear) (wrap32 (spanCount size)) with
      ⟨result, -⟩ | ⟨h, m, p, result, pos, enough, run, -, represents⟩
    · rw [result]
      apply Triple.ret
      rintro _ rfl
      exact Stepped.bare rfl rfl rfl small ⟨role, ledger, settled⟩
    · rw [result]
      have reserved := ledger.reservePool pos enough run represents
      have start : s'.large.spanPtr h = g.base + h * spanBytes := by
        rw [LargeAllocator.spanPtr, ledger.stock.grid.large]
      refine Triple.bind (Q := fun _ s => s = { s' with large := { s'.large with pool := p } })
        (Triple.modify ?_) fun _ => ?_
      · rintro _ rfl
        rfl
      · rw [start]
        exact recordRun_spec small ledger settled reserved

theorem Pc.carveRun_spec (small : size < 2 ^ 47) :
    Triple (Owned trust g H L W) (Pc.run company thread (.carveRun size)) (Stepped trust g H L W) E := by
  obtain ⟨bound, narrow⟩ := large_bounds small
  refine Triple.inspect fun s ⟨role, ledger, settled⟩ => ?_
  rw [runBytes_eq bound]
  cases carved : s.arena.carveRun (spanCount size * spanBytes) with
  | none =>
      apply Triple.ret
      rintro _ rfl
      exact Stepped.idle ⟨role, ledger, settled⟩
  | some claim =>
      obtain ⟨start, arena⟩ := claim
      obtain ⟨f, rfl, -, reserved⟩ := ledger.reserveCursor (spanCount_pos size) carved
      rw [← wrap32_small narrow] at reserved
      refine Triple.bind (Q := fun _ s' => s' = { s with arena }) (Triple.modify ?_) fun _ =>
        Triple.ret _ ?_
      · rintro _ rfl
        rfl
      · rintro _ rfl
        have index : (g.base + f * spanBytes - g.base) / spanBytes = f := by
          rw [Nat.add_sub_cancel_left, Nat.mul_div_cancel _ (by decide)]
        refine Stepped.quiet ⟨small, f, rfl, ?_⟩
          ⟨assign role f (wrap32 (spanCount size)) (.loose f), ?_, assign_settled settled (by simp)⟩
        · rw [← ledger.stock.grid.numSpans_geometry]
          exact reserved.fits
        · show SubHeap.Ledger trust g _ _ (0 + H) (0 + L) ((_, _) :: W)
          rw [Multiset.zero_add, Multiset.zero_add, index]
          exact ledger.setAside reserved

theorem Pc.record_spec {h : Nat} (small : size < 2 ^ 47)
    (fits : h + wrap32 (spanCount size) ≤ g.numSpans)
    (ledger : s.Ledger trust g role H L ((h, wrap32 (spanCount size)) :: W))
    (settled : ∀ k, role k ≠ .claimed) :
    Triple (· = s) (Pc.run company thread (.record size (g.base + h * spanBytes))) (Stepped trust g H L W)
      (Panicked trust g H L W s) := by
  refine Triple.inspect fun s' same => ?_
  subst same
  refine Triple.ite (fun poisoned => Triple.fail ?_) fun clear => ?_
  · rintro _ rfl
    exact ⟨⟨[_], role, ledger, settled⟩, fun on => ledger.clipped_of_poisoned on poisoned⟩
  · rw [Bool.not_eq_true] at clear
    rw [← ledger.stock.grid.numSpans_geometry] at fits
    obtain ⟨s₀, role₀, ledger₀, settled₀, reserved⟩ := ledger.readied settled clear fits
    exact recordRun_spec small ledger₀ settled₀ reserved

theorem Pc.freeLarge_spec {p : Nat} :
    Triple (Owned trust g H ({(p, wrap32 (spanCount size))} + L) W) (Pc.run company thread (.freeLarge p size))
      (Stepped trust g H L W) E := by
  refine Triple.inspect fun s ⟨role, ledger, settled⟩ => ?_
  rw [Multiset.singleton_add] at ledger
  obtain ⟨h, place, -⟩ := ledger.larges.recorded _ (Multiset.mem_cons_self ..)
  simp only at place
  subst place
  obtain ⟨cell, pos, fits, -⟩ := ledger.run
  have small := ledger.stock.grid.small
  have inside : h < s.large.runSpans.len := by
    rw [ledger.stock.grid.runs]
    omega
  have index := ledger.stock.grid.spanIndex h
  rw [index, Slice.get?_inside inside, cell]
  refine Triple.bind (Q := fun _ s' => s' = { s with
    large := { s.large with runSpans := s.large.runSpans.put h 0 } }) (Triple.modify ?_) fun _ =>
      Triple.ret _ ?_
  · rintro _ rfl
    rw [index]
  · rintro _ rfl
    rw [if_neg (by omega), wrap32_small (by omega)]
    refine Stepped.quiet ?_
      ⟨assign role h (wrap32 (spanCount size)) (.loose h), ?_, assign_settled settled (by simp)⟩
    · show h + wrap32 (spanCount size) ≤ g.numSpans
      rwa [← ledger.stock.grid.numSpans_geometry]
    · show SubHeap.Ledger trust g _ _ (0 + H) (0 + L) ((_, _) :: W)
      rw [Multiset.zero_add, Multiset.zero_add]
      exact ledger.release

theorem Pc.fileLarge_spec {idx count : Nat} (fits : idx + count ≤ g.numSpans)
    (ledger : s.Ledger trust g role H L ((idx, count) :: W)) (settled : ∀ k, role k ≠ .claimed) :
    Triple (· = s) (Pc.run company thread (.fileLarge idx count)) (Stepped trust g H L W)
      (Panicked trust g H L W s) := by
  refine Triple.inspect fun s' same => ?_
  subst same
  refine Triple.ite (fun poisoned => Triple.fail ?_) fun clear => ?_
  · rintro _ rfl
    exact ⟨⟨[_], role, ledger, settled⟩, fun on => ledger.clipped_of_poisoned on poisoned⟩
  · rw [Bool.not_eq_true] at clear
    rw [← ledger.stock.grid.numSpans_geometry] at fits
    obtain ⟨pool, filed, kept⟩ := ledger.file clear fits
    rw [filed]
    refine Triple.bind (Q := fun _ s => s = { s' with large := { s'.large with pool } })
      (Triple.modify ?_) fun _ => Triple.ret _ ?_
    · rintro _ rfl
      rfl
    · rintro _ rfl
      exact Stepped.idle ⟨_, kept, assign_settled settled (by simp)⟩

end Large

/-- Every step keeps the ledger, with what it takes and gives. -/
theorem Pc.run_spec {thread : Nat} {pc : Pc} (fine : pc.Fine g) (uses : ∀ k, g.uses k)
    (narrow : trust.homed → thread < 65536)
    (owned : Owned trust g (pc.objects g + H) (pc.records + L) (pc.runs g ++ W) s) :
    Triple (· = s) (pc.run company thread) (Stepped trust g H L W) (Panicked trust g H L W s) := by
  have allowed : ∀ shard, shard ≤ thread → Allowed trust g shard := fun shard le =>
    ⟨uses _, fun on => by rw [wrap16_small (le.trans_lt (narrow on))]⟩
  have bare : Owned trust g (0 + H) (0 + L) W s → Owned trust g H L W s := by
    rw [Multiset.zero_add, Multiset.zero_add]
    exact id
  cases pc with
  | done =>
      apply Triple.ret
      rintro _ rfl
      exact Stepped.idle (bare owned)
  | hand cls p =>
      apply Triple.ret
      rintro s rfl
      have owned : Owned trust g ({(p, cls)} + H) (0 + L) W s := owned
      rw [Multiset.zero_add] at owned
      exact Stepped.handed owned
  | pop cls => exact (Pc.pop_spec fine).start (bare owned)
  | refill cls => exact (Pc.refill_spec fine (allowed thread le_rfl)).start (bare owned)
  | refillBatch cls room =>
      exact (Triple.bind (refillBatch_spec company room fine (allowed _ (Nat.mod_le ..))) fun objs =>
        Triple.ret _ fun s owned => Stepped.handed owned).start (bare owned)
  | push cls p next =>
      have fine : next.Fine g := fine
      exact (Pc.push_spec fine).start owned
  | deposit cls p next =>
      have fine : next.Fine g := fine
      exact (Pc.deposit_spec fine).start owned
  | free cls p => exact Pc.free_spec.start owned
  | pushLocal cls p next =>
      have fine : next.Fine g := fine
      exact (Pc.pushLocal_spec fine).start owned
  | drain cls n next =>
      have fine : next.Fine g := fine
      exact (Pc.drain_spec n fine).start owned
  | batch cls ptrs pending =>
      have fine : Collected g cls pending := fine
      exact (Pc.batch_spec ptrs fine).start owned
  | flush cls pending next =>
      obtain ⟨collected, fine⟩ : Collected g cls pending ∧ next.Fine g := fine
      exact (Pc.flush_spec collected fine).start owned
  | home cls span => exact (Pc.home_spec cls span).start (bare owned)
  | hint shard cls span => exact (Pc.hint_spec shard span).start (bare owned)
  | sweep shard cls cap => exact (Pc.sweep_spec fine).start (bare owned)
  | file cls spans =>
      obtain ⟨role, ledger, settled⟩ := owned
      have ledger : s.Ledger trust g role (0 + H) (0 + L)
        (spans.map (·, groupSpans (sizeOfClass cls)) ++ W) := ledger
      rw [Multiset.zero_add, Multiset.zero_add] at ledger
      exact Pc.file_spec fine.1 fine.2 ledger settled
  | rebalance cpu cls count =>
      refine Triple.inspect fun s' same => Triple.ret _ ?_
      rintro t rfl
      have fine : (Pc.evict cpu cls (min count (t.slab.stack cpu cls).slots.length)).Fine g := fine
      exact Stepped.bare rfl rfl rfl fine (same ▸ bare owned)
  | evict cpu cls n => exact (Pc.evict_spec n fine).start (bare owned)
  | large size =>
      obtain ⟨role, ledger, settled⟩ := bare owned
      exact Pc.large_spec fine ledger settled
  | carveRun size => exact (Pc.carveRun_spec fine).start (bare owned)
  | record size start =>
      obtain ⟨small, h, rfl, fits⟩ := fine
      obtain ⟨role, ledger, settled⟩ := owned
      have ledger : s.Ledger trust g role (0 + H) (0 + L)
        (((g.base + h * spanBytes - g.base) / spanBytes, wrap32 (spanCount size)) :: W) := ledger
      rw [Multiset.zero_add, Multiset.zero_add, Nat.add_sub_cancel_left,
        Nat.mul_div_cancel _ (by decide)] at ledger
      exact Pc.record_spec small fits ledger settled
  | freeLarge p size =>
      have owned : Owned trust g (0 + H) ({(p, wrap32 (spanCount size))} + L) W s := owned
      rw [Multiset.zero_add] at owned
      exact Pc.freeLarge_spec.start owned
  | fileLarge idx count =>
      obtain ⟨role, ledger, settled⟩ := owned
      have ledger : s.Ledger trust g role (0 + H) (0 + L) ((idx, count) :: W) := ledger
      rw [Multiset.zero_add, Multiset.zero_add] at ledger
      exact Pc.fileLarge_spec fine ledger settled

end SubHeap

end Toccata
