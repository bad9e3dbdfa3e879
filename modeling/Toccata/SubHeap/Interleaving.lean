import Toccata.SubHeap.Hints

/-! # Interleaved operations

Operations of any number of threads take their steps in any order. A section under a lock
is one step, and that is right as long as no two locks guard one span. The reuse hint is
the one thing that can go wrong: stored late, it sends a refill to a span of another cell.
As long as no hint does, nothing is out twice, whatever the order.
-/

namespace Toccata

open Foundations SizeClass

namespace SubHeap

variable {trust : Trust} {g : Geometry} {s : SubHeap} {role : Nat → Role} {H L : Multiset (Nat × Nat)}
  {W : List (Nat × Nat)}

/-- A sub-heap, what callers hold, and the operations under way. -/
structure Machine extends World where
  tasks : List Task

namespace Machine

/-- What a caller hands over when its operation begins. -/
def given : Pc → Hand
  | .free cls p => ({(p, cls)}, 0)
  | .batch cls ptrs _ => (ofClass cls ptrs, 0)
  | .freeLarge p size => (0, {(p, size)})
  | _ => 0

/-- Operations begin with a class, a cell or a size that exists, and with what the caller
    holds. -/
def Enters (x : Machine) : Pc → Prop
  | .pop cls | .refillBatch cls _ => IsClass cls
  | .free cls p => (p, cls) ∈ x.objects
  | .batch cls ptrs pending => pending = .none ∧ ofClass cls ptrs ≤ x.objects
  | .sweep shard _ _ => shard < x.sub.numShards
  | .rebalance cpu _ _ => cpu < x.sub.slab.numCpus
  | .large size => size < 2 ^ 47
  | .freeLarge p size => (p, size) ∈ x.runs
  | _ => False

def begin (x : Machine) (task : Task) : Machine :=
  { x with
    objects := x.objects - (given task.pc).1
    runs := x.runs - (given task.pc).2
    tasks := task :: x.tasks }

/-- A step of one operation among others; a panic ends it. -/
def advance (x : Machine) (before : List Task) (task : Task) (behind : List Task) (env : List Turn) :
    Machine :=
  match task.pc.run .among task.thread x.sub env with
  | (some (hand, pc), s, _) =>
      { sub := s
        objects := hand.1 + x.objects
        runs := hand.2 + x.runs
        tasks := before ++ if pc = .done then behind else { task with pc } :: behind }
  | (none, s, _) => { x with sub := s, tasks := before ++ behind }

/-- A thread begins an operation when it has none under way; any operation may take the
    next step, if what it does is admitted. -/
inductive Step (admitted : SubHeap → Task → SubHeap → Prop) (x : Machine) : Machine → Prop where
  | enter (task : Task) : (∀ other ∈ x.tasks, other.thread ≠ task.thread) → x.Enters task.pc →
      Step admitted x (x.begin task)
  | advance (before : List Task) (task : Task) (behind : List Task) (env : List Turn) :
      x.tasks = before ++ task :: behind →
      admitted x.sub task (x.advance before task behind env).sub →
      Step admitted x (x.advance before task behind env)

/-- A step of a thread with a 16-bit id after which no hint misleads that did not before:
    a batch stores none that does, and no span that a hint names is tagged for another
    cell of the hint's class. -/
structure Careful (s : SubHeap) (task : Task) (s' : SubHeap) : Prop where
  thread : task.thread < 65536
  store : ∀ shard cls span, task.pc = .hint shard cls span → s.misleads shard cls span = false
  tag : ∀ shard < s.numShards, ∀ cls < numClasses,
    s'.misleads shard cls (s.reuseHint shard cls) = true →
      s.misleads shard cls (s.reuseHint shard cls) = true

/-- The operation at place `i` takes the next step. -/
def turn (x : Machine) (i : Nat) (env : List Turn) : Machine :=
  match x.tasks.drop i with
  | task :: behind => x.advance (x.tasks.take i) task behind env
  | [] => x

def start (c : Config) : Machine := ⟨World.start c, []⟩

def Reached (c : Config) (admitted : SubHeap → Task → SubHeap → Prop) : Machine → Prop :=
  Reachable (· = start c) (Step admitted)

end Machine

/-! ## What a run keeps -/

namespace Machine

/-- What operations have in hand. -/
def inHand (g : Geometry) (tasks : List Task) : Multiset (Nat × Nat) := (tasks.map (·.pc.objects g)).sum

def recordsInHand (tasks : List Task) : Multiset (Nat × Nat) := (tasks.map (·.pc.records)).sum

def runsInHand (g : Geometry) (tasks : List Task) : List (Nat × Nat) := tasks.flatMap (·.pc.runs g)

/-- The ledger holds with what callers hold and what operations have in hand; runs may
    have been lost in a panic. -/
structure Inv (trust : Trust) (g : Geometry) (x : Machine) : Prop where
  fine : ∀ task ∈ x.tasks, task.pc.Fine g
  kept : Dropped trust g (inHand g x.tasks + x.objects) (recordsInHand x.tasks + x.records)
    (runsInHand g x.tasks) x.sub
  small : ∀ y ∈ x.runs, y.2 < 2 ^ 47

variable {x x' : Machine} {c : Config} {admitted : SubHeap → Task → SubHeap → Prop}
  {before behind : List Task} {task : Task}

theorem inHand_middle : inHand g (before ++ task :: behind) =
    task.pc.objects g + inHand g (before ++ behind) := by
  rw [inHand, (List.perm_middle.map _).sum_eq, List.map_cons, List.sum_cons, inHand]

theorem recordsInHand_middle : recordsInHand (before ++ task :: behind) =
    task.pc.records + recordsInHand (before ++ behind) := by
  rw [recordsInHand, (List.perm_middle.map _).sum_eq, List.map_cons, List.sum_cons, recordsInHand]

theorem runsInHand_middle : (runsInHand g (before ++ task :: behind)).Perm
    (task.pc.runs g ++ runsInHand g (before ++ behind)) :=
  List.perm_middle.flatMap_right _

theorem recordsOf_add (a b : Multiset (Nat × Nat)) : recordsOf (a + b) = recordsOf a + recordsOf b :=
  Multiset.map_add ..

/-- What an operation begins with is what its caller gave. -/
theorem Enters.entered {pc : Pc} (enters : x.Enters pc) (grid : x.sub.Grid g) :
    pc.objects g = (given pc).1 ∧ pc.records = recordsOf (given pc).2 ∧ pc.runs g = [] ∧
      (given pc).1 ≤ x.objects ∧ (given pc).2 ≤ x.runs ∧ pc.Fine g := by
  have none : ∀ {X : Multiset (Nat × Nat)}, 0 ≤ X := Multiset.zero_le _
  cases pc with
  | pop cls => exact ⟨rfl, rfl, rfl, none, none, enters⟩
  | refillBatch cls room => exact ⟨rfl, rfl, rfl, none, none, enters⟩
  | free cls p => exact ⟨rfl, rfl, rfl, Multiset.singleton_le.mpr enters, none, trivial⟩
  | batch cls ptrs pending =>
      obtain ⟨rfl, le⟩ := enters
      obtain ⟨empty, fine⟩ := (Gathered.none g cls).collected
      refine ⟨?_, rfl, rfl, le, none, fine⟩
      rw [Pc.objects, ← empty, add_zero, given]
  | sweep shard cls cap =>
      have inside : shard < x.sub.numShards := enters
      rw [grid.numShards] at inside
      exact ⟨rfl, rfl, rfl, none, none, inside⟩
  | rebalance cpu cls count =>
      have inside : cpu < x.sub.slab.numCpus := enters
      rw [grid.numCpus] at inside
      exact ⟨rfl, rfl, rfl, none, none, inside⟩
  | large size => exact ⟨rfl, rfl, rfl, none, none, enters⟩
  | freeLarge p size => exact ⟨rfl, rfl, rfl, none, Multiset.singleton_le.mpr enters, trivial⟩
  | _ => exact enters.elim

theorem Inv.enter (inv : Inv trust g x) (enters : x.Enters task.pc) : Inv trust g (x.begin task) := by
  obtain ⟨lost, owned⟩ := inv.kept
  obtain ⟨objects, records, runs, le, le', fine⟩ : _ ∧ _ ∧ _ ∧ _ ∧ _ ∧ _ := by
    obtain ⟨_, ledger, -⟩ := owned
    exact enters.entered ledger.stock.grid
  refine ⟨List.forall_mem_cons.mpr ⟨fine, inv.fine⟩, ⟨lost, ?_⟩,
    fun y member => inv.small y (Multiset.mem_of_le (Multiset.sub_le_self ..) member)⟩
  have held : inHand g x.tasks + x.objects =
      task.pc.objects g + inHand g x.tasks + (x.objects - (given task.pc).1) := by
    rw [objects, add_assoc, add_left_comm, add_tsub_cancel_of_le le]
  have recorded : recordsInHand x.tasks + x.records =
      task.pc.records + recordsInHand x.tasks + recordsOf (x.runs - (given task.pc).2) := by
    rw [records, add_assoc, add_left_comm, ← recordsOf_add, add_tsub_cancel_of_le le']
    rfl
  rw [held, recorded] at owned
  simp only [begin, inHand, recordsInHand, runsInHand, List.map_cons, List.sum_cons, List.flatMap_cons,
    runs, List.nil_append] at owned ⊢
  exact owned

/-- What the step of one operation starts from, with all the others have out. -/
theorem Inv.middle (inv : Inv trust g x) (here : x.tasks = before ++ task :: behind) :
    task.pc.Fine g ∧ ∃ lost, Owned trust g
      (task.pc.objects g + (inHand g (before ++ behind) + x.objects))
      (task.pc.records + (recordsInHand (before ++ behind) + x.records))
      (task.pc.runs g ++ (lost ++ runsInHand g (before ++ behind))) x.sub := by
  obtain ⟨fine, ⟨lost, owned⟩, -⟩ := inv
  rw [here] at fine owned
  rw [inHand_middle, recordsInHand_middle, add_assoc, add_assoc] at owned
  have shuffled : (lost ++ runsInHand g (before ++ task :: behind)).Perm
      (task.pc.runs g ++ (lost ++ runsInHand g (before ++ behind))) := by
    refine (runsInHand_middle.append_left lost).trans ?_
    rw [← List.append_assoc, ← List.append_assoc]
    exact List.perm_append_comm.append_right _
  exact ⟨fine task (by simp), lost, owned.perm shuffled⟩

/-- What a step of one operation does. -/
theorem Inv.stepped (inv : Inv trust g x) (here : x.tasks = before ++ task :: behind)
    (uses : ∀ k, g.uses k) (narrow : trust.homed → task.thread < 65536) :
    ∃ lost, Triple (· = x.sub) (task.pc.run .among task.thread)
      (Stepped trust g (inHand g (before ++ behind) + x.objects)
        (recordsInHand (before ++ behind) + x.records) (lost ++ runsInHand g (before ++ behind)))
      (Panicked trust g (inHand g (before ++ behind) + x.objects)
        (recordsInHand (before ++ behind) + x.records) (lost ++ runsInHand g (before ++ behind)) x.sub) := by
  obtain ⟨fine, lost, owned⟩ := inv.middle here
  exact ⟨lost, Pc.run_spec fine uses narrow owned⟩

theorem Inv.advance (inv : Inv trust g x) (here : x.tasks = before ++ task :: behind)
    (uses : ∀ k, g.uses k) (narrow : trust.homed → task.thread < 65536)
    (env : List Turn) : Inv trust g (x.advance before task behind env) := by
  obtain ⟨lost, step⟩ := inv.stepped here uses narrow
  have ends := step x.sub env rfl
  obtain ⟨others, -, small⟩ := inv
  rw [here] at others
  have rest : ∀ other ∈ before ++ behind, other.pc.Fine g := by
    intro other member
    apply others
    rw [List.mem_append] at member ⊢
    exact member.imp_right (List.mem_cons_of_mem _)
  unfold Machine.advance
  rcases outcome : task.pc.run .among task.thread x.sub env with ⟨_ | ⟨hand, pc⟩, s, env'⟩ <;>
    simp only [outcome] at ends ⊢
  · obtain ⟨⟨more, owned⟩, -⟩ := ends
    refine ⟨rest, ⟨more ++ lost, ?_⟩, small⟩
    rwa [List.append_assoc]
  · obtain ⟨owned, fine, smaller⟩ := ends
    have sizes : ∀ y ∈ hand.2 + x.runs, y.2 < 2 ^ 47 := by
      intro y member
      rcases Multiset.mem_add.mp member with new | old
      · exact smaller y new
      · exact small y old
    simp only [add_left_comm hand.1, ← add_assoc (pc.objects g), add_left_comm (recordsOf hand.2),
      ← add_assoc pc.records] at owned
    have recorded : recordsOf hand.2 + x.records = recordsOf (hand.2 + x.runs) :=
      (recordsOf_add ..).symm
    rw [recorded] at owned
    split
    · rename_i finished
      subst finished
      refine ⟨rest, ⟨lost, ?_⟩, sizes⟩
      have kept : Owned trust g (0 + inHand g (before ++ behind) + (hand.1 + x.objects))
        (0 + recordsInHand (before ++ behind) + recordsOf (hand.2 + x.runs))
        (lost ++ runsInHand g (before ++ behind)) s := owned
      rwa [Multiset.zero_add, Multiset.zero_add] at kept
    · refine ⟨?_, ⟨lost, ?_⟩, sizes⟩
      · intro other member
        rw [List.mem_append, List.mem_cons, or_left_comm, ← List.mem_append] at member
        rcases member with rfl | member
        · exact fine
        · exact rest other member
      · rw [inHand_middle, recordsInHand_middle]
        apply owned.perm
        rw [← List.append_assoc]
        refine (List.perm_append_comm.append_right _).trans ?_
        rw [List.append_assoc]
        have middle : (runsInHand g (before ++ { task with pc } :: behind)).Perm
            (pc.runs g ++ runsInHand g (before ++ behind)) := runsInHand_middle
        exact middle.symm.append_left lost

/-- In every state of a run the ledger holds. -/
theorem Reached.inv (mapped : c.Mapped) (reached : Reached c admitted x)
    (narrow : ∀ s task s', admitted s task s' → trust.homed → task.thread < 65536) :
    Inv trust (c.geometry fun _ => True) x := by
  apply reached.invariant
  · rintro _ rfl
    refine ⟨nofun, ⟨[], fun _ => .fresh, ?_, nofun⟩, fun y member => (Multiset.notMem_zero y member).elim⟩
    simpa [start, World.start, World.records, inHand, recordsInHand, runsInHand] using
      c.ledger mapped trust fun _ => True
  · rintro x _ inv (⟨task, -, enters⟩ | ⟨before, task, behind, env, here, allowed⟩)
    · exact inv.enter enters
    · exact inv.advance here (fun _ => trivial) (narrow _ _ _ allowed) env

theorem advance_sub (x : Machine) (before : List Task) (task : Task) (behind : List Task) (env : List Turn) :
    (x.advance before task behind env).sub = (task.pc.run .among task.thread x.sub env).2.1 := by
  unfold advance
  rcases task.pc.run .among task.thread x.sub env with ⟨_ | _, s, env'⟩ <;> rfl

/-! ## Who scans a span -/

/-- Hints that do not mislead still do not after a careful step. -/
theorem Careful.straight {s' : SubHeap} {env : List Turn} (careful : Careful s task s')
    (ran : s' = (task.pc.run .among task.thread s env).2.1) (straight : s.Straight) : s'.Straight := by
  by_cases stores : task.pc.stores
  · cases pc : task.pc with
    | hint shard cls span =>
        rw [ran, pc]
        exact straight.stored (careful.store shard cls span pc)
    | _ =>
        rw [pc] at stores
        exact stores.elim
  · refine straight.steady ?_ careful.tag
    rw [ran]
    exact Pc.run_steady .among task.thread stores s env

/-- What careful steps keep. -/
theorem Reached.straight (mapped : c.Mapped) (reached : Reached c Careful x) :
    Inv .homes (c.geometry fun _ => True) x ∧ x.sub.Straight ∧ x.sub.Scanned := by
  refine reached.invariant (I := fun x => Inv .homes (c.geometry fun _ => True) x ∧ x.sub.Straight ∧
    x.sub.Scanned) ?_ ?_
  · rintro _ rfl
    have begun : Reached c Careful (start c) := .start rfl
    exact ⟨begun.inv mapped fun _ _ _ careful _ => careful.thread,
      fun shard _ cls _ => misleads_none .., nofun⟩
  · rintro x _ ⟨inv, straight, scanned⟩ (⟨task, -, enters⟩ | ⟨before, task, behind, env, here, careful⟩)
    · exact ⟨inv.enter enters, straight, scanned⟩
    · have ran := x.advance_sub before task behind env
      obtain ⟨fine, lost, owned⟩ := inv.middle here
      refine ⟨inv.advance here (fun _ => trivial) (fun _ => careful.thread) env,
        careful.straight ran straight, ?_⟩
      rw [ran]
      exact Pc.run_scanned .among fine (fun _ => trivial) careful.thread owned straight scanned env

/-- A span is scanned under the lock of the cell that owns it, as long as no hint comes to
    mislead: neither when it is stored nor when the span it names is tagged anew. -/
theorem scanned_by_owner (mapped : c.Mapped) (reached : Reached c Careful x) :
    ∀ scan ∈ x.sub.scans, ∃ home, scan.entry = SpanTable.pack scan.cls home ∧ home < 65536 ∧
      home % c.shards = scan.shard := by
  intro scan member
  obtain ⟨⟨-, ⟨lost, role, ledger, -⟩, -⟩, -, scanned⟩ := reached.straight mapped
  obtain ⟨home, packed, small, back⟩ := scanned scan member
  refine ⟨home, packed, small, ?_⟩
  rw [← back rfl, ledger.stock.grid.numShards]
  rfl

/-- Where no hint is stored, none comes to mislead. -/
theorem Careful.unhinted {s' : SubHeap} (small : task.thread < 65536) (silent : ¬ task.pc.stores)
    (none : ∀ shard cls, s.reuseHint shard cls = noSpan) : Careful s task s' := by
  refine ⟨small, fun shard cls span pc => ?_, fun shard _ cls _ astray => ?_⟩
  · rw [pc] at silent
    exact (silent trivial).elim
  · rw [none, misleads_none] at astray
    cases astray

theorem unhinted_steady {s' : SubHeap} (steady : Steady s s')
    (none : ∀ shard cls, s.reuseHint shard cls = noSpan) (shard cls : Nat) :
    s'.reuseHint shard cls = noSpan := by
  rcases steady.hints shard cls with same | withdrawn
  · rw [same, none]
  · exact withdrawn

/-- A run in which no hint is ever stored is careful. -/
theorem Reached.careful
    (reached : Reached c (fun _ task _ => task.thread < 65536 ∧ ¬ task.pc.stores) x) :
    Reached c Careful x ∧ ∀ shard cls, x.sub.reuseHint shard cls = noSpan := by
  refine reached.invariant (I := fun x => Reached c Careful x ∧
    ∀ shard cls, x.sub.reuseHint shard cls = noSpan) ?_ ?_
  · rintro _ rfl
    exact ⟨.start rfl, fun _ _ => rfl⟩
  · rintro x _ ⟨reached, none⟩ (⟨task, free, enters⟩ | ⟨before, task, behind, env, here, small, silent⟩)
    · exact ⟨reached.next (.enter task free enters), none⟩
    · have steady := Pc.run_steady .among task.thread silent x.sub env
      rw [← x.advance_sub before task behind env] at steady
      exact ⟨reached.next (.advance before task behind env here (.unhinted small silent none)),
        unhinted_steady steady none⟩

theorem Reached.begin (reached : Reached c admitted x) (thread : Nat) (pc : Pc)
    (free : ∀ other ∈ x.tasks, other.thread ≠ thread) (enters : x.Enters pc) :
    Reached c admitted (x.begin ⟨thread, pc⟩) :=
  reached.next (.enter ⟨thread, pc⟩ free enters)

theorem Step.turn (i : Nat) (env : List Turn) (task : Task) (here : x.tasks[i]? = some task)
    (allowed : admitted x.sub task (x.turn i env).sub) : Step admitted x (x.turn i env) := by
  have taken : x.tasks = x.tasks.take i ++ x.tasks.drop i := (List.take_append_drop i x.tasks).symm
  rw [← List.head?_drop] at here
  unfold Machine.turn at allowed ⊢
  split at allowed
  · rename_i first behind split
    rw [split] at here taken
    cases here
    exact .advance _ task behind env taken allowed
  · rename_i none
    rw [none] at here
    cases here

theorem Reached.turn (reached : Reached c admitted x) (i : Nat) (env : List Turn) (task : Task)
    (here : x.tasks[i]? = some task) (allowed : admitted x.sub task (x.turn i env).sub) :
    Reached c admitted (x.turn i env) :=
  reached.next (.turn i env task here allowed)

/-- An object of 96 KiB, freed by a thread of another shard, which pauses before it
    stores the hint. -/
@[irreducible] def paused : Machine :=
  ((((((((start World.fiveSpans).begin ⟨0, .refillBatch 45 1⟩).turn 0 []).begin
    ⟨1, .batch 45 [World.fiveSpans.arenaBase] .none⟩).turn 0 []).turn 0 []).turn 0 []).turn 0 []).turn 0 []

theorem paused_reached {admitted : SubHeap → Task → SubHeap → Prop}
    (admits : ∀ s task s', task.thread < 65536 → ¬ task.pc.stores → admitted s task s') :
    Reached World.fiveSpans admitted paused := by
  have started : Reached World.fiveSpans admitted (start World.fiveSpans) := .start rfl
  have taken := (started.begin 0 (.refillBatch 45 1) (by decide +kernel) ⟨by decide, by decide⟩).turn
    0 [] ⟨0, .refillBatch 45 1⟩ rfl (admits _ _ _ (by decide) id)
  have freeing := (taken.begin 1 (.batch 45 [World.fiveSpans.arenaBase] .none) (by decide +kernel)
    ⟨rfl, by decide +kernel⟩).turn 0 [] ⟨1, .batch 45 [World.fiveSpans.arenaBase] .none⟩ rfl
    (admits _ _ _ (by decide) id)
  have gathered := (freeing.turn 0 [] ⟨1, .flush 45 .none (.batch 45 [] ⟨0, 0, 1#64⟩)⟩ (by decide +kernel)
    (admits _ _ _ (by decide) id)).turn 0 [] ⟨1, .batch 45 [] ⟨0, 0, 1#64⟩⟩ (by decide +kernel)
    (admits _ _ _ (by decide) id)
  have deposited := (gathered.turn 0 [] ⟨1, .flush 45 ⟨0, 0, 1#64⟩ (.home 45 0)⟩ (by decide +kernel)
    (admits _ _ _ (by decide) id)).turn 0 [] ⟨1, .home 45 0⟩ (by decide +kernel)
    (admits _ _ _ (by decide) id)
  unfold paused
  exact deposited

/-- A sweep retires the span, and another shard carves it anew, for objects of class `cls`. -/
def recarved (cls : Nat) : Machine :=
  ((((paused.begin ⟨2, .sweep 0 45 1⟩).turn 0 []).turn 0 []).begin ⟨4, .refillBatch cls 1⟩).turn 0 []

theorem recarved_reached {admitted : SubHeap → Task → SubHeap → Prop}
    (admits : ∀ s task s', task.thread < 65536 → ¬ task.pc.stores → admitted s task s') (cls : Nat)
    (isClass : IsClass cls) : Reached World.fiveSpans admitted (recarved cls) := by
  have swept := (((paused_reached admits).begin 2 (.sweep 0 45 1) (by decide +kernel)
    (show 0 < paused.sub.numShards by decide +kernel)).turn
    0 [] ⟨2, .sweep 0 45 1⟩ (by decide +kernel) (admits _ _ _ (by decide) id)).turn
    0 [] ⟨2, .file 45 [0]⟩ (by decide +kernel) (admits _ _ _ (by decide) id)
  exact (swept.begin 4 (.refillBatch cls 1) (by decide +kernel) isClass).turn
    0 [] ⟨4, .refillBatch cls 1⟩ rfl (admits _ _ _ (show 4 < 65536 by decide) id)

/-- The hint is stored, and the old cell refills. -/
@[irreducible] def rejected : Machine :=
  (((recarved 46).turn 0 []).begin ⟨0, .refillBatch 45 1⟩).turn 0 []

@[irreducible] def strayed : Machine :=
  (((recarved 45).turn 0 []).begin ⟨0, .refillBatch 45 1⟩).turn 0 []

/-- A hint that names a span of another class by now is passed over. -/
theorem scanned_by_owner_rejected : rejected.sub.reuseHint 0 45 = 0 ∧
    rejected.sub.scans = [⟨0, 45, 2, SpanTable.pack 45 0⟩, ⟨1, 46, 0, SpanTable.pack 46 1⟩,
      ⟨0, 45, 0, SpanTable.pack 45 0⟩] ∧
    ∀ scan ∈ rejected.sub.scans, ∃ home, scan.entry = SpanTable.pack scan.cls home ∧ home < 65536 ∧
      home % World.fiveSpans.shards = scan.shard := by
  have reached : Reached World.fiveSpans Careful (recarved 46) :=
    (recarved_reached (fun _ _ _ small silent => ⟨small, silent⟩) 46 (by decide)).careful.1
  have stored := reached.turn 0 [] ⟨1, .hint 0 45 0⟩ (by decide +kernel)
    ⟨by decide, fun _ _ _ pc => (by cases pc; decide +kernel), by decide +kernel⟩
  have refilled := (stored.begin 0 (.refillBatch 45 1) (by decide +kernel) ⟨by decide, by decide⟩).turn
    0 [] ⟨0, .refillBatch 45 1⟩ (by decide +kernel) ⟨by decide, fun _ _ _ pc => (by cases pc), by decide +kernel⟩
  refine ⟨by decide +kernel, by decide +kernel, ?_⟩
  unfold rejected
  exact scanned_by_owner World.fiveSpans_mapped refilled

/-- Where the span was carved for the same class, the next refill of the old cell scans a
    span of the new one. -/
theorem scanned_by_stranger : World.fiveSpans.Mapped ∧
    Reached World.fiveSpans (fun _ task _ => task.thread < 65536) strayed ∧
    ⟨0, 45, 0, SpanTable.pack 45 1⟩ ∈ strayed.sub.scans ∧
    ¬ ∃ home, SpanTable.pack 45 1 = SpanTable.pack 45 home ∧ home < 65536 ∧
      home % World.fiveSpans.shards = 0 := by
  have carved : Reached World.fiveSpans (fun _ task _ => task.thread < 65536) (recarved 45) :=
    recarved_reached (fun _ _ _ small _ => small) 45 (by decide)
  have stored := carved.turn 0 [] ⟨1, .hint 0 45 0⟩ (by decide +kernel) (by decide)
  have scanned := (stored.begin 0 (.refillBatch 45 1) (by decide +kernel) ⟨by decide, by decide⟩).turn
    0 [] ⟨0, .refillBatch 45 1⟩ (by decide +kernel) (by decide)
  refine ⟨World.fiveSpans_mapped, ?_, by decide +kernel, ?_⟩
  · unfold strayed
    exact scanned
  · rintro ⟨home, packed, small, back⟩
    have : home = 1 := by
      simp only [SpanTable.pack] at packed
      omega
    subst this
    revert back
    decide

end Machine

/-! ## No object and no span in two hands -/

/-- The spans of a run in hand. -/
theorem Ledger.loose_extent (ledger : s.Ledger trust g role H L W) {r : Nat × Nat} (held : r ∈ W) :
    Extent role r.1 r.2 (.loose r.1) :=
  ⟨ledger.loose.some r held, ledger.loose.inside r held⟩

theorem Ledger.object_loose_apart (ledger : s.Ledger trust g role H L W) {y r : Nat × Nat}
    (object : y ∈ H) (run : r ∈ W) :
    Apart y.1 (sizeOfClass y.2) (g.base + r.1 * spanBytes) (r.2 * spanBytes) := by
  obtain ⟨p, cls⟩ := y
  obtain ⟨k, sh, i, active, slot, rfl⟩ := ledger.slots.outside cls p (.inr object)
  have apart := (ledger.cells.extent active).apart (ledger.loose_extent run) (by simp)
  refine apart.within g.base (Nat.le_add_right ..)
    (slotAddr_end (ledger.cells.isClass active) slot) le_rfl ?_
  rw [Nat.add_mul]
  omega

theorem Ledger.run_loose_apart (ledger : s.Ledger trust g role H L W) {y r : Nat × Nat}
    (large : y ∈ L) (run : r ∈ W) :
    Apart y.1 (y.2 * spanBytes) (g.base + r.1 * spanBytes) (r.2 * spanBytes) := by
  obtain ⟨h, place, extent⟩ := ledger.run_extent large
  have apart := extent.apart (ledger.loose_extent run) (by simp)
  refine apart.within g.base place.ge ?_ le_rfl ?_
  · rw [place, Nat.add_mul]
    omega
  · rw [Nat.add_mul]
    omega

theorem Ledger.loose_apart (ledger : s.Ledger trust g role H L W) :
    W.Pairwise fun r r' => Apart r.1 r.2 r'.1 r'.2 := by
  have distinct := List.pairwise_map.mp ledger.loose.distinct
  refine distinct.imp_of_mem fun {r r'} member member' different => ?_
  exact (ledger.loose_extent member).apart (ledger.loose_extent member') (by simpa using different)

namespace Machine

variable {x : Machine} {c : Config}

/-- The objects that callers hold or operations have in hand. -/
def held (c : Config) (x : Machine) : Multiset (Nat × Nat) :=
  inHand (c.geometry fun _ => True) x.tasks + x.objects

/-- The runs of spans that operations have in hand. -/
def retired (c : Config) (x : Machine) : List (Nat × Nat) :=
  runsInHand (c.geometry fun _ => True) x.tasks

/-- Whatever is out is out once. What callers hold has disjoint bytes, also from what
    operations have in hand; every slot of a listed span is in one place; an object that
    is out keeps its span on the list of a cell of its class, and away from every run of
    spans on its way to the pool. -/
structure Exclusive (c : Config) (x : Machine) : Prop where
  callers : x.toWorld.Disjoint
  objects : ∀ y z, {y, z} ≤ x.held c → Apart y.1 (sizeOfClass y.2) z.1 (sizeOfClass z.2)
  slots : ∀ sh cls k i, sh < c.shards → x.sub.OnList sh cls k → i < slotsPerSpan (sizeOfClass cls) →
    (x.sub.bitmaps.allocBit k i).toNat + (x.sub.bitmaps.freeBit k i).toNat +
      (x.sub.slab.cached cls).count (c.arenaBase + k * spanBytes + i * sizeOfClass cls) +
      (x.held c).count (c.arenaBase + k * spanBytes + i * sizeOfClass cls, cls) = 1
  listed : ∀ y ∈ x.held c, ∃ sh k i, sh < c.shards ∧ x.sub.OnList sh y.2 k ∧
    i < slotsPerSpan (sizeOfClass y.2) ∧ y.1 = c.arenaBase + k * spanBytes + i * sizeOfClass y.2
  retired : ∀ r ∈ x.retired c,
    (∀ y ∈ x.held c, Apart y.1 (sizeOfClass y.2) (c.arenaBase + r.1 * spanBytes) (r.2 * spanBytes)) ∧
      ∀ y ∈ x.runs, Apart y.1 (runBytes y.2) (c.arenaBase + r.1 * spanBytes) (r.2 * spanBytes)
  spans : (x.retired c).Pairwise fun r r' => Apart r.1 r.2 r'.1 r'.2

theorem Inv.once (inv : Inv .bare (c.geometry fun _ => True) x) : x.Exclusive c := by
  obtain ⟨-, ⟨lost, role, ledger, settled⟩, small⟩ := inv
  have numShards : x.sub.numShards = c.shards := ledger.stock.grid.numShards
  have narrow : ∀ y ∈ x.runs, spanCount y.2 < 2 ^ 32 := fun y member => (large_bounds (small y member)).2
  have listed : ∀ y ∈ x.runs, (y.1, wrap32 (spanCount y.2)) ∈ recordsInHand x.tasks + x.records :=
    fun y member => Multiset.mem_add.mpr (.inr (Multiset.mem_map_of_mem _ member))
  refine ⟨?_, fun y z both => ledger.objects_apart both, ?_, ?_, fun r member => ⟨?_, ?_⟩, ?_⟩
  · refine ⟨fun y z both => ?_, fun y object z run => ?_, fun y z both => ?_⟩
    · exact ledger.objects_apart (both.trans (Multiset.le_add_left ..))
    · have apart := ledger.object_run_apart (Multiset.mem_add.mpr (.inr object)) (listed z run)
      rwa [World.record_bytes (narrow z run)] at apart
    · have recorded : {(y.1, wrap32 (spanCount y.2)), (z.1, wrap32 (spanCount z.2))} ≤
          recordsInHand x.tasks + x.records :=
        (Multiset.map_le_map both).trans (Multiset.le_add_left ..)
      have apart := ledger.runs_apart recorded
      rwa [World.record_bytes (narrow y (Multiset.mem_of_le both (by simp))),
        World.record_bytes (narrow z (Multiset.mem_of_le both (by simp)))] at apart
  · intro sh cls k i inside onList slot
    exact ledger.slots.once k cls sh i ((ledger.onList_iff (by rwa [numShards])).mp onList) slot
  · intro y member
    obtain ⟨k, sh, i, active, slot, place⟩ := ledger.slots.outside y.2 y.1 (.inr member)
    have inside := (ledger.cells.groups k k y.2 sh active).2.1
    exact ⟨sh, k, i, by rwa [← numShards], (ledger.onList_iff inside).mpr active, slot, place⟩
  · exact fun y object => ledger.object_loose_apart object (List.mem_append_right _ member)
  · intro y held
    have apart := ledger.run_loose_apart (listed y held) (List.mem_append_right lost member)
    rwa [World.record_bytes (narrow y held)] at apart
  · exact (List.pairwise_append.mp ledger.loose_apart).2.1

/-- However operations interleave, nothing is handed out twice, and no span is retired
    from under an object that is out. -/
theorem exclusive (mapped : c.Mapped) (reached : Reached c Careful x) : x.Exclusive c := by
  have inv : Inv .bare (c.geometry fun _ => True) x := reached.inv mapped fun _ _ _ careful _ => careful.thread
  exact inv.once

/-- A span retired and not filed yet, while another object is out. -/
@[irreducible] def sweeping : Machine :=
  (((paused.begin ⟨4, .refillBatch 45 1⟩).turn 0 []).begin ⟨2, .sweep 0 45 1⟩).turn 0 []

theorem sweeping_reached : Reached World.fiveSpans Careful sweeping := by
  have reached : Reached World.fiveSpans (fun _ task _ => task.thread < 65536 ∧ ¬ task.pc.stores) paused :=
    paused_reached fun _ _ _ small silent => ⟨small, silent⟩
  have carved := (reached.begin 4 (.refillBatch 45 1) (by decide +kernel) ⟨by decide, by decide⟩).turn
    0 [] ⟨4, .refillBatch 45 1⟩ (by decide +kernel) ⟨by decide, id⟩
  have swept := (carved.begin 2 (.sweep 0 45 1) (by decide +kernel)
    (show 0 < ((paused.begin ⟨4, .refillBatch 45 1⟩).turn 0 []).sub.numShards by decide +kernel)).turn
    0 [] ⟨2, .sweep 0 45 1⟩ (by decide +kernel) ⟨by decide, id⟩
  unfold sweeping
  exact swept.careful.1

theorem exclusive_sweeping : sweeping.objects = {(World.fiveSpans.arenaBase + 2 * 65536, 45)} ∧
    sweeping.retired World.fiveSpans = [(0, 2)] ∧ sweeping.Exclusive World.fiveSpans :=
  ⟨by decide +kernel, by decide +kernel, exclusive World.fiveSpans_mapped sweeping_reached⟩

/-- As long as no carve for an object larger than a span was clipped, no operation
    panics, whatever the others do, and the mutex is not poisoned. -/
theorem never_panics (mapped : c.Mapped) (reached : Reached c Careful x)
    (whole : x.sub.clipped = false) : x.sub.large.poisoned = false ∧
    ∀ task ∈ x.tasks, ∀ env, (task.pc.run .among task.thread x.sub env).1 ≠ none := by
  have inv : Inv .tags (c.geometry fun _ => True) x := reached.inv mapped fun _ _ _ careful _ => careful.thread
  refine ⟨?_, fun task member env panics => ?_⟩
  · obtain ⟨-, ⟨lost, role, ledger, -⟩, -⟩ := inv
    exact ledger.healthy Trust.tags_tagged whole
  · obtain ⟨before, behind, here⟩ := List.append_of_mem member
    obtain ⟨lost, step⟩ := inv.stepped here (fun _ => trivial) nofun
    have ends := step x.sub env rfl
    rcases outcome : task.pc.run .among task.thread x.sub env with ⟨_ | _, s, env'⟩ <;>
      simp only [outcome] at ends panics
    · rw [ends.2 Trust.tags_tagged] at whole
      cases whole
    · cases panics

theorem never_panics_sweeping : sweeping.tasks.head? = some ⟨2, .file 45 [0]⟩ ∧
    ∀ task ∈ sweeping.tasks, ∀ env, (task.pc.run .among task.thread sweeping.sub env).1 ≠ none :=
  ⟨by decide +kernel, (never_panics World.fiveSpans_mapped sweeping_reached (by decide +kernel)).2⟩

end Machine

end SubHeap

end Toccata
