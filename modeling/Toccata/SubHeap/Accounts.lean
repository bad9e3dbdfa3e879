import Mathlib.Algebra.Order.BigOperators.Group.Multiset
import Toccata.SubHeap.Custody
import Toccata.SubHeap.Metered

/-! # What is live

The counters against what callers hold. A metered program moves memory as the program
it meters and then charges by the answer, so runs of the metered sub-heap are runs of
the sub-heap with books kept beside them. Charged in 64 bits, the books agree with the
callers up to wrap-around at every call that does not panic half way; what callers hold
fits the arena, so the totals come out as the numbers themselves.
-/

namespace Toccata

open Foundations SizeClass

namespace PerCpuCounters

variable {c c' : PerCpuCounters} {cpu : Nat} {bytes objs : Int}

/-- The sums moved by what was charged. -/
structure Charged (c c' : PerCpuCounters) (bytes objs : Int) : Prop where
  len : c'.len = c.len
  bytes : c'.sumBytes = c.sumBytes + BitVec.ofInt 64 bytes
  objs : c'.sumObjs = c.sumObjs + BitVec.ofInt 64 objs

/-- Adding to one entry adds to the sum. -/
theorem sum_update {n i : Nat} (f g : Nat → BitVec 64) (d : BitVec 64) (inside : i < n)
    (here : g i = f i + d) (others : ∀ j, j ≠ i → g j = f j) :
    ((List.range n).map g).sum = ((List.range n).map f).sum + d := by
  induction n with
  | zero => omega
  | succ n ih =>
      rw [List.sum_range_succ, List.sum_range_succ]
      by_cases last : i = n
      · subst last
        have same : (List.range i).map g = (List.range i).map f := by
          apply List.map_congr_left
          intro j low
          exact others j (List.mem_range.mp low).ne
        rw [same, here, add_assoc]
      · rw [ih (by omega), others n (Ne.symm last), add_right_comm]

theorem cell_lt (some : 0 < c.len) (cpu : Nat) : c.cell cpu < c.len := by
  unfold cell
  omega

theorem addLocal_charged (some : 0 < c.len) (cpu : Nat) (bytes objs : Int) :
    Charged c (c.addLocal cpu bytes objs) bytes objs where
  len := rfl
  bytes := by
    apply sum_update _ _ _ (c.cell_lt some cpu)
    · simp only [addLocal, Function.update_self]
      exact add_right_comm ..
    · intro j other
      simp only [addLocal, Function.update_of_ne other]
  objs := by
    apply sum_update _ _ _ (c.cell_lt some cpu)
    · simp only [addLocal, Function.update_self]
      exact add_right_comm ..
    · intro j other
      simp only [addLocal, Function.update_of_ne other]

theorem addRemote_charged (some : 0 < c.len) (cpu : Nat) (bytes objs : Int) :
    Charged c (c.addRemote cpu bytes objs) bytes objs where
  len := rfl
  bytes := by
    apply sum_update _ _ _ (c.cell_lt some cpu)
    · simp only [addRemote, Function.update_self]
      exact (add_assoc ..).symm
    · intro j other
      simp only [addRemote, Function.update_of_ne other]
  objs := by
    apply sum_update _ _ _ (c.cell_lt some cpu)
    · simp only [addRemote, Function.update_self]
      exact (add_assoc ..).symm
    · intro j other
      simp only [addRemote, Function.update_of_ne other]

/-- A total that fits is the number itself. -/
theorem total_exact {n : Nat} (small : n < 2 ^ 63) : (max (BitVec.ofInt 64 n).toInt 0).toNat = n := by
  have exact : (BitVec.ofInt 64 (n : Int)).toInt = n := by
    rw [BitVec.toInt_ofInt]
    simp only [Int.bmod]
    omega
  omega

end PerCpuCounters

/-! ## Programs and their charges -/

namespace Metered

/-- Run a program, then charge by the memory it began with and by its answer. -/
def charging {α : Type} (m : Prog Turn SubHeap α)
    (charge : SubHeap → α → PerCpuCounters → PerCpuCounters) : Prog Turn Metered α := fun t env =>
  match m t.sub env with
  | (some a, s, env') => (some a, ⟨s, charge t.sub a t.counters⟩, env')
  | (none, s, env') => (none, ⟨s, t.counters⟩, env')

variable {α : Type} {cls thread cpu p size : Nat}

/-- A program followed by its charge. -/
theorem lift_bind {m : Prog Turn SubHeap α} {k : α → Prog Turn Metered α}
    {charge : α → PerCpuCounters → PerCpuCounters}
    (charges : ∀ a t env, k a t env = (some a, { t with counters := charge a t.counters }, env)) :
    lift m >>= k = charging m fun _ => charge := by
  funext t env
  simp only [Bind.bind, lift, Prog.within, charging]
  rcases m t.sub env with ⟨_ | a, s, env'⟩
  · rfl
  · exact charges a _ _

def chargeObject (cls cpu : Nat) : Option Nat → PerCpuCounters → PerCpuCounters
  | none => id
  | some _ => fun c => c.addLocal cpu (sizeOfClass cls) 1

def chargeRun (size cpu : Nat) : Option Nat → PerCpuCounters → PerCpuCounters
  | none => id
  | some _ => fun c => c.addRemote (min cpu (c.len - 1)) (SubHeap.runBytes size) 1

def chargeMany (cls cpu : Nat) (objs : List Nat) (c : PerCpuCounters) : PerCpuCounters :=
  if 0 < objs.length then c.addLocal cpu (sizeOfClass cls * objs.length) objs.length else c

def creditObject (cls cpu : Nat) (c : PerCpuCounters) : PerCpuCounters :=
  c.addLocal cpu (-sizeOfClass cls) (-1)

def creditMany (cls cpu : Nat) (ptrs : List Nat) (c : PerCpuCounters) : PerCpuCounters :=
  if 0 < ptrs.length then c.addLocal cpu (-sizeOfClass cls * ptrs.length) (-ptrs.length) else c

def creditRun (p cpu : Nat) (s : SubHeap) (c : PerCpuCounters) : PerCpuCounters :=
  let spanCount := (s.large.runSpans.get? (s.large.spanIndex p)).getD 0
  if spanCount = 0 then c
  else c.addRemote (min cpu (c.len - 1)) (-(spanCount * spanBytes : Nat)) (-1)

def creditPtr (p cpu : Nat) (s : SubHeap) (c : PerCpuCounters) : PerCpuCounters :=
  match s.spans.lookup p with
  | none => c
  | some (cls, _) => if cls = largeClass then creditRun p cpu s c else creditObject cls cpu c

theorem allocClass_eq : allocClass cls thread cpu =
    charging (SubHeap.allocClass cls thread) fun _ => chargeObject cls cpu := by
  apply lift_bind
  intro r t env
  cases r <;> rfl

theorem allocLarge_eq :
    allocLarge size cpu = charging (SubHeap.allocLarge size) fun _ => chargeRun size cpu := by
  apply lift_bind
  intro r t env
  cases r <;> rfl

theorem refillBatch_eq (room : Nat) : refillBatch cls thread room cpu =
    charging (SubHeap.refillBatch .alone cls thread room) fun _ => chargeMany cls cpu := by
  apply lift_bind
  intro objs t env
  simp only [chargeMany]
  split <;> rfl

theorem deallocClass_eq : deallocClass p cls thread cpu =
    charging (SubHeap.deallocClass p cls thread) fun _ _ => creditObject cls cpu :=
  lift_bind fun _ _ _ => rfl

theorem deallocClassBatch_eq (ptrs : List Nat) : deallocClassBatch ptrs cls thread cpu =
    charging (SubHeap.deallocClassBatch ptrs cls thread) fun _ _ => creditMany cls cpu ptrs := by
  apply lift_bind
  intro _ t env
  simp only [creditMany]
  split <;> rfl

/-- The charge is fixed by the memory that the program begins with. -/
theorem charging_at (m : Prog Turn SubHeap α) (charge : SubHeap → α → PerCpuCounters → PerCpuCounters)
    (t : Metered) (env : List Turn) :
    charging m charge t env = charging m (fun _ => charge t.sub) t env := rfl

theorem deallocLarge_eq :
    deallocLarge p cpu = charging (SubHeap.deallocLarge p) fun s _ => creditRun p cpu s := by
  funext t env
  rw [deallocLarge, Prog.read_bind, charging_at]
  refine congrFun (congrFun ?_ t) env
  apply lift_bind
  intro _ t' env
  simp only [creditRun]
  split <;> rfl

/-- The charge stays the same when a fixed answer follows. -/
theorem charging_bind {β : Type} {m : Prog Turn SubHeap α} {b : β}
    {f : SubHeap → PerCpuCounters → PerCpuCounters} :
    (charging m fun s _ => f s) >>= (fun _ => return b) =
      charging (m >>= fun _ => return b) fun s _ => f s := by
  funext t env
  simp only [charging, Bind.bind]
  rcases m t.sub env with ⟨_ | a, s, env'⟩ <;> rfl

theorem deallocByPtr_eq : deallocByPtr p thread cpu =
    charging (SubHeap.deallocByPtr p thread) fun s _ => creditPtr p cpu s := by
  funext t env
  rw [deallocByPtr, Prog.read_bind, charging, SubHeap.deallocByPtr, Prog.read_bind]
  simp only [creditPtr]
  cases t.sub.spans.lookup p with
  | none => rfl
  | some entry =>
      obtain ⟨cls, home⟩ := entry
      dsimp only
      by_cases large : cls = largeClass
      · simp only [if_pos large]
        rw [deallocLarge_eq, charging_bind]
        rfl
      · simp only [if_neg large]
        rw [deallocClass_eq, charging_bind (f := fun _ => creditObject cls cpu)]
        rfl

end Metered

/-! ## Runs with books -/

namespace SubHeap

/-- A world and its counters. -/
structure Books where
  world : World
  counters : PerCpuCounters

namespace Books

open World

def metered (b : Books) : Metered := ⟨b.world.sub, b.counters⟩

/-- Run a metered program; its answer, if it does not panic, goes to the caller. -/
def call {α : Type} (b : Books) (m : Prog Turn Metered α) (env : List Turn)
    (got : α → World → World) : Books :=
  match m b.metered env with
  | (some a, t, _) => ⟨got a { b.world with sub := t.sub }, t.counters⟩
  | (none, t, _) => ⟨{ b.world with sub := t.sub }, t.counters⟩

def giveUp (b : Books) (objects runs : Multiset (Nat × Nat)) : Books :=
  { b with world := { b.world with objects := b.world.objects - objects, runs := b.world.runs - runs } }

/-- The books after a call by the thread with this shard id, charged on this CPU. -/
def after (b : Books) (thread cpu : Nat) (env : List Turn) : Op → Books
  | .allocClass cls => b.call (Metered.allocClass cls thread cpu) env (gainObject cls)
  | .alloc size =>
      b.call (Metered.alloc size thread cpu) env <|
        match classFor size with
        | some cls => gainObject cls
        | none => gainRun size
  | .allocLarge size => b.call (Metered.allocLarge size cpu) env (gainRun size)
  | .refillBatch cls room =>
      b.call (Metered.refillBatch cls thread room cpu) env fun objs w =>
        { w with objects := ofClass cls objs + w.objects }
  | .deallocClass p cls =>
      (b.giveUp {(p, cls)} 0).call (Metered.deallocClass p cls thread cpu) env fun _ => id
  | .deallocClassBatch ptrs cls =>
      (b.giveUp (ofClass cls ptrs) 0).call (Metered.deallocClassBatch ptrs cls thread cpu) env fun _ => id
  | .deallocObject p cls =>
      (b.giveUp {(p, cls)} 0).call (Metered.deallocByPtr p thread cpu) env fun _ => id
  | .deallocRun p size =>
      (b.giveUp 0 {(p, size)}).call (Metered.deallocByPtr p thread cpu) env fun _ => id
  | .deallocForeign p => b.call (Metered.deallocByPtr p thread cpu) env fun _ => id
  | .reclaimEmptySpans maxPerLock =>
      b.call (Metered.lift (SubHeap.reclaimEmptySpans maxPerLock)) env fun _ => id
  | .rebalanceCapacity victim cls count =>
      b.call (Metered.lift (SubHeap.rebalanceCapacity victim cls count)) env fun _ => id

inductive Step (admitted : Nat → Op → Prop) (b : Books) : Books → Prop where
  | call (thread cpu : Nat) (env : List Turn) (op : Op) : b.world.Legal op → admitted thread op →
      Step admitted b (b.after thread cpu env op)

def start (c : Config) : Books := ⟨World.start c, .new c.numCpus⟩

def Reached (c : Config) (admitted : Nat → Op → Prop) : Books → Prop :=
  Reachable (· = start c) (Step admitted)

/-- Runs where every carve for one object larger than a span got all the spans it asked
    for. -/
def ReachedWhole (c : Config) (admitted : Nat → Op → Prop) : Books → Prop :=
  Reachable (· = start c) fun b b' => Step admitted b b' ∧ b'.world.sub.clipped = false

/-! ## The world is the sub-heap's -/

variable {b : Books} {α : Type} {m : Prog Turn SubHeap α} {env : List Turn} {got : α → World → World}
  {charge : SubHeap → α → PerCpuCounters → PerCpuCounters} {thread cpu : Nat}

theorem charging_world : (b.call (Metered.charging m charge) env got).world = b.world.call m env got := by
  simp only [call, World.call, Metered.charging, metered]
  rcases m b.world.sub env with ⟨_ | a, s, env'⟩ <;> rfl

theorem charging_counters : (b.call (Metered.charging m charge) env got).counters =
    (match (m b.world.sub env).1 with
      | some a => charge b.world.sub a b.counters
      | none => b.counters) := by
  simp only [call, Metered.charging, metered]
  rcases m b.world.sub env with ⟨_ | a, s, env'⟩ <;> rfl

theorem lift_eq : Metered.lift m = Metered.charging m fun _ _ => id := by
  funext t env
  simp only [Metered.lift, Prog.within, Metered.charging]
  rcases m t.sub env with ⟨_ | a, s, env'⟩ <;> rfl

/-- Books are kept beside the world and do not change its course. -/
theorem after_world (b : Books) (thread cpu : Nat) (env : List Turn) (op : Op) :
    (b.after thread cpu env op).world = b.world.after thread env op := by
  cases op with
  | allocClass cls =>
      rw [after, Metered.allocClass_eq, charging_world]
      rfl
  | alloc size =>
      rw [after, World.after, Metered.alloc, SubHeap.alloc]
      cases classFor size with
      | some cls => 
          dsimp only
          rw [Metered.allocClass_eq, charging_world]
      | none => 
          dsimp only
          rw [Metered.allocLarge_eq, charging_world]
  | allocLarge size =>
      rw [after, Metered.allocLarge_eq, charging_world]
      rfl
  | refillBatch cls room =>
      rw [after, Metered.refillBatch_eq, charging_world]
      rfl
  | deallocClass p cls =>
      rw [after, Metered.deallocClass_eq, charging_world, World.after]
      simp [giveUp, Multiset.sub_singleton]
  | deallocClassBatch ptrs cls =>
      rw [after, Metered.deallocClassBatch_eq, charging_world, World.after]
      simp [giveUp]
  | deallocObject p cls =>
      rw [after, Metered.deallocByPtr_eq, charging_world, World.after]
      simp [giveUp, Multiset.sub_singleton]
  | deallocRun p size =>
      rw [after, Metered.deallocByPtr_eq, charging_world, World.after]
      simp [giveUp, Multiset.sub_singleton]
  | deallocForeign p =>
      rw [after, Metered.deallocByPtr_eq, charging_world]
      rfl
  | reclaimEmptySpans maxPerLock =>
      rw [after, lift_eq, charging_world]
      rfl
  | rebalanceCapacity victim cls count =>
      rw [after, lift_eq, charging_world]
      rfl

/-! ## The books balance -/

/-- What callers hold, and its bytes. -/
def held (w : World) : Nat := w.objects.card + w.runs.card

def heldBytes (w : World) : Nat :=
  (w.objects.map fun x => sizeOfClass x.2).sum + (w.runs.map fun x => runBytes x.2).sum

/-- The sums agree with what callers hold, up to wrap-around. -/
structure Balanced (b : Books) : Prop where
  some : 0 < b.counters.len
  objs : b.counters.sumObjs = BitVec.ofInt 64 (held b.world)
  bytes : b.counters.sumBytes = BitVec.ofInt 64 (heldBytes b.world)

theorem Balanced.charged {b' : Books} {bytes objs : Int} (balanced : Balanced b)
    (charged : b.counters.Charged b'.counters bytes objs) (more : (held b'.world : Int) = held b.world + objs)
    (moreBytes : (heldBytes b'.world : Int) = heldBytes b.world + bytes) : Balanced b' where
  some := charged.len ▸ balanced.some
  objs := by rw [charged.objs, balanced.objs, more, BitVec.ofInt_add]
  bytes := by rw [charged.bytes, balanced.bytes, moreBytes, BitVec.ofInt_add]

theorem Balanced.same (balanced : Balanced b) (s : SubHeap) :
    Balanced ⟨{ b.world with sub := s }, b.counters⟩ :=
  ⟨balanced.some, balanced.objs, balanced.bytes⟩

/-- Balance after a call, from its answer and from its panic. -/
theorem call_balanced
    (answered : ∀ a s env', m b.world.sub env = (some a, s, env') →
      Balanced ⟨got a { b.world with sub := s }, charge b.world.sub a b.counters⟩)
    (panicked : ∀ s env', m b.world.sub env = (none, s, env') →
      Balanced ⟨{ b.world with sub := s }, b.counters⟩) :
    Balanced (b.call (Metered.charging m charge) env got) := by
  simp only [call, Metered.charging, metered]
  rcases outcome : m b.world.sub env with ⟨_ | a, s, env'⟩
  · exact panicked s env' outcome
  · exact answered a s env' outcome

theorem ofClass_card (cls : Nat) (objs : List Nat) : (ofClass cls objs).card = objs.length := by
  rw [ofClass, Multiset.coe_card, List.length_map]

theorem ofClass_bytes (cls : Nat) (objs : List Nat) :
    ((ofClass cls objs).map fun x => sizeOfClass x.2).sum = sizeOfClass cls * objs.length := by
  induction objs with
  | nil => rfl
  | cons p rest ih =>
      rw [ofClass_cons, Multiset.map_cons, Multiset.sum_cons, ih, List.length_cons, Nat.mul_succ,
        Nat.add_comm]

/-- Objects gained are charged. -/
theorem Balanced.gain {c : PerCpuCounters} {cls : Nat} (balanced : Balanced b) (objs : List Nat)
    (charged : b.counters.Charged c (sizeOfClass cls * objs.length) objs.length) (s : SubHeap) :
    Balanced ⟨{ b.world with sub := s, objects := ofClass cls objs + b.world.objects }, c⟩ := by
  apply balanced.charged charged
  · simp only [held, Multiset.card_add, ofClass_card]
    omega
  · simp only [heldBytes, Multiset.map_add, Multiset.sum_add, ofClass_bytes, Nat.cast_add, Nat.cast_mul]
    omega

/-- Objects given up are credited. -/
theorem Balanced.give {c : PerCpuCounters} {cls : Nat} {ptrs : List Nat} (balanced : Balanced b)
    (legal : ofClass cls ptrs ≤ b.world.objects)
    (charged : b.counters.Charged c (-sizeOfClass cls * ptrs.length) (-ptrs.length)) (s : SubHeap) :
    Balanced ⟨{ b.world with sub := s, objects := b.world.objects - ofClass cls ptrs }, c⟩ := by
  have all := add_tsub_cancel_of_le legal
  apply balanced.charged charged
  · have cards := congrArg Multiset.card all
    rw [Multiset.card_add, ofClass_card] at cards
    simp only [held]
    omega
  · have sums := congrArg (fun M : Multiset (Nat × Nat) => (M.map fun x => sizeOfClass x.2).sum) all
    simp only [Multiset.map_add, Multiset.sum_add, ofClass_bytes] at sums
    rw [neg_mul, ← Nat.cast_mul]
    simp only [heldBytes]
    omega

theorem chargeMany_charged (some : 0 < b.counters.len) (cls cpu : Nat) (objs : List Nat) :
    b.counters.Charged (Metered.chargeMany cls cpu objs b.counters) (sizeOfClass cls * objs.length)
      objs.length := by
  rw [Metered.chargeMany]
  cases objs with
  | nil =>
      rw [if_neg (by simp)]
      exact ⟨rfl, by simp, by simp⟩
  | cons p rest =>
      rw [if_pos (by simp)]
      exact PerCpuCounters.addLocal_charged some ..

theorem creditMany_charged (some : 0 < b.counters.len) (cls cpu : Nat) (ptrs : List Nat) :
    b.counters.Charged (Metered.creditMany cls cpu ptrs b.counters) (-sizeOfClass cls * ptrs.length)
      (-ptrs.length) := by
  rw [Metered.creditMany]
  cases ptrs with
  | nil =>
      rw [if_neg (by simp)]
      exact ⟨rfl, by simp, by simp⟩
  | cons p rest =>
      rw [if_pos (by simp)]
      exact PerCpuCounters.addLocal_charged some ..

theorem chargeObject_charged (some : 0 < b.counters.len) (cls cpu : Nat) (r : Option Nat) :
    b.counters.Charged (Metered.chargeObject cls cpu r b.counters) (sizeOfClass cls * r.toList.length)
      r.toList.length := by
  cases r with
  | none => exact ⟨rfl, by simp [Metered.chargeObject], by simp [Metered.chargeObject]⟩
  | some p =>
      have charged := PerCpuCounters.addLocal_charged some cpu (sizeOfClass cls) 1
      simpa [Metered.chargeObject] using charged

theorem Balanced.allocClass (balanced : Balanced b) (cls : Nat) :
    Balanced (b.call (Metered.allocClass cls thread cpu) env (gainObject cls)) := by
  rw [Metered.allocClass_eq]
  apply call_balanced
  · intro r s env' _
    exact balanced.gain r.toList (chargeObject_charged balanced.some cls cpu r) s
  · intro s env' _
    exact balanced.same s

theorem Balanced.allocLarge (balanced : Balanced b) (size : Nat) :
    Balanced (b.call (Metered.allocLarge size cpu) env (gainRun size)) := by
  rw [Metered.allocLarge_eq]
  apply call_balanced
  · intro r s env' _
    cases r with
    | none => simpa [gainRun, Metered.chargeRun] using balanced.same s
    | some p =>
        apply balanced.charged (PerCpuCounters.addRemote_charged balanced.some _ (runBytes size) 1)
        · simp only [gainRun, held, Option.toList_some, List.map_singleton, Multiset.coe_singleton,
            Multiset.card_add, Multiset.card_singleton]
          omega
        · simp only [gainRun, heldBytes, Option.toList_some, List.map_singleton,
            Multiset.coe_singleton, Multiset.map_add, Multiset.map_singleton, Multiset.sum_add,
            Multiset.sum_singleton]
          omega
  · intro s env' _
    exact balanced.same s

/-- A free that comes back from every state of a kind does so from this one. -/
theorem returned {P : SubHeap → Prop} {Q : α → SubHeap → Prop} {s s' : SubHeap} {env' : List Turn}
    (never : Triple P m Q (fun _ => False)) (pre : P s) (panic : m s env = (none, s', env')) : False := by
  have ends := never s env pre
  rw [panic] at ends
  exact ends

variable {g : Geometry} {role : Nat → Role} {W : List (Nat × Nat)}

/-- A free of objects by a program that takes them back and never panics. -/
theorem Balanced.free {m : Prog Turn SubHeap α} {cls : Nat} {ptrs : List Nat} (balanced : Balanced b)
    {f : SubHeap → PerCpuCounters → PerCpuCounters} (legal : ofClass cls ptrs ≤ b.world.objects)
    (charged : b.counters.Charged (f b.world.sub b.counters) (-sizeOfClass cls * ptrs.length)
      (-ptrs.length))
    (never : ∀ s' env', m b.world.sub env ≠ (none, s', env')) :
    Balanced ((b.giveUp (ofClass cls ptrs) 0).call (Metered.charging m fun s _ => f s) env
      fun _ => id) := by
  apply call_balanced
  · intro _ s env' _
    have given := balanced.give legal charged s
    simpa only [giveUp, tsub_zero, id] using given
  · intro s env' panic
    exact (never s env' panic).elim

/-- A run freed by its address is credited by the length it was charged for. -/
theorem Balanced.deallocRun {p size : Nat} (balanced : Balanced b)
    (ledger : b.world.sub.Ledger .tags g role b.world.objects b.world.records W)
    (settled : ∀ k, role k ≠ .claimed) (whole : b.world.sub.clipped = false)
    (small : spanCount size < 2 ^ 32) (legal : (p, size) ∈ b.world.runs) :
    Balanced (b.after thread cpu env (.deallocRun p size)) := by
  have split : b.world.records = (p, spanCount size) ::ₘ
      (b.world.runs.erase (p, size)).map fun x => (x.1, wrap32 (spanCount x.2)) := by
    conv_lhs => rw [records, ← Multiset.cons_erase legal, Multiset.map_cons]
    rw [wrap32_small small]
  rw [split] at ledger
  obtain ⟨h, place, -⟩ := ledger.larges.recorded _ (Multiset.mem_cons_self ..)
  dsimp only at place
  subst place
  obtain ⟨cell, pos, fits, -⟩ := ledger.run
  have found := (ledger.lookup_run settled).resolve_left fun lost => lost.1 Trust.tags_tagged
  have inside : h < b.world.sub.large.runSpans.len := by
    rw [ledger.stock.grid.runs]
    omega
  have credited : b.counters.Charged
      (Metered.creditPtr (g.base + h * spanBytes) cpu b.world.sub b.counters) (-runBytes size) (-1) := by
    rw [Metered.creditPtr, found]
    dsimp only
    rw [if_pos rfl, Metered.creditRun, ledger.stock.grid.spanIndex, Slice.get?_inside inside, cell,
      Option.getD_some, if_neg (by omega), ← record_bytes small, wrap32_small small]
    exact PerCpuCounters.addRemote_charged balanced.some ..
  rw [after, Metered.deallocByPtr_eq]
  apply call_balanced
  · intro _ s env' _
    apply balanced.charged credited
    · have card := Multiset.card_erase_add_one legal
      simp only [giveUp, held, id, tsub_zero, Multiset.sub_singleton]
      omega
    · have sum := Multiset.sum_map_erase (f := fun x : Nat × Nat => runBytes x.2) legal
      dsimp only at sum
      simp only [giveUp, heldBytes, id, tsub_zero, Multiset.sub_singleton]
      omega
  · intro s env' panic
    rw [show (b.giveUp 0 {(g.base + h * spanBytes, size)}).world.sub = b.world.sub from rfl,
      deallocByPtr_large found] at panic
    have never : Triple (· = b.world.sub) (deallocLarge (g.base + h * spanBytes)) _ (fun _ => False) :=
      (deallocLarge_spec ledger settled).relax fun s' panic => by
      have healthy := ledger.healthy Trust.tags_tagged whole
      rw [healthy] at panic
      exact absurd panic.2 (by decide)
    exact (returned (never.bind (R := fun _ _ => True) fun _ => Triple.ret true fun _ _ => trivial)
      rfl panic).elim

theorem Balanced.step {op : Op} (balanced : Balanced b)
    (ledger : b.world.sub.Ledger .tags g role b.world.objects b.world.records W)
    (settled : ∀ k, role k ≠ .claimed) (whole : b.world.sub.clipped = false)
    (small : ∀ x ∈ b.world.runs, spanCount x.2 < 2 ^ 32) (legal : b.world.Legal op) :
    Balanced (b.after thread cpu env op) := by
  cases op with
  | allocClass cls => exact balanced.allocClass cls
  | alloc size =>
      rw [after, Metered.alloc]
      cases classFor size with
      | some cls => exact balanced.allocClass cls
      | none => exact balanced.allocLarge size
  | allocLarge size => exact balanced.allocLarge size
  | refillBatch cls room =>
      rw [after, Metered.refillBatch_eq]
      apply call_balanced
      · intro objs s env' _
        exact balanced.gain objs (chargeMany_charged balanced.some cls cpu objs) s
      · intro s env' _
        exact balanced.same s
  | deallocClass p cls =>
      have one : ofClass cls [p] ≤ b.world.objects := Multiset.singleton_le.mpr legal
      rw [after, Metered.deallocClass_eq]
      refine balanced.free one ?_ fun s' env' panic => ?_
      · simpa [Metered.creditObject] using
          PerCpuCounters.addLocal_charged balanced.some cpu (-sizeOfClass cls) (-1)
      · rw [← Multiset.cons_erase legal] at ledger
        exact returned (deallocClass_spec thread) ⟨role, ledger, settled⟩ panic
  | deallocClassBatch ptrs cls =>
      rw [after, Metered.deallocClassBatch_eq]
      refine balanced.free legal (creditMany_charged balanced.some cls cpu ptrs) fun s' env' panic => ?_
      rw [← add_tsub_cancel_of_le (show ofClass cls ptrs ≤ b.world.objects from legal)] at ledger
      exact returned (deallocClassBatch_spec ptrs thread) ⟨role, ledger, settled⟩ panic
  | deallocObject p cls =>
      have one : ofClass cls [p] ≤ b.world.objects := Multiset.singleton_le.mpr legal
      obtain ⟨home, found⟩ := ledger.lookup_class Trust.tags_tagged whole (ledger.slots.outside cls p (.inr legal))
      have isClass : IsClass cls := by
        obtain ⟨k, sh, i, active, -⟩ := ledger.slots.outside cls p (.inr legal)
        exact ledger.cells.isClass active
      have different : cls ≠ largeClass := by
        rintro rfl
        exact not_isClass_large isClass
      rw [after, Metered.deallocByPtr_eq]
      refine balanced.free one ?_ fun s' env' panic => ?_
      · rw [Metered.creditPtr, found]
        simpa [Metered.creditObject, different] using
          PerCpuCounters.addLocal_charged balanced.some cpu (-sizeOfClass cls) (-1)
      · rw [deallocByPtr_class isClass found] at panic
        rw [← Multiset.cons_erase legal] at ledger
        have never : Triple (Owned .tags g ((p, cls) ::ₘ b.world.objects.erase (p, cls)) b.world.records W)
            (SubHeap.deallocClass p cls thread) (fun _ _ => True) (fun _ => False) :=
          (deallocClass_spec thread).weaken fun _ _ _ => trivial
        exact returned (never.bind (R := fun _ _ => True) fun _ => Triple.ret true fun _ _ => trivial)
          ⟨role, ledger, settled⟩ panic
  | deallocRun p size => exact balanced.deallocRun ledger settled whole (small _ legal) legal
  | deallocForeign p =>
      have none : b.world.sub.spans.lookup p = none := by
        rw [SpanTable.lookup, show b.world.sub.spans.indexOf p = none from legal, Option.bind_none]
      rw [after, Metered.deallocByPtr_eq]
      apply call_balanced
      · intro _ s env' _
        simpa only [Metered.creditPtr, none, id] using balanced.same s
      · intro s env' _
        exact balanced.same s
  | reclaimEmptySpans maxPerLock =>
      rw [after, lift_eq]
      exact call_balanced (fun _ s _ _ => balanced.same s) fun s _ _ => balanced.same s
  | rebalanceCapacity victim cls count =>
      rw [after, lift_eq]
      exact call_balanced (fun _ s _ _ => balanced.same s) fun s _ _ => balanced.same s

/-! ## Totals -/

variable {c : Config} {admitted : Nat → Op → Prop}

theorem ReachedWhole.world (reached : ReachedWhole c admitted b) :
    World.ReachedWhole c admitted b.world := by
  induction reached with
  | start initial => exact .start (congrArg Books.world initial)
  | next _ taken ih =>
      obtain ⟨⟨thread, cpu, env, op, legal, allowed⟩, whole⟩ := taken
      rw [after_world] at whole ⊢
      exact ih.call thread env op legal allowed whole

theorem start_balanced (c : Config) : Balanced (start c) where
  some := Nat.lt_of_lt_of_le one_pos (le_max_right ..)
  objs := by
    simp [start, World.start, PerCpuCounters.new, PerCpuCounters.sumObjs, held]
  bytes := by
    simp [start, World.start, PerCpuCounters.new, PerCpuCounters.sumBytes, heldBytes]

theorem ReachedWhole.balanced (mapped : c.Mapped)
    (small : ∀ thread op, admitted thread op → spanCount op.size < 2 ^ 32)
    (reached : ReachedWhole c admitted b) : Balanced b := by
  induction reached with
  | start initial => exact initial ▸ start_balanced c
  | next before taken ih =>
      obtain ⟨⟨thread, cpu, env, op, legal, -⟩, -⟩ := taken
      have world := ReachedWhole.world before
      obtain ⟨whole, W, role, ledger, settled⟩ := world.ledger mapped small
      refine ih.step ledger settled whole (fun x held => ?_) legal
      obtain ⟨thread, op, allowed, same⟩ := world.reached.sizes held
      rw [same]
      exact small thread op allowed

/-- Ranges that are pairwise apart have no more bytes than what they all lie in. -/
theorem packed {ι : Type} {M : Multiset ι} (first len : ι → Nat) (lo hi : Nat)
    (pos : ∀ x ∈ M, 0 < len x) (inside : ∀ x ∈ M, lo ≤ first x ∧ first x + len x ≤ hi)
    (apart : ∀ x y, {x, y} ≤ M → Apart (first x) (len x) (first y) (len y)) :
    (M.map len).sum ≤ hi - lo ∧ M.card ≤ hi - lo := by
  have nodup : M.Nodup := by
    rw [Multiset.nodup_iff_le]
    intro x twice
    have := pos x (Multiset.mem_of_le twice (Multiset.mem_cons_self ..))
    have := apart x x twice
    unfold Apart at this
    omega
  have bytes : (M.map len).sum ≤ hi - lo := by
    let S : Finset ι := ⟨M, nodup⟩
    let range : ι → Finset Nat := fun x => Finset.Ico (first x) (first x + len x)
    have disjoint : (S : Set ι).PairwiseDisjoint range := by
      intro x left y right different
      have pair : {x, y} ≤ M := by
        rw [Multiset.le_iff_subset (by simpa using different)]
        simpa using ⟨left, right⟩
      have := apart x y pair
      unfold Apart at this
      rw [Function.onFun, Finset.disjoint_left]
      intro a here there
      simp only [range, Finset.mem_Ico] at here there
      omega
    classical
    have within : S.biUnion range ⊆ Finset.Ico lo hi := by
      intro a member
      obtain ⟨x, listed, here⟩ := Finset.mem_biUnion.mp member
      have := inside x listed
      simp only [range, Finset.mem_Ico] at here ⊢
      omega
    calc (M.map len).sum = ∑ x ∈ S, (range x).card := by simp [S, range, Finset.sum]
      _ = (S.biUnion range).card := (Finset.card_biUnion disjoint).symm
      _ ≤ (Finset.Ico lo hi).card := Finset.card_le_card within
      _ = hi - lo := Nat.card_Ico lo hi
  refine ⟨bytes, le_trans ?_ bytes⟩
  have each : ∀ n ∈ M.map len, 1 ≤ n := by
    intro n member
    obtain ⟨x, listed, rfl⟩ := Multiset.mem_map.mp member
    exact pos x listed
  simpa using Multiset.card_nsmul_le_sum each

/-- What callers hold fits the arena. -/
theorem held_small {w : World} (mapped : c.Mapped)
    (small : ∀ thread op, admitted thread op → spanCount op.size < 2 ^ 32)
    (reached : World.ReachedWhole c admitted w) : held w < 2 ^ 63 ∧ heldBytes w < 2 ^ 63 := by
  obtain ⟨whole, W, role, ledger, -⟩ := reached.ledger mapped small
  have narrow : ∀ x ∈ w.runs, spanCount x.2 < 2 ^ 32 := by
    intro x held
    obtain ⟨thread, op, allowed, same⟩ := reached.reached.sizes held
    rw [same]
    exact small thread op allowed
  have disjoint := World.Disjoint.of_ledger ledger narrow
  have grid := ledger.stock.grid
  have mapped := grid.mapped
  have objects := packed Prod.fst (fun x => sizeOfClass x.2) c.arenaBase
    (c.arenaBase + w.sub.spans.len) (M := w.objects)
    (by
      intro x held
      obtain ⟨k, sh, i, active, -⟩ := ledger.slots.outside x.2 x.1 (.inr held)
      exact (ledger.cells.isClass active).size_pos)
    (by
      intro x held
      obtain ⟨⟨sh, h, -, low, -⟩, high⟩ := Claimed.of_ledger ledger whole held
      rw [grid.arena] at low
      exact ⟨(Nat.le_add_right ..).trans low, high⟩) disjoint.objects
  have runs := packed Prod.fst (fun x => runBytes x.2) c.arenaBase
    (c.arenaBase + w.sub.spans.numSpans * spanBytes) (M := w.runs)
    (by
      intro x held
      rw [← record_bytes (narrow x held), wrap32_small (narrow x held)]
      exact Nat.mul_pos (spanCount_pos _) (by decide))
    (by
      intro x held
      have recorded : (x.1, wrap32 (spanCount x.2)) ∈ w.records := Multiset.mem_map_of_mem _ held
      obtain ⟨h, place, some, cell⟩ := ledger.larges.recorded _ recorded
      dsimp only at place some cell
      have fits := (ledger.cells.runs h (by omega)).1
      have bytes := Nat.mul_le_mul_right spanBytes fits
      rw [cell, Nat.add_mul, record_bytes (narrow x held)] at bytes
      rw [show (c.geometry fun _ => True).base = c.arenaBase from rfl] at place
      omega) disjoint.runs
  have spans : w.sub.spans.numSpans * spanBytes ≤ w.sub.spans.len + spanBytes := by
    unfold SpanTable.numSpans spanBytes
    omega
  unfold held heldBytes
  unfold spanBytes at *
  omega

/-- Calls that move memory around and hand nothing over. -/
def Internal : Op → Prop
  | .reclaimEmptySpans _ | .rebalanceCapacity _ _ _ => True
  | _ => False

/-- Moving memory around charges nothing. -/
theorem after_counters {op : Op} (internal : Internal op) :
    (b.after thread cpu env op).counters = b.counters := by
  cases op with
  | reclaimEmptySpans maxPerLock =>
      rw [after, lift_eq, charging_counters]
      split <;> rfl
  | rebalanceCapacity victim cls count =>
      rw [after, lift_eq, charging_counters]
      split <;> rfl
  | _ => exact internal.elim

/-- Live accounting is exact as long as no carve is clipped. -/
theorem live_exact (mapped : c.Mapped) (reached : ReachedWhole c (fun _ op => op.size < 2 ^ 47) b) :
    b.metered.liveObjects = held b.world ∧ b.metered.liveBytes = heldBytes b.world ∧
      ∀ thread cpu env op, Internal op → (b.after thread cpu env op).counters = b.counters := by
  have small : ∀ (thread : Nat) (op : Op), op.size < 2 ^ 47 → spanCount op.size < 2 ^ 32 := by
    intro thread op bound
    unfold spanCount spanBytes
    omega
  have balanced := reached.balanced mapped small
  obtain ⟨count, bytes⟩ := held_small mapped small reached.world
  refine ⟨?_, ?_, fun _ _ _ _ => after_counters⟩
  · rw [Metered.liveObjects, PerCpuCounters.totalObjs, metered, balanced.objs,
      PerCpuCounters.total_exact count]
  · rw [Metered.liveBytes, PerCpuCounters.totalBytes, metered, balanced.bytes,
      PerCpuCounters.total_exact bytes]

/-- An object and a large run, on CPUs past the only cell. -/
theorem live_exact_outstanding :
    let b := ((start fiveSpans).after 0 7 [] (.allocClass 44)).after 1 9 [] (.allocLarge 65536)
    held b.world = 2 ∧ heldBytes b.world = 131072 ∧ b.metered.liveObjects = held b.world ∧
      b.metered.liveBytes = heldBytes b.world := by
  intro b
  have run : ((start fiveSpans).after 0 7 [] (.allocClass 44)).world.sub.clipped = false ∧
      b.world.sub.clipped = false ∧ held b.world = 2 ∧ heldBytes b.world = 131072 := by
    decide +kernel
  obtain ⟨whole, whole', count, bytes⟩ := run
  have started : ReachedWhole fiveSpans (fun _ op => op.size < 2 ^ 47) (start fiveSpans) := .start rfl
  have taken : ReachedWhole fiveSpans (fun _ op => op.size < 2 ^ 47)
      ((start fiveSpans).after 0 7 [] (.allocClass 44)) :=
    started.next ⟨.call 0 7 [] (.allocClass 44) ⟨by decide, by decide⟩ (by decide), whole⟩
  have reached : ReachedWhole fiveSpans (fun _ op => op.size < 2 ^ 47) b :=
    taken.next ⟨.call 1 9 [] (.allocLarge 65536) trivial (by decide), whole'⟩
  have exact := live_exact fiveSpans_mapped reached
  exact ⟨count, bytes, exact.1, exact.2.1⟩

/-- An arena of two spans. -/
def twoSpans : Config := ⟨4096, 2 * 65536, 1, some 3, 8⟩

theorem twoSpans_mapped : twoSpans.Mapped := ⟨⟨by decide, by decide⟩, by decide⟩

theorem Reached.call (reached : Reached c admitted b) (thread cpu : Nat) (env : List Turn) (op : Op)
    (legal : b.world.Legal op) (allowed : admitted thread op) :
    Reached c admitted (b.after thread cpu env op) :=
  .next reached (.call thread cpu env op legal allowed)

/-! A run, then an object of 96 KiB in the one span left. The object comes back from
another thread, its span is swept into the pool past the end of the arena, and the panic
poisons the mutex; freeing the run then panics before it is credited. -/

def overcarved : Books :=
  ((start twoSpans).after 0 0 [] (.allocLarge 65536)).after 0 0 [] (.allocClass 45)

def poisoned : Books :=
  (overcarved.after 1 0 [] (.deallocClass (twoSpans.arenaBase + 65536) 45)).after 1 0 []
    (.reclaimEmptySpans 1)

def miscounted : Books := poisoned.after 0 0 [] (.deallocRun twoSpans.arenaBase 65536)

theorem miscounted_run : overcarved.world.Legal (.deallocClass (twoSpans.arenaBase + 65536) 45) ∧
    poisoned.world.Legal (.deallocRun twoSpans.arenaBase 65536) ∧ held miscounted.world = 0 ∧
    miscounted.metered.liveObjects = 1 := by
  decide +kernel

attribute [irreducible] overcarved poisoned miscounted

theorem live_miscounted : twoSpans.Mapped ∧ Reached twoSpans (fun _ op => op.size < 2 ^ 47) miscounted ∧
    held miscounted.world = 0 ∧ miscounted.metered.liveObjects = 1 := by
  obtain ⟨object, run, none, one⟩ := miscounted_run
  have started : Reached twoSpans (fun _ op => op.size < 2 ^ 47) (start twoSpans) := .start rfl
  have clipped : Reached twoSpans (fun _ op => op.size < 2 ^ 47) overcarved := by
    unfold overcarved
    have granted := started.call 0 0 [] (.allocLarge 65536) trivial (by decide)
    exact granted.call 0 0 [] (.allocClass 45) ⟨by decide, by decide⟩ (by decide)
  have swept : Reached twoSpans (fun _ op => op.size < 2 ^ 47) poisoned := by
    unfold poisoned
    have freed := clipped.call 1 0 [] (.deallocClass (twoSpans.arenaBase + 65536) 45) object (by decide)
    exact freed.call 1 0 [] (.reclaimEmptySpans 1) trivial (by decide)
  refine ⟨twoSpans_mapped, ?_, none, one⟩
  unfold miscounted
  exact swept.call 0 0 [] (.deallocRun twoSpans.arenaBase 65536) run (by decide)

end Books

end SubHeap

end Toccata
