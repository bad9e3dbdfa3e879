import Toccata.Foundations.Word
import Toccata.Frame
import Mathlib.Data.List.Perm.Basic

/-! # Split windows over a frame

A `FrameMut` is the only handle to its frame; frozen, it becomes a `FrameBuf`
window, and windows split into disjoint windows that share the frame by its
reference count. Handles live at places in memory, sixteen bytes each, and belong
to any threads. A drop is two steps, the release of the reference and the return
of the frame, and other handles may act in between.
-/

namespace Toccata

open Foundations

structure FrameMut where
  frame : Nat
  cap : Nat
deriving Repr, DecidableEq

/-- The window `[offset, offset + len)` of a frame, in `u16` fields. -/
structure FrameBuf where
  frame : Nat
  offset : Nat
  len : Nat
deriving Repr, DecidableEq

namespace FrameMut

/-- The handle over a frame just allocated. -/
def new (capacity frame : Nat) : FrameMut := ⟨frame, min capacity 65535⟩

def freeze (m : FrameMut) (len : Nat) : FrameBuf := ⟨m.frame, 0, min len m.cap⟩

end FrameMut

namespace FrameBuf

/-- The head that is returned, and what remains of the window; `none` is the
    failed assertion. -/
def splitTo (b : FrameBuf) (mid : Nat) : Option (FrameBuf × FrameBuf) :=
  if mid ≤ b.len then
    some (⟨b.frame, b.offset, mid⟩, ⟨b.frame, wrap16 (b.offset + mid), b.len - mid⟩)
  else none

def truncate (b : FrameBuf) (len : Nat) : FrameBuf := { b with len := min len b.len }

def advance (b : FrameBuf) (len : Nat) : Option FrameBuf :=
  if len ≤ b.len then some { b with offset := wrap16 (b.offset + len), len := b.len - len }
  else none

/-- Below the `u16` limit a split is the exact partition of the window. -/
theorem splitTo_eq {b : FrameBuf} (small : b.offset + b.len ≤ 65535) (mid : Nat) :
    b.splitTo mid = if mid ≤ b.len then
      some (⟨b.frame, b.offset, mid⟩, ⟨b.frame, b.offset + mid, b.len - mid⟩) else none := by
  unfold splitTo
  split
  · rw [wrap16_small (by omega)]
  · rfl

theorem advance_eq {b : FrameBuf} (small : b.offset + b.len ≤ 65535) (len : Nat) :
    b.advance len = if len ≤ b.len then some ⟨b.frame, b.offset + len, b.len - len⟩ else none := by
  unfold advance
  split
  · rw [wrap16_small (by omega)]
  · rfl

/-- No byte is in both windows. -/
def Apart (b c : FrameBuf) : Prop :=
  ∀ i, ¬ (b.offset ≤ i ∧ i < b.offset + b.len ∧ c.offset ≤ i ∧ i < c.offset + c.len)

end FrameBuf

inductive Handle where
  | unique (m : FrameMut)
  | window (b : FrameBuf)
deriving Repr, DecidableEq

namespace Handle

def frame : Handle → Nat
  | .unique m => m.frame
  | .window b => b.frame

/-- A unique handle shares its frame with no other. -/
def Apart : Handle → Handle → Prop
  | .window b, .window c => b.Apart c
  | _, _ => False

theorem Apart.symm {h k : Handle} (apart : h.Apart k) : k.Apart h := by
  cases h with
  | unique => exact apart.elim
  | window b =>
      cases k with
      | unique => exact apart.elim
      | window c =>
          rintro i ⟨inC, endC, inB, endB⟩
          exact apart i ⟨inB, endB, inC, endC⟩

/-- A window keeps clear of whatever the bytes it came from kept clear of. -/
theorem Apart.inside {b c : FrameBuf} {k : Handle} (start : b.offset ≤ c.offset)
    (stop : c.offset + c.len ≤ b.offset + b.len) (apart : (Handle.window b).Apart k) :
    (Handle.window c).Apart k := by
  cases k with
  | unique => exact apart.elim
  | window d =>
      rintro i ⟨inC, endC, inD, endD⟩
      exact apart i ⟨by omega, by omega, inD, endD⟩

def Fits (capacity : Nat) : Handle → Prop
  | .unique m => m.cap = min capacity 65535
  | .window b => b.offset + b.len ≤ min capacity 65535

end Handle

/-- Handles by the place they live at, the frames' counts, the frames the source
    can hand out, and those whose last handle has released them but not yet
    returned them. `allocs` and `recycles` count what happened to each frame. -/
structure Buffers where
  handles : List (Nat × Handle)
  refcount : Nat → RefCount
  pool : List Nat
  dying : List Nat
  allocs : Nat → Nat
  recycles : Nat → Nat

namespace Buffers

def bump (count : Nat → Nat) (f : Nat) : Nat → Nat :=
  Function.update count f (count f + 1)

def setCount (s : Buffers) (f : Nat) (r : RefCount) : Nat → RefCount :=
  Function.update s.refcount f r

def countHandles (handles : List (Nat × Handle)) (f : Nat) : Nat :=
  handles.countP fun x => x.2.frame = f

/-- How many handles to a frame are live. -/
def holders (s : Buffers) (f : Nat) : Nat := countHandles s.handles f

/-- A place that can take a handle: in memory, and not taken. -/
def Vacant (s : Buffers) (place : Nat) : Prop :=
  place < 2 ^ 60 ∧ place ∉ s.handles.map Prod.fst

/-- The drop's first step: one reference less; the frame is due for return if the
    handle says so. -/
def release (s : Buffers) (rest : List (Nat × Handle)) (f : Nat) (due : Bool) : Buffers :=
  { s with
    handles := rest
    refcount := s.setCount f (s.refcount f).release.1
    dying := if due then f :: s.dying else s.dying }

/-- One step of some thread. -/
inductive Step (capacity : Nat) (s : Buffers) : Buffers → Prop where
  | new (f place : Nat) : f ∈ s.pool → s.Vacant place →
      Step capacity s { s with
        handles := (place, .unique (FrameMut.new capacity f)) :: s.handles
        refcount := s.setCount f (FrameMeta.onAlloc (s.refcount f))
        pool := s.pool.erase f
        allocs := bump s.allocs f }
  | freeze (len : Nat) {place m rest} : s.handles.Perm ((place, .unique m) :: rest) →
      Step capacity s { s with handles := (place, .window (m.freeze len)) :: rest }
  | splitTo (mid place' : Nat) {place b rest head tail} :
      s.handles.Perm ((place, .window b) :: rest) → b.splitTo mid = some (head, tail) →
      s.Vacant place' →
      Step capacity s { s with
        handles := (place', .window head) :: (place, .window tail) :: rest
        refcount := s.setCount b.frame (s.refcount b.frame).retain }
  | truncate (len : Nat) {place b rest} : s.handles.Perm ((place, .window b) :: rest) →
      Step capacity s { s with handles := (place, .window (b.truncate len)) :: rest }
  | advance (len : Nat) {place b b' rest} : s.handles.Perm ((place, .window b) :: rest) →
      b.advance len = some b' →
      Step capacity s { s with handles := (place, .window b') :: rest }
  | panic (len : Nat) {place b} : (place, Handle.window b) ∈ s.handles →
      b.splitTo len = none ∨ b.advance len = none → Step capacity s s
  | move (place' : Nat) {place h rest} : s.handles.Perm ((place, h) :: rest) →
      s.Vacant place' → Step capacity s { s with handles := (place', h) :: rest }
  | dropMut {place m rest} : s.handles.Perm ((place, .unique m) :: rest) →
      Step capacity s (s.release rest m.frame true)
  | dropBuf {place b rest} : s.handles.Perm ((place, .window b) :: rest) →
      Step capacity s (s.release rest b.frame ((s.refcount b.frame).release.2 = .free))
  | recycle (f : Nat) : f ∈ s.dying →
      Step capacity s { s with
        dying := s.dying.erase f
        pool := f :: s.pool
        recycles := bump s.recycles f }

/-- Everything in the source, nothing handed out. -/
def fresh (frames : List Nat) : Buffers :=
  ⟨[], fun _ => FrameMeta.idle, frames, [], fun _ => 0, fun _ => 0⟩

inductive Reached (capacity : Nat) (frames : List Nat) : Buffers → Prop where
  | fresh : Reached capacity frames (fresh frames)
  | step {s s'} : Reached capacity frames s → Step capacity s s' → Reached capacity frames s'

/-! ## The invariant -/

/-- One for a frame with live handles. -/
def out (s : Buffers) (f : Nat) : Nat := if s.holders f = 0 then 0 else 1

/-- The books of one frame: its count is the number of its handles; it is with the
    source, dying or held, once in all; and what was allocated and not recycled is
    dying or held. -/
structure Accounts (frames : List Nat) (s : Buffers) (f : Nat) : Prop where
  counted : (s.refcount f).count = s.holders f
  whereabouts : s.pool.count f + s.dying.count f + s.out f = frames.count f
  balanced : s.allocs f = s.recycles f + s.dying.count f + s.out f

structure Sound (capacity : Nat) (frames : List Nat) (s : Buffers) : Prop where
  placed : (s.handles.map Prod.fst).Nodup
  resident : ∀ x ∈ s.handles, x.1 < 2 ^ 60
  fits : ∀ x ∈ s.handles, x.2.Fits capacity
  apart : s.handles.Pairwise fun x y => x.2.frame = y.2.frame → x.2.Apart y.2
  accounts : ∀ f, Accounts frames s f

variable {capacity : Nat} {frames : List Nat} {s s' : Buffers}

/-- A step that leaves a frame's numbers alone leaves its books in order. -/
theorem Accounts.same {f : Nat} (old : Accounts frames s f)
    (refcount : s'.refcount f = s.refcount f) (holders : s'.holders f = s.holders f)
    (pool : s'.pool.count f = s.pool.count f) (dying : s'.dying.count f = s.dying.count f)
    (allocs : s'.allocs f = s.allocs f) (recycles : s'.recycles f = s.recycles f) :
    Accounts frames s' f where
  counted := by rw [refcount, holders, old.counted]
  whereabouts := by rw [pool, dying, out, holders, ← out, old.whereabouts]
  balanced := by rw [allocs, recycles, dying, out, holders, ← out, old.balanced]

theorem countHandles_cons (x : Nat × Handle) (rest : List (Nat × Handle)) (f : Nat) :
    countHandles (x :: rest) f = countHandles rest f + if x.2.frame = f then 1 else 0 := by
  simp only [countHandles, List.countP_cons, decide_eq_true_eq]

theorem setCount_same (s : Buffers) (f : Nat) (r : RefCount) : s.setCount f r f = r :=
  Function.update_self ..

theorem setCount_other (s : Buffers) {f g : Nat} (r : RefCount) (different : f ≠ g) :
    s.setCount f r g = s.refcount g :=
  Function.update_of_ne (Ne.symm different) ..

theorem bump_same (count : Nat → Nat) (f : Nat) : bump count f f = count f + 1 :=
  Function.update_self ..

theorem bump_other (count : Nat → Nat) {f g : Nat} (different : f ≠ g) :
    bump count f g = count g :=
  Function.update_of_ne (Ne.symm different) ..

namespace Sound

/-- Handles occupy memory, so a count of them never wraps. -/
theorem holders_lt (sound : Sound capacity frames s) (f : Nat) : s.holders f < 2 ^ 61 := by
  have subset : s.handles.map Prod.fst ⊆ List.range (2 ^ 60) := by
    intro place member
    obtain ⟨x, inside, rfl⟩ := List.mem_map.mp member
    exact List.mem_range.mpr (sound.resident x inside)
  have bound := (sound.placed.subperm subset).length_le
  have le : s.holders f ≤ s.handles.length := List.countP_le_length
  simp only [List.length_map, List.length_range] at bound
  omega

theorem reorder (sound : Sound capacity frames s) {handles : List (Nat × Handle)}
    (same : s.handles.Perm handles) : Sound capacity frames { s with handles } where
  placed := (same.map _).nodup_iff.mp sound.placed
  resident x member := sound.resident x (same.mem_iff.mpr member)
  fits x member := sound.fits x (same.mem_iff.mpr member)
  apart := (same.pairwise_iff fun ap eq => (ap eq.symm).symm).mp sound.apart
  accounts f := (sound.accounts f).same rfl (same.countP_eq _).symm rfl rfl rfl rfl

/-- A handle changed in place, or moved, still over the same frame and inside the
    bytes it had. -/
theorem exchange {place : Nat} {h : Handle} {rest : List (Nat × Handle)}
    (sound : Sound capacity frames { s with handles := (place, h) :: rest }) (place' : Nat)
    (h' : Handle) (frame : h'.frame = h.frame) (fits : h'.Fits capacity)
    (inside : ∀ k : Handle, h.Apart k → h'.Apart k) (resident : place' < 2 ^ 60)
    (vacant : place' ∉ rest.map Prod.fst) :
    Sound capacity frames { s with handles := (place', h') :: rest } where
  placed := List.nodup_cons.mpr ⟨vacant, (List.nodup_cons.mp sound.placed).2⟩
  resident := List.forall_mem_cons.mpr ⟨resident, (List.forall_mem_cons.mp sound.resident).2⟩
  fits := List.forall_mem_cons.mpr ⟨fits, (List.forall_mem_cons.mp sound.fits).2⟩
  apart := by
    have old := List.pairwise_cons.mp sound.apart
    refine List.pairwise_cons.mpr ⟨fun y member eq => ?_, old.2⟩
    exact inside _ (old.1 y member (frame ▸ eq))
  accounts f := by
    refine (sound.accounts f).same rfl ?_ rfl rfl rfl rfl
    simp only [holders, countHandles_cons, frame]

theorem small {place : Nat} {b : FrameBuf} (sound : Sound capacity frames s)
    (member : (place, Handle.window b) ∈ s.handles) : b.offset + b.len ≤ 65535 := by
  have : b.offset + b.len ≤ min capacity 65535 := sound.fits _ member
  omega

/-- One more handle over a frame that is already out. -/
theorem share (sound : Sound capacity frames s) (place : Nat) (h : Handle)
    (fits : h.Fits capacity) (vacant : s.Vacant place)
    (apart : ∀ x ∈ s.handles, h.frame = x.2.frame → h.Apart x.2) (live : s.holders h.frame ≠ 0) :
    Sound capacity frames { s with
      handles := (place, h) :: s.handles
      refcount := s.setCount h.frame (s.refcount h.frame).retain } where
  placed := List.nodup_cons.mpr ⟨vacant.2, sound.placed⟩
  resident := List.forall_mem_cons.mpr ⟨vacant.1, sound.resident⟩
  fits := List.forall_mem_cons.mpr ⟨fits, sound.fits⟩
  apart := List.pairwise_cons.mpr ⟨apart, sound.apart⟩
  accounts f := by
    have old := sound.accounts f
    have bound := sound.holders_lt f
    by_cases same : h.frame = f
    · subst same
      obtain ⟨counted, whereabouts, balanced⟩ := old
      rw [out, if_neg live] at whereabouts balanced
      have more : countHandles ((place, h) :: s.handles) h.frame = s.holders h.frame + 1 := by
        rw [countHandles_cons, if_pos rfl, holders]
      refine ⟨?_, ?_, ?_⟩
      · simp only [holders] at counted bound more
        simp only [setCount_same, RefCount.retain, counted, holders, more]
        omega
      · simpa only [out, holders, more, Nat.add_eq_zero_iff, one_ne_zero, and_false, if_false]
          using whereabouts
      · simpa only [out, holders, more, Nat.add_eq_zero_iff, one_ne_zero, and_false, if_false]
          using balanced
    · refine old.same (setCount_other s _ same) ?_ rfl rfl rfl rfl
      simp only [holders, countHandles_cons, if_neg same, Nat.add_zero]

theorem split {place place' : Nat} {b head tail : FrameBuf} {mid : Nat}
    {rest : List (Nat × Handle)}
    (sound : Sound capacity frames { s with handles := (place, .window b) :: rest })
    (cut : b.splitTo mid = some (head, tail))
    (vacant : Vacant { s with handles := (place, .window b) :: rest } place') :
    Sound capacity frames { s with
      handles := (place', .window head) :: (place, .window tail) :: rest
      refcount := s.setCount b.frame (s.refcount b.frame).retain } := by
  have fit : b.offset + b.len ≤ min capacity 65535 := sound.fits _ (List.mem_cons_self ..)
  rw [FrameBuf.splitTo_eq (by omega)] at cut
  split at cut
  · rename_i within
    obtain ⟨rfl, rfl⟩ := Prod.mk.inj (Option.some.inj cut)
    have short := sound.exchange place (.window ⟨b.frame, b.offset + mid, b.len - mid⟩) rfl
      (by simp only [Handle.Fits]; omega)
      (fun k => Handle.Apart.inside (by simp) (by simp only; omega))
      (sound.resident _ (List.mem_cons_self ..)) (List.nodup_cons.mp sound.placed).1
    refine short.share place' (.window ⟨b.frame, b.offset, mid⟩) ?_ vacant ?_ ?_
    · simp only [Handle.Fits]
      omega
    · refine List.forall_mem_cons.mpr ⟨fun _ => ?_, fun x member same => ?_⟩
      · rintro i ⟨-, stop, start, -⟩
        simp only at stop start
        omega
      · exact Handle.Apart.inside (b := b) le_rfl (by simp only; omega)
          ((List.pairwise_cons.mp sound.apart).1 x member same)
    · simp [holders, countHandles_cons, Handle.frame]
  · cases cut

/-- The first handle over a frame taken from the source. -/
theorem opened (sound : Sound capacity frames s) (distinct : frames.Nodup) {f place : Nat}
    (free : f ∈ s.pool) (vacant : s.Vacant place) :
    Sound capacity frames { s with
      handles := (place, .unique (FrameMut.new capacity f)) :: s.handles
      refcount := s.setCount f (FrameMeta.onAlloc (s.refcount f))
      pool := s.pool.erase f
      allocs := bump s.allocs f } := by
  obtain ⟨-, whereabouts, balanced⟩ := sound.accounts f
  have once := List.nodup_iff_count_le_one.mp distinct f
  have here := List.count_pos_iff.mpr free
  have idle : s.holders f = 0 := by
    by_contra held
    rw [out, if_neg held] at whereabouts
    omega
  have nobody : ∀ x ∈ s.handles, x.2.frame ≠ f := by
    intro x member
    simpa only [decide_eq_true_eq] using List.countP_eq_zero.mp idle x member
  refine ⟨List.nodup_cons.mpr ⟨vacant.2, sound.placed⟩,
    List.forall_mem_cons.mpr ⟨vacant.1, sound.resident⟩,
    List.forall_mem_cons.mpr ⟨rfl, sound.fits⟩,
    List.pairwise_cons.mpr ⟨fun x member same => (nobody x member same.symm).elim, sound.apart⟩,
    fun g => ?_⟩
  by_cases same : f = g
  · subst same
    have one : countHandles ((place, .unique (FrameMut.new capacity f)) :: s.handles) f = 1 := by
      rw [countHandles_cons, ← holders, idle, Nat.zero_add]
      exact if_pos rfl
    rw [out, if_pos idle] at whereabouts balanced
    refine ⟨?_, ?_, ?_⟩
    · simp only [setCount_same, holders, one, FrameMeta.onAlloc]
    · simp only [out, holders, one, one_ne_zero, if_false, List.count_erase_self]
      omega
    · simp only [out, holders, one, one_ne_zero, if_false, bump_same]
      omega
  · refine (sound.accounts g).same (setCount_other s _ same) ?_
      (List.count_erase_of_ne (Ne.symm same)) rfl (bump_other _ same) rfl
    rw [holders, countHandles_cons]
    exact congrArg (countHandles s.handles g + ·) (if_neg same)

/-- A handle gone. The frame is due for return exactly when no other is left. -/
theorem released {place : Nat} {h : Handle} {rest : List (Nat × Handle)}
    (sound : Sound capacity frames { s with handles := (place, h) :: rest }) {due : Bool}
    (last : due = true ↔ countHandles rest h.frame = 0) :
    Sound capacity frames (s.release rest h.frame due) where
  placed := (List.nodup_cons.mp sound.placed).2
  resident := (List.forall_mem_cons.mp sound.resident).2
  fits := (List.forall_mem_cons.mp sound.fits).2
  apart := (List.pairwise_cons.mp sound.apart).2
  accounts f := by
    by_cases same : h.frame = f
    · subst same
      have bound := sound.holders_lt h.frame
      obtain ⟨counted, whereabouts, balanced⟩ := sound.accounts h.frame
      have was : countHandles ((place, h) :: rest) h.frame = countHandles rest h.frame + 1 := by
        rw [countHandles_cons, if_pos rfl]
      simp only [out, holders, was, Nat.add_eq_zero_iff, one_ne_zero, and_false, if_false]
        at bound counted whereabouts balanced
      have fewer : ((s.refcount h.frame).release.1).count = countHandles rest h.frame := by
        simp only [RefCount.release, counted]
        omega
      cases due with
      | true =>
          have none := last.mp rfl
          refine ⟨?_, ?_, ?_⟩
          · simpa only [release, setCount_same, holders] using fewer
          · simp only [release, if_true, out, holders, none, List.count_cons_self]
            omega
          · simp only [release, if_true, out, holders, none, List.count_cons_self]
            omega
      | false =>
          have some : countHandles rest h.frame ≠ 0 := fun none => by simpa using last.mpr none
          refine ⟨?_, ?_, ?_⟩
          · simpa only [release, setCount_same, holders] using fewer
          · simpa only [release, Bool.false_eq_true, if_false, out, holders, some] using whereabouts
          · simpa only [release, Bool.false_eq_true, if_false, out, holders, some] using balanced
    · refine (sound.accounts f).same (setCount_other s _ same) ?_ rfl ?_ rfl rfl
      · simp only [release, holders, countHandles_cons, if_neg same, Nat.add_zero]
      · cases due with
        | true => exact List.count_cons_of_ne same
        | false => rfl

/-- The frame of a finished drop back with the source. -/
theorem recycled (sound : Sound capacity frames s) {f : Nat} (due : f ∈ s.dying) :
    Sound capacity frames { s with
      dying := s.dying.erase f
      pool := f :: s.pool
      recycles := bump s.recycles f } where
  placed := sound.placed
  resident := sound.resident
  fits := sound.fits
  apart := sound.apart
  accounts g := by
    by_cases same : f = g
    · subst same
      have here := List.count_pos_iff.mpr due
      obtain ⟨counted, whereabouts, balanced⟩ := sound.accounts f
      refine ⟨counted, ?_, ?_⟩
      · show (f :: s.pool).count f + (s.dying.erase f).count f + s.out f = _
        rw [List.count_cons_self, List.count_erase_self]
        omega
      · show s.allocs f = bump s.recycles f f + (s.dying.erase f).count f + s.out f
        rw [bump_same, List.count_erase_self]
        omega
    · exact (sound.accounts g).same rfl rfl (List.count_cons_of_ne same)
        (List.count_erase_of_ne (Ne.symm same)) rfl (bump_other _ same)

/-- Over a unique handle's frame there is no other handle. -/
theorem alone {place : Nat} {m : FrameMut} {rest : List (Nat × Handle)}
    (sound : Sound capacity frames { s with handles := (place, .unique m) :: rest }) :
    countHandles rest m.frame = 0 := by
  refine List.countP_eq_zero.mpr fun x member => ?_
  simp only [decide_eq_true_eq]
  intro same
  exact (List.pairwise_cons.mp sound.apart).1 x member same.symm

/-- The atomic release answers `Free` exactly when no other handle is left. -/
theorem release_free {place : Nat} {h : Handle} {rest : List (Nat × Handle)}
    (sound : Sound capacity frames { s with handles := (place, h) :: rest }) :
    decide ((s.refcount h.frame).release.2 = .free) = true ↔ countHandles rest h.frame = 0 := by
  have counted : (s.refcount h.frame).count = countHandles ((place, h) :: rest) h.frame :=
    (sound.accounts h.frame).counted
  rw [countHandles_cons, if_pos rfl] at counted
  rw [decide_eq_true_eq, RefCount.release, counted]
  split <;> simp_all

theorem step (sound : Sound capacity frames s) (distinct : frames.Nodup)
    (taken : Step capacity s s') : Sound capacity frames s' := by
  cases taken with
  | new f place free vacant => exact sound.opened distinct free vacant
  | freeze len same =>
      have front := sound.reorder same
      have cap : _ = min capacity 65535 := front.fits _ (List.mem_cons_self ..)
      refine front.exchange _ _ rfl ?_ (fun k apart => apart.elim)
        (front.resident _ (List.mem_cons_self ..)) (List.nodup_cons.mp front.placed).1
      simp only [Handle.Fits, FrameMut.freeze]
      omega
  | splitTo mid place' same cut vacant =>
      refine (sound.reorder same).split cut ⟨vacant.1, fun taken => vacant.2 ?_⟩
      exact (same.map Prod.fst).mem_iff.mpr taken
  | truncate len same =>
      have front := sound.reorder same
      have fit : _ ≤ min capacity 65535 := front.fits _ (List.mem_cons_self ..)
      refine front.exchange _ _ rfl ?_ (fun k => Handle.Apart.inside le_rfl ?_)
        (front.resident _ (List.mem_cons_self ..)) (List.nodup_cons.mp front.placed).1
      · simp only [Handle.Fits, FrameBuf.truncate]
        omega
      · simp only [FrameBuf.truncate]
        omega
  | @advance len place b b' rest same done =>
      have front := sound.reorder same
      have fit : b.offset + b.len ≤ min capacity 65535 := front.fits _ (List.mem_cons_self ..)
      rw [FrameBuf.advance_eq (by omega)] at done
      split at done
      · cases done
        refine front.exchange _ _ rfl ?_ (fun k => Handle.Apart.inside (by simp) ?_)
          (front.resident _ (List.mem_cons_self ..)) (List.nodup_cons.mp front.placed).1
        · simp only [Handle.Fits]
          omega
        · simp only
          omega
      · cases done
  | panic => exact sound
  | move place' same vacant =>
      have front := sound.reorder same
      refine front.exchange place' _ rfl (front.fits _ (List.mem_cons_self ..)) (fun k apart => apart)
        vacant.1 fun taken => vacant.2 ?_
      exact (same.map Prod.fst).mem_iff.mpr (List.mem_cons_of_mem _ taken)
  | dropMut same =>
      have front := sound.reorder same
      exact front.released ⟨fun _ => front.alone, fun _ => rfl⟩
  | dropBuf same =>
      have front := sound.reorder same
      exact front.released front.release_free
  | recycle f due => exact sound.recycled due

end Sound

theorem fresh_sound (frames : List Nat) : Sound capacity frames (fresh frames) :=
  ⟨List.nodup_nil, by simp [fresh], by simp [fresh], List.Pairwise.nil,
    fun f => ⟨rfl, by simp [fresh, out, holders, countHandles], rfl⟩⟩

theorem Reached.sound (distinct : frames.Nodup) (reached : Reached capacity frames s) :
    Sound capacity frames s := by
  induction reached with
  | fresh => exact fresh_sound frames
  | step _ taken ih => exact ih.step distinct taken

/-! ## Recycling -/

/-- What a step does to the return of frames: it works on handles, opens a frame,
    or finishes a drop. -/
theorem Step.effect (taken : Step capacity s s') :
    (s'.pool = s.pool ∧ s'.recycles = s.recycles ∧ ∀ f, s.holders f ≤ s'.holders f + 1) ∨
    (s'.dying = s.dying ∧ s'.recycles = s.recycles ∧ ∀ f, s.holders f ≤ s'.holders f) ∨
    ∃ g ∈ s.dying, s'.handles = s.handles ∧ s'.dying = s.dying.erase g ∧
      s'.recycles = bump s.recycles g := by
  have fewer : ∀ {x : Nat × Handle} {rest : List (Nat × Handle)} (f : Nat),
      s.handles.Perm (x :: rest) → s.holders f ≤ countHandles rest f + 1 := by
    intro x rest f same
    rw [holders, countHandles, same.countP_eq, ← countHandles, countHandles_cons]
    split <;> omega
  have more : ∀ (x : Nat × Handle) (rest : List (Nat × Handle)) (f : Nat),
      countHandles rest f ≤ countHandles (x :: rest) f := by
    intro x rest f
    rw [countHandles_cons]
    omega
  cases taken with
  | new => exact .inr (.inl ⟨rfl, rfl, fun f => more _ _ f⟩)
  | freeze len same | truncate len same | advance len same | move _ same =>
      exact .inl ⟨rfl, rfl, fun f => (fewer f same).trans (Nat.succ_le_succ (more _ _ f))⟩
  | splitTo mid place same =>
      exact .inl ⟨rfl, rfl, fun f => (fewer f same).trans
        (Nat.succ_le_succ ((more _ _ f).trans (more _ _ f)))⟩
  | panic => exact .inl ⟨rfl, rfl, fun f => Nat.le_succ _⟩
  | dropMut same | dropBuf same => exact .inl ⟨rfl, rfl, fun f => fewer f same⟩
  | recycle f due => exact .inr (.inr ⟨f, due, rfl, rfl, rfl⟩)

/-- What holds of every reachable state, and of the step taken next from it. -/
structure Disciplined (capacity : Nat) (s : Buffers) : Prop where
  bounded : ∀ place b, (place, Handle.window b) ∈ s.handles →
    b.offset + b.len ≤ min capacity 65535
  disjoint : ∀ place place' b c, (place, Handle.window b) ∈ s.handles →
    (place', Handle.window c) ∈ s.handles → place ≠ place' → b.frame = c.frame → b.Apart c
  counted : ∀ f, (s.refcount f).count = s.holders f
  splits : ∀ place b mid, (place, Handle.window b) ∈ s.handles →
    b.splitTo mid = if mid ≤ b.len then
      some (⟨b.frame, b.offset, mid⟩, ⟨b.frame, b.offset + mid, b.len - mid⟩) else none
  advances : ∀ place b len, (place, Handle.window b) ∈ s.handles →
    b.advance len = if len ≤ b.len then some ⟨b.frame, b.offset + len, b.len - len⟩ else none
  once : ∀ f, s.allocs f = s.recycles f + s.dying.count f + s.out f ∧
    s.dying.count f + s.out f ≤ 1
  lastDrop : ∀ s', Step capacity s s' → ∀ f, s.holders f ≠ 0 → s'.holders f = 0 →
    s.holders f = 1 ∧ s'.dying.count f = 1
  due : ∀ s', Step capacity s s' → ∀ f, s.dying.count f < s'.dying.count f →
    s.holders f = 1 ∧ s'.holders f = 0
  returned : ∀ s', Step capacity s s' → ∀ f, s'.recycles f ≠ s.recycles f →
    f ∈ s.dying ∧ s.holders f = 0 ∧ s'.recycles f = s.recycles f + 1

theorem Sound.once (sound : Sound capacity frames s) (distinct : frames.Nodup) (f : Nat) :
    s.dying.count f + s.out f ≤ 1 := by
  have := List.nodup_iff_count_le_one.mp distinct f
  have := (sound.accounts f).whereabouts
  omega

/-- While the source keeps its frames, a frame changes between held and dying. -/
theorem Sound.handover (sound : Sound capacity frames s) (sound' : Sound capacity frames s')
    (pool : s'.pool = s.pool) (f : Nat) :
    s'.dying.count f + s'.out f = s.dying.count f + s.out f := by
  have before := (sound.accounts f).whereabouts
  have after := (sound'.accounts f).whereabouts
  rw [pool] at after
  omega

theorem out_le (s : Buffers) (f : Nat) : s.out f = 0 ∧ s.holders f = 0 ∨
    s.out f = 1 ∧ s.holders f ≠ 0 := by
  unfold out
  split <;> omega

/-- In every state that any interleaving reaches, windows stay within their frame
    and apart, the count is the number of handles, and each allocation is returned
    once, after its last handle. -/
theorem reached_disciplined (distinct : frames.Nodup) (reached : Reached capacity frames s) :
    Disciplined capacity s := by
  have sound := reached.sound distinct
  have once := sound.once distinct
  refine ⟨fun place b member => sound.fits _ member, ?_, fun f => (sound.accounts f).counted,
    fun place b mid member => FrameBuf.splitTo_eq (sound.small member) mid,
    fun place b len member => FrameBuf.advance_eq (sound.small member) len,
    fun f => ⟨(sound.accounts f).balanced, once f⟩, ?_, ?_, ?_⟩
  · intro place place' b c inB inC different same
    have symmetric : Std.Symm fun x y : Nat × Handle => x.2.frame = y.2.frame → x.2.Apart y.2 :=
      ⟨fun x y ap eq => (ap eq.symm).symm⟩
    exact sound.apart.forall inB inC (fun eq => different (congrArg Prod.fst eq)) same
  · intro s' taken f held gone
    have sound' := sound.step distinct taken
    have before := out_le s f
    have after := out_le s' f
    have bound := once f
    rcases taken.effect with ⟨pool, -, fewer⟩ | ⟨-, -, more⟩ | ⟨g, -, handles, -, -⟩
    · have := sound.handover sound' pool f
      have := fewer f
      omega
    · have := more f
      omega
    · rw [holders, handles, ← holders] at gone
      omega
  · intro s' taken f grows
    have sound' := sound.step distinct taken
    have before := out_le s f
    have after := out_le s' f
    have bound := sound'.once distinct f
    rcases taken.effect with ⟨pool, -, fewer⟩ | ⟨dying, -, -⟩ | ⟨g, -, -, dying, -⟩
    · have := sound.handover sound' pool f
      have := fewer f
      omega
    · rw [dying] at grows
      omega
    · rw [dying, List.count_erase] at grows
      omega
  · intro s' taken f changed
    rcases taken.effect with ⟨-, same, -⟩ | ⟨-, same, -⟩ | ⟨g, member, -, -, bumped⟩
    · exact (changed (congrFun same f)).elim
    · exact (changed (congrFun same f)).elim
    · by_cases here : g = f
      · subst here
        have count := List.count_pos_iff.mpr member
        have bound := once g
        have := out_le s g
        exact ⟨member, by omega, by rw [bumped, bump_same]⟩
      · exact (changed (by rw [bumped, bump_other _ here])).elim

/-- One frame, frozen, split and dropped window by window, is back once. -/
theorem reached_disciplined_split :
    ∃ s, Reached 2048 [4096] s ∧ s.recycles 4096 = 1 ∧ s.allocs 4096 = 1 ∧ s.pool = [4096] ∧
      Disciplined 2048 s := by
  have h₀ : Reached 2048 [4096] _ := .fresh
  have h₁ := h₀.step (.new 4096 0 (by decide) ⟨by decide, by decide⟩)
  have h₂ := h₁.step (.freeze 100 (.refl _))
  have h₃ := h₂.step (.splitTo 40 1 (.refl _) rfl ⟨by decide, by decide⟩)
  have h₄ := h₃.step (.dropBuf (.refl _))
  have h₅ := h₄.step (.dropBuf (.refl _))
  have h₆ := h₅.step (.recycle 4096 (by decide))
  exact ⟨_, h₆, rfl, rfl, rfl, reached_disciplined (by decide) h₆⟩

end Buffers

end Toccata
