import Toccata.Frame
import Mathlib.Data.List.Perm.Basic

/-! # Typed handles

An `Owned` is the only handle to the value in its frame; a `Shared` is one of
several, counted by the frame's reference count. The last of them to go runs the
value's destructor and returns the frame, where the next allocation stores another
value and resets the count. Retain and release are single steps, the destructor and
the return of the frame are steps of their own, and any other handle may act in
between. Values are numbered as they are stored; a handle is tagged with the value it
was made for, which the code does not see.
-/

namespace Toccata

namespace Typed

inductive Kind where
  | owned
  | shared
deriving Repr, DecidableEq

structure Handle where
  kind : Kind
  frame : Nat
  value : Nat
deriving Repr, DecidableEq

/-- How far a drop has come, by what it does next. An `Owned` destroys, releases and
    recycles; the last `Shared` has released already. -/
inductive Stage where
  | ownedDestroy
  | ownedRelease
  | ownedRecycle
  | sharedDestroy
  | sharedRecycle
deriving Repr, DecidableEq

/-- Whether the handle being dropped still counts. -/
def Stage.holds : Stage → Bool
  | .ownedDestroy | .ownedRelease => true
  | _ => false

structure Drop where
  thread : Nat
  frame : Nat
  value : Nat
  stage : Stage
deriving Repr, DecidableEq

/-- What happens to a value, and by which thread. -/
inductive Event where
  | stored
  | cloned
  | released (thread : Nat) (answer : Reclaim)
  | destroyed (thread : Nat)
  | recycled (thread : Nat)
deriving Repr, DecidableEq

/-- What a drop has done to its value. -/
def Drop.done (d : Drop) : List Event :=
  match d.stage with
  | .ownedDestroy => []
  | .ownedRelease => [.destroyed d.thread]
  | .ownedRecycle => [.destroyed d.thread, .released d.thread .free]
  | .sharedDestroy => [.released d.thread .free]
  | .sharedRecycle => [.released d.thread .free, .destroyed d.thread]

/-- Handles by the place they live at, the frames' counts and what is stored in them,
    the frames that can be handed out and the drops under way. `home`, `next` and
    `history` record where each value was stored and what happened to it. -/
structure Pool where
  handles : List (Nat × Handle)
  refcount : Nat → RefCount
  body : Nat → Nat
  pool : List Nat
  drops : List Drop
  home : Nat → Nat
  next : Nat
  history : Nat → List Event

namespace Pool

def setCount (s : Pool) (f : Nat) (r : RefCount) : Nat → RefCount :=
  Function.update s.refcount f r

def log (s : Pool) (v : Nat) (e : Event) : Nat → List Event :=
  Function.update s.history v (s.history v ++ [e])

/-- A place that can take a handle: eight bytes of memory, not taken. -/
def Vacant (s : Pool) (place : Nat) : Prop :=
  place < 2 ^ 61 ∧ place ∉ s.handles.map Prod.fst

/-- One step of some thread. -/
inductive Step (s : Pool) : Pool → Prop where
  | new (f place : Nat) : f ∈ s.pool → s.Vacant place →
      Step s { s with
        handles := (place, ⟨.owned, f, s.next⟩) :: s.handles
        refcount := s.setCount f (FrameMeta.onAlloc (s.refcount f))
        body := Function.update s.body f s.next
        pool := s.pool.erase f
        home := Function.update s.home s.next f
        next := s.next + 1
        history := s.log s.next .stored }
  | intoShared {place f v rest} : s.handles.Perm ((place, ⟨.owned, f, v⟩) :: rest) →
      Step s { s with handles := (place, ⟨.shared, f, v⟩) :: rest }
  | clone (place' : Nat) {place f v rest} :
      s.handles.Perm ((place, ⟨.shared, f, v⟩) :: rest) → s.Vacant place' →
      Step s { s with
        handles := (place', ⟨.shared, f, v⟩) :: (place, ⟨.shared, f, v⟩) :: rest
        refcount := s.setCount f (s.refcount f).retain
        history := s.log v .cloned }
  | move (place' : Nat) {place h rest} : s.handles.Perm ((place, h) :: rest) →
      s.Vacant place' → Step s { s with handles := (place', h) :: rest }
  | dropOwned (thread : Nat) {place f v rest} :
      s.handles.Perm ((place, ⟨.owned, f, v⟩) :: rest) →
      Step s { s with handles := rest, drops := ⟨thread, f, v, .ownedDestroy⟩ :: s.drops }
  | dropShared (thread : Nat) {place f v rest} :
      s.handles.Perm ((place, ⟨.shared, f, v⟩) :: rest) →
      Step s { s with
        handles := rest
        refcount := s.setCount f (s.refcount f).release.1
        drops := if (s.refcount f).release.2 = .free then
          ⟨thread, f, v, .sharedDestroy⟩ :: s.drops else s.drops
        history := s.log v (.released thread (s.refcount f).release.2) }
  | destroyOwned {thread f v rest} : s.drops.Perm (⟨thread, f, v, .ownedDestroy⟩ :: rest) →
      Step s { s with
        drops := ⟨thread, f, v, .ownedRelease⟩ :: rest
        history := s.log (s.body f) (.destroyed thread) }
  | releaseOwned {thread f v rest} : s.drops.Perm (⟨thread, f, v, .ownedRelease⟩ :: rest) →
      Step s { s with
        refcount := s.setCount f (s.refcount f).release.1
        drops := ⟨thread, f, v, .ownedRecycle⟩ :: rest
        history := s.log v (.released thread (s.refcount f).release.2) }
  | destroyShared {thread f v rest} : s.drops.Perm (⟨thread, f, v, .sharedDestroy⟩ :: rest) →
      Step s { s with
        drops := ⟨thread, f, v, .sharedRecycle⟩ :: rest
        history := s.log (s.body f) (.destroyed thread) }
  | recycle {d rest} : s.drops.Perm (d :: rest) →
      d.stage = .ownedRecycle ∨ d.stage = .sharedRecycle →
      Step s { s with
        drops := rest
        pool := d.frame :: s.pool
        history := s.log d.value (.recycled d.thread) }

/-- Every frame free, nothing stored. -/
def fresh (frames : List Nat) : Pool :=
  ⟨[], fun _ => FrameMeta.idle, fun _ => 0, frames, [], fun _ => 0, 0, fun _ => []⟩

inductive Reached (frames : List Nat) : Pool → Prop where
  | fresh : Reached frames (fresh frames)
  | step {s s'} : Reached frames s → Step s s' → Reached frames s'

/-! ## The invariant -/

def countHandles (handles : List (Nat × Handle)) (f : Nat) : Nat :=
  handles.countP fun x => x.2.frame = f

def countHolding (drops : List Drop) (f : Nat) : Nat :=
  drops.countP fun d => d.frame = f ∧ d.stage.holds

def countDrops (drops : List Drop) (f : Nat) : Nat := drops.countP fun d => d.frame = f

/-- The live handles of a frame: those at a place, and one whose drop has not
    released it yet. -/
def holders (s : Pool) (f : Nat) : Nat := countHandles s.handles f + countHolding s.drops f

/-- One for a frame with handles at places. -/
def out (s : Pool) (f : Nat) : Nat := if countHandles s.handles f = 0 then 0 else 1

/-- What may happen to a value while it has live handles. -/
def Early (e : Event) : Prop := e = .cloned ∨ ∃ thread, e = .released thread .keep

/-- The last that happens to a value: the thread whose release was the last destroys
    the value, `Owned` before that release and `Shared` after it, and then recycles. -/
def Ending (l : List Event) : Prop :=
  ∃ thread, l = [.destroyed thread, .released thread .free, .recycled thread] ∨
    l = [.released thread .free, .destroyed thread, .recycled thread]

/-- The history of a value up to now, given what it did while it had live handles. -/
structure Told (s : Pool) (v : Nat) (early : List Event) : Prop where
  only : ∀ e ∈ early, Early e
  held : ∀ x ∈ s.handles, x.2.value = v → s.history v = .stored :: early
  dying : ∀ d ∈ s.drops, d.value = v → s.history v = .stored :: early ++ d.done
  gone : (∀ x ∈ s.handles, x.2.value ≠ v) → (∀ d ∈ s.drops, d.value ≠ v) →
    ∃ ending, Ending ending ∧ s.history v = .stored :: early ++ ending

structure Books (frames : List Nat) (s : Pool) (f : Nat) : Prop where
  counted : (s.refcount f).count = s.holders f
  whereabouts : s.pool.count f + countDrops s.drops f + s.out f = frames.count f

structure Sound (frames : List Nat) (s : Pool) : Prop where
  placed : (s.handles.map Prod.fst).Nodup
  resident : ∀ x ∈ s.handles, x.1 < 2 ^ 61
  single : s.handles.Pairwise fun x y => x.2.frame = y.2.frame →
    x.2.kind = .shared ∧ y.2.kind = .shared
  books : ∀ f, Books frames s f
  homes : ∀ x ∈ s.handles, x.2.value < s.next ∧ s.home x.2.value = x.2.frame ∧
    s.body x.2.frame = x.2.value
  dropHomes : ∀ d ∈ s.drops, d.value < s.next ∧ s.home d.value = d.frame ∧
    s.body d.frame = d.value
  unborn : ∀ v, s.next ≤ v → s.history v = []
  told : ∀ v, v < s.next → ∃ early, Told s v early

variable {frames : List Nat} {s s' : Pool}

theorem countHandles_cons (x : Nat × Handle) (rest : List (Nat × Handle)) (f : Nat) :
    countHandles (x :: rest) f = countHandles rest f + if x.2.frame = f then 1 else 0 := by
  simp only [countHandles, List.countP_cons, decide_eq_true_eq]

theorem countHolding_cons (d : Drop) (rest : List Drop) (f : Nat) :
    countHolding (d :: rest) f =
      countHolding rest f + if d.frame = f ∧ d.stage.holds = true then 1 else 0 := by
  simp only [countHolding, List.countP_cons, decide_eq_true_eq]

theorem countDrops_cons (d : Drop) (rest : List Drop) (f : Nat) :
    countDrops (d :: rest) f = countDrops rest f + if d.frame = f then 1 else 0 := by
  simp only [countDrops, List.countP_cons, decide_eq_true_eq]

theorem countHolding_le (drops : List Drop) (f : Nat) : countHolding drops f ≤ countDrops drops f :=
  List.countP_mono_left fun d _ held => by
    simp only [decide_eq_true_eq] at held ⊢
    exact held.1

theorem countHandles_pos {handles : List (Nat × Handle)} {x : Nat × Handle} (member : x ∈ handles) :
    0 < countHandles handles x.2.frame :=
  List.countP_pos_iff.mpr ⟨x, member, decide_eq_true rfl⟩

theorem countDrops_pos {drops : List Drop} {d : Drop} (member : d ∈ drops) :
    0 < countDrops drops d.frame :=
  List.countP_pos_iff.mpr ⟨d, member, decide_eq_true rfl⟩

theorem nobody {handles : List (Nat × Handle)} {f : Nat} (zero : countHandles handles f = 0) :
    ∀ x ∈ handles, x.2.frame ≠ f := by
  rintro x member rfl
  exact (countHandles_pos member).ne' zero

theorem no_drop {drops : List Drop} {f : Nat} (zero : countDrops drops f = 0) :
    ∀ d ∈ drops, d.frame ≠ f := by
  rintro d member rfl
  exact (countDrops_pos member).ne' zero

theorem log_same (s : Pool) (v : Nat) (e : Event) : s.log v e v = s.history v ++ [e] :=
  Function.update_self ..

namespace Sound

theorem reorder (sound : Sound frames s) {handles : List (Nat × Handle)} {drops : List Drop}
    (same : s.handles.Perm handles) (same' : s.drops.Perm drops) :
    Sound frames { s with handles, drops } where
  placed := (same.map _).nodup_iff.mp sound.placed
  resident x member := sound.resident x (same.mem_iff.mpr member)
  single := (same.pairwise_iff fun ap eq => (ap eq.symm).symm).mp sound.single
  books f := by
    obtain ⟨counted, whereabouts⟩ := sound.books f
    simp only [holders, out, countHandles, countHolding, countDrops, same.countP_eq,
      same'.countP_eq] at counted whereabouts
    exact ⟨counted, whereabouts⟩
  homes x member := sound.homes x (same.mem_iff.mpr member)
  dropHomes d member := sound.dropHomes d (same'.mem_iff.mpr member)
  unborn := sound.unborn
  told v born := by
    obtain ⟨early, only, held, dying, gone⟩ := sound.told v born
    refine ⟨early, only, fun x member => held x (same.mem_iff.mpr member),
      fun d member => dying d (same'.mem_iff.mpr member), fun noHandle noDrop => ?_⟩
    exact gone (fun x member => noHandle x (same.mem_iff.mp member))
      fun d member => noDrop d (same'.mem_iff.mp member)

/-- Handles occupy memory, so a count of them never wraps. -/
theorem handles_lt (sound : Sound frames s) (f : Nat) : countHandles s.handles f ≤ 2 ^ 61 := by
  have subset : s.handles.map Prod.fst ⊆ List.range (2 ^ 61) := by
    intro place member
    obtain ⟨x, inside, rfl⟩ := List.mem_map.mp member
    exact List.mem_range.mpr (sound.resident x inside)
  have bound := (sound.placed.subperm subset).length_le
  have le : countHandles s.handles f ≤ s.handles.length := List.countP_le_length
  simp only [List.length_map, List.length_range] at bound
  omega

theorem once (sound : Sound frames s) (distinct : frames.Nodup) (f : Nat) :
    s.pool.count f + countDrops s.drops f + s.out f ≤ 1 := by
  rw [(sound.books f).whereabouts]
  exact List.nodup_iff_count_le_one.mp distinct f

/-- A frame with a handle is not being dropped. -/
theorem undropped (sound : Sound frames s) (distinct : frames.Nodup) {f : Nat}
    (held : countHandles s.handles f ≠ 0) : countDrops s.drops f = 0 := by
  have := sound.once distinct f
  rw [out, if_neg held] at this
  omega

/-- A frame being dropped has no handle, and its drop is the only one. -/
theorem dropped (sound : Sound frames s) (distinct : frames.Nodup) {f : Nat}
    (dying : countDrops s.drops f ≠ 0) :
    countHandles s.handles f = 0 ∧ countDrops s.drops f = 1 ∧ s.pool.count f = 0 := by
  have := sound.once distinct f
  unfold out at this
  split at this <;> omega

/-- What one value's handles and drops do leaves every other value and frame alone. -/
theorem revise (hs hs' restH : List (Nat × Handle)) (ds ds' restD : List Drop) (r : RefCount)
    (pool : List Nat) (events : List Event) {f v : Nat}
    (sound : Sound frames { s with handles := hs ++ restH, drops := ds ++ restD })
    (home : v < s.next ∧ s.home v = f ∧ s.body f = v)
    (mine : ∀ x ∈ hs, x.2.frame = f ∧ x.2.value = v)
    (mine' : ∀ x ∈ hs', x.2.frame = f ∧ x.2.value = v)
    (drop : ∀ d ∈ ds, d.frame = f ∧ d.value = v) (drop' : ∀ d ∈ ds', d.frame = f ∧ d.value = v)
    (placed : ((hs' ++ restH).map Prod.fst).Nodup) (resident : ∀ x ∈ hs', x.1 < 2 ^ 61)
    (single : (hs' ++ restH).Pairwise fun x y => x.2.frame = y.2.frame →
      x.2.kind = .shared ∧ y.2.kind = .shared)
    (pooled : ∀ g, g ≠ f → pool.count g = s.pool.count g)
    (books : Books frames { s with
      handles := hs' ++ restH, refcount := s.setCount f r, drops := ds' ++ restD, pool } f)
    (told : ∃ early, Told { s with
      handles := hs' ++ restH, drops := ds' ++ restD,
      history := Function.update s.history v events } v early) :
    Sound frames { s with
      handles := hs' ++ restH, refcount := s.setCount f r, drops := ds' ++ restD, pool,
      history := Function.update s.history v events } := by
  have handles : ∀ {hs : List (Nat × Handle)}, (∀ x ∈ hs, x.2.frame = f ∧ x.2.value = v) →
      ∀ g, g ≠ f → countHandles (hs ++ restH) g = countHandles restH g := by
    intro hs all g other
    rw [countHandles, List.countP_append, List.countP_eq_zero.mpr, Nat.zero_add, countHandles]
    intro x member
    rw [(all x member).1, decide_eq_true_eq]
    exact other.symm
  have holding : ∀ {ds : List Drop}, (∀ d ∈ ds, d.frame = f ∧ d.value = v) →
      ∀ g, g ≠ f → countHolding (ds ++ restD) g = countHolding restD g ∧
        countDrops (ds ++ restD) g = countDrops restD g := by
    intro ds all g other
    constructor
    · rw [countHolding, List.countP_append, List.countP_eq_zero.mpr, Nat.zero_add, countHolding]
      intro d member
      rw [(all d member).1, decide_eq_true_eq]
      exact fun held => other held.1.symm
    · rw [countDrops, List.countP_append, List.countP_eq_zero.mpr, Nat.zero_add, countDrops]
      intro d member
      rw [(all d member).1, decide_eq_true_eq]
      exact other.symm
  refine ⟨placed, ?_, single, fun g => ?_, ?_, ?_, fun u unborn => ?_, fun u born => ?_⟩
  · intro x member
    rcases List.mem_append.mp member with new | old
    · exact resident x new
    · exact sound.resident x (List.mem_append_right _ old)
  · by_cases same : g = f
    · subst same
      exact ⟨books.counted, books.whereabouts⟩
    · obtain ⟨counted, whereabouts⟩ := sound.books g
      simp only [holders, out, handles mine g same, (holding drop g same).1, (holding drop g same).2]
        at counted whereabouts
      constructor
      · simp only [holders, handles mine' g same, (holding drop' g same).1, setCount,
          Function.update_of_ne same]
        exact counted
      · simp only [out, handles mine' g same, (holding drop' g same).2, pooled g same]
        exact whereabouts
  · intro x member
    rcases List.mem_append.mp member with new | old
    · obtain ⟨frame, value⟩ := mine' x new
      rw [frame, value]
      exact home
    · exact sound.homes x (List.mem_append_right _ old)
  · intro d member
    rcases List.mem_append.mp member with new | old
    · obtain ⟨frame, value⟩ := drop' d new
      rw [frame, value]
      exact home
    · exact sound.dropHomes d (List.mem_append_right _ old)
  · have other : u ≠ v := by
      rintro rfl
      exact absurd home.1 (Nat.not_lt.mpr unborn)
    simp only [Function.update_of_ne other]
    exact sound.unborn u unborn
  · by_cases same : u = v
    · subst same
      obtain ⟨early, only, held, dying, gone⟩ := told
      exact ⟨early, only, held, dying, gone⟩
    · obtain ⟨early, only, held, dying, gone⟩ := sound.told u born
      refine ⟨early, only, ?_, ?_, ?_⟩ <;> simp only [Function.update_of_ne same]
      · intro x member value
        rcases List.mem_append.mp member with new | old
        · exact (same (value.symm.trans (mine' x new).2)).elim
        · exact held x (List.mem_append_right _ old) value
      · intro d member value
        rcases List.mem_append.mp member with new | old
        · exact (same (value.symm.trans (drop' d new).2)).elim
        · exact dying d (List.mem_append_right _ old) value
      · intro noHandle noDrop
        apply gone
        · intro x member value
          rcases List.mem_append.mp member with new | old
          · exact same (value.symm.trans (mine x new).2)
          · exact noHandle x (List.mem_append_right _ old) value
        · intro d member value
          rcases List.mem_append.mp member with new | old
          · exact same (value.symm.trans (drop d new).2)
          · exact noDrop d (List.mem_append_right _ old) value

/-! ## One value -/

theorem no_drop_of (sound : Sound frames s) (distinct : frames.Nodup) {x : Nat × Handle}
    (member : x ∈ s.handles) : ∀ d ∈ s.drops, d.value ≠ x.2.value := by
  intro d inside same
  have frame : d.frame = x.2.frame := by
    rw [← (sound.dropHomes d inside).2.1, same, (sound.homes x member).2.1]
  exact no_drop (sound.undropped distinct (countHandles_pos member).ne') d inside frame

theorem no_handle_of (sound : Sound frames s) (distinct : frames.Nodup) {d : Drop}
    (member : d ∈ s.drops) : ∀ x ∈ s.handles, x.2.value ≠ d.value :=
  fun _ inside same => sound.no_drop_of distinct inside d member same.symm

theorem drop_alone {d : Drop} {rest : List Drop}
    (sound : Sound frames { s with drops := d :: rest }) (distinct : frames.Nodup) :
    ∀ d' ∈ rest, d'.value ≠ d.value := by
  intro d' inside same
  have frame : d'.frame = d.frame := by
    rw [← (sound.dropHomes d' (List.mem_cons_of_mem _ inside)).2.1, same,
      (sound.dropHomes d List.mem_cons_self).2.1]
  have one := (sound.dropped distinct (countDrops_pos List.mem_cons_self).ne').2.1
  rw [countDrops_cons, if_pos rfl] at one
  exact no_drop (Nat.succ.inj one) d' inside frame

/-- Over the frame of an `Owned` there is no other handle. -/
theorem alone {place f v : Nat} {rest : List (Nat × Handle)}
    (sound : Sound frames { s with handles := (place, ⟨.owned, f, v⟩) :: rest }) :
    countHandles rest f = 0 := by
  refine List.countP_eq_zero.mpr fun y member => ?_
  rw [decide_eq_true_eq]
  intro same
  cases ((List.pairwise_cons.mp sound.single).1 y member same.symm).1

theorem value_alone {place : Nat} {h : Handle} {rest : List (Nat × Handle)}
    (sound : Sound frames { s with handles := (place, h) :: rest })
    (alone : countHandles rest h.frame = 0) : ∀ y ∈ rest, y.2.value ≠ h.value := by
  intro y inside same
  have frame : y.2.frame = h.frame := by
    rw [← (sound.homes y (List.mem_cons_of_mem _ inside)).2.1, same,
      (sound.homes (place, h) List.mem_cons_self).2.1]
  exact nobody alone y inside frame

end Sound

namespace Told

variable {v : Nat} {early : List Event}

theorem live (only : ∀ e ∈ early, Early e) (told : s.history v = .stored :: early)
    (noDrop : ∀ d ∈ s.drops, d.value ≠ v) {x : Nat × Handle} (member : x ∈ s.handles)
    (value : x.2.value = v) : Told s v early where
  only := only
  held _ _ _ := told
  dying d inside same := (noDrop d inside same).elim
  gone noHandle := (noHandle x member value).elim

theorem fading (only : ∀ e ∈ early, Early e) {d : Drop} (member : d ∈ s.drops)
    (value : d.value = v) (told : s.history v = .stored :: early ++ d.done)
    (noHandle : ∀ x ∈ s.handles, x.2.value ≠ v) (alone : ∀ d' ∈ s.drops, d'.value = v → d' = d) :
    Told s v early where
  only := only
  held x inside same := (noHandle x inside same).elim
  dying d' inside same := by rw [alone d' inside same, told]
  gone _ noDrop := (noDrop d member value).elim

theorem finished (only : ∀ e ∈ early, Early e) (ending : List Event) (ends : Ending ending)
    (told : s.history v = .stored :: early ++ ending) (noHandle : ∀ x ∈ s.handles, x.2.value ≠ v)
    (noDrop : ∀ d ∈ s.drops, d.value ≠ v) : Told s v early where
  only := only
  held x inside same := (noHandle x inside same).elim
  dying d inside same := (noDrop d inside same).elim
  gone _ _ := ⟨ending, ends, told⟩

end Told

namespace Sound

/-- A handle changed in place, or moved, to one of the same value. -/
theorem exchange {place : Nat} {h : Handle} {rest : List (Nat × Handle)}
    (sound : Sound frames { s with handles := (place, h) :: rest }) (distinct : frames.Nodup)
    (place' : Nat) (h' : Handle) (frame : h'.frame = h.frame) (value : h'.value = h.value)
    (kind : h'.kind = h.kind ∨ h.kind = .owned) (resident : place' < 2 ^ 61)
    (vacant : place' ∉ rest.map Prod.fst) :
    Sound frames { s with handles := (place', h') :: rest } := by
  have old := List.pairwise_cons.mp sound.single
  have revised := revise [(place, h)] [(place', h')] rest [] [] s.drops (s.refcount h.frame) s.pool
    (s.history h.value) sound (sound.homes _ List.mem_cons_self) (by simp) (by simp [frame, value]) (by simp) (by simp)
    (List.nodup_cons.mpr ⟨vacant, (List.nodup_cons.mp sound.placed).2⟩)
    (by simpa using resident) ?_ (fun _ _ => rfl) ?_ ?_
  · simpa only [setCount, Function.update_eq_self, List.cons_append, List.nil_append] using revised
  · refine List.pairwise_cons.mpr ⟨fun y member same => ?_, old.2⟩
    have both := old.1 y member (frame ▸ same)
    rcases kind with equal | owned
    · exact ⟨equal.trans both.1, both.2⟩
    · cases owned.symm.trans both.1
  · obtain ⟨counted, whereabouts⟩ := sound.books h.frame
    simp only [setCount, Function.update_eq_self]
    constructor
    · simpa only [holders, List.cons_append, List.nil_append, countHandles_cons, frame] using counted
    · simpa only [out, List.cons_append, List.nil_append, countHandles_cons, frame] using whereabouts
  · obtain ⟨early, only, held, -, -⟩ := sound.told h.value (sound.homes _ List.mem_cons_self).1
    refine ⟨early, Told.live only ?_ (sound.no_drop_of distinct List.mem_cons_self)
      List.mem_cons_self value⟩
    simp only [Function.update_self]
    exact held _ List.mem_cons_self rfl

theorem cloned {place place' f v : Nat} {rest : List (Nat × Handle)}
    (sound : Sound frames { s with handles := (place, ⟨.shared, f, v⟩) :: rest })
    (distinct : frames.Nodup)
    (vacant : Vacant { s with handles := (place, ⟨.shared, f, v⟩) :: rest } place') :
    Sound frames { s with
      handles := (place', ⟨.shared, f, v⟩) :: (place, ⟨.shared, f, v⟩) :: rest
      refcount := s.setCount f (s.refcount f).retain
      history := s.log v .cloned } := by
  have old := List.pairwise_cons.mp sound.single
  have noDrop := sound.no_drop_of distinct List.mem_cons_self
  have bound := sound.handles_lt f
  have zero : countHolding s.drops f = 0 := by
    have none := sound.undropped distinct (countHandles_pos (x := (place, ⟨.shared, f, v⟩))
      List.mem_cons_self).ne'
    have := countHolding_le s.drops f
    simp only at none
    omega
  obtain ⟨counted, whereabouts⟩ := sound.books f
  simp only [holders, out, countHandles_cons, if_true, zero] at counted whereabouts bound
  refine revise [(place, ⟨.shared, f, v⟩)] [(place', ⟨.shared, f, v⟩), (place, ⟨.shared, f, v⟩)] rest
    [] [] s.drops _ _ _ sound (sound.homes _ List.mem_cons_self) (by simp) (by simp) (by simp) (by simp)
    (List.nodup_cons.mpr ⟨vacant.2, sound.placed⟩) ?_ ?_ (fun _ _ => rfl) ?_ ?_
  · intro x member
    rcases List.mem_cons.mp member with rfl | member
    · exact vacant.1
    · rw [List.mem_singleton.mp member]
      exact sound.resident _ List.mem_cons_self
  · refine List.pairwise_cons.mpr ⟨fun y member same => ?_, sound.single⟩
    rcases List.mem_cons.mp member with rfl | member
    · exact ⟨rfl, rfl⟩
    · exact ⟨rfl, (old.1 y member same).2⟩
  · constructor
    · simp only [setCount, Function.update_self, RefCount.retain, holders, List.cons_append,
        List.nil_append, countHandles_cons, if_true, zero, counted]
      omega
    · simpa only [out, List.cons_append, List.nil_append, countHandles_cons, if_true,
        Nat.add_eq_zero_iff, one_ne_zero, and_false, if_false] using whereabouts
  · obtain ⟨early, only, held, -, -⟩ := sound.told v (sound.homes _ List.mem_cons_self).1
    have told : s.history v = .stored :: early := held _ List.mem_cons_self rfl
    refine ⟨early ++ [.cloned], Told.live ?_ ?_ noDrop List.mem_cons_self rfl⟩
    · intro e member
      rcases List.mem_append.mp member with old | new
      · exact only e old
      · exact .inl (List.mem_singleton.mp new)
    · simp only [Function.update_self, told, List.cons_append]

/-- An `Owned` goes out of scope: its drop begins, and it still counts. -/
theorem dropOwned {place f v : Nat} {rest : List (Nat × Handle)}
    (sound : Sound frames { s with handles := (place, ⟨.owned, f, v⟩) :: rest })
    (distinct : frames.Nodup) (thread : Nat) :
    Sound frames { s with handles := rest, drops := ⟨thread, f, v, .ownedDestroy⟩ :: s.drops } := by
  have alone := sound.alone
  have noDrop := sound.no_drop_of distinct List.mem_cons_self
  obtain ⟨counted, whereabouts⟩ := sound.books f
  simp only [holders, out, countHandles_cons, if_true, alone, Nat.zero_add, one_ne_zero, if_false]
    at counted whereabouts
  have revised := revise [(place, ⟨.owned, f, v⟩)] [] rest [] [⟨thread, f, v, .ownedDestroy⟩] s.drops
    (s.refcount f) s.pool (s.history v) sound (sound.homes _ List.mem_cons_self) (by simp) (by simp) (by simp) (by simp)
    (List.nodup_cons.mp sound.placed).2 (by simp) (List.pairwise_cons.mp sound.single).2
    (fun _ _ => rfl) ?_ ?_
  · simpa only [setCount, Function.update_eq_self, List.cons_append, List.nil_append] using revised
  · simp only [setCount, Function.update_eq_self, List.cons_append, List.nil_append]
    constructor
    · simp only [holders, alone, countHolding_cons, Stage.holds, and_self, if_true]
      omega
    · simp only [out, alone, countDrops_cons, if_true]
      omega
  · obtain ⟨early, only, held, -, -⟩ := sound.told v (sound.homes _ List.mem_cons_self).1
    refine ⟨early, Told.fading only List.mem_cons_self rfl ?_ (sound.value_alone alone) ?_⟩
    · simp only [Function.update_self, Drop.done, List.append_nil]
      exact held _ List.mem_cons_self rfl
    · intro d member value
      rcases List.mem_cons.mp member with rfl | old
      · rfl
      · exact (noDrop d old value).elim

/-- A `Shared` is released; if that was the last handle, its drop goes on. -/
theorem dropShared {place f v : Nat} {rest : List (Nat × Handle)}
    (sound : Sound frames { s with handles := (place, ⟨.shared, f, v⟩) :: rest })
    (distinct : frames.Nodup) (thread : Nat) :
    Sound frames { s with
      handles := rest
      refcount := s.setCount f (s.refcount f).release.1
      drops := if (s.refcount f).release.2 = .free then
        ⟨thread, f, v, .sharedDestroy⟩ :: s.drops else s.drops
      history := s.log v (.released thread (s.refcount f).release.2) } := by
  have noDrop := sound.no_drop_of distinct List.mem_cons_self
  have none := sound.undropped distinct (countHandles_pos (x := (place, ⟨.shared, f, v⟩))
    List.mem_cons_self).ne'
  have bound := sound.handles_lt f
  have zero : countHolding s.drops f = 0 := by
    have := countHolding_le s.drops f
    simp only at none
    omega
  obtain ⟨counted, whereabouts⟩ := sound.books f
  simp only [holders, out, countHandles_cons, if_true, zero, Nat.add_eq_zero_iff, one_ne_zero,
    and_false, if_false, Nat.add_zero] at counted whereabouts bound none
  obtain ⟨early, only, held, -, -⟩ := sound.told v (sound.homes _ List.mem_cons_self).1
  have told : s.history v = .stored :: early := held _ List.mem_cons_self rfl
  have fewer : (s.refcount f).release.1.count = countHandles rest f := by
    simp only [RefCount.release, counted]
    omega
  by_cases last : countHandles rest f = 0
  · have answer : (s.refcount f).release.2 = .free := by
      simp only [RefCount.release, counted, last, if_true]
    simp only [answer, if_true]
    refine revise [(place, ⟨.shared, f, v⟩)] [] rest [] [⟨thread, f, v, .sharedDestroy⟩] s.drops _ _ _
      sound (sound.homes _ List.mem_cons_self) (by simp) (by simp) (by simp) (by simp)
      (List.nodup_cons.mp sound.placed).2 (by simp) (List.pairwise_cons.mp sound.single).2
      (fun _ _ => rfl) ?_ ?_
    · constructor
      · simp only [setCount, Function.update_self, fewer, holders, List.nil_append, List.cons_append,
          countHolding_cons, Stage.holds, zero, Bool.false_eq_true, and_false, if_false, Nat.add_zero]
      · simp only [out, List.nil_append, List.cons_append, last, if_true, countDrops_cons]
        omega
    · refine ⟨early, Told.fading only List.mem_cons_self rfl ?_ (sound.value_alone last) ?_⟩
      · simp only [Function.update_self, told, Drop.done]
      · intro d member value
        rcases List.mem_cons.mp member with rfl | old
        · rfl
        · exact (noDrop d old value).elim
  · have answer : (s.refcount f).release.2 = .keep := by
      simp only [RefCount.release, counted]
      rw [if_neg]
      omega
    simp only [answer, reduceCtorEq, if_false]
    refine revise [(place, ⟨.shared, f, v⟩)] [] rest [] [] s.drops _ _ _
      sound (sound.homes _ List.mem_cons_self) (by simp) (by simp) (by simp) (by simp)
      (List.nodup_cons.mp sound.placed).2 (by simp) (List.pairwise_cons.mp sound.single).2
      (fun _ _ => rfl) ?_ ?_
    · constructor
      · simp only [setCount, Function.update_self, fewer, holders, List.nil_append, zero,
          Nat.add_zero]
      · simpa only [out, List.nil_append, last, if_false] using whereabouts
    · obtain ⟨y, member, same⟩ := List.countP_pos_iff.mp (Nat.pos_of_ne_zero last)
      have frame : y.2.frame = f := of_decide_eq_true same
      have value : y.2.value = v := by
        rw [← (sound.homes y (List.mem_cons_of_mem _ member)).2.2, frame]
        exact (sound.homes _ List.mem_cons_self).2.2
      refine ⟨early ++ [.released thread .keep], Told.live ?_ ?_ noDrop member value⟩
      · intro e inside
        rcases List.mem_append.mp inside with old | new
        · exact only e old
        · exact .inr ⟨thread, List.mem_singleton.mp new⟩
      · simp only [Function.update_self, told, List.cons_append]

/-- A drop goes one step further with the frame still its own. -/
theorem advanced {d d' : Drop} {rest : List Drop} {r : RefCount} {e : Event}
    (sound : Sound frames { s with drops := d :: rest }) (distinct : frames.Nodup)
    (frame : d'.frame = d.frame) (value : d'.value = d.value) (done : d'.done = d.done ++ [e])
    (counted : r.count = if d'.stage.holds then 1 else 0) :
    Sound frames { s with
      refcount := s.setCount d.frame r
      drops := d' :: rest
      history := s.log d.value e } := by
  have noHandle := sound.no_handle_of distinct List.mem_cons_self
  have others := sound.drop_alone distinct
  obtain ⟨zero, one, -⟩ := sound.dropped distinct (countDrops_pos (d := d) List.mem_cons_self).ne'
  have none : countHolding rest d.frame = 0 := by
    have := countHolding_le rest d.frame
    rw [countDrops_cons, if_pos rfl] at one
    omega
  refine revise [] [] s.handles [d] [d'] rest _ _ _ sound
    (sound.dropHomes _ List.mem_cons_self) (by simp) (by simp) (by simp) (by simp [frame, value])
    sound.placed (by simp) sound.single (fun _ _ => rfl) ?_ ?_
  · obtain ⟨-, whereabouts⟩ := sound.books d.frame
    constructor
    · simp only [setCount, Function.update_self, counted, holders, List.nil_append, List.cons_append,
        countHolding_cons, zero, none, frame, true_and, Nat.zero_add]
    · simpa only [out, List.nil_append, List.cons_append, countDrops_cons, frame] using whereabouts
  · obtain ⟨early, only, -, dying, -⟩ := sound.told d.value (sound.dropHomes _ List.mem_cons_self).1
    have told : s.history d.value = .stored :: early ++ d.done := dying _ List.mem_cons_self rfl
    refine ⟨early, Told.fading only List.mem_cons_self value ?_ noHandle ?_⟩
    · simp only [Function.update_self, told, done, List.cons_append, List.append_assoc]
    · intro d₁ member same
      rcases List.mem_cons.mp member with rfl | old
      · rfl
      · exact (others d₁ old same).elim

/-- A drop ends: the frame is back, and the value's history is complete. -/
theorem recycled {d : Drop} {rest : List Drop}
    (sound : Sound frames { s with drops := d :: rest }) (distinct : frames.Nodup)
    (last : d.stage = .ownedRecycle ∨ d.stage = .sharedRecycle) :
    Sound frames { s with
      drops := rest
      pool := d.frame :: s.pool
      history := s.log d.value (.recycled d.thread) } := by
  have noHandle := sound.no_handle_of distinct List.mem_cons_self
  have others := sound.drop_alone distinct
  obtain ⟨zero, one, -⟩ := sound.dropped distinct (countDrops_pos (d := d) List.mem_cons_self).ne'
  obtain ⟨counted, whereabouts⟩ := sound.books d.frame
  rw [countDrops_cons, if_pos rfl] at one
  have released : d.stage.holds = false := by
    rcases last with same | same <;> rw [same] <;> rfl
  have revised := revise [] [] s.handles [d] [] rest (s.refcount d.frame) (d.frame :: s.pool)
    (s.history d.value ++ [.recycled d.thread]) sound (sound.dropHomes _ List.mem_cons_self) (by simp) (by simp) (by simp) (by simp) sound.placed (by simp) sound.single
    (fun g other => List.count_cons_of_ne (Ne.symm other)) ?_ ?_
  · simpa only [setCount, Function.update_eq_self, List.nil_append, log] using revised
  · simp only [setCount, Function.update_eq_self, List.nil_append]
    constructor
    · simpa only [holders, countHolding_cons, released, Bool.false_eq_true, and_false, if_false,
        Nat.add_zero] using counted
    · simp only [out, zero, if_true, countDrops_cons, List.count_cons_self] at whereabouts ⊢
      omega
  · obtain ⟨early, only, -, dying, -⟩ := sound.told d.value (sound.dropHomes _ List.mem_cons_self).1
    have told : s.history d.value = .stored :: early ++ d.done := dying _ List.mem_cons_self rfl
    refine ⟨early, Told.finished only (d.done ++ [.recycled d.thread]) ?_ ?_ noHandle
      others⟩
    · refine ⟨d.thread, ?_⟩
      rcases last with same | same
      · exact .inl (by rw [Drop.done, same]; rfl)
      · exact .inr (by rw [Drop.done, same]; rfl)
    · simp only [Function.update_self, told, List.cons_append, List.append_assoc]

/-- A value stored in a free frame: no handle and no drop of an earlier one is left. -/
theorem opened (sound : Sound frames s) (distinct : frames.Nodup) {f place : Nat}
    (free : f ∈ s.pool) (vacant : s.Vacant place) :
    Sound frames { s with
      handles := (place, ⟨.owned, f, s.next⟩) :: s.handles
      refcount := s.setCount f (FrameMeta.onAlloc (s.refcount f))
      body := Function.update s.body f s.next
      pool := s.pool.erase f
      home := Function.update s.home s.next f
      next := s.next + 1
      history := s.log s.next .stored } := by
  have once := sound.once distinct f
  have here := List.count_pos_iff.mpr free
  have idle : countHandles s.handles f = 0 := by
    by_contra held
    rw [out, if_neg held] at once
    omega
  have quiet : countDrops s.drops f = 0 := by omega
  have zero : countHolding s.drops f = 0 := by
    have := countHolding_le s.drops f
    omega
  have older : ∀ x ∈ s.handles, x.2.value ≠ s.next :=
    fun x member => (sound.homes x member).1.ne
  have olderDrop : ∀ d ∈ s.drops, d.value ≠ s.next :=
    fun d member => (sound.dropHomes d member).1.ne
  refine ⟨List.nodup_cons.mpr ⟨vacant.2, sound.placed⟩,
    List.forall_mem_cons.mpr ⟨vacant.1, sound.resident⟩,
    List.pairwise_cons.mpr ⟨fun y member same => (nobody idle y member same.symm).elim, sound.single⟩,
    fun g => ?_, List.forall_mem_cons.mpr ⟨?_, fun x member => ?_⟩, fun d member => ?_,
    fun v unborn => ?_, fun v born => ?_⟩
  · obtain ⟨counted, whereabouts⟩ := sound.books g
    by_cases same : f = g
    · subst same
      rw [out, if_pos idle] at whereabouts
      constructor
      · simp only [setCount, Function.update_self, FrameMeta.onAlloc, holders, countHandles_cons,
          if_true, idle, zero]
      · simp only [out, countHandles_cons, if_true, idle, Nat.zero_add, one_ne_zero, if_false,
          List.count_erase_self]
        omega
    · constructor
      · simpa only [setCount, Function.update_of_ne (Ne.symm same), holders, countHandles_cons,
          if_neg same, Nat.add_zero] using counted
      · simpa only [out, countHandles_cons, if_neg same, Nat.add_zero,
          List.count_erase_of_ne (Ne.symm same)] using whereabouts
  · simp only [Function.update_self, and_self, and_true]
    exact Nat.lt_succ_self _
  · obtain ⟨born, home, body⟩ := sound.homes x member
    simp only [Function.update_of_ne (older x member), Function.update_of_ne (nobody idle x member)]
    exact ⟨Nat.lt_succ_of_lt born, home, body⟩
  · obtain ⟨born, home, body⟩ := sound.dropHomes d member
    simp only [Function.update_of_ne (olderDrop d member),
      Function.update_of_ne (no_drop quiet d member)]
    exact ⟨Nat.lt_succ_of_lt born, home, body⟩
  · simp only at unborn
    have other : v ≠ s.next := by omega
    simp only [log, Function.update_of_ne other]
    exact sound.unborn v (by omega)
  · by_cases same : v = s.next
    · subst same
      refine ⟨[], Told.live nofun ?_ olderDrop List.mem_cons_self rfl⟩
      simp only [log, Function.update_self, sound.unborn s.next le_rfl, List.nil_append]
    · simp only at born
      obtain ⟨early, only, held, dying, gone⟩ := sound.told v (by omega)
      refine ⟨early, only, ?_, ?_, ?_⟩ <;> simp only [log, Function.update_of_ne same]
      · refine List.forall_mem_cons.mpr ⟨fun value => (same value.symm).elim, held⟩
      · exact dying
      · intro noHandle
        exact gone (List.forall_mem_cons.mp noHandle).2

/-- The release of an `Owned` finds its own reference only. -/
theorem owned_release {d : Drop} {rest : List Drop}
    (sound : Sound frames { s with drops := d :: rest }) (distinct : frames.Nodup)
    (held : d.stage.holds = true) : (s.refcount d.frame).count = 1 := by
  obtain ⟨zero, one, -⟩ := sound.dropped distinct (countDrops_pos (d := d) List.mem_cons_self).ne'
  have := countHolding_le rest d.frame
  obtain ⟨counted, -⟩ := sound.books d.frame
  rw [countDrops_cons, if_pos rfl] at one
  simp only [holders, zero, countHolding_cons, held, and_self, if_true] at counted
  omega

/-- The last `Shared` has left no reference. -/
theorem shared_released {d : Drop} {rest : List Drop}
    (sound : Sound frames { s with drops := d :: rest }) (distinct : frames.Nodup)
    (released : d.stage.holds = false) : (s.refcount d.frame).count = 0 := by
  obtain ⟨zero, one, -⟩ := sound.dropped distinct (countDrops_pos (d := d) List.mem_cons_self).ne'
  have := countHolding_le rest d.frame
  obtain ⟨counted, -⟩ := sound.books d.frame
  rw [countDrops_cons, if_pos rfl] at one
  simp only [holders, zero, countHolding_cons, released, Bool.false_eq_true, and_false, if_false]
    at counted
  omega

/-- A destructor runs on the value its handle was made for. -/
theorem destroyed {d d' : Drop} {rest : List Drop}
    (sound : Sound frames { s with drops := d :: rest }) (distinct : frames.Nodup)
    (frame : d'.frame = d.frame) (value : d'.value = d.value)
    (done : d'.done = d.done ++ [.destroyed d.thread]) (holds : d'.stage.holds = d.stage.holds) :
    Sound frames { s with
      drops := d' :: rest
      history := s.log (s.body d.frame) (.destroyed d.thread) } := by
  have body : s.body d.frame = d.value := (sound.dropHomes d List.mem_cons_self).2.2
  have counted : (s.refcount d.frame).count = if d'.stage.holds then 1 else 0 := by
    rw [holds]
    cases held : d.stage.holds with
    | true => exact sound.owned_release distinct held
    | false => exact sound.shared_released distinct held
  have advanced := sound.advanced distinct frame value done counted
  simpa only [setCount, Function.update_eq_self, body] using advanced

theorem step (sound : Sound frames s) (distinct : frames.Nodup) (taken : Step s s') :
    Sound frames s' := by
  cases taken with
  | new f place free vacant => exact sound.opened distinct free vacant
  | intoShared same =>
      have front := sound.reorder same (.refl _)
      exact front.exchange distinct _ _ rfl rfl (.inr rfl) (front.resident _ List.mem_cons_self)
        (List.nodup_cons.mp front.placed).1
  | clone place' same vacant =>
      refine (sound.reorder same (.refl _)).cloned distinct ⟨vacant.1, fun taken => vacant.2 ?_⟩
      exact (same.map Prod.fst).mem_iff.mpr taken
  | move place' same vacant =>
      have front := sound.reorder same (.refl _)
      refine front.exchange distinct place' _ rfl rfl (.inl rfl) vacant.1 fun taken => vacant.2 ?_
      exact (same.map Prod.fst).mem_iff.mpr (List.mem_cons_of_mem _ taken)
  | dropOwned thread same => exact (sound.reorder same (.refl _)).dropOwned distinct thread
  | dropShared thread same => exact (sound.reorder same (.refl _)).dropShared distinct thread
  | destroyOwned same => exact (sound.reorder (.refl _) same).destroyed distinct rfl rfl rfl rfl
  | @releaseOwned thread f v rest same =>
      have front := sound.reorder (.refl _) same
      have one := front.owned_release distinct rfl
      have answer : (s.refcount f).release.2 = .free := by
        simp only at one
        rw [RefCount.release, if_pos one]
      rw [answer]
      refine front.advanced distinct rfl rfl rfl ?_
      simp only at one
      simp only [RefCount.release, one]
      rfl
  | destroyShared same => exact (sound.reorder (.refl _) same).destroyed distinct rfl rfl rfl rfl
  | recycle same last => exact (sound.reorder (.refl _) same).recycled distinct last

end Sound

theorem fresh_sound (frames : List Nat) : Sound frames (fresh frames) where
  placed := List.nodup_nil
  resident := nofun
  single := List.Pairwise.nil
  books f := ⟨rfl, by simp [fresh, out, countHandles, countDrops]⟩
  homes := nofun
  dropHomes := nofun
  unborn _ _ := rfl
  told := nofun

theorem Reached.sound (distinct : frames.Nodup) (reached : Reached frames s) : Sound frames s := by
  induction reached with
  | fresh => exact fresh_sound frames
  | step _ taken ih => exact ih.step distinct taken

/-! ## Whole lives -/

/-- The life of a value from its store to the return of its frame. -/
def Life (l : List Event) : Prop :=
  ∃ early ending, (∀ e ∈ early, Early e) ∧ Ending ending ∧ l = .stored :: early ++ ending

/-- What holds of every reachable state, and of the step taken next from it. -/
structure Orderly (s : Pool) : Prop where
  counted : ∀ f, (s.refcount f).count = s.holders f
  current : ∀ x ∈ s.handles, s.body x.2.frame = x.2.value
  lives : ∀ v, ∃ life, Life life ∧ s.history v <+: life
  complete : ∀ v, v < s.next → (∀ x ∈ s.handles, x.2.value ≠ v) → (∀ d ∈ s.drops, d.value ≠ v) →
    Life (s.history v)
  destroys : ∀ s', Step s s' → ∀ v thread, s'.history v = s.history v ++ [.destroyed thread] →
    ∃ d ∈ s.drops, d.value = v ∧ d.thread = thread ∧ (∀ x ∈ s.handles, x.2.value ≠ v) ∧
      ∀ d' ∈ s.drops, d'.value = v → d' = d

theorem log_eq_append {v u : Nat} {e e' : Event} (same : s.log u e v = s.history v ++ [e']) :
    v = u ∧ e = e' := by
  by_cases here : v = u
  · subst here
    rw [log_same] at same
    exact ⟨rfl, List.singleton_inj.mp (List.append_cancel_left same)⟩
  · rw [log, Function.update_of_ne here] at same
    have := congrArg List.length same
    simp at this

/-- Only a drop destroys, and it destroys the value in its frame. -/
theorem Step.destroys (taken : Step s s') {v thread : Nat}
    (same : s'.history v = s.history v ++ [.destroyed thread]) :
    ∃ d ∈ s.drops, s.body d.frame = v ∧ d.thread = thread := by
  have unchanged : s.history v ≠ s.history v ++ [.destroyed thread] := by
    intro equal
    have := congrArg List.length equal
    simp at this
  cases taken with
  | new | clone | dropShared | releaseOwned | recycle => cases (log_eq_append same).2
  | intoShared | move | dropOwned => exact (unchanged same).elim
  | destroyOwned drop | destroyShared drop =>
      obtain ⟨rfl, equal⟩ := log_eq_append same
      cases equal
      exact ⟨_, drop.mem_iff.mpr List.mem_cons_self, rfl, rfl⟩

theorem Sound.only_drop (sound : Sound frames s) (distinct : frames.Nodup) {d : Drop}
    (member : d ∈ s.drops) : ∀ d' ∈ s.drops, d'.value = d.value → d' = d := by
  obtain ⟨left, right, split⟩ := List.append_of_mem member
  have order : s.drops.Perm (d :: (left ++ right)) := by
    rw [split]
    exact List.perm_middle
  intro d' inside value
  rcases List.mem_cons.mp (order.mem_iff.mp inside) with same | other
  · exact same
  · exact ((sound.reorder (.refl _) order).drop_alone distinct d' other value).elim

/-- A drop under way is on its way to one of the two endings. -/
theorem Drop.done_ending (d : Drop) : ∃ ending, Ending ending ∧ d.done <+: ending := by
  unfold Drop.done
  cases d.stage with
  | ownedDestroy | ownedRelease | ownedRecycle =>
      exact ⟨_, ⟨d.thread, .inl rfl⟩, by simp⟩
  | sharedDestroy | sharedRecycle => exact ⟨_, ⟨d.thread, .inr rfl⟩, by simp⟩

theorem Sound.lives (sound : Sound frames s) (v : Nat) : ∃ life, Life life ∧ s.history v <+: life := by
  have whole : ∀ early ending, (∀ e ∈ early, Early e) → Ending ending →
      Life (.stored :: early ++ ending) :=
    fun early ending only ends => ⟨early, ending, only, ends, rfl⟩
  have some_ending : Ending [.released 0 .free, .destroyed 0, .recycled 0] := ⟨0, .inr rfl⟩
  by_cases born : v < s.next
  · obtain ⟨early, only, held, dying, gone⟩ := sound.told v born
    by_cases holds : ∃ x ∈ s.handles, x.2.value = v
    · obtain ⟨x, member, value⟩ := holds
      rw [held x member value]
      exact ⟨_, whole early _ only some_ending, List.prefix_append ..⟩
    · by_cases drops : ∃ d ∈ s.drops, d.value = v
      · obtain ⟨d, member, value⟩ := drops
        obtain ⟨ending, ends, done⟩ := Drop.done_ending d
        rw [dying d member value]
        exact ⟨_, whole early _ only ends, (List.prefix_append_right_inj _).mpr done⟩
      · obtain ⟨ending, ends, told⟩ := gone (fun x member value => holds ⟨x, member, value⟩)
          fun d member value => drops ⟨d, member, value⟩
        rw [told]
        exact ⟨_, whole early _ only ends, List.prefix_refl _⟩
  · rw [sound.unborn v (Nat.le_of_not_lt born)]
    exact ⟨_, whole [] _ nofun some_ending, List.nil_prefix⟩

/-- In every state that any interleaving reaches, the count is the number of live
    handles, and every value is destroyed and its frame returned once, in order, by
    the thread that dropped the last handle. -/
theorem reached_orderly (distinct : frames.Nodup) (reached : Reached frames s) : Orderly s := by
  have sound := reached.sound distinct
  refine ⟨fun f => (sound.books f).counted, fun x member => (sound.homes x member).2.2, sound.lives,
    ?_, ?_⟩
  · intro v born noHandle noDrop
    obtain ⟨early, only, -, -, gone⟩ := sound.told v born
    obtain ⟨ending, ends, told⟩ := gone noHandle noDrop
    exact ⟨early, ending, only, ends, told⟩
  · intro s' taken v thread same
    obtain ⟨d, member, body, by_thread⟩ := taken.destroys same
    have value : d.value = v := (sound.dropHomes d member).2.2.symm.trans body
    subst value
    exact ⟨d, member, rfl, by_thread, sound.no_handle_of distinct member,
      sound.only_drop distinct member⟩

/-- A value shared, cloned and dropped twice; then its frame holds another. -/
theorem reached_orderly_cloned :
    ∃ s, Reached [4096] s ∧ s.handles = [(0, ⟨.owned, 4096, 1⟩)] ∧
      s.history 0 = [.stored, .cloned, .released 7 .keep, .released 8 .free, .destroyed 8,
        .recycled 8] ∧ Orderly s := by
  have h₀ : Reached [4096] _ := .fresh
  have h₁ := h₀.step (.new 4096 0 (by decide) ⟨by decide, by decide⟩)
  have h₂ := h₁.step (.intoShared (.refl _))
  have h₃ := h₂.step (.clone 1 (.refl _) ⟨by decide, by decide⟩)
  have h₄ := h₃.step (.dropShared 7 (.refl _))
  have h₅ := h₄.step (.dropShared 8 (.refl _))
  have h₆ := h₅.step (.destroyShared (.refl _))
  have h₇ := h₆.step (.recycle (.refl _) (.inr rfl))
  have h₈ := h₇.step (.new 4096 0 (by decide) ⟨by decide, by decide⟩)
  exact ⟨_, h₈, rfl, rfl, reached_orderly (by decide) h₈⟩

end Pool

end Typed

end Toccata
