import Mathlib.Data.List.Basic
import Mathlib.Data.List.Nodup
import Mathlib.Tactic.Common

/-! # Doubly linked lists threaded through two link maps

Many lists share one pair of maps `next`/`prev`; a node sits on at most one of
them. `DList nil next prev before head nodes` says that walking from `head`
visits exactly `nodes` and that every back link names the node just left. The
two surgery lemmas state the effect of a push at the front and of an unlink in
the middle; the frame lemma carries every other list across.
-/

namespace Foundations

/-- `nodes` is the list reached from `head`, entered from `before`. -/
def DList (nil : Nat) (next prev : Nat → Nat) : Nat → Nat → List Nat → Prop
  | _, head, [] => head = nil
  | before, head, node :: rest =>
      head = node ∧ node ≠ nil ∧ prev node = before ∧ DList nil next prev node (next node) rest

namespace DList

variable {nil : Nat} {next prev next' prev' : Nat → Nat} {before head : Nat} {nodes : List Nat}

theorem ne_nil (h : DList nil next prev before head nodes) : ∀ x ∈ nodes, x ≠ nil := by
  induction nodes generalizing before head with
  | nil => simp
  | cons node rest ih =>
      obtain ⟨-, proper, -, tail⟩ := h
      intro x member
      rcases List.mem_cons.mp member with rfl | inRest
      · exact proper
      · exact ih tail x inRest

/-- Links outside the list are free to change. -/
theorem frame (h : DList nil next prev before head nodes)
    (sameNext : ∀ x ∈ nodes, next' x = next x) (samePrev : ∀ x ∈ nodes, prev' x = prev x) :
    DList nil next' prev' before head nodes := by
  induction nodes generalizing before head with
  | nil => exact h
  | cons node rest ih =>
      obtain ⟨entry, proper, back, tail⟩ := h
      refine ⟨entry, proper, (samePrev node (by simp)).trans back, ?_⟩
      rw [sameNext node (by simp)]
      exact ih tail (fun x hx => sameNext x (List.mem_cons_of_mem _ hx))
        (fun x hx => samePrev x (List.mem_cons_of_mem _ hx))

theorem empty_iff (h : DList nil next prev before head nodes) : head = nil ↔ nodes = [] := by
  cases nodes with
  | nil => exact ⟨fun _ => rfl, fun _ => h⟩
  | cons node rest =>
      obtain ⟨rfl, proper, -⟩ := h
      simp [proper]

/-- A change of the first back link is all that entering from elsewhere takes. -/
theorem reenter {before' : Nat} (h : DList nil next prev before head nodes)
    (distinct : nodes.Nodup) (sameNext : ∀ x ∈ nodes, next' x = next x)
    (samePrev : ∀ x ∈ nodes, x ≠ head → prev' x = prev x)
    (entry : head ≠ nil → prev' head = before') :
    DList nil next' prev' before' head nodes := by
  cases nodes with
  | nil => exact h
  | cons node rest =>
      obtain ⟨rfl, proper, -, tail⟩ := h
      refine ⟨rfl, proper, entry proper, ?_⟩
      rw [sameNext _ (by simp)]
      refine tail.frame (fun x hx => sameNext x (List.mem_cons_of_mem _ hx)) ?_
      intro x hx
      refine samePrev x (List.mem_cons_of_mem _ hx) ?_
      rintro rfl
      exact (List.nodup_cons.mp distinct).1 hx

/-- Push a fresh node at the front. -/
theorem push {node : Nat} (h : DList nil next prev nil head nodes) (proper : node ≠ nil)
    (distinct : nodes.Nodup)
    (nextNode : next' node = head) (prevNode : prev' node = nil)
    (sameNext : ∀ x ∈ nodes, next' x = next x)
    (samePrev : ∀ x ∈ nodes, x ≠ head → prev' x = prev x)
    (prevOld : head ≠ nil → prev' head = node) :
    DList nil next' prev' nil node (node :: nodes) := by
  refine ⟨rfl, proper, prevNode, ?_⟩
  rw [nextNode]
  exact h.reenter distinct sameNext samePrev prevOld

/-- The neighbours recorded at a node are its neighbours in the list. -/
theorem neighbours {left right : List Nat} {node : Nat}
    (h : DList nil next prev before head (left ++ node :: right)) :
    prev node = (left.getLast?).getD before ∧ DList nil next prev node (next node) right := by
  induction left generalizing before head with
  | nil => exact ⟨h.2.2.1, h.2.2.2⟩
  | cons first rest ih =>
      obtain ⟨-, -, -, tail⟩ := h
      obtain ⟨back, forward⟩ := ih tail
      refine ⟨?_, forward⟩
      rw [back]
      cases rest <;> simp [List.getLast?_cons]

/-- The back link of a node past the first names a node before it. -/
theorem prev_mem {left right : List Nat} {node : Nat}
    (h : DList nil next prev before head (left ++ node :: right)) (some : left ≠ []) :
    prev node ∈ left := by
  rw [h.neighbours.1, List.getLast?_eq_some_getLast some, Option.getD_some]
  exact List.getLast_mem some

/-- Cut a node out of the middle: its predecessor is sent to its successor and
    its successor back to its predecessor. Other nodes keep their links. -/
theorem cut {left right : List Nat} {node : Nat}
    (h : DList nil next prev before head (left ++ node :: right))
    (distinct : (left ++ node :: right).Nodup)
    (nextLeft : ∀ x ∈ left, next' x = if x = prev node then next node else next x)
    (nextRight : ∀ x ∈ right, next' x = next x)
    (prevLeft : ∀ x ∈ left, prev' x = prev x)
    (prevRight : ∀ x ∈ right, prev' x = if x = next node then prev node else prev x) :
    DList nil next' prev' before (if left = [] then next node else head) (left ++ right) := by
  induction left generalizing before head with
  | nil =>
      obtain ⟨-, -, back, tail⟩ := h
      simp only [List.nil_append, if_true]
      have rightDistinct := (List.nodup_cons.mp distinct).2
      refine tail.reenter rightDistinct nextRight ?_ ?_
      · intro x hx notHead
        rw [prevRight x hx, if_neg notHead]
      · intro proper
        cases right with
        | nil => exact (proper tail).elim
        | cons y ys =>
            have same : next node = y := tail.1
            rw [same, prevRight y (by simp), if_pos same.symm, back]
  | cons first rest ih =>
      have behind := h.neighbours.1
      obtain ⟨entry, proper, back, tail⟩ := h
      obtain ⟨firstNew, restDistinct⟩ := List.nodup_cons.mp distinct
      simp only [List.cons_append, if_neg (List.cons_ne_nil _ _)]
      refine ⟨entry, proper, (prevLeft first (by simp)).trans back, ?_⟩
      -- the node cut out follows `first` only when nothing stands between them
      have follow : next' first = if rest = [] then next node else next first := by
        rw [nextLeft first (by simp)]
        by_cases none : rest = []
        · subst none
          rw [if_pos rfl, if_pos]
          rw [behind]
          rfl
        · rw [if_neg none, if_neg]
          intro clash
          exact firstNew (List.mem_append_left _ (clash ▸ tail.prev_mem none))
      rw [follow]
      exact ih tail restDistinct
        (fun x hx => nextLeft x (List.mem_cons_of_mem _ hx))
        (fun x hx => prevLeft x (List.mem_cons_of_mem _ hx))

end DList

end Foundations
