import Mathlib.Data.List.Nodup
import Mathlib.Logic.Function.Basic
import Mathlib.Tactic.Common

/-! # Singly linked lists threaded through one link map

`Chain next head nodes stop` says that following `next` from `head` visits exactly
`nodes` and then arrives at `stop`. Walks compose at any point, and a node is cut out
by redirecting the link of the one before it.
-/

namespace Foundations

def Chain (next : Nat → Nat) : Nat → List Nat → Nat → Prop
  | head, [], stop => head = stop
  | head, node :: rest, stop => head = node ∧ Chain next (next node) rest stop

instance Chain.decidable (next : Nat → Nat) :
    ∀ head nodes stop, Decidable (Chain next head nodes stop)
  | head, [], stop => inferInstanceAs (Decidable (head = stop))
  | head, node :: rest, stop =>
      have := Chain.decidable next (next node) rest stop
      inferInstanceAs (Decidable (head = node ∧ Chain next (next node) rest stop))

namespace Chain

variable {next next' : Nat → Nat} {head stop : Nat} {nodes : List Nat}

/-- Links outside the list are free to change. -/
theorem frame (h : Chain next head nodes stop) (same : ∀ x ∈ nodes, next' x = next x) :
    Chain next' head nodes stop := by
  induction nodes generalizing head with
  | nil => exact h
  | cons node rest ih =>
      obtain ⟨entry, tail⟩ := h
      refine ⟨entry, ?_⟩
      rw [same node List.mem_cons_self]
      exact ih tail fun x member => same x (List.mem_cons_of_mem _ member)

theorem append {left right : List Nat} :
    Chain next head (left ++ right) stop ↔
      ∃ middle, Chain next head left middle ∧ Chain next middle right stop := by
  induction left generalizing head with
  | nil =>
      constructor
      · intro h
        exact ⟨head, rfl, h⟩
      · rintro ⟨middle, rfl, h⟩
        exact h
  | cons node rest ih =>
      constructor
      · rintro ⟨entry, tail⟩
        obtain ⟨middle, first, second⟩ := ih.mp tail
        exact ⟨middle, ⟨entry, first⟩, second⟩
      · rintro ⟨middle, ⟨entry, first⟩, second⟩
        exact ⟨entry, ih.mpr ⟨middle, first, second⟩⟩

/-- A new first node. -/
theorem push {node : Nat} (h : Chain next head nodes stop) (outside : node ∉ nodes) :
    Chain (Function.update next node head) node (node :: nodes) stop := by
  refine ⟨rfl, ?_⟩
  rw [Function.update_self]
  apply h.frame
  intro x member
  apply Function.update_of_ne
  intro same
  exact outside (same ▸ member)

/-- A node cut out from behind `before`. -/
theorem cut {left right : List Nat} {before node : Nat}
    (h : Chain next head (left ++ before :: node :: right) stop)
    (distinct : (left ++ before :: node :: right).Nodup) :
    Chain (Function.update next before (next node)) head (left ++ before :: right) stop := by
  obtain ⟨middle, first, entry, jump, rest⟩ := append.mp h
  have apart := List.nodup_append.mp distinct
  have outside := List.nodup_cons.mp apart.2.1
  apply append.mpr
  refine ⟨middle, first.frame ?_, entry, ?_⟩
  · intro x member
    apply Function.update_of_ne
    exact apart.2.2 x member before List.mem_cons_self
  · rw [Function.update_self]
    apply rest.frame
    intro x member
    apply Function.update_of_ne
    intro same
    exact outside.1 (same ▸ List.mem_cons_of_mem _ member)

/-- Where the walk stops is no node of it, so it tells when the list is empty. -/
theorem head_eq_stop_iff (h : Chain next head nodes stop) (outside : stop ∉ nodes) :
    head = stop ↔ nodes = [] := by
  cases nodes with
  | nil => exact ⟨fun _ => rfl, fun _ => h⟩
  | cons node rest =>
      obtain ⟨rfl, -⟩ := h
      constructor
      · rintro rfl
        exact (outside List.mem_cons_self).elim
      · intro empty
        cases empty

/-- A walk starts at its first node. -/
theorem head_eq (h : Chain next head nodes stop) : head = nodes.headD stop := by
  cases nodes with
  | nil => exact h
  | cons node rest => exact h.1

/-- Following the links determines the list. -/
theorem unique {nodes' : List Nat} (h : Chain next head nodes stop)
    (h' : Chain next head nodes' stop) (outside : stop ∉ nodes) (outside' : stop ∉ nodes') :
    nodes = nodes' := by
  induction nodes generalizing head nodes' with
  | nil => exact ((head_eq_stop_iff h' outside').mp h).symm
  | cons node rest ih =>
      cases nodes' with
      | nil => exact (head_eq_stop_iff h outside).mp h'
      | cons node' rest' =>
          obtain ⟨rfl, tail⟩ := h
          obtain ⟨rfl, tail'⟩ := h'
          rw [ih tail tail' (fun member => outside (List.mem_cons_of_mem _ member))
            fun member => outside' (List.mem_cons_of_mem _ member)]

end Chain

end Foundations
