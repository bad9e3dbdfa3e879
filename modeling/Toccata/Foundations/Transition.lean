import Mathlib.Tactic.Common

/-! # Reachable states

A system is a set of initial states and a step relation. What holds initially and
survives every step holds of every reachable state; where steps carry a condition,
the condition is part of the relation.
-/

namespace Foundations

inductive Reachable {σ : Type} (init : σ → Prop) (step : σ → σ → Prop) : σ → Prop where
  | start {s} : init s → Reachable init step s
  | next {s s'} : Reachable init step s → step s s' → Reachable init step s'

variable {σ : Type} {init : σ → Prop} {step : σ → σ → Prop}

theorem Reachable.invariant {I : σ → Prop} (base : ∀ s, init s → I s)
    (keeps : ∀ s s', I s → step s s' → I s') {s : σ} (reached : Reachable init step s) : I s := by
  induction reached with
  | start initial => exact base _ initial
  | next _ taken ih => exact keeps _ _ ih taken

end Foundations
