import Toccata.Foundations.Prog

/-! # Programs in steps

A step of a program in steps answers with a value and with what is to be done next.
Steps that do not finish answer `0`. Taken one after the other, with nothing else in
between, they make up an ordinary program; the rules below say which, along the shape
of its text.
-/

namespace Foundations

variable {ε σ α β π : Type} [Zero α] {step : π → Prog ε σ (α × π)} {fin : π}

/-- Steps taken one after the other from `pc`, until `fin` or a panic. -/
inductive Ends (step : π → Prog ε σ (α × π)) (fin : π) :
    π → σ → List ε → Option α × σ × List ε → Prop where
  | halt (s : σ) (env : List ε) : Ends step fin fin s env (some 0, s, env)
  | last {pc s env a s' env'} : pc ≠ fin → step pc s env = (some (a, fin), s', env') →
      Ends step fin pc s env (some a, s', env')
  | next {pc pc' s env s' env' out} : pc ≠ fin → step pc s env = (some (0, pc'), s', env') →
      Ends step fin pc' s' env' out → Ends step fin pc s env out
  | panic {pc s env s' env'} : pc ≠ fin → step pc s env = (none, s', env') →
      Ends step fin pc s env (none, s', env')

/-- From `P`, the steps from `pc` on are the program `m`. -/
def Runs (step : π → Prog ε σ (α × π)) (fin : π) (P : σ → Prop) (pc : π) (m : Prog ε σ α) : Prop :=
  ∀ s env, P s → Ends step fin pc s env (m s env)

/-- From `P`, the step `p` and those after it are the program `m`. -/
def Continues (step : π → Prog ε σ (α × π)) (fin : π) (P : σ → Prop) (p : Prog ε σ (α × π))
    (m : Prog ε σ α) : Prop :=
  ∀ s env, P s →
    match p s env with
    | (some (a, pc), s', env') =>
        (pc = fin ∧ m s env = (some a, s', env')) ∨ (a = 0 ∧ Ends step fin pc s' env' (m s env))
    | (none, s', env') => m s env = (none, s', env')

namespace Continues

variable {P P' : σ → Prop} {p p' : Prog ε σ (α × π)} {m m' : Prog ε σ α} {pc : π}

theorem runs (differs : pc ≠ fin) (continues : Continues step fin P (step pc) m) :
    Runs step fin P pc m := by
  intro s env pre
  have ends := continues s env pre
  rcases outcome : step pc s env with ⟨_ | ⟨a, pc'⟩, s', env'⟩ <;> simp only [outcome] at ends
  · rw [ends]
    exact .panic differs outcome
  · rcases ends with ⟨rfl, ends⟩ | ⟨rfl, ends⟩
    · rw [ends]
      exact .last differs outcome
    · exact .next differs outcome ends

/-- The last step. -/
theorem last (a : α) : Continues step fin P (pure (a, fin)) (pure a) :=
  fun _ _ _ => .inl ⟨rfl, rfl⟩

theorem next (runs : Runs step fin P pc m) : Continues step fin P (pure (0, pc)) m :=
  fun s env pre => .inr ⟨rfl, runs s env pre⟩

theorem fail : Continues step fin P Prog.fail Prog.fail := fun _ _ _ => rfl

/-- A common beginning. -/
theorem bind {begun : Prog ε σ β} {f : β → Prog ε σ (α × π)} {k : β → Prog ε σ α}
    {Q : β → σ → Prop} (first : Triple P begun Q fun _ => True)
    (rest : ∀ b, Continues step fin (Q b) (f b) (k b)) :
    Continues step fin P (begun >>= f) (begun >>= k) := by
  intro s env pre
  have ends := first s env pre
  simp only [Bind.bind]
  rcases outcome : begun s env with ⟨_ | b, s', env'⟩ <;> simp only [outcome] at ends ⊢
  exact rest b s' env' ends

/-- A common beginning, after which nothing is assumed. -/
theorem after {begun : Prog ε σ β} {f : β → Prog ε σ (α × π)} {k : β → Prog ε σ α}
    (rest : ∀ b, Continues step fin (fun _ => True) (f b) (k b)) :
    Continues step fin P (begun >>= f) (begun >>= k) := by
  refine bind (Q := fun _ _ => True) (fun s env _ => ?_) rest
  rcases begun s env with ⟨_ | b, s', env'⟩ <;> trivial

theorem ite {c : Prop} [Decidable c] (yes : c → Continues step fin P p m)
    (no : ¬c → Continues step fin P p' m') :
    Continues step fin P (if c then p else p') (if c then m else m') := by
  by_cases h : c
  · simpa only [h, if_true] using yes h
  · simpa only [h, if_false] using no h

theorem congr (continues : Continues step fin P p m) (same : ∀ s env, P s → m' s env = m s env) :
    Continues step fin P p m' := by
  intro s env pre
  rw [same s env pre]
  exact continues s env pre

/-- A look at the memory, followed from one state at a time. -/
theorem inspect {f : σ → Prog ε σ (α × π)} (each : ∀ s, P s → Continues step fin (· = s) (f s) m) :
    Continues step fin P (Prog.read >>= f) m :=
  fun s env pre => each s pre s env rfl

end Continues

namespace Runs

variable {P P' : σ → Prop} {m m' : Prog ε σ α} {pc : π}

theorem halt : Runs step fin P fin (pure 0) := fun s env _ => .halt s env

theorem strengthen (runs : Runs step fin P pc m) (pre : ∀ s, P' s → P s) : Runs step fin P' pc m :=
  fun s env holds => runs s env (pre s holds)

theorem congr (runs : Runs step fin P pc m) (same : ∀ s env, P s → m' s env = m s env) :
    Runs step fin P pc m' := by
  intro s env pre
  rw [same s env pre]
  exact runs s env pre

end Runs

end Foundations
