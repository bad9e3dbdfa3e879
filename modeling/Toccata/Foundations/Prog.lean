import Mathlib.Order.Defs.Unbundled
import Mathlib.Tactic.Common

/-! # Programs with memory, panics and a schedule

`Prog ε σ α` is a program over memory `σ`. It may panic, and a panic keeps the
memory as it stands; at every `ask` the environment decides how the next attempt
goes, by handing over the next entry of its schedule. `Triple P m Q E` is total
over schedules: from `P`, whatever the environment answers, `m` either returns
with `Q` or panics with `E`. The rules below are the only way proofs about
programs look inside them.
-/

namespace Foundations

def Prog (ε σ α : Type) := σ → List ε → Option α × σ × List ε

namespace Prog

variable {ε σ α β : Type}

instance : Monad (Prog ε σ) where
  pure a := fun s env => (some a, s, env)
  bind m f := fun s env =>
    match m s env with
    | (some a, s', env') => f a s' env'
    | (none, s', env') => (none, s', env')

def read : Prog ε σ σ := fun s env => (some s, s, env)

def modify (f : σ → σ) : Prog ε σ Unit := fun s env => (some (), f s, env)

def fail : Prog ε σ α := fun s env => (none, s, env)

/-- The environment's next answer; a schedule that has run out answers `none`. -/
def ask : Prog ε σ (Option ε) := fun s env => (some env.head?, s, env.tail)

/-- Index checks and other partial updates of the source: `none` panics. -/
def update (f : σ → Option σ) : Prog ε σ Unit := fun s env =>
  match f s with
  | some s' => (some (), s', env)
  | none => (none, s, env)

/-- A pure transition of the memory with its answer. -/
def apply (f : σ → α × σ) : Prog ε σ α := fun s env => (some (f s).1, (f s).2, env)

/-- A loop that runs at most `n` times, carries `b` along and stops early when
    its body is `done`. -/
def loop (body : β → Prog ε σ (ForInStep β)) : Nat → β → Prog ε σ β
  | 0, b => pure b
  | n + 1, b => do
      match ← body b with
      | .done b' => pure b'
      | .yield b' => loop body n b'

/-- A loop that carries nothing and stops when the body says so. -/
def upTo (n : Nat) (body : Prog ε σ Bool) : Prog ε σ Unit :=
  loop (fun _ => do if ← body then pure (.yield ()) else pure (.done ())) n ()

/-- The results of `body` on every entry, in order. -/
def each (body : α → Prog ε σ β) : List α → Prog ε σ (List β)
  | [] => pure []
  | a :: rest => do
      let b ← body a
      let bs ← each body rest
      pure (b :: bs)

/-- A program over one part of a larger memory. -/
def within {τ : Type} (get : τ → σ) (put : σ → τ → τ) (m : Prog ε σ α) : Prog ε τ α := fun t env =>
  ((m (get t) env).1, put (m (get t) env).2.1 t, (m (get t) env).2.2)

theorem read_bind (f : σ → Prog ε σ β) (s : σ) (env : List ε) : (read >>= f) s env = f s s env := rfl

theorem bind_bind {γ : Type} (m : Prog ε σ α) (f : α → Prog ε σ β) (k : β → Prog ε σ γ) :
    (m >>= f) >>= k = m >>= fun a => f a >>= k := by
  funext s env
  simp only [bind]
  rcases m s env with ⟨_ | a, s', env'⟩ <;> rfl

theorem apply_some {f : σ → α × σ} {s s' : σ} {a : α} (out : f s = (a, s')) (env : List ε) :
    apply f s env = (some a, s', env) := by
  rw [apply, out]

theorem ite_bind {c : Prop} [Decidable c] (m m' : Prog ε σ α) (f : α → Prog ε σ β) :
    (if c then m else m') >>= f = if c then m >>= f else m' >>= f := by
  split <;> rfl

theorem bind_some {m : Prog ε σ α} {f : α → Prog ε σ β} {s s' : σ} {env env' : List ε} {a : α}
    (out : m s env = (some a, s', env')) : (m >>= f) s env = f a s' env' := by
  simp only [bind, out]

theorem bind_same {m m' : Prog ε σ α} {s : σ} {env : List ε} (same : m s env = m' s env)
    (f : α → Prog ε σ β) : (m >>= f) s env = (m' >>= f) s env := by
  simp only [bind, same]

/-- An answer made of another changes nothing. -/
theorem bind_pure_snd (m : Prog ε σ α) (f : α → β) (s : σ) (env : List ε) :
    ((m >>= fun a => pure (f a)) s env).2 = (m s env).2 := by
  simp only [bind]
  rcases m s env with ⟨_ | a, s', env'⟩ <;> rfl

theorem each_cons_some {body : α → Prog ε σ β} {a : α} {rest : List α} {s s' : σ} {env env' : List ε}
    {bs : List β} (out : each body (a :: rest) s env = (some bs, s', env')) :
    ∃ b s₁ env₁ bs', body a s env = (some b, s₁, env₁) ∧
      each body rest s₁ env₁ = (some bs', s', env') := by
  rw [each] at out
  simp only [bind] at out
  rcases first : body a s env with ⟨_ | b, s₁, env₁⟩ <;> rw [first] at out
  · cases out
  · rcases others : each body rest s₁ env₁ with ⟨_ | bs', s₂, env₂⟩ <;> simp only [others] at out
    · cases out
    · cases out
      exact ⟨b, s₁, env₁, bs', rfl, others⟩

/-- A run over two lists is a run over each. -/
theorem each_append_some {body : α → Prog ε σ β} {left right : List α} {s s' : σ} {env env' : List ε}
    {bs : List β} (out : each body (left ++ right) s env = (some bs, s', env')) :
    ∃ s₁ env₁ bs₁ bs₂, each body left s env = (some bs₁, s₁, env₁) ∧
      each body right s₁ env₁ = (some bs₂, s', env') := by
  induction left generalizing s env bs with
  | nil => exact ⟨s, env, [], bs, rfl, out⟩
  | cons a rest ih =>
      obtain ⟨b, s₁, env₁, bs', first, others⟩ := each_cons_some out
      obtain ⟨s₂, env₂, bs₁, bs₂, here, there⟩ := ih others
      refine ⟨s₂, env₂, b :: bs₁, bs₂, ?_, there⟩
      rw [each, bind_some first, bind_some here]
      rfl

theorem upTo_succ (n : Nat) (body : Prog ε σ Bool) :
    upTo (n + 1) body = body >>= fun again => if again then upTo n body else pure () := by
  funext s env
  simp only [upTo, loop, bind]
  rcases body s env with ⟨_ | again, s', env'⟩
  · rfl
  · cases again <;> rfl

theorem upTo_again {body : Prog ε σ Bool} {n : Nat} {s s' : σ} {env env' : List ε}
    (out : body s env = (some true, s', env')) : upTo (n + 1) body s env = upTo n body s' env' := by
  have pass : (do if ← body then pure (ForInStep.yield ()) else pure (.done ()) :
      Prog ε σ (ForInStep Unit)) s env = (some (.yield ()), s', env') := by
    rw [bind_some out]
    rfl
  rw [upTo, loop, bind_some pass]
  rfl

end Prog

def Triple {ε σ α : Type} (P : σ → Prop) (m : Prog ε σ α) (Q : α → σ → Prop)
    (E : σ → Prop) : Prop :=
  ∀ s env, P s →
    match m s env with
    | (some a, s', _) => Q a s'
    | (none, s', _) => E s'

namespace Triple

variable {ε σ α β : Type} {P P' : σ → Prop} {m : Prog ε σ α} {Q Q' : α → σ → Prop}
  {E : σ → Prop}

theorem ret (a : α) (h : ∀ s, P s → Q a s) : Triple P (pure a : Prog ε σ α) Q E :=
  fun s _ pre => h s pre

theorem bind {f : α → Prog ε σ β} {R : β → σ → Prop} (first : Triple P m Q E)
    (next : ∀ a, Triple (Q a) (f a) R E) : Triple P (m >>= f) R E := by
  intro s env pre
  have mid := first s env pre
  show match (match m s env with
    | (some a, s', env') => f a s' env'
    | (none, s', env') => (none, s', env')) with
    | (some b, s', _) => R b s'
    | (none, s', _) => E s'
  rcases outcome : m s env with ⟨_ | a, s', env'⟩
  · simpa only [outcome] using mid
  · simp only [outcome] at mid
    exact next a s' env' mid

theorem strengthen (h : Triple P m Q E) (pre : ∀ s, P' s → P s) : Triple P' m Q E :=
  fun s env holds => h s env (pre s holds)

theorem weaken (h : Triple P m Q E) (post : ∀ a s, Q a s → Q' a s) : Triple P m Q' E := by
  intro s env pre
  have ends := h s env pre
  rcases outcome : m s env with ⟨_ | a, s', env'⟩ <;> simp only [outcome] at ends ⊢
  · exact ends
  · exact post a s' ends

theorem relax {E' : σ → Prop} (h : Triple P m Q E) (panic : ∀ s, E s → E' s) : Triple P m Q E' := by
  intro s env pre
  have ends := h s env pre
  rcases outcome : m s env with ⟨_ | a, s', env'⟩ <;> simp only [outcome] at ends ⊢
  · exact panic s' ends
  · exact ends

theorem fail {Q : α → σ → Prop} (h : ∀ s, P s → E s) : Triple P (Prog.fail : Prog ε σ α) Q E :=
  fun s _ pre => h s pre

theorem choose {ι : Type} {P : ι → σ → Prop} (h : ∀ x, Triple (P x) m Q E) :
    Triple (fun s => ∃ x, P x s) m Q E :=
  fun s env ⟨x, pre⟩ => h x s env pre

theorem lift {c : Prop} (h : c → Triple P m Q E) : Triple (fun s => c ∧ P s) m Q E :=
  fun s env ⟨holds, pre⟩ => h holds s env pre

/-- It is enough to start from each memory by itself. -/
theorem pin (h : ∀ s, P s → Triple (· = s) m Q E) : Triple P m Q E :=
  fun s env pre => h s pre s env rfl

/-- A fact about nothing in memory survives. -/
theorem const (c : Prop) : Triple (fun _ => c) m (fun _ _ => c) (fun _ => c) := by
  intro s env holds
  rcases m s env with ⟨_ | a, s', env'⟩ <;> exact holds

/-- A run from one memory. -/
theorem start {s : σ} (h : Triple P m Q E) (pre : P s) : Triple (· = s) m Q E := by
  rintro _ env rfl
  exact h _ env pre

/-- From one memory, what holds of a program holds of any that does the same there. -/
theorem same {s : σ} {m' : Prog ε σ α} (h : Triple (· = s) m' Q E) (same : m s = m' s) :
    Triple (· = s) m Q E := by
  rintro _ env rfl
  rw [same]
  exact h _ env rfl

/-- What holds in the end, panic or not. -/
theorem ends (h : Triple P m (fun _ => E) E) {s : σ} (env : List ε) (pre : P s) : E (m s env).2.1 := by
  have holds := h s env pre
  rcases outcome : m s env with ⟨_ | a, s', env'⟩ <;> simp only [outcome] at holds ⊢ <;> exact holds

/-- Reading fixes the memory the rest starts from. -/
theorem inspect {f : σ → Prog ε σ β} {R : β → σ → Prop}
    (next : ∀ s, P s → Triple (· = s) (f s) R E) : Triple P (Prog.read >>= f) R E :=
  fun s env pre => next s pre s env rfl

theorem modify {f : σ → σ} {Q : Unit → σ → Prop} (h : ∀ s, P s → Q () (f s)) :
    Triple P (Prog.modify f : Prog ε σ Unit) Q E :=
  fun s _ pre => h s pre

theorem ask {Q : Option ε → σ → Prop} (h : ∀ a s, P s → Q a s) :
    Triple P (Prog.ask : Prog ε σ (Option ε)) Q E :=
  fun s env pre => h env.head? s pre

theorem update {f : σ → Option σ} {Q : Unit → σ → Prop}
    (h : ∀ s, P s → ∃ s', f s = some s' ∧ Q () s') :
    Triple P (Prog.update f : Prog ε σ Unit) Q E := by
  intro s env pre
  obtain ⟨s', result, post⟩ := h s pre
  simpa only [Prog.update, result] using post

theorem apply {f : σ → α × σ} (h : ∀ s, P s → Q (f s).1 (f s).2) :
    Triple P (Prog.apply f : Prog ε σ α) Q E :=
  fun s _ pre => h s pre

theorem ite {c : Prop} [Decidable c] {m' : Prog ε σ α} (yes : c → Triple P m Q E)
    (no : ¬c → Triple P m' Q E) : Triple P (if c then m else m') Q E := by
  by_cases h : c
  · simpa only [h, if_true] using yes h
  · simpa only [h, if_false] using no h

/-- A bounded loop: `I k` holds with `k` passes to go, and `J` on the way out. -/
theorem loop {body : β → Prog ε σ (ForInStep β)} {I : Nat → β → σ → Prop} {J : β → σ → Prop}
    (pass : ∀ k b, Triple (I (k + 1) b) (body b) (fun r s =>
      match r with
      | .yield b' => I k b' s
      | .done b' => J b' s) E)
    (exit : ∀ b s, I 0 b s → J b s) (n : Nat) (b : β) :
    Triple (I n b) (Prog.loop body n b) J E := by
  induction n generalizing b with
  | zero => exact ret b (exit b)
  | succ n ih =>
      refine bind (pass n b) fun r => ?_
      cases r with
      | done b' => exact ret b' fun _ out => out
      | yield b' => exact ih b'

/-- What the body keeps, every bounded loop over it keeps. -/
theorem upTo {I : σ → Prop} {body : Prog ε σ Bool} (n : Nat)
    (keeps : Triple I body (fun _ => I) E) : Triple I (Prog.upTo n body) (fun _ => I) E := by
  refine loop (I := fun _ _ => I) (J := fun _ => I) (fun _ _ => ?_) (fun _ _ kept => kept) n ()
  exact bind keeps fun again => ite (fun _ => ret _ fun _ kept => kept)
    (fun _ => ret _ fun _ kept => kept)

theorem each_nil {body : α → Prog ε σ β} {R : List β → σ → Prop} (h : ∀ s, P s → R [] s) :
    Triple P (Prog.each body []) R E :=
  ret [] h

theorem each_cons {body : α → Prog ε σ β} {a : α} {rest : List α} {Q : β → σ → Prop}
    {R : List β → σ → Prop} (first : Triple P (body a) Q E)
    (others : ∀ b, Triple (Q b) (Prog.each body rest) (fun bs => R (b :: bs)) E) :
    Triple P (Prog.each body (a :: rest)) R E :=
  bind first fun b => bind (others b) fun _ => ret _ fun _ h => h

end Triple

/-! ## Where memory may go -/

/-- Whatever the schedule and the outcome, memory ends where `R` leads from its start. -/
def Moves {ε σ α : Type} (R : σ → σ → Prop) (m : Prog ε σ α) : Prop := ∀ s env, R s (m s env).2.1

namespace Moves

variable {ε σ α β : Type} {R : σ → σ → Prop} {m : Prog ε σ α}

/-- A program that moves memory along `R` does so on top of what else it promises. -/
theorem along {P E : σ → Prop} {Q : α → σ → Prop} (moves : Moves R m) (s : σ)
    (keeps : Triple P m Q E) (pre : P s) : Triple (· = s) m (fun a s' => Q a s' ∧ R s s') E := by
  rintro t env rfl
  have moved := moves t env
  have ends := keeps t env pre
  rcases outcome : m t env with ⟨_ | a, s', env'⟩ <;> simp only [outcome] at moved ends ⊢
  · exact ends
  · exact ⟨ends, moved⟩

theorem modify {f : σ → σ} (h : ∀ s, R s (f s)) : Moves R (Prog.modify f : Prog ε σ Unit) :=
  fun s _ => h s

theorem apply {f : σ → α × σ} (h : ∀ s, R s (f s).2) : Moves R (Prog.apply f : Prog ε σ α) :=
  fun s _ => h s

theorem apply_eq {f : σ → α × σ} (h : ∀ s a s', f s = (a, s') → R s s') :
    Moves R (Prog.apply f : Prog ε σ α) :=
  fun s _ => h s _ _ rfl

theorem inspect {f : σ → Prog ε σ β} (next : ∀ s, Moves R (f s)) : Moves R (Prog.read >>= f) :=
  fun s env => next s s env

theorem ite {c : Prop} [Decidable c] {m' : Prog ε σ α} (yes : Moves R m) (no : Moves R m') :
    Moves R (if c then m else m') := by
  by_cases h : c
  · simpa only [h, if_true] using yes
  · simpa only [h, if_false] using no

section Reflexive

variable [Std.Refl R]

theorem ret (a : α) : Moves R (pure a : Prog ε σ α) := fun s _ => Std.Refl.refl s

theorem fail : Moves R (Prog.fail : Prog ε σ α) := fun s _ => Std.Refl.refl s

theorem ask : Moves R (Prog.ask : Prog ε σ (Option ε)) := fun s _ => Std.Refl.refl s

end Reflexive

variable [IsTrans σ R]

theorem bind {f : α → Prog ε σ β} (first : Moves R m) (next : ∀ a, Moves R (f a)) :
    Moves R (m >>= f) := by
  intro s env
  have begun := first s env
  simp only [Bind.bind]
  rcases outcome : m s env with ⟨_ | a, s', env'⟩ <;> rw [outcome] at begun
  · exact begun
  · exact IsTrans.trans _ _ _ begun (next a s' env')

variable [Std.Refl R]

theorem loop {body : β → Prog ε σ (ForInStep β)} (pass : ∀ b, Moves R (body b)) (n : Nat) (b : β) :
    Moves R (Prog.loop body n b) := by
  induction n generalizing b with
  | zero => exact ret b
  | succ n ih =>
      apply bind (pass b)
      intro r
      cases r with
      | done b' => exact ret b'
      | yield b' => exact ih b'

theorem upTo {body : Prog ε σ Bool} (pass : Moves R body) (n : Nat) : Moves R (Prog.upTo n body) := by
  apply loop
  intro _
  exact bind pass fun _ => ite (ret _) (ret _)

theorem each {body : α → Prog ε σ β} (pass : ∀ a, Moves R (body a)) (entries : List α) :
    Moves R (Prog.each body entries) := by
  induction entries with
  | nil => exact ret []
  | cons a rest ih => exact (pass a).bind fun _ => ih.bind fun _ => ret _

theorem each_mem {body : α → Prog ε σ β} {entries : List α} (pass : ∀ a ∈ entries, Moves R (body a)) :
    Moves R (Prog.each body entries) := by
  induction entries with
  | nil => exact ret []
  | cons a rest ih =>
      obtain ⟨first, others⟩ := List.forall_mem_cons.mp pass
      exact first.bind fun _ => (ih others).bind fun _ => ret _

end Moves

/-! ## Changes a program does not notice -/

/-- From the memory changed by `f`, `m` does as it would have without the change, and
    leaves the change in place. -/
def Commutes {ε σ α : Type} (f : σ → σ) (m : Prog ε σ α) : Prop :=
  ∀ s env, m (f s) env = ((m s env).1, f (m s env).2.1, (m s env).2.2)

namespace Commutes

variable {ε σ α β : Type} {f : σ → σ} {m : Prog ε σ α}

theorem ret (a : α) : Commutes f (pure a : Prog ε σ α) := fun _ _ => rfl

theorem bind {k : α → Prog ε σ β} (first : Commutes f m) (next : ∀ a, Commutes f (k a)) :
    Commutes f (m >>= k) := by
  intro s env
  have same := first s env
  simp only [Bind.bind, same]
  rcases m s env with ⟨_ | a, s', env'⟩
  · rfl
  · exact next a s' env'

theorem ask : Commutes f (Prog.ask : Prog ε σ (Option ε)) := fun _ _ => rfl

theorem apply {g : σ → α × σ} (same : ∀ s, g (f s) = ((g s).1, f (g s).2)) :
    Commutes f (Prog.apply g : Prog ε σ α) := by
  intro s env
  simp only [Prog.apply, same]

theorem modify {g : σ → σ} (same : ∀ s, g (f s) = f (g s)) :
    Commutes f (Prog.modify g : Prog ε σ Unit) := by
  intro s env
  simp only [Prog.modify, same]

theorem ite {c : Prop} [Decidable c] {m' : Prog ε σ α} (yes : Commutes f m) (no : Commutes f m') :
    Commutes f (if c then m else m') := by
  by_cases h : c
  · simpa only [h, if_true] using yes
  · simpa only [h, if_false] using no

theorem loop {body : β → Prog ε σ (ForInStep β)} (pass : ∀ b, Commutes f (body b)) (n : Nat) (b : β) :
    Commutes f (Prog.loop body n b) := by
  induction n generalizing b with
  | zero => exact ret b
  | succ n ih =>
      apply bind (pass b)
      intro r
      cases r with
      | done b' => exact ret b'
      | yield b' => exact ih b'

theorem upTo {body : Prog ε σ Bool} (pass : Commutes f body) (n : Nat) :
    Commutes f (Prog.upTo n body) := by
  apply loop
  intro _
  exact bind pass fun _ => ite (ret _) (ret _)

end Commutes

/-! ## Questions left unanswered -/

/-- With no answers left in the schedule, `m` does what `m'` does whatever the answers. -/
def Unanswered {ε σ α : Type} (m m' : Prog ε σ α) : Prop :=
  ∀ s env, m s [] = ((m' s env).1, (m' s env).2.1, [])

namespace Unanswered

variable {ε σ α β : Type} {m m' : Prog ε σ α}

theorem ret (a : α) : Unanswered (pure a : Prog ε σ α) (pure a) := fun _ _ => rfl

theorem fail : Unanswered (Prog.fail : Prog ε σ α) Prog.fail := fun _ _ => rfl

theorem apply (f : σ → α × σ) : Unanswered (Prog.apply f : Prog ε σ α) (Prog.apply f) := fun _ _ => rfl

theorem modify (f : σ → σ) : Unanswered (Prog.modify f : Prog ε σ Unit) (Prog.modify f) := fun _ _ => rfl

theorem bind {f f' : α → Prog ε σ β} (first : Unanswered m m') (next : ∀ a, Unanswered (f a) (f' a)) :
    Unanswered (m >>= f) (m' >>= f') := by
  intro s env
  have same := first s env
  simp only [Bind.bind, same]
  rcases m' s env with ⟨_ | a, s', env'⟩
  · rfl
  · exact next a s' env'

theorem inspect {f f' : σ → Prog ε σ β} (next : ∀ s, Unanswered (f s) (f' s)) :
    Unanswered (Prog.read >>= f) (Prog.read >>= f') :=
  fun s env => next s s env

theorem ite {c : Prop} [Decidable c] {n n' : Prog ε σ α} (yes : Unanswered m m') (no : Unanswered n n') :
    Unanswered (if c then m else n) (if c then m' else n') := by
  by_cases h : c
  · simpa only [h, if_true] using yes
  · simpa only [h, if_false] using no

theorem loop {body body' : β → Prog ε σ (ForInStep β)} (pass : ∀ b, Unanswered (body b) (body' b))
    (n : Nat) (b : β) : Unanswered (Prog.loop body n b) (Prog.loop body' n b) := by
  induction n generalizing b with
  | zero => exact ret b
  | succ n ih =>
      apply bind (pass b)
      intro r
      cases r with
      | done b' => exact ret b'
      | yield b' => exact ih b'

end Unanswered

/-! ## Schedules that keep a promise -/

/-- From `P`, under a schedule whose every answer satisfies `G`, `m` can only return
    with `Q`, and takes at most `n` answers off the front. Where `G` allows `none` the
    schedule may run out and `n` says nothing. Panics are left to `Triple`. -/
def Under {ε σ α : Type} (G : Option ε → Prop) (n : Nat) (P : σ → Prop) (m : Prog ε σ α)
    (Q : α → σ → Prop) : Prop :=
  ∀ s env, (∀ e ∈ env, G (some e)) → (G none ∨ n ≤ env.length) → P s →
    ∃ k, (G none ∨ k ≤ n) ∧ (m s env).2.2 = env.drop k ∧
      ∀ a, (m s env).1 = some a → Q a (m s env).2.1

namespace Under

variable {ε σ α β : Type} {G : Option ε → Prop} {n : Nat} {P P' : σ → Prop} {m : Prog ε σ α}
  {Q Q' : α → σ → Prop}

theorem ret (a : α) (h : ∀ s, P s → Q a s) : Under G n P (pure a : Prog ε σ α) Q := by
  intro s env _ _ pre
  refine ⟨0, .inr (Nat.zero_le n), rfl, fun b same => ?_⟩
  obtain rfl : a = b := Option.some.inj same
  exact h s pre

theorem bind {f : α → Prog ε σ β} {R : β → σ → Prop} {j : Nat} (first : Under G n P m Q)
    (next : ∀ a, Under G j (Q a) (f a) R) : Under G (n + j) P (m >>= f) R := by
  intro s env kept enough pre
  obtain ⟨k, within, rest, ends⟩ := first s env kept (by grind) pre
  simp only [Bind.bind]
  rcases outcome : m s env with ⟨_ | a, s', env'⟩ <;> simp only [outcome] at rest ends ⊢
  · exact ⟨k, by grind, rest, fun b none => nomatch none⟩
  · subst rest
    have enough' : G none ∨ j ≤ (env.drop k).length := by
      rw [List.length_drop]
      grind
    obtain ⟨k', within', rest', ends'⟩ := next a s' (env.drop k)
      (fun e member => kept e (List.mem_of_mem_drop member)) enough' (ends a rfl)
    exact ⟨k + k', by grind, by rw [rest', List.drop_drop], ends'⟩

theorem strengthen (h : Under G n P m Q) (pre : ∀ s, P' s → P s) : Under G n P' m Q :=
  fun s env kept enough holds => h s env kept enough (pre s holds)

theorem weaken (h : Under G n P m Q) (post : ∀ a s, Q a s → Q' a s) : Under G n P m Q' := by
  intro s env kept enough pre
  obtain ⟨k, within, rest, ends⟩ := h s env kept enough pre
  exact ⟨k, within, rest, fun a out => post a _ (ends a out)⟩

theorem spare {n' : Nat} (h : Under G n P m Q) (more : n ≤ n') : Under G n' P m Q := by
  intro s env kept enough pre
  obtain ⟨k, within, rest, ends⟩ := h s env kept (by grind) pre
  exact ⟨k, by grind, rest, ends⟩

/-- What holds under every schedule holds under these too. -/
theorem meet {E : σ → Prop} (always : Triple P m Q E) (h : Under G n P' m Q') :
    Under G n (fun s => P s ∧ P' s) m (fun a s => Q a s ∧ Q' a s) := by
  intro s env kept enough pre
  obtain ⟨k, within, rest, ends⟩ := h s env kept enough pre.2
  refine ⟨k, within, rest, fun a out => ⟨?_, ends a out⟩⟩
  have holds := always s env pre.1
  rcases outcome : m s env with ⟨_ | b, s', env'⟩ <;> simp only [outcome] at holds out ⊢
  · cases out
  · exact Option.some.inj out ▸ holds

theorem both (h : Under G n P m Q) (h' : Under G n P m Q') :
    Under G n P m (fun a s => Q a s ∧ Q' a s) := by
  intro s env kept enough pre
  obtain ⟨k, within, rest, ends⟩ := h s env kept enough pre
  obtain ⟨_, -, -, ends'⟩ := h' s env kept enough pre
  exact ⟨k, within, rest, fun a out => ⟨ends a out, ends' a out⟩⟩

theorem lift {c : Prop} (h : c → Under G n P m Q) : Under G n (fun s => c ∧ P s) m Q :=
  fun s env kept enough ⟨holds, pre⟩ => h holds s env kept enough pre

theorem choose {ι : Type} {P : ι → σ → Prop} (h : ∀ x, Under G n (P x) m Q) :
    Under G n (fun s => ∃ x, P x s) m Q :=
  fun s env kept enough ⟨x, pre⟩ => h x s env kept enough pre

theorem inspect {f : σ → Prog ε σ β} {R : β → σ → Prop}
    (next : ∀ s, P s → Under G n (· = s) (f s) R) : Under G n P (Prog.read >>= f) R :=
  fun s env kept enough pre => next s pre s env kept enough rfl

theorem modify {f : σ → σ} {Q : Unit → σ → Prop} (h : ∀ s, P s → Q () (f s)) :
    Under G n P (Prog.modify f : Prog ε σ Unit) Q :=
  fun s _ _ _ pre => ⟨0, .inr (Nat.zero_le n), rfl, fun _ _ => h s pre⟩

theorem update {f : σ → Option σ} {Q : Unit → σ → Prop} (h : ∀ s s', P s → f s = some s' → Q () s') :
    Under G n P (Prog.update f : Prog ε σ Unit) Q := by
  intro s env _ _ pre
  refine ⟨0, .inr (Nat.zero_le n), ?_⟩
  simp only [Prog.update]
  cases result : f s with
  | none => exact ⟨rfl, fun _ none => nomatch none⟩
  | some s' => exact ⟨rfl, fun _ _ => h s s' pre result⟩

theorem fail {Q : α → σ → Prop} : Under G n P (Prog.fail : Prog ε σ α) Q :=
  fun _ _ _ _ _ => ⟨0, .inr (Nat.zero_le n), rfl, fun _ none => nomatch none⟩

theorem ask {Q : Option ε → σ → Prop} (h : ∀ a s, G a → P s → Q a s) :
    Under G 1 P (Prog.ask : Prog ε σ (Option ε)) Q := by
  intro s env kept enough pre
  refine ⟨1, .inr (Nat.le_refl 1), (List.drop_one).symm, fun a same => ?_⟩
  obtain rfl : env.head? = a := Option.some.inj same
  apply h _ s _ pre
  cases env with
  | nil => exact enough.resolve_right (by simp)
  | cons e rest => exact kept e List.mem_cons_self

theorem ite {c : Prop} [Decidable c] {m' : Prog ε σ α} (yes : c → Under G n P m Q)
    (no : ¬c → Under G n P m' Q) : Under G n P (if c then m else m') Q := by
  by_cases h : c
  · simpa only [h, if_true] using yes h
  · simpa only [h, if_false] using no h

theorem loop {body : β → Prog ε σ (ForInStep β)} {I : Nat → β → σ → Prop} {J : β → σ → Prop}
    {c : Nat}
    (pass : ∀ k b, Under G c (I (k + 1) b) (body b) (fun r s =>
      match r with
      | .yield b' => I k b' s
      | .done b' => J b' s))
    (exit : ∀ b s, I 0 b s → J b s) (passes : Nat) (b : β) :
    Under G (c * passes) (I passes b) (Prog.loop body passes b) J := by
  induction passes generalizing b with
  | zero => exact ret b (exit b)
  | succ passes ih =>
      rw [Nat.mul_succ, Nat.add_comm]
      refine bind (pass passes b) fun r => ?_
      cases r with
      | done b' => exact ret b' fun _ out => out
      | yield b' => exact ih b'

theorem upTo {I : σ → Prop} {body : Prog ε σ Bool} {c : Nat} (passes : Nat)
    (keeps : Under G c I body (fun _ => I)) :
    Under G (c * passes) I (Prog.upTo passes body) (fun _ => I) := by
  refine loop (I := fun _ _ => I) (J := fun _ => I) (fun _ _ => ?_) (fun _ _ kept => kept) passes ()
  exact bind (j := 0) keeps fun again => ite (fun _ => ret _ fun _ kept => kept)
    (fun _ => ret _ fun _ kept => kept)

theorem each {body : α → Prog ε σ β} {I : σ → Prop} {cost : Nat}
    (keeps : ∀ a, Under G cost I (body a) (fun _ => I)) (entries : List α) :
    Under G (cost * entries.length) I (Prog.each body entries) (fun _ => I) := by
  induction entries with
  | nil => exact ret [] fun _ kept => kept
  | cons a rest ih =>
      rw [List.length_cons, Nat.mul_succ, Nat.add_comm]
      exact bind (keeps a) fun b => bind (j := 0) ih fun _ => ret _ fun _ kept => kept

/-- A schedule that may run out needs no counting. -/
theorem uncounted {n' : Nat} (may : G none) (h : Under G n P m Q) : Under G n' P m Q := by
  intro s env kept _ pre
  obtain ⟨k, -, rest, ends⟩ := h s env kept (.inl may) pre
  exact ⟨k, .inl may, rest, ends⟩

/-- A program that never panics returns what it promises. -/
theorem returns {R : α → σ → Prop} (total : Triple P m R (fun _ => False)) (h : Under G n P' m Q)
    {s : σ} {env : List ε} (kept : ∀ e ∈ env, G (some e)) (enough : G none ∨ n ≤ env.length)
    (pre : P s) (pre' : P' s) : ∃ a, (m s env).1 = some a ∧ Q a (m s env).2.1 := by
  obtain ⟨_, -, -, ends⟩ := h s env kept enough pre'
  have holds := total s env pre
  rcases outcome : m s env with ⟨_ | a, s', env'⟩ <;> simp only [outcome] at holds ends ⊢
  exact ⟨a, rfl, ends a rfl⟩

end Under

end Foundations
