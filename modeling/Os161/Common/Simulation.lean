import Os161.Common.Prog

/-!
# Simulation of programs

`Simulates R m m'` says that the program `m'` does to its states what `m` does to the related ones:
whenever `m` returns or fails, `m'` returns the same value or fails with the same error, and the new
states are related again. Nothing is asked where `m` stops the machine. The rules follow the
program: two programs built the same way from steps that simulate each other simulate each other.

`Maps f m m'` says that `m'` does from a state `f s` exactly what `m` does from `s`, in all three
ways in which it can end. `Blind f m` says that the program `m` neither sees nor touches what `f`
changes in a state: from the changed state it does what it does from the state itself, up to the
change.

`Follows R P m m'` is for programs that may also fail where `m'` does not: only where `m` returns,
`m'` returns the same value; of the errors of `m` no more than `P` is known.
-/

namespace Prog

variable {ε σ τ α β : Type}

/-- Every outcome of `m` is one of `m'`, in related states. -/
def Simulates (R : σ → τ → Prop) (m : Prog ε σ α) (m' : Prog ε τ α) : Prop :=
  ∀ s t, R s t → Meets m (fun a s' => ∃ t', m' t = .ok a t' ∧ R s' t')
    (fun e s' => ∃ t', m' t = .err e t' ∧ R s' t') s (fun _ => True)

variable {R : σ → τ → Prop}

namespace Simulates

theorem pure (a : α) : Simulates R (Pure.pure a : Prog ε σ α) (Pure.pure a : Prog ε τ α) :=
  fun _ t h => ⟨t, rfl, h⟩

theorem fail (e : ε) : Simulates R (Prog.fail e : Prog ε σ α) (Prog.fail e) :=
  fun _ t h => ⟨t, rfl, h⟩

theorem halt (msg : String) (m' : Prog ε τ α) : Simulates R (Prog.halt msg : Prog ε σ α) m' :=
  fun _ _ _ => trivial

theorem bind {m : Prog ε σ β} {m' : Prog ε τ β} {f : β → Prog ε σ α} {f' : β → Prog ε τ α}
    (hm : Simulates R m m') (hf : ∀ b, Simulates R (f b) (f' b)) :
    Simulates R (m >>= f) (m' >>= f') := by
  intro s t h
  rw [meets_bind]
  refine (hm s t h).mono ?_ ?_
  · rintro b s₁ ⟨t₁, hrun, h₁⟩
    have hbind : (m' >>= f') t = f' b t₁ := by
      show Prog.bind m' f' t = _
      rw [Prog.bind, hrun]
    rw [hbind]
    exact hf b s₁ t₁ h₁
  · rintro e s₁ ⟨t₁, hrun, h₁⟩
    refine ⟨t₁, ?_, h₁⟩
    show Prog.bind m' f' t = _
    rw [Prog.bind, hrun]

theorem attempt {m : Prog ε σ α} {m' : Prog ε τ α} (hm : Simulates R m m') :
    Simulates R (Prog.attempt m) (Prog.attempt m') := by
  intro s t h
  rw [meets_attempt]
  refine (hm s t h).mono ?_ ?_
  · rintro a s₁ ⟨t₁, hrun, h₁⟩
    exact ⟨t₁, by rw [Prog.attempt, hrun], h₁⟩
  · rintro e s₁ ⟨t₁, hrun, h₁⟩
    exact ⟨t₁, by rw [Prog.attempt, hrun], h₁⟩

theorem ite (p : Prop) [Decidable p] {m m₂ : Prog ε σ α} {m' m₂' : Prog ε τ α}
    (hm : p → Simulates R m m') (hm₂ : ¬ p → Simulates R m₂ m₂') :
    Simulates R (if p then m else m₂) (if p then m' else m₂') := by
  split
  case isTrue hp => exact hm hp
  case isFalse hp => exact hm₂ hp

theorem require (p : Prop) [Decidable p] (msg : String) :
    Simulates R (Prog.require p msg : Prog ε σ Unit) (Prog.require p msg) := by
  unfold Prog.require
  exact ite p (fun _ => pure ()) fun _ => halt msg _

theorem forRange {body : ℕ → Prog ε σ Unit} {body' : ℕ → Prog ε τ Unit}
    (hbody : ∀ i, Simulates R (body i) (body' i)) (n start : ℕ) :
    Simulates R (Prog.forRange body n start) (Prog.forRange body' n start) := by
  induction n generalizing start with
  | zero => exact pure ()
  | succ n ih => exact bind (hbody start) fun _ => ih (start + 1)

/-- The state in which the simulating program returns or fails. -/
theorem returns {m : Prog ε σ α} {m' : Prog ε τ α} (hm : Simulates R m m') {s s' : σ} {t : τ}
    (h : R s t) (hs : Returns m s s') : ∃ t', Returns m' t t' ∧ R s' t' := by
  rcases (hm s t h).returns hs with ⟨a, t', hrun, h'⟩ | ⟨e, t', hrun, h'⟩
  · exact ⟨t', .inl ⟨a, hrun⟩, h'⟩
  · exact ⟨t', .inr ⟨e, hrun⟩, h'⟩

end Simulates

/-! ## Programs that do not see a change -/

/-- An outcome with the state changed. -/
def mapState (f : σ → τ) : Outcome ε σ α → Outcome ε τ α
  | .ok a s => .ok a (f s)
  | .err e s => .err e (f s)
  | .halted msg => .halted msg

/-- The program `m'` does from `f s` what `m` does from `s`. -/
def Maps (f : σ → τ) (m : Prog ε σ α) (m' : Prog ε τ α) : Prop := ∀ s, m' (f s) = mapState f (m s)

namespace Maps

variable {f : σ → τ}

theorem pure (a : α) : Maps f (Pure.pure a : Prog ε σ α) (Pure.pure a) := fun _ => rfl

theorem fail (e : ε) : Maps f (Prog.fail e : Prog ε σ α) (Prog.fail e) := fun _ => rfl

theorem halt (msg : String) : Maps f (Prog.halt msg : Prog ε σ α) (Prog.halt msg) := fun _ => rfl

theorem gets {g : σ → α} {g' : τ → α} (hg : ∀ s, g' (f s) = g s) :
    Maps f (Prog.gets g : Prog ε σ α) (Prog.gets g') := by
  intro s
  show Outcome.ok (g' (f s)) (f s) = Outcome.ok (g s) (f s)
  rw [hg]

theorem modify {g : σ → σ} {g' : τ → τ} (hg : ∀ s, g' (f s) = f (g s)) :
    Maps f (Prog.modify g : Prog ε σ Unit) (Prog.modify g') := by
  intro s
  show Outcome.ok () (g' (f s)) = Outcome.ok () (f (g s))
  rw [hg]

theorem bind {m : Prog ε σ β} {m' : Prog ε τ β} {k : β → Prog ε σ α} {k' : β → Prog ε τ α}
    (hm : Maps f m m') (hk : ∀ b, Maps f (k b) (k' b)) : Maps f (m >>= k) (m' >>= k') := by
  intro s
  show Prog.bind m' k' (f s) = mapState f (Prog.bind m k s)
  rw [Prog.bind, Prog.bind, hm s]
  cases m s with
  | ok b t => exact hk b t
  | err e t => rfl
  | halted msg => rfl

theorem ite (p : Prop) [Decidable p] {m m₂ : Prog ε σ α} {m' m₂' : Prog ε τ α} (hm : Maps f m m')
    (hm₂ : Maps f m₂ m₂') : Maps f (if p then m else m₂) (if p then m' else m₂') := by
  split
  · exact hm
  · exact hm₂

theorem require (p : Prop) [Decidable p] (msg : String) :
    Maps f (Prog.require p msg : Prog ε σ Unit) (Prog.require p msg) :=
  ite p (pure ()) (halt msg)

theorem attempt {m : Prog ε σ α} {m' : Prog ε τ α} (hm : Maps f m m') :
    Maps f (Prog.attempt m) (Prog.attempt m') := by
  intro s
  rw [Prog.attempt, Prog.attempt, hm s]
  cases m s <;> rfl

theorem ofExcept (r : Except ε α) : Maps f (Prog.ofExcept r) (Prog.ofExcept r) := by
  cases r with
  | ok a => exact pure a
  | error e => exact fail e

theorem forRange {body : ℕ → Prog ε σ Unit} {body' : ℕ → Prog ε τ Unit} {n start : ℕ}
    (hbody : ∀ i, start ≤ i → i < start + n → Maps f (body i) (body' i)) :
    Maps f (Prog.forRange body n start) (Prog.forRange body' n start) := by
  induction n generalizing start with
  | zero => exact pure ()
  | succ n ih =>
    refine bind (hbody start le_rfl (by omega)) fun _ => ih fun i hlo hhi => ?_
    exact hbody i (by omega) (by omega)

end Maps

/-- The program does from `f s` what it does from `s`. -/
def Blind (f : σ → σ) (m : Prog ε σ α) : Prop := ∀ s, m (f s) = mapState f (m s)

namespace Blind

variable {f : σ → σ}

theorem pure (a : α) : Blind f (Pure.pure a : Prog ε σ α) := Maps.pure a

theorem fail (e : ε) : Blind f (Prog.fail e : Prog ε σ α) := Maps.fail e

theorem modify {g : σ → σ} (hg : ∀ s, g (f s) = f (g s)) :
    Blind f (Prog.modify g : Prog ε σ Unit) := Maps.modify hg

theorem bind {m : Prog ε σ β} {k : β → Prog ε σ α} (hm : Blind f m) (hk : ∀ b, Blind f (k b)) :
    Blind f (m >>= k) := Maps.bind hm hk

/-- A program on a component that the change leaves alone, with its errors. -/
theorem catching {δ : Type} {view : σ → τ} {put : σ → τ → σ} (m : Prog δ τ α)
    (hview : ∀ s, view (f s) = view s) (hput : ∀ s t, put (f s) t = f (put s t)) :
    Blind f (Prog.catching view put m : Prog ε σ (Except δ α)) := by
  intro s
  rw [Prog.catching, Prog.catching, hview]
  cases m (view s) with
  | ok a t => exact congrArg (Outcome.ok _) (hput s t)
  | err e t => exact congrArg (Outcome.ok _) (hput s t)
  | halted msg => rfl

theorem forRange {body : ℕ → Prog ε σ Unit} {n start : ℕ}
    (hbody : ∀ i, start ≤ i → i < start + n → Blind f (body i)) :
    Blind f (Prog.forRange body n start) := Maps.forRange hbody

end Blind

end Prog
