import Mathlib.Tactic

/-!
# Programs with state, error returns and fatal stops

A `Prog ε σ α` reads and writes a state `σ` and ends in one of three ways: it returns a value, it
returns an error code (the state keeps what was done before the error), or it stops the machine
(an assertion that fails, a panic, an access through a wild pointer). This is the shape of C code
that returns an error code from every level and gives up by halting.

`Meets m Q E s` is the weakest precondition of the program `m`: started in `s` it does not stop the
machine, ends with `Q` when it returns and with `E` when it fails. `Meets m Q E s H` allows it to
stop the machine with the messages in `H`; with all of them this is the partial form. The equations
`meets_bind`, `meets_pure` and so on compute it over the constructs below, `Meets.mono` plugs in the
specification of a callee, and `Meets.forRange` is the invariant rule for counting loops.
-/

/-- How a run of a program ends. -/
inductive Outcome (ε σ α : Type) where
  | ok (a : α) (s : σ)
  | err (e : ε) (s : σ)
  | halted (msg : String)
deriving DecidableEq

namespace Outcome

variable {ε σ α : Type}

/-- The run returned. -/
def isOk : Outcome ε σ α → Bool
  | .ok _ _ => true
  | _ => false

/-- The value a run returned, or `a`. -/
def valueD (a : α) : Outcome ε σ α → α
  | .ok b _ => b
  | _ => a

/-- The state in which a run returned, or `s`. -/
def stateD (s : σ) : Outcome ε σ α → σ
  | .ok _ t => t
  | _ => s

/-- The state that a run has left behind, or `s`. -/
def finalD (s : σ) : Outcome ε σ α → σ
  | .ok _ t => t
  | .err _ t => t
  | .halted _ => s

theorem eq_ok (o : Outcome ε σ α) (a : α) (s : σ) (h : o.isOk = true) :
    o = .ok (o.valueD a) (o.stateD s) := by
  cases o with
  | ok b t => rfl
  | err e t => cases h
  | halted msg => cases h

/-- The error a run failed with. -/
def error? : Outcome ε σ α → Option ε
  | .err e _ => some e
  | _ => none

/-- The message of a run that stopped the machine. -/
def message? : Outcome ε σ α → Option String
  | .halted msg => some msg
  | _ => none

theorem eq_halted {o : Outcome ε σ α} {msg : String} (h : o.message? = some msg) :
    o = .halted msg := by
  cases o with
  | ok b t => cases h
  | err e t => cases h
  | halted msg' => exact congrArg halted (Option.some.inj h)

end Outcome

/-- A program over the state `σ` with error codes `ε` and results `α`. -/
def Prog (ε σ α : Type) : Type := σ → Outcome ε σ α

namespace Prog

variable {ε σ τ α β : Type}

/-- Run `m`, then `f` on its result; an error of `m` is returned at once. -/
protected def bind (m : Prog ε σ α) (f : α → Prog ε σ β) : Prog ε σ β := fun s =>
  match m s with
  | .ok a t => f a t
  | .err e t => .err e t
  | .halted msg => .halted msg

instance : Monad (Prog ε σ) where
  pure a := fun s => .ok a s
  bind := Prog.bind

/-- The current state. -/
def get : Prog ε σ σ := fun s => .ok s s

/-- A component of the current state. -/
def gets (f : σ → α) : Prog ε σ α := fun s => .ok (f s) s

/-- Change the state. -/
def modify (f : σ → σ) : Prog ε σ Unit := fun s => .ok () (f s)

/-- Return the error `e`. -/
def fail (e : ε) : Prog ε σ α := fun s => .err e s

/-- Stop the machine. -/
def halt (msg : String) : Prog ε σ α := fun _ => .halted msg

/-- An assertion: stop the machine unless `p` holds. -/
def require (p : Prop) [Decidable p] (msg : String) : Prog ε σ Unit :=
  if p then pure () else halt msg

/-- Run `m` and hand back its error code as a value, for callers that look at it. -/
def attempt (m : Prog ε σ α) : Prog ε σ (Except ε α) := fun s =>
  match m s with
  | .ok a t => .ok (.ok a) t
  | .err e t => .ok (.error e) t
  | .halted msg => .halted msg

/-- Return the value or the error that `attempt` handed back. -/
def ofExcept : Except ε α → Prog ε σ α
  | .ok a => pure a
  | .error e => fail e

/-- Run a program on one component of a larger state. -/
def zoom (view : τ → σ) (put : τ → σ → τ) (m : Prog ε σ α) : Prog ε τ α := fun t =>
  match m (view t) with
  | .ok a s => .ok a (put t s)
  | .err e s => .err e (put t s)
  | .halted msg => .halted msg

/-- Run a program on one component of a larger state and hand back its error code as a value. -/
def catching {δ : Type} (view : τ → σ) (put : τ → σ → τ) (m : Prog ε σ α) :
    Prog δ τ (Except ε α) := fun t =>
  match m (view t) with
  | .ok a s => .ok (.ok a) (put t s)
  | .err e s => .ok (.error e) (put t s)
  | .halted msg => .halted msg

/-- The counting loop `for (i = start; i < start + n; i++) body(i)`. -/
def forRange (body : ℕ → Prog ε σ Unit) : (n start : ℕ) → Prog ε σ Unit
  | 0, _ => pure ()
  | n + 1, i => do
    body i
    forRange body n (i + 1)

/-- The loop `for (i = n; i > 0; i--) body(i - 1)`. -/
def forDown (body : ℕ → Prog ε σ Unit) : (n : ℕ) → Prog ε σ Unit
  | 0 => pure ()
  | n + 1 => do
    body n
    forDown body n

/-! ## Weakest preconditions -/

/-- Started in `s`, the program `m` ends in `Q` when it returns and in `E` when it fails, and it
stops the machine only with a message in `H`. -/
def Meets (m : Prog ε σ α) (Q : α → σ → Prop) (E : ε → σ → Prop) (s : σ)
    (H : String → Prop := fun _ => False) : Prop :=
  match m s with
  | .ok a t => Q a t
  | .err e t => E e t
  | .halted msg => H msg

variable {Q Q' : α → σ → Prop} {E E' : ε → σ → Prop} {s : σ} {H : String → Prop}

/-- A specification holds of the value and state a run returns. -/
theorem Meets.of_ok {m : Prog ε σ α} (h : Meets m Q E s H) {a : α} {t : σ} (hm : m s = .ok a t) :
    Q a t := by
  simpa only [Meets, hm] using h

/-- A run that returns meets what holds of its value and state. -/
theorem Meets.of_eq_ok {m : Prog ε σ α} {a : α} {t : σ} (hm : m s = .ok a t) (h : Q a t) :
    Meets m Q E s H := by
  simpa only [Meets, hm] using h

/-- A specification holds of the error and state a run fails with. -/
theorem Meets.of_err {m : Prog ε σ α} (h : Meets m Q E s H) {e : ε} {t : σ} (hm : m s = .err e t) :
    E e t := by
  simpa only [Meets, hm] using h

/-- A run stops the machine only with the messages its specification allows. -/
theorem Meets.of_halted {m : Prog ε σ α} (h : Meets m Q E s H) {msg : String}
    (hm : m s = .halted msg) : H msg := by
  simpa only [Meets, hm] using h

/-- A program that meets a specification without messages does not stop the machine. -/
theorem Meets.ne_halted {m : Prog ε σ α} (h : Meets m Q E s) (msg : String) :
    m s ≠ .halted msg :=
  fun hm => h.of_halted hm

/-- The program returns from `s` to its caller, with a value or an error, in the state `t`. -/
def Returns (m : Prog ε σ α) (s t : σ) : Prop := (∃ a, m s = .ok a t) ∨ ∃ e, m s = .err e t

theorem Returns.finalD {m : Prog ε σ α} {t : σ} (h : Returns m s t) (u : σ) :
    (m s).finalD u = t := by
  rcases h with ⟨a, hm⟩ | ⟨e, hm⟩
  · rw [hm]
    rfl
  · rw [hm]
    rfl

theorem Meets.returns {m : Prog ε σ α} {t : σ} (h : Meets m Q E s H) (ht : Returns m s t) :
    (∃ a, Q a t) ∨ ∃ e, E e t := by
  rcases ht with ⟨a, hm⟩ | ⟨e, hm⟩
  · exact .inl ⟨a, h.of_ok hm⟩
  · exact .inr ⟨e, h.of_err hm⟩

/-- Weaken both postconditions: the rule that plugs in the specification of a callee. -/
theorem Meets.mono {m : Prog ε σ α} (h : Meets m Q E s H) (hQ : ∀ a t, Q a t → Q' a t)
    (hE : ∀ e t, E e t → E' e t) : Meets m Q' E' s H := by
  unfold Meets at h ⊢
  split at h
  · exact hQ _ _ h
  · exact hE _ _ h
  · exact h

/-- `Meets.mono` when only the postcondition of normal returns changes. -/
theorem Meets.imp {m : Prog ε σ α} (h : Meets m Q E s H) (hQ : ∀ a t, Q a t → Q' a t) :
    Meets m Q' E s H :=
  h.mono hQ fun _ _ he => he

/-- A program that never fails may be given any error postcondition. -/
theorem Meets.noErr {m : Prog ε σ α} (h : Meets m Q (fun _ _ => False) s H)
    (hQ : ∀ a t, Q a t → Q' a t) : Meets m Q' E s H :=
  h.mono hQ fun _ _ he => he.elim

/-- A postcondition may say which run led to it. -/
theorem Meets.and_run {m : Prog ε σ α} (h : Meets m Q E s H) :
    Meets m (fun a t => Q a t ∧ m s = .ok a t) E s H := by
  unfold Meets at h ⊢
  split at h
  case h_1 a t hm => exact ⟨h, hm⟩
  · exact h
  · exact h

/-- Two specifications of one program hold together. -/
theorem Meets.and_outcome {m : Prog ε σ α} (h : Meets m Q E s H) (h' : Meets m Q' E' s H) :
    Meets m (fun a t => Q a t ∧ Q' a t) (fun e t => E e t ∧ E' e t) s H := by
  unfold Meets at h h' ⊢
  split
  case h_1 a t hm =>
    rw [hm] at h h'
    exact ⟨h, h'⟩
  case h_2 e t hm =>
    rw [hm] at h h'
    exact ⟨h, h'⟩
  case h_3 msg hm =>
    rw [hm] at h
    exact h

/-- A program that does not stop the machine meets the partial form as well. -/
theorem Meets.partial_of {m : Prog ε σ α} (h : Meets m Q E s) : Meets m Q E s H := by
  unfold Meets at h ⊢
  split at h
  · exact h
  · exact h
  · exact h.elim

/-- More messages may be allowed. -/
theorem Meets.mono_halt {m : Prog ε σ α} {H' : String → Prop} (h : Meets m Q E s H)
    (hH : ∀ msg, H msg → H' msg) : Meets m Q E s H' := by
  unfold Meets at h ⊢
  split at h
  · exact h
  · exact h
  · exact hH _ h

/-- A program that meets the partial form and does not stop the machine meets the total one. -/
theorem Meets.total {m : Prog ε σ α} (h : Meets m Q E s H) (hrun : ∀ msg, m s ≠ .halted msg) :
    Meets m Q E s := by
  unfold Meets at h ⊢
  split at h
  · exact h
  · exact h
  case h_3 msg hm => exact hrun msg hm

/-- A program that never fails and never stops the machine returns. -/
theorem Meets.exists_ok {m : Prog ε σ α} (h : Meets m Q (fun _ _ => False) s) :
    ∃ a t, m s = .ok a t ∧ Q a t := by
  unfold Meets at h
  split at h
  · exact ⟨_, _, by assumption, h⟩
  · exact h.elim
  · exact h.elim

/-- A program that neither returns a value nor stops the machine fails. -/
theorem Meets.exists_err {m : Prog ε σ α} (h : Meets m (fun _ _ => False) E s) :
    ∃ e t, m s = .err e t ∧ E e t := by
  unfold Meets at h
  split at h
  · exact h.elim
  · exact ⟨_, _, by assumption, h⟩
  · exact h.elim

/-- A program that does not return stops the machine. -/
theorem Meets.exists_halted {m : Prog ε σ α}
    (h : Meets m (fun _ _ => False) (fun _ _ => False) s H) : ∃ msg, m s = .halted msg := by
  unfold Meets at h
  split at h
  · exact h.elim
  · exact h.elim
  · exact ⟨_, by assumption⟩

@[simp]
theorem meets_pure (a : α) : Meets (pure a : Prog ε σ α) Q E s H ↔ Q a s := Iff.rfl

@[simp]
theorem meets_get {Q : σ → σ → Prop} : Meets (get : Prog ε σ σ) Q E s H ↔ Q s s := Iff.rfl

@[simp]
theorem meets_gets (f : σ → α) : Meets (gets f : Prog ε σ α) Q E s H ↔ Q (f s) s := Iff.rfl

@[simp]
theorem meets_modify (f : σ → σ) {Q : Unit → σ → Prop} :
    Meets (modify f : Prog ε σ Unit) Q E s H ↔ Q () (f s) := Iff.rfl

@[simp]
theorem meets_fail (e : ε) : Meets (fail e : Prog ε σ α) Q E s H ↔ E e s := Iff.rfl

@[simp]
theorem meets_halt (msg : String) : Meets (halt msg : Prog ε σ α) Q E s H ↔ H msg := Iff.rfl

/-- An assertion, when some messages are allowed. -/
theorem meets_require_iff (p : Prop) [Decidable p] (msg : String) {Q : Unit → σ → Prop} :
    Meets (require p msg : Prog ε σ Unit) Q E s H ↔ (p → Q () s) ∧ (¬ p → H msg) := by
  unfold require
  split
  case isTrue hp => simp only [meets_pure, hp, true_imp_iff, not_true, false_imp_iff, and_true]
  case isFalse hp =>
    simp only [meets_halt, hp, true_imp_iff, not_false_eq_true, false_imp_iff, true_and]

@[simp]
theorem meets_require (p : Prop) [Decidable p] (msg : String) {Q : Unit → σ → Prop} :
    Meets (require p msg : Prog ε σ Unit) Q E s ↔ p ∧ Q () s := by
  rw [meets_require_iff]
  tauto

/-- An assertion, in the partial form. -/
@[simp]
theorem meets_require_partial (p : Prop) [Decidable p] (msg : String) {Q : Unit → σ → Prop} :
    Meets (require p msg : Prog ε σ Unit) Q E s (fun _ => True) ↔ (p → Q () s) := by
  rw [meets_require_iff]
  tauto

@[simp]
theorem meets_bind (m : Prog ε σ β) (f : β → Prog ε σ α) :
    Meets (m >>= f) Q E s H ↔ Meets m (fun b t => Meets (f b) Q E t H) E s H := by
  show Meets (Prog.bind m f) Q E s H ↔ _
  unfold Meets Prog.bind
  cases m s <;> rfl

@[simp]
theorem meets_attempt (m : Prog ε σ α) {Q : Except ε α → σ → Prop} :
    Meets (attempt m) Q E s H ↔ Meets m (fun a => Q (.ok a)) (fun e => Q (.error e)) s H := by
  unfold Meets attempt
  cases m s <;> rfl

@[simp]
theorem meets_ofExcept_ok (a : α) : Meets (ofExcept (.ok a) : Prog ε σ α) Q E s H ↔ Q a s := Iff.rfl

@[simp]
theorem meets_ofExcept_error (e : ε) :
    Meets (ofExcept (.error e) : Prog ε σ α) Q E s H ↔ E e s := Iff.rfl

@[simp]
theorem meets_zoom (view : τ → σ) (put : τ → σ → τ) (m : Prog ε σ α) {Q : α → τ → Prop}
    {E : ε → τ → Prop} {t : τ} :
    Meets (zoom view put m) Q E t H ↔
      Meets m (fun a s => Q a (put t s)) (fun e s => E e (put t s)) (view t) H := by
  unfold Meets zoom
  cases m (view t) <;> rfl

@[simp]
theorem meets_catching {δ : Type} (view : τ → σ) (put : τ → σ → τ) (m : Prog ε σ α)
    {Q : Except ε α → τ → Prop} {E : δ → τ → Prop} {t : τ} :
    Meets (catching view put m) Q E t H ↔
      Meets m (fun a s => Q (.ok a) (put t s)) (fun e s => Q (.error e) (put t s)) (view t) H := by
  unfold Meets catching
  cases m (view t) <;> rfl

/-- Split a conditional. -/
theorem meets_ite (p : Prop) [Decidable p] (m m' : Prog ε σ α) :
    Meets (if p then m else m') Q E s H ↔ (p → Meets m Q E s H) ∧ (¬ p → Meets m' Q E s H) := by
  split
  case isTrue hp => simp only [hp, true_imp_iff, not_true, false_imp_iff, and_true]
  case isFalse hp => simp only [hp, true_imp_iff, not_false_eq_true, false_imp_iff, true_and]

/-- The invariant rule for counting loops: `I i` holds before the pass with index `i`. -/
theorem Meets.forRange {body : ℕ → Prog ε σ Unit} (I : ℕ → σ → Prop) {n start : ℕ}
    (h0 : I start s)
    (hstep : ∀ i t, start ≤ i → i < start + n → I i t →
      Meets (body i) (fun _ u => I (i + 1) u) E t H) :
    Meets (Prog.forRange body n start) (fun _ t => I (start + n) t) E s H := by
  induction n generalizing start s with
  | zero => exact h0
  | succ n ih =>
    rw [Prog.forRange, meets_bind]
    refine (hstep start s le_rfl (by omega) h0).imp fun _ t ht => ?_
    have hrest : Meets (Prog.forRange body n (start + 1)) (fun _ t => I (start + 1 + n) t) E t H :=
      ih ht fun i u hi hlt => hstep i u (by omega) (by omega)
    rwa [show start + (n + 1) = start + 1 + n by omega]

/-- The invariant rule for loops that count down: `I i` holds before the pass with index `i - 1`. -/
theorem Meets.forDown {body : ℕ → Prog ε σ Unit} (I : ℕ → σ → Prop) {n : ℕ} (h0 : I n s)
    (hstep : ∀ i t, i < n → I (i + 1) t → Meets (body i) (fun _ u => I i u) E t H) :
    Meets (Prog.forDown body n) (fun _ t => I 0 t) E s H := by
  induction n generalizing s with
  | zero => exact h0
  | succ n ih =>
    rw [Prog.forDown, meets_bind]
    refine (hstep n s n.lt_succ_self h0).imp fun _ t ht => ?_
    exact ih ht fun i u hi hu => hstep i u (hi.trans n.lt_succ_self) hu

/-! ## Invariants of programs

Properties of the state that every step of a program keeps. No specification of what the program
does is needed for these: the rules follow its text. -/

/-- Wherever `m` returns from a state with `I`, with a value or an error, `I` holds again. -/
def Keeps (I : σ → Prop) (m : Prog ε σ α) : Prop :=
  ∀ s, I s → Meets m (fun _ t => I t) (fun _ t => I t) s (fun _ => True)

section Keeps

variable {I : σ → Prop}

theorem Keeps.returns {m : Prog ε σ α} (h : Keeps I m) {t : σ} (hs : I s) (ht : Returns m s t) :
    I t := by
  rcases (h s hs).returns ht with ⟨_, hI⟩ | ⟨_, hI⟩
  · exact hI
  · exact hI

theorem keeps_pure (a : α) : Keeps I (pure a : Prog ε σ α) := fun _ hs => hs

theorem keeps_get : Keeps I (get : Prog ε σ σ) := fun _ hs => hs

theorem keeps_gets (f : σ → α) : Keeps I (gets f : Prog ε σ α) := fun _ hs => hs

theorem keeps_modify {f : σ → σ} (hf : ∀ s, I s → I (f s)) :
    Keeps I (modify f : Prog ε σ Unit) := hf

theorem keeps_fail (e : ε) : Keeps I (fail e : Prog ε σ α) := fun _ hs => hs

theorem keeps_halt (msg : String) : Keeps I (halt msg : Prog ε σ α) := fun _ _ => trivial

theorem keeps_require (p : Prop) [Decidable p] (msg : String) :
    Keeps I (require p msg : Prog ε σ Unit) := fun s hs => by
  rw [ meets_require_partial]
  exact fun _ => hs

theorem Keeps.bind {m : Prog ε σ β} {f : β → Prog ε σ α} (hm : Keeps I m)
    (hf : ∀ b, Keeps I (f b)) : Keeps I (m >>= f) := fun s hs => by
  rw [meets_bind]
  exact (hm s hs).imp fun b t ht => hf b t ht

theorem Keeps.ite {p : Prop} [Decidable p] {m m' : Prog ε σ α} (hm : Keeps I m)
    (hm' : Keeps I m') : Keeps I (if p then m else m') := by
  split
  · exact hm
  · exact hm'

theorem Keeps.forRange {body : ℕ → Prog ε σ Unit} (hbody : ∀ i, Keeps I (body i))
    (n start : ℕ) : Keeps I (forRange body n start) := fun _ hs =>
  Meets.forRange (fun _ t => I t) hs fun i t _ _ ht => hbody i t ht

/-- A program on one component of the state keeps what it keeps there. -/
theorem Keeps.zoom {J : τ → Prop} {view : τ → σ} {put : τ → σ → τ} {m : Prog ε σ α}
    (hm : ∀ t, J t → Keeps (fun s => J (put t s)) m) (hview : ∀ t, J t → J (put t (view t))) :
    Keeps J (Prog.zoom view put m) := fun t ht => by
  rw [meets_zoom]
  exact hm t ht (view t) (hview t ht)

end Keeps

end Prog
