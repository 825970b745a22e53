import Mathlib.Tactic
import Os161.Common.Prog

/-!
# Data types and programs that implement them

A data type is given by its operations: `pre` says in which states an operation may be called, and
`post` which results a call may have and which state comes after it. A result is a value or an error
code, and there may be several, so that an operation may fail for reasons that the data type does
not see.

`Conforms` says that programs implement a data type, over whole sequences of calls: as long as every
call is allowed, none stops the machine, each has a result that the data type admits, and the states
on both sides stay related. `Conforms.of_step` reduces this to one call of one operation.
-/

namespace Prog

/-- A data type with states `A`, operations `ω`, results `ρ` and error codes `ε`. -/
structure DataType (ω ρ ε A : Type) where
  pre : A → ω → Prop
  post : A → ω → Except ε ρ → A → Prop

variable {ω ρ ε A σ : Type}

/-- The calls `ops`, made one after the other from `s` on, do what the data type does from `a` on.
The states before and after each of them are related by `I`, and those before and after a call that
fails by `F`. -/
def Conforms (D : DataType ω ρ ε A) (run : ω → Prog ε σ ρ) (I : σ → A → Prop) (F : σ → σ → Prop) :
    (ops : List ω) → (s : σ) → (a : A) → Prop
  | [], s, a => I s a
  | op :: ops, s, a => I s a ∧ (D.pre a op →
      Meets (run op)
        (fun r s' => ∃ a', D.post a op (.ok r) a' ∧ Conforms D run I F ops s' a')
        (fun e s' => F s s' ∧ ∃ a', D.post a op (.error e) a' ∧ Conforms D run I F ops s' a') s)

variable {D : DataType ω ρ ε A} {run : ω → Prog ε σ ρ} {I R : σ → A → Prop} {F : σ → σ → Prop}

/-- **Refinement of a data type**: it is enough to look at one call, from any pair of states that
the invariant `R` relates. -/
theorem Conforms.of_step (hI : ∀ {s a}, R s a → I s a)
    (hstep : ∀ {s a} op, R s a → D.pre a op →
      Meets (run op) (fun r s' => ∃ a', D.post a op (.ok r) a' ∧ R s' a')
        (fun e s' => F s s' ∧ ∃ a', D.post a op (.error e) a' ∧ R s' a') s)
    (ops : List ω) {s : σ} {a : A} (h : R s a) : Conforms D run I F ops s a := by
  induction ops generalizing s a with
  | nil => exact hI h
  | cons op ops ih =>
    refine ⟨hI h, fun hpre => (hstep op h hpre).mono ?_ ?_⟩
    · rintro r s' ⟨a', hpost, hR⟩
      exact ⟨a', hpost, ih hR⟩
    · rintro e s' ⟨hF, a', hpost, hR⟩
      exact ⟨hF, a', hpost, ih hR⟩

end Prog
