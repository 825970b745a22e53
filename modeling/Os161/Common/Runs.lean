import Mathlib.Tactic

/-!
# Runs of a transition system

Steps carry a list of events, and a run carries the events of its steps in order: what an observer
of the system sees. An invariant may speak of the events so far (`Run.invariant`), a system that
simulates another has its runs (`Run.simulate`), and where every step is a function of what is
observed, so is every run (`Run.observe`). A law says which events may follow which; a trace is
lawful if every event in it obeys the law (`Lawful`).
-/

variable {σ τ ε : Type}

/-- Runs that start in `s`, with their events. -/
inductive Run (step : σ → List ε → σ → Prop) (s : σ) : List ε → σ → Prop where
  | refl : Run step s [] s
  | snoc {tr : List ε} {t : σ} {es : List ε} {u : σ} (hrun : Run step s tr t)
      (hstep : step t es u) : Run step s (tr ++ es) u

namespace Run

variable {step : σ → List ε → σ → Prop} {s t : σ} {tr : List ε}

/-- What holds at the start and is kept by every step holds in every run. -/
theorem invariant {I : List ε → σ → Prop} (h0 : I [] s)
    (hstep : ∀ {tr t es u}, Run step s tr t → I tr t → step t es u → I (tr ++ es) u)
    (h : Run step s tr t) : I tr t := by
  induction h with
  | refl => exact h0
  | snoc hrun hs ih => exact hstep hrun ih hs

theorem single {es : List ε} (h : step s es t) : Run step s es t := by
  simpa using Run.refl.snoc h

theorem trans {u : σ} {tr' : List ε} (h : Run step s tr t) (h' : Run step t tr' u) :
    Run step s (tr ++ tr') u := by
  induction h' with
  | refl => simpa using h
  | snoc _ hs ih => simpa using ih.snoc hs

/-- Simulation: along every run the invariant holds, and the images of the states make a run of the
other system with the same events. -/
theorem simulate {step' : τ → List ε → τ → Prop} (f : σ → τ) {I : σ → Prop} (h0 : I s)
    (hsim : ∀ {t es u}, I t → step t es u → I u ∧ step' (f t) es (f u)) (h : Run step s tr t) :
    I t ∧ Run step' (f s) tr (f t) := by
  induction h with
  | refl => exact ⟨h0, .refl⟩
  | snoc _ hs ih =>
    obtain ⟨hI, hstep'⟩ := hsim ih.1 hs
    exact ⟨hI, ih.2.snoc hstep'⟩

/-- What is observed of a system whose steps are functions of it: along every run the invariant
holds, and the last observation follows from the first one and the events. -/
theorem observe {obs : σ → τ} {next : τ → ε → τ} {I : σ → Prop} (h0 : I s)
    (hobs : ∀ {t es u}, I t → step t es u → I u ∧ obs u = es.foldl next (obs t))
    (h : Run step s tr t) : I t ∧ obs t = tr.foldl next (obs s) := by
  induction h with
  | refl => exact ⟨h0, rfl⟩
  | snoc _ hs ih =>
    obtain ⟨hI, heq⟩ := hobs ih.1 hs
    exact ⟨hI, by rw [heq, ih.2, List.foldl_append]⟩

end Run

/-! ## Schedules -/

variable {κ : Type}

/-- Follow a schedule: the choices `cs` decide what each step does. -/
def follow (next : σ → κ → Option (List ε × σ)) : List κ → σ → Option (List ε × σ)
  | [], s => some ([], s)
  | c :: cs, s => do
    let (es, t) ← next s c
    let (tr, u) ← follow next cs t
    return (es ++ tr, u)

/-- What a schedule leads to is reached by a run. -/
theorem Run.of_follow {step : σ → List ε → σ → Prop} {next : σ → κ → Option (List ε × σ)}
    (hstep : ∀ s c es t, next s c = some (es, t) → step s es t) {cs : List κ} {s u : σ}
    {tr : List ε} (h : follow next cs s = some (tr, u)) : Run step s tr u := by
  induction cs generalizing s tr with
  | nil =>
    cases h
    exact .refl
  | cons c cs ih =>
    simp only [follow, Option.bind_eq_bind, Option.bind_eq_some_iff] at h
    obtain ⟨⟨es, t⟩, hnext, ⟨tr', u'⟩, hrest, heq⟩ := h
    cases heq
    exact (Run.single (hstep s c es t hnext)).trans (ih hrest)

/-! ## Laws -/

/-- Every event of the trace obeys the law `L`, given the events before it. -/
def Lawful (L : List ε → ε → Prop) (tr : List ε) : Prop :=
  ∀ pre e post, tr = pre ++ e :: post → L pre e

namespace Lawful

variable {L : List ε → ε → Prop} {tr es : List ε} {e : ε}

theorem nil : Lawful L [] := by
  intro pre e post h
  simp at h

theorem of_append (h : Lawful L (tr ++ es)) : Lawful L tr := by
  rintro pre e post rfl
  exact h pre e (post ++ es) (by simp)

theorem snoc (h : Lawful L tr) (he : L tr e) : Lawful L (tr ++ [e]) := by
  intro pre e' post heq
  -- The event is the last one or one of the earlier ones.
  rcases List.eq_nil_or_concat post with rfl | ⟨post', e'', rfl⟩
  · obtain ⟨rfl, heq'⟩ := List.append_inj' heq rfl
    exact (List.singleton_inj.mp heq') ▸ he
  · rw [List.concat_eq_append, ← List.cons_append, ← List.append_assoc] at heq
    obtain ⟨rfl, -⟩ := List.append_inj' heq rfl
    exact h pre e' post' rfl

/-- Events that the law always allows. -/
theorem append (h : Lawful L tr) (hes : ∀ pre, ∀ e ∈ es, L pre e) : Lawful L (tr ++ es) := by
  induction es generalizing tr with
  | nil => rwa [List.append_nil]
  | cons e es ih =>
    rw [← List.singleton_append, ← List.append_assoc]
    refine ih (h.snoc (hes tr e List.mem_cons_self)) fun pre e' he' => ?_
    exact hes pre e' (List.mem_cons_of_mem _ he')

end Lawful
