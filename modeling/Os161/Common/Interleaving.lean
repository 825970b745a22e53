import Mathlib.Tactic
import Os161.Common.Runs

/-!
# Threads over shared memory

Any number of threads, each at some point of its own code, over shared memory. A step is one atomic
action of one thread, or something that others do to the shared memory (a device, an interrupt), or
a new thread. What an atomic action does is a function of the shared memory, of the thread and of a
choice made outside (`Interleaving`), so that a schedule can be followed.

Two rules carry the proofs about such systems. A quantity spread over the threads moves only with
the thread that makes the step (`total_set`); where it is at most one, only one thread has a share
(`eq_of_total_le_one`). And what the events of a thread have to do with where it is follows from its
own steps (`own_invariant`).
-/

variable {σ L ε κ : Type}

/-- The atomic actions: what the thread `i` does at `l`, what others do, and where new threads
start. -/
structure Interleaving (σ L ε κ : Type) where
  thread : ℕ → κ → σ → L → Option (List ε × σ × L)
  others : κ → σ → Option (List ε × σ)
  start : L → Bool

namespace Interleaving

/-- The shared memory and the threads, by number. -/
structure State (σ L : Type) where
  shared : σ
  threads : List L

/-- An event, with the thread that it is of. -/
structure Event (ε : Type) where
  who : Option ℕ
  what : ε

/-- Who makes the next step. -/
inductive Choice (L κ : Type) where
  | thread (i : ℕ) (c : κ)
  | others (c : κ)
  | spawn (l : L)

variable (S : Interleaving σ L ε κ)

/-- The next step. -/
def next (s : State σ L) : Choice L κ → Option (List (Event ε) × State σ L)
  | .thread i c => do
    let l ← s.threads[i]?
    let (es, m, l') ← S.thread i c s.shared l
    return (es.map (⟨some i, ·⟩), ⟨m, s.threads.set i l'⟩)
  | .others c => do
    let (es, m) ← S.others c s.shared
    return (es.map (⟨none, ·⟩), ⟨m, s.threads⟩)
  | .spawn l => if S.start l then some ([], ⟨s.shared, s.threads ++ [l]⟩) else none

/-- A step. -/
inductive Step : State σ L → List (Event ε) → State σ L → Prop where
  | thread {m m' : σ} {ls : List L} {i : ℕ} {l l' : L} {c : κ} {es : List ε} (hl : ls[i]? = some l)
      (hstep : S.thread i c m l = some (es, m', l')) :
      Step ⟨m, ls⟩ (es.map (⟨some i, ·⟩)) ⟨m', ls.set i l'⟩
  | others {m m' : σ} {ls : List L} {c : κ} {es : List ε} (hstep : S.others c m = some (es, m')) :
      Step ⟨m, ls⟩ (es.map (⟨none, ·⟩)) ⟨m', ls⟩
  | spawn {m : σ} {ls : List L} {l : L} (hstart : S.start l = true) :
      Step ⟨m, ls⟩ [] ⟨m, ls ++ [l]⟩

variable {S}

theorem Step.of_next {s s' : State σ L} {c : Choice L κ} {es : List (Event ε)}
    (h : S.next s c = some (es, s')) : S.Step s es s' := by
  obtain ⟨m, ls⟩ := s
  cases c with
  | thread i c =>
    simp only [next, Option.bind_eq_bind, Option.bind_eq_some_iff] at h
    obtain ⟨l, hl, ⟨es', m', l'⟩, hstep, heq⟩ := h
    cases heq
    exact .thread hl hstep
  | others c =>
    simp only [next, Option.bind_eq_bind, Option.bind_eq_some_iff] at h
    obtain ⟨⟨es', m'⟩, hstep, heq⟩ := h
    cases heq
    exact .others hstep
  | spawn l =>
    simp only [next, Option.ite_none_right_eq_some] at h
    obtain ⟨hstart, heq⟩ := h
    cases heq
    exact .spawn hstart

/-- Follow a schedule. -/
def play (S : Interleaving σ L ε κ) (cs : List (Choice L κ)) (s : State σ L) :
    Option (List (Event ε) × State σ L) :=
  follow S.next cs s

/-- The events and the state that a schedule leads to. -/
def after (S : Interleaving σ L ε κ) (cs : List (Choice L κ)) (s : State σ L) :
    List (Event ε) × State σ L :=
  (S.play cs s).getD ([], s)

theorem run_of_play {cs : List (Choice L κ)} {s s' : State σ L} {tr : List (Event ε)}
    (h : S.play cs s = some (tr, s')) : Run S.Step s tr s' := by
  have hstep : ∀ s c es t, S.next s c = some (es, t) → S.Step s es t :=
    fun _ _ _ _ hs => Step.of_next hs
  exact Run.of_follow hstep h

theorem run_after {cs : List (Choice L κ)} {s : State σ L} (h : (S.play cs s).isSome = true) :
    Run S.Step s (S.after cs s).1 (S.after cs s).2 := by
  obtain ⟨⟨tr, s'⟩, hplay⟩ := Option.isSome_iff_exists.mp h
  rw [after, hplay]
  exact run_of_play hplay

/-! ## Steps that meet a condition -/

section Where

variable (S) (ok : State σ L → Choice L κ → Prop)

/-- The steps that meet a condition. -/
inductive StepWhere : State σ L → List (Event ε) → State σ L → Prop where
  | thread {m m' : σ} {ls : List L} {i : ℕ} {l l' : L} {c : κ} {es : List ε} (hl : ls[i]? = some l)
      (hok : ok ⟨m, ls⟩ (.thread i c)) (hstep : S.thread i c m l = some (es, m', l')) :
      StepWhere ⟨m, ls⟩ (es.map (⟨some i, ·⟩)) ⟨m', ls.set i l'⟩
  | others {m m' : σ} {ls : List L} {c : κ} {es : List ε} (hok : ok ⟨m, ls⟩ (.others c))
      (hstep : S.others c m = some (es, m')) :
      StepWhere ⟨m, ls⟩ (es.map (⟨none, ·⟩)) ⟨m', ls⟩
  | spawn {m : σ} {ls : List L} {l : L} (hok : ok ⟨m, ls⟩ (.spawn l)) (hstart : S.start l = true) :
      StepWhere ⟨m, ls⟩ [] ⟨m, ls ++ [l]⟩

/-- The next step, if it meets the condition. -/
def nextWhere [∀ s c, Decidable (ok s c)] (s : State σ L) (c : Choice L κ) :
    Option (List (Event ε) × State σ L) :=
  if ok s c then S.next s c else none

/-- The events and the state that a schedule leads to, while its steps meet the condition. -/
def afterWhere [∀ s c, Decidable (ok s c)] (cs : List (Choice L κ)) (s : State σ L) :
    List (Event ε) × State σ L :=
  (follow (S.nextWhere ok) cs s).getD ([], s)

variable {S} {ok} {s s' : State σ L} {es tr : List (Event ε)}

theorem StepWhere.step (h : S.StepWhere ok s es s') : S.Step s es s' := by
  cases h with
  | thread hl _ hstep => exact .thread hl hstep
  | others _ hstep => exact .others hstep
  | spawn _ hstart => exact .spawn hstart

/-- A run of such steps is a run. -/
theorem run_of_where (h : Run (S.StepWhere ok) s tr s') : Run S.Step s tr s' :=
  (Run.simulate id (I := fun _ => True) trivial (fun _ hs => ⟨trivial, hs.step⟩) h).2

theorem StepWhere.of_next [∀ s c, Decidable (ok s c)] {c : Choice L κ}
    (h : S.nextWhere ok s c = some (es, s')) : S.StepWhere ok s es s' := by
  obtain ⟨m, ls⟩ := s
  simp only [nextWhere, Option.ite_none_right_eq_some] at h
  obtain ⟨hok, h⟩ := h
  cases c with
  | thread i c =>
    simp only [next, Option.bind_eq_bind, Option.bind_eq_some_iff] at h
    obtain ⟨l, hl, ⟨es', m', l'⟩, hstep, heq⟩ := h
    cases heq
    exact .thread hl hok hstep
  | others c =>
    simp only [next, Option.bind_eq_bind, Option.bind_eq_some_iff] at h
    obtain ⟨⟨es', m'⟩, hstep, heq⟩ := h
    cases heq
    exact .others hok hstep
  | spawn l =>
    simp only [next, Option.ite_none_right_eq_some] at h
    obtain ⟨hstart, heq⟩ := h
    cases heq
    exact .spawn hok hstart

theorem run_afterWhere [∀ s c, Decidable (ok s c)] {cs : List (Choice L κ)}
    (h : (follow (S.nextWhere ok) cs s).isSome = true) :
    Run (S.StepWhere ok) s (S.afterWhere ok cs s).1 (S.afterWhere ok cs s).2 := by
  have hstep : ∀ s c es s', S.nextWhere ok s c = some (es, s') → S.StepWhere ok s es s' :=
    fun _ _ _ _ hs => StepWhere.of_next hs
  obtain ⟨⟨tr, s'⟩, hplay⟩ := Option.isSome_iff_exists.mp h
  rw [afterWhere, hplay]
  exact Run.of_follow hstep hplay

end Where

/-! ## Quantities spread over the threads -/

section Total

variable {ls : List L} {i j : ℕ} {l l' : L} (w : L → ℤ)

/-- The sum of the shares of all threads. -/
def total (ls : List L) : ℤ := (ls.map w).sum

@[simp]
theorem total_append (ls : List L) (l : L) : total w (ls ++ [l]) = total w ls + w l := by
  simp [total]

/-- Replacing an element of a list of numbers. -/
theorem sum_set {v : List ℤ} {x : ℤ} (hx : v[i]? = some x) (y : ℤ) :
    (v.set i y).sum = v.sum - x + y := by
  induction v generalizing i with
  | nil => simp at hx
  | cons z zs ih =>
    cases i with
    | zero =>
      simp only [List.getElem?_cons_zero, Option.some.injEq] at hx
      subst hx
      simp only [List.set_cons_zero, List.sum_cons]
      ring
    | succ i =>
      simp only [List.getElem?_cons_succ] at hx
      simp only [List.set_cons_succ, List.sum_cons, ih hx]
      ring

/-- A step of a thread moves the sum by as much as its own share. -/
theorem total_set (hl : ls[i]? = some l) (l' : L) :
    total w (ls.set i l') = total w ls - w l + w l' := by
  rw [total, List.map_set]
  exact sum_set (by rw [List.getElem?_map, hl]; rfl) _

/-- Different elements of at least one, of numbers that are not negative. -/
theorem length_le_sum {is : List ℕ} (hnd : is.Nodup) {v : List ℤ} (hv : ∀ x ∈ v, 0 ≤ x)
    (his : ∀ i ∈ is, ∃ x, v[i]? = some x ∧ 0 < x) : (is.length : ℤ) ≤ v.sum := by
  induction is generalizing v with
  | nil => exact List.sum_nonneg hv
  | cons i is ih =>
    obtain ⟨hi, hnd⟩ := List.nodup_cons.mp hnd
    obtain ⟨x, hx, hpos⟩ := his i List.mem_cons_self
    -- the others, with this one taken away
    have hrest : (is.length : ℤ) ≤ (v.set i 0).sum := by
      refine ih hnd (fun y hy => ?_) fun j hj => ?_
      · rcases List.mem_or_eq_of_mem_set hy with hy | rfl
        · exact hv y hy
        · exact le_rfl
      · have hne : i ≠ j := fun heq => hi (heq ▸ hj)
        rw [List.getElem?_set_ne hne]
        exact his j (List.mem_cons_of_mem i hj)
    rw [sum_set hx] at hrest
    push_cast [List.length_cons]
    omega

variable {w}

/-- A thread's share is at most the sum. -/
theorem le_total (hw : ∀ l ∈ ls, 0 ≤ w l) (hl : ls[i]? = some l) : w l ≤ total w ls :=
  List.single_le_sum (by simpa using hw) (w l) (List.mem_map_of_mem (List.mem_of_getElem? hl))

/-- As many different threads with a share as the sum allows. -/
theorem length_le_total (hw : ∀ l ∈ ls, 0 ≤ w l) {is : List ℕ} (hnd : is.Nodup)
    (his : ∀ i ∈ is, ∃ l, ls[i]? = some l ∧ 0 < w l) : (is.length : ℤ) ≤ total w ls := by
  refine length_le_sum hnd (by simpa using hw) fun i hi => ?_
  obtain ⟨l, hl, hpos⟩ := his i hi
  exact ⟨w l, by rw [List.getElem?_map, hl]; rfl, hpos⟩

/-- Where the sum is at most one, two threads with a share are the same. -/
theorem eq_of_total_le_one (hw : ∀ l ∈ ls, 0 ≤ w l) (hle : total w ls ≤ 1) (hi : ls[i]? = some l)
    (hj : ls[j]? = some l') (hl : 0 < w l) (hl' : 0 < w l') : i = j := by
  by_contra hne
  have hlen : (([i, j] : List ℕ).length : ℤ) ≤ total w ls := by
    refine length_le_total hw (by simpa using hne) fun k hk => ?_
    rcases List.mem_pair.mp hk with rfl | rfl
    · exact ⟨l, hi, hl⟩
    · exact ⟨l', hj, hl'⟩
  simp only [List.length_cons, List.length_nil] at hlen
  omega

theorem total_le_total {w' : L → ℤ} (h : ∀ l ∈ ls, w l ≤ w' l) : total w ls ≤ total w' ls :=
  List.sum_le_sum h

/-- The threads after a step: the one that made it, and the others. -/
theorem set_cases {x : L} (hx : (ls.set i l')[j]? = some x) :
    j = i ∧ x = l' ∨ j ≠ i ∧ ls[j]? = some x := by
  by_cases hij : i = j
  · subst hij
    have hlt : i < (ls.set i l').length := (List.getElem?_eq_some_iff.mp hx).1
    rw [List.length_set] at hlt
    rw [List.getElem?_set_self hlt, Option.some.injEq] at hx
    exact .inl ⟨rfl, hx.symm⟩
  · rw [List.getElem?_set_ne hij] at hx
    exact .inr ⟨Ne.symm hij, hx⟩

theorem mem_set_cases {x : L} (hx : x ∈ ls.set i l') : x = l' ∨ ∃ j, j ≠ i ∧ ls[j]? = some x := by
  obtain ⟨j, hj⟩ := List.getElem?_of_mem hx
  rcases set_cases hj with ⟨-, rfl⟩ | hother
  · exact .inl rfl
  · exact .inr ⟨j, hother⟩

/-- The threads with a new one. -/
theorem append_cases {x : L} (hx : (ls ++ [l])[j]? = some x) :
    j = ls.length ∧ x = l ∨ ls[j]? = some x := by
  rcases Nat.lt_or_ge j ls.length with hlt | hge
  · rw [List.getElem?_append_left hlt] at hx
    exact .inr hx
  · rw [List.getElem?_append_right hge, List.getElem?_singleton] at hx
    split at hx
    · exact .inl ⟨by omega, (Option.some.inj hx).symm⟩
    · cases hx

/-- One for a thread that passes the test. -/
def share (p : L → Bool) (l : L) : ℤ := if p l then 1 else 0

theorem share_nonneg (p : L → Bool) (l : L) : 0 ≤ share p l := by
  unfold share
  split <;> omega

theorem share_eq_toNat (p : L → Bool) (l : L) : share p l = (p l).toNat := by
  unfold share
  cases p l <;> rfl

theorem total_share (p : L → Bool) (ls : List L) : total (share p) ls = ls.countP p := by
  induction ls with
  | nil => rfl
  | cons l ls ih =>
    rw [total] at ih
    rw [total, List.map_cons, List.sum_cons, ih, List.countP_cons, share]
    split <;> simp [add_comm]

theorem total_share_eq_zero {p : L → Bool} (h : ∀ l ∈ ls, p l = false) :
    total (share p) ls = 0 := by
  rw [total_share, List.countP_eq_zero.mpr fun l hl => by simp [h l hl]]
  rfl

/-- Where the sum is not positive no thread passes the test. -/
theorem eq_false_of_total_share_le {p : L → Bool} (h : total (share p) ls ≤ 0) (hl : l ∈ ls) :
    p l = false := by
  rw [total_share] at h
  have hzero : ls.countP p = 0 := by omega
  simpa using List.countP_eq_zero.mp hzero l hl

end Total

/-! ## What a thread has done -/

/-- The events of one thread, or of none of them. -/
def own (w : Option ℕ) (tr : List (Event ε)) : List ε :=
  tr.filterMap fun e => if e.who = w then some e.what else none

@[simp]
theorem own_nil (w : Option ℕ) : own w ([] : List (Event ε)) = [] := rfl

@[simp]
theorem own_append (w : Option ℕ) (tr tr' : List (Event ε)) :
    own w (tr ++ tr') = own w tr ++ own w tr' :=
  List.filterMap_append

theorem own_map (w w' : Option ℕ) (es : List ε) :
    own w (es.map (⟨w', ·⟩)) = if w' = w then es else [] := by
  induction es with
  | nil => simp [own]
  | cons e es ih =>
    simp only [own, List.map_cons, List.filterMap_cons] at ih ⊢
    rw [ih]
    split <;> simp_all

/-- Along every run the events of a thread are in the relation `J` to where it is, if its own steps
keep `J`. A thread that has not started has no events. -/
theorem own_invariant {J : List ε → L → Prop} (hstart : ∀ l, S.start l = true → J [] l)
    (hstep : ∀ {i c m l es m' l' tr},
      S.thread i c m l = some (es, m', l') → J tr l → J (tr ++ es) l')
    {m : σ} {s : State σ L} {tr : List (Event ε)} (hrun : Run S.Step ⟨m, []⟩ tr s) :
    (∀ (i : ℕ) l, s.threads[i]? = some l → J (own i tr) l) ∧
      ∀ i : ℕ, s.threads.length ≤ i → own i tr = [] := by
  induction hrun with
  | refl => exact ⟨fun i l hl => by simp at hl, fun i _ => rfl⟩
  | @snoc tr t es u _ hs ih =>
    obtain ⟨hJ, hnone⟩ := ih
    cases hs with
    | @thread m m' ls j l l' c es hl hs =>
      refine ⟨fun i l₁ hl₁ => ?_, fun i hi => ?_⟩
      · rw [own_append, own_map]
        by_cases hij : j = i
        · subst hij
          have hlt := (List.getElem?_eq_some_iff.mp hl).1
          rw [List.getElem?_set_self hlt, Option.some.injEq] at hl₁
          rw [if_pos rfl, ← hl₁]
          exact hstep hs (hJ j l hl)
        · rw [List.getElem?_set_ne hij] at hl₁
          rw [if_neg (by simpa using hij), List.append_nil]
          exact hJ i l₁ hl₁
      · rw [List.length_set] at hi
        have hlt := (List.getElem?_eq_some_iff.mp hl).1
        have hij : j ≠ i := by
          rintro rfl
          exact absurd hlt (Nat.not_lt.mpr hi)
        rw [own_append, own_map, if_neg (by simpa using hij), List.append_nil]
        exact hnone i hi
    | others hs =>
      refine ⟨fun i l hl => ?_, fun i hi => ?_⟩
      · rw [own_append, own_map, if_neg nofun, List.append_nil]
        exact hJ i l hl
      · rw [own_append, own_map, if_neg nofun, List.append_nil]
        exact hnone i hi
    | @spawn m ls l hl =>
      refine ⟨fun i l₁ hl₁ => ?_, fun i hi => ?_⟩
      · rw [List.append_nil]
        rcases append_cases hl₁ with ⟨rfl, rfl⟩ | hold
        · rw [hnone _ le_rfl]
          exact hstart _ hl
        · exact hJ i l₁ hold
      · rw [List.append_nil]
        rw [List.length_append, List.length_singleton] at hi
        exact hnone i (Nat.le_of_succ_le hi)

/-- What is marked in the shared memory only by a thread that stays at certain places until it has
taken the mark away is marked only while there is such a thread. -/
theorem exists_answering {X : σ → Prop} {Y : L → Prop}
    (hthread : ∀ {i c m l es m' l'},
      S.thread i c m l = some (es, m', l') → X m' → Y l' ∨ X m ∧ (Y l → Y l'))
    (hothers : ∀ {c m es m'}, S.others c m = some (es, m') → X m' → X m)
    {m : σ} (h0 : ¬ X m) {s : State σ L} {tr : List (Event ε)} (hrun : Run S.Step ⟨m, []⟩ tr s) :
    X s.shared → ∃ l ∈ s.threads, Y l := by
  refine hrun.invariant (I := fun _ s => X s.shared → ∃ l ∈ s.threads, Y l) (absurd · h0) ?_
  intro tr t es u _ ih hstep hX
  cases hstep with
  | @thread m m' ls i l l' c es hl hs =>
    have hmem : l' ∈ ls.set i l' :=
      List.mem_of_getElem? (List.getElem?_set_self (List.getElem?_eq_some_iff.mp hl).1)
    rcases hthread hs hX with hY | ⟨hXm, hkeep⟩
    · exact ⟨l', hmem, hY⟩
    · obtain ⟨x, hx, hY⟩ := ih hXm
      obtain ⟨j, hj⟩ := List.getElem?_of_mem hx
      by_cases hij : i = j
      · subst hij
        exact ⟨l', hmem, hkeep (Option.some.inj (hl.symm.trans hj) ▸ hY)⟩
      · exact ⟨x, List.mem_of_getElem? ((List.getElem?_set_ne hij).trans hj), hY⟩
  | others hs => exact ih (hothers hs hX)
  | spawn _ =>
    obtain ⟨x, hx, hY⟩ := ih hX
    exact ⟨x, List.mem_append_left _ hx, hY⟩

/-- A thread that has done something is there. -/
theorem exists_thread {m : σ} {s : State σ L} {tr : List (Event ε)} (hrun : Run S.Step ⟨m, []⟩ tr s)
    {i : ℕ} (hown : own i tr ≠ []) : ∃ l, s.threads[i]? = some l := by
  have hnone := (own_invariant (J := fun _ _ => True) (fun _ _ => trivial)
    (fun _ _ => trivial) hrun).2 i
  rcases Nat.lt_or_ge i s.threads.length with hlt | hge
  · exact ⟨_, List.getElem?_eq_getElem hlt⟩
  · exact absurd (hnone hge) hown

end Interleaving
