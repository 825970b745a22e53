import Mathlib.Tactic
import Os161.Thread.Sched

/-!
# The machine refines the system with lists

`Kernel.view` forgets the array and ring structure of the containers. Every function of the thread
system is specified by what it does to the view (`Refines`), and `Step.refines` puts this together:
a step of the machine is a step of the list system with the same events.

The specifications also say what happens to capacities: away from `thread_fork`, `thread_exit` and
`exorcise` the vector of `sleepers` only grows, `zombies` is not touched, and the size of the run
queue doubles or stays.
-/

namespace Os161.Threads

open Prog

variable {π : Type} {k : Kernel π} {code : Code π}

/-! ## Views -/

/-- The lists in the containers. -/
def Kernel.view (k : Kernel π) : Sys π where
  toCore := k.toCore
  runq := k.runqueue.toList
  sleepers := k.sleepers.toList
  zombies := k.zombies.toList

/-- The containers are well-formed. -/
structure Kernel.Ok (k : Kernel π) : Prop where
  runqueue : k.runqueue.Ok
  sleepers : k.sleepers.num ≤ k.sleepers.max
  zombies : k.zombies.num ≤ k.zombies.max

/-- The vectors and the ring of `k'` are those of `k` or larger. -/
structure Kernel.Caps (k k' : Kernel π) : Prop where
  sleepers : k.sleepers.max ≤ k'.sleepers.max
  zombies : k'.zombies = k.zombies
  size : ∃ j, k'.runqueue.size = k.runqueue.size * 2 ^ j

theorem Kernel.Caps.refl (k : Kernel π) : k.Caps k := ⟨le_rfl, rfl, 0, by simp⟩

theorem Kernel.Caps.trans {k₁ k₂ : Kernel π} (h : k.Caps k₁) (h' : k₁.Caps k₂) : k.Caps k₂ := by
  obtain ⟨i, hi⟩ := h.size
  obtain ⟨j, hj⟩ := h'.size
  refine ⟨h.sleepers.trans h'.sleepers, h'.zombies.trans h.zombies, i + j, ?_⟩
  rw [hj, hi, pow_add, mul_assoc]

/-- From `k` a stretch of code has led to `k'`, which stands for `s`. -/
structure Refines (k : Kernel π) (s : Sys π) (k' : Kernel π) : Prop where
  ok : k'.Ok
  view : k'.view = s
  caps : k.Caps k'

theorem Refines.refl (h : k.Ok) : Refines k k.view k := ⟨h, rfl, .refl k⟩

theorem Refines.trans {k₁ k₂ : Kernel π} {s s' : Sys π} (h : Refines k s k₁)
    (h' : Refines k₁ s' k₂) : Refines k s' k₂ := ⟨h'.ok, h'.view, h.caps.trans h'.caps⟩

theorem Refines.curthread {s : Sys π} {k' : Kernel π} (h : Refines k s k') :
    k'.curthread = s.curthread := by
  rw [← h.view]
  rfl

/-- A change of the global variables. -/
theorem Refines.mapCore (h : k.Ok) (f : Core π → Core π) :
    Refines k (k.view.mapCore f) { k with toCore := f k.toCore } :=
  ⟨⟨h.runqueue, h.sleepers, h.zombies⟩, rfl, le_rfl, rfl, 0, by simp⟩

/-! ## Containers -/

theorem onRunqueue_spec {β : Type} {m : QueueM Tid β} {Q : β → Alloc (KQueue Tid) → Prop}
    {E : Errno → Alloc (KQueue Tid) → Prop} (hm : Meets m Q E ⟨k.runqueue, k.nomem⟩) :
    Meets (onRunqueue m) (fun b k' => ∃ q nomem, k' = { k with runqueue := q, nomem := nomem } ∧
        Q b ⟨q, nomem⟩)
      (fun e k' => ∃ q nomem, k' = { k with runqueue := q, nomem := nomem } ∧ E e ⟨q, nomem⟩) k := by
  rw [onRunqueue, meets_zoom]
  exact hm.mono (fun b s hQ => ⟨s.obj, s.nomem, rfl, hQ⟩) fun e s hE => ⟨s.obj, s.nomem, rfl, hE⟩

theorem onSleepers_spec {β : Type} {m : ArrayM Tid β} {Q : β → Alloc (KArray Tid) → Prop}
    {E : Errno → Alloc (KArray Tid) → Prop} (hm : Meets m Q E ⟨k.sleepers, k.nomem⟩) :
    Meets (onSleepers m) (fun b k' => ∃ a nomem, k' = { k with sleepers := a, nomem := nomem } ∧
        Q b ⟨a, nomem⟩)
      (fun e k' => ∃ a nomem, k' = { k with sleepers := a, nomem := nomem } ∧ E e ⟨a, nomem⟩) k := by
  rw [onSleepers, meets_zoom]
  exact hm.mono (fun b s hQ => ⟨s.obj, s.nomem, rfl, hQ⟩) fun e s hE => ⟨s.obj, s.nomem, rfl, hE⟩

theorem onZombies_spec {β : Type} {m : ArrayM Tid β} {Q : β → Alloc (KArray Tid) → Prop}
    {E : Errno → Alloc (KArray Tid) → Prop} (hm : Meets m Q E ⟨k.zombies, k.nomem⟩) :
    Meets (onZombies m) (fun b k' => ∃ a nomem, k' = { k with zombies := a, nomem := nomem } ∧
        Q b ⟨a, nomem⟩)
      (fun e k' => ∃ a nomem, k' = { k with zombies := a, nomem := nomem } ∧ E e ⟨a, nomem⟩) k := by
  rw [onZombies, meets_zoom]
  exact hm.mono (fun b s hQ => ⟨s.obj, s.nomem, rfl, hQ⟩) fun e s hE => ⟨s.obj, s.nomem, rfl, hE⟩

/-- `kmalloc` changes nothing but the answers to come. -/
theorem kmallocNull_spec (h : k.Ok) :
    Meets kmallocNull (fun _ k' => Refines k k.view k') (fun _ _ => False) k := by
  have hm : Meets kmallocFails (fun _ s => s.obj = k.runqueue) (fun _ _ => False)
      (⟨k.runqueue, k.nomem⟩ : Alloc (KQueue Tid)) := by
    simp only [kmallocFails, meets_bind, meets_get, meets_modify, meets_pure]
  refine (onRunqueue_spec hm).mono ?_ ?_
  · rintro b _ ⟨q, nomem, rfl, hq⟩
    obtain rfl : q = k.runqueue := hq
    exact ⟨⟨h.runqueue, h.sleepers, h.zombies⟩, rfl, le_rfl, rfl, 0, by simp⟩
  · rintro e _ ⟨q, nomem, rfl, hfalse⟩
    exact hfalse

/-- `make_runnable` appends the thread, or the ring is full and `kmalloc` has refused to grow it. -/
theorem makeRunnable_answer (h : k.Ok) (t : Tid) :
    Meets (makeRunnable t)
      (fun _ k' => 0 < k.curspl ∧ Refines k { k.view with runq := k.view.runq ++ [t] } k' ∧
        k'.nomem ⊆ k.nomem)
      (fun _ k' => Refines k k.view k' ∧ true ∈ k.nomem) k (fun _ => k.curspl = 0) := by
  have hadd := (qAddtail_spec (s := ⟨k.runqueue, k.nomem⟩) h.runqueue t).and_outcome
    ((qAddtail_answer ⟨k.runqueue, k.nomem⟩ t).total
      (qAddtail_spec (s := ⟨k.runqueue, k.nomem⟩) h.runqueue t).ne_halted)
  simp only [makeRunnable, assertSpl, meets_bind, meets_get, meets_require_iff]
  refine ⟨fun hspl => (onRunqueue_spec hadd).partial_of.mono ?_ ?_, fun hlow => by omega⟩
  · rintro _ _ ⟨q, nomem, rfl, hadd, hsub⟩
    refine ⟨hspl, ⟨⟨hadd.ok, h.sleepers, h.zombies⟩, ?_, le_rfl, rfl, hadd.size⟩, hsub⟩
    simp only [Kernel.view, hadd.toList]
  · rintro _ _ ⟨q, nomem, rfl, ⟨-, -, rfl⟩, hrefused⟩
    exact ⟨⟨⟨h.runqueue, h.sleepers, h.zombies⟩, rfl, le_rfl, rfl, 0, (mul_one _).symm⟩, hrefused⟩

theorem makeRunnable_spec (h : k.Ok) (t : Tid) :
    Meets (makeRunnable t)
      (fun _ k' => 0 < k.curspl ∧ Refines k { k.view with runq := k.view.runq ++ [t] } k')
      (fun _ k' => Refines k k.view k') k (fun _ => True) := by
  refine ((makeRunnable_answer h t).mono_halt fun _ _ => trivial).mono ?_ fun _ _ hk' => hk'.1
  rintro _ k' ⟨hspl, hk', -⟩
  exact ⟨hspl, hk'⟩

/-- A call whose error stops the machine. -/
theorem assertOk_spec {m : KM π Unit} {Q : Unit → Kernel π → Prop} {E : Errno → Kernel π → Prop}
    (hm : Meets m Q E k (fun _ => True)) :
    Meets (assertOk m) Q (fun _ _ => False) k (fun _ => True) := by
  rw [assertOk, meets_bind, meets_attempt]
  exact hm.mono (fun _ _ hQ => hQ) fun _ _ _ => trivial

/-! ## Wakeups -/

namespace Sys

variable {s : Sys π} {a : Addr} {i : ℕ} {t : Tid}

/-- What is left to do of a wakeup at index `i` of the sleepers. -/
def wakeFrom (s : Sys π) (a : Addr) (i : ℕ) : Sys π :=
  { s with
    runq := s.runq ++ (s.sleepers.drop i).filter fun t => (s.thread t).sleepaddr = some a
    sleepers := s.sleepers.take i ++
      (s.sleepers.drop i).filter fun t => (s.thread t).sleepaddr ≠ some a }

theorem wakeFrom_zero (s : Sys π) (a : Addr) : s.wakeFrom a 0 = s.wake a := rfl

theorem wakeFrom_of_length_le (h : s.sleepers.length ≤ i) : s.wakeFrom a i = s := by
  simp [wakeFrom, List.drop_eq_nil_of_le h, List.take_of_length_le h]

theorem drop_sleepers (h : s.sleepers[i]? = some t) :
    s.sleepers.drop i = t :: s.sleepers.drop (i + 1) := by
  obtain ⟨hlt, rfl⟩ := List.getElem?_eq_some_iff.mp h
  exact List.drop_eq_getElem_cons hlt

/-- The sleeper at index `i` is on another address. -/
theorem wakeFrom_succ (h : s.sleepers[i]? = some t) (haddr : (s.thread t).sleepaddr ≠ some a) :
    s.wakeFrom a (i + 1) = s.wakeFrom a i := by
  have htake : s.sleepers.take (i + 1) = s.sleepers.take i ++ [t] := by
    rw [List.take_add_one, h]
    rfl
  simp [wakeFrom, drop_sleepers h, haddr, htake]

/-- The sleeper at index `i` is woken up. -/
theorem wakeFrom_eraseIdx (h : s.sleepers[i]? = some t)
    (haddr : (s.thread t).sleepaddr = some a) :
    wakeFrom { s with runq := s.runq ++ [t], sleepers := s.sleepers.eraseIdx i } a i =
      s.wakeFrom a i := by
  have hlt := (List.getElem?_eq_some_iff.mp h).1
  have hlen : (s.sleepers.take i).length = i := by
    rw [List.length_take]
    omega
  have hdrop : (s.sleepers.eraseIdx i).drop i = s.sleepers.drop (i + 1) := by
    rw [List.eraseIdx_eq_take_drop_succ, List.drop_append, List.drop_eq_nil_of_le hlen.le, hlen]
    simp
  have htake : (s.sleepers.eraseIdx i).take i = s.sleepers.take i := by
    rw [List.eraseIdx_eq_take_drop_succ, List.take_append, hlen]
    simp
  simp [wakeFrom, drop_sleepers h, haddr, hdrop, htake]

end Sys

theorem length_sleepers (k : Kernel π) : k.view.sleepers.length = k.sleepers.num :=
  KArray.length_toList _

/-- The sleeper at index `i`. -/
theorem getguy_sleepers_spec (h : k.Ok) {i : ℕ} (hi : i < k.sleepers.num) :
    Meets (onSleepers (arrayGetguy i)) (fun t k' => k.view.sleepers[i]? = some t ∧ k = k')
      (fun _ _ => False) k := by
  refine (onSleepers_spec (arrayGetguy_spec (s := ⟨k.sleepers, k.nomem⟩) h.sleepers hi)).mono ?_ ?_
  · rintro t _ ⟨a, nomem, rfl, hget, heq⟩
    cases heq
    exact ⟨hget, rfl⟩
  · rintro e _ ⟨a, nomem, rfl, hfalse⟩
    exact hfalse

/-- A wakeup stops the machine only if interrupts are on, or in the assertion that `make_runnable`
has not failed, which it does for lack of memory only. -/
def WakeStops (k : Kernel π) (msg : String) : Prop :=
  k.curspl = 0 ∨ msg = "Assertion failed: result==0" ∧ true ∈ k.nomem

/-- A wakeup has led from `k` to `k'`, which stands for `s`. -/
structure Wakes (k : Kernel π) (s : Sys π) (k' : Kernel π) : Prop where
  refines : Refines k s k'
  curspl : k'.curspl = k.curspl
  nomem : k'.nomem ⊆ k.nomem

theorem Wakes.refl (h : k.Ok) : Wakes k k.view k := ⟨.refl h, rfl, List.Subset.refl _⟩

theorem Wakes.trans {k₁ k₂ : Kernel π} {s s' : Sys π} (h : Wakes k s k₁) (h' : Wakes k₁ s' k₂) :
    Wakes k s' k₂ :=
  ⟨h.refines.trans h'.refines, h'.curspl.trans h.curspl, fun _ hb => h.nomem (h'.nomem hb)⟩

theorem Wakes.stops {k₁ : Kernel π} {s : Sys π} {msg : String} (h : Wakes k s k₁)
    (hstop : WakeStops k₁ msg) : WakeStops k msg := by
  rcases hstop with hspl | ⟨hmsg, hrefused⟩
  · exact .inl (h.curspl ▸ hspl)
  · exact .inr ⟨hmsg, h.nomem hrefused⟩

/-- Moving the sleeper `t` at index `i` to the run queue. -/
theorem wakeAt_spec (h : k.Ok) {i : ℕ} (hi : i < k.sleepers.num) (t : Tid) :
    Meets (onSleepers (arrayRemove i))
      (fun _ k₁ => Meets (assertOk (makeRunnable t))
        (fun _ k' => Wakes k { k.view with
          runq := k.view.runq ++ [t], sleepers := k.view.sleepers.eraseIdx i } k')
        (fun _ _ => False) k₁ (WakeStops k))
      (fun _ _ => False) k (WakeStops k) := by
  refine (onSleepers_spec
    (arrayRemove_spec (s := ⟨k.sleepers, k.nomem⟩) h.sleepers hi)).partial_of.mono ?_ ?_
  · rintro _ _ ⟨a, nomem, rfl, hlist, hle, hmax, hnomem⟩
    have hok : Kernel.Ok { k with sleepers := a, nomem := nomem } := ⟨h.runqueue, hle, h.zombies⟩
    have hcaps : k.Caps { k with sleepers := a, nomem := nomem } :=
      ⟨hmax.ge, rfl, 0, (mul_one _).symm⟩
    obtain rfl : nomem = k.nomem := hnomem
    rw [assertOk, meets_bind, meets_attempt]
    refine ((makeRunnable_answer hok t).mono_halt fun _ hlow => .inl hlow).mono ?_ ?_
    · rintro _ k' ⟨-, hk', hsub⟩
      refine ⟨⟨hk'.ok, hk'.view.trans ?_, hcaps.trans hk'.caps⟩, ?_, hsub⟩
      · simp only [Kernel.view, hlist]
      · exact congrArg (fun s : Sys π => s.curspl) hk'.view
    · rintro e k' ⟨-, hrefused⟩
      exact .inr ⟨rfl, hrefused⟩
  · rintro e _ ⟨a, nomem, rfl, hfalse⟩
    exact hfalse

/-- The loop of `thread_wakeup` deals with the sleepers from index `i` on. -/
theorem wakeupLoop_spec (h : k.Ok) (a : Addr) {fuel i : ℕ} (hfuel : k.sleepers.num ≤ fuel + i) :
    Meets (wakeupLoop a fuel i) (fun _ k' => Wakes k (k.view.wakeFrom a i) k')
      (fun _ _ => False) k (WakeStops k) := by
  induction fuel generalizing k i with
  | zero =>
    rw [wakeupLoop, meets_pure, Sys.wakeFrom_of_length_le (by rw [length_sleepers]; omega)]
    exact .refl h
  | succ fuel ih =>
    rw [wakeupLoop]
    simp only [meets_bind, meets_get, meets_ite, meets_pure]
    refine ⟨fun hi => ?_, fun hi => ?_⟩
    · refine (getguy_sleepers_spec h hi).partial_of.noErr ?_
      rintro t _ ⟨hget, rfl⟩
      refine ⟨fun haddr => ?_, fun haddr => ?_⟩
      · -- The pass removes the thread, and the next one is at the same index.
        refine (wakeAt_spec h hi t).imp fun _ k₁ hk₁ => hk₁.imp fun _ k₂ hk₂ => ?_
        have hnum : k₂.sleepers.num ≤ fuel + i := by
          rw [← length_sleepers, hk₂.refines.view]
          show (k.view.sleepers.eraseIdx i).length ≤ fuel + i
          rw [List.length_eraseIdx, length_sleepers, if_pos hi]
          omega
        refine ((ih hk₂.refines.ok hnum).mono_halt fun _ => hk₂.stops).imp fun _ k₃ hk₃ => ?_
        rw [hk₂.refines.view, Sys.wakeFrom_eraseIdx hget haddr] at hk₃
        exact hk₂.trans hk₃
      · rw [← Sys.wakeFrom_succ hget haddr]
        exact ih h (by omega)
    · rw [Sys.wakeFrom_of_length_le (by rw [length_sleepers]; omega)]
      exact .refl h

theorem threadWakeup_spec (h : k.Ok) (a : Addr) :
    Meets (threadWakeup a) (fun _ k' => 0 < k.curspl ∧ Refines k (k.view.wake a) k')
      (fun _ _ => False) k (fun _ => True) := by
  simp only [threadWakeup, assertSpl, meets_bind, meets_get, meets_require_partial]
  intro hspl
  refine ((wakeupLoop_spec h a (by omega)).mono_halt fun _ _ => trivial).imp fun _ k' hk' => ?_
  rw [Sys.wakeFrom_zero] at hk'
  exact ⟨hspl, hk'.refines⟩

/-- The first sleeper on the address is at index `i`. -/
theorem Sys.wakeFirst_of_getElem? {s : Sys π} {a : Addr} {i : ℕ} {t : Tid}
    (hbefore : ∀ u ∈ s.sleepers.take i, (s.thread u).sleepaddr ≠ some a)
    (h : s.sleepers[i]? = some t) (haddr : (s.thread t).sleepaddr = some a) :
    (s.asleepOn a).head? = some t ∧
      s.wakeFirst a = { s with runq := s.runq ++ [t], sleepers := s.sleepers.eraseIdx i } := by
  have hsplit : s.sleepers = s.sleepers.take i ++ t :: s.sleepers.drop (i + 1) := by
    rw [← Sys.drop_sleepers h, List.take_append_drop]
  have hnone : (s.sleepers.take i).filter (fun u => (s.thread u).sleepaddr = some a) = [] := by
    simpa using hbefore
  have hhead : (s.asleepOn a).head? = some t := by
    rw [Sys.asleepOn, hsplit, List.filter_append, hnone]
    simp [haddr]
  have hnot : t ∉ s.sleepers.take i := fun hmem => hbefore t hmem haddr
  have herase : s.sleepers.erase t = s.sleepers.eraseIdx i := by
    rw [List.eraseIdx_eq_take_drop_succ]
    conv_lhs => rw [hsplit]
    rw [List.erase_append_right _ hnot, List.erase_cons_head]
  refine ⟨hhead, ?_⟩
  simp only [Sys.wakeFirst, hhead, herase]

/-- No sleeper is on the address. -/
theorem Sys.wakeFirst_of_length_le {s : Sys π} {a : Addr} {i : ℕ} (hi : s.sleepers.length ≤ i)
    (hbefore : ∀ u ∈ s.sleepers.take i, (s.thread u).sleepaddr ≠ some a) :
    (s.asleepOn a).head? = none ∧ s.wakeFirst a = s := by
  rw [List.take_of_length_le hi] at hbefore
  have hnil : s.asleepOn a = [] := by simpa [Sys.asleepOn] using hbefore
  simp [Sys.wakeFirst, hnil]

/-- The loop of `thread_wakeone`, when no sleeper before index `i` is on the address. -/
theorem wakeoneLoop_spec (h : k.Ok) (a : Addr) {fuel i : ℕ} (hfuel : k.sleepers.num ≤ fuel + i)
    (hbefore : ∀ t ∈ k.view.sleepers.take i, (k.view.thread t).sleepaddr ≠ some a) :
    Meets (wakeoneLoop a fuel i)
      (fun r k' => r = (k.view.asleepOn a).head? ∧ Wakes k (k.view.wakeFirst a) k')
      (fun _ _ => False) k (WakeStops k) := by
  have hlen := length_sleepers k
  induction fuel generalizing i with
  | zero =>
    obtain ⟨hnone, heq⟩ := Sys.wakeFirst_of_length_le (by omega) hbefore
    rw [wakeoneLoop, meets_pure, hnone, heq]
    exact ⟨rfl, .refl h⟩
  | succ fuel ih =>
    rw [wakeoneLoop]
    simp only [meets_bind, meets_get, meets_ite, meets_pure]
    refine ⟨fun hi => ?_, fun hi => ?_⟩
    · refine (getguy_sleepers_spec h hi).partial_of.noErr ?_
      rintro t _ ⟨hget, rfl⟩
      refine ⟨fun haddr => ?_, fun haddr => ih (by omega) fun u hu => ?_⟩
      · obtain ⟨hhead, heq⟩ := Sys.wakeFirst_of_getElem? hbefore hget haddr
        rw [hhead, heq]
        exact (wakeAt_spec h hi t).imp fun _ k₁ hk₁ => hk₁.imp fun _ k₂ hk₂ => ⟨rfl, hk₂⟩
      · rw [List.take_add_one, hget, List.mem_append] at hu
        rcases hu with hu | hu
        · exact hbefore u hu
        · obtain rfl : u = t := by simpa using hu
          exact haddr
    · obtain ⟨hnone, heq⟩ := Sys.wakeFirst_of_length_le (by omega) hbefore
      rw [hnone, heq]
      exact ⟨rfl, .refl h⟩

theorem threadWakeone_spec (h : k.Ok) (a : Addr) :
    Meets (threadWakeone a)
      (fun r k' => 0 < k.curspl ∧ r = (k.view.asleepOn a).head? ∧
        Refines k (k.view.wakeFirst a) k')
      (fun _ _ => False) k (fun _ => True) := by
  simp only [threadWakeone, assertSpl, meets_bind, meets_get, meets_require_partial]
  intro hspl
  refine ((wakeoneLoop_spec h a (by omega) ?_).mono_halt fun _ _ => trivial).imp ?_
  · simp
  · rintro r k' ⟨hr, hk'⟩
    exact ⟨hspl, hr, hk'.refines⟩

/-! ## Switching -/

section Rules

variable {α : Type} {Q : Unit → Kernel π → Prop} {E : Errno → Kernel π → Prop} {H : String → Prop}

@[simp]
theorem meets_modifyCore (f : Core π → Core π) :
    Meets (modifyCore f) Q E k H ↔ Q () { k with toCore := f k.toCore } := Iff.rfl

@[simp]
theorem meets_splx (spl : ℕ) {Q : ℕ → Kernel π → Prop} :
    Meets (splx spl) Q E k H ↔ Q k.curspl { k with curspl := spl } := Iff.rfl

@[simp]
theorem meets_curThread {Q : Tid → Kernel π → Prop} :
    Meets curThread Q E k (fun _ => True) ↔ ∀ t, k.curthread = some t → Q t k := by
  simp only [curThread, meets_bind, meets_get]
  cases k.curthread with
  | none => simp
  | some t => simp

theorem meets_curThread_of {t : Tid} (hcur : k.curthread = some t) {Q : Tid → Kernel π → Prop} :
    Meets curThread Q E k H ↔ Q t k := by
  simp only [curThread, meets_bind, meets_get, hcur, meets_pure]

theorem meets_goOn {t : Tid} (hcur : k.curthread = some t) (spl : ℕ) (p : π) :
    Meets (goOn spl p) Q E k H ↔ Q () { k with toCore := k.goOn t spl p } := by
  simp only [goOn, meets_bind, meets_curThread_of hcur, meets_modifyCore]

@[simp]
theorem meets_assertSpl : Meets assertSpl Q E k (fun _ => True) ↔ (0 < k.curspl → Q () k) := by
  simp only [assertSpl, meets_bind, meets_get, meets_require_partial, gt_iff_lt]

end Rules

/-- Switching to the run queue. -/
theorem miSwitch_ready_spec (h : k.Ok) {t : Tid} (hcur : k.curthread = some t) :
    Meets (miSwitch .ready)
      (fun _ k' => 0 < k.curspl ∧ Refines k { k.view with
        curthread := none, runq := k.view.runq ++ [t] } k')
      (fun _ _ => False) k (fun _ => True) := by
  simp only [miSwitch, meets_bind, meets_assertSpl, meets_get, hcur, meets_modifyCore]
  intro hspl
  have hmap := Refines.mapCore h fun k => { k with curthread := none }
  refine (assertOk_spec (makeRunnable_spec hmap.ok t)).imp ?_
  rintro _ k' ⟨-, hk'⟩
  exact ⟨hspl, hmap.trans hk'⟩

/-- Switching to the sleepers. -/
theorem miSwitch_sleep_spec (h : k.Ok) {t : Tid} (hcur : k.curthread = some t) :
    Meets (miSwitch .sleep)
      (fun _ k' => 0 < k.curspl ∧ Refines k { k.view with
        curthread := none, sleepers := k.view.sleepers ++ [t] } k')
      (fun _ _ => False) k (fun _ => True) := by
  simp only [miSwitch, meets_bind, meets_assertSpl, meets_get, hcur, meets_modifyCore]
  intro hspl
  refine (assertOk_spec (onSleepers_spec (arrayAdd_spec h.sleepers t)).partial_of).imp ?_
  rintro _ _ ⟨a, nomem, rfl, hadd⟩
  refine ⟨hspl, ⟨h.runqueue, hadd.le, h.zombies⟩, ?_, hadd.max_le, rfl, 0, (mul_one _).symm⟩
  simp only [Kernel.view, hadd.toList]

/-- Switching to the zombies. When there is room no memory is asked for. -/
theorem miSwitch_zomb_spec (h : k.Ok) {t : Tid} (hcur : k.curthread = some t) :
    Meets (miSwitch .zomb)
      (fun _ k' => k'.Ok ∧ k'.view = { k.view with
          curthread := none, zombies := k.view.zombies ++ [t] } ∧
        k'.sleepers = k.sleepers ∧ k'.runqueue = k.runqueue ∧
        (k'.zombies.max = k.zombies.max ∨ k.zombies.num = k.zombies.max ∧
          k'.zombies.max = growMax (k.zombies.num + 1) (k.zombies.num + 1) k.zombies.max))
      (fun _ _ => False) k (fun _ => True) := by
  simp only [miSwitch, meets_bind, meets_assertSpl, meets_get, hcur, meets_modifyCore]
  intro hspl
  refine (assertOk_spec (onZombies_spec (arrayAdd_spec h.zombies t)).partial_of).imp ?_
  rintro _ _ ⟨a, nomem, rfl, hadd⟩
  refine ⟨⟨h.runqueue, h.sleepers, hadd.le⟩, ?_, rfl, rfl, ?_⟩
  · simp only [Kernel.view, hadd.toList]
  · by_cases hroom : k.zombies.num < k.zombies.max
    · exact .inl (hadd.room hroom).1
    · exact hadd.grow.imp_right fun hgrow => ⟨le_antisymm h.zombies (not_lt.mp hroom), hgrow⟩

theorem threadExit_spec (h : k.Ok) {t : Tid} (hcur : k.curthread = some t) :
    Meets threadExit
      (fun _ k' => 0 < k.numthreads ∧ k'.Ok ∧ k'.view = k.view.toZombies t ∧
        k'.sleepers = k.sleepers ∧ k'.runqueue = k.runqueue ∧
        (k'.zombies.max = k.zombies.max ∨ k.zombies.num = k.zombies.max ∧
          k'.zombies.max = growMax (k.zombies.num + 1) (k.zombies.num + 1) k.zombies.max))
      (fun _ _ => False) k (fun _ => True) := by
  simp only [threadExit, splhigh, meets_bind, meets_curThread_of hcur, meets_splx, meets_get,
    meets_require_partial, meets_modifyCore]
  intro hnum
  have hmap := Refines.mapCore h fun k => { Core.setKont { k with curspl := splHigh } t .dead with
    numthreads := k.numthreads - 1 }
  exact (miSwitch_zomb_spec hmap.ok hcur).imp fun _ k' hk' => ⟨hnum, hk'⟩

theorem threadYield_spec (h : k.Ok) {t : Tid} (hcur : k.curthread = some t) (c : Ctl π) :
    Meets (threadYield c) (fun _ k' => Refines k (k.view.toRunq t (.yielded k.curspl c)) k')
      (fun _ _ => False) k (fun _ => True) := by
  simp only [threadYield, splhigh, meets_bind, meets_curThread_of hcur, meets_splx,
    meets_modifyCore]
  have hmap := Refines.mapCore h fun k' => Core.setKont { k' with curspl := splHigh } t
    (.yielded k.curspl c)
  exact (miSwitch_ready_spec hmap.ok hcur).imp fun _ k' hk' => hmap.trans hk'.2

theorem threadSleep_spec (h : k.Ok) {t : Tid} (hcur : k.curthread = some t) (a : Addr)
    (κ : Kont π) :
    Meets (threadSleep a κ) (fun _ k' => 0 < k.curspl ∧ Refines k (k.view.toSleepers t a κ) k')
      (fun _ _ => False) k (fun _ => True) := by
  simp only [threadSleep, meets_bind, meets_curThread_of hcur, meets_modifyCore]
  have hmap := Refines.mapCore h fun k' => k'.setThread t fun th => { th with
    sleepaddr := some a, kont := κ }
  exact (miSwitch_sleep_spec hmap.ok hcur).imp fun _ k' hk' => ⟨hk'.1, hmap.trans hk'.2⟩

/-! ## Synchronization primitives -/

section Rules

variable {Q : Unit → Kernel π → Prop}

/-- The checks of pointers change nothing. -/
theorem meets_assertUsable (t : Tid) (hQ : Q () k) :
    Meets (assertUsable t) Q (fun _ _ => False) k (fun _ => True) := by
  simp only [assertUsable, meets_bind, meets_get, meets_require_partial]
  exact fun _ => hQ

theorem meets_assertLock (l : Lock) (hQ : Q () k) :
    Meets (assertLock l) Q (fun _ _ => False) k (fun _ => True) := by
  cases l with
  | obj n => exact hQ
  | lk t =>
    rw [assertLock, meets_bind]
    refine meets_assertUsable t ?_
    simp only [meets_bind, meets_get, meets_require_partial]
    exact fun _ => hQ

theorem meets_assertCv (c : Cv) (hQ : Q () k) :
    Meets (assertCv c) Q (fun _ _ => False) k (fun _ => True) := by
  cases c with
  | obj n => exact hQ
  | waitonexit t =>
    rw [assertCv, meets_bind]
    refine meets_assertUsable t ?_
    simp only [meets_bind, meets_get, meets_require_partial]
    exact fun _ => hQ
  | waittoexit t =>
    rw [assertCv, meets_bind]
    refine meets_assertUsable t ?_
    simp only [meets_bind, meets_get, meets_require_partial]
    exact fun _ => hQ

theorem meets_assertHold (l : Lock)
    (hQ : ∀ t, k.curthread = some t → k.own l = some t → Q () k) :
    Meets (assertHold l) Q (fun _ _ => False) k (fun _ => True) := by
  rw [assertHold, meets_bind]
  refine meets_assertLock l ?_
  simp only [meets_bind, meets_curThread, meets_get, meets_require_partial]
  exact hQ

end Rules

/-- The loop of `lock_acquire` up to the next sleep. -/
theorem lockAcquireLoop_spec (h : k.Ok) {t : Tid} (hcur : k.curthread = some t) (l : Lock)
    (spl : ℕ) (cv : Option Cv) (next : π) :
    Meets (lockAcquireLoop l spl cv next)
      (fun es k' => ∃ s, TryLock t l spl cv next k.view es s ∧ Refines k s k')
      (fun _ _ => False) k (fun _ => True) := by
  rw [lockAcquireLoop, meets_bind]
  refine meets_assertLock l ?_
  simp only [meets_bind, meets_curThread_of hcur, meets_get]
  cases hown : k.own l with
  | some v =>
    simp only [meets_bind, meets_pure]
    exact (threadSleep_spec h hcur _ _).imp fun _ k' hk' => ⟨_, .block hown, hk'.2⟩
  | none =>
    rw [meets_bind, meets_modifyCore, meets_bind]
    refine (meets_goOn (t := t) (by exact hcur) spl next).mpr ?_
    exact ⟨_, .get hown, Refines.mapCore h fun k =>
      Core.goOn { k with own := Function.update k.own l (some t) } t spl next⟩

/-- The loop of `P` up to the next sleep. -/
theorem pLoop_spec (h : k.Ok) {t : Tid} (hcur : k.curthread = some t) (n : ℕ) (spl : ℕ)
    (next : π) :
    Meets (pLoop n spl next) (fun es k' => ∃ s, TryP t n spl next k.view es s ∧ Refines k s k')
      (fun _ _ => False) k (fun _ => True) := by
  simp only [pLoop, meets_bind, meets_curThread_of hcur, meets_get, meets_ite, meets_pure,
    meets_require_partial, meets_modifyCore]
  refine ⟨fun hzero => ?_, fun _ hpos => ?_⟩
  · exact (threadSleep_spec h hcur _ _).imp fun _ k' hk' => ⟨_, .block hzero, hk'.2⟩
  · refine (meets_goOn (t := t) (by exact hcur) spl next).mpr ?_
    exact ⟨_, .get hpos, Refines.mapCore h fun k =>
      Core.goOn { k with count := Function.update k.count n (k.count n - 1) } t spl next⟩

/-- A lock is given up with interrupts off. -/
theorem lockReleaseBody_spec (h : k.Ok) (l : Lock) :
    Meets (lockReleaseBody l)
      (fun _ k' => Refines k ((k.view.setOwn l none).wake (.lock l)) k')
      (fun _ _ => False) k (fun _ => True) := by
  simp only [lockReleaseBody, meets_bind, meets_modifyCore]
  have hmap := Refines.mapCore h fun k => { k with own := Function.update k.own l none }
  exact (threadWakeup_spec hmap.ok _).imp fun _ k' hk' => hmap.trans hk'.2

/-- A unit is added with interrupts off. -/
theorem semVBody_spec (h : k.Ok) (n : ℕ) :
    Meets (semVBody n)
      (fun _ k' => 0 < s32 (k.count n + 1) ∧
        Refines k ((k.view.setCount n (s32 (k.count n + 1))).wake (.sem n)) k')
      (fun _ _ => False) k (fun _ => True) := by
  simp only [semVBody, meets_bind, meets_modifyCore, meets_get, meets_require_partial]
  intro hpos
  have hmap := Refines.mapCore h fun k =>
    { k with count := Function.update k.count n (s32 (k.count n + 1)) }
  rw [Function.update_self] at hpos
  exact (threadWakeup_spec hmap.ok _).imp fun _ k' hk' => ⟨hpos, hmap.trans hk'.2⟩

/-- After the part of an operation with interrupts off the thread goes on at the old level. -/
theorem Refines.goOn {k₁ : Kernel π} {s : Sys π} (h : Refines k s k₁) (t : Tid) (spl : ℕ) (p : π) :
    Refines k (s.goOn t spl p) { k₁ with toCore := k₁.goOn t spl p } := by
  have hmap := Refines.mapCore h.ok fun k => k.goOn t spl p
  rw [h.view] at hmap
  exact h.trans hmap

/-- Interrupts are turned off at the beginning. -/
theorem Refines.raise (h : k.Ok) : Refines k k.view.raise { k with curspl := splHigh } :=
  Refines.mapCore h fun k => { k with curspl := splHigh }

/-- The level at which a wakeup runs does not matter once it has been restored. -/
theorem Sys.goOn_wakeFirst_raise (s : Sys π) (a : Addr) (t : Tid) (spl : ℕ) (p : π) :
    (s.raise.wakeFirst a).goOn t spl p = (s.wakeFirst a).goOn t spl p := by
  have hasleep : s.raise.asleepOn a = s.asleepOn a := rfl
  simp only [Sys.wakeFirst, hasleep]
  cases (s.asleepOn a).head? <;> rfl

theorem lockAcquire_spec (h : k.Ok) {t : Tid} (hcur : k.curthread = some t) (l : Lock) (next : π) :
    Meets (lockAcquire l next)
      (fun es k' => ∃ s, OpStep t k.view (.acquire l next) es s ∧ Refines k s k')
      (fun _ _ => False) k (fun _ => True) := by
  simp only [lockAcquire, splhigh, meets_bind, meets_splx]
  have hraise := Refines.raise h
  refine (lockAcquireLoop_spec hraise.ok hcur l _ none next).imp ?_
  rintro es k' ⟨s, htry, hs⟩
  exact ⟨s, .acquire htry, hraise.trans hs⟩

theorem lockReleaseCheck_spec (h : k.Ok) {t : Tid} (hcur : k.curthread = some t) (l : Lock)
    (next : π) :
    Meets (lockReleaseCheck l next)
      (fun es k' => ∃ s, OpStep t k.view (.release l next) es s ∧ Refines k s k')
      (fun _ _ => False) k (fun _ => True) := by
  rw [lockReleaseCheck, meets_bind]
  refine meets_assertHold l fun u hu hown => ?_
  obtain rfl : t = u := Option.some.inj (hcur.symm.trans hu)
  simp only [meets_bind, meets_curThread_of hcur, meets_modifyCore, meets_pure]
  exact ⟨_, .release hown, Refines.mapCore h fun k => k.setKont t (.run (.releasing l next))⟩

/-- The rest of `lock_release`. -/
theorem lockRelease_spec (h : k.Ok) {t : Tid} (hcur : k.curthread = some t) (l : Lock) (next : π) :
    Meets (lockRelease l next)
      (fun es k' => es = [.released t l] ∧
        Refines k (((k.view.setOwn l none).wake (.lock l)).goOn t k.curspl next) k')
      (fun _ _ => False) k (fun _ => True) := by
  simp only [lockRelease, splhigh, meets_bind, meets_curThread_of hcur, meets_splx, meets_pure]
  have hraise := Refines.raise h
  refine (lockReleaseBody_spec hraise.ok l).imp fun _ k₁ hk₁ => ?_
  rw [meets_goOn (hk₁.curthread.trans hcur)]
  exact ⟨trivial, hraise.trans (hk₁.goOn t k.curspl next)⟩

theorem cvWait_spec (h : k.Ok) {t : Tid} (hcur : k.curthread = some t) (c : Cv) (l : Lock)
    (next : π) :
    Meets (cvWait c l next)
      (fun es k' => ∃ s, OpStep t k.view (.wait c l next) es s ∧ Refines k s k')
      (fun _ _ => False) k (fun _ => True) := by
  simp only [cvWait, splhigh, meets_bind, meets_curThread_of hcur, meets_splx, meets_pure]
  have hraise := Refines.raise h
  refine meets_assertCv c (meets_assertHold l fun u hu hown => ?_)
  obtain rfl : t = u := Option.some.inj (hcur.symm.trans hu)
  refine (lockReleaseBody_spec hraise.ok l).imp fun _ k₁ hk₁ => ?_
  refine (threadSleep_spec hk₁.ok (hk₁.curthread.trans hcur) _ _).imp ?_
  rintro _ k₂ ⟨-, hk₂⟩
  rw [hk₁.view] at hk₂
  exact ⟨_, .wait hown, hraise.trans (hk₁.trans hk₂)⟩

theorem cvSignal_spec (h : k.Ok) {t : Tid} (hcur : k.curthread = some t) (c : Cv) (l : Lock)
    (next : π) :
    Meets (cvSignal c l next)
      (fun es k' => ∃ s, OpStep t k.view (.signal c l next) es s ∧ Refines k s k')
      (fun _ _ => False) k (fun _ => True) := by
  simp only [cvSignal, splhigh, meets_bind, meets_splx, meets_pure]
  refine meets_assertCv c (meets_assertLock l ?_)
  have hraise := Refines.raise h
  refine (threadWakeone_spec hraise.ok (.cv c)).imp ?_
  rintro r k₁ ⟨-, rfl, hk₁⟩
  have hcur₁ : k₁.curthread = some t := by
    rw [hk₁.curthread, Sys.wakeFirst]
    split <;> exact hcur
  rw [meets_goOn hcur₁]
  have hgo := hraise.trans (hk₁.goOn t k.curspl next)
  exact ⟨_, .signal, Sys.goOn_wakeFirst_raise k.view .. ▸ hgo⟩

theorem cvBroadcast_spec (h : k.Ok) {t : Tid} (hcur : k.curthread = some t) (c : Cv) (l : Lock)
    (next : π) :
    Meets (cvBroadcast c l next)
      (fun es k' => ∃ s, OpStep t k.view (.broadcast c l next) es s ∧ Refines k s k')
      (fun _ _ => False) k (fun _ => True) := by
  simp only [cvBroadcast, splhigh, meets_bind, meets_splx, meets_pure, meets_get]
  refine meets_assertCv c (meets_assertLock l ?_)
  have hraise := Refines.raise h
  refine (threadWakeup_spec hraise.ok (.cv c)).imp ?_
  rintro _ k₁ ⟨-, hk₁⟩
  rw [meets_goOn (hk₁.curthread.trans hcur)]
  exact ⟨_, .broadcast, hraise.trans (hk₁.goOn t k.curspl next)⟩

theorem semP_spec (h : k.Ok) {t : Tid} (hcur : k.curthread = some t) (n : ℕ) (next : π) :
    Meets (semP n next)
      (fun es k' => ∃ s, OpStep t k.view (.p n next) es s ∧ Refines k s k')
      (fun _ _ => False) k (fun _ => True) := by
  simp only [semP, splhigh, meets_bind, meets_splx]
  have hraise := Refines.raise h
  refine (pLoop_spec hraise.ok hcur n _ next).imp ?_
  rintro es k' ⟨s, htry, hs⟩
  exact ⟨s, .p htry, hraise.trans hs⟩

theorem semV_spec (h : k.Ok) {t : Tid} (hcur : k.curthread = some t) (n : ℕ) (next : π) :
    Meets (semV n next)
      (fun es k' => ∃ s, OpStep t k.view (.v n next) es s ∧ Refines k s k')
      (fun _ _ => False) k (fun _ => True) := by
  simp only [semV, splhigh, meets_bind, meets_splx, meets_pure]
  have hraise := Refines.raise h
  refine (semVBody_spec hraise.ok n).imp ?_
  rintro _ k₁ ⟨hpos, hk₁⟩
  rw [meets_goOn (hk₁.curthread.trans hcur)]
  exact ⟨_, .v hpos, hraise.trans (hk₁.goOn t k.curspl next)⟩

/-! ## Forks -/

/-- `lock_create` and `cv_create`. -/
theorem namedCreate_spec (h : k.Ok) :
    Meets namedCreate (fun _ k' => Refines k k.view k') (fun _ _ => False) k := by
  simp only [namedCreate, meets_bind, meets_ite, meets_pure]
  refine (kmallocNull_spec h).imp fun b k₁ hk₁ => ⟨fun _ => hk₁, fun _ => ?_⟩
  refine (kmallocNull_spec hk₁.ok).imp fun b' k₂ hk₂ => ?_
  have hrefines := hk₁.trans (hk₁.view ▸ hk₂)
  exact ⟨fun _ => hrefines, fun _ => hrefines⟩

/-- The structure `thread_create` makes. -/
structure NewThread (s : Sys π) (th : Thread π) : Prop where
  addr : th.sleepaddr = none
  proc : th.proc = ⟨s.curthread, fun _ => none, 100, 0⟩
  pid : th.pid = s.pidAssign
  life : th.life = .embryo
  kont : th.kont = .dead

/-- The system with a new structure. -/
def Sys.create (s : Sys π) (th : Thread π) : Sys π := s.mapCore fun k => { k with
  thread := Function.update k.thread k.created th
  pidAssign := s32 (k.pidAssign + 1)
  created := k.created + 1 }

theorem threadCreate_spec (h : k.Ok) :
    Meets threadCreate
      (fun r k' => r = none ∧ Refines k k.view k' ∨
        r = some k.created ∧ ∃ th, NewThread k.view th ∧ Refines k (k.view.create th) k')
      (fun _ _ => False) k := by
  simp only [threadCreate, lockCreate, cvCreate, meets_bind, meets_ite, meets_pure, meets_get,
    meets_modifyCore]
  refine (kmallocNull_spec h).imp fun b k₁ hk₁ => ⟨fun _ => .inl ⟨trivial, hk₁⟩, fun _ => ?_⟩
  refine (kmallocNull_spec hk₁.ok).imp fun b' k₂ hk₂ => ?_
  have h₂ := hk₁.trans (hk₁.view ▸ hk₂)
  refine ⟨fun _ => .inl ⟨trivial, h₂⟩, fun _ => ?_⟩
  refine (namedCreate_spec h₂.ok).imp fun lk k₃ hk₃ => ?_
  have h₃ := h₂.trans (h₂.view ▸ hk₃)
  refine (namedCreate_spec h₃.ok).imp fun waitonexit k₄ hk₄ => ?_
  have h₄ := h₃.trans (h₃.view ▸ hk₄)
  refine (namedCreate_spec h₄.ok).imp fun waittoexit k₅ hk₅ => .inr ?_
  have h₅ := h₄.trans (h₄.view ▸ hk₅)
  have hcore : k₅.toCore = k.toCore := congrArg Sys.toCore h₅.view
  have hmap := Refines.mapCore h₅.ok fun k => { k with
    thread := Function.update k.thread k.created
      ⟨none, lk, waitonexit, waittoexit, ⟨k.curthread, fun _ => none, 100, 0⟩, k.pidAssign, .embryo,
        .dead⟩
    pidAssign := s32 (k.pidAssign + 1)
    created := k.created + 1 }
  rw [h₅.view] at hmap
  refine ⟨by rw [hcore], _, ⟨?_, ?_, ?_, ?_, ?_⟩, h₅.trans hmap⟩
  all_goals rfl

/-- Changing the structure that has just been made. -/
theorem Sys.create_setThread (s : Sys π) (th : Thread π) (f : Thread π → Thread π) :
    ((s.create th).mapCore fun k => k.setThread s.created f) = s.create (f th) := by
  simp only [Sys.create, Sys.mapCore, Core.setThread, Function.update_self, Function.update_idem]

/-- The first half of `thread_fork`. -/
theorem threadForkCreate_spec (h : k.Ok) (start : π) :
    Meets (threadForkCreate start)
      (fun r k' => r = none ∧ Refines k k.view k' ∨ ∃ th, NewThread k.view th ∧
        (r = none ∧ Refines k (k.view.create { th with life := .freed }) k' ∨
          r = some k.created ∧ Refines k (k.view.create { th with kont := .fresh start }) k'))
      (fun _ _ => False) k := by
  simp only [threadForkCreate, meets_bind]
  refine (threadCreate_spec h).imp ?_
  rintro _ k₁ (⟨rfl, hk₁⟩ | ⟨rfl, th, hth, hk₁⟩)
  · exact .inl ⟨rfl, hk₁⟩
  · simp only [freeEmbryo, meets_bind, meets_ite, meets_modifyCore, meets_pure]
    refine (kmallocNull_spec hk₁.ok).imp fun b k₂ hk₂ => ?_
    have h₂ := hk₁.trans (hk₁.view ▸ hk₂)
    have hmap (f : Thread π → Thread π) :
        Refines k (k.view.create (f th)) { k₂ with toCore := k₂.setThread k.created f } := by
      have hset := Refines.mapCore h₂.ok fun k' => k'.setThread k.created f
      rw [h₂.view] at hset
      exact Sys.create_setThread k.view th f ▸ h₂.trans hset
    exact ⟨fun _ => .inr ⟨th, hth, .inl ⟨trivial, hmap fun th => { th with life := .freed }⟩⟩,
      fun _ => .inr ⟨th, hth, .inr ⟨trivial, hmap fun th => { th with kont := .fresh start }⟩⟩⟩

/-- `thread_fork` up to the point where interrupts go off. -/
theorem fork_spec (h : k.Ok) {t : Tid} (hcur : k.curthread = some t) (start : π) (ok : Tid → π)
    (fail : π) :
    Meets (runOp (.fork start ok fail))
      (fun es k' => ∃ s, OpStep t k.view (.fork start ok fail) es s ∧ Refines k s k')
      (fun _ _ => False) k (fun _ => True) := by
  simp only [runOp, meets_bind, meets_curThread_of hcur, meets_gets]
  refine (threadForkCreate_spec h start).partial_of.imp ?_
  rintro _ k₁ (⟨rfl, hk₁⟩ | ⟨th, hth, ⟨rfl, hk₁⟩ | ⟨rfl, hk₁⟩⟩)
  · rw [meets_bind, meets_goOn (hk₁.curthread.trans hcur)]
    exact ⟨_, .forkNone, hk₁.goOn t k.curspl fail⟩
  · rw [meets_bind, meets_goOn (hk₁.curthread.trans hcur)]
    refine ⟨k.view.newThread t { th with life := .freed } _, .forkNew hth.addr ?_ hth.pid
      (.inr ⟨rfl, hth.kont, rfl⟩), hk₁.goOn t k.curspl fail⟩
    exact hth.proc.trans (by rw [show k.view.curthread = some t from hcur])
  · rw [meets_bind, meets_modifyCore]
    have hset := Refines.mapCore hk₁.ok fun k' =>
      k'.setKont t (.run (.forking k.created (ok k.created) fail))
    rw [hk₁.view] at hset
    refine ⟨k.view.newThread t { th with kont := .fresh start } _, .forkNew hth.addr ?_ hth.pid
      (.inl ⟨hth.life, rfl, rfl⟩), hk₁.trans hset⟩
    exact hth.proc.trans (by rw [show k.view.curthread = some t from hcur])

/-- Room for `n` sleepers. -/
theorem preallocateSleepers_spec (h : k.Ok) (n : ℕ) :
    Meets (onSleepers (arrayPreallocate n)) (fun _ k' => Refines k k.view k' ∧ n ≤ k'.sleepers.max)
      (fun _ k' => Refines k k.view k') k := by
  refine (onSleepers_spec (arrayPreallocate_spec h.sleepers n)).mono ?_ ?_
  · rintro _ _ ⟨a, nomem, rfl, rfl, -⟩
    have hge := growMax_ge n n k.sleepers.max
    have hfit : n ≤ growMax n n k.sleepers.max := le_growMax n n (by omega)
    exact ⟨⟨⟨h.runqueue, h.sleepers.trans hge, h.zombies⟩, rfl, hge, rfl, 0, (mul_one _).symm⟩, hfit⟩
  · rintro _ _ ⟨a, nomem, rfl, -, rfl, -⟩
    exact ⟨⟨h.runqueue, h.sleepers, h.zombies⟩, rfl, le_rfl, rfl, 0, (mul_one _).symm⟩

/-- Room for `n` zombies. -/
theorem preallocateZombies_spec (h : k.Ok) (n : ℕ) :
    Meets (onZombies (arrayPreallocate n))
      (fun _ k' => k'.Ok ∧ k'.view = k.view ∧ k'.sleepers = k.sleepers ∧
        k'.runqueue = k.runqueue ∧ k'.zombies.max = growMax n n k.zombies.max)
      (fun _ k' => Refines k k.view k') k := by
  refine (onZombies_spec (arrayPreallocate_spec h.zombies n)).mono ?_ ?_
  · rintro _ _ ⟨a, nomem, rfl, rfl, -⟩
    have hge := growMax_ge n n k.zombies.max
    exact ⟨⟨h.runqueue, h.sleepers, h.zombies.trans hge⟩, rfl, rfl, rfl, rfl⟩
  · rintro _ _ ⟨a, nomem, rfl, -, rfl, -⟩
    exact ⟨⟨h.runqueue, h.sleepers, h.zombies⟩, rfl, le_rfl, rfl, 0, (mul_one _).symm⟩

theorem schedulerPreallocate_spec (h : k.Ok) (n : ℕ) :
    Meets (schedulerPreallocate n) (fun _ k' => Refines k k.view k' ∧ n ≤ k'.runqueue.size)
      (fun _ k' => Refines k k.view k') k (fun _ => True) := by
  simp only [schedulerPreallocate, meets_bind, meets_assertSpl]
  intro _
  refine (onRunqueue_spec (qPreallocate_spec h.runqueue n)).partial_of.mono ?_ ?_
  · rintro _ _ ⟨q, nomem, rfl, hq, hfit, hsize, -, hlist⟩
    refine ⟨⟨⟨hq, h.sleepers, h.zombies⟩, ?_, le_rfl, rfl, hsize⟩, hfit⟩
    simp only [Kernel.view, hlist]
  · rintro _ _ ⟨q, nomem, rfl, -, rfl⟩
    exact ⟨⟨h.runqueue, h.sleepers, h.zombies⟩, rfl, le_rfl, rfl, 0, (mul_one _).symm⟩

/-- What the calls of `thread_fork` with interrupts off do to the containers, whether or not all of
them succeed. -/
structure Prepared (k : Kernel π) (s : Sys π) (k' : Kernel π) : Prop where
  ok : k'.Ok
  view : k'.view = s
  sleepers : k.sleepers.max ≤ k'.sleepers.max
  zombies : k'.zombies.max = k.zombies.max ∨
    k'.zombies.max = growMax (k.numthreads + 1) (k.numthreads + 1) k.zombies.max
  size : ∃ j, k'.runqueue.size = k.runqueue.size * 2 ^ j

theorem Refines.prepared {s : Sys π} {k' : Kernel π} (h : Refines k s k') : Prepared k s k' :=
  ⟨h.ok, h.view, h.caps.sleepers, .inl (by rw [h.caps.zombies]), h.caps.size⟩

theorem Prepared.trans {k₁ k₂ : Kernel π} {s s' : Sys π} (h : Prepared k s k₁)
    (h' : Refines k₁ s' k₂) : Prepared k s' k₂ := by
  obtain ⟨i, hi⟩ := h.size
  obtain ⟨j, hj⟩ := h'.caps.size
  refine ⟨h'.ok, h'.view, h.sleepers.trans h'.caps.sleepers, ?_, i + j, ?_⟩
  · rw [h'.caps.zombies]
    exact h.zombies
  · rw [hj, hi, pow_add, mul_assoc]

/-- Turn interrupts off at the beginning, and change global variables at the end. -/
theorem Prepared.mapCore {s : Sys π} {k' : Kernel π} (h : Prepared { k with curspl := splHigh } s k')
    (f : Core π → Core π) : Prepared k (s.mapCore f) { k' with toCore := f k'.toCore } :=
  ⟨⟨h.ok.runqueue, h.ok.sleepers, h.ok.zombies⟩, congrArg (Sys.mapCore · f) h.view, h.sleepers,
    h.zombies, h.size⟩

theorem Prepared.curthread {s : Sys π} {k' : Kernel π} (h : Prepared k s k') :
    k'.curthread = s.curthread := by
  rw [← h.view]
  rfl

theorem Prepared.goOn {s : Sys π} {k' : Kernel π} (h : Prepared k s k') (t : Tid) (spl : ℕ) (p : π) :
    Prepared k (s.goOn t spl p) { k' with toCore := k'.goOn t spl p } :=
  ⟨⟨h.ok.runqueue, h.ok.sleepers, h.ok.zombies⟩, congrArg (Sys.goOn · t spl p) h.view, h.sleepers,
    h.zombies, h.size⟩

/-- The calls of `thread_fork` that may fail. -/
theorem prepare_spec (h : k.Ok) (new : Tid) :
    Meets (do
        let numthreads ← gets (·.numthreads)
        onSleepers (arrayPreallocate (numthreads + 1))
        onZombies (arrayPreallocate (numthreads + 1))
        schedulerPreallocate (numthreads + 1)
        makeRunnable new : KM π Unit)
      (fun _ k' => Prepared k { k.view with runq := k.view.runq ++ [new] } k' ∧
        k.numthreads + 1 ≤ k'.sleepers.max ∧ k.numthreads + 1 ≤ k'.zombies.max ∧
        k.numthreads + 1 ≤ k'.runqueue.size)
      (fun _ k' => Prepared k k.view k') k (fun _ => True) := by
  simp only [meets_bind, meets_gets]
  refine (preallocateSleepers_spec h _).partial_of.mono ?_ fun _ k₁ hk₁ => hk₁.prepared
  rintro _ k₁ ⟨hk₁, hsleepers⟩
  refine (preallocateZombies_spec hk₁.ok _).partial_of.mono ?_ ?_
  · rintro _ k₂ ⟨hok₂, hview₂, hsl₂, hrq₂, hzmax₂⟩
    have hzmax : k₂.zombies.max =
        growMax (k.numthreads + 1) (k.numthreads + 1) k.zombies.max := by
      rw [hzmax₂, hk₁.caps.zombies]
    have hzombies : k.numthreads + 1 ≤ k₂.zombies.max := by
      rw [hzmax]
      exact le_growMax _ _ (by omega)
    have h₂ : Prepared k k.view k₂ :=
      ⟨hok₂, hview₂.trans hk₁.view, hsl₂ ▸ hk₁.caps.sleepers, .inr hzmax, hrq₂ ▸ hk₁.caps.size⟩
    refine (schedulerPreallocate_spec hok₂ _).mono ?_ fun _ k₃ hk₃ =>
      h₂.trans (h₂.view ▸ hk₃)
    rintro _ k₃ ⟨hk₃, hsize⟩
    have h₃ : Prepared k k.view k₃ := h₂.trans (h₂.view ▸ hk₃)
    refine (makeRunnable_spec hk₃.ok new).mono ?_ fun _ k₄ hk₄ => h₃.trans (h₃.view ▸ hk₄)
    rintro _ k₄ ⟨-, hk₄⟩
    obtain ⟨j, hj⟩ := hk₄.caps.size
    refine ⟨h₃.trans (h₃.view ▸ hk₄), ?_, ?_, ?_⟩
    · exact (hsl₂ ▸ hsleepers).trans (hk₃.caps.sleepers.trans hk₄.caps.sleepers)
    · rw [hk₄.caps.zombies, hk₃.caps.zombies]
      exact hzombies
    · rw [hj]
      exact hsize.trans (Nat.le_mul_of_pos_right _ (by positivity))
  · exact fun _ k₂ hk₂ => (hk₁.trans (hk₁.view ▸ hk₂)).prepared

/-- The second half of `thread_fork`. -/
theorem threadForkCommit_spec (h : k.Ok) {t : Tid} (hcur : k.curthread = some t) (new : Tid) :
    Meets (threadForkCommit new)
      (fun done k' =>
        done = true ∧ Prepared k { k.view with
            toCore := k.view.addThread t new, runq := k.view.runq ++ [new] } k' ∧
          k.numthreads + 1 ≤ k'.sleepers.max ∧ k.numthreads + 1 ≤ k'.zombies.max ∧
          k.numthreads + 1 ≤ k'.runqueue.size ∨
        done = false ∧ Prepared k (k.view.mapCore fun k => k.setThread new fun th => { th with
          life := .freed }) k')
      (fun _ _ => False) k (fun _ => True) := by
  rw [threadForkCommit, meets_bind, meets_curThread_of hcur]
  simp only [splhigh]
  rw [meets_bind, meets_splx, meets_bind, meets_attempt]
  refine Meets.mono (prepare_spec (Refines.raise h).ok new) ?_ ?_
  · rintro _ k₁ ⟨hk₁, hfit⟩
    exact .inl ⟨rfl, hk₁.mapCore fun k' => { k'.addThread t new with curspl := k.curspl }, hfit⟩
  · intro _ k₁ hk₁
    exact .inr ⟨rfl, hk₁.mapCore fun k' => Core.setThread { k' with curspl := k.curspl } new
      fun th => { th with life := .freed }⟩

/-! ## The switch -/

theorem scheduler_spec (h : k.Ok) :
    Meets scheduler
      (fun t k' => ∃ rest, k.view.runq = t :: rest ∧ Refines k { k.view with runq := rest } k')
      (fun _ _ => False) k (fun _ => True) := by
  simp only [scheduler, meets_bind, meets_assertSpl]
  intro _
  rw [onRunqueue, meets_zoom]
  simp only [qRemhead, meets_bind, meets_get, meets_require_partial, meets_modify, meets_pure]
  intro _ hne
  refine ⟨_, h.runqueue.toList_eq_cons hne, ⟨h.runqueue.drop, h.sleepers, h.zombies⟩, rfl, le_rfl,
    rfl, 0, (mul_one _).symm⟩

/-- The structures of the threads in `zs` are freed. -/
def Core.destroy (k : Core π) (zs : List Tid) : Core π :=
  { k with thread := fun u => if u ∈ zs then { k.thread u with life := .freed } else k.thread u }

/-- One pass of the loop of `exorcise`. -/
theorem Core.destroy_append (k : Core π) (zs : List Tid) (z : Tid) :
    (k.destroy zs).setThread z (fun th => { th with life := .freed }) = k.destroy (zs ++ [z]) := by
  simp only [Core.destroy, Core.setThread]
  congr 1
  funext u
  by_cases hu : u = z
  · subst hu
    by_cases hmem : u ∈ zs <;> simp [hmem]
  · simp [hu]

theorem exorcise_spec (h : k.Ok) :
    Meets exorcise
      (fun _ k' => k'.Ok ∧
        k'.view = { k.view with toCore := k.view.toCore.destroy k.view.zombies, zombies := [] } ∧
        k'.sleepers = k.sleepers ∧ k'.runqueue = k.runqueue ∧
        k'.zombies.max = if k.zombies.max > 16 then 0 else k.zombies.max)
      (fun _ _ => False) k (fun _ => True) := by
  simp only [exorcise, meets_bind, meets_assertSpl, meets_get]
  intro _
  -- After `i` passes the first `i` zombies are gone.
  have hloop : Meets (forRange exorciseOne k.zombies.num 0)
      (fun _ k' => ∃ nomem, k' = { k with
        toCore := k.toCore.destroy (k.view.zombies.take (0 + k.zombies.num)), nomem := nomem })
      (fun _ _ => False) k (fun _ => True) := by
    refine Meets.forRange (fun i k' => ∃ nomem, k' = { k with
      toCore := k.toCore.destroy (k.view.zombies.take i), nomem := nomem }) ⟨k.nomem, ?_⟩ ?_
    · simp [Core.destroy]
    · rintro i _ - hi ⟨nomem, rfl⟩
      have hi' : i < k.zombies.num := by omega
      simp only [exorciseOne, threadDestroy, meets_bind]
      refine (onZombies_spec (arrayGetguy_spec (s := ⟨k.zombies, nomem⟩) h.zombies
        hi')).partial_of.mono ?_ ?_
      · rintro z _ ⟨a, nomem', rfl, hget, heq⟩
        obtain ⟨rfl, rfl⟩ : a = k.zombies ∧ nomem' = nomem := by simpa using heq
        simp only [meets_get, meets_require_partial, meets_modifyCore]
        intro _ _ _ _ _
        refine ⟨nomem', ?_⟩
        rw [List.take_add_one, show k.view.zombies[i]? = some z from hget]
        exact congrArg (fun c : Core π => { k with toCore := c, nomem := nomem' })
          (Core.destroy_append _ _ _)
      · rintro e _ ⟨a, nomem', rfl, hfalse⟩
        exact hfalse
  refine hloop.imp ?_
  rintro _ _ ⟨nomem, rfl⟩
  have hall : k.view.zombies.take (0 + k.zombies.num) = k.view.zombies :=
    List.take_of_length_le (by simp [Kernel.view])
  rw [hall]
  refine (assertOk_spec (onZombies_spec
    (arraySetsize_zero_spec (s := ⟨k.zombies, nomem⟩) h.zombies)).partial_of).imp ?_
  rintro _ _ ⟨a, nomem', rfl, hnil, hnum, -, hmax⟩
  refine ⟨⟨h.runqueue, h.sleepers, by rw [hnum]; exact Nat.zero_le _⟩, ?_, rfl, rfl, hmax⟩
  simp only [Kernel.view, hnil]

theorem resume_spec (h : k.Ok) {t : Tid} (hcur : k.curthread = some t) :
    Meets (resume t) (fun es k' => ∃ s, Resume t k.view es s ∧ Refines k s k')
      (fun _ _ => False) k (fun _ => True) := by
  have hclear := Refines.mapCore h fun k => k.setThread t fun th => { th with sleepaddr := none }
  rw [resume, meets_bind, meets_get]
  cases hk : (k.thread t).kont with
  | yielded spl c =>
    exact ⟨_, .yielded hk, Refines.mapCore h fun k => { k.setKont t (.run c) with curspl := spl }⟩
  | slept next =>
    have hset := Refines.mapCore h fun k => k.setThread t fun th => { th with
      sleepaddr := none, kont := .run (.client next) }
    refine ⟨_, .slept hk, hset.ok, ?_, hset.caps⟩
    rw [hset.view]
    simp only [Sys.mapCore, Sys.clearAddr, Sys.goOn, Core.goOn, Core.setKont,
      Core.setThread_setThread]
    rfl
  | locking l spl cv next =>
    rw [meets_bind, meets_modifyCore]
    refine (lockAcquireLoop_spec hclear.ok hcur l spl cv next).imp ?_
    rintro es k' ⟨s, htry, hs⟩
    exact ⟨s, .locking hk htry, hclear.trans hs⟩
  | passing n spl next =>
    rw [meets_bind, meets_modifyCore]
    refine (pLoop_spec hclear.ok hcur n spl next).imp ?_
    rintro es k' ⟨s, htry, hs⟩
    exact ⟨s, .passing hk htry, hclear.trans hs⟩
  | waiting c l spl next =>
    rw [meets_bind, meets_modifyCore]
    refine (lockAcquireLoop_spec hclear.ok hcur l spl (some c) next).imp ?_
    rintro es k' ⟨s, htry, hs⟩
    exact ⟨s, .waiting hk htry, hclear.trans hs⟩
  | run c => trivial
  | fresh p => trivial
  | dead => trivial

/-! ## Steps -/

/-- The step is the second half of `thread_fork`. -/
def Kernel.Forks (k : Kernel π) (c : Choice π) : Prop :=
  c = .proceed ∧ ∃ t new ok fail, k.curthread = some t ∧
    (k.thread t).kont = .run (.forking new ok fail)

/-- What a step does to capacities. A full vector of zombies grows when a thread exits, `exorcise`
frees it if it has more than 16 slots, and `thread_fork` asks for room for one more thread. -/
structure Kernel.StepCaps (k : Kernel π) (c : Choice π) (k' : Kernel π) : Prop where
  sleepers : k.sleepers.max ≤ k'.sleepers.max
  size : ∃ j, k'.runqueue.size = k.runqueue.size * 2 ^ j
  zombies : k'.zombies.max = k.zombies.max ∨
    (k.zombies.num = k.zombies.max ∧ k.curthread ≠ none ∧
      k'.zombies.max = growMax (k.zombies.num + 1) (k.zombies.num + 1) k.zombies.max) ∨
    k.zombies.max > 16 ∨
    k.Forks c ∧ k'.zombies.max = growMax (k.numthreads + 1) (k.numthreads + 1) k.zombies.max
  forked : k'.numthreads ≤ k.numthreads ∨ k.Forks c ∧ k'.numthreads = k.numthreads + 1 ∧
    k'.numthreads ≤ k'.sleepers.max ∧ k'.numthreads ≤ k'.zombies.max ∧
    k'.numthreads ≤ k'.runqueue.size

theorem Refines.stepCaps {s : Sys π} {k' : Kernel π} (h : Refines k s k') (c : Choice π)
    (hnum : s.numthreads ≤ k.numthreads) : k.StepCaps c k' := by
  have hnum' : k'.numthreads = s.numthreads := by
    rw [← h.view]
    rfl
  exact ⟨h.caps.sleepers, h.caps.size, .inl (by rw [h.caps.zombies]), .inl (hnum'.trans_le hnum)⟩

/-- An operation of the current thread. -/
theorem runOp_spec (h : k.Ok) {t : Tid} (hcur : k.curthread = some t) (o : Op π) :
    Meets (runOp o) (fun es k' => k'.Ok ∧ OpStep t k.view o es k'.view ∧ k.StepCaps (.op o) k')
      (fun _ _ => False) k (fun _ => True) := by
  have hfin {m : KM π (List Event)} (hm : Meets m
      (fun es k' => ∃ s, OpStep t k.view o es s ∧ Refines k s k') (fun _ _ => False) k
      (fun _ => True)) :
      Meets m (fun es k' => k'.Ok ∧ OpStep t k.view o es k'.view ∧ k.StepCaps (.op o) k')
        (fun _ _ => False) k (fun _ => True) := by
    refine hm.imp ?_
    rintro es k' ⟨s, hop, hs⟩
    exact ⟨hs.ok, hs.view ▸ hop, hs.stepCaps _ hop.numthreads_le⟩
  cases o with
  | splx spl next =>
    refine hfin ?_
    rw [runOp, meets_bind, meets_goOn hcur]
    exact ⟨_, .splx, (Refines.refl h).goOn t spl next⟩
  | write f es next =>
    refine hfin ?_
    rw [runOp, meets_bind, meets_gets, meets_bind, meets_modifyCore, meets_bind]
    refine (meets_goOn (t := t) (by exact hcur) _ next).mpr ?_
    exact ⟨_, .write, (Refines.mapCore h fun k => k.setProc f).goOn t k.curspl next⟩
  | yield next =>
    refine hfin ?_
    rw [runOp, meets_bind]
    exact (threadYield_spec h hcur _).imp fun _ k' hk' => ⟨_, .yield, hk'⟩
  | sleep n next =>
    refine hfin ?_
    rw [runOp, meets_bind]
    exact (threadSleep_spec h hcur _ _).imp fun _ k' hk' => ⟨_, .sleep hk'.1, hk'.2⟩
  | wakeup n next =>
    refine hfin ?_
    rw [runOp, meets_bind, meets_gets, meets_bind]
    refine (threadWakeup_spec h _).imp ?_
    rintro _ k₁ ⟨hspl, hk₁⟩
    rw [meets_bind, meets_goOn (hk₁.curthread.trans hcur)]
    exact ⟨_, .wakeup hspl, hk₁.goOn t k.curspl next⟩
  | wakeone n next =>
    refine hfin ?_
    rw [runOp, meets_bind, meets_gets, meets_bind]
    refine (threadWakeone_spec h _).imp ?_
    rintro _ k₁ ⟨hspl, -, hk₁⟩
    have hcur₁ : k₁.curthread = some t := by
      rw [hk₁.curthread, Sys.wakeFirst_toCore]
      exact hcur
    rw [meets_bind, meets_goOn hcur₁]
    exact ⟨_, .wakeone hspl, hk₁.goOn t k.curspl next⟩
  | fork start ok fail => exact hfin (fork_spec h hcur start ok fail)
  | exit =>
    rw [runOp, meets_bind]
    refine (threadExit_spec h hcur).imp ?_
    rintro _ k' ⟨hnum, hok, hview, hsleepers, hrunq, hmax⟩
    have hop : OpStep t k.view .exit [] k'.view := hview ▸ .exit hnum
    refine ⟨hok, hop, hsleepers ▸ le_rfl, ⟨0, by simp [hrunq]⟩, ?_, .inl hop.numthreads_le⟩
    refine hmax.imp_right fun hfull => .inl ⟨hfull.1, ?_, hfull.2⟩
    rw [hcur]
    exact Option.some_ne_none t
  | acquire l next => exact hfin (lockAcquire_spec h hcur l next)
  | release l next => exact hfin (lockReleaseCheck_spec h hcur l next)
  | wait c l next => exact hfin (cvWait_spec h hcur c l next)
  | signal c l next => exact hfin (cvSignal_spec h hcur c l next)
  | broadcast c l next => exact hfin (cvBroadcast_spec h hcur c l next)
  | p n next => exact hfin (semP_spec h hcur n next)
  | v n next => exact hfin (semV_spec h hcur n next)

/-- The rest of `lock_release` or `thread_fork`. -/
theorem proceed_spec (code : Code π) (h : k.Ok) {t : Tid} (hcur : k.curthread = some t) :
    Meets proceed (fun es k' => k'.Ok ∧ SStep code k.view es k'.view ∧ k.StepCaps .proceed k')
      (fun _ _ => False) k (fun _ => True) := by
  rw [proceed, meets_bind, meets_curThread_of hcur, meets_bind, meets_get]
  split
  case h_1 l next hk =>
    refine (lockRelease_spec h hcur l next).imp ?_
    rintro _ k' ⟨rfl, hk'⟩
    exact ⟨hk'.ok, hk'.view ▸ .release hcur hk, hk'.stepCaps _ le_rfl⟩
  case h_2 new ok fail hk =>
    rw [meets_bind, meets_gets, meets_bind]
    refine (threadForkCommit_spec h hcur new).imp ?_
    have hforks : k.Forks .proceed := ⟨rfl, t, new, ok, fail, hcur, hk⟩
    rintro _ k₁ (⟨rfl, hk₁, hfit⟩ | ⟨rfl, hk₁⟩)
    · rw [meets_bind, meets_goOn (hk₁.curthread.trans hcur)]
      have hgo := hk₁.goOn t k.curspl ok
      refine ⟨hgo.ok, hgo.view ▸ .forked hcur hk, hgo.sleepers, hgo.size,
        hgo.zombies.imp_right fun hmax => .inr (.inr ⟨hforks, hmax⟩), .inr ⟨hforks, ?_⟩⟩
      have hnum : k₁.numthreads = k.numthreads + 1 := by
        rw [← show k₁.view.numthreads = k₁.numthreads from rfl, hk₁.view]
        rfl
      exact ⟨hnum, hnum.trans_le hfit.1, hnum.trans_le hfit.2.1, hnum.trans_le hfit.2.2⟩
    · rw [meets_bind, meets_goOn (hk₁.curthread.trans hcur)]
      have hgo := hk₁.goOn t k.curspl fail
      refine ⟨hgo.ok, hgo.view ▸ .forkFails hcur hk, hgo.sleepers, hgo.size,
        hgo.zombies.imp_right fun hmax => .inr (.inr ⟨hforks, hmax⟩), .inl ?_⟩
      have hnum : k₁.numthreads = k.numthreads := by
        rw [← show k₁.view.numthreads = k₁.numthreads from rfl, hk₁.view]
        rfl
      exact hnum.le
  case h_3 => trivial

/-- The list system after the first part of `hardclock`. -/
theorem lboltTick_spec (h : k.Ok) (second : Bool) :
    Meets (lboltTick second)
      (fun _ k' => Refines k (if second then k.view.wake lbolt else k.view) k')
      (fun _ _ => False) k (fun _ => True) := by
  cases second with
  | true => exact (threadWakeup_spec h lbolt).imp fun _ k' hk' => hk'.2
  | false => exact Refines.refl h

theorem timer_spec (code : Code π) (h : k.Ok) (second : Bool)
    (hon : k.curthread = none ∨ k.curspl = 0) :
    Meets (timer second)
      (fun es k' => k'.Ok ∧ SStep code k.view es k'.view ∧ k.StepCaps (.timer second) k')
      (fun _ _ => False) k (fun _ => True) := by
  have hraise := Refines.raise h
  rw [timer]
  simp only [splhigh]
  rw [meets_bind, meets_splx, meets_bind]
  refine (lboltTick_spec hraise.ok second).imp fun _ k₁ hk₁ => ?_
  have hcore₁ : k₁.toCore = { k.toCore with curspl := splHigh } := by
    rw [← show k₁.view.toCore = k₁.toCore from rfl, hk₁.view]
    split <;> rfl
  rw [meets_bind, meets_get]
  cases hcur : k.curthread with
  | none =>
    rw [show k₁.curthread = none by rw [hcore₁]; exact hcur, meets_bind, meets_splx]
    have hset := Refines.mapCore hk₁.ok fun k' => { k' with curspl := k.curspl }
    rw [hk₁.view] at hset
    have hall := hraise.trans (hk₁.trans hset)
    refine ⟨hall.ok, ?_, hall.stepCaps _ ?_⟩
    · rw [hall.view]
      have hidle : SStep code k.view [] _ := .idle second hcur
      convert hidle using 1
      cases second <;> rfl
    · cases second <;> exact le_rfl
  | some t =>
    have hspl : k.curspl = 0 := by simpa [hcur] using hon
    have hcur₁ : k₁.curthread = some t := by rw [hcore₁]; exact hcur
    have hk₁t : (k₁.thread t).kont = (k.thread t).kont := by rw [hcore₁]
    rw [hcur₁]
    dsimp only
    rw [hk₁t]
    split
    case h_1 c hc =>
      rw [meets_bind, meets_modifyCore, meets_bind]
      have hset := Refines.mapCore hk₁.ok fun k' => k'.setKont t (.yielded k.curspl c)
      refine (miSwitch_ready_spec (t := t) hset.ok hcur₁).imp ?_
      rintro _ k' ⟨-, hk'⟩
      have hall := hraise.trans (hk₁.trans (hset.trans hk'))
      rw [hset.view, hk₁.view, hspl] at hall
      refine ⟨hall.ok, ?_, hall.stepCaps _ ?_⟩
      · rw [hall.view]
        have htimer : SStep code k.view [] _ := .timer second hcur hspl hc
        convert htimer using 1
        cases second <;> rfl
      · cases second <;> exact le_rfl
    case h_2 => trivial

theorem device_spec (code : Code π) (h : k.Ok) (n : ℕ)
    (hon : k.curthread = none ∨ k.curspl = 0) :
    Meets (device n) (fun es k' => k'.Ok ∧ SStep code k.view es k'.view ∧ k.StepCaps (.device n) k')
      (fun _ _ => False) k (fun _ => True) := by
  have hraise := Refines.raise h
  simp only [device, splhigh, meets_bind, meets_splx, meets_pure]
  refine (semVBody_spec hraise.ok n).imp ?_
  rintro _ k₁ ⟨hpos, hk₁⟩
  have hset := Refines.mapCore hk₁.ok fun k' => { k' with curspl := k.curspl }
  rw [hk₁.view] at hset
  have hall := hraise.trans (hk₁.trans hset)
  exact ⟨hall.ok, hall.view ▸ .device hon hpos, hall.stepCaps _ le_rfl⟩

theorem schedule_spec (code : Code π) (h : k.Ok) (hcur : k.curthread = none) :
    Meets schedule (fun es k' => k'.Ok ∧ SStep code k.view es k'.view ∧ k.StepCaps .schedule k')
      (fun _ _ => False) k (fun _ => True) := by
  rw [schedule, meets_bind]
  refine (scheduler_spec h).imp ?_
  rintro t k₁ ⟨rest, hq, hk₁⟩
  rw [meets_bind, meets_modifyCore, meets_bind, meets_get]
  have hset := Refines.mapCore hk₁.ok fun k' => { k' with curthread := some t }
  rw [hk₁.view] at hset
  have h₂ := hk₁.trans hset
  have hkont : (k₁.thread t).kont = (k.thread t).kont := by
    rw [← show k₁.view.thread = k₁.thread from rfl, hk₁.view]
    rfl
  dsimp only
  rw [hkont]
  split
  case h_1 p hp =>
    rw [meets_bind]
    refine (meets_goOn (t := t) rfl 0 p).mpr ?_
    have hgo := h₂.goOn t 0 p
    exact ⟨hgo.ok, hgo.view ▸ .start hcur hq hp, hgo.stepCaps _ le_rfl⟩
  case h_2 =>
    rw [meets_bind]
    refine (exorcise_spec h₂.ok).imp ?_
    rintro _ k₃ ⟨hok₃, hview₃, hsl₃, hrq₃, hmax₃⟩
    have hview : k₃.view = k.view.switchTo t rest := by
      rw [hview₃, h₂.view]
      rfl
    have hcur₃ : k₃.curthread = some t := by
      rw [← show k₃.view.curthread = k₃.curthread from rfl, hview]
      rfl
    refine (resume_spec hok₃ hcur₃).imp ?_
    rintro es k' ⟨s, hres, hk'⟩
    rw [hview] at hres
    obtain ⟨i, hi⟩ := h₂.caps.size
    obtain ⟨j, hj⟩ := hk'.caps.size
    refine ⟨hk'.ok, hk'.view ▸ .switch hcur hq hres, ?_, ⟨i + j, ?_⟩, ?_, .inl ?_⟩
    · exact (hsl₃ ▸ h₂.caps.sleepers).trans hk'.caps.sleepers
    · rw [hj, hrq₃, hi, pow_add, mul_assoc]
    · rw [h₂.caps.zombies] at hmax₃
      rw [hk'.caps.zombies, hmax₃]
      split
      case isTrue hbig => exact .inr (.inr (.inl hbig))
      case isFalse => exact .inl rfl
    · rw [← show k'.view.numthreads = k'.numthreads from rfl, hk'.view]
      exact hres.numthreads.le

/-- Every step of the machine is a step of the list system. -/
theorem step_refines (h : k.Ok) {c : Choice π} (hc : k.Enabled code c) {es : List Event}
    {k' : Kernel π} (hrun : step c k = .ok es k') :
    k'.Ok ∧ SStep code k.view es k'.view ∧ k.StepCaps c k' := by
  cases c with
  | op o =>
    obtain ⟨t, p, hcur, hk, hcode⟩ := hc
    obtain ⟨hok, hop, hcaps⟩ := (runOp_spec h hcur o).of_ok hrun
    exact ⟨hok, .op hcur hk hcode hop, hcaps⟩
  | proceed =>
    obtain ⟨t, hcur⟩ := Option.ne_none_iff_exists'.mp hc
    exact (proceed_spec code h hcur).of_ok hrun
  | timer second => exact (timer_spec code h second hc).of_ok hrun
  | device n => exact (device_spec code h n hc).of_ok hrun
  | schedule => exact (schedule_spec code h hc).of_ok hrun

theorem Step.refines {es : List Event} {k' : Kernel π} (hs : Step code k es k') (h : k.Ok) :
    k'.Ok ∧ SStep code k.view es k'.view := by
  obtain ⟨c, hc, hrun⟩ := hs
  obtain ⟨hok, hstep, -⟩ := step_refines h hc hrun
  exact ⟨hok, hstep⟩

/-! ## Boot -/

theorem kmallocOrPanic_spec (msg : String) :
    Meets (kmallocOrPanic msg) (fun _ k' => ∃ nomem, k' = { k with nomem := nomem })
      (fun _ _ => False) k (fun _ => True) := by
  simp only [kmallocOrPanic, kmallocNull, onRunqueue, kmallocFails, meets_bind, meets_zoom, meets_get,
    meets_modify, meets_pure, meets_ite, meets_halt, implies_true, true_and]
  exact fun _ => ⟨_, rfl⟩

/-- The first structure becomes the first thread. -/
theorem Sys.Booted.of_create {p : π} {count : ℕ → ℤ} {s : Sys π} {th : Thread π}
    (hcount : ∀ n, 0 ≤ count n ∧ count n < 2147483648)
    (hth : NewThread (blank count [] : Kernel π).view th)
    (hs : s = ((blank count [] : Kernel π).view.create th).mapCore fun k =>
      { k.setThread 0 fun th => { th with life := .thread, kont := .run (.client p) } with
        curthread := some 0
        numthreads := 1
        pidAssign := 0 }) : s.Booted p count := by
  subst hs
  have hthread (t : Tid) : (((blank count [] : Kernel π).view.create th).setThread 0 fun th =>
      { th with life := .thread, kont := .run (.client p) }).thread t =
        if t = 0 then { th with life := .thread, kont := .run (.client p) }
        else (blank count [] : Kernel π).thread t := by
    by_cases ht : t = 0
    · simp [ht, Core.setThread, Sys.create, Sys.mapCore, Kernel.view, blank]
    · simp [ht, Core.setThread, Sys.create, Sys.mapCore, Kernel.view, blank]
  refine ⟨hcount, rfl, rfl, rfl, rfl, fun _ => rfl, rfl, rfl, rfl, rfl, ?_, ?_, ?_⟩
  · refine ⟨?_, ?_, ?_, ?_⟩
    · exact congrArg Thread.life (hthread 0)
    · exact congrArg Thread.kont (hthread 0)
    · exact (congrArg Thread.proc (hthread 0)).trans hth.proc
    · exact (congrArg Thread.pid (hthread 0)).trans hth.pid
  · intro t ht
    have hblank := hthread t
    rw [if_neg ht.ne'] at hblank
    exact ⟨congrArg Thread.life hblank, congrArg Thread.kont hblank⟩
  · intro t
    refine (congrArg Thread.sleepaddr (hthread t)).trans ?_
    split
    · exact hth.addr
    · rfl

/-- The machine after boot. -/
theorem bootstrap_spec (p : π) {count : ℕ → ℤ} (hcount : ∀ n, 0 ≤ count n ∧ count n < 2147483648)
    (nomem : List Bool) :
    Meets (bootstrap p)
      (fun _ k => k.Ok ∧ k.view.Booted p count ∧ k.zombies.max = 0 ∧
        ∃ j, k.runqueue.size = 32 * 2 ^ j)
      (fun _ _ => False) (blank count nomem) (fun _ => True) := by
  simp only [bootstrap, schedulerBootstrap, threadBootstrap, meets_bind, meets_modify]
  refine (kmallocOrPanic_spec _).imp ?_
  rintro _ _ ⟨nomem₁, rfl⟩
  refine (kmallocOrPanic_spec _).imp ?_
  rintro _ _ ⟨nomem₂, rfl⟩
  refine (kmallocOrPanic_spec _).imp ?_
  rintro _ _ ⟨nomem₃, rfl⟩
  refine (kmallocOrPanic_spec _).imp ?_
  rintro _ _ ⟨nomem₄, rfl⟩
  refine Meets.imp (threadCreate_spec ⟨⟨?_, ?_⟩, ?_, ?_⟩).partial_of ?_
  · exact Nat.succ_pos 31
  · exact Nat.succ_pos 31
  · exact le_rfl
  · exact le_rfl
  · rintro _ k (⟨rfl, -⟩ | ⟨rfl, th, hth, hk⟩)
    · trivial
    · have hmap := Refines.mapCore hk.ok fun k => { k.setThread 0 fun th => { th with
          life := .thread, kont := .run (.client p) } with
        curthread := some 0
        numthreads := 1
        pidAssign := 0 }
      have hall := hk.trans hmap
      refine ⟨hall.ok, ?_, by rw [hall.caps.zombies]; rfl, hall.caps.size⟩
      refine Sys.Booted.of_create hcount hth (hall.view.trans ?_)
      rw [hk.view]
      rfl

theorem Booted.spec {p : π} {count : ℕ → ℤ} (h : Booted p count k) :
    k.Ok ∧ k.view.Booted p count ∧ k.zombies.max = 0 ∧ ∃ j, k.runqueue.size = 32 * 2 ^ j := by
  obtain ⟨hcount, nomem, hrun⟩ := h
  exact (bootstrap_spec p hcount nomem).of_ok hrun

/-- The runs of the machine are runs of the list system. -/
theorem Run.refines {p : π} {count : ℕ → ℤ} {k₀ : Kernel π} (h0 : Booted p count k₀)
    {tr : List Event} (h : Run (Step code) k₀ tr k) :
    k.Ok ∧ k₀.view.Booted p count ∧ Run (SStep code) k₀.view tr k.view := by
  obtain ⟨hok, hboot, -⟩ := h0.spec
  obtain ⟨hok', hrun⟩ := h.simulate Kernel.view hok fun h hs => hs.refines h
  exact ⟨hok', hboot, hrun⟩

end Os161.Threads
