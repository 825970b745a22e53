import Mathlib.Tactic
import Os161.Thread.Protocol

/-!
# Laws of locks, semaphores and condition variables

Three laws of `kern/thread/synch.c`, for any number of threads running any code. Each says what a
trace of events determines (the holder of a lock, the units of a semaphore, the waiters on a
condition variable), that every event obeys the law given the events before it, and that the state
of the machine agrees with the trace. The proofs are invariants of the protocol.
-/

namespace Os161.Threads

open Prog

variable {π : Type} {code : Code π} {σ σ' : Prot} {tr es : List Event} {t : Tid}

/-! ## Locks -/

/-- Who holds the lock `l` after an event. -/
def Event.newHolder (l : Lock) (h : Option Tid) : Event → Option Tid
  | .acquired t l' => if l' = l then some t else h
  | .released _ l' => if l' = l then none else h
  | _ => h

/-- Who holds the lock `l`: the thread that has acquired it and not released it since. -/
def holder (l : Lock) (tr : List Event) : Option Tid := tr.foldl (Event.newHolder l) none

theorem holder_append (l : Lock) (tr es : List Event) :
    holder l (tr ++ es) = es.foldl (Event.newHolder l) (holder l tr) :=
  List.foldl_append ..

/-- A lock is acquired only while nobody holds it, and released only by its holder. -/
def lockLaw (pre : List Event) : Event → Prop
  | .acquired _ l => holder l pre = none
  | .released t l => holder l pre = some t
  | _ => True

/-- Events that are not about locks. -/
def Event.noLock : Event → Bool
  | .acquired _ _ => false
  | .released _ _ => false
  | _ => true

theorem holder_append_noLock (l : Lock) (hes : ∀ e ∈ es, e.noLock = true) :
    holder l (tr ++ es) = holder l tr := by
  rw [holder_append]
  generalize holder l tr = h
  induction es with
  | nil => rfl
  | cons e es ih =>
    have hsame : Event.newHolder l h e = h := by
      have he := hes e List.mem_cons_self
      cases e <;> first | rfl | cases he
    rw [List.foldl_cons, hsame]
    exact ih fun e' he' => hes e' (List.mem_cons_of_mem _ he')

theorem lawful_append_noLock (h : Lawful lockLaw tr) (hes : ∀ e ∈ es, e.noLock = true) :
    Lawful lockLaw (tr ++ es) := by
  refine h.append fun pre e he => ?_
  have he := hes e he
  cases e <;> trivial

/-- Locks after the events `tr`. -/
structure LockInv (tr : List Event) (σ : Prot) : Prop where
  own : ∀ l, σ.own l = holder l tr
  lawful : Lawful lockLaw tr
  free : ∀ l, σ.own l = none → σ.queue (.lock l) = []
  releasing : ∀ t l, σ.role t = .releasing l → σ.own l = some t

theorem LockInv.frame (h : LockInv tr σ) (hes : ∀ e ∈ es, e.noLock = true) (hown : σ'.own = σ.own)
    (hqueue : ∀ l, σ.own l = none → σ'.queue (.lock l) = σ.queue (.lock l))
    (hrole : ∀ t l, σ'.role t = .releasing l → σ.own l = some t) : LockInv (tr ++ es) σ' where
  own l := by rw [hown, h.own, holder_append_noLock l hes]
  lawful := lawful_append_noLock h.lawful hes
  free l hl := by
    rw [hown] at hl
    rw [hqueue l hl, h.free l hl]
  releasing t l ht := by
    rw [hown]
    exact hrole t l ht

/-- Only the queue of an address that is not a lock's changes. -/
theorem LockInv.setQueue (h : LockInv tr σ) (hes : ∀ e ∈ es, e.noLock = true) {a : Addr}
    (ha : ∀ l, a ≠ .lock l) (q : List Tid) : LockInv (tr ++ es) (σ.setQueue a q) :=
  h.frame hes rfl (fun l _ => Function.update_of_ne (ha l).symm _ _) h.releasing

/-- A thread gets a lock that is free. -/
theorem LockInv.get (h : LockInv tr σ) {l : Lock} (hown : σ.own l = none) (t : Tid) :
    LockInv (tr ++ [.acquired t l]) (σ.setOwn l (some t)) where
  own l' := by
    rw [holder_append]
    by_cases hl : l' = l
    · subst hl
      simp [Prot.setOwn, Event.newHolder]
    · simp [Prot.setOwn, Event.newHolder, hl, Ne.symm hl, h.own]
  lawful := h.lawful.snoc ((h.own l).symm.trans hown)
  free l' hl' := by
    by_cases hl : l' = l
    · subst hl
      simp [Prot.setOwn] at hl'
    · exact h.free l' (by simpa [Prot.setOwn, hl] using hl')
  releasing u l' hu := by
    have hown' := h.releasing u l' hu
    have hne : l' ≠ l := by
      rintro rfl
      rw [hown] at hown'
      cases hown'
    simpa [Prot.setOwn, hne] using hown'

/-- The holder gives the lock up, and all sleepers on it are woken up. -/
theorem LockInv.release (h : LockInv tr σ) {l : Lock} (hown : σ.own l = some t)
    {role : Tid → Role} (hrole : ∀ u l', role u = .releasing l' → σ.own l' = some u ∧ u ≠ t) :
    LockInv (tr ++ [.released t l])
      { (σ.setOwn l none).setQueue (.lock l) [] with role := role } where
  own l' := by
    rw [holder_append]
    by_cases hl : l' = l
    · subst hl
      simp [Prot.setOwn, Prot.setQueue, Event.newHolder]
    · simp [Prot.setOwn, Prot.setQueue, Event.newHolder, hl, Ne.symm hl, h.own]
  lawful := h.lawful.snoc ((h.own l).symm.trans hown)
  free l' hl' := by
    by_cases hl : l' = l
    · subst hl
      simp [Prot.setQueue]
    · have hl'' : σ.own l' = none := by simpa [Prot.setOwn, Prot.setQueue, hl] using hl'
      simpa [Prot.setOwn, Prot.setQueue, hl] using h.free l' hl''
  releasing u l' hu := by
    obtain ⟨hown', hne⟩ := hrole u l' hu
    have hl : l' ≠ l := by
      rintro rfl
      exact hne (Option.some.inj (hown'.symm.trans hown))
    simpa [Prot.setOwn, Prot.setQueue, hl] using hown'

/-- When `t` has a role other than `lock_release`, the releasing threads are other threads. -/
theorem LockInv.releasing_update (h : LockInv tr σ) {r : Role} (hr : ∀ l, r ≠ .releasing l)
    (u : Tid) (l : Lock) (hu : Function.update σ.role t r u = .releasing l) :
    σ.own l = some u ∧ u ≠ t := by
  rw [Function.update_apply] at hu
  split at hu
  · exact absurd hu (hr l)
  case isFalse hne => exact ⟨h.releasing u l hu, hne⟩

theorem ProtStep.lockInv (hs : ProtStep σ es σ') (h : LockInv tr σ) : LockInv (tr ++ es) σ' := by
  cases hs with
  | @idle es role hrole =>
    refine h.frame (by simp [Event.noLock]) rfl (fun _ _ => rfl) fun t l ht => ?_
    rcases hrole t with heq | heq
    · exact h.releasing t l (heq ▸ ht)
    · cases heq.symm.trans ht
  | sleep => exact h.setQueue (by simp) (by simp) _
  | wakeup => exact h.setQueue (by simp) (by simp) _
  | wakeone => exact h.setQueue (by simp) (by simp) _
  | @block t l hown =>
    refine h.frame (by simp) rfl (fun l' hl' => Function.update_of_ne ?_ _ _) h.releasing
    simpa using fun heq : l' = l => hown (heq ▸ hl')
  | get hown hrole => exact h.get hown _
  | @getBack t c l hown hrole hawake =>
    rw [List.append_cons]
    have hget := h.get hown t
    refine hget.frame (by simp [Event.noLock]) rfl (fun _ _ => rfl) fun u l' hu => ?_
    exact (hget.releasing_update (by simp) u l' hu).1
  | @begin t l hown =>
    refine h.frame (by simp) rfl (fun _ _ => rfl) fun u l' hu => ?_
    simp only [Prot.setRole, Function.update_apply] at hu
    split at hu
    case isTrue heq =>
      cases hu
      exact heq ▸ hown
    case isFalse => exact h.releasing u l' hu
  | release hrole => exact h.release (h.releasing _ _ hrole) (h.releasing_update (by simp))
  | @wait t c l hown hrole =>
    rw [List.append_cons]
    have hrel := h.release hown (h.releasing_update (t := t) (r := .waiting c l) (by simp))
    exact hrel.setQueue (by simp [Event.noLock]) (by simp) _
  | signal => exact h.setQueue (by simp [Event.noLock]) (by simp) _
  | broadcast => exact h.setQueue (by simp [Event.noLock]) (by simp) _
  | pBlock hcount => exact h.setQueue (by simp) (by simp) _
  | p hcount => exact h.frame (by simp [Event.noLock]) rfl (fun _ _ => rfl) h.releasing
  | @v n hcount =>
    refine h.frame (by simp [Event.noLock]) rfl (fun l _ => ?_) h.releasing
    exact Function.update_of_ne (show Addr.lock l ≠ .sem n by simp) [] σ.queue

/-- Invariants of the protocol hold in every run of the machine. -/
theorem protocol_invariant {I : List Event → Prot → Prop} {p : π} {count : ℕ → ℤ} {k₀ k : Kernel π}
    (h0 : Booted p count k₀) (h : Run (Step code) k₀ tr k) (hinit : I [] k₀.view.prot)
    (hstep : ∀ {tr es σ σ'}, ProtStep σ es σ' → I tr σ → I (tr ++ es) σ') : I tr k.view.prot := by
  obtain ⟨-, hboot, hrun⟩ := Run.refines h0 h
  have hinv := hrun.invariant (I := fun tr s => s.Placed ∧ I tr s.prot) ⟨hboot.placed, hinit⟩
    fun _ h hs => ⟨hs.placed h.1, hstep (hs.protocol h.1) h.2⟩
  exact hinv.2

/-- The protocol state after boot. -/
theorem Sys.Booted.prot {s : Sys π} {p : π} {count : ℕ → ℤ} (h : s.Booted p count) :
    (∀ l, s.prot.own l = none) ∧ s.prot.count = count ∧ (∀ a, s.prot.queue a = []) ∧
      ∀ t, s.prot.role t = .free := by
  refine ⟨h.own, h.count, fun a => ?_, fun t => ?_⟩
  · show s.asleepOn a = []
    rw [Sys.asleepOn, h.sleepers]
    rfl
  · show (s.thread t).kont.role = .free
    rcases Nat.eq_zero_or_pos t with rfl | ht
    · rw [h.first.2.1]
      rfl
    · rw [(h.others t ht).2]
      rfl

theorem lockInv_of_run {p : π} {count : ℕ → ℤ} {k₀ k : Kernel π} (h0 : Booted p count k₀)
    (h : Run (Step code) k₀ tr k) : LockInv tr k.view.prot := by
  obtain ⟨hown, -, hqueue, hrole⟩ := h0.spec.2.1.prot
  refine protocol_invariant h0 h ⟨hown, .nil, fun l _ => hqueue _, fun t l ht => ?_⟩
    fun hs h => hs.lockInv h
  rw [hrole] at ht
  cases ht

/-- A thread has returned from `P`. -/
def Event.isP (n : ℕ) : Event → Bool
  | .p _ n' => n' = n
  | _ => false

/-- The units of a semaphore: those at the start, plus one for every `V`, minus one for every
`P`. -/
def units (c : ℤ) (n : ℕ) (tr : List Event) : ℤ := c + tr.count (.v n) - tr.countP (Event.isP n)

theorem units_append (c : ℤ) (n : ℕ) (tr es : List Event) :
    units c n (tr ++ es) = units (units c n tr) n es := by
  simp only [units, List.count_append, List.countP_append, Nat.cast_add]
  ring

/-- Events that are not about semaphores. -/
def Event.noSem : Event → Bool
  | .p _ _ => false
  | .v _ => false
  | _ => true

theorem units_noSem {c : ℤ} {n : ℕ} (hes : ∀ e ∈ es, e.noSem = true) : units c n es = c := by
  have hv : es.count (.v n) = 0 := List.count_eq_zero.mpr fun hmem => by cases hes _ hmem
  have hp : es.countP (Event.isP n) = 0 := by
    refine List.countP_eq_zero.mpr fun e he hisP => ?_
    have he := hes e he
    cases e <;> first | cases hisP | cases he
  simp [units, hv, hp]

/-- Semaphores after the events `tr`. -/
structure SemInv (count : ℕ → ℤ) (tr : List Event) (σ : Prot) : Prop where
  count : ∀ n, σ.count n = units (count n) n tr
  nonneg : ∀ n, 0 ≤ σ.count n
  int : ∀ n, σ.count n < 2147483648
  queue : ∀ n, 0 < σ.count n → σ.queue (.sem n) = []

theorem SemInv.frame {count : ℕ → ℤ} (h : SemInv count tr σ) (hes : ∀ e ∈ es, e.noSem = true)
    (hcount : σ'.count = σ.count)
    (hqueue : ∀ n, 0 < σ.count n → σ'.queue (.sem n) = σ.queue (.sem n)) :
    SemInv count (tr ++ es) σ' where
  count n := by rw [units_append, units_noSem hes, hcount, h.count]
  nonneg n := hcount ▸ h.nonneg n
  int n := hcount ▸ h.int n
  queue n hn := by
    rw [hcount] at hn
    rw [hqueue n hn, h.queue n hn]

/-- Only the queue of an address that is not a semaphore's changes. -/
theorem SemInv.setQueue {count : ℕ → ℤ} (h : SemInv count tr σ) (hes : ∀ e ∈ es, e.noSem = true)
    {a : Addr} (ha : ∀ n, a ≠ .sem n) (q : List Tid) :
    SemInv count (tr ++ es) (σ.setQueue a q) :=
  h.frame hes rfl fun n _ => Function.update_of_ne (ha n).symm _ _

/-- An event changes the count of `n` to `c`. -/
theorem SemInv.setCount {count : ℕ → ℤ} (h : SemInv count tr σ) {e : Event} {n : ℕ} {c : ℤ}
    {queue : Addr → List Tid}
    (hunits : ∀ n', units (σ.count n') n' [e] = if n' = n then c else σ.count n')
    (hc : 0 ≤ c ∧ c < 2147483648)
    (hqueue : ∀ n', 0 < (if n' = n then c else σ.count n') → queue (.sem n') = []) :
    SemInv count (tr ++ [e]) { σ.setCount n c with queue := queue } := by
  have hset (n' : ℕ) : (σ.setCount n c).count n' = if n' = n then c else σ.count n' := by
    simp [Prot.setCount, Function.update_apply]
  refine ⟨fun n' => ?_, fun n' => ?_, fun n' => ?_, fun n' hn' => hqueue n' (hset n' ▸ hn')⟩
  · rw [units_append, ← h.count, hunits]
    exact hset n'
  · refine (hset n').symm ▸ ?_
    split
    · exact hc.1
    · exact h.nonneg n'
  · refine (hset n').symm ▸ ?_
    split
    · exact hc.2
    · exact h.int n'

theorem ProtStep.semInv {count : ℕ → ℤ} (hs : ProtStep σ es σ') (h : SemInv count tr σ) :
    SemInv count (tr ++ es) σ' := by
  cases hs with
  | idle hrole => exact h.frame (by simp [Event.noSem]) rfl fun _ _ => rfl
  | sleep => exact h.setQueue (by simp) (by simp) _
  | wakeup => exact h.setQueue (by simp) (by simp) _
  | wakeone => exact h.setQueue (by simp) (by simp) _
  | block hown => exact h.setQueue (by simp) (by simp) _
  | get hown hrole => exact h.frame (by simp [Event.noSem]) rfl fun _ _ => rfl
  | getBack hown hrole hawake => exact h.frame (by simp [Event.noSem]) rfl fun _ _ => rfl
  | begin hown => exact h.frame (by simp) rfl fun _ _ => rfl
  | release hrole =>
    refine h.frame (by simp [Event.noSem]) rfl fun n _ => ?_
    simp [Prot.setRole, Prot.setQueue, Prot.setOwn]
  | wait hown hrole =>
    refine h.frame (by simp [Event.noSem]) rfl fun n _ => ?_
    simp [Prot.setRole, Prot.setQueue, Prot.setOwn, Prot.push]
  | signal => exact h.setQueue (by simp [Event.noSem]) (by simp) _
  | broadcast => exact h.setQueue (by simp [Event.noSem]) (by simp) _
  | @pBlock t n hcount =>
    refine h.frame (by simp) rfl fun n' hn' => Function.update_of_ne ?_ _ _
    rintro ⟨⟩
    omega
  | @p t n hcount =>
    have hnonneg := h.nonneg n
    have hint := h.int n
    refine @SemInv.setCount _ _ _ h _ _ _ σ.queue (fun n' => ?_) ⟨by omega, by omega⟩ fun n' hn' => ?_
    · by_cases hn : n' = n
      · subst hn
        simp [units, Event.isP]
      · simp [units, Event.isP, hn, Ne.symm hn]
    · refine h.queue n' ?_
      split at hn'
      case isTrue heq => exact heq ▸ hcount
      case isFalse => exact hn'
  | @v n hcount =>
    have hnonneg := h.nonneg n
    have hint := h.int n
    -- The assertion of `V` rules out that the count has wrapped around.
    have hs32 : s32 (σ.count n + 1) = σ.count n + 1 := by
      unfold s32 at hcount ⊢
      omega
    rw [hs32]
    refine h.setCount (fun n' => ?_) ⟨by omega, hs32 ▸ s32_lt _⟩ fun n' hn' => ?_
    · by_cases hn : n' = n
      · subst hn
        simp [units, Event.isP]
      · simp [units, Event.isP, hn, Ne.symm hn]
    · by_cases hn : n' = n
      · subst hn
        exact Function.update_self _ _ _
      · rw [if_neg hn] at hn'
        refine (Function.update_of_ne (by simpa using hn) _ _).trans (h.queue n' hn')

/-- The message of the assertions of `P` and `V`. -/
def countPositive : String := "Assertion failed: sem->count>0"

/-- `thread_sleep` may stop the machine, but not with that message. -/
theorem threadSleep_ne_countPositive {k : Kernel π} (h : k.Ok) {t : Tid} (hcur : k.curthread = some t)
    (a : Addr) (κ : Kont π) :
    Meets (threadSleep a κ) (fun _ _ => True) (fun _ _ => True) k (fun msg => msg ≠ countPositive) := by
  simp only [threadSleep, miSwitch, assertSpl, assertOk, meets_bind, meets_curThread_of hcur,
    meets_modifyCore, meets_get, meets_require_iff]
  refine ⟨fun _ => ?_, fun _ => by decide⟩
  rw [show (k.setThread t _).curthread = some t from hcur]
  simp only [meets_bind, meets_modifyCore, meets_attempt]
  refine (onSleepers_spec (arrayAdd_spec h.sleepers t)).partial_of.mono (fun _ _ _ => trivial) ?_
  exact fun _ _ _ => (by decide : "Assertion failed: result==0" ≠ countPositive)

/-- In every reachable state the count of a semaphore is the initial count plus the number of
completed `V` minus the number of completed `P`, it is not negative, and no thread is asleep on a
semaphore with units left. The assertion in `P` holds whenever its loop has ended: in no state with
these counts does the machine stop there. -/
theorem semaphore_law {p : π} {count : ℕ → ℤ} {k₀ k : Kernel π} (h0 : Booted p count k₀)
    (h : Run (Step code) k₀ tr k) (n : ℕ) :
    k.count n = count n + tr.count (.v n) - tr.countP (Event.isP n) ∧ 0 ≤ k.count n ∧
    (0 < k.count n → ∀ t ∈ k.sleepers.toList, (k.thread t).sleepaddr ≠ some (.sem n)) ∧
    (∀ (k' : Kernel π) t spl next, k'.Ok → k'.curthread = some t → k'.count = k.count →
      pLoop n spl next k' ≠ .halted countPositive) := by
  obtain ⟨-, hcount0, hqueue0, -⟩ := h0.spec.2.1.prot
  have hinv : SemInv count tr k.view.prot := by
    refine protocol_invariant h0 h ⟨fun n => ?_, fun n => ?_, fun n => ?_, fun n _ => hqueue0 _⟩
      fun hs h => hs.semInv h
    · rw [hcount0]
      simp [units]
    · rw [hcount0]
      exact (h0.1 n).1
    · rw [hcount0]
      exact (h0.1 n).2
  refine ⟨hinv.count n, hinv.nonneg n, fun hpos t ht haddr => ?_, ?_⟩
  · have hnil : k.view.asleepOn (.sem n) = [] := hinv.queue n hpos
    have hmem : t ∈ k.view.asleepOn (.sem n) := List.mem_filter.mpr ⟨ht, decide_eq_true haddr⟩
    rw [hnil] at hmem
    cases hmem
  · intro k' t spl next hok hcur hsame hhalt
    have hnonneg : 0 ≤ k'.count n := by
      rw [hsame]
      exact hinv.nonneg n
    have hspec : Meets (pLoop n spl next) (fun _ _ => True) (fun _ _ => True) k'
        (fun msg => msg ≠ countPositive) := by
      simp only [pLoop, meets_bind, meets_curThread_of hcur, meets_get, meets_ite, meets_pure,
        meets_require_iff, meets_modifyCore]
      refine ⟨fun _ => threadSleep_ne_countPositive hok hcur _ _, fun hne => ⟨fun _ => ?_, ?_⟩⟩
      · exact (meets_goOn (t := t) (by exact hcur) spl next).mpr trivial
      · intro hnot
        omega
    exact hspec.of_halted hhalt rfl

/-- A thread is asleep in `P`, and a device calls `V`. -/
def sleepInP : List (Choice Unit) := [.op (.p 0 ()), .device 0]

theorem semaphore_law_sleepInP :
    (after sleepInP (bootedWith [])).runqueue.toList = [0] ∧
      (after sleepInP (bootedWith [])).count 0 = 1 ∧
      0 ≤ (after sleepInP (bootedWith [])).count 0 :=
  ⟨by decide +kernel, by decide +kernel,
    (semaphore_law (booted_bootedWith (by decide +kernel)) (run_after (by decide +kernel)) 0).2.1⟩

/-! ## Condition variables -/

/-- The waiters on `c` after an event: `cv_wait` puts the thread at the end, `cv_signal` takes the
first one off and `cv_broadcast` all of them. -/
def Event.newWaiters (c : Cv) (q : List Tid) : Event → List Tid
  | .waits t c' _ => if c' = c then q ++ [t] else q
  | .signal c' _ => if c' = c then q.tail else q
  | .broadcast c' _ => if c' = c then [] else q
  | _ => q

/-- The threads that wait on `c`, those that have waited longest first. -/
def waiters (c : Cv) (tr : List Event) : List Tid := tr.foldl (Event.newWaiters c) []

theorem waiters_append (c : Cv) (tr es : List Event) :
    waiters c (tr ++ es) = es.foldl (Event.newWaiters c) (waiters c tr) :=
  List.foldl_append ..

/-- The event wakes up `t` from its wait on `c`. -/
def Event.Wakes (c : Cv) (t : Tid) : Event → Prop
  | .signal c' woken => c' = c ∧ woken = some t
  | .broadcast c' woken => c' = c ∧ t ∈ woken
  | _ => False

/-- The last `cv_wait` of `t` was on `c` with `l`, and the events since then are `post`. -/
def LastWait (t : Tid) (c : Cv) (l : Lock) (tr post : List Event) : Prop :=
  ∃ pre, tr = pre ++ .waits t c l :: post ∧ ∀ c' l', Event.waits t c' l' ∉ post

/-- Since its last `cv_wait`, which was on `c` with `l`, the thread `t` has been woken up. -/
def Woken (t : Tid) (c : Cv) (l : Lock) (tr : List Event) : Prop :=
  ∃ post, LastWait t c l tr post ∧ ∃ e ∈ post, e.Wakes c t

/-- A thread goes to sleep in `cv_wait` right after it has given up the lock; it returns as the
holder of the lock and after it has been woken up; a signal wakes up the thread that has waited
longest, and a broadcast wakes up all waiters. -/
def cvLaw (pre : List Event) : Event → Prop
  | .waits t _ l => ∃ pre', pre = pre' ++ [.released t l]
  | .waited t c l => holder l pre = some t ∧ Woken t c l pre
  | .signal c woken => woken = (waiters c pre).head?
  | .broadcast c woken => woken = waiters c pre
  | _ => True

/-- Events that are not about condition variables. -/
def Event.noCv : Event → Bool
  | .waits _ _ _ => false
  | .waited _ _ _ => false
  | .signal _ _ => false
  | .broadcast _ _ => false
  | _ => true

theorem waiters_append_noCv (c : Cv) (hes : ∀ e ∈ es, e.noCv = true) :
    waiters c (tr ++ es) = waiters c tr := by
  rw [waiters_append]
  generalize waiters c tr = q
  induction es with
  | nil => rfl
  | cons e es ih =>
    have hsame : Event.newWaiters c q e = q := by
      have he := hes e List.mem_cons_self
      cases e <;> first | rfl | cases he
    rw [List.foldl_cons, hsame]
    exact ih fun e' he' => hes e' (List.mem_cons_of_mem _ he')

theorem LastWait.append {c : Cv} {l : Lock} {post : List Event} (h : LastWait t c l tr post)
    (hes : ∀ c' l', Event.waits t c' l' ∉ es) : LastWait t c l (tr ++ es) (post ++ es) := by
  obtain ⟨pre, rfl, hpost⟩ := h
  refine ⟨pre, by simp, fun c' l' hmem => ?_⟩
  rcases List.mem_append.mp hmem with hmem | hmem
  · exact hpost c' l' hmem
  · exact hes c' l' hmem

theorem Woken.append {c : Cv} {l : Lock} (h : Woken t c l tr)
    (hes : ∀ c' l', Event.waits t c' l' ∉ es) : Woken t c l (tr ++ es) := by
  obtain ⟨post, hlast, e, he, hwakes⟩ := h
  exact ⟨post ++ es, hlast.append hes, e, List.mem_append_left _ he, hwakes⟩

/-- Condition variables after the events `tr`. -/
structure CvInv (tr : List Event) (σ : Prot) : Prop where
  queue : ∀ c, σ.queue (.cv c) = waiters c tr
  lawful : Lawful cvLaw tr
  waiting : ∀ t c l, σ.role t = .waiting c l →
    (t ∈ σ.queue (.cv c) ∧ ∃ post, LastWait t c l tr post) ∨ Woken t c l tr

theorem CvInv.frame (h : CvInv tr σ) (hes : ∀ e ∈ es, e.noCv = true)
    (hqueue : ∀ c, σ'.queue (.cv c) = σ.queue (.cv c))
    (hrole : ∀ t c l, σ'.role t = .waiting c l → σ.role t = .waiting c l) : CvInv (tr ++ es) σ' := by
  have hwaits (t : Tid) (c : Cv) (l : Lock) : Event.waits t c l ∉ es := fun hmem => by
    cases hes _ hmem
  refine ⟨fun c => ?_, h.lawful.append fun pre e he => ?_, fun t c l ht => ?_⟩
  · rw [hqueue, h.queue, waiters_append_noCv c hes]
  · have he := hes e he
    cases e <;> trivial
  · rw [hqueue]
    rcases h.waiting t c l (hrole t c l ht) with ⟨hmem, post, hlast⟩ | hwoken
    · exact .inl ⟨hmem, post ++ es, hlast.append (hwaits t)⟩
    · exact .inr (hwoken.append (hwaits t))

/-- Only the queue of an address that is not a condition variable's changes. -/
theorem CvInv.setQueue (h : CvInv tr σ) (hes : ∀ e ∈ es, e.noCv = true) {a : Addr}
    (ha : ∀ c, a ≠ .cv c) (q : List Tid) : CvInv (tr ++ es) (σ.setQueue a q) :=
  h.frame hes (fun c => Function.update_of_ne (ha c).symm _ _) fun _ _ _ ht => ht

/-- A signal or a broadcast on `c`, which leaves the waiters `q`. -/
theorem CvInv.wake (h : CvInv tr σ) {c : Cv} {e : Event} {q : List Tid} (he : cvLaw tr e)
    (hq : ∀ c', Event.newWaiters c' (waiters c' tr) e = if c' = c then q else waiters c' tr)
    (hwaits : ∀ t c' l', e ≠ .waits t c' l')
    (hwakes : ∀ t ∈ waiters c tr, t ∈ q ∨ e.Wakes c t) :
    CvInv (tr ++ [e]) (σ.setQueue (.cv c) q) := by
  have hset (c' : Cv) : (σ.setQueue (.cv c) q).queue (.cv c') =
      if c' = c then q else σ.queue (.cv c') := by
    simp [Prot.setQueue, Function.update_apply]
  have hne (t : Tid) (c' : Cv) (l' : Lock) : Event.waits t c' l' ∉ [e] := by
    simpa using (hwaits t c' l').symm
  refine ⟨fun c' => ?_, h.lawful.snoc he, fun t c' l ht => ?_⟩
  · rw [hset, waiters_append]
    simp only [List.foldl_cons, List.foldl_nil, hq, h.queue]
  · rw [hset]
    rcases h.waiting t c' l ht with ⟨hmem, post, hlast⟩ | hwoken
    · have hlast' := hlast.append (hne t)
      by_cases hc : c' = c
      · subst hc
        rw [if_pos rfl]
        rcases hwakes t (h.queue c' ▸ hmem) with hmem' | hwakes'
        · exact .inl ⟨hmem', _, hlast'⟩
        · exact .inr ⟨_, hlast', e, by simp, hwakes'⟩
      · rw [if_neg hc]
        exact .inl ⟨hmem, _, hlast'⟩
    · exact .inr (hwoken.append (hne t))

/-- A thread that waits returns from `cv_wait` with the lock. -/
theorem CvInv.getBack (h : CvInv tr σ) {c : Cv} {l : Lock} (hrole : σ.role t = .waiting c l)
    (hawake : t ∉ σ.queue (.cv c)) :
    CvInv (tr ++ [.acquired t l, .waited t c l]) ((σ.setOwn l (some t)).setRole t .free) := by
  have hwaits (u : Tid) (c' : Cv) (l' : Lock) :
      Event.waits u c' l' ∉ [Event.acquired t l, .waited t c l] := by simp
  have hwoken : Woken t c l tr := by
    rcases h.waiting t c l hrole with ⟨hmem, -⟩ | hwoken
    · exact absurd hmem hawake
    · exact hwoken
  have hholder : holder l (tr ++ [.acquired t l]) = some t := by
    rw [holder_append]
    simp [Event.newHolder]
  refine ⟨fun c' => ?_, ?_, fun u c' l' hu => ?_⟩
  · rw [waiters_append]
    exact h.queue c'
  · rw [List.append_cons]
    refine Lawful.snoc (h.lawful.snoc trivial) ⟨hholder, hwoken.append ?_⟩
    simp
  · simp only [Prot.setRole, Function.update_apply] at hu
    split at hu
    · cases hu
    · rcases h.waiting u c' l' hu with ⟨hmem, post, hlast⟩ | hwoken'
      · exact .inl ⟨hmem, _, hlast.append (hwaits u)⟩
      · exact .inr (hwoken'.append (hwaits u))

/-- A thread gives up the lock and waits. -/
theorem CvInv.wait (h : CvInv tr σ) (t : Tid) (c : Cv) (l : Lock) :
    CvInv (tr ++ [.released t l, .waits t c l])
      ((((σ.setOwn l none).setQueue (.lock l) []).push t (.cv c)).setRole t (.waiting c l)) := by
  set σ' := (((σ.setOwn l none).setQueue (.lock l) []).push t (.cv c)).setRole t (.waiting c l)
    with hσ'
  have hqueue (c' : Cv) : σ'.queue (.cv c') =
      if c' = c then σ.queue (.cv c) ++ [t] else σ.queue (.cv c') := by
    simp only [hσ', Prot.setRole, Prot.push, Prot.setQueue, Prot.setOwn, Function.update_apply]
    by_cases hc : c' = c
    · simp [hc]
    · simp [hc]
  refine ⟨fun c' => ?_, ?_, fun u c' l' hu => ?_⟩
  · rw [hqueue, waiters_append, h.queue, h.queue]
    by_cases hc : c' = c
    · subst hc
      simp [Event.newWaiters]
    · simp [Event.newWaiters, hc, Ne.symm hc]
  · rw [List.append_cons]
    exact Lawful.snoc (h.lawful.snoc trivial) ⟨tr, rfl⟩
  · simp only [hσ', Prot.setRole, Function.update_apply] at hu
    split at hu
    case isTrue heq =>
      -- The thread itself: its wait is the last event.
      cases hu
      subst heq
      refine .inl ⟨?_, [], tr ++ [.released u l], by simp, by simp⟩
      rw [hqueue, if_pos rfl]
      simp
    case isFalse hne =>
      have hwaits (c'' : Cv) (l'' : Lock) :
          Event.waits u c'' l'' ∉ [Event.released t l, .waits t c l] := by simp [hne]
      rcases h.waiting u c' l' hu with ⟨hmem, post, hlast⟩ | hwoken
      · refine .inl ⟨?_, _, hlast.append hwaits⟩
        rw [hqueue]
        split
        case isTrue heq => exact List.mem_append_left _ (heq ▸ hmem)
        case isFalse => exact hmem
      · exact .inr (hwoken.append hwaits)

theorem ProtStep.cvInv (hs : ProtStep σ es σ') (h : CvInv tr σ) : CvInv (tr ++ es) σ' := by
  cases hs with
  | @idle es role hrole =>
    refine h.frame (by simp [Event.noCv]) (fun _ => rfl) fun t c l ht => ?_
    rcases hrole t with heq | heq
    · exact heq ▸ ht
    · cases heq.symm.trans ht
  | sleep => exact h.setQueue (by simp) (by simp) _
  | wakeup => exact h.setQueue (by simp) (by simp) _
  | wakeone => exact h.setQueue (by simp) (by simp) _
  | block hown => exact h.setQueue (by simp) (by simp) _
  | get hown hrole => exact h.frame (by simp [Event.noCv]) (fun _ => rfl) fun _ _ _ ht => ht
  | getBack hown hrole hawake => exact h.getBack hrole hawake
  | begin hown =>
    refine h.frame (by simp) (fun _ => rfl) fun t c l ht => ?_
    simp only [Prot.setRole, Function.update_apply] at ht
    split at ht
    · cases ht
    · exact ht
  | release hrole =>
    refine h.frame (by simp [Event.noCv]) (fun c => ?_) fun t c l ht => ?_
    · simp [Prot.setRole, Prot.setQueue, Prot.setOwn]
    · simp only [Prot.setRole, Function.update_apply] at ht
      split at ht
      · cases ht
      · exact ht
  | @wait t c l hown hrole => exact h.wait t c l
  | @signal c =>
    refine h.wake (congrArg List.head? (h.queue c)) (fun c' => ?_) (by simp) fun t ht => ?_
    · by_cases hc : c' = c
      · subst hc
        simp [Event.newWaiters, h.queue]
      · simp [Event.newWaiters, hc, Ne.symm hc]
    · rw [← h.queue c] at ht
      rcases hq : σ.queue (.cv c) with - | ⟨u, rest⟩
      · simp [hq] at ht
      · rw [hq, List.mem_cons] at ht
        rcases ht with rfl | ht
        · exact .inr ⟨rfl, rfl⟩
        · exact .inl ht
  | @broadcast c =>
    refine h.wake (h.queue c) (fun c' => ?_) (by simp) fun t ht => .inr ⟨rfl, h.queue c ▸ ht⟩
    by_cases hc : c' = c
    · simp [Event.newWaiters, hc]
    · simp [Event.newWaiters, hc, Ne.symm hc]
  | pBlock hcount => exact h.setQueue (by simp) (by simp) _
  | p hcount => exact h.frame (by simp [Event.noCv]) (fun _ => rfl) fun _ _ _ ht => ht
  | v hcount =>
    refine h.frame (by simp [Event.noCv]) (fun c => ?_) fun _ _ _ ht => ht
    simp [Prot.setQueue, Prot.setCount]

theorem cvInv_of_run {p : π} {count : ℕ → ℤ} {k₀ k : Kernel π} (h0 : Booted p count k₀)
    (h : Run (Step code) k₀ tr k) : CvInv tr k.view.prot := by
  obtain ⟨-, -, hqueue, hrole⟩ := h0.spec.2.1.prot
  refine protocol_invariant h0 h ⟨fun c => hqueue _, .nil, fun t c l ht => ?_⟩ fun hs h => hs.cvInv h
  rw [hrole] at ht
  cases ht

/-- An event that obeys the law leaves a waiter in the queue or wakes it up. -/
theorem cvLaw.mem_or_wakes {c : Cv} {e : Event} (he : cvLaw tr e) (ht : t ∈ waiters c tr) :
    t ∈ waiters c (tr ++ [e]) ∨ e.Wakes c t := by
  rw [waiters_append, List.foldl_cons, List.foldl_nil]
  cases e with
  | waits u c' l =>
    refine .inl ?_
    simp only [Event.newWaiters]
    split
    · exact List.mem_append_left _ ht
    · exact ht
  | signal c' woken =>
    simp only [Event.newWaiters]
    split
    case isTrue hc =>
      subst hc
      have hhead : woken = (waiters c' tr).head? := he
      rcases hq : waiters c' tr with - | ⟨u, rest⟩
      · simp [hq] at ht
      · rw [hq, List.mem_cons] at ht
        rcases ht with rfl | ht
        · exact .inr ⟨rfl, hhead.trans (by rw [hq]; rfl)⟩
        · exact .inl ht
    case isFalse => exact .inl ht
  | broadcast c' woken =>
    simp only [Event.newWaiters]
    split
    case isTrue hc =>
      subst hc
      have hall : woken = waiters c' tr := he
      exact .inr ⟨rfl, hall ▸ ht⟩
    case isFalse => exact .inl ht
  | _ => exact .inl ht

/-- A thread that waits is among the waiters until an event wakes it up. -/
theorem waiters_or_wakes {pre post : List Event} {c : Cv} {l : Lock}
    (h : Lawful cvLaw (pre ++ .waits t c l :: post)) :
    t ∈ waiters c (pre ++ .waits t c l :: post) ∨ ∃ e ∈ post, e.Wakes c t := by
  induction post using List.reverseRecOn with
  | nil =>
    rw [waiters_append]
    simp [Event.newWaiters]
  | append_singleton post e ih =>
    have hsplit : pre ++ .waits t c l :: (post ++ [e]) = (pre ++ .waits t c l :: post) ++ [e] := by
      simp
    rw [hsplit] at h ⊢
    have he : cvLaw (pre ++ .waits t c l :: post) e := h _ e [] rfl
    rcases ih (Lawful.of_append h) with hmem | ⟨e', he', hwakes⟩
    · exact (he.mem_or_wakes hmem).imp_right fun hwakes => ⟨e, by simp, hwakes⟩
    · exact .inr ⟨e', List.mem_append_left _ he', hwakes⟩

/-! ### What a signal does to the lists -/

variable {s s' : Sys π}

theorem TryLock.noSignal {l : Lock} {spl : ℕ} {cv : Option Cv} {next : π}
    (hs : TryLock t l spl cv next s es s') (c : Cv) :
    (∀ w, Event.signal c w ∉ es) ∧ ∀ ws, Event.broadcast c ws ∉ es := by
  cases hs with
  | block hown => simp
  | get hown => cases cv <;> simp

theorem TryP.noSignal {n spl : ℕ} {next : π} (hs : TryP t n spl next s es s') (c : Cv) :
    (∀ w, Event.signal c w ∉ es) ∧ ∀ ws, Event.broadcast c ws ∉ es := by
  cases hs <;> simp

/-- A step that reports a signal or a broadcast moves the threads it names to the run queue. -/
theorem SStep.signalled (hs : SStep code s es s') (c : Cv) :
    (∀ w, .signal c w ∈ es → es = [.signal c w] ∧ w = (s.asleepOn (.cv c)).head? ∧
      s'.runq = s.runq ++ w.toList) ∧
    ∀ ws, .broadcast c ws ∈ es → es = [.broadcast c ws] ∧ ws = s.asleepOn (.cv c) ∧
      s'.runq = s.runq ++ ws := by
  have hnone {es : List Event} {s' : Sys π}
      (h : (∀ w, Event.signal c w ∉ es) ∧ ∀ ws, Event.broadcast c ws ∉ es) :
      (∀ w, .signal c w ∈ es → es = [.signal c w] ∧ w = (s.asleepOn (.cv c)).head? ∧
        s'.runq = s.runq ++ w.toList) ∧
      ∀ ws, .broadcast c ws ∈ es → es = [.broadcast c ws] ∧ ws = s.asleepOn (.cv c) ∧
        s'.runq = s.runq ++ ws :=
    ⟨fun w hw => absurd hw (h.1 w), fun ws hws => absurd hws (h.2 ws)⟩
  cases hs with
  | op hcur hk hcode hop =>
    cases hop with
    | acquire htry => exact hnone (htry.noSignal c)
    | p htry => exact hnone (htry.noSignal c)
    | signal =>
      refine ⟨fun w hw => ?_, fun ws hws => ?_⟩
      · obtain ⟨rfl, rfl⟩ : c = _ ∧ w = _ := by simpa using hw
        exact ⟨rfl, rfl, s.wakeFirst_runq _⟩
      · simp at hws
    | broadcast =>
      refine ⟨fun w hw => ?_, fun ws hws => ?_⟩
      · simp at hw
      · obtain ⟨rfl, rfl⟩ : c = _ ∧ ws = _ := by simpa using hws
        exact ⟨rfl, rfl, rfl⟩
    | _ => exact hnone (by simp)
  | switch hcur hq hres =>
    cases hres with
    | locking hk htry => exact hnone (htry.noSignal c)
    | passing hk htry => exact hnone (htry.noSignal c)
    | waiting hk htry => exact hnone (htry.noSignal c)
    | _ => exact hnone (by simp)
  | _ => exact hnone (by simp)

/-- In every reachable state the sleepers on a condition variable are its waiters, in the order in
which they went to sleep, and the trace obeys the law: a thread returns from `cv_wait` as owner of
the lock and after a signal or broadcast since its `cv_wait` has woken it up; a signal releases the
thread that has waited longest and nobody else, a broadcast releases all waiters; and a thread that
has given up the lock in `cv_wait` is among the waiters until a signal or broadcast releases it, so
that it misses none. Whether the caller of a signal holds the lock does not matter. -/
theorem cv_law {p : π} {count : ℕ → ℤ} {k₀ k : Kernel π} (h0 : Booted p count k₀)
    (h : Run (Step code) k₀ tr k) :
    (∀ c, (k.sleepers.toList.filter fun t => (k.thread t).sleepaddr = some (.cv c)) =
      waiters c tr) ∧
    Lawful cvLaw tr ∧
    (∀ pre t c l, tr = pre ++ [.waited t c l] → k.own l = some t ∧ Woken t c l pre) ∧
    (∀ es k' c w, Step code k es k' → .signal c w ∈ es →
      w = (waiters c tr).head? ∧ k'.runqueue.toList = k.runqueue.toList ++ w.toList ∧
        waiters c (tr ++ es) = (waiters c tr).tail) ∧
    (∀ es k' c ws, Step code k es k' → .broadcast c ws ∈ es →
      ws = waiters c tr ∧ k'.runqueue.toList = k.runqueue.toList ++ ws ∧
        waiters c (tr ++ es) = []) ∧
    (∀ pre t c l post, tr = pre ++ .waits t c l :: post →
      (∃ pre', pre = pre' ++ [.released t l]) ∧
        (t ∈ waiters c tr ∨ ∃ e ∈ post, e.Wakes c t)) := by
  obtain ⟨hok, -, -⟩ := Run.refines h0 h
  have hinv := cvInv_of_run h0 h
  have hlock := lockInv_of_run h0 h
  have hqueue (c : Cv) : k.view.asleepOn (.cv c) = waiters c tr := hinv.queue c
  refine ⟨hqueue, hinv.lawful, fun pre t c l htr => ?_, fun es k' c w hs hw => ?_,
    fun es k' c ws hs hws => ?_, fun pre t c l post htr => ?_⟩
  · obtain ⟨hholder, hwoken⟩ := hinv.lawful pre _ [] htr
    refine ⟨?_, hwoken⟩
    rw [show k.own l = holder l tr from hlock.own l, htr,
      holder_append_noLock l (by simp [Event.noLock]), hholder]
  · obtain ⟨rfl, hhead, hrunq⟩ := ((hs.refines hok).2.signalled c).1 w hw
    refine ⟨hhead.trans (by rw [hqueue]), hrunq, ?_⟩
    rw [waiters_append]
    simp [Event.newWaiters]
  · obtain ⟨rfl, hall, hrunq⟩ := ((hs.refines hok).2.signalled c).2 ws hws
    refine ⟨hall.trans (hqueue c), hrunq, ?_⟩
    rw [waiters_append]
    simp [Event.newWaiters]
  · refine ⟨hinv.lawful pre _ post htr, ?_⟩
    rw [htr]
    exact waiters_or_wakes (htr ▸ hinv.lawful)

/-- A thread waits on a condition variable, another one acquires the lock, signals and releases it,
and the first one returns. -/
def waitAndSignal : List (Choice Unit) :=
  forkNow ++ [.op (.acquire (.obj 0) ()), .op (.wait (.obj 0) (.obj 0) ()), .schedule,
    .op (.acquire (.obj 0) ()), .op (.signal (.obj 0) (.obj 0) ()), .op (.release (.obj 0) ()),
    .proceed, .op (.yield ()), .schedule]

theorem cv_law_waitAndSignal :
    (play waitAndSignal (bootedWith [])).valueD [] = [.acquired 0 (.obj 0), .released 0 (.obj 0),
      .waits 0 (.obj 0) (.obj 0), .acquired 1 (.obj 0), .signal (.obj 0) (some 0),
      .released 1 (.obj 0), .acquired 0 (.obj 0), .waited 0 (.obj 0) (.obj 0)] ∧
    (after waitAndSignal (bootedWith [])).own (.obj 0) = some 0 := by
  have htr : (play waitAndSignal (bootedWith [])).valueD [] = [.acquired 0 (.obj 0),
      .released 0 (.obj 0), .waits 0 (.obj 0) (.obj 0), .acquired 1 (.obj 0),
      .signal (.obj 0) (some 0), .released 1 (.obj 0), .acquired 0 (.obj 0)] ++
      [.waited 0 (.obj 0) (.obj 0)] := by decide +kernel
  exact ⟨htr, ((cv_law (booted_bootedWith (by decide +kernel))
    (run_after (by decide +kernel))).2.2.1 _ _ _ _ htr).1⟩

end Os161.Threads
