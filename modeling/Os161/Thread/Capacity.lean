import Mathlib.Tactic
import Os161.Thread.Partition

/-!
# Room for a context switch

`mi_switch` puts the current thread on a list and must not need memory for that. `thread_fork` asks
for the room beforehand: a slot in `sleepers` and in `zombies` and a slot of the run queue for every
thread. This module says when that is enough.

* The run queue is a ring that holds one thread less than its size, and the room is compared with the
  size. A switch needs memory exactly when there are as many threads as slots and all of them are
  runnable.
* `exorcise` empties `zombies` with `array_setsize`, which gives the vector back if it has more than
  16 slots. The vectors have 0, 2, 6, 14, 30, ... slots, so this happens once there have been 15
  threads. Zombies that are still there when a thread is forked take up slots as well.
-/

namespace Os161.Threads

open Prog

variable {π : Type} {code : Code π} {k k' : Kernel π} {t : Tid} {es tr : List Event}

/-- However `kmalloc` behaves, the code returns and has not called it. -/
def NoAlloc (m : KM π Unit) (k : Kernel π) : Prop :=
  ∀ nomem, ∃ k', m { k with nomem := nomem } = .ok () k' ∧ k'.nomem = nomem

/-! ## The run queue -/

/-- `make_runnable` takes an answer of `kmalloc` exactly when the ring is full. -/
theorem makeRunnable_nomem (h : k.runqueue.Ok) (hspl : 0 < k.curspl) (t : Tid) :
    Meets (makeRunnable t)
      (fun _ k' => k'.nomem =
        if k.runqueue.count + 1 < k.runqueue.size then k.nomem else k.nomem.tail)
      (fun _ _ => k.runqueue.count + 1 = k.runqueue.size) k := by
  have hlt := h.count_lt
  simp only [makeRunnable, assertSpl, meets_bind, meets_get, meets_require]
  refine ⟨hspl, (onRunqueue_spec (qAddtail_spec h t)).mono ?_ ?_⟩
  · rintro _ _ ⟨q, nomem, rfl, hadd⟩
    split
    case isTrue hroom => exact (hadd.room hroom).2
    case isFalse hfull => exact hadd.full (le_antisymm hlt (not_lt.mp hfull))
  · rintro _ _ ⟨q, nomem, rfl, -, hfull, -⟩
    exact hfull

/-- A program that takes an answer of `kmalloc` unless `p` holds, and then cannot fail. -/
theorem noAlloc_iff {m : KM π Unit} {p : Prop} [Decidable p]
    (h : ∀ nomem, Meets m (fun _ k' => k'.nomem = if p then nomem else nomem.tail)
      (fun _ _ => ¬ p) { k with nomem := nomem } (fun _ => ¬ p)) : NoAlloc m k ↔ p := by
  constructor
  · intro hno
    by_contra hp
    obtain ⟨k', hrun, hk'⟩ := hno [false]
    have htail := (h [false]).of_ok hrun
    rw [if_neg hp, hk'] at htail
    cases htail
  · intro hp nomem
    have hspec : Meets m (fun _ k' => k'.nomem = nomem) (fun _ _ => False)
        { k with nomem := nomem } := by
      have hm := h nomem
      simpa only [Meets, hp, if_true, not_true] using hm
    obtain ⟨_, k', hrun, hk'⟩ := hspec.exists_ok
    exact ⟨k', hrun, hk'⟩

theorem makeRunnable_noAlloc_iff (h : k.runqueue.Ok) (hspl : 0 < k.curspl) (t : Tid) :
    NoAlloc (makeRunnable t) k ↔ k.runqueue.toList.length + 1 < k.runqueue.size := by
  rw [KQueue.length_toList]
  refine noAlloc_iff fun nomem => ?_
  refine (makeRunnable_nomem (k := { k with nomem := nomem }) h hspl t).partial_of.mono
    (fun _ _ hk' => hk') fun _ _ hfull hroom => ?_
  exact hroom.ne hfull

/-- The `make_runnable` of a thread that yields. -/
theorem miSwitch_ready_noAlloc_iff (h : k.runqueue.Ok) (hspl : 0 < k.curspl)
    (hcur : k.curthread = some t) :
    NoAlloc (miSwitch .ready) k ↔ k.runqueue.toList.length + 1 < k.runqueue.size := by
  rw [KQueue.length_toList]
  refine noAlloc_iff fun nomem => ?_
  simp only [miSwitch, assertOk, meets_bind, meets_get, assertSpl, meets_require_iff]
  refine ⟨fun _ => ?_, fun hnot => absurd hspl hnot⟩
  simp only [hcur, meets_bind, meets_modifyCore, meets_attempt]
  refine (makeRunnable_nomem (k := { k with nomem := nomem, curthread := none }) h hspl
    t).partial_of.mono (fun _ _ hk' => hk') fun _ _ hfull hroom => ?_
  exact hroom.ne hfull

/-- There are never more threads than slots in the ring. -/
theorem numthreads_le_size {p : π} {count : ℕ → ℤ} {k₀ : Kernel π} (h0 : Booted p count k₀)
    (h : Run (Step code) k₀ tr k) : k.Ok ∧ k.numthreads ≤ k.runqueue.size := by
  obtain ⟨hok, hboot, -, j, hj⟩ := h0.spec
  refine h.invariant (I := fun _ k => k.Ok ∧ k.numthreads ≤ k.runqueue.size) ⟨hok, ?_⟩ ?_
  · rw [show k₀.numthreads = 1 from hboot.numthreads, hj]
    exact Nat.one_le_iff_ne_zero.mpr (by positivity)
  · rintro tr k₁ es k₂ - ⟨hok, hle⟩ ⟨c, hc, hrun⟩
    obtain ⟨hok', -, hcaps⟩ := step_refines hok hc hrun
    refine ⟨hok', ?_⟩
    rcases hcaps.forked with hnum | ⟨-, -, -, -, hfit⟩
    · obtain ⟨j, hj⟩ := hcaps.size
      calc k₂.numthreads ≤ k₁.runqueue.size := hnum.trans hle
        _ ≤ k₁.runqueue.size * 2 ^ j := Nat.le_mul_of_pos_right _ (by positivity)
        _ = k₂.runqueue.size := hj.symm
    · exact hfit

/-- A ring with one free slot, which counts as full. -/
def fullRing (size : ℕ) : KQueue Tid := ⟨size, size - 1, 0, fun _ => 0⟩

theorem fullRing_ok {size : ℕ} (h : 0 < size) : (fullRing size).Ok := ⟨h, Nat.sub_lt h Nat.one_pos⟩

theorem length_fullRing (size : ℕ) : (fullRing size).toList.length = size - 1 := by
  simp [KQueue.count, fullRing]

/-- After `scheduler_preallocate(n)`, any `n` threads fit on the run queue without growing it if and
only if the ring has more than `n` slots. In particular, the `make_runnable` of `mi_switch` needs no
memory unless there are as many threads as slots and all of them are runnable. -/
theorem scheduler_preallocation_iff {p : π} {count : ℕ → ℤ} {k₀ : Kernel π} (h0 : Booted p count k₀)
    (h : Run (Step code) k₀ tr k) :
    (∀ n k', schedulerPreallocate n k = .ok () k' →
      ((∀ (k'' : Kernel π) t, k''.runqueue.Ok → k''.runqueue.size = k'.runqueue.size →
        k''.runqueue.toList.length < n → 0 < k''.curspl → NoAlloc (makeRunnable t) k'') ↔
          n < k'.runqueue.size)) ∧
    (∀ t, k.curthread = some t →
      (NoAlloc (miSwitch .ready) { k with curspl := splHigh } ↔
        ¬ (k.numthreads = k.runqueue.size ∧ k.sleepers.toList = []))) := by
  obtain ⟨hok, hle⟩ := numthreads_le_size h0 h
  obtain ⟨-, hboot, hrun⟩ := Run.refines h0 h
  have hP : k.view.Placed := .of_run hboot hrun
  have hhigh : 0 < splHigh := by decide
  refine ⟨fun n k' hpre => ?_, fun t hcur => ?_⟩
  · obtain ⟨hk', hfit⟩ := (schedulerPreallocate_spec hok n).of_ok hpre
    have hpos := Nat.zero_lt_of_lt hk'.ok.runqueue.read_lt
    constructor
    · intro hall
      by_contra hnot
      have hring := fullRing_ok hpos
      have hnoalloc := hall { k' with runqueue := fullRing k'.runqueue.size, curspl := splHigh } 0
        hring rfl (by rw [length_fullRing]; omega) hhigh
      rw [makeRunnable_noAlloc_iff hring hhigh, length_fullRing] at hnoalloc
      exact hnoalloc.ne (Nat.sub_add_cancel hpos)
    · intro hlt k'' t hq hsize hlen hspl
      rw [makeRunnable_noAlloc_iff hq hspl, hsize]
      omega
  · rw [miSwitch_ready_noAlloc_iff (k := { k with curspl := splHigh }) hok.runqueue hhigh hcur]
    have hnum : k.numthreads = 1 + k.runqueue.toList.length + k.sleepers.toList.length := by
      have hnum := hP.num
      rw [show k.view.curthread = some t from hcur] at hnum
      exact hnum
    rw [← List.length_eq_zero_iff]
    have hlt := hok.runqueue.count_lt
    rw [← KQueue.length_toList] at hlt
    show k.runqueue.toList.length + 1 < k.runqueue.size ↔ _
    omega

/-- The first thread forks `n` threads. -/
def forks (n : ℕ) : List (Choice Unit) := (List.replicate n forkNow).flatten

/-- With 32 threads, all runnable, `thread_yield` asks for memory and stops the machine when there
is none, although the room for 32 threads was allocated beforehand. -/
theorem yield_out_of_memory :
    (∃ tr, Run (Step anyCode) (bootedWith (List.replicate 353 false ++ [true])) tr
      (after (forks 31) (bootedWith (List.replicate 353 false ++ [true])))) ∧
    Booted () (fun _ => 0) (bootedWith (List.replicate 353 false ++ [true])) ∧
    (after (forks 31) (bootedWith (List.replicate 353 false ++ [true]))).numthreads = 32 ∧
    step (.op (.yield ())) (after (forks 31) (bootedWith (List.replicate 353 false ++ [true]))) =
      .halted "Assertion failed: result==0" := by
  refine ⟨⟨_, run_after (by decide +kernel)⟩, booted_bootedWith (by decide +kernel), ?_, ?_⟩
  · decide +kernel
  · exact Outcome.eq_halted (by decide +kernel)

theorem scheduler_preallocation_iff_forks :
    ¬ NoAlloc (miSwitch .ready) { after (forks 31) (bootedWith []) with curspl := splHigh } ∧
      NoAlloc (miSwitch .ready) { after (forks 30) (bootedWith []) with curspl := splHigh } := by
  have hboot : Booted () (fun _ => 0) (bootedWith []) := booted_bootedWith (by decide +kernel)
  have h (n : ℕ) (hrun : (play (forks n) (bootedWith [])).isOk = true)
      (hcur : (after (forks n) (bootedWith [])).curthread = some 0) :=
    (scheduler_preallocation_iff hboot (run_after hrun)).2 0 hcur
  rw [h 31 (by decide +kernel) (by decide +kernel), h 30 (by decide +kernel) (by decide +kernel)]
  exact ⟨by decide +kernel, by decide +kernel⟩

/-! ## Sleepers and zombies -/

/-- The `array_add` of a thread that goes to sleep. -/
theorem miSwitch_sleep_noAlloc (h : k.Ok) (hspl : 0 < k.curspl) (hcur : k.curthread = some t)
    (hroom : k.sleepers.num < k.sleepers.max) : NoAlloc (miSwitch .sleep) k := by
  refine (noAlloc_iff (p := True) fun nomem => ?_).mpr trivial
  simp only [miSwitch, assertOk, meets_bind, meets_get, assertSpl, meets_require_iff]
  refine ⟨fun _ => ?_, fun hnot => absurd hspl hnot⟩
  simp only [hcur, meets_bind, meets_modifyCore, meets_attempt]
  refine (onSleepers_spec (k := { k with nomem := nomem, curthread := none })
    (arrayAdd_spec h.sleepers t)).partial_of.mono ?_ ?_
  · rintro _ _ ⟨a, nomem', rfl, hadd⟩
    exact (hadd.room hroom).2
  · rintro _ _ ⟨a, nomem', rfl, -, hfull, -⟩
    exact absurd hfull hroom.ne

/-- The `array_add` of a thread that exits. -/
theorem miSwitch_zomb_noAlloc (h : k.Ok) (hspl : 0 < k.curspl) (hcur : k.curthread = some t)
    (hroom : k.zombies.num < k.zombies.max) : NoAlloc (miSwitch .zomb) k := by
  refine (noAlloc_iff (p := True) fun nomem => ?_).mpr trivial
  simp only [miSwitch, assertOk, meets_bind, meets_get, assertSpl, meets_require_iff]
  refine ⟨fun _ => ?_, fun hnot => absurd hspl hnot⟩
  simp only [hcur, meets_bind, meets_modifyCore, meets_attempt]
  refine (onZombies_spec (k := { k with nomem := nomem, curthread := none })
    (arrayAdd_spec h.zombies t)).partial_of.mono ?_ ?_
  · rintro _ _ ⟨a, nomem', rfl, hadd⟩
    exact (hadd.room hroom).2
  · rintro _ _ ⟨a, nomem', rfl, -, hfull, -⟩
    exact absurd hfull hroom.ne

/-- A thread that exits becomes a zombie. -/
theorem OpStep.population_le {o : Op π} {s s' : Sys π} (h : OpStep t s o es s') :
    s'.numthreads + s'.zombies.length ≤ s.numthreads + s.zombies.length := by
  cases h with
  | exit hnum =>
    rw [show (s.toZombies t).zombies.length = s.zombies.length + 1 from List.length_append]
    show s.numthreads - 1 + (s.zombies.length + 1) ≤ _
    omega
  | acquire htry => rw [htry.numthreads, htry.life.1]; exact le_rfl
  | p htry => rw [htry.numthreads, htry.life.1]; exact le_rfl
  | wakeone hspl =>
    exact (congrArg₂ (fun c z => Core.numthreads c + List.length z) (s.wakeFirst_toCore _)
      (s.wakeFirst_zombies _)).le
  | signal =>
    exact (congrArg₂ (fun c z => Core.numthreads c + List.length z) (s.wakeFirst_toCore _)
      (s.wakeFirst_zombies _)).le
  | _ => exact le_rfl

/-- Only a successful `thread_fork` makes the threads and zombies more. -/
theorem SStep.population {s s' : Sys π} (h : SStep code s es s') :
    s'.numthreads + s'.zombies.length ≤ s.numthreads + s.zombies.length ∨
      s'.numthreads = s.numthreads + 1 ∧ s'.zombies = s.zombies := by
  cases h with
  | op hcur hk hcode hop => exact .inl hop.population_le
  | forked hcur hk => exact .inr ⟨rfl, rfl⟩
  | timer second hcur hspl hk => cases second <;> exact .inl le_rfl
  | idle second hcur => cases second <;> exact .inl le_rfl
  | switch hcur hq hres =>
    left
    rw [hres.numthreads, hres.life.1]
    exact Nat.le_add_right _ _
  | _ => exact .inl le_rfl

/-- The state `k` comes after a successful `thread_fork`. -/
def AfterFork (S : Kernel π → List Event → Kernel π → Prop) (k₀ k : Kernel π) : Prop :=
  ∃ tr₁ k₁ es k₂ tr₂, Run S k₀ tr₁ k₁ ∧ S k₁ es k₂ ∧ k₂.numthreads = k₁.numthreads + 1 ∧
    Run S k₂ tr₂ k

/-- What holds from a successful `thread_fork` on, given what holds from boot on. -/
theorem AfterFork.invariant {S : Kernel π → List Event → Kernel π → Prop} {k₀ : Kernel π}
    {I J : Kernel π → Prop} (h0 : I k₀) (hI : ∀ {k es k'}, I k → S k es k' → I k')
    (hfork : ∀ {k es k'}, I k → S k es k' → k'.numthreads = k.numthreads + 1 → J k')
    (hJ : ∀ {k es k'}, I k → J k → S k es k' → J k') (h : AfterFork S k₀ k) : I k ∧ J k := by
  obtain ⟨tr₁, k₁, es, k₂, tr₂, hrun₁, hstep, hnum, hrun₂⟩ := h
  have hI₁ : I k₁ := hrun₁.invariant (I := fun _ => I) h0 fun _ hi hs => hI hi hs
  refine hrun₂.invariant (I := fun _ k => I k ∧ J k) ⟨hI hI₁ hstep, hfork hI₁ hstep hnum⟩ ?_
  intro tr k es k' _ hk hs
  exact ⟨hI hk.1 hs, hJ hk.1 hk.2 hs⟩

/-- The vector of sleepers is never given back, so the room `thread_fork` asked for stays. -/
theorem AfterFork.sleepers {p : π} {count : ℕ → ℤ} {k₀ : Kernel π} (h0 : Booted p count k₀)
    (h : AfterFork (Step code) k₀ k) :
    (k.Ok ∧ k.view.Placed) ∧ k.numthreads ≤ k.sleepers.max := by
  obtain ⟨hok₀, hboot, -⟩ := h0.spec
  refine h.invariant (I := fun k => k.Ok ∧ k.view.Placed)
    (J := fun k => k.numthreads ≤ k.sleepers.max) ⟨hok₀, hboot.placed⟩ ?_ ?_ ?_
  · intro k es k' hk hs
    obtain ⟨hok', hstep⟩ := hs.refines hk.1
    exact ⟨hok', hstep.placed hk.2⟩
  · rintro k es k' ⟨hok, -⟩ ⟨c, hc, hrun⟩ hnum
    obtain ⟨-, -, hcaps⟩ := step_refines hok hc hrun
    rcases hcaps.forked with hle | ⟨-, -, hfit, -⟩
    · omega
    · exact hfit
  · rintro k es k' ⟨hok, -⟩ hle ⟨c, hc, hrun⟩
    obtain ⟨-, -, hcaps⟩ := step_refines hok hc hrun
    rcases hcaps.forked with hnum | ⟨-, -, hfit, -⟩
    · exact hnum.trans (hle.trans hcaps.sleepers)
    · exact hfit

/-- The steps of a machine with few threads: when `thread_fork` asks for room, there are at most 13
threads and no zombies. -/
def SmallStep (code : Code π) (k : Kernel π) (es : List Event) (k' : Kernel π) : Prop :=
  ∃ c, k.Enabled code c ∧ step c k = .ok es k' ∧
    (k.Forks c → k.numthreads + 1 ≤ 14 ∧ k.zombies.toList = [])

/-- The sizes of vectors that `exorcise` does not give back. -/
def smallSizes : List ℕ := [0, 2, 6, 14]

theorem growMax_smallSizes {n m : ℕ} (hn : n ≤ 14) (hm : m ∈ smallSizes) :
    growMax n n m ∈ smallSizes := by
  have hall : ∀ n < 15, ∀ m ∈ smallSizes, growMax n n m ∈ smallSizes := by decide
  exact hall n (by omega) m hm

/-- Along runs of a machine with few threads: the vector of zombies is small and has room for
everybody, unless the first thread is all there is. -/
structure Kernel.Small (k : Kernel π) : Prop where
  ok : k.Ok
  placed : k.view.Placed
  size : k.zombies.max ∈ smallSizes
  room : k.numthreads + k.zombies.num ≤ max 1 k.zombies.max

/-- A vector of zombies that is not given back does not shrink. -/
theorem SmallStep.zombies_max (h : k.Small) (hs : SmallStep code k es k') :
    k'.zombies.max ∈ smallSizes ∧ k.zombies.max ≤ k'.zombies.max := by
  obtain ⟨c, hc, hrun, hfew⟩ := hs
  obtain ⟨-, -, hcaps⟩ := step_refines h.ok hc hrun
  have hle : k.zombies.max ≤ 14 := by
    have hall : ∀ m ∈ smallSizes, m ≤ 14 := by decide
    exact hall _ h.size
  rcases hcaps.zombies with hsame | ⟨hfull, hcur, hgrow⟩ | hbig | ⟨hforks, hgrow⟩
  · rw [hsame]
    exact ⟨h.size, le_rfl⟩
  · -- The vector is full although the current thread has a place in it.
    have hnum : 0 < k.numthreads := by
      obtain ⟨t, ht⟩ := Option.ne_none_iff_exists'.mp hcur
      have hnum := h.placed.num
      rw [show k.view.curthread = some t from ht] at hnum
      refine Nat.lt_of_lt_of_eq ?_ hnum.symm
      simp
    have hroom := h.room
    rw [hgrow]
    refine ⟨growMax_smallSizes ?_ h.size, growMax_ge _ _ _⟩
    omega
  · omega
  · rw [hgrow]
    exact ⟨growMax_smallSizes (hfew hforks).1 h.size, growMax_ge _ _ _⟩

/-- Everybody has a place in the vector of zombies. -/
def Kernel.Covered (k : Kernel π) : Prop := k.numthreads + k.zombies.num ≤ k.zombies.max

/-- Either nobody is added, or `thread_fork` has asked for room for everybody. -/
theorem SmallStep.covered_or (h : k.Small) (hs : SmallStep code k es k') :
    k'.numthreads + k'.zombies.num ≤ k.numthreads + k.zombies.num ∧
      k'.numthreads ≤ k.numthreads ∨ k'.Covered := by
  obtain ⟨c, hc, hrun, hfew⟩ := hs
  obtain ⟨-, hstep, hcaps⟩ := step_refines h.ok hc hrun
  have hpop := hstep.population
  simp only [Kernel.view, KArray.length_toList] at hpop
  rcases hcaps.forked with hle | ⟨hforks, hnum, -, hfit, -⟩
  · rcases hpop with hpop | ⟨hmore, -⟩
    · exact .inl ⟨hpop, hle⟩
    · omega
  · have hnil := congrArg List.length (hfew hforks).2
    rw [KArray.length_toList] at hnil
    have hzombies : k'.zombies.num = 0 := by
      rcases hpop with hpop | ⟨-, hsame⟩
      · simp only [List.length_nil] at hnil
        omega
      · have hlen := congrArg List.length hsame
        rwa [KArray.length_toList, KArray.length_toList, hnil] at hlen
    right
    rw [Kernel.Covered, hzombies]
    exact hfit

theorem SmallStep.small (h : k.Small) (hs : SmallStep code k es k') : k'.Small := by
  obtain ⟨hsize, hmax⟩ := hs.zombies_max h
  have hroom : k'.numthreads + k'.zombies.num ≤ max 1 k'.zombies.max := by
    rcases hs.covered_or h with ⟨hle, -⟩ | hcov
    · exact hle.trans (h.room.trans (max_le_max_left 1 hmax))
    · exact hcov.trans (le_max_right _ _)
  obtain ⟨c, hc, hrun, -⟩ := hs
  obtain ⟨hok', hstep, -⟩ := step_refines h.ok hc hrun
  exact ⟨hok', hstep.placed h.placed, hsize, hroom⟩

theorem Booted.small {p : π} {count : ℕ → ℤ} (h : Booted p count k) : k.Small := by
  obtain ⟨hok, hboot, hmax, -⟩ := h.spec
  have hnum : k.numthreads = 1 := hboot.numthreads
  have hzombies := hok.zombies
  refine ⟨hok, hboot.placed, by rw [hmax]; decide, ?_⟩
  omega

/-- With few threads, everybody has a place in the vector of zombies from the first fork on. -/
theorem AfterFork.zombies {p : π} {count : ℕ → ℤ} {k₀ : Kernel π} (h0 : Booted p count k₀)
    (h : AfterFork (SmallStep code) k₀ k) : k.Small ∧ k.Covered := by
  refine h.invariant h0.small (fun hk hs => hs.small hk) ?_ ?_
  · intro k es k' hk hs hnum
    rcases hs.covered_or hk with ⟨-, hle⟩ | hcov
    · omega
    · exact hcov
  · intro k es k' hk hcov hs
    rcases hs.covered_or hk with ⟨hle, -⟩ | hcov'
    · exact hle.trans (Nat.le_trans hcov (hs.zombies_max hk).2)
    · exact hcov'

/-- The current thread is not asleep. -/
theorem Sys.Placed.sleepers_lt {s : Sys π} (h : s.Placed) (hcur : s.curthread = some t) :
    s.sleepers.length < s.numthreads := by
  have hnum := h.num
  rw [hcur] at hnum
  simp only [Option.toList_some, List.length_cons, List.length_nil] at hnum
  omega

/-- After a successful `thread_fork` the vector of sleepers has room for every thread, so that a
thread goes to sleep without asking for memory; and so does the vector of zombies, and a thread
exits without asking for memory, if at each `thread_fork` there were at most 13 threads and no
zombies. -/
theorem switch_preallocation {p : π} {count : ℕ → ℤ} {k₀ : Kernel π} (h0 : Booted p count k₀) :
    (∀ k, AfterFork (Step code) k₀ k → k.numthreads ≤ k.sleepers.max ∧
      ∀ t, k.curthread = some t → NoAlloc (miSwitch .sleep) { k with curspl := splHigh }) ∧
    (∀ k, AfterFork (SmallStep code) k₀ k → k.numthreads ≤ k.zombies.max ∧
      ∀ t, k.curthread = some t → NoAlloc (miSwitch .zomb) { k with curspl := splHigh }) := by
  have hhigh : 0 < splHigh := by decide
  constructor
  · intro k hk
    obtain ⟨⟨hok, hP⟩, hmax⟩ := hk.sleepers h0
    refine ⟨hmax, fun t hcur => ?_⟩
    have hlt : k.sleepers.num < k.numthreads := k.sleepers.length_toList ▸ hP.sleepers_lt hcur
    exact miSwitch_sleep_noAlloc ⟨hok.runqueue, hok.sleepers, hok.zombies⟩ hhigh hcur
      (hlt.trans_le hmax)
  · intro k hk
    obtain ⟨hsmall, hcov⟩ := hk.zombies h0
    refine ⟨(Nat.le_add_right _ _).trans hcov, fun t hcur => ?_⟩
    have hpos : 0 < k.numthreads := Nat.zero_lt_of_lt (hsmall.placed.sleepers_lt hcur)
    refine miSwitch_zomb_noAlloc ⟨hsmall.ok.runqueue, hsmall.ok.sleepers, hsmall.ok.zombies⟩ hhigh
      hcur ?_
    show k.zombies.num < k.zombies.max
    rw [Kernel.Covered] at hcov
    omega

theorem switch_preallocation_forkNow :
    NoAlloc (miSwitch .zomb) { after forkNow (bootedWith []) with curspl := splHigh } := by
  let fork : Choice Unit := .op (.fork () (fun _ => ()) ())
  have hfork : ∃ es, SmallStep anyCode (bootedWith []) es (after [fork] (bootedWith [])) := by
    obtain ⟨es, hstep⟩ := step_after [] fork (bootedWith []) (by decide +kernel)
    exact ⟨es, _, Core.enabled_of_ready (by decide +kernel), hstep, fun hforks => nomatch hforks.1⟩
  have hproceed : ∃ es, SmallStep anyCode (after [fork] (bootedWith [])) es
      (after forkNow (bootedWith [])) := by
    obtain ⟨es, hstep⟩ := step_after [fork] .proceed (bootedWith []) (by decide +kernel)
    refine ⟨es, .proceed, Core.enabled_of_ready (by decide +kernel), hstep, fun _ => ?_⟩
    exact ⟨by decide +kernel, by decide +kernel⟩
  obtain ⟨_, hfork⟩ := hfork
  obtain ⟨_, hproceed⟩ := hproceed
  have hafter : AfterFork (SmallStep anyCode) (bootedWith []) (after forkNow (bootedWith [])) :=
    ⟨_, _, _, _, _, .single hfork, hproceed, by decide +kernel, .refl⟩
  exact ((switch_preallocation (booted_bootedWith (by decide +kernel))).2 _ hafter).2 0
    (by decide +kernel)

/-- The first thread yields, and each of `n` others runs once and yields. -/
def rounds (n : ℕ) : List (Choice Unit) :=
  .op (.yield ()) :: (List.replicate n [.schedule, .op (.yield ())]).flatten ++ [.schedule]

/-- The memory runs out in the vector of zombies of a machine with 15 threads. -/
def scarce : Kernel Unit := bootedWith (List.replicate 166 false ++ [true])

theorem exit_out_of_memory :
    (∃ tr, Run (Step anyCode) scarce tr (after (forks 14 ++ rounds 14) scarce)) ∧
    Booted () (fun _ => 0) scarce ∧
    (after (forks 14 ++ rounds 14) scarce).numthreads = 15 ∧
    (after (forks 14 ++ rounds 14) scarce).zombies.max = 0 ∧
    step (.op .exit) (after (forks 14 ++ rounds 14) scarce) =
      .halted "Assertion failed: result==0" := by
  refine ⟨⟨_, run_after (by decide +kernel)⟩, booted_bootedWith (by decide +kernel), ?_, ?_, ?_⟩
  · decide +kernel
  · decide +kernel
  · exact Outcome.eq_halted (by decide +kernel)

end Os161.Threads
