import Mathlib.Tactic
import Os161.Thread.Synch

/-!
# The thread system with lists

The system of `Kernel` and `Synch` without its memory management: the run queue, the sleepers and
the zombies are lists, a wakeup moves all sleepers on an address at once, and nothing is ever out of
memory except that a fork may fail. `SStep` says for every kind of step what it needs and what it
does. The machine refines this system (`Refine`), and the laws of the thread system are proved here.
-/

namespace Os161.Threads

variable {π : Type}

/-- The global state with lists of threads. -/
structure Sys (π : Type) extends Core π where
  runq : List Tid
  sleepers : List Tid
  zombies : List Tid

namespace Sys

variable (s : Sys π)

/-- Change the global variables. -/
def mapCore (f : Core π → Core π) : Sys π := { s with toCore := f s.toCore }

/-- The current thread `t` goes on at `p`. -/
def goOn (t : Tid) (spl : ℕ) (p : π) : Sys π := s.mapCore fun k => k.goOn t spl p

/-- The sleepers on `a`, in the order in which they went to sleep. -/
def asleepOn (a : Addr) : List Tid := s.sleepers.filter fun t => (s.thread t).sleepaddr = some a

/-- `thread_wakeup`. -/
def wake (a : Addr) : Sys π :=
  { s with
    runq := s.runq ++ s.asleepOn a
    sleepers := s.sleepers.filter fun t => (s.thread t).sleepaddr ≠ some a }

/-- `thread_wakeone`. -/
def wakeFirst (a : Addr) : Sys π :=
  match (s.asleepOn a).head? with
  | none => s
  | some t => { s with runq := s.runq ++ [t], sleepers := s.sleepers.erase t }

/-- The current thread `t` goes to the run queue. -/
def toRunq (t : Tid) (κ : Kont π) : Sys π :=
  { s with
    toCore := { s.setKont t κ with curthread := none, curspl := splHigh }
    runq := s.runq ++ [t] }

/-- The current thread `t` goes to sleep on `a`. -/
def toSleepers (t : Tid) (a : Addr) (κ : Kont π) : Sys π :=
  { s with
    toCore := { s.setThread t fun th => { th with sleepaddr := some a, kont := κ } with
      curthread := none }
    sleepers := s.sleepers ++ [t] }

/-- The current thread `t` exits. -/
def toZombies (t : Tid) : Sys π :=
  { s with
    toCore := { s.setKont t .dead with
      curthread := none, curspl := splHigh, numthreads := s.numthreads - 1 }
    zombies := s.zombies ++ [t] }

/-- `splhigh`. -/
def raise : Sys π := s.mapCore fun k => { k with curspl := splHigh }

/-- `lock->own = owner`. -/
def setOwn (l : Lock) (owner : Option Tid) : Sys π :=
  s.mapCore fun k => { k with own := Function.update k.own l owner }

/-- `sem->count = c`. -/
def setCount (n : ℕ) (c : ℤ) : Sys π :=
  s.mapCore fun k => { k with count := Function.update k.count n c }

/-- The thread `t` is no longer asleep. -/
def clearAddr (t : Tid) : Sys π := s.mapCore fun k => k.setThread t fun th => { th with
  sleepaddr := none }

/-- The thread `t` makes the structure `th` and goes on with `κ`. -/
def newThread (t : Tid) (th : Thread π) (κ : Kont π) : Sys π :=
  s.mapCore fun k => Core.setKont { k with
    thread := Function.update k.thread k.created th
    pidAssign := s32 (k.pidAssign + 1)
    created := k.created + 1 } t κ

/-- The thread `t` has just been switched to: the head of the run queue is current and the zombies
are gone. -/
def switchTo (t : Tid) (rest : List Tid) : Sys π :=
  { s with
    toCore := { s.toCore with
      curthread := some t
      thread := fun u =>
        if u ∈ s.zombies then { s.thread u with life := .freed } else s.thread u }
    runq := rest
    zombies := [] }

section goOn

variable (t : Tid) (spl : ℕ) (p : π) (u : Tid)

theorem goOn_kont :
    ((s.goOn t spl p).thread u).kont = if u = t then .run (.client p) else (s.thread u).kont :=
  s.setKont_kont t _ u

@[simp]
theorem goOn_life : ((s.goOn t spl p).thread u).life = (s.thread u).life := s.setKont_life t _ u

@[simp]
theorem goOn_sleepaddr : ((s.goOn t spl p).thread u).sleepaddr = (s.thread u).sleepaddr :=
  s.setKont_sleepaddr t _ u

@[simp]
theorem goOn_proc : ((s.goOn t spl p).thread u).proc = (s.thread u).proc := s.setKont_proc t _ u

@[simp]
theorem goOn_pid : ((s.goOn t spl p).thread u).pid = (s.thread u).pid := s.setKont_pid t _ u

end goOn

section toSleepers

variable (t : Tid) (a : Addr) (κ : Kont π) (u : Tid)

theorem toSleepers_thread : (s.toSleepers t a κ).thread u =
    if u = t then { s.thread u with sleepaddr := some a, kont := κ } else s.thread u :=
  s.setThread_thread t (fun th => { th with sleepaddr := some a, kont := κ }) u

theorem toSleepers_kont :
    ((s.toSleepers t a κ).thread u).kont = if u = t then κ else (s.thread u).kont := by
  rw [toSleepers_thread]
  split <;> rfl

theorem toSleepers_sleepaddr : ((s.toSleepers t a κ).thread u).sleepaddr =
    if u = t then some a else (s.thread u).sleepaddr := by
  rw [toSleepers_thread]
  split <;> rfl

@[simp]
theorem toSleepers_life : ((s.toSleepers t a κ).thread u).life = (s.thread u).life := by
  rw [toSleepers_thread]
  split <;> rfl

@[simp]
theorem toSleepers_proc : ((s.toSleepers t a κ).thread u).proc = (s.thread u).proc := by
  rw [toSleepers_thread]
  split <;> rfl

@[simp]
theorem toSleepers_pid : ((s.toSleepers t a κ).thread u).pid = (s.thread u).pid := by
  rw [toSleepers_thread]
  split <;> rfl

end toSleepers

section newThread

variable (t : Tid) (th : Thread π) (κ : Kont π) (u : Tid)

theorem newThread_kont : ((s.newThread t th κ).thread u).kont =
    if u = t then κ else if u = s.created then th.kont else (s.thread u).kont := by
  refine (Core.setKont_kont _ t κ u).trans ?_
  simp only [Function.update_apply]
  split
  · rfl
  · split <;> rfl

/-- A part of the structures that does not say what threads do next. -/
theorem newThread_proj {β : Type} (g : Thread π → β) (hg : ∀ th κ, g { th with kont := κ } = g th) :
    g ((s.newThread t th κ).thread u) = if u = s.created then g th else g (s.thread u) := by
  refine (Core.setThread_proj _ g (fun th => hg th κ) u).trans ?_
  simp only [Function.update_apply]
  split <;> rfl

end newThread

section clearAddr

variable (t u : Tid)

@[simp]
theorem clearAddr_life : ((s.clearAddr t).thread u).life = (s.thread u).life :=
  s.setThread_proj (f := fun th => { th with sleepaddr := none }) Thread.life (fun _ => rfl) u

@[simp]
theorem clearAddr_kont : ((s.clearAddr t).thread u).kont = (s.thread u).kont :=
  s.setThread_proj (f := fun th => { th with sleepaddr := none }) Thread.kont (fun _ => rfl) u

@[simp]
theorem clearAddr_proc : ((s.clearAddr t).thread u).proc = (s.thread u).proc :=
  s.setThread_proj (f := fun th => { th with sleepaddr := none }) Thread.proc (fun _ => rfl) u

@[simp]
theorem clearAddr_pid : ((s.clearAddr t).thread u).pid = (s.thread u).pid :=
  s.setThread_proj (f := fun th => { th with sleepaddr := none }) Thread.pid (fun _ => rfl) u

theorem clearAddr_sleepaddr :
    ((s.clearAddr t).thread u).sleepaddr = if u = t then none else (s.thread u).sleepaddr := by
  have hthread := s.setThread_thread t (fun th => { th with sleepaddr := none }) u
  refine (congrArg Thread.sleepaddr hthread).trans ?_
  split <;> rfl

end clearAddr

@[simp]
theorem wakeFirst_toCore (a : Addr) : (s.wakeFirst a).toCore = s.toCore := by
  rw [wakeFirst]
  split <;> rfl

theorem wakeFirst_runq (a : Addr) :
    (s.wakeFirst a).runq = s.runq ++ (s.asleepOn a).head?.toList := by
  rw [wakeFirst]
  split
  case h_1 hnone => simp [hnone]
  case h_2 t hsome => simp [hsome]

@[simp]
theorem wakeFirst_zombies (a : Addr) : (s.wakeFirst a).zombies = s.zombies := by
  rw [wakeFirst]
  split <;> rfl

end Sys

/-! ## Steps -/

/-- `t` at the test of `own` in `lock_acquire`, with interrupts off. -/
inductive TryLock (t : Tid) (l : Lock) (spl : ℕ) (cv : Option Cv) (next : π) (s : Sys π) :
    List Event → Sys π → Prop where
  | block {u : Tid} (hown : s.own l = some u) :
      TryLock t l spl cv next s []
        (s.toSleepers t (.lock l) (.locking l spl cv next))
  | get (hown : s.own l = none) :
      TryLock t l spl cv next s (.acquired t l :: (cv.map fun c => .waited t c l).toList)
        ((s.setOwn l (some t)).goOn t spl next)

/-- `t` at the test of `count` in `P`, with interrupts off. -/
inductive TryP (t : Tid) (n : ℕ) (spl : ℕ) (next : π) (s : Sys π) : List Event → Sys π → Prop where
  | block (hcount : s.count n = 0) :
      TryP t n spl next s [] (s.toSleepers t (.sem n) (.passing n spl next))
  | get (hcount : 0 < s.count n) :
      TryP t n spl next s [.p t n] ((s.setCount n (s.count n - 1)).goOn t spl next)

/-- The operations of the current thread `t`. -/
inductive OpStep (t : Tid) (s : Sys π) : Op π → List Event → Sys π → Prop where
  | splx {spl : ℕ} {next : π} : OpStep t s (.splx spl next) [] (s.goOn t spl next)
  | write {f : (Tid → Proc) → Tid → Proc} {es : List ProcEvent} {next : π} :
      OpStep t s (.write f es next) (es.map .proc)
        ((s.mapCore fun k => k.setProc f).goOn t s.curspl next)
  | yield {next : π} :
      OpStep t s (.yield next) [] (s.toRunq t (.yielded s.curspl (.client next)))
  | sleep {n : ℕ} {next : π} (hspl : 0 < s.curspl) :
      OpStep t s (.sleep n next) [] (s.toSleepers t (.other n) (.slept next))
  | wakeup {n : ℕ} {next : π} (hspl : 0 < s.curspl) :
      OpStep t s (.wakeup n next) [] ((s.wake (.other n)).goOn t s.curspl next)
  | wakeone {n : ℕ} {next : π} (hspl : 0 < s.curspl) :
      OpStep t s (.wakeone n next) [] ((s.wakeFirst (.other n)).goOn t s.curspl next)
  /-- No memory for the structure. -/
  | forkNone {start : π} {ok : Tid → π} {fail : π} :
      OpStep t s (.fork start ok fail) [] (s.goOn t s.curspl fail)
  /-- The structure has been made and, if there was no memory for the stack, freed. -/
  | forkNew {start : π} {ok : Tid → π} {fail : π} {th : Thread π} {κ : Kont π}
      (haddr : th.sleepaddr = none) (hproc : th.proc = ⟨some t, fun _ => none, 100, 0⟩)
      (hpid : th.pid = s.pidAssign)
      (hlife : th.life = .embryo ∧ th.kont = .fresh start ∧
          κ = .run (.forking s.created (ok s.created) fail) ∨
        th.life = .freed ∧ th.kont = .dead ∧ κ = .run (.client fail)) :
      OpStep t s (.fork start ok fail) [] (s.newThread t th κ)
  | exit (hnum : 0 < s.numthreads) : OpStep t s .exit [] (s.toZombies t)
  | acquire {l : Lock} {next : π} {es : List Event} {s' : Sys π}
      (htry : TryLock t l s.curspl none next s.raise es s') : OpStep t s (.acquire l next) es s'
  | release {l : Lock} {next : π} (hown : s.own l = some t) :
      OpStep t s (.release l next) [] (s.mapCore fun k => k.setKont t (.run (.releasing l next)))
  | wait {c : Cv} {l : Lock} {next : π} (hown : s.own l = some t) :
      OpStep t s (.wait c l next) [.released t l, .waits t c l]
        (((s.raise.setOwn l none).wake (.lock l)).toSleepers t (.cv c)
          (.waiting c l s.curspl next))
  | signal {c : Cv} {l : Lock} {next : π} :
      OpStep t s (.signal c l next) [.signal c (s.asleepOn (.cv c)).head?]
        ((s.wakeFirst (.cv c)).goOn t s.curspl next)
  | broadcast {c : Cv} {l : Lock} {next : π} :
      OpStep t s (.broadcast c l next) [.broadcast c (s.asleepOn (.cv c))]
        ((s.wake (.cv c)).goOn t s.curspl next)
  | p {n : ℕ} {next : π} {es : List Event} {s' : Sys π}
      (htry : TryP t n s.curspl next s.raise es s') : OpStep t s (.p n next) es s'
  | v {n : ℕ} {next : π} (hcount : 0 < s32 (s.count n + 1)) :
      OpStep t s (.v n next) [.v n]
        (((s.setCount n (s32 (s.count n + 1))).wake (.sem n)).goOn t s.curspl next)

/-- What the thread `t` does once it has been switched to. -/
inductive Resume (t : Tid) (s : Sys π) : List Event → Sys π → Prop where
  | yielded {spl : ℕ} {c : Ctl π} (hk : (s.thread t).kont = .yielded spl c) :
      Resume t s [] (s.mapCore fun k => { k.setKont t (.run c) with curspl := spl })
  | slept {next : π} (hk : (s.thread t).kont = .slept next) :
      Resume t s [] ((s.clearAddr t).goOn t s.curspl next)
  | locking {l : Lock} {spl : ℕ} {cv : Option Cv} {next : π} {es : List Event} {s' : Sys π}
      (hk : (s.thread t).kont = .locking l spl cv next)
      (htry : TryLock t l spl cv next (s.clearAddr t) es s') : Resume t s es s'
  | passing {n : ℕ} {spl : ℕ} {next : π} {es : List Event} {s' : Sys π}
      (hk : (s.thread t).kont = .passing n spl next)
      (htry : TryP t n spl next (s.clearAddr t) es s') : Resume t s es s'
  | waiting {c : Cv} {l : Lock} {spl : ℕ} {next : π} {es : List Event} {s' : Sys π}
      (hk : (s.thread t).kont = .waiting c l spl next)
      (htry : TryLock t l spl (some c) next (s.clearAddr t) es s') : Resume t s es s'

/-- Nobody dies in `lock_acquire`. -/
theorem TryLock.life {t : Tid} {l : Lock} {spl : ℕ} {cv : Option Cv} {next : π} {s s' : Sys π}
    {es : List Event} (h : TryLock t l spl cv next s es s') :
    s'.zombies = s.zombies ∧ ∀ u, (s'.thread u).life = (s.thread u).life := by
  cases h with
  | block hown => exact ⟨rfl, s.toSleepers_life t _ _⟩
  | get hown => exact ⟨rfl, Sys.goOn_life _ t spl next⟩

/-- Nobody dies in `P`. -/
theorem TryP.life {t : Tid} {n spl : ℕ} {next : π} {s s' : Sys π} {es : List Event}
    (h : TryP t n spl next s es s') :
    s'.zombies = s.zombies ∧ ∀ u, (s'.thread u).life = (s.thread u).life := by
  cases h with
  | block hcount => exact ⟨rfl, s.toSleepers_life t _ _⟩
  | get hcount => exact ⟨rfl, Sys.goOn_life _ t spl next⟩

theorem TryLock.numthreads {t : Tid} {l : Lock} {spl : ℕ} {cv : Option Cv} {next : π} {s s' : Sys π}
    {es : List Event} (h : TryLock t l spl cv next s es s') : s'.numthreads = s.numthreads := by
  cases h <;> rfl

theorem TryP.numthreads {t : Tid} {n spl : ℕ} {next : π} {s s' : Sys π} {es : List Event}
    (h : TryP t n spl next s es s') : s'.numthreads = s.numthreads := by
  cases h <;> rfl

theorem OpStep.numthreads_le {t : Tid} {o : Op π} {s s' : Sys π} {es : List Event}
    (h : OpStep t s o es s') : s'.numthreads ≤ s.numthreads := by
  cases h with
  | acquire htry => exact htry.numthreads.le
  | p htry => exact htry.numthreads.le
  | exit hnum => exact Nat.sub_le _ _
  | wakeone hspl => exact (congrArg Core.numthreads (s.wakeFirst_toCore _)).le
  | signal => exact (congrArg Core.numthreads (s.wakeFirst_toCore _)).le
  | _ => exact le_rfl

theorem Resume.numthreads {t : Tid} {s s' : Sys π} {es : List Event} (h : Resume t s es s') :
    s'.numthreads = s.numthreads := by
  cases h with
  | locking hk htry => exact htry.numthreads
  | passing hk htry => exact htry.numthreads
  | waiting hk htry => exact htry.numthreads
  | _ => rfl

/-- An operation may make a structure, and a thread that exits is a zombie. -/
theorem OpStep.life {t : Tid} {o : Op π} {s s' : Sys π} {es : List Event} (h : OpStep t s o es s') :
    s.zombies ⊆ s'.zombies ∧ ∀ u, u ≠ s.created → (s'.thread u).life = (s.thread u).life := by
  cases h with
  | acquire htry => exact ⟨htry.life.1 ▸ List.Subset.refl _, fun u _ => htry.life.2 u⟩
  | p htry => exact ⟨htry.life.1 ▸ List.Subset.refl _, fun u _ => htry.life.2 u⟩
  | exit hnum => exact ⟨List.subset_append_left _ _, fun u _ => s.setKont_life t _ u⟩
  | wakeone hspl =>
    refine ⟨s.wakeFirst_zombies _ ▸ List.Subset.refl _, fun u _ => ?_⟩
    rw [Sys.goOn_life, Sys.wakeFirst_toCore]
  | signal =>
    refine ⟨s.wakeFirst_zombies _ ▸ List.Subset.refl _, fun u _ => ?_⟩
    rw [Sys.goOn_life, Sys.wakeFirst_toCore]
  | forkNew haddr hproc hpid hlife =>
    refine ⟨List.Subset.refl _, fun u hu => ?_⟩
    exact (s.newThread_proj t _ _ u Thread.life fun _ _ => rfl).trans (if_neg hu)
  | sleep hspl => exact ⟨List.Subset.refl _, fun u _ => s.toSleepers_life t _ _ u⟩
  | wait hown => exact ⟨List.Subset.refl _, fun u _ => Sys.toSleepers_life _ t _ _ u⟩
  | _ => exact ⟨List.Subset.refl _, fun u _ => Core.setKont_life _ t _ u⟩

/-- Nobody dies when a thread is switched to. -/
theorem Resume.life {t : Tid} {s s' : Sys π} {es : List Event} (h : Resume t s es s') :
    s'.zombies = s.zombies ∧ ∀ u, (s'.thread u).life = (s.thread u).life := by
  cases h with
  | yielded hk => exact ⟨rfl, s.setKont_life t _⟩
  | slept hk => exact ⟨rfl, fun u => by rw [Sys.goOn_life, Sys.clearAddr_life]⟩
  | locking hk htry => exact ⟨htry.life.1, fun u => by rw [htry.life.2, Sys.clearAddr_life]⟩
  | passing hk htry => exact ⟨htry.life.1, fun u => by rw [htry.life.2, Sys.clearAddr_life]⟩
  | waiting hk htry => exact ⟨htry.life.1, fun u => by rw [htry.life.2, Sys.clearAddr_life]⟩

/-- The steps of the system. -/
inductive SStep (code : Code π) : Sys π → List Event → Sys π → Prop where
  | op {s s' : Sys π} {t : Tid} {p : π} {o : Op π} {es : List Event} (hcur : s.curthread = some t)
      (hk : (s.thread t).kont = .run (.client p)) (hcode : code s.toCore t p o)
      (hop : OpStep t s o es s') : SStep code s es s'
  | release {s : Sys π} {t : Tid} {l : Lock} {next : π} (hcur : s.curthread = some t)
      (hk : (s.thread t).kont = .run (.releasing l next)) :
      SStep code s [.released t l] (((s.setOwn l none).wake (.lock l)).goOn t s.curspl next)
  | forked {s : Sys π} {t new : Tid} {ok fail : π} (hcur : s.curthread = some t)
      (hk : (s.thread t).kont = .run (.forking new ok fail)) :
      SStep code s [] (Sys.goOn { s with
        toCore := s.addThread t new
        runq := s.runq ++ [new] } t s.curspl ok)
  | forkFails {s : Sys π} {t new : Tid} {ok fail : π} (hcur : s.curthread = some t)
      (hk : (s.thread t).kont = .run (.forking new ok fail)) :
      SStep code s [] ((s.mapCore fun k => k.setThread new fun th => { th with
        life := .freed }).goOn t s.curspl fail)
  | timer {s : Sys π} {t : Tid} {c : Ctl π} (second : Bool) (hcur : s.curthread = some t)
      (hspl : s.curspl = 0) (hk : (s.thread t).kont = .run c) :
      SStep code s [] ((if second then s.wake lbolt else s).toRunq t (.yielded 0 c))
  | idle {s : Sys π} (second : Bool) (hcur : s.curthread = none) :
      SStep code s [] (if second then s.wake lbolt else s)
  | device {s : Sys π} {n : ℕ} (hon : s.curthread = none ∨ s.curspl = 0)
      (hcount : 0 < s32 (s.count n + 1)) :
      SStep code s [.v n] ((s.setCount n (s32 (s.count n + 1))).wake (.sem n))
  | start {s : Sys π} {t : Tid} {p : π} {rest : List Tid} (hcur : s.curthread = none)
      (hq : s.runq = t :: rest) (hk : (s.thread t).kont = .fresh p) :
      SStep code s [] (Sys.goOn { s with
        toCore := { s.toCore with curthread := some t }
        runq := rest } t 0 p)
  | switch {s s' : Sys π} {t : Tid} {rest : List Tid} {es : List Event} (hcur : s.curthread = none)
      (hq : s.runq = t :: rest) (hres : Resume t (s.switchTo t rest) es s') : SStep code s es s'

/-- The system after boot. -/
structure Sys.Booted (p : π) (count : ℕ → ℤ) (s : Sys π) : Prop where
  count_pos : ∀ n, 0 ≤ count n ∧ count n < 2147483648
  cur : s.curthread = some 0
  runq : s.runq = []
  sleepers : s.sleepers = []
  zombies : s.zombies = []
  own : ∀ l, s.own l = none
  count : s.count = count
  numthreads : s.numthreads = 1
  pidAssign : s.pidAssign = 0
  created : s.created = 1
  first : (s.thread 0).life = .thread ∧ (s.thread 0).kont = .run (.client p) ∧
    (s.thread 0).proc = ⟨none, fun _ => none, 100, 0⟩ ∧ (s.thread 0).pid = 0
  others : ∀ t, 0 < t → (s.thread t).life = .absent ∧ (s.thread t).kont = .dead
  awake : ∀ t, (s.thread t).sleepaddr = none

end Os161.Threads
