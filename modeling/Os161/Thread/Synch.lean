import Mathlib.Tactic
import Os161.Common.Runs
import Os161.Thread.Kernel

/-!
# Synchronization primitives and the steps of the machine

Model of `kern/thread/synch.c`, and of what happens on the processor from one point at which another
thread can run to the next. A thread in its own code calls an operation (`Op`) and runs it until it
has finished or goes to sleep. While interrupts are on the timer and the devices may interrupt.
While no thread is current the scheduler is idle: interrupts are taken, and once the run queue is
not empty its first thread goes on from where it was switched away.

Every step reports what has happened in it (`Event`). The primitives are used on objects; a lock or
a condition variable of a thread structure that has been freed stops the machine.
-/

namespace Os161.Threads

open Prog

/-! ## Events -/

/-- What system calls report. -/
inductive ProcEvent where
  /-- `t` has called `sys__exit`. -/
  | exits (t : Tid) (exitcode : ℤ)
  /-- `t` has read the exit code of `c` in `sys_waitpid`. -/
  | collects (t c : Tid) (exitcode : ℤ)
deriving DecidableEq

/-- What a step reports. -/
inductive Event where
  /-- `t` has got the lock, in `lock_acquire` or `cv_wait`. -/
  | acquired (t : Tid) (l : Lock)
  /-- `t` has given up the lock, in `lock_release` or `cv_wait`. -/
  | released (t : Tid) (l : Lock)
  /-- `t` has gone to sleep in `cv_wait`. -/
  | waits (t : Tid) (c : Cv) (l : Lock)
  /-- `t` returns from `cv_wait`. -/
  | waited (t : Tid) (c : Cv) (l : Lock)
  /-- `cv_signal`, with the thread it has woken up. -/
  | signal (c : Cv) (woken : Option Tid)
  /-- `cv_broadcast`, with the threads it has woken up. -/
  | broadcast (c : Cv) (woken : List Tid)
  /-- `t` returns from `P`. -/
  | p (t : Tid) (n : ℕ)
  /-- `V` has been done. -/
  | v (n : ℕ)
  /-- A report of a system call. -/
  | proc (e : ProcEvent)
deriving DecidableEq

/-! ## Operations -/

/-- The operations a thread may call, with the point at which it goes on. -/
inductive Op (π : Type) where
  | splx (spl : ℕ) (next : π)
  /-- A change of the fields of system calls. -/
  | write (f : (Tid → Proc) → Tid → Proc) (es : List ProcEvent) (next : π)
  | yield (next : π)
  /-- `thread_sleep` on an address of its own. -/
  | sleep (n : ℕ) (next : π)
  | wakeup (n : ℕ) (next : π)
  | wakeone (n : ℕ) (next : π)
  | fork (start : π) (ok : Tid → π) (fail : π)
  | exit
  | acquire (l : Lock) (next : π)
  | release (l : Lock) (next : π)
  | wait (c : Cv) (l : Lock) (next : π)
  | signal (c : Cv) (l : Lock) (next : π)
  | broadcast (c : Cv) (l : Lock) (next : π)
  | p (n : ℕ) (next : π)
  | v (n : ℕ) (next : π)

variable {π : Type}

/-- The current thread goes on at `p`, at the interrupt level `spl`. -/
def goOn (spl : ℕ) (p : π) : KM π Unit := do
  let t ← curThread
  modifyCore fun k => k.goOn t spl p

/-- A pointer into the structure of `t` may be followed only while that has not been freed. -/
def assertUsable (t : Tid) : KM π Unit := do
  let k ← get
  require ((k.thread t).life ≠ .freed) "use of a freed thread structure"

/-- `assert(lock!=NULL)`. -/
def assertLock : Lock → KM π Unit
  | .obj _ => return
  | .lk t => do
    assertUsable t
    let k ← get
    require ((k.thread t).lk = true) "Assertion failed: lock!=NULL"

/-- `assert(cv != NULL)`. -/
def assertCv : Cv → KM π Unit
  | .obj _ => return
  | .waitonexit t => do
    assertUsable t
    let k ← get
    require ((k.thread t).waitonexit = true) "Assertion failed: cv != NULL"
  | .waittoexit t => do
    assertUsable t
    let k ← get
    require ((k.thread t).waittoexit = true) "Assertion failed: cv != NULL"

/-! ## Locks -/

/-- The loop of `lock_acquire`, from the test of `own` to the next sleep or to the end. -/
def lockAcquireLoop (l : Lock) (interrupt : ℕ) (cv : Option Cv) (next : π) : KM π (List Event) := do
  assertLock l
  let t ← curThread
  let k ← get
  match k.own l with
  | some _ =>
    threadSleep (.lock l) (.locking l interrupt cv next)
    return []
  | none =>
    modifyCore fun k => { k with own := Function.update k.own l (some t) }
    goOn interrupt next
    return .acquired t l :: (cv.map fun c => .waited t c l).toList

/-- `lock_acquire`. -/
def lockAcquire (l : Lock) (next : π) : KM π (List Event) := do
  let interrupt ← splhigh
  lockAcquireLoop l interrupt none next

/-- `assert(lock_do_i_hold(lock)==1)`. -/
def assertHold (l : Lock) : KM π Unit := do
  assertLock l
  let t ← curThread
  let k ← get
  require (k.own l = some t) "Assertion failed: lock_do_i_hold(lock)==1"

/-- `lock_release` up to the point where interrupts go off. -/
def lockReleaseCheck (l : Lock) (next : π) : KM π (List Event) := do
  assertHold l
  let t ← curThread
  modifyCore fun k => k.setKont t (.run (.releasing l next))
  return []

/-- The part of `lock_release` with interrupts off. -/
def lockReleaseBody (l : Lock) : KM π Unit := do
  modifyCore fun k => { k with own := Function.update k.own l none }
  threadWakeup (.lock l)

/-- `lock_release` from the point where interrupts go off. -/
def lockRelease (l : Lock) (next : π) : KM π (List Event) := do
  let t ← curThread
  let interrupt ← splhigh
  lockReleaseBody l
  goOn interrupt next
  return [.released t l]

/-! ## Condition variables -/

/-- `cv_wait` up to the sleep. Interrupts are off when it calls `lock_release`. -/
def cvWait (c : Cv) (l : Lock) (next : π) : KM π (List Event) := do
  let t ← curThread
  let interrupt ← splhigh
  assertCv c
  assertHold l
  lockReleaseBody l
  threadSleep (.cv c) (.waiting c l interrupt next)
  return [.released t l, .waits t c l]

/-- `cv_signal`. -/
def cvSignal (c : Cv) (l : Lock) (next : π) : KM π (List Event) := do
  assertCv c
  assertLock l
  let interrupt ← splhigh
  let woken ← threadWakeone (.cv c)
  goOn interrupt next
  return [.signal c woken]

/-- `cv_broadcast`. -/
def cvBroadcast (c : Cv) (l : Lock) (next : π) : KM π (List Event) := do
  assertCv c
  assertLock l
  let interrupt ← splhigh
  let k ← get
  threadWakeup (.cv c)
  goOn interrupt next
  return [.broadcast c (k.sleepers.toList.filter fun t => (k.thread t).sleepaddr = some (.cv c))]

/-! ## Semaphores -/

/-- The loop of `P`, from the test of `count` to the next sleep or to the end. -/
def pLoop (n : ℕ) (spl : ℕ) (next : π) : KM π (List Event) := do
  let t ← curThread
  let k ← get
  if k.count n = 0 then
    threadSleep (.sem n) (.passing n spl next)
    return []
  else
    require (k.count n > 0) "Assertion failed: sem->count>0"
    modifyCore fun k => { k with count := Function.update k.count n (k.count n - 1) }
    goOn spl next
    return [.p t n]

/-- `P`. -/
def semP (n : ℕ) (next : π) : KM π (List Event) := do
  let spl ← splhigh
  pLoop n spl next

/-- The part of `V` with interrupts off. -/
def semVBody (n : ℕ) : KM π Unit := do
  modifyCore fun k => { k with count := Function.update k.count n (s32 (k.count n + 1)) }
  let k ← get
  require (k.count n > 0) "Assertion failed: sem->count>0"
  threadWakeup (.sem n)

/-- `V`, called by a thread. -/
def semV (n : ℕ) (next : π) : KM π (List Event) := do
  let spl ← splhigh
  semVBody n
  goOn spl next
  return [.v n]

/-! ## Steps -/

/-- An operation of the current thread. -/
def runOp : Op π → KM π (List Event)
  | .splx spl next => do
    goOn spl next
    return []
  | .write f es next => do
    let spl ← gets (·.curspl)
    modifyCore fun k => k.setProc f
    goOn spl next
    return es.map .proc
  | .yield next => do
    threadYield (.client next)
    return []
  | .sleep n next => do
    threadSleep (.other n) (.slept next)
    return []
  | .wakeup n next => do
    let spl ← gets (·.curspl)
    threadWakeup (.other n)
    goOn spl next
    return []
  | .wakeone n next => do
    let spl ← gets (·.curspl)
    let _ ← threadWakeone (.other n)
    goOn spl next
    return []
  | .fork start ok fail => do
    let t ← curThread
    let spl ← gets (·.curspl)
    match ← threadForkCreate start with
    | none => goOn spl fail
    | some new => modifyCore fun k => k.setKont t (.run (.forking new (ok new) fail))
    return []
  | .exit => do
    threadExit
    return []
  | .acquire l next => lockAcquire l next
  | .release l next => lockReleaseCheck l next
  | .wait c l next => cvWait c l next
  | .signal c l next => cvSignal c l next
  | .broadcast c l next => cvBroadcast c l next
  | .p n next => semP n next
  | .v n next => semV n next

/-- The rest of `lock_release` or `thread_fork`. -/
def proceed : KM π (List Event) := do
  let t ← curThread
  let k ← get
  match (k.thread t).kont with
  | .run (.releasing l next) => lockRelease l next
  | .run (.forking new ok fail) => do
    let spl ← gets (·.curspl)
    let done ← threadForkCommit new
    goOn spl (if done then ok else fail)
    return []
  | _ => halt "nothing to go on with"

/-- What a thread does after it has been switched to. -/
def resume (t : Tid) : KM π (List Event) := do
  let k ← get
  match (k.thread t).kont with
  | .yielded spl c => do
    modifyCore fun k => { k.setKont t (.run c) with curspl := spl }
    return []
  | .slept next => do
    modifyCore fun k => k.setThread t fun th => { th with
      sleepaddr := none, kont := .run (.client next) }
    return []
  | .locking l spl cv next => do
    modifyCore fun k => k.setThread t fun th => { th with sleepaddr := none }
    lockAcquireLoop l spl cv next
  | .passing n spl next => do
    modifyCore fun k => k.setThread t fun th => { th with sleepaddr := none }
    pLoop n spl next
  | .waiting c l spl next => do
    modifyCore fun k => k.setThread t fun th => { th with sleepaddr := none }
    lockAcquireLoop l spl (some c) next
  | .run _ => halt "switched to the current thread"
  | .fresh _ => halt "switched to a new thread by way of mi_switch"
  | .dead => halt "Thread came back from the dead!"

/-- `mi_switch` from the call of the scheduler on, up to the end of the switch. A new thread goes to
`mi_threadstart`, which turns interrupts on; any other returns from `mi_switch`. -/
def schedule : KM π (List Event) := do
  let next ← scheduler
  modifyCore fun k => { k with curthread := some next }
  let k ← get
  match (k.thread next).kont with
  | .fresh p => do
    goOn 0 p
    return []
  | _ => do
    exorcise
    resume next

/-- The first part of `hardclock`: once a second it wakes up the sleepers on `lbolt`. -/
def lboltTick (second : Bool) : KM π Unit := if second then threadWakeup lbolt else return

/-- The timer interrupt: `hardclock`, which ends with `thread_yield`. -/
def timer (second : Bool) : KM π (List Event) := do
  let savespl ← splhigh
  lboltTick second
  let k ← get
  match k.curthread with
  | none => do
    let _ ← splx savespl
    return []
  | some t =>
    match (k.thread t).kont with
    | .run c => do
      modifyCore fun k => k.setKont t (.yielded savespl c)
      miSwitch .ready
      return []
    | _ => halt "the current thread is not running"

/-- The interrupt of a device, whose handler calls `V`. -/
def device (n : ℕ) : KM π (List Event) := do
  let savespl ← splhigh
  semVBody n
  let _ ← splx savespl
  return [.v n]

/-- What can happen next on the processor. -/
inductive Choice (π : Type) where
  | op (o : Op π)
  | proceed
  | timer (second : Bool)
  | device (n : ℕ)
  | schedule

/-- One step. -/
def step : Choice π → KM π (List Event)
  | .op o => runOp o
  | .proceed => proceed
  | .timer second => timer second
  | .device n => device n
  | .schedule => schedule

/-- The code of threads: which operations the thread `t` may call at the point `p`. -/
abbrev Code (π : Type) := Core π → Tid → π → Op π → Prop

/-- The processor may do this next. Interrupts are taken while they are on, and in the idle loop of
the scheduler. -/
def Core.Enabled (code : Code π) (k : Core π) : Choice π → Prop
  | .op o => ∃ t p, k.curthread = some t ∧ (k.thread t).kont = .run (.client p) ∧ code k t p o
  | .proceed => k.curthread ≠ none
  | .timer _ => k.curthread = none ∨ k.curspl = 0
  | .device _ => k.curthread = none ∨ k.curspl = 0
  | .schedule => k.curthread = none

/-- The steps of the machine while it is not stopped. -/
def Step (code : Code π) (k : Kernel π) (es : List Event) (k' : Kernel π) : Prop :=
  ∃ c, k.Enabled code c ∧ step c k = .ok es k'

/-- The machine has booted, with a first thread that goes on at `p`, and semaphores will be created
with the counts `count`. -/
def Booted (p : π) (count : ℕ → ℤ) (k : Kernel π) : Prop :=
  (∀ n, 0 ≤ count n ∧ count n < 2147483648) ∧
    ∃ nomem, bootstrap p (blank count nomem) = .ok () k

/-! ## Schedules -/

/-- Threads whose code may do anything. -/
def anyCode : Code π := fun _ _ _ _ => True

/-- The processor may do this next, for threads whose code may do anything. -/
def Core.ready (k : Core π) : Choice π → Bool
  | .op _ =>
    match k.curthread with
    | none => false
    | some t =>
      match (k.thread t).kont with
      | .run (.client _) => true
      | _ => false
  | .proceed => k.curthread.isSome
  | .timer _ => k.curthread.isNone || k.curspl == 0
  | .device _ => k.curthread.isNone || k.curspl == 0
  | .schedule => k.curthread.isNone

theorem Core.enabled_of_ready {k : Core π} {c : Choice π} (h : k.ready c = true) :
    k.Enabled anyCode c := by
  cases c with
  | op o =>
    simp only [Core.ready] at h
    split at h
    · cases h
    case h_2 t hcur =>
      split at h
      case h_1 p hk => exact ⟨t, p, hcur, hk, trivial⟩
      · cases h
  | proceed => exact Option.isSome_iff_ne_none.mp h
  | timer second => simpa [Core.ready, Core.Enabled] using h
  | device n => simpa [Core.ready, Core.Enabled] using h
  | schedule => exact Option.isNone_iff_eq_none.mp h

/-- Follow a schedule. -/
def play : List (Choice π) → Kernel π → Outcome Errno (Kernel π) (List Event)
  | [], k => .ok [] k
  | c :: cs, k =>
    if k.ready c then
      match step c k with
      | .ok es k' =>
        match play cs k' with
        | .ok tr k'' => .ok (es ++ tr) k''
        | o => o
      | o => o
    else
      .halted "not enabled"

/-- What a schedule leads to is reached by a run. -/
theorem run_of_play {cs : List (Choice π)} {k k' : Kernel π} {tr : List Event}
    (h : play cs k = .ok tr k') : Run (Step anyCode) k tr k' := by
  induction cs generalizing k tr with
  | nil =>
    cases h
    exact .refl
  | cons c cs ih =>
    simp only [play] at h
    split at h
    case isTrue hready =>
      split at h
      case h_1 es k₁ hstep =>
        split at h
        case h_1 tr' k₂ hplay =>
          cases h
          exact (Run.single ⟨c, Core.enabled_of_ready hready, hstep⟩).trans (ih hplay)
        case h_2 hplay => exact absurd h (hplay tr k')
      case h_2 hstep => exact absurd h (hstep tr k')
    case isFalse => cases h

/-- A machine after boot, with all semaphores at zero. -/
def bootedWith (nomem : List Bool) : Kernel Unit :=
  (bootstrap () (blank (fun _ => 0) nomem)).stateD (blank (fun _ => 0) nomem)

theorem booted_bootedWith {nomem : List Bool}
    (h : (bootstrap () (blank (fun _ => 0) nomem)).isOk = true) :
    Booted () (fun _ => 0) (bootedWith nomem) :=
  ⟨fun _ => ⟨le_rfl, Int.ofNat_lt.mpr (by decide)⟩, nomem, Outcome.eq_ok _ () _ h⟩

/-- The machine after a schedule. -/
def after (cs : List (Choice π)) (k : Kernel π) : Kernel π := (play cs k).stateD k

theorem run_after {cs : List (Choice π)} {k : Kernel π} (h : (play cs k).isOk = true) :
    Run (Step anyCode) k ((play cs k).valueD []) (after cs k) :=
  run_of_play (Outcome.eq_ok _ [] k h)

/-- The last step of a schedule starts where the rest of the schedule ends. -/
theorem play_concat {cs : List (Choice π)} {c : Choice π} {k k' : Kernel π} {tr : List Event}
    (h : play (cs ++ [c]) k = .ok tr k') :
    ∃ tr₁ k₁ es, play cs k = .ok tr₁ k₁ ∧ step c k₁ = .ok es k' := by
  induction cs generalizing k tr with
  | nil =>
    simp only [List.nil_append, play] at h
    split at h
    case isTrue =>
      split at h
      case h_1 es k₁ hstep =>
        cases h
        exact ⟨[], k, es, rfl, hstep⟩
      case h_2 hstep => exact absurd h (hstep tr k')
    case isFalse => cases h
  | cons d cs ih =>
    simp only [List.cons_append, play] at h ⊢
    split at h
    case isTrue hready =>
      split at h
      case h_1 es k₁ hstep =>
        split at h
        case h_1 tr' k₂ hplay =>
          cases h
          obtain ⟨tr₁, k₃, es', hcs, hc⟩ := ih hplay
          exact ⟨es ++ tr₁, k₃, es', by rw [if_pos hready, hcs], hc⟩
        case h_2 hplay => exact absurd h (hplay tr k')
      case h_2 hstep => exact absurd h (hstep tr k')
    case isFalse => cases h

theorem step_after (cs : List (Choice π)) (c : Choice π) (k : Kernel π)
    (h : (play (cs ++ [c]) k).isOk = true) :
    ∃ es, step c (after cs k) = .ok es (after (cs ++ [c]) k) := by
  obtain ⟨tr₁, k₁, es, hplay, hstep⟩ := play_concat (Outcome.eq_ok _ [] k h)
  refine ⟨es, ?_⟩
  rw [show after cs k = k₁ by rw [after, hplay]; rfl]
  exact hstep

/-- The current thread calls `thread_fork`. -/
def forkNow : List (Choice Unit) := [.op (.fork () (fun _ => ()) ()), .proceed]

end Os161.Threads
