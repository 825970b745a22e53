import Mathlib.Tactic
import Os161.Lib.Queue

/-!
# The thread system

Model of `kern/thread/thread.c` and `kern/thread/scheduler.c`. The machine has one processor and
code runs without interruption while interrupts are off, so a stretch of kernel code between two
points at which another thread can run is a program on the global variables. What a thread does
after it has been switched away from is on its stack; here it is the `Kont` of the thread.

The model is generic in the type `π` of the points of the code that calls the thread system (a
kernel thread's own function, a system call): a thread that has finished an operation goes on at
such a point. Thread structures are numbered in the order of their allocation, so a pointer to a
structure that has been freed stays different from all others. The contents of stacks, the address
space and the current directory of a thread are left out, and so are the assertions about them.
-/

namespace Os161.Threads

open Prog

/-! ## Names -/

/-- A `struct thread`, by the order of allocation. -/
abbrev Tid := ℕ

/-- A `struct lock`: the lock `lk` of a thread structure, or any other. -/
inductive Lock where
  | obj (n : ℕ)
  | lk (t : Tid)
deriving DecidableEq

/-- A `struct cv`: one of the two of a thread structure, or any other. -/
inductive Cv where
  | obj (n : ℕ)
  | waitonexit (t : Tid)
  | waittoexit (t : Tid)
deriving DecidableEq

/-- Sleep addresses. Different objects have different addresses. -/
inductive Addr where
  | lock (l : Lock)
  | sem (n : ℕ)
  | cv (c : Cv)
  | other (n : ℕ)
deriving DecidableEq

/-- `&lbolt`. -/
def lbolt : Addr := .other 0

/-! ## Where threads are in their code -/

/-- Where a thread is while interrupts may be on: at a point of its own code, in `lock_release`
between the assertion and `splhigh`, or in `thread_fork` between `thread_create` and `splhigh`. -/
inductive Ctl (π : Type) where
  | client (p : π)
  | releasing (l : Lock) (p : π)
  | forking (new : Tid) (ok fail : π)

/-- What a thread does when it is switched to. The number is the interrupt level it restores. -/
inductive Kont (π : Type) where
  /-- The current thread. -/
  | run (c : Ctl π)
  /-- A new thread: `mi_threadstart`. -/
  | fresh (p : π)
  /-- In `thread_yield`, called by the thread or by the timer interrupt. -/
  | yielded (spl : ℕ) (c : Ctl π)
  /-- In a `thread_sleep` of its own. -/
  | slept (p : π)
  /-- In the `thread_sleep` of `lock_acquire`; with `cv`, a `lock_acquire` of `cv_wait`. -/
  | locking (l : Lock) (spl : ℕ) (cv : Option Cv) (p : π)
  /-- In the `thread_sleep` of `P`. -/
  | passing (n : ℕ) (spl : ℕ) (p : π)
  /-- In the `thread_sleep` of `cv_wait`. -/
  | waiting (c : Cv) (l : Lock) (spl : ℕ) (p : π)
  /-- A thread that has exited. -/
  | dead

/-! ## State -/

/-- The memory of a thread structure: not allocated yet, being set up by `thread_fork`, in use by a
thread, or freed. -/
inductive Life where
  | absent
  | embryo
  | thread
  | freed
deriving DecidableEq

/-- The fields of `struct thread` that system calls read and write. The table `child` has 20
slots. -/
structure Proc where
  parent : Option Tid
  child : ℕ → Option Tid
  exitcode : ℤ
  status : ℤ

/-- `struct thread`. For the lock and the two condition variables it says whether the pointer is
not null. -/
structure Thread (π : Type) where
  sleepaddr : Option Addr
  lk : Bool
  waitonexit : Bool
  waittoexit : Bool
  proc : Proc
  pid : ℤ
  life : Life
  kont : Kont π

/-- The global state except for the three containers of threads. -/
structure Core (π : Type) where
  curthread : Option Tid
  thread : Tid → Thread π
  own : Lock → Option Tid
  count : ℕ → ℤ
  curspl : ℕ
  numthreads : ℕ
  pidAssign : ℤ
  /-- The number of thread structures allocated so far. -/
  created : ℕ

/-- The global state, with the answers of the calls of `kmalloc` to come. -/
structure Kernel (π : Type) extends Core π where
  runqueue : KQueue Tid
  sleepers : KArray Tid
  zombies : KArray Tid
  nomem : List Bool

/-- Stretches of kernel code. -/
abbrev KM (π : Type) := Prog Errno (Kernel π)

variable {π : Type}

namespace Core

variable (k : Core π)

/-- Change the structure of `t`. -/
def setThread (t : Tid) (f : Thread π → Thread π) : Core π :=
  { k with thread := Function.update k.thread t (f (k.thread t)) }

theorem setThread_setThread (t : Tid) (f g : Thread π → Thread π) :
    (k.setThread t f).setThread t g = k.setThread t (g ∘ f) := by
  simp only [setThread, Function.update_self, Function.update_idem, Function.comp]

theorem setThread_thread (t : Tid) (f : Thread π → Thread π) (u : Tid) :
    (k.setThread t f).thread u = if u = t then f (k.thread u) else k.thread u := by
  by_cases hu : u = t
  · subst hu
    simp [setThread]
  · simp [setThread, hu]

/-- A part of the structures that the change does not touch. -/
theorem setThread_proj {β : Type} (g : Thread π → β) {t : Tid} {f : Thread π → Thread π}
    (hf : ∀ th, g (f th) = g th) (u : Tid) : g ((k.setThread t f).thread u) = g (k.thread u) := by
  rw [setThread_thread]
  split
  · exact hf _
  · rfl

/-- What `t` does next. -/
def setKont (t : Tid) (κ : Kont π) : Core π := k.setThread t fun th => { th with kont := κ }

section setKont

variable (t : Tid) (κ : Kont π) (u : Tid)

theorem setKont_kont :
    ((k.setKont t κ).thread u).kont = if u = t then κ else (k.thread u).kont := by
  rw [setKont, setThread_thread]
  split <;> rfl

@[simp]
theorem setKont_life : ((k.setKont t κ).thread u).life = (k.thread u).life :=
  k.setThread_proj (f := fun th => { th with kont := κ }) Thread.life (fun _ => rfl) u

@[simp]
theorem setKont_sleepaddr : ((k.setKont t κ).thread u).sleepaddr = (k.thread u).sleepaddr :=
  k.setThread_proj (f := fun th => { th with kont := κ }) Thread.sleepaddr (fun _ => rfl) u

@[simp]
theorem setKont_proc : ((k.setKont t κ).thread u).proc = (k.thread u).proc :=
  k.setThread_proj (f := fun th => { th with kont := κ }) Thread.proc (fun _ => rfl) u

@[simp]
theorem setKont_pid : ((k.setKont t κ).thread u).pid = (k.thread u).pid :=
  k.setThread_proj (f := fun th => { th with kont := κ }) Thread.pid (fun _ => rfl) u

end setKont

/-- The thread `t` goes on at `p`, at the interrupt level `spl`. -/
def goOn (t : Tid) (spl : ℕ) (p : π) : Core π :=
  { k.setKont t (.run (.client p)) with curspl := spl }

/-- Change the fields of system calls. -/
def setProc (f : (Tid → Proc) → Tid → Proc) : Core π :=
  { k with thread := fun t =>
    { k.thread t with proc := f (fun u => (k.thread u).proc) t } }

end Core

/-! ## Calls of other modules -/

/-- Change the global variables. -/
def modifyCore (f : Core π → Core π) : KM π Unit := modify fun k => { k with toCore := f k.toCore }

/-- A call of a queue function on the run queue. -/
def onRunqueue {β : Type} (m : QueueM Tid β) : KM π β :=
  zoom (fun k => ⟨k.runqueue, k.nomem⟩)
    (fun k (s : Alloc _) => { k with runqueue := s.obj, nomem := s.nomem }) m

/-- A call of an array function on `sleepers`. -/
def onSleepers {β : Type} (m : ArrayM Tid β) : KM π β :=
  zoom (fun k => ⟨k.sleepers, k.nomem⟩)
    (fun k (s : Alloc _) => { k with sleepers := s.obj, nomem := s.nomem }) m

/-- A call of an array function on `zombies`. -/
def onZombies {β : Type} (m : ArrayM Tid β) : KM π β :=
  zoom (fun k => ⟨k.zombies, k.nomem⟩)
    (fun k (s : Alloc _) => { k with zombies := s.obj, nomem := s.nomem }) m

/-- A call of `kmalloc`: whether it returns the null pointer. -/
def kmallocNull : KM π Bool := onRunqueue kmallocFails

/-- `curthread`, where the code uses the pointer. -/
def curThread : KM π Tid := do
  let k ← get
  match k.curthread with
  | some t => return t
  | none => halt "use of curthread while it is null"

/-- `assert(result==0)` after a call. -/
def assertOk (m : KM π Unit) : KM π Unit := do
  match ← attempt m with
  | .ok _ => return
  | .error _ => halt "Assertion failed: result==0"

/-! ## Interrupt level -/

/-- `splx`. -/
def splx (newspl : ℕ) : KM π ℕ := do
  let oldspl ← gets (·.curspl)
  modifyCore fun k => { k with curspl := newspl }
  return oldspl

/-- `splhigh`. -/
def splhigh : KM π ℕ := splx splHigh

/-- `assert(curspl>0)`. -/
def assertSpl : KM π Unit := do
  let k ← get
  require (k.curspl > 0) "Assertion failed: curspl>0"

/-! ## The scheduler (`scheduler.c`) -/

/-- `scheduler_preallocate`. -/
def schedulerPreallocate (nthreads : ℕ) : KM π Unit := do
  assertSpl
  onRunqueue (qPreallocate nthreads)

/-- `make_runnable`. -/
def makeRunnable (t : Tid) : KM π Unit := do
  assertSpl
  onRunqueue (qAddtail t)

/-- `scheduler`, once the run queue is not empty. -/
def scheduler : KM π Tid := do
  assertSpl
  onRunqueue qRemhead

/-! ## Creation -/

/-- An object with a name: the memory of the object, then that of the name. `lock_create` and
`cv_create` are the same code. -/
def namedCreate : KM π Bool := do
  if ← kmallocNull then
    return false
  else if ← kmallocNull then
    return false
  else
    return true

/-- `lock_create`: whether the pointer is not null. -/
def lockCreate : KM π Bool := namedCreate

/-- `cv_create`: whether the pointer is not null. -/
def cvCreate : KM π Bool := namedCreate

/-- `thread_create`. The pointers to the lock and the condition variables are not checked. -/
def threadCreate : KM π (Option Tid) := do
  if ← kmallocNull then
    return none
  else if ← kmallocNull then
    return none
  else
    let lk ← lockCreate
    let waitonexit ← cvCreate
    let waittoexit ← cvCreate
    let k ← get
    modifyCore fun k => { k with
      thread := Function.update k.thread k.created
        { sleepaddr := none
          lk := lk
          waitonexit := waitonexit
          waittoexit := waittoexit
          proc := ⟨k.curthread, fun _ => none, 100, 0⟩
          pid := k.pidAssign
          life := .embryo
          kont := .dead }
      pidAssign := s32 (k.pidAssign + 1)
      created := k.created + 1 }
    return some k.created

/-- Free the structure of a thread that has not been made. -/
def freeEmbryo (new : Tid) : KM π Unit :=
  modifyCore fun k => k.setThread new fun th => { th with life := .freed }

/-- The first half of `thread_fork`, up to the point where interrupts go off: the structure, the
stack, and the place where the new thread starts. -/
def threadForkCreate (start : π) : KM π (Option Tid) := do
  match ← threadCreate with
  | none => return none
  | some new =>
    if ← kmallocNull then
      freeEmbryo new
      return none
    else
      modifyCore fun k => k.setKont new (.fresh start)
      return some new

/-- The loop of `thread_fork` over the child table: the first free slot. -/
def freeSlot (child : ℕ → Option Tid) : Option ℕ := (List.range 20).find? fun i => (child i).isNone

/-- Enter `new` in the child table of `t`, if there is a free slot. -/
def Proc.addChild (p : Proc) (new : Tid) : Proc :=
  match freeSlot p.child with
  | some i => { p with child := Function.update p.child i (some new) }
  | none => p

/-- What the second half of `thread_fork` does to the global variables. -/
def Core.addThread (k : Core π) (t new : Tid) : Core π :=
  let k := { k with numthreads := k.numthreads + 1 }
  let k := k.setThread new fun th => { th with
    life := .thread, proc := { th.proc with parent := some t } }
  k.setThread t fun th => { th with proc := th.proc.addChild new }

section addThread

variable (k : Core π) (t new u : Tid)

/-- A part of the structures that a fork does not touch. -/
theorem Core.addThread_proj {β : Type} (g : Thread π → β)
    (hlife : ∀ th : Thread π, g { th with
      life := .thread, proc := { th.proc with parent := some t } } = g th)
    (hproc : ∀ th : Thread π, g { th with proc := th.proc.addChild new } = g th) :
    g ((k.addThread t new).thread u) = g (k.thread u) := by
  refine (Core.setThread_proj _ g hproc u).trans ?_
  exact Core.setThread_proj { k with numthreads := k.numthreads + 1 } g hlife u

@[simp]
theorem Core.addThread_kont : ((k.addThread t new).thread u).kont = (k.thread u).kont :=
  k.addThread_proj t new u Thread.kont (fun _ => rfl) fun _ => rfl

@[simp]
theorem Core.addThread_sleepaddr :
    ((k.addThread t new).thread u).sleepaddr = (k.thread u).sleepaddr :=
  k.addThread_proj t new u Thread.sleepaddr (fun _ => rfl) fun _ => rfl

@[simp]
theorem Core.addThread_pid : ((k.addThread t new).thread u).pid = (k.thread u).pid :=
  k.addThread_proj t new u Thread.pid (fun _ => rfl) fun _ => rfl

theorem Core.addThread_life :
    ((k.addThread t new).thread u).life = if u = new then .thread else (k.thread u).life := by
  refine (Core.setThread_proj _ (f := fun th => { th with proc := th.proc.addChild new })
    Thread.life (fun _ => rfl) u).trans ?_
  rw [Core.setThread_thread]
  split <;> rfl

end addThread

/-- The second half of `thread_fork`: whether it succeeded. -/
def threadForkCommit (new : Tid) : KM π Bool := do
  let t ← curThread
  let s ← splhigh
  let result ← attempt do
    let numthreads ← gets (·.numthreads)
    onSleepers (arrayPreallocate (numthreads + 1))
    onZombies (arrayPreallocate (numthreads + 1))
    schedulerPreallocate (numthreads + 1)
    makeRunnable new
  match result with
  | .ok _ =>
    modifyCore fun k => k.addThread t new
    let _ ← splx s
    return true
  | .error _ =>
    let _ ← splx s
    freeEmbryo new
    return false

/-! ## Destruction -/

/-- `thread_destroy`. -/
def threadDestroy (z : Tid) : KM π Unit := do
  let k ← get
  require (k.curthread ≠ some z) "Assertion failed: thread != curthread"
  require ((k.thread z).waitonexit = true) "Assertion failed: cv != NULL"
  require ((k.thread z).waittoexit = true) "Assertion failed: cv != NULL"
  require ((k.thread z).lk = true) "Assertion failed: lock != NULL"
  modifyCore fun k => k.setThread z fun th => { th with life := .freed }

/-- One pass of the loop of `exorcise`. -/
def exorciseOne (i : ℕ) : KM π Unit := do
  let z ← onZombies (arrayGetguy i)
  let k ← get
  require (k.curthread ≠ some z) "Assertion failed: z!=curthread"
  threadDestroy z

/-- `exorcise`. -/
def exorcise : KM π Unit := do
  assertSpl
  let k ← get
  forRange exorciseOne k.zombies.num 0
  assertOk (onZombies (arraySetsize 0))

/-! ## Switching -/

/-- `threadstate_t`, without `S_RUN`. -/
inductive NextState where
  | ready
  | sleep
  | zomb

/-- `mi_switch` up to the call of the scheduler, which does nothing while no thread is current. -/
def miSwitch (nextstate : NextState) : KM π Unit := do
  assertSpl
  let k ← get
  match k.curthread with
  | none => return
  | some cur =>
    modifyCore fun k => { k with curthread := none }
    assertOk (match nextstate with
      | .ready => makeRunnable cur
      | .sleep => onSleepers (arrayAdd cur)
      | .zomb => onZombies (arrayAdd cur))

/-- `thread_exit`. -/
def threadExit : KM π Unit := do
  let t ← curThread
  let _ ← splhigh
  let k ← get
  require (k.numthreads > 0) "Assertion failed: numthreads>0"
  modifyCore fun k => { k.setKont t .dead with numthreads := k.numthreads - 1 }
  miSwitch .zomb

/-- `thread_yield` up to the switch; the thread goes on at `c`. -/
def threadYield (c : Ctl π) : KM π Unit := do
  let t ← curThread
  let spl ← splhigh
  modifyCore fun k => k.setKont t (.yielded spl c)
  miSwitch .ready

/-- `thread_sleep` up to the switch. -/
def threadSleep (addr : Addr) (κ : Kont π) : KM π Unit := do
  let t ← curThread
  modifyCore fun k => k.setThread t fun th => { th with sleepaddr := some addr, kont := κ }
  miSwitch .sleep

/-- The loop of `thread_wakeup` from index `i` on. Each pass removes a sleeper or goes on to the
next index, so that the number of sleepers bounds the number of passes. -/
def wakeupLoop (addr : Addr) : (fuel i : ℕ) → KM π Unit
  | 0, _ => return
  | fuel + 1, i => do
    let k ← get
    if i < k.sleepers.num then
      let t ← onSleepers (arrayGetguy i)
      if (k.thread t).sleepaddr = some addr then
        onSleepers (arrayRemove i)
        assertOk (makeRunnable t)
        wakeupLoop addr fuel i
      else
        wakeupLoop addr fuel (i + 1)

/-- `thread_wakeup`. -/
def threadWakeup (addr : Addr) : KM π Unit := do
  assertSpl
  let k ← get
  wakeupLoop addr k.sleepers.num 0

/-- The loop of `thread_wakeone` from index `i` on: the thread it wakes up. -/
def wakeoneLoop (addr : Addr) : (fuel i : ℕ) → KM π (Option Tid)
  | 0, _ => return none
  | fuel + 1, i => do
    let k ← get
    if i < k.sleepers.num then
      let t ← onSleepers (arrayGetguy i)
      if (k.thread t).sleepaddr = some addr then
        onSleepers (arrayRemove i)
        assertOk (makeRunnable t)
        return some t
      else
        wakeoneLoop addr fuel (i + 1)
    else
      return none

/-- `thread_wakeone`. -/
def threadWakeone (addr : Addr) : KM π (Option Tid) := do
  assertSpl
  let k ← get
  wakeoneLoop addr k.sleepers.num 0

/-! ## Boot -/

/-- The state before boot: all variables are zero, interrupts are off. The counts are those with
which semaphores will be created. -/
def blank (count : ℕ → ℤ) (nomem : List Bool) : Kernel π where
  curthread := none
  thread := fun _ =>
    { sleepaddr := none
      lk := false
      waitonexit := false
      waittoexit := false
      proc := ⟨none, fun _ => none, 0, 0⟩
      pid := 0
      life := .absent
      kont := .dead }
  own := fun _ => none
  count := count
  curspl := splHigh
  numthreads := 0
  pidAssign := 0
  created := 0
  runqueue := ⟨0, 0, 0, fun _ => 0⟩
  sleepers := ⟨0, 0, fun _ => 0⟩
  zombies := ⟨0, 0, fun _ => 0⟩
  nomem := nomem

/-- A panic when `kmalloc` returns the null pointer. -/
def kmallocOrPanic (msg : String) : KM π Unit := do
  if ← kmallocNull then
    halt msg

/-- `scheduler_bootstrap`, with `q_create(32)`. -/
def schedulerBootstrap : KM π Unit := do
  kmallocOrPanic "scheduler: Could not create run queue"
  kmallocOrPanic "scheduler: Could not create run queue"
  modify fun k => { k with runqueue := ⟨32, 0, 0, fun _ => 0⟩ }

/-- `thread_bootstrap`. The first thread goes on at `p`. -/
def threadBootstrap (p : π) : KM π Unit := do
  kmallocOrPanic "Cannot create sleepers array"
  kmallocOrPanic "Cannot create zombies array"
  match ← threadCreate with
  | none => halt "thread_bootstrap: Out of memory"
  | some me =>
    modifyCore fun k => { k.setThread me fun th => { th with
        life := .thread, kont := .run (.client p) } with
      curthread := some me
      numthreads := 1
      pidAssign := 0 }

/-- The part of `boot` (`main.c`) that starts the thread system. -/
def bootstrap (p : π) : KM π Unit := do
  schedulerBootstrap
  threadBootstrap p

end Os161.Threads
