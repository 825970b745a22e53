import Mathlib.Tactic
import Os161.Thread.Clients

/-!
# The system calls of processes (`kern/arch/mips/mips/syscall.c`)

`sys_getpid`, `sys_waitpid`, `sys__exit` and `sys_fork` as code of threads: a `Point` for every
place between two operations of the thread system, and `code`, which says what a thread does there.
Each process has a lock, two condition variables and a table of 20 children; a parent locks itself
and then one child after the other.

A thread outside these calls may do anything to objects that do not belong to a thread structure
(`Other`). Kernel threads make more threads and end by returning from their function; a thread that
runs `cmd_progthread` (`kern/main/menu.c`) becomes a process. What `sys_fork` does with memory is in
`Os161.Vm.Processes`.
-/

namespace Os161.Process

open Threads

/-! ## Points -/

/-- Where a thread is in its code. `i` is the index of the loop over the child table. -/
inductive Point where
  /-- The function of a kernel thread. -/
  | kernel
  /-- `cmd_progthread`, before it enters user mode. -/
  | progthread
  | user
  /-- Back in `mips_syscall`, with the result of the handler and `retval`. -/
  | back (err retval : ℤ)
  | getpidAcquire
  | getpidRead
  | waitAcquire (pid : ℤ)
  | waitLoop (pid : ℤ) (i : ℕ)
  /-- The child is locked. -/
  | waitTest (pid : ℤ) (i : ℕ)
  /-- The assertion after `cv_wait`, and reading the exit code. -/
  | waitCollect (pid : ℤ) (i : ℕ)
  | waitSignal (pid : ℤ) (i : ℕ)
  | waitRelease (pid : ℤ) (i : ℕ)
  | waitClear (pid : ℤ) (i : ℕ)
  | waitEnd (pid : ℤ)
  | exitAcquire (exitcode : ℤ)
  | exitLoop (exitcode : ℤ) (i : ℕ)
  | exitTest (exitcode : ℤ) (i : ℕ)
  | exitRelease (exitcode : ℤ) (i : ℕ)
  | exitSignal
  | exitWait
  | exitUnlock
  | exitThread
  | forkCall
  | forkParent (new : Tid)
  | forkEnd (err retval : ℤ)
deriving DecidableEq

/-- Outside system calls. -/
def Point.idle : Point → Bool
  | kernel => true
  | progthread => true
  | user => true
  | _ => false

/-! ## Code -/

/-- Operations on objects that do not belong to a thread structure. -/
inductive Other where
  | splx (spl : ℕ)
  | yield
  | sleep (n : ℕ)
  | wakeup (n : ℕ)
  | wakeone (n : ℕ)
  | acquire (l : ℕ)
  | release (l : ℕ)
  | wait (c l : ℕ)
  | signal (c l : ℕ)
  | broadcast (c l : ℕ)
  | p (n : ℕ)
  | v (n : ℕ)

/-- The operation, after which the thread is where it was. -/
def Other.op (next : Point) : Other → Op Point
  | splx spl => .splx spl next
  | yield => .yield next
  | sleep n => .sleep n next
  | wakeup n => .wakeup n next
  | wakeone n => .wakeone n next
  | acquire l => .acquire (.obj l) next
  | release l => .release (.obj l) next
  | wait c l => .wait (.obj c) (.obj l) next
  | signal c l => .signal (.obj c) (.obj l) next
  | broadcast c l => .broadcast (.obj c) (.obj l) next
  | p n => .p n next
  | v n => .v n next

/-- What a thread may want outside system calls. -/
inductive Request where
  | getpid
  | waitpid (a0 : ℤ) (a1 a2 : ℕ)
  | exit (exitcode : ℤ)
  | fork
  /-- A kernel thread makes another one, or one that runs a program. -/
  | thread
  | program
  /-- `runprogram` enters user mode. -/
  | enter
  /-- The function of the thread returns. -/
  | finish
  | other (o : Other)

/-- The first operation of what is wanted. System calls are made with interrupts on. -/
def request (spl : ℕ) (t : Tid) : Request → Point → Option (Op Point)
  | .getpid, .user => if spl = 0 then some (.splx 0 .getpidAcquire) else none
  | .waitpid a0 a1 a2, .user =>
    if spl ≠ 0 then none
    else if a2 ≠ 0 then some (.splx 0 (.back Errno.EINVAL.code 0))
    else if a1 = 0 then some (.splx 0 (.back Errno.EFAULT.code 0))
    else some (.splx 0 (.waitAcquire a0))
  | .exit exitcode, .user =>
    if spl = 0 then some (.write id [.exits t exitcode] (.exitAcquire exitcode)) else none
  | .fork, .user => if spl = 0 then some (.splx splHigh .forkCall) else none
  | .thread, .kernel => some (.fork .kernel (fun _ => .kernel) .kernel)
  | .program, .kernel => some (.fork .progthread (fun _ => .kernel) .kernel)
  | .enter, .progthread => some (.splx 0 .user)
  | .finish, .kernel => some .exit
  | .finish, .progthread => some .exit
  | .other o, p => if p.idle then some (o.op p) else none
  | _, _ => none

/-- Change the fields of one thread. -/
def setProc (u : Tid) (f : Proc → Proc) (proc : Tid → Proc) : Tid → Proc :=
  Function.update proc u (f (proc u))

/-- `curthread->child[i] = NULL`. -/
def clearChild (t : Tid) (i : ℕ) : (Tid → Proc) → Tid → Proc :=
  setProc t fun p => { p with child := Function.update p.child i none }

/-- `parent = p` in the structure of `c`. -/
def setParent (c : Tid) (p : Option Tid) : (Tid → Proc) → Tid → Proc :=
  setProc c fun q => { q with parent := p }

/-- `exitcode` and `status` of a thread that exits. -/
def setExit (t : Tid) (exitcode : ℤ) : (Tid → Proc) → Tid → Proc :=
  setProc t fun p => { p with exitcode := exitcode, status := -1 }

/-- What the thread `t` does in a system call. There is nothing it can do where it follows a null
pointer or an assertion fails. -/
def code (proc : Tid → Proc) (pid : Tid → ℤ) (spl : ℕ) (t : Tid) : Point → Option (Op Point)
  | .back _ _ => some (.splx spl .user)
  -- `sys_getpid`
  | .getpidAcquire => some (.acquire (.lk t) .getpidRead)
  | .getpidRead => some (.release (.lk t) (.back (pid t) 0))
  -- `sys_waitpid`
  | .waitAcquire a0 => some (.acquire (.lk t) (.waitLoop a0 0))
  | .waitLoop a0 i =>
    if i < 20 then do
      let c ← (proc t).child i
      some (.acquire (.lk c) (.waitTest a0 i))
    else
      some (.release (.lk t) (.back 0 a0))
  | .waitTest a0 i => do
    let c ← (proc t).child i
    if pid c = a0 then
      if (proc c).status = 0 then
        some (.wait (.waitonexit c) (.lk c) (.waitCollect a0 i))
      else
        some (.splx spl (.waitCollect a0 i))
    else
      some (.release (.lk c) (.waitLoop a0 (i + 1)))
  | .waitCollect a0 i => do
    let c ← (proc t).child i
    if (proc c).status = -1 then
      some (.write id [.collects t c (proc c).exitcode] (.waitSignal a0 i))
    else
      none
  | .waitSignal a0 i => do
    let c ← (proc t).child i
    some (.signal (.waittoexit c) (.lk c) (.waitRelease a0 i))
  | .waitRelease a0 i => do
    let c ← (proc t).child i
    some (.release (.lk c) (.waitClear a0 i))
  | .waitClear a0 i => some (.write (clearChild t i) [] (.waitEnd a0))
  | .waitEnd a0 => some (.release (.lk t) (.back 0 a0))
  -- `sys__exit`
  | .exitAcquire exitcode => some (.acquire (.lk t) (.exitLoop exitcode 0))
  | .exitLoop exitcode i =>
    if i < 20 then
      match (proc t).child i with
      | none => some (.splx spl (.exitLoop exitcode (i + 1)))
      | some c => some (.acquire (.lk c) (.exitTest exitcode i))
    else if (proc t).parent ≠ none then
      some (.write (setExit t exitcode) [] .exitSignal)
    else
      some (.release (.lk t) .exitThread)
  | .exitTest exitcode i => do
    let c ← (proc t).child i
    if (proc c).status ≠ 0 then
      some (.signal (.waittoexit c) (.lk c) (.exitRelease exitcode i))
    else
      some (.write (setParent c none) [] (.exitRelease exitcode i))
  | .exitRelease exitcode i => do
    let c ← (proc t).child i
    some (.release (.lk c) (.exitLoop exitcode (i + 1)))
  | .exitSignal => some (.signal (.waitonexit t) (.lk t) .exitWait)
  | .exitWait => some (.wait (.waittoexit t) (.lk t) .exitUnlock)
  | .exitUnlock => some (.release (.lk t) .exitThread)
  | .exitThread => some .exit
  -- `sys_fork`
  | .forkCall => some (.fork .user .forkParent (.forkEnd Errno.ENOMEM.code Errno.ENOMEM.code))
  | .forkParent new => some (.write (setParent new (some t)) [] (.forkEnd 0 0))
  | .forkEnd err retval => some (.splx 0 (.back err retval))
  | _ => none

/-- The code of all threads. With `ends` kernel threads may return from their function. -/
def procClient (ends : Bool) : Client Point := fun proc pid spl t p o =>
  code proc pid spl t p = some o ∨
    ∃ r, (r = .finish → ends = true) ∧ request spl t r p = some o

/-! ## What threads do

The same code as two relations, one for the operations that only lead to another point and one for
the others, so that a proof can go through the cases. -/

section Moves

variable (proc : Tid → Proc) (pid : Tid → ℤ) (t : Tid)

/-- From one point to another. -/
inductive PlainMove : Point → Point → Prop where
  | idle {p : Point} (hidle : p.idle = true) : PlainMove p p
  | enter : PlainMove .progthread .user
  | getpid : PlainMove .user .getpidAcquire
  | waitpid {a0 : ℤ} : PlainMove .user (.waitAcquire a0)
  | badWait {err : ℤ} : PlainMove .user (.back err 0)
  | fork : PlainMove .user .forkCall
  | forkEnd {err retval : ℤ} : PlainMove (.forkEnd err retval) (.back err retval)
  | back {err retval : ℤ} : PlainMove (.back err retval) .user
  | exited {a0 : ℤ} {i : ℕ} {c : Tid} (hchild : (proc t).child i = some c) (hpid : pid c = a0)
      (hstatus : (proc c).status ≠ 0) : PlainMove (.waitTest a0 i) (.waitCollect a0 i)
  | skip {exitcode : ℤ} {i : ℕ} (hi : i < 20) (hchild : (proc t).child i = none) :
      PlainMove (.exitLoop exitcode i) (.exitLoop exitcode (i + 1))

/-- Operations that do more. -/
inductive Move (ends : Bool) : Point → Op Point → Prop where
  | acquireOther {p : Point} {l : ℕ} (hidle : p.idle = true) : Move ends p (.acquire (.obj l) p)
  | releaseOther {p : Point} {l : ℕ} (hidle : p.idle = true) : Move ends p (.release (.obj l) p)
  | waitOther {p : Point} {c l : ℕ} (hidle : p.idle = true) : Move ends p (.wait (.obj c) (.obj l) p)
  | signalOther {p : Point} {c l : ℕ} (hidle : p.idle = true) :
      Move ends p (.signal (.obj c) (.obj l) p)
  | broadcastOther {p : Point} {c l : ℕ} (hidle : p.idle = true) :
      Move ends p (.broadcast (.obj c) (.obj l) p)
  | thread : Move ends .kernel (.fork .kernel (fun _ => .kernel) .kernel)
  | program : Move ends .kernel (.fork .progthread (fun _ => .kernel) .kernel)
  | finish (hends : ends = true) : Move ends .kernel .exit
  | progFails (hends : ends = true) : Move ends .progthread .exit
  | getpidAcquire : Move ends .getpidAcquire (.acquire (.lk t) .getpidRead)
  | getpidRead : Move ends .getpidRead (.release (.lk t) (.back (pid t) 0))
  | waitAcquire {a0 : ℤ} : Move ends (.waitAcquire a0) (.acquire (.lk t) (.waitLoop a0 0))
  | waitChild {a0 : ℤ} {i : ℕ} {c : Tid} (hi : i < 20) (hchild : (proc t).child i = some c) :
      Move ends (.waitLoop a0 i) (.acquire (.lk c) (.waitTest a0 i))
  | waitNone {a0 : ℤ} {i : ℕ} (hi : ¬ i < 20) :
      Move ends (.waitLoop a0 i) (.release (.lk t) (.back 0 a0))
  | waitWait {a0 : ℤ} {i : ℕ} {c : Tid} (hchild : (proc t).child i = some c) (hpid : pid c = a0)
      (hstatus : (proc c).status = 0) :
      Move ends (.waitTest a0 i) (.wait (.waitonexit c) (.lk c) (.waitCollect a0 i))
  | waitNext {a0 : ℤ} {i : ℕ} {c : Tid} (hchild : (proc t).child i = some c) (hpid : pid c ≠ a0) :
      Move ends (.waitTest a0 i) (.release (.lk c) (.waitLoop a0 (i + 1)))
  | waitCollect {a0 : ℤ} {i : ℕ} {c : Tid} (hchild : (proc t).child i = some c)
      (hstatus : (proc c).status = -1) :
      Move ends (.waitCollect a0 i)
        (.write id [.collects t c (proc c).exitcode] (.waitSignal a0 i))
  | waitSignal {a0 : ℤ} {i : ℕ} {c : Tid} (hchild : (proc t).child i = some c) :
      Move ends (.waitSignal a0 i) (.signal (.waittoexit c) (.lk c) (.waitRelease a0 i))
  | waitRelease {a0 : ℤ} {i : ℕ} {c : Tid} (hchild : (proc t).child i = some c) :
      Move ends (.waitRelease a0 i) (.release (.lk c) (.waitClear a0 i))
  | waitClear {a0 : ℤ} {i : ℕ} : Move ends (.waitClear a0 i) (.write (clearChild t i) [] (.waitEnd a0))
  | waitEnd {a0 : ℤ} : Move ends (.waitEnd a0) (.release (.lk t) (.back 0 a0))
  | exit {exitcode : ℤ} :
      Move ends .user (.write id [.exits t exitcode] (.exitAcquire exitcode))
  | exitAcquire {exitcode : ℤ} :
      Move ends (.exitAcquire exitcode) (.acquire (.lk t) (.exitLoop exitcode 0))
  | exitChild {exitcode : ℤ} {i : ℕ} {c : Tid} (hi : i < 20) (hchild : (proc t).child i = some c) :
      Move ends (.exitLoop exitcode i) (.acquire (.lk c) (.exitTest exitcode i))
  | exitStatus {exitcode : ℤ} {i : ℕ} (hi : ¬ i < 20) (hparent : (proc t).parent ≠ none) :
      Move ends (.exitLoop exitcode i) (.write (setExit t exitcode) [] .exitSignal)
  | exitFree {exitcode : ℤ} {i : ℕ} (hi : ¬ i < 20) (hparent : (proc t).parent = none) :
      Move ends (.exitLoop exitcode i) (.release (.lk t) .exitThread)
  | exitLetGo {exitcode : ℤ} {i : ℕ} {c : Tid} (hchild : (proc t).child i = some c)
      (hstatus : (proc c).status ≠ 0) :
      Move ends (.exitTest exitcode i) (.signal (.waittoexit c) (.lk c) (.exitRelease exitcode i))
  | exitOrphan {exitcode : ℤ} {i : ℕ} {c : Tid} (hchild : (proc t).child i = some c)
      (hstatus : (proc c).status = 0) :
      Move ends (.exitTest exitcode i) (.write (setParent c none) [] (.exitRelease exitcode i))
  | exitRelease {exitcode : ℤ} {i : ℕ} {c : Tid} (hchild : (proc t).child i = some c) :
      Move ends (.exitRelease exitcode i) (.release (.lk c) (.exitLoop exitcode (i + 1)))
  | exitSignal : Move ends .exitSignal (.signal (.waitonexit t) (.lk t) .exitWait)
  | exitWait : Move ends .exitWait (.wait (.waittoexit t) (.lk t) .exitUnlock)
  | exitUnlock : Move ends .exitUnlock (.release (.lk t) .exitThread)
  | exitThread : Move ends .exitThread .exit
  | forkCall : Move ends .forkCall
      (.fork .user .forkParent (.forkEnd Errno.ENOMEM.code Errno.ENOMEM.code))
  | forkParent {new : Tid} :
      Move ends (.forkParent new) (.write (setParent new (some t)) [] (.forkEnd 0 0))

end Moves

variable {proc : Tid → Proc} {pid : Tid → ℤ} {spl : ℕ} {t : Tid} {p next : Point} {o : Op Point}
  {ends : Bool}

/-- What the code of a system call does. -/
theorem code_cases (h : code proc pid spl t p = some o) :
    (∃ next, o.Plain next ∧ PlainMove proc pid t p next) ∨ Move proc pid t ends p o := by
  cases p with
  | waitLoop a0 i =>
    simp only [code] at h
    split at h
    case isTrue hi =>
      obtain ⟨c, hchild, ho⟩ := Option.bind_eq_some_iff.mp h
      cases ho
      exact .inr (.waitChild hi hchild)
    case isFalse hi =>
      cases h
      exact .inr (.waitNone hi)
  | waitTest a0 i =>
    obtain ⟨c, hchild, h⟩ := Option.bind_eq_some_iff.mp h
    split at h
    case isTrue hpid =>
      split at h
      case isTrue hstatus =>
        cases h
        exact .inr (.waitWait hchild hpid hstatus)
      case isFalse hstatus =>
        cases h
        exact .inl ⟨_, .splx, .exited hchild hpid hstatus⟩
    case isFalse hpid =>
      cases h
      exact .inr (.waitNext hchild hpid)
  | waitCollect a0 i =>
    obtain ⟨c, hchild, h⟩ := Option.bind_eq_some_iff.mp h
    split at h
    case isTrue hstatus =>
      cases h
      exact .inr (.waitCollect hchild hstatus)
    case isFalse => cases h
  | waitSignal a0 i =>
    obtain ⟨c, hchild, ho⟩ := Option.bind_eq_some_iff.mp h
    cases ho
    exact .inr (.waitSignal hchild)
  | waitRelease a0 i =>
    obtain ⟨c, hchild, ho⟩ := Option.bind_eq_some_iff.mp h
    cases ho
    exact .inr (.waitRelease hchild)
  | exitLoop exitcode i =>
    simp only [code] at h
    split at h
    case isTrue hi =>
      split at h
      case h_1 hchild =>
        cases h
        exact .inl ⟨_, .splx, .skip hi hchild⟩
      case h_2 c hchild =>
        cases h
        exact .inr (.exitChild hi hchild)
    case isFalse hi =>
      split at h
      case isTrue hparent =>
        cases h
        exact .inr (.exitStatus hi hparent)
      case isFalse hparent =>
        cases h
        exact .inr (.exitFree hi (not_not.mp hparent))
  | exitTest exitcode i =>
    obtain ⟨c, hchild, h⟩ := Option.bind_eq_some_iff.mp h
    split at h
    case isTrue hstatus =>
      cases h
      exact .inr (.exitLetGo hchild hstatus)
    case isFalse hstatus =>
      cases h
      exact .inr (.exitOrphan hchild (not_not.mp hstatus))
  | exitRelease exitcode i =>
    obtain ⟨c, hchild, ho⟩ := Option.bind_eq_some_iff.mp h
    cases ho
    exact .inr (.exitRelease hchild)
  | back err retval =>
    cases h
    exact .inl ⟨_, .splx, .back⟩
  | forkEnd err retval =>
    cases h
    exact .inl ⟨_, .splx, .forkEnd⟩
  | kernel => cases h
  | progthread => cases h
  | user => cases h
  | _ =>
    cases h
    exact .inr (by constructor)

/-- What the operations on other objects do. -/
theorem other_cases (hidle : p.idle = true) (o : Other) :
    (∃ next, (o.op p).Plain next ∧ PlainMove proc pid t p next) ∨ Move proc pid t ends p (o.op p) := by
  cases o with
  | acquire l => exact .inr (.acquireOther hidle)
  | release l => exact .inr (.releaseOther hidle)
  | wait c l => exact .inr (.waitOther hidle)
  | signal c l => exact .inr (.signalOther hidle)
  | broadcast c l => exact .inr (.broadcastOther hidle)
  | _ => exact .inl ⟨p, by constructor, .idle hidle⟩

/-- What a thread does outside system calls. -/
theorem request_cases {r : Request} (hends : r = .finish → ends = true)
    (h : request spl t r p = some o) :
    (∃ next, o.Plain next ∧ PlainMove proc pid t p next) ∨ Move proc pid t ends p o := by
  unfold request at h
  split at h
  case h_1 =>
    split at h
    case isTrue =>
      cases h
      exact .inl ⟨_, .splx, .getpid⟩
    case isFalse => cases h
  case h_2 =>
    split at h
    case isTrue => cases h
    split at h
    case isTrue =>
      cases h
      exact .inl ⟨_, .splx, .badWait⟩
    split at h
    case isTrue =>
      cases h
      exact .inl ⟨_, .splx, .badWait⟩
    case isFalse =>
      cases h
      exact .inl ⟨_, .splx, .waitpid⟩
  case h_3 =>
    split at h
    case isTrue =>
      cases h
      exact .inr .exit
    case isFalse => cases h
  case h_4 =>
    split at h
    case isTrue =>
      cases h
      exact .inl ⟨_, .splx, .fork⟩
    case isFalse => cases h
  case h_5 =>
    cases h
    exact .inr .thread
  case h_6 =>
    cases h
    exact .inr .program
  case h_7 =>
    cases h
    exact .inl ⟨_, .splx, .enter⟩
  case h_8 =>
    cases h
    exact .inr (.finish (hends rfl))
  case h_9 =>
    cases h
    exact .inr (.progFails (hends rfl))
  case h_10 o' =>
    split at h
    case isTrue hidle =>
      cases h
      exact other_cases hidle o'
    case isFalse => cases h
  case h_11 => cases h

/-- What a thread does. -/
theorem client_cases (h : procClient ends proc pid spl t p o) :
    (∃ next, o.Plain next ∧ PlainMove proc pid t p next) ∨ Move proc pid t ends p o := by
  rcases h with h | ⟨r, hends, h⟩
  · exact code_cases h
  · exact request_cases hends h

theorem PlainMove.of_client (h : procClient ends proc pid spl t p o) (ho : o.Plain next) :
    PlainMove proc pid t p next := by
  rcases client_cases h with ⟨next', ho', hmove⟩ | hmove
  · have heq : next = next' := by
      cases ho <;> cases ho' <;> rfl
    exact heq ▸ hmove
  · cases ho <;> cases hmove

theorem Move.of_client (h : procClient ends proc pid spl t p o) (ho : ∀ next, ¬ o.Plain next) :
    Move proc pid t ends p o := by
  rcases client_cases h with ⟨next, ho', -⟩ | hmove
  · exact absurd ho' (ho next)
  · exact hmove

/-! ## Schedules -/

/-- What is next on the processor. -/
inductive Cue where
  /-- The current thread goes on in a system call, or asks for something outside. -/
  | go
  | ask (r : Request)
  | proceed
  | timer
  | schedule

/-- The current thread and the point where it is. -/
def current (k : Core Point) : Option (Tid × Point) :=
  match k.curthread with
  | none => none
  | some t =>
    match (k.thread t).kont with
    | .run (.client p) => some (t, p)
    | _ => none

/-- The function of a kernel thread returns. -/
def Request.isFinish : Request → Bool
  | .finish => true
  | _ => false

/-- The step that a cue stands for, where it is possible. -/
def Cue.choice (ends : Bool) (k : Core Point) : Cue → Option (Choice Point)
  | .go => do
    let (t, p) ← current k
    let o ← code (fun u => (k.thread u).proc) (fun u => (k.thread u).pid) k.curspl t p
    some (.op o)
  | .ask r => do
    let (t, p) ← current k
    let o ← (if r.isFinish = true ∧ ends = false then none else request k.curspl t r p)
    some (.op o)
  | .proceed => if k.curthread ≠ none then some .proceed else none
  | .timer => if k.curthread = none ∨ k.curspl = 0 then some (.timer false) else none
  | .schedule => if k.curthread = none then some .schedule else none

/-- Follow a schedule. -/
def perform (ends : Bool) : List Cue → Kernel Point → Outcome Errno (Kernel Point) (List Event)
  | [], k => .ok [] k
  | cue :: cues, k =>
    match cue.choice ends k.toCore with
    | none => .halted "not enabled"
    | some c =>
      match step c k with
      | .ok es k' =>
        match perform ends cues k' with
        | .ok tr k'' => .ok (es ++ tr) k''
        | o => o
      | o => o

/-- A machine after boot, with memory for everything. -/
def bootedKernel : Kernel Point :=
  (bootstrap .kernel (blank (fun _ => 0) [])).stateD (blank (fun _ => 0) [])

def reported (ends : Bool) (cues : List Cue) : List Event :=
  (perform ends cues bootedKernel).valueD []

end Os161.Process
