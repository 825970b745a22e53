import Mathlib.Tactic
import Os161.Syscall.Process

/-!
# Parents, children and their locks

A thread locks itself, and then the child whose slot it looks at (`Point.Holds`). From this follows
that the locks of thread structures form no cycle, whoever calls what when: a thread that owns a lock
and is blocked on another one owns its own lock only and is blocked on that of a child, and a child
is younger than its parent. The tables of children and the places of the threads in their code are
all that `Locks`, the invariant, speaks of.
-/

namespace Os161.Process

open Threads

/-! ## Points and locks -/

/-- The thread has its own lock. -/
def Point.selfLocked : Point → Bool
  | getpidRead => true
  | waitLoop _ _ => true
  | waitTest _ _ => true
  | waitCollect _ _ => true
  | waitSignal _ _ => true
  | waitRelease _ _ => true
  | waitClear _ _ => true
  | waitEnd _ => true
  | exitLoop _ _ => true
  | exitTest _ _ => true
  | exitRelease _ _ => true
  | exitSignal => true
  | exitWait => true
  | exitUnlock => true
  | _ => false

/-- The slot of the child whose lock the thread has. -/
def Point.slot : Point → Option ℕ
  | waitTest _ i => some i
  | waitCollect _ i => some i
  | waitSignal _ i => some i
  | waitRelease _ i => some i
  | exitTest _ i => some i
  | exitRelease _ i => some i
  | _ => none

variable {t u c : Tid} {tbl : ℕ → Option Tid} {p next : Point} {l : Lock} {cv : Cv}

/-- The thread `t`, with the table `tbl`, has the lock of `c` at this point. -/
def Point.Holds (p : Point) (t : Tid) (tbl : ℕ → Option Tid) (c : Tid) : Prop :=
  c = t ∧ p.selfLocked = true ∨ ∃ i, p.slot = some i ∧ tbl i = some c

/-- The thread `t` has the lock of `c`. -/
def Holds (t : Tid) (tbl : ℕ → Option Tid) (c : Tid) : Stage Point → Prop
  | .client p => p.Holds t tbl c
  | .releasing l p => l = .lk c ∨ p.Holds t tbl c
  | .locking l _ p => p.Holds t tbl c ∧ l ≠ .lk c
  | .waiting _ l p => p.Holds t tbl c ∧ l ≠ .lk c
  | .forking _ _ _ => False
  | .dead => False

theorem Point.not_holds (hself : p.selfLocked = false) (hslot : p.slot = none) (c : Tid) :
    ¬ p.Holds t tbl c := by
  simp [Holds, hself, hslot]

theorem Point.not_holds_of_idle (hidle : p.idle = true) (c : Tid) : ¬ p.Holds t tbl c := by
  cases p with
  | kernel => exact not_holds rfl rfl c
  | progthread => exact not_holds rfl rfl c
  | user => exact not_holds rfl rfl c
  | _ => cases hidle

/-- The thread goes for the lock `l` and will be at `p` with it: then it has `l`, and if it has the
lock of a child there that is `l`. -/
structure Wants (t : Tid) (tbl : ℕ → Option Tid) (l : Lock) (p : Point) : Prop where
  gets : ∀ c, l = .lk c → p.Holds t tbl c
  child : ∀ i c, p.slot = some i → tbl i = some c → l = .lk c

/-- A thread outside system calls goes for a lock that does not belong to a thread structure. -/
theorem Wants.other (hidle : p.idle = true) (n : ℕ) : Wants t tbl (.obj n) p := by
  refine ⟨fun c heq => (by cases heq), fun i c hslot hchild => ?_⟩
  have hholds : p.Holds t tbl c := .inr ⟨i, hslot, hchild⟩
  exact absurd hholds (Point.not_holds_of_idle hidle c)

/-- A thread goes for its own lock. -/
theorem Wants.self (hself : p.selfLocked = true) (hslot : p.slot = none) :
    Wants t tbl (.lk t) p := by
  refine ⟨fun c heq => .inl ⟨(Lock.lk.inj heq).symm, hself⟩, fun i c hi _ => ?_⟩
  rw [hslot] at hi
  cases hi

/-- A thread goes for the lock of a child. -/
theorem Wants.slot {i : ℕ} (hslot : p.slot = some i) (hchild : tbl i = some c) :
    Wants t tbl (.lk c) p := by
  refine ⟨fun c' heq => .inr ⟨i, hslot, Lock.lk.inj heq ▸ hchild⟩, fun j c' hj hc' => ?_⟩
  rw [hslot] at hj
  cases hj
  rw [Option.some.inj (hchild.symm.trans hc')]

/-! ## What the code does with locks -/

section Moves

variable {proc : Tid → Proc} {pid : Tid → ℤ} {ends : Bool}

theorem PlainMove.holds (h : PlainMove proc pid t p next) (hp : p.Holds t tbl c) :
    next.Holds t tbl c := by
  cases h with
  | idle hidle => exact hp
  | exited hchild hpid hstatus => exact hp
  | skip hi hchild => exact hp
  | _ => exact absurd hp (Point.not_holds rfl rfl c)

/-- `lock_acquire` as the code calls it. A child is not the thread itself. -/
theorem Move.acquire_holds (h : Move proc pid t ends p (.acquire l next))
    (hentry : ∀ i c, (proc t).child i = some c → t < c) :
    Wants t (proc t).child l next ∧ ∀ c, p.Holds t (proc t).child c →
      next.Holds t (proc t).child c ∧ l ≠ .lk c := by
  -- With its own lock the thread goes for that of a child.
  have hself {i : ℕ} {x : Tid} (hx : (proc t).child i = some x) {q : Point}
      (hq : q.selfLocked = true) (c : Tid) (hc : c = t) :
      q.Holds t (proc t).child c ∧ Lock.lk x ≠ .lk c := by
    refine ⟨.inl ⟨hc, hq⟩, fun heq => ?_⟩
    exact (hentry i x hx).ne' ((Lock.lk.inj heq).trans hc)
  cases h with
  | acquireOther hidle => exact ⟨.other hidle _, fun c hp => absurd hp (Point.not_holds_of_idle hidle c)⟩
  | getpidAcquire => exact ⟨.self rfl rfl, fun c hp => absurd hp (Point.not_holds rfl rfl c)⟩
  | waitAcquire => exact ⟨.self rfl rfl, fun c hp => absurd hp (Point.not_holds rfl rfl c)⟩
  | exitAcquire => exact ⟨.self rfl rfl, fun c hp => absurd hp (Point.not_holds rfl rfl c)⟩
  | waitChild hi hchild =>
    refine ⟨.slot rfl hchild, fun c hp => ?_⟩
    rcases hp with ⟨hc, -⟩ | ⟨i, hslot, -⟩
    · exact hself hchild rfl c hc
    · cases hslot
  | exitChild hi hchild =>
    refine ⟨.slot rfl hchild, fun c hp => ?_⟩
    rcases hp with ⟨hc, -⟩ | ⟨i, hslot, -⟩
    · exact hself hchild rfl c hc
    · cases hslot

/-- `lock_release` as the code calls it. -/
theorem Move.release_holds (h : Move proc pid t ends p (.release l next))
    (hp : p.Holds t (proc t).child c) : l = .lk c ∨ next.Holds t (proc t).child c := by
  -- The thread gives up its own lock, or that of the child.
  have hself {q : Point} (hq : q.slot = none) (hc : q.Holds t (proc t).child c) :
      Lock.lk t = .lk c := by
    rcases hc with ⟨rfl, -⟩ | ⟨i, hslot, -⟩
    · rfl
    · rw [hq] at hslot
      cases hslot
  have hchild {i : ℕ} {x : Tid} (hx : (proc t).child i = some x) {q q' : Point}
      (hq : q.slot = some i) (hq' : q'.selfLocked = true) (hc : q.Holds t (proc t).child c) :
      Lock.lk x = .lk c ∨ q'.Holds t (proc t).child c := by
    rcases hc with ⟨hc, -⟩ | ⟨j, hslot, hj⟩
    · exact .inr (.inl ⟨hc, hq'⟩)
    · rw [hq] at hslot
      cases hslot
      rw [hx] at hj
      exact .inl (congrArg Lock.lk (Option.some.inj hj))
  cases h with
  | releaseOther hidle => exact .inr hp
  | waitNext hx hpid => exact hchild hx rfl rfl hp
  | waitRelease hx => exact hchild hx rfl rfl hp
  | exitRelease hx => exact hchild hx rfl rfl hp
  | _ => exact .inl (hself rfl hp)

/-- `cv_wait` as the code calls it. -/
theorem Move.wait_holds (h : Move proc pid t ends p (.wait cv l next)) :
    Wants t (proc t).child l next ∧
      ∀ c, p.Holds t (proc t).child c → next.Holds t (proc t).child c := by
  cases h with
  | waitOther hidle => exact ⟨.other hidle _, fun c hp => hp⟩
  | waitWait hchild hpid hstatus => exact ⟨.slot rfl hchild, fun c hp => hp⟩
  | exitWait => exact ⟨.self rfl rfl, fun c hp => hp⟩

theorem Move.signal_holds (h : Move proc pid t ends p (.signal cv l next)) (hp : p.Holds t tbl c) :
    next.Holds t tbl c := by
  cases h with
  | _ => exact hp

theorem Move.broadcast_holds (h : Move proc pid t ends p (.broadcast cv l next))
    (hp : p.Holds t tbl c) : next.Holds t tbl c := by
  cases h with
  | broadcastOther hidle => exact hp

/-- A thread that forks or exits has no lock. -/
theorem Move.fork_holds {start : Point} {ok : Tid → Point} {fail : Point}
    (h : Move proc pid t ends p (.fork start ok fail)) : ¬ p.Holds t tbl c := by
  cases h with
  | _ => exact Point.not_holds rfl rfl c

theorem Move.exit_holds (h : Move proc pid t ends p .exit) : ¬ p.Holds t tbl c := by
  cases h with
  | _ => exact Point.not_holds rfl rfl c

theorem setProc_child {x : Tid} {g : Proc → Proc} (hg : ∀ q, (g q).child = q.child) (u : Tid) :
    (setProc x g proc u).child = (proc u).child := by
  rw [setProc, Function.update_apply]
  split
  case isTrue heq => rw [hg, heq]
  case isFalse => rfl

theorem setParent_child (x : Tid) (q : Option Tid) (u : Tid) :
    (setParent x q proc u).child = (proc u).child :=
  setProc_child (g := fun r => { r with parent := q }) (fun _ => rfl) u

theorem setExit_child (x : Tid) (e : ℤ) (u : Tid) :
    (setExit x e proc u).child = (proc u).child :=
  setProc_child (g := fun r => { r with exitcode := e, status := -1 }) (fun _ => rfl) u

/-- Where the code writes the fields of thread structures it keeps its locks. At most it clears a
slot of its own table. -/
theorem Move.write_holds {f : (Tid → Proc) → Tid → Proc} {es : List ProcEvent}
    (h : Move proc pid t ends p (.write f es next)) :
    (∀ c, p.Holds t (proc t).child c → next.Holds t (f proc t).child c) ∧
      (∀ u, u ≠ t → (f proc u).child = (proc u).child) ∧
      ∀ i c, (f proc t).child i = some c → (proc t).child i = some c := by
  have hsame {f : (Tid → Proc) → Tid → Proc} (hf : ∀ u, (f proc u).child = (proc u).child)
      {q : Point} (hq : ∀ c, p.Holds t (proc t).child c → q.Holds t (proc t).child c) :
      (∀ c, p.Holds t (proc t).child c → q.Holds t (f proc t).child c) ∧
        (∀ u, u ≠ t → (f proc u).child = (proc u).child) ∧
        ∀ i c, (f proc t).child i = some c → (proc t).child i = some c := by
    rw [hf t]
    exact ⟨hq, fun u _ => hf u, fun _ _ hi => hi⟩
  cases h with
  | waitCollect hchild hstatus => exact hsame (fun _ => rfl) fun _ hp => hp
  | exit => exact hsame (fun _ => rfl) fun _ hp => absurd hp (Point.not_holds rfl rfl _)
  | exitStatus hi hparent => exact hsame (setExit_child t _) fun _ hp => hp
  | exitOrphan hchild hstatus => exact hsame (setParent_child _ none) fun _ hp => hp
  | forkParent =>
    exact hsame (setParent_child _ (some t)) fun _ hp => absurd hp (Point.not_holds rfl rfl _)
  | @waitClear a0 i =>
    refine ⟨fun c hp => ?_, fun u hu => ?_, fun j c hj => ?_⟩
    · rcases hp with hp | ⟨i, hslot, -⟩
      · exact .inl hp
      · cases hslot
    · rw [clearChild, setProc, Function.update_of_ne hu]
    · simp only [clearChild, setProc, Function.update_self] at hj
      by_cases hij : j = i
      · rw [hij, Function.update_self] at hj
        cases hj
      · rwa [Function.update_of_ne hij] at hj

end Moves

/-! ## The invariant -/

/-- A thread in `lock_acquire` or `cv_wait` goes for a lock as its code does, and one in `thread_fork`
makes a younger thread. -/
def Shape (t : Tid) (tbl : ℕ → Option Tid) : Stage Point → Prop
  | .locking l _ p => Wants t tbl l p
  | .waiting _ l p => Wants t tbl l p
  | .forking new _ _ => t < new
  | _ => True

/-- Children are younger than their parents, and locks are owned by the threads at the right
points. -/
structure Locks (s : Sys Point) : Prop where
  absent : ∀ u, s.created ≤ u → (s.thread u).kont.stage = .dead
  entry : ∀ u < s.created, ∀ i c, (s.thread u).proc.child i = some c → u < c
  shape : ∀ u, Shape u (s.thread u).proc.child (s.thread u).kont.stage
  own : ∀ u c, s.own (.lk c) = some u →
    Holds u (s.thread u).proc.child c (s.thread u).kont.stage

variable {s s' : Sys Point} {st : Stage Point} {κ : Kont Point}

theorem Locks.lt_created (h : Locks s) (hlive : (s.thread t).kont.stage ≠ .dead) : t < s.created :=
  not_le.mp fun hge => hlive (h.absent t hge)

/-- The thread `t` has got to `st`, with the table `tbl`. The others are where they were. -/
structure Moved (s s' : Sys Point) (t : Tid) (tbl : ℕ → Option Tid) (st : Stage Point) : Prop where
  created : s'.created = s.created
  stage : (s'.thread t).kont.stage = st
  child : (s'.thread t).proc.child = tbl
  others : ∀ u, u ≠ t → (s'.thread u).kont.stage = (s.thread u).kont.stage ∧
    (s'.thread u).proc.child = (s.thread u).proc.child

/-- The thread `t` goes on with `κ`. -/
theorem Moved.of_kont (hcreated : s'.created = s.created)
    (hkont : ∀ u, (s'.thread u).kont = if u = t then κ else (s.thread u).kont)
    (hproc : ∀ u, (s'.thread u).proc = (s.thread u).proc) :
    Moved s s' t (s.thread t).proc.child κ.stage := by
  refine ⟨hcreated, ?_, by rw [hproc], fun u hu => ⟨?_, by rw [hproc]⟩⟩
  · rw [hkont, if_pos rfl]
  · rw [hkont, if_neg hu]

theorem Moved.setKont (hcreated : s'.created = s.created)
    (hthread : s'.thread = (s.setKont t κ).thread) :
    Moved s s' t (s.thread t).proc.child κ.stage := by
  refine .of_kont hcreated (fun u => ?_) fun u => ?_
  · rw [hthread, Core.setKont_kont]
  · rw [hthread, Core.setKont_proc]

/-- `thread_wakeone`, and then the thread goes on. -/
theorem Moved.wakeFirst (s : Sys Point) (t : Tid) (a : Addr) (spl : ℕ) (p : Point) :
    Moved s ((s.wakeFirst a).goOn t spl p) t (s.thread t).proc.child (.client p) := by
  refine .setKont (κ := .run (.client p)) ?_ ?_
  · rw [← s.wakeFirst_toCore a]
    rfl
  · rw [← s.wakeFirst_toCore a]
    rfl

theorem own_wakeFirst (s : Sys Point) (t : Tid) (a : Addr) (spl : ℕ) (p : Point) :
    ((s.wakeFirst a).goOn t spl p).own = s.own := by
  rw [← s.wakeFirst_toCore a]
  rfl

/-- One thread has moved. -/
theorem Locks.moved (h : Locks s) (hm : Moved s s' t tbl st) (hlive : t < s.created)
    (hentry : ∀ i c, tbl i = some c → t < c) (hshape : Shape t tbl st)
    (hown : ∀ u c, u ≠ t → s'.own (.lk c) = some u → s.own (.lk c) = some u)
    (hheld : ∀ c, s'.own (.lk c) = some t → Holds t tbl c st) : Locks s' := by
  have hcases {P : Tid → (ℕ → Option Tid) → Stage Point → Prop} (ht : P t tbl st)
      (hothers : ∀ u, u ≠ t → P u (s.thread u).proc.child (s.thread u).kont.stage) (u : Tid) :
      P u (s'.thread u).proc.child (s'.thread u).kont.stage := by
    by_cases hu : u = t
    · rw [hu, hm.stage, hm.child]
      exact ht
    · rw [(hm.others u hu).1, (hm.others u hu).2]
      exact hothers u hu
  constructor
  · intro u hge
    rw [hm.created] at hge
    rw [(hm.others u fun heq => (heq ▸ hge).not_gt hlive).1]
    exact h.absent u hge
  · refine hcases (P := fun u tbl _ => u < s'.created → ∀ i c, tbl i = some c → u < c)
      (fun _ => hentry) fun u _ hu => h.entry u (hm.created ▸ hu)
  · exact hcases hshape fun u _ => h.shape u
  · refine hcases (P := fun u tbl st => ∀ c, s'.own (.lk c) = some u → Holds u tbl c st) hheld ?_
    exact fun u hu c hc => h.own u c (hown u c hu hc)

/-- One thread has moved and its table and the locks are as they were. -/
theorem Locks.keep (h : Locks s) (hm : Moved s s' t (s.thread t).proc.child st)
    (hlive : (s.thread t).kont.stage ≠ .dead) (hown : s'.own = s.own)
    (hshape : Shape t (s.thread t).proc.child st)
    (hheld : ∀ c, Holds t (s.thread t).proc.child c (s.thread t).kont.stage →
      Holds t (s.thread t).proc.child c st) : Locks s' := by
  have hlt := h.lt_created hlive
  refine h.moved hm hlt (h.entry t hlt) hshape (fun u c _ hc => hown ▸ hc) fun c hc => ?_
  rw [hown] at hc
  exact hheld c (h.own t c hc)

/-- A thread has got a lock. -/
theorem Locks.get (h : Locks s) (hm : Moved s s' t (s.thread t).proc.child (.client next))
    (hlive : (s.thread t).kont.stage ≠ .dead) (hown : s'.own = Function.update s.own l (some t))
    (hwants : Wants t (s.thread t).proc.child l next)
    (hheld : ∀ c, Holds t (s.thread t).proc.child c (s.thread t).kont.stage →
      next.Holds t (s.thread t).proc.child c) : Locks s' := by
  have hlt := h.lt_created hlive
  refine h.moved hm hlt (h.entry t hlt) trivial (fun u c hu hc => ?_) fun c hc => ?_
  all_goals rw [hown, Function.update_apply] at hc
  · split at hc
    · exact absurd (Option.some.inj hc).symm hu
    · exact hc
  · split at hc
    case isTrue heq => exact hwants.gets c heq.symm
    case isFalse => exact hheld c (h.own t c hc)

/-- A thread has given up a lock. -/
theorem Locks.give (h : Locks s) (hm : Moved s s' t (s.thread t).proc.child st)
    (hlive : (s.thread t).kont.stage ≠ .dead) (hown : s'.own = Function.update s.own l none)
    (hshape : Shape t (s.thread t).proc.child st)
    (hheld : ∀ c, Holds t (s.thread t).proc.child c (s.thread t).kont.stage → l ≠ .lk c →
      Holds t (s.thread t).proc.child c st) : Locks s' := by
  have hfree {u c : Tid} (hc : s'.own (.lk c) = some u) : l ≠ .lk c ∧ s.own (.lk c) = some u := by
    rw [hown, Function.update_apply] at hc
    split at hc
    · cases hc
    case isFalse hne => exact ⟨fun heq => hne heq.symm, hc⟩
  have hlt := h.lt_created hlive
  refine h.moved hm hlt (h.entry t hlt) hshape (fun u c _ hc => (hfree hc).2) ?_
  exact fun c hc => hheld c (h.own t c (hfree hc).2) (hfree hc).1

/-- Everyone is where they were. -/
theorem Locks.same (h : Locks s) (hcreated : s'.created = s.created) (hown : s'.own = s.own)
    (hthread : ∀ u, (s'.thread u).kont.stage = (s.thread u).kont.stage ∧
      (s'.thread u).proc.child = (s.thread u).proc.child) : Locks s' := by
  constructor
  · intro u hge
    rw [(hthread u).1]
    exact h.absent u (hcreated ▸ hge)
  · intro u hu
    rw [(hthread u).2]
    exact h.entry u (hcreated ▸ hu)
  · intro u
    rw [(hthread u).1, (hthread u).2]
    exact h.shape u
  · intro u c hc
    rw [(hthread u).1, (hthread u).2]
    exact h.own u c (hown ▸ hc)

/-- A thread structure has been made. -/
theorem Locks.create (h : Locks s) {th : Thread Point} (hchild : ∀ i, th.proc.child i = none)
    (hshape : Shape s.created th.proc.child th.kont.stage)
    (hcreated : s'.created = s.created + 1) (hown : s'.own = s.own)
    (hthread : s'.thread = Function.update s.thread s.created th) : Locks s' := by
  have hcases {P : Tid → Thread Point → Prop} (hnew : P s.created th)
      (hold : ∀ u, u ≠ s.created → P u (s.thread u)) (u : Tid) : P u (s'.thread u) := by
    rw [hthread, Function.update_apply]
    split
    case isTrue heq => exact heq ▸ hnew
    case isFalse hne => exact hold u hne
  constructor
  · intro u hge
    rw [hcreated] at hge
    rw [hthread, Function.update_of_ne (Nat.ne_of_gt hge)]
    exact h.absent u (Nat.le_of_succ_le hge)
  · refine hcases (P := fun u th => u < s'.created → ∀ i c, th.proc.child i = some c → u < c)
      (fun _ i c hi => ?_) fun u hne hu => h.entry u (lt_of_le_of_ne ?_ hne)
    · cases (hchild i).symm.trans hi
    · rw [hcreated] at hu
      exact Nat.le_of_lt_succ hu
  · exact hcases (P := fun u th => Shape u th.proc.child th.kont.stage) hshape fun u _ => h.shape u
  · refine hcases (P := fun u th => ∀ c, s'.own (.lk c) = some u →
      Holds u th.proc.child c th.kont.stage) (fun c hc => ?_) fun u _ c hc => h.own u c (hown ▸ hc)
    -- Nobody who is not there yet owns a lock.
    have hheld := h.own s.created c (hown ▸ hc)
    rw [h.absent s.created le_rfl] at hheld
    exact hheld.elim

/-! ## Steps -/

section Steps

variable {ends : Bool} {es : List Event} {o : Op Point}

/-- The first half of `thread_fork` has made a structure. -/
theorem Locks.newThread (h : Locks s) {th : Thread Point}
    (hproc : th.proc = ⟨some t, fun _ => none, 100, 0⟩) (hlive : t < s.created)
    (hth : Shape s.created th.proc.child th.kont.stage)
    (hshape : Shape t (s.thread t).proc.child κ.stage)
    (hheld : ∀ c, ¬ Holds t (s.thread t).proc.child c (s.thread t).kont.stage) :
    Locks (s.newThread t th κ) := by
  let s₁ : Sys Point := s.mapCore fun k => { k with
    thread := Function.update k.thread k.created th
    pidAssign := s32 (k.pidAssign + 1)
    created := k.created + 1 }
  have hnew : Locks s₁ := h.create (fun i => by rw [hproc]) hth rfl rfl rfl
  have hsame : s₁.thread t = s.thread t := Function.update_of_ne hlive.ne _ _
  have hm : Moved s₁ (s.newThread t th κ) t (s₁.thread t).proc.child κ.stage := .setKont rfl rfl
  rw [hsame] at hm
  refine hnew.moved hm (Nat.lt_succ_of_lt hlive) (h.entry t hlive) hshape (fun _ _ _ hc => hc)
    fun c hc => ?_
  exact absurd (h.own t c hc) (hheld c)

theorem Locks.tryLock {spl : ℕ} {cv : Option Cv} (h : Locks s)
    (hlive : (s.thread t).kont.stage ≠ .dead) (hwants : Wants t (s.thread t).proc.child l next)
    (hheld : ∀ c, Holds t (s.thread t).proc.child c (s.thread t).kont.stage →
      next.Holds t (s.thread t).proc.child c ∧ l ≠ .lk c)
    (hs : TryLock t l spl cv next s es s') : Locks s' := by
  cases hs with
  | block hown =>
    have hm : Moved s (s.toSleepers t (.lock l) (.locking l spl cv next)) t _ _ :=
      .of_kont rfl (s.toSleepers_kont t _ _) (s.toSleepers_proc t _ _)
    exact h.keep hm hlive rfl hwants hheld
  | get hown =>
    have hm : Moved s ((s.setOwn l (some t)).goOn t spl next) t _ _ :=
      .setKont (κ := .run (.client next)) rfl rfl
    exact h.get hm hlive rfl hwants fun c hc => (hheld c hc).1

theorem Locks.tryP {n spl : ℕ} (h : Locks s) (hlive : (s.thread t).kont.stage ≠ .dead)
    (hheld : ∀ c, Holds t (s.thread t).proc.child c (s.thread t).kont.stage →
      next.Holds t (s.thread t).proc.child c) (hs : TryP t n spl next s es s') : Locks s' := by
  cases hs with
  | block hcount =>
    have hm : Moved s (s.toSleepers t (.sem n) (.passing n spl next)) t _ _ :=
      .of_kont rfl (s.toSleepers_kont t _ _) (s.toSleepers_proc t _ _)
    exact h.keep hm hlive rfl trivial hheld
  | get hcount => exact h.keep (.setKont (κ := .run (.client next)) rfl rfl) hlive rfl trivial hheld

/-- The current thread goes on in its own code, with the locks as they were. -/
theorem Locks.goOn (h : Locks s) (hat : (s.thread t).kont.stage = .client p)
    (hheld : ∀ c, p.Holds t (s.thread t).proc.child c → Holds t (s.thread t).proc.child c κ.stage)
    (hshape : Shape t (s.thread t).proc.child κ.stage) (hcreated : s'.created = s.created)
    (hown : s'.own = s.own) (hthread : s'.thread = (s.setKont t κ).thread) : Locks s' := by
  refine h.keep (.setKont hcreated hthread) ?_ hown hshape fun c hc => ?_
  · rw [hat]
    exact nofun
  · rw [hat] at hc
    exact hheld c hc

theorem Locks.op (h : Locks s) (hat : (s.thread t).kont.stage = .client p)
    (hcode : (procClient ends).code s.toCore t p o) (hs : OpStep t s o es s') : Locks s' := by
  have hlive : (s.thread t).kont.stage ≠ .dead := by
    rw [hat]
    exact nofun
  have hheld {P : Tid → Prop} (hp : ∀ c, p.Holds t (s.thread t).proc.child c → P c) (c : Tid)
      (hc : Holds t (s.thread t).proc.child c (s.thread t).kont.stage) : P c := by
    rw [hat] at hc
    exact hp c hc
  have hplain {next : Point} (ho : o.Plain next) (c : Tid)
      (hp : p.Holds t (s.thread t).proc.child c) : next.Holds t (s.thread t).proc.child c :=
    (PlainMove.of_client hcode ho).holds hp
  have hmove (ho : ∀ next, ¬ o.Plain next) := Move.of_client hcode ho
  cases hs with
  | @splx spl next => exact h.goOn hat (κ := .run (.client next)) (hplain .splx) trivial rfl rfl rfl
  | @yield next =>
    exact h.goOn hat (κ := .yielded s.curspl (.client next)) (hplain .yield) trivial rfl rfl rfl
  | @sleep n next hspl =>
    have hm : Moved s (s.toSleepers t (.other n) (.slept next)) t _ _ :=
      .of_kont rfl (s.toSleepers_kont t _ _) (s.toSleepers_proc t _ _)
    exact h.keep hm hlive rfl trivial (hheld (hplain .sleep))
  | @wakeup n next hspl =>
    exact h.goOn hat (κ := .run (.client next)) (hplain .wakeup) trivial rfl rfl rfl
  | wakeone hspl =>
    exact h.keep (.wakeFirst s t _ _ _) hlive (own_wakeFirst s t _ _ _) trivial
      (hheld (hplain .wakeone))
  | @v n next hcount => exact h.goOn hat (κ := .run (.client next)) (hplain .v) trivial rfl rfl rfl
  | p htry =>
    exact Locks.tryP (s := s.raise) (h.same rfl rfl fun _ => ⟨rfl, rfl⟩) hlive (hheld (hplain .p)) htry
  | @write f es next =>
    obtain ⟨hheld', hothers, hentry⟩ := (hmove nofun).write_holds
    have hm : Moved s ((s.mapCore fun k => k.setProc f).goOn t s.curspl next) t
        (f (fun u => (s.thread u).proc) t).child (.client next) := by
      have hkont := (s.mapCore fun k => k.setProc f).goOn_kont t s.curspl next
      have hproc := (s.mapCore fun k => k.setProc f).goOn_proc t s.curspl next
      refine ⟨rfl, ?_, by rw [hproc]; rfl, fun u hu => ⟨?_, ?_⟩⟩
      · rw [hkont, if_pos rfl]
        rfl
      · rw [hkont, if_neg hu]
        rfl
      · rw [hproc]
        exact hothers u hu
    refine h.moved hm (h.lt_created hlive) (fun i c hi =>
      h.entry t (h.lt_created hlive) i c (hentry i c hi)) trivial
      (fun _ _ _ hc => hc) fun c hc => hheld hheld' c (h.own t c hc)
  | @forkNone start ok fail =>
    exact h.goOn hat (κ := .run (.client fail)) (fun _ hp => absurd hp (hmove nofun).fork_holds)
      trivial rfl rfl rfl
  | forkNew haddr hproc hpid hlife =>
    have hnone := hheld fun _ => (hmove nofun).fork_holds
    rcases hlife with ⟨-, hkont, rfl⟩ | ⟨-, hkont, rfl⟩
    · exact h.newThread hproc (h.lt_created hlive) (by rw [hkont]; exact trivial)
        (h.lt_created hlive) hnone
    · exact h.newThread hproc (h.lt_created hlive) (by rw [hkont]; exact trivial) trivial hnone
  | exit hnum =>
    exact h.goOn hat (κ := .dead) (fun _ hp => absurd hp (hmove nofun).exit_holds) trivial rfl rfl rfl
  | acquire htry =>
    obtain ⟨hwants, hheld'⟩ := (hmove nofun).acquire_holds (h.entry t (h.lt_created hlive))
    exact Locks.tryLock (s := s.raise) (h.same rfl rfl fun _ => ⟨rfl, rfl⟩) hlive hwants
      (hheld hheld') htry
  | @release l next hown =>
    exact h.goOn hat (κ := .run (.releasing l next)) (fun _ hp => (hmove nofun).release_holds hp)
      trivial rfl rfl rfl
  | @wait cv l next hown =>
    obtain ⟨hwants, hheld'⟩ := (hmove nofun).wait_holds
    have hm : Moved s (((s.raise.setOwn l none).wake (.lock l)).toSleepers t (.cv cv)
        (.waiting cv l s.curspl next)) t _ _ :=
      .of_kont rfl (Sys.toSleepers_kont _ t _ _) (Sys.toSleepers_proc _ t _ _)
    exact h.give hm hlive rfl hwants fun c hc hne => ⟨hheld hheld' c hc, hne⟩
  | signal =>
    exact h.keep (.wakeFirst s t _ _ _) hlive (own_wakeFirst s t _ _ _) trivial
      (hheld fun _ hp => (hmove nofun).signal_holds hp)
  | @broadcast cv l next =>
    exact h.goOn hat (κ := .run (.client next)) (fun _ hp => (hmove nofun).broadcast_holds hp)
      trivial rfl rfl rfl

/-- A thread goes on with what it was doing. -/
theorem Locks.still (h : Locks s) (hk : (s.thread t).kont = κ)
    (hm : Moved s s' t (s.thread t).proc.child κ.stage) (hown : s'.own = s.own) : Locks s' := by
  refine h.same hm.created hown fun u => ?_
  by_cases hu : u = t
  · rw [hu, hm.stage, hm.child, hk]
    exact ⟨rfl, rfl⟩
  · exact hm.others u hu

/-- A thread that has been switched to. -/
theorem Locks.resume (h : Locks s) (hs : Resume t s es s') : Locks s' := by
  have hclear : Locks (s.clearAddr t) := by
    refine h.same rfl rfl fun u => ⟨?_, ?_⟩
    · rw [Sys.clearAddr_kont]
    · rw [Sys.clearAddr_proc]
  have hstage {κ : Kont Point} (hk : (s.thread t).kont = κ) :
      ((s.clearAddr t).thread t).kont.stage = κ.stage := by
    rw [Sys.clearAddr_kont, hk]
  -- A thread that was blocked goes for the lock again.
  have hlock {l : Lock} {spl : ℕ} {cv : Option Cv} {next : Point} {κ : Kont Point}
      (hk : (s.thread t).kont = κ) (hlive : κ.stage ≠ .dead)
      (hshape : Shape t (s.clearAddr t |>.thread t).proc.child κ.stage →
        Wants t (s.clearAddr t |>.thread t).proc.child l next)
      (hheld : ∀ c, Holds t (s.clearAddr t |>.thread t).proc.child c κ.stage →
        next.Holds t (s.clearAddr t |>.thread t).proc.child c ∧ l ≠ .lk c)
      (htry : TryLock t l spl cv next (s.clearAddr t) es s') : Locks s' := by
    rw [← hstage hk] at hlive hshape
    refine hclear.tryLock hlive (hshape (hclear.shape t)) (fun c hc => ?_) htry
    exact hheld c (hstage hk ▸ hc)
  cases hs with
  | @yielded spl c hk => exact h.still hk (.setKont (κ := .run c) rfl rfl) rfl
  | @slept next hk =>
    exact hclear.goOn (κ := .run (.client next)) (hstage hk) (fun _ hp => hp) trivial rfl rfl rfl
  | passing hk htry =>
    refine hclear.tryP (by rw [hstage hk]; exact nofun) (fun c hc => ?_) htry
    rwa [hstage hk] at hc
  | locking hk htry => exact hlock hk nofun id (fun _ => id) htry
  | waiting hk htry => exact hlock hk nofun id (fun _ => id) htry

/-- The second half of `thread_fork` enters the new thread in the table of its parent, if there is a
free slot. -/
theorem addThread_child {new : Tid} {i : ℕ}
    (h : ((s.addThread t new).thread u).proc.child i = some c) :
    (s.thread u).proc.child i = some c ∨ u = t ∧ c = new := by
  have hadd {q : Proc} (hq : (q.addChild new).child i = some c) : q.child i = some c ∨ c = new := by
    unfold Proc.addChild at hq
    split at hq
    case h_1 j _ =>
      by_cases hi : i = j
      · simp only [hi, Function.update_self, Option.some.injEq] at hq
        exact .inr hq.symm
      · simp only [Function.update_of_ne hi] at hq
        exact .inl hq
    case h_2 => exact .inl hq
  simp only [Core.addThread, Core.setThread_thread] at h
  split at h
  case isTrue hu =>
    refine (hadd h).imp (fun hq => ?_) fun hc => ⟨hu, hc⟩
    split at hq <;> exact hq
  case isFalse =>
    refine .inl ?_
    split at h <;> exact h

theorem addThread_child_of_ne {new : Tid} (hu : u ≠ t) :
    ((s.addThread t new).thread u).proc.child = (s.thread u).proc.child := by
  simp only [Core.addThread, Core.setThread_thread, if_neg hu]
  split <;> rfl

/-- The end of `thread_fork`. -/
theorem Locks.forked (h : Locks s) {new : Tid} {ok fail : Point} {tbl : ℕ → Option Tid}
    (next : Point) (hat : (s.thread t).kont.stage = .forking new ok fail)
    (hm : Moved s s' t tbl (.client next)) (hown : s'.own = s.own)
    (hchild : ∀ i c, tbl i = some c → (s.thread t).proc.child i = some c ∨ c = new) : Locks s' := by
  have hshape := h.shape t
  rw [hat] at hshape
  have hlive : t < s.created := h.lt_created (by rw [hat]; exact nofun)
  refine h.moved hm hlive (fun i c hi => ?_) trivial (fun _ _ _ hc => hown ▸ hc) fun c hc => ?_
  · rcases hchild i c hi with hi | rfl
    · exact h.entry t hlive i c hi
    · exact hshape
  · -- A thread that makes another one has no lock.
    have hheld := h.own t c (hown ▸ hc)
    rw [hat] at hheld
    exact hheld.elim

theorem Locks.step (h : Locks s) (hs : SStep (procClient ends).code s es s') : Locks s' := by
  cases hs with
  | op hcur hk hcode hop => exact h.op (congrArg Kont.stage hk) hcode hop
  | @release t l next hcur hk =>
    have hat : (s.thread t).kont.stage = .releasing l next := congrArg Kont.stage hk
    have hm : Moved s (((s.setOwn l none).wake (.lock l)).goOn t s.curspl next) t _ _ :=
      .setKont (κ := .run (.client next)) rfl rfl
    refine h.give hm (by rw [hat]; exact nofun) rfl trivial fun c hc hne => ?_
    rw [hat] at hc
    exact hc.resolve_left hne
  | @forked t new ok fail hcur hk =>
    refine h.forked ok (congrArg Kont.stage hk)
      ⟨rfl, ?_, rfl, fun u hu => ⟨?_, ?_⟩⟩ rfl fun i c hi => ?_
    · rw [Sys.goOn_kont, if_pos rfl]
      rfl
    · rw [Sys.goOn_kont, if_neg hu]
      exact congrArg Kont.stage (s.addThread_kont t new u)
    · rw [Sys.goOn_proc]
      exact addThread_child_of_ne hu
    · rw [Sys.goOn_proc] at hi
      exact (addThread_child hi).imp_right And.right
  | @forkFails t new ok fail hcur hk =>
    have hfree {β : Type} (g : Thread Point → β) (hg : ∀ th, g { th with life := .freed } = g th)
        (u : Tid) := s.setThread_proj (t := new) (f := fun th => { th with life := .freed }) g hg u
    have hm : Moved s ((s.mapCore fun k => k.setThread new fun th => { th with
        life := .freed }).goOn t s.curspl fail) t (s.thread t).proc.child (.client fail) := by
      refine Moved.of_kont (κ := .run (.client fail)) rfl (fun u => ?_) fun u => ?_
      · rw [Sys.goOn_kont]
        exact ite_congr rfl (fun _ => rfl) fun _ => hfree _ (fun _ => rfl) u
      · rw [Sys.goOn_proc]
        exact hfree _ (fun _ => rfl) u
    exact h.forked fail (congrArg Kont.stage hk) hm rfl fun _ _ hi => .inl hi
  | @timer t c second hcur hspl hk =>
    cases second with
    | true => exact h.still hk (.setKont (κ := .yielded 0 c) rfl rfl) rfl
    | false => exact h.still hk (.setKont (κ := .yielded 0 c) rfl rfl) rfl
  | idle second hcur =>
    cases second with
    | true => exact h.same rfl rfl fun _ => ⟨rfl, rfl⟩
    | false => exact h
  | device hon hcount => exact h.same rfl rfl fun _ => ⟨rfl, rfl⟩
  | @start t p rest hcur hq hk =>
    exact h.still hk (.setKont (κ := .run (.client p)) rfl rfl) rfl
  | switch hcur hq hres =>
    refine Locks.resume (s := s.switchTo _ _) (h.same rfl rfl fun u => ?_) hres
    simp only [Sys.switchTo]
    split <;> exact ⟨rfl, rfl⟩

end Steps

variable {ends : Bool} {count : ℕ → ℤ} {k₀ k : Kernel Point} {tr : List Event}

theorem Locks.of_run (h0 : Booted .kernel count k₀)
    (h : Run (Step (procClient ends).code) k₀ tr k) : Locks k.view := by
  obtain ⟨-, hboot, hrun⟩ := Run.refines h0 h
  have hother (u : Tid) (hu : u ≠ 0) : (k₀.view.thread u).kont.stage = .dead := by
    rw [(hboot.others u (Nat.pos_of_ne_zero hu)).2]
    rfl
  refine hrun.invariant (I := fun _ s => Locks s) ⟨fun u hge => ?_, fun u hlt i c hi => ?_,
    fun u => ?_, fun u c hc => ?_⟩ fun _ h hs => h.step hs
  · rw [hboot.created] at hge
    exact hother u (Nat.ne_of_gt hge)
  · rw [hboot.created] at hlt
    obtain rfl := Nat.lt_one_iff.mp hlt
    rw [hboot.first.2.2.1] at hi
    cases hi
  · by_cases hu : u = 0
    · rw [hu, hboot.first.2.1]
      exact trivial
    · rw [hother u hu]
      exact trivial
  · cases (hboot.own _).symm.trans hc

/-! ## The locks form no cycle -/

end Os161.Process
