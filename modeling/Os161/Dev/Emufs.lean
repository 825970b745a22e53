import Mathlib.Tactic
import Os161.Vfs.Refcount

/-!
# Loading and releasing vnodes of the emulator's file system

Model of `emufs_loadvnode` and `emufs_reclaim` (`kern/dev/lamebus/emu.c`) and of `vnode_incref` and
`vnode_decref` (`kern/fs/vfs/vnode.c`), as threads interleave in them. A thread can be preempted at
every lock operation and while it waits for the device; what it does in between is one step. The
lock `e_lock` of the device is held for the whole of a load and of a reclaim.

`vnode_decref` leaves the last reference to `emufs_reclaim`, which looks at the count again, because
a load may have found the vnode in between. If so it returns `EBUSY`, and if the device refuses to
close the file it returns the error. Either way the reference has been given up and is still
counted.
-/

namespace Os161.Vfs.Emufs

/-- Where a thread is. -/
inductive Pc where
  /-- In none of the calls. -/
  | idle
  /-- `emufs_loadvnode`: before `lock_acquire(e_lock)`, and after it. -/
  | loadLock (handle : ℕ)
  | load (handle : ℕ)
  /-- `vnode_incref`, called by `emufs_loadvnode`. -/
  | increfLock (v : Vn)
  | incref (v : Vn)
  | increfUnlock (v : Vn)
  /-- The `lock_release(e_lock)` at the end of `emufs_loadvnode`. -/
  | loadUnlock
  /-- `vnode_decref`. -/
  | decrefLock (v : Vn)
  | decref (v : Vn)
  | decrefUnlock (v : Vn) (actuallyDoIt : Bool)
  /-- `emufs_reclaim`, up to the test of the count. -/
  | reclaimLock (v : Vn)
  | reclaimCountlock (v : Vn)
  | reclaimTest (v : Vn)
  /-- The vnode is in use: `lock_release(vn_countlock)`. -/
  | busyUnlock (v : Vn)
  /-- It is not: `lock_release(vn_countlock)`, `emu_close` and the removal. -/
  | reclaimCountUnlock (v : Vn)
  | reclaimClose (v : Vn)
  /-- An error return: `lock_release(e_lock)`. -/
  | failUnlock
  /-- The vnode is out of the table: `lock_release(e_lock)`, then `VOP_KILL` and `kfree`. -/
  | reclaimUnlock (v : Vn)
  | reclaimKill (v : Vn)
deriving DecidableEq

/-- The state: the owner of `e_lock`, the vnodes, and where the threads are. -/
structure State where
  elock : Option Thr
  pool : Pool
  pc : Thr → Pc

/-- What happens in a step, if it is not silent. -/
inductive Event where
  /-- `emufs_reclaim` has returned an error, `EBUSY` or that of `emu_close`. -/
  | refused (v : Vn) (e : Errno)
deriving DecidableEq

/-- The loop of `emu_close`, with at most `fuel` more retries. The device answers the `i`-th attempt
with `results i`. -/
def emuCloseLoop (results : ℕ → Option Errno) : (fuel retries : ℕ) → Option Errno
  | 0, retries => results retries
  | fuel + 1, retries =>
    if results retries = some Errno.EIO then emuCloseLoop results fuel (retries + 1)
    else results retries

/-- `emu_close`. -/
def emuClose (results : ℕ → Option Errno) : Option Errno := emuCloseLoop results 10 0

/-- What the outside decides about a step of a thread: which call it makes, whether there is memory,
what the device answers. -/
inductive Choice where
  | callLoad (handle : ℕ)
  | callDecref (v : Vn)
  | go (nomem : Bool) (results : ℕ → Option Errno)

namespace State

variable (s : State) (t : Thr)

/-- No thread is in one of the calls. -/
def Quiet : Prop := ∀ t, s.pc t = .idle

/-- The thread goes on at `pc`. -/
def goto (pc : Pc) : State := { s with pc := Function.update s.pc t pc }

/-- Change the vnodes. -/
def onPool (f : Pool → Pool) : State := { s with pool := f s.pool }

/-- `lock_acquire(vn_countlock)`. -/
def lockCount (v : Vn) (next : Pc) : Option (List Event × State) :=
  if s.pool.countlock v = none then
    some ([], (s.onPool fun p => p.setCountlock v (some t)).goto t next)
  else
    none

/-- `lock_release(vn_countlock)`. -/
def unlockCount (v : Vn) (next : Pc) : State :=
  (s.onPool fun p => p.setCountlock v none).goto t next

/-- `lock_acquire(e_lock)`. -/
def lockE (next : Pc) : Option (List Event × State) :=
  if s.elock = none then some ([], { s with elock := some t }.goto t next) else none

/-- `lock_release(e_lock)`. -/
def unlockE (next : Pc) : State := { s with elock := none }.goto t next

/-- The thread `t` goes on in the call it is in. It blocks at a lock that is taken, and stops at an
assertion that does not hold. -/
def go (nomem : Bool) (results : ℕ → Option Errno) : Option (List Event × State) :=
  match s.pc t with
  | .idle => none
  | .loadLock handle => s.lockE t (.load handle)
  | .load handle =>
    match s.pool.find handle with
    | some v => some ([], s.goto t (.increfLock v))
    | none =>
      -- The memory of the vnode, of its lock and of the table.
      if nomem then some ([], s.goto t .loadUnlock)
      else some ([], (s.onPool fun p => p.insert t handle).goto t .loadUnlock)
  | .increfLock v => s.lockCount t v (.incref v)
  | .incref v => some ([], (s.onPool fun p => p.incr t v).goto t (.increfUnlock v))
  | .increfUnlock v => some ([], s.unlockCount t v .loadUnlock)
  | .loadUnlock => some ([], s.unlockE t .idle)
  | .decrefLock v => s.lockCount t v (.decref v)
  | .decref v =>
    if s.pool.refcount v = 0 then none
    else if s.pool.refcount v > 1 then
      some ([], (s.onPool fun p => p.decr t v).goto t (.decrefUnlock v false))
    else some ([], s.goto t (.decrefUnlock v true))
  | .decrefUnlock v actuallyDoIt =>
    some ([], s.unlockCount t v (if actuallyDoIt then .reclaimLock v else .idle))
  | .reclaimLock v => s.lockE t (.reclaimCountlock v)
  | .reclaimCountlock v => s.lockCount t v (.reclaimTest v)
  | .reclaimTest v =>
    if s.pool.refcount v ≠ 1 then
      some ([.refused v .EBUSY], (s.onPool fun p => p.forget t v).goto t (.busyUnlock v))
    else some ([], s.goto t (.reclaimCountUnlock v))
  | .busyUnlock v => some ([], s.unlockCount t v .failUnlock)
  | .reclaimCountUnlock v => some ([], s.unlockCount t v (.reclaimClose v))
  | .reclaimClose v =>
    match emuClose results with
    | some e => some ([.refused v e], (s.onPool fun p => p.forget t v).goto t .failUnlock)
    | none =>
      if v ∈ s.pool.vnodes then
        some ([], (s.onPool fun p => p.remove t v).goto t (.reclaimUnlock v))
      else none
  | .failUnlock => some ([], s.unlockE t .idle)
  | .reclaimUnlock v => some ([], s.unlockE t (.reclaimKill v))
  | .reclaimKill v => if s.pool.refcount v = 1 then some ([], s.goto t .idle) else none

/-- One step of the thread `t`. A thread gives up a reference that it has. -/
def step : Choice → Option (List Event × State)
  | .callLoad handle => if s.pc t = .idle then some ([], s.goto t (.loadLock handle)) else none
  | .callDecref v =>
    if s.pc t = .idle ∧ (t, v) ∈ s.pool.refs then some ([], s.goto t (.decrefLock v)) else none
  | .go nomem results => s.go t nomem results

end State

/-- A step of some thread. -/
def Step (s : State) (es : List Event) (s' : State) : Prop :=
  ∃ t c, s.step t c = some (es, s')

/-- The file system when it has been set up: nothing is loaded. -/
def init : State := ⟨none, .empty, fun _ => .idle⟩

/-- Follow a schedule: who makes the next step, and what the outside decides about it. -/
def play (cs : List (Thr × Choice)) : State → Option (List Event × State) :=
  follow (fun s c => s.step c.1 c.2) cs

theorem run_of_play {cs : List (Thr × Choice)} {s s' : State} {tr : List Event}
    (h : play cs s = some (tr, s')) : Run Step s tr s' :=
  Run.of_follow (fun _ c _ _ hs => ⟨c.1, c.2, hs⟩) h

/-! ## What each point of the code knows -/

/-- The thread holds `e_lock`. -/
def Pc.holdsE : Pc → Bool
  | .load _ | .increfLock _ | .incref _ | .increfUnlock _ | .loadUnlock | .reclaimCountlock _
  | .reclaimTest _ | .busyUnlock _ | .reclaimCountUnlock _ | .reclaimClose _ | .failUnlock
  | .reclaimUnlock _ => true
  | _ => false

/-- The thread is giving up a reference to this vnode. -/
def Pc.gives : Pc → Option Vn
  | .decrefLock v | .decref v | .decrefUnlock v true | .reclaimLock v | .reclaimCountlock v
  | .reclaimTest v | .reclaimCountUnlock v | .reclaimClose v => some v
  | _ => none

/-- The thread has found this vnode in the table. -/
def Pc.found : Pc → Option Vn
  | .increfLock v | .incref v => some v
  | _ => none

/-- The thread has the last reference to this vnode. -/
def Pc.last : Pc → Option Vn
  | .reclaimCountUnlock v | .reclaimClose v => some v
  | _ => none

/-- The references to `v` that a refused reclaim has given up. -/
def lost (tr : List Event) (v : Vn) : ℕ := tr.countP fun e => match e with | .refused w _ => w = v

/-- What the threads rely on. -/
abbrev State.Knows (s : State) : Prop :=
  s.pool.Knows (fun u => (s.pc u).gives) (fun u => (s.pc u).found) fun u => (s.pc u).last

/-- The invariant. -/
structure Inv (tr : List Event) (s : State) : Prop where
  counted : s.pool.Counted (lost tr)
  elock : ∀ t, (s.pc t).holdsE = true → s.elock = some t
  knows : s.Knows

theorem inv_init : Inv [] init where
  counted := Pool.counted_empty
  elock := by simp [init, Pc.holdsE]
  knows := ⟨nofun, nofun, nofun⟩

theorem Pc.holdsE_of_last {pc : Pc} {v : Vn} (h : pc.last = some v) : pc.holdsE = true := by
  cases pc <;> first | rfl | cases h

theorem Pc.holdsE_of_found {pc : Pc} {v : Vn} (h : pc.found = some v) : pc.holdsE = true := by
  cases pc <;> first | rfl | cases h

namespace Inv

variable {tr : List Event} {s : State} {t : Thr} {v : Vn}

/-- Only one thread holds `e_lock`. -/
theorem holdsE_unique (h : Inv tr s) {u : Thr} (ht : (s.pc t).holdsE = true)
    (hu : (s.pc u).holdsE = true) : u = t := by
  have heq := (h.elock u hu).symm.trans (h.elock t ht)
  exact Option.some.inj heq

/-- The thread `t` goes on at a point whose conditions hold. -/
theorem goto (h : Inv tr s) (pc : Pc) (hE : pc.holdsE = true → s.elock = some t)
    (hgives : ∀ v, pc.gives = some v → (t, v) ∈ s.pool.refs)
    (hfound : ∀ v, pc.found = some v → v ∈ s.pool.vnodes)
    (hlast : ∀ v, pc.last = some v → pc.gives = some v ∧ s.pool.refsTo v = 1) :
    Inv tr (s.goto t pc) := by
  have hself : (s.goto t pc).pc t = pc := Function.update_self _ _ _
  have hother (u : Thr) (hu : u ≠ t) : (s.goto t pc).pc u = s.pc u := Function.update_of_ne hu _ _
  refine ⟨h.counted, fun u hu => ?_, h.knows.set (t := t) (fun u hu => ?_) ?_ ?_ ?_⟩
  · by_cases hut : u = t
    · subst hut
      rw [hself] at hu
      exact hE hu
    · rw [hother u hut] at hu
      exact h.elock u hu
  · rw [hother u hu]
    exact ⟨rfl, rfl, rfl⟩
  all_goals rwa [hself]

/-- A point at which the thread knows nothing. -/
theorem goto_free (h : Inv tr s) (pc : Pc) (hE : pc.holdsE = true → s.elock = some t)
    (hgives : pc.gives = none) (hfound : pc.found = none) (hlast : pc.last = none) :
    Inv tr (s.goto t pc) := by
  refine h.goto pc hE ?_ ?_ ?_ <;> simp [hgives, hfound, hlast]

theorem setCountlock (h : Inv tr s) (v : Vn) (owner : Option Thr) :
    Inv tr (s.onPool fun p => p.setCountlock v owner) :=
  ⟨h.counted.setCountlock v owner, h.elock, h.knows.setCountlock v owner⟩

theorem lockE (h : Inv tr s) (hfree : s.elock = none) (t : Thr) :
    Inv tr { s with elock := some t } := by
  refine ⟨h.counted, fun u hu => ?_, h.knows⟩
  exact absurd (h.elock u hu) (by simp [hfree])

/-- The thread that holds `e_lock` releases it. -/
theorem unlockE (h : Inv tr s) {pc : Pc} (ht : (s.pc t).holdsE = true) (hE : pc.holdsE = false)
    (hgives : pc.gives = none) (hfound : pc.found = none) (hlast : pc.last = none) :
    Inv tr (s.unlockE t pc) := by
  have hgo : Inv tr (s.goto t pc) := h.goto_free pc (by simp [hE]) hgives hfound hlast
  refine ⟨hgo.counted, fun u hu => ?_, hgo.knows⟩
  have hpc : (s.unlockE t pc).pc u = if u = t then pc else s.pc u :=
    Function.update_apply s.pc t pc u
  rw [hpc] at hu
  split at hu
  · exact absurd hu (by simp [hE])
  case isFalse hut => exact absurd (h.holdsE_unique ht hu) hut

theorem decr (h : Inv tr s) (hpc : (s.pc t).gives = none) (hr : (t, v) ∈ s.pool.refs)
    (hcount : 1 < s.pool.refcount v) : Inv tr (s.onPool fun p => p.decr t v) :=
  ⟨h.counted.decr hr hcount, h.elock, h.knows.decr hpc hr⟩

/-- A refused reclaim. -/
theorem forget (h : Inv tr s) (hpc : (s.pc t).gives = none) (hr : (t, v) ∈ s.pool.refs)
    (e : Errno) : Inv (tr ++ [.refused v e]) (s.onPool fun p => p.forget t v) := by
  have hlost : lost (tr ++ [.refused v e]) = fun w => lost tr w + if v = w then 1 else 0 := by
    funext w
    simp [lost, List.countP_append, List.countP_singleton]
  refine ⟨?_, h.elock, h.knows.forget hpc hr⟩
  rw [hlost]
  exact h.counted.forget hr

/-- The vnode leaves the table. Nobody else is at it, because `e_lock` is held. -/
theorem remove (h : Inv tr s) (hE : (s.pc t).holdsE = true) (hpc : (s.pc t).gives = none)
    (hfound : (s.pc t).found = none) (hr : (t, v) ∈ s.pool.refs) (hone : s.pool.refsTo v = 1) :
    Inv tr (s.onPool fun p => p.remove t v) := by
  refine ⟨h.counted.remove hr hone, h.elock, h.knows.remove hpc hr fun u hu => ?_⟩
  obtain rfl := h.holdsE_unique hE (Pc.holdsE_of_found hu)
  exact nomatch hfound.symm.trans hu

theorem insert (h : Inv tr s) (t : Thr) (handle : ℕ) :
    Inv tr (s.onPool fun p => p.insert t handle) :=
  ⟨h.counted.insert t handle, h.elock, h.knows.insert h.counted t handle⟩

/-- The thread that has found the vnode holds `e_lock`, so nobody is about to remove it. -/
theorem incr (h : Inv tr s) (hE : (s.pc t).holdsE = true) (hlast : (s.pc t).last = none)
    (hv : v ∈ s.pool.vnodes) : Inv tr (s.onPool fun p => p.incr t v) := by
  refine ⟨h.counted.incr t hv, h.elock, h.knows.incr t fun u hu => ?_⟩
  obtain rfl := h.holdsE_unique hE (Pc.holdsE_of_last hu)
  exact nomatch hlast.symm.trans hu

end Inv

/-- A silent step. -/
theorem Inv.silent {tr : List Event} {s : State} (h : Inv tr s) : Inv (tr ++ []) s := by
  rwa [List.append_nil]

/-- `lock_acquire(vn_countlock)` on the way to a point whose conditions hold. -/
theorem Inv.lockCount {tr es : List Event} {s s' : State} {t : Thr} {v : Vn} {pc : Pc}
    (h : Inv tr (s.goto t pc)) (hs : s.lockCount t v pc = some (es, s')) : Inv (tr ++ es) s' := by
  rw [State.lockCount] at hs
  split at hs
  · cases hs
    exact (h.setCountlock v (some t)).silent
  · cases hs

/-- The steps of a thread in a call keep the invariant. -/
theorem Inv.go {tr es : List Event} {s s' : State} {t : Thr} {nomem : Bool}
    {results : ℕ → Option Errno} (h : Inv tr s) (hs : s.go t nomem results = some (es, s')) :
    Inv (tr ++ es) s' := by
  -- What the thread knows at the point where it is.
  have hE := h.elock t
  have hgives := h.knows.gives t
  have hfound := h.knows.found t
  have hlast := h.knows.last t
  cases hpc : s.pc t with
  | idle => simp [State.go, hpc] at hs
  | loadLock handle =>
    simp only [State.go, hpc, State.lockE] at hs
    split at hs
    case isTrue hfree =>
      cases hs
      exact ((h.lockE hfree t).goto_free (.load handle) (fun _ => rfl) rfl rfl rfl).silent
    · cases hs
  | load handle =>
    simp only [State.go, hpc] at hs
    rw [hpc] at hE
    split at hs
    case h_1 v hv =>
      cases hs
      have hmem := (Pool.find_mem hv).1
      exact (h.goto (.increfLock v) (fun _ => hE rfl) nofun (by simpa [Pc.found] using hmem)
        nofun).silent
    · split at hs
      · cases hs
        exact (h.goto_free .loadUnlock (fun _ => hE rfl) rfl rfl rfl).silent
      · cases hs
        exact ((h.insert t handle).goto_free .loadUnlock (fun _ => hE rfl) rfl rfl rfl).silent
  | increfLock v =>
    simp only [State.go, hpc] at hs
    rw [hpc] at hE hfound
    exact Inv.lockCount (h.goto (.incref v) (fun _ => hE rfl) nofun hfound nofun) hs
  | incref v =>
    simp only [State.go, hpc] at hs
    cases hs
    have hincr : Inv tr (s.onPool fun p => p.incr t v) :=
      h.incr (by rw [hpc]; rfl) (by rw [hpc]; rfl) (hfound v (by rw [hpc]; rfl))
    rw [hpc] at hE
    exact (hincr.goto_free (.increfUnlock v) (fun _ => hE rfl) rfl rfl rfl).silent
  | increfUnlock v =>
    simp only [State.go, hpc] at hs
    cases hs
    rw [hpc] at hE
    exact ((h.setCountlock v none).goto_free .loadUnlock (fun _ => hE rfl) rfl rfl rfl).silent
  | loadUnlock =>
    simp only [State.go, hpc] at hs
    cases hs
    exact (h.unlockE (by rw [hpc]; rfl) rfl rfl rfl rfl).silent
  | decrefLock v =>
    simp only [State.go, hpc] at hs
    rw [hpc] at hgives
    exact Inv.lockCount (h.goto (.decref v) nofun hgives nofun nofun) hs
  | decref v =>
    simp only [State.go, hpc] at hs
    rw [hpc] at hgives
    split at hs
    · cases hs
    split at hs
    case isTrue hcount =>
      cases hs
      have hgo : Inv tr (s.goto t (.decrefUnlock v false)) := h.goto_free _ nofun rfl rfl rfl
      exact (hgo.decr (by simp [State.goto, Pc.gives]) (hgives v rfl) hcount).silent
    · cases hs
      exact (h.goto (.decrefUnlock v true) nofun hgives nofun nofun).silent
  | decrefUnlock v actuallyDoIt =>
    simp only [State.go, hpc] at hs
    cases hs
    have hset := h.setCountlock v none
    cases actuallyDoIt with
    | false => exact (hset.goto_free .idle nofun rfl rfl rfl).silent
    | true =>
      rw [hpc] at hgives
      exact (hset.goto (.reclaimLock v) nofun hgives nofun nofun).silent
  | reclaimLock v =>
    simp only [State.go, hpc, State.lockE] at hs
    rw [hpc] at hgives
    split at hs
    case isTrue hfree =>
      cases hs
      exact ((h.lockE hfree t).goto (.reclaimCountlock v) (fun _ => rfl) hgives nofun nofun).silent
    · cases hs
  | reclaimCountlock v =>
    simp only [State.go, hpc] at hs
    rw [hpc] at hgives hE
    exact Inv.lockCount (h.goto (.reclaimTest v) (fun _ => hE rfl) hgives nofun nofun) hs
  | reclaimTest v =>
    simp only [State.go, hpc] at hs
    rw [hpc] at hgives hE
    split at hs
    · cases hs
      have hgo : Inv tr (s.goto t (.busyUnlock v)) := h.goto_free _ (fun _ => hE rfl) rfl rfl rfl
      exact hgo.forget (by simp [State.goto, Pc.gives]) (hgives v rfl) _
    case isFalse hcount =>
      cases hs
      have hone := h.counted.refsTo_one (hgives v rfl) (not_not.mp hcount)
      exact (h.goto (.reclaimCountUnlock v) (fun _ => hE rfl) hgives nofun
        (by simpa [Pc.last, Pc.gives] using hone)).silent
  | busyUnlock v =>
    simp only [State.go, hpc] at hs
    cases hs
    rw [hpc] at hE
    exact ((h.setCountlock v none).goto_free .failUnlock (fun _ => hE rfl) rfl rfl rfl).silent
  | reclaimCountUnlock v =>
    simp only [State.go, hpc] at hs
    cases hs
    rw [hpc] at hgives hE hlast
    exact ((h.setCountlock v none).goto (.reclaimClose v) (fun _ => hE rfl) hgives nofun hlast).silent
  | reclaimClose v =>
    simp only [State.go, hpc] at hs
    rw [hpc] at hgives hE hlast
    split at hs
    · cases hs
      have hgo : Inv tr (s.goto t .failUnlock) := h.goto_free _ (fun _ => hE rfl) rfl rfl rfl
      exact hgo.forget (by simp [State.goto, Pc.gives]) (hgives v rfl) _
    split at hs
    · cases hs
      have hgo : Inv tr (s.goto t (.reclaimUnlock v)) := h.goto_free _ (fun _ => hE rfl) rfl rfl rfl
      exact (hgo.remove (by simp [State.goto, Pc.holdsE]) (by simp [State.goto, Pc.gives])
        (by simp [State.goto, Pc.found]) (hgives v rfl) (hlast v rfl).2).silent
    · cases hs
  | failUnlock =>
    simp only [State.go, hpc] at hs
    cases hs
    exact (h.unlockE (by rw [hpc]; rfl) rfl rfl rfl rfl).silent
  | reclaimUnlock v =>
    simp only [State.go, hpc] at hs
    cases hs
    exact (h.unlockE (by rw [hpc]; rfl) rfl rfl rfl rfl).silent
  | reclaimKill v =>
    simp only [State.go, hpc] at hs
    split at hs
    · cases hs
      exact (h.goto_free .idle nofun rfl rfl rfl).silent
    · cases hs

/-- Every step keeps the invariant. -/
theorem Step.inv {tr es : List Event} {s s' : State} (h : Inv tr s) (hs : Step s es s') :
    Inv (tr ++ es) s' := by
  obtain ⟨t, c, hs⟩ := hs
  cases c with
  | callLoad handle =>
    simp only [State.step] at hs
    split at hs
    · cases hs
      exact (h.goto_free (.loadLock handle) nofun rfl rfl rfl).silent
    · cases hs
  | callDecref v =>
    simp only [State.step] at hs
    split at hs
    case isTrue hcall =>
      cases hs
      exact (h.goto (.decrefLock v) nofun (by simpa [Pc.gives] using hcall.2) nofun nofun).silent
    · cases hs
  | go nomem results => exact h.go hs

theorem inv_of_run {tr : List Event} {s : State} (h : Run Step init tr s) : Inv tr s :=
  h.invariant inv_init fun _ hi hs => hs.inv hi

/-! ## Quiet states -/

/-- No reclaim of a vnode that is still in the table has been refused. -/
def NoneRefused (tr : List Event) (s : State) : Prop :=
  ∀ v ∈ s.pool.vnodes, ∀ e, Event.refused v e ∉ tr

theorem lost_eq_zero {tr : List Event} {v : Vn} : lost tr v = 0 ↔ ∀ e, Event.refused v e ∉ tr := by
  rw [lost, List.countP_eq_zero]
  constructor
  · intro h e he
    simpa using h _ he
  · rintro h ⟨w, e⟩ he
    simp only [decide_eq_true_eq]
    rintro rfl
    exact h e he

/-- Every reference is to a vnode in the table; and the counts are exact and every vnode in the
table has a holder if and only if no reclaim of one of them has been refused. This holds in every
state; in a quiet one, the references are those that threads hold outside the calls. -/
theorem emufs_refcounts_iff {tr : List Event} {s : State} (h : Run Step init tr s) :
    (∀ r ∈ s.pool.refs, r.2 ∈ s.pool.vnodes) ∧
    (((∀ v ∈ s.pool.vnodes, s.pool.refcount v = s.pool.refsTo v) ∧
      (∀ v, s.pool.refsTo v = 0 → v ∉ s.pool.vnodes)) ↔ NoneRefused tr s) := by
  have hinv := inv_of_run h
  refine ⟨hinv.counted.refs, ?_⟩
  constructor
  · intro hexact v hv
    have hcount := hinv.counted.count v hv
    rw [hexact.1 v hv] at hcount
    exact lost_eq_zero.mp (by omega)
  · intro hnone
    have hcount (v : Vn) (hv : v ∈ s.pool.vnodes) : s.pool.refcount v = s.pool.refsTo v := by
      rw [hinv.counted.count v hv, lost_eq_zero.mpr (hnone v hv), Nat.add_zero]
    refine ⟨hcount, fun v hzero hv => ?_⟩
    have hpos := hinv.counted.pos v hv
    rw [hcount v hv, hzero] at hpos
    exact lt_irrefl 0 hpos

/-- Thread `t` makes `n` steps in the call it is in. There is memory and the device does its
work. -/
def going (t : Thr) (n : ℕ) : List (Thr × Choice) :=
  List.replicate n (t, .go false fun _ => none)

/-- Two threads load a vnode, and one gives it up. -/
def loadTwice : List (Thr × Choice) :=
  (0, .callLoad 7) :: going 0 3 ++ (1, .callLoad 7) :: going 1 6 ++ (1, .callDecref 0) :: going 1 3

/-- A thread loads a vnode and gives it up; another loads the vnode between `vnode_decref` and
`emufs_reclaim`, and gives it up afterwards. -/
def loadInBetween : List (Thr × Choice) :=
  (0, .callLoad 7) :: going 0 3 ++ (0, .callDecref 0) :: going 0 3 ++
    (1, .callLoad 7) :: going 1 6 ++ going 0 5 ++ (1, .callDecref 0) :: going 1 3

/-- The state after a schedule. -/
def after (cs : List (Thr × Choice)) : State := ((play cs init).getD ([], init)).2

/-- The events of a schedule. -/
def trace (cs : List (Thr × Choice)) : List Event := ((play cs init).getD ([], init)).1

/-- A step moves the thread that makes it. -/
theorem State.step_pc {s s' : State} {t : Thr} {c : Choice} {es : List Event}
    (h : s.step t c = some (es, s')) : ∃ pc, s'.pc = Function.update s.pc t pc := by
  cases c with
  | callLoad handle =>
    simp only [State.step] at h
    split at h <;> cases h
    exact ⟨_, rfl⟩
  | callDecref v =>
    simp only [State.step] at h
    split at h <;> cases h
    exact ⟨_, rfl⟩
  | go nomem results =>
    simp only [State.step, State.go, State.lockE, State.lockCount] at h
    split at h
    all_goals
      try split at h
      all_goals
        try split at h
        all_goals
          cases h
          try exact ⟨_, rfl⟩

/-- The threads of a schedule are the only ones that can be in a call. -/
theorem quiet_of_play {cs : List (Thr × Choice)} {s s' : State} {tr : List Event}
    (h : play cs s = some (tr, s')) {t : Thr} (ht : ∀ c ∈ cs, c.1 ≠ t) : s'.pc t = s.pc t := by
  induction cs generalizing s tr with
  | nil =>
    cases h
    rfl
  | cons c cs ih =>
    simp only [play, follow, Option.bind_eq_bind, Option.bind_eq_some_iff] at h
    obtain ⟨⟨es, s₁⟩, hstep, ⟨tr', s₂⟩, hrest, heq⟩ := h
    cases heq
    obtain ⟨pc, hpc⟩ := State.step_pc hstep
    rw [ih hrest fun c' hc' => ht c' (List.mem_cons_of_mem _ hc'), hpc]
    exact Function.update_of_ne (ht c List.mem_cons_self).symm _ _

theorem run_after {cs : List (Thr × Choice)} (h : (play cs init).isSome = true) :
    Run Step init (trace cs) (after cs) := by
  obtain ⟨⟨tr, s⟩, hplay⟩ := Option.isSome_iff_exists.mp h
  rw [trace, after, hplay]
  exact run_of_play hplay

/-- A schedule of two threads at the end of which both are in no call. -/
theorem quiet_after {cs : List (Thr × Choice)} (hplay : (play cs init).isSome = true)
    (hcs : ∀ c ∈ cs, c.1 < 2) (h0 : (after cs).pc 0 = .idle) (h1 : (after cs).pc 1 = .idle) :
    (after cs).Quiet := by
  intro t
  rcases Nat.lt_or_ge t 2 with ht | ht
  · interval_cases t
    · exact h0
    · exact h1
  · obtain ⟨⟨tr, s⟩, hplay⟩ := Option.isSome_iff_exists.mp hplay
    rw [after, hplay]
    exact quiet_of_play hplay fun c hc => ((hcs c hc).trans_le ht).ne

/-- A load in between: no thread is in one of the calls or has a reference, but the vnode is still
in the table, with a count of one. -/
theorem emufs_vnode_leaked : Run Step init (trace loadInBetween) (after loadInBetween) ∧
    (after loadInBetween).Quiet ∧ 0 ∈ (after loadInBetween).pool.vnodes ∧
    (after loadInBetween).pool.refcount 0 = 1 ∧ (after loadInBetween).pool.refsTo 0 = 0 := by
  refine ⟨run_after (by decide), quiet_after (by decide) (by decide) (by decide) (by decide), ?_⟩
  decide

theorem emufs_refcounts_iff_loadTwice : (after loadTwice).Quiet ∧
    (after loadTwice).pool.refs = [(0, 0)] ∧
    ∀ v ∈ (after loadTwice).pool.vnodes,
      (after loadTwice).pool.refcount v = (after loadTwice).pool.refsTo v := by
  have hnone : NoneRefused (trace loadTwice) (after loadTwice) := by
    have htrace : trace loadTwice = [] := by decide
    rw [htrace]
    exact fun v _ e => List.not_mem_nil
  refine ⟨quiet_after (by decide) (by decide) (by decide) (by decide), by decide, ?_⟩
  exact ((emufs_refcounts_iff (run_after (by decide))).2.mpr hnone).1

end Os161.Vfs.Emufs
