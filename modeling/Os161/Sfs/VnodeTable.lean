import Mathlib.Tactic
import Os161.Vfs.Refcount

/-!
# The vnode table of SFS under concurrency

Model of `sfs_loadvnode` and `sfs_reclaim` (`kern/fs/sfs/sfs_vnode.c`) and of `vnode_incref` and
`vnode_decref` (`kern/fs/vfs/vnode.c`), as threads interleave in them. A thread can be preempted at
every lock operation and blocks in every device transfer; what it does in between is one step.

The table itself has no lock. `sfs_loadvnode` searches it, and then either takes a reference under
`vn_countlock` or reads the inode and adds a vnode; `sfs_reclaim` tests the count under
`vn_countlock`, writes to the disk, and then removes the vnode. Each of the two is a stretch that
relies on what has been found out at its start (`Pc.window`). The table is in order as long as no
two threads are in such a stretch for the same inode, and not otherwise.
-/

namespace Os161.Vfs.SfsTable

/-- Where a thread is. -/
inductive Pc where
  /-- In none of the calls. -/
  | idle
  /-- `sfs_loadvnode`, at the search of the table. -/
  | loadSearch (ino : ℕ)
  /-- The vnode has been found: `vnode_incref`. -/
  | increfLock (v : Vn)
  | incref (v : Vn)
  | increfUnlock (v : Vn)
  /-- It has not: the block of the inode is read, and then a vnode is added. -/
  | loadRead (ino : ℕ)
  | loadAdd (ino : ℕ)
  /-- `vnode_decref`. -/
  | decrefLock (v : Vn)
  | decref (v : Vn)
  | decrefUnlock (v : Vn) (actuallyDoIt : Bool)
  /-- `sfs_reclaim`, up to the test of the count. -/
  | reclaimLock (v : Vn)
  | reclaimTest (v : Vn)
  /-- The vnode is in use: `lock_release(vn_countlock)`. -/
  | busyUnlock (v : Vn)
  /-- It is not: `lock_release(vn_countlock)`, the truncation and the write of the inode, and the
  removal. -/
  | reclaimUnlock (v : Vn)
  | reclaimIo (v : Vn)
  | reclaimRemove (v : Vn)
  /-- The vnode is out of the table: `VOP_KILL` and `kfree`. -/
  | reclaimKill (v : Vn)
deriving DecidableEq

/-- The state: the vnodes, which structures have been freed, and where the threads are. -/
structure State where
  pool : Pool
  freed : Vn → Bool
  pc : Thr → Pc

/-- What happens in a step, if it is not silent. -/
inductive Event where
  /-- `sfs_reclaim` has returned an error of the device. -/
  | refused (v : Vn)
deriving DecidableEq

/-- What the outside decides about a step of a thread: which call it makes, how a device transfer
ends (`again` is a transfer after which there is another one), whether there is memory. -/
inductive Choice where
  | callLoad (ino : ℕ)
  | callDecref (v : Vn)
  | go
  | again
  | fails

namespace State

variable (s : State) (t : Thr)

/-- The thread goes on at `pc`. -/
def goto (pc : Pc) : State := { s with pc := Function.update s.pc t pc }

/-- Change the vnodes. -/
def onPool (f : Pool → Pool) : State := { s with pool := f s.pool }

/-- `lock_acquire(vn_countlock)`. The lock of a structure that has been freed is gone. -/
def lockCount (v : Vn) (next : Pc) : Option (List Event × State) :=
  if s.pool.countlock v = none ∧ s.freed v = false then
    some ([], (s.onPool fun p => p.setCountlock v (some t)).goto t next)
  else none

/-- `lock_release(vn_countlock)`. -/
def unlockCount (v : Vn) (next : Pc) : State :=
  (s.onPool fun p => p.setCountlock v none).goto t next

/-- The thread `t` goes on in the call it is in. It blocks at a lock that is taken, and stops at an
assertion that does not hold. -/
def go : Option (List Event × State) :=
  match s.pc t with
  | .idle => none
  | .loadSearch ino =>
    match s.pool.find ino with
    | some v => some ([], s.goto t (.increfLock v))
    | none => some ([], s.goto t (.loadRead ino))
  | .increfLock v => s.lockCount t v (.incref v)
  | .incref v => some ([], (s.onPool fun p => p.incr t v).goto t (.increfUnlock v))
  | .increfUnlock v => some ([], s.unlockCount t v .idle)
  | .loadRead ino => some ([], s.goto t (.loadAdd ino))
  | .loadAdd ino => some ([], (s.onPool fun p => p.insert t ino).goto t .idle)
  | .decrefLock v => s.lockCount t v (.decref v)
  | .decref v =>
    if s.pool.refcount v = 0 then none
    else if s.pool.refcount v > 1 then
      some ([], (s.onPool fun p => p.decr t v).goto t (.decrefUnlock v false))
    else some ([], s.goto t (.decrefUnlock v true))
  | .decrefUnlock v actuallyDoIt =>
    some ([], s.unlockCount t v (if actuallyDoIt then .reclaimLock v else .idle))
  | .reclaimLock v => s.lockCount t v (.reclaimTest v)
  | .reclaimTest v =>
    if s.pool.refcount v = 0 then none
    else if s.pool.refcount v ≠ 1 then
      some ([], (s.onPool fun p => p.decr t v).goto t (.busyUnlock v))
    else some ([], s.goto t (.reclaimUnlock v))
  | .busyUnlock v => some ([], s.unlockCount t v .idle)
  | .reclaimUnlock v => some ([], s.unlockCount t v (.reclaimIo v))
  | .reclaimIo v => some ([], s.goto t (.reclaimRemove v))
  | .reclaimRemove v =>
    if v ∈ s.pool.vnodes then
      some ([], (s.onPool fun p => p.remove t v).goto t (.reclaimKill v))
    else none
  | .reclaimKill v =>
    if s.pool.refcount v = 1 then
      some ([], { s with freed := Function.update s.freed v true }.goto t .idle)
    else none

/-- One step of the thread `t`. A thread gives up a reference that it has. -/
def step : Choice → Option (List Event × State)
  | .callLoad ino => if s.pc t = .idle then some ([], s.goto t (.loadSearch ino)) else none
  | .callDecref v =>
    if s.pc t = .idle ∧ (t, v) ∈ s.pool.refs then some ([], s.goto t (.decrefLock v)) else none
  | .go => s.go t
  | .again =>
    -- A reclaim with no more links to the file makes many transfers.
    match s.pc t with
    | .reclaimIo v => some ([], s.goto t (.reclaimIo v))
    | _ => none
  | .fails =>
    -- The device, or `kmalloc` in `sfs_loadvnode`.
    match s.pc t with
    | .loadRead _ | .loadAdd _ => some ([], s.goto t .idle)
    | .reclaimIo v => some ([.refused v], (s.onPool fun p => p.forget t v).goto t .idle)
    | _ => none

end State

/-- A step of some thread. -/
def Step (s : State) (es : List Event) (s' : State) : Prop :=
  ∃ t c, s.step t c = some (es, s')

/-- The file system when it has been mounted: nothing is loaded. -/
def init : State := ⟨.empty, fun _ => false, fun _ => .idle⟩

/-- Follow a schedule: who makes the next step, and what the outside decides about it. -/
def play (cs : List (Thr × Choice)) : State → Option (List Event × State) :=
  follow (fun s c => s.step c.1 c.2) cs

/-- The state after a schedule, and its events. -/
def after (cs : List (Thr × Choice)) : State := ((play cs init).getD ([], init)).2

def trace (cs : List (Thr × Choice)) : List Event := ((play cs init).getD ([], init)).1

theorem run_after {cs : List (Thr × Choice)} (h : (play cs init).isSome = true) :
    Run Step init (trace cs) (after cs) := by
  obtain ⟨⟨tr, s⟩, hplay⟩ := Option.isSome_iff_exists.mp h
  rw [trace, after, hplay]
  exact Run.of_follow (fun _ c _ _ hs => ⟨c.1, c.2, hs⟩) hplay

/-- Thread `t` makes `n` steps in the call it is in. -/
def going (t : Thr) (n : ℕ) : List (Thr × Choice) := List.replicate n (t, .go)

/-- Two threads load the inode 5, and the second one searches the table while the first one waits
for the disk. -/
def loadTwice : List (Thr × Choice) :=
  (0, .callLoad 5) :: going 0 1 ++ (1, .callLoad 5) :: going 1 3 ++ going 0 2

/-- The inode in whose stretch the thread is: between the search of `sfs_loadvnode` and the moment
at which the reference is counted or the vnode is in the table, or between the test and the removal
in `sfs_reclaim`. -/
def Pc.window (key : Vn → ℕ) : Pc → Option ℕ
  | .loadRead ino | .loadAdd ino => some ino
  | .increfLock v | .incref v | .reclaimUnlock v | .reclaimIo v | .reclaimRemove v => some (key v)
  | _ => none

/-- No two threads are in such a stretch for the same inode. -/
def State.Apart (s : State) : Prop :=
  ∀ t u ino, (s.pc t).window s.pool.key = some ino → (s.pc u).window s.pool.key = some ino → u = t

/-- A step of threads that keep apart. -/
def ApartStep (s : State) (es : List Event) (s' : State) : Prop := s.Apart ∧ Step s es s'

/-- The thread is giving up a reference to this vnode. -/
def Pc.gives : Pc → Option Vn
  | .decrefLock v | .decref v | .decrefUnlock v true | .reclaimLock v | .reclaimTest v
  | .reclaimUnlock v | .reclaimIo v | .reclaimRemove v => some v
  | _ => none

/-- The thread has found this vnode in the table. -/
def Pc.found : Pc → Option Vn
  | .increfLock v | .incref v => some v
  | _ => none

/-- The thread has the last reference to this vnode. -/
def Pc.last : Pc → Option Vn
  | .reclaimUnlock v | .reclaimIo v | .reclaimRemove v => some v
  | _ => none

/-- The thread has found no vnode with this inode number. -/
def Pc.missing : Pc → Option ℕ
  | .loadRead ino | .loadAdd ino => some ino
  | _ => none

/-- The thread is freeing this vnode. -/
def Pc.kills : Pc → Option Vn
  | .reclaimKill v => some v
  | _ => none

theorem Pc.window_of_found {pc : Pc} {v : Vn} (h : pc.found = some v) (key : Vn → ℕ) :
    pc.window key = some (key v) := by
  cases pc <;> simp_all [Pc.found, Pc.window]

theorem Pc.window_of_last {pc : Pc} {v : Vn} (h : pc.last = some v) (key : Vn → ℕ) :
    pc.window key = some (key v) := by
  cases pc <;> simp_all [Pc.last, Pc.window]

theorem Pc.window_of_missing {pc : Pc} {ino : ℕ} (h : pc.missing = some ino) (key : Vn → ℕ) :
    pc.window key = some ino := by
  cases pc <;> simp_all [Pc.missing, Pc.window]

/-- When a thread leaves its stretch, nobody is in one for that inode. -/
theorem State.Apart.left {s : State} {t : Thr} {ino : ℕ} (h : s.Apart)
    (ht : (s.pc t).window s.pool.key = some ino) (pc : Pc) (hpc : pc.window s.pool.key = none)
    (u : Thr) : ((s.goto t pc).pc u).window s.pool.key ≠ some ino := by
  intro hu
  by_cases hut : u = t
  · have hself : (s.goto t pc).pc u = pc := by rw [hut]; exact Function.update_self _ _ _
    rw [hself, hpc] at hu
    cases hu
  · have hother : (s.goto t pc).pc u = s.pc u := Function.update_of_ne hut _ _
    rw [hother] at hu
    exact hut (h t u ino ht hu)

/-- The references to `v` that a failed reclaim has given up. -/
def lost (tr : List Event) (v : Vn) : ℕ := tr.countP fun e => match e with | .refused w => w = v

/-- What the threads rely on. -/
abbrev State.Knows (s : State) : Prop :=
  s.pool.Knows (fun u => (s.pc u).gives) (fun u => (s.pc u).found) fun u => (s.pc u).last

/-- A vnode that is out of the table for good. -/
def State.Gone (s : State) (v : Vn) : Prop := v ∉ s.pool.vnodes ∧ v < s.pool.created

/-- The invariant. -/
structure Inv (tr : List Event) (s : State) : Prop where
  counted : s.pool.Counted (lost tr)
  unique : ∀ v ∈ s.pool.vnodes, ∀ w ∈ s.pool.vnodes, s.pool.key v = s.pool.key w → v = w
  knows : s.Knows
  missing : ∀ t ino, (s.pc t).missing = some ino → ∀ v ∈ s.pool.vnodes, s.pool.key v ≠ ino
  kills : ∀ t v, (s.pc t).kills = some v → s.Gone v
  freed : ∀ v, s.freed v = true → s.Gone v

theorem inv_init : Inv [] init where
  counted := Pool.counted_empty
  unique := nofun
  knows := ⟨nofun, nofun, nofun⟩
  missing := nofun
  kills := nofun
  freed := nofun

namespace Inv

variable {tr : List Event} {s : State} {t : Thr} {v : Vn}

/-- The thread `t` goes on at a point whose conditions hold. -/
theorem goto (h : Inv tr s) (pc : Pc) (hgives : ∀ v, pc.gives = some v → (t, v) ∈ s.pool.refs)
    (hfound : ∀ v, pc.found = some v → v ∈ s.pool.vnodes)
    (hlast : ∀ v, pc.last = some v → pc.gives = some v ∧ s.pool.refsTo v = 1)
    (hmissing : ∀ ino, pc.missing = some ino → ∀ v ∈ s.pool.vnodes, s.pool.key v ≠ ino)
    (hkills : ∀ v, pc.kills = some v → s.Gone v) : Inv tr (s.goto t pc) := by
  have hself : (s.goto t pc).pc t = pc := Function.update_self _ _ _
  have hother (u : Thr) (hu : u ≠ t) : (s.goto t pc).pc u = s.pc u := Function.update_of_ne hu _ _
  refine ⟨h.counted, h.unique, h.knows.set (t := t) (fun u hu => ?_) ?_ ?_ ?_, fun u ino hu => ?_,
    fun u v hu => ?_, h.freed⟩
  · rw [hother u hu]
    exact ⟨rfl, rfl, rfl⟩
  · rwa [hself]
  · rwa [hself]
  · rwa [hself]
  · by_cases hut : u = t
    · subst hut
      exact hmissing ino (hself ▸ hu)
    · exact h.missing u ino (hother u hut ▸ hu)
  · by_cases hut : u = t
    · subst hut
      exact hkills v (hself ▸ hu)
    · exact h.kills u v (hother u hut ▸ hu)

/-- A point at which the thread knows nothing. -/
theorem goto_free (h : Inv tr s) (pc : Pc) (hgives : pc.gives = none) (hfound : pc.found = none)
    (hlast : pc.last = none) (hmissing : pc.missing = none) (hkills : pc.kills = none) :
    Inv tr (s.goto t pc) := by
  refine h.goto pc ?_ ?_ ?_ ?_ ?_ <;> simp [hgives, hfound, hlast, hmissing, hkills]

theorem setCountlock (h : Inv tr s) (v : Vn) (owner : Option Thr) :
    Inv tr (s.onPool fun p => p.setCountlock v owner) :=
  ⟨h.counted.setCountlock v owner, h.unique, h.knows.setCountlock v owner, h.missing, h.kills,
    h.freed⟩

theorem decr (h : Inv tr s) (hpc : (s.pc t).gives = none) (hr : (t, v) ∈ s.pool.refs)
    (hcount : 1 < s.pool.refcount v) : Inv tr (s.onPool fun p => p.decr t v) :=
  ⟨h.counted.decr hr hcount, h.unique, h.knows.decr hpc hr, h.missing, h.kills, h.freed⟩

/-- A failed reclaim. -/
theorem forget (h : Inv tr s) (hpc : (s.pc t).gives = none) (hr : (t, v) ∈ s.pool.refs) :
    Inv (tr ++ [.refused v]) (s.onPool fun p => p.forget t v) := by
  have hlost : lost (tr ++ [.refused v]) = fun w => lost tr w + if v = w then 1 else 0 := by
    funext w
    simp [lost, List.countP_append, List.countP_singleton]
  refine ⟨?_, h.unique, h.knows.forget hpc hr, h.missing, h.kills, h.freed⟩
  rw [hlost]
  exact h.counted.forget hr

/-- A reference is taken to a vnode that nobody is about to remove. -/
theorem incr (h : Inv tr s) (hv : v ∈ s.pool.vnodes) (hlast : ∀ u, (s.pc u).last ≠ some v) :
    Inv tr (s.onPool fun p => p.incr t v) :=
  ⟨h.counted.incr t hv, h.unique, h.knows.incr t hlast, h.missing, h.kills, h.freed⟩

/-- A vnode is added for an inode that has none and that nobody else is adding. -/
theorem insert (h : Inv tr s) {ino : ℕ} (hnone : ∀ v ∈ s.pool.vnodes, s.pool.key v ≠ ino)
    (hmissing : ∀ u, (s.pc u).missing ≠ some ino) :
    Inv tr (s.onPool fun p => p.insert t ino) := by
  have hnew : (s.pool.insert t ino).key s.pool.created = ino := Function.update_self _ _ _
  have hold {w : Vn} (hw : w ∈ s.pool.vnodes) : (s.pool.insert t ino).key w = s.pool.key w :=
    Function.update_of_ne (h.counted.lt w hw).ne _ _
  have hgone {w : Vn} (hw : s.Gone w) : (s.onPool fun p => p.insert t ino).Gone w := by
    refine ⟨fun hmem => ?_, hw.2.trans (Nat.lt_succ_self _)⟩
    rcases List.mem_append.mp hmem with hmem | hmem
    · exact hw.1 hmem
    · exact absurd hw.2 (List.mem_singleton.mp hmem ▸ lt_irrefl _)
  refine ⟨h.counted.insert t ino, fun v hv w hw => ?_, h.knows.insert h.counted t ino, ?_,
    fun u w hu => hgone (h.kills u w hu), fun w hw => hgone (h.freed w hw)⟩
  · show (s.pool.insert t ino).key v = (s.pool.insert t ino).key w → v = w
    rcases List.mem_append.mp hv with hv | hv <;> rcases List.mem_append.mp hw with hw | hw
    · rw [hold hv, hold hw]
      exact h.unique v hv w hw
    · rw [hold hv, List.mem_singleton.mp hw, hnew]
      exact fun heq => absurd heq (hnone v hv)
    · rw [hold hw, List.mem_singleton.mp hv, hnew]
      exact fun heq => absurd heq.symm (hnone w hw)
    · exact fun _ => (List.mem_singleton.mp hv).trans (List.mem_singleton.mp hw).symm
  · intro u i hu w hw
    show (s.pool.insert t ino).key w ≠ i
    rcases List.mem_append.mp hw with hw | hw
    · rw [hold hw]
      exact h.missing u i hu w hw
    · rw [List.mem_singleton.mp hw, hnew]
      rintro rfl
      exact hmissing u hu

/-- A vnode leaves the table that nobody has found there and is about to use. -/
theorem remove (h : Inv tr s) (hpc : (s.pc t).gives = none) (hr : (t, v) ∈ s.pool.refs)
    (hone : s.pool.refsTo v = 1) (hfound : ∀ u, (s.pc u).found ≠ some v) :
    Inv tr (s.onPool fun p => p.remove t v) := by
  have hmem {w : Vn} (hw : w ∈ s.pool.vnodes.erase v) : w ∈ s.pool.vnodes := List.mem_of_mem_erase hw
  have hgone {w : Vn} (hw : s.Gone w) : (s.onPool fun p => p.remove t v).Gone w :=
    ⟨fun hin => hw.1 (hmem hin), hw.2⟩
  exact ⟨h.counted.remove hr hone, fun v hv w hw => h.unique v (hmem hv) w (hmem hw),
    h.knows.remove hpc hr hfound, fun u i hu w hw => h.missing u i hu w (hmem hw),
    fun u w hu => hgone (h.kills u w hu), fun w hw => hgone (h.freed w hw)⟩

theorem free (h : Inv tr s) (hv : s.Gone v) :
    Inv tr { s with freed := Function.update s.freed v true } := by
  refine ⟨h.counted, h.unique, h.knows, h.missing, h.kills, fun w hw => ?_⟩
  by_cases hwv : w = v
  · exact hwv ▸ hv
  · exact h.freed w (Function.update_of_ne hwv true s.freed ▸ hw)

/-- A silent step. -/
theorem silent (h : Inv tr s) : Inv (tr ++ []) s := by
  rwa [List.append_nil]

/-- `lock_acquire(vn_countlock)` on the way to a point whose conditions hold. -/
theorem lockCount {es : List Event} {s' : State} {pc : Pc} (h : Inv tr (s.goto t pc))
    (hs : s.lockCount t v pc = some (es, s')) : Inv (tr ++ es) s' := by
  rw [State.lockCount] at hs
  split at hs
  · cases hs
    exact (h.setCountlock v (some t)).silent
  · cases hs

/-- The steps of a thread in a call keep the invariant, as long as threads keep apart. -/
theorem go {es : List Event} {s' : State} (h : Inv tr s) (hap : s.Apart)
    (hs : s.go t = some (es, s')) : Inv (tr ++ es) s' := by
  -- What the thread knows at the point where it is.
  have hgives := h.knows.gives t
  have hfound := h.knows.found t
  have hlast := h.knows.last t
  have hmissing := h.missing t
  cases hpc : s.pc t with
  | idle => simp [State.go, hpc] at hs
  | loadSearch ino =>
    simp only [State.go, hpc] at hs
    split at hs
    case h_1 v hv =>
      cases hs
      have hmem := (Pool.find_mem hv).1
      exact (h.goto (.increfLock v) nofun (by simpa [Pc.found] using hmem) nofun nofun nofun).silent
    case h_2 hnone =>
      cases hs
      have hnone := Pool.find_none hnone
      exact (h.goto (.loadRead ino) nofun nofun nofun (by simpa [Pc.missing] using hnone)
        nofun).silent
  | increfLock v =>
    simp only [State.go, hpc] at hs
    rw [hpc] at hfound
    exact lockCount (h.goto (.incref v) nofun hfound nofun nofun nofun) hs
  | incref v =>
    simp only [State.go, hpc] at hs
    cases hs
    have hv : v ∈ s.pool.vnodes := hfound v (by rw [hpc]; rfl)
    have hgo : Inv tr (s.goto t (.increfUnlock v)) := h.goto_free _ rfl rfl rfl rfl rfl
    -- A thread with the last reference would be in the same stretch.
    have hleft := hap.left (t := t) (by rw [hpc]; rfl) (.increfUnlock v) rfl
    exact (hgo.incr hv fun u hu => hleft u (Pc.window_of_last hu _)).silent
  | increfUnlock v =>
    simp only [State.go, hpc] at hs
    cases hs
    exact ((h.setCountlock v none).goto_free .idle rfl rfl rfl rfl rfl).silent
  | loadRead ino =>
    simp only [State.go, hpc] at hs
    cases hs
    rw [hpc] at hmissing
    exact (h.goto (.loadAdd ino) nofun nofun nofun hmissing nofun).silent
  | loadAdd ino =>
    simp only [State.go, hpc] at hs
    cases hs
    have hgo : Inv tr (s.goto t .idle) := h.goto_free _ rfl rfl rfl rfl rfl
    have hleft := hap.left (t := t) (by rw [hpc]; rfl) .idle rfl
    exact (hgo.insert (hmissing ino (by rw [hpc]; rfl)) fun u hu =>
      hleft u (Pc.window_of_missing hu _)).silent
  | decrefLock v =>
    simp only [State.go, hpc] at hs
    rw [hpc] at hgives
    exact lockCount (h.goto (.decref v) hgives nofun nofun nofun nofun) hs
  | decref v =>
    simp only [State.go, hpc] at hs
    rw [hpc] at hgives
    split at hs
    · cases hs
    split at hs
    case isTrue hcount =>
      cases hs
      have hgo : Inv tr (s.goto t (.decrefUnlock v false)) := h.goto_free _ rfl rfl rfl rfl rfl
      exact (hgo.decr (by simp [State.goto, Pc.gives]) (hgives v rfl) hcount).silent
    · cases hs
      exact (h.goto (.decrefUnlock v true) hgives nofun nofun nofun nofun).silent
  | decrefUnlock v actuallyDoIt =>
    simp only [State.go, hpc] at hs
    cases hs
    have hset := h.setCountlock v none
    cases actuallyDoIt with
    | false => exact (hset.goto_free .idle rfl rfl rfl rfl rfl).silent
    | true =>
      rw [hpc] at hgives
      exact (hset.goto (.reclaimLock v) hgives nofun nofun nofun nofun).silent
  | reclaimLock v =>
    simp only [State.go, hpc] at hs
    rw [hpc] at hgives
    exact lockCount (h.goto (.reclaimTest v) hgives nofun nofun nofun nofun) hs
  | reclaimTest v =>
    simp only [State.go, hpc] at hs
    rw [hpc] at hgives
    split at hs
    · cases hs
    case isFalse hzero =>
    split at hs
    case isTrue hcount =>
      cases hs
      have hgo : Inv tr (s.goto t (.busyUnlock v)) := h.goto_free _ rfl rfl rfl rfl rfl
      have hmore : 1 < s.pool.refcount v := by omega
      exact (hgo.decr (by simp [State.goto, Pc.gives]) (hgives v rfl) hmore).silent
    case isFalse hcount =>
      cases hs
      have hone := h.counted.refsTo_one (hgives v rfl) (not_not.mp hcount)
      exact (h.goto (.reclaimUnlock v) hgives nofun (by simpa [Pc.last, Pc.gives] using hone)
        nofun nofun).silent
  | busyUnlock v =>
    simp only [State.go, hpc] at hs
    cases hs
    exact ((h.setCountlock v none).goto_free .idle rfl rfl rfl rfl rfl).silent
  | reclaimUnlock v =>
    simp only [State.go, hpc] at hs
    cases hs
    rw [hpc] at hgives hlast
    exact ((h.setCountlock v none).goto (.reclaimIo v) hgives nofun hlast nofun nofun).silent
  | reclaimIo v =>
    simp only [State.go, hpc] at hs
    cases hs
    rw [hpc] at hgives hlast
    exact (h.goto (.reclaimRemove v) hgives nofun hlast nofun nofun).silent
  | reclaimRemove v =>
    simp only [State.go, hpc] at hs
    have hr : (t, v) ∈ s.pool.refs := hgives v (by rw [hpc]; rfl)
    have hone : s.pool.refsTo v = 1 := (hlast v (by rw [hpc]; rfl)).2
    split at hs
    case isTrue hv =>
      cases hs
      have hgo : Inv tr (s.goto t .idle) := h.goto_free _ rfl rfl rfl rfl rfl
      have hleft := hap.left (t := t) (by rw [hpc]; rfl) .idle rfl
      have hrem := hgo.remove (v := v) (by simp [State.goto, Pc.gives]) hr hone fun u hu =>
        hleft u (Pc.window_of_found hu _)
      have hgone : ((s.goto t .idle).onPool fun p => p.remove t v).Gone v :=
        ⟨h.counted.nodup.not_mem_erase, h.counted.lt v hv⟩
      have hkill := hrem.goto (t := t) (.reclaimKill v) nofun nofun nofun nofun
        (by simpa [Pc.kills] using hgone)
      have heq : ((s.goto t .idle).onPool fun p => p.remove t v).goto t (.reclaimKill v) =
          (s.onPool fun p => p.remove t v).goto t (.reclaimKill v) := by
        simp [State.goto, State.onPool]
      exact (heq ▸ hkill).silent
    · cases hs
  | reclaimKill v =>
    simp only [State.go, hpc] at hs
    split at hs
    · cases hs
      have hgone := h.kills t v (by rw [hpc]; rfl)
      exact ((h.free hgone).goto_free .idle rfl rfl rfl rfl rfl).silent
    · cases hs

end Inv

theorem ApartStep.inv {tr es : List Event} {s s' : State} (h : Inv tr s) (hs : ApartStep s es s') :
    Inv (tr ++ es) s' := by
  obtain ⟨hap, t, c, hs⟩ := hs
  cases c with
  | callLoad ino =>
    simp only [State.step] at hs
    split at hs
    · cases hs
      exact (h.goto_free (.loadSearch ino) rfl rfl rfl rfl rfl).silent
    · cases hs
  | callDecref v =>
    simp only [State.step] at hs
    split at hs
    case isTrue hcall =>
      cases hs
      exact (h.goto (.decrefLock v) (by simpa [Pc.gives] using hcall.2) nofun nofun nofun
        nofun).silent
    · cases hs
  | go => exact h.go hap hs
  | again =>
    simp only [State.step] at hs
    split at hs
    case h_1 v hpc =>
      cases hs
      have hgives := h.knows.gives t
      have hlast := h.knows.last t
      rw [hpc] at hgives hlast
      exact (h.goto (.reclaimIo v) hgives nofun hlast nofun nofun).silent
    · cases hs
  | fails =>
    simp only [State.step] at hs
    split at hs
    · cases hs
      exact (h.goto_free .idle rfl rfl rfl rfl rfl).silent
    · cases hs
      exact (h.goto_free .idle rfl rfl rfl rfl rfl).silent
    case h_3 v hpc =>
      cases hs
      have hr : (t, v) ∈ s.pool.refs := h.knows.gives t v (by rw [hpc]; rfl)
      have hgo : Inv tr (s.goto t .idle) := h.goto_free _ rfl rfl rfl rfl rfl
      exact hgo.forget (by simp [State.goto, Pc.gives]) hr
    · cases hs

/-- A step moves the thread that makes it. -/
theorem State.step_pc {s s' : State} {t : Thr} {c : Choice} {es : List Event}
    (h : s.step t c = some (es, s')) : ∃ pc, s'.pc = Function.update s.pc t pc := by
  cases c with
  | go =>
    simp only [State.step, State.go, State.lockCount] at h
    split at h
    all_goals
      try split at h
      all_goals
        try split at h
        all_goals
          cases h
          try exact ⟨_, rfl⟩
  | _ =>
    simp only [State.step] at h
    split at h <;> cases h <;> exact ⟨_, rfl⟩

end Os161.Vfs.SfsTable
