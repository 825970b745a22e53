import Os161.Lib.KheapReturns
import Os161.Lib.Queue
import Os161.Vm.AsCopy
import Os161.Vm.Processes

/-!
# A fork that fails

`sys_fork` and `thread_fork` with every allocation they make: the copy of the trap frame, the new
address space, the thread structure and its name, the lock and the two condition variables, the
stack, and the vectors of `sleepers`, `zombies` and the run queue, which may be replaced by larger
ones. Each of them goes to the real heap and may be refused there.

The state lists what has been obtained and not yet released, address spaces (`spaces`) and blocks
(`blocks`). The heap agrees with these lists (`Owns`), and every call keeps it so
(`kmallocBlock_spec` and what follows, up to `sysFork_spec`).

`fork_leaves_nothing_iff` says when a fork that makes no child leaves nothing behind: when the copy
of the trap frame is refused, or when `as_copy` is refused its first page and the variable `err`,
which `sys_fork` has not set then, happens not to be zero. In the other cases memory is lost or the
machine stops: no path of `sys_fork` gives the new address space back.
-/

namespace Os161.Forks

open Prog Syscall

/-! ## The state -/

/-- The lists of threads whose vectors are on the heap. -/
inductive ListName where
  | sleepers
  | zombies
  | runqueue
deriving DecidableEq

/-- Memory, with the live address spaces and the blocks that callers of the heap have, and what
`sys_fork` and `thread_fork` use of the current thread: its address space, the length of its name,
its child table, the reference count of its current directory. -/
structure State where
  sys : VmSys
  spaces : List ℕ
  blocks : List KBlock
  vmspace : ℕ
  nameLength : ℕ
  child : ℕ → Option ℕ
  cwd : Option ℕ
  numthreads : ℕ
  pidAssign : ℤ
  sleepers : KArray ℕ
  zombies : KArray ℕ
  runqueue : KQueue ℕ
  /-- The vectors of the lists. -/
  vec : ListName → Option KBlock

/-- Stretches of kernel code. -/
abbrev ForkM := Prog Errno State

/-- A call that concerns memory only. -/
def onMem {α : Type} (m : AsM α) : ForkM α := zoom State.sys (fun s sys => { s with sys := sys }) m

/-- `splx`. -/
def splxMem (spl : ℕ) : ForkM ℕ := onMem (onKern (onVm (splx spl)))

/-- `kmalloc`. -/
def kmallocBlock (sz : ℕ) : ForkM ℕ := do
  let a ← onMem (onKern (kmalloc sz))
  modify fun s => { s with blocks := if a = 0 then s.blocks else ⟨a, sz⟩ :: s.blocks }
  return a

/-- `kfree` of a block. -/
def kfreeBlock (b : KBlock) : ForkM Unit := do
  onMem (onKern (kfree b.addr))
  modify fun s => { s with blocks := s.blocks.erase b }

/-! ## The lists of threads -/

/-- A call that may replace the vector of a list by one of `size` bytes. The functions of `array.c`
and `queue.c` are told whether `kmalloc` has returned the null pointer. -/
def growVec (l : ListName) (size : Option ℕ) (call : List Bool → ForkM Unit) : ForkM Unit := do
  match size with
  | none => call []
  | some n =>
    let newv ← kmallocBlock n
    call [newv = 0]
    let old ← gets fun s => s.vec l
    match old with
    | none => pure ()
    | some b => kfreeBlock b
    modify fun s => { s with vec := Function.update s.vec l (some ⟨newv, n⟩) }

/-- `array_preallocate(sleepers, n)`. -/
def preallocateSleepers (n : ℕ) : ForkM Unit := do
  let max ← gets (·.sleepers.max)
  growVec .sleepers (some (u32 (4 * growMax n n max))) fun nomem =>
    zoom (fun s => ⟨s.sleepers, nomem⟩) (fun s a => { s with sleepers := a.obj })
      (arrayPreallocate n)

/-- `array_preallocate(zombies, n)`. -/
def preallocateZombies (n : ℕ) : ForkM Unit := do
  let max ← gets (·.zombies.max)
  growVec .zombies (some (u32 (4 * growMax n n max))) fun nomem =>
    zoom (fun s => ⟨s.zombies, nomem⟩) (fun s a => { s with zombies := a.obj })
      (arrayPreallocate n)

/-- A call of a queue function on the run queue. -/
def onRunqueue (m : QueueM ℕ Unit) (nomem : List Bool) : ForkM Unit :=
  zoom (fun s => ⟨s.runqueue, nomem⟩) (fun s a => { s with runqueue := a.obj }) m

/-- `assert(curspl>0)`. -/
def assertSpl : ForkM Unit := do
  let s ← get
  require (s.sys.kern.vm.curspl > 0) "Assertion failed: curspl>0"

/-- `scheduler_preallocate`. -/
def schedulerPreallocate (n : ℕ) : ForkM Unit := do
  assertSpl
  let q ← gets (·.runqueue)
  growVec .runqueue (if n > q.size then some (u32 (4 * growSize n n q.size)) else none)
    (onRunqueue (qPreallocate n))

/-- `make_runnable`. -/
def makeRunnable (t : ℕ) : ForkM Unit := do
  assertSpl
  let q ← gets (·.runqueue)
  growVec .runqueue
    (if (q.nextwrite + 1) % q.size = q.nextread then
      some (u32 (4 * growSize (q.size + 1) (q.size + 1) q.size))
    else none)
    (onRunqueue (qAddtail t))

/-! ## `thread_create` and `thread_fork` -/

/-- `sizeof(struct thread)`. -/
def threadSize : ℕ := 196

/-- `sizeof(struct lock)`. -/
def lockSize : ℕ := 8

/-- `sizeof(struct cv)`. -/
def cvSize : ℕ := 4

/-- `STACK_SIZE`. -/
def stackSize : ℕ := 4096

/-- The size of a string of `length` characters. -/
def nameSize (length : ℕ) : ℕ := u32 (length + 1)

/-- `kstrdup` of a string of `length` characters. -/
def kstrdup (length : ℕ) : ForkM ℕ := kmallocBlock (nameSize length)

/-- An object of `size` bytes with a name: `lock_create` and `cv_create` are the same code. -/
def namedCreate (size length : ℕ) : ForkM Unit := do
  let p ← kmallocBlock size
  if p ≠ 0 then
    let name ← kstrdup length
    if name = 0 then
      kfreeBlock ⟨p, size⟩

/-- `lock_create("lock")`. -/
def lockCreate : ForkM Unit := namedCreate lockSize 4

/-- `cv_create("onexit")` and `cv_create("toexit")`. -/
def cvCreate : ForkM Unit := namedCreate cvSize 6

/-- `thread_create`: the structure and the name. What `lock_create` and `cv_create` return is not
looked at. -/
def threadCreate : ForkM (Option (ℕ × ℕ)) := do
  let thread ← kmallocBlock threadSize
  if thread = 0 then
    return none
  else
    let length ← gets (·.nameLength)
    let name ← kstrdup length
    if name = 0 then
      kfreeBlock ⟨thread, threadSize⟩
      return none
    else
      lockCreate
      cvCreate
      cvCreate
      modify fun s => { s with pidAssign := s32 (s.pidAssign + 1) }
      return some (thread, name)

/-- `VOP_INCREF` of the current directory, if there is one. -/
def increfCwd : ForkM Unit := modify fun s => { s with cwd := s.cwd.map (· + 1) }

/-- `VOP_DECREF` of the current directory, if there is one. The last reference is not given up
here. -/
def decrefCwd : ForkM Unit := do
  let s ← get
  match s.cwd with
  | none => pure ()
  | some refcount =>
    require (refcount > 1) "VOP_RECLAIM of the current directory"
    modify fun s => { s with cwd := some (refcount - 1) }

/-- The first free slot of the child table. -/
def freeSlot (child : ℕ → Option ℕ) : Option ℕ := (List.range 20).find? fun i => (child i).isNone

/-- The thread is counted and entered in the child table, if there is a free slot. -/
def State.addChild (s : State) (newguy : ℕ) : State := { s with
  numthreads := s.numthreads + 1
  child := match freeSlot s.child with
    | some i => Function.update s.child i (some newguy)
    | none => s.child }

/-- The part of `thread_fork` that makes room in the lists and puts the thread on the run queue. -/
def threadEnter (newguy : ℕ) : ForkM Unit := do
  let numthreads ← gets (·.numthreads)
  preallocateSleepers (numthreads + 1)
  preallocateZombies (numthreads + 1)
  schedulerPreallocate (numthreads + 1)
  makeRunnable newguy

/-- `thread_fork`. It returns an error code. -/
def threadFork : ForkM ℤ := do
  let length ← gets (·.nameLength)
  match ← threadCreate with
  | none => return Errno.ENOMEM.code
  | some (newguy, name) =>
    let stack ← kmallocBlock stackSize
    if stack = 0 then
      kfreeBlock ⟨name, nameSize length⟩
      kfreeBlock ⟨newguy, threadSize⟩
      return Errno.ENOMEM.code
    else
      increfCwd
      let spl ← splxMem splHigh
      match ← attempt (threadEnter newguy) with
      | .ok _ =>
        modify fun s => s.addChild newguy
        let _ ← splxMem spl
        return 0
      | .error result =>
        let _ ← splxMem spl
        decrefCwd
        kfreeBlock ⟨stack, stackSize⟩
        kfreeBlock ⟨name, nameSize length⟩
        kfreeBlock ⟨newguy, threadSize⟩
        return result.code

/-- `sys_fork`. The variable `err` has the value `garbage` until it is set. -/
def sysFork (garbage : ℤ) (tf : Trapframe) (retval : ℤ) : ForkM Reply := do
  let copy ← kmallocBlock trapframeSize
  if copy = 0 then
    return ⟨Errno.ENOMEM.code, retval, tf⟩
  else
    onMem (Procs.storeFrame copy tf)
    let vmspace ← gets (·.vmspace)
    match ← attempt (onMem (asCopy vmspace)) with
    | .error _ =>
      kfreeBlock ⟨copy, trapframeSize⟩
      return ⟨garbage, retval, tf⟩
    | .ok newspace =>
      modify fun s => { s with spaces := newspace :: s.spaces }
      let spl ← splxMem splHigh
      let retval ← threadFork
      if retval ≠ 0 then
        let err := Errno.ENOMEM.code
        let _ ← splxMem spl
        kfreeBlock ⟨copy, trapframeSize⟩
        return ⟨err, retval, (tf.set .tfA3 1).set .tfV0 (BitVec.ofNat 32 err)⟩
      else
        let _ ← splxMem spl
        return ⟨0, retval, tf⟩

/-! ## What the calls have obtained -/

variable {base : ℕ} {s t : State} {S : List KBlock}

/-- The heap agrees with the lists of the state, and the blocks `S` are among those obtained. -/
structure Owns (base : ℕ) (S : List KBlock) (s : State) : Prop where
  user : UserInv base s.sys s.spaces s.blocks
  held : S.Subperm s.blocks

theorem Owns.weaken {S' : List KBlock} (h : Owns base S s) (hsub : S'.Subperm S) : Owns base S' s :=
  ⟨h.user, hsub.trans h.held⟩

/-- Nothing but the heap and the list of blocks has changed. -/
def Memory (s t : State) : Prop := t = { s with sys := t.sys, blocks := t.blocks }

theorem Memory.refl (s : State) : Memory s s := rfl

theorem Memory.trans {u : State} (h : Memory s t) (h' : Memory t u) : Memory s u := by
  rw [Memory, h] at h'
  exact h'

theorem Memory.setPid (h : Memory s t) (n : ℤ) :
    Memory { s with pidAssign := n } { t with pidAssign := n } := by
  rw [Memory] at h ⊢
  exact congrArg (fun u : State => { u with pidAssign := n }) h

theorem kmallocBlock_spec (h : Owns base S s) {sz : ℕ} (hsz : sz < 2 ^ 32) :
    Meets (kmallocBlock sz)
      (fun a t => Memory s t ∧
        (a = 0 ∧ Owns base S t ∨ a ≠ 0 ∧ Owns base (⟨a, sz⟩ :: S) t))
      (fun _ _ => False) s := by
  simp only [kmallocBlock, onMem, onKern, meets_bind, meets_zoom, meets_modify, meets_pure]
  refine (kmalloc_spec h.user.inv hsz).and_run.imp ?_
  rintro a k' ⟨-, hcall⟩
  have hstep := HeapStep.kmalloc (s := ⟨s.sys.kern, s.blocks⟩) hsz hcall
  have huser : UserInv base { s.sys with kern := k' } s.spaces
      (if a = 0 then s.blocks else ⟨a, sz⟩ :: s.blocks) :=
    h.user.of_tables (List.Subset.refl _) (hstep.inv _ h.user.inv) rfl rfl
  by_cases hnull : a = 0
  · rw [if_pos hnull] at huser ⊢
    exact ⟨rfl, .inl ⟨hnull, huser, h.held⟩⟩
  · rw [if_neg hnull] at huser ⊢
    exact ⟨rfl, .inr ⟨hnull, huser, (List.subperm_cons _).mpr h.held⟩⟩

theorem kfreeBlock_spec {b : KBlock} (h : Owns base (b :: S) s) :
    Meets (kfreeBlock b) (fun _ t => Memory s t ∧ Owns base S t) (fun _ _ => False) s := by
  have hb : b ∈ s.blocks := h.held.subset List.mem_cons_self
  have hperm := List.perm_cons_erase hb
  simp only [kfreeBlock, onMem, onKern, meets_bind, meets_zoom, meets_modify]
  refine (kfree_spec (KernInv.perm h.user.inv
    ((hperm.append_left _).trans List.perm_middle) (List.Perm.refl _))).and_run.imp ?_
  rintro _ k' ⟨-, hcall⟩
  have hstep : HeapStep ⟨s.sys.kern, s.blocks⟩ ⟨k', s.blocks.erase b⟩ := .kfree hb hcall
  have huser : UserInv base { s.sys with kern := k' } s.spaces (s.blocks.erase b) :=
    h.user.of_tables (List.Subset.refl _) (hstep.inv _ h.user.inv) rfl rfl
  exact ⟨rfl, huser, (List.subperm_cons b).mp (h.held.trans hperm.subperm)⟩

theorem splxMem_spec (h : Owns base S s) (spl : ℕ) :
    Meets (splxMem spl) (fun _ t => Memory s t ∧ Owns base S t) (fun _ _ => False) s := by
  rw [splxMem, onMem, meets_zoom]
  refine (splx_as_spec h.user.inv spl).and_run.imp ?_
  rintro a sys' ⟨hinv, hcall⟩
  have hsame := (onKern_onVm_frame (splx spl) s.sys).of_ok hcall
  exact ⟨rfl, h.user.of_tables (List.Subset.refl _) hinv hsame.1.spaces hsame.1.tables, h.held⟩

/-- `lock_create` and `cv_create` keep what they get, or get nothing. -/
theorem namedCreate_spec (h : Owns base S s) {size : ℕ} (hsize : size < 2 ^ 32) (length : ℕ) :
    Meets (namedCreate size length) (fun _ t => Memory s t ∧ Owns base S t) (fun _ _ => False) s := by
  rw [namedCreate, meets_bind]
  refine (kmallocBlock_spec h hsize).imp ?_
  rintro p t ⟨hmem, ⟨rfl, ht⟩ | ⟨hp, ht⟩⟩
  · exact ⟨hmem, ht⟩
  rw [if_pos hp, meets_bind]
  refine (kmallocBlock_spec ht (u32_lt _)).imp ?_
  rintro name u ⟨hmem', ⟨rfl, hu⟩ | ⟨hname, hu⟩⟩
  · refine (kfreeBlock_spec hu).imp fun _ v hv => ⟨(hmem.trans hmem').trans hv.1, hv.2⟩
  · rw [if_neg hname, meets_pure]
    exact ⟨hmem.trans hmem', hu.weaken ((List.sublist_cons_self _ _).trans
      (List.sublist_cons_self _ _)).subperm⟩

/-- `thread_create` gets a structure and a name, or keeps neither. -/
theorem threadCreate_spec (h : Owns base S s) :
    Meets threadCreate
      (fun r t => r = none ∧ Memory s t ∧ Owns base S t ∨
        ∃ thread name n, r = some (thread, name) ∧ Memory { s with pidAssign := n } t ∧
          Owns base (⟨name, nameSize s.nameLength⟩ :: ⟨thread, threadSize⟩ :: S) t)
      (fun _ _ => False) s := by
  rw [threadCreate, meets_bind]
  refine (kmallocBlock_spec h (by decide)).imp ?_
  rintro thread t₁ ⟨hmem₁, ⟨rfl, h₁⟩ | ⟨hthread, h₁⟩⟩
  · exact .inl ⟨rfl, hmem₁, h₁⟩
  have hlength : t₁.nameLength = s.nameLength := by rw [hmem₁]
  rw [if_neg hthread]
  simp only [meets_bind, meets_gets, hlength]
  refine (kmallocBlock_spec h₁ (u32_lt _)).imp ?_
  rintro name t₂ ⟨hmem₂, ⟨rfl, h₂⟩ | ⟨hname, h₂⟩⟩
  · rw [if_pos rfl, meets_bind]
    refine (kfreeBlock_spec h₂).imp fun _ t₃ h₃ => ?_
    exact .inl ⟨rfl, (hmem₁.trans hmem₂).trans h₃.1, h₃.2⟩
  rw [if_neg hname]
  simp only [meets_bind, meets_modify, meets_pure]
  refine (namedCreate_spec h₂ (by decide) 4).imp fun _ t₃ h₃ => ?_
  refine (namedCreate_spec h₃.2 (by decide) 6).imp fun _ t₄ h₄ => ?_
  refine (namedCreate_spec h₄.2 (by decide) 6).imp fun _ t₅ h₅ => ?_
  have hmem := (((hmem₁.trans hmem₂).trans h₃.1).trans h₄.1).trans h₅.1
  exact .inr ⟨thread, name, _, rfl, hmem.setPid _, h₅.2.user, h₅.2.held⟩

/-! ## The vectors of the lists -/

/-- The vectors that the lists have. -/
def vecsOf (vec : ListName → Option KBlock) : List KBlock :=
  (vec .sleepers).toList ++ ((vec .zombies).toList ++ (vec .runqueue).toList)

/-- The vector of one list, and those of the others. -/
theorem vecsOf_update (vec : ListName → Option KBlock) (l : ListName) :
    ∃ others, ∀ v, (vecsOf (Function.update vec l v)).Perm (v.toList ++ others) := by
  cases l with
  | sleepers => exact ⟨(vec .zombies).toList ++ (vec .runqueue).toList, fun v => List.Perm.refl _⟩
  | zombies =>
    refine ⟨(vec .sleepers).toList ++ (vec .runqueue).toList, fun v => ?_⟩
    exact List.perm_append_comm_assoc ..
  | runqueue =>
    refine ⟨(vec .sleepers).toList ++ (vec .zombies).toList, fun v => ?_⟩
    refine List.Perm.trans ?_ List.perm_append_comm
    rw [List.append_assoc]
    exact List.Perm.refl _

/-- The lists of threads are in order. -/
structure Lists (s : State) : Prop where
  sleepers : s.sleepers.num ≤ s.sleepers.max
  zombies : s.zombies.num ≤ s.zombies.max
  runqueue : s.runqueue.Ok

/-- The address spaces, the child table and `numthreads` are as in `s` and so are the contents of
the lists, except for the threads `new` at the end of the run queue; the reference count of the
current directory is `cwd`. -/
structure Like (s : State) (cwd : Option ℕ) (new : List ℕ) (t : State) : Prop extends Lists t where
  spaces : t.spaces = s.spaces
  vmspace : t.vmspace = s.vmspace
  child : t.child = s.child
  numthreads : t.numthreads = s.numthreads
  cwd : t.cwd = cwd
  asleep : t.sleepers.toList = s.sleepers.toList
  dead : t.zombies.toList = s.zombies.toList
  ready : t.runqueue.toList = s.runqueue.toList ++ new

variable {cwd : Option ℕ} {new : List ℕ}

theorem Like.refl (h : Lists s) : Like s s.cwd [] s :=
  { h with spaces := rfl, vmspace := rfl, child := rfl, numthreads := rfl, cwd := rfl, asleep := rfl
           dead := rfl, ready := (List.append_nil _).symm }

theorem Like.trans {u : State} (h : Like s cwd [] t) (h' : Like t t.cwd [] u) : Like s cwd [] u :=
  { h'.toLists with
    spaces := h'.spaces.trans h.spaces, vmspace := h'.vmspace.trans h.vmspace
    child := h'.child.trans h.child, numthreads := h'.numthreads.trans h.numthreads
    cwd := h'.cwd.trans h.cwd, asleep := h'.asleep.trans h.asleep, dead := h'.dead.trans h.dead
    ready := by rw [h'.ready, h.ready, List.append_nil] }

/-- Memory, the vectors and the numbers of threads play no role. -/
theorem Like.memory {u : State} (h : Like s cwd new t) (hmem : Memory t u) : Like s cwd new u := by
  rw [hmem]
  exact { h with }

theorem Like.setVec (h : Like s cwd new t) (vec : ListName → Option KBlock) :
    Like s cwd new { t with vec := vec } := { h with }

theorem Like.setPid (h : Like s cwd new t) (n : ℤ) : Like s cwd new { t with pidAssign := n } :=
  { h with }

/-- What a function of `array.c` or `queue.c` may change. -/
def OnLists (s t : State) : Prop :=
  t = { s with sleepers := t.sleepers, zombies := t.zombies, runqueue := t.runqueue }

theorem OnLists.owns {u : State} (hlists : OnLists t u) (h : Owns base S t) : Owns base S u := by
  rw [hlists]
  exact ⟨h.user, h.held⟩

theorem OnLists.vec {u : State} (hlists : OnLists t u) : u.vec = t.vec := by rw [hlists]

/-- A call that may replace the vector of a list. It must not succeed if there is no memory for the
new vector. -/
theorem growVec_spec {l : ListName} {size : Option ℕ} {call : List Bool → ForkM Unit}
    (h : Owns base (vecsOf t.vec ++ S) t) (hlike : Like s cwd [] t)
    (hsize : ∀ n ∈ size, n < 2 ^ 32)
    (hcall : ∀ nomem u, Memory t u → Like s cwd [] u → Meets (call nomem)
      (fun _ v => Like s cwd new v ∧ OnLists u v ∧ (size ≠ none → nomem ≠ [true]))
      (fun _ v => Like s cwd [] v ∧ OnLists u v) u (fun _ => True)) :
    Meets (growVec l size call)
      (fun _ v => Owns base (vecsOf v.vec ++ S) v ∧ Like s cwd new v)
      (fun _ v => Owns base (vecsOf v.vec ++ S) v ∧ Like s cwd [] v) t (fun _ => True) := by
  cases size with
  | none =>
    refine (hcall [] t (.refl t) hlike).mono ?_ ?_
    · rintro _ v ⟨hv, hlists, -⟩
      exact ⟨hlists.vec ▸ hlists.owns h, hv⟩
    · rintro _ v ⟨hv, hlists⟩
      exact ⟨hlists.vec ▸ hlists.owns h, hv⟩
  | some n =>
    rw [growVec, meets_bind]
    refine (kmallocBlock_spec h (hsize n rfl)).partial_of.noErr ?_
    rintro newv u ⟨hmem, hcase⟩
    have hvec : u.vec = t.vec := by rw [hmem]
    have hkept : Owns base (vecsOf t.vec ++ S) u := by
      rcases hcase with ⟨-, hu⟩ | ⟨-, hu⟩
      · exact hu
      · exact hu.weaken (List.sublist_cons_self _ _).subperm
    rw [meets_bind]
    refine (hcall _ u hmem (hlike.memory hmem)).mono ?_ ?_
    rotate_left
    · rintro _ v ⟨hv, hlists⟩
      rw [hlists.vec, hvec]
      exact ⟨hlists.owns hkept, hv⟩
    rintro _ v ⟨hv, hlists, hnull⟩
    have hne : newv ≠ 0 := fun hzero => hnull (Option.some_ne_none n) (by rw [hzero]; rfl)
    obtain ⟨-, hu⟩ := hcase.resolve_left fun hc => hne hc.1
    have hown := hlists.owns hu
    obtain ⟨others, hperm⟩ := vecsOf_update t.vec l
    have hold := hperm (t.vec l)
    rw [Function.update_eq_self] at hold
    rw [meets_bind, meets_gets, hlists.vec, hvec]
    -- the new vector takes the place of the old one
    have hset : ∀ w, Memory v w → Owns base (⟨newv, n⟩ :: (others ++ S)) w →
        Owns base (vecsOf (Function.update w.vec l (some ⟨newv, n⟩)) ++ S)
          { w with vec := Function.update w.vec l (some ⟨newv, n⟩) } := by
      intro w hw h'
      refine ⟨h'.user, List.Subperm.trans ?_ h'.held⟩
      rw [show w.vec = t.vec by rw [hw, hlists.vec, hvec]]
      exact ((hperm _).append_right S).subperm
    cases hvl : t.vec l with
    | none =>
      rw [hvl] at hold
      refine ⟨hset v (.refl v) (hown.weaken ?_), hv.setVec _⟩
      exact (((hold.symm.append_right S).cons _)).subperm
    | some b =>
      rw [hvl] at hold
      have hb : Owns base (b :: ⟨newv, n⟩ :: (others ++ S)) v := by
        refine hown.weaken ?_
        exact ((List.Perm.swap _ _ _).trans ((hold.symm.append_right S).cons _)).subperm
      rw [meets_bind]
      refine (kfreeBlock_spec hb).partial_of.noErr fun _ w hw => ?_
      exact ⟨hset w hw.1 hw.2, (hv.memory hw.1).setVec _⟩

section Room

variable (h : Owns base (vecsOf t.vec ++ S) t) (hlike : Like s cwd [] t)

include h hlike

/-- `array_preallocate` on one of the arrays, which `view` and `put` pick out. -/
theorem growArray_spec {l : ListName} (view : State → KArray ℕ) (put : State → KArray ℕ → State)
    (hview : ∀ u, Like s cwd [] u → (view u).num ≤ (view u).max)
    (hput : ∀ u a, Like s cwd [] u → a.num ≤ a.max → a.toList = (view u).toList →
      Like s cwd [] (put u a))
    (hlists : ∀ u a, OnLists u (put u a)) (n : ℕ) :
    Meets
      (growVec l (some (u32 (4 * growMax n n (view t).max))) fun nomem =>
        zoom (fun u => (⟨view u, nomem⟩ : Alloc (KArray ℕ))) (fun u a => put u a.obj)
          (arrayPreallocate n))
      (fun _ v => Owns base (vecsOf v.vec ++ S) v ∧ Like s cwd [] v)
      (fun _ v => Owns base (vecsOf v.vec ++ S) v ∧ Like s cwd [] v) t (fun _ => True) := by
  refine growVec_spec h hlike (fun m hm => Option.some.inj hm ▸ u32_lt _) fun nomem u _ hu => ?_
  have hle := hview u hu
  rw [meets_zoom]
  refine ((arrayPreallocate_spec (s := ⟨view u, nomem⟩) hle n).partial_of.and_outcome
    (arrayPreallocate_answer _ n)).mono ?_ ?_
  · rintro _ a ⟨⟨hobj, -⟩, hanswer⟩
    rw [hobj]
    refine ⟨hput u _ hu (hle.trans (growMax_ge _ _ _)) rfl, hlists u _, fun _ heq => ?_⟩
    rw [heq] at hanswer
    cases hanswer
  · rintro _ a ⟨⟨-, hobj, -⟩, -⟩
    rw [hobj]
    exact ⟨hput u _ hu hle rfl, hlists u _⟩

theorem preallocateSleepers_spec (n : ℕ) :
    Meets (preallocateSleepers n)
      (fun _ v => Owns base (vecsOf v.vec ++ S) v ∧ Like s cwd [] v)
      (fun _ v => Owns base (vecsOf v.vec ++ S) v ∧ Like s cwd [] v) t (fun _ => True) :=
  growArray_spec h hlike State.sleepers (fun u a => { u with sleepers := a })
    (fun _ hu => hu.toLists.sleepers)
    (fun _ _ hu hle hlist => { hu with sleepers := hle, asleep := hlist.trans hu.asleep })
    (fun _ _ => rfl) n

theorem preallocateZombies_spec (n : ℕ) :
    Meets (preallocateZombies n)
      (fun _ v => Owns base (vecsOf v.vec ++ S) v ∧ Like s cwd [] v)
      (fun _ v => Owns base (vecsOf v.vec ++ S) v ∧ Like s cwd [] v) t (fun _ => True) :=
  growArray_spec h hlike State.zombies (fun u a => { u with zombies := a })
    (fun _ hu => hu.toLists.zombies)
    (fun _ _ hu hle hlist => { hu with zombies := hle, dead := hlist.trans hu.dead })
    (fun _ _ => rfl) n

/-- A function of `queue.c` on the run queue, which asks for a new vector if `full` holds. -/
theorem growQueue_spec {m : QueueM ℕ Unit} {full : Prop} [Decidable full] (size : ℕ)
    (hm : ∀ nomem, Meets m
      (fun _ a => a.obj.Ok ∧ a.obj.toList = t.runqueue.toList ++ new ∧
        (full → nomem.headD false = false))
      (fun _ a => a.obj = t.runqueue) ⟨t.runqueue, nomem⟩ (fun _ => True)) :
    Meets (growVec .runqueue (if full then some (u32 size) else none) (onRunqueue m))
      (fun _ v => Owns base (vecsOf v.vec ++ S) v ∧ Like s cwd new v)
      (fun _ v => Owns base (vecsOf v.vec ++ S) v ∧ Like s cwd [] v) t (fun _ => True) := by
  refine growVec_spec h hlike (fun m hm => ?_) fun nomem u hmem hu => ?_
  · split at hm
    · exact Option.some.inj hm ▸ u32_lt _
    · cases hm
  have hqueue : u.runqueue = t.runqueue := by rw [hmem]
  rw [onRunqueue, meets_zoom, hqueue]
  refine (hm nomem).mono ?_ ?_
  · rintro _ a ⟨hok, hlist, hanswer⟩
    have hready : a.obj.toList = s.runqueue.toList ++ new := by
      rw [hlist, hlike.ready, List.append_nil]
    refine ⟨{ hu with runqueue := hok, ready := hready }, rfl, fun hsome heq => ?_⟩
    have hgot := hanswer (not_not.mp fun hroom => hsome (if_neg hroom))
    rw [heq] at hgot
    cases hgot
  · rintro _ a hobj
    rw [hobj, ← hqueue]
    exact ⟨hu, rfl⟩

theorem schedulerPreallocate_spec (n : ℕ) :
    Meets (schedulerPreallocate n)
      (fun _ v => Owns base (vecsOf v.vec ++ S) v ∧ Like s cwd [] v)
      (fun _ v => Owns base (vecsOf v.vec ++ S) v ∧ Like s cwd [] v) t (fun _ => True) := by
  simp only [schedulerPreallocate, assertSpl, meets_bind, meets_get, meets_require_partial,
    meets_gets]
  intro _
  refine growQueue_spec h hlike _ fun nomem => ?_
  have hanswer : Meets (qPreallocate n) (fun _ _ => n > t.runqueue.size → nomem.headD false = false)
      (fun _ _ => True) ⟨t.runqueue, nomem⟩ (fun _ => True) := by
    simp only [qPreallocate, meets_bind, meets_get, meets_require_partial, meets_ite, meets_pure]
    refine fun _ => ⟨fun _ => ?_, fun hle hgt => absurd hgt hle⟩
    exact (qGrow_answer ⟨t.runqueue, nomem⟩ n).imp fun _ _ ha _ => ha
  refine ((qPreallocate_spec (s := ⟨t.runqueue, nomem⟩) hlike.runqueue n).partial_of.and_outcome
    hanswer).mono ?_ fun _ _ ha => ha.1.2
  rintro _ a ⟨⟨hok, -, -, -, hlist⟩, ha⟩
  exact ⟨hok, hlist.trans (List.append_nil _).symm, ha⟩

theorem makeRunnable_spec (newguy : ℕ) :
    Meets (makeRunnable newguy)
      (fun _ v => Owns base (vecsOf v.vec ++ S) v ∧ Like s cwd [newguy] v)
      (fun _ v => Owns base (vecsOf v.vec ++ S) v ∧ Like s cwd [] v) t (fun _ => True) := by
  simp only [makeRunnable, assertSpl, meets_bind, meets_get, meets_require_partial, meets_gets]
  intro _
  refine growQueue_spec h hlike _ fun nomem => ?_
  have hanswer : Meets (qAddtail newguy)
      (fun _ _ => (t.runqueue.nextwrite + 1) % t.runqueue.size = t.runqueue.nextread →
        nomem.headD false = false)
      (fun _ _ => True) ⟨t.runqueue, nomem⟩ (fun _ => True) := by
    simp only [qAddtail, qPut, meets_bind, meets_get, meets_require_partial, meets_ite, meets_modify]
    refine fun _ => ⟨fun _ => ?_, fun hroom hfull => absurd hfull hroom⟩
    exact (qGrow_answer ⟨t.runqueue, nomem⟩ _).imp fun _ _ ha _ => ha
  refine ((qAddtail_spec (s := ⟨t.runqueue, nomem⟩) hlike.runqueue newguy).partial_of.and_outcome
    hanswer).mono ?_ fun _ _ ha => ha.1.2.2
  rintro _ a ⟨hadded, ha⟩
  exact ⟨hadded.ok, hadded.toList, ha⟩

/-- Making room in the lists and entering the thread. -/
theorem threadEnter_spec (newguy : ℕ) :
    Meets (threadEnter newguy)
      (fun _ v => Owns base (vecsOf v.vec ++ S) v ∧ Like s cwd [newguy] v)
      (fun _ v => Owns base (vecsOf v.vec ++ S) v ∧ Like s cwd [] v) t (fun _ => True) := by
  simp only [threadEnter, meets_bind, meets_gets]
  refine (preallocateSleepers_spec h hlike _).imp fun _ t₁ h₁ => ?_
  refine (preallocateZombies_spec h₁.1 h₁.2 _).imp fun _ t₂ h₂ => ?_
  refine (schedulerPreallocate_spec h₂.1 h₂.2 _).imp fun _ t₃ h₃ => ?_
  exact makeRunnable_spec h₃.1 h₃.2 newguy

end Room

/-! ## `thread_fork` -/

/-- A thread has been put on the run queue. -/
def Created (s t : State) : Prop := ∃ newguy, t.runqueue.toList = s.runqueue.toList ++ [newguy]

theorem not_created (hqueue : t.runqueue.toList = s.runqueue.toList) : ¬ Created s t := by
  rintro ⟨newguy, hready⟩
  rw [hqueue] at hready
  exact List.cons_ne_nil newguy [] (List.self_eq_append_right.mp hready)

theorem Created.of_queue {u : State} (h : Created s t) (hqueue : s.runqueue = u.runqueue) :
    Created u t := by
  rw [Created, ← hqueue]
  exact h

/-- `VOP_DECREF` undoes `VOP_INCREF`. -/
theorem decrefCwd_spec (hcwd : ∀ n ∈ s.cwd, 0 < n) (h : Owns base S t)
    (hlike : Like s (s.cwd.map (· + 1)) [] t) :
    Meets decrefCwd (fun _ v => Owns base S v ∧ v.vec = t.vec ∧ Like s s.cwd [] v)
      (fun _ _ => False) t := by
  rw [decrefCwd, meets_bind, meets_get, hlike.cwd]
  cases hrefs : s.cwd with
  | none =>
    have hnone : t.cwd = none := hlike.cwd.trans (by rw [hrefs]; rfl)
    exact ⟨h, rfl, { hlike with cwd := hnone }⟩
  | some n =>
    have hpos := hcwd n hrefs
    simp only [Option.map_some, meets_bind, meets_require, meets_modify]
    exact ⟨by omega, ⟨h.user, h.held⟩, trivial, { hlike with cwd := rfl }⟩

/-- `thread_fork`: a thread on the run queue and an entry for it, or an error and the threads as
they were. -/
theorem threadFork_spec (h : Owns base (vecsOf s.vec ++ S) s) (hlists : Lists s)
    (hcwd : ∀ n ∈ s.cwd, 0 < n) :
    Meets threadFork
      (fun e v => Owns base (vecsOf v.vec ++ S) v ∧ v.spaces = s.spaces ∧
        (e = 0 ∧ Lists v ∧ Created s v ∨ e ≠ 0 ∧ Like s s.cwd [] v))
      (fun _ _ => False) s (fun _ => True) := by
  have hcode : ∀ e : Errno, (e.code : ℤ) ≠ 0 := by
    intro e
    cases e <;> decide
  simp only [threadFork, meets_bind, meets_gets]
  refine (threadCreate_spec h).partial_of.noErr ?_
  rintro r t (⟨rfl, hmem, ht⟩ | ⟨thread, name, n, rfl, hmem, ht⟩)
  · have hlike := (Like.refl hlists).memory hmem
    rw [show s.vec = t.vec by rw [hmem]] at ht
    exact ⟨ht, hlike.spaces, .inr ⟨hcode _, hlike⟩⟩
  have hlike := ((Like.refl hlists).setPid n).memory hmem
  have hvec : t.vec = s.vec := by rw [hmem]
  rw [meets_bind]
  refine (kmallocBlock_spec ht (by decide)).partial_of.noErr ?_
  rintro stack t₁ ⟨hmem₁, ⟨rfl, h₁⟩ | ⟨hstack, h₁⟩⟩
  · -- no stack: the name and the structure go back
    rw [if_pos rfl, meets_bind]
    refine (kfreeBlock_spec h₁).partial_of.noErr fun _ t₂ h₂ => ?_
    rw [meets_bind]
    refine (kfreeBlock_spec h₂.2).partial_of.noErr fun _ t₃ h₃ => ?_
    have hlike₃ := ((hlike.memory hmem₁).memory h₂.1).memory h₃.1
    have hvec₃ : t₃.vec = s.vec := by rw [h₃.1, h₂.1, hmem₁, hvec]
    exact ⟨hvec₃ ▸ h₃.2, hlike₃.spaces, .inr ⟨hcode _, hlike₃⟩⟩
  rw [if_neg hstack]
  simp only [increfCwd, meets_bind, meets_modify, meets_attempt]
  have hlike₁ : Like s (s.cwd.map (· + 1)) [] { t₁ with cwd := t₁.cwd.map (· + 1) } :=
    { hlike.memory hmem₁ with cwd := by rw [(hlike.memory hmem₁).cwd] }
  have hown₁ : Owns base (⟨stack, stackSize⟩ :: ⟨name, nameSize s.nameLength⟩ ::
      ⟨thread, threadSize⟩ :: (vecsOf s.vec ++ S)) { t₁ with cwd := t₁.cwd.map (· + 1) } :=
    ⟨h₁.user, h₁.held⟩
  refine (splxMem_spec hown₁ splHigh).partial_of.noErr ?_
  rintro spl t₂ ⟨hmem₂, h₂⟩
  have hvec₂ : t₂.vec = s.vec := by rw [hmem₂, hmem₁, hvec]
  -- what `thread_fork` holds, apart from the vectors
  obtain ⟨S', hS'⟩ : ∃ S', S' = (⟨stack, stackSize⟩ :: ⟨name, nameSize s.nameLength⟩ ::
    ⟨thread, threadSize⟩ :: S : List KBlock) := ⟨_, rfl⟩
  have hown₂ : Owns base (vecsOf t₂.vec ++ S') t₂ := by
    rw [hvec₂, hS']
    exact h₂.weaken (List.perm_append_comm_assoc _
      [⟨stack, stackSize⟩, ⟨name, nameSize s.nameLength⟩, ⟨thread, threadSize⟩] S).subperm
  refine (threadEnter_spec hown₂ (hlike₁.memory hmem₂) thread).mono ?_ ?_
  · rintro _ t₃ ⟨h₃, hlike₃⟩
    have hown₃ : Owns base (vecsOf t₃.vec ++ S) (t₃.addChild thread) := by
      refine ⟨h₃.user, List.Subperm.trans ?_ h₃.held⟩
      rw [hS']
      exact ((List.sublist_append_right
        [⟨stack, stackSize⟩, ⟨name, nameSize s.nameLength⟩, ⟨thread, threadSize⟩] S).append_left
          _).subperm
    refine (splxMem_spec hown₃ spl).partial_of.noErr ?_
    rintro _ t₄ ⟨hmem₄, h₄⟩
    rw [hmem₄] at h₄ ⊢
    exact ⟨h₄, hlike₃.spaces, .inl ⟨rfl, ⟨hlike₃.sleepers, hlike₃.zombies, hlike₃.runqueue⟩, thread,
      hlike₃.ready⟩⟩
  · rintro result t₃ ⟨h₃, hlike₃⟩
    refine (splxMem_spec h₃ spl).partial_of.noErr ?_
    rintro _ t₄ ⟨hmem₄, h₄⟩
    refine (decrefCwd_spec hcwd h₄ (hlike₃.memory hmem₄)).partial_of.noErr ?_
    rintro _ t₅ ⟨h₅, hvec₅, hlike₅⟩
    have hown₅ : Owns base (⟨stack, stackSize⟩ :: ⟨name, nameSize s.nameLength⟩ ::
        ⟨thread, threadSize⟩ :: (vecsOf t₅.vec ++ S)) t₅ := by
      rw [show t₃.vec = t₅.vec by rw [hvec₅, hmem₄], hS'] at h₅
      exact h₅.weaken (List.perm_append_comm_assoc
        [⟨stack, stackSize⟩, ⟨name, nameSize s.nameLength⟩, ⟨thread, threadSize⟩] _ S).subperm
    refine (kfreeBlock_spec hown₅).partial_of.noErr fun _ t₆ h₆ => ?_
    refine (kfreeBlock_spec h₆.2).partial_of.noErr fun _ t₇ h₇ => ?_
    refine (kfreeBlock_spec h₇.2).partial_of.noErr fun _ t₈ h₈ => ?_
    have hlike₈ := ((hlike₅.memory h₆.1).memory h₇.1).memory h₈.1
    have hvec₈ : t₈.vec = t₅.vec := by rw [h₈.1, h₇.1, h₆.1]
    exact ⟨hvec₈ ▸ h₈.2, hlike₈.spaces, .inr ⟨hcode _, hlike₈⟩⟩

/-! ## `sys_fork` -/

/-- A state of the kernel in which a program calls `fork`: the heap agrees with the lists of what
has been obtained, the vectors of the lists of threads are among it, and the current directory has a
reference. -/
structure Sound (base : ℕ) (s : State) : Prop where
  user : UserInv base s.sys s.spaces s.blocks
  vecs : (vecsOf s.vec).Subperm s.blocks
  lists : Lists s
  cwd : ∀ n ∈ s.cwd, 0 < n
  vmspace : s.vmspace ∈ s.spaces

/-- There is no memory for the copy of the trap frame. -/
def NoFrame (s : State) : Prop := ∃ k, kmalloc trapframeSize s.sys.kern = .ok 0 k

/-- There is memory for it, and then no page for an address space. -/
def NoSpace (s : State) : Prop :=
  ∃ copy k, kmalloc trapframeSize s.sys.kern = .ok copy k ∧ copy ≠ 0 ∧ k.vm.grant 1 = none

theorem Sound.memory (h : Sound base s) (hmem : Memory s t) (howns : Owns base (vecsOf s.vec) t) :
    Sound base t := by
  rw [hmem] at howns ⊢
  exact ⟨howns.user, howns.held, { h.lists with }, h.cwd, h.vmspace⟩

theorem NoSpace.frame (h : NoSpace s) : ¬ NoFrame s := by
  obtain ⟨copy, k, hcall, hcopy, -⟩ := h
  rintro ⟨k', hcall'⟩
  exact hcopy (Outcome.ok.inj (hcall.symm.trans hcall')).1

/-- The state with another heap. -/
def State.withHeap (s : State) (k : Kern) (blocks : List KBlock) : State :=
  { s with sys := { s.sys with kern := k }, blocks := blocks }

theorem kmallocBlock_run (s : State) (sz : ℕ) :
    Meets (kmallocBlock sz)
      (fun a t => ∃ k, kmalloc sz s.sys.kern = .ok a k ∧
        t = s.withHeap k (if a = 0 then s.blocks else ⟨a, sz⟩ :: s.blocks))
      (fun _ _ => True) s (fun _ => True) := by
  simp only [kmallocBlock, onMem, onKern, meets_bind, meets_zoom, meets_modify, meets_pure]
  unfold Meets
  split
  next a k hcall => exact ⟨k, hcall, rfl⟩
  · trivial
  · trivial

theorem kfreeBlock_run (s : State) (b : KBlock) :
    Meets (kfreeBlock b) (fun _ t => ∃ k, t = s.withHeap k (s.blocks.erase b)) (fun _ _ => True) s
      (fun _ => True) := by
  simp only [kfreeBlock, onMem, onKern, meets_bind, meets_zoom, meets_modify]
  unfold Meets
  split
  next _ k _ => exact ⟨k, rfl⟩
  · trivial
  · trivial

/-- Copying the trap frame does not concern the page allocator. -/
theorem storeFrame_vm (sys : VmSys) (copy : ℕ) (tf : Trapframe) :
    Keeps (fun sys' : VmSys => ∃ k, sys' = { sys with kern := k } ∧ k.vm = sys.kern.vm)
      (Procs.storeFrame copy tf) := by
  refine Keeps.forRange (fun i => ?_) _ _
  rintro _ ⟨k, rfl, hvm⟩
  exact ⟨_, rfl, hvm⟩

theorem storeFrame_owned {copy : ℕ} (h : Owns base (⟨copy, trapframeSize⟩ :: S) s) (tf : Trapframe) :
    Meets (onMem (Procs.storeFrame copy tf))
      (fun _ t => ∃ k, t = s.withHeap k s.blocks ∧ k.vm = s.sys.kern.vm ∧
        Owns base (⟨copy, trapframeSize⟩ :: S) t)
      (fun _ _ => False) s := by
  have hperm := (List.perm_cons_erase (h.held.subset List.mem_cons_self)).trans
    (List.perm_append_singleton ..).symm
  rw [onMem, meets_zoom]
  refine (Procs.storeFrame_shows (h.user.permBlocks hperm) tf).and_run.imp ?_
  rintro _ sys' ⟨⟨huser, -⟩, hcall⟩
  obtain ⟨k, rfl, hvm⟩ := (storeFrame_vm s.sys copy tf s.sys ⟨_, rfl, rfl⟩).of_ok hcall
  exact ⟨k, rfl, hvm, huser.permBlocks hperm.symm, h.held⟩

/-- `as_copy` gives an error exactly if it is refused its first page. -/
theorem asCopy_owned (h : Owns base S s) {old : ℕ} (hold : old ∈ s.spaces) :
    Meets (onMem (asCopy old))
      (fun new t => s.sys.kern.vm.grant 1 ≠ none ∧ Memory s t ∧
        Owns base S { t with spaces := new :: t.spaces })
      (fun _ t => s.sys.kern.vm.grant 1 = none ∧ (∃ k, t = s.withHeap k s.blocks) ∧ Owns base S t) s
      (fun _ => s.sys.kern.vm.grant 1 ≠ none) := by
  have hroom := asCopy_spec (H := fun _ => True) h.user.inv hold fun _ _ => trivial
  have hboth := hroom.and_outcome (asCopy_shows h.user hold)
  rw [onMem, meets_zoom]
  by_cases hgrant : s.sys.kern.vm.grant 1 = none
  · have hrefused : Meets (asCopy old) (fun _ _ => False) (fun _ _ => True) s.sys := by
      rw [asCopy, meets_bind]
      refine (asCreate_spec h.user.inv).noErr ?_
      rintro new sys' (⟨rfl, -, -⟩ | ⟨-, hnew⟩)
      · trivial
      · exact absurd (hgrant.symm.trans hnew.grant) (Option.some_ne_none _).symm
    obtain ⟨e, sys', hcall, -⟩ := hrefused.exists_err
    obtain ⟨⟨-, -, hfull⟩, huser, -⟩ := hboth.of_err hcall
    rw [Meets, hcall]
    exact ⟨hgrant, ⟨_, congrArg (fun u => { s with sys := u }) hfull.frame⟩, huser, h.held⟩
  · refine hboth.mono_halt (fun _ _ => hgrant) |>.mono ?_ ?_
    · rintro new sys' ⟨-, huser, -⟩
      exact ⟨hgrant, rfl, huser, h.held⟩
    · rintro e sys' ⟨⟨-, -, hfull⟩, -⟩
      exact absurd hfull.grant hgrant

/-- What `sys_fork` does. -/
theorem sysFork_spec (h : Sound base s) (garbage : ℤ) (tf : Trapframe) :
    Meets (sysFork garbage tf 0)
      (fun r t => Owns base (vecsOf t.vec) t ∧
        ((NoFrame s ∧ r.err ≠ 0 ∨ NoSpace s ∧ r.err = garbage) ∧ (∃ k, t = s.withHeap k s.blocks) ∨
          ¬ NoFrame s ∧ ¬ NoSpace s ∧
            (Created s t ∨ ∃ new, Like { s with spaces := new :: s.spaces } s.cwd [] t)))
      (fun _ _ => False) s (fun _ => ¬ NoFrame s ∧ ¬ NoSpace s) := by
  have hcode : (Errno.ENOMEM.code : ℤ) ≠ 0 := by decide
  rw [sysFork, meets_bind]
  refine (kmallocBlock_spec ⟨h.user, h.vecs⟩ (by decide)).and_run.partial_of.noErr ?_
  rintro copy t₁ ⟨⟨-, hcase⟩, hcall₁⟩
  obtain ⟨k₁, hkmalloc, rfl⟩ := (kmallocBlock_run s trapframeSize).of_ok hcall₁
  rcases hcase with ⟨rfl, h₁⟩ | ⟨hcopy, h₁⟩
  · -- no copy of the trap frame
    exact ⟨h₁, .inl ⟨.inl ⟨⟨_, hkmalloc⟩, hcode⟩, k₁, rfl⟩⟩
  have hframe : ¬ NoFrame s := by
    rintro ⟨k, hk⟩
    exact hcopy (Outcome.ok.inj (hkmalloc.symm.trans hk)).1
  rw [if_neg hcopy] at h₁
  simp only [if_neg hcopy, meets_bind, meets_gets, meets_attempt]
  refine (storeFrame_owned h₁ tf).partial_of.noErr ?_
  rintro _ _ ⟨k₂, rfl, hvm₂, h₂⟩
  have hspace : NoSpace s ↔ k₂.vm.grant 1 = none := by
    rw [hvm₂]
    constructor
    · rintro ⟨_, k, hk, -, hgrant⟩
      rw [hkmalloc] at hk
      rwa [← (Outcome.ok.inj hk).2] at hgrant
    · exact fun hgrant => ⟨copy, _, hkmalloc, hcopy, hgrant⟩
  refine (asCopy_owned h₂ h.vmspace).mono_halt
    (fun _ hgrant => ⟨hframe, hspace.not.mpr hgrant⟩) |>.mono ?_ ?_
  · rintro new t₃ ⟨hgrant, hmem₃, h₃⟩
    have hno : ¬ NoSpace s := hspace.not.mpr hgrant
    rw [meets_modify]
    refine (splxMem_spec h₃ splHigh).partial_of.noErr ?_
    rintro spl t₄ ⟨hmem₄, h₄⟩
    have hmem : Memory { s with spaces := new :: s.spaces } t₄ := by
      rw [hmem₃] at hmem₄
      exact hmem₄
    have hvec₄ : t₄.vec = s.vec := by rw [hmem]
    have hlists : Lists { s with spaces := new :: s.spaces } := { h.lists with }
    have hlike₄ := (Like.refl hlists).memory hmem
    have hown₄ : Owns base (vecsOf t₄.vec ++ [⟨copy, trapframeSize⟩]) t₄ := by
      rw [hvec₄]
      exact h₄.weaken (List.perm_append_singleton ..).subperm
    have hcwd₄ : ∀ n ∈ t₄.cwd, 0 < n := by
      rw [hlike₄.cwd]
      exact h.cwd
    refine ((threadFork_spec hown₄ hlike₄.toLists hcwd₄).mono_halt
      fun _ _ => ⟨hframe, hno⟩).noErr ?_
    rintro e t₅ ⟨h₅, -, ⟨rfl, -, hcreated⟩ | ⟨he, hlike₅⟩⟩
    · rw [if_neg (not_not.mpr rfl), meets_bind]
      refine (splxMem_spec h₅ spl).partial_of.noErr ?_
      rintro _ t₆ ⟨hmem₆, h₆⟩
      rw [show t₅.vec = t₆.vec by rw [hmem₆]] at h₆
      refine ⟨h₆.weaken (List.sublist_append_left ..).subperm, .inr ⟨hframe, hno, .inl ?_⟩⟩
      rw [hmem₆]
      exact hcreated.of_queue (by rw [hmem])
    · -- `thread_fork` fails: the copy of the trap frame goes back, the address space does not
      rw [if_pos he]
      simp only [meets_bind]
      refine (splxMem_spec h₅ spl).partial_of.noErr ?_
      rintro _ t₆ ⟨hmem₆, h₆⟩
      have hown₆ := h₆.weaken (List.perm_append_singleton ..).symm.subperm
      refine (kfreeBlock_spec hown₆).partial_of.noErr ?_
      rintro _ t₇ ⟨hmem₇, h₇⟩
      have hlike₇ := ((hlike₄.trans hlike₅).memory hmem₆).memory hmem₇
      rw [show t₅.vec = t₇.vec by rw [hmem₇, hmem₆]] at h₇
      exact ⟨h₇, .inr ⟨hframe, hno, .inr ⟨new, hlike₇⟩⟩⟩
  · -- `as_copy` fails: the copy of the trap frame goes back
    rintro _ _ ⟨hgrant, ⟨k₃, rfl⟩, h₃⟩
    refine (kfreeBlock_spec h₃).and_run.partial_of.noErr ?_
    rintro _ t₄ ⟨⟨-, h₄⟩, hcall₄⟩
    obtain ⟨k₄, rfl⟩ := (kfreeBlock_run _ _).of_ok hcall₄
    refine ⟨h₄, .inl ⟨.inr ⟨hspace.mpr hgrant, rfl⟩, k₄, ?_⟩⟩
    exact congrArg (s.withHeap k₄) (List.erase_cons_head ..)

/-! ## What a failed fork leaves behind -/

/-- The blocks that have been obtained, apart from the vectors of the lists. -/
def State.held (s : State) : List KBlock := s.blocks.diff (vecsOf s.vec)

/-- Nothing of the call is left: no address space, no block and no page except for the vectors of
the lists, and the threads and the current directory are as they were. -/
structure NothingLeft (s t : State) : Prop where
  spaces : t.spaces = s.spaces
  blocks : t.held.Perm s.held
  pages : ∀ i, ∀ e ∈ t.sys.kern.vm.coremap[i]?, e.taken = true →
    s.sys.kern.vm.Taken i ∨ ∃ v ∈ vecsOf t.vec, v.Touches e.phyaddr
  child : t.child = s.child
  numthreads : t.numthreads = s.numthreads
  sleepers : t.sleepers.toList = s.sleepers.toList
  zombies : t.zombies.toList = s.zombies.toList
  runqueue : t.runqueue.toList = s.runqueue.toList
  cwd : t.cwd = s.cwd

/-- `sys_fork` returns, and unless it has made a child it gives an error and leaves nothing. -/
def CleansUp (s : State) (o : Outcome Errno State Reply) : Prop :=
  match o with
  | .ok r t => Created s t ∨ r.err ≠ 0 ∧ NothingLeft s t
  | .err _ _ => False
  | .halted _ => False

/-- With the same owners the same frames are taken. -/
theorem Owns.taken {k : Kern} (h : Owns base S s) (h' : Owns base S (s.withHeap k s.blocks)) {i : ℕ}
    (htaken : k.vm.Taken i) : s.sys.kern.vm.Taken i := by
  obtain ⟨g, hk⟩ := h.user.inv
  obtain ⟨g', hk'⟩ := h'.user.inv
  exact hk.taken_of_subset hk' (fun _ hb => hb) (fun _ hr => hr) htaken

/-- If nothing but the heap has changed, and that only for as long as the call took, nothing is
left. -/
theorem NothingLeft.of_withHeap {k : Kern} (h : Owns base S s)
    (h' : Owns base S (s.withHeap k s.blocks)) : NothingLeft s (s.withHeap k s.blocks) where
  spaces := rfl
  blocks := List.Perm.refl _
  pages _ e he htaken := .inl (h.taken h' ⟨e, he, htaken⟩)
  child := rfl
  numthreads := rfl
  sleepers := rfl
  zombies := rfl
  runqueue := rfl
  cwd := rfl

/-- **When a failed fork leaves nothing behind.** `sys_fork` makes a child, or gives an error and
leaves nothing of the call, exactly if a child is made, or the copy of the trap frame is refused, or
`as_copy` is refused its first page and the variable `err`, which has no value yet, is not zero. -/
theorem fork_leaves_nothing_iff (h : Sound base s) (garbage : ℤ) (tf : Trapframe) :
    CleansUp s (sysFork garbage tf 0 s) ↔
      (∃ r t, sysFork garbage tf 0 s = .ok r t ∧ Created s t) ∨ NoFrame s ∨
        (NoSpace s ∧ garbage ≠ 0) := by
  have hspec := sysFork_spec h garbage tf
  have hown : Owns base (vecsOf s.vec) s := ⟨h.user, h.vecs⟩
  cases hrun : sysFork garbage tf 0 s with
  | err e t => exact absurd hrun fun hrun => hspec.of_err hrun
  | halted msg =>
    obtain ⟨hframe, hspace⟩ := hspec.of_halted hrun
    refine ⟨fun hclean => hclean.elim, ?_⟩
    rintro (⟨r, t, hok, -⟩ | hno | ⟨hno, -⟩)
    · cases hok
    · exact hframe hno
    · exact hspace hno
  | ok r t =>
    rcases hspec.of_ok hrun with ⟨hown', ⟨hcase, k, rfl⟩ | ⟨hframe, hspace, hcase⟩⟩
    · -- nothing but the heap has changed: it is the error code that decides
      have hiff : CleansUp s (.ok r (s.withHeap k s.blocks)) ↔ r.err ≠ 0 := by
        refine ⟨?_, fun herr => .inr ⟨herr, .of_withHeap hown hown'⟩⟩
        rintro (hcreated | ⟨herr, -⟩)
        · exact absurd hcreated (not_created rfl)
        · exact herr
      rw [hiff]
      rcases hcase with ⟨hno, herr⟩ | ⟨hno, herr⟩
      · exact ⟨fun _ => .inr (.inl hno), fun _ => herr⟩
      · rw [herr]
        refine ⟨fun hgarbage => .inr (.inr ⟨hno, hgarbage⟩), ?_⟩
        rintro (⟨_, _, hok, hcreated⟩ | hframe | ⟨-, hgarbage⟩)
        · rw [← (Outcome.ok.inj hok).2] at hcreated
          exact absurd hcreated (not_created rfl)
        · exact absurd hframe hno.frame
        · exact hgarbage
    · have hiff : CleansUp s (.ok r t) ↔ Created s t := by
        refine ⟨?_, Or.inl⟩
        rintro (hcreated | ⟨-, hleft⟩)
        · exact hcreated
        · refine hcase.resolve_right ?_
          rintro ⟨new, hlike⟩
          exact List.cons_ne_self new s.spaces (hlike.spaces.symm.trans hleft.spaces)
      rw [hiff]
      refine ⟨fun hcreated => .inl ⟨r, t, rfl, hcreated⟩, ?_⟩
      rintro (⟨_, _, hok, hcreated⟩ | hno | ⟨hno, -⟩)
      · rwa [(Outcome.ok.inj hok).2]
      · exact absurd hno hframe
      · exact absurd hno hspace

/-- A process with one page of memory, before there is a run queue. -/
def bare : State where
  sys := onePageState.sys
  spaces := onePageState.spaces
  blocks := onePageState.blocks
  vmspace := 0x80021000
  nameLength := 4
  child _ := none
  cwd := some 1
  numthreads := 1
  pidAssign := 1
  sleepers := ⟨0, 0, fun _ => 0⟩
  zombies := ⟨0, 0, fun _ => 0⟩
  runqueue := ⟨32, 0, 0, fun _ => 0⟩
  vec _ := none

/-- With the vector of the run queue. -/
def queued : State :=
  let o := kmallocBlock 128 bare
  { o.stateD bare with vec := Function.update bare.vec .runqueue (some ⟨o.valueD 0, 128⟩) }

/-- With `n` of its free pages in use elsewhere in the kernel. -/
def crowded (n : ℕ) : State := (kmallocBlock (4096 * n) queued).stateD queued

theorem queued_sound : ∃ base, Sound base queued := by
  obtain ⟨base, hcopyable⟩ := onePageState_reachable.copyable
  have hcall := Outcome.eq_ok (kmallocBlock 128 bare) 0 bare (by decide +kernel)
  have hbare : Owns base [] bare := ⟨hcopyable.user, List.nil_subperm⟩
  obtain ⟨-, ⟨hnull, -⟩ | ⟨-, howns⟩⟩ := (kmallocBlock_spec hbare (by decide)).of_ok hcall
  · exact absurd hnull (by decide +kernel)
  · exact ⟨base, howns.user, howns.held,
      ⟨by decide +kernel, by decide +kernel, by decide +kernel, by decide +kernel⟩,
      by decide +kernel, by decide +kernel⟩

theorem crowded_sound {n : ℕ} (hn : 4096 * n < 2 ^ 32)
    (hok : (kmallocBlock (4096 * n) queued).isOk = true) : ∃ base, Sound base (crowded n) := by
  obtain ⟨base, h⟩ := queued_sound
  obtain ⟨hmem, hcase⟩ :=
    (kmallocBlock_spec ⟨h.user, h.vecs⟩ hn).of_ok (Outcome.eq_ok _ 0 queued hok)
  refine ⟨base, h.memory hmem ?_⟩
  rcases hcase with ⟨-, howns⟩ | ⟨-, howns⟩
  · exact howns
  · exact howns.weaken (List.sublist_cons_self ..).subperm

/-- A trap frame. -/
def zeroFrame : Trapframe := fun _ => 0

/-- With twelve pages in use elsewhere the copy of the trap frame is refused: the call gives an
error and leaves nothing. -/
theorem fork_leaves_nothing_noFrame :
    CleansUp (crowded 12) (sysFork 0 zeroFrame 0 (crowded 12)) := by
  obtain ⟨base, h⟩ := crowded_sound (n := 12) (by decide) (by decide +kernel)
  have hcall := Outcome.eq_ok (kmalloc trapframeSize (crowded 12).sys.kern) 1
    (crowded 12).sys.kern (by decide +kernel)
  have hnull : (kmalloc trapframeSize (crowded 12).sys.kern).valueD 1 = 0 := by decide +kernel
  rw [hnull] at hcall
  exact (fork_leaves_nothing_iff h 0 zeroFrame).mpr (.inr (.inl ⟨_, hcall⟩))

/-- The run queue is as it was, and the call has given no error or left an address space. -/
theorem not_cleansUp {r : Reply} (hqueue : t.runqueue.toList = s.runqueue.toList)
    (hleft : r.err = 0 ∨ t.spaces ≠ s.spaces) : ¬ CleansUp s (.ok r t) := by
  rintro (hcreated | ⟨herr, hnothing⟩)
  · exact not_created hqueue hcreated
  · exact hleft.elim herr fun hne => hne hnothing.spaces

/-- With four pages in use elsewhere the stack is refused, and the new address space stays. With
eleven `as_copy` is refused its first page: if `err` happens to be zero, the call gives no error and
there is no child. -/
theorem fork_leaves_space :
    (∃ base, Sound base (crowded 4)) ∧ ¬ CleansUp (crowded 4) (sysFork 0 zeroFrame 0 (crowded 4)) ∧
      (∃ base, Sound base (crowded 11)) ∧
        ¬ CleansUp (crowded 11) (sysFork 0 zeroFrame 0 (crowded 11)) := by
  refine ⟨crowded_sound (by decide) (by decide +kernel), ?_,
    crowded_sound (by decide) (by decide +kernel), ?_⟩
  · rw [Outcome.eq_ok (sysFork 0 zeroFrame 0 (crowded 4)) ⟨0, 0, zeroFrame⟩ (crowded 4)
      (by decide +kernel)]
    exact not_cleansUp (by decide +kernel) (.inr (by decide +kernel))
  · rw [Outcome.eq_ok (sysFork 0 zeroFrame 0 (crowded 11)) ⟨1, 0, zeroFrame⟩ (crowded 11)
      (by decide +kernel)]
    exact not_cleansUp (by decide +kernel) (.inl (by decide +kernel))

end Os161.Forks
