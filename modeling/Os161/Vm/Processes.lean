import Os161.Common.Runs
import Os161.Lib.KheapFrame
import Os161.Syscall.Dispatch
import Os161.Vm.Translation

/-!
# Processes and the TLB

The processor runs one thread at a time and has one TLB. Threads get an address space in
`runprogram` or, made by `sys_fork`, in `md_forkentry`; they lose it in `thread_exit`. The TLB is
flushed by `as_activate` only, which `mi_switch` and `mi_threadstart` call for a thread that has an
address space and `runprogram` and `md_forkentry` right after they have set one.

`State` holds the machine and where every thread is in this; `Step` is one operation of the current
thread or a switch to any thread that is not dead, at any moment, so that every scheduler is
covered. Three results about whole runs:

* `tlb_coherent`: whenever a thread runs in its address space, the valid TLB entries are those of its
  page table, each page at most once.
* `no_residual_data`: what the processes see follows from what they saw at the start and the
  operations of the run (`Step.view`); what the free frames held plays no role.
* `fork_semantics_iff`, in `Os161.Syscall.Fork`: what parent and child of a fork see.
-/

namespace Os161.Procs

open Prog Syscall

/-! ## The machine -/

/-- A thread, with its `t_vmspace`: without an address space, made by `sys_fork` and on its way to
`md_forkentry` with the arguments `copy` and `data`, with an address space that it has not yet
activated, running in its address space, or gone. -/
inductive Thr where
  | kernel
  | forked (copy data : ℕ)
  | entering (as : ℕ)
  | running (as : ℕ)
  | dead
deriving DecidableEq

/-- The field `t_vmspace`. -/
def Thr.tVmspace : Thr → ℕ
  | entering as => as
  | running as => as
  | _ => 0

/-- The address space that belongs to a thread. -/
def Thr.space : Thr → Option ℕ
  | forked _ data => some data
  | entering as => some as
  | running as => some as
  | kernel => none
  | dead => none

/-- The machine, the live address spaces, the trap frames that `sys_fork` has put on the heap and
that wait for their threads, the blocks of other callers of the heap, and the threads: `cur` is
running and `count` have been made, with the numbers `pid`. Of a thread that `sys_fork` has made,
`trap` is the trap frame of its parent, `temp` is the local variable of `md_forkentry`, and
`entered` is the trap frame with which it has entered user mode. -/
structure State where
  sys : VmSys
  spaces : List ℕ
  copies : List KBlock
  blocks : List KBlock
  cur : ℕ
  count : ℕ
  thr : ℕ → Thr
  pid : ℕ → ℤ
  pidAssign : ℤ
  trap : ℕ → Trapframe
  temp : ℕ → Option Trapframe
  entered : ℕ → Option Trapframe

/-- What a thread does in its address space: an access that may fault, a store, the definition of a
region, or `load_elf`, which is made of these (`load_run`). -/
inductive UserOp where
  | access (faulttype : ℤ) (vaddr : ℕ)
  | store (vaddr v : ℕ)
  | defineRegion (vaddr : ℕ)
  | load (f : Exec)

/-- The operation on the machine, in the address space `as`. -/
def UserOp.run (as : ℕ) : UserOp → AsM Unit
  | access faulttype vaddr => Os161.access as faulttype vaddr
  | store vaddr v => userStore as vaddr v
  | defineRegion vaddr => asDefineRegion as vaddr
  | load f => do
    let _ ← loadElf (asLoadOps as) f
    pure ()

/-- The operation on a process. -/
def UserOp.model : UserOp → Prog Errno Aspace Unit
  | access faulttype vaddr => Aspace.access faulttype vaddr
  | store vaddr v => Aspace.store vaddr v
  | defineRegion vaddr => Aspace.defineRegion vaddr
  | load f => do
    let _ ← loadElf Aspace.loadOps f
    pure ()

/-! ## `sys_fork` -/

/-- The trap frame at an address. -/
def loadFrame (mem : ℕ → ℕ) (a : ℕ) : Trapframe := fun r => BitVec.ofNat 32 (mem (a + 4 * r.ctorIdx))

/-- The words of a trap frame. Irreducible, so that a loop over them is not run by unification. -/
@[irreducible] def trapframeWords : ℕ := 37

/-- `memcpy(copy, tf, sizeof(struct trapframe))`. -/
def storeFrame (copy : ℕ) (tf : Trapframe) : AsM Unit :=
  forRange (fun i => onKern (store (copy + 4 * i) (tf (.ofNat i)).toNat)) trapframeWords 0

/-- How `thread_fork` ends: with a thread, without memory for one, or without memory after
`thread_create` has numbered it. -/
inductive ForkEnd where
  | made
  | noThread
  | noStack

/-- A call that concerns memory only. -/
def onSys {α : Type} (m : AsM α) : Prog Errno State α :=
  zoom State.sys (fun s sys => { s with sys := sys }) m

/-- The next thread, with the start function `md_forkentry` and its two arguments, or without. -/
def State.addThread (s : State) (th : Thr) : State := { s with
  count := s.count + 1
  thr := Function.update s.thr s.count th
  pid := Function.update s.pid s.count s.pidAssign
  pidAssign := s32 (s.pidAssign + 1) }

/-- `thread_fork` with `md_forkentry`, for the trap frame `tf`. It returns an error code. -/
def threadFork (fork : ForkEnd) (tf : Trapframe) (copy data : ℕ) : Prog Errno State ℤ := do
  match fork with
  | .made =>
    modify fun s => { s.addThread (.forked copy data) with
      copies := ⟨copy, trapframeSize⟩ :: s.copies
      spaces := data :: s.spaces
      trap := Function.update s.trap s.count tf }
    pure 0
  | .noThread =>
    modify fun s => { s with spaces := data :: s.spaces }
    pure Errno.ENOMEM.code
  | .noStack =>
    modify fun s => { s with spaces := data :: s.spaces, pidAssign := s32 (s.pidAssign + 1) }
    pure Errno.ENOMEM.code

/-- `sys_fork`. Where `as_copy` fails it returns the variable `err`, which has not been set:
`garbage`. Where `thread_fork` fails the new address space stays without an owner. -/
def sysFork (fork : ForkEnd) (garbage : ℤ) (tf : Trapframe) (retval : ℤ) : Prog Errno State Reply := do
  let copy ← onSys (onKern (kmalloc trapframeSize))
  if copy = 0 then
    pure ⟨Errno.ENOMEM.code, retval, tf⟩
  else
    onSys (storeFrame copy tf)
    let vmspace ← gets fun s => (s.thr s.cur).tVmspace
    match ← attempt (onSys (asCopy vmspace)) with
    | .error _ =>
      onSys (onKern (kfree copy))
      pure ⟨garbage, retval, tf⟩
    | .ok newspace =>
      let retval ← threadFork fork tf copy newspace
      if retval ≠ 0 then
        onSys (onKern (kfree copy))
        let err := Errno.ENOMEM.code
        pure ⟨err, retval, (tf.set .tfA3 1).set .tfV0 (BitVec.ofNat 32 err)⟩
      else
        pure ⟨0, retval, tf⟩

/-- The handlers of the system calls, of which `fork` is the one that matters here. -/
def forkHandlers (h : Handlers Errno State) (fork : ForkEnd) (garbage : ℤ) :
    Handlers Errno State :=
  { h with fork := sysFork fork garbage }

/-! ## Steps -/

/-- What happens in a step. -/
inductive Cmd where
  | switch (t : ℕ)
  | user (op : UserOp)
  | nullFault
  | create
  | createFails
  | activate
  | forkentry
  | fork
  | forkFails
  | exit
  | spawn
  | spawnFails
  | heap

/-- The end of `mi_switch`, and `mi_threadstart`: activate the address space if there is one. -/
def activateIf (vmspace : ℕ) : AsM Unit := if vmspace = 0 then pure () else asActivate

/-- The part of `thread_exit` that gives up the address space. -/
def destroyIf (vmspace : ℕ) : AsM Unit := if vmspace = 0 then pure () else asDestroy vmspace

/-- One step. -/
inductive Step : State → List Cmd → State → Prop where
  /-- A context switch to any thread that is not gone. -/
  | switch {s : State} {t : ℕ} {sys' : VmSys} (hlive : s.thr t ≠ .dead)
      (hcall : activateIf (s.thr t).tVmspace s.sys = .ok () sys') :
      Step s [.switch t] { s with cur := t, sys := sys' }
  | user {s : State} {as : ℕ} {op : UserOp} {sys' : VmSys} (hcur : s.thr s.cur = .running as)
      (hcall : Returns (op.run as) s.sys sys') : Step s [.user op] { s with sys := sys' }
  /-- `vm_fault` for a thread without an address space. -/
  | nullFault {s : State} {faulttype : ℤ} {faultaddress : ℕ} {sys' : VmSys}
      (hnull : (s.thr s.cur).tVmspace = 0)
      (hcall : Returns (vmFault 0 faulttype faultaddress) s.sys sys') :
      Step s [.nullFault] { s with sys := sys' }
  /-- `runprogram` up to `as_create`. -/
  | create {s : State} {as : ℕ} {sys' : VmSys} (hcur : s.thr s.cur = .kernel) (hne : as ≠ 0)
      (hcall : asCreate s.sys = .ok as sys') :
      Step s [.create] { s with
        sys := sys', spaces := as :: s.spaces, thr := Function.update s.thr s.cur (.entering as) }
  | createFails {s : State} {sys' : VmSys} (hcur : s.thr s.cur = .kernel)
      (hcall : asCreate s.sys = .ok 0 sys') : Step s [.createFails] { s with sys := sys' }
  /-- `as_activate` in `runprogram` and in `md_forkentry`, which then enters user mode. -/
  | activate {s : State} {as : ℕ} {sys' : VmSys} (hcur : s.thr s.cur = .entering as)
      (hcall : asActivate s.sys = .ok () sys') :
      Step s [.activate] { s with
        sys := sys', thr := Function.update s.thr s.cur (.running as)
        entered := Function.update s.entered s.cur ((s.temp s.cur).map Trapframe.child) }
  /-- `md_forkentry` sets `t_vmspace` and copies the trap frame, which is free to go now. -/
  | forkentry {s : State} {copy data : ℕ} (hcur : s.thr s.cur = .forked copy data) :
      Step s [.forkentry] { s with
        thr := Function.update s.thr s.cur (.entering data)
        temp := Function.update s.temp s.cur (some (loadFrame s.sys.kern.mem copy))
        copies := s.copies.erase ⟨copy, trapframeSize⟩
        blocks := ⟨copy, trapframeSize⟩ :: s.blocks }
  /-- The system call `fork`, with a new thread or without. -/
  | fork {s s' : State} {as : ℕ} {h : Handlers Errno State} {fork : ForkEnd} {garbage : ℤ}
      {tf tf' : Trapframe} (hcur : s.thr s.cur = .running as) (hnumber : tf.int .tfV0 = 2)
      (hcall : mipsSyscall (forkHandlers h fork garbage) tf s = .ok tf' s')
      (hmade : s'.count ≠ s.count) : Step s [.fork] s'
  | forkFails {s s' : State} {as : ℕ} {h : Handlers Errno State} {fork : ForkEnd} {garbage : ℤ}
      {tf tf' : Trapframe} (hcur : s.thr s.cur = .running as) (hnumber : tf.int .tfV0 = 2)
      (hcall : mipsSyscall (forkHandlers h fork garbage) tf s = .ok tf' s')
      (hmade : s'.count = s.count) : Step s [.forkFails] s'
  /-- `thread_exit`. -/
  | exit {s : State} {sys' : VmSys} (hcur : s.thr s.cur = .kernel ∨ ∃ as, s.thr s.cur = .running as)
      (hcall : destroyIf (s.thr s.cur).tVmspace s.sys = .ok () sys') :
      Step s [.exit] { s with
        sys := sys', spaces := s.spaces.erase (s.thr s.cur).tVmspace
        thr := Function.update s.thr s.cur .dead }
  /-- `thread_fork` of a kernel thread, and one that fails after it has been numbered. -/
  | spawn {s : State} : Step s [.spawn] (s.addThread .kernel)
  | spawnFails {s : State} : Step s [.spawnFails] { s with pidAssign := s32 (s.pidAssign + 1) }
  /-- A call of the heap by somebody else. -/
  | heap {s : State} {k' : Kern} {blocks' : List KBlock}
      (hstep : HeapStep ⟨s.sys.kern, s.blocks⟩ ⟨k', blocks'⟩) :
      Step s [.heap] { s with sys := { s.sys with kern := k' }, blocks := blocks' }

/-- After `vm_bootstrap` and `thread_bootstrap`, with an empty heap, no address space and the boot
thread. The TLB holds anything. -/
structure Booted (s : State) : Prop where
  vm : ∃ (vm₀ : Vm) (old : ℕ → CoremapEntry), RamRange vm₀.firstpaddr vm₀.lastpaddr ∧
    vmBootstrap old vm₀ = .ok () s.sys.kern.vm
  heap : s.sys.kern.heap.Empty
  spaces : s.spaces = []
  copies : s.copies = []
  blocks : s.blocks = []
  count : s.count = 1
  cur : s.cur = 0
  thr : s.thr = fun t => if t = 0 then .kernel else .dead
  pidAssign : s.pidAssign = 0
  temp : s.temp = fun _ => none
  entered : s.entered = fun _ => none

/-! ## What the processes see -/

/-- A thread without the pointer to its address space. -/
def Thr.shape : Thr → Thr
  | kernel => .kernel
  | forked _ _ => .forked 0 0
  | entering _ => .entering 0
  | running _ => .running 0
  | dead => .dead

/-- The threads, what each of them has, and the pages that the TLB holds. -/
@[ext]
structure View where
  cur : ℕ
  count : ℕ
  shape : ℕ → Thr
  proc : ℕ → Pages × ℕ × ℕ × ℕ
  tlb : ℕ → Option ℕ

/-- A thread without pages. -/
def noPages : Pages × ℕ × ℕ × ℕ := (fun _ _ => none, 0, 0, 0)

/-- The pages and the regions of a thread. -/
def State.proc (s : State) (t : ℕ) : Pages × ℕ × ℕ × ℕ :=
  match (s.thr t).space with
  | none => noPages
  | some as => (s.sys.pages as, s.sys.regions as)

/-- What there is to see of a state. -/
def State.view (s : State) : View where
  cur := s.cur
  count := s.count
  shape t := (s.thr t).shape
  proc := s.proc
  tlb := s.sys.tlbPages

namespace View

/-- The current thread changes its state. -/
def become (v : View) (th : Thr) : View := { v with shape := Function.update v.shape v.cur th }

/-- A new thread. -/
def add (v : View) (th : Thr) (p : Pages × ℕ × ℕ × ℕ) : View := { v with
  count := v.count + 1
  shape := Function.update v.shape v.count th
  proc := Function.update v.proc v.count p }

/-- The process of the current thread. -/
def aspace (v : View) : Aspace := ⟨(v.proc v.cur).1, (v.proc v.cur).2, v.tlb⟩

/-- The process of the current thread has done something. -/
def put (v : View) (a : Aspace) : View := { v with
  proc := Function.update v.proc v.cur (a.pages, a.regions)
  tlb := a.tlb }

/-- Every step is a function of the view. -/
def next (v : View) : Cmd → View
  | .switch t => { v with
      cur := t
      tlb := if (v.shape t = .entering 0 ∨ v.shape t = .running 0) then fun _ => none else v.tlb }
  | .user op => v.put ((op.model v.aspace).finalD v.aspace)
  | .create => { v.become (.entering 0) with proc := Function.update v.proc v.cur noPages }
  | .activate => { v.become (.running 0) with tlb := fun _ => none }
  | .forkentry => v.become (.entering 0)
  | .fork => v.add (.forked 0 0) (v.proc v.cur)
  | .exit => { v.become .dead with proc := Function.update v.proc v.cur noPages }
  | .spawn => v.add .kernel noPages
  | .nullFault => v
  | .createFails => v
  | .forkFails => v
  | .spawnFails => v
  | .heap => v

end View

/-! ## The invariant -/

variable {base : ℕ} {s s' : State}

/-- Every address space of a thread is live, and no two threads share one. -/
structure Owns (thr : ℕ → Thr) (spaces : List ℕ) : Prop where
  held : ∀ t as, (thr t).space = some as → as ∈ spaces
  inj : ∀ t t' as, (thr t).space = some as → (thr t').space = some as → t = t'

namespace Owns

variable {thr : ℕ → Thr} {spaces : List ℕ}

theorem mono (h : Owns thr spaces) {spaces' : List ℕ} (hsub : spaces ⊆ spaces') :
    Owns thr spaces' where
  held t as hspace := hsub (h.held t as hspace)
  inj := h.inj

/-- A thread takes an address space that belongs to nobody else. -/
theorem take (h : Owns thr spaces) {t as : ℕ} {th : Thr} (hth : th.space = some as)
    (has : as ∈ spaces) (hfree : ∀ t' ≠ t, (thr t').space ≠ some as) :
    Owns (Function.update thr t th) spaces := by
  have hspace : ∀ t' as', (Function.update thr t th t').space = some as' →
      t' = t ∧ as' = as ∨ t' ≠ t ∧ (thr t').space = some as' := by
    intro t' as' hs
    by_cases heq : t' = t
    · subst heq
      rw [Function.update_self, hth, Option.some.injEq] at hs
      exact .inl ⟨rfl, hs.symm⟩
    · rw [Function.update_of_ne heq] at hs
      exact .inr ⟨heq, hs⟩
  constructor
  · intro t' as' hs
    rcases hspace t' as' hs with ⟨-, rfl⟩ | ⟨-, hs⟩
    · exact has
    · exact h.held t' as' hs
  · intro t₁ t₂ as' hs₁ hs₂
    rcases hspace t₁ as' hs₁ with ⟨rfl, rfl⟩ | ⟨hne₁, hold₁⟩
    · rcases hspace t₂ as' hs₂ with ⟨rfl, -⟩ | ⟨hne₂, hold₂⟩
      · rfl
      · exact absurd hold₂ (hfree t₂ hne₂)
    · rcases hspace t₂ as' hs₂ with ⟨rfl, rfl⟩ | ⟨-, hold₂⟩
      · exact absurd hold₁ (hfree t₁ hne₁)
      · exact h.inj t₁ t₂ as' hold₁ hold₂

/-- A thread keeps its address space. -/
theorem keep (h : Owns thr spaces) {t as : ℕ} {th : Thr} (hold : (thr t).space = some as)
    (hth : th.space = some as) : Owns (Function.update thr t th) spaces :=
  h.take hth (h.held t as hold) fun t' hne hs => hne (h.inj t' t as hs hold)

/-- A thread has no address space. -/
theorem drop (h : Owns thr spaces) (t : ℕ) {th : Thr} (hth : th.space = none) :
    Owns (Function.update thr t th) spaces := by
  have hspace : ∀ t' as', (Function.update thr t th t').space = some as' →
      (thr t').space = some as' := by
    intro t' as' hs
    by_cases heq : t' = t
    · subst heq
      rw [Function.update_self, hth] at hs
      exact absurd hs (Option.some_ne_none as').symm
    · rwa [Function.update_of_ne heq] at hs
  exact ⟨fun t' as' hs => h.held t' as' (hspace t' as' hs),
    fun t₁ t₂ as' hs₁ hs₂ => h.inj t₁ t₂ as' (hspace t₁ as' hs₁) (hspace t₂ as' hs₂)⟩

/-- The last thread of an address space gives it up. -/
theorem destroy (h : Owns thr spaces) {t as : ℕ} {th : Thr} (hold : (thr t).space = some as)
    (hth : th.space = none) : Owns (Function.update thr t th) (spaces.erase as) := by
  refine ⟨fun t' as' hs => ?_, (h.drop t hth).inj⟩
  have hlive := (h.drop t hth).held t' as' hs
  refine (List.mem_erase_of_ne ?_).mpr hlive
  rintro rfl
  by_cases heq : t' = t
  · subst heq
    rw [Function.update_self, hth] at hs
    exact absurd hs (Option.some_ne_none as').symm
  · rw [Function.update_of_ne heq] at hs
    exact heq (h.inj t' t as' hs hold)

end Owns

/-- The trap frames of new threads are on the heap, each in a block of its own. -/
structure Copies (thr : ℕ → Thr) (copies : List KBlock) : Prop where
  mem : ∀ t copy data, thr t = .forked copy data → ⟨copy, trapframeSize⟩ ∈ copies
  inj : ∀ t t' copy data data', thr t = .forked copy data → thr t' = .forked copy data' → t = t'

namespace Copies

variable {thr : ℕ → Thr} {copies : List KBlock}

/-- A thread that is not, or no longer, on its way to `md_forkentry`. -/
theorem update (h : Copies thr copies) (t : ℕ) {th : Thr} (hth : ∀ copy data, th ≠ .forked copy data) :
    Copies (Function.update thr t th) copies := by
  have hold : ∀ t' copy data, Function.update thr t th t' = .forked copy data →
      thr t' = .forked copy data := by
    intro t' copy data ht'
    by_cases heq : t' = t
    · subst heq
      rw [Function.update_self] at ht'
      exact absurd ht' (hth copy data)
    · rwa [Function.update_of_ne heq] at ht'
  exact ⟨fun t' copy data ht' => h.mem t' copy data (hold t' copy data ht'),
    fun t₁ t₂ copy data data' ht₁ ht₂ =>
      h.inj t₁ t₂ copy data data' (hold t₁ copy data ht₁) (hold t₂ copy data' ht₂)⟩

/-- The thread `t` has taken its trap frame. -/
theorem taken (h : Copies thr copies) {t copy data : ℕ} (ht : thr t = .forked copy data) {th : Thr}
    (hth : ∀ copy data, th ≠ .forked copy data) :
    Copies (Function.update thr t th) (copies.erase ⟨copy, trapframeSize⟩) := by
  refine ⟨fun t' copy' data' ht' => ?_, (h.update t hth).inj⟩
  refine (List.mem_erase_of_ne fun heq => ?_).mpr ((h.update t hth).mem t' copy' data' ht')
  obtain rfl : copy' = copy := congrArg KBlock.addr heq
  by_cases hne : t' = t
  · subst hne
    rw [Function.update_self] at ht'
    exact hth _ _ ht'
  · rw [Function.update_of_ne hne] at ht'
    exact hne (h.inj t' t copy' data' data ht' ht)

/-- A new thread, with a trap frame in a new block. -/
theorem add (h : Copies thr copies) (t : ℕ) {copy : ℕ} (data : ℕ)
    (hnew : ∀ b ∈ copies, b.addr ≠ copy) :
    Copies (Function.update thr t (.forked copy data)) (⟨copy, trapframeSize⟩ :: copies) := by
  have hcases : ∀ t' copy' data', Function.update thr t (.forked copy data) t' =
      .forked copy' data' → t' = t ∧ copy' = copy ∨ thr t' = .forked copy' data' ∧ copy' ≠ copy := by
    intro t' copy' data' ht'
    by_cases heq : t' = t
    · subst heq
      rw [Function.update_self] at ht'
      exact .inl ⟨rfl, (Thr.forked.inj ht').1.symm⟩
    · rw [Function.update_of_ne heq] at ht'
      exact .inr ⟨ht', hnew _ (h.mem t' copy' data' ht')⟩
  constructor
  · intro t' copy' data' ht'
    rcases hcases t' copy' data' ht' with ⟨-, rfl⟩ | ⟨hold, -⟩
    · exact List.mem_cons_self
    · exact List.mem_cons_of_mem _ (h.mem t' copy' data' hold)
  · intro t₁ t₂ copy' data₁ data₂ ht₁ ht₂
    rcases hcases t₁ copy' data₁ ht₁ with ⟨rfl, rfl⟩ | ⟨hold₁, hne₁⟩
    · rcases hcases t₂ copy' data₂ ht₂ with ⟨rfl, -⟩ | ⟨-, hne₂⟩
      · rfl
      · exact absurd rfl hne₂
    · rcases hcases t₂ copy' data₂ ht₂ with ⟨-, heq⟩ | ⟨hold₂, -⟩
      · exact absurd heq hne₁
      · exact h.inj t₁ t₂ copy' data₁ data₂ hold₁ hold₂

end Copies

/-- The memory is in order, threads own their address spaces and trap frames, and the TLB is right
for a thread that runs in its address space. -/
structure Inv (base : ℕ) (s : State) : Prop where
  user : UserInv base s.sys s.spaces (s.copies ++ s.blocks)
  owns : Owns s.thr s.spaces
  copies : Copies s.thr s.copies
  fresh : ∀ t ≥ s.count, s.thr t = .dead
  coherent : ∀ as, s.thr s.cur = .running as → Coherent s.sys as

theorem Booted.inv (h : Booted s) : ∃ base, Inv base s := by
  obtain ⟨vm₀, old, hram, hboot⟩ := h.vm
  have hthr : ∀ t, (s.thr t).space = none := by
    intro t
    rw [h.thr]
    dsimp only
    split <;> rfl
  refine ⟨toppagePtr vm₀.firstpaddr vm₀.lastpaddr, ⟨?_, ?_⟩, ⟨?_, ?_⟩, ⟨?_, ?_⟩, ?_, ?_⟩
  · rw [h.spaces, h.copies, h.blocks]
    exact h.heap.inv ((vmBootstrap_spec old hram).of_ok hboot)
  · rw [h.spaces]
    exact fun as has => absurd has List.not_mem_nil
  · intro t as hs
    rw [hthr t] at hs
    exact absurd hs (Option.some_ne_none as).symm
  · intro t t' as hs
    rw [hthr t] at hs
    exact absurd hs (Option.some_ne_none as).symm
  · intro t copy data ht
    exact absurd (hthr t) (by rw [ht]; exact Option.some_ne_none data)
  · intro t t' copy data data' ht
    exact absurd (hthr t) (by rw [ht]; exact Option.some_ne_none data)
  · intro t ht
    rw [h.count] at ht
    rw [h.thr]
    exact if_neg (by omega)
  · intro as hcur
    rw [h.thr, h.cur] at hcur
    exact absurd hcur (by simp)

/-- What does not show in the live address spaces does not show in any thread. -/
theorem Inv.proc_eq (h : Inv base s) {sys' : VmSys} {bs : List KBlock}
    (hshows : Shows s.spaces bs s.sys s.sys.pages sys') (t : ℕ) :
    (match (s.thr t).space with
      | none => noPages
      | some as => (sys'.pages as, sys'.regions as)) = s.proc t := by
  rw [State.proc]
  cases hspace : (s.thr t).space with
  | none => rfl
  | some as =>
    have has := h.owns.held t as hspace
    dsimp only
    rw [hshows.pages as has, hshows.regions as has]

/-- An operation that shows nowhere and leaves the TLB alone. -/
theorem Inv.quiet (h : Inv base s) {sys' : VmSys} {spaces' : List ℕ} {bs : List KBlock} {n : ℤ}
    (hsub : s.spaces ⊆ spaces') (h' : UserInv base sys' spaces' (s.copies ++ s.blocks))
    (htlb : sys'.tlb = s.sys.tlb) (hshows : Shows s.spaces bs s.sys s.sys.pages sys') :
    Inv base { s with sys := sys', spaces := spaces', pidAssign := n } ∧
      State.view { s with sys := sys', spaces := spaces', pidAssign := n } = s.view := by
  refine ⟨⟨h', h.owns.mono hsub, h.copies, h.fresh, fun as hcur => ?_⟩, ?_⟩
  · have has := h.owns.held s.cur as (by rw [hcur]; rfl)
    exact (h.coherent as hcur).grow htlb (hshows.grows as has)
  · refine View.ext rfl rfl rfl (funext fun t => h.proc_eq hshows t) (tlbPages_congr htlb)

/-! ## The heap -/

/-- A call of the heap keeps the address spaces, and the blocks of everybody else. -/
theorem heapStep_shows {sys : VmSys} {L : List ℕ} {others live live' : List KBlock} {k' : Kern}
    (h : UserInv base sys L (others ++ live)) (hstep : HeapStep ⟨sys.kern, live⟩ ⟨k', live'⟩) :
    UserInv base { sys with kern := k' } L (others ++ live') ∧
      Shows L others sys sys.pages { sys with kern := k' } := by
  have hkern := h.inv
  rw [AsInv, ← List.append_assoc] at hkern
  have hinv := hstep.inv _ hkern
  rw [List.append_assoc] at hinv
  obtain ⟨hsame, hheld⟩ := hstep.frame hkern
  refine ⟨h.of_tables (List.Subset.refl _) hinv rfl rfl, fun as _ i j frame hf => hf,
    fun as _ => rfl, fun as has => ?_, fun b hb => hheld b (List.mem_append_right _ hb)⟩
  funext i j
  have hframe : VmSys.frame? { sys with kern := k' } as i j = sys.frame? as i j := rfl
  rw [VmSys.pages, VmSys.pages, hframe]
  cases hf : sys.frame? as i j with
  | none => rfl
  | some frame =>
    refine congrArg some (clip_congr fun x hx => ?_)
    refine hsame _ ((frame?_eq_some has).mp hf).mem _ (Nat.le_add_right _ _) ?_
    simp only [Nat.mul_one]
    omega

/-! ## Steps keep the invariant -/

/-- A thread that is not gone has been made. -/
theorem Inv.lt_count (h : Inv base s) {t : ℕ} (hlive : s.thr t ≠ .dead) : t < s.count := by
  by_contra hge
  exact hlive (h.fresh t (Nat.le_of_not_lt hge))

/-- A thread that runs in its address space, or is about to. -/
theorem Inv.tVmspace_ne (h : Inv base s) (t : ℕ) :
    (s.thr t).tVmspace ≠ 0 ↔ (s.thr t).shape = .entering 0 ∨ (s.thr t).shape = .running 0 := by
  have hne : ∀ as, (s.thr t).space = some as → as ≠ 0 := fun as hs =>
    h.user.ne_null (h.owns.held t as hs)
  cases hthr : s.thr t with
  | kernel => simp [Thr.tVmspace, Thr.shape]
  | forked copy data => simp [Thr.tVmspace, Thr.shape]
  | entering as => simpa [Thr.tVmspace, Thr.shape] using hne as (by rw [hthr]; rfl)
  | running as => simpa [Thr.tVmspace, Thr.shape] using hne as (by rw [hthr]; rfl)
  | dead => simp [Thr.tVmspace, Thr.shape]

/-- A TLB without valid entries holds no page. -/
theorem tlbPages_of_flushed {sys : VmSys} (h : ∀ k < numTlb, sys.valid k = false) :
    sys.tlbPages = fun _ => none := by
  funext k
  rw [VmSys.tlbPages]
  refine if_neg fun hc => ?_
  rw [h k hc.1] at hc
  exact Bool.false_ne_true hc.2

/-- The address space of the current thread is activated. -/
theorem Inv.activated (h : Inv base s) {sys' : VmSys} (hcall : asActivate s.sys = .ok () sys') :
    UserInv base sys' s.spaces (s.copies ++ s.blocks) ∧ (∀ as, Coherent sys' as) ∧
      (sys'.tlbPages = fun _ => none) ∧
      Shows s.spaces (s.copies ++ s.blocks) s.sys s.sys.pages sys' := by
  obtain ⟨sys₁, hcall₁, hsame, hkern, hflushed⟩ := asActivate_flushes s.sys
  rw [hcall, Outcome.ok.injEq] at hcall₁
  obtain ⟨-, rfl⟩ := hcall₁
  refine ⟨h.user.of_tables (List.Subset.refl _) ?_ hsame.spaces hsame.tables,
    Coherent.of_flushed hflushed, tlbPages_of_flushed hflushed, hsame.shows _ _⟩
  cases hcall
  exact h.user.inv

theorem step_switch (h : Inv base s) {t : ℕ} {sys' : VmSys}
    (hcall : activateIf (s.thr t).tVmspace s.sys = .ok () sys') :
    Inv base { s with cur := t, sys := sys' } ∧
      State.view { s with cur := t, sys := sys' } = s.view.next (.switch t) := by
  rw [activateIf] at hcall
  by_cases hnull : (s.thr t).tVmspace = 0
  · rw [if_pos hnull] at hcall
    cases hcall
    refine ⟨⟨h.user, h.owns, h.copies, h.fresh, fun as hcur => ?_⟩, ?_⟩
    · have has : as = 0 := by
        dsimp only at hcur
        rwa [hcur] at hnull
      exact absurd has (h.user.ne_null (h.owns.held t as (by dsimp only at hcur; rw [hcur]; rfl)))
    · have hshape : ¬ ((s.thr t).shape = .entering 0 ∨ (s.thr t).shape = .running 0) :=
        fun hs => (h.tVmspace_ne t).mpr hs hnull
      exact View.ext rfl rfl rfl rfl (if_neg hshape).symm
  · rw [if_neg hnull] at hcall
    obtain ⟨h', hcoherent, htlb, hshows⟩ := h.activated hcall
    refine ⟨⟨h', h.owns, h.copies, h.fresh, fun as _ => hcoherent as⟩, ?_⟩
    refine View.ext rfl rfl rfl (funext fun t' => h.proc_eq hshows t') ?_
    rw [State.view, htlb]
    exact (if_pos ((h.tVmspace_ne t).mp hnull)).symm

/-- The processes simulate what a thread does in its address space. -/
theorem UserOp.simulates {L : List ℕ} {blocks : List KBlock} {as : ℕ}
    {others : ℕ → Pages × ℕ × ℕ × ℕ} {held : ℕ → ℕ} (has : as ∈ L) (op : UserOp) :
    Simulates (Models base L blocks as others held) (op.run as) op.model := by
  cases op with
  | access faulttype vaddr => exact access_simulates has faulttype vaddr
  | store vaddr v => exact userStore_simulates has vaddr v
  | defineRegion vaddr => exact defineRegion_simulates vaddr
  | load f => exact .bind (loadElf_models has f) fun _ => .pure ()

/-- What a thread does in its address space, as its process sees it. -/
theorem Inv.user_models (h : Inv base s) {as : ℕ} {op : UserOp} {sys' : VmSys}
    (hcur : s.thr s.cur = .running as) (hcall : Returns (op.run as) s.sys sys') :
    ∃ a', Returns op.model s.view.aspace a' ∧ Models base s.spaces (s.copies ++ s.blocks) as
      (fun as' => (s.sys.pages as', s.sys.regions as')) s.sys.kern.mem sys' a' := by
  have hspace : (s.thr s.cur).space = some as := by rw [hcur]; rfl
  have has := h.owns.held s.cur as hspace
  have hproc : s.proc s.cur = (s.sys.pages as, s.sys.regions as) := by rw [State.proc, hspace]
  refine (op.simulates has).returns ?_ hcall
  refine ⟨h.user, h.coherent as hcur, ?_, ?_, rfl, fun _ _ _ => rfl, fun _ _ _ _ _ => rfl⟩
  · show _ = (s.proc s.cur).1
    rw [hproc]
  · show _ = (s.proc s.cur).2
    rw [hproc]

theorem step_user (h : Inv base s) {as : ℕ} {op : UserOp} {sys' : VmSys}
    (hcur : s.thr s.cur = .running as) (hcall : Returns (op.run as) s.sys sys') :
    Inv base { s with sys := sys' } ∧
      State.view { s with sys := sys' } = s.view.next (.user op) := by
  have hspace : (s.thr s.cur).space = some as := by rw [hcur]; rfl
  obtain ⟨a', hreturns, h'⟩ := h.user_models hcur hcall
  refine ⟨⟨h'.user, h.owns, h.copies, h.fresh, fun as' hcur' => ?_⟩, ?_⟩
  · obtain rfl : as = as' := Thr.running.inj (hcur.symm.trans hcur')
    exact h'.coherent
  · rw [View.next, hreturns.finalD]
    refine View.ext rfl rfl rfl (funext fun t => ?_) h'.tlb
    show (match (s.thr t).space with
      | none => noPages
      | some as => (sys'.pages as, sys'.regions as)) =
        Function.update s.proc s.cur (a'.pages, a'.regions) t
    by_cases heq : t = s.cur
    · subst heq
      rw [Function.update_self, hspace, ← h'.pages, ← h'.regions]
    · rw [Function.update_of_ne heq, State.proc]
      cases hspace' : (s.thr t).space with
      | none => rfl
      | some as' =>
        refine h'.others as' (h.owns.held t as' hspace') ?_
        rintro rfl
        exact heq (h.owns.inj t s.cur as' hspace' hspace)

theorem step_nullFault (h : Inv base s) {faulttype : ℤ} {faultaddress : ℕ} {sys' : VmSys}
    (hcall : Returns (vmFault 0 faulttype faultaddress) s.sys sys') :
    Inv base { s with sys := sys' } ∧ State.view { s with sys := sys' } = s.view := by
  obtain ⟨hsame, htlb⟩ : SameUser s.sys sys' ∧ sys'.tlb = s.sys.tlb := by
    rcases (vmFault_null s.sys faulttype faultaddress).returns hcall with ⟨_, hf⟩ | ⟨_, hs⟩
    · exact hf.elim
    · exact hs
  have hinv : AsInv base sys' s.spaces (s.copies ++ s.blocks) := by
    rcases (vmFault_spec h.user.inv (.inl rfl) faulttype faultaddress).returns hcall with
      ⟨_, h'⟩ | ⟨_, h'⟩
    · exact h'
    · exact h'
  exact h.quiet (List.Subset.refl _)
    (h.user.of_tables (List.Subset.refl _) hinv hsame.spaces hsame.tables) htlb
    (hsame.shows _ [])

/-- The shapes of the threads after thread `t` has got the state `th`. -/
theorem shape_update (thr : ℕ → Thr) (t : ℕ) (th : Thr) :
    (fun t' => (Function.update thr t th t').shape) =
      Function.update (fun t' => (thr t').shape) t th.shape := by
  funext t'
  by_cases heq : t' = t
  · subst heq
    rw [Function.update_self, Function.update_self]
  · rw [Function.update_of_ne heq, Function.update_of_ne heq]

/-- The pages of the threads after thread `t` has got the state `th`. -/
theorem Inv.proc_update (h : Inv base s) {sys' : VmSys} {bs : List KBlock}
    (hshows : Shows s.spaces bs s.sys s.sys.pages sys') (t : ℕ) (th : Thr) :
    (fun t' => match (Function.update s.thr t th t').space with
      | none => noPages
      | some as => (sys'.pages as, sys'.regions as)) =
      Function.update s.proc t (match th.space with
        | none => noPages
        | some as => (sys'.pages as, sys'.regions as)) := by
  funext t'
  by_cases heq : t' = t
  · subst heq
    rw [Function.update_self, Function.update_self]
  · rw [Function.update_of_ne heq, Function.update_of_ne heq]
    exact h.proc_eq hshows t'

theorem step_create (h : Inv base s) {as : ℕ} {sys' : VmSys} (hcur : s.thr s.cur = .kernel)
    (hne : as ≠ 0) (hcall : asCreate s.sys = .ok as sys') :
    Inv base { s with
        sys := sys', spaces := as :: s.spaces, thr := Function.update s.thr s.cur (.entering as) } ∧
      State.view { s with
        sys := sys', spaces := as :: s.spaces
        thr := Function.update s.thr s.cur (.entering as) } = s.view.next .create := by
  obtain ⟨hshows, htlb, hcase⟩ := (asCreate_shows h.user).of_ok hcall
  obtain ⟨-, h', hregions, hnew, -⟩ := hcase.resolve_left fun hz => hne hz.1
  have hlt := h.lt_count (t := s.cur) (by rw [hcur]; exact Thr.noConfusion)
  refine ⟨⟨h', ?_, h.copies.update s.cur fun _ _ => Thr.noConfusion, fun t ht => ?_,
    fun as' hrun => ?_⟩, ?_⟩
  · refine (h.owns.mono (List.subset_cons_self as s.spaces)).take rfl List.mem_cons_self ?_
    intro t' _ hs
    exact (List.nodup_cons.mp h'.inv.nodup).1 (h.owns.held t' as hs)
  · dsimp only at ht ⊢
    rw [Function.update_of_ne (by omega)]
    exact h.fresh t ht
  · dsimp only at hrun
    rw [Function.update_self] at hrun
    exact Thr.noConfusion hrun
  · refine View.ext rfl rfl (shape_update _ _ _) ?_ (tlbPages_congr htlb)
    refine (h.proc_update hshows s.cur (.entering as)).trans ?_
    refine congrArg (Function.update s.proc s.cur) ?_
    show (sys'.pages as, sys'.regions as) = noPages
    rw [hnew.pages, hregions]
    rfl

theorem step_activate (h : Inv base s) {as : ℕ} {sys' : VmSys} (hcur : s.thr s.cur = .entering as)
    (hcall : asActivate s.sys = .ok () sys') :
    Inv base { s with
        sys := sys', thr := Function.update s.thr s.cur (.running as)
        entered := Function.update s.entered s.cur ((s.temp s.cur).map Trapframe.child) } ∧
      State.view { s with
        sys := sys', thr := Function.update s.thr s.cur (.running as)
        entered := Function.update s.entered s.cur ((s.temp s.cur).map Trapframe.child) } =
        s.view.next .activate := by
  obtain ⟨h', hcoherent, htlb, hshows⟩ := h.activated hcall
  have hspace : (s.thr s.cur).space = some as := by rw [hcur]; rfl
  have has := h.owns.held s.cur as hspace
  have hlt := h.lt_count (t := s.cur) (by rw [hcur]; exact Thr.noConfusion)
  refine ⟨⟨h', h.owns.keep hspace rfl, h.copies.update s.cur fun _ _ => Thr.noConfusion,
    fun t ht => ?_, fun as' _ => hcoherent as'⟩, ?_⟩
  · dsimp only at ht ⊢
    rw [Function.update_of_ne (by omega)]
    exact h.fresh t ht
  · refine View.ext rfl rfl (shape_update _ _ _) ?_ htlb
    refine (h.proc_update hshows s.cur (.running as)).trans (Function.update_eq_self_iff.mpr ?_)
    rw [State.proc, hspace]
    show (sys'.pages as, sys'.regions as) = _
    rw [hshows.pages as has, hshows.regions as has]

theorem step_forkentry (h : Inv base s) {copy data : ℕ}
    (hcur : s.thr s.cur = .forked copy data) :
    Inv base { s with
        thr := Function.update s.thr s.cur (.entering data)
        temp := Function.update s.temp s.cur (some (loadFrame s.sys.kern.mem copy))
        copies := s.copies.erase ⟨copy, trapframeSize⟩
        blocks := ⟨copy, trapframeSize⟩ :: s.blocks } ∧
      State.view { s with
        thr := Function.update s.thr s.cur (.entering data)
        temp := Function.update s.temp s.cur (some (loadFrame s.sys.kern.mem copy))
        copies := s.copies.erase ⟨copy, trapframeSize⟩
        blocks := ⟨copy, trapframeSize⟩ :: s.blocks } = s.view.next .forkentry := by
  have hspace : (s.thr s.cur).space = some data := by rw [hcur]; rfl
  have hlt := h.lt_count (t := s.cur) (by rw [hcur]; exact Thr.noConfusion)
  have hperm : (s.copies ++ s.blocks).Perm
      (s.copies.erase ⟨copy, trapframeSize⟩ ++ ⟨copy, trapframeSize⟩ :: s.blocks) :=
    ((List.perm_cons_erase (h.copies.mem _ _ _ hcur)).append_right _).trans List.perm_middle.symm
  refine ⟨⟨h.user.permBlocks hperm, h.owns.keep hspace rfl,
    h.copies.taken hcur fun _ _ => Thr.noConfusion, fun t ht => ?_, fun as' hrun => ?_⟩, ?_⟩
  · dsimp only at ht ⊢
    rw [Function.update_of_ne (by omega)]
    exact h.fresh t ht
  · dsimp only at hrun
    rw [Function.update_self] at hrun
    exact Thr.noConfusion hrun
  · refine View.ext rfl rfl (shape_update _ _ _) ?_ rfl
    refine (h.proc_update ((SameUser.refl s.sys).shows _ []) s.cur (.entering data)).trans
      (Function.update_eq_self_iff.mpr ?_)
    rw [State.proc, hspace]
    rfl

/-! ## Steps of `sys_fork` -/

section TrapFrames

variable {sys : VmSys} {L : List ℕ} {others : List KBlock} {copy : ℕ}

/-- A block for a trap frame. -/
theorem kmallocFrame_shows (h : UserInv base sys L others) :
    Meets (onKern (kmalloc trapframeSize))
      (fun copy sys' => sys'.tlb = sys.tlb ∧ Shows L others sys sys.pages sys' ∧
        (copy = 0 ∧ UserInv base sys' L others ∨
          copy ≠ 0 ∧ UserInv base sys' L (others ++ [⟨copy, trapframeSize⟩])))
      (fun _ _ => False) sys := by
  have hlt : trapframeSize < 2 ^ 32 := by decide
  rw [onKern, meets_zoom]
  refine (kmalloc_spec h.inv hlt).and_run.imp ?_
  rintro copy k' ⟨-, hcall⟩
  have hstep := HeapStep.kmalloc (s := ⟨sys.kern, []⟩) hlt hcall
  rw [← List.append_nil others] at h
  obtain ⟨h', hshows⟩ := heapStep_shows h hstep
  refine ⟨rfl, hshows, ?_⟩
  by_cases hnull : copy = 0
  · rw [if_pos hnull, List.append_nil] at h'
    exact .inl ⟨hnull, h'⟩
  · rw [if_neg hnull] at h'
    exact .inr ⟨hnull, h'⟩

/-- Giving the block back. -/
theorem kfreeFrame_shows (h : UserInv base sys L (others ++ [⟨copy, trapframeSize⟩])) :
    Meets (onKern (kfree copy))
      (fun _ sys' => sys'.tlb = sys.tlb ∧ Shows L others sys sys.pages sys' ∧
        UserInv base sys' L others) (fun _ _ => False) sys := by
  have hperm : (L.flatMap (asBlocks sys) ++ (others ++ [(⟨copy, trapframeSize⟩ : KBlock)])).Perm
      (⟨copy, trapframeSize⟩ :: (L.flatMap (asBlocks sys) ++ others)) := by
    rw [← List.append_assoc]
    exact List.perm_append_singleton ..
  rw [onKern, meets_zoom]
  refine (kfree_spec (KernInv.perm h.inv hperm (List.Perm.refl _))).and_run.imp ?_
  rintro _ k' ⟨-, hcall⟩
  have hstep : HeapStep ⟨sys.kern, [⟨copy, trapframeSize⟩]⟩
      ⟨k', [(⟨copy, trapframeSize⟩ : KBlock)].erase ⟨copy, trapframeSize⟩⟩ :=
    .kfree List.mem_cons_self hcall
  obtain ⟨h', hshows⟩ := heapStep_shows h hstep
  rw [List.erase_cons_head, List.append_nil] at h'
  exact ⟨rfl, hshows, h'⟩

/-- One word of the copy. -/
theorem storeWord_shows (h : UserInv base sys L (others ++ [⟨copy, trapframeSize⟩])) {i : ℕ}
    (hi : i < 37) (v : ℕ) :
    UserInv base { sys with kern := { sys.kern with
        mem := Function.update sys.kern.mem (copy + 4 * i) v } } L
        (others ++ [⟨copy, trapframeSize⟩]) ∧
      Shows L others sys sys.pages { sys with kern := { sys.kern with
        mem := Function.update sys.kern.mem (copy + 4 * i) v } } := by
  have hlt : copy + 4 * i < copy + trapframeSize := by
    unfold trapframeSize
    omega
  exact heapStep_shows h (.write List.mem_cons_self (Nat.le_add_right copy (4 * i)) hlt)

/-- Copying a trap frame to the block. -/
theorem storeFrame_shows (h : UserInv base sys L (others ++ [⟨copy, trapframeSize⟩]))
    (tf : Trapframe) :
    Meets (storeFrame copy tf)
      (fun _ sys' => UserInv base sys' L (others ++ [⟨copy, trapframeSize⟩]) ∧
        Shows L others sys sys.pages sys' ∧ sys'.tlb = sys.tlb ∧
        loadFrame sys'.kern.mem copy = tf) (fun _ _ => False) sys := by
  have hwords37 : trapframeWords = 37 := by rw [trapframeWords]
  -- after `i` passes the first `i` registers are in place
  refine (Meets.forRange (fun i sys' => UserInv base sys' L (others ++ [⟨copy, trapframeSize⟩]) ∧
    Shows L others sys sys.pages sys' ∧ sys'.tlb = sys.tlb ∧
    ∀ r : Reg, r.ctorIdx < i → sys'.kern.mem (copy + 4 * r.ctorIdx) = (tf r).toNat)
    ⟨h, (SameUser.refl sys).shows L others, rfl, fun r hr => absurd hr (Nat.not_lt_zero _)⟩ ?_).imp ?_
  · rintro i sys' - hi ⟨h', hshows, htlb, hwords⟩
    rw [onKern, meets_zoom, store, meets_modify]
    obtain ⟨h'', hshows'⟩ := storeWord_shows h' (i := i) (by omega) (tf (.ofNat i)).toNat
    refine ⟨h'', hshows.comp hshows', htlb, ?_⟩
    intro r hr
    by_cases heq : r.ctorIdx = i
    · subst heq
      exact (Function.update_self ..).trans (by rw [Reg.ofNat_ctorIdx])
    · exact (Function.update_of_ne (by omega) _ _).trans (hwords r (by omega))
  · rintro - sys' ⟨h', hshows, htlb, hwords⟩
    refine ⟨h', hshows, htlb, funext fun r => ?_⟩
    have hr : r.ctorIdx < 37 := by cases r <;> decide
    rw [loadFrame, hwords r (by omega), BitVec.ofNat_toNat, BitVec.setWidth_eq]

/-- A frame reads the same where its words are. -/
theorem loadFrame_congr {mem mem' : ℕ → ℕ}
    (hmem : ∀ x, copy ≤ x → x < copy + trapframeSize → mem' x = mem x) :
    loadFrame mem' copy = loadFrame mem copy := by
  funext r
  have hr : r.ctorIdx < 37 := by cases r <;> decide
  have hlt : copy + 4 * r.ctorIdx < copy + trapframeSize := by
    unfold trapframeSize
    omega
  rw [loadFrame, loadFrame, hmem _ (Nat.le_add_right _ _) hlt]

end TrapFrames

/-- The state after `sys_fork` has made a thread. -/
def State.withChild (s : State) (tf : Trapframe) (copy new : ℕ) (sys' : VmSys) : State :=
  { s.addThread (.forked copy new) with
    sys := sys', copies := ⟨copy, trapframeSize⟩ :: s.copies, spaces := new :: s.spaces
    trap := Function.update s.trap s.count tf }

/-- Memory after `sys_fork` has made a thread: the new address space `new` shows what `as` shows,
and the block at `copy` holds the trap frame. -/
structure ForkMade (base : ℕ) (s : State) (as : ℕ) (tf : Trapframe) (copy new : ℕ) (sys' : VmSys) :
    Prop where
  user : UserInv base sys' (new :: s.spaces) (⟨copy, trapframeSize⟩ :: s.copies ++ s.blocks)
  tlb : sys'.tlb = s.sys.tlb
  shows : Shows s.spaces (s.copies ++ s.blocks) s.sys s.sys.pages sys'
  pages : sys'.pages new = s.sys.pages as
  regions : sys'.regions new = s.sys.regions as
  frame : loadFrame sys'.kern.mem copy = tf

/-- Memory after `sys_fork` has not made a thread. -/
structure ForkFailed (base : ℕ) (s : State) (spaces' : List ℕ) (sys' : VmSys) : Prop where
  sub : s.spaces ⊆ spaces'
  user : UserInv base sys' spaces' (s.copies ++ s.blocks)
  tlb : sys'.tlb = s.sys.tlb
  shows : Shows s.spaces (s.copies ++ s.blocks) s.sys s.sys.pages sys'

/-- What `sys_fork` does for a thread that runs in its address space. -/
theorem sysFork_spec (h : Inv base s) {as : ℕ} (hcur : s.thr s.cur = .running as) (fork : ForkEnd)
    (garbage : ℤ) (tf : Trapframe) :
    Meets (sysFork fork garbage tf 0)
      (fun r s' => (∃ sys' spaces' n, s' = { s with sys := sys', spaces := spaces', pidAssign := n } ∧
          ForkFailed base s spaces' sys' ∧ (n = s.pidAssign ∨ n = s32 (s.pidAssign + 1)) ∧
          (r.err = 0 → garbage = 0)) ∨
        ∃ copy new sys', r = ⟨0, 0, tf⟩ ∧ ForkMade base s as tf copy new sys' ∧
          s' = s.withChild tf copy new sys')
      (fun _ _ => False) s (fun _ => True) := by
  have has := h.owns.held s.cur as (by rw [hcur]; rfl)
  have hvm : (s.thr s.cur).tVmspace = as := by rw [hcur]; rfl
  have hcode : (Errno.ENOMEM.code : ℤ) ≠ 0 := by decide
  simp only [sysFork, onSys, meets_bind, meets_zoom]
  refine (kmallocFrame_shows h.user).partial_of.noErr ?_
  rintro copy sys₁ ⟨htlb₁, hshows₁, ⟨hnull, h₁⟩ | ⟨hnull, h₁⟩⟩
  · rw [if_pos hnull, meets_pure]
    exact .inl ⟨sys₁, s.spaces, s.pidAssign, rfl, ⟨List.Subset.refl _, h₁, htlb₁, hshows₁⟩,
      .inl rfl, fun herr => absurd herr hcode⟩
  rw [if_neg hnull]
  simp only [meets_bind, meets_zoom, meets_gets, meets_attempt, hvm]
  refine (storeFrame_shows h₁ tf).partial_of.noErr ?_
  rintro - sys₂ ⟨h₂, hshows₂, htlb₂, hframe⟩
  refine (asCopy_shows h₂ has).mono ?_ ?_
  · rintro new sys₃ ⟨h₃, htlb₃, hshows₃, hpages, hregions⟩
    have hshows := (hshows₁.comp hshows₂).comp
      (hshows₃.subset (List.Subset.refl _) (List.subset_append_left _ _))
    have htlb := (htlb₃.trans htlb₂).trans htlb₁
    -- `thread_fork` fails: the copy goes back to the heap, the address space does not
    have hfails : Meets (onKern (kfree copy))
        (fun _ sys₄ => ForkFailed base s (new :: s.spaces) sys₄) (fun _ _ => False) sys₃ := by
      refine (kfreeFrame_shows h₃).imp ?_
      rintro _ sys₄ ⟨htlb₄, hshows₄, h₄⟩
      exact ⟨List.subset_cons_self _ _, h₄, htlb₄.trans htlb,
        hshows.comp (hshows₄.subset (List.subset_cons_self _ _) (List.Subset.refl _))⟩
    cases fork
    case made =>
      simp only [threadFork, meets_bind, meets_modify, meets_pure, ne_eq, not_true, if_false]
      refine .inr ⟨copy, new, sys₃, trivial, ⟨h₃.permBlocks (List.perm_append_singleton ..), htlb,
        hshows, hpages.trans (hshows₁.comp hshows₂ |>.pages as has), ?_, ?_⟩, rfl⟩
      · exact hregions.trans ((hshows₁.comp hshows₂).regions as has)
      · rw [← hframe]
        exact loadFrame_congr fun x hlo hhi => hshows₃.held _ List.mem_concat_self x hlo hhi
    case noThread =>
      simp only [threadFork, meets_bind, meets_modify, meets_pure, if_pos hcode, meets_zoom]
      exact hfails.partial_of.noErr fun _ sys₄ hfailed =>
        .inl ⟨sys₄, new :: s.spaces, s.pidAssign, rfl, hfailed, .inl rfl,
          fun herr => absurd herr hcode⟩
    case noStack =>
      simp only [threadFork, meets_bind, meets_modify, meets_pure, if_pos hcode, meets_zoom]
      exact hfails.partial_of.noErr fun _ sys₄ hfailed =>
        .inl ⟨sys₄, new :: s.spaces, _, rfl, hfailed, .inr rfl, fun herr => absurd herr hcode⟩
  · rintro _ sys₃ ⟨h₃, htlb₃, hshows₃⟩
    have hshows := (hshows₁.comp hshows₂).comp
      (hshows₃.subset (List.Subset.refl _) (List.subset_append_left _ _))
    refine (kfreeFrame_shows h₃).partial_of.noErr ?_
    rintro - sys₄ ⟨htlb₄, hshows₄, h₄⟩
    exact .inl ⟨sys₄, s.spaces, s.pidAssign, rfl, ⟨List.Subset.refl _, h₄,
      (htlb₄.trans htlb₃).trans (htlb₂.trans htlb₁), hshows.comp hshows₄⟩, .inl rfl,
      fun herr => herr⟩

/-- The system call `fork` of a program: what it leaves in memory and in the trap frame. -/
theorem fork_cases (h : Inv base s) {as : ℕ} (hcur : s.thr s.cur = .running as)
    {hs : Handlers Errno State} {fork : ForkEnd} {garbage : ℤ} {tf tf' : Trapframe}
    (hnumber : tf.int .tfV0 = 2)
    (hcall : mipsSyscall (forkHandlers hs fork garbage) tf s = .ok tf' s') :
    (∃ sys' spaces' n, s' = { s with sys := sys', spaces := spaces', pidAssign := n } ∧
        ForkFailed base s spaces' sys' ∧ (n = s.pidAssign ∨ n = s32 (s.pidAssign + 1)) ∧
        (tf' .tfA3 = 0 → garbage = 0)) ∨
      ∃ copy new sys', tf' = Reply.leave ⟨0, 0, tf⟩ ∧ ForkMade base s as tf copy new sys' ∧
        s' = s.withChild tf copy new sys' := by
  have hspec : Meets (mipsSyscall (forkHandlers hs fork garbage) tf)
      (fun tf' s' => ∃ r : Reply, tf' = r.leave ∧
        ((∃ sys' spaces' n, s' = { s with sys := sys', spaces := spaces', pidAssign := n } ∧
          ForkFailed base s spaces' sys' ∧ (n = s.pidAssign ∨ n = s32 (s.pidAssign + 1)) ∧
          (r.err = 0 → garbage = 0)) ∨
        ∃ copy new sys', r = ⟨0, 0, tf⟩ ∧ ForkMade base s as tf copy new sys' ∧
          s' = s.withChild tf copy new sys')) (fun _ _ => False) s (fun _ => True) := by
    rw [meets_mipsSyscall, dispatch_fork _ hnumber]
    exact (sysFork_spec h hcur fork garbage tf).imp fun r s' hr => ⟨r, rfl, hr⟩
  obtain ⟨r, rfl, hcase | hcase⟩ := hspec.of_ok hcall
  · obtain ⟨sys', spaces', n, hs', hfailed, hn, herr⟩ := hcase
    refine .inl ⟨sys', spaces', n, hs', hfailed, hn, fun ha3 => herr ?_⟩
    by_contra hne
    rw [Reply.leave_a3, if_neg hne] at ha3
    exact absurd ha3 (by decide)
  · obtain ⟨copy, new, sys', rfl, hmade, hs'⟩ := hcase
    exact .inr ⟨copy, new, sys', rfl, hmade, hs'⟩

/-- `sys_fork` that makes a thread. -/
theorem step_fork (h : Inv base s) {as copy new : ℕ} {sys' : VmSys} {tf : Trapframe}
    (hcur : s.thr s.cur = .running as) (hmade : ForkMade base s as tf copy new sys') :
    Inv base (s.withChild tf copy new sys') ∧
      (s.withChild tf copy new sys').view = s.view.next .fork := by
  have hspace : (s.thr s.cur).space = some as := by rw [hcur]; rfl
  have has := h.owns.held s.cur as hspace
  have hlt := h.lt_count (t := s.cur) (by rw [hcur]; exact Thr.noConfusion)
  refine ⟨⟨hmade.user, ?_, h.copies.add s.count new ?_, fun t ht => ?_, fun as' hrun => ?_⟩, ?_⟩
  · refine (h.owns.mono (List.subset_cons_self new s.spaces)).take rfl List.mem_cons_self ?_
    intro t' _ hs
    exact (List.nodup_cons.mp hmade.user.inv.nodup).1 (h.owns.held t' new hs)
  · have hnodup := (List.nodup_append.mp (List.map_append ▸ hmade.user.inv.nodup_addr)).2.1
    intro b hb heq
    exact (List.nodup_cons.mp hnodup).1
      (List.mem_map.mpr ⟨b, List.mem_append_left s.blocks hb, heq⟩)
  · dsimp only [State.withChild, State.addThread] at ht ⊢
    rw [Function.update_of_ne (by omega)]
    exact h.fresh t (by omega)
  · dsimp only [State.withChild, State.addThread] at hrun
    rw [Function.update_of_ne (by omega)] at hrun
    obtain rfl : as = as' := Thr.running.inj (hcur.symm.trans hrun)
    exact (h.coherent as hcur).grow hmade.tlb (hmade.shows.grows as has)
  · refine View.ext rfl rfl (shape_update _ _ _) ?_ (tlbPages_congr hmade.tlb)
    refine (h.proc_update hmade.shows s.count (.forked copy new)).trans ?_
    refine congrArg (Function.update s.proc s.count) ?_
    show (sys'.pages new, sys'.regions new) = s.proc s.cur
    rw [State.proc, hspace, hmade.pages, hmade.regions]

theorem step_exit (h : Inv base s) {sys' : VmSys}
    (hcur : s.thr s.cur = .kernel ∨ ∃ as, s.thr s.cur = .running as)
    (hcall : destroyIf (s.thr s.cur).tVmspace s.sys = .ok () sys') :
    Inv base { s with
        sys := sys', spaces := s.spaces.erase (s.thr s.cur).tVmspace
        thr := Function.update s.thr s.cur .dead } ∧
      State.view { s with
        sys := sys', spaces := s.spaces.erase (s.thr s.cur).tVmspace
        thr := Function.update s.thr s.cur .dead } = s.view.next .exit := by
  have hlt : s.cur < s.count := by
    refine h.lt_count ?_
    rcases hcur with hcur | ⟨as, hcur⟩
    · rw [hcur]; exact Thr.noConfusion
    · rw [hcur]; exact Thr.noConfusion
  -- whether or not there is an address space to give up
  have hgone : UserInv base sys' (s.spaces.erase (s.thr s.cur).tVmspace) (s.copies ++ s.blocks) ∧
      sys'.tlb = s.sys.tlb ∧
      Shows (s.spaces.erase (s.thr s.cur).tVmspace) (s.copies ++ s.blocks) s.sys s.sys.pages sys' ∧
      Owns (Function.update s.thr s.cur .dead) (s.spaces.erase (s.thr s.cur).tVmspace) := by
    rcases hcur with hcur | ⟨as, hcur⟩
    · have hnull : (s.thr s.cur).tVmspace = 0 := by rw [hcur]; rfl
      rw [destroyIf, if_pos hnull] at hcall
      cases hcall
      have hnot : (0 : ℕ) ∉ s.spaces := fun hz => h.user.ne_null hz rfl
      rw [hnull, List.erase_of_not_mem hnot]
      exact ⟨h.user, rfl, (SameUser.refl s.sys).shows _ _, h.owns.drop s.cur rfl⟩
    · have hspace : (s.thr s.cur).space = some as := by rw [hcur]; rfl
      have has := h.owns.held s.cur as hspace
      have hvm : (s.thr s.cur).tVmspace = as := by rw [hcur]; rfl
      rw [hvm, destroyIf, if_neg (h.user.ne_null has)] at hcall
      rw [hvm]
      obtain ⟨h', htlb, hshows⟩ :=
        (asDestroy_shows (h.user.perm (List.perm_cons_erase has))).of_ok hcall
      exact ⟨h', htlb, hshows, h.owns.destroy hspace rfl⟩
  obtain ⟨h', htlb, hshows, howns⟩ := hgone
  refine ⟨⟨h', howns, h.copies.update s.cur fun _ _ => Thr.noConfusion, fun t ht => ?_,
    fun as' hrun => ?_⟩, ?_⟩
  · dsimp only at ht ⊢
    rw [Function.update_of_ne (by omega)]
    exact h.fresh t ht
  · dsimp only at hrun
    rw [Function.update_self] at hrun
    exact Thr.noConfusion hrun
  · refine View.ext rfl rfl (shape_update _ _ _) (funext fun t => ?_) (tlbPages_congr htlb)
    show (match (Function.update s.thr s.cur .dead t).space with
      | none => noPages
      | some as => (sys'.pages as, sys'.regions as)) = Function.update s.proc s.cur noPages t
    by_cases heq : t = s.cur
    · subst heq
      rw [Function.update_self, Function.update_self]
      rfl
    · rw [Function.update_of_ne heq, Function.update_of_ne heq, State.proc]
      cases hspace : (s.thr t).space with
      | none => rfl
      | some as =>
        have has := howns.held t as (by rw [Function.update_of_ne heq]; exact hspace)
        dsimp only
        rw [hshows.pages as has, hshows.regions as has]

theorem step_spawn (h : Inv base s) :
    Inv base (s.addThread .kernel) ∧ (s.addThread .kernel).view = s.view.next .spawn := by
  refine ⟨⟨h.user, h.owns.drop s.count rfl, h.copies.update s.count fun _ _ => Thr.noConfusion,
    fun t ht => ?_, fun as hrun => ?_⟩, ?_⟩
  · dsimp only [State.addThread] at ht ⊢
    rw [Function.update_of_ne (by omega)]
    exact h.fresh t (by omega)
  · dsimp only [State.addThread] at hrun
    by_cases heq : s.cur = s.count
    · rw [heq, Function.update_self] at hrun
      exact Thr.noConfusion hrun
    · rw [Function.update_of_ne heq] at hrun
      exact h.coherent as hrun
  · exact View.ext rfl rfl (shape_update _ _ _)
      (h.proc_update ((SameUser.refl s.sys).shows _ []) s.count .kernel) rfl

theorem step_heap (h : Inv base s) {k' : Kern} {blocks' : List KBlock}
    (hstep : HeapStep ⟨s.sys.kern, s.blocks⟩ ⟨k', blocks'⟩) :
    Inv base { s with sys := { s.sys with kern := k' }, blocks := blocks' } ∧
      State.view { s with sys := { s.sys with kern := k' }, blocks := blocks' } = s.view := by
  obtain ⟨h', hshows⟩ := heapStep_shows h.user hstep
  refine ⟨⟨h', h.owns, h.copies, h.fresh, fun as hcur => ?_⟩, ?_⟩
  · have has := h.owns.held s.cur as (by dsimp only at hcur; rw [hcur]; rfl)
    exact (h.coherent as hcur).grow rfl (hshows.grows as has)
  · exact View.ext rfl rfl rfl (funext fun t => h.proc_eq hshows t) rfl

/-- One step keeps the invariant, and what there is to see after it is a function of what there was
before. -/
theorem Step.view (h : Inv base s) {cs : List Cmd} (hstep : Step s cs s') :
    Inv base s' ∧ s'.view = cs.foldl View.next s.view := by
  cases hstep with
  | switch hlive hcall => exact step_switch h hcall
  | user hcur hcall => exact step_user h hcur hcall
  | nullFault hnull hcall => exact step_nullFault h hcall
  | create hcur hne hcall => exact step_create h hcur hne hcall
  | createFails hcur hcall =>
    obtain ⟨hshows, htlb, hcase⟩ := (asCreate_shows h.user).of_ok hcall
    obtain ⟨-, h'⟩ := hcase.resolve_right fun hc => hc.1 rfl
    exact h.quiet (List.Subset.refl _) h' htlb hshows
  | activate hcur hcall => exact step_activate h hcur hcall
  | forkentry hcur => exact step_forkentry h hcur
  | fork hcur hnumber hcall hmade =>
    rcases fork_cases h hcur hnumber hcall with ⟨_, _, _, rfl, -⟩ | ⟨_, _, _, -, hmem, rfl⟩
    · exact absurd rfl hmade
    · exact step_fork h hcur hmem
  | forkFails hcur hnumber hcall hmade =>
    rcases fork_cases h hcur hnumber hcall with ⟨_, _, _, rfl, hmem, -⟩ | ⟨_, _, _, -, -, rfl⟩
    · exact h.quiet hmem.sub hmem.user hmem.tlb hmem.shows
    · exact absurd hmade (Nat.succ_ne_self _)
  | exit hcur hcall => exact step_exit h hcur hcall
  | spawn => exact step_spawn h
  | spawnFails =>
    exact h.quiet (List.Subset.refl _) h.user rfl ((SameUser.refl s.sys).shows _ [])
  | heap hstep => exact step_heap h hstep

/-- Along every run the invariant holds, and the last view follows from the first one and the
operations. -/
theorem Run.view (h : Inv base s) {cs : List Cmd} (hrun : Run Step s cs s') :
    Inv base s' ∧ s'.view = cs.foldl View.next s.view :=
  hrun.observe h fun hI hstep => Step.view hI hstep

/-! ## The TLB -/

/-- A machine with twenty free pages and the boot thread. -/
def bootState : State where
  sys := twentyPageSys
  spaces := []
  copies := []
  blocks := []
  cur := 0
  count := 1
  thr t := if t = 0 then .kernel else .dead
  pid _ := 0
  pidAssign := 0
  trap _ _ := 0
  temp _ := none
  entered _ := none

theorem bootState_booted : Booted bootState where
  vm := ⟨twentyPageVm, fun _ => default, ⟨by decide, by decide⟩, rfl⟩
  heap := ⟨rfl, fun _ _ => rfl, fun _ _ => rfl⟩
  spaces := rfl
  copies := rfl
  blocks := rfl
  count := rfl
  cur := rfl
  thr := rfl
  pidAssign := rfl
  temp := rfl
  entered := rfl

/-- The boot thread has made an address space. -/
def enteringState : State :=
  let as := (asCreate bootState.sys).valueD 0
  { bootState with
    sys := (asCreate bootState.sys).stateD bootState.sys, spaces := as :: bootState.spaces
    thr := Function.update bootState.thr bootState.cur (.entering as) }

/-- It has activated the address space. -/
def runningState : State := { enteringState with
  sys := (asActivate enteringState.sys).stateD enteringState.sys
  thr := Function.update enteringState.thr enteringState.cur (.running 0x80021000)
  entered := Function.update enteringState.entered enteringState.cur
    ((enteringState.temp enteringState.cur).map Trapframe.child) }

theorem runningState_run : Run Step bootState [.create, .activate] runningState := by
  have hcreate : Step bootState [.create] enteringState :=
    .create rfl (by decide +kernel) (Outcome.eq_ok _ 0 bootState.sys (by decide +kernel))
  have hactivate : Step enteringState [.activate] runningState :=
    .activate (by decide +kernel) (Outcome.eq_ok _ () enteringState.sys rfl)
  exact (Run.single hcreate).snoc hactivate

/-- It has stored to its page at `0x400000`. -/
def storedState : State := { runningState with
  sys := (userStore 0x80021000 0x400000 65 runningState.sys).stateD runningState.sys }

theorem storedState_step : Step runningState [.user (.store 0x400000 65)] storedState :=
  .user (by decide +kernel)
    (.inl ⟨(), Outcome.eq_ok _ () runningState.sys (by decide +kernel)⟩)

/-- The state with other contents of memory. -/
def State.withMem (s : State) (mem : ℕ → ℕ) : State :=
  { s with sys := { s.sys with kern := { s.sys.kern with mem := mem } } }

/-- Contents that agree on the frames in use do not show. -/
theorem Inv.withMem (h : Inv base s) {mem : ℕ → ℕ}
    (hmem : ∀ x, s.sys.kern.vm.TakenAt x → mem x = s.sys.kern.mem x) :
    Inv base (s.withMem mem) ∧ (s.withMem mem).view = s.view := by
  obtain ⟨g, hk⟩ := id h.user.inv
  -- the free lists of the heap and the frames of the address spaces lie in frames in use
  have hinv : AsInv base (s.withMem mem).sys s.spaces (s.copies ++ s.blocks) := by
    refine ⟨g, { hk with heap := hk.heap.setMem fun pr hpr a ha => hmem a ?_ }⟩
    have hra := (hk.heap.page pr hpr).mem_range ha
    refine hk.pages.takenAt (b := ⟨s.sys.kern.heap.prPageaddr pr, 1⟩)
      (List.mem_append_left _ (List.mem_map_of_mem hpr)) hra.1 ?_
    simp only [Nat.mul_one]
    exact hra.2
  have hshows : Shows s.spaces [] s.sys s.sys.pages (s.withMem mem).sys := by
    refine ⟨fun as _ i j frame hf => hf, fun as _ => rfl, fun as has => ?_,
      fun _ hb => absurd hb List.not_mem_nil⟩
    funext i j
    have hframe : (s.withMem mem).sys.frame? as i j = s.sys.frame? as i j := rfl
    rw [VmSys.pages, VmSys.pages, hframe]
    cases hf : s.sys.frame? as i j with
    | none => rfl
    | some frame =>
      refine congrArg some (clip_congr fun x hx => hmem _ ?_)
      have hrun := List.mem_append_right (g.runs s.sys.kern.heap) (List.mem_append_right
        (bigRuns (s.spaces.flatMap (asBlocks s.sys) ++ (s.copies ++ s.blocks)))
        ((frame?_eq_some has).mp hf).mem)
      refine hk.pages.takenAt hrun (Nat.le_add_right _ _) ?_
      simp only [Nat.mul_one]
      omega
  exact h.quiet (List.Subset.refl _)
    (h.user.of_tables (List.Subset.refl _) hinv rfl rfl) rfl hshows

/-- **No residual data.** Two runs of the same operations, one from a state that boot can lead to
and one from the same state with other contents in the frames that are not in use, show every
process the same pages. -/
theorem no_residual_data {s₀ s t t' : State} (h0 : Booted s₀) {cs₀ cs : List Cmd}
    (hreach : Run Step s₀ cs₀ s) {mem : ℕ → ℕ}
    (hmem : ∀ x, s.sys.kern.vm.TakenAt x → mem x = s.sys.kern.mem x)
    (hrun : Run Step s cs t) (hrun' : Run Step (s.withMem mem) cs t') (p : ℕ) :
    t.proc p = t'.proc p := by
  obtain ⟨base, hinv⟩ := h0.inv
  have h := (Run.view hinv hreach).1
  obtain ⟨h', hview⟩ := h.withMem hmem
  have hsame : t.view = t'.view := by
    rw [(Run.view h hrun).2, (Run.view h' hrun').2, hview]
  exact congrFun (congrArg View.proc hsame) p

/-- Memory with a word of the free frame at `0x26000` changed. -/
def dirtyMem : ℕ → ℕ := Function.update runningState.sys.kern.mem 0x80026008 7

/-- The store to the same page over the changed memory. -/
def dirtyStoredState : State := { runningState.withMem dirtyMem with
  sys := (userStore 0x80021000 0x400000 65 (runningState.withMem dirtyMem).sys).stateD
    (runningState.withMem dirtyMem).sys }

/-- The first page of a program is the same whatever its frame held before. -/
theorem no_residual_data_storedState :
    dirtyMem 0x80026008 ≠ runningState.sys.kern.mem 0x80026008 ∧
      storedState.sys.frame? 0x80021000 1 0 = some 0x26000 ∧
      storedState.proc 0 = dirtyStoredState.proc 0 := by
  have hfree : ∀ e ∈ runningState.sys.kern.vm.coremap, e.taken = true →
      ¬ (e.phyaddr + 0x80000000 ≤ 0x80026008 ∧ 0x80026008 < e.phyaddr + 0x80000000 + 4096) := by
    decide +kernel
  have hmem : ∀ x, runningState.sys.kern.vm.TakenAt x →
      dirtyMem x = runningState.sys.kern.mem x := by
    rintro x ⟨e, he, htaken, hlo, hhi⟩
    refine Function.update_of_ne ?_ _ _
    rintro rfl
    rw [kseg0_eq] at hlo hhi
    exact hfree e he htaken ⟨hlo, hhi⟩
  have hstep : Step (runningState.withMem dirtyMem) [.user (.store 0x400000 65)] dirtyStoredState :=
    .user (show runningState.thr runningState.cur = .running 0x80021000 by decide +kernel)
      (.inl ⟨(), Outcome.eq_ok _ () _ (by decide +kernel)⟩)
  exact ⟨by decide +kernel, by decide +kernel, no_residual_data bootState_booted runningState_run hmem
    (Run.single storedState_step) (Run.single hstep) 0⟩

end Os161.Procs
