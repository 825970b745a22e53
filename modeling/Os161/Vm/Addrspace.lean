import Os161.Lib.Kheap

/-!
# Address spaces

Model of the address-space half of `kern/vm/vm.c`: demand paging (`vm_fault`), copying (`as_copy`)
and teardown (`as_destroy`, `freepagetable`). An address space and its second-level page tables are
kernel allocations; the state holds their contents by address, so two pointers may well be equal and
a freed table keeps its contents until it is handed out again. The words of the frames that back
user pages are in the memory of `Kern`.

The kernel runs in the unmapped segment. A store through a pointer below it (what the code does
when an allocation has failed) faults on an address that `vm_fault` refuses, and stops the machine.
-/

namespace Os161

open Prog

/-! ## Data -/

/-- `struct pageentry`. The fields `readable` and `writtable` are never read. -/
structure Pageentry where
  phyaddr : ℕ
  valid : ℤ
deriving DecidableEq

/-- `struct pagetable2`: 1024 entries. -/
structure Pagetable2 where
  pageentry : ℕ → Pageentry

/-- `struct addrspace`, with the 512 pointers of its `struct pagetable1`. -/
structure Addrspace where
  asVbase1 : ℕ
  asVbase2 : ℕ
  asStackpbase : ℕ
  pagetable2 : ℕ → ℕ

/-- `sizeof(struct addrspace)`. -/
def addrspaceSize : ℕ := 2060

/-- `sizeof(struct pagetable2)`. -/
def pagetable2Size : ℕ := 16384

/-- `NUM_TLB`. -/
def numTlb : ℕ := 64

/-- `TLBLO_DIRTY`. -/
def tlbloDirty : ℕ := 0x400

/-- `TLBLO_VALID`. -/
def tlbloValid : ℕ := 0x200

/-- `VM_FAULT_READ`. -/
def vmFaultRead : ℤ := 0

/-- `VM_FAULT_WRITE`. -/
def vmFaultWrite : ℤ := 1

/-- `VM_FAULT_READONLY`. -/
def vmFaultReadonly : ℤ := 2

/-- Kernel memory, the address spaces and second-level tables in it, and the entries
`(ehi, elo)` of the TLB. -/
structure VmSys where
  kern : Kern
  spaces : ℕ → Addrspace
  tables : ℕ → Pagetable2
  tlb : ℕ → ℕ × ℕ

/-- Programs over address spaces. -/
abbrev AsM := Prog Errno VmSys

/-- A call of the heap. -/
def onKern {α : Type} (m : KernM α) : AsM α :=
  zoom VmSys.kern (fun s k => { s with kern := k }) m

/-- Write the pointer `p` to slot `i` of the first-level table of `as`. -/
def setTable (as i p : ℕ) : AsM Unit := modify fun s => { s with
  spaces := Function.update s.spaces as { s.spaces as with
    pagetable2 := Function.update (s.spaces as).pagetable2 i p } }

/-- Write entry `j` of the second-level table at `p`. -/
def setEntry (p j : ℕ) (e : Pageentry) : AsM Unit := modify fun s => { s with
  tables := Function.update s.tables p ⟨Function.update (s.tables p).pageentry j e⟩ }

/-- `bzero` of a second-level table. -/
def bzeroTable (p : ℕ) : AsM Unit := do
  require (p ≥ kseg0) "Fatal exception: store to a user address in kernel mode"
  modify fun s => { s with tables := Function.update s.tables p ⟨fun _ => ⟨0, 0⟩⟩ }

/-- `bzero` of the page at the kernel address `dst`. -/
def bzeroPage (dst : ℕ) : AsM Unit := do
  require (dst ≥ kseg0) "Fatal exception: store to a user address in kernel mode"
  onKern (modify fun k => { k with
    mem := fun x => if dst ≤ x ∧ x < dst + pageSize then 0 else k.mem x })

/-- `memmove` of the page at `src` to the page at `dst`. -/
def memmovePage (dst src : ℕ) : AsM Unit := do
  require (dst ≥ kseg0) "Fatal exception: store to a user address in kernel mode"
  onKern (modify fun k => { k with
    mem := fun x => if dst ≤ x ∧ x < dst + pageSize then k.mem (src + (x - dst)) else k.mem x })

/-! ## Creation and the small operations -/

/-- `as_create`: the new address space, or the null pointer. -/
def asCreate : AsM ℕ := do
  let as ← onKern (kmalloc addrspaceSize)
  if as = 0 then
    return 0
  else
    modify fun s => { s with spaces := Function.update s.spaces as ⟨0, 0, 0, fun _ => 0⟩ }
    return as

/-- `as_define_region`. -/
def asDefineRegion (as vaddr : ℕ) : AsM Unit := do
  let s ← get
  if (s.spaces as).asVbase1 = 0 then
    modify fun s => { s with
      spaces := Function.update s.spaces as { s.spaces as with asVbase1 := vaddr } }
  else if (s.spaces as).asVbase2 = 0 then
    modify fun s => { s with
      spaces := Function.update s.spaces as { s.spaces as with asVbase2 := vaddr } }
  else
    fail .EUNIMP

/-- `as_prepare_load`. -/
def asPrepareLoad (as : ℕ) : AsM Unit := do
  let s ← get
  require ((s.spaces as).asStackpbase = 0) "Assertion failed: as->as_stackpbase == 0"

/-- `as_activate`: every TLB entry becomes `TLBHI_INVALID(i)`, `TLBLO_INVALID()`. -/
def asActivate : AsM Unit := do
  let spl ← onKern (onVm splhigh)
  modify fun s => { s with
    tlb := fun i => if i < numTlb then ((0x80000 + i) * 4096, 0) else s.tlb i }
  let _ ← onKern (onVm (splx spl))

/-! ## Demand paging -/

/-- A new, empty second-level table in slot `i` of `as`: the same code in `vm_fault` and
`as_copy`. -/
def newTable (as i : ℕ) : AsM Unit := do
  let p ← onKern (kmalloc pagetable2Size)
  setTable as i p
  bzeroTable p

/-- Fill entry `j` of the table at `p` with a fresh frame, up to the point where its contents are
written: the same code in `vm_fault` and `as_copy`. The address that `alloc_kpages` returns is
compared with an error code, so a failed allocation is not noticed here. -/
def allocEntry (p j : ℕ) : AsM ℕ := do
  let a ← onKern (onVm (allocKpages 1))
  let s ← get
  setEntry p j { (s.tables p).pageentry j with phyaddr := a }
  if a = Errno.ENOMEM.code then
    fail .ENOMEM
  let phyaddr := u32 (a - 0x80000000)
  require (u32 (s.kern.vm.coremapPtr - 0x80000000) < phyaddr)
    "Assertion failed: coremap-0x80000000 < phyaddr"
  setEntry p j { (s.tables p).pageentry j with phyaddr := phyaddr, valid := 1 }
  return phyaddr

/-- The part of `vm_fault` that makes the second-level table of slot `i` if there is none. -/
def ensureTable (as i : ℕ) : AsM Unit := do
  let s ← get
  if (s.spaces as).pagetable2 i = 0 then
    newTable as i

/-- The part of `vm_fault` that gives entry `j` of the table at `p` a zeroed frame if it has
none. -/
def ensurePage (p j : ℕ) : AsM Unit := do
  let s ← get
  if ((s.tables p).pageentry j).valid = 0 then
    let phyaddr ← allocEntry p j
    bzeroPage (paddrToKvaddr phyaddr)

/-- The loop of `vm_fault` over the TLB from slot `i` on: fill the first slot that is not valid. -/
def tlbFill (ehi elo : ℕ) : (n i : ℕ) → AsM Bool
  | 0, _ => return false
  | n + 1, i => do
    let s ← get
    if (s.tlb i).2 &&& tlbloValid ≠ 0 then
      tlbFill ehi elo n (i + 1)
    else
      modify fun s => { s with tlb := Function.update s.tlb i (ehi, elo) }
      return true

/-- The end of `vm_fault`: enter the frame of entry `j` of the table at `p` in the TLB. -/
def enterTlb (p j faultaddress spl : ℕ) : AsM Unit := do
  let s ← get
  let paddr := ((s.tables p).pageentry j).phyaddr
  require (pageFrame paddr = paddr) "Assertion failed: (paddr & PAGE_FRAME)==paddr"
  let filled ← tlbFill faultaddress (paddr ||| tlbloDirty ||| tlbloValid) numTlb 0
  let _ ← onKern (onVm (splx spl))
  if filled = false then
    fail .EFAULT

/-- The part of `vm_fault` that finds or makes the page of the address in the address space and
enters it in the TLB. The first-level table has 512 slots. -/
def mapPage (as faultaddress spl : ℕ) : AsM Unit := do
  let index1 := faultaddress / 2 ^ 22
  let index2 := faultaddress / 2 ^ 12 % 2 ^ 10
  require (index1 < 512) "vm_fault: access past pagetable2"
  ensureTable as index1
  let p ← gets fun s => (s.spaces as).pagetable2 index1
  ensurePage p index2
  enterTlb p index2 faultaddress spl

/-- `vm_fault`, with `as` for `curthread->t_vmspace`. A fault without an address space returns
without restoring the interrupt level. -/
def vmFault (as : ℕ) (faulttype : ℤ) (faultaddress : ℕ) : AsM Unit := do
  if faultaddress > 0x80000000 ∨ faultaddress = 0 ∨ faultaddress % 4 ≠ 0 then
    fail .EFAULT
  else
    let spl ← onKern (onVm splhigh)
    if faulttype = vmFaultReadonly then
      halt "dumbvm: got VM_FAULT_READONLY"
    else if faulttype = vmFaultRead ∨ faulttype = vmFaultWrite then
      if as = 0 then
        fail .EFAULT
      else
        mapPage as (pageFrame faultaddress) spl
    else
      let _ ← onKern (onVm (splx spl))
      fail .EINVAL

/-! ## Copying -/

/-- The inner loop body of `as_copy`: entry `j` of the tables with index `i`. -/
def copyEntry (old new i j : ℕ) : AsM Unit := do
  let s ← get
  let e := (s.tables ((s.spaces old).pagetable2 i)).pageentry j
  if e.valid = 1 then
    let phyaddr ← allocEntry ((s.spaces new).pagetable2 i) j
    require (u32 (s.kern.vm.coremapPtr - 0x80000000) < e.phyaddr)
      "Assertion failed: coremap-0x80000000 < old phyaddr"
    memmovePage (paddrToKvaddr phyaddr) (paddrToKvaddr e.phyaddr)

/-- The outer loop body of `as_copy`. -/
def copyTable (old new i : ℕ) : AsM Unit := do
  let s ← get
  if (s.spaces old).pagetable2 i ≠ 0 then
    newTable new i
    forRange (copyEntry old new i) 1024 0

/-- `as_copy`. -/
def asCopy (old : ℕ) : AsM ℕ := do
  let new ← asCreate
  if new = 0 then
    fail .ENOMEM
  else
    modify fun s => { s with
      spaces := Function.update s.spaces new { s.spaces new with
        asVbase1 := (s.spaces old).asVbase1
        asVbase2 := (s.spaces old).asVbase2
        asStackpbase := (s.spaces old).asStackpbase } }
    asPrepareLoad new
    forRange (copyTable old new) 512 0
    return new

/-! ## Teardown -/

/-- The inner loop body of `freepagetable`: entry `j` of the table at `p`. -/
def freeFrame (p j : ℕ) : AsM Unit := do
  let s ← get
  let e := (s.tables p).pageentry j
  if e.valid ≠ 0 then
    onKern (onVm (freeKpages (paddrToKvaddr e.phyaddr)))

/-- The outer loop body of `freepagetable`. -/
def freeTable (pagetable2 : ℕ → ℕ) (i : ℕ) : AsM Unit := do
  if pagetable2 i ≠ 0 then
    forRange (freeFrame (pagetable2 i)) 1024 0
    onKern (kfree (pagetable2 i))

/-- `freepagetable`. Its argument is a copy of the first-level table, so the null pointers it writes
are lost. -/
def freepagetable (pagetable2 : ℕ → ℕ) : AsM Unit := forRange (freeTable pagetable2) 512 0

/-- `as_destroy`. -/
def asDestroy (as : ℕ) : AsM Unit := do
  let s ← get
  freepagetable (s.spaces as).pagetable2
  onKern (kfree as)

end Os161
