import Os161.Machine.Basic

/-!
# The coremap: physical page allocation

Model of the page allocator of `kern/vm/vm.c` (`vm_bootstrap`, `getppages`, `alloc_kpages`,
`free_kpages`) and of the boot-time memory of `kern/arch/mips/mips/ram.c` it starts from. The
coremap array is a list with one entry per managed frame; a pointer into it is an index. Reading or
writing past its end, which the C code would do silently, stops the model.
-/

namespace Os161

open Prog

/-- `struct coremap_entry` (`kern/include/coremap.h`). -/
structure CoremapEntry where
  pid : ℤ
  viraddr : ℕ
  phyaddr : ℕ
  taken : Bool
  npage : ℕ
deriving DecidableEq, Inhabited

/-- `sizeof(struct coremap_entry)`: five words. -/
def coremapEntrySize : ℕ := 20

/-- The globals the page allocator works on. -/
structure Vm where
  /-- The interrupt level. -/
  curspl : ℕ
  /-- `curthread->pid`. -/
  curpid : ℤ
  /-- `vm_indicator`: whether `vm_bootstrap` has run. -/
  vmIndicator : Bool
  /-- First free physical page (`ram.c`). -/
  firstpaddr : ℕ
  /-- One past the last free physical page (`ram.c`). -/
  lastpaddr : ℕ
  /-- The kernel address of the coremap array. -/
  coremapPtr : ℕ
  /-- The coremap array, `pagenumber` entries long. -/
  coremap : List CoremapEntry
  pageleft : ℕ

/-- Programs of the page allocator. -/
abbrev VmM := Prog Errno Vm

/-! ## Interrupt level -/

/-- `splx`. -/
def splx (newspl : ℕ) : VmM ℕ := do
  let oldspl ← gets Vm.curspl
  modify fun vm => { vm with curspl := newspl }
  return oldspl

/-- `splhigh`. -/
def splhigh : VmM ℕ := splx splHigh

/-! ## Boot-time memory (`ram.c`) -/

/-- `ram_stealmem`. -/
def ramStealmem (npages : ℕ) : VmM ℕ := do
  let vm ← get
  let size := u32 (npages * pageSize)
  if u32 (vm.firstpaddr + size) > vm.lastpaddr then
    return 0
  modify fun vm => { vm with firstpaddr := u32 (vm.firstpaddr + size) }
  return vm.firstpaddr

/-- The managed frames of a RAM range: `pagenumber` as `vm_bootstrap` computes it. -/
def pagenumber (lowest highest : ℕ) : ℕ :=
  u32 ((u32 (highest - lowest) / pageSize : ℕ) - 1)

/-- `toppage_ptr` as `vm_bootstrap` leaves it: the first frame above the coremap array. -/
def toppagePtr (lowest highest : ℕ) : ℕ :=
  let top := u32 (lowest + pagenumber lowest highest * coremapEntrySize)
  let top := u32 (top + coremapEntrySize)
  u32 (pageFrame top + 0x1000)

/-- `vm_bootstrap`. The array is laid over memory that is not cleared first: `old i` is what the
`i`-th entry holds before, and `pid` and `npage` keep it. -/
def vmBootstrap (old : ℕ → CoremapEntry) : VmM Unit :=
  modify fun vm =>
    let lowest := vm.firstpaddr
    let highest := vm.lastpaddr
    let n := pagenumber lowest highest
    { vm with
      firstpaddr := 0
      lastpaddr := 0
      coremapPtr := paddrToKvaddr lowest
      coremap := (List.range n).map fun i =>
        { old i with
          taken := false
          viraddr := 0
          phyaddr := u32 (toppagePtr lowest highest + 4096 * i) }
      pageleft := n
      vmIndicator := true }

/-! ## Allocation -/

/-- The scan of `getppages` from entry `i` on, with `count` free entries just before it: the index
of the entry at which `npages` consecutive free ones have been seen. -/
def findRun (npages : ℕ) : List CoremapEntry → (i count : ℕ) → Option ℕ
  | [], _, _ => none
  | e :: es, i, count =>
    if e.taken = false then
      if count + 1 = npages then some i else findRun npages es (i + 1) (count + 1)
    else
      findRun npages es (i + 1) 0

/-- The marking loop of `getppages`, from pass `j` on: it walks `ptr` backwards, one entry per pass
after the first, and hands back where it ends. -/
def markRun : (passes j ptr : ℕ) → List CoremapEntry → ℕ × List CoremapEntry
  | 0, _, ptr, cm => (ptr, cm)
  | n + 1, j, ptr, cm =>
    let ptr := if 0 < j then ptr - 1 else ptr
    markRun n (j + 1) ptr (cm.modify ptr fun e => { e with taken := true })

/-- `getppages`. The request that exceeds `pageleft` returns without restoring the interrupt
level. -/
def getppages (npages : ℕ) : VmM ℕ := do
  let interrupt ← splhigh
  let vm ← get
  if vm.vmIndicator = false then
    let phyaddr ← ramStealmem npages
    let _ ← splx interrupt
    return phyaddr
  if npages > vm.pageleft then
    return 0
  match findRun npages vm.coremap 0 0 with
  | none =>
    let _ ← splx interrupt
    return 0
  | some i =>
    let (ptr, cm) := markRun npages 0 i vm.coremap
    let phyaddr := (cm.getD ptr default).phyaddr
    modify fun vm => { vm with
      coremap := cm.modify ptr fun e => { e with pid := vm.curpid, npage := npages }
      pageleft := u32 (vm.pageleft - npages) }
    require (phyaddr > u32 (vm.coremapPtr - kseg0))
      "Assertion failed: phyaddr>(((unsigned int)coremap-(unsigned int)0x80000000))"
    let _ ← splx interrupt
    return phyaddr

/-- `alloc_kpages`. -/
def allocKpages (npages : ℤ) : VmM ℕ := do
  let paddr ← getppages (u32 npages)
  if paddr = 0 then
    return 0
  return paddrToKvaddr paddr

/-- The page allocator after a request for `npages` pages, if they are available. -/
def Vm.grant (vm : Vm) (npages : ℤ) : Option Vm :=
  match allocKpages npages vm with
  | .ok a vm' => if a = 0 then none else some vm'
  | _ => none

/-- The page allocator after requests made one after another, if all of them are granted. -/
def Vm.grants (vm : Vm) (needs : List ℤ) : Option Vm := needs.foldlM Vm.grant vm

/-! ## Release -/

/-- The search of `free_kpages`: the first entry whose frame has the kernel address `addr`. -/
def findEntry (cm : List CoremapEntry) (addr : ℕ) : Option ℕ :=
  cm.findIdx? fun e => paddrToKvaddr e.phyaddr = addr

/-- One pass of the freeing loop of `free_kpages`, on entry `ptr`. -/
def freeEntry (ptr : ℕ) : VmM Unit := do
  let vm ← get
  require (ptr < vm.coremap.length) "free_kpages: write past the coremap"
  modify fun vm => { vm with
    coremap := vm.coremap.modify ptr fun e => { e with taken := false }
    pageleft := u32 (vm.pageleft + 1) }

/-- `free_kpages`. -/
def freeKpages (addr : ℕ) : VmM Unit := do
  require (addr ≥ kseg0) "Assertion failed: addr >= MIPS_KSEG0"
  let s ← splhigh
  let vm ← get
  match findEntry vm.coremap addr with
  | none => halt "free_kpages: search past the coremap"
  | some ptr =>
    let npages := (vm.coremap.getD ptr default).npage
    forRange (fun i => freeEntry (ptr + i)) npages 0
    let _ ← splx s

end Os161
