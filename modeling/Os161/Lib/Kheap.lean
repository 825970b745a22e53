import Os161.Common.Chain
import Os161.Vm.Coremap

/-!
# The kernel heap

Model of `kern/lib/kheap.c`: `kmalloc`, `kfree` and the subpage allocator under them. The array
`pagerefs` of page records is kept field by field, a pointer to a record is its index, and the two
lists a record is on are threaded through `nextSamesize` and `nextAll`. The free list of a page runs
through the free blocks themselves, so the state has the words of memory the heap reads and writes.
A block starts inside its page and its page ends below `2 ^ 32`, so the sum of a page address and an
offset into the page is not reduced.
-/

namespace Os161

open Prog

/-! ## Constants -/

/-- `sizes`: the block sizes of the subpage allocator. -/
def sizes : List ℕ := [16, 32, 64, 128, 256, 512, 1024, 2048]

/-- `NSIZES`. -/
def nsizes : ℕ := 8

/-- `sizes[blktype]`. -/
def blockSize (blktype : ℕ) : ℕ := sizes.getD blktype 0

/-- `LARGEST_SUBPAGE_SIZE`. -/
def largestSubpageSize : ℕ := 2048

/-- `NPAGEREFS`: as many 16-byte records as fit in a page. -/
def npagerefs : ℕ := 256

/-- `INUSE_WORDS`. -/
def inuseWords : ℕ := 8

/-- `INVALID_OFFSET`: the `freelist_offset` of a page without free blocks. -/
def invalidOffset : ℕ := 0xffff

/-- The value `fill_deadbeef` writes. -/
def deadbeef : ℕ := 0xdeadbeef

/-! ## State -/

/-- The tables of the subpage allocator. The first five components are the fields of
`struct pageref`, by index into `pagerefs`. -/
structure Kheap where
  nextSamesize : ℕ → Option ℕ
  nextAll : ℕ → Option ℕ
  pageaddrAndBlocktype : ℕ → ℕ
  freelistOffset : ℕ → ℕ
  nfree : ℕ → ℕ
  pagerefsInuse : ℕ → BitVec 32
  sizebases : ℕ → Option ℕ
  allbase : Option ℕ

/-- `PR_PAGEADDR`. -/
def Kheap.prPageaddr (h : Kheap) (pr : ℕ) : ℕ := pageFrame (h.pageaddrAndBlocktype pr)

/-- `PR_BLOCKTYPE`. -/
def Kheap.prBlocktype (h : Kheap) (pr : ℕ) : ℕ := h.pageaddrAndBlocktype pr % pageSize

/-- `MKPAB`. The two parts share no bit, so the sum is the bitwise or. -/
def mkpab (pa blk : ℕ) : ℕ := pageFrame pa + blk % pageSize

/-- Kernel memory: the page allocator, the tables of the heap and the words of memory by address. -/
structure Kern where
  vm : Vm
  heap : Kheap
  mem : ℕ → ℕ

/-- Programs over kernel memory. -/
abbrev KernM := Prog Errno Kern

/-- A call of the page allocator. -/
def onVm {α : Type} (m : VmM α) : KernM α := zoom Kern.vm (fun k vm => { k with vm := vm }) m

/-- Change the tables of the heap. -/
def modifyHeap (f : Kheap → Kheap) : KernM Unit := modify fun k => { k with heap := f k.heap }

/-- Store the word `v` at the address `a`. -/
def store (a v : ℕ) : KernM Unit := modify fun k => { k with mem := Function.update k.mem a v }

/-! ## Page records -/

/-- The inner loop of `allocpageref` from bit `j` on: the first clear bit of the word. -/
def clearBit (w : BitVec 32) : (n j : ℕ) → Option ℕ
  | 0, _ => none
  | n + 1, j => if w.getLsbD j = false then some j else clearBit w n (j + 1)

/-- The outer loop of `allocpageref` from word `i` on. -/
def allocpagerefFrom : (n i : ℕ) → KernM (Option ℕ)
  | 0, _ => return none
  | n + 1, i => do
    let k ← get
    let w := k.heap.pagerefsInuse i
    if w = BitVec.allOnes 32 then
      allocpagerefFrom n (i + 1)
    else
      match clearBit w 32 0 with
      | none => halt "Assertion failed: 0"
      | some j =>
        modifyHeap fun h => { h with
          pagerefsInuse := Function.update h.pagerefsInuse i (w ||| BitVec.twoPow 32 j) }
        return some (i * 32 + j)

/-- `allocpageref`. -/
def allocpageref : KernM (Option ℕ) := allocpagerefFrom inuseWords 0

/-- `freepageref`. -/
def freepageref (p : ℕ) : KernM Unit := do
  let k ← get
  let w := k.heap.pagerefsInuse (p / 32)
  require (p < npagerefs) "Assertion failed: j < NPAGEREFS"
  require (w &&& BitVec.twoPow 32 (p % 32) ≠ 0) "Assertion failed: (pagerefs_inuse[i] & k) != 0"
  modifyHeap fun h => { h with
    pagerefsInuse := Function.update h.pagerefsInuse (p / 32) (w &&& ~~~ BitVec.twoPow 32 (p % 32)) }

/-- The search loops over a list of page records: every record visited must pass the assertion
`check`, and the loop leaves at the first one that passes `hit`. There are `NPAGEREFS` records, so a
search that takes more passes than that does not end. -/
def findPageref (next : Kheap → ℕ → Option ℕ) (check hit : Kheap → ℕ → Bool) (msg : String) :
    (fuel : ℕ) → Option ℕ → KernM (Option ℕ)
  | _, none => return none
  | 0, some _ => halt "kheap: pageref list does not end"
  | n + 1, some pr => do
    let k ← get
    require (check k.heap pr = true) msg
    if hit k.heap pr = true then
      return some pr
    else
      findPageref next check hit msg n (next k.heap pr)

/-- `remove_lists`. -/
def removeLists (pr blktype : ℕ) : KernM Unit := do
  require (blktype < nsizes) "Assertion failed: blktype>=0 && blktype<NSIZES"
  modifyHeap fun h =>
    let samesize := Chain.unlink h.nextSamesize pr npagerefs (h.sizebases blktype)
    let all := Chain.unlink h.nextAll pr npagerefs h.allbase
    { h with
      sizebases := Function.update h.sizebases blktype samesize.1
      nextSamesize := samesize.2
      allbase := all.1
      nextAll := all.2 }

/-! ## Allocation -/

/-- The loop of `blocktype`: the first size that is large enough. -/
def sizeClass (sz : ℕ) : Option ℕ := sizes.findIdx? (sz ≤ ·)

/-- `blocktype`. -/
def blocktype (sz : ℕ) : KernM ℕ :=
  match sizeClass sz with
  | some i => return i
  | none => halt "Subpage allocator cannot handle allocation of size"

/-- The code of `subpage_kmalloc` from the label `doalloc` on: take the first block of the free
list of `pr`. -/
def doalloc (pr spl : ℕ) : KernM ℕ := do
  let k ← get
  require (k.heap.freelistOffset pr < pageSize) "Assertion failed: pr->freelist_offset < PAGE_SIZE"
  let prpage := k.heap.prPageaddr pr
  let retptr := prpage + k.heap.freelistOffset pr
  let fl := k.mem retptr
  let nfree := k.heap.nfree pr - 1
  modifyHeap fun h => { h with nfree := Function.update h.nfree pr nfree }
  if fl ≠ 0 then
    require (nfree > 0) "Assertion failed: pr->nfree > 0"
    require (u32 (fl - prpage) < pageSize) "Assertion failed: fla - prpage < PAGE_SIZE"
    modifyHeap fun h => { h with
      freelistOffset := Function.update h.freelistOffset pr (u32 (fl - prpage)) }
  else
    require (nfree = 0) "Assertion failed: pr->nfree == 0"
    modifyHeap fun h => { h with
      freelistOffset := Function.update h.freelistOffset pr invalidOffset }
  let _ ← onVm (splx spl)
  return retptr

/-- The loop of `subpage_kmalloc` that threads the free list of a fresh page: every block points to
the one before it. -/
def threadFreelist (prpage size nfree : ℕ) : KernM Unit := do
  store prpage 0
  forRange (fun i => do
    store (prpage + i * size) (prpage + (i - 1) * size)
    require (prpage + i * size ≠ prpage + (i - 1) * size) "Assertion failed: fl != fl->next")
    (nfree - 1) 1

/-- The part of `subpage_kmalloc` that fills in the record of a fresh page and puts it on both
lists. The free list starts at the last block threaded. -/
def addPage (pr prpage blktype : ℕ) : KernM Unit := do
  let nfree := pageSize / blockSize blktype
  modifyHeap fun h => { h with
    pageaddrAndBlocktype := Function.update h.pageaddrAndBlocktype pr (mkpab prpage blktype)
    nfree := Function.update h.nfree pr nfree }
  threadFreelist prpage (blockSize blktype) nfree
  modifyHeap fun h => { h with
    freelistOffset := Function.update h.freelistOffset pr ((nfree - 1) * blockSize blktype)
    nextSamesize := Function.update h.nextSamesize pr (h.sizebases blktype)
    sizebases := Function.update h.sizebases blktype (some pr)
    nextAll := Function.update h.nextAll pr h.allbase
    allbase := some pr }

/-- The part of `subpage_kmalloc` that gets a page for the new record `pr` and allocates from it. -/
def freshPage (blktype pr spl : ℕ) : KernM ℕ := do
  let prpage ← onVm (allocKpages 1)
  if prpage = 0 then
    freepageref pr
    let _ ← onVm (splx spl)
    return 0
  else
    addPage pr prpage blktype
    doalloc pr spl

/-- `subpage_kmalloc`. -/
def subpageKmalloc (sz : ℕ) : KernM ℕ := do
  let blktype ← blocktype sz
  let spl ← onVm splhigh
  let k ← get
  match ← findPageref Kheap.nextSamesize (fun h pr => h.prBlocktype pr = blktype)
      (fun h pr => h.nfree pr > 0) "Assertion failed: PR_BLOCKTYPE(pr) == blktype"
      npagerefs (k.heap.sizebases blktype) with
  | some pr => doalloc pr spl
  | none =>
    match ← allocpageref with
    | none =>
      let _ ← onVm (splx spl)
      return 0
    | some pr => freshPage blktype pr spl

/-- `kmalloc`. -/
def kmalloc (sz : ℕ) : KernM ℕ := do
  if sz ≥ largestSubpageSize then
    let npages := u32 (sz + pageSize - 1) / pageSize
    onVm (allocKpages npages)
  else
    subpageKmalloc sz

/-! ## Release -/

/-- `fill_deadbeef`. -/
def fillDeadbeef (ptr len : ℕ) : KernM Unit :=
  forRange (fun i => store (ptr + 4 * i) deadbeef) (len / 4) 0

/-- The part of `subpage_kfree` that puts the block at `offset` of the page of `pr` on the free
list. -/
def pushFree (pr offset : ℕ) : KernM Unit := do
  let k ← get
  let prpage := k.heap.prPageaddr pr
  if k.heap.freelistOffset pr = invalidOffset then
    store (prpage + offset) 0
  else
    store (prpage + offset) (prpage + k.heap.freelistOffset pr)
  modifyHeap fun h => { h with
    freelistOffset := Function.update h.freelistOffset pr offset
    nfree := Function.update h.nfree pr (h.nfree pr + 1) }

/-- The part of `subpage_kfree` that gives back a page whose blocks are all free. -/
def releasePage (pr prpage blktype : ℕ) : KernM Unit := do
  removeLists pr blktype
  onVm (freeKpages prpage)
  freepageref pr

/-- The part of `subpage_kfree` that runs once `pr` is known to be the page of the block. -/
def freeBlock (pr ptr : ℕ) : KernM Unit := do
  let k ← get
  let prpage := k.heap.prPageaddr pr
  let blktype := k.heap.prBlocktype pr
  let offset := ptr - prpage
  require (¬ (offset ≥ pageSize ∨ offset % blockSize blktype ≠ 0))
    "kfree: subpage free of invalid addr"
  fillDeadbeef ptr (blockSize blktype)
  pushFree pr offset
  let nfree ← gets (·.heap.nfree pr)
  require (nfree ≤ pageSize / blockSize blktype)
    "Assertion failed: pr->nfree <= PAGE_SIZE / sizes[blktype]"
  if nfree = pageSize / blockSize blktype then
    releasePage pr prpage blktype

/-- The search of `subpage_kfree` for the page that holds `ptr`. -/
def findPageOf (ptr : ℕ) : KernM (Option ℕ) := do
  let k ← get
  findPageref Kheap.nextAll (fun h pr => h.prBlocktype pr < nsizes)
    (fun h pr => ptr ≥ h.prPageaddr pr ∧ ptr < u32 (h.prPageaddr pr + pageSize))
    "Assertion failed: blktype>=0 && blktype<NSIZES" npagerefs k.heap.allbase

/-- `subpage_kfree`: `-1` when the address is on none of the pages of the subpage allocator. -/
def subpageKfree (ptr : ℕ) : KernM ℤ := do
  let spl ← onVm splhigh
  match ← findPageOf ptr with
  | none =>
    let _ ← onVm (splx spl)
    return -1
  | some pr =>
    freeBlock pr ptr
    let _ ← onVm (splx spl)
    return 0

/-- `kfree`. -/
def kfree (ptr : ℕ) : KernM Unit := do
  if ptr = 0 then
    return
  let r ← subpageKfree ptr
  if r ≠ 0 then
    require (ptr % pageSize = 0) "Assertion failed: (vaddr_t)ptr%PAGE_SIZE==0"
    onVm (freeKpages ptr)

end Os161
