import Os161.Machine.Basic

/-!
# The user-level heap

Model of `lib/libc/malloc.c`, the first-fit allocator of user programs. A block of the heap is a
header of two words and the data after it. The header is packed into bit fields, so the state has
the words of user memory by address and the fields are parts of words. The heap lies below `2 ^ 32`,
so the sum of an address in it and an offset is not reduced.

The system call `sbrk` fails or extends the data segment and returns the old break; the state
carries the answers to come. A call of `err` or `errx` ends the program with a message.
-/

namespace Os161.Malloc

open Prog

/-! ## State -/

/-- User memory by words, the two static variables, the break and the answers of `sbrk` to come
(`true` is a failure). -/
structure Uheap where
  mem : ℕ → ℕ
  heapbase : ℕ
  heaptop : ℕ
  brk : ℕ
  nomem : List Bool

/-- Programs over the heap. -/
abbrev HeapM := Prog Errno Uheap

/-- Store the word `v` at the address `a`. -/
def store (a v : ℕ) : HeapM Unit := modify fun s => { s with mem := Function.update s.mem a v }

/-- `sbrk`: `none` is the result `(void *)-1`. The break stays a 32-bit address. -/
def sbrk (amount : ℕ) : HeapM (Option ℕ) := do
  let s ← get
  modify fun s => { s with nomem := s.nomem.tail }
  if s.nomem.headD false = true ∨ s.brk + amount ≥ 4294967296 then
    return none
  else
    modify fun s => { s with brk := s.brk + amount }
    return some s.brk

/-! ## Headers -/

/-- `MBLOCKSIZE`. -/
def mblocksize : ℕ := 8

/-- `MMAGIC`. -/
def mmagic : ℕ := 2

section Fields

variable (mem : ℕ → ℕ) (mh : ℕ)

/-- `mh_prevblock`: the upper 29 bits of the first word. -/
def mhPrevblock : ℕ := mem mh / 8 % 536870912

/-- `mh_magic1`: the lower two bits of the first word. -/
def mhMagic1 : ℕ := mem mh % 4

/-- `mh_nextblock`: the upper 29 bits of the second word. -/
def mhNextblock : ℕ := mem (mh + 4) / 8 % 536870912

/-- `mh_inuse`: the bit below. -/
def mhInuse : ℕ := mem (mh + 4) / 4 % 2

/-- `mh_magic2`: the lower two bits of the second word. -/
def mhMagic2 : ℕ := mem (mh + 4) % 4

/-- `M_NEXTOFF`. -/
def mNextoff : ℕ := mhNextblock mem mh * mblocksize

/-- `M_PREVOFF`. -/
def mPrevoff : ℕ := mhPrevblock mem mh * mblocksize

/-- `M_SIZE`. -/
def mSize : ℕ := u32 (mNextoff mem mh - mblocksize)

/-- `M_OK`. -/
def mOk : Prop := mhMagic1 mem mh = mmagic ∧ mhMagic2 mem mh = mmagic

instance : Decidable (mOk mem mh) := inferInstanceAs (Decidable (_ ∧ _))

end Fields

/-- `M_DATA`. -/
def mData (mh : ℕ) : ℕ := mh + mblocksize

/-- `M_MKFIELD`. -/
def mMkfield (off : ℕ) : ℕ := off / mblocksize

/-- A word with its upper 29 bits replaced. -/
def setUpper (w v : ℕ) : ℕ := v % 536870912 * 8 + w % 8

/-- A word with the bit between the upper and the lower ones replaced. -/
def setMiddle (w v : ℕ) : ℕ := w / 8 * 8 + v % 2 * 4 + w % 4

/-- A word with its lower two bits replaced. -/
def setLower (w v : ℕ) : ℕ := w / 4 * 4 + v % 4

/-- Assignments to a field: `set` puts the value into the word at `a`. -/
def setField (set : ℕ → ℕ → ℕ) (a v : ℕ) : HeapM Unit := do
  let s ← get
  store a (set (s.mem a) v)

/-- `mh->mh_prevblock = v`. -/
def setPrevblock (mh v : ℕ) : HeapM Unit := setField setUpper mh v

/-- `mh->mh_pad = v`. -/
def setPad (mh v : ℕ) : HeapM Unit := setField setMiddle mh v

/-- `mh->mh_magic1 = v`. -/
def setMagic1 (mh v : ℕ) : HeapM Unit := setField setLower mh v

/-- `mh->mh_nextblock = v`. -/
def setNextblock (mh v : ℕ) : HeapM Unit := setField setUpper (mh + 4) v

/-- `mh->mh_inuse = v`. -/
def setInuse (mh v : ℕ) : HeapM Unit := setField setMiddle (mh + 4) v

/-- `mh->mh_magic2 = v`. -/
def setMagic2 (mh v : ℕ) : HeapM Unit := setField setLower (mh + 4) v

/-- Tell the block at `mhnext` how long the block below it is, unless `mhnext` is the top of the
heap. -/
def setPrevAbove (mhnext v : ℕ) : HeapM Unit := do
  let s ← get
  if mhnext ≠ s.heaptop then
    setPrevblock mhnext v

/-! ## Allocation -/

/-- `__malloc_init`. The checks of the sizes of the header hold. -/
def mallocInit : HeapM Unit := do
  let s ← get
  require (¬ (s.heapbase ≠ 0 ∨ s.heaptop ≠ 0)) "malloc: Internal error - bad init call"
  match ← sbrk 0 with
  | none => halt "malloc: initial sbrk failed"
  | some x =>
    require (x ≠ 0) "malloc: Internal error - heap began at 0"
    modify fun s => { s with heapbase := x, heaptop := x }
    if x % mblocksize ≠ 0 then
      let adjust := mblocksize - x % mblocksize
      match ← sbrk adjust with
      | none => halt "malloc: sbrk failed aligning heap base"
      | some y =>
        require (y = x) "malloc: heap base moved during init"
        modify fun s => { s with heapbase := x + adjust, heaptop := x + adjust }

/-- `__malloc_sbrk`: `none` is the null pointer. -/
def mallocSbrk (size : ℕ) : HeapM (Option ℕ) := do
  match ← sbrk size with
  | none => return none
  | some x =>
    let s ← get
    require (x = s.heaptop)
      "malloc: Internal error - heap top moved itself from 0x%lx to 0x%lx"
    modify fun s => { s with heaptop := s.heaptop + size }
    return some x

/-- The assignments of `__malloc_split` to the header of the new free block. -/
def initSplit (mhnew prevblock nextblock : ℕ) : HeapM Unit := do
  setPrevblock mhnew prevblock
  setPad mhnew 0
  setMagic1 mhnew mmagic
  setNextblock mhnew nextblock
  setInuse mhnew 0
  setMagic2 mhnew mmagic

/-- `__malloc_split`. -/
def mallocSplit (mh size : ℕ) : HeapM Unit := do
  require (size % mblocksize = 0) "malloc: Internal error (size %lu passed to split)"
  let s ← get
  if u32 (mSize s.mem mh - size) < 2 * mblocksize then
    return
  let mhnext := mh + mNextoff s.mem mh
  let oldsize := mSize s.mem mh
  setNextblock mh (mMkfield (u32 (size + mblocksize)))
  let s ← get
  let mhnew := mh + mNextoff s.mem mh
  require (mhnew ≠ mhnext) "malloc: Internal error (split screwed up?)"
  initSplit mhnew (mMkfield (u32 (size + mblocksize))) (mMkfield (u32 (oldsize - size)))
  let s ← get
  setPrevAbove mhnext (mhNextblock s.mem mhnew)

/-- The search loop of `malloc`: the first free block that is large enough, or the address where the
loop ended and the value of `rightprevblock`. Every pass moves up by a block, so a search with more
passes than the heap has bytes does not end. -/
def findFit (size : ℕ) : (fuel i rightprevblock : ℕ) → HeapM (ℕ ⊕ ℕ × ℕ)
  | 0, _, _ => halt "malloc: search does not end"
  | fuel + 1, i, rightprevblock => do
    let s ← get
    if i < s.heaptop then
      require (mOk s.mem i) "malloc: Heap corrupt; header at 0x%lx has bad magic bits"
      require (mhPrevblock s.mem i = rightprevblock)
        "malloc: Heap corrupt; header at 0x%lx has bad previous-block size %lu (should be %lu)"
      if mhInuse s.mem i ≠ 0 ∨ mSize s.mem i < size then
        findFit size fuel (i + mNextoff s.mem i) (mhNextblock s.mem i)
      else
        return .inl i
    else
      return .inr (i, rightprevblock)

/-- The assignments of `malloc` to the header of a block at the top of the heap. -/
def initTop (mh rightprevblock nextblock : ℕ) : HeapM Unit := do
  setPrevblock mh rightprevblock
  setMagic1 mh mmagic
  setMagic2 mh mmagic
  setPad mh 0
  setInuse mh 1
  setNextblock mh nextblock

/-- The part of `malloc` that expands the heap. -/
def mallocExpand (size rightprevblock : ℕ) : HeapM ℕ := do
  match ← mallocSbrk (u32 (size + mblocksize)) with
  | none => return 0
  | some mh =>
    initTop mh rightprevblock (mMkfield (u32 (size + mblocksize)))
    return mData mh

/-- The test of the two static variables. -/
def localDataCorrupt (s : Uheap) : Prop :=
  s.heapbase = 0 ∨ s.heaptop = 0 ∨ s.heapbase > s.heaptop

instance (s : Uheap) : Decidable (localDataCorrupt s) := inferInstanceAs (Decidable (_ ∨ _ ∨ _))

/-- `size` rounded up to a whole number of blocks. -/
def roundUp (size : ℕ) : ℕ := u32 (size + mblocksize - 1) / mblocksize * mblocksize

/-- The part of `malloc` after the setup: use a free block or expand the heap. -/
def mallocSearch (size : ℕ) : HeapM ℕ := do
  let s ← get
  require (¬ localDataCorrupt s) "malloc: heapbase 0x%lx; heaptop 0x%lx"
  match ← findFit size (s.heaptop - s.heapbase + 1) s.heapbase 0 with
  | .inl mh =>
    mallocSplit mh size
    setInuse mh 1
    return mData mh
  | .inr (i, rightprevblock) =>
    require (i = s.heaptop) "malloc: Heap corrupt; ran off end"
    mallocExpand size rightprevblock

/-- `malloc`; 0 is the null pointer. -/
def malloc (size : ℕ) : HeapM ℕ := do
  let s ← get
  if s.heapbase = 0 then
    mallocInit
  mallocSearch (roundUp size)

/-! ## Release -/

/-- `__malloc_deadbeef`. -/
def mallocDeadbeef (ptr size : ℕ) : HeapM Unit :=
  forRange (fun i => store (ptr + 4 * i) 0xdeadbeef) (size / 4) 0

/-- `__malloc_trymerge`. -/
def mallocTrymerge (mh mhnext : ℕ) : HeapM Unit := do
  let s ← get
  require (mhNextblock s.mem mh = mhPrevblock s.mem mhnext)
    "free: Heap corrupt (%p and %p inconsistent)"
  if mhInuse s.mem mh ≠ 0 ∨ mhInuse s.mem mhnext ≠ 0 then
    return
  let mhnextnext := mhnext + mNextoff s.mem mhnext
  setNextblock mh (mMkfield (u32 (mblocksize + mSize s.mem mh + mblocksize + mSize s.mem mhnext)))
  let s ← get
  setPrevAbove mhnextnext (mhNextblock s.mem mh)
  mallocDeadbeef mhnext mblocksize

/-- The part of `free` that merges with the block above, unless there is none. -/
def mergeAbove (mh : ℕ) : HeapM Unit := do
  let s ← get
  let mhnext := mh + mNextoff s.mem mh
  if mhnext ≠ s.heaptop then
    mallocTrymerge mh mhnext

/-- The part of `free` that merges with the block below, unless there is none. -/
def mergeBelow (mh : ℕ) : HeapM Unit := do
  let s ← get
  if mh ≠ s.heapbase then
    mallocTrymerge (mh - mPrevoff s.mem mh) mh

/-- `free`. -/
def free (x : ℕ) : HeapM Unit := do
  if x = 0 then
    return
  let s ← get
  require (¬ localDataCorrupt s) "free: heapbase 0x%lx; heaptop 0x%lx"
  require (¬ (x < s.heapbase ∨ x ≥ s.heaptop)) "free: Invalid pointer %p freed (out of range)"
  let mh := x - mblocksize
  require (mOk s.mem mh) "free: Invalid pointer %p freed (corrupt header)"
  require (mhInuse s.mem mh ≠ 0) "free: Invalid pointer %p freed (already free)"
  setInuse mh 0
  let s ← get
  mallocDeadbeef (mData mh) (mSize s.mem mh)
  mergeAbove mh
  mergeBelow mh

end Os161.Malloc
