import Os161.Lib.Kheap
import Os161.Vm.CoremapInvariant

/-!
# The kernel heap invariant

`HeapInv h mem g live` ties the tables of the subpage allocator and the free lists in memory to a
`HeapShape g`, which names the page records on each list and the blocks on each free list, and to
the list `live` of blocks that callers hold. The central field is `once`: every block of every page
is either on the free list of its page or held by a caller, never both and never twice.

`KernInv base k live rest` adds the page allocator: the pages of the heap, the whole-page blocks of
`live` and the pages `rest` of other users are the allocations of the coremap.
-/

namespace Os161

open Prog Chain

/-! ## Block sizes -/

/-- The sizes are the powers of two from 16 to 2048. -/
theorem blockSize_eq_pow {t : ℕ} (ht : t < nsizes) : blockSize t = 2 ^ (t + 4) := by
  unfold nsizes at ht
  interval_cases t <;> rfl

theorem blockSize_bounds {t : ℕ} (ht : t < nsizes) : 16 ≤ blockSize t ∧ blockSize t ≤ 2048 := by
  unfold nsizes at ht
  interval_cases t <;> decide

/-- Blocks fill their page, and there are at least two of them. -/
theorem blocks_fill {t : ℕ} (ht : t < nsizes) :
    pageSize / blockSize t * blockSize t = pageSize ∧ 2 ≤ pageSize / blockSize t ∧
      pageSize / blockSize t ≤ 256 := by
  unfold nsizes at ht
  interval_cases t <;> decide

/-- A request of at most half a page has a size class. -/
theorem exists_sizeClass {sz : ℕ} (hsz : sz ≤ largestSubpageSize) : ∃ t, sizeClass sz = some t := by
  cases hclass : sizeClass sz with
  | some t => exact ⟨t, rfl⟩
  | none =>
    have hlast := List.findIdx?_eq_none_iff.mp hclass 2048 (by decide)
    exact absurd hsz (of_decide_eq_false hlast)

/-- The blocks of a size class are large enough. -/
theorem sizeClass_spec {sz t : ℕ} (hclass : sizeClass sz = some t) :
    t < nsizes ∧ sz ≤ blockSize t := by
  obtain ⟨hlt, hle, -⟩ := List.findIdx?_eq_some_iff_getElem.mp hclass
  refine ⟨hlt, ?_⟩
  rw [blockSize, List.getD_eq_getElem?_getD, List.getElem?_eq_getElem hlt]
  exact of_decide_eq_true hle

/-! ## Blocks of a page -/

/-- `a` is the address of a block of the page of `pr`. -/
def Kheap.IsBlock (h : Kheap) (pr a : ℕ) : Prop :=
  ∃ i < pageSize / blockSize (h.prBlocktype pr),
    a = h.prPageaddr pr + i * blockSize (h.prBlocktype pr)

/-- The blocks of the page of `pr`, in address order. -/
def Kheap.blocks (h : Kheap) (pr : ℕ) : List ℕ :=
  (List.range (pageSize / blockSize (h.prBlocktype pr))).map fun i =>
    h.prPageaddr pr + i * blockSize (h.prBlocktype pr)

section Blocks

variable {h : Kheap} {pr a b : ℕ}

theorem Kheap.mem_blocks : a ∈ h.blocks pr ↔ h.IsBlock pr a := by
  simp only [Kheap.blocks, Kheap.IsBlock, List.mem_map, List.mem_range, eq_comm]

theorem Kheap.length_blocks : (h.blocks pr).length = pageSize / blockSize (h.prBlocktype pr) := by
  simp only [Kheap.blocks, List.length_map, List.length_range]

theorem Kheap.nodup_blocks (ht : h.prBlocktype pr < nsizes) : (h.blocks pr).Nodup := by
  refine (List.nodup_map_iff_inj_on List.nodup_range).mpr fun i _ j _ hij => ?_
  have hpos := (blockSize_bounds ht).1
  exact Nat.eq_of_mul_eq_mul_right (by omega) (Nat.add_left_cancel hij)

theorem Kheap.prPageaddr_aligned (h : Kheap) (pr : ℕ) : h.prPageaddr pr % pageSize = 0 := by
  unfold Kheap.prPageaddr pageFrame pageSize
  omega

/-- A block lies inside its page. -/
theorem Kheap.IsBlock.range (hb : h.IsBlock pr a) (ht : h.prBlocktype pr < nsizes) :
    h.prPageaddr pr ≤ a ∧ a + blockSize (h.prBlocktype pr) ≤ h.prPageaddr pr + pageSize := by
  obtain ⟨i, hi, rfl⟩ := hb
  have hle := Nat.mul_le_mul_right (blockSize (h.prBlocktype pr)) (Nat.succ_le_of_lt hi)
  rw [(blocks_fill ht).1, Nat.succ_mul] at hle
  omega

/-- The offset of a block in its page is a multiple of the block size, and so is its address. -/
theorem Kheap.IsBlock.mod (hb : h.IsBlock pr a) (ht : h.prBlocktype pr < nsizes) :
    (a - h.prPageaddr pr) % blockSize (h.prBlocktype pr) = 0 ∧
      a % blockSize (h.prBlocktype pr) = 0 := by
  obtain ⟨i, -, rfl⟩ := hb
  have hdvd : blockSize (h.prBlocktype pr) ∣ h.prPageaddr pr :=
    (Dvd.intro_left _ (blocks_fill ht).1).trans
      (Nat.dvd_of_mod_eq_zero (h.prPageaddr_aligned pr))
  refine ⟨by rw [Nat.add_sub_cancel_left, Nat.mul_mod_left], ?_⟩
  exact Nat.mod_eq_zero_of_dvd (Nat.dvd_add hdvd (Nat.dvd_mul_left _ _))

/-- Different blocks of one page do not overlap. -/
theorem Kheap.IsBlock.apart (ha : h.IsBlock pr a) (hb : h.IsBlock pr b) (hne : a ≠ b) :
    a + blockSize (h.prBlocktype pr) ≤ b ∨ b + blockSize (h.prBlocktype pr) ≤ a := by
  obtain ⟨i, -, rfl⟩ := ha
  obtain ⟨j, -, rfl⟩ := hb
  rcases Nat.lt_trichotomy i j with hij | rfl | hij
  · have := Nat.mul_le_mul_right (blockSize (h.prBlocktype pr)) (Nat.succ_le_of_lt hij)
    rw [Nat.succ_mul] at this
    omega
  · exact absurd rfl hne
  · have := Nat.mul_le_mul_right (blockSize (h.prBlocktype pr)) (Nat.succ_le_of_lt hij)
    rw [Nat.succ_mul] at this
    omega

end Blocks

/-! ## The invariant -/

/-- A block a caller holds: its address and the size that was asked for. -/
structure KBlock where
  addr : ℕ
  sz : ℕ
deriving DecidableEq

/-- The block came from the subpage allocator. -/
def KBlock.Small (b : KBlock) : Prop := b.sz < largestSubpageSize

instance (b : KBlock) : Decidable b.Small := inferInstanceAs (Decidable (_ < _))

/-- The pages of a block that did not. -/
def KBlock.run (b : KBlock) : PageRun := ⟨b.addr, (b.sz + pageSize - 1) / pageSize⟩

/-- The whole-page blocks of a ledger. -/
def bigRuns (live : List KBlock) : List PageRun := (live.filter (¬ ·.Small)).map KBlock.run

/-- What the lists of the heap hold: the records on `allbase`, those on each of `sizebases`, and the
addresses on the free list of each page. -/
structure HeapShape where
  all : List ℕ
  bySize : ℕ → List ℕ
  free : ℕ → List ℕ

/-- The successor of a free block on its free list. -/
def nextFree (mem : ℕ → ℕ) (a : ℕ) : Option ℕ := if mem a = 0 then none else some (mem a)

/-- The first free block of the page of `pr`. -/
def Kheap.freeHead (h : Kheap) (pr : ℕ) : Option ℕ :=
  if h.freelistOffset pr = invalidOffset then none
  else some (h.prPageaddr pr + h.freelistOffset pr)

/-- The bit of the record `pr` in `pagerefs_inuse`. -/
def Kheap.inuse (h : Kheap) (pr : ℕ) : Bool := (h.pagerefsInuse (pr / 32)).getLsbD (pr % 32)

/-- The page of `pr` is in the kernel segment and `fl` is its free list. -/
structure PageInv (h : Kheap) (mem : ℕ → ℕ) (pr : ℕ) (fl : List ℕ) : Prop where
  type : h.prBlocktype pr < nsizes
  low : kseg0 < h.prPageaddr pr
  high : h.prPageaddr pr + pageSize < 2 * kseg0
  linked : Linked (nextFree mem) (h.freeHead pr) fl
  block : ∀ a ∈ fl, h.IsBlock pr a
  count : h.nfree pr = fl.length

/-- The blocks of `live` at the address `a` that came from the subpage allocator. -/
def heldAt (live : List KBlock) (a : ℕ) : ℕ := live.countP fun b => b.Small ∧ b.addr = a

/-- The lists of the heap have the shape `g` and callers hold the blocks `live`. -/
structure HeapInv (h : Kheap) (mem : ℕ → ℕ) (g : HeapShape) (live : List KBlock) : Prop where
  allLinked : Linked h.nextAll h.allbase g.all
  allNodup : g.all.Nodup
  allLt : ∀ pr ∈ g.all, pr < npagerefs
  sizeLinked : ∀ t < nsizes, Linked h.nextSamesize (h.sizebases t) (g.bySize t)
  sizeNodup : ∀ t < nsizes, (g.bySize t).Nodup
  sizeMem : ∀ t < nsizes, ∀ pr, pr ∈ g.bySize t ↔ pr ∈ g.all ∧ h.prBlocktype pr = t
  page : ∀ pr ∈ g.all, PageInv h mem pr (g.free pr)
  apart : ∀ pr ∈ g.all, ∀ pr' ∈ g.all, h.prPageaddr pr = h.prPageaddr pr' → pr = pr'
  home : ∀ b ∈ live, b.Small →
    ∃ pr ∈ g.all, h.IsBlock pr b.addr ∧ sizeClass b.sz = some (h.prBlocktype pr)
  once : ∀ pr ∈ g.all, ∀ a, h.IsBlock pr a → heldAt live a + (g.free pr).count a = 1

/-- The pages of the subpage allocator. -/
def HeapShape.runs (g : HeapShape) (h : Kheap) : List PageRun :=
  g.all.map fun pr => ⟨h.prPageaddr pr, 1⟩

/-- The page of `pr` is not entirely free. -/
def HeapShape.Used (g : HeapShape) (h : Kheap) (pr : ℕ) : Prop :=
  (g.free pr).length < pageSize / blockSize (h.prBlocktype pr)

/-- Kernel memory is consistent: callers of the heap hold the blocks `live` and other users of the
page allocator hold the pages `rest`. -/
structure KernShape (base : ℕ) (k : Kern) (g : HeapShape) (live : List KBlock)
    (rest : List PageRun) : Prop where
  heap : HeapInv k.heap k.mem g live
  inuse : ∀ pr < npagerefs, k.heap.inuse pr = true ↔ pr ∈ g.all
  used : ∀ pr ∈ g.all, g.Used k.heap pr
  pages : CoremapInv base k.vm (g.runs k.heap ++ (bigRuns live ++ rest))

/-- `KernShape` for some shape of the heap. -/
def KernInv (base : ℕ) (k : Kern) (live : List KBlock) (rest : List PageRun) : Prop :=
  ∃ g : HeapShape, KernShape base k g live rest

/-! ## Changes that leave a page alone -/

section Frame

variable {h h' : Kheap} {mem mem' : ℕ → ℕ} {pr : ℕ} {fl : List ℕ}

theorem Kheap.prPageaddr_congr
    (hpab : h'.pageaddrAndBlocktype pr = h.pageaddrAndBlocktype pr) :
    h'.prPageaddr pr = h.prPageaddr pr := by
  simp only [Kheap.prPageaddr, hpab]

theorem Kheap.prBlocktype_congr
    (hpab : h'.pageaddrAndBlocktype pr = h.pageaddrAndBlocktype pr) :
    h'.prBlocktype pr = h.prBlocktype pr := by
  simp only [Kheap.prBlocktype, hpab]

theorem Kheap.isBlock_congr (hpab : h'.pageaddrAndBlocktype pr = h.pageaddrAndBlocktype pr) {a : ℕ} :
    h'.IsBlock pr a ↔ h.IsBlock pr a := by
  simp only [Kheap.IsBlock, Kheap.prPageaddr_congr hpab, Kheap.prBlocktype_congr hpab]

/-- The page of `pr` depends on its record and on the words of its free blocks only. -/
theorem PageInv.congr (hp : PageInv h mem pr fl)
    (hpab : h'.pageaddrAndBlocktype pr = h.pageaddrAndBlocktype pr)
    (hoff : h'.freelistOffset pr = h.freelistOffset pr) (hnfree : h'.nfree pr = h.nfree pr)
    (hmem : ∀ a ∈ fl, mem' a = mem a) : PageInv h' mem' pr fl where
  type := by rw [Kheap.prBlocktype_congr hpab]; exact hp.type
  low := by rw [Kheap.prPageaddr_congr hpab]; exact hp.low
  high := by rw [Kheap.prPageaddr_congr hpab]; exact hp.high
  linked := by
    have hhead : h'.freeHead pr = h.freeHead pr := by
      simp only [Kheap.freeHead, hoff, Kheap.prPageaddr_congr hpab]
    rw [hhead]
    exact hp.linked.congr fun a ha => by simp only [nextFree, hmem a ha]
  block a ha := (Kheap.isBlock_congr hpab).mpr (hp.block a ha)
  count := by rw [hnfree]; exact hp.count

/-- The address of the page is that of its free blocks, rounded down. -/
theorem PageInv.mem_range (hp : PageInv h mem pr fl) {a : ℕ} (ha : a ∈ fl) :
    h.prPageaddr pr ≤ a ∧ a < h.prPageaddr pr + pageSize := by
  have hrange := (hp.block a ha).range hp.type
  have hsize := (blockSize_bounds hp.type).1
  omega

end Frame

/-! ## Steps of the heap

Each lemma changes one page and the ledger together. -/

section Steps

variable {h : Kheap} {mem : ℕ → ℕ} {g : HeapShape} {live : List KBlock} {pr pr' a : ℕ}

/-- Pages are aligned, so an address is in at most one of them. -/
theorem HeapInv.page_unique (hi : HeapInv h mem g live) (hpr : pr ∈ g.all) (hpr' : pr' ∈ g.all)
    (h1 : h.prPageaddr pr ≤ a) (h2 : a < h.prPageaddr pr + pageSize)
    (h3 : h.prPageaddr pr' ≤ a) (h4 : a < h.prPageaddr pr' + pageSize) : pr = pr' := by
  refine hi.apart pr hpr pr' hpr' ?_
  have hal := h.prPageaddr_aligned pr
  have hal' := h.prPageaddr_aligned pr'
  unfold pageSize at *
  omega

/-- A block belongs to one page. -/
theorem HeapInv.block_unique (hi : HeapInv h mem g live) (hpr : pr ∈ g.all) (hpr' : pr' ∈ g.all)
    (hb : h.IsBlock pr a) (hb' : h.IsBlock pr' a) : pr = pr' := by
  have hr := hb.range (hi.page pr hpr).type
  have hr' := hb'.range (hi.page pr' hpr').type
  have hs := (blockSize_bounds (hi.page pr hpr).type).1
  have hs' := (blockSize_bounds (hi.page pr' hpr').type).1
  exact hi.page_unique hpr hpr' hr.1 (by omega) hr'.1 (by omega)

theorem heldAt_cons (b : KBlock) (live : List KBlock) (a : ℕ) :
    heldAt (b :: live) a = heldAt live a + if b.Small ∧ b.addr = a then 1 else 0 := by
  simp only [heldAt, List.countP_cons, decide_eq_true_eq]

/-- Hand the first free block of a page to a caller. -/
theorem HeapInv.take (hi : HeapInv h mem g live) (hpr : pr ∈ g.all) {fl : List ℕ} {b : KBlock}
    (hfl : g.free pr = b.addr :: fl) (hsmall : b.Small)
    (hclass : sizeClass b.sz = some (h.prBlocktype pr)) (off : ℕ)
    (hoff : (if off = invalidOffset then none else some (h.prPageaddr pr + off)) =
      nextFree mem b.addr) :
    HeapInv { h with
        nfree := Function.update h.nfree pr (h.nfree pr - 1)
        freelistOffset := Function.update h.freelistOffset pr off }
      mem { g with free := Function.update g.free pr fl } (b :: live) where
  allLinked := hi.allLinked
  allNodup := hi.allNodup
  allLt := hi.allLt
  sizeLinked := hi.sizeLinked
  sizeNodup := hi.sizeNodup
  sizeMem := hi.sizeMem
  apart := hi.apart
  page p hp := by
    have hpage := hi.page p hp
    by_cases hpp : p = pr
    · subst hpp
      rw [hfl] at hpage
      simp only [Function.update_self]
      refine ⟨hpage.type, hpage.low, hpage.high, ?_,
        fun a ha => hpage.block a (List.mem_cons_of_mem _ ha), ?_⟩
      · simp only [Kheap.freeHead, Function.update_self]
        exact hoff ▸ hpage.linked.2
      · simp only [Function.update_self, hpage.count, List.length_cons, Nat.add_sub_cancel]
    · simp only [Function.update_of_ne hpp]
      exact hpage.congr rfl (Function.update_of_ne hpp _ _) (Function.update_of_ne hpp _ _)
        fun _ _ => rfl
  home c hc hcs := by
    rcases List.mem_cons.mp hc with rfl | hc
    · exact ⟨pr, hpr, (hi.page pr hpr).block _ (hfl ▸ List.mem_cons_self), hclass⟩
    · exact hi.home c hc hcs
  once p hp a ha := by
    have honce := hi.once p hp a ha
    rw [heldAt_cons]
    by_cases hpp : p = pr
    · subst hpp
      rw [hfl, List.count_cons] at honce
      simp only [Function.update_self, hsmall, true_and]
      simp only [beq_iff_eq] at honce
      omega
    · have hne : b.addr ≠ a := by
        rintro rfl
        exact hpp (hi.block_unique hp hpr ha
          ((hi.page pr hpr).block _ (hfl ▸ List.mem_cons_self)))
      simp only [Function.update_of_ne hpp, hne, and_false, if_false]
      exact honce

/-- A block a caller holds is not on the free list. -/
theorem HeapInv.not_mem_free {b : KBlock} (hi : HeapInv h mem g (b :: live)) (hpr : pr ∈ g.all)
    (hb : h.IsBlock pr b.addr) (hsmall : b.Small) : b.addr ∉ g.free pr := by
  have honce := hi.once pr hpr b.addr hb
  rw [heldAt_cons, if_pos ⟨hsmall, rfl⟩] at honce
  exact List.count_eq_zero.mp (by omega)

/-- Free blocks start outside the blocks callers hold. -/
theorem HeapInv.free_outside {b : KBlock} (hi : HeapInv h mem g (b :: live)) (hpr : pr ∈ g.all)
    (hb : h.IsBlock pr b.addr) (hsmall : b.Small) (hpr' : pr' ∈ g.all) (ha : a ∈ g.free pr') :
    a < b.addr ∨ b.addr + blockSize (h.prBlocktype pr) ≤ a := by
  have hpage := hi.page pr' hpr'
  have hrange := hb.range (hi.page pr hpr).type
  have hra := hpage.mem_range ha
  by_cases hpp : pr' = pr
  · subst hpp
    have hne : a ≠ b.addr := fun heq => hi.not_mem_free hpr hb hsmall (heq ▸ ha)
    have hsize := (blockSize_bounds hpage.type).1
    have hapart := (hpage.block a ha).apart hb hne
    omega
  · by_contra hin
    exact hpp (hi.page_unique hpr' hpr hra.1 hra.2 (by omega) (by omega))

/-- Take a block back from a caller and put it at the head of the free list of its page. The memory
of the block may change; its first word leads to the rest of the list. -/
theorem HeapInv.give {b : KBlock} (hi : HeapInv h mem g (b :: live)) (hpr : pr ∈ g.all)
    (hb : h.IsBlock pr b.addr) (hsmall : b.Small) {mem' : ℕ → ℕ}
    (hmem : ∀ x, x < b.addr ∨ b.addr + blockSize (h.prBlocktype pr) ≤ x → mem' x = mem x)
    (hnext : nextFree mem' b.addr = h.freeHead pr) :
    HeapInv { h with
        nfree := Function.update h.nfree pr (h.nfree pr + 1)
        freelistOffset := Function.update h.freelistOffset pr (b.addr - h.prPageaddr pr) }
      mem' { g with free := Function.update g.free pr (b.addr :: g.free pr) } live where
  allLinked := hi.allLinked
  allNodup := hi.allNodup
  allLt := hi.allLt
  sizeLinked := hi.sizeLinked
  sizeNodup := hi.sizeNodup
  sizeMem := hi.sizeMem
  apart := hi.apart
  page p hp := by
    have hpage := hi.page p hp
    have hrange := hb.range (hi.page pr hpr).type
    have hsize := (blockSize_bounds (hi.page pr hpr).type).1
    by_cases hpp : p = pr
    · subst hpp
      simp only [Function.update_self]
      refine ⟨hpage.type, hpage.low, hpage.high, ⟨?_, ?_⟩, fun a ha => ?_, ?_⟩
      · have hoff : b.addr - h.prPageaddr p ≠ invalidOffset := by
          unfold invalidOffset pageSize at *
          omega
        simp only [Kheap.freeHead, Function.update_self, if_neg hoff]
        exact congrArg some (Nat.add_sub_of_le hrange.1)
      · rw [hnext]
        refine hpage.linked.congr fun a ha => ?_
        simp only [nextFree, hmem a (hi.free_outside hp hb hsmall hp ha)]
      · rcases List.mem_cons.mp ha with rfl | ha
        · exact hb
        · exact hpage.block a ha
      · simp only [Function.update_self, hpage.count, List.length_cons]
    · simp only [Function.update_of_ne hpp]
      exact hpage.congr rfl (Function.update_of_ne hpp _ _) (Function.update_of_ne hpp _ _)
        fun a ha => hmem a (hi.free_outside hpr hb hsmall hp ha)
  home c hc hcs := hi.home c (List.mem_cons_of_mem _ hc) hcs
  once p hp a ha := by
    have honce := hi.once p hp a ha
    rw [heldAt_cons] at honce
    by_cases hpp : p = pr
    · subst hpp
      simp only [hsmall, true_and] at honce
      simp only [Function.update_self, List.count_cons, beq_iff_eq]
      omega
    · have hne : b.addr ≠ a := by
        rintro rfl
        exact hpp (hi.block_unique hp hpr ha hb)
      simp only [hne, and_false, if_false] at honce
      simp only [Function.update_of_ne hpp]
      exact honce

/-- No block lies in a page that is not one of the heap's. -/
theorem HeapInv.heldAt_eq_zero (hi : HeapInv h mem g live)
    (hout : ∀ p ∈ g.all, a < h.prPageaddr p ∨ h.prPageaddr p + pageSize ≤ a) :
    heldAt live a = 0 := by
  refine List.countP_eq_zero.mpr fun b hb hba => ?_
  obtain ⟨hsmall, rfl⟩ := of_decide_eq_true hba
  obtain ⟨p, hp, hblock, -⟩ := hi.home b hb hsmall
  have hrange := hblock.range (hi.page p hp).type
  have hsize := (blockSize_bounds (hi.page p hp).type).1
  have := hout p hp
  omega

/-- The record of a fresh page, on both lists, with all its blocks free. -/
def Kheap.addPage (h : Kheap) (pr prpage t : ℕ) : Kheap := { h with
  pageaddrAndBlocktype := Function.update h.pageaddrAndBlocktype pr (mkpab prpage t)
  nfree := Function.update h.nfree pr (pageSize / blockSize t)
  freelistOffset :=
    Function.update h.freelistOffset pr ((pageSize / blockSize t - 1) * blockSize t)
  nextSamesize := Function.update h.nextSamesize pr (h.sizebases t)
  sizebases := Function.update h.sizebases t (some pr)
  nextAll := Function.update h.nextAll pr h.allbase
  allbase := some pr }

/-- The shape of the heap after that. -/
def HeapShape.addPage (g : HeapShape) (pr t : ℕ) (fl : List ℕ) : HeapShape where
  all := pr :: g.all
  bySize := Function.update g.bySize t (pr :: g.bySize t)
  free := Function.update g.free pr fl

theorem Kheap.addPage_pr (h : Kheap) (pr : ℕ) {prpage t : ℕ} (ht : t < nsizes)
    (hal : prpage % pageSize = 0) :
    (h.addPage pr prpage t).prPageaddr pr = prpage ∧
      (h.addPage pr prpage t).prBlocktype pr = t := by
  simp only [Kheap.addPage, Kheap.prPageaddr, Kheap.prBlocktype, Function.update_self, mkpab,
    pageFrame, nsizes, pageSize] at *
  omega

/-- Add a fresh page with all its blocks on its free list. -/
theorem HeapInv.add (hi : HeapInv h mem g live) (hpr : pr ∉ g.all) (hlt : pr < npagerefs)
    {t prpage : ℕ} (ht : t < nsizes) (hal : prpage % pageSize = 0) (hlow : kseg0 < prpage)
    (hhigh : prpage + pageSize < 2 * kseg0) (hfresh : ∀ p ∈ g.all, h.prPageaddr p ≠ prpage)
    {mem' : ℕ → ℕ} (hmem : ∀ x, x < prpage ∨ prpage + pageSize ≤ x → mem' x = mem x)
    {fl : List ℕ} (hfl : fl.Perm ((h.addPage pr prpage t).blocks pr))
    (hlinked : Linked (nextFree mem')
      (some (prpage + (pageSize / blockSize t - 1) * blockSize t)) fl) :
    HeapInv (h.addPage pr prpage t) mem' (g.addPage pr t fl) live := by
  obtain ⟨haddr, htype⟩ := h.addPage_pr pr ht hal
  obtain ⟨hfill, htwo, -⟩ := blocks_fill ht
  have htype' : (h.addPage pr prpage t).prBlocktype pr < nsizes := htype.symm ▸ ht
  have hne : ∀ p ∈ g.all, p ≠ pr := fun p hp heq => hpr (heq ▸ hp)
  have hpab : ∀ p ∈ g.all,
      (h.addPage pr prpage t).pageaddrAndBlocktype p = h.pageaddrAndBlocktype p :=
    fun p hp => Function.update_of_ne (hne p hp) _ _
  have hout : ∀ p ∈ g.all, h.prPageaddr p + pageSize ≤ prpage ∨
      prpage + pageSize ≤ h.prPageaddr p := by
    intro p hp
    have hpal := h.prPageaddr_aligned p
    have hdiff := hfresh p hp
    unfold pageSize at *
    omega
  have hnot : ∀ t' < nsizes, pr ∉ g.bySize t' := fun t' ht' hmem' =>
    hpr ((hi.sizeMem t' ht' pr).mp hmem').1
  exact {
    allLinked := hi.allLinked.push hpr
    allNodup := List.nodup_cons.mpr ⟨hpr, hi.allNodup⟩
    allLt := by
      intro p hp
      rcases List.mem_cons.mp hp with rfl | hp
      · exact hlt
      · exact hi.allLt p hp
    sizeLinked := by
      intro t' ht'
      simp only [Kheap.addPage, HeapShape.addPage]
      by_cases htt : t' = t
      · subst htt
        simp only [Function.update_self]
        exact (hi.sizeLinked t' ht').push (hnot t' ht')
      · simp only [Function.update_of_ne htt]
        refine (hi.sizeLinked t' ht').congr fun p hp => Function.update_of_ne ?_ _ _
        rintro rfl
        exact hnot t' ht' hp
    sizeNodup := by
      intro t' ht'
      simp only [HeapShape.addPage]
      by_cases htt : t' = t
      · subst htt
        rw [Function.update_self]
        exact List.nodup_cons.mpr ⟨hnot t' ht', hi.sizeNodup t' ht'⟩
      · rw [Function.update_of_ne htt]
        exact hi.sizeNodup t' ht'
    sizeMem := by
      intro t' ht' p
      simp only [HeapShape.addPage, List.mem_cons]
      by_cases hpp : p = pr
      · subst hpp
        simp only [true_or, true_and, htype]
        by_cases htt : t' = t
        · subst htt
          simp only [Function.update_self, List.mem_cons_self]
        · simp only [Function.update_of_ne htt, hnot t' ht', Ne.symm htt]
      · have hmem' : p ∈ Function.update g.bySize t (pr :: g.bySize t) t' ↔ p ∈ g.bySize t' := by
          by_cases htt : t' = t
          · subst htt
            simp only [Function.update_self, List.mem_cons, hpp, false_or]
          · rw [Function.update_of_ne htt]
        rw [hmem', hi.sizeMem t' ht']
        simp only [hpp, false_or]
        refine and_congr_right fun hp => ?_
        rw [Kheap.prBlocktype_congr (hpab p hp)]
    page := by
      intro p hp
      simp only [HeapShape.addPage]
      by_cases hpp : p = pr
      · subst hpp
        rw [Function.update_self]
        refine ⟨htype', haddr.symm ▸ hlow, haddr.symm ▸ hhigh, ?_,
          fun a ha => Kheap.mem_blocks.mp (hfl.mem_iff.mp ha), ?_⟩
        · have hoff : (pageSize / blockSize t - 1) * blockSize t ≠ invalidOffset := by
            rw [Nat.sub_mul, hfill]
            unfold pageSize invalidOffset
            omega
          rw [Kheap.freeHead, haddr]
          simp only [Kheap.addPage, Function.update_self, if_neg hoff]
          exact hlinked
        · rw [hfl.length_eq, Kheap.length_blocks, htype]
          simp only [Kheap.addPage, Function.update_self]
      · have hp' : p ∈ g.all := (List.mem_cons.mp hp).resolve_left hpp
        have hpage := hi.page p hp'
        rw [Function.update_of_ne hpp]
        refine hpage.congr (hpab p hp') (Function.update_of_ne hpp _ _)
          (Function.update_of_ne hpp _ _) fun a ha => hmem a ?_
        have hra := hpage.mem_range ha
        have hdisj := hout p hp'
        omega
    apart := by
      intro p hp p' hp' heq
      rcases List.mem_cons.mp hp with rfl | hp <;> rcases List.mem_cons.mp hp' with heq' | hp'
      · exact heq'.symm
      · rw [haddr, Kheap.prPageaddr_congr (hpab p' hp')] at heq
        exact absurd heq.symm (hfresh p' hp')
      · rw [heq', haddr, Kheap.prPageaddr_congr (hpab p hp)] at heq
        exact absurd heq (hfresh p hp)
      · rw [Kheap.prPageaddr_congr (hpab p hp), Kheap.prPageaddr_congr (hpab p' hp')] at heq
        exact hi.apart p hp p' hp' heq
    home := by
      intro b hb hsmall
      obtain ⟨p, hp, hblock, hclass⟩ := hi.home b hb hsmall
      refine ⟨p, List.mem_cons_of_mem _ hp, (Kheap.isBlock_congr (hpab p hp)).mpr hblock, ?_⟩
      rwa [Kheap.prBlocktype_congr (hpab p hp)]
    once := by
      intro p hp a ha
      simp only [HeapShape.addPage]
      by_cases hpp : p = pr
      · subst hpp
        have hrange := ha.range htype'
        have hsize := (blockSize_bounds ht).1
        rw [haddr, htype] at hrange
        have hzero : heldAt live a = 0 := hi.heldAt_eq_zero fun q hq => by
          have := hout q hq
          omega
        rw [Function.update_self, hzero, Nat.zero_add, hfl.count_eq]
        exact List.count_eq_one_of_mem (Kheap.nodup_blocks htype') (Kheap.mem_blocks.mpr ha)
      · have hp' : p ∈ g.all := (List.mem_cons.mp hp).resolve_left hpp
        rw [Function.update_of_ne hpp]
        exact hi.once p hp' a ((Kheap.isBlock_congr (hpab p hp')).mp ha) }

/-- The lists of page records are no longer than the array of records. -/
theorem HeapInv.length_all (hi : HeapInv h mem g live) : g.all.length ≤ npagerefs := by
  have hsub : g.all ⊆ List.range npagerefs := fun pr hpr => List.mem_range.mpr (hi.allLt pr hpr)
  simpa only [List.length_range] using (hi.allNodup.subperm hsub).length_le

theorem HeapInv.length_bySize (hi : HeapInv h mem g live) {t : ℕ} (ht : t < nsizes) :
    (g.bySize t).length ≤ npagerefs := by
  have hsub : g.bySize t ⊆ g.all := fun pr hpr => ((hi.sizeMem t ht pr).mp hpr).1
  exact ((hi.sizeNodup t ht).subperm hsub).length_le.trans hi.length_all

/-- A free list holds some of the blocks of its page, none of them twice. -/
theorem HeapInv.free_subperm (hi : HeapInv h mem g live) (hpr : pr ∈ g.all) :
    (g.free pr).Subperm (h.blocks pr) := by
  refine List.Nodup.subperm (List.nodup_iff_count_le_one.mpr fun a => ?_)
    fun a ha => Kheap.mem_blocks.mpr ((hi.page pr hpr).block a ha)
  by_cases ha : a ∈ g.free pr
  · have := hi.once pr hpr a ((hi.page pr hpr).block a ha)
    omega
  · rw [List.count_eq_zero_of_not_mem ha]
    exact Nat.zero_le 1

theorem HeapInv.length_free (hi : HeapInv h mem g live) (hpr : pr ∈ g.all) :
    (g.free pr).length ≤ pageSize / blockSize (h.prBlocktype pr) :=
  Kheap.length_blocks (h := h) ▸ (hi.free_subperm hpr).length_le

/-- The heap after `remove_lists`. -/
def Kheap.dropPage (h : Kheap) (pr t : ℕ) : Kheap := { h with
  sizebases :=
    Function.update h.sizebases t (unlink h.nextSamesize pr npagerefs (h.sizebases t)).1
  nextSamesize := (unlink h.nextSamesize pr npagerefs (h.sizebases t)).2
  allbase := (unlink h.nextAll pr npagerefs h.allbase).1
  nextAll := (unlink h.nextAll pr npagerefs h.allbase).2 }

/-- The shape of the heap after `remove_lists`. -/
def HeapShape.dropPage (g : HeapShape) (pr t : ℕ) : HeapShape where
  all := g.all.erase pr
  bySize := Function.update g.bySize t ((g.bySize t).erase pr)
  free := g.free

/-- Remove a page whose blocks are all free. -/
theorem HeapInv.drop (hi : HeapInv h mem g live) (hpr : pr ∈ g.all)
    (hfull : (g.free pr).length = pageSize / blockSize (h.prBlocktype pr)) :
    HeapInv (h.dropPage pr (h.prBlocktype pr)) mem (g.dropPage pr (h.prBlocktype pr)) live := by
  have ht := (hi.page pr hpr).type
  have hmemsize : pr ∈ g.bySize (h.prBlocktype pr) := (hi.sizeMem _ ht pr).mpr ⟨hpr, rfl⟩
  obtain ⟨hsize, hsizeframe⟩ := (hi.sizeLinked _ ht).unlink (hi.sizeNodup _ ht) hmemsize
    (hi.length_bySize ht)
  have hsub : ∀ p, p ∈ g.all.erase pr → p ∈ g.all := fun p hp => List.mem_of_mem_erase hp
  exact {
    allLinked := (hi.allLinked.unlink hi.allNodup hpr hi.length_all).1
    allNodup := hi.allNodup.erase pr
    allLt := fun p hp => hi.allLt p (hsub p hp)
    sizeLinked := by
      intro t' ht'
      simp only [Kheap.dropPage, HeapShape.dropPage]
      by_cases htt : t' = h.prBlocktype pr
      · subst htt
        simp only [Function.update_self]
        exact hsize
      · simp only [Function.update_of_ne htt]
        refine (hi.sizeLinked t' ht').congr fun p hp => hsizeframe p fun hp' => htt ?_
        rw [← ((hi.sizeMem t' ht' p).mp hp).2, ((hi.sizeMem _ ht p).mp hp').2]
    sizeNodup := by
      intro t' ht'
      simp only [HeapShape.dropPage]
      by_cases htt : t' = h.prBlocktype pr
      · subst htt
        rw [Function.update_self]
        exact (hi.sizeNodup _ ht').erase pr
      · rw [Function.update_of_ne htt]
        exact hi.sizeNodup t' ht'
    sizeMem := by
      intro t' ht' p
      simp only [HeapShape.dropPage, hi.allNodup.mem_erase_iff]
      have htp : (h.dropPage pr (h.prBlocktype pr)).prBlocktype p = h.prBlocktype p := rfl
      rw [htp, and_assoc, ← hi.sizeMem t' ht' p]
      by_cases htt : t' = h.prBlocktype pr
      · subst htt
        rw [Function.update_self, (hi.sizeNodup _ ht').mem_erase_iff]
      · rw [Function.update_of_ne htt]
        refine ⟨fun hp => ⟨?_, hp⟩, fun hp => hp.2⟩
        rintro rfl
        exact htt ((hi.sizeMem t' ht' p).mp hp).2.symm
    page := fun p hp => (hi.page p (hsub p hp)).congr rfl rfl rfl fun _ _ => rfl
    apart := fun p hp p' hp' => hi.apart p (hsub p hp) p' (hsub p' hp')
    home := by
      intro b hb hsmall
      obtain ⟨p, hp, hblock, hclass⟩ := hi.home b hb hsmall
      refine ⟨p, hi.allNodup.mem_erase_iff.mpr ⟨?_, hp⟩, hblock, hclass⟩
      rintro rfl
      -- every block of the page is on the free list, so nobody holds `b`
      have hperm : (g.free p).Perm (h.blocks p) :=
        (hi.free_subperm hp).perm_of_length_le (by rw [hfull, Kheap.length_blocks])
      have hfree : b.addr ∈ g.free p := hperm.mem_iff.mpr (Kheap.mem_blocks.mpr hblock)
      have honce := hi.once p hp b.addr hblock
      have hpos : 0 < heldAt live b.addr :=
        List.countP_pos_iff.mpr ⟨b, hb, decide_eq_true ⟨hsmall, rfl⟩⟩
      have hcount := List.count_pos_iff.mpr hfree
      omega
    once := fun p hp => hi.once p (hsub p hp) }

/-- Memory may change wherever no free block starts. -/
theorem HeapInv.setMem (hi : HeapInv h mem g live) {mem' : ℕ → ℕ}
    (hmem : ∀ p ∈ g.all, ∀ a ∈ g.free p, mem' a = mem a) : HeapInv h mem' g live :=
  { hi with page := fun p hp => (hi.page p hp).congr rfl rfl rfl (hmem p hp) }

/-- The allocation map of the records plays no role. -/
theorem HeapInv.setInuse (hi : HeapInv h mem g live) (words : ℕ → BitVec 32) :
    HeapInv { h with pagerefsInuse := words } mem g live :=
  { hi with page := fun p hp => (hi.page p hp).congr rfl rfl rfl fun _ _ => rfl }

/-- The order of the ledger does not matter. -/
theorem HeapInv.perm (hi : HeapInv h mem g live) {live' : List KBlock} (hperm : live.Perm live') :
    HeapInv h mem g live' :=
  { hi with
    home := fun b hb => hi.home b (hperm.mem_iff.mpr hb)
    once := fun pr hpr a ha => by rw [← hi.once pr hpr a ha, heldAt, heldAt, hperm.countP_eq] }

/-- Whole-page blocks are no concern of the subpage allocator. -/
theorem HeapInv.cons_big {b : KBlock} (hb : ¬ b.Small) :
    HeapInv h mem g (b :: live) ↔ HeapInv h mem g live := by
  have hheld : ∀ a, heldAt (b :: live) a = heldAt live a := fun a => by
    rw [heldAt_cons, if_neg fun hc => hb hc.1, Nat.add_zero]
  constructor
  · intro hi
    exact { hi with
      home := fun c hc => hi.home c (List.mem_cons_of_mem _ hc)
      once := fun pr hpr a ha => hheld a ▸ hi.once pr hpr a ha }
  · intro hi
    refine { hi with home := fun c hc hcs => ?_, once := fun pr hpr a ha => ?_ }
    · rcases List.mem_cons.mp hc with rfl | hc
      · exact absurd hcs hb
      · exact hi.home c hc hcs
    · rw [hheld a]
      exact hi.once pr hpr a ha

end Steps

end Os161
