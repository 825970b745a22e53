import Os161.Lib.KheapInvariant

/-!
# Safety of the kernel heap

Specifications of the functions of `kern/lib/kheap.c` against `KernInv`, from the page records up to
`kmalloc_spec` and `kfree_spec`, and what follows for every sequence of calls: live blocks are large
enough, aligned and disjoint, they lie in pages the heap holds, and no assertion fails.
-/

namespace Os161

open Prog Chain

variable {base : ℕ} {k : Kern} {g : HeapShape} {live : List KBlock} {rest : List PageRun}

/-! ## Page records -/

/-- The bit loop finds a clear bit if there is one. -/
theorem clearBit_spec (w : BitVec 32) (n j : ℕ) :
    match clearBit w n j with
    | some i => j ≤ i ∧ i < j + n ∧ w.getLsbD i = false
    | none => ∀ i, j ≤ i → i < j + n → w.getLsbD i = true := by
  induction n generalizing j with
  | zero => exact fun i h1 h2 => absurd h2 (by omega)
  | succ n ih =>
    rw [clearBit]
    by_cases hj : w.getLsbD j = false
    · rw [if_pos hj]
      exact ⟨le_rfl, by omega, hj⟩
    · rw [if_neg hj]
      have hrec := ih (j + 1)
      split at hrec
      · exact ⟨by omega, by omega, hrec.2.2⟩
      · intro i h1 h2
        rcases Nat.eq_or_lt_of_le h1 with rfl | h1
        · simpa using hj
        · exact hrec i h1 (by omega)

/-- `k'` is `k` with the allocation bit of the record `pr` set to `v`. -/
def SetsInuse (k k' : Kern) (pr : ℕ) (v : Bool) : Prop :=
  ∃ words, k' = { k with heap := { k.heap with pagerefsInuse := words } } ∧
    ∀ p, k'.heap.inuse p = if p = pr then v else k.heap.inuse p

/-- Changing one bit of one word changes one record. -/
theorem setsInuse_of_word {i j : ℕ} {w : BitVec 32} {v : Bool} (hj : j < 32)
    (hw : ∀ l < 32, w.getLsbD l = if l = j then v else (k.heap.pagerefsInuse i).getLsbD l) :
    SetsInuse k { k with heap := { k.heap with
      pagerefsInuse := Function.update k.heap.pagerefsInuse i w } } (i * 32 + j) v := by
  refine ⟨_, rfl, fun p => ?_⟩
  simp only [Kheap.inuse]
  by_cases hp : p / 32 = i
  · rw [hp, Function.update_self, hw _ (Nat.mod_lt _ (by omega))]
    have hiff : p % 32 = j ↔ p = i * 32 + j := by omega
    simp only [hiff]
  · rw [Function.update_of_ne hp, if_neg (by omega)]

/-- `allocpageref` marks a record that was not in use. -/
theorem allocpageref_spec (k : Kern) :
    Meets allocpageref (fun r k' => match r with
      | none => k' = k
      | some pr => pr < npagerefs ∧ k.heap.inuse pr = false ∧ SetsInuse k k' pr true)
      (fun _ _ => False) k := by
  suffices hfrom : ∀ n i, i + n = inuseWords →
      Meets (allocpagerefFrom n i) (fun r k' => match r with
        | none => k' = k
        | some pr => pr < npagerefs ∧ k.heap.inuse pr = false ∧ SetsInuse k k' pr true)
        (fun _ _ => False) k from hfrom inuseWords 0 (Nat.zero_add _)
  intro n
  induction n with
  | zero => exact fun i _ => rfl
  | succ n ih =>
    intro i hi
    simp only [allocpagerefFrom, meets_bind, meets_get, meets_ite]
    refine ⟨fun _ => ih (i + 1) (by omega), fun hfull => ?_⟩
    have hbit := clearBit_spec (k.heap.pagerefsInuse i) 32 0
    split
    case h_1 hnone =>
      rw [hnone] at hbit
      refine absurd (BitVec.eq_of_getLsbD_eq fun l hl => ?_) hfull
      rw [hbit l (Nat.zero_le l) (by omega), BitVec.getLsbD_allOnes, decide_eq_true hl]
    case h_2 j hsome =>
      rw [hsome] at hbit
      obtain ⟨-, hj, hclear⟩ := hbit
      simp only [modifyHeap, meets_bind, meets_modify, meets_pure]
      unfold inuseWords at hi
      refine ⟨by unfold npagerefs; omega, ?_, setsInuse_of_word (by omega) fun l hl => ?_⟩
      · rw [Kheap.inuse, show (i * 32 + j) / 32 = i by omega, show (i * 32 + j) % 32 = j by omega]
        exact hclear
      · rw [BitVec.getLsbD_or, BitVec.getLsbD_twoPow]
        by_cases hlj : l = j
        · subst hlj
          simp only [hl, decide_true, Bool.and_true, Bool.or_true, if_true]
        · simp only [hlj, Ne.symm hlj, decide_false, Bool.and_false, Bool.or_false, if_false]

/-- `freepageref` clears the mark of a record in use. -/
theorem freepageref_spec {pr : ℕ} (hlt : pr < npagerefs) (huse : k.heap.inuse pr = true) :
    Meets (freepageref pr) (fun _ k' => SetsInuse k k' pr false) (fun _ _ => False) k := by
  simp only [freepageref, modifyHeap, meets_bind, meets_get, meets_require, meets_modify]
  have hmod : pr % 32 < 32 := Nat.mod_lt _ (by omega)
  refine ⟨hlt, ?_, ?_⟩
  · intro hzero
    have hbit := congrArg (BitVec.getLsbD · (pr % 32)) hzero
    simp only [BitVec.getLsbD_and, BitVec.getLsbD_twoPow, hmod, decide_true, Bool.and_true] at hbit
    rw [Kheap.inuse] at huse
    rw [huse] at hbit
    simp at hbit
  · have hset := setsInuse_of_word (k := k) (i := pr / 32) (v := false) hmod (w :=
      k.heap.pagerefsInuse (pr / 32) &&& ~~~ BitVec.twoPow 32 (pr % 32)) fun l hl => by
        rw [BitVec.getLsbD_and, BitVec.getLsbD_not, BitVec.getLsbD_twoPow]
        by_cases hlj : l = pr % 32
        · subst hlj
          simp only [hl, decide_true, Bool.and_true, Bool.not_true, Bool.and_false, if_true]
        · simp only [hl, hlj, Ne.symm hlj, decide_true, decide_false, Bool.and_false,
            Bool.not_false, Bool.and_true, if_false]
    rwa [Nat.div_add_mod' pr 32] at hset

/-- A search over a list of page records stops at the first hit. -/
theorem findPageref_spec {next : Kheap → ℕ → Option ℕ} {check hit : Kheap → ℕ → Bool}
    {msg : String} {fuel : ℕ} {p : Option ℕ} {l : List ℕ} (hl : Linked (next k.heap) p l)
    (hcheck : ∀ pr ∈ l, check k.heap pr = true) (hlen : l.length ≤ fuel) :
    Meets (findPageref next check hit msg fuel p)
      (fun r k' => r = l.find? (hit k.heap) ∧ k' = k) (fun _ _ => False) k := by
  induction l generalizing fuel p with
  | nil =>
    obtain rfl : p = none := hl
    cases fuel <;> exact ⟨rfl, rfl⟩
  | cons pr prs ih =>
    obtain ⟨rfl, hrest⟩ := hl
    cases fuel with
    | zero => exact absurd hlen (by simp)
    | succ n =>
      simp only [findPageref, meets_bind, meets_get, meets_require, meets_ite, meets_pure]
      refine ⟨hcheck pr List.mem_cons_self, fun hh => ?_, fun hh => ?_⟩
      · simp only [List.find?_cons, hh, and_self]
      · simp only [Bool.not_eq_true] at hh
        simp only [List.find?_cons, hh]
        exact ih hrest (fun q hq => hcheck q (List.mem_cons_of_mem _ hq))
          (by simp only [List.length_cons] at hlen; omega)

/-! ## Free lists -/

/-- `doalloc` hands out the first free block of the page. -/
theorem doalloc_spec (hi : HeapInv k.heap k.mem g live) {pr a : ℕ} {fl : List ℕ}
    (hpr : pr ∈ g.all) (hfl : g.free pr = a :: fl) (spl : ℕ) {sz : ℕ}
    (hsmall : sz < largestSubpageSize) (hclass : sizeClass sz = some (k.heap.prBlocktype pr)) :
    Meets (doalloc pr spl)
      (fun r k' => r = a ∧
        HeapInv k'.heap k'.mem { g with free := Function.update g.free pr fl } (⟨a, sz⟩ :: live) ∧
        k'.heap.pageaddrAndBlocktype = k.heap.pageaddrAndBlocktype ∧
        k'.heap.pagerefsInuse = k.heap.pagerefsInuse ∧ k'.vm = { k.vm with curspl := spl })
      (fun _ _ => False) k := by
  have hpage := hi.page pr hpr
  rw [hfl] at hpage
  obtain ⟨hhead, htail⟩ := hpage.linked
  have hra := hpage.mem_range List.mem_cons_self
  have hhigh := hpage.high
  have hoff : k.heap.prPageaddr pr + k.heap.freelistOffset pr = a := by
    unfold Kheap.freeHead at hhead
    split at hhead
    · exact absurd hhead (by simp)
    · exact Option.some.inj hhead
  simp only [doalloc, onVm, splx, modifyHeap, meets_bind, meets_get, meets_require, meets_ite,
    meets_modify, meets_zoom, meets_gets, meets_pure, hoff, hpage.count, List.length_cons,
    Nat.add_sub_cancel]
  refine ⟨by omega, fun hne => ?_, fun heq => ?_⟩
  · have hnext : nextFree k.mem a = some (k.mem a) := if_neg hne
    rw [hnext] at htail
    obtain ⟨fl', rfl⟩ := htail.exists_cons
    have hrn := hpage.mem_range (List.mem_cons_of_mem _ List.mem_cons_self)
    have hword : u32 (k.mem a - k.heap.prPageaddr pr) = k.mem a - k.heap.prPageaddr pr := by
      unfold u32 pageSize kseg0 at *
      omega
    rw [hword]
    refine ⟨by simp, by omega, trivial, ?_, trivial, trivial, trivial⟩
    have htake := hi.take hpr (b := ⟨a, sz⟩) hfl hsmall hclass
      (k.mem a - k.heap.prPageaddr pr) ?_
    · simpa only [hpage.count, List.length_cons, Nat.add_sub_cancel] using htake
    · rw [hnext, if_neg (by unfold invalidOffset pageSize at *; omega)]
      exact congrArg some (Nat.add_sub_of_le hrn.1)
  · have hzero : k.mem a = 0 := by simpa using heq
    have hnext : nextFree k.mem a = none := if_pos hzero
    rw [hnext] at htail
    obtain rfl := htail.eq_nil
    refine ⟨rfl, trivial, ?_, trivial, trivial, trivial⟩
    have htake := hi.take hpr (b := ⟨a, sz⟩) hfl hsmall hclass invalidOffset ?_
    · simpa only [hpage.count, List.length_cons, List.length_nil] using htake
    · rw [if_pos rfl, hnext]

/-- `k'` is `k` with memory changed between `lo` and `hi` only. -/
def WritesIn (k k' : Kern) (lo hi : ℕ) : Prop :=
  ∃ mem, k' = { k with mem := mem } ∧ ∀ x, x < lo ∨ hi ≤ x → mem x = k.mem x

/-- A store within the range. -/
theorem WritesIn.store {k k' : Kern} {lo hi a : ℕ} (hw : WritesIn k k' lo hi) (hlo : lo ≤ a)
    (hhi : a < hi) (v : ℕ) :
    WritesIn k { k' with mem := Function.update k'.mem a v } lo hi := by
  obtain ⟨mem, rfl, hframe⟩ := hw
  refine ⟨_, rfl, fun x hx => ?_⟩
  rw [Function.update_of_ne (by omega)]
  exact hframe x hx

/-- The threading loop links every block of the page to the one below it. -/
theorem threadFreelist_spec {prpage size n : ℕ} (hlow : 0 < prpage) (hsize : 0 < size) (hn : 0 < n) :
    Meets (threadFreelist prpage size n)
      (fun _ k' => WritesIn k k' prpage (prpage + n * size) ∧
        Linked (nextFree k'.mem) (some (prpage + (n - 1) * size))
          ((List.range n).map fun i => prpage + i * size).reverse)
      (fun _ _ => False) k := by
  simp only [threadFreelist, store, meets_bind, meets_modify]
  -- before pass `i` the first `i` blocks are linked
  refine (Meets.forRange (fun i k' => WritesIn k k' prpage (prpage + n * size) ∧
      Linked (nextFree k'.mem) (some (prpage + (i - 1) * size))
        ((List.range i).map fun i => prpage + i * size).reverse)
    ⟨WritesIn.store ⟨_, rfl, fun _ _ => rfl⟩ le_rfl (Nat.lt_add_of_pos_right (by positivity)) 0,
      ?_⟩ fun i k' h1 h2 hinv => ?_).imp fun _ k' hk' => ?_
  · simp [nextFree]
  · obtain ⟨hw, hlinked⟩ := hinv
    have hstep : i * size = (i - 1) * size + size := by
      rw [← Nat.succ_mul, Nat.succ_eq_add_one, Nat.sub_add_cancel h1]
    have hend : i * size + size ≤ n * size := by
      rw [← Nat.succ_mul]
      exact Nat.mul_le_mul_right _ (by omega)
    simp only [meets_bind, meets_modify, meets_require]
    refine ⟨by omega, hw.store (by omega) (by omega) _, ?_⟩
    rw [List.range_succ, List.map_append, List.reverse_append]
    refine ⟨rfl, ?_⟩
    simp only [nextFree, Function.update_self, if_neg (show prpage + (i - 1) * size ≠ 0 by omega)]
    refine hlinked.congr fun a ha => ?_
    obtain ⟨j, hj, rfl⟩ := List.mem_map.mp (List.mem_reverse.mp ha)
    have hji : j * size < i * size := Nat.mul_lt_mul_of_pos_right (List.mem_range.mp hj) hsize
    rw [nextFree, Function.update_of_ne (by omega)]
    rfl
  · rwa [show 1 + (n - 1) = n by omega] at hk'

/-- `fill_deadbeef` writes inside the block. -/
theorem fillDeadbeef_spec (ptr len : ℕ) :
    Meets (fillDeadbeef ptr len) (fun _ k' => WritesIn k k' ptr (ptr + len))
      (fun _ _ => False) k := by
  refine (Meets.forRange (fun _ k' => WritesIn k k' ptr (ptr + len)) ⟨_, rfl, fun _ _ => rfl⟩
    fun i k' _ h2 hinv => ?_)
  simp only [store, meets_modify]
  exact hinv.store (by omega) (by omega) _

/-! ## Allocation -/

/-- A call of the page allocator leaves the heap alone. -/
theorem onVm_spec {α : Type} {m : VmM α} {Q : α → Vm → Prop}
    (hm : Meets m Q (fun _ _ => False) k.vm) :
    Meets (onVm m) (fun a k' => ∃ vm', k' = { k with vm := vm' } ∧ Q a vm')
      (fun _ _ => False) k := by
  rw [onVm, meets_zoom]
  exact hm.imp fun a vm' hQ => ⟨vm', rfl, hQ⟩

/-- A call of the page allocator writes no memory. -/
theorem onVm_mem {α : Type} (m : VmM α) (k : Kern) :
    Meets (onVm m) (fun _ k' => k'.mem = k.mem) (fun _ _ => True) k (fun _ => True) := by
  rw [onVm, meets_zoom]
  unfold Meets
  split <;> trivial

/-- The interrupt level plays no role. -/
theorem splx_kern_spec (hk : KernShape base k g live rest) (spl : ℕ) :
    Meets (onVm (splx spl)) (fun _ k' => KernShape base k' g live rest) (fun _ _ => False) k := by
  simp only [onVm, splx, meets_zoom, meets_bind, meets_gets, meets_modify, meets_pure]
  exact { hk with pages := hk.pages.setSpl spl }

/-- Restoring the interrupt level before a return. -/
theorem splx_return_spec {α : Type} (hk : KernShape base k g live rest) (spl : ℕ) (r : α) :
    Meets (do let _ ← onVm (splx spl); return r)
      (fun a k' => a = r ∧ KernInv base k' live rest) (fun _ _ => False) k := by
  rw [meets_bind]
  exact (splx_kern_spec hk spl).imp fun _ k' hk' => ⟨rfl, g, hk'⟩

theorem bigRuns_cons_small {b : KBlock} (hb : b.Small) : bigRuns (b :: live) = bigRuns live := by
  simp only [bigRuns, List.filter_cons, hb, not_true, decide_false, Bool.false_eq_true, if_false]

theorem bigRuns_cons_big {b : KBlock} (hb : ¬ b.Small) :
    bigRuns (b :: live) = b.run :: bigRuns live := by
  simp only [bigRuns, List.filter_cons, hb, not_false_eq_true, decide_true, if_true, List.map_cons]

theorem HeapShape.runs_congr {h h' : Kheap}
    (hpab : ∀ pr ∈ g.all, h'.pageaddrAndBlocktype pr = h.pageaddrAndBlocktype pr) :
    g.runs h' = g.runs h :=
  List.map_congr_left fun pr hpr => by rw [Kheap.prPageaddr_congr (hpab pr hpr)]

/-- `doalloc` on a page with a free block; the page itself may still be entirely free. -/
theorem doalloc_kern_spec (hi : HeapInv k.heap k.mem g live)
    (hinuse : ∀ pr < npagerefs, k.heap.inuse pr = true ↔ pr ∈ g.all) {pr : ℕ} (hpr : pr ∈ g.all)
    (hused : ∀ p ∈ g.all, p ≠ pr → g.Used k.heap p) (hne : g.free pr ≠ [])
    (hpages : CoremapInv base k.vm (g.runs k.heap ++ (bigRuns live ++ rest))) (spl : ℕ) {sz : ℕ}
    (hsmall : sz < largestSubpageSize) (hclass : sizeClass sz = some (k.heap.prBlocktype pr)) :
    Meets (doalloc pr spl) (fun a k' => a ≠ 0 ∧ KernInv base k' (⟨a, sz⟩ :: live) rest)
      (fun _ _ => False) k := by
  obtain ⟨a, fl, hfl⟩ := List.exists_cons_of_ne_nil hne
  refine (doalloc_spec hi hpr hfl spl hsmall hclass).imp ?_
  rintro _ k' ⟨rfl, hi', hpab, hwords, hvm⟩
  have hpab' : ∀ p, k'.heap.pageaddrAndBlocktype p = k.heap.pageaddrAndBlocktype p := congrFun hpab
  refine ⟨?_, _, hi', fun p hp => ?_, fun p hp => ?_, ?_⟩
  · have hra := (hi.page pr hpr).mem_range (hfl ▸ List.mem_cons_self)
    have hlow := (hi.page pr hpr).low
    unfold kseg0 at hlow
    omega
  · rw [Kheap.inuse, hwords]
    exact hinuse p hp
  · rw [HeapShape.Used, Kheap.prBlocktype_congr (hpab' p)]
    by_cases hpp : p = pr
    · subst hpp
      have hle := hi.length_free hp
      rw [hfl] at hle
      simp only [Function.update_self]
      exact hle
    · simp only [Function.update_of_ne hpp]
      exact hused p hp hpp
  · rw [bigRuns_cons_small (b := ⟨_, sz⟩) hsmall, hvm]
    have hruns : g.runs k'.heap = g.runs k.heap := HeapShape.runs_congr fun p _ => hpab' p
    exact hruns ▸ hpages.setSpl spl

/-- `addPage` puts a fresh page with all its blocks on the lists. -/
theorem addPage_spec (hi : HeapInv k.heap k.mem g live) {pr t prpage : ℕ} (hpr : pr ∉ g.all)
    (hlt : pr < npagerefs) (ht : t < nsizes) (hal : prpage % pageSize = 0) (hlow : kseg0 < prpage)
    (hhigh : prpage + pageSize < 2 * kseg0) (hfresh : ∀ p ∈ g.all, k.heap.prPageaddr p ≠ prpage) :
    Meets (addPage pr prpage t)
      (fun _ k' => k'.heap = k.heap.addPage pr prpage t ∧ k'.vm = k.vm ∧
        HeapInv k'.heap k'.mem
          (g.addPage pr t ((k.heap.addPage pr prpage t).blocks pr).reverse) live)
      (fun _ _ => False) k := by
  obtain ⟨haddr, htype⟩ := k.heap.addPage_pr pr ht hal
  obtain ⟨hfill, htwo, -⟩ := blocks_fill ht
  have hsize := (blockSize_bounds ht).1
  simp only [addPage, modifyHeap, meets_bind, meets_modify]
  refine (threadFreelist_spec (by omega) (by omega) (by omega)).imp ?_
  rintro _ _ ⟨⟨mem, rfl, hmem⟩, hlinked⟩
  rw [hfill] at hmem
  refine ⟨rfl, rfl, hi.add hpr hlt ht hal hlow hhigh hfresh hmem (List.reverse_perm _) ?_⟩
  simp only [Kheap.blocks, haddr, htype]
  exact hlinked

/-- A page for the new record `pr`, which is marked and not yet on the lists. -/
theorem freshPage_spec (hi : HeapInv k.heap k.mem g live) {pr t : ℕ} (hpr : pr ∉ g.all)
    (hlt : pr < npagerefs) (hinuse : ∀ p < npagerefs, k.heap.inuse p = true ↔ p = pr ∨ p ∈ g.all)
    (hused : ∀ p ∈ g.all, g.Used k.heap p)
    (hpages : CoremapInv base k.vm (g.runs k.heap ++ (bigRuns live ++ rest))) (ht : t < nsizes)
    (spl : ℕ) {sz : ℕ} (hsmall : sz < largestSubpageSize) (hclass : sizeClass sz = some t) :
    Meets (freshPage t pr spl)
      (fun a k' => (a = 0 ∧ KernInv base k' live rest) ∨
        (a ≠ 0 ∧ KernInv base k' (⟨a, sz⟩ :: live) rest))
      (fun _ _ => False) k := by
  rw [freshPage, meets_bind]
  refine (onVm_spec (allocKpages_spec hpages 1)).imp ?_
  rintro prpage _ ⟨vm', rfl, ⟨rfl, -, hpages⟩ | ⟨hne, hpages⟩⟩
  · rw [if_pos rfl, meets_bind]
    refine (freepageref_spec (k := { k with vm := vm' }) hlt
      ((hinuse pr hlt).mpr (Or.inl rfl))).imp ?_
    rintro _ _ ⟨words, rfl, hbits⟩
    have hk' : KernShape base { k with
        vm := vm', heap := { k.heap with pagerefsInuse := words } } g live rest := by
      refine ⟨hi.setInuse words, fun p hp => ?_, hused, hpages⟩
      rw [hbits p]
      by_cases hpp : p = pr
      · simp only [hpp, hpr, if_true, Bool.false_eq_true]
      · rw [if_neg hpp]
        exact (hinuse p hp).trans (or_iff_right hpp)
    exact (splx_return_spec hk' spl 0).imp fun _ k' => Or.inl
  · obtain ⟨-, hal, hlow, hhigh⟩ := hpages.run_range List.mem_cons_self
    simp only [show u32 1 = 1 from u32_of_lt (n := 1) (by norm_num), Nat.mul_one]
      at hal hlow hhigh hpages
    have hfresh : ∀ p ∈ g.all, k.heap.prPageaddr p ≠ prpage := by
      intro p hp
      have hmem : (⟨k.heap.prPageaddr p, 1⟩ : PageRun) ∈ g.runs k.heap ++ (bigRuns live ++ rest) :=
        List.mem_append_left _ (List.mem_map_of_mem hp)
      have := List.rel_of_pairwise_cons hpages.pairwise_apart hmem
      simp only [pageSize] at this
      omega
    rw [if_neg hne, meets_bind]
    refine (addPage_spec (k := { k with vm := vm' }) hi hpr hlt ht hal hlow hhigh hfresh).imp ?_
    rintro _ k₂ ⟨hheap, hvm, hi₂⟩
    obtain ⟨haddr, htype⟩ := k.heap.addPage_pr pr ht hal
    have hpab : ∀ p ∈ g.all, k₂.heap.pageaddrAndBlocktype p = k.heap.pageaddrAndBlocktype p := by
      intro p hp
      rw [hheap]
      refine Function.update_of_ne ?_ _ _
      rintro rfl
      exact hpr hp
    refine (doalloc_kern_spec hi₂ (fun p hp => ?_) List.mem_cons_self (fun p hp hpp => ?_) ?_ ?_
      spl hsmall ?_).imp fun a k' ha => Or.inr ha
    · rw [hheap]
      exact (hinuse p hp).trans List.mem_cons.symm
    · have hp' := (List.mem_cons.mp hp).resolve_left hpp
      rw [HeapShape.Used, Kheap.prBlocktype_congr (hpab p hp')]
      simp only [HeapShape.addPage, Function.update_of_ne hpp]
      exact hused p hp'
    · simp only [HeapShape.addPage, Function.update_self]
      refine List.ne_nil_of_length_pos ?_
      rw [List.length_reverse, Kheap.length_blocks, htype]
      have := (blocks_fill ht).2.1
      omega
    · have hruns : HeapShape.runs (g.addPage pr t
          ((k.heap.addPage pr prpage t).blocks pr).reverse) k₂.heap =
          ⟨prpage, 1⟩ :: g.runs k.heap := by
        rw [HeapShape.runs, HeapShape.addPage, List.map_cons, ← HeapShape.runs_congr hpab, hheap,
          haddr]
        rfl
      rw [hruns, hvm]
      exact hpages
    · rw [hheap, htype]
      exact hclass

/-- The block of a small request. -/
theorem subpageKmalloc_spec (hk : KernInv base k live rest) {sz : ℕ}
    (hsmall : sz < largestSubpageSize) :
    Meets (subpageKmalloc sz)
      (fun a k' => (a = 0 ∧ KernInv base k' live rest) ∨
        (a ≠ 0 ∧ KernInv base k' (⟨a, sz⟩ :: live) rest))
      (fun _ _ => False) k := by
  obtain ⟨g, hk⟩ := hk
  simp only [subpageKmalloc, meets_bind]
  obtain ⟨t, hclass⟩ := exists_sizeClass hsmall.le
  have ht := (sizeClass_spec hclass).1
  simp only [blocktype, hclass, meets_pure]
  refine (splx_kern_spec hk splHigh).imp fun spl k hk => ?_
  rw [meets_get]
  have hsame : ∀ pr ∈ g.bySize t, pr ∈ g.all ∧ k.heap.prBlocktype pr = t :=
    fun pr hpr => (hk.heap.sizeMem t ht pr).mp hpr
  refine (findPageref_spec (hk.heap.sizeLinked t ht)
    (fun pr hpr => decide_eq_true (hsame pr hpr).2) (hk.heap.length_bySize ht)).imp ?_
  rintro r k ⟨hr, rfl⟩
  cases r with
  | some pr =>
    obtain ⟨hpr, htype⟩ := hsame pr (List.mem_of_find?_eq_some hr.symm)
    have hpos : 0 < k.heap.nfree pr := by
      simpa only [decide_eq_true_eq] using List.find?_some hr.symm
    rw [(hk.heap.page pr hpr).count] at hpos
    exact (doalloc_kern_spec hk.heap hk.inuse hpr (fun p hp _ => hk.used p hp)
      (List.ne_nil_of_length_pos hpos) hk.pages spl hsmall (htype ▸ hclass)).imp
        fun a k' ha => Or.inr ha
  | none =>
    simp only [meets_bind]
    refine (allocpageref_spec k).imp ?_
    rintro (_ | pr) k₁ hpr
    · subst hpr
      exact (splx_return_spec hk spl 0).imp fun _ k' hk' => Or.inl hk'
    · obtain ⟨hlt, hclear, words, rfl, hbits⟩ := hpr
      have hnot : pr ∉ g.all := fun hpr =>
        absurd ((hk.inuse pr hlt).mpr hpr) (by rw [hclear]; decide)
      refine freshPage_spec (k := { k with heap := { k.heap with pagerefsInuse := words } })
        (hk.heap.setInuse words) hnot hlt (fun p hp => ?_) hk.used hk.pages ht spl hsmall hclass
      rw [hbits p, ← hk.inuse p hp]
      by_cases hpp : p = pr
      · simp only [hpp, if_true, true_or]
      · simp only [hpp, if_false, false_or]

/-- The block of a request. A request whose page count wraps to zero gets no block. -/
theorem kmalloc_spec (hk : KernInv base k live rest) {sz : ℕ} (hsz : sz < 4294967296) :
    Meets (kmalloc sz)
      (fun a k' => (a = 0 ∧ KernInv base k' live rest) ∨
        (a ≠ 0 ∧ KernInv base k' (⟨a, sz⟩ :: live) rest))
      (fun _ _ => False) k := by
  rw [kmalloc, meets_ite]
  refine ⟨fun hbig => ?_, fun hsmall => subpageKmalloc_spec hk (by omega)⟩
  obtain ⟨g, hk⟩ := hk
  refine (onVm_spec (allocKpages_spec hk.pages _)).imp ?_
  rintro a _ ⟨vm', rfl, ⟨rfl, -, hpages⟩ | ⟨hne, hpages⟩⟩
  · exact Or.inl ⟨rfl, g, { hk with pages := hpages }⟩
  · have hrun : PageRun.mk a (u32 (u32 (sz + pageSize - 1) / pageSize : ℕ)) = KBlock.run ⟨a, sz⟩ := by
      have hpos : 0 < u32 (u32 (sz + pageSize - 1) / pageSize : ℕ) :=
        (hpages.run_range List.mem_cons_self).1
      simp only [KBlock.run, PageRun.mk.injEq, true_and]
      unfold u32 pageSize at *
      omega
    rw [hrun] at hpages
    have hnot : ¬ KBlock.Small ⟨a, sz⟩ := Nat.not_lt.mpr hbig
    refine Or.inr ⟨hne, g, { hk with heap := (HeapInv.cons_big hnot).mpr hk.heap, pages := ?_ }⟩
    rw [bigRuns_cons_big hnot]
    exact hpages.perm List.perm_middle.symm

/-! ## Release -/

/-- A page whose blocks are all free leaves the lists and goes back to the page allocator. -/
theorem releasePage_spec (hi : HeapInv k.heap k.mem g live)
    (hinuse : ∀ pr < npagerefs, k.heap.inuse pr = true ↔ pr ∈ g.all) {pr : ℕ} (hpr : pr ∈ g.all)
    (hused : ∀ p ∈ g.all, p ≠ pr → g.Used k.heap p)
    (hfull : (g.free pr).length = pageSize / blockSize (k.heap.prBlocktype pr))
    (hpages : CoremapInv base k.vm (g.runs k.heap ++ (bigRuns live ++ rest))) :
    Meets (releasePage pr (k.heap.prPageaddr pr) (k.heap.prBlocktype pr))
      (fun _ k' => KernShape base k' (g.dropPage pr (k.heap.prBlocktype pr)) live rest)
      (fun _ _ => False) k := by
  have hlt := hi.allLt pr hpr
  have hi' := hi.drop hpr hfull
  simp only [releasePage, removeLists, modifyHeap, meets_bind, meets_require, meets_modify]
  refine ⟨(hi.page pr hpr).type, ?_⟩
  have hperm : (g.runs k.heap ++ (bigRuns live ++ rest)).Perm
      (⟨k.heap.prPageaddr pr, 1⟩ :: ((g.dropPage pr (k.heap.prBlocktype pr)).runs k.heap ++
        (bigRuns live ++ rest))) :=
    ((List.perm_cons_erase hpr).map _).append_right _
  refine (onVm_spec (k := { k with heap := k.heap.dropPage pr (k.heap.prBlocktype pr) })
    (freeKpages_spec (hpages.perm hperm))).imp ?_
  rintro _ _ ⟨vm', rfl, hpages'⟩
  refine (freepageref_spec (k := { k with
    vm := vm', heap := k.heap.dropPage pr (k.heap.prBlocktype pr) }) hlt
    ((hinuse pr hlt).mpr hpr)).imp ?_
  rintro _ _ ⟨words, rfl, hbits⟩
  refine ⟨hi'.setInuse words, fun p hp => ?_, fun p hp => ?_, hpages'⟩
  · rw [hbits p]
    simp only [HeapShape.dropPage, hi.allNodup.mem_erase_iff]
    by_cases hpp : p = pr
    · simp only [hpp, if_true, Bool.false_eq_true, ne_eq, not_true, false_and]
    · rw [if_neg hpp]
      exact (hinuse p hp).trans (and_iff_right hpp).symm
  · obtain ⟨hpp, hp'⟩ := hi.allNodup.mem_erase_iff.mp hp
    exact hused p hp' hpp

/-- The block goes to the head of the free list of its page. -/
theorem pushFree_spec {b : KBlock} (hi : HeapInv k.heap k.mem g (b :: live)) {pr : ℕ}
    (hpr : pr ∈ g.all) (hb : k.heap.IsBlock pr b.addr) (hsmall : b.Small) :
    Meets (pushFree pr (b.addr - k.heap.prPageaddr pr))
      (fun _ k' => k'.vm = k.vm ∧ k'.heap.pageaddrAndBlocktype = k.heap.pageaddrAndBlocktype ∧
        k'.heap.pagerefsInuse = k.heap.pagerefsInuse ∧ HeapInv k'.heap k'.mem
          { g with free := Function.update g.free pr (b.addr :: g.free pr) } live)
      (fun _ _ => False) k := by
  have hpage := hi.page pr hpr
  have hrange := hb.range hpage.type
  have hsize := (blockSize_bounds hpage.type).1
  have haddr : k.heap.prPageaddr pr + (b.addr - k.heap.prPageaddr pr) = b.addr :=
    Nat.add_sub_of_le hrange.1
  have hframe : ∀ v x, x < b.addr ∨ b.addr + blockSize (k.heap.prBlocktype pr) ≤ x →
      Function.update k.mem b.addr v x = k.mem x :=
    fun v x hx => Function.update_of_ne (by omega) _ _
  simp only [pushFree, store, modifyHeap, meets_bind, meets_get, meets_ite, meets_modify, haddr]
  refine ⟨fun hnone => ⟨trivial, trivial, trivial, ?_⟩, fun hsome => ⟨trivial, trivial, trivial, ?_⟩⟩
  · refine hi.give hpr hb hsmall (hframe 0) ?_
    rw [nextFree, Function.update_self, if_pos rfl, Kheap.freeHead, if_pos hnone]
  · refine hi.give hpr hb hsmall (hframe _) ?_
    have hlow := hpage.low
    rw [nextFree, Function.update_self, if_neg (by omega), Kheap.freeHead, if_neg hsome]

/-- The block goes back to its page, and the page to the page allocator if that was its last block
in use. -/
theorem freeBlock_spec {b : KBlock} (hk : KernShape base k g (b :: live) rest) {pr : ℕ}
    (hpr : pr ∈ g.all) (hb : k.heap.IsBlock pr b.addr) (hsmall : b.Small) :
    Meets (freeBlock pr b.addr) (fun _ k' => KernInv base k' live rest) (fun _ _ => False) k := by
  have hpage := hk.heap.page pr hpr
  have hrange := hb.range hpage.type
  have hsize := (blockSize_bounds hpage.type).1
  have hmod := (hb.mod hpage.type).1
  simp only [freeBlock, meets_bind, meets_get, meets_gets, meets_require]
  refine ⟨by omega, (fillDeadbeef_spec _ _).imp ?_⟩
  rintro _ _ ⟨mem, rfl, hmem⟩
  have hi : HeapInv k.heap mem g (b :: live) := hk.heap.setMem fun p hp a ha =>
    hmem a (hk.heap.free_outside hpr hb hsmall hp ha)
  refine (pushFree_spec (k := { k with mem := mem }) hi hpr hb hsmall).imp ?_
  rintro _ k' ⟨hvm, hpab, hwords, hi'⟩
  have hpab' : ∀ p, k'.heap.pageaddrAndBlocktype p = k.heap.pageaddrAndBlocktype p := congrFun hpab
  have htype := Kheap.prBlocktype_congr (hpab' pr)
  have hinuse : ∀ p < npagerefs, k'.heap.inuse p = true ↔ p ∈ g.all := fun p hp => by
    rw [Kheap.inuse, hwords]
    exact hk.inuse p hp
  have hpages : CoremapInv base k'.vm (g.runs k'.heap ++ (bigRuns live ++ rest)) := by
    rw [hvm, HeapShape.runs_congr fun p _ => hpab' p, ← bigRuns_cons_small hsmall]
    exact hk.pages
  have hused : ∀ p ∈ g.all, p ≠ pr → HeapShape.Used
      { g with free := Function.update g.free pr (b.addr :: g.free pr) } k'.heap p := by
    intro p hp hpp
    rw [HeapShape.Used, Kheap.prBlocktype_congr (hpab' p)]
    simp only [Function.update_of_ne hpp]
    exact hk.used p hp
  have hlen := hi'.length_free hpr
  have hcount := (hi'.page pr hpr).count
  rw [← hcount, htype] at hlen
  refine ⟨hlen, ?_⟩
  rw [meets_ite]
  refine ⟨fun hfull => ?_, fun hpart => ?_⟩
  · have hrel := releasePage_spec hi' hinuse hpr hused (by rw [← hcount, htype, hfull]) hpages
    rw [Kheap.prPageaddr_congr (hpab' pr), htype] at hrel
    exact hrel.imp fun _ k'' hk'' => ⟨_, hk''⟩
  · refine ⟨_, hi', hinuse, fun p hp => ?_, hpages⟩
    by_cases hpp : p = pr
    · subst hpp
      rw [HeapShape.Used, ← hcount, htype]
      exact Nat.lt_of_le_of_ne hlen hpart
    · exact hused p hp hpp

/-- The test by which the search finds the page of an address. -/
theorem HeapInv.hit_iff {h : Kheap} {mem : ℕ → ℕ} (hi : HeapInv h mem g live) {pr : ℕ}
    (hpr : pr ∈ g.all) (ptr : ℕ) :
    ptr ≥ h.prPageaddr pr ∧ ptr < u32 (h.prPageaddr pr + pageSize) ↔
      h.prPageaddr pr ≤ ptr ∧ ptr < h.prPageaddr pr + pageSize := by
  have hhigh := (hi.page pr hpr).high
  have hword : u32 (h.prPageaddr pr + pageSize) = h.prPageaddr pr + pageSize := by
    unfold u32 pageSize kseg0 at *
    omega
  rw [hword]

/-- The search of `subpage_kfree` finds the page that holds the address. -/
theorem findPageOf_spec (hk : KernShape base k g live rest) (ptr : ℕ) :
    Meets (findPageOf ptr) (fun r k' => k' = k ∧ match r with
      | none => ∀ pr ∈ g.all, ptr < k.heap.prPageaddr pr ∨ k.heap.prPageaddr pr + pageSize ≤ ptr
      | some pr => pr ∈ g.all ∧ k.heap.prPageaddr pr ≤ ptr ∧ ptr < k.heap.prPageaddr pr + pageSize)
      (fun _ _ => False) k := by
  rw [findPageOf, meets_bind, meets_get]
  refine (findPageref_spec hk.heap.allLinked
    (fun p hp => decide_eq_true (hk.heap.page p hp).type) hk.heap.length_all).imp ?_
  rintro r k' ⟨hr, rfl⟩
  refine ⟨rfl, ?_⟩
  cases r with
  | none =>
    intro pr hpr
    have hmiss := List.find?_eq_none.mp hr.symm pr hpr
    rw [decide_eq_true_eq, hk.heap.hit_iff hpr] at hmiss
    omega
  | some pr =>
    have hpr := List.mem_of_find?_eq_some hr.symm
    have hhit := List.find?_some hr.symm
    rw [decide_eq_true_eq, hk.heap.hit_iff hpr] at hhit
    exact ⟨hpr, hhit⟩

theorem mem_bigRuns {b : KBlock} (hb : b ∈ live) (hbig : ¬ b.Small) : b.run ∈ bigRuns live :=
  List.mem_map_of_mem (List.mem_filter.mpr ⟨hb, decide_eq_true hbig⟩)

/-- The pages of a whole-page block are an allocation of the coremap. -/
theorem run_mem {b : KBlock} (hb : b ∈ live) (hbig : ¬ b.Small) (runs rest : List PageRun) :
    b.run ∈ runs ++ (bigRuns live ++ rest) :=
  List.mem_append_right _ (List.mem_append_left _ (mem_bigRuns hb hbig))

/-- A whole-page block shares no page with the subpage allocator. -/
theorem KernShape.big_outside {b : KBlock} (hk : KernShape base k g (b :: live) rest)
    (hbig : ¬ b.Small) {pr : ℕ} (hpr : pr ∈ g.all) :
    b.addr + pageSize * b.run.npages ≤ k.heap.prPageaddr pr ∨
      k.heap.prPageaddr pr + pageSize ≤ b.addr := by
  have hmem : b.run ∈ bigRuns (b :: live) ++ rest := by
    rw [bigRuns_cons_big hbig]
    exact List.mem_cons_self
  have hapart := (List.pairwise_append.mp hk.pages.pairwise_apart).2.2 _
    (List.mem_map_of_mem hpr) _ hmem
  rw [Nat.mul_one] at hapart
  exact hapart.symm

/-- The search finds the page of a small block. -/
theorem KernShape.findPageOf_small {b : KBlock} (hk : KernShape base k g live rest) (hb : b ∈ live)
    (hsmall : b.Small) :
    ∃ pr ∈ g.all, findPageOf b.addr k = .ok (some pr) k ∧ k.heap.IsBlock pr b.addr ∧
      sizeClass b.sz = some (k.heap.prBlocktype pr) := by
  obtain ⟨pr, hpr, hblock, hclass⟩ := hk.heap.home b hb hsmall
  have hrange := hblock.range (hk.heap.page pr hpr).type
  have hsize := (blockSize_bounds (hk.heap.page pr hpr).type).1
  obtain ⟨_ | p, k', hfind, rfl, hfound⟩ := (findPageOf_spec hk b.addr).exists_ok
  · have := hfound pr hpr
    omega
  · obtain ⟨hp, hlow, hhigh⟩ := hfound
    obtain rfl : p = pr := hk.heap.page_unique hp hpr hlow hhigh hrange.1 (by omega)
    exact ⟨p, hp, hfind, hblock, hclass⟩

/-- The search finds no page for a whole-page block. -/
theorem KernShape.findPageOf_big {b : KBlock} (hk : KernShape base k g (b :: live) rest)
    (hbig : ¬ b.Small) : findPageOf b.addr k = .ok none k := by
  obtain ⟨_ | p, k', hfind, rfl, hfound⟩ := (findPageOf_spec hk b.addr).exists_ok
  · exact hfind
  · have hout := hk.big_outside hbig hfound.1
    have hpos := (hk.pages.run_range (run_mem List.mem_cons_self hbig _ _)).1
    unfold pageSize at *
    omega

/-- `subpage_kfree` takes back a block of the subpage allocator. -/
theorem subpageKfree_small_spec {b : KBlock} (hk : KernInv base k (b :: live) rest)
    (hsmall : b.Small) :
    Meets (subpageKfree b.addr) (fun r k' => r = 0 ∧ KernInv base k' live rest)
      (fun _ _ => False) k := by
  obtain ⟨g, hk⟩ := hk
  rw [subpageKfree, meets_bind]
  refine (splx_kern_spec hk splHigh).imp fun spl k hk => ?_
  obtain ⟨pr, hpr, hfind, hblock, -⟩ := hk.findPageOf_small List.mem_cons_self hsmall
  rw [meets_bind]
  refine Meets.of_eq_ok hfind ?_
  simp only [meets_bind]
  refine (freeBlock_spec hk hpr hblock hsmall).imp ?_
  rintro _ k' ⟨g', hk'⟩
  exact splx_return_spec hk' spl 0

/-- `subpage_kfree` turns a whole-page block down. -/
theorem subpageKfree_big_spec {b : KBlock} (hk : KernInv base k (b :: live) rest)
    (hbig : ¬ b.Small) :
    Meets (subpageKfree b.addr) (fun r k' => r = -1 ∧ KernInv base k' (b :: live) rest)
      (fun _ _ => False) k := by
  obtain ⟨g, hk⟩ := hk
  rw [subpageKfree, meets_bind]
  refine (splx_kern_spec hk splHigh).imp fun spl k hk => ?_
  rw [meets_bind]
  exact Meets.of_eq_ok (hk.findPageOf_big hbig) (splx_return_spec hk spl (-1))

/-- Where a block is: a small one in a page of the subpage allocator, any other in pages of its
own. -/
theorem KernShape.block_range {b : KBlock} (hk : KernShape base k g live rest) (hb : b ∈ live) :
    kseg0 < b.addr ∧ b.addr < 2 * kseg0 := by
  by_cases hsmall : b.Small
  · obtain ⟨pr, hpr, hblock, -⟩ := hk.heap.home b hb hsmall
    have hpage := hk.heap.page pr hpr
    have hrange := hblock.range hpage.type
    have hlow := hpage.low
    have hhigh := hpage.high
    have hsize := (blockSize_bounds hpage.type).1
    omega
  · obtain ⟨hpos, -, hlow, hhigh⟩ := hk.pages.run_range (run_mem hb hsmall _ _)
    simp only [KBlock.run, pageSize] at hpos hlow hhigh
    omega

/-- `kfree` takes back any block. -/
theorem kfree_spec {b : KBlock} (hk : KernInv base k (b :: live) rest) :
    Meets (kfree b.addr) (fun _ k' => KernInv base k' live rest) (fun _ _ => False) k := by
  have hne : b.addr ≠ 0 := by
    obtain ⟨g, hk⟩ := hk
    have := (hk.block_range List.mem_cons_self).1
    omega
  rw [kfree, if_neg hne, meets_bind]
  by_cases hsmall : b.Small
  · refine (subpageKfree_small_spec hk hsmall).imp ?_
    rintro r k' ⟨rfl, hk'⟩
    exact hk'
  · refine (subpageKfree_big_spec hk hsmall).imp ?_
    rintro r k' ⟨rfl, g, hk'⟩
    have hpages := hk'.pages
    rw [bigRuns_cons_big hsmall] at hpages
    replace hpages := hpages.perm List.perm_middle
    have hal := (hpages.run_range List.mem_cons_self).2.1
    simp only [ne_eq, show (-1 : ℤ) ≠ 0 by decide, not_false_eq_true, if_true, meets_bind,
      meets_require]
    refine ⟨hal, (onVm_spec (freeKpages_spec hpages)).imp ?_⟩
    rintro _ _ ⟨vm', rfl, hpages'⟩
    exact ⟨g, { hk' with heap := (HeapInv.cons_big hsmall).mp hk'.heap, pages := hpages' }⟩

/-- `kfree` of a whole-page block writes no memory. -/
theorem kfree_big_spec {b : KBlock} (hk : KernInv base k (b :: live) rest) (hbig : ¬ b.Small) :
    Meets (kfree b.addr) (fun _ k' => KernInv base k' live rest ∧ k'.mem = k.mem)
      (fun _ _ => False) k := by
  have hframe : Meets (kfree b.addr) (fun _ k' => k'.mem = k.mem) (fun _ _ => True) k
      (fun _ => True) := by
    obtain ⟨g, hk⟩ := hk
    have hne : b.addr ≠ 0 := by
      have := (hk.block_range List.mem_cons_self).1
      omega
    rw [kfree, if_neg hne, meets_bind, subpageKfree, meets_bind]
    refine ((splx_kern_spec hk splHigh).partial_of.and_outcome
      (onVm_mem (splx splHigh) k)).mono ?_ fun _ _ hf => hf.1.elim
    rintro spl k₁ ⟨hk₁, hmem₁⟩
    rw [meets_bind]
    refine Meets.of_eq_ok (hk₁.findPageOf_big hbig) ?_
    simp only [meets_bind, meets_pure]
    refine (onVm_mem (splx spl) k₁).mono ?_ fun _ _ _ => trivial
    intro _ k₂ hmem₂
    simp only [ne_eq, show (-1 : ℤ) ≠ 0 by decide, not_false_eq_true, if_true, meets_bind,
      meets_require_partial]
    refine fun _ => (onVm_mem (freeKpages b.addr) k₂).imp fun _ k₃ hmem₃ => ?_
    rw [hmem₃, hmem₂, hmem₁]
  refine (kfree_spec hk).and_run.imp ?_
  rintro _ k' ⟨hk', hrun⟩
  exact ⟨hk', hframe.of_ok hrun⟩

/-- `kfree` of the null pointer does nothing. -/
theorem kfree_null (k : Kern) : kfree 0 k = .ok () k := rfl

/-! ## The blocks callers hold -/

/-- The bytes of a block: its size class, or whole pages. -/
def KBlock.extent (b : KBlock) : ℕ :=
  if b.Small then blockSize ((sizeClass b.sz).getD 0) else pageSize * b.run.npages

/-- What the address of a block is a multiple of. -/
def KBlock.alignment (b : KBlock) : ℕ :=
  if b.Small then blockSize ((sizeClass b.sz).getD 0) else pageSize

/-- The byte at the kernel address `x` lies in a frame that is allocated. -/
def Vm.TakenAt (vm : Vm) (x : ℕ) : Prop :=
  ∃ e ∈ vm.coremap, e.taken = true ∧ e.phyaddr + kseg0 ≤ x ∧ x < e.phyaddr + kseg0 + pageSize

/-- All bytes of a live allocation lie in allocated frames. -/
theorem CoremapInv.takenAt {vm : Vm} {runs : List PageRun} (h : CoremapInv base vm runs)
    {b : PageRun} (hb : b ∈ runs) {x : ℕ} (hlo : b.addr ≤ x)
    (hhi : x < b.addr + pageSize * b.npages) : vm.TakenAt x := by
  obtain ⟨i, haddr, hocc, -⟩ := h.occupies_iff hb
  have hj : Occupies vm b (i + (x - b.addr) / pageSize) := by
    rw [hocc]
    unfold pageSize at *
    omega
  obtain ⟨e, he, -⟩ := id hj
  refine ⟨e, List.mem_of_getElem? he, h.taken_of_occupies hb he hj, ?_⟩
  rw [h.frame _ e he]
  unfold pageSize at *
  omega

/-- Every block lies in a run of pages, the one of its page record if it is small and its own if it
is not. -/
theorem KernShape.exists_run (hk : KernShape base k g live rest) {b : KBlock} (hb : b ∈ live) :
    ∃ r ∈ g.runs k.heap ++ bigRuns live,
      r.addr ≤ b.addr ∧ b.addr + b.extent ≤ r.addr + pageSize * r.npages := by
  by_cases hsmall : b.Small
  · obtain ⟨pr, hpr, hblock, hclass⟩ := hk.heap.home b hb hsmall
    have hrange := hblock.range (hk.heap.page pr hpr).type
    refine ⟨⟨k.heap.prPageaddr pr, 1⟩, List.mem_append_left _ (List.mem_map_of_mem hpr), ?_⟩
    simpa only [KBlock.extent, if_pos hsmall, hclass, Option.getD_some, Nat.mul_one] using hrange
  · refine ⟨b.run, List.mem_append_right _ (mem_bigRuns hb hsmall), le_rfl, ?_⟩
    rw [KBlock.extent, if_neg hsmall]
    rfl

/-- A block is large enough and aligned. -/
theorem KernShape.block_sound (hk : KernShape base k g live rest) {b : KBlock} (hb : b ∈ live) :
    b.sz ≤ b.extent ∧ b.addr % b.alignment = 0 ∧ 16 ≤ b.alignment ∧
      ∃ n, b.alignment = 2 ^ n := by
  by_cases hsmall : b.Small
  · obtain ⟨pr, hpr, hblock, hclass⟩ := hk.heap.home b hb hsmall
    have htype := (hk.heap.page pr hpr).type
    simp only [KBlock.extent, KBlock.alignment, if_pos hsmall, hclass, Option.getD_some]
    exact ⟨(sizeClass_spec hclass).2, (hblock.mod htype).2, (blockSize_bounds htype).1, _,
      blockSize_eq_pow htype⟩
  · obtain ⟨-, hal, -, -⟩ := hk.pages.run_range (run_mem hb hsmall _ _)
    simp only [KBlock.extent, KBlock.alignment, if_neg hsmall]
    refine ⟨?_, hal, by decide, 12, rfl⟩
    simp only [KBlock.run, pageSize]
    omega

/-- The order of the ledgers does not matter. -/
theorem KernShape.perm (hk : KernShape base k g live rest) {live' : List KBlock}
    {rest' : List PageRun} (hlive : live.Perm live') (hrest : rest.Perm rest') :
    KernShape base k g live' rest' :=
  { hk with
    heap := hk.heap.perm hlive
    pages := hk.pages.perm ((((hlive.filter _).map _).append hrest).append_left _) }

/-- A whole-page block does not overlap a small one. -/
theorem KernShape.big_small_apart {b c : KBlock} (hk : KernShape base k g (b :: live) rest)
    (hbig : ¬ b.Small) (hc : c ∈ live) (hsmall : c.Small) :
    b.addr + b.extent ≤ c.addr ∨ c.addr + c.extent ≤ b.addr := by
  obtain ⟨pr, hpr, hblock, hclass⟩ := hk.heap.home c (List.mem_cons_of_mem _ hc) hsmall
  have hrange := hblock.range (hk.heap.page pr hpr).type
  have hout := hk.big_outside hbig hpr
  simp only [KBlock.extent, if_neg hbig, if_pos hsmall, hclass, Option.getD_some]
  omega

/-- Small blocks do not overlap: they are in different pages or different blocks of one. -/
theorem KernShape.small_apart {b c : KBlock} (hk : KernShape base k g (b :: c :: live) rest)
    (hb : b.Small) (hc : c.Small) :
    b.addr + b.extent ≤ c.addr ∨ c.addr + c.extent ≤ b.addr := by
  obtain ⟨pr, hpr, hblock, hclass⟩ := hk.heap.home b List.mem_cons_self hb
  obtain ⟨pr', hpr', hblock', hclass'⟩ :=
    hk.heap.home c (List.mem_cons_of_mem _ List.mem_cons_self) hc
  simp only [KBlock.extent, if_pos hb, if_pos hc, hclass, hclass', Option.getD_some]
  by_cases hpp : pr = pr'
  · subst hpp
    refine hblock.apart hblock' fun heq => ?_
    have honce := hk.heap.once pr hpr b.addr hblock
    rw [heldAt_cons b, heldAt_cons c, if_pos ⟨hc, heq.symm⟩, if_pos ⟨hb, rfl⟩] at honce
    omega
  · have hrange := hblock.range (hk.heap.page pr hpr).type
    have hrange' := hblock'.range (hk.heap.page pr' hpr').type
    have hne : k.heap.prPageaddr pr ≠ k.heap.prPageaddr pr' :=
      fun heq => hpp (hk.heap.apart pr hpr pr' hpr' heq)
    have hal := k.heap.prPageaddr_aligned pr
    have hal' := k.heap.prPageaddr_aligned pr'
    unfold pageSize at *
    omega

/-- Blocks do not overlap. -/
theorem KernShape.blocks_apart (hk : KernShape base k g live rest) :
    live.Pairwise fun b c => b.addr + b.extent ≤ c.addr ∨ c.addr + c.extent ≤ b.addr := by
  refine List.pairwise_iff_forall_sublist.mpr fun {b c} hsub => ?_
  obtain ⟨l, hperm⟩ := hsub.exists_perm_append
  replace hk : KernShape base k g (b :: c :: l) rest := hk.perm hperm (List.Perm.refl _)
  by_cases hb : b.Small <;> by_cases hc : c.Small
  · exact hk.small_apart hb hc
  · exact ((hk.perm (List.Perm.swap c b l) (List.Perm.refl _)).big_small_apart hc
      List.mem_cons_self hb).symm
  · exact hk.big_small_apart hb List.mem_cons_self hc
  · have hruns := hk.pages.pairwise_apart
    rw [bigRuns_cons_big hb, bigRuns_cons_big hc] at hruns
    have hpair := List.rel_of_pairwise_cons (List.pairwise_append.mp hruns).2.1
      (List.mem_cons_self)
    simp only [KBlock.extent, if_neg hb, if_neg hc]
    exact hpair

/-- A block has at least one byte. -/
theorem KernShape.extent_pos (hk : KernShape base k g live rest) {b : KBlock} (hb : b ∈ live) :
    0 < b.extent := by
  by_cases hsmall : b.Small
  · obtain ⟨pr, hpr, -, hclass⟩ := hk.heap.home b hb hsmall
    have hsize := (blockSize_bounds (hk.heap.page pr hpr).type).1
    simp only [KBlock.extent, if_pos hsmall, hclass, Option.getD_some]
    omega
  · have hpos := (hk.pages.run_range (run_mem hb hsmall _ _)).1
    simp only [KBlock.extent, if_neg hsmall, pageSize]
    omega

/-- Blocks have different addresses. -/
theorem KernInv.nodup_addr (hk : KernInv base k live rest) : (live.map KBlock.addr).Nodup := by
  obtain ⟨g, hk⟩ := hk
  refine List.pairwise_map.mpr (hk.blocks_apart.imp_of_mem fun {b c} hb hc hapart => ?_)
  have hposb := hk.extent_pos hb
  have hposc := hk.extent_pos hc
  omega

/-! ## Pages of other users -/

/-- The order of the ledgers does not matter. -/
theorem KernInv.perm (hk : KernInv base k live rest) {live' : List KBlock} {rest' : List PageRun}
    (hlive : live.Perm live') (hrest : rest.Perm rest') : KernInv base k live' rest' := by
  obtain ⟨g, hk⟩ := hk
  exact ⟨g, hk.perm hlive hrest⟩

/-- Pages of other users are different, and no block lies in them. -/
theorem KernShape.rest_apart (hk : KernShape base k g live rest) :
    (rest.Pairwise fun r r' =>
      r.addr + pageSize * r.npages ≤ r'.addr ∨ r'.addr + pageSize * r'.npages ≤ r.addr) ∧
    ∀ r ∈ rest, (∀ b ∈ live, r.addr + pageSize * r.npages ≤ b.addr ∨ b.addr + b.extent ≤ r.addr) ∧
      ∀ pr ∈ g.all, r.addr + pageSize * r.npages ≤ k.heap.prPageaddr pr ∨
        k.heap.prPageaddr pr + pageSize ≤ r.addr := by
  have hapart := hk.pages.pairwise_apart
  rw [← List.append_assoc, List.pairwise_append] at hapart
  obtain ⟨-, hrest, hcross⟩ := hapart
  refine ⟨hrest, fun r hr => ⟨fun b hb => ?_, fun pr hpr => ?_⟩⟩
  · obtain ⟨r', hr', hlo, hhi⟩ := hk.exists_run hb
    have := hcross r' hr' r hr
    omega
  · have := hcross _ (List.mem_append_left _ (List.mem_map_of_mem hpr)) r hr
    simp only [Nat.mul_one] at this
    exact this.symm

/-- `alloc_kpages` for a user other than the heap. -/
theorem allocKpages_kern_spec (hk : KernInv base k live rest) (npages : ℤ) :
    Meets (onVm (allocKpages npages))
      (fun a k' => (a = 0 ∧ KernInv base k' live rest) ∨
        (a ≠ 0 ∧ KernInv base k' live (⟨a, u32 npages⟩ :: rest)))
      (fun _ _ => False) k := by
  obtain ⟨g, hk⟩ := hk
  refine (onVm_spec (allocKpages_spec hk.pages npages)).imp ?_
  rintro a _ ⟨vm', rfl, ⟨rfl, -, hpages⟩ | ⟨hne, hpages⟩⟩
  · exact Or.inl ⟨rfl, g, { hk with pages := hpages }⟩
  · refine Or.inr ⟨hne, g, { hk with pages := hpages.perm ?_ }⟩
    exact List.perm_middle.symm.trans (List.perm_middle.symm.append_left _)

/-- `free_kpages` by a user other than the heap. -/
theorem freeKpages_kern_spec {r : PageRun} (hk : KernInv base k live (r :: rest)) :
    Meets (onVm (freeKpages r.addr)) (fun _ k' => KernInv base k' live rest)
      (fun _ _ => False) k := by
  obtain ⟨g, hk⟩ := hk
  have hpages := hk.pages.perm ((List.perm_middle.append_left _).trans List.perm_middle)
  refine (onVm_spec (freeKpages_spec hpages)).imp ?_
  rintro _ _ ⟨vm', rfl, hpages'⟩
  exact ⟨g, { hk with pages := hpages' }⟩

/-- Other users may write to their pages. -/
theorem KernInv.writeRun (hk : KernInv base k live rest) {r : PageRun} (hr : r ∈ rest)
    {mem : ℕ → ℕ}
    (hmem : ∀ x, x < r.addr ∨ r.addr + pageSize * r.npages ≤ x → mem x = k.mem x) :
    KernInv base { k with mem := mem } live rest := by
  obtain ⟨g, hk⟩ := hk
  refine ⟨g, { hk with heap := hk.heap.setMem fun p hp a ha => hmem a ?_ }⟩
  have hra := (hk.heap.page p hp).mem_range ha
  have hapart := (List.pairwise_append.mp hk.pages.pairwise_apart).2.2 _
    (List.mem_map_of_mem hp) _ (List.mem_append_right _ hr)
  rw [Nat.mul_one] at hapart
  rcases hapart with hbelow | habove
  · exact Or.inl (hra.2.trans_le hbelow)
  · exact Or.inr (habove.trans hra.1)

/-! ## Runs of the heap -/

/-- A heap that holds no pages yet: all its tables are zero. -/
structure Kheap.Empty (h : Kheap) : Prop where
  allbase : h.allbase = none
  sizebases : ∀ t < nsizes, h.sizebases t = none
  inuse : ∀ i < inuseWords, h.pagerefsInuse i = 0

/-- Kernel memory with an empty heap over a fresh coremap. -/
theorem Kheap.Empty.inv (hempty : k.heap.Empty) (hpages : CoremapInv base k.vm rest) :
    KernInv base k [] rest := by
  refine ⟨⟨[], fun _ => [], fun _ => []⟩, ?_, fun pr hpr => ?_, fun pr hpr => ?_, hpages⟩
  · exact {
      allLinked := hempty.allbase
      allNodup := List.nodup_nil
      allLt := fun pr hpr => absurd hpr List.not_mem_nil
      sizeLinked := hempty.sizebases
      sizeNodup := fun _ _ => List.nodup_nil
      sizeMem := fun t _ pr => by simp only [List.not_mem_nil, false_and]
      page := fun pr hpr => absurd hpr List.not_mem_nil
      apart := fun pr hpr => absurd hpr List.not_mem_nil
      home := fun b hb => absurd hb List.not_mem_nil
      once := fun pr hpr => absurd hpr List.not_mem_nil }
  · rw [Kheap.inuse, hempty.inuse (pr / 32) (by unfold npagerefs inuseWords at *; omega)]
    simp
  · exact absurd hpr List.not_mem_nil

/-- Callers may write to their blocks. -/
theorem KernShape.write (hk : KernShape base k g live rest) {b : KBlock} (hb : b ∈ live) {x : ℕ}
    (hlo : b.addr ≤ x) (hhi : x < b.addr + b.extent) (v : ℕ) :
    KernShape base { k with mem := Function.update k.mem x v } g live rest := by
  refine { hk with heap := hk.heap.setMem fun p hp a ha => Function.update_of_ne ?_ _ _ }
  have hk' := hk.perm (List.perm_cons_erase hb) (List.Perm.refl _)
  by_cases hsmall : b.Small
  · obtain ⟨pr, hpr, hblock, hclass⟩ := hk.heap.home b hb hsmall
    have hout := hk'.heap.free_outside hpr hblock hsmall hp ha
    simp only [KBlock.extent, if_pos hsmall, hclass, Option.getD_some] at hhi
    omega
  · have hra := (hk.heap.page p hp).mem_range ha
    have hout := hk'.big_outside hsmall hp
    simp only [KBlock.extent, if_neg hsmall] at hhi
    omega

/-- The heap and the blocks its callers hold. -/
structure HeapState where
  kern : Kern
  live : List KBlock

/-- One step of the callers of the heap: any `kmalloc`, a `kfree` of the null pointer or of a block
that is held, or a write to such a block. -/
inductive HeapStep : HeapState → HeapState → Prop where
  | kmalloc {s : HeapState} {sz addr : ℕ} {k' : Kern} (hsz : sz < 2 ^ 32)
      (hcall : Os161.kmalloc sz s.kern = .ok addr k') :
      HeapStep s ⟨k', if addr = 0 then s.live else ⟨addr, sz⟩ :: s.live⟩
  | kfreeNull {s : HeapState} {k' : Kern} (hcall : Os161.kfree 0 s.kern = .ok () k') :
      HeapStep s ⟨k', s.live⟩
  | kfree {s : HeapState} {b : KBlock} {k' : Kern} (hlive : b ∈ s.live)
      (hcall : Os161.kfree b.addr s.kern = .ok () k') : HeapStep s ⟨k', s.live.erase b⟩
  | write {s : HeapState} {b : KBlock} {x v : ℕ} (hlive : b ∈ s.live) (hlo : b.addr ≤ x)
      (hhi : x < b.addr + b.sz) :
      HeapStep s ⟨{ s.kern with mem := Function.update s.kern.mem x v }, s.live⟩

/-- One step keeps the invariant, whatever blocks `others` somebody else holds. -/
theorem HeapStep.inv {s t : HeapState} (hstep : HeapStep s t) (others : List KBlock)
    (h : KernInv base s.kern (others ++ s.live) rest) :
    KernInv base t.kern (others ++ t.live) rest := by
  cases hstep with
  | @kmalloc sz addr k' hsz hcall =>
    rcases (kmalloc_spec h hsz).of_ok hcall with ⟨rfl, hk⟩ | ⟨hne, hk⟩
    · simpa using hk
    · simp only [if_neg hne]
      exact hk.perm List.perm_middle.symm (List.Perm.refl _)
  | kfreeNull hcall =>
    rw [kfree_null] at hcall
    cases hcall
    exact h
  | @kfree b k' hlive hcall =>
    have hperm := ((List.perm_cons_erase hlive).append_left others).trans List.perm_middle
    exact (kfree_spec (h.perm hperm (List.Perm.refl _))).of_ok hcall
  | write hlive hlo hhi =>
    obtain ⟨g, hk⟩ := h
    have hmem := List.mem_append_right others hlive
    have hsz := (hk.block_sound hmem).1
    exact ⟨g, hk.write hmem hlo (by omega) _⟩

/-- A run keeps the invariant. -/
theorem HeapStep.run_inv {s t : HeapState} (hrun : Relation.ReflTransGen HeapStep s t)
    (h : KernInv base s.kern s.live rest) : KernInv base t.kern t.live rest := by
  induction hrun with
  | refl => exact h
  | tail _ hstep ih => exact hstep.inv [] ih

/-- The states of the heap after `vm_bootstrap` and any number of steps of its callers. -/
def HeapState.Reachable (s : HeapState) : Prop :=
  ∃ (vm₀ : Vm) (k₀ : Kern) (old : ℕ → CoremapEntry), RamRange vm₀.firstpaddr vm₀.lastpaddr ∧
    vmBootstrap old vm₀ = .ok () k₀.vm ∧ k₀.heap.Empty ∧
    Relation.ReflTransGen HeapStep ⟨k₀, []⟩ s

/-- The invariant holds in every state of every run. -/
theorem HeapState.Reachable.inv {s : HeapState} (hs : s.Reachable) :
    ∃ base, KernInv base s.kern s.live [] := by
  obtain ⟨vm₀, k₀, old, hram, hboot, hempty, hrun⟩ := hs
  exact ⟨toppagePtr vm₀.firstpaddr vm₀.lastpaddr,
    HeapStep.run_inv hrun (hempty.inv ((vmBootstrap_spec old hram).of_ok hboot))⟩

/-- **The kernel heap is safe.** In every state of every run: a block that a caller holds has at
least the bytes that were asked for, starts at a multiple of its block size, which is a power of two
from 16 up or the page size, and lies in allocated frames; blocks do not overlap; `kmalloc` and
`kfree` return, so none of their assertions fails; and `kfree` finds the page of a small block, and
none for a block of whole pages. -/
theorem kheap_safe {s : HeapState} (hs : s.Reachable) :
    (∀ b ∈ s.live, b.sz ≤ b.extent ∧ b.addr % b.alignment = 0 ∧ 16 ≤ b.alignment ∧
      (∃ n, b.alignment = 2 ^ n) ∧
      ∀ x, b.addr ≤ x → x < b.addr + b.extent → s.kern.vm.TakenAt x) ∧
    (s.live.Pairwise fun b c => b.addr + b.extent ≤ c.addr ∨ c.addr + c.extent ≤ b.addr) ∧
    (∀ sz < 2 ^ 32, ∃ addr k', kmalloc sz s.kern = .ok addr k') ∧
    (∃ k', kfree 0 s.kern = .ok () k') ∧
    ∀ b ∈ s.live, (∃ k', kfree b.addr s.kern = .ok () k') ∧
      (b.Small → ∃ pr k', findPageOf b.addr s.kern = .ok (some pr) k' ∧
        s.kern.heap.prPageaddr pr ≤ b.addr ∧
        b.addr + b.extent ≤ s.kern.heap.prPageaddr pr + pageSize ∧
        sizeClass b.sz = some (s.kern.heap.prBlocktype pr)) ∧
      (¬ b.Small → ∃ k', findPageOf b.addr s.kern = .ok none k') := by
  obtain ⟨base, hinv⟩ := hs.inv
  obtain ⟨g, hk⟩ := id hinv
  refine ⟨fun b hb => ?_, hk.blocks_apart, fun sz hsz => ?_, ⟨_, kfree_null _⟩, fun b hb => ?_⟩
  · obtain ⟨hsz, hal, hsixteen, hpow⟩ := hk.block_sound hb
    obtain ⟨r, hr, hlo, hhi⟩ := hk.exists_run hb
    have hr' : r ∈ g.runs s.kern.heap ++ (bigRuns s.live ++ []) := by rwa [List.append_nil]
    exact ⟨hsz, hal, hsixteen, hpow, fun x h1 h2 => hk.pages.takenAt hr' (by omega) (by omega)⟩
  · obtain ⟨addr, k', hcall, -⟩ := (kmalloc_spec hinv hsz).exists_ok
    exact ⟨addr, k', hcall⟩
  · have hk' := hk.perm (List.perm_cons_erase hb) (List.Perm.refl _)
    obtain ⟨⟨⟩, k', hcall, -⟩ := (kfree_spec ⟨g, hk'⟩).exists_ok
    refine ⟨⟨k', hcall⟩, fun hsmall => ?_, fun hbig => ⟨_, hk'.findPageOf_big hbig⟩⟩
    obtain ⟨pr, hpr, hfind, hblock, hclass⟩ := hk.findPageOf_small hb hsmall
    have hrange := hblock.range (hk.heap.page pr hpr).type
    refine ⟨pr, _, hfind, hrange.1, ?_, hclass⟩
    simpa only [KBlock.extent, if_pos hsmall, hclass, Option.getD_some] using hrange.2

/-- A machine with an empty heap and the four frames of `fivePageVm`. -/
def fourFrameKern : Kern where
  vm := (vmBootstrap (fun _ => default) fivePageVm).stateD fivePageVm
  heap :=
    { nextSamesize := fun _ => none
      nextAll := fun _ => none
      pageaddrAndBlocktype := fun _ => 0
      freelistOffset := fun _ => 0
      nfree := fun _ => 0
      pagerefsInuse := fun _ => 0
      sizebases := fun _ => none
      allbase := none }
  mem := fun _ => 0

/-- `kmalloc`, by its resulting state. -/
def afterKmalloc (sz : ℕ) (s : HeapState) : HeapState :=
  let addr := (kmalloc sz s.kern).valueD 0
  ⟨(kmalloc sz s.kern).stateD s.kern, if addr = 0 then s.live else ⟨addr, sz⟩ :: s.live⟩

/-- Two small blocks that share a page, and one of two pages between them. -/
theorem kheap_safe_fourFrameKern : ∃ s : HeapState, s.Reachable ∧
    s.live = [⟨0x80021000, 1600⟩, ⟨0x80022000, 5000⟩, ⟨0x80021800, 1500⟩] ∧
    s.live.Pairwise fun b c => b.addr + b.extent ≤ c.addr ∨ c.addr + c.extent ≤ b.addr := by
  have hreach : HeapState.Reachable
      (afterKmalloc 1600 (afterKmalloc 5000 (afterKmalloc 1500 ⟨fourFrameKern, []⟩))) :=
    ⟨fivePageVm, fourFrameKern, fun _ => default, ⟨by decide, by decide⟩, rfl,
      ⟨rfl, fun _ _ => rfl, fun _ _ => rfl⟩,
      ((Relation.ReflTransGen.refl.tail
        (.kmalloc (by norm_num) (Outcome.eq_ok _ _ _ (by decide +kernel)))).tail
          (.kmalloc (by norm_num) (Outcome.eq_ok _ _ _ (by decide +kernel)))).tail
            (.kmalloc (by norm_num) (Outcome.eq_ok _ _ _ (by decide +kernel)))⟩
  exact ⟨_, hreach, by decide +kernel, (kheap_safe hreach).2.1⟩

end Os161
