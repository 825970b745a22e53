import Os161.Lib.KheapSafety

/-!
# The heap returns everything

The tables of the heap and the coremap are determined by the blocks that callers hold: a page
belongs to the subpage allocator while a block in it is held, a page record is marked while it is on
the lists, and a frame is taken while a block lies in it. A request that gets no block changes
nothing, not even when it had taken a page record before it ran out of pages. So the heap holds no
page for callers that have returned their blocks.
-/

namespace Os161

open Prog Chain

variable {base : ℕ} {k : Kern} {g : HeapShape} {live : List KBlock} {rest : List PageRun}

/-! ## Requests that fail -/

/-- The marks of the page records determine the words that hold them. -/
theorem pagerefsInuse_ext (h h' : Kheap) (hbits : ∀ p, h'.inuse p = h.inuse p) :
    h'.pagerefsInuse = h.pagerefsInuse := by
  funext i
  refine BitVec.eq_of_getLsbD_eq fun l hl => ?_
  have hbit := hbits (i * 32 + l)
  rwa [Kheap.inuse, Kheap.inuse, show (i * 32 + l) / 32 = i by omega,
    show (i * 32 + l) % 32 = l by omega] at hbit

/-- The block `doalloc` returns is in the page. -/
theorem doalloc_ge (k : Kern) (pr spl : ℕ) :
    Meets (doalloc pr spl) (fun a _ => k.heap.prPageaddr pr ≤ a) (fun _ _ => True) k
      (fun _ => True) := by
  simp only [doalloc, modifyHeap, onVm, splx, meets_bind, meets_get, meets_modify, meets_ite,
    meets_require_partial, meets_zoom, meets_gets, meets_pure, Nat.le_add_right, implies_true,
    and_self]

/-- The tables of the heap and the coremap are those of `k`. -/
def TablesKept (k k' : Kern) : Prop := k'.heap = k.heap ∧ k'.vm.coremap = k.vm.coremap

/-- Restoring the interrupt level changes no table. -/
theorem splx_tables (k : Kern) (spl : ℕ) :
    Meets (onVm (splx spl)) (fun _ k' => TablesKept k k') (fun _ _ => False) k := by
  simp only [onVm, splx, meets_zoom, meets_bind, meets_gets, meets_modify, meets_pure]
  exact ⟨rfl, rfl⟩

/-- When there is no page for the record `pr`, which was unmarked in `k₀`, its mark is taken
back. -/
theorem freshPage_failed {k₀ : Kern} (hpages : CoremapInv base k.vm rest) {t pr : ℕ}
    (ht : t < nsizes) (hlt : pr < npagerefs) (hclear : k₀.heap.inuse pr = false)
    (hset : SetsInuse k₀ k pr true) (spl : ℕ) :
    Meets (freshPage t pr spl) (fun a k' => a = 0 → TablesKept k₀ k') (fun _ _ => True) k
      (fun _ => True) := by
  obtain ⟨words, rfl, hbits⟩ := hset
  rw [freshPage, meets_bind]
  refine (onVm_spec (allocKpages_spec hpages 1)).partial_of.noErr ?_
  rintro prpage _ ⟨vm', rfl, ⟨rfl, hsame, -⟩ | ⟨hne, hpages'⟩⟩
  · rw [if_pos rfl, meets_bind]
    have huse : ({ k₀.heap with pagerefsInuse := words } : Kheap).inuse pr = true := by
      rw [hbits pr, if_pos rfl]
    refine (freepageref_spec (k := { k₀ with
      vm := vm', heap := { k₀.heap with pagerefsInuse := words } }) hlt huse).partial_of.noErr ?_
    rintro _ _ ⟨words', rfl, hbits'⟩
    rw [meets_bind]
    refine (splx_tables _ spl).partial_of.noErr ?_
    rintro _ k' ⟨hheap, hcoremap⟩ -
    refine ⟨hheap.trans ?_, hcoremap.trans hsame⟩
    have hwords : words' = k₀.heap.pagerefsInuse := by
      refine pagerefsInuse_ext k₀.heap { k₀.heap with pagerefsInuse := words' } fun p => ?_
      rw [hbits' p]
      by_cases hp : p = pr
      · rw [if_pos hp, hp, hclear]
      · rw [if_neg hp]
        exact (hbits p).trans (if_neg hp)
    rw [hwords]
  · obtain ⟨-, hal, hlow, -⟩ := hpages'.run_range List.mem_cons_self
    have hsize := (blockSize_bounds ht).1
    have htwo := (blocks_fill ht).2.1
    rw [if_neg hne, meets_bind]
    simp only [addPage, modifyHeap, meets_bind, meets_modify]
    refine (threadFreelist_spec (by omega) (by omega) (by omega)).partial_of.noErr ?_
    rintro _ _ ⟨⟨mem, rfl, -⟩, -⟩
    refine (doalloc_ge _ pr spl).imp fun a k' ha hzero => ?_
    -- the block is in the page, which does not start at zero
    have haddr : (k₀.heap.addPage pr prpage t).prPageaddr pr = prpage :=
      (k₀.heap.addPage_pr pr ht hal).1
    have hpos : prpage ≤ a := haddr.symm.trans_le ha
    unfold kseg0 at hlow
    omega

/-- A request that gets no block leaves all tables as they were. -/
theorem kmalloc_failed (hk : KernShape base k g live rest) (sz : ℕ) :
    Meets (kmalloc sz) (fun a k' => a = 0 → TablesKept k k') (fun _ _ => True) k
      (fun _ => True) := by
  rw [kmalloc, meets_ite]
  refine ⟨fun _ => ?_, fun _ => ?_⟩
  · refine (onVm_spec (allocKpages_spec hk.pages _)).partial_of.noErr ?_
    rintro a _ ⟨vm', rfl, ⟨rfl, hsame, -⟩ | ⟨hne, -⟩⟩ hzero
    · exact ⟨rfl, hsame⟩
    · exact absurd hzero hne
  rw [subpageKmalloc, meets_bind, blocktype]
  split
  case h_2 => trivial
  case h_1 t hclass =>
    have ht := (sizeClass_spec hclass).1
    rw [meets_pure, meets_bind]
    refine ((splx_kern_spec hk splHigh).partial_of.and_outcome
      (splx_tables k splHigh).partial_of).mono ?_ fun _ _ hf => hf.1.elim
    rintro spl k₁ ⟨hk₁, hheap, hcoremap⟩
    have hback : ∀ k', TablesKept k₁ k' → TablesKept k k' := fun k' h =>
      ⟨h.1.trans hheap, h.2.trans hcoremap⟩
    have hsame : ∀ pr ∈ g.bySize t, pr ∈ g.all ∧ k₁.heap.prBlocktype pr = t :=
      fun pr hpr => (hk₁.heap.sizeMem t ht pr).mp hpr
    rw [meets_bind, meets_get, meets_bind]
    refine (findPageref_spec (hk₁.heap.sizeLinked t ht)
      (fun pr hpr => decide_eq_true (hsame pr hpr).2)
      (hk₁.heap.length_bySize ht)).partial_of.noErr ?_
    rintro r k₂ ⟨hr, rfl⟩
    cases r with
    | some pr =>
      have hlow := (hk₁.heap.page pr (hsame pr (List.mem_of_find?_eq_some hr.symm)).1).low
      refine (doalloc_ge _ pr spl).imp fun a k' ha hzero => ?_
      omega
    | none =>
      simp only [meets_bind]
      refine (allocpageref_spec _).partial_of.noErr ?_
      rintro (_ | pr) k₃ hpr
      · subst hpr
        show Meets (onVm (splx spl) >>= fun _ => Pure.pure 0) _ _ _ _
        rw [meets_bind]
        exact (splx_tables _ spl).partial_of.noErr fun _ k' h _ => hback k' h
      · obtain ⟨hlt, hclear, hset⟩ := hpr
        have hvm : k₃.vm = k₂.vm := by
          obtain ⟨words, rfl, -⟩ := hset
          rfl
        exact (freshPage_failed (hvm ▸ hk₁.pages) ht hlt hclear hset spl).imp
          fun a k' h hzero => hback k' (h hzero)

/-! ## Pages and frames in use -/

/-- The frame at the physical address `paddr` and the block have a byte in common. -/
def KBlock.Touches (b : KBlock) (paddr : ℕ) : Prop :=
  b.addr < paddr + kseg0 + pageSize ∧ paddr + kseg0 < b.addr + b.extent

/-- The entry `i` of the coremap is taken. -/
def Vm.Taken (vm : Vm) (i : ℕ) : Prop := ∃ e ∈ vm.coremap[i]?, e.taken = true

instance (vm : Vm) (i : ℕ) : Decidable (vm.Taken i) :=
  inferInstanceAs (Decidable (∃ e ∈ vm.coremap[i]?, e.taken = true))

/-- A page of the subpage allocator has a block that a caller holds. -/
theorem KernShape.exists_block (hk : KernShape base k g live rest) {pr : ℕ} (hpr : pr ∈ g.all) :
    ∃ b ∈ live, b.Small ∧ k.heap.IsBlock pr b.addr := by
  have htype := (hk.heap.page pr hpr).type
  obtain ⟨a, ha, hfree⟩ : ∃ a ∈ k.heap.blocks pr, a ∉ g.free pr := by
    by_contra hnone
    have hall : ∀ a ∈ k.heap.blocks pr, a ∈ g.free pr := fun a ha => by
      by_contra hfree
      exact hnone ⟨a, ha, hfree⟩
    have hle := ((k.heap.nodup_blocks htype).subperm hall).length_le
    rw [Kheap.length_blocks] at hle
    exact absurd (hk.used pr hpr) (Nat.not_lt.mpr hle)
  have hblock := Kheap.mem_blocks.mp ha
  have honce := hk.heap.once pr hpr a hblock
  rw [List.count_eq_zero.mpr hfree, Nat.add_zero] at honce
  obtain ⟨b, hb, hsmall, rfl⟩ : ∃ b ∈ live, b.Small ∧ b.addr = a := by
    have hpos : 0 < heldAt live a := by omega
    simpa only [heldAt, List.countP_pos_iff, decide_eq_true_eq] using hpos
  exact ⟨b, hb, hsmall, hblock⟩

/-- The page of a small block, by its record and by its address. -/
theorem KernShape.pageFrame_eq (hk : KernShape base k g live rest) {pr a : ℕ} (hpr : pr ∈ g.all)
    (hblock : k.heap.IsBlock pr a) : pageFrame a = k.heap.prPageaddr pr := by
  have hrange := hblock.range (hk.heap.page pr hpr).type
  have hsize := (blockSize_bounds (hk.heap.page pr hpr).type).1
  have hal := k.heap.prPageaddr_aligned pr
  unfold pageFrame pageSize at *
  omega

/-- The frames that are taken are those of the blocks that callers hold and those that other users
of the page allocator hold. -/
theorem KernShape.taken_iff (hk : KernShape base k g live rest) {i : ℕ} {e : CoremapEntry}
    (he : k.vm.coremap[i]? = some e) :
    e.taken = true ↔ (∃ b ∈ live, b.Touches e.phyaddr) ∨ ∃ r ∈ rest, r.Covers e.phyaddr := by
  have hphy := hk.pages.frame i e he
  have hbase := hk.pages.aligned
  have hcount := hk.pages.owned i e he
  have htaken : ∀ r ∈ g.runs k.heap ++ (bigRuns live ++ rest), r.Covers e.phyaddr →
      e.taken = true := by
    intro r hr hcov
    by_contra hfree
    rw [if_neg hfree, List.countP_eq_zero] at hcount
    exact hcount r hr (decide_eq_true hcov)
  constructor
  · intro htaken
    rw [htaken, if_pos rfl] at hcount
    obtain ⟨r, hr, hcov⟩ := List.countP_pos_iff.mp (Nat.lt_of_lt_of_eq Nat.one_pos hcount.symm)
    have hcov := of_decide_eq_true hcov
    obtain ⟨hlo, hhi⟩ := hcov
    rcases List.mem_append.mp hr with hr | hr
    · obtain ⟨pr, hpr, rfl⟩ := List.mem_map.mp hr
      obtain ⟨b, hb, hsmall, hblock⟩ := hk.exists_block hpr
      have hrange := hblock.range (hk.heap.page pr hpr).type
      have hsize := (blockSize_bounds (hk.heap.page pr hpr).type).1
      have hpos := hk.extent_pos hb
      have hal := k.heap.prPageaddr_aligned pr
      refine Or.inl ⟨b, hb, ?_⟩
      simp only [Nat.mul_one] at hlo hhi
      unfold KBlock.Touches pageSize kseg0 at *
      omega
    rcases List.mem_append.mp hr with hr | hr
    · obtain ⟨b, hb, rfl⟩ := List.mem_map.mp hr
      obtain ⟨hb, hbig⟩ := List.mem_filter.mp hb
      refine Or.inl ⟨b, hb, ?_⟩
      rw [KBlock.Touches, KBlock.extent, if_neg (of_decide_eq_true hbig)]
      exact ⟨Nat.lt_of_le_of_lt hlo (Nat.lt_add_of_pos_right (by decide)), hhi⟩
    · exact Or.inr ⟨r, hr, hlo, hhi⟩
  · rintro (⟨b, hb, htouch⟩ | ⟨r, hr, hcov⟩)
    · obtain ⟨r, hr, hlo, hhi⟩ := hk.exists_run hb
      have hr' : r ∈ g.runs k.heap ++ (bigRuns live ++ rest) := by
        rw [← List.append_assoc]
        exact List.mem_append_left _ hr
      obtain ⟨-, hal, -, -⟩ := hk.pages.run_range hr'
      refine htaken r hr' ?_
      unfold PageRun.Covers
      unfold KBlock.Touches pageSize kseg0 at *
      omega
    · exact htaken r (List.mem_append_right _ (List.mem_append_right _ hr)) hcov

/-- Blocks and pages that are all held in another state of the same machine lie in frames that are
taken there. -/
theorem KernShape.taken_of_subset {k' : Kern} {g' : HeapShape} {live' : List KBlock}
    {rest' : List PageRun} (hk : KernShape base k g live rest)
    (hk' : KernShape base k' g' live' rest') (hsub : ∀ b ∈ live', b ∈ live)
    (hrest : ∀ r ∈ rest', r ∈ rest) {i : ℕ} (htaken : k'.vm.Taken i) : k.vm.Taken i := by
  obtain ⟨e', he', htaken⟩ := htaken
  have hphy' := hk'.pages.frame i e' he'
  -- some run of the other state covers the frame, so the coremap reaches that far
  have hheld : ((∃ b ∈ live, b.Touches e'.phyaddr) ∨ ∃ r ∈ rest, r.Covers e'.phyaddr) := by
    rcases (hk'.taken_iff he').mp htaken with ⟨b, hb, htouch⟩ | ⟨r, hr, hcov⟩
    · exact Or.inl ⟨b, hsub b hb, htouch⟩
    · exact Or.inr ⟨r, hrest r hr, hcov⟩
  obtain ⟨r, hr, hhi⟩ : ∃ r ∈ g.runs k.heap ++ (bigRuns live ++ rest),
      e'.phyaddr + kseg0 < r.addr + pageSize * r.npages := by
    rcases hheld with ⟨b, hb, htouch⟩ | ⟨r, hr, hcov⟩
    · obtain ⟨r, hr, hlo, hhi⟩ := hk.exists_run hb
      rw [← List.append_assoc]
      exact ⟨r, List.mem_append_left _ hr, lt_of_lt_of_le htouch.2 hhi⟩
    · exact ⟨r, List.mem_append_right _ (List.mem_append_right _ hr), hcov.2⟩
  obtain ⟨-, j, -, haddr, hlen, -⟩ := hk.pages.run r hr
  have hi : i < k.vm.coremap.length := by
    unfold pageSize kseg0 at *
    omega
  have he := List.getElem?_eq_getElem hi
  have hphy := hk.pages.frame i _ he
  rw [hphy', ← hphy] at hheld
  exact ⟨_, he, (hk.taken_iff he).mpr hheld⟩

/-! ## Runs -/

/-- **The heap returns everything.** In every state of every run the page records on `allbase` are
the marked ones, each of them is on the list of its block type and on no other list, and the pages
of the subpage allocator are those in which a caller holds a block; a frame is taken exactly while a
block that a caller holds lies in it; a request that gets no block changes none of these. So when
later every block obtained since has been freed, no frame is taken that was not taken before, and
the frames that are taken are the same as before when the blocks held before are still held. -/
theorem kheap_returns {s : HeapState} (hs : s.Reachable) :
    (∃ all : List ℕ, Linked s.kern.heap.nextAll s.kern.heap.allbase all ∧ all.Nodup ∧
      (∀ pr, pr ∈ all ↔ pr < npagerefs ∧ s.kern.heap.inuse pr = true) ∧
      (∀ pr ∈ all, s.kern.heap.prBlocktype pr < nsizes) ∧
      (∀ t < nsizes, ∃ same : List ℕ,
        Linked s.kern.heap.nextSamesize (s.kern.heap.sizebases t) same ∧ same.Nodup ∧
        ∀ pr, pr ∈ same ↔ pr ∈ all ∧ s.kern.heap.prBlocktype pr = t) ∧
      (all.map s.kern.heap.prPageaddr).Nodup ∧
      ∀ page, (∃ pr ∈ all, s.kern.heap.prPageaddr pr = page) ↔
        ∃ b ∈ s.live, b.Small ∧ pageFrame b.addr = page) ∧
    (∀ (i : ℕ) (e : CoremapEntry), s.kern.vm.coremap[i]? = some e →
      (e.taken = true ↔ ∃ b ∈ s.live, b.Touches e.phyaddr)) ∧
    (∀ sz k', kmalloc sz s.kern = .ok 0 k' →
      k'.heap = s.kern.heap ∧ k'.vm.coremap = s.kern.vm.coremap) ∧
    ∀ t : HeapState, Relation.ReflTransGen HeapStep s t → (∀ b ∈ t.live, b ∈ s.live) →
      (∀ i, t.kern.vm.Taken i → s.kern.vm.Taken i) ∧
      ((∀ b ∈ s.live, b ∈ t.live) → ∀ i, t.kern.vm.Taken i ↔ s.kern.vm.Taken i) := by
  obtain ⟨base, g, hk⟩ := hs.inv
  refine ⟨⟨g.all, hk.heap.allLinked, hk.heap.allNodup, fun pr => ?_,
    fun pr hpr => (hk.heap.page pr hpr).type, fun t ht => ?_, ?_, fun page => ?_⟩,
    fun i e he => (hk.taken_iff he).trans (or_iff_left (by simp)),
    fun sz k' hcall => (kmalloc_failed hk sz).of_ok hcall rfl,
    fun t hrun hsub => ?_⟩
  · constructor
    · intro hpr
      have hlt := hk.heap.allLt pr hpr
      exact ⟨hlt, (hk.inuse pr hlt).mpr hpr⟩
    · rintro ⟨hlt, huse⟩
      exact (hk.inuse pr hlt).mp huse
  · exact ⟨g.bySize t, hk.heap.sizeLinked t ht, hk.heap.sizeNodup t ht, hk.heap.sizeMem t ht⟩
  · exact (List.nodup_map_iff_inj_on hk.heap.allNodup).mpr hk.heap.apart
  · constructor
    · rintro ⟨pr, hpr, rfl⟩
      obtain ⟨b, hb, hsmall, hblock⟩ := hk.exists_block hpr
      exact ⟨b, hb, hsmall, hk.pageFrame_eq hpr hblock⟩
    · rintro ⟨b, hb, hsmall, rfl⟩
      obtain ⟨pr, hpr, hblock, -⟩ := hk.heap.home b hb hsmall
      exact ⟨pr, hpr, (hk.pageFrame_eq hpr hblock).symm⟩
  · obtain ⟨g', hk'⟩ := HeapStep.run_inv hrun ⟨g, hk⟩
    have hnone : ∀ r ∈ ([] : List PageRun), r ∈ ([] : List PageRun) := fun r hr => hr
    refine ⟨fun i => hk.taken_of_subset hk' hsub hnone, fun hsup i => ?_⟩
    exact ⟨hk.taken_of_subset hk' hsub hnone, hk'.taken_of_subset hk hsup hnone⟩

/-- `kfree` of a block, by its resulting state. -/
def afterKfree (b : KBlock) (s : HeapState) : HeapState :=
  ⟨(kfree b.addr s.kern).stateD s.kern, s.live.erase b⟩

/-- The state with one small block, and two more blocks that come and go: the second shares a page
with the first and the third takes two pages of its own. -/
theorem kheap_returns_fourFrameKern : ∃ s t u : HeapState, s.Reachable ∧
    Relation.ReflTransGen HeapStep s t ∧ Relation.ReflTransGen HeapStep t u ∧
    t.kern.vm.Taken 1 ∧ ¬ s.kern.vm.Taken 1 ∧ ∀ i, u.kern.vm.Taken i ↔ s.kern.vm.Taken i := by
  let s := afterKmalloc 1500 ⟨fourFrameKern, []⟩
  let t := afterKmalloc 1600 (afterKmalloc 5000 s)
  let u := afterKfree ⟨0x80021000, 1600⟩ (afterKfree ⟨0x80022000, 5000⟩ t)
  have hs : s.Reachable :=
    ⟨fivePageVm, fourFrameKern, fun _ => default, ⟨by decide, by decide⟩, rfl,
      ⟨rfl, fun _ _ => rfl, fun _ _ => rfl⟩, Relation.ReflTransGen.single
        (.kmalloc (by norm_num) (Outcome.eq_ok _ _ _ (by decide +kernel)))⟩
  have ht : Relation.ReflTransGen HeapStep s t :=
    (Relation.ReflTransGen.single
      (.kmalloc (by norm_num) (Outcome.eq_ok _ _ _ (by decide +kernel)))).tail
        (.kmalloc (by norm_num) (Outcome.eq_ok _ _ _ (by decide +kernel)))
  have hu : Relation.ReflTransGen HeapStep t u :=
    (Relation.ReflTransGen.single
      (.kfree (by decide +kernel) (Outcome.eq_ok _ () _ (by decide +kernel)))).tail
        (.kfree (by decide +kernel) (Outcome.eq_ok _ () _ (by decide +kernel)))
  have hlive : u.live = s.live := by decide +kernel
  have hreturn := (kheap_returns hs).2.2.2 u (ht.trans hu) (fun b hb => hlive ▸ hb)
  exact ⟨s, t, u, hs, ht, hu, by decide +kernel, by decide +kernel,
    hreturn.2 fun b hb => hlive ▸ hb⟩

end Os161
