import Os161.Lib.KheapSafety

/-!
# What the heap writes

The heap writes memory of its own: the links of a fresh page, the blocks that are released. The
pages that other users of the page allocator hold, and the blocks that other callers of the heap
hold, keep their contents through every call (`HeapStep.frame`).
-/

namespace Os161

open Prog

variable {base : ℕ} {k : Kern} {g : HeapShape} {live : List KBlock} {rest : List PageRun}

/-- The two memories agree on the pages of the allocations `rest`. -/
def SameIn (rest : List PageRun) (mem mem' : ℕ → ℕ) : Prop :=
  ∀ r ∈ rest, ∀ x, r.addr ≤ x → x < r.addr + pageSize * r.npages → mem' x = mem x

theorem SameIn.of_eq {mem mem' : ℕ → ℕ} (h : mem' = mem) : SameIn rest mem mem' :=
  fun _ _ x _ _ => congrFun h x

theorem SameIn.trans {mem mem' mem'' : ℕ → ℕ} (h : SameIn rest mem mem')
    (h' : SameIn rest mem' mem'') : SameIn rest mem mem'' :=
  fun r hr x hlo hhi => (h' r hr x hlo hhi).trans (h r hr x hlo hhi)

/-- A write to a range that shares nothing with the allocations. -/
theorem SameIn.of_writesIn {k k' : Kern} {lo hi : ℕ} (hw : WritesIn k k' lo hi)
    (hout : ∀ r ∈ rest, r.addr + pageSize * r.npages ≤ lo ∨ hi ≤ r.addr) :
    SameIn rest k.mem k'.mem := by
  obtain ⟨mem, rfl, hmem⟩ := hw
  intro r hr x hlo hhi
  have := hout r hr
  exact hmem x (by omega)

/-! ## Allocation -/

/-- Taking a block off a free list writes nothing. -/
theorem doalloc_mem (k : Kern) (pr spl : ℕ) :
    Meets (doalloc pr spl) (fun _ k' => k'.mem = k.mem) (fun _ _ => False) k (fun _ => True) := by
  simp only [doalloc, modifyHeap, onVm, splx, meets_bind, meets_get, meets_modify, meets_ite,
    meets_require_partial, meets_zoom, meets_gets, meets_pure, implies_true, and_self]

theorem freepageref_mem (k : Kern) (p : ℕ) :
    Meets (freepageref p) (fun _ k' => k'.mem = k.mem) (fun _ _ => False) k (fun _ => True) := by
  simp only [freepageref, modifyHeap, meets_bind, meets_get, meets_modify, meets_require_partial,
    implies_true]

/-- The searches over page records change nothing. -/
theorem findPageref_same (next : Kheap → ℕ → Option ℕ) (check hit : Kheap → ℕ → Bool) (msg : String)
    (k : Kern) (fuel : ℕ) (pr : Option ℕ) :
    Meets (findPageref next check hit msg fuel pr) (fun _ k' => k' = k) (fun _ _ => False) k
      (fun _ => True) := by
  induction fuel generalizing pr with
  | zero => cases pr <;> trivial
  | succ fuel ih =>
    cases pr with
    | none => rfl
    | some pr =>
      simp only [findPageref, meets_bind, meets_get, meets_require_partial, meets_ite, meets_pure,
        implies_true, true_and]
      exact fun _ _ => ih _

/-- The links of a fresh page are written to that page. -/
theorem freshPage_frame (hpages : CoremapInv base k.vm rest) {t : ℕ} (ht : t < nsizes) (pr spl : ℕ) :
    Meets (freshPage t pr spl) (fun _ k' => SameIn rest k.mem k'.mem) (fun _ _ => True) k
      (fun _ => True) := by
  rw [freshPage, meets_bind]
  refine (onVm_spec (allocKpages_spec hpages 1)).partial_of.noErr ?_
  rintro prpage _ ⟨vm', rfl, ⟨rfl, -⟩ | ⟨hne, hpages'⟩⟩
  · rw [if_pos rfl, meets_bind]
    refine (freepageref_mem _ pr).noErr fun _ k₁ hmem₁ => ?_
    rw [meets_bind]
    exact (onVm_mem (splx spl) k₁).imp fun _ k₂ hmem₂ => .of_eq (hmem₂.trans hmem₁)
  · rw [if_neg hne, meets_bind]
    obtain ⟨hfill, htwo, -⟩ := blocks_fill ht
    have hsize := (blockSize_bounds ht).1
    simp only [addPage, modifyHeap, meets_bind, meets_modify]
    refine (threadFreelist_spec (by omega) (by omega) (by omega)).partial_of.noErr ?_
    rintro _ k₁ ⟨hw, -⟩
    rw [hfill] at hw
    refine (doalloc_mem _ pr spl).noErr fun _ k₂ hmem₂ => ?_
    have hsame : SameIn rest _ k₁.mem := .of_writesIn hw fun r hr => by
      have hapart := List.rel_of_pairwise_cons hpages'.pairwise_apart hr
      simp only [show u32 1 = 1 from u32_of_lt (n := 1) (by norm_num), Nat.mul_one] at hapart
      exact hapart.symm
    exact hsame.trans (.of_eq hmem₂)

/-- `kmalloc` writes no page that is in use. -/
theorem kmalloc_frame (hk : KernShape base k g live rest) (sz : ℕ) :
    Meets (kmalloc sz)
      (fun _ k' => SameIn (g.runs k.heap ++ (bigRuns live ++ rest)) k.mem k'.mem)
      (fun _ _ => True) k (fun _ => True) := by
  rw [kmalloc, meets_ite]
  refine ⟨fun _ => (onVm_mem _ k).imp fun _ k' => .of_eq, fun _ => ?_⟩
  rw [subpageKmalloc, meets_bind, blocktype]
  split
  case h_2 => trivial
  case h_1 t hclass =>
    have ht := (sizeClass_spec hclass).1
    have hsplx : Meets (onVm (splx splHigh)) (fun _ k' => KernShape base k' g live rest ∧
        k'.mem = k.mem ∧ k'.heap = k.heap) (fun _ _ => False) k := by
      simp only [onVm, splx, meets_zoom, meets_bind, meets_gets, meets_modify, meets_pure]
      exact ⟨{ hk with pages := hk.pages.setSpl splHigh }, trivial, trivial⟩
    rw [meets_pure, meets_bind]
    refine hsplx.partial_of.noErr ?_
    rintro spl k₁ ⟨hk₁, hmem₁, hheap₁⟩
    rw [meets_bind, meets_get, meets_bind]
    refine (findPageref_same _ _ _ _ k₁ _ _).noErr fun r k₂ hk₂ => ?_
    subst hk₂
    cases r with
    | some pr => exact (doalloc_mem _ pr spl).noErr fun _ k₂ hmem₂ => .of_eq (hmem₂.trans hmem₁)
    | none =>
      simp only [meets_bind]
      refine (allocpageref_spec _).partial_of.noErr ?_
      rintro (_ | pr) k₃ hpr
      · subst hpr
        show Meets (onVm (splx spl) >>= fun _ => Pure.pure 0) _ _ _ _
        rw [meets_bind]
        exact (onVm_mem (splx spl) _).imp fun _ k₃ hmem₃ => .of_eq (hmem₃.trans hmem₁)
      · obtain ⟨-, -, words, rfl, -⟩ := hpr
        refine (freshPage_frame (k := { k₂ with heap := { k₂.heap with pagerefsInuse := words } })
          hk₁.pages ht pr spl).imp fun _ k₃ hsame => ?_
        rw [hheap₁, hmem₁] at hsame
        exact hsame

/-! ## Release -/

/-- Giving back a page writes nothing. -/
theorem releasePage_mem (k : Kern) (pr prpage t : ℕ) :
    Meets (releasePage pr prpage t) (fun _ k' => k'.mem = k.mem) (fun _ _ => True) k
      (fun _ => True) := by
  simp only [releasePage, removeLists, modifyHeap, meets_bind, meets_require_partial, meets_modify]
  intro _
  refine (onVm_mem _ _).imp fun _ k₁ hmem₁ => ?_
  exact (freepageref_mem k₁ pr).noErr fun _ k₂ hmem₂ => hmem₂.trans hmem₁

/-- The two memories agree outside the block. -/
def SameOutside (b : KBlock) (mem mem' : ℕ → ℕ) : Prop :=
  ∀ x, x < b.addr ∨ b.addr + b.extent ≤ x → mem' x = mem x

/-- Releasing a block writes the block. -/
theorem freeBlock_frame {b : KBlock} (hk : KernShape base k g (b :: live) rest) {pr : ℕ}
    (hpr : pr ∈ g.all) (hb : k.heap.IsBlock pr b.addr) (hsmall : b.Small)
    (hclass : sizeClass b.sz = some (k.heap.prBlocktype pr)) :
    Meets (freeBlock pr b.addr) (fun _ k' => SameOutside b k.mem k'.mem) (fun _ _ => True) k
      (fun _ => True) := by
  have hpage := hk.heap.page pr hpr
  have hrange := hb.range hpage.type
  have hsize := (blockSize_bounds hpage.type).1
  have haddr : k.heap.prPageaddr pr + (b.addr - k.heap.prPageaddr pr) = b.addr :=
    Nat.add_sub_of_le hrange.1
  have hextent : b.extent = blockSize (k.heap.prBlocktype pr) := by
    simp only [KBlock.extent, if_pos hsmall, hclass, Option.getD_some]
  simp only [freeBlock, meets_bind, meets_get, meets_gets, meets_require_partial]
  intro _
  refine (fillDeadbeef_spec b.addr _).partial_of.noErr ?_
  intro _ k₁ hw
  have hheap : k₁.heap = k.heap := by
    obtain ⟨mem, rfl, -⟩ := hw
    rfl
  simp only [pushFree, store, modifyHeap, meets_bind, meets_get, meets_ite, meets_modify,
    meets_pure, hheap, haddr]
  have hsame : ∀ v, SameOutside b k.mem (Function.update k₁.mem b.addr v) := by
    intro v x hx
    obtain ⟨mem, heq, hmem⟩ := hw.store le_rfl (by omega) v
    exact (congrFun (congrArg Kern.mem heq) x).trans (hmem x (hextent ▸ hx))
  refine ⟨fun _ _ => ⟨fun _ => ?_, fun _ => hsame _⟩, fun _ _ => ⟨fun _ => ?_, fun _ => hsame _⟩⟩
  · exact (releasePage_mem _ pr _ _).imp fun _ k₂ hmem₂ => hmem₂ ▸ hsame _
  · exact (releasePage_mem _ pr _ _).imp fun _ k₂ hmem₂ => hmem₂ ▸ hsame _

/-- `kfree` writes nothing but the block. -/
theorem kfree_frame {b : KBlock} (hk : KernInv base k (b :: live) rest) :
    Meets (kfree b.addr) (fun _ k' => SameOutside b k.mem k'.mem) (fun _ _ => True) k
      (fun _ => True) := by
  by_cases hsmall : b.Small
  · obtain ⟨g, hk⟩ := hk
    have hne : b.addr ≠ 0 := by
      have := (hk.block_range List.mem_cons_self).1
      omega
    rw [kfree, if_neg hne, meets_bind, subpageKfree, meets_bind]
    refine ((splx_kern_spec hk splHigh).partial_of.and_outcome
      (onVm_mem (splx splHigh) k)).mono ?_ fun _ _ hf => hf.1.elim
    rintro spl k₁ ⟨hk₁, hmem₁⟩
    obtain ⟨pr, hpr, hfind, hblock, hclass⟩ := hk₁.findPageOf_small List.mem_cons_self hsmall
    rw [meets_bind]
    refine Meets.of_eq_ok hfind ?_
    simp only [meets_bind, meets_pure, ne_eq, not_true_eq_false, if_false]
    refine (freeBlock_frame hk₁ hpr hblock hsmall hclass).imp fun _ k₂ hsame => ?_
    refine (onVm_mem (splx spl) k₂).imp fun _ k₃ hmem₃ => ?_
    rw [hmem₃, ← hmem₁]
    exact hsame
  · exact (kfree_big_spec hk hsmall).partial_of.noErr fun _ k' hk' x _ => congrFun hk'.2 x

/-- What a step of the callers of the heap writes, when somebody else holds the blocks `others` and
the pages `rest`: nothing in these. -/
theorem HeapStep.frame {s t : HeapState} (hstep : HeapStep s t) {others : List KBlock}
    (h : KernInv base s.kern (others ++ s.live) rest) :
    SameIn rest s.kern.mem t.kern.mem ∧ ∀ b ∈ others, ∀ x, b.addr ≤ x → x < b.addr + b.sz →
      t.kern.mem x = s.kern.mem x := by
  obtain ⟨g, hk⟩ := h
  -- a write that stays within a block of `s.live`
  have hwrite : ∀ b ∈ s.live, SameOutside b s.kern.mem t.kern.mem →
      SameIn rest s.kern.mem t.kern.mem ∧ ∀ c ∈ others, ∀ x, c.addr ≤ x → x < c.addr + c.sz →
        t.kern.mem x = s.kern.mem x := by
    intro b hb hsame
    refine ⟨fun r hr x hlo hhi => hsame x ?_, fun c hc x hlo hhi => hsame x ?_⟩
    · have hapart := (hk.rest_apart.2 r hr).1 b (List.mem_append_right _ hb)
      omega
    · have hapart := (List.pairwise_append.mp hk.blocks_apart).2.2 c hc b hb
      have hsz := (hk.block_sound (List.mem_append_left _ hc)).1
      omega
  cases hstep with
  | kmalloc hsz hcall =>
    have hsame := (kmalloc_frame hk _).of_ok hcall
    refine ⟨fun r hr => hsame r (List.mem_append_right _ (List.mem_append_right _ hr)), ?_⟩
    intro b hb x hlo hhi
    obtain ⟨r, hr, hrlo, hrhi⟩ := hk.exists_run (List.mem_append_left _ hb)
    have hsz := (hk.block_sound (List.mem_append_left _ hb)).1
    refine hsame r ?_ x (by omega) (by omega)
    rw [← List.append_assoc]
    exact List.mem_append_left _ hr
  | kfreeNull hcall =>
    rw [kfree_null] at hcall
    cases hcall
    exact ⟨.of_eq rfl, fun _ _ _ _ _ => rfl⟩
  | @kfree b k' hlive hcall =>
    have hperm := ((List.perm_cons_erase hlive).append_left others).trans List.perm_middle
    exact hwrite b hlive ((kfree_frame ⟨g, hk.perm hperm (List.Perm.refl _)⟩).of_ok hcall)
  | @write b x v hlive hlo hhi =>
    have hsz := (hk.block_sound (List.mem_append_right _ hlive)).1
    exact hwrite b hlive fun y hy => Function.update_of_ne (by omega) _ _

end Os161
