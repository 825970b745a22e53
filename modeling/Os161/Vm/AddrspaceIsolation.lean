import Os161.Lib.KheapSafety
import Os161.Vm.Addrspace

/-!
# Isolation of address spaces

Every address space owns kernel blocks (its own record and its second-level tables, `asBlocks`) and
frames (those of its valid entries, `asFrames`). `AsInv` says that the blocks of all live address
spaces and those of other callers are what the heap has handed out, and that the frames of all live
address spaces are the pages that other users of the page allocator hold. Nothing more is needed:
the ledgers of the heap and of the coremap count every block and every page once, so what one
address space owns nobody else does (`AsInv.ptr_inj`, `AsInv.isolated`).

Demand paging and copying grow the ledgers by one table (`AsInv.addTable`) or one frame
(`AsInv.addFrame`) at a time; teardown empties them table by table.
-/

namespace Os161

open Prog

variable {base : ℕ} {s : VmSys} {L : List ℕ} {blocks : List KBlock}

/-! ## What an address space owns -/

/-- The block of the second-level table in slot `i`. -/
def tableBlock (s : VmSys) (as i : ℕ) : List KBlock :=
  if (s.spaces as).pagetable2 i = 0 then [] else [⟨(s.spaces as).pagetable2 i, pagetable2Size⟩]

/-- The kernel blocks of an address space. -/
def asBlocks (s : VmSys) (as : ℕ) : List KBlock :=
  ⟨as, addrspaceSize⟩ :: (List.range 512).flatMap (tableBlock s as)

/-- The frame of an entry. -/
def entryFrame (e : Pageentry) : List PageRun :=
  if e.valid = 0 then [] else [⟨e.phyaddr + kseg0, 1⟩]

/-- The frames of a second-level table. -/
def tableFrames (t : Pagetable2) : List PageRun :=
  (List.range 1024).flatMap fun j => entryFrame (t.pageentry j)

/-- The frames under slot `i`. -/
def slotFrames (s : VmSys) (as i : ℕ) : List PageRun :=
  if (s.spaces as).pagetable2 i = 0 then []
  else tableFrames (s.tables ((s.spaces as).pagetable2 i))

/-- The frames of an address space. -/
def asFrames (s : VmSys) (as : ℕ) : List PageRun := (List.range 512).flatMap (slotFrames s as)

/-- The live address spaces are `L`, and other callers of the heap hold `blocks`. -/
def AsInv (base : ℕ) (s : VmSys) (L : List ℕ) (blocks : List KBlock) : Prop :=
  KernInv base s.kern (L.flatMap (asBlocks s) ++ blocks) (L.flatMap (asFrames s))

/-- The address `p` belongs to the address space or one of its tables. -/
theorem mem_asBlocks_table {as i : ℕ} (hi : i < 512) (hp : (s.spaces as).pagetable2 i ≠ 0) :
    ⟨(s.spaces as).pagetable2 i, pagetable2Size⟩ ∈ asBlocks s as := by
  refine List.mem_cons_of_mem _ (List.mem_flatMap.mpr ⟨i, List.mem_range.mpr hi, ?_⟩)
  rw [tableBlock, if_neg hp]
  exact List.mem_singleton.mpr rfl

/-- The frame of a valid entry is a frame of its address space. -/
theorem mem_frames {as i j p : ℕ} (has : as ∈ L) (hi : i < 512)
    (hp : (s.spaces as).pagetable2 i ≠ 0) (hj : j < 1024)
    (hvalid : ((s.tables ((s.spaces as).pagetable2 i)).pageentry j).valid ≠ 0)
    (hphy : ((s.tables ((s.spaces as).pagetable2 i)).pageentry j).phyaddr = p) :
    ⟨p + kseg0, 1⟩ ∈ L.flatMap (asFrames s) := by
  refine List.mem_flatMap.mpr ⟨as, has, List.mem_flatMap.mpr ⟨i, List.mem_range.mpr hi, ?_⟩⟩
  rw [slotFrames, if_neg hp]
  refine List.mem_flatMap.mpr ⟨j, List.mem_range.mpr hj, ?_⟩
  rw [entryFrame, if_neg hvalid, hphy]
  exact List.mem_singleton.mpr rfl

/-- The addresses of all blocks of address spaces are different. -/
theorem AsInv.nodup_addrs (h : AsInv base s L blocks) :
    (L.flatMap fun as => (asBlocks s as).map KBlock.addr).Nodup := by
  have hnd := KernInv.nodup_addr h
  rw [List.map_append, List.map_flatMap] at hnd
  exact hnd.of_append_left

theorem AsInv.nodup (h : AsInv base s L blocks) : L.Nodup := by
  refine (List.nodup_flatMap.mp h.nodup_addrs).2.imp ?_
  rintro as as' hdis rfl
  exact hdis List.mem_cons_self List.mem_cons_self

/-- No two slots of live address spaces share a second-level table. -/
theorem AsInv.ptr_inj (h : AsInv base s L blocks) {as as' i i' : ℕ} (has : as ∈ L) (has' : as' ∈ L)
    (hi : i < 512) (hi' : i' < 512) (hp : (s.spaces as).pagetable2 i ≠ 0)
    (heq : (s.spaces as).pagetable2 i = (s.spaces as').pagetable2 i') : as = as' ∧ i = i' := by
  have hmem : (s.spaces as).pagetable2 i ∈ (asBlocks s as).map KBlock.addr :=
    List.mem_map_of_mem (mem_asBlocks_table hi hp)
  have hmem' : (s.spaces as').pagetable2 i' ∈ (asBlocks s as').map KBlock.addr :=
    List.mem_map_of_mem (mem_asBlocks_table hi' (heq ▸ hp))
  obtain rfl : as = as' := h.nodup_addrs.eq_of_mem_flatMap has has' hmem (heq ▸ hmem')
  refine ⟨rfl, ?_⟩
  have hown := (List.nodup_flatMap.mp h.nodup_addrs).1 as has
  rw [asBlocks, List.map_cons, List.map_flatMap] at hown
  refine (List.nodup_cons.mp hown).2.eq_of_mem_flatMap (x := (s.spaces as).pagetable2 i)
    (List.mem_range.mpr hi) (List.mem_range.mpr hi') ?_ ?_
  · rw [tableBlock, if_neg hp]
    exact List.mem_cons_self
  · rw [tableBlock, if_neg (heq ▸ hp), heq]
    exact List.mem_cons_self

/-! ## Growing an address space -/

/-- The blocks depend on the pointers of the first-level table only. -/
theorem asBlocks_congr {s s' : VmSys} {as : ℕ}
    (hptr : ∀ i < 512, (s'.spaces as).pagetable2 i = (s.spaces as).pagetable2 i) :
    asBlocks s' as = asBlocks s as := by
  refine congrArg (List.cons _) (List.flatMap_congr fun i hi => ?_)
  rw [tableBlock, tableBlock, hptr i (List.mem_range.mp hi)]

/-- A page table with no valid entry has no frames. -/
theorem tableFrames_eq_nil {t : Pagetable2} (ht : ∀ j < 1024, (t.pageentry j).valid = 0) :
    tableFrames t = [] := by
  refine List.flatMap_eq_nil_iff.mpr fun j hj => ?_
  rw [entryFrame, if_pos (ht j (List.mem_range.mp hj))]

/-- A block the heap has just handed out is not one of the tables. -/
theorem ptr_ne_of_fresh {k : Kern} {b : KBlock} {live : List KBlock} {rest : List PageRun}
    (hk : KernInv base k (b :: live) rest) (hlive : ∀ as ∈ L, asBlocks s as ⊆ live) {as i : ℕ}
    (has : as ∈ L) (hi : i < 512) (hb : b.addr ≠ 0) : (s.spaces as).pagetable2 i ≠ b.addr := by
  intro heq
  have hmem := hlive as has (mem_asBlocks_table hi (heq ▸ hb))
  have hnd := hk.nodup_addr
  rw [List.map_cons, List.nodup_cons] at hnd
  exact hnd.1 (heq ▸ List.mem_map_of_mem hmem)

/-- A new, empty table at `p` in an empty slot. -/
theorem AsInv.addTable (h : AsInv base s L blocks) {k : Kern} {as i p : ℕ} (has : as ∈ L)
    (hi : i < 512) (hslot : (s.spaces as).pagetable2 i = 0) (hp : p ≠ 0)
    (hk : KernInv base k (⟨p, pagetable2Size⟩ :: (L.flatMap (asBlocks s) ++ blocks))
      (L.flatMap (asFrames s))) {t : Pagetable2} (ht : ∀ j < 1024, (t.pageentry j).valid = 0) :
    AsInv base { s with
      kern := k
      spaces := Function.update s.spaces as { s.spaces as with
        pagetable2 := Function.update (s.spaces as).pagetable2 i p }
      tables := Function.update s.tables p t } L blocks := by
  generalize hs' : VmSys.mk _ _ _ _ = s'
  have hkern : s'.kern = k := by rw [← hs']
  have htable : ∀ q, q ≠ p → s'.tables q = s.tables q := by
    intro q hq
    rw [← hs']
    exact Function.update_of_ne hq _ _
  have hnew : (s'.spaces as).pagetable2 i = p ∧ s'.tables p = t := by
    rw [← hs']
    simp only [Function.update_self, and_self]
  have hptr : ∀ as' i', ¬ (as' = as ∧ i' = i) →
      (s'.spaces as').pagetable2 i' = (s.spaces as').pagetable2 i' := by
    intro as' i' hne
    rw [← hs']
    by_cases hasas : as' = as
    · subst hasas
      simp only [Function.update_self]
      exact Function.update_of_ne (fun hii => hne ⟨rfl, hii⟩) _ _
    · simp only [Function.update_of_ne hasas]
  have hfresh : ∀ as' ∈ L, ∀ i' < 512, (s.spaces as').pagetable2 i' ≠ p := fun as' has' i' hi' =>
    ptr_ne_of_fresh hk (fun as'' h'' b hb =>
      List.mem_append_left _ (List.mem_flatMap.mpr ⟨as'', h'', hb⟩)) has' hi' hp
  have hblocks : (L.flatMap (asBlocks s')).Perm
      ([⟨p, pagetable2Size⟩] ++ L.flatMap (asBlocks s)) := by
    refine List.flatMap_perm_append h.nodup has ?_ fun as' _ hne => ?_
    · have htables : ((List.range 512).flatMap (tableBlock s' as)).Perm
          ([⟨p, pagetable2Size⟩] ++ (List.range 512).flatMap (tableBlock s as)) := by
        refine List.flatMap_perm_append List.nodup_range (List.mem_range.mpr hi) ?_
          fun i' _ hne => ?_
        · rw [tableBlock, tableBlock, hnew.1, if_neg hp, if_pos hslot]
          exact List.Perm.refl _
        · rw [tableBlock, tableBlock, hptr as i' fun hc => hne hc.2]
      rw [asBlocks, asBlocks]
      exact (htables.cons _).trans List.perm_middle.symm
    · exact asBlocks_congr fun i' _ => hptr as' i' fun hc => hne hc.1
  have hframes : L.flatMap (asFrames s') = L.flatMap (asFrames s) := by
    refine List.flatMap_congr fun as' has' => List.flatMap_congr fun i' hi' => ?_
    rw [slotFrames, slotFrames]
    by_cases hslot' : as' = as ∧ i' = i
    · obtain ⟨rfl, rfl⟩ := hslot'
      rw [hnew.1, hnew.2, if_pos hslot, if_neg hp, tableFrames_eq_nil ht]
    · rw [hptr as' i' hslot', htable _ (hfresh as' has' i' (List.mem_range.mp hi'))]
  rw [AsInv, hkern, hframes]
  exact hk.perm (hblocks.symm.append_right _) (List.Perm.refl _)

/-- A frame at the kernel address `a` for an entry that was not valid. -/
theorem AsInv.addFrame (h : AsInv base s L blocks) {k : Kern} {as i j a : ℕ} (has : as ∈ L)
    (hi : i < 512) (hp : (s.spaces as).pagetable2 i ≠ 0) (hj : j < 1024)
    (hinvalid : ((s.tables ((s.spaces as).pagetable2 i)).pageentry j).valid = 0)
    (hk : KernInv base k (L.flatMap (asBlocks s) ++ blocks)
      (⟨a, 1⟩ :: L.flatMap (asFrames s))) {e : Pageentry} (hvalid : e.valid ≠ 0)
    (hphy : e.phyaddr + kseg0 = a) :
    AsInv base { s with
      kern := k
      tables := Function.update s.tables ((s.spaces as).pagetable2 i)
        ⟨Function.update (s.tables ((s.spaces as).pagetable2 i)).pageentry j e⟩ } L blocks := by
  generalize hs' : VmSys.mk _ _ _ _ = s'
  have hkern : s'.kern = k := by rw [← hs']
  have hspaces : s'.spaces = s.spaces := by rw [← hs']
  have htable : ∀ q, q ≠ (s.spaces as).pagetable2 i → s'.tables q = s.tables q := by
    intro q hq
    rw [← hs']
    exact Function.update_of_ne hq _ _
  have hentry : ∀ j', (s'.tables ((s.spaces as).pagetable2 i)).pageentry j' =
      if j' = j then e else (s.tables ((s.spaces as).pagetable2 i)).pageentry j' := by
    intro j'
    rw [← hs']
    simp only [Function.update_self, Function.update_apply]
  have hblocks : L.flatMap (asBlocks s') = L.flatMap (asBlocks s) :=
    List.flatMap_congr fun as' _ => asBlocks_congr fun i' _ => by rw [hspaces]
  -- only the frames under slot `i` of `as` change, because nobody else uses its table
  have hframes : (L.flatMap (asFrames s')).Perm ([⟨a, 1⟩] ++ L.flatMap (asFrames s)) := by
    have hslot : ∀ as' ∈ L, ∀ i' < 512, ¬ (as' = as ∧ i' = i) →
        slotFrames s' as' i' = slotFrames s as' i' := by
      intro as' has' i' hi' hne
      rw [slotFrames, slotFrames, hspaces]
      split
      · rfl
      case isFalse hp' =>
        rw [htable _ fun heq => hne (h.ptr_inj has' has hi' hi hp' heq)]
    refine List.flatMap_perm_append h.nodup has ?_ fun as' has' hne =>
      List.flatMap_congr fun i' hi' => hslot as' has' i' (List.mem_range.mp hi') fun hc => hne hc.1
    refine List.flatMap_perm_append List.nodup_range (List.mem_range.mpr hi) ?_ fun i' hi' hne =>
      hslot as has i' (List.mem_range.mp hi') fun hc => hne hc.2
    rw [slotFrames, slotFrames, hspaces, if_neg hp, if_neg hp]
    refine List.flatMap_perm_append List.nodup_range (List.mem_range.mpr hj) ?_ fun j' _ hne => ?_
    · rw [entryFrame, entryFrame, hentry j, if_pos rfl, if_neg hvalid, if_pos hinvalid, hphy]
      exact List.Perm.refl _
    · rw [hentry j', if_neg hne]
  rw [AsInv, hkern, hblocks]
  exact hk.perm (List.Perm.refl _) hframes.symm

/-- A new address space without tables. -/
theorem AsInv.addSpace {k : Kern} {as : ℕ}
    (hk : KernInv base k (⟨as, addrspaceSize⟩ :: (L.flatMap (asBlocks s) ++ blocks))
      (L.flatMap (asFrames s))) {sp : Addrspace} (hsp : ∀ i < 512, sp.pagetable2 i = 0) :
    AsInv base { s with kern := k, spaces := Function.update s.spaces as sp } (as :: L) blocks := by
  generalize hs' : VmSys.mk _ _ _ _ = s'
  have hkern : s'.kern = k := by rw [← hs']
  have hnew : s'.spaces as = sp := by rw [← hs']; exact Function.update_self _ _ _
  have htables : s'.tables = s.tables := by rw [← hs']
  have hne : ∀ as' ∈ L, s'.spaces as' = s.spaces as' := by
    intro as' has'
    rw [← hs']
    refine Function.update_of_ne ?_ _ _
    rintro rfl
    have hnd := hk.nodup_addr
    rw [List.map_cons, List.nodup_cons] at hnd
    exact hnd.1 (List.mem_map_of_mem (List.mem_append_left _
      (List.mem_flatMap.mpr ⟨as', has', List.mem_cons_self⟩)))
  have hown : asBlocks s' as = [⟨as, addrspaceSize⟩] := by
    refine congrArg (List.cons _) (List.flatMap_eq_nil_iff.mpr fun i hi => ?_)
    rw [tableBlock, hnew, if_pos (hsp i (List.mem_range.mp hi))]
  have hnone : asFrames s' as = [] := by
    refine List.flatMap_eq_nil_iff.mpr fun i hi => ?_
    rw [slotFrames, hnew, if_pos (hsp i (List.mem_range.mp hi))]
  have hblocks : L.flatMap (asBlocks s') = L.flatMap (asBlocks s) :=
    List.flatMap_congr fun as' has' => asBlocks_congr fun i' _ => by rw [hne as' has']
  have hframes : L.flatMap (asFrames s') = L.flatMap (asFrames s) :=
    List.flatMap_congr fun as' has' => List.flatMap_congr fun i' _ => by
      rw [slotFrames, slotFrames, hne as' has', htables]
  rw [AsInv, hkern, List.flatMap_cons, List.flatMap_cons, hown, hnone, hblocks, hframes]
  exact hk

/-! ## What the operations ask of the page allocator -/

/-- A copy of an entry that is in use takes a page. -/
def entryNeeds (e : Pageentry) : List ℤ := if e.valid = 1 then [1] else []

/-- A copy of slot `i` takes four pages for the table and one for each entry in use. -/
def slotNeeds (s : VmSys) (as i : ℕ) : List ℤ :=
  let p := (s.spaces as).pagetable2 i
  if p = 0 then []
  else 4 :: (List.range 1024).flatMap fun j => entryNeeds ((s.tables p).pageentry j)

/-- The requests of `as_copy`, in order: one page for the address space, then the slots. -/
def copyNeeds (s : VmSys) (as : ℕ) : List ℤ := 1 :: (List.range 512).flatMap (slotNeeds s as)

/-- The requests of `vm_fault` for a page that is not mapped: four pages for the second-level table
if there is none, and one for the page. -/
def faultNeeds (s : VmSys) (as faultaddress : ℕ) : List ℤ :=
  (if (s.spaces as).pagetable2 (faultaddress / 2 ^ 22) = 0 then [4] else []) ++ [1]

/-- The requests for the copies of the first `n + 1` parts of a table or an address space. -/
theorem grants_range_succ {vm vm' vm'' : Vm} {l : List ℤ} {f : ℕ → List ℤ} {n : ℕ}
    (h : vm.grants (l ++ (List.range n).flatMap f) = some vm') (hn : vm'.grants (f n) = some vm'') :
    vm.grants (l ++ (List.range (n + 1)).flatMap f) = some vm'' := by
  rw [List.range_succ, List.flatMap_append, List.flatMap_singleton, ← List.append_assoc,
    grants_append h, hn]

/-! ## Demand paging

The specifications are partial: a failed allocation makes these functions store through a pointer
below the kernel segment, which stops the machine. -/

/-- A call of the heap leaves the address spaces alone. -/
theorem onKern_spec {α : Type} {m : KernM α} {Q : α → Kern → Prop} {H : String → Prop}
    (hm : Meets m Q (fun _ _ => False) s.kern H) :
    Meets (onKern m) (fun a s' => ∃ k', s' = { s with kern := k' } ∧ Q a k')
      (fun _ _ => False) s H := by
  rw [onKern, meets_zoom]
  exact hm.imp fun a k' hQ => ⟨k', rfl, hQ⟩

/-- The interrupt level plays no role. -/
theorem splx_as_spec (h : AsInv base s L blocks) (spl : ℕ) :
    Meets (onKern (onVm (splx spl))) (fun _ s' => AsInv base s' L blocks) (fun _ _ => False) s := by
  obtain ⟨g, hk⟩ := h
  refine (onKern_spec (splx_kern_spec hk spl)).imp ?_
  rintro _ _ ⟨k', rfl, hk'⟩
  exact ⟨g, hk'⟩

/-- The frames of live address spaces may be written. -/
theorem AsInv.writeFrame (h : AsInv base s L blocks) {r : PageRun}
    (hr : r ∈ L.flatMap (asFrames s)) {mem : ℕ → ℕ}
    (hmem : ∀ x, x < r.addr ∨ r.addr + pageSize * r.npages ≤ x → mem x = s.kern.mem x) :
    AsInv base { s with kern := { s.kern with mem := mem } } L blocks :=
  KernInv.writeRun h hr hmem

/-- The kernel address of a page that a user of the page allocator holds. -/
theorem KernInv.kvaddr {k : Kern} {live : List KBlock} {rest : List PageRun}
    (hk : KernInv base k live rest) {phyaddr : ℕ} (hmem : ⟨phyaddr + kseg0, 1⟩ ∈ rest) :
    paddrToKvaddr phyaddr = phyaddr + kseg0 := by
  obtain ⟨g, hk⟩ := hk
  have hrange : phyaddr + kseg0 + pageSize * 1 < 2 * kseg0 :=
    (hk.pages.run_range (List.mem_append_right _ (List.mem_append_right _ hmem))).2.2.2
  refine paddrToKvaddr_of_lt ?_
  unfold kseg0 pageSize at *
  omega

/-- Such a page lies above the coremap. -/
theorem KernInv.coremap_lt {k : Kern} {live : List KBlock} {rest : List PageRun}
    (hk : KernInv base k live rest) {phyaddr : ℕ} (hmem : ⟨phyaddr + kseg0, 1⟩ ∈ rest) :
    u32 (k.vm.coremapPtr - 0x80000000) < phyaddr := by
  obtain ⟨g, hk⟩ := hk
  obtain ⟨-, i, e, haddr, -⟩ :=
    hk.pages.run _ (List.mem_append_right _ (List.mem_append_right _ hmem))
  have habove := hk.pages.above
  dsimp only at haddr
  unfold kseg0 at *
  push_cast at habove
  omega

/-- A call of the page allocator changes nothing outside it. -/
theorem onKern_onVm_run {α : Type} {m : VmM α} {a : α} {s' : VmSys}
    (hrun : onKern (onVm m) s = .ok a s') :
    ∃ vm', m s.kern.vm = .ok a vm' ∧ s' = { s with kern := { s.kern with vm := vm' } } := by
  unfold onKern onVm zoom at hrun
  cases hcall : m s.kern.vm with
  | ok b vm' =>
    simp only [hcall, Outcome.ok.injEq] at hrun
    exact ⟨vm', by rw [hrun.1], hrun.2.symm⟩
  | err e vm' => simp [hcall] at hrun
  | halted msg => simp [hcall] at hrun

/-- The pages are granted when the address is not zero. -/
theorem grant_of_onKern {npages : ℤ} {a : ℕ} {s' : VmSys}
    (hrun : onKern (onVm (allocKpages npages)) s = .ok a s') :
    s.kern.vm.grant npages = if a = 0 then none else some s'.kern.vm := by
  obtain ⟨vm', hcall, rfl⟩ := onKern_onVm_run hrun
  exact grant_of_run hcall

/-- A large request is one of the page allocator. -/
theorem kmalloc_big {sz npages : ℕ} (hsz : largestSubpageSize ≤ sz)
    (hpages : u32 (sz + pageSize - 1) / pageSize = npages) :
    kmalloc sz = onVm (allocKpages npages) := by
  rw [kmalloc, if_pos hsz, hpages]

theorem kmalloc_addrspace : kmalloc addrspaceSize = onVm (allocKpages 1) :=
  kmalloc_big (by decide) (by decide +kernel : u32 (addrspaceSize + pageSize - 1) / pageSize = 1)

theorem kmalloc_pagetable2 : kmalloc pagetable2Size = onVm (allocKpages 4) :=
  kmalloc_big (by decide) (by decide +kernel : u32 (pagetable2Size + pageSize - 1) / pageSize = 4)

/-- What making a table for slot `i` of `as` does: four pages are taken for it, it is empty, and no
other slot and no other table changes. -/
structure NewTable (s : VmSys) (as i : ℕ) (s' : VmSys) : Prop where
  grant : s.kern.vm.grant 4 = some s'.kern.vm
  ptr_ne : (s'.spaces as).pagetable2 i ≠ 0
  spaces : ∀ as' ≠ as, s'.spaces as' = s.spaces as'
  slots : ∀ i' ≠ i, (s'.spaces as).pagetable2 i' = (s.spaces as).pagetable2 i'
  empty : ∀ j, ((s'.tables ((s'.spaces as).pagetable2 i)).pageentry j).valid = 0
  tables : ∀ q ≠ (s'.spaces as).pagetable2 i, s'.tables q = s.tables q

/-- A new table for an empty slot. -/
theorem newTable_spec {H : String → Prop} (h : AsInv base s L blocks) {as i : ℕ} (has : as ∈ L)
    (hi : i < 512) (hslot : (s.spaces as).pagetable2 i = 0)
    (hH : s.kern.vm.grant 4 = none → ∀ msg, H msg) :
    Meets (newTable as i) (fun _ s' => AsInv base s' L blocks ∧ NewTable s as i s')
      (fun _ _ => False) s H := by
  rw [newTable, meets_bind]
  refine (onKern_spec (kmalloc_spec h (by decide)).partial_of).and_run.imp ?_
  rintro p _ ⟨⟨k', rfl, hcase⟩, hrun⟩
  rw [kmalloc_pagetable2] at hrun
  have hgrant := grant_of_onKern hrun
  simp only [setTable, bzeroTable, meets_bind, meets_modify, meets_require_iff]
  rcases hcase with ⟨rfl, -⟩ | ⟨hne, hk⟩
  · rw [if_pos rfl] at hgrant
    exact ⟨fun hp => absurd hp (by decide +kernel), fun _ => hH hgrant _⟩
  rw [if_neg hne] at hgrant
  have hge : kseg0 ≤ p := by
    obtain ⟨g, hshape⟩ := hk
    exact (hshape.block_range List.mem_cons_self).1.le
  refine ⟨fun _ => ?_, fun hp => absurd hge hp⟩
  refine ⟨h.addTable has hi hslot hne hk fun j _ => rfl, hgrant, ?_, fun as' hne' => ?_,
    fun i' hne' => ?_, fun j => ?_, fun q hne' => ?_⟩
  · simpa only [Function.update_self] using hne
  · simp only [Function.update_of_ne hne']
  · simp only [Function.update_self, Function.update_of_ne hne']
  · simp only [Function.update_self]
  · simp only [Function.update_self] at hne'
    simp only [Function.update_of_ne hne']

/-- What filling entry `j` of the table at `p` does: a page is taken for it, and no other entry
changes. -/
structure NewEntry (s : VmSys) (p j : ℕ) (s' : VmSys) : Prop where
  grant : s.kern.vm.grant 1 = some s'.kern.vm
  spaces : s'.spaces = s.spaces
  entries : ∀ j' ≠ j, (s'.tables p).pageentry j' = (s.tables p).pageentry j'
  tables : ∀ q ≠ p, s'.tables q = s.tables q

/-- A frame for an entry that is not valid. When the allocation has failed, the physical address is
one whose kernel address wraps to zero. -/
theorem allocEntry_spec {H : String → Prop} (h : AsInv base s L blocks) {as i j : ℕ} (has : as ∈ L)
    (hi : i < 512) (hp : (s.spaces as).pagetable2 i ≠ 0) (hj : j < 1024)
    (hinvalid : ((s.tables ((s.spaces as).pagetable2 i)).pageentry j).valid = 0)
    (hH : s.kern.vm.grant 1 = none → ∀ msg, H msg) :
    Meets (allocEntry ((s.spaces as).pagetable2 i) j)
      (fun phyaddr s' => phyaddr = kseg0 ∧ s.kern.vm.grant 1 = none ∨
        (AsInv base s' L blocks ∧ ⟨phyaddr + kseg0, 1⟩ ∈ L.flatMap (asFrames s') ∧
          NewEntry s ((s.spaces as).pagetable2 i) j s' ∧
          ((s'.tables ((s.spaces as).pagetable2 i)).pageentry j).valid = 1))
      (fun _ _ => False) s H := by
  rw [allocEntry, meets_bind]
  refine (onKern_spec (allocKpages_kern_spec h 1).partial_of).and_run.imp ?_
  rintro a _ ⟨⟨k', rfl, hcase⟩, hrun⟩
  have hgrant := grant_of_onKern hrun
  simp only [setEntry, meets_bind, meets_get, meets_modify, meets_ite, meets_fail, meets_pure,
    meets_require_iff, Function.update_self, Function.update_idem]
  rcases hcase with ⟨rfl, -⟩ | ⟨hne, hk⟩
  · rw [if_pos rfl] at hgrant
    exact ⟨fun hcode => absurd hcode (by decide),
      fun _ => ⟨fun _ => Or.inl ⟨by decide +kernel, hgrant⟩, fun _ => hH hgrant _⟩⟩
  · rw [if_neg hne] at hgrant
    have hone : u32 1 = 1 := u32_of_lt (n := 1) (by norm_num)
    rw [hone] at hk
    obtain ⟨hlow, hhigh⟩ : kseg0 < a ∧ a + pageSize < 2 * kseg0 := by
      obtain ⟨g, hk⟩ := hk
      obtain ⟨-, -, hlow, hhigh⟩ := hk.pages.run_range
        (List.mem_append_right _ (List.mem_append_right _ List.mem_cons_self))
      exact ⟨hlow, by simpa only [Nat.mul_one] using hhigh⟩
    have hphy : u32 (a - 0x80000000) + kseg0 = a := by
      unfold u32 kseg0 pageSize at *
      omega
    refine ⟨fun hcode => ?_, fun _ => ⟨fun _ => Or.inr ⟨?_, ?_, ?_, ?_⟩, fun hbelow => ?_⟩⟩
    rotate_right
    · refine absurd (KernInv.coremap_lt hk ?_) hbelow
      rw [hphy]
      exact List.mem_cons_self
    · rw [hcode] at hlow
      exact absurd hlow (by decide +kernel)
    · exact h.addFrame has hi hp hj hinvalid hk (e := ⟨_, 1⟩) one_ne_zero hphy
    · refine mem_frames has hi hp hj ?_ ?_
      · simp only [Function.update_self]
        exact one_ne_zero
      · simp only [Function.update_self]
    · constructor
      · exact hgrant
      · rfl
      · intro j' hj'
        dsimp only
        rw [Function.update_self]
        exact Function.update_of_ne hj' _ _
      · intro q hq
        exact Function.update_of_ne hq _ _
    · trivial

/-- Two states that differ in the contents of memory and in the TLB only. -/
structure SameTables (s s' : VmSys) : Prop where
  vm : s'.kern.vm = s.kern.vm
  spaces : s'.spaces = s.spaces
  tables : s'.tables = s.tables

theorem SameTables.setMem (s : VmSys) (mem : ℕ → ℕ) :
    SameTables s { s with kern := { s.kern with mem := mem } } := ⟨rfl, rfl, rfl⟩

/-- Writing the page of a fresh entry. -/
theorem bzeroPage_spec (h : AsInv base s L blocks) {phyaddr : ℕ}
    (hmem : ⟨phyaddr + kseg0, 1⟩ ∈ L.flatMap (asFrames s)) :
    Meets (bzeroPage (paddrToKvaddr phyaddr))
      (fun _ s' => AsInv base s' L blocks ∧ SameTables s s') (fun _ _ => False) s := by
  simp only [bzeroPage, onKern, KernInv.kvaddr h hmem, meets_bind, meets_require, meets_zoom,
    meets_modify]
  refine ⟨Nat.le_add_left kseg0 phyaddr, h.writeFrame hmem fun x hx => if_neg ?_, .setMem s _⟩
  simp only [Nat.mul_one] at hx
  omega

/-- Copying a page to that of a fresh entry. -/
theorem memmovePage_spec (h : AsInv base s L blocks) {phyaddr : ℕ} (src : ℕ)
    (hmem : ⟨phyaddr + kseg0, 1⟩ ∈ L.flatMap (asFrames s)) :
    Meets (memmovePage (paddrToKvaddr phyaddr) src)
      (fun _ s' => AsInv base s' L blocks ∧ SameTables s s') (fun _ _ => False) s := by
  simp only [memmovePage, onKern, KernInv.kvaddr h hmem, meets_bind, meets_require, meets_zoom,
    meets_modify]
  refine ⟨Nat.le_add_left kseg0 phyaddr, h.writeFrame hmem fun x hx => if_neg ?_, .setMem s _⟩
  simp only [Nat.mul_one] at hx
  omega

/-- Entries of the TLB play no role. -/
theorem tlbFill_spec (h : AsInv base s L blocks) (ehi elo n i : ℕ) :
    Meets (tlbFill ehi elo n i) (fun _ s' => AsInv base s' L blocks) (fun _ _ => False) s := by
  induction n generalizing i with
  | zero => exact h
  | succ n ih =>
    simp only [tlbFill, meets_bind, meets_get, meets_ite, meets_modify, meets_pure]
    exact ⟨fun _ => ih (i + 1), fun _ => h⟩

/-- After `ensureTable` the slot has a table: a new one, or the one it had. -/
theorem ensureTable_spec {H : String → Prop} (h : AsInv base s L blocks) {as i : ℕ} (has : as ∈ L)
    (hi : i < 512)
    (hH : (s.spaces as).pagetable2 i = 0 → s.kern.vm.grant 4 = none → ∀ msg, H msg) :
    Meets (ensureTable as i)
      (fun _ s' => AsInv base s' L blocks ∧
        ((s.spaces as).pagetable2 i = 0 ∧ NewTable s as i s' ∨
          (s.spaces as).pagetable2 i ≠ 0 ∧ s' = s))
      (fun _ _ => False) s H := by
  simp only [ensureTable, meets_bind, meets_get, meets_ite, meets_pure]
  refine ⟨fun hslot => ?_, fun hp => ⟨h, .inr ⟨hp, trivial⟩⟩⟩
  exact (newTable_spec h has hi hslot (hH hslot)).imp fun _ s' hs' => ⟨hs'.1, .inl ⟨hslot, hs'.2⟩⟩

/-- `ensurePage` on an entry of a live address space. -/
theorem ensurePage_spec {H : String → Prop} (h : AsInv base s L blocks) {as i j : ℕ} (has : as ∈ L)
    (hi : i < 512) (hp : (s.spaces as).pagetable2 i ≠ 0) (hj : j < 1024)
    (hH : ((s.tables ((s.spaces as).pagetable2 i)).pageentry j).valid = 0 →
      s.kern.vm.grant 1 = none → ∀ msg, H msg) :
    Meets (ensurePage ((s.spaces as).pagetable2 i) j)
      (fun _ s' => AsInv base s' L blocks ∧ s'.spaces = s.spaces ∧
        ((s'.tables ((s.spaces as).pagetable2 i)).pageentry j).valid ≠ 0 ∧
        (((s.tables ((s.spaces as).pagetable2 i)).pageentry j).valid = 0 →
          s.kern.vm.grant 1 = some s'.kern.vm))
      (fun _ _ => False) s H := by
  simp only [ensurePage, meets_bind, meets_get, meets_ite, meets_pure]
  refine ⟨fun hinvalid => ?_,
    fun hvalid => ⟨h, trivial, hvalid, fun hinvalid => absurd hinvalid hvalid⟩⟩
  refine (allocEntry_spec h has hi hp hj hinvalid (hH hinvalid)).imp ?_
  rintro phyaddr s' (⟨rfl, hnone⟩ | ⟨h', hmem, hentry, hone⟩)
  · -- the failed allocation: the store goes to address zero
    rw [bzeroPage, meets_bind, meets_require_iff]
    exact ⟨fun hge => absurd hge (by decide +kernel), fun _ => hH hinvalid hnone _⟩
  · refine (bzeroPage_spec h' hmem).partial_of.imp ?_
    rintro _ s'' ⟨h'', hsame⟩
    refine ⟨h'', by rw [hsame.spaces, hentry.spaces], ?_, fun _ => by rw [hentry.grant, hsame.vm]⟩
    rw [hsame.tables, hone]
    exact one_ne_zero

/-- `enterTlb` changes the TLB and the interrupt level only. -/
theorem enterTlb_spec {H : String → Prop} (h : AsInv base s L blocks) (p j faultaddress spl : ℕ)
    (hH : pageFrame ((s.tables p).pageentry j).phyaddr ≠ ((s.tables p).pageentry j).phyaddr →
      ∀ msg, H msg) :
    Meets (enterTlb p j faultaddress spl) (fun _ s' => AsInv base s' L blocks)
      (fun e s' => AsInv base s' L blocks ∧ e = .EFAULT) s H := by
  simp only [enterTlb, meets_bind, meets_get, meets_require_iff]
  refine ⟨fun _ => (tlbFill_spec h _ _ _ _).partial_of.noErr fun filled s' h' => ?_,
    fun hal => hH hal _⟩
  refine (splx_as_spec h' spl).partial_of.noErr fun _ s'' h'' => ?_
  rw [meets_ite, meets_fail, meets_pure]
  exact ⟨fun _ => ⟨h'', rfl⟩, fun _ => h''⟩

/-- The frames of live address spaces are page-aligned. -/
theorem AsInv.frame_aligned (h : AsInv base s L blocks) {phyaddr : ℕ}
    (hmem : ⟨phyaddr + kseg0, 1⟩ ∈ L.flatMap (asFrames s)) : pageFrame phyaddr = phyaddr := by
  obtain ⟨g, hk⟩ := h
  have hrange : (phyaddr + kseg0) % pageSize = 0 :=
    (hk.pages.run_range (List.mem_append_right _ (List.mem_append_right _ hmem))).2.1
  unfold pageFrame kseg0 pageSize at *
  omega

/-- The page of the address has no valid entry in `as`. -/
def Unmapped (s : VmSys) (as faultaddress : ℕ) : Prop :=
  let p := (s.spaces as).pagetable2 (faultaddress / 2 ^ 22)
  p = 0 ∨ ((s.tables p).pageentry (faultaddress / 2 ^ 12 % 2 ^ 10)).valid = 0

/-- `mapPage` returns only after a page that was not mapped has been given all it needs. It stops
the machine only if the address is beyond the tables or a request is refused. -/
theorem mapPage_spec {H : String → Prop} (h : AsInv base s L blocks) {as : ℕ} (has : as ∈ L)
    (faultaddress spl : ℕ) (hfar : ¬ faultaddress / 2 ^ 22 < 512 → ∀ msg, H msg)
    (hH : Unmapped s as faultaddress → s.kern.vm.grants (faultNeeds s as faultaddress) = none →
      ∀ msg, H msg) :
    Meets (mapPage as faultaddress spl)
      (fun _ s' => AsInv base s' L blocks ∧ (Unmapped s as faultaddress →
        s.kern.vm.grants (faultNeeds s as faultaddress) ≠ none))
      (fun e s' => AsInv base s' L blocks ∧ e = .EFAULT ∧ (Unmapped s as faultaddress →
        s.kern.vm.grants (faultNeeds s as faultaddress) ≠ none)) s H := by
  simp only [mapPage, meets_bind, meets_gets, meets_require_iff]
  refine ⟨fun hi => ?_, fun hi => hfar hi _⟩
  have hrefused : (s.spaces as).pagetable2 (faultaddress / 2 ^ 22) = 0 →
      s.kern.vm.grant 4 = none → ∀ msg, H msg := by
    intro hslot hnone
    refine hH (Or.inl hslot) ?_
    rw [faultNeeds, if_pos hslot]
    exact grants_append_none (by rw [grants_singleton, hnone]) _
  refine (ensureTable_spec h has hi hrefused).noErr ?_
  rintro _ s₁ ⟨h₁, htable⟩
  have hp : (s₁.spaces as).pagetable2 (faultaddress / 2 ^ 22) ≠ 0 := by
    rcases htable with ⟨-, hnew⟩ | ⟨hp, rfl⟩
    · exact hnew.ptr_ne
    · exact hp
  -- what is left to grant after the table is one page
  have hrest : s.kern.vm.grants (faultNeeds s as faultaddress) = s₁.kern.vm.grant 1 := by
    rcases htable with ⟨hslot, hnew⟩ | ⟨hslot, rfl⟩
    · have hfirst : s.kern.vm.grants [4] = some s₁.kern.vm := by
        rw [grants_singleton, hnew.grant]
      rw [faultNeeds, if_pos hslot, grants_append hfirst, grants_singleton]
    · rw [faultNeeds, if_neg hslot, List.nil_append, grants_singleton]
  have hunmapped : Unmapped s as faultaddress ↔
      ((s₁.tables ((s₁.spaces as).pagetable2 (faultaddress / 2 ^ 22))).pageentry
        (faultaddress / 2 ^ 12 % 2 ^ 10)).valid = 0 := by
    rcases htable with ⟨hslot, hnew⟩ | ⟨hslot, rfl⟩
    · exact iff_of_true (Or.inl hslot) (hnew.empty _)
    · exact or_iff_right hslot
  have hj : faultaddress / 2 ^ 12 % 2 ^ 10 < 1024 := Nat.mod_lt _ (by norm_num)
  refine (ensurePage_spec h₁ has hi hp hj fun hinvalid hnone =>
    hH (hunmapped.mpr hinvalid) (hrest.trans hnone)).noErr ?_
  rintro _ s₂ ⟨h₂, hspaces, hvalid, hpage⟩
  have hsome : Unmapped s as faultaddress →
      s.kern.vm.grants (faultNeeds s as faultaddress) ≠ none := by
    intro hun
    rw [hrest, hpage (hunmapped.mp hun)]
    exact Option.some_ne_none _
  rw [← hspaces] at hp hvalid ⊢
  have haligned := h₂.frame_aligned (mem_frames has hi hp hj hvalid rfl)
  exact (enterTlb_spec h₂ _ _ _ spl fun hne => absurd haligned hne).mono
    (fun _ s' h' => ⟨h', hsome⟩) fun e s' h' => ⟨h'.1, h'.2, hsome⟩

/-- `vm_fault` on a live address space, or on none. -/
theorem vmFault_spec (h : AsInv base s L blocks) {as : ℕ} (has : as = 0 ∨ as ∈ L) (faulttype : ℤ)
    (faultaddress : ℕ) :
    Meets (vmFault as faulttype faultaddress) (fun _ s' => AsInv base s' L blocks)
      (fun _ s' => AsInv base s' L blocks) s (fun _ => True) := by
  simp only [vmFault, meets_ite, meets_fail, meets_bind, meets_halt]
  refine ⟨fun _ => h, fun _ => (splx_as_spec h splHigh).partial_of.noErr fun spl s h => ?_⟩
  refine ⟨fun _ => trivial, fun _ => ⟨fun _ => ⟨fun _ => h, fun hne => ?_⟩,
    fun _ => (splx_as_spec h spl).partial_of.noErr fun _ s' h' => h'⟩⟩
  exact (mapPage_spec h (has.resolve_left hne) _ spl (fun _ _ => trivial)
    fun _ _ _ => trivial).mono (fun _ s' h' => h'.1) fun _ s' h' => h'.1

/-! ## Creation and copying -/

/-- What a failed `as_create` does: it was refused a page, and no coremap entry and nothing outside
the page allocator has changed. -/
structure NoRoom (s s' : VmSys) : Prop where
  grant : s.kern.vm.grant 1 = none
  frame : s' = { s with kern := { s.kern with vm := s'.kern.vm } }
  coremap : s'.kern.vm.coremap = s.kern.vm.coremap

/-- What making the address space `as` does: a page is taken for it, it is empty, and no other one
changes. -/
structure NewSpace (s : VmSys) (as : ℕ) (s' : VmSys) : Prop where
  ne_null : as ≠ 0
  grant : s.kern.vm.grant 1 = some s'.kern.vm
  spaces : ∀ as' ≠ as, s'.spaces as' = s.spaces as'
  empty : ∀ i, (s'.spaces as).pagetable2 i = 0
  tables : s'.tables = s.tables

/-- `as_create`. -/
theorem asCreate_spec (h : AsInv base s L blocks) :
    Meets asCreate
      (fun as s' => (as = 0 ∧ AsInv base s' L blocks ∧ NoRoom s s') ∨
        (AsInv base s' (as :: L) blocks ∧ NewSpace s as s'))
      (fun _ _ => False) s := by
  rw [asCreate, meets_bind]
  refine (onKern_spec (kmalloc_spec h (by decide))).and_run.imp ?_
  rintro as _ ⟨⟨k', rfl, hcase⟩, hrun⟩
  rw [kmalloc_addrspace] at hrun
  have hgrant := grant_of_onKern hrun
  rw [meets_ite]
  rcases hcase with ⟨rfl, hk⟩ | ⟨hne, hk⟩
  · obtain ⟨vm', hcall, heq⟩ := onKern_onVm_run hrun
    obtain rfl : k' = { s.kern with vm := vm' } := congrArg VmSys.kern heq
    have hsame : vm'.coremap = s.kern.vm.coremap := by
      obtain ⟨g, hpages⟩ := h
      rcases (allocKpages_spec hpages.pages 1).of_ok hcall with ⟨-, hsame, -⟩ | ⟨hne, -⟩
      · exact hsame
      · exact absurd rfl hne
    exact ⟨fun _ => Or.inl ⟨rfl, hk, hgrant, rfl, hsame⟩, fun hne => absurd rfl hne⟩
  · rw [if_neg hne] at hgrant
    refine ⟨fun hz => absurd hz hne, fun _ => Or.inr ⟨AsInv.addSpace hk fun _ _ => rfl, ?_⟩⟩
    refine ⟨hne, hgrant, fun as' hne' => Function.update_of_ne hne' _ _, fun i => ?_, rfl⟩
    simp only [Function.update_self]

/-- The fields of an address space other than its page table play no role. -/
theorem AsInv.setSpace (h : AsInv base s L blocks) (as : ℕ) (sp : Addrspace)
    (hsp : sp.pagetable2 = (s.spaces as).pagetable2) :
    AsInv base { s with spaces := Function.update s.spaces as sp } L blocks := by
  have hptr : ∀ as', (Function.update s.spaces as sp as').pagetable2 =
      (s.spaces as').pagetable2 := by
    intro as'
    by_cases heq : as' = as
    · subst heq
      rw [Function.update_self, hsp]
    · rw [Function.update_of_ne heq]
  have hblocks : L.flatMap (asBlocks { s with spaces := Function.update s.spaces as sp }) =
      L.flatMap (asBlocks s) :=
    List.flatMap_congr fun as' _ => asBlocks_congr fun i _ => by simp only [hptr]
  have hframes : L.flatMap (asFrames { s with spaces := Function.update s.spaces as sp }) =
      L.flatMap (asFrames s) :=
    List.flatMap_congr fun as' _ => List.flatMap_congr fun i _ => by simp only [slotFrames, hptr]
  rw [AsInv, hblocks, hframes]
  exact h

/-- Requests of which one is refused are refused. -/
theorem grants_range_none {vm vm' : Vm} {l : List ℤ} {f : ℕ → List ℤ} {n m : ℕ}
    (h : vm.grants (l ++ (List.range n).flatMap f) = some vm') (hn : vm'.grants (f n) = none)
    (hm : n < m) : vm.grants (l ++ (List.range m).flatMap f) = none := by
  obtain ⟨k, rfl⟩ := Nat.exists_eq_add_of_lt hm
  have hsucc : vm.grants (l ++ (List.range (n + 1)).flatMap f) = none := by
    rw [List.range_succ, List.flatMap_append, List.flatMap_singleton, ← List.append_assoc,
      grants_append h, hn]
  rw [show n + k + 1 = (n + 1) + k by omega, List.range_add, List.flatMap_append,
    ← List.append_assoc]
  exact grants_append_none hsucc _

/-- The inner loop of `as_copy`, on a table of the new address space that is empty so far. It stops
the machine only if a request is refused. -/
theorem copyEntries_spec {H : String → Prop} (h : AsInv base s L blocks) {old new i : ℕ}
    (hold : old ∈ L) (hnew : new ∈ L) (hi : i < 512) (hpo : (s.spaces old).pagetable2 i ≠ 0)
    (hp : (s.spaces new).pagetable2 i ≠ 0)
    (hempty : ∀ j, ((s.tables ((s.spaces new).pagetable2 i)).pageentry j).valid = 0)
    (hne : (s.spaces old).pagetable2 i ≠ (s.spaces new).pagetable2 i)
    (hH : s.kern.vm.grants ((List.range 1024).flatMap fun j =>
      entryNeeds ((s.tables ((s.spaces old).pagetable2 i)).pageentry j)) = none → ∀ msg, H msg) :
    Meets (forRange (copyEntry old new i) 1024 0)
      (fun _ s' => AsInv base s' L blocks ∧ s'.spaces = s.spaces ∧
        (∀ q ≠ (s.spaces new).pagetable2 i, s'.tables q = s.tables q) ∧
        s.kern.vm.grants ((List.range 1024).flatMap fun j =>
          entryNeeds ((s.tables ((s.spaces old).pagetable2 i)).pageentry j)) = some s'.kern.vm)
      (fun _ _ => False) s H := by
  refine (Meets.forRange (fun j s' => AsInv base s' L blocks ∧ s'.spaces = s.spaces ∧
      (∀ q ≠ (s.spaces new).pagetable2 i, s'.tables q = s.tables q) ∧
      s.kern.vm.grants ([] ++ (List.range j).flatMap fun j =>
        entryNeeds ((s.tables ((s.spaces old).pagetable2 i)).pageentry j)) = some s'.kern.vm ∧
      ∀ j' ≥ j, ((s'.tables ((s.spaces new).pagetable2 i)).pageentry j').valid = 0)
    ⟨h, rfl, fun _ _ => rfl, rfl, fun j _ => hempty j⟩ fun j s' _ hj hinv => ?_).imp
      fun _ s' hs' => ⟨hs'.1, hs'.2.1, hs'.2.2.1, by
        simpa only [Nat.zero_add, List.nil_append] using hs'.2.2.2.1⟩
  obtain ⟨h', hspaces, htables, hgrants, hrest⟩ := hinv
  have hentry : s'.tables ((s'.spaces old).pagetable2 i) =
      s.tables ((s.spaces old).pagetable2 i) := by
    rw [hspaces]
    exact htables _ hne
  simp only [copyEntry, meets_bind, meets_get, meets_ite, meets_pure, hentry]
  refine ⟨fun hvalid => ?_, fun hvalid =>
    ⟨h', hspaces, htables, grants_range_succ hgrants ?_, fun j' hj' => hrest j' (by omega)⟩⟩
  · have hrefused : s'.kern.vm.grant 1 = none → ∀ msg, H msg := by
      intro hnone
      have hthis : s'.kern.vm.grants
          (entryNeeds ((s.tables ((s.spaces old).pagetable2 i)).pageentry j)) = none := by
        rw [entryNeeds, if_pos hvalid, grants_singleton, hnone]
      have hj' : j < 1024 := by omega
      have hall := grants_range_none hgrants hthis hj'
      rw [List.nil_append] at hall
      exact hH hall
    -- the frame of the old page lies above the coremap
    have habove : u32 (s'.kern.vm.coremapPtr - 0x80000000) <
        ((s'.tables ((s'.spaces old).pagetable2 i)).pageentry j).phyaddr := by
      have hpo' : (s'.spaces old).pagetable2 i ≠ 0 := by
        rw [hspaces]
        exact hpo
      have hvalid' : ((s'.tables ((s'.spaces old).pagetable2 i)).pageentry j).valid ≠ 0 := by
        rw [hentry, hvalid]
        exact one_ne_zero
      have hj' : j < 1024 := by omega
      have hmem := mem_frames hold hi hpo' hj' hvalid' rfl
      exact KernInv.coremap_lt h' hmem
    rw [← hspaces] at hp hrest
    refine (allocEntry_spec h' hnew hi hp (by omega) (hrest j le_rfl) hrefused).imp ?_
    rintro phyaddr s₂ (⟨rfl, hnone⟩ | ⟨h₂, hmem, hentry, -⟩)
    · -- the failed allocation: the store goes to address zero
      simp only [memmovePage, meets_require_iff, meets_bind]
      exact ⟨fun _ => ⟨fun hge => absurd hge (by decide +kernel), fun _ => hrefused hnone _⟩,
        fun _ => hrefused hnone _⟩
    rw [meets_require_iff]
    refine ⟨fun _ => ?_, fun hbelow => absurd habove hbelow⟩
    refine (memmovePage_spec h₂ _ hmem).partial_of.imp ?_
    rintro _ s₃ ⟨h₃, hsame⟩
    rw [hspaces] at hentry hrest
    refine ⟨h₃, by rw [hsame.spaces, hentry.spaces, hspaces], fun q hq => ?_,
      grants_range_succ hgrants ?_, fun j' hj' => ?_⟩
    · rw [hsame.tables, hentry.tables q hq, htables q hq]
    · rw [entryNeeds, if_pos hvalid, grants_singleton, hentry.grant, hsame.vm]
    · rw [hsame.tables, hentry.entries j' (by omega)]
      exact hrest j' (by omega)
  · rw [entryNeeds, if_neg hvalid]
    rfl

/-- One pass of the outer loop of `as_copy`, on a slot of the new address space that is empty. -/
theorem copyTable_spec {H : String → Prop} (h : AsInv base s L blocks) {old new i : ℕ}
    (hold : old ∈ L) (hnew : new ∈ L) (hne : old ≠ new) (hi : i < 512)
    (hslot : (s.spaces new).pagetable2 i = 0)
    (hH : s.kern.vm.grants (slotNeeds s old i) = none → ∀ msg, H msg) :
    Meets (copyTable old new i)
      (fun _ s' => AsInv base s' L blocks ∧ (∀ as ≠ new, s'.spaces as = s.spaces as) ∧
        (∀ i' ≠ i, (s'.spaces new).pagetable2 i' = (s.spaces new).pagetable2 i') ∧
        (∀ i' < 512, s'.tables ((s.spaces old).pagetable2 i') =
          s.tables ((s.spaces old).pagetable2 i')) ∧
        s.kern.vm.grants (slotNeeds s old i) = some s'.kern.vm)
      (fun _ _ => False) s H := by
  simp only [copyTable, meets_bind, meets_get, meets_ite, meets_pure]
  refine ⟨fun hp => ?_, fun hp => ⟨h, fun _ _ => trivial, fun _ _ => trivial, fun _ _ => trivial, ?_⟩⟩
  · rw [slotNeeds, if_neg hp, ← List.singleton_append] at hH
    have hfour : s.kern.vm.grant 4 = none → ∀ msg, H msg := by
      intro hnone
      exact hH (grants_append_none (by rw [grants_singleton, hnone]) _)
    refine (newTable_spec h hnew hi hslot hfour).imp ?_
    rintro _ s₂ ⟨h₂, htable⟩
    -- the new table is none of those of the old address space
    have hapart : ∀ i' < 512, (s.spaces old).pagetable2 i' ≠ (s₂.spaces new).pagetable2 i := by
      intro i' hi' heq
      rw [← htable.spaces old hne] at heq
      exact hne (h₂.ptr_inj hnew hold hi hi' htable.ptr_ne heq.symm).1.symm
    have hptr : (s₂.spaces old).pagetable2 i = (s.spaces old).pagetable2 i := by
      rw [htable.spaces old hne]
    have hfirst : s.kern.vm.grants [4] = some s₂.kern.vm := by
      rw [grants_singleton, htable.grant]
    have hentries : s₂.tables ((s₂.spaces old).pagetable2 i) =
        s.tables ((s.spaces old).pagetable2 i) := by
      rw [hptr, htable.tables _ (hapart i hi)]
    rw [grants_append hfirst] at hH
    refine (copyEntries_spec h₂ hold hnew hi (hptr.trans_ne hp) htable.ptr_ne htable.empty
      (hptr.trans_ne (hapart i hi)) (by rw [hentries]; exact hH)).imp ?_
    rintro _ s₃ ⟨h₃, hspaces, htables, hgrants⟩
    refine ⟨h₃, fun as has => by rw [hspaces, htable.spaces as has],
      fun i' hi' => by rw [hspaces, htable.slots i' hi'], fun i' hi' => ?_, ?_⟩
    · rw [htables _ (hapart i' hi'), htable.tables _ (hapart i' hi')]
    · rw [hentries] at hgrants
      rw [slotNeeds, if_neg hp, ← List.singleton_append, grants_append hfirst, hgrants]
  · rw [slotNeeds, if_pos (not_not.mp hp)]
    rfl

/-- `as_copy`. It stops the machine only if a request is refused or the assertion of
`as_prepare_load` fails. -/
theorem asCopy_spec {H : String → Prop} (h : AsInv base s L blocks) {old : ℕ} (hold : old ∈ L)
    (hH : s.kern.vm.grants (copyNeeds s old) = none ∨ (s.spaces old).asStackpbase ≠ 0 →
      ∀ msg, H msg) :
    Meets (asCopy old)
      (fun new s' => AsInv base s' (new :: L) blocks ∧ s'.spaces old = s.spaces old ∧
        (∀ i < 512, s'.tables ((s.spaces old).pagetable2 i) =
          s.tables ((s.spaces old).pagetable2 i)) ∧
        s.kern.vm.grants (copyNeeds s old) = some s'.kern.vm)
      (fun e s' => AsInv base s' L blocks ∧ e = .ENOMEM ∧ NoRoom s s') s H := by
  rw [asCopy, meets_bind]
  refine (asCreate_spec h).partial_of.noErr ?_
  rintro new s₁ (⟨rfl, h₁, hfull⟩ | ⟨h₁, hnew⟩)
  · exact ⟨h₁, rfl, hfull⟩
  have hne : old ≠ new := by
    rintro rfl
    exact (List.nodup_cons.mp h₁.nodup).1 hold
  rw [if_neg hnew.ne_null]
  simp only [asPrepareLoad, meets_bind, meets_modify, meets_get, meets_require_iff, meets_pure,
    Function.update_self]
  refine ⟨fun _ => ?_, fun hstack => hH (.inr ?_) _⟩
  rotate_left
  · rwa [← hnew.spaces old hne]
  have hstart := h₁.setSpace new
    { s₁.spaces new with
      asVbase1 := (s₁.spaces old).asVbase1
      asVbase2 := (s₁.spaces old).asVbase2
      asStackpbase := (s₁.spaces old).asStackpbase } rfl
  refine (Meets.forRange (fun i s' => AsInv base s' (new :: L) blocks ∧
      (∀ i' ≥ i, (s'.spaces new).pagetable2 i' = 0) ∧ s'.spaces old = s.spaces old ∧
      (∀ i' < 512, s'.tables ((s.spaces old).pagetable2 i') =
        s.tables ((s.spaces old).pagetable2 i')) ∧
      s.kern.vm.grants ([1] ++ (List.range i).flatMap (slotNeeds s old)) = some s'.kern.vm)
    ⟨hstart, fun i' _ => ?_, ?_, fun _ _ => ?_, ?_⟩ fun i s' _ hi hinv => ?_).noErr
      fun _ s' hs' => ⟨hs'.1, hs'.2.2.1, hs'.2.2.2.1, ?_⟩
  · simp only [Function.update_self, hnew.empty]
  · exact (Function.update_of_ne hne _ _).trans (hnew.spaces old hne)
  · rw [← hnew.tables]
  · simpa only [List.range_zero, List.flatMap_nil, List.append_nil, grants_singleton] using hnew.grant
  · obtain ⟨h', hrest, hspace, htables, hgrants⟩ := hinv
    have hneeds : slotNeeds s' old i = slotNeeds s old i := by
      simp only [slotNeeds, hspace, htables i (by omega)]
    have hrefused : s'.kern.vm.grants (slotNeeds s' old i) = none → ∀ msg, H msg := by
      intro hnone
      rw [hneeds] at hnone
      have hi' : i < 512 := by omega
      have hall := grants_range_none hgrants hnone hi'
      rw [List.singleton_append] at hall
      exact hH (.inl hall)
    refine (copyTable_spec h' (List.mem_cons_of_mem _ hold) List.mem_cons_self hne (by omega)
      (hrest i le_rfl) hrefused).imp ?_
    rintro _ s₃ ⟨h₃, hspaces₃, hslots₃, htables₃, hgrants₃⟩
    rw [hspace] at htables₃
    refine ⟨h₃, fun i' hi' => ?_, (hspaces₃ old hne).trans hspace,
      fun i' hi' => (htables₃ i' hi').trans (htables i' hi'), grants_range_succ hgrants ?_⟩
    · rw [hslots₃ i' (by omega)]
      exact hrest i' (by omega)
    · rwa [slotNeeds, hspace, htables i (by omega)] at hgrants₃
  · rw [copyNeeds, ← List.singleton_append]
    simpa only [Nat.zero_add] using hs'.2.2.2.2

/-! ## Teardown -/

/-- The inner loop of `freepagetable` gives back the frames of the entries it passes. -/
theorem freeFrames_spec {p n j : ℕ} {live : List KBlock} {rest : List PageRun}
    (hk : KernInv base s.kern live
      ((List.range' j n).flatMap (fun j => entryFrame ((s.tables p).pageentry j)) ++ rest)) :
    Meets (forRange (freeFrame p) n j)
      (fun _ s' => ∃ k', s' = { s with kern := k' } ∧ k'.mem = s.kern.mem ∧
        KernInv base k' live rest)
      (fun _ _ => False) s := by
  induction n generalizing j s with
  | zero => exact ⟨s.kern, rfl, rfl, hk⟩
  | succ n ih =>
    rw [List.range'_succ, List.flatMap_cons, List.append_assoc] at hk
    rw [forRange, meets_bind]
    simp only [freeFrame, meets_bind, meets_get, meets_ite, meets_pure]
    refine ⟨fun hvalid => ?_, fun hinvalid => ?_⟩
    · rw [entryFrame, if_neg hvalid, List.singleton_append] at hk
      have hfree := onKern_spec (freeKpages_kern_spec hk).and_run
      rw [← hk.kvaddr List.mem_cons_self] at hfree
      refine hfree.imp ?_
      rintro _ _ ⟨k', rfl, hk', hrun⟩
      have hmem := (onVm_mem _ s.kern).of_ok hrun
      refine (ih (s := { s with kern := k' }) hk').imp ?_
      rintro _ _ ⟨k'', rfl, hmem', hk''⟩
      exact ⟨k'', rfl, hmem'.trans hmem, hk''⟩
    · rw [entryFrame, if_pos (not_not.mp hinvalid), List.nil_append] at hk
      exact ih hk

/-- The outer loop gives back the tables it passes and the frames under them. -/
theorem freeTables_spec {as n i : ℕ} {live : List KBlock} {rest : List PageRun}
    (hk : KernInv base s.kern ((List.range' i n).flatMap (tableBlock s as) ++ live)
      ((List.range' i n).flatMap (slotFrames s as) ++ rest)) :
    Meets (forRange (freeTable (s.spaces as).pagetable2) n i)
      (fun _ s' => ∃ k', s' = { s with kern := k' } ∧ k'.mem = s.kern.mem ∧
        KernInv base k' live rest)
      (fun _ _ => False) s := by
  induction n generalizing i s with
  | zero => exact ⟨s.kern, rfl, rfl, hk⟩
  | succ n ih =>
    rw [List.range'_succ, List.flatMap_cons, List.flatMap_cons, List.append_assoc,
      List.append_assoc] at hk
    rw [forRange, meets_bind, freeTable, meets_ite, meets_bind, meets_pure]
    refine ⟨fun hp => ?_, fun hnull => ?_⟩
    · rw [tableBlock, slotFrames, if_neg hp, if_neg hp, List.singleton_append, tableFrames,
        List.range_eq_range'] at hk
      refine (freeFrames_spec hk).imp ?_
      rintro _ _ ⟨k', rfl, hmem', hk'⟩
      have hbig : ¬ KBlock.Small ⟨(s.spaces as).pagetable2 i, pagetable2Size⟩ :=
        (by decide : ¬ pagetable2Size < largestSubpageSize)
      refine (onKern_spec (s := { s with kern := k' }) (kfree_big_spec hk' hbig)).imp ?_
      rintro _ _ ⟨k'', rfl, hk'', hmem''⟩
      refine (ih (s := { s with kern := k'' }) hk'').imp ?_
      rintro _ _ ⟨k₃, rfl, hmem₃, hk₃⟩
      exact ⟨k₃, rfl, hmem₃.trans (hmem''.trans hmem'), hk₃⟩
    · have hzero := not_not.mp hnull
      rw [tableBlock, slotFrames, if_pos hzero, if_pos hzero, List.nil_append,
        List.nil_append] at hk
      exact ih hk

/-- `as_destroy` of the first live address space. It writes neither memory nor tables. -/
theorem asDestroy_spec {as : ℕ} (h : AsInv base s (as :: L) blocks) :
    Meets (asDestroy as)
      (fun _ s' => ∃ k', s' = { s with kern := k' } ∧ k'.mem = s.kern.mem ∧ AsInv base s' L blocks)
      (fun _ _ => False) s := by
  have hk : KernInv base s.kern ((List.range' 0 512).flatMap (tableBlock s as) ++
      (⟨as, addrspaceSize⟩ :: (L.flatMap (asBlocks s) ++ blocks)))
      ((List.range' 0 512).flatMap (slotFrames s as) ++ L.flatMap (asFrames s)) := by
    refine KernInv.perm h ?_ ?_
    · rw [List.flatMap_cons, asBlocks, List.range_eq_range', List.append_assoc]
      exact List.perm_middle.symm
    · rw [List.flatMap_cons, asFrames, List.range_eq_range']
  simp only [asDestroy, freepagetable, meets_bind, meets_get]
  refine (freeTables_spec hk).imp ?_
  rintro _ _ ⟨k', rfl, hmem', hk'⟩
  have hbig : ¬ KBlock.Small ⟨as, addrspaceSize⟩ :=
    (by decide : ¬ addrspaceSize < largestSubpageSize)
  refine (onKern_spec (s := { s with kern := k' }) (kfree_big_spec hk' hbig)).imp ?_
  rintro _ _ ⟨k'', rfl, hk'', hmem''⟩
  exact ⟨k'', rfl, hmem''.trans hmem', hk''⟩

/-! ## Isolation -/

/-- The virtual page with indices `i` and `j` of the live address space `as` is backed by the frame
at the physical address `frame`. -/
structure Maps (s : VmSys) (L : List ℕ) (as i j frame : ℕ) : Prop where
  live : as ∈ L
  slot : i < 512
  entry : j < 1024
  table : (s.spaces as).pagetable2 i ≠ 0
  valid : ((s.tables ((s.spaces as).pagetable2 i)).pageentry j).valid ≠ 0
  phyaddr : ((s.tables ((s.spaces as).pagetable2 i)).pageentry j).phyaddr = frame

theorem Maps.mem {as i j frame : ℕ} (hm : Maps s L as i j frame) :
    ⟨frame + kseg0, 1⟩ ∈ L.flatMap (asFrames s) :=
  mem_frames hm.live hm.slot hm.table hm.entry hm.valid hm.phyaddr

/-- The frames of live address spaces are listed once. -/
theorem AsInv.nodup_frames (h : AsInv base s L blocks) : (L.flatMap (asFrames s)).Nodup := by
  obtain ⟨g, hk⟩ := h
  refine hk.rest_apart.1.imp_of_mem ?_
  rintro r _ hr - hapart rfl
  have hpos := (hk.pages.run_range (List.mem_append_right _ (List.mem_append_right _ hr))).1
  unfold pageSize at hapart
  omega

/-- No frame backs two virtual pages. -/
theorem AsInv.maps_inj (h : AsInv base s L blocks) {as as' i i' j j' frame : ℕ}
    (hm : Maps s L as i j frame) (hm' : Maps s L as' i' j' frame) :
    as = as' ∧ i = i' ∧ j = j' := by
  have hentry : ∀ {as i j}, Maps s L as i j frame → (⟨frame + kseg0, 1⟩ : PageRun) ∈
      entryFrame ((s.tables ((s.spaces as).pagetable2 i)).pageentry j) := by
    intro as i j hm
    rw [entryFrame, if_neg hm.valid, hm.phyaddr]
    exact List.mem_singleton.mpr rfl
  have hslot : ∀ {as i j}, Maps s L as i j frame →
      (⟨frame + kseg0, 1⟩ : PageRun) ∈ slotFrames s as i := by
    intro as i j hm
    rw [slotFrames, if_neg hm.table]
    exact List.mem_flatMap.mpr ⟨j, List.mem_range.mpr hm.entry, hentry hm⟩
  have hspace : ∀ {as i j}, Maps s L as i j frame →
      (⟨frame + kseg0, 1⟩ : PageRun) ∈ asFrames s as := fun hm =>
    List.mem_flatMap.mpr ⟨_, List.mem_range.mpr hm.slot, hslot hm⟩
  obtain rfl : as = as' :=
    h.nodup_frames.eq_of_mem_flatMap hm.live hm'.live (hspace hm) (hspace hm')
  have hnd : (asFrames s as).Nodup := (List.nodup_flatMap.mp h.nodup_frames).1 as hm.live
  obtain rfl : i = i' := hnd.eq_of_mem_flatMap (List.mem_range.mpr hm.slot)
    (List.mem_range.mpr hm'.slot) (hslot hm) (hslot hm')
  have hnd' : (slotFrames s as i).Nodup :=
    (List.nodup_flatMap.mp hnd).1 i (List.mem_range.mpr hm.slot)
  rw [slotFrames, if_neg hm.table] at hnd'
  exact ⟨rfl, rfl, hnd'.eq_of_mem_flatMap (List.mem_range.mpr hm.entry)
    (List.mem_range.mpr hm'.entry) (hentry hm) (hentry hm')⟩

/-- The frame of a virtual page is a single-page allocation of the coremap. -/
theorem AsInv.maps_taken (h : AsInv base s L blocks) {as i j frame : ℕ}
    (hm : Maps s L as i j frame) :
    ∃ e ∈ s.kern.vm.coremap, e.phyaddr = frame ∧ e.taken = true ∧ e.npage = 1 := by
  obtain ⟨g, hk⟩ := h
  have hmem := List.mem_append_right (g.runs s.kern.heap)
    (List.mem_append_right (bigRuns (L.flatMap (asBlocks s) ++ blocks)) hm.mem)
  obtain ⟨n, -, hocc, e, he, hphy, hnpage⟩ := hk.pages.occupies_iff hmem
  refine ⟨e, List.mem_of_getElem? he, by simpa using hphy, ?_, hnpage⟩
  exact hk.pages.taken_of_occupies hmem he ((hocc n).mpr ⟨le_rfl, by simp⟩)

/-- The frame of a virtual page holds no kernel allocation. -/
theorem AsInv.maps_apart (h : AsInv base s L blocks) {as i j frame : ℕ}
    (hm : Maps s L as i j frame) :
    (∀ b ∈ L.flatMap (asBlocks s) ++ blocks,
      frame + kseg0 + pageSize ≤ b.addr ∨ b.addr + b.extent ≤ frame + kseg0) ∧
    ∀ pr < npagerefs, s.kern.heap.inuse pr = true → s.kern.heap.prPageaddr pr ≠ frame + kseg0 := by
  obtain ⟨g, hk⟩ := h
  obtain ⟨hblocks, hpages⟩ := hk.rest_apart.2 _ hm.mem
  simp only [Nat.mul_one] at hblocks hpages
  refine ⟨hblocks, fun pr hlt huse heq => ?_⟩
  have hout := hpages pr ((hk.inuse pr hlt).mp huse)
  unfold pageSize at hout
  omega

/-! ## Runs -/

/-- The address spaces that are live and the blocks that other callers of the heap hold. -/
structure AsState where
  sys : VmSys
  spaces : List ℕ
  blocks : List KBlock

/-- One step of the system: an operation on address spaces, a call of the heap by somebody else, or
a write to a page or a block by its owner. A fault may be of any kind and at any address, for a
thread without an address space or with a live one. -/
inductive AsStep : AsState → AsState → Prop where
  | asCreate {s : AsState} {as : ℕ} {sys' : VmSys} (hcall : Os161.asCreate s.sys = .ok as sys') :
      AsStep s ⟨sys', if as = 0 then s.spaces else as :: s.spaces, s.blocks⟩
  | vmFault {s : AsState} {as faultaddress : ℕ} {faulttype : ℤ} {sys' : VmSys}
      (has : as = 0 ∨ as ∈ s.spaces)
      (hcall : Os161.vmFault as faulttype faultaddress s.sys = .ok () sys') :
      AsStep s { s with sys := sys' }
  | vmFaultFails {s : AsState} {as faultaddress : ℕ} {faulttype : ℤ} {e : Errno} {sys' : VmSys}
      (has : as = 0 ∨ as ∈ s.spaces)
      (hcall : Os161.vmFault as faulttype faultaddress s.sys = .err e sys') :
      AsStep s { s with sys := sys' }
  | asCopy {s : AsState} {old new : ℕ} {sys' : VmSys} (hold : old ∈ s.spaces)
      (hcall : Os161.asCopy old s.sys = .ok new sys') :
      AsStep s ⟨sys', new :: s.spaces, s.blocks⟩
  | asCopyFails {s : AsState} {old : ℕ} {e : Errno} {sys' : VmSys} (hold : old ∈ s.spaces)
      (hcall : Os161.asCopy old s.sys = .err e sys') : AsStep s { s with sys := sys' }
  | asDestroy {s : AsState} {as : ℕ} {sys' : VmSys} (has : as ∈ s.spaces)
      (hcall : Os161.asDestroy as s.sys = .ok () sys') :
      AsStep s ⟨sys', s.spaces.erase as, s.blocks⟩
  | asDefineRegion {s : AsState} {as vaddr : ℕ} {sys' : VmSys}
      (hcall : Os161.asDefineRegion as vaddr s.sys = .ok () sys') : AsStep s { s with sys := sys' }
  | asActivate {s : AsState} {sys' : VmSys} (hcall : Os161.asActivate s.sys = .ok () sys') :
      AsStep s { s with sys := sys' }
  | heap {s : AsState} {k' : Kern} {blocks' : List KBlock}
      (hstep : HeapStep ⟨s.sys.kern, s.blocks⟩ ⟨k', blocks'⟩) :
      AsStep s ⟨{ s.sys with kern := k' }, s.spaces, blocks'⟩
  | write {s : AsState} {as i j frame x v : ℕ} (hmap : Maps s.sys s.spaces as i j frame)
      (hlo : frame + kseg0 ≤ x) (hhi : x < frame + kseg0 + pageSize) :
      AsStep s { s with sys := { s.sys with kern := { s.sys.kern with
        mem := Function.update s.sys.kern.mem x v } } }

/-- The order of the live address spaces does not matter. -/
theorem AsInv.perm (h : AsInv base s L blocks) {L' : List ℕ} (hperm : L.Perm L') :
    AsInv base s L' blocks :=
  KernInv.perm h ((hperm.flatMap_right _).append_right _) (hperm.flatMap_right _)

/-- One step keeps the invariant. -/
theorem AsStep.inv {s t : AsState} (hstep : AsStep s t) (h : AsInv base s.sys s.spaces s.blocks) :
    AsInv base t.sys t.spaces t.blocks := by
  cases hstep with
  | asCreate hcall =>
    rcases (asCreate_spec h).of_ok hcall with ⟨rfl, h', -⟩ | ⟨h', hnew⟩
    · simpa using h'
    · simpa only [if_neg hnew.ne_null] using h'
  | vmFault has hcall => exact (vmFault_spec h has _ _).of_ok hcall
  | vmFaultFails has hcall => exact (vmFault_spec h has _ _).of_err hcall
  | asCopy hold hcall =>
    exact ((asCopy_spec (H := fun _ => True) h hold fun _ _ => trivial).of_ok hcall).1
  | asCopyFails hold hcall =>
    exact ((asCopy_spec (H := fun _ => True) h hold fun _ _ => trivial).of_err hcall).1
  | asDestroy has hcall =>
    obtain ⟨_, -, -, h'⟩ := (asDestroy_spec (h.perm (List.perm_cons_erase has))).of_ok hcall
    exact h'
  | @asDefineRegion as vaddr sys' hcall =>
    have hspec : Meets (Os161.asDefineRegion as vaddr)
        (fun _ sys' => AsInv base sys' s.spaces s.blocks) (fun _ _ => True) s.sys := by
      simp only [Os161.asDefineRegion, meets_bind, meets_get, meets_ite, meets_modify, meets_fail]
      exact ⟨fun _ => h.setSpace _ _ rfl, fun _ => ⟨fun _ => h.setSpace _ _ rfl, fun _ => trivial⟩⟩
    exact hspec.of_ok hcall
  | asActivate hcall =>
    cases hcall
    exact h
  | heap hstep => exact hstep.inv _ h
  | write hmap hlo hhi =>
    refine h.writeFrame hmap.mem fun x hx => Function.update_of_ne ?_ _ _
    simp only [Nat.mul_one] at hx
    omega

/-- The states of the system after `vm_bootstrap`, with an empty heap and no address space, and any
number of steps. -/
def AsState.Reachable (s : AsState) : Prop :=
  ∃ (vm₀ : Vm) (sys₀ : VmSys) (old : ℕ → CoremapEntry), RamRange vm₀.firstpaddr vm₀.lastpaddr ∧
    vmBootstrap old vm₀ = .ok () sys₀.kern.vm ∧ sys₀.kern.heap.Empty ∧
    Relation.ReflTransGen AsStep ⟨sys₀, [], []⟩ s

/-- The invariant holds in every state of every run. -/
theorem AsState.Reachable.inv {s : AsState} (hs : s.Reachable) :
    ∃ base, AsInv base s.sys s.spaces s.blocks := by
  obtain ⟨vm₀, sys₀, old, hram, hboot, hempty, hrun⟩ := hs
  refine ⟨toppagePtr vm₀.firstpaddr vm₀.lastpaddr, ?_⟩
  induction hrun with
  | refl => exact hempty.inv ((vmBootstrap_spec old hram).of_ok hboot)
  | tail _ hstep ih => exact hstep.inv ih

/-- **Address spaces are isolated.** In every state of every run: no frame backs two virtual pages,
of one address space or of two; every frame that backs a virtual page is a single-page allocation of
the coremap; and it shares no byte with a kernel allocation, be it an address space, a second-level
table or a block of another caller of `kmalloc`, nor is it a page of the subpage allocator. -/
theorem addrspaces_isolated {s : AsState} (hs : s.Reachable) :
    (∀ as i j as' i' j' frame, Maps s.sys s.spaces as i j frame →
      Maps s.sys s.spaces as' i' j' frame → as = as' ∧ i = i' ∧ j = j') ∧
    ∀ as i j frame, Maps s.sys s.spaces as i j frame →
      (∃ e ∈ s.sys.kern.vm.coremap, e.phyaddr = frame ∧ e.taken = true ∧ e.npage = 1) ∧
      (∀ b ∈ s.spaces.flatMap (asBlocks s.sys) ++ s.blocks,
        frame + kseg0 + pageSize ≤ b.addr ∨ b.addr + b.extent ≤ frame + kseg0) ∧
      ∀ pr < npagerefs, s.sys.kern.heap.inuse pr = true →
        s.sys.kern.heap.prPageaddr pr ≠ frame + kseg0 := by
  obtain ⟨base, h⟩ := hs.inv
  exact ⟨fun _ _ _ _ _ _ _ hm hm' => h.maps_inj hm hm',
    fun _ _ _ _ hm => ⟨h.maps_taken hm, h.maps_apart hm⟩⟩

/-- A machine with twenty free pages, before `vm_bootstrap`. -/
def twentyPageVm : Vm := { fivePageVm with lastpaddr := 0x34000 }

/-- The same machine after `vm_bootstrap`. -/
def twentyPageSys : VmSys where
  kern := { fourFrameKern with
    vm := (vmBootstrap (fun _ => default) twentyPageVm).stateD twentyPageVm }
  spaces := fun _ => ⟨0, 0, 0, fun _ => 0⟩
  tables := fun _ => ⟨fun _ => ⟨0, 0⟩⟩
  tlb := fun _ => (0, 0)

/-- An address space, a write fault in it at `0x400000`, and a copy of it. -/
def forkedState : AsState :=
  let s₀ : AsState := ⟨twentyPageSys, [], []⟩
  let as := (asCreate s₀.sys).valueD 0
  let s₁ : AsState :=
    ⟨(asCreate s₀.sys).stateD s₀.sys, if as = 0 then s₀.spaces else as :: s₀.spaces, []⟩
  let s₂ : AsState := { s₁ with sys := (vmFault as vmFaultWrite 0x400000 s₁.sys).stateD s₁.sys }
  ⟨(asCopy as s₂.sys).stateD s₂.sys, (asCopy as s₂.sys).valueD 0 :: s₂.spaces, []⟩

theorem forkedState_reachable : forkedState.Reachable :=
  ⟨twentyPageVm, twentyPageSys, fun _ => default, ⟨by decide, by decide⟩, rfl,
    ⟨rfl, fun _ _ => rfl, fun _ _ => rfl⟩,
    ((Relation.ReflTransGen.refl.tail
      (.asCreate (Outcome.eq_ok _ _ _ (by decide +kernel)))).tail
        (.vmFault (Or.inr (by decide +kernel)) (Outcome.eq_ok _ () _ (by decide +kernel)))).tail
          (.asCopy (by decide +kernel) (Outcome.eq_ok _ _ _ (by decide +kernel)))⟩

/-- After a fork the parent and the child hold the page at `0x400000` in frames of their own. -/
theorem addrspaces_isolated_forkedState :
    Maps forkedState.sys forkedState.spaces 0x80021000 1 0 0x26000 ∧
    Maps forkedState.sys forkedState.spaces 0x80027000 1 0 0x2c000 ∧
    ∃ e ∈ forkedState.sys.kern.vm.coremap, e.phyaddr = 0x2c000 ∧ e.taken = true ∧ e.npage = 1 := by
  have hparent : Maps forkedState.sys forkedState.spaces 0x80021000 1 0 0x26000 :=
    ⟨by decide +kernel, by decide, by decide, by decide +kernel, by decide +kernel,
      by decide +kernel⟩
  have hchild : Maps forkedState.sys forkedState.spaces 0x80027000 1 0 0x2c000 :=
    ⟨by decide +kernel, by decide, by decide, by decide +kernel, by decide +kernel,
      by decide +kernel⟩
  exact ⟨hparent, hchild, ((addrspaces_isolated forkedState_reachable).2 _ _ _ _ hchild).1⟩

end Os161
