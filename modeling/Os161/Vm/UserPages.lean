import Os161.Vm.AddrspaceIsolation

/-!
# The pages a program sees

`VmSys.pages` reads the page table of an address space and the memory behind it: the contents of
every virtual page that has a frame. A program can observe this much and no more, and no frame
number and no kernel pointer occurs in it.

`Shows L s view s'` says what an operation from `s` to `s'` did to the address spaces `L` in these
terms: they show `view` now, and no page has lost its frame. Every operation on address spaces has a
specification of this form: a fault adds a page of zeros, `as_copy` shows the pages of the old
address space in the new one, and creation and teardown change nothing for the others. The reason is
the same for all of them: frames of different pages do not overlap (`UserInv.apart`), so a write to
one frame shows in one page.
-/

namespace Os161

open Prog

variable {base : ℕ} {s s' : VmSys} {L : List ℕ} {blocks : List KBlock}

/-! ## Views -/

/-- The contents of the virtual pages with indices `i` and `j`. -/
abbrev Pages := ℕ → ℕ → Option (ℕ → ℕ)

namespace Pages

/-- The page with indices `i` and `j` gets the contents `c`. -/
def set (v : Pages) (i j : ℕ) (c : ℕ → ℕ) : Pages :=
  Function.update v i (Function.update (v i) j (some c))

/-- A page of zeros where there is no page. -/
def touch (v : Pages) (i j : ℕ) : Pages :=
  match v i j with
  | none => v.set i j fun _ => 0
  | some _ => v

variable {v : Pages} {i j : ℕ} {c : ℕ → ℕ}

theorem set_same : v.set i j c i j = some c := by
  simp only [set, Function.update_self]

theorem set_of_ne {i' j' : ℕ} (h : ¬ (i' = i ∧ j' = j)) : v.set i j c i' j' = v i' j' := by
  by_cases hi : i' = i
  · subst hi
    simp only [set, Function.update_self]
    exact Function.update_of_ne (fun hj => h ⟨rfl, hj⟩) _ _
  · simp only [set, Function.update_of_ne hi]

theorem touch_of_none (h : v i j = none) : v.touch i j = v.set i j fun _ => 0 := by
  simp only [touch, h]

theorem touch_of_ne_none (h : v i j ≠ none) : v.touch i j = v := by
  obtain ⟨c, hc⟩ := Option.ne_none_iff_exists'.mp h
  simp only [touch, hc]

end Pages

/-- The frame behind a virtual page. -/
def VmSys.frame? (s : VmSys) (as i j : ℕ) : Option ℕ :=
  let p := (s.spaces as).pagetable2 i
  let e := (s.tables p).pageentry j
  if i < 512 ∧ j < 1024 ∧ p ≠ 0 ∧ e.valid ≠ 0 then some e.phyaddr else none

/-- The first page of a memory. -/
def clip (c : ℕ → ℕ) (x : ℕ) : ℕ := if x < pageSize then c x else 0

theorem clip_congr {c c' : ℕ → ℕ} (h : ∀ x < pageSize, c x = c' x) : clip c = clip c' := by
  funext x
  unfold clip
  split
  case isTrue hx => exact h x hx
  case isFalse => rfl

theorem clip_zero : clip (fun _ => 0) = fun _ => 0 := by
  funext x
  exact ite_self 0

/-- The words of a frame. -/
def VmSys.contents (s : VmSys) (frame : ℕ) : ℕ → ℕ := clip fun x => s.kern.mem (frame + kseg0 + x)

/-- The pages of an address space. -/
def VmSys.pages (s : VmSys) (as : ℕ) : Pages := fun i j => (s.frame? as i j).map s.contents

/-- What `as_define_region` has recorded in an address space. -/
def VmSys.regions (s : VmSys) (as : ℕ) : ℕ × ℕ × ℕ :=
  ((s.spaces as).asVbase1, (s.spaces as).asVbase2, (s.spaces as).asStackpbase)

theorem frame?_eq_some (has : as ∈ L) {i j frame : ℕ} :
    s.frame? as i j = some frame ↔ Maps s L as i j frame := by
  simp only [VmSys.frame?, Option.ite_none_right_eq_some, Option.some.injEq]
  constructor
  · rintro ⟨⟨hi, hj, hp, hvalid⟩, hphy⟩
    exact ⟨has, hi, hj, hp, hvalid, hphy⟩
  · intro hm
    exact ⟨⟨hm.slot, hm.entry, hm.table, hm.valid⟩, hm.phyaddr⟩

/-- The frame of a page is read off its slot and its entry. -/
theorem frame?_congr {as i j : ℕ}
    (hptr : (s'.spaces as).pagetable2 i = (s.spaces as).pagetable2 i)
    (hentry : i < 512 → (s.spaces as).pagetable2 i ≠ 0 →
      (s'.tables ((s.spaces as).pagetable2 i)).pageentry j =
        (s.tables ((s.spaces as).pagetable2 i)).pageentry j) :
    s'.frame? as i j = s.frame? as i j := by
  simp only [VmSys.frame?, hptr]
  by_cases hc : i < 512 ∧ (s.spaces as).pagetable2 i ≠ 0
  · rw [hentry hc.1 hc.2]
  · rw [if_neg (fun h => hc ⟨h.1, h.2.2.1⟩), if_neg (fun h => hc ⟨h.1, h.2.2.1⟩)]

theorem frame?_of_null {as i : ℕ} (hp : (s.spaces as).pagetable2 i = 0) (j : ℕ) :
    s.frame? as i j = none :=
  if_neg fun h => h.2.2.1 hp

theorem frame?_of_invalid {as i j : ℕ}
    (hvalid : ((s.tables ((s.spaces as).pagetable2 i)).pageentry j).valid = 0) :
    s.frame? as i j = none :=
  if_neg fun h => h.2.2.2 hvalid

theorem pages_eq_none {as i j : ℕ} : s.pages as i j = none ↔ s.frame? as i j = none :=
  Option.map_eq_none_iff

/-- States that differ in the page allocator, the heap and the TLB only. -/
structure SameUser (s s' : VmSys) : Prop where
  spaces : s'.spaces = s.spaces
  tables : s'.tables = s.tables
  mem : s'.kern.mem = s.kern.mem

theorem SameUser.refl (s : VmSys) : SameUser s s := ⟨rfl, rfl, rfl⟩

theorem SameUser.trans {s'' : VmSys} (h : SameUser s s') (h' : SameUser s' s'') : SameUser s s'' :=
  ⟨h'.spaces.trans h.spaces, h'.tables.trans h.tables, h'.mem.trans h.mem⟩

/-- States with the same tables have the same frames. -/
theorem SameUser.frame? (h : SameUser s s') : s'.frame? = s.frame? := by
  funext as i j
  exact frame?_congr (by rw [h.spaces]) fun _ _ => by rw [h.tables]

/-- The frames do not depend on the contents of memory. -/
theorem frame?_setMem (s : VmSys) (mem : ℕ → ℕ) :
    VmSys.frame? { s with kern := { s.kern with mem := mem } } = s.frame? := rfl

/-- States with the same frames and memory have the same pages. -/
theorem pages_congr {as : ℕ} (hframes : ∀ i j, s'.frame? as i j = s.frame? as i j)
    (hmem : s'.kern.mem = s.kern.mem) : s'.pages as = s.pages as := by
  have hcontents : s'.contents = s.contents := by
    funext frame
    rw [VmSys.contents, VmSys.contents, hmem]
  funext i j
  rw [VmSys.pages, VmSys.pages, hframes, hcontents]

/-! ## The invariant -/

/-- `AsInv`, and the valid flags of live page tables are zero or one: `vm_fault` asks whether a flag
is zero and `as_copy` whether it is one. -/
structure UserInv (base : ℕ) (s : VmSys) (L : List ℕ) (blocks : List KBlock) : Prop where
  inv : AsInv base s L blocks
  bits : ∀ as ∈ L, ∀ i < 512, (s.spaces as).pagetable2 i ≠ 0 → ∀ j,
    ((s.tables ((s.spaces as).pagetable2 i)).pageentry j).valid = 0 ∨
      ((s.tables ((s.spaces as).pagetable2 i)).pageentry j).valid = 1

/-- What happens outside the tables keeps the flags. -/
theorem UserInv.of_tables (h : UserInv base s L blocks) {L' : List ℕ} {blocks' : List KBlock}
    (hsub : L' ⊆ L) (hinv : AsInv base s' L' blocks') (hspaces : s'.spaces = s.spaces)
    (htables : s'.tables = s.tables) : UserInv base s' L' blocks' := by
  refine ⟨hinv, fun as has => ?_⟩
  rw [hspaces, htables]
  exact h.bits as (hsub has)

/-- The order of the live address spaces does not matter. -/
theorem UserInv.perm (h : UserInv base s L blocks) {L' : List ℕ} (hperm : L.Perm L') :
    UserInv base s L' blocks :=
  ⟨h.inv.perm hperm, fun as has => h.bits as (hperm.mem_iff.mpr has)⟩

/-- The order of the blocks does not matter. -/
theorem UserInv.permBlocks (h : UserInv base s L blocks) {blocks' : List KBlock}
    (hperm : blocks.Perm blocks') : UserInv base s L blocks' :=
  ⟨KernInv.perm h.inv (hperm.append_left _) (List.Perm.refl _), h.bits⟩

/-- A live address space is not the null pointer. -/
theorem UserInv.ne_null (h : UserInv base s L blocks) {as : ℕ} (has : as ∈ L) : as ≠ 0 := by
  rintro rfl
  obtain ⟨g, hk⟩ := h.inv
  have hrange := hk.block_range (b := ⟨0, addrspaceSize⟩) (List.mem_append_left _
    (List.mem_flatMap.mpr ⟨0, has, List.mem_cons_self⟩))
  exact absurd hrange.1 (Nat.not_lt_zero _)

/-- Frames of different pages do not overlap. -/
theorem UserInv.apart (h : UserInv base s L blocks) {as as' i i' j j' frame frame' : ℕ}
    (has : as ∈ L) (has' : as' ∈ L) (hf : s.frame? as i j = some frame)
    (hf' : s.frame? as' i' j' = some frame') (hne : ¬ (as' = as ∧ i' = i ∧ j' = j)) :
    frame + pageSize ≤ frame' ∨ frame' + pageSize ≤ frame := by
  rw [frame?_eq_some has] at hf
  rw [frame?_eq_some has'] at hf'
  have hframes : frame ≠ frame' := by
    rintro rfl
    exact hne (h.inv.maps_inj hf' hf)
  obtain ⟨g, hk⟩ := h.inv
  have hruns : (⟨frame + kseg0, 1⟩ : PageRun) ≠ ⟨frame' + kseg0, 1⟩ := by
    intro heq
    have := congrArg PageRun.addr heq
    simp only at this
    omega
  have : Std.Symm fun r r' : PageRun =>
      r.addr + pageSize * r.npages ≤ r'.addr ∨ r'.addr + pageSize * r'.npages ≤ r.addr :=
    ⟨fun _ _ h => h.symm⟩
  have hapart := hk.rest_apart.1.forall hf.mem hf'.mem hruns
  simp only [Nat.mul_one] at hapart
  omega

/-- The kernel address of the frame of a page. -/
theorem UserInv.kvaddr (h : UserInv base s L blocks) {as i j frame : ℕ} (has : as ∈ L)
    (hf : s.frame? as i j = some frame) : paddrToKvaddr frame = frame + kseg0 :=
  KernInv.kvaddr h.inv ((frame?_eq_some has).mp hf).mem

/-! ## What an operation shows -/

/-- After an operation from `s` to `s'` the address spaces `L` show `view`, their pages still have
the frames they had, their regions are those they had, and the blocks `blocks` of the heap hold what
they held. -/
structure Shows (L : List ℕ) (blocks : List KBlock) (s : VmSys) (view : ℕ → Pages) (s' : VmSys) :
    Prop where
  grows : ∀ as ∈ L, ∀ i j frame, s.frame? as i j = some frame → s'.frame? as i j = some frame
  regions : ∀ as ∈ L, s'.regions as = s.regions as
  pages : ∀ as ∈ L, s'.pages as = view as
  held : ∀ b ∈ blocks, ∀ x, b.addr ≤ x → x < b.addr + b.sz → s'.kern.mem x = s.kern.mem x

/-- Nothing changes. -/
theorem Shows.keeps (hframes : ∀ as ∈ L, ∀ i j, s'.frame? as i j = s.frame? as i j)
    (hregions : ∀ as ∈ L, s'.regions as = s.regions as)
    (hmem : s'.kern.mem = s.kern.mem) : Shows L blocks s s.pages s' where
  grows as has i j frame hf := by rw [hframes as has, hf]
  regions := hregions
  pages as has := pages_congr (hframes as has) hmem
  held _ _ x _ _ := congrFun hmem x

/-- What happens outside the page tables and the memory does not show. -/
theorem SameUser.shows (h : SameUser s s') (L : List ℕ) (blocks : List KBlock) :
    Shows L blocks s s.pages s' :=
  .keeps (fun as _ i j => by rw [h.frame?]) (fun as _ => by rw [VmSys.regions, h.spaces]; rfl) h.mem

theorem Shows.trans {s'' : VmSys} {v v' : ℕ → Pages} (h : Shows L blocks s v s')
    (h' : Shows L blocks s' v' s'') : Shows L blocks s v' s'' where
  grows as has i j frame hf := h'.grows as has i j frame (h.grows as has i j frame hf)
  regions as has := (h'.regions as has).trans (h.regions as has)
  pages := h'.pages
  held b hb x hlo hhi := (h'.held b hb x hlo hhi).trans (h.held b hb x hlo hhi)

theorem Shows.congr {v v' : ℕ → Pages} (h : Shows L blocks s v s') (hv : ∀ as ∈ L, v as = v' as) :
    Shows L blocks s v' s' where
  grows := h.grows
  regions := h.regions
  pages as has := (h.pages as has).trans (hv as has)
  held := h.held

/-- A step after which there is the same to see. -/
theorem Shows.comp {s'' : VmSys} {v : ℕ → Pages} (h : Shows L blocks s v s')
    (h' : Shows L blocks s' s'.pages s'') : Shows L blocks s v s'' :=
  (h.trans h').congr h.pages

/-- Fewer address spaces and fewer blocks. -/
theorem Shows.subset {v : ℕ → Pages} {L' : List ℕ} {blocks' : List KBlock}
    (h : Shows L blocks s v s') (hL : L' ⊆ L) (hsub : blocks' ⊆ blocks) :
    Shows L' blocks' s v s' where
  grows as has := h.grows as (hL has)
  regions as has := h.regions as (hL has)
  pages as has := h.pages as (hL has)
  held b hb := h.held b (hsub hb)

/-- Two operations, the second of which changes the view of `as` only. -/
theorem Shows.trans_update {s'' : VmSys} {v : ℕ → Pages} {as : ℕ} {w : Pages}
    (h : Shows L blocks s v s')
    (h' : Shows L blocks s' (Function.update s'.pages as w) s'') :
    Shows L blocks s (Function.update v as w) s'' :=
  (h.trans h').congr fun as' has' => by
    by_cases heq : as' = as
    · subst heq
      simp only [Function.update_self]
    · simp only [Function.update_of_ne heq]
      exact h.pages as' has'

/-- A write to the frame of a page shows in that page. -/
theorem UserInv.writePage (h : UserInv base s L blocks) {as i j frame : ℕ} (has : as ∈ L)
    (hf : s.frame? as i j = some frame) {mem : ℕ → ℕ}
    (hmem : ∀ x, x < frame + kseg0 ∨ frame + kseg0 + pageSize ≤ x → mem x = s.kern.mem x) :
    UserInv base { s with kern := { s.kern with mem := mem } } L blocks ∧
      Shows L blocks s (Function.update s.pages as
        ((s.pages as).set i j (clip fun x => mem (frame + kseg0 + x))))
        { s with kern := { s.kern with mem := mem } } := by
  have hm := (frame?_eq_some has).mp hf
  refine ⟨h.of_tables (List.Subset.refl L) (h.inv.writeFrame hm.mem fun x hx => hmem x ?_) rfl rfl,
    ⟨fun as' _ i' j' frame' hf' => hf', fun _ _ => rfl, fun as' has' => ?_,
      fun b hb x hlo hhi => hmem x ?_⟩⟩
  · simpa only [Nat.mul_one] using hx
  rotate_left
  · obtain ⟨g, hk⟩ := h.inv
    have hapart := (hk.rest_apart.2 _ hm.mem).1 b (List.mem_append_right _ hb)
    have hsz := (hk.block_sound (List.mem_append_right _ hb)).1
    simp only [Nat.mul_one] at hapart
    omega
  funext i' j'
  by_cases hsame : as' = as ∧ i' = i ∧ j' = j
  · obtain ⟨rfl, rfl, rfl⟩ := hsame
    rw [Function.update_self, Pages.set_same, VmSys.pages, frame?_setMem, hf]
    rfl
  · -- another page: its frame is apart from the one written
    have hold : Function.update s.pages as
        ((s.pages as).set i j (clip fun x => mem (frame + kseg0 + x))) as' i' j' =
          s.pages as' i' j' := by
      by_cases heq : as' = as
      · subst heq
        rw [Function.update_self, Pages.set_of_ne fun hc => hsame ⟨rfl, hc⟩]
      · rw [Function.update_of_ne heq]
    rw [hold, VmSys.pages, VmSys.pages, frame?_setMem]
    cases hf' : s.frame? as' i' j' with
    | none => rfl
    | some frame' =>
      have hapart := h.apart has has' hf hf' hsame
      exact congrArg some (clip_congr fun x hx => hmem _ (by omega))

/-! ## Tables and frames -/

/-- A call of the page allocator leaves memory, page tables and TLB alone. -/
theorem onKern_onVm_frame {α : Type} (m : VmM α) (s : VmSys) :
    Meets (onKern (onVm m)) (fun _ s' => SameUser s s' ∧ s'.tlb = s.tlb)
      (fun _ s' => SameUser s s' ∧ s'.tlb = s.tlb) s (fun _ => True) := by
  simp only [onKern, onVm, meets_zoom]
  unfold Meets
  split
  · exact ⟨⟨rfl, rfl, rfl⟩, trivial⟩
  · exact ⟨⟨rfl, rfl, rfl⟩, trivial⟩
  · trivial

/-- `newTable` writes no page, no region and no TLB entry. -/
theorem newTable_frame (s : VmSys) (as i : ℕ) :
    Meets (newTable as i)
      (fun _ s' => s'.kern.mem = s.kern.mem ∧ s'.tlb = s.tlb ∧ s'.regions = s.regions)
      (fun _ _ => True) s (fun _ => True) := by
  rw [newTable, kmalloc_pagetable2, meets_bind]
  refine (onKern_onVm_frame _ s).mono ?_ fun _ _ _ => trivial
  rintro p s₁ ⟨⟨hspaces, -, hmem⟩, htlb⟩
  simp only [setTable, bzeroTable, meets_bind, meets_modify, meets_require_partial]
  refine fun _ => ⟨hmem, htlb, funext fun as' => ?_⟩
  simp only [VmSys.regions, hspaces]
  by_cases heq : as' = as
  · subst heq
    simp only [Function.update_self]
  · simp only [Function.update_of_ne heq]

/-- A new table does not show. -/
theorem newTable_shows (h : UserInv base s L blocks) {as i : ℕ} (has : as ∈ L) (hi : i < 512)
    (hslot : (s.spaces as).pagetable2 i = 0) :
    Meets (newTable as i) (fun _ s' => UserInv base s' L blocks ∧ NewTable s as i s' ∧
        Shows L blocks s s.pages s' ∧ s'.kern.mem = s.kern.mem ∧ s'.tlb = s.tlb)
      (fun _ _ => False) s (fun _ => True) := by
  refine (newTable_spec h.inv has hi hslot fun _ _ => trivial).and_run.imp ?_
  rintro _ s' ⟨⟨hinv, hnew⟩, hrun⟩
  obtain ⟨hmem, htlb, hregions⟩ := (newTable_frame s as i).of_ok hrun
  -- the slots other than the new one, and what they point to
  have hptr : ∀ as' i', ¬ (as' = as ∧ i' = i) →
      (s'.spaces as').pagetable2 i' = (s.spaces as').pagetable2 i' := by
    intro as' i' hne
    by_cases heq : as' = as
    · subst heq
      exact hnew.slots i' fun hii => hne ⟨rfl, hii⟩
    · rw [hnew.spaces as' heq]
  have htable : ∀ as' ∈ L, ∀ i' < 512, ¬ (as' = as ∧ i' = i) →
      (s.spaces as').pagetable2 i' ≠ 0 →
      s'.tables ((s.spaces as').pagetable2 i') = s.tables ((s.spaces as').pagetable2 i') := by
    intro as' has' i' hi' hne hp
    refine hnew.tables _ fun heq => hne ?_
    rw [← hptr as' i' hne] at heq hp
    exact hinv.ptr_inj has' has hi' hi hp heq
  refine ⟨⟨hinv, fun as' has' i' hi' hp j => ?_⟩, hnew,
    .keeps (fun as' has' i' j => ?_) (fun as' _ => congrFun hregions as') hmem, hmem, htlb⟩
  · by_cases hc : as' = as ∧ i' = i
    · obtain ⟨rfl, rfl⟩ := hc
      exact Or.inl (hnew.empty j)
    · rw [hptr as' i' hc] at hp ⊢
      rw [htable as' has' i' hi' hc hp]
      exact h.bits as' has' i' hi' hp j
  · by_cases hc : as' = as ∧ i' = i
    · obtain ⟨rfl, rfl⟩ := hc
      rw [frame?_of_null hslot, frame?_of_invalid (hnew.empty j)]
    · exact frame?_congr (hptr as' i' hc) fun hi' hp => by rw [htable as' has' i' hi' hc hp]

/-- What `allocEntry` does for the page `i`, `j` of `as`: it has the frame `phyaddr` now, and its
contents are still to be written. -/
structure FreshPage (L : List ℕ) (s : VmSys) (as i j phyaddr : ℕ) (s' : VmSys) : Prop where
  entry : NewEntry s ((s.spaces as).pagetable2 i) j s'
  fresh : s.frame? as i j = none
  frame : s'.frame? as i j = some phyaddr
  others : ∀ as' ∈ L, ∀ i' j', ¬ (as' = as ∧ i' = i ∧ j' = j) →
    s'.frame? as' i' j' = s.frame? as' i' j'
  mem : s'.kern.mem = s.kern.mem
  tlb : s'.tlb = s.tlb

/-- `allocEntry` leaves the entry with the frame it returns. -/
theorem allocEntry_frame (s : VmSys) (p j : ℕ) :
    Meets (allocEntry p j) (fun phyaddr s' => (s'.tables p).pageentry j = ⟨phyaddr, 1⟩ ∧
        s'.kern.mem = s.kern.mem ∧ s'.tlb = s.tlb)
      (fun _ _ => True) s (fun _ => True) := by
  rw [allocEntry, meets_bind]
  refine (onKern_onVm_frame _ s).mono ?_ fun _ _ _ => trivial
  rintro a s₁ ⟨⟨-, -, hmem⟩, htlb⟩
  simp only [setEntry, meets_bind, meets_get, meets_modify, meets_ite, meets_fail, meets_pure,
    meets_require_partial, Function.update_self]
  exact ⟨fun _ => trivial, fun _ _ => ⟨trivial, hmem, htlb⟩⟩

/-- A frame for a page that has none. -/
theorem allocEntry_shows (h : UserInv base s L blocks) {as i j : ℕ} (has : as ∈ L) (hi : i < 512)
    (hp : (s.spaces as).pagetable2 i ≠ 0) (hj : j < 1024)
    (hinvalid : ((s.tables ((s.spaces as).pagetable2 i)).pageentry j).valid = 0) :
    Meets (allocEntry ((s.spaces as).pagetable2 i) j)
      (fun phyaddr s' => phyaddr = kseg0 ∨
        (UserInv base s' L blocks ∧ FreshPage L s as i j phyaddr s'))
      (fun _ _ => False) s (fun _ => True) := by
  refine (allocEntry_spec h.inv has hi hp hj hinvalid fun _ _ => trivial).and_run.imp ?_
  rintro phyaddr s' ⟨⟨hbad, -⟩ | ⟨hinv, -, hnew, -⟩, hrun⟩
  · exact Or.inl hbad
  obtain ⟨hentry, hmem, htlb⟩ := (allocEntry_frame s _ j).of_ok hrun
  -- the entries other than the new one
  have hothers : ∀ as' ∈ L, ∀ i' < 512, ∀ j', ¬ (as' = as ∧ i' = i ∧ j' = j) →
      (s.spaces as').pagetable2 i' ≠ 0 →
      (s'.tables ((s.spaces as').pagetable2 i')).pageentry j' =
        (s.tables ((s.spaces as').pagetable2 i')).pageentry j' := by
    intro as' has' i' hi' j' hne hp'
    by_cases htable : (s.spaces as').pagetable2 i' = (s.spaces as).pagetable2 i
    · obtain ⟨rfl, rfl⟩ := h.inv.ptr_inj has' has hi' hi hp' htable
      exact hnew.entries j' fun hjj => hne ⟨rfl, rfl, hjj⟩
    · rw [hnew.tables _ htable]
  refine Or.inr ⟨⟨hinv, fun as' has' i' hi' hp' j' => ?_⟩, hnew, frame?_of_invalid hinvalid, ?_,
    fun as' has' i' j' hne => ?_, hmem, htlb⟩
  · rw [hnew.spaces] at hp' ⊢
    by_cases hc : as' = as ∧ i' = i ∧ j' = j
    · obtain ⟨rfl, rfl, rfl⟩ := hc
      rw [hentry]
      exact Or.inr rfl
    · rw [hothers as' has' i' hi' j' hc hp']
      exact h.bits as' has' i' hi' hp' j'
  · rw [VmSys.frame?, hnew.spaces, hentry]
    exact if_pos ⟨hi, hj, hp, one_ne_zero⟩
  · exact frame?_congr (by rw [hnew.spaces]) fun hi' hp' => hothers as' has' i' hi' j' hne hp'

/-- Writing the contents of a fresh page shows in that page. -/
theorem FreshPage.write {as i j phyaddr : ℕ} (hfresh : FreshPage L s as i j phyaddr s')
    (h' : UserInv base s' L blocks) (has : as ∈ L) {mem : ℕ → ℕ}
    (hmem : ∀ x, x < phyaddr + kseg0 ∨ phyaddr + kseg0 + pageSize ≤ x → mem x = s'.kern.mem x) :
    UserInv base { s' with kern := { s'.kern with mem := mem } } L blocks ∧
      Shows L blocks s (Function.update s.pages as
        ((s.pages as).set i j (clip fun x => mem (phyaddr + kseg0 + x))))
        { s' with kern := { s'.kern with mem := mem } } := by
  obtain ⟨h'', hshows⟩ := h'.writePage has hfresh.frame hmem
  refine ⟨h'', fun as' has' i' j' frame hf => ?_, fun as' has' => ?_, fun as' has' => ?_,
    fun b hb x hlo hhi => (hshows.held b hb x hlo hhi).trans (congrFun hfresh.mem x)⟩
  · refine hshows.grows as' has' i' j' frame ?_
    rw [hfresh.others as' has' i' j' ?_, hf]
    rintro ⟨rfl, rfl, rfl⟩
    rw [hfresh.fresh] at hf
    exact absurd hf (Option.some_ne_none _).symm
  · rw [hshows.regions as' has', VmSys.regions, hfresh.entry.spaces]
    rfl
  · rw [hshows.pages as' has']
    -- the fresh page aside, the pages of `s'` are those of `s`
    have hcontents : s'.contents = s.contents := by
      funext frame
      rw [VmSys.contents, VmSys.contents, hfresh.mem]
    have hpages : ∀ i' j', ¬ (as' = as ∧ i' = i ∧ j' = j) →
        s'.pages as' i' j' = s.pages as' i' j' := by
      intro i' j' hne
      rw [VmSys.pages, VmSys.pages, hfresh.others as' has' i' j' hne, hcontents]
    funext i' j'
    by_cases heq : as' = as
    · subst heq
      simp only [Function.update_self]
      by_cases hc : i' = i ∧ j' = j
      · obtain ⟨rfl, rfl⟩ := hc
        rw [Pages.set_same, Pages.set_same]
      · rw [Pages.set_of_ne hc, Pages.set_of_ne hc, hpages i' j' fun h => hc h.2]
    · rw [Function.update_of_ne heq, Function.update_of_ne heq, hpages i' j' fun h => heq h.1]

/-! ## Demand paging -/

/-- The first of the `n` slots from `i` on that is not in use. -/
def firstFree (used : ℕ → Bool) : (n i : ℕ) → Option ℕ
  | 0, _ => none
  | n + 1, i => if used i then firstFree used n (i + 1) else some i

theorem firstFree_eq_some {used : ℕ → Bool} {n i k : ℕ} (h : firstFree used n i = some k) :
    k < i + n ∧ used k = false := by
  induction n generalizing i with
  | zero => exact absurd h (Option.some_ne_none k).symm
  | succ n ih =>
    rw [firstFree] at h
    split at h
    · obtain ⟨hlt, hfree⟩ := ih h
      exact ⟨by omega, hfree⟩
    case isFalse hfree =>
      obtain rfl := Option.some.inj h
      exact ⟨by omega, Bool.eq_false_of_not_eq_true hfree⟩

theorem firstFree_congr {used used' : ℕ → Bool} {n i : ℕ}
    (h : ∀ k < i + n, used k = used' k) : firstFree used n i = firstFree used' n i := by
  induction n generalizing i with
  | zero => rfl
  | succ n ih => rw [firstFree, firstFree, h i (by omega), ih fun k hk => h k (by omega)]

/-- The TLB entry in slot `k` is valid. -/
def VmSys.valid (s : VmSys) (k : ℕ) : Bool := (s.tlb k).2 &&& tlbloValid ≠ 0

/-- The loop over the TLB fills the first free slot. -/
theorem tlbFill_eq (s : VmSys) (ehi elo n i : ℕ) :
    tlbFill ehi elo n i s = match firstFree s.valid n i with
      | none => .ok false s
      | some k => .ok true { s with tlb := Function.update s.tlb k (ehi, elo) } := by
  induction n generalizing i with
  | zero => rfl
  | succ n ih =>
    by_cases hvalid : (s.tlb i).2 &&& tlbloValid ≠ 0
    · have hfill : tlbFill ehi elo (n + 1) i s = tlbFill ehi elo n (i + 1) s := by
        show (if (s.tlb i).2 &&& tlbloValid ≠ 0 then tlbFill ehi elo n (i + 1) else _) s = _
        rw [if_pos hvalid]
      have hused : s.valid i = true := decide_eq_true hvalid
      rw [hfill, ih, firstFree, if_pos hused]
    · have hfree : ¬ s.valid i = true := fun h => hvalid (of_decide_eq_true h)
      rw [firstFree, if_neg hfree]
      show (if (s.tlb i).2 &&& tlbloValid ≠ 0 then tlbFill ehi elo n (i + 1) else _) s = _
      rw [if_neg hvalid]
      rfl

/-- `ensurePage` on a page of a live address space: a page of zeros if there was none. -/
theorem ensurePage_shows (h : UserInv base s L blocks) {as i j : ℕ} (has : as ∈ L) (hi : i < 512)
    (hp : (s.spaces as).pagetable2 i ≠ 0) (hj : j < 1024) :
    Meets (ensurePage ((s.spaces as).pagetable2 i) j)
      (fun _ s' => UserInv base s' L blocks ∧ s'.spaces = s.spaces ∧
        Shows L blocks s (Function.update s.pages as ((s.pages as).touch i j)) s' ∧
        s'.frame? as i j ≠ none ∧ s'.tlb = s.tlb)
      (fun _ _ => False) s (fun _ => True) := by
  simp only [ensurePage, meets_bind, meets_get, meets_ite, meets_pure]
  refine ⟨fun hinvalid => ?_, fun hvalid => ?_⟩
  · refine (allocEntry_shows h has hi hp hj hinvalid).imp ?_
    rintro phyaddr s₁ (rfl | ⟨h₁, hfresh⟩)
    · -- the failed allocation: the store goes to address zero
      rw [bzeroPage, meets_bind, meets_require_partial]
      exact fun hge => absurd hge (by decide +kernel)
    · simp only [bzeroPage, onKern, h₁.kvaddr has hfresh.frame, meets_bind, meets_require_partial,
        meets_zoom, meets_modify]
      intro _
      generalize hmem : (fun x => ite (phyaddr + kseg0 ≤ x ∧ x < phyaddr + kseg0 + pageSize) 0
        (s₁.kern.mem x)) = mem
      have hout : ∀ x, x < phyaddr + kseg0 ∨ phyaddr + kseg0 + pageSize ≤ x →
          mem x = s₁.kern.mem x := by
        intro x hx
        rw [← hmem]
        exact if_neg (by omega)
      have hzero : clip (fun x => mem (phyaddr + kseg0 + x)) = fun _ => 0 := by
        rw [← clip_zero]
        refine clip_congr fun x hx => ?_
        rw [← hmem]
        exact if_pos (by omega)
      obtain ⟨h₂, hshows⟩ := hfresh.write h₁ has hout
      refine ⟨h₂, hfresh.entry.spaces, ?_, ?_, hfresh.tlb⟩
      · rw [hzero] at hshows
        rw [Pages.touch_of_none (pages_eq_none.mpr hfresh.fresh)]
        exact hshows
      · rw [frame?_setMem, hfresh.frame]
        exact Option.some_ne_none _
  · have hmapped : s.frame? as i j ≠ none := by
      rw [VmSys.frame?, if_pos ⟨hi, hj, hp, hvalid⟩]
      exact Option.some_ne_none _
    rw [Pages.touch_of_ne_none (mt pages_eq_none.mp hmapped), Function.update_eq_self]
    exact ⟨h, trivial, (SameUser.refl s).shows L blocks, hmapped, trivial⟩

/-- The faults that `vm_fault` serves. -/
def Serves (faulttype : ℤ) (faultaddress : ℕ) : Prop :=
  ¬ (faultaddress > 0x80000000 ∨ faultaddress = 0 ∨ faultaddress % 4 ≠ 0) ∧
    (faulttype = vmFaultRead ∨ faulttype = vmFaultWrite)

instance (faulttype : ℤ) (faultaddress : ℕ) : Decidable (Serves faulttype faultaddress) :=
  inferInstanceAs (Decidable (_ ∧ _))

/-- The error of `vm_fault` for a fault it does not serve. -/
def refusal (faultaddress : ℕ) : Errno :=
  if faultaddress > 0x80000000 ∨ faultaddress = 0 ∨ faultaddress % 4 ≠ 0 then .EFAULT else .EINVAL

/-- The pages after a fault at `faultaddress` in `as`: its page is there. -/
def VmSys.faulted (s : VmSys) (as faultaddress : ℕ) : ℕ → Pages :=
  Function.update s.pages as ((s.pages as).touch (faultaddress / 2 ^ 22)
    (faultaddress / 2 ^ 12 % 2 ^ 10))

/-- What a fault that finds a free slot does to the TLB: the slot maps the page at `ehi`, with
indices `i` and `j`, to its frame. -/
def Enters (s : VmSys) (as i j ehi : ℕ) (s' : VmSys) : Prop :=
  ∃ k frame, firstFree s.valid numTlb 0 = some k ∧ pageFrame frame = frame ∧
    s'.frame? as i j = some frame ∧
    s'.tlb = Function.update s.tlb k (ehi, frame ||| tlbloDirty ||| tlbloValid)

/-- `enterTlb` on a page that has a frame. -/
theorem enterTlb_shows {as i j : ℕ} (hmapped : s.frame? as i j ≠ none) (ehi spl : ℕ) :
    Meets (enterTlb ((s.spaces as).pagetable2 i) j ehi spl)
      (fun _ s' => SameUser s s' ∧ Enters s as i j ehi s')
      (fun _ s' => SameUser s s' ∧ firstFree s.valid numTlb 0 = none ∧ s'.tlb = s.tlb) s
      (fun _ => True) := by
  obtain ⟨frame, hframe⟩ := Option.ne_none_iff_exists'.mp hmapped
  have hphy : ((s.tables ((s.spaces as).pagetable2 i)).pageentry j).phyaddr = frame := by
    simp only [VmSys.frame?, Option.ite_none_right_eq_some, Option.some.injEq] at hframe
    exact hframe.2
  simp only [enterTlb, meets_bind, meets_get, meets_require_partial, hphy]
  intro haligned
  have hfill := tlbFill_eq s ehi (frame ||| tlbloDirty ||| tlbloValid) numTlb 0
  obtain hslot | ⟨k, hslot⟩ := Option.eq_none_or_eq_some (firstFree s.valid numTlb 0)
  · rw [hslot] at hfill
    refine Meets.of_eq_ok hfill ((onKern_onVm_frame (splx spl) s).mono ?_ fun _ s' hs' => ?_)
    · rintro _ s' ⟨hsame, htlb⟩
      rw [if_pos rfl, meets_fail]
      exact ⟨hsame, hslot, htlb⟩
    · exact ⟨hs'.1, hslot, hs'.2⟩
  · rw [hslot] at hfill
    refine Meets.of_eq_ok hfill ?_
    simp only [onKern, onVm, splx, meets_zoom, meets_bind, meets_gets, meets_modify, meets_pure,
      Bool.true_eq_false, if_false]
    refine ⟨⟨rfl, rfl, rfl⟩, k, frame, hslot, haligned, ?_, rfl⟩
    exact hframe

/-- `mapPage` gives the page of the address a frame, and enters it in the TLB if there is room. -/
theorem mapPage_shows (h : UserInv base s L blocks) {as : ℕ} (has : as ∈ L) (faultaddress spl : ℕ) :
    Meets (mapPage as faultaddress spl)
      (fun _ s' => UserInv base s' L blocks ∧ Shows L blocks s (s.faulted as faultaddress) s' ∧
        Enters s as (faultaddress / 2 ^ 22) (faultaddress / 2 ^ 12 % 2 ^ 10) faultaddress s')
      (fun e s' => e = .EFAULT ∧ UserInv base s' L blocks ∧
        Shows L blocks s (s.faulted as faultaddress) s' ∧ firstFree s.valid numTlb 0 = none ∧
        s'.tlb = s.tlb) s (fun _ => True) := by
  simp only [mapPage, meets_bind, meets_gets, meets_require_partial]
  intro hi
  have htable : Meets (ensureTable as (faultaddress / 2 ^ 22))
      (fun _ s' => UserInv base s' L blocks ∧ Shows L blocks s s.pages s' ∧ s'.tlb = s.tlb ∧
        (s'.spaces as).pagetable2 (faultaddress / 2 ^ 22) ≠ 0)
      (fun _ _ => False) s (fun _ => True) := by
    simp only [ensureTable, meets_bind, meets_get, meets_ite, meets_pure]
    refine ⟨fun hslot => (newTable_shows h has hi hslot).imp ?_,
      fun hp => ⟨h, (SameUser.refl s).shows L blocks, trivial, hp⟩⟩
    rintro _ s₁ ⟨h₁, hnew, hshows, -, htlb⟩
    exact ⟨h₁, hshows, htlb, hnew.ptr_ne⟩
  refine htable.noErr ?_
  rintro _ s₁ ⟨h₁, hshows₁, htlb₁, hp⟩
  refine (ensurePage_shows h₁ has hi hp (Nat.mod_lt _ (by norm_num))).noErr ?_
  rintro _ s₂ ⟨h₂, hspaces, hshows₂, hmapped, htlb₂⟩
  have hshows : Shows L blocks s (s.faulted as faultaddress) s₂ := by
    rw [hshows₁.pages as has] at hshows₂
    exact hshows₁.trans_update hshows₂
  have hinv : ∀ {s₃}, SameUser s₂ s₃ → AsInv base s₃ L blocks → UserInv base s₃ L blocks ∧
      Shows L blocks s (s.faulted as faultaddress) s₃ := by
    intro s₃ hsame hinv
    refine ⟨h₂.of_tables (List.Subset.refl L) hinv hsame.spaces hsame.tables,
      hshows.comp (hsame.shows L blocks)⟩
  have htlb : s₂.tlb = s.tlb := htlb₂.trans htlb₁
  have hvalid : s₂.valid = s.valid := by
    funext k
    rw [VmSys.valid, VmSys.valid, htlb]
  rw [← hspaces]
  have henter := enterTlb_shows hmapped faultaddress spl
  refine ((enterTlb_spec h₂.inv _ _ _ spl fun _ _ => trivial).and_outcome henter).mono ?_ ?_
  · rintro _ s₃ ⟨hinv₃, hsame, hent⟩
    obtain ⟨h₃, hshows₃⟩ := hinv hsame hinv₃
    refine ⟨h₃, hshows₃, ?_⟩
    rw [Enters, htlb, hvalid] at hent
    exact hent
  · rintro e s₃ ⟨⟨hinv₃, he⟩, hsame, hfull, htlb₃⟩
    obtain ⟨h₃, hshows₃⟩ := hinv hsame hinv₃
    exact ⟨he, h₃, hshows₃, hvalid ▸ hfull, htlb₃.trans htlb⟩

/-- `vm_fault` on a live address space. A fault it does not serve changes nothing; one it serves
maps the page, also when it then finds no room in the TLB and fails. -/
theorem vmFault_shows (h : UserInv base s L blocks) {as : ℕ} (has : as ∈ L) (faulttype : ℤ)
    (faultaddress : ℕ) :
    Meets (vmFault as faulttype faultaddress)
      (fun _ s' => UserInv base s' L blocks ∧ Serves faulttype faultaddress ∧
        Shows L blocks s (s.faulted as (pageFrame faultaddress)) s' ∧
        Enters s as (pageFrame faultaddress / 2 ^ 22) (pageFrame faultaddress / 2 ^ 12 % 2 ^ 10)
          (pageFrame faultaddress) s')
      (fun e s' => UserInv base s' L blocks ∧ s'.tlb = s.tlb ∧
        (¬ Serves faulttype faultaddress ∧ e = refusal faultaddress ∧ Shows L blocks s s.pages s' ∨
          Serves faulttype faultaddress ∧ e = .EFAULT ∧ firstFree s.valid numTlb 0 = none ∧
            Shows L blocks s (s.faulted as (pageFrame faultaddress)) s')) s (fun _ => True) := by
  simp only [vmFault, meets_ite, meets_fail, meets_bind, meets_halt]
  refine ⟨fun hbad => ⟨h, trivial, .inl ⟨fun hserves => hserves.1 hbad, (if_pos hbad).symm,
    (SameUser.refl s).shows L blocks⟩⟩, fun hgood => ?_⟩
  refine ((splx_as_spec h.inv splHigh).partial_of.and_outcome
    (onKern_onVm_frame splhigh s)).mono ?_ fun _ _ hf => hf.1.elim
  rintro spl s₁ ⟨hinv₁, hsame, htlb⟩
  have h₁ : UserInv base s₁ L blocks :=
    h.of_tables (List.Subset.refl L) hinv₁ hsame.spaces hsame.tables
  have hvalid : s₁.valid = s.valid := by
    funext k
    rw [VmSys.valid, VmSys.valid, htlb]
  have hzero : as ≠ 0 := h.ne_null has
  have hfaulted : ∀ {s₂}, Shows L blocks s₁ (s₁.faulted as (pageFrame faultaddress)) s₂ →
      Shows L blocks s (s.faulted as (pageFrame faultaddress)) s₂ := by
    intro s₂ hshows
    rw [VmSys.faulted, (hsame.shows L blocks).pages as has] at hshows
    exact (hsame.shows L blocks).trans_update hshows
  refine ⟨fun _ => trivial, fun _ => ⟨fun htype => ⟨fun hnull => absurd hnull hzero, fun _ => ?_⟩,
    fun htype => ?_⟩⟩
  · have hserves : Serves faulttype faultaddress := ⟨hgood, htype⟩
    refine (mapPage_shows h₁ has (pageFrame faultaddress) spl).mono ?_ ?_
    · rintro _ s₂ ⟨h₂, hshows, henters⟩
      rw [Enters, htlb, hvalid] at henters
      exact ⟨h₂, hserves, hfaulted hshows, henters⟩
    · rintro e s₂ ⟨he, h₂, hshows, hfull, htlb₂⟩
      exact ⟨h₂, htlb₂.trans htlb, .inr ⟨hserves, he, hvalid ▸ hfull, hfaulted hshows⟩⟩
  · refine ((splx_as_spec hinv₁ spl).partial_of.and_outcome
      (onKern_onVm_frame (splx spl) s₁)).mono ?_ fun _ _ hf => hf.1.elim
    rintro _ s₂ ⟨hinv₂, hsame₂, htlb₂⟩
    exact ⟨h₁.of_tables (List.Subset.refl L) hinv₂ hsame₂.spaces hsame₂.tables, htlb₂.trans htlb,
      .inl ⟨fun hserves => htype hserves.2, (if_neg hgood).symm, (hsame.trans hsame₂).shows L blocks⟩⟩

/-- `vm_fault` without an address space fails and changes nothing. -/
theorem vmFault_null (s : VmSys) (faulttype : ℤ) (faultaddress : ℕ) :
    Meets (vmFault 0 faulttype faultaddress) (fun _ _ => False)
      (fun _ s' => SameUser s s' ∧ s'.tlb = s.tlb) s (fun _ => True) := by
  simp only [vmFault, if_true, meets_ite, meets_fail, meets_bind, meets_halt]
  refine ⟨fun _ => ⟨.refl s, trivial⟩, fun _ => (onKern_onVm_frame splhigh s).mono ?_
    fun _ s' hs' => hs'⟩
  rintro spl s₁ ⟨hsame, htlb⟩
  refine ⟨fun _ => trivial, fun _ => ⟨fun _ => ⟨hsame, htlb⟩, fun _ => ?_⟩⟩
  refine (onKern_onVm_frame (splx spl) s₁).mono ?_ ?_
  · rintro _ s₂ ⟨hsame₂, htlb₂⟩
    exact ⟨hsame.trans hsame₂, htlb₂.trans htlb⟩
  · rintro _ s₂ ⟨hsame₂, htlb₂⟩
    exact ⟨hsame.trans hsame₂, htlb₂.trans htlb⟩

/-! ## Creation -/

/-- `as_create`: a new address space has no pages and no regions. -/
theorem asCreate_shows (h : UserInv base s L blocks) :
    Meets asCreate
      (fun as s' => Shows L blocks s s.pages s' ∧ s'.tlb = s.tlb ∧
        (as = 0 ∧ UserInv base s' L blocks ∨
          as ≠ 0 ∧ UserInv base s' (as :: L) blocks ∧ s'.regions as = (0, 0, 0) ∧
            NewSpace s as s' ∧ s'.kern.mem = s.kern.mem))
      (fun _ _ => False) s := by
  have hframe : Meets asCreate
      (fun as s' => s'.kern.mem = s.kern.mem ∧ s'.tlb = s.tlb ∧
        (as ≠ 0 → s'.regions as = (0, 0, 0)))
      (fun _ _ => True) s (fun _ => True) := by
    rw [asCreate, kmalloc_addrspace, meets_bind]
    refine (onKern_onVm_frame _ s).mono ?_ fun _ _ _ => trivial
    rintro as s₁ ⟨hsame, htlb⟩
    simp only [meets_ite, meets_pure, meets_bind, meets_modify]
    refine ⟨fun _ => ⟨hsame.mem, htlb, fun hne => absurd rfl hne⟩, fun _ => ⟨hsame.mem, htlb, ?_⟩⟩
    intro _
    simp only [VmSys.regions, Function.update_self]
  refine (asCreate_spec h.inv).and_run.imp ?_
  rintro as s' ⟨hcase, hrun⟩
  obtain ⟨hmem, htlb, hregions⟩ := hframe.of_ok hrun
  rcases hcase with ⟨rfl, hinv, hroom⟩ | ⟨hinv, hnew⟩
  · have hsame : SameUser s s' :=
      ⟨by rw [hroom.frame], by rw [hroom.frame], by rw [hroom.frame]⟩
    exact ⟨hsame.shows L blocks, htlb,
      .inl ⟨rfl, h.of_tables (List.Subset.refl L) hinv hsame.spaces hsame.tables⟩⟩
  · have hspaces : ∀ as' ∈ L, s'.spaces as' = s.spaces as' := by
      intro as' has'
      refine hnew.spaces as' ?_
      rintro rfl
      exact (List.nodup_cons.mp hinv.nodup).1 has'
    refine ⟨.keeps (fun as' has' i j => frame?_congr (by rw [hspaces as' has'])
      fun _ _ => by rw [hnew.tables]) (fun as' has' => ?_) hmem, htlb,
      .inr ⟨hnew.ne_null, ⟨hinv, ?_⟩, hregions hnew.ne_null, hnew, hmem⟩⟩
    · rw [VmSys.regions, hspaces as' has']
      rfl
    · intro as' has' i hi hp j
      rcases List.mem_cons.mp has' with rfl | has'
      · exact absurd (hnew.empty i) hp
      · rw [hspaces as' has', hnew.tables] at *
        exact h.bits as' has' i hi hp j

/-- A new address space shows nothing. -/
theorem NewSpace.pages {as : ℕ} (hnew : NewSpace s as s') : s'.pages as = fun _ _ => none := by
  funext i j
  exact pages_eq_none.mpr (frame?_of_null (hnew.empty i) j)

/-! ## Copying -/

/-- The row `row` of pages up to the index `j`. -/
def rowUpto (row : ℕ → Option (ℕ → ℕ)) (j j' : ℕ) : Option (ℕ → ℕ) :=
  if j' < j then row j' else none

/-- One more page of the row. -/
theorem rowUpto_succ (row : ℕ → Option (ℕ → ℕ)) (j : ℕ) :
    Function.update (rowUpto row j) j (row j) = rowUpto row (j + 1) := by
  funext j'
  by_cases heq : j' = j
  · subst heq
    rw [Function.update_self, rowUpto, if_pos (Nat.lt_succ_self _)]
  · rw [Function.update_of_ne heq, rowUpto, rowUpto]
    exact if_congr (by omega) rfl rfl

/-- A table has 1024 entries. -/
theorem rowUpto_pages (s : VmSys) (as i : ℕ) : rowUpto (s.pages as i) 1024 = s.pages as i := by
  funext j
  rw [rowUpto]
  split
  · rfl
  case isFalse hj => exact (pages_eq_none.mpr (if_neg fun hc => hj hc.2.1)).symm

/-- The row `i` of the new address space after `j` entries of the old one have been copied. -/
def VmSys.copied (s : VmSys) (old new i j : ℕ) : ℕ → Pages :=
  Function.update s.pages new (Function.update (s.pages new) i (rowUpto (s.pages old i) j))

/-- One pass of the inner loop of `as_copy`. -/
theorem copyEntry_shows (h : UserInv base s L blocks) {old new i j : ℕ} (hold : old ∈ L)
    (hnew : new ∈ L) (hne : old ≠ new) (hi : i < 512) (hpo : (s.spaces old).pagetable2 i ≠ 0)
    (hpn : (s.spaces new).pagetable2 i ≠ 0) (hj : j < 1024)
    (hinvalid : ((s.tables ((s.spaces new).pagetable2 i)).pageentry j).valid = 0) :
    Meets (copyEntry old new i j)
      (fun _ s' => UserInv base s' L blocks ∧ s'.spaces = s.spaces ∧ s'.tlb = s.tlb ∧
        (∀ q ≠ (s.spaces new).pagetable2 i, s'.tables q = s.tables q) ∧
        (∀ j' ≠ j, (s'.tables ((s.spaces new).pagetable2 i)).pageentry j' =
          (s.tables ((s.spaces new).pagetable2 i)).pageentry j') ∧
        Shows L blocks s (Function.update s.pages new (Function.update (s.pages new) i
          (Function.update (s.pages new i) j (s.pages old i j)))) s')
      (fun _ _ => False) s (fun _ => True) := by
  simp only [copyEntry, meets_bind, meets_get, meets_ite, meets_pure, meets_require_partial]
  refine ⟨fun hvalid => ?_, fun hvalid => ?_⟩
  · refine (allocEntry_shows h hnew hi hpn hj hinvalid).imp ?_
    rintro phyaddr s₁ (rfl | ⟨h₁, hfresh⟩) _
    · -- the failed allocation: the store goes to address zero
      rw [memmovePage, meets_bind, meets_require_partial]
      exact fun hge => absurd hge (by decide +kernel)
    -- the page of the old address space and its frame
    obtain ⟨src, hsrc⟩ : ∃ src,
        src = ((s.tables ((s.spaces old).pagetable2 i)).pageentry j).phyaddr := ⟨_, rfl⟩
    have hold₀ : s.frame? old i j = some src := by
      rw [VmSys.frame?, hsrc]
      exact if_pos ⟨hi, hj, hpo, by rw [hvalid]; exact one_ne_zero⟩
    have hold₁ : s₁.frame? old i j = some src := by
      rw [hfresh.others old hold i j fun hc => hne hc.1, hold₀]
    have hpage : s.pages old i j = some (clip fun x => s₁.kern.mem (src + kseg0 + x)) := by
      rw [VmSys.pages, hold₀, hfresh.mem]
      rfl
    rw [← hsrc]
    simp only [memmovePage, onKern, h₁.kvaddr hnew hfresh.frame, h₁.kvaddr hold hold₁, meets_bind,
      meets_require_partial, meets_zoom, meets_modify]
    intro _
    generalize hmem : (fun x => ite (phyaddr + kseg0 ≤ x ∧ x < phyaddr + kseg0 + pageSize)
      (s₁.kern.mem (src + kseg0 + (x - (phyaddr + kseg0)))) (s₁.kern.mem x)) = mem
    have hout : ∀ x, x < phyaddr + kseg0 ∨ phyaddr + kseg0 + pageSize ≤ x →
        mem x = s₁.kern.mem x := by
      intro x hx
      rw [← hmem]
      exact if_neg (by omega)
    have hcopy : clip (fun x => mem (phyaddr + kseg0 + x)) =
        clip fun x => s₁.kern.mem (src + kseg0 + x) := by
      refine clip_congr fun x hx => ?_
      rw [← hmem]
      refine (if_pos (by omega)).trans ?_
      rw [Nat.add_sub_cancel_left]
    obtain ⟨h₂, hshows⟩ := hfresh.write h₁ hnew hout
    refine ⟨h₂, hfresh.entry.spaces, hfresh.tlb, hfresh.entry.tables, hfresh.entry.entries, ?_⟩
    rw [hcopy] at hshows
    rw [hpage]
    exact hshows
  · have hzero : ((s.tables ((s.spaces old).pagetable2 i)).pageentry j).valid = 0 :=
      (h.bits old hold i hi hpo j).resolve_right hvalid
    have hsame : Function.update (s.pages new) i
        (Function.update (s.pages new i) j (s.pages old i j)) = s.pages new := by
      rw [pages_eq_none.mpr (frame?_of_invalid hzero),
        ← pages_eq_none.mpr (frame?_of_invalid hinvalid), Function.update_eq_self,
        Function.update_eq_self]
    rw [hsame, Function.update_eq_self]
    exact ⟨h, trivial, trivial, fun _ _ => trivial, fun _ _ => trivial,
      (SameUser.refl s).shows L blocks⟩

/-- The inner loop of `as_copy`, on a table of the new address space that is empty so far. -/
theorem copyEntries_shows (h : UserInv base s L blocks) {old new i : ℕ} (hold : old ∈ L)
    (hnew : new ∈ L) (hne : old ≠ new) (hi : i < 512) (hpo : (s.spaces old).pagetable2 i ≠ 0)
    (hpn : (s.spaces new).pagetable2 i ≠ 0)
    (hempty : ∀ j, ((s.tables ((s.spaces new).pagetable2 i)).pageentry j).valid = 0) :
    Meets (forRange (copyEntry old new i) 1024 0)
      (fun _ s' => UserInv base s' L blocks ∧ s'.spaces = s.spaces ∧ s'.tlb = s.tlb ∧
        Shows L blocks s (Function.update s.pages new
          (Function.update (s.pages new) i (s.pages old i))) s')
      (fun _ _ => False) s (fun _ => True) := by
  refine (Meets.forRange (fun j s' => UserInv base s' L blocks ∧ s'.spaces = s.spaces ∧
      s'.tlb = s.tlb ∧
      (∀ j' ≥ j, ((s'.tables ((s.spaces new).pagetable2 i)).pageentry j').valid = 0) ∧
      Shows L blocks s (s.copied old new i j) s')
    ⟨h, rfl, rfl, fun j _ => hempty j, ?_⟩ fun j s' _ hj hinv => ?_).imp fun _ s' hs' => ?_
  · have hnone : rowUpto (s.pages old i) 0 = s.pages new i := by
      funext j
      rw [rowUpto, if_neg (Nat.not_lt_zero j), pages_eq_none.mpr (frame?_of_invalid (hempty j))]
    rw [VmSys.copied, hnone, Function.update_eq_self, Function.update_eq_self]
    exact (SameUser.refl s).shows L blocks
  · obtain ⟨h', hspaces, htlb, hrest, hshows⟩ := hinv
    rw [← hspaces] at hpo hpn hrest
    refine (copyEntry_shows h' hold hnew hne hi hpo hpn (by omega) (hrest j le_rfl)).imp ?_
    rintro _ s₂ ⟨h₂, hspaces₂, htlb₂, -, hentries, hshows₂⟩
    refine ⟨h₂, hspaces₂.trans hspaces, htlb₂.trans htlb, fun j' hj' => ?_, ?_⟩
    · rw [← hspaces, hentries j' (by omega)]
      exact hrest j' (by omega)
    · have hrow : s'.pages new i = rowUpto (s.pages old i) j := by
        rw [hshows.pages new hnew, VmSys.copied, Function.update_self, Function.update_self]
      have hpages : s'.pages old = s.pages old := by
        rw [hshows.pages old hold, VmSys.copied, Function.update_of_ne hne]
      rw [hrow, hpages, rowUpto_succ, hshows.pages new hnew] at hshows₂
      refine (hshows.trans_update hshows₂).congr fun as _ => ?_
      rw [VmSys.copied, VmSys.copied, Function.update_idem, Function.update_self,
        Function.update_idem]
  · obtain ⟨h', hspaces, htlb, -, hshows⟩ := hs'
    rw [VmSys.copied, rowUpto_pages] at hshows
    exact ⟨h', hspaces, htlb, hshows⟩

/-- One pass of the outer loop of `as_copy`, on a slot of the new address space that is empty. -/
theorem copyTable_shows (h : UserInv base s L blocks) {old new i : ℕ} (hold : old ∈ L)
    (hnew : new ∈ L) (hne : old ≠ new) (hi : i < 512)
    (hslot : (s.spaces new).pagetable2 i = 0) :
    Meets (copyTable old new i)
      (fun _ s' => UserInv base s' L blocks ∧ s'.tlb = s.tlb ∧
        (∀ i' ≠ i, (s'.spaces new).pagetable2 i' = (s.spaces new).pagetable2 i') ∧
        Shows L blocks s (Function.update s.pages new
          (Function.update (s.pages new) i (s.pages old i))) s')
      (fun _ _ => False) s (fun _ => True) := by
  simp only [copyTable, meets_bind, meets_get, meets_ite, meets_pure]
  refine ⟨fun hp => ?_, fun hp => ⟨h, trivial, fun _ _ => trivial, ?_⟩⟩
  · refine (newTable_shows h hnew hi hslot).imp ?_
    rintro _ s₁ ⟨h₁, htable, hshows₁, -, htlb₁⟩
    have hpo : (s₁.spaces old).pagetable2 i ≠ 0 := by rwa [htable.spaces old hne]
    refine (copyEntries_shows h₁ hold hnew hne hi hpo htable.ptr_ne htable.empty).imp ?_
    rintro _ s₂ ⟨h₂, hspaces₂, htlb₂, hshows₂⟩
    refine ⟨h₂, htlb₂.trans htlb₁, fun i' hi' => by rw [hspaces₂, htable.slots i' hi'], ?_⟩
    rw [hshows₁.pages old hold, hshows₁.pages new hnew] at hshows₂
    exact hshows₁.trans_update hshows₂
  · have hrow : s.pages old i = s.pages new i := by
      funext j
      rw [pages_eq_none.mpr (frame?_of_null (not_not.mp hp) j),
        pages_eq_none.mpr (frame?_of_null hslot j)]
    rw [hrow, Function.update_eq_self, Function.update_eq_self]
    exact (SameUser.refl s).shows L blocks

/-- Writing the fields of an address space other than its page table. -/
theorem pagetable2_setSpace {spaces : ℕ → Addrspace} {as : ℕ} {sp : Addrspace}
    (hsp : sp.pagetable2 = (spaces as).pagetable2) (as' : ℕ) :
    (Function.update spaces as sp as').pagetable2 = (spaces as').pagetable2 := by
  by_cases heq : as' = as
  · subst heq
    rw [Function.update_self, hsp]
  · rw [Function.update_of_ne heq]

/-- The fields of an address space other than its page table show nowhere but in its regions. -/
theorem frame?_setSpace (s : VmSys) (as : ℕ) (sp : Addrspace)
    (hsp : sp.pagetable2 = (s.spaces as).pagetable2) :
    VmSys.frame? { s with spaces := Function.update s.spaces as sp } = s.frame? := by
  funext as' i j
  exact frame?_congr (congrFun (pagetable2_setSpace hsp as') i) fun _ _ => rfl

theorem UserInv.setSpace (h : UserInv base s L blocks) (as : ℕ) (sp : Addrspace)
    (hsp : sp.pagetable2 = (s.spaces as).pagetable2) :
    UserInv base { s with spaces := Function.update s.spaces as sp } L blocks := by
  refine ⟨h.inv.setSpace as sp hsp, fun as' has' => ?_⟩
  simp only [pagetable2_setSpace hsp]
  exact h.bits as' has'

/-- The outer loop of `as_copy`, on a new address space without tables. -/
theorem copyTables_shows (h : UserInv base s L blocks) {old new : ℕ} (hold : old ∈ L)
    (hnew : new ∈ L) (hne : old ≠ new) (hempty : ∀ i, (s.spaces new).pagetable2 i = 0) :
    Meets (forRange (copyTable old new) 512 0)
      (fun _ s' => UserInv base s' L blocks ∧ s'.tlb = s.tlb ∧
        Shows L blocks s (Function.update s.pages new (s.pages old)) s')
      (fun _ _ => False) s (fun _ => True) := by
  have hnone : s.pages new = fun _ _ => none := by
    funext i j
    exact pages_eq_none.mpr (frame?_of_null (hempty i) j)
  -- before the pass with index `i` the new address space shows the rows below it
  refine (Meets.forRange (fun i s' => UserInv base s' L blocks ∧ s'.tlb = s.tlb ∧
      (∀ i' ≥ i, (s'.spaces new).pagetable2 i' = 0) ∧
      Shows L blocks s (Function.update s.pages new fun i' =>
        if i' < i then s.pages old i' else fun _ => none) s')
    ⟨h, rfl, fun i _ => hempty i, ?_⟩ fun i s' _ hi hinv => ?_).imp fun _ s' hs' => ?_
  · have hstart : (fun i' => if i' < 0 then s.pages old i' else fun _ => none) = s.pages new := by
      rw [hnone]
      funext i'
      exact if_neg (Nat.not_lt_zero i')
    rw [hstart, Function.update_eq_self]
    exact (SameUser.refl s).shows L blocks
  · obtain ⟨h', htlb, hrest, hshows⟩ := hinv
    refine (copyTable_shows h' hold hnew hne (by omega) (hrest i le_rfl)).imp ?_
    rintro _ s₂ ⟨h₂, htlb₂, hslots, hshows₂⟩
    refine ⟨h₂, htlb₂.trans htlb, fun i' hi' => ?_, ?_⟩
    · rw [hslots i' (by omega)]
      exact hrest i' (by omega)
    · rw [hshows.pages old hold, hshows.pages new hnew, Function.update_of_ne hne,
        Function.update_self] at hshows₂
      refine (hshows.trans_update hshows₂).congr fun as _ => ?_
      rw [Function.update_idem]
      congr 1
      funext i'
      by_cases heq : i' = i
      · subst heq
        rw [Function.update_self, if_pos (Nat.lt_succ_self _)]
      · rw [Function.update_of_ne heq]
        exact if_congr (by omega) rfl rfl
  · obtain ⟨h', htlb, -, hshows⟩ := hs'
    have hall : (fun i' => if i' < 0 + 512 then s.pages old i' else fun _ => none) =
        s.pages old := by
      funext i' j
      split
      · rfl
      case isFalse hi' => exact (pages_eq_none.mpr (if_neg fun hc => hi' (by omega))).symm
    rw [hall] at hshows
    exact ⟨h', htlb, hshows⟩

/-- `as_copy`: the new address space shows what the old one shows. -/
theorem asCopy_shows (h : UserInv base s L blocks) {old : ℕ} (hold : old ∈ L) :
    Meets (asCopy old)
      (fun new s' => UserInv base s' (new :: L) blocks ∧ s'.tlb = s.tlb ∧ Shows L blocks s s.pages s' ∧
        s'.pages new = s.pages old ∧ s'.regions new = s.regions old)
      (fun _ s' => UserInv base s' L blocks ∧ s'.tlb = s.tlb ∧ Shows L blocks s s.pages s') s
      (fun _ => True) := by
  rw [asCopy, meets_bind]
  refine (asCreate_shows h).partial_of.noErr ?_
  rintro new s₁ ⟨hshows₁, htlb₁, ⟨rfl, h₁⟩ | ⟨hnull, h₁, -, hnew, -⟩⟩
  · exact ⟨h₁, htlb₁, hshows₁⟩
  have hne : old ≠ new := by
    rintro rfl
    exact (List.nodup_cons.mp h₁.inv.nodup).1 hold
  rw [if_neg hnull]
  simp only [asPrepareLoad, meets_bind, meets_modify, meets_get, meets_require_partial, meets_pure]
  intro _
  generalize hsp : Addrspace.mk _ _ _ (s₁.spaces new).pagetable2 = sp
  have hptr : sp.pagetable2 = (s₁.spaces new).pagetable2 := by rw [← hsp]
  have h₂ := h₁.setSpace new sp hptr
  have hpages₂ : VmSys.pages { s₁ with spaces := Function.update s₁.spaces new sp } = s₁.pages := by
    funext as
    exact pages_congr (fun i j => by rw [frame?_setSpace s₁ new sp hptr]) rfl
  have hempty : ∀ i, (Function.update s₁.spaces new sp new).pagetable2 i = 0 := by
    intro i
    rw [Function.update_self, hptr]
    exact hnew.empty i
  refine (copyTables_shows h₂ (List.mem_cons_of_mem _ hold) List.mem_cons_self hne hempty).noErr ?_
  rintro _ s₃ ⟨h₃, htlb₃, hshows₃⟩
  rw [hpages₂] at hshows₃
  have hmem : ∀ as ∈ L, as ∈ new :: L := fun as has => List.mem_cons_of_mem _ has
  have hother : ∀ as ∈ L, as ≠ new := by
    rintro as has rfl
    exact (List.nodup_cons.mp h₁.inv.nodup).1 has
  refine ⟨h₃, htlb₃.trans htlb₁, ⟨fun as has i j frame hf => ?_, fun as has => ?_,
    fun as has => ?_, fun b hb x hlo hhi => ?_⟩, ?_, ?_⟩
  · refine hshows₃.grows as (hmem as has) i j frame ?_
    rw [frame?_setSpace s₁ new sp hptr]
    exact hshows₁.grows as has i j frame hf
  · rw [hshows₃.regions as (hmem as has), ← hshows₁.regions as has]
    simp only [VmSys.regions, Function.update_of_ne (hother as has)]
  · rw [hshows₃.pages as (hmem as has), Function.update_of_ne (hother as has)]
    exact hshows₁.pages as has
  · exact (hshows₃.held b hb x hlo hhi).trans (hshows₁.held b hb x hlo hhi)
  · rw [hshows₃.pages new List.mem_cons_self, Function.update_self]
    exact hshows₁.pages old hold
  · rw [hshows₃.regions new List.mem_cons_self, ← hshows₁.regions old hold]
    simp only [VmSys.regions, Function.update_self, ← hsp]

/-! ## Teardown and user stores -/

/-- `as_destroy` does not show in the other address spaces. -/
theorem asDestroy_shows {as : ℕ} (h : UserInv base s (as :: L) blocks) :
    Meets (asDestroy as)
      (fun _ s' => UserInv base s' L blocks ∧ s'.tlb = s.tlb ∧ Shows L blocks s s.pages s')
      (fun _ _ => False) s := by
  refine (asDestroy_spec h.inv).imp ?_
  rintro _ _ ⟨k', rfl, hmem, hinv⟩
  have hsame : SameUser s { s with kern := k' } := ⟨rfl, rfl, hmem⟩
  exact ⟨h.of_tables (List.subset_cons_self as L) hinv rfl rfl, rfl, hsame.shows L blocks⟩

/-- A store to offset `x` of the frame of a page changes that page. -/
theorem UserInv.store (h : UserInv base s L blocks) {as i j frame x : ℕ} (has : as ∈ L)
    (hf : s.frame? as i j = some frame) (hx : x < pageSize) (v : ℕ) :
    UserInv base { s with kern := { s.kern with
        mem := Function.update s.kern.mem (frame + kseg0 + x) v } } L blocks ∧
      Shows L blocks s (Function.update s.pages as
        ((s.pages as).set i j (Function.update (s.contents frame) x v)))
        { s with kern := { s.kern with
          mem := Function.update s.kern.mem (frame + kseg0 + x) v } } := by
  generalize hmem : Function.update s.kern.mem (frame + kseg0 + x) v = mem
  have hout : ∀ y, y < frame + kseg0 ∨ frame + kseg0 + pageSize ≤ y → mem y = s.kern.mem y := by
    intro y hy
    rw [← hmem]
    exact Function.update_of_ne (by omega) _ _
  have hpage : clip (fun y => mem (frame + kseg0 + y)) =
      Function.update (s.contents frame) x v := by
    funext y
    rw [← hmem, clip]
    by_cases hyx : y = x
    · subst hyx
      rw [if_pos hx, Function.update_self, Function.update_self]
    · rw [Function.update_of_ne hyx, Function.update_of_ne (by omega)]
      rfl
  rw [← hpage]
  exact h.writePage has hf hout

end Os161
