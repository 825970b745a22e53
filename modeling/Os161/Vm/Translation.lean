import Os161.Vm.UserPages
import Os161.Userprog.Loadelf

/-!
# Translation through the TLB

A program reaches its memory through the TLB: an access to a page with a valid entry goes to the
frame of that entry, whatever the page table says, and only an access to a page without one is
brought to `vm_fault`. `Coherent s as` says that the entries are right for the address space `as`.

`Aspace` is what one process has, in terms of its own: pages, regions, and which pages the TLB
holds. `Models` relates it to the state of the machine while `as` is active and its entries are
coherent. The accesses of the process, and `load_elf` on its behalf, are simulated on `Aspace`
(`access_simulates`, `userStore_simulates`, `loadElf_models`): they keep the TLB coherent, they
change nothing for other address spaces, and what they do depends on nothing but the `Aspace`.
-/

namespace Os161

open Prog

variable {base : ℕ} {s s' : VmSys} {L : List ℕ} {blocks : List KBlock}

/-! ## Accesses -/

/-- The frame to which the TLB maps the page of an address. -/
def VmSys.lookup (s : VmSys) (vaddr : ℕ) : Option ℕ :=
  ((List.range numTlb).find? fun k => s.valid k ∧ (s.tlb k).1 = pageFrame vaddr).map
    fun k => pageFrame (s.tlb k).2

/-- An access: a page that no valid entry matches is brought to `vm_fault`. -/
def access (as : ℕ) (faulttype : ℤ) (vaddr : ℕ) : AsM Unit := do
  let found ← gets fun s => (s.lookup vaddr).isSome
  if found then pure () else vmFault as faulttype vaddr

/-- The kernel address of the word that the TLB maps an address to. -/
def translate (vaddr : ℕ) : AsM ℕ := do
  let frame ← gets fun s => s.lookup vaddr
  match frame with
  | some frame => pure (frame + kseg0 + vaddr % pageSize)
  | none => halt "TLB miss on an address that vm_fault has mapped"

/-- A load from an address of the program. -/
def userLoad (as vaddr : ℕ) : AsM ℕ := do
  access as vmFaultRead vaddr
  let a ← translate vaddr
  gets fun s => s.kern.mem a

/-- A store to an address of the program. -/
def userStore (as vaddr v : ℕ) : AsM Unit := do
  access as vmFaultWrite vaddr
  let a ← translate vaddr
  onKern (store a v)

/-- What the loader does to the address space `as`. -/
def asLoadOps (as : ℕ) : LoadOps VmSys where
  mem := ⟨userLoad as, userStore as⟩
  defineRegion := asDefineRegion as
  prepareLoad := asPrepareLoad as

/-! ## Coherence -/

/-- Every valid entry maps its page to the frame that the page table of `as` has for it, and no two
valid entries hold the same page. -/
structure Coherent (s : VmSys) (as : ℕ) : Prop where
  maps : ∀ k < numTlb, s.valid k = true → pageFrame (s.tlb k).1 = (s.tlb k).1 ∧
    s.frame? as ((s.tlb k).1 / 2 ^ 22) ((s.tlb k).1 / 2 ^ 12 % 2 ^ 10) =
      some (pageFrame (s.tlb k).2)
  inj : ∀ k < numTlb, ∀ k' < numTlb, s.valid k = true → s.valid k' = true →
    (s.tlb k).1 = (s.tlb k').1 → k = k'

/-- A TLB without valid entries. -/
theorem Coherent.of_flushed (h : ∀ k < numTlb, s.valid k = false) (as : ℕ) : Coherent s as where
  maps k hk hvalid := absurd hvalid (by rw [h k hk]; exact Bool.false_ne_true)
  inj k hk _ _ hvalid := absurd hvalid (by rw [h k hk]; exact Bool.false_ne_true)

/-- `as_activate` flushes the TLB. -/
theorem asActivate_flushes (s : VmSys) : ∃ s', asActivate s = .ok () s' ∧ SameUser s s' ∧
    s'.kern = s.kern ∧ ∀ k < numTlb, s'.valid k = false := by
  refine ⟨_, rfl, ⟨rfl, rfl, rfl⟩, rfl, fun k hk => ?_⟩
  simp only [VmSys.valid, if_pos hk, Nat.zero_and, ne_eq, not_true_eq_false, decide_false]

/-- Page tables that grow leave the entries right. -/
theorem Coherent.grow {as : ℕ} (h : Coherent s as) (htlb : s'.tlb = s.tlb)
    (hgrows : ∀ i j frame, s.frame? as i j = some frame → s'.frame? as i j = some frame) :
    Coherent s' as := by
  have hvalid : s'.valid = s.valid := by
    funext k
    rw [VmSys.valid, VmSys.valid, htlb]
  constructor
  · rw [hvalid, htlb]
    exact fun k hk hv => ⟨(h.maps k hk hv).1, hgrows _ _ _ (h.maps k hk hv).2⟩
  · rw [hvalid, htlb]
    exact h.inj

/-- The low bits of an entry do not reach its frame. -/
theorem pageFrame_entry {frame : ℕ} (h : pageFrame frame = frame) :
    pageFrame (frame ||| tlbloDirty ||| tlbloValid) = frame ∧
      (frame ||| tlbloDirty ||| tlbloValid) &&& tlbloValid ≠ 0 := by
  obtain ⟨n, rfl⟩ : ∃ n, frame = 2 ^ 12 * n := by
    refine ⟨frame / 4096, ?_⟩
    unfold pageFrame pageSize at h
    omega
  have hbits : tlbloDirty ||| tlbloValid = 0x600 := by decide
  rw [Nat.or_assoc, hbits]
  constructor
  · rw [← Nat.two_pow_add_eq_or_of_lt (by norm_num) n]
    unfold pageFrame pageSize
    omega
  · intro hzero
    have hbit := congrArg (fun x => x.testBit 9) hzero
    simp only [Nat.testBit_and, Nat.testBit_or, Nat.zero_testBit] at hbit
    have hone : Nat.testBit 0x600 9 = true ∧ Nat.testBit tlbloValid 9 = true := by decide
    rw [hone.1, hone.2, Bool.or_true, Bool.and_true] at hbit
    exact absurd hbit (by decide)

/-- The page of an address has the indices of the address. -/
theorem index_pageFrame (vaddr : ℕ) : pageFrame vaddr / 2 ^ 22 = vaddr / 2 ^ 22 ∧
    pageFrame vaddr / 2 ^ 12 % 2 ^ 10 = vaddr / 2 ^ 12 % 2 ^ 10 ∧
    pageFrame (pageFrame vaddr) = pageFrame vaddr := by
  unfold pageFrame pageSize
  omega

theorem lookup_eq_none {vaddr : ℕ} : s.lookup vaddr = none ↔
    ∀ k < numTlb, s.valid k = true → (s.tlb k).1 ≠ pageFrame vaddr := by
  simp only [VmSys.lookup, Option.map_eq_none_iff, List.find?_eq_none, List.mem_range,
    decide_eq_true_eq, not_and, ne_eq]

/-- What the TLB maps an address to is the frame that the page table has for it. -/
theorem Coherent.lookup {as vaddr frame : ℕ} (h : Coherent s as)
    (hlookup : s.lookup vaddr = some frame) :
    s.frame? as (vaddr / 2 ^ 22) (vaddr / 2 ^ 12 % 2 ^ 10) = some frame := by
  obtain ⟨k, hfind, rfl⟩ := Option.map_eq_some_iff.mp hlookup
  have hk := List.mem_range.mp (List.mem_of_find?_eq_some hfind)
  have hmatch := List.find?_some hfind
  rw [decide_eq_true_eq] at hmatch
  have hmaps := (h.maps k hk hmatch.1).2
  rw [hmatch.2, (index_pageFrame vaddr).1, (index_pageFrame vaddr).2.1] at hmaps
  exact hmaps

/-- A fault that fills a slot keeps the entries coherent when no valid entry matched its page. -/
theorem Coherent.enter {as ehi : ℕ} (h : Coherent s as) (hpage : pageFrame ehi = ehi)
    (hmiss : ∀ k < numTlb, s.valid k = true → (s.tlb k).1 ≠ ehi)
    (hgrows : ∀ i j frame, s.frame? as i j = some frame → s'.frame? as i j = some frame)
    (henters : Enters s as (ehi / 2 ^ 22) (ehi / 2 ^ 12 % 2 ^ 10) ehi s') :
    Coherent s' as := by
  obtain ⟨slot, frame, hslot, haligned, hframe, htlb⟩ := henters
  have hentry := (pageFrame_entry haligned).1
  have hsame : ∀ k ≠ slot, s'.tlb k = s.tlb k := fun k hk => by
    rw [htlb, Function.update_of_ne hk]
  have hnew : s'.tlb slot = (ehi, frame ||| tlbloDirty ||| tlbloValid) := by
    rw [htlb, Function.update_self]
  have hold : ∀ k ≠ slot, s'.valid k = s.valid k := fun k hk => by
    rw [VmSys.valid, VmSys.valid, hsame k hk]
  constructor
  · intro k hk hvalid
    by_cases heq : k = slot
    · subst heq
      rw [hnew, hentry]
      exact ⟨hpage, hframe⟩
    · rw [hold k heq] at hvalid
      rw [hsame k heq]
      exact ⟨(h.maps k hk hvalid).1, hgrows _ _ _ (h.maps k hk hvalid).2⟩
  · intro k hk k' hk' hvalid hvalid' heq
    by_cases hks : k = slot
    · by_cases hks' : k' = slot
      · rw [hks, hks']
      · subst hks
        rw [hnew, hsame k' hks'] at heq
        rw [hold k' hks'] at hvalid'
        exact absurd heq.symm (hmiss k' hk' hvalid')
    · by_cases hks' : k' = slot
      · subst hks'
        rw [hnew, hsame k hks] at heq
        rw [hold k hks] at hvalid
        exact absurd heq (hmiss k hk hvalid)
      · rw [hold k hks] at hvalid
        rw [hold k' hks'] at hvalid'
        rw [hsame k hks, hsame k' hks'] at heq
        exact h.inj k hk k' hk' hvalid hvalid' heq

/-! ## One process -/

/-- The pages that the TLB holds, by slot. -/
def VmSys.tlbPages (s : VmSys) (k : ℕ) : Option ℕ :=
  if k < numTlb ∧ s.valid k = true then some (s.tlb k).1 else none

/-- A process: its pages, its regions, and the pages the TLB holds. -/
structure Aspace where
  pages : Pages
  regions : ℕ × ℕ × ℕ
  tlb : ℕ → Option ℕ

namespace Aspace

/-- The TLB holds the page of the address. -/
def hit (a : Aspace) (vaddr : ℕ) : Bool :=
  (List.range numTlb).any fun k => a.tlb k = some (pageFrame vaddr)

/-- The pages with that of `vaddr` present. -/
def touched (a : Aspace) (vaddr : ℕ) : Pages :=
  a.pages.touch (vaddr / 2 ^ 22) (vaddr / 2 ^ 12 % 2 ^ 10)

/-- `vm_fault`. -/
def fault (faulttype : ℤ) (vaddr : ℕ) : Prog Errno Aspace Unit :=
  if Serves faulttype vaddr then do
    modify fun a => { a with pages := a.touched vaddr }
    let slot ← gets fun a => firstFree (fun k => (a.tlb k).isSome) numTlb 0
    match slot with
    | none => fail .EFAULT
    | some k => modify fun a => { a with tlb := Function.update a.tlb k (some (pageFrame vaddr)) }
  else
    fail (refusal vaddr)

/-- An access. -/
def access (faulttype : ℤ) (vaddr : ℕ) : Prog Errno Aspace Unit := do
  let found ← gets fun a => a.hit vaddr
  if found then pure () else fault faulttype vaddr

/-- The pages after a store to an address whose page is present. -/
def written (a : Aspace) (vaddr v : ℕ) : Pages :=
  match a.pages (vaddr / 2 ^ 22) (vaddr / 2 ^ 12 % 2 ^ 10) with
  | some c => a.pages.set (vaddr / 2 ^ 22) (vaddr / 2 ^ 12 % 2 ^ 10)
      (Function.update c (vaddr % pageSize) v)
  | none => a.pages

/-- A store. -/
def store (vaddr v : ℕ) : Prog Errno Aspace Unit := do
  access vmFaultWrite vaddr
  modify fun a => { a with pages := a.written vaddr v }

/-- A load. -/
def load (vaddr : ℕ) : Prog Errno Aspace ℕ := do
  access vmFaultRead vaddr
  gets fun a => ((a.pages (vaddr / 2 ^ 22) (vaddr / 2 ^ 12 % 2 ^ 10)).map
    fun c => c (vaddr % pageSize)).getD 0

/-- `as_define_region`. -/
def defineRegion (vaddr : ℕ) : Prog Errno Aspace Unit := do
  let a ← get
  if a.regions.1 = 0 then
    modify fun a => { a with regions := (vaddr, a.regions.2) }
  else if a.regions.2.1 = 0 then
    modify fun a => { a with regions := (a.regions.1, vaddr, a.regions.2.2) }
  else
    fail .EUNIMP

/-- `as_prepare_load`. -/
def prepareLoad : Prog Errno Aspace Unit := do
  let a ← get
  require (a.regions.2.2 = 0) "Assertion failed: as->as_stackpbase == 0"

/-- What the loader does to a process. -/
def loadOps : LoadOps Aspace := ⟨⟨load, store⟩, defineRegion, prepareLoad⟩

end Aspace

/-! ## The machine simulates the process -/

/-- The address space `as` is active and coherent, and shows what the process `a` has; the others
show `others`, and the blocks of the heap hold what `held` has. -/
structure Models (base : ℕ) (L : List ℕ) (blocks : List KBlock) (as : ℕ)
    (others : ℕ → Pages × ℕ × ℕ × ℕ) (held : ℕ → ℕ) (s : VmSys) (a : Aspace) : Prop where
  user : UserInv base s L blocks
  coherent : Coherent s as
  pages : s.pages as = a.pages
  regions : s.regions as = a.regions
  tlb : s.tlbPages = a.tlb
  others : ∀ as' ∈ L, as' ≠ as → (s.pages as', s.regions as') = others as'
  held : ∀ b ∈ blocks, ∀ x, b.addr ≤ x → x < b.addr + b.sz → s.kern.mem x = held x

section Simulation

variable {as : ℕ} {others : ℕ → Pages × ℕ × ℕ × ℕ} {held : ℕ → ℕ}

theorem tlbPages_congr (htlb : s'.tlb = s.tlb) : s'.tlbPages = s.tlbPages := by
  funext k
  rw [VmSys.tlbPages, VmSys.tlbPages, VmSys.valid, VmSys.valid, htlb]

theorem Models.hit {a : Aspace} (h : Models base L blocks as others held s a) (vaddr : ℕ) :
    (s.lookup vaddr).isSome = a.hit vaddr := by
  rw [Bool.eq_iff_iff, Option.isSome_iff_ne_none, ne_eq, lookup_eq_none, Aspace.hit, List.any_eq_true,
    ← h.tlb]
  simp only [List.mem_range, decide_eq_true_eq, VmSys.tlbPages, Option.ite_none_right_eq_some,
    Option.some.injEq, not_forall, not_not, ne_eq]
  constructor
  · rintro ⟨k, hk, hvalid, hpage⟩
    exact ⟨k, hk, ⟨hk, hvalid⟩, hpage⟩
  · rintro ⟨k, hk, ⟨-, hvalid⟩, hpage⟩
    exact ⟨k, hk, hvalid, hpage⟩

theorem Models.firstFree {a : Aspace} (h : Models base L blocks as others held s a) :
    firstFree (fun k => (a.tlb k).isSome) numTlb 0 = firstFree s.valid numTlb 0 := by
  refine firstFree_congr fun k hk => ?_
  rw [Nat.zero_add] at hk
  rw [← h.tlb, VmSys.tlbPages]
  cases hvalid : s.valid k with
  | true => rw [if_pos ⟨hk, rfl⟩]; rfl
  | false => rw [if_neg fun hc => Bool.false_ne_true hc.2]; rfl

/-- An operation that shows in `as` only keeps the relation. -/
theorem Models.shows {a : Aspace} (h : Models base L blocks as others held s a) (has : as ∈ L)
    (h' : UserInv base s' L blocks) (hcoherent : Coherent s' as) {w : Pages}
    (hshows : Shows L blocks s (Function.update s.pages as w) s') {tlb : ℕ → Option ℕ}
    (htlb : s'.tlbPages = tlb) :
    Models base L blocks as others held s' ⟨w, a.regions, tlb⟩ where
  user := h'
  coherent := hcoherent
  pages := by rw [hshows.pages as has, Function.update_self]
  regions := (hshows.regions as has).trans h.regions
  tlb := htlb
  others as' has' hne := by
    rw [hshows.pages as' has', hshows.regions as' has', Function.update_of_ne hne]
    exact h.others as' has' hne
  held b hb x hlo hhi := (hshows.held b hb x hlo hhi).trans (h.held b hb x hlo hhi)

/-- `vm_fault` on a page that no valid entry matches. -/
theorem vmFault_simulates (has : as ∈ L) (faulttype : ℤ) {vaddr : ℕ} {a : Aspace}
    (h : Models base L blocks as others held s a) (hmiss : s.lookup vaddr = none) :
    Meets (vmFault as faulttype vaddr)
      (fun r s' => ∃ a', Aspace.fault faulttype vaddr a = .ok r a' ∧
        Models base L blocks as others held s' a')
      (fun e s' => ∃ a', Aspace.fault faulttype vaddr a = .err e a' ∧
        Models base L blocks as others held s' a') s (fun _ => True) := by
  obtain ⟨hi, hj, hframe⟩ := index_pageFrame vaddr
  have hfaulted : s.faulted as (pageFrame vaddr) =
      Function.update s.pages as (a.touched vaddr) := by
    rw [VmSys.faulted, Aspace.touched, hi, hj, h.pages]
  refine (vmFault_shows h.user has faulttype vaddr).mono ?_ ?_
  · rintro _ s' ⟨h', hserves, hshows, henters⟩
    have hcoherent : Coherent s' as := h.coherent.enter hframe (lookup_eq_none.mp hmiss)
      (hshows.grows as has) henters
    rw [hfaulted] at hshows
    obtain ⟨slot, frame, hslot, haligned, -, htlb⟩ := henters
    have hlt : slot < numTlb := by simpa only [Nat.zero_add] using (firstFree_eq_some hslot).1
    have hvalid : s'.valid slot = true := by
      rw [VmSys.valid, htlb, Function.update_self]
      exact decide_eq_true (pageFrame_entry haligned).2
    have hpages : s'.tlbPages = Function.update a.tlb slot (some (pageFrame vaddr)) := by
      rw [← h.tlb]
      funext k
      by_cases hk : k = slot
      · subst hk
        rw [Function.update_self, VmSys.tlbPages, if_pos ⟨hlt, hvalid⟩, htlb, Function.update_self]
      · rw [Function.update_of_ne hk, VmSys.tlbPages, VmSys.tlbPages, VmSys.valid, VmSys.valid, htlb,
          Function.update_of_ne hk]
    refine ⟨_, ?_, h.shows has h' hcoherent hshows hpages⟩
    rw [Aspace.fault, if_pos hserves]
    show (match firstFree (fun k => (a.tlb k).isSome) numTlb 0 with
      | none => fail .EFAULT
      | some k => modify fun a => { a with tlb := Function.update a.tlb k (some (pageFrame vaddr)) } :
        Prog Errno Aspace Unit) { a with pages := a.touched vaddr } = _
    rw [h.firstFree, hslot]
    rfl
  · rintro e s' ⟨h', htlb, ⟨hserves, rfl, hshows⟩ | ⟨hserves, rfl, hfull, hshows⟩⟩
    · have hcoherent := h.coherent.grow htlb (hshows.grows as has)
      refine ⟨a, by rw [Aspace.fault, if_neg hserves]; rfl, ?_⟩
      rw [← Function.update_eq_self as s.pages] at hshows
      have hmodels := h.shows has h' hcoherent hshows ((tlbPages_congr htlb).trans h.tlb)
      rw [h.pages] at hmodels
      exact hmodels
    · have hcoherent := h.coherent.grow htlb (hshows.grows as has)
      rw [hfaulted] at hshows
      refine ⟨_, ?_, h.shows has h' hcoherent hshows ((tlbPages_congr htlb).trans h.tlb)⟩
      rw [Aspace.fault, if_pos hserves]
      show (match firstFree (fun k => (a.tlb k).isSome) numTlb 0 with
        | none => fail .EFAULT
        | some k => modify fun a =>
          { a with tlb := Function.update a.tlb k (some (pageFrame vaddr)) } :
          Prog Errno Aspace Unit) { a with pages := a.touched vaddr } = _
      rw [h.firstFree, hfull]
      rfl

/-- An access of the process. -/
theorem access_simulates (has : as ∈ L) (faulttype : ℤ) (vaddr : ℕ) :
    Simulates (Models base L blocks as others held) (access as faulttype vaddr)
      (Aspace.access faulttype vaddr) := by
  intro s a h
  rw [access, meets_bind, meets_gets, h.hit vaddr]
  show Meets _ (fun r s' => ∃ a', (if a.hit vaddr = true then pure () else
      Aspace.fault faulttype vaddr : Prog Errno Aspace Unit) a = .ok r a' ∧ _)
    (fun e s' => ∃ a', (if a.hit vaddr = true then pure () else
      Aspace.fault faulttype vaddr : Prog Errno Aspace Unit) a = .err e a' ∧ _) s _
  by_cases hhit : a.hit vaddr = true
  · simp only [if_pos hhit]
    exact ⟨a, rfl, h⟩
  · simp only [if_neg hhit]
    refine vmFault_simulates has faulttype h ?_
    rw [← h.hit vaddr, Option.isSome_iff_ne_none, not_not] at hhit
    exact hhit

/-- A store of the process. -/
theorem userStore_simulates (has : as ∈ L) (vaddr v : ℕ) :
    Simulates (Models base L blocks as others held) (userStore as vaddr v) (Aspace.store vaddr v) := by
  refine .bind (access_simulates has _ _) fun _ => fun s a h => ?_
  rw [translate, meets_bind, meets_bind, meets_gets]
  cases hlookup : s.lookup vaddr with
  | none => trivial
  | some frame =>
    have hframe := h.coherent.lookup hlookup
    have hpage : a.pages (vaddr / 2 ^ 22) (vaddr / 2 ^ 12 % 2 ^ 10) = some (s.contents frame) := by
      rw [← h.pages, VmSys.pages, hframe]
      rfl
    have hoff : vaddr % pageSize < pageSize := Nat.mod_lt _ (by decide)
    obtain ⟨h', hshows⟩ := h.user.store has hframe hoff v
    simp only [meets_pure, onKern, store, meets_zoom, meets_modify]
    refine ⟨_, rfl, ?_⟩
    have hmodels := h.shows has h' (h.coherent.grow rfl (hshows.grows as has)) hshows h.tlb
    have hwritten : a.written vaddr v = a.pages.set (vaddr / 2 ^ 22) (vaddr / 2 ^ 12 % 2 ^ 10)
        (Function.update (s.contents frame) (vaddr % pageSize) v) := by
      simp only [Aspace.written, hpage]
    show Models base L blocks as others held _ { a with pages := a.written vaddr v }
    rw [hwritten, ← h.pages]
    exact hmodels

/-- The regions of the process. -/
theorem Models.setRegions {a : Aspace} (h : Models base L blocks as others held s a) (sp : Addrspace)
    (hsp : sp.pagetable2 = (s.spaces as).pagetable2) :
    Models base L blocks as others held { s with spaces := Function.update s.spaces as sp }
      { a with regions := (sp.asVbase1, sp.asVbase2, sp.asStackpbase) } := by
  have hframe := frame?_setSpace s as sp hsp
  have hpages : ∀ as', VmSys.pages { s with spaces := Function.update s.spaces as sp } as' =
      s.pages as' := fun as' => pages_congr (fun i j => by rw [hframe]) rfl
  refine ⟨h.user.setSpace as sp hsp, h.coherent.grow rfl fun i j frame hf => ?_,
    (hpages as).trans h.pages, ?_, h.tlb, fun as' has' hne => ?_, h.held⟩
  · rwa [hframe]
  · simp only [VmSys.regions, Function.update_self]
  · rw [hpages, ← h.others as' has' hne]
    simp only [VmSys.regions, Function.update_of_ne hne]

theorem defineRegion_simulates (vaddr : ℕ) :
    Simulates (Models base L blocks as others held) (asDefineRegion as vaddr)
      (Aspace.defineRegion vaddr) := by
  intro s a h
  have hregions := h.regions
  simp only [VmSys.regions] at hregions
  rw [asDefineRegion, meets_bind, meets_get]
  show Meets _ (fun r s' => ∃ a', (if a.regions.1 = 0 then _ else if a.regions.2.1 = 0 then _ else _ :
      Prog Errno Aspace Unit) a = .ok r a' ∧ _)
    (fun e s' => ∃ a', (if a.regions.1 = 0 then _ else if a.regions.2.1 = 0 then _ else _ :
      Prog Errno Aspace Unit) a = .err e a' ∧ _) s _
  rw [← hregions]
  simp only
  by_cases hone : (s.spaces as).asVbase1 = 0
  · simp only [if_pos hone, meets_modify]
    refine ⟨_, rfl, ?_⟩
    show Models base L blocks as others held _ { a with regions := (vaddr, a.regions.2) }
    rw [← hregions]
    exact h.setRegions { s.spaces as with asVbase1 := vaddr } rfl
  · by_cases htwo : (s.spaces as).asVbase2 = 0
    · simp only [if_neg hone, if_pos htwo, meets_modify]
      refine ⟨_, rfl, ?_⟩
      show Models base L blocks as others held _
        { a with regions := (a.regions.1, vaddr, a.regions.2.2) }
      rw [← hregions]
      exact h.setRegions { s.spaces as with asVbase2 := vaddr } rfl
    · simp only [if_neg hone, if_neg htwo, meets_fail]
      exact ⟨a, rfl, h⟩

theorem prepareLoad_simulates :
    Simulates (Models base L blocks as others held) (asPrepareLoad as) Aspace.prepareLoad := by
  intro s a h
  have hregions : (s.spaces as).asStackpbase = a.regions.2.2 := by rw [← h.regions]; rfl
  rw [asPrepareLoad, meets_bind, meets_get, meets_require_partial, hregions]
  intro hzero
  refine ⟨a, ?_, h⟩
  show require (a.regions.2.2 = 0) _ a = _
  rw [Prog.require, if_pos hzero]
  rfl

/-- `load_elf` on behalf of the process. -/
theorem loadElf_models (has : as ∈ L) (f : Exec) :
    Simulates (Models base L blocks as others held) (loadElf (asLoadOps as) f)
      (loadElf Aspace.loadOps f) :=
  loadElf_simulates (userStore_simulates has) defineRegion_simulates prepareLoad_simulates f

end Simulation

end Os161
