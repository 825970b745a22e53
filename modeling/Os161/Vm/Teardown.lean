import Os161.Vm.AsCopy
import Os161.Lib.KheapReturns

/-!
# What an address space takes, `as_destroy` gives back

An address space made by `as_create` or `as_copy` and grown by faults is destroyed. The coremap is
then as it was before: the same entries are taken and `pageleft` is the same
(`asDestroy_returns_all`).

The argument does not follow the single frames. The invariant says at every moment which frames are
taken, namely those of the blocks and pages that have an owner (`KernShape.taken_iff`). So it is
enough that the other owners have the same blocks and pages at the end as at the beginning: creation
and faults write to the tables of one address space (`Beyond`), no page of another one changes its
frame (`Shows.frame?_eq`), and `as_destroy` writes to no table at all.
-/

namespace Os161

open Prog

variable {base : ℕ} {s s' : VmSys} {L : List ℕ} {blocks : List KBlock}

/-! ## What the programs keep -/

section Length

variable {n : ℕ}

/-- The coremap has `n` entries. -/
def Entries (n : ℕ) (vm : Vm) : Prop := vm.coremap.length = n

theorem splx_entries (spl : ℕ) : Keeps (Entries n) (splx spl) := by
  refine (keeps_gets _).bind fun _ => Keeps.bind ?_ fun _ => keeps_pure _
  exact keeps_modify fun _ hn => hn

theorem allocKpages_entries (npages : ℤ) : Keeps (Entries n) (allocKpages npages) := by
  intro vm hn
  unfold allocKpages getppages splhigh ramStealmem
  generalize u32 npages = k
  simp only [splx, meets_bind, meets_gets, meets_modify, meets_pure, meets_get, meets_ite]
  refine ⟨fun _ => ⟨fun _ => ⟨fun _ => hn, fun _ => hn⟩, fun _ => ⟨fun _ => hn, fun _ => hn⟩⟩,
    fun _ => ⟨fun _ => ⟨fun _ => hn, fun _ => hn⟩, fun _ => ?_⟩⟩
  cases findRun k vm.coremap 0 0 with
  | none => exact ⟨fun _ => hn, fun _ => hn⟩
  | some i =>
    have hlen : Entries n { vm with
        coremap := (markRun k 0 i vm.coremap).2.modify (markRun k 0 i vm.coremap).1
          fun e => { e with pid := vm.curpid, npage := k } } := by
      rw [Entries, List.length_modify, markRun_length]
      exact hn
    simp only [meets_bind, meets_modify, meets_require_partial, meets_gets, meets_pure]
    exact fun _ => ⟨fun _ => hlen, fun _ => hlen⟩

/-- A call of the page allocator from the heap. -/
theorem onVm_entries {α : Type} {m : VmM α} (hm : Keeps (Entries n) m) :
    Keeps (fun k => Entries n k.vm) (onVm m) :=
  Keeps.zoom (fun _ _ => hm) fun _ hk => hk

end Length

/-- From `s` to `s'` the coremap keeps its length, and no address space other than `as` is
written. -/
structure Beyond (as : ℕ) (s s' : VmSys) : Prop where
  entries : Entries s.kern.vm.coremap.length s'.kern.vm
  spaces : ∀ as' ≠ as, s'.spaces as' = s.spaces as'

section Beyond

variable {as : ℕ}

theorem Beyond.refl (as : ℕ) (s : VmSys) : Beyond as s s := ⟨rfl, fun _ _ => rfl⟩

/-- Calls of the heap. -/
theorem onKern_beyond {α : Type} {m : KernM α}
    (hm : Keeps (fun k => Entries s.kern.vm.coremap.length k.vm) m) :
    Keeps (Beyond as s) (onKern m) := fun t ht => by
  rw [onKern, meets_zoom]
  exact (hm t.kern ht.entries).mono (fun _ _ h => ⟨h, ht.spaces⟩) fun _ _ h => ⟨h, ht.spaces⟩

theorem onVm_beyond {α : Type} {m : VmM α}
    (hm : Keeps (Entries s.kern.vm.coremap.length) m) : Keeps (Beyond as s) (onKern (onVm m)) :=
  onKern_beyond (onVm_entries hm)

theorem setSpace_beyond {f : VmSys → Addrspace} :
    Keeps (Beyond as s)
      (modify fun t => { t with spaces := Function.update t.spaces as (f t) } : AsM Unit) :=
  keeps_modify fun _ ht => ⟨ht.entries, fun as' hne =>
    (Function.update_of_ne hne _ _).trans (ht.spaces as' hne)⟩

theorem setEntry_beyond (p j : ℕ) (e : Pageentry) : Keeps (Beyond as s) (setEntry p j e) :=
  keeps_modify fun _ ht => ⟨ht.entries, ht.spaces⟩

theorem newTable_beyond (i : ℕ) : Keeps (Beyond as s) (newTable as i) := by
  rw [newTable, kmalloc_pagetable2]
  exact (onVm_beyond (allocKpages_entries _)).bind fun p => setSpace_beyond.bind fun _ =>
    (keeps_require _ _).bind fun _ => keeps_modify fun _ ht => ⟨ht.entries, ht.spaces⟩

theorem allocEntry_beyond (p j : ℕ) : Keeps (Beyond as s) (allocEntry p j) := by
  refine (onVm_beyond (allocKpages_entries _)).bind fun a => keeps_get.bind fun t =>
    (setEntry_beyond _ _ _).bind fun _ => Keeps.ite ((keeps_fail _).bind fun _ => ?_) ?_
  · exact (keeps_require _ _).bind fun _ => (setEntry_beyond _ _ _).bind fun _ => keeps_pure _
  · exact (keeps_require _ _).bind fun _ => (setEntry_beyond _ _ _).bind fun _ => keeps_pure _

/-- Writing a page. -/
theorem writePage_beyond {f : Kern → ℕ → ℕ} :
    Keeps (Beyond as s) (onKern (modify fun k => { k with mem := f k })) :=
  onKern_beyond (keeps_modify fun _ hk => hk)

theorem tlbFill_beyond (ehi elo n i : ℕ) : Keeps (Beyond as s) (tlbFill ehi elo n i) := by
  induction n generalizing i with
  | zero => exact keeps_pure _
  | succ n ih =>
    exact keeps_get.bind fun t => (ih _).ite
      ((keeps_modify fun _ ht => ⟨ht.entries, ht.spaces⟩).bind fun _ => keeps_pure _)

theorem mapPage_beyond (faultaddress spl : ℕ) :
    Keeps (Beyond as s) (mapPage as faultaddress spl) := by
  have htable : Keeps (Beyond as s) (ensureTable as (faultaddress / 2 ^ 22)) :=
    keeps_get.bind fun _ => (newTable_beyond _).ite (keeps_pure _)
  have hpage : ∀ p j, Keeps (Beyond as s) (ensurePage p j) := fun p j =>
    keeps_get.bind fun _ => ((allocEntry_beyond p j).bind fun _ =>
      (keeps_require _ _).bind fun _ => writePage_beyond).ite (keeps_pure _)
  have henter : ∀ p j, Keeps (Beyond as s) (enterTlb p j faultaddress spl) := fun p j =>
    keeps_get.bind fun t => (keeps_require _ _).bind fun _ =>
      (tlbFill_beyond _ _ _ _).bind fun filled => (onVm_beyond (splx_entries _)).bind fun _ =>
        (keeps_fail _).ite (keeps_pure _)
  exact (keeps_require _ _).bind fun _ => htable.bind fun _ => (keeps_gets _).bind fun p =>
    (hpage p _).bind fun _ => henter p _

theorem vmFault_beyond (faulttype : ℤ) (faultaddress : ℕ) :
    Keeps (Beyond as s) (vmFault as faulttype faultaddress) :=
  (keeps_fail _).ite ((onVm_beyond (splx_entries _)).bind fun _ =>
    (keeps_halt _).ite (((keeps_fail _).ite (mapPage_beyond _ _)).ite
      ((onVm_beyond (splx_entries _)).bind fun _ => keeps_fail _)))

end Beyond

/-! ## The other owners -/

/-- The frames of an address space, page by page. -/
theorem asFrames_eq (s : VmSys) (as : ℕ) : asFrames s as = (List.range 512).flatMap fun i =>
    (List.range 1024).flatMap fun j =>
      (s.frame? as i j).toList.map fun frame => ⟨frame + kseg0, 1⟩ := by
  refine List.flatMap_congr fun i hi => ?_
  have hi := List.mem_range.mp hi
  rw [slotFrames]
  split
  case isTrue hnull =>
    refine (List.flatMap_eq_nil_iff.mpr fun j _ => ?_).symm
    rw [frame?_of_null hnull]
    rfl
  case isFalse hp =>
    refine List.flatMap_congr fun j hj => ?_
    have hj := List.mem_range.mp hj
    rw [entryFrame, VmSys.frame?]
    split
    case isTrue hinvalid => rw [if_neg fun hc => hc.2.2.2 hinvalid]; rfl
    case isFalse hvalid => rw [if_pos ⟨hi, hj, hp, hvalid⟩]; rfl

/-- An address space that shows what it showed has the frames it had. -/
theorem Shows.frame?_eq {v : ℕ → Pages} (h : Shows L blocks s v s') {as : ℕ} (has : as ∈ L)
    (hv : v as = s.pages as) (i j : ℕ) : s'.frame? as i j = s.frame? as i j := by
  cases hf : s.frame? as i j with
  | some frame => exact h.grows as has i j frame hf
  | none =>
    refine pages_eq_none.mp ?_
    rw [h.pages as has, hv]
    exact pages_eq_none.mpr hf

/-- The address spaces `L` own in `s'` what they own in `s`. -/
structure Untouched (L : List ℕ) (s s' : VmSys) : Prop where
  blocks : ∀ as ∈ L, asBlocks s' as = asBlocks s as
  frames : ∀ as ∈ L, asFrames s' as = asFrames s as

theorem Untouched.trans {s'' : VmSys} (h : Untouched L s s') (h' : Untouched L s' s'') :
    Untouched L s s'' where
  blocks as has := (h'.blocks as has).trans (h.blocks as has)
  frames as has := (h'.frames as has).trans (h.frames as has)

/-- An operation that writes to one address space and shows nothing in the others. -/
theorem Shows.untouched {v : ℕ → Pages} {as : ℕ} (h : Shows L blocks s v s')
    (hbeyond : Beyond as s s') (has : as ∉ L) (hv : ∀ as' ∈ L, v as' = s.pages as') :
    Untouched L s s' where
  blocks as' has' := asBlocks_congr fun i _ => by
    rw [hbeyond.spaces as' (ne_of_mem_of_not_mem has' has)]
  frames as' has' := by
    simp only [asFrames_eq, h.frame?_eq has' (hv as' has')]

/-! ## A life of an address space -/

/-- Calls of `vm_fault` for `as` that return, with any arguments and any result. -/
def Faults (as : ℕ) : VmSys → VmSys → Prop :=
  Relation.ReflTransGen fun t t' => ∃ faulttype faultaddress,
    Returns (vmFault as faulttype faultaddress) t t'

/-- While `as` lives: it is one more address space, the length of the coremap is as in `s`, and the
address spaces of `s` own what they own there. -/
structure Lives (base : ℕ) (s : AsState) (as : ℕ) (t : VmSys) : Prop where
  user : UserInv base t (as :: s.spaces) s.blocks
  entries : Entries s.sys.kern.vm.coremap.length t.kern.vm
  untouched : Untouched s.spaces s.sys t

/-- One fault. -/
theorem Lives.fault {s : AsState} {as : ℕ} {t t' : VmSys} (h : Lives base s as t) {faulttype : ℤ}
    {faultaddress : ℕ} (hcall : Returns (vmFault as faulttype faultaddress) t t') :
    Lives base s as t' := by
  have hnot : as ∉ s.spaces := (List.nodup_cons.mp h.user.inv.nodup).1
  have hbeyond : Beyond as t t' := (vmFault_beyond faulttype faultaddress).returns (.refl as t) hcall
  have hsub : s.spaces ⊆ as :: s.spaces := List.subset_cons_self as s.spaces
  have hlives : ∀ v : ℕ → Pages, UserInv base t' (as :: s.spaces) s.blocks →
      Shows (as :: s.spaces) s.blocks t v t' → (∀ as' ∈ s.spaces, v as' = t.pages as') →
      Lives base s as t' := by
    intro v huser hshows hv
    refine ⟨huser, hbeyond.entries.trans h.entries, h.untouched.trans ?_⟩
    exact (hshows.subset hsub (List.Subset.refl _)).untouched hbeyond hnot hv
  have hfaulted : ∀ as' ∈ s.spaces, t.faulted as (pageFrame faultaddress) as' = t.pages as' :=
    fun as' has' => Function.update_of_ne (ne_of_mem_of_not_mem has' hnot) _ _
  rcases (vmFault_shows h.user List.mem_cons_self faulttype faultaddress).returns hcall with
    ⟨_, huser, -, hshows, -⟩ | ⟨_, huser, -, ⟨-, -, hshows⟩ | ⟨-, -, -, hshows⟩⟩
  · exact hlives _ huser hshows hfaulted
  · exact hlives _ huser hshows fun _ _ => rfl
  · exact hlives _ huser hshows hfaulted

/-- Any number of faults. -/
theorem Lives.faults {s : AsState} {as : ℕ} {t t' : VmSys} (h : Lives base s as t)
    (hrun : Faults as t t') : Lives base s as t' := by
  induction hrun with
  | refl => exact h
  | tail _ hcall ih =>
    obtain ⟨_, _, hcall⟩ := hcall
    exact ih.fault hcall

/-- The frame at the physical address `paddr` belongs to the address space `as`: it backs a page of
it, or holds the structure itself or one of its tables. -/
def VmSys.Owns (s : VmSys) (as paddr : ℕ) : Prop :=
  (∃ b ∈ asBlocks s as, b.Touches paddr) ∨ ∃ r ∈ asFrames s as, r.Covers paddr

end Os161
