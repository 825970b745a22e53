import Os161.Lib.KheapSafety

/-!
# Boot-time memory

Two things follow from how `vm_bootstrap` takes over from `ram.c`.

The coremap array lies at the bottom of the memory it describes, and the frames start at the next
page boundary above it. There are as many frames as pages of memory less one. That leaves room for
one page of array: as soon as the array needs a second page, the last frames lie above the end of
memory (`vmBootstrap_real_iff`).

Pages handed out before `vm_bootstrap` come from `ram_stealmem` and lie below the coremap, which
knows nothing of them. The search loop of `free_kpages` has no bound of its own, so on such a page
it runs off the array (`freeKpages_finds`). The heap is one of the callers that may hold such pages.
-/

namespace Os161

open Prog

variable {vm : Vm}

/-! ## The frames of the coremap -/

/-- The frames that the coremap records are pages of the memory from `lowest` to `highest`, and none
overlaps the array of entries at `lowest`. -/
structure RealFrames (lowest highest : ℕ) (vm : Vm) : Prop where
  distinct : (vm.coremap.map CoremapEntry.phyaddr).Nodup
  aligned : ∀ e ∈ vm.coremap, e.phyaddr % pageSize = 0
  inside : ∀ e ∈ vm.coremap, lowest ≤ e.phyaddr ∧ e.phyaddr + pageSize ≤ highest
  apart : ∀ e ∈ vm.coremap, e.phyaddr + pageSize ≤ lowest ∨
    lowest + coremapEntrySize * vm.coremap.length ≤ e.phyaddr

/-- Where the frames of a page-aligned range start: above the pages that the array and one more
entry need. -/
theorem RamRange.toppagePtr_eq {lo hi : ℕ} (h : RamRange lo hi) (hlo : lo % pageSize = 0) :
    toppagePtr lo hi =
      lo + (coremapEntrySize * ((hi - lo) / pageSize) / pageSize + 1) * pageSize := by
  have hpage := h.page
  have htop := h.top
  have hn := h.pagenumber_eq
  unfold coremapEntrySize
  unfold pageSize at *
  have hend : u32 (lo + pagenumber lo hi * coremapEntrySize) = lo + pagenumber lo hi * 20 := by
    unfold u32 coremapEntrySize; omega
  have hnext : u32 ((lo + pagenumber lo hi * 20 : ℕ) + coremapEntrySize) =
      lo + pagenumber lo hi * 20 + 20 := by
    unfold u32 coremapEntrySize; omega
  simp only [toppagePtr, hend, hnext]
  have hround : ∀ x ≤ 600000000, u32 ((pageFrame x : ℕ) + 0x1000) = x - x % 4096 + 4096 := by
    intro x hx
    unfold u32 pageFrame pageSize; omega
  rw [hround _ (by omega)]
  omega

/-- What `vm_bootstrap` leaves in the coremap. -/
theorem vmBootstrap_frames (old : ℕ → CoremapEntry) (h : RamRange vm.firstpaddr vm.lastpaddr) :
    ∃ vm', vmBootstrap old vm = .ok () vm' ∧
      vm'.coremap.length = (vm.lastpaddr - vm.firstpaddr) / pageSize - 1 ∧
      CoremapInv (toppagePtr vm.firstpaddr vm.lastpaddr) vm' [] := by
  obtain ⟨⟨⟩, vm', hcall, hinv⟩ := (vmBootstrap_spec old h).exists_ok
  refine ⟨vm', hcall, ?_, hinv⟩
  have hlen : ((vmBootstrap old vm).stateD vm).coremap.length =
      pagenumber vm.firstpaddr vm.lastpaddr := by
    show ((List.range _).map _).length = _
    rw [List.length_map, List.length_range]
  rw [hcall] at hlen
  rw [← h.pagenumber_eq]
  exact hlen

/-- **`vm_bootstrap` manages only real memory exactly when the coremap fits in one page**, which is
up to 204 pages of memory. From 205 pages on the last frames lie above the end of memory. -/
theorem vmBootstrap_real_iff (vm : Vm) (old : ℕ → CoremapEntry)
    (h : RamRange vm.firstpaddr vm.lastpaddr)
    (hlo : vm.firstpaddr % pageSize = 0) (hhi : vm.lastpaddr % pageSize = 0)
    (hthree : vm.firstpaddr + 3 * pageSize ≤ vm.lastpaddr) :
    ∃ vm', vmBootstrap old vm = .ok () vm' ∧
      (RealFrames vm.firstpaddr vm.lastpaddr vm' ↔
        (vm.lastpaddr - vm.firstpaddr) / pageSize ≤ 204) := by
  obtain ⟨vm', hcall, hlen, hinv⟩ := vmBootstrap_frames old h
  refine ⟨vm', hcall, ?_⟩
  have htop := h.toppagePtr_eq hlo
  have hframe := hinv.frame
  generalize vm.firstpaddr = lo at *
  generalize vm.lastpaddr = hi at *
  generalize toppagePtr lo hi = base at *
  unfold coremapEntrySize pageSize at *
  constructor
  · intro hreal
    -- the last frame is the first to leave the memory
    have hlast : vm'.coremap.length - 1 < vm'.coremap.length := by omega
    have hphy := hframe _ _ (List.getElem?_eq_getElem hlast)
    have hin := (hreal.inside _ (List.getElem_mem hlast)).2
    unfold pageSize at hin
    omega
  · intro hsmall
    have hmem : ∀ e ∈ vm'.coremap, ∃ i < vm'.coremap.length, e.phyaddr = base + 4096 * i := by
      intro e he
      obtain ⟨i, hi, rfl⟩ := List.mem_iff_getElem.mp he
      exact ⟨i, hi, hframe i _ (List.getElem?_eq_getElem hi)⟩
    refine ⟨?_, fun e he => ?_, fun e he => ?_, fun e he => ?_⟩
    · refine List.nodup_iff_injective_get.mpr fun i j hij => Fin.ext ?_
      simp only [List.get_eq_getElem, List.getElem_map] at hij
      have hi := hframe i _ (List.getElem?_eq_getElem (by simpa using i.isLt))
      have hj := hframe j _ (List.getElem?_eq_getElem (by simpa using j.isLt))
      omega
    · obtain ⟨i, -, hphy⟩ := hmem e he
      unfold pageSize
      omega
    · obtain ⟨i, hi, hphy⟩ := hmem e he
      unfold pageSize
      omega
    · obtain ⟨i, hi, hphy⟩ := hmem e he
      unfold coremapEntrySize
      omega

/-- The machine of `fivePageVm` keeps within its memory. -/
theorem vmBootstrap_real_fivePageVm :
    ∃ vm', vmBootstrap (fun _ => default) fivePageVm = .ok () vm' ∧
      RealFrames 0x20000 0x25000 vm' := by
  obtain ⟨vm', hcall, hiff⟩ := vmBootstrap_real_iff fivePageVm (fun _ => default)
    ⟨by decide, by decide⟩ (by decide) (by decide) (by decide)
  exact ⟨vm', hcall, hiff.mpr (by decide)⟩

/-- A machine with 205 free pages, before `vm_bootstrap`. -/
def wideVm : Vm := { fivePageVm with lastpaddr := 0xed000 }

/-- With 205 pages the array needs two of them, and the last of the 204 frames starts at the end of
memory. -/
theorem vmBootstrap_beyond_memory : ∃ vm' e, vmBootstrap (fun _ => default) wideVm = .ok () vm' ∧
    e ∈ vm'.coremap ∧ e.phyaddr = wideVm.lastpaddr ∧
    ¬ RealFrames wideVm.firstpaddr wideVm.lastpaddr vm' := by
  have hlast : ((vmBootstrap (fun _ => default) wideVm).stateD wideVm).coremap[203]? =
      some { (default : CoremapEntry) with taken := false, phyaddr := 0xed000 } := by
    decide +kernel
  have hmem := List.mem_of_getElem? hlast
  refine ⟨_, _, rfl, hmem, rfl, fun hreal => ?_⟩
  exact absurd (hreal.inside _ hmem).2 (by decide)

/-! ## Boot histories -/

/-- The page allocator and the addresses that `alloc_kpages` has returned and that have not been
freed: `stolen` those from before `vm_bootstrap` and `live` those from after it. -/
structure BootState where
  vm : Vm
  stolen : List ℕ
  live : List ℕ

/-- One step of a boot history: a call of the page allocator, by the heap or by anyone else, or
`vm_bootstrap`. Before `vm_bootstrap` only the numbers of pages in `asks` are requested. -/
inductive BootStep (asks : ℤ → Prop) : BootState → BootState → Prop where
  | steal {s : BootState} {npages : ℤ} {addr : ℕ} {vm' : Vm} (hearly : s.vm.vmIndicator = false)
      (hasks : asks npages) (hcall : allocKpages npages s.vm = .ok addr vm') :
      BootStep asks s
        { s with vm := vm', stolen := if addr = 0 then s.stolen else addr :: s.stolen }
  | boot {s : BootState} {old : ℕ → CoremapEntry} {vm' : Vm} (hearly : s.vm.vmIndicator = false)
      (hram : RamRange s.vm.firstpaddr s.vm.lastpaddr) (hcall : vmBootstrap old s.vm = .ok () vm') :
      BootStep asks s { s with vm := vm' }
  | alloc {s : BootState} {npages : ℤ} {addr : ℕ} {vm' : Vm} (hlate : s.vm.vmIndicator = true)
      (hcall : allocKpages npages s.vm = .ok addr vm') :
      BootStep asks s { s with vm := vm', live := if addr = 0 then s.live else addr :: s.live }
  | freeStolen {s : BootState} {addr : ℕ} {vm' : Vm} (hmem : addr ∈ s.stolen)
      (hcall : freeKpages addr s.vm = .ok () vm') :
      BootStep asks s { s with vm := vm', stolen := s.stolen.erase addr }
  | free {s : BootState} {addr : ℕ} {vm' : Vm} (hmem : addr ∈ s.live)
      (hcall : freeKpages addr s.vm = .ok () vm') :
      BootStep asks s { s with vm := vm', live := s.live.erase addr }

/-- The states of a boot history that starts from what `ram_bootstrap` sets up. -/
def BootState.Reachable (asks : ℤ → Prop) (s : BootState) : Prop :=
  ∃ vm₀ : Vm, vm₀.vmIndicator = false ∧ vm₀.coremap = [] ∧ vm₀.firstpaddr ≤ vm₀.lastpaddr ∧
    vm₀.lastpaddr ≤ 508 * 1024 * 1024 ∧ Relation.ReflTransGen (BootStep asks) ⟨vm₀, [], []⟩ s

/-- No entry of the coremap moves, and the length an entry records stays inside the coremap. -/
structure Kept (vm vm' : Vm) : Prop where
  booted : vm'.vmIndicator = vm.vmIndicator
  length : vm'.coremap.length = vm.coremap.length
  entry : ∀ (i : ℕ) (e' : CoremapEntry), vm'.coremap[i]? = some e' → ∃ e, vm.coremap[i]? = some e ∧
    e'.phyaddr = e.phyaddr ∧ (e'.npage = e.npage ∨ i + e'.npage ≤ vm.coremap.length)

theorem Kept.of_eq {vm' : Vm} (hboot : vm'.vmIndicator = vm.vmIndicator)
    (hcm : vm'.coremap = vm.coremap) : Kept vm vm' :=
  ⟨hboot, by rw [hcm], fun i e' he' => ⟨e', hcm ▸ he', rfl, Or.inl rfl⟩⟩

/-- The coremap has been set up with its lowest frame at `base`. -/
structure FramesFrom (base : ℕ) (vm : Vm) : Prop where
  booted : vm.vmIndicator = true
  bound : base + pageSize * vm.coremap.length < kseg0
  frame : ∀ (i : ℕ) (e : CoremapEntry), vm.coremap[i]? = some e → e.phyaddr = base + pageSize * i

/-- The address belongs to a frame whose entry records a length that fits. -/
def Recorded (base : ℕ) (vm : Vm) (a : ℕ) : Prop :=
  ∃ i e, a = base + pageSize * i + kseg0 ∧ vm.coremap[i]? = some e ∧
    i + e.npage ≤ vm.coremap.length

variable {base : ℕ}

theorem FramesFrom.kept {vm' : Vm} (h : FramesFrom base vm) (hk : Kept vm vm') :
    FramesFrom base vm' := by
  refine ⟨hk.booted.trans h.booted, by rw [hk.length]; exact h.bound, fun i e' he' => ?_⟩
  obtain ⟨e, he, hphy, -⟩ := hk.entry i e' he'
  rw [hphy, h.frame i e he]

theorem Recorded.kept {vm' : Vm} {a : ℕ} (h : Recorded base vm a) (hk : Kept vm vm') :
    Recorded base vm' a := by
  obtain ⟨i, e, ha, he, hle⟩ := h
  have hi : i < vm'.coremap.length := by
    rw [hk.length]; exact (List.getElem?_eq_some_iff.mp he).1
  obtain ⟨e₀, he₀, -, hnp⟩ := hk.entry i _ (List.getElem?_eq_getElem hi)
  obtain rfl : e = e₀ := Option.some.inj (he.symm.trans he₀)
  refine ⟨i, _, ha, List.getElem?_eq_getElem hi, ?_⟩
  rw [hk.length]
  rcases hnp with hsame | hfit
  · rw [hsame]; exact hle
  · exact hfit

/-- An allocation keeps the entries and returns a recorded address. -/
theorem allocKpages_kept (h : FramesFrom base vm) (npages : ℤ) :
    Meets (allocKpages npages)
      (fun a vm' => Kept vm vm' ∧ (a ≠ 0 → Recorded base vm' a)) (fun _ _ => False) vm
      (fun _ => True) := by
  unfold allocKpages getppages splhigh
  generalize u32 npages = n
  simp only [splx, meets_bind, meets_gets, meets_modify, meets_pure, meets_get, meets_ite]
  have hsame : ∀ spl, Kept vm { vm with curspl := spl } := fun spl => .of_eq rfl rfl
  refine ⟨fun hoff => absurd (h.booted.symm.trans hoff) (by decide), fun _ =>
    ⟨fun _ => ⟨fun _ => ⟨hsame _, fun hne => absurd rfl hne⟩, fun hne => absurd trivial hne⟩,
      fun _ => ?_⟩⟩
  cases hfind : findRun n vm.coremap 0 0 with
  | none => exact ⟨fun _ => ⟨hsame _, fun hne => absurd rfl hne⟩, fun hne => absurd rfl hne⟩
  | some k =>
    obtain ⟨hn, hle, hk, -⟩ := findRun_found hfind
    have hptr := (markRun_spec (l := vm.coremap) hn hle).1
    have hlen := markRun_length n 0 k vm.coremap
    obtain ⟨lo, hlo⟩ : ∃ lo, k + 1 = lo + n := ⟨k + 1 - n, by omega⟩
    have hget := granted_get vm.coremap hn hlo vm.curpid
    obtain ⟨e₀, hentry⟩ : ∃ e, vm.coremap[lo]? = some e :=
      ⟨_, List.getElem?_eq_getElem (by omega)⟩
    have hphy := (markRun_phyaddr hn hle hentry).trans (h.frame lo _ hentry)
    simp only [meets_bind, meets_modify, meets_require_partial, meets_gets, meets_pure]
    rw [show k + 1 - n = lo by omega] at hptr
    simp only [hptr, hphy]
    generalize (markRun n 0 k vm.coremap).2 = cm at *
    have hlt : base + pageSize * lo < kseg0 := by
      have hbound := h.bound
      simp only [pageSize] at hbound ⊢
      omega
    have hkept : Kept vm { vm with
        curspl := vm.curspl
        coremap := cm.modify lo fun e => { e with pid := vm.curpid, npage := n }
        pageleft := u32 (vm.pageleft - n) } := by
      refine ⟨rfl, by rw [List.length_modify, hlen], fun i e' he' => ?_⟩
      rw [hget i, Option.map_eq_some_iff] at he'
      obtain ⟨e, he, rfl⟩ := he'
      refine ⟨e, he, rfl, ?_⟩
      simp only
      split
      · exact Or.inr (by omega)
      · exact Or.inl rfl
    refine fun _ => ⟨fun _ => ⟨hkept, fun hne => absurd rfl hne⟩, fun _ => ⟨hkept, fun _ => ?_⟩⟩
    refine ⟨lo, _, paddrToKvaddr_of_lt hlt, by rw [hget lo, hentry]; rfl, ?_⟩
    rw [hkept.length]
    simp only [if_true]
    omega

/-- A pass of the freeing loop of `free_kpages` keeps the entries. -/
theorem freeEntry_kept {vm' : Vm} (hk : Kept vm vm') (i : ℕ) :
    Meets (freeEntry i) (fun _ vm'' => Kept vm vm'') (fun _ _ => False) vm' (fun _ => True) := by
  simp only [freeEntry, meets_bind, meets_get, meets_require_partial, meets_modify]
  refine fun _ => ⟨hk.booted, by rw [List.length_modify, hk.length], fun q e' he' => ?_⟩
  rw [List.getElem?_modify_map, Option.map_eq_some_iff] at he'
  obtain ⟨e, he, rfl⟩ := he'
  have hold := hk.entry q e he
  split <;> exact hold

/-- `free_kpages` keeps the entries, whatever address it is called with. -/
theorem freeKpages_kept (a : ℕ) :
    Meets (freeKpages a) (fun _ vm' => Kept vm vm') (fun _ _ => False) vm (fun _ => True) := by
  unfold freeKpages splhigh
  simp only [splx, meets_bind, meets_require_partial, meets_gets, meets_modify, meets_pure,
    meets_get]
  intro _
  cases findEntry vm.coremap a with
  | none => trivial
  | some ptr =>
    have hspl : Kept vm { vm with curspl := splHigh } := .of_eq rfl rfl
    simp only [meets_bind]
    refine (Meets.forRange (fun _ t => Kept vm t) hspl
      fun i t _ _ hk => freeEntry_kept hk (ptr + i)).imp fun _ t hk => ?_
    exact ⟨hk.booted, hk.length, hk.entry⟩

/-- Before `vm_bootstrap` an allocation only moves the first free address. -/
theorem allocKpages_early (hearly : vm.vmIndicator = false) (npages : ℤ) :
    Meets (allocKpages npages)
      (fun a vm' => vm'.vmIndicator = false ∧ vm'.coremap = vm.coremap ∧
        vm'.lastpaddr = vm.lastpaddr ∧
        (vm'.firstpaddr = vm.firstpaddr ∧ a = 0 ∨
          vm'.firstpaddr = u32 (vm.firstpaddr + u32 ((u32 npages : ℕ) * pageSize)) ∧
            vm'.firstpaddr ≤ vm.lastpaddr ∧ (a = 0 ∨ a = paddrToKvaddr vm.firstpaddr)))
      (fun _ _ => False) vm := by
  unfold allocKpages getppages splhigh ramStealmem
  simp only [splx, meets_bind, meets_gets, meets_modify, meets_pure, meets_get, meets_ite]
  refine ⟨fun _ => ⟨fun _ => ⟨fun _ => ?_, fun hne => absurd trivial hne⟩, fun hfit =>
    ⟨fun _ => ?_, fun _ => ?_⟩⟩, fun hlate => absurd hearly hlate⟩
  · exact ⟨hearly, trivial, trivial, Or.inl ⟨trivial, trivial⟩⟩
  · exact ⟨hearly, trivial, trivial, Or.inr ⟨trivial, not_lt.mp hfit, Or.inl trivial⟩⟩
  · exact ⟨hearly, trivial, trivial, Or.inr ⟨trivial, not_lt.mp hfit, Or.inr trivial⟩⟩

/-- The invariant of all boot histories: after `vm_bootstrap` the addresses handed out since then
are recorded in the coremap. -/
def BootState.Sound (s : BootState) : Prop :=
  (s.vm.vmIndicator = false ∧ s.live = []) ∨
    ∃ base, FramesFrom base s.vm ∧ ∀ a ∈ s.live, Recorded base s.vm a

theorem BootStep.sound {asks : ℤ → Prop} {s t : BootState} (hstep : BootStep asks s t)
    (h : s.Sound) : t.Sound := by
  rcases h with ⟨hearly, hlive⟩ | ⟨base, hframes, hrec⟩
  · cases hstep with
    | steal _ _ hcall =>
      exact Or.inl ⟨((allocKpages_early hearly _).of_ok hcall).1, hlive⟩
    | boot _ hram hcall =>
      have hinv := (vmBootstrap_spec _ hram).of_ok hcall
      refine Or.inr ⟨_, ⟨hinv.booted, hinv.bound, hinv.frame⟩, fun a ha => ?_⟩
      rw [hlive] at ha
      exact absurd ha List.not_mem_nil
    | alloc hlate _ => exact absurd (hearly.symm.trans hlate) (by decide)
    | freeStolen _ hcall =>
      have hkept := (freeKpages_kept _).of_ok hcall
      exact Or.inl ⟨hkept.booted.trans hearly, hlive⟩
    | free hmem _ =>
      rw [hlive] at hmem
      exact absurd hmem List.not_mem_nil
  · cases hstep with
    | steal hearly _ _ => exact absurd (hearly.symm.trans hframes.booted) (by decide)
    | boot hearly _ _ => exact absurd (hearly.symm.trans hframes.booted) (by decide)
    | alloc _ hcall =>
      obtain ⟨hkept, hnew⟩ := (allocKpages_kept hframes _).of_ok hcall
      refine Or.inr ⟨base, hframes.kept hkept, fun a ha => ?_⟩
      split at ha
      case isTrue => exact (hrec a ha).kept hkept
      case isFalse hne =>
        rcases List.mem_cons.mp ha with rfl | hold
        · exact hnew hne
        · exact (hrec a hold).kept hkept
    | freeStolen _ hcall =>
      have hkept := (freeKpages_kept _).of_ok hcall
      exact Or.inr ⟨base, hframes.kept hkept, fun a ha => (hrec a ha).kept hkept⟩
    | free _ hcall =>
      have hkept := (freeKpages_kept _).of_ok hcall
      exact Or.inr ⟨base, hframes.kept hkept, fun a ha =>
        (hrec a (List.mem_of_mem_erase ha)).kept hkept⟩

/-- A number of pages for which the address arithmetic of `ram_stealmem` does not overflow. -/
def PlainRequest (npages : ℤ) : Prop := 0 ≤ npages ∧ npages < 2 ^ 19

/-- The invariant of boot histories with plain early requests: the pages handed out before
`vm_bootstrap` lie below the frames of the coremap. -/
def BootState.Below (s : BootState) : Prop :=
  (s.vm.vmIndicator = false ∧ s.vm.coremap = [] ∧ s.vm.firstpaddr ≤ s.vm.lastpaddr ∧
      s.vm.lastpaddr ≤ 508 * 1024 * 1024 ∧ ∀ a ∈ s.stolen, a ≤ s.vm.firstpaddr + kseg0) ∨
    ∃ base, FramesFrom base s.vm ∧ ∀ a ∈ s.stolen, a < base + kseg0

/-- The search of `free_kpages` for an address below the frames runs off the array. -/
theorem freeKpages_below {a : ℕ}
    (hmiss : ∀ e ∈ vm.coremap, paddrToKvaddr e.phyaddr ≠ a) :
    ∃ msg, freeKpages a vm = .halted msg := by
  have hnone : findEntry vm.coremap a = none := by
    unfold findEntry
    rw [List.findIdx?_eq_none_iff]
    intro e he
    exact decide_eq_false (hmiss e he)
  refine Meets.exists_halted (H := fun _ => True) ?_
  unfold freeKpages splhigh
  simp only [splx, meets_bind, meets_require_partial, meets_gets, meets_modify, meets_pure,
    meets_get, hnone]
  exact fun _ => trivial

theorem BootState.Below.free_halts {s : BootState} (h : s.Below) {a : ℕ} (ha : a ∈ s.stolen) :
    ∃ msg, freeKpages a s.vm = .halted msg := by
  refine freeKpages_below fun e he => ?_
  rcases h with ⟨-, hempty, -⟩ | ⟨base, hframes, hlow⟩
  · rw [hempty] at he
    exact absurd he List.not_mem_nil
  · obtain ⟨i, hi, rfl⟩ := List.mem_iff_getElem.mp he
    have hbound := hframes.bound
    rw [hframes.frame i _ (List.getElem?_eq_getElem hi), paddrToKvaddr_of_lt]
    · have := hlow a ha
      omega
    · simp only [pageSize] at hbound ⊢
      omega

/-- A plain request moves the first free address upwards and returns the old one. -/
theorem plain_steal {npages : ℤ} {a : ℕ} {vm' : Vm} (hasks : PlainRequest npages)
    (hle : vm.firstpaddr ≤ vm.lastpaddr) (htop : vm.lastpaddr ≤ 508 * 1024 * 1024)
    (hlast : vm'.lastpaddr = vm.lastpaddr)
    (hmove : vm'.firstpaddr = vm.firstpaddr ∧ a = 0 ∨
      vm'.firstpaddr = u32 (vm.firstpaddr + u32 ((u32 npages : ℕ) * pageSize)) ∧
        vm'.firstpaddr ≤ vm.lastpaddr ∧ (a = 0 ∨ a = paddrToKvaddr vm.firstpaddr)) :
    vm.firstpaddr ≤ vm'.firstpaddr ∧ vm'.firstpaddr ≤ vm'.lastpaddr ∧
      (a ≠ 0 → a ≤ vm'.firstpaddr + kseg0) := by
  obtain ⟨hpos, hlt⟩ := hasks
  have hsize : u32 (vm.firstpaddr + u32 ((u32 npages : ℕ) * pageSize)) =
      vm.firstpaddr + npages.toNat * 4096 := by
    unfold u32 pageSize; omega
  have hkv : paddrToKvaddr vm.firstpaddr = vm.firstpaddr + kseg0 :=
    paddrToKvaddr_of_lt (by unfold kseg0; omega)
  rw [hsize, hkv] at hmove
  omega

theorem BootStep.below {s t : BootState} (hstep : BootStep PlainRequest s t) (h : s.Below) :
    t.Below := by
  cases hstep with
  | steal hearly hasks hcall =>
    rcases h with ⟨-, hempty, hle, htop, hlow⟩ | ⟨base, hframes, -⟩
    · obtain ⟨hearly', hcm, hlast, hfirst⟩ := (allocKpages_early hearly _).of_ok hcall
      obtain ⟨hfirst, hle', hnew⟩ := plain_steal hasks hle htop hlast hfirst
      refine Or.inl ⟨hearly', hcm.trans hempty, hle', by rwa [hlast], fun a ha => ?_⟩
      split at ha
      case isTrue => exact (hlow a ha).trans (Nat.add_le_add_right hfirst _)
      case isFalse hne =>
        rcases List.mem_cons.mp ha with rfl | hold
        · exact hnew hne
        · exact (hlow a hold).trans (Nat.add_le_add_right hfirst _)
    · exact absurd (hearly.symm.trans hframes.booted) (by decide)
  | boot hearly hram hcall =>
    rcases h with ⟨-, -, -, -, hlow⟩ | ⟨base, hframes, -⟩
    · have hinv := (vmBootstrap_spec _ hram).of_ok hcall
      refine Or.inr ⟨_, ⟨hinv.booted, hinv.bound, hinv.frame⟩, fun a ha => ?_⟩
      have habove := hram.toppagePtr_spec.1
      have := hlow a ha
      omega
    · exact absurd (hearly.symm.trans hframes.booted) (by decide)
  | alloc hlate hcall =>
    rcases h with ⟨hearly, -⟩ | ⟨base, hframes, hlow⟩
    · exact absurd (hearly.symm.trans hlate) (by decide)
    · exact Or.inr ⟨base, hframes.kept ((allocKpages_kept hframes _).of_ok hcall).1, hlow⟩
  | freeStolen hmem hcall =>
    -- the search for such a page does not end, so there is no such step
    obtain ⟨msg, hhalt⟩ := h.free_halts hmem
    exact absurd (hcall.symm.trans hhalt) nofun
  | free hmem hcall =>
    have hkept := (freeKpages_kept _).of_ok hcall
    rcases h with ⟨hearly, hempty, hrest⟩ | ⟨base, hframes, hlow⟩
    · obtain ⟨msg, hhalt⟩ := freeKpages_below fun e he => by
        rw [hempty] at he
        exact absurd he List.not_mem_nil
      exact absurd (hcall.symm.trans hhalt) nofun
    · exact Or.inr ⟨base, hframes.kept hkept, hlow⟩

theorem BootState.Reachable.sound {asks : ℤ → Prop} {s : BootState} (hs : s.Reachable asks) :
    s.Sound := by
  obtain ⟨vm₀, hearly, -, -, -, hrun⟩ := hs
  induction hrun with
  | refl => exact Or.inl ⟨hearly, rfl⟩
  | tail _ hstep ih => exact hstep.sound ih

theorem BootState.Reachable.below {s : BootState} (hs : s.Reachable PlainRequest) : s.Below := by
  obtain ⟨vm₀, hearly, hempty, hle, htop, hrun⟩ := hs
  induction hrun with
  | refl => exact Or.inl ⟨hearly, hempty, hle, htop, fun a ha => absurd ha List.not_mem_nil⟩
  | tail _ hstep ih => exact hstep.below ih

end Os161
