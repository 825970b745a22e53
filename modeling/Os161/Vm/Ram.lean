import Os161.Vm.Coremap

/-!
# Memory handed out during boot (`kern/arch/mips/mips/ram.c`)

Until `vm_bootstrap` runs, pages come from `ram_stealmem`, which moves `firstpaddr` upwards and never
takes anything back; then `ram_getsize` reports what is left. The size of a request is a 32-bit
product and the test against `lastpaddr` a 32-bit sum. A request that goes beyond the end of memory
is refused unless its end, cut to 32 bits, comes to lie in memory again: then it is granted and
`firstpaddr` may move downwards.

The module follows any sequence of requests from `ram_bootstrap` to `ram_getsize`. As long as no
request ends in such an image of the memory, the regions are stacked one upon the other between the
kernel and the range that is reported; the first one that does is handed out beyond the end of
memory.
-/

namespace Os161

open Prog

/-! ## The functions -/

/-- `ram_bootstrap`, with the address that `start.S` has left in `firstfree` and the answer of
`mips_ramsize`. -/
def ramBootstrap (firstfree ramsize : ℕ) : VmM Unit :=
  modify fun vm => { vm with
    lastpaddr := if ramsize > 508 * 1024 * 1024 then 508 * 1024 * 1024 else ramsize
    firstpaddr := u32 ((firstfree : ℤ) - kseg0) }

/-- `ram_getsize`. -/
def ramGetsize : VmM (ℕ × ℕ) := do
  let vm ← get
  modify fun vm => { vm with firstpaddr := 0, lastpaddr := 0 }
  return (vm.firstpaddr, vm.lastpaddr)

/-- The addresses from `start` up to but not including `stop`. -/
structure Region where
  start : ℕ
  stop : ℕ
deriving DecidableEq

/-- No address is in both regions. -/
def Region.Apart (r s : Region) : Prop :=
  ∀ a, r.start ≤ a → a < r.stop → s.start ≤ a → ¬ a < s.stop

theorem Region.Apart.of_le {r s : Region} (h : r.stop ≤ s.start) : r.Apart s := by
  intro a _ hr hs
  omega

/-- One call of `ram_stealmem` after the other: the regions that the successful ones return. -/
def stealPages : List ℕ → VmM (List Region)
  | [] => return []
  | npages :: rest => do
    let paddr ← ramStealmem npages
    let regions ← stealPages rest
    return if paddr = 0 then regions else ⟨paddr, paddr + npages * pageSize⟩ :: regions

/-- What `ram_bootstrap` starts from: the first free address, which lies above the kernel in `kseg0`,
and a RAM of at most 508 megabytes. -/
structure RamBoot where
  firstfree : ℕ
  ramsize : ℕ
  above : kseg0 < firstfree
  word : firstfree < 4294967296
  small : ramsize ≤ 508 * 1024 * 1024

/-- The use of the memory up to `vm_bootstrap`: the regions handed out and the range reported. -/
def earlyMemory (boot : RamBoot) (asked : List ℕ) : VmM (List Region × Region) := do
  ramBootstrap boot.firstfree boot.ramsize
  let regions ← stealPages asked
  let range ← ramGetsize
  return (regions, ⟨range.1, range.2⟩)

/-- The regions lie inside the RAM, apart from each other and from the range reported. -/
structure HandedOutOnce (ramsize : ℕ) (regions : List Region) (reported : Region) : Prop where
  inside : ∀ r ∈ regions, r.stop ≤ ramsize
  apart : regions.Pairwise Region.Apart
  unreported : ∀ r ∈ regions, r.Apart reported

/-! ## One request -/

/-- A region of `npages` pages at `first` would end in an image of the memory below `last`, a
multiple of `2 ^ 32` above it. -/
def EndsInImage (first last npages : ℕ) : Prop :=
  ∃ k, 0 < k ∧ k * 4294967296 ≤ first + npages * pageSize ∧
    first + npages * pageSize ≤ k * 4294967296 + last

/-- The first free address after a request that is granted just when it fits. -/
def freeAfter (first last npages : ℕ) : ℕ :=
  if first + npages * pageSize ≤ last then first + npages * pageSize else first

theorem le_freeAfter (first last npages : ℕ) : first ≤ freeAfter first last npages := by
  unfold freeAfter
  split <;> omega

theorem ramStealmem_spec (vm : Vm) (npages : ℕ) :
    Meets (ramStealmem npages)
      (fun paddr vm' => vm'.lastpaddr = vm.lastpaddr ∧
        if (vm.firstpaddr + npages * pageSize) % 4294967296 ≤ vm.lastpaddr then
          paddr = vm.firstpaddr ∧
            vm'.firstpaddr = (vm.firstpaddr + npages * pageSize) % 4294967296
        else paddr = 0 ∧ vm'.firstpaddr = vm.firstpaddr)
      (fun _ _ => False) vm := by
  have hsum : u32 ((vm.firstpaddr : ℤ) + u32 ((npages : ℤ) * pageSize)) =
      (vm.firstpaddr + npages * pageSize) % 4294967296 := by
    unfold u32
    omega
  unfold ramStealmem
  simp only [meets_bind, meets_get, meets_ite, meets_pure, meets_modify, hsum]
  constructor
  · intro hover
    rw [if_neg (not_le.mpr hover)]
    exact ⟨trivial, trivial, trivial⟩
  · intro hfit
    rw [if_pos (not_lt.mp hfit)]
    exact ⟨trivial, trivial, trivial⟩

/-- A request that does not end in an image of the memory is granted just when it fits. -/
theorem ramStealmem_of_not_image {vm : Vm} {npages : ℕ} (hlast : vm.lastpaddr < 4294967296)
    (h : ¬ EndsInImage vm.firstpaddr vm.lastpaddr npages) :
    Meets (ramStealmem npages)
      (fun paddr vm' => vm'.lastpaddr = vm.lastpaddr ∧
        vm'.firstpaddr = freeAfter vm.firstpaddr vm.lastpaddr npages ∧
        paddr = if vm.firstpaddr + npages * pageSize ≤ vm.lastpaddr then vm.firstpaddr else 0)
      (fun _ _ => False) vm := by
  refine (ramStealmem_spec vm npages).imp fun paddr vm' hcall => ⟨hcall.1, ?_⟩
  unfold freeAfter
  by_cases hfit : vm.firstpaddr + npages * pageSize ≤ vm.lastpaddr
  · rw [Nat.mod_eq_of_lt (hfit.trans_lt hlast), if_pos hfit] at hcall
    rw [if_pos hfit, if_pos hfit]
    exact hcall.2.symm
  · have hcut : ¬ (vm.firstpaddr + npages * pageSize) % 4294967296 ≤ vm.lastpaddr := by
      intro hcut
      refine h ⟨(vm.firstpaddr + npages * pageSize) / 4294967296, ?_, ?_, ?_⟩ <;> omega
    rw [if_neg hcut] at hcall
    rw [if_neg hfit, if_neg hfit]
    exact hcall.2.symm

/-- A request that ends in an image of the memory is granted. -/
theorem ramStealmem_of_image {vm : Vm} {npages : ℕ}
    (h : EndsInImage vm.firstpaddr vm.lastpaddr npages) :
    Meets (ramStealmem npages) (fun paddr _ => paddr = vm.firstpaddr) (fun _ _ => False) vm := by
  obtain ⟨k, -, hlo, hhi⟩ := h
  refine (ramStealmem_spec vm npages).imp fun paddr vm' hcall => ?_
  have hcut : (vm.firstpaddr + npages * pageSize) % 4294967296 ≤ vm.lastpaddr := by omega
  rw [if_pos hcut] at hcall
  exact hcall.2.1

/-! ## A sequence of requests -/

/-- No request of the sequence ends in an image of the memory, given the first free address before
it. -/
def NoneInImage (last : ℕ) : (first : ℕ) → List ℕ → Prop
  | _, [] => True
  | first, npages :: rest =>
    ¬ EndsInImage first last npages ∧ NoneInImage last (freeAfter first last npages) rest

/-- The regions lie one upon the other between `lo` and `hi`. -/
structure Stacked (lo hi : ℕ) (regions : List Region) : Prop where
  above : ∀ r ∈ regions, lo ≤ r.start
  below : ∀ r ∈ regions, r.stop ≤ hi
  ordered : regions.Pairwise fun r s => r.stop ≤ s.start

theorem Stacked.mono {lo lo' hi : ℕ} {regions : List Region} (h : Stacked lo hi regions)
    (hle : lo' ≤ lo) : Stacked lo' hi regions :=
  ⟨fun r hr => hle.trans (h.above r hr), h.below, h.ordered⟩

/-- Put a region under a stack. -/
theorem Stacked.cons {r : Region} {hi : ℕ} {regions : List Region}
    (h : Stacked r.stop hi regions) (hr : r.start ≤ r.stop) (hle : r.stop ≤ hi) :
    Stacked r.start hi (r :: regions) := by
  refine ⟨fun s hs => ?_, fun s hs => ?_, List.pairwise_cons.mpr ⟨h.above, h.ordered⟩⟩
  · rcases List.mem_cons.mp hs with rfl | hs
    · exact le_rfl
    · exact hr.trans (h.above s hs)
  · rcases List.mem_cons.mp hs with rfl | hs
    · exact hle
    · exact h.below s hs

/-- Requests none of which ends in an image of the memory are stacked up from `firstpaddr`. -/
theorem stealPages_stacked {asked : List ℕ} {vm : Vm} (hlast : vm.lastpaddr < 4294967296)
    (hpos : 0 < vm.firstpaddr) (h : NoneInImage vm.lastpaddr vm.firstpaddr asked) :
    Meets (stealPages asked)
      (fun regions vm' => vm.firstpaddr ≤ vm'.firstpaddr ∧
        Stacked vm.firstpaddr vm'.firstpaddr regions ∧ ∀ r ∈ regions, r.stop ≤ vm.lastpaddr)
      (fun _ _ => False) vm := by
  induction asked generalizing vm with
  | nil => exact ⟨le_rfl, ⟨nofun, nofun, .nil⟩, nofun⟩
  | cons npages rest ih =>
    simp only [stealPages, meets_bind, meets_pure]
    refine (ramStealmem_of_not_image hlast h.1).imp fun paddr vm₁ hcall => ?_
    obtain ⟨hlast₁, hfirst₁, rfl⟩ := hcall
    have hle₁ : vm.firstpaddr ≤ vm₁.firstpaddr := by
      rw [hfirst₁]
      exact le_freeAfter _ _ _
    have hrest := h.2
    rw [← hfirst₁, ← hlast₁] at hrest
    refine (ih (hlast₁ ▸ hlast) (hpos.trans_le hle₁) hrest).imp fun regions vm' hregions => ?_
    obtain ⟨hle, hstack, hinside⟩ := hregions
    rw [hlast₁] at hinside
    refine ⟨hle₁.trans hle, ?_⟩
    by_cases hfit : vm.firstpaddr + npages * pageSize ≤ vm.lastpaddr
    · rw [freeAfter, if_pos hfit] at hfirst₁
      rw [if_pos hfit, if_neg hpos.ne']
      rw [hfirst₁] at hstack hle
      exact ⟨Stacked.cons (r := ⟨_, _⟩) hstack (Nat.le_add_right _ _) hle,
        List.forall_mem_cons.mpr ⟨hfit, hinside⟩⟩
    · rw [if_neg hfit, if_pos rfl]
      exact ⟨hstack.mono hle₁, hinside⟩

theorem stealPages_returns (asked : List ℕ) (vm : Vm) :
    Meets (stealPages asked) (fun _ _ => True) (fun _ _ => False) vm := by
  induction asked generalizing vm with
  | nil => exact trivial
  | cons npages rest ih =>
    simp only [stealPages, meets_bind, meets_pure]
    exact (ramStealmem_spec vm npages).imp fun paddr vm₁ _ => ih vm₁

/-- The first request that ends in an image of the memory is handed out beyond all addresses. -/
theorem stealPages_beyond {asked : List ℕ} {vm : Vm} (hlast : vm.lastpaddr < 4294967296)
    (hpos : 0 < vm.firstpaddr) (h : ¬ NoneInImage vm.lastpaddr vm.firstpaddr asked) :
    Meets (stealPages asked) (fun regions _ => ∃ r ∈ regions, 4294967296 ≤ r.stop)
      (fun _ _ => False) vm := by
  induction asked generalizing vm with
  | nil => exact absurd trivial h
  | cons npages rest ih =>
    simp only [stealPages, meets_bind, meets_pure]
    by_cases himage : EndsInImage vm.firstpaddr vm.lastpaddr npages
    · refine (ramStealmem_of_image himage).imp fun paddr vm₁ hcall => ?_
      refine (stealPages_returns rest vm₁).imp fun regions _ _ => ?_
      obtain ⟨k, hk, hlo, -⟩ := himage
      rw [hcall, if_neg hpos.ne']
      exact ⟨_, List.mem_cons_self, (Nat.le_mul_of_pos_left _ hk).trans hlo⟩
    · refine (ramStealmem_of_not_image hlast himage).imp fun paddr vm₁ hcall => ?_
      obtain ⟨hlast₁, hfirst₁, -⟩ := hcall
      have hrest := fun hnone => h ⟨himage, hnone⟩
      rw [← hfirst₁, ← hlast₁] at hrest
      have hpos₁ : 0 < vm₁.firstpaddr := by
        rw [hfirst₁]
        exact hpos.trans_le (le_freeAfter _ _ _)
      refine (ih (hlast₁ ▸ hlast) hpos₁ hrest).imp fun regions _ hregions => ?_
      obtain ⟨r, hr, hstop⟩ := hregions
      refine ⟨r, ?_, hstop⟩
      split
      · exact hr
      · exact List.mem_cons_of_mem _ hr

/-! ## From boot to `ram_getsize` -/

/-- The state that `ram_bootstrap` leaves. -/
theorem ramBootstrap_spec (boot : RamBoot) (vm : Vm) :
    Meets (ramBootstrap boot.firstfree boot.ramsize)
      (fun _ vm' => vm'.firstpaddr = boot.firstfree - kseg0 ∧ vm'.lastpaddr = boot.ramsize)
      (fun _ _ => False) vm := by
  have habove := boot.above
  have hword := boot.word
  have hfirst : u32 ((boot.firstfree : ℤ) - kseg0) = boot.firstfree - kseg0 := by
    unfold u32
    omega
  exact ⟨hfirst, if_neg (not_lt.mpr boot.small)⟩

/-- **Early memory is handed out once** exactly when no request ends in an image of the memory above
the 32-bit addresses. -/
theorem ram_stealmem_once_iff (boot : RamBoot) (asked : List ℕ) (vm : Vm) :
    (∃ regions reported vm', earlyMemory boot asked vm = .ok (regions, reported) vm' ∧
      HandedOutOnce boot.ramsize regions reported) ↔
    NoneInImage boot.ramsize (boot.firstfree - kseg0) asked := by
  have hsmall := boot.small
  have hpos : 0 < boot.firstfree - kseg0 := Nat.sub_pos_of_lt boot.above
  constructor
  · rintro ⟨regions, reported, vm', hrun, honce⟩
    by_contra hnone
    have hbeyond : Meets (earlyMemory boot asked)
        (fun result _ => ∃ r ∈ result.1, 4294967296 ≤ r.stop) (fun _ _ => False) vm := by
      simp only [earlyMemory, meets_bind]
      refine (ramBootstrap_spec boot vm).imp fun _ vm₀ hvm₀ => ?_
      obtain ⟨hfirst, hlast⟩ := hvm₀
      rw [← hfirst, ← hlast] at hnone
      refine (stealPages_beyond (by omega) (by omega) hnone).imp fun regions _ hregions => ?_
      exact hregions
    obtain ⟨r, hr, hstop⟩ := hbeyond.of_ok hrun
    have := honce.inside r hr
    omega
  · intro hnone
    have honce : Meets (earlyMemory boot asked)
        (fun result _ => HandedOutOnce boot.ramsize result.1 result.2) (fun _ _ => False) vm := by
      simp only [earlyMemory, meets_bind]
      refine (ramBootstrap_spec boot vm).imp fun _ vm₀ hvm₀ => ?_
      obtain ⟨hfirst, hlast⟩ := hvm₀
      rw [← hfirst, ← hlast] at hnone
      refine (stealPages_stacked (by omega) (by omega) hnone).imp fun regions vm₁ hregions => ?_
      obtain ⟨-, hstack, hinside⟩ := hregions
      refine ⟨fun r hr => hlast ▸ hinside r hr, hstack.ordered.imp .of_le, fun r hr => ?_⟩
      exact .of_le (hstack.below r hr)
    obtain ⟨result, vm', hrun, h⟩ := honce.exists_ok
    exact ⟨result.1, result.2, vm', hrun, h⟩

/-- A machine with 512 kilobytes of RAM of which the kernel takes up 256. -/
def halfMegabyte : RamBoot where
  firstfree := 0x80040000
  ramsize := 0x80000
  above := by rw [kseg0_eq]; decide
  word := by decide
  small := by decide

/-- The state before boot. -/
def unbooted : Vm := ⟨0, 0, false, 0, 0, 0, [], 0⟩

/-- A page, then 4 gigabytes less a page, then a page: the first and the third request get the same
one. -/
theorem same_page_handed_out_twice :
    ((earlyMemory halfMegabyte [1, 0xfffff, 1] unbooted).valueD ([], ⟨0, 0⟩)).1 =
        [⟨0x40000, 0x41000⟩, ⟨0x41000, 0x100040000⟩, ⟨0x40000, 0x41000⟩] ∧
      ¬ ∃ regions reported vm',
        earlyMemory halfMegabyte [1, 0xfffff, 1] unbooted = .ok (regions, reported) vm' ∧
          HandedOutOnce halfMegabyte.ramsize regions reported := by
  have hvalue : ((earlyMemory halfMegabyte [1, 0xfffff, 1] unbooted).valueD ([], ⟨0, 0⟩)).1 =
      [⟨0x40000, 0x41000⟩, ⟨0x41000, 0x100040000⟩, ⟨0x40000, 0x41000⟩] := by decide +kernel
  refine ⟨hvalue, ?_⟩
  rintro ⟨regions, reported, vm', hrun, honce⟩
  rw [hrun] at hvalue
  obtain rfl : regions = _ := hvalue
  have hapart := List.rel_of_pairwise_cons honce.apart (List.mem_cons_of_mem _ List.mem_cons_self)
  exact hapart 0x40000 le_rfl (by decide) le_rfl (by decide)

end Os161
