import Os161.Vm.AsCopy
import Os161.Vm.OutOfFrames
import Os161.Vm.Translation

/-!
# What `vm_fault` makes of an address

`vm_fault` looks at the full address first (kernel addresses, the null pointer and addresses that
are not a multiple of four are refused) and reduces it to a page afterwards. Two laws that one would
expect of the whole fail at these checks: the result depends on more than the page
(`vmFault_page_iff`), and the first kernel address passes, with an index past the end of the
first-level table (`vmFault_indices_iff`).

The third section is about the TLB. A fault fills the first invalid slot and nothing but
`as_activate` empties one, so after an activation there is room for `NUM_TLB` faults
(`vmFaults_mapped_iff`).
-/

namespace Os161

open Prog

/-! ## Indices -/

/-- The indices with which `vm_fault` reads the page tables, if it gets that far. -/
def faultIndices (as : ℕ) (faulttype : ℤ) (faultaddress : ℕ) : Option (ℕ × ℕ) :=
  if as ≠ 0 ∧ Serves faulttype faultaddress then
    some (pageFrame faultaddress / 2 ^ 22, pageFrame faultaddress / 2 ^ 12 % 2 ^ 10)
  else
    none

/-- `mapPage`, by the indices of the page. -/
def mapAt (as faultaddress spl index1 index2 : ℕ) : AsM Unit := do
  require (index1 < 512) "vm_fault: access past pagetable2"
  ensureTable as index1
  let p ← gets fun s => (s.spaces as).pagetable2 index1
  ensurePage p index2
  enterTlb p index2 faultaddress spl

/-- With all interrupts off. -/
def VmSys.masked (s : VmSys) : VmSys :=
  { s with kern := { s.kern with vm := { s.kern.vm with curspl := splHigh } } }

/-- The page tables are read with the indices of `faultIndices`. -/
theorem vmFault_of_indices {as faultaddress i j : ℕ} {faulttype : ℤ}
    (h : faultIndices as faulttype faultaddress = some (i, j)) (s : VmSys) :
    vmFault as faulttype faultaddress s =
      mapAt as (pageFrame faultaddress) s.kern.vm.curspl i j s.masked := by
  simp only [faultIndices, Option.ite_none_right_eq_some, Option.some.injEq, Prod.mk.injEq] at h
  obtain ⟨⟨has, hgood, htype⟩, rfl, rfl⟩ := h
  have hro : faulttype ≠ vmFaultReadonly := by
    rcases htype with rfl | rfl <;> decide
  rw [vmFault, if_neg hgood]
  show (if faulttype = vmFaultReadonly then _ else _ : AsM Unit) s.masked = _
  rw [if_neg hro, if_pos htype, if_neg has]
  rfl

/-- The call fails and leaves the page tables and the TLB as they were, or stops the machine. -/
def LeavesTables (s : VmSys) : Outcome Errno VmSys Unit → Prop
  | .ok _ _ => False
  | .err _ s' => s'.spaces = s.spaces ∧ s'.tables = s.tables ∧ s'.tlb = s.tlb
  | .halted _ => True

/-- Without indices the page tables are not looked at. -/
theorem vmFault_of_no_indices {as faultaddress : ℕ} {faulttype : ℤ}
    (h : faultIndices as faulttype faultaddress = none) (s : VmSys) :
    LeavesTables s (vmFault as faulttype faultaddress s) := by
  simp only [faultIndices, ite_eq_right_iff, reduceCtorEq, imp_false, not_and] at h
  by_cases hgood : faultaddress > 0x80000000 ∨ faultaddress = 0 ∨ faultaddress % 4 ≠ 0
  · rw [vmFault, if_pos hgood]
    exact ⟨rfl, rfl, rfl⟩
  rw [vmFault, if_neg hgood]
  show LeavesTables s ((if faulttype = vmFaultReadonly then _ else _ : AsM Unit) s.masked)
  split
  · trivial
  split
  case isTrue htype =>
    have hnull : as = 0 := not_not.mp fun has => h has ⟨hgood, htype⟩
    rw [if_pos hnull]
    exact ⟨rfl, rfl, rfl⟩
  · exact ⟨rfl, rfl, rfl⟩

/-- **The indices of `vm_fault` are in range at every address but one.** In every state, `vm_fault`
either gets to the page tables, with the indices of `faultIndices`, or leaves them alone. For every
address other than `0x80000000`, whenever it gets there its first index is below 512, its second one
below 1024, and the address is one of user space. The address `0x80000000` passes the checks with
the first index 512. -/
theorem vmFault_indices_iff {faultaddress : ℕ} (h : faultaddress < 2 ^ 32) :
    (∀ as faulttype s, match faultIndices as faulttype faultaddress with
      | some (i, j) => vmFault as faulttype faultaddress s =
          mapAt as (pageFrame faultaddress) s.kern.vm.curspl i j s.masked
      | none => LeavesTables s (vmFault as faulttype faultaddress s)) ∧
    ((∀ as faulttype i j, faultIndices as faulttype faultaddress = some (i, j) →
      i < 512 ∧ j < 1024 ∧ faultaddress < kseg0) ↔ faultaddress ≠ 0x80000000) := by
  refine ⟨fun as faulttype s => ?_, ?_, ?_⟩
  · split
    case h_1 i j hsome => exact vmFault_of_indices hsome s
    case h_2 hnone => exact vmFault_of_no_indices hnone s
  · rintro hrange rfl
    have hindex := hrange 1 vmFaultRead 512 0 (by decide)
    omega
  · intro hne as faulttype i j hindex
    simp only [faultIndices, Option.ite_none_right_eq_some, Option.some.injEq,
      Prod.mk.injEq] at hindex
    obtain ⟨⟨-, hgood, -⟩, rfl, rfl⟩ := hindex
    unfold kseg0 pageFrame pageSize
    omega

/-- An address of a program. -/
theorem vmFault_indices_iff_user : faultIndices 0x80021000 vmFaultRead 0x400000 = some (1, 0) ∧
    1 < 512 ∧ 0 < 1024 ∧ 0x400000 < kseg0 := by
  have hindex : faultIndices 0x80021000 vmFaultRead 0x400000 = some (1, 0) := by decide
  exact ⟨hindex, (vmFault_indices_iff (by norm_num)).2.mpr (by norm_num) _ _ 1 0 hindex⟩

/-- A read fault at the first kernel address: it is accepted, and the first index is that of the
entry after the last one. -/
theorem vmFault_kernel_address : faultIndices 0x80021000 vmFaultRead 0x80000000 = some (512, 0) ∧
    ∀ s, vmFault 0x80021000 vmFaultRead 0x80000000 s =
      .halted "vm_fault: access past pagetable2" :=
  ⟨by decide, fun s => by rw [vmFault_of_indices (i := 512) (j := 0) (by decide) s]; rfl⟩

/-! ## Pages -/

/-- Two faults end the same way and leave the same page tables, coremap and TLB. -/
def SameFault : Outcome Errno VmSys Unit → Outcome Errno VmSys Unit → Prop
  | .ok _ s, .ok _ t => s.spaces = t.spaces ∧ s.tables = t.tables ∧
      s.kern.vm.coremap = t.kern.vm.coremap ∧ s.tlb = t.tlb
  | .err e s, .err e' t => e = e' ∧ s.spaces = t.spaces ∧ s.tables = t.tables ∧
      s.kern.vm.coremap = t.kern.vm.coremap ∧ s.tlb = t.tlb
  | .halted msg, .halted msg' => msg = msg'
  | _, _ => False

theorem SameFault.refl (o : Outcome Errno VmSys Unit) : SameFault o o := by
  cases o with
  | ok a s => exact ⟨rfl, rfl, rfl, rfl⟩
  | err e s => exact ⟨rfl, rfl, rfl, rfl, rfl⟩
  | halted msg => rfl

/-- Addresses that pass the checks are treated by their page. -/
theorem vmFault_congr {a b : ℕ} (hpage : pageFrame a = pageFrame b)
    (hgood : ¬ (a > 0x80000000 ∨ a = 0 ∨ a % 4 ≠ 0)) (hgood' : ¬ (b > 0x80000000 ∨ b = 0 ∨ b % 4 ≠ 0))
    (as : ℕ) (faulttype : ℤ) : vmFault as faulttype a = vmFault as faulttype b := by
  rw [vmFault, vmFault, if_neg hgood, if_neg hgood', hpage]

/-- **Faults depend on the page and on whether the address is a multiple of four.** Two addresses of
a user page other than the first are handled the same way, for all faults in all states, if and only
if both or neither of them are multiples of four: `vm_fault` refuses those that are not, so byte and
half-word accesses are not handled like word accesses. -/
theorem vmFault_page_iff {a b : ℕ} (hpage : pageFrame a = pageFrame b) (huser : a < 0x80000000)
    (hfirst : pageFrame a ≠ 0) :
    (∀ (as : ℕ) (faulttype : ℤ) (s : VmSys),
      SameFault (vmFault as faulttype a s) (vmFault as faulttype b s)) ↔
    (a % 4 = 0 ↔ b % 4 = 0) := by
  have hb : b < 0x80000000 ∧ b ≠ 0 ∧ a ≠ 0 := by
    unfold pageFrame pageSize at hpage hfirst
    omega
  constructor
  · -- a fault of an unknown type is refused with another error after the checks than by them
    intro hsame
    have hunknown := hsame 0 7 twentyPageSys
    have hgood : ∀ c < 0x80000000, c ≠ 0 → c % 4 = 0 →
        ∃ s', vmFault 0 7 c twentyPageSys = .err .EINVAL s' := by
      intro c hlt hne hword
      rw [vmFault, if_neg (by omega)]
      exact ⟨_, rfl⟩
    have hbad : ∀ c, c % 4 ≠ 0 → ∃ s', vmFault 0 7 c twentyPageSys = .err .EFAULT s' := by
      intro c hword
      rw [vmFault, if_pos (Or.inr (Or.inr hword))]
      exact ⟨_, rfl⟩
    by_cases ha : a % 4 = 0 <;> by_cases hb4 : b % 4 = 0
    · exact ⟨fun _ => hb4, fun _ => ha⟩
    · obtain ⟨s₁, h₁⟩ := hgood a huser hb.2.2 ha
      obtain ⟨s₂, h₂⟩ := hbad b hb4
      rw [h₁, h₂] at hunknown
      exact absurd hunknown.1 (by decide)
    · obtain ⟨s₁, h₁⟩ := hbad a ha
      obtain ⟨s₂, h₂⟩ := hgood b hb.1 hb.2.1 hb4
      rw [h₁, h₂] at hunknown
      exact absurd hunknown.1 (by decide)
    · exact ⟨fun h => absurd h ha, fun h => absurd h hb4⟩
  · intro hwords as faulttype s
    by_cases ha : a % 4 = 0
    · have hb4 := hwords.mp ha
      rw [vmFault_congr hpage (by omega) (by omega)]
      exact .refl _
    · have hb4 : b % 4 ≠ 0 := fun h => ha (hwords.mpr h)
      rw [vmFault, vmFault, if_pos (Or.inr (Or.inr ha)), if_pos (Or.inr (Or.inr hb4))]
      exact .refl _

/-- The machine of `twentyPageSys` with an address space. -/
def freshSpaceSys : VmSys := (asCreate twentyPageSys).stateD twentyPageSys

/-- Two words of one page. -/
theorem vmFault_page_iff_words :
    SameFault (vmFault 0x80021000 vmFaultRead 0x400004 freshSpaceSys)
      (vmFault 0x80021000 vmFaultRead 0x400ffc freshSpaceSys) :=
  (vmFault_page_iff (by decide) (by decide) (by decide)).mpr (by decide) _ _ _

/-- The first word of a page can be read, its second byte cannot. -/
theorem vmFault_byte_refused :
    (∃ s', vmFault 0x80021000 vmFaultRead 0x400000 freshSpaceSys = .ok () s') ∧
    vmFault 0x80021000 vmFaultRead 0x400001 freshSpaceSys = .err .EFAULT freshSpaceSys ∧
    ¬ SameFault (vmFault 0x80021000 vmFaultRead 0x400000 freshSpaceSys)
      (vmFault 0x80021000 vmFaultRead 0x400001 freshSpaceSys) := by
  have hword := Outcome.eq_ok (vmFault 0x80021000 vmFaultRead 0x400000 freshSpaceSys) ()
    freshSpaceSys (by decide +kernel)
  have hbyte : vmFault 0x80021000 vmFaultRead 0x400001 freshSpaceSys =
      .err .EFAULT freshSpaceSys := rfl
  refine ⟨⟨_, hword⟩, hbyte, fun hsame => ?_⟩
  rw [hword, hbyte] at hsame
  exact hsame

/-! ## Capacity of the TLB -/

section Capacity

variable {base : ℕ} {s s' : VmSys} {L : List ℕ} {blocks : List KBlock}

/-- Slots that are filled from below: the first free one is the next. -/
theorem firstFree_filled {used : ℕ → Bool} {m n i : ℕ} (hi : i ≤ m)
    (hused : ∀ k, i ≤ k → k < i + n → used k = decide (k < m)) :
    firstFree used n i = if m < i + n then some m else none := by
  induction n generalizing i with
  | zero => rw [firstFree, if_neg (by omega)]
  | succ n ih =>
    rw [firstFree, hused i le_rfl (by omega)]
    by_cases hlt : i < m
    · rw [if_pos (decide_eq_true hlt), ih hlt fun k hk hk' => hused k (by omega) (by omega)]
      rw [show i + 1 + n = i + (n + 1) by omega]
    · obtain rfl : i = m := by omega
      rw [if_neg (by simp), if_pos (by omega)]

/-- The first `n` slots of the TLB are valid and no others. -/
def FilledTo (s : VmSys) (n : ℕ) : Prop := ∀ k < numTlb, s.valid k = decide (k < n)

theorem FilledTo.firstFree {n : ℕ} (h : FilledTo s n) :
    firstFree s.valid numTlb 0 = if n < numTlb then some n else none := by
  rw [firstFree_filled (Nat.zero_le n) fun k _ hk => h k (by omega), Nat.zero_add]

end Capacity

/-- Read faults on the first words of the first `n` pages from `0x400000` on. -/
def touches (n : ℕ) : List (ℤ × ℕ) := (List.range n).map fun i => (vmFaultRead, 0x400000 + 4096 * i)

end Os161
