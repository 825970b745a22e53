import Os161.Vm.AddrspaceIsolation

/-!
# Running out of frames

What `vm_fault` and `as_copy` do when the page allocator refuses them a page. `getppages` reports
the failure as physical address zero and `alloc_kpages` as virtual address zero, but both callers
compare the address with the error code `ENOMEM`. So the failure goes unnoticed: `vm_fault` and the
loops of `as_copy` go on to store through a null pointer, which stops the machine. Only `as_create`
looks at the pointer it gets, and the call of `as_copy` that is refused its first page returns
`ENOMEM` with nothing changed.

The requests of a call are a list of page counts (`faultNeeds`, `copyNeeds`). A call that returns
has been granted all of them (`mapPage_spec`, `asCopy_spec`).
-/

namespace Os161

open Prog

/-! ## Requests and the interrupt level -/

/-- The calls that take frames. -/
inductive VmCall where
  /-- `vm_fault` on the address space `as`. -/
  | fault (as : ℕ) (faulttype : ℤ) (faultaddress : ℕ)
  /-- `as_copy` of the address space `old`. -/
  | copy (old : ℕ)

namespace VmCall

/-- Calls that need frames: a fault of a live address space at an unmapped user address that
`vm_fault` accepts, and a copy of a live address space. -/
def Valid (s : AsState) : VmCall → Prop
  | fault as faulttype faultaddress =>
    as ∈ s.spaces ∧ (faulttype = vmFaultRead ∨ faulttype = vmFaultWrite) ∧ 0 < faultaddress ∧
      faultaddress < 0x80000000 ∧ faultaddress % 4 = 0 ∧ Unmapped s.sys as faultaddress
  | copy old => old ∈ s.spaces

/-- The requests of the call. -/
def needs (s : VmSys) : VmCall → List ℤ
  | fault as _ faultaddress => faultNeeds s as faultaddress
  | copy old => copyNeeds s old

end VmCall

section Calls

variable {base : ℕ} {s : VmSys} {L : List ℕ} {blocks : List KBlock}

/-- The null pointer is not a live address space. -/
theorem AsInv.ne_null (h : AsInv base s L blocks) {as : ℕ} (has : as ∈ L) : as ≠ 0 := by
  obtain ⟨g, hk⟩ := h
  have hmem : (⟨as, addrspaceSize⟩ : KBlock) ∈ L.flatMap (asBlocks s) ++ blocks :=
    List.mem_append_left _ (List.mem_flatMap.mpr ⟨as, has, List.mem_cons_self⟩)
  have hbig : ¬ (⟨as, addrspaceSize⟩ : KBlock).Small := by
    show ¬ addrspaceSize < largestSubpageSize
    decide
  have hrange := hk.pages.run_range (run_mem hmem hbig _ _)
  exact (Nat.zero_lt_of_lt hrange.2.2.1).ne'

end Calls

/-! ## Containment -/

end Os161
