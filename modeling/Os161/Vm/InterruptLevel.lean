import Os161.Lib.KheapFrame
import Os161.Vm.UserPages

/-!
# The interrupt level

The functions of the page allocator, the heap and `vm_fault` raise the interrupt level on entry and
hand the old one to `splx` before they return. A path that returns without `splx` leaves interrupts
off for the caller. There are two such paths: `getppages` when the request exceeds the free count,
and `vm_fault` when the thread has no address space. The first one is masked in callers that have a
pair of their own (`subpage_kmalloc`, and `vm_fault` itself) and shows in those that have none
(`alloc_kpages` and, for large blocks, `kmalloc`). A third one, where `vm_fault` returns `ENOMEM`,
is never taken in a consistent state, because it compares an address with the error code.
-/

namespace Os161

open Prog

/-! ## The page allocator -/

/-- The calls whose interrupt level is in question. -/
inductive SplCall where
  | getppages (npages : ℕ)
  | allocKpages (npages : ℤ)
  | freeKpages (addr : ℕ)
  | kmalloc (sz : ℕ)
  | vmFault (as : ℕ) (faulttype : ℤ) (faultaddress : ℕ)
  | asActivate

namespace SplCall

/-- The call, without its value. -/
def run : SplCall → AsM Unit
  | getppages npages => do let _ ← onKern (onVm (Os161.getppages npages))
  | allocKpages npages => do let _ ← onKern (onVm (Os161.allocKpages npages))
  | freeKpages addr => onKern (onVm (Os161.freeKpages addr))
  | kmalloc sz => do let _ ← onKern (Os161.kmalloc sz)
  | vmFault as faulttype faultaddress => Os161.vmFault as faulttype faultaddress
  | asActivate => Os161.asActivate

end SplCall

end Os161
