import Mathlib.Tactic
import Os161.Common.Prog

/-!
# Machine words, page geometry and error codes

The MIPS kernel is a 32-bit program. Unsigned words (`u_int32_t`, `size_t`, `vaddr_t`, `paddr_t`)
are natural numbers below `2 ^ 32` and signed ones (`int`, `off_t`) are integers; `u32` and `s32`
are the conversions a C assignment to such a variable performs, and every arithmetic step whose
result the code does not check goes through one of them.
-/

namespace Os161

/-! ## Conversions to 32-bit words -/

/-- Conversion to an unsigned 32-bit word. -/
@[irreducible]
def u32 (x : ℤ) : ℕ := (x % 4294967296).toNat

/-- Conversion to a signed 32-bit word (two's complement). -/
@[irreducible]
def s32 (x : ℤ) : ℤ := (x + 2147483648) % 4294967296 - 2147483648

theorem u32_lt (x : ℤ) : u32 x < 4294967296 := by
  unfold u32; omega

theorem u32_of_lt {n : ℕ} (h : n < 4294967296) : u32 (n : ℤ) = n := by
  unfold u32; omega

theorem s32_of_range {x : ℤ} (hlo : -2147483648 ≤ x) (hhi : x < 2147483648) : s32 x = x := by
  unfold s32; omega

theorem s32_lt (x : ℤ) : s32 x < 2147483648 := by
  unfold s32; omega

/-! ## Pages and segments (`arch/mips/include/vm.h`) -/

/-- `PAGE_SIZE`. -/
def pageSize : ℕ := 4096

/-- `MIPS_KSEG0`, the start of the direct-mapped kernel segment and the end of user space. -/
@[irreducible]
def kseg0 : ℕ := 0x80000000

theorem kseg0_eq : kseg0 = 0x80000000 := by
  unfold kseg0; rfl

/-- `PADDR_TO_KVADDR`. -/
def paddrToKvaddr (paddr : ℕ) : ℕ := u32 (paddr + kseg0)

/-- Physical memory below `2 ^ 31` is mapped one to one into `kseg0`. -/
theorem paddrToKvaddr_of_lt {p : ℕ} (h : p < kseg0) : paddrToKvaddr p = p + kseg0 := by
  unfold paddrToKvaddr u32 kseg0 at *; omega

/-- `x & PAGE_FRAME`: the address of the page that holds `x`. -/
def pageFrame (x : ℕ) : ℕ := x - x % pageSize

/-! ## Error codes (`kern/errno.h`) -/

/-- The error codes the modelled functions return. -/
inductive Errno where
  | EINVAL
  | EFAULT
  | ENAMETOOLONG
  | ENOMEM
  | EIO
  | ENOENT
  | ENOTDIR
  | EISDIR
  | EEXIST
  | EXDEV
  | EAGAIN
  | EUNIMP
  | ENXIO
  | ENODEV
  | EBUSY
  | ENOSPC
  | ENOSYS
  | ENOEXEC
deriving DecidableEq, Repr

/-- The numeric value of an error code. -/
def Errno.code : Errno → ℕ
  | EINVAL => 1
  | EFAULT => 2
  | ENAMETOOLONG => 3
  | ENOMEM => 4
  | EIO => 5
  | ENOENT => 6
  | ENOTDIR => 7
  | EISDIR => 8
  | EEXIST => 9
  | EXDEV => 10
  | EAGAIN => 11
  | EUNIMP => 13
  | ENXIO => 14
  | ENODEV => 15
  | EBUSY => 16
  | ENOSPC => 20
  | ENOSYS => 23
  | ENOEXEC => 24

/-- `SPL_HIGH`: the interrupt level with all interrupts off. -/
def splHigh : ℕ := 15

end Os161
