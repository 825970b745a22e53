import Mathlib.Tactic
import Os161.Common.Prog
import Os161.Common.Bytes
import Os161.Machine.Basic
import Os161.Lib.Uio

/-!
# The disk and its driver (`kern/dev/lamebus/lhd.c`)

`lhd_io` moves whole sectors between a `uio` and the disk. The outcome of each operation is decided
by the device: `Disk.results` lists the completion codes of the operations to come, and past the end
of the list every operation succeeds, so that a disk that never fails is one with an empty list. A
write that does not complete with `LHD_OK` leaves its sector as it was.
-/

namespace Os161

open Prog

/-- `LHD_SECTSIZE`, which is also `SFS_BLOCKSIZE`. -/
def sectSize : ℕ := 512

/-- Completion codes of the device. -/
inductive LhdStatus where
  | ok
  | invsect
  | media
  | unknown
deriving DecidableEq, Repr

/-- `lhd_code_to_errno`. -/
def lhdCodeToErrno : LhdStatus → Option Errno
  | .ok => none
  | .invsect => some .EINVAL
  | .media => some Errno.EIO
  | .unknown => some .EAGAIN

/-- A disk: its sectors of 512 bytes, their number, and the completion codes to come. -/
structure Disk where
  blocks : ℕ → Buffer
  sector_size : ∀ b i, 512 ≤ i → blocks b i = 0
  dBlocks : ℕ
  results : List LhdStatus

/-- The disk with the sector `b` overwritten. -/
def Disk.put (d : Disk) (b : ℕ) (data : Buffer) : Disk where
  blocks := Function.update d.blocks b (data.trunc 512)
  sector_size := by
    intro c i hi
    rcases eq_or_ne c b with rfl | hne
    · rw [Function.update_self, Buffer.trunc_of_le _ hi]
    · rw [Function.update_of_ne hne, d.sector_size c i hi]
  dBlocks := d.dBlocks
  results := d.results

/-- A disk and the `uio` of the transfer in progress. -/
structure Io where
  disk : Disk
  uio : Uio

/-- Programs that move data between a `uio` and a disk. -/
abbrev IoM := Prog Errno Io

/-- Run a program on the `uio` of the transfer. -/
def onUio {α : Type} (m : UioM α) : IoM α := zoom Io.uio (fun s u => { s with uio := u }) m

/-! ## The driver -/

/-- Start an operation and wait for it: the completion code decides. -/
def lhdStart : IoM Unit := do
  let s ← get
  match s.disk.results with
  | [] => pure ()
  | r :: rs => do
    modify fun s => { s with disk := { s.disk with results := rs } }
    match lhdCodeToErrno r with
    | none => pure ()
    | some e => fail e

/-- One pass of the loop of `lhd_io`. The on-card buffer is overwritten in full before it is used:
from the `uio` for a write, by the device for a read. -/
def lhdSector (sector : ℕ) : IoM Unit := do
  let s ← get
  match s.uio.rw with
  | .write => do
    let buf ← onUio (uiomove (fun _ => 0) 0 sectSize)
    lhdStart
    modify fun s => { s with disk := s.disk.put sector buf }
  | .read => do
    lhdStart
    let _ ← onUio (uiomove (s.disk.blocks sector) 0 sectSize)
    pure ()

/-- `lhd_io`. Offset and sector numbers are computed as in C: signed division, then conversion to an
unsigned word. -/
def lhdIo : IoM Unit := do
  let s ← get
  let sector := u32 (s.uio.offset.tdiv sectSize)
  let sectoff := u32 (s.uio.offset.tmod sectSize)
  let len := s.uio.resid / sectSize
  let lenoff := s.uio.resid % sectSize
  if sectoff ≠ 0 ∨ lenoff ≠ 0 then fail .EINVAL
  else if u32 ((sector + len : ℕ) : ℤ) > s.disk.dBlocks then fail .EINVAL
  else forRange (fun i => lhdSector (u32 ((sector + i : ℕ) : ℤ))) len 0

/-! ## Overwriting sectors -/

namespace Disk

end Disk

/-! ## Completion codes -/

/-- The completion code of the next operation. -/
def Disk.nextStatus (d : Disk) : LhdStatus := d.results.headD .ok

/-- The disk after an operation has taken its completion code. -/
def Disk.pop (d : Disk) : Disk := { d with results := d.results.tail }

/-- The transfer of the block `b`, which need not lie on the disk. The bound on `b` says that the
position is an `off_t`. -/
structure Io.Block (s : Io) (b : ℕ) : Prop where
  lt : b < 4194304
  offset : s.uio.offset = 512 * (b : ℤ)
  resid : s.uio.resid = 512
  le_iov : 512 ≤ s.uio.iov.length

section Block

variable {s : Io} {b : ℕ}

/-- The state after a write of the block `b` has been completed. -/
def Io.written (s : Io) (b : ℕ) : Io :=
  ⟨s.disk.pop.put b (Buffer.ofList (s.uio.iov.take 512)), s.uio.advance (s.uio.iov.take 512)⟩

end Block

end Os161
