import Mathlib.Tactic
import Os161.Dev.Lhd

/-!
# Which sectors `lhd_io` asks for

`lhd_io` divides a signed offset and stores the quotient in an unsigned variable, and its test for
the end of the disk adds two unsigned words. The module looks at every offset, every length and
every number of sectors.

The question is put to a version of `lhd_io` in which the operation on a sector is a parameter. All
sectors it asks for are on the disk if the operation may be replaced by any other one that agrees
with it on those sectors, and it does not access the device at all if the operation makes no
difference.

The exception are requests at a negative multiple of the sector size. Their first sector becomes a
number close to `2 ^ 32`, and the sum of the test wraps around.
-/

namespace Os161

open Prog

/-! ## Operations on sectors -/

section Using

variable (start : ℕ → IoM Unit)

/-- `lhdSector` with `start` in the place of the operation of the device on a sector. -/
def lhdSectorUsing (sector : ℕ) : IoM Unit := do
  let s ← get
  match s.uio.rw with
  | .write => do
    let buf ← onUio (uiomove (fun _ => 0) 0 sectSize)
    start sector
    modify fun s => { s with disk := s.disk.put sector buf }
  | .read => do
    start sector
    let _ ← onUio (uiomove (s.disk.blocks sector) 0 sectSize)
    pure ()

/-- `lhd_io` with `start` in the place of the operation of the device on a sector. -/
def lhdIoUsing : IoM Unit := do
  let s ← get
  let sector := u32 (s.uio.offset.tdiv sectSize)
  let sectoff := u32 (s.uio.offset.tmod sectSize)
  let len := s.uio.resid / sectSize
  let lenoff := s.uio.resid % sectSize
  if sectoff ≠ 0 ∨ lenoff ≠ 0 then fail .EINVAL
  else if u32 ((sector + len : ℕ) : ℤ) > s.disk.dBlocks then fail .EINVAL
  else forRange (fun i => lhdSectorUsing start (u32 ((sector + i : ℕ) : ℤ))) len 0

end Using

theorem lhdIo_eq_using : lhdIo = lhdIoUsing fun _ => lhdStart := rfl

/-- The request is not aligned, starts before the disk or ends past it. -/
def Uio.OffDisk (u : Uio) (dBlocks : ℕ) : Prop :=
  ¬ (512 : ℤ) ∣ u.offset ∨ ¬ 512 ∣ u.resid ∨ u.offset < 0 ∨ (512 * dBlocks : ℤ) < u.offset + u.resid

/-- `lhd_io` asks the device for sectors of the disk only, and refuses a request that is not on the
disk without asking the device for anything. -/
structure StaysOnDisk (s : Io) : Prop where
  sectors : ∀ start : ℕ → IoM Unit, (∀ b < s.disk.dBlocks, start b = lhdStart) →
    lhdIoUsing start s = lhdIo s
  refused : s.uio.OffDisk s.disk.dBlocks → ∀ start : ℕ → IoM Unit,
    lhdIoUsing start s = .err .EINVAL s

/-! ## The arithmetic of the checks -/

section Arithmetic

variable {x : ℤ}

/-- The remainder is zero exactly at multiples of the sector size, for both signs. -/
theorem sectoff_eq_zero_iff : u32 (x.tmod sectSize) = 0 ↔ (512 : ℤ) ∣ x := by
  have hlt := Int.tmod_lt_of_pos x (show (0 : ℤ) < 512 by norm_num)
  have hgt := Int.lt_tmod_of_pos x (show (0 : ℤ) < 512 by norm_num)
  rw [Int.dvd_iff_tmod_eq_zero]
  change u32 (x.tmod 512) = 0 ↔ _
  unfold u32
  omega

/-- The first sector, at a multiple of the sector size. -/
theorem sector_eq (h : (512 : ℤ) ∣ x) : u32 (x.tdiv sectSize) = u32 (x / 512) := by
  change u32 (x.tdiv 512) = _
  rw [Int.tdiv_eq_ediv_of_dvd h]

/-- The sum that is compared with the number of sectors. -/
theorem end_eq (h : (512 : ℤ) ∣ x) {resid : ℕ} (hres : 512 ∣ resid) :
    u32 ((u32 (x.tdiv sectSize) + resid / sectSize : ℕ) : ℤ) = u32 ((x + resid) / 512) := by
  rw [sector_eq h]
  unfold u32 sectSize
  omega

end Arithmetic

variable {s : Io}

/-- The first check. -/
theorem lhdIoUsing_unaligned (start : ℕ → IoM Unit)
    (h : ¬ (512 : ℤ) ∣ s.uio.offset ∨ ¬ 512 ∣ s.uio.resid) : lhdIoUsing start s = .err .EINVAL s := by
  have hcheck : u32 (s.uio.offset.tmod sectSize) ≠ 0 ∨ s.uio.resid % sectSize ≠ 0 := by
    rcases h with hoff | hres
    · exact .inl fun hzero => hoff (sectoff_eq_zero_iff.mp hzero)
    · exact .inr fun hzero => hres (Nat.dvd_of_mod_eq_zero hzero)
  exact congrFun (if_pos hcheck) s

/-- An aligned request. -/
theorem lhdIoUsing_aligned (start : ℕ → IoM Unit) (hoff : (512 : ℤ) ∣ s.uio.offset)
    (hres : 512 ∣ s.uio.resid) :
    lhdIoUsing start s =
      if s.disk.dBlocks < u32 ((s.uio.offset + s.uio.resid) / 512) then .err .EINVAL s
      else forRange (fun i => lhdSectorUsing start
        (u32 ((u32 (s.uio.offset.tdiv sectSize) + i : ℕ) : ℤ))) (s.uio.resid / sectSize) 0 s := by
  have haligned : ¬(u32 (s.uio.offset.tmod sectSize) ≠ 0 ∨ s.uio.resid % sectSize ≠ 0) := by
    rw [sectoff_eq_zero_iff.mpr hoff, show s.uio.resid % sectSize = 0 from Nat.mod_eq_zero_of_dvd hres]
    simp
  refine (congrFun (if_neg haligned) s).trans ?_
  rw [end_eq hoff hres]
  split
  · rfl
  · rfl

/-- The loop with two operations that agree on the sectors it asks for. -/
theorem forRange_lhdSectorUsing_congr {start start' : ℕ → IoM Unit} {f : ℕ → ℕ} {n i : ℕ}
    (h : ∀ j, i ≤ j → j < i + n → start (f j) = start' (f j)) :
    forRange (fun i => lhdSectorUsing start (f i)) n i =
      forRange (fun i => lhdSectorUsing start' (f i)) n i := by
  induction n generalizing i with
  | zero => rfl
  | succ n ih =>
    have hfirst : lhdSectorUsing start (f i) = lhdSectorUsing start' (f i) := by
      unfold lhdSectorUsing
      rw [h i le_rfl (by omega)]
    rw [forRange, forRange, hfirst, ih fun j hj hlt => h j (by omega) (by omega)]

/-- `uiomove` fails with one error only. -/
theorem uiomoveLoop_error (fuel : ℕ) (buf : Buffer) (ptr n : ℕ) (u : Uio) :
    Meets (uiomoveLoop fuel buf ptr n) (fun _ _ => True) (fun e _ => e = .EFAULT) u
      (fun _ => True) := by
  induction fuel generalizing buf ptr n u with
  | zero => trivial
  | succ fuel ih =>
    simp only [uiomoveLoop, meets_bind, meets_get, meets_ite, meets_pure, meets_require_partial,
      meets_fail, meets_modify]
    exact ⟨fun _ => trivial, fun _ _ => ⟨fun _ => trivial, fun _ => ih _ _ _ _⟩⟩

/-- A request that is let through is not refused: if there is a sector to ask for, the device is
asked, or `uiomove` fails before that. -/
theorem forRange_ne_refused (f : ℕ → ℕ) (n : ℕ) :
    forRange (fun i => lhdSectorUsing (fun _ => halt "device") (f i)) n 0 s ≠ .err .EINVAL s := by
  cases n with
  | zero =>
    intro h
    cases h
  | succ n =>
    have hmeets : Meets (forRange (fun i => lhdSectorUsing (fun _ => halt "device") (f i)) (n + 1) 0)
        (fun _ _ => True) (fun e _ => e = .EFAULT) s (fun _ => True) := by
      simp only [forRange, lhdSectorUsing, meets_bind, meets_get]
      cases s.uio.rw with
      | read => simp only [meets_bind, meets_halt]
      | write =>
        simp only [meets_bind, meets_halt, onUio, meets_zoom]
        exact uiomoveLoop_error _ _ _ _ _
    intro h
    have hcode := hmeets.of_err h
    cases hcode

/-- **Requests stay on the disk** exactly when the offset is not negative, the request is not
aligned, or its end, as a number of sectors modulo `2 ^ 32`, is past the end of the disk. -/
theorem lhd_stays_on_disk_iff (s : Io) (hlo : -2147483648 ≤ s.uio.offset)
    (hhi : s.uio.offset < 2147483648) (hres : s.uio.resid < 4294967296) :
    StaysOnDisk s ↔
      0 ≤ s.uio.offset ∨ ¬ (512 : ℤ) ∣ s.uio.offset ∨ ¬ 512 ∣ s.uio.resid ∨
        s.disk.dBlocks < u32 ((s.uio.offset + s.uio.resid) / 512) := by
  constructor
  · intro h
    by_contra hnot
    simp only [not_or, not_not, not_le, not_lt] at hnot
    obtain ⟨hneg, hoff, hlen, hend⟩ := hnot
    have hrefused := h.refused (.inr (.inr (.inl hneg))) fun _ => halt "device"
    rw [lhdIoUsing_aligned _ hoff hlen, if_neg (not_lt.mpr hend)] at hrefused
    exact forRange_ne_refused _ _ hrefused
  · intro h
    by_cases haligned : (512 : ℤ) ∣ s.uio.offset ∧ 512 ∣ s.uio.resid
    · obtain ⟨hoff, hlen⟩ := haligned
      by_cases hpast : s.disk.dBlocks < u32 ((s.uio.offset + s.uio.resid) / 512)
      · have hall : ∀ start, lhdIoUsing start s = .err .EINVAL s := by
          intro start
          rw [lhdIoUsing_aligned start hoff hlen, if_pos hpast]
        exact ⟨fun start _ => (hall start).trans (hall fun _ => lhdStart).symm, fun _ => hall⟩
      · have h0 : 0 ≤ s.uio.offset := by
          rcases h with h0 | hoff' | hlen' | hpast'
          · exact h0
          · exact absurd hoff hoff'
          · exact absurd hlen hlen'
          · exact absurd hpast' hpast
        -- Nothing wraps around at a position on the disk.
        have hend : (s.uio.offset + s.uio.resid) / 512 ≤ s.disk.dBlocks := by
          unfold u32 at hpast
          omega
        refine ⟨fun start hstart => ?_, fun hoffdisk => ?_⟩
        · rw [lhdIo_eq_using, lhdIoUsing_aligned start hoff hlen, if_neg hpast,
            lhdIoUsing_aligned _ hoff hlen, if_neg hpast]
          refine congrFun (forRange_lhdSectorUsing_congr fun j _ hj => hstart _ ?_) s
          rw [sector_eq hoff]
          unfold sectSize at hj
          unfold u32
          omega
        · rcases hoffdisk with hoff' | hlen' | hneg | hpast'
          · exact absurd hoff hoff'
          · exact absurd hlen hlen'
          · omega
          · omega
    · have hall : ∀ start, lhdIoUsing start s = .err .EINVAL s := by
        intro start
        rw [not_and_or] at haligned
        exact lhdIoUsing_unaligned start haligned
      exact ⟨fun start _ => (hall start).trans (hall fun _ => lhdStart).symm, fun _ => hall⟩

/-- A disk of eight sectors, all zero. -/
def smallDisk : Disk := ⟨fun _ _ => 0, fun _ _ _ => rfl, 8, []⟩

/-- A request to read one sector at a position. -/
def readSector (pos : ℤ) : Io := ⟨smallDisk, mkKuio (List.replicate 512 0) pos .read⟩

theorem readSector_resid (pos : ℤ) : (readSector pos).uio.resid = 512 := List.length_replicate

/-- The last sector, and the one after it. -/
theorem lhd_stays_on_disk_smallDisk :
    StaysOnDisk (readSector 3584) ∧ StaysOnDisk (readSector 4096) := by
  have hlast := lhd_stays_on_disk_iff (readSector 3584) (by decide) (by decide)
    (by rw [readSector_resid]; norm_num)
  have hpast := lhd_stays_on_disk_iff (readSector 4096) (by decide) (by decide)
    (by rw [readSector_resid]; norm_num)
  exact ⟨hlast.mpr (.inl (by decide)), hpast.mpr (.inl (by decide))⟩

/-- The block number `0x7fffff` of an indirect block gives the offset `-512`, and the device is
asked for the sector `2 ^ 32 - 1` of a disk of eight sectors. -/
theorem lhd_asks_past_disk :
    s32 (0x7fffff * 512) = -512 ∧ ¬ StaysOnDisk (readSector (-512)) ∧
      lhdIoUsing (fun b => halt (if b = 4294967295 then "sector 4294967295" else "another"))
        (readSector (-512)) = .halted "sector 4294967295" := by
  have hasks : lhdIoUsing
      (fun b => halt (if b = 4294967295 then "sector 4294967295" else "another"))
      (readSector (-512)) = .halted "sector 4294967295" := Outcome.eq_halted (by decide +kernel)
  refine ⟨by unfold s32; norm_num, fun h => ?_, hasks⟩
  have hrefused := h.refused (.inr (.inr (.inl (by decide))))
    fun b => halt (if b = 4294967295 then "sector 4294967295" else "another")
  rw [hasks] at hrefused
  cases hrefused

end Os161
