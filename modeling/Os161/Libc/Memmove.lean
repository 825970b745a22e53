import Os161.Common.Bytes
import Os161.Machine.Basic

/-!
# `memmove` and `memcpy`

Both functions copy word by word if the two addresses and the length are multiples of the word size,
and byte by byte otherwise. `memcpy` goes upwards. `memmove` leaves a move to lower addresses to
`memcpy` and goes downwards by itself in the other case.

Memory is its bytes by address; a word is loaded as a whole before it is stored. A pass of any of the
four loops copies the next piece of the source, of one or of four bytes, and the invariant is that
the pieces before it have arrived and the rest of memory is as it was (`Buffer.moved`). Upwards the
piece that is read next lies above all that has been written, as the source is above the
destination; downwards it lies below.
-/

namespace Os161

open Prog

/-- Programs on the memory of the machine. -/
abbrev MemM := Prog Empty Buffer

/-- `d[i] = s[i]` for pointers to words. -/
def copyWord (dst src i : ℕ) : MemM Unit :=
  modify fun mem =>
    mem.splice (u32 (dst + 4 * i))
      ((List.range 4).map (Buffer.wordByte (mem.wordAt (u32 (src + 4 * i)))))

/-- `d[i] = s[i]` for pointers to characters. -/
def copyByte (dst src i : ℕ) : MemM Unit :=
  modify fun mem => mem.splice (u32 (dst + i)) [mem (u32 (src + i))]

/-- The test for copying by words. -/
def WordAligned (dst src len : ℕ) : Prop := dst % 4 = 0 ∧ src % 4 = 0 ∧ len % 4 = 0

instance WordAligned.decidable (dst src len : ℕ) : Decidable (WordAligned dst src len) :=
  inferInstanceAs (Decidable (_ ∧ _ ∧ _))

/-- `memcpy`. -/
def memcpy (dst src len : ℕ) : MemM ℕ := do
  let loop :=
    if WordAligned dst src len then forRange (copyWord dst src) (len / 4) 0
    else forRange (copyByte dst src) len 0
  loop
  return dst

/-- `memmove`. -/
def memmove (dst src len : ℕ) : MemM ℕ :=
  if dst < src then
    memcpy dst src len
  else do
    let loop :=
      if WordAligned dst src len then forDown (copyWord dst src) (len / 4)
      else forDown (copyByte dst src) len
    loop
    return dst

variable {dst src len w n : ℕ} {mem : Buffer} {body : ℕ → MemM Unit}

/-! ## The loops -/

/-- The passes of the loop copy pieces of `w` bytes. -/
def CopiesPieces (dst src w n : ℕ) (body : ℕ → MemM Unit) : Prop :=
  ∀ i < n, ∀ mem, body i mem = .ok () (mem.splice (dst + w * i) (mem.slice (src + w * i) w))

theorem copyWord_pieces (hdst : dst + 4 * n ≤ 4294967296) (hsrc : src + 4 * n ≤ 4294967296) :
    CopiesPieces dst src 4 n (copyWord dst src) := by
  intro i hi mem
  have hd : u32 ((dst : ℤ) + 4 * i) = dst + 4 * i := by unfold u32; omega
  have hs : u32 ((src : ℤ) + 4 * i) = src + 4 * i := by unfold u32; omega
  show Outcome.ok () (mem.splice (u32 (dst + 4 * i)) _) = _
  rw [hd, hs, Buffer.map_wordByte_wordAt]

theorem copyByte_pieces (hdst : dst + n ≤ 4294967296) (hsrc : src + n ≤ 4294967296) :
    CopiesPieces dst src 1 n (copyByte dst src) := by
  intro i hi mem
  have hd : u32 ((dst : ℤ) + i) = dst + 1 * i := by unfold u32; omega
  have hs : u32 ((src : ℤ) + i) = src + 1 * i := by unfold u32; omega
  show Outcome.ok () (mem.splice (u32 (dst + i)) [mem (u32 (src + i))]) = _
  rw [hd, hs]
  rfl

/-- Copying upwards to a lower address. -/
theorem CopiesPieces.up (h : CopiesPieces dst src w n body) (hle : dst ≤ src) (mem : Buffer) :
    Meets (forRange body n 0) (fun _ mem' => mem' = mem.moved dst src 0 (w * n))
      (fun _ _ => False) mem := by
  have hloop : Meets (forRange body n 0) (fun _ t => t = mem.moved dst src 0 (w * (0 + n)))
      (fun _ _ => False) mem := by
    refine Meets.forRange (fun i t => t = mem.moved dst src 0 (w * i)) ?_ ?_
    · exact (mem.moved_empty dst src 0).symm
    rintro i t - hi rfl
    refine Meets.of_eq_ok (h i (by omega) _) ?_
    rw [Buffer.splice_moved (fun j hj => by omega) (.inl rfl), Nat.zero_min,
      Nat.mul_succ, max_eq_right (Nat.le_add_right _ _)]
  rwa [Nat.zero_add] at hloop

/-- Copying downwards to a higher address. -/
theorem CopiesPieces.down (h : CopiesPieces dst src w n body) (hle : src ≤ dst) (mem : Buffer) :
    Meets (forDown body n) (fun _ mem' => mem' = mem.moved dst src 0 (w * n))
      (fun _ _ => False) mem := by
  have hloop : Meets (forDown body n) (fun _ t => t = mem.moved dst src (w * 0) (w * n))
      (fun _ _ => False) mem := by
    refine Meets.forDown (fun i t => t = mem.moved dst src (w * i) (w * n)) ?_ ?_
    · exact (mem.moved_empty dst src _).symm
    rintro i t hi rfl
    have hpiece : w * i + w ≤ w * n := by
      rw [← Nat.mul_succ]
      exact Nat.mul_le_mul_left w hi
    refine Meets.of_eq_ok (h i hi _) ?_
    rw [Nat.mul_succ, Buffer.splice_moved (fun j hj => by omega) (.inr rfl),
      min_eq_right (Nat.le_add_right _ _), max_eq_left hpiece]
  rwa [Nat.mul_zero] at hloop

/-! ## The functions -/

theorem four_mul_div (h : WordAligned dst src len) : 4 * (len / 4) = len := by
  have := h.2.2
  omega

theorem memcpy_spec (hdst : dst + len ≤ 4294967296) (hsrc : src + len ≤ 4294967296)
    (hle : dst ≤ src) :
    Meets (memcpy dst src len) (fun r mem' => r = dst ∧ mem' = mem.moved dst src 0 len)
      (fun _ _ => False) mem := by
  rw [memcpy, meets_bind, meets_ite]
  constructor
  · intro hword
    have hlen := four_mul_div hword
    have hloop := (copyWord_pieces (hlen.symm ▸ hdst) (hlen.symm ▸ hsrc)).up hle mem
    rw [hlen] at hloop
    exact hloop.imp fun _ mem' hmem => ⟨rfl, hmem⟩
  · intro _
    have hloop := (copyByte_pieces hdst hsrc).up hle mem
    rw [Nat.one_mul] at hloop
    exact hloop.imp fun _ mem' hmem => ⟨rfl, hmem⟩

theorem memmove_meets (hdst : dst + len ≤ 4294967296) (hsrc : src + len ≤ 4294967296) :
    Meets (memmove dst src len) (fun r mem' => r = dst ∧ mem' = mem.moved dst src 0 len)
      (fun _ _ => False) mem := by
  rw [memmove, meets_ite]
  refine ⟨fun hlt => memcpy_spec hdst hsrc hlt.le, fun hge => ?_⟩
  rw [meets_bind, meets_ite]
  constructor
  · intro hword
    have hlen := four_mul_div hword
    have hloop := (copyWord_pieces (hlen.symm ▸ hdst) (hlen.symm ▸ hsrc)).down (not_lt.mp hge) mem
    rw [hlen] at hloop
    exact hloop.imp fun _ mem' hmem => ⟨rfl, hmem⟩
  · intro _
    have hloop := (copyByte_pieces hdst hsrc).down (not_lt.mp hge) mem
    rw [Nat.one_mul] at hloop
    exact hloop.imp fun _ mem' hmem => ⟨rfl, hmem⟩

/-- **`memmove` moves the bytes**, however the two runs overlap: the bytes at `dst` are the ones that
were at `src` and all others are as they were. -/
theorem memmove_correct (mem : Buffer) (dst src len : ℕ) (hdst : dst + len ≤ 4294967296)
    (hsrc : src + len ≤ 4294967296) :
    ∃ mem', memmove dst src len mem = .ok dst mem' ∧ (∀ i < len, mem' (dst + i) = mem (src + i)) ∧
      ∀ a, a < dst ∨ dst + len ≤ a → mem' a = mem a := by
  obtain ⟨r, mem', hrun, rfl, rfl⟩ := (memmove_meets hdst hsrc).exists_ok
  refine ⟨_, hrun, fun i hi => Buffer.moved_of_mem (Nat.zero_le i) hi, fun a ha => ?_⟩
  exact Buffer.moved_of_notMem ha

/-- Eight bytes are moved up by four, by words and from the top. -/
theorem memmove_correct_overlap :
    ∃ mem', memmove 12 8 8 (fun a => BitVec.ofNat 8 a) = .ok 12 mem' ∧ mem' 12 = 8#8 ∧
      mem' 19 = 15#8 := by
  obtain ⟨mem', hrun, hmoved, -⟩ :=
    memmove_correct (fun a => BitVec.ofNat 8 a) 12 8 8 (by decide) (by decide)
  exact ⟨mem', hrun, hmoved 0 (by decide), hmoved 7 (by decide)⟩

end Os161
