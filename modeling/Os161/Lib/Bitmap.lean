import Mathlib.Tactic
import Os161.Common.Prog
import Os161.Common.Bytes
import Os161.Machine.Basic

/-!
# The bitmap (`kern/lib/bitmap.c`)

Bits are kept in bytes, bit `i` in byte `i / 8` at position `i % 8`. `Bitmap.mem` is the set of
indices a bitmap stands for, and each operation is specified on that set: `bitmap_alloc` adds the
least index that is missing, `bitmap_mark` and `bitmap_unmark` add and remove one.
-/

namespace Os161

open Prog

/-- `struct bitmap`: the number of bits and the bytes that hold them. -/
structure Bitmap where
  nbits : ℕ
  v : Buffer

/-- Programs over one bitmap. -/
abbrev BitmapM := Prog Errno Bitmap

namespace Bitmap

/-- `(WORD_TYPE)1 << offset`. -/
def mask (offset : ℕ) : Byte := 1#8 <<< offset

/-- `WORD_ALLBITS`. -/
def allBits : Byte := 0xff#8

/-- `DIVROUNDUP(nbits, BITS_PER_WORD)`, in 32 bits. -/
def words (nbits : ℕ) : ℕ := u32 ((nbits + 7 : ℕ) : ℤ) / 8

/-- Index `i` is in the set. -/
def mem (b : Bitmap) (i : ℕ) : Bool := (b.v (i / 8)).getLsbD (i % 8)

/-- `b->v[ix] |= mask` for bit `i`. -/
def set (b : Bitmap) (i : ℕ) : Bitmap :=
  { b with v := Function.update b.v (i / 8) (b.v (i / 8) ||| mask (i % 8)) }

/-- `b->v[ix] &= ~mask` for bit `i`. -/
def clear (b : Bitmap) (i : ℕ) : Bitmap :=
  { b with v := Function.update b.v (i / 8) (b.v (i / 8) &&& ~~~ mask (i % 8)) }

end Bitmap

/-! ## The operations -/

/-- `bitmap_create`: all bits clear, except the ones of the last byte past the end. -/
def bitmapCreate (nbits : ℕ) : BitmapM Unit := do
  modify fun _ => ⟨nbits, fun _ => 0⟩
  if nbits / 8 < Bitmap.words nbits then do
    let ix := Bitmap.words nbits - 1
    let overbits := nbits - ix * 8
    require (nbits / 8 = Bitmap.words nbits - 1) "bitmap_create: nbits / BITS_PER_WORD == words-1"
    require (overbits > 0 ∧ overbits < 8) "bitmap_create: overbits > 0 && overbits < BITS_PER_WORD"
    forRange (fun j => modify fun b => b.set (ix * 8 + j)) (8 - overbits) overbits
  else pure ()

/-- The inner loop of `bitmap_alloc`, over the `n` offsets from `offset` in byte `ix`. -/
def bitmapAllocIn (ix : ℕ) : (n offset : ℕ) → BitmapM ℕ
  | 0, _ => halt "bitmap_alloc: 0"
  | n + 1, offset => do
    let b ← get
    if b.v ix &&& Bitmap.mask offset = 0 then do
      let index := ix * 8 + offset
      modify fun b => b.set index
      require (index < b.nbits) "bitmap_alloc: *index < b->nbits"
      pure index
    else bitmapAllocIn ix n (offset + 1)

/-- The outer loop of `bitmap_alloc`, over the `n` bytes from `ix`. -/
def bitmapAllocFrom : (n ix : ℕ) → BitmapM ℕ
  | 0, _ => fail .ENOSPC
  | n + 1, ix => do
    let b ← get
    if b.v ix ≠ Bitmap.allBits then bitmapAllocIn ix 8 0
    else bitmapAllocFrom n (ix + 1)

/-- `bitmap_alloc`: find a clear bit, set it and return its index. -/
def bitmapAlloc : BitmapM ℕ := do
  let b ← get
  bitmapAllocFrom (Bitmap.words b.nbits) 0

/-- `bitmap_mark`. -/
def bitmapMark (index : ℕ) : BitmapM Unit := do
  let b ← get
  require (index < b.nbits) "bitmap_mark: index < b->nbits"
  require (b.v (index / 8) &&& Bitmap.mask (index % 8) = 0) "bitmap_mark: (b->v[ix] & mask)==0"
  modify fun b => b.set index

/-- `bitmap_unmark`. -/
def bitmapUnmark (index : ℕ) : BitmapM Unit := do
  let b ← get
  require (index < b.nbits) "bitmap_unmark: index < b->nbits"
  require (b.v (index / 8) &&& Bitmap.mask (index % 8) ≠ 0) "bitmap_unmark: (b->v[ix] & mask)!=0"
  modify fun b => b.clear index

/-- `bitmap_isset`. -/
def bitmapIsset (index : ℕ) : BitmapM Bool := do
  let b ← get
  pure (decide (b.v (index / 8) &&& Bitmap.mask (index % 8) ≠ 0))

/-! ## Bits of a byte -/

namespace Bitmap

theorem getLsbD_mask {o k : ℕ} (ho : o < 8) (hk : k < 8) :
    (mask o).getLsbD k = decide (k = o) := by
  unfold mask
  interval_cases o <;> interval_cases k <;> rfl

/-- The test `(w & mask) == 0` is about one bit. -/
theorem and_mask_eq_zero {w : Byte} {o : ℕ} (ho : o < 8) :
    w &&& mask o = 0 ↔ w.getLsbD o = false := by
  constructor
  · intro h
    have hbit : (w &&& mask o).getLsbD o = false := by rw [h]; simp
    simpa [getLsbD_mask ho ho] using hbit
  · intro h
    apply BitVec.eq_of_getLsbD_eq
    intro k hk
    rw [BitVec.getLsbD_and, getLsbD_mask ho hk]
    rcases eq_or_ne k o with rfl | hne
    · simp [h]
    · simp [hne]

/-- A byte other than `WORD_ALLBITS` has a clear bit. -/
theorem exists_clear {w : Byte} (h : w ≠ allBits) : ∃ o < 8, w.getLsbD o = false := by
  by_contra hall
  push Not at hall
  apply h
  apply BitVec.eq_of_getLsbD_eq
  intro k hk
  rw [Bool.eq_true_of_not_eq_false (hall k hk)]
  unfold allBits
  interval_cases k <;> rfl

theorem getLsbD_allBits {o : ℕ} (ho : o < 8) : allBits.getLsbD o = true := by
  unfold allBits
  interval_cases o <;> rfl

@[simp]
theorem nbits_set (b : Bitmap) (i : ℕ) : (b.set i).nbits = b.nbits := rfl

@[simp]
theorem nbits_clear (b : Bitmap) (i : ℕ) : (b.clear i).nbits = b.nbits := rfl

/-- Setting a bit adds its index. -/
@[simp]
theorem mem_set (b : Bitmap) (i j : ℕ) : (b.set i).mem j = (decide (j = i) || b.mem j) := by
  simp only [mem, set]
  rcases eq_or_ne (j / 8) (i / 8) with hw | hw
  · rw [hw, Function.update_self, BitVec.getLsbD_or, getLsbD_mask (by omega) (by omega),
      Bool.or_comm, decide_eq_decide.mpr (show j % 8 = i % 8 ↔ j = i by omega)]
  · rw [Function.update_of_ne hw, decide_eq_false (by rintro rfl; exact hw rfl), Bool.false_or]

/-- Clearing a bit removes its index. -/
@[simp]
theorem mem_clear (b : Bitmap) (i j : ℕ) :
    (b.clear i).mem j = (!decide (j = i) && b.mem j) := by
  simp only [mem, clear]
  rcases eq_or_ne (j / 8) (i / 8) with hw | hw
  · rw [hw, Function.update_self, BitVec.getLsbD_and, BitVec.getLsbD_not,
      getLsbD_mask (by omega) (by omega), Bool.and_comm,
      decide_eq_decide.mpr (show j % 8 = i % 8 ↔ j = i by omega),
      decide_eq_true (show j % 8 < 8 by omega), Bool.true_and]
  · rw [Function.update_of_ne hw, decide_eq_false (by rintro rfl; exact hw rfl), Bool.not_false,
      Bool.true_and]

/-- The test of one bit in the operations. -/
theorem and_mask_iff (b : Bitmap) (i : ℕ) :
    b.v (i / 8) &&& mask (i % 8) = 0 ↔ b.mem i = false :=
  and_mask_eq_zero (by omega)

/-- The bits past the end of the bitmap are set, so that `bitmap_alloc` never returns one. -/
def Padded (b : Bitmap) : Prop := ∀ i, b.nbits ≤ i → i < 8 * words b.nbits → b.mem i = true

end Bitmap

/-! ## Specifications -/

section Specs

variable {b : Bitmap} {E : Errno → Bitmap → Prop} {H : String → Prop}

/-- The inner loop returns the least clear bit of the byte, if there is one from `offset` on. -/
theorem bitmapAllocIn_spec {n offset : ℕ} (ix : ℕ) (hn : offset + n = 8)
    (hlow : ∀ o < offset, b.mem (ix * 8 + o) = true)
    (hclear : ∃ o, offset ≤ o ∧ o < 8 ∧ b.mem (ix * 8 + o) = false)
    (hpad : ∀ o < 8, b.mem (ix * 8 + o) = false → ix * 8 + o < b.nbits) :
    Meets (bitmapAllocIn ix n offset) (fun i c => i < b.nbits ∧ b.mem i = false ∧ i / 8 = ix ∧
      (∀ j, ix * 8 ≤ j → j < i → b.mem j = true) ∧ c = b.set i) E b H := by
  induction n generalizing offset with
  | zero =>
    obtain ⟨o, ho, ho', -⟩ := hclear
    omega
  | succ n ih =>
    have hoff : offset < 8 := by omega
    have hbit : b.v ix &&& Bitmap.mask offset = 0 ↔ b.mem (ix * 8 + offset) = false := by
      rw [← Bitmap.and_mask_iff, show (ix * 8 + offset) / 8 = ix by omega,
        show (ix * 8 + offset) % 8 = offset by omega]
    simp only [bitmapAllocIn, meets_bind, meets_get, meets_ite, meets_modify, hbit]
    constructor
    · intro hfree
      have hlt := hpad offset hoff hfree
      apply Meets.partial_of
      simp only [meets_require, meets_pure]
      refine ⟨hlt, hlt, hfree, by omega, ?_, trivial⟩
      intro j hj hji
      have hprev := hlow (j - ix * 8) (by omega)
      rwa [show ix * 8 + (j - ix * 8) = j by omega] at hprev
    · intro hset
      have hset' : b.mem (ix * 8 + offset) = true := Bool.eq_true_of_not_eq_false hset
      apply ih (by omega)
      · intro o ho
        rcases Nat.lt_succ_iff_lt_or_eq.mp ho with hlt | rfl
        · exact hlow o hlt
        · exact hset'
      · obtain ⟨o, ho, ho', hfree⟩ := hclear
        refine ⟨o, ?_, ho', hfree⟩
        rcases eq_or_lt_of_le ho with rfl | hlt
        · exact absurd hfree hset
        · exact hlt

/-- The outer loop returns the least clear bit from byte `ix` on, or fails when there is none. -/
theorem bitmapAllocFrom_spec {n ix : ℕ} (hpad : b.Padded)
    (hn : ix + n = Bitmap.words b.nbits) (hlow : ∀ j < ix * 8, b.mem j = true) :
    Meets (bitmapAllocFrom n ix)
      (fun i c => i < b.nbits ∧ b.mem i = false ∧ (∀ j < i, b.mem j = true) ∧ c = b.set i)
      (fun e c => e = .ENOSPC ∧ (∀ j < 8 * Bitmap.words b.nbits, b.mem j = true) ∧ c = b) b H := by
  induction n generalizing ix with
  | zero =>
    refine ⟨rfl, ?_, rfl⟩
    intro j hj
    exact hlow j (by omega)
  | succ n ih =>
    have hmem : ∀ o < 8, b.mem (ix * 8 + o) = (b.v ix).getLsbD o := by
      intro o ho
      rw [Bitmap.mem, show (ix * 8 + o) / 8 = ix by omega, show (ix * 8 + o) % 8 = o by omega]
    simp only [bitmapAllocFrom, meets_bind, meets_get, meets_ite]
    constructor
    · intro hne
      obtain ⟨o, ho, hfree⟩ := Bitmap.exists_clear hne
      have hbyte := bitmapAllocIn_spec (b := b)
        (E := fun e c => e = .ENOSPC ∧ (∀ j < 8 * Bitmap.words b.nbits, b.mem j = true) ∧ c = b)
        (H := H) ix (Nat.add_comm 0 8) (by omega) ⟨o, Nat.zero_le o, ho, by rw [hmem o ho, hfree]⟩ ?_
      · refine hbyte.imp ?_
        rintro i c ⟨hlt, hclear, hix, hbelow, rfl⟩
        refine ⟨hlt, hclear, ?_, rfl⟩
        intro j hj
        rcases lt_or_ge j (ix * 8) with hjlow | hjlow
        · exact hlow j hjlow
        · exact hbelow j hjlow hj
      · intro o' ho' hfree'
        by_contra hge
        have hset := hpad (ix * 8 + o') (by omega) (by omega)
        rw [hfree'] at hset
        exact Bool.false_ne_true hset
    · intro hall
      have hall' : b.v ix = Bitmap.allBits := not_not.mp hall
      apply ih (by omega)
      intro j hj
      rcases lt_or_ge j (ix * 8) with hjlow | hjlow
      · exact hlow j hjlow
      · rw [show j = ix * 8 + (j - ix * 8) by omega, hmem _ (by omega), hall',
          Bitmap.getLsbD_allBits (by omega)]

/-- `bitmap_alloc` adds the least missing index, and fails exactly when none is missing. -/
theorem bitmapAlloc_spec (hpad : b.Padded) :
    Meets bitmapAlloc
      (fun i c => i < b.nbits ∧ b.mem i = false ∧ (∀ j < i, b.mem j = true) ∧ c = b.set i)
      (fun e c => e = .ENOSPC ∧ (∀ j < 8 * Bitmap.words b.nbits, b.mem j = true) ∧ c = b) b H := by
  simp only [bitmapAlloc, meets_bind, meets_get]
  exact bitmapAllocFrom_spec hpad (by omega) (by omega)

/-- `bitmap_mark` adds a missing index. -/
theorem bitmapMark_spec {i : ℕ} (hlt : i < b.nbits) (hclear : b.mem i = false) :
    Meets (bitmapMark i) (fun _ c => c = b.set i) E b := by
  simp only [bitmapMark, meets_bind, meets_get, meets_require, meets_modify, Bitmap.and_mask_iff]
  exact ⟨hlt, hclear, trivial⟩

/-- `bitmap_unmark` removes an index of the set. -/
theorem bitmapUnmark_spec {i : ℕ} (hlt : i < b.nbits) (hset : b.mem i = true) :
    Meets (bitmapUnmark i) (fun _ c => c = b.clear i) E b := by
  simp only [bitmapUnmark, meets_bind, meets_get, meets_require, meets_modify, ne_eq,
    Bitmap.and_mask_iff]
  refine ⟨hlt, ?_, trivial⟩
  rw [hset]
  exact Bool.true_eq_false_eq_False

/-- `bitmap_isset` tests membership. -/
theorem bitmapIsset_spec {i : ℕ} :
    Meets (bitmapIsset i) (fun r c => r = b.mem i ∧ c = b) E b H := by
  simp only [bitmapIsset, meets_bind, meets_get, meets_pure, and_true, ne_eq, Bitmap.and_mask_iff]
  cases b.mem i <;> rfl

end Specs

end Os161
