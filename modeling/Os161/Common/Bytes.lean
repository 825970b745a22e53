import Mathlib.Tactic

/-!
# Byte buffers and big-endian words

A buffer is its bytes by offset. `slice` reads a run of bytes, `splice` overwrites one, and `wordAt`
reads a big-endian 32-bit word; `moved` is a buffer in which part of a run has been copied to another
place, which may overlap the run. The lemmas say what a byte or a word of a buffer is after each of
these.
-/

/-- A byte. -/
abbrev Byte := BitVec 8

/-- A 32-bit word. -/
abbrev Word := BitVec 32

/-- A region of memory or of a disk, by offset. -/
abbrev Buffer := ℕ → Byte

namespace Buffer

/-! ## Runs of bytes -/

/-- The `n` bytes from offset `p`. -/
def slice (b : Buffer) (p n : ℕ) : List Byte := (List.range n).map fun i => b (p + i)

/-- The buffer with the bytes `l` written from offset `p`. -/
def splice (b : Buffer) (p : ℕ) (l : List Byte) : Buffer := fun q =>
  if p ≤ q ∧ q < p + l.length then l.getD (q - p) 0 else b q

@[simp]
theorem length_slice (b : Buffer) (p n : ℕ) : (b.slice p n).length = n := by
  simp [slice]

/-- A byte of a run. -/
theorem getElem?_slice {b : Buffer} {p n i : ℕ} (h : i < n) :
    (b.slice p n)[i]? = some (b (p + i)) := by
  simp [slice, h]

/-- Two adjoining runs form one. -/
theorem slice_append (b : Buffer) (p m n : ℕ) :
    b.slice p (m + n) = b.slice p m ++ b.slice (p + m) n := by
  simp only [slice, List.range_add, List.map_append, List.map_map, List.append_cancel_left_eq]
  apply List.map_congr_left
  intro i _
  rw [Function.comp_apply, Nat.add_assoc]

@[simp]
theorem slice_zero (b : Buffer) (p : ℕ) : b.slice p 0 = [] := rfl

/-- A byte outside the overwritten run. -/
theorem splice_of_notMem {b : Buffer} {p q : ℕ} {l : List Byte}
    (h : q < p ∨ p + l.length ≤ q) : b.splice p l q = b q := by
  unfold splice
  rw [if_neg (by omega)]

/-- A byte of the overwritten run. -/
theorem splice_of_mem {b : Buffer} {p q : ℕ} {l : List Byte} (hlo : p ≤ q)
    (hhi : q < p + l.length) : b.splice p l q = l.getD (q - p) 0 := by
  unfold splice
  rw [if_pos ⟨hlo, hhi⟩]

@[simp]
theorem splice_nil (b : Buffer) (p : ℕ) : b.splice p [] = b := by
  funext q
  apply splice_of_notMem
  simp only [List.length_nil]
  omega

/-- Writing two adjoining runs one after the other is writing both at once. -/
theorem splice_splice (b : Buffer) (p : ℕ) (l l' : List Byte) :
    (b.splice p l).splice (p + l.length) l' = b.splice p (l ++ l') := by
  funext q
  rcases lt_or_ge q p with hlo | hlo
  · rw [splice_of_notMem (by omega), splice_of_notMem (by omega), splice_of_notMem (by omega)]
  rcases lt_or_ge q (p + l.length) with hmid | hmid
  · rw [splice_of_notMem (by omega), splice_of_mem hlo hmid,
      splice_of_mem hlo (by rw [List.length_append]; omega),
      List.getD_eq_getElem?_getD, List.getD_eq_getElem?_getD, List.getElem?_append_left (by omega)]
  rcases lt_or_ge q (p + l.length + l'.length) with hhi | hhi
  · rw [splice_of_mem hmid hhi, splice_of_mem hlo (by rw [List.length_append]; omega),
      List.getD_eq_getElem?_getD, List.getD_eq_getElem?_getD,
      List.getElem?_append_right (by omega), Nat.sub_sub]
  · rw [splice_of_notMem (by omega), splice_of_notMem (by omega),
      splice_of_notMem (by rw [List.length_append]; omega)]

/-! ## Buffers of a given size -/

/-- The first `n` bytes, followed by zeros. -/
def trunc (n : ℕ) (b : Buffer) : Buffer := fun i => if i < n then b i else 0

/-- A buffer that starts with the bytes `l`. -/
def ofList (l : List Byte) : Buffer := fun i => l.getD i 0

theorem trunc_of_le {n i : ℕ} (b : Buffer) (h : n ≤ i) : b.trunc n i = 0 := if_neg (by omega)

/-- The bytes from `lo` to `hi` of the run at `src` have been copied to the run at `dst`. -/
def moved (b : Buffer) (dst src lo hi : ℕ) : Buffer := fun q =>
  if dst + lo ≤ q ∧ q < dst + hi then b (src + (q - dst)) else b q

theorem moved_empty (b : Buffer) (dst src lo : ℕ) : b.moved dst src lo lo = b := by
  funext q
  exact if_neg (by omega)

theorem moved_of_mem {b : Buffer} {dst src lo hi i : ℕ} (hlo : lo ≤ i) (hhi : i < hi) :
    b.moved dst src lo hi (dst + i) = b (src + i) := by
  rw [moved, if_pos (by omega), Nat.add_sub_cancel_left]

theorem moved_of_notMem {b : Buffer} {dst src lo hi q : ℕ} (h : q < dst + lo ∨ dst + hi ≤ q) :
    b.moved dst src lo hi q = b q := if_neg (by omega)

/-- Copy the `w` bytes at `k` next. They must not have been overwritten by those copied before, and
both together are one run again. -/
theorem splice_moved {b : Buffer} {dst src lo hi k w : ℕ}
    (hfresh : ∀ i < w, src + k + i < dst + lo ∨ dst + hi ≤ src + k + i)
    (hnext : hi = k ∨ lo = k + w) :
    (b.moved dst src lo hi).splice (dst + k) ((b.moved dst src lo hi).slice (src + k) w) =
      b.moved dst src (min lo k) (max hi (k + w)) := by
  funext q
  by_cases hq : dst + k ≤ q ∧ q < dst + k + w
  · obtain ⟨i, rfl⟩ : ∃ i, q = dst + k + i := ⟨q - (dst + k), by omega⟩
    rw [splice_of_mem (by omega) (by rw [length_slice]; omega), Nat.add_sub_cancel_left,
      List.getD_eq_getElem?_getD, getElem?_slice (by omega), Option.getD_some,
      moved_of_notMem (hfresh i (by omega)), Nat.add_assoc dst, moved_of_mem (by omega) (by omega),
      Nat.add_assoc]
  · rw [splice_of_notMem (by rw [length_slice]; omega)]
    exact if_congr (by omega) rfl rfl

/-! ## Words -/

/-- Byte `k` of a word, the most significant first. -/
def wordByte (w : Word) (k : ℕ) : Byte := w.extractLsb' (24 - 8 * k) 8

/-- The big-endian word at offset `p`. -/
def wordAt (b : Buffer) (p : ℕ) : Word := b p ++ b (p + 1) ++ b (p + 2) ++ b (p + 3)

/-- The bytes of a word make up the word again. -/
theorem append_wordByte (w : Word) :
    wordByte w 0 ++ wordByte w 1 ++ wordByte w 2 ++ wordByte w 3 = w := by
  apply BitVec.eq_of_getLsbD_eq
  intro i hi
  simp only [wordByte, BitVec.getLsbD_append, BitVec.getLsbD_extractLsb']
  -- the four bytes are the four ranges of bit positions
  rcases lt_or_ge i 8 with h8 | h8
  · simp [h8]
  rcases lt_or_ge i 16 with h16 | h16
  · simp [show ¬ i < 8 by omega, show i - 8 < 8 by omega, show 8 + (i - 8) = i by omega]
  rcases lt_or_ge i 24 with h24 | h24
  · simp [show ¬ i < 8 by omega, show ¬ i - 8 < 8 by omega, show i - 8 - 8 < 8 by omega,
      show 16 + (i - 8 - 8) = i by omega]
  · simp [show ¬ i < 8 by omega, show ¬ i - 8 < 8 by omega, show ¬ i - 8 - 8 < 8 by omega,
      show i - 8 - 8 - 8 < 8 by omega, show 24 + (i - 8 - 8 - 8) = i by omega]

/-- The bytes of the word at `p` are those of the buffer. -/
theorem wordByte_wordAt (b : Buffer) (p : ℕ) {k : ℕ} (hk : k < 4) :
    wordByte (wordAt b p) k = b (p + k) := by
  apply BitVec.eq_of_getLsbD_eq
  intro i hi
  simp only [wordByte, wordAt, BitVec.getLsbD_extractLsb', BitVec.getLsbD_append]
  interval_cases k
  · simp [hi, show ¬ 24 + i < 8 by omega, show ¬ 24 + i - 8 < 8 by omega,
      show ¬ 24 + i - 8 - 8 < 8 by omega, show 24 + i - 8 - 8 - 8 = i by omega]
  · simp [hi, show ¬ 16 + i < 8 by omega, show ¬ 16 + i - 8 < 8 by omega,
      show 16 + i - 8 - 8 = i by omega]
  · simp [hi, show ¬ 8 + i < 8 by omega]
  · simp [hi]

/-- Storing the word at `p` stores its four bytes. -/
theorem map_wordByte_wordAt (b : Buffer) (p : ℕ) :
    (List.range 4).map (wordByte (wordAt b p)) = b.slice p 4 := by
  apply List.map_congr_left
  intro k hk
  exact wordByte_wordAt b p (List.mem_range.mp hk)

/-- A word depends on its own four bytes only. -/
theorem wordAt_congr {b b' : Buffer} {p p' : ℕ} (h : ∀ i < 4, b (p + i) = b' (p' + i)) :
    wordAt b p = wordAt b' p' := by
  unfold wordAt
  rw [show b p = b' p' from h 0 (by omega), h 1 (by omega), h 2 (by omega), h 3 (by omega)]

end Buffer
