import Mathlib.Tactic
import Os161.Common.Refinement
import Os161.Lib.Bitmap

/-!
# The bitmap as a set

A bitmap of `nbits` bits behaves as a set of indices below `nbits`, over every sequence of calls.
The bits of the last byte past the end are set when the bitmap is made and stay set, which is why
`bitmap_alloc` returns no index past the end and fails exactly when the set is full.
-/

namespace Os161

open Prog

/-- The operations on a bitmap. -/
inductive BitmapOp where
  | alloc
  | mark (index : ℕ)
  | unmark (index : ℕ)
  | isset (index : ℕ)

/-- What an operation on a bitmap returns. -/
inductive BitmapRet where
  | none
  | index (i : ℕ)
  | bit (set : Bool)

namespace BitmapOp

/-- The call of the function. -/
def run : BitmapOp → BitmapM BitmapRet
  | alloc => do
    let index ← bitmapAlloc
    return .index index
  | mark index => do
    bitmapMark index
    return .none
  | unmark index => do
    bitmapUnmark index
    return .none
  | isset index => do
    let set ← bitmapIsset index
    return .bit set

/-- A set of indices below `nbits`: an index that is not in it may be added, one that is in it may
be removed, and the least one that is missing may be asked for. -/
def indices (nbits : ℕ) : DataType BitmapOp BitmapRet Errno (Finset ℕ) where
  pre S
    | alloc => True
    | mark index => index < nbits ∧ index ∉ S
    | unmark index => index < nbits ∧ index ∈ S
    | isset index => index < nbits
  post S op r S' :=
    match op with
    | alloc =>
      (∃ i, r = .ok (.index i) ∧ i < nbits ∧ i ∉ S ∧ (∀ j < i, j ∈ S) ∧ S' = insert i S) ∨
        r = .error .ENOSPC ∧ (∀ j < nbits, j ∈ S) ∧ S' = S
    | mark index => r = .ok .none ∧ S' = insert index S
    | unmark index => r = .ok .none ∧ S' = S.erase index
    | isset index => r = .ok (.bit (decide (index ∈ S))) ∧ S' = S

end BitmapOp

namespace Bitmap

/-- The bitmap stands for the set `S` of indices below `nbits`. -/
structure Represents (nbits : ℕ) (b : Bitmap) (S : Finset ℕ) : Prop where
  nbits_eq : b.nbits = nbits
  padded : b.Padded
  lt : ∀ i ∈ S, i < nbits
  mem : ∀ i < nbits, b.mem i = decide (i ∈ S)

variable {nbits : ℕ} {b : Bitmap} {S : Finset ℕ} {i : ℕ}

theorem Represents.mem_iff (h : Represents nbits b S) (hi : i < nbits) : b.mem i = true ↔ i ∈ S := by
  rw [h.mem i hi, decide_eq_true_iff]

theorem Represents.not_mem_iff (h : Represents nbits b S) (hi : i < nbits) :
    b.mem i = false ↔ i ∉ S := by
  rw [h.mem i hi, decide_eq_false_iff_not]

/-- The bits of the bitmap lie in its bytes. -/
theorem le_words (hn : nbits + 7 < 4294967296) : nbits ≤ 8 * words nbits := by
  unfold words
  rw [u32_of_lt hn]
  omega

theorem Represents.set (h : Represents nbits b S) (hi : i < nbits) :
    Represents nbits (b.set i) (insert i S) := by
  refine ⟨h.nbits_eq, fun j hj hlt => ?_, fun j hj => ?_, fun j hj => ?_⟩
  · rw [mem_set, h.padded j hj hlt, Bool.or_true]
  · rcases Finset.mem_insert.mp hj with rfl | hj
    · exact hi
    · exact h.lt j hj
  · rw [mem_set, h.mem j hj]
    simp only [Finset.mem_insert, Bool.decide_or]

theorem Represents.clear (h : Represents nbits b S) (hi : i < nbits) :
    Represents nbits (b.clear i) (S.erase i) := by
  refine ⟨h.nbits_eq, fun j hj hlt => ?_, fun j hj => ?_, fun j hj => ?_⟩
  · have hne : j ≠ i := by
      rw [nbits_clear, h.nbits_eq] at hj
      omega
    rw [mem_clear, h.padded j hj hlt, decide_eq_false hne]
    rfl
  · exact h.lt j (Finset.mem_of_mem_erase hj)
  · rw [mem_clear, h.mem j hj]
    simp only [Finset.mem_erase, Bool.decide_and, decide_not]

end Bitmap

/-- `bitmap_create` marks the bits past the end and no others. -/
theorem bitmapCreate_spec {nbits : ℕ} (hn : nbits + 7 < 4294967296) (b : Bitmap) :
    Meets (bitmapCreate nbits) (fun _ c => Bitmap.Represents nbits c ∅) (fun _ _ => False) b := by
  have hwords : Bitmap.words nbits = (nbits + 7) / 8 := by
    unfold Bitmap.words
    rw [u32_of_lt hn]
  have hnew : ∀ {c : Bitmap}, c.nbits = nbits →
      (∀ i, c.mem i = decide (nbits ≤ i ∧ i < 8 * Bitmap.words nbits)) →
      Bitmap.Represents nbits c ∅ := by
    intro c hc hmem
    refine ⟨hc, fun i hi hlt => ?_, fun i hi => absurd hi (Finset.notMem_empty i), fun i hi => ?_⟩
    · rw [hc] at hi hlt
      rw [hmem i, decide_eq_true ⟨hi, hlt⟩]
    · rw [hmem i, decide_eq_false (by omega)]
      rfl
  have hzero : ∀ i, Bitmap.mem ⟨nbits, fun _ => 0⟩ i = false := by
    intro i
    show (0#8).getLsbD (i % 8) = false
    exact BitVec.getLsbD_zero
  simp only [bitmapCreate, meets_bind, meets_modify, meets_ite, meets_require, meets_pure, hwords]
  refine ⟨fun hover => ⟨by omega, by omega, ?_⟩, fun hexact => ?_⟩
  · refine (Meets.forRange (fun j c => c.nbits = nbits ∧
      ∀ i, c.mem i = decide (nbits ≤ i ∧ i < ((nbits + 7) / 8 - 1) * 8 + j)) ?_ ?_).imp ?_
    rotate_left 2
    · rintro _ c ⟨hc, hmem⟩
      refine hnew hc fun i => ?_
      rw [hmem i, hwords, decide_eq_decide]
      omega
    · refine ⟨rfl, fun i => ?_⟩
      rw [hzero i, decide_eq_false (by omega)]
    · rintro j c hlo hj ⟨hc, hmem⟩
      rw [meets_modify]
      refine ⟨hc, fun i => ?_⟩
      rw [Bitmap.mem_set, hmem i, ← Bool.decide_or, decide_eq_decide]
      omega
  · refine hnew rfl fun i => ?_
    rw [hzero i, decide_eq_false (by omega)]

/-- One call. -/
theorem BitmapOp.run_spec {nbits : ℕ} (hn : nbits + 7 < 4294967296) {b : Bitmap} {S : Finset ℕ}
    (op : BitmapOp) (h : Bitmap.Represents nbits b S) (hpre : (indices nbits).pre S op) :
    Meets op.run
      (fun r c => ∃ S', (indices nbits).post S op (.ok r) S' ∧ Bitmap.Represents nbits c S')
      (fun e c => c = b ∧
        ∃ S', (indices nbits).post S op (.error e) S' ∧ Bitmap.Represents nbits c S') b := by
  have hle := Bitmap.le_words hn
  cases op with
  | alloc =>
    simp only [run, meets_bind, meets_pure]
    refine (bitmapAlloc_spec h.padded).mono ?_ ?_
    · rintro i c ⟨hlt, hclear, hbelow, rfl⟩
      rw [h.nbits_eq] at hlt
      refine ⟨_, .inl ⟨i, rfl, hlt, (h.not_mem_iff hlt).mp hclear, fun j hj => ?_, rfl⟩, h.set hlt⟩
      exact (h.mem_iff (hj.trans hlt)).mp (hbelow j hj)
    · rintro e c ⟨rfl, hall, rfl⟩
      refine ⟨rfl, S, .inr ⟨rfl, fun j hj => ?_, rfl⟩, h⟩
      rw [h.nbits_eq] at hall
      exact (h.mem_iff hj).mp (hall j (by omega))
  | mark index =>
    have hlt : index < b.nbits := by
      rw [h.nbits_eq]
      exact hpre.1
    simp only [run, meets_bind, meets_pure]
    refine (bitmapMark_spec hlt ((h.not_mem_iff hpre.1).mpr hpre.2)).imp ?_
    rintro _ c rfl
    exact ⟨_, ⟨rfl, rfl⟩, h.set hpre.1⟩
  | unmark index =>
    have hlt : index < b.nbits := by
      rw [h.nbits_eq]
      exact hpre.1
    simp only [run, meets_bind, meets_pure]
    refine (bitmapUnmark_spec hlt ((h.mem_iff hpre.1).mpr hpre.2)).imp ?_
    rintro _ c rfl
    exact ⟨_, ⟨rfl, rfl⟩, h.clear hpre.1⟩
  | isset index =>
    simp only [run, meets_bind, meets_pure]
    refine bitmapIsset_spec.imp ?_
    rintro r c ⟨rfl, rfl⟩
    refine ⟨S, ⟨?_, rfl⟩, h⟩
    rw [h.mem index hpre]

/-- **The bitmap refines a set.** A bitmap that `bitmap_create` has made does what a set of indices
below `nbits` does, over every sequence of calls: no assertion fails, a call that fails leaves the
bitmap as it was, and in every state the bits past the end are set. -/
theorem bitmap_refines_set {nbits : ℕ} (hn : nbits + 7 < 4294967296) (b : Bitmap)
    (ops : List BitmapOp) :
    Meets (bitmapCreate nbits)
      (fun _ c => Conforms (BitmapOp.indices nbits) BitmapOp.run
        (fun d S => d.nbits = nbits ∧ d.Padded ∧ (∀ i ∈ S, i < nbits) ∧
          ∀ i < nbits, d.mem i = decide (i ∈ S))
        (fun d d' => d' = d) ops c ∅)
      (fun _ _ => False) b := by
  refine (bitmapCreate_spec hn b).imp ?_
  intro _ c hc
  refine Conforms.of_step (R := fun d S => Bitmap.Represents nbits d S) ?_ ?_ ops hc
  · intro d S h
    exact ⟨h.nbits_eq, h.padded, h.lt, h.mem⟩
  · intro d S op h hpre
    exact BitmapOp.run_spec hn op h hpre

/-- Ten bits, in two bytes with six bits past the end. -/
theorem bitmap_refines_set_ten :
    Meets (bitmapCreate 10)
      (fun _ c => Conforms (BitmapOp.indices 10) BitmapOp.run
        (fun d S => d.nbits = 10 ∧ d.Padded ∧ (∀ i ∈ S, i < 10) ∧
          ∀ i < 10, d.mem i = decide (i ∈ S))
        (fun d d' => d' = d) [.mark 0, .alloc, .isset 1, .unmark 0, .alloc] c ∅)
      (fun _ _ => False) ⟨0, fun _ => 0⟩ :=
  bitmap_refines_set (by norm_num) _ _

end Os161
