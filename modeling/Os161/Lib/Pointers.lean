import Mathlib.Tactic
import Os161.Machine.Basic

/-!
# Vectors of pointers in kernel memory

Blocks that `kmalloc` has handed out, seen as vectors of pointers of four bytes each. A block has
the length that was asked for, in 32-bit arithmetic, and arbitrary contents. An access outside of a
block stops the machine.
-/

namespace Os161

open Prog

/-- An object and the answers of the calls of `kmalloc` to come: null, or a block with arbitrary
contents. -/
structure PtrAlloc (σ α : Type) where
  obj : σ
  answers : ℕ → Option (ℕ → α)

variable {σ α ε τ : Type}

/-- `kmalloc(n * sizeof(void *))`. -/
def kmallocPtrs (n : ℤ) : Prog Errno (PtrAlloc σ α) (Option (List α)) := do
  let s ← get
  modify fun s => { s with answers := fun i => s.answers (i + 1) }
  return (s.answers 0).map fun junk => (List.range (u32 (n * 4) / 4)).map junk

/-- `v[i]` as a value. -/
def loadPtr (v : List α) (i : ℤ) : Prog ε τ α :=
  match v[i.toNat]? with
  | some x => if 0 ≤ i then pure x else halt "access before a block"
  | none => halt "access past a block"

/-- `v[i] = x`: the block after it. -/
def storePtr (v : List α) (i : ℤ) (x : α) : Prog ε τ (List α) :=
  if 0 ≤ i ∧ i < v.length then pure (v.set i.toNat x) else halt "access outside a block"

/-- The block at a pointer. -/
def derefPtr (v : Option (List α)) : Prog ε τ (List α) :=
  match v with
  | some l => pure l
  | none => halt "null pointer"

/-- `memmove(v + dst, v + src, n * sizeof(void *))` within one block: the block after it. -/
def movePtrs (v : Option (List α)) (dst src n : ℤ) : Prog ε τ (Option (List α)) :=
  if u32 (n * 4) / 4 = 0 then
    pure v
  else do
    let l ← derefPtr v
    let count := u32 (n * 4) / 4
    require (0 ≤ dst ∧ dst + count ≤ l.length) "memmove: write outside a block"
    require (0 ≤ src ∧ src + count ≤ l.length) "memmove: read outside a block"
    pure (some (l.take dst.toNat ++ (l.drop src.toNat).take count ++ l.drop (dst.toNat + count)))

section Specs

variable {Q : α → τ → Prop} {E : ε → τ → Prop} {t : τ} {H : String → Prop} {v : List α} {i : ℤ}

theorem meets_loadPtr {x : α} (h0 : 0 ≤ i) (hx : v[i.toNat]? = some x) :
    Meets (loadPtr v i) Q E t H ↔ Q x t := by
  rw [loadPtr, hx]
  simp only [if_pos h0, meets_pure]

theorem meets_storePtr {Q : List α → τ → Prop} {x : α} (h0 : 0 ≤ i) (hi : i < v.length) :
    Meets (storePtr v i x) Q E t H ↔ Q (v.set i.toNat x) t := by
  rw [storePtr, if_pos ⟨h0, hi⟩, meets_pure]

/-- Moving `n` slots within a block. -/
theorem movePtrs_spec {o : Option (List α)} {dst src n : ℕ} {E : ε → τ → Prop} (hn : n < 1073741824)
    (hdst : dst + n ≤ (o.getD []).length) (hsrc : src + n ≤ (o.getD []).length) :
    Meets (movePtrs o dst src n)
      (fun o' t' => t' = t ∧ (o'.getD []).length = (o.getD []).length ∧ ∀ j, (o'.getD [])[j]? =
        if dst ≤ j ∧ j < dst + n then (o.getD [])[j - dst + src]? else (o.getD [])[j]?)
      E t H := by
  have hcount : u32 ((n : ℤ) * 4) / 4 = n := by
    unfold u32
    omega
  rw [movePtrs, hcount, meets_ite]
  refine ⟨fun hzero => ⟨rfl, rfl, fun j => ?_⟩, fun hpos => ?_⟩
  · rw [if_neg (by omega)]
  cases o with
  | none =>
    simp only [Option.getD_none, List.length_nil] at hdst
    omega
  | some l =>
    simp only [Option.getD_some] at hdst hsrc ⊢
    apply Meets.partial_of
    simp only [derefPtr, meets_bind, meets_pure, meets_require, Int.toNat_natCast]
    refine ⟨by omega, by omega, trivial, ?_, fun j => ?_⟩
    · simp only [Option.getD_some, List.length_append, List.length_take, List.length_drop]
      omega
    · have htake : (l.take dst).length = dst := by
        rw [List.length_take]
        omega
      have hmid : ((l.drop src).take n).length = n := by
        rw [List.length_take, List.length_drop]
        omega
      rw [Option.getD_some, List.getElem?_append, List.getElem?_append, List.length_append, htake,
        hmid, List.getElem?_take, List.getElem?_take, List.getElem?_drop, List.getElem?_drop]
      split_ifs <;> first | rfl | omega | (congr 1; omega)

/-- A block has as many slots as were asked for, unless the number of bytes overflows. -/
theorem kmallocPtrs_spec {n : ℤ} (h0 : 0 ≤ n) (hn : n < 1073741824) (s : PtrAlloc σ α) :
    Meets (kmallocPtrs n)
      (fun r s' => s'.obj = s.obj ∧ ∀ v, r = some v → (v.length : ℤ) = n)
      (fun _ _ => False) s := by
  simp only [kmallocPtrs, meets_bind, meets_get, meets_modify, meets_pure, true_and]
  intro v hv
  obtain ⟨junk, -, rfl⟩ := Option.map_eq_some_iff.mp hv
  rw [List.length_map, List.length_range]
  unfold u32
  omega

end Specs

end Os161
