import Mathlib.Tactic
import Os161.Common.Refinement
import Os161.Lib.Pointers

/-!
# The dynamic array in memory

Model of `kern/lib/array.c` with its machine integers and with the block that holds the pointers:
the block is replaced when the array grows, given back when a large array is emptied, and moved
within itself when a guy is removed. Every access is to a block of the length that was allocated.

`ArrayRec.Represents` relates an array to the list of its guys. The data type `guys` says what is to
be expected of an array, and `array_refines_guys` that this is what it does.
-/

namespace Os161

open Prog

/-- `struct array`, with the block that `v` points to. -/
structure ArrayRec (α : Type) where
  num : ℤ
  max : ℤ
  v : Option (List α)

namespace ArrayRec

variable {α : Type}

/-- Programs that work on an array in memory. -/
abbrev M (α β : Type) := Prog Errno (PtrAlloc (ArrayRec α) α) β

/-! ## Functions -/

/-- `array_create`: the array, or nothing when `kmalloc` returns null. -/
def arrayCreate : Prog Errno (PtrAlloc Unit α) (Option (ArrayRec α)) := do
  match ← kmallocPtrs 3 with
  | none => return none
  | some _ => return some ⟨0, 0, none⟩

/-- `array_getguy`. -/
def arrayGetguy (index : ℤ) : M α α := do
  let a ← gets (·.obj)
  require (a.num ≤ a.max) "Assertion failed: a->num <= a->max"
  require (0 ≤ index ∧ index < a.num) "Assertion failed: index >=0 && index < a->num"
  let v ← derefPtr a.v
  loadPtr v index

/-- The loop of `array_preallocate` that finds the new capacity. -/
def growMax (nguys : ℤ) : (fuel : ℕ) → (newmax : ℤ) → M α ℤ
  | 0, _ => halt "array_preallocate: the loop over the capacity goes on"
  | fuel + 1, newmax =>
    if nguys > newmax then growMax nguys fuel (s32 (s32 (newmax + 1) * 2)) else return newmax

/-- The loop of `array_preallocate` that copies the guys from `i` on into the new block. -/
def copyLoop (v : Option (List α)) : (n : ℕ) → (i : ℤ) → (newv : List α) → M α (List α)
  | 0, _, newv => return newv
  | n + 1, i, newv => do
    let old ← derefPtr v
    let guy ← loadPtr old i
    let newv ← storePtr newv i guy
    copyLoop v n (i + 1) newv

/-- `array_preallocate`. -/
def arrayPreallocate (nguys : ℤ) : M α Unit := do
  let a ← gets (·.obj)
  require (0 ≤ a.num ∧ a.num ≤ a.max) "Assertion failed: a->num >=0 && a->num <= a->max"
  let newmax ← growMax nguys 32 a.max
  match ← kmallocPtrs newmax with
  | none => fail .ENOMEM
  | some newv =>
    let newv ← copyLoop a.v a.num.toNat 0 newv
    modify fun s => { s with obj := { s.obj with max := newmax, v := some newv } }

/-- `array_setsize`. -/
def arraySetsize (nguys : ℤ) : M α Unit := do
  let a ← gets (·.obj)
  require (0 ≤ a.num ∧ a.num ≤ a.max) "Assertion failed: a->num >=0 && a->num <= a->max"
  if nguys > a.max then
    arrayPreallocate nguys
  else if nguys = 0 ∧ a.max > 16 then do
    require (a.v.isSome = true) "Assertion failed: a->v!=NULL"
    modify fun s => { s with obj := { s.obj with v := none, max := 0 } }
  else
    pure ()
  modify fun s => { s with obj := { s.obj with num := nguys } }

/-- `array_setguy`. -/
def arraySetguy (index : ℤ) (ptr : α) : M α Unit := do
  let a ← gets (·.obj)
  require (a.num ≤ a.max) "Assertion failed: a->num <= a->max"
  require (0 ≤ index ∧ index < a.num) "Assertion failed: index >=0 && index < a->num"
  let v ← derefPtr a.v
  let v ← storePtr v index ptr
  modify fun s => { s with obj := { s.obj with v := some v } }

/-- `array_add`. -/
def arrayAdd (guy : α) : M α Unit := do
  let ix ← gets (·.obj.num)
  arraySetsize (s32 (ix + 1))
  let a ← gets (·.obj)
  let v ← derefPtr a.v
  let v ← storePtr v ix guy
  modify fun s => { s with obj := { s.obj with v := some v } }

/-- `array_remove`. -/
def arrayRemove (index : ℤ) : M α Unit := do
  let a ← gets (·.obj)
  require (a.num ≤ a.max) "Assertion failed: a->num <= a->max"
  require (0 ≤ index ∧ index < a.num) "Assertion failed: index >=0 && index < a->num"
  let nmove := s32 (a.num - (index + 1))
  let v ← movePtrs a.v index (index + 1) nmove
  modify fun s => { s with obj := { s.obj with v := v, num := s32 (a.num - 1) } }

/-! ## The list in an array -/

/-- The slots of the block; a null pointer has none. -/
def slots (a : ArrayRec α) : List α := a.v.getD []

/-- The capacity is the length of the block, and the guys fit into it. -/
structure InRange (a : ArrayRec α) : Prop where
  num_nonneg : 0 ≤ a.num
  num_le : a.num ≤ a.max
  length : (a.slots.length : ℤ) = a.max

/-- The array stands for the list `l`. -/
structure Represents (a : ArrayRec α) (l : List α) : Prop where
  inRange : a.InRange
  max_lt : a.max < 1073741824
  num : a.num = l.length
  guy : ∀ j < l.length, a.slots[j]? = l[j]?

section Specs

variable {a : ArrayRec α} {l : List α} {s : PtrAlloc (ArrayRec α) α}

/-- A block with at least one slot is not null. -/
theorem v_eq_some (h : 0 < a.slots.length) : a.v = some a.slots := by
  unfold slots at h ⊢
  cases hv : a.v with
  | none => simp [hv] at h
  | some v => rfl

theorem Represents.le_length (h : a.Represents l) : l.length ≤ a.slots.length := by
  have hle := h.inRange.num_le
  have hlen := h.inRange.length
  have hnum := h.num
  omega

theorem arrayGetguy_spec (h : s.obj.Represents l) {i : ℕ} {x : α} (hx : l[i]? = some x) :
    Meets (arrayGetguy i) (fun r s' => r = x ∧ s' = s) (fun _ _ => False) s := by
  obtain ⟨hi, -⟩ := List.getElem?_eq_some_iff.mp hx
  have hle := h.le_length
  have hnum := h.num
  have hslot : s.obj.slots[(i : ℤ).toNat]? = some x := by
    rw [Int.toNat_natCast, h.guy i hi, hx]
  have hv := v_eq_some (a := s.obj) (by omega)
  simp only [arrayGetguy, meets_bind, meets_gets, meets_require, hv, derefPtr, meets_pure,
    meets_loadPtr (Int.natCast_nonneg i) hslot]
  exact ⟨h.inRange.num_le, by omega, trivial, trivial⟩

/-- The new capacity is large enough and has not overflowed. -/
theorem growMax_spec {nguys newmax : ℤ} {fuel : ℕ} (h0 : 0 ≤ newmax) (hlt : newmax < 1073741824)
    (hn : nguys < 536870912) (hfuel : nguys < (newmax + 1) * 2 ^ fuel) :
    Meets (growMax nguys (fuel + 1) newmax)
      (fun m s' => newmax ≤ m ∧ nguys ≤ m ∧ m < 1073741824 ∧ s' = s) (fun _ _ => False) s := by
  induction fuel generalizing newmax with
  | zero =>
    rw [growMax, if_neg (by omega), meets_pure]
    exact ⟨le_rfl, by omega, hlt, rfl⟩
  | succ fuel ih =>
    rw [growMax, meets_ite]
    constructor
    · intro hless
      have hdouble : s32 (s32 (newmax + 1) * 2) = (newmax + 1) * 2 := by
        rw [s32_of_range (x := newmax + 1) (by omega) (by omega), s32_of_range (by omega) (by omega)]
      rw [hdouble]
      refine (ih (by omega) (by omega) ?_).imp ?_
      · calc nguys < (newmax + 1) * 2 ^ (fuel + 1) := hfuel
          _ = (newmax + 1) * 2 * 2 ^ fuel := by ring
          _ ≤ ((newmax + 1) * 2 + 1) * 2 ^ fuel := by gcongr; omega
      · rintro m s' ⟨hm, hrest⟩
        exact ⟨by omega, hrest⟩
    · intro hge
      exact ⟨le_rfl, by omega, hlt, rfl⟩

/-- The loop copies the slots from `i` on. -/
theorem copyLoop_spec {v : Option (List α)} {n i : ℕ} {newv : List α}
    (hold : i + n ≤ (v.getD []).length) (hnew : i + n ≤ newv.length) :
    Meets (copyLoop v n i newv)
      (fun w s' => s' = s ∧ w.length = newv.length ∧ ∀ j, w[j]? =
        if i ≤ j ∧ j < i + n then (v.getD [])[j]? else newv[j]?)
      (fun _ _ => False) s := by
  induction n generalizing i newv with
  | zero =>
    refine ⟨rfl, rfl, fun j => ?_⟩
    rw [if_neg (by omega)]
  | succ n ih =>
    cases v with
    | none =>
      simp only [Option.getD_none, List.length_nil] at hold
      omega
    | some l =>
      simp only [Option.getD_some] at hold ih ⊢
      have hguy : l[(i : ℤ).toNat]? = some (l.get ⟨i, by omega⟩) := by
        rw [Int.toNat_natCast, List.getElem?_eq_getElem (by omega)]
        rfl
      have hi : (i : ℤ) < newv.length := by omega
      simp only [copyLoop, derefPtr, meets_bind, meets_pure,
        meets_loadPtr (Int.natCast_nonneg i) hguy, meets_storePtr (Int.natCast_nonneg i) hi]
      have hnext : i + 1 + n ≤ (newv.set i (l.get ⟨i, by omega⟩)).length := by
        rw [List.length_set]
        omega
      refine (ih (by omega) hnext).imp ?_
      rintro w s' ⟨rfl, hlen, hw⟩
      refine ⟨rfl, hlen.trans (List.length_set ..), fun j => ?_⟩
      rw [hw j, List.getElem?_set]
      by_cases hj : i = j
      · subst hj
        rw [if_neg (by omega), if_pos rfl, if_pos (by omega), if_pos (by omega),
          List.getElem?_eq_getElem (by omega)]
        rfl
      · rw [if_neg hj]
        by_cases hin : i + 1 ≤ j ∧ j < i + 1 + n
        · rw [if_pos hin, if_pos (by omega)]
        · rw [if_neg hin, if_neg (by omega)]

/-- `array_preallocate` keeps the list and makes room, or leaves the array as it was. -/
theorem arrayPreallocate_spec (h : s.obj.Represents l) {nguys : ℤ} (hn : nguys < 536870912) :
    Meets (arrayPreallocate nguys)
      (fun _ s' => s'.obj.Represents l ∧ nguys ≤ s'.obj.max ∧ s'.obj.num = s.obj.num)
      (fun e s' => e = .ENOMEM ∧ s'.obj = s.obj) s := by
  obtain ⟨h0, hle, hlen⟩ := h.inRange
  have hnum := h.num
  have hfuel : nguys < (s.obj.max + 1) * 2 ^ 31 := by omega
  simp only [arrayPreallocate, meets_bind, meets_gets, meets_require]
  refine ⟨⟨h0, hle⟩, (growMax_spec (by omega) h.max_lt hn hfuel).noErr ?_⟩
  rintro newmax t ⟨hge, hbig, hlt, rfl⟩
  refine (kmallocPtrs_spec (by omega) hlt t).noErr ?_
  rintro r s₁ ⟨hobj, hblock⟩
  cases r with
  | none => exact ⟨rfl, hobj⟩
  | some newv =>
    have hnewv := hblock newv rfl
    have hfrom : 0 + t.obj.num.toNat ≤ t.obj.slots.length := by omega
    have hto : 0 + t.obj.num.toNat ≤ newv.length := by omega
    have hcopy := copyLoop_spec (s := s₁) (v := t.obj.v) hfrom hto
    rw [Nat.cast_zero] at hcopy
    simp only [meets_bind]
    refine hcopy.noErr ?_
    rintro w s₂ ⟨rfl, hwlen, hw⟩
    rw [meets_modify, hobj]
    refine ⟨⟨⟨h0, by show t.obj.num ≤ newmax; omega, ?_⟩, hlt, hnum, fun j hj => ?_⟩, hbig, rfl⟩
    · show (w.length : ℤ) = newmax
      omega
    · show w[j]? = l[j]?
      rw [hw j, if_pos (by omega)]
      exact h.guy j hj

/-- `array_setsize` keeps the common prefix. Only growth can fail, and then the array is as it
was. -/
theorem arraySetsize_spec (h : s.obj.Represents l) {n : ℕ} (hn : n < 536870912) :
    Meets (arraySetsize n)
      (fun _ s' => ∃ l', l'.length = n ∧ (∀ j, j < n → j < l.length → l'[j]? = l[j]?) ∧
        s'.obj.Represents l')
      (fun e s' => e = .ENOMEM ∧ l.length < n ∧ s'.obj = s.obj) s := by
  obtain ⟨h0, hle, hlen⟩ := h.inRange
  have hnum := h.num
  -- What is left to do once the capacity is right.
  have hcut : ∀ {b : ArrayRec α}, b.Represents l → (n : ℤ) ≤ b.max →
      ∃ l', l'.length = n ∧ (∀ j, j < n → j < l.length → l'[j]? = l[j]?) ∧
        Represents { b with num := n } l' := by
    intro b hb hroom
    have hblen := hb.inRange.length
    have hlength : (b.slots.take n).length = n := by
      rw [List.length_take]
      omega
    refine ⟨b.slots.take n, hlength, fun j hj hjl => ?_, ⟨Int.natCast_nonneg n, hroom, hblen⟩,
      hb.max_lt, by rw [hlength], fun j hj => ?_⟩
    · rw [List.getElem?_take, if_pos hj, hb.guy j hjl]
    · rw [hlength] at hj
      rw [List.getElem?_take, if_pos hj]
      rfl
  simp only [arraySetsize, meets_bind, meets_gets, meets_require, meets_ite, meets_modify]
  refine ⟨⟨h0, hle⟩, fun hgrow => ?_, fun hfits => ⟨fun hzero => ?_, fun _ => ?_⟩⟩
  · refine (arrayPreallocate_spec h (by omega)).mono ?_ ?_
    · rintro _ s' ⟨h', hmax, -⟩
      exact hcut h' hmax
    · rintro e s' ⟨rfl, hobj⟩
      exact ⟨rfl, by omega, hobj⟩
  · have hv := v_eq_some (a := s.obj) (by omega)
    obtain rfl : n = 0 := by omega
    refine ⟨by rw [hv]; rfl, [], rfl, fun j hj => absurd hj (by omega), ⟨le_rfl, le_rfl, rfl⟩, ?_, rfl,
      fun j hj => absurd hj (by simp)⟩
    norm_num
  · exact hcut h (by omega)

theorem arraySetguy_spec (h : s.obj.Represents l) {i : ℕ} (hi : i < l.length) (x : α) :
    Meets (arraySetguy i x) (fun _ s' => s'.obj.Represents (l.set i x)) (fun _ _ => False) s := by
  have hle := h.le_length
  have hnum := h.num
  obtain ⟨h0, hmax, hlen⟩ := h.inRange
  have hv := v_eq_some (a := s.obj) (by omega)
  have hslot : (i : ℤ) < s.obj.slots.length := by omega
  simp only [arraySetguy, meets_bind, meets_gets, meets_require, hv, derefPtr, meets_pure,
    meets_storePtr (Int.natCast_nonneg i) hslot, meets_modify, Int.toNat_natCast]
  refine ⟨hmax, by omega, ⟨h0, hmax, ?_⟩, h.max_lt, ?_, fun j hj => ?_⟩
  · show ((s.obj.slots.set i x).length : ℤ) = s.obj.max
    rw [List.length_set]
    exact hlen
  · rw [List.length_set]
    exact hnum
  · rw [List.length_set] at hj
    show (s.obj.slots.set i x)[j]? = (l.set i x)[j]?
    rw [List.getElem?_set, List.getElem?_set, h.guy j hj, if_pos (hi.trans_le hle), if_pos hi]

theorem arrayAdd_spec (h : s.obj.Represents l) (hlen : l.length + 1 < 536870912) (x : α) :
    Meets (arrayAdd x) (fun _ s' => s'.obj.Represents (l ++ [x]))
      (fun e s' => e = .ENOMEM ∧ s'.obj = s.obj) s := by
  have hnum := h.num
  have hnext : s32 (s.obj.num + 1) = ((l.length + 1 : ℕ) : ℤ) := by
    rw [hnum, s32_of_range (by omega) (by omega)]
    push_cast
    rfl
  simp only [arrayAdd, meets_bind, meets_gets, hnext]
  refine (arraySetsize_spec h hlen).mono ?_ fun e s' he => ⟨he.1, he.2.2⟩
  rintro _ s' ⟨l', hl', hsame, h'⟩
  obtain ⟨h0, hmax, hlen'⟩ := h'.inRange
  have hle := h'.le_length
  have hnum' := h'.num
  have hv := v_eq_some (a := s'.obj) (by omega)
  have hslot : (l.length : ℤ) < s'.obj.slots.length := by omega
  simp only [hnum, hv, derefPtr, meets_pure, meets_storePtr (Int.natCast_nonneg _) hslot,
    meets_modify, Int.toNat_natCast]
  refine ⟨⟨h0, hmax, ?_⟩, h'.max_lt, ?_, fun j hj => ?_⟩
  · show ((s'.obj.slots.set l.length x).length : ℤ) = s'.obj.max
    rw [List.length_set]
    exact hlen'
  · rw [List.length_append, List.length_singleton]
    exact hnum'.trans (by rw [hl'])
  · rw [List.length_append, List.length_singleton] at hj
    show (s'.obj.slots.set l.length x)[j]? = (l ++ [x])[j]?
    rw [List.getElem?_set]
    rcases Nat.lt_succ_iff_lt_or_eq.mp hj with hlt | rfl
    · rw [if_neg (by omega), h'.guy j (by omega), hsame j (by omega) hlt,
        List.getElem?_append_left hlt]
    · rw [if_pos rfl, if_pos (by omega), List.getElem?_concat_length]

theorem arrayRemove_spec (h : s.obj.Represents l) {i : ℕ} (hi : i < l.length) :
    Meets (arrayRemove i) (fun _ s' => s'.obj.Represents (l.eraseIdx i)) (fun _ _ => False) s := by
  have hle := h.le_length
  have hnum := h.num
  have hlt := h.max_lt
  obtain ⟨h0, hmax, hlen⟩ := h.inRange
  have hmove : s32 (s.obj.num - ((i : ℤ) + 1)) = ((l.length - (i + 1) : ℕ) : ℤ) := by
    rw [s32_of_range (by omega) (by omega)]
    omega
  have hless : s32 (s.obj.num - 1) = ((l.length - 1 : ℕ) : ℤ) := by
    rw [s32_of_range (by omega) (by omega)]
    omega
  have hlength : (l.eraseIdx i).length = l.length - 1 := by
    rw [List.length_eraseIdx, if_pos hi]
  have hspec : Meets (movePtrs s.obj.v i ((i + 1 : ℕ) : ℤ) ((l.length - (i + 1) : ℕ) : ℤ)) _ _ s _ :=
    movePtrs_spec (E := fun (_ : Errno) (_ : PtrAlloc (ArrayRec α) α) => False)
      (H := fun _ => False) (by omega)
      (show i + (l.length - (i + 1)) ≤ s.obj.slots.length by omega)
      (show i + 1 + (l.length - (i + 1)) ≤ s.obj.slots.length by omega)
  simp only [arrayRemove, meets_bind, meets_gets, meets_require, hmove, hless, meets_modify]
  refine ⟨hmax, by omega, hspec.imp ?_⟩
  rintro v t ⟨rfl, hvlen, hv⟩
  refine ⟨⟨Int.natCast_nonneg _, ?_, ?_⟩, hlt, ?_, fun j hj => ?_⟩
  · show ((l.length - 1 : ℕ) : ℤ) ≤ t.obj.max
    omega
  · show ((v.getD []).length : ℤ) = t.obj.max
    rw [hvlen]
    exact hlen
  · rw [hlength]
  · rw [hlength] at hj
    show (v.getD [])[j]? = (l.eraseIdx i)[j]?
    rw [hv j, List.getElem?_eraseIdx]
    by_cases hij : j < i
    · rw [if_neg (by omega), if_pos hij]
      exact h.guy j (by omega)
    · rw [if_pos (by omega), if_neg hij, show j - i + (i + 1) = j + 1 by omega]
      exact h.guy (j + 1) (by omega)

theorem arrayCreate_spec (s : PtrAlloc Unit α) :
    Meets arrayCreate (fun r _ => ∀ a, r = some a → a.Represents []) (fun _ _ => False) s := by
  simp only [arrayCreate, meets_bind]
  refine (kmallocPtrs_spec (by norm_num) (by norm_num) s).noErr ?_
  rintro r s₁ -
  cases r with
  | none =>
    intro a ha
    cases ha
  | some block =>
    intro a ha
    cases ha
    exact ⟨⟨le_rfl, le_rfl, rfl⟩, by norm_num, rfl, fun j hj => absurd hj (by simp)⟩

end Specs

end ArrayRec

/-! ## A list of guys -/

/-- The operations on an array. -/
inductive ArrayOp (α : Type) where
  | add (guy : α)
  | setguy (index : ℤ) (ptr : α)
  | getguy (index : ℤ)
  | remove (index : ℤ)
  | setsize (nguys : ℤ)
  | preallocate (nguys : ℤ)

namespace ArrayOp

variable {α : Type}

/-- The call of the function. -/
def run : ArrayOp α → ArrayRec.M α (Option α)
  | add guy => do
    ArrayRec.arrayAdd guy
    return none
  | setguy index ptr => do
    ArrayRec.arraySetguy index ptr
    return none
  | getguy index => do
    let guy ← ArrayRec.arrayGetguy index
    return some guy
  | remove index => do
    ArrayRec.arrayRemove index
    return none
  | setsize nguys => do
    ArrayRec.arraySetsize nguys
    return none
  | preallocate nguys => do
    ArrayRec.arrayPreallocate nguys
    return none

/-- A list with access by index. The new elements of a list that is made longer are arbitrary.
Operations that need memory may fail and then do nothing; making a list shorter needs none. -/
def guys (α : Type) : DataType (ArrayOp α) (Option α) Errno (List α) where
  pre l
    | add _ => l.length + 1 < 536870912
    | setguy index _ | getguy index | remove index => 0 ≤ index ∧ index < l.length
    | setsize nguys => 0 ≤ nguys ∧ nguys < 536870912
    | preallocate nguys => nguys < 536870912
  post l op r l' :=
    match op with
    | add guy => r = .ok none ∧ l' = l ++ [guy] ∨ r = .error .ENOMEM ∧ l' = l
    | setguy index ptr => r = .ok none ∧ l' = l.set index.toNat ptr
    | getguy index => (∃ guy, r = .ok (some guy) ∧ l[index.toNat]? = some guy) ∧ l' = l
    | remove index => r = .ok none ∧ l' = l.eraseIdx index.toNat
    | setsize nguys =>
      r = .ok none ∧ (l'.length : ℤ) = nguys ∧
          l'.take (min l.length l'.length) = l.take (min l.length l'.length) ∨
        r = .error .ENOMEM ∧ (l.length : ℤ) < nguys ∧ l' = l
    | preallocate _ => (r = .ok none ∨ r = .error .ENOMEM) ∧ l' = l

/-- Lists that agree up to `n`. -/
theorem take_eq_take {l l' : List α} {n : ℕ} (h : ∀ j < n, l'[j]? = l[j]?) : l'.take n = l.take n := by
  apply List.ext_getElem?
  intro j
  rw [List.getElem?_take, List.getElem?_take]
  split
  · exact h j ‹_›
  · rfl

/-- One call. -/
theorem run_spec {s : PtrAlloc (ArrayRec α) α} {l : List α} (op : ArrayOp α)
    (h : s.obj.Represents l) (hpre : (guys α).pre l op) :
    Meets op.run
      (fun r s' => ∃ l', (guys α).post l op (.ok r) l' ∧ s'.obj.Represents l')
      (fun e s' => s'.obj = s.obj ∧
        ∃ l', (guys α).post l op (.error e) l' ∧ s'.obj.Represents l') s := by
  cases op with
  | add guy =>
    simp only [run, meets_bind, meets_pure]
    refine (ArrayRec.arrayAdd_spec h hpre guy).mono ?_ ?_
    · intro _ s' h'
      exact ⟨_, .inl ⟨rfl, rfl⟩, h'⟩
    · rintro e s' ⟨rfl, hobj⟩
      exact ⟨hobj, l, .inr ⟨rfl, rfl⟩, hobj ▸ h⟩
  | setguy index ptr =>
    obtain ⟨i, rfl⟩ := Int.eq_ofNat_of_zero_le hpre.1
    simp only [run, meets_bind, meets_pure]
    refine (ArrayRec.arraySetguy_spec h (Int.ofNat_lt.mp hpre.2) ptr).noErr ?_
    intro _ s' h'
    exact ⟨_, ⟨rfl, rfl⟩, h'⟩
  | getguy index =>
    obtain ⟨i, rfl⟩ := Int.eq_ofNat_of_zero_le hpre.1
    have hx := List.getElem?_eq_getElem (Int.ofNat_lt.mp hpre.2)
    simp only [run, meets_bind, meets_pure]
    refine (ArrayRec.arrayGetguy_spec h hx).noErr ?_
    rintro r s' ⟨rfl, rfl⟩
    exact ⟨l, ⟨⟨_, rfl, hx⟩, rfl⟩, h⟩
  | remove index =>
    obtain ⟨i, rfl⟩ := Int.eq_ofNat_of_zero_le hpre.1
    simp only [run, meets_bind, meets_pure]
    refine (ArrayRec.arrayRemove_spec h (Int.ofNat_lt.mp hpre.2)).noErr ?_
    intro _ s' h'
    exact ⟨_, ⟨rfl, rfl⟩, h'⟩
  | setsize nguys =>
    obtain ⟨n, rfl⟩ := Int.eq_ofNat_of_zero_le hpre.1
    simp only [run, meets_bind, meets_pure]
    refine (ArrayRec.arraySetsize_spec h (by have := hpre.2; omega)).mono ?_ ?_
    · rintro _ s' ⟨l', hlen, hsame, h'⟩
      refine ⟨l', .inl ⟨rfl, by rw [hlen], take_eq_take fun j hj => ?_⟩, h'⟩
      exact hsame j (by omega) (by omega)
    · rintro e s' ⟨rfl, hlt, hobj⟩
      exact ⟨hobj, l, .inr ⟨rfl, Int.ofNat_lt.mpr hlt, rfl⟩, hobj ▸ h⟩
  | preallocate nguys =>
    simp only [run, meets_bind, meets_pure]
    refine (ArrayRec.arrayPreallocate_spec h hpre).mono ?_ ?_
    · rintro _ s' ⟨h', -⟩
      exact ⟨l, ⟨.inl rfl, rfl⟩, h'⟩
    · rintro e s' ⟨rfl, hobj⟩
      exact ⟨hobj, l, ⟨.inr rfl, rfl⟩, hobj ▸ h⟩

end ArrayOp

/-- **The dynamic array refines a list.** An array that `array_create` has made does what a list
does, over every sequence of calls and whatever `kmalloc` answers: no call stops the machine by an
assertion or by an access outside the block, a call that fails leaves the array as it was, and in
every state the capacity is the length of the block and `num` the length of the list, which fits
into it. -/
theorem array_refines_guys {α : Type} (s : PtrAlloc Unit α) (ops : List (ArrayOp α)) :
    Meets ArrayRec.arrayCreate
      (fun r s' => ∀ a, r = some a →
        Conforms (ArrayOp.guys α) ArrayOp.run
          (fun t l => t.obj.InRange ∧ t.obj.num = l.length) (fun t t' => t'.obj = t.obj) ops
          ⟨a, s'.answers⟩ [])
      (fun _ _ => False) s := by
  refine (ArrayRec.arrayCreate_spec s).imp ?_
  intro r s' hnew a ha
  refine Conforms.of_step (R := fun t l => t.obj.Represents l) ?_ ?_ ops (hnew a ha)
  · intro t l h
    exact ⟨h.inRange, h.num⟩
  · intro t l op h hpre
    exact ArrayOp.run_spec op h hpre

end Os161
