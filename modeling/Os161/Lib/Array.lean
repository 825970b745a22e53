import Mathlib.Tactic
import Os161.Machine.Basic

/-!
# Arrays of pointers

Model of `kern/lib/array.c`, with any type for the pointers. An array is a record of the number of
guys in it, the capacity of its vector and the vector itself, whose slots at and above `num` hold
whatever they held before. What `kmalloc` answers is not decided here: the state carries the answers
to come, so that a result about a function holds however `kmalloc` behaves.

`KArray.toList` is the sequence an array stands for. Each function is specified against it, and by
what it does to the capacity.
-/

namespace Os161

open Prog

/-! ## Allocation -/

/-- An object and the answers of the calls of `kmalloc` to come: `true` is the null pointer, and a
call past the end of the list gets its memory. -/
structure Alloc (σ : Type) where
  obj : σ
  nomem : List Bool

/-- A call of `kmalloc`: whether it returns the null pointer. -/
def kmallocFails {σ : Type} : Prog Errno (Alloc σ) Bool := do
  let s ← get
  modify fun s => { s with nomem := s.nomem.tail }
  return s.nomem.headD false

/-- `struct array`. The vector is null only while `max` is zero. -/
structure KArray (α : Type) where
  num : ℕ
  max : ℕ
  v : ℕ → α

/-- Programs that work on an array. -/
abbrev ArrayM (α : Type) := Prog Errno (Alloc (KArray α))

variable {α : Type}

/-! ## Functions -/

/-- `array_getguy`. -/
def arrayGetguy (index : ℕ) : ArrayM α α := do
  let s ← get
  require (s.obj.num ≤ s.obj.max) "Assertion failed: a->num <= a->max"
  require (index < s.obj.num) "Assertion failed: index >=0 && index < a->num"
  return s.obj.v index

/-- The loop of `array_preallocate` that finds the new capacity. It ends within `nguys` passes. -/
def growMax (nguys : ℕ) : (fuel newmax : ℕ) → ℕ
  | 0, newmax => newmax
  | fuel + 1, newmax => if nguys > newmax then growMax nguys fuel ((newmax + 1) * 2) else newmax

/-- `array_preallocate`. It allocates a new vector also when the old one is large enough. -/
def arrayPreallocate (nguys : ℕ) : ArrayM α Unit := do
  let s ← get
  require (s.obj.num ≤ s.obj.max) "Assertion failed: a->num >=0 && a->num <= a->max"
  let newmax := growMax nguys nguys s.obj.max
  if ← kmallocFails then
    fail .ENOMEM
  else
    modify fun s => { s with obj := { s.obj with max := newmax } }

/-- `array_setsize`. An array of more than 16 slots that becomes empty gives its vector back. -/
def arraySetsize (nguys : ℕ) : ArrayM α Unit := do
  let s ← get
  require (s.obj.num ≤ s.obj.max) "Assertion failed: a->num >=0 && a->num <= a->max"
  if nguys > s.obj.max then
    arrayPreallocate nguys
  else if nguys = 0 ∧ s.obj.max > 16 then
    modify fun s => { s with obj := { s.obj with max := 0 } }
  modify fun s => { s with obj := { s.obj with num := nguys } }

/-- `array_add`. -/
def arrayAdd (guy : α) : ArrayM α Unit := do
  let ix ← gets (·.obj.num)
  arraySetsize (ix + 1)
  modify fun s => { s with obj := { s.obj with v := Function.update s.obj.v ix guy } }

/-- `array_remove`: the guys above the index move down by one. -/
def arrayRemove (index : ℕ) : ArrayM α Unit := do
  let s ← get
  require (s.obj.num ≤ s.obj.max) "Assertion failed: a->num <= a->max"
  require (index < s.obj.num) "Assertion failed: index >=0 && index < a->num"
  modify fun s => { s with obj := { s.obj with
    v := fun i => if index ≤ i then s.obj.v (i + 1) else s.obj.v i
    num := s.obj.num - 1 } }

/-! ## The sequence in an array -/

/-- The guys of an array, in order. -/
def KArray.toList (a : KArray α) : List α := (List.range a.num).map a.v

@[simp]
theorem KArray.length_toList (a : KArray α) : a.toList.length = a.num := by
  rw [toList, List.length_map, List.length_range]

theorem KArray.getElem?_toList (a : KArray α) {i : ℕ} (hi : i < a.num) :
    a.toList[i]? = some (a.v i) := by
  rw [toList, List.getElem?_map, List.getElem?_range hi, Option.map_some]

theorem KArray.toList_push (a : KArray α) (x : α) (max : ℕ) :
    (KArray.mk (a.num + 1) max (Function.update a.v a.num x)).toList = a.toList ++ [x] := by
  simp only [toList, List.range_succ, List.map_append, List.map_singleton, Function.update_self]
  congr 1
  refine List.map_congr_left fun i hi => Function.update_of_ne ?_ _ _
  exact (List.mem_range.mp hi).ne

theorem KArray.toList_set (a : KArray α) (i : ℕ) (x : α) :
    ({ a with v := Function.update a.v i x } : KArray α).toList = a.toList.set i x := by
  apply List.ext_getElem?
  intro j
  rw [List.getElem?_set, length_toList]
  by_cases hj : j < a.num
  · rw [getElem?_toList { a with v := Function.update a.v i x } hj, getElem?_toList a hj]
    by_cases hij : i = j
    · subst hij
      simp only [Function.update_self, hj, if_true]
    · simp only [Function.update_of_ne (Ne.symm hij), hij, if_false]
  · have hnone : ∀ b : KArray α, b.num = a.num → b.toList[j]? = none := fun b hb =>
      List.getElem?_eq_none (by rw [length_toList, hb]; exact not_lt.mp hj)
    rw [hnone { a with v := Function.update a.v i x } rfl, hnone a rfl]
    split
    · rw [if_neg (by omega)]
    · rfl

theorem KArray.toList_remove (a : KArray α) {i : ℕ} (hi : i < a.num) (max : ℕ) :
    (KArray.mk (a.num - 1) max fun j => if i ≤ j then a.v (j + 1) else a.v j).toList =
      a.toList.eraseIdx i := by
  apply List.ext_getElem?
  intro j
  rw [List.getElem?_eraseIdx]
  by_cases hj : j < a.num - 1
  · have hmk := getElem?_toList
      (KArray.mk (a.num - 1) max fun j => if i ≤ j then a.v (j + 1) else a.v j) hj
    rw [hmk]
    split
    · rw [getElem?_toList a (by omega)]
      simp only [if_neg (show ¬ i ≤ j by omega)]
    · rw [getElem?_toList a (by omega)]
      simp only [if_pos (show i ≤ j by omega)]
  · rw [List.getElem?_eq_none (by rw [length_toList]; exact not_lt.mp hj)]
    split
    · rw [List.getElem?_eq_none (by rw [length_toList]; omega)]
    · rw [List.getElem?_eq_none (by rw [length_toList]; omega)]

/-! ## Specifications -/

/-- The capacity found is large enough. -/
theorem le_growMax (nguys fuel : ℕ) {newmax : ℕ} (h : nguys ≤ fuel + newmax) :
    nguys ≤ growMax nguys fuel newmax := by
  induction fuel generalizing newmax with
  | zero => simpa [growMax] using h
  | succ fuel ih =>
    rw [growMax]
    split
    · exact ih (by omega)
    · omega

/-- The capacity never shrinks here. -/
theorem growMax_ge (nguys fuel newmax : ℕ) : newmax ≤ growMax nguys fuel newmax := by
  induction fuel generalizing newmax with
  | zero => exact le_rfl
  | succ fuel ih =>
    rw [growMax]
    split
    · exact le_trans (by omega) (ih _)
    · exact le_rfl

section Specs

variable {s : Alloc (KArray α)}

theorem arrayGetguy_spec (h : s.obj.num ≤ s.obj.max) {index : ℕ} (hi : index < s.obj.num) :
    Meets (arrayGetguy index) (fun x s' => s.obj.toList[index]? = some x ∧ s' = s)
      (fun _ _ => False) s := by
  simp only [arrayGetguy, meets_bind, meets_get, meets_require, meets_pure]
  exact ⟨h, hi, s.obj.getElem?_toList hi, trivial⟩

/-- `array_preallocate` takes one answer of `kmalloc`. -/
theorem arrayPreallocate_spec (h : s.obj.num ≤ s.obj.max) (nguys : ℕ) :
    Meets (arrayPreallocate nguys)
      (fun _ s' => s'.obj = { s.obj with max := growMax nguys nguys s.obj.max } ∧
        s'.nomem = s.nomem.tail)
      (fun e s' => e = .ENOMEM ∧ s'.obj = s.obj ∧ s'.nomem = s.nomem.tail) s := by
  simp only [arrayPreallocate, kmallocFails, meets_bind, meets_get, meets_require, meets_modify,
    meets_pure, meets_ite, meets_fail]
  exact ⟨h, fun _ => ⟨trivial, trivial, trivial⟩, fun _ => ⟨trivial, trivial⟩⟩

/-- `array_preallocate` succeeds only if `kmalloc` does. -/
theorem arrayPreallocate_answer (s : Alloc (KArray α)) (nguys : ℕ) :
    Meets (arrayPreallocate nguys) (fun _ _ => s.nomem.headD false = false) (fun _ _ => True) s
      (fun _ => True) := by
  simp only [arrayPreallocate, kmallocFails, meets_bind, meets_get, meets_require_partial,
    meets_modify, meets_pure, meets_ite, meets_fail]
  exact fun _ => ⟨fun _ => trivial, fun hgot => Bool.eq_false_of_not_eq_true hgot⟩

/-- What adding `x` does: when there is room, no memory is asked for. -/
structure KArray.Added (s : Alloc (KArray α)) (x : α) (s' : Alloc (KArray α)) : Prop where
  toList : s'.obj.toList = s.obj.toList ++ [x]
  le : s'.obj.num ≤ s'.obj.max
  max_le : s.obj.max ≤ s'.obj.max
  grow : s'.obj.max = s.obj.max ∨
    s'.obj.max = growMax (s.obj.num + 1) (s.obj.num + 1) s.obj.max
  room : s.obj.num < s.obj.max → s'.obj.max = s.obj.max ∧ s'.nomem = s.nomem

theorem arrayAdd_spec (h : s.obj.num ≤ s.obj.max) (x : α) :
    Meets (arrayAdd x) (fun _ s' => KArray.Added s x s')
      (fun e s' => e = .ENOMEM ∧ s.obj.num = s.obj.max ∧ s'.obj = s.obj) s := by
  simp only [arrayAdd, arraySetsize, meets_bind, meets_gets, meets_get, meets_require, meets_ite,
    meets_modify]
  refine ⟨h, fun hgrow => ?_, fun hroom => ⟨fun hzero => absurd hzero.1 (by omega), fun _ => ?_⟩⟩
  · refine (arrayPreallocate_spec h _).mono ?_ ?_
    · rintro _ s' ⟨hobj, -⟩
      have hmax : s.obj.num + 1 ≤ growMax (s.obj.num + 1) (s.obj.num + 1) s.obj.max :=
        le_growMax _ _ (by omega)
      have hge := growMax_ge (s.obj.num + 1) (s.obj.num + 1) s.obj.max
      rw [hobj]
      exact ⟨KArray.toList_push _ _ _, hmax, hge, .inr rfl, fun hlt => by omega⟩
    · rintro e s' ⟨rfl, hobj, -⟩
      exact ⟨rfl, by omega, hobj⟩
  · exact ⟨KArray.toList_push _ _ _, not_lt.mp hroom, le_rfl, .inl rfl, fun _ => ⟨rfl, rfl⟩⟩

/-- What emptying an array does: the vector goes if it had more than 16 slots. -/
theorem arraySetsize_zero_spec (h : s.obj.num ≤ s.obj.max) :
    Meets (arraySetsize 0)
      (fun _ s' => s'.obj.toList = [] ∧ s'.obj.num = 0 ∧ s'.nomem = s.nomem ∧
        s'.obj.max = if s.obj.max > 16 then 0 else s.obj.max)
      (fun _ _ => False) s := by
  simp only [arraySetsize, meets_bind, meets_get, meets_require, meets_ite, meets_modify]
  refine ⟨h, fun hgt => absurd hgt (by omega), fun _ => ⟨fun hbig => ?_, fun hsmall => ?_⟩⟩
  · rw [if_pos hbig.2]
    exact ⟨rfl, trivial, trivial, rfl⟩
  · rw [if_neg fun hbig => hsmall ⟨trivial, hbig⟩]
    exact ⟨rfl, trivial, trivial, rfl⟩

theorem arrayRemove_spec (h : s.obj.num ≤ s.obj.max) {index : ℕ} (hi : index < s.obj.num) :
    Meets (arrayRemove index)
      (fun _ s' => s'.obj.toList = s.obj.toList.eraseIdx index ∧ s'.obj.num ≤ s'.obj.max ∧
        s'.obj.max = s.obj.max ∧ s'.nomem = s.nomem)
      (fun _ _ => False) s := by
  simp only [arrayRemove, meets_bind, meets_get, meets_require, meets_modify]
  exact ⟨h, hi, KArray.toList_remove _ hi _, by omega, trivial, trivial⟩

end Specs

end Os161
