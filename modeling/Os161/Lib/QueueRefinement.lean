import Mathlib.Tactic
import Os161.Common.Refinement
import Os161.Lib.Pointers
import Os161.Lib.Queue

/-!
# The ring queue in memory

Model of `kern/lib/queue.c` with its machine integers and with the block that holds the pointers:
sizes and indices are signed words, every access is to a block of the length that was allocated, and
`q_grow` calls `q_addtail`, which calls `q_grow`. The functions take the depth to which the calls
may nest; a depth of one is enough.

A queue in memory is a ring in the sense of `Lib.Queue` whose slots are those of the block
(`QueueRec.ring`), and the sequence in that ring is the list the queue stands for. The data type
`fifo` says what is to be expected of a queue, and `queue_refines_fifo` that this is what it does.
-/

namespace Os161

open Prog

/-- `struct queue`, with the block that `data` points to. -/
structure QueueRec (α : Type) where
  size : ℤ
  nextwrite : ℤ
  nextread : ℤ
  data : List α

namespace QueueRec

variable {α : Type}

/-- Programs that work on a queue in memory. -/
abbrev M (α β : Type) := Prog Errno (PtrAlloc (QueueRec α) α) β

/-! ## Functions -/

/-- The loop of `q_grow` that finds the new size. -/
def growSize (targetsize : ℤ) : (fuel : ℕ) → (nsize : ℤ) → M α ℤ
  | 0, _ => halt "q_grow: the loop over the size goes on"
  | fuel + 1, nsize =>
    if nsize < targetsize then do
      let nsize := s32 (nsize * 2)
      require (nsize > 0) "Assertion failed: nsize > 0"
      growSize targetsize fuel nsize
    else
      return nsize

/-- The loop of `q_grow` over the old ring, from its slot `i` on. -/
def growLoop (addtail : α → M α Unit) (old : QueueRec α) : (fuel : ℕ) → (i : ℤ) → M α Unit
  | 0, _ => halt "q_grow: the loop over the slots goes on"
  | fuel + 1, i =>
    if i ≠ old.nextwrite then do
      let ptr ← loadPtr old.data i
      let result ← attempt (addtail ptr)
      require (result.toBool = true) "Assertion failed: result==0"
      growLoop addtail old fuel ((s32 (i + 1)).tmod old.size)
    else
      return

/-- `q_grow`, which calls `addtail` for every pointer. -/
def qGrow (addtail : α → M α Unit) (targetsize : ℤ) : M α Unit := do
  let old ← gets (·.obj)
  let nsize ← growSize targetsize 32 old.size
  match ← kmallocPtrs nsize with
  | none => fail .ENOMEM
  | some ndata =>
    modify fun s => { s with obj := ⟨nsize, 0, 0, ndata⟩ }
    growLoop addtail old old.size.toNat old.nextread

/-- The end of `q_addtail`: write the slot and move on. -/
def qPut (ptr : α) (nextnext : ℤ) : M α Unit := do
  let q ← gets (·.obj)
  let data ← storePtr q.data q.nextwrite ptr
  modify fun s => { s with obj := { s.obj with data := data, nextwrite := nextnext } }

/-- `q_addtail`, which calls `grow` when the ring is full. -/
def qAddtailWith (grow : ℤ → M α Unit) (ptr : α) : M α Unit := do
  let q ← gets (·.obj)
  require (q.size > 0) "Assertion failed: q->size > 0"
  let nextnext := (s32 (q.nextwrite + 1)).tmod q.size
  if nextnext = q.nextread then
    grow (s32 (q.size + 1))
    let q ← gets (·.obj)
    qPut ptr ((s32 (q.nextwrite + 1)).tmod q.size)
  else
    qPut ptr nextnext

/-- `q_addtail`, with at most `depth` calls of `q_grow` inside each other. -/
def qAddtail : (depth : ℕ) → (ptr : α) → M α Unit
  | 0 => qAddtailWith fun _ => halt "q_addtail: too many calls"
  | depth + 1 => qAddtailWith (qGrow (qAddtail depth))

/-- `q_preallocate`. -/
def qPreallocate (depth : ℕ) (size : ℤ) : M α Unit := do
  let q ← gets (·.obj)
  require (q.size > 0) "Assertion failed: q->size > 0"
  if size > q.size then
    qGrow (qAddtail depth) size
  else
    return

/-- `q_empty`. -/
def qEmpty (q : QueueRec α) : Bool := q.nextwrite = q.nextread

/-- `q_remhead`. -/
def qRemhead : M α α := do
  let q ← gets (·.obj)
  require (q.size > 0) "Assertion failed: q->size > 0"
  require (q.qEmpty = false) "Assertion failed: !q_empty(q)"
  let ret ← loadPtr q.data q.nextread
  modify fun s => { s with obj := { s.obj with nextread := (s32 (q.nextread + 1)).tmod q.size } }
  return ret

/-- `q_create`: the queue, or nothing when one of the two calls of `kmalloc` returns null. -/
def qCreate (size : ℤ) : Prog Errno (PtrAlloc Unit α) (Option (QueueRec α)) := do
  match ← kmallocPtrs 4 with
  | none => return none
  | some _ =>
    match ← kmallocPtrs size with
    | none => return none
    | some data => return some ⟨size, 0, 0, data⟩

/-! ## The ring in a block -/

/-- The ring that the queue is, with the slots of the block. -/
def ring (q : QueueRec α) : KQueue (Option α) where
  size := q.size.toNat
  nextwrite := q.nextwrite.toNat
  nextread := q.nextread.toNat
  data := fun i => q.data[i]?

/-- The indices lie in the block, which has `size` slots. -/
structure InRange (q : QueueRec α) : Prop where
  read_nonneg : 0 ≤ q.nextread
  read_lt : q.nextread < q.size
  write_nonneg : 0 ≤ q.nextwrite
  write_lt : q.nextwrite < q.size
  length : (q.data.length : ℤ) = q.size

/-- The queue stands for the list `l`. -/
structure Represents (q : QueueRec α) (l : List α) : Prop where
  inRange : q.InRange
  size_lt : q.size < 1073741824
  toList : q.ring.toList = l.map some

variable {q : QueueRec α} {l : List α}

theorem InRange.ring (h : q.InRange) : q.ring.Ok := by
  obtain ⟨hr, hrs, hw, hws, -⟩ := h
  constructor
  · show q.nextread.toNat < q.size.toNat
    omega
  · show q.nextwrite.toNat < q.size.toNat
    omega

/-- A ring that has just been allocated is empty. -/
theorem represents_new {size : ℤ} {data : List α} (hpos : 0 < size) (hlt : size < 1073741824)
    (hlen : (data.length : ℤ) = size) : Represents ⟨size, 0, 0, data⟩ [] :=
  ⟨⟨le_rfl, hpos, le_rfl, hpos, hlen⟩, hlt, rfl⟩

theorem Represents.count (h : q.Represents l) : q.ring.count = l.length := by
  rw [← KQueue.length_toList, h.toList, List.length_map]

theorem Represents.length_lt (h : q.Represents l) : (l.length : ℤ) < q.size := by
  have hlt := h.inRange.ring.count_lt
  rw [h.count] at hlt
  change l.length < q.size.toNat at hlt
  omega

/-- One step of an index around the ring. -/
theorem next_eq {i n : ℤ} (h0 : 0 ≤ i) (hi : i < n) (hn : n < 1073741824) :
    (s32 (i + 1)).tmod n = (i + 1) % n := by
  rw [s32_of_range (by omega) (by omega), Int.tmod_eq_emod_of_nonneg (by omega)]

theorem next_toNat {i n : ℤ} (h0 : 0 ≤ i) (hi : i < n) (hn : n < 1073741824) :
    ((s32 (i + 1)).tmod n).toNat = (i.toNat + 1) % n.toNat := by
  rw [next_eq h0 hi hn, Int.toNat_emod (by omega) (by omega), Int.toNat_add h0 (by omega)]
  rfl

theorem next_range {i n : ℤ} (h0 : 0 ≤ i) (hi : i < n) (hn : n < 1073741824) :
    0 ≤ (s32 (i + 1)).tmod n ∧ (s32 (i + 1)).tmod n < n := by
  rw [next_eq h0 hi hn]
  exact ⟨Int.emod_nonneg _ (by omega), Int.emod_lt_of_pos _ (by omega)⟩

theorem Represents.full_iff (h : q.Represents l) :
    (s32 (q.nextwrite + 1)).tmod q.size = q.nextread ↔ (l.length : ℤ) + 1 = q.size := by
  obtain ⟨hr, hrs, hw, hws, -⟩ := h.inRange
  have hfull := h.inRange.ring.full_iff
  have hnext := next_range hw hws h.size_lt
  have hnat := next_toNat hw hws h.size_lt
  rw [h.count] at hfull
  change (q.nextwrite.toNat + 1) % q.size.toNat = q.nextread.toNat ↔ l.length + 1 = q.size.toNat
    at hfull
  rw [← hnat] at hfull
  omega

theorem Represents.empty_iff (h : q.Represents l) : q.qEmpty = true ↔ l = [] := by
  have hempty := h.inRange.ring.empty_iff
  have hr := h.inRange.read_nonneg
  have hw := h.inRange.write_nonneg
  rw [h.toList, List.map_eq_nil_iff] at hempty
  rw [← hempty, qEmpty, Os161.qEmpty, decide_eq_true_iff, decide_eq_true_iff]
  show q.nextwrite = q.nextread ↔ q.nextwrite.toNat = q.nextread.toNat
  omega

/-- Writing the next slot. -/
theorem ring_put (h : q.InRange) (hn : q.size < 1073741824) (x : α) :
    ring { q with
      data := q.data.set q.nextwrite.toNat x
      nextwrite := (s32 (q.nextwrite + 1)).tmod q.size } = q.ring.put (some x) := by
  have hw := h.write_nonneg
  have hlt : q.nextwrite.toNat < q.data.length := by
    have := h.write_lt
    have := h.length
    omega
  simp only [ring, KQueue.put, KQueue.mk.injEq, true_and]
  refine ⟨next_toNat hw h.write_lt hn, ?_⟩
  funext i
  rw [List.getElem?_set, Function.update_apply]
  by_cases hi : q.nextwrite.toNat = i
  · simp only [hi, if_true, if_pos (hi ▸ hlt)]
  · rw [if_neg hi, if_neg (Ne.symm hi)]

/-- Leaving out the first pointer. -/
theorem ring_drop (h : q.InRange) (hn : q.size < 1073741824) :
    ring { q with nextread := (s32 (q.nextread + 1)).tmod q.size } = q.ring.drop := by
  simp only [ring, KQueue.drop, KQueue.mk.injEq, true_and, and_true]
  exact next_toNat h.read_nonneg h.read_lt hn

theorem Represents.put (h : q.Represents l) (hroom : (l.length : ℤ) + 1 < q.size) (x : α) :
    Represents { q with
      data := q.data.set q.nextwrite.toNat x
      nextwrite := (s32 (q.nextwrite + 1)).tmod q.size } (l ++ [x]) := by
  obtain ⟨hr, hrs, hw, hws, hlen⟩ := h.inRange
  have hnext := next_range hw hws h.size_lt
  have hcount : q.ring.count + 1 < q.ring.size := by
    rw [h.count]
    show l.length + 1 < q.size.toNat
    omega
  refine ⟨⟨hr, hrs, hnext.1, hnext.2, ?_⟩, h.size_lt, ?_⟩
  · rw [List.length_set]
    exact hlen
  · rw [ring_put h.inRange h.size_lt, h.inRange.ring.toList_put hcount, h.toList, List.map_append,
      List.map_singleton]

/-- The first pointer of a queue that is not empty. -/
theorem Represents.drop {x : α} (h : q.Represents (x :: l)) :
    q.data[q.nextread.toNat]? = some x ∧
      Represents { q with nextread := (s32 (q.nextread + 1)).tmod q.size } l := by
  obtain ⟨hr, hrs, hw, hws, hlen⟩ := h.inRange
  have hnext := next_range hr hrs h.size_lt
  have hne : Os161.qEmpty q.ring = false := by
    rw [← Bool.not_eq_true, h.inRange.ring.empty_iff, h.toList]
    exact List.cons_ne_nil _ _
  have hcons := h.inRange.ring.toList_eq_cons hne
  rw [h.toList, List.map_cons, List.cons.injEq] at hcons
  refine ⟨hcons.1.symm, ⟨hnext.1, hnext.2, hw, hws, hlen⟩, h.size_lt, ?_⟩
  rw [ring_drop h.inRange h.size_lt]
  exact hcons.2.symm

/-! ## Specifications -/

section Specs

variable {s : PtrAlloc (QueueRec α) α}

/-- The new size is large enough and has not overflowed. -/
theorem growSize_spec {targetsize nsize : ℤ} {fuel : ℕ} (hpos : 0 < nsize)
    (hlt : nsize < 1073741824) (htarget : targetsize ≤ 536870912)
    (hfuel : targetsize ≤ nsize * 2 ^ fuel) :
    Meets (growSize targetsize (fuel + 1) nsize)
      (fun n s' => nsize ≤ n ∧ targetsize ≤ n ∧ n < 1073741824 ∧ s' = s) (fun _ _ => False) s := by
  induction fuel generalizing nsize with
  | zero =>
    rw [growSize, if_neg (by omega), meets_pure]
    exact ⟨le_rfl, by omega, hlt, rfl⟩
  | succ fuel ih =>
    rw [growSize, meets_ite]
    constructor
    · intro hless
      have hdouble : s32 (nsize * 2) = nsize * 2 := s32_of_range (by omega) (by omega)
      simp only [hdouble, meets_bind, meets_require]
      refine ⟨by omega, (ih (by omega) (by omega) ?_).imp ?_⟩
      · rw [mul_assoc, ← pow_succ']
        exact hfuel
      · rintro n s' ⟨hn, hrest⟩
        exact ⟨by omega, hrest⟩
    · intro hge
      exact ⟨le_rfl, not_lt.mp hge, hlt, rfl⟩

/-- `q_addtail` without growth, whatever `q_grow` would do. -/
theorem qAddtailWith_room {grow : ℤ → M α Unit} (h : s.obj.Represents l)
    (hroom : (l.length : ℤ) + 1 < s.obj.size) (x : α) :
    Meets (qAddtailWith grow x)
      (fun _ s' => s'.obj.Represents (l ++ [x]) ∧ s'.obj.size = s.obj.size) (fun _ _ => False) s := by
  have hlen := h.inRange.length
  have hws := h.inRange.write_lt
  have hw := h.inRange.write_nonneg
  have hnext : ¬ (s32 (s.obj.nextwrite + 1)).tmod s.obj.size = s.obj.nextread := by
    rw [h.full_iff]
    omega
  simp only [qAddtailWith, meets_bind, meets_gets, meets_require, if_neg hnext, qPut,
    meets_storePtr hw (hws.trans_eq hlen.symm), meets_modify]
  exact ⟨by omega, h.put hroom x, trivial⟩

/-- The loop appends the rest of the old queue to the new one. -/
theorem growLoop_spec {addtail : α → M α Unit} {old : QueueRec α} {i : ℤ} {rest : List α} {fuel : ℕ}
    (hadd : ∀ {s : PtrAlloc (QueueRec α) α} {l : List α}, s.obj.Represents l →
      (l.length : ℤ) + 1 < s.obj.size → ∀ x, Meets (addtail x)
        (fun _ s' => s'.obj.Represents (l ++ [x]) ∧ s'.obj.size = s.obj.size) (fun _ _ => False) s)
    (hold : Represents { old with nextread := i } rest) (h : s.obj.Represents l)
    (hroom : (l.length : ℤ) + rest.length < s.obj.size) (hfuel : rest.length < fuel) :
    Meets (growLoop addtail old fuel i)
      (fun _ s' => s'.obj.Represents (l ++ rest) ∧ s'.obj.size = s.obj.size)
      (fun _ _ => False) s := by
  induction rest generalizing s l i fuel with
  | nil =>
    obtain ⟨fuel, rfl⟩ : ∃ m, fuel = m + 1 := ⟨fuel - 1, by simp at hfuel; omega⟩
    have hend : i = old.nextwrite := by
      have hempty := hold.empty_iff.mpr rfl
      simpa [qEmpty, eq_comm] using hempty
    rw [growLoop, if_neg (not_not.mpr hend), meets_pure, List.append_nil]
    exact ⟨h, rfl⟩
  | cons x rest ih =>
    rw [List.length_cons] at hroom hfuel
    obtain ⟨fuel, rfl⟩ : ∃ m, fuel = m + 1 := ⟨fuel - 1, by omega⟩
    have hne : i ≠ old.nextwrite := by
      intro hend
      have hempty := hold.empty_iff.mp (by simp [qEmpty, hend])
      cases hempty
    obtain ⟨hx, hdrop⟩ := hold.drop
    rw [growLoop, if_pos hne]
    simp only [meets_bind, meets_loadPtr hold.inRange.read_nonneg hx, meets_attempt]
    refine (hadd h (by omega) x).noErr ?_
    rintro _ s₁ ⟨h₁, hsize⟩
    rw [meets_require]
    refine ⟨rfl, ?_⟩
    have hroom₁ : (((l ++ [x]).length : ℕ) : ℤ) + rest.length < s₁.obj.size := by
      rw [List.length_append, List.length_singleton, hsize]
      push_cast
      omega
    refine (ih hdrop h₁ hroom₁ (by omega)).imp ?_
    rintro _ s₂ ⟨h₂, hsize₂⟩
    rw [List.append_assoc] at h₂
    exact ⟨h₂, hsize₂.trans hsize⟩

/-- `q_grow` keeps the list and makes room, or leaves the queue as it was. -/
theorem qGrow_spec {addtail : α → M α Unit} {targetsize : ℤ}
    (hadd : ∀ {s : PtrAlloc (QueueRec α) α} {l : List α}, s.obj.Represents l →
      (l.length : ℤ) + 1 < s.obj.size → ∀ x, Meets (addtail x)
        (fun _ s' => s'.obj.Represents (l ++ [x]) ∧ s'.obj.size = s.obj.size) (fun _ _ => False) s)
    (h : s.obj.Represents l) (htarget : targetsize ≤ 536870912) :
    Meets (qGrow addtail targetsize)
      (fun _ s' => s'.obj.Represents l ∧ targetsize ≤ s'.obj.size)
      (fun e s' => e = .ENOMEM ∧ s'.obj = s.obj) s := by
  have hlen := h.length_lt
  have hfuel : targetsize ≤ s.obj.size * 2 ^ 31 := by omega
  simp only [qGrow, meets_bind, meets_gets]
  refine (growSize_spec (by omega) h.size_lt htarget hfuel).noErr ?_
  rintro nsize t ⟨hge, hbig, hlt, rfl⟩
  refine (kmallocPtrs_spec (by omega) hlt t).noErr ?_
  rintro r s₁ ⟨hobj, hblock⟩
  cases r with
  | none => exact ⟨rfl, hobj⟩
  | some ndata =>
    have hnew := represents_new (by omega) hlt (hblock ndata rfl)
    rw [meets_bind, meets_modify]
    refine (growLoop_spec hadd h (s := ⟨⟨nsize, 0, 0, ndata⟩, s₁.answers⟩) hnew ?_ ?_).noErr ?_
    · show ((0 : ℕ) : ℤ) + l.length < nsize
      omega
    · omega
    · rintro _ s₂ ⟨h₂, hsize⟩
      rw [List.nil_append] at h₂
      refine ⟨h₂, ?_⟩
      rw [hsize]
      exact hbig

/-- No call of `q_addtail` from `q_grow` calls `q_grow`. -/
theorem qAddtail_room (depth : ℕ) (h : s.obj.Represents l) (hroom : (l.length : ℤ) + 1 < s.obj.size)
    (x : α) :
    Meets (qAddtail depth x)
      (fun _ s' => s'.obj.Represents (l ++ [x]) ∧ s'.obj.size = s.obj.size) (fun _ _ => False) s := by
  cases depth with
  | zero => exact qAddtailWith_room h hroom x
  | succ depth => exact qAddtailWith_room h hroom x

theorem qAddtail_spec (depth : ℕ) (h : s.obj.Represents l) (hlen : l.length + 1 < 536870912) (x : α) :
    Meets (qAddtail (depth + 1) x) (fun _ s' => s'.obj.Represents (l ++ [x]))
      (fun e s' => e = .ENOMEM ∧ s'.obj = s.obj) s := by
  have hlt := h.length_lt
  by_cases hfull : (l.length : ℤ) + 1 = s.obj.size
  · have htarget : s32 (s.obj.size + 1) = s.obj.size + 1 := s32_of_range (by omega) (by omega)
    simp only [qAddtail, qAddtailWith, meets_bind, meets_gets, meets_require,
      if_pos (h.full_iff.mpr hfull), htarget]
    refine ⟨by omega, (qGrow_spec (qAddtail_room depth) h (by omega)).imp ?_⟩
    rintro _ s₁ ⟨h₁, hsize⟩
    have hws := h₁.inRange.write_lt.trans_eq h₁.inRange.length.symm
    simp only [qPut, meets_bind, meets_gets, meets_storePtr h₁.inRange.write_nonneg hws, meets_modify]
    exact h₁.put (by omega) x
  · exact (qAddtail_room (depth + 1) h (by omega) x).noErr fun _ s' h' => h'.1

theorem qPreallocate_spec (depth : ℕ) (h : s.obj.Represents l) {size : ℤ} (hsize : size < 536870912) :
    Meets (qPreallocate depth size) (fun _ s' => s'.obj.Represents l ∧ size ≤ s'.obj.size)
      (fun e s' => e = .ENOMEM ∧ s'.obj = s.obj) s := by
  have hlt := h.length_lt
  simp only [qPreallocate, meets_bind, meets_gets, meets_require, meets_ite, meets_pure]
  refine ⟨by omega, fun _ => ?_, fun hle => ⟨h, not_lt.mp hle⟩⟩
  exact qGrow_spec (qAddtail_room depth) h hsize.le

theorem qRemhead_spec {x : α} (h : s.obj.Represents (x :: l)) :
    Meets qRemhead (fun r s' => r = x ∧ s'.obj.Represents l) (fun _ _ => False) s := by
  have hlt := h.length_lt
  obtain ⟨hx, hdrop⟩ := h.drop
  have hne : s.obj.qEmpty = false := by
    rw [← Bool.not_eq_true, h.empty_iff]
    exact List.cons_ne_nil _ _
  simp only [qRemhead, meets_bind, meets_gets, meets_require,
    meets_loadPtr h.inRange.read_nonneg hx, meets_modify, meets_pure]
  exact ⟨by omega, hne, trivial, hdrop⟩

theorem qCreate_spec {size : ℤ} (h0 : 1 ≤ size) (hlt : size < 536870912) (s : PtrAlloc Unit α) :
    Meets (qCreate size) (fun r _ => ∀ q, r = some q → q.Represents []) (fun _ _ => False) s := by
  simp only [qCreate, meets_bind]
  refine (kmallocPtrs_spec (by norm_num) (by norm_num) s).noErr ?_
  rintro r s₁ -
  cases r with
  | none =>
    intro q hq
    cases hq
  | some block =>
    simp only [meets_bind]
    refine (kmallocPtrs_spec (by omega) (by omega) s₁).noErr ?_
    rintro r s₂ ⟨-, hblock⟩
    cases r with
    | none =>
      intro q hq
      cases hq
    | some data =>
      intro q hq
      cases hq
      exact represents_new (by omega) (by omega) (hblock data rfl)

end Specs

end QueueRec

/-! ## First in, first out -/

/-- The operations on a queue. -/
inductive QueueOp (α : Type) where
  | addtail (ptr : α)
  | remhead
  | preallocate (size : ℤ)

namespace QueueOp

variable {α : Type}

/-- The call of the function. -/
def run (depth : ℕ) : QueueOp α → QueueRec.M α (Option α)
  | addtail ptr => do
    QueueRec.qAddtail depth ptr
    return none
  | remhead => do
    let ptr ← QueueRec.qRemhead
    return some ptr
  | preallocate size => do
    QueueRec.qPreallocate depth size
    return none

/-- A list to which pointers are added at the end and from which they are taken at the head. Adding
and making room may fail for lack of memory and then do nothing. -/
def fifo (α : Type) : DataType (QueueOp α) (Option α) Errno (List α) where
  pre l
    | addtail _ => l.length + 1 < 536870912
    | remhead => l ≠ []
    | preallocate size => size < 536870912
  post l op r l' :=
    match op with
    | addtail ptr => r = .ok none ∧ l' = l ++ [ptr] ∨ r = .error .ENOMEM ∧ l' = l
    | remhead => ∃ ptr, r = .ok (some ptr) ∧ l = ptr :: l'
    | preallocate _ => (r = .ok none ∨ r = .error .ENOMEM) ∧ l' = l

/-- One call. -/
theorem run_spec (depth : ℕ) {s : PtrAlloc (QueueRec α) α} {l : List α} (op : QueueOp α)
    (h : s.obj.Represents l) (hpre : (fifo α).pre l op) :
    Meets (op.run (depth + 1))
      (fun r s' => ∃ l', (fifo α).post l op (.ok r) l' ∧ s'.obj.Represents l')
      (fun e s' => s'.obj = s.obj ∧
        ∃ l', (fifo α).post l op (.error e) l' ∧ s'.obj.Represents l') s := by
  cases op with
  | addtail ptr =>
    simp only [run, meets_bind, meets_pure]
    refine (QueueRec.qAddtail_spec depth h hpre ptr).mono ?_ ?_
    · intro _ s' h'
      exact ⟨_, .inl ⟨rfl, rfl⟩, h'⟩
    · rintro e s' ⟨rfl, hobj⟩
      exact ⟨hobj, l, .inr ⟨rfl, rfl⟩, hobj ▸ h⟩
  | remhead =>
    obtain ⟨ptr, rest, rfl⟩ := List.exists_cons_of_ne_nil hpre
    simp only [run, meets_bind, meets_pure]
    refine (QueueRec.qRemhead_spec h).noErr ?_
    rintro r s' ⟨rfl, h'⟩
    exact ⟨rest, ⟨r, rfl, rfl⟩, h'⟩
  | preallocate size =>
    simp only [run, meets_bind, meets_pure]
    refine (QueueRec.qPreallocate_spec (depth + 1) h hpre).mono ?_ ?_
    · rintro _ s' ⟨h', -⟩
      exact ⟨l, ⟨.inl rfl, rfl⟩, h'⟩
    · rintro e s' ⟨rfl, hobj⟩
      exact ⟨hobj, l, ⟨.inr rfl, rfl⟩, hobj ▸ h⟩

end QueueOp

/-- **The ring queue refines a list.** A queue that `q_create` has made does what a list does, over
every sequence of calls and whatever `kmalloc` answers: no call stops the machine by an assertion,
by an access outside the block or by calls of `q_grow` inside each other, a call that fails leaves
the queue as it was, and in every state the indices lie in the block and `q_empty` tells whether the
list is empty. -/
theorem queue_refines_fifo {α : Type} (depth : ℕ) {size : ℤ} (h0 : 1 ≤ size)
    (hlt : size < 536870912) (s : PtrAlloc Unit α) (ops : List (QueueOp α)) :
    Meets (QueueRec.qCreate size)
      (fun r s' => ∀ q, r = some q →
        Conforms (QueueOp.fifo α) (QueueOp.run (depth + 1))
          (fun t l => t.obj.InRange ∧ (t.obj.qEmpty = true ↔ l = []))
          (fun t t' => t'.obj = t.obj) ops ⟨q, s'.answers⟩ [])
      (fun _ _ => False) s := by
  refine (QueueRec.qCreate_spec h0 hlt s).imp ?_
  intro r s' hnew q hq
  refine Conforms.of_step (R := fun t l => t.obj.Represents l) ?_ ?_ ops (hnew q hq)
  · intro t l h
    exact ⟨h.inRange, h.empty_iff⟩
  · intro t l op h hpre
    exact QueueOp.run_spec depth op h hpre

/-- A queue of one slot, which grows when the first pointer is added. -/
theorem queue_refines_fifo_one :
    Meets (QueueRec.qCreate 1)
      (fun r s' => ∀ q, r = some q →
        Conforms (QueueOp.fifo ℕ) (QueueOp.run 1)
          (fun t l => t.obj.InRange ∧ (t.obj.qEmpty = true ↔ l = []))
          (fun t t' => t'.obj = t.obj) [.addtail 5, .addtail 6, .remhead, .preallocate 9, .remhead]
          ⟨q, s'.answers⟩ [])
      (fun _ _ => False) ⟨(), fun _ => some id⟩ :=
  queue_refines_fifo 0 (by norm_num) (by norm_num) _ _

end Os161
