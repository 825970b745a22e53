import Mathlib.Tactic
import Os161.Lib.Array

/-!
# Queues of pointers

Model of `kern/lib/queue.c`: a ring buffer that doubles when it is full. A ring of `size` slots
holds at most `size - 1` pointers, since a full ring would look like an empty one.

`q_grow` moves the pointers over with `q_addtail`, which calls `q_grow` when the ring is full. That
inner call never happens (`growLoop_spec`), so the model stops the machine there.
-/

namespace Os161

open Prog

/-- `struct queue`. -/
structure KQueue (α : Type) where
  size : ℕ
  nextwrite : ℕ
  nextread : ℕ
  data : ℕ → α

/-- Programs that work on a queue. -/
abbrev QueueM (α : Type) := Prog Errno (Alloc (KQueue α))

variable {α : Type}

/-! ## Functions -/

/-- `q_empty`. -/
def qEmpty (q : KQueue α) : Bool := q.nextwrite = q.nextread

/-- The end of `q_addtail`: write the slot and move on. -/
def qPut (ptr : α) (nextnext : ℕ) : QueueM α Unit := modify fun s => { s with obj := { s.obj with
  data := Function.update s.obj.data s.obj.nextwrite ptr
  nextwrite := nextnext } }

/-- The loop of `q_grow` that finds the new size. It ends within `targetsize` passes. -/
def growSize (targetsize : ℕ) : (fuel nsize : ℕ) → ℕ
  | 0, nsize => nsize
  | fuel + 1, nsize => if nsize < targetsize then growSize targetsize fuel (nsize * 2) else nsize

/-- The loop of `q_grow` that moves the pointers of the old ring, from its slot `i` on. -/
def growLoop (old : KQueue α) : (fuel i : ℕ) → QueueM α Unit
  | 0, _ => return
  | fuel + 1, i => do
    if i ≠ old.nextwrite then
      let s ← get
      let nextnext := (s.obj.nextwrite + 1) % s.obj.size
      require (nextnext ≠ s.obj.nextread) "q_grow: q_addtail calls q_grow"
      qPut (old.data i) nextnext
      growLoop old fuel ((i + 1) % old.size)

/-- `q_grow`. The slots of the new ring hold anything before they are written. -/
def qGrow (targetsize : ℕ) : QueueM α Unit := do
  let s ← get
  let nsize := growSize targetsize targetsize s.obj.size
  if ← kmallocFails then
    fail .ENOMEM
  else
    modify fun s => { s with obj := { s.obj with size := nsize, nextread := 0, nextwrite := 0 } }
    growLoop s.obj s.obj.size s.obj.nextread

/-- `q_preallocate`. -/
def qPreallocate (size : ℕ) : QueueM α Unit := do
  let s ← get
  require (s.obj.size > 0) "Assertion failed: q->size > 0"
  if size > s.obj.size then
    qGrow size

/-- `q_addtail`. -/
def qAddtail (ptr : α) : QueueM α Unit := do
  let s ← get
  require (s.obj.size > 0) "Assertion failed: q->size > 0"
  let nextnext := (s.obj.nextwrite + 1) % s.obj.size
  if nextnext = s.obj.nextread then
    qGrow (s.obj.size + 1)
    let s ← get
    qPut ptr ((s.obj.nextwrite + 1) % s.obj.size)
  else
    qPut ptr nextnext

/-- `q_remhead`. -/
def qRemhead : QueueM α α := do
  let s ← get
  require (s.obj.size > 0) "Assertion failed: q->size > 0"
  require (qEmpty s.obj = false) "Assertion failed: !q_empty(q)"
  modify fun s => { s with obj := { s.obj with
    nextread := (s.obj.nextread + 1) % s.obj.size } }
  return s.obj.data s.obj.nextread

/-! ## The sequence in a ring -/

namespace KQueue

/-- The indices lie in the ring. -/
structure Ok (q : KQueue α) : Prop where
  read_lt : q.nextread < q.size
  write_lt : q.nextwrite < q.size

/-- The number of pointers in the ring. -/
def count (q : KQueue α) : ℕ :=
  if q.nextread ≤ q.nextwrite then q.nextwrite - q.nextread
  else q.nextwrite + q.size - q.nextread

/-- The pointers of a queue, first the one to be read next. -/
def toList (q : KQueue α) : List α :=
  (List.range q.count).map fun i => q.data ((q.nextread + i) % q.size)

@[simp]
theorem length_toList (q : KQueue α) : q.toList.length = q.count := by
  rw [toList, List.length_map, List.length_range]

/-- One step around the ring. -/
theorem succ_mod {i n : ℕ} (hi : i < n) : (i + 1) % n = if i + 1 = n then 0 else i + 1 := by
  split
  case isTrue heq => rw [heq, Nat.mod_self]
  case isFalse hne => exact Nat.mod_eq_of_lt (by omega)

/-- Less than one turn around the ring. -/
theorem add_mod {i k n : ℕ} (hi : i < n) (hk : k < n) :
    (i + k) % n = if i + k < n then i + k else i + k - n := by
  split
  case isTrue hlt => exact Nat.mod_eq_of_lt hlt
  case isFalse hge =>
    rw [Nat.mod_eq_sub_mod (by omega)]
    exact Nat.mod_eq_of_lt (by omega)

variable {q : KQueue α}

theorem Ok.count_lt (h : q.Ok) : q.count < q.size := by
  have hr := h.read_lt
  have hw := h.write_lt
  unfold count
  split <;> omega

/-- The slot `count` steps from the first pointer is the one to be written next. -/
theorem Ok.write_eq (h : q.Ok) : q.nextwrite = (q.nextread + q.count) % q.size := by
  have hr := h.read_lt
  have hw := h.write_lt
  rw [add_mod hr h.count_lt]
  unfold count
  split <;> split <;> omega

theorem Ok.empty_iff (h : q.Ok) : qEmpty q = true ↔ q.toList = [] := by
  have hr := h.read_lt
  have hw := h.write_lt
  rw [qEmpty, decide_eq_true_iff, ← List.length_eq_zero_iff, length_toList]
  unfold count
  split <;> omega

/-- The ring looks full one pointer early. -/
theorem Ok.full_iff (h : q.Ok) : (q.nextwrite + 1) % q.size = q.nextread ↔ q.count + 1 = q.size := by
  have hr := h.read_lt
  have hw := h.write_lt
  rw [succ_mod hw]
  unfold count
  split <;> split <;> omega

/-- Writing the next slot. -/
def put (q : KQueue α) (x : α) : KQueue α :=
  { q with
    data := Function.update q.data q.nextwrite x
    nextwrite := (q.nextwrite + 1) % q.size }

theorem Ok.put (h : q.Ok) (x : α) : (q.put x).Ok :=
  ⟨h.read_lt, Nat.mod_lt _ (Nat.zero_lt_of_lt h.read_lt)⟩

theorem Ok.count_put (h : q.Ok) (hroom : q.count + 1 < q.size) (x : α) :
    (q.put x).count = q.count + 1 := by
  have hr := h.read_lt
  have hw := h.write_lt
  unfold count at hroom ⊢
  simp only [KQueue.put, succ_mod hw]
  split_ifs at hroom ⊢ <;> omega

theorem Ok.toList_put (h : q.Ok) (hroom : q.count + 1 < q.size) (x : α) :
    (q.put x).toList = q.toList ++ [x] := by
  have hr := h.read_lt
  rw [toList, h.count_put hroom, List.range_succ, List.map_append, List.map_singleton]
  congr 1
  · refine List.map_congr_left fun i hi => Function.update_of_ne ?_ _ _
    have hi := List.mem_range.mp hi
    rw [h.write_eq]
    show (q.nextread + i) % q.size ≠ (q.nextread + q.count) % q.size
    rw [add_mod hr (by omega), add_mod hr h.count_lt]
    split <;> split <;> omega
  · show [Function.update q.data q.nextwrite x ((q.nextread + q.count) % q.size)] = [x]
    rw [← h.write_eq, Function.update_self]

/-- Leaving out the first pointer. -/
def drop (q : KQueue α) : KQueue α := { q with nextread := (q.nextread + 1) % q.size }

theorem Ok.drop (h : q.Ok) : q.drop.Ok :=
  ⟨Nat.mod_lt _ (Nat.zero_lt_of_lt h.read_lt), h.write_lt⟩

theorem Ok.toList_eq_cons (h : q.Ok) (hne : qEmpty q = false) :
    q.toList = q.data q.nextread :: q.drop.toList := by
  have hr := h.read_lt
  have hw := h.write_lt
  have hne' : q.nextwrite ≠ q.nextread := by simpa [qEmpty] using hne
  have hcount : q.count = q.drop.count + 1 := by
    unfold count
    simp only [KQueue.drop, succ_mod hr]
    split_ifs <;> omega
  rw [toList, hcount, List.range_succ_eq_map, List.map_cons, List.map_map, Nat.add_zero,
    Nat.mod_eq_of_lt hr]
  congr 1
  refine List.map_congr_left fun i _ => ?_
  show q.data ((q.nextread + (i + 1)) % q.size) = q.data (((q.nextread + 1) % q.size + i) % q.size)
  rw [Nat.mod_add_mod, Nat.add_assoc, Nat.add_comm 1 i]

end KQueue

/-! ## Growth -/

theorem growSize_ge (targetsize fuel nsize : ℕ) : nsize ≤ growSize targetsize fuel nsize := by
  induction fuel generalizing nsize with
  | zero => exact le_rfl
  | succ fuel ih =>
    rw [growSize]
    split
    · exact le_trans (by omega) (ih _)
    · exact le_rfl

theorem le_growSize (targetsize fuel : ℕ) {nsize : ℕ} (hpos : 0 < nsize)
    (h : targetsize ≤ fuel + nsize) : targetsize ≤ growSize targetsize fuel nsize := by
  induction fuel generalizing nsize with
  | zero => simpa [growSize] using h
  | succ fuel ih =>
    rw [growSize]
    split
    · exact ih (by omega) (by omega)
    · omega

/-- Sizes double: a ring that starts with `2 ^ k * n` slots keeps a power of two times `n`. -/
theorem growSize_eq_pow (targetsize fuel nsize : ℕ) :
    ∃ k, growSize targetsize fuel nsize = nsize * 2 ^ k := by
  induction fuel generalizing nsize with
  | zero => exact ⟨0, by simp [growSize]⟩
  | succ fuel ih =>
    rw [growSize]
    split
    · obtain ⟨k, hk⟩ := ih (nsize * 2)
      exact ⟨k + 1, by rw [hk, pow_succ]; ring⟩
    · exact ⟨0, by simp⟩

section Specs

variable {s : Alloc (KQueue α)}

/-- The loop appends what is left of the old ring to the new one, in which there is room. -/
theorem growLoop_spec {old : KQueue α} {i fuel : ℕ} (hold : KQueue.Ok { old with nextread := i })
    (hs : s.obj.Ok) (hfuel : KQueue.count { old with nextread := i } ≤ fuel)
    (hroom : s.obj.count + KQueue.count { old with nextread := i } < s.obj.size) :
    Meets (growLoop old fuel i)
      (fun _ s' => s'.obj.Ok ∧ s'.obj.size = s.obj.size ∧ s'.nomem = s.nomem ∧
        s'.obj.toList = s.obj.toList ++ KQueue.toList { old with nextread := i })
      (fun _ _ => False) s := by
  induction fuel generalizing i s with
  | zero =>
    have hnil : KQueue.toList { old with nextread := i } = [] := by
      rw [← List.length_eq_zero_iff, KQueue.length_toList]
      omega
    rw [growLoop, meets_pure, hnil, List.append_nil]
    exact ⟨hs, rfl, rfl, rfl⟩
  | succ fuel ih =>
    cases hempty : qEmpty { old with nextread := i } with
    | true =>
      have heq : i = old.nextwrite := by simpa [qEmpty, eq_comm] using hempty
      rw [growLoop, if_neg (not_not.mpr heq), meets_pure, hold.empty_iff.mp hempty, List.append_nil]
      exact ⟨hs, rfl, rfl, rfl⟩
    | false =>
      have hne : i ≠ old.nextwrite := by
        intro heq
        simp [qEmpty, heq] at hempty
      have hcons := hold.toList_eq_cons hempty
      have hlen : KQueue.count { old with nextread := i } =
          KQueue.count { old with nextread := (i + 1) % old.size } + 1 := by
        rw [← KQueue.length_toList, hcons, List.length_cons, KQueue.length_toList]
        rfl
      have hput : s.obj.count + 1 < s.obj.size := by omega
      have hfull : (s.obj.nextwrite + 1) % s.obj.size ≠ s.obj.nextread := by
        rw [ne_eq, hs.full_iff]
        omega
      rw [growLoop, if_pos hne]
      simp only [qPut, meets_bind, meets_get, meets_require, meets_modify]
      refine ⟨hfull, ?_⟩
      have hdrop : KQueue.Ok { old with nextread := (i + 1) % old.size } := hold.drop
      refine (ih (s := { s with obj := s.obj.put (old.data i) }) hdrop (hs.put _)
        (by omega) ?_).imp ?_
      · rw [hs.count_put hput]
        show s.obj.count + 1 + _ < s.obj.size
        omega
      · rintro _ s' ⟨hok, hsize, hnomem, hlist⟩
        refine ⟨hok, hsize, hnomem, ?_⟩
        rw [hlist, hcons, hs.toList_put hput, List.append_assoc, List.singleton_append]
        rfl

/-- `q_grow` keeps the sequence. -/
theorem qGrow_spec (h : s.obj.Ok) (targetsize : ℕ) :
    Meets (qGrow targetsize)
      (fun _ s' => s'.obj.Ok ∧ s'.obj.size = growSize targetsize targetsize s.obj.size ∧
        s'.nomem = s.nomem.tail ∧ s'.obj.toList = s.obj.toList)
      (fun e s' => e = .ENOMEM ∧ s'.obj = s.obj ∧ s'.nomem = s.nomem.tail) s := by
  simp only [qGrow, kmallocFails, meets_bind, meets_get, meets_modify, meets_pure, meets_ite,
    meets_fail]
  refine ⟨fun _ => ⟨trivial, trivial, trivial⟩, fun _ => ?_⟩
  have hge := growSize_ge targetsize targetsize s.obj.size
  have hcount := h.count_lt
  have hnew : KQueue.Ok { s.obj with
      size := growSize targetsize targetsize s.obj.size, nextread := 0, nextwrite := 0 } :=
    ⟨(Nat.zero_le _).trans_lt (hcount.trans_le hge), (Nat.zero_le _).trans_lt (hcount.trans_le hge)⟩
  refine (growLoop_spec (s := ⟨_, _⟩) h hnew h.count_lt.le ?_).noErr ?_
  · show 0 + s.obj.count < growSize targetsize targetsize s.obj.size
    omega
  · rintro _ s' ⟨hok, hsize, hnomem, hlist⟩
    exact ⟨hok, hsize, hnomem, by rw [hlist]; rfl⟩

/-- `q_grow` succeeds only if `kmalloc` does. -/
theorem qGrow_answer (s : Alloc (KQueue α)) (targetsize : ℕ) :
    Meets (qGrow targetsize) (fun _ _ => s.nomem.headD false = false) (fun _ _ => True) s
      (fun _ => True) := by
  simp only [qGrow, kmallocFails, meets_bind, meets_get, meets_modify, meets_pure, meets_ite,
    meets_fail]
  refine ⟨fun _ => trivial, fun hgot => ?_⟩
  unfold Meets
  split
  · exact Bool.eq_false_of_not_eq_true hgot
  · trivial
  · trivial

/-- `q_preallocate`. -/
theorem qPreallocate_spec (h : s.obj.Ok) (size : ℕ) :
    Meets (qPreallocate size)
      (fun _ s' => s'.obj.Ok ∧ size ≤ s'.obj.size ∧ (∃ k, s'.obj.size = s.obj.size * 2 ^ k) ∧
        (size ≤ s.obj.size → s' = s) ∧ s'.obj.toList = s.obj.toList)
      (fun e s' => e = .ENOMEM ∧ s'.obj = s.obj) s := by
  have hpos := Nat.zero_lt_of_lt h.read_lt
  simp only [qPreallocate, meets_bind, meets_get, meets_require, meets_ite, meets_pure]
  refine ⟨hpos, fun hgt => ?_, fun hle => ?_⟩
  · refine (qGrow_spec h size).mono ?_ fun e s' he => ⟨he.1, he.2.1⟩
    rintro _ s' ⟨hok, hsize, -, hlist⟩
    rw [hsize]
    exact ⟨hok, le_growSize _ _ hpos (by omega), growSize_eq_pow _ _ _, fun hle => by omega, hlist⟩
  · exact ⟨h, by omega, ⟨0, by simp⟩, fun _ => trivial, trivial⟩

/-- What adding `x` does: when there is room, no memory is asked for. -/
structure KQueue.Added (s : Alloc (KQueue α)) (x : α) (s' : Alloc (KQueue α)) : Prop where
  ok : s'.obj.Ok
  toList : s'.obj.toList = s.obj.toList ++ [x]
  size : ∃ k, s'.obj.size = s.obj.size * 2 ^ k
  room : s.obj.count + 1 < s.obj.size → s'.obj.size = s.obj.size ∧ s'.nomem = s.nomem
  full : s.obj.count + 1 = s.obj.size → s'.nomem = s.nomem.tail

/-- `q_addtail` asks for memory exactly when the ring is full. -/
theorem qAddtail_spec (h : s.obj.Ok) (x : α) :
    Meets (qAddtail x) (fun _ s' => KQueue.Added s x s')
      (fun e s' => e = .ENOMEM ∧ s.obj.count + 1 = s.obj.size ∧ s'.obj = s.obj) s := by
  have hpos := Nat.zero_lt_of_lt h.read_lt
  have hlt := h.count_lt
  simp only [qAddtail, meets_bind, meets_get, meets_require, meets_ite]
  refine ⟨hpos, fun hfull => ?_, fun hroom => ?_⟩
  · rw [h.full_iff] at hfull
    refine (qGrow_spec h (s.obj.size + 1)).mono ?_ fun e s' he => ⟨he.1, hfull, he.2.1⟩
    rintro _ s₁ ⟨hok, hsize, hnomem, hlist⟩
    have hge := le_growSize (s.obj.size + 1) (s.obj.size + 1) hpos (by omega)
    have hcount : s₁.obj.count = s.obj.count := by
      rw [← KQueue.length_toList, hlist, KQueue.length_toList]
    have hput : s₁.obj.count + 1 < s₁.obj.size := by omega
    obtain ⟨k, hk⟩ := growSize_eq_pow (s.obj.size + 1) (s.obj.size + 1) s.obj.size
    refine ⟨hok.put x, ?_, ⟨k, hsize.trans hk⟩, fun hlt => by omega, fun _ => hnomem⟩
    exact (hok.toList_put hput x).trans (by rw [hlist])
  · rw [h.full_iff] at hroom
    exact ⟨h.put x, h.toList_put (by omega) x, ⟨0, by simp⟩, fun _ => ⟨rfl, rfl⟩,
      fun hfull => absurd hfull hroom⟩

theorem growLoop_nomem (old : KQueue α) (fuel i : ℕ) :
    Meets (growLoop old fuel i) (fun _ s' => s'.nomem = s.nomem) (fun _ _ => False) s
      (fun _ => True) := by
  induction fuel generalizing i s with
  | zero => rfl
  | succ fuel ih =>
    rw [growLoop, meets_ite]
    refine ⟨fun _ => ?_, fun _ => rfl⟩
    simp only [qPut, meets_bind, meets_get, meets_require_partial, meets_modify]
    exact fun _ => (ih _).imp fun _ _ hnomem => hnomem

/-- `q_addtail` fails only if `kmalloc` does. -/
theorem qAddtail_answer (s : Alloc (KQueue α)) (x : α) :
    Meets (qAddtail x) (fun _ s' => s'.nomem ⊆ s.nomem) (fun _ _ => true ∈ s.nomem) s
      (fun _ => True) := by
  simp only [qAddtail, qGrow, qPut, kmallocFails, meets_bind, meets_get, meets_require_partial,
    meets_ite, meets_modify, meets_pure, meets_fail]
  refine fun _ => ⟨fun _ => ⟨fun hnull => ?_, fun _ => ?_⟩, fun _ => List.Subset.refl _⟩
  · cases hanswers : s.nomem with
    | nil => simp [hanswers] at hnull
    | cons b rest =>
      obtain rfl : b = true := by simpa [hanswers] using hnull
      exact List.mem_cons_self
  · refine (growLoop_nomem _ _ _).noErr fun _ s' hnomem => ?_
    rw [hnomem]
    exact List.tail_subset _

end Specs

end Os161
