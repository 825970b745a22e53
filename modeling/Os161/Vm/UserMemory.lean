import Os161.Vm.Translation

/-!
# The memory of a process

The loads and stores of a process, through the TLB and `vm_fault`, reach a memory that holds bytes
(`machineMemory`): what a page holds before it is touched for the first time is zeros, and a fault
that is not served changes nothing.
-/

namespace Os161

open Prog

/-- The byte at an address. A page that is not there reads as zeros. -/
def Pages.byte (v : Pages) (x : ℕ) : ℕ :=
  ((v (x / 2 ^ 22) (x / 2 ^ 12 % 2 ^ 10)).map fun c => c (x % pageSize)).getD 0

/-- Touching a page does not change its bytes. -/
theorem Pages.byte_touch (v : Pages) (i j : ℕ) : (v.touch i j).byte = v.byte := by
  funext x
  rw [Pages.byte, Pages.byte]
  cases h : v i j with
  | none =>
    rw [Pages.touch_of_none h]
    by_cases heq : x / 2 ^ 22 = i ∧ x / 2 ^ 12 % 2 ^ 10 = j
    · obtain ⟨rfl, rfl⟩ := heq
      rw [Pages.set_same, h]
      rfl
    · rw [Pages.set_of_ne heq]
  | some c => rw [Pages.touch_of_ne_none (h ▸ Option.some_ne_none c)]

/-- Writing a page removes none. -/
theorem Pages.set_ne_none {v : Pages} {i j i' j' : ℕ} (h : v i' j' ≠ none) (c : ℕ → ℕ) :
    v.set i j c i' j' ≠ none := by
  by_cases heq : i' = i ∧ j' = j
  · obtain ⟨rfl, rfl⟩ := heq
    rw [Pages.set_same]
    exact Option.some_ne_none c
  · rwa [Pages.set_of_ne heq]

namespace Aspace

variable {a : Aspace}

/-- The pages that the TLB holds are there. -/
def Present (a : Aspace) : Prop :=
  ∀ k p, a.tlb k = some p → a.pages (p / 2 ^ 22) (p / 2 ^ 12 % 2 ^ 10) ≠ none

theorem Present.hit (h : a.Present) {vaddr : ℕ} (hhit : a.hit vaddr = true) :
    a.pages (vaddr / 2 ^ 22) (vaddr / 2 ^ 12 % 2 ^ 10) ≠ none := by
  rw [Aspace.hit, List.any_eq_true] at hhit
  obtain ⟨k, -, hk⟩ := hhit
  obtain ⟨hi, hj, -⟩ := index_pageFrame vaddr
  have hpresent := h k _ (of_decide_eq_true hk)
  rwa [hi, hj] at hpresent

theorem touched_ne_none (a : Aspace) (vaddr : ℕ) :
    a.touched vaddr (vaddr / 2 ^ 22) (vaddr / 2 ^ 12 % 2 ^ 10) ≠ none := by
  rw [touched]
  cases h : a.pages (vaddr / 2 ^ 22) (vaddr / 2 ^ 12 % 2 ^ 10) with
  | none =>
    rw [Pages.touch_of_none h, Pages.set_same]
    exact Option.some_ne_none _
  | some c =>
    rw [Pages.touch_of_ne_none (h ▸ Option.some_ne_none c), h]
    exact Option.some_ne_none c

theorem touched_mono (a : Aspace) (vaddr : ℕ) {i j : ℕ} (h : a.pages i j ≠ none) :
    a.touched vaddr i j ≠ none := by
  rw [touched]
  cases hv : a.pages (vaddr / 2 ^ 22) (vaddr / 2 ^ 12 % 2 ^ 10) with
  | none =>
    rw [Pages.touch_of_none hv]
    exact Pages.set_ne_none h _
  | some c => rwa [Pages.touch_of_ne_none (hv ▸ Option.some_ne_none c)]

/-- An access changes no byte, and after it the page is there. -/
theorem access_spec (h : a.Present) (faulttype : ℤ) (vaddr : ℕ) :
    Meets (access faulttype vaddr)
      (fun _ a' => a'.Present ∧ a'.pages.byte = a.pages.byte ∧
        a'.pages (vaddr / 2 ^ 22) (vaddr / 2 ^ 12 % 2 ^ 10) ≠ none)
      (fun _ a' => a'.Present ∧ a'.pages.byte = a.pages.byte) a := by
  rw [access, meets_bind, meets_gets, meets_ite]
  refine ⟨fun hhit => ⟨h, rfl, h.hit hhit⟩, fun _ => ?_⟩
  rw [fault, meets_ite]
  refine ⟨fun _ => ?_, fun _ => ⟨h, rfl⟩⟩
  have htouched : Present { a with pages := a.touched vaddr } :=
    fun k p hk => a.touched_mono vaddr (h k p hk)
  have hbyte : (a.touched vaddr).byte = a.pages.byte := Pages.byte_touch ..
  simp only [meets_bind, meets_modify, meets_gets]
  split
  · exact ⟨htouched, hbyte⟩
  case h_2 slot _ =>
    refine ⟨fun k p hk => ?_, hbyte, a.touched_ne_none vaddr⟩
    dsimp only at hk ⊢
    by_cases heq : k = slot
    · subst heq
      rw [Function.update_self, Option.some.injEq] at hk
      obtain ⟨hi, hj, -⟩ := index_pageFrame vaddr
      rw [← hk, hi, hj]
      exact a.touched_ne_none vaddr
    · rw [Function.update_of_ne heq] at hk
      exact htouched k p hk

/-- A store to a page that is there changes one byte. -/
theorem byte_written {vaddr : ℕ} (h : a.pages (vaddr / 2 ^ 22) (vaddr / 2 ^ 12 % 2 ^ 10) ≠ none)
    (v : ℕ) : (a.written vaddr v).byte = Function.update a.pages.byte vaddr v := by
  obtain ⟨c, hc⟩ := Option.ne_none_iff_exists'.mp h
  funext x
  have hwritten : a.written vaddr v = a.pages.set (vaddr / 2 ^ 22) (vaddr / 2 ^ 12 % 2 ^ 10)
      (Function.update c (vaddr % pageSize) v) := by
    rw [written, hc]
  rw [hwritten, Pages.byte]
  by_cases hpage : x / 2 ^ 22 = vaddr / 2 ^ 22 ∧ x / 2 ^ 12 % 2 ^ 10 = vaddr / 2 ^ 12 % 2 ^ 10
  · rw [hpage.1, hpage.2, Pages.set_same]
    show Function.update c (vaddr % pageSize) v (x % pageSize) = _
    by_cases heq : x = vaddr
    · subst heq
      rw [Function.update_self, Function.update_self]
    · have hoff : x % pageSize ≠ vaddr % pageSize := by
        unfold pageSize
        omega
      rw [Function.update_of_ne hoff, Function.update_of_ne heq, Pages.byte, hpage.1, hpage.2, hc]
      rfl
  · have heq : x ≠ vaddr := by
      rintro rfl
      exact hpage ⟨rfl, rfl⟩
    rw [Pages.set_of_ne hpage, Function.update_of_ne heq]
    rfl

theorem written_ne_none (a : Aspace) (vaddr v : ℕ) {i j : ℕ} (h : a.pages i j ≠ none) :
    a.written vaddr v i j ≠ none := by
  rw [written]
  cases a.pages (vaddr / 2 ^ 22) (vaddr / 2 ^ 12 % 2 ^ 10) with
  | none => exact h
  | some c => exact Pages.set_ne_none h _

/-- The memory of a process. -/
def memory : Memory Aspace where
  mem := ⟨load, store⟩
  bytes a := a.pages.byte
  Inv := Present
  load_spec {a} vaddr h := by
    show Meets (load vaddr) _ _ _ _
    rw [load, meets_bind]
    refine (access_spec h vmFaultRead vaddr).partial_of.imp fun _ a' ⟨h', hbyte, _⟩ => ?_
    exact ⟨congrFun hbyte vaddr, h', hbyte⟩
  store_spec {a} vaddr v h := by
    show Meets (store vaddr v) _ _ _ _
    rw [store, meets_bind]
    refine (access_spec h vmFaultWrite vaddr).partial_of.imp fun _ a' ⟨h', hbyte, hpage⟩ => ?_
    rw [meets_modify]
    refine ⟨fun k p hk => a'.written_ne_none vaddr v (h' k p hk), ?_⟩
    show (a'.written vaddr v).byte = _
    rw [byte_written hpage, hbyte]

end Aspace

/-! ## The machine -/

section Machine

variable {base : ℕ} {L : List ℕ} {blocks : List KBlock} {as : ℕ}
  {others : ℕ → Pages × ℕ × ℕ × ℕ} {held : ℕ → ℕ} {s : VmSys} {a : Aspace}

end Machine

end Os161
