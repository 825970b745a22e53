import Mathlib.Tactic

/-!
# Counting in lists under pointwise updates

Support for tables kept as lists: how `List.modify` moves the number of elements that satisfy a
test, and reading a modified list back.
-/

namespace List

variable {α : Type*} {p : α → Bool} {l : List α} {i j : ℕ} {a : α} {f : α → α}

/-- Modifying an element that passes the test into one that fails it lowers the count by one. -/
theorem countP_modify_of_true (hi : l[i]? = some a) (ha : p a = true) (hf : p (f a) = false) :
    (l.modify i f).countP p + 1 = l.countP p := by
  induction l generalizing i with
  | nil => simp at hi
  | cons x xs ih =>
    cases i with
    | zero =>
      simp only [getElem?_cons_zero, Option.some.injEq] at hi
      subst hi
      simp [ha, hf]
    | succ i =>
      simp only [getElem?_cons_succ] at hi
      simp only [modify_succ_cons, countP_cons]
      have hrec := ih hi
      omega

/-- Modifying an element that fails the test into one that passes it raises the count by one. -/
theorem countP_modify_of_false (hi : l[i]? = some a) (ha : p a = false) (hf : p (f a) = true) :
    (l.modify i f).countP p = l.countP p + 1 := by
  induction l generalizing i with
  | nil => simp at hi
  | cons x xs ih =>
    cases i with
    | zero =>
      simp only [getElem?_cons_zero, Option.some.injEq] at hi
      subst hi
      simp [ha, hf]
    | succ i =>
      simp only [getElem?_cons_succ] at hi
      simp only [modify_succ_cons, countP_cons]
      have hrec := ih hi
      omega

/-- A modification that does not change the test leaves the count alone. -/
theorem countP_modify_of_eq (hf : ∀ a, p (f a) = p a) : (l.modify i f).countP p = l.countP p := by
  induction l generalizing i with
  | nil => simp
  | cons x xs ih =>
    cases i with
    | zero => simp only [modify_zero_cons, countP_cons, hf]
    | succ i => simp only [modify_succ_cons, countP_cons, ih]

/-- If at most one position passes the test, all elements that pass it are equal. -/
theorem eq_of_countP_le_one [DecidableEq α] {b : α} (hle : l.countP p ≤ 1) (ha : a ∈ l)
    (hb : b ∈ l) (hpa : p a = true) (hpb : p b = true) : a = b := by
  rw [(perm_cons_erase ha).countP_eq, countP_cons, if_pos hpa] at hle
  have hzero : (l.erase a).countP p = 0 := by omega
  by_contra hne
  exact absurd hpb (countP_eq_zero.mp hzero b ((mem_erase_of_ne (Ne.symm hne)).mpr hb))

/-- Reading a modified list, as a map over what was there. -/
theorem getElem?_modify_map (f : α → α) (l : List α) (i j : ℕ) :
    (l.modify i f)[j]? = (l[j]?).map fun a => if i = j then f a else a := by
  rw [getElem?_modify]; rfl

/-- The parts of a concatenation without repetitions share no element. -/
theorem Nodup.eq_of_mem_flatMap {ι : Type} {l : List ι} {f : ι → List α}
    (h : (l.flatMap f).Nodup) {i j : ι} {x : α} (hi : i ∈ l) (hj : j ∈ l) (hxi : x ∈ f i)
    (hxj : x ∈ f j) : i = j := by
  by_contra hne
  have hsymm : Std.Symm (Function.onFun Disjoint f) := ⟨fun _ _ => Disjoint.symm⟩
  exact (nodup_flatMap.mp h).2.forall hi hj hne hxi hxj

/-- If one part of a concatenation grows by `d`, so does the concatenation. -/
theorem flatMap_perm_append {ι : Type} [DecidableEq ι] {l : List ι} (hnd : l.Nodup) {i : ι}
    (hi : i ∈ l) {f f' : ι → List α} {d : List α} (hd : (f' i).Perm (d ++ f i))
    (hne : ∀ j ∈ l, j ≠ i → f' j = f j) : (l.flatMap f').Perm (d ++ l.flatMap f) := by
  have hrest : (l.erase i).flatMap f' = (l.erase i).flatMap f := by
    refine flatMap_congr fun j hj => ?_
    obtain ⟨hji, hjl⟩ := hnd.mem_erase_iff.mp hj
    exact hne j hjl hji
  have hsplit : ∀ g : ι → List α, (l.flatMap g).Perm (g i ++ (l.erase i).flatMap g) :=
    fun g => (perm_cons_erase hi).flatMap_right g
  refine (hsplit f').trans ?_
  rw [hrest]
  refine (hd.append_right _).trans ?_
  rw [append_assoc]
  exact (hsplit f).symm.append_left d

end List
