import Mathlib.Tactic
import Os161.Common.Runs
import Os161.Machine.Basic

/-!
# Reference counts of the vnodes of a file system

The part of `kern/fs/vfs/vnode.c` that concurrent loads and releases of vnodes share: the table of
vnodes in memory, `vn_refcount` and `vn_countlock`. Beside them stand the references themselves, one
entry for every reference that a thread has obtained and not yet given up. The code has no such
list: it is what the counts are about.

A release that fails half way may give up a reference without taking it off the count.
`Counted lost` says that the counts are exact up to those: `lost v` references to `v` went that way.

Vnode structures are numbered in the order of their allocation.
-/

namespace Os161.Vfs

/-- A thread. -/
abbrev Thr := ℕ

/-- A `struct vnode`, by the order of allocation. -/
abbrev Vn := ℕ

instance lawfulBEq_ref : LawfulBEq (Thr × Vn) := inferInstance

/-- The vnodes of a file system. -/
structure Pool where
  /-- The table of the file system (`sfs_vnodes`, `ef_vnodes`). -/
  vnodes : List Vn
  /-- The inode number or handle of a vnode. -/
  key : Vn → ℕ
  /-- `vn_refcount`. -/
  refcount : Vn → ℕ
  /-- The owner of `vn_countlock`. -/
  countlock : Vn → Option Thr
  /-- The number of vnode structures allocated so far. -/
  created : ℕ
  /-- The references that threads have. -/
  refs : List (Thr × Vn)

namespace Pool

variable (p : Pool) (t : Thr) (v : Vn)

/-- A file system without vnodes in memory. -/
def empty : Pool := ⟨[], fun _ => 0, fun _ => 0, fun _ => none, 0, []⟩

/-- The number of references to `v`. -/
def refsTo : ℕ := p.refs.countP fun r => r.2 = v

/-- The linear search of the table. -/
def find (key : ℕ) : Option Vn := p.vnodes.find? fun v => p.key v = key

/-- `VOP_INIT` of a new vnode and `array_add`. -/
def insert (key : ℕ) : Pool :=
  { vnodes := p.vnodes ++ [p.created]
    key := Function.update p.key p.created key
    refcount := Function.update p.refcount p.created 1
    countlock := Function.update p.countlock p.created none
    created := p.created + 1
    refs := (t, p.created) :: p.refs }

/-- `vn_refcount++`. -/
def incr : Pool :=
  { p with refcount := Function.update p.refcount v (p.refcount v + 1), refs := (t, v) :: p.refs }

/-- `vn_refcount--`. -/
def decr : Pool :=
  { p with refcount := Function.update p.refcount v (p.refcount v - 1), refs := p.refs.erase (t, v) }

/-- A reference is given up, and the count stays. -/
def forget : Pool := { p with refs := p.refs.erase (t, v) }

/-- `array_remove`: the last reference goes with the vnode. -/
def remove : Pool := { p with vnodes := p.vnodes.erase v, refs := p.refs.erase (t, v) }

/-- `lock_acquire(vn_countlock)`, once it is free, and `lock_release(vn_countlock)`. -/
def setCountlock (owner : Option Thr) : Pool :=
  { p with countlock := Function.update p.countlock v owner }

variable {p t v}

theorem find_mem {key : ℕ} (h : p.find key = some v) : v ∈ p.vnodes ∧ p.key v = key :=
  ⟨List.mem_of_find?_eq_some h, by simpa using List.find?_some h⟩

theorem find_none {key : ℕ} (h : p.find key = none) : ∀ w ∈ p.vnodes, p.key w ≠ key := by
  simpa [find] using h

theorem refsTo_pos : 0 < p.refsTo v ↔ ∃ u, (u, v) ∈ p.refs := by
  simp [refsTo, List.countP_pos_iff]

theorem refsTo_insert (key : ℕ) (w : Vn) :
    (p.insert t key).refsTo w = p.refsTo w + if p.created = w then 1 else 0 := by
  simp [refsTo, insert, List.countP_cons]

theorem refsTo_incr (w : Vn) :
    (p.incr t v).refsTo w = p.refsTo w + if v = w then 1 else 0 := by
  simp [refsTo, incr, List.countP_cons]

theorem refsTo_forget (h : (t, v) ∈ p.refs) (w : Vn) :
    (p.forget t v).refsTo w = p.refsTo w - if v = w then 1 else 0 := by
  simp [refsTo, forget, List.countP_erase, h]

theorem mem_forget {r : Thr × Vn} (h : r ∈ p.refs) (hne : r ≠ (t, v)) : r ∈ (p.forget t v).refs :=
  (List.mem_erase_of_ne hne).mpr h

/-- If there is one reference, everybody who has one is its holder. -/
theorem eq_of_refsTo_one (h : p.refsTo v = 1) {u : Thr} (ht : (t, v) ∈ p.refs)
    (hu : (u, v) ∈ p.refs) : u = t := by
  by_contra hne
  have hmem : (u, v) ∈ (p.forget t v).refs := mem_forget hu fun heq => hne (congrArg Prod.fst heq)
  have hpos := refsTo_pos.mpr ⟨u, hmem⟩
  rw [refsTo_forget ht, if_pos rfl, h] at hpos
  exact absurd hpos (lt_irrefl 0)

/-! ## Exact counts -/

/-- Every vnode in the table has as many references as its count says, up to the lost ones, and
references are to vnodes in the table. -/
structure Counted (lost : Vn → ℕ) (p : Pool) : Prop where
  nodup : p.vnodes.Nodup
  lt : ∀ v ∈ p.vnodes, v < p.created
  count : ∀ v ∈ p.vnodes, p.refcount v = p.refsTo v + lost v
  pos : ∀ v ∈ p.vnodes, 0 < p.refcount v
  refs : ∀ r ∈ p.refs, r.2 ∈ p.vnodes
  fresh : ∀ v, p.created ≤ v → lost v = 0

variable {lost : Vn → ℕ}

theorem counted_empty : Counted (fun _ => 0) empty where
  nodup := List.nodup_nil
  lt := by simp [empty]
  count := by simp [empty]
  pos := by simp [empty]
  refs := by simp [empty]
  fresh := fun _ _ => rfl

namespace Counted

/-- A vnode that has not been allocated has no references. -/
theorem refsTo_created (h : Counted lost p) : p.refsTo p.created = 0 := by
  by_contra hne
  obtain ⟨u, hu⟩ := refsTo_pos.mp (Nat.pos_of_ne_zero hne)
  exact lt_irrefl _ (h.lt _ (h.refs _ hu))

theorem insert (h : Counted lost p) (t : Thr) (key : ℕ) : Counted lost (p.insert t key) where
  nodup := by
    have hnew : p.created ∉ p.vnodes := fun hmem => lt_irrefl _ (h.lt _ hmem)
    exact List.nodup_append.mpr ⟨h.nodup, List.nodup_singleton _, fun a ha b hb heq =>
      hnew (List.mem_singleton.mp hb ▸ heq ▸ ha)⟩
  lt := by
    intro v hv
    rcases List.mem_append.mp hv with hv | hv
    · exact (h.lt v hv).trans (Nat.lt_succ_self _)
    · exact List.mem_singleton.mp hv ▸ Nat.lt_succ_self _
  count := by
    intro v hv
    rw [refsTo_insert]
    rcases List.mem_append.mp hv with hv | hv
    · have hne : v ≠ p.created := (h.lt v hv).ne
      simp [Pool.insert, Function.update_of_ne hne, hne.symm, h.count v hv]
    · obtain rfl := List.mem_singleton.mp hv
      simp [Pool.insert, h.refsTo_created, h.fresh _ le_rfl]
  pos := by
    intro v hv
    rcases List.mem_append.mp hv with hv | hv
    · simpa [Pool.insert, Function.update_of_ne (h.lt v hv).ne] using h.pos v hv
    · simp [Pool.insert, List.mem_singleton.mp hv]
  refs := by
    intro r hr
    rcases List.mem_cons.mp hr with rfl | hr
    · exact List.mem_append_right _ (List.mem_singleton_self _)
    · exact List.mem_append_left _ (h.refs r hr)
  fresh := fun v hv => h.fresh v ((Nat.le_succ _).trans hv)

theorem incr (h : Counted lost p) (t : Thr) (hv : v ∈ p.vnodes) : Counted lost (p.incr t v) where
  nodup := h.nodup
  lt := h.lt
  count := by
    intro w hw
    have hcount := h.count w hw
    rw [refsTo_incr]
    by_cases hwv : w = v
    · subst hwv
      rw [if_pos rfl]
      simp only [Pool.incr, Function.update_self]
      omega
    · rw [if_neg (Ne.symm hwv), Nat.add_zero, ← hcount]
      exact Function.update_of_ne hwv _ _
  pos := by
    intro w hw
    by_cases hwv : w = v
    · simp [Pool.incr, hwv]
    · simpa [Pool.incr, Function.update_of_ne hwv] using h.pos w hw
  refs := by
    intro r hr
    rcases List.mem_cons.mp hr with rfl | hr
    · exact hv
    · exact h.refs r hr
  fresh := h.fresh

theorem decr (h : Counted lost p) (hr : (t, v) ∈ p.refs) (hcount : 1 < p.refcount v) :
    Counted lost (p.decr t v) where
  nodup := h.nodup
  lt := h.lt
  count := by
    intro w hw
    have hrefs : (p.decr t v).refsTo w = p.refsTo w - if v = w then 1 else 0 := refsTo_forget hr w
    have hold := h.count w hw
    by_cases hwv : w = v
    · subst hwv
      have hpos := refsTo_pos.mpr ⟨t, hr⟩
      rw [hrefs, if_pos rfl]
      simp only [Pool.decr, Function.update_self]
      omega
    · rw [hrefs, if_neg (Ne.symm hwv), Nat.sub_zero, ← hold]
      exact Function.update_of_ne hwv _ _
  pos := by
    intro w hw
    by_cases hwv : w = v
    · subst hwv
      simp only [Pool.decr, Function.update_self]
      omega
    · simpa [Pool.decr, Function.update_of_ne hwv] using h.pos w hw
  refs := fun r hr => h.refs r (List.mem_of_mem_erase hr)
  fresh := h.fresh

/-- A reference that is given up without the count is lost. -/
theorem forget (h : Counted lost p) (hr : (t, v) ∈ p.refs) :
    Counted (fun w => lost w + if v = w then 1 else 0) (p.forget t v) where
  nodup := h.nodup
  lt := h.lt
  count := by
    intro w hw
    have hold := h.count w hw
    rw [refsTo_forget hr]
    split
    case isTrue hvw =>
      have hpos := refsTo_pos.mpr ⟨t, hvw ▸ hr⟩
      show p.refcount w = _
      omega
    case isFalse => exact hold
  pos := h.pos
  refs := fun r hr => h.refs r (List.mem_of_mem_erase hr)
  fresh := by
    intro w hw
    have hlt : v < p.created := h.lt _ (h.refs _ hr)
    have hne : v ≠ w := (hlt.trans_le hw).ne
    rw [if_neg hne, Nat.add_zero]
    exact h.fresh w hw

/-- The holder of the only reference takes the vnode out of the table. -/
theorem remove (h : Counted lost p) (hr : (t, v) ∈ p.refs) (hone : p.refsTo v = 1) :
    Counted lost (p.remove t v) where
  nodup := h.nodup.erase v
  lt := fun w hw => h.lt w (List.mem_of_mem_erase hw)
  count := by
    intro w hw
    obtain ⟨hne, hw⟩ := (h.nodup.mem_erase_iff).mp hw
    have hrefs : (p.remove t v).refsTo w = p.refsTo w - if v = w then 1 else 0 := refsTo_forget hr w
    rw [hrefs, if_neg (Ne.symm hne)]
    exact h.count w hw
  pos := fun w hw => h.pos w (List.mem_of_mem_erase hw)
  refs := by
    intro r hr'
    have hmem := h.refs r (List.mem_of_mem_erase hr')
    refine (h.nodup.mem_erase_iff).mpr ⟨fun heq => ?_, hmem⟩
    -- A second reference to the vnode.
    have hpos : 0 < (p.forget t v).refsTo v := refsTo_pos.mpr ⟨r.1, heq ▸ hr'⟩
    rw [refsTo_forget hr, if_pos rfl, hone] at hpos
    exact absurd hpos (lt_irrefl 0)
  fresh := h.fresh

theorem setCountlock (h : Counted lost p) (v : Vn) (owner : Option Thr) :
    Counted lost (p.setCountlock v owner) :=
  ⟨h.nodup, h.lt, h.count, h.pos, h.refs, h.fresh⟩

end Counted

/-! ## What threads in the middle of a call rely on -/

/-- While vnodes change, `g u` is the vnode to which `u` is giving up a reference, `f u` the one
that `u` has found in the table and does not have a reference to yet, and `l u` the one to which `u`
has the last reference. -/
structure Knows (p : Pool) (g f l : Thr → Option Vn) : Prop where
  gives : ∀ u v, g u = some v → (u, v) ∈ p.refs
  found : ∀ u v, f u = some v → v ∈ p.vnodes
  last : ∀ u v, l u = some v → g u = some v ∧ p.refsTo v = 1

namespace Knows

variable {g f l : Thr → Option Vn}

/-- The thread `t` comes to another point. -/
theorem set (h : p.Knows g f l) {g' f' l' : Thr → Option Vn}
    (hothers : ∀ u, u ≠ t → g' u = g u ∧ f' u = f u ∧ l' u = l u)
    (hgives : ∀ v, g' t = some v → (t, v) ∈ p.refs)
    (hfound : ∀ v, f' t = some v → v ∈ p.vnodes)
    (hlast : ∀ v, l' t = some v → g' t = some v ∧ p.refsTo v = 1) :
    p.Knows g' f' l' := by
  constructor
  all_goals
    intro u v hu
    by_cases hut : u = t
    · subst hut
      first | exact hgives v hu | exact hfound v hu | exact hlast v hu
    obtain ⟨hg, hf, hl⟩ := hothers u hut
  · exact h.gives u v (hg ▸ hu)
  · exact h.found u v (hf ▸ hu)
  · rw [hg]
    exact h.last u v (hl ▸ hu)

theorem setCountlock (h : p.Knows g f l) (v : Vn) (owner : Option Thr) :
    (p.setCountlock v owner).Knows g f l :=
  ⟨h.gives, h.found, h.last⟩

/-- Only the thread's own reference is given up. -/
theorem forget (h : p.Knows g f l) (ht : g t = none) (hr : (t, v) ∈ p.refs) :
    (p.forget t v).Knows g f l := by
  refine ⟨fun u w hu => ?_, h.found, fun u w hu => ?_⟩
  · refine mem_forget (h.gives u w hu) fun heq => ?_
    obtain ⟨rfl, rfl⟩ := Prod.mk.inj heq
    exact nomatch ht.symm.trans hu
  · obtain ⟨hgives, hone⟩ := h.last u w hu
    refine ⟨hgives, ?_⟩
    rw [refsTo_forget hr, hone]
    split
    case isTrue hvw =>
      -- The reference given up would be the last one, which is that of `u`.
      subst hvw
      obtain rfl := eq_of_refsTo_one hone hr (h.gives u v hgives)
      exact nomatch ht.symm.trans hgives
    case isFalse => rfl

theorem decr (h : p.Knows g f l) (ht : g t = none) (hr : (t, v) ∈ p.refs) :
    (p.decr t v).Knows g f l :=
  have hforget := h.forget ht hr
  ⟨hforget.gives, h.found, hforget.last⟩

/-- Nobody has found the vnode that leaves the table. -/
theorem remove (h : p.Knows g f l) (ht : g t = none) (hr : (t, v) ∈ p.refs)
    (hfound : ∀ u, f u ≠ some v) : (p.remove t v).Knows g f l := by
  have hforget := h.forget ht hr
  refine ⟨hforget.gives, fun u w hu => ?_, hforget.last⟩
  have hne : w ≠ v := fun heq => hfound u (heq ▸ hu)
  exact (List.mem_erase_of_ne hne).mpr (h.found u w hu)

theorem insert (h : p.Knows g f l) (hc : Counted lost p) (t : Thr) (key : ℕ) :
    (p.insert t key).Knows g f l := by
  refine ⟨fun u v hu => ?_, fun u v hu => ?_, fun u v hu => ?_⟩
  · exact List.mem_cons_of_mem _ (h.gives u v hu)
  · exact List.mem_append_left _ (h.found u v hu)
  · obtain ⟨hgives, hone⟩ := h.last u v hu
    have hlt : v < p.created := hc.lt v (hc.refs _ (h.gives u v hgives))
    refine ⟨hgives, ?_⟩
    rw [refsTo_insert, if_neg hlt.ne', hone]

/-- Nobody relies on having the last reference to the vnode. -/
theorem incr (h : p.Knows g f l) (t : Thr) (hlast : ∀ u, l u ≠ some v) :
    (p.incr t v).Knows g f l := by
  refine ⟨fun u w hu => List.mem_cons_of_mem _ (h.gives u w hu), h.found, fun u w hu => ?_⟩
  obtain ⟨hgives, hone⟩ := h.last u w hu
  have hne : v ≠ w := fun heq => hlast u (heq ▸ hu)
  refine ⟨hgives, ?_⟩
  rw [refsTo_incr, if_neg hne, hone]

end Knows

/-- A thread with a reference to a vnode whose count is one has the last reference to it. -/
theorem Counted.refsTo_one (h : Counted lost p) (hr : (t, v) ∈ p.refs) (hcount : p.refcount v = 1) :
    p.refsTo v = 1 := by
  have hcounted := h.count v (h.refs _ hr)
  have hpos := refsTo_pos.mpr ⟨t, hr⟩
  omega

end Pool

end Os161.Vfs
