import Mathlib.Tactic
import Os161.Syscall.Process

/-!
# `sys_waitpid` and the child table

One call of `sys_waitpid` as its caller sees it: the points of its code in order, with anything the
other threads may do in between (`CallStep`). The loop locks the child in slot 0, then the child in
slot 1, and so on, and does not look whether a slot is empty. It ends at the child that is asked
for, and after the last slot if there is none.

So a call does what it should exactly when the child is in the table and no slot before it is empty
(`waitpid_works_iff`). Slots before a child become empty when an older child is waited for first. If
no child has the number, the call follows the null pointer of the first empty slot, or, with a full
table, returns zero.
-/

namespace Os161.Process

open Threads

/-! ## One call -/

/-- A call: the fields of the threads, the point that the caller has reached, and what it has
reported so far. -/
structure Call where
  proc : Tid → Proc
  point : Point
  events : List ProcEvent

/-- What other threads may do while `t` is in a system call. Its child table is its own, and a child
goes from running to exited and stays so. -/
structure Rely (t : Tid) (proc proc' : Tid → Proc) : Prop where
  child : (proc' t).child = (proc t).child
  status : ∀ i c, (proc t).child i = some c → (proc' c).status = (proc c).status ∨
    (proc c).status = 0 ∧ (proc' c).status = -1

/-- Operations that return at `next`, and change no field themselves. -/
inductive Passes : Op Point → Point → Prop where
  | splx {spl : ℕ} {next : Point} : Passes (.splx spl next) next
  | acquire {l : Lock} {next : Point} : Passes (.acquire l next) next
  | release {l : Lock} {next : Point} : Passes (.release l next) next
  | signal {c : Cv} {l : Lock} {next : Point} : Passes (.signal c l next) next

/-- The handler has returned to `mips_syscall`. -/
def Point.returned : Point → Bool
  | back _ _ => true
  | _ => false

/-- A step of the call: something that other threads do, or the next operation of its code. A
`cv_wait` for a child ends when the child has signalled, which it does once it has exited. -/
inductive CallStep (pid : Tid → ℤ) (t : Tid) : Call → Call → Prop where
  | others {x : Call} {proc : Tid → Proc} (hrely : Rely t x.proc proc) :
      CallStep pid t x { x with proc := proc }
  | pass {x : Call} {spl : ℕ} {o : Op Point} {next : Point} (hin : x.point.returned = false)
      (hcode : code x.proc pid spl t x.point = some o) (ho : Passes o next) :
      CallStep pid t x { x with point := next }
  | wait {x : Call} {spl : ℕ} {c : Tid} {l : Lock} {next : Point} {proc : Tid → Proc}
      (hcode : code x.proc pid spl t x.point = some (.wait (.waitonexit c) l next))
      (hrely : Rely t x.proc proc) (hexited : (proc c).status = -1) :
      CallStep pid t x { x with proc := proc, point := next }
  | write {x : Call} {spl : ℕ} {f : (Tid → Proc) → Tid → Proc} {es : List ProcEvent}
      {next : Point} (hcode : code x.proc pid spl t x.point = some (.write f es next)) :
      CallStep pid t x ⟨f x.proc, next, x.events ++ es⟩

/-- The slot of the child table whose pointer is followed at this point. -/
def Point.follows : Point → Option ℕ
  | waitLoop _ i => if i < 20 then some i else none
  | waitTest _ i => some i
  | waitCollect _ i => some i
  | waitSignal _ i => some i
  | waitRelease _ i => some i
  | _ => none

section Works

variable (pid : Tid → ℤ) (t : Tid) (child : ℕ → Option Tid) (a0 : ℤ)

/-- The child with the number `a0` is in slot `j`. -/
def Found (j : ℕ) (c : Tid) : Prop := j < 20 ∧ child j = some c ∧ pid c = a0

/-- The states of a call `sys_waitpid(a0)` of `t` with the child table `child`. The children run or
have exited. -/
def Within (x : Call) : Prop :=
  ∃ proc : Tid → Proc, (proc t).child = child ∧
    (∀ i c, child i = some c → (proc c).status = 0 ∨ (proc c).status = -1) ∧
    Relation.ReflTransGen (CallStep pid t) ⟨proc, .waitAcquire a0, []⟩ x

/-- The caller has collected the exit code of one child with the number `a0`, and the slot of that
child is empty now, and no other slot has changed. -/
def Collected (x : Call) : Prop :=
  ∃ j c exitcode, Found pid child a0 j c ∧ x.events = [.collects t c exitcode] ∧
    (x.proc t).child = Function.update child j none

/-- What `sys_waitpid(a0)` should do. -/
structure Works : Prop where
  /-- No empty slot is followed. -/
  follows : ∀ x, Within pid t child a0 x → ∀ i, x.point.follows = some i →
    (x.proc t).child i ≠ none
  /-- At any time the call can still be completed. -/
  returns : ∀ x, Within pid t child a0 x → ∃ y err retval,
    Relation.ReflTransGen (CallStep pid t) x y ∧ y.point = .back err retval
  collects : ∀ x, Within pid t child a0 x → ∀ err retval, x.point = .back err retval →
    (∃ j c, Found pid child a0 j c) → err = 0 ∧ retval = a0 ∧ Collected pid t child a0 x
  refuses : ∀ x, Within pid t child a0 x → ∀ err retval, x.point = .back err retval →
    (¬ ∃ j c, Found pid child a0 j c) → err ≠ 0 ∧ x.events = [] ∧ (x.proc t).child = child

end Works

variable {pid : Tid → ℤ} {t c : Tid} {child : ℕ → Option Tid} {a0 : ℤ} {j : ℕ} {x y : Call}

/-! ## The code at a slot with a child -/

section Slot

variable {proc : Tid → Proc} {i : ℕ} (hslot : (proc t).child i = some c)

include hslot

theorem code_waitLoop (hi : i < 20) :
    code proc pid 0 t (.waitLoop a0 i) = some (.acquire (.lk c) (.waitTest a0 i)) := by
  simp only [code, if_pos hi, hslot, Option.bind_eq_bind, Option.bind_some]

theorem code_waitTest_other (hpid : pid c ≠ a0) :
    code proc pid 0 t (.waitTest a0 i) = some (.release (.lk c) (.waitLoop a0 (i + 1))) := by
  simp only [code, hslot, Option.bind_eq_bind, Option.bind_some, if_neg hpid]

theorem code_waitTest_running (hpid : pid c = a0) (hstatus : (proc c).status = 0) :
    code proc pid 0 t (.waitTest a0 i) =
      some (.wait (.waitonexit c) (.lk c) (.waitCollect a0 i)) := by
  simp only [code, hslot, Option.bind_eq_bind, Option.bind_some, if_pos hpid, if_pos hstatus]

theorem code_waitTest_exited (hpid : pid c = a0) (hstatus : (proc c).status = -1) :
    code proc pid 0 t (.waitTest a0 i) = some (.splx 0 (.waitCollect a0 i)) := by
  have hne : (proc c).status ≠ 0 := by
    rw [hstatus]
    decide
  simp only [code, hslot, Option.bind_eq_bind, Option.bind_some, if_pos hpid, if_neg hne]

theorem code_waitCollect (hstatus : (proc c).status = -1) :
    code proc pid 0 t (.waitCollect a0 i) =
      some (.write id [.collects t c (proc c).exitcode] (.waitSignal a0 i)) := by
  simp only [code, hslot, Option.bind_eq_bind, Option.bind_some, if_pos hstatus]

theorem code_waitSignal : code proc pid 0 t (.waitSignal a0 i) =
    some (.signal (.waittoexit c) (.lk c) (.waitRelease a0 i)) := by
  simp only [code, hslot, Option.bind_eq_bind, Option.bind_some]

theorem code_waitRelease :
    code proc pid 0 t (.waitRelease a0 i) = some (.release (.lk c) (.waitClear a0 i)) := by
  simp only [code, hslot, Option.bind_eq_bind, Option.bind_some]

/-- The scan passes a child that is not asked for. -/
theorem CallStep.past (hi : i < 20) (hpid : pid c ≠ a0) (events : List ProcEvent) :
    Relation.ReflTransGen (CallStep pid t) ⟨proc, .waitLoop a0 i, events⟩
      ⟨proc, .waitLoop a0 (i + 1), events⟩ := by
  have hlock : CallStep pid t ⟨proc, .waitLoop a0 i, events⟩ ⟨proc, .waitTest a0 i, events⟩ :=
    .pass rfl (code_waitLoop hslot hi) .acquire
  have hnext : CallStep pid t ⟨proc, .waitTest a0 i, events⟩
      ⟨proc, .waitLoop a0 (i + 1), events⟩ :=
    .pass rfl (code_waitTest_other hslot hpid) .release
  exact .head hlock (.single hnext)

end Slot

/-! ## What the scan passes -/

/-- A slot with a child that is not the one asked for. -/
def Passed (pid : Tid → ℤ) (child : ℕ → Option Tid) (a0 : ℤ) (i : ℕ) : Prop :=
  ∃ c, child i = some c ∧ pid c ≠ a0

/-- The scan gets to the slot `n` if it can pass the slots before it. -/
theorem scan_reaches {n : ℕ} (hn : n ≤ 20) (hpass : ∀ i < n, Passed pid child a0 i)
    {proc : Tid → Proc} (hchild : (proc t).child = child) :
    Relation.ReflTransGen (CallStep pid t) ⟨proc, .waitAcquire a0, []⟩
      ⟨proc, .waitLoop a0 n, []⟩ := by
  induction n with
  | zero =>
    have hlock : code proc pid 0 t (.waitAcquire a0) = some (.acquire (.lk t) (.waitLoop a0 0)) := rfl
    exact .single (.pass rfl hlock .acquire)
  | succ n ih =>
    obtain ⟨c, hslot, hpid⟩ := hpass n (Nat.lt_succ_self n)
    rw [← hchild] at hslot
    exact (ih (Nat.le_of_succ_le hn) fun i hi => hpass i (Nat.lt_succ_of_lt hi)).trans
      (CallStep.past hslot (Nat.lt_of_succ_le hn) hpid [])

/-- A call that works finds the child before it comes to an empty slot. -/
theorem Works.found (h : Works pid t child a0) :
    ∃ j c, Found pid child a0 j c ∧ ∀ i < j, child i ≠ none := by
  classical
  obtain ⟨proc, hproc⟩ : ∃ proc : Tid → Proc, proc = fun _ => ⟨none, child, 0, 0⟩ := ⟨_, rfl⟩
  have hchild : (proc t).child = child := by rw [hproc]
  have hstatus : ∀ i c, child i = some c → (proc c).status = 0 ∨ (proc c).status = -1 :=
    fun _ _ _ => Or.inl (by rw [hproc])
  -- the first slot at which the scan stops
  have hstops : ∃ n, ¬ (n < 20 ∧ Passed pid child a0 n) := ⟨20, fun hn => absurd hn.1 (by decide)⟩
  obtain ⟨n, hn, hfirst⟩ : ∃ n, ¬ (n < 20 ∧ Passed pid child a0 n) ∧
      ∀ i < n, i < 20 ∧ Passed pid child a0 i :=
    ⟨Nat.find hstops, Nat.find_spec hstops, fun i hi => not_not.mp (Nat.find_min hstops hi)⟩
  have hle : n ≤ 20 := by
    by_contra hlt
    exact absurd (hfirst 20 (by omega)).1 (by decide)
  have hreach := scan_reaches hle (fun i hi => (hfirst i hi).2) hchild
  have hwithin : Within pid t child a0 ⟨proc, .waitLoop a0 n, []⟩ := ⟨proc, hchild, hstatus, hreach⟩
  rcases Nat.lt_or_ge n 20 with hlt | hge
  · have hslot : child n ≠ none := by
      have := h.follows _ hwithin n (if_pos hlt)
      rwa [hchild] at this
    obtain ⟨c, hc⟩ := Option.ne_none_iff_exists'.mp hslot
    have hpid : pid c = a0 := by
      by_contra hne
      exact hn ⟨hlt, c, hc, hne⟩
    refine ⟨n, c, ⟨hlt, hc, hpid⟩, fun i hi => ?_⟩
    obtain ⟨c', hc', -⟩ := (hfirst i hi).2
    exact hc' ▸ Option.some_ne_none c'
  · -- a full table without the child: the call returns zero
    obtain rfl : n = 20 := by omega
    have hend : code proc pid 0 t (.waitLoop a0 20) = some (.release (.lk t) (.back 0 a0)) := rfl
    have hback : CallStep pid t ⟨proc, .waitLoop a0 20, []⟩ ⟨proc, .back 0 a0, []⟩ :=
      .pass rfl hend .release
    have hnone : ¬ ∃ j c, Found pid child a0 j c := by
      rintro ⟨j, c, hj, hc, hpid⟩
      obtain ⟨c', hc', hne⟩ := (hfirst j hj).2
      exact hne (Option.some.inj (hc.symm.trans hc') ▸ hpid)
    have hrefused := h.refuses ⟨proc, .back 0 a0, []⟩ ⟨proc, hchild, hstatus, hreach.tail hback⟩
      0 a0 rfl hnone
    exact absurd rfl hrefused.1

/-! ## A call that finds the child -/

/-- Nothing is collected yet. -/
structure Fresh (t : Tid) (child : ℕ → Option Tid) (proc : Tid → Proc) (events : List ProcEvent) :
    Prop where
  table : (proc t).child = child
  status : ∀ i c, child i = some c → (proc c).status = 0 ∨ (proc c).status = -1
  nothing : events = []

/-- The child `c` is collected, and the table is `child`. -/
structure Holding (t c : Tid) (child : ℕ → Option Tid) (proc : Tid → Proc)
    (events : List ProcEvent) : Prop where
  table : (proc t).child = child
  collected : ∃ exitcode, events = [.collects t c exitcode]

/-- Where a call is that finds the child `c` in slot `j`. -/
def Stands (t c : Tid) (child : ℕ → Option Tid) (a0 : ℤ) (j : ℕ) (x : Call) : Prop :=
  match x.point with
  | .waitAcquire b => b = a0 ∧ Fresh t child x.proc x.events
  | .waitLoop b i => b = a0 ∧ i ≤ j ∧ Fresh t child x.proc x.events
  | .waitTest b i => b = a0 ∧ i ≤ j ∧ Fresh t child x.proc x.events
  | .waitCollect b i => b = a0 ∧ i = j ∧ Fresh t child x.proc x.events ∧ (x.proc c).status = -1
  | .waitSignal b i => b = a0 ∧ i = j ∧ Holding t c child x.proc x.events
  | .waitRelease b i => b = a0 ∧ i = j ∧ Holding t c child x.proc x.events
  | .waitClear b i => b = a0 ∧ i = j ∧ Holding t c child x.proc x.events
  | .waitEnd b => b = a0 ∧ Holding t c (Function.update child j none) x.proc x.events
  | .back err retval => err = 0 ∧ retval = a0 ∧
      Holding t c (Function.update child j none) x.proc x.events
  | _ => False

theorem Fresh.others {proc proc' : Tid → Proc} {events : List ProcEvent}
    (h : Fresh t child proc events) (hrely : Rely t proc proc') : Fresh t child proc' events where
  table := hrely.child.trans h.table
  status i c hslot := by
    rcases hrely.status i c (h.table ▸ hslot) with hsame | ⟨-, hexited⟩
    · rw [hsame]
      exact h.status i c hslot
    · exact .inr hexited
  nothing := h.nothing

theorem Holding.others {proc proc' : Tid → Proc} {events : List ProcEvent}
    (h : Holding t c child proc events) (hrely : Rely t proc proc') :
    Holding t c child proc' events where
  table := hrely.child.trans h.table
  collected := h.collected

/-- What the other threads do. -/
theorem Stands.others {proc : Tid → Proc} (h : Stands t c child a0 j x) (hslot : child j = some c)
    (hrely : Rely t x.proc proc) : Stands t c child a0 j { x with proc := proc } := by
  obtain ⟨proc₀, p, events⟩ := x
  cases p with
  | waitAcquire b => exact ⟨h.1, h.2.others hrely⟩
  | waitLoop b i => exact ⟨h.1, h.2.1, h.2.2.others hrely⟩
  | waitTest b i => exact ⟨h.1, h.2.1, h.2.2.others hrely⟩
  | waitCollect b i =>
    obtain ⟨hb, hi, hfresh, hexited⟩ := h
    refine ⟨hb, hi, hfresh.others hrely, ?_⟩
    rcases hrely.status j c (hfresh.table ▸ hslot) with hsame | ⟨-, hexited'⟩
    · exact hsame.trans hexited
    · exact hexited'
  | waitSignal b i => exact ⟨h.1, h.2.1, h.2.2.others hrely⟩
  | waitRelease b i => exact ⟨h.1, h.2.1, h.2.2.others hrely⟩
  | waitClear b i => exact ⟨h.1, h.2.1, h.2.2.others hrely⟩
  | waitEnd b => exact ⟨h.1, h.2.others hrely⟩
  | back err retval => exact ⟨h.1, h.2.1, h.2.2.others hrely⟩
  | _ => exact h.elim

theorem Stands.not_idle (h : Stands t c child a0 j x) : x.point.idle = false := by
  obtain ⟨proc, p, events⟩ := x
  cases p with
  | kernel => exact h.elim
  | progthread => exact h.elim
  | user => exact h.elim
  | _ => rfl

section Scan

variable (hfound : Found pid child a0 j c) (hfirst : ∀ i < j, Passed pid child a0 i)

include hfound hfirst

/-- Up to the slot `j` the scan meets children with other numbers, and `c` in slot `j`. -/
theorem slot_of_le {i : ℕ} (hi : i ≤ j) :
    ∃ u, child i = some u ∧ (pid u = a0 ↔ i = j) ∧ (i = j → u = c) := by
  rcases Nat.lt_or_eq_of_le hi with hlt | rfl
  · obtain ⟨u, hu, hne⟩ := hfirst i hlt
    exact ⟨u, hu, iff_of_false hne hlt.ne, fun heq => absurd heq hlt.ne⟩
  · exact ⟨c, hfound.2.1, iff_of_true hfound.2.2 rfl, fun _ => rfl⟩

/-- One step of the call. -/
theorem Stands.step (h : Stands t c child a0 j x) (hstep : CallStep pid t x y) :
    Stands t c child a0 j y := by
  have hslot := hfound.2.1
  cases hstep with
  | others hrely => exact h.others hslot hrely
  | @pass spl o next hin hcode ho =>
    obtain ⟨proc, p, events⟩ := x
    have hidle := h.not_idle
    rcases (code_cases hcode : _ ∨ Move proc pid t false p o) with ⟨next', hplain, hmove⟩ | hmove
    · cases ho <;> cases hplain
      cases hmove with
      | idle hidle' => exact absurd (hidle'.symm.trans hidle) (by decide)
      | exited hchild hpid hstatus =>
        obtain ⟨rfl, hi, hfresh⟩ := h
        obtain ⟨u, hu, hmatch, hsame⟩ := slot_of_le hfound hfirst hi
        rw [hfresh.table] at hchild
        obtain rfl := Option.some.inj (hchild.symm.trans hu)
        obtain rfl := hsame (hmatch.mp hpid)
        exact ⟨rfl, hmatch.mp hpid, hfresh, (hfresh.status _ _ hu).resolve_left hstatus⟩
      | back => cases hin
      | _ => exact h.elim
    · cases ho with
      | acquire =>
        cases hmove with
        | acquireOther hidle' => exact absurd (hidle'.symm.trans hidle) (by decide)
        | waitAcquire => exact ⟨h.1, Nat.zero_le j, h.2⟩
        | waitChild hi hchild => exact h
        | _ => exact h.elim
      | release =>
        cases hmove with
        | releaseOther hidle' => exact absurd (hidle'.symm.trans hidle) (by decide)
        | waitNone hi => exact absurd (Nat.lt_of_le_of_lt h.2.1 hfound.1) hi
        | waitNext hchild hpid =>
          obtain ⟨rfl, hi, hfresh⟩ := h
          obtain ⟨u, hu, hmatch, -⟩ := slot_of_le hfound hfirst hi
          rw [hfresh.table] at hchild
          obtain rfl := Option.some.inj (hchild.symm.trans hu)
          have hne := mt hmatch.mpr hpid
          exact ⟨rfl, by omega, hfresh⟩
        | waitRelease hchild => exact h
        | waitEnd => exact ⟨rfl, h⟩
        | _ => exact h.elim
      | signal =>
        cases hmove with
        | signalOther hidle' => exact absurd (hidle'.symm.trans hidle) (by decide)
        | waitSignal hchild => exact h
        | _ => exact h.elim
      | splx => cases hmove
  | @wait spl u l next proc hcode hrely hexited =>
    obtain ⟨proc₀, p, events⟩ := x
    rcases (code_cases hcode : _ ∨ Move proc₀ pid t false p _) with ⟨next', hplain, -⟩ | hmove
    · cases hplain
    cases hmove with
    | waitWait hchild hpid hstatus =>
      obtain ⟨rfl, hi, hfresh⟩ := h
      obtain ⟨v, hv, hmatch, hsame⟩ := slot_of_le hfound hfirst hi
      rw [hfresh.table] at hchild
      obtain rfl := Option.some.inj (hchild.symm.trans hv)
      obtain rfl := hsame (hmatch.mp hpid)
      exact ⟨rfl, hmatch.mp hpid, hfresh.others hrely, hexited⟩
  | @write spl f es next hcode =>
    obtain ⟨proc₀, p, events⟩ := x
    rcases (code_cases hcode : _ ∨ Move proc₀ pid t false p _) with ⟨next', hplain, -⟩ | hmove
    · cases hplain
    cases hmove with
    | waitCollect hchild hstatus =>
      obtain ⟨rfl, rfl, hfresh, -⟩ := h
      rw [hfresh.table] at hchild
      obtain rfl := Option.some.inj (hchild.symm.trans hslot)
      exact ⟨rfl, rfl, hfresh.table, _, by rw [hfresh.nothing]; rfl⟩
    | waitClear =>
      obtain ⟨rfl, rfl, htook⟩ := h
      obtain ⟨exitcode, hevents⟩ := htook.collected
      refine ⟨rfl, ?_, exitcode, by rw [← hevents, List.append_nil]⟩
      show (clearChild t _ proc₀ t).child = _
      rw [clearChild, setProc, Function.update_self, htook.table]
    | _ => exact h.elim

theorem Stands.run (h : Stands t c child a0 j x)
    (hrun : Relation.ReflTransGen (CallStep pid t) x y) : Stands t c child a0 j y := by
  induction hrun with
  | refl => exact h
  | tail _ hstep ih => exact ih.step hfound hfirst hstep

/-- The pointer of an empty slot is not followed. -/
theorem Stands.follows (h : Stands t c child a0 j x) {i : ℕ} (hi : x.point.follows = some i) :
    (x.proc t).child i ≠ none := by
  obtain ⟨proc, p, events⟩ := x
  have hused : ∀ i ≤ j, child i ≠ none := fun i hi => by
    obtain ⟨u, hu, -⟩ := slot_of_le hfound hfirst hi
    exact hu ▸ Option.some_ne_none u
  cases p with
  | waitLoop b k =>
    obtain ⟨-, hk, hfresh⟩ := h
    simp only [Point.follows, Option.ite_none_right_eq_some, Option.some.injEq] at hi
    exact hfresh.table ▸ hi.2 ▸ hused k hk
  | waitTest b k => exact h.2.2.table ▸ Option.some.inj hi ▸ hused k h.2.1
  | waitCollect b k => exact h.2.2.1.table ▸ Option.some.inj hi ▸ hused k h.2.1.le
  | waitSignal b k => exact h.2.2.table ▸ Option.some.inj hi ▸ hused k h.2.1.le
  | waitRelease b k => exact h.2.2.table ▸ Option.some.inj hi ▸ hused k h.2.1.le
  | _ => cases hi

end Scan

/-! ## The call returns -/

/-- The call can be completed from here. -/
def Finishes (pid : Tid → ℤ) (t : Tid) (x : Call) : Prop :=
  ∃ y err retval, Relation.ReflTransGen (CallStep pid t) x y ∧ y.point = .back err retval

theorem Finishes.head (hstep : CallStep pid t x y) (h : Finishes pid t y) : Finishes pid t x := by
  obtain ⟨z, err, retval, hrun, hz⟩ := h
  exact ⟨z, err, retval, .head hstep hrun, hz⟩

theorem Finishes.trans (hrun : Relation.ReflTransGen (CallStep pid t) x y)
    (h : Finishes pid t y) : Finishes pid t x := by
  obtain ⟨z, err, retval, hrun', hz⟩ := h
  exact ⟨z, err, retval, hrun.trans hrun', hz⟩

section Finish

variable {proc : Tid → Proc} {events : List ProcEvent}

theorem finishes_waitEnd : Finishes pid t ⟨proc, .waitEnd a0, events⟩ := by
  have hcode : code proc pid 0 t (.waitEnd a0) = some (.release (.lk t) (.back 0 a0)) := rfl
  exact ⟨⟨proc, .back 0 a0, events⟩, 0, a0, .single (.pass rfl hcode .release), rfl⟩

theorem finishes_waitClear {i : ℕ} : Finishes pid t ⟨proc, .waitClear a0 i, events⟩ := by
  have hcode : code proc pid 0 t (.waitClear a0 i) =
    some (.write (clearChild t i) [] (.waitEnd a0)) := rfl
  exact .head (.write hcode) finishes_waitEnd

/-- From the child on, once it has exited. -/
theorem finishes_waitRelease {i : ℕ} (hslot : (proc t).child i = some c) :
    Finishes pid t ⟨proc, .waitRelease a0 i, events⟩ :=
  .head (.pass rfl (code_waitRelease hslot) .release) finishes_waitClear

theorem finishes_waitSignal {i : ℕ} (hslot : (proc t).child i = some c) :
    Finishes pid t ⟨proc, .waitSignal a0 i, events⟩ :=
  .head (.pass rfl (code_waitSignal hslot) .signal) (finishes_waitRelease hslot)

theorem finishes_waitCollect {i : ℕ} (hslot : (proc t).child i = some c)
    (hexited : (proc c).status = -1) : Finishes pid t ⟨proc, .waitCollect a0 i, events⟩ :=
  .head (.write (code_waitCollect hslot hexited)) (finishes_waitSignal hslot)

/-- The child that is asked for either has exited or exits while the caller waits. -/
theorem finishes_waitTest {i : ℕ} (hslot : (proc t).child i = some c) (hpid : pid c = a0)
    (hstatus : (proc c).status = 0 ∨ (proc c).status = -1) :
    Finishes pid t ⟨proc, .waitTest a0 i, events⟩ := by
  rcases hstatus with hrunning | hexited
  · have hrely : Rely t proc (setExit c 0 proc) := by
      constructor
      · by_cases heq : t = c
        · subst heq
          simp only [setExit, setProc, Function.update_self]
        · simp only [setExit, setProc, Function.update_of_ne heq]
      · intro k u hu
        by_cases heq : u = c
        · subst heq
          exact .inr ⟨hrunning, by simp only [setExit, setProc, Function.update_self]⟩
        · exact .inl (by simp only [setExit, setProc, Function.update_of_ne heq])
    have hexited : (setExit c 0 proc c).status = -1 := by
      simp only [setExit, setProc, Function.update_self]
    refine .head (.wait (code_waitTest_running hslot hpid hrunning) hrely hexited) ?_
    exact finishes_waitCollect ((congrFun hrely.child i).trans hslot) hexited
  · exact .head (.pass rfl (code_waitTest_exited hslot hpid hexited) .splx)
      (finishes_waitCollect hslot hexited)

/-- From any slot up to that of the child. -/
theorem Fresh.finishes (hfound : Found pid child a0 j c) (hfirst : ∀ i < j, Passed pid child a0 i)
    (h : Fresh t child proc events) {n i : ℕ} (hn : i + n = j) :
    Finishes pid t ⟨proc, .waitLoop a0 i, events⟩ := by
  obtain ⟨hj, hslot, hpid⟩ := hfound
  rw [← h.table] at hslot
  induction n generalizing i with
  | zero =>
    obtain rfl : i = j := hn
    exact .head (.pass rfl (code_waitLoop hslot hj) .acquire)
      (finishes_waitTest hslot hpid (h.status i c (h.table ▸ hslot)))
  | succ n ih =>
    obtain ⟨u, hu, hne⟩ := hfirst i (by omega)
    rw [← h.table] at hu
    exact .trans (CallStep.past hu (by omega) hne events) (ih (by omega))

/-- A call that finds the child can be completed at any time. -/
theorem Stands.finishes (hfound : Found pid child a0 j c)
    (hfirst : ∀ i < j, Passed pid child a0 i) (h : Stands t c child a0 j x) :
    Finishes pid t x := by
  obtain ⟨proc, p, events⟩ := x
  cases p with
  | waitAcquire b =>
    obtain ⟨rfl, hfresh⟩ := h
    have hcode : code proc pid 0 t (.waitAcquire b) = some (.acquire (.lk t) (.waitLoop b 0)) := rfl
    exact .head (.pass rfl hcode .acquire) (hfresh.finishes hfound hfirst (Nat.zero_add j))
  | waitLoop b i =>
    obtain ⟨rfl, hi, hfresh⟩ := h
    exact hfresh.finishes hfound hfirst (Nat.add_sub_cancel' hi)
  | waitTest b i =>
    obtain ⟨rfl, hi, hfresh⟩ := h
    obtain ⟨u, hu, hmatch, -⟩ := slot_of_le hfound hfirst hi
    have hslot : (proc t).child i = some u := (congrFun hfresh.table i).trans hu
    by_cases hpid : pid u = b
    · exact finishes_waitTest hslot hpid (hfresh.status i u hu)
    · have hlt : i < j := lt_of_le_of_ne hi (mt hmatch.mpr hpid)
      exact .head (.pass rfl (code_waitTest_other hslot hpid) .release)
        (hfresh.finishes hfound hfirst (Nat.add_sub_cancel' hlt))
  | waitCollect b i =>
    obtain ⟨rfl, rfl, hfresh, hexited⟩ := h
    exact finishes_waitCollect ((congrFun hfresh.table i).trans hfound.2.1) hexited
  | waitSignal b i =>
    obtain ⟨rfl, rfl, htook⟩ := h
    exact finishes_waitSignal ((congrFun htook.table i).trans hfound.2.1)
  | waitRelease b i =>
    obtain ⟨rfl, rfl, htook⟩ := h
    exact finishes_waitRelease ((congrFun htook.table i).trans hfound.2.1)
  | waitClear b i =>
    obtain ⟨rfl, -⟩ := h
    exact finishes_waitClear
  | waitEnd b =>
    obtain ⟨rfl, -⟩ := h
    exact finishes_waitEnd
  | back err retval => exact ⟨_, err, retval, .refl, rfl⟩
  | _ => exact h.elim

end Finish

/-! ## When `sys_waitpid` works -/

/-- The first slot with the child, if no slot up to some slot with it is empty. -/
theorem exists_first (h : ∃ j c, Found pid child a0 j c ∧ ∀ i < j, child i ≠ none) :
    ∃ j c, Found pid child a0 j c ∧ ∀ i < j, Passed pid child a0 i := by
  classical
  obtain ⟨k, u, hk, hused⟩ := h
  have hsome : ∃ j, ∃ c, Found pid child a0 j c := ⟨k, u, hk⟩
  obtain ⟨c, hc⟩ := Nat.find_spec hsome
  refine ⟨Nat.find hsome, c, hc, fun i hi => ?_⟩
  have hik : i < k := lt_of_lt_of_le hi (Nat.find_min' hsome ⟨u, hk⟩)
  obtain ⟨v, hv⟩ := Option.ne_none_iff_exists'.mp (hused i hik)
  exact ⟨v, hv, fun hpid => Nat.find_min hsome hi ⟨v, hik.trans hk.1, hv, hpid⟩⟩

/-- **When `sys_waitpid` works.** For every child table and every number: the call follows no empty
slot, can be completed, collects the child with that number and clears exactly its slot, or fails
and changes nothing if there is none, if and only if the child is in the table and no slot before it
is empty. -/
theorem waitpid_works_iff (pid : Tid → ℤ) (t : Tid) (child : ℕ → Option Tid) (a0 : ℤ) :
    Works pid t child a0 ↔ ∃ j c, Found pid child a0 j c ∧ ∀ i < j, child i ≠ none := by
  refine ⟨Works.found, fun h => ?_⟩
  obtain ⟨j, c, hfound, hfirst⟩ := exists_first h
  have hstands : ∀ x, Within pid t child a0 x → Stands t c child a0 j x := by
    rintro x ⟨proc, htable, hstatus, hrun⟩
    have hstart : Stands t c child a0 j ⟨proc, .waitAcquire a0, []⟩ := ⟨rfl, htable, hstatus, rfl⟩
    exact hstart.run hfound hfirst hrun
  refine ⟨fun x hx i hi => (hstands x hx).follows hfound hfirst hi,
    fun x hx => (hstands x hx).finishes hfound hfirst, fun x hx err retval hback _ => ?_,
    fun x hx err retval hback hnone => absurd ⟨j, c, hfound⟩ hnone⟩
  have hstand := hstands x hx
  rw [Stands, hback] at hstand
  obtain ⟨herr, hretval, htook⟩ := hstand
  obtain ⟨exitcode, hevents⟩ := htook.collected
  exact ⟨herr, hretval, j, c, exitcode, hfound, hevents, htook.table⟩

/-- A table in which the older of two children has been waited for. The child in slot `i` is the
thread `i + 1`. -/
def oldestGone : ℕ → Option Tid := Function.update (fun _ => none) 1 (some 2)

/-- A table with 20 children. -/
def fullTable (i : ℕ) : Option Tid := if i < 20 then some (i + 1) else none

/-- The second child cannot be waited for once the first one is gone: the call follows the pointer
of slot 0. And with a full table a wait for a number that no child has returns that number and
zero. -/
theorem waitpid_misses_child :
    (Found (fun u => u) oldestGone 2 1 2 ∧
      ∃ x, Within (fun u => u) 0 oldestGone 2 x ∧ x.point.follows = some 0 ∧
        (x.proc 0).child 0 = none) ∧
    (¬ ∃ j c, Found (fun u => u) fullTable 99 j c) ∧
      ∃ x, Within (fun u => u) 0 fullTable 99 x ∧ x.point = .back 0 99 := by
  have hfree (child : ℕ → Option Tid) (i c : ℕ) (hc : child i = some c) :
      ((fun _ : Tid => (⟨none, child, 0, 0⟩ : Proc)) c).status = 0 ∨
        ((fun _ : Tid => (⟨none, child, 0, 0⟩ : Proc)) c).status = -1 := .inl rfl
  refine ⟨⟨⟨by decide, rfl, rfl⟩, ⟨fun _ => ⟨none, oldestGone, 0, 0⟩, .waitLoop 2 0, []⟩,
    ⟨fun _ => ⟨none, oldestGone, 0, 0⟩, rfl, hfree oldestGone, ?_⟩, rfl, rfl⟩, ?_,
    ⟨fun _ => ⟨none, fullTable, 0, 0⟩, .back 0 99, []⟩,
    ⟨fun _ => ⟨none, fullTable, 0, 0⟩, rfl, hfree fullTable, ?_⟩, rfl⟩
  · exact scan_reaches (Nat.zero_le 20) (fun i hi => absurd hi (Nat.not_lt_zero i)) rfl
  · rintro ⟨j, c, hj, hc, hpid⟩
    simp only [fullTable, if_pos hj, Option.some.injEq] at hc
    subst hc
    have hnumber : ((j + 1 : ℕ) : ℤ) = 99 := hpid
    omega
  · have hpass : ∀ i < 20, Passed (fun u => u) fullTable 99 i := fun i hi =>
      ⟨i + 1, if_pos hi, by simp only; omega⟩
    have hend : code (fun _ => ⟨none, fullTable, 0, 0⟩) (fun u => u) 0 0 (.waitLoop 99 20) =
      some (.release (.lk 0) (.back 0 99)) := rfl
    exact (scan_reaches (t := 0) le_rfl hpass rfl).tail (.pass rfl hend .release)

end Os161.Process
