import Mathlib.Tactic
import Os161.Machine.Basic
import Os161.Syscall.Process
import Os161.Thread.Pid

/-!
# Running a program from the menu (`kern/main/menu.c`)

`common_prog` forks a thread that runs `cmd_progthread` and then calls
`sys_waitpid(newthread->pid, &retval, 0, &a)`. No prototype of `sys_waitpid` is in scope there. The
function takes a pointer to a trap frame, and so the number of the new thread is used as that
pointer: `tf->tf_a0`, `tf->tf_a2` and `tf->tf_a1` are read 36, 44 and 40 bytes above the number.

The threads here run the code of `Os161.Syscall.Process`, except that a kernel thread that starts a
program does so in `common_prog`. What is stored at a kernel address is not known. A read at any
other address stops the machine, for the menu has no address space.
-/

namespace Os161.Menu

open Threads

/-! ## Code -/

/-- Where a thread is in its code. -/
inductive Point where
  /-- Outside `common_prog`. -/
  | proc (p : Process.Point)
  /-- `thread_fork` has returned to `common_prog`, with the new thread or an error. -/
  | forked (newthread : Option Tid)
  /-- In `sys_waitpid`, at the reads of `tf->tf_a0`, `tf->tf_a2` and `tf->tf_a1`. -/
  | a0 (tf : ℕ) (newthread : Tid)
  | a2 (tf : ℕ) (pid : ℤ) (newthread : Tid)
  | a1 (tf : ℕ) (pid : ℤ) (newthread : Tid)
  /-- In the rest of `sys_waitpid`. -/
  | wait (p : Process.Point) (newthread : Tid)
  /-- `sys_waitpid` has returned to `common_prog`. -/
  | waited (newthread : Tid)
deriving DecidableEq

/-- The same operation of a thread whose points have other names. -/
def opMap {π ρ : Type} (f : π → ρ) : Op π → Op ρ
  | .splx spl next => .splx spl (f next)
  | .write g es next => .write g es (f next)
  | .yield next => .yield (f next)
  | .sleep n next => .sleep n (f next)
  | .wakeup n next => .wakeup n (f next)
  | .wakeone n next => .wakeone n (f next)
  | .fork start ok fail => .fork (f start) (fun new => f (ok new)) (f fail)
  | .exit => .exit
  | .acquire l next => .acquire l (f next)
  | .release l next => .release l (f next)
  | .wait c l next => .wait c l (f next)
  | .signal c l next => .signal c l (f next)
  | .broadcast c l next => .broadcast c l (f next)
  | .p n next => .p n (f next)
  | .v n next => .v n (f next)

/-- Where a thread in `common_prog` is when `sys_waitpid` is at `p`. -/
def inWaitpid (newthread : Tid) : Process.Point → Point
  | .back _ _ => .waited newthread
  | p => .wait p newthread

/-- The address of a word in kernel space. -/
def KernelAddr (a : ℕ) : Prop := 2147483648 ≤ a ∧ a < 4294967296 ∧ 4 ∣ a

instance KernelAddr.instDecidable (a : ℕ) : Decidable (KernelAddr a) :=
  inferInstanceAs (Decidable (_ ∧ _ ∧ _))

/-- `&tf->tf_a0`, `&tf->tf_a1` and `&tf->tf_a2`. -/
def a0Addr (tf : ℕ) : ℕ := u32 (tf + 36)

def a1Addr (tf : ℕ) : ℕ := u32 (tf + 40)

def a2Addr (tf : ℕ) : ℕ := u32 (tf + 44)

/-- The first operation of `common_prog`. -/
def commonProg : Op Point :=
  .fork (.proc .progthread) (fun newthread => .forked (some newthread)) (.forked none)

/-- What the thread `t` may do. With `ends` kernel threads may return from their function. -/
inductive MenuOp (ends : Bool) (proc : Tid → Proc) (pid : Tid → ℤ) (spl : ℕ) (t : Tid) :
    Point → Op Point → Prop where
  | code {p : Process.Point} {o : Op Process.Point}
      (h : Process.code proc pid spl t p = some o) :
      MenuOp ends proc pid spl t (.proc p) (opMap .proc o)
  | request {p : Process.Point} {r : Process.Request} {o : Op Process.Point} (hr : r ≠ .program)
      (hends : r = .finish → ends = true) (h : Process.request spl t r p = some o) :
      MenuOp ends proc pid spl t (.proc p) (opMap .proc o)
  | commonProg : MenuOp ends proc pid spl t (.proc .kernel) commonProg
  /-- `thread_fork` has failed: `common_prog` returns its result. -/
  | forkFailed : MenuOp ends proc pid spl t (.forked none) (.splx spl (.proc .kernel))
  /-- The call of `sys_waitpid`. -/
  | sysWaitpid {newthread : Tid} :
      MenuOp ends proc pid spl t (.forked (some newthread))
        (.splx spl (.a0 (u32 (pid newthread)) newthread))
  | readA0 {tf : ℕ} {newthread : Tid} (word : ℕ) (ha : KernelAddr (a0Addr tf)) :
      MenuOp ends proc pid spl t (.a0 tf newthread) (.splx spl (.a2 tf (s32 word) newthread))
  /-- A word that is not zero in the place of the options: `EINVAL`. -/
  | options {tf : ℕ} {a0 : ℤ} {newthread : Tid} (ha : KernelAddr (a2Addr tf)) :
      MenuOp ends proc pid spl t (.a2 tf a0 newthread) (.splx spl (.waited newthread))
  | noOptions {tf : ℕ} {a0 : ℤ} {newthread : Tid} (ha : KernelAddr (a2Addr tf)) :
      MenuOp ends proc pid spl t (.a2 tf a0 newthread) (.splx spl (.a1 tf a0 newthread))
  /-- A null pointer in the place of the status: `EFAULT`. -/
  | noStatus {tf : ℕ} {a0 : ℤ} {newthread : Tid} (ha : KernelAddr (a1Addr tf)) :
      MenuOp ends proc pid spl t (.a1 tf a0 newthread) (.splx spl (.waited newthread))
  | status {tf : ℕ} {a0 : ℤ} {newthread : Tid} (ha : KernelAddr (a1Addr tf)) :
      MenuOp ends proc pid spl t (.a1 tf a0 newthread)
        (.splx spl (.wait (.waitAcquire a0) newthread))
  | wait {p : Process.Point} {newthread : Tid} {o : Op Process.Point}
      (h : Process.code proc pid spl t p = some o) :
      MenuOp ends proc pid spl t (.wait p newthread) (opMap (inWaitpid newthread) o)
  | returns {newthread : Tid} :
      MenuOp ends proc pid spl t (.waited newthread) (.splx spl (.proc .kernel))

/-- The code of all threads. -/
def menuClient (ends : Bool) : Client Point := fun proc pid spl t p o =>
  MenuOp ends proc pid spl t p o

/-! ## What `common_prog` is to do -/

variable {ends : Bool} {k k₁ k₂ : Kernel Point} {t newthread : Tid}

/-- `t` is outside `common_prog`. -/
def Returned (k : Kernel Point) (t : Tid) : Prop :=
  (k.thread t).kont.stage = .client (.proc .kernel)

/-- The states in which the machine may be during the call of `common_prog` that `t` makes in `k`,
up to and including the one in which it returns. -/
inductive During (ends : Bool) (k : Kernel Point) (t : Tid) : Kernel Point → Prop where
  | call {es : List Event} {k₁ : Kernel Point} (hcur : k.curthread = some t)
      (hat : (k.thread t).kont = .run (.client (.proc .kernel)))
      (h : step (.op commonProg) k = .ok es k₁) : During ends k t k₁
  | step {k₁ k₂ : Kernel Point} {es : List Event} (h : During ends k t k₁) (hin : ¬ Returned k₁ t)
      (hs : Step (menuClient ends).code k₁ es k₂) : During ends k t k₂

/-- The entry of the child table that `sys_waitpid` follows at this point. -/
def slot : Process.Point → Option ℕ
  | .waitLoop _ i => if i < 20 then some i else none
  | .waitTest _ i => some i
  | .waitCollect _ i => some i
  | .waitSignal _ i => some i
  | .waitRelease _ i => some i
  | _ => none

/-- What `t` accesses next in `common_prog` at this point: a thread structure that has not been
freed, a word at a kernel address, an entry of its child table that is not null. -/
def Point.Valid (k : Kernel Point) (t : Tid) : Point → Prop
  | .forked (some newthread) => (k.thread newthread).life ≠ .freed
  | .a0 tf _ => KernelAddr (a0Addr tf)
  | .a2 tf _ _ => KernelAddr (a2Addr tf)
  | .a1 tf _ _ => KernelAddr (a1Addr tf)
  | .wait p _ => ∀ i, slot p = some i → (k.thread t).proc.child i ≠ none
  | _ => True

/-- The next access of `t` is valid, and if `sys_waitpid` has returned to it the thread it has
started has exited. -/
structure Sound (k : Kernel Point) (t : Tid) : Prop where
  valid : ∀ p, (k.thread t).kont.stage = .client p → p.Valid k t
  exited : ∀ newthread, (k.thread t).kont.stage = .client (.waited newthread) →
    (k.thread newthread).kont.stage = .dead

/-- In every interleaving the call of `common_prog` that `t` makes in `k` accesses valid addresses
only and returns after the thread it has started has exited. -/
def CommonProgOk (ends : Bool) (k : Kernel Point) (t : Tid) : Prop :=
  ∀ k', During ends k t k' → Sound k' t

/-- In some interleaving there is memory for the new thread: the second half of `thread_fork`
succeeds. -/
def ForkSucceeds (ends : Bool) (k : Kernel Point) (t : Tid) : Prop :=
  ∃ k₁ es k₂ newthread, During ends k t k₁ ∧
    (k₁.thread t).kont.stage = .forking newthread (.forked (some newthread)) (.forked none) ∧
    Step (menuClient ends).code k₁ es k₂ ∧
    (k₂.thread t).kont.stage = .client (.forked (some newthread))

/-! ## Runs of `common_prog` -/

/-- What happens during the call is a run of the machine. -/
theorem During.run (h : During ends k t k₁) :
    ∃ tr, Run (Step (menuClient ends).code) k tr k₁ := by
  induction h with
  | call hcur hat h => exact ⟨_, .single ⟨.op commonProg, ⟨t, _, hcur, hat, .commonProg⟩, h⟩⟩
  | step _ _ hs ih =>
    obtain ⟨tr, hrun⟩ := ih
    exact ⟨_, hrun.snoc hs⟩

/-- The state in which `t` has gone on to `p`. -/
def goOnAt (k : Kernel Point) (t : Tid) (p : Point) : Kernel Point :=
  { k with toCore := k.goOn t k.curspl p }

theorem goOnAt_kont (k : Kernel Point) (t : Tid) (p : Point) :
    ((goOnAt k t p).thread t).kont = .run (.client p) :=
  (k.setKont_kont t _ t).trans (if_pos rfl)

theorem goOnAt_kont_of_ne {u : Tid} (hu : u ≠ t) (p : Point) :
    ((goOnAt k t p).thread u).kont = (k.thread u).kont :=
  (k.setKont_kont t _ u).trans (if_neg hu)

/-- The current thread goes on in `common_prog`. -/
theorem During.goOn {p next : Point} (h : During ends k t k₁) (hcur : k₁.curthread = some t)
    (hat : (k₁.thread t).kont = .run (.client p)) (hp : p ≠ .proc .kernel)
    (ho : (menuClient ends).code k₁.toCore t p (.splx k₁.curspl next)) :
    During ends k t (goOnAt k₁ t next) := by
  have hstep : Threads.step (.op (.splx k₁.curspl next)) k₁ = .ok [] (goOnAt k₁ t next) := by
    show (Threads.goOn k₁.curspl next >>= fun _ => pure []) k₁ = _
    simp only [Threads.goOn, curThread, modifyCore, bind, Prog.bind, Prog.get, hcur]
    rfl
  refine h.step ?_ ⟨.op (.splx k₁.curspl next), ⟨t, p, hcur, hat, ho⟩, hstep⟩
  rw [Returned, hat]
  exact fun heq => hp (Stage.client.inj heq)

/-! ## In `thread_fork` -/

/-- No thread has been started so far: `t` is between the two halves of `thread_fork` and the new
thread has not begun, or `thread_fork` has failed. -/
inductive Unstarted (s : Sys Point) (t : Tid) : Prop where
  | forking {newthread : Tid}
      (hat : (s.thread t).kont.stage =
        .forking newthread (.forked (some newthread)) (.forked none))
      (hnew : (s.thread newthread).kont.stage = .client (.proc .progthread))
  | failed (hat : (s.thread t).kont.stage = .client (.forked none))
  | returned (hat : (s.thread t).kont.stage = .client (.proc .kernel))

variable {s s' : Sys Point} {es : List Event}

/-- The first half of `thread_fork`. -/
theorem Unstarted.of_call (hs : OpStep t s commonProg es s') (ht : t ≠ s.created) :
    Unstarted s' t := by
  cases hs with
  | forkNone =>
    refine .failed ?_
    rw [Sys.goOn_kont, if_pos rfl]
    rfl
  | @forkNew _ _ _ th κ haddr hproc hpid hlife =>
    have hkont : ((s.newThread t th κ).thread t).kont = κ := by
      rw [Sys.newThread_kont, if_pos rfl]
    have hnew : ((s.newThread t th κ).thread s.created).kont = th.kont := by
      rw [Sys.newThread_kont, if_neg ht.symm, if_pos rfl]
    rcases hlife with ⟨-, hfresh, rfl⟩ | ⟨-, -, rfl⟩
    · have hat : ((s.newThread t th _).thread t).kont.stage =
          .forking s.created (.forked (some s.created)) (.forked none) := congrArg Kont.stage hkont
      refine .forking hat ?_
      rw [hnew, hfresh]
      rfl
    · exact .failed (congrArg Kont.stage hkont)

/-- A thread in `thread_fork`, by its stage. -/
theorem forking_of_stage {κ : Kont Point} {ok fail : Point}
    (h : κ.stage = .forking newthread ok fail) : κ.Forking newthread := by
  cases κ with
  | run c =>
    cases c with
    | forking new' ok' fail' =>
      cases h
      exact rfl
    | client p => cases h
    | releasing l p => cases h
  | yielded spl c =>
    cases c with
    | forking new' ok' fail' =>
      cases h
      exact rfl
    | client p => cases h
    | releasing l p => cases h
  | _ => cases h

/-- While it is set up by `t` the new thread is where it was. -/
theorem embryo_stage (hs : SStep (menuClient ends).code s es s') (h : s.Placed) {ok fail p : Point}
    (hat : (s.thread t).kont.stage = .forking newthread ok fail)
    (hnew : (s.thread newthread).kont.stage = .client p) :
    (s'.thread newthread).kont.stage = .client p := by
  have hembryo : (s.thread newthread).life = .embryo := h.embryo t newthread (forking_of_stage hat)
  have hne : newthread ≠ s.created := h.ne_created (by rw [hembryo]; exact Life.noConfusion)
  refine (hs.stage_of_ne hne (fun hcur => ?_) (by rw [hnew]; exact trivial)).trans hnew
  cases hembryo.symm.trans (h.life_cur hcur)

/-- A step before the thread is started: nothing has been started, or `thread_fork` returns. -/
theorem Unstarted.step (hun : Unstarted s t) (hs : SStep (menuClient ends).code s es s')
    (h : s.Placed) (ht : t ≠ s.created) (hin : (s.thread t).kont.stage ≠ .client (.proc .kernel)) :
    Unstarted s' t ∨ ∃ newthread,
      (s.thread t).kont.stage = .forking newthread (.forked (some newthread)) (.forked none) ∧
      (s'.thread newthread).kont.stage = .client (.proc .progthread) ∧ s'.curthread = some t ∧
      (s'.thread t).kont = .run (.client (.forked (some newthread))) := by
  cases hun with
  | @forking newthread hat hnew =>
    have hnew' := embryo_stage hs h hat hnew
    rcases hs.forking_stage ht hat with hat' | ⟨-, hcur', hok | hfail⟩
    · exact .inl (.forking hat' hnew')
    · exact .inr ⟨newthread, hat, hnew', hcur', hok⟩
    · exact .inl (.failed (congrArg Kont.stage hfail))
  | failed hat =>
    rcases hs.client_stage ht hat with hat' | ⟨o, hcur, hcode, hop⟩
    · exact .inl (.failed hat')
    · -- All that is left to do is to return.
      cases hcode with
      | forkFailed =>
        cases hop with
        | splx =>
          have hkont := (s.goOn_kont t s.curspl (.proc .kernel) t).trans (if_pos rfl)
          exact .inl (.returned (congrArg Kont.stage hkont))
  | returned hat => exact absurd hat hin

/-- What is sound without a thread that has been started. -/
theorem Unstarted.sound (hun : Unstarted k.view t) : Sound k t := by
  have hstage : ∀ st, (k.thread t).kont.stage = st → Unstarted k.view t →
      (∃ newthread ok fail, st = .forking newthread ok fail) ∨ st = .client (.forked none) ∨
        st = .client (.proc .kernel) := by
    rintro st hst (⟨hat, -⟩ | hat | hat)
    · exact .inl ⟨_, _, _, hst.symm.trans hat⟩
    · exact .inr (.inl (hst.symm.trans hat))
    · exact .inr (.inr (hst.symm.trans hat))
  constructor
  · intro p hp
    rcases hstage _ hp hun with ⟨_, _, _, heq⟩ | heq | heq
    · cases heq
    · cases heq
      exact trivial
    · cases heq
      exact trivial
  · intro newthread hp
    rcases hstage _ hp hun with ⟨_, _, _, heq⟩ | heq | heq <;> cases heq

/-! ## The call -/

/-- `thread_fork` has returned to `t` in `k₂` with a thread that has not begun. -/
structure Started (ends : Bool) (k : Kernel Point) (t newthread : Tid) (k₂ : Kernel Point) :
    Prop where
  during : During ends k t k₂
  cur : k₂.curthread = some t
  at_forked : (k₂.thread t).kont = .run (.client (.forked (some newthread)))
  fresh : (k₂.thread newthread).kont.stage = .client (.proc .progthread)

section Call

variable {count : ℕ → ℤ} {k₀ : Kernel Point} {tr : List Event}

/-- Every state of the call belongs to a run of the machine from boot. -/
theorem During.placed (h0 : Booted (.proc .kernel) count k₀)
    (h : Run (Step (menuClient ends).code) k₀ tr k) (hd : During ends k t k₁) :
    k₁.Ok ∧ k₁.view.Placed := by
  obtain ⟨tr', hrun⟩ := hd.run
  obtain ⟨hok, hboot, hrun'⟩ := Run.refines h0 (h.trans hrun)
  exact ⟨hok, .of_run hboot hrun'⟩

/-- The calling thread was there before the call. -/
theorem During.ne_created (h0 : Booted (.proc .kernel) count k₀)
    (h : Run (Step (menuClient ends).code) k₀ tr k) (hcur : k.curthread = some t)
    (hd : During ends k t k₁) : t ≠ k₁.view.created := by
  obtain ⟨hok, hboot, hrun⟩ := Run.refines h0 h
  have hlive := (Sys.Placed.of_run hboot hrun).life_cur hcur
  have hlt : t < k.created := not_le.mp fun hge => by
    rw [(Sys.Placed.of_run hboot hrun).absent t hge] at hlive
    cases hlive
  obtain ⟨tr', hduring⟩ := hd.run
  have hle := hduring.invariant (I := fun _ k' => k'.Ok ∧ k.created ≤ k'.created) ⟨hok, le_rfl⟩
    fun _ ⟨hok', hle⟩ hs => by
      obtain ⟨hok'', hs'⟩ := hs.refines hok'
      exact ⟨hok'', hle.trans hs'.created_le⟩
  exact (hlt.trans_le hle.2).ne

/-- During the call nothing has been started, or there was a moment at which `thread_fork`
returned with a new thread. -/
theorem During.unstarted_or (h0 : Booted (.proc .kernel) count k₀)
    (h : Run (Step (menuClient ends).code) k₀ tr k) (hd : During ends k t k₁) :
    Unstarted k₁.view t ∨
      ForkSucceeds ends k t ∧ ∃ newthread k₂, Started ends k t newthread k₂ := by
  have hcur : k.curthread = some t := by
    clear h
    induction hd with
    | call hcur _ _ => exact hcur
    | step _ _ _ ih => exact ih
  induction hd with
  | @call es k₁ _ hat hs =>
    obtain ⟨hok, hboot, hrun⟩ := Run.refines h0 h
    have hP := Sys.Placed.of_run hboot hrun
    have hne : t ≠ k.view.created := hP.ne_created (by
      rw [hP.life_cur hcur]
      exact Life.noConfusion)
    obtain ⟨-, hop, -⟩ := (runOp_spec hok hcur commonProg).of_ok hs
    exact .inl (.of_call hop hne)
  | @step k₁ k₂ es hd hin hs ih =>
    rcases ih with hun | hstarted
    · obtain ⟨hok, hP⟩ := hd.placed h0 h
      obtain ⟨-, hs'⟩ := hs.refines hok
      rcases hun.step hs' hP (hd.ne_created h0 h hcur) hin with
        hun' | ⟨newthread, hfork, hnew, hcur', hat⟩
      · exact .inl hun'
      · have hd' : During ends k t k₂ := hd.step hin hs
        exact .inr ⟨⟨k₁, es, k₂, newthread, hd, hfork, hs, congrArg Kont.stage hat⟩,
          newthread, k₂, hd', hcur', hat, hnew⟩
    · exact .inr hstarted

end Call

/-- Once a thread has been started the call is not sound: with the number of the thread in the place
of the trap frame `sys_waitpid` reads outside the kernel, or it takes what it finds for its options
and returns at once. -/
theorem Started.not_ok (h : Started ends k t newthread k₂) : ¬ CommonProgOk ends k t := by
  intro hok
  have hne : newthread ≠ t := fun heq => by
    have hfresh := h.fresh
    rw [heq, h.at_forked] at hfresh
    cases hfresh
  let tf := u32 (k₂.thread newthread).pid
  -- The call of `sys_waitpid` and its first read.
  have h₃ : During ends k t (goOnAt k₂ t (.a0 tf newthread)) :=
    h.during.goOn h.cur h.at_forked Point.noConfusion .sysWaitpid
  have hat₃ := goOnAt_kont k₂ t (.a0 tf newthread)
  have ha0 : KernelAddr (a0Addr tf) := (hok _ h₃).valid _ (congrArg Kont.stage hat₃)
  have h₄ := h₃.goOn h.cur hat₃ Point.noConfusion (.readA0 0 ha0)
  have hat₄ := goOnAt_kont (goOnAt k₂ t (.a0 tf newthread)) t (.a2 tf (s32 (0 : ℕ)) newthread)
  have ha2 : KernelAddr (a2Addr tf) := (hok _ h₄).valid _ (congrArg Kont.stage hat₄)
  -- Options that are not zero.
  have h₅ := h₄.goOn h.cur hat₄ Point.noConfusion (.options ha2)
  have hdead := (hok _ h₅).exited newthread (congrArg Kont.stage (goOnAt_kont _ t _))
  rw [goOnAt_kont_of_ne hne, goOnAt_kont_of_ne hne, goOnAt_kont_of_ne hne, h.fresh] at hdead
  cases hdead

/-- A program is run from the menu as it should if and only if none is run: `common_prog` accesses
valid addresses only and waits for the thread it starts, in every interleaving, exactly if there is
no interleaving in which `thread_fork` gets the memory for a new thread. -/
theorem commonProg_ok_iff {count : ℕ → ℤ} {k₀ : Kernel Point} {tr : List Event}
    (h0 : Booted (.proc .kernel) count k₀) (h : Run (Step (menuClient ends).code) k₀ tr k) :
    CommonProgOk ends k t ↔ ¬ ForkSucceeds ends k t := by
  constructor
  · rintro hok ⟨k₁, es, k₂, newthread, hd, hfork, hs, hforked⟩
    have hin : ¬ Returned k₁ t := fun hret => by cases hfork.symm.trans hret
    rcases (hd.step hin hs).unstarted_or h0 h with hun | ⟨-, _, _, hstarted⟩
    · cases hun with
      | forking hat _ => cases hat.symm.trans hforked
      | failed hat => cases hat.symm.trans hforked
      | returned hat => cases hat.symm.trans hforked
    · exact hstarted.not_ok hok
  · intro hno k' hd
    rcases hd.unstarted_or h0 h with hun | ⟨hyes, -⟩
    · exact hun.sound
    · exact absurd hyes hno

/-! ## The first program -/

/-- The machine after boot, with memory for everything. -/
def menuBooted : Kernel Point :=
  (bootstrap (.proc .kernel) (blank (fun _ => 0) [])).stateD (blank (fun _ => 0) [])

theorem booted_menuBooted : Booted (.proc .kernel) (fun _ => 0) menuBooted :=
  ⟨fun _ => ⟨le_rfl, Int.ofNat_lt.mpr (by decide)⟩, [], Outcome.eq_ok _ () _ (by decide)⟩

/-- The menu is between the two halves of `thread_fork`. -/
def menuForking : Kernel Point := (step (.op commonProg) menuBooted).stateD menuBooted

/-- `thread_fork` has returned to the menu. -/
def menuForked : Kernel Point := (step .proceed menuForking).stateD menuForking

theorem during_menuForking : During false menuBooted 0 menuForking := by
  have hat : (menuBooted.thread 0).kont = .run (.client (.proc .kernel)) :=
    booted_menuBooted.spec.2.1.first.2.1
  exact .call (by decide) hat (Outcome.eq_ok _ [] _ (by decide))

theorem step_menuForked : Step (menuClient false).code menuForking [] menuForked := by
  refine ⟨.proceed, (by decide : menuForking.curthread ≠ none), ?_⟩
  exact Outcome.eq_ok _ [] _ (by decide)

theorem during_menuForked : During false menuBooted 0 menuForked := by
  refine during_menuForking.step (fun hret => ?_) step_menuForked
  exact absurd hret (by rw [Returned]; decide)

theorem stage_menuForking :
    (menuForking.thread 0).kont.stage = .forking 1 (.forked (some 1)) (.forked none) := by
  decide

theorem stage_menuForked : (menuForked.thread 0).kont.stage = .client (.forked (some 1)) := by
  decide

theorem forkSucceeds_menuBooted : ForkSucceeds false menuBooted 0 :=
  ⟨menuForking, [], menuForked, 1, during_menuForking, stage_menuForking, step_menuForked,
    stage_menuForked⟩

/-- The first program: the call is not sound. -/
theorem commonProg_ok_iff_menuBooted : ¬ CommonProgOk false menuBooted 0 :=
  fun hok => (commonProg_ok_iff booted_menuBooted .refl).mp hok forkSucceeds_menuBooted

/-- The first thread that is forked has the number 0, and so the first program started from the menu
makes `sys_waitpid` read the word at the address 36. -/
theorem commonProg_reads_address_36 :
    Booted (.proc .kernel) (fun _ => 0) menuBooted ∧
      (∃ k', During false menuBooted 0 k' ∧ (k'.thread 0).kont.stage = .client (.a0 0 1)) ∧
      a0Addr 0 = 36 ∧ ¬ KernelAddr (a0Addr 0) ∧ ¬ CommonProgOk false menuBooted 0 := by
  have hkont : (menuForked.thread 0).kont = .run (.client (.forked (some 1))) := by
    have hstep := (step_menuForked.refines (during_menuForking.placed booted_menuBooted .refl).1).2
    rcases hstep.forking_stage (t := 0) (by decide) stage_menuForking with
      hat | ⟨-, -, hok | hfail⟩
    · cases hat.symm.trans stage_menuForked
    · exact hok
    · cases (congrArg Kont.stage hfail).symm.trans stage_menuForked
  have hpid : u32 (menuForked.thread 1).pid = 0 := by decide +kernel
  have hcode : (menuClient false).code menuForked.toCore 0 (.forked (some 1))
      (.splx menuForked.curspl (.a0 (u32 (menuForked.thread 1).pid) 1)) := .sysWaitpid
  rw [hpid] at hcode
  have hduring := during_menuForked.goOn (by decide +kernel) hkont Point.noConfusion hcode
  have hat := congrArg Kont.stage (goOnAt_kont menuForked 0 (.a0 0 1))
  have haddr : ¬ KernelAddr (a0Addr 0) := by decide +kernel
  refine ⟨booted_menuBooted, ⟨_, hduring, hat⟩, by decide +kernel, haddr, fun hok => ?_⟩
  exact haddr ((hok _ hduring).valid _ hat)

end Os161.Menu
