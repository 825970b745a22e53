import Mathlib.Tactic
import Os161.Thread.Protocol

/-!
# What the callers of the primitives see

The thread system with the scheduler left out and the code of the threads kept: at which point every
thread is (`Stage`), who owns each lock, who is asleep on each condition variable, and the fields
that system calls read and write (`Scene`). A thread may be preempted anywhere. The steps of the
others leave it where it is, unless it is blocked (`SStep.stage_of_ne`), and at a point of its own
code it stays there or does what its code says (`SStep.client_stage`).
-/

namespace Os161.Threads

variable {π : Type} {s s' : Sys π} {t : Tid}

/-! ## Scenes -/

/-- What a thread is doing: at a point of its own code, in one of the operations that may be
interrupted, or nothing any more. -/
inductive Stage (π : Type) where
  | client (p : π)
  | releasing (l : Lock) (p : π)
  | forking (new : Tid) (ok fail : π)
  | locking (l : Lock) (cv : Option Cv) (p : π)
  | waiting (c : Cv) (l : Lock) (p : π)
  | dead
deriving DecidableEq

/-- Where the thread is in its code, whether it runs or not. -/
def Ctl.stage : Ctl π → Stage π
  | .client p => .client p
  | .releasing l p => .releasing l p
  | .forking new ok fail => .forking new ok fail

/-- A thread asleep in `P` or in a `thread_sleep` of its own is at the point where it will go on. -/
def Kont.stage : Kont π → Stage π
  | .run c => c.stage
  | .fresh p => .client p
  | .yielded _ c => c.stage
  | .slept p => .client p
  | .locking l _ cv p => .locking l cv p
  | .passing _ _ p => .client p
  | .waiting c l _ p => .waiting c l p
  | .dead => .dead

/-- The code of threads that look at the fields of system calls, the numbers of threads and the
interrupt level only. -/
abbrev Client (π : Type) := (Tid → Proc) → (Tid → ℤ) → ℕ → Tid → π → Op π → Prop

/-- The same as code of the machine. -/
def Client.code (client : Client π) : Code π := fun k t p o =>
  client (fun u => (k.thread u).proc) (fun u => (k.thread u).pid) k.curspl t p o

/-- Operations after which nothing has changed but that the thread is at `next`. -/
inductive Op.Plain : Op π → π → Prop where
  | splx {spl : ℕ} {next : π} : Op.Plain (.splx spl next) next
  | yield {next : π} : Op.Plain (.yield next) next
  | sleep {n : ℕ} {next : π} : Op.Plain (.sleep n next) next
  | wakeup {n : ℕ} {next : π} : Op.Plain (.wakeup n next) next
  | wakeone {n : ℕ} {next : π} : Op.Plain (.wakeone n next) next
  | p {n : ℕ} {next : π} : Op.Plain (.p n next) next
  | v {n : ℕ} {next : π} : Op.Plain (.v n next) next

theorem TryLock.kont {l : Lock} {spl : ℕ} {cv : Option Cv} {next : π} {es : List Event}
    (hs : TryLock t l spl cv next s es s') {u : Tid} (hu : u ≠ t) :
    (s'.thread u).kont = (s.thread u).kont := by
  cases hs with
  | block hown => rw [Sys.toSleepers_kont, if_neg hu]
  | get hown => exact (Sys.goOn_kont _ t spl next u).trans (if_neg hu)

theorem TryP.kont {n spl : ℕ} {next : π} {es : List Event} (hs : TryP t n spl next s es s') {u : Tid}
    (hu : u ≠ t) : (s'.thread u).kont = (s.thread u).kont := by
  cases hs with
  | block hcount => rw [Sys.toSleepers_kont, if_neg hu]
  | get hcount => exact (Sys.goOn_kont _ t spl next u).trans (if_neg hu)

/-- An operation does not touch what the other threads do next. -/
theorem OpStep.kont {o : Op π} {es : List Event} (hs : OpStep t s o es s') {u : Tid} (hu : u ≠ t)
    (hne : u ≠ s.created) : (s'.thread u).kont = (s.thread u).kont := by
  cases hs with
  | acquire htry => exact htry.kont hu
  | p htry => exact htry.kont hu
  | sleep hspl => rw [Sys.toSleepers_kont, if_neg hu]
  | wait hown => exact (Sys.toSleepers_kont _ t _ _ u).trans (if_neg hu)
  | wakeone hspl => rw [Sys.goOn_kont, if_neg hu, Sys.wakeFirst_toCore]
  | signal => rw [Sys.goOn_kont, if_neg hu, Sys.wakeFirst_toCore]
  | forkNew haddr hproc hpid hlife => rw [Sys.newThread_kont, if_neg hu, if_neg hne]
  | _ => exact (Core.setKont_kont _ t _ u).trans (if_neg hu)

/-- Neither does a thread that has been switched to. -/
theorem Resume.kont {es : List Event} (hs : Resume t s es s') {u : Tid} (hu : u ≠ t) :
    (s'.thread u).kont = (s.thread u).kont := by
  cases hs with
  | yielded hk => exact (s.setKont_kont t _ u).trans (if_neg hu)
  | slept hk => rw [Sys.goOn_kont, if_neg hu, Sys.clearAddr_kont]
  | locking hk htry => rw [htry.kont hu, Sys.clearAddr_kont]
  | passing hk htry => rw [htry.kont hu, Sys.clearAddr_kont]
  | waiting hk htry => rw [htry.kont hu, Sys.clearAddr_kont]

/-- A thread is not the next structure to be made. -/
theorem Sys.Placed.ne_created (h : s.Placed) {u : Tid} (hu : (s.thread u).life ≠ .absent) :
    u ≠ s.created := fun heq => hu (h.absent u heq.ge)

variable {code : Code π}

/-! ## Threads that are not current -/

/-- Neither blocked in `lock_acquire` nor in `cv_wait`. -/
def Stage.Unblocked : Stage π → Prop
  | .locking _ _ _ => False
  | .waiting _ _ _ => False
  | _ => True

/-- A thread that has been switched to is where it was, unless it has been blocked. -/
theorem Resume.stage {es : List Event} (hs : Resume t s es s')
    (hat : (s.thread t).kont.stage.Unblocked) :
    (s'.thread t).kont.stage = (s.thread t).kont.stage := by
  cases hs with
  | @yielded spl c hk =>
    have hrun : ((s.setKont t (.run c)).thread t).kont.stage = c.stage := by
      rw [Core.setKont_kont, if_pos rfl]
      rfl
    rw [hk]
    exact hrun
  | slept hk =>
    rw [Sys.goOn_kont, if_pos rfl, hk]
    rfl
  | locking hk htry =>
    rw [hk] at hat
    exact hat.elim
  | passing hk htry =>
    rw [hk]
    cases htry with
    | block hcount => rw [Sys.toSleepers_kont, if_pos rfl]
    | get hcount =>
      rw [Sys.goOn_kont, if_pos rfl]
      rfl
  | waiting hk htry =>
    rw [hk] at hat
    exact hat.elim

/-- The steps of the others leave a thread where it is. -/
theorem SStep.stage_of_ne {es : List Event} (hs : SStep code s es s') (hne : t ≠ s.created)
    (hcur : s.curthread ≠ some t) (hat : (s.thread t).kont.stage.Unblocked) :
    (s'.thread t).kont.stage = (s.thread t).kont.stage := by
  have hother {u : Tid} (hu : s.curthread = some u) : t ≠ u := fun heq => hcur (heq ▸ hu)
  cases hs with
  | op hcur' hk hcode hop => exact congrArg Kont.stage (hop.kont (hother hcur') hne)
  | release hcur' hk =>
    exact congrArg Kont.stage ((Sys.goOn_kont _ _ _ _ t).trans (if_neg (hother hcur')))
  | @forked u new ok fail hcur' hk =>
    rw [Sys.goOn_kont, if_neg (hother hcur')]
    exact congrArg Kont.stage (s.addThread_kont u new t)
  | @forkFails u new ok fail hcur' hk =>
    rw [Sys.goOn_kont, if_neg (hother hcur')]
    exact congrArg Kont.stage (s.setThread_proj (t := new)
      (f := fun th => { th with life := .freed }) Thread.kont (fun _ => rfl) t)
  | timer second hcur' hspl hk =>
    cases second with
    | true => exact congrArg Kont.stage ((Core.setKont_kont _ _ _ t).trans (if_neg (hother hcur')))
    | false => exact congrArg Kont.stage ((Core.setKont_kont _ _ _ t).trans (if_neg (hother hcur')))
  | idle second hcur' =>
    cases second with
    | true => rfl
    | false => rfl
  | device hon hcount => rfl
  | @start u p rest hcur' hq hk =>
    rw [Sys.goOn_kont]
    split
    case isTrue heq =>
      subst heq
      exact (congrArg Kont.stage hk).symm
    case isFalse => rfl
  | @switch _ u rest es hcur' hq hres =>
    have hsame : ((s.switchTo u rest).thread t).kont = (s.thread t).kont := by
      simp only [Sys.switchTo]
      split <;> rfl
    by_cases heq : t = u
    · subst heq
      rw [hres.stage (by rwa [hsame]), hsame]
    · rw [hres.kont heq, hsame]

/-- A thread at a point of its own code stays there or does what its code says. -/
theorem SStep.client_stage {es : List Event} {p : π} (hs : SStep code s es s')
    (hne : t ≠ s.created) (hat : (s.thread t).kont.stage = .client p) :
    (s'.thread t).kont.stage = .client p ∨
      ∃ o, s.curthread = some t ∧ code s.toCore t p o ∧ OpStep t s o es s' := by
  by_cases hcur : s.curthread = some t
  case neg => exact .inl ((hs.stage_of_ne hne hcur (by rw [hat]; exact trivial)).trans hat)
  have hsame {u : Tid} (hu : s.curthread = some u) : u = t := Option.some.inj (hu.symm.trans hcur)
  have hself {u : Tid} {κ : Kont π} (hu : s.curthread = some u) (hk : (s.thread u).kont = κ) :
      κ.stage = .client p := by rw [← hk, hsame hu, hat]
  cases hs with
  | op hcur' hk hcode hop =>
    cases hself hcur' hk
    obtain rfl := hsame hcur'
    exact .inr ⟨_, hcur, hcode, hop⟩
  | release hcur' hk => cases hself hcur' hk
  | forked hcur' hk => cases hself hcur' hk
  | forkFails hcur' hk => cases hself hcur' hk
  | @timer u c second hcur' hspl hk =>
    have hyield : ((s.setKont u (.yielded 0 c)).thread t).kont.stage = c.stage := by
      rw [Core.setKont_kont, if_pos (hsame hcur').symm]
      rfl
    refine .inl (Eq.trans ?_ (hself hcur' hk))
    cases second with
    | true => exact hyield
    | false => exact hyield
  | device hon hcount => exact .inl hat
  | idle second hcur' => cases hcur'.symm.trans hcur
  | start hcur' hq hk => cases hcur'.symm.trans hcur
  | switch hcur' hq hres => cases hcur'.symm.trans hcur

/-- A thread between the two halves of `thread_fork` stays there, or is current and has returned
from it. -/
theorem SStep.forking_stage {es : List Event} {new : Tid} {ok fail : π} (hs : SStep code s es s')
    (hne : t ≠ s.created) (hat : (s.thread t).kont.stage = .forking new ok fail) :
    (s'.thread t).kont.stage = .forking new ok fail ∨
      s.curthread = some t ∧ s'.curthread = some t ∧
        ((s'.thread t).kont = .run (.client ok) ∨ (s'.thread t).kont = .run (.client fail)) := by
  by_cases hcur : s.curthread = some t
  case neg => exact .inl ((hs.stage_of_ne hne hcur (by rw [hat]; exact trivial)).trans hat)
  have hsame {u : Tid} (hu : s.curthread = some u) : u = t := Option.some.inj (hu.symm.trans hcur)
  have hself {u : Tid} {κ : Kont π} (hu : s.curthread = some u) (hk : (s.thread u).kont = κ) :
      κ.stage = .forking new ok fail := by rw [← hk, hsame hu, hat]
  cases hs with
  | op hcur' hk hcode hop => cases hself hcur' hk
  | release hcur' hk => cases hself hcur' hk
  | forked hcur' hk =>
    cases hself hcur' hk
    obtain rfl := hsame hcur'
    exact .inr ⟨hcur, hcur, .inl ((Sys.goOn_kont _ _ _ _ _).trans (if_pos rfl))⟩
  | forkFails hcur' hk =>
    cases hself hcur' hk
    obtain rfl := hsame hcur'
    exact .inr ⟨hcur, hcur, .inr ((Sys.goOn_kont _ _ _ _ _).trans (if_pos rfl))⟩
  | @timer u c second hcur' hspl hk =>
    have hyield : ((s.setKont u (.yielded 0 c)).thread t).kont.stage = c.stage := by
      rw [Core.setKont_kont, if_pos (hsame hcur').symm]
      rfl
    refine .inl (Eq.trans ?_ (hself hcur' hk))
    cases second with
    | true => exact hyield
    | false => exact hyield
  | device hon hcount => exact .inl hat
  | idle second hcur' => cases hcur'.symm.trans hcur
  | start hcur' hq hk => cases hcur'.symm.trans hcur
  | switch hcur' hq hres => cases hcur'.symm.trans hcur

/-- The current thread is one. -/
theorem Sys.Placed.life_cur (h : s.Placed) (hcur : s.curthread = some t) :
    (s.thread t).life = .thread :=
  (h.mem_iff t).mp (by simp [Sys.places, hcur])

end Os161.Threads
