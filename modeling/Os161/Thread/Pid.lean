import Mathlib.Tactic
import Os161.Thread.Partition

/-!
# Process identifiers

`thread_create` numbers threads with `pid_assign`. The first thread gets 0, and then
`thread_bootstrap` sets the counter back to 0, so that the next thread gets 0 as well. As long as
the counter does not wrap around these two are the only threads that ever share a number.
-/

namespace Os161.Threads

open Prog

variable {π : Type} {code : Code π} {s s' : Sys π} {t : Tid} {es : List Event}

/-- What a step does to the numbers: nothing, or a structure is made. -/
def SamePids (s s' : Sys π) : Prop :=
  s'.created = s.created ∧ s'.pidAssign = s.pidAssign ∧
    ∀ u, (s'.thread u).pid = (s.thread u).pid

theorem SamePids.trans {s₁ s₂ : Sys π} (h : SamePids s s₁) (h' : SamePids s₁ s₂) : SamePids s s₂ :=
  ⟨h'.1.trans h.1, h'.2.1.trans h.2.1, fun u => (h'.2.2 u).trans (h.2.2 u)⟩

theorem SamePids.goOn (t : Tid) (spl : ℕ) (p : π) : SamePids s (s.goOn t spl p) :=
  ⟨rfl, rfl, s.goOn_pid t spl p⟩

theorem SamePids.wakeFirst (a : Addr) : SamePids s (s.wakeFirst a) := by
  rw [SamePids, s.wakeFirst_toCore]
  exact ⟨rfl, rfl, fun _ => rfl⟩

theorem TryLock.pid {l : Lock} {spl : ℕ} {cv : Option Cv} {next : π}
    (hs : TryLock t l spl cv next s es s') : SamePids s s' := by
  cases hs with
  | block hown => exact ⟨rfl, rfl, s.toSleepers_pid t _ _⟩
  | get hown => exact ⟨rfl, rfl, Sys.goOn_pid _ t spl next⟩

theorem TryP.pid {n spl : ℕ} {next : π} (hs : TryP t n spl next s es s') : SamePids s s' := by
  cases hs with
  | block hcount => exact ⟨rfl, rfl, s.toSleepers_pid t _ _⟩
  | get hcount => exact ⟨rfl, rfl, Sys.goOn_pid _ t spl next⟩

theorem Resume.pid (hs : Resume t s es s') : SamePids s s' := by
  have hclear : SamePids s (s.clearAddr t) := ⟨rfl, rfl, s.clearAddr_pid t⟩
  cases hs with
  | yielded hk => exact ⟨rfl, rfl, s.setKont_pid t _⟩
  | slept hk => exact hclear.trans (.goOn t _ _)
  | locking hk htry => exact hclear.trans htry.pid
  | passing hk htry => exact hclear.trans htry.pid
  | waiting hk htry => exact hclear.trans htry.pid

theorem OpStep.pid {o : Op π} (hs : OpStep t s o es s') :
    SamePids s s' ∨ s'.created = s.created + 1 ∧ s'.pidAssign = s32 (s.pidAssign + 1) ∧
      ∀ u, (s'.thread u).pid = if u = s.created then s.pidAssign else (s.thread u).pid := by
  cases hs with
  | @forkNew start ok fail th κ haddr hproc hpid hlife =>
    refine .inr ⟨rfl, rfl, fun u => ?_⟩
    rw [s.newThread_proj t th κ u Thread.pid fun _ _ => rfl, hpid]
  | acquire htry => exact .inl htry.pid
  | p htry => exact .inl htry.pid
  | sleep hspl => exact .inl ⟨rfl, rfl, s.toSleepers_pid t _ _⟩
  | wait hown => exact .inl ⟨rfl, rfl, Sys.toSleepers_pid _ t _ _⟩
  | wakeone hspl => exact .inl ((SamePids.wakeFirst _).trans (.goOn t _ _))
  | signal => exact .inl ((SamePids.wakeFirst _).trans (.goOn t _ _))
  | _ => exact .inl ⟨rfl, rfl, Core.setKont_pid _ t _⟩

theorem SStep.pid (hs : SStep code s es s') :
    SamePids s s' ∨ s'.created = s.created + 1 ∧ s'.pidAssign = s32 (s.pidAssign + 1) ∧
      ∀ u, (s'.thread u).pid = if u = s.created then s.pidAssign else (s.thread u).pid := by
  cases hs with
  | op hcur hk hcode hop => exact hop.pid
  | release hcur hk => exact .inl ⟨rfl, rfl, Sys.goOn_pid _ _ _ _⟩
  | @forked t new ok fail hcur hk =>
    exact .inl ⟨rfl, rfl, fun u => (Sys.goOn_pid _ _ _ _ u).trans (s.addThread_pid t new u)⟩
  | @forkFails t new ok fail hcur hk =>
    refine .inl ⟨rfl, rfl, fun u => (Sys.goOn_pid _ _ _ _ u).trans ?_⟩
    exact s.setThread_proj (t := new) (f := fun th => { th with life := .freed }) Thread.pid
      (fun _ => rfl) u
  | timer second hcur hspl hk => cases second <;> exact .inl ⟨rfl, rfl, Core.setKont_pid _ _ _⟩
  | idle second hcur => cases second <;> exact .inl ⟨rfl, rfl, fun _ => rfl⟩
  | device hon hcount => exact .inl ⟨rfl, rfl, fun _ => rfl⟩
  | start hcur hq hk => exact .inl ⟨rfl, rfl, Sys.goOn_pid _ _ _ _⟩
  | switch hcur hq hres =>
    obtain ⟨hcreated, hassign, hpid⟩ := hres.pid
    refine .inl ⟨hcreated, hassign, fun u => (hpid u).trans ?_⟩
    simp only [Sys.switchTo]
    split <;> rfl

theorem SStep.created_le (hs : SStep code s es s') : s.created ≤ s'.created := by
  rcases hs.pid with ⟨hcreated, -⟩ | ⟨hcreated, -⟩
  · exact hcreated.ge
  · omega

/-- As long as fewer than `2 ^ 31` structures have been made, the first thread has the number 0 and
every other one the number one below its place in the order of creation. -/
def Sys.Numbered (s : Sys π) : Prop :=
  0 < s.created ∧ (s.created < 2147483648 → s.pidAssign = s.created - 1 ∧
    ∀ t < s.created, (s.thread t).pid = (t - 1 : ℕ))

theorem SStep.numbered (hs : SStep code s es s') (h : s.Numbered) : s'.Numbered := by
  obtain ⟨hpos, hnum⟩ := h
  rcases hs.pid with ⟨hcreated, hassign, hpid⟩ | ⟨hcreated, hassign, hpid⟩
  · refine ⟨hcreated ▸ hpos, fun hlt => ?_⟩
    obtain ⟨hassign', hpid'⟩ := hnum (hcreated ▸ hlt)
    refine ⟨by rw [hassign, hcreated, hassign'], fun t ht => ?_⟩
    rw [hpid, hpid' t (hcreated ▸ ht)]
  · refine ⟨by omega, fun hlt => ?_⟩
    obtain ⟨hassign', hpid'⟩ := hnum (by omega)
    refine ⟨?_, fun t ht => ?_⟩
    · rw [hassign, hassign', hcreated, s32_of_range (by omega) (by omega)]
      push_cast
      ring
    · rw [hpid]
      split
      case isTrue heq =>
        rw [heq, hassign']
        omega
      case isFalse hne =>
        rw [hcreated, Nat.lt_succ_iff] at ht
        exact hpid' t (lt_of_le_of_ne ht hne)

/-- The structure of `t` belongs to a thread that has not been destroyed. -/
def Core.Undestroyed (k : Core π) (t : Tid) : Prop := (k.thread t).life = .thread

/-- With fewer than `2 ^ 31` thread creations, any two threads that have not been destroyed have
different numbers if and only if the first thread or the first one that was forked has been
destroyed. -/
theorem pids_unique_iff {p : π} {count : ℕ → ℤ} {k₀ k : Kernel π} {tr : List Event}
    (h0 : Booted p count k₀) (h : Run (Step code) k₀ tr k) (hlt : k.created < 2147483648) :
    (∀ t u, k.Undestroyed t → k.Undestroyed u → t ≠ u → (k.thread t).pid ≠ (k.thread u).pid) ↔
      ¬ (k.Undestroyed 0 ∧ k.Undestroyed 1) := by
  obtain ⟨-, hboot, hrun⟩ := Run.refines h0 h
  have hP : k.view.Placed := .of_run hboot hrun
  have hnum : k.view.Numbered := by
    refine hrun.invariant (I := fun _ s => s.Numbered) ⟨?_, fun _ => ⟨?_, fun t ht => ?_⟩⟩
      fun _ h hs => hs.numbered h
    · rw [hboot.created]
      decide
    · rw [hboot.created, hboot.pidAssign]
      rfl
    · rw [hboot.created] at ht
      obtain rfl : t = 0 := by omega
      exact hboot.first.2.2.2
  have hpid (t : Tid) (ht : k.Undestroyed t) : (k.thread t).pid = (t - 1 : ℕ) := by
    refine (hnum.2 hlt).2 t (not_le.mp fun hge => ?_)
    have habsent := hP.absent t hge
    rw [show (k.view.thread t).life = .thread from ht] at habsent
    cases habsent
  constructor
  · rintro hdiff ⟨h0', h1'⟩
    refine hdiff 0 1 h0' h1' (by decide) ?_
    rw [hpid 0 h0', hpid 1 h1']
  · intro hnot t u ht hu hne heq
    rw [hpid t ht, hpid u hu] at heq
    have heq : t - 1 = u - 1 := by exact_mod_cast heq
    have hcases (m n : ℕ) (hne : m ≠ n) (heq : m - 1 = n - 1) : m = 0 ∧ n = 1 ∨ m = 1 ∧ n = 0 := by
      omega
    rcases hcases t u hne heq with ⟨rfl, rfl⟩ | ⟨rfl, rfl⟩
    · exact hnot ⟨ht, hu⟩
    · exact hnot ⟨hu, ht⟩

/-- The first thread forks once: both threads have the number 0. -/
theorem pid_shared_forkNow :
    (∃ tr, Run (Step anyCode) (bootedWith []) tr (after forkNow (bootedWith []))) ∧
      Booted () (fun _ => 0) (bootedWith []) ∧
      (after forkNow (bootedWith [])).created = 2 ∧
      (after forkNow (bootedWith [])).Undestroyed 0 ∧
      (after forkNow (bootedWith [])).Undestroyed 1 ∧
      ((after forkNow (bootedWith [])).thread 0).pid =
        ((after forkNow (bootedWith [])).thread 1).pid := by
  refine ⟨⟨_, run_after (by decide)⟩, booted_bootedWith (by decide), ?_, ?_, ?_, ?_⟩
  · decide
  · exact (by decide : ((after forkNow (bootedWith [])).thread 0).life = .thread)
  · exact (by decide : ((after forkNow (bootedWith [])).thread 1).life = .thread)
  · decide

theorem pids_unique_iff_forkNow :
    ¬ ∀ t u, (after forkNow (bootedWith [])).Undestroyed t →
      (after forkNow (bootedWith [])).Undestroyed u → t ≠ u →
      ((after forkNow (bootedWith [])).thread t).pid ≠
        ((after forkNow (bootedWith [])).thread u).pid := by
  have hboot : Booted () (fun _ => 0) (bootedWith []) := booted_bootedWith (by decide)
  have hrun : Run (Step anyCode) (bootedWith []) _ (after forkNow (bootedWith [])) :=
    run_after (by decide)
  have hiff := pids_unique_iff hboot hrun (by decide)
  rw [hiff, not_not]
  exact ⟨(by decide : ((after forkNow (bootedWith [])).thread 0).life = .thread),
    (by decide : ((after forkNow (bootedWith [])).thread 1).life = .thread)⟩

end Os161.Threads
