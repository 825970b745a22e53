import Mathlib.Tactic
import Os161.Thread.Refine

/-!
# Every thread is in one place

A thread is current, or on exactly one of the run queue, the sleepers and the zombies, and there
only once. The invariant also follows the structures that `thread_fork` is setting up: nobody but
the forking thread knows them, so that a new thread is on no list when it is made runnable.
-/

namespace Os161.Threads

open Prog

variable {π : Type} {code : Code π} {s s' : Sys π} {t : Tid}

/-! ## Places -/

/-- All places of threads: the current thread and the three lists. -/
def Sys.places (s : Sys π) : List Tid := s.curthread.toList ++ s.runq ++ s.sleepers ++ s.zombies

/-- A thread in `thread_fork`, setting up the structure `new`. -/
def Kont.Forking (new : Tid) : Kont π → Prop
  | .run (.forking new' _ _) => new' = new
  | .yielded _ (.forking new' _ _) => new' = new
  | _ => False

theorem Kont.forking_yielded {new : Tid} {spl : ℕ} {c : Ctl π} :
    (Kont.yielded spl c).Forking new ↔ (Kont.run c).Forking new := by
  cases c <;> rfl

/-- The threads are where they should be. -/
structure Sys.Placed (s : Sys π) : Prop where
  nodup : s.places.Nodup
  mem_iff : ∀ t, t ∈ s.places ↔ (s.thread t).life = .thread
  num : s.numthreads = s.curthread.toList.length + s.runq.length + s.sleepers.length
  absent : ∀ t, s.created ≤ t → (s.thread t).life = .absent
  embryo : ∀ t new, (s.thread t).kont.Forking new → (s.thread new).life = .embryo
  embryo_inj : ∀ t u new, (s.thread t).kont.Forking new → (s.thread u).kont.Forking new → t = u

namespace Sys.Placed

/-- Threads change places, and no structure is made or freed. -/
theorem perm (h : s.Placed) (hplaces : s'.places.Perm s.places)
    (hnum : s'.numthreads = s'.curthread.toList.length + s'.runq.length + s'.sleepers.length)
    (hcreated : s'.created = s.created) (hlife : ∀ u, (s'.thread u).life = (s.thread u).life)
    (hkont : ∀ u new, (s'.thread u).kont.Forking new → (s.thread u).kont.Forking new) :
    s'.Placed where
  nodup := hplaces.nodup_iff.mpr h.nodup
  mem_iff u := by rw [hplaces.mem_iff, h.mem_iff, hlife]
  num := hnum
  absent u hu := by rw [hlife, h.absent u (hcreated ▸ hu)]
  embryo u new hu := by rw [hlife, h.embryo u new (hkont u new hu)]
  embryo_inj u v new hu hv := h.embryo_inj u v new (hkont u new hu) (hkont v new hv)

/-- Nobody changes places. -/
theorem frame (h : s.Placed) (hcur : s'.curthread = s.curthread) (hrunq : s'.runq = s.runq)
    (hsleepers : s'.sleepers = s.sleepers) (hzombies : s'.zombies = s.zombies)
    (hnum : s'.numthreads = s.numthreads) (hcreated : s'.created = s.created)
    (hlife : ∀ u, (s'.thread u).life = (s.thread u).life)
    (hkont : ∀ u new, (s'.thread u).kont.Forking new → (s.thread u).kont.Forking new) :
    s'.Placed := by
  refine h.perm ?_ ?_ hcreated hlife hkont
  · rw [Sys.places, Sys.places, hcur, hrunq, hsleepers, hzombies]
  · rw [hnum, hcur, hrunq, hsleepers]
    exact h.num

/-- The thread `t` goes on, and not with another fork. -/
theorem setKont (h : s.Placed) {κ : Kont π}
    (hκ : ∀ new, κ.Forking new → (s.thread t).kont.Forking new) (spl : ℕ) :
    (s.mapCore fun k => { k.setKont t κ with curspl := spl }).Placed := by
  refine h.frame rfl rfl rfl rfl rfl rfl (s.setKont_life t κ) ?_
  intro u new hu
  rw [show ((s.mapCore fun k => { k.setKont t κ with curspl := spl }).thread u).kont = _ from
    s.setKont_kont t κ u] at hu
  split at hu
  case isTrue heq => exact heq ▸ hκ new hu
  case isFalse => exact hu

theorem goOn (h : s.Placed) (t : Tid) (spl : ℕ) (p : π) : (s.goOn t spl p).Placed :=
  h.setKont (κ := .run (.client p)) (fun _ hf => hf.elim) spl

theorem raise (h : s.Placed) : s.raise.Placed :=
  h.frame rfl rfl rfl rfl rfl rfl (fun _ => rfl) fun _ _ hu => hu

theorem setOwn (h : s.Placed) (l : Lock) (owner : Option Tid) : (s.setOwn l owner).Placed :=
  h.frame rfl rfl rfl rfl rfl rfl (fun _ => rfl) fun _ _ hu => hu

theorem setCount (h : s.Placed) (n : ℕ) (c : ℤ) : (s.setCount n c).Placed :=
  h.frame rfl rfl rfl rfl rfl rfl (fun _ => rfl) fun _ _ hu => hu

theorem setProc (h : s.Placed) {f : (Tid → Proc) → Tid → Proc} :
    (s.mapCore fun k => k.setProc f).Placed :=
  h.frame rfl rfl rfl rfl rfl rfl (fun _ => rfl) fun _ _ hu => hu

theorem clearAddr (h : s.Placed) (t : Tid) : (s.clearAddr t).Placed :=
  h.frame rfl rfl rfl rfl rfl rfl (s.clearAddr_life t) fun u new hu => by
    rwa [s.clearAddr_kont t u] at hu

theorem wake (h : s.Placed) (a : Addr) : (s.wake a).Placed := by
  have hsplit := List.filter_append_perm (fun u => decide ((s.thread u).sleepaddr = some a))
    s.sleepers
  refine h.perm ?_ ?_ rfl (fun _ => rfl) fun _ _ hu => hu
  · rw [List.perm_iff_count]
    intro u
    have hcount := hsplit.count_eq u
    simp only [Sys.places, Sys.wake, Sys.asleepOn, List.count_append, decide_not] at hcount ⊢
    omega
  · have hlen := hsplit.length_eq
    have hnum := h.num
    simp only [Sys.wake, Sys.asleepOn, List.length_append, decide_not] at hlen ⊢
    omega

theorem wakeFirst (h : s.Placed) (a : Addr) : (s.wakeFirst a).Placed := by
  rw [Sys.wakeFirst]
  cases hhead : (s.asleepOn a).head? with
  | none => exact h
  | some t =>
    have hmem : t ∈ s.sleepers := List.mem_of_mem_filter (List.mem_of_head? hhead)
    have hsplit := List.perm_cons_erase hmem
    refine h.perm ?_ ?_ rfl (fun _ => rfl) fun _ _ hu => hu
    · rw [List.perm_iff_count]
      intro u
      have hcount := hsplit.count_eq u
      simp only [Sys.places, List.count_append, List.count_cons, List.count_nil] at hcount ⊢
      omega
    · have hlen := hsplit.length_eq
      have hnum := h.num
      simp only [List.length_append, List.length_cons, List.length_nil] at hlen ⊢
      omega

/-! ### Switching -/

theorem toRunq (h : s.Placed) (hcur : s.curthread = some t) {κ : Kont π}
    (hκ : ∀ new, κ.Forking new → (s.thread t).kont.Forking new) : (s.toRunq t κ).Placed := by
  refine h.perm ?_ ?_ rfl (s.setKont_life t κ) ?_
  · rw [List.perm_iff_count]
    intro u
    simp only [Sys.places, Sys.toRunq, hcur, List.count_append, Option.toList, List.count_nil]
    omega
  · have hnum := h.num
    simp only [Sys.toRunq, Core.setKont, Core.setThread, hcur, Option.toList, List.length_append,
      List.length_cons, List.length_nil] at hnum ⊢
    omega
  · intro u new hu
    rw [show ((s.toRunq t κ).thread u).kont = _ from s.setKont_kont t κ u] at hu
    split at hu
    case isTrue heq => exact heq ▸ hκ new hu
    case isFalse => exact hu

theorem toSleepers (h : s.Placed) (hcur : s.curthread = some t) (a : Addr) {κ : Kont π}
    (hκ : ∀ new, ¬ κ.Forking new) : (s.toSleepers t a κ).Placed := by
  refine h.perm ?_ ?_ rfl (s.toSleepers_life t a κ) ?_
  · rw [List.perm_iff_count]
    intro u
    simp only [Sys.places, Sys.toSleepers, hcur, List.count_append, Option.toList, List.count_nil]
    omega
  · have hnum := h.num
    simp only [Sys.toSleepers, Core.setThread, hcur, Option.toList, List.length_append,
      List.length_cons, List.length_nil] at hnum ⊢
    omega
  · intro u new hu
    rw [Sys.toSleepers_kont] at hu
    split at hu
    · exact absurd hu (hκ new)
    · exact hu

theorem toZombies (h : s.Placed) (hcur : s.curthread = some t) : (s.toZombies t).Placed := by
  have hnum := h.num
  refine h.perm ?_ ?_ rfl (s.setKont_life t .dead) ?_
  · rw [List.perm_iff_count]
    intro u
    simp only [Sys.places, Sys.toZombies, hcur, List.count_append, Option.toList, List.count_nil]
    omega
  · simp only [Sys.toZombies, hcur, Option.toList, List.length_cons, List.length_nil] at hnum ⊢
    omega
  · intro u new hu
    rw [show ((s.toZombies t).thread u).kont = _ from s.setKont_kont t .dead u] at hu
    split at hu
    · exact hu.elim
    · exact hu

/-- The head of the run queue becomes current. -/
theorem dispatch (h : s.Placed) {rest : List Tid} (hcur : s.curthread = none)
    (hq : s.runq = t :: rest) :
    Sys.Placed { s with toCore := { s.toCore with curthread := some t }, runq := rest } := by
  have hnum := h.num
  refine h.perm ?_ ?_ rfl (fun _ => rfl) fun _ _ hu => hu
  · rw [Sys.places, Sys.places, hcur, hq]
    rfl
  · simp only [hcur, hq, Option.toList, List.length_cons, List.length_nil] at hnum ⊢
    omega

/-- `exorcise`: the zombies go, and nobody else. -/
theorem exorcise (h : s.Placed) :
    Sys.Placed { s with
      toCore := s.toCore.destroy s.zombies
      zombies := [] } := by
  have hplaces : s.places = s.curthread.toList ++ s.runq ++ s.sleepers ++ [] ++ s.zombies := by
    simp [Sys.places]
  have hnodup := h.nodup
  rw [hplaces, List.nodup_append] at hnodup
  have hlife (u : Tid) : ((s.toCore.destroy s.zombies).thread u).life =
      if u ∈ s.zombies then .freed else (s.thread u).life := by
    simp only [Core.destroy]
    split <;> rfl
  have hkont (u : Tid) : ((s.toCore.destroy s.zombies).thread u).kont = (s.thread u).kont := by
    simp only [Core.destroy]
    split <;> rfl
  have hother {u : Tid} {l : Life} (hu : (s.thread u).life = l) (hl : l ≠ .thread) :
      u ∉ s.zombies := by
    intro hmem
    refine hl (hu.symm.trans ((h.mem_iff u).mp ?_))
    rw [hplaces]
    exact List.mem_append_right _ hmem
  refine ⟨hnodup.1, fun u => ?_, h.num, fun u hu => ?_, fun u new hu => ?_, fun u v new hu hv => ?_⟩
  · have hiff := h.mem_iff u
    rw [hplaces, List.mem_append] at hiff
    rw [hlife]
    split
    case isTrue hmem =>
      exact iff_of_false (fun hu => hnodup.2.2 u hu u hmem rfl) (by decide)
    case isFalse hmem =>
      rw [← hiff, or_iff_left hmem]
      rfl
  · rw [hlife, if_neg (hother (h.absent u hu) (by decide))]
    exact h.absent u hu
  · rw [hkont] at hu
    have hnew := h.embryo u new hu
    rw [hlife, if_neg (hother hnew (by decide))]
    exact hnew
  · rw [hkont] at hu hv
    exact h.embryo_inj u v new hu hv

theorem switchTo (h : s.Placed) {rest : List Tid} (hcur : s.curthread = none)
    (hq : s.runq = t :: rest) : (s.switchTo t rest).Placed :=
  (h.dispatch hcur hq).exorcise

/-! ### Forks -/

/-- `thread_create`. The structure is known to the forking thread `t` at most. -/
theorem create (h : s.Placed) (t : Tid) {th : Thread π} {κ : Kont π}
    (hth : ∀ new, ¬ th.kont.Forking new) (hlife : th.life ≠ .thread)
    (hκ : ∀ new, κ.Forking new → new = s.created ∧ th.life = .embryo) :
    (s.newThread t th κ).Placed := by
  have hlife' (u : Tid) : ((s.newThread t th κ).thread u).life =
      if u = s.created then th.life else (s.thread u).life :=
    s.newThread_proj t th κ u Thread.life fun _ _ => rfl
  have habsent := h.absent s.created le_rfl
  -- Whoever was forking before is setting up an older structure.
  have hold {u new : Tid} (hu : (s.thread u).kont.Forking new) : new ≠ s.created := by
    intro heq
    have hnew := h.embryo u new hu
    rw [heq, habsent] at hnew
    cases hnew
  have hforking {u new : Tid} (hu : ((s.newThread t th κ).thread u).kont.Forking new) :
      u = t ∧ new = s.created ∧ th.life = .embryo ∨
        u ≠ t ∧ (s.thread u).kont.Forking new ∧ new ≠ s.created := by
    rw [Sys.newThread_kont] at hu
    split at hu
    case isTrue heq => exact .inl ⟨heq, hκ new hu⟩
    case isFalse hne =>
      split at hu
      · exact absurd hu (hth new)
      · exact .inr ⟨hne, hu, hold hu⟩
  refine ⟨h.nodup, fun u => ?_, h.num, fun u hu => ?_, fun u new hu => ?_, fun u v new hu hv => ?_⟩
  · rw [hlife']
    refine (h.mem_iff u).trans ?_
    split
    case isTrue heq =>
      rw [heq, habsent]
      exact ⟨fun hu => (nomatch hu), fun hu => absurd hu hlife⟩
    case isFalse => exact Iff.rfl
  · have hlt : s.created < u := hu
    rw [hlife', if_neg hlt.ne']
    exact h.absent u hlt.le
  · rw [hlife']
    rcases hforking hu with ⟨-, heq, hnew⟩ | ⟨-, hu, hne⟩
    · rw [if_pos heq, hnew]
    · rw [if_neg hne]
      exact h.embryo u new hu
  · rcases hforking hu with ⟨hut, hnew, -⟩ | ⟨-, hu, hne⟩
    · rcases hforking hv with ⟨hvt, -, -⟩ | ⟨-, -, hne⟩
      · rw [hut, hvt]
      · exact absurd hnew hne
    · rcases hforking hv with ⟨-, hnew, -⟩ | ⟨-, hv, -⟩
      · exact absurd hnew hne
      · exact h.embryo_inj u v new hu hv

/-- The structure `new` gets another life and `t` goes on. -/
theorem settle (h : s.Placed) {new : Tid} (hforking : (s.thread t).kont.Forking new) {l : Life}
    (hl : l = .thread ∨ l = .freed) (hcreated : s'.created = s.created)
    (hplaces : s'.places.Perm (if l = .thread then new :: s.places else s.places))
    (hnum : s'.numthreads = s'.curthread.toList.length + s'.runq.length + s'.sleepers.length)
    (hlife : ∀ u, (s'.thread u).life = if u = new then l else (s.thread u).life)
    (hkont : ∀ u v, (s'.thread u).kont.Forking v → u ≠ t ∧ (s.thread u).kont.Forking v) :
    s'.Placed := by
  have hnew := h.embryo t new hforking
  have hnot : new ∉ s.places := by
    rw [h.mem_iff, hnew]
    decide
  have hother {u v : Tid} (hu : (s'.thread u).kont.Forking v) : v ≠ new := by
    intro heq
    obtain ⟨hne, hu⟩ := hkont u v hu
    exact hne (h.embryo_inj u t new (heq ▸ hu) hforking)
  refine ⟨?_, fun u => ?_, hnum, fun u hu => ?_, fun u v hu => ?_, fun u v w hu hv => ?_⟩
  · rw [hplaces.nodup_iff]
    split
    · exact List.nodup_cons.mpr ⟨hnot, h.nodup⟩
    · exact h.nodup
  · rw [hplaces.mem_iff, hlife]
    have hiff := h.mem_iff u
    by_cases heq : u = new
    · subst heq
      rcases hl with rfl | rfl
      · simp
      · simpa using hnot
    · rcases hl with rfl | rfl
      · simpa [heq] using hiff
      · simpa [heq] using hiff
  · rw [hcreated] at hu
    have hu' := h.absent u hu
    rw [hlife, if_neg, hu']
    rintro rfl
    rw [hnew] at hu'
    cases hu'
  · rw [hlife, if_neg (hother hu)]
    exact h.embryo u v (hkont u v hu).2
  · exact h.embryo_inj u v w (hkont u w hu).2 (hkont v w hv).2

theorem forkFails (h : s.Placed) {new : Tid} {ok fail : π}
    (hk : (s.thread t).kont = .run (.forking new ok fail)) :
    ((s.mapCore fun k => k.setThread new fun th => { th with life := .freed }).goOn t s.curspl
      fail).Placed := by
  have hforking : (s.thread t).kont.Forking new := by
    rw [hk]
    rfl
  have hset (u : Tid) := s.setThread_thread new (fun th => { th with life := .freed }) u
  refine h.settle hforking (.inr rfl) rfl (.refl _) h.num (fun u => ?_) fun u v hu => ?_
  · rw [Sys.goOn_life]
    refine (congrArg Thread.life (hset u)).trans ?_
    split <;> rfl
  · rw [Sys.goOn_kont] at hu
    split at hu
    · exact hu.elim
    case isFalse hne =>
      have hkont := s.setThread_proj (t := new) (f := fun th => { th with life := .freed })
        Thread.kont (fun _ => rfl) u
      exact ⟨hne, hkont ▸ hu⟩

theorem forked (h : s.Placed) {new : Tid} {ok fail : π}
    (hk : (s.thread t).kont = .run (.forking new ok fail)) :
    (Sys.goOn { s with
      toCore := s.addThread t new
      runq := s.runq ++ [new] } t s.curspl ok).Placed := by
  have hforking : (s.thread t).kont.Forking new := by
    rw [hk]
    rfl
  refine h.settle hforking (.inl rfl) rfl ?_ ?_ (fun u => ?_) fun u v hu => ?_
  · rw [List.perm_iff_count]
    intro u
    show List.count u (s.curthread.toList ++ (s.runq ++ [new]) ++ s.sleepers ++ s.zombies) =
      List.count u (new :: (s.curthread.toList ++ s.runq ++ s.sleepers ++ s.zombies))
    simp only [List.count_append, List.count_cons, List.count_nil]
    omega
  · have hnum := h.num
    show s.numthreads + 1 = s.curthread.toList.length + (s.runq ++ [new]).length + s.sleepers.length
    simp only [List.length_append, List.length_cons, List.length_nil]
    omega
  · rw [Sys.goOn_life]
    exact s.addThread_life t new u
  · rw [Sys.goOn_kont] at hu
    split at hu
    · exact hu.elim
    case isFalse hne => exact ⟨hne, (s.addThread_kont t new u) ▸ hu⟩

end Sys.Placed

/-! ## Steps -/

theorem TryLock.placed {l : Lock} {spl : ℕ} {cv : Option Cv} {next : π} {es : List Event}
    (hs : TryLock t l spl cv next s es s') (h : s.Placed) (hcur : s.curthread = some t) :
    s'.Placed := by
  cases hs with
  | block hown => exact h.toSleepers hcur _ fun _ hf => hf
  | get hown => exact (h.setOwn _ _).goOn t spl next

theorem TryP.placed {n spl : ℕ} {next : π} {es : List Event} (hs : TryP t n spl next s es s')
    (h : s.Placed) (hcur : s.curthread = some t) : s'.Placed := by
  cases hs with
  | block hcount => exact h.toSleepers hcur _ fun _ hf => hf
  | get hcount => exact (h.setCount _ _).goOn t spl next

theorem OpStep.placed {o : Op π} {es : List Event} (hs : OpStep t s o es s') (h : s.Placed)
    (hcur : s.curthread = some t) : s'.Placed := by
  cases hs with
  | splx => exact h.goOn t _ _
  | write => exact h.setProc.goOn t _ _
  | yield => exact h.toRunq hcur fun _ hf => hf.elim
  | sleep hspl => exact h.toSleepers hcur _ fun _ hf => hf
  | wakeup hspl => exact (h.wake _).goOn t _ _
  | wakeone hspl => exact (h.wakeFirst _).goOn t _ _
  | forkNone => exact h.goOn t _ _
  | forkNew haddr hproc hpid hlife =>
    rcases hlife with ⟨hlife, hkont, rfl⟩ | ⟨hlife, hkont, rfl⟩
    · refine h.create t (fun new hf => ?_) (by rw [hlife]; decide) fun new hf => ⟨hf.symm, hlife⟩
      rw [hkont] at hf
      exact hf
    · refine h.create t (fun new hf => ?_) (by rw [hlife]; decide) fun new hf => hf.elim
      rw [hkont] at hf
      exact hf
  | exit hnum => exact h.toZombies hcur
  | acquire htry => exact htry.placed h.raise hcur
  | release hown =>
    refine h.setKont ?_ s.curspl
    exact fun _ hf => hf.elim
  | wait hown =>
    refine ((h.raise.setOwn _ _).wake _).toSleepers hcur _ ?_
    exact fun _ hf => hf
  | signal => exact (h.wakeFirst _).goOn t _ _
  | broadcast => exact (h.wake _).goOn t _ _
  | p htry => exact htry.placed h.raise hcur
  | v hcount => exact ((h.setCount _ _).wake _).goOn t _ _

theorem Resume.placed {es : List Event} (hs : Resume t s es s') (h : s.Placed)
    (hcur : s.curthread = some t) : s'.Placed := by
  cases hs with
  | yielded hk =>
    refine h.setKont ?_ _
    rw [hk]
    exact fun _ hf => Kont.forking_yielded.mpr hf
  | slept hk => exact (h.clearAddr t).goOn t _ _
  | locking hk htry => exact htry.placed (h.clearAddr t) hcur
  | passing hk htry => exact htry.placed (h.clearAddr t) hcur
  | waiting hk htry => exact htry.placed (h.clearAddr t) hcur

theorem SStep.placed {es : List Event} (hs : SStep code s es s') (h : s.Placed) : s'.Placed := by
  cases hs with
  | op hcur hk hcode hop => exact hop.placed h hcur
  | release hcur hk => exact ((h.setOwn _ _).wake _).goOn _ _ _
  | forked hcur hk => exact h.forked hk
  | forkFails hcur hk => exact h.forkFails hk
  | timer second hcur hspl hk =>
    cases second with
    | true =>
      refine (h.wake _).toRunq hcur ?_
      rw [show ((s.wake lbolt).thread _).kont = _ from hk]
      exact fun _ hf => Kont.forking_yielded.mp hf
    | false =>
      refine h.toRunq hcur ?_
      rw [hk]
      exact fun _ hf => Kont.forking_yielded.mp hf
  | idle second hcur =>
    cases second with
    | true => exact h.wake _
    | false => exact h
  | device hon hcount => exact (h.setCount _ _).wake _
  | start hcur hq hk => exact (h.dispatch hcur hq).goOn _ _ _
  | switch hcur hq hres => exact hres.placed (h.switchTo hcur hq) rfl

theorem Sys.Booted.placed {p : π} {count : ℕ → ℤ} (h : s.Booted p count) : s.Placed := by
  have hplaces : s.places = [0] := by simp [Sys.places, h.cur, h.runq, h.sleepers, h.zombies]
  have hkont (u new : Tid) : ¬ (s.thread u).kont.Forking new := by
    rcases Nat.eq_zero_or_pos u with rfl | hu
    · rw [h.first.2.1]
      exact id
    · rw [(h.others u hu).2]
      exact id
  refine ⟨?_, fun u => ?_, ?_, fun u hu => ?_, fun u new hu => ?_, fun u v new hu _ => ?_⟩
  · simp [hplaces]
  · rcases Nat.eq_zero_or_pos u with rfl | hu
    · simp [hplaces, h.first.1]
    · simp [hplaces, (h.others u hu).1, hu.ne']
  · simp [h.numthreads, h.cur, h.runq, h.sleepers]
  · rw [h.created] at hu
    exact (h.others u hu).1
  · exact absurd hu (hkont u new)
  · exact absurd hu (hkont u new)

/-- In every run of the list system every thread is in one place. -/
theorem Sys.Placed.of_run {p : π} {count : ℕ → ℤ} {s₀ : Sys π} (h0 : s₀.Booted p count)
    {tr : List Event} (h : Run (SStep code) s₀ tr s) : s.Placed :=
  h.invariant (I := fun _ s => s.Placed) h0.placed fun _ h hs => hs.placed h

/-! ## The idle loop -/

/-- While no thread is current the interrupt level is high. -/
def Sys.Quiet (s : Sys π) : Prop := s.curthread = none → 0 < s.curspl

theorem TryLock.quiet {l : Lock} {spl : ℕ} {cv : Option Cv} {next : π} {es : List Event}
    (hs : TryLock t l spl cv next s es s') (hcur : s.curthread = some t) (hspl : 0 < s.curspl) :
    s'.Quiet := by
  cases hs with
  | block hown => exact fun _ => hspl
  | get hown => exact fun hnone => (nomatch hcur.symm.trans hnone)

theorem TryP.quiet {n spl : ℕ} {next : π} {es : List Event} (hs : TryP t n spl next s es s')
    (hcur : s.curthread = some t) (hspl : 0 < s.curspl) : s'.Quiet := by
  cases hs with
  | block hcount => exact fun _ => hspl
  | get hcount => exact fun hnone => (nomatch hcur.symm.trans hnone)

theorem OpStep.quiet {o : Op π} {es : List Event} (hs : OpStep t s o es s')
    (hcur : s.curthread = some t) : s'.Quiet := by
  have hhigh : 0 < splHigh := by decide
  cases hs with
  | yield => exact fun _ => hhigh
  | sleep hspl => exact fun _ => hspl
  | exit hnum => exact fun _ => hhigh
  | acquire htry => exact htry.quiet hcur hhigh
  | wait hown => exact fun _ => hhigh
  | p htry => exact htry.quiet hcur hhigh
  | wakeone hspl =>
    intro hnone
    rw [show (Sys.goOn _ t _ _).curthread = (s.wakeFirst _).curthread from rfl,
      Sys.wakeFirst_toCore] at hnone
    cases hcur.symm.trans hnone
  | signal =>
    intro hnone
    rw [show (Sys.goOn _ t _ _).curthread = (s.wakeFirst _).curthread from rfl,
      Sys.wakeFirst_toCore] at hnone
    cases hcur.symm.trans hnone
  | _ => exact fun hnone => (nomatch hcur.symm.trans hnone)

theorem Resume.quiet {es : List Event} (hs : Resume t s es s') (hcur : s.curthread = some t)
    (hspl : 0 < s.curspl) : s'.Quiet := by
  cases hs with
  | locking hk htry => exact htry.quiet hcur hspl
  | passing hk htry => exact htry.quiet hcur hspl
  | waiting hk htry => exact htry.quiet hcur hspl
  | _ => exact fun hnone => (nomatch hcur.symm.trans hnone)

theorem SStep.quiet {es : List Event} (hs : SStep code s es s') (h : s.Quiet) : s'.Quiet := by
  cases hs with
  | op hcur hk hcode hop => exact hop.quiet hcur
  | release hcur hk => exact fun hnone => (nomatch hcur.symm.trans hnone)
  | forked hcur hk => exact fun hnone => (nomatch hcur.symm.trans hnone)
  | forkFails hcur hk => exact fun hnone => (nomatch hcur.symm.trans hnone)
  | timer second hcur hspl hk => exact fun _ => (by decide : 0 < splHigh)
  | idle second hcur =>
    cases second with
    | true => exact h
    | false => exact h
  | device hon hcount => exact h
  | start hcur hq hk => exact fun hnone => nomatch hnone
  | switch hcur hq hres => exact hres.quiet rfl (h hcur)

theorem Sys.Quiet.of_run {p : π} {count : ℕ → ℤ} {s₀ : Sys π} (h0 : s₀.Booted p count)
    {tr : List Event} (h : Run (SStep code) s₀ tr s) : s.Quiet := by
  refine h.invariant (I := fun _ s => s.Quiet) ?_ fun _ h hs => hs.quiet h
  exact fun hnone => (nomatch h0.cur.symm.trans hnone)

/-! ## Zombies -/

theorem Sys.switchTo_life (s : Sys π) (t : Tid) (rest : List Tid) (u : Tid) :
    ((s.switchTo t rest).thread u).life =
      if u ∈ s.zombies then .freed else (s.thread u).life := by
  simp only [Sys.switchTo]
  split <;> rfl

/-- The lives of structures: one that is in use by a thread is freed only when the thread is a
zombie, and a zombie stays one until then. -/
theorem SStep.life {es : List Event} (hs : SStep code s es s') (h : s.Placed) (u : Tid) :
    ((s'.thread u).life = (s.thread u).life ∨ (s.thread u).life = .absent ∨
      (s.thread u).life = .embryo ∨ u ∈ s.zombies ∧ (s'.thread u).life = .freed) ∧
    (u ∈ s.zombies → u ∈ s'.zombies ∨ (s'.thread u).life = .freed) := by
  cases hs with
  | op hcur hk hcode hop =>
    refine ⟨?_, fun hu => .inl (hop.life.1 hu)⟩
    by_cases hu : u = s.created
    · exact .inr (.inl (h.absent u hu.ge))
    · exact .inl (hop.life.2 u hu)
  | release hcur hk => exact ⟨.inl (Sys.goOn_life _ _ _ _ u), .inl⟩
  | @forked t new ok fail hcur hk =>
    refine ⟨?_, .inl⟩
    rw [Sys.goOn_life]
    by_cases hu : u = new
    · refine .inr (.inr (.inl (h.embryo t u ?_)))
      rw [hk, hu]
      rfl
    · exact .inl ((s.addThread_life t new u).trans (if_neg hu))
  | @forkFails t new ok fail hcur hk =>
    refine ⟨?_, .inl⟩
    rw [Sys.goOn_life]
    by_cases hu : u = new
    · refine .inr (.inr (.inl (h.embryo t u ?_)))
      rw [hk, hu]
      rfl
    · refine .inl (congrArg Thread.life ?_)
      exact (s.setThread_thread new (fun th => { th with life := .freed }) u).trans (if_neg hu)
  | timer second hcur hspl hk =>
    cases second with
    | true => exact ⟨.inl (Core.setKont_life _ _ _ u), .inl⟩
    | false => exact ⟨.inl (Core.setKont_life _ _ _ u), .inl⟩
  | idle second hcur =>
    cases second with
    | true => exact ⟨.inl rfl, .inl⟩
    | false => exact ⟨.inl rfl, .inl⟩
  | device hon hcount => exact ⟨.inl rfl, .inl⟩
  | start hcur hq hk => exact ⟨.inl (Sys.goOn_life _ _ _ _ u), .inl⟩
  | switch hcur hq hres =>
    have hlife := (hres.life.2 u).trans (s.switchTo_life _ _ u)
    split at hlife
    case isTrue hmem => exact ⟨.inr (.inr (.inr ⟨hmem, hlife⟩)), fun _ => .inr hlife⟩
    case isFalse hmem => exact ⟨.inl hlife, fun hu => absurd hu hmem⟩

/-- The structure `u` belongs to a thread that has exited. -/
def Sys.Gone (s : Sys π) (u : Tid) : Prop := u ∈ s.zombies ∨ (s.thread u).life = .freed

theorem SStep.gone {es : List Event} (hs : SStep code s es s') (h : s.Placed) {u : Tid}
    (hu : s.Gone u) : s'.Gone u := by
  obtain ⟨hlife, hzombie⟩ := hs.life h u
  rcases hu with hu | hu
  · exact hzombie hu
  · rcases hlife with hsame | habs | hemb | ⟨-, hfreed⟩
    · exact .inr (hsame.trans hu)
    · rw [hu] at habs
      cases habs
    · rw [hu] at hemb
      cases hemb
    · exact .inr hfreed

/-- A thread that has exited is in none of the other places. -/
theorem Sys.Placed.not_mem_of_gone (h : s.Placed) {u : Tid} (hu : s.Gone u) :
    u ∉ s.curthread.toList ++ s.runq ++ s.sleepers := by
  intro hmem
  rcases hu with hu | hu
  · exact (List.nodup_append.mp h.nodup).2.2 u hmem u hu rfl
  · have hlife := (h.mem_iff u).mp (List.mem_append_left _ hmem)
    rw [hu] at hlife
    cases hlife

/-- Once gone, always gone. -/
theorem Sys.Placed.gone_of_run (h : s.Placed) {u : Tid} (hu : s.Gone u) {tr : List Event}
    (hrun : Run (SStep code) s tr s') : s'.Placed ∧ s'.Gone u :=
  hrun.invariant (I := fun _ s => s.Placed ∧ s.Gone u) ⟨h, hu⟩
    fun _ h hs => ⟨hs.placed h.1, hs.gone h.1 h.2⟩

/-! ## The machine -/

/-- All places of threads. -/
def Kernel.places (k : Kernel π) : List Tid :=
  k.curthread.toList ++ k.runqueue.toList ++ k.sleepers.toList ++ k.zombies.toList

/-- The messages of the two assertions that a structure to be freed is not the current thread's. -/
def notCurthread (msg : String) : Prop :=
  msg = "Assertion failed: z!=curthread" ∨ msg = "Assertion failed: thread != curthread"

/-- When the current thread is not a zombie, `exorcise` passes its assertions about `curthread`. -/
theorem exorcise_notCurthread {k : Kernel π} (h : k.Ok)
    (hcur : ∀ z ∈ k.zombies.toList, k.curthread ≠ some z) :
    Meets exorcise (fun _ _ => True) (fun _ _ => True) k fun msg => ¬ notCurthread msg := by
  simp only [exorcise, assertSpl, meets_bind, meets_get, meets_require_iff]
  refine ⟨fun _ => ?_, fun _ => by simp [notCurthread]⟩
  refine Meets.imp (Meets.forRange (fun _ (k' : Kernel π) =>
    k'.zombies = k.zombies ∧ k'.curthread = k.curthread) ⟨rfl, rfl⟩ ?_) ?_
  · rintro i k' - hi ⟨hzombies, hcur'⟩
    have hi' : i < k'.zombies.num := by
      rw [hzombies]
      omega
    simp only [exorciseOne, threadDestroy, meets_bind]
    refine (onZombies_spec (arrayGetguy_spec (s := ⟨k'.zombies, k'.nomem⟩)
      (hzombies ▸ h.zombies) hi')).partial_of.mono ?_ fun _ _ _ => trivial
    rintro z _ ⟨a, nomem, rfl, hget, heq⟩
    obtain ⟨rfl, -⟩ : a = k'.zombies ∧ nomem = k'.nomem := by simpa using heq
    have hz : k'.curthread ≠ some z := by
      rw [hcur']
      exact hcur z (hzombies ▸ List.mem_of_getElem? hget)
    simp only [meets_get, meets_require_iff, meets_modifyCore]
    refine ⟨fun _ => ⟨fun _ => ⟨fun _ => ⟨fun _ => ⟨fun _ => ⟨hzombies, hcur'⟩, ?_⟩, ?_⟩, ?_⟩,
      fun hne => absurd hz hne⟩, fun hne => absurd hz hne⟩
    all_goals exact fun _ => by simp [notCurthread]
  · rintro _ k' ⟨hzombies, -⟩
    rw [assertOk, meets_bind, meets_attempt]
    refine (onZombies_spec (arraySetsize_zero_spec (s := ⟨k'.zombies, k'.nomem⟩)
      (hzombies ▸ h.zombies))).partial_of.mono (fun _ _ _ => trivial) fun _ _ _ => ?_
    simp [notCurthread]

/-- In every reachable state a structure that is in use by a thread is in exactly one place, and
only those are; while interrupts are on there is a current thread, and the threads that have not
exited are counted; a zombie never runs again; a structure that is freed while in use by a thread
was a zombie's, so `exorcise` frees neither `curthread` nor a thread on another list, and its
assertions about `curthread` hold. -/
theorem threads_partitioned {p : π} {count : ℕ → ℤ} {k₀ k : Kernel π} {tr : List Event}
    (h0 : Booted p count k₀) (h : Run (Step code) k₀ tr k) :
    (∀ t, k.places.count t = if (k.thread t).life = .thread then 1 else 0) ∧
    (k.curspl = 0 → k.curthread ≠ none) ∧
    (k.curthread ≠ none →
      k.numthreads = 1 + k.runqueue.toList.length + k.sleepers.toList.length) ∧
    (k.curthread = none → k.numthreads = k.runqueue.toList.length + k.sleepers.toList.length) ∧
    (∀ z ∈ k.zombies.toList, ∀ tr' k', Run (Step code) k tr' k' →
      k'.curthread ≠ some z ∧ z ∉ k'.runqueue.toList ∧ z ∉ k'.sleepers.toList) ∧
    (∀ es k' t, Step code k es k' → (k.thread t).life = .thread → (k'.thread t).life ≠ .thread →
      (k'.thread t).life = .freed ∧ t ∈ k.zombies.toList ∧ k'.curthread ≠ some t ∧
        t ∉ k'.runqueue.toList ∧ t ∉ k'.sleepers.toList) ∧
    (∀ next k', scheduler k = .ok next k' → k.curthread = none →
      Meets exorcise (fun _ _ => True) (fun _ _ => True) { k' with curthread := some next }
        fun msg => ¬ notCurthread msg) := by
  obtain ⟨hok, hboot, hrun⟩ := Run.refines h0 h
  have hP : k.view.Placed := .of_run hboot hrun
  have hnum : k.numthreads =
      k.curthread.toList.length + k.runqueue.toList.length + k.sleepers.toList.length := hP.num
  -- A thread that is gone is not in the other places.
  have haway {k' : Kernel π} {u : Tid} (hP' : k'.view.Placed) (hu : k'.view.Gone u) :
      k'.curthread ≠ some u ∧ u ∉ k'.runqueue.toList ∧ u ∉ k'.sleepers.toList := by
    have hnot := hP'.not_mem_of_gone hu
    simp only [List.mem_append, not_or, Option.mem_toList] at hnot
    exact ⟨hnot.1.1, hnot.1.2, hnot.2⟩
  refine ⟨fun t => ?_, fun hspl hcur => ?_, fun hcur => ?_, fun hcur => ?_,
    fun z hz tr' k' hrun' => ?_, fun es k' t hs hlife hlife' => ?_, fun next k' hnext hcur => ?_⟩
  · split
    case isTrue hlife => exact List.count_eq_one_of_mem hP.nodup ((hP.mem_iff t).mpr hlife)
    case isFalse hlife => exact List.count_eq_zero.mpr fun hmem => hlife ((hP.mem_iff t).mp hmem)
  · exact absurd hspl (Sys.Quiet.of_run hboot hrun hcur).ne'
  · obtain ⟨t, ht⟩ := Option.ne_none_iff_exists'.mp hcur
    rw [hnum, ht]
    rfl
  · rw [hnum, hcur, Option.toList_none, List.length_nil, Nat.zero_add]
  · obtain ⟨-, hsim⟩ := hrun'.simulate Kernel.view hok fun h hs => hs.refines h
    obtain ⟨hP', hgone⟩ := hP.gone_of_run (.inl hz) hsim
    exact haway hP' hgone
  · have hsim := (hs.refines hok).2
    have hcases := (hsim.life hP t).1
    have hfreed : t ∈ k.zombies.toList ∧ (k'.thread t).life = .freed := by
      rcases hcases with hsame | habs | hemb | hfreed
      · exact absurd (hsame.trans hlife) hlife'
      · rw [show (k.view.thread t).life = _ from hlife] at habs
        cases habs
      · rw [show (k.view.thread t).life = _ from hlife] at hemb
        cases hemb
      · exact hfreed
    exact ⟨hfreed.2, hfreed.1, haway (hsim.placed hP) (.inr hfreed.2)⟩
  · obtain ⟨rest, hq, hk'⟩ := (scheduler_spec hok).of_ok hnext
    refine exorcise_notCurthread ⟨hk'.ok.runqueue, hk'.ok.sleepers, hk'.ok.zombies⟩ ?_
    intro z hz heq
    obtain rfl : next = z := Option.some.inj heq
    have hz' : next ∈ k.view.zombies := by
      rw [show k.view.zombies = k.zombies.toList from rfl, ← hk'.caps.zombies]
      exact hz
    refine hP.not_mem_of_gone (.inl hz') ?_
    rw [hq]
    simp

/-- The first thread forks and yields, and the new thread exits. -/
def forkAndExit : List (Choice Unit) :=
  forkNow ++ [.op (.yield ()), .schedule, .op .exit]

theorem threads_partitioned_forkAndExit :
    (after forkAndExit (bootedWith [])).zombies.toList = [1] ∧
      ∀ t, (after forkAndExit (bootedWith [])).places.count t =
        if ((after forkAndExit (bootedWith [])).thread t).life = .thread then 1 else 0 :=
  ⟨by decide +kernel, (threads_partitioned (booted_bootedWith (by decide +kernel))
    (run_after (by decide +kernel))).1⟩

end Os161.Threads
