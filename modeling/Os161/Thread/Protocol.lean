import Mathlib.Tactic
import Os161.Thread.Partition

/-!
# The protocol of the synchronization primitives

What locks, semaphores and condition variables are about, without a scheduler: who owns each lock,
the counts, the queue of sleepers on each address, and the part a thread has in an operation that it
has begun (`Role`). `ProtStep` lists what can happen, with the events; `SStep.protocol` shows that
every step of the thread system is one of these. The laws of the primitives are invariants of this
small system.
-/

namespace Os161.Threads

variable {π : Type} {code : Code π} {s s' : Sys π} {t : Tid}

/-! ## States -/

/-- What a thread has begun: nothing, `lock_release` with its assertion passed, or `cv_wait` with
the lock given up. -/
inductive Role where
  | free
  | releasing (l : Lock)
  | waiting (c : Cv) (l : Lock)

/-- The role of a thread is in what it does next. -/
def Kont.role : Kont π → Role
  | .run (.releasing l _) => .releasing l
  | .yielded _ (.releasing l _) => .releasing l
  | .waiting c l _ _ => .waiting c l
  | .locking l _ (some c) _ => .waiting c l
  | _ => .free

theorem Kont.role_yielded (spl : ℕ) (c : Ctl π) : (Kont.yielded spl c).role = (Kont.run c).role := by
  cases c <;> rfl

/-- The state of the primitives. -/
structure Prot where
  own : Lock → Option Tid
  count : ℕ → ℤ
  queue : Addr → List Tid
  role : Tid → Role

namespace Prot

variable (σ : Prot)

/-- `lock->own = owner`. -/
def setOwn (l : Lock) (owner : Option Tid) : Prot := { σ with own := Function.update σ.own l owner }

/-- `sem->count = c`. -/
def setCount (n : ℕ) (c : ℤ) : Prot := { σ with count := Function.update σ.count n c }

/-- The sleepers on `a`. -/
def setQueue (a : Addr) (q : List Tid) : Prot := { σ with queue := Function.update σ.queue a q }

/-- `t` goes to sleep on `a`. -/
def push (t : Tid) (a : Addr) : Prot := σ.setQueue a (σ.queue a ++ [t])

/-- What `t` has begun. -/
def setRole (t : Tid) (r : Role) : Prot := { σ with role := Function.update σ.role t r }

theorem setRole_self {σ : Prot} {t : Tid} {r : Role} (h : σ.role t = r) : σ.setRole t r = σ := by
  rw [setRole, ← h, Function.update_eq_self]

theorem push_setRole_self {σ : Prot} {t : Tid} {r : Role} (h : σ.role t = r) (a : Addr) :
    (σ.push t a).setRole t r = σ.push t a :=
  setRole_self (σ := σ.push t a) h

end Prot

/-- What can happen. -/
inductive ProtStep : Prot → List Event → Prot → Prop where
  /-- Nothing, except that threads may give up what they have begun. -/
  | idle {σ : Prot} {es : List ProcEvent} {role : Tid → Role}
      (hrole : ∀ t, role t = σ.role t ∨ role t = .free) :
      ProtStep σ (es.map .proc) { σ with role := role }
  | sleep {σ : Prot} {t : Tid} {n : ℕ} : ProtStep σ [] (σ.push t (.other n))
  | wakeup {σ : Prot} {n : ℕ} : ProtStep σ [] (σ.setQueue (.other n) [])
  | wakeone {σ : Prot} {n : ℕ} : ProtStep σ [] (σ.setQueue (.other n) (σ.queue (.other n)).tail)
  /-- `lock_acquire` finds the lock taken. -/
  | block {σ : Prot} {t : Tid} {l : Lock} (hown : σ.own l ≠ none) : ProtStep σ [] (σ.push t (.lock l))
  | get {σ : Prot} {t : Tid} {l : Lock} (hown : σ.own l = none) (hrole : σ.role t = .free) :
      ProtStep σ [.acquired t l] (σ.setOwn l (some t))
  /-- The end of `cv_wait`. -/
  | getBack {σ : Prot} {t : Tid} {c : Cv} {l : Lock} (hown : σ.own l = none)
      (hrole : σ.role t = .waiting c l) (hawake : t ∉ σ.queue (.cv c)) :
      ProtStep σ [.acquired t l, .waited t c l] ((σ.setOwn l (some t)).setRole t .free)
  | begin {σ : Prot} {t : Tid} {l : Lock} (hown : σ.own l = some t) :
      ProtStep σ [] (σ.setRole t (.releasing l))
  | release {σ : Prot} {t : Tid} {l : Lock} (hrole : σ.role t = .releasing l) :
      ProtStep σ [.released t l] (((σ.setOwn l none).setQueue (.lock l) []).setRole t .free)
  | wait {σ : Prot} {t : Tid} {c : Cv} {l : Lock} (hown : σ.own l = some t)
      (hrole : σ.role t = .free) :
      ProtStep σ [.released t l, .waits t c l]
        ((((σ.setOwn l none).setQueue (.lock l) []).push t (.cv c)).setRole t (.waiting c l))
  | signal {σ : Prot} {c : Cv} :
      ProtStep σ [.signal c (σ.queue (.cv c)).head?] (σ.setQueue (.cv c) (σ.queue (.cv c)).tail)
  | broadcast {σ : Prot} {c : Cv} :
      ProtStep σ [.broadcast c (σ.queue (.cv c))] (σ.setQueue (.cv c) [])
  /-- `P` finds no unit. -/
  | pBlock {σ : Prot} {t : Tid} {n : ℕ} (hcount : σ.count n = 0) : ProtStep σ [] (σ.push t (.sem n))
  | p {σ : Prot} {t : Tid} {n : ℕ} (hcount : 0 < σ.count n) :
      ProtStep σ [.p t n] (σ.setCount n (σ.count n - 1))
  | v {σ : Prot} {n : ℕ} (hcount : 0 < s32 (σ.count n + 1)) :
      ProtStep σ [.v n] ((σ.setCount n (s32 (σ.count n + 1))).setQueue (.sem n) [])

/-! ## The protocol state of the thread system -/

/-- The state of the primitives in the thread system. -/
def Sys.prot (s : Sys π) : Prot where
  own := s.own
  count := s.count
  queue := s.asleepOn
  role t := (s.thread t).kont.role

namespace Sys

/-- The queues depend on the sleepers and where they sleep. -/
theorem asleepOn_congr (s' s : Sys π) (hsleepers : s'.sleepers = s.sleepers)
    (haddr : ∀ u ∈ s.sleepers, (s'.thread u).sleepaddr = (s.thread u).sleepaddr) :
    s'.asleepOn = s.asleepOn := by
  funext a
  rw [asleepOn, asleepOn, hsleepers]
  exact List.filter_congr fun u hu => by rw [haddr u hu]

/-- A change that is not about sleepers. -/
theorem prot_congr (s' s : Sys π) (hown : s'.own = s.own) (hcount : s'.count = s.count)
    (hsleepers : s'.sleepers = s.sleepers)
    (haddr : ∀ u ∈ s.sleepers, (s'.thread u).sleepaddr = (s.thread u).sleepaddr) :
    s'.prot = { s.prot with role := fun u => (s'.thread u).kont.role } := by
  rw [prot, hown, hcount, asleepOn_congr s' s hsleepers haddr]
  rfl

theorem asleepOn_wake (s : Sys π) (a : Addr) :
    (s.wake a).asleepOn = Function.update s.asleepOn a [] := by
  funext b
  have hfilter : (s.wake a).asleepOn b = (s.sleepers.filter fun u =>
      (s.thread u).sleepaddr ≠ some a).filter fun u => (s.thread u).sleepaddr = some b := rfl
  rw [hfilter, List.filter_filter]
  by_cases hb : b = a
  · subst hb
    rw [Function.update_self]
    exact List.filter_eq_nil_iff.mpr fun u _ => by simp
  · rw [Function.update_of_ne hb, asleepOn]
    refine List.filter_congr fun u _ => ?_
    by_cases hu : (s.thread u).sleepaddr = some b
    · simp [hu, hb]
    · simp [hu]

theorem asleepOn_wakeFirst (s : Sys π) (a : Addr) :
    (s.wakeFirst a).asleepOn = Function.update s.asleepOn a (s.asleepOn a).tail := by
  cases hq : s.asleepOn a with
  | nil =>
    have hself : s.wakeFirst a = s := by simp [wakeFirst, hq]
    rw [hself, List.tail_nil, ← hq, Function.update_eq_self]
  | cons t rest =>
    have hwake : s.wakeFirst a = { s with
        runq := s.runq ++ [t], sleepers := s.sleepers.erase t } := by
      simp [wakeFirst, hq]
    have ht : (s.thread t).sleepaddr = some a := by
      have hmem : t ∈ s.asleepOn a := by simp [hq]
      simpa using (List.mem_filter.mp hmem).2
    funext b
    have hfilter : (s.wakeFirst a).asleepOn b = (s.asleepOn b).erase t := by
      rw [hwake]
      exact List.erase_filter.symm
    rw [hfilter]
    by_cases hb : b = a
    · subst hb
      rw [Function.update_self, hq, List.erase_cons_head, List.tail_cons]
    · rw [Function.update_of_ne hb, List.erase_of_not_mem]
      intro hmem
      have hb' : (s.thread t).sleepaddr = some b := by simpa using (List.mem_filter.mp hmem).2
      exact hb (Option.some.inj (hb'.symm.trans ht))

theorem asleepOn_toSleepers (ht : t ∉ s.sleepers) (a : Addr) (κ : Kont π) :
    (s.toSleepers t a κ).asleepOn = Function.update s.asleepOn a (s.asleepOn a ++ [t]) := by
  funext b
  have hold : s.sleepers.filter (fun u => ((s.toSleepers t a κ).thread u).sleepaddr = some b) =
      s.asleepOn b := by
    refine List.filter_congr fun u hu => ?_
    have hne : u ≠ t := fun heq => ht (heq ▸ hu)
    rw [toSleepers_sleepaddr, if_neg hne]
  have hsplit : (s.toSleepers t a κ).asleepOn b = s.asleepOn b ++
      [t].filter fun u => ((s.toSleepers t a κ).thread u).sleepaddr = some b := by
    rw [← hold]
    exact List.filter_append ..
  rw [hsplit, List.filter_singleton, toSleepers_sleepaddr, if_pos rfl]
  by_cases hb : b = a
  · subst hb
    simp
  · simp [Function.update_of_ne hb, Ne.symm hb]

/-! ### The operations of the thread system -/

theorem role_setKont (t : Tid) (κ : Kont π) (u : Tid) :
    ((s.setKont t κ).thread u).kont.role =
      Function.update (fun u => (s.thread u).kont.role) t κ.role u := by
  rw [Core.setKont_kont, Function.update_apply]
  split <;> rfl

theorem prot_setKont (t : Tid) (κ : Kont π) (spl : ℕ) :
    (s.mapCore fun k => { k.setKont t κ with curspl := spl }).prot = s.prot.setRole t κ.role := by
  have hcongr := prot_congr { s with toCore := { s.setKont t κ with curspl := spl } } s rfl rfl rfl
    fun u _ => s.setKont_sleepaddr t κ u
  exact hcongr.trans (congrArg (fun role => { s.prot with role := role }) (funext (role_setKont t κ)))

theorem prot_toRunq {κ : Kont π} (hκ : κ.role = (s.thread t).kont.role) :
    (s.toRunq t κ).prot = s.prot := by
  have hset := prot_setKont (s := s) t κ splHigh
  rw [Prot.setRole_self hκ.symm] at hset
  exact hset

theorem prot_goOn (t : Tid) (spl : ℕ) (p : π) : (s.goOn t spl p).prot = s.prot.setRole t .free :=
  prot_setKont t (.run (.client p)) spl

theorem prot_raise : s.raise.prot = s.prot := rfl

theorem prot_setProc (f : (Tid → Proc) → Tid → Proc) :
    (s.mapCore fun k => k.setProc f).prot = s.prot := rfl

theorem prot_setOwn (l : Lock) (owner : Option Tid) :
    (s.setOwn l owner).prot = s.prot.setOwn l owner := rfl

theorem prot_setCount (n : ℕ) (c : ℤ) : (s.setCount n c).prot = s.prot.setCount n c := rfl

theorem prot_wake (a : Addr) : (s.wake a).prot = s.prot.setQueue a [] := by
  rw [prot, asleepOn_wake]
  rfl

theorem prot_wakeFirst (a : Addr) :
    (s.wakeFirst a).prot = s.prot.setQueue a (s.prot.queue a).tail := by
  rw [prot, asleepOn_wakeFirst, wakeFirst_toCore]
  rfl

theorem prot_toSleepers (ht : t ∉ s.sleepers) (a : Addr) (κ : Kont π) :
    (s.toSleepers t a κ).prot = (s.prot.push t a).setRole t κ.role := by
  rw [prot, asleepOn_toSleepers ht]
  simp only [toSleepers_kont]
  rw [Prot.setRole]
  congr 1
  funext u
  rw [Function.update_apply]
  split <;> rfl

theorem prot_clearAddr (ht : t ∉ s.sleepers) : (s.clearAddr t).prot = s.prot := by
  refine (prot_congr (s.clearAddr t) s rfl rfl rfl fun u hu => ?_).trans ?_
  · have hne : u ≠ t := fun heq => ht (heq ▸ hu)
    rw [clearAddr_sleepaddr, if_neg hne]
  · simp only [clearAddr_kont]
    rfl

theorem prot_switchTo (t : Tid) (rest : List Tid) : (s.switchTo t rest).prot = s.prot := by
  have hthread (u : Tid) : ((s.switchTo t rest).thread u).sleepaddr = (s.thread u).sleepaddr ∧
      ((s.switchTo t rest).thread u).kont = (s.thread u).kont := by
    simp only [switchTo]
    split <;> exact ⟨rfl, rfl⟩
  refine (prot_congr (s.switchTo t rest) s rfl rfl rfl fun u _ => (hthread u).1).trans ?_
  simp only [fun u => (hthread u).2]
  rfl

end Sys

/-! ## Steps -/

/-- The current thread is not asleep. -/
theorem Sys.Placed.cur_not_asleep (h : s.Placed) (hcur : s.curthread = some t) : t ∉ s.sleepers := by
  intro hmem
  have hnodup := h.nodup
  rw [Sys.places, hcur, List.nodup_append] at hnodup
  have hnodup' := (List.nodup_append.mp hnodup.1).2.2
  exact hnodup' t (by simp) t hmem rfl

theorem TryLock.protocol {l : Lock} {spl : ℕ} {cv : Option Cv} {next : π} {es : List Event}
    (hs : TryLock t l spl cv next s es s') (ht : t ∉ s.sleepers)
    (hrole : s.prot.role t = (Kont.locking l spl cv next).role) : ProtStep s.prot es s'.prot := by
  cases hs with
  | block hown =>
    rw [Sys.prot_toSleepers ht, Prot.push_setRole_self hrole]
    refine .block ?_
    rw [show s.prot.own l = s.own l from rfl, hown]
    exact Option.some_ne_none _
  | get hown =>
    rw [Sys.prot_goOn, Sys.prot_setOwn]
    cases cv with
    | none =>
      rw [Prot.setRole_self (show (s.prot.setOwn l _).role t = .free from hrole)]
      exact .get hown hrole
    | some c =>
      refine .getBack hown hrole fun hmem => ht ?_
      exact List.mem_of_mem_filter hmem

theorem TryP.protocol {n spl : ℕ} {next : π} {es : List Event} (hs : TryP t n spl next s es s')
    (ht : t ∉ s.sleepers) (hrole : s.prot.role t = .free) : ProtStep s.prot es s'.prot := by
  cases hs with
  | block hcount =>
    have hpush := Prot.push_setRole_self hrole (.sem n)
    rw [Sys.prot_toSleepers ht]
    exact hpush.symm ▸ .pBlock hcount
  | get hcount =>
    rw [Sys.prot_goOn, Sys.prot_setCount,
      Prot.setRole_self (show (s.prot.setCount n _).role t = _ from hrole)]
    exact .p hcount

/-- A step that does nothing. -/
theorem ProtStep.stay (σ : Prot) : ProtStep σ [] σ := @ProtStep.idle σ [] σ.role fun _ => .inl rfl

/-- Steps that are not about the primitives. -/
theorem ProtStep.of_congr (hown : s'.own = s.own)
    (hcount : s'.count = s.count) (hsleepers : s'.sleepers = s.sleepers)
    (haddr : ∀ u ∈ s.sleepers, (s'.thread u).sleepaddr = (s.thread u).sleepaddr)
    (hrole : ∀ u, (s'.thread u).kont.role = (s.thread u).kont.role ∨
      (s'.thread u).kont.role = .free) : ProtStep s.prot [] s'.prot := by
  rw [Sys.prot_congr s' s hown hcount hsleepers haddr]
  exact @ProtStep.idle _ [] _ hrole

/-- After its operation the thread goes on. -/
theorem ProtStep.goOn {σ σ' : Prot} {es : List Event} (hstep : ProtStep σ es σ')
    (hσ' : s.prot = σ') (hrole : σ'.role t = .free) (spl : ℕ) (p : π) :
    ProtStep σ es (s.goOn t spl p).prot := by
  rw [Sys.prot_goOn, hσ', Prot.setRole_self hrole]
  exact hstep

/-- The role of `t` changes to that of `κ`. -/
theorem role_setKont_or {κ : Kont π} (hκ : κ.role = (s.thread t).kont.role ∨ κ.role = .free)
    (u : Tid) : ((s.setKont t κ).thread u).kont.role = (s.thread u).kont.role ∨
      ((s.setKont t κ).thread u).kont.role = .free := by
  rw [Core.setKont_kont]
  split
  case isTrue heq => exact heq ▸ hκ
  case isFalse => exact .inl rfl

theorem OpStep.protocol {o : Op π} {p : π} {es : List Event} (hs : OpStep t s o es s')
    (h : s.Placed) (hcur : s.curthread = some t) (hk : (s.thread t).kont = .run (.client p)) :
    ProtStep s.prot es s'.prot := by
  have ht := h.cur_not_asleep hcur
  have hrole : s.prot.role t = .free := by
    rw [show s.prot.role t = (s.thread t).kont.role from rfl, hk]
    rfl
  cases hs with
  | splx => exact (ProtStep.stay s.prot).goOn rfl hrole _ _
  | @write f es next =>
    have hidle : ProtStep s.prot (es.map .proc) s.prot := .idle fun _ => .inl rfl
    exact hidle.goOn (Sys.prot_setProc _) hrole _ _
  | yield =>
    exact .of_congr rfl rfl rfl (fun u _ => s.setKont_sleepaddr t _ u)
      (role_setKont_or (.inr rfl))
  | @sleep n next hspl =>
    have hpush := Prot.push_setRole_self hrole (.other n)
    rw [Sys.prot_toSleepers ht]
    exact hpush.symm ▸ .sleep
  | wakeup hspl => exact ProtStep.wakeup.goOn (Sys.prot_wake _) hrole _ _
  | wakeone hspl => exact ProtStep.wakeone.goOn (Sys.prot_wakeFirst _) hrole _ _
  | forkNone => exact (ProtStep.stay s.prot).goOn rfl hrole _ _
  | @forkNew start ok fail th κ haddr hproc hpid hlife =>
    have hth : th.kont.role = .free := by
      rcases hlife with ⟨-, hkont, -⟩ | ⟨-, hkont, -⟩ <;> rw [hkont] <;> rfl
    have hκ : κ.role = .free := by
      rcases hlife with ⟨-, -, rfl⟩ | ⟨-, -, rfl⟩ <;> rfl
    refine .of_congr rfl rfl rfl (fun u hu => ?_) fun u => ?_
    · -- The new structure is nobody's on the lists.
      have hne : u ≠ s.created := fun heq => by
        have hlive := (h.mem_iff u).mp (by simp [Sys.places, hu])
        rw [h.absent u heq.ge] at hlive
        cases hlive
      exact (s.newThread_proj t th κ u Thread.sleepaddr fun _ _ => rfl).trans (if_neg hne)
    · rw [Sys.newThread_kont]
      split
      · exact .inr hκ
      · split
        · exact .inr hth
        · exact .inl rfl
  | exit hnum =>
    exact .of_congr rfl rfl rfl (fun u _ => s.setKont_sleepaddr t _ u)
      (role_setKont_or (.inr rfl))
  | acquire htry => exact htry.protocol ht hrole
  | @release l next hown =>
    have hset := Sys.prot_setKont (s := s) t (.run (.releasing l next)) s.curspl
    exact hset.symm ▸ .begin hown
  | @wait c l next hown =>
    have hasleep : t ∉ ((s.raise.setOwn l none).wake (.lock l)).sleepers := fun hmem =>
      ht (List.mem_of_mem_filter hmem)
    rw [Sys.prot_toSleepers hasleep, Sys.prot_wake, Sys.prot_setOwn, Sys.prot_raise]
    exact .wait hown hrole
  | signal => exact ProtStep.signal.goOn (Sys.prot_wakeFirst _) hrole _ _
  | broadcast => exact ProtStep.broadcast.goOn (Sys.prot_wake _) hrole _ _
  | p htry => exact htry.protocol ht hrole
  | @v n next hcount =>
    have hv : ProtStep s.prot [.v n] _ := .v hcount
    exact hv.goOn (Sys.prot_wake _) hrole _ _

theorem Resume.protocol {es : List Event} (hs : Resume t s es s') (h : s.Placed)
    (hcur : s.curthread = some t) : ProtStep s.prot es s'.prot := by
  have ht := h.cur_not_asleep hcur
  have hclear := Sys.prot_clearAddr (s := s) ht
  cases hs with
  | yielded hk =>
    refine .of_congr rfl rfl rfl (fun u _ => s.setKont_sleepaddr t _ u)
      (role_setKont_or (.inl ?_))
    rw [hk, Kont.role_yielded]
  | slept hk =>
    refine (ProtStep.stay s.prot).goOn hclear ?_ _ _
    rw [show s.prot.role t = (s.thread t).kont.role from rfl, hk]
    rfl
  | locking hk htry =>
    rw [← hclear]
    refine htry.protocol ht ?_
    rw [hclear, show s.prot.role t = (s.thread t).kont.role from rfl, hk]
  | passing hk htry =>
    rw [← hclear]
    refine htry.protocol ht ?_
    rw [hclear, show s.prot.role t = (s.thread t).kont.role from rfl, hk]
    rfl
  | waiting hk htry =>
    rw [← hclear]
    refine htry.protocol ht ?_
    rw [hclear, show s.prot.role t = (s.thread t).kont.role from rfl, hk]
    rfl

/-- Waking up the sleepers on `lbolt`, or not. -/
theorem ProtStep.lboltTick (s : Sys π) (second : Bool) :
    ProtStep s.prot [] (if second then s.wake lbolt else s).prot := by
  cases second with
  | true =>
    rw [if_pos rfl, Sys.prot_wake]
    exact .wakeup
  | false => exact .stay s.prot

theorem SStep.protocol {es : List Event} (hs : SStep code s es s') (h : s.Placed) :
    ProtStep s.prot es s'.prot := by
  cases hs with
  | op hcur hk hcode hop => exact hop.protocol h hcur hk
  | @release t l next hcur hk =>
    rw [Sys.prot_goOn, Sys.prot_wake, Sys.prot_setOwn]
    refine .release ?_
    rw [show s.prot.role t = (s.thread t).kont.role from rfl, hk]
    rfl
  | @forked t new ok fail hcur hk =>
    refine .of_congr rfl rfl rfl (fun u _ => ?_) fun u => ?_
    · rw [Sys.goOn_sleepaddr]
      exact s.addThread_sleepaddr t new u
    · rw [Sys.goOn_kont]
      split
      · exact .inr rfl
      · exact .inl (congrArg Kont.role (s.addThread_kont t new u))
  | @forkFails t new ok fail hcur hk =>
    have hproj {β : Type} (g : Thread π → β) (hg : ∀ th, g { th with life := .freed } = g th)
        (u : Tid) := s.setThread_proj (t := new) (f := fun th => { th with life := .freed }) g hg u
    refine .of_congr rfl rfl rfl (fun u _ => ?_) fun u => ?_
    · rw [Sys.goOn_sleepaddr]
      exact hproj Thread.sleepaddr (fun _ => rfl) u
    · rw [Sys.goOn_kont]
      split
      · exact .inr rfl
      · exact .inl (congrArg Kont.role (hproj Thread.kont (fun _ => rfl) u))
  | @timer t c second hcur hspl hk =>
    refine (Sys.prot_toRunq ?_).symm ▸ ProtStep.lboltTick s second
    have hk' : ((if second then s.wake lbolt else s).thread t).kont = .run c := by
      cases second <;> exact hk
    rw [hk', Kont.role_yielded]
  | idle second hcur => exact .lboltTick s second
  | @device n hon hcount =>
    have hv : ProtStep s.prot [.v n] _ := .v hcount
    exact (Sys.prot_wake (s := s.setCount n (s32 (s.count n + 1))) (.sem n)).symm ▸ hv
  | @start t p rest hcur hq hk =>
    refine .of_congr rfl rfl rfl (fun u _ => Sys.goOn_sleepaddr _ _ _ _ u) fun u => ?_
    rw [Sys.goOn_kont]
    split
    · exact .inr rfl
    · exact .inl rfl
  | @switch s' t rest es hcur hq hres =>
    rw [← Sys.prot_switchTo t rest]
    exact hres.protocol (h.switchTo hcur hq) rfl

end Os161.Threads
