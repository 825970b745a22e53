import Mathlib.Tactic
import Os161.Thread.Refine

/-!
# What a wakeup does to the queues

`thread_wakeup` and `thread_wakeone` scan the array of sleepers and remove threads from it on the
way. The results here are about one call, from any state of the containers and for any address:
which threads move to the run queue, in which order, and which stay. A call stops the machine at one
place only, the assertion that `make_runnable` has not failed, and only if `kmalloc` has refused
memory for the run queue; the assertions on array indices always hold.
-/

namespace Os161.Threads

open Prog

variable {π : Type}

/-- The thread `t` sleeps on `a`. -/
def SleepsOn (k : Kernel π) (a : Addr) (t : Tid) : Prop := (k.thread t).sleepaddr = some a

instance SleepsOn.decidable (k : Kernel π) (a : Addr) : DecidablePred (SleepsOn k a) := fun t =>
  inferInstanceAs (Decidable ((k.thread t).sleepaddr = some a))

/-- The call has changed nothing but the run queue and the sleepers. -/
structure OnlyMoved (k k' : Kernel π) : Prop where
  ok : k'.Ok
  core : k'.toCore = k.toCore
  zombies : k'.zombies = k.zombies

/-- All sleepers on `a` have moved to the run queue, in their order, and the others stay in
theirs. -/
structure WokeAll (k : Kernel π) (a : Addr) (k' : Kernel π) : Prop extends OnlyMoved k k' where
  runqueue : k'.runqueue.toList =
    k.runqueue.toList ++ k.sleepers.toList.filter fun t => decide (SleepsOn k a t)
  sleepers : k'.sleepers.toList = k.sleepers.toList.filter fun t => decide (¬ SleepsOn k a t)

/-- The first sleeper on `a` has moved to the run queue, if there is one. -/
structure WokeFirst (k : Kernel π) (a : Addr) (k' : Kernel π) : Prop extends OnlyMoved k k' where
  first : ∀ before t after, k.sleepers.toList = before ++ t :: after → SleepsOn k a t →
    (∀ u ∈ before, ¬ SleepsOn k a u) →
      k'.runqueue.toList = k.runqueue.toList ++ [t] ∧ k'.sleepers.toList = before ++ after
  none : (∀ u ∈ k.sleepers.toList, ¬ SleepsOn k a u) →
    k'.runqueue.toList = k.runqueue.toList ∧ k'.sleepers.toList = k.sleepers.toList

section Specs

variable {k k' : Kernel π} {a : Addr}

theorem Wakes.onlyMoved {s : Sys π} (h : Wakes k s k') (hcore : s.toCore = k.toCore) :
    OnlyMoved k k' :=
  ⟨h.refines.ok, (congrArg Sys.toCore h.refines.view).trans hcore, h.refines.caps.zombies⟩

theorem Wakes.wokeAll (h : Wakes k (k.view.wake a) k') : WokeAll k a k' :=
  ⟨h.onlyMoved rfl, congrArg Sys.runq h.refines.view, congrArg Sys.sleepers h.refines.view⟩

theorem Wakes.wokeFirst (h : Wakes k (k.view.wakeFirst a) k') : WokeFirst k a k' := by
  refine ⟨h.onlyMoved (Sys.wakeFirst_toCore _ a), ?_, ?_⟩
  · intro before t after hsplit hon hbefore
    have hget : k.view.sleepers[before.length]? = some t := by
      show k.sleepers.toList[before.length]? = some t
      rw [hsplit, List.getElem?_append_right le_rfl, Nat.sub_self]
      rfl
    have htake : k.view.sleepers.take before.length = before := by
      show k.sleepers.toList.take before.length = before
      rw [hsplit, List.take_left]
    obtain ⟨-, hfirst⟩ := Sys.wakeFirst_of_getElem? (s := k.view) (htake.symm ▸ hbefore) hget hon
    have herase : k.view.sleepers.eraseIdx before.length = before ++ after := by
      show k.sleepers.toList.eraseIdx before.length = before ++ after
      rw [hsplit, List.eraseIdx_append_of_length_le le_rfl, Nat.sub_self]
      rfl
    rw [hfirst] at h
    exact ⟨congrArg Sys.runq h.refines.view, (congrArg Sys.sleepers h.refines.view).trans herase⟩
  · intro hnone
    have hall : k.view.sleepers.take k.view.sleepers.length = k.sleepers.toList := List.take_length
    obtain ⟨-, hsame⟩ := Sys.wakeFirst_of_length_le (s := k.view) le_rfl (hall.symm ▸ hnone)
    rw [hsame] at h
    exact ⟨congrArg Sys.runq h.refines.view, congrArg Sys.sleepers h.refines.view⟩

/-- With interrupts off there is one place left at which a wakeup can stop the machine. -/
theorem WakeStops.refused {msg : String} (hspl : 0 < k.curspl) (h : WakeStops k msg) :
    msg = "Assertion failed: result==0" ∧ true ∈ k.nomem := by
  rcases h with hlow | hrefused
  · omega
  · exact hrefused

end Specs

/-- **Wakeups.** From any state of the containers, with interrupts off, `thread_wakeup` moves
exactly the sleepers on the address to the run queue and `thread_wakeone` exactly the first of them,
in order and without touching the others, unless `make_runnable` fails. -/
theorem wakeups_exact (k : Kernel π) (h : k.Ok) (hspl : 0 < k.curspl) (a : Addr) :
    Meets (threadWakeup a) (fun _ k' => WokeAll k a k') (fun _ _ => False) k
        (fun msg => msg = "Assertion failed: result==0" ∧ true ∈ k.nomem) ∧
      Meets (threadWakeone a) (fun _ k' => WokeFirst k a k') (fun _ _ => False) k
        (fun msg => msg = "Assertion failed: result==0" ∧ true ∈ k.nomem) := by
  constructor
  · simp only [threadWakeup, assertSpl, meets_bind, meets_get, meets_require_iff]
    refine ⟨fun _ => ?_, fun hlow => absurd hspl hlow⟩
    refine ((wakeupLoop_spec h a (by omega)).mono_halt fun _ => WakeStops.refused hspl).imp ?_
    intro _ k' hk'
    rw [Sys.wakeFrom_zero] at hk'
    exact hk'.wokeAll
  · simp only [threadWakeone, assertSpl, meets_bind, meets_get, meets_require_iff]
    refine ⟨fun _ => ?_, fun hlow => absurd hspl hlow⟩
    refine ((wakeoneLoop_spec h a (by omega) ?_).mono_halt fun _ => WakeStops.refused hspl).imp ?_
    · simp
    · rintro r k' ⟨-, hk'⟩
      exact hk'.wokeFirst

/-- Three sleepers, the first and the last of them on one address. -/
def threeSleepers : Kernel Unit :=
  { (blank (fun _ => 0) [] : Kernel Unit) with
    thread := fun t => { (blank (fun _ => 0) [] : Kernel Unit).thread t with
      sleepaddr := some (.other (t % 2)) }
    runqueue := ⟨32, 0, 0, fun _ => 0⟩
    sleepers := ⟨3, 4, id⟩ }

theorem wakeups_exact_threeSleepers :
    threeSleepers.sleepers.toList = [0, 1, 2] ∧
      Meets (threadWakeup (.other 0)) (fun _ k' => WokeAll threeSleepers (.other 0) k')
        (fun _ _ => False) threeSleepers
        (fun msg => msg = "Assertion failed: result==0" ∧ true ∈ threeSleepers.nomem) ∧
      Meets (threadWakeone (.other 0)) (fun _ k' => WokeFirst threeSleepers (.other 0) k')
        (fun _ _ => False) threeSleepers
        (fun msg => msg = "Assertion failed: result==0" ∧ true ∈ threeSleepers.nomem) :=
  ⟨rfl, wakeups_exact threeSleepers ⟨⟨by decide, by decide⟩, by decide, by decide⟩ (by decide) _⟩

end Os161.Threads
