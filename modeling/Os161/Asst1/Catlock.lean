import Mathlib.Tactic
import Os161.Common.Interleaving

/-!
# Cats and mice (`kern/asst1/catlock.c`)

Cats and mice eat from two bowls, each with a lock. An animal looks for a bowl, sets the indicator
of its kind for that bowl, looks at the two indicators of the other kind, and if they are clear
waits for the lock of the bowl and eats. Every read and every write of a shared variable is a step
of its own, in the order in which the conditions of the source are evaluated. The fields `bowl` and
`who` of the locks are taken to be there.

The locks keep two animals from the same bowl. An indicator, though, is shared by all animals of a
kind: an animal that leaves clears it while another one that has set it too waits for the lock. A
mouse then finds no cat, and eats from the other bowl while that cat eats (`cat_and_mouse_eat`).
Where an indicator is set only while it is clear, cats and mice do not eat at the same time
(`animals_apart`).
-/

namespace Os161.Catlock

open Interleaving

inductive Kind where
  | cat
  | mouse
deriving DecidableEq

/-- The bowls, with `lock1` and `lock2`. -/
inductive Bowl where
  | one
  | two
deriving DecidableEq

/-- The value of `who` for an animal of this kind. -/
def Kind.who : Kind → ℤ
  | .cat => 1
  | .mouse => 2

def Kind.other : Kind → Kind
  | .cat => .mouse
  | .mouse => .cat

/-- The indicator of the other kind that is looked at first. -/
def Kind.testsFirst : Kind → Bowl
  | .cat => .two
  | .mouse => .one

/-- The indicator of the other kind that is looked at next. -/
def Kind.testsNext : Kind → Bowl
  | .cat => .one
  | .mouse => .two

/-- The lock whose `who` is cleared by an animal that has eaten from a bowl: its own, except that
`mouselock` clears `lock1->who` in both places. -/
def Kind.clearsWho : Kind → Bowl → Bowl
  | .cat, b => b
  | .mouse, _ => .one

/-- The shared variables: the owners of the locks, `lock->bowl`, `lock->who`, and the indicators. -/
structure Shared where
  own : Bowl → Option ℕ
  bowl : Bowl → ℤ
  who : Bowl → ℤ
  indicate : Kind → Bowl → ℤ

/-- Where an animal is in `catlock` or `mouselock`. -/
inductive Pc where
  /-- The head of the `for` loop. -/
  | loop
  /-- The reads of the first condition: `lock1->bowl==1&&lock2->bowl==1`,
  `lock1->bowl==1&&lock2->bowl==0`, `lock2->who!=2`. -/
  | first1
  | first2
  | first3
  | first4
  | first5
  /-- The reads of the second condition: `lock1->bowl==0&&lock2->bowl==1`, `lock1->who!=2`. -/
  | second1
  | second2
  | second3
  /-- Set the indicator, look at those of the other kind, and clear it if one of them is set. -/
  | setFlag (b : Bowl)
  | test1 (b : Bowl)
  | test2 (b : Bowl)
  | backOff (b : Bowl)
  | acquire (b : Bowl)
  | setWho (b : Bowl)
  /-- `lock_eat`: take the bowl, say so, sleep and give it back, say so. -/
  | eatTake (b : Bowl)
  | eatStarts (b : Bowl)
  | eatGive (b : Bowl)
  | eatEnds (b : Bowl)
  | clearWho (b : Bowl)
  | clearFlag (b : Bowl)
  | release (b : Bowl)
  | done
deriving DecidableEq

/-- An animal, with the loop variable. -/
structure Animal where
  kind : Kind
  number : ℕ
  iteration : ℕ
  pc : Pc
deriving DecidableEq

/-- The messages of `lock_eat`. -/
inductive Say where
  | startsEating (who : Kind) (num : ℕ) (bowl : Bowl) (iteration : ℕ)
  | endsEating (who : Kind) (num : ℕ) (bowl : Bowl) (iteration : ℕ)
deriving DecidableEq

/-- The animal goes on at `pc`. -/
def Animal.goto (a : Animal) (pc : Pc) : Animal := { a with pc := pc }

namespace Shared

variable (s : Shared)

def setBowl (b : Bowl) (v : ℤ) : Shared := { s with bowl := Function.update s.bowl b v }

def setWho (b : Bowl) (v : ℤ) : Shared := { s with who := Function.update s.who b v }

def setOwn (b : Bowl) (v : Option ℕ) : Shared := { s with own := Function.update s.own b v }

def setIndicate (k : Kind) (b : Bowl) (v : ℤ) : Shared :=
  { s with indicate := Function.update s.indicate k (Function.update (s.indicate k) b v) }

end Shared

/-- The next step of the animal `i`. It blocks in `lock_acquire` while the lock is taken, and stops
at the assertion of `lock_release` if it does not hold the lock. -/
def step (i : ℕ) (s : Shared) (a : Animal) : Option (List Say × Shared × Animal) :=
  match a.pc with
  | .loop => if a.iteration < 4 then some ([], s, a.goto .first1) else some ([], s, a.goto .done)
  | .first1 => some ([], s, a.goto (if s.bowl .one = 1 then .first2 else .first3))
  | .first2 => some ([], s, a.goto (if s.bowl .two = 1 then .first5 else .first3))
  | .first3 => some ([], s, a.goto (if s.bowl .one = 1 then .first4 else .second1))
  | .first4 => some ([], s, a.goto (if s.bowl .two = 0 then .first5 else .second1))
  | .first5 =>
    some ([], s, a.goto (if s.who .two ≠ a.kind.other.who then .setFlag .one else .second1))
  | .second1 => some ([], s, a.goto (if s.bowl .one = 0 then .second2 else .first1))
  | .second2 => some ([], s, a.goto (if s.bowl .two = 1 then .second3 else .first1))
  | .second3 =>
    some ([], s, a.goto (if s.who .one ≠ a.kind.other.who then .setFlag .two else .first1))
  | .setFlag b => some ([], s.setIndicate a.kind b 1, a.goto (.test1 b))
  | .test1 b =>
    some ([], s, a.goto (if s.indicate a.kind.other a.kind.testsFirst = 1 then .backOff b
      else .test2 b))
  | .test2 b =>
    some ([], s, a.goto (if s.indicate a.kind.other a.kind.testsNext = 1 then .backOff b
      else .acquire b))
  | .backOff b => some ([], s.setIndicate a.kind b 0, a.goto .first1)
  | .acquire b =>
    if s.own b = none then some ([], s.setOwn b (some i), a.goto (.setWho b)) else none
  | .setWho b => some ([], s.setWho b a.kind.who, a.goto (.eatTake b))
  | .eatTake b => some ([], s.setBowl b 0, a.goto (.eatStarts b))
  | .eatStarts b => some ([.startsEating a.kind a.number b a.iteration], s, a.goto (.eatGive b))
  | .eatGive b => some ([], s.setBowl b 1, a.goto (.eatEnds b))
  | .eatEnds b => some ([.endsEating a.kind a.number b a.iteration], s, a.goto (.clearWho b))
  | .clearWho b => some ([], s.setWho (a.kind.clearsWho b) 0, a.goto (.clearFlag b))
  | .clearFlag b => some ([], s.setIndicate a.kind b 0, a.goto (.release b))
  | .release b =>
    if s.own b = some i then
      some ([], s.setOwn b none, { a with iteration := a.iteration + 1, pc := .loop })
    else none
  | .done => none

/-- Any number of cats and mice. -/
def animals : Interleaving Shared Animal Say Unit where
  thread i _ := step i
  others _ _ := none
  start a := a.pc = .loop ∧ a.iteration = 0

/-- `catmouselock`, before the first animal. -/
def init : State Shared Animal := ⟨⟨fun _ => none, fun _ => 1, fun _ => 0, fun _ _ => 0⟩, []⟩

/-! ## Places -/

/-- The bowl an animal is eating from: between the two messages. -/
def Animal.eats (a : Animal) : Option Bowl :=
  match a.pc with
  | .eatGive b | .eatEnds b => some b
  | _ => none

/-- The bowl whose lock an animal holds. -/
def Animal.holds (a : Animal) : Option Bowl :=
  match a.pc with
  | .setWho b | .eatTake b | .eatStarts b | .eatGive b | .eatEnds b | .clearWho b | .clearFlag b
  | .release b => some b
  | _ => none

/-- The bowl whose indicator an animal has set and not cleared yet. -/
def Animal.flags (a : Animal) : Option Bowl :=
  match a.pc with
  | .test1 b | .test2 b | .backOff b | .acquire b | .setWho b | .eatTake b | .eatStarts b
  | .eatGive b | .eatEnds b | .clearWho b | .clearFlag b => some b
  | _ => none

/-- The animal has found the other kind's indicator for the bowl clear, since it has set its own. -/
def Animal.foundClear (a : Animal) (b : Bowl) : Bool :=
  match a.pc with
  | .test2 _ => b = a.kind.testsFirst
  | .acquire _ | .setWho _ | .eatTake _ | .eatStarts _ | .eatGive _ | .eatEnds _ | .clearWho _
  | .clearFlag _ => true
  | _ => false

/-! ## A cat and a mouse that eat at the same time -/

/-- The animal `i` makes `n` steps. -/
def walk (i n : ℕ) : List (Choice Animal Unit) := List.replicate n (.thread i ())

/-- Two cats find bowl 1 free and set its indicator. While the first one eats a mouse finds bowl 2
free; the first one leaves and clears the indicator, so the mouse sees no cat and eats; and the
second cat gets the lock of bowl 1. -/
def threeAnimals : List (Choice Animal Unit) :=
  [.spawn ⟨.cat, 0, 0, .loop⟩, .spawn ⟨.cat, 1, 0, .loop⟩, .spawn ⟨.mouse, 0, 0, .loop⟩] ++
    (walk 0 4 ++ walk 1 4 ++ walk 0 7 ++ walk 1 3 ++ walk 2 5 ++ walk 0 4 ++ walk 2 8 ++ walk 0 1 ++
      walk 1 4)

theorem cat_and_mouse_eat :
    ∃ (tr : List (Event Say)) (t : State Shared Animal) (i j : ℕ) (a a' : Animal),
      Run animals.Step init tr t ∧ t.threads[i]? = some a ∧ t.threads[j]? = some a' ∧
      a.kind = .cat ∧ a'.kind = .mouse ∧ a.eats = some .one ∧ a'.eats = some .two := by
  have hrun : Run animals.Step init (animals.after threeAnimals init).1
      (animals.after threeAnimals init).2 :=
    run_after (by decide)
  exact ⟨_, _, 1, 2, ⟨.cat, 1, 0, .eatGive .one⟩, ⟨.mouse, 0, 0, .eatGive .two⟩, hrun,
    by decide, by decide, rfl, rfl, rfl, rfl⟩

/-! ## One step of an animal -/

/-- Not at a bowl: before the indicator is set, or at the end. -/
def Animal.away (a : Animal) : Bool :=
  match a.pc with
  | .loop | .first1 | .first2 | .first3 | .first4 | .first5 | .second1 | .second2 | .second3
  | .setFlag _ | .done => true
  | _ => false

/-- At a bowl, with the lock held and the indicator set. -/
def Animal.atBowl (a : Animal) : Option Bowl :=
  match a.pc with
  | .setWho b | .eatTake b | .eatStarts b | .eatGive b | .eatEnds b | .clearWho b | .clearFlag b =>
    some b
  | _ => none

section Moves

variable {i : ℕ} {s s' : Shared} {a a' : Animal} {es : List Say}

/-- What an animal does in one step, as far as the locks and the indicators go. -/
inductive Moves (i : ℕ) (s : Shared) (a : Animal) : Shared → Animal → Prop where
  | look {pc : Pc} (haway : a.away = true) (haway' : (a.goto pc).away = true) :
      Moves i s a s (a.goto pc)
  | setFlag {b : Bowl} (hpc : a.pc = .setFlag b) :
      Moves i s a (s.setIndicate a.kind b 1) (a.goto (.test1 b))
  | clear1 {b : Bowl} (hpc : a.pc = .test1 b)
      (hclear : s.indicate a.kind.other a.kind.testsFirst ≠ 1) : Moves i s a s (a.goto (.test2 b))
  | clear2 {b : Bowl} (hpc : a.pc = .test2 b)
      (hclear : s.indicate a.kind.other a.kind.testsNext ≠ 1) : Moves i s a s (a.goto (.acquire b))
  | seen {b : Bowl} (hpc : a.pc = .test1 b ∨ a.pc = .test2 b) : Moves i s a s (a.goto (.backOff b))
  | backOff {b : Bowl} (hpc : a.pc = .backOff b) :
      Moves i s a (s.setIndicate a.kind b 0) (a.goto .first1)
  | acquire {b : Bowl} (hpc : a.pc = .acquire b) (hfree : s.own b = none) :
      Moves i s a (s.setOwn b (some i)) (a.goto (.setWho b))
  | eat {b : Bowl} {pc : Pc} {s' : Shared} (hat : a.atBowl = some b)
      (hat' : (a.goto pc).atBowl = some b) (hown : s'.own = s.own)
      (hindicate : s'.indicate = s.indicate) : Moves i s a s' (a.goto pc)
  | clearFlag {b : Bowl} (hpc : a.pc = .clearFlag b) :
      Moves i s a (s.setIndicate a.kind b 0) (a.goto (.release b))
  | release {b : Bowl} (hpc : a.pc = .release b) (hmine : s.own b = some i) :
      Moves i s a (s.setOwn b none) { a with iteration := a.iteration + 1, pc := .loop }

theorem step_moves (h : step i s a = some (es, s', a')) : Moves i s a s' a' := by
  -- the reads before the indicator is set
  have hlook : ∀ {pc : Pc}, a.away = true → (a.goto pc).away = true →
      some ([], s, a.goto pc) = some (es, s', a') → Moves i s a s' a' := by
    intro pc haway haway' heq
    cases heq
    exact .look haway haway'
  unfold step at h
  split at h
  case h_1 hpc =>
    split at h
    · exact hlook (by simp [Animal.away, hpc]) rfl h
    · exact hlook (by simp [Animal.away, hpc]) rfl h
  case h_10 b hpc => cases h; exact .setFlag hpc
  case h_11 b hpc =>
    split at h <;> cases h
    case isTrue => exact .seen (.inl hpc)
    case isFalse hclear => exact .clear1 hpc hclear
  case h_12 b hpc =>
    split at h <;> cases h
    case isTrue => exact .seen (.inr hpc)
    case isFalse hclear => exact .clear2 hpc hclear
  case h_13 b hpc => cases h; exact .backOff hpc
  case h_14 b hpc =>
    split at h <;> cases h
    case isTrue hfree => exact .acquire hpc hfree
  case h_21 b hpc => cases h; exact .clearFlag hpc
  case h_22 b hpc =>
    split at h <;> cases h
    case isTrue hmine => exact .release hpc hmine
  case h_23 => cases h
  case h_15 b hpc => cases h; exact .eat (b := b) (by simp [Animal.atBowl, hpc]) rfl rfl rfl
  case h_16 b hpc => cases h; exact .eat (b := b) (by simp [Animal.atBowl, hpc]) rfl rfl rfl
  case h_17 b hpc => cases h; exact .eat (b := b) (by simp [Animal.atBowl, hpc]) rfl rfl rfl
  case h_18 b hpc => cases h; exact .eat (b := b) (by simp [Animal.atBowl, hpc]) rfl rfl rfl
  case h_19 b hpc => cases h; exact .eat (b := b) (by simp [Animal.atBowl, hpc]) rfl rfl rfl
  case h_20 b hpc => cases h; exact .eat (b := b) (by simp [Animal.atBowl, hpc]) rfl rfl rfl
  all_goals
    rename_i hpc
    refine hlook (by simp [Animal.away, hpc]) ?_ h
    split <;> rfl

theorem Animal.places_of_away (h : a.away = true) :
    a.holds = none ∧ a.flags = none ∧ ∀ b, a.foundClear b = false := by
  obtain ⟨kind, number, iteration, pc⟩ := a
  cases pc <;> first | exact ⟨rfl, rfl, fun _ => rfl⟩ | exact absurd h Bool.false_ne_true

theorem Animal.places_of_atBowl {b : Bowl} (h : a.atBowl = some b) :
    a.holds = some b ∧ a.flags = some b ∧ ∀ b', a.foundClear b' = true := by
  obtain ⟨kind, number, iteration, pc⟩ := a
  cases pc <;> first | exact ⟨h, h, fun _ => rfl⟩ | exact absurd h (Option.some_ne_none b).symm

/-- The locks: an animal keeps what it holds, gets a lock that is free, or releases its own. -/
theorem Moves.locks (h : Moves i s a s' a') :
    s'.own = s.own ∧ a'.holds = a.holds ∨
      (∃ b, s.own b = none ∧ s' = s.setOwn b (some i) ∧ a'.holds = some b) ∨
      ∃ b, s.own b = some i ∧ s' = s.setOwn b none ∧ a'.holds = none := by
  cases h with
  | look haway haway' =>
    exact .inl ⟨rfl, (Animal.places_of_away haway').1.trans (Animal.places_of_away haway).1.symm⟩
  | eat hat hat' hown _ =>
    exact .inl ⟨hown, (Animal.places_of_atBowl hat').1.trans (Animal.places_of_atBowl hat).1.symm⟩
  | acquire hpc hfree => exact .inr (.inl ⟨_, hfree, rfl, rfl⟩)
  | release hpc hmine => exact .inr (.inr ⟨_, hmine, rfl, rfl⟩)
  | seen hpc =>
    rcases hpc with hpc | hpc <;> exact .inl ⟨rfl, by simp [Animal.holds, Animal.goto, hpc]⟩
  | _ hpc => exact .inl ⟨rfl, by simp [Animal.holds, Animal.goto, hpc]⟩

/-- The indicators: an animal keeps the one it has set, sets one, or clears its own. -/
theorem Moves.flags (h : Moves i s a s' a') :
    s'.indicate = s.indicate ∧ a'.flags = a.flags ∨
      (∃ b, a.pc = .setFlag b ∧ s' = s.setIndicate a.kind b 1 ∧ a'.flags = some b ∧
        ∀ b', a'.foundClear b' = false) ∨
      ∃ b, a.flags = some b ∧ s' = s.setIndicate a.kind b 0 ∧ a'.flags = none := by
  cases h with
  | look haway haway' =>
    exact .inl ⟨rfl,
      (Animal.places_of_away haway').2.1.trans (Animal.places_of_away haway).2.1.symm⟩
  | eat hat hat' _ hindicate =>
    exact .inl ⟨hindicate,
      (Animal.places_of_atBowl hat').2.1.trans (Animal.places_of_atBowl hat).2.1.symm⟩
  | setFlag hpc => exact .inr (.inl ⟨_, hpc, rfl, rfl, fun _ => rfl⟩)
  | backOff hpc => exact .inr (.inr ⟨_, by simp [Animal.flags, hpc], rfl, rfl⟩)
  | clearFlag hpc => exact .inr (.inr ⟨_, by simp [Animal.flags, hpc], rfl, rfl⟩)
  | seen hpc =>
    rcases hpc with hpc | hpc <;> exact .inl ⟨rfl, by simp [Animal.flags, Animal.goto, hpc]⟩
  | release hpc hmine => exact .inl ⟨rfl, by simp [Animal.flags, hpc]⟩
  | _ hpc => exact .inl ⟨rfl, by simp [Animal.flags, Animal.goto, hpc]⟩

/-- An animal has found an indicator clear before, or does so now. -/
theorem Moves.foundClear (h : Moves i s a s' a') {b : Bowl} (hclear : a'.foundClear b = true) :
    a.foundClear b = true ∨ s.indicate a.kind.other b ≠ 1 := by
  cases h with
  | look haway haway' => simp [(Animal.places_of_away haway').2.2 b] at hclear
  | eat hat hat' => exact .inl ((Animal.places_of_atBowl hat).2.2 b)
  | clear1 hpc hnone =>
    right
    have hb : b = a.kind.testsFirst := of_decide_eq_true hclear
    rwa [hb]
  | clear2 hpc hnone =>
    rcases eq_or_ne b a.kind.testsFirst with hb | hb
    · exact .inl (by simp [Animal.foundClear, hpc, hb])
    · right
      have hb' : b = a.kind.testsNext := by
        revert hb
        cases b <;> cases a.kind <;> simp [Kind.testsFirst, Kind.testsNext]
      rwa [hb']
  | acquire hpc => exact .inl (by simp [Animal.foundClear, hpc])
  | _ => simp [Animal.foundClear, Animal.goto] at hclear

theorem Moves.kind (h : Moves i s a s' a') : a'.kind = a.kind := by
  cases h <;> rfl

end Moves

/-! ## The locks -/

/-- An animal that holds a lock owns it. -/
def Locked (s : Shared) (ls : List Animal) : Prop :=
  ∀ j a b, ls[j]? = some a → a.holds = some b → s.own b = some j

theorem Locked.step {i : ℕ} {s s' : Shared} {ls : List Animal} {a a' : Animal} (h : Locked s ls)
    (ha : ls[i]? = some a) (hmoves : Moves i s a s' a') : Locked s' (ls.set i a') := by
  intro j c b hc hb
  rcases hmoves.locks with ⟨hown, hholds⟩ | ⟨b', hfree, rfl, hholds⟩ | ⟨b', hmine, rfl, hholds⟩
  · rw [hown]
    rcases set_cases hc with ⟨rfl, rfl⟩ | ⟨-, hc⟩
    · exact h j a b ha (hholds ▸ hb)
    · exact h j c b hc hb
  · rcases set_cases hc with ⟨rfl, rfl⟩ | ⟨-, hc⟩
    · obtain rfl : b' = b := Option.some.inj (hholds.symm.trans hb)
      exact Function.update_self ..
    · have hown := h j c b hc hb
      have hne : b ≠ b' := by
        rintro rfl
        simp [hfree] at hown
      exact (Function.update_of_ne hne _ _).trans hown
  · rcases set_cases hc with ⟨rfl, rfl⟩ | ⟨hji, hc⟩
    · simp [hholds] at hb
    · have hown := h j c b hc hb
      have hne : b ≠ b' := by
        rintro rfl
        exact hji (Option.some.inj (hown.symm.trans hmine))
      exact (Function.update_of_ne hne _ _).trans hown

theorem locked_of_run {tr : List (Event Say)} {t : State Shared Animal}
    (hrun : Run animals.Step init tr t) : Locked t.shared t.threads := by
  refine hrun.invariant (I := fun _ t => Locked t.shared t.threads) ?_ ?_
  · intro j a b ha
    simp [init] at ha
  · intro tr t es u _ h hstep
    cases hstep with
    | thread ha hstep => exact h.step ha (step_moves hstep)
    | others hstep => cases hstep
    | @spawn s ls a hstart =>
      intro j c b hc hb
      rcases append_cases hc with ⟨-, rfl⟩ | hc
      · have hpc : c.pc = .loop := (of_decide_eq_true hstart).1
        simp [Animal.holds, hpc] at hb
      · exact h j c b hc hb

/-! ## The indicators -/

/-- The step that the animal is about to make does not set an indicator that is set. -/
def Animal.Careful (s : Shared) (a : Animal) : Prop :=
  match a.pc with
  | .setFlag b => s.indicate a.kind b = 0
  | _ => True

/-- The steps of animals that set an indicator only while it is clear. -/
def Careful (t : State Shared Animal) : Choice Animal Unit → Prop
  | .thread i _ => ∀ a ∈ t.threads[i]?, a.Careful t.shared
  | _ => True

/-- What careful animals keep: an indicator is set while an animal has set it, which no two of a
kind have; and of a cat and a mouse that have set theirs, not both have found the other's clear. -/
structure Indicated (s : Shared) (ls : List Animal) : Prop where
  set : ∀ (j : ℕ) (a : Animal) (b : Bowl), ls[j]? = some a → a.flags = some b →
    s.indicate a.kind b = 1
  one : ∀ (j j' : ℕ) (a a' : Animal) (b : Bowl), ls[j]? = some a → ls[j']? = some a' →
    a.kind = a'.kind → a.flags = some b → a'.flags = some b → j = j'
  met : ∀ (j j' : ℕ) (a a' : Animal) (b b' : Bowl), ls[j]? = some a → ls[j']? = some a' →
    a'.kind = a.kind.other → a.flags = some b → a'.flags = some b' →
    a.foundClear b' = true → a'.foundClear b = false

namespace Indicated

variable {i : ℕ} {s s' : Shared} {ls : List Animal} {a a' : Animal}

theorem setIndicate_self (s : Shared) (k : Kind) (b : Bowl) (v : ℤ) :
    (s.setIndicate k b v).indicate k b = v := by
  simp [Shared.setIndicate]

theorem setIndicate_of_ne (s : Shared) {k k' : Kind} {b b' : Bowl} (v : ℤ)
    (hne : ¬ (k' = k ∧ b' = b)) : (s.setIndicate k b v).indicate k' b' = s.indicate k' b' := by
  by_cases hk : k' = k
  · subst hk
    have hb : b' ≠ b := fun hb => hne ⟨rfl, hb⟩
    simp [Shared.setIndicate, hb]
  · simp [Shared.setIndicate, hk]

theorem set_step (h : Indicated s ls) (ha : ls[i]? = some a) (hmoves : Moves i s a s' a') (j : ℕ)
    (c : Animal) (b : Bowl) (hc : (ls.set i a')[j]? = some c) (hb : c.flags = some b) :
    s'.indicate c.kind b = 1 := by
  rcases hmoves.flags with ⟨hind, hflags⟩ | ⟨b', hpc, rfl, hflags, -⟩ | ⟨b', hflag, rfl, hflags⟩
  · rw [hind]
    rcases set_cases hc with ⟨rfl, rfl⟩ | ⟨-, hc⟩
    · rw [hmoves.kind]
      exact h.set j a b ha (hflags ▸ hb)
    · exact h.set j c b hc hb
  · by_cases heq : c.kind = a.kind ∧ b = b'
    · rw [heq.1, heq.2]
      exact setIndicate_self ..
    · rw [setIndicate_of_ne _ _ heq]
      rcases set_cases hc with ⟨rfl, rfl⟩ | ⟨-, hc⟩
      · exact absurd ⟨hmoves.kind, Option.some.inj (hb.symm.trans hflags)⟩ heq
      · exact h.set j c b hc hb
  · rcases set_cases hc with ⟨rfl, rfl⟩ | ⟨hji, hc⟩
    · simp [hflags] at hb
    · -- the one that is cleared is that of the animal that moves
      have hne : ¬ (c.kind = a.kind ∧ b = b') := by
        rintro ⟨hk, rfl⟩
        exact hji (h.one j i c a b hc ha hk hb hflag)
      rw [setIndicate_of_ne _ _ hne]
      exact h.set j c b hc hb

/-- An animal that has an indicator set after its step has it alone. -/
theorem flags_alone (h : Indicated s ls) (ha : ls[i]? = some a) (hcareful : a.Careful s)
    (hmoves : Moves i s a s' a') {b : Bowl} (hb : a'.flags = some b) {j : ℕ} {c : Animal}
    (hc : ls[j]? = some c) (hkind : c.kind = a.kind) (hcb : c.flags = some b) : j = i := by
  rcases hmoves.flags with ⟨-, hflags⟩ | ⟨b', hpc, -, hflags, -⟩ | ⟨b', -, -, hflags⟩
  · exact h.one j i c a b hc ha hkind hcb (hflags ▸ hb)
  · obtain rfl : b' = b := Option.some.inj (hflags.symm.trans hb)
    have hset := h.set j c b' hc hcb
    have hclear : s.indicate a.kind b' = 0 := by simpa only [Animal.Careful, hpc] using hcareful
    rw [hkind, hclear] at hset
    exact absurd hset zero_ne_one
  · simp [hflags] at hb

/-- An animal that has found clear what another one has set had done so before its step. -/
theorem foundClear_before (h : Indicated s ls) (hmoves : Moves i s a s' a') {b b' : Bowl}
    (hb : a'.flags = some b) (hclear : a'.foundClear b' = true) {j : ℕ} {c : Animal}
    (hc : ls[j]? = some c) (hkind : c.kind = a.kind.other) (hcb : c.flags = some b') :
    a.flags = some b ∧ a.foundClear b' = true := by
  have hset := h.set j c b' hc hcb
  rw [hkind] at hset
  constructor
  · rcases hmoves.flags with ⟨-, hflags⟩ | ⟨b'', -, -, -, hnone⟩ | ⟨b'', -, -, hflags⟩
    · rw [← hflags, hb]
    · simp [hnone b'] at hclear
    · simp [hflags] at hb
  · rcases hmoves.foundClear hclear with hbefore | hnot
    · exact hbefore
    · exact absurd hset hnot

theorem other_other (k : Kind) : k.other.other = k := by
  cases k <;> rfl

theorem ne_other (k : Kind) : k ≠ k.other := by
  cases k <;> exact Kind.noConfusion

/-- A step of a careful animal. -/
theorem step (h : Indicated s ls) (ha : ls[i]? = some a) (hcareful : a.Careful s)
    (hmoves : Moves i s a s' a') : Indicated s' (ls.set i a') := by
  refine ⟨h.set_step ha hmoves, ?_, ?_⟩
  · intro j j' c c' b hc hc' hkind hb hb'
    rcases set_cases hc with ⟨rfl, rfl⟩ | ⟨hj, hold⟩
    · rcases set_cases hc' with ⟨rfl, -⟩ | ⟨hj', hold'⟩
      · rfl
      · exact absurd (h.flags_alone ha hcareful hmoves hb hold' (hkind.symm.trans hmoves.kind) hb')
          hj'
    · rcases set_cases hc' with ⟨rfl, rfl⟩ | ⟨hj', hold'⟩
      · exact absurd (h.flags_alone ha hcareful hmoves hb' hold (hkind.trans hmoves.kind) hb) hj
      · exact h.one j j' c c' b hold hold' hkind hb hb'
  · intro j j' c c' b b' hc hc' hkind hb hb' hclear
    rcases set_cases hc with ⟨rfl, rfl⟩ | ⟨hj, hold⟩
    · rcases set_cases hc' with ⟨-, rfl⟩ | ⟨hj', hold'⟩
      · exact absurd hkind (ne_other c'.kind)
      · have hkind' : c'.kind = a.kind.other := by rw [hkind, hmoves.kind]
        obtain ⟨hflag, hbefore⟩ := h.foundClear_before hmoves hb hclear hold' hkind' hb'
        exact h.met j j' a c' b b' ha hold' hkind' hflag hb' hbefore
    · rcases set_cases hc' with ⟨rfl, rfl⟩ | ⟨hj', hold'⟩
      · by_contra hclear'
        rw [Bool.not_eq_false] at hclear'
        have hkind' : c.kind = a.kind.other := by rw [← hmoves.kind, hkind, other_other]
        obtain ⟨hflag, hbefore⟩ := h.foundClear_before hmoves hb' hclear' hold hkind' hb
        have hnot := h.met j j' c a b b' hold ha (by rw [hkind', other_other]) hb hflag hclear
        simp [hnot] at hbefore
      · exact h.met j j' c c' b b' hold hold' hkind hb hb' hclear

/-- A new animal. -/
theorem spawn (h : Indicated s ls) (hpc : a.pc = .loop) : Indicated s (ls ++ [a]) := by
  have hflags : a.flags = none := by simp [Animal.flags, hpc]
  refine ⟨?_, ?_, ?_⟩
  · intro j c b hc hb
    rcases append_cases hc with ⟨-, rfl⟩ | hc
    · simp [hflags] at hb
    · exact h.set j c b hc hb
  · intro j j' c c' b hc hc' hkind hb hb'
    rcases append_cases hc with ⟨-, rfl⟩ | hc
    · simp [hflags] at hb
    rcases append_cases hc' with ⟨-, rfl⟩ | hc'
    · simp [hflags] at hb'
    exact h.one j j' c c' b hc hc' hkind hb hb'
  · intro j j' c c' b b' hc hc' hkind hb hb'
    rcases append_cases hc with ⟨-, rfl⟩ | hc
    · simp [hflags] at hb
    rcases append_cases hc' with ⟨-, rfl⟩ | hc'
    · simp [hflags] at hb'
    exact h.met j j' c c' b b' hc hc' hkind hb hb'

end Indicated

theorem indicated_of_run {tr : List (Event Say)} {t : State Shared Animal}
    (hrun : Run (animals.StepWhere Careful) init tr t) : Indicated t.shared t.threads := by
  refine hrun.invariant (I := fun _ t => Indicated t.shared t.threads) ?_ ?_
  · exact ⟨by simp [init], by simp [init], by simp [init]⟩
  · intro tr t es u _ h hstep
    cases hstep with
    | thread ha hcareful hstep => exact h.step ha (hcareful _ ha) (step_moves hstep)
    | others _ hstep => cases hstep
    | spawn _ hstart => exact h.spawn (of_decide_eq_true hstart).1

/-! ## Eating -/

theorem Animal.places_of_eats {a : Animal} {b : Bowl} (h : a.eats = some b) :
    a.holds = some b ∧ a.flags = some b ∧ ∀ b', a.foundClear b' = true := by
  refine places_of_atBowl ?_
  obtain ⟨kind, number, iteration, pc⟩ := a
  cases pc <;> first | exact h | exact absurd h (Option.some_ne_none b).symm

/-- **Cats and mice.** In every run no two animals eat from the same bowl at the same time. And in
every run in which an indicator is set only while it is clear, no cat and no mouse eat at the same
time. -/
theorem animals_apart {tr : List (Event Say)} {t : State Shared Animal} {i j : ℕ} {a a' : Animal}
    (ha : t.threads[i]? = some a) (ha' : t.threads[j]? = some a') :
    (Run animals.Step init tr t → ∀ b, a.eats = some b → a'.eats = some b → i = j) ∧
      (Run (animals.StepWhere Careful) init tr t → a.kind = .cat → a'.kind = .mouse →
        a.eats = none ∨ a'.eats = none) := by
  constructor
  · intro hrun b heats heats'
    have hlocked := locked_of_run hrun
    have hi := hlocked i a b ha (Animal.places_of_eats heats).1
    have hj := hlocked j a' b ha' (Animal.places_of_eats heats').1
    exact Option.some.inj (hi.symm.trans hj)
  · intro hrun hcat hmouse
    by_contra hboth
    rw [not_or] at hboth
    obtain ⟨b, heats⟩ := Option.ne_none_iff_exists'.mp hboth.1
    obtain ⟨b', heats'⟩ := Option.ne_none_iff_exists'.mp hboth.2
    obtain ⟨-, hflags, hclear⟩ := Animal.places_of_eats heats
    obtain ⟨-, hflags', hclear'⟩ := Animal.places_of_eats heats'
    have hkind : a'.kind = a.kind.other := by rw [hcat, hmouse]; rfl
    have hnot := (indicated_of_run hrun).met i j a a' b b' ha ha' hkind hflags hflags' (hclear b')
    simp [hclear' b] at hnot

instance (s : Shared) (a : Animal) : Decidable (a.Careful s) := by
  unfold Animal.Careful
  split <;> infer_instance

instance (t : State Shared Animal) (c : Choice Animal Unit) : Decidable (Careful t c) := by
  unfold Careful
  split <;> infer_instance

/-- A cat eats from bowl 1, and a mouse has looked at the bowls. -/
def catEats : List (Choice Animal Unit) :=
  [.spawn ⟨.cat, 0, 0, .loop⟩, .spawn ⟨.mouse, 0, 0, .loop⟩] ++ (walk 0 11 ++ walk 1 6)

theorem animals_apart_catEats :
    ∃ (tr : List (Event Say)) (t : State Shared Animal) (a a' : Animal),
      Run (animals.StepWhere Careful) init tr t ∧ t.threads[0]? = some a ∧
      t.threads[1]? = some a' ∧ a.kind = .cat ∧ a.eats = some .one ∧ a'.kind = .mouse ∧
      a'.eats = none := by
  have hrun : Run (animals.StepWhere Careful) init (animals.afterWhere Careful catEats init).1
      (animals.afterWhere Careful catEats init).2 :=
    run_afterWhere (by decide)
  have ha : (animals.afterWhere Careful catEats init).2.threads[0]? =
      some ⟨.cat, 0, 0, .eatGive .one⟩ := by decide
  have ha' : (animals.afterWhere Careful catEats init).2.threads[1]? =
      some ⟨.mouse, 0, 0, .first1⟩ := by decide
  have hone := (animals_apart ha ha').2 hrun rfl rfl
  exact ⟨_, _, _, _, hrun, ha, ha', rfl, rfl, rfl, hone.resolve_left (by decide)⟩

end Os161.Catlock
