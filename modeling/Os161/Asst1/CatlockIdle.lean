import Os161.Asst1.Catlock

/-!
# What the animals leave behind

An animal that goes to a bowl marks this in three places: its indicator, `bowl` and `who` of the lock
of the bowl. What is marked while nobody is at a bowl is still marked when the next animal comes.

Each indicator, each bowl, the two locks and `lock1->who` are marked only while some animal is at a
place from which it will take the mark away (`exists_answering`). With `lock2->who` it is otherwise: a mouse that
leaves bowl 2 clears `lock1->who` in its place. So while nobody is at bowl 2 the field says that a
mouse is, if a mouse was the last one there (`Second`), and then cats find no bowl.
-/

namespace Os161.Catlock

open Interleaving

/-! ## Places -/

/-- The bowl that an animal has taken and not given back. -/
def Animal.taken (a : Animal) : Option Bowl :=
  match a.pc with
  | .eatStarts b | .eatGive b => some b
  | _ => none

/-- The bowl at whose lock an animal has set `who` and not cleared it yet. -/
def Animal.signed (a : Animal) : Option Bowl :=
  match a.pc with
  | .eatTake b | .eatStarts b | .eatGive b | .eatEnds b | .clearWho b => some b
  | _ => none

/-- Nobody is between setting an indicator and releasing the lock. -/
def Idle (t : State Shared Animal) : Prop := ∀ a ∈ t.threads, a.away = true

/-- The animal has more to eat. -/
def Animal.hungry (a : Animal) : Prop := a.pc ≠ .done ∧ (a.pc = .loop → a.iteration < 4)

/-- The animal `i` eats if it goes on alone. -/
inductive EatsAlone (i : ℕ) : Shared → Animal → Prop where
  | now {s : Shared} {a : Animal} {b : Bowl} (h : a.eats = some b) : EatsAlone i s a
  | step {s s' : Shared} {a a' : Animal} {es : List Say} (h : step i s a = some (es, s', a'))
      (hrest : EatsAlone i s' a') : EatsAlone i s a

/-- Nothing is left behind: the bowls are free, `who` and the indicators are 0, and every hungry
animal gets to eat alone. -/
structure Restored (t : State Shared Animal) : Prop where
  bowl : ∀ b, t.shared.bowl b = 1
  who : ∀ b, t.shared.who b = 0
  indicate : ∀ k b, t.shared.indicate k b = 0
  eats : ∀ (i : ℕ) a, t.threads[i]? = some a → a.hungry → EatsAlone i t.shared a

/-! ## One step -/

/-- The animal that leaves bowl 2, as the message says. -/
def Say.leavesTwo : Say → Option Kind
  | .endsEating who _ .two _ => some who
  | _ => none

section Step

variable {i : ℕ} {s s' : Shared} {a a' : Animal} {es : List Say}

/-- What an animal does in one step, as far as `bowl`, `who` and the messages go. -/
inductive Books (s : Shared) (a : Animal) : List Say → Shared → Animal → Prop where
  | quiet {es : List Say} {s' : Shared} {a' : Animal} (hbowl : s'.bowl = s.bowl)
      (hwho : s'.who = s.who) (htaken : a'.taken = a.taken) (hsigned : a'.signed = a.signed)
      (hleaves : es.filterMap Say.leavesTwo = []) (hpc : ∀ b, a'.pc ≠ .clearWho b) :
      Books s a es s' a'
  | sign {b : Bowl} (hpc : a.pc = .setWho b) :
      Books s a [] (s.setWho b a.kind.who) (a.goto (.eatTake b))
  | take {b : Bowl} (hpc : a.pc = .eatTake b) :
      Books s a [] (s.setBowl b 0) (a.goto (.eatStarts b))
  | give {b : Bowl} (hpc : a.pc = .eatGive b) :
      Books s a [] (s.setBowl b 1) (a.goto (.eatEnds b))
  | leave {b : Bowl} (hpc : a.pc = .eatEnds b) :
      Books s a [.endsEating a.kind a.number b a.iteration] s (a.goto (.clearWho b))
  | erase {b : Bowl} (hpc : a.pc = .clearWho b) :
      Books s a [] (s.setWho (a.kind.clearsWho b) 0) (a.goto (.clearFlag b))

theorem step_books (h : step i s a = some (es, s', a')) : Books s a es s' a' := by
  obtain ⟨kind, number, iteration, pc⟩ := a
  cases pc <;> simp only [step, Option.some.injEq, Prod.mk.injEq, Option.ite_none_right_eq_some,
    reduceCtorEq] at h
  case loop => split at h <;> cases h <;> exact .quiet rfl rfl rfl rfl rfl nofun
  case setWho b => obtain ⟨rfl, rfl, rfl⟩ := h; exact .sign rfl
  case eatTake b => obtain ⟨rfl, rfl, rfl⟩ := h; exact .take rfl
  case eatGive b => obtain ⟨rfl, rfl, rfl⟩ := h; exact .give rfl
  case eatEnds b => obtain ⟨rfl, rfl, rfl⟩ := h; exact .leave rfl
  case clearWho b => obtain ⟨rfl, rfl, rfl⟩ := h; exact .erase rfl
  case acquire b => obtain ⟨-, rfl, rfl, rfl⟩ := h; exact .quiet rfl rfl rfl rfl rfl nofun
  case release b => obtain ⟨-, rfl, rfl, rfl⟩ := h; exact .quiet rfl rfl rfl rfl rfl nofun
  case setFlag b => obtain ⟨rfl, rfl, rfl⟩ := h; exact .quiet rfl rfl rfl rfl rfl nofun
  case backOff b => obtain ⟨rfl, rfl, rfl⟩ := h; exact .quiet rfl rfl rfl rfl rfl nofun
  case eatStarts b => obtain ⟨rfl, rfl, rfl⟩ := h; exact .quiet rfl rfl rfl rfl rfl nofun
  case clearFlag b => obtain ⟨rfl, rfl, rfl⟩ := h; exact .quiet rfl rfl rfl rfl rfl nofun
  all_goals
    -- a test of a shared variable
    obtain ⟨rfl, rfl, rfl⟩ := h
    split <;> exact .quiet rfl rfl rfl rfl rfl nofun

theorem Shared.setBowl_bowl (s : Shared) (b b' : Bowl) (v : ℤ) :
    (s.setBowl b v).bowl b' = if b' = b then v else s.bowl b' :=
  Function.update_apply ..

theorem Shared.setWho_who (s : Shared) (b b' : Bowl) (v : ℤ) :
    (s.setWho b v).who b' = if b' = b then v else s.who b' :=
  Function.update_apply ..

theorem Shared.setOwn_own (s : Shared) (b b' : Bowl) (v : Option ℕ) :
    (s.setOwn b v).own b' = if b' = b then v else s.own b' :=
  Function.update_apply ..

theorem Animal.not_at_bowl (h : a.away = true) : a.taken = none ∧ a.signed = none := by
  obtain ⟨kind, number, iteration, pc⟩ := a
  cases pc <;> first | exact ⟨rfl, rfl⟩ | exact absurd h Bool.false_ne_true

theorem Animal.holds_of_signed {b : Bowl} (h : a.signed = some b) : a.holds = some b := by
  obtain ⟨kind, number, iteration, pc⟩ := a
  cases pc <;> first | exact h | exact absurd h (Option.some_ne_none b).symm

end Step

/-! ## What is marked while somebody answers for it -/

section Run

variable {tr : List (Event Say)} {t : State Shared Animal}

/-- What only animals at a bowl answer for is not marked while nobody is at a bowl. -/
theorem not_marked_of_idle {X : Shared → Prop} {Y : Animal → Prop}
    (hrun : Run animals.Step init tr t) (hidle : Idle t) (h0 : ¬ X init.shared)
    (haway : ∀ a : Animal, a.away = true → ¬ Y a)
    (hstep : ∀ {i s a es s' a'}, step i s a = some (es, s', a') →
      X s' → Y a' ∨ X s ∧ (Y a → Y a')) : ¬ X t.shared := by
  intro hX
  obtain ⟨a, ha, hY⟩ := exists_answering (S := animals) hstep
    (fun hothers => (Option.some_ne_none _ hothers.symm).elim) h0 hrun hX
  exact haway a (hidle a ha) hY

theorem indicate_of_idle (hrun : Run animals.Step init tr t) (hidle : Idle t) (k : Kind)
    (b : Bowl) : t.shared.indicate k b = 0 := by
  refine not_not.mp (not_marked_of_idle (X := fun s => s.indicate k b ≠ 0)
    (Y := fun a => a.kind = k ∧ a.flags = some b) hrun hidle (by simp [init]) ?_ ?_)
  · intro a haway hflags
    simp [(Animal.places_of_away haway).2.1] at hflags
  intro i s a es s' a' hstep hset
  have hmoves := step_moves hstep
  rcases hmoves.flags with ⟨hind, hflags⟩ | ⟨b', hpc, rfl, hflags, -⟩ | ⟨b', hflag, rfl, hflags⟩
  · rw [hind] at hset
    exact .inr ⟨hset, fun ha => ⟨hmoves.kind.trans ha.1, hflags.trans ha.2⟩⟩
  · by_cases heq : k = a.kind ∧ b = b'
    · exact .inl ⟨hmoves.kind.trans heq.1.symm, heq.2 ▸ hflags⟩
    · rw [Indicated.setIndicate_of_ne _ _ heq] at hset
      exact .inr ⟨hset, fun ha => by simp [Animal.flags, hpc] at ha⟩
  · by_cases heq : k = a.kind ∧ b = b'
    · rw [heq.1, heq.2, Indicated.setIndicate_self] at hset
      exact absurd rfl hset
    · rw [Indicated.setIndicate_of_ne _ _ heq] at hset
      refine .inr ⟨hset, fun ha => absurd ⟨ha.1.symm, ?_⟩ heq⟩
      exact Option.some.inj (ha.2.symm.trans hflag)

theorem bowl_of_idle (hrun : Run animals.Step init tr t) (hidle : Idle t) (b : Bowl) :
    t.shared.bowl b = 1 := by
  refine not_not.mp (not_marked_of_idle (X := fun s => s.bowl b ≠ 1)
    (Y := fun a => a.taken = some b) hrun hidle (by simp [init]) ?_ ?_)
  · intro a haway htaken
    simp [(Animal.not_at_bowl haway).1] at htaken
  intro i s a es s' a' hstep hset
  cases step_books hstep with
  | quiet hbowl _ htaken => exact .inr ⟨hbowl ▸ hset, fun ha => htaken.trans ha⟩
  | sign hpc => exact .inr ⟨hset, fun ha => by simp [Animal.taken, hpc] at ha⟩
  | leave hpc => exact .inr ⟨hset, fun ha => by simp [Animal.taken, hpc] at ha⟩
  | erase hpc => exact .inr ⟨hset, fun ha => by simp [Animal.taken, hpc] at ha⟩
  | @take b' hpc =>
    rcases eq_or_ne b b' with rfl | hb
    · exact .inl rfl
    · rw [Shared.setBowl_bowl, if_neg hb] at hset
      exact .inr ⟨hset, fun ha => by simp [Animal.taken, hpc] at ha⟩
  | @give b' hpc =>
    rcases eq_or_ne b b' with rfl | hb
    · exact absurd (Function.update_self ..) hset
    · rw [Shared.setBowl_bowl, if_neg hb] at hset
      refine .inr ⟨hset, fun ha => absurd ?_ hb⟩
      simpa [Animal.taken, hpc] using ha.symm

theorem who_one_of_idle (hrun : Run animals.Step init tr t) (hidle : Idle t) :
    t.shared.who .one = 0 := by
  refine not_not.mp (not_marked_of_idle (X := fun s => s.who .one ≠ 0)
    (Y := fun a => a.signed = some .one) hrun hidle (by simp [init]) ?_ ?_)
  · intro a haway hsigned
    simp [(Animal.not_at_bowl haway).2] at hsigned
  intro i s a es s' a' hstep hset
  cases step_books hstep with
  | quiet _ hwho _ hsigned => exact .inr ⟨hwho ▸ hset, fun ha => hsigned.trans ha⟩
  | @sign b hpc =>
    cases b with
    | one => exact .inl rfl
    | two => exact .inr ⟨hset, fun ha => by simp [Animal.signed, hpc] at ha⟩
  | take hpc => exact .inr ⟨hset, fun ha => by simpa [Animal.signed, Animal.goto, hpc] using ha⟩
  | give hpc => exact .inr ⟨hset, fun ha => by simpa [Animal.signed, Animal.goto, hpc] using ha⟩
  | leave hpc => exact .inr ⟨hset, fun ha => by simpa [Animal.signed, Animal.goto, hpc] using ha⟩
  | @erase b hpc =>
    by_cases hone : a.kind.clearsWho b = .one
    · rw [Shared.setWho_who, if_pos hone.symm] at hset
      exact absurd rfl hset
    · rw [Shared.setWho_who, if_neg (Ne.symm hone)] at hset
      refine .inr ⟨hset, fun ha => absurd ?_ hone⟩
      have hb : b = .one := by simpa [Animal.signed, hpc] using ha
      rw [hb]
      cases a.kind <;> rfl

theorem own_of_idle (hrun : Run animals.Step init tr t) (hidle : Idle t) (b : Bowl) :
    t.shared.own b = none := by
  refine not_not.mp (not_marked_of_idle (X := fun s => s.own b ≠ none)
    (Y := fun a => a.holds = some b) hrun hidle (by simp [init]) ?_ ?_)
  · intro a haway hholds
    simp [(Animal.places_of_away haway).1] at hholds
  intro i s a es s' a' hstep hset
  cases step_moves hstep with
  | look haway haway' =>
    exact .inr ⟨hset, fun ha => by simp [(Animal.places_of_away haway).1] at ha⟩
  | eat hat hat' hown _ =>
    refine .inr ⟨hown ▸ hset, fun ha => ?_⟩
    rw [← ha, (Animal.places_of_atBowl hat).1, (Animal.places_of_atBowl hat').1]
  | @acquire b' hpc hfree =>
    rcases eq_or_ne b b' with rfl | hb
    · exact .inl rfl
    · rw [Shared.setOwn_own, if_neg hb] at hset
      exact .inr ⟨hset, fun ha => by simp [Animal.holds, hpc] at ha⟩
  | @release b' hpc hmine =>
    rcases eq_or_ne b b' with rfl | hb
    · exact absurd (Function.update_self ..) hset
    · rw [Shared.setOwn_own, if_neg hb] at hset
      refine .inr ⟨hset, fun ha => absurd ?_ hb⟩
      simpa [Animal.holds, hpc] using ha.symm
  | clearFlag hpc =>
    exact .inr ⟨hset, fun ha => by simpa [Animal.holds, Animal.goto, hpc] using ha⟩
  | seen hpc =>
    refine .inr ⟨hset, fun ha => ?_⟩
    rcases hpc with hpc | hpc <;> simp [Animal.holds, hpc] at ha
  | _ hpc => exact .inr ⟨hset, fun ha => by simp [Animal.holds, hpc] at ha⟩

end Run

/-! ## `lock2->who` -/

/-- The animal that was the last one to leave bowl 2. -/
def lastAtTwo (tr : List (Event Say)) : Option Kind :=
  (tr.filterMap fun e => e.what.leavesTwo).getLast?

theorem lastAtTwo_quiet (tr : List (Event Say)) {w : Option ℕ} {es : List Say}
    (h : es.filterMap Say.leavesTwo = []) : lastAtTwo (tr ++ es.map (⟨w, ·⟩)) = lastAtTwo tr := by
  have hnone : (es.map (Event.mk w)).filterMap (fun e => e.what.leavesTwo) = [] := by
    rw [List.filterMap_map]
    exact h
  rw [lastAtTwo, List.filterMap_append, hnone, List.append_nil]
  rfl

/-- `lock2->who`: the kind of the animal at bowl 2; and while there is none, a mouse if a mouse was
the last one there. -/
structure Second (tr : List (Event Say)) (s : Shared) (ls : List Animal) : Prop where
  signed : ∀ (j : ℕ) a, ls[j]? = some a → a.signed = some .two → s.who .two = a.kind.who
  left : ∀ (j : ℕ) a, ls[j]? = some a → a.pc = .clearWho .two → lastAtTwo tr = some a.kind
  free : (∀ a ∈ ls, a.signed ≠ some .two) →
    s.who .two = if lastAtTwo tr = some .mouse then 2 else 0

namespace Second

variable {tr tr' : List (Event Say)} {i : ℕ} {s s' : Shared} {ls : List Animal} {a a' : Animal}

/-- A step that does not change anything about bowl 2. -/
theorem same (h : Second tr s ls) (ha : ls[i]? = some a) (hkind : a'.kind = a.kind)
    (hwho : s'.who .two = s.who .two) (hsigned : a'.signed = some .two ↔ a.signed = some .two)
    (hpc : a'.pc ≠ .clearWho .two) (hlast : lastAtTwo tr' = lastAtTwo tr) :
    Second tr' s' (ls.set i a') := by
  refine ⟨fun j c hc hb => ?_, fun j c hc hpc' => ?_, fun hnone => ?_⟩
  · rcases set_cases hc with ⟨rfl, rfl⟩ | ⟨-, hc⟩
    · rw [hwho, hkind]
      exact h.signed j a ha (hsigned.mp hb)
    · exact hwho.trans (h.signed j c hc hb)
  · rcases set_cases hc with ⟨rfl, rfl⟩ | ⟨-, hc⟩
    · exact absurd hpc' hpc
    · exact hlast.trans (h.left j c hc hpc')
  · rw [hwho, hlast]
    refine h.free fun c hc hb => ?_
    obtain ⟨j, hj⟩ := List.getElem?_of_mem hc
    by_cases hij : i = j
    · subst hij
      obtain rfl : a = c := Option.some.inj (ha.symm.trans hj)
      exact hnone a' (List.mem_of_getElem? (List.getElem?_set_self
        (List.getElem?_eq_some_iff.mp ha).1)) (hsigned.mpr hb)
    · exact hnone c (List.mem_of_getElem? ((List.getElem?_set_ne hij).trans hj)) hb

/-- A step of the animal that has the lock of bowl 2. -/
theorem alone (hlocked : Locked s ls) (ha : ls[i]? = some a) (hholds : a.holds = some .two)
    (hsigned : a'.signed = some .two → s'.who .two = a'.kind.who)
    (hleft : a'.pc = .clearWho .two → lastAtTwo tr' = some a'.kind)
    (hfree : a'.signed ≠ some .two → s'.who .two = if lastAtTwo tr' = some .mouse then 2 else 0) :
    Second tr' s' (ls.set i a') := by
  have honly : ∀ {j : ℕ} {c : Animal}, (ls.set i a')[j]? = some c → c.signed = some .two →
      c = a' := by
    intro j c hc hb
    rcases set_cases hc with ⟨-, rfl⟩ | ⟨hj, hc⟩
    · rfl
    · have hown := hlocked j c .two hc (Animal.holds_of_signed hb)
      exact absurd (Option.some.inj (hown.symm.trans (hlocked i a .two ha hholds))) hj
  refine ⟨fun j c hc hb => ?_, fun j c hc hpc => ?_, fun hnone => hfree (hnone a' ?_)⟩
  · obtain rfl := honly hc hb
    exact hsigned hb
  · obtain rfl := honly hc (by simp [Animal.signed, hpc])
    exact hleft hpc
  · exact List.mem_of_getElem? (List.getElem?_set_self (List.getElem?_eq_some_iff.mp ha).1)

theorem step {es : List Say} (h : Second tr s ls) (hlocked : Locked s ls) (ha : ls[i]? = some a)
    (hstep : Catlock.step i s a = some (es, s', a')) :
    Second (tr ++ es.map (⟨some i, ·⟩)) s' (ls.set i a') := by
  have hkind := (step_moves hstep).kind
  cases step_books hstep with
  | quiet _ hwho _ hsigned hleaves hpc =>
    exact h.same ha hkind (congrFun hwho _) (by rw [hsigned]) (hpc _) (lastAtTwo_quiet tr hleaves)
  | take hpc =>
    exact h.same ha hkind rfl (by simp [Animal.signed, Animal.goto, hpc]) (by simp [Animal.goto])
      (lastAtTwo_quiet tr rfl)
  | give hpc =>
    exact h.same ha hkind rfl (by simp [Animal.signed, Animal.goto, hpc]) (by simp [Animal.goto])
      (lastAtTwo_quiet tr rfl)
  | @sign b hpc =>
    cases b with
    | one =>
      exact h.same ha hkind rfl (by simp [Animal.signed, Animal.goto, hpc]) (by simp [Animal.goto])
        (lastAtTwo_quiet tr rfl)
    | two =>
      refine alone hlocked ha (by simp [Animal.holds, hpc]) (fun _ => rfl) (by simp [Animal.goto]) ?_
      exact fun hnot => absurd rfl hnot
  | @leave b hpc =>
    cases b with
    | one =>
      exact h.same ha hkind rfl (by simp [Animal.signed, Animal.goto, hpc])
        (by simp [Animal.goto]) (lastAtTwo_quiet tr rfl)
    | two =>
      refine alone hlocked ha (by simp [Animal.holds, hpc]) (fun _ => ?_) (fun _ => ?_) ?_
      · exact h.signed i a ha (by simp [Animal.signed, hpc])
      · simp [lastAtTwo, Say.leavesTwo, Animal.goto]
      · exact fun hnot => absurd rfl hnot
  | @erase b hpc =>
    cases b with
    | one =>
      have hone : a.kind.clearsWho .one = .one := by cases a.kind <;> rfl
      refine h.same ha hkind ?_ (by simp [Animal.signed, Animal.goto, hpc]) (by simp [Animal.goto])
        (lastAtTwo_quiet tr rfl)
      rw [hone]
      rfl
    | two =>
      have hsigned := h.signed i a ha (by simp [Animal.signed, hpc])
      have hleft := h.left i a ha hpc
      refine alone hlocked ha (by simp [Animal.holds, hpc])
        (by simp [Animal.signed, Animal.goto]) (by simp [Animal.goto]) fun _ => ?_
      rw [lastAtTwo_quiet tr rfl, hleft]
      cases hk : a.kind with
      | cat => rfl
      | mouse =>
        rw [hk] at hsigned
        exact hsigned

theorem of_run {t : State Shared Animal} (hrun : Run animals.Step init tr t) :
    Second tr t.shared t.threads := by
  refine hrun.invariant (I := fun tr t => Second tr t.shared t.threads) ?_ ?_
  · exact ⟨fun _ _ h => by simp [init] at h, fun _ _ h => by simp [init] at h, fun _ => rfl⟩
  intro tr t es u hbefore h hstep
  cases hstep with
  | thread ha hstep => exact h.step (locked_of_run hbefore) ha hstep
  | others hstep => cases hstep
  | @spawn s ls a hstart =>
    have hpc : a.pc = .loop := (of_decide_eq_true hstart).1
    rw [List.append_nil]
    refine ⟨fun j c hc hb => ?_, fun j c hc hpc' => ?_, fun hnone => ?_⟩
    · rcases append_cases hc with ⟨-, rfl⟩ | hc
      · simp [Animal.signed, hpc] at hb
      · exact h.signed j c hc hb
    · rcases append_cases hc with ⟨-, rfl⟩ | hc
      · simp [hpc] at hpc'
      · exact h.left j c hc hpc'
    · exact h.free fun c hc => hnone c (List.mem_append_left _ hc)

end Second

/-! ## An animal that goes on alone -/

section Alone

variable {i : ℕ} {s : Shared} {a : Animal}

theorem EatsAlone.ifTrue {c : Prop} [Decidable c] {pc pc' : Pc}
    (h : Catlock.step i s a = some ([], s, a.goto (if c then pc else pc'))) (hc : c)
    (hrest : EatsAlone i s (a.goto pc)) : EatsAlone i s a := by
  rw [if_pos hc] at h
  exact .step h hrest

theorem EatsAlone.ifFalse {c : Prop} [Decidable c] {pc pc' : Pc}
    (h : Catlock.step i s a = some ([], s, a.goto (if c then pc else pc'))) (hc : ¬ c)
    (hrest : EatsAlone i s (a.goto pc')) : EatsAlone i s a := by
  rw [if_neg hc] at h
  exact .step h hrest

/-- From the indicator on, while nothing of the other kind is there and the lock is free. -/
theorem EatsAlone.of_setFlag {b : Bowl} (hown : s.own b = none)
    (hindicate : ∀ k b, s.indicate k b = 0) (hpc : a.pc = .setFlag b) : EatsAlone i s a := by
  obtain ⟨kind, number, iteration, pc⟩ := a
  cases hpc
  have hclear : ∀ b', (s.setIndicate kind b 1).indicate kind.other b' ≠ 1 := by
    intro b'
    rw [Indicated.setIndicate_of_ne _ _ fun heq => Indicated.ne_other kind heq.1.symm, hindicate]
    exact zero_ne_one
  refine .step rfl (.ifFalse rfl (hclear _) (.ifFalse rfl (hclear _) ?_))
  -- the lock is free; then `who`, the bowl, the first message
  refine .step (if_pos hown) (.step rfl (.step rfl (.step rfl ?_)))
  exact .now rfl

/-- Where nothing is left behind every hungry animal finds a bowl. -/
theorem EatsAlone.of_restored (hown : ∀ b, s.own b = none) (hbowl : ∀ b, s.bowl b = 1)
    (hwho : ∀ b, s.who b = 0) (hindicate : ∀ k b, s.indicate k b = 0) (haway : a.away = true)
    (hhungry : a.hungry) : EatsAlone i s a := by
  have hother : ∀ b, s.who b ≠ a.kind.other.who := by
    intro b
    rw [hwho]
    cases a.kind <;> decide
  obtain ⟨kind, number, iteration, pc⟩ := a
  have hflag (b : Bowl) : EatsAlone i s ⟨kind, number, iteration, .setFlag b⟩ :=
    .of_setFlag (hown b) hindicate rfl
  have hne (b : Bowl) : s.bowl b ≠ 0 := by
    rw [hbowl]
    exact one_ne_zero
  -- the tests from the last one back to the first
  have hfirst5 : EatsAlone i s ⟨kind, number, iteration, .first5⟩ :=
    .ifTrue rfl (hother _) (hflag .one)
  have hfirst2 : EatsAlone i s ⟨kind, number, iteration, .first2⟩ := .ifTrue rfl (hbowl _) hfirst5
  have hfirst1 : EatsAlone i s ⟨kind, number, iteration, .first1⟩ := .ifTrue rfl (hbowl _) hfirst2
  have hsecond1 : EatsAlone i s ⟨kind, number, iteration, .second1⟩ := .ifFalse rfl (hne _) hfirst1
  have hsecond3 : EatsAlone i s ⟨kind, number, iteration, .second3⟩ :=
    .ifTrue rfl (hother _) (hflag .two)
  have hfirst4 : EatsAlone i s ⟨kind, number, iteration, .first4⟩ := .ifFalse rfl (hne _) hsecond1
  cases pc with
  | loop => exact .step (if_pos (hhungry.2 rfl)) hfirst1
  | first1 => exact hfirst1
  | first2 => exact hfirst2
  | first3 => exact .ifTrue rfl (hbowl _) hfirst4
  | first4 => exact hfirst4
  | first5 => exact hfirst5
  | second1 => exact hsecond1
  | second2 => exact .ifTrue rfl (hbowl _) hsecond3
  | second3 => exact hsecond3
  | setFlag b => exact hflag b
  | done => exact absurd rfl hhungry.1
  | _ => cases haway

/-- A cat that finds both bowls free and a mouse at bowl 2 looks for a bowl for ever. -/
theorem not_eatsAlone_of_who (hbowl : ∀ b, s.bowl b = 1) (hwho : s.who .two = 2)
    (hkind : a.kind = .cat) (hpc : a.pc ∈ [Pc.loop, .first1, .first2, .first5, .second1, .done]) :
    ¬ EatsAlone i s a := by
  intro h
  induction h with
  | @now s a b h =>
    obtain ⟨kind, number, iteration, pc⟩ := a
    simp only [List.mem_cons, List.not_mem_nil, or_false] at hpc
    rcases hpc with rfl | rfl | rfl | rfl | rfl | rfl <;> cases h
  | @step s s' a a' es h _ ih =>
    obtain ⟨kind, number, iteration, pc⟩ := a
    cases hkind
    simp only [List.mem_cons, List.not_mem_nil, or_false] at hpc
    rcases hpc with rfl | rfl | rfl | rfl | rfl | rfl <;>
      simp only [Catlock.step, hbowl, hwho, Kind.other, Kind.who] at h
    · split at h <;> cases h <;> exact ih hbowl hwho rfl (by simp [Animal.goto])
    · cases h; exact ih hbowl hwho rfl (by simp [Animal.goto])
    · cases h; exact ih hbowl hwho rfl (by simp [Animal.goto])
    · cases h; exact ih hbowl hwho rfl (by simp [Animal.goto])
    · cases h; exact ih hbowl hwho rfl (by simp [Animal.goto])
    · cases h

end Alone

/-! ## The bookkeeping -/

/-- **Whenever nobody is at a bowl nothing is left behind**, exactly if no mouse was the last one at
bowl 2. -/
theorem restored_iff {tr : List (Event Say)} {t : State Shared Animal}
    (hrun : Run animals.Step init tr t) (hidle : Idle t) :
    Restored t ↔ lastAtTwo tr ≠ some .mouse := by
  have htwo := (Second.of_run hrun).free fun a ha hsigned => by
    simp [(Animal.not_at_bowl (hidle a ha)).2] at hsigned
  constructor
  · intro h hlast
    rw [if_pos hlast, h.who] at htwo
    exact absurd htwo (by decide)
  · intro hlast
    rw [if_neg hlast] at htwo
    have hwho : ∀ b, t.shared.who b = 0 := by
      intro b
      cases b with
      | one => exact who_one_of_idle hrun hidle
      | two => exact htwo
    refine ⟨bowl_of_idle hrun hidle, hwho, indicate_of_idle hrun hidle, fun i a ha hhungry => ?_⟩
    exact .of_restored (own_of_idle hrun hidle) (bowl_of_idle hrun hidle) hwho
      (indicate_of_idle hrun hidle) (hidle a (List.mem_of_getElem? ha)) hhungry

/-- One mouse eats from bowl 1, another one meanwhile from bowl 2, and both leave. -/
def twoMice : List (Choice Animal Unit) :=
  [.spawn ⟨.mouse, 0, 0, .loop⟩, .spawn ⟨.mouse, 1, 0, .loop⟩, .spawn ⟨.cat, 0, 0, .loop⟩] ++
    (walk 0 11 ++ walk 1 18 ++ walk 0 5)

/-- After that the cat never eats. -/
theorem cat_shut_out :
    ∃ (tr : List (Event Say)) (t : State Shared Animal) (a : Animal),
      Run animals.Step init tr t ∧ Idle t ∧ t.shared.who .two = 2 ∧ t.threads[2]? = some a ∧
      a.hungry ∧ ¬ EatsAlone 2 t.shared a ∧ ¬ Restored t := by
  have hrun : Run animals.Step init (animals.after twoMice init).1 (animals.after twoMice init).2 :=
    run_after (by decide)
  have hthreads : (animals.after twoMice init).2.threads =
      [⟨.mouse, 0, 1, .loop⟩, ⟨.mouse, 1, 1, .loop⟩, ⟨.cat, 0, 0, .loop⟩] := by decide
  have hwho : (animals.after twoMice init).2.shared.who .two = 2 := by decide
  have hidle : Idle (animals.after twoMice init).2 := by
    unfold Idle
    rw [hthreads]
    simp [Animal.away]
  have hcat : ¬ EatsAlone 2 (animals.after twoMice init).2.shared ⟨.cat, 0, 0, .loop⟩ :=
    not_eatsAlone_of_who (bowl_of_idle hrun hidle) hwho rfl (by decide)
  have hhungry : Animal.hungry ⟨.cat, 0, 0, .loop⟩ := ⟨Pc.noConfusion, fun _ => by decide⟩
  refine ⟨_, _, _, hrun, hidle, hwho, by rw [hthreads]; rfl, hhungry, hcat, ?_⟩
  exact fun h => absurd ((h.who .two).symm.trans hwho) (by decide)

/-- A mouse eats from bowl 1, and leaves. -/
theorem restored_after_mouse :
    ∃ tr t, Run animals.Step init tr t ∧ Restored t := by
  have hrun : Run animals.Step init
      (animals.after (.spawn ⟨.mouse, 0, 0, .loop⟩ :: walk 0 16) init).1
      (animals.after (.spawn ⟨.mouse, 0, 0, .loop⟩ :: walk 0 16) init).2 := run_after (by decide)
  have hthreads : (animals.after (.spawn ⟨.mouse, 0, 0, .loop⟩ :: walk 0 16) init).2.threads =
      [⟨.mouse, 0, 1, .loop⟩] := by decide
  have hidle : Idle (animals.after (.spawn ⟨.mouse, 0, 0, .loop⟩ :: walk 0 16) init).2 := by
    unfold Idle
    rw [hthreads]
    simp [Animal.away]
  exact ⟨_, _, hrun, (restored_iff hrun hidle).mpr (by decide)⟩

end Os161.Catlock
