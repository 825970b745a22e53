import Mathlib.Tactic
import Os161.Dev.Console

/-!
# Console input

`con_input` has one place for a character (`cs_gotchar`) and a semaphore that counts (`cs_rsem`).
Two characters typed before a `getch` are one character that can be taken twice (`typed_twice`).
Where a character comes only after the one before has been taken, `getch` returns what has been
typed (`console_input`): the place, the semaphore and the threads that are about to read hold at
most one character between them (`Mailbox`).
-/

namespace Os161.Console

open Interleaving

variable {act : Act} {s s' : Shared} {pc pc' : Pc} {es : List Say} {c c' : Softc} {code : Code}
  {cpu : Cpu}

/-- The characters given to `con_input`. -/
def typed (es : List Say) : List ℕ :=
  es.filterMap fun
    | .input ch => some ch
    | _ => none

/-- The characters that `getch` has returned. -/
def returned (es : List Say) : List ℕ :=
  es.filterMap fun
    | .got ch => some ch
    | _ => none

/-- A character arrives, and a handler calls `lser_irq`. -/
def handles (ch : ℕ) : List Act :=
  [.type ch, .interrupt, .irq, .go, .go, .go, .go, .go, .go, .go, .splx]

/-- `a` and `b` are typed, and then a thread calls `getch` twice. -/
def typesTwo : List (Choice Pc Act) :=
  .spawn .run :: byOthers (handles 97) ++ byOthers (handles 98) ++
    byThread [.getch, .go, .go, .getch, .go, .go]

theorem typed_twice :
    ∃ (tr : List (Event Say)) (t : State Shared Pc), Run console.Step init tr t ∧
      typed (tr.map Event.what) = [97, 98] ∧ returned (tr.map Event.what) = [98, 98] ∧
      ¬ (returned (tr.map Event.what)).Sublist (typed (tr.map Event.what)) := by
  have hrun : Run console.Step init (console.after typesTwo init).1
      (console.after typesTwo init).2 := run_after (by decide)
  exact ⟨_, _, hrun, by decide, by decide +kernel, by decide +kernel⟩

/-- Between the `P` of `getch_intr` and the read. -/
def Pc.reads : Pc → Bool
  | .read => true
  | _ => false

/-- `con_input` is about to store a character. -/
def Cpu.stores : Cpu → Bool
  | .off _ (.irq (.input _)) => true
  | _ => false

/-- The code of a thread or a handler goes on. -/
def goesOn : Choice Pc Act → Bool
  | .thread _ .go | .others .go => true
  | _ => false

/-- A character comes only after the one before has been taken: when `con_input` stores it, the
count of `cs_rsem` is zero and no `getch` is between its `P` and its read. -/
def Paced (t : State Shared Pc) (next : Choice Pc Act) : Prop :=
  goesOn next = true → t.shared.cpu.stores = true →
    t.shared.softc.rsem = 0 ∧ t.threads.countP Pc.reads = 0

instance (t : State Shared Pc) (next : Choice Pc Act) : Decidable (Paced t next) :=
  inferInstanceAs (Decidable (_ → _ → _ ∧ _))

/-- `con_input` has stored the character and not called `V`. -/
def Cpu.stored : Cpu → ℕ
  | .off _ (.irq .inputV) => 1
  | _ => 0

theorem Cpu.stored_of_stores {cpu : Cpu} (h : cpu.stores = true) : cpu.stored = 0 := by
  unfold stores at h
  split at h
  · rfl
  · cases h

/-- How often the stored character can be taken, apart from threads that are about to read it. -/
def Shared.mail (s : Shared) : ℕ := s.softc.rsem + s.cpu.stored

/-- What a step does to the stored character, where `n` and `n'` count the threads that are about to
read it. -/
inductive Mail (act : Act) (s : Shared) (n : ℕ) (s' : Shared) (n' : ℕ) : List Say → Prop where
  | quiet {es : List Say} (htyped : typed es = []) (hreturned : returned es = [])
      (hchar : s'.softc.gotchar = s.softc.gotchar) (hmail : s'.mail + n' = s.mail + n) :
      Mail act s n s' n' es
  | stored (hstores : s.cpu.stores = true) (hact : act = .go)
      (hmail : s'.mail + n' = s.mail + n + 1) : Mail act s n s' n' [.input s'.softc.gotchar]
  | taken (hchar : s'.softc.gotchar = s.softc.gotchar) (hmail : s'.mail + n' + 1 = s.mail + n) :
      Mail act s n s' n' [.got s.softc.gotchar]

theorem Masked.mail {who : Option ℕ} (h : Masked who c act code es c' cpu) (n : ℕ) :
    Mail act ⟨c, .off who code⟩ n ⟨c', cpu⟩ n es := by
  cases h with
  | putch ch => exact .quiet rfl rfl rfl rfl
  | splx => exact .quiet rfl rfl rfl rfl
  | irq => exact .quiet rfl rfl rfl rfl
  | written ch => exact .quiet rfl rfl rfl rfl
  | driver hstep =>
    unfold Code.step at hstep
    split at hstep
    case h_2 => cases hstep; split <;> exact .quiet rfl rfl rfl rfl
    case h_3 => cases hstep; split <;> exact .quiet rfl rfl rfl rfl
    case h_6 => cases hstep; split <;> exact .quiet rfl rfl rfl rfl
    case h_7 => cases hstep; split <;> exact .quiet rfl rfl rfl rfl
    case h_8 => split at hstep <;> cases hstep <;> exact .quiet rfl rfl rfl rfl
    case h_12 => cases hstep; split <;> exact .quiet rfl rfl rfl rfl
    case h_15 => cases hstep; split <;> exact .quiet rfl rfl rfl rfl
    case h_18 clear read =>
      cases hstep
      cases clear <;> cases read <;> exact .quiet rfl rfl rfl rfl
    case h_19 ch =>
      cases hstep
      refine .stored rfl rfl ?_
      simp only [Shared.mail, Cpu.stored]
      omega
    all_goals
      cases hstep <;> exact .quiet rfl rfl rfl rfl

theorem Moves.mail {i : ℕ} (h : Moves i act s pc es s' pc') :
    Mail act s pc.reads.toNat s' pc'.reads.toNat es := by
  cases h with
  | putch ch => exact .quiet rfl rfl rfl rfl
  | getch => exact .quiet rfl rfl rfl rfl
  | splhigh => exact .quiet rfl rfl rfl rfl
  | waitWrite hpos => exact .quiet rfl rfl rfl rfl
  | send => exact .quiet rfl rfl rfl rfl
  | waitRead hpos =>
    refine .quiet rfl rfl rfl ?_
    simp only [Shared.mail, Cpu.stored, Pc.reads, Bool.toNat_true, Bool.toNat_false]
    omega
  | read => exact .taken rfl rfl
  | @masked act c c' code cpu es hstep =>
    have hafter : (if cpu = .on then Pc.run else .masked).reads = false := by split <;> rfl
    rw [hafter]
    exact hstep.mail 0

theorem OtherMoves.mail (h : OtherMoves act s es s') (n : ℕ) : Mail act s n s' n es := by
  cases h with
  | ready hpos => exact .quiet rfl rfl rfl rfl
  | type ch => exact .quiet rfl rfl rfl rfl
  | interrupt => exact .quiet rfl rfl rfl rfl
  | masked hstep => exact hstep.mail n

/-- The stored character has been returned already and cannot be taken, or it is the one typed last
and can be taken once. -/
def Mailbox (es : List Say) (s : Shared) (n : ℤ) : Prop :=
  s.mail + n = 0 ∧ typed es = returned es ∨
    s.mail + n = 1 ∧ typed es = returned es ++ [s.softc.gotchar]

@[simp]
theorem typed_append (es es' : List Say) : typed (es ++ es') = typed es ++ typed es' :=
  List.filterMap_append

@[simp]
theorem returned_append (es es' : List Say) : returned (es ++ es') = returned es ++ returned es' :=
  List.filterMap_append

theorem Mailbox.step {n n' : ℕ} {m : ℤ} {tr : List Say} (hmail : Mail act s n s' n' es)
    (hm : 0 ≤ m) (hpaced : act = .go → s.cpu.stores = true → s.softc.rsem = 0 ∧ m + n = 0)
    (h : Mailbox tr s (m + n)) : Mailbox (tr ++ es) s' (m + n') := by
  cases hmail with
  | quiet htyped hreturned hchar hmail =>
    have heq : (s'.mail : ℤ) + (m + n') = s.mail + (m + n) := by omega
    simpa only [Mailbox, typed_append, returned_append, htyped, hreturned, List.append_nil, hchar,
      heq] using h
  | stored hstores hact hmail =>
    obtain ⟨hrsem, hn⟩ := hpaced hact hstores
    have hzero : s.mail = 0 := by
      rw [Shared.mail, hrsem, Nat.zero_add]
      exact Cpu.stored_of_stores hstores
    rcases h with ⟨-, heq⟩ | ⟨hone, -⟩
    · refine .inr ⟨by omega, ?_⟩
      rw [typed_append, returned_append, heq, show returned [Say.input _] = [] from rfl,
        List.append_nil]
      rfl
    · omega
  | taken hchar hmail =>
    rcases h with ⟨hnone, -⟩ | ⟨hone, heq⟩
    · omega
    · refine .inl ⟨by omega, ?_⟩
      rw [typed_append, returned_append, heq, show typed [Say.got _] = [] from rfl, List.append_nil]
      rfl

theorem mailbox_of_run {tr : List (Event Say)} {t : State Shared Pc}
    (hrun : Run (console.StepWhere Paced) init tr t) :
    Mailbox (tr.map Event.what) t.shared (total (share Pc.reads) t.threads) := by
  refine hrun.invariant (I := fun tr t =>
    Mailbox (tr.map Event.what) t.shared (total (share Pc.reads) t.threads)) (.inl ⟨rfl, rfl⟩) ?_
  intro tr t es u _ ih hs
  have hwhat : ∀ (w : Option ℕ) (es' : List Say),
      (tr ++ es'.map (Event.mk w)).map Event.what = tr.map Event.what ++ es' := by
    intro w es'
    simp [Function.comp_def]
  cases hs with
  | @thread m m' ls i l l' act es hl hok hstep =>
    have hle := le_total (fun l _ => share_nonneg Pc.reads l) hl
    have hbefore : total (share Pc.reads) ls =
        total (share Pc.reads) ls - share Pc.reads l + l.reads.toNat := by
      rw [← share_eq_toNat]
      ring
    rw [hwhat, total_set _ hl, share_eq_toNat _ l']
    refine Mailbox.step (threadStep_moves hstep).mail (by omega) ?_ (hbefore ▸ ih)
    rintro rfl hstores
    obtain ⟨hrsem, hnone⟩ := hok rfl hstores
    rw [← hbefore, total_share]
    exact ⟨hrsem, by simpa using hnone⟩
  | @others m m' ls act es hok hstep =>
    have hnonneg : 0 ≤ total (share Pc.reads) ls := by
      rw [total_share]
      omega
    rw [hwhat]
    have hnext := Mailbox.step (m := total (share Pc.reads) ls) ((otherStep_moves hstep).mail 0)
      hnonneg ?_ (by simpa using ih)
    · simpa using hnext
    · rintro rfl hstores
      obtain ⟨hrsem, hnone⟩ := hok rfl hstores
      rw [total_share]
      exact ⟨hrsem, by simpa using hnone⟩
  | @spawn m ls l _ hl =>
    obtain rfl : l = .run := of_decide_eq_true hl
    rw [List.append_nil, total_append]
    exact (add_zero (total (share Pc.reads) ls)).symm ▸ ih

/-- **Input.** Where a character comes only after the one before has been taken, what `getch`
returns is a subsequence of what has been typed. -/
theorem console_input {tr : List (Event Say)} {t : State Shared Pc}
    (hrun : Run (console.StepWhere Paced) init tr t) :
    (returned (tr.map Event.what)).Sublist (typed (tr.map Event.what)) := by
  rcases mailbox_of_run hrun with ⟨-, heq⟩ | ⟨-, heq⟩
  · rw [heq]
  · rw [heq]
    exact List.sublist_append_left _ _

/-- `a` is typed and taken, and then `b`. -/
def typesSlowly : List (Choice Pc Act) :=
  .spawn .run :: byOthers (handles 97) ++ byThread [.getch, .go, .go] ++ byOthers (handles 98) ++
    byThread [.getch, .go, .go]

theorem console_input_typesSlowly :
    ∃ (tr : List (Event Say)) (t : State Shared Pc), Run (console.StepWhere Paced) init tr t ∧
      returned (tr.map Event.what) = [97, 98] ∧
      (returned (tr.map Event.what)).Sublist (typed (tr.map Event.what)) := by
  have hrun : Run (console.StepWhere Paced) init (console.afterWhere Paced typesSlowly init).1
      (console.afterWhere Paced typesSlowly init).2 := run_afterWhere (by decide)
  exact ⟨_, _, hrun, by decide, console_input hrun⟩

end Os161.Console
