import Mathlib.Tactic
import Os161.Common.Bytes
import Os161.Lib.Copyinout

/-!
# Copies through user pointers and the bad-fault handler (`kern/lib/copyinout.c`, `trap.c`)

A fault that `vm_fault` cannot handle stops the machine, unless the thread has set
`pcb_badfaultfunc`: then execution resumes in that function, and `copyfail` jumps back to where the
copy was started. Here the four copy functions run on the state this is about: the bytes behind the
pointer of the program and in the buffer of the kernel, the handler, and the addresses that have
been reached through the pointer of the program.

The pages of the program are mapped or not as a parameter says. `copyin_spec` and so on say for each
function which of its results it returns, and that it leaves no handler behind.
-/

namespace Os161.UserCopy

open Prog

/-! ## The functions -/

/-- The functions `pcb_badfaultfunc` is set to. -/
inductive FaultFunc where
  | copyfail
deriving DecidableEq, Repr

/-- What a thread copies from and to, and the part of its `t_pcb` that matters. -/
structure State where
  /-- The byte at each address, as the pointer of the program reaches it. -/
  user : ℕ → Byte
  /-- The buffer in the kernel. -/
  kern : ℕ → Byte
  badfaultfunc : Option FaultFunc
  /-- The addresses that have been accessed through the pointer of the program. -/
  touched : List ℕ

/-- A thread that has just been given its `t_pcb` (`md_initpcb`). -/
def State.fresh (user kern : ℕ → Byte) : State := ⟨user, kern, none, []⟩

/-- Code that a fault can leave: it ends early where execution resumes in the handler. -/
abbrev FaultM := Prog FaultFunc State

/-- An access to the address `a` can be completed: the kernel's addresses are mapped directly, and a
page of the program is mapped or `vm_fault` maps it. -/
def Reachable (mapped : ℕ → Bool) (a : ℕ) : Prop := a < userTop → mapped (a / 4096) = true

instance (mapped : ℕ → Bool) (a : ℕ) : Decidable (Reachable mapped a) := by
  unfold Reachable; infer_instance

/-- `mips_trap` for a fault in the kernel that `vm_fault` could not handle. -/
def fatalFault : FaultM Unit := do
  match (← get).badfaultfunc with
  | some f => fail f
  | none => halt "I can't handle this... I think I'll just die now..."

/-- An access through the pointer of the program. -/
def access (mapped : ℕ → Bool) (a : ℕ) : FaultM Unit := do
  modify fun s => { s with touched := a :: s.touched }
  if Reachable mapped a then pure () else fatalFault

/-- `dest[i] = usersrc[i]`. -/
def loadUser (mapped : ℕ → Bool) (a i : ℕ) : FaultM Unit := do
  access mapped a
  modify fun s => { s with kern := Function.update s.kern i (s.user a) }

/-- `userdest[i] = src[i]`. -/
def storeUser (mapped : ℕ → Bool) (a i : ℕ) : FaultM Unit := do
  access mapped a
  modify fun s => { s with user := Function.update s.user a (s.kern i) }

/-- Run a copy under the handler: `setjmp` returns a second time when `copyfail` has jumped. -/
def withHandler {α : Type} (body : FaultM (Except Errno α)) : Prog Errno State α := do
  modify fun s => { s with badfaultfunc := some .copyfail }
  match ← catching id (fun _ s => s) body with
  | .error .copyfail => do
    modify fun s => { s with badfaultfunc := none }
    fail .EFAULT
  | .ok result => do
    modify fun s => { s with badfaultfunc := none }
    ofExcept result

/-- The two checks and the `memcpy` of `copyin` and `copyout`. -/
def copyBlock (step : ℕ → FaultM Unit) (userptr len : ℕ) : Prog Errno State Unit :=
  match copycheck userptr len with
  | .error e => fail e
  | .ok stoplen =>
    if stoplen ≠ len then fail .EFAULT
    else withHandler do
      forRange step len 0
      pure (.ok ())

/-- `copyin`. -/
def copyin (mapped : ℕ → Bool) (usersrc len : ℕ) : Prog Errno State Unit :=
  copyBlock (fun i => loadUser mapped (usersrc + i) i) usersrc len

/-- `copyout`. -/
def copyout (mapped : ℕ → Bool) (userdest len : ℕ) : Prog Errno State Unit :=
  copyBlock (fun i => storeUser mapped (userdest + i) i) userdest len

/-- The loop of `copystr`, with `n` passes left: `some gotlen` where a NUL was copied. -/
def copystrLoop (step : ℕ → FaultM Unit) (look : ℕ → FaultM Byte) : (n i : ℕ) → FaultM (Option ℕ)
  | 0, _ => pure none
  | n + 1, i => do
    step i
    let c ← look i
    if c = 0 then pure (some (i + 1)) else copystrLoop step look n (i + 1)

/-- `copystr`; `step i` is `dest[i] = src[i]` and `look i` reads `src[i]` again. -/
def copystr (step : ℕ → FaultM Unit) (look : ℕ → FaultM Byte) (maxlen stoplen : ℕ) :
    FaultM (Except Errno ℕ) := do
  match ← copystrLoop step look (min maxlen stoplen) 0 with
  | some gotlen => pure (.ok gotlen)
  | none => pure (.error (if stoplen < maxlen then .EFAULT else .ENAMETOOLONG))

/-- The check and the `copystr` of `copyinstr` and `copyoutstr`. -/
def copyString (step : ℕ → FaultM Unit) (look : ℕ → FaultM Byte) (userptr len : ℕ) :
    Prog Errno State ℕ :=
  match copycheck userptr len with
  | .error e => fail e
  | .ok stoplen => withHandler (copystr step look len stoplen)

/-- The second look at `usersrc[i]`, for the test of `copystr`. -/
def lookUser (mapped : ℕ → Bool) (a : ℕ) : FaultM Byte := do
  access mapped a
  gets fun s => s.user a

/-- `copyinstr`. -/
def copyinstr (mapped : ℕ → Bool) (usersrc len : ℕ) : Prog Errno State ℕ :=
  copyString (fun i => loadUser mapped (usersrc + i) i) (fun i => lookUser mapped (usersrc + i))
    usersrc len

/-- `copyoutstr`. -/
def copyoutstr (mapped : ℕ → Bool) (userdest len : ℕ) : Prog Errno State ℕ :=
  copyString (fun i => storeUser mapped (userdest + i) i) (fun i => gets fun s => s.kern i)
    userdest len

/-! ## What the check lets through -/

/-- The region of `len ≥ 1` bytes at `userptr` does not wrap around. -/
def NoWrap (userptr len : ℕ) : Prop := userptr + len ≤ 4294967296

theorem copycheck_eq {userptr len : ℕ} (hptr : userptr < 4294967296) (hlen : len < 4294967296)
    (hpos : 1 ≤ len) :
    copycheck userptr len =
      if userptr + len ≤ 4294967296 ∧ userptr < userTop then .ok (min len (userTop - userptr))
      else .error .EFAULT := by
  unfold copycheck userTop u32
  simp only
  split
  · rw [if_neg (by omega)]
  split
  · rw [if_neg (by omega)]
  split
  · rw [if_pos (by omega), min_eq_right (by omega)]
  · rw [if_pos (by omega), min_eq_left (by omega)]

/-! ## The state during a copy -/

/-- Nothing at or above `USERTOP` has been accessed on the way from `s` to `t`. -/
def Touches (s t : State) : Prop := ∀ a ∈ t.touched, a ∈ s.touched ∨ a < userTop

/-- The kernel's buffer after `i` bytes have been copied in. -/
def State.taken (s : State) (ptr i : ℕ) : ℕ → Byte := fun j =>
  if j < i then s.user (ptr + j) else s.kern j

/-- The memory of the program after `i` bytes have been copied out. -/
def State.given (s : State) (ptr i : ℕ) : ℕ → Byte := fun a =>
  if ptr ≤ a ∧ a < ptr + i then s.kern (a - ptr) else s.user a

/-- A copy that has moved `i` bytes, with the handler set: the bytes of the program are `user` and
those of the kernel `kern`. -/
structure During (s : State) (user kern : ℕ → Byte) (t : State) : Prop where
  user : t.user = user
  kern : t.kern = kern
  handler : t.badfaultfunc = some .copyfail
  touches : Touches s t

/-- A copy in that has moved `i` bytes. -/
def Inward (s : State) (ptr i : ℕ) (t : State) : Prop := During s s.user (s.taken ptr i) t

/-- A copy out that has moved `i` bytes. -/
def Outward (s : State) (ptr i : ℕ) (t : State) : Prop := During s (s.given ptr i) s.kern t

section Steps

variable {mapped : ℕ → Bool} {s t : State} {user kern : ℕ → Byte} {ptr i a : ℕ}

theorem Touches.cons (h : Touches s t) (ha : a < userTop) :
    Touches s { t with touched := a :: t.touched } := by
  intro b hb
  rcases List.mem_cons.mp hb with rfl | hb
  · exact .inr ha
  · exact h b hb

theorem State.taken_zero : s.taken ptr 0 = s.kern := rfl

theorem State.given_zero : s.given ptr 0 = s.user :=
  funext fun a => if_neg (by omega)

theorem State.taken_succ :
    Function.update (s.taken ptr i) i (s.user (ptr + i)) = s.taken ptr (i + 1) := by
  funext j
  rcases lt_trichotomy j i with hlt | rfl | hgt
  · rw [Function.update_of_ne hlt.ne, taken, taken, if_pos hlt, if_pos (by omega)]
  · rw [Function.update_self, taken, if_pos (Nat.lt_succ_self j)]
  · rw [Function.update_of_ne hgt.ne', taken, taken, if_neg (by omega), if_neg (by omega)]

theorem State.given_succ :
    Function.update (s.given ptr i) (ptr + i) (s.kern i) = s.given ptr (i + 1) := by
  funext b
  by_cases hb : b = ptr + i
  · subst hb
    rw [Function.update_self, given, if_pos (by omega), Nat.add_sub_cancel_left]
  · rw [Function.update_of_ne hb, given, given]
    by_cases hin : ptr ≤ b ∧ b < ptr + i
    · rw [if_pos hin, if_pos (by omega)]
    · rw [if_neg hin, if_neg (by omega)]

/-- An access under the handler is completed or ends the copy. -/
theorem access_spec (h : During s user kern t) (ha : a < userTop) :
    Meets (access mapped a) (fun _ t' => Reachable mapped a ∧ During s user kern t')
      (fun _ t' => ¬Reachable mapped a ∧ Touches s t') t := by
  have htouches := h.touches.cons ha
  simp only [access, meets_bind, meets_modify, meets_ite, meets_pure]
  refine ⟨fun hr => ⟨hr, h.user, h.kern, h.handler, htouches⟩, fun hr => ?_⟩
  simp only [fatalFault, meets_bind, meets_get]
  rw [h.handler]
  exact ⟨hr, htouches⟩

theorem loadUser_spec (h : Inward s ptr i t) (ha : ptr + i < userTop) :
    Meets (loadUser mapped (ptr + i) i)
      (fun _ t' => Reachable mapped (ptr + i) ∧ Inward s ptr (i + 1) t')
      (fun _ t' => ¬Reachable mapped (ptr + i) ∧ Touches s t') t := by
  simp only [loadUser, meets_bind, meets_modify]
  refine (access_spec h ha).imp ?_
  rintro _ t' ⟨hr, h'⟩
  refine ⟨hr, h'.user, ?_, h'.handler, h'.touches⟩
  show Function.update t'.kern i (t'.user (ptr + i)) = _
  rw [h'.kern, h'.user, State.taken_succ]

theorem storeUser_spec (h : Outward s ptr i t) (ha : ptr + i < userTop) :
    Meets (storeUser mapped (ptr + i) i)
      (fun _ t' => Reachable mapped (ptr + i) ∧ Outward s ptr (i + 1) t')
      (fun _ t' => ¬Reachable mapped (ptr + i) ∧ Touches s t') t := by
  simp only [storeUser, meets_bind, meets_modify]
  refine (access_spec h ha).imp ?_
  rintro _ t' ⟨hr, h'⟩
  refine ⟨hr, ?_, h'.kern, h'.handler, h'.touches⟩
  show Function.update t'.user (ptr + i) (t'.kern i) = _
  rw [h'.user, h'.kern, State.given_succ]

end Steps

/-! ## Blocks -/

section Blocks

variable {mapped : ℕ → Bool} {s : State} {ptr len : ℕ} {At : ℕ → State → Prop}
  {step : ℕ → FaultM Unit}

/-- Every access of the first `n` bytes of the region can be completed. -/
def AllReachable (mapped : ℕ → Bool) (ptr n : ℕ) : Prop := ∀ i < n, Reachable mapped (ptr + i)

/-- `step i` moves the byte at index `i`, and `At i` describes the state after `i` bytes. -/
def Moves (mapped : ℕ → Bool) (s : State) (ptr : ℕ) (At : ℕ → State → Prop)
    (step : ℕ → FaultM Unit) : Prop :=
  ∀ i t, ptr + i < userTop → At i t →
    Meets (step i) (fun _ t' => Reachable mapped (ptr + i) ∧ At (i + 1) t')
      (fun _ t' => ¬Reachable mapped (ptr + i) ∧ Touches s t') t

theorem moves_loadUser : Moves mapped s ptr (Inward s ptr) fun i => loadUser mapped (ptr + i) i :=
  fun _ _ ha h => loadUser_spec h ha

theorem moves_storeUser :
    Moves mapped s ptr (Outward s ptr) fun i => storeUser mapped (ptr + i) i :=
  fun _ _ ha h => storeUser_spec h ha

/-- The state of a caller: the handler has been taken away again. -/
def Done (At : State → Prop) (t : State) : Prop :=
  t.badfaultfunc = none ∧ ∃ t₀, At t₀ ∧ t = { t₀ with badfaultfunc := none }

/-- A call that fails: no handler is left behind, and only user space has been accessed. -/
def Failed (s t : State) : Prop := t.badfaultfunc = none ∧ Touches s t

theorem Touches.refl (s : State) : Touches s s := fun _ ha => .inl ha

theorem withHandler_spec {α : Type} {body : FaultM (Except Errno α)}
    {Q : Except Errno α → State → Prop} {E : State → Prop}
    (hbody : Meets body Q (fun _ t => E t) { s with badfaultfunc := some .copyfail }) :
    Meets (withHandler body) (fun a t => Done (Q (.ok a)) t)
      (fun e t => Done (Q (.error e)) t ∨ e = .EFAULT ∧ Done E t) s := by
  simp only [withHandler, meets_bind, meets_modify, meets_catching, id]
  refine hbody.mono ?_ ?_
  · intro r t hr
    cases r with
    | ok a => exact ⟨rfl, t, hr, rfl⟩
    | error e => exact .inl ⟨rfl, t, hr, rfl⟩
  · intro f t ht
    cases f
    exact .inr ⟨rfl, rfl, t, ht, rfl⟩

theorem memcpy_spec (hstep : Moves mapped s ptr At step) (htop : ptr + len ≤ userTop) {t : State}
    (h0 : At 0 t) :
    Meets (forRange step len 0) (fun _ t' => AllReachable mapped ptr len ∧ At len t')
      (fun _ t' => ¬AllReachable mapped ptr len ∧ Touches s t') t := by
  have hloop : Meets (forRange step len 0)
      (fun _ t' => AllReachable mapped ptr (0 + len) ∧ At (0 + len) t')
      (fun _ t' => ¬AllReachable mapped ptr len ∧ Touches s t') t :=
    Meets.forRange (fun i t' => AllReachable mapped ptr i ∧ At i t')
      ⟨fun i hi => absurd hi (Nat.not_lt_zero i), h0⟩ fun i t' _ hi hat => ?_
  · simpa only [Nat.zero_add] using hloop
  · refine (hstep i t' (by omega) hat.2).mono ?_ ?_
    · rintro _ t₁ ⟨hr, hnext⟩
      refine ⟨fun j hj => ?_, hnext⟩
      rcases Nat.lt_succ_iff_lt_or_eq.mp hj with hlt | rfl
      · exact hat.1 j hlt
      · exact hr
    · rintro _ t₁ ⟨hr, htouch⟩
      exact ⟨fun hall => hr (hall i (by omega)), htouch⟩

/-- `copyin` and `copyout`: the result and the state that they leave. -/
theorem copyBlock_spec (hstep : Moves mapped s ptr At step)
    (h0 : At 0 { s with badfaultfunc := some .copyfail }) (hnull : s.badfaultfunc = none)
    (hptr : ptr < 4294967296) (hlen : len < 4294967296) (hpos : 1 ≤ len) :
    Meets (copyBlock step ptr len)
      (fun _ t => (ptr + len ≤ userTop ∧ AllReachable mapped ptr len) ∧ Done (At len) t)
      (fun e t => e = .EFAULT ∧ ¬(ptr + len ≤ userTop ∧ AllReachable mapped ptr len) ∧ Failed s t)
      s := by
  have htop : userTop = 2147483648 := rfl
  rw [copyBlock, copycheck_eq hptr hlen hpos]
  by_cases hin : ptr + len ≤ 4294967296 ∧ ptr < userTop
  · rw [if_pos hin]
    simp only [meets_ite, meets_fail]
    refine ⟨fun hne => ⟨trivial, fun hall => hne (min_eq_left (by omega)), hnull, Touches.refl s⟩,
      fun heq => ?_⟩
    have hbody : Meets (do forRange step len 0; pure (Except.ok ()) : FaultM (Except Errno Unit))
        (fun r t => r = .ok () ∧ AllReachable mapped ptr len ∧ At len t)
        (fun _ t => ¬AllReachable mapped ptr len ∧ Touches s t)
        { s with badfaultfunc := some .copyfail } := by
      simp only [meets_bind, meets_pure]
      exact (memcpy_spec hstep (by omega) h0).imp fun _ t ht => ⟨trivial, ht⟩
    refine (withHandler_spec hbody).mono ?_ ?_
    · rintro _ t ⟨hnone, t₀, ⟨-, hall, hat⟩, rfl⟩
      exact ⟨⟨by omega, hall⟩, hnone, t₀, hat, rfl⟩
    · rintro e t (⟨-, t₀, ⟨hbad, -⟩, -⟩ | ⟨rfl, hnone, t₀, ⟨hall, htouch⟩, rfl⟩)
      · cases hbad
      · exact ⟨rfl, fun hboth => hall hboth.2, hnone, htouch⟩
  · rw [if_neg hin]
    exact ⟨rfl, fun hboth => hin ⟨by omega, by omega⟩, hnull, Touches.refl s⟩

end Blocks

/-! ## Strings -/

section Strings

variable {mapped : ℕ → Bool} {s : State} {src : ℕ → Byte} {ptr len n : ℕ} {At : ℕ → State → Prop}
  {step : ℕ → FaultM Unit} {look : ℕ → FaultM Byte}

/-- The string ends at index `k`, within `n` bytes, and every access up to there can be
completed. -/
structure EndsAt (mapped : ℕ → Bool) (src : ℕ → Byte) (ptr n k : ℕ) : Prop where
  lt : k < n
  nul : src k = 0
  first : ∀ j < k, src j ≠ 0
  reachable : AllReachable mapped ptr (k + 1)

/-- The string does not end within `n` bytes, all of which can be accessed. -/
structure Endless (mapped : ℕ → Bool) (src : ℕ → Byte) (ptr n : ℕ) : Prop where
  no_nul : ∀ j < n, src j ≠ 0
  reachable : AllReachable mapped ptr n

/-- An access faults before the string ends. -/
structure CutAt (mapped : ℕ → Bool) (src : ℕ → Byte) (ptr n k : ℕ) : Prop where
  lt : k < n
  no_nul : ∀ j < k, src j ≠ 0
  fault : ¬Reachable mapped (ptr + k)

theorem EndsAt.not_endless {k : ℕ} (h : EndsAt mapped src ptr n k) {m : ℕ} (hm : n ≤ m) :
    ¬Endless mapped src ptr m :=
  fun h' => h'.no_nul k (h.lt.trans_le hm) h.nul

theorem CutAt.not_endsAt {k j : ℕ} (h : CutAt mapped src ptr n k) :
    ¬EndsAt mapped src ptr n j := by
  intro h'
  rcases Nat.lt_or_ge j k with hlt | hge
  · exact h.no_nul j hlt h'.nul
  · exact h.fault (h'.reachable k (by omega))

theorem CutAt.not_endless {k : ℕ} (h : CutAt mapped src ptr n k) {m : ℕ} (hm : n ≤ m) :
    ¬Endless mapped src ptr m :=
  fun h' => h.fault (h'.reachable k (h.lt.trans_le hm))

/-- `look i` reads the byte at index `i` of the source, after it has been copied. -/
def Looks (mapped : ℕ → Bool) (src : ℕ → Byte) (ptr : ℕ) (At : ℕ → State → Prop)
    (look : ℕ → FaultM Byte) : Prop :=
  ∀ i t, ptr + i < userTop → Reachable mapped (ptr + i) → At (i + 1) t →
    Meets (look i) (fun c t' => c = src i ∧ At (i + 1) t') (fun _ _ => False) t

theorem looks_user : Looks mapped (fun i => s.user (ptr + i)) ptr (Inward s ptr)
    fun i => lookUser mapped (ptr + i) := by
  intro i t ha hr h
  simp only [lookUser, meets_bind, meets_gets]
  refine (access_spec h ha).mono ?_ fun _ _ hbad => hbad.1 hr
  intro _ t' ht'
  exact ⟨congrFun ht'.2.user _, ht'.2⟩

theorem looks_kern : Looks mapped s.kern ptr (Outward s ptr) fun i => gets fun t => t.kern i :=
  fun i _ _ _ h => ⟨congrFun h.kern i, h⟩

/-- The passes of `copystr` from index `i` on, where no NUL has been seen before. -/
theorem copystrLoop_spec (hstep : Moves mapped s ptr At step) (hlook : Looks mapped src ptr At look)
    {i : ℕ} {t : State} (htop : ptr + (i + n) ≤ userTop) (hat : At i t)
    (hbefore : Endless mapped src ptr i) :
    Meets (copystrLoop step look n i)
      (fun r t' => (∃ k, r = some (k + 1) ∧ EndsAt mapped src ptr (i + n) k ∧ At (k + 1) t') ∨
        r = none ∧ Endless mapped src ptr (i + n) ∧ At (i + n) t')
      (fun _ t' => Touches s t' ∧ ∃ k, CutAt mapped src ptr (i + n) k) t := by
  induction n generalizing i t with
  | zero => exact .inr ⟨rfl, hbefore, hat⟩
  | succ n ih =>
    have hall (hr : Reachable mapped (ptr + i)) : AllReachable mapped ptr (i + 1) := by
      intro j hj
      rcases Nat.lt_succ_iff_lt_or_eq.mp hj with hlt | rfl
      · exact hbefore.reachable j hlt
      · exact hr
    rw [copystrLoop, meets_bind]
    refine (hstep i t (by omega) hat).mono ?_ ?_
    · rintro _ t₁ ⟨hr, hat₁⟩
      rw [meets_bind]
      refine (hlook i t₁ (by omega) hr hat₁).mono ?_ fun _ _ hfalse => hfalse.elim
      rintro c t₂ ⟨rfl, hat₂⟩
      rw [meets_ite]
      refine ⟨fun hnul => .inl ⟨i, rfl, ⟨by omega, hnul, hbefore.no_nul, hall hr⟩, hat₂⟩,
        fun hmore => ?_⟩
      rw [show i + (n + 1) = i + 1 + n by omega]
      refine ih (by omega) hat₂ ⟨fun j hj => ?_, hall hr⟩
      rcases Nat.lt_succ_iff_lt_or_eq.mp hj with hlt | rfl
      · exact hbefore.no_nul j hlt
      · exact hmore
    · rintro _ t₁ ⟨hr, htouch⟩
      exact ⟨htouch, i, by omega, hbefore.no_nul, hr⟩

theorem copystr_spec (hstep : Moves mapped s ptr At step) (hlook : Looks mapped src ptr At look)
    {t : State} (hptr : ptr < userTop) (hat : At 0 t) :
    Meets (copystr step look len (min len (userTop - ptr)))
      (fun r t' => (∃ k, r = .ok (k + 1) ∧ EndsAt mapped src ptr (min len (userTop - ptr)) k ∧
          At (k + 1) t') ∨
        (∃ k, At k t') ∧ Endless mapped src ptr (min len (userTop - ptr)) ∧
          r = .error (if userTop < ptr + len then .EFAULT else .ENAMETOOLONG))
      (fun _ t' => Touches s t' ∧ ∃ k, CutAt mapped src ptr (min len (userTop - ptr)) k) t := by
  have hmin : min len (min len (userTop - ptr)) = min len (userTop - ptr) := by omega
  have hnone : Endless mapped src ptr 0 :=
    ⟨fun j hj => absurd hj (Nat.not_lt_zero j), fun j hj => absurd hj (Nat.not_lt_zero j)⟩
  rw [copystr, hmin, meets_bind]
  have hloop := copystrLoop_spec (n := min len (userTop - ptr)) hstep hlook (i := 0) (t := t)
    (by omega) hat hnone
  rw [Nat.zero_add] at hloop
  refine hloop.imp ?_
  rintro r t' (⟨k, rfl, hends, hat'⟩ | ⟨rfl, hless, hat'⟩)
  · exact .inl ⟨k, rfl, hends, hat'⟩
  · refine .inr ⟨⟨_, hat'⟩, hless, ?_⟩
    by_cases hover : userTop < ptr + len
    · rw [if_pos hover, if_pos (by omega)]
    · rw [if_neg hover, if_neg (by omega)]

/-- `copyinstr` and `copyoutstr` on a region that starts in user space: the result and the state
that they leave. -/
theorem copyString_spec (hstep : Moves mapped s ptr At step) (hlook : Looks mapped src ptr At look)
    (h0 : At 0 { s with badfaultfunc := some .copyfail }) (htouch : ∀ k t, At k t → Touches s t)
    (hlen : len < 4294967296) (hpos : 1 ≤ len) (hwrap : NoWrap ptr len) (hptr : ptr < userTop) :
    Meets (copyString step look ptr len)
      (fun got t => ∃ k, got = k + 1 ∧ EndsAt mapped src ptr (min len (userTop - ptr)) k ∧
        Done (At (k + 1)) t)
      (fun e t => Failed s t ∧
        (e = .ENAMETOOLONG ∧ ptr + len ≤ userTop ∧ Endless mapped src ptr len ∨
          e = .EFAULT ∧ (∀ k, ¬EndsAt mapped src ptr (min len (userTop - ptr)) k) ∧
            ¬(ptr + len ≤ userTop ∧ Endless mapped src ptr len))) s := by
  have htop : userTop = 2147483648 := rfl
  rw [copyString, copycheck_eq (by omega) hlen hpos, if_pos ⟨hwrap, hptr⟩]
  refine (withHandler_spec (copystr_spec hstep hlook hptr h0)).mono ?_ ?_
  · rintro got t ⟨hnone, t₀, ⟨k, hgot, hends, hat⟩ | ⟨-, -, hbad⟩, rfl⟩
    · rw [Except.ok.injEq] at hgot
      exact ⟨k, hgot, hends, hnone, t₀, hat, rfl⟩
    · cases hbad
  · rintro e t (⟨hnone, t₀, ⟨k, hbad, -⟩ | ⟨⟨k, hat⟩, hless, he⟩, rfl⟩ |
      ⟨rfl, hnone, t₀, ⟨htouch₀, k, hcut⟩, rfl⟩)
    · cases hbad
    · refine ⟨⟨hnone, htouch k t₀ hat⟩, ?_⟩
      rw [Except.error.injEq] at he
      by_cases hover : userTop < ptr + len
      · rw [if_pos hover] at he
        exact .inr ⟨he, fun j hj => hj.not_endless le_rfl hless, fun hboth => by omega⟩
      · rw [if_neg hover] at he
        rw [min_eq_left (by omega)] at hless
        exact .inl ⟨he, by omega, hless⟩
    · exact ⟨⟨hnone, htouch₀⟩, .inr ⟨rfl, fun j => hcut.not_endsAt,
        fun hboth => hcut.not_endless (min_le_left _ _) hboth.2⟩⟩

/-- A region that wraps around or starts in the kernel is refused. -/
theorem copyString_refused (hptr : ptr < 4294967296)
    (hlen : len < 4294967296) (hpos : 1 ≤ len) (hout : ¬(NoWrap ptr len ∧ ptr < userTop)) :
    copyString step look ptr len s = .err .EFAULT s := by
  have hcheck : copycheck ptr len = .error .EFAULT := by
    rw [copycheck_eq hptr hlen hpos]
    exact if_neg hout
  rw [copyString, hcheck]
  rfl

end Strings

/-! ## The copies of a process

The address space model reaches the memory of a process through a `UserMem`, whose accesses fail
where no page can be found, and leaves the handler out. -/

/-! ## The functions in a running kernel -/

/-- The copy functions. -/
inductive Call where
  | copyin
  | copyout
  | copyinstr
  | copyoutstr
deriving DecidableEq, Repr

/-- A call, with its result left out. -/
def Call.run (mapped : ℕ → Bool) (ptr len : ℕ) : Call → Prog Errno State Unit
  | .copyin => UserCopy.copyin mapped ptr len
  | .copyout => UserCopy.copyout mapped ptr len
  | .copyinstr => do let _ ← UserCopy.copyinstr mapped ptr len
  | .copyoutstr => do let _ ← UserCopy.copyoutstr mapped ptr len

/-- The states of a thread between its copies: it starts with a fresh `t_pcb`, makes any calls, and
what it does otherwise changes memory but not the handler. -/
inductive Reached : State → Prop where
  | fresh (user kern : ℕ → Byte) : Reached (State.fresh user kern)
  | call {s t : State} (mapped : ℕ → Bool) (ptr len : ℕ) (c : Call) :
      Reached s → Returns (c.run mapped ptr len) s t → Reached t
  | other {s : State} (user kern : ℕ → Byte) (touched : List ℕ) :
      Reached s → Reached ⟨user, kern, s.badfaultfunc, touched⟩

section Handler

variable {s : State}

/-- However a copy under the handler ends, the handler is gone. -/
theorem withHandler_keeps {α : Type} (body : FaultM (Except Errno α)) :
    Keeps (fun t => t.badfaultfunc = none) (withHandler body) := by
  intro s _
  simp only [withHandler, meets_bind, meets_modify, meets_catching, id]
  unfold Meets
  split
  case h_1 r t _ =>
    cases r with
    | ok a => rfl
    | error e => rfl
  case h_2 f t _ =>
    cases f
    rfl
  case h_3 msg _ => trivial

theorem copyBlock_keeps (step : ℕ → FaultM Unit) (ptr len : ℕ) :
    Keeps (fun t => t.badfaultfunc = none) (copyBlock step ptr len) := by
  unfold copyBlock
  cases copycheck ptr len with
  | error e => exact keeps_fail e
  | ok stoplen => exact .ite (keeps_fail _) (withHandler_keeps _)

theorem copyString_keeps (step : ℕ → FaultM Unit) (look : ℕ → FaultM Byte) (ptr len : ℕ) :
    Keeps (fun t => t.badfaultfunc = none) (copyString step look ptr len) := by
  unfold copyString
  cases copycheck ptr len with
  | error e => exact keeps_fail e
  | ok stoplen => exact withHandler_keeps _

theorem Call.run_keeps (mapped : ℕ → Bool) (ptr len : ℕ) (c : Call) :
    Keeps (fun t => t.badfaultfunc = none) (c.run mapped ptr len) := by
  cases c with
  | copyin => exact copyBlock_keeps _ ptr len
  | copyout => exact copyBlock_keeps _ ptr len
  | copyinstr => exact (copyString_keeps _ _ ptr len).bind fun _ => keeps_pure ()
  | copyoutstr => exact (copyString_keeps _ _ ptr len).bind fun _ => keeps_pure ()

/-- No handler is set outside of the copy functions. -/
theorem Reached.null (h : Reached s) : s.badfaultfunc = none := by
  induction h with
  | fresh user kern => rfl
  | call mapped ptr len c _ hret ih => exact (c.run_keeps mapped ptr len).returns ih hret
  | other user kern touched _ ih => exact ih

end Handler

/-! ## What the calls report -/

section Reports

variable {mapped : ℕ → Bool} {s : State} {ptr len : ℕ}

/-- A block copy returns 0 exactly for a region of user space that can be accessed throughout, and
`EFAULT` otherwise. -/
structure BlockReport (mapped : ℕ → Bool) (ptr len : ℕ) (o : Outcome Errno State Unit) : Prop where
  zero : (∃ t, o = .ok () t) ↔
    NoWrap ptr len ∧ ptr + len ≤ userTop ∧ AllReachable mapped ptr len
  fault : (∃ t, o = .err .EFAULT t) ↔
    ¬(NoWrap ptr len ∧ ptr + len ≤ userTop ∧ AllReachable mapped ptr len)

/-- A string copy returns 0 exactly when the string ends in user space before an access faults,
`ENAMETOOLONG` when it does not end in `len` bytes of user space that can all be accessed, and
`EFAULT` otherwise. -/
structure StringReport (mapped : ℕ → Bool) (src : ℕ → Byte) (ptr len : ℕ)
    (o : Outcome Errno State ℕ) : Prop where
  zero : (∃ got t, o = .ok got t) ↔
    ∃ k, EndsAt mapped src ptr (min len (userTop - ptr)) k
  too_long : (∃ t, o = .err .ENAMETOOLONG t) ↔
    ptr + len ≤ userTop ∧ Endless mapped src ptr len
  fault : (∃ t, o = .err .EFAULT t) ↔
    (¬∃ k, EndsAt mapped src ptr (min len (userTop - ptr)) k) ∧
      ¬(ptr + len ≤ userTop ∧ Endless mapped src ptr len)

/-- A call ends, leaves no handler behind and has accessed nothing but user space. -/
def Confined (s : State) {α : Type} (m : Prog Errno State α) : Prop :=
  Meets m (fun _ t => Failed s t) (fun _ t => Failed s t) s

theorem noWrap_of_le (h : ptr + len ≤ userTop) : NoWrap ptr len := by
  have htop : userTop = 2147483648 := rfl
  unfold NoWrap
  omega

section Block

variable {step : ℕ → FaultM Unit} {At : ℕ → State → Prop}

theorem copyBlock_report (hstep : Moves mapped s ptr At step)
    (h0 : At 0 { s with badfaultfunc := some .copyfail }) (hnull : s.badfaultfunc = none)
    (hptr : ptr < 4294967296) (hlen : len < 4294967296) (hpos : 1 ≤ len) :
    BlockReport mapped ptr len (copyBlock step ptr len s) := by
  have h := copyBlock_spec hstep h0 hnull hptr hlen hpos
  unfold Meets at h
  cases hrun : copyBlock step ptr len s with
  | ok a t =>
    rw [hrun] at h
    have hgood := h.1
    refine ⟨iff_of_true ⟨t, rfl⟩ ⟨noWrap_of_le hgood.1, hgood⟩, iff_of_false ?_ ?_⟩
    · rintro ⟨_, hbad⟩
      cases hbad
    · exact fun hnot => hnot ⟨noWrap_of_le hgood.1, hgood⟩
  | err e t =>
    rw [hrun] at h
    obtain ⟨rfl, hbad, -⟩ := h
    refine ⟨iff_of_false ?_ fun hgood => hbad hgood.2,
      iff_of_true ⟨t, rfl⟩ fun hgood => hbad hgood.2⟩
    rintro ⟨_, hok⟩
    cases hok
  | halted msg =>
    rw [hrun] at h
    exact h.elim

theorem copyBlock_confined (hstep : Moves mapped s ptr At step)
    (h0 : At 0 { s with badfaultfunc := some .copyfail }) (hnull : s.badfaultfunc = none)
    (htouch : ∀ k t, At k t → Touches s t)
    (hptr : ptr < 4294967296) (hlen : len < 4294967296) (hpos : 1 ≤ len) :
    Confined s (copyBlock step ptr len) := by
  refine (copyBlock_spec hstep h0 hnull hptr hlen hpos).mono ?_ fun _ t ht => ht.2.2
  rintro _ t ⟨-, hnone, t₀, hat, rfl⟩
  exact ⟨hnone, htouch len t₀ hat⟩

end Block

section Str

variable {src : ℕ → Byte} {step : ℕ → FaultM Unit} {look : ℕ → FaultM Byte}
  {At : ℕ → State → Prop}

theorem copyString_report (hstep : Moves mapped s ptr At step)
    (hlook : Looks mapped src ptr At look) (h0 : At 0 { s with badfaultfunc := some .copyfail })
    (htouch : ∀ k t, At k t → Touches s t) (hlen : len < 4294967296) (hpos : 1 ≤ len)
    (hwrap : NoWrap ptr len) (hptr : ptr < userTop) :
    StringReport mapped src ptr len (copyString step look ptr len s) := by
  have h := copyString_spec hstep hlook h0 htouch hlen hpos hwrap hptr
  unfold Meets at h
  cases hrun : copyString step look ptr len s with
  | ok got t =>
    rw [hrun] at h
    obtain ⟨k, -, hends, -⟩ := h
    have hless : ¬(ptr + len ≤ userTop ∧ Endless mapped src ptr len) :=
      fun hboth => hends.not_endless (min_le_left _ _) hboth.2
    refine ⟨iff_of_true ⟨got, t, rfl⟩ ⟨k, hends⟩, iff_of_false ?_ hless,
      iff_of_false ?_ fun hnone => hnone.1 ⟨k, hends⟩⟩
    · rintro ⟨_, hbad⟩
      cases hbad
    · rintro ⟨_, hbad⟩
      cases hbad
  | err e t =>
    rw [hrun] at h
    obtain ⟨-, ⟨rfl, htop, hless⟩ | ⟨rfl, hends, hless⟩⟩ := h
    · have hends : ¬∃ k, EndsAt mapped src ptr (min len (userTop - ptr)) k := by
        rintro ⟨k, hk⟩
        exact hk.not_endless (min_le_left _ _) hless
      refine ⟨iff_of_false ?_ hends, iff_of_true ⟨t, rfl⟩ ⟨htop, hless⟩,
        iff_of_false ?_ fun hnone => hnone.2 ⟨htop, hless⟩⟩
      · rintro ⟨_, _, hbad⟩
        cases hbad
      · rintro ⟨_, hbad⟩
        cases hbad
    · have hnone : ¬∃ k, EndsAt mapped src ptr (min len (userTop - ptr)) k := by
        rintro ⟨k, hk⟩
        exact hends k hk
      refine ⟨iff_of_false ?_ hnone, iff_of_false ?_ hless, iff_of_true ⟨t, rfl⟩ ⟨hnone, hless⟩⟩
      · rintro ⟨_, _, hbad⟩
        cases hbad
      · rintro ⟨_, hbad⟩
        cases hbad
  | halted msg =>
    rw [hrun] at h
    exact h.elim

theorem copyString_confined (hstep : Moves mapped s ptr At step)
    (hlook : Looks mapped src ptr At look) (h0 : At 0 { s with badfaultfunc := some .copyfail })
    (hnull : s.badfaultfunc = none) (htouch : ∀ k t, At k t → Touches s t)
    (hptr : ptr < 4294967296) (hlen : len < 4294967296) (hpos : 1 ≤ len) :
    Confined s (copyString step look ptr len) := by
  by_cases hin : NoWrap ptr len ∧ ptr < userTop
  · refine (copyString_spec hstep hlook h0 htouch hlen hpos hin.1 hin.2).mono ?_ fun _ t ht => ht.1
    rintro _ t ⟨k, -, -, hnone, t₀, hat, rfl⟩
    exact ⟨hnone, htouch (k + 1) t₀ hat⟩
  · unfold Confined Meets
    rw [copyString_refused hptr hlen hpos hin]
    exact ⟨hnull, Touches.refl s⟩

end Str

theorem inward_start (s : State) (ptr : ℕ) :
    Inward s ptr 0 { s with badfaultfunc := some .copyfail } :=
  ⟨rfl, State.taken_zero.symm, rfl, Touches.refl s⟩

theorem outward_start (s : State) (ptr : ℕ) :
    Outward s ptr 0 { s with badfaultfunc := some .copyfail } :=
  ⟨State.given_zero.symm, rfl, rfl, Touches.refl s⟩

theorem call_confined (hnull : s.badfaultfunc = none) (hptr : ptr < 4294967296)
    (hlen : len < 4294967296) (hpos : 1 ≤ len) (c : Call) : Confined s (c.run mapped ptr len) := by
  have hin : ∀ k t, Inward s ptr k t → Touches s t := fun _ _ h => h.touches
  have hout : ∀ k t, Outward s ptr k t → Touches s t := fun _ _ h => h.touches
  cases c with
  | copyin =>
    exact copyBlock_confined moves_loadUser (inward_start s ptr) hnull hin hptr hlen hpos
  | copyout =>
    exact copyBlock_confined moves_storeUser (outward_start s ptr) hnull hout hptr hlen hpos
  | copyinstr =>
    simp only [Confined, Call.run, meets_bind, meets_pure]
    exact copyString_confined moves_loadUser looks_user (inward_start s ptr) hnull hin hptr hlen hpos
  | copyoutstr =>
    simp only [Confined, Call.run, meets_bind, meets_pure]
    exact copyString_confined moves_storeUser looks_kern (outward_start s ptr) hnull hout hptr hlen
      hpos

/-- **Copies through user pointers report the right result and stay in user space**, from every
state in which a thread can call them. -/
theorem user_copies_report (hs : Reached s) (mapped : ℕ → Bool) (hptr : ptr < 4294967296)
    (hlen : len < 4294967296) (hpos : 1 ≤ len) :
    BlockReport mapped ptr len (copyin mapped ptr len s) ∧
      BlockReport mapped ptr len (copyout mapped ptr len s) ∧
      (NoWrap ptr len → ptr < userTop →
        StringReport mapped (fun i => s.user (ptr + i)) ptr len (copyinstr mapped ptr len s) ∧
        StringReport mapped s.kern ptr len (copyoutstr mapped ptr len s)) ∧
      ∀ c : Call, Confined s (c.run mapped ptr len) := by
  have hnull := hs.null
  refine ⟨?_, ?_, fun hwrap htop => ⟨?_, ?_⟩, call_confined hnull hptr hlen hpos⟩
  · exact copyBlock_report moves_loadUser (inward_start s ptr) hnull hptr hlen hpos
  · exact copyBlock_report moves_storeUser (outward_start s ptr) hnull hptr hlen hpos
  · exact copyString_report moves_loadUser looks_user (inward_start s ptr)
      (fun _ _ h => h.touches) hlen hpos hwrap htop
  · exact copyString_report moves_storeUser looks_kern (outward_start s ptr)
      (fun _ _ h => h.touches) hlen hpos hwrap htop

/-- A thread that has made no call yet, with a page mapped at `0x1000`: the last byte of the
page. -/
theorem user_copies_report_page :
    Reached (State.fresh (fun _ => 0) fun _ => 1) ∧
      BlockReport (fun page => page == 1) 8191 1
        (copyin (fun page => page == 1) 8191 1 (State.fresh (fun _ => 0) fun _ => 1)) :=
  ⟨.fresh _ _, (user_copies_report (.fresh _ _) _ (by norm_num) (by norm_num) le_rfl).1⟩

/-- A string of two bytes without a NUL, copied to a page that is not mapped: `EFAULT`, although
there is no NUL in `len` bytes of user space. -/
theorem copyoutstr_unmapped :
    (copyoutstr (fun _ => false) 4096 2 (State.fresh (fun _ => 0) fun _ => 1)).error? =
        some .EFAULT ∧
      (∀ i < 2, (State.fresh (fun _ => 0) fun _ => 1).kern i ≠ 0) ∧ 4096 + 2 ≤ userTop := by
  refine ⟨by decide +kernel, fun i _ => ?_, by decide⟩
  show (1 : Byte) ≠ 0
  decide

end Reports

end Os161.UserCopy
