import Os161.Common.Simulation
import Os161.Machine.Basic

/-!
# Copies between kernel and user memory (`kern/lib/copyinout.c`)

`copyin` and `copyout` check that the whole region lies in user space and then copy it byte by byte
through the addresses the program gave them. How the memory of the current process is reached is a
parameter (`UserMem`): an access may fail, and a failed one is what `copyfail` turns into `EFAULT`.

`Memory` is a way to reach memory that keeps what is stored; `copyout_spec` says which bytes a copy
leaves changed, whether it succeeds or not.
-/

namespace Os161

open Prog

/-- `USERTOP`: user space ends where the kernel segment starts. -/
def userTop : ℕ := 0x80000000

/-- Access to the memory of the current process. -/
structure UserMem (σ β : Type) where
  load : ℕ → Prog Errno σ β
  store : ℕ → β → Prog Errno σ Unit

variable {σ τ β : Type}

/-- `copycheck`: how much of the region of `len` bytes at `userptr` may be copied. -/
def copycheck (userptr len : ℕ) : Except Errno ℕ :=
  let bot := userptr
  let top := u32 ((bot : ℤ) + len - 1)
  if top < bot then
    .error .EFAULT
  else if bot ≥ userTop then
    .error .EFAULT
  else if top ≥ userTop then
    .ok (userTop - bot)
  else
    .ok len

/-- The `memcpy` of `copyout`. -/
def storeBytes (um : UserMem σ β) : List β → (userdest : ℕ) → Prog Errno σ Unit
  | [], _ => pure ()
  | b :: bs, a => do
    um.store a b
    storeBytes um bs (a + 1)

/-- Run a copy with `pcb_badfaultfunc` set: an access that fails makes it return `EFAULT`. -/
def guarded {α : Type} (m : Prog Errno σ α) : Prog Errno σ α := do
  match ← attempt m with
  | .ok a => pure a
  | .error _ => fail .EFAULT

/-- `copyout`. -/
def copyout (um : UserMem σ β) (src : List β) (userdest : ℕ) : Prog Errno σ Unit :=
  match copycheck userdest src.length with
  | .error e => fail e
  | .ok stoplen => if stoplen ≠ src.length then fail .EFAULT else guarded (storeBytes um src userdest)

/-! ## What a copy changes -/

/-- Memory that holds bytes: a load returns the byte, a store changes the byte, and an access that
fails changes nothing. `Inv` is what has to hold for this. -/
structure Memory (σ : Type) where
  mem : UserMem σ ℕ
  bytes : σ → ℕ → ℕ
  Inv : σ → Prop
  load_spec : ∀ {u : σ} (a : ℕ), Inv u →
    Meets (mem.load a) (fun b u' => b = bytes u a ∧ Inv u' ∧ bytes u' = bytes u)
      (fun _ u' => Inv u' ∧ bytes u' = bytes u) u (fun _ => True)
  store_spec : ∀ {u : σ} (a b : ℕ), Inv u →
    Meets (mem.store a b) (fun _ u' => Inv u' ∧ bytes u' = Function.update (bytes u) a b)
      (fun _ u' => Inv u' ∧ bytes u' = bytes u) u (fun _ => True)

/-- Memory with the bytes `bs` put at `a`. -/
def overwrite (v : ℕ → ℕ) : ℕ → List ℕ → ℕ → ℕ
  | _, [] => v
  | a, b :: bs => overwrite (Function.update v a b) (a + 1) bs

theorem overwrite_of_notMem {v : ℕ → ℕ} {a x : ℕ} {bs : List ℕ}
    (h : x < a ∨ a + bs.length ≤ x) : overwrite v a bs x = v x := by
  induction bs generalizing v a with
  | nil => rfl
  | cons b bs ih =>
    rw [List.length_cons] at h
    rw [overwrite, ih (by omega), Function.update_of_ne (by omega)]

theorem overwrite_of_mem {v : ℕ → ℕ} {a i : ℕ} {bs : List ℕ} (h : i < bs.length) :
    overwrite v a bs (a + i) = bs[i] := by
  induction bs generalizing v a i with
  | nil => exact absurd h (Nat.not_lt_zero i)
  | cons b bs ih =>
    rw [overwrite]
    cases i with
    | zero => rw [overwrite_of_notMem (by omega), Nat.add_zero, Function.update_self]; rfl
    | succ i =>
      rw [show a + (i + 1) = a + 1 + i by omega, ih (Nat.lt_of_succ_lt_succ h)]
      rfl

/-- How many bytes `storeBytes` stores before an access fails. -/
def stored (um : UserMem σ β) : List β → ℕ → σ → ℕ
  | [], _, _ => 0
  | b :: bs, a, u =>
    match um.store a b u with
    | .ok _ u' => stored um bs (a + 1) u' + 1
    | _ => 0

/-- How many bytes `copyout` stores. -/
def copied (um : UserMem σ β) (src : List β) (userdest : ℕ) (u : σ) : ℕ :=
  if copycheck userdest src.length = .ok src.length then stored um src userdest u else 0

variable (M : Memory σ) {u : σ}

theorem storeBytes_spec (hinv : M.Inv u) (bs : List ℕ) (a : ℕ) :
    Meets (storeBytes M.mem bs a)
      (fun _ u' => M.Inv u' ∧
        M.bytes u' = overwrite (M.bytes u) a (bs.take (stored M.mem bs a u)))
      (fun _ u' => M.Inv u' ∧
        M.bytes u' = overwrite (M.bytes u) a (bs.take (stored M.mem bs a u))) u
      (fun _ => True) := by
  induction bs generalizing a u with
  | nil => exact ⟨hinv, rfl⟩
  | cons b bs ih =>
    have hspec := M.store_spec a b hinv
    rw [storeBytes, meets_bind, Meets, stored]
    cases hstore : M.mem.store a b u with
    | ok _ u₁ =>
      obtain ⟨hinv₁, hbytes⟩ := hspec.of_ok hstore
      simp only [List.take_succ_cons, overwrite, ← hbytes]
      exact ih hinv₁ (a + 1)
    | err e u₁ => exact hspec.of_err hstore
    | halted msg => trivial

/-- A copy changes the bytes that it has stored, and no others. -/
theorem copyout_spec (hinv : M.Inv u) (src : List ℕ) (a : ℕ) :
    Meets (copyout M.mem src a)
      (fun _ u' => M.Inv u' ∧
        M.bytes u' = overwrite (M.bytes u) a (src.take (copied M.mem src a u)))
      (fun _ u' => M.Inv u' ∧
        M.bytes u' = overwrite (M.bytes u) a (src.take (copied M.mem src a u))) u
      (fun _ => True) := by
  rw [copyout, copied]
  cases hcheck : copycheck a src.length with
  | error e =>
    rw [if_neg (by simp)]
    exact ⟨hinv, rfl⟩
  | ok stoplen =>
    simp only [Except.ok.injEq, ne_eq, ite_not]
    by_cases hlen : stoplen = src.length
    · simp only [if_pos hlen, guarded, meets_bind, meets_attempt]
      exact storeBytes_spec M hinv src a
    · simp only [if_neg hlen]
      exact ⟨hinv, rfl⟩

/-! ## Simulation -/

variable {R : σ → τ → Prop}

/-- A copy to one memory is simulated by a copy to another whose stores simulate the first one's. -/
theorem storeBytes_simulates {um : UserMem σ β} {um' : UserMem τ β}
    (hstore : ∀ a b, Simulates R (um.store a b) (um'.store a b)) (src : List β) (a : ℕ) :
    Simulates R (storeBytes um src a) (storeBytes um' src a) := by
  induction src generalizing a with
  | nil => exact .pure ()
  | cons b bs ih => exact .bind (hstore a b) fun _ => ih (a + 1)

theorem guarded_simulates {α : Type} {m : Prog Errno σ α} {m' : Prog Errno τ α}
    (hm : Simulates R m m') : Simulates R (guarded m) (guarded m') := by
  refine .bind (.attempt hm) fun r => ?_
  cases r with
  | ok a => exact .pure a
  | error e => exact .fail _

theorem copyout_simulates {um : UserMem σ β} {um' : UserMem τ β}
    (hstore : ∀ a b, Simulates R (um.store a b) (um'.store a b)) (src : List β) (a : ℕ) :
    Simulates R (copyout um src a) (copyout um' src a) := by
  unfold copyout
  cases copycheck a src.length with
  | error e => exact .fail e
  | ok stoplen =>
    exact .ite _ (fun _ => .fail _) fun _ => guarded_simulates (storeBytes_simulates hstore src a)

end Os161
