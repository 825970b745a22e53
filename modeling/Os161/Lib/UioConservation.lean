import Mathlib.Tactic
import Os161.Lib.Uio

/-!
# What a transfer moves (`uiomove` and `uiomovezeros` at every length)

Three lengths limit a transfer: the number of bytes asked for, the length of the iovec and the
residue. The header asks of `uio_resid` that it is "the total amount of data that can be transferred
through this uio", so that a call should move the smaller of `n` and the residue. The loop of
`uiomove` stops when the residue is 0, but bounds a single pass by the iovec and by `n` only: where
both are larger than the residue, a pass goes beyond it and the residue wraps around.

A `Transfer` is a function that moves bytes exactly wherever no pass can go beyond the residue
(`Uio.Bounded`), and goes beyond a residue of one byte where it can. Both functions are transfers,
and `Transfer.conserves_iff` says when a transfer keeps its account.
-/

namespace Os161

open Prog

/-! ## The account of a transfer -/

namespace Uio

variable {u : Uio} {buf : Buffer} {ptr m n : ℕ} {d d' : List Byte}

/-- Exactly `m` bytes have moved between the buffer at `ptr` and the region, in order. -/
structure Moved (u : Uio) (buf : Buffer) (ptr m : ℕ) (buf' : Buffer) (u' : Uio) : Prop where
  filled : buf' = u.fill buf ptr m
  done : u'.done = u.done ++ u.data buf ptr m
  length : u'.done.length = u.done.length + m
  iov : u'.iov = u.iov.drop m
  resid : u'.resid + m = u.resid
  offset : u'.offset = u.offset + m
  segflg : u'.segflg = u.segflg
  rw : u'.rw = u.rw

/-- No pass of the loop can go beyond the residue. -/
def Bounded (u : Uio) (n : ℕ) : Prop := u.resid = 0 ∨ n ≤ u.resid ∨ u.iov.length = u.resid

theorem Bounded.of_le {k : ℕ} (h : u.Bounded n) (hk : k ≤ n) : u.Bounded k := by
  rcases h with h | h | h
  · exact .inl h
  · exact .inr (.inl (hk.trans h))
  · exact .inr (.inr h)

/-- What is left of a bounded transfer is bounded. -/
theorem Bounded.advance {k : ℕ} (h : u.Bounded (k + n)) (hu : u.Valid)
    (hd : d.length = min k u.resid) : (u.advance d).Bounded n := by
  have hres := hu.advance_resid (d := d) (by omega)
  have hlen : (u.advance d).iov.length = u.iov.length - d.length := List.length_drop
  unfold Bounded at h ⊢
  omega

theorem not_faults_zero : ¬u.Faults 0 := fun h => Nat.not_lt_zero _ h.2

end Uio

/-! ## Transfers -/

/-- A function that moves bytes through a `uio`, wherever `Pre` holds. -/
structure Transfer (call : Buffer → ℕ → ℕ → UioM Buffer) (Pre : Uio → Buffer → Prop) : Prop where
  /-- The precondition holds of what is left of a transfer. -/
  pre : ∀ {u : Uio} {buf : Buffer} (ptr m : ℕ), Pre u buf →
    Pre (u.advance (u.data buf ptr m)) (u.fill buf ptr m)
  /-- Where no pass goes beyond the residue, the smaller of `n` and the residue is moved. -/
  bounded : ∀ {u : Uio} {buf : Buffer} {ptr n : ℕ}, Pre u buf → u.Valid → u.Bounded n →
    Meets (call buf ptr n)
      (fun buf' u' => ¬u.Faults (min n u.resid) ∧ buf' = u.fill buf ptr (min n u.resid) ∧
        u' = u.advance (u.data buf ptr (min n u.resid)))
      (fun _ _ => u.Faults (min n u.resid)) u
  /-- A fault before the smaller of `n` and the residue is reported. -/
  faults : ∀ {u : Uio} {buf : Buffer} {ptr n : ℕ}, Pre u buf → u.Valid →
    u.Faults (min n u.resid) → Meets (call buf ptr n) (fun _ _ => False) (fun _ _ => True) u
  /-- A residue of one byte does not keep a pass from moving two. -/
  beyond : ∀ {u : Uio} {buf : Buffer} {ptr n : ℕ}, Pre u buf → u.resid = 1 → 2 ≤ n →
    2 ≤ u.iov.length → Meets (call buf ptr n) (fun _ u' => u.done.length + 2 ≤ u'.done.length)
      (fun _ _ => True) u (fun _ => True)

/-- A call moves exactly the smaller of `n` and the residue when it returns 0, does not stop the
machine, and may be split into two calls. -/
structure Conserves (call : Buffer → ℕ → ℕ → UioM Buffer) (u : Uio) (buf : Buffer)
    (ptr n : ℕ) : Prop where
  moved : ∀ buf' u', call buf ptr n u = .ok buf' u' → u.Moved buf ptr (min n u.resid) buf' u'
  no_panic : ∀ msg, call buf ptr n u ≠ .halted msg
  split : ∀ n₁ n₂, n₁ + n₂ = n → ∀ buf' u',
    (do
      let buf₁ ← call buf ptr n₁
      call buf₁ (ptr + n₁) n₂ : UioM Buffer) u = .ok buf' u' ↔ call buf ptr n u = .ok buf' u'

/-- The account of a call is kept: it faults before the end of the transfer, or no pass goes beyond
the residue and the offset does not overflow. -/
def Uio.Kept (u : Uio) (n : ℕ) : Prop :=
  u.Faults (min n u.resid) ∨
    u.Bounded n ∧ u.offset + (min n u.resid : ℕ) < 2147483648

namespace Transfer

variable {call : Buffer → ℕ → ℕ → UioM Buffer} {Pre : Uio → Buffer → Prop} {u : Uio}
  {buf : Buffer} {ptr n : ℕ}

/-- What a bounded call that does not fault does. -/
theorem eq_ok (h : Transfer call Pre) (hpre : Pre u buf) (hu : u.Valid) (hb : u.Bounded n)
    (hf : ¬u.Faults (min n u.resid)) :
    call buf ptr n u = .ok (u.fill buf ptr (min n u.resid))
      (u.advance (u.data buf ptr (min n u.resid))) := by
  have hcall : Meets (call buf ptr n) _ _ u := h.bounded hpre hu hb
  unfold Meets at hcall
  split at hcall
  case h_1 a t ht =>
    obtain ⟨-, rfl, rfl⟩ := hcall
    exact ht
  case h_2 e t ht => exact absurd hcall hf
  case h_3 msg ht => exact hcall.elim

/-- Two calls after each other, where the first one is bounded and does not fault. -/
theorem two_calls (h : Transfer call Pre) (hpre : Pre u buf) (hu : u.Valid) {n₁ : ℕ}
    (hb : u.Bounded n₁) (hf : ¬u.Faults (min n₁ u.resid)) (n₂ : ℕ) :
    (do
      let buf₁ ← call buf ptr n₁
      call buf₁ (ptr + n₁) n₂ : UioM Buffer) u =
      call (u.fill buf ptr (min n₁ u.resid)) (ptr + n₁) n₂
        (u.advance (u.data buf ptr (min n₁ u.resid))) := by
  show Prog.bind _ _ u = _
  rw [Prog.bind, h.eq_ok hpre hu hb hf]

/-- A call that faults before its end: neither it nor the two calls it is split into return 0. -/
theorem conserves_of_faults (h : Transfer call Pre) (hpre : Pre u buf) (hu : u.Valid)
    (hf : u.Faults (min n u.resid)) : Conserves call u buf ptr n := by
  have hcall : Meets (call buf ptr n) _ _ u := h.faults hpre hu hf
  refine ⟨fun buf' u' hret => (hcall.of_ok hret).elim, hcall.ne_halted, ?_⟩
  intro n₁ n₂ hsum buf' u'
  refine iff_of_false (fun hret => ?_) fun hret => hcall.of_ok hret
  by_cases hf₁ : u.Faults (min n₁ u.resid)
  · -- the first part faults
    have hfirst : Meets (do let buf₁ ← call buf ptr n₁; call buf₁ (ptr + n₁) n₂)
        (fun _ _ => False) (fun _ _ => True) u := by
      rw [meets_bind]
      exact (h.faults hpre hu hf₁).mono (fun _ _ hfalse => hfalse.elim) fun _ _ _ => trivial
    exact hfirst.of_ok hret
  · -- the first part is moved, and the second one faults
    have hreach : min n₁ u.resid ≤ u.reach := not_lt.mp fun hlt => hf₁ ⟨hf.1, hlt⟩
    have hlt := hf.2
    have hlen := hu.length_data (n := min n₁ u.resid) (min_le_right _ _) buf ptr
    rw [h.two_calls hpre hu (.inr (.inl (by omega))) hf₁] at hret
    refine (h.faults (h.pre ptr _ hpre) (hu.advance (by omega)) ?_).of_ok hret
    refine ⟨hf.1, ?_⟩
    rw [hu.advance_resid (by omega), hlen]
    show u.reach - (u.data buf ptr (min n₁ u.resid)).length < _
    omega

/-- A bounded call: what it moves. -/
theorem moved_of_bounded (hu : u.Valid) (hoff : u.offset + (min n u.resid : ℕ) < 2147483648) :
    u.Moved buf ptr (min n u.resid) (u.fill buf ptr (min n u.resid))
      (u.advance (u.data buf ptr (min n u.resid))) := by
  have hlen := hu.length_data (n := min n u.resid) (min_le_right _ _) buf ptr
  refine ⟨rfl, rfl, by rw [Uio.advance_done, List.length_append, hlen], ?_, ?_, ?_, rfl, rfl⟩
  · rw [Uio.advance_iov, hlen]
  · rw [hu.advance_resid (by omega), hlen]
    omega
  · show s32 (u.offset + (u.data buf ptr (min n u.resid)).length) = _
    have hlo := hu.offset_lo
    rw [hlen, s32_of_range (by omega) hoff]

/-- A bounded call that is split moves the same bytes. -/
theorem split_of_bounded (h : Transfer call Pre) (hpre : Pre u buf) (hu : u.Valid)
    (hb : u.Bounded n) (hf : ¬u.Faults (min n u.resid)) {n₁ n₂ : ℕ} (hsum : n₁ + n₂ = n) :
    (do
      let buf₁ ← call buf ptr n₁
      call buf₁ (ptr + n₁) n₂ : UioM Buffer) u = call buf ptr n u := by
  subst hsum
  have hf₁ : ¬u.Faults (min n₁ u.resid) := fun hf' => hf (hf'.mono (by omega))
  have hlen := hu.length_data (n := min n₁ u.resid) (min_le_right _ _) buf ptr
  have hres := hu.advance_resid (d := u.data buf ptr (min n₁ u.resid)) (by omega)
  rw [h.two_calls hpre hu (hb.of_le (by omega)) hf₁]
  generalize hd : u.data buf ptr (min n₁ u.resid) = d at hlen hres ⊢
  have hf₂ : ¬(u.advance d).Faults (min n₂ (u.advance d).resid) := by
    intro hf'
    refine hf (hf'.of_advance.mono ?_)
    rw [hres, hlen]
    omega
  have hpre' := h.pre ptr (min n₁ u.resid) hpre
  rw [hd] at hpre'
  rw [h.eq_ok hpre' (hu.advance (by omega)) (hb.advance hu hlen) hf₂, h.eq_ok hpre hu hb hf]
  rcases le_total n₁ u.resid with hle | hle
  · have hmin : min n₁ u.resid = n₁ := min_eq_left hle
    have hparts : min (n₁ + n₂) u.resid = n₁ + min n₂ (u.resid - n₁) := by omega
    rw [hmin] at hd hlen ⊢
    have hres' : (u.advance d).resid = u.resid - n₁ := by rw [hres, hlen]
    have hdata := hu.length_data (n := n₁) hle buf ptr
    rw [hparts, hres', hu.fill_add (by omega), hu.data_add (by omega), hd, hu.advance_advance]
    have hrest := (hu.advance (d := d) (by omega)).length_data (n := min n₂ (u.resid - n₁))
      (by rw [hres']; omega) (u.fill buf ptr n₁) (ptr + n₁)
    rw [hrest]
    omega
  · -- nothing is left for the second call
    have hmin : min n₁ u.resid = u.resid := min_eq_right hle
    have hparts : min (n₁ + n₂) u.resid = u.resid := by omega
    have hres' : min n₂ (u.advance d).resid = 0 := by rw [hres, hlen]; omega
    rw [hmin] at hd hlen ⊢
    rw [hparts, hres', Uio.fill_zero, Uio.data_zero, hd,
      (hu.advance (d := d) (by omega)).advance_nil]

theorem conserves_of_kept (h : Transfer call Pre) (hpre : Pre u buf) (hu : u.Valid)
    (hk : u.Kept n) : Conserves call u buf ptr n := by
  by_cases hf : u.Faults (min n u.resid)
  · exact h.conserves_of_faults hpre hu hf
  obtain hf' | ⟨hb, hoff⟩ := hk
  · exact absurd hf' hf
  have hcall : call buf ptr n u = _ := h.eq_ok hpre hu hb hf
  refine ⟨fun buf' u' hret => ?_, fun msg hret => ?_, fun n₁ n₂ hsum buf' u' => ?_⟩
  · rw [hcall, Outcome.ok.injEq] at hret
    obtain ⟨rfl, rfl⟩ := hret
    exact moved_of_bounded hu hoff
  · rw [hcall] at hret
    cases hret
  · rw [h.split_of_bounded hpre hu hb hf hsum]

/-- A call that keeps its account is bounded, unless it faults: otherwise its first `resid - 1`
bytes could be moved by a call of their own, and the rest of the call would move two more. -/
theorem bounded_of_conserves (h : Transfer call Pre) (hpre : Pre u buf) (hu : u.Valid)
    (hf : ¬u.Faults (min n u.resid)) (hc : Conserves call u buf ptr n) : u.Bounded n := by
  by_contra hb
  obtain ⟨hpos, hlt, hiov⟩ : u.resid ≠ 0 ∧ u.resid < n ∧ u.iov.length ≠ u.resid := by
    simpa only [Uio.Bounded, not_or, not_le] using hb
  have hle := hu.resid_le
  rw [min_eq_right hlt.le] at hf
  -- two calls of `resid` and `n - resid` bytes return 0, so that the one call does
  have hb₀ : u.Bounded u.resid := .inr (.inl le_rfl)
  have hf₀ : ¬u.Faults (min u.resid u.resid) := by rwa [min_self]
  have hlen₀ := hu.length_data (n := min u.resid u.resid) (by omega) buf ptr
  obtain ⟨bufFull, uFull, hfull⟩ : ∃ buf' u', call buf ptr n u = .ok buf' u' := by
    have hres : (u.advance (u.data buf ptr (min u.resid u.resid))).resid = 0 := by
      rw [hu.advance_resid (by omega), hlen₀]
      omega
    have htwo : (do
        let buf₁ ← call buf ptr u.resid
        call buf₁ (ptr + u.resid) (n - u.resid) : UioM Buffer) u = _ :=
      h.two_calls hpre hu hb₀ hf₀ (n - u.resid)
    rw [h.eq_ok (h.pre ptr _ hpre) (hu.advance (by omega)) (.inl hres)
      (by rw [hres, Nat.min_zero]; exact Uio.not_faults_zero)] at htwo
    exact ⟨_, _, (hc.split u.resid (n - u.resid) (by omega) _ _).mp htwo⟩
  have hdone : uFull.done.length = u.done.length + u.resid := by
    have hmoved := (hc.moved _ _ hfull).length
    rwa [min_eq_right hlt.le] at hmoved
  -- so do two calls of which the second one goes beyond the residue
  have hb₁ : u.Bounded (u.resid - 1) := .inr (.inl (by omega))
  have hf₁ : ¬u.Faults (min (u.resid - 1) u.resid) := fun hf' => hf (hf'.mono (by omega))
  have hlen₁ := hu.length_data (n := min (u.resid - 1) u.resid) (by omega) buf ptr
  have htwo := (hc.split (u.resid - 1) (n - (u.resid - 1)) (by omega) bufFull uFull).mpr hfull
  rw [h.two_calls hpre hu hb₁ hf₁] at htwo
  have hmore := (h.beyond (h.pre ptr _ hpre) (by rw [hu.advance_resid (by omega), hlen₁]; omega)
    (by omega) (by rw [Uio.advance_iov, List.length_drop]; omega)).of_ok htwo
  rw [Uio.advance_done, List.length_append] at hmore
  omega

/-- **When a transfer keeps its account.** -/
theorem conserves_iff_kept (h : Transfer call Pre) (hpre : Pre u buf) (hu : u.Valid) :
    Conserves call u buf ptr n ↔ u.Kept n := by
  refine ⟨fun hc => ?_, h.conserves_of_kept hpre hu⟩
  by_cases hf : u.Faults (min n u.resid)
  · exact .inl hf
  have hb := h.bounded_of_conserves hpre hu hf hc
  refine .inr ⟨hb, ?_⟩
  have hoff := (hc.moved _ _ (h.eq_ok hpre hu hb hf)).offset
  rw [← hoff]
  exact s32_lt _

end Transfer

/-! ## The two functions -/

section Functions

variable {u : Uio} {buf : Buffer} {ptr n : ℕ}

/-- The loop ends when there is nothing to move. -/
theorem uiomoveLoop_stop {fuel : ℕ} {Q : Buffer → Uio → Prop} {E : Errno → Uio → Prop}
    {H : String → Prop} (hstop : n = 0 ∨ u.resid = 0) (hQ : Q buf u) :
    Meets (uiomoveLoop fuel buf ptr n) Q E u H := by
  cases fuel with
  | zero => exact hQ
  | succ fuel =>
    simp only [uiomoveLoop, meets_bind, meets_get, hstop, if_true, meets_pure]
    exact hQ

/-- The region that has been passed only grows. -/
theorem uiomoveLoop_grows (fuel : ℕ) :
    Meets (uiomoveLoop fuel buf ptr n) (fun _ u' => u.done.length ≤ u'.done.length)
      (fun _ _ => True) u (fun _ => True) := by
  induction fuel generalizing u buf ptr n with
  | zero => exact le_rfl
  | succ fuel ih =>
    simp only [uiomoveLoop, meets_bind, meets_get, meets_ite, meets_pure]
    refine ⟨fun _ => le_rfl, fun _ => ?_⟩
    simp only [ meets_require_partial, meets_fail, meets_modify]
    refine fun _ => ⟨fun _ => trivial, fun _ => ih.imp fun _ u' hle => ?_⟩
    rw [Uio.advance_done, List.length_append] at hle
    omega

theorem transfer_uiomove : Transfer uiomove fun _ _ => True where
  pre _ _ _ := trivial
  bounded := by
    intro u buf ptr n _ hu hb
    have hle := hu.resid_le
    by_cases hzero : n = 0 ∨ u.resid = 0
    · have hmin : min n u.resid = 0 := by omega
      refine uiomoveLoop_stop hzero ⟨?_, ?_, ?_⟩
      · rw [hmin]; exact Uio.not_faults_zero
      · rw [hmin, Uio.fill_zero]
      · rw [hmin, Uio.data_zero, hu.advance_nil]
    · obtain ⟨k, rfl⟩ : ∃ k, n = k + 1 := ⟨n - 1, by omega⟩
      have hsize : min u.iov.length (k + 1) = min (k + 1) u.resid := by
        unfold Uio.Bounded at hb
        omega
      have hlen := hu.length_data (min_le_right (k + 1) u.resid) buf ptr
      simp only [uiomove, uiomoveLoop, meets_bind, meets_get]
      rw [if_neg hzero, hsize]
      simp only [meets_bind, meets_require, meets_ite, meets_fail, meets_modify]
      refine ⟨by omega, fun hf => hf, fun hf => uiomoveLoop_stop ?_ ⟨hf, rfl, rfl⟩⟩
      rw [hu.advance_resid (by omega), hlen]
      omega
  faults := by
    intro u buf ptr n _ hu hf
    have hle := hu.resid_le
    have hreach := hf.2
    obtain ⟨k, rfl⟩ : ∃ k, n = k + 1 := ⟨n - 1, by omega⟩
    simp only [uiomove, uiomoveLoop, meets_bind, meets_get]
    rw [if_neg (by omega)]
    simp only [meets_bind, meets_require, meets_ite, meets_fail]
    exact ⟨by omega, fun _ => trivial, fun hno => absurd (hf.mono (by omega)) hno⟩
  beyond := by
    intro u buf ptr n _ hres hn hiov
    obtain ⟨k, rfl⟩ : ∃ k, n = k + 1 := ⟨n - 1, by omega⟩
    have hlen : (u.data buf ptr (min u.iov.length (k + 1))).length = min u.iov.length (k + 1) := by
      unfold Uio.data
      cases u.rw with
      | read => exact Buffer.length_slice _ _ _
      | write => rw [List.length_take]; omega
    simp only [uiomove, uiomoveLoop, meets_bind, meets_get]
    rw [if_neg (by omega)]
    simp only [meets_bind, meets_require_partial, meets_ite, meets_fail, meets_modify]
    refine fun _ => ⟨fun _ => trivial, fun _ => (uiomoveLoop_grows k).imp fun _ u' hle => ?_⟩
    rw [Uio.advance_done, List.length_append, hlen] at hle
    omega

/-- `uiomovezeros` as a transfer from a buffer of zeros. -/
def sendZeros (buf : Buffer) (_ n : ℕ) : UioM Buffer := do
  uiomovezeros n
  pure buf

theorem data_zeros (hrw : u.rw = .read) :
    u.data (fun _ => 0) ptr n = Buffer.slice (fun _ => 0) 0 n := by
  unfold Uio.data
  rw [hrw]
  rfl

/-- The passes of `uiomovezeros` where none goes beyond the residue. -/
theorem uiomovezerosLoop_bounded {fuel : ℕ} (hfuel : n ≤ fuel) (hrw : u.rw = .read) (hu : u.Valid)
    (hb : u.Bounded n) :
    Meets (uiomovezerosLoop fuel n)
      (fun _ u' => ¬u.Faults (min n u.resid) ∧
        u' = u.advance (Buffer.slice (fun _ => 0) 0 (min n u.resid)))
      (fun _ _ => u.Faults (min n u.resid)) u := by
  induction fuel generalizing n u with
  | zero =>
    obtain rfl : n = 0 := by omega
    rw [Nat.zero_min]
    exact ⟨Uio.not_faults_zero, hu.advance_nil.symm⟩
  | succ fuel ih =>
    unfold uiomovezerosLoop
    rw [meets_ite]
    constructor
    · rintro rfl
      rw [Nat.zero_min]
      exact ⟨Uio.not_faults_zero, hu.advance_nil.symm⟩
    intro hn
    -- one pass sends `k` zeros, the rest of the loop the other ones
    obtain ⟨amt, hamt⟩ : ∃ amt, amt = min 16 n := ⟨_, rfl⟩
    obtain ⟨k, hk⟩ : ∃ k, k = min amt u.resid := ⟨_, rfl⟩
    have hlen : (Buffer.slice (fun _ => 0) 0 k).length = k := Buffer.length_slice _ _ _
    have hres := hu.advance_resid (d := Buffer.slice (fun _ => 0) 0 k) (by omega)
    simp only [meets_bind, ← hamt]
    refine (transfer_uiomove.bounded trivial hu (hb.of_le (by omega))).mono ?_ ?_
    · rintro _ u' ⟨hf, -, rfl⟩
      rw [data_zeros hrw, ← hk]
      have hsum : min n u.resid = k + min (n - amt) (u.resid - k) := by omega
      have hb' : u.Bounded (amt + (n - amt)) := hb.of_le (by omega)
      have hrest := ih (u := u.advance (Buffer.slice (fun _ => 0) 0 k)) (n := n - amt) (by omega)
        hrw (hu.advance (by omega)) (hb'.advance hu (hlen.trans hk))
      refine hrest.mono ?_ ?_
      · rintro _ u' ⟨hf', rfl⟩
        rw [hres, hlen] at hf' ⊢
        refine ⟨fun hbad => hf' ⟨hbad.1, ?_⟩, ?_⟩
        · have hreach := hbad.2
          have hwithin : k ≤ u.reach := not_lt.mp fun hlt => hf ⟨hbad.1, by rwa [← hk]⟩
          show u.reach - (Buffer.slice (fun _ => 0) 0 k).length < _
          omega
        · rw [hu.advance_advance (by rw [hlen, Buffer.length_slice]; omega), zeros_append, hsum]
      · intro _ _ hf'
        rw [hres, hlen] at hf'
        exact hf'.of_advance.mono (by omega)
    · intro _ _ hf
      exact hf.mono (by omega)

/-- A fault within the transfer reaches the caller of `uiomovezeros`. -/
theorem uiomovezerosLoop_faults {fuel : ℕ} (hfuel : n ≤ fuel) (hrw : u.rw = .read) (hu : u.Valid)
    (hf : u.Faults (min n u.resid)) :
    Meets (uiomovezerosLoop fuel n) (fun _ _ => False) (fun _ _ => True) u := by
  have hreach := hf.2
  induction fuel generalizing n u with
  | zero => omega
  | succ fuel ih =>
    unfold uiomovezerosLoop
    rw [if_neg (by omega), meets_bind]
    obtain ⟨amt, hamt⟩ : ∃ amt, amt = min 16 n := ⟨_, rfl⟩
    rw [← hamt]
    by_cases hpass : u.Faults (min amt u.resid)
    · exact (transfer_uiomove.faults trivial hu hpass).mono (fun _ _ hfalse => hfalse.elim)
        fun _ _ _ => trivial
    -- this pass is within reach, so that the fault is ahead
    have hwithin : min amt u.resid ≤ u.reach := not_lt.mp fun hlt => hpass ⟨hf.1, hlt⟩
    refine (transfer_uiomove.bounded trivial hu (.inr (.inl (by omega)))).mono ?_
      fun _ _ _ => trivial
    rintro _ u' ⟨-, -, rfl⟩
    have hlen := hu.length_data (n := min amt u.resid) (by omega) (fun _ => 0) 0
    have hres := hu.advance_resid (d := u.data (fun _ => 0) 0 (min amt u.resid)) (by omega)
    have hrest : (u.advance (u.data (fun _ => 0) 0 (min amt u.resid))).reach =
        u.reach - min amt u.resid := congrArg (u.reach - ·) hlen
    refine ih (by omega) hrw (hu.advance (by omega)) ⟨hf.1, ?_⟩ ?_
    · rw [hres, hrest, hlen]
      omega
    · rw [hres, hrest, hlen]
      omega

theorem uiomovezerosLoop_grows (fuel : ℕ) :
    Meets (uiomovezerosLoop fuel n) (fun _ u' => u.done.length ≤ u'.done.length)
      (fun _ _ => True) u (fun _ => True) := by
  induction fuel generalizing u n with
  | zero => exact le_rfl
  | succ fuel ih =>
    unfold uiomovezerosLoop
    rw [meets_ite]
    refine ⟨fun _ => le_rfl, fun _ => ?_⟩
    rw [meets_bind]
    exact (uiomoveLoop_grows _).imp fun _ u' hle => ih.imp fun _ u'' hle' => hle.trans hle'

theorem transfer_sendZeros :
    Transfer sendZeros fun u buf => u.rw = .read ∧ buf = fun _ => 0 where
  pre := by
    rintro u _ ptr m ⟨hrw, rfl⟩
    refine ⟨hrw, ?_⟩
    unfold Uio.fill
    rw [hrw]
  bounded := by
    rintro u _ ptr n ⟨hrw, rfl⟩ hu hb
    simp only [sendZeros, uiomovezeros, meets_bind, meets_get, meets_require, meets_pure]
    refine ⟨hrw, (uiomovezerosLoop_bounded le_rfl hrw hu hb).imp fun _ u' hu' => ?_⟩
    refine ⟨hu'.1, ?_, by rw [hu'.2, data_zeros hrw]⟩
    unfold Uio.fill
    rw [hrw]
  faults := by
    rintro u _ ptr n ⟨hrw, rfl⟩ hu hf
    simp only [sendZeros, uiomovezeros, meets_bind, meets_get, meets_require, meets_pure]
    exact ⟨hrw, uiomovezerosLoop_faults le_rfl hrw hu hf⟩
  beyond := by
    rintro u _ ptr n ⟨hrw, rfl⟩ hres hn hiov
    obtain ⟨k, rfl⟩ : ∃ k, n = k + 1 := ⟨n - 1, by omega⟩
    simp only [sendZeros, uiomovezeros, meets_bind, meets_get, meets_require_partial, meets_pure,
      uiomovezerosLoop]
    intro _
    rw [if_neg (by omega), meets_bind]
    refine (transfer_uiomove.beyond trivial hres (by omega) hiov).imp fun _ u' hmore => ?_
    exact (uiomovezerosLoop_grows k).imp fun _ u'' hle => hmore.trans hle

end Functions

/-- **`uiomove` and `uiomovezeros` keep the account of a transfer** exactly when the call faults
within it, or no pass can go beyond the residue and the offset does not overflow. -/
theorem uiomove_conserves_iff (u : Uio) (hu : u.Valid) (buf : Buffer) (ptr n : ℕ) :
    (Conserves uiomove u buf ptr n ↔ u.Kept n) ∧
      (u.rw = .read → (Conserves sendZeros u (fun _ => 0) ptr n ↔ u.Kept n)) :=
  ⟨transfer_uiomove.conserves_iff_kept trivial hu,
    fun hrw => transfer_sendZeros.conserves_iff_kept ⟨hrw, rfl⟩ hu⟩

/-- A `uio` as `load_segment` sets it up for a segment of 20 bytes of which the file holds 5. -/
def segmentUio : Uio :=
  { done := [], iov := List.replicate 20 0, reach := 20, offset := 0, resid := 5,
    segflg := .userispace, rw := .read }

theorem segmentUio_valid : segmentUio.Valid := by
  refine ⟨?_, ?_, ?_, ?_⟩ <;> decide

theorem uiomove_conserves_segmentUio :
    segmentUio.Valid ∧ Conserves uiomove segmentUio (fun _ => 0) 0 5 := by
  refine ⟨segmentUio_valid, (uiomove_conserves_iff segmentUio segmentUio_valid _ 0 5).1.mpr ?_⟩
  exact .inr ⟨.inr (.inl le_rfl), by decide⟩

/-- Ten bytes are moved into a region whose residue is five, and the residue wraps around. -/
theorem uiomove_beyond_residue :
    (uiomove (fun _ => 1) 0 10 segmentUio).isOk = true ∧
      ((uiomove (fun _ => 1) 0 10 segmentUio).stateD segmentUio).done = List.replicate 10 1 ∧
      ((uiomove (fun _ => 1) 0 10 segmentUio).stateD segmentUio).resid = 4294967291 := by
  decide +kernel

end Os161
