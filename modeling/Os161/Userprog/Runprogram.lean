import Mathlib.Tactic
import Os161.Lib.UserCopies

/-!
# The argument vector of a new program (`kern/userprog/runprogram.c`)

`runprogram` puts the arguments of a program at the top of its stack before it enters user mode. The
strings go first, the last argument highest, each rounded up to whole words; their addresses are
collected in `temp_p`. The vector goes below them, again from its last word, which is the null
pointer, downward. The strings are copied with `copyoutstr`, whose result is not looked at, and the
words of the vector are stored through plain pointers.

`placeStrings_spec` and `placeVector_spec` follow the two loops: what the memory holds above the
stack pointer, and that nothing else has changed. `argument_vector` puts them together.
-/

namespace Os161.Runprogram

open Prog UserCopy

/-- A string of the kernel, without the NUL that ends it. -/
structure CString where
  bytes : List Byte
  nonzero : ∀ b ∈ bytes, b ≠ 0

namespace CString

/-- `strlen`. -/
def strlen (c : CString) : ℕ := c.bytes.length

/-- The bytes from the address of the string on. -/
def mem (c : CString) : ℕ → Byte := fun i => c.bytes.getD i 0

/-- The bytes the string takes on the stack: with its NUL, in whole words. -/
def slot (c : CString) : ℕ :=
  let ptrlen := c.strlen + 1
  let offset := if ptrlen % 4 = 0 then 0 else 4 - ptrlen % 4
  ptrlen + offset

theorem mem_strlen (c : CString) : c.mem c.strlen = 0 := by
  simp [mem, strlen]

theorem mem_ne_zero (c : CString) {i : ℕ} (hi : i < c.strlen) : c.mem i ≠ 0 := by
  rw [mem, List.getD_eq_getElem?_getD, List.getElem?_eq_getElem hi, Option.getD_some]
  exact c.nonzero _ (List.getElem_mem hi)

theorem strlen_lt_slot (c : CString) : c.strlen + 1 ≤ c.slot := by
  simp only [slot]
  omega

theorem four_dvd_slot (c : CString) : 4 ∣ c.slot := by
  simp only [slot]
  split
  · omega
  · omega

end CString

/-! ## The code -/

/-- `USERSTACK`, where `as_define_stack` puts the stack pointer. -/
def userStack : ℕ := userTop

/-- A pass of the first loop: the argument is copied below the stack pointer. -/
def placeString (mapped : ℕ → Bool) (arg : CString) (stackptr : ℕ) : Prog Errno State ℕ := do
  let ptrlen := arg.strlen + 1
  let offset := if ptrlen % 4 = 0 then 0 else 4 - ptrlen % 4
  let stackptr := u32 ((stackptr : ℤ) - (ptrlen + offset : ℕ))
  modify fun s => { s with kern := arg.mem }
  let _ ← attempt (copyoutstr mapped stackptr ptrlen)
  pure stackptr

/-- The first loop, from the last argument to the first: hands back the addresses (`temp_p`) and the
stack pointer. -/
def placeStrings (mapped : ℕ → Bool) :
    (args : List CString) → (stackptr : ℕ) → Prog Errno State (List ℕ × ℕ)
  | [], stackptr => pure ([], stackptr)
  | arg :: args, stackptr => do
    let (tempP, stackptr) ← placeStrings mapped args stackptr
    let stackptr ← placeString mapped arg stackptr
    pure (stackptr :: tempP, stackptr)

/-- `*(unsigned long *)t = w`, a store through a user address outside of the copy functions. -/
def storeWord (mapped : ℕ → Bool) (t : ℕ) (w : Word) : Prog Errno State Unit := do
  require (t % 4 = 0) "Fatal exception 5 (Address error on store) in kernel mode"
  require (Reachable mapped t) "I can't handle this... I think I'll just die now..."
  modify fun s => { s with
    user := Buffer.splice s.user t ((List.range 4).map (Buffer.wordByte w))
    touched := t :: s.touched }

/-- The second loop, from the last word of the vector to the first. -/
def placeVector (mapped : ℕ → Bool) : (tempP : List ℕ) → (stackptr : ℕ) → Prog Errno State ℕ
  | [], stackptr => pure stackptr
  | p :: tempP, stackptr => do
    let stackptr ← placeVector mapped tempP stackptr
    let stackptr := u32 ((stackptr : ℤ) - 4)
    storeWord mapped stackptr (BitVec.ofNat 32 p)
    pure stackptr

/-- What `runprogram` does between `as_define_stack` and `md_usermode`: hands back the address of
the argument vector and the stack pointer of the program. -/
def placeArguments (mapped : ℕ → Bool) (args : List CString) (stackptr : ℕ) :
    Prog Errno State (ℕ × ℕ) :=
  if args.length > 2 then do
    let (tempP, stackptr) ← placeStrings mapped args stackptr
    let stackptr ← placeVector mapped (tempP ++ [0]) stackptr
    pure (stackptr, stackptr)
  else
    pure (0, stackptr)

/-! ## Strings -/

/-- The memory `v` holds the string, with the NUL that ends it, at the address `p`. -/
def Holds (v : ℕ → Byte) (arg : CString) (p : ℕ) : Prop := ∀ k ≤ arg.strlen, v (p + k) = arg.mem k

/-- The memory that is not in `[lo, hi)` is as it was. -/
def SameOutside (lo hi : ℕ) (v w : ℕ → Byte) : Prop := ∀ a, a < lo ∨ hi ≤ a → w a = v a

/-- Every address of `[lo, hi)` can be accessed. -/
def ReachableIn (mapped : ℕ → Bool) (lo hi : ℕ) : Prop := ∀ a, lo ≤ a → a < hi → Reachable mapped a

/-- The bytes all strings take on the stack. -/
def slots (args : List CString) : ℕ := (args.map CString.slot).sum

/-- The addresses of the strings below `top`. -/
def addresses (top : ℕ) : List CString → List ℕ
  | [] => []
  | arg :: args => (top - slots (arg :: args)) :: addresses top args

section Strings

variable {mapped : ℕ → Bool} {s : State} {arg : CString} {args : List CString} {sp top : ℕ}
  {v w : ℕ → Byte}

theorem slots_cons (arg : CString) (args : List CString) :
    slots (arg :: args) = arg.slot + slots args := by
  simp only [slots, List.map_cons, List.sum_cons]

theorem four_dvd_slots (args : List CString) : 4 ∣ slots args := by
  induction args with
  | nil => exact dvd_zero 4
  | cons arg args ih =>
    rw [slots_cons]
    exact dvd_add arg.four_dvd_slot ih

theorem SameOutside.refl {lo hi : ℕ} (v : ℕ → Byte) : SameOutside lo hi v v := fun _ _ => rfl

theorem SameOutside.trans {lo mid hi lo' : ℕ} {x : ℕ → Byte} (h : SameOutside mid hi v w)
    (h' : SameOutside lo lo' w x) (hlo : lo ≤ mid) (hhi : lo' ≤ hi) : SameOutside lo hi v x := by
  intro a ha
  rw [h' a (by omega), h a (by omega)]

theorem Holds.congr {p : ℕ} (h : Holds v arg p) (hsame : ∀ a, p ≤ a → w a = v a) :
    Holds w arg p := by
  intro k hk
  rw [hsame (p + k) (by omega), h k hk]

/-- The strings are all above the stack pointer, so that what is put below it leaves them alone. -/
theorem holds_frame (h : List.Forall₂ (Holds v) args (addresses top args))
    (hsame : ∀ a, top - slots args ≤ a → w a = v a) :
    List.Forall₂ (Holds w) args (addresses top args) := by
  induction args with
  | nil => exact .nil
  | cons arg args ih =>
    cases h with
    | cons hholds hrest =>
      refine .cons (hholds.congr hsame) (ih hrest fun a ha => hsame a ?_)
      rw [slots_cons]
      omega

/-- The string that `copyoutstr` copies ends at its NUL. -/
theorem endsAt_strlen {n : ℕ} (hreach : AllReachable mapped sp (arg.strlen + 1))
    (hn : arg.strlen < n) : EndsAt mapped arg.mem sp n arg.strlen :=
  ⟨hn, arg.mem_strlen, fun _ hj => arg.mem_ne_zero hj, hreach⟩

theorem EndsAt.eq_strlen {n k : ℕ} (h : EndsAt mapped arg.mem sp n k) : k = arg.strlen := by
  rcases lt_trichotomy k arg.strlen with hlt | heq | hgt
  · exact absurd h.nul (arg.mem_ne_zero hlt)
  · exact heq
  · exact absurd arg.mem_strlen (h.first _ hgt)

/-- `copyoutstr` of a whole string to a part of user space that can be accessed. -/
theorem copyoutstr_string (hkern : s.kern = arg.mem) (htop : sp + (arg.strlen + 1) ≤ userTop)
    (hreach : AllReachable mapped sp (arg.strlen + 1)) :
    Meets (copyoutstr mapped sp (arg.strlen + 1))
      (fun _ t => t.badfaultfunc = none ∧ Holds t.user arg sp ∧
        SameOutside sp (sp + (arg.strlen + 1)) s.user t.user) (fun _ _ => False) s := by
  have htopEq : userTop = 2147483648 := rfl
  have hends := endsAt_strlen (n := min (arg.strlen + 1) (userTop - sp)) hreach (by omega)
  have hlook : Looks mapped s.kern sp (Outward s sp) _ := looks_kern
  rw [hkern] at hlook
  refine (copyString_spec moves_storeUser hlook (outward_start s sp) (fun _ _ h => h.touches)
    (by omega) (by omega) (noWrap_of_le htop) (by omega)).mono ?_ ?_
  · rintro got t ⟨k, -, hk, hnone, t₀, hout, rfl⟩
    obtain rfl := EndsAt.eq_strlen hk
    refine ⟨hnone, fun k hk => ?_, fun a ha => ?_⟩
    · show t₀.user (sp + k) = _
      rw [hout.user, State.given, if_pos (by omega), Nat.add_sub_cancel_left, hkern]
    · show t₀.user a = _
      rw [hout.user, State.given, if_neg (by omega)]
  · rintro e t ⟨-, ⟨-, -, hless⟩ | ⟨-, hno, -⟩⟩
    · exact hless.no_nul _ (Nat.lt_succ_self _) arg.mem_strlen
    · exact hno _ hends

theorem placeString_spec (hsp : sp ≤ userTop)
    (hslot : arg.slot ≤ sp) (hreach : ReachableIn mapped (sp - arg.slot) sp) :
    Meets (placeString mapped arg sp)
      (fun p t => p = sp - arg.slot ∧ t.badfaultfunc = none ∧ Holds t.user arg p ∧
        SameOutside p sp s.user t.user) (fun _ _ => False) s := by
  have htopEq : userTop = 2147483648 := rfl
  have hlen := arg.strlen_lt_slot
  have hptr : u32 ((sp : ℤ) - (arg.slot : ℕ)) = sp - arg.slot := by
    rw [show (sp : ℤ) - (arg.slot : ℕ) = ((sp - arg.slot : ℕ) : ℤ) by omega]
    exact u32_of_lt (by omega)
  have hdef : placeString mapped arg sp = (do
      modify fun s => { s with kern := arg.mem }
      let _ ← attempt (copyoutstr mapped (u32 ((sp : ℤ) - (arg.slot : ℕ))) (arg.strlen + 1))
      pure (u32 ((sp : ℤ) - (arg.slot : ℕ)))) := rfl
  rw [hdef, hptr]
  simp only [meets_bind, meets_modify, meets_attempt, meets_pure]
  refine (copyoutstr_string (s := { s with kern := arg.mem }) rfl (by omega) ?_).mono ?_
    fun _ _ hfalse => hfalse.elim
  · intro i hi
    exact hreach _ (by omega) (by omega)
  · rintro _ t ⟨hnone, hholds, hsame⟩
    exact ⟨trivial, hnone, hholds, fun a ha => hsame a (by omega)⟩

/-- The first loop. -/
theorem placeStrings_spec (hnull : s.badfaultfunc = none) (htop : top ≤ userTop)
    (hfit : slots args ≤ top) (hreach : ReachableIn mapped (top - slots args) top) :
    Meets (placeStrings mapped args top)
      (fun r t => r = (addresses top args, top - slots args) ∧ t.badfaultfunc = none ∧
        List.Forall₂ (Holds t.user) args (addresses top args) ∧
        SameOutside (top - slots args) top s.user t.user) (fun _ _ => False) s := by
  induction args with
  | nil => exact ⟨rfl, hnull, .nil, SameOutside.refl _⟩
  | cons arg args ih =>
    rw [slots_cons] at hfit hreach ⊢
    rw [placeStrings, meets_bind]
    refine (ih (by omega) fun a ha => hreach a (by omega)).imp ?_
    rintro _ t ⟨rfl, -, hall, hsame⟩
    simp only [meets_bind, meets_pure]
    refine (placeString_spec (by omega) (by omega) fun a hlo hhi =>
      hreach a (by omega) (by omega)).imp ?_
    rintro _ t' ⟨rfl, hnull', hholds, hsame'⟩
    have hbelow : ∀ a, top - slots args ≤ a → t'.user a = t.user a :=
      fun a ha => hsame' a (.inr ha)
    have haddr : top - slots args - arg.slot = top - (arg.slot + slots args) := by omega
    rw [haddr] at hholds hsame' ⊢
    rw [addresses, slots_cons]
    exact ⟨rfl, hnull', .cons hholds (holds_frame hall hbelow),
      hsame.trans hsame' (by omega) (by omega)⟩

end Strings

/-! ## The vector -/

section Vector

variable {mapped : ℕ → Bool} {s : State} {sp : ℕ} {v w : ℕ → Byte}

/-- The memory `v` holds the words `ps` from the address `p` on. -/
def HoldsWords (v : ℕ → Byte) (ps : List ℕ) (p : ℕ) : Prop :=
  ∀ i (hi : i < ps.length), Buffer.wordAt v (p + 4 * i) = BitVec.ofNat 32 ps[i]

theorem wordAt_store (v : ℕ → Byte) (t : ℕ) (x : Word) :
    Buffer.wordAt (Buffer.splice v t ((List.range 4).map (Buffer.wordByte x))) t = x := by
  have hbyte : ∀ k < 4, Buffer.splice v t ((List.range 4).map (Buffer.wordByte x)) (t + k) =
      Buffer.wordByte x k := by
    intro k hk
    rw [Buffer.splice_of_mem (by omega) (by simpa using hk), Nat.add_sub_cancel_left]
    simp [hk]
  unfold Buffer.wordAt
  rw [show Buffer.splice v t _ t = _ from hbyte 0 (by omega), hbyte 1 (by omega),
    hbyte 2 (by omega), hbyte 3 (by omega), Buffer.append_wordByte]

theorem HoldsWords.cons {p : ℕ} {ps : List ℕ} {t : ℕ} (h : HoldsWords v ps (t + 4)) :
    HoldsWords (Buffer.splice v t ((List.range 4).map (Buffer.wordByte (BitVec.ofNat 32 p))))
      (p :: ps) t := by
  intro i hi
  cases i with
  | zero => exact wordAt_store v t _
  | succ i =>
    have hi' : i < ps.length := Nat.lt_of_succ_lt_succ hi
    rw [List.getElem_cons_succ, ← h i hi']
    refine Buffer.wordAt_congr fun j hj => ?_
    rw [Buffer.splice_of_notMem (by rw [List.length_map, List.length_range]; omega)]
    congr 1
    omega

theorem placeVector_spec {ps : List ℕ} (hsp : sp ≤ userTop) (halign : 4 ∣ sp)
    (hfit : 4 * ps.length ≤ sp) (hreach : ReachableIn mapped (sp - 4 * ps.length) sp) :
    Meets (placeVector mapped ps sp)
      (fun p t => p = sp - 4 * ps.length ∧ t.badfaultfunc = s.badfaultfunc ∧
        HoldsWords t.user ps p ∧ SameOutside p sp s.user t.user) (fun _ _ => False) s := by
  have htopEq : userTop = 2147483648 := rfl
  induction ps with
  | nil => exact ⟨rfl, rfl, fun i hi => absurd hi (Nat.not_lt_zero i), SameOutside.refl _⟩
  | cons x ps ih =>
    rw [List.length_cons] at hfit hreach ⊢
    rw [placeVector, meets_bind]
    refine (ih (by omega) fun a ha => hreach a (by omega)).imp ?_
    rintro _ t ⟨rfl, hbad, hwords, hsame⟩
    have hptr : u32 (((sp - 4 * ps.length : ℕ) : ℤ) - 4) = sp - 4 * (ps.length + 1) := by
      rw [show ((sp - 4 * ps.length : ℕ) : ℤ) - 4 = ((sp - 4 * (ps.length + 1) : ℕ) : ℤ) by omega]
      exact u32_of_lt (by omega)
    simp only [hptr, storeWord, meets_bind, meets_require, meets_modify, meets_pure]
    refine ⟨by omega, hreach _ le_rfl (by omega), trivial, hbad, HoldsWords.cons ?_, ?_⟩
    · rwa [show sp - 4 * (ps.length + 1) + 4 = sp - 4 * ps.length by omega]
    · intro a ha
      rw [Buffer.splice_of_notMem (by rw [List.length_map, List.length_range]; omega),
        hsame a (by omega)]

end Vector

/-! ## The whole block -/

/-- The bytes that the strings and the vector take. -/
def blockSize (args : List CString) : ℕ := slots args + 4 * (args.length + 1)

/-- The word at index `i` of the argument vector at `argv`. -/
def argAt (v : ℕ → Byte) (argv i : ℕ) : ℕ := (Buffer.wordAt v (argv + 4 * i)).toNat

/-- The ranges of addresses of strings at the addresses `ps`. -/
def spans (args : List CString) (ps : List ℕ) : List (ℕ × ℕ) :=
  List.zipWith (fun arg p => (p, p + (arg.strlen + 1))) args ps

/-- The parts of the stack, as ranges of addresses: the vector, the strings it points to, and what
is above the initial stack pointer. -/
def parts (v : ℕ → Byte) (args : List CString) (argv top : ℕ) : List (ℕ × ℕ) :=
  (argv, argv + 4 * (args.length + 1)) ::
    (spans args ((List.range args.length).map (argAt v argv)) ++ [(top, 4294967296)])

/-- What the program finds when it starts, with the address of the vector and the stack pointer as
in `r`. -/
structure ArgumentVector (args : List CString) (top : ℕ) (r : ℕ × ℕ) (v : ℕ → Byte) : Prop where
  stack_pointer : r.1 = r.2
  aligned : r.1 % 4 = 0
  below : r.1 < userTop
  strings : ∀ i (hi : i < args.length), Holds v args[i] (argAt v r.1 i)
  last : argAt v r.1 args.length = 0
  disjoint : (parts v args r.1 top).Pairwise fun x y =>
    ∀ a, a ∈ Set.Ico x.1 x.2 → a ∉ Set.Ico y.1 y.2

section Block

variable {args : List CString} {top : ℕ}

theorem length_addresses (top : ℕ) (args : List CString) :
    (addresses top args).length = args.length := by
  induction args with
  | nil => rfl
  | cons arg args ih => rw [addresses, List.length_cons, List.length_cons, ih]

/-- A range of addresses ends before another one starts. -/
def Before (x y : ℕ × ℕ) : Prop := x.2 ≤ y.1

theorem Before.disjoint {x y : ℕ × ℕ} (h : Before x y) {a : ℕ} (hx : a ∈ Set.Ico x.1 x.2) :
    a ∉ Set.Ico y.1 y.2 :=
  fun hy => absurd (hx.2.trans_le h) (not_lt.mpr hy.1)

theorem le_of_mem_spans {x : ℕ × ℕ}
    (hx : x ∈ spans args (addresses top args) ++ [(top, 4294967296)]) :
    top - slots args ≤ x.1 := by
  induction args with
  | nil =>
    obtain rfl := List.mem_singleton.mp hx
    exact Nat.sub_le _ _
  | cons arg args ih =>
    rw [slots_cons]
    rcases List.mem_cons.mp hx with rfl | hx
    · rw [slots_cons]
    · have := ih hx
      omega

/-- The addresses ascend, each string ends before the next one starts, and the last one ends below
the initial stack pointer. -/
theorem spans_ordered (hfit : slots args ≤ top) :
    (spans args (addresses top args) ++ [(top, 4294967296)]).Pairwise Before := by
  induction args with
  | nil => exact List.pairwise_singleton _ _
  | cons arg args ih =>
    have hlen := arg.strlen_lt_slot
    rw [slots_cons] at hfit
    refine List.pairwise_cons.mpr ⟨fun y hy => ?_, ih (by omega)⟩
    have hle := le_of_mem_spans hy
    show top - slots (arg :: args) + (arg.strlen + 1) ≤ y.1
    rw [slots_cons]
    omega

theorem addresses_lt {p : ℕ} (hfit : slots args ≤ top) (hp : p ∈ addresses top args) : p < top := by
  induction args with
  | nil => exact absurd hp List.not_mem_nil
  | cons arg args ih =>
    have hlen := arg.strlen_lt_slot
    rw [slots_cons] at hfit
    rcases List.mem_cons.mp hp with rfl | hp
    · rw [slots_cons]
      omega
    · exact ih (by omega) hp

/-- The words of the vector are the addresses of the strings, and the last one is 0. -/
theorem argAt_of_holdsWords {v : ℕ → Byte} {argv : ℕ} (htop : top ≤ userTop)
    (hfit : slots args ≤ top) (h : HoldsWords v (addresses top args ++ [0]) argv) :
    (List.range args.length).map (argAt v argv) = addresses top args ∧
      argAt v argv args.length = 0 := by
  have htopEq : userTop = 2147483648 := rfl
  have hlen := length_addresses top args
  constructor
  · refine List.ext_getElem (by simp [hlen]) fun i hi hi' => ?_
    have hword := h i (by rw [List.length_append]; omega)
    have hlt := addresses_lt hfit (List.getElem_mem hi')
    rw [List.getElem_append_left hi'] at hword
    rw [List.getElem_map, List.getElem_range, argAt, hword, BitVec.toNat_ofNat,
      Nat.mod_eq_of_lt (by omega)]
  · have hword := h args.length (by rw [List.length_append, hlen]; exact Nat.lt_succ_self _)
    rw [List.getElem_append_right (by omega)] at hword
    simp only [hlen, Nat.sub_self, List.getElem_singleton] at hword
    rw [argAt, hword]
    rfl

/-- **The argument vector.** The strings and the vector fit in the stack region, whose pages can be
accessed: the program starts with its arguments in place. -/
theorem argument_vector {s : State} (hs : Reached s) (mapped : ℕ → Bool) (args : List CString)
    (hargs : 2 < args.length) (stackSize : ℕ) (hsize : stackSize ≤ userStack)
    (hfit : blockSize args ≤ stackSize)
    (hmapped : ∀ a, userStack - stackSize ≤ a → a < userStack → Reachable mapped a) :
    ∃ r t, placeArguments mapped args userStack s = .ok r t ∧
      ArgumentVector args userStack r t.user ∧ t.badfaultfunc = none ∧
      SameOutside r.1 userStack s.user t.user := by
  have htop : userStack = userTop := rfl
  have htopEq : userTop = 2147483648 := rfl
  have hdvd := four_dvd_slots args
  unfold blockSize at hfit
  have hlen := length_addresses userStack args
  have hrun : Meets (placeArguments mapped args userStack)
      (fun r t => ArgumentVector args userStack r t.user ∧ t.badfaultfunc = none ∧
        SameOutside r.1 userStack s.user t.user) (fun _ _ => False) s := by
    rw [placeArguments, if_pos hargs, meets_bind]
    refine (placeStrings_spec hs.null le_rfl (by omega) fun a ha => hmapped a (by omega)).imp ?_
    rintro _ t ⟨rfl, hnull, hall, hsame⟩
    have hvec : Meets (placeVector mapped (addresses userStack args ++ [0])
        (userStack - slots args)) _ _ t := placeVector_spec (by omega) (by omega)
      (by rw [List.length_append, hlen, List.length_singleton]; omega)
      (fun a ha hlt => hmapped a
        (by rw [List.length_append, hlen, List.length_singleton] at ha; omega) (by omega))
    rw [List.length_append, hlen, List.length_singleton] at hvec
    simp only [meets_bind, meets_pure]
    refine hvec.imp ?_
    rintro argv t' ⟨hargv, hbad, hwords, hsame'⟩
    obtain ⟨haddr, hlast⟩ := argAt_of_holdsWords le_rfl (by omega) hwords
    have hall' := holds_frame hall fun a ha => hsame' a (.inr ha)
    refine ⟨⟨rfl, by omega, by omega, ?_, hlast, ?_⟩, hbad.trans hnull,
      hsame.trans hsame' (by omega) (by omega)⟩
    · intro i hi
      rw [← haddr] at hall'
      have hstring := hall'.get hi (by simpa using hi)
      simpa using hstring
    · rw [parts, haddr]
      refine List.Pairwise.imp (fun hbefore _ => hbefore.disjoint)
        (List.pairwise_cons.mpr ⟨fun y hy => ?_, spans_ordered (by omega)⟩)
      have hle := le_of_mem_spans hy
      show argv + 4 * (args.length + 1) ≤ y.1
      omega
  exact hrun.exists_ok

/-- The arguments `ab`, `c` and the empty string. -/
def threeArguments : List CString :=
  [⟨[0x61, 0x62], by decide⟩, ⟨[0x63], by decide⟩, ⟨[], by decide⟩]

theorem argument_vector_three :
    2 < threeArguments.length ∧
      ∃ r t, placeArguments (fun _ => true) threeArguments userStack
          (State.fresh (fun _ => 0) fun _ => 0) = .ok r t ∧
        ArgumentVector threeArguments userStack r t.user := by
  obtain ⟨r, t, hret, hvec, -⟩ := argument_vector (.fresh (fun _ => 0) fun _ => 0) (fun _ => true)
    threeArguments (by decide) 4096 (by decide) (by decide) fun _ _ _ _ => rfl
  exact ⟨by decide, r, t, hret, hvec⟩

end Block

end Os161.Runprogram
