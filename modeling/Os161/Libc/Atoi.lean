import Os161.Libc.PrintfNumbers

/-!
# `atoi`

The text that `%d` prints for a number is read back as that number. `__pf_getnum` takes the
magnitude of the number with a negation that wraps around for the most negative one, and so does
`atoi` at its end; the digits between are the same unsigned word.

The buffer of `__pf_printnum` has room for the digits of a word in base 8 and the NUL, and no more:
the model stops at a store outside, and the function returns for every word in each of its bases.
-/

namespace Os161.Printf

open Prog

/-- `strchr`: the offset of the character in the string, where the end of the string is found as a
NUL. -/
def strchr (s : List Char) (ch : Char) : Option ℕ := (s ++ ['\x00']).findIdx? (· = ch)

/-- The loop of `atoi` over the digits. -/
def atoiLoop : (s : List Char) → (val : ℕ) → ℕ
  | [], val => val
  | ch :: s, val =>
    match strchr "0123456789".toList ch with
    | none => val
    | some digit => atoiLoop s (u32 (val * 10 + digit))

/-- `atoi`, on the characters before the NUL. -/
def atoi (s : List Char) : ℤ :=
  let s := s.dropWhile fun ch => ch = ' ' ∨ ch = '\t'
  let neg := s.head? = some '-'
  let s := if s.head? = some '-' ∨ s.head? = some '+' then s.tail else s
  let val := atoiLoop s 0
  if neg then s32 (u32 (-val)) else s32 val

/-! ## Reading -/

theorem strchr_digitChar {d : ℕ} (hd : d < 10) :
    strchr "0123456789".toList (Nat.digitChar d) = some d := by
  interval_cases d <;> decide

/-- The loop reads the digits of a number as the number, cut to a word. -/
theorem atoiLoop_toDigits (n : ℕ) (rest : List Char) :
    atoiLoop (Nat.toDigits 10 n ++ rest) 0 = atoiLoop rest (u32 n) := by
  have hdigit (d v : ℕ) (hd : d < 10) (rest : List Char) :
      atoiLoop (Nat.digitChar d :: rest) v = atoiLoop rest (u32 (v * 10 + d)) := by
    rw [atoiLoop, strchr_digitChar hd]
  induction n using Nat.strong_induction_on generalizing rest with
  | _ n ih =>
    by_cases hn : n < 10
    · rw [Nat.toDigits_of_lt_base hn, List.singleton_append, hdigit n 0 hn, Nat.cast_zero, zero_mul,
        zero_add]
    · have hdiv : n / 10 < n := Nat.div_lt_self (by omega) (by decide)
      have hmod : n % 10 < 10 := Nat.mod_lt _ (by decide)
      have hval : u32 ((u32 ((n / 10 : ℕ) : ℤ) : ℤ) * 10 + (n % 10 : ℕ)) = u32 n := by
        unfold u32
        omega
      rw [Nat.toDigits_of_base_le (by decide) (not_lt.mp hn), List.append_assoc, ih _ hdiv,
        List.singleton_append, hdigit _ _ hmod, hval]

theorem atoi_minus (s : List Char) : atoi ('-' :: s) = s32 (u32 (-(atoiLoop s 0 : ℕ))) := by
  simp [atoi]

/-- `atoi` on a number with its sign. -/
theorem atoi_sign_toDigits (v : ℤ) (hlo : -2147483648 ≤ v) (hhi : v < 2147483648) :
    atoi ((if v < 0 then "-".toList else []) ++ Nat.toDigits 10 v.natAbs) = v := by
  have hloop : atoiLoop (Nat.toDigits 10 v.natAbs) 0 = v.natAbs := by
    have h := atoiLoop_toDigits v.natAbs []
    rwa [List.append_nil, atoiLoop, u32_of_lt (by omega)] at h
  by_cases hneg : v < 0
  · have hval : s32 (u32 (-(v.natAbs : ℤ))) = v := by
      unfold s32 u32
      omega
    rw [if_pos hneg, show "-".toList = ['-'] from rfl, List.singleton_append, atoi_minus, hloop,
      hval]
  · rw [if_neg hneg, List.nil_append]
    -- the text starts with a digit
    obtain ⟨ch, digits, hdigits⟩ : ∃ ch digits, Nat.toDigits 10 v.natAbs = ch :: digits :=
      List.exists_cons_of_ne_nil (by simp)
    have hdigit : (Digits.digitValue ch).isSome = true :=
      Digits.isSome_digitValue_of_mem_toDigits (by decide) (by decide)
        (hdigits.symm ▸ List.mem_cons_self)
    have hne (c : Char) (hc : Digits.digitValue c = none) : ch ≠ c := by
      rintro rfl
      rw [hc] at hdigit
      cases hdigit
    have hblank : ¬ (ch = ' ' ∨ ch = '\t') := fun h => h.elim (hne _ rfl) (hne _ rfl)
    have hsign : ¬ (some ch = some '-' ∨ some ch = some '+') := by
      simpa using ⟨hne '-' rfl, hne '+' rfl⟩
    rw [hdigits] at hloop ⊢
    simp only [atoi, List.dropWhile_cons, hblank, decide_false, Bool.false_eq_true, if_false,
      List.head?_cons, hsign, hloop]
    rw [if_neg fun h => hsign (.inl h), s32_of_range (by omega) (by omega)]
    omega

/-! ## Printing -/

theorem modWidth_nil : modWidth [] = 0 := rfl

/-- A conversion without modifiers prints the sign and the digits. -/
theorem printed_plain (w : ℕ) : printed [] .d w = Conversion.d.sign w ++ Conversion.d.digits w := by
  have hzero : ¬ modZero [] := nofun
  have hprefix : Conversion.d.basePrefix (decide ('#' ∈ [])) = [] := rfl
  rw [printed, layout, if_neg (by simp), if_neg hzero, modWidth_nil, Nat.zero_sub,
    List.replicate_zero, List.nil_append, hprefix, List.append_nil]

section Room

variable {κ : Type} (send : κ → List Char → κ)

theorem pfFillIf_returns (p : Prop) [Decidable p] (spc : ℤ) (pf : PF κ) :
    Meets (pfFillIf send p spc) (fun _ _ => True) (fun _ _ => False) pf := by
  rw [pfFillIf, meets_ite]
  refine ⟨fun _ => ?_, fun _ => trivial⟩
  rw [pfFill, meets_bind]
  exact Meets.forRange (fun _ _ => True) trivial fun _ _ _ _ _ => trivial

theorem pfPrintstuff_returns (pre pre2 stuff : List Char) (pf : PF κ) :
    Meets (pfPrintstuff send pre pre2 stuff) (fun _ _ => True) (fun _ _ => False) pf := by
  simp only [pfPrintstuff, meets_bind, meets_gets]
  refine (pfFillIf_returns send _ _ _).imp fun _ _ _ => ?_
  refine (pfFillIf_returns send _ _ _).imp fun _ _ _ => ?_
  exact pfFillIf_returns send _ _ _

/-- The digits of a word fit into the buffer. -/
theorem pfPrintnum_returns {pf : PF κ} (hnum : pf.num < 4294967296)
    (hbase : pf.base = 8 ∨ pf.base = 10 ∨ pf.base = 16) :
    Meets (pfPrintnum send) (fun _ _ => True) (fun _ _ => False) pf := by
  have hroom : pf.num < pf.base ^ (numberBufSize - 1) := by
    refine hnum.trans_le ?_
    rcases hbase with h | h | h <;> rw [h] <;> decide
  have hsize : numberBufSize - 1 ≤
      ((List.replicate numberBufSize ' ').set (numberBufSize - 1) '\x00').length := by decide
  obtain ⟨buf, x, hloop, -⟩ :=
    printnumLoop_eq (κ := κ) (by omega) (by omega) (by decide) hsize hroom
  simp only [pfPrintnum, meets_bind, meets_gets]
  exact Meets.of_eq_ok (hloop pf) (pfPrintstuff_returns send _ _ _ _)

end Room

/-- **Printing and reading numbers.** What `%d` prints for a signed word is read back by `atoi` as
that number; and `__pf_printnum` keeps within its buffer for every word in each of its bases. -/
theorem decimal_round_trip :
    (∀ (strings : ℕ → Option (List Char)) (n : BitVec 32) (ap : List ℕ),
      ∃ text, expansion strings "%d".toList (n.toNat :: ap) = some text ∧ atoi text = n.toInt) ∧
    ∀ (κ : Type) (send : κ → List Char → κ) (pf : PF κ) (n : BitVec 32) (base : ℕ),
      base = 8 ∨ base = 10 ∨ base = 16 →
        ∃ pf', pfPrintnum send { pf with num := n.toNat, base := base } = .ok () pf' := by
  constructor
  · intro strings n ap
    have hrange : -2147483648 ≤ n.toInt ∧ n.toInt < 2147483648 :=
      ⟨BitVec.le_toInt n, BitVec.toInt_lt⟩
    have hvalue : Conversion.d.value n.toNat = n.toInt := by
      have hlt := n.isLt
      rw [BitVec.toInt_eq_toNat_cond, Conversion.value, if_pos rfl, s32]
      split <;> omega
    have hprinted : printed [] .d n.toNat =
        (if n.toInt < 0 then "-".toList else []) ++ Nat.toDigits 10 n.toInt.natAbs := by
      rw [printed_plain, Conversion.sign, Conversion.digits, hvalue, Conversion.base]
    have hmods : ∀ ch ∈ ([] : List Char), ch ∈ modifiers := by simp
    refine ⟨_, expansion_conversion hmods (by rw [modWidth_nil]; omega) .d n.toNat ap, ?_⟩
    rw [hprinted]
    exact atoi_sign_toDigits _ hrange.1 hrange.2
  · intro κ send pf n base hbase
    have hnum : n.toNat < 4294967296 := n.isLt
    have hreturns : Meets (pfPrintnum send) (fun _ _ => True) (fun _ _ => False)
        { pf with num := n.toNat, base := base } := pfPrintnum_returns send hnum hbase
    obtain ⟨⟨⟩, pf', hrun, -⟩ := hreturns.exists_ok
    exact ⟨pf', hrun⟩

/-- The most negative number is its own negation as a word. -/
theorem decimal_round_trip_most_negative :
    (∃ text, expansion (fun _ => none) "%d".toList [0x80000000] = some text ∧
      atoi text = -2147483648) ∧
    ∃ pf', pfPrintnum (fun out text => out ++ text)
      { PF.start ([] : List Char) [] with num := 0xffffffff, base := 8 } = .ok () pf' :=
  ⟨decimal_round_trip.1 (fun _ => none) 0x80000000#32 [],
    decimal_round_trip.2 _ _ _ 0xffffffff#32 8 (.inl rfl)⟩

end Os161.Printf
