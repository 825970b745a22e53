import Mathlib.Tactic

/-!
# Positional notation

Reading a number back from its digits. `Nat.toDigits` writes a number with its shortest sequence of
digits; `readFrom` goes over a sequence from the left, from a given value on, and fails at a
character that is not a digit of the base. Leading zeros are read over, and each zero at the end
multiplies by the base.
-/

namespace Digits

/-- The value of a digit, in bases up to 16. -/
def digitValue (c : Char) : Option ℕ :=
  if '0' ≤ c ∧ c ≤ '9' then some (c.toNat - '0'.toNat)
  else if 'a' ≤ c ∧ c ≤ 'f' then some (c.toNat - 'a'.toNat + 10)
  else none

theorem digitValue_digitChar {d : ℕ} (hd : d < 16) : digitValue (Nat.digitChar d) = some d := by
  interval_cases d <;> rfl

/-- Go on from the value `v` with one more digit. -/
def step (b v : ℕ) (c : Char) : Option ℕ :=
  match digitValue c with
  | none => none
  | some d => if d < b then some (v * b + d) else none

/-- Go on from the value `v` with the digits `l`. -/
def readFrom (b v : ℕ) (l : List Char) : Option ℕ := l.foldlM (step b) v

/-- The value of a sequence of digits; there is at least one. -/
def read (b : ℕ) (l : List Char) : Option ℕ := if l = [] then none else readFrom b 0 l

variable {b : ℕ}

theorem step_digitChar (hb : b ≤ 16) {d : ℕ} (hd : d < b) (v : ℕ) :
    step b v (Nat.digitChar d) = some (v * b + d) := by
  rw [step, digitValue_digitChar (hd.trans_le hb)]
  exact if_pos hd

theorem readFrom_append (v : ℕ) (l r : List Char) :
    readFrom b v (l ++ r) = (readFrom b v l).bind fun v' => readFrom b v' r :=
  List.foldlM_append

theorem readFrom_singleton (v : ℕ) (c : Char) : readFrom b v [c] = step b v c := by
  simp [readFrom]

/-- Digits shift what is before them and add their number. -/
theorem readFrom_toDigits (hb : 1 < b) (hb' : b ≤ 16) (v n : ℕ) :
    readFrom b v (Nat.toDigits b n) = some (v * b ^ (Nat.toDigits b n).length + n) := by
  induction n using Nat.strong_induction_on with
  | _ n ih =>
    by_cases hn : n < b
    · rw [Nat.toDigits_of_lt_base hn, readFrom_singleton, step_digitChar hb' hn,
        List.length_singleton, pow_one]
    · have hdiv : n / b < n := Nat.div_lt_self (by omega) hb
      rw [Nat.toDigits_of_base_le hb (not_lt.mp hn), readFrom_append, ih _ hdiv, Option.bind_some,
        readFrom_singleton, step_digitChar hb' (Nat.mod_lt _ (by omega)), List.length_append,
        List.length_singleton, pow_succ, add_mul, mul_assoc, add_assoc, mul_comm (n / b),
        Nat.div_add_mod]

theorem readFrom_zeros (hb : 1 < b) (hb' : b ≤ 16) (v k : ℕ) :
    readFrom b v (List.replicate k '0') = some (v * b ^ k) := by
  induction k generalizing v with
  | zero => simp [readFrom]
  | succ k ih =>
    have hstep : step b v '0' = some (v * b) := step_digitChar hb' (d := 0) (by omega) v
    rw [List.replicate_succ, ← List.singleton_append, readFrom_append, readFrom_singleton, hstep,
      Option.bind_some, ih, mul_assoc, pow_succ']

/-- The characters of a number are digits. -/
theorem isSome_digitValue_of_mem_toDigits (hb : 1 < b) (hb' : b ≤ 16) {n : ℕ} {c : Char}
    (hc : c ∈ Nat.toDigits b n) : (digitValue c).isSome := by
  induction n using Nat.strong_induction_on with
  | _ n ih =>
    by_cases hn : n < b
    · rw [Nat.toDigits_of_lt_base hn, List.mem_singleton] at hc
      rw [hc, digitValue_digitChar (hn.trans_le hb')]
      rfl
    · rw [Nat.toDigits_of_base_le hb (not_lt.mp hn), List.mem_append, List.mem_singleton] at hc
      rcases hc with hc | rfl
      · exact ih _ (Nat.div_lt_self (by omega) hb) hc
      · rw [digitValue_digitChar ((Nat.mod_lt _ (by omega)).trans_le hb')]
        rfl

/-- A number with leading zeros. -/
theorem read_zeros_toDigits (hb : 1 < b) (hb' : b ≤ 16) (k n : ℕ) :
    read b (List.replicate k '0' ++ Nat.toDigits b n) = some n := by
  rw [read, if_neg, readFrom_append, readFrom_zeros hb hb', Option.bind_some,
    readFrom_toDigits hb hb', zero_mul, zero_mul, zero_add]
  simp

/-- A number followed by zeros. -/
theorem read_toDigits_zeros (hb : 1 < b) (hb' : b ≤ 16) (k n : ℕ) :
    read b (Nat.toDigits b n ++ List.replicate k '0') = some (n * b ^ k) := by
  rw [read, if_neg, readFrom_append, readFrom_toDigits hb hb', Option.bind_some,
    readFrom_zeros hb hb', zero_mul, zero_add]
  simp

end Digits
