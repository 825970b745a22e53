import Mathlib.Data.Bool.AllAny
import Os161.Common.Digits
import Os161.Libc.Printf

/-!
# Formatted numbers

What one conversion of a number prints. The modifiers are read as a manual would describe them
(`modWidth`, `modZero` and whether `#` and `-` occur); `printed` is the text for them, and
`expansion_conversion` says that this is what the code sends.

The text is to be read back as a sign, a base prefix and digits, spaces ignored. That goes well but
for one combination: with `-` the padding is on the right, with a leading zero it consists of zeros,
and zeros behind the last digit make another number of it.
-/

namespace Os161.Printf

open Prog

/-! ## Modifiers and conversions -/

/-- The characters between the percent sign and the type. -/
def modifiers : List Char := "#-ql0123456789".toList

/-- The field width: the digits among the modifiers, as a decimal number. -/
def modWidth (mods : List Char) : ℕ := Nat.ofDigitChars 10 (mods.filter Char.isDigit) 0

/-- The field width has a leading zero. -/
def modZero (mods : List Char) : Prop := (mods.filter Char.isDigit).head? = some '0'

instance modZero.decidable (mods : List Char) : Decidable (modZero mods) :=
  inferInstanceAs (Decidable (_ = _))

/-- The conversions of integers. -/
inductive Conversion where
  | d
  | u
  | x
  | o
  | p
  deriving DecidableEq, Repr

namespace Conversion

def char : Conversion → Char
  | d => 'd'
  | u => 'u'
  | x => 'x'
  | o => 'o'
  | p => 'p'

def base : Conversion → ℕ
  | d => 10
  | u => 10
  | x => 16
  | o => 8
  | p => 16

/-- The argument, from the word that is passed. -/
def value (c : Conversion) (w : ℕ) : ℤ := if c = d then s32 w else u32 w

/-- The prefix for the base; it is asked for with `#` and always there for pointers. -/
def basePrefix (c : Conversion) (alt : Bool) : List Char :=
  if alt = true ∨ c = p then
    if c.base = 16 then "0x".toList else if c.base = 8 then "0".toList else []
  else []

def sign (c : Conversion) (w : ℕ) : List Char := if c.value w < 0 then "-".toList else []

/-- The shortest digits. -/
def digits (c : Conversion) (w : ℕ) : List Char := Nat.toDigits c.base (c.value w).natAbs

/-- The text without padding. -/
def naturalText (c : Conversion) (alt : Bool) (w : ℕ) : List Char :=
  c.sign w ++ c.basePrefix alt ++ c.digits w

theorem one_lt_base (c : Conversion) : 1 < c.base := by cases c <;> decide

theorem base_le (c : Conversion) : c.base ≤ 16 := by cases c <;> decide

theorem natAbs_value_lt (c : Conversion) (w : ℕ) : (c.value w).natAbs < 4294967296 := by
  unfold value
  split
  · unfold s32
    omega
  · exact u32_lt w

end Conversion

/-- A text with its padding. -/
def layout (left zero : Prop) [Decidable left] [Decidable zero] (width : ℕ) (pre stuff : List Char) :
    List Char :=
  let pad := List.replicate (width - (pre.length + stuff.length)) (if zero then '0' else ' ')
  if left then pre ++ stuff ++ pad
  else if zero then pre ++ pad ++ stuff
  else pad ++ pre ++ stuff

/-- What a conversion prints. -/
def printed (mods : List Char) (c : Conversion) (w : ℕ) : List Char :=
  layout ('-' ∈ mods) (modZero mods) (modWidth mods)
    (c.sign w ++ c.basePrefix (decide ('#' ∈ mods))) (c.digits w)

/-! ## The modifiers -/

variable {text : List Char} {ap : List ℕ} {count : ℤ} {mods : List Char}
  {strings : ℕ → Option (List Char)}

theorem modWidth_append (mods : List Char) (ch : Char) :
    modWidth (mods ++ [ch]) =
      if ch.isDigit then 10 * modWidth mods + (ch.toNat - '0'.toNat) else modWidth mods := by
  unfold modWidth
  rw [List.filter_append, Nat.ofDigitChars_append]
  cases hch : ch.isDigit <;> simp [hch, Nat.ofDigitChars]

theorem modWidth_le_append (mods rest : List Char) : modWidth mods ≤ modWidth (mods ++ rest) := by
  induction rest generalizing mods with
  | nil => rw [List.append_nil]
  | cons ch rest ih =>
    have hstep := modWidth_append mods ch
    have hrest := ih (mods ++ [ch])
    rw [List.append_assoc, List.singleton_append] at hrest
    split at hstep <;> omega

/-- Further digits do not make a number smaller. -/
theorem le_ofDigitChars (l : List Char) (v : ℕ) : v ≤ Nat.ofDigitChars 10 l v := by
  induction l generalizing v with
  | nil => exact le_rfl
  | cons c l ih =>
    have hstep : v ≤ 10 * v + (c.toNat - '0'.toNat) := by omega
    exact hstep.trans (ih _)

/-- Once there was a digit, a width of zero means that it was a zero. -/
theorem modZero_of_width (hw : modWidth mods = 0) (hne : mods.filter Char.isDigit ≠ []) :
    modZero mods := by
  unfold modWidth at hw
  unfold modZero
  cases hdigits : mods.filter Char.isDigit with
  | nil => exact absurd hdigits hne
  | cons c cs =>
    have hc : c.isDigit = true := (List.mem_filter.mp (hdigits ▸ List.mem_cons_self)).2
    have hle := le_ofDigitChars cs (10 * 0 + (c.toNat - '0'.toNat))
    have hlow : '0'.toNat ≤ c.toNat := by
      simp only [Char.isDigit, Bool.and_eq_true, decide_eq_true_eq] at hc
      exact hc.1
    rw [hdigits] at hw
    have hzero : c.toNat = '0'.toNat := by
      have : Nat.ofDigitChars 10 cs (10 * 0 + (c.toNat - '0'.toNat)) = 0 := hw
      omega
    rw [List.head?_cons, Char.toNat_inj.mp hzero]

theorem modZero_append (mods : List Char) (ch : Char) :
    modZero (mods ++ [ch]) ↔ modZero mods ∨ ch = '0' ∧ modWidth mods = 0 := by
  by_cases hnone : mods.filter Char.isDigit = []
  · have hw : modWidth mods = 0 := by
      rw [modWidth, hnone]
      rfl
    have hzero : ¬ modZero mods := by
      rw [modZero, hnone]
      decide
    simp only [hw, hzero, false_or, and_true]
    rw [modZero, List.filter_append, hnone, List.nil_append, List.filter_singleton]
    constructor
    · intro hhead
      cases hch : ch.isDigit with
      | true =>
        rw [hch] at hhead
        exact Option.some.inj hhead
      | false =>
        rw [hch] at hhead
        cases hhead
    · rintro rfl
      rfl
  · have hkeep : modZero (mods ++ [ch]) ↔ modZero mods := by
      rw [modZero, modZero, List.filter_append, List.head?_append_of_ne_nil _ hnone]
    rw [hkeep]
    exact ⟨.inl, fun h => h.elim id fun h => modZero_of_width h.2 hnone⟩

/-- The state in a field, after the modifiers. -/
def field (text : List Char) (ap : List ℕ) (count : ℤ) (mods : List Char) : PF (List Char) where
  clientdata := text
  ap := ap
  charcount := count
  inPct := true
  size := if 'l' ∈ mods ∨ 'q' ∈ mods then .longsz else .intsz
  num := 0
  sign := 0
  spacing := modWidth mods
  rightspc := decide ('-' ∈ mods)
  fillchar := if modZero mods then '0' else ' '
  base := 0
  basePrefix := false
  altformat := decide ('#' ∈ mods)

theorem modifiers_cases : ∀ ch ∈ modifiers,
    ch = '#' ∨ ch = '-' ∨ ch = 'q' ∨ ch = 'l' ∨ ch = '0' ∨ '0' < ch ∧ ch ≤ '9' :=
  List.all_iff_forall_prop.mp (by decide)

theorem pfModifier_field {ch : Char} (hch : ch ∈ modifiers)
    (hw : modWidth (mods ++ [ch]) < 2147483648) :
    pfModifier ch (field text ap count mods) = .ok () (field text ap count (mods ++ [ch])) := by
  rcases modifiers_cases ch hch with rfl | rfl | rfl | rfl | rfl | ⟨hlo, hhi⟩
  · simp [pfModifier, field, modWidth_append, modZero_append, Prog.modify]
  · simp [pfModifier, field, modWidth_append, modZero_append, Prog.modify]
  · simp [pfModifier, field, modWidth_append, modZero_append, Prog.modify]
  · simp [pfModifier, field, modWidth_append, modZero_append, Prog.modify]
  · have hstep := modWidth_append mods '0'
    rw [if_pos (by decide), Nat.sub_self, add_zero] at hstep
    have hspacing : s32 ((modWidth mods : ℤ) * 10) = (modWidth (mods ++ ['0']) : ℕ) := by
      rw [hstep, s32_of_range (by omega) (by omega)]
      push_cast
      ring
    by_cases hpos : 0 < modWidth mods
    · have hne : modWidth mods ≠ 0 := hpos.ne'
      simp [pfModifier, field, modZero_append, bind, Prog.bind, Prog.gets, Prog.modify, hpos, hne,
        hspacing]
    · have hzero : modWidth mods = 0 := by omega
      simp [pfModifier, field, modZero_append, bind, Prog.bind, Prog.gets, Prog.modify, hzero, hstep]
  · have hne : ∀ c : Char, ¬ ('0' < c ∧ c ≤ '9') → ch ≠ c := by
      rintro c hc rfl
      exact hc ⟨hlo, hhi⟩
    have hdigit : ch.isDigit = true := by
      simp only [Char.isDigit, Bool.and_eq_true, decide_eq_true_eq]
      exact ⟨UInt32.le_of_lt (Char.lt_def.mp hlo), Char.le_def.mp hhi⟩
    have hstep := modWidth_append mods ch
    rw [if_pos hdigit] at hstep
    have hspacing : s32 ((modWidth mods : ℤ) * 10 + (ch.toNat - 48 : ℕ)) =
        (modWidth (mods ++ [ch]) : ℕ) := by
      have hzero : '0'.toNat = 48 := rfl
      rw [hzero] at hstep
      rw [s32_of_range (by omega) (by omega)]
      omega
    have h1 := hne '#' (by decide)
    have h2 := hne '-' (by decide)
    have h3 := hne 'l' (by decide)
    have h4 := hne 'q' (by decide)
    have h5 := hne '0' (by decide)
    simp [pfModifier, field, modZero_append, bind, Prog.bind, Prog.gets, Prog.modify, Prog.require,
      pure, h1, h2, h3, h4, h5, h1.symm, h2.symm, h3.symm, h4.symm, hlo, hhi, hspacing]

/-! ## Printing -/

/-- Wherever the session is, `m` sends the text `txt` and leaves the rest of the state as it is. -/
def Sends (m : PfM (List Char) Unit) (pf : PF (List Char)) (txt : List Char) : Prop :=
  ∀ text count, ∃ count', m { pf with clientdata := text, charcount := count } =
    .ok () { pf with clientdata := text ++ txt, charcount := count' }

section Sends

variable {pf : PF (List Char)} {m m' : PfM (List Char) Unit} {txt txt' : List Char}

theorem Sends.nothing : Sends (pure ()) pf [] := by
  intro text count
  rw [List.append_nil]
  exact ⟨count, rfl⟩

theorem Sends.andThen (h : Sends m pf txt) (h' : Sends m' pf txt') :
    Sends (m >>= fun _ => m') pf (txt ++ txt') := by
  intro text count
  obtain ⟨count₁, hm⟩ := h text count
  obtain ⟨count₂, hm'⟩ := h' (text ++ txt) count₁
  refine ⟨count₂, ?_⟩
  show Prog.bind m (fun _ => m') _ = _
  rw [Prog.bind, hm, ← List.append_assoc]
  exact hm'

/-- A step that only looks at the state, and not at what has been sent. -/
theorem Sends.after {α : Type} {q : PfM (List Char) α} {a : α} {k : α → PfM (List Char) Unit}
    (hq : ∀ text count, q { pf with clientdata := text, charcount := count } =
      .ok a { pf with clientdata := text, charcount := count }) (h : Sends (k a) pf txt) :
    Sends (q >>= k) pf txt := by
  intro text count
  obtain ⟨count', hk⟩ := h text count
  refine ⟨count', ?_⟩
  show Prog.bind q k _ = _
  rw [Prog.bind, hq]
  exact hk

theorem pfPrint_sends (txt : List Char) : Sends (pfPrint collect txt) pf txt :=
  fun _ _ => ⟨_, rfl⟩

theorem pfFill_sends (spc : ℤ) :
    Sends (pfFill collect spc) pf (List.replicate spc.toNat pf.fillchar) := by
  refine Sends.after (fun _ _ => rfl) ?_
  have hloop : ∀ n start, Sends (forRange (fun _ => pfPrint collect [pf.fillchar]) n start) pf
      (List.replicate n pf.fillchar) := by
    intro n
    induction n with
    | zero => exact fun _ => Sends.nothing
    | succ n ih => exact fun start => (pfPrint_sends _).andThen (ih (start + 1))
  exact hloop _ _

theorem pfFillIf_sends (p : Prop) [Decidable p] (spc : ℤ) :
    Sends (pfFillIf collect p spc) pf (if p then List.replicate spc.toNat pf.fillchar else []) := by
  unfold pfFillIf
  split
  · exact pfFill_sends spc
  · exact Sends.nothing

/-- The order in which `__pf_printstuff` prints the parts. -/
theorem layout_eq (left : Bool) {fill : Char} (hfill : fill = '0' ∨ fill = ' ') (width : ℕ)
    (pre pre2 stuff : List Char) {spc : ℤ}
    (hspc : spc = ((width - (pre.length + pre2.length + stuff.length) : ℕ) : ℤ)) :
    layout (left = true) (fill = '0') width (pre ++ pre2) stuff =
      (if spc > 0 ∧ left = false ∧ fill ≠ '0' then List.replicate spc.toNat fill else []) ++
        (pre ++ (pre2 ++
          ((if spc > 0 ∧ left = false ∧ fill = '0' then List.replicate spc.toNat fill else []) ++
            (stuff ++ if spc > 0 ∧ left = true then List.replicate spc.toNat fill else [])))) := by
  obtain ⟨pad, hpad⟩ : ∃ pad, pad = width - (pre.length + pre2.length + stuff.length) := ⟨_, rfl⟩
  rw [layout, List.length_append, ← hpad]
  rw [← hpad] at hspc
  subst hspc
  rcases Nat.eq_zero_or_pos pad with rfl | hpos
  · cases left <;> simp
  · cases left <;> rcases hfill with rfl | rfl <;> simp [hpos]

/-- The padding is where and what the flags say. -/
theorem pfPrintstuff_sends {width : ℕ} (hwidth : pf.spacing = width) (hsmall : width < 2147483648)
    (hfill : pf.fillchar = '0' ∨ pf.fillchar = ' ') (pre pre2 stuff : List Char)
    (hlen : pre.length + pre2.length + stuff.length < 2147483648) :
    Sends (pfPrintstuff collect pre pre2 stuff) pf
      (layout (pf.rightspc = true) (pf.fillchar = '0') width (pre ++ pre2) stuff) := by
  have hspc : (if pf.spacing > s32 (pre.length + pre2.length + stuff.length : ℕ) then
      s32 (pf.spacing - s32 (pre.length + pre2.length + stuff.length : ℕ)) else 0) =
      ((width - (pre.length + pre2.length + stuff.length) : ℕ) : ℤ) := by
    rw [hwidth, s32_of_range (by omega) (by omega)]
    split
    · rw [s32_of_range (by omega) (by omega)]
      omega
    · omega
  rw [layout_eq _ hfill _ _ _ _ hspc]
  refine Sends.after (fun _ _ => rfl) (Sends.after (fun _ _ => rfl) (Sends.after (fun _ _ => rfl) ?_))
  refine (pfFillIf_sends _ _).andThen ((pfPrint_sends _).andThen ((pfPrint_sends _).andThen ?_))
  exact (pfFillIf_sends _ _).andThen ((pfPrint_sends _).andThen (pfFillIf_sends _ _))

end Sends

/-! ## Digits -/

theorem digits_getD : ∀ d < 16, digits.getD d '\x00' = Nat.digitChar d := by
  decide

/-- The loop puts the digits in front of what is in the buffer. -/
theorem printnumLoop_eq {κ : Type} {b : ℕ} (hb : 1 < b) (hb' : b ≤ 16) {k n : ℕ}
    {buf : List Char} (hk : 0 < k) (hbuf : k ≤ buf.length) (hn : n < b ^ k) :
    ∃ buf' x, (∀ pf : PF κ, printnumLoop b k n buf pf = .ok (buf', x) pf) ∧
      buf'.drop x = Nat.toDigits b n ++ buf.drop k := by
  induction k generalizing n buf with
  | zero => omega
  | succ k ih =>
    have hmod : n % b < 16 := (Nat.mod_lt _ (by omega)).trans_le hb'
    have hstore : (buf.set k (Nat.digitChar (n % b))).drop k =
        Nat.digitChar (n % b) :: buf.drop (k + 1) := by
      rw [List.drop_eq_getElem_cons (by rw [List.length_set]; omega), List.getElem_set_self,
        List.drop_set_of_lt (by omega)]
    have hstep : ∀ pf : PF κ, printnumLoop b (k + 1) n buf pf =
        (if n / b > 0 then printnumLoop b k (n / b) (buf.set k (Nat.digitChar (n % b)))
          else pure (buf.set k (Nat.digitChar (n % b)), k)) pf := by
      intro pf
      rw [← digits_getD _ hmod, printnumLoop]
      show Prog.bind (require (n % b < 16) _) _ pf = _
      rw [Prog.bind, require, if_pos hmod]
      rfl
    by_cases hlast : n < b
    · have hdiv : n / b = 0 := Nat.div_eq_of_lt hlast
      refine ⟨_, k, fun pf => by rw [hstep, if_neg (by omega)]; rfl, ?_⟩
      rw [hstore, Nat.toDigits_of_lt_base hlast, Nat.mod_eq_of_lt hlast]
      rfl
    · have hdiv : 0 < n / b := Nat.div_pos (not_lt.mp hlast) (by omega)
      have hless : n / b < b ^ k := by
        rw [pow_succ] at hn
        exact Nat.div_lt_of_lt_mul (by rwa [mul_comm])
      have hk' : 0 < k := by
        by_contra hzero
        obtain rfl : k = 0 := by omega
        rw [pow_zero] at hless
        omega
      have hbuf' : k ≤ (buf.set k (Nat.digitChar (n % b))).length := by
        rw [List.length_set]
        omega
      obtain ⟨buf', x, hrun, hdrop⟩ := ih hk' hbuf' hless
      refine ⟨buf', x, fun pf => by rw [hstep, if_pos hdiv]; exact hrun pf, ?_⟩
      rw [hdrop, hstore, Nat.toDigits_of_base_le hb (not_lt.mp hlast), List.append_assoc,
        List.singleton_append]

/-- The digits of a word fit into the buffer, in the three bases. -/
theorem lt_base_pow (c : Conversion) {n : ℕ} (hn : n < 4294967296) :
    n < c.base ^ (numberBufSize - 1) := by
  have hpow : 4294967296 ≤ c.base ^ (numberBufSize - 1) := by cases c <;> decide
  omega

/-- A digit is not a NUL. -/
theorem cString_toDigits (c : Conversion) (n : ℕ) (r : List Char) :
    cString (Nat.toDigits c.base n ++ '\x00' :: r) = Nat.toDigits c.base n := by
  have hall : ∀ ch ∈ Nat.toDigits c.base n, decide (ch ≠ '\x00') = true := by
    intro ch hch
    refine decide_eq_true fun hnul => ?_
    have := Digits.isSome_digitValue_of_mem_toDigits c.one_lt_base c.base_le hch
    rw [hnul] at this
    exact absurd this (by decide)
  rw [cString, List.takeWhile_append_of_pos hall, List.takeWhile_cons_of_neg (by decide),
    List.append_nil]

/-- The state when the number has been fetched and the base set. -/
def fetched (text : List Char) (ap : List ℕ) (count : ℤ) (mods : List Char) (c : Conversion)
    (w : ℕ) : PF (List Char) :=
  { field text ap count mods with
    num := (c.value w).natAbs
    sign := if c.value w < 0 then -1 else 0
    base := c.base
    basePrefix := decide ('#' ∈ mods ∨ c = .p) }

theorem char_eq_d {c : Conversion} : c.char = 'd' ↔ c = .d := by cases c <;> decide

theorem char_eq_p {c : Conversion} : c.char = 'p' ↔ c = .p := by cases c <;> decide

theorem pfGetnum_field (c : Conversion) (w : ℕ) :
    Meets (pfGetnum c.char) (fun _ pf => pf = { field text ap count mods with
        num := (c.value w).natAbs, sign := if c.value w < 0 then -1 else 0 })
      (fun _ _ => False) (field text (w :: ap) count mods) := by
  have hunsigned : c ≠ .d → (c.value w).natAbs = u32 w ∧ ¬ c.value w < 0 := by
    intro hc
    rw [Conversion.value, if_neg hc, Int.natAbs_natCast]
    omega
  have hsigned : c = .d → c.value w = s32 w := fun hc => if_pos hc
  simp only [pfGetnum, vaArg, meets_bind, meets_gets, field, meets_modify, meets_pure, meets_ite,
    char_eq_d, char_eq_p]
  refine ⟨fun hp => ?_, fun _ => ⟨fun hd => ⟨fun hneg => ?_, fun hneg => ?_⟩, fun hd => ?_⟩⟩
  · have hu := hunsigned (by rw [hp]; decide)
    rw [hu.1, if_neg hu.2]
  · rw [hsigned hd, if_pos hneg]
    have hnum : u32 (-s32 w) = (s32 w).natAbs := by
      unfold s32 u32 at *
      omega
    rw [hnum]
  · rw [hsigned hd, if_neg hneg]
    have hnum : u32 (s32 w) = (s32 w).natAbs := by
      unfold s32 u32 at *
      omega
    rw [hnum]
  · have hu := hunsigned hd
    rw [hu.1, if_neg hu.2]

theorem pfSetbase_spec (c : Conversion) (pf : PF (List Char)) (h : pf.basePrefix = false) :
    Meets (pfSetbase c.char) (fun _ pf' => pf' = { pf with
        base := c.base, basePrefix := decide (pf.altformat = true ∨ c = .p) })
      (fun _ _ => False) pf := by
  have hbase : (if c.char = 'd' ∨ c.char = 'u' then 10 else if c.char = 'x' ∨ c.char = 'p' then 16
      else if c.char = 'o' then 8 else pf.base) = c.base := by cases c <;> rfl
  simp only [pfSetbase, meets_bind, meets_modify, meets_gets, meets_ite, meets_pure, hbase]
  rw [char_eq_p]
  refine ⟨fun halt => ?_, fun halt => ?_⟩
  · rw [decide_eq_true halt]
  · rw [decide_eq_false halt, ← h]

theorem layout_congr {left left' zero zero' : Prop} [Decidable left] [Decidable left']
    [Decidable zero] [Decidable zero'] (hleft : left ↔ left') (hzero : zero ↔ zero') (width : ℕ)
    (pre stuff : List Char) : layout left zero width pre stuff = layout left' zero' width pre stuff := by
  simp only [layout, hleft, hzero]

theorem signText_eq (c : Conversion) (w : ℕ) :
    (if (if c.value w < 0 then -1 else 0 : ℤ) ≠ 0 then "-".toList else []) = c.sign w := by
  unfold Conversion.sign
  split <;> rfl

theorem prefixText_eq (c : Conversion) (mods : List Char) :
    (if decide ('#' ∈ mods ∨ c = .p) = true ∧ c.base = 16 then "0x".toList
      else if decide ('#' ∈ mods ∨ c = .p) = true ∧ c.base = 8 then "0".toList else []) =
      c.basePrefix (decide ('#' ∈ mods)) := by
  unfold Conversion.basePrefix
  by_cases halt : '#' ∈ mods ∨ c = .p
  · simp only [halt, decide_true, true_and, decide_eq_true_eq, if_true]
  · simp only [halt, decide_false, false_and, decide_eq_true_eq, if_false, Bool.false_eq_true]

theorem pfPrintnum_sends (c : Conversion) (w : ℕ) (hw : modWidth mods < 2147483648) :
    Sends (pfPrintnum collect) (fetched text ap count mods c w) (printed mods c w) := by
  have hsize : numberBufSize - 1 ≤
      ((List.replicate numberBufSize ' ').set (numberBufSize - 1) '\x00').length := by decide
  have hn := lt_base_pow c (c.natAbs_value_lt w)
  obtain ⟨buf, x, hloop, hdrop⟩ :=
    printnumLoop_eq (κ := List Char) c.one_lt_base c.base_le (by decide) hsize hn
  have hdigits : cString (buf.drop x) = c.digits w := by
    rw [hdrop]
    exact cString_toDigits c _ _
  have hlen : (c.sign w).length + (c.basePrefix (decide ('#' ∈ mods))).length +
      (c.digits w).length < 2147483648 := by
    have hdigits : (c.digits w).length ≤ numberBufSize - 1 :=
      (Nat.length_toDigits_le_iff c.one_lt_base (by decide)).mpr hn
    have hsign : (c.sign w).length ≤ 1 := by
      unfold Conversion.sign
      split <;> decide
    have hpre : (c.basePrefix (decide ('#' ∈ mods))).length ≤ 2 := by
      unfold Conversion.basePrefix
      split
      · cases c <;> decide
      · decide
    have hbuf : numberBufSize = 12 := rfl
    omega
  have hfill : (fetched text ap count mods c w).fillchar = '0' ∨
      (fetched text ap count mods c w).fillchar = ' ' := by
    show (if modZero mods then '0' else ' ') = '0' ∨ (if modZero mods then '0' else ' ') = ' '
    split
    · exact .inl rfl
    · exact .inr rfl
  have hwidth : (fetched text ap count mods c w).spacing = modWidth mods := rfl
  have hstuff := pfPrintstuff_sends hwidth hw hfill (c.sign w)
    (c.basePrefix (decide ('#' ∈ mods))) (c.digits w) hlen
  have hprinted : printed mods c w = layout ((fetched text ap count mods c w).rightspc = true)
      ((fetched text ap count mods c w).fillchar = '0') (modWidth mods)
      (c.sign w ++ c.basePrefix (decide ('#' ∈ mods))) (c.digits w) := by
    refine layout_congr ?_ ?_ _ _ _
    · exact decide_eq_true_iff.symm
    · show modZero mods ↔ (if modZero mods then '0' else ' ') = '0'
      split
      case isTrue hzero => exact iff_of_true hzero rfl
      case isFalse hzero => exact iff_of_false hzero (by decide)
  rw [hprinted]
  refine Sends.after (fun _ _ => rfl) (Sends.after (fun _ _ => rfl) ?_)
  refine Sends.after (fun _ _ => hloop _) (Sends.after (fun _ _ => rfl) ?_)
  refine Sends.after (fun _ _ => rfl) ?_
  show Sends (pfPrintstuff collect
    (if (if c.value w < 0 then -1 else 0 : ℤ) ≠ 0 then "-".toList else [])
    (if decide ('#' ∈ mods ∨ c = .p) = true ∧ c.base = 16 then "0x".toList
      else if decide ('#' ∈ mods ∨ c = .p) = true ∧ c.base = 8 then "0".toList else [])
    (cString (buf.drop x))) _ _
  rw [hdigits, signText_eq, prefixText_eq]
  exact hstuff

/-- A conversion in a field prints its number. -/
theorem pfSend_conversion (c : Conversion) (w : ℕ) (hw : modWidth mods < 2147483648) :
    Meets (pfSend collect strings c.char)
      (fun _ pf => pf.clientdata = text ++ printed mods c w) (fun _ _ => False)
      (field text (w :: ap) count mods) := by
  have hnul : c.char ≠ '\x00' := by cases c <;> decide
  have hmod : c.char ∉ "#-ql0123456789".toList := by cases c <;> decide
  have htype : c.char ∈ "doupx".toList := by cases c <;> decide
  rw [pfSend, meets_bind, meets_require]
  refine ⟨hnul, ?_⟩
  rw [meets_bind, meets_gets, if_neg fun h => Bool.noConfusion h.1, if_neg Bool.noConfusion,
    if_neg hmod, if_pos htype]
  simp only [meets_bind]
  refine (pfGetnum_field c w).imp ?_
  rintro _ _ rfl
  refine (pfSetbase_spec c _ rfl).imp ?_
  rintro _ _ rfl
  have hflag : decide ((field text ap count mods).altformat = true ∨ c = .p) =
      decide ('#' ∈ mods ∨ c = .p) := by
    simp only [field, decide_eq_true_eq]
  have hsends : Sends (pfPrintnum collect) (fetched text ap count mods c w) (printed mods c w) :=
    pfPrintnum_sends c w hw
  obtain ⟨count', hrun⟩ := hsends text count
  simp only [hflag]
  refine Meets.of_eq_ok hrun ?_
  rw [pfEndfield, meets_modify]

theorem pfSend_modifier {ch : Char} (hch : ch ∈ modifiers)
    (hw : modWidth (mods ++ [ch]) < 2147483648) :
    Meets (pfSend collect strings ch) (fun _ pf => pf = field text ap count (mods ++ [ch]))
      (fun _ _ => False) (field text ap count mods) := by
  have hnul : ch ≠ '\x00' := by
    rintro rfl
    exact absurd hch (by decide)
  rw [pfSend, meets_bind, meets_require]
  refine ⟨hnul, ?_⟩
  rw [meets_bind, meets_gets, if_neg fun h => Bool.noConfusion h.1, if_neg Bool.noConfusion,
    if_pos (show ch ∈ "#-ql0123456789".toList from hch)]
  exact Meets.of_eq_ok (pfModifier_field hch hw) rfl

/-- The modifiers of a field, read one after the other. -/
theorem vprintfLoop_modifiers {rest tail : List Char} (hrest : ∀ ch ∈ rest, ch ∈ modifiers)
    (hw : modWidth (mods ++ rest) < 2147483648) {Q : Unit → PF (List Char) → Prop}
    (htail : Meets (vprintfLoop collect strings tail) Q (fun _ _ => False)
      (field text ap count (mods ++ rest))) :
    Meets (vprintfLoop collect strings (rest ++ tail)) Q (fun _ _ => False)
      (field text ap count mods) := by
  induction rest generalizing mods with
  | nil =>
    rw [List.append_nil] at htail
    exact htail
  | cons ch rest ih =>
    have hsplit : mods ++ ch :: rest = mods ++ [ch] ++ rest := by
      rw [List.append_assoc, List.singleton_append]
    have hch := hrest ch List.mem_cons_self
    have hnul : ch ≠ '\x00' := by
      rintro rfl
      exact absurd hch (by decide)
    rw [hsplit] at hw htail
    rw [List.cons_append, vprintfLoop, if_pos hnul, meets_bind]
    refine (pfSend_modifier hch ((modWidth_le_append _ rest).trans_lt hw)).imp ?_
    rintro _ _ rfl
    exact ih (fun ch' hch' => hrest ch' (List.mem_cons_of_mem _ hch')) hw htail

/-- **What one conversion prints.** -/
theorem expansion_conversion (hmods : ∀ ch ∈ mods, ch ∈ modifiers)
    (hw : modWidth mods < 2147483648) (c : Conversion) (w : ℕ) (ap : List ℕ) :
    expansion strings ('%' :: (mods ++ [c.char])) (w :: ap) = some (printed mods c w) := by
  have hnul : c.char ≠ '\x00' := by cases c <;> decide
  have hrun : Meets (vprintf collect strings ('%' :: (mods ++ [c.char])) (w :: ap))
      (fun _ text => text = printed mods c w) (fun _ _ => False) [] := by
    rw [vprintf, meets_zoom, meets_bind, pfSession, meets_bind, pfEndfield, meets_modify,
      vprintfLoop, if_pos (by decide), meets_bind, pfSend, meets_bind, meets_require]
    refine ⟨by decide, ?_⟩
    rw [meets_bind, meets_gets, if_neg fun h => h.2 rfl, if_pos rfl, meets_modify]
    show Meets _ _ _ (field [] (w :: ap) 0 [])
    have hw' : modWidth ([] ++ mods) < 2147483648 := hw
    refine vprintfLoop_modifiers hmods hw' ?_
    rw [vprintfLoop, if_pos hnul, meets_bind]
    refine (pfSend_conversion c w hw).imp fun _ pf hpf => ?_
    rw [vprintfLoop, meets_pure, meets_gets]
    exact hpf
  obtain ⟨n, text, hok, rfl⟩ := hrun.exists_ok
  rw [expansion, hok]

/-! ## Reading the number back -/

/-- Read a base prefix, if there is to be one, and digits. -/
def readUnsigned (c : Conversion) (alt : Bool) (text : List Char) : Option ℕ :=
  if c.basePrefix alt <+: text then Digits.read c.base (text.drop (c.basePrefix alt).length) else none

/-- Read a sign, a base prefix and digits. -/
def readNumber (c : Conversion) (alt : Bool) (text : List Char) : Option ℤ :=
  if text.head? = some '-' then (readUnsigned c alt text.tail).map fun n : ℕ => -(n : ℤ)
  else (readUnsigned c alt text).map fun n : ℕ => (n : ℤ)

/-- The characters that a number can be made of, but for the sign. -/
def numeral (ch : Char) : Prop := ch = 'x' ∨ (Digits.digitValue ch).isSome

theorem numeral_basePrefix (c : Conversion) (alt : Bool) : ∀ ch ∈ c.basePrefix alt, numeral ch := by
  unfold Conversion.basePrefix numeral
  split
  · cases c <;> exact List.all_iff_forall_prop.mp (by decide)
  · exact List.all_iff_forall_prop.mp (by decide)

theorem readNumber_sign_append {c : Conversion} {alt : Bool} {body : List Char} {n : ℕ} (w : ℕ)
    (hread : Digits.read c.base body = some n) (hbody : ∀ ch ∈ body, numeral ch) :
    readNumber c alt (c.sign w ++ c.basePrefix alt ++ body) =
      some (if c.value w < 0 then -(n : ℤ) else n) := by
  have hunsigned : readUnsigned c alt (c.basePrefix alt ++ body) = some n := by
    rw [readUnsigned, if_pos (List.prefix_append _ _), List.drop_left, hread]
  unfold Conversion.sign
  by_cases hneg : c.value w < 0
  · rw [if_pos hneg, if_pos hneg]
    show readNumber c alt ('-' :: (c.basePrefix alt ++ body)) = _
    rw [readNumber, if_pos List.head?_cons, List.tail_cons, hunsigned, Option.map_some]
  · rw [if_neg hneg, if_neg hneg, List.nil_append, readNumber, if_neg, hunsigned, Option.map_some]
    intro hhead
    have hmem := List.mem_of_mem_head? hhead
    have hnumeral : numeral '-' := by
      rcases List.mem_append.mp hmem with h | h
      · exact numeral_basePrefix c alt _ h
      · exact hbody _ h
    rcases hnumeral with h | h
    · exact absurd h (by decide)
    · exact absurd h (by decide)

/-- The argument is read back when the digits are those of its absolute value. -/
theorem readNumber_eq_value_iff {c : Conversion} {alt : Bool} {body : List Char} {n : ℕ} (w : ℕ)
    (hread : Digits.read c.base body = some n) (hbody : ∀ ch ∈ body, numeral ch) :
    readNumber c alt (c.sign w ++ c.basePrefix alt ++ body) = some (c.value w) ↔
      n = (c.value w).natAbs := by
  rw [readNumber_sign_append w hread hbody, Option.some_inj]
  split <;> omega

theorem numeral_digits (c : Conversion) (w : ℕ) : ∀ ch ∈ c.digits w, numeral ch := fun _ hch =>
  .inr (Digits.isSome_digitValue_of_mem_toDigits c.one_lt_base c.base_le hch)

theorem numeral_zeros (n : ℕ) : ∀ ch ∈ List.replicate n '0', numeral ch := by
  intro ch hch
  rw [List.eq_of_mem_replicate hch]
  exact .inr (by decide)

theorem space_not_numeral : ¬ numeral ' ' := by
  unfold numeral
  decide

section Layout

variable {left zero : Prop} [Decidable left] [Decidable zero] {width : ℕ} {pre stuff : List Char}

theorem length_layout :
    (layout left zero width pre stuff).length = max width (pre.length + stuff.length) := by
  unfold layout
  by_cases hleft : left
  · simp only [hleft, if_true, List.length_append, List.length_replicate]
    omega
  · by_cases hzero : zero
    · simp only [hleft, hzero, if_true, if_false, List.length_append, List.length_replicate]
      omega
    · simp only [hleft, hzero, if_false, List.length_append, List.length_replicate]
      omega

/-- Without its spaces, a text has no padding or is padded with zeros. -/
theorem filter_layout (hpre : ' ' ∉ pre) (hstuff : ' ' ∉ stuff) :
    (layout left zero width pre stuff).filter (· ≠ ' ') =
      if zero then
        if left then pre ++ (stuff ++ List.replicate (width - (pre.length + stuff.length)) '0')
        else pre ++ (List.replicate (width - (pre.length + stuff.length)) '0' ++ stuff)
      else pre ++ stuff := by
  have hkeep : ∀ l : List Char, ' ' ∉ l → l.filter (· ≠ ' ') = l := by
    intro l hl
    refine List.filter_eq_self.mpr fun ch hch => decide_eq_true ?_
    rintro rfl
    exact hl hch
  have hpad : ∀ n, (List.replicate n ' ').filter (· ≠ ' ') = [] := fun n => by simp
  have hzeros : ∀ n, (List.replicate n '0').filter (· ≠ ' ') = List.replicate n '0' := fun n => by simp
  unfold layout
  by_cases hzero : zero
  · by_cases hleft : left <;>
      simp only [hzero, hleft, if_true, if_false, List.filter_append, hkeep _ hpre, hkeep _ hstuff,
        hzeros, List.append_assoc]
  · by_cases hleft : left <;>
      simp only [hzero, hleft, if_true, if_false, List.filter_append, hkeep _ hpre, hkeep _ hstuff,
        hpad, List.append_nil, List.nil_append]

end Layout

/-- The output of one conversion has the right length and, read back without its spaces, is the
argument. -/
def Denotes (strings : ℕ → Option (List Char)) (mods : List Char) (c : Conversion) (w : ℕ)
    (ap : List ℕ) : Prop :=
  ∃ text, expansion strings ('%' :: (mods ++ [c.char])) (w :: ap) = some text ∧
    text.length = max (modWidth mods) (c.naturalText (decide ('#' ∈ mods)) w).length ∧
    readNumber c (decide ('#' ∈ mods)) (text.filter (· ≠ ' ')) = some (c.value w)

/-- **Formatted numbers denote the value**, but for one combination: left alignment with zeros as
padding, when there is padding and the argument is not zero. -/
theorem number_denotes_iff (strings : ℕ → Option (List Char)) (mods : List Char)
    (hmods : ∀ ch ∈ mods, ch ∈ modifiers) (hw : modWidth mods < 2 ^ 31) (c : Conversion) (w : ℕ)
    (ap : List ℕ) :
    Denotes strings mods c w ap ↔
      ¬ ('-' ∈ mods ∧ modZero mods ∧
        (c.naturalText (decide ('#' ∈ mods)) w).length < modWidth mods ∧ c.value w ≠ 0) := by
  obtain ⟨alt, halt⟩ : ∃ alt, alt = decide ('#' ∈ mods) := ⟨_, rfl⟩
  obtain ⟨pad, hpad⟩ : ∃ pad, pad = modWidth mods -
      ((c.sign w ++ c.basePrefix alt).length + (c.digits w).length) := ⟨_, rfl⟩
  have hnatural : (c.naturalText alt w).length =
      (c.sign w ++ c.basePrefix alt).length + (c.digits w).length := List.length_append
  have hiff : Denotes strings mods c w ap ↔
      readNumber c alt ((printed mods c w).filter (· ≠ ' ')) = some (c.value w) := by
    have hexp : expansion strings ('%' :: (mods ++ [c.char])) (w :: ap) = some (printed mods c w) :=
      expansion_conversion hmods hw c w ap
    rw [halt]
    constructor
    · rintro ⟨text, htext, -, hread⟩
      obtain rfl : printed mods c w = text := Option.some.inj (hexp.symm.trans htext)
      exact hread
    · intro hread
      refine ⟨_, hexp, ?_, hread⟩
      rw [printed, length_layout, ← halt, hnatural]
  have hpre : ' ' ∉ c.sign w ++ c.basePrefix alt := by
    intro hmem
    rcases List.mem_append.mp hmem with h | h
    · unfold Conversion.sign at h
      split at h
      · exact absurd h (by decide)
      · cases h
    · exact space_not_numeral (numeral_basePrefix c alt _ h)
  have hstuff : ' ' ∉ c.digits w := fun h => space_not_numeral (numeral_digits c w _ h)
  have hlead : ∀ k, readNumber c alt (c.sign w ++ c.basePrefix alt ++
      (List.replicate k '0' ++ c.digits w)) = some (c.value w) := by
    intro k
    have hread : Digits.read c.base (List.replicate k '0' ++ c.digits w) =
        some (c.value w).natAbs := Digits.read_zeros_toDigits c.one_lt_base c.base_le k _
    refine (readNumber_eq_value_iff w hread fun ch hch => ?_).mpr rfl
    exact (List.mem_append.mp hch).elim (numeral_zeros k ch) (numeral_digits c w ch)
  rw [hiff, printed, ← halt, filter_layout hpre hstuff, ← hpad, hnatural]
  by_cases hzero : modZero mods
  · by_cases hleft : '-' ∈ mods
    · have hread : Digits.read c.base (c.digits w ++ List.replicate pad '0') =
          some ((c.value w).natAbs * c.base ^ pad) :=
        Digits.read_toDigits_zeros c.one_lt_base c.base_le pad _
      rw [if_pos hzero, if_pos hleft, readNumber_eq_value_iff w hread fun ch hch =>
        (List.mem_append.mp hch).elim (numeral_digits c w ch) (numeral_zeros pad ch)]
      simp only [hleft, hzero, true_and, not_and, not_not]
      by_cases hvalue : c.value w = 0
      · simp [hvalue]
      · have hone := c.one_lt_base
        rw [Nat.mul_eq_left (by omega), Nat.pow_eq_one]
        constructor
        · intro h hlt
          omega
        · intro h
          exact .inr (by by_contra hne; exact hvalue (h (by omega)))
    · rw [if_pos hzero, if_neg hleft]
      exact iff_of_true (hlead pad) fun h => hleft h.1
  · rw [if_neg hzero]
    exact iff_of_true (hlead 0) fun h => hzero h.2.1

/-- A hexadecimal number with leading zeros. -/
theorem number_denotes_hex : Denotes (fun _ => none) "#010".toList .x 48879 [] :=
  (number_denotes_iff (fun _ => none) "#010".toList
    (List.all_iff_forall_prop.mp (by decide)) (by decide) .x 48879 []).mpr
    (by decide)

/-- In a field of five, left-aligned and with zeros, 42 is printed as 42000. -/
theorem number_not_denoted :
    expansion (fun _ => none) "%-05d".toList [42] = some "42000".toList ∧
      ¬ Denotes (fun _ => none) "-05".toList .d 42 [] := by
  refine ⟨by decide +kernel, ?_⟩
  rintro ⟨text, htext, -, hread⟩
  have hexp : expansion (fun _ => none) ('%' :: ("-05".toList ++ [Conversion.d.char])) [42] =
      some "42000".toList := by decide +kernel
  obtain rfl : "42000".toList = text := Option.some.inj (hexp.symm.trans htext)
  exact absurd hread (by decide +kernel)

end Os161.Printf
