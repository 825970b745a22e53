import Os161.Common.Simulation
import Os161.Machine.Basic

/-!
# Guts of printf

`__printf.c` is used in the kernel and in the C library. `__vprintf` sends the characters of the
format to a small state machine, `PF`, which hands the output in pieces to a function that the
caller supplies. Here this function is a parameter, `sendfunc`, and so is the type of its own data.

The characters are those of the source's strings, without the NUL at the end. A variable argument is
a word of 32 bits; `strings` says what stands in memory from an address on. `int` and `long` have 32
bits. The arguments of the type `long long` are turned off in the source and left out.

`vprintf_maps` is the main result: what a session does to the data of the caller depends on the
pieces only, so two functions that take them in corresponding ways end with corresponding data.
-/

namespace Os161.Printf

open Prog

/-- The size of the integer argument to retrieve. -/
inductive Size where
  | intsz
  | longsz
  deriving DecidableEq, Repr

/-- `PF`: the state for printf. -/
structure PF (κ : Type) where
  clientdata : κ
  ap : List ℕ
  charcount : ℤ
  inPct : Bool
  size : Size
  num : ℕ
  sign : ℤ
  spacing : ℤ
  rightspc : Bool
  fillchar : Char
  base : ℕ
  basePrefix : Bool
  altformat : Bool

abbrev PfM (κ : Type) := Prog Empty (PF κ)

/-- The characters before the NUL, of those that stand in memory from some address on. -/
def cString (mem : List Char) : List Char := mem.takeWhile (· ≠ '\x00')

section Code

variable {κ : Type} (sendfunc : κ → List Char → κ) (strings : ℕ → Option (List Char))

/-- `__pf_print`. -/
def pfPrint (txt : List Char) : PfM κ Unit :=
  modify fun pf => { pf with
    clientdata := sendfunc pf.clientdata txt
    charcount := s32 (pf.charcount + txt.length) }

/-- `__pf_endfield`: reset the state for the next field. -/
def pfEndfield : PfM κ Unit :=
  modify fun pf => { pf with
    inPct := false, size := .intsz, num := 0, sign := 0, spacing := 0, rightspc := false,
    fillchar := ' ', base := 0, basePrefix := false, altformat := false }

/-- `__pf_modifier`: process the characters between the percent sign and the type. -/
def pfModifier (ch : Char) : PfM κ Unit :=
  if ch = '#' then
    modify fun pf => { pf with altformat := true }
  else if ch = '-' then
    modify fun pf => { pf with rightspc := true }
  else if ch = 'l' then
    -- a second `l` changes nothing
    modify fun pf => { pf with size := .longsz }
  else if ch = 'q' then
    modify fun pf => { pf with size := .longsz }
  else if ch = '0' then do
    let spacing ← gets PF.spacing
    if spacing > 0 then
      -- already seen some digits; this is part of the field size
      modify fun pf => { pf with spacing := s32 (spacing * 10) }
    else
      modify fun pf => { pf with fillchar := '0' }
  else do
    require ('0' < ch ∧ ch ≤ '9') "ch>'0' && ch<='9'"
    let spacing ← gets PF.spacing
    modify fun pf => { pf with spacing := s32 (spacing * 10 + (ch.toNat - '0'.toNat : ℕ)) }

/-- `va_arg`: the next word. -/
def vaArg : PfM κ ℕ := do
  match ← gets PF.ap with
  | [] => halt "va_arg: no more arguments"
  | w :: ap =>
    modify fun pf => { pf with ap := ap }
    return w

/-- `__pf_getnum`: retrieve a numeric argument. The cases for the two sizes read the same. -/
def pfGetnum (ch : Char) : PfM κ Unit := do
  let w ← vaArg
  if ch = 'p' then
    modify fun pf => { pf with num := u32 w }
  else if ch = 'd' then
    let signednum := s32 w
    if signednum < 0 then
      modify fun pf => { pf with sign := -1, num := u32 (-signednum) }
    else
      modify fun pf => { pf with num := u32 signednum }
  else
    modify fun pf => { pf with num := u32 w }

/-- `__pf_setbase`. -/
def pfSetbase (ch : Char) : PfM κ Unit := do
  modify fun pf => { pf with base :=
    if ch = 'd' ∨ ch = 'u' then 10
    else if ch = 'x' ∨ ch = 'p' then 16
    else if ch = 'o' then 8
    else pf.base }
  let altformat ← gets PF.altformat
  if altformat = true ∨ ch = 'p' then
    modify fun pf => { pf with basePrefix := true }

/-- `__pf_fill`: print `spc` instances of the fill character. -/
def pfFill (spc : ℤ) : PfM κ Unit := do
  let f ← gets PF.fillchar
  forRange (fun _ => pfPrint sendfunc [f]) spc.toNat 0

/-- A call of `__pf_fill` under a condition. -/
def pfFillIf (p : Prop) [Decidable p] (spc : ℤ) : PfM κ Unit :=
  if p then pfFill sendfunc spc else pure ()

/-- `__pf_printstuff`. The prefixes are printed after space padding but before zero padding, if
padding is on the left. -/
def pfPrintstuff (pre pre2 stuff : List Char) : PfM κ Unit := do
  let len := s32 (pre.length + pre2.length + stuff.length : ℕ)
  let spacing ← gets PF.spacing
  let spc := if spacing > len then s32 (spacing - len) else 0
  let rightspc ← gets PF.rightspc
  let fillchar ← gets PF.fillchar
  pfFillIf sendfunc (spc > 0 ∧ rightspc = false ∧ fillchar ≠ '0') spc
  pfPrint sendfunc pre
  pfPrint sendfunc pre2
  pfFillIf sendfunc (spc > 0 ∧ rightspc = false ∧ fillchar = '0') spc
  pfPrint sendfunc stuff
  pfFillIf sendfunc (spc > 0 ∧ rightspc = true) spc

/-- `NUMBER_BUF_SIZE`. -/
def numberBufSize : ℕ := 4 * 8 / 3 + 2

/-- The digits to print with. -/
def digits : List Char := "0123456789abcdef".toList

/-- The loop of `__pf_printnum`. `k` is the number of slots up to the one that `x` points to, so `x`
is `buf + k - 1`, and a store with `k = 0` would be in front of the buffer. The result is the buffer
and the index of the first digit. -/
def printnumLoop (base : ℕ) : (k : ℕ) → (xnum : ℕ) → (buf : List Char) → PfM κ (List Char × ℕ)
  | 0, _, _ => halt "__pf_printnum: store outside buf"
  | k + 1, xnum, buf => do
    require (xnum % base < digits.length) "__pf_printnum: index outside digits"
    let buf := buf.set k (digits.getD (xnum % base) '\x00')
    let xnum := xnum / base
    if xnum > 0 then
      printnumLoop base k xnum buf
    else
      return (buf, k)

/-- `__pf_printnum`: convert a number to text and print it. The buffer is filled from the right;
what is in it before is not read. -/
def pfPrintnum : PfM κ Unit := do
  let buf := (List.replicate numberBufSize ' ').set (numberBufSize - 1) '\x00'
  let xnum ← gets PF.num
  let base ← gets PF.base
  let (buf, x) ← printnumLoop base (numberBufSize - 1) xnum buf
  let basePrefix ← gets PF.basePrefix
  let bprefix :=
    if basePrefix = true ∧ base = 16 then "0x".toList
    else if basePrefix = true ∧ base = 8 then "0".toList
    else []
  let sign ← gets PF.sign
  let sprefix := if sign ≠ 0 then "-".toList else []
  pfPrintstuff sendfunc sprefix bprefix (cString (buf.drop x))

/-- The string that `%s` prints for the pointer `str`. -/
def pfString (str : ℕ) : PfM κ (List Char) :=
  if str = 0 then
    pure "(null)".toList
  else
    match strings str with
    | none => halt "__pf_send: not a string"
    | some mem => pure (cString mem)

/-- The character that is printed for `%c`; for `%%` and illegal ones it is the character itself. -/
def pfChar (ch : Char) : PfM κ Char :=
  if ch = 'c' then do
    let w ← vaArg
    return Char.ofNat (w % 256)
  else
    pure ch

/-- `__pf_send`: process a single character out of the format string. -/
def pfSend (ch : Char) : PfM κ Unit := do
  require (ch ≠ '\x00') "ch!=0"
  let inPct ← gets PF.inPct
  if inPct = false ∧ ch ≠ '%' then
    pfPrint sendfunc [ch]
  else if inPct = false then
    modify fun pf => { pf with inPct := true }
  else if ch ∈ "#-ql0123456789".toList then
    pfModifier ch
  else if ch ∈ "doupx".toList then
    pfGetnum ch
    pfSetbase ch
    pfPrintnum sendfunc
    pfEndfield
  else if ch = 's' then
    let str ← vaArg
    let stuff ← pfString strings str
    pfPrintstuff sendfunc [] [] stuff
    pfEndfield
  else
    -- `%%`, `%c`, or an illegal character, which is printed like `%%`
    let x ← pfChar ch
    pfPrintstuff sendfunc [] [] (cString [x, '\x00'])
    pfEndfield

/-- The loop of `__vprintf`. -/
def vprintfLoop : List Char → PfM κ Unit
  | [] => return ()
  | ch :: format => do
    if ch ≠ '\x00' then
      pfSend sendfunc strings ch
      vprintfLoop format

/-- The state of a new session. The fields that `__pf_endfield` sets have no value yet. -/
def PF.start (clientdata : κ) (ap : List ℕ) : PF κ where
  clientdata := clientdata
  ap := ap
  charcount := 0
  inPct := true
  size := .longsz
  num := 1
  sign := 1
  spacing := 1
  rightspc := true
  fillchar := '*'
  base := 1
  basePrefix := true
  altformat := true

/-- A session without the result. -/
def pfSession (format : List Char) : PfM κ Unit := do
  pfEndfield
  vprintfLoop sendfunc strings format

/-- `__vprintf`, on the data of the caller: a whole session. -/
def vprintf (format : List Char) (ap : List ℕ) : Prog Empty κ ℤ :=
  zoom (fun clientdata => PF.start clientdata ap) (fun _ pf => pf.clientdata) (do
    pfSession sendfunc strings format
    gets PF.charcount)

end Code

/-- The function that takes the text. -/
def collect (text txt : List Char) : List Char := text ++ txt

/-- The full expansion of a format: the text that `__vprintf` sends, if it returns. -/
def expansion (strings : ℕ → Option (List Char)) (format : List Char) (ap : List ℕ) :
    Option (List Char) :=
  match vprintf collect strings format ap [] with
  | .ok _ text => some text
  | _ => none

/-! ## The text decides -/

section Clients

variable {κ : Type} {send : κ → List Char → κ} {f : List Char → κ}
  {strings : ℕ → Option (List Char)}

/-- The state of a session for a caller that takes the text, as it is for a caller whose data `f`
gives in terms of the text. -/
def PF.forClient (f : List Char → κ) (pf : PF (List Char)) : PF κ where
  clientdata := f pf.clientdata
  ap := pf.ap
  charcount := s32 pf.clientdata.length
  inPct := pf.inPct
  size := pf.size
  num := pf.num
  sign := pf.sign
  spacing := pf.spacing
  rightspc := pf.rightspc
  fillchar := pf.fillchar
  base := pf.base
  basePrefix := pf.basePrefix
  altformat := pf.altformat

theorem pfPrint_maps (hf : ∀ text txt, send (f text) txt = f (text ++ txt)) (txt : List Char) :
    Maps (PF.forClient f) (pfPrint collect txt) (pfPrint send txt) := by
  refine Maps.modify fun pf => ?_
  have hcount : s32 (s32 pf.clientdata.length + txt.length) =
      s32 (pf.clientdata ++ txt).length := by
    rw [List.length_append]
    unfold s32
    omega
  simp only [PF.forClient, collect, hf, hcount]

theorem pfEndfield_maps : Maps (PF.forClient f) pfEndfield pfEndfield := Maps.modify fun _ => rfl

theorem pfModifier_maps (ch : Char) : Maps (PF.forClient f) (pfModifier ch) (pfModifier ch) := by
  unfold pfModifier
  refine Maps.ite _ (Maps.modify fun _ => rfl) (Maps.ite _ (Maps.modify fun _ => rfl) ?_)
  refine Maps.ite _ (Maps.modify fun _ => rfl) (Maps.ite _ (Maps.modify fun _ => rfl) ?_)
  refine Maps.ite _ (Maps.bind (Maps.gets fun _ => rfl) fun spacing => ?_) ?_
  · exact Maps.ite _ (Maps.modify fun _ => rfl) (Maps.modify fun _ => rfl)
  · refine Maps.bind (Maps.require _ _) fun _ => Maps.bind (Maps.gets fun _ => rfl) fun spacing => ?_
    exact Maps.modify fun _ => rfl

theorem vaArg_maps : Maps (PF.forClient f) vaArg vaArg := by
  refine Maps.bind (Maps.gets fun _ => rfl) fun ap => ?_
  cases ap with
  | nil => exact Maps.halt _
  | cons w ap => exact Maps.bind (Maps.modify fun _ => rfl) fun _ => Maps.pure w

theorem pfGetnum_maps (ch : Char) : Maps (PF.forClient f) (pfGetnum ch) (pfGetnum ch) := by
  refine Maps.bind vaArg_maps fun w => Maps.ite _ (Maps.modify fun _ => rfl) ?_
  refine Maps.ite _ ?_ (Maps.modify fun _ => rfl)
  exact Maps.ite _ (Maps.modify fun _ => rfl) (Maps.modify fun _ => rfl)

theorem pfSetbase_maps (ch : Char) : Maps (PF.forClient f) (pfSetbase ch) (pfSetbase ch) := by
  refine Maps.bind (Maps.modify fun _ => rfl) fun _ => ?_
  refine Maps.bind (Maps.gets fun _ => rfl) fun altformat => ?_
  exact Maps.ite _ (Maps.modify fun _ => rfl) (Maps.pure ())

theorem pfFill_maps (hf : ∀ text txt, send (f text) txt = f (text ++ txt)) (spc : ℤ) :
    Maps (PF.forClient f) (pfFill collect spc) (pfFill send spc) :=
  Maps.bind (Maps.gets fun _ => rfl) fun c => Maps.forRange fun _ _ _ => pfPrint_maps hf [c]

theorem pfFillIf_maps (hf : ∀ text txt, send (f text) txt = f (text ++ txt)) (p : Prop) [Decidable p]
    (spc : ℤ) : Maps (PF.forClient f) (pfFillIf collect p spc) (pfFillIf send p spc) :=
  Maps.ite p (pfFill_maps hf spc) (Maps.pure ())

theorem pfPrintstuff_maps (hf : ∀ text txt, send (f text) txt = f (text ++ txt))
    (pre pre2 stuff : List Char) :
    Maps (PF.forClient f) (pfPrintstuff collect pre pre2 stuff) (pfPrintstuff send pre pre2 stuff) := by
  have hprint := pfPrint_maps hf
  refine Maps.bind (Maps.gets fun _ => rfl) fun spacing => ?_
  refine Maps.bind (Maps.gets fun _ => rfl) fun rightspc => ?_
  refine Maps.bind (Maps.gets fun _ => rfl) fun fillchar => ?_
  refine Maps.bind (pfFillIf_maps hf _ _) fun _ => ?_
  refine Maps.bind (hprint pre) fun _ => Maps.bind (hprint pre2) fun _ => ?_
  refine Maps.bind (pfFillIf_maps hf _ _) fun _ => ?_
  exact Maps.bind (hprint stuff) fun _ => pfFillIf_maps hf _ _

theorem printnumLoop_maps (base k xnum : ℕ) (buf : List Char) :
    Maps (PF.forClient f) (printnumLoop base k xnum buf) (printnumLoop base k xnum buf) := by
  induction k generalizing xnum buf with
  | zero => exact Maps.halt _
  | succ k ih =>
    refine Maps.bind (Maps.require _ _) fun _ => ?_
    exact Maps.ite _ (ih _ _) (Maps.pure _)

theorem pfPrintnum_maps (hf : ∀ text txt, send (f text) txt = f (text ++ txt)) :
    Maps (PF.forClient f) (pfPrintnum collect) (pfPrintnum send) := by
  refine Maps.bind (Maps.gets fun _ => rfl) fun xnum => ?_
  refine Maps.bind (Maps.gets fun _ => rfl) fun base => ?_
  refine Maps.bind (printnumLoop_maps _ _ _ _) fun bufx => ?_
  refine Maps.bind (Maps.gets fun _ => rfl) fun basePrefix => ?_
  exact Maps.bind (Maps.gets fun _ => rfl) fun sign => pfPrintstuff_maps hf _ _ _

theorem pfString_maps (str : ℕ) :
    Maps (PF.forClient f) (pfString strings str) (pfString strings str) := by
  refine Maps.ite _ (Maps.pure _) ?_
  cases strings str with
  | none => exact Maps.halt _
  | some mem => exact Maps.pure _

theorem pfChar_maps (ch : Char) : Maps (PF.forClient f) (pfChar ch) (pfChar ch) :=
  Maps.ite _ (Maps.bind vaArg_maps fun _ => Maps.pure _) (Maps.pure ch)

theorem pfSend_maps (hf : ∀ text txt, send (f text) txt = f (text ++ txt)) (ch : Char) :
    Maps (PF.forClient f) (pfSend collect strings ch) (pfSend send strings ch) := by
  refine Maps.bind (Maps.require _ _) fun _ => Maps.bind (Maps.gets fun _ => rfl) fun inPct => ?_
  refine Maps.ite _ (pfPrint_maps hf [ch]) (Maps.ite _ (Maps.modify fun _ => rfl) ?_)
  refine Maps.ite _ (pfModifier_maps ch) (Maps.ite _ ?_ (Maps.ite _ ?_ ?_))
  · refine Maps.bind (pfGetnum_maps ch) fun _ => Maps.bind (pfSetbase_maps ch) fun _ => ?_
    exact Maps.bind (pfPrintnum_maps hf) fun _ => pfEndfield_maps
  · refine Maps.bind vaArg_maps fun str => Maps.bind (pfString_maps str) fun stuff => ?_
    exact Maps.bind (pfPrintstuff_maps hf _ _ _) fun _ => pfEndfield_maps
  · refine Maps.bind (pfChar_maps ch) fun x => ?_
    exact Maps.bind (pfPrintstuff_maps hf _ _ _) fun _ => pfEndfield_maps

theorem vprintfLoop_maps (hf : ∀ text txt, send (f text) txt = f (text ++ txt)) (format : List Char) :
    Maps (PF.forClient f) (vprintfLoop collect strings format) (vprintfLoop send strings format) := by
  induction format with
  | nil => exact Maps.pure ()
  | cons ch format ih =>
    exact Maps.ite _ (Maps.bind (pfSend_maps hf ch) fun _ => ih) (Maps.pure ())

/-- **The text decides.** If the data of the caller is a function of the text so far, it is so at
the end of a session, and the result is the length of the text. -/
theorem vprintf_of_expansion (hf : ∀ text txt, send (f text) txt = f (text ++ txt))
    {format text : List Char} {ap : List ℕ} (h : expansion strings format ap = some text) :
    vprintf send strings format ap (f []) = .ok (s32 text.length) (f text) := by
  have hmaps : Maps (PF.forClient f) (pfSession collect strings format)
      (pfSession send strings format) :=
    Maps.bind pfEndfield_maps fun _ => vprintfLoop_maps hf format
  have hstart : PF.forClient f (PF.start [] ap) = PF.start (f []) ap := by
    simp only [PF.forClient, PF.start, List.length_nil, Nat.cast_zero,
      s32_of_range (show (-2147483648 : ℤ) ≤ 0 by decide) (by decide)]
  have hrun := hmaps (PF.start [] ap)
  rw [hstart] at hrun
  unfold expansion vprintf at h
  unfold vprintf
  simp only [zoom, bind, Prog.bind] at h ⊢
  rw [hrun]
  cases hs : pfSession collect strings format (PF.start [] ap) with
  | ok u pf =>
    rw [hs] at h
    obtain rfl : pf.clientdata = text := Option.some.inj h
    rfl
  | err e pf => exact e.elim
  | halted msg =>
    rw [hs] at h
    cases h

end Clients

end Os161.Printf
