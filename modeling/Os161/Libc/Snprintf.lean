import Mathlib.Data.List.GetD
import Os161.Libc.Printf

/-!
# Printing into a buffer

`vsnprintf` is `__vprintf` with a function that stores the pieces in a buffer as long as there is
room. The pieces are of any length, so the proof is about the text as a whole: after each piece the
buffer is what the text so far makes of it (`SNP.after`), and `vprintf_of_expansion` carries this
through a session.
-/

namespace Os161.Printf

open Prog

/-- `SNP`: the context of `snprintf`. `buf` is what stands in memory from the buffer on, without a
bound; `buflen` does not count the place for the NUL. -/
structure SNP where
  buf : ℕ → Char
  buflen : ℕ
  bufpos : ℕ

/-- One turn of the loop in `__snprintf_send`. -/
def snprintfStore (snp : SNP) (c : Char) : SNP :=
  if snp.bufpos < snp.buflen then
    { snp with buf := Function.update snp.buf snp.bufpos c, bufpos := snp.bufpos + 1 }
  else
    snp

/-- `__snprintf_send`. -/
def snprintfSend (snp : SNP) (data : List Char) : SNP := data.foldl snprintfStore snp

/-- `vsnprintf`, on the memory from `buf` on. -/
def vsnprintf (strings : ℕ → Option (List Char)) (len : ℕ) (fmt : List Char) (ap : List ℕ) :
    Prog Empty (ℕ → Char) ℤ :=
  zoom (fun buf => { buf, buflen := if len = 0 then 0 else len - 1, bufpos := 0 })
    (fun _ snp => snp.buf) (do
      let chars ← vprintf snprintfSend strings fmt ap
      if len > 0 then
        modify fun snp => { snp with buf := Function.update snp.buf snp.bufpos '\x00' }
      return chars)

/-- The memory with the characters `l` stored from its start on. -/
def overwrite (buf : ℕ → Char) (l : List Char) : ℕ → Char := fun i => l.getD i (buf i)

variable {buf : ℕ → Char}

theorem overwrite_append_singleton (l : List Char) (c : Char) :
    overwrite buf (l ++ [c]) = Function.update (overwrite buf l) l.length c := by
  funext i
  unfold overwrite
  rcases lt_trichotomy i l.length with hlt | rfl | hgt
  · rw [Function.update_of_ne hlt.ne, List.getD_append _ _ _ _ hlt]
  · rw [Function.update_self, List.getD_append_right _ _ _ _ le_rfl, Nat.sub_self]
    rfl
  · have hout : l.getD i (buf i) = buf i := List.getD_eq_default _ _ hgt.le
    rw [Function.update_of_ne hgt.ne', hout]
    refine List.getD_eq_default _ _ ?_
    rw [List.length_append, List.length_singleton]
    exact hgt

/-- The context after the text has been sent. -/
def SNP.after (buf : ℕ → Char) (buflen : ℕ) (text : List Char) : SNP where
  buf := overwrite buf (text.take buflen)
  buflen := buflen
  bufpos := min buflen text.length

/-- One character more of the text. -/
theorem snprintfStore_after (buflen : ℕ) (text : List Char) (c : Char) :
    snprintfStore (SNP.after buf buflen text) c = SNP.after buf buflen (text ++ [c]) := by
  unfold snprintfStore SNP.after
  by_cases hroom : text.length < buflen
  · have hpos : min buflen text.length = text.length := min_eq_right hroom.le
    have htake : (text ++ [c]).take buflen = text.take buflen ++ [c] := by
      rw [List.take_of_length_le (by rw [List.length_append]; exact hroom),
        List.take_of_length_le hroom.le]
    have hlen : (text.take buflen).length = text.length := by
      rw [List.length_take, hpos]
    rw [htake, overwrite_append_singleton, hlen]
    simp only [hpos, hroom, if_true, List.length_append, List.length_singleton,
      min_eq_right (show text.length + 1 ≤ buflen from hroom)]
  · have hpos : min buflen text.length = buflen := min_eq_left (not_lt.mp hroom)
    have hpos' : min buflen (text ++ [c]).length = buflen := by
      rw [List.length_append]
      omega
    rw [hpos, hpos', if_neg (lt_irrefl _), List.take_append_of_le_length (not_lt.mp hroom)]

theorem snprintfSend_after (buf : ℕ → Char) (buflen : ℕ) (text txt : List Char) :
    snprintfSend (SNP.after buf buflen text) txt = SNP.after buf buflen (text ++ txt) := by
  induction txt generalizing text with
  | nil => rw [List.append_nil, snprintfSend, List.foldl_nil]
  | cons c txt ih =>
    have hsend : snprintfSend (SNP.after buf buflen text) (c :: txt) =
        snprintfSend (snprintfStore (SNP.after buf buflen text) c) txt := rfl
    rw [hsend, snprintfStore_after, ih, List.append_assoc, List.singleton_append]

/-- What `vsnprintf` returns and stores. -/
theorem vsnprintf_eq {strings : ℕ → Option (List Char)} {fmt text : List Char} {ap : List ℕ}
    (h : expansion strings fmt ap = some text) (hlen : text.length < 2147483648) (len : ℕ)
    (buf : ℕ → Char) :
    vsnprintf strings len fmt ap buf = .ok (text.length : ℤ)
      (if len = 0 then buf else overwrite buf (text.take (len - 1) ++ ['\x00'])) := by
  have hlen' : s32 (text.length : ℤ) = text.length := s32_of_range (by omega) (by omega)
  have hrun := vprintf_of_expansion (snprintfSend_after buf (len - 1)) h
  have hstart : SNP.after buf (len - 1) [] =
      { buf := buf, buflen := if len = 0 then 0 else len - 1, bufpos := 0 } := by
    have hbuflen : len - 1 = if len = 0 then 0 else len - 1 := by
      split
      · omega
      · rfl
    rw [SNP.after, List.take_nil, List.length_nil, Nat.min_zero, ← hbuflen]
    rfl
  rw [hlen', hstart] at hrun
  simp only [vsnprintf, zoom, bind, Prog.bind, hrun]
  by_cases hzero : len = 0
  · subst hzero
    rfl
  · have hpos : min (len - 1) text.length = (text.take (len - 1)).length := List.length_take.symm
    rw [if_pos (Nat.pos_of_ne_zero hzero), if_neg hzero, overwrite_append_singleton, ← hpos]
    rfl

theorem cString_append_nul (l r : List Char) : cString (l ++ '\x00' :: r) = cString l := by
  unfold cString
  rw [List.takeWhile_append]
  split
  case isTrue hall =>
    rw [List.takeWhile_cons_of_neg (by decide), List.append_nil]
    exact ((List.takeWhile_prefix _).eq_of_length hall).symm
  case isFalse => rfl

theorem cString_isPrefix_append (l r : List Char) : cString l <+: cString (l ++ r) := by
  unfold cString
  rw [List.takeWhile_append]
  split
  case isTrue hall =>
    rw [(List.takeWhile_prefix _).eq_of_length hall]
    exact List.prefix_append l _
  case isFalse => exact List.prefix_rfl

/-- The string at the start of a buffer of `len` bytes. -/
def bufString (buf : ℕ → Char) (len : ℕ) : List Char := cString ((List.range len).map buf)

theorem bufString_overwrite {len : ℕ} {l : List Char} (h : l.length < len) :
    bufString (overwrite buf (l ++ ['\x00'])) len = cString l := by
  have hstart : (List.range (l.length + 1)).map (overwrite buf (l ++ ['\x00'])) = l ++ ['\x00'] := by
    refine List.ext_getElem (by simp) fun i _ hi => ?_
    rw [List.getElem_map, List.getElem_range, overwrite, List.getD_eq_getElem _ _ hi]
  obtain ⟨n, rfl⟩ := Nat.exists_eq_add_of_lt h
  rw [bufString, show l.length + n + 1 = l.length + 1 + n by omega, List.range_add, List.map_append,
    hstart, List.append_assoc, List.singleton_append, cString_append_nul]

/-- **`vsnprintf` truncates exactly.** It returns the length of the full expansion; it stores as
many characters of it as there is room for, and a NUL, and changes nothing else. So the string in a
small buffer is the start of the string in a larger one. -/
theorem vsnprintf_truncates (strings : ℕ → Option (List Char)) (fmt : List Char) (ap : List ℕ)
    (text : List Char) (h : expansion strings fmt ap = some text) (hlen : text.length < 2 ^ 31) :
    (∀ (len : ℕ) (buf : ℕ → Char), vsnprintf strings len fmt ap buf =
      .ok (text.length : ℤ)
        (if len = 0 then buf
        else overwrite buf (text.take (min (len - 1) text.length) ++ ['\x00']))) ∧
    ∀ (len len' : ℕ) (buf buf' : ℕ → Char), 0 < len → len ≤ len' →
      ∃ r r' t t', vsnprintf strings len fmt ap buf = .ok r t ∧
        vsnprintf strings len' fmt ap buf' = .ok r' t' ∧ bufString t len <+: bufString t' len' := by
  have hrun := vsnprintf_eq h hlen
  constructor
  · intro len buf
    rw [hrun, ← List.take_eq_take_min]
  · intro len len' buf buf' hpos hle
    refine ⟨_, _, _, _, hrun len buf, hrun len' buf', ?_⟩
    rw [if_neg hpos.ne', if_neg (hpos.trans_le hle).ne', bufString_overwrite, bufString_overwrite]
    · have hcut := List.take_append_drop (len - 1) (text.take (len' - 1))
      rw [List.take_take, min_eq_left (by omega)] at hcut
      rw [← hcut]
      exact cString_isPrefix_append _ _
    · rw [List.length_take]
      omega
    · rw [List.length_take]
      omega

/-- Strings for a test: one, at `0x1000`. -/
def sampleStrings (addr : ℕ) : Option (List Char) :=
  if addr = 0x1000 then some "emu0\x00".toList else none

/-- Six bytes for `n= 42 emu0`. -/
theorem vsnprintf_truncates_sample :
    vsnprintf sampleStrings 6 "n=%3d %s".toList [42, 0x1000] (fun _ => '?') =
      .ok 10 (overwrite (fun _ => '?') "n= 42\x00".toList) :=
  (vsnprintf_truncates sampleStrings "n=%3d %s".toList [42, 0x1000] "n= 42 emu0".toList
    (by decide +kernel) (by decide)).1 6 _

end Os161.Printf
