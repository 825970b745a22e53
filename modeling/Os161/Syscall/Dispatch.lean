import Os161.Machine.Basic

/-!
# The system call dispatcher (`kern/arch/mips/mips/syscall.c`)

`mips_syscall` takes the call number from `v0`, calls the handler, and reports back in `v0` and
`a3`: the value that the handler returns is an error code if it is not 0, and otherwise the result
is what the handler has left in `retval`. What the handlers do is a parameter here (`Handlers`); the
modules that follow fill it in.
-/

namespace Os161.Syscall

/-! ## Trap frames (`kern/arch/mips/include/trapframe.h`) -/

/-- The saved registers, in the order in which `struct trapframe` has them. -/
inductive Reg where
  | tfVaddr | tfStatus | tfCause | tfLo | tfHi | tfRa | tfAt | tfV0 | tfV1
  | tfA0 | tfA1 | tfA2 | tfA3
  | tfT0 | tfT1 | tfT2 | tfT3 | tfT4 | tfT5 | tfT6 | tfT7
  | tfS0 | tfS1 | tfS2 | tfS3 | tfS4 | tfS5 | tfS6 | tfS7
  | tfT8 | tfT9 | tfK0 | tfK1 | tfGp | tfSp | tfS8 | tfEpc
deriving DecidableEq

/-- `struct trapframe`. -/
abbrev Trapframe := Reg → BitVec 32

/-- Write one register. -/
def Trapframe.set (tf : Trapframe) (r : Reg) (v : BitVec 32) : Trapframe := Function.update tf r v

@[simp]
theorem Trapframe.set_self (tf : Trapframe) (r : Reg) (v : BitVec 32) : tf.set r v r = v :=
  Function.update_self ..

theorem Trapframe.set_of_ne (tf : Trapframe) {r r' : Reg} (h : r' ≠ r) (v : BitVec 32) :
    tf.set r v r' = tf r' :=
  Function.update_of_ne h ..

/-- `sizeof(struct trapframe)`. -/
def trapframeSize : ℕ := 148

/-- The trap frame with which `md_forkentry` enters user mode, made from that of the parent. -/
def Trapframe.child (tf : Trapframe) : Trapframe :=
  ((tf.set .tfEpc (tf .tfEpc + 4)).set .tfV0 0).set .tfA3 0

/-! ## The dispatcher -/

/-- What a handler leaves behind: the value it returns, `retval`, and the trap frame. -/
structure Reply where
  err : ℤ
  retval : ℤ
  tf : Trapframe

/-- The handlers. `sys__exit` does not return. -/
structure Handlers (ε σ : Type) where
  reboot : (code : ℤ) → Prog ε σ ℤ
  exit : (exitcode : ℤ) → Prog ε σ Empty
  fork : (tf : Trapframe) → (retval : ℤ) → Prog ε σ Reply
  waitpid : (tf : Trapframe) → (retval : ℤ) → Prog ε σ Reply
  getpid : Prog ε σ ℤ
  write : (filehandle : ℤ) → (buf size : ℕ) → Prog ε σ ℤ
  read : (filehandle : ℤ) → (buf size : ℕ) → (retval : ℤ) → Prog ε σ (ℤ × ℤ)
  unknown : (callno : ℤ) → Prog ε σ Unit

/-- A register as an `int`. -/
def Trapframe.int (tf : Trapframe) (r : Reg) : ℤ := (tf r).toInt

/-- A register as a pointer or a `size_t`. -/
def Trapframe.word (tf : Trapframe) (r : Reg) : ℕ := (tf r).toNat

variable {ε σ : Type}

/-- The `switch` of `mips_syscall`. -/
def dispatch (h : Handlers ε σ) (tf : Trapframe) : Prog ε σ Reply := do
  let retval := 0
  match tf.int .tfV0 with
  | 8 =>
    let err ← h.reboot (tf.int .tfA0)
    pure ⟨err, retval, tf⟩
  | 0 =>
    let never ← h.exit (tf.int .tfA0)
    nomatch never
  | 2 => h.fork tf retval
  | 3 => h.waitpid tf retval
  | 11 =>
    let err ← h.getpid
    pure ⟨err, retval, tf⟩
  | 6 =>
    let err ← h.write (tf.int .tfA0) (tf.word .tfA1) (tf.word .tfA2)
    pure ⟨err, retval, tf⟩
  | 5 =>
    let (err, retval) ← h.read (tf.int .tfA0) (tf.word .tfA1) (tf.word .tfA2) retval
    pure ⟨err, retval, tf⟩
  | callno =>
    h.unknown callno
    pure ⟨Errno.ENOSYS.code, retval, tf⟩

section Numbers

variable (h : Handlers ε σ) {tf : Trapframe}

theorem dispatch_fork (hcall : tf.int .tfV0 = 2) : dispatch h tf = h.fork tf 0 := by
  rw [dispatch, hcall]
  rfl

theorem dispatch_waitpid (hcall : tf.int .tfV0 = 3) : dispatch h tf = h.waitpid tf 0 := by
  rw [dispatch, hcall]
  rfl

theorem dispatch_getpid (hcall : tf.int .tfV0 = 11) :
    dispatch h tf = h.getpid >>= fun err => pure ⟨err, 0, tf⟩ := by
  rw [dispatch, hcall]
  rfl

theorem dispatch_write (hcall : tf.int .tfV0 = 6) :
    dispatch h tf = h.write (tf.int .tfA0) (tf.word .tfA1) (tf.word .tfA2) >>=
      fun err => pure ⟨err, 0, tf⟩ := by
  rw [dispatch, hcall]
  rfl

theorem dispatch_read (hcall : tf.int .tfV0 = 5) :
    dispatch h tf = h.read (tf.int .tfA0) (tf.word .tfA1) (tf.word .tfA2) 0 >>=
      fun r => pure ⟨r.1, r.2, tf⟩ := by
  rw [dispatch, hcall]
  rfl

end Numbers

/-- The end of `mips_syscall`: report to the program and step over the `syscall` instruction. -/
def Reply.leave (r : Reply) : Trapframe :=
  let tf :=
    if r.err ≠ 0 then
      (r.tf.set .tfV0 (BitVec.ofInt 32 r.err)).set .tfA3 1
    else
      (r.tf.set .tfV0 (BitVec.ofInt 32 r.retval)).set .tfA3 0
  tf.set .tfEpc (tf .tfEpc + 4)

/-- `mips_syscall`. -/
def mipsSyscall (h : Handlers ε σ) (tf : Trapframe) : Prog ε σ Trapframe := do
  let r ← dispatch h tf
  pure r.leave

/-! ## What a program gets back -/

/-- The flag in `a3` tells whether the handler returned 0. -/
theorem Reply.leave_a3 (r : Reply) : r.leave .tfA3 = if r.err = 0 then 0 else 1 := by
  rw [leave, Trapframe.set_of_ne _ (by decide)]
  by_cases h : r.err = 0
  · rw [if_neg (not_not.mpr h), if_pos h, Trapframe.set_self]
  · rw [if_pos h, if_neg h, Trapframe.set_self]

theorem Reply.leave_v0 (r : Reply) :
    r.leave .tfV0 = BitVec.ofInt 32 (if r.err = 0 then r.retval else r.err) := by
  rw [leave, Trapframe.set_of_ne _ (by decide)]
  by_cases h : r.err = 0
  · rw [if_neg (not_not.mpr h), if_pos h, Trapframe.set_of_ne _ (by decide), Trapframe.set_self]
  · rw [if_pos h, if_neg h, Trapframe.set_of_ne _ (by decide), Trapframe.set_self]

/-- What holds of the reply of the handler holds at the end. -/
theorem meets_mipsSyscall (h : Handlers ε σ) (tf : Trapframe) {Q : Trapframe → σ → Prop}
    {E : ε → σ → Prop} {s : σ} {H : String → Prop} :
    Prog.Meets (mipsSyscall h tf) Q E s H ↔
      Prog.Meets (dispatch h tf) (fun r s' => Q r.leave s') E s H := by
  rw [mipsSyscall, Prog.meets_bind]
  rfl

end Os161.Syscall
