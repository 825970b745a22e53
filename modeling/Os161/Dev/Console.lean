import Mathlib.Tactic
import Os161.Common.Interleaving

/-!
# The console (`kern/dev/generic/console.c`, `kern/dev/lamebus/lser.c`, `con_lser.c`)

The console after `config_con`, over a serial device. A thread that prints with interrupts on waits
for `cs_wsem` and gives its character to `lser_write`; the device interrupts when it has sent the
character, and `lser_irq` sets the semaphore free. Code that runs with interrupts off, an interrupt
handler or a thread, prints by polling: `lser_writepolled` may cut in while a character is on its
way, and then has to leave the ready bit set, because the interrupt for that character is still due.

While interrupts are off one piece of code has the processor (`Cpu.off`); only the device goes on.
Each access to a register of the device or to a field that `lser_irq` shares with threads is a step.
`P` and `V` are steps, since they run with interrupts off and touch the count only.

* `console_output`: there is one permission to write, and it is at the semaphore, with a thread that
  is about to write, or with a character on its way; so `lser_write` never finds the device busy,
  and every character given to `putch` is written to the device once.

Input is in `Os161.Dev.ConsoleInput`.
-/

namespace Os161.Console

open Interleaving

/-! ## The driver -/

/-- What an observer sees: calls of `putch` and of `con_input`, characters written to the register
`LSER_REG_CHAR`, characters returned by `getch`, and the panic of `lser_write`. -/
inductive Say where
  | putch (ch : ℕ)
  | char (ch : ℕ)
  | input (ch : ℕ)
  | got (ch : ℕ)
  | panic
deriving DecidableEq

/-- The fields of `struct con_softc` and `struct lser_softc`, and the device. The device has to set
the ready bit once for each of `unsent` characters; `wready` and `rready` are the bits
`LSER_IRQ_ACTIVE` of the registers `WIRQ` and `RIRQ`. -/
structure Softc where
  wsem : ℕ
  rsem : ℕ
  gotchar : ℕ
  wbusy : Bool
  unsent : ℕ
  wready : Bool
  rready : Bool
  rchar : ℕ
deriving DecidableEq

/-- A write to `LSER_REG_CHAR`. -/
def Softc.writeChar (s : Softc) : Softc := { s with unsent := s.unsent + 1 }

/-- The write of `LSER_IRQ_ENABLE` to `LSER_REG_WIRQ`, which clears the ready condition. -/
def Softc.clearReady (s : Softc) : Softc := { s with wready := false }

/-- Points of `lser_writepolled`, with the variable `irqpending` once it is set for good. -/
inductive PolledPc where
  | test
  | spinPending
  | clear
  | send (irqpending : Bool)
  | spin (irqpending : Bool)
  | finish (irqpending : Bool)
deriving DecidableEq

/-- Points of `lser_write`. -/
inductive WritePc where
  | test
  | setBusy
  | send
  | splx
deriving DecidableEq

/-- Points of `lser_irq`, with `clear_to_write` and the character read, if any. -/
inductive IrqPc where
  | readW
  | clearBusy
  | ackW
  | readR (clearToWrite : Bool)
  | readChar (clearToWrite : Bool)
  | ackR (clearToWrite : Bool) (ch : ℕ)
  | start (clearToWrite : Bool) (read : Option ℕ)
  /-- `con_input`: store the character, then `V`. -/
  | input (ch : ℕ)
  | inputV
deriving DecidableEq

/-- Code that runs with interrupts off: in one of the functions of the driver, or elsewhere. -/
inductive Code where
  | elsewhere
  | polled (ch : ℕ) (pc : PolledPc)
  | write (ch : ℕ) (pc : WritePc)
  | irq (pc : IrqPc)
  | panicked
deriving DecidableEq

/-- The next step of code of the driver. -/
def Code.step (s : Softc) : Code → Option (List Say × Softc × Code)
  | .elsewhere => none
  | .polled ch .test => some ([], s, .polled ch (if s.wbusy then .spinPending else .send false))
  -- `lser_spin_until_write`
  | .polled ch .spinPending => some ([], s, .polled ch (if s.wready then .clear else .spinPending))
  | .polled ch .clear => some ([], s.clearReady, .polled ch (.send true))
  | .polled ch (.send irqpending) => some ([.char ch], s.writeChar, .polled ch (.spin irqpending))
  | .polled ch (.spin irqpending) =>
    some ([], s, .polled ch (if s.wready then .finish irqpending else .spin irqpending))
  | .polled _ (.finish irqpending) =>
    some ([], if irqpending then s else s.clearReady, .elsewhere)
  | .write ch .test =>
    if s.wbusy then some ([.panic], s, .panicked) else some ([], s, .write ch .setBusy)
  | .write ch .setBusy => some ([], { s with wbusy := true }, .write ch .send)
  | .write ch .send => some ([.char ch], s.writeChar, .write ch .splx)
  | .write _ .splx => none
  | .irq .readW => some ([], s, .irq (if s.wready then .clearBusy else .readR false))
  | .irq .clearBusy => some ([], { s with wbusy := false }, .irq .ackW)
  | .irq .ackW => some ([], s.clearReady, .irq (.readR true))
  | .irq (.readR clear) =>
    some ([], s, .irq (if s.rready then .readChar clear else .start clear none))
  | .irq (.readChar clear) => some ([], s, .irq (.ackR clear s.rchar))
  | .irq (.ackR clear ch) => some ([], { s with rready := false }, .irq (.start clear (some ch)))
  -- `con_start`, where the device is clear to write
  | .irq (.start clear read) =>
    some ([], if clear then { s with wsem := s.wsem + 1 } else s,
      match read with
      | none => .elsewhere
      | some ch => .irq (.input ch))
  | .irq (.input ch) => some ([.input ch], { s with gotchar := ch }, .irq .inputV)
  | .irq .inputV => some ([], { s with rsem := s.rsem + 1 }, .elsewhere)
  | .panicked => none

/-! ## Threads, handlers and the device -/

/-- The processor: interrupts are on, or they are off and it runs code of a thread or of an
interrupt handler (`none`). -/
inductive Cpu where
  | on
  | off (who : Option ℕ) (code : Code)
deriving DecidableEq

structure Shared where
  softc : Softc
  cpu : Cpu
deriving DecidableEq

/-- Where a thread is: elsewhere with interrupts on; in `putch_intr` before the `P`, and between it
and `lser_write`; in `getch_intr` before the `P`, and between it and the read; or in code that runs
with interrupts off. -/
inductive Pc where
  | run
  | put (ch : ℕ)
  | send (ch : ℕ)
  | get
  | read
  | masked
deriving DecidableEq

/-- What a thread, a handler or the device does next, where there is a choice. -/
inductive Act where
  | putch (ch : ℕ)
  | getch
  | splhigh
  | splx
  | interrupt
  | irq
  /-- The device sets the ready bit for a character. -/
  | ready
  /-- A character arrives at the device. -/
  | type (ch : ℕ)
  | go
deriving DecidableEq

/-- The next step of code that runs with interrupts off. Elsewhere it may print a character, which
`putch` does by polling because `curspl > 0`, or turn interrupts on again; a handler may call
`lser_irq`. -/
def maskedStep (who : Option ℕ) (act : Act) (s : Softc) (code : Code) :
    Option (List Say × Softc × Cpu) :=
  match code, act with
  | .elsewhere, .putch ch => some ([.putch ch], s, .off who (.polled ch .test))
  | .elsewhere, .splx => some ([], s, .on)
  | .elsewhere, .irq => if who = none then some ([], s, .off who (.irq .readW)) else none
  | .write _ .splx, .go => some ([], s, .on)
  | code, .go => (code.step s).map fun (es, s', code') => (es, s', .off who code')
  | _, _ => none

/-- The next step of the thread `i`. -/
def threadStep (i : ℕ) (act : Act) (s : Shared) (pc : Pc) : Option (List Say × Shared × Pc) :=
  match s.cpu, pc, act with
  | .on, .run, .putch ch => some ([.putch ch], s, .put ch)
  | .on, .run, .getch => some ([], s, .get)
  | .on, .run, .splhigh => some ([], { s with cpu := .off (some i) .elsewhere }, .masked)
  | .on, .put ch, .go =>
    if 0 < s.softc.wsem then
      some ([], { s with softc := { s.softc with wsem := s.softc.wsem - 1 } }, .send ch)
    else none
  | .on, .send ch, .go => some ([], { s with cpu := .off (some i) (.write ch .test) }, .masked)
  | .on, .get, .go =>
    if 0 < s.softc.rsem then
      some ([], { s with softc := { s.softc with rsem := s.softc.rsem - 1 } }, .read)
    else none
  | .on, .read, .go => some ([.got s.softc.gotchar], s, .run)
  | .off who code, .masked, act =>
    if who = some i then
      (maskedStep who act s.softc code).map fun (es, softc, cpu) =>
        (es, ⟨softc, cpu⟩, if cpu = .on then .run else .masked)
    else none
  | _, _, _ => none

/-- Interrupt handlers and the device. -/
def otherStep (act : Act) (s : Shared) : Option (List Say × Shared) :=
  match act, s.cpu with
  | .ready, _ =>
    if 0 < s.softc.unsent then
      some ([], { s with softc := { s.softc with unsent := s.softc.unsent - 1, wready := true } })
    else none
  | .type ch, _ => some ([], { s with softc := { s.softc with rready := true, rchar := ch } })
  | .interrupt, .on => some ([], { s with cpu := .off none .elsewhere })
  | act, .off none code =>
    (maskedStep none act s.softc code).map fun (es, softc, cpu) => (es, ⟨softc, cpu⟩)
  | _, _ => none

/-- Any number of threads that print and read characters. -/
def console : Interleaving Shared Pc Say Act where
  thread := threadStep
  others := otherStep
  start pc := pc = .run

/-- After `config_lser` and `config_con`. -/
def init : State Shared Pc := ⟨⟨⟨1, 0, 0, false, 0, false, false, 0⟩, .on⟩, []⟩

/-! ## What a step does -/

section Moves

variable {who : Option ℕ} {act : Act} {c c' : Softc} {code : Code} {cpu : Cpu} {es : List Say}

/-- A step of code that runs with interrupts off. -/
inductive Masked (who : Option ℕ) (c : Softc) : Act → Code → List Say → Softc → Cpu → Prop where
  | putch (ch : ℕ) :
      Masked who c (.putch ch) .elsewhere [.putch ch] c (.off who (.polled ch .test))
  | splx : Masked who c .splx .elsewhere [] c .on
  | irq : Masked who c .irq .elsewhere [] c (.off who (.irq .readW))
  | written (ch : ℕ) : Masked who c .go (.write ch .splx) [] c .on
  | driver {code code' : Code} {es : List Say} {c' : Softc}
      (hstep : code.step c = some (es, c', code')) : Masked who c .go code es c' (.off who code')

theorem maskedStep_moves (h : maskedStep who act c code = some (es, c', cpu)) :
    Masked who c act code es c' cpu := by
  unfold maskedStep at h
  split at h
  case h_1 ch => cases h; exact .putch ch
  case h_2 => cases h; exact .splx
  case h_3 =>
    split at h <;> cases h
    exact .irq
  case h_4 ch => cases h; exact .written ch
  case h_5 =>
    obtain ⟨⟨es, c', code'⟩, hstep, heq⟩ := Option.map_eq_some_iff.mp h
    cases heq
    exact .driver hstep
  case h_6 => cases h

/-- A step of a thread. -/
inductive Moves (i : ℕ) : Act → Shared → Pc → List Say → Shared → Pc → Prop where
  | putch {c : Softc} (ch : ℕ) :
      Moves i (.putch ch) ⟨c, .on⟩ .run [.putch ch] ⟨c, .on⟩ (.put ch)
  | getch {c : Softc} : Moves i .getch ⟨c, .on⟩ .run [] ⟨c, .on⟩ .get
  | splhigh {c : Softc} :
      Moves i .splhigh ⟨c, .on⟩ .run [] ⟨c, .off (some i) .elsewhere⟩ .masked
  | waitWrite {c : Softc} {ch : ℕ} (hpos : 0 < c.wsem) :
      Moves i .go ⟨c, .on⟩ (.put ch) [] ⟨{ c with wsem := c.wsem - 1 }, .on⟩ (.send ch)
  | send {c : Softc} {ch : ℕ} :
      Moves i .go ⟨c, .on⟩ (.send ch) [] ⟨c, .off (some i) (.write ch .test)⟩ .masked
  | waitRead {c : Softc} (hpos : 0 < c.rsem) :
      Moves i .go ⟨c, .on⟩ .get [] ⟨{ c with rsem := c.rsem - 1 }, .on⟩ .read
  | read {c : Softc} : Moves i .go ⟨c, .on⟩ .read [.got c.gotchar] ⟨c, .on⟩ .run
  | masked {act : Act} {c c' : Softc} {code : Code} {cpu : Cpu} {es : List Say}
      (hstep : Masked (some i) c act code es c' cpu) :
      Moves i act ⟨c, .off (some i) code⟩ .masked es ⟨c', cpu⟩
        (if cpu = .on then .run else .masked)

theorem threadStep_moves {i : ℕ} {s s' : Shared} {pc pc' : Pc}
    (h : threadStep i act s pc = some (es, s', pc')) : Moves i act s pc es s' pc' := by
  obtain ⟨c, cpu⟩ := s
  unfold threadStep at h
  split at h
  case h_1 ch hcpu => cases hcpu; cases h; exact .putch ch
  case h_2 hcpu => cases hcpu; cases h; exact .getch
  case h_3 hcpu => cases hcpu; cases h; exact .splhigh
  case h_4 ch hcpu =>
    cases hcpu
    split at h
    case isTrue hpos => cases h; exact .waitWrite hpos
    case isFalse => cases h
  case h_5 ch hcpu => cases hcpu; cases h; exact .send
  case h_6 hcpu =>
    cases hcpu
    split at h
    case isTrue hpos => cases h; exact .waitRead hpos
    case isFalse => cases h
  case h_7 hcpu => cases hcpu; cases h; exact .read
  case h_8 who code act hcpu =>
    cases hcpu
    split at h
    case isFalse => cases h
    case isTrue hwho =>
      obtain ⟨⟨es, c', cpu⟩, hstep, heq⟩ := Option.map_eq_some_iff.mp h
      cases heq
      subst hwho
      exact .masked (maskedStep_moves hstep)
  case h_9 => cases h

/-- A step of the device or of an interrupt handler. -/
inductive OtherMoves : Act → Shared → List Say → Shared → Prop where
  | ready {c : Softc} {cpu : Cpu} (hpos : 0 < c.unsent) :
      OtherMoves .ready ⟨c, cpu⟩ [] ⟨{ c with unsent := c.unsent - 1, wready := true }, cpu⟩
  | type {c : Softc} {cpu : Cpu} (ch : ℕ) :
      OtherMoves (.type ch) ⟨c, cpu⟩ [] ⟨{ c with rready := true, rchar := ch }, cpu⟩
  | interrupt {c : Softc} : OtherMoves .interrupt ⟨c, .on⟩ [] ⟨c, .off none .elsewhere⟩
  | masked {act : Act} {c c' : Softc} {code : Code} {cpu : Cpu} {es : List Say}
      (hstep : Masked none c act code es c' cpu) : OtherMoves act ⟨c, .off none code⟩ es ⟨c', cpu⟩

theorem otherStep_moves {s s' : Shared} (h : otherStep act s = some (es, s')) :
    OtherMoves act s es s' := by
  obtain ⟨c, cpu⟩ := s
  unfold otherStep at h
  split at h
  case h_1 =>
    split at h <;> cases h
    case isTrue hpos => exact .ready hpos
  case h_2 ch => cases h; exact .type ch
  case h_3 hcpu => cases hcpu; cases h; exact .interrupt
  case h_4 code hcpu =>
    cases hcpu
    obtain ⟨⟨es, c', cpu⟩, hstep, heq⟩ := Option.map_eq_some_iff.mp h
    cases heq
    exact .masked (maskedStep_moves hstep)
  case h_5 => cases h

end Moves

/-! ## The permission to write -/

/-- The characters for which the ready bit is set or is still to be set. -/
def Softc.due (c : Softc) : ℕ := c.unsent + c.wready.toNat

/-- What a point of the code knows: `ls_wbusy`, that the ready bit is set, and for how many
characters it is due. -/
structure Known where
  busy : Option Bool
  ready : Bool
  due : Option ℕ

/-- Where the point says nothing about it, a character is on its way if and only if `ls_wbusy` says
so. -/
structure Known.Agrees (k : Known) (c : Softc) : Prop where
  busy : ∀ b ∈ k.busy, c.wbusy = b
  ready : k.ready = true → c.wready = true
  due : c.due = k.due.getD c.wbusy.toNat

@[simp]
def PolledPc.known : PolledPc → Known
  | .test => ⟨none, false, none⟩
  | .spinPending => ⟨some true, false, some 1⟩
  | .clear => ⟨some true, true, some 1⟩
  | .send irqpending => ⟨some irqpending, false, some 0⟩
  | .spin irqpending => ⟨some irqpending, false, some 1⟩
  | .finish irqpending => ⟨some irqpending, true, some 1⟩

@[simp]
def WritePc.known : WritePc → Known
  | .test | .splx => ⟨none, false, none⟩
  | .setBusy => ⟨some false, false, some 0⟩
  | .send => ⟨some true, false, some 0⟩

@[simp]
def IrqPc.known : IrqPc → Known
  | .clearBusy => ⟨some true, true, some 1⟩
  | .ackW => ⟨some false, true, some 1⟩
  | _ => ⟨none, false, none⟩

@[simp]
def Code.known : Code → Known
  | .polled _ pc => pc.known
  | .write _ pc => pc.known
  | .irq pc => pc.known
  | .elsewhere | .panicked => ⟨none, false, none⟩

@[simp]
def Cpu.known : Cpu → Known
  | .on => ⟨none, false, none⟩
  | .off _ code => code.known

/-- `lser_write` has the permission to write before it sets `ls_wbusy`. -/
@[simp]
def WritePc.permit : WritePc → ℕ
  | .test | .setBusy => 1
  | .send | .splx => 0

/-- `lser_irq` has the permission after it has cleared `ls_wbusy` and before the `V`. -/
@[simp]
def IrqPc.permit : IrqPc → ℕ
  | .ackW => 1
  | .readR clear | .readChar clear | .ackR clear _ | .start clear _ => clear.toNat
  | .readW | .clearBusy | .input _ | .inputV => 0

@[simp]
def Code.permit : Code → ℕ
  | .write _ pc => pc.permit
  | .irq pc => pc.permit
  | .elsewhere | .polled _ _ | .panicked => 0

@[simp]
def Cpu.permit : Cpu → ℕ
  | .on => 0
  | .off _ code => code.permit

/-- Between `P(cs_wsem)` and `lser_write`. -/
def Pc.sends : Pc → Bool
  | .send _ => true
  | _ => false

/-- The permissions that are not with threads. -/
def Shared.permits (s : Shared) : ℕ := s.softc.wsem + s.softc.wbusy.toNat + s.cpu.permit

variable {act : Act} {s s' : Shared} {pc pc' : Pc} {es : List Say} {c c' : Softc}
  {code code' : Code} {cpu : Cpu}

/-- Where the ready bit has been cleared no character is on its way. -/
theorem Known.Agrees.clearReady {k : Known} (h : k.Agrees c) (hready : k.ready = true)
    (hdue : k.due = some 1) : c.clearReady.due = 0 := by
  have hset := h.ready hready
  have hone := h.due
  rw [hdue, Softc.due, hset] at hone
  simp only [Option.getD_some, Bool.toNat_true] at hone
  simp only [Softc.due, Softc.clearReady, Bool.toNat_false]
  omega

theorem PolledPc.step_permits {ch : ℕ} {pc : PolledPc}
    (hstep : (Code.polled ch pc).step c = some (es, c', code')) (hagrees : pc.known.Agrees c) :
    code'.known.Agrees c' ∧ .panic ∉ es ∧
      c'.wsem + c'.wbusy.toNat + code'.permit = c.wsem + c.wbusy.toNat := by
  cases pc with
  | test =>
    cases hstep
    refine ⟨?_, by simp, rfl⟩
    have hdue := hagrees.due
    split
    case isTrue hbusy => exact ⟨by simp [hbusy], nofun, by simpa [hbusy] using hdue⟩
    case isFalse hbusy => exact ⟨by simp [hbusy], nofun, by simpa [hbusy] using hdue⟩
  | spinPending =>
    cases hstep
    refine ⟨?_, by simp, rfl⟩
    split
    case isTrue hready => exact ⟨hagrees.busy, fun _ => hready, hagrees.due⟩
    case isFalse => exact hagrees
  | clear =>
    cases hstep
    exact ⟨⟨hagrees.busy, nofun, hagrees.clearReady rfl rfl⟩, by simp, rfl⟩
  | send irqpending =>
    cases hstep
    refine ⟨⟨hagrees.busy, nofun, ?_⟩, by simp, rfl⟩
    have hdue := hagrees.due
    simp only [known, Option.getD_some, Softc.due, Softc.writeChar, Code.known] at hdue ⊢
    omega
  | spin irqpending =>
    cases hstep
    refine ⟨?_, by simp, rfl⟩
    split
    case isTrue hready => exact ⟨hagrees.busy, fun _ => hready, hagrees.due⟩
    case isFalse => exact hagrees
  | finish irqpending =>
    have hbusy : c.wbusy = irqpending := hagrees.busy irqpending rfl
    cases irqpending with
    | true =>
      cases hstep
      exact ⟨⟨nofun, nofun, by simpa [hbusy] using hagrees.due⟩, by simp, rfl⟩
    | false =>
      cases hstep
      refine ⟨⟨nofun, nofun, ?_⟩, by simp, rfl⟩
      rw [if_neg Bool.false_ne_true, hagrees.clearReady rfl rfl]
      simp [Softc.clearReady, hbusy]

theorem WritePc.step_permits {ch : ℕ} {pc : WritePc}
    (hstep : (Code.write ch pc).step c = some (es, c', code')) (hagrees : pc.known.Agrees c)
    (hone : c.wsem + c.wbusy.toNat + pc.permit ≤ 1) :
    code'.known.Agrees c' ∧ .panic ∉ es ∧
      c'.wsem + c'.wbusy.toNat + code'.permit = c.wsem + c.wbusy.toNat + pc.permit := by
  cases pc with
  | test =>
    -- the permission is with this call, so no character is on its way
    have hfree : c.wbusy = false := by
      by_contra hbusy
      simp [hbusy] at hone
    simp only [Code.step, hfree, Bool.false_eq_true, if_false] at hstep
    cases hstep
    exact ⟨⟨by simpa using hfree, nofun, by simpa [hfree] using hagrees.due⟩, by simp, rfl⟩
  | setBusy =>
    have hfree : c.wbusy = false := hagrees.busy false rfl
    cases hstep
    refine ⟨⟨by simp, nofun, hagrees.due⟩, by simp, ?_⟩
    simp [hfree]
  | send =>
    have hbusy : c.wbusy = true := hagrees.busy true rfl
    cases hstep
    refine ⟨⟨nofun, nofun, ?_⟩, by simp, rfl⟩
    have hdue := hagrees.due
    simp only [known, Option.getD_some, Softc.due, Softc.writeChar, Code.known, Option.getD_none,
      hbusy, Bool.toNat_true] at hdue ⊢
    omega
  | splx => cases hstep

theorem IrqPc.step_permits {pc : IrqPc} (hstep : (Code.irq pc).step c = some (es, c', code'))
    (hagrees : pc.known.Agrees c) :
    code'.known.Agrees c' ∧ .panic ∉ es ∧
      c'.wsem + c'.wbusy.toNat + code'.permit = c.wsem + c.wbusy.toNat + pc.permit := by
  cases pc with
  | readW =>
    cases hstep
    split
    case isTrue hready =>
      -- the ready bit is set, so a character has been on its way
      have hdue := hagrees.due
      simp only [known, Softc.due, Option.getD_none, hready, Bool.toNat_true] at hdue
      cases hbusy : c.wbusy with
      | false => simp [hbusy] at hdue
      | true =>
        exact ⟨⟨by simp [hbusy], fun _ => hready, by simpa [hbusy] using hagrees.due⟩, by simp, rfl⟩
    case isFalse => exact ⟨hagrees, by simp, rfl⟩
  | clearBusy =>
    have hbusy : c.wbusy = true := hagrees.busy true rfl
    cases hstep
    refine ⟨⟨by simp, hagrees.ready, hagrees.due⟩, by simp, ?_⟩
    simp [hbusy]
  | ackW =>
    have hbusy : c.wbusy = false := hagrees.busy false rfl
    cases hstep
    refine ⟨⟨nofun, nofun, ?_⟩, by simp, rfl⟩
    rw [hagrees.clearReady rfl rfl]
    simp [Softc.clearReady, hbusy]
  | readR clear =>
    cases hstep
    split
    case isTrue => exact ⟨hagrees, by simp, rfl⟩
    case isFalse => exact ⟨hagrees, by simp, rfl⟩
  | readChar clear =>
    cases hstep
    exact ⟨hagrees, by simp, rfl⟩
  | ackR clear ch =>
    cases hstep
    exact ⟨⟨nofun, nofun, hagrees.due⟩, by simp, rfl⟩
  | start clear read =>
    cases hstep
    refine ⟨?_, by simp, ?_⟩
    · cases clear <;> cases read <;> exact ⟨nofun, nofun, hagrees.due⟩
    · cases clear <;> cases read <;> simp <;> omega
  | input ch =>
    cases hstep
    exact ⟨⟨nofun, nofun, hagrees.due⟩, by simp, rfl⟩
  | inputV =>
    cases hstep
    exact ⟨⟨nofun, nofun, hagrees.due⟩, by simp, rfl⟩

theorem Masked.permits {who : Option ℕ} (h : Masked who c act code es c' cpu)
    (hagrees : code.known.Agrees c) (hone : (Shared.mk c (.off who code)).permits ≤ 1) :
    cpu.known.Agrees c' ∧ .panic ∉ es ∧
      (Shared.mk c' cpu).permits = (Shared.mk c (.off who code)).permits := by
  cases h with
  | putch ch => exact ⟨hagrees, by simp, rfl⟩
  | splx => exact ⟨hagrees, by simp, rfl⟩
  | irq => exact ⟨hagrees, by simp, rfl⟩
  | written ch => exact ⟨hagrees, by simp, rfl⟩
  | driver hstep =>
    cases code with
    | elsewhere => cases hstep
    | polled ch pc => exact PolledPc.step_permits hstep hagrees
    | write ch pc => exact WritePc.step_permits hstep hagrees hone
    | irq pc => exact IrqPc.step_permits hstep hagrees
    | panicked => cases hstep

/-- A step of a thread keeps the permissions, its own included. -/
theorem Moves.permits {i : ℕ} (h : Moves i act s pc es s' pc')
    (hagrees : s.cpu.known.Agrees s.softc) (hone : s.permits + (pc.sends).toNat ≤ 1) :
    s'.cpu.known.Agrees s'.softc ∧ .panic ∉ es ∧
      s'.permits + (pc'.sends).toNat = s.permits + (pc.sends).toNat := by
  cases h with
  | putch ch => exact ⟨hagrees, by simp, rfl⟩
  | getch => exact ⟨hagrees, by simp, rfl⟩
  | splhigh => exact ⟨hagrees, by simp, rfl⟩
  | @waitWrite c ch hpos =>
    refine ⟨⟨nofun, nofun, hagrees.due⟩, by simp, ?_⟩
    simp only [Shared.permits, Pc.sends, Cpu.permit, Bool.toNat_true, Bool.toNat_false]
    omega
  | send => exact ⟨hagrees, by simp, rfl⟩
  | waitRead hpos => exact ⟨⟨nofun, nofun, hagrees.due⟩, by simp, rfl⟩
  | read => exact ⟨hagrees, by simp, rfl⟩
  | @masked act c c' code cpu es hstep =>
    obtain ⟨hagrees', hpanic, hsum⟩ := hstep.permits hagrees hone
    refine ⟨hagrees', hpanic, ?_⟩
    rw [hsum]
    split <;> rfl

/-- At most one character is on its way. -/
theorem Known.Agrees.due_le_one (h : cpu.known.Agrees c) : c.due ≤ 1 := by
  have hbusy : c.wbusy.toNat ≤ 1 := Bool.toNat_le c.wbusy
  rw [h.due]
  cases cpu with
  | on => exact hbusy
  | off who code =>
    cases code with
    | elsewhere => exact hbusy
    | polled ch pc => cases pc <;> first | exact hbusy | exact Nat.zero_le 1 | exact le_rfl
    | write ch pc => cases pc <;> first | exact hbusy | exact Nat.zero_le 1
    | irq pc => cases pc <;> first | exact hbusy | exact le_rfl
    | panicked => exact hbusy

theorem OtherMoves.permits (h : OtherMoves act s es s') (hagrees : s.cpu.known.Agrees s.softc)
    (hone : s.permits ≤ 1) :
    s'.cpu.known.Agrees s'.softc ∧ .panic ∉ es ∧ s'.permits = s.permits := by
  cases h with
  | @ready c cpu hpos =>
    refine ⟨⟨hagrees.busy, fun _ => rfl, ?_⟩, by simp, rfl⟩
    have hdue := hagrees.due
    have hone := hagrees.due_le_one
    rw [← hdue]
    simp only [Softc.due, Bool.toNat_true] at hone ⊢
    -- with another character on its way the ready bit is not set yet
    omega
  | @type c cpu ch => exact ⟨⟨hagrees.busy, hagrees.ready, hagrees.due⟩, by simp, rfl⟩
  | interrupt => exact ⟨hagrees, by simp, rfl⟩
  | masked hstep => exact hstep.permits hagrees hone

/-- There is one permission to write, and the device is as the code that has the processor knows
it. -/
structure Permitted (t : State Shared Pc) : Prop where
  agrees : t.shared.cpu.known.Agrees t.shared.softc
  one : (t.shared.permits : ℤ) + total (share Pc.sends) t.threads = 1

theorem permitted_of_run {tr : List (Event Say)} {t : State Shared Pc}
    (hrun : Run console.Step init tr t) : Permitted t ∧ ∀ e ∈ tr, e.what ≠ .panic := by
  refine hrun.invariant (I := fun tr t => Permitted t ∧ ∀ e ∈ tr, e.what ≠ .panic) ?_ ?_
  · exact ⟨⟨⟨nofun, nofun, rfl⟩, rfl⟩, nofun⟩
  · rintro tr t es u - ⟨⟨hagrees, hone⟩, hpanic⟩ hs
    have hnonneg : 0 ≤ total (share Pc.sends) t.threads := by
      rw [total_share]
      omega
    -- the events of a step, whoever makes it
    have hevents : ∀ {w : Option ℕ} {es' : List Say}, .panic ∉ es' →
        ∀ e ∈ tr ++ es'.map (Event.mk w), e.what ≠ .panic := by
      intro w es' hes e he
      rcases List.mem_append.mp he with he | he
      · exact hpanic e he
      · obtain ⟨a, ha, rfl⟩ := List.mem_map.mp he
        exact fun heq => hes (heq ▸ ha)
    cases hs with
    | @thread m m' ls i l l' act es hl hstep =>
      have hmoves : Moves i act m l es m' l' := threadStep_moves hstep
      have hmine : (l.sends.toNat : ℤ) ≤ total (share Pc.sends) ls := by
        rw [← share_eq_toNat]
        exact le_total (fun l _ => share_nonneg Pc.sends l) hl
      obtain ⟨hagrees', hes, hsum⟩ := hmoves.permits hagrees (by dsimp only at hone; omega)
      refine ⟨⟨hagrees', ?_⟩, hevents hes⟩
      dsimp only at hone ⊢
      rw [total_set _ hl, share_eq_toNat, share_eq_toNat]
      omega
    | @others m m' ls act es hstep =>
      obtain ⟨hagrees', hes, hsum⟩ :=
        (otherStep_moves hstep).permits hagrees (by dsimp only at hone hnonneg; omega)
      exact ⟨⟨hagrees', by rw [hsum]; exact hone⟩, hevents hes⟩
    | @spawn m ls l hl =>
      obtain rfl : l = .run := of_decide_eq_true hl
      refine ⟨⟨hagrees, ?_⟩, by simpa using hpanic⟩
      rw [total_append, ← add_assoc]
      exact (add_zero _).trans hone

/-! ## Characters given to `putch` -/

/-- The characters given to `putch`. -/
def puts (es : List Say) : List ℕ :=
  es.filterMap fun
    | .putch ch => some ch
    | _ => none

/-- The characters written to the device. -/
def sent (es : List Say) : List ℕ :=
  es.filterMap fun
    | .char ch => some ch
    | _ => none

@[simp]
theorem puts_append (es es' : List Say) : puts (es ++ es') = puts es ++ puts es' :=
  List.filterMap_append

@[simp]
theorem sent_append (es es' : List Say) : sent (es ++ es') = sent es ++ sent es' :=
  List.filterMap_append

/-- The character that the code is about to write. -/
def Code.holds : Code → List ℕ
  | .polled _ (.spin _) | .polled _ (.finish _) | .write _ .splx => []
  | .polled ch _ | .write ch _ => [ch]
  | .elsewhere | .irq _ | .panicked => []

def Cpu.holds (w : Option ℕ) : Cpu → List ℕ
  | .on => []
  | .off who code => if who = w then code.holds else []

/-- The character of a call of `putch_intr`. -/
def Pc.holds : Pc → List ℕ
  | .put ch | .send ch => [ch]
  | .run | .get | .read | .masked => []

/-- The character of a thread that is in `putch_intr`. -/
def inPutchIntr (ls : List Pc) (w : Option ℕ) : List ℕ := (w.bind (ls[·]?)).elim [] Pc.holds

/-- The character that a thread or a handler has given to `putch` and that is not written yet. -/
def inPutch (t : State Shared Pc) (w : Option ℕ) : List ℕ :=
  inPutchIntr t.threads w ++ t.shared.cpu.holds w

section InPutchIntr

variable {ls : List Pc} {i : ℕ} {l : Pc}

theorem inPutchIntr_of_getElem (hl : ls[i]? = some l) : inPutchIntr ls (some i) = l.holds := by
  rw [inPutchIntr, Option.bind_some, hl, Option.elim_some]

theorem inPutchIntr_set (hl : ls[i]? = some l) (l' : Pc) :
    inPutchIntr (ls.set i l') (some i) = l'.holds :=
  inPutchIntr_of_getElem (List.getElem?_set_self (List.getElem?_eq_some_iff.mp hl).1)

theorem inPutchIntr_set_of_ne {w : Option ℕ} (hw : some i ≠ w) (l' : Pc) :
    inPutchIntr (ls.set i l') w = inPutchIntr ls w := by
  cases w with
  | none => rfl
  | some j =>
    have hij : i ≠ j := fun heq => hw (congrArg some heq)
    rw [inPutchIntr, inPutchIntr, Option.bind_some, Option.bind_some, List.getElem?_set_ne hij]

/-- A new thread is not in `putch_intr`. -/
theorem inPutchIntr_append (w : Option ℕ) : inPutchIntr (ls ++ [.run]) w = inPutchIntr ls w := by
  cases w with
  | none => rfl
  | some j =>
    rcases Nat.lt_or_ge j ls.length with hlt | hge
    · rw [inPutchIntr, inPutchIntr, Option.bind_some, Option.bind_some,
        List.getElem?_append_left hlt]
    · rw [inPutchIntr, inPutchIntr, Option.bind_some, Option.bind_some,
        List.getElem?_eq_none hge, List.getElem?_append_right hge, List.getElem?_singleton]
      split <;> rfl

end InPutchIntr

theorem Code.step_holds (hstep : code.step c = some (es, c', code')) (hpanic : .panic ∉ es) :
    puts es = [] ∧ code.holds = sent es ++ code'.holds := by
  unfold Code.step at hstep
  split at hstep
  case h_2 ch => cases hstep; split <;> exact ⟨rfl, rfl⟩
  case h_3 ch => cases hstep; split <;> exact ⟨rfl, rfl⟩
  case h_6 ch p => cases hstep; split <;> exact ⟨rfl, rfl⟩
  case h_8 ch =>
    split at hstep <;> cases hstep
    case isTrue => exact absurd List.mem_cons_self hpanic
    case isFalse => exact ⟨rfl, rfl⟩
  case h_18 clear read => cases hstep; cases read <;> exact ⟨rfl, rfl⟩
  all_goals
    cases hstep <;> exact ⟨rfl, rfl⟩

theorem Masked.holds {w : Option ℕ} (h : Masked w c act code es c' cpu) (hpanic : .panic ∉ es) :
    code.holds ++ puts es = sent es ++ cpu.holds w ∧ ∀ w', w' ≠ w → cpu.holds w' = [] := by
  cases h with
  | putch ch => exact ⟨(if_pos rfl).symm, fun w' hw => if_neg (Ne.symm hw)⟩
  | splx => exact ⟨rfl, fun _ _ => rfl⟩
  | irq => exact ⟨(if_pos rfl).symm, fun w' hw => if_neg (Ne.symm hw)⟩
  | written ch => exact ⟨rfl, fun _ _ => rfl⟩
  | driver hstep =>
    obtain ⟨hputs, hholds⟩ := Code.step_holds hstep hpanic
    refine ⟨?_, fun w' hw => if_neg (Ne.symm hw)⟩
    rw [hputs, List.append_nil, Cpu.holds, if_pos rfl, hholds]

/-- The character of a thread's call moves on, or is written; nobody else's does. -/
theorem Moves.holds {i : ℕ} (h : Moves i act s pc es s' pc') (hpanic : .panic ∉ es) :
    pc.holds ++ s.cpu.holds (some i) ++ puts es = sent es ++ (pc'.holds ++ s'.cpu.holds (some i)) ∧
      ∀ w, w ≠ some i → s'.cpu.holds w = s.cpu.holds w := by
  cases h with
  | putch ch => exact ⟨rfl, fun _ _ => rfl⟩
  | getch => exact ⟨rfl, fun _ _ => rfl⟩
  | splhigh => exact ⟨(if_pos rfl).symm, fun w hw => if_neg (Ne.symm hw)⟩
  | waitWrite hpos => exact ⟨rfl, fun _ _ => rfl⟩
  | send => exact ⟨(if_pos rfl).symm, fun w hw => if_neg (Ne.symm hw)⟩
  | waitRead hpos => exact ⟨rfl, fun _ _ => rfl⟩
  | read => exact ⟨rfl, fun _ _ => rfl⟩
  | @masked act c c' code cpu es hstep =>
    obtain ⟨hmine, hothers⟩ := hstep.holds hpanic
    have hafter : (if cpu = .on then Pc.run else .masked).holds = [] := by split <;> rfl
    refine ⟨?_, fun w hw => (hothers w hw).trans (if_neg (Ne.symm hw)).symm⟩
    rw [hafter, Cpu.holds, if_pos rfl]
    exact hmine

theorem OtherMoves.holds (h : OtherMoves act s es s') (hpanic : .panic ∉ es) :
    s.cpu.holds none ++ puts es = sent es ++ s'.cpu.holds none ∧
      ∀ w, w ≠ none → s'.cpu.holds w = s.cpu.holds w := by
  cases h with
  | ready hpos => exact ⟨List.append_nil _, fun _ _ => rfl⟩
  | type ch => exact ⟨List.append_nil _, fun _ _ => rfl⟩
  | interrupt => exact ⟨rfl, fun w hw => if_neg (Ne.symm hw)⟩
  | masked hstep =>
    obtain ⟨hmine, hothers⟩ := hstep.holds hpanic
    refine ⟨?_, fun w hw => (hothers w hw).trans (if_neg (Ne.symm hw)).symm⟩
    rw [Cpu.holds, if_pos rfl]
    exact hmine

/-- Along every run, what a thread or the handlers have given to `putch` is what they have written
to the device, and the character of the call that is going on. -/
theorem puts_of_run {tr : List (Event Say)} {t : State Shared Pc}
    (hrun : Run console.Step init tr t) (w : Option ℕ) :
    puts (own w tr) = sent (own w tr) ++ inPutch t w := by
  refine hrun.invariant (I := fun tr t => puts (own w tr) = sent (own w tr) ++ inPutch t w) ?_ ?_
  · cases w <;> rfl
  · intro tr t es u hrun ih hs
    have hpanic := (permitted_of_run (hrun.snoc hs)).2
    -- whoever makes the step, it is enough to look at its own characters
    have hmine : ∀ {es' : List Say}, inPutch t w ++ puts es' = sent es' ++ inPutch u w →
        puts (own w tr ++ es') = sent (own w tr ++ es') ++ inPutch u w := by
      intro es' hes
      rw [puts_append, sent_append, ih, List.append_assoc, hes, List.append_assoc]
    cases hs with
    | @thread m m' ls i l l' act es hl hstep =>
      have hes : .panic ∉ es := fun hmem => hpanic ⟨some i, .panic⟩
        (List.mem_append_right tr (List.mem_map_of_mem hmem)) rfl
      obtain ⟨hi, hothers⟩ := (threadStep_moves hstep).holds hes
      rw [own_append, own_map]
      split
      case isTrue hw =>
        subst hw
        refine hmine ?_
        rw [inPutch, inPutch, inPutchIntr_of_getElem hl, inPutchIntr_set hl]
        exact hi
      case isFalse hw =>
        refine hmine ?_
        rw [inPutch, inPutch, inPutchIntr_set_of_ne hw, hothers w (Ne.symm hw)]
        exact List.append_nil _
    | @others m m' ls act es hstep =>
      have hes : .panic ∉ es := fun hmem => hpanic ⟨none, .panic⟩
        (List.mem_append_right tr (List.mem_map_of_mem hmem)) rfl
      obtain ⟨hi, hothers⟩ := (otherStep_moves hstep).holds hes
      rw [own_append, own_map]
      split
      case isTrue hw =>
        subst hw
        exact hmine hi
      case isFalse hw =>
        refine hmine ?_
        rw [inPutch, inPutch, hothers w (Ne.symm hw)]
        exact List.append_nil _
    | @spawn m ls l hl =>
      obtain rfl : l = .run := of_decide_eq_true hl
      rw [List.append_nil, ih, inPutch, inPutch, inPutchIntr_append]

/-- The code waits for the ready bit. -/
def Code.spins : Code → Bool
  | .polled _ .spinPending | .polled _ (.spin _) => true
  | _ => false

/-- **Output.** However many threads print characters, and in whatever order the steps of threads,
interrupt handlers and the device come: while interrupts are on, the count of `cs_wsem`, `ls_wbusy`
and the threads between `P(cs_wsem)` and `lser_write` add up to one. `lser_write` does not panic;
what a thread or a handler has given to `putch` it has written to the device, each character once
and in that order, except for the one whose call is going on; a polled write waits for the ready bit
only while it is set or a character is on its way, and no two characters are. -/
theorem console_output {tr : List (Event Say)} {t : State Shared Pc}
    (hrun : Run console.Step init tr t) :
    (t.shared.cpu = .on →
      t.shared.softc.wsem + t.shared.softc.wbusy.toNat + t.threads.countP Pc.sends = 1) ∧
    (∀ e ∈ tr, e.what ≠ .panic) ∧
    (∀ w, puts (own w tr) = sent (own w tr) ++ inPutch t w) ∧
    (∀ w code, t.shared.cpu = .off w code → code.spins = true →
      t.shared.softc.wready = true ∨ 0 < t.shared.softc.unsent) ∧
    t.shared.softc.unsent ≤ 1 := by
  obtain ⟨⟨hagrees, hone⟩, hpanic⟩ := permitted_of_run hrun
  refine ⟨fun hon => ?_, hpanic, puts_of_run hrun, fun w code hcpu hspins => ?_, ?_⟩
  · rw [total_share, Shared.permits, hon] at hone
    simp only [Cpu.permit] at hone
    omega
  · have hdue : t.shared.softc.due = 1 := by
      rw [hagrees.due, hcpu]
      cases code with
      | polled ch pc => cases pc <;> first | rfl | cases hspins
      | _ => cases hspins
    rw [Softc.due] at hdue
    cases hready : t.shared.softc.wready with
    | true => exact .inl rfl
    | false =>
      rw [hready] at hdue
      exact .inr (by simp at hdue; omega)
  · have hle := hagrees.due_le_one
    rw [Softc.due] at hle
    omega

/-- The thread 0 does the acts one after the other. -/
def byThread (acts : List Act) : List (Choice Pc Act) := acts.map (.thread 0)

/-- Handlers and the device do the acts one after the other. -/
def byOthers (acts : List Act) : List (Choice Pc Act) := acts.map .others

/-- A thread prints `a`; before the device is ready a handler prints `b` by polling, and calls
`lser_irq`. -/
def printsTwo : List (Choice Pc Act) :=
  .spawn .run :: byThread [.putch 97, .go, .go, .go, .go, .go, .go] ++
    byOthers [.interrupt, .putch 98, .go, .go, .ready, .go, .go, .go, .ready, .go, .go, .irq, .go,
      .go, .go, .go, .go, .splx]

theorem console_output_printsTwo :
    sent ((console.after printsTwo init).1.map Event.what) = [97, 98] ∧
      (console.after printsTwo init).2.shared.softc.wsem +
        (console.after printsTwo init).2.shared.softc.wbusy.toNat +
        (console.after printsTwo init).2.threads.countP Pc.sends = 1 := by
  have hrun : Run console.Step init (console.after printsTwo init).1
      (console.after printsTwo init).2 := run_after (by decide)
  exact ⟨by decide, (console_output hrun).1 (by decide +kernel)⟩

end Os161.Console
