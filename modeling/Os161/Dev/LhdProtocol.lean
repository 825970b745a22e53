import Mathlib.Tactic
import Os161.Common.Interleaving
import Os161.Dev.Lhd

/-!
# The disk driver and its interrupt handler (`kern/dev/lamebus/lhd.c`)

`Os161.Dev.Lhd` takes an operation of the disk as one step. Here any number of threads are in
`lhd_io`, and their steps come in any order with those of `lhd_irq` and of the device. A thread
gets the device with `P(lh_clear)`, fills the on-card buffer, writes the registers and waits in
`P(lh_done)`; the handler stores the result in `lh_result` and wakes it up. The copies between the
buffer and the caller's memory go byte by byte and may fail at every byte.

At most one thread has the device, and what is left of its operation is in one place: in progress,
finished, in the hands of the handler, or posted (`Holds`). So operations come one after the other,
and each is answered, with its own result, to the thread that has started it (`disk_protocol`).
-/

namespace Os161.LhdProtocol

open Interleaving

/-- The register `LHD_REG_STAT`: nothing to do, an operation in progress, or its completion code. -/
inductive Status where
  | idle
  | working (rw : UioRw)
  | finished (code : LhdStatus)
deriving DecidableEq

/-- The device: its registers `STAT` and `SECT`, the on-card buffer and the sectors. -/
structure Device where
  status : Status
  sect : ℕ
  buf : Buffer
  blocks : ℕ → Buffer

/-- The operation in progress completes: if it succeeds, the sector has been copied to the buffer or
the buffer to the sector. -/
def Device.complete (d : Device) (code : LhdStatus) : Device :=
  match d.status, code with
  | .working .read, .ok => { d with status := .finished code, buf := d.blocks d.sect }
  | .working .write, .ok =>
    { d with status := .finished code, blocks := Function.update d.blocks d.sect d.buf }
  | _, _ => { d with status := .finished code }

/-- Points of `lhd_irq`. -/
inductive IrqPc where
  | readStat
  | clearStat (code : LhdStatus)
  /-- `lhd_iodone`: store the result, then `V(lh_done)`. -/
  | setResult (code : LhdStatus)
  | v
deriving DecidableEq

/-- The counts of `lh_clear` and `lh_done`, `lh_result`, `d_blocks`, the device, and where `lhd_irq`
is if it runs. -/
structure Shared where
  clear : ℕ
  done : ℕ
  result : Option Errno
  dBlocks : ℕ
  dev : Device
  irq : Option IrqPc

/-- Points of `lhd_io`. -/
inductive Pc where
  | enter
  | loop
  | waitClear
  | copyIn (j : ℕ)
  | setSect
  | setStat
  | waitDone
  | readResult
  | copyOut (j : ℕ)
  | release (result : Option Errno)
  | returned (result : Option Errno)
deriving DecidableEq

/-- A thread in `lhd_io`: the `uio` it was called with, the loop variable and the point. -/
structure Thread where
  rw : UioRw
  offset : ℤ
  resid : ℕ
  i : ℕ
  pc : Pc
deriving DecidableEq

namespace Thread

variable (l : Thread)

def goto (pc : Pc) : Thread := { l with pc := pc }

def sector : ℕ := u32 (l.offset.tdiv sectSize)

def sectoff : ℕ := u32 (l.offset.tmod sectSize)

def len : ℕ := l.resid / sectSize

def lenoff : ℕ := l.resid % sectSize

/-- The sector of this pass of the loop. -/
def block : ℕ := u32 ((l.sector + l.i : ℕ) : ℤ)

end Thread

/-- What an observer sees: a thread starts an operation, the device completes it, a thread that has
waited for the completion takes the result, and a thread reads a byte of the buffer. -/
inductive Say where
  | start (rw : UioRw) (sector : ℕ)
  | complete (code : LhdStatus)
  | answer (result : Option Errno)
  | byte (j : ℕ) (v : Byte)
deriving DecidableEq

/-- What is decided outside: the byte that `uiomove` fetches from the caller's memory or that it
fails, the next call of a thread, and what the device and the interrupt do. -/
inductive Act where
  | go
  | byte (v : Byte)
  | fault (e : Errno)
  | call (rw : UioRw) (offset : ℤ) (resid : ℕ)
  | complete (code : LhdStatus)
  | interrupt

/-- The next step of a thread. -/
def threadStep (act : Act) (s : Shared) (l : Thread) : Option (List Say × Shared × Thread) :=
  match l.pc, act with
  | .enter, .go =>
    if l.sectoff ≠ 0 ∨ l.lenoff ≠ 0 then some ([], s, l.goto (.returned (some .EINVAL)))
    else if u32 ((l.sector + l.len : ℕ) : ℤ) > s.dBlocks then
      some ([], s, l.goto (.returned (some .EINVAL)))
    else some ([], s, l.goto .loop)
  | .loop, .go => some ([], s, l.goto (if l.i < l.len then .waitClear else .returned none))
  | .waitClear, .go =>
    if 0 < s.clear then
      some ([], { s with clear := s.clear - 1 },
        l.goto (if l.rw = .write then .copyIn 0 else .setSect))
    else none
  | .copyIn j, .byte v =>
    some ([], { s with dev := { s.dev with buf := Function.update s.dev.buf j v } },
      l.goto (if j + 1 < sectSize then .copyIn (j + 1) else .setSect))
  | .copyIn _, .fault e => some ([], s, l.goto (.release (some e)))
  | .setSect, .go => some ([], { s with dev := { s.dev with sect := l.block } }, l.goto .setStat)
  | .setStat, .go =>
    some ([.start l.rw l.block], { s with dev := { s.dev with status := .working l.rw } },
      l.goto .waitDone)
  | .waitDone, .go =>
    if 0 < s.done then some ([], { s with done := s.done - 1 }, l.goto .readResult) else none
  | .readResult, .go =>
    some ([.answer s.result], s,
      l.goto (if s.result = none ∧ l.rw = .read then .copyOut 0 else .release s.result))
  | .copyOut j, .go =>
    some ([.byte j (s.dev.buf j)], s,
      l.goto (if j + 1 < sectSize then .copyOut (j + 1) else .release none))
  | .copyOut _, .fault e => some ([], s, l.goto (.release (some e)))
  | .release none, .go =>
    some ([], { s with clear := s.clear + 1 }, { l with i := l.i + 1, pc := .loop })
  | .release (some e), .go =>
    some ([], { s with clear := s.clear + 1 }, l.goto (.returned (some e)))
  | .returned _, .call rw offset resid => some ([], s, ⟨rw, offset, resid, 0, .enter⟩)
  | _, _ => none

/-- The device and `lhd_irq`. The device completes an operation that is in progress; an interrupt
may come at any time, and does nothing where no operation has finished or the code is not one that
the handler knows. -/
def otherStep (act : Act) (s : Shared) : Option (List Say × Shared) :=
  match act, s.irq with
  | .complete code, _ =>
    match s.dev.status with
    | .working _ => some ([.complete code], { s with dev := s.dev.complete code })
    | _ => none
  | .interrupt, none => some ([], { s with irq := some .readStat })
  | .go, some .readStat =>
    match s.dev.status with
    | .idle | .working _ | .finished .unknown => some ([], { s with irq := none })
    | .finished code => some ([], { s with irq := some (.clearStat code) })
  | .go, some (.clearStat code) =>
    some ([], { s with dev := { s.dev with status := .idle }, irq := some (.setResult code) })
  | .go, some (.setResult code) =>
    some ([], { s with result := lhdCodeToErrno code, irq := some .v })
  | .go, some .v => some ([], { s with done := s.done + 1, irq := none })
  | _, _ => none

/-- Any number of threads in `lhd_io`. -/
def lhd : Interleaving Shared Thread Say Act where
  thread _ := threadStep
  others := otherStep
  start l := l.pc = .enter ∧ l.i = 0

/-- After `config_lhd`, with what has been on the disk and in the buffer. -/
def init (dBlocks : ℕ) (result : Option Errno) (sect : ℕ) (buf : Buffer) (blocks : ℕ → Buffer) :
    State Shared Thread :=
  ⟨⟨1, 0, result, dBlocks, ⟨.idle, sect, buf, blocks⟩, none⟩, []⟩

/-! ## What a step does -/

/-- Between `P(lh_clear)` and `V(lh_clear)`. -/
def Thread.holds (l : Thread) : Bool :=
  match l.pc with
  | .copyIn _ | .setSect | .setStat | .waitDone | .readResult | .copyOut _ | .release _ => true
  | .enter | .loop | .waitClear | .returned _ => false

section Moves

variable {act : Act} {s s' : Shared} {l l' : Thread} {es : List Say}

/-- What a thread does in one step. -/
inductive Moves (s : Shared) (l : Thread) : List Say → Shared → Thread → Prop where
  | outside {l' : Thread} (hl : l.holds = false) (hl' : l'.holds = false) : Moves s l [] s l'
  | waitClear {pc : Pc} (hpc : l.pc = .waitClear) (hpos : 0 < s.clear)
      (hpc' : pc = .copyIn 0 ∨ pc = .setSect) :
      Moves s l [] { s with clear := s.clear - 1 } (l.goto pc)
  | copyIn {j : ℕ} {v : Byte} {pc : Pc} (hpc : l.pc = .copyIn j)
      (hpc' : pc = .copyIn (j + 1) ∨ pc = .setSect) :
      Moves s l [] { s with dev := { s.dev with buf := Function.update s.dev.buf j v } } (l.goto pc)
  | fault {j : ℕ} {e : Errno} (hpc : l.pc = .copyIn j ∨ l.pc = .copyOut j) :
      Moves s l [] s (l.goto (.release (some e)))
  | setSect (hpc : l.pc = .setSect) :
      Moves s l [] { s with dev := { s.dev with sect := l.block } } (l.goto .setStat)
  | setStat (hpc : l.pc = .setStat) :
      Moves s l [.start l.rw l.block] { s with dev := { s.dev with status := .working l.rw } }
        (l.goto .waitDone)
  | waitDone (hpc : l.pc = .waitDone) (hpos : 0 < s.done) :
      Moves s l [] { s with done := s.done - 1 } (l.goto .readResult)
  | readResult {pc : Pc} (hpc : l.pc = .readResult)
      (hpc' : pc = .copyOut 0 ∧ s.result = none ∧ l.rw = .read ∨ pc = .release s.result) :
      Moves s l [.answer s.result] s (l.goto pc)
  | copyOut {j : ℕ} {pc : Pc} (hpc : l.pc = .copyOut j)
      (hpc' : pc = .copyOut (j + 1) ∨ pc = .release none) :
      Moves s l [.byte j (s.dev.buf j)] s (l.goto pc)
  | release {r : Option Errno} {l' : Thread} (hpc : l.pc = .release r) (hl' : l'.holds = false) :
      Moves s l [] { s with clear := s.clear + 1 } l'

theorem threadStep_moves (h : threadStep act s l = some (es, s', l')) : Moves s l es s' l' := by
  have hout : ∀ {pc : Pc}, l.holds = false → (l.goto pc).holds = false →
      some (([] : List Say), s, l.goto pc) = some (es, s', l') → Moves s l es s' l' := by
    intro pc hl hl' heq
    cases heq
    exact .outside hl hl'
  unfold threadStep at h
  split at h
  case h_1 hpc =>
    have hl : l.holds = false := by rw [Thread.holds, hpc]
    split at h
    · exact hout hl rfl h
    · split at h
      · exact hout hl rfl h
      · exact hout hl rfl h
  case h_2 hpc =>
    have hl : l.holds = false := by rw [Thread.holds, hpc]
    refine hout hl ?_ h
    split <;> rfl
  case h_3 hpc =>
    split at h <;> cases h
    case isTrue hpos =>
      refine .waitClear hpc hpos ?_
      split
      · exact .inl rfl
      · exact .inr rfl
  case h_4 j v hpc =>
    cases h
    refine .copyIn hpc ?_
    split
    · exact .inl rfl
    · exact .inr rfl
  case h_5 j e hpc => cases h; exact .fault (.inl hpc)
  case h_6 hpc => cases h; exact .setSect hpc
  case h_7 hpc => cases h; exact .setStat hpc
  case h_8 hpc =>
    split at h <;> cases h
    case isTrue hpos => exact .waitDone hpc hpos
  case h_9 hpc =>
    cases h
    refine .readResult hpc ?_
    split
    case isTrue hread => exact .inl ⟨rfl, hread⟩
    case isFalse => exact .inr rfl
  case h_10 j hpc =>
    cases h
    refine .copyOut hpc ?_
    split
    · exact .inl rfl
    · exact .inr rfl
  case h_11 j e hpc => cases h; exact .fault (.inr hpc)
  case h_12 hpc => cases h; exact .release hpc rfl
  case h_13 e hpc => cases h; exact .release hpc rfl
  case h_14 r rw offset resid hpc =>
    cases h
    exact .outside (by rw [Thread.holds, hpc]) rfl
  case h_15 => cases h

/-- What the device and the handler do in one step. -/
inductive OtherMoves (s : Shared) : List Say → Shared → Prop where
  | complete {rw : UioRw} (code : LhdStatus) (hstatus : s.dev.status = .working rw) :
      OtherMoves s [.complete code] { s with dev := s.dev.complete code }
  | interrupt (hirq : s.irq = none) : OtherMoves s [] { s with irq := some .readStat }
  | nothing (hirq : s.irq = some .readStat) : OtherMoves s [] { s with irq := none }
  | readStat {code : LhdStatus} (hirq : s.irq = some .readStat)
      (hstatus : s.dev.status = .finished code) :
      OtherMoves s [] { s with irq := some (.clearStat code) }
  | clearStat {code : LhdStatus} (hirq : s.irq = some (.clearStat code)) :
      OtherMoves s [] { s with dev := { s.dev with status := .idle }, irq := some (.setResult code) }
  | setResult {code : LhdStatus} (hirq : s.irq = some (.setResult code)) :
      OtherMoves s [] { s with result := lhdCodeToErrno code, irq := some .v }
  | v (hirq : s.irq = some .v) : OtherMoves s [] { s with done := s.done + 1, irq := none }

theorem otherStep_moves (h : otherStep act s = some (es, s')) : OtherMoves s es s' := by
  unfold otherStep at h
  split at h
  case h_1 code =>
    split at h <;> cases h
    case h_1 rw hstatus => exact .complete code hstatus
  case h_2 hirq => cases h; exact .interrupt hirq
  case h_3 hirq =>
    split at h <;> cases h
    case h_1 => exact .nothing hirq
    case h_2 => exact .nothing hirq
    case h_3 => exact .nothing hirq
    case h_4 code _ hstatus => exact .readStat hirq hstatus
  case h_4 code hirq => cases h; exact .clearStat hirq
  case h_5 code hirq => cases h; exact .setResult hirq
  case h_6 hirq => cases h; exact .v hirq
  case h_7 => cases h

end Moves

/-! ## One operation after the other -/

/-- How far the operation is that has been started last, and by whom. -/
inductive Phase where
  | idle
  | working (i : ℕ)
  | complete (i : ℕ) (code : LhdStatus)
deriving DecidableEq

/-- The protocol. An operation is started while there is none; the device completes the one in
progress; then the thread that has started it takes the result of that completion. The buffer is
read while there is none. -/
def Phase.next : Phase → Event Say → Option Phase
  | .idle, ⟨some i, .start _ _⟩ => some (.working i)
  | .working i, ⟨none, .complete code⟩ => some (.complete i code)
  | .complete i code, ⟨some j, .answer r⟩ =>
    if j = i ∧ r = lhdCodeToErrno code then some .idle else none
  | .idle, ⟨some _, .byte _ _⟩ => some .idle
  | _, _ => none

/-- Where a trace that keeps to the protocol leads. -/
def phase (tr : List (Event Say)) : Option Phase := tr.foldlM Phase.next .idle

/-- The handler does not run, or is about to read the status. -/
def Resting (irq : Option IrqPc) : Prop := irq = none ∨ irq = some .readStat

/-- No operation is in progress or waits to be answered. -/
structure Quiet (s : Shared) : Prop where
  status : s.dev.status = .idle
  done : s.done = 0
  irq : Resting s.irq

/-- The completion of an operation is on its way to the thread: at the device, with the handler, or
at the semaphore. -/
inductive Posting (code : LhdStatus) (s : Shared) : Prop where
  | finished (hstatus : s.dev.status = .finished code) (hdone : s.done = 0)
      (hirq : Resting s.irq ∨ s.irq = some (.clearStat code))
  | cleared (hstatus : s.dev.status = .idle) (hdone : s.done = 0)
      (hirq : s.irq = some (.setResult code))
  | stored (hstatus : s.dev.status = .idle) (hdone : s.done = 0) (hirq : s.irq = some .v)
      (hresult : s.result = lhdCodeToErrno code)
  | posted (hstatus : s.dev.status = .idle) (hdone : s.done = 1) (hirq : Resting s.irq)
      (hresult : s.result = lhdCodeToErrno code)

/-- A read that has succeeded has brought the sector to the buffer. -/
def Delivered (code : LhdStatus) (s : Shared) (l : Thread) : Prop :=
  code = .ok → l.rw = .read → s.dev.buf = s.dev.blocks l.block

/-- The operation of the thread is in progress. -/
structure InProgress (s : Shared) (l : Thread) : Prop where
  status : s.dev.status = .working l.rw
  sect : s.dev.sect = l.block
  done : s.done = 0
  irq : Resting s.irq

/-- The thread `i` has the device, and this is where its operation is. -/
def Holds (s : Shared) (i : ℕ) (l : Thread) (p : Phase) : Prop :=
  match l.pc with
  | .copyIn _ | .setSect | .release _ => p = .idle ∧ Quiet s
  | .setStat => p = .idle ∧ Quiet s ∧ s.dev.sect = l.block
  | .waitDone => p = .working i ∧ InProgress s l ∨
      ∃ code, p = .complete i code ∧ Posting code s ∧ Delivered code s l
  | .readResult => ∃ code, p = .complete i code ∧ Quiet s ∧ s.result = lhdCodeToErrno code ∧
      Delivered code s l
  | .copyOut _ => p = .idle ∧ Quiet s ∧ s.dev.buf = s.dev.blocks l.block
  | .enter | .loop | .waitClear | .returned _ => False

section Steps

variable {s s' : Shared} {i : ℕ} {l l' : Thread} {es : List Say} {p : Phase}

/-- While the handler rests, the device completes the operation in progress, the handler finds one
that has finished, or nothing happens. -/
theorem OtherMoves.of_resting (h : OtherMoves s es s') (hirq : Resting s.irq) :
    (∃ rw code, s.dev.status = .working rw ∧ es = [.complete code] ∧
      s' = { s with dev := s.dev.complete code }) ∨
    (∃ code, s.dev.status = .finished code ∧ es = [] ∧
      s' = { s with irq := some (.clearStat code) }) ∨
    ∃ irq, Resting irq ∧ es = [] ∧ s' = { s with irq := irq } := by
  have hno : ∀ {pc : IrqPc}, pc ≠ .readStat → s.irq ≠ some pc := by
    intro pc hpc heq
    rcases hirq with hnone | hread
    · rw [hnone] at heq
      cases heq
    · exact hpc (Option.some.inj (heq.symm.trans hread))
  cases h with
  | complete code hstatus => exact .inl ⟨_, code, hstatus, rfl, rfl⟩
  | interrupt => exact .inr (.inr ⟨_, .inr rfl, rfl, rfl⟩)
  | nothing => exact .inr (.inr ⟨_, .inl rfl, rfl, rfl⟩)
  | readStat _ hstatus => exact .inr (.inl ⟨_, hstatus, rfl, rfl⟩)
  | clearStat h => exact absurd h (hno nofun)
  | setResult h => exact absurd h (hno nofun)
  | v h => exact absurd h (hno nofun)

theorem Quiet.other (h : Quiet s) (hmoves : OtherMoves s es s') :
    Quiet s' ∧ es = [] ∧ s'.dev = s.dev ∧ s'.result = s.result := by
  obtain ⟨hstatus, hdone, hirq⟩ := h
  rcases hmoves.of_resting hirq with ⟨_, _, hworking, -⟩ | ⟨_, hfinished, -⟩ | ⟨irq, hrest, rfl, rfl⟩
  · rw [hworking] at hstatus
    cases hstatus
  · rw [hfinished] at hstatus
    cases hstatus
  · exact ⟨⟨hstatus, hdone, hrest⟩, rfl, rfl, rfl⟩

theorem Posting.other {code : LhdStatus} (h : Posting code s) (hmoves : OtherMoves s es s') :
    Posting code s' ∧ es = [] ∧ s'.dev.buf = s.dev.buf ∧ s'.dev.blocks = s.dev.blocks := by
  cases h with
  | finished hstatus hdone hirq =>
    rcases hirq with hrest | hclear
    · rcases hmoves.of_resting hrest with
        ⟨_, _, hworking, -⟩ | ⟨code', hfinished, rfl, rfl⟩ | ⟨irq, hrest', rfl, rfl⟩
      · rw [hworking] at hstatus
        cases hstatus
      · obtain rfl : code' = code := Status.finished.inj (hfinished.symm.trans hstatus)
        exact ⟨.finished hstatus hdone (.inr rfl), rfl, rfl, rfl⟩
      · exact ⟨.finished hstatus hdone (.inl hrest'), rfl, rfl, rfl⟩
    · cases hmoves with
      | complete code hworking => rw [hworking] at hstatus; cases hstatus
      | clearStat h =>
        rw [hclear] at h
        cases h
        exact ⟨.cleared rfl hdone rfl, rfl, rfl, rfl⟩
      | interrupt h | nothing h | readStat h | setResult h | v h => rw [hclear] at h; cases h
  | cleared hstatus hdone hirq =>
    cases hmoves with
    | complete code hworking => rw [hworking] at hstatus; cases hstatus
    | setResult h =>
      rw [hirq] at h
      cases h
      exact ⟨.stored hstatus hdone rfl rfl, rfl, rfl, rfl⟩
    | interrupt h | nothing h | readStat h | clearStat h | v h => rw [hirq] at h; cases h
  | stored hstatus hdone hirq hresult =>
    cases hmoves with
    | complete code hworking => rw [hworking] at hstatus; cases hstatus
    | v _ => exact ⟨.posted hstatus (congrArg (· + 1) hdone) (.inl rfl) hresult, rfl, rfl, rfl⟩
    | interrupt h | nothing h | readStat h | clearStat h | setResult h => rw [hirq] at h; cases h
  | posted hstatus hdone hirq hresult =>
    rcases hmoves.of_resting hirq with
      ⟨_, _, hworking, -⟩ | ⟨_, hfinished, -⟩ | ⟨irq, hrest, rfl, rfl⟩
    · rw [hworking] at hstatus
      cases hstatus
    · rw [hfinished] at hstatus
      cases hstatus
    · exact ⟨.posted hstatus hdone hrest hresult, rfl, rfl, rfl⟩

/-- The operation in progress completes. -/
theorem Device.complete_status (d : Device) (code : LhdStatus) :
    (d.complete code).status = .finished code := by
  unfold Device.complete
  split <;> rfl

theorem Device.complete_delivered {d : Device} (hstatus : d.status = .working .read) :
    (d.complete .ok).buf = (d.complete .ok).blocks d.sect := by
  simp [Device.complete, hstatus]

theorem InProgress.other (h : InProgress s l) (hmoves : OtherMoves s es s') :
    es = [] ∧ InProgress s' l ∨
      ∃ code, es = [.complete code] ∧ Posting code s' ∧ Delivered code s' l := by
  obtain ⟨hstatus, hsect, hdone, hirq⟩ := h
  rcases hmoves.of_resting hirq with
    ⟨_, code, -, rfl, rfl⟩ | ⟨_, hfinished, -⟩ | ⟨irq, hrest, rfl, rfl⟩
  · refine .inr ⟨code, rfl, .finished (s.dev.complete_status code) hdone (.inl hirq), ?_⟩
    rintro rfl hread
    rw [← hsect]
    exact Device.complete_delivered (hread ▸ hstatus)
  · rw [hfinished] at hstatus
    cases hstatus
  · exact .inl ⟨rfl, ⟨hstatus, hsect, hdone, hrest⟩⟩

theorem holds_of_holds (h : Holds s i l p) : l.holds = true := by
  obtain ⟨rw, offset, resid, i, pc⟩ := l
  cases pc <;> first | rfl | exact False.elim h

theorem Holds.other (h : Holds s i l p) (hmoves : OtherMoves s es s') :
    ∃ p', Holds s' i l p' ∧ (es.map (Event.mk none)).foldlM Phase.next p = some p' := by
  unfold Holds at h ⊢
  split at h
  case h_1 | h_2 | h_3 =>
    obtain ⟨rfl, hquiet⟩ := h
    obtain ⟨hquiet', rfl, -⟩ := hquiet.other hmoves
    exact ⟨.idle, ⟨rfl, hquiet'⟩, rfl⟩
  case h_4 =>
    obtain ⟨rfl, hquiet, hsect⟩ := h
    obtain ⟨hquiet', rfl, hdev, -⟩ := hquiet.other hmoves
    exact ⟨.idle, ⟨rfl, hquiet', hdev ▸ hsect⟩, rfl⟩
  case h_5 =>
    rcases h with ⟨rfl, hprogress⟩ | ⟨code, rfl, hposting, hdata⟩
    · rcases hprogress.other hmoves with ⟨rfl, hprogress'⟩ | ⟨code, rfl, hposting, hdata⟩
      · exact ⟨.working i, .inl ⟨rfl, hprogress'⟩, rfl⟩
      · exact ⟨.complete i code, .inr ⟨code, rfl, hposting, hdata⟩, rfl⟩
    · obtain ⟨hposting', rfl, hbuf, hblocks⟩ := hposting.other hmoves
      refine ⟨.complete i code, .inr ⟨code, rfl, hposting', ?_⟩, rfl⟩
      rw [Delivered, hbuf, hblocks]
      exact hdata
  case h_6 =>
    obtain ⟨code, rfl, hquiet, hresult, hdata⟩ := h
    obtain ⟨hquiet', rfl, hdev, heq⟩ := hquiet.other hmoves
    refine ⟨.complete i code, ⟨code, rfl, hquiet', heq.trans hresult, ?_⟩, rfl⟩
    rw [Delivered, hdev]
    exact hdata
  case h_7 =>
    obtain ⟨rfl, hquiet, hdata⟩ := h
    obtain ⟨hquiet', rfl, hdev, -⟩ := hquiet.other hmoves
    exact ⟨.idle, ⟨rfl, hquiet', hdev ▸ hdata⟩, rfl⟩
  all_goals exact h.elim

/-- A step of the thread that has the device: it keeps it, or gives it back. -/
theorem Holds.thread (h : Holds s i l p) (hmoves : Moves s l es s' l') :
    (l'.holds = true ∧ s'.clear = s.clear ∧
      ∃ p', Holds s' i l' p' ∧ (es.map (Event.mk (some i))).foldlM Phase.next p = some p') ∨
    (l'.holds = false ∧ s'.clear = s.clear + 1 ∧ Quiet s' ∧ p = .idle ∧ es = []) := by
  cases hmoves with
  | outside hl _ => exact absurd (holds_of_holds h) (by rw [hl]; exact Bool.false_ne_true)
  | waitClear hpc =>
    rw [Holds, hpc] at h
    exact h.elim
  | copyIn hpc hpc' =>
    rw [Holds, hpc] at h
    obtain ⟨rfl, hquiet⟩ := h
    refine .inl ⟨?_, rfl, .idle, ?_, rfl⟩
    · rcases hpc' with rfl | rfl <;> rfl
    · rcases hpc' with rfl | rfl <;> exact ⟨rfl, ⟨hquiet.status, hquiet.done, hquiet.irq⟩⟩
  | fault hpc =>
    have hquiet : p = .idle ∧ Quiet s := by
      rcases hpc with hpc | hpc
      · rw [Holds, hpc] at h
        exact h
      · rw [Holds, hpc] at h
        exact ⟨h.1, h.2.1⟩
    obtain ⟨rfl, hquiet⟩ := hquiet
    exact .inl ⟨rfl, rfl, .idle, ⟨rfl, hquiet⟩, rfl⟩
  | setSect hpc =>
    rw [Holds, hpc] at h
    obtain ⟨rfl, hquiet⟩ := h
    exact .inl ⟨rfl, rfl, .idle, ⟨rfl, ⟨hquiet.status, hquiet.done, hquiet.irq⟩, rfl⟩, rfl⟩
  | setStat hpc =>
    rw [Holds, hpc] at h
    obtain ⟨rfl, hquiet, hsect⟩ := h
    refine .inl ⟨rfl, rfl, .working i, .inl ⟨rfl, ?_⟩, rfl⟩
    exact ⟨rfl, hsect, hquiet.done, hquiet.irq⟩
  | waitDone hpc hpos =>
    rw [Holds, hpc] at h
    -- a completion has been posted, so nothing is left at the device or with the handler
    rcases h with ⟨-, hprogress⟩ | ⟨code, rfl, hposting, hdata⟩
    · rw [hprogress.done] at hpos
      cases hpos
    · cases hposting with
      | finished _ hdone | cleared _ hdone | stored _ hdone => rw [hdone] at hpos; cases hpos
      | posted hstatus hdone hirq hresult =>
        refine .inl ⟨rfl, rfl, .complete i code, ⟨code, rfl, ⟨hstatus, ?_, hirq⟩, hresult, hdata⟩, rfl⟩
        rw [hdone]
  | readResult hpc hpc' =>
    rw [Holds, hpc] at h
    obtain ⟨code, rfl, hquiet, hresult, hdata⟩ := h
    have hnext : Phase.next (.complete i code) ⟨some i, .answer s.result⟩ = some .idle :=
      if_pos ⟨rfl, hresult⟩
    have hfold : (([.answer s.result] : List Say).map (Event.mk (some i))).foldlM Phase.next
        (.complete i code) = some .idle := by
      simp [hnext]
    rcases hpc' with ⟨rfl, hnone, hread⟩ | rfl
    · have hok : code = .ok := by
        rw [hnone] at hresult
        cases code with
        | ok => rfl
        | invsect | media | unknown => cases hresult
      exact .inl ⟨rfl, rfl, .idle, ⟨rfl, hquiet, hdata hok hread⟩, hfold⟩
    · exact .inl ⟨rfl, rfl, .idle, ⟨rfl, hquiet⟩, hfold⟩
  | copyOut hpc hpc' =>
    rw [Holds, hpc] at h
    obtain ⟨rfl, hquiet, hdata⟩ := h
    rcases hpc' with rfl | rfl
    · exact .inl ⟨rfl, rfl, .idle, ⟨rfl, hquiet, hdata⟩, rfl⟩
    · exact .inl ⟨rfl, rfl, .idle, ⟨rfl, hquiet⟩, rfl⟩
  | release hpc hl' =>
    rw [Holds, hpc] at h
    obtain ⟨rfl, hquiet⟩ := h
    exact .inr ⟨hl', rfl, ⟨hquiet.status, hquiet.done, hquiet.irq⟩, rfl, rfl⟩

end Steps

/-- Either no thread has the device and there is no operation, or one has it. -/
structure Inv (tr : List (Event Say)) (t : State Shared Thread) : Prop where
  ledger : (t.shared.clear : ℤ) + total (share Thread.holds) t.threads = 1
  place : phase tr = some .idle ∧ Quiet t.shared ∧ (∀ l ∈ t.threads, l.holds = false) ∨
    ∃ (i : ℕ) (l : Thread) (p : Phase),
      t.threads[i]? = some l ∧ Holds t.shared i l p ∧ phase tr = some p

theorem phase_append {tr tr' : List (Event Say)} {p : Phase} (h : phase tr = some p) :
    phase (tr ++ tr') = tr'.foldlM Phase.next p := by
  rw [phase, List.foldlM_append]
  exact (congrArg (· >>= _) h).trans (Option.bind_some ..)

section Inv

variable {tr : List (Event Say)} {m m' : Shared} {ls : List Thread} {i : ℕ} {l l' : Thread}
  {es : List Say}

/-- The thread that holds is the one that has the device. -/
theorem Inv.holder (h : Inv tr ⟨m, ls⟩) (hl : ls[i]? = some l) (hholds : l.holds = true) :
    ∃ p, Holds m i l p ∧ phase tr = some p := by
  rcases h.place with ⟨-, -, hnone⟩ | ⟨j, l', p, hl', hj, hp⟩
  · rw [hnone l (List.mem_of_getElem? hl)] at hholds
    cases hholds
  · have hledger := h.ledger
    dsimp only at hledger
    have hshare : ∀ {l : Thread}, l.holds = true → 0 < share Thread.holds l := by
      intro l hl
      rw [share_eq_toNat, hl]
      exact Int.one_pos
    obtain rfl : i = j := eq_of_total_le_one (fun l _ => share_nonneg Thread.holds l) (by omega)
      hl hl' (hshare hholds) (hshare (holds_of_holds hj))
    obtain rfl : l = l' := Option.some.inj (hl.symm.trans hl')
    exact ⟨p, hj, hp⟩

/-- While `lh_clear` is positive no thread has the device. -/
theorem Inv.free (h : Inv tr ⟨m, ls⟩) (hpos : 0 < m.clear) :
    phase tr = some .idle ∧ Quiet m ∧ ∀ l ∈ ls, l.holds = false := by
  have hledger := h.ledger
  dsimp only at hledger
  rcases h.place with hfree | ⟨j, l', p, hl', hj, hp⟩
  · exact hfree
  · have hle : total (share Thread.holds) ls ≤ 0 := by omega
    have hnone := eq_false_of_total_share_le hle (List.mem_of_getElem? hl')
    rw [holds_of_holds hj] at hnone
    cases hnone

theorem Inv.thread (h : Inv tr ⟨m, ls⟩) (hl : ls[i]? = some l) (hmoves : Moves m l es m' l') :
    Inv (tr ++ es.map (Event.mk (some i))) ⟨m', ls.set i l'⟩ := by
  have hlt := (List.getElem?_eq_some_iff.mp hl).1
  have hledger := h.ledger
  dsimp only at hledger
  by_cases hholds : l.holds = true
  · obtain ⟨p, hp, hphase⟩ := h.holder hl hholds
    rcases hp.thread hmoves with ⟨hl', hclear, p', hp', hnext⟩ | ⟨hl', hclear, hquiet, rfl, rfl⟩
    · refine ⟨?_, .inr ⟨i, l', p', List.getElem?_set_self hlt, hp', ?_⟩⟩
      · dsimp only
        rw [total_set _ hl, share_eq_toNat, share_eq_toNat, hholds, hl', hclear]
        omega
      · rw [phase_append hphase, hnext]
    · have hledger' : (m'.clear : ℤ) + total (share Thread.holds) (ls.set i l') = 1 := by
        rw [total_set _ hl, share_eq_toNat, share_eq_toNat, hholds, hl', hclear]
        push_cast [Bool.toNat_true, Bool.toNat_false]
        omega
      have hle : total (share Thread.holds) (ls.set i l') ≤ 0 := by omega
      refine ⟨hledger', .inl ⟨?_, hquiet, fun k hk => eq_false_of_total_share_le hle hk⟩⟩
      rw [List.map_nil, List.append_nil, hphase]
  · have hout : l.holds = false := by simpa using hholds
    cases hmoves with
    | outside _ hl' =>
      refine ⟨?_, ?_⟩
      · dsimp only
        rw [total_set _ hl, share_eq_toNat, share_eq_toNat, hout, hl']
        omega
      · rw [List.map_nil, List.append_nil]
        rcases h.place with ⟨hphase, hquiet, hnone⟩ | ⟨j, k, p, hk, hp, hphase⟩
        · refine .inl ⟨hphase, hquiet, fun k hk => ?_⟩
          rcases List.mem_or_eq_of_mem_set hk with hmem | rfl
          · exact hnone k hmem
          · exact hl'
        · have hij : i ≠ j := by
            rintro rfl
            obtain rfl : l = k := Option.some.inj (hl.symm.trans hk)
            rw [holds_of_holds hp] at hout
            cases hout
          exact .inr ⟨j, k, p, (List.getElem?_set_ne hij).trans hk, hp, hphase⟩
    | @waitClear pc hpc hpos hpc' =>
      obtain ⟨hphase, hquiet, -⟩ := h.free hpos
      have hin : (l.goto pc).holds = true := by rcases hpc' with rfl | rfl <;> rfl
      have hholds' : Holds { m with clear := m.clear - 1 } i (l.goto pc) .idle := by
        rcases hpc' with rfl | rfl <;> exact ⟨rfl, ⟨hquiet.status, hquiet.done, hquiet.irq⟩⟩
      refine ⟨?_, .inr ⟨i, _, .idle, List.getElem?_set_self hlt, hholds', ?_⟩⟩
      · dsimp only
        rw [total_set _ hl, share_eq_toNat, share_eq_toNat, hout, hin]
        push_cast [Bool.toNat_true, Bool.toNat_false, Nat.cast_sub hpos]
        omega
      · rw [List.map_nil, List.append_nil, hphase]
    | copyIn hpc | setSect hpc | setStat hpc | waitDone hpc | readResult hpc | copyOut hpc
    | release hpc =>
      rw [Thread.holds, hpc] at hout
      cases hout
    | fault hpc =>
      rcases hpc with hpc | hpc <;> rw [Thread.holds, hpc] at hout <;> cases hout

theorem Inv.others (h : Inv tr ⟨m, ls⟩) (hmoves : OtherMoves m es m') :
    Inv (tr ++ es.map (Event.mk none)) ⟨m', ls⟩ := by
  have hclear : m'.clear = m.clear := by cases hmoves <;> rfl
  have hledger := h.ledger
  refine ⟨hclear ▸ hledger, ?_⟩
  rcases h.place with ⟨hphase, hquiet, hnone⟩ | ⟨j, k, p, hk, hp, hphase⟩
  · obtain ⟨hquiet', rfl, -⟩ := hquiet.other hmoves
    exact .inl ⟨by rw [List.map_nil, List.append_nil, hphase], hquiet', hnone⟩
  · obtain ⟨p', hp', hnext⟩ := hp.other hmoves
    exact .inr ⟨j, k, p', hk, hp', by rw [phase_append hphase, hnext]⟩

theorem inv_of_run {dBlocks : ℕ} {result : Option Errno} {sect : ℕ} {buf : Buffer}
    {blocks : ℕ → Buffer} {t : State Shared Thread}
    (hrun : Run lhd.Step (init dBlocks result sect buf blocks) tr t) : Inv tr t := by
  refine hrun.invariant (I := Inv) ⟨rfl, .inl ⟨rfl, ⟨rfl, rfl, .inl rfl⟩, ?_⟩⟩ ?_
  · exact fun l hl => absurd hl List.not_mem_nil
  intro tr t es u _ h hs
  cases hs with
  | thread hl hstep => exact h.thread hl (threadStep_moves hstep)
  | others hstep => exact h.others (otherStep_moves hstep)
  | @spawn m ls l hl =>
    have hnew : l.holds = false := by
      rw [Thread.holds, (of_decide_eq_true hl).1]
    rw [List.append_nil]
    refine ⟨?_, ?_⟩
    · have hledger := h.ledger
      dsimp only at hledger ⊢
      rw [total_append, share_eq_toNat, hnew]
      exact (congrArg _ (add_zero _)).trans hledger
    · rcases h.place with ⟨hphase, hquiet, hnone⟩ | ⟨j, k, p, hk, hp, hphase⟩
      · refine .inl ⟨hphase, hquiet, fun k hk => ?_⟩
        rcases List.mem_append.mp hk with hk | hk
        · exact hnone k hk
        · exact List.mem_singleton.mp hk ▸ hnew
      · have hlt := (List.getElem?_eq_some_iff.mp hk).1
        exact .inr ⟨j, k, p, (List.getElem?_append_left hlt).trans hk, hp, hphase⟩

theorem Posting.status_ne {code : LhdStatus} {s : Shared} (h : Posting code s) (rw : UioRw) :
    s.dev.status ≠ .working rw := by
  intro hworking
  cases h with
  | finished hstatus | cleared hstatus | stored hstatus | posted hstatus =>
    rw [hstatus] at hworking
    cases hworking

/-- An operation in progress is that of the thread that has the device. -/
theorem Inv.inProgress (h : Inv tr ⟨m, ls⟩) {rw : UioRw} (hstatus : m.dev.status = .working rw) :
    ∃ (i : ℕ) (l : Thread), ls[i]? = some l ∧ l.pc = .waitDone ∧ InProgress m l ∧
      phase tr = some (.working i) := by
  have hquiet : ¬ Quiet m := by
    intro hq
    rw [hq.status] at hstatus
    cases hstatus
  rcases h.place with ⟨-, hq, -⟩ | ⟨i, l, p, hl, hp, hphase⟩
  · exact absurd hq hquiet
  · refine ⟨i, l, hl, ?_⟩
    unfold Holds at hp
    split at hp
    case h_1 | h_2 | h_3 => exact absurd hp.2 hquiet
    case h_4 => exact absurd hp.2.1 hquiet
    case h_5 hpc =>
      rcases hp with ⟨rfl, hprogress⟩ | ⟨code, -, hposting, -⟩
      · exact ⟨hpc, hprogress, hphase⟩
      · exact absurd hstatus (hposting.status_ne rw)
    case h_6 =>
      obtain ⟨code, -, hq, -⟩ := hp
      exact absurd hq hquiet
    case h_7 => exact absurd hp.2.1 hquiet
    all_goals exact hp.elim

/-- While an operation is in progress threads leave the device alone. -/
theorem Inv.thread_dev (h : Inv tr ⟨m, ls⟩) {rw : UioRw} (hstatus : m.dev.status = .working rw)
    (hl : ls[i]? = some l) (hmoves : Moves m l es m' l') : m'.dev = m.dev := by
  have hquiet : ¬ Quiet m := by
    intro hq
    rw [hq.status] at hstatus
    cases hstatus
  -- a thread that is about to write to the device has it, and there is no operation
  have hno : ∀ {P : Prop}, l.holds = true → (∀ p, Holds m i l p → Quiet m) → P := by
    intro P hholds hq
    obtain ⟨p, hp, -⟩ := h.holder hl hholds
    exact absurd (hq p hp) hquiet
  cases hmoves with
  | copyIn hpc =>
    refine hno (by rw [Thread.holds, hpc]) fun p hp => ?_
    rw [Holds, hpc] at hp
    exact hp.2
  | setSect hpc =>
    refine hno (by rw [Thread.holds, hpc]) fun p hp => ?_
    rw [Holds, hpc] at hp
    exact hp.2
  | setStat hpc =>
    refine hno (by rw [Thread.holds, hpc]) fun p hp => ?_
    rw [Holds, hpc] at hp
    exact hp.2.1
  | outside | waitClear | fault | waitDone | readResult | copyOut | release => rfl

/-- While an operation is in progress the device completes it, or stays as it is. -/
theorem Inv.others_dev (h : Inv tr ⟨m, ls⟩) {rw : UioRw} (hstatus : m.dev.status = .working rw)
    (hmoves : OtherMoves m es m') :
    m'.dev = m.dev ∨ ∃ code, es = [.complete code] ∧ m'.dev = m.dev.complete code := by
  obtain ⟨_, _, -, -, hprogress, -⟩ := h.inProgress hstatus
  rcases hmoves.of_resting hprogress.irq with
    ⟨_, code, -, rfl, rfl⟩ | ⟨_, -, -, rfl⟩ | ⟨_, -, -, rfl⟩
  · exact .inr ⟨code, rfl, rfl⟩
  · exact .inl rfl
  · exact .inl rfl

/-- The count of `lh_done`. -/
theorem Inv.done_le_one (h : Inv tr ⟨m, ls⟩) : m.done ≤ 1 := by
  have hquiet : Quiet m → m.done ≤ 1 := fun hq => hq.done.trans_le (Nat.zero_le 1)
  rcases h.place with ⟨-, hq, -⟩ | ⟨i, l, p, hl, hp, -⟩
  · exact hquiet hq
  · unfold Holds at hp
    split at hp
    case h_1 | h_2 | h_3 => exact hquiet hp.2
    case h_4 => exact hquiet hp.2.1
    case h_5 hpc =>
      rcases hp with ⟨-, hprogress⟩ | ⟨code, -, hposting, -⟩
      · exact hprogress.done.trans_le (Nat.zero_le 1)
      · cases hposting with
        | finished _ hdone | cleared _ hdone | stored _ hdone => exact hdone.trans_le (Nat.zero_le 1)
        | posted _ hdone => exact hdone.le
    case h_6 =>
      obtain ⟨code, -, hq, -⟩ := hp
      exact hquiet hq
    case h_7 => exact hquiet hp.2.1
    all_goals exact hp.elim

/-- What a thread reads from the buffer is its sector. -/
theorem Inv.byte (h : Inv tr ⟨m, ls⟩) (hl : ls[i]? = some l) (hmoves : Moves m l es m' l') {j : ℕ}
    {v : Byte} (hmem : .byte j v ∈ es) : v = m.dev.blocks l.block j := by
  cases hmoves with
  | copyOut hpc =>
    cases List.mem_singleton.mp hmem
    obtain ⟨p, hp, -⟩ := h.holder hl (by rw [Thread.holds, hpc])
    rw [Holds, hpc] at hp
    exact congrFun hp.2.2 j
  | setStat | readResult => cases List.mem_singleton.mp hmem
  | outside | waitClear | copyIn | fault | setSect | waitDone | release =>
    exact absurd hmem List.not_mem_nil

end Inv

/-- **The disk driver.** However many threads are in `lhd_io`, and in whatever order their steps
come with those of `lhd_irq` and of the device: the trace keeps to the protocol, so there is at most
one operation at a time and each thread takes the result of its own; while an operation is in
progress nobody but the device itself, when it completes it, changes the registers, the buffer or
the disk; the counts of `lh_clear` and `lh_done` are zero or one; and a thread that reads from the
buffer reads its sector. -/
theorem disk_protocol {dBlocks : ℕ} {result : Option Errno} {sect : ℕ} {buf : Buffer}
    {blocks : ℕ → Buffer} {tr : List (Event Say)} {t : State Shared Thread}
    (hrun : Run lhd.Step (init dBlocks result sect buf blocks) tr t) :
    (∃ p, phase tr = some p) ∧ t.shared.clear ≤ 1 ∧ t.shared.done ≤ 1 ∧
    (∀ rw, t.shared.dev.status = .working rw → (∃ i, phase tr = some (.working i)) ∧
      ∀ es u, lhd.Step t es u → u.shared.dev = t.shared.dev ∨
        ∃ code, es = [⟨none, .complete code⟩] ∧ u.shared.dev = t.shared.dev.complete code) ∧
    ∀ (i : ℕ) l es u j v, t.threads[i]? = some l → lhd.Step t es u → ⟨some i, .byte j v⟩ ∈ es →
      v = t.shared.dev.blocks l.block j := by
  have hinv := inv_of_run hrun
  obtain ⟨m, ls⟩ := t
  have hledger := hinv.ledger
  have hnonneg : 0 ≤ total (share Thread.holds) ls := by
    rw [total_share]
    omega
  refine ⟨?_, by dsimp only at hledger ⊢; omega, hinv.done_le_one, fun rw hstatus => ⟨?_, ?_⟩, ?_⟩
  · rcases hinv.place with ⟨hphase, -⟩ | ⟨_, _, p, -, -, hphase⟩
    · exact ⟨.idle, hphase⟩
    · exact ⟨p, hphase⟩
  · obtain ⟨i, _, -, -, -, hphase⟩ := hinv.inProgress hstatus
    exact ⟨i, hphase⟩
  · intro es u hs
    cases hs with
    | thread hl hstep => exact .inl (hinv.thread_dev hstatus hl (threadStep_moves hstep))
    | others hstep =>
      rcases hinv.others_dev hstatus (otherStep_moves hstep) with hsame | ⟨code, rfl, hdev⟩
      · exact .inl hsame
      · exact .inr ⟨code, rfl, hdev⟩
    | spawn _ => exact .inl rfl
  · intro i l es u j v hl hs hmem
    cases hs with
    | @thread m m' ls k l' _ _ es hl' hstep =>
      obtain ⟨e, he, heq⟩ := List.mem_map.mp hmem
      cases heq
      obtain rfl : l' = l := Option.some.inj (hl'.symm.trans hl)
      exact hinv.byte hl (threadStep_moves hstep) he
    | others hstep =>
      obtain ⟨e, -, heq⟩ := List.mem_map.mp hmem
      cases heq
    | spawn _ => exact absurd hmem List.not_mem_nil

/-- Two threads read one sector each. The operation of the first one ends with a media error; then
the second one gets the device. -/
def twoReads : List (Choice Thread Act) :=
  [.spawn ⟨.read, 512, 512, 0, .enter⟩, .spawn ⟨.read, 1024, 512, 0, .enter⟩] ++
    goes 0 5 ++ goes 1 2 ++ byOthers [.complete .media, .interrupt, .go, .go, .go, .go] ++ goes 0 3 ++
    goes 1 3
where
  goes (i n : ℕ) : List (Choice Thread Act) := List.replicate n (.thread i .go)
  byOthers (acts : List Act) : List (Choice Thread Act) := acts.map .others

theorem disk_protocol_twoReads :
    ∃ tr t, Run lhd.Step (init 8 none 0 (fun _ => 0) fun _ _ => 0) tr t ∧
      phase tr = some (.working 1) ∧ own (some 0) tr = [.start .read 1, .answer (some Errno.EIO)] ∧
      t.shared.clear ≤ 1 := by
  have hrun : Run lhd.Step (init 8 none 0 (fun _ => 0) fun _ _ => 0)
      (lhd.after twoReads (init 8 none 0 (fun _ => 0) fun _ _ => 0)).1
      (lhd.after twoReads (init 8 none 0 (fun _ => 0) fun _ _ => 0)).2 :=
    run_after (by decide +kernel)
  exact ⟨_, _, hrun, by decide +kernel, by decide +kernel, (disk_protocol hrun).2.1⟩

end Os161.LhdProtocol
