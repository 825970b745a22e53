import Os161.Lib.Copyinout

/-!
# Loading executables (`kern/userprog/loadelf.c`)

`load_elf` reads the headers of an executable into the kernel, records a region for every segment
and then reads the segments to their addresses in the current address space, filling the rest of
each segment with zeros. The address space is a parameter (`LoadOps`), so that the same loader runs
on the memory of the machine and on an abstract one; `loadElf_simulates` says that what it does is
determined by what its steps do.
-/

namespace Os161

open Prog

/-! ## The file -/

/-- An executable: its size, its bytes by position, and the error that reading a block of it gives,
if any. -/
structure Exec where
  size : ℕ
  data : ℕ → ℕ
  fails : ℕ → Option Errno

/-- The number of bytes of the next transfer of `sfs_io`, at most up to the end of the block and of
the file. -/
def Exec.piece (f : Exec) (offset resid : ℕ) : ℕ :=
  min (min resid (512 - offset % 512)) (f.size - offset)

variable {σ τ : Type}

/-- `VOP_READ` of `resid` bytes from `offset` on, handed to `put` piece by piece together with the
address of each piece; the residue that is left at the end of the file. Every pass moves at least
one byte, so `resid` passes are enough. -/
def vopRead (f : Exec) (put : List ℕ → ℕ → Prog Errno σ Unit) :
    (fuel offset resid ubase : ℕ) → Prog Errno σ ℕ
  | 0, _, resid, _ => pure resid
  | fuel + 1, offset, resid, ubase =>
    if f.piece offset resid = 0 then
      pure resid
    else
      match f.fails (offset / 512) with
      | some e => fail e
      | none => do
        put ((List.range (f.piece offset resid)).map fun x => f.data (offset + x)) ubase
        vopRead f put fuel (offset + f.piece offset resid) (resid - f.piece offset resid)
          (ubase + f.piece offset resid)

/-- `VOP_READ` of `len` bytes into a kernel buffer, which must not come up short. A position that is
negative as an `off_t` is none that `sfs_io` can serve. -/
def readHeader (f : Exec) (offset len : ℕ) : Prog Errno σ (List ℕ) := do
  require (offset < 2147483648) "sfs_io: negative offset"
  match vopRead f (fun bytes _ => modify (· ++ bytes)) len offset len 0 [] with
  | .ok resid buf => if resid ≠ 0 then fail .ENOEXEC else pure buf
  | .err e _ => fail e
  | .halted msg => halt msg

/-! ## Headers -/

/-- The big-endian number in the `n` bytes from `off` on. -/
def field (buf : List ℕ) (off n : ℕ) : ℕ := ((buf.drop off).take n).foldl (fun x b => x * 256 + b) 0

/-- `Elf_Ehdr`, without the fields the loader ignores. -/
structure Ehdr where
  ident : List ℕ
  type : ℕ
  machine : ℕ
  version : ℕ
  entry : ℕ
  phoff : ℕ
  phentsize : ℕ
  phnum : ℕ
deriving DecidableEq, Repr

/-- `sizeof(Elf_Ehdr)`. -/
def ehdrSize : ℕ := 52

/-- The file header in a buffer. -/
def ehdrOf (buf : List ℕ) : Ehdr where
  ident := buf.take 16
  type := field buf 16 2
  machine := field buf 18 2
  version := field buf 20 4
  entry := field buf 24 4
  phoff := field buf 28 4
  phentsize := field buf 42 2
  phnum := field buf 44 2

/-- A 32-bit ELF executable of version 1 for this processor: the magic number, `ELFCLASS32`,
`ELFDATA2MSB`, `EV_CURRENT`, `ET_EXEC` and `EM_MIPS`. -/
def Ehdr.Ok (eh : Ehdr) : Prop :=
  eh.ident.take 7 = [0x7f, 0x45, 0x4c, 0x46, 1, 2, 1] ∧ eh.version = 1 ∧ eh.type = 2 ∧ eh.machine = 8

instance (eh : Ehdr) : Decidable eh.Ok := inferInstanceAs (Decidable (_ ∧ _ ∧ _ ∧ _))

/-- `Elf_Phdr`, without the fields the loader ignores. -/
structure Phdr where
  type : ℕ
  offset : ℕ
  vaddr : ℕ
  filesz : ℕ
  memsz : ℕ
deriving DecidableEq, Repr

/-- `sizeof(Elf_Phdr)`. -/
def phdrSize : ℕ := 32

/-- The segment header in a buffer. -/
def phdrOf (buf : List ℕ) : Phdr where
  type := field buf 0 4
  offset := field buf 4 4
  vaddr := field buf 8 4
  filesz := field buf 16 4
  memsz := field buf 20 4

/-- The segment types that are skipped: `PT_NULL`, `PT_PHDR` and `PT_MIPS_REGINFO`. -/
def Phdr.Skipped (ph : Phdr) : Prop := ph.type = 0 ∨ ph.type = 6 ∨ ph.type = 0x70000000

instance (ph : Phdr) : Decidable ph.Skipped := inferInstanceAs (Decidable (_ ∨ _ ∨ _))

/-! ## The loader -/

/-- What the loader does to the current address space. -/
structure LoadOps (σ : Type) where
  mem : UserMem σ ℕ
  defineRegion : ℕ → Prog Errno σ Unit
  prepareLoad : Prog Errno σ Unit

/-- `uiomovezeros`, sixteen bytes at a time. Every pass moves at least one byte. -/
def zeroFill (um : UserMem σ ℕ) : (fuel n ubase : ℕ) → Prog Errno σ Unit
  | 0, _, _ => pure ()
  | fuel + 1, n, ubase =>
    if n = 0 then
      pure ()
    else do
      copyout um (List.replicate (min 16 n) 0) ubase
      zeroFill um fuel (n - min 16 n) (ubase + min 16 n)

/-- `load_segment`. At a position that is negative as an `off_t`, `sfs_io` can only transfer
nothing, where it is the start of a block. -/
def loadSegment (um : UserMem σ ℕ) (f : Exec) (ph : Phdr) : Prog Errno σ Unit := do
  let filesize := min ph.filesz ph.memsz
  require (ph.offset < 2147483648 ∨ filesize = 0 ∧ ph.offset % 512 = 0) "sfs_io: negative offset"
  let resid ← vopRead f (copyout um) filesize ph.offset filesize ph.vaddr
  if resid ≠ 0 then
    fail .ENOEXEC
  else
    zeroFill um (ph.memsz - filesize) (ph.memsz - filesize) (ph.vaddr + filesize)

/-- The two loops of `load_elf` over the segment headers, with `body` for what is done with a
segment to be loaded. -/
def forSegments (f : Exec) (eh : Ehdr) (body : Phdr → Prog Errno σ Unit) : Prog Errno σ Unit :=
  forRange (fun i => do
    let buf ← readHeader f (u32 (eh.phoff + i * eh.phentsize : ℕ)) phdrSize
    let ph := phdrOf buf
    if ph.Skipped then
      pure ()
    else if ph.type = 1 then
      body ph
    else
      fail .ENOEXEC) eh.phnum 0

/-- `load_elf`: the entry point of the program. -/
def loadElf (io : LoadOps σ) (f : Exec) : Prog Errno σ ℕ := do
  let buf ← readHeader f 0 ehdrSize
  let eh := ehdrOf buf
  if eh.Ok then
    forSegments f eh fun ph => io.defineRegion ph.vaddr
    io.prepareLoad
    forSegments f eh fun ph => loadSegment io.mem f ph
    pure eh.entry
  else
    fail .ENOEXEC

/-! ## Simulation -/

variable {R : σ → τ → Prop}

theorem vopRead_simulates {f : Exec} {put : List ℕ → ℕ → Prog Errno σ Unit}
    {put' : List ℕ → ℕ → Prog Errno τ Unit} (hput : ∀ bs a, Simulates R (put bs a) (put' bs a))
    (fuel offset resid ubase : ℕ) :
    Simulates R (vopRead f put fuel offset resid ubase) (vopRead f put' fuel offset resid ubase) := by
  induction fuel generalizing offset resid ubase with
  | zero => exact .pure _
  | succ fuel ih =>
    refine .ite _ (fun _ => .pure _) fun _ => ?_
    cases f.fails (offset / 512) with
    | some e => exact .fail e
    | none => exact .bind (hput _ _) fun _ => ih _ _ _

theorem readHeader_simulates (f : Exec) (offset len : ℕ) :
    Simulates R (readHeader f offset len) (readHeader f offset len) := by
  refine .bind (.require _ _) fun _ => ?_
  cases vopRead f (fun bytes _ => modify (· ++ bytes)) len offset len 0 [] with
  | ok resid buf => exact .ite _ (fun _ => .fail _) fun _ => .pure _
  | err e _ => exact .fail e
  | halted msg => exact .halt msg _

theorem zeroFill_simulates {um : UserMem σ ℕ} {um' : UserMem τ ℕ}
    (hstore : ∀ a b, Simulates R (um.store a b) (um'.store a b)) (fuel n ubase : ℕ) :
    Simulates R (zeroFill um fuel n ubase) (zeroFill um' fuel n ubase) := by
  induction fuel generalizing n ubase with
  | zero => exact .pure ()
  | succ fuel ih =>
    exact .ite _ (fun _ => .pure ()) fun _ =>
      .bind (copyout_simulates hstore _ _) fun _ => ih _ _

theorem loadSegment_simulates {um : UserMem σ ℕ} {um' : UserMem τ ℕ}
    (hstore : ∀ a b, Simulates R (um.store a b) (um'.store a b)) (f : Exec) (ph : Phdr) :
    Simulates R (loadSegment um f ph) (loadSegment um' f ph) := by
  refine .bind (.require _ _) fun _ => .bind ?_ fun resid => ?_
  · exact vopRead_simulates (copyout_simulates hstore) _ _ _ _
  · exact .ite _ (fun _ => .fail _) fun _ => zeroFill_simulates hstore _ _ _

theorem forSegments_simulates {f : Exec} {eh : Ehdr} {body : Phdr → Prog Errno σ Unit}
    {body' : Phdr → Prog Errno τ Unit} (hbody : ∀ ph, Simulates R (body ph) (body' ph)) :
    Simulates R (forSegments f eh body) (forSegments f eh body') := by
  refine .forRange (fun i => .bind (readHeader_simulates _ _ _) fun buf => ?_) _ _
  exact .ite _ (fun _ => .pure ()) fun _ => .ite _ (fun _ => hbody _) fun _ => .fail _

/-- The loader on one address space is simulated by the loader on another whose steps simulate
the first one's. -/
theorem loadElf_simulates {io : LoadOps σ} {io' : LoadOps τ}
    (hstore : ∀ a b, Simulates R (io.mem.store a b) (io'.mem.store a b))
    (hregion : ∀ a, Simulates R (io.defineRegion a) (io'.defineRegion a))
    (hprepare : Simulates R io.prepareLoad io'.prepareLoad) (f : Exec) :
    Simulates R (loadElf io f) (loadElf io' f) := by
  refine .bind (readHeader_simulates _ _ _) fun buf => .ite _ (fun _ => ?_) fun _ => .fail _
  refine .bind (forSegments_simulates fun ph => hregion _) fun _ => .bind hprepare fun _ => ?_
  exact .bind (forSegments_simulates fun ph => loadSegment_simulates hstore f ph) fun _ => .pure _

end Os161
