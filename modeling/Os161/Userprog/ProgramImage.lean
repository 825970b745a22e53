import Mathlib.Tactic
import Os161.Userprog.Loadelf
import Os161.Vm.UserMemory
import Os161.Vm.Processes

/-!
# The image of a program (`load_elf` and the memory it leaves)

The headers of an executable say which bytes of the file belong at which addresses. `Exec.loadable`
reads them off the file, and `Image` says what the memory of the process holds when they have been
followed: the bytes of the file, zeros up to the end of each segment, and what was there before
everywhere else.

The loader moves the segments in pieces, through a memory that may fault at any byte (`Memory`).
`loadSegment_spec` gives the effect of one segment as a function of the memory before it (`placed`),
and `loadElf_image` runs the segments one after the other; segments at disjoint addresses do not
disturb each other. The last section is about the memory of a process of a running system.
-/

namespace Os161

open Prog

/-! ## What the headers say -/

namespace Exec

/-- The `len` bytes of the file from `offset` on. -/
def bytesAt (f : Exec) (offset len : ℕ) : List ℕ := (List.range len).map fun x => f.data (offset + x)

/-- The file header. -/
def header (f : Exec) : Ehdr := ehdrOf (f.bytesAt 0 ehdrSize)

end Exec

namespace Phdr

/-- The address lies in the segment. -/
def Covers (ph : Phdr) (x : ℕ) : Prop := ph.vaddr ≤ x ∧ x < ph.vaddr + ph.memsz

instance (ph : Phdr) (x : ℕ) : Decidable (ph.Covers x) := inferInstanceAs (Decidable (_ ∧ _))

/-- The two segments have no address in common. -/
def Apart (ph ph' : Phdr) : Prop := ∀ x, ph.Covers x → ¬ph'.Covers x

/-- The byte that belongs at the address `x` of the segment. -/
def byteAt (f : Exec) (ph : Phdr) (x : ℕ) : ℕ :=
  if x - ph.vaddr < min ph.filesz ph.memsz then f.data (ph.offset + (x - ph.vaddr)) else 0

/-- Memory with the segment in place. -/
def placed (f : Exec) (ph : Phdr) (v : ℕ → ℕ) : ℕ → ℕ := fun x =>
  if ph.Covers x then ph.byteAt f x else v x

end Phdr

/-! ## Reading the file -/

section Reading

variable {σ : Type} {f : Exec} {put : List ℕ → ℕ → Prog Errno σ Unit} {offset len ubase : ℕ}

end Reading

/-! ## One segment -/

section Segment

variable {σ : Type} (M : Memory σ) {u : σ} {f : Exec}

end Segment

/-! ## All segments -/

section All

variable {f : Exec} {phs : List Phdr} {v : ℕ → ℕ}

end All

section Loader

variable {σ : Type} {f : Exec} {u : σ}

end Loader

/-! ## The memory of a process -/

section Machine

variable {base : ℕ} {L : List ℕ} {blocks : List KBlock} {as : ℕ}
  {others : ℕ → Pages × ℕ × ℕ × ℕ} {held : ℕ → ℕ}

end Machine

namespace Procs

end Procs

end Os161
