import Mathlib.Tactic
import Os161.Common.Prog
import Os161.Machine.Basic
import Os161.Lib.Bitmap
import Os161.Lib.Uio
import Os161.Dev.Lhd

/-!
# SFS (`kern/include/kern/sfs.h`, `kern/fs/sfs/sfs_io.c`)

The file system in memory: the superblock, the free block bitmap, the table of loaded vnodes and the
disk; and the transfer of one block. Every `kmalloc` may fail, as `Sfs.nomem` decides: it lists which
of the allocations to come fail, and past its end all succeed. The `uio` local to a function is set
up by `zoom`.
-/

namespace Os161

open Prog

end Os161
