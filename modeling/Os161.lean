import Os161.Common.Prog
import Os161.Common.Simulation
import Os161.Common.Interleaving
import Os161.Common.Tiling
import Os161.Common.Lists
import Os161.Common.Chain
import Os161.Common.Bytes
import Os161.Common.Runs
import Os161.Common.Refinement
import Os161.Common.Digits
import Os161.Asst1.Catlock
import Os161.Asst1.CatlockIdle
import Os161.Asst1.Stoplight
import Os161.Asst1.StoplightAdmission
import Os161.Machine.Basic
import Os161.Vm.Coremap
import Os161.Vm.Ram
import Os161.Vm.CoremapInvariant
import Os161.Vm.FirstFit
import Os161.Lib.Kheap
import Os161.Lib.KheapInvariant
import Os161.Lib.KheapSafety
import Os161.Vm.Boot
import Os161.Lib.KheapFrame
import Os161.Lib.KheapReturns
import Os161.Vm.Addrspace
import Os161.Vm.AddrspaceIsolation
import Os161.Vm.OutOfFrames
import Os161.Lib.Copyinout
import Os161.Lib.UserCopies
import Os161.Userprog.Loadelf
import Os161.Userprog.Runprogram
import Os161.Vm.UserPages
import Os161.Vm.InterruptLevel
import Os161.Vm.AsCopy
import Os161.Vm.Translation
import Os161.Vm.Faults
import Os161.Vm.Teardown
import Os161.Vm.Processes
import Os161.Vm.UserMemory
import Os161.Vm.PrivateMemory
import Os161.Userprog.ProgramImage
import Os161.Syscall.Dispatch
import Os161.Lib.Bitmap
import Os161.Lib.Array
import Os161.Lib.Queue
import Os161.Lib.Pointers
import Os161.Lib.QueueRefinement
import Os161.Lib.ArrayRefinement
import Os161.Lib.BitmapRefinement
import Os161.Lib.Uio
import Os161.Lib.UioConservation
import Os161.Dev.Lhd
import Os161.Sfs.Vnode
import Os161.Sfs.Retry
import Os161.Thread.Kernel
import Os161.Thread.Synch
import Os161.Thread.Sched
import Os161.Thread.Refine
import Os161.Thread.Wakeups
import Os161.Thread.Partition
import Os161.Thread.RoundRobin
import Os161.Thread.Protocol
import Os161.Thread.Clients
import Os161.Thread.Laws
import Os161.Thread.Pid
import Os161.Thread.Capacity
import Os161.Syscall.Calls
import Os161.Syscall.Fork
import Os161.Syscall.Process
import Os161.Syscall.Family
import Os161.Syscall.Waitpid
import Os161.Syscall.ForkFailure
import Os161.Vfs.Refcount
import Os161.Vfs.Vfslist
import Os161.Vfs.Vfslookup
import Os161.Dev.LhdProtocol
import Os161.Dev.LhdBounds
import Os161.Dev.Console
import Os161.Dev.ConsoleInput
import Os161.Dev.Emufs
import Os161.Sfs.VnodeTable
import Os161.Libc.Malloc
import Os161.Libc.MallocInvariant
import Os161.Libc.MallocSafety
import Os161.Libc.MallocSizes
import Os161.Libc.Printf
import Os161.Libc.PrintfNumbers
import Os161.Libc.Atoi
import Os161.Libc.Snprintf
import Os161.Libc.Memmove
import Os161.Main.Menu
