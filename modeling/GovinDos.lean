import GovinDos.Allocator
import GovinDos.Cpio
import GovinDos.Enumeration
import GovinDos.FutexWake
import GovinDos.IrqEvents
import GovinDos.IrqRevival
import GovinDos.KernelTeardown
import GovinDos.NvmeServer
import GovinDos.PthreadBarrier
import GovinDos.PthreadHandOver
import GovinDos.PthreadOnce
import GovinDos.PthreadRwLock
import GovinDos.PthreadTimed
import GovinDos.ReaperAuthority
import GovinDos.RingCompletion
import GovinDos.RingHostile
import GovinDos.RingRefinement
import GovinDos.SchedulerIdle
import GovinDos.ShareEvents
import GovinDos.ShootdownFlush
import GovinDos.Strtol
import GovinDos.UmemPristine
import GovinDos.UserAccess
