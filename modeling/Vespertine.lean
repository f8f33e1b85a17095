import Vespertine.Library.LinkedList
import Vespertine.Library.Transition
import Vespertine.Library.Word
import Vespertine.Kernel
import Vespertine.Memory.Pmm
import Vespertine.Library.Dyadic
import Vespertine.Memory.FreeLists
import Vespertine.Memory.Buddy
import Vespertine.Memory.BuddyRun
import Vespertine.Memory.Coalescing
import Vespertine.Memory.DoubleFree
import Vespertine.Memory.Exhaustion
import Vespertine.Memory.BitmapPmm
import Vespertine.Memory.BootMemory
import Vespertine.Memory.BootLists
import Vespertine.Library.RadixTree
import Vespertine.Memory.Paging
import Vespertine.Memory.PagingRefinement
import Vespertine.Memory.KernelHalf
import Vespertine.Memory.TableFrames
import Vespertine.Memory.Vmm
import Vespertine.Memory.VmaList
import Vespertine.Memory.VmaRun
import Vespertine.Memory.UserRange
import Vespertine.Memory.FaultSafety
import Vespertine.Memory.PagePath
import Vespertine.Interrupts.Shootdown
import Vespertine.Interrupts.ShootdownProgress
import Vespertine.Memory.Invalidation
import Vespertine.Memory.ExactUnmap
import Vespertine.Memory.HeldFrames
import Vespertine.Memory.Teardown
import Vespertine.Object.Abi
import Vespertine.Object.Handle
import Vespertine.Object.Capabilities
import Vespertine.Memory.Vmo
import Vespertine.Memory.VmoLedger
import Vespertine.Memory.KernelBuffers
import Vespertine.Program.Elf
import Vespertine.Program.Loader
import Vespertine.Program.Segments
import Vespertine.Program.LoadSafety
import Vespertine.Program.LoadImage
import Vespertine.Library.ByteMemory
import Vespertine.Program.Environment
import Vespertine.Object.UserCopy
import Vespertine.Object.UserPointers
import Vespertine.Memory.Backing
import Vespertine.Memory.PageKeys
import Vespertine.Memory.FrameSystem
import Vespertine.Memory.FrameLifetime
import Vespertine.Memory.MappedObjects
import Vespertine.Memory.ConcurrentFaults
import Vespertine.Library.Leftovers
import Vespertine.Memory.FirstSight
import Vespertine.Library.Ring
import Vespertine.Object.Socket
import Vespertine.Object.SocketStream
import Vespertine.Object.SocketErrors
import Vespertine.Object.Pipe
import Vespertine.Drivers.Ext2
import Vespertine.Drivers.BlockCache
import Vespertine.Drivers.BlockCacheCoherence
import Vespertine.Drivers.BlockCacheDurability
import Vespertine.Drivers.BlockCacheSequential
import Vespertine.Drivers.BlockCacheEviction
import Vespertine.Drivers.BlockCacheErrors
import Vespertine.Drivers.FileReads
import Vespertine.Drivers.SequentialReads
import Vespertine.Drivers.ReadAgreement
import Vespertine.Memory.CloneBytes
import Vespertine.Library.IntrusiveQueue
import Vespertine.Thread.Scheduler
import Vespertine.Thread.ReadyQueues
import Vespertine.Library.MaxHeap
import Vespertine.Thread.Schedule
import Vespertine.Thread.Callouts
import Vespertine.Thread.Preemption
import Vespertine.Thread.Urgency
import Vespertine.Thread.SingleQueue
import Vespertine.Thread.ContextSwitch
import Vespertine.Thread.Wakeup
import Vespertine.Library.Ownership
import Vespertine.Memory.Magazine
import Vespertine.Memory.PCAllocator
import Vespertine.Object.Spawn
import Vespertine.Library.FreeStack
import Vespertine.Memory.Slab
import Vespertine.Memory.KernelHeap
import Vespertine.Drivers.Virtqueue
import Vespertine.Drivers.VirtqueueOwnership
import Vespertine.Drivers.VirtqueueWake
import Vespertine.Library.Effects
import Vespertine.Drivers.Storage
import Vespertine.Drivers.Mount
import Vespertine.Drivers.Transfers
import Vespertine.Drivers.StorageLeaks
import Vespertine.Drivers.GroupTable
import Vespertine.Drivers.Geometry
import Vespertine.Drivers.DirectoryRecords
import Vespertine.Drivers.PartitionBounds
import Vespertine.Library.Behavior
import Vespertine.Thread.Executor
import Vespertine.Thread.Reaper
import Vespertine.Memory.FileFaults
import Vespertine.Object.SocketWait
import Vespertine.Object.WaitMany
import Vespertine.Library.RefCount
import Vespertine.Object.ProcessLife
import Vespertine.Library.Waiters
import Vespertine.Library.Bytes
import Vespertine.Object.Protocol
import Vespertine.Sync.Mutex
import Vespertine.Sync.Semaphore
import Vespertine.Sync.RwLock
import Vespertine.Sync.TicketLock
import Vespertine.Sync.OnceCell
import Vespertine.Object.MemPool
import Vespertine.Object.PoolAccounting
import Vespertine.Thread.TaskWaker
import Vespertine.Object.Directory
import Vespertine.Userland.ReadDir
import Vespertine.Userland.Sink
import Vespertine.Drivers.TarUnpack
import Vespertine.Drivers.Tar
import Vespertine.Object.PathWalk
import Vespertine.Library.Gregorian
import Vespertine.Time.Calendar
import Vespertine.Object.PoolLimits
import Vespertine.Object.HandleHistory
import Vespertine.Drivers.PciBar
import Vespertine.Drivers.PciCapabilities
import Vespertine.Memory.SlabExhaustion
import Vespertine.Library.Raster
import Vespertine.Userland.Terminal
import Vespertine.Userland.TerminalPicture
import Vespertine.Userland.TerminalScreen
