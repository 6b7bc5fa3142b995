import PranaOS.Kernel.VM.RangeAllocator.Runs
import PranaOS.Kernel.Syscalls.AddressSpace
import PranaOS.Kernel.VM.VolatilePageRanges.Runs
import PranaOS.Kernel.VM.PhysicalRegion.Runs
import PranaOS.Kernel.VM.MemoryManager.Runs
import PranaOS.Kernel.VM.MemoryManager.MemoryMap
import PranaOS.Kernel.Syscalls.WriteXorExecute
import PranaOS.Kernel.FileSystem.VirtualFileSystem.Creation
import PranaOS.Kernel.FileSystem.VirtualFileSystem.Rename
import PranaOS.Kernel.Syscalls.Unveil.Monotone
import PranaOS.Kernel.Net.BlockingReceive
import PranaOS.Kernel.Lock
import PranaOS.Kernel.Syscalls.Futex.Waiters
import PranaOS.Kernel.Heap.SlabAllocator
import PranaOS.Kernel.FileSystem.Plan9FileSystem
import PranaOS.Kernel.Net.TCPSocket.ReceiveStream
import PranaOS.Kernel.Heap.Heap.Reallocate
import PranaOS.Kernel.Heap.ExpandableHeap
import PranaOS.LibC.Time
import PranaOS.LibC.Stdlib
import PranaOS.LibC.Getopt
import PranaOS.AK.BitmapView.RangeSearch
import PranaOS.AK.BitmapView.CountRange
import PranaOS.Kernel.VM.AnonymousVMObject.Agreement
import PranaOS.Kernel.VM.Space.Intersecting
import PranaOS.AK.HashTable.Termination
import PranaOS.Kernel.FileSystem.Ext2FileSystem.Directory
import PranaOS.Kernel.VM.MemoryManager.ReservedRanges
import PranaOS.Kernel.Net.TCPSocket.Checksum
import PranaOS.Kernel.Syscalls.Futex.Keys
import PranaOS.Kernel.Net.NetworkAdapter
import PranaOS.Kernel.Scheduler.Priorities
import PranaOS.LibC.PthreadIntegration
import PranaOS.Kernel.FileSystem.FIFO
import PranaOS.AK.GenericLexer
import PranaOS.AK.StringView
import PranaOS.AK.Base64
import PranaOS.Kernel.Syscalls.Privileges
