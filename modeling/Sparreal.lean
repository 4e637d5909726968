import Sparreal.Paging.MapSpec
import Sparreal.Paging.UnmapSpec
import Sparreal.Paging.Accounting
import Sparreal.Paging.Undo
import Sparreal.Paging.TopOfSpace
import Sparreal.Paging.WalkSpec
import Sparreal.Paging.Radix
import Sparreal.Paging.AddressSpace
import Sparreal.Arch.LoongArch
import Sparreal.Arch.AArch64
import Sparreal.Arch.RiscV
import Sparreal.Gic.Affinity
import Sparreal.Gic.Distributor
import Sparreal.Gic.ListRegister
import Sparreal.Block.Events
import Sparreal.Serial.Loss
import Sparreal.Serial.Pl011
import Sparreal.Rdrive.Once
import Sparreal.Rdrive.Pci
import Sparreal.Ranges.Normal
import Sparreal.Boot.DeviceTree
import Sparreal.Boot.Setup
import Sparreal.Boot.Timer
import Sparreal.Boot.Flush
import Sparreal.Boot.PerCpu
import Sparreal.Boot.Cmdline
import Sparreal.Acpi.CpuIds
import Sparreal.Kernel.Allocator
import Sparreal.Kernel.Dma
import Sparreal.Kernel.HeapLocks
import Sparreal.Kernel.InitHeap
import Sparreal.Kernel.Ioremap
import Sparreal.Kernel.KernelTable
import Sparreal.Async.Registry
import Sparreal.Async.Starvation
import Sparreal.Async.Executors
import Sparreal.Async.Reentry
import Sparreal.Time.TimerSpec
import Sparreal.Time.Early
import Sparreal.Sync.Contention
import Sparreal.Sync.StaticCell
import Sparreal.Dma.Pool
import Sparreal.Nvme.Init
import Sparreal.Nvme.Identify
import Sparreal.Nvme.Completion
import Sparreal.Nvme.Ids
import Sparreal.Eth.TxRing
import Sparreal.Eth.RxQueue
import Sparreal.Eth.Receive
import Sparreal.Block.Capacity
import Sparreal.Block.Recycle
import Sparreal.Pcie.Complete
import Sparreal.Irq.Handlers
