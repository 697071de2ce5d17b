import GpuCr.Lib.Blit
import GpuCr.Lib.AsyncStream
import GpuCr.Lib.Run
import GpuCr.Lib.Simulation
import GpuCr.Lib.Grouping
import GpuCr.Lib.Layout
import GpuCr.Lib.FdTable
import GpuCr.Lib.Chunks
import GpuCr.Lib.Rekey
import GpuCr.Lib.CString
import GpuCr.Common
import GpuCr.Driver
import GpuCr.VGpu.Pipeline
import GpuCr.VGpu.Dump
import GpuCr.VGpu.Restore
import GpuCr.VGpu.Nv
import GpuCr.VGpu.Ckpt
import GpuCr.VGpu.RoundTrip
import GpuCr.VGpu.Selective
import GpuCr.VGpu.Async
import GpuCr.VGpu.Swap
import GpuCr.VGpu.Hooks
import GpuCr.VGpu.Messages
import GpuCr.VGpu.Targets
import GpuCr.VGpu.WhileParked
import GpuCr.VGpu.Accounting
import GpuCr.VGpu.Amd
import GpuCr.VGpu.Cuts
import GpuCr.VGpu.CopyShape
import GpuCr.VGpu.Bounds
import GpuCr.VGpu.Chunking
import GpuCr.VGpu.Capacity
import GpuCr.VGpu.Repeat
import GpuCr.VGpu.Plain
import GpuCr.VGpu.View
import GpuCr.VGpu.Transparent
import GpuCr.VGpu.AmdMessages
import GpuCr.VGpu.CopyThreads
import GpuCr.Ipc.Peer
import GpuCr.Ipc.Resolve
import GpuCr.Ipc.FdExchange
import GpuCr.Ipc.Records
import GpuCr.Ipc.Import
import GpuCr.Ipc.Rebind
import GpuCr.Ipc.FdTransfer
import GpuCr.Ipc.FdLifetime
import GpuCr.Ipc.FdBatch
import GpuCr.Ipc.Job
import GpuCr.Ipc.Copy
import GpuCr.Ipc.State
import GpuCr.Ipc.Locals
import GpuCr.Ipc.Exports
import GpuCr.Ipc.Handler
import GpuCr.Ipc.Hooks
import GpuCr.Ipc.Teardown
import GpuCr.Ipc.Complete
import GpuCr.Ipc.Access
import GpuCr.Ipc.AccessHistory
import GpuCr.Ipc.Abandoned
import GpuCr.Ipc.Live
import GpuCr.Ipc.ExportCycle
import GpuCr.Ipc.Descriptors
import GpuCr.Ipc.Reexport
import GpuCr.Ipc.Cycles
import GpuCr.Ipc.Alias
import GpuCr.Ipc.Classify
import GpuCr.Ipc.Usable
import GpuCr.Ipc.AccessReplay
import GpuCr.Ipc.Isolation
import GpuCr.Ipc.SaveFirst
import GpuCr.Ipc.Parked
import GpuCr.Ipc.FailedSave
import GpuCr.Ipc.Tracking
import GpuCr.Coordinator.CudaCheckpoint
import GpuCr.Coordinator.Flow
import GpuCr.Coordinator.Barrier
import GpuCr.Coordinator.Exchange
import GpuCr.Coordinator.Regions
import GpuCr.Adapters.Gcr
import GpuCr.Adapters.Prepare
import GpuCr.Adapters.Retry
import GpuCr.Adapters.NcclApi
import GpuCr.Adapters.GcrPlugin
import GpuCr.Adapters.Storage
import GpuCr.Adapters.Stored
import GpuCr.Worker.Handlers
import GpuCr.Worker.Phases
import GpuCr.Worker.Cycle
import GpuCr.Coordinator.Phases
