import Mathlib.Data.List.Basic

/-!
# The tables of the IPC hooks

The records of `src/ipc_hooks.cpp` that the teardown and rebuild functions read. Handles and device
addresses are numbers, a handle of `0` is none; device ids and file descriptors are integers.
-/

namespace GpuCr

structure CUmemAccessDesc where
  locationType : Nat
  locationId : Int
  flags : Nat
  deriving DecidableEq, Repr, Inhabited

/-- Of an allocation's properties only `location.id` is read. -/
structure CUmemAllocationProp where
  locationId : Int
  deriving DecidableEq, Repr, Inhabited

structure IpcImportRecord where
  mappedVaddr : Nat
  size : Nat
  handle : Nat
  accessDev : Int
  accessDesc : CUmemAccessDesc
  allAccess : List CUmemAccessDesc
  tornDown : Bool
  deriving DecidableEq, Repr

structure IpcExportRecord where
  appLocalHandle : Nat
  localHandle : Nat
  exportedFd : Int
  handleType : Nat
  size : Nat
  mappedVaddr : Nat
  mappedSize : Nat
  hasMapping : Bool
  accessDesc : CUmemAccessDesc
  hasAccess : Bool
  tornDown : Bool
  savedProp : CUmemAllocationProp
  hasSavedProp : Bool
  savedDataOffset : Nat
  hasSavedDataOffset : Bool
  deriving DecidableEq, Repr

structure CuMemCreateRecord where
  size : Nat
  prop : CUmemAllocationProp
  deriving DecidableEq, Repr, Inhabited

structure CuMemLocalAllocRecord where
  handle : Nat
  vaddr : Nat
  size : Nat
  prop : CUmemAllocationProp
  tornDown : Bool
  deriving DecidableEq, Repr

structure IpcExportShmEntry where
  ownerPid : Int
  fd : Int
  localPtr : Nat
  size : Nat
  valid : Bool
  deriving DecidableEq, Repr

/-- `IPC_MAX_EXPORTS_PER_PROC`, the capacity of a block. A block is the list of its first `num_exports`
entries. -/
def ipcMaxExportsPerProc : Nat := 64

/-- `UDS_MAX_FDS` -/
def udsMaxFds : Nat := 64

end GpuCr
