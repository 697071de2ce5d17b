import GpuCr.Lib.Grouping
import GpuCr.Ipc.Records
import Mathlib.Data.Int.Order.Basic
import Mathlib.Logic.Function.Basic

/-!
# Imports: teardown, exchange and rebuild

`ipc_teardown_all_imports`, `ipc_write_export_info_to_shm`, `exchange_ipc_export_info` of the coordinator
and `ipc_import_from_shm_block`. The calls that leave the process are an interface (`ImportOps`), so that
the same functions run against a driver that knows what is mapped where and against one that knows the
bytes.
-/

namespace GpuCr

open Lib.Grouping

/-- The driver and socket calls of the import side, on a state of their own. `receiveFds` is
`uds_receive_fds`: it returns the local fds it got, none if the request failed. -/
structure ImportOps (σ : Type) where
  receiveFds : Int → List Int → σ → List Nat × σ
  importFd : Nat → σ → Option Nat × σ
  map : Nat → Nat → Nat → σ → Bool × σ
  unmap : Nat → Nat → σ → Bool × σ
  setAccess : Nat → Nat → CUmemAccessDesc → σ → Bool × σ
  release : Nat → σ → Bool × σ

namespace ImportOps

variable {σ : Type} (ops : ImportOps σ)

/-! ### Teardown -/

/-- The body of the loop of `ipc_teardown_all_imports`. Failed calls are reported and passed over. -/
def teardownImport (s : σ) (rec : IpcImportRecord) : IpcImportRecord × σ :=
  if rec.tornDown then (rec, s)
  else
    let s := (ops.unmap rec.mappedVaddr rec.size s).2
    let s := if rec.handle ≠ 0 then (ops.release rec.handle s).2 else s
    ({ rec with tornDown := true, handle := 0 }, s)

def teardownImports : List IpcImportRecord → σ → List IpcImportRecord × σ
  | [], s => ([], s)
  | rec :: imports, s =>
    let r := ops.teardownImport s rec
    let rs := teardownImports imports r.2
    (r.1 :: rs.1, rs.2)

/-- What the driver answers does not matter for the table. -/
theorem teardownImports_fst (imports : List IpcImportRecord) (s : σ) : (ops.teardownImports imports s).1 =
    imports.map fun rec => if rec.tornDown then rec else { rec with tornDown := true, handle := 0 } := by
  induction imports generalizing s with
  | nil => rfl
  | cons rec imports ih =>
    have hrec : (ops.teardownImport s rec).1 =
        if rec.tornDown then rec else { rec with tornDown := true, handle := 0 } := by
      unfold teardownImport
      split_ifs <;> rfl
    rw [teardownImports, List.map_cons, ← hrec, ← ih (ops.teardownImport s rec).2]

/-- `none` stands for the return value `-1`; `resolved` says whether `cuMemRelease` was found. -/
def ipcTeardownAllImports (resolved : Bool) (imports : List IpcImportRecord) (s : σ) :
    Option Nat × List IpcImportRecord × σ :=
  if !resolved then (none, imports, s)
  else (some (imports.countP fun rec => !rec.tornDown), ops.teardownImports imports s)

/-! ### Rebuild -/

/-- `peer_requests`: for each owner, by pid, the entries of the block and their places in it. -/
def peerRequests (block : List IpcExportShmEntry) : List (Int × List (IpcExportShmEntry × Nat)) :=
  group (·.1.ownerPid) (block.zipIdx.filter (·.1.valid))

/-- `entry_to_local_fd[p.1] = p.2` -/
def setLocalFd (m : Nat → Option Nat) (p : Nat × Nat) : Nat → Option Nat := Function.update m p.1 (some p.2)

/-- One request per peer; `entry_to_local_fd` gets the fds that came back. -/
def requestPeer (x : (Nat → Option Nat) × σ) (req : Int × List (IpcExportShmEntry × Nat)) :
    (Nat → Option Nat) × σ :=
  let r := ops.receiveFds req.1 (req.2.map (·.1.fd)) x.2
  (((req.2.map (·.2)).zip r.1).foldl setLocalFd x.1, r.2)

def requestFds (block : List IpcExportShmEntry) (s : σ) : (Nat → Option Nat) × σ :=
  (peerRequests block).foldl ops.requestPeer (fun _ => none, s)

/-- `torn_imports`, with their places in the table. -/
def tornImports (imports : List IpcImportRecord) : List (IpcImportRecord × Nat) :=
  imports.zipIdx.filter (·.1.tornDown)

/-- The local fds of `valid_exports`, in block order. -/
def validExports (block : List IpcExportShmEntry) (entryToLocalFd : Nat → Option Nat) : List Nat :=
  block.zipIdx.filterMap fun e => if e.1.valid then entryToLocalFd e.2 else none

def replayAccess (hasSetAccess : Bool) (rec : IpcImportRecord) (s : σ) : σ :=
  if rec.allAccess ≠ [] ∧ hasSetAccess = true then
    rec.allAccess.foldl (fun s ad => (ops.setAccess rec.mappedVaddr rec.size ad s).2) s
  else if 0 ≤ rec.accessDev ∧ hasSetAccess = true then
    (ops.setAccess rec.mappedVaddr rec.size rec.accessDesc s).2
  else s

/-- The table, the number of imports rebuilt and the state of the calls. -/
structure Progress (σ : Type) where
  imports : List IpcImportRecord
  rebuilt : Nat
  state : σ

/-- The body of the matching loop. -/
def rebuildImport (hasSetAccess : Bool) (p : Progress σ) (pair : (IpcImportRecord × Nat) × Nat) :
    Progress σ :=
  let target := pair.1.1
  match ops.importFd pair.2 p.state with
  | (none, s) => { p with state := s }
  | (some newHandle, s) =>
    match ops.map target.mappedVaddr target.size newHandle s with
    | (false, s) => { p with state := (ops.release newHandle s).2 }
    | (true, s) =>
      { imports := p.imports.modify pair.1.2 fun r => { r with handle := newHandle, tornDown := false }
        rebuilt := p.rebuilt + 1
        state := ops.replayAccess hasSetAccess target s }

/-- `none` stands for the return value `-1`; `resolved` says whether `cuMemImportFromShareableHandle` and
`cuMemMap` were found. -/
def ipcImportFromShmBlock (resolved hasSetAccess : Bool) (block : List IpcExportShmEntry)
    (imports : List IpcImportRecord) (s : σ) : Option Nat × List IpcImportRecord × σ :=
  if block = [] then (some 0, imports, s)
  else if !resolved then (none, imports, s)
  else
    let r := ops.requestFds block s
    let p := ((tornImports imports).zip (validExports block r.1)).foldl (ops.rebuildImport hasSetAccess)
      ⟨imports, 0, r.2⟩
    (some p.rebuilt, p.imports, p.state)

end ImportOps

/-! ### Publication and exchange -/

def ipcWriteExportInfoToShm (pid : Int) (exports : List IpcExportRecord) : List IpcExportShmEntry :=
  (exports.take ipcMaxExportsPerProc).filterMap fun rec =>
    if rec.exportedFd < 0 then none else some ⟨pid, rec.exportedFd, rec.mappedVaddr, rec.size, true⟩

/-- A full block takes no more entries. -/
def addEntry (dst : List IpcExportShmEntry) (e : IpcExportShmEntry) : List IpcExportShmEntry :=
  if ipcMaxExportsPerProc ≤ dst.length then dst else dst ++ [e]

/-- The peer block of the worker at `i`: the entries of all the others, in the order of the shm files. -/
def exchangeIpcExportInfo (blocks : List (List IpcExportShmEntry)) (i : Nat) : List IpcExportShmEntry :=
  blocks.zipIdx.foldl (fun dst b => if b.2 = i then dst else b.1.foldl addEntry dst) []

end GpuCr
