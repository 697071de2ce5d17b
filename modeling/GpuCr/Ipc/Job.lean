import GpuCr.Ipc.FdTransfer
import GpuCr.Ipc.Rebind
import GpuCr.Ipc.Reexport
import Mathlib.Algebra.GroupWithZero.Nat
import Mathlib.Algebra.Order.BigOperators.Group.List

/-!
# Which export an import is bound to again

The processes of a job as a list of workers in the order of their shm files. Each maps, at the addresses
of its imports, allocations of its peers. Every worker tears down its imports, saves its exports and rebuilds
them; the coordinator hands every worker the entries of all its peers, and `ipc_import_from_shm_block` pairs them
with the worker's imports, first with first, whatever process they belong to.
-/

namespace GpuCr

open Lib.Grouping Lib.Run
open HookedProcess (posixFileDescriptor)

/-- `process` has the exports, with their descriptors, and `world` is what the driver and the kernel keep for the
imports; `resolved` and `hasSetAccess` say which driver functions the import side has found. -/
structure IpcWorker where
  pid : Int
  resolved : Bool
  hasSetAccess : Bool
  process : FdProcess
  imports : List IpcImportRecord
  world : ImportWorld

namespace IpcWorker

def exports (w : IpcWorker) : List IpcExportRecord := w.process.hooks.ipc.exports

/-- What a descriptor of the process names. -/
def exportFd (w : IpcWorker) (fd : Int) : Option ExporterAlloc :=
  if fd < 0 then none
  else
    match w.process.fds.get fd.toNat with
    | some (.shared record _) => w.exports[record]?.map fun rec => ⟨w.pid, rec.mappedVaddr⟩
    | _ => none

/-- The descriptors of all processes. -/
def net (ws : List IpcWorker) (pid fd : Int) : Option ExporterAlloc :=
  (ws.find? (·.pid = pid)).bind (·.exportFd fd)

def teardownImports (ws : List IpcWorker) (w : IpcWorker) : IpcWorker :=
  let r := (ImportWorld.ops (net ws)).ipcTeardownAllImports w.resolved w.imports w.world
  { w with imports := r.2.1, world := r.2.2 }

/-- The exports of one worker: the save with its teardown, later the rebuild. `data` is in the buffer before the save. -/
def rebuildExports (data : Nat → Byte) (w : IpcWorker) : IpcWorker := { w with process := w.process.exportCycle data }

def blocks (ws : List IpcWorker) : List (List IpcExportShmEntry) :=
  ws.map fun w => ipcWriteExportInfoToShm w.pid w.exports

/-- All exports of a worker, in the order of their records. -/
def exported (w : IpcWorker) : List ExporterAlloc := w.exports.map fun rec => ⟨w.pid, rec.mappedVaddr⟩

def others (ws : List IpcWorker) (i : Nat) : List IpcWorker := (ws.zipIdx.filter (·.2 ≠ i)).map (·.1)

/-- The export side before the teardown: a history of hooked calls, and what it takes that no call of the save and the
rebuild fails. What is mapped is shared by a descriptor, is where the record has it, not at address null, can be read, and
meets no other export. -/
structure Exporting (p : FdProcess) : Prop where
  history : ∃ (start : FdProcess) (calls : List HookCall), start.Fresh ∧ p = run FdProcess.call start calls
  reliable : p.hooks.ipc.drv.env.Reliable
  resolved : p.hooks.ipc.fns.Resolved
  rebuildable : p.hooks.ipc.fns.Rebuildable
  mapped : ∀ rec ∈ p.hooks.ipc.exports, rec.hasMapping = true →
    rec.handleType = posixFileDescriptor ∧ rec.mappedVaddr ≠ 0 ∧
      p.hooks.ipc.drv.mappedAt rec.mappedVaddr rec.mappedSize = true ∧
      p.hooks.ipc.drv.accessible rec.mappedVaddr rec.mappedSize = true
  apart : p.hooks.ipc.exports.Pairwise fun a b => a.hasMapping = true → b.hasMapping = true → a.rangeApart b

/-- What the teardown and the rebuild leave of the exports: their addresses, an open descriptor for each that is mapped,
and none for the others. -/
structure Reexported (w w' : IpcWorker) : Prop where
  exports : w'.exports.map (fun rec => (rec.mappedVaddr, rec.hasMapping)) =
    w.exports.map fun rec => (rec.mappedVaddr, rec.hasMapping)
  mapped : ∀ rec ∈ w'.exports, rec.hasMapping = true → 0 ≤ rec.exportedFd ∧
    w'.exportFd rec.exportedFd = some ⟨w.pid, rec.mappedVaddr⟩
  unmapped : ∀ rec ∈ w'.exports, rec.hasMapping = false → rec.exportedFd < 0

theorem unmapped_call {s : HookedProcess} (h : ∀ rec ∈ s.ipc.exports, rec.hasMapping = false → rec.mappedVaddr = 0)
    (c : HookCall) : ∀ rec ∈ (s.call c).ipc.exports, rec.hasMapping = false → rec.mappedVaddr = 0 := by
  have heff := s.call_effect c
  generalize s.call c = s' at heff
  cases heff with
  | exported hd hlive hfd =>
    intro rec hrec hnone
    rcases List.mem_append.1 hrec with hrec | hrec
    · exact h rec hrec hnone
    · obtain rfl := List.mem_singleton.1 hrec
      exact congrArg (·.getD 0) (Option.isNone_iff_eq_none.1 (Option.isSome_eq_false_iff.1 hnone))
  | mapped hd =>
    intro rec hrec hnone
    rw [HookedProcess.recordMap_exports] at hrec
    obtain ⟨rec, hrec', rfl⟩ := List.mem_map.1 hrec
    unfold HookedProcess.giveMapping at hnone ⊢
    split_ifs at hnone ⊢
    · exact h rec hrec' hnone
    · exact h rec hrec' hnone
  | released hd =>
    intro rec hrec hnone
    rw [HookedProcess.recordRelease_exports] at hrec
    obtain ⟨rec, hrec', rfl⟩ := List.mem_map.1 hrec
    have hdrop : ∀ (k : Nat) (rec : IpcExportRecord), (rec.dropHandle k).mappedVaddr = rec.mappedVaddr ∧
        (rec.dropHandle k).hasMapping = rec.hasMapping := by
      intro k rec
      unfold IpcExportRecord.dropHandle
      split_ifs <;> exact ⟨rfl, rfl⟩
    split_ifs at hnone ⊢
    · rw [(hdrop _ _).2, (hdrop _ _).2] at hnone
      rw [(hdrop _ _).1, (hdrop _ _).1]
      exact h rec hrec' hnone
    · rw [(hdrop _ _).2] at hnone
      rw [(hdrop _ _).1]
      exact h rec hrec' hnone
  | access hd =>
    intro rec hrec hnone
    obtain ⟨rec', hrec', rfl | rfl⟩ := HookedProcess.mem_recordAccess_exports hrec
    · exact h rec hrec' hnone
    · exact h rec' hrec' hnone
  | _ => exact h

section Exporting
variable {p : FdProcess}

theorem Exporting.known (h : Exporting p) :
    p.hooks.Known ∧ FdProcess.SharedPosix p.fds p.hooks.ipc.exports := by
  obtain ⟨start, calls, hfresh, rfl⟩ := h.history
  exact FdProcess.known_of_history hfresh.hooks.known (fun n i k hget => absurd hget (hfresh.fds n i k)) calls

theorem Exporting.unmapped (h : Exporting p) : ∀ rec ∈ p.hooks.ipc.exports, rec.hasMapping = false → rec.mappedVaddr = 0 := by
  obtain ⟨start, calls, hfresh, rfl⟩ := h.history
  have hstart : ∀ rec ∈ start.hooks.ipc.exports, rec.hasMapping = false → rec.mappedVaddr = 0 := by
    rw [hfresh.hooks.exports]
    exact fun rec hrec => absurd hrec List.not_mem_nil
  clear h hfresh
  induction calls generalizing start with
  | nil => exact hstart
  | cons c calls ih =>
    refine ih (start.call c) ?_
    obtain ⟨d, -, heq⟩ := start.call_hooks c
    rw [heq]
    exact unmapped_call (s := start.hooks.setDrv d) hstart c

end Exporting

/-! ### The phases of a job -/

/-- The entries a worker publishes. -/
def entries (w : IpcWorker) : List IpcExportShmEntry := (w.exports.filter (·.hasMapping)).map (·.shmEntry w.pid)

section Phases
variable {ws : List IpcWorker}

end Phases

end IpcWorker

end GpuCr
