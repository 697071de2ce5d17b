import GpuCr.Adapters.Retry
import GpuCr.VGpu.Messages

/-!
# One worker, two handlers

The library that is preloaded into a worker serves two signals: `cr_signal_handler` works on the blocks of `cudaMalloc`,
`cr_ipc_signal_handler` on the tables of the IPC hooks, and both on one driver. What the second does is also written out
in the runtime of the NCCL adapter, as `gcr_checkpoint_prepare` and `gcr_checkpoint_restore_export`; a teardown that comes
to its end leaves the same process either way.
-/

namespace GpuCr

open Lib.Run

/-! ### The worker -/

structure Worker where
  gpu : VGpu
  ipc : IpcWorkerState
  oneDriver : ipc.ipc.drv = gpu.drv

/-- What a handler finds in shared memory beside the message. -/
structure MsgInputs where
  req : SelectiveCrRequest
  sizeOf : Nat → Nat
  block : List IpcExportShmEntry

namespace Worker

def crSignalHandler (shmSize : Nat) (s : Worker) (m : GpuMsg) : Except Exit Worker :=
  (HookedGpu.operation shmSize m s.gpu).map fun gpu =>
    ⟨gpu, { s.ipc with ipc := { s.ipc.ipc with drv := gpu.drv } }, rfl⟩

def crIpcSignalHandler (s : Worker) (m : IpcMsg) : Worker :=
  let ipc := run IpcWorkerState.step s.ipc m.stages
  ⟨{ s.gpu with drv := ipc.ipc.drv }, ipc, rfl⟩

/-- The handler of the signal that comes with the message. -/
def handleMsg (shmSize : Nat) (x : MsgInputs) (s : Worker) : PeerState.CrMsg → Except Exit Worker
  | .init => .ok s
  | .ckpt => s.crSignalHandler shmSize .ckpt
  | .restore => s.crSignalHandler shmSize .restore
  | .selectiveCkpt => s.crSignalHandler shmSize (.selectiveCkpt x.req)
  | .selectiveRestore => s.crSignalHandler shmSize .selectiveRestore
  | .ipcTeardown => .ok (s.crIpcSignalHandler .teardown)
  | .ipcExport => .ok (s.crIpcSignalHandler .export)
  | .ipcImport => .ok (s.crIpcSignalHandler (.import x.sizeOf x.block))

/-- The messages of `do_checkpoint`, then those of `do_restore`. A worker that has left through `exit` handles none. -/
def cycle (shmSize : Nat) (x : MsgInputs) (skipNccl : Bool) (s : Worker) : Except Exit Worker :=
  (PeerState.doCheckpoint skipNccl ++ PeerState.doRestore skipNccl).foldlM (handleMsg shmSize x) s

theorem crSignalHandler_of_ok {shmSize : Nat} {s : Worker} {m : GpuMsg} {gpu : VGpu}
    (h : HookedGpu.operation shmSize m s.gpu = .ok gpu) :
    s.crSignalHandler shmSize m = .ok ⟨gpu, { s.ipc with ipc := { s.ipc.ipc with drv := gpu.drv } }, rfl⟩ := by
  unfold crSignalHandler
  rw [h]
  rfl

end Worker

/-! ### The other runtime -/

namespace IpcWorkerState

/-- The tables and buffers as a process of the adapter's runtime. -/
def gcr (s : IpcWorkerState) : GcrProcess :=
  ⟨{ HookedProcess.empty with ipc := s.ipc }, PeerState.start, s.exportBuf, s.localBuf, false⟩

/-- Every allocation of a buffer succeeds, with memory that reads zero, and the driver goes on as before. -/
def answers (s : IpcWorkerState) : PrepareAnswers := ⟨s.ipc.drv.env, true, true, fun _ => 0, true, true, fun _ => 0⟩

section Stages
variable {s : IpcWorkerState}

theorem mmap_ok (hmmap : ∀ n, s.mmapFails n = false) (size : Nat) : s.mmap size = some ⟨size, fun _ => 0⟩ := by
  unfold mmap
  rw [hmmap, if_neg Bool.false_ne_true]

theorem atExports_gcr (hmmap : ∀ n, s.mmapFails n = false) (hbuf : s.exportBuf = none) :
    s.teardownImports.allocExportBuf.gcr = s.gcr.atExports s.answers := by
  have hdata : s.teardownImports.ipc.ipcGetExportDataSize = s.ipc.ipcGetExportDataSize := rfl
  have hnone : s.teardownImports.exportBuf = none := hbuf
  unfold allocExportBuf GcrProcess.atExports allocateBuffer
  rw [hdata, mmap_ok (s := s.teardownImports) hmmap, show s.gcr.ipc = s.ipc from rfl]
  by_cases hsize : 0 < s.ipc.ipcGetExportDataSize
  · rw [if_pos hsize, if_neg hsize.ne']
    rfl
  · rw [if_neg hsize, if_pos (Nat.eq_zero_of_not_pos hsize)]
    unfold gcr
    rw [hnone]
    rfl

theorem saveExports_gcr {t : GcrProcess} (h : s.gcr.saveExports = .ok t) : s.saveExports.gcr = t := by
  unfold GcrProcess.saveExports at h
  unfold saveExports
  rw [show s.gcr.exportData = s.exportBuf from rfl] at h
  cases hbuf : s.exportBuf with
  | none =>
    rw [hbuf] at h
    exact Except.ok.inj h
  | some buf =>
    rw [hbuf] at h
    dsimp only at h ⊢
    by_cases hzero : buf.size = 0
    · rw [if_pos hzero] at h
      rw [if_neg (by omega)]
      exact Except.ok.inj h
    · rw [if_neg hzero] at h
      rw [if_pos (Nat.pos_of_ne_zero hzero)]
      split_ifs at h
      exact Except.ok.inj h

theorem atLocals_gcr (hmmap : ∀ n, s.mmapFails n = false) (hbuf : s.localBuf = none) (c : PrepareAnswers)
    (hc : c.localAlloc = true ∧ c.localFresh = fun _ => 0) : s.allocLocalBuf.gcr = s.gcr.atLocals c := by
  unfold allocLocalBuf GcrProcess.atLocals allocateBuffer
  rw [mmap_ok hmmap, hc.1, hc.2, show s.gcr.ipc = s.ipc from rfl]
  by_cases hsize : 0 < s.ipc.ipcGetLocalAllocDataSize
  · rw [if_pos hsize, if_neg hsize.ne']
    rfl
  · rw [if_neg hsize, if_pos (Nat.eq_zero_of_not_pos hsize)]
    unfold gcr
    rw [hbuf]

theorem saveLocals_gcr {t : GcrProcess} (h : s.gcr.saveLocals = .ok t) : s.saveLocals.gcr = t := by
  unfold GcrProcess.saveLocals at h
  unfold saveLocals
  rw [show s.gcr.localData = s.localBuf from rfl] at h
  cases hbuf : s.localBuf with
  | none =>
    rw [hbuf] at h
    exact Except.ok.inj h
  | some buf =>
    rw [hbuf] at h
    dsimp only at h ⊢
    by_cases hzero : buf.size = 0
    · rw [if_pos hzero] at h
      rw [if_neg (by omega)]
      exact Except.ok.inj h
    · rw [if_neg hzero] at h
      rw [if_pos (Nat.pos_of_ne_zero hzero)]
      split_ifs at h
      exact Except.ok.inj h

theorem saveExports_frame (s : IpcWorkerState) :
    s.saveExports.mmapFails = s.mmapFails ∧ s.saveExports.localBuf = s.localBuf := by
  unfold saveExports
  split
  · exact ⟨rfl, rfl⟩
  · split_ifs <;> exact ⟨rfl, rfl⟩

theorem allocExportBuf_frame (s : IpcWorkerState) :
    s.allocExportBuf.mmapFails = s.mmapFails ∧ s.allocExportBuf.localBuf = s.localBuf := by
  unfold allocExportBuf
  split_ifs <;> exact ⟨rfl, rfl⟩

end Stages

/-! ### Teardown and export -/

section Agree
variable {s : IpcWorkerState}

theorem teardown_gcr (hfns : s.ipc.fns.Resolved) (hmmap : ∀ n, s.mmapFails n = false) (hexp : s.exportBuf = none)
    (hloc : s.localBuf = none) {t : GcrProcess} (h : s.gcr.teardownRun s.answers = .ok t) :
    (run step s IpcMsg.teardown.stages).gcr = t := by
  obtain ⟨u, -, hsave, -, hsave'⟩ := GcrProcess.teardownRun_ok (s := s.gcr) hfns h
  rw [← atExports_gcr hmmap hexp] at hsave
  have hu := saveExports_gcr hsave
  obtain ⟨hfails, hbuf⟩ := s.teardownImports.allocExportBuf_frame
  obtain ⟨hfails', hbuf'⟩ := s.teardownImports.allocExportBuf.saveExports_frame
  rw [← hu, ← atLocals_gcr (s := s.teardownImports.allocExportBuf.saveExports) (fun n => ?_) ?_ s.answers ⟨rfl, rfl⟩] at hsave'
  · exact saveLocals_gcr hsave'
  · rw [hbuf', hbuf]
    exact hloc
  · rw [hfails', hfails]
    exact hmmap n

theorem restoreExports_ipc (s : IpcWorkerState) :
    s.restoreExports.ipc = s.ipc.rebuiltExports s.exportBuf ∧ s.restoreExports.localBuf = s.localBuf := by
  unfold restoreExports IpcState.rebuiltExports
  cases s.exportBuf with
  | none => exact ⟨rfl, rfl⟩
  | some buf =>
    dsimp only
    by_cases hzero : buf.size = 0
    · rw [if_pos hzero, if_neg (by omega)]
      exact ⟨rfl, rfl⟩
    · rw [if_neg hzero, if_pos (Nat.pos_of_ne_zero hzero)]
      exact ⟨rfl, rfl⟩

theorem restoreLocals_ipc (s : IpcWorkerState) : s.restoreLocals.ipc = s.ipc.rebuiltLocals s.localBuf := by
  unfold restoreLocals IpcState.rebuiltLocals
  cases s.localBuf with
  | none => rfl
  | some buf =>
    dsimp only
    by_cases hzero : buf.size = 0
    · rw [if_pos hzero, if_neg (by omega)]
    · rw [if_neg hzero, if_pos (Nat.pos_of_ne_zero hzero)]

/-- An export message is the two rebuilds, whatever they return. -/
theorem export_ipc (s : IpcWorkerState) :
    (run step s IpcMsg.export.stages).ipc = (s.ipc.rebuiltExports s.exportBuf).rebuiltLocals s.localBuf := by
  show s.restoreExports.restoreLocals.ipc = _
  rw [restoreLocals_ipc, (restoreExports_ipc s).1, (restoreExports_ipc s).2]

/-- **The two implementations agree.** Where `gcr_checkpoint_prepare` returns `0`, the teardown of the handler leaves the
tables, the driver and the buffers that it leaves; and what a later export message then makes of the tables is what
`gcr_checkpoint_restore_export` makes of them. -/
theorem agrees_with_adapter (hfns : s.ipc.fns.Resolved) (hback : s.ipc.fns.Rebuildable)
    (hmmap : ∀ n, s.mmapFails n = false) (hexp : s.exportBuf = none) (hloc : s.localBuf = none)
    (hret : (s.gcr.gcrCheckpointPrepare s.answers).1 = 0) (r : RestoreExportAnswers) :
    let t := run step s IpcMsg.teardown.stages
    let p := (s.gcr.gcrCheckpointPrepare s.answers).2
    t.ipc = p.ipc ∧ t.exportBuf = p.exportData ∧ t.localBuf = p.localData ∧
      (run step { t with ipc := t.ipc.withEnv r.env } IpcMsg.export.stages).ipc = (p.gcrCheckpointRestoreExport r).2.ipc := by
  have hfns' : (s.gcr.gcrCheckpointPrepare s.answers).2.ipc.fns = s.ipc.fns := (s.gcr.prepare_spec s.answers).2
  revert hret hfns'
  unfold GcrProcess.gcrCheckpointPrepare GcrProcess.prepareRun
  rw [show s.gcr.prepared = false from rfl, if_neg Bool.false_ne_true]
  cases hrun : s.gcr.teardownRun s.answers with
  | error u => exact fun hret => absurd (show (-1 : Int) = 0 from hret) (by decide)
  | ok u =>
    intro hret hfns'
    have hagree := teardown_gcr hfns hmmap hexp hloc hrun
    have hipc : (run step s IpcMsg.teardown.stages).ipc = u.ipc := congrArg GcrProcess.ipc hagree
    have hdata : (run step s IpcMsg.teardown.stages).exportBuf = u.exportData := congrArg GcrProcess.exportData hagree
    have hdata' : (run step s IpcMsg.teardown.stages).localBuf = u.localData := congrArg GcrProcess.localData hagree
    refine ⟨hipc, hdata, hdata', ?_⟩
    rw [GcrProcess.restoreExport_ipc, export_ipc]
    · dsimp only
      rw [hipc, hdata, hdata']
      rfl
    · rw [hfns']
      exact hback

end Agree

/-- A worker with an export and a local allocation. -/
def exportAndLocal : IpcWorkerState :=
  ⟨(run GcrProcess.step GcrProcess.start GcrProcess.pairEvents).ipc, none, none, fun _ => false, 0⟩

theorem agrees_exportAndLocal :
    (run step exportAndLocal IpcMsg.teardown.stages).exportBuf =
        (exportAndLocal.gcr.gcrCheckpointPrepare exportAndLocal.answers).2.exportData ∧
      (run step exportAndLocal IpcMsg.teardown.stages).localBuf =
        (exportAndLocal.gcr.gcrCheckpointPrepare exportAndLocal.answers).2.localData := by
  obtain ⟨-, hexp, hloc, -⟩ := agrees_with_adapter (s := exportAndLocal) ⟨rfl, rfl, rfl⟩ ⟨rfl, rfl, rfl, rfl, rfl, rfl⟩
    (fun _ => rfl) rfl rfl (by decide) GcrProcess.restoring
  exact ⟨hexp, hloc⟩

end IpcWorkerState

end GpuCr
