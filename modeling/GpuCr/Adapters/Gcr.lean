import GpuCr.Ipc.Peer
import GpuCr.Ipc.Cycles
import GpuCr.Ipc.SaveFirst

/-!
# The runtime of the NCCL adapter

The entry points of `adapters/nccl/runtime/gcr_checkpoint_runtime.cpp` over the tables of the hooks, two host buffers
and the flag `g_prepared`. An entry point is a sequence of statements, some of which return `-1` at once; there is no
rollback. What the calls outside the tables return comes with the call of the entry point, and so do the driver's
answers while it runs.
-/

namespace GpuCr

open Lib.Run Std

/-! ### The answers -/

/-- `deviceSync`, `exportAlloc`, `events` and `localAlloc` say whether `cudaDeviceSynchronize`, the allocation of the two
buffers and `ipc_teardown_all_events` succeed. New buffers hold `exportFresh` and `localFresh`. -/
structure PrepareAnswers where
  env : DriverEnv
  deviceSync : Bool
  exportAlloc : Bool
  exportFresh : Nat → Byte
  events : Bool
  localAlloc : Bool
  localFresh : Nat → Byte

/-- `exportPath` says whether `GCR_EXPORT_SHM_PATH` is set, `mapShm` whether the file there can be mapped. -/
structure RestoreExportAnswers where
  env : DriverEnv
  exportPath : Bool
  mapShm : Bool
  fdServer : Bool

/-- `block` is what the peer's file holds, and `sizeOf` the size behind a descriptor that it leads to. `validate` is the
flag `GCR_CKPT_OPT_VALIDATE`. -/
structure RestoreImportAnswers where
  env : DriverEnv
  importPath : Bool
  mapShm : Bool
  sizeOf : Nat → Nat
  block : List IpcExportShmEntry
  validate : Bool

/-- `exportData` and `localData` are `g_export_data` and `g_local_alloc_data`. -/
structure GcrProcess where
  hooks : HookedProcess
  peers : PeerState
  exportData : Option HostBuf
  localData : Option HostBuf
  prepared : Bool

/-- What can happen to a process: the entry points, and hooked calls of the application. -/
inductive GcrEvent where
  | prepare (c : PrepareAnswers)
  | restoreExport (c : RestoreExportAnswers)
  | restoreImport (c : RestoreImportAnswers)
  | call (c : HookCall)
  | enablePeer (dev : Int)
  | disablePeer (dev : Int)

def IpcState.withEnv (s : IpcState) (env : DriverEnv) : IpcState := { s with drv := { s.drv with env := env } }

/-- `allocate_buffer`. The buffer of an earlier call is released first, also when nothing is needed now. -/
def allocateBuffer (needed : Nat) (succeeds : Bool) (fresh : Nat → Byte) : Bool × Option HostBuf :=
  if needed = 0 then (true, none)
  else if succeeds then (true, some ⟨needed, fresh⟩)
  else (false, none)

namespace GcrProcess

def ipc (s : GcrProcess) : IpcState := s.hooks.ipc

def setIpc (s : GcrProcess) (ipc : IpcState) : GcrProcess := { s with hooks := { s.hooks with ipc := ipc } }

/-! ### Prepare

A statement that returns `-1` is an `error`, with the process as it leaves it. -/

def deviceSynchronize (s : GcrProcess) (c : PrepareAnswers) : Except GcrProcess GcrProcess :=
  if c.deviceSync then .ok s else .error s

def teardownImports (s : GcrProcess) : Except GcrProcess GcrProcess :=
  match (Driver.importOps fun _ => 0).ipcTeardownAllImports s.ipc.fns.cuMemRelease s.ipc.imports s.ipc.drv with
  | (none, _) => .error s
  | (some _, imports, drv) => .ok (s.setIpc { s.ipc with imports := imports, drv := drv })

def allocExportData (s : GcrProcess) (c : PrepareAnswers) : Except GcrProcess GcrProcess :=
  let r := allocateBuffer s.ipc.ipcGetExportDataSize c.exportAlloc c.exportFresh
  let s := { s with exportData := r.2 }
  if r.1 then .ok s else .error s

/-- Passed over without a buffer. -/
def saveExports (s : GcrProcess) : Except GcrProcess GcrProcess :=
  match s.exportData with
  | none => .ok s
  | some buf =>
    if buf.size = 0 then .ok s
    else
      let r := s.ipc.ipcSaveAndTeardownAllExports buf
      let s := { s.setIpc r.2.1 with exportData := some r.2.2 }
      if r.1.isSome then .ok s else .error s

def teardownEvents (s : GcrProcess) (c : PrepareAnswers) : Except GcrProcess GcrProcess :=
  if c.events then .ok s else .error s

def allocLocalData (s : GcrProcess) (c : PrepareAnswers) : Except GcrProcess GcrProcess :=
  let r := allocateBuffer s.ipc.ipcGetLocalAllocDataSize c.localAlloc c.localFresh
  let s := { s with localData := r.2 }
  if r.1 then .ok s else .error s

def saveLocals (s : GcrProcess) : Except GcrProcess GcrProcess :=
  match s.localData with
  | none => .ok s
  | some buf =>
    if buf.size = 0 then .ok s
    else
      let r := s.ipc.ipcSaveAndTeardownLocalAllocs buf
      let s := { s.setIpc r.2.1 with localData := some r.2.2 }
      if r.1.isSome then .ok s else .error s

/-- The statements before the save of the exports. -/
def toExports (s : GcrProcess) (c : PrepareAnswers) : Except GcrProcess GcrProcess := do
  let s ← (s.setIpc (s.ipc.withEnv c.env)).deviceSynchronize c
  let s ← s.teardownImports
  s.allocExportData c

/-- The statements between the two saves. -/
def toLocals (s : GcrProcess) (c : PrepareAnswers) : Except GcrProcess GcrProcess := do
  let s ← s.teardownEvents c
  s.allocLocalData c

/-- The statements that can return `-1`. -/
def teardownRun (s : GcrProcess) (c : PrepareAnswers) : Except GcrProcess GcrProcess := do
  let s ← s.toExports c
  let s ← s.saveExports
  let s ← s.toLocals c
  s.saveLocals

def prepareRun (s : GcrProcess) (c : PrepareAnswers) : Except GcrProcess GcrProcess := do
  let s ← s.teardownRun c
  pure { s with peers := s.peers.ipcDisableAllPeerAccess, prepared := true }

/-- The return value and the process after the call. -/
def result : Except GcrProcess GcrProcess → Int × GcrProcess
  | .error s => (-1, s)
  | .ok s => (0, s)

/-- A process that is prepared already is left as it is. -/
def gcrCheckpointPrepare (s : GcrProcess) (c : PrepareAnswers) : Int × GcrProcess :=
  if s.prepared then (0, s) else result (s.prepareRun c)

/-! ### Restore -/

/-- The buffer goes whatever the rebuild has returned. -/
def rebuildExports (s : GcrProcess) : Except GcrProcess GcrProcess :=
  match s.exportData with
  | none => .ok s
  | some buf =>
    if buf.size = 0 then .ok s
    else
      let r := s.ipc.ipcRebuildAndRestoreAllExports buf
      let s := { s.setIpc r.2 with exportData := none }
      if r.1.isSome then .ok s else .error s

def rebuildLocals (s : GcrProcess) : Except GcrProcess GcrProcess :=
  match s.localData with
  | none => .ok s
  | some buf =>
    if buf.size = 0 then .ok s
    else
      let r := s.ipc.ipcRebuildLocalAllocs buf
      let s := { s.setIpc r.2 with localData := none }
      if r.1.isSome then .ok s else .error s

/-- What follows the rebuilds touches neither the tables nor the buffers. -/
def publish (s : GcrProcess) (c : RestoreExportAnswers) : Except GcrProcess GcrProcess :=
  if c.exportPath && !c.mapShm then .error s
  else if !c.exportPath && decide (0 < s.ipc.exports.length) then .error s
  else if !c.fdServer then .error s
  else .ok s

def restoreExportRun (s : GcrProcess) (c : RestoreExportAnswers) : Except GcrProcess GcrProcess := do
  let s ← (s.setIpc (s.ipc.withEnv c.env)).rebuildExports
  let s ← s.rebuildLocals
  s.publish c

def gcrCheckpointRestoreExport (s : GcrProcess) (c : RestoreExportAnswers) : Int × GcrProcess :=
  result (s.restoreExportRun c)

def importBlock (s : GcrProcess) (c : RestoreImportAnswers) : Except GcrProcess GcrProcess :=
  if c.importPath then
    if !c.mapShm then .error s
    else
      let r := (Driver.importOps c.sizeOf).ipcImportFromShmBlock (s.ipc.fns.cuMemImport && s.ipc.fns.cuMemMap)
        s.ipc.fns.cuMemSetAccess c.block s.ipc.imports s.ipc.drv
      let s := s.setIpc { s.ipc with imports := r.2.1, drv := r.2.2 }
      if r.1.isSome then .ok s else .error s
  else if 0 < s.ipc.imports.length then .error s
  else .ok s

/-- The four bytes `ipc_validate_all_mappings` reads from a range: whether it can, and the driver. -/
def probe (x : Bool × Driver) (va : Nat) : Bool × Driver :=
  let r := x.2.call (x.2.accessible va 4) id
  (x.1 && r.1, r.2)

/-- The ranges that `ipc_validate_all_mappings` reads from. -/
def probed (s : IpcState) : List Nat :=
  ((s.exports.filter (·.active)).map (·.mappedVaddr)) ++
    ((s.imports.filter fun rec => !rec.tornDown && decide (0 < rec.size)).map (·.mappedVaddr)) ++
    ((s.localAllocs.filter fun rec => !rec.tornDown && decide (0 < rec.size)).map (·.vaddr))

def validateMappings (s : GcrProcess) (c : RestoreImportAnswers) : Except GcrProcess GcrProcess :=
  if c.validate then
    let r := (probed s.ipc).foldl probe (true, s.ipc.drv)
    let s := s.setIpc { s.ipc with drv := r.2 }
    if r.1 then .ok s else .error s
  else .ok s

/-- The statements that can return `-1`. -/
def reimportRun (s : GcrProcess) (c : RestoreImportAnswers) : Except GcrProcess GcrProcess := do
  let s ← (s.setIpc (s.ipc.withEnv c.env)).importBlock c
  s.validateMappings c

def restoreImportRun (s : GcrProcess) (c : RestoreImportAnswers) : Except GcrProcess GcrProcess := do
  let s ← s.reimportRun c
  pure { s with peers := s.peers.ipcReenableAllPeerAccess, prepared := false }

def gcrCheckpointRestoreImport (s : GcrProcess) (c : RestoreImportAnswers) : Int × GcrProcess :=
  result (s.restoreImportRun c)

def step (s : GcrProcess) : GcrEvent → GcrProcess
  | .prepare c => (s.gcrCheckpointPrepare c).2
  | .restoreExport c => (s.gcrCheckpointRestoreExport c).2
  | .restoreImport c => (s.gcrCheckpointRestoreImport c).2
  | .call c => { s with hooks := s.hooks.call c }
  | .enablePeer dev => { s with peers := s.peers.cudaDeviceEnablePeerAccess dev }
  | .disablePeer dev => { s with peers := s.peers.cudaDeviceDisablePeerAccess dev }

end GcrProcess

/-! ### What stays -/

section Fns
variable (s : IpcState) (buf : HostBuf)

theorem IpcState.fns_saveExports : (s.ipcSaveAndTeardownAllExports buf).2.1.fns = s.fns := by
  unfold ipcSaveAndTeardownAllExports
  dsimp only
  split_ifs <;> rfl

theorem IpcState.fns_saveLocals : (s.ipcSaveAndTeardownLocalAllocs buf).2.1.fns = s.fns := by
  unfold ipcSaveAndTeardownLocalAllocs
  dsimp only
  split_ifs <;> rfl

theorem IpcState.fns_rebuildExports : (s.ipcRebuildAndRestoreAllExports buf).2.fns = s.fns := by
  unfold ipcRebuildAndRestoreAllExports
  dsimp only
  split_ifs
  · rfl
  · exact (foldl_trackExport_frame _ _).2.2.1

theorem IpcState.fns_rebuildLocals : (s.ipcRebuildLocalAllocs buf).2.fns = s.fns := by
  have hfold : ∀ (entries : List RebuildEntry) (s : IpcState), (entries.foldl trackLocal s).fns = s.fns := by
    intro entries
    induction entries with
    | nil => exact fun s => rfl
    | cons e entries ih =>
      intro s
      refine (ih (s.trackLocal e)).trans ?_
      unfold trackLocal
      split <;> rfl
  unfold ipcRebuildLocalAllocs
  dsimp only
  split_ifs
  · rfl
  · exact hfold _ _

end Fns

theorem HookedProcess.fns_call (s : HookedProcess) (c : HookCall) : (s.call c).ipc.fns = s.ipc.fns := by
  have heff := s.call_effect c
  generalize s.call c = s' at heff
  cases heff with
  | rejected hd => rfl
  | plain hd => rfl
  | created hd hpos => rfl
  | exported hd _ hfd => rfl
  | imported hd => rfl
  | mapped hd =>
    unfold recordMap mapCreated mapImported
    split_ifs <;> rfl
  | unmapped hd => rfl
  | released hd =>
    unfold recordRelease
    dsimp only
    split_ifs <;> rfl
  | access hd => rfl

namespace GcrProcess

/-- The flag and the functions are as before. -/
structure Kept (s s' : GcrProcess) : Prop where
  prepared : s'.prepared = s.prepared
  fns : s'.ipc.fns = s.ipc.fns

theorem Kept.trans {s s' s'' : GcrProcess} (h : s.Kept s') (h' : s'.Kept s'') : s.Kept s'' :=
  ⟨h'.prepared.trans h.prepared, h'.fns.trans h.fns⟩

/-- One statement after the other; the second runs only if the first succeeds. -/
theorem Kept.bind {s t : GcrProcess} {x : Except GcrProcess GcrProcess} {f : GcrProcess → Except GcrProcess GcrProcess}
    (h : s.Kept t) (hx : t.Kept (result x).2) (hf : ∀ t : GcrProcess, t.Kept (result (f t)).2) :
    s.Kept (result (x >>= f)).2 := by
  cases x with
  | error u => exact h.trans hx
  | ok u => exact (h.trans hx).trans (hf u)

section Statements
variable (s : GcrProcess)

theorem kept_refl : s.Kept s := ⟨rfl, rfl⟩

theorem kept_withEnv (env : DriverEnv) : s.Kept (s.setIpc (s.ipc.withEnv env)) := ⟨rfl, rfl⟩

theorem kept_teardownImports : s.Kept (result s.teardownImports).2 := by
  unfold teardownImports
  split <;> exact ⟨rfl, rfl⟩

theorem kept_allocExportData (c : PrepareAnswers) : s.Kept (result (s.allocExportData c)).2 := by
  unfold allocExportData
  dsimp only
  split_ifs <;> exact ⟨rfl, rfl⟩

theorem kept_saveExports : s.Kept (result s.saveExports).2 := by
  unfold saveExports
  split
  · exact s.kept_refl
  · dsimp only
    split_ifs
    · exact s.kept_refl
    · exact ⟨rfl, s.ipc.fns_saveExports _⟩
    · exact ⟨rfl, s.ipc.fns_saveExports _⟩

theorem kept_toExports (c : PrepareAnswers) : s.Kept (result (s.toExports c)).2 := by
  refine (s.kept_withEnv c.env).bind ?_ fun t => t.kept_refl.bind t.kept_teardownImports fun u => u.kept_allocExportData c
  unfold deviceSynchronize
  split_ifs <;> exact kept_refl _

theorem kept_toLocals (c : PrepareAnswers) : s.Kept (result (s.toLocals c)).2 := by
  refine s.kept_refl.bind ?_ fun t => ?_
  · unfold teardownEvents
    split_ifs <;> exact kept_refl _
  · unfold allocLocalData
    dsimp only
    split_ifs <;> exact ⟨rfl, rfl⟩

theorem kept_saveLocals : s.Kept (result s.saveLocals).2 := by
  unfold saveLocals
  split
  · exact s.kept_refl
  · dsimp only
    split_ifs
    · exact s.kept_refl
    · exact ⟨rfl, s.ipc.fns_saveLocals _⟩
    · exact ⟨rfl, s.ipc.fns_saveLocals _⟩

theorem kept_rebuildExports : s.Kept (result s.rebuildExports).2 := by
  unfold rebuildExports
  split
  · exact s.kept_refl
  · dsimp only
    split_ifs
    · exact s.kept_refl
    · exact ⟨rfl, s.ipc.fns_rebuildExports _⟩
    · exact ⟨rfl, s.ipc.fns_rebuildExports _⟩

theorem kept_rebuildLocals : s.Kept (result s.rebuildLocals).2 := by
  unfold rebuildLocals
  split
  · exact s.kept_refl
  · dsimp only
    split_ifs
    · exact s.kept_refl
    · exact ⟨rfl, s.ipc.fns_rebuildLocals _⟩
    · exact ⟨rfl, s.ipc.fns_rebuildLocals _⟩

theorem kept_publish (c : RestoreExportAnswers) : s.Kept (result (s.publish c)).2 := by
  unfold publish
  split_ifs <;> exact s.kept_refl

theorem kept_importBlock (c : RestoreImportAnswers) : s.Kept (result (s.importBlock c)).2 := by
  unfold importBlock
  dsimp only
  split_ifs <;> exact ⟨rfl, rfl⟩

theorem kept_validateMappings (c : RestoreImportAnswers) : s.Kept (result (s.validateMappings c)).2 := by
  unfold validateMappings
  dsimp only
  split_ifs <;> exact ⟨rfl, rfl⟩

theorem kept_teardownRun (c : PrepareAnswers) : s.Kept (result (s.teardownRun c)).2 :=
  s.kept_refl.bind (s.kept_toExports c) fun t => t.kept_refl.bind t.kept_saveExports fun u =>
    u.kept_refl.bind (u.kept_toLocals c) fun v => v.kept_saveLocals

theorem kept_restoreExportRun (c : RestoreExportAnswers) : s.Kept (result (s.restoreExportRun c)).2 :=
  (s.kept_withEnv c.env).bind (kept_rebuildExports _) fun t =>
    t.kept_refl.bind t.kept_rebuildLocals fun u => u.kept_publish c

theorem kept_reimportRun (c : RestoreImportAnswers) : s.Kept (result (s.reimportRun c)).2 :=
  (s.kept_withEnv c.env).bind (kept_importBlock _ c) fun t => t.kept_validateMappings c

end Statements

/-! ### The flag over a run -/

section Flag
variable (s : GcrProcess)

/-- A prepare that returns `0` leaves the flag set, and one that returns `-1` leaves it clear. -/
theorem prepare_spec (c : PrepareAnswers) :
    (s.gcrCheckpointPrepare c).2.prepared = (s.prepared || (s.gcrCheckpointPrepare c).1 == 0) ∧
      (s.gcrCheckpointPrepare c).2.ipc.fns = s.ipc.fns := by
  have hkept := s.kept_teardownRun c
  unfold gcrCheckpointPrepare
  cases hprep : s.prepared with
  | true => exact ⟨hprep, rfl⟩
  | false =>
    rw [if_neg Bool.false_ne_true]
    unfold prepareRun
    cases hrun : s.teardownRun c with
    | error t =>
      rw [hrun] at hkept
      exact ⟨hkept.prepared.trans hprep, hkept.fns⟩
    | ok t =>
      rw [hrun] at hkept
      exact ⟨rfl, hkept.fns⟩

/-- Only a `restore_import` that returns `0` clears the flag. -/
theorem restoreImport_spec (c : RestoreImportAnswers) :
    (s.gcrCheckpointRestoreImport c).2.prepared = (s.prepared && (s.gcrCheckpointRestoreImport c).1 != 0) ∧
      (s.gcrCheckpointRestoreImport c).2.ipc.fns = s.ipc.fns := by
  have hkept := s.kept_reimportRun c
  unfold gcrCheckpointRestoreImport restoreImportRun
  cases hrun : s.reimportRun c with
  | error t =>
    rw [hrun] at hkept
    exact ⟨hkept.prepared.trans (Bool.and_true _).symm, hkept.fns⟩
  | ok t =>
    rw [hrun] at hkept
    exact ⟨(Bool.and_false _).symm, hkept.fns⟩

end Flag

/-- Whether a prepare has returned `0` and no `restore_import` since, after one more event; `b` says so before it. -/
def awaits (s : GcrProcess) (b : Bool) : GcrEvent → Bool
  | .prepare c => b || (s.gcrCheckpointPrepare c).1 == 0
  | .restoreImport c => b && (s.gcrCheckpointRestoreImport c).1 != 0
  | _ => b

/-- Whether a prepare has returned `0` since the last `restore_import` that did. -/
def outstanding (s : GcrProcess) (b : Bool) : List GcrEvent → Bool
  | [] => b
  | e :: events => (s.step e).outstanding (s.awaits b e) events

theorem step_spec (s : GcrProcess) (e : GcrEvent) :
    (s.step e).prepared = s.awaits s.prepared e ∧ (s.step e).ipc.fns = s.ipc.fns := by
  cases e with
  | prepare c => exact s.prepare_spec c
  | restoreExport c => exact ⟨(s.kept_restoreExportRun c).prepared, (s.kept_restoreExportRun c).fns⟩
  | restoreImport c => exact s.restoreImport_spec c
  | call c => exact ⟨rfl, s.hooks.fns_call c⟩
  | enablePeer dev => exact ⟨rfl, rfl⟩
  | disablePeer dev => exact ⟨rfl, rfl⟩

/-- The flag of a process says what its calls have returned. -/
theorem run_spec (s : GcrProcess) (events : List GcrEvent) :
    (run step s events).prepared = s.outstanding s.prepared events ∧ (run step s events).ipc.fns = s.ipc.fns := by
  induction events generalizing s with
  | nil => exact ⟨rfl, rfl⟩
  | cons e events ih =>
    obtain ⟨hflag, hfns⟩ := s.step_spec e
    obtain ⟨ih1, ih2⟩ := ih (s.step e)
    rw [hflag] at ih1
    exact ⟨ih1, ih2.trans hfns⟩

end GcrProcess

end GpuCr
