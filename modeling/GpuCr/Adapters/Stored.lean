import GpuCr.Adapters.Storage
import GpuCr.Adapters.Prepare

/-!
# The adapter with its storage

The statements of the entry points that allocate or release a buffer, with the storage they do it with. Without the storage they
are those of `GcrProcess`, for the answers that the storage gives. Over any run the log of the storage accounts for the two
buffers: nothing is released twice or forgotten, whatever fails in between.
-/

namespace GpuCr

open Lib.Run Lib.Ledger StorageBuffer

structure StoredProcess where
  proc : GcrProcess
  exportBuf : StorageBuffer
  localBuf : StorageBuffer
  sys : StorageSystem

inductive StoredEvent where
  | prepare (c : PrepareAnswers) (forExports forLocals : AllocAnswers)
  | restoreExport (c : RestoreExportAnswers)
  | restoreImport (c : RestoreImportAnswers)
  | call (c : HookCall)
  | enablePeer (dev : Int)
  | disablePeer (dev : Int)

namespace StoredProcess

def start (p : GcrProcess) : StoredProcess := ⟨p, .empty, .empty, ⟨0, 0, []⟩⟩

/-- A statement that does not touch the storage. -/
def lift (s : StoredProcess) (f : GcrProcess → Except GcrProcess GcrProcess) : Except StoredProcess StoredProcess :=
  match f s.proc with
  | .error p => .error { s with proc := p }
  | .ok p => .ok { s with proc := p }

/-! ### Prepare -/

def allocExportData (s : StoredProcess) (c : PrepareAnswers) (a : AllocAnswers) : Except StoredProcess StoredProcess :=
  let needed := s.proc.ipc.ipcGetExportDataSize
  let r := s.exportBuf.allocateBuffer needed exportName a s.sys
  let proc := { s.proc with exportData := (allocateBuffer needed r.1 c.exportFresh).2 }
  let s := { s with proc := proc, exportBuf := r.2.1, sys := r.2.2 }
  if r.1 then .ok s else .error s

def allocLocalData (s : StoredProcess) (c : PrepareAnswers) (a : AllocAnswers) : Except StoredProcess StoredProcess :=
  let needed := s.proc.ipc.ipcGetLocalAllocDataSize
  let r := s.localBuf.allocateBuffer needed localName a s.sys
  let proc := { s.proc with localData := (allocateBuffer needed r.1 c.localFresh).2 }
  let s := { s with proc := proc, localBuf := r.2.1, sys := r.2.2 }
  if r.1 then .ok s else .error s

def toExports (s : StoredProcess) (c : PrepareAnswers) (a : AllocAnswers) : Except StoredProcess StoredProcess := do
  let s ← s.lift fun p => (p.setIpc (p.ipc.withEnv c.env)).deviceSynchronize c
  let s ← s.lift fun p => p.teardownImports
  s.allocExportData c a

def toLocals (s : StoredProcess) (c : PrepareAnswers) (a : AllocAnswers) : Except StoredProcess StoredProcess := do
  let s ← s.lift fun p => p.teardownEvents c
  s.allocLocalData c a

def prepareRun (s : StoredProcess) (c : PrepareAnswers) (forExports forLocals : AllocAnswers) :
    Except StoredProcess StoredProcess := do
  let s ← s.toExports c forExports
  let s ← s.lift fun p => p.saveExports
  let s ← s.toLocals c forLocals
  let s ← s.lift fun p => p.saveLocals
  s.lift fun p => .ok { p with peers := p.peers.ipcDisableAllPeerAccess, prepared := true }

def result : Except StoredProcess StoredProcess → Int × StoredProcess
  | .error s => (-1, s)
  | .ok s => (0, s)

def gcrCheckpointPrepare (s : StoredProcess) (c : PrepareAnswers) (forExports forLocals : AllocAnswers) :
    Int × StoredProcess :=
  if s.proc.prepared then (0, s) else result (s.prepareRun c forExports forLocals)

/-! ### Restore -/

def releaseExports (s : StoredProcess) : StoredProcess :=
  { s with exportBuf := (s.exportBuf.releaseBuffer s.sys).1, sys := (s.exportBuf.releaseBuffer s.sys).2 }

def releaseLocals (s : StoredProcess) : StoredProcess :=
  { s with localBuf := (s.localBuf.releaseBuffer s.sys).1, sys := (s.localBuf.releaseBuffer s.sys).2 }

/-- The buffer is released before it is looked at what the rebuild has returned. -/
def rebuildExports (s : StoredProcess) : Except StoredProcess StoredProcess :=
  if s.exportBuf.inUse then
    match s.proc.rebuildExports with
    | .error p => .error (releaseExports { s with proc := p })
    | .ok p => .ok (releaseExports { s with proc := p })
  else .ok s

def rebuildLocals (s : StoredProcess) : Except StoredProcess StoredProcess :=
  if s.localBuf.inUse then
    match s.proc.rebuildLocals with
    | .error p => .error (releaseLocals { s with proc := p })
    | .ok p => .ok (releaseLocals { s with proc := p })
  else .ok s

def restoreExportRun (s : StoredProcess) (c : RestoreExportAnswers) : Except StoredProcess StoredProcess := do
  let s ← rebuildExports { s with proc := s.proc.setIpc (s.proc.ipc.withEnv c.env) }
  let s ← s.rebuildLocals
  s.lift fun p => p.publish c

def gcrCheckpointRestoreExport (s : StoredProcess) (c : RestoreExportAnswers) : Int × StoredProcess :=
  result (s.restoreExportRun c)

def step (s : StoredProcess) : StoredEvent → StoredProcess
  | .prepare c forExports forLocals => (s.gcrCheckpointPrepare c forExports forLocals).2
  | .restoreExport c => (s.gcrCheckpointRestoreExport c).2
  | .restoreImport c => { s with proc := s.proc.step (.restoreImport c) }
  | .call c => { s with proc := s.proc.step (.call c) }
  | .enablePeer dev => { s with proc := s.proc.step (.enablePeer dev) }
  | .disablePeer dev => { s with proc := s.proc.step (.disablePeer dev) }

/-! ### Without the storage -/

/-- The storage left out. -/
def proj : Except StoredProcess StoredProcess → Except GcrProcess GcrProcess
  | .error s => .error s.proc
  | .ok s => .ok s.proc

section Projection
variable {s : StoredProcess} {c : PrepareAnswers} {a : AllocAnswers}

theorem proc_result (x : Except StoredProcess StoredProcess) :
    (result x).1 = (GcrProcess.result (proj x)).1 ∧ (result x).2.proc = (GcrProcess.result (proj x)).2 := by
  cases x with
  | error s => exact ⟨rfl, rfl⟩
  | ok s => exact ⟨rfl, rfl⟩

theorem proj_lift (f : GcrProcess → Except GcrProcess GcrProcess) : proj (s.lift f) = f s.proc := by
  unfold lift
  cases f s.proc <;> rfl

theorem proj_bind {x : Except StoredProcess StoredProcess} {f : StoredProcess → Except StoredProcess StoredProcess}
    {y : Except GcrProcess GcrProcess} {g : GcrProcess → Except GcrProcess GcrProcess} (hx : proj x = y)
    (hf : ∀ t, x = .ok t → proj (f t) = g t.proc) : proj (x >>= f) = y >>= g := by
  subst hx
  cases x with
  | error s => rfl
  | ok s => exact hf s rfl

theorem proj_allocExportData (s : StoredProcess) (c : PrepareAnswers) (a : AllocAnswers) : proj (s.allocExportData c a) =
    s.proc.allocExportData
      { c with exportAlloc := (s.exportBuf.allocateBuffer s.proc.ipc.ipcGetExportDataSize exportName a s.sys).1 } := by
  obtain ⟨hok, -⟩ := backs_allocateBuffer s.exportBuf s.proc.ipc.ipcGetExportDataSize exportName a s.sys
    c.exportFresh
  unfold allocExportData GcrProcess.allocExportData
  dsimp only
  rw [hok]
  split_ifs <;> rfl

theorem proj_allocLocalData (s : StoredProcess) (c : PrepareAnswers) (a : AllocAnswers) : proj (s.allocLocalData c a) =
    s.proc.allocLocalData
      { c with localAlloc := (s.localBuf.allocateBuffer s.proc.ipc.ipcGetLocalAllocDataSize localName a s.sys).1 } := by
  obtain ⟨hok, -⟩ := backs_allocateBuffer s.localBuf s.proc.ipc.ipcGetLocalAllocDataSize localName a s.sys
    c.localFresh
  unfold allocLocalData GcrProcess.allocLocalData
  dsimp only
  rw [hok]
  split_ifs <;> rfl

/-- `ok` is what the storage for the exports answers; `ok'` is not looked at before the save of the locals. -/
theorem proj_toExports (s : StoredProcess) (c : PrepareAnswers) (a : AllocAnswers) : ∃ ok, ∀ ok', proj (s.toExports c a) =
    s.proc.toExports { c with exportAlloc := ok, localAlloc := ok' } := by
  have hsync := proj_lift (s := s) fun p => (p.setIpc (p.ipc.withEnv c.env)).deviceSynchronize c
  unfold toExports
  cases h1 : s.lift fun p => (p.setIpc (p.ipc.withEnv c.env)).deviceSynchronize c with
  | error t =>
    refine ⟨true, fun ok' => ?_⟩
    rw [h1] at hsync
    exact proj_bind hsync fun u hu => nomatch hu
  | ok t =>
    rw [h1] at hsync
    have himports := proj_lift (s := t) fun p => p.teardownImports
    cases h2 : t.lift fun p => p.teardownImports with
    | error u =>
      refine ⟨true, fun ok' => proj_bind hsync fun v hv => ?_⟩
      obtain rfl := Except.ok.inj hv
      exact proj_bind (proj_lift _) fun w hw => nomatch h2.symm.trans hw
    | ok u =>
      refine ⟨(u.exportBuf.allocateBuffer u.proc.ipc.ipcGetExportDataSize exportName a u.sys).1,
        fun ok' => proj_bind hsync fun v hv => ?_⟩
      obtain rfl := Except.ok.inj hv
      refine proj_bind (proj_lift _) fun w hw => ?_
      obtain rfl := Except.ok.inj (h2.symm.trans hw)
      exact u.proj_allocExportData c a

theorem proj_toLocals (s : StoredProcess) (c : PrepareAnswers) (a : AllocAnswers) : ∃ ok', ∀ ok, proj (s.toLocals c a) =
    s.proc.toLocals { c with exportAlloc := ok, localAlloc := ok' } := by
  unfold toLocals
  cases h1 : s.lift fun p => p.teardownEvents c with
  | error t =>
    refine ⟨true, fun ok => ?_⟩
    rw [← h1]
    exact proj_bind (proj_lift _) fun u hu => nomatch h1.symm.trans hu
  | ok t =>
    refine ⟨(t.localBuf.allocateBuffer t.proc.ipc.ipcGetLocalAllocDataSize localName a t.sys).1, fun ok => ?_⟩
    rw [← h1]
    refine proj_bind (proj_lift _) fun u hu => ?_
    obtain rfl := Except.ok.inj (h1.symm.trans hu)
    exact t.proj_allocLocalData c a

theorem proj_prepareRun (s : StoredProcess) (c : PrepareAnswers) (a b : AllocAnswers) :
    ∃ ok ok', proj (s.prepareRun c a b) = s.proc.prepareRun { c with exportAlloc := ok, localAlloc := ok' } := by
  obtain ⟨ok, hexports⟩ := s.proj_toExports c a
  have hassoc : ∀ c' : PrepareAnswers, s.proc.prepareRun c' = s.proc.toExports c' >>= fun p => p.saveExports >>= fun p =>
      p.toLocals c' >>= fun p => p.saveLocals >>= fun p =>
        .ok { p with peers := p.peers.ipcDisableAllPeerAccess, prepared := true } := by
    intro c'
    simp only [GcrProcess.prepareRun, GcrProcess.teardownRun, bind_assoc]
    rfl
  -- the second answer is that of the state in which the locals are reached, if they are
  have htail : ∃ ok', ∀ t u, s.toExports c a = .ok t → (t.lift fun p => p.saveExports) = .ok u →
      proj (u.toLocals c b) = u.proc.toLocals { c with exportAlloc := ok, localAlloc := ok' } := by
    cases h1 : s.toExports c a with
    | error t => exact ⟨true, fun t u ht => nomatch ht⟩
    | ok t =>
      cases h2 : t.lift fun p => p.saveExports with
      | error u =>
        refine ⟨true, fun t' u' ht hu => ?_⟩
        obtain rfl := Except.ok.inj ht
        exact nomatch h2.symm.trans hu
      | ok u =>
        obtain ⟨ok', hlocals⟩ := u.proj_toLocals c b
        refine ⟨ok', fun t' u' ht hu => ?_⟩
        obtain rfl := Except.ok.inj ht
        obtain rfl := Except.ok.inj (h2.symm.trans hu)
        exact hlocals ok
  obtain ⟨ok', htail⟩ := htail
  refine ⟨ok, ok', ?_⟩
  rw [hassoc]
  refine proj_bind (hexports ok') fun t ht => proj_bind (proj_lift _) fun u hu => ?_
  refine proj_bind (htail t u ht hu) fun v _ => proj_bind (proj_lift _) fun w _ => ?_
  exact proj_lift _

end Projection

/-! ### The ledger -/

/-- What the log says is held is held by the two buffers, which hold what the process keeps in them, in files of their own. -/
structure Accounted (s : StoredProcess) : Prop where
  leads : Leads [] s.sys.log (s.exportBuf.held ++ s.localBuf.held)
  below : ∀ r ∈ s.exportBuf.held ++ s.localBuf.held, r.Below s.sys.next
  exports : s.exportBuf.Backs s.proc.exportData
  locals : s.localBuf.Backs s.proc.localData
  exportFile : Named exportName s.exportBuf
  localFile : Named localName s.localBuf

theorem accounted_start {p : GcrProcess} (hexp : p.exportData = none) (hloc : p.localData = none) : (start p).Accounted where
  leads := .nil []
  below := by simp [start]
  exports := .inl ⟨rfl, hexp⟩
  locals := .inl ⟨rfl, hloc⟩
  exportFile := .inl rfl
  localFile := .inl rfl

end StoredProcess

namespace GcrProcess

/-- Buffers of the same sizes, or none. -/
structure SameSizes (s s' : GcrProcess) : Prop where
  exports : s'.exportData.map (·.size) = s.exportData.map (·.size)
  locals : s'.localData.map (·.size) = s.localData.map (·.size)

/-- One statement after the other. -/
theorem SameSizes.bind {s : GcrProcess} {x : Except GcrProcess GcrProcess} {f : GcrProcess → Except GcrProcess GcrProcess}
    (hx : s.SameSizes (result x).2) (hf : ∀ t : GcrProcess, t.SameSizes (result (f t)).2) :
    s.SameSizes (result (x >>= f)).2 := by
  cases x with
  | error t => exact hx
  | ok t => exact ⟨(hf t).exports.trans hx.exports, (hf t).locals.trans hx.locals⟩

section SameSizes
variable (s : GcrProcess)

theorem sameSizes_deviceSynchronize (c : PrepareAnswers) :
    s.SameSizes (result ((s.setIpc (s.ipc.withEnv c.env)).deviceSynchronize c)).2 := by
  unfold deviceSynchronize
  split_ifs <;> exact ⟨rfl, rfl⟩

theorem sameSizes_teardownImports : s.SameSizes (result s.teardownImports).2 := by
  unfold teardownImports
  split <;> exact ⟨rfl, rfl⟩

theorem sameSizes_teardownEvents (c : PrepareAnswers) : s.SameSizes (result (s.teardownEvents c)).2 := by
  unfold teardownEvents
  split_ifs <;> exact ⟨rfl, rfl⟩

theorem sameSizes_publish (c : RestoreExportAnswers) : s.SameSizes (result (s.publish c)).2 := by
  unfold publish
  split_ifs <;> exact ⟨rfl, rfl⟩

theorem size_saveExports (ipc : IpcState) (buf : HostBuf) : (ipc.ipcSaveAndTeardownAllExports buf).2.2.size = buf.size := by
  unfold IpcState.ipcSaveAndTeardownAllExports
  dsimp only
  split_ifs <;> rfl

theorem size_saveLocals (ipc : IpcState) (buf : HostBuf) : (ipc.ipcSaveAndTeardownLocalAllocs buf).2.2.size = buf.size := by
  unfold IpcState.ipcSaveAndTeardownLocalAllocs
  dsimp only
  split_ifs <;> rfl

theorem sameSizes_saveExports : s.SameSizes (result s.saveExports).2 := by
  unfold saveExports
  cases hbuf : s.exportData with
  | none => exact ⟨rfl, rfl⟩
  | some buf =>
    have hsize : (some (s.ipc.ipcSaveAndTeardownAllExports buf).2.2).map (·.size) = s.exportData.map (·.size) := by
      rw [hbuf]
      exact congrArg some (size_saveExports s.ipc buf)
    dsimp only
    split_ifs
    · exact ⟨rfl, rfl⟩
    · exact ⟨hsize, rfl⟩
    · exact ⟨hsize, rfl⟩

theorem sameSizes_saveLocals : s.SameSizes (result s.saveLocals).2 := by
  unfold saveLocals
  cases hbuf : s.localData with
  | none => exact ⟨rfl, rfl⟩
  | some buf =>
    have hsize : (some (s.ipc.ipcSaveAndTeardownLocalAllocs buf).2.2).map (·.size) = s.localData.map (·.size) := by
      rw [hbuf]
      exact congrArg some (size_saveLocals s.ipc buf)
    dsimp only
    split_ifs
    · exact ⟨rfl, rfl⟩
    · exact ⟨rfl, hsize⟩
    · exact ⟨rfl, hsize⟩

theorem sameSizes_importBlock (c : RestoreImportAnswers) : s.SameSizes (result (s.importBlock c)).2 := by
  unfold importBlock
  dsimp only
  split_ifs <;> exact ⟨rfl, rfl⟩

theorem sameSizes_validateMappings (c : RestoreImportAnswers) : s.SameSizes (result (s.validateMappings c)).2 := by
  unfold validateMappings
  dsimp only
  split_ifs <;> exact ⟨rfl, rfl⟩

theorem sameSizes_restoreImport (c : RestoreImportAnswers) : s.SameSizes (s.gcrCheckpointRestoreImport c).2 := by
  have himport := sameSizes_importBlock (s.setIpc (s.ipc.withEnv c.env)) c
  exact .bind (.bind ⟨himport.exports, himport.locals⟩ fun t => t.sameSizes_validateMappings c) fun _ => ⟨rfl, rfl⟩

end SameSizes

end GcrProcess

namespace StoredProcess

section Accounted
variable {s : StoredProcess} {c : PrepareAnswers} {a : AllocAnswers}

theorem Accounted.bind {x : Except StoredProcess StoredProcess} {f : StoredProcess → Except StoredProcess StoredProcess}
    (hx : (result x).2.Accounted) (hf : ∀ t : StoredProcess, t.Accounted → (result (f t)).2.Accounted) :
    (result (x >>= f)).2.Accounted := by
  cases x with
  | error t => exact hx
  | ok t => exact hf t hx

theorem Accounted.proc (hs : s.Accounted) {p : GcrProcess} (h : s.proc.SameSizes p) :
    ({ s with proc := p } : StoredProcess).Accounted :=
  ⟨hs.leads, hs.below, hs.exports.congr h.exports, hs.locals.congr h.locals, hs.exportFile, hs.localFile⟩

theorem Accounted.lift (hs : s.Accounted) {f : GcrProcess → Except GcrProcess GcrProcess}
    (h : s.proc.SameSizes (GcrProcess.result (f s.proc)).2) : (result (s.lift f)).2.Accounted := by
  unfold StoredProcess.lift
  cases hf : f s.proc with
  | error p =>
    rw [hf] at h
    exact hs.proc h
  | ok p =>
    rw [hf] at h
    exact hs.proc h

theorem Accounted.exportSettled (hs : s.Accounted) : Settled s.exportBuf s.localBuf.held s.sys := ⟨hs.leads, hs.below⟩

theorem Accounted.localSettled (hs : s.Accounted) : Settled s.localBuf s.exportBuf.held s.sys :=
  ⟨hs.leads.perm List.perm_append_comm, fun r hr => hs.below r (List.perm_append_comm.mem_iff.1 hr)⟩

theorem accounted_of_localSettled (h : Settled s.localBuf s.exportBuf.held s.sys) (hexp : s.exportBuf.Backs s.proc.exportData)
    (hloc : s.localBuf.Backs s.proc.localData) (hexpFile : Named exportName s.exportBuf)
    (hlocFile : Named localName s.localBuf) : s.Accounted :=
  ⟨h.leads.perm List.perm_append_comm, fun r hr => h.below r (List.perm_append_comm.mem_iff.1 hr), hexp, hloc, hexpFile, hlocFile⟩

/-- The new file of one buffer is not that of the other. -/
theorem Named.ne_exports {buf : StorageBuffer} (h : Named exportName buf) {dir : List Char} (hdir : dir.length < 510)
    (pid seq : Nat) : buf.path ≠ filePath dir localName pid seq := by
  obtain hnil | ⟨dir', pid', seq', hdir', hpath⟩ := h
  · rw [hnil]
    exact Ne.symm (filePath_ne_nil dir localName pid seq)
  · rw [hpath]
    exact filePath_ne hdir' hdir pid' pid seq' seq

theorem Named.ne_locals {buf : StorageBuffer} (h : Named localName buf) {dir : List Char} (hdir : dir.length < 510)
    (pid seq : Nat) : buf.path ≠ filePath dir exportName pid seq := by
  obtain hnil | ⟨dir', pid', seq', hdir', hpath⟩ := h
  · rw [hnil]
    exact Ne.symm (filePath_ne_nil dir exportName pid seq)
  · rw [hpath]
    exact (filePath_ne hdir hdir' pid pid' seq seq').symm

theorem Accounted.allocExportData (hs : s.Accounted) (hdir : (storageDir a.dirVar).length < 510) :
    (result (s.allocExportData c a)).2.Accounted := by
  have hsettled := settled_allocateBuffer s.proc.ipc.ipcGetExportDataSize hs.exportSettled
    (file_not_mem_held (Named.ne_locals hs.localFile hdir a.pid s.sys.fileSeq))
  obtain ⟨-, hbacks⟩ := backs_allocateBuffer s.exportBuf s.proc.ipc.ipcGetExportDataSize exportName a s.sys
    c.exportFresh
  have hnamed := named_allocateBuffer s.exportBuf s.proc.ipc.ipcGetExportDataSize exportName s.sys hdir
  unfold StoredProcess.allocExportData
  dsimp only
  generalize s.exportBuf.allocateBuffer s.proc.ipc.ipcGetExportDataSize exportName a s.sys = r at hsettled hbacks hnamed
  split_ifs <;> exact ⟨hsettled.leads, hsettled.below, hbacks, hs.locals, hnamed, hs.localFile⟩

theorem Accounted.allocLocalData (hs : s.Accounted) (hdir : (storageDir a.dirVar).length < 510) :
    (result (s.allocLocalData c a)).2.Accounted := by
  have hsettled := settled_allocateBuffer s.proc.ipc.ipcGetLocalAllocDataSize hs.localSettled
    (file_not_mem_held (Named.ne_exports hs.exportFile hdir a.pid s.sys.fileSeq))
  obtain ⟨-, hbacks⟩ := backs_allocateBuffer s.localBuf s.proc.ipc.ipcGetLocalAllocDataSize localName a s.sys
    c.localFresh
  have hnamed := named_allocateBuffer s.localBuf s.proc.ipc.ipcGetLocalAllocDataSize localName s.sys hdir
  unfold StoredProcess.allocLocalData
  dsimp only
  generalize s.localBuf.allocateBuffer s.proc.ipc.ipcGetLocalAllocDataSize localName a s.sys = r at hsettled hbacks hnamed
  split_ifs <;> exact accounted_of_localSettled hsettled hs.exports hbacks hs.exportFile hnamed

theorem Accounted.prepareRun (hs : s.Accounted) {b : AllocAnswers} (ha : (storageDir a.dirVar).length < 510)
    (hb : (storageDir b.dirVar).length < 510) : (result (s.prepareRun c a b)).2.Accounted := by
  refine .bind (.bind (hs.lift (s.proc.sameSizes_deviceSynchronize c)) fun t ht => .bind
    (ht.lift t.proc.sameSizes_teardownImports) fun u hu => hu.allocExportData ha) fun t ht => ?_
  refine .bind (ht.lift t.proc.sameSizes_saveExports) fun u hu => .bind (.bind
    (hu.lift (u.proc.sameSizes_teardownEvents c)) fun v hv => hv.allocLocalData hb) fun v hv => ?_
  exact .bind (hv.lift v.proc.sameSizes_saveLocals) fun w hw => hw.lift ⟨rfl, rfl⟩

theorem accounted_releaseExports (hs : s.Accounted) {p : GcrProcess} (hexp : p.exportData = none)
    (hloc : p.localData = s.proc.localData) : (releaseExports { s with proc := p }).Accounted := by
  have hsettled := settled_release hs.exportSettled
  refine ⟨hsettled.leads, hsettled.below, .inl ⟨rfl, hexp⟩, ?_, .inl rfl, hs.localFile⟩
  show s.localBuf.Backs p.localData
  rw [hloc]
  exact hs.locals

theorem accounted_releaseLocals (hs : s.Accounted) {p : GcrProcess} (hloc : p.localData = none)
    (hexp : p.exportData = s.proc.exportData) : (releaseLocals { s with proc := p }).Accounted := by
  refine accounted_of_localSettled (settled_release hs.localSettled) ?_ (.inl ⟨rfl, hloc⟩) hs.exportFile (.inl rfl)
  show s.exportBuf.Backs p.exportData
  rw [hexp]
  exact hs.exports

/-- What is rebuilt from is gone, and its storage with it. -/
theorem rebuildExports_spec (hs : s.Accounted) : proj s.rebuildExports = s.proc.rebuildExports ∧
    (result s.rebuildExports).2.Accounted ∧ (result s.rebuildExports).2.exportBuf = empty := by
  have huse := hs.exports.inUse_eq
  unfold rebuildExports GcrProcess.rebuildExports
  rw [huse]
  obtain ⟨hbuf, hdata⟩ | ⟨-, d, hdata, -, hpos⟩ := hs.exports
  · rw [hdata]
    exact ⟨rfl, hs, hbuf⟩
  · have hne : d.size ≠ 0 := by omega
    have hreleased : ∀ p : GcrProcess, p.exportData = none → p.localData = s.proc.localData →
        (releaseExports { s with proc := p }).Accounted := fun p => accounted_releaseExports hs
    rw [hdata]
    dsimp only [Option.isSome]
    rw [if_pos rfl, if_neg hne]
    split_ifs <;> exact ⟨rfl, hreleased _ rfl rfl, rfl⟩

theorem rebuildLocals_spec (hs : s.Accounted) : proj s.rebuildLocals = s.proc.rebuildLocals ∧
    (result s.rebuildLocals).2.Accounted ∧ (result s.rebuildLocals).2.localBuf = empty ∧
      (result s.rebuildLocals).2.exportBuf.held = s.exportBuf.held := by
  have huse := hs.locals.inUse_eq
  unfold rebuildLocals GcrProcess.rebuildLocals
  rw [huse]
  obtain ⟨hbuf, hdata⟩ | ⟨-, d, hdata, -, hpos⟩ := hs.locals
  · rw [hdata]
    exact ⟨rfl, hs, hbuf, rfl⟩
  · have hne : d.size ≠ 0 := by omega
    have hreleased : ∀ p : GcrProcess, p.localData = none → p.exportData = s.proc.exportData →
        (releaseLocals { s with proc := p }).Accounted := fun p => accounted_releaseLocals hs
    rw [hdata]
    dsimp only [Option.isSome]
    rw [if_pos rfl, if_neg hne]
    split_ifs <;> exact ⟨rfl, hreleased _ rfl rfl, rfl, rfl⟩

theorem eq_ok_of_result {x : Except StoredProcess StoredProcess} (h : (result x).1 = 0) : ∃ s, x = .ok s := by
  cases x with
  | error s => exact absurd (show (-1 : Int) = 0 from h) (by decide)
  | ok s => exact ⟨s, rfl⟩

theorem sys_lift {f : GcrProcess → Except GcrProcess GcrProcess} {t : StoredProcess} (h : s.lift f = .ok t) :
    t.sys = s.sys := by
  unfold StoredProcess.lift at h
  split at h
  · cases h
  · obtain rfl := Except.ok.inj h
    rfl

/-- After a `restore_export` that returns `0` nothing is held. -/
structure RestoreSpec (s : StoredProcess) (c : RestoreExportAnswers) : Prop where
  proc : proj (s.restoreExportRun c) = s.proc.restoreExportRun c
  accounted : (result (s.restoreExportRun c)).2.Accounted
  released : (result (s.restoreExportRun c)).1 = 0 → Leads [] (result (s.restoreExportRun c)).2.sys.log []

theorem restoreSpec (hs : s.Accounted) (c : RestoreExportAnswers) : s.RestoreSpec c := by
  have hstart : ({ s with proc := s.proc.setIpc (s.proc.ipc.withEnv c.env) } : StoredProcess).Accounted := hs.proc ⟨rfl, rfl⟩
  obtain ⟨hproj, hexports, hempty⟩ := rebuildExports_spec hstart
  have hlast : ∀ t : StoredProcess, t.Accounted → (result (t.lift fun p => p.publish c)).2.Accounted := fun t ht =>
    ht.lift (t.proc.sameSizes_publish c)
  refine ⟨proj_bind hproj fun t ht => ?_, .bind hexports fun t ht => .bind (rebuildLocals_spec ht).2.1 hlast, fun hret => ?_⟩
  · rw [ht] at hexports
    exact proj_bind (rebuildLocals_spec hexports).1 fun u _ => proj_lift _
  · obtain ⟨s', hs'⟩ := eq_ok_of_result hret
    obtain ⟨t, ht, hrest⟩ := bind_eq_ok.1 hs'
    obtain ⟨u, hu, hlift⟩ := bind_eq_ok.1 hrest
    rw [ht] at hexports hempty
    have htAcc : t.Accounted := hexports
    have htEmpty : t.exportBuf = empty := hempty
    obtain ⟨-, hlocals, hlocEmpty, hheld⟩ := rebuildLocals_spec htAcc
    rw [hu] at hlocals hlocEmpty hheld
    have hleads : Leads [] u.sys.log (u.exportBuf.held ++ u.localBuf.held) := hlocals.leads
    rw [show u.exportBuf.held = t.exportBuf.held from hheld, htEmpty, show u.localBuf = empty from hlocEmpty] at hleads
    rw [hs']
    show Leads [] s'.sys.log []
    rw [sys_lift hlift]
    exact hleads

end Accounted

/-! ### Runs -/

section Runs
variable {s : StoredProcess}

/-- The directories for the files leave room for a name in the path. -/
def ShortDirs : StoredEvent → Prop
  | .prepare _ a b => (storageDir a.dirVar).length < 510 ∧ (storageDir b.dirVar).length < 510
  | _ => True

/-- The same event without the storage, which has answered. -/
inductive Without : StoredEvent → GcrEvent → Prop
  | prepare (c : PrepareAnswers) (a b : AllocAnswers) (ok ok' : Bool) :
    Without (.prepare c a b) (.prepare { c with exportAlloc := ok, localAlloc := ok' })
  | restoreExport (c : RestoreExportAnswers) : Without (.restoreExport c) (.restoreExport c)
  | restoreImport (c : RestoreImportAnswers) : Without (.restoreImport c) (.restoreImport c)
  | call (c : HookCall) : Without (.call c) (.call c)
  | enablePeer (dev : Int) : Without (.enablePeer dev) (.enablePeer dev)
  | disablePeer (dev : Int) : Without (.disablePeer dev) (.disablePeer dev)

theorem accounted_step (hs : s.Accounted) {e : StoredEvent} (hdirs : ShortDirs e) :
    (s.step e).Accounted ∧ ∃ e', Without e e' ∧ (s.step e).proc = s.proc.step e' := by
  cases e with
  | prepare c a b =>
    obtain ⟨ok, ok', hproj⟩ := s.proj_prepareRun c a b
    unfold step gcrCheckpointPrepare
    split_ifs with hprep
    · refine ⟨hs, _, .prepare c a b true true, ?_⟩
      show s.proc = (s.proc.gcrCheckpointPrepare _).2
      unfold GcrProcess.gcrCheckpointPrepare
      rw [if_pos hprep]
    · refine ⟨hs.prepareRun hdirs.1 hdirs.2, _, .prepare c a b ok ok', ?_⟩
      rw [(proc_result _).2, hproj]
      show _ = (s.proc.gcrCheckpointPrepare _).2
      unfold GcrProcess.gcrCheckpointPrepare
      rw [if_neg hprep]
  | restoreExport c =>
    obtain ⟨hproj, hacc, -⟩ := restoreSpec hs c
    refine ⟨hacc, _, .restoreExport c, ?_⟩
    refine (proc_result _).2.trans ?_
    rw [hproj]
    rfl
  | restoreImport c => exact ⟨hs.proc (s.proc.sameSizes_restoreImport c), _, .restoreImport c, rfl⟩
  | call c => exact ⟨hs.proc ⟨rfl, rfl⟩, _, .call c, rfl⟩
  | enablePeer dev => exact ⟨hs.proc ⟨rfl, rfl⟩, _, .enablePeer dev, rfl⟩
  | disablePeer dev => exact ⟨hs.proc ⟨rfl, rfl⟩, _, .disablePeer dev, rfl⟩

theorem accounted_run (hs : s.Accounted) {events : List StoredEvent} (hdirs : ∀ e ∈ events, ShortDirs e) :
    (run step s events).Accounted ∧
      ∃ events', List.Forall₂ Without events events' ∧ (run step s events).proc = run GcrProcess.step s.proc events' := by
  induction events generalizing s with
  | nil => exact ⟨hs, [], .nil, rfl⟩
  | cons e events ih =>
    obtain ⟨hacc, e', he', hproc⟩ := accounted_step hs (hdirs e List.mem_cons_self)
    obtain ⟨hrun, events', hevents', hprocs⟩ := ih hacc fun e he => hdirs e (List.mem_cons_of_mem _ he)
    refine ⟨hrun, e' :: events', .cons he' hevents', ?_⟩
    show (run step (s.step e) events).proc = run GcrProcess.step (s.proc.step e') events'
    rw [hprocs, hproc]

/-- Over any run of the adapter, whatever fails: what has been obtained for the buffers is given back once or held by one of
them, the buffers hold exactly what the process keeps in them, a `restore_export` that returns `0` leaves nothing held, and
without the storage the run is one of the process alone. -/
theorem storage_of_run (p : GcrProcess) (hexp : p.exportData = none) (hloc : p.localData = none) (events : List StoredEvent)
    (hdirs : ∀ e ∈ events, ShortDirs e) :
    (run step (start p) events).Accounted ∧
      (∀ c, ((run step (start p) events).gcrCheckpointRestoreExport c).1 = 0 →
        Leads [] ((run step (start p) events).gcrCheckpointRestoreExport c).2.sys.log []) ∧
      ∃ events', List.Forall₂ Without events events' ∧
        (run step (start p) events).proc = run GcrProcess.step p events' := by
  obtain ⟨hacc, hproc⟩ := accounted_run (accounted_start hexp hloc) hdirs
  exact ⟨hacc, fun c => (restoreSpec hacc c).released, hproc⟩

/-! ### An export in a file -/

/-- The directory of the default, and a driver and a system that succeed. -/
def inFiles : AllocAnswers := ⟨some "hugepage".toList, none, 4711, true, true, true, true, true⟩

/-- The example of the adapter, saved to a file that cannot be mapped at the first try. -/
def fileEvents : List StoredEvent :=
  .enablePeer 1 :: HookedProcess.exportHistory.map .call ++
    [.prepare (GcrProcess.answering fun _ => false) { inFiles with mmap := false } inFiles,
      .prepare (GcrProcess.answering fun _ => false) inFiles inFiles]

theorem storage_fileEvents : (run step (start GcrProcess.start) fileEvents).Accounted ∧
    (∀ c, ((run step (start GcrProcess.start) fileEvents).gcrCheckpointRestoreExport c).1 = 0 →
      Leads [] ((run step (start GcrProcess.start) fileEvents).gcrCheckpointRestoreExport c).2.sys.log []) ∧
    ∃ events', List.Forall₂ Without fileEvents events' ∧
      (run step (start GcrProcess.start) fileEvents).proc = run GcrProcess.step GcrProcess.start events' := by
  refine storage_of_run GcrProcess.start rfl rfl fileEvents fun e he => ?_
  simp only [fileEvents, List.cons_append, List.mem_cons, List.mem_append, List.mem_map] at he
  rcases he with rfl | ⟨c, -, rfl⟩ | rfl | rfl | hnil
  · trivial
  · trivial
  · exact ⟨by decide, by decide⟩
  · exact ⟨by decide, by decide⟩
  · cases hnil

end Runs

end StoredProcess

end GpuCr
