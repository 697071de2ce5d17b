import GpuCr.Worker.Phases

/-!
# A whole cycle of one worker

The messages that the coordinator sends for a checkpoint and a restore, handled by one worker whose blocks, exports and
local allocations are mapped by one driver. The teardown spares the blocks, the checkpoint and the restore of the blocks
move no byte, and the rebuilds and the import leave the blocks alone. So at the end all memory of the worker reads as it
did before the first message, with `-n` and without it.
-/

namespace GpuCr

open Lib.Run Std

/-! ### The teardown -/

namespace IpcWorkerState

/-- What has a teardown succeed. -/
structure Tearable (s : IpcWorkerState) : Prop where
  reliable : s.ipc.drv.env.Reliable
  resolved : s.ipc.fns.Resolved
  mmaps : ∀ n, s.mmapFails n = false
  exportBuf : s.exportBuf = none
  localBuf : s.localBuf = none
  intact : s.ipc.Intact
  readable : s.ipc.ExportsReadable
  ascend : s.ipc.DevicesAscend

/-- `t` is `s` torn down, with the bytes in the buffers of `t`. -/
structure TornTo (s t : IpcWorkerState) : Prop where
  fns : t.ipc.fns = s.ipc.fns
  env : t.ipc.drv.env = s.ipc.drv.env
  mem : t.ipc.drv.mem = s.ipc.drv.mem
  maps : ∀ m ∈ t.ipc.drv.maps, m ∈ s.ipc.drv.maps
  spares : Driver.Spares s.ipc.targets s.ipc.drv t.ipc.drv
  -- the imports are gone before the first byte is saved
  parked : s.ipc.teardownAllImports.Intact ∧ s.ipc.SameTracked s.ipc.teardownAllImports ∧
    s.ipc.teardownAllImports.Parked t.ipc t.exportBuf t.localBuf
  untorn : Driver.Spares s.ipc.importTargets s.ipc.drv s.ipc.teardownAllImports.drv

section Teardown
variable {s : IpcWorkerState}

theorem Tearable.exportCopies (h : s.Tearable) (buf : HostBuf) :
    (s.ipc.teardownAllImports.exportCopies buf).1 = true ∧ s.ipc.teardownAllImports.drv.env.Reliable := by
  have hdrv := IpcState.teardownAllImports_eq h.resolved
  have henv : s.ipc.teardownAllImports.drv.env.Reliable := by
    rw [hdrv, (Driver.shrunk_run_tearStep _ _).env]
    exact h.reliable
  refine ⟨(IpcState.exportCopies_ok_iff henv).2 fun rec hrec hactive => ?_, henv⟩
  simp only [IpcExportRecord.active, Bool.and_eq_true] at hactive
  obtain ⟨handle, hmap⟩ := h.readable rec hrec hactive.1.2
  have hkept : ⟨rec.mappedVaddr, rec.mappedSize, handle, true⟩ ∈ s.ipc.teardownAllImports.drv.maps := by
    rw [hdrv]
    refine Driver.mem_run_tearStep hmap fun t ht => ?_
    obtain ⟨imp, himp, rfl⟩ := List.mem_map.1 ht
    obtain ⟨himp, htorn⟩ := List.mem_filter.1 himp
    exact (h.intact.imports imp himp (by simpa using htorn)).1 rec hrec hactive.1.2
  exact IpcState.accessible_of_mem_maps hkept

theorem allocateBuffer_true (needed : Nat) (fresh : Nat → Byte) : (allocateBuffer needed true fresh).1 = true := by
  unfold allocateBuffer
  rw [if_pos rfl]
  split_ifs <;> rfl

/-- Between the two saves. -/
structure ExportsSaved (s : IpcState) (t : GcrProcess) : Prop where
  fns : t.ipc.fns = s.fns
  env : t.ipc.drv.env = s.drv.env
  entries : t.ipc.localEntries = s.localEntries
  spares : Driver.Spares s.exportTargets s.drv t.ipc.drv
  locals : ∀ e ∈ s.localEntries, ⟨e.vaddr, e.size, e.handle, true⟩ ∈ t.ipc.drv.maps

theorem Tearable.saveExports (h : s.Tearable) :
    ∃ t, (s.gcr.atExports s.answers).saveExports = .ok t ∧ ExportsSaved s.ipc.teardownAllImports t := by
  obtain ⟨hintact, -⟩ := h.intact.teardownAllImports h.resolved
  have hfns : (s.gcr.atExports s.answers).ipc.fns.Resolved := h.resolved
  cases hb : (s.gcr.atExports s.answers).exportData with
  | none => exact ⟨_, GcrProcess.saveExports_none hb, rfl, rfl, rfl, (Driver.Same.refl _).spares _, hintact.locals⟩
  | some buf =>
    obtain ⟨rfl, hpos⟩ := GcrProcess.allocateBuffer_some hb
    have hsize : s.ipc.teardownAllImports.ipcGetExportDataSize ≤ s.gcr.ipc.ipcGetExportDataSize := Nat.le_refl _
    have hsave := GcrProcess.saveExports_eq hfns hb hpos hsize
    refine ⟨_, hsave.trans (if_pos (h.exportCopies _).1), ?_⟩
    have hshrunk := s.ipc.teardownAllImports.shrunk_saveExports ⟨s.gcr.ipc.ipcGetExportDataSize, s.answers.exportFresh⟩
    exact ⟨IpcState.fns_saveExports _ _, hshrunk.env, IpcState.localEntries_saveExports hfns hsize,
      IpcState.spares_saveExports hfns hsize, fun e he => hintact.locals_saveExports hfns hsize he⟩

theorem ExportsSaved.saveLocals {u : IpcState} {t : GcrProcess} (h : ExportsSaved u t) (henv : u.drv.env.Reliable)
    (hfns : u.fns.Resolved) (c : PrepareAnswers) :
    (∀ buf, (t.atLocals c).localData = some buf → t.ipc.LocalResultsSeen buf) ∧
      ∃ t', (t.atLocals c).saveLocals = .ok t' ∧ t'.ipc.fns = u.fns ∧ t'.ipc.drv.env = u.drv.env ∧
        Driver.Spares u.localTargets t.ipc.drv t'.ipc.drv := by
  have hfns' : (t.atLocals c).ipc.fns.Resolved := h.fns ▸ hfns
  have hlocals : ∀ e ∈ t.ipc.localEntries, ⟨e.vaddr, e.size, e.handle, true⟩ ∈ t.ipc.drv.maps :=
    fun e he => h.locals e (h.entries ▸ he)
  have hcopies := fun buf => IpcState.localCopies_reliable (s := t.ipc) (h.env ▸ henv) hlocals buf
  refine ⟨fun buf _ _ => (t.ipc.localCopies_allSaved_iff buf).1 fun _ => (hcopies buf).2, ?_⟩
  cases hb : (t.atLocals c).localData with
  | none => exact ⟨_, GcrProcess.saveLocals_none hb, h.fns, h.env, (Driver.Same.refl _).spares _⟩
  | some buf =>
    obtain ⟨rfl, hpos⟩ := GcrProcess.allocateBuffer_some hb
    have hsave := GcrProcess.saveLocals_eq hfns' hb hpos (Nat.le_refl _)
    refine ⟨_, hsave.trans (if_pos (hcopies _).1), ?_⟩
    have hshrunk := t.ipc.shrunk_saveLocals ⟨t.ipc.ipcGetLocalAllocDataSize, c.localFresh⟩
    refine ⟨(IpcState.fns_saveLocals _ _).trans h.fns, hshrunk.env.trans h.env, ?_⟩
    refine (IpcState.spares_saveLocals hfns' (Nat.le_refl _)).mono fun x hx => ?_
    obtain ⟨e, he, rfl⟩ := IpcState.mem_localTargets.1 hx
    exact IpcState.mem_localTargets.2 ⟨e, h.entries ▸ he, rfl⟩

theorem Tearable.tornTo (h : s.Tearable) : s.TornTo (run step s IpcMsg.teardown.stages) := by
  obtain ⟨hintact, hsame⟩ := h.intact.teardownAllImports h.resolved
  have hdrv := IpcState.teardownAllImports_eq h.resolved
  have hshrunk : s.ipc.drv.Shrunk s.ipc.teardownAllImports.drv := hdrv ▸ Driver.shrunk_run_tearStep _ _
  obtain ⟨t, hsave, hexp⟩ := h.saveExports
  obtain ⟨hseen, t', hsave', hfns', henv', hspares'⟩ := hexp.saveLocals (h.exportCopies ⟨0, fun _ => 0⟩).2 h.resolved s.answers
  have hrun : s.gcr.teardownRun s.answers = .ok t' := by
    have hexports : s.gcr.toExports s.answers = .ok (s.gcr.atExports s.answers) := by
      rw [GcrProcess.toExports_eq (s := s.gcr) h.resolved, show s.answers.deviceSync = true from rfl,
        show s.answers.exportAlloc = true from rfl, allocateBuffer_true]
      rfl
    have hlocals : t.toLocals s.answers = .ok (t.atLocals s.answers) := by
      rw [GcrProcess.toLocals_eq, show s.answers.events = true from rfl, show s.answers.localAlloc = true from rfl,
        allocateBuffer_true]
      rfl
    unfold GcrProcess.teardownRun
    rw [hexports]
    show (s.gcr.atExports s.answers).saveExports >>= _ = _
    rw [hsave]
    show t.toLocals s.answers >>= _ = _
    rw [hlocals]
    exact hsave'
  have hsaves : s.gcr.SavesAll s.answers := by
    refine ⟨h.ascend, fun buf _ _ => ?_, fun u buf hu hbuf => ?_⟩
    · exact (IpcState.exportCopies_allSaved_iff _ buf).1 fun hok => IpcState.exportCopies_saved (h.exportCopies buf).2 hok
    · obtain rfl := Except.ok.inj (hsave.symm.trans hu)
      refine ⟨hseen buf hbuf, Driver.answers_of_reliable ?_ _⟩
      rw [(t.ipc.localCopies_spec buf).1.env, hexp.env]
      exact (h.exportCopies buf).2
  have hparked := GcrProcess.parked_of_run (s := s.gcr) h.intact h.resolved hsaves hrun
  have hgcr := teardown_gcr h.resolved h.mmaps h.exportBuf h.localBuf hrun
  have hipc : (run step s IpcMsg.teardown.stages).ipc = t'.ipc := congrArg GcrProcess.ipc hgcr
  have hdata : (run step s IpcMsg.teardown.stages).exportBuf = t'.exportData := congrArg GcrProcess.exportData hgcr
  have hdata' : (run step s IpcMsg.teardown.stages).localBuf = t'.localData := congrArg GcrProcess.localData hgcr
  have huntorn : Driver.Spares s.ipc.importTargets s.ipc.drv s.ipc.teardownAllImports.drv :=
    hdrv ▸ Driver.spares_run_tearStep _ _
  refine ⟨hipc ▸ hfns', hipc ▸ henv'.trans hshrunk.env, ?_, ?_, ?_, ⟨hintact, hsame, ?_⟩, huntorn⟩
  · rw [hipc]
    exact hparked.mem.trans hshrunk.mem
  · rw [hipc]
    exact fun m hm => hshrunk.maps m (hparked.maps m hm)
  · rw [hipc]
    have hmem : ∀ x, x ∈ s.ipc.targets ↔ x ∈ s.ipc.importTargets ∨ x ∈ s.ipc.exportTargets ∨ x ∈ s.ipc.localTargets := by
      intro x
      unfold IpcState.targets
      rw [List.mem_append, List.mem_append, or_assoc]
    refine (huntorn.mono fun x hx => (hmem x).2 (Or.inl hx)).trans ?_
    refine (hexp.spares.mono fun x hx => (hmem x).2 (Or.inr (Or.inl hx))).trans ?_
    exact hspares'.mono fun x hx => (hmem x).2 (Or.inr (Or.inr hx))
  · rw [hipc, hdata, hdata']
    exact hparked

end Teardown

end IpcWorkerState

/-! ### The cycle -/

namespace Worker

/-- Where a cycle can start: all memory is mapped, the dump is large enough, and no block is a target of the teardown. -/
structure Ready (shmSize : Nat) (s : Worker) : Prop where
  tearable : s.ipc.Tearable
  rebuildable : s.ipc.ipc.fns.Rebuildable
  blocks : s.gpu.OneHandleEach
  fileNum : s.gpu.allocatedMemory.size < maxFileNum
  dumpSize : dumpHeaderSize + totalSize (VGpu.ckptBlocks s.gpu.allocatedMemory) ≤ shmSize
  separate : ∀ p h : Nat, s.gpu.globalHandleMap[p]? = some h → ∀ t ∈ s.ipc.ipc.targets, t.va ≠ p ∧ t.handle ≠ some h

/-- All memory of `s` can be read in `s'` and reads the same. -/
structure SameMemory (s s' : Worker) : Prop where
  allocatedMemory : s'.gpu.allocatedMemory = s.gpu.allocatedMemory
  blocks : ∀ p n : Nat, s.gpu.allocatedMemory[p]? = some n → s'.gpu.drv.accessible p (roundUp2MB n) = true ∧
    ∀ i < roundUp2MB n, s'.gpu.drv.mem (p + i) = s.gpu.drv.mem (p + i)
  ipc : s.ipc.ipc.ReadsAs s'.ipc.ipc

section Cycle
variable {shmSize : Nat} {s : Worker}

theorem Ready.foreign (h : s.Ready shmSize) {t : TearTarget} (ht : t ∈ s.ipc.ipc.targets) :
    s.gpu.allocatedMemory[t.va]? = none := by
  cases htab : s.gpu.allocatedMemory[t.va]? with
  | none => rfl
  | some n =>
    obtain ⟨handle, hhandle⟩ := Option.isSome_iff_exists.1 ((h.blocks.handled t.va).2 (by simp [htab]))
    exact absurd rfl (h.separate t.va handle hhandle t ht).1

theorem Ready.foreign_export (h : s.Ready shmSize) {rec : IpcExportRecord} (hrec : rec ∈ s.ipc.ipc.exports)
    (hmap : rec.hasMapping = true) : s.gpu.allocatedMemory[rec.mappedVaddr]? = none := by
  refine h.foreign (t := ⟨rec.mappedVaddr, rec.mappedSize, some rec.localHandle⟩) ?_
  refine List.mem_append_left _ (List.mem_append_right _ (List.mem_filterMap.2 ⟨rec, hrec, ?_⟩))
  simp [IpcExportRecord.target, h.tearable.intact.exports.live rec hrec, hmap]

theorem Ready.foreign_local (h : s.Ready shmSize) {e : LocalAllocEntry} (he : e ∈ s.ipc.ipc.localEntries) :
    s.gpu.allocatedMemory[e.vaddr]? = none :=
  h.foreign (t := e.target) (List.mem_append_right _ (IpcState.mem_localTargets.2 ⟨e, he, rfl⟩))

theorem revived_of_msgs (henv : s.gpu.drv.env.Reliable) (hs : s.gpu.OneHandleEach)
    (hnum : s.gpu.allocatedMemory.size < maxFileNum)
    (hsize : dumpHeaderSize + totalSize (VGpu.ckptBlocks s.gpu.allocatedMemory) ≤ shmSize) :
    ∃ s₁ s₂, s.crSignalHandler shmSize .ckpt = .ok s₁ ∧ s₁.crSignalHandler shmSize .restore = .ok s₂ ∧
      s.gpu.Revived s₂.gpu ∧ s₂.ipc = { s.ipc with ipc := s.ipc.ipc.withDrv s₂.gpu.drv } := by
  obtain ⟨v₁, v₂, hckpt, hrestore, hrevived⟩ := VGpu.revived_of_cycle henv hs hnum hsize
  exact ⟨_, _, crSignalHandler_of_ok hckpt, crSignalHandler_of_ok hrestore, hrevived, rfl⟩

/-- Without the IPC messages nothing is torn down, and no mapping that is not a block changes. -/
theorem Ready.readsAs_revived (h : s.Ready shmSize) {s' : Worker} (hrevived : s.gpu.Revived s'.gpu) :
    s.ipc.ipc.ReadsAs s'.ipc.ipc := by
  have hmem : s'.ipc.ipc.drv.mem = s.ipc.ipc.drv.mem := by
    rw [s'.oneDriver, s.oneDriver]
    exact hrevived.mem
  have hkept : ∀ {va n handle : Nat}, s.gpu.allocatedMemory[va]? = none → ⟨va, n, handle, true⟩ ∈ s.ipc.ipc.drv.maps →
      s'.ipc.ipc.drv.accessible va n = true := by
    intro va n handle hva hmap
    rw [s.oneDriver] at hmap
    rw [s'.oneDriver]
    exact IpcState.accessible_of_mem_maps ((hrevived.foreign ⟨va, n, handle, true⟩ hva).2 hmap)
  refine ⟨fun rec hrec hmap => ⟨?_, fun i _ => congrFun hmem _⟩, fun e he => ⟨?_, fun i _ => congrFun hmem _⟩⟩
  · obtain ⟨handle, hin⟩ := h.tearable.readable rec hrec hmap
    exact hkept (h.foreign_export hrec hmap) hin
  · exact hkept (h.foreign_local he) (h.tearable.intact.locals e he)

theorem Ready.oneHandleEach_torn (h : s.Ready shmSize) {t : IpcWorkerState} (ht : s.ipc.TornTo t) :
    VGpu.OneHandleEach { s.gpu with drv := t.ipc.drv } := by
  refine ⟨h.blocks.handled, fun p n handle hp hh => ?_, h.blocks.injective⟩
  obtain ⟨hmap, hlive⟩ := h.blocks.mapped p n handle hp hh
  have hsep := h.separate p handle hh
  rw [← s.oneDriver] at hmap hlive
  exact ⟨ht.spares.maps _ hmap fun u hu => (hsep u hu).1, ht.spares.live handle (fun u hu => (hsep u hu).2) hlive⟩

theorem Ready.readsAs_exported (h : s.Ready shmSize) {t : IpcWorkerState} (ht : s.ipc.TornTo t) {v : VGpu}
    (hrevived : VGpu.Revived { s.gpu with drv := t.ipc.drv } v) :
    s.ipc.ipc.ReadsAs (((t.ipc.withDrv v.drv).rebuiltExports t.exportBuf).rebuiltLocals t.localBuf) := by
  obtain ⟨hintact, hsame, hparked⟩ := ht.parked
  -- a mapping that is not a block is as the teardown has left it
  have hforeign : ∀ m ∈ v.drv.maps, s.gpu.allocatedMemory[m.va]? = none → m ∈ t.ipc.drv.maps :=
    fun m hm hva => (hrevived.foreign m hva).1 hm
  refine hsame.readsAs (hparked.back_rehandled hintact ?_ ?_ hrevived.mem (fun m hm => ?_) fun e he m hm hva => ?_)
  · rw [ht.fns]
    exact h.rebuildable
  · rw [hrevived.env, ht.env]
    exact h.tearable.reliable
  · cases htab : s.gpu.allocatedMemory[m.va]? with
    | none => exact ⟨m, hparked.maps m (hforeign m hm htab), rfl⟩
    | some n =>
      obtain ⟨handle, hnew⟩ := hrevived.blocks m.va n htab
      obtain ⟨old, hold⟩ := Option.isSome_iff_exists.1 ((h.blocks.handled m.va).2 (by simp [htab]))
      obtain ⟨hmap, -⟩ := h.blocks.mapped m.va n old htab hold
      rw [← s.oneDriver] at hmap
      have heq := Driver.eq_of_va_eq hm hnew rfl
      refine ⟨_, ht.untorn.maps _ hmap fun u hu => (h.separate m.va old hold u ?_).1, ?_⟩
      · exact List.mem_append_left _ (List.mem_append_left _ hu)
      · have hrange := congrArg (fun k : Mapping => (⟨k.va, k.size, m.handle, k.access⟩ : Mapping)) heq
        exact hrange
  · rw [hsame.locals] at he
    cases htab : s.gpu.allocatedMemory[m.va]? with
    | none => exact hparked.free e (hsame.locals ▸ he) m (hforeign m hm htab) hva
    | some n =>
      rw [hva, h.foreign_local he] at htab
      exact absurd htab (by simp)

theorem keeps_rebuilt {t : IpcState} (hfns : t.fns.Rebuildable) (exportData localData : Option HostBuf) :
    t.drv.Keeps ((t.rebuiltExports exportData).rebuiltLocals localData).drv := by
  refine (IpcState.keeps_rebuiltExports hfns exportData).trans (IpcState.keeps_rebuiltLocals ?_ localData)
  unfold IpcState.rebuiltExports
  cases exportData with
  | none => exact hfns
  | some buf =>
    dsimp only
    split_ifs
    · exact hfns
    · rw [IpcState.fns_rebuildExports]
      exact hfns

theorem ReadsAs.keeps {s t u : IpcState} (h : s.ReadsAs t) (hkeeps : t.drv.Keeps u.drv) : s.ReadsAs u := by
  refine ⟨fun rec hrec hmap => ?_, fun e he => ?_⟩
  · obtain ⟨hacc, hmem⟩ := h.exports rec hrec hmap
    obtain ⟨hacc', hmem'⟩ := hkeeps.range hacc
    exact ⟨hacc', fun i hi => (hmem' i hi).trans (hmem i hi)⟩
  · obtain ⟨hacc, hmem⟩ := h.locals e he
    obtain ⟨hacc', hmem'⟩ := hkeeps.range hacc
    exact ⟨hacc', fun i hi => (hmem' i hi).trans (hmem i hi)⟩

/-- The blocks of a revived device read the same, and so they do on every driver that keeps what is mapped. -/
theorem blocks_of_revived {v v' : VGpu} (h : v.Revived v') {d : Driver} (hkeeps : v'.drv.Keeps d) {p n : Nat}
    (hp : v.allocatedMemory[p]? = some n) :
    d.accessible p (roundUp2MB n) = true ∧ ∀ i < roundUp2MB n, d.mem (p + i) = v.drv.mem (p + i) := by
  obtain ⟨handle, hmap⟩ := h.blocks p n hp
  obtain ⟨hacc, hmem⟩ := hkeeps.range (IpcState.accessible_of_mem_maps hmap)
  exact ⟨hacc, fun i hi => (hmem i hi).trans (congrFun h.mem _)⟩

theorem Ready.sameMemory_exported (h : s.Ready shmSize) {t : IpcWorkerState} (ht : s.ipc.TornTo t) {s₂ : Worker}
    (hrevived : VGpu.Revived { s.gpu with drv := t.ipc.drv } s₂.gpu)
    (hipc : s₂.ipc = { t with ipc := t.ipc.withDrv s₂.gpu.drv }) (x : MsgInputs) :
    s.SameMemory ((s₂.crIpcSignalHandler .export).crIpcSignalHandler (.import x.sizeOf x.block)) := by
  have hmem : t.ipc.drv.mem = s.gpu.drv.mem := s.oneDriver ▸ ht.mem
  have hexport : (s₂.crIpcSignalHandler .export).ipc.ipc =
      ((t.ipc.withDrv s₂.gpu.drv).rebuiltExports t.exportBuf).rebuiltLocals t.localBuf := by
    refine (IpcWorkerState.export_ipc s₂.ipc).trans ?_
    rw [hipc]
  have himport := (s₂.crIpcSignalHandler .export).ipc.keeps_importPeers x.sizeOf x.block
  have hkeeps : s₂.gpu.drv.Keeps (s₂.crIpcSignalHandler .export).ipc.ipc.drv := by
    rw [hexport]
    refine keeps_rebuilt (t := t.ipc.withDrv s₂.gpu.drv) ?_ _ _
    exact (show t.ipc.fns = s.ipc.ipc.fns from ht.fns) ▸ h.rebuildable
  refine ⟨hrevived.allocatedMemory, fun p n hp => ?_, ?_⟩
  · obtain ⟨hacc, hbytes⟩ := blocks_of_revived hrevived (hkeeps.trans himport) hp
    exact ⟨hacc, fun i hi => (hbytes i hi).trans (congrFun hmem _)⟩
  · have hreads := h.readsAs_exported ht hrevived
    rw [← hexport] at hreads
    exact ReadsAs.keeps hreads himport

theorem Ready.cycle_plain (h : s.Ready shmSize) (x : MsgInputs) : ∃ s', s.cycle shmSize x true = .ok s' ∧ s.SameMemory s' := by
  obtain ⟨s₁, s₂, hckpt, hrestore, hrevived, -⟩ := revived_of_msgs (s.oneDriver ▸ h.tearable.reliable) h.blocks h.fileNum
    h.dumpSize
  refine ⟨s₂, ?_, hrevived.allocatedMemory, fun p n => blocks_of_revived hrevived (Driver.keeps_of_eq rfl rfl),
    h.readsAs_revived hrevived⟩
  show (s.crSignalHandler shmSize .ckpt >>= fun s => s.crSignalHandler shmSize .restore >>= pure) = _
  rw [hckpt]
  show (s₁.crSignalHandler shmSize .restore >>= pure) = _
  rw [hrestore]
  rfl

theorem Ready.cycle_ipc (h : s.Ready shmSize) (x : MsgInputs) : ∃ s', s.cycle shmSize x false = .ok s' ∧ s.SameMemory s' := by
  have ht := h.tearable.tornTo
  have henv : (s.crIpcSignalHandler .teardown).gpu.drv.env.Reliable := by
    rw [show (s.crIpcSignalHandler .teardown).gpu.drv.env = s.ipc.ipc.drv.env from ht.env]
    exact h.tearable.reliable
  obtain ⟨s₁, s₂, hckpt, hrestore, hrevived, hipc⟩ := revived_of_msgs henv (h.oneHandleEach_torn ht) h.fileNum h.dumpSize
  refine ⟨_, ?_, h.sameMemory_exported ht hrevived hipc x⟩
  show ((s.crIpcSignalHandler .teardown).crSignalHandler shmSize .ckpt >>= fun s =>
    s.crSignalHandler shmSize .restore >>= fun s =>
      pure ((s.crIpcSignalHandler .export).crIpcSignalHandler (.import x.sizeOf x.block))) = _
  rw [hckpt]
  show (s₁.crSignalHandler shmSize .restore >>= _) = _
  rw [hrestore]
  rfl

end Cycle

/-! ### A block, an export and a local allocation -/

/-- The tables after the calls for the export and the local allocation. -/
def pairState : IpcState := (run GcrProcess.step GcrProcess.start GcrProcess.pairEvents).ipc

def blockHandle : Nat := (pairState.drv.cuMemCreate 0x200000).1.getD 0

/-- Their driver with a block mapped beside them. -/
def withBlock : Driver :=
  let created := (pairState.drv.cuMemCreate 0x200000).2
  let mapped := (created.cuMemMap 0x200000 0x200000 blockHandle).2
  (mapped.cuMemSetAccess 0x200000 0x200000).2

def oneOfEach : Worker where
  gpu :=
    { allocatedMemory := (∅ : ExtTreeMap Nat Nat).insert 0x200000 3
      globalHandleMap := (∅ : ExtTreeMap Nat Nat).insert 0x200000 blockHandle
      drv := withBlock
      fs := ⟨0, 0, fun _ => ⟨0, 0, 0⟩⟩
      staging := fun _ _ => 0
      dump := fun _ => 0 }
  ipc := ⟨pairState.withDrv withBlock, none, none, fun _ => false, 0⟩
  oneDriver := rfl

theorem oneOfEach_tearable : oneOfEach.ipc.Tearable := by
  refine ⟨fun _ => rfl, ⟨rfl, rfl, rfl⟩, fun _ => rfl, rfl, rfl, ⟨⟨by decide, by decide, by decide⟩, by decide, by decide⟩,
    fun rec hrec _ => ⟨1, ?_⟩, ?_⟩
  · revert rec
    decide
  · unfold IpcState.DevicesAscend
    decide

theorem oneOfEach_ready : oneOfEach.Ready shmSizeDefault := by
  have hone : ∀ {p a b : Nat}, ((∅ : ExtTreeMap Nat Nat).insert 0x200000 a)[p]? = some b → p = 0x200000 ∧ b = a := by
    intro p a b h
    rw [getElem?_insert_key] at h
    split_ifs at h with hp
    · exact ⟨hp, (Option.some.inj h).symm⟩
    · exact absurd h (by simp)
  refine ⟨oneOfEach_tearable, ⟨rfl, rfl, rfl, rfl, rfl, rfl⟩, ⟨fun p => ?_, fun p n handle hp hh => ?_, fun p q handle hp hq => ?_⟩,
    by decide, by decide, fun p handle hh => ?_⟩
  · unfold oneOfEach
    dsimp only
    rw [getElem?_insert_key, getElem?_insert_key]
    split_ifs <;> simp
  · obtain ⟨rfl, rfl⟩ := hone hp
    obtain ⟨-, rfl⟩ := hone hh
    decide
  · exact (hone hp).1.trans (hone hq).1.symm
  · obtain ⟨rfl, rfl⟩ := hone hh
    decide

end Worker

end GpuCr
