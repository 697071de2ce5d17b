import GpuCr.Lib.Run
import GpuCr.Ipc.Import
import GpuCr.Ipc.Exports

/-!
# The IPC signal handler

The three branches of `cr_ipc_signal_handler` as sequences of stages on the tables, the driver and the two
host buffers. A stage is a statement of the handler that touches a buffer or calls into
`src/ipc_hooks.cpp`. While memory is torn down the buffers hold the only copy of its bytes; `CopyKept` says
that they still do, at the place a rebuild would read them from.
-/

namespace GpuCr

open Lib Lib.Run Lib.Grouping Lib.Layout Std

/-- The import side of the driver. `sizeOf` is the size of the allocation behind a received fd. -/
def Driver.importOps (sizeOf : Nat → Nat) : ImportOps Driver where
  receiveFds := fun _ fds d => (if (d.calls 1).1 then fds.map Int.toNat else [], (d.calls 1).2)
  importFd := fun fd d => d.cuMemCreate (sizeOf fd)
  map := fun va size handle d => d.cuMemMap va size handle
  unmap := fun va size d => d.cuMemUnmap va size
  setAccess := fun va size _ d => d.cuMemSetAccess va size
  release := fun handle d => d.cuMemRelease handle

/-- `mmapFails` says which `mmap` calls fail. -/
structure IpcWorkerState where
  ipc : IpcState
  exportBuf : Option HostBuf
  localBuf : Option HostBuf
  mmapFails : Nat → Bool
  mmapClock : Nat

inductive IpcStage where
  | teardownImports
  | allocExportBuf
  | saveExports
  | allocLocalBuf
  | saveLocals
  | restoreExports
  | restoreLocals
  | importPeers (sizeOf : Nat → Nat) (block : List IpcExportShmEntry)

/-- The messages of the handler; an import comes with the peer block it finds. -/
inductive IpcMsg where
  | teardown
  | export
  | import (sizeOf : Nat → Nat) (block : List IpcExportShmEntry)

def IpcMsg.stages : IpcMsg → List IpcStage
  | .teardown => [.teardownImports, .allocExportBuf, .saveExports, .allocLocalBuf, .saveLocals]
  | .export => [.restoreExports, .restoreLocals]
  | .import sizeOf block => [.importPeers sizeOf block]

namespace IpcWorkerState

/-- `mmap` of anonymous memory, which reads zero. -/
def mmap (s : IpcWorkerState) (size : Nat) : Option HostBuf :=
  if s.mmapFails s.mmapClock then none else some ⟨size, fun _ => 0⟩

def teardownImports (s : IpcWorkerState) : IpcWorkerState :=
  let r := (Driver.importOps fun _ => 0).ipcTeardownAllImports s.ipc.fns.cuMemRelease s.ipc.imports s.ipc.drv
  { s with ipc := { s.ipc with imports := r.2.1, drv := r.2.2 } }

/-- A buffer is only ever replaced when there is something to save. -/
def allocExportBuf (s : IpcWorkerState) : IpcWorkerState :=
  if 0 < s.ipc.ipcGetExportDataSize then
    { s with exportBuf := s.mmap s.ipc.ipcGetExportDataSize, mmapClock := s.mmapClock + 1 }
  else s

def saveExports (s : IpcWorkerState) : IpcWorkerState :=
  match s.exportBuf with
  | none => s
  | some buf =>
    if 0 < buf.size then
      let r := s.ipc.ipcSaveAndTeardownAllExports buf
      { s with ipc := r.2.1, exportBuf := some r.2.2 }
    else s

def allocLocalBuf (s : IpcWorkerState) : IpcWorkerState :=
  if 0 < s.ipc.ipcGetLocalAllocDataSize then
    { s with localBuf := s.mmap s.ipc.ipcGetLocalAllocDataSize, mmapClock := s.mmapClock + 1 }
  else s

def saveLocals (s : IpcWorkerState) : IpcWorkerState :=
  match s.localBuf with
  | none => s
  | some buf =>
    if 0 < buf.size then
      let r := s.ipc.ipcSaveAndTeardownLocalAllocs buf
      { s with ipc := r.2.1, localBuf := some r.2.2 }
    else s

/-- The buffer goes whatever the rebuild has returned. -/
def restoreExports (s : IpcWorkerState) : IpcWorkerState :=
  match s.exportBuf with
  | none => s
  | some buf =>
    if 0 < buf.size then { s with ipc := (s.ipc.ipcRebuildAndRestoreAllExports buf).2, exportBuf := none }
    else s

def restoreLocals (s : IpcWorkerState) : IpcWorkerState :=
  match s.localBuf with
  | none => s
  | some buf =>
    if 0 < buf.size then { s with ipc := (s.ipc.ipcRebuildLocalAllocs buf).2, localBuf := none }
    else s

def importPeers (s : IpcWorkerState) (sizeOf : Nat → Nat) (block : List IpcExportShmEntry) : IpcWorkerState :=
  if block = [] then s
  else
    let r := (Driver.importOps sizeOf).ipcImportFromShmBlock (s.ipc.fns.cuMemImport && s.ipc.fns.cuMemMap)
      s.ipc.fns.cuMemSetAccess block s.ipc.imports s.ipc.drv
    { s with ipc := { s.ipc with imports := r.2.1, drv := r.2.2 } }

def step (s : IpcWorkerState) : IpcStage → IpcWorkerState
  | .teardownImports => s.teardownImports
  | .allocExportBuf => s.allocExportBuf
  | .saveExports => s.saveExports
  | .allocLocalBuf => s.allocLocalBuf
  | .saveLocals => s.saveLocals
  | .restoreExports => s.restoreExports
  | .restoreLocals => s.restoreLocals
  | .importPeers sizeOf block => s.importPeers sizeOf block

/-! ### The property and the condition -/

/-- The buffer and the places a rebuild of that kind would read. -/
def source (s : IpcWorkerState) (isExport : Bool) : Option HostBuf × List Slot :=
  if isExport then (s.exportBuf, RebuildItem.slots s.ipc.exportItems 0)
  else (s.localBuf, RebuildItem.slots s.ipc.localItems 0)

/-- The bytes of `t` are where a rebuild would read them. -/
def Kept (src : Option HostBuf × List Slot) (t : ReleasedAlloc) : Prop := ∃ buf, src.1 = some buf ∧ t.HeldIn buf src.2

/-- The only copy of what has been torn down is still there. -/
def CopyKept (s : IpcWorkerState) : Prop := ∀ t ∈ s.ipc.released, Kept (s.source t.isExport) t

/-- Exports are saved only when none is torn down already, and all have their properties. -/
def ExportsSavable (s : IpcWorkerState) : Prop :=
  0 < s.ipc.ipcGetExportDataSize →
    ∀ rec ∈ s.ipc.exports, rec.tornActive = false ∧ (rec.active = true → rec.hasSavedProp = true)

/-- No local allocation is torn down already. -/
def NoTornLocals (s : IpcWorkerState) : Prop := ∀ rec ∈ s.ipc.localAllocs, rec.tornDown = false

def Safe (s : IpcWorkerState) : IpcStage → Prop
  | .allocExportBuf => s.ExportsSavable
  | .saveExports => s.ExportsSavable
  | .allocLocalBuf => 0 < s.ipc.ipcGetLocalAllocDataSize → s.NoTornLocals
  | .saveLocals => s.localBuf ≠ none → s.NoTornLocals ∧ s.ipc.DevicesAscend
  | .restoreExports => s.exportBuf ≠ none → s.ipc.exportItems ≠ [] →
    (s.ipc.fns.cuMemCreate && s.ipc.fns.cuMemMap && s.ipc.fns.cuMemcpyHtoD && s.ipc.fns.cuMemAddressReserve) = true ∧
      AllMapped s.ipc.exportItems s.ipc.drv
  | .restoreLocals => s.localBuf ≠ none → s.ipc.localItems ≠ [] →
    (s.ipc.fns.cuMemCreate && s.ipc.fns.cuMemMap && s.ipc.fns.cuMemcpyHtoD) = true ∧
      AllMapped s.ipc.localItems s.ipc.drv
  | _ => True

/-! ### One lemma for each stage -/

section Stages
variable {s : IpcWorkerState}

theorem CopyKept.isExport_ne (h : s.CopyKept) {b : Bool} (hsrc : (s.source b).2 = []) :
    ∀ t ∈ s.ipc.released, t.isExport ≠ b := by
  intro t ht hb
  obtain ⟨buf, -, x, hx, -⟩ := h t ht
  rw [hb, hsrc] at hx
  exact absurd hx List.not_mem_nil

theorem source_exports_eq_nil (h : ∀ rec ∈ s.ipc.exports, rec.tornActive = false) : (s.source true).2 = [] := by
  have hitems : s.ipc.exportItems = [] := by
    rw [IpcState.exportItems, List.filter_eq_nil_iff.2, List.map_nil]
    intro x hx
    simp [h x.1 (List.fst_mem_of_mem_zipIdx hx)]
  show RebuildItem.slots s.ipc.exportItems 0 = []
  rw [hitems]
  rfl

theorem source_locals_eq_nil (h : s.NoTornLocals) : (s.source false).2 = [] := by
  have hitems : s.ipc.localItems = [] := by
    rw [IpcState.localItems, List.filter_eq_nil_iff.2, List.map_nil]
    intro x hx
    simp [h x.1 (List.fst_mem_of_mem_zipIdx hx)]
  show RebuildItem.slots s.ipc.localItems 0 = []
  rw [hitems]
  rfl

theorem copyKept_allocExportBuf (h : s.CopyKept) (hok : s.ExportsSavable) : s.allocExportBuf.CopyKept := by
  unfold allocExportBuf
  split_ifs with hsize
  swap
  · exact h
  intro t ht
  have hne := h.isExport_ne (source_exports_eq_nil fun rec hrec => (hok hsize rec hrec).1) t ht
  have hkept := h t ht
  rw [Bool.eq_false_of_not_eq_true hne] at hkept ⊢
  exact hkept

theorem copyKept_allocLocalBuf (h : s.CopyKept) (hok : 0 < s.ipc.ipcGetLocalAllocDataSize → s.NoTornLocals) :
    s.allocLocalBuf.CopyKept := by
  unfold allocLocalBuf
  split_ifs with hsize
  swap
  · exact h
  intro t ht
  have hne := h.isExport_ne (source_locals_eq_nil (hok hsize)) t ht
  have hkept := h t ht
  rw [Bool.eq_true_of_not_eq_false hne] at hkept ⊢
  exact hkept

theorem copyKept_saveExports (h : s.CopyKept) (hok : s.ExportsSavable) : s.saveExports.CopyKept := by
  unfold saveExports
  split
  · exact h
  next buf hbuf =>
  split_ifs with hpos
  swap
  · exact h
  dsimp only
  -- the local allocations and their buffer are not concerned
  have hlocals : ∀ t ∈ s.ipc.released, t.isExport = false → Kept (source
      { s with ipc := (s.ipc.ipcSaveAndTeardownAllExports buf).2.1
               exportBuf := some (s.ipc.ipcSaveAndTeardownAllExports buf).2.2 } t.isExport) t := by
    intro t ht hkind
    have hkept := h t ht
    rw [hkind] at hkept ⊢
    have hitems : (s.ipc.ipcSaveAndTeardownAllExports buf).2.1.localItems = s.ipc.localItems := by
      unfold IpcState.ipcSaveAndTeardownAllExports
      dsimp only
      split_ifs <;> rfl
    unfold source at hkept ⊢
    simp only [Bool.false_eq_true, if_false] at hkept ⊢
    rw [hitems]
    exact hkept
  by_cases hsize : 0 < s.ipc.ipcGetExportDataSize
  · intro t ht
    rcases IpcState.saveExports_heldIn (fun rec hrec => (hok hsize rec hrec).2) buf t ht with ht | ⟨hkind, hheld⟩
    · have hne := h.isExport_ne (source_exports_eq_nil fun rec hrec => (hok hsize rec hrec).1) t ht
      exact hlocals t ht (Bool.eq_false_of_not_eq_true hne)
    · rw [hkind]
      exact ⟨_, rfl, hheld⟩
  · have hnone : ∀ rec ∈ s.ipc.exports, rec.active = false := by
      intro rec hrec
      by_contra hactive
      rw [Bool.not_eq_false] at hactive
      have hzero := List.sum_eq_zero_iff_forall_eq_nat.1 (Nat.eq_zero_of_not_pos hsize) rec.mappedSize
        (List.mem_map_of_mem (List.mem_filter.2 ⟨hrec, hactive⟩))
      simp only [IpcExportRecord.active, Bool.and_eq_true, decide_eq_true_eq] at hactive
      omega
    obtain ⟨hreleased, hitems, hdata⟩ := IpcState.saveExports_noActive hnone buf
    intro t ht
    have ht := hreleased t ht
    cases hkind : t.isExport with
    | false => exact hkind ▸ hlocals t ht hkind
    | true =>
      have hkept := h t ht
      rw [hkind] at hkept
      unfold source at hkept ⊢
      simp only [if_true] at hkept ⊢
      rw [hitems, hdata, ← hbuf]
      exact hkept

theorem copyKept_saveLocals (h : s.CopyKept)
    (hok : s.localBuf ≠ none → s.NoTornLocals ∧ s.ipc.DevicesAscend) : s.saveLocals.CopyKept := by
  unfold saveLocals
  split
  · exact h
  next buf hbuf =>
  split_ifs with hpos
  swap
  · exact h
  dsimp only
  obtain ⟨hnone, hasc⟩ := hok (by simp [hbuf])
  intro t ht
  rcases IpcState.saveLocals_heldIn hasc buf t ht with ht | ⟨hkind, hheld⟩
  swap
  · rw [hkind]
    exact ⟨_, rfl, hheld⟩
  have hne := h.isExport_ne (source_locals_eq_nil hnone) t ht
  have hkept := h t ht
  rw [Bool.eq_true_of_not_eq_false hne] at hkept ⊢
  have hitems : (s.ipc.ipcSaveAndTeardownLocalAllocs buf).2.1.exportItems = s.ipc.exportItems := by
    unfold IpcState.ipcSaveAndTeardownLocalAllocs
    dsimp only
    split_ifs <;> rfl
  unfold source at hkept ⊢
  simp only [if_true] at hkept ⊢
  rw [hitems]
  exact hkept

theorem copyKept_restoreExports (h : s.CopyKept) (hok : s.Safe .restoreExports) : s.restoreExports.CopyKept := by
  unfold restoreExports
  split
  · exact h
  next buf hbuf =>
  split_ifs with hpos
  swap
  · exact h
  have hframe : (s.ipc.ipcRebuildAndRestoreAllExports buf).2.localItems = s.ipc.localItems ∧
      ∀ t ∈ (s.ipc.ipcRebuildAndRestoreAllExports buf).2.released, t ∈ s.ipc.released ∧ t.isExport = false := by
    unfold IpcState.ipcRebuildAndRestoreAllExports
    have hnone : s.ipc.exportItems = [] → ∀ t ∈ s.ipc.released, t.isExport = false := by
      intro hitems t ht
      have hsrc : (s.source true).2 = [] := by
        show RebuildItem.slots s.ipc.exportItems 0 = []
        rw [hitems]
        rfl
      exact Bool.eq_false_of_not_eq_true (h.isExport_ne hsrc t ht)
    split_ifs with hfns
    · have hitems : s.ipc.exportItems = [] := by
        by_contra hne
        have := (hok (by simp [hbuf]) hne).1
        simp_all
      exact ⟨rfl, fun t ht => ⟨ht, hnone hitems t ht⟩⟩
    dsimp only
    obtain ⟨h1, h2, h3, h4⟩ := IpcState.foldl_trackExport_frame (rebuildAlloc s.ipc.exportItems s.ipc.drv).ordered
      { s.ipc with drv := (rebuildCopy s.ipc.fns buf (rebuildAlloc s.ipc.exportItems s.ipc.drv)).drv }
    refine ⟨?_, fun t ht => ?_⟩
    · unfold IpcState.localItems IpcState.localItem IpcState.accessOf IpcState.forget
      rw [h1, h2, h3]
    have hmem : t ∈ s.ipc.released := by
      have := (List.mem_filter.1 ht).1
      rwa [h4] at this
    refine ⟨hmem, ?_⟩
    by_cases hitems : s.ipc.exportItems = []
    · exact hnone hitems t hmem
    by_contra hkind
    rw [Bool.not_eq_false] at hkind
    obtain ⟨buf', -, hheld⟩ := h t hmem
    rw [hkind] at hheld
    exact IpcState.not_heldIn_of_forget (hok (by simp [hbuf]) hitems).2 ht hkind buf' hheld
  intro t ht
  obtain ⟨ht, hkind⟩ := hframe.2 t ht
  have hkept := h t ht
  rw [hkind] at hkept ⊢
  unfold source at hkept ⊢
  simp only [Bool.false_eq_true, if_false] at hkept ⊢
  rw [hframe.1]
  exact hkept

theorem copyKept_restoreLocals (h : s.CopyKept) (hok : s.Safe .restoreLocals) : s.restoreLocals.CopyKept := by
  unfold restoreLocals
  split
  · exact h
  next buf hbuf =>
  split_ifs with hpos
  swap
  · exact h
  have hframe : (s.ipc.ipcRebuildLocalAllocs buf).2.exportItems = s.ipc.exportItems ∧
      ∀ t ∈ (s.ipc.ipcRebuildLocalAllocs buf).2.released, t ∈ s.ipc.released ∧ t.isExport = true := by
    unfold IpcState.ipcRebuildLocalAllocs
    have hnone : s.ipc.localItems = [] → ∀ t ∈ s.ipc.released, t.isExport = true := by
      intro hitems t ht
      have hsrc : (s.source false).2 = [] := by
        show RebuildItem.slots s.ipc.localItems 0 = []
        rw [hitems]
        rfl
      exact Bool.eq_true_of_not_eq_false (h.isExport_ne hsrc t ht)
    split_ifs with hfns
    · have hitems : s.ipc.localItems = [] := by
        by_contra hne
        have := (hok (by simp [hbuf]) hne).1
        simp_all
      exact ⟨rfl, fun t ht => ⟨ht, hnone hitems t ht⟩⟩
    dsimp only
    obtain ⟨h1, h2, h3⟩ := IpcState.foldl_trackLocal_frame (rebuildAlloc s.ipc.localItems s.ipc.drv).ordered
      { s.ipc with drv := (rebuildCopy s.ipc.fns buf (rebuildAlloc s.ipc.localItems s.ipc.drv)).drv }
    refine ⟨?_, fun t ht => ?_⟩
    · unfold IpcState.exportItems IpcState.exportItem IpcState.accessOf IpcState.forget
      rw [h1, h2]
    have hmem : t ∈ s.ipc.released := by
      have := (List.mem_filter.1 ht).1
      rwa [h3] at this
    refine ⟨hmem, ?_⟩
    by_cases hitems : s.ipc.localItems = []
    · exact hnone hitems t hmem
    by_contra hkind
    rw [Bool.not_eq_true] at hkind
    obtain ⟨buf', -, hheld⟩ := h t hmem
    rw [hkind] at hheld
    exact IpcState.not_heldIn_of_forget (hok (by simp [hbuf]) hitems).2 ht hkind buf' hheld
  intro t ht
  obtain ⟨ht, hkind⟩ := hframe.2 t ht
  have hkept := h t ht
  rw [hkind] at hkept ⊢
  unfold source at hkept ⊢
  simp only [if_true] at hkept ⊢
  rw [hframe.1]
  exact hkept

theorem copyKept_importPeers (h : s.CopyKept) (sizeOf : Nat → Nat) (block : List IpcExportShmEntry) :
    (s.importPeers sizeOf block).CopyKept := by
  unfold importPeers
  split_ifs
  · exact h
  · exact h

theorem copyKept_step (h : s.CopyKept) (e : IpcStage) (hok : s.Safe e) : (s.step e).CopyKept := by
  cases e with
  | teardownImports => exact h
  | allocExportBuf => exact copyKept_allocExportBuf h hok
  | saveExports => exact copyKept_saveExports h hok
  | allocLocalBuf => exact copyKept_allocLocalBuf h hok
  | saveLocals => exact copyKept_saveLocals h hok
  | restoreExports => exact copyKept_restoreExports h hok
  | restoreLocals => exact copyKept_restoreLocals h hok
  | importPeers sizeOf block => exact copyKept_importPeers h sizeOf block

end Stages

/-- **The only copy is never dropped**, in every state of a run whose steps are safe. -/
theorem copyKept_of_safe (s : IpcWorkerState) (hs : s.ipc.released = []) (msgs : List IpcMsg)
    (hok : AllSteps Safe step s (msgs.flatMap IpcMsg.stages)) :
    ∀ pre, pre <+: msgs.flatMap IpcMsg.stages → (run step s pre).CopyKept := by
  refine invariant_of_allSteps (fun s e h hok => copyKept_step h e hok) ?_ hok
  intro t ht
  rw [hs] at ht
  exact absurd ht List.not_mem_nil

/-- A worker before its first message. -/
def fresh (ipc : IpcState) : IpcWorkerState := ⟨ipc, none, none, fun _ => false, 0⟩

theorem safe_roundTrip : AllSteps Safe step (fresh (IpcState.localPair 0 1))
    ([IpcMsg.teardown, .export].flatMap IpcMsg.stages) := by
  refine ⟨trivial, ?_, ?_, ?_, ?_, ?_, ?_, trivial⟩
  · exact fun h => absurd h (by decide)
  · exact fun h => absurd h (by decide)
  · exact fun _ rec hrec => absurd hrec List.not_mem_nil
  · refine fun _ => ⟨fun rec hrec => absurd hrec List.not_mem_nil, ?_⟩
    rw [IpcState.devicesAscend_iff]
    exact (by decide : ([⟨1, 0x10000, 4096, ⟨0⟩⟩, ⟨2, 0x20000, 8192, ⟨1⟩⟩] : List LocalAllocEntry).Pairwise
      fun e e' => e.prop.locationId ≤ e'.prop.locationId)
  · exact fun h => absurd rfl h
  · refine fun _ _ => ⟨rfl, ?_, ?_, trivial⟩
    · exact Option.isSome_iff_ne_none.1 rfl
    · exact Option.isSome_iff_ne_none.1 rfl

theorem copyKept_roundTrip :
    (run step (fresh (IpcState.localPair 0 1)) ([IpcMsg.teardown, .export].flatMap IpcMsg.stages)).CopyKept :=
  copyKept_of_safe _ rfl _ safe_roundTrip _ List.prefix_rfl

/-- A second teardown finds the local allocations in the tables once more and takes a new buffer for
them. -/
theorem not_copyKept : ¬ ∀ s : IpcWorkerState, s.ipc.released = [] → ∀ msgs : List IpcMsg,
    ∀ pre, pre <+: msgs.flatMap IpcMsg.stages → (run step s pre).CopyKept := by
  intro h
  have hkept := h (fresh ((IpcState.localPair 0 1).withMem fun _ => 7)) rfl [.teardown, .teardown]
    (IpcMsg.teardown.stages ++ [.teardownImports, .allocExportBuf, .saveExports, .allocLocalBuf]) ⟨[.saveLocals], rfl⟩
  obtain ⟨buf, hbuf, x, -, -, -, -, hdata⟩ := hkept _ (List.mem_cons_self ..)
  have hzero : buf.data = fun _ => 0 := congrArg HostBuf.data (Option.some.inj hbuf).symm
  have hseven : (0 : Byte) = 7 := (congrFun hzero _).symm.trans (hdata 0 (by decide))
  exact absurd hseven (by decide)

end IpcWorkerState

end GpuCr
