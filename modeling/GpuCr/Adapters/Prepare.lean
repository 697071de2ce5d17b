import GpuCr.Adapters.Gcr

/-!
# What a prepare tears down

A prepare that finds `g_prepared` set returns `0` without a look at the tables. One that runs its three passes and
returns `0` has torn down what was tracked when it was called, as far as the driver has not failed an unmapping or the
disabling of a peer, which is reported and passed over.
-/

namespace GpuCr

open Lib.Run Std

/-! ### The two saves -/

namespace IpcState

section Saves
variable {s : IpcState} {buf : HostBuf}

theorem isSome_saveExports (hfns : s.fns.Resolved) (hsize : s.ipcGetExportDataSize ≤ buf.size) :
    (s.ipcSaveAndTeardownAllExports buf).1.isSome = (s.exportCopies buf).1 := by
  rw [saveExports_eq (by rw [hfns.release, hfns.dtoh]; rfl) hsize]
  cases (s.exportCopies buf).1 <;> rfl

theorem isSome_saveLocals (hfns : s.fns.Resolved) (hsize : s.ipcGetLocalAllocDataSize ≤ buf.size) :
    (s.ipcSaveAndTeardownLocalAllocs buf).1.isSome = (s.localCopies buf).1 := by
  unfold ipcSaveAndTeardownLocalAllocs
  rw [hfns.release, hfns.dtoh, Bool.and_self, Bool.not_true, if_neg Bool.false_ne_true, if_neg (Nat.not_lt.2 hsize)]
  show Option.isSome (Prod.fst (if !(s.localCopies buf).1 then _ else _)) = _
  cases (s.localCopies buf).1 <;> rfl

/-- The local allocations depend on three tables. -/
theorem localEntries_congr {r : IpcState} (hcreated : r.createdAllocs = s.createdAllocs)
    (hva : r.handleToVa = s.handleToVa) (hexp : r.exportedVas = s.exportedVas) : r.localEntries = s.localEntries := by
  unfold localEntries
  rw [hcreated, hva, hexp]

theorem localEntries_saveLocals (s : IpcState) (buf : HostBuf) :
    (s.ipcSaveAndTeardownLocalAllocs buf).2.1.localEntries = s.localEntries := by
  unfold ipcSaveAndTeardownLocalAllocs
  dsimp only
  split_ifs <;> rfl

theorem localEntries_saveExports (hfns : s.fns.Resolved) (hsize : s.ipcGetExportDataSize ≤ buf.size) :
    (s.ipcSaveAndTeardownAllExports buf).2.1.localEntries = s.localEntries := by
  have hpass := exportPass (s := s) (by rw [hfns.release, hfns.dtoh]; rfl) hfns.unmap hsize
  exact localEntries_congr hpass.createdAllocs hpass.handleToVa hpass.exportedVas

theorem teardownAllImports_eq (hfns : s.fns.Resolved) :
    s.teardownAllImports.drv = run Driver.tearStep s.drv s.importTargets := by
  rw [importTargets, ← teardownImports_eq]
  unfold teardownAllImports ImportOps.ipcTeardownAllImports
  rw [hfns.release]
  rfl

/-- Without bytes to save no live record has a mapping of any extent. -/
theorem mappedSize_eq_zero (h : s.ipcGetExportDataSize = 0) {rec : IpcExportRecord} (hrec : rec ∈ s.exports)
    (htorn : rec.tornDown = false) (hmap : rec.hasMapping = true) : rec.mappedSize = 0 := by
  by_contra hne
  have hactive : rec.active = true := by simp [IpcExportRecord.active, htorn, hmap, Nat.pos_of_ne_zero hne]
  exact hne (List.sum_eq_zero_iff_forall_eq_nat.1 h _ (List.mem_map_of_mem (List.mem_filter.2 ⟨hrec, hactive⟩)))

theorem size_eq_zero (h : s.ipcGetLocalAllocDataSize = 0) {e : LocalAllocEntry} (he : e ∈ s.localEntries) : e.size = 0 :=
  List.sum_eq_zero_iff_forall_eq_nat.1 h _ (List.mem_map_of_mem he)

end Saves

end IpcState

theorem Driver.not_mappedAt_zero (d : Driver) (va : Nat) : d.mappedAt va 0 = false := by
  rw [mappedAt, List.any_eq_false]
  intro m hm
  have := d.maps_pos m hm
  simp only [Bool.and_eq_true, beq_iff_eq, not_and]
  omega

/-! ### The statements -/

namespace GcrProcess

/-- The process when the save of the exports begins. -/
def atExports (s : GcrProcess) (c : PrepareAnswers) : GcrProcess :=
  { s.setIpc (s.ipc.withEnv c.env).teardownAllImports with
    exportData := (allocateBuffer s.ipc.ipcGetExportDataSize c.exportAlloc c.exportFresh).2 }

/-- The process when the save of the local allocations begins. -/
def atLocals (s : GcrProcess) (c : PrepareAnswers) : GcrProcess :=
  { s with localData := (allocateBuffer s.ipc.ipcGetLocalAllocDataSize c.localAlloc c.localFresh).2 }

section Statements
variable {s s' : GcrProcess} {c : PrepareAnswers}

theorem toExports_eq (hfns : s.ipc.fns.Resolved) (c : PrepareAnswers) : s.toExports c =
    if !c.deviceSync then .error (s.setIpc (s.ipc.withEnv c.env))
    else if (allocateBuffer s.ipc.ipcGetExportDataSize c.exportAlloc c.exportFresh).1 then .ok (s.atExports c)
    else .error (s.atExports c) := by
  have himports : (s.setIpc (s.ipc.withEnv c.env)).teardownImports =
      .ok (s.setIpc (s.ipc.withEnv c.env).teardownAllImports) := by
    unfold teardownImports ImportOps.ipcTeardownAllImports
    rw [show (s.setIpc (s.ipc.withEnv c.env)).ipc.fns.cuMemRelease = true from hfns.release]
    simp only [Bool.not_true, Bool.false_eq_true, if_false]
    unfold IpcState.teardownAllImports ImportOps.ipcTeardownAllImports
    rw [show (s.ipc.withEnv c.env).fns.cuMemRelease = true from hfns.release]
    rfl
  unfold toExports deviceSynchronize
  cases c.deviceSync with
  | false => rfl
  | true =>
    simp only [Bool.not_true, Bool.false_eq_true, if_false, if_true]
    show (s.setIpc (s.ipc.withEnv c.env)).teardownImports >>= _ = _
    rw [himports]
    rfl

theorem toLocals_eq (s : GcrProcess) (c : PrepareAnswers) : s.toLocals c =
    if !c.events then .error s
    else if (allocateBuffer s.ipc.ipcGetLocalAllocDataSize c.localAlloc c.localFresh).1 then .ok (s.atLocals c)
    else .error (s.atLocals c) := by
  unfold toLocals teardownEvents
  cases c.events <;> rfl

theorem allocateBuffer_some {needed : Nat} {succeeds : Bool} {fresh : Nat → Byte} {buf : HostBuf}
    (h : (allocateBuffer needed succeeds fresh).2 = some buf) : buf = ⟨needed, fresh⟩ ∧ 0 < needed := by
  unfold allocateBuffer at h
  split_ifs at h with hzero
  exact ⟨(Option.some.inj h).symm, Nat.pos_of_ne_zero hzero⟩

theorem allocateBuffer_none {needed : Nat} {succeeds : Bool} {fresh : Nat → Byte}
    (hok : (allocateBuffer needed succeeds fresh).1 = true) (h : (allocateBuffer needed succeeds fresh).2 = none) :
    needed = 0 := by
  unfold allocateBuffer at hok h
  split_ifs at hok h with hzero
  exact hzero

/-- The process after a save of the exports, whatever it returns. -/
def savedExports (s : GcrProcess) (buf : HostBuf) : GcrProcess :=
  { s.setIpc (s.ipc.ipcSaveAndTeardownAllExports buf).2.1 with
    exportData := some (s.ipc.ipcSaveAndTeardownAllExports buf).2.2 }

def savedLocals (s : GcrProcess) (buf : HostBuf) : GcrProcess :=
  { s.setIpc (s.ipc.ipcSaveAndTeardownLocalAllocs buf).2.1 with
    localData := some (s.ipc.ipcSaveAndTeardownLocalAllocs buf).2.2 }

/-- The save of the exports gives up if its copies do. -/
theorem saveExports_eq (hfns : s.ipc.fns.Resolved) {buf : HostBuf} (hbuf : s.exportData = some buf) (hpos : 0 < buf.size)
    (hsize : s.ipc.ipcGetExportDataSize ≤ buf.size) : s.saveExports =
      if (s.ipc.exportCopies buf).1 then .ok (s.savedExports buf) else .error (s.savedExports buf) := by
  unfold saveExports
  rw [hbuf]
  dsimp only
  rw [if_neg hpos.ne', IpcState.isSome_saveExports hfns hsize]
  rfl

theorem saveLocals_eq (hfns : s.ipc.fns.Resolved) {buf : HostBuf} (hbuf : s.localData = some buf) (hpos : 0 < buf.size)
    (hsize : s.ipc.ipcGetLocalAllocDataSize ≤ buf.size) : s.saveLocals =
      if (s.ipc.localCopies buf).1 then .ok (s.savedLocals buf) else .error (s.savedLocals buf) := by
  unfold saveLocals
  rw [hbuf]
  dsimp only
  rw [if_neg hpos.ne', IpcState.isSome_saveLocals hfns hsize]
  rfl

theorem saveExports_none (hbuf : s.exportData = none) : s.saveExports = .ok s := by
  unfold saveExports
  rw [hbuf]

theorem saveLocals_none (hbuf : s.localData = none) : s.saveLocals = .ok s := by
  unfold saveLocals
  rw [hbuf]

/-- A teardown that comes to its end, one statement after the other. -/
theorem teardownRun_ok (hfns : s.ipc.fns.Resolved) (h : s.teardownRun c = .ok s') :
    ∃ t, (allocateBuffer s.ipc.ipcGetExportDataSize c.exportAlloc c.exportFresh).1 = true ∧
      (s.atExports c).saveExports = .ok t ∧
      (allocateBuffer t.ipc.ipcGetLocalAllocDataSize c.localAlloc c.localFresh).1 = true ∧
      (t.atLocals c).saveLocals = .ok s' := by
  obtain ⟨s₁, h₁, h⟩ := bind_eq_ok.1 h
  obtain ⟨t, ht, h⟩ := bind_eq_ok.1 h
  obtain ⟨s₂, h₂, h⟩ := bind_eq_ok.1 h
  rw [toExports_eq hfns] at h₁
  rw [toLocals_eq] at h₂
  split_ifs at h₁ h₂ with hsync halloc hevents halloc'
  obtain rfl := Except.ok.inj h₁
  obtain rfl := Except.ok.inj h₂
  exact ⟨t, halloc, ht, halloc', h⟩

end Statements

/-! ### The passes -/

/-- The exports between the two saves. `answered` says that the driver has not failed an unmapping. -/
structure ExportsPassed (s t : GcrProcess) (answered : Prop) : Prop where
  shrunk : s.ipc.drv.Shrunk t.ipc.drv
  imports : t.ipc.imports = s.ipc.imports
  peers : t.peers = s.peers
  locals : t.ipc.localEntries = s.ipc.localEntries
  torn : ∀ rec ∈ t.ipc.exports, rec.tornDown = false → rec.hasMapping = true → rec.mappedSize = 0
  unmapped : answered → ∀ rec ∈ s.ipc.exports, rec.tornDown = false → rec.hasMapping = true →
    t.ipc.drv.mappedAt rec.mappedVaddr rec.mappedSize = false

structure LocalsPassed (s t : GcrProcess) (answered : Prop) : Prop where
  shrunk : s.ipc.drv.Shrunk t.ipc.drv
  imports : t.ipc.imports = s.ipc.imports
  exports : t.ipc.exports = s.ipc.exports
  peers : t.peers = s.peers
  locals : t.ipc.localEntries = s.ipc.localEntries
  unmapped : answered → ∀ e ∈ s.ipc.localEntries, t.ipc.drv.mappedAt e.vaddr e.size = false

section Passes
variable {s t : GcrProcess}

theorem exportsPassed (hfns : s.ipc.fns.Resolved)
    (hbuf : ∀ buf, s.exportData = some buf → buf.size = s.ipc.ipcGetExportDataSize ∧ 0 < buf.size)
    (hnone : s.exportData = none → s.ipc.ipcGetExportDataSize = 0) (h : s.saveExports = .ok t) :
    s.ExportsPassed t (∀ buf, s.exportData = some buf → (s.ipc.afterExportCopies buf).Answers s.ipc.exportTargets) := by
  cases hb : s.exportData with
  | none =>
    rw [saveExports_none hb] at h
    obtain rfl := Except.ok.inj h
    have hzero : ∀ rec ∈ s.ipc.exports, rec.tornDown = false → rec.hasMapping = true → rec.mappedSize = 0 :=
      fun rec hrec => IpcState.mappedSize_eq_zero (hnone hb) hrec
    refine ⟨⟨rfl, rfl, fun m hm => hm⟩, rfl, rfl, rfl, hzero, fun _ rec hrec htorn hmap => ?_⟩
    rw [hzero rec hrec htorn hmap]
    exact Driver.not_mappedAt_zero _ _
  | some buf =>
    obtain ⟨hsize, hpos⟩ := hbuf buf hb
    rw [saveExports_eq hfns hb hpos hsize.ge] at h
    split_ifs at h with hcopies
    obtain rfl := Except.ok.inj h
    have hpass := IpcState.exportPass (s := s.ipc) (by rw [hfns.release, hfns.dtoh]; rfl) hfns.unmap hsize.ge
    have hdrv := hpass.drv
    rw [if_pos hcopies] at hdrv
    refine ⟨s.ipc.shrunk_saveExports buf, s.ipc.saveExports_imports buf, rfl,
      IpcState.localEntries_saveExports hfns hsize.ge, fun rec' hrec' htorn hmap => ?_,
      fun hans rec hrec htorn hmap => ?_⟩
    · obtain ⟨i, hi⟩ := List.mem_iff_getElem?.1 hrec'
      have hok : (s.ipc.ipcSaveAndTeardownAllExports buf).1 ≠ none :=
        Option.isSome_iff_ne_none.1 ((IpcState.isSome_saveExports hfns hsize.ge).trans hcopies)
      obtain ⟨rec, -, -, hmap', htorn'⟩ := IpcState.saveExports_torn hok hi
      rw [htorn' (hmap' ▸ hmap)] at htorn
      exact absurd htorn (by simp)
    · show (s.ipc.ipcSaveAndTeardownAllExports buf).2.1.drv.mappedAt _ _ = false
      rw [hdrv]
      refine (hans buf rfl).unmapped (t := ⟨rec.mappedVaddr, rec.mappedSize, some rec.localHandle⟩) ?_
      exact List.mem_filterMap.2 ⟨rec, hrec, by simp [IpcExportRecord.target, htorn, hmap]⟩

theorem localsPassed (hfns : s.ipc.fns.Resolved)
    (hbuf : ∀ buf, s.localData = some buf → buf.size = s.ipc.ipcGetLocalAllocDataSize ∧ 0 < buf.size)
    (hnone : s.localData = none → s.ipc.ipcGetLocalAllocDataSize = 0) (h : s.saveLocals = .ok t) :
    s.LocalsPassed t (∀ buf, s.localData = some buf → (s.ipc.afterLocalCopies buf).Answers s.ipc.localTargets) := by
  cases hb : s.localData with
  | none =>
    rw [saveLocals_none hb] at h
    obtain rfl := Except.ok.inj h
    refine ⟨⟨rfl, rfl, fun m hm => hm⟩, rfl, rfl, rfl, rfl, fun _ e he => ?_⟩
    rw [IpcState.size_eq_zero (hnone hb) he]
    exact Driver.not_mappedAt_zero _ _
  | some buf =>
    obtain ⟨hsize, hpos⟩ := hbuf buf hb
    rw [saveLocals_eq hfns hb hpos hsize.ge] at h
    split_ifs at h with hcopies
    obtain rfl := Except.ok.inj h
    obtain ⟨hdrv, hexports⟩ := IpcState.localPass (s := s.ipc) (by rw [hfns.release, hfns.dtoh]; rfl) hfns.unmap hsize.ge
    rw [if_pos hcopies] at hdrv
    refine ⟨s.ipc.shrunk_saveLocals buf, s.ipc.saveLocals_imports buf, hexports, rfl,
      s.ipc.localEntries_saveLocals buf, fun hans e he => ?_⟩
    show (s.ipc.ipcSaveAndTeardownLocalAllocs buf).2.1.drv.mappedAt _ _ = false
    rw [hdrv]
    exact (hans buf rfl).unmapped (t := e.target) (List.mem_map_of_mem (s.ipc.perm_deviceOrder.mem_iff.2 he))

end Passes

/-! ### The property and the condition -/

/-- Nothing that `s` tracks is mapped, with the extent that is recorded for it, or enabled in `s'`. -/
structure NothingLeft (s s' : GcrProcess) : Prop where
  imports : ∀ rec ∈ s.ipc.imports, rec.tornDown = false → s'.ipc.drv.mappedAt rec.mappedVaddr rec.size = false
  exports : ∀ rec ∈ s.ipc.exports, rec.tornDown = false → rec.hasMapping = true →
    s'.ipc.drv.mappedAt rec.mappedVaddr rec.mappedSize = false
  locals : ∀ e ∈ s.ipc.localEntries, s'.ipc.drv.mappedAt e.vaddr e.size = false
  peers : ∀ dev ∈ s.peers.peerAccessDevices, dev ∉ s'.peers.enabled

/-- Neither what was tracked before nor what is tracked now is left. -/
def TornDown (s s' : GcrProcess) : Prop := s.NothingLeft s' ∧ s'.NothingLeft s'

/-- The driver fails no unmapping of the three passes and no disabling of a peer. -/
structure UnmapsAnswered (s : GcrProcess) (c : PrepareAnswers) : Prop where
  imports : (s.ipc.withEnv c.env).drv.Answers s.ipc.importTargets
  exports : ∀ buf, (s.atExports c).exportData = some buf →
    ((s.atExports c).ipc.afterExportCopies buf).Answers (s.atExports c).ipc.exportTargets
  locals : ∀ t buf, (s.atExports c).saveExports = .ok t → (t.atLocals c).localData = some buf →
    (t.ipc.afterLocalCopies buf).Answers t.ipc.localTargets
  peers : ∀ i < s.peers.peerAccessDevices.toList.length, s.peers.fails (s.peers.clock + i) = false

section Prepare
variable {s : GcrProcess} {c : PrepareAnswers}

theorem ipc_atExports (s : GcrProcess) (c : PrepareAnswers) : (s.atExports c).ipc = (s.ipc.withEnv c.env).teardownAllImports :=
  rfl

/-- The three passes, from whatever state. -/
theorem tornDown_of_run (hfns : s.ipc.fns.Resolved) (hans : s.UnmapsAnswered c) {s' : GcrProcess}
    (h : s.teardownRun c = .ok s') :
    TornDown s { s' with peers := s'.peers.ipcDisableAllPeerAccess, prepared := true } := by
  obtain ⟨t, halloc, hsave, halloc', hsave'⟩ := teardownRun_ok hfns h
  have hfns₁ : (s.atExports c).ipc.fns.Resolved := hfns
  have hfns₂ : t.ipc.fns.Resolved := by
    have hkept := (s.atExports c).kept_saveExports
    rw [hsave] at hkept
    have heq : t.ipc.fns = (s.atExports c).ipc.fns := hkept.fns
    rw [heq]
    exact hfns₁
  have hexp := exportsPassed (t := t) hfns₁
    (fun buf hbuf => by
      obtain ⟨rfl, hpos⟩ := allocateBuffer_some hbuf
      exact ⟨rfl, hpos⟩)
    (fun hbuf => allocateBuffer_none halloc hbuf) hsave
  have hloc := localsPassed (s := t.atLocals c) hfns₂
    (fun buf hbuf => by
      obtain ⟨rfl, hpos⟩ := allocateBuffer_some hbuf
      exact ⟨rfl, hpos⟩)
    (fun hbuf => allocateBuffer_none halloc' hbuf) hsave'
  -- no pass maps anything
  have hnot : ∀ {d : Driver} {va n : Nat}, d.Shrunk s'.ipc.drv → d.mappedAt va n = false → s'.ipc.drv.mappedAt va n = false := by
    intro d va n hd hnot
    by_contra hat
    rw [Bool.not_eq_false] at hat
    exact absurd (hnot.symm.trans (hd.mappedAt hat)) Bool.false_ne_true
  have hshrunk : t.ipc.drv.Shrunk s'.ipc.drv := hloc.shrunk
  have hlocals : s'.ipc.localEntries = s.ipc.localEntries := hloc.locals.trans hexp.locals
  have hunmapped : ∀ e ∈ s.ipc.localEntries, s'.ipc.drv.mappedAt e.vaddr e.size = false := by
    intro e he
    exact hloc.unmapped (fun buf hbuf => hans.locals t buf hsave hbuf) e (hexp.locals ▸ he)
  have htorn : ∀ rec ∈ s'.ipc.imports, rec.tornDown = true := by
    intro rec hrec
    have hrec : rec ∈ (s.ipc.withEnv c.env).teardownAllImports.imports := hexp.imports ▸ hloc.imports ▸ hrec
    exact IpcState.teardownAllImports_torn (s := s.ipc.withEnv c.env) hfns.release rec hrec
  refine ⟨⟨fun rec hrec htorn => ?_, fun rec hrec htorn hmap => ?_, hunmapped, fun dev hdev => ?_⟩,
    fun rec hrec hlive => ?_, fun rec hrec hlive hmap => ?_, fun e he => hunmapped e (hlocals ▸ he), fun dev hdev => ?_⟩
  · refine hnot (hexp.shrunk.trans hshrunk) ?_
    rw [ipc_atExports, IpcState.teardownAllImports_eq (s := s.ipc.withEnv c.env) hfns]
    exact hans.imports.unmapped (t := rec.target) (List.mem_map_of_mem (List.mem_filter.2 ⟨hrec, by simp [htorn]⟩))
  · exact hnot hshrunk (hexp.unmapped hans.exports rec hrec htorn hmap)
  · have hpeers : s'.peers = s.peers := hloc.peers.trans hexp.peers
    intro hin
    have hgone := PeerState.foldl_realDisable_gone s.peers.peerAccessDevices.toList
      { s.peers with savedPeerAccessDevices := s.peers.peerAccessDevices } hans.peers dev
    refine (hgone ?_).2 (ExtTreeSet.mem_toList.2 hdev)
    rw [← hpeers]
    exact hin
  · rw [htorn rec hrec] at hlive
    exact absurd hlive (by simp)
  · have hrec : rec ∈ t.ipc.exports := hloc.exports ▸ hrec
    rw [hexp.torn rec hrec hlive hmap]
    exact Driver.not_mappedAt_zero _ _
  · exact absurd hdev ExtTreeSet.not_mem_empty

end Prepare

/-- **Prepare's success means torn down**, unless a prepare that has returned `0` still waits for its `restore_import`:
then the call does nothing. Otherwise nothing that was or is tracked is mapped or enabled, if the driver has failed no
unmapping and no disabling. -/
theorem tornDown_of_prepare (s₀ : GcrProcess) (hfns : s₀.ipc.fns.Resolved) (hstart : s₀.prepared = false)
    (events : List GcrEvent) (c : PrepareAnswers) (hret : ((run step s₀ events).gcrCheckpointPrepare c).1 = 0) :
    (s₀.outstanding false events = true → ((run step s₀ events).gcrCheckpointPrepare c).2 = run step s₀ events) ∧
      (s₀.outstanding false events = false → (run step s₀ events).UnmapsAnswered c →
        (run step s₀ events).TornDown ((run step s₀ events).gcrCheckpointPrepare c).2) := by
  obtain ⟨hflag, hrun⟩ := s₀.run_spec events
  rw [hstart] at hflag
  rw [← hflag]
  generalize run step s₀ events = s at hret hrun
  have hfns' : s.ipc.fns.Resolved := hrun ▸ hfns
  unfold gcrCheckpointPrepare at hret ⊢
  cases hprep : s.prepared with
  | true => exact ⟨fun _ => rfl, fun h => absurd h (by simp)⟩
  | false =>
    refine ⟨fun h => absurd h Bool.false_ne_true, fun _ hans => ?_⟩
    rw [hprep, if_neg Bool.false_ne_true] at hret
    rw [if_neg Bool.false_ne_true]
    unfold prepareRun at hret ⊢
    cases hrun : s.teardownRun c with
    | error t =>
      rw [hrun] at hret
      exact absurd (show (-1 : Int) = 0 from hret) (by decide)
    | ok t => exact tornDown_of_run hfns' hans hrun

/-! ### One export -/

def start : GcrProcess := ⟨HookedProcess.empty, PeerState.start, none, none, false⟩

/-- Access to a peer and an allocation that is exported. -/
def exportEvents : List GcrEvent := .enablePeer 1 :: HookedProcess.exportHistory.map .call

/-- Everything succeeds but the calls of the driver that `fails` names. -/
def answering (fails : Nat → Bool) : PrepareAnswers :=
  ⟨⟨fails, id, fun _ _ => 0xAA⟩, true, true, fun _ => 0, true, true, fun _ => 0⟩

def restoring : RestoreExportAnswers := ⟨⟨fun _ => false, id, fun _ _ => 0xAA⟩, true, true, true⟩

theorem unmapsAnswered_exportEvents : (run step start exportEvents).UnmapsAnswered (answering fun _ => false) := by
  refine ⟨trivial, fun buf hbuf => ?_, fun t buf ht hbuf => ?_, fun i hi => rfl⟩
  · obtain rfl := Option.some.inj hbuf
    exact ⟨rfl, trivial⟩
  · obtain rfl := Except.ok.inj ht
    exact absurd (show (none : Option HostBuf) = some buf from hbuf) (by simp)

theorem tornDown_exportEvents : (run step start exportEvents).TornDown
    ((run step start exportEvents).gcrCheckpointPrepare (answering fun _ => false)).2 :=
  (tornDown_of_prepare start ⟨rfl, rfl, rfl⟩ rfl exportEvents (answering fun _ => false) (by decide)).2 (by decide)
    unmapsAnswered_exportEvents

/-- A second prepare after `restore_export` returns `0` with the export mapped. And so does a first one whose driver fails
the unmapping, call `10`. -/
theorem not_tornDown_of_prepare :
    (¬ ∀ (s₀ : GcrProcess) (events : List GcrEvent) (c : PrepareAnswers), s₀.ipc.fns.Resolved → s₀.prepared = false →
      ((run step s₀ events).gcrCheckpointPrepare c).1 = 0 →
        (run step s₀ events).TornDown ((run step s₀ events).gcrCheckpointPrepare c).2) ∧
    ((run step start exportEvents).gcrCheckpointPrepare (answering fun n => n == 10)).1 = 0 ∧
    ¬ (run step start exportEvents).TornDown
      ((run step start exportEvents).gcrCheckpointPrepare (answering fun n => n == 10)).2 := by
  refine ⟨fun h => ?_, by decide, fun h => ?_⟩
  · have hleft := (h start (exportEvents ++ [.prepare (answering fun _ => false), .restoreExport restoring])
      (answering fun _ => false) ⟨rfl, rfl, rfl⟩ rfl (by decide)).1.exports
    revert hleft
    decide
  · have hleft := h.1.exports
    revert hleft
    decide

end GcrProcess

end GpuCr
