import GpuCr.Ipc.Descriptors

/-!
# A process over several cycles

Hooked calls and the functions of the teardown and the rebuild, in any order and with any buffers. A
function of the teardown adds no handle, and one of the rebuild keeps all that are live.
-/

namespace GpuCr

open Lib.Run Lib.Grouping Std

/-! ### What happens to handles -/

namespace Driver

theorem Same.sameView {d d' : Driver} (h : d.Same d') : d.SameView d' := sameView_of_eq h.maps h.live

/-- No handle is added. -/
def Drops (d d' : Driver) : Prop := ∀ h, d'.isLive h = true → d.isLive h = true

/-- The live handles stay, and null is not added to them. -/
structure Adds (d d' : Driver) : Prop where
  keeps : ∀ h, d.isLive h = true → d'.isLive h = true
  null : d.isLive 0 = false → d'.isLive 0 = false

theorem SameView.drops {d d' : Driver} (h : d.SameView d') : d.Drops d' := fun k hk => (h.live k).symm.trans hk

theorem SameView.adds {d d' : Driver} (h : d.SameView d') : d.Adds d' :=
  ⟨fun k hk => (h.live k).trans hk, fun hnull => (h.live 0).trans hnull⟩

theorem Drops.trans {d d' d'' : Driver} (h : d.Drops d') (h' : d'.Drops d'') : d.Drops d'' :=
  fun k hk => h k (h' k hk)

theorem Adds.trans {d d' d'' : Driver} (h : d.Adds d') (h' : d'.Adds d'') : d.Adds d'' :=
  ⟨fun k hk => h'.keeps k (h.keeps k hk), fun hnull => h'.null (h.null hnull)⟩

theorem Drops.null {d d' : Driver} (h : d.Drops d') (hnull : d.isLive 0 = false) : d'.isLive 0 = false := by
  by_contra hlive
  rw [Bool.not_eq_false] at hlive
  exact absurd (hnull.symm.trans (h 0 hlive)) Bool.false_ne_true

theorem drops_cuMemUnmap (d : Driver) (va size : Nat) : d.Drops (d.cuMemUnmap va size).2 := by
  intro k hk
  rcases d.cuMemUnmap_view va size with ⟨-, hd⟩ | ⟨-, hd⟩
  · exact (hd.live k).symm.trans hk
  · exact (hd.live k).symm.trans hk

theorem drops_cuMemRelease (d : Driver) (handle : Nat) : d.Drops (d.cuMemRelease handle).2 := by
  intro k hk
  rcases d.cuMemRelease_view handle with ⟨-, hd⟩ | ⟨-, hd⟩
  · exact (hd.live k).symm.trans hk
  · rw [hd.live, Bool.and_eq_true] at hk
    exact hk.1

theorem drops_keptByTeardown : KeptByTeardown Drops where
  same h := h.sameView.drops
  trans := Drops.trans
  unmap := drops_cuMemUnmap
  release := drops_cuMemRelease

theorem sameView_foldl_setAccess (va size : Nat) (access : List CUmemAccessDesc) (d : Driver) :
    d.SameView (access.foldl (fun d _ => (d.cuMemSetAccess va size).2) d) := by
  induction access generalizing d with
  | nil => exact sameView_of_eq rfl rfl
  | cons ad access ih =>
    have h1 := d.cuMemSetAccess_view va size
    have h2 := ih (d.cuMemSetAccess va size).2
    exact ⟨fun a n => (h2.mapped a n).trans (h1.mapped a n), fun k => (h2.live k).trans (h1.live k)⟩

theorem NewHandle.adds {d d' : Driver} {h : Nat} (hnew : d.NewHandle d' h) : d.Adds d' := by
  refine ⟨fun k hk => hnew.keeps hk, fun hnull => ?_⟩
  rw [hnew.live, hnull, Bool.false_or, beq_eq_false_iff_ne]
  exact hnew.ne_zero.symm

theorem NewHandle.adds_release {d d' d'' : Driver} {h : Nat} (hnew : d.NewHandle d' h) (hsame : d'.SameView d'') :
    d.Adds (d''.cuMemRelease h).2 := by
  refine ⟨fun k hk => ?_, fun hnull => ?_⟩
  · have hne : k ≠ h := by
      rintro rfl
      exact absurd (hnew.dead.symm.trans hk) Bool.false_ne_true
    have hlive := (hsame.live k).trans (hnew.adds.keeps k hk)
    rcases d''.cuMemRelease_view h with ⟨-, hd⟩ | ⟨-, hd⟩
    · exact (hd.live k).trans hlive
    · rw [hd.live, hlive, Bool.true_and, bne_iff_ne]
      exact hne
  · exact (d''.drops_cuMemRelease h).null ((hsame.live 0).trans (hnew.adds.null hnull))

end Driver

/-! ### New memory -/

theorem RebuildItem.mapNew_adds (x : RebuildItem) (d : Driver) :
    d.Adds (x.mapNew d).2 ∧ ∀ h, (x.mapNew d).1 = some h → d.isLive h = false ∧ (x.mapNew d).2.isLive h = true := by
  have hcreate := d.cuMemCreate_view x.size
  unfold mapNew
  split
  case h_1 d₁ heq =>
    rw [heq] at hcreate
    obtain ⟨-, hd⟩ := hcreate.resolve_right (by simp)
    exact ⟨hd.adds, by simp⟩
  case h_2 newHandle d₁ heq =>
    rw [heq] at hcreate
    obtain ⟨-, h, heq', hnew⟩ := hcreate.resolve_left (by simp)
    obtain rfl := Option.some.inj heq'
    have hmap := d₁.cuMemMap_view x.vaddr x.size newHandle
    split
    case h_1 d₂ heq₂ =>
      rw [heq₂] at hmap
      obtain ⟨-, hd⟩ := hmap.resolve_right (by simp)
      exact ⟨hnew.adds_release hd, by simp⟩
    case h_2 d₂ heq₂ =>
      rw [heq₂] at hmap
      obtain ⟨-, hd⟩ := hmap.resolve_left (by simp)
      have hlive := fun k => ((Driver.sameView_foldl_setAccess x.vaddr x.size x.access d₂).live k).trans (hd.live k)
      refine ⟨⟨fun k hk => (hlive k).trans (hnew.adds.keeps k hk), fun hnull => (hlive 0).trans (hnew.adds.null hnull)⟩,
        fun h hh => ?_⟩
      obtain rfl := Option.some.inj hh
      refine ⟨hnew.dead, (hlive _).trans ?_⟩
      rw [hnew.live, beq_self_eq_true, Bool.or_true]

theorem foldl_item_adds (items : List RebuildItem) (r : AllocRun) :
    r.drv.Adds (items.foldl AllocRun.item r).drv ∧ ∀ e ∈ (items.foldl AllocRun.item r).entries,
      e ∈ r.entries ∨ r.drv.isLive e.newHandle = false ∧ (items.foldl AllocRun.item r).drv.isLive e.newHandle = true := by
  induction items generalizing r with
  | nil => exact ⟨⟨fun k hk => hk, fun h => h⟩, fun e he => Or.inl he⟩
  | cons x items ih =>
    obtain ⟨ih1, ih2⟩ := ih (r.item x)
    obtain ⟨hadds, hnew⟩ := x.mapNew_adds r.drv
    obtain ⟨hdrv, hentries⟩ := r.item_spec x
    rw [← hdrv] at hadds hnew
    refine ⟨hadds.trans ih1, fun e he => ?_⟩
    rcases ih2 e he with he | ⟨hdead, hlive⟩
    · rcases hentries with ⟨-, heq, -⟩ | ⟨newHandle, hsome, heq, -⟩
      · exact Or.inl (heq ▸ he)
      · rw [heq] at he
        rcases List.mem_append.1 he with he | he
        · exact Or.inl he
        · obtain rfl := List.mem_singleton.1 he
          obtain ⟨hdead, hlive⟩ := hnew newHandle hsome
          exact Or.inr ⟨hdead, ih1.keeps _ hlive⟩
    · refine Or.inr ⟨?_, hlive⟩
      by_contra hlive'
      rw [Bool.not_eq_false] at hlive'
      exact absurd (hdead.symm.trans (hadds.keeps _ hlive')) Bool.false_ne_true

theorem rebuildAlloc_adds (items : List RebuildItem) (d : Driver) :
    d.Adds (rebuildAlloc items d).drv ∧ ∀ e ∈ (rebuildAlloc items d).entries,
      d.isLive e.newHandle = false ∧ (rebuildAlloc items d).drv.isLive e.newHandle = true := by
  obtain ⟨hadds, hnew⟩ := foldl_item_adds items ⟨d, [], 0⟩
  exact ⟨hadds, fun e he => (hnew e he).resolve_left (by simp)⟩

/-! ### Imports -/

namespace Driver

section Import
variable (sizeOf : Nat → Nat)

theorem sameView_requestFds (block : List IpcExportShmEntry) (d : Driver) :
    d.SameView ((importOps sizeOf).requestFds block d).2 := by
  have hfold : ∀ (reqs : List (Int × List (IpcExportShmEntry × Nat))) (x : (Nat → Option Nat) × Driver),
      x.2.SameView (reqs.foldl (importOps sizeOf).requestPeer x).2 := by
    intro reqs
    induction reqs with
    | nil => exact fun x => sameView_of_eq rfl rfl
    | cons req reqs ih =>
      intro x
      have h := ih ((importOps sizeOf).requestPeer x req)
      exact ⟨h.mapped, h.live⟩
  exact hfold _ (fun _ => none, d)

theorem sameView_replayAccess (hasSetAccess : Bool) (rec : IpcImportRecord) (d : Driver) :
    d.SameView ((importOps sizeOf).replayAccess hasSetAccess rec d) := by
  unfold ImportOps.replayAccess
  split_ifs
  · exact sameView_foldl_setAccess rec.mappedVaddr rec.size rec.allAccess d
  · exact d.cuMemSetAccess_view rec.mappedVaddr rec.size
  · exact sameView_of_eq rfl rfl

theorem rebuildImport_adds (hasSetAccess : Bool) (p : ImportOps.Progress Driver) (pair : (IpcImportRecord × Nat) × Nat) :
    p.state.Adds ((importOps sizeOf).rebuildImport hasSetAccess p pair).state ∧
      (((importOps sizeOf).rebuildImport hasSetAccess p pair).imports = p.imports ∨
        ∃ n, p.state.isLive n = false ∧ ((importOps sizeOf).rebuildImport hasSetAccess p pair).state.isLive n = true ∧
          ((importOps sizeOf).rebuildImport hasSetAccess p pair).imports =
            p.imports.modify pair.1.2 fun r => { r with handle := n, tornDown := false }) := by
  have hcreate := p.state.cuMemCreate_view (sizeOf pair.2)
  unfold ImportOps.rebuildImport
  dsimp only
  split
  case h_1 d₁ heq =>
    rw [show p.state.cuMemCreate (sizeOf pair.2) = (none, d₁) from heq] at hcreate
    obtain ⟨-, hd⟩ := hcreate.resolve_right (by simp)
    exact ⟨hd.adds, Or.inl rfl⟩
  case h_2 newHandle d₁ heq =>
    rw [show p.state.cuMemCreate (sizeOf pair.2) = (some newHandle, d₁) from heq] at hcreate
    obtain ⟨-, h, heq', hnew⟩ := hcreate.resolve_left (by simp)
    obtain rfl := Option.some.inj heq'
    have hmap := d₁.cuMemMap_view pair.1.1.mappedVaddr pair.1.1.size newHandle
    split
    case h_1 d₂ heq₂ =>
      rw [show d₁.cuMemMap _ _ newHandle = (false, d₂) from heq₂] at hmap
      obtain ⟨-, hd⟩ := hmap.resolve_right (by simp)
      exact ⟨hnew.adds_release hd, Or.inl rfl⟩
    case h_2 d₂ heq₂ =>
      rw [show d₁.cuMemMap _ _ newHandle = (true, d₂) from heq₂] at hmap
      obtain ⟨-, hd⟩ := hmap.resolve_left (by simp)
      have hlive := fun k => ((sameView_replayAccess sizeOf hasSetAccess pair.1.1 d₂).live k).trans (hd.live k)
      refine ⟨⟨fun k hk => (hlive k).trans (hnew.adds.keeps k hk), fun hnull => (hlive 0).trans (hnew.adds.null hnull)⟩,
        Or.inr ⟨newHandle, hnew.dead, (hlive newHandle).trans ?_, rfl⟩⟩
      rw [hnew.live, beq_self_eq_true, Bool.or_true]

theorem foldl_rebuildImport_adds (hasSetAccess : Bool) (pairs : List ((IpcImportRecord × Nat) × Nat))
    (p : ImportOps.Progress Driver) :
    p.state.Adds (pairs.foldl ((importOps sizeOf).rebuildImport hasSetAccess) p).state := by
  induction pairs generalizing p with
  | nil => exact (sameView_of_eq rfl rfl).adds
  | cons pair pairs ih => exact (rebuildImport_adds sizeOf hasSetAccess p pair).1.trans (ih _)

end Import

end Driver

/-! ### The stages -/

/-- The functions of the teardown and of the rebuild, with what they are given. -/
inductive CycleStage where
  | teardownImports
  | saveExports (buf : HostBuf)
  | saveLocals (buf : HostBuf)
  | rebuildExports (buf : HostBuf)
  | rebuildLocals (buf : HostBuf)
  | importPeers (sizeOf : Nat → Nat) (block : List IpcExportShmEntry)

namespace IpcState

def teardownAllImports (s : IpcState) : IpcState :=
  let r := (Driver.importOps fun _ => 0).ipcTeardownAllImports s.fns.cuMemRelease s.imports s.drv
  { s with imports := r.2.1, drv := r.2.2 }

theorem teardownAllImports_torn {s : IpcState} (hfns : s.fns.cuMemRelease = true) :
    ∀ rec ∈ s.teardownAllImports.imports, rec.tornDown = true := by
  unfold teardownAllImports ImportOps.ipcTeardownAllImports
  rw [hfns]
  dsimp only
  rw [Bool.not_true, if_neg Bool.false_ne_true, ImportOps.teardownImports_fst]
  intro rec hrec
  obtain ⟨rec₀, -, rfl⟩ := List.mem_map.1 hrec
  split_ifs with htorn
  · exact htorn
  · rfl

theorem saveExports_torn {s : IpcState} {buf : HostBuf} (hok : (s.ipcSaveAndTeardownAllExports buf).1 ≠ none) {i : Nat}
    {rec' : IpcExportRecord} (hrec' : (s.ipcSaveAndTeardownAllExports buf).2.1.exports[i]? = some rec') :
    ∃ rec, s.exports[i]? = some rec ∧ rec'.appLocalHandle = rec.appLocalHandle ∧ rec'.hasMapping = rec.hasMapping ∧
      (rec.hasMapping = true → rec'.tornDown = true) := by
  unfold ipcSaveAndTeardownAllExports at hok hrec'
  dsimp only at hok hrec'
  split_ifs at hok hrec'
  · exact absurd rfl hok
  · exact absurd rfl hok
  · exact absurd rfl hok
  · rw [List.getElem?_map, List.getElem?_map] at hrec'
    obtain ⟨rec₁, hrec₁, rfl⟩ := Option.map_eq_some_iff.1 hrec'
    obtain ⟨rec₂, hrec₂, rfl⟩ := Option.map_eq_some_iff.1 hrec₁
    have hrec : ∃ rec, s.exports[i]? = some rec ∧ rec₂.appLocalHandle = rec.appLocalHandle ∧ rec₂.hasMapping = rec.hasMapping := by
      obtain ⟨rec, hrec, ⟨rfl, -⟩ | ⟨x, -, -, rfl⟩⟩ := foldl_recordOffset _ _ hrec₂
      · exact ⟨_, hrec, rfl, rfl⟩
      · exact ⟨rec, hrec, rfl, rfl⟩
    obtain ⟨rec, hrec, happ, hmap⟩ := hrec
    obtain ⟨fd, hfd⟩ := closeFd_eq rec₂
    refine ⟨rec, hrec, ?_⟩
    rw [hfd, markTorn]
    split_ifs with hskip
    · refine ⟨happ, hmap, fun hm => ?_⟩
      rw [show ({ rec₂ with exportedFd := fd } : IpcExportRecord).hasMapping = rec.hasMapping from hmap, hm, Bool.not_true,
        Bool.or_false] at hskip
      exact hskip
    · exact ⟨happ, hmap, fun _ => rfl⟩

theorem saveExports_imports (s : IpcState) (buf : HostBuf) :
    (s.ipcSaveAndTeardownAllExports buf).2.1.imports = s.imports := by
  unfold ipcSaveAndTeardownAllExports
  dsimp only
  split_ifs <;> rfl

theorem saveLocals_imports (s : IpcState) (buf : HostBuf) :
    (s.ipcSaveAndTeardownLocalAllocs buf).2.1.imports = s.imports := by
  unfold ipcSaveAndTeardownLocalAllocs
  dsimp only
  split_ifs <;> rfl

def importFromBlock (s : IpcState) (sizeOf : Nat → Nat) (block : List IpcExportShmEntry) : IpcState :=
  let r := (Driver.importOps sizeOf).ipcImportFromShmBlock (s.fns.cuMemImport && s.fns.cuMemMap)
    s.fns.cuMemSetAccess block s.imports s.drv
  { s with imports := r.2.1, drv := r.2.2 }

def stage (s : IpcState) : CycleStage → IpcState
  | .teardownImports => s.teardownAllImports
  | .saveExports buf => (s.ipcSaveAndTeardownAllExports buf).2.1
  | .saveLocals buf => (s.ipcSaveAndTeardownLocalAllocs buf).2.1
  | .rebuildExports buf => (s.ipcRebuildAndRestoreAllExports buf).2
  | .rebuildLocals buf => (s.ipcRebuildLocalAllocs buf).2
  | .importPeers sizeOf block => s.importFromBlock sizeOf block

/-- The handler does nothing else to the tables. -/
theorem stage_of_step (w : IpcWorkerState) (st : IpcStage) :
    (w.step st).ipc = w.ipc ∨ ∃ c, (w.step st).ipc = w.ipc.stage c := by
  cases st with
  | teardownImports => exact Or.inr ⟨.teardownImports, rfl⟩
  | allocExportBuf =>
    left
    show w.allocExportBuf.ipc = w.ipc
    unfold IpcWorkerState.allocExportBuf
    split_ifs <;> rfl
  | saveExports =>
    show w.saveExports.ipc = w.ipc ∨ ∃ c, w.saveExports.ipc = w.ipc.stage c
    unfold IpcWorkerState.saveExports
    split
    · exact Or.inl rfl
    case h_2 buf _ =>
      split_ifs
      · exact Or.inr ⟨.saveExports buf, rfl⟩
      · exact Or.inl rfl
  | allocLocalBuf =>
    left
    show w.allocLocalBuf.ipc = w.ipc
    unfold IpcWorkerState.allocLocalBuf
    split_ifs <;> rfl
  | saveLocals =>
    show w.saveLocals.ipc = w.ipc ∨ ∃ c, w.saveLocals.ipc = w.ipc.stage c
    unfold IpcWorkerState.saveLocals
    split
    · exact Or.inl rfl
    case h_2 buf _ =>
      split_ifs
      · exact Or.inr ⟨.saveLocals buf, rfl⟩
      · exact Or.inl rfl
  | restoreExports =>
    show w.restoreExports.ipc = w.ipc ∨ ∃ c, w.restoreExports.ipc = w.ipc.stage c
    unfold IpcWorkerState.restoreExports
    split
    · exact Or.inl rfl
    case h_2 buf _ =>
      split_ifs
      · exact Or.inr ⟨.rebuildExports buf, rfl⟩
      · exact Or.inl rfl
  | restoreLocals =>
    show w.restoreLocals.ipc = w.ipc ∨ ∃ c, w.restoreLocals.ipc = w.ipc.stage c
    unfold IpcWorkerState.restoreLocals
    split
    · exact Or.inl rfl
    case h_2 buf _ =>
      split_ifs
      · exact Or.inr ⟨.rebuildLocals buf, rfl⟩
      · exact Or.inl rfl
  | importPeers sizeOf block =>
    show (w.importPeers sizeOf block).ipc = w.ipc ∨ ∃ c, (w.importPeers sizeOf block).ipc = w.ipc.stage c
    unfold IpcWorkerState.importPeers
    split_ifs
    · exact Or.inl rfl
    · exact Or.inr ⟨.importPeers sizeOf block, rfl⟩

section Handles
variable {s : IpcState}

theorem keptByTeardown_imports {R : Driver → Driver → Prop} (h : Driver.KeptByTeardown R) (s : IpcState) :
    R s.drv s.teardownAllImports.drv := by
  unfold teardownAllImports ImportOps.ipcTeardownAllImports
  split_ifs
  · exact h.same (Driver.Same.refl s.drv)
  · show R s.drv ((Driver.importOps fun _ => 0).teardownImports s.imports s.drv).2
    rw [teardownImports_eq]
    exact h.run_tearStep _ _

theorem sameView_rebuildCopy (fns : IpcFns) (buf : HostBuf) (items : List RebuildItem) (d : Driver) :
    (rebuildAlloc items d).drv.SameView (rebuildCopy fns buf (rebuildAlloc items d)).drv := by
  have htracks : (rebuildAlloc items d).Tracks d := (AllocRun.tracks_start d 0).foldl items
  have hcopy := rebuildCopy_spec fns buf htracks.apart
  exact Driver.sameView_of_eq hcopy.maps hcopy.live

theorem sameView_rebuildExports (hfns : (s.fns.cuMemCreate && s.fns.cuMemMap && s.fns.cuMemcpyHtoD &&
    s.fns.cuMemAddressReserve) = true) (buf : HostBuf) :
    (rebuildAlloc s.exportItems s.drv).drv.SameView (s.ipcRebuildAndRestoreAllExports buf).2.drv := by
  have hcopy := sameView_rebuildCopy s.fns buf s.exportItems s.drv
  rw [ipcRebuildAndRestoreAllExports, hfns]
  have htrack := same_foldl_trackExport (rebuildAlloc s.exportItems s.drv).ordered
    { s with drv := (rebuildCopy s.fns buf (rebuildAlloc s.exportItems s.drv)).drv }
  exact ⟨fun a n => (htrack.sameView.mapped a n).trans (hcopy.mapped a n),
    fun k => (htrack.sameView.live k).trans (hcopy.live k)⟩

theorem sameView_rebuildLocals (hfns : (s.fns.cuMemCreate && s.fns.cuMemMap && s.fns.cuMemcpyHtoD) = true)
    (buf : HostBuf) : (rebuildAlloc s.localItems s.drv).drv.SameView (s.ipcRebuildLocalAllocs buf).2.drv := by
  have hcopy := sameView_rebuildCopy s.fns buf s.localItems s.drv
  rw [ipcRebuildLocalAllocs, hfns]
  show Driver.SameView _ (List.foldl trackLocal _ _).drv
  rw [foldl_trackLocal_drv]
  exact hcopy

theorem adds_rebuildExports (s : IpcState) (buf : HostBuf) : s.drv.Adds (s.ipcRebuildAndRestoreAllExports buf).2.drv := by
  cases hfns : s.fns.cuMemCreate && s.fns.cuMemMap && s.fns.cuMemcpyHtoD && s.fns.cuMemAddressReserve with
  | false =>
    rw [ipcRebuildAndRestoreAllExports, hfns]
    exact (Driver.sameView_of_eq rfl rfl).adds
  | true => exact (rebuildAlloc_adds _ _).1.trans (sameView_rebuildExports hfns buf).adds

theorem adds_rebuildLocals (s : IpcState) (buf : HostBuf) : s.drv.Adds (s.ipcRebuildLocalAllocs buf).2.drv := by
  cases hfns : s.fns.cuMemCreate && s.fns.cuMemMap && s.fns.cuMemcpyHtoD with
  | false =>
    rw [ipcRebuildLocalAllocs, hfns]
    exact (Driver.sameView_of_eq rfl rfl).adds
  | true => exact (rebuildAlloc_adds _ _).1.trans (sameView_rebuildLocals hfns buf).adds

theorem adds_importFromBlock (s : IpcState) (sizeOf : Nat → Nat) (block : List IpcExportShmEntry) :
    s.drv.Adds (s.importFromBlock sizeOf block).drv := by
  unfold importFromBlock ImportOps.ipcImportFromShmBlock
  split_ifs
  · exact (Driver.sameView_of_eq rfl rfl).adds
  · exact (Driver.sameView_of_eq rfl rfl).adds
  · exact (Driver.sameView_requestFds sizeOf block s.drv).adds.trans
      (Driver.foldl_rebuildImport_adds sizeOf s.fns.cuMemSetAccess _ ⟨s.imports, 0, _⟩)

theorem stage_null (hnull : s.drv.isLive 0 = false) (st : CycleStage) : (s.stage st).drv.isLive 0 = false := by
  cases st with
  | teardownImports => exact (keptByTeardown_imports Driver.drops_keptByTeardown s).null hnull
  | saveExports buf => exact (Driver.drops_keptByTeardown.saveExports s buf).null hnull
  | saveLocals buf => exact (Driver.drops_keptByTeardown.saveLocals s buf).null hnull
  | rebuildExports buf => exact (s.adds_rebuildExports buf).null hnull
  | rebuildLocals buf => exact (s.adds_rebuildLocals buf).null hnull
  | importPeers sizeOf block => exact (s.adds_importFromBlock sizeOf block).null hnull

end Handles

end IpcState

/-! ### Runs -/

inductive CycleEvent where
  | call (c : HookCall)
  | stage (st : CycleStage)

namespace HookedProcess

/-- A stage works on the tables; what the driver holds is not followed here. -/
def cycleStep (s : HookedProcess) : CycleEvent → HookedProcess
  | .call c => s.call c
  | .stage st => { s with ipc := s.ipc.stage st }

end HookedProcess

end GpuCr
