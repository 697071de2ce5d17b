import GpuCr.Ipc.Classify

/-!
# The application's handles after a cycle

Only the rebuild of exports writes aliases. The rebuild of local allocations moves its tables to the new
handles and that of imports writes the new handle into the record, so that the value the application has
stands for the rebuilt memory only if the driver happens to hand out that value again.
-/

namespace GpuCr

open Lib.Run Lib.Grouping Std

/-- What a cycle is given: the buffers of the saves and of the rebuilds, and the block of the peers. -/
structure CycleInput where
  exportBuf : HostBuf
  localBuf : HostBuf
  exportCopy : HostBuf
  localCopy : HostBuf
  sizeOf : Nat → Nat
  block : List IpcExportShmEntry

namespace IpcState

def atExportSave (s : IpcState) : IpcState := s.stage .teardownImports

def atLocalSave (s : IpcState) (c : CycleInput) : IpcState := s.atExportSave.stage (.saveExports c.exportBuf)

def tornDown (s : IpcState) (c : CycleInput) : IpcState := (s.atLocalSave c).stage (.saveLocals c.localBuf)

def exportsBack (s : IpcState) (c : CycleInput) : IpcState := (s.tornDown c).stage (.rebuildExports c.exportCopy)

def localsBack (s : IpcState) (c : CycleInput) : IpcState := (s.exportsBack c).stage (.rebuildLocals c.localCopy)

def importsBack (s : IpcState) (c : CycleInput) : IpcState := (s.localsBack c).stage (.importPeers c.sizeOf c.block)

/-- None of the three functions of the teardown returns an error. -/
structure TearsDown (s : IpcState) (c : CycleInput) : Prop where
  imports : s.fns.cuMemRelease = true
  exports : (s.atExportSave.ipcSaveAndTeardownAllExports c.exportBuf).1 ≠ none
  locals : ((s.atLocalSave c).ipcSaveAndTeardownLocalAllocs c.localBuf).1 ≠ none

/-- `k` is the application's handle of a local allocation that is not exported, and `n` the handle after
the cycle. -/
def LocalCarried (s : IpcState) (c : CycleInput) (k n : Nat) : Prop :=
  (∀ rec ∈ s.exports, rec.localHandle ≠ k) ∧ k ≠ 0 ∧ ∃ (i : Nat) (rec rec' : CuMemLocalAllocRecord),
    (s.tornDown c).localAllocs[i]? = some rec ∧ rec.handle = k ∧
      (s.importsBack c).localAllocs[i]? = some rec' ∧ rec'.tornDown = false ∧ rec'.handle = n

/-- The same for an import that is not released. -/
def ImportCarried (s : IpcState) (c : CycleInput) (k n : Nat) : Prop :=
  k ≠ 0 ∧ ∃ (i : Nat) (rec rec' : IpcImportRecord), s.imports[i]? = some rec ∧ rec.tornDown = false ∧ rec.handle = k ∧
    (s.importsBack c).imports[i]? = some rec' ∧ rec'.tornDown = false ∧ rec'.handle = n

def Carried (s : IpcState) (c : CycleInput) (k n : Nat) : Prop := s.LocalCarried c k n ∨ s.ImportCarried c k n

/-- No export with the application's handle `k` comes back. -/
def NoExportBack (s : IpcState) (c : CycleInput) (k : Nat) : Prop :=
  ∀ (i : Nat) (rec rec' : IpcExportRecord), s.exports[i]? = some rec → rec.appLocalHandle = k → rec.hasMapping = true →
    (s.importsBack c).exports[i]? = some rec' → rec'.tornDown = true

end IpcState

namespace HookedProcess

def afterCycle (p : HookedProcess) (c : CycleInput) : HookedProcess := { p with ipc := p.ipc.importsBack c }

/-- A release of `k` releases `n` and nothing else. -/
def ReleasesExactly (p : HookedProcess) (k n : Nat) : Prop :=
  p.ipc.drv.isLive n = true ∧ ∀ h, (p.call (.release k)).ipc.drv.isLive h = (p.ipc.drv.isLive h && h != n)

/-- Every handle of the application releases what it stands for, so that nothing is left when all are
released. -/
structure Usable (p : HookedProcess) (c : CycleInput) : Prop where
  releases : ∀ k n, p.ipc.Carried c k n → (p.afterCycle c).ReleasesExactly k n
  noneLeft : ∀ ks : List Nat, (∀ k n, p.ipc.Carried c k n → k ∈ ks) → ∀ k n, p.ipc.Carried c k n →
    (run call (p.afterCycle c) (ks.map .release)).ipc.drv.isLive n = false

end HookedProcess

/-! ### What the rebuilds leave -/

namespace IpcState

section Rebuild
variable {s : IpcState}

/-- Phase C makes the records that it comes to live, and gives each an alias unless its handle is the
application's own. -/
structure TracksBack (entries : List RebuildEntry) (s t : IpcState) : Prop where
  aliases : ∀ h : Nat, s.rebuiltHandleAlias[h]? ≠ none → t.rebuiltHandleAlias[h]? ≠ none
  live : ∀ (i : Nat) (rec : IpcExportRecord), s.exports[i]? = some rec → rec.tornDown = false →
    ∃ rec', t.exports[i]? = some rec' ∧ rec'.tornDown = false
  back : ∀ (i : Nat) (rec' : IpcExportRecord), t.exports[i]? = some rec' → rec'.tornDown = false →
    ∃ rec, s.exports[i]? = some rec ∧ (rec.tornDown = false ∨ ∃ e ∈ entries, e.slot.key = i)
  entry : ∀ e ∈ entries, ∀ rec, s.exports[e.slot.key]? = some rec →
    (∃ rec', t.exports[e.slot.key]? = some rec' ∧ rec'.tornDown = false) ∧
      (rec.appLocalHandle ≠ 0 → rec.appLocalHandle ≠ e.newHandle → t.rebuiltHandleAlias[rec.appLocalHandle]? ≠ none)

theorem tracksBack_trackExport (s : IpcState) (e : RebuildEntry) : TracksBack [e] s (s.trackExport e) := by
  cases hrec : s.exports[e.slot.key]? with
  | none =>
    rw [trackExport_none hrec]
    refine ⟨fun h hne => hne, fun i rec hrec htorn => ⟨rec, hrec, htorn⟩, fun i rec hrec htorn => ⟨rec, hrec, Or.inl htorn⟩,
      fun e' he' rec hrec' => ?_⟩
    obtain rfl := List.mem_singleton.1 he'
    exact absurd (hrec.symm.trans hrec') (by simp)
  | some rec =>
    obtain ⟨⟨fd, hexports⟩, halias⟩ := trackExport_eq hrec
    have hlt := (List.getElem?_eq_some_iff.1 hrec).1
    have hself : (s.trackExport e).exports[e.slot.key]? = some (FdProcess.rebuiltRecord rec e.newHandle fd) := by
      rw [hexports, List.getElem?_set_self hlt]
    have hne : ∀ i, i ≠ e.slot.key → (s.trackExport e).exports[i]? = s.exports[i]? := by
      intro i hi
      rw [hexports, List.getElem?_set_ne hi.symm]
    refine ⟨fun h hh => ?_, fun i rec' hrec' htorn => ?_, fun i rec' hrec' htorn => ?_, fun e' he' rec' hrec' => ?_⟩
    · rw [halias]
      split_ifs
      · rw [getElem?_insert_key]
        split_ifs
        · simp
        · exact hh
      · exact hh
    · by_cases hi : i = e.slot.key
      · subst hi
        exact ⟨_, hself, rfl⟩
      · exact ⟨rec', (hne i hi).trans hrec', htorn⟩
    · by_cases hi : i = e.slot.key
      · subst hi
        exact ⟨rec, hrec, Or.inr ⟨e, List.mem_singleton.2 rfl, rfl⟩⟩
      · exact ⟨rec', (hne i hi).symm.trans hrec', Or.inl htorn⟩
    · obtain rfl := List.mem_singleton.1 he'
      obtain rfl := Option.some.inj (hrec.symm.trans hrec')
      refine ⟨⟨_, hself, rfl⟩, fun h0 hnew => ?_⟩
      rw [halias, if_pos ⟨h0, hnew⟩, getElem?_insert_key, if_pos rfl]
      simp

theorem tracksBack_foldl (entries : List RebuildEntry) (s : IpcState) (hkeys : (entries.map (·.slot.key)).Nodup) :
    TracksBack entries s (entries.foldl trackExport s) := by
  induction entries generalizing s with
  | nil => exact ⟨fun h hne => hne, fun i rec hrec htorn => ⟨rec, hrec, htorn⟩,
      fun i rec hrec htorn => ⟨rec, hrec, Or.inl htorn⟩, by simp⟩
  | cons e entries ih =>
    rw [List.map_cons, List.nodup_cons] at hkeys
    obtain ⟨h1, h2, h3, h4⟩ := s.tracksBack_trackExport e
    obtain ⟨ih1, ih2, ih3, ih4⟩ := ih (s.trackExport e) hkeys.2
    refine ⟨fun h hne => ih1 h (h1 h hne), fun i rec hrec htorn => ?_, fun i rec' hrec' htorn => ?_, fun e' he' rec hrec => ?_⟩
    · obtain ⟨rec₁, hrec₁, htorn₁⟩ := h2 i rec hrec htorn
      exact ih2 i rec₁ hrec₁ htorn₁
    · obtain ⟨rec₁, hrec₁, htorn₁ | ⟨e', he', rfl⟩⟩ := ih3 i rec' hrec' htorn
      · obtain ⟨rec, hrec, hor⟩ := h3 i rec₁ hrec₁ htorn₁
        refine ⟨rec, hrec, hor.imp_right ?_⟩
        rintro ⟨e', he', rfl⟩
        exact ⟨e, List.mem_cons_self .., by rw [List.mem_singleton.1 he']⟩
      · obtain ⟨rec, hrec, -⟩ := (s.trackExport_tables e).2.2 _ rec₁ hrec₁
        exact ⟨rec, hrec, Or.inr ⟨e', List.mem_cons_of_mem _ he', rfl⟩⟩
    · rcases List.mem_cons.1 he' with rfl | he'
      · obtain ⟨⟨rec₁, hrec₁, htorn₁⟩, halias⟩ := h4 e' (List.mem_singleton.2 rfl) rec hrec
        exact ⟨ih2 _ rec₁ hrec₁ htorn₁, fun h0 hnew => ih1 _ (halias h0 hnew)⟩
      · -- the record is still as it was
        have hne : e.slot.key ≠ e'.slot.key := fun heq => hkeys.1 (List.mem_map.2 ⟨e', he', heq.symm⟩)
        have hold : (s.trackExport e).exports[e'.slot.key]? = some rec := by
          cases hrec₀ : s.exports[e.slot.key]? with
          | none =>
            rw [trackExport_none hrec₀]
            exact hrec
          | some rec₀ =>
            obtain ⟨⟨fd, hexports⟩, -⟩ := trackExport_eq hrec₀
            rw [hexports, List.getElem?_set_ne hne]
            exact hrec
        exact ih4 e' he' rec hold

theorem rebuildExports_aliases (s : IpcState) (buf : HostBuf) {k v : Nat}
    (hv : (s.ipcRebuildAndRestoreAllExports buf).2.rebuiltHandleAlias[k]? = some v) :
    s.rebuiltHandleAlias[k]? = some v ∨ (s.ipcRebuildAndRestoreAllExports buf).2.drv.isLive v = true ∧
      ∃ (i : Nat) (rec rec' : IpcExportRecord), s.exports[i]? = some rec ∧ rec.appLocalHandle = k ∧ rec.hasMapping = true ∧
        (s.ipcRebuildAndRestoreAllExports buf).2.exports[i]? = some rec' ∧ rec'.tornDown = false := by
  cases hfns : s.fns.cuMemCreate && s.fns.cuMemMap && s.fns.cuMemcpyHtoD && s.fns.cuMemAddressReserve with
  | false =>
    rw [ipcRebuildAndRestoreAllExports, hfns] at hv
    exact Or.inl hv
  | true =>
    have hview := sameView_rebuildExports hfns buf
    have hnew := (rebuildAlloc_adds s.exportItems s.drv).2
    have hback := tracksBack_foldl _ { s with drv := (rebuildCopy s.fns buf (rebuildAlloc s.exportItems s.drv)).drv }
      (nodup_ordered s.pairwise_key_exportItems s.drv)
    have htables := (foldl_trackExport_tables (rebuildAlloc s.exportItems s.drv).ordered
      { s with drv := (rebuildCopy s.fns buf (rebuildAlloc s.exportItems s.drv)).drv }).2.1
    rw [rebuildExports_eq hfns buf] at hv hview ⊢
    refine (htables k v hv).imp_right ?_
    rintro ⟨e, he, rfl, rec, hrec, happ⟩
    obtain ⟨⟨rec', hrec', htorn⟩, -⟩ := hback.entry e he rec hrec
    obtain ⟨rec₁, hrec₁, hactive, -⟩ := FdProcess.record_of_entry (mem_ordered.1 he)
    obtain rfl := Option.some.inj (hrec₁.symm.trans hrec)
    simp only [IpcExportRecord.tornActive, Bool.and_eq_true] at hactive
    exact ⟨(hview.live _).trans (hnew e (mem_ordered.1 he)).2, e.slot.key, rec₁, rec', hrec, happ, hactive.1.2, hrec', htorn⟩

theorem rebuildExports_back (s : IpcState) (buf : HostBuf) {i : Nat} {rec' : IpcExportRecord}
    (hrec' : (s.ipcRebuildAndRestoreAllExports buf).2.exports[i]? = some rec') (hback : rec'.tornDown = false) :
    ∃ rec, s.exports[i]? = some rec ∧ (rec.tornDown = true → rec.appLocalHandle ≠ 0 →
      (s.ipcRebuildAndRestoreAllExports buf).2.rebuiltHandleAlias[rec.appLocalHandle]? ≠ none ∨
        (s.ipcRebuildAndRestoreAllExports buf).2.drv.isLive rec.appLocalHandle = true) := by
  cases hfns : s.fns.cuMemCreate && s.fns.cuMemMap && s.fns.cuMemcpyHtoD && s.fns.cuMemAddressReserve with
  | false =>
    rw [ipcRebuildAndRestoreAllExports, hfns] at hrec'
    exact ⟨rec', hrec', fun htorn => absurd (htorn.symm.trans hback) (by simp)⟩
  | true =>
    have hview := sameView_rebuildExports hfns buf
    have hnew := (rebuildAlloc_adds s.exportItems s.drv).2
    have htracks := tracksBack_foldl _ { s with drv := (rebuildCopy s.fns buf (rebuildAlloc s.exportItems s.drv)).drv }
      (nodup_ordered s.pairwise_key_exportItems s.drv)
    rw [rebuildExports_eq hfns buf] at hrec' hview ⊢
    obtain ⟨rec, hrec, hlive | ⟨e, he, rfl⟩⟩ := htracks.back i rec' hrec' hback
    · exact ⟨rec, hrec, fun htorn => absurd (htorn.symm.trans hlive) (by simp)⟩
    · refine ⟨rec, hrec, fun _ happ => ?_⟩
      by_cases heq : rec.appLocalHandle = e.newHandle
      · right
        rw [heq]
        exact (hview.live _).trans (hnew e (mem_ordered.1 he)).2
      · exact Or.inl ((htracks.entry e he rec hrec).2 happ heq)

theorem foldl_trackLocal_records (entries : List RebuildEntry) (s : IpcState) {i : Nat} {rec' : CuMemLocalAllocRecord}
    (hrec' : (entries.foldl trackLocal s).localAllocs[i]? = some rec') :
    ∃ rec, s.localAllocs[i]? = some rec ∧ (rec' = rec ∨ ∃ e ∈ entries, rec'.handle = e.newHandle) := by
  induction entries generalizing s with
  | nil => exact ⟨rec', hrec', Or.inl rfl⟩
  | cons e entries ih =>
    obtain ⟨rec₁, hrec₁, hor⟩ := ih (s.trackLocal e) hrec'
    have hold : ∃ rec, s.localAllocs[i]? = some rec ∧ (rec₁ = rec ∨ rec₁.handle = e.newHandle) := by
      unfold trackLocal at hrec₁
      split at hrec₁
      · exact ⟨rec₁, hrec₁, Or.inl rfl⟩
      case h_2 rec hrec =>
        rw [List.getElem?_set] at hrec₁
        split_ifs at hrec₁ with hi
        · subst hi
          obtain rfl := Option.some.inj hrec₁
          exact ⟨rec, hrec, Or.inr rfl⟩
        · exact ⟨rec₁, hrec₁, Or.inl rfl⟩
    obtain ⟨rec, hrec, hor'⟩ := hold
    refine ⟨rec, hrec, ?_⟩
    rcases hor with rfl | ⟨e', he', hnew⟩
    · exact hor'.imp_right fun hnew => ⟨e, List.mem_cons_self .., hnew⟩
    · exact Or.inr ⟨e', List.mem_cons_of_mem _ he', hnew⟩

theorem rebuildLocals_new (s : IpcState) (buf : HostBuf) {i : Nat} {rec rec' : CuMemLocalAllocRecord}
    (hrec : s.localAllocs[i]? = some rec) (htorn : rec.tornDown = true)
    (hrec' : (s.ipcRebuildLocalAllocs buf).2.localAllocs[i]? = some rec') (hback : rec'.tornDown = false) :
    s.drv.isLive rec'.handle = false ∧ (s.ipcRebuildLocalAllocs buf).2.drv.isLive rec'.handle = true := by
  cases hfns : s.fns.cuMemCreate && s.fns.cuMemMap && s.fns.cuMemcpyHtoD with
  | false =>
    rw [ipcRebuildLocalAllocs, hfns] at hrec'
    obtain rfl := Option.some.inj (hrec.symm.trans hrec')
    exact absurd (htorn.symm.trans hback) (by simp)
  | true =>
    have hview := sameView_rebuildLocals hfns buf
    rw [ipcRebuildLocalAllocs, hfns] at hrec'
    obtain ⟨rec₁, hrec₁, rfl | ⟨e, he, hnew⟩⟩ := foldl_trackLocal_records _ _ hrec'
    · obtain rfl := Option.some.inj (hrec₁.symm.trans hrec)
      exact absurd (htorn.symm.trans hback) (by simp)
    · obtain ⟨hdead, hlive⟩ := (rebuildAlloc_adds s.localItems s.drv).2 e (mem_ordered.1 he)
      rw [hnew]
      exact ⟨hdead, (hview.live _).trans hlive⟩

theorem foldl_rebuildImport_new (sizeOf : Nat → Nat) (hasSetAccess : Bool) (pairs : List ((IpcImportRecord × Nat) × Nat))
    (p : ImportOps.Progress Driver) {i : Nat} {rec' : IpcImportRecord}
    (hrec' : (pairs.foldl ((Driver.importOps sizeOf).rebuildImport hasSetAccess) p).imports[i]? = some rec') :
    ∃ rec, p.imports[i]? = some rec ∧ (rec' = rec ∨ p.state.isLive rec'.handle = false ∧
      (pairs.foldl ((Driver.importOps sizeOf).rebuildImport hasSetAccess) p).state.isLive rec'.handle = true) := by
  induction pairs generalizing p with
  | nil => exact ⟨rec', hrec', Or.inl rfl⟩
  | cons pair pairs ih =>
    obtain ⟨hadds, hstep⟩ := Driver.rebuildImport_adds sizeOf hasSetAccess p pair
    have hrest := Driver.foldl_rebuildImport_adds sizeOf hasSetAccess pairs
      ((Driver.importOps sizeOf).rebuildImport hasSetAccess p pair)
    obtain ⟨rec₁, hrec₁, hor⟩ := ih _ hrec'
    rw [List.foldl_cons]
    rcases hstep with heq | ⟨n, hdead, hlive, heq⟩
    · rw [heq] at hrec₁
      refine ⟨rec₁, hrec₁, hor.imp_right fun h => ⟨?_, h.2⟩⟩
      by_contra hlive
      rw [Bool.not_eq_false] at hlive
      exact absurd (h.1.symm.trans (hadds.keeps _ hlive)) Bool.false_ne_true
    · rw [heq, List.getElem?_modify] at hrec₁
      obtain ⟨rec, hrec, hrec₁⟩ := Option.map_eq_some_iff.1 hrec₁
      refine ⟨rec, hrec, ?_⟩
      rcases hor with rfl | h
      · split_ifs at hrec₁
        · subst hrec₁
          exact Or.inr ⟨hdead, hrest.keeps _ hlive⟩
        · exact Or.inl hrec₁.symm
      · refine Or.inr ⟨?_, h.2⟩
        by_contra hlive'
        rw [Bool.not_eq_false] at hlive'
        exact absurd (h.1.symm.trans (hadds.keeps _ hlive')) Bool.false_ne_true

theorem importFromBlock_new (s : IpcState) (sizeOf : Nat → Nat) (block : List IpcExportShmEntry) {i : Nat}
    {rec' : IpcImportRecord} (htorn : ∀ rec ∈ s.imports, rec.tornDown = true)
    (hrec' : (s.importFromBlock sizeOf block).imports[i]? = some rec') (hback : rec'.tornDown = false) :
    s.drv.isLive rec'.handle = false ∧ (s.importFromBlock sizeOf block).drv.isLive rec'.handle = true := by
  have hnot : rec' ∉ s.imports := fun hmem => absurd ((htorn rec' hmem).symm.trans hback) (by simp)
  have hview := Driver.sameView_requestFds sizeOf block s.drv
  unfold importFromBlock ImportOps.ipcImportFromShmBlock at hrec' ⊢
  split_ifs at hrec' ⊢
  · exact absurd (List.mem_of_getElem? hrec') hnot
  · exact absurd (List.mem_of_getElem? hrec') hnot
  · obtain ⟨rec, hrec, rfl | ⟨hdead, hlive⟩⟩ := foldl_rebuildImport_new sizeOf s.fns.cuMemSetAccess _ _ hrec'
    · exact absurd (List.mem_of_getElem? hrec) hnot
    · exact ⟨(hview.live _).symm.trans hdead, hlive⟩

end Rebuild

/-! ### What the teardown leaves -/

section Teardown
variable {s : IpcState}

theorem saveLocals_torn {buf : HostBuf} (hok : (s.ipcSaveAndTeardownLocalAllocs buf).1 ≠ none) :
    ∀ rec ∈ (s.ipcSaveAndTeardownLocalAllocs buf).2.1.localAllocs, rec.tornDown = true := by
  intro rec hrec
  unfold ipcSaveAndTeardownLocalAllocs at hok hrec
  dsimp only at hok hrec
  split_ifs at hok hrec
  · exact absurd rfl hok
  · exact absurd rfl hok
  · exact absurd rfl hok
  · obtain ⟨rec₁, -, rfl⟩ := List.mem_map.1 hrec
    rfl

theorem rebuildExports_frame (s : IpcState) (buf : HostBuf) :
    (s.ipcRebuildAndRestoreAllExports buf).2.imports = s.imports ∧
      (s.ipcRebuildAndRestoreAllExports buf).2.localAllocs = s.localAllocs := by
  have hfold : ∀ (entries : List RebuildEntry) (s : IpcState), (entries.foldl trackExport s).imports = s.imports := by
    intro entries
    induction entries with
    | nil => exact fun s => rfl
    | cons e entries ih =>
      intro s
      rw [List.foldl_cons, ih]
      unfold trackExport
      split <;> rfl
  unfold ipcRebuildAndRestoreAllExports
  split_ifs
  · exact ⟨rfl, rfl⟩
  · exact ⟨hfold _ _, (foldl_trackExport_frame _ _).1⟩

theorem rebuildLocals_imports (s : IpcState) (buf : HostBuf) : (s.ipcRebuildLocalAllocs buf).2.imports = s.imports := by
  have hfold : ∀ (entries : List RebuildEntry) (s : IpcState), (entries.foldl trackLocal s).imports = s.imports := by
    intro entries
    induction entries with
    | nil => exact fun s => rfl
    | cons e entries ih =>
      intro s
      rw [List.foldl_cons, ih]
      unfold trackLocal
      split <;> rfl
  unfold ipcRebuildLocalAllocs
  split_ifs
  · rfl
  · exact hfold _ _

end Teardown

/-! ### The cycle -/

section Cycle
variable {s : IpcState} {c : CycleInput}

theorem importsBack_exports (s : IpcState) (c : CycleInput) :
    (s.importsBack c).exports = (s.exportsBack c).exports ∧
      (s.importsBack c).rebuiltHandleAlias = (s.exportsBack c).rebuiltHandleAlias := by
  obtain ⟨halias, hexports⟩ := (s.exportsBack c).rebuildLocals_frame c.localCopy
  exact ⟨hexports, halias⟩

theorem tornDown_alias (s : IpcState) (c : CycleInput) : (s.tornDown c).rebuiltHandleAlias = s.rebuiltHandleAlias := by
  have h1 := ((s.atLocalSave c).saveLocals_frame c.localBuf).1
  have h2 := (s.atExportSave.saveExports_frame c.exportBuf).1
  exact h1.trans h2

theorem TearsDown.export_torn (h : s.TearsDown c) {i : Nat} {rec' : IpcExportRecord}
    (hrec' : (s.tornDown c).exports[i]? = some rec') : ∃ rec, s.exports[i]? = some rec ∧
      rec'.appLocalHandle = rec.appLocalHandle ∧ rec'.hasMapping = rec.hasMapping ∧
        (rec.hasMapping = true → rec'.tornDown = true) := by
  have hexports : (s.tornDown c).exports = (s.atLocalSave c).exports := ((s.atLocalSave c).saveLocals_frame c.localBuf).2.1
  rw [hexports] at hrec'
  exact saveExports_torn h.exports hrec'

theorem TearsDown.imports_torn (h : s.TearsDown c) : ∀ rec ∈ (s.localsBack c).imports, rec.tornDown = true := by
  have h1 : (s.localsBack c).imports = (s.exportsBack c).imports := rebuildLocals_imports ..
  have h2 : (s.exportsBack c).imports = (s.tornDown c).imports := (rebuildExports_frame ..).1
  have h3 : (s.tornDown c).imports = (s.atLocalSave c).imports := saveLocals_imports ..
  have h4 : (s.atLocalSave c).imports = s.atExportSave.imports := saveExports_imports ..
  rw [h1, h2, h3, h4]
  exact teardownAllImports_torn h.imports

/-- The handle after the cycle is one that the driver has handed out after the rebuild of the exports. -/
theorem TearsDown.carried_new (h : s.TearsDown c) {k n : Nat} (hcarried : s.Carried c k n) :
    k ≠ 0 ∧ (s.exportsBack c).drv.isLive n = false ∧ (s.importsBack c).drv.isLive n = true := by
  have hlocals := (s.exportsBack c).adds_rebuildLocals c.localCopy
  have himports := (s.localsBack c).adds_importFromBlock c.sizeOf c.block
  rcases hcarried with ⟨-, hk, i, rec, rec', hrec, -, hrec', hback, rfl⟩ | ⟨hk, i, rec, rec', -, -, -, hrec', hback, rfl⟩
  · have htorn := saveLocals_torn h.locals rec (List.mem_of_getElem? hrec)
    have hrec : (s.exportsBack c).localAllocs[i]? = some rec := by
      rw [show (s.exportsBack c).localAllocs = (s.tornDown c).localAllocs from (rebuildExports_frame ..).2]
      exact hrec
    obtain ⟨hdead, hlive⟩ := (s.exportsBack c).rebuildLocals_new c.localCopy hrec htorn hrec' hback
    exact ⟨hk, hdead, himports.keeps _ hlive⟩
  · obtain ⟨hdead, hlive⟩ := (s.localsBack c).importFromBlock_new c.sizeOf c.block h.imports_torn hrec' hback
    refine ⟨hk, ?_, hlive⟩
    by_contra hlive'
    rw [Bool.not_eq_false] at hlive'
    exact absurd (hdead.symm.trans (hlocals.keeps _ hlive')) Bool.false_ne_true

theorem TearsDown.noAlias (h : s.TearsDown c) (hnone : s.rebuiltHandleAlias = ∅) {k : Nat} (hno : s.NoExportBack c k) :
    (s.importsBack c).rebuiltHandleAlias[k]? = none := by
  obtain ⟨hexports, halias⟩ := s.importsBack_exports c
  rw [halias]
  cases hv : (s.exportsBack c).rebuiltHandleAlias[k]? with
  | none => rfl
  | some v =>
    rcases (s.tornDown c).rebuildExports_aliases c.exportCopy hv with hold | ⟨-, i, rec, rec', hrec, happ, hmap, hrec', hback⟩
    · rw [tornDown_alias, hnone] at hold
      exact absurd hold (by simp)
    · obtain ⟨rec₀, hrec₀, happ₀, hmap₀, -⟩ := h.export_torn hrec
      have htorn := hno i rec₀ rec' hrec₀ (happ₀.symm.trans happ) (hmap₀.symm.trans hmap) (hexports ▸ hrec')
      exact absurd (htorn.symm.trans hback) (by simp)

/-- The application's handle resolves to the handle after the cycle exactly if that is the same value, and
no export takes the value. -/
theorem TearsDown.resolve_iff (h : s.TearsDown c) (hnone : s.rebuiltHandleAlias = ∅) {k n : Nat} (hcarried : s.Carried c k n) :
    (s.importsBack c).resolve k = n ↔ n = k ∧ s.NoExportBack c k := by
  obtain ⟨hk, hdead, -⟩ := h.carried_new hcarried
  obtain ⟨hexports, halias⟩ := s.importsBack_exports c
  rw [resolve, halias]
  constructor
  · intro hres
    cases hv : (s.exportsBack c).rebuiltHandleAlias[k]? with
    | some v =>
      -- the value of an alias was live when `n` was handed out
      rw [hv, Option.getD_some] at hres
      rcases (s.tornDown c).rebuildExports_aliases c.exportCopy hv with hold | ⟨hlive, -⟩
      · rw [tornDown_alias, hnone] at hold
        exact absurd hold (by simp)
      · rw [hres] at hlive
        exact absurd (hdead.symm.trans hlive) Bool.false_ne_true
    | none =>
      rw [hv, Option.getD_none] at hres
      refine ⟨hres.symm, fun i rec rec' hrec happ hmap hrec' => ?_⟩
      rw [hexports] at hrec'
      by_contra hback
      rw [Bool.not_eq_true] at hback
      obtain ⟨rec₁, hrec₁, hrebuilt⟩ := (s.tornDown c).rebuildExports_back c.exportCopy hrec' hback
      obtain ⟨rec₀, hrec₀, happ₁, -, htorn⟩ := h.export_torn hrec₁
      obtain rfl := Option.some.inj (hrec.symm.trans hrec₀)
      have hk₁ : rec₁.appLocalHandle = k := happ₁.trans happ
      rcases hrebuilt (htorn hmap) (hk₁ ▸ hk) with hne | hlive
      · rw [hk₁] at hne
        exact hne hv
      · rw [hk₁, hres] at hlive
        exact absurd (hdead.symm.trans hlive) Bool.false_ne_true
  · rintro ⟨rfl, hno⟩
    rw [← halias, h.noAlias hnone hno, Option.getD_none]

end Cycle

end IpcState

namespace HookedProcess

section Release
variable {p : HookedProcess}

theorem release_drv (hfns : p.ipc.fns.cuMemRelease = true) (k : Nat) :
    (p.call (.release k)).ipc.drv = (p.ipc.drv.cuMemRelease (p.ipc.resolve k)).2 := by
  show (p.hookCuMemRelease k).ipc.drv = _
  unfold hookCuMemRelease
  rw [hfns]
  simp only [Bool.not_true, Bool.false_eq_true, if_false]
  show _ = (p.ipc.drv.cuMemRelease (p.ipc.rebuiltHandleAlias[k]?.getD k)).2
  cases p.ipc.drv.cuMemRelease (p.ipc.rebuiltHandleAlias[k]?.getD k) with
  | mk ok d =>
    cases ok with
    | false => rfl
    | true => exact recordRelease_drv ..

theorem release_live (hfns : p.ipc.fns.cuMemRelease = true) (henv : p.ipc.drv.env.Reliable) (k h : Nat) :
    (p.call (.release k)).ipc.drv.isLive h = (p.ipc.drv.isLive h && h != p.ipc.resolve k) := by
  rw [release_drv hfns]
  cases hlive : p.ipc.drv.isLive (p.ipc.resolve k) with
  | true =>
    rcases p.ipc.drv.cuMemRelease_view (p.ipc.resolve k) with ⟨hfalse, -⟩ | ⟨-, hd⟩
    · obtain ⟨d', heq, -⟩ := Driver.cuMemRelease_ok (henv _) hlive
      rw [heq] at hfalse
      exact absurd hfalse (by simp)
    · exact hd.live h
  | false =>
    rcases p.ipc.drv.cuMemRelease_view (p.ipc.resolve k) with ⟨-, hd⟩ | ⟨-, hd⟩
    · rw [hd.live]
      by_cases heq : h = p.ipc.resolve k
      · rw [heq, hlive, Bool.false_and]
      · simp [heq]
    · exact absurd (hd.handle.symm.trans hlive) (by simp)

theorem releasesExactly_iff (hfns : p.ipc.fns.cuMemRelease = true) (henv : p.ipc.drv.env.Reliable) {k n : Nat}
    (hlive : p.ipc.drv.isLive n = true) : p.ReleasesExactly k n ↔ p.ipc.resolve k = n := by
  constructor
  · rintro ⟨-, h⟩
    have hn := h n
    rw [release_live hfns henv, hlive] at hn
    simp only [bne_self_eq_false, Bool.and_false, Bool.true_and, bne_eq_false_iff_eq] at hn
    exact hn.symm
  · intro h
    refine ⟨hlive, fun j => ?_⟩
    rw [release_live hfns henv, h]

theorem release_cases (p : HookedProcess) (k : Nat) :
    (∃ d, p.call (.release k) = p.setDrv d) ∨ ∃ d, p.call (.release k) = p.recordRelease d k (p.ipc.resolve k) := by
  have heff := p.call_effect (.release k)
  generalize p.call (.release k) = p' at heff ⊢
  cases heff with
  | rejected hd => exact Or.inl ⟨_, rfl⟩
  | released hd => exact Or.inr ⟨_, rfl⟩

theorem release_frame (hfns : p.ipc.fns.cuMemRelease = true) (k : Nat) :
    (p.call (.release k)).ipc.fns.cuMemRelease = true ∧ (p.call (.release k)).ipc.drv.env = p.ipc.drv.env ∧
      ∀ h : Nat, p.ipc.rebuiltHandleAlias[h]? = none → (p.call (.release k)).ipc.rebuiltHandleAlias[h]? = none := by
  refine ⟨?_, ?_, fun h hh => ?_⟩
  · rcases p.release_cases k with ⟨d, heq⟩ | ⟨d, heq⟩
    · rw [heq]
      exact hfns
    · rw [heq]
      unfold recordRelease
      dsimp only
      split_ifs <;> exact hfns
  · rw [release_drv hfns]
    exact (p.ipc.drv.cuMemRelease_frame _).2
  · rcases p.release_cases k with ⟨d, heq⟩ | ⟨d, heq⟩
    · rw [heq]
      exact hh
    · rw [heq, recordRelease_alias, hh]
      rfl

theorem run_release_dead (ks : List Nat) (hfns : p.ipc.fns.cuMemRelease = true) (henv : p.ipc.drv.env.Reliable) {k : Nat}
    (halias : p.ipc.rebuiltHandleAlias[k]? = none) (hk : k ∈ ks ∨ p.ipc.drv.isLive k = false) :
    (run call p (ks.map .release)).ipc.drv.isLive k = false := by
  induction ks generalizing p with
  | nil => exact hk.resolve_left List.not_mem_nil
  | cons j ks ih =>
    obtain ⟨hfns', henv', halias'⟩ := release_frame hfns j
    refine ih hfns' (henv' ▸ henv) (halias' k halias) ?_
    rw [release_live hfns henv]
    rcases hk with hk | hdead
    · rcases List.mem_cons.1 hk with rfl | hk
      · right
        rw [IpcState.resolve, halias, Option.getD_none, bne_self_eq_false, Bool.and_false]
      · exact Or.inl hk
    · right
      rw [hdead, Bool.false_and]

end Release

/-- **When the application's handles stay usable**: after any history of hooked calls and a cycle whose
teardown succeeds, if and only if the driver hands out for every local allocation and every import that is
rebuilt the value that the application has, and no export with that value comes back. -/
theorem usable_iff (s : HookedProcess) (hs : s.Fresh) (history : List HookCall) (c : CycleInput)
    (htears : (run call s history).ipc.TearsDown c)
    (hfns : ((run call s history).afterCycle c).ipc.fns.cuMemRelease = true)
    (henv : ((run call s history).afterCycle c).ipc.drv.env.Reliable) :
    (run call s history).Usable c ↔ ∀ k n, (run call s history).ipc.Carried c k n →
      n = k ∧ (run call s history).ipc.NoExportBack c k := by
  have hsound := sound_of_history hs.sound history
  have hiff : ∀ k n, (run call s history).ipc.Carried c k n →
      (((run call s history).afterCycle c).ReleasesExactly k n ↔ n = k ∧ (run call s history).ipc.NoExportBack c k) := by
    intro k n hcarried
    rw [releasesExactly_iff hfns henv (htears.carried_new hcarried).2.2]
    exact htears.resolve_iff hsound.noAlias hcarried
  constructor
  · intro h k n hcarried
    exact (hiff k n hcarried).1 (h.releases k n hcarried)
  · intro h
    refine ⟨fun k n hcarried => (hiff k n hcarried).2 (h k n hcarried), fun ks hks k n hcarried => ?_⟩
    obtain ⟨rfl, hno⟩ := h k n hcarried
    -- an alias of the value would lead elsewhere
    have halias := htears.noAlias hsound.noAlias hno
    exact run_release_dead ks hfns henv halias (Or.inl (hks n n hcarried))

/-- An allocation that is mapped and made accessible, and is not exported. -/
def localHistory : List HookCall :=
  [.create 4096 1 ⟨0⟩, .map 0x10000 4096 1, .setAccess 0x10000 4096 [⟨1, 0, 3⟩]]

def localCycle : CycleInput where
  exportBuf := ⟨0, fun _ => 0⟩
  localBuf := ⟨4096, fun _ => 0⟩
  exportCopy := ⟨0, fun _ => 0⟩
  localCopy := ⟨4096, fun _ => 0⟩
  sizeOf := fun _ => 0
  block := []

theorem tearsDown_localCycle (s : HookedProcess) (hs : s = empty ∨ s = reusing) :
    (run call s localHistory).ipc.TearsDown localCycle := by
  rcases hs with rfl | rfl
  · exact ⟨rfl, by decide, by decide⟩
  · exact ⟨rfl, by decide, by decide⟩

theorem usable_localCycle : (run call reusing localHistory).Usable localCycle := by
  refine (usable_iff reusing ⟨rfl, rfl, rfl, rfl, rfl, rfl, rfl, rfl, fun _ => rfl, rfl, rfl⟩ localHistory localCycle
    (tearsDown_localCycle reusing (Or.inr rfl)) rfl (fun _ => rfl)).2 ?_
  intro k n hcarried
  refine ⟨?_, fun i rec rec' hrec => absurd (List.mem_of_getElem? hrec) List.not_mem_nil⟩
  rcases hcarried with ⟨-, -, i, rec, rec', hrec, rfl, hrec', -, rfl⟩ | ⟨-, i, rec, rec', hrec, -⟩
  · cases i with
    | zero =>
      obtain rfl := Option.some.inj hrec
      obtain rfl := Option.some.inj hrec'
      rfl
    | succ i => exact absurd (show (none : Option CuMemLocalAllocRecord) = some rec from hrec) (by simp)
  · exact absurd (List.mem_of_getElem? hrec) List.not_mem_nil

/-- The driver hands out another value, and a release of the application's reaches nothing. -/
theorem not_usable : ¬ ∀ s : HookedProcess, s.Fresh → ∀ (history : List HookCall) (c : CycleInput),
    (run call s history).ipc.TearsDown c → ((run call s history).afterCycle c).ipc.fns.cuMemRelease = true →
      ((run call s history).afterCycle c).ipc.drv.env.Reliable → (run call s history).Usable c := by
  intro h
  have husable := h empty fresh_empty localHistory localCycle (tearsDown_localCycle empty (Or.inl rfl)) rfl fun _ => rfl
  have hcarried : (run call empty localHistory).ipc.Carried localCycle 1 11 :=
    Or.inl ⟨fun rec hrec => absurd hrec List.not_mem_nil, by decide, 0, _, _, rfl, rfl, rfl, rfl, rfl⟩
  have hlive := (husable.releases 1 11 hcarried).2 11
  exact absurd (show true = false from hlive) (by decide)

end HookedProcess

end GpuCr
