import GpuCr.Ipc.Cycles

/-!
# Aliases of rebuilt exports

The application keeps the handle it got for an export, while a rebuild makes a new one. The table of
aliases leads from the one to the other; `cuMemRelease` looks its argument up and purges what the release
makes void. Handles are plain values and the driver may hand a value out again, so the table is exact for
as long as no value stands for two exports.
-/

namespace GpuCr

open Lib.Run Lib.Grouping Std

/-- The record stands for an allocation: it is not torn down and its handle is not released. -/
def IpcExportRecord.Live (rec : IpcExportRecord) : Prop := rec.tornDown = false ∧ rec.localHandle ≠ 0

namespace IpcState

/-- The handle that the application's handle stands for. -/
def resolve (s : IpcState) (handle : Nat) : Nat := s.rebuiltHandleAlias[handle]?.getD handle

/-- Every live export has its handle, and no live export has the handle of another. -/
structure Aliased (s : IpcState) : Prop where
  nullDead : s.drv.isLive 0 = false
  app : ∀ rec ∈ s.exports, rec.appLocalHandle ≠ 0
  resolves : ∀ rec ∈ s.exports, rec.Live → s.resolve rec.appLocalHandle = rec.localHandle
  own : ∀ rec ∈ s.exports, ∀ rec' ∈ s.exports, rec.Live → rec'.Live → rec.appLocalHandle = rec'.localHandle →
    rec.localHandle = rec'.localHandle

/-- What the rebuild of a record needs: a live record shares no handle value with it, and a value that is
handed out again to its own record has no alias. -/
structure EntryApart (s : IpcState) (e : RebuildEntry) (rec : IpcExportRecord) : Prop where
  stale : rec.appLocalHandle = e.newHandle → s.rebuiltHandleAlias[rec.appLocalHandle]? = none
  live : ∀ rec' ∈ s.exports, rec'.Live → rec'.appLocalHandle ≠ rec.appLocalHandle ∧
    rec'.appLocalHandle ≠ e.newHandle ∧ rec'.localHandle ≠ rec.appLocalHandle

/-- The same for all records of a rebuild, which do not share a value among themselves either. -/
structure RebuiltApart (s : IpcState) (entries : List RebuildEntry) : Prop where
  entry : ∀ e ∈ entries, ∀ rec, s.exports[e.slot.key]? = some rec → s.EntryApart e rec
  entries : ∀ e ∈ entries, ∀ e' ∈ entries, e'.slot.key ≠ e.slot.key → ∀ rec rec',
    s.exports[e.slot.key]? = some rec → s.exports[e'.slot.key]? = some rec' →
      rec'.appLocalHandle ≠ rec.appLocalHandle ∧ rec'.appLocalHandle ≠ e.newHandle

end IpcState

namespace HookedProcess

/-- No value stands for two exports: an aliased value is not exported again, the alias of a value that is
released is that of a live export, and a rebuild brings no value in twice. -/
def ValuesApart (s : HookedProcess) : CycleEvent → Prop
  | .call (.exportHandle handle _) => s.ipc.rebuiltHandleAlias[handle]? = none
  | .call (.release handle) => s.ipc.rebuiltHandleAlias[handle]? ≠ none →
    ∃ rec ∈ s.ipc.exports, rec.Live ∧ rec.appLocalHandle = handle
  | .stage (.rebuildExports _) => s.ipc.RebuiltApart (rebuildAlloc s.ipc.exportItems s.ipc.drv).entries
  | _ => True

/-- Releasing the application's handle releases the record's own one and touches no other export. -/
structure ReleasesOwn (s : HookedProcess) (rec : IpcExportRecord) : Prop where
  call : s.ipc.fns.cuMemRelease = true →
    (s.call (.release rec.appLocalHandle)).ipc.drv = (s.ipc.drv.cuMemRelease rec.localHandle).2
  handles : s.ipc.fns.cuMemRelease = true → s.ipc.drv.isLive rec.localHandle = true → s.ipc.drv.env.fails s.ipc.drv.clock = false →
    ∀ k, (s.call (.release rec.appLocalHandle)).ipc.drv.isLive k = (s.ipc.drv.isLive k && k != rec.localHandle)
  others : ∀ (i : Nat) (rec' : IpcExportRecord), s.ipc.exports[i]? = some rec' → rec'.Live →
    rec'.localHandle ≠ rec.localHandle →
      (s.call (.release rec.appLocalHandle)).ipc.exports[i]? = some rec' ∧
        (s.call (.release rec.appLocalHandle)).ipc.resolve rec'.appLocalHandle = s.ipc.resolve rec'.appLocalHandle

end HookedProcess

/-! ### Rebuilds -/

namespace IpcState

section Rebuild
variable {s t : IpcState}

theorem Aliased.mono (h : s.Aliased) (hnull : t.drv.isLive 0 = false) (halias : t.rebuiltHandleAlias = s.rebuiltHandleAlias)
    (hrecs : ∀ rec ∈ t.exports, ∃ rec' ∈ s.exports, rec.appLocalHandle = rec'.appLocalHandle ∧
      (rec.Live → rec'.Live ∧ rec.localHandle = rec'.localHandle)) : t.Aliased where
  nullDead := hnull
  app rec hrec := by
    obtain ⟨rec', hrec', happ, -⟩ := hrecs rec hrec
    rw [happ]
    exact h.app rec' hrec'
  resolves rec hrec hlive := by
    obtain ⟨rec', hrec', happ, hsame⟩ := hrecs rec hrec
    rw [happ, (hsame hlive).2, resolve, halias]
    exact h.resolves rec' hrec' (hsame hlive).1
  own rec hrec rec₂ hrec₂ hlive hlive₂ heq := by
    obtain ⟨rec', hrec', happ, hsame⟩ := hrecs rec hrec
    obtain ⟨rec₂', hrec₂', -, hsame₂⟩ := hrecs rec₂ hrec₂
    rw [(hsame hlive).2, (hsame₂ hlive₂).2]
    refine h.own rec' hrec' rec₂' hrec₂' (hsame hlive).1 (hsame₂ hlive₂).1 ?_
    rw [← happ, heq, (hsame₂ hlive₂).2]

theorem trackExport_eq {e : RebuildEntry} {rec : IpcExportRecord} (hrec : s.exports[e.slot.key]? = some rec) :
    (∃ fd, (s.trackExport e).exports = s.exports.set e.slot.key (FdProcess.rebuiltRecord rec e.newHandle fd)) ∧
      (s.trackExport e).rebuiltHandleAlias = if rec.appLocalHandle ≠ 0 ∧ rec.appLocalHandle ≠ e.newHandle then
        s.rebuiltHandleAlias.insert rec.appLocalHandle e.newHandle else s.rebuiltHandleAlias := by
  unfold trackExport
  rw [hrec]
  exact ⟨⟨_, rfl⟩, rfl⟩

theorem resolve_trackExport {e : RebuildEntry} {rec : IpcExportRecord} (hrec : s.exports[e.slot.key]? = some rec)
    (happ : rec.appLocalHandle ≠ 0) (hstale : rec.appLocalHandle = e.newHandle → s.rebuiltHandleAlias[rec.appLocalHandle]? = none)
    (k : Nat) : (s.trackExport e).resolve k = if k = rec.appLocalHandle then e.newHandle else s.resolve k := by
  obtain ⟨-, halias⟩ := trackExport_eq hrec
  rw [resolve, halias]
  by_cases heq : rec.appLocalHandle = e.newHandle
  · rw [if_neg (fun h => h.2 heq)]
    split_ifs with hk
    · rw [hk, hstale heq, Option.getD_none, heq]
    · rfl
  · rw [if_pos ⟨happ, heq⟩, getElem?_insert_key]
    split_ifs with hk
    · rfl
    · rfl

theorem Aliased.trackExport (h : s.Aliased) {e : RebuildEntry} {rec : IpcExportRecord}
    (hrec : s.exports[e.slot.key]? = some rec) (hapart : s.EntryApart e rec) : (s.trackExport e).Aliased := by
  have hmem := List.mem_of_getElem? hrec
  have hresolve := resolve_trackExport hrec (h.app rec hmem) hapart.stale
  obtain ⟨⟨fd, hexports⟩, -⟩ := trackExport_eq hrec
  -- a record is the rebuilt one or one of before
  have hcases : ∀ rec' ∈ (s.trackExport e).exports, rec' = FdProcess.rebuiltRecord rec e.newHandle fd ∨ rec' ∈ s.exports := by
    intro rec' hrec'
    rw [hexports] at hrec'
    exact (List.mem_or_eq_of_mem_set hrec').symm
  refine ⟨?_, fun rec' hrec' => ?_, fun rec' hrec' hlive => ?_, fun rec₁ hrec₁ rec₂ hrec₂ hlive₁ hlive₂ heq => ?_⟩
  · exact ((s.same_trackExport e).sameView.live 0).trans h.nullDead
  · rcases hcases rec' hrec' with rfl | hrec'
    · exact h.app rec hmem
    · exact h.app rec' hrec'
  · rw [hresolve]
    rcases hcases rec' hrec' with rfl | hrec'
    · exact if_pos rfl
    · rw [if_neg (hapart.live rec' hrec' hlive).1]
      exact h.resolves rec' hrec' hlive
  · rcases hcases rec₁ hrec₁ with rfl | hrec₁ <;> rcases hcases rec₂ hrec₂ with rfl | hrec₂
    · rfl
    · exact absurd heq.symm (hapart.live rec₂ hrec₂ hlive₂).2.2
    · exact absurd heq (hapart.live rec₁ hrec₁ hlive₁).2.1
    · exact h.own rec₁ hrec₁ rec₂ hrec₂ hlive₁ hlive₂ heq

theorem trackExport_none {e : RebuildEntry} (hrec : s.exports[e.slot.key]? = none) : s.trackExport e = s := by
  unfold trackExport
  rw [hrec]

/-- What is still to be rebuilt shares no value with what has been. -/
theorem RebuiltApart.trackExport {e : RebuildEntry} {entries : List RebuildEntry} {rec : IpcExportRecord}
    (h : s.RebuiltApart (e :: entries)) (hrec : s.exports[e.slot.key]? = some rec)
    (hkeys : e.slot.key ∉ entries.map (·.slot.key)) : (s.trackExport e).RebuiltApart entries := by
  obtain ⟨⟨fd, hexports⟩, halias⟩ := trackExport_eq hrec
  have hne : ∀ e' ∈ entries, e'.slot.key ≠ e.slot.key := fun e' he' heq => hkeys (List.mem_map.2 ⟨e', he', heq⟩)
  have hold : ∀ e' ∈ entries, (s.trackExport e).exports[e'.slot.key]? = s.exports[e'.slot.key]? := by
    intro e' he'
    rw [hexports, List.getElem?_set_ne (hne e' he').symm]
  refine ⟨fun e' he' rec' hrec' => ?_, fun e₁ he₁ e₂ he₂ hkey rec₁ rec₂ hrec₁ hrec₂ => ?_⟩
  · rw [hold e' he'] at hrec'
    have hapart := h.entry e' (List.mem_cons_of_mem _ he') rec' hrec'
    have hmutual := h.entries e (List.mem_cons_self ..) e' (List.mem_cons_of_mem _ he') (hne e' he') rec rec' hrec hrec'
    have hmutual' := h.entries e' (List.mem_cons_of_mem _ he') e (List.mem_cons_self ..) (hne e' he').symm rec' rec hrec' hrec
    refine ⟨fun heq => ?_, fun rec₁ hrec₁ hlive₁ => ?_⟩
    · rw [halias]
      split_ifs
      · rw [getElem?_insert_key, if_neg hmutual.1]
        exact hapart.stale heq
      · exact hapart.stale heq
    · rw [hexports] at hrec₁
      rcases List.mem_or_eq_of_mem_set hrec₁ with hrec₁ | rfl
      · exact hapart.live rec₁ hrec₁ hlive₁
      · exact ⟨hmutual'.1, hmutual'.2, hmutual.2.symm⟩
  · rw [hold e₁ he₁] at hrec₁
    rw [hold e₂ he₂] at hrec₂
    exact h.entries e₁ (List.mem_cons_of_mem _ he₁) e₂ (List.mem_cons_of_mem _ he₂) hkey rec₁ rec₂ hrec₁ hrec₂

theorem Aliased.foldl_trackExport (entries : List RebuildEntry) (h : s.Aliased) (hapart : s.RebuiltApart entries)
    (hkeys : (entries.map (·.slot.key)).Nodup) : (entries.foldl IpcState.trackExport s).Aliased := by
  induction entries generalizing s with
  | nil => exact h
  | cons e entries ih =>
    rw [List.map_cons, List.nodup_cons] at hkeys
    rw [List.foldl_cons]
    cases hrec : s.exports[e.slot.key]? with
    | none =>
      rw [trackExport_none hrec]
      exact ih h ⟨fun e' he' => hapart.entry e' (List.mem_cons_of_mem _ he'),
        fun e₁ he₁ e₂ he₂ => hapart.entries e₁ (List.mem_cons_of_mem _ he₁) e₂ (List.mem_cons_of_mem _ he₂)⟩ hkeys.2
    | some rec =>
      exact ih (h.trackExport hrec (hapart.entry e (List.mem_cons_self ..) rec hrec))
        (hapart.trackExport hrec hkeys.1) hkeys.2

theorem Aliased.rebuildExports (h : s.Aliased)
    (hapart : s.RebuiltApart (rebuildAlloc s.exportItems s.drv).entries) (buf : HostBuf) :
    (s.ipcRebuildAndRestoreAllExports buf).2.Aliased := by
  have hnull := (s.adds_rebuildExports buf).null h.nullDead
  cases hfns : s.fns.cuMemCreate && s.fns.cuMemMap && s.fns.cuMemcpyHtoD && s.fns.cuMemAddressReserve with
  | false =>
    rw [ipcRebuildAndRestoreAllExports, hfns]
    exact h
  | true =>
    have hcopied : IpcState.Aliased
        { s with drv := (rebuildCopy s.fns buf (rebuildAlloc s.exportItems s.drv)).drv } := by
      refine ⟨?_, h.app, h.resolves, h.own⟩
      have hadds := (rebuildAlloc_adds s.exportItems s.drv).1.trans (sameView_rebuildCopy s.fns buf s.exportItems s.drv).adds
      exact hadds.null h.nullDead
    rw [ipcRebuildAndRestoreAllExports, hfns]
    have hfold := Aliased.foldl_trackExport (rebuildAlloc s.exportItems s.drv).ordered hcopied
      ⟨fun e he rec hrec => ⟨(hapart.entry e (mem_ordered.1 he) rec hrec).stale,
          (hapart.entry e (mem_ordered.1 he) rec hrec).live⟩,
        fun e he e' he' => hapart.entries e (mem_ordered.1 he) e' (mem_ordered.1 he')⟩
      (nodup_ordered s.pairwise_key_exportItems s.drv)
    exact ⟨hfold.nullDead, hfold.app, hfold.resolves, hfold.own⟩

end Rebuild

/-! ### Teardowns -/

section Save
variable {s : IpcState}

theorem saveExports_records (s : IpcState) (buf : HostBuf) {rec : IpcExportRecord}
    (hrec : rec ∈ (s.ipcSaveAndTeardownAllExports buf).2.1.exports) :
    ∃ rec' ∈ s.exports, rec.appLocalHandle = rec'.appLocalHandle ∧ rec.hasSavedProp = rec'.hasSavedProp ∧
      (rec.Live → rec'.Live ∧ rec.localHandle = rec'.localHandle) := by
  have hoffset : ∀ (xs : List Slot), ∀ rec ∈ xs.foldl recordOffset s.exports, ∃ rec' ∈ s.exports,
      rec.appLocalHandle = rec'.appLocalHandle ∧ rec.hasSavedProp = rec'.hasSavedProp ∧
        (rec.Live → rec'.Live ∧ rec.localHandle = rec'.localHandle) := by
    intro xs rec hrec
    obtain ⟨i, hi⟩ := List.mem_iff_getElem?.1 hrec
    obtain ⟨rec', hrec', ⟨rfl, -⟩ | ⟨x, -, -, rfl⟩⟩ := foldl_recordOffset xs s.exports hi
    · exact ⟨_, List.mem_of_getElem? hrec', rfl, rfl, fun h => ⟨h, rfl⟩⟩
    · exact ⟨rec', List.mem_of_getElem? hrec', rfl, rfl, fun h => ⟨h, rfl⟩⟩
  unfold ipcSaveAndTeardownAllExports at hrec
  dsimp only at hrec
  split_ifs at hrec
  · exact ⟨rec, hrec, rfl, rfl, fun h => ⟨h, rfl⟩⟩
  · exact ⟨rec, hrec, rfl, rfl, fun h => ⟨h, rfl⟩⟩
  · exact hoffset _ rec hrec
  · obtain ⟨rec₁, hrec₁, rfl⟩ := List.mem_map.1 hrec
    obtain ⟨rec₂, hrec₂, rfl⟩ := List.mem_map.1 hrec₁
    obtain ⟨rec', hrec', happ, hprop, hsame⟩ := hoffset _ rec₂ hrec₂
    obtain ⟨fd, hfd⟩ := closeFd_eq rec₂
    rw [hfd, markTorn]
    split_ifs
    · exact ⟨rec', hrec', happ, hprop, hsame⟩
    · exact ⟨rec', hrec', happ, hprop, fun h => absurd h.1 (by simp)⟩

theorem saveExports_frame (s : IpcState) (buf : HostBuf) :
    (s.ipcSaveAndTeardownAllExports buf).2.1.rebuiltHandleAlias = s.rebuiltHandleAlias ∧
      (s.ipcSaveAndTeardownAllExports buf).2.1.createdAllocs = s.createdAllocs := by
  unfold ipcSaveAndTeardownAllExports
  dsimp only
  split_ifs <;> exact ⟨rfl, rfl⟩

theorem saveLocals_frame (s : IpcState) (buf : HostBuf) :
    (s.ipcSaveAndTeardownLocalAllocs buf).2.1.rebuiltHandleAlias = s.rebuiltHandleAlias ∧
      (s.ipcSaveAndTeardownLocalAllocs buf).2.1.exports = s.exports ∧
      (s.ipcSaveAndTeardownLocalAllocs buf).2.1.createdAllocs = s.createdAllocs := by
  unfold ipcSaveAndTeardownLocalAllocs
  dsimp only
  split_ifs <;> exact ⟨rfl, rfl, rfl⟩

theorem rebuildLocals_frame (s : IpcState) (buf : HostBuf) :
    (s.ipcRebuildLocalAllocs buf).2.rebuiltHandleAlias = s.rebuiltHandleAlias ∧
      (s.ipcRebuildLocalAllocs buf).2.exports = s.exports := by
  have hfold : ∀ (entries : List RebuildEntry) (s : IpcState),
      (entries.foldl trackLocal s).rebuiltHandleAlias = s.rebuiltHandleAlias := by
    intro entries
    induction entries with
    | nil => exact fun s => rfl
    | cons e entries ih =>
      intro s
      rw [List.foldl_cons, ih]
      unfold trackLocal
      split <;> rfl
  unfold ipcRebuildLocalAllocs
  split_ifs
  · exact ⟨rfl, rfl⟩
  · exact ⟨hfold _ _, (foldl_trackLocal_frame _ _).1⟩

theorem Aliased.stage (h : s.Aliased) (st : CycleStage)
    (hapart : ∀ buf, st = .rebuildExports buf → s.RebuiltApart (rebuildAlloc s.exportItems s.drv).entries) :
    (s.stage st).Aliased := by
  have hnull := stage_null h.nullDead st
  have hsame : ∀ t : IpcState, t.drv.isLive 0 = false → t.rebuiltHandleAlias = s.rebuiltHandleAlias →
      t.exports = s.exports → t.Aliased := by
    intro t hnull halias hexports
    refine h.mono hnull halias fun rec hrec => ⟨rec, hexports ▸ hrec, rfl, fun hlive => ⟨hlive, rfl⟩⟩
  cases st with
  | teardownImports => exact hsame _ hnull rfl rfl
  | saveExports buf =>
    refine h.mono hnull (s.saveExports_frame buf).1 fun rec hrec => ?_
    obtain ⟨rec', hrec', happ, -, hsame⟩ := s.saveExports_records buf hrec
    exact ⟨rec', hrec', happ, hsame⟩
  | saveLocals buf => exact hsame _ hnull (s.saveLocals_frame buf).1 (s.saveLocals_frame buf).2.1
  | rebuildExports buf => exact h.rebuildExports (hapart buf rfl) buf
  | rebuildLocals buf => exact hsame _ hnull (s.rebuildLocals_frame buf).1 (s.rebuildLocals_frame buf).2
  | importPeers sizeOf block => exact hsame _ hnull rfl rfl

end Save

end IpcState

/-! ### Hooked calls -/

namespace HookedProcess

section Calls
variable {s : HookedProcess}

/-- What a release purges from the table of aliases. -/
theorem recordRelease_alias (s : HookedProcess) (d : Driver) (handle actual : Nat) (k : Nat) :
    (s.recordRelease d handle actual).ipc.rebuiltHandleAlias[k]? =
      s.ipc.rebuiltHandleAlias[k]?.filter fun new =>
        !(k == handle || k == actual || new == handle || new == actual) := by
  have heq : (s.recordRelease d handle actual).ipc.rebuiltHandleAlias =
      s.ipc.rebuiltHandleAlias.filter fun app new =>
        !(app == handle || app == actual || new == handle || new == actual) := by
    unfold recordRelease
    dsimp only
    split_ifs <;> rfl
  rw [heq, ExtTreeMap.getElem?_filter']

theorem dropHandle_app (k : Nat) (rec : IpcExportRecord) : (rec.dropHandle k).appLocalHandle = rec.appLocalHandle := by
  unfold IpcExportRecord.dropHandle
  split_ifs <;> rfl

theorem dropHandle_of_ne {k : Nat} {rec : IpcExportRecord} (h : rec.localHandle ≠ k) : rec.dropHandle k = rec := by
  unfold IpcExportRecord.dropHandle
  exact if_neg h

theorem ne_of_live_dropHandle {k : Nat} {rec : IpcExportRecord} (h : (rec.dropHandle k).Live) : rec.localHandle ≠ k := by
  intro heq
  have hlive := h.2
  rw [(dropHandle_export k rec).2.2.2.2, if_pos heq] at hlive
  exact hlive rfl

theorem recordRelease_live (s : HookedProcess) (d : Driver) (handle actual : Nat) {rec : IpcExportRecord}
    (hrec : rec ∈ (s.recordRelease d handle actual).ipc.exports) :
    ∃ rec' ∈ s.ipc.exports, rec.appLocalHandle = rec'.appLocalHandle ∧
      (rec.Live → rec = rec' ∧ rec.localHandle ≠ handle ∧ rec.localHandle ≠ actual) := by
  rw [recordRelease_exports] at hrec
  obtain ⟨rec', hrec', rfl⟩ := List.mem_map.1 hrec
  refine ⟨rec', hrec', ?_, fun hlive => ?_⟩
  · split_ifs
    · rw [dropHandle_app, dropHandle_app]
    · exact dropHandle_app ..
  · split_ifs at hlive ⊢ with hactual
    · have h2 := ne_of_live_dropHandle hlive
      rw [dropHandle_of_ne h2] at hlive ⊢
      have h1 := ne_of_live_dropHandle hlive
      rw [dropHandle_of_ne h1] at h2 ⊢
      exact ⟨rfl, h1, h2⟩
    · rw [not_not] at hactual
      have h1 := ne_of_live_dropHandle hlive
      rw [dropHandle_of_ne h1]
      exact ⟨rfl, h1, hactual ▸ h1⟩

theorem getElem?_recordRelease_of_ne (s : HookedProcess) (d : Driver) {handle actual i : Nat} {rec : IpcExportRecord}
    (hrec : s.ipc.exports[i]? = some rec) (h1 : rec.localHandle ≠ handle) (h2 : rec.localHandle ≠ actual) :
    (s.recordRelease d handle actual).ipc.exports[i]? = some rec := by
  rw [recordRelease_exports, List.getElem?_map, hrec, Option.map_some, dropHandle_of_ne h1, dropHandle_of_ne h2, ite_self]

theorem resolve_recordRelease (h : s.ipc.Aliased) (d : Driver) {handle : Nat}
    (hok : s.ipc.rebuiltHandleAlias[handle]? ≠ none → ∃ rec ∈ s.ipc.exports, rec.Live ∧ rec.appLocalHandle = handle)
    {rec : IpcExportRecord} (hrec : rec ∈ s.ipc.exports) (hlive : rec.Live) (h1 : rec.localHandle ≠ handle)
    (h2 : rec.localHandle ≠ s.ipc.resolve handle) :
    (s.recordRelease d handle (s.ipc.resolve handle)).ipc.resolve rec.appLocalHandle =
      s.ipc.resolve rec.appLocalHandle := by
  have hres := h.resolves rec hrec hlive
  have hhandle : rec.appLocalHandle ≠ handle := by
    intro heq
    rw [heq] at hres
    exact h2 hres.symm
  have hactual : rec.appLocalHandle ≠ s.ipc.resolve handle := by
    intro heq
    cases halias : s.ipc.rebuiltHandleAlias[handle]? with
    | none =>
      rw [IpcState.resolve, halias, Option.getD_none] at heq
      exact hhandle heq
    | some new =>
      obtain ⟨rec', hrec', hlive', rfl⟩ := hok (by simp [halias])
      rw [h.resolves rec' hrec' hlive'] at heq h2
      exact h2 (h.own rec hrec rec' hrec' hlive hlive' heq)
  have hself : s.ipc.resolve rec.appLocalHandle =
      s.ipc.rebuiltHandleAlias[rec.appLocalHandle]?.getD rec.appLocalHandle := rfl
  rw [hself] at hres ⊢
  rw [IpcState.resolve, recordRelease_alias]
  cases halias : s.ipc.rebuiltHandleAlias[rec.appLocalHandle]? with
  | none => rfl
  | some new =>
    rw [halias, Option.getD_some] at hres
    rw [hres, Option.filter_some, if_pos]
    simp [hhandle, hactual, h1, h2]

theorem recordRelease_drv (s : HookedProcess) (d : Driver) (handle actual : Nat) :
    (s.recordRelease d handle actual).ipc.drv = d := by
  unfold recordRelease
  dsimp only
  split_ifs <;> rfl

theorem recordMap_alias (s : HookedProcess) (d : Driver) (ptr size handle : Nat) :
    (s.recordMap d ptr size handle).ipc.rebuiltHandleAlias = s.ipc.rebuiltHandleAlias := by
  unfold recordMap mapCreated mapImported recordMapping
  split_ifs <;> rfl

theorem Aliased.recordRelease (h : s.ipc.Aliased) {d : Driver} (hnull : d.isLive 0 = false) {handle : Nat}
    (hok : s.ipc.rebuiltHandleAlias[handle]? ≠ none → ∃ rec ∈ s.ipc.exports, rec.Live ∧ rec.appLocalHandle = handle) :
    (s.recordRelease d handle (s.ipc.resolve handle)).ipc.Aliased where
  nullDead := by
    rw [recordRelease_drv]
    exact hnull
  app rec hrec := by
    obtain ⟨rec', hrec', happ, -⟩ := s.recordRelease_live d handle _ hrec
    rw [happ]
    exact h.app rec' hrec'
  resolves rec hrec hlive := by
    obtain ⟨rec', hrec', -, hsame⟩ := s.recordRelease_live d handle _ hrec
    obtain ⟨rfl, h1, h2⟩ := hsame hlive
    rw [resolve_recordRelease h d hok hrec' hlive h1 h2]
    exact h.resolves rec hrec' hlive
  own rec₁ hrec₁ rec₂ hrec₂ hlive₁ hlive₂ heq := by
    obtain ⟨rec₁', hrec₁', -, hsame₁⟩ := s.recordRelease_live d handle _ hrec₁
    obtain ⟨rec₂', hrec₂', -, hsame₂⟩ := s.recordRelease_live d handle _ hrec₂
    obtain ⟨rfl, -⟩ := hsame₁ hlive₁
    obtain ⟨rfl, -⟩ := hsame₂ hlive₂
    exact h.own rec₁ hrec₁' rec₂ hrec₂' hlive₁ hlive₂ heq

theorem Aliased.recordExport (h : s.ipc.Aliased) {d : Driver} (hd : s.ipc.drv.SameView d) {handle : Nat}
    (hlive : s.ipc.drv.isLive handle = true) (hok : s.ipc.rebuiltHandleAlias[handle]? = none) (type : Nat) (fd : Option Int) :
    (s.recordExport d handle type fd).ipc.Aliased := by
  have hresolve : s.ipc.resolve handle = handle := by rw [IpcState.resolve, hok, Option.getD_none]
  refine ⟨(hd.live 0).trans h.nullDead, fun rec hrec => ?_, fun rec hrec hrecLive => ?_,
    fun rec₁ hrec₁ rec₂ hrec₂ hlive₁ hlive₂ heq => ?_⟩
  · rcases List.mem_append.1 hrec with hrec | hrec
    · exact h.app rec hrec
    · obtain rfl := List.mem_singleton.1 hrec
      rintro rfl
      exact absurd (h.nullDead.symm.trans hlive) Bool.false_ne_true
  · rcases List.mem_append.1 hrec with hrec | hrec
    · exact h.resolves rec hrec hrecLive
    · obtain rfl := List.mem_singleton.1 hrec
      exact hresolve
  · rcases List.mem_append.1 hrec₁ with hrec₁ | hrec₁ <;> rcases List.mem_append.1 hrec₂ with hrec₂ | hrec₂
    · exact h.own rec₁ hrec₁ rec₂ hrec₂ hlive₁ hlive₂ heq
    · -- an export of the same value is one of the same handle
      obtain rfl := List.mem_singleton.1 hrec₂
      have heq : rec₁.appLocalHandle = handle := heq
      have hres := h.resolves rec₁ hrec₁ hlive₁
      rw [heq, hresolve] at hres
      exact hres.symm
    · obtain rfl := List.mem_singleton.1 hrec₁
      exact heq
    · obtain rfl := List.mem_singleton.1 hrec₁
      obtain rfl := List.mem_singleton.1 hrec₂
      rfl

theorem Aliased.call (h : s.ipc.Aliased) (c : HookCall) (hok : s.ValuesApart (.call c)) : (s.call c).ipc.Aliased := by
  have hsame : ∀ t : IpcState, t.drv.isLive 0 = false → t.rebuiltHandleAlias = s.ipc.rebuiltHandleAlias →
      (∀ rec ∈ t.exports, ∃ rec' ∈ s.ipc.exports, rec.appLocalHandle = rec'.appLocalHandle ∧
        rec.tornDown = rec'.tornDown ∧ rec.localHandle = rec'.localHandle) → t.Aliased := by
    intro t hnull halias hrecs
    refine h.mono hnull halias fun rec hrec => ?_
    obtain ⟨rec', hrec', happ, htorn, hlocal⟩ := hrecs rec hrec
    exact ⟨rec', hrec', happ, fun hlive => ⟨⟨htorn ▸ hlive.1, hlocal ▸ hlive.2⟩, hlocal⟩⟩
  have hrefl : ∀ rec ∈ s.ipc.exports, ∃ rec' ∈ s.ipc.exports, rec.appLocalHandle = rec'.appLocalHandle ∧
      rec.tornDown = rec'.tornDown ∧ rec.localHandle = rec'.localHandle :=
    fun rec hrec => ⟨rec, hrec, rfl, rfl, rfl⟩
  have heff := s.call_effect c
  generalize s.call c = s' at heff
  cases heff with
  | rejected hd => exact hsame _ ((hd.live 0).trans h.nullDead) rfl hrefl
  | plain hd => exact hsame _ (hd.adds.null h.nullDead) rfl hrefl
  | created hd hpos => exact hsame _ (hd.adds.null h.nullDead) rfl hrefl
  | exported hd hlive hfd => exact Aliased.recordExport h hd hlive hok _ _
  | imported hd => exact hsame _ (hd.adds.null h.nullDead) rfl hrefl
  | mapped hd =>
    refine hsame _ ?_ ?_ fun rec hrec => ?_
    · rw [recordMap_drv]
      exact (hd.live 0).trans h.nullDead
    · exact recordMap_alias ..
    · rw [recordMap_exports] at hrec
      obtain ⟨rec', hrec', rfl⟩ := List.mem_map.1 hrec
      refine ⟨rec', hrec', ?_⟩
      unfold giveMapping
      split_ifs <;> exact ⟨rfl, rfl, rfl⟩
  | unmapped hd => exact hsame _ ((hd.live 0).trans h.nullDead) rfl hrefl
  | released hd =>
    refine Aliased.recordRelease h ?_ hok
    rw [hd.live, h.nullDead, Bool.false_and]
  | access hd =>
    refine hsame _ ((hd.live 0).trans h.nullDead) rfl fun rec hrec => ?_
    obtain ⟨rec', hrec', rfl | rfl⟩ := mem_recordAccess_exports hrec
    · exact ⟨rec, hrec', rfl, rfl, rfl⟩
    · exact ⟨rec', hrec', rfl, rfl, rfl⟩

theorem Aliased.cycleStep (h : s.ipc.Aliased) (e : CycleEvent) (hok : s.ValuesApart e) : (s.cycleStep e).ipc.Aliased := by
  cases e with
  | call c => exact Aliased.call h c hok
  | stage st =>
    refine h.stage st fun buf hst => ?_
    subst hst
    exact hok

theorem Aliased.releasesOwn (h : s.ipc.Aliased) {rec : IpcExportRecord} (hrec : rec ∈ s.ipc.exports) (hlive : rec.Live) :
    s.ReleasesOwn rec := by
  have hres := h.resolves rec hrec hlive
  have hcall : s.ipc.fns.cuMemRelease = true →
      (s.call (.release rec.appLocalHandle)).ipc.drv = (s.ipc.drv.cuMemRelease rec.localHandle).2 := by
    intro hfns
    show (s.hookCuMemRelease rec.appLocalHandle).ipc.drv = _
    unfold hookCuMemRelease
    rw [hfns]
    rw [IpcState.resolve] at hres
    simp only [Bool.not_true, Bool.false_eq_true, if_false, hres]
    cases hrelease : s.ipc.drv.cuMemRelease rec.localHandle with
    | mk ok d =>
      cases ok with
      | false => rfl
      | true => exact recordRelease_drv ..
  refine ⟨hcall, fun hfns hhandle hok k => ?_, fun i rec' hrec' hlive' hne => ?_⟩
  · rw [hcall hfns]
    rcases s.ipc.drv.cuMemRelease_view rec.localHandle with ⟨hfalse, -⟩ | ⟨-, hd⟩
    · obtain ⟨d', heq, -⟩ := Driver.cuMemRelease_ok hok hhandle
      rw [heq] at hfalse
      exact absurd hfalse (by simp)
    · exact hd.live k
  · have heff := s.call_effect (.release rec.appLocalHandle)
    generalize s.call (.release rec.appLocalHandle) = s' at heff
    cases heff with
    | rejected hd => exact ⟨hrec', rfl⟩
    | released hd =>
      have hmem := List.mem_of_getElem? hrec'
      have h1 : rec'.localHandle ≠ rec.appLocalHandle :=
        fun heq => hne (h.own rec hrec rec' hmem hlive hlive' heq.symm).symm
      have h2 : rec'.localHandle ≠ s.ipc.resolve rec.appLocalHandle := by
        rw [hres]
        exact hne
      exact ⟨getElem?_recordRelease_of_ne s _ hrec' h1 h2,
        resolve_recordRelease h _ (fun _ => ⟨rec, hrec, hlive, rfl⟩) hmem hlive' h1 h2⟩

end Calls

theorem Fresh.aliased {s : HookedProcess} (h : s.Fresh) : s.ipc.Aliased where
  nullDead := h.nullDead
  app rec hrec := by simp [h.exports] at hrec
  resolves rec hrec := by simp [h.exports] at hrec
  own rec hrec := by simp [h.exports] at hrec

/-- **Aliases are exact**, in every run in which no handle value stands for two exports: in every state,
the application's handle of a live export resolves to the export's own handle, and releasing it releases
that one and leaves the others alone. -/
theorem aliases_of_run (s : HookedProcess) (hs : s.Fresh) (events : List CycleEvent)
    (hok : AllSteps ValuesApart cycleStep s events) (pre : List CycleEvent) (hpre : pre <+: events) (rec : IpcExportRecord)
    (hrec : rec ∈ (run cycleStep s pre).ipc.exports) (hlive : rec.Live) :
    (run cycleStep s pre).ipc.resolve rec.appLocalHandle = rec.localHandle ∧ (run cycleStep s pre).ReleasesOwn rec := by
  have hstep : ∀ (s : HookedProcess) e, s.ipc.Aliased → s.ValuesApart e → (s.cycleStep e).ipc.Aliased :=
    fun s e h he => Aliased.cycleStep h e he
  have haliased := invariant_of_allSteps hstep hs.aliased hok pre hpre
  exact ⟨haliased.resolves rec hrec hlive, Aliased.releasesOwn haliased hrec hlive⟩

/-- The teardown and the rebuild of one export. -/
def exportStages : List CycleEvent :=
  [.stage (.saveExports ⟨4096, fun _ => 0⟩), .stage (.rebuildExports ⟨4096, fun _ => 0⟩)]

def exportedCycle : List CycleEvent := exportHistory.map .call ++ exportStages

theorem valuesApart_exportedCycle : AllSteps ValuesApart cycleStep empty exportedCycle := by
  have hentries : (rebuildAlloc (run cycleStep empty (exportedCycle.take 5)).ipc.exportItems
      (run cycleStep empty (exportedCycle.take 5)).ipc.drv).entries = [⟨⟨0, 0x10000, 4096, 0⟩, 12, 0⟩] := rfl
  have htorn : ∀ rec ∈ (run cycleStep empty (exportedCycle.take 5)).ipc.exports, rec.tornDown = true := by decide
  refine ⟨trivial, trivial, trivial, rfl, trivial, ⟨fun e he rec hrec => ⟨fun _ => rfl, fun rec' hrec' hlive => ?_⟩,
    fun e he e' he' hkey => ?_⟩, trivial⟩
  · exact absurd ((htorn rec' hrec').symm.trans hlive.1) (by simp)
  · have he : e ∈ [(⟨⟨0, 0x10000, 4096, 0⟩, 12, 0⟩ : RebuildEntry)] := hentries ▸ he
    have he' : e' ∈ [(⟨⟨0, 0x10000, 4096, 0⟩, 12, 0⟩ : RebuildEntry)] := hentries ▸ he'
    obtain rfl := List.mem_singleton.1 he
    obtain rfl := List.mem_singleton.1 he'
    exact absurd rfl hkey

theorem aliases_exportedCycle : (run cycleStep empty exportedCycle).ipc.resolve 1 = 12 := by
  obtain ⟨hres, -⟩ := aliases_of_run empty fresh_empty exportedCycle valuesApart_exportedCycle exportedCycle
    (List.prefix_refl _) _ (List.mem_of_getElem? (i := 0) rfl) ⟨rfl, by decide⟩
  exact hres

/-- A driver that hands out the value `1`, then `2`, and then `1` again. -/
def reusing : HookedProcess :=
  { empty with ipc := { empty.ipc with drv := { empty.ipc.drv with
      env := { empty.ipc.drv.env with pick := fun n => if n = 12 then 2 else 1 } } } }

/-- In the second cycle the export has its first value again, and the alias of the first cycle is still
there. -/
theorem not_aliases : ¬ ∀ s : HookedProcess, s.Fresh → ∀ (events : List CycleEvent) (rec : IpcExportRecord),
    rec ∈ (run cycleStep s events).ipc.exports → rec.Live →
      (run cycleStep s events).ipc.resolve rec.appLocalHandle = rec.localHandle := by
  intro h
  have hres := h reusing ⟨rfl, rfl, rfl, rfl, rfl, rfl, rfl, rfl, fun _ => rfl, rfl, rfl⟩ (exportedCycle ++ exportStages) _
    (List.mem_of_getElem? (i := 0) rfl) ⟨rfl, by decide⟩
  exact absurd (show 2 = 1 from hres) (by decide)

end HookedProcess

end GpuCr
