import GpuCr.Ipc.Locals

/-!
# Exports: save, teardown and rebuild

`ipc_get_export_data_size`, `ipc_save_and_teardown_all_exports` and `ipc_rebuild_and_restore_all_exports`.
Here the save records the place of each export's bytes, and the rebuild reads it back.
-/

namespace GpuCr

open Lib Lib.Grouping Lib.Layout Std

/-- The record has bytes to save. -/
def IpcExportRecord.active (rec : IpcExportRecord) : Bool :=
  !rec.tornDown && rec.hasMapping && decide (0 < rec.mappedSize)

/-- The record has bytes in the buffer. -/
def IpcExportRecord.tornActive (rec : IpcExportRecord) : Bool :=
  rec.tornDown && rec.hasMapping && decide (0 < rec.mappedSize)

def IpcExportRecord.dev (rec : IpcExportRecord) : Int := if rec.hasSavedProp then rec.savedProp.locationId else -1

namespace IpcState

/-! ### Save and teardown -/

def ipcGetExportDataSize (s : IpcState) : Nat := ((s.exports.filter (·.active)).map (·.mappedSize)).sum

/-- The active records with their indices. -/
def activeExports (s : IpcState) : List (IpcExportRecord × Nat) := s.exports.zipIdx.filter (·.1.active)

def exportSlot (x : (IpcExportRecord × Nat) × Nat) : Slot := ⟨x.1.2, x.1.1.mappedVaddr, x.1.1.mappedSize, x.2⟩

/-- `device_exports`, each with its place: the groups one after the other. -/
def deviceExports (s : IpcState) : List (List Slot) :=
  (placeGroups (·.1.mappedSize) 0 ((group (·.1.dev) s.activeExports).map Prod.snd)).map fun g => g.map exportSlot

/-- `total_needed`, summed up device by device. -/
def totalNeeded (s : IpcState) : Nat := (s.deviceExports.map fun g => (g.map (·.size)).sum).sum

/-- `rec.saved_data_offset = offset` for the slots the copy loop has come to. -/
def recordOffset (exports : List IpcExportRecord) (x : Slot) : List IpcExportRecord :=
  exports.modify x.key fun rec => { rec with savedDataOffset := x.offset, hasSavedDataOffset := true }

/-- Step 2. -/
def closeFd (rec : IpcExportRecord) : IpcExportRecord :=
  if rec.tornDown then rec else if 0 ≤ rec.exportedFd then { rec with exportedFd := -1 } else rec

/-- Step 3, for one record. -/
def teardownExport (fns : IpcFns) (saved : List Slot) (x : Driver × List ReleasedAlloc)
    (r : IpcExportRecord × Nat) : Driver × List ReleasedAlloc :=
  if r.1.tornDown || !r.1.hasMapping then x
  else
    let u := x.1.unmapAndRelease fns r.1.mappedVaddr r.1.mappedSize r.1.localHandle
    (u.2, if u.1 && saved.any (·.key == r.2) then
      ⟨true, r.1.mappedVaddr, r.1.mappedSize, fun i => x.1.mem (r.1.mappedVaddr + i)⟩ :: x.2 else x.2)

def markTorn (rec : IpcExportRecord) : IpcExportRecord :=
  if rec.tornDown || !rec.hasMapping then rec else { rec with tornDown := true, localHandle := 0 }

/-- `none` stands for the return value `-1`. -/
def ipcSaveAndTeardownAllExports (s : IpcState) (buf : HostBuf) : Option Nat × IpcState × HostBuf :=
  if !(s.fns.cuMemRelease && s.fns.cuMemcpyDtoH) then (none, s, buf)
  else if buf.size < s.totalNeeded then (none, s, buf)
  else
    let pin := s.drv.pinHost s.fns s.totalNeeded
    let c := saveGroups (pin.1 && s.fns.asyncDtoH) true s.deviceExports ⟨pin.2, buf.data, [], []⟩
    let exports := c.2.2.touched.foldl recordOffset s.exports
    let drv := c.2.2.drv.unpinHost pin.1
    let buf := { buf with data := c.2.2.data }
    if !c.1 then (none, { s with drv := drv, exports := exports }, buf)
    else
      let closed := exports.map closeFd
      let t := closed.zipIdx.foldl (teardownExport s.fns c.2.2.saved) (drv, s.released)
      (some (closed.countP fun rec => !rec.tornDown && rec.hasMapping),
        { s with drv := t.1, released := t.2, exports := closed.map markTorn }, buf)

/-! ### Rebuild -/

def exportItem (s : IpcState) (x : IpcExportRecord × Nat) : RebuildItem where
  key := x.2
  vaddr := x.1.mappedVaddr
  size := x.1.mappedSize
  dev := x.1.savedProp.locationId
  access := s.accessOf x.1.mappedVaddr
    (if x.1.hasAccess then x.1.accessDesc else deviceAccess x.1.savedProp.locationId)
  savedOffset := if x.1.hasSavedDataOffset then some x.1.savedDataOffset else none

/-- The torn-down records with bytes and properties; one without properties is reported and left out. -/
def exportItems (s : IpcState) : List RebuildItem :=
  (s.exports.zipIdx.filter fun x => x.1.tornActive && x.1.hasSavedProp).map s.exportItem

/-- Phase C: the new descriptor, the handle alias and the tables. -/
def trackExport (s : IpcState) (e : RebuildEntry) : IpcState :=
  match s.exports[e.slot.key]? with
  | none => s
  | some rec =>
    let c := if s.fns.cuMemExport then s.drv.calls 1 else (false, s.drv)
    let newFd : Int := if c.1 then s.drv.env.pick s.drv.clock else -1
    { s with
      drv := c.2
      rebuiltHandleAlias := if rec.appLocalHandle ≠ 0 ∧ rec.appLocalHandle ≠ e.newHandle then
        s.rebuiltHandleAlias.insert rec.appLocalHandle e.newHandle else s.rebuiltHandleAlias
      exports := s.exports.set e.slot.key
        { rec with localHandle := e.newHandle, exportedFd := newFd, tornDown := false }
      createdAllocs := s.createdAllocs.insert e.newHandle ⟨rec.mappedSize, rec.savedProp⟩
      handleToVa := s.handleToVa.insert e.newHandle rec.mappedVaddr }

def ipcRebuildAndRestoreAllExports (s : IpcState) (buf : HostBuf) : Option Nat × IpcState :=
  if !(s.fns.cuMemCreate && s.fns.cuMemMap && s.fns.cuMemcpyHtoD && s.fns.cuMemAddressReserve) then (none, s)
  else
    let a := rebuildAlloc s.exportItems s.drv
    let c := rebuildCopy s.fns buf a
    (some a.entries.length, (a.ordered.foldl trackExport { s with drv := c.drv }).forget true a.entries)

/-! ### What the save leaves -/

section Save
variable {s : IpcState}

theorem mem_activeExports {x : IpcExportRecord × Nat} :
    x ∈ s.activeExports ↔ s.exports[x.2]? = some x.1 ∧ x.1.active = true := by
  rw [activeExports, List.mem_filter, List.mem_zipIdx_iff_getElem?]

/-- The active records in the order the bytes are saved in. -/
def saveOrder (s : IpcState) : List (IpcExportRecord × Nat) := flatten (group (·.1.dev) s.activeExports)

theorem perm_saveOrder (s : IpcState) : s.saveOrder.Perm s.activeExports := perm_flatten_group _ _

theorem flatten_deviceExports (s : IpcState) :
    s.deviceExports.flatten = (place (·.1.mappedSize) 0 s.saveOrder).map exportSlot := by
  have hflat : ((group (·.1.dev) s.activeExports).map Prod.snd).flatten = s.saveOrder := rfl
  rw [deviceExports, ← hflat, ← flatten_placeGroups, List.map_flatten]

theorem sum_saveOrder (s : IpcState) :
    (s.saveOrder.map (·.1.mappedSize)).sum = s.ipcGetExportDataSize := by
  have hfst : s.activeExports.map Prod.fst = s.exports.filter (·.active) := by
    conv_rhs => rw [← List.zipIdx_map_fst 0 s.exports, List.filter_map]
    rfl
  rw [(s.perm_saveOrder.map _).sum_eq, ipcGetExportDataSize, ← hfst, List.map_map]
  rfl

/-- The buffer the handler asks for is as large as the save needs it. -/
theorem totalNeeded_eq (s : IpcState) : s.totalNeeded = s.ipcGetExportDataSize := by
  have hflat : s.totalNeeded = (s.deviceExports.flatten.map (·.size)).sum := by
    rw [totalNeeded, List.map_flatten, List.sum_flatten, List.map_map]
    rfl
  have hsizes : s.deviceExports.flatten.map (·.size) = s.saveOrder.map (·.1.mappedSize) := by
    conv_rhs => rw [← map_fst_place (·.1.mappedSize) 0 s.saveOrder, List.map_map]
    rw [flatten_deviceExports, List.map_map]
    rfl
  rw [hflat, hsizes, sum_saveOrder]

theorem mem_deviceExports {x : Slot} (hx : x ∈ s.deviceExports.flatten) :
    (∃ rec, s.exports[x.key]? = some rec ∧ rec.active = true ∧ x.vaddr = rec.mappedVaddr ∧
      x.size = rec.mappedSize) ∧ x.offset + x.size ≤ s.ipcGetExportDataSize := by
  rw [flatten_deviceExports] at hx
  obtain ⟨y, hy, rfl⟩ := List.mem_map.1 hx
  have hbound := (bounds_of_mem_place hy).2
  rw [sum_saveOrder] at hbound
  have hactive : y.1 ∈ s.activeExports := by
    refine s.perm_saveOrder.mem_iff.1 ?_
    have := List.mem_map_of_mem (f := Prod.fst) hy
    rwa [map_fst_place] at this
  obtain ⟨h1, h2⟩ := mem_activeExports.1 hactive
  refine ⟨⟨y.1.1, h1, h2, rfl, rfl⟩, ?_⟩
  simpa [exportSlot] using hbound

theorem apart_deviceExports (s : IpcState) : s.deviceExports.flatten.Pairwise Slot.apart := by
  rw [flatten_deviceExports, List.pairwise_map]
  exact (pairwise_place (·.1.mappedSize) 0 s.saveOrder).imp Or.inl

theorem nodup_key_deviceExports (s : IpcState) : (s.deviceExports.flatten.map (·.key)).Nodup := by
  have hkeys : s.deviceExports.flatten.map (·.key) = s.saveOrder.map Prod.snd := by
    conv_rhs => rw [← map_fst_place (·.1.mappedSize) 0 s.saveOrder, List.map_map]
    rw [flatten_deviceExports, List.map_map]
    rfl
  rw [hkeys, (s.perm_saveOrder.map Prod.snd).nodup_iff]
  refine List.Nodup.sublist (List.filter_sublist.map Prod.snd) ?_
  rw [List.zipIdx_map_snd]
  exact List.nodup_range'

theorem eq_of_key_deviceExports {x y : Slot} (hx : x ∈ s.deviceExports.flatten)
    (hy : y ∈ s.deviceExports.flatten) (hkey : x.key = y.key) : x = y :=
  List.inj_on_of_nodup_map s.nodup_key_deviceExports hx hy hkey

theorem foldl_recordOffset (xs : List Slot) (exports : List IpcExportRecord) {i : Nat} {rec' : IpcExportRecord}
    (h : (xs.foldl recordOffset exports)[i]? = some rec') :
    ∃ rec, exports[i]? = some rec ∧ ((rec' = rec ∧ ∀ x ∈ xs, x.key ≠ i) ∨
      ∃ x ∈ xs, x.key = i ∧ rec' = { rec with savedDataOffset := x.offset, hasSavedDataOffset := true }) := by
  induction xs generalizing exports with
  | nil => exact ⟨rec', h, Or.inl ⟨rfl, by simp⟩⟩
  | cons y xs ih =>
    obtain ⟨rec₁, h₁, hrec⟩ := ih _ h
    rw [recordOffset, List.getElem?_modify] at h₁
    obtain ⟨rec, hget, heq⟩ := Option.map_eq_some_iff.1 h₁
    refine ⟨rec, hget, ?_⟩
    by_cases hy : y.key = i
    · rw [if_pos hy] at heq
      right
      rcases hrec with ⟨rfl, -⟩ | ⟨x, hx, hxi, rfl⟩
      · exact ⟨y, List.mem_cons_self .., hy, heq.symm⟩
      · exact ⟨x, List.mem_cons_of_mem _ hx, hxi, by rw [← heq]⟩
    · rw [if_neg hy] at heq
      subst heq
      rcases hrec with ⟨rfl, hne⟩ | ⟨x, hx, hxi, rfl⟩
      · exact Or.inl ⟨rfl, List.forall_mem_cons.2 ⟨hy, hne⟩⟩
      · exact Or.inr ⟨x, List.mem_cons_of_mem _ hx, hxi, rfl⟩

theorem teardownExport_mem (fns : IpcFns) (saved : List Slot) (x : Driver × List ReleasedAlloc)
    (r : IpcExportRecord × Nat) : (teardownExport fns saved x r).1.mem = x.1.mem := by
  unfold teardownExport
  split_ifs
  · rfl
  · exact (x.1.unmapAndRelease_frame ..).1

theorem mem_foldl_teardownExport {fns : IpcFns} {saved : List Slot} (recs : List (IpcExportRecord × Nat))
    (x : Driver × List ReleasedAlloc) {t : ReleasedAlloc}
    (ht : t ∈ (recs.foldl (teardownExport fns saved) x).2) :
    t ∈ x.2 ∨ ∃ r ∈ recs, r.1.tornDown = false ∧ r.1.hasMapping = true ∧ (∃ y ∈ saved, y.key = r.2) ∧
      t = ⟨true, r.1.mappedVaddr, r.1.mappedSize, fun i => x.1.mem (r.1.mappedVaddr + i)⟩ := by
  induction recs generalizing x with
  | nil => exact Or.inl ht
  | cons r recs ih =>
    have hmem := teardownExport_mem fns saved x r
    rcases ih _ ht with ht | ⟨r', hr', h1, h2, h3, h4⟩
    swap
    · exact Or.inr ⟨r', List.mem_cons_of_mem _ hr', h1, h2, h3, by rw [h4, hmem]⟩
    unfold teardownExport at ht
    dsimp only at ht
    split_ifs at ht with hskip hsaved
    · exact Or.inl ht
    · rcases List.mem_cons.1 ht with rfl | ht
      · right
        rw [Bool.or_eq_true, not_or] at hskip
        rw [Bool.and_eq_true, List.any_eq_true] at hsaved
        obtain ⟨-, y, hy, hkey⟩ := hsaved
        exact ⟨r, List.mem_cons_self .., by simpa using hskip.1, by simpa using hskip.2, ⟨y, hy, by simpa using hkey⟩, rfl⟩
      · exact Or.inl ht
    · exact Or.inl ht

theorem closeFd_of_torn {rec : IpcExportRecord} (h : rec.tornDown = true) : closeFd rec = rec := by
  rw [closeFd, if_pos h]

theorem closeFd_eq (rec : IpcExportRecord) : ∃ fd, closeFd rec = { rec with exportedFd := fd } := by
  unfold closeFd
  split_ifs
  · exact ⟨rec.exportedFd, rfl⟩
  · exact ⟨-1, rfl⟩
  · exact ⟨rec.exportedFd, rfl⟩

theorem markTorn_of_torn {rec : IpcExportRecord} (h : rec.tornDown = true) : markTorn rec = rec := by
  rw [markTorn, h, Bool.true_or, if_pos rfl]

/-- A record without bytes to save has bytes in the buffer after the teardown if it had some before. -/
theorem tornActive_markTorn {rec : IpcExportRecord} (h : rec.active = false) :
    (markTorn (closeFd rec)).tornActive = rec.tornActive ∧
      (markTorn (closeFd rec)).hasSavedProp = rec.hasSavedProp := by
  obtain ⟨fd, hfd⟩ := closeFd_eq rec
  rw [hfd]
  unfold markTorn
  unfold IpcExportRecord.active at h
  unfold IpcExportRecord.tornActive
  split_ifs with hskip
  · exact ⟨rfl, rfl⟩
  · rw [Bool.or_eq_true, not_or] at hskip
    simp_all

theorem saveExports_noActive (hnone : ∀ rec ∈ s.exports, rec.active = false) (buf : HostBuf) :
    (∀ t ∈ (s.ipcSaveAndTeardownAllExports buf).2.1.released, t ∈ s.released) ∧
      (s.ipcSaveAndTeardownAllExports buf).2.1.exportItems = s.exportItems ∧
      (s.ipcSaveAndTeardownAllExports buf).2.2 = buf := by
  have hactive : s.activeExports = [] := by
    refine List.filter_eq_nil_iff.2 fun x hx => ?_
    simp [hnone x.1 (List.fst_mem_of_mem_zipIdx hx)]
  have hdev : s.deviceExports = [] := by
    rw [deviceExports, hactive]
    rfl
  unfold ipcSaveAndTeardownAllExports
  dsimp only
  rw [hdev]
  split_ifs with h1 h2 h3
  · exact ⟨fun t ht => ht, rfl, rfl⟩
  · exact ⟨fun t ht => ht, rfl, rfl⟩
  · simp [saveGroups] at h3
  · refine ⟨fun t ht => ?_, ?_, rfl⟩
    · rcases mem_foldl_teardownExport _ _ ht with ht | ⟨r, -, -, -, ⟨y, hy, -⟩, -⟩
      · exact ht
      · exact absurd hy List.not_mem_nil
    · simp only [exportItems, saveGroups, List.foldl_nil, List.map_map, List.zipIdx_map, List.filter_map]
      have hfilter : s.exports.zipIdx.filter ((fun x : IpcExportRecord × Nat => x.1.tornActive && x.1.hasSavedProp) ∘
            Prod.map (markTorn ∘ closeFd) id) =
          s.exports.zipIdx.filter fun x => x.1.tornActive && x.1.hasSavedProp := by
        refine List.filter_congr fun x hx => ?_
        obtain ⟨h1, h2⟩ := tornActive_markTorn (hnone x.1 (List.fst_mem_of_mem_zipIdx hx))
        exact congrArg₂ (· && ·) h1 h2
      rw [hfilter]
      refine List.map_congr_left fun x hx => ?_
      have htorn : x.1.tornDown = true := by
        have := (List.mem_filter.1 hx).2
        simp only [IpcExportRecord.tornActive, Bool.and_eq_true] at this
        exact this.1.1.1
      show exportItem _ (markTorn (closeFd x.1), x.2) = _
      rw [closeFd_of_torn htorn, markTorn_of_torn htorn]
      rfl

theorem mem_exportSlots {i : Nat} {rec : IpcExportRecord} (hrec : s.exports[i]? = some rec)
    (htorn : rec.tornActive = true) (hprop : rec.hasSavedProp = true) (hoff : rec.hasSavedDataOffset = true) :
    ⟨i, rec.mappedVaddr, rec.mappedSize, rec.savedDataOffset⟩ ∈ RebuildItem.slots s.exportItems 0 := by
  have hmem : s.exportItem (rec, i) ∈ s.exportItems :=
    List.mem_map_of_mem (List.mem_filter.2 ⟨List.mem_zipIdx_iff_getElem?.2 hrec, by simp [htorn, hprop]⟩)
  refine RebuildItem.mem_slots_of_savedOffset hmem ?_ 0
  simp [exportItem, hoff]

theorem record_of_touched {xs : List Slot} (hxs : ∀ x ∈ xs, x ∈ s.deviceExports.flatten) {x : Slot} (hx : x ∈ xs)
    {rec : IpcExportRecord} (hrec : s.exports[x.key]? = some rec) (hactive : rec.active = true) :
    ∃ fd, (((xs.foldl recordOffset s.exports).map closeFd).map markTorn)[x.key]? = some { rec with
      savedDataOffset := x.offset
      hasSavedDataOffset := true
      exportedFd := fd
      tornDown := true
      localHandle := 0 } := by
  obtain ⟨rec₁, hrec₁⟩ : ∃ rec₁, (xs.foldl recordOffset s.exports)[x.key]? = some rec₁ := by
    have hlen : (xs.foldl recordOffset s.exports).length = s.exports.length := by
      clear hxs hx
      generalize s.exports = exports
      induction xs generalizing exports with
      | nil => rfl
      | cons y xs ih => exact (ih _).trans (List.length_modify ..)
    refine ⟨_, List.getElem?_eq_getElem (hlen ▸ (List.getElem?_eq_some_iff.1 hrec).1)⟩
  obtain ⟨rec₂, hrec₂, hoff⟩ := foldl_recordOffset _ _ hrec₁
  obtain rfl : rec = rec₂ := Option.some.inj (hrec.symm.trans hrec₂)
  obtain rfl : rec₁ = { rec with savedDataOffset := x.offset, hasSavedDataOffset := true } := by
    rcases hoff with ⟨-, hne⟩ | ⟨y, hy, hkey, rfl⟩
    · exact absurd rfl (hne x hx)
    · rw [eq_of_key_deviceExports (hxs y hy) (hxs x hx) hkey]
  simp only [IpcExportRecord.active, Bool.and_eq_true, Bool.not_eq_true'] at hactive
  obtain ⟨fd, hfd⟩ := closeFd_eq { rec with savedDataOffset := x.offset, hasSavedDataOffset := true }
  refine ⟨fd, ?_⟩
  rw [List.getElem?_map, List.getElem?_map, hrec₁, Option.map_some, Option.map_some, hfd]
  simp [markTorn, hactive.1.1, hactive.1.2]

/-- What the save adds to the history can be rebuilt from the buffer. -/
theorem saveExports_heldIn (hprop : ∀ rec ∈ s.exports, rec.active = true → rec.hasSavedProp = true)
    (buf : HostBuf) : ∀ t ∈ (s.ipcSaveAndTeardownAllExports buf).2.1.released, t ∈ s.released ∨
      t.isExport = true ∧ t.HeldIn (s.ipcSaveAndTeardownAllExports buf).2.2
        (RebuildItem.slots (s.ipcSaveAndTeardownAllExports buf).2.1.exportItems 0) := by
  have hpin := s.drv.same_pinHost s.fns s.totalNeeded
  unfold ipcSaveAndTeardownAllExports
  dsimp only
  generalize s.drv.pinHost s.fns s.totalNeeded = pin at hpin
  obtain ⟨hf, hext⟩ := saveGroups_spec (pin.1 && s.fns.asyncDtoH) true s.deviceExports (d := s.drv)
    (r := ⟨pin.2, buf.data, [], []⟩) ⟨hpin, by simp⟩ s.apart_deviceExports (by simp)
  have hvis := saveGroups_visits (pin.1 && s.fns.asyncDtoH) true s.deviceExports ⟨pin.2, buf.data, [], []⟩
  generalize saveGroups (pin.1 && s.fns.asyncDtoH) true s.deviceExports ⟨pin.2, buf.data, [], []⟩ = c at hf hext hvis
  have hdrv := hf.same.trans (c.2.2.drv.same_unpinHost pin.1)
  split_ifs with h1 h2 h3
  · exact fun t ht => Or.inl ht
  · exact fun t ht => Or.inl ht
  · exact fun t ht => Or.inl ht
  intro t ht
  rcases mem_foldl_teardownExport _ _ ht with ht | ⟨⟨rec', i⟩, hr, htorn, hmapping, ⟨x, hx, hkey⟩, rfl⟩
  · exact Or.inl ht
  refine Or.inr ⟨rfl, ?_⟩
  dsimp only at hkey
  subst hkey
  have hslot : x ∈ s.deviceExports.flatten := (hext.adds x hx).resolve_left (by simp)
  have htouched : x ∈ c.2.2.touched := (hvis.saved x hx).resolve_left (by simp)
  obtain ⟨⟨rec, hrec, hactive, hvaddr, hsize⟩, hbound⟩ := mem_deviceExports hslot
  obtain ⟨fd, hfinal⟩ := record_of_touched (fun y hy => (hvis.adds y hy).resolve_left (by simp)) htouched hrec hactive
  have hsame : rec'.mappedVaddr = rec.mappedVaddr ∧ rec'.mappedSize = rec.mappedSize := by
    rw [List.mem_zipIdx_iff_getElem?] at hr
    rw [List.getElem?_map, hr, Option.map_some] at hfinal
    have hmark : (markTorn rec').mappedVaddr = rec'.mappedVaddr ∧ (markTorn rec').mappedSize = rec'.mappedSize := by
      unfold markTorn
      split_ifs <;> exact ⟨rfl, rfl⟩
    rw [← hmark.1, ← hmark.2, Option.some.inj hfinal]
    exact ⟨rfl, rfl⟩
  refine ⟨x, ?_, hvaddr.trans hsame.1.symm, hsize.trans hsame.2.symm, Nat.le_trans hbound (s.totalNeeded_eq ▸ Nat.not_lt.1 h2), ?_⟩
  · rw [show x = ⟨x.key, rec.mappedVaddr, rec.mappedSize, x.offset⟩ by rw [← hvaddr, ← hsize]]
    refine @mem_exportSlots _ x.key { rec with
      savedDataOffset := x.offset
      hasSavedDataOffset := true
      exportedFd := fd
      tornDown := true
      localHandle := 0 } hfinal ?_ (hprop rec (List.mem_of_getElem? hrec) hactive) rfl
    simp only [IpcExportRecord.active, Bool.and_eq_true] at hactive
    simp [IpcExportRecord.tornActive, hactive.1.2, of_decide_eq_true hactive.2]
  · intro j hj
    rw [hsame.2, ← hsize] at hj
    refine (hf.saved x hx j hj).trans ?_
    rw [hvaddr, hsame.1]
    exact (congrFun hdrv.mem _).symm

end Save

theorem foldl_trackExport_frame (entries : List RebuildEntry) (s : IpcState) :
    (entries.foldl trackExport s).localAllocs = s.localAllocs ∧
      (entries.foldl trackExport s).vaAccessDescs = s.vaAccessDescs ∧
      (entries.foldl trackExport s).fns = s.fns ∧ (entries.foldl trackExport s).released = s.released := by
  induction entries generalizing s with
  | nil => exact ⟨rfl, rfl, rfl, rfl⟩
  | cons e entries ih =>
    have hstep : (s.trackExport e).localAllocs = s.localAllocs ∧ (s.trackExport e).vaAccessDescs = s.vaAccessDescs ∧
        (s.trackExport e).fns = s.fns ∧ (s.trackExport e).released = s.released := by
      unfold trackExport
      split <;> exact ⟨rfl, rfl, rfl, rfl⟩
    obtain ⟨h1, h2, h3, h4⟩ := ih (s.trackExport e)
    exact ⟨h1.trans hstep.1, h2.trans hstep.2.1, h3.trans hstep.2.2.1, h4.trans hstep.2.2.2⟩

end IpcState

end GpuCr
