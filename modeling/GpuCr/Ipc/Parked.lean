import GpuCr.Ipc.SaveFirst

/-!
# Torn down, with the bytes in two buffers

What a save of the exports and a save of the local allocations leave together, and what the two rebuilds make of it
later. A range whose unmapping has failed is still mapped then: the rebuild can not map it again, and leaves it and its
bytes alone.
-/

namespace GpuCr

open Lib Lib.Run Lib.Grouping Lib.Layout Std

/-! ### What is mapped already -/

theorem Driver.mem_run_tearStep {d : Driver} {m : Mapping} (hm : m ∈ d.maps) {ts : List TearTarget}
    (hne : ∀ t ∈ ts, t.va ≠ m.va) : m ∈ (run tearStep d ts).maps := by
  induction ts generalizing d with
  | nil => exact hm
  | cons t ts ih =>
    obtain ⟨hva, hne⟩ := List.forall_mem_cons.1 hne
    refine ih (d := d.tearStep t) ?_ hne
    rw [tearStep_maps]
    unfold cuMemUnmap call
    split_ifs
    · exact List.mem_filter.2 ⟨hm, bne_iff_ne.2 hva.symm⟩
    · exact hm

theorem RebuildItem.mapNew_failed {x : RebuildItem} {d : Driver} (h : (x.mapNew d).1 = none) :
    (x.mapNew d).2.mem = d.mem := by
  have hcreate := (d.cuMemCreate_frame x.size).1
  unfold mapNew at h ⊢
  split at h
  case h_1 d₁ heq =>
    rw [heq] at hcreate
    exact hcreate
  case h_2 newHandle d₁ heq =>
    rw [heq] at hcreate
    split at h
    case h_1 d₂ heq₂ =>
      have hmap : (d₁.cuMemMap x.vaddr x.size newHandle).2.mem = d₁.mem := by
        unfold Driver.cuMemMap at heq₂ ⊢
        split_ifs at heq₂ ⊢
        · exact absurd (congrArg Prod.fst heq₂) (by simp)
        · rfl
      rw [heq₂] at hmap
      exact (d₂.cuMemRelease_frame newHandle).1.trans (hmap.trans hcreate)
    case h_2 d₂ heq₂ => exact absurd h (by simp)

theorem foldl_item_taken (items : List RebuildItem) (r : AllocRun) {m : Mapping} (hm : m ∈ r.drv.maps) {a : Nat}
    (ha : m.va ≤ a ∧ a < m.va + m.size) : (items.foldl AllocRun.item r).drv.mem a = r.drv.mem a := by
  induction items generalizing r m with
  | nil => rfl
  | cons x items ih =>
    obtain ⟨hgrows, -, hfree⟩ := x.mapNew_keys r.drv
    have hdrv := (r.item_spec x).1
    rw [← hdrv] at hgrows
    obtain ⟨m', hm', hkey, -⟩ := hgrows m hm
    simp only [Mapping.key, Prod.mk.injEq] at hkey
    refine (ih (r.item x) hm' (by omega)).trans ?_
    rw [hdrv]
    by_cases hnone : (x.mapNew r.drv).1 = none
    · rw [RebuildItem.mapNew_failed hnone]
    · have := hfree hnone m hm
      exact (x.mapNew_frame r.drv).1 a (by omega)

theorem AllocRun.Tracks.apart_old {d : Driver} {r : AllocRun} (h : r.Tracks d) {e : RebuildEntry} (he : e ∈ r.entries)
    {m : Mapping} (hm : m ∈ d.maps) : e.slot.vaddr + e.slot.size ≤ m.va ∨ m.va + m.size ≤ e.slot.vaddr := by
  have hmaps : (r.drv.maps.map Mapping.key).Pairwise keyApart := List.pairwise_map.2 r.drv.maps_apart
  rw [h.keys] at hmaps
  exact (List.pairwise_append.1 hmaps).2.2 e.key (List.mem_map_of_mem (List.mem_reverse.2 he)) m.key
    (List.mem_map_of_mem hm)

namespace IpcState

/-! ### The rebuild of the exports -/

section Exports
variable {s t : IpcState} {buf : HostBuf}

/-- On a reliable driver every export can be read and reads what it read before, whether its range was unmapped or
not. -/
theorem Copied.back (h : Copied s t buf) (hlive : s.LiveExports) (hmaps : ∀ m ∈ t.drv.maps, m ∈ s.drv.maps)
    (hmem : t.drv.mem = s.drv.mem) (henv : t.drv.env.Reliable) (hfns : t.fns.Rebuildable)
    (hsize : s.ipcGetExportDataSize ≤ buf.size) {rec : IpcExportRecord} (hrec : rec ∈ s.exports)
    (hmap : rec.hasMapping = true) (hacc : s.drv.accessible rec.mappedVaddr rec.mappedSize = true) :
    (t.ipcRebuildAndRestoreAllExports buf).2.drv.accessible rec.mappedVaddr rec.mappedSize = true ∧
      ∀ j < rec.mappedSize,
        (t.ipcRebuildAndRestoreAllExports buf).2.drv.mem (rec.mappedVaddr + j) = s.drv.mem (rec.mappedVaddr + j) := by
  by_cases hfree : ∀ m ∈ t.drv.maps, rec.mappedVaddr + rec.mappedSize ≤ m.va ∨ m.va + m.size ≤ rec.mappedVaddr
  · exact (h.restored hlive henv hfns hsize hrec hmap hfree).2
  -- what is in the way is the mapping itself
  simp only [not_forall, not_or, Nat.not_le] at hfree
  obtain ⟨m, hm, hmeets⟩ := hfree
  obtain ⟨n, hn, hva, hsz⟩ := Driver.exists_mapping (hlive.mapped rec hrec hmap)
  have heq : n = m := by
    by_contra hne
    have hapart := s.drv.maps_apart.forall hn (hmaps m hm) hne
    unfold Mapping.apart at hapart
    omega
  subst heq
  have hold : t.drv.accessible rec.mappedVaddr rec.mappedSize = true := by
    rw [Driver.accessible, List.any_eq_true] at hacc ⊢
    obtain ⟨m', hm', hin⟩ := hacc
    have hm'n : m' = n := by
      by_contra hne
      have hapart := s.drv.maps_apart.forall hm' hn hne
      have := s.drv.maps_pos n hn
      simp only [Bool.and_eq_true, decide_eq_true_eq] at hin
      unfold Mapping.apart at hapart
      omega
    exact ⟨n, hm, hm'n ▸ hin⟩
  have htracks : (rebuildAlloc t.exportItems t.drv).Tracks t.drv := (AllocRun.tracks_start t.drv 0).foldl t.exportItems
  have hsame := same_rebuildExports hfns buf
  have hcopy := rebuildCopy_spec t.fns buf htracks.apart
  constructor
  · rw [hsame.accessible, Driver.accessible, hcopy.maps]
    exact (foldl_item_grows t.exportItems ⟨t.drv, [], 0⟩).accessible hold
  · intro j hj
    rw [hsame.mem, hcopy.frame]
    · refine (foldl_item_taken t.exportItems ⟨t.drv, [], 0⟩ hm (by omega)).trans ?_
      exact congrFun hmem _
    · intro x hx
      obtain ⟨e, he, rfl⟩ := List.mem_map.1 hx
      have := htracks.apart_old he hm
      omega

theorem Copied.maps_back (h : Copied s t buf) (hlive : ∀ rec ∈ s.exports, rec.tornDown = false) (hfns : t.fns.Rebuildable)
    {m : Mapping} (hm : m ∈ (t.ipcRebuildAndRestoreAllExports buf).2.drv.maps) :
    (∃ m' ∈ t.drv.maps, m'.va = m.va ∧ m'.size = m.size) ∨
      ∃ rec ∈ s.exports, rec.hasMapping = true ∧ rec.mappedVaddr = m.va ∧ rec.mappedSize = m.size := by
  have htracks : (rebuildAlloc t.exportItems t.drv).Tracks t.drv := (AllocRun.tracks_start t.drv 0).foldl t.exportItems
  rw [(same_rebuildExports hfns buf).maps, (rebuildCopy_spec t.fns buf htracks.apart).maps] at hm
  rcases htracks.cases hm with ⟨m', hm', hkey⟩ | ⟨e, he, hkey⟩
  · simp only [Mapping.key, Prod.mk.injEq] at hkey
    exact Or.inl ⟨m', hm', hkey.1, hkey.2.1⟩
  · simp only [Mapping.key, RebuildEntry.key, Prod.mk.injEq] at hkey
    obtain ⟨x, hx, -, hva, hsz, -⟩ := ((foldl_item_entries t.exportItems ⟨t.drv, [], 0⟩).2 e he).resolve_left (by simp)
    obtain ⟨rec, hrec, hactive, hva', hsz', -⟩ := h.item hlive hx
    simp only [IpcExportRecord.active, Bool.and_eq_true] at hactive
    exact Or.inr ⟨rec, List.mem_of_getElem? hrec, hactive.1.2, by omega, by omega⟩

end Exports

/-! ### The local allocations -/

section Locals
variable {s : IpcState} {buf : HostBuf}

theorem saveLocals_buf (hfns : s.fns.Resolved) (hsize : s.ipcGetLocalAllocDataSize ≤ buf.size) :
    (s.ipcSaveAndTeardownLocalAllocs buf).2.2 = { buf with data := (s.localCopies buf).2.2.data } := by
  unfold ipcSaveAndTeardownLocalAllocs
  rw [hfns.release, hfns.dtoh, Bool.and_self, Bool.not_true, if_neg Bool.false_ne_true, if_neg (Nat.not_lt.2 hsize)]
  show Prod.snd (Prod.snd (if !(s.localCopies buf).1 then _ else _)) = _
  cases (s.localCopies buf).1 <;> rfl

theorem saveLocals_copied (hfns : s.fns.Resolved) (hsize : s.ipcGetLocalAllocDataSize ≤ buf.size)
    (hok : (s.localCopies buf).1 = true) (hall : ∀ x ∈ s.localSlots.flatten, x ∈ (s.localCopies buf).2.2.saved)
    (hasc : s.DevicesAscend) :
    (s.ipcSaveAndTeardownLocalAllocs buf).2.1.localAllocs = s.localEntries.map (fun e => { e.record with tornDown := true }) ∧
      ∀ x ∈ place (·.size) 0 s.localEntries, ∀ i < x.1.size,
        (s.ipcSaveAndTeardownLocalAllocs buf).2.2.data (x.2 + i) = s.drv.mem (x.1.vaddr + i) := by
  constructor
  · have hcount := saveGroups_count _ _ _ _ hok
    rw [List.length_map] at hcount
    have hcount : (s.localCopies buf).2.1 = s.deviceAllocs.length := hcount
    rw [saveLocals_eq (by rw [hfns.release, hfns.dtoh]; rfl) hsize]
    simp only [hok, Bool.not_true, Bool.false_eq_true, if_false, hcount, List.take_length, flatMap_deviceRecords,
      deviceOrder_of_ascend hasc, List.map_map]
    rfl
  · have hpin := s.drv.same_pinHost s.fns s.ipcGetLocalAllocDataSize
    obtain ⟨hf, -⟩ := saveGroups_spec (s.useAsync s.ipcGetLocalAllocDataSize) false s.localSlots (d := s.drv)
      (r := ⟨(s.drv.pinHost s.fns s.ipcGetLocalAllocDataSize).2, buf.data, [], []⟩) ⟨hpin, by simp⟩
      (by rw [localSlots, flatten_deviceSlots]; exact s.apart_deviceSlots) (by simp)
    intro x hx i hi
    rw [saveLocals_buf hfns hsize]
    refine hf.saved (x.1.slot x.2) (hall _ ?_) i hi
    rw [localSlots, flatten_deviceSlots]
    exact List.mem_map_of_mem (f := fun x => x.1.slot x.2) (s.perm_deviceAllocs.mem_iff.2 hx)

theorem rebuildLocals_keeps (hfns : s.fns.Rebuildable) (buf : HostBuf) :
    s.drv.Grows (s.ipcRebuildLocalAllocs buf).2.drv ∧
      ∀ a, (∀ x ∈ s.localItems, a < x.vaddr ∨ x.vaddr + x.size ≤ a) →
        (s.ipcRebuildLocalAllocs buf).2.drv.mem a = s.drv.mem a := by
  have hdrv : (s.ipcRebuildLocalAllocs buf).2.drv =
      (rebuildCopy s.fns buf (rebuildAlloc s.localItems s.drv)).drv := by
    unfold ipcRebuildLocalAllocs
    simp only [hfns.create, hfns.map, hfns.htod, Bool.and_self, Bool.not_true, Bool.false_eq_true, if_false]
    exact foldl_trackLocal_drv ..
  have htracks : (rebuildAlloc s.localItems s.drv).Tracks s.drv := (AllocRun.tracks_start s.drv 0).foldl s.localItems
  have hcopy := rebuildCopy_spec s.fns buf htracks.apart
  rw [hdrv]
  refine ⟨(foldl_item_grows s.localItems ⟨s.drv, [], 0⟩).trans (Driver.grows_of_eq hcopy.maps), fun a ha => ?_⟩
  rw [hcopy.frame]
  · exact (foldl_item_frame s.localItems ⟨s.drv, [], 0⟩).1 a ha
  · intro x hx
    obtain ⟨e, he, rfl⟩ := List.mem_map.1 hx
    obtain ⟨y, hy, -, hva, hsz, -⟩ := ((foldl_item_entries s.localItems ⟨s.drv, [], 0⟩).2 e he).resolve_left (by simp)
    rw [hva, hsz]
    exact ha y hy

end Locals

/-! ### Both -/

/-- Every export and every local allocation is mapped, and no live import has its address. -/
structure Intact (s : IpcState) : Prop where
  exports : s.LiveExports
  locals : ∀ e ∈ s.localEntries, ⟨e.vaddr, e.size, e.handle, true⟩ ∈ s.drv.maps
  imports : ∀ rec ∈ s.imports, rec.tornDown = false →
    (∀ exp ∈ s.exports, exp.hasMapping = true → rec.mappedVaddr ≠ exp.mappedVaddr) ∧
      ∀ e ∈ s.localEntries, rec.mappedVaddr ≠ e.vaddr

section Intact
variable {s : IpcState}

theorem Intact.apart (h : s.Intact) {rec : IpcExportRecord} (hrec : rec ∈ s.exports) (hmap : rec.hasMapping = true)
    {e : LocalAllocEntry} (he : e ∈ s.localEntries) :
    rec.mappedVaddr + rec.mappedSize ≤ e.vaddr ∨ e.vaddr + e.size ≤ rec.mappedVaddr := by
  obtain ⟨m, hm, hva, hsz⟩ := Driver.exists_mapping (h.exports.mapped rec hrec hmap)
  have hne : m ≠ ⟨e.vaddr, e.size, e.handle, true⟩ := by
    rintro rfl
    refine (HookedProcess.mem_localEntries.1 he).2.2 ?_
    exact List.mem_map.2 ⟨rec, List.mem_filter.2 ⟨hrec, hmap⟩, hva.symm⟩
  have hapart := s.drv.maps_apart.forall hm (h.locals e he) hne
  unfold Mapping.apart at hapart
  dsimp only at hapart
  omega

theorem Intact.vapart (h : s.Intact) : s.localEntries.Pairwise LocalAllocEntry.vapart := by
  refine s.pairwise_handle.imp_of_mem fun {e e'} he he' hlt => ?_
  refine s.drv.maps_apart.forall (h.locals e he) (h.locals e' he') fun heq => ?_
  exact hlt.ne (congrArg Mapping.handle heq)

end Intact

/-- Every export and every local allocation of `s` can be read in `t` and reads as in `s`. -/
structure ReadsAs (s t : IpcState) : Prop where
  exports : ∀ rec ∈ s.exports, rec.hasMapping = true → t.drv.accessible rec.mappedVaddr rec.mappedSize = true ∧
    ∀ i < rec.mappedSize, t.drv.mem (rec.mappedVaddr + i) = s.drv.mem (rec.mappedVaddr + i)
  locals : ∀ e ∈ s.localEntries, t.drv.accessible e.vaddr e.size = true ∧
    ∀ i < e.size, t.drv.mem (e.vaddr + i) = s.drv.mem (e.vaddr + i)

/-- `t` is `s` torn down: the bytes are in the buffers, and where there is no buffer there is nothing to save. The ranges
of the local allocations are free. -/
structure Parked (s t : IpcState) (exportData localData : Option HostBuf) : Prop where
  maps : ∀ m ∈ t.drv.maps, m ∈ s.drv.maps
  mem : t.drv.mem = s.drv.mem
  readable : ∀ rec ∈ s.exports, rec.hasMapping = true → s.drv.accessible rec.mappedVaddr rec.mappedSize = true
  exports : (exportData = none ∧ ∀ rec ∈ s.exports, rec.hasMapping = false) ∨
    ∃ buf, exportData = some buf ∧ 0 < buf.size ∧ s.ipcGetExportDataSize ≤ buf.size ∧ Copied s t buf
  locals : (localData = none ∧ s.localEntries = []) ∨
    ∃ buf, localData = some buf ∧ 0 < buf.size ∧ s.ipcGetLocalAllocDataSize ≤ buf.size ∧
      t.localAllocs = s.localEntries.map (fun e => { e.record with tornDown := true }) ∧
      ∀ x ∈ place (·.size) 0 s.localEntries, ∀ i < x.1.size, buf.data (x.2 + i) = s.drv.mem (x.1.vaddr + i)
  free : ∀ e ∈ s.localEntries, ∀ m ∈ t.drv.maps, m.va ≠ e.vaddr

/-- The rebuild of the exports, which is passed over without a buffer. -/
def rebuiltExports (s : IpcState) : Option HostBuf → IpcState
  | none => s
  | some buf => if buf.size = 0 then s else (s.ipcRebuildAndRestoreAllExports buf).2

def rebuiltLocals (s : IpcState) : Option HostBuf → IpcState
  | none => s
  | some buf => if buf.size = 0 then s else (s.ipcRebuildLocalAllocs buf).2

section Back
variable {s t : IpcState} {exportData localData : Option HostBuf}

/-- Between the two rebuilds: the exports are back, the ranges of the local allocations are still free. -/
theorem Parked.exports_back (h : Parked s t exportData localData) (hs : s.Intact) (henv : t.drv.env.Reliable)
    (hfns : t.fns.Rebuildable) :
    (∀ rec ∈ s.exports, rec.hasMapping = true →
        (t.rebuiltExports exportData).drv.accessible rec.mappedVaddr rec.mappedSize = true ∧
          ∀ i < rec.mappedSize, (t.rebuiltExports exportData).drv.mem (rec.mappedVaddr + i) = s.drv.mem (rec.mappedVaddr + i)) ∧
      (∀ e ∈ s.localEntries, ∀ m ∈ (t.rebuiltExports exportData).drv.maps,
        e.vaddr + e.size ≤ m.va ∨ m.va + m.size ≤ e.vaddr) ∧
      (t.rebuiltExports exportData).localAllocs = t.localAllocs ∧ (t.rebuiltExports exportData).fns = t.fns ∧
      (t.rebuiltExports exportData).drv.env = t.drv.env := by
  have hold : ∀ e ∈ s.localEntries, ∀ m ∈ t.drv.maps, e.vaddr + e.size ≤ m.va ∨ m.va + m.size ≤ e.vaddr := by
    intro e he m hm
    have hapart := s.drv.maps_apart.forall (hs.locals e he) (h.maps m hm) fun heq => h.free e he m hm (heq ▸ rfl)
    exact hapart
  rcases h.exports with ⟨hnone, hno⟩ | ⟨buf, hbuf, hpos, hsize, hcopied⟩
  · rw [hnone]
    refine ⟨fun rec hrec hmap => ?_, hold, rfl, rfl, rfl⟩
    rw [hno rec hrec] at hmap
    exact absurd hmap Bool.false_ne_true
  · have heq : t.rebuiltExports exportData = (t.ipcRebuildAndRestoreAllExports buf).2 := by
      rw [hbuf, rebuiltExports, if_neg hpos.ne']
    rw [heq]
    refine ⟨fun rec hrec hmap => hcopied.back hs.exports h.maps h.mem henv hfns hsize hrec hmap (h.readable rec hrec hmap),
      fun e he m hm => ?_, ?_⟩
    · rcases hcopied.maps_back hs.exports.live hfns hm with ⟨m', hm', hva, hsz⟩ | ⟨rec, hrec, hmap, hva, hsz⟩
      · have := hold e he m' hm'
        omega
      · have := hs.apart hrec hmap he
        omega
    · have htracks : (rebuildAlloc t.exportItems t.drv).Tracks t.drv :=
        (AllocRun.tracks_start t.drv 0).foldl t.exportItems
      have henv' := (same_rebuildExports hfns buf).env.trans ((rebuildCopy_spec t.fns buf htracks.apart).env.trans htracks.env)
      refine ⟨?_, ?_, henv'⟩
      · unfold ipcRebuildAndRestoreAllExports
        dsimp only
        split_ifs
        · rfl
        · exact (foldl_trackExport_frame _ _).1
      · unfold ipcRebuildAndRestoreAllExports
        dsimp only
        split_ifs
        · rfl
        · exact (foldl_trackExport_frame _ _).2.2.1

/-- **Both rebuilds on a reliable driver** bring back what was torn down. -/
theorem Parked.back (h : Parked s t exportData localData) (hs : s.Intact) (henv : t.drv.env.Reliable)
    (hfns : t.fns.Rebuildable) : s.ReadsAs ((t.rebuiltExports exportData).rebuiltLocals localData) := by
  obtain ⟨hexports, hfree, hallocs, hfns', henv'⟩ := h.exports_back hs henv hfns
  generalize t.rebuiltExports exportData = u at hexports hfree hallocs hfns' henv'
  have hfnsU : u.fns.Rebuildable := hfns' ▸ hfns
  rcases h.locals with ⟨hnone, hno⟩ | ⟨buf, hbuf, hpos, hsize, hrecs, hbytes⟩
  · rw [hnone]
    refine ⟨hexports, fun e he => ?_⟩
    rw [hno] at he
    exact absurd he List.not_mem_nil
  · have heq : u.rebuiltLocals localData = (u.ipcRebuildLocalAllocs buf).2 := by
      rw [hbuf, rebuiltLocals, if_neg hpos.ne']
    have hrecsU := hallocs.trans hrecs
    rw [heq]
    refine ⟨fun rec hrec hmap => ?_, fun e he => ?_⟩
    · obtain ⟨hacc, hmem⟩ := hexports rec hrec hmap
      obtain ⟨hgrows, hframe⟩ := rebuildLocals_keeps hfnsU buf
      refine ⟨hgrows.accessible hacc, fun i hi => (hframe _ fun x hx => ?_).trans (hmem i hi)⟩
      rw [localItems_of_torn hrecsU] at hx
      obtain ⟨y, hy, rfl⟩ := List.mem_map.1 hx
      have := hs.apart hrec hmap (List.fst_mem_of_mem_zipIdx hy)
      show _ < y.1.vaddr ∨ y.1.vaddr + y.1.size ≤ _
      omega
    · have hback := rebuild_free hrecsU hfnsU.create hfnsU.map hfnsU.setAccess hfnsU.htod (henv' ▸ henv)
        (fun e he => s.drv.maps_pos _ (hs.locals e he)) hfree hs.vapart hsize
      rw [← map_fst_place (·.size) 0 s.localEntries] at he
      obtain ⟨x, hx, rfl⟩ := List.mem_map.1 he
      obtain ⟨hacc, hmem⟩ := hback x hx
      exact ⟨hacc, fun i hi => (hmem i hi).trans (hbytes x hx i hi)⟩

end Back

end IpcState

end GpuCr
