import GpuCr.Ipc.State

/-!
# Local allocations: save, teardown and rebuild

`ipc_get_local_alloc_data_size`, `ipc_save_and_teardown_local_allocs` and `ipc_rebuild_local_allocs`. The
save gives each allocation its place in the buffer in the order of the handles and then lists the
allocations device by device; the rebuild goes through that list and counts the places anew. The two
agree exactly when the handles already ascend device by device.
-/

namespace GpuCr

open Lib Lib.Grouping Lib.Layout Std

/-- An allocation that is tracked, mapped and not exported. -/
structure LocalAllocEntry where
  handle : Nat
  vaddr : Nat
  size : Nat
  prop : CUmemAllocationProp
  deriving DecidableEq, Repr

def LocalAllocEntry.slot (e : LocalAllocEntry) (offset : Nat) : Slot := ⟨e.handle, e.vaddr, e.size, offset⟩

def LocalAllocEntry.record (e : LocalAllocEntry) : CuMemLocalAllocRecord :=
  ⟨e.handle, e.vaddr, e.size, e.prop, false⟩

/-- The ranges of two allocations do not overlap. -/
def LocalAllocEntry.vapart (e e' : LocalAllocEntry) : Prop :=
  e.vaddr + e.size ≤ e'.vaddr ∨ e'.vaddr + e'.size ≤ e.vaddr

instance : Std.Symm LocalAllocEntry.vapart := ⟨fun _ _ h => h.symm⟩

namespace IpcState

/-! ### Save and teardown -/

def exportedVas (s : IpcState) : List Nat := (s.exports.filter (·.hasMapping)).map (·.mappedVaddr)

/-- The allocations of `g_created_allocs` that have an address which is not an exported one, by handle. -/
def localEntries (s : IpcState) : List LocalAllocEntry :=
  s.createdAllocs.toList.filterMap fun kv =>
    match s.handleToVa[kv.1]? with
    | none => none
    | some va => if va ∈ s.exportedVas then none else some ⟨kv.1, va, kv.2.size, kv.2.prop⟩

def ipcGetLocalAllocDataSize (s : IpcState) : Nat := (s.localEntries.map (·.size)).sum

/-- `device_allocs`, with the offsets. -/
def deviceAllocs (s : IpcState) : List (Int × List (LocalAllocEntry × Nat)) :=
  group (·.1.prop.locationId) (place (·.size) 0 s.localEntries)

/-- The body of the loop of phase 3. -/
def teardownLocal (fns : IpcFns) (saved : List Slot) (x : Driver × List ReleasedAlloc)
    (rec : CuMemLocalAllocRecord) : Driver × List ReleasedAlloc :=
  let r := x.1.unmapAndRelease fns rec.vaddr rec.size rec.handle
  (r.2, if r.1 && saved.any (·.key == rec.handle) then
    ⟨false, rec.vaddr, rec.size, fun i => x.1.mem (rec.vaddr + i)⟩ :: x.2 else x.2)

/-- `none` stands for the return value `-1`. The check of the buffer's size is made entry by entry in the
source, which comes to the same since the places are consecutive. -/
def ipcSaveAndTeardownLocalAllocs (s : IpcState) (buf : HostBuf) : Option Nat × IpcState × HostBuf :=
  if !(s.fns.cuMemRelease && s.fns.cuMemcpyDtoH) then (none, s, buf)
  else if buf.size < s.ipcGetLocalAllocDataSize then (none, { s with localAllocs := [] }, buf)
  else
    let pin := s.drv.pinHost s.fns s.ipcGetLocalAllocDataSize
    let c := saveGroups (pin.1 && s.fns.asyncDtoH) false
      (s.deviceAllocs.map fun g => g.2.map fun x => x.1.slot x.2) ⟨pin.2, buf.data, [], []⟩
    -- a group has its records when its copies are through
    let recs := (s.deviceAllocs.take c.2.1).flatMap fun g => g.2.map fun x => x.1.record
    let drv := c.2.2.drv.unpinHost pin.1
    let buf := { buf with data := c.2.2.data }
    if !c.1 then (none, { s with drv := drv, localAllocs := recs }, buf)
    else
      let t := recs.foldl (teardownLocal s.fns c.2.2.saved) (drv, s.released)
      (some recs.length, { s with
        drv := t.1
        released := t.2
        localAllocs := recs.map fun rec => { rec with tornDown := true } }, buf)

/-! ### Rebuild -/

/-- The descriptors to replay for an address; without any, the allocation's own device gets access. -/
def accessOf (s : IpcState) (va : Nat) (otherwise : CUmemAccessDesc) : List CUmemAccessDesc :=
  match s.vaAccessDescs[va]? with
  | some (ad :: ads) => ad :: ads
  | _ => [otherwise]

/-- `CU_MEM_LOCATION_TYPE_DEVICE` and `CU_MEM_ACCESS_FLAGS_PROT_READWRITE`. -/
def deviceAccess (dev : Int) : CUmemAccessDesc := ⟨1, dev, 3⟩

def localItem (s : IpcState) (x : CuMemLocalAllocRecord × Nat) : RebuildItem where
  key := x.2
  vaddr := x.1.vaddr
  size := x.1.size
  dev := x.1.prop.locationId
  access := if s.fns.cuMemSetAccess then s.accessOf x.1.vaddr (deviceAccess x.1.prop.locationId) else []
  savedOffset := none

/-- The torn-down records, in table order. -/
def localItems (s : IpcState) : List RebuildItem :=
  (s.localAllocs.zipIdx.filter (·.1.tornDown)).map s.localItem

/-- The tracking of a rebuilt allocation moves to its new handle. -/
def trackLocal (s : IpcState) (e : RebuildEntry) : IpcState :=
  match s.localAllocs[e.slot.key]? with
  | none => s
  | some rec =>
    { s with
      createdAllocs := (s.createdAllocs.insert e.newHandle ⟨rec.size, rec.prop⟩).erase rec.handle
      handleToVa := (s.handleToVa.insert e.newHandle rec.vaddr).erase rec.handle
      localAllocs := s.localAllocs.set e.slot.key { rec with handle := e.newHandle, tornDown := false } }

/-- What a rebuild takes out of the history. -/
def forget (s : IpcState) (isExport : Bool) (entries : List RebuildEntry) : IpcState :=
  { s with released := s.released.filter fun t =>
      t.isExport != isExport || !entries.any fun e => e.slot.vaddr == t.vaddr }

def ipcRebuildLocalAllocs (s : IpcState) (buf : HostBuf) : Option Nat × IpcState :=
  if !(s.fns.cuMemCreate && s.fns.cuMemMap && s.fns.cuMemcpyHtoD) then (none, s)
  else
    let a := rebuildAlloc s.localItems s.drv
    let c := rebuildCopy s.fns buf a
    (some a.entries.length, (a.ordered.foldl trackLocal { s with drv := c.drv }).forget false a.entries)

/-! ### The round trip -/

/-- The save into a fresh buffer of the size asked for, then the rebuild from it. -/
def localRoundTrip (s : IpcState) (data : Nat → Byte) : IpcState :=
  let saved := s.ipcSaveAndTeardownLocalAllocs ⟨s.ipcGetLocalAllocDataSize, data⟩
  (saved.2.1.ipcRebuildLocalAllocs saved.2.2).2

/-- Every local allocation is mapped again and reads what it read before. -/
def LocalsRestored (s s' : IpcState) : Prop :=
  ∀ e ∈ s.localEntries, s'.drv.accessible e.vaddr e.size = true ∧
    ∀ i < e.size, s'.drv.mem (e.vaddr + i) = s.drv.mem (e.vaddr + i)

/-- All functions are resolved, no call fails, and every local allocation is mapped with its own handle. -/
structure LocalsMapped (s : IpcState) : Prop where
  release : s.fns.cuMemRelease = true
  unmap : s.fns.cuMemUnmap = true
  create : s.fns.cuMemCreate = true
  map : s.fns.cuMemMap = true
  setAccess : s.fns.cuMemSetAccess = true
  dtoh : s.fns.cuMemcpyDtoH = true
  htod : s.fns.cuMemcpyHtoD = true
  reliable : s.drv.env.Reliable
  mapped : ∀ e ∈ s.localEntries, ⟨e.vaddr, e.size, e.handle, true⟩ ∈ s.drv.maps

def withMem (s : IpcState) (mem : Nat → Byte) : IpcState := { s with drv := { s.drv with mem := mem } }

/-- An allocation with a smaller handle is on no larger device. -/
def DevicesAscend (s : IpcState) : Prop :=
  ∀ e ∈ s.localEntries, ∀ e' ∈ s.localEntries, e.handle < e'.handle → e.prop.locationId ≤ e'.prop.locationId

/-! ### The tracked allocations -/

section Entries
variable {s : IpcState}

theorem pairwise_handle (s : IpcState) : s.localEntries.Pairwise fun e e' => e.handle < e'.handle := by
  unfold localEntries
  refine List.Pairwise.filterMap _ ?_ s.createdAllocs.ordered_keys_toList
  intro kv kv' hlt e he e' he'
  have hkey : ∀ (kv : Nat × CuMemCreateRecord) (e : LocalAllocEntry),
      (match s.handleToVa[kv.1]? with
        | none => none
        | some va => if va ∈ s.exportedVas then none
          else some (⟨kv.1, va, kv.2.size, kv.2.prop⟩ : LocalAllocEntry)) = some e → e.handle = kv.1 := by
    intro kv e h
    split at h
    · exact absurd h (by simp)
    · split_ifs at h
      exact (Option.some.inj h) ▸ rfl
  rw [hkey kv e he, hkey kv' e' he']
  exact compare_lt_iff_lt.1 hlt

theorem devicesAscend_iff :
    s.DevicesAscend ↔ s.localEntries.Pairwise fun e e' => e.prop.locationId ≤ e'.prop.locationId := by
  have hp := s.pairwise_handle
  constructor
  · intro h
    exact hp.imp_of_mem fun he he' hlt => h _ he _ he' hlt
  · intro h e he e' he' hlt
    exact rel_of_key_lt hp h he he' hlt

theorem LocalsMapped.pos (h : s.LocalsMapped) {e : LocalAllocEntry} (he : e ∈ s.localEntries) : 0 < e.size :=
  s.drv.maps_pos _ (h.mapped e he)

theorem LocalsMapped.vapart (h : s.LocalsMapped) : s.localEntries.Pairwise LocalAllocEntry.vapart := by
  refine s.pairwise_handle.imp_of_mem ?_
  intro e e' he he' hlt
  refine s.drv.maps_apart.forall (h.mapped e he) (h.mapped e' he') ?_
  intro heq
  exact hlt.ne (congrArg Mapping.handle heq)

theorem LocalsMapped.accessible (h : s.LocalsMapped) {e : LocalAllocEntry} (he : e ∈ s.localEntries) :
    s.drv.accessible e.vaddr e.size = true := by
  rw [Driver.accessible, List.any_eq_true]
  exact ⟨_, h.mapped e he, by simp⟩

end Entries

/-! ### The save -/

section Save
variable {s : IpcState}

/-- The allocations in the order of the records. -/
def deviceOrder (s : IpcState) : List LocalAllocEntry := (flatten s.deviceAllocs).map Prod.fst

theorem perm_deviceAllocs (s : IpcState) :
    (flatten s.deviceAllocs).Perm (place (·.size) 0 s.localEntries) := perm_flatten_group _ _

theorem perm_deviceOrder (s : IpcState) : s.deviceOrder.Perm s.localEntries := by
  have h := s.perm_deviceAllocs.map Prod.fst
  rwa [map_fst_place] at h

theorem flatten_deviceSlots (s : IpcState) :
    (s.deviceAllocs.map fun g => g.2.map fun x => x.1.slot x.2).flatten =
      (flatten s.deviceAllocs).map fun x => x.1.slot x.2 := by
  rw [Lib.Grouping.flatten, List.map_flatMap]
  rfl

theorem flatMap_deviceRecords (s : IpcState) :
    (s.deviceAllocs.flatMap fun g => g.2.map fun x => x.1.record) = s.deviceOrder.map (·.record) := by
  rw [deviceOrder, Lib.Grouping.flatten, List.map_map, List.map_flatMap]
  rfl

theorem apart_deviceSlots (s : IpcState) :
    ((flatten s.deviceAllocs).map fun x => x.1.slot x.2).Pairwise Slot.apart := by
  have hplaced : ((place (·.size) 0 s.localEntries).map fun x => x.1.slot x.2).Pairwise Slot.apart := by
    rw [List.pairwise_map]
    exact (pairwise_place (·.size) 0 s.localEntries).imp Or.inl
  exact ((s.perm_deviceAllocs.map _).pairwise_iff fun h => Or.symm h).2 hplaced

theorem foldl_teardownLocal {fns : IpcFns} (hunmap : fns.cuMemUnmap = true) (saved : List Slot)
    (recs : List CuMemLocalAllocRecord) (x : Driver × List ReleasedAlloc) (henv : x.1.env.Reliable)
    (hmapped : ∀ rec ∈ recs, x.1.mappedAt rec.vaddr rec.size = true) (hnodup : (recs.map (·.vaddr)).Nodup) :
    (recs.foldl (teardownLocal fns saved) x).1.mem = x.1.mem ∧
      (recs.foldl (teardownLocal fns saved) x).1.env = x.1.env ∧
      ∀ m ∈ (recs.foldl (teardownLocal fns saved) x).1.maps, m ∈ x.1.maps ∧ ∀ rec ∈ recs, m.va ≠ rec.vaddr := by
  induction recs generalizing x with
  | nil => exact ⟨rfl, rfl, fun m hm => ⟨hm, by simp⟩⟩
  | cons rec recs ih =>
    rw [List.map_cons, List.nodup_cons] at hnodup
    have hstep : (teardownLocal fns saved x rec).1 = (x.1.unmapAndRelease fns rec.vaddr rec.size rec.handle).2 := rfl
    obtain ⟨hmem, henv'⟩ := x.1.unmapAndRelease_frame fns rec.vaddr rec.size rec.handle
    have hmaps : (teardownLocal fns saved x rec).1.maps = x.1.maps.filter fun m => m.va != rec.vaddr := by
      rw [hstep]
      unfold Driver.unmapAndRelease
      simp only [hunmap, if_true]
      rw [Driver.cuMemRelease_maps, Driver.cuMemUnmap, Driver.call_of_valid henv (hmapped rec (List.mem_cons_self ..))]
      rfl
    rw [← hstep] at hmem henv'
    obtain ⟨h1, h2, h3⟩ := ih (teardownLocal fns saved x rec) (henv' ▸ henv)
      (by
        intro r hr
        have hne : r.vaddr ≠ rec.vaddr := fun heq => hnodup.1 (heq ▸ List.mem_map_of_mem hr)
        have hr' := hmapped r (List.mem_cons_of_mem _ hr)
        rw [Driver.mappedAt, List.any_eq_true] at hr' ⊢
        obtain ⟨m, hm, heq⟩ := hr'
        refine ⟨m, hmaps ▸ List.mem_filter.2 ⟨hm, ?_⟩, heq⟩
        simp only [Bool.and_eq_true, beq_iff_eq] at heq
        simp [heq.1, hne])
      hnodup.2
    refine ⟨h1.trans hmem, h2.trans henv', ?_⟩
    intro m hm
    obtain ⟨hm1, hm2⟩ := h3 m hm
    rw [hmaps, List.mem_filter] at hm1
    refine ⟨hm1.1, fun r hr => ?_⟩
    rcases List.mem_cons.1 hr with rfl | hr
    · simpa using hm1.2
    · exact hm2 r hr

/-- The save of mapped allocations: their bytes are in the buffer at the places of the handle order, the
records are in device order, and the addresses are free. -/
theorem save_mapped (h : s.LocalsMapped) (data : Nat → Byte) :
    ∃ drv released data', s.ipcSaveAndTeardownLocalAllocs ⟨s.ipcGetLocalAllocDataSize, data⟩ =
        (some s.localEntries.length, { s with
          drv := drv
          released := released
          localAllocs := s.deviceOrder.map fun e => { e.record with tornDown := true } },
          ⟨s.ipcGetLocalAllocDataSize, data'⟩) ∧
      drv.env = s.drv.env ∧
      (∀ m ∈ drv.maps, m ∈ s.drv.maps ∧ ∀ e ∈ s.localEntries, m.va ≠ e.vaddr) ∧
      ∀ x ∈ place (·.size) 0 s.localEntries, ∀ i < x.1.size, data' (x.2 + i) = s.drv.mem (x.1.vaddr + i) := by
  have hpin := s.drv.same_pinHost s.fns s.ipcGetLocalAllocDataSize
  obtain ⟨hf, -⟩ := saveGroups_spec
    ((s.drv.pinHost s.fns s.ipcGetLocalAllocDataSize).1 && s.fns.asyncDtoH) false
    (s.deviceAllocs.map fun g => g.2.map fun x => x.1.slot x.2) (d := s.drv)
    (r := ⟨(s.drv.pinHost s.fns s.ipcGetLocalAllocDataSize).2, data, [], []⟩) ⟨hpin, by simp⟩
    (by rw [flatten_deviceSlots]; exact s.apart_deviceSlots) (by simp)
  obtain ⟨hr1, hr2, hr3⟩ := saveGroups_reliable
    ((s.drv.pinHost s.fns s.ipcGetLocalAllocDataSize).1 && s.fns.asyncDtoH) false
    (s.deviceAllocs.map fun g => g.2.map fun x => x.1.slot x.2)
    (r := ⟨(s.drv.pinHost s.fns s.ipcGetLocalAllocDataSize).2, data, [], []⟩) (hpin.env ▸ h.reliable)
    (by
      intro x hx
      rw [flatten_deviceSlots] at hx
      obtain ⟨y, hy, rfl⟩ := List.mem_map.1 hx
      rw [Driver.accessible, hpin.maps]
      exact h.accessible (s.perm_deviceOrder.mem_iff.1 (List.mem_map_of_mem hy)))
  generalize hc : saveGroups ((s.drv.pinHost s.fns s.ipcGetLocalAllocDataSize).1 && s.fns.asyncDtoH) false
    (s.deviceAllocs.map fun g => g.2.map fun x => x.1.slot x.2)
    ⟨(s.drv.pinHost s.fns s.ipcGetLocalAllocDataSize).2, data, [], []⟩ = c at hf hr1 hr2 hr3
  have hunpin := c.2.2.drv.same_unpinHost (s.drv.pinHost s.fns s.ipcGetLocalAllocDataSize).1
  have hdrv := hf.same.trans hunpin
  obtain ⟨ht1, ht2, ht3⟩ := foldl_teardownLocal h.unmap c.2.2.saved (s.deviceOrder.map (·.record))
    (c.2.2.drv.unpinHost (s.drv.pinHost s.fns s.ipcGetLocalAllocDataSize).1, s.released)
    (hdrv.env ▸ h.reliable)
    (by
      intro rec hrec
      obtain ⟨e, he, rfl⟩ := List.mem_map.1 hrec
      rw [Driver.mappedAt, hdrv.maps]
      exact Driver.mappedAt_of_mem (h.mapped e (s.perm_deviceOrder.mem_iff.1 he)))
    (by
      have hperm := (s.perm_deviceOrder.map (·.vaddr)).nodup_iff
      rw [List.map_map]
      refine hperm.2 (List.pairwise_map.2 (h.vapart.imp_of_mem ?_))
      intro e e' he he' hap heq
      have := h.pos he
      have := h.pos he'
      unfold LocalAllocEntry.vapart at hap
      omega)
  generalize ht : (s.deviceOrder.map (·.record)).foldl (teardownLocal s.fns c.2.2.saved)
    (c.2.2.drv.unpinHost (s.drv.pinHost s.fns s.ipcGetLocalAllocDataSize).1, s.released) = t at ht1 ht2 ht3
  refine ⟨t.1, t.2, c.2.2.data, ?_, ht2.trans hdrv.env, ?_, ?_⟩
  · unfold ipcSaveAndTeardownLocalAllocs
    simp only [h.release, h.dtoh, Bool.and_self, Bool.not_true, Bool.false_eq_true, if_false, Nat.lt_irrefl]
    rw [hc]
    simp only [hr1, hr2, List.length_map, List.take_length, flatMap_deviceRecords, Bool.not_true,
      Bool.false_eq_true, if_false, s.perm_deviceOrder.length_eq, List.map_map, ht]
    rfl
  · intro m hm
    obtain ⟨hm1, hm2⟩ := ht3 m hm
    refine ⟨hdrv.maps ▸ hm1, fun e he => ?_⟩
    exact hm2 e.record (List.mem_map_of_mem (s.perm_deviceOrder.mem_iff.2 he))
  · intro x hx i hi
    refine hf.saved (x.1.slot x.2) ?_ i hi
    rw [hr3, List.nil_append, flatten_deviceSlots]
    exact List.mem_map_of_mem (f := fun x => x.1.slot x.2) (s.perm_deviceAllocs.mem_iff.2 hx)

end Save

/-! ### The rebuild -/

section Rebuild
variable {s : IpcState}

theorem trackLocal_drv (s : IpcState) (e : RebuildEntry) : (s.trackLocal e).drv = s.drv := by
  unfold trackLocal
  split <;> rfl

theorem foldl_trackLocal_frame (entries : List RebuildEntry) (s : IpcState) :
    (entries.foldl trackLocal s).exports = s.exports ∧ (entries.foldl trackLocal s).vaAccessDescs = s.vaAccessDescs ∧
      (entries.foldl trackLocal s).released = s.released := by
  induction entries generalizing s with
  | nil => exact ⟨rfl, rfl, rfl⟩
  | cons e entries ih =>
    have hstep : (s.trackLocal e).exports = s.exports ∧ (s.trackLocal e).vaAccessDescs = s.vaAccessDescs ∧
        (s.trackLocal e).released = s.released := by
      unfold trackLocal
      split <;> exact ⟨rfl, rfl, rfl⟩
    obtain ⟨h1, h2, h3⟩ := ih (s.trackLocal e)
    exact ⟨h1.trans hstep.1, h2.trans hstep.2.1, h3.trans hstep.2.2⟩

theorem not_heldIn_of_forget {s' : IpcState} {isExport : Bool} {items : List RebuildItem} {d : Driver}
    (hall : AllMapped items d) {t : ReleasedAlloc} (ht : t ∈ (s'.forget isExport (rebuildAlloc items d).entries).released)
    (hkind : t.isExport = isExport) (buf : HostBuf) : ¬ t.HeldIn buf (RebuildItem.slots items 0) := by
  rintro ⟨x, hx, hvaddr, -⟩
  obtain ⟨e, he, rfl⟩ := exists_entry_of_allMapped hall hx
  have hkeep := (List.mem_filter.1 ht).2
  simp only [hkind, bne_self_eq_false, Bool.false_or, Bool.not_eq_true', List.any_eq_false, beq_iff_eq] at hkeep
  exact hkeep e he hvaddr

theorem foldl_trackLocal_drv (entries : List RebuildEntry) (s : IpcState) :
    (entries.foldl trackLocal s).drv = s.drv := by
  induction entries generalizing s with
  | nil => rfl
  | cons e entries ih => exact (ih _).trans (trackLocal_drv s e)

theorem slots_localItems (items : List RebuildItem) (off : Nat) (h : ∀ x ∈ items, x.savedOffset = none) :
    RebuildItem.slots items off =
      (place (·.size) off items).map fun x => ⟨x.1.key, x.1.vaddr, x.1.size, x.2⟩ := by
  induction items generalizing off with
  | nil => rfl
  | cons x items ih =>
    have hx := h x (List.mem_cons_self ..)
    rw [RebuildItem.slots, place, List.map_cons, hx, Option.getD_none, max_eq_right (Nat.le_add_right ..),
      ih _ fun y hy => h y (List.mem_cons_of_mem _ hy)]

theorem localItems_of_torn {entries : List LocalAllocEntry}
    (hrecs : s.localAllocs = entries.map fun e => { e.record with tornDown := true }) :
    s.localItems = entries.zipIdx.map fun x => s.localItem ({ x.1.record with tornDown := true }, x.2) := by
  unfold localItems
  rw [hrecs, List.zipIdx_map, List.filter_eq_self.2, List.map_map]
  · rfl
  · intro x hx
    obtain ⟨y, -, rfl⟩ := List.mem_map.1 hx
    rfl

theorem savedOffset_localItems (s : IpcState) : ∀ x ∈ s.localItems, x.savedOffset = none := by
  intro x hx
  obtain ⟨y, -, rfl⟩ := List.mem_map.1 hx
  rfl

theorem mem_localSlots {entries : List LocalAllocEntry}
    (hrecs : s.localAllocs = entries.map fun e => { e.record with tornDown := true }) {x : LocalAllocEntry × Nat}
    (hx : x ∈ place (·.size) 0 entries) :
    ∃ k, ⟨k, x.1.vaddr, x.1.size, x.2⟩ ∈ RebuildItem.slots s.localItems 0 := by
  rw [slots_localItems s.localItems 0 s.savedOffset_localItems, localItems_of_torn hrecs, place_map, List.map_map]
  have hz : place (fun e : LocalAllocEntry => e.size) 0 entries =
      (place ((fun e : LocalAllocEntry => e.size) ∘ Prod.fst) 0 entries.zipIdx).map (Prod.map Prod.fst id) := by
    rw [← place_map, List.zipIdx_map_fst]
  rw [hz] at hx
  obtain ⟨y, hy, rfl⟩ := List.mem_map.1 hx
  exact ⟨y.1.2, List.mem_map.2 ⟨y, hy, rfl⟩⟩

theorem accessOf_ne_nil (s : IpcState) (va : Nat) (ad : CUmemAccessDesc) : s.accessOf va ad ≠ [] := by
  unfold accessOf
  split <;> simp

/-- The rebuild of torn-down records whose addresses are free: each is mapped again and reads what the
buffer holds at the place counted in the order of the records. -/
theorem rebuild_free {entries : List LocalAllocEntry}
    (hrecs : s.localAllocs = entries.map fun e => { e.record with tornDown := true })
    (hcreate : s.fns.cuMemCreate = true) (hmap : s.fns.cuMemMap = true) (hset : s.fns.cuMemSetAccess = true)
    (hhtod : s.fns.cuMemcpyHtoD = true) (henv : s.drv.env.Reliable) (hpos : ∀ e ∈ entries, 0 < e.size)
    (hfree : ∀ e ∈ entries, ∀ m ∈ s.drv.maps, e.vaddr + e.size ≤ m.va ∨ m.va + m.size ≤ e.vaddr)
    (hapart : entries.Pairwise LocalAllocEntry.vapart) {buf : HostBuf}
    (hbuf : (entries.map (·.size)).sum ≤ buf.size) :
    ∀ x ∈ place (·.size) 0 entries, (s.ipcRebuildLocalAllocs buf).2.drv.accessible x.1.vaddr x.1.size = true ∧
      ∀ i < x.1.size, (s.ipcRebuildLocalAllocs buf).2.drv.mem (x.1.vaddr + i) = buf.data (x.2 + i) := by
  have hitems := localItems_of_torn hrecs
  have hmem : ∀ x ∈ s.localItems, ∃ e ∈ entries, x.vaddr = e.vaddr ∧ x.size = e.size ∧ x.access ≠ [] := by
    intro x hx
    rw [hitems] at hx
    obtain ⟨y, hy, rfl⟩ := List.mem_map.1 hx
    refine ⟨y.1, List.fst_mem_of_mem_zipIdx hy, rfl, rfl, ?_⟩
    simp only [localItem, hset, if_true]
    exact s.accessOf_ne_nil _ _
  have hvapart : s.localItems.Pairwise RebuildItem.vapart := by
    rw [hitems, List.pairwise_map]
    have h := hapart
    rw [← List.zipIdx_map_fst 0 entries, List.pairwise_map] at h
    exact h
  obtain ⟨hall, -, hacc⟩ := foldl_item_reliable s.localItems ⟨s.drv, [], 0⟩ henv
    (fun x hx => by obtain ⟨e, he, -, h2, -⟩ := hmem x hx; exact h2 ▸ hpos e he)
    (fun x hx m hm => by obtain ⟨e, he, h1, h2, -⟩ := hmem x hx; rw [h1, h2]; exact hfree e he m hm)
    hvapart
  have hentries : (rebuildAlloc s.localItems s.drv).entries.map (·.slot) = RebuildItem.slots s.localItems 0 :=
    foldl_item_slots s.localItems ⟨s.drv, [], 0⟩ hall
  have hslots := hentries.trans (slots_localItems s.localItems 0 s.savedOffset_localItems)
  have hsum : (s.localItems.map (·.size)).sum = (entries.map (·.size)).sum := by
    rw [hitems, List.map_map]
    conv_rhs => rw [← List.zipIdx_map_fst 0 entries, List.map_map]
    rfl
  have hentry : ∀ e ∈ (rebuildAlloc s.localItems s.drv).entries, e.slot.offset + e.slot.size ≤ buf.size ∧
      (rebuildAlloc s.localItems s.drv).drv.accessible e.slot.vaddr e.slot.size = true := by
    intro e he
    have hes := List.mem_map_of_mem (f := (·.slot)) he
    rw [hslots] at hes
    obtain ⟨x, hx, hxe⟩ := List.mem_map.1 hes
    have hbounds := (bounds_of_mem_place hx).2
    have hxi : x.1 ∈ s.localItems := by
      have := List.mem_map_of_mem (f := Prod.fst) hx
      rwa [map_fst_place] at this
    obtain ⟨-, -, -, -, hne⟩ := hmem x.1 hxi
    rw [← hxe]
    refine ⟨?_, hacc x.1 hxi hne⟩
    dsimp only
    omega
  have hslotsApart : ((rebuildAlloc s.localItems s.drv).entries.map (·.slot)).Pairwise Slot.vapart := by
    rw [hslots, List.pairwise_map]
    have h := hvapart
    rw [← map_fst_place (·.size) 0 s.localItems, List.pairwise_map] at h
    exact h
  have hcopy := rebuildCopy_spec s.fns buf hslotsApart
  have hframe := foldl_item_frame s.localItems ⟨s.drv, [], 0⟩
  have hrestored := rebuildCopy_reliable s.fns
    (r := rebuildAlloc s.localItems s.drv) (fun n _ => hframe.2 ▸ henv n) hentry
  have hdrv : (s.ipcRebuildLocalAllocs buf).2.drv =
      (rebuildCopy s.fns buf (rebuildAlloc s.localItems s.drv)).drv := by
    unfold ipcRebuildLocalAllocs
    simp only [hcreate, hmap, hhtod, Bool.and_self, Bool.not_true, Bool.false_eq_true, if_false]
    exact foldl_trackLocal_drv ..
  intro x hx
  obtain ⟨k, hk⟩ := mem_localSlots hrecs hx
  rw [← hentries] at hk
  obtain ⟨e, he, heq⟩ := List.mem_map.1 hk
  have hin := hrestored e he
  rw [hdrv]
  refine ⟨?_, ?_⟩
  · rw [Driver.accessible, hcopy.maps]
    have := (hentry e he).2
    rwa [heq] at this
  · intro i hi
    have := hcopy.restored e.slot hin
    rw [heq] at this
    exact this i hi

/-! ### What the save leaves for the rebuild -/

theorem mem_foldl_teardownLocal {fns : IpcFns} {saved : List Slot} (recs : List CuMemLocalAllocRecord)
    (x : Driver × List ReleasedAlloc) {t : ReleasedAlloc} (ht : t ∈ (recs.foldl (teardownLocal fns saved) x).2) :
    t ∈ x.2 ∨ ∃ rec ∈ recs, (∃ y ∈ saved, y.key = rec.handle) ∧
      t = ⟨false, rec.vaddr, rec.size, fun i => x.1.mem (rec.vaddr + i)⟩ := by
  induction recs generalizing x with
  | nil => exact Or.inl ht
  | cons rec recs ih =>
    have hmem : (teardownLocal fns saved x rec).1.mem = x.1.mem := (x.1.unmapAndRelease_frame ..).1
    rcases ih _ ht with ht | ⟨rec', hrec', h1, h2⟩
    swap
    · exact Or.inr ⟨rec', List.mem_cons_of_mem _ hrec', h1, by rw [h2, hmem]⟩
    unfold teardownLocal at ht
    dsimp only at ht
    split_ifs at ht with hsaved
    · rcases List.mem_cons.1 ht with rfl | ht
      · rw [Bool.and_eq_true, List.any_eq_true] at hsaved
        obtain ⟨-, y, hy, hkey⟩ := hsaved
        exact Or.inr ⟨rec, List.mem_cons_self .., ⟨y, hy, by simpa using hkey⟩, rfl⟩
      · exact Or.inl ht
    · exact Or.inl ht

theorem eq_of_handle_eq {e e' : LocalAllocEntry} (he : e ∈ s.localEntries) (he' : e' ∈ s.localEntries)
    (h : e.handle = e'.handle) : e = e' := by
  have hnodup : (s.localEntries.map (·.handle)).Nodup :=
    List.pairwise_map.2 (s.pairwise_handle.imp Nat.ne_of_lt)
  exact List.inj_on_of_nodup_map hnodup he he' h

theorem deviceOrder_of_ascend (hasc : s.DevicesAscend) : s.deviceOrder = s.localEntries := by
  have hplaced : (place (·.size) 0 s.localEntries).Pairwise
      fun x y => x.1.prop.locationId ≤ y.1.prop.locationId := by
    rw [devicesAscend_iff, ← map_fst_place (·.size) 0 s.localEntries, List.pairwise_map] at hasc
    exact hasc
  rw [deviceOrder, deviceAllocs, (flatten_group_eq_iff _ _).2 hplaced, map_fst_place]

theorem saveLocals_heldIn (hasc : s.DevicesAscend) (buf : HostBuf) :
    ∀ t ∈ (s.ipcSaveAndTeardownLocalAllocs buf).2.1.released, t ∈ s.released ∨
      t.isExport = false ∧ t.HeldIn (s.ipcSaveAndTeardownLocalAllocs buf).2.2
        (RebuildItem.slots (s.ipcSaveAndTeardownLocalAllocs buf).2.1.localItems 0) := by
  have hpin := s.drv.same_pinHost s.fns s.ipcGetLocalAllocDataSize
  unfold ipcSaveAndTeardownLocalAllocs
  dsimp only
  generalize s.drv.pinHost s.fns s.ipcGetLocalAllocDataSize = pin at hpin
  obtain ⟨hf, hext⟩ := saveGroups_spec (pin.1 && s.fns.asyncDtoH) false
    (s.deviceAllocs.map fun g => g.2.map fun x => x.1.slot x.2) (d := s.drv) (r := ⟨pin.2, buf.data, [], []⟩)
    ⟨hpin, by simp⟩ (by rw [flatten_deviceSlots]; exact s.apart_deviceSlots) (by simp)
  have hcount := saveGroups_count (pin.1 && s.fns.asyncDtoH) false
    (s.deviceAllocs.map fun g => g.2.map fun x => x.1.slot x.2) ⟨pin.2, buf.data, [], []⟩
  generalize saveGroups (pin.1 && s.fns.asyncDtoH) false
    (s.deviceAllocs.map fun g => g.2.map fun x => x.1.slot x.2) ⟨pin.2, buf.data, [], []⟩ = c at hf hext hcount
  have hdrv := hf.same.trans (c.2.2.drv.same_unpinHost pin.1)
  split_ifs with h1 h2 h3
  · exact fun t ht => Or.inl ht
  · exact fun t ht => Or.inl ht
  · exact fun t ht => Or.inl ht
  have hrecs : ((s.deviceAllocs.take c.2.1).flatMap fun g => g.2.map fun x => x.1.record) =
      s.localEntries.map (·.record) := by
    rw [hcount (by simpa using h3), List.length_map, List.take_length, flatMap_deviceRecords, deviceOrder_of_ascend hasc]
  rw [hrecs]
  intro t ht
  rcases mem_foldl_teardownLocal _ _ ht with ht | ⟨rec, hrec, ⟨y, hy, hkey⟩, rfl⟩
  · exact Or.inl ht
  refine Or.inr ⟨rfl, ?_⟩
  obtain ⟨e, he, rfl⟩ := List.mem_map.1 hrec
  have hslot := (hext.adds y hy).resolve_left (by simp)
  rw [flatten_deviceSlots] at hslot
  obtain ⟨x, hx, rfl⟩ := List.mem_map.1 hslot
  rw [s.perm_deviceAllocs.mem_iff] at hx
  have hxe : x.1 ∈ s.localEntries := by
    have := List.mem_map_of_mem (f := Prod.fst) hx
    rwa [map_fst_place] at this
  obtain rfl : x.1 = e := eq_of_handle_eq hxe he hkey
  have hbound := (bounds_of_mem_place hx).2
  obtain ⟨k, hk⟩ := mem_localSlots (s := { s with
      drv := ((s.localEntries.map (·.record)).foldl (teardownLocal s.fns c.2.2.saved)
        (c.2.2.drv.unpinHost pin.1, s.released)).1
      released := ((s.localEntries.map (·.record)).foldl (teardownLocal s.fns c.2.2.saved)
        (c.2.2.drv.unpinHost pin.1, s.released)).2
      localAllocs := (s.localEntries.map (·.record)).map fun rec => { rec with tornDown := true } })
    (List.map_map ..) hx
  refine ⟨_, hk, rfl, rfl, ?_, ?_⟩
  · unfold ipcGetLocalAllocDataSize at h2
    dsimp only
    omega
  · intro i hi
    exact (hf.saved _ hy i hi).trans (congrFun hdrv.mem _).symm

end Rebuild

/-! ### Both together -/

section RoundTrip
variable {s : IpcState}

/-- What the round trip leaves: the buffer was filled in handle order and emptied in device order. -/
theorem localRoundTrip_spec (h : s.LocalsMapped) (data : Nat → Byte) : ∃ data' : Nat → Byte,
    (∀ x ∈ place (·.size) 0 s.localEntries, ∀ i < x.1.size, data' (x.2 + i) = s.drv.mem (x.1.vaddr + i)) ∧
      ∀ x ∈ place (·.size) 0 s.deviceOrder,
        (s.localRoundTrip data).drv.accessible x.1.vaddr x.1.size = true ∧
          ∀ i < x.1.size, (s.localRoundTrip data).drv.mem (x.1.vaddr + i) = data' (x.2 + i) := by
  obtain ⟨drv, released, data', hsave, henv, hmaps, hdata⟩ := save_mapped h data
  refine ⟨data', hdata, ?_⟩
  have hmem : ∀ e ∈ s.deviceOrder, e ∈ s.localEntries := fun e he => s.perm_deviceOrder.mem_iff.1 he
  unfold localRoundTrip
  rw [hsave]
  refine rebuild_free (s := { s with
      drv := drv
      released := released
      localAllocs := s.deviceOrder.map fun e => { e.record with tornDown := true } })
    rfl h.create h.map h.setAccess h.htod (henv ▸ h.reliable) (fun e he => h.pos (hmem e he)) ?_ ?_ ?_
  · -- a mapping that is left is none of those that were unmapped, so it lies elsewhere
    intro e he m hm
    obtain ⟨hm1, hm2⟩ := hmaps m hm
    refine s.drv.maps_apart.forall (h.mapped e (hmem e he)) hm1 ?_
    intro heq
    exact hm2 e (hmem e he) (congrArg Mapping.va heq).symm
  · exact (s.perm_deviceOrder.pairwise_iff fun hab => Or.symm hab).2 h.vapart
  · exact ((s.perm_deviceOrder.map (·.size)).sum_eq).le

theorem deviceOrder_eq_iff : s.deviceOrder = s.localEntries ↔ s.DevicesAscend := by
  refine ⟨fun heq => ?_, deviceOrder_of_ascend⟩
  rw [devicesAscend_iff, ← heq, deviceOrder, List.pairwise_map]
  exact pairwise_flatten_group _ _

theorem LocalsMapped.withMem (h : s.LocalsMapped) (mem : Nat → Byte) : (s.withMem mem).LocalsMapped :=
  ⟨h.release, h.unmap, h.create, h.map, h.setAccess, h.dtoh, h.htod, h.reliable, h.mapped⟩

/-- The contents that mark the first byte of an allocation. -/
def firstByte (e : LocalAllocEntry) : Nat → Byte := fun a => if a = e.vaddr then 1 else 0

theorem mem_place_of_firstByte (h : s.LocalsMapped) {x : LocalAllocEntry × Nat} (hx : x.1 ∈ s.localEntries)
    (hbound : x.2 < (s.localEntries.map (·.size)).sum) {data : Nat → Byte}
    (hsaved : ∀ y ∈ place (·.size) 0 s.localEntries, ∀ i < y.1.size, data (y.2 + i) = firstByte x.1 (y.1.vaddr + i))
    (hone : data x.2 = 1) : x ∈ place (·.size) 0 s.localEntries := by
  have hxpos := h.pos hx
  obtain ⟨y, hy, hyo, hyx⟩ := exists_mem_place (·.size) s.localEntries (Nat.zero_le x.2) (by omega)
  have hye : y.1 ∈ s.localEntries := by
    have := List.mem_map_of_mem (f := Prod.fst) hy
    rwa [map_fst_place] at this
  -- the place was written with a byte of `y`, and only the marked byte is `1`
  have hmark := hsaved y hy (x.2 - y.2) (by omega)
  rw [show y.2 + (x.2 - y.2) = x.2 by omega, hone] at hmark
  have haddr : y.1.vaddr + (x.2 - y.2) = x.1.vaddr := by
    by_contra hne
    simp [firstByte, hne] at hmark
  have hyx1 : y.1 = x.1 := by
    by_contra hne
    have hap := h.vapart.forall hye hx hne
    unfold LocalAllocEntry.vapart at hap
    omega
  have hoff : x.2 = y.2 := by
    rw [hyx1] at haddr
    omega
  have hxy : x = y := Prod.ext hyx1.symm hoff
  exact hxy ▸ hy

/-- If the two orders differ, some contents do not survive: an allocation is restored from a place where
another one, or another part of it, was saved. -/
theorem devicesAscend_of_restored (h : s.LocalsMapped)
    (hrestored : ∀ mem data, (s.withMem mem).LocalsRestored ((s.withMem mem).localRoundTrip data)) :
    s.DevicesAscend := by
  rw [← deviceOrder_eq_iff]
  have hpos : ∀ e ∈ s.deviceOrder, 0 < e.size := fun e he => h.pos (s.perm_deviceOrder.mem_iff.1 he)
  refine (prefix_of_place_subset (·.size) 0 hpos (fun e he => h.pos he) ?_).eq_of_length s.perm_deviceOrder.length_eq
  intro x hx
  have hxe : x.1 ∈ s.localEntries := by
    refine s.perm_deviceOrder.mem_iff.1 ?_
    have := List.mem_map_of_mem (f := Prod.fst) hx
    rwa [map_fst_place] at this
  obtain ⟨data', hsaved, hback⟩ := localRoundTrip_spec (h.withMem (firstByte x.1)) (fun _ => 0)
  have hfirst := (hrestored (firstByte x.1) (fun _ => 0) x.1 hxe).2 0 (h.pos hxe)
  have hone : data' x.2 = 1 := by
    have hread := (hback x hx).2 0 (h.pos hxe)
    rw [Nat.add_zero] at hread hfirst
    rw [← Nat.add_zero x.2, ← hread, hfirst]
    simp [IpcState.withMem, firstByte]
  have hbounds := bounds_of_mem_place hx
  have hsum : (s.deviceOrder.map (·.size)).sum = (s.localEntries.map (·.size)).sum :=
    (s.perm_deviceOrder.map (·.size)).sum_eq
  have hxpos := h.pos hxe
  exact mem_place_of_firstByte h hxe (by omega) hsaved hone

end RoundTrip

/-- **Local allocations survive** save and rebuild, whatever they hold, exactly when a smaller handle never
belongs to a larger device. -/
theorem localsRestored_iff_devicesAscend (s : IpcState) (h : s.LocalsMapped) :
    (∀ mem data, (s.withMem mem).LocalsRestored ((s.withMem mem).localRoundTrip data)) ↔ s.DevicesAscend := by
  refine ⟨devicesAscend_of_restored h, ?_⟩
  intro hasc mem data e he
  obtain ⟨data', hsaved, hback⟩ := localRoundTrip_spec (h.withMem mem) data
  have heq : (s.withMem mem).deviceOrder = (s.withMem mem).localEntries := deviceOrder_eq_iff.2 hasc
  rw [heq] at hback
  obtain ⟨x, hx, rfl⟩ : ∃ x ∈ place (·.size) 0 (s.withMem mem).localEntries, x.1 = e := by
    rw [← map_fst_place (·.size) 0 (s.withMem mem).localEntries] at he
    obtain ⟨x, hx, hxe⟩ := List.mem_map.1 he
    exact ⟨x, hx, hxe⟩
  refine ⟨(hback x hx).1, fun i hi => ?_⟩
  rw [(hback x hx).2 i hi, hsaved x hx i hi]

/-! ### Two allocations -/

def allFns : IpcFns := ⟨true, true, true, true, true, true, true, true, true, true, true, true, true⟩

/-- Handle `1` on `dev` and handle `2` on `dev'`. -/
def localPair (dev dev' : Int) : IpcState where
  drv :=
    { env := ⟨fun _ => false, id, fun _ _ => 0xAA⟩
      clock := 0
      mem := fun a => UInt8.ofNat a
      maps := [⟨0x10000, 4096, 1, true⟩, ⟨0x20000, 8192, 2, true⟩]
      live := [(1, 4096), (2, 8192)]
      maps_apart := by decide
      maps_pos := by decide }
  fns := allFns
  imports := []
  exports := []
  createdAllocs := ((∅ : ExtTreeMap Nat CuMemCreateRecord).insert 1 ⟨4096, ⟨dev⟩⟩).insert 2 ⟨8192, ⟨dev'⟩⟩
  handleToVa := ((∅ : ExtTreeMap Nat Nat).insert 1 0x10000).insert 2 0x20000
  localAllocs := []
  vaAccessDescs := ∅
  rebuiltHandleAlias := ∅
  released := []

theorem localEntries_localPair (dev dev' : Int) :
    (localPair dev dev').localEntries = [⟨1, 0x10000, 4096, ⟨dev⟩⟩, ⟨2, 0x20000, 8192, ⟨dev'⟩⟩] := rfl

theorem localsMapped_localPair (dev dev' : Int) : (localPair dev dev').LocalsMapped := by
  refine ⟨rfl, rfl, rfl, rfl, rfl, rfl, rfl, fun _ => rfl, ?_⟩
  intro e he
  rw [localEntries_localPair] at he
  simp only [List.mem_cons, List.not_mem_nil, or_false] at he
  rcases he with rfl | rfl <;> simp [localPair]

theorem localsRestored_twoDevices :
    (∀ mem data, ((localPair 0 1).withMem mem).LocalsRestored (((localPair 0 1).withMem mem).localRoundTrip data)) ↔
      (localPair 0 1).DevicesAscend :=
  localsRestored_iff_devicesAscend (localPair 0 1) (localsMapped_localPair 0 1)

/-- With the first handle on the second device the two allocations are restored from each other's bytes. -/
theorem not_localsRestored :
    ¬ ∀ s : IpcState, s.LocalsMapped → ∀ data, s.LocalsRestored (s.localRoundTrip data) := by
  intro h
  have hasc := devicesAscend_of_restored (localsMapped_localPair 1 0)
    fun mem data => h _ ((localsMapped_localPair 1 0).withMem mem) data
  rw [devicesAscend_iff, localEntries_localPair] at hasc
  exact absurd hasc (by decide)

end IpcState

end GpuCr
