import GpuCr.Worker.Handlers
import GpuCr.VGpu.RoundTrip

/-!
# The phases of a cycle

What each phase of a checkpoint and a restore does to what is not its own. A teardown takes its targets and nothing else
(`Spares`); a checkpoint and a restore of the blocks change no byte and no other mapping (`Revived`); a rebuild or
an import leaves what is mapped as it is (`Keeps`). A rebuild brings back what a teardown has taken also when other
mappings have got new handles in between.
-/

namespace GpuCr

open Lib Lib.Run Lib.Layout Std

namespace Driver

/-! ### What a teardown spares -/

/-- Mappings and handles that no target is about are in `d'` if they are in `d`. -/
structure Spares (ts : List TearTarget) (d d' : Driver) : Prop where
  maps : ∀ m ∈ d.maps, (∀ t ∈ ts, t.va ≠ m.va) → m ∈ d'.maps
  live : ∀ k, (∀ t ∈ ts, t.handle ≠ some k) → d.isLive k = true → d'.isLive k = true

theorem Spares.trans {ts : List TearTarget} {d d' d'' : Driver} (h : Spares ts d d') (h' : Spares ts d' d'') :
    Spares ts d d'' :=
  ⟨fun m hm hts => h'.maps m (h.maps m hm hts) hts, fun k hts hk => h'.live k hts (h.live k hts hk)⟩

theorem Spares.mono {ts us : List TearTarget} {d d' : Driver} (h : Spares ts d d') (hsub : ∀ t ∈ ts, t ∈ us) : Spares us d d' :=
  ⟨fun m hm hus => h.maps m hm fun t ht => hus t (hsub t ht), fun k hus => h.live k fun t ht => hus t (hsub t ht)⟩

theorem Same.spares {d d' : Driver} (h : d.Same d') (ts : List TearTarget) : Spares ts d d' :=
  ⟨fun m hm _ => h.maps ▸ hm, fun k _ hk => by rw [isLive, h.live]; exact hk⟩

theorem spares_run_tearStep (ts : List TearTarget) (d : Driver) : Spares ts d (run tearStep d ts) := by
  refine ⟨fun m hm hts => mem_run_tearStep hm hts, fun k hts hk => ?_⟩
  rw [(run_tearStep_keeps ts d).2 k]
  · exact hk
  · intro hmem
    obtain ⟨t, ht, hhandle⟩ := List.mem_filterMap.1 hmem
    exact hts t ht hhandle

/-! ### What a rebuild keeps -/

/-- What is mapped in `d` is mapped in `d'` and reads the same there. -/
structure Keeps (d d' : Driver) : Prop where
  grows : d.Grows d'
  mem : ∀ m ∈ d.maps, ∀ a, m.va ≤ a → a < m.va + m.size → d'.mem a = d.mem a

theorem Keeps.trans {d d' d'' : Driver} (h : d.Keeps d') (h' : d'.Keeps d'') : d.Keeps d'' := by
  refine ⟨h.grows.trans h'.grows, fun m hm a hle hlt => ?_⟩
  obtain ⟨m', hm', hkey, -⟩ := h.grows m hm
  simp only [Mapping.key, Prod.mk.injEq] at hkey
  exact (h'.mem m' hm' a (by omega) (by omega)).trans (h.mem m hm a hle hlt)

theorem keeps_of_eq {d d' : Driver} (hmaps : d'.maps = d.maps) (hmem : d'.mem = d.mem) : d.Keeps d' :=
  ⟨grows_of_eq hmaps, fun _ _ a _ _ => congrFun hmem a⟩

theorem Keeps.range {d d' : Driver} (h : d.Keeps d') {a n : Nat} (hacc : d.accessible a n = true) :
    d'.accessible a n = true ∧ ∀ i < n, d'.mem (a + i) = d.mem (a + i) := by
  refine ⟨h.grows.accessible hacc, fun i hi => ?_⟩
  rw [accessible, List.any_eq_true] at hacc
  obtain ⟨m, hm, hin⟩ := hacc
  simp only [Bool.and_eq_true, decide_eq_true_eq] at hin
  exact h.mem m hm (a + i) (by omega) (by omega)

theorem keeps_cuMemMap (d : Driver) (va size handle : Nat) : d.Keeps (d.cuMemMap va size handle).2 := by
  unfold cuMemMap
  split_ifs with hcan
  · refine ⟨fun m hm => ⟨m, List.mem_cons_of_mem _ hm, rfl, id⟩, fun m hm a hle hlt => scribble_out _ _ ?_⟩
    have hapart := hcan.1.2.2 m hm
    unfold Mapping.apart at hapart
    dsimp only at hapart
    omega
  · exact keeps_of_eq rfl rfl

theorem keeps_cuMemSetAccess (d : Driver) (va size : Nat) : d.Keeps (d.cuMemSetAccess va size).2 :=
  ⟨(d.cuMemSetAccess_grows va size).1, fun _ _ a _ _ => congrFun (d.cuMemSetAccess_frame va size).1 a⟩

end Driver

/-! ### The rebuilds -/

theorem keeps_rebuildCopy (fns : IpcFns) (buf : HostBuf) (items : List RebuildItem) (d : Driver) :
    d.Keeps (rebuildCopy fns buf (rebuildAlloc items d)).drv := by
  have htracks : (rebuildAlloc items d).Tracks d := (AllocRun.tracks_start d 0).foldl items
  have hcopy := rebuildCopy_spec fns buf htracks.apart
  refine ⟨(foldl_item_grows items ⟨d, [], 0⟩).trans (Driver.grows_of_eq hcopy.maps), fun m hm a hle hlt => ?_⟩
  rw [hcopy.frame]
  · exact foldl_item_taken items ⟨d, [], 0⟩ hm ⟨hle, hlt⟩
  · intro x hx
    obtain ⟨e, he, rfl⟩ := List.mem_map.1 hx
    have := htracks.apart_old he hm
    omega

theorem IpcState.keeps_rebuiltExports {s : IpcState} (hfns : s.fns.Rebuildable) (data : Option HostBuf) :
    s.drv.Keeps (s.rebuiltExports data).drv := by
  unfold rebuiltExports
  cases data with
  | none => exact Driver.keeps_of_eq rfl rfl
  | some buf =>
    dsimp only
    split_ifs
    · exact Driver.keeps_of_eq rfl rfl
    · have hsame := same_rebuildExports hfns buf
      exact (keeps_rebuildCopy s.fns buf s.exportItems s.drv).trans (Driver.keeps_of_eq hsame.maps hsame.mem)

theorem IpcState.keeps_rebuiltLocals {s : IpcState} (hfns : s.fns.Rebuildable) (data : Option HostBuf) :
    s.drv.Keeps (s.rebuiltLocals data).drv := by
  unfold rebuiltLocals
  cases data with
  | none => exact Driver.keeps_of_eq rfl rfl
  | some buf =>
    dsimp only
    split_ifs
    · exact Driver.keeps_of_eq rfl rfl
    · unfold ipcRebuildLocalAllocs
      simp only [hfns.create, hfns.map, hfns.htod, Bool.and_self, Bool.not_true, Bool.false_eq_true, if_false]
      have hdrv := foldl_trackLocal_drv (rebuildAlloc s.localItems s.drv).ordered
        { s with drv := (rebuildCopy s.fns buf (rebuildAlloc s.localItems s.drv)).drv }
      exact (keeps_rebuildCopy s.fns buf s.localItems s.drv).trans
        (Driver.keeps_of_eq (congrArg Driver.maps hdrv) (congrArg Driver.mem hdrv))

/-! ### The import -/

section Import
variable (sizeOf : Nat → Nat)

theorem Driver.keeps_replayAccess (hasSetAccess : Bool) (rec : IpcImportRecord) (d : Driver) :
    d.Keeps ((importOps sizeOf).replayAccess hasSetAccess rec d) := by
  have hfold : ∀ (access : List CUmemAccessDesc) (d : Driver), d.Keeps
      (access.foldl (fun d ad => ((importOps sizeOf).setAccess rec.mappedVaddr rec.size ad d).2) d) := by
    intro access
    induction access with
    | nil => exact fun d => keeps_of_eq rfl rfl
    | cons ad access ih => exact fun d => (d.keeps_cuMemSetAccess rec.mappedVaddr rec.size).trans (ih _)
  unfold ImportOps.replayAccess
  split_ifs
  · exact hfold rec.allAccess d
  · exact d.keeps_cuMemSetAccess rec.mappedVaddr rec.size
  · exact keeps_of_eq rfl rfl

theorem Driver.keeps_rebuildImport (hasSetAccess : Bool) (p : ImportOps.Progress Driver)
    (pair : (IpcImportRecord × Nat) × Nat) :
    p.state.Keeps ((importOps sizeOf).rebuildImport hasSetAccess p pair).state := by
  have hcreate : p.state.Keeps ((importOps sizeOf).importFd pair.2 p.state).2 :=
    keeps_of_eq (p.state.cuMemCreate_maps _) (p.state.cuMemCreate_frame _).1
  unfold ImportOps.rebuildImport
  dsimp only
  split
  case h_1 d heq =>
    rw [heq] at hcreate
    exact hcreate
  case h_2 newHandle d heq =>
    rw [heq] at hcreate
    have hmap : d.Keeps ((importOps sizeOf).map pair.1.1.mappedVaddr pair.1.1.size newHandle d).2 :=
      d.keeps_cuMemMap pair.1.1.mappedVaddr pair.1.1.size newHandle
    split
    case h_1 d' heq' =>
      rw [heq'] at hmap
      exact (hcreate.trans hmap).trans (keeps_of_eq (d'.cuMemRelease_maps newHandle) (d'.cuMemRelease_frame newHandle).1)
    case h_2 d' heq' =>
      rw [heq'] at hmap
      exact (hcreate.trans hmap).trans (keeps_replayAccess sizeOf hasSetAccess pair.1.1 d')

/-- An import maps only what is free. -/
theorem IpcWorkerState.keeps_importPeers (s : IpcWorkerState) (block : List IpcExportShmEntry) :
    s.ipc.drv.Keeps (s.importPeers sizeOf block).ipc.drv := by
  have hreceive : ∀ (reqs : List (Int × List (IpcExportShmEntry × Nat))) (x : (Nat → Option Nat) × Driver),
      x.2.Keeps (reqs.foldl (Driver.importOps sizeOf).requestPeer x).2 := by
    intro reqs
    induction reqs with
    | nil => exact fun x => Driver.keeps_of_eq rfl rfl
    | cons req reqs ih =>
      intro x
      have hreq : x.2.Keeps ((Driver.importOps sizeOf).requestPeer x req).2 := Driver.keeps_of_eq rfl rfl
      exact hreq.trans (ih _)
  have hrebuild : ∀ (pairs : List ((IpcImportRecord × Nat) × Nat)) (p : ImportOps.Progress Driver),
      p.state.Keeps (pairs.foldl ((Driver.importOps sizeOf).rebuildImport s.ipc.fns.cuMemSetAccess) p).state := by
    intro pairs
    induction pairs with
    | nil => exact fun p => Driver.keeps_of_eq rfl rfl
    | cons pair pairs ih => exact fun p => (Driver.keeps_rebuildImport sizeOf _ p pair).trans (ih _)
  unfold importPeers ImportOps.ipcImportFromShmBlock
  split_ifs
  · exact Driver.keeps_of_eq rfl rfl
  · exact Driver.keeps_of_eq rfl rfl
  · exact (hreceive (ImportOps.peerRequests block) (fun _ => none, s.ipc.drv)).trans (hrebuild _ ⟨s.ipc.imports, 0, _⟩)

end Import

/-! ### The blocks -/

namespace VGpu

/-- What a checkpoint and a restore make of `s`: the same bytes everywhere, the blocks mapped again, and what is not a
block as it was. -/
structure Revived (s s' : VGpu) : Prop where
  allocatedMemory : s'.allocatedMemory = s.allocatedMemory
  env : s'.drv.env = s.drv.env
  mem : s'.drv.mem = s.drv.mem
  foreign : ∀ m : Mapping, s.allocatedMemory[m.va]? = none → (m ∈ s'.drv.maps ↔ m ∈ s.drv.maps)
  blocks : ∀ p n : Nat, s.allocatedMemory[p]? = some n → ∃ h, ⟨p, roundUp2MB n, h, true⟩ ∈ s'.drv.maps

theorem not_mem_ckptBlocks {t : ExtTreeMap Nat Nat} {p : Nat} (h : t[p]? = none) : p ∉ (ckptBlocks t).map Prod.fst := by
  intro hmem
  obtain ⟨b, hb, rfl⟩ := List.mem_map.1 hmem
  obtain ⟨n, hn, -⟩ := mem_ckptBlocks.1 hb
  exact absurd (h.symm.trans hn) (by simp)

theorem revived_of_cycle {shmSize : Nat} {s : VGpu} (henv : s.drv.env.Reliable) (hs : s.OneHandleEach)
    (hnum : s.allocatedMemory.size < maxFileNum)
    (hsize : dumpHeaderSize + totalSize (ckptBlocks s.allocatedMemory) ≤ shmSize) :
    ∃ s₁ s₂, s.ckpt shmSize = .ok s₁ ∧ s₁.restorePtrAndContent = .ok s₂ ∧ Revived s s₂ := by
  have hmapped : ∀ p n : Nat, s.allocatedMemory[p]? = some n → s.MappedBlock p n := fun p n hp => hs.mappedBlock hp
  obtain ⟨s₁, hckpt, hdumped⟩ := ckpt_spec henv hmapped hnum hsize
  obtain ⟨s₁', s₂, hremap, hcopy, henv', hrestored⟩ := restore_spec wholeChunk (hdumped.env ▸ henv)
    hdumped.fileList hdumped.currentOffset (hdumped.parked (ckptBlocks_dumpable hmapped))
  refine ⟨s₁, s₂, hckpt, ?_, hrestored.allocatedMemory.trans hdumped.allocatedMemory, henv'.trans hdumped.env,
    funext fun a => ?_, fun m hm => ?_, fun p n hp => ?_⟩
  · unfold restorePtrAndContent
    rw [hremap]
    exact hcopy
  · by_cases hout : ∀ b ∈ ckptBlocks s.allocatedMemory, a < b.1 ∨ b.1 + roundUp2MB b.2 ≤ a
    · exact (hrestored.outside a hout).trans (congrFun hdumped.mem a)
    -- a block is dumped with all the bytes of its memory
    simp only [not_forall, not_or, Nat.not_lt, Nat.not_le] at hout
    obtain ⟨b, hb, hle, hlt⟩ := hout
    obtain ⟨n, -, hround⟩ := mem_ckptBlocks.1 hb
    rw [hround, roundUp2MB_idem, ← hround] at hlt
    obtain ⟨f, hf, hptr, hfsize⟩ := exists_file_of_mem dumpHeaderSize hb
    rw [← hdumped.fileList] at hf
    obtain ⟨i, rfl⟩ := Nat.exists_eq_add_of_le hle
    have hi : i < f.size := by omega
    rw [← hptr, hrestored.content f hf i hi]
    exact hdumped.image f hf i hi
  · have hva := not_mem_ckptBlocks hm
    exact (hrestored.maps m hva).trans (hdumped.maps m hva)
  · obtain ⟨h, -, hmap, -⟩ := hrestored.mapped (p, roundUp2MB n) (mem_ckptBlocks.2 ⟨n, hp, rfl⟩)
    rw [roundUp2MB_idem] at hmap
    exact ⟨h, hmap⟩

end VGpu

/-! ### Other handles

A restore maps the blocks again behind new handles. The rebuilds after it can not tell: they look at ranges. -/

namespace Driver

/-- The handle of the mapping that `d` has at that address. -/
def handleAt (d : Driver) (m : Mapping) : Nat :=
  match d.maps.find? fun n => n.va == m.va with
  | some n => n.handle
  | none => m.handle

/-- `d` with the handles of `d'`. -/
def rehandle (d d' : Driver) : Driver :=
  { d with
    maps := d.maps.map fun m => { m with handle := d'.handleAt m }
    maps_apart := List.pairwise_map.2 (d.maps_apart.imp fun h => h)
    maps_pos := by
      intro m hm
      obtain ⟨n, hn, rfl⟩ := List.mem_map.1 hm
      exact d.maps_pos n hn }

theorem handleAt_of_mem {d : Driver} {m n : Mapping} (hn : n ∈ d.maps) (hva : n.va = m.va) : d.handleAt m = n.handle := by
  unfold handleAt
  cases hfind : d.maps.find? fun n => n.va == m.va with
  | none => exact absurd (List.find?_eq_none.1 hfind n hn) (by simp [hva])
  | some k =>
    have hk : k.va = m.va := by simpa using List.find?_some hfind
    rw [eq_of_va_eq (List.mem_of_find?_eq_some hfind) hn (hk.trans hva.symm)]

theorem handleAt_of_free {d : Driver} {m : Mapping} (hfree : ∀ n ∈ d.maps, n.va ≠ m.va) : d.handleAt m = m.handle := by
  unfold handleAt
  rw [List.find?_eq_none.2 fun n hn => by simpa using hfree n hn]

theorem mappedAt_rehandle (d d' : Driver) (va n : Nat) : (d.rehandle d').mappedAt va n = d.mappedAt va n := by
  unfold mappedAt rehandle
  rw [List.any_map]
  rfl

theorem accessible_rehandle (d d' : Driver) (a n : Nat) : (d.rehandle d').accessible a n = d.accessible a n := by
  unfold accessible rehandle
  rw [List.any_map]
  rfl

end Driver

namespace IpcState

def withDrv (s : IpcState) (drv : Driver) : IpcState := { s with drv := drv }

section Rehandle
variable {s t : IpcState} {d : Driver} {exportData localData : Option HostBuf}

/-- **Both rebuilds on another driver**, which has no mapping that the one before did not have, except for its handle. -/
theorem Parked.back_rehandled (h : Parked s t exportData localData) (hs : s.Intact) (hfns : t.fns.Rebuildable)
    (henv : d.env.Reliable) (hmem : d.mem = t.drv.mem)
    (hmaps : ∀ m ∈ d.maps, ∃ n ∈ s.drv.maps, m = { n with handle := m.handle })
    (hfree : ∀ e ∈ s.localEntries, ∀ m ∈ d.maps, m.va ≠ e.vaddr) :
    s.ReadsAs (((t.withDrv d).rebuiltExports exportData).rebuiltLocals localData) := by
  have hintact : (s.withDrv (s.drv.rehandle d)).Intact := by
    refine ⟨⟨hs.exports.live, hs.exports.prop, fun rec hrec hmap => ?_⟩, fun e he => ?_, hs.imports⟩
    · exact (s.drv.mappedAt_rehandle d _ _).trans (hs.exports.mapped rec hrec hmap)
    · refine List.mem_map.2 ⟨_, hs.locals e he, ?_⟩
      rw [Driver.handleAt_of_free fun n hn => hfree e he n hn]
  have hparked : Parked (s.withDrv (s.drv.rehandle d)) (t.withDrv d) exportData localData := by
    refine ⟨fun m hm => ?_, hmem.trans h.mem, fun rec hrec hmap => ?_, ?_, ?_, hfree⟩
    · have hm : m ∈ d.maps := hm
      obtain ⟨n, hn, heq⟩ := hmaps m hm
      refine List.mem_map.2 ⟨n, hn, ?_⟩
      rw [Driver.handleAt_of_mem (m := n) hm (by rw [heq])]
      exact heq.symm
    · exact (s.drv.accessible_rehandle d _ _).trans (h.readable rec hrec hmap)
    · exact h.exports.imp id fun ⟨buf, hb, hpos, hsize, hcopied⟩ =>
        ⟨buf, hb, hpos, hsize, hcopied.active, hcopied.idle, hcopied.length⟩
    · exact h.locals.imp id id
  have hback := hparked.back hintact henv hfns
  exact ⟨hback.exports, hback.locals⟩

end Rehandle

/-! ### The teardown of what can be read -/

/-- Every target of a teardown. -/
def targets (s : IpcState) : List TearTarget := s.importTargets ++ s.exportTargets ++ s.localTargets

/-- Every export is mapped and can be read. -/
def ExportsReadable (s : IpcState) : Prop :=
  ∀ rec ∈ s.exports, rec.hasMapping = true → ∃ handle, ⟨rec.mappedVaddr, rec.mappedSize, handle, true⟩ ∈ s.drv.maps

theorem accessible_of_mem_maps {d : Driver} {va n handle : Nat} (h : ⟨va, n, handle, true⟩ ∈ d.maps) :
    d.accessible va n = true := by
  rw [Driver.accessible, List.any_eq_true]
  exact ⟨_, h, by simp⟩

theorem localCopies_reliable {s : IpcState} (henv : s.drv.env.Reliable)
    (hmapped : ∀ e ∈ s.localEntries, ⟨e.vaddr, e.size, e.handle, true⟩ ∈ s.drv.maps) (buf : HostBuf) :
    (s.localCopies buf).1 = true ∧ ∀ x ∈ s.localSlots.flatten, x ∈ (s.localCopies buf).2.2.saved := by
  have hpin := s.drv.same_pinHost s.fns s.ipcGetLocalAllocDataSize
  obtain ⟨hok, -, hsaved⟩ := saveGroups_reliable
    (r := ⟨(s.drv.pinHost s.fns s.ipcGetLocalAllocDataSize).2, buf.data, [], []⟩)
    (s.useAsync s.ipcGetLocalAllocDataSize) false s.localSlots (hpin.env ▸ henv) fun x hx => by
      rw [localSlots, flatten_deviceSlots] at hx
      obtain ⟨y, hy, rfl⟩ := List.mem_map.1 hx
      have he : y.1 ∈ s.localEntries := s.perm_deviceOrder.mem_iff.1 (List.mem_map_of_mem hy)
      rw [hpin.accessible]
      exact accessible_of_mem_maps (hmapped y.1 he)
  refine ⟨hok, fun x hx => ?_⟩
  have hsaved' : (s.localCopies buf).2.2.saved = s.localSlots.flatten := hsaved
  rw [hsaved']
  exact hx

section Spares
variable {s : IpcState} {buf : HostBuf}

theorem spares_saveExports (hfns : s.fns.Resolved) (hsize : s.ipcGetExportDataSize ≤ buf.size) :
    Driver.Spares s.exportTargets s.drv (s.ipcSaveAndTeardownAllExports buf).2.1.drv := by
  obtain ⟨hsame, -⟩ := s.exportCopies_spec buf
  rw [(exportPass (s := s) (by rw [hfns.release, hfns.dtoh]; rfl) hfns.unmap hsize).drv]
  split_ifs
  · exact (hsame.spares _).trans (Driver.spares_run_tearStep _ _)
  · exact hsame.spares _

theorem spares_saveLocals (hfns : s.fns.Resolved) (hsize : s.ipcGetLocalAllocDataSize ≤ buf.size) :
    Driver.Spares s.localTargets s.drv (s.ipcSaveAndTeardownLocalAllocs buf).2.1.drv := by
  obtain ⟨hsame, -⟩ := s.localCopies_spec buf
  rw [(localPass (s := s) (by rw [hfns.release, hfns.dtoh]; rfl) hfns.unmap hsize).1]
  split_ifs
  · exact (hsame.spares _).trans (Driver.spares_run_tearStep _ _)
  · exact hsame.spares _

theorem Intact.locals_saveExports (hs : s.Intact) (hfns : s.fns.Resolved) (hsize : s.ipcGetExportDataSize ≤ buf.size)
    {e : LocalAllocEntry} (he : e ∈ s.localEntries) :
    ⟨e.vaddr, e.size, e.handle, true⟩ ∈ (s.ipcSaveAndTeardownAllExports buf).2.1.drv.maps := by
  refine (spares_saveExports hfns hsize).maps _ (hs.locals e he) fun t ht hva => ?_
  obtain ⟨rec, hrec, htarget⟩ := List.mem_filterMap.1 ht
  unfold IpcExportRecord.target at htarget
  split_ifs at htarget with hskip
  rw [Bool.not_eq_true, Bool.or_eq_false_iff, Bool.not_eq_false'] at hskip
  obtain rfl := Option.some.inj htarget
  have := hs.apart hrec hskip.2 he
  have := s.drv.maps_pos _ (hs.locals e he)
  obtain ⟨m, hm, -, hsz⟩ := Driver.exists_mapping (hs.exports.mapped rec hrec hskip.2)
  have := s.drv.maps_pos m hm
  dsimp only at *
  omega

theorem mem_localTargets {t : TearTarget} : t ∈ s.localTargets ↔ ∃ e ∈ s.localEntries, e.target = t := by
  unfold localTargets
  rw [List.mem_map]
  exact exists_congr fun e => and_congr_left fun _ => s.perm_deviceOrder.mem_iff

end Spares

end IpcState

end GpuCr
