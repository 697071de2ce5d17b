import GpuCr.Ipc.Teardown
import Mathlib.Data.List.Perm.Subperm

/-!
# What the teardown leaves behind

The teardown finds memory by three tables: imports, exports with a mapping, and created allocations with
an address. An allocation that none of them shows is left as it is. For histories in which every created
allocation has one address at a time and is mapped when the message arrives, the three passes together
remove everything.
-/

namespace GpuCr

open Lib.Run Std

namespace IpcWorkerState

/-- A copy that would end a pass, and every unmapping and release, succeeds. -/
structure TeardownSucceeds (w : IpcWorkerState) : Prop where
  imports : w.ipc.drv.TearsOk w.ipc.importTargets
  exports : ∀ buf, w.atExports.exportBuf = some buf → (w.atExports.ipc.exportCopies buf).1 = true ∧
    (w.atExports.ipc.afterExportCopies buf).TearsOk w.atExports.ipc.exportTargets
  locals : ∀ buf, w.atLocals.localBuf = some buf → (w.atLocals.ipc.localCopies buf).1 = true ∧
    (w.atLocals.ipc.afterLocalCopies buf).TearsOk w.atLocals.ipc.localTargets

end IpcWorkerState

namespace HookedProcess

/-- The process when the message arrives, with no buffer yet. -/
def worker (s : HookedProcess) (mmapFails : Nat → Bool) : IpcWorkerState := ⟨s.ipc, none, none, mmapFails, 0⟩

/-- `IPC_TEARDOWN_MSG`. A record loses its descriptor when that is closed. -/
def ipcTeardown (s : HookedProcess) (mmapFails : Nat → Bool) : HookedProcess :=
  let w := run IpcWorkerState.step (s.worker mmapFails) IpcMsg.teardown.stages
  { s with
    ipc := w.ipc
    kind := fun h => if w.ipc.drv.isLive h then s.kind h else .plain
    mapped := (s.mapped.filter fun t => w.ipc.drv.mappedAt t.va t.size).map fun t =>
      { t with handle := t.handle.filter w.ipc.drv.isLive }
    openFds := s.openFds.filter fun fd =>
      !(s.ipc.exports.zip w.ipc.exports).any fun p => p.1.exportedFd == fd && p.2.exportedFd == -1 }

/-- No mapped or unreleased allocation that is shared or can be, and no open descriptor. -/
structure NoIpcState (s : HookedProcess) : Prop where
  mapped : ∀ t ∈ s.mapped, t.kind = .plain
  handles : ∀ h, s.kind h = .plain
  fds : s.openFds = []

/-! ### The condition -/

/-- A created allocation is not mapped when it is mapped already, and not released before it is unmapped. -/
def OneAddress (s : HookedProcess) : HookCall → Prop
  | .map _ _ handle => s.kind handle = .created → ∀ t ∈ s.mapped, t.handle ≠ some handle
  | .release handle => s.kind handle = .created → ∀ t ∈ s.mapped, t.handle ≠ some handle
  | _ => True

/-- Every handle is that of a mapping, an open descriptor is not the only thing to close, the functions
are there and the buffers can be had. -/
structure Covered (s : HookedProcess) (mmapFails : Nat → Bool) : Prop where
  mapped : ∀ h, s.kind h ≠ .plain → ∃ t ∈ s.mapped, t.handle = some h
  fds : s.openFds ≠ [] → 0 < s.ipc.ipcGetExportDataSize
  fns : s.ipc.fns.Resolved
  mmap : ∀ n, mmapFails n = false

/-! ### Histories -/

/-- The table of addresses has the address of every created allocation that is mapped. -/
structure Placed (s : HookedProcess) : Prop where
  sound : s.Sound
  address : ∀ t ∈ s.mapped, ∀ h, t.handle = some h → t.kind = .created → s.ipc.handleToVa[h]? = some t.va
  handle : ∀ t ∈ s.mapped, t.kind = .created → ∃ h, t.handle = some h

section Placed
variable {s : HookedProcess}

theorem Fresh.placed (h : s.Fresh) : s.Placed where
  sound := h.sound
  address t ht := by simp [h.mapped] at ht
  handle t ht := by simp [h.mapped] at ht

theorem Placed.recordMap (h : s.Placed) {d : Driver} {ptr size handle : Nat}
    (hd : s.ipc.drv.NewRange d ptr size handle) (hok : s.OneAddress (.map ptr size handle)) :
    (s.recordMap d ptr size handle).Placed := by
  have hcreated := h.sound.created handle
  refine ⟨h.sound.recordMap hd, fun t ht k hk hkind => ?_, fun t ht hkind => ?_⟩
  · rw [recordMap_mapped] at ht
    rw [recordMap_handleToVa]
    rcases List.mem_cons.1 ht with rfl | ht
    · obtain rfl := Option.some.inj hk
      rw [if_pos ⟨hcreated.2 hkind, rfl⟩]
    · rw [if_neg, h.address t ht k hk hkind]
      exact fun heq => hok (hcreated.1 heq.1) t ht (heq.2 ▸ hk)
  · rw [recordMap_mapped] at ht
    rcases List.mem_cons.1 ht with rfl | ht
    · exact ⟨handle, rfl⟩
    · exact h.handle t ht hkind

theorem Placed.recordRelease (h : s.Placed) {d : Driver} {k : Nat} (hd : s.ipc.drv.DropHandle d k)
    (hok : s.OneAddress (.release k)) : (s.recordRelease d k k).Placed := by
  obtain ⟨hmapped, hva⟩ := recordRelease_self s d k
  refine ⟨h.sound.recordRelease hd, fun t ht j hj hkind => ?_, fun t ht hkind => ?_⟩
  · rw [hmapped] at ht
    obtain ⟨t, ht', rfl⟩ := List.mem_map.1 ht
    obtain ⟨hj, hjk⟩ := (dropHandle_handle k t j).1 hj
    rw [dropHandle_kind] at hkind
    rw [hva, getElem?_erase_key, if_neg hjk, dropHandle_va]
    exact h.address t ht' j hj hkind
  · rw [hmapped] at ht
    obtain ⟨t, ht', rfl⟩ := List.mem_map.1 ht
    rw [dropHandle_kind] at hkind
    obtain ⟨j, hj⟩ := h.handle t ht' hkind
    refine ⟨j, (dropHandle_handle k t j).2 ⟨hj, ?_⟩⟩
    rintro rfl
    exact hok ((h.sound.heldLive t ht' j hj).2.symm.trans hkind) t ht' hj

theorem Placed.call (h : s.Placed) (c : HookCall) (hok : s.OneAddress c) : (s.call c).Placed := by
  have hsound := h.sound.call c
  have heff := s.call_effect c
  generalize s.call c = s' at heff hsound
  cases heff with
  | rejected hd => exact ⟨hsound, h.address, h.handle⟩
  | plain hd => exact ⟨hsound, h.address, h.handle⟩
  | created hd hpos => exact ⟨hsound, h.address, h.handle⟩
  | exported hd _ hfd => exact ⟨hsound, h.address, h.handle⟩
  | imported hd => exact ⟨hsound, h.address, h.handle⟩
  | mapped hd => exact h.recordMap hd hok
  | unmapped hd =>
    refine ⟨hsound, fun t ht => h.address t (List.mem_filter.1 ht).1, fun t ht => h.handle t (List.mem_filter.1 ht).1⟩
  | released hd =>
    rw [h.sound.alias_eq] at hd ⊢
    exact h.recordRelease hd hok
  | access hd => exact ⟨hsound, h.address, h.handle⟩

end Placed

/-! ### The teardown of a covered state -/

section Teardown
variable {s : HookedProcess} {mmapFails : Nat → Bool}

theorem Sound.mem_exportTargets (h : s.Sound) {rec : IpcExportRecord} (hrec : rec ∈ s.ipc.exports)
    (hmap : rec.hasMapping = true) : ⟨rec.mappedVaddr, rec.mappedSize, some rec.localHandle⟩ ∈ s.ipc.exportTargets := by
  refine List.mem_filterMap.2 ⟨rec, hrec, ?_⟩
  simp [IpcExportRecord.target, (h.exports rec hrec).1, hmap]

theorem Sound.exportTargets_eq_nil (h : s.Sound) (hsize : ¬ 0 < s.ipc.ipcGetExportDataSize) :
    s.ipc.exportTargets = [] := by
  refine List.filterMap_eq_nil_iff.2 fun rec hrec => ?_
  obtain ⟨htorn, hmap⟩ := h.exports rec hrec
  cases hm : rec.hasMapping with
  | false => simp [IpcExportRecord.target, hm]
  | true =>
    obtain ⟨hpos, -⟩ := hmap hm
    have hactive : rec.active = true := by simp [IpcExportRecord.active, htorn, hm, hpos]
    have hzero := List.sum_eq_zero_iff_forall_eq_nat.1 (Nat.eq_zero_of_not_pos hsize) rec.mappedSize
      (List.mem_map_of_mem (List.mem_filter.2 ⟨hrec, hactive⟩))
    omega

theorem mem_localEntries {s : IpcState} {e : LocalAllocEntry} :
    e ∈ s.localEntries ↔ s.createdAllocs[e.handle]? = some ⟨e.size, e.prop⟩ ∧
      s.handleToVa[e.handle]? = some e.vaddr ∧ e.vaddr ∉ s.exportedVas := by
  unfold IpcState.localEntries
  rw [List.mem_filterMap]
  constructor
  · rintro ⟨kv, hkv, he⟩
    split at he
    · exact absurd he (by simp)
    next va hva =>
    split_ifs at he with hexp
    obtain rfl := Option.some.inj he
    exact ⟨ExtTreeMap.mem_toList_iff_getElem?_eq_some.1 hkv, hva, hexp⟩
  · rintro ⟨hcreated, hva, hexp⟩
    refine ⟨(e.handle, ⟨e.size, e.prop⟩), ExtTreeMap.mem_toList_iff_getElem?_eq_some.2 hcreated, ?_⟩
    simp only [hva, if_neg hexp]

theorem Sound.localTargets_eq_nil (h : s.Sound) (hsize : ¬ 0 < s.ipc.ipcGetLocalAllocDataSize) :
    s.ipc.localTargets = [] := by
  have hnil : s.ipc.localEntries = [] := by
    refine List.eq_nil_iff_forall_not_mem.2 fun e he => ?_
    have hzero := List.sum_eq_zero_iff_forall_eq_nat.1 (Nat.eq_zero_of_not_pos hsize) e.size
      (List.mem_map_of_mem he)
    have hpos := h.createdPos e.handle ⟨e.size, e.prop⟩ (mem_localEntries.1 he).1
    dsimp only at hpos
    omega
  have horder : s.ipc.deviceOrder = [] := List.perm_nil.1 (hnil ▸ s.ipc.perm_deviceOrder)
  rw [IpcState.localTargets, horder, List.map_nil]

theorem atLocals_entries (hfns : s.ipc.fns.Resolved) (mmapFails : Nat → Bool) :
    (s.worker mmapFails).atLocals.ipc.localEntries = s.ipc.localEntries ∧
      (s.worker mmapFails).atLocals.ipc.ipcGetLocalAllocDataSize = s.ipc.ipcGetLocalAllocDataSize ∧
      (s.worker mmapFails).atLocals.ipc.localTargets = s.ipc.localTargets := by
  obtain ⟨imports, hipc⟩ := IpcWorkerState.atExports_ipc (w := s.worker mmapFails) hfns
  have hentries : ∀ r : IpcState, r.createdAllocs = s.ipc.createdAllocs → r.handleToVa = s.ipc.handleToVa →
      r.exportedVas = s.ipc.exportedVas → r.localEntries = s.ipc.localEntries := by
    intro r h1 h2 h3
    unfold IpcState.localEntries
    rw [h1, h2, h3]
  have heq : (s.worker mmapFails).atLocals.ipc.localEntries = s.ipc.localEntries := by
    rcases IpcWorkerState.atLocals_ipc (w := s.worker mmapFails) hfns rfl with ⟨-, heq⟩ | ⟨buf, -, hpass⟩
    · rw [heq, hipc]
      exact hentries _ rfl rfl rfl
    · rw [hipc] at hpass
      exact hentries _ hpass.createdAllocs hpass.handleToVa hpass.exportedVas
  refine ⟨heq, ?_, ?_⟩
  · rw [IpcState.ipcGetLocalAllocDataSize, heq]
    rfl
  · rw [IpcState.localTargets, IpcState.deviceOrder, IpcState.deviceAllocs, heq]
    rfl

theorem Sound.torn_imports (hcov : s.Covered mmapFails) (hcalls : (s.worker mmapFails).TeardownSucceeds) :
    Driver.Torn s.ipc.drv (s.worker mmapFails).atExports.ipc.drv s.ipc.importTargets := by
  obtain ⟨imports, hipc⟩ := IpcWorkerState.atExports_ipc (w := s.worker mmapFails) hcov.fns
  rw [hipc]
  exact hcalls.imports.torn

theorem Sound.torn_exports (h : s.Sound) (hcov : s.Covered mmapFails)
    (hcalls : (s.worker mmapFails).TeardownSucceeds) :
    Driver.Torn (s.worker mmapFails).atExports.ipc.drv (s.worker mmapFails).atLocals.ipc.drv
      s.ipc.exportTargets := by
  obtain ⟨imports, hipc⟩ := IpcWorkerState.atExports_ipc (w := s.worker mmapFails) hcov.fns
  rcases IpcWorkerState.atLocals_ipc (w := s.worker mmapFails) hcov.fns rfl with ⟨hnone, heq⟩ | ⟨buf, hbuf, hpass⟩
  · have hsize : ¬ 0 < s.ipc.ipcGetExportDataSize := by
      intro hpos
      have hbuf := (IpcWorkerState.atExports_buf (w := s.worker mmapFails) rfl).1.trans (if_pos hpos)
      rw [hnone, IpcWorkerState.mmap, show (s.worker mmapFails).mmapFails _ = false from hcov.mmap _,
        if_neg Bool.false_ne_true] at hbuf
      exact absurd hbuf (by simp)
    rw [h.exportTargets_eq_nil hsize, heq]
    exact Driver.torn_nil (Driver.sameView_of_eq rfl rfl)
  · have hdrv := hpass.drv
    obtain ⟨hcopies, hsteps⟩ := hcalls.exports buf hbuf
    rw [if_pos hcopies] at hdrv
    have hsame := (IpcState.exportCopies_spec (s.worker mmapFails).atExports.ipc buf).1
    have htorn := hsteps.torn
    have htargets : (s.worker mmapFails).atExports.ipc.exportTargets = s.ipc.exportTargets := by
      rw [hipc]
      rfl
    rw [hdrv]
    rw [htargets] at htorn ⊢
    exact (Driver.torn_nil (Driver.sameView_of_eq hsame.maps hsame.live)).append htorn

theorem Sound.torn_locals (h : s.Sound) (hcov : s.Covered mmapFails)
    (hcalls : (s.worker mmapFails).TeardownSucceeds) :
    Driver.Torn (s.worker mmapFails).atLocals.ipc.drv (s.worker mmapFails).atEnd.ipc.drv s.ipc.localTargets := by
  obtain ⟨-, hsize, htargets⟩ := atLocals_entries hcov.fns mmapFails
  rcases IpcWorkerState.atEnd_ipc (w := s.worker mmapFails) hcov.fns rfl rfl with ⟨hnone, heq⟩ | ⟨buf, hbuf, -, hdrv⟩
  · have hzero : ¬ 0 < s.ipc.ipcGetLocalAllocDataSize := by
      intro hpos
      obtain ⟨clock, hbuf⟩ := IpcWorkerState.atLocals_buf (w := s.worker mmapFails) rfl rfl
      rw [hnone, hsize, if_pos hpos, show (s.worker mmapFails).mmapFails clock = false from hcov.mmap clock,
        if_neg Bool.false_ne_true] at hbuf
      exact absurd hbuf (by simp)
    rw [h.localTargets_eq_nil hzero, heq]
    exact Driver.torn_nil (Driver.sameView_of_eq rfl rfl)
  · obtain ⟨hcopies, hsteps⟩ := hcalls.locals buf hbuf
    have hsame := (IpcState.localCopies_spec (s.worker mmapFails).atLocals.ipc buf).1
    have htorn := hsteps.torn
    rw [hdrv, if_pos hcopies]
    rw [htargets] at htorn ⊢
    exact (Driver.torn_nil (Driver.sameView_of_eq hsame.maps hsame.live)).append htorn

/-- The three passes run one after the other over the targets of the tables as the message finds them. -/
theorem Sound.torn_atEnd (h : s.Sound) (hcov : s.Covered mmapFails)
    (hcalls : (s.worker mmapFails).TeardownSucceeds) :
    Driver.Torn s.ipc.drv (s.worker mmapFails).atEnd.ipc.drv
      (s.ipc.importTargets ++ s.ipc.exportTargets ++ s.ipc.localTargets) :=
  ((Sound.torn_imports hcov hcalls).append (h.torn_exports hcov hcalls)).append (h.torn_locals hcov hcalls)

theorem Placed.exists_target_created (h : s.Placed) {t : HeldMapping} (ht : t ∈ s.mapped) (hkind : t.kind = .created) :
    ∃ u ∈ s.ipc.exportTargets ++ s.ipc.localTargets, u.va = t.va := by
  obtain ⟨k, hk⟩ := h.handle t ht hkind
  have hva := h.address t ht k hk hkind
  by_cases hexp : t.va ∈ s.ipc.exportedVas
  · obtain ⟨rec, hrec, heq⟩ := List.mem_map.1 hexp
    obtain ⟨hrec, hmap⟩ := List.mem_filter.1 hrec
    exact ⟨_, List.mem_append_left _ (h.sound.mem_exportTargets hrec hmap), heq⟩
  · have hcreated : k ∈ s.ipc.createdAllocs := (h.sound.created k).2 ((h.sound.heldLive t ht k hk).2.symm.trans hkind)
    obtain ⟨rec, hrec⟩ := Option.isSome_iff_exists.1 (ExtTreeMap.mem_iff_isSome_getElem?.1 hcreated)
    have hentry : (⟨k, t.va, rec.size, rec.prop⟩ : LocalAllocEntry) ∈ s.ipc.localEntries :=
      mem_localEntries.2 ⟨hrec, hva, hexp⟩
    have horder := s.ipc.perm_deviceOrder.mem_iff.2 hentry
    exact ⟨_, List.mem_append_right _ (List.mem_map_of_mem horder), rfl⟩

theorem Sound.exists_target_imported (h : s.Sound) {t : HeldMapping} (ht : t ∈ s.mapped) (hkind : t.kind = .imported) :
    ∃ u ∈ s.ipc.importTargets, u.va = t.va ∧ u.handle = t.handle := by
  obtain ⟨i, rec, hrec, htorn, hva⟩ := h.heldImports t ht hkind
  obtain ⟨-, t', ht', hof⟩ := h.imports i rec hrec htorn
  obtain rfl : t = t' := h.eq_of_va ht ht' (hva.symm.trans hof.1.symm)
  refine ⟨rec.target, List.mem_map_of_mem (List.mem_filter.2 ⟨List.mem_of_getElem? hrec, by simp [htorn]⟩), hva, ?_⟩
  exact hof.2.2.2.symm

/-- All calls succeed, so no handle is released twice: there are as many releases as created handles, and
every created handle is released. -/
theorem Placed.exists_handle_created (h : s.Placed) (hcov : s.Covered mmapFails) {d : Driver}
    (htorn : Driver.Torn s.ipc.drv d (s.ipc.importTargets ++ s.ipc.exportTargets ++ s.ipc.localTargets)) {k : Nat}
    (hk : s.kind k = .created) : ∃ u ∈ s.ipc.exportTargets ++ s.ipc.localTargets, u.handle = some k := by
  have hheld : ∀ j ∈ s.ipc.createdAllocs.keys, ∃ t ∈ s.mapped, t.handle = some j ∧ t.kind = .created ∧
      s.ipc.handleToVa[j]?.getD 0 = t.va := by
    intro j hj
    have hkind := (h.sound.created j).1 (ExtTreeMap.mem_keys.1 hj)
    obtain ⟨t, ht, hhandle⟩ := hcov.mapped j (by rw [hkind]; simp)
    have htkind := (h.sound.heldLive t ht j hhandle).2.trans hkind
    exact ⟨t, ht, hhandle, htkind, by rw [h.address t ht j hhandle htkind]; rfl⟩
  have hvas : (s.ipc.createdAllocs.keys.map fun j => s.ipc.handleToVa[j]?.getD 0).Nodup := by
    refine List.Nodup.map_on (fun i hi j hj heq => ?_) ExtTreeMap.nodup_keys
    obtain ⟨t, ht, hti, -, hva⟩ := hheld i hi
    obtain ⟨t', ht', htj, -, hva'⟩ := hheld j hj
    obtain rfl := h.sound.eq_of_va ht ht' (by rw [← hva, ← hva']; exact heq)
    exact Option.some.inj (hti.symm.trans htj)
  have hle : s.ipc.createdAllocs.keys.length ≤ (s.ipc.exportTargets ++ s.ipc.localTargets).length := by
    have hsub : (s.ipc.createdAllocs.keys.map fun j => s.ipc.handleToVa[j]?.getD 0).Subperm
        ((s.ipc.exportTargets ++ s.ipc.localTargets).map (·.va)) := hvas.subperm fun a ha => by
      obtain ⟨j, hj, rfl⟩ := List.mem_map.1 ha
      obtain ⟨t, ht, -, hkind, hva⟩ := hheld j hj
      obtain ⟨u, hu, huva⟩ := h.exists_target_created ht hkind
      exact List.mem_map.2 ⟨u, hu, by rw [huva]; exact hva.symm⟩
    simpa using hsub.length_le
  have hsome : ∀ u ∈ s.ipc.exportTargets ++ s.ipc.localTargets, ∃ j, u.handle = some j ∧ j ∈ s.ipc.createdAllocs.keys := by
    intro u hu
    have hlive := (htorn.targets u (by rw [List.append_assoc]; exact List.mem_append_right _ hu)).2
    rcases List.mem_append.1 hu with hu | hu
    · obtain ⟨rec, hrec, htarget⟩ := List.mem_filterMap.1 hu
      unfold IpcExportRecord.target at htarget
      split_ifs at htarget with hskip
      obtain rfl := Option.some.inj htarget
      rw [Bool.or_eq_true, not_or, Bool.not_eq_true, Bool.not_eq_true, Bool.not_eq_false'] at hskip
      rcases ((h.sound.exports rec hrec).2 hskip.2).2 with hzero | hmem
      · have hdead := hlive rec.localHandle rfl
        rw [hzero, h.sound.nullDead] at hdead
        exact absurd hdead Bool.false_ne_true
      · exact ⟨_, rfl, ExtTreeMap.mem_keys.2 hmem⟩
    · obtain ⟨e, he, rfl⟩ := List.mem_map.1 hu
      have hcreated := (mem_localEntries.1 (s.ipc.perm_deviceOrder.mem_iff.1 he)).1
      exact ⟨_, rfl, ExtTreeMap.mem_keys.2 (ExtTreeMap.mem_iff_isSome_getElem?.2 (by rw [hcreated]; rfl))⟩
  have hreleases : ((s.ipc.exportTargets ++ s.ipc.localTargets).filterMap (·.handle)).Nodup := by
    have hall := htorn.handles
    rw [List.append_assoc, List.filterMap_append] at hall
    exact hall.of_append_right
  have hsub : ((s.ipc.exportTargets ++ s.ipc.localTargets).filterMap (·.handle)).Subperm s.ipc.createdAllocs.keys :=
      hreleases.subperm fun j hj => by
    obtain ⟨u, hu, hju⟩ := List.mem_filterMap.1 hj
    obtain ⟨i, hi, hmem⟩ := hsome u hu
    exact Option.some.inj (hi.symm.trans hju) ▸ hmem
  have hlength : ((s.ipc.exportTargets ++ s.ipc.localTargets).filterMap (·.handle)).length =
      (s.ipc.exportTargets ++ s.ipc.localTargets).length := by
    refine List.filterMap_length_eq_length.2 fun u hu => ?_
    obtain ⟨j, hj, -⟩ := hsome u hu
    rw [hj]
    rfl
  have hperm := hsub.perm_of_length_le (by rw [hlength]; exact hle)
  obtain ⟨u, hu, huk⟩ := List.mem_filterMap.1
    (hperm.mem_iff.2 (ExtTreeMap.mem_keys.2 ((h.sound.created k).2 hk)))
  exact ⟨u, hu, huk⟩

theorem Sound.fds_closed (h : s.Sound) (hcov : s.Covered mmapFails)
    (hcalls : (s.worker mmapFails).TeardownSucceeds) (fd : Int) (hfd : fd ∈ s.openFds) :
    ((s.ipc.exports.zip (s.worker mmapFails).atEnd.ipc.exports).any fun p =>
      p.1.exportedFd == fd && p.2.exportedFd == -1) = true := by
  have hpos := hcov.fds (List.ne_nil_of_mem hfd)
  obtain ⟨hnonneg, rec, hrec, heq⟩ := h.fds fd hfd
  obtain ⟨i, hi⟩ := List.mem_iff_getElem?.1 hrec
  obtain ⟨imports, hipc⟩ := IpcWorkerState.atExports_ipc (w := s.worker mmapFails) hcov.fns
  have hend : (s.worker mmapFails).atEnd.ipc.exports = (s.worker mmapFails).atLocals.ipc.exports := by
    rcases IpcWorkerState.atEnd_ipc (w := s.worker mmapFails) hcov.fns rfl rfl with ⟨-, heq⟩ | ⟨buf, -, heq, -⟩
    · rw [heq]
    · exact heq
  rcases IpcWorkerState.atLocals_ipc (w := s.worker mmapFails) hcov.fns rfl with ⟨hnone, -⟩ | ⟨buf, hbuf, hpass⟩
  · have hbuf := (IpcWorkerState.atExports_buf (w := s.worker mmapFails) rfl).1.trans (if_pos hpos)
    rw [hnone, IpcWorkerState.mmap, show (s.worker mmapFails).mmapFails _ = false from hcov.mmap _,
      if_neg Bool.false_ne_true] at hbuf
    exact absurd hbuf (by simp)
  · obtain ⟨rec', hrec', hclosed⟩ := hpass.fds (hcalls.exports buf hbuf).1 i rec (by rw [hipc]; exact hi)
      (h.exports rec hrec).1 (heq ▸ hnonneg)
    rw [List.any_eq_true]
    refine ⟨(rec, rec'), ?_, by simp [heq, hclosed]⟩
    rw [hend]
    exact List.mem_iff_getElem?.2 ⟨i, List.getElem?_zip_eq_some.2 ⟨hi, hrec'⟩⟩

theorem Placed.noIpcState (h : s.Placed) (hcov : s.Covered mmapFails)
    (hcalls : (s.worker mmapFails).TeardownSucceeds) : (s.ipcTeardown mmapFails).NoIpcState := by
  have htorn := h.sound.torn_atEnd hcov hcalls
  have hclosed := h.sound.fds_closed hcov hcalls
  unfold ipcTeardown
  rw [IpcWorkerState.run_teardown]
  generalize (s.worker mmapFails).atEnd = w at htorn hclosed
  refine ⟨fun t ht => ?_, fun k => ?_, ?_⟩
  · obtain ⟨t, hmem, rfl⟩ := List.mem_map.1 ht
    obtain ⟨hmem, hmapped⟩ := List.mem_filter.1 hmem
    have hgone := ((htorn.mapped t.va t.size).1 hmapped).2
    show t.kind = .plain
    cases hkind : t.kind with
    | plain => rfl
    | created =>
      obtain ⟨u, hu, hva⟩ := h.exists_target_created hmem hkind
      exact absurd hva (hgone u (by rw [List.append_assoc]; exact List.mem_append_right _ hu))
    | imported =>
      obtain ⟨u, hu, hva, -⟩ := h.sound.exists_target_imported hmem hkind
      exact absurd hva (hgone u (List.mem_append_left _ (List.mem_append_left _ hu)))
  · show (if w.ipc.drv.isLive k then s.kind k else .plain) = .plain
    split_ifs with hlive
    · have hgone := ((htorn.live k).1 hlive).2
      cases hkind : s.kind k with
      | plain => rfl
      | created =>
        obtain ⟨u, hu, hhandle⟩ := h.exists_handle_created hcov htorn hkind
        exact absurd hhandle (hgone u (by rw [List.append_assoc]; exact List.mem_append_right _ hu))
      | imported =>
        obtain ⟨t, ht, hhandle⟩ := hcov.mapped k (by rw [hkind]; simp)
        obtain ⟨u, hu, -, heq⟩ := h.sound.exists_target_imported ht ((h.sound.heldLive t ht k hhandle).2.trans hkind)
        exact absurd (heq.trans hhandle) (hgone u (List.mem_append_left _ (List.mem_append_left _ hu)))
    · rfl
  · refine List.filter_eq_nil_iff.2 fun fd hfd => ?_
    rw [hclosed fd hfd]
    simp

end Teardown

/-- **The teardown is complete** after every history in which created allocations have one address at a
time and everything is mapped at the end. -/
theorem noIpcState_of_history (s : HookedProcess) (hs : s.Fresh) (history : List HookCall)
    (hok : AllSteps OneAddress call s history) (mmapFails : Nat → Bool)
    (hcov : (run call s history).Covered mmapFails)
    (hcalls : ((run call s history).worker mmapFails).TeardownSucceeds) :
    ((run call s history).ipcTeardown mmapFails).NoIpcState :=
  (invariant_of_allSteps (fun _ c h hc => h.call c hc) hs.placed hok history List.prefix_rfl).noIpcState hcov hcalls

/-! ### One allocation -/

/-- A process whose driver never fails, before its first call. -/
def empty : HookedProcess where
  ipc :=
    { drv :=
        { env := ⟨fun _ => false, id, fun _ _ => 0xAA⟩
          clock := 0
          mem := fun _ => 0
          maps := []
          live := []
          maps_apart := List.Pairwise.nil
          maps_pos := Driver.maps_pos_nil }
      fns := IpcState.allFns
      imports := []
      exports := []
      createdAllocs := ∅
      handleToVa := ∅
      localAllocs := []
      vaAccessDescs := ∅
      rebuiltHandleAlias := ∅
      released := [] }
  importedHandles := []
  vaddrToImportIdx := ∅
  vaddrToExportIdx := ∅
  kind := fun _ => .plain
  mapped := []
  openFds := []

theorem fresh_empty : empty.Fresh := ⟨rfl, rfl, rfl, rfl, rfl, rfl, rfl, rfl, fun _ => rfl, rfl, rfl⟩

/-- An allocation that is mapped, made accessible and exported. -/
def exportHistory : List HookCall :=
  [.create 4096 1 ⟨0⟩, .map 0x10000 4096 1, .setAccess 0x10000 4096 [⟨1, 0, 3⟩], .exportHandle 1 posixFileDescriptor]

theorem oneAddress_exportHistory : AllSteps OneAddress call empty exportHistory := by
  refine ⟨trivial, ?_, trivial, trivial, trivial⟩
  intro _ t ht
  exact absurd ht List.not_mem_nil

theorem kind_exportHistory (h : Nat) : (run call empty exportHistory).kind h = if h = 1 then .created else .plain :=
  Function.update_apply _ 1 AllocKind.created h

theorem covered_exportHistory : (run call empty exportHistory).Covered fun _ => false := by
  refine ⟨fun h hh => ?_, fun _ => ?_, ⟨rfl, rfl, rfl⟩, fun _ => rfl⟩
  · rw [kind_exportHistory] at hh
    by_cases h1 : h = 1
    · exact ⟨_, List.mem_cons_self .., by rw [h1]⟩
    · rw [if_neg h1] at hh
      exact absurd rfl hh
  · show 0 < 4096
    decide

theorem teardownSucceeds_exportHistory :
    ((run call empty exportHistory).worker fun _ => false).TeardownSucceeds := by
  refine ⟨⟨trivial⟩, fun buf hbuf => ?_, fun buf hbuf => ?_⟩
  · obtain rfl := Option.some.inj hbuf
    exact ⟨rfl, ⟨rfl, trivial⟩⟩
  · exact absurd (show (none : Option HostBuf) = some buf from hbuf) (by simp)

theorem noIpcState_exportHistory : ((run call empty exportHistory).ipcTeardown fun _ => false).NoIpcState :=
  noIpcState_of_history empty fresh_empty exportHistory oneAddress_exportHistory _ covered_exportHistory
    teardownSucceeds_exportHistory

/-- An allocation that was never mapped is in no pass. -/
theorem not_noIpcState : ¬ ∀ s : HookedProcess, s.Fresh → ∀ (history : List HookCall) (mmapFails : Nat → Bool),
    ((run call s history).worker mmapFails).TeardownSucceeds →
      ((run call s history).ipcTeardown mmapFails).NoIpcState := by
  intro h
  have hcalls : ((run call empty [.create 4096 1 ⟨0⟩]).worker fun _ => false).TeardownSucceeds := by
    refine ⟨⟨trivial⟩, fun buf hbuf => ?_, fun buf hbuf => ?_⟩
    · exact absurd (show (none : Option HostBuf) = some buf from hbuf) (by simp)
    · exact absurd (show (none : Option HostBuf) = some buf from hbuf) (by simp)
  have hkind := (h empty fresh_empty [.create 4096 1 ⟨0⟩] (fun _ => false) hcalls).handles 1
  have hcreated : ((run call empty [.create 4096 1 ⟨0⟩]).ipcTeardown fun _ => false).kind 1 = .created := rfl
  exact absurd (hcreated.symm.trans hkind) (by simp)

end HookedProcess

end GpuCr
