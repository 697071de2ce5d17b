import GpuCr.Ipc.Complete

/-!
# What the teardown refers to

The teardown trusts the tables: it copies, unmaps and releases what they show. The hooks keep import
records true when something is unmapped, export records and the table of addresses they do not. For
histories in which no exported range is unmapped and no exported handle released, and no created
allocation is held unmapped at the end, every call of the three passes has a live target.
-/

namespace GpuCr

open Lib.Run Std

namespace IpcWorkerState

/-- Every copy, every unmapping and every release of the three passes has a live target. -/
structure TargetsLive (w : IpcWorkerState) : Prop where
  imports : w.ipc.drv.TearsLive w.ipc.importTargets
  exports : ∀ buf, w.atExports.exportBuf = some buf →
    (∀ x ∈ (w.atExports.ipc.exportCopies buf).2.2.touched, w.atExports.ipc.drv.mappedAt x.vaddr x.size = true) ∧
      ((w.atExports.ipc.exportCopies buf).1 = true →
        (w.atExports.ipc.afterExportCopies buf).TearsLive w.atExports.ipc.exportTargets)
  locals : ∀ buf, w.atLocals.localBuf = some buf →
    (∀ x ∈ (w.atLocals.ipc.localCopies buf).2.2.touched, w.atLocals.ipc.drv.mappedAt x.vaddr x.size = true) ∧
      ((w.atLocals.ipc.localCopies buf).1 = true →
        (w.atLocals.ipc.afterLocalCopies buf).TearsLive w.atLocals.ipc.localTargets)

end IpcWorkerState

namespace HookedProcess

/-! ### The condition -/

/-- An allocation that is shared or can be is mapped at one place at a time, a created one as a whole; an
allocation is exported once, and not while it is unmapped after it was mapped; the range of an export is
not unmapped and its handle not released. -/
def KeepsRecords (s : HookedProcess) : HookCall → Prop
  | .map _ size handle => s.kind handle ≠ .plain →
    (∀ t ∈ s.mapped, t.handle ≠ some handle) ∧ ∀ rec, s.ipc.createdAllocs[handle]? = some rec → size = rec.size
  | .exportHandle handle _ => (∀ rec ∈ s.ipc.exports, rec.localHandle ≠ handle) ∧
    (handle ∈ s.ipc.handleToVa → ∃ t ∈ s.mapped, t.handle = some handle)
  | .unmap ptr size => s.ipc.drv.mappedAt ptr size = true → ptr ∉ s.ipc.exportedVas
  | .release handle => ∀ rec ∈ s.ipc.exports, rec.hasMapping = true → rec.localHandle ≠ handle
  | _ => True

/-- A created allocation that has been mapped, and is not released, is mapped. -/
def NoneUnmapped (s : HookedProcess) : Prop := ∀ h, h ∈ s.ipc.handleToVa → ∃ t ∈ s.mapped, t.handle = some h

/-! ### Histories -/

/-- The tables tell the truth about created allocations and exports. -/
structure Truthful (s : HookedProcess) : Prop where
  sound : s.Sound
  address : ∀ t ∈ s.mapped, ∀ h, t.handle = some h → ∀ rec, s.ipc.createdAllocs[h]? = some rec →
    s.ipc.handleToVa[h]? = some t.va ∧ t.size = rec.size
  single : ∀ t ∈ s.mapped, ∀ t' ∈ s.mapped, ∀ h, t.handle = some h → t'.handle = some h → s.kind h ≠ .plain → t = t'
  exports : ∀ rec ∈ s.ipc.exports, rec.hasMapping = true → ∃ t ∈ s.mapped, t.va = rec.mappedVaddr ∧
    t.size = rec.mappedSize ∧ t.handle = some rec.localHandle ∧ t.kind = .created
  exportHandles : (s.ipc.exports.map (·.localHandle)).Pairwise fun h h' => h = 0 ∨ h ≠ h'

section Truthful
variable {s : HookedProcess}

theorem Fresh.truthful (h : s.Fresh) : s.Truthful where
  sound := h.sound
  address t ht := by simp [h.mapped] at ht
  single t ht := by simp [h.mapped] at ht
  exports rec hrec := by simp [h.exports] at hrec
  exportHandles := by simp [h.exports]

theorem Truthful.setDrv (h : s.Truthful) {d : Driver} (hsound : (s.setDrv d).Sound) : (s.setDrv d).Truthful :=
  ⟨hsound, h.address, h.single, h.exports, h.exportHandles⟩

/-- A new handle is that of no mapping, so nothing is said about it. -/
theorem Truthful.recordCreate (h : s.Truthful) {d : Driver} {k : Nat} (hd : s.ipc.drv.NewHandle d k) {size : Nat}
    (hpos : 0 < size) (prop : CUmemAllocationProp) : (s.recordCreate d k size prop).Truthful := by
  have hne := (h.sound.ne_of_dead hd.dead).2
  refine ⟨h.sound.recordCreate hd hpos prop, fun t ht j hj rec hrec => ?_, fun t ht t' ht' j hj hj' hkind => ?_,
    h.exports, h.exportHandles⟩
  · have hrec : (s.ipc.createdAllocs.insert k ⟨size, prop⟩)[j]? = some rec := hrec
    rw [getElem?_insert_key, if_neg] at hrec
    · exact h.address t ht j hj rec hrec
    · exact fun heq => hne t ht (heq ▸ hj)
  · have hjk : j ≠ k := fun heq => hne t ht (heq ▸ hj)
    have hkind : Function.update s.kind k .created j ≠ .plain := hkind
    rw [Function.update_of_ne hjk] at hkind
    exact h.single t ht t' ht' j hj hj' hkind

theorem Truthful.recordImport (h : s.Truthful) {d : Driver} {k : Nat} (hd : s.ipc.drv.NewHandle d k) :
    (s.recordImport d k).Truthful := by
  have hne := (h.sound.ne_of_dead hd.dead).2
  refine ⟨h.sound.recordImport hd, h.address, fun t ht t' ht' j hj hj' hkind => ?_, h.exports, h.exportHandles⟩
  have hjk : j ≠ k := fun heq => hne t ht (heq ▸ hj)
  have hkind : Function.update s.kind k .imported j ≠ .plain := hkind
  rw [Function.update_of_ne hjk] at hkind
  exact h.single t ht t' ht' j hj hj' hkind

theorem Truthful.recordExport (h : s.Truthful) {d : Driver} {k type : Nat} {fd : Option Int}
    (hd : s.ipc.drv.SameView d) (hfd : ∀ x ∈ fd, 0 ≤ x) (hok : s.KeepsRecords (.exportHandle k type)) :
    (s.recordExport d k type fd).Truthful := by
  refine ⟨h.sound.recordExport hd hfd, h.address, h.single, fun rec hrec hmap => ?_, ?_⟩
  · rcases List.mem_append.1 hrec with hrec | hrec
    · exact h.exports rec hrec hmap
    obtain rfl := List.mem_singleton.1 hrec
    have hmem : k ∈ s.ipc.handleToVa := ExtTreeMap.mem_iff_isSome_getElem?.2 hmap
    have hcreated := h.sound.addressed k hmem
    obtain ⟨rec, hrec⟩ := Option.isSome_iff_exists.1 (ExtTreeMap.mem_iff_isSome_getElem?.1 hcreated)
    obtain ⟨t, ht, hhandle⟩ := hok.2 hmem
    obtain ⟨hva, hsize⟩ := h.address t ht k hhandle rec hrec
    refine ⟨t, ht, ?_, ?_, hhandle, (h.sound.heldLive t ht k hhandle).2.trans ((h.sound.created k).1 hcreated)⟩
    · show t.va = s.ipc.handleToVa[k]?.getD 0
      rw [hva]
      rfl
    · show t.size = if s.ipc.handleToVa[k]?.isSome then (s.ipc.createdAllocs[k]?.map (·.size)).getD 0 else 0
      rw [hva, hrec, hsize]
      rfl
  · show ((s.ipc.exports ++ [s.exportRecord k type (fd.getD (-1))]).map IpcExportRecord.localHandle).Pairwise _
    rw [List.map_append, List.pairwise_append]
    refine ⟨h.exportHandles, List.pairwise_singleton .., fun a ha b hb => Or.inr ?_⟩
    obtain ⟨rec, hrec, rfl⟩ := List.mem_map.1 ha
    obtain rfl := List.mem_singleton.1 hb
    exact hok.1 rec hrec

theorem recordMap_exports (s : HookedProcess) (d : Driver) (ptr size handle : Nat) :
    (s.recordMap d ptr size handle).ipc.exports = s.ipc.exports.map fun exp =>
      if handle ∈ s.ipc.createdAllocs then giveMapping ptr size handle exp else exp := by
  have hsame : ((s.recordMapping d ptr size handle).mapImported ptr size handle).ipc.createdAllocs =
      s.ipc.createdAllocs ∧ ((s.recordMapping d ptr size handle).mapImported ptr size handle).ipc.exports =
      s.ipc.exports := by
    unfold mapImported
    split_ifs <;> exact ⟨rfl, rfl⟩
  unfold recordMap mapCreated
  rw [hsame.1]
  split_ifs
  · show List.map _ _ = _
    rw [hsame.2]
  · rw [hsame.2, List.map_id']

theorem recordMap_created (s : HookedProcess) (d : Driver) (ptr size handle : Nat) :
    (s.recordMap d ptr size handle).ipc.createdAllocs = s.ipc.createdAllocs ∧
      (s.recordMap d ptr size handle).kind = s.kind := by
  unfold recordMap mapCreated mapImported
  split_ifs <;> exact ⟨rfl, rfl⟩

theorem Truthful.recordMap (h : s.Truthful) {d : Driver} {ptr size handle : Nat}
    (hd : s.ipc.drv.NewRange d ptr size handle) (hok : s.KeepsRecords (.map ptr size handle)) :
    (s.recordMap d ptr size handle).Truthful := by
  obtain ⟨hcreated, hkinds⟩ := recordMap_created s d ptr size handle
  have hsound := h.sound.recordMap hd
  have hkind : handle ∈ s.ipc.createdAllocs → s.kind handle = .created := (h.sound.created handle).1
  refine ⟨hsound, fun t ht j hj rec hrec => ?_, fun t ht t' ht' j hj hj' hplain => ?_, fun rec hrec hmap => ?_, ?_⟩
  · rw [recordMap_mapped] at ht
    rw [hcreated] at hrec
    have hmem : j ∈ s.ipc.createdAllocs := ExtTreeMap.mem_iff_isSome_getElem?.2 (by rw [hrec]; rfl)
    rw [recordMap_handleToVa]
    rcases List.mem_cons.1 ht with rfl | ht
    · obtain rfl := Option.some.inj hj
      rw [if_pos ⟨hmem, rfl⟩]
      exact ⟨rfl, (hok (by rw [hkind hmem]; simp)).2 rec hrec⟩
    · rw [if_neg]
      · exact h.address t ht j hj rec hrec
      · exact fun heq => (hok (by rw [hkind heq.1]; simp)).1 t ht (heq.2 ▸ hj)
  · rw [hkinds] at hplain
    rw [recordMap_mapped] at ht ht'
    rcases List.mem_cons.1 ht with rfl | ht
    · obtain rfl := Option.some.inj hj
      rcases List.mem_cons.1 ht' with rfl | ht'
      · rfl
      · exact absurd hj' ((hok hplain).1 t' ht')
    · rcases List.mem_cons.1 ht' with rfl | ht'
      · obtain rfl := Option.some.inj hj'
        exact absurd hj ((hok hplain).1 t ht)
      · exact h.single t ht t' ht' j hj hj' hplain
  · rw [recordMap_exports] at hrec
    rw [recordMap_mapped]
    obtain ⟨exp, hexp, rfl⟩ := List.mem_map.1 hrec
    split_ifs at hmap ⊢ with hmem
    · unfold giveMapping at hmap ⊢
      split_ifs at hmap ⊢ with hw
      · simp only [waits, Bool.and_eq_true, beq_iff_eq] at hw
        exact ⟨_, List.mem_cons_self .., rfl, rfl, by rw [hw.1], hkind hmem⟩
      · obtain ⟨t, ht, hof⟩ := h.exports exp hexp hmap
        exact ⟨t, List.mem_cons_of_mem _ ht, hof⟩
    · obtain ⟨t, ht, hof⟩ := h.exports exp hexp hmap
      exact ⟨t, List.mem_cons_of_mem _ ht, hof⟩
  · have hhandles : (s.recordMap d ptr size handle).ipc.exports.map (·.localHandle) =
        s.ipc.exports.map (·.localHandle) := by
      rw [recordMap_exports, List.map_map]
      congr 1
      funext exp
      rw [Function.comp_apply]
      unfold giveMapping
      split_ifs <;> rfl
    rw [hhandles]
    exact h.exportHandles

theorem Truthful.recordUnmap (h : s.Truthful) {d : Driver} {ptr size : Nat} (hd : s.ipc.drv.DropRange d ptr size)
    (hok : s.KeepsRecords (.unmap ptr size)) : (s.recordUnmap d ptr).Truthful := by
  have hmem : ∀ t ∈ (s.recordUnmap d ptr).mapped, t ∈ s.mapped := fun t ht => (List.mem_filter.1 ht).1
  refine ⟨h.sound.recordUnmap hd, fun t ht => h.address t (hmem t ht),
    fun t ht t' ht' => h.single t (hmem t ht) t' (hmem t' ht'), fun rec hrec hmap => ?_, h.exportHandles⟩
  obtain ⟨t, ht, hva, hof⟩ := h.exports rec hrec hmap
  refine ⟨t, List.mem_filter.2 ⟨ht, bne_iff_ne.2 fun heq => hok hd.range ?_⟩, hva, hof⟩
  exact List.mem_map.2 ⟨rec, List.mem_filter.2 ⟨hrec, hmap⟩, by rw [← hva, heq]⟩

theorem Truthful.recordRelease (h : s.Truthful) {d : Driver} {k : Nat} (hd : s.ipc.drv.DropHandle d k)
    (hok : s.KeepsRecords (.release k)) : (s.recordRelease d k k).Truthful := by
  obtain ⟨hmapped, hva⟩ := recordRelease_self s d k
  have hrest : (s.recordRelease d k k).ipc.createdAllocs = s.ipc.createdAllocs.erase k ∧
      (s.recordRelease d k k).ipc.exports = s.ipc.exports.map (IpcExportRecord.dropHandle k) ∧
      (s.recordRelease d k k).kind = Function.update s.kind k .plain := by
    simp only [HookedProcess.recordRelease, ne_eq, not_true_eq_false, if_false]
    exact ⟨rfl, rfl, rfl⟩
  obtain ⟨hcreated, hexports, hkinds⟩ := hrest
  refine ⟨h.sound.recordRelease hd, fun t ht j hj rec hrec => ?_, fun t ht t' ht' j hj hj' hplain => ?_,
    fun rec hrec hmap => ?_, ?_⟩
  · rw [hmapped] at ht
    obtain ⟨t, ht', rfl⟩ := List.mem_map.1 ht
    obtain ⟨hj, hjk⟩ := (dropHandle_handle k t j).1 hj
    rw [hcreated, getElem?_erase_key, if_neg hjk] at hrec
    rw [hva, getElem?_erase_key, if_neg hjk, dropHandle_va, dropHandle_size]
    exact h.address t ht' j hj rec hrec
  · rw [hmapped] at ht ht'
    obtain ⟨t, hmem, rfl⟩ := List.mem_map.1 ht
    obtain ⟨t', hmem', rfl⟩ := List.mem_map.1 ht'
    obtain ⟨hj, hjk⟩ := (dropHandle_handle k t j).1 hj
    obtain ⟨hj', -⟩ := (dropHandle_handle k t' j).1 hj'
    rw [hkinds, Function.update_of_ne hjk] at hplain
    rw [h.single t hmem t' hmem' j hj hj' hplain]
  · rw [hexports] at hrec
    obtain ⟨exp, hexp, rfl⟩ := List.mem_map.1 hrec
    have hmap : exp.hasMapping = true := (dropHandle_export k exp).2.1 ▸ hmap
    have hne := hok exp hexp hmap
    have heq : exp.dropHandle k = exp := if_neg hne
    obtain ⟨t, ht, hva, hsize, hhandle, hkind⟩ := h.exports exp hexp hmap
    rw [heq, hmapped]
    refine ⟨t.dropHandle k, List.mem_map_of_mem ht, ?_, ?_, (dropHandle_handle ..).2 ⟨hhandle, hne⟩, ?_⟩
    · rw [dropHandle_va, hva]
    · rw [dropHandle_size, hsize]
    · rw [dropHandle_kind, hkind]
  · rw [hexports, List.map_map, List.pairwise_map]
    refine (List.pairwise_map.1 h.exportHandles).imp fun {a b} hab => ?_
    simp only [Function.comp_apply, (dropHandle_export k _).2.2.2.2]
    -- a handle that is dropped is none, and none is different from all others
    split_ifs with ha hb
    · exact Or.inl rfl
    · exact Or.inl rfl
    · exact (eq_or_ne a.localHandle 0)
    · exact hab

theorem Truthful.recordAccess (h : s.Truthful) {d : Driver} (hd : s.ipc.drv.SameView d) (ptr : Nat)
    (desc : List CUmemAccessDesc) (first : CUmemAccessDesc) : (s.recordAccess d ptr desc first).Truthful := by
  refine ⟨h.sound.recordAccess hd ptr desc first, h.address, h.single, fun rec hrec hmap => ?_, ?_⟩
  · obtain ⟨rec', hrec', rfl | rfl⟩ := mem_recordAccess_exports hrec
    · exact h.exports rec hrec' hmap
    · exact h.exports rec' hrec' hmap
  · have hhandles : (s.recordAccess d ptr desc first).ipc.exports.map (·.localHandle) =
        s.ipc.exports.map (·.localHandle) := by
      apply List.ext_getElem?
      intro i
      rw [List.getElem?_map, List.getElem?_map, getElem?_recordAccess_exports, Option.map_map]
      congr 1
      funext rec
      rw [Function.comp_apply]
      split_ifs <;> rfl
    rw [hhandles]
    exact h.exportHandles

theorem Truthful.call (h : s.Truthful) (c : HookCall) (hok : s.KeepsRecords c) : (s.call c).Truthful := by
  have hsound := h.sound.call c
  have heff := s.call_effect c
  generalize s.call c = s' at heff hsound
  cases heff with
  | rejected hd => exact h.setDrv hsound
  | plain hd => exact h.setDrv hsound
  | created hd hpos => exact h.recordCreate hd hpos _
  | exported hd _ hfd => exact h.recordExport hd hfd hok
  | imported hd => exact h.recordImport hd
  | mapped hd => exact h.recordMap hd hok
  | unmapped hd => exact h.recordUnmap hd hok
  | released hd =>
    rw [h.sound.alias_eq] at hd ⊢
    exact h.recordRelease hd hok
  | access hd => exact h.recordAccess hd ..

end Truthful

/-! ### The targets of a truthful state -/

/-- The target is a mapping of the application's. -/
def Backed (s : HookedProcess) (u : TearTarget) (t : HeldMapping) : Prop :=
  t ∈ s.mapped ∧ t.va = u.va ∧ t.size = u.size ∧ t.kind ≠ .plain ∧ ∀ h, u.handle = some h → t.handle = some h

section Targets
variable {s : HookedProcess}

theorem Truthful.liveTarget (h : s.Truthful) {u : TearTarget} {t : HeldMapping} (hb : s.Backed u t) :
    s.ipc.drv.LiveTarget u := by
  obtain ⟨ht, hva, hsize, -, hhandle⟩ := hb
  refine ⟨hva ▸ hsize ▸ h.sound.heldMapped t ht, fun k hk => ?_⟩
  exact (h.sound.heldLive t ht k (hhandle k hk)).1

theorem Truthful.nodup_handles (h : s.Truthful) {us : List TearTarget} (hb : ∀ u ∈ us, ∃ t, s.Backed u t)
    (hvas : (us.map (·.va)).Nodup) : (us.filterMap (·.handle)).Nodup := by
  induction us with
  | nil => exact List.nodup_nil
  | cons u us ih =>
    rw [List.map_cons, List.nodup_cons] at hvas
    have ih := ih (fun v hv => hb v (List.mem_cons_of_mem _ hv)) hvas.2
    rw [List.filterMap_cons]
    cases huk : u.handle with
    | none => exact ih
    | some k =>
      refine List.nodup_cons.2 ⟨fun hmem => ?_, ih⟩
      obtain ⟨v, hv, hvk⟩ := List.mem_filterMap.1 hmem
      obtain ⟨t, ht, hva, -, hkind, hhandle⟩ := hb u (List.mem_cons_self ..)
      obtain ⟨t', ht', hva', -, -, hhandle'⟩ := hb v (List.mem_cons_of_mem _ hv)
      have htk := hhandle k huk
      obtain rfl := h.single t ht t' ht' k htk (hhandle' k hvk) ((h.sound.heldLive t ht k htk).2 ▸ hkind)
      exact hvas.1 (List.mem_map.2 ⟨v, hv, hva'.symm.trans hva⟩)

theorem Sound.backed_import (h : s.Sound) {u : TearTarget} (hu : u ∈ s.ipc.importTargets) :
    ∃ t, s.Backed u t ∧ t.kind = .imported := by
  obtain ⟨rec, hrec, rfl⟩ := List.mem_map.1 hu
  obtain ⟨hrec, htorn⟩ := List.mem_filter.1 hrec
  obtain ⟨i, hi⟩ := List.mem_iff_getElem?.1 hrec
  obtain ⟨-, t, ht, hva, hsize, hkind, hhandle⟩ := h.imports i rec hi (by simpa using htorn)
  refine ⟨t, ⟨ht, hva, hsize, by rw [hkind]; simp, fun k hk => ?_⟩, hkind⟩
  rw [hhandle]
  exact hk

theorem Truthful.backed_export (h : s.Truthful) {u : TearTarget} (hu : u ∈ s.ipc.exportTargets) :
    ∃ t, s.Backed u t ∧ t.kind = .created ∧ u.va ∈ s.ipc.exportedVas := by
  obtain ⟨rec, hrec, htarget⟩ := List.mem_filterMap.1 hu
  unfold IpcExportRecord.target at htarget
  split_ifs at htarget with hskip
  obtain rfl := Option.some.inj htarget
  have hmap : rec.hasMapping = true := by
    rw [Bool.or_eq_true, not_or] at hskip
    simpa using hskip.2
  obtain ⟨t, ht, hva, hsize, hhandle, hkind⟩ := h.exports rec hrec hmap
  refine ⟨t, ⟨ht, hva, hsize, by rw [hkind]; simp, fun k hk => hhandle.trans hk⟩, hkind, ?_⟩
  exact List.mem_map_of_mem (List.mem_filter.2 ⟨hrec, hmap⟩)

theorem Truthful.held_local (h : s.Truthful) (hnone : s.NoneUnmapped) {e : LocalAllocEntry}
    (he : e ∈ s.ipc.localEntries) :
    ∃ t ∈ s.mapped, t.va = e.vaddr ∧ t.size = e.size ∧ t.handle = some e.handle ∧ t.kind = .created := by
  obtain ⟨hcreated, hva, -⟩ := mem_localEntries.1 he
  obtain ⟨t, ht, hhandle⟩ := hnone e.handle (ExtTreeMap.mem_iff_isSome_getElem?.2 (by rw [hva]; rfl))
  obtain ⟨hva', hsize⟩ := h.address t ht e.handle hhandle _ hcreated
  have hmem : e.handle ∈ s.ipc.createdAllocs := ExtTreeMap.mem_iff_isSome_getElem?.2 (by rw [hcreated]; rfl)
  refine ⟨t, ht, Option.some.inj (hva'.symm.trans hva), hsize, hhandle, ?_⟩
  exact (h.sound.heldLive t ht e.handle hhandle).2.trans ((h.sound.created e.handle).1 hmem)

theorem Truthful.backed_local (h : s.Truthful) (hnone : s.NoneUnmapped) {u : TearTarget}
    (hu : u ∈ s.ipc.localTargets) : ∃ t, s.Backed u t ∧ t.kind = .created ∧ u.va ∉ s.ipc.exportedVas := by
  obtain ⟨e, he, rfl⟩ := List.mem_map.1 hu
  have he := s.ipc.perm_deviceOrder.mem_iff.1 he
  obtain ⟨t, ht, hva, hsize, hhandle, hkind⟩ := h.held_local hnone he
  refine ⟨t, ⟨ht, hva, hsize, by rw [hkind]; simp, fun k hk => hhandle.trans hk⟩, hkind, ?_⟩
  exact (mem_localEntries.1 he).2.2

theorem Sound.nodup_importVas (h : s.Sound) : (s.ipc.importTargets.map (·.va)).Nodup := by
  rw [IpcState.importTargets, List.map_map, List.Nodup, List.pairwise_map, List.pairwise_filter,
    List.pairwise_iff_getElem]
  intro i j hi hj hij htorn htorn' heq
  obtain ⟨hidx, -⟩ := h.imports i _ (List.getElem?_eq_getElem hi) (by simpa using htorn)
  obtain ⟨hidx', -⟩ := h.imports j _ (List.getElem?_eq_getElem hj) (by simpa using htorn')
  have heq : s.ipc.imports[i].mappedVaddr = s.ipc.imports[j].mappedVaddr := heq
  rw [heq] at hidx
  exact hij.ne (Option.some.inj (hidx.symm.trans hidx'))

theorem Truthful.nodup_exportVas (h : s.Truthful) : (s.ipc.exportTargets.map (·.va)).Nodup := by
  rw [List.Nodup, List.pairwise_map, IpcState.exportTargets, List.pairwise_filterMap]
  refine (List.pairwise_map.1 h.exportHandles).imp_of_mem fun {a b} ha hb hab u hu v hv heq => ?_
  have hcase : ∀ {rec : IpcExportRecord} {w : TearTarget}, rec ∈ s.ipc.exports → w ∈ rec.target →
      ∃ t ∈ s.mapped, t.va = w.va ∧ t.handle = some rec.localHandle := by
    intro rec w hrec hw
    unfold IpcExportRecord.target at hw
    split_ifs at hw with hskip
    · exact absurd hw (by simp)
    obtain rfl := Option.some.inj hw
    rw [Bool.or_eq_true, not_or] at hskip
    obtain ⟨t, ht, hva, -, hhandle, -⟩ := h.exports rec hrec (by simpa using hskip.2)
    exact ⟨t, ht, hva, hhandle⟩
  obtain ⟨t, ht, hva, hhandle⟩ := hcase ha hu
  obtain ⟨t', ht', hva', hhandle'⟩ := hcase hb hv
  obtain rfl := h.sound.eq_of_va ht ht' (by rw [hva, hva', heq])
  rcases hab with hzero | hne
  · have hlive := (h.sound.heldLive t ht _ hhandle).1
    rw [hzero, h.sound.nullDead] at hlive
    exact Bool.false_ne_true hlive
  · exact hne (Option.some.inj (hhandle.symm.trans hhandle'))

theorem Truthful.nodup_localVas (h : s.Truthful) (hnone : s.NoneUnmapped) :
    (s.ipc.localTargets.map (·.va)).Nodup := by
  rw [IpcState.localTargets, List.map_map]
  refine ((s.ipc.perm_deviceOrder.map _).nodup_iff).2 ?_
  rw [List.Nodup, List.pairwise_map]
  refine s.ipc.pairwise_handle.imp_of_mem fun {e e'} he he' hlt heq => ?_
  obtain ⟨t, ht, hva, -, hhandle, -⟩ := h.held_local hnone he
  obtain ⟨t', ht', hva', -, hhandle', -⟩ := h.held_local hnone he'
  have heq : e.vaddr = e'.vaddr := heq
  obtain rfl := h.sound.eq_of_va ht ht' (by rw [hva, hva', heq])
  exact hlt.ne (Option.some.inj (hhandle.symm.trans hhandle'))

theorem Truthful.targets (h : s.Truthful) (hnone : s.NoneUnmapped) :
    (∀ u ∈ s.ipc.importTargets ++ s.ipc.exportTargets ++ s.ipc.localTargets, ∃ t, s.Backed u t) ∧
      ((s.ipc.importTargets ++ s.ipc.exportTargets ++ s.ipc.localTargets).map (·.va)).Nodup := by
  have hkinds : ∀ {u v : TearTarget} {t t' : HeldMapping}, s.Backed u t → s.Backed v t' → t.kind = .imported →
      t'.kind = .created → u.va ≠ v.va := by
    intro u v t t' ht ht' hkind hkind' heq
    obtain rfl := h.sound.eq_of_va ht.1 ht'.1 (by rw [ht.2.1, ht'.2.1, heq])
    exact absurd (hkind.symm.trans hkind') (by simp)
  refine ⟨fun u hu => ?_, ?_⟩
  · rcases List.mem_append.1 hu with hu | hu
    · rcases List.mem_append.1 hu with hu | hu
      · obtain ⟨t, ht, -⟩ := h.sound.backed_import hu
        exact ⟨t, ht⟩
      · obtain ⟨t, ht, -⟩ := h.backed_export hu
        exact ⟨t, ht⟩
    · obtain ⟨t, ht, -⟩ := h.backed_local hnone hu
      exact ⟨t, ht⟩
  · rw [List.map_append, List.map_append]
    refine (h.sound.nodup_importVas.append h.nodup_exportVas fun a ha hb => ?_).append (h.nodup_localVas hnone)
      fun a ha hb => ?_
    · obtain ⟨u, hu, rfl⟩ := List.mem_map.1 ha
      obtain ⟨v, hv, heq⟩ := List.mem_map.1 hb
      obtain ⟨t, ht, hkind⟩ := h.sound.backed_import hu
      obtain ⟨t', ht', hkind', -⟩ := h.backed_export hv
      exact hkinds ht ht' hkind hkind' heq.symm
    · obtain ⟨v, hv, rfl⟩ := List.mem_map.1 hb
      obtain ⟨t', ht', hkind', hout⟩ := h.backed_local hnone hv
      rcases List.mem_append.1 ha with ha | ha
      · obtain ⟨u, hu, heq⟩ := List.mem_map.1 ha
        obtain ⟨t, ht, hkind⟩ := h.sound.backed_import hu
        exact hkinds ht ht' hkind hkind' heq
      · obtain ⟨u, hu, heq⟩ := List.mem_map.1 ha
        obtain ⟨t, ht, -, hin⟩ := h.backed_export hu
        exact hout (heq ▸ hin)

theorem Truthful.targetsLive (h : s.Truthful) (hnone : s.NoneUnmapped) (hfns : s.ipc.fns.Resolved)
    (mmapFails : Nat → Bool) : (s.worker mmapFails).TargetsLive := by
  obtain ⟨hbacked, hvas⟩ := h.targets hnone
  have hhandles := h.nodup_handles hbacked hvas
  have hlive : ∀ u ∈ s.ipc.importTargets ++ s.ipc.exportTargets ++ s.ipc.localTargets, s.ipc.drv.LiveTarget u := by
    intro u hu
    obtain ⟨t, ht⟩ := hbacked u hu
    exact h.liveTarget ht
  rw [List.append_assoc] at hvas hhandles hlive
  obtain ⟨imports, hipc⟩ := IpcWorkerState.atExports_ipc (w := s.worker mmapFails) hfns
  -- the other passes find their targets as the import pass found them
  have hrest : ∀ u ∈ s.ipc.exportTargets ++ s.ipc.localTargets,
      (s.worker mmapFails).atExports.ipc.drv.LiveTarget u := by
    intro u hu
    rw [hipc]
    exact (hlive u (List.mem_append_right _ hu)).run_tearStep hvas hhandles hu
  have hvas' : ((s.ipc.exportTargets ++ s.ipc.localTargets).map (·.va)).Nodup := by
    rw [List.map_append] at hvas
    exact hvas.of_append_right
  have hhandles' : ((s.ipc.exportTargets ++ s.ipc.localTargets).filterMap (·.handle)).Nodup := by
    rw [List.filterMap_append] at hhandles
    exact hhandles.of_append_right
  have htargets : (s.worker mmapFails).atExports.ipc.exportTargets = s.ipc.exportTargets := by
    rw [hipc]
    rfl
  refine ⟨?_, fun buf hbuf => ⟨fun x hx => ?_, fun _ => ?_⟩, fun buf hbuf => ?_⟩
  · refine Driver.tearsLive ?_ ?_ fun u hu => hlive u (List.mem_append_left _ hu)
    · rw [List.map_append] at hvas
      exact hvas.of_append_left
    · rw [List.filterMap_append] at hhandles
      exact hhandles.of_append_left
  · have hx := (IpcState.exportCopies_spec _ buf).2 x hx
    obtain ⟨⟨rec, hrec, hactive, hva, hsize⟩, -⟩ := IpcState.mem_deviceExports hx
    rw [show (s.worker mmapFails).atExports.ipc.exports = s.ipc.exports by rw [hipc]; rfl] at hrec
    simp only [IpcExportRecord.active, Bool.and_eq_true] at hactive
    rw [hva, hsize]
    exact (hrest _ (List.mem_append_left _ (h.sound.mem_exportTargets (List.mem_of_getElem? hrec) hactive.1.2))).1
  · have hsame := (IpcState.exportCopies_spec (s.worker mmapFails).atExports.ipc buf).1
    rw [htargets]
    refine Driver.tearsLive ?_ ?_ fun u hu =>
      (hrest u (List.mem_append_left _ hu)).sameView (Driver.sameView_of_eq hsame.maps hsame.live)
    · rw [List.map_append] at hvas'
      exact hvas'.of_append_left
    · rw [List.filterMap_append] at hhandles'
      exact hhandles'.of_append_left
  · obtain ⟨hentries, -, htargets'⟩ := atLocals_entries hfns mmapFails
    have hlocals : ∀ u ∈ s.ipc.localTargets, (s.worker mmapFails).atLocals.ipc.drv.LiveTarget u := by
      intro u hu
      have hu' := hrest u (List.mem_append_right _ hu)
      rcases IpcWorkerState.atLocals_ipc (w := s.worker mmapFails) hfns rfl with ⟨-, heq⟩ | ⟨buf', -, hpass⟩
      · rw [heq]
        exact hu'
      · have hsame := (IpcState.exportCopies_spec (s.worker mmapFails).atExports.ipc buf').1
        have hu' := hu'.sameView (Driver.sameView_of_eq hsame.maps hsame.live)
        rw [hpass.drv, htargets]
        split_ifs
        · exact hu'.run_tearStep hvas' hhandles' hu
        · exact hu'
    refine ⟨fun x hx => ?_, fun _ => ?_⟩
    · obtain ⟨e, he, hva, hsize⟩ := (IpcState.localCopies_spec _ buf).2 x hx
      rw [hentries] at he
      rw [hva, hsize]
      exact (hlocals e.target (List.mem_map_of_mem (s.ipc.perm_deviceOrder.mem_iff.2 he))).1
    · have hsame := (IpcState.localCopies_spec (s.worker mmapFails).atLocals.ipc buf).1
      rw [htargets']
      refine Driver.tearsLive (h.nodup_localVas hnone) ?_ fun u hu =>
        (hlocals u hu).sameView (Driver.sameView_of_eq hsame.maps hsame.live)
      rw [List.filterMap_append] at hhandles'
      exact hhandles'.of_append_right

end Targets

/-- **The teardown only touches what is live**, after every history that keeps the records true. -/
theorem targetsLive_of_history (s : HookedProcess) (hs : s.Fresh) (history : List HookCall)
    (hok : AllSteps KeepsRecords call s history) (hnone : (run call s history).NoneUnmapped)
    (hfns : (run call s history).ipc.fns.Resolved) (mmapFails : Nat → Bool) :
    ((run call s history).worker mmapFails).TargetsLive :=
  (invariant_of_allSteps (fun _ c h hc => h.call c hc) hs.truthful hok history List.prefix_rfl).targetsLive
    hnone hfns mmapFails

theorem keepsRecords_exportHistory : AllSteps KeepsRecords call empty exportHistory := by
  refine ⟨trivial, ?_, trivial, ?_, trivial⟩
  · refine fun _ => ⟨fun t ht => absurd ht List.not_mem_nil, fun rec hrec => ?_⟩
    obtain rfl := Option.some.inj (show some (⟨4096, ⟨0⟩⟩ : CuMemCreateRecord) = some rec from hrec)
    rfl
  · exact ⟨fun rec hrec => absurd hrec List.not_mem_nil, fun _ => ⟨_, List.mem_cons_self .., rfl⟩⟩

theorem noneUnmapped_exportHistory : (run call empty exportHistory).NoneUnmapped := by
  intro h hh
  have hh : h ∈ (∅ : ExtTreeMap Nat Nat).insert 1 0x10000 := hh
  rw [ExtTreeMap.mem_insert] at hh
  obtain rfl : 1 = h := by simpa using hh
  exact ⟨_, List.mem_cons_self .., rfl⟩

theorem targetsLive_exportHistory : ((run call empty exportHistory).worker fun _ => false).TargetsLive :=
  targetsLive_of_history empty fresh_empty exportHistory keepsRecords_exportHistory noneUnmapped_exportHistory
    ⟨rfl, rfl, rfl⟩ _

/-- The record of an export does not learn that the range has been unmapped. -/
theorem not_targetsLive : ¬ ∀ s : HookedProcess, s.Fresh → ∀ history : List HookCall,
    (run call s history).ipc.fns.Resolved → ∀ mmapFails, ((run call s history).worker mmapFails).TargetsLive := by
  intro h
  have hlive := h empty fresh_empty (exportHistory ++ [.unmap 0x10000 4096]) ⟨rfl, rfl, rfl⟩ fun _ => false
  have hmapped := (hlive.exports _ rfl).1 ⟨0, 0x10000, 4096, 0⟩ (List.mem_cons_self ..)
  exact absurd (show false = true from hmapped) Bool.false_ne_true

end HookedProcess

end GpuCr
