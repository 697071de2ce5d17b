import GpuCr.Ipc.Handler
import GpuCr.Ipc.Hooks

/-!
# What the teardown unmaps and releases

The three passes of `IPC_TEARDOWN_MSG` as lists of targets: a range to unmap and a handle to release. The
driver after a pass is the driver before it with the targets torn down one after the other, so what the
handler leaves behind, and whether its calls are valid, are questions about three lists.
-/

namespace GpuCr

open Lib.Run Lib.Grouping Lib.Layout Std

/-- A range to unmap, and a handle to release if there is one. -/
structure TearTarget where
  va : Nat
  size : Nat
  handle : Option Nat
  deriving DecidableEq, Repr

/-! ### One target after the other -/

namespace Driver

/-- Whether all calls succeed, and the driver after them. -/
def tear (d : Driver) (t : TearTarget) : Bool × Driver :=
  let u := d.cuMemUnmap t.va t.size
  match t.handle with
  | none => u
  | some h => (u.1 && (u.2.cuMemRelease h).1, (u.2.cuMemRelease h).2)

def tearStep (d : Driver) (t : TearTarget) : Driver := (d.tear t).2

/-- The range is mapped with that extent and the handle is unreleased. -/
def LiveTarget (d : Driver) (t : TearTarget) : Prop :=
  d.mappedAt t.va t.size = true ∧ ∀ h, t.handle = some h → d.isLive h = true

theorem tearStep_keeps (d : Driver) (t : TearTarget) :
    (∀ a n, a ≠ t.va → (d.tearStep t).mappedAt a n = d.mappedAt a n) ∧
      ∀ k, t.handle ≠ some k → (d.tearStep t).isLive k = d.isLive k := by
  have hunmap : (∀ a n, a ≠ t.va → (d.cuMemUnmap t.va t.size).2.mappedAt a n = d.mappedAt a n) ∧
      ∀ k, (d.cuMemUnmap t.va t.size).2.isLive k = d.isLive k := by
    rcases d.cuMemUnmap_view t.va t.size with ⟨-, hd⟩ | ⟨-, hd⟩
    · exact ⟨fun a n _ => hd.mapped a n, hd.live⟩
    · refine ⟨fun a n ha => ?_, hd.live⟩
      rw [hd.mapped]
      simp [ha]
  unfold tearStep tear
  cases ht : t.handle with
  | none => exact ⟨hunmap.1, fun k _ => hunmap.2 k⟩
  | some h =>
    rcases (d.cuMemUnmap t.va t.size).2.cuMemRelease_view h with ⟨-, hd⟩ | ⟨-, hd⟩
    · exact ⟨fun a n ha => (hd.mapped a n).trans (hunmap.1 a n ha), fun k _ => (hd.live k).trans (hunmap.2 k)⟩
    · refine ⟨fun a n ha => (hd.mapped a n).trans (hunmap.1 a n ha), fun k hk => ?_⟩
      have hne : k ≠ h := fun heq => hk (by rw [heq])
      refine (hd.live k).trans ?_
      rw [hunmap.2 k]
      simp [hne]

theorem tear_ok {d : Driver} {t : TearTarget} (hok : (d.tear t).1 = true) :
    d.LiveTarget t ∧ (∀ n, (d.tearStep t).mappedAt t.va n = false) ∧
      ∀ h, t.handle = some h → (d.tearStep t).isLive h = false := by
  have hunmapOk : (d.cuMemUnmap t.va t.size).1 = true := by
    unfold tear at hok
    cases ht : t.handle with
    | none => rwa [ht] at hok
    | some h =>
      rw [ht] at hok
      exact (Bool.and_eq_true _ _ ▸ hok).1
  obtain ⟨hfail, -⟩ | ⟨-, hd⟩ := d.cuMemUnmap_view t.va t.size
  · exact absurd (hfail.symm.trans hunmapOk) (by simp)
  have hgone : ∀ n, (d.cuMemUnmap t.va t.size).2.mappedAt t.va n = false := by
    intro n
    rw [hd.mapped]
    simp
  unfold tearStep LiveTarget
  unfold tear at hok ⊢
  cases ht : t.handle with
  | none => exact ⟨⟨hd.range, by simp⟩, hgone, by simp⟩
  | some h =>
    rw [ht] at hok
    have hreleaseOk := (Bool.and_eq_true _ _ ▸ hok).2
    obtain ⟨hfail, -⟩ | ⟨-, hr⟩ := (d.cuMemUnmap t.va t.size).2.cuMemRelease_view h
    · exact absurd (hfail.symm.trans hreleaseOk) (by simp)
    refine ⟨⟨hd.range, ?_⟩, fun n => (hr.mapped ..).trans (hgone n), ?_⟩
    · rintro k hk
      obtain rfl := Option.some.inj hk
      exact (hd.live h).symm.trans hr.handle
    · rintro k hk
      obtain rfl := Option.some.inj hk
      refine (hr.live h).trans ?_
      simp

/-- `d'` is `d` with the targets gone, all of which were live. -/
structure Torn (d d' : Driver) (ts : List TearTarget) : Prop where
  vas : (ts.map (·.va)).Nodup
  handles : (ts.filterMap (·.handle)).Nodup
  targets : ∀ t ∈ ts, d.LiveTarget t
  mapped : ∀ a n, d'.mappedAt a n = true ↔ d.mappedAt a n = true ∧ ∀ t ∈ ts, t.va ≠ a
  live : ∀ k, d'.isLive k = true ↔ d.isLive k = true ∧ ∀ t ∈ ts, t.handle ≠ some k

theorem torn_nil {d d' : Driver} (h : d.SameView d') : Torn d d' [] where
  vas := List.nodup_nil
  handles := List.nodup_nil
  targets := by simp
  mapped a n := by simp [h.mapped]
  live k := by simp [h.live]

theorem torn_singleton {d : Driver} {t : TearTarget} (hok : (d.tear t).1 = true) : Torn d (d.tearStep t) [t] := by
  obtain ⟨hlive, hmap, hhandle⟩ := tear_ok hok
  obtain ⟨hmaps, hhandles⟩ := d.tearStep_keeps t
  refine ⟨List.nodup_singleton _, ?_, by simpa using hlive, fun a n => ?_, fun k => ?_⟩
  · rw [List.filterMap_cons, List.filterMap_nil]
    cases t.handle <;> simp
  · by_cases ha : a = t.va
    · simp [ha, hmap]
    · simp [hmaps a n ha, Ne.symm ha]
  · by_cases hk : t.handle = some k
    · simp [hk, hhandle k hk]
    · simp [hhandles k hk, hk]

theorem Torn.append {d d' d'' : Driver} {ts us : List TearTarget} (h : Torn d d' ts) (h' : Torn d' d'' us) :
    Torn d d'' (ts ++ us) where
  vas := by
    rw [List.map_append]
    refine h.vas.append h'.vas fun a ha hb => ?_
    obtain ⟨t, ht, rfl⟩ := List.mem_map.1 ha
    obtain ⟨u, hu, heq⟩ := List.mem_map.1 hb
    exact ((h.mapped ..).1 (h'.targets u hu).1).2 t ht heq.symm
  handles := by
    rw [List.filterMap_append]
    refine h.handles.append h'.handles fun k hk hk' => ?_
    obtain ⟨t, ht, hth⟩ := List.mem_filterMap.1 hk
    obtain ⟨u, hu, huh⟩ := List.mem_filterMap.1 hk'
    exact ((h.live ..).1 ((h'.targets u hu).2 k huh)).2 t ht hth
  targets t ht := by
    rcases List.mem_append.1 ht with ht | ht
    · exact h.targets t ht
    · obtain ⟨hmap, hlive⟩ := h'.targets t ht
      exact ⟨((h.mapped ..).1 hmap).1, fun k hk => ((h.live k).1 (hlive k hk)).1⟩
  mapped a n := by
    rw [h'.mapped, h.mapped, List.forall_mem_append, and_assoc]
  live k := by
    rw [h'.live, h.live, List.forall_mem_append, and_assoc]

/-- All calls of a pass succeed. -/
structure TearsOk (d : Driver) (ts : List TearTarget) : Prop where
  steps : AllSteps (fun d t => (d.tear t).1 = true) tearStep d ts

theorem TearsOk.torn {d : Driver} {ts : List TearTarget} (hok : d.TearsOk ts) : Torn d (run tearStep d ts) ts := by
  obtain ⟨hok⟩ := hok
  induction ts generalizing d with
  | nil => exact torn_nil (sameView_of_eq rfl rfl)
  | cons t ts ih => exact (torn_singleton hok.1).append (ih hok.2)

/-- Every call of a pass has a live target. -/
structure TearsLive (d : Driver) (ts : List TearTarget) : Prop where
  steps : AllSteps LiveTarget tearStep d ts

/-- Targets that are live at the start, with ranges and handles of their own, are live when their turn
comes, whatever the calls before return. -/
theorem tearsLive {d : Driver} {ts : List TearTarget} (hvas : (ts.map (·.va)).Nodup)
    (hhandles : (ts.filterMap (·.handle)).Nodup) (hlive : ∀ t ∈ ts, d.LiveTarget t) : d.TearsLive ts := by
  constructor
  induction ts generalizing d with
  | nil => trivial
  | cons t ts ih =>
    rw [List.map_cons, List.nodup_cons] at hvas
    obtain ⟨hmaps, hks⟩ := d.tearStep_keeps t
    refine ⟨hlive t (List.mem_cons_self ..), ih hvas.2 ?_ fun u hu => ?_⟩
    · rw [List.filterMap_cons] at hhandles
      cases hth : t.handle with
      | none => rwa [hth] at hhandles
      | some k =>
        rw [hth] at hhandles
        exact (List.nodup_cons.1 hhandles).2
    · obtain ⟨hmap, hk⟩ := hlive u (List.mem_cons_of_mem _ hu)
      refine ⟨(hmaps _ _ ?_).trans hmap, fun k huk => (hks k ?_).trans (hk k huk)⟩
      · exact fun heq => hvas.1 (heq ▸ List.mem_map_of_mem hu)
      · intro htk
        rw [List.filterMap_cons, htk] at hhandles
        exact (List.nodup_cons.1 hhandles).1 (List.mem_filterMap.2 ⟨u, hu, huk⟩)

theorem run_tearStep_keeps (ts : List TearTarget) (d : Driver) :
    (∀ a n, a ∉ ts.map (·.va) → (run tearStep d ts).mappedAt a n = d.mappedAt a n) ∧
      ∀ k, k ∉ ts.filterMap (·.handle) → (run tearStep d ts).isLive k = d.isLive k := by
  induction ts generalizing d with
  | nil => exact ⟨fun a n _ => rfl, fun k _ => rfl⟩
  | cons t ts ih =>
    obtain ⟨hmaps, hks⟩ := d.tearStep_keeps t
    obtain ⟨ih1, ih2⟩ := ih (d.tearStep t)
    refine ⟨fun a n ha => ?_, fun k hk => ?_⟩
    · rw [List.map_cons, List.mem_cons, not_or] at ha
      exact (ih1 a n ha.2).trans (hmaps a n ha.1)
    · refine (ih2 k fun hmem => hk ?_).trans (hks k fun heq => hk ?_)
      · rw [List.filterMap_cons]
        cases t.handle with
        | none => exact hmem
        | some j => exact List.mem_cons_of_mem _ hmem
      · exact List.mem_filterMap.2 ⟨t, List.mem_cons_self .., heq⟩

theorem LiveTarget.sameView {d d' : Driver} {u : TearTarget} (h : d.LiveTarget u) (hd : d.SameView d') :
    d'.LiveTarget u :=
  ⟨(hd.mapped ..).trans h.1, fun k hk => (hd.live k).trans (h.2 k hk)⟩

theorem LiveTarget.run_tearStep {d : Driver} {ts us : List TearTarget} {u : TearTarget} (h : d.LiveTarget u)
    (hvas : ((ts ++ us).map (·.va)).Nodup) (hhandles : ((ts ++ us).filterMap (·.handle)).Nodup) (hu : u ∈ us) :
    (run tearStep d ts).LiveTarget u := by
  obtain ⟨hmaps, hks⟩ := run_tearStep_keeps ts d
  rw [List.map_append] at hvas
  rw [List.filterMap_append] at hhandles
  refine ⟨(hmaps _ _ fun hmem => ?_).trans h.1, fun k hk => (hks k fun hmem => ?_).trans (h.2 k hk)⟩
  · exact List.disjoint_of_nodup_append hvas hmem (List.mem_map_of_mem hu)
  · exact List.disjoint_of_nodup_append hhandles hmem (List.mem_filterMap.2 ⟨u, hu, hk⟩)

end Driver

/-! ### The targets of the passes -/

def IpcImportRecord.target (rec : IpcImportRecord) : TearTarget :=
  ⟨rec.mappedVaddr, rec.size, if rec.handle = 0 then none else some rec.handle⟩

/-- A record that is torn down already or has no mapping is passed over. -/
def IpcExportRecord.target (rec : IpcExportRecord) : Option TearTarget :=
  if rec.tornDown || !rec.hasMapping then none else some ⟨rec.mappedVaddr, rec.mappedSize, some rec.localHandle⟩

def LocalAllocEntry.target (e : LocalAllocEntry) : TearTarget := ⟨e.vaddr, e.size, some e.handle⟩

namespace IpcState

def importTargets (s : IpcState) : List TearTarget :=
  (s.imports.filter fun rec => !rec.tornDown).map (·.target)

def exportTargets (s : IpcState) : List TearTarget := s.exports.filterMap (·.target)

def localTargets (s : IpcState) : List TearTarget := s.deviceOrder.map (·.target)

/-- The copies of `ipc_save_and_teardown_all_exports`. -/
def exportCopies (s : IpcState) (buf : HostBuf) : Bool × Nat × SaveRun :=
  let pin := s.drv.pinHost s.fns s.totalNeeded
  saveGroups (pin.1 && s.fns.asyncDtoH) true s.deviceExports ⟨pin.2, buf.data, [], []⟩

def afterExportCopies (s : IpcState) (buf : HostBuf) : Driver :=
  (s.exportCopies buf).2.2.drv.unpinHost (s.drv.pinHost s.fns s.totalNeeded).1

/-- The copies of `ipc_save_and_teardown_local_allocs`. -/
def localCopies (s : IpcState) (buf : HostBuf) : Bool × Nat × SaveRun :=
  let pin := s.drv.pinHost s.fns s.ipcGetLocalAllocDataSize
  saveGroups (pin.1 && s.fns.asyncDtoH) false (s.deviceAllocs.map fun g => g.2.map fun x => x.1.slot x.2)
    ⟨pin.2, buf.data, [], []⟩

def afterLocalCopies (s : IpcState) (buf : HostBuf) : Driver :=
  (s.localCopies buf).2.2.drv.unpinHost (s.drv.pinHost s.fns s.ipcGetLocalAllocDataSize).1

/-! ### The passes -/

section Passes
variable {s : IpcState}

theorem teardownImports_eq (imports : List IpcImportRecord) (d : Driver) :
    ((Driver.importOps fun _ => 0).teardownImports imports d).2 =
      run Driver.tearStep d ((imports.filter fun rec => !rec.tornDown).map (·.target)) := by
  induction imports generalizing d with
  | nil => rfl
  | cons rec imports ih =>
    rw [ImportOps.teardownImports]
    dsimp only
    rw [ih]
    unfold ImportOps.teardownImport
    cases htorn : rec.tornDown with
    | true => simp [htorn]
    | false =>
      simp only [Bool.false_eq_true, if_false, List.filter_cons, htorn, Bool.not_false, if_true, List.map_cons, run,
        List.foldl_cons]
      congr 1
      unfold Driver.tearStep Driver.tear IpcImportRecord.target Driver.importOps
      by_cases hh : rec.handle = 0
      · simp [hh]
      · simp [hh]

theorem unmapAndRelease_eq {fns : IpcFns} (hunmap : fns.cuMemUnmap = true) (d : Driver) (va size handle : Nat) :
    (d.unmapAndRelease fns va size handle).2 = d.tearStep ⟨va, size, some handle⟩ := by
  simp [Driver.unmapAndRelease, Driver.tearStep, Driver.tear, hunmap]

theorem foldl_teardownExport_eq {fns : IpcFns} (hunmap : fns.cuMemUnmap = true) (saved : List Slot)
    (recs : List (IpcExportRecord × Nat)) (x : Driver × List ReleasedAlloc) :
    (recs.foldl (teardownExport fns saved) x).1 =
      run Driver.tearStep x.1 ((recs.map Prod.fst).filterMap (·.target)) := by
  induction recs generalizing x with
  | nil => rfl
  | cons r recs ih =>
    rw [List.foldl_cons, ih, List.map_cons, List.filterMap_cons]
    unfold teardownExport IpcExportRecord.target
    split_ifs with hskip
    · rfl
    · show run _ (x.1.unmapAndRelease fns _ _ _).2 _ = run _ (x.1.tearStep _) _
      rw [unmapAndRelease_eq hunmap]

theorem foldl_teardownLocal_eq {fns : IpcFns} (hunmap : fns.cuMemUnmap = true) (saved : List Slot)
    (recs : List CuMemLocalAllocRecord) (x : Driver × List ReleasedAlloc) :
    (recs.foldl (teardownLocal fns saved) x).1 = run Driver.tearStep x.1
      (recs.map fun rec => ⟨rec.vaddr, rec.size, some rec.handle⟩) := by
  induction recs generalizing x with
  | nil => rfl
  | cons rec recs ih =>
    rw [List.foldl_cons, ih, List.map_cons]
    show run _ (x.1.unmapAndRelease fns _ _ _).2 _ = run _ (x.1.tearStep _) _
    rw [unmapAndRelease_eq hunmap]

theorem map_foldl_recordOffset {β : Type} (f : IpcExportRecord → β)
    (hf : ∀ rec offset, f { rec with savedDataOffset := offset, hasSavedDataOffset := true } = f rec)
    (xs : List Slot) (exports : List IpcExportRecord) :
    (xs.foldl recordOffset exports).map f = exports.map f := by
  induction xs generalizing exports with
  | nil => rfl
  | cons x xs ih =>
    rw [List.foldl_cons, ih]
    apply List.ext_getElem?
    intro i
    rw [List.getElem?_map, List.getElem?_map, recordOffset, List.getElem?_modify]
    by_cases hi : x.key = i
    · simp only [hi, if_true, Option.map_eq_map, Option.map_map]
      congr 1
      funext rec
      exact hf rec _
    · simp [hi]

theorem filterMap_target_closeFd (exports : List IpcExportRecord) :
    (exports.map closeFd).filterMap (·.target) = exports.filterMap (·.target) := by
  rw [List.filterMap_map]
  congr 1
  funext rec
  obtain ⟨fd, hfd⟩ := closeFd_eq rec
  rw [Function.comp_apply, hfd]
  rfl

theorem exportedVas_congr {exports : List IpcExportRecord}
    (h : exports.map (fun rec => (rec.hasMapping, rec.mappedVaddr)) =
      s.exports.map fun rec => (rec.hasMapping, rec.mappedVaddr)) :
    (exports.filter (·.hasMapping)).map (·.mappedVaddr) = s.exportedVas := by
  have heq : ∀ l : List IpcExportRecord, (l.filter (·.hasMapping)).map (·.mappedVaddr) =
      ((l.map fun rec => (rec.hasMapping, rec.mappedVaddr)).filter (·.1)).map (·.2) := by
    intro l
    rw [List.filter_map, List.map_map]
    rfl
  rw [exportedVas, heq, h, ← heq]

theorem exportCopies_spec (s : IpcState) (buf : HostBuf) :
    s.drv.Same (s.afterExportCopies buf) ∧
      ∀ x ∈ (s.exportCopies buf).2.2.touched, x ∈ s.deviceExports.flatten := by
  have hpin := s.drv.same_pinHost s.fns s.totalNeeded
  unfold afterExportCopies exportCopies
  dsimp only
  generalize s.drv.pinHost s.fns s.totalNeeded = pin at hpin
  obtain ⟨hf, -⟩ := saveGroups_spec (pin.1 && s.fns.asyncDtoH) true s.deviceExports (d := s.drv)
    (r := ⟨pin.2, buf.data, [], []⟩) ⟨hpin, by simp⟩ s.apart_deviceExports (by simp)
  have hvis := saveGroups_visits (pin.1 && s.fns.asyncDtoH) true s.deviceExports ⟨pin.2, buf.data, [], []⟩
  exact ⟨hf.same.trans (Driver.same_unpinHost _ _), fun x hx => (hvis.adds x hx).resolve_left (by simp)⟩

theorem saveExports_eq (hfns : (s.fns.cuMemRelease && s.fns.cuMemcpyDtoH) = true) {buf : HostBuf}
    (hsize : s.ipcGetExportDataSize ≤ buf.size) :
    s.ipcSaveAndTeardownAllExports buf =
      if !(s.exportCopies buf).1 then
        (none, { s with drv := s.afterExportCopies buf
                        exports := (s.exportCopies buf).2.2.touched.foldl recordOffset s.exports },
          { buf with data := (s.exportCopies buf).2.2.data })
      else
        let closed := ((s.exportCopies buf).2.2.touched.foldl recordOffset s.exports).map closeFd
        let t := closed.zipIdx.foldl (teardownExport s.fns (s.exportCopies buf).2.2.saved)
          (s.afterExportCopies buf, s.released)
        (some (closed.countP fun rec => !rec.tornDown && rec.hasMapping),
          { s with drv := t.1, released := t.2, exports := closed.map markTorn },
          { buf with data := (s.exportCopies buf).2.2.data }) := by
  unfold ipcSaveAndTeardownAllExports
  rw [hfns]
  simp only [Bool.not_true, Bool.false_eq_true, if_false, if_neg (Nat.not_lt.2 (s.totalNeeded_eq.trans_le hsize))]
  rfl

/-- The export pass. If a copy fails, nothing is torn down. -/
structure ExportPass (s r : IpcState) (buf : HostBuf) : Prop where
  drv : r.drv = if (s.exportCopies buf).1 then run Driver.tearStep (s.afterExportCopies buf) s.exportTargets
    else s.afterExportCopies buf
  fns : r.fns = s.fns
  createdAllocs : r.createdAllocs = s.createdAllocs
  handleToVa : r.handleToVa = s.handleToVa
  exportedVas : r.exportedVas = s.exportedVas
  fds : (s.exportCopies buf).1 = true → ∀ (i : Nat) (rec : IpcExportRecord), s.exports[i]? = some rec →
    rec.tornDown = false → 0 ≤ rec.exportedFd →
      ∃ rec' : IpcExportRecord, r.exports[i]? = some rec' ∧ rec'.exportedFd = -1

theorem exportPass (hfns : (s.fns.cuMemRelease && s.fns.cuMemcpyDtoH) = true) (hunmap : s.fns.cuMemUnmap = true)
    {buf : HostBuf} (hsize : s.ipcGetExportDataSize ≤ buf.size) :
    ExportPass s (s.ipcSaveAndTeardownAllExports buf).2.1 buf := by
  have hkeeps := fun (β : Type) (f : IpcExportRecord → β) hf =>
    map_foldl_recordOffset f hf (s.exportCopies buf).2.2.touched s.exports
  rw [saveExports_eq hfns hsize]
  generalize (s.exportCopies buf).2.2.touched.foldl recordOffset s.exports = exports at hkeeps
  cases hok : (s.exportCopies buf).1 with
  | false =>
    refine ⟨by rw [hok]; rfl, rfl, rfl, rfl, ?_, by simp [hok]⟩
    exact exportedVas_congr (hkeeps _ _ fun rec offset => rfl)
  | true =>
    simp only [Bool.not_true, Bool.false_eq_true, if_false]
    have htargets : (exports.map closeFd).filterMap (·.target) = s.exportTargets := by
      have hmap := congrArg (List.filterMap id) (hkeeps _ (fun rec => rec.target) fun rec offset => rfl)
      rw [List.filterMap_map, List.filterMap_map] at hmap
      rw [filterMap_target_closeFd]
      exact hmap
    refine ⟨?_, rfl, rfl, rfl, ?_, ?_⟩
    · rw [hok, if_pos rfl]
      dsimp only
      rw [foldl_teardownExport_eq hunmap, List.zipIdx_map_fst, htargets]
    · refine exportedVas_congr ?_
      rw [← hkeeps _ (fun rec => (rec.hasMapping, rec.mappedVaddr)) fun rec offset => rfl, List.map_map, List.map_map]
      congr 1
      funext rec
      obtain ⟨fd, hfd⟩ := closeFd_eq rec
      simp only [Function.comp_apply, hfd, markTorn]
      split_ifs <;> rfl
    · intro _ i rec hrec htorn hfd
      have hi := congrArg (·[i]?) (hkeeps _ (fun rec => (rec.tornDown, rec.exportedFd)) fun rec offset => rfl)
      simp only [List.getElem?_map, hrec, Option.map_some] at hi
      obtain ⟨rec₁, hrec₁, heq⟩ := Option.map_eq_some_iff.1 hi
      rw [Prod.mk.injEq] at heq
      refine ⟨markTorn (closeFd rec₁), ?_, ?_⟩
      · rw [List.getElem?_map, List.getElem?_map, hrec₁]
        rfl
      · have hclose : (closeFd rec₁).exportedFd = -1 := by
          rw [closeFd, heq.1, htorn, if_neg Bool.false_ne_true, heq.2, if_pos hfd]
        unfold markTorn
        split_ifs <;> exact hclose

theorem localCopies_spec (s : IpcState) (buf : HostBuf) :
    s.drv.Same (s.afterLocalCopies buf) ∧
      ∀ x ∈ (s.localCopies buf).2.2.touched, ∃ e ∈ s.localEntries, x.vaddr = e.vaddr ∧ x.size = e.size := by
  have hpin := s.drv.same_pinHost s.fns s.ipcGetLocalAllocDataSize
  unfold afterLocalCopies localCopies
  dsimp only
  generalize s.drv.pinHost s.fns s.ipcGetLocalAllocDataSize = pin at hpin
  obtain ⟨hf, -⟩ := saveGroups_spec (pin.1 && s.fns.asyncDtoH) false
    (s.deviceAllocs.map fun g => g.2.map fun x => x.1.slot x.2) (d := s.drv)
    (r := ⟨pin.2, buf.data, [], []⟩) ⟨hpin, by simp⟩ (by rw [flatten_deviceSlots]; exact s.apart_deviceSlots) (by simp)
  have hvis := saveGroups_visits (pin.1 && s.fns.asyncDtoH) false
    (s.deviceAllocs.map fun g => g.2.map fun x => x.1.slot x.2) ⟨pin.2, buf.data, [], []⟩
  refine ⟨hf.same.trans (Driver.same_unpinHost _ _), fun x hx => ?_⟩
  have hmem := (hvis.adds x hx).resolve_left (by simp)
  rw [flatten_deviceSlots] at hmem
  obtain ⟨y, hy, rfl⟩ := List.mem_map.1 hmem
  exact ⟨y.1, s.perm_deviceOrder.mem_iff.1 (List.mem_map_of_mem hy), rfl, rfl⟩

theorem saveLocals_eq (hfns : (s.fns.cuMemRelease && s.fns.cuMemcpyDtoH) = true) {buf : HostBuf}
    (hsize : s.ipcGetLocalAllocDataSize ≤ buf.size) :
    (s.ipcSaveAndTeardownLocalAllocs buf).2.1 =
      let recs := (s.deviceAllocs.take (s.localCopies buf).2.1).flatMap fun g => g.2.map fun x => x.1.record
      if !(s.localCopies buf).1 then { s with drv := s.afterLocalCopies buf, localAllocs := recs }
      else
        let t := recs.foldl (teardownLocal s.fns (s.localCopies buf).2.2.saved) (s.afterLocalCopies buf, s.released)
        { s with drv := t.1, released := t.2, localAllocs := recs.map fun rec => { rec with tornDown := true } } := by
  unfold ipcSaveAndTeardownLocalAllocs
  rw [hfns]
  simp only [Bool.not_true, Bool.false_eq_true, if_false, if_neg (Nat.not_lt.2 hsize)]
  show Prod.fst (Prod.snd (if !(s.localCopies buf).1 then _ else _)) = _
  split_ifs <;> rfl

/-- The local pass. If a copy ends it, nothing is torn down. -/
theorem localPass (hfns : (s.fns.cuMemRelease && s.fns.cuMemcpyDtoH) = true) (hunmap : s.fns.cuMemUnmap = true)
    {buf : HostBuf} (hsize : s.ipcGetLocalAllocDataSize ≤ buf.size) :
    (s.ipcSaveAndTeardownLocalAllocs buf).2.1.drv =
        (if (s.localCopies buf).1 then run Driver.tearStep (s.afterLocalCopies buf) s.localTargets
          else s.afterLocalCopies buf) ∧
      (s.ipcSaveAndTeardownLocalAllocs buf).2.1.exports = s.exports := by
  have hcount : (s.localCopies buf).1 = true → (s.localCopies buf).2.1 = s.deviceAllocs.length := by
    intro hok
    have hcount := saveGroups_count _ _ _ _ hok
    rwa [List.length_map] at hcount
  rw [saveLocals_eq hfns hsize]
  cases hok : (s.localCopies buf).1 with
  | false => exact ⟨rfl, rfl⟩
  | true =>
    refine ⟨?_, rfl⟩
    simp only [Bool.not_true, Bool.false_eq_true, if_false, if_true]
    rw [foldl_teardownLocal_eq hunmap, hcount hok, List.take_length, flatMap_deviceRecords, List.map_map]
    rfl

end Passes

end IpcState

/-! ### What every call of a teardown keeps -/

namespace Driver

section Kept
variable {R : Driver → Driver → Prop}

/-- A relation of the driver before to the driver after that the calls of a teardown keep, whether they fail or not. -/
structure KeptByTeardown (R : Driver → Driver → Prop) : Prop where
  same : ∀ {d d' : Driver}, d.Same d' → R d d'
  trans : ∀ {d d' d'' : Driver}, R d d' → R d' d'' → R d d''
  unmap : ∀ (d : Driver) (va size : Nat), R d (d.cuMemUnmap va size).2
  release : ∀ (d : Driver) (handle : Nat), R d (d.cuMemRelease handle).2

theorem KeptByTeardown.tearStep (h : KeptByTeardown R) (d : Driver) (t : TearTarget) : R d (d.tearStep t) := by
  unfold Driver.tearStep tear
  cases t.handle with
  | none => exact h.unmap d t.va t.size
  | some handle => exact h.trans (h.unmap d t.va t.size) (h.release _ handle)

theorem KeptByTeardown.run_tearStep (h : KeptByTeardown R) (ts : List TearTarget) (d : Driver) :
    R d (run Driver.tearStep d ts) := by
  induction ts generalizing d with
  | nil => exact h.same (Same.refl d)
  | cons t ts ih => exact h.trans (h.tearStep d t) (ih _)

theorem KeptByTeardown.unmapAndRelease (h : KeptByTeardown R) (d : Driver) (fns : IpcFns) (va size handle : Nat) :
    R d (d.unmapAndRelease fns va size handle).2 := by
  unfold Driver.unmapAndRelease
  dsimp only
  split_ifs
  · exact h.trans (h.unmap d va size) (h.release _ handle)
  · exact h.release d handle

theorem KeptByTeardown.saveExports (h : KeptByTeardown R) (s : IpcState) (buf : HostBuf) :
    R s.drv (s.ipcSaveAndTeardownAllExports buf).2.1.drv := by
  have hrefl := h.same (Same.refl s.drv)
  by_cases hfns : (s.fns.cuMemRelease && s.fns.cuMemcpyDtoH) = true
  swap
  · rw [Bool.not_eq_true] at hfns
    rw [IpcState.ipcSaveAndTeardownAllExports, hfns]
    exact hrefl
  by_cases hsize : s.ipcGetExportDataSize ≤ buf.size
  swap
  · rw [IpcState.ipcSaveAndTeardownAllExports, hfns]
    simp only [Bool.not_true, Bool.false_eq_true, if_false, if_pos (s.totalNeeded_eq.trans_gt (Nat.not_le.1 hsize))]
    exact hrefl
  have hcopies := h.same (s.exportCopies_spec buf).1
  rw [IpcState.saveExports_eq hfns hsize]
  split_ifs
  · exact hcopies
  · refine h.trans hcopies ?_
    dsimp only
    refine List.foldlRecOn (motive := fun x : Driver × List ReleasedAlloc => R (s.afterExportCopies buf) x.1) _ _
      (h.same (Same.refl _)) fun x hx r _ => h.trans hx ?_
    unfold IpcState.teardownExport
    split_ifs
    · exact h.same (Same.refl _)
    · exact h.unmapAndRelease x.1 s.fns _ _ _

theorem KeptByTeardown.saveLocals (h : KeptByTeardown R) (s : IpcState) (buf : HostBuf) :
    R s.drv (s.ipcSaveAndTeardownLocalAllocs buf).2.1.drv := by
  have hrefl := h.same (Same.refl s.drv)
  by_cases hfns : (s.fns.cuMemRelease && s.fns.cuMemcpyDtoH) = true
  swap
  · rw [Bool.not_eq_true] at hfns
    rw [IpcState.ipcSaveAndTeardownLocalAllocs, hfns]
    exact hrefl
  by_cases hsize : s.ipcGetLocalAllocDataSize ≤ buf.size
  swap
  · rw [IpcState.ipcSaveAndTeardownLocalAllocs, hfns]
    simp only [Bool.not_true, Bool.false_eq_true, if_false, if_pos (Nat.not_le.1 hsize)]
    exact hrefl
  have hcopies := h.same (s.localCopies_spec buf).1
  rw [IpcState.saveLocals_eq hfns hsize]
  dsimp only
  split_ifs
  · exact hcopies
  · refine h.trans hcopies ?_
    dsimp only
    exact List.foldlRecOn (motive := fun x : Driver × List ReleasedAlloc => R (s.afterLocalCopies buf) x.1) _ _
      (h.same (Same.refl _)) fun x hx rec _ => h.trans hx (h.unmapAndRelease x.1 s.fns _ _ _)

end Kept

end Driver

/-! ### The handler -/

/-- The functions that the teardown calls are there. -/
structure IpcFns.Resolved (fns : IpcFns) : Prop where
  release : fns.cuMemRelease = true
  unmap : fns.cuMemUnmap = true
  dtoh : fns.cuMemcpyDtoH = true

namespace IpcWorkerState

/-- When the export pass begins. -/
def atExports (w : IpcWorkerState) : IpcWorkerState := w.teardownImports.allocExportBuf

/-- When the local pass begins. -/
def atLocals (w : IpcWorkerState) : IpcWorkerState := w.atExports.saveExports.allocLocalBuf

def atEnd (w : IpcWorkerState) : IpcWorkerState := w.atLocals.saveLocals

theorem run_teardown (w : IpcWorkerState) : run step w IpcMsg.teardown.stages = w.atEnd := rfl

section Stages
variable {w : IpcWorkerState}

theorem atExports_ipc (hfns : w.ipc.fns.Resolved) : ∃ imports, w.atExports.ipc =
    { w.ipc with imports := imports, drv := run Driver.tearStep w.ipc.drv w.ipc.importTargets } := by
  refine ⟨((Driver.importOps fun _ => 0).teardownImports w.ipc.imports w.ipc.drv).1, ?_⟩
  rw [IpcState.importTargets, ← IpcState.teardownImports_eq]
  unfold atExports allocExportBuf teardownImports ImportOps.ipcTeardownAllImports
  simp only [hfns.release, Bool.not_true, Bool.false_eq_true, if_false]
  split_ifs <;> rfl

theorem atExports_buf (hbuf : w.exportBuf = none) :
    w.atExports.exportBuf = (if 0 < w.ipc.ipcGetExportDataSize then w.mmap w.ipc.ipcGetExportDataSize else none) ∧
      w.atExports.localBuf = w.localBuf ∧ w.atExports.mmapFails = w.mmapFails := by
  have hw : w.atExports = if 0 < w.ipc.ipcGetExportDataSize then
      { w.teardownImports with exportBuf := w.mmap w.ipc.ipcGetExportDataSize, mmapClock := w.mmapClock + 1 }
    else w.teardownImports := rfl
  rw [hw]
  by_cases hpos : 0 < w.ipc.ipcGetExportDataSize
  · rw [if_pos hpos, if_pos hpos]
    exact ⟨rfl, rfl, rfl⟩
  · rw [if_neg hpos, if_neg hpos]
    exact ⟨hbuf, rfl, rfl⟩

theorem mmap_eq {w : IpcWorkerState} {size : Nat} {buf : HostBuf} (h : w.mmap size = some buf) : buf.size = size := by
  unfold mmap at h
  split_ifs at h
  exact (Option.some.inj h) ▸ rfl

theorem atExports_size (hbuf : w.exportBuf = none) {buf : HostBuf}
    (h : w.atExports.exportBuf = some buf) :
    0 < w.ipc.ipcGetExportDataSize ∧ buf.size = w.ipc.ipcGetExportDataSize := by
  rw [(atExports_buf hbuf).1] at h
  split_ifs at h with hpos
  exact ⟨hpos, mmap_eq h⟩

theorem atLocals_ipc (hfns : w.ipc.fns.Resolved) (hbuf : w.exportBuf = none) :
    w.atExports.exportBuf = none ∧ w.atLocals.ipc = w.atExports.ipc ∨
      ∃ buf, w.atExports.exportBuf = some buf ∧ IpcState.ExportPass w.atExports.ipc w.atLocals.ipc buf := by
  have hipc : w.atLocals.ipc = w.atExports.saveExports.ipc := by
    unfold atLocals allocLocalBuf
    split_ifs <;> rfl
  rw [hipc]
  cases hb : w.atExports.exportBuf with
  | none =>
    refine Or.inl ⟨rfl, ?_⟩
    unfold saveExports
    rw [hb]
  | some buf =>
    obtain ⟨hpos, hsize⟩ := atExports_size hbuf hb
    obtain ⟨imports, hw⟩ := atExports_ipc hfns
    refine Or.inr ⟨buf, rfl, ?_⟩
    have hsave : w.atExports.saveExports.ipc = (w.atExports.ipc.ipcSaveAndTeardownAllExports buf).2.1 := by
      unfold saveExports
      rw [hb]
      dsimp only
      rw [if_pos (hsize ▸ hpos)]
    rw [hsave]
    refine IpcState.exportPass ?_ ?_ ?_
    · rw [hw]
      simp [hfns.release, hfns.dtoh]
    · rw [hw]
      exact hfns.unmap
    · rw [hw]
      exact hsize.ge

theorem atLocals_fns (hfns : w.ipc.fns.Resolved) (hbuf : w.exportBuf = none) : w.atLocals.ipc.fns = w.ipc.fns := by
  obtain ⟨imports, hw⟩ := atExports_ipc hfns
  rcases atLocals_ipc hfns hbuf with ⟨-, heq⟩ | ⟨buf, -, hpass⟩
  · rw [heq, hw]
  · rw [hpass.fns, hw]

theorem atLocals_buf (hlocal : w.localBuf = none) (hbuf : w.exportBuf = none) :
    ∃ clock, w.atLocals.localBuf = if 0 < w.atLocals.ipc.ipcGetLocalAllocDataSize then
      if w.mmapFails clock then none else some ⟨w.atLocals.ipc.ipcGetLocalAllocDataSize, fun _ => 0⟩ else none := by
  have hsave : w.atExports.saveExports.localBuf = none ∧ w.atExports.saveExports.mmapFails = w.mmapFails := by
    obtain ⟨-, h2, h3⟩ := atExports_buf hbuf
    unfold saveExports
    split
    · exact ⟨h2.trans hlocal, h3⟩
    · split_ifs <;> exact ⟨h2.trans hlocal, h3⟩
  refine ⟨w.atExports.saveExports.mmapClock, ?_⟩
  rw [← hsave.2]
  unfold atLocals allocLocalBuf
  by_cases hpos : 0 < w.atExports.saveExports.ipc.ipcGetLocalAllocDataSize
  · rw [if_pos hpos]
    exact (if_pos hpos).symm
  · rw [if_neg hpos]
    exact hsave.1.trans (if_neg hpos).symm

theorem atEnd_ipc (hfns : w.ipc.fns.Resolved) (hlocal : w.localBuf = none) (hbuf : w.exportBuf = none) :
    w.atLocals.localBuf = none ∧ w.atEnd.ipc = w.atLocals.ipc ∨
      ∃ buf, w.atLocals.localBuf = some buf ∧ w.atEnd.ipc.exports = w.atLocals.ipc.exports ∧
        w.atEnd.ipc.drv = if (w.atLocals.ipc.localCopies buf).1 then
          run Driver.tearStep (w.atLocals.ipc.afterLocalCopies buf) w.atLocals.ipc.localTargets
          else w.atLocals.ipc.afterLocalCopies buf := by
  cases hb : w.atLocals.localBuf with
  | none =>
    refine Or.inl ⟨rfl, ?_⟩
    unfold atEnd saveLocals
    rw [hb]
  | some buf =>
    obtain ⟨clock, hmmap⟩ := atLocals_buf hlocal hbuf
    rw [hb] at hmmap
    split_ifs at hmmap with hpos hfail
    obtain rfl := Option.some.inj hmmap
    have hsave : w.atEnd.ipc = (w.atLocals.ipc.ipcSaveAndTeardownLocalAllocs
        ⟨w.atLocals.ipc.ipcGetLocalAllocDataSize, fun _ => 0⟩).2.1 := by
      unfold atEnd saveLocals
      rw [hb]
      dsimp only
      rw [if_pos hpos]
    have hfns' := atLocals_fns hfns hbuf
    have hfits : ∀ n : Nat, n ≤ (⟨n, fun _ => 0⟩ : HostBuf).size := fun n => Nat.le_refl n
    have hpass := IpcState.localPass (s := w.atLocals.ipc) (by rw [hfns', hfns.release, hfns.dtoh]; rfl)
      (by rw [hfns', hfns.unmap]) (hfits _)
    rw [← hsave] at hpass
    exact Or.inr ⟨_, rfl, hpass.2, hpass.1⟩

end Stages

end IpcWorkerState

end GpuCr
