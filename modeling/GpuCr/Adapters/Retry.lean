import GpuCr.Ipc.Parked
import GpuCr.Adapters.Prepare

/-!
# A prepare that is tried again

A prepare that returns `-1` leaves the statements before the failed one done. Up to the save of the exports that does no
harm: nothing is torn down but imports, and the next prepare saves into a new buffer. After it the exports are torn down
and their bytes only in the buffer, which the next prepare releases, since there is nothing left to save.
-/

namespace GpuCr

open Lib.Run Lib.Layout Std

/-! ### When the copies of the exports succeed -/

theorem Driver.copiesSucceed_append (d : Driver) (xs ys : List Slot) (n : Nat) :
    d.copiesSucceed (xs ++ ys) n = (d.copiesSucceed xs n && d.copiesSucceed ys (n + xs.length)) := by
  induction xs generalizing n with
  | nil => rfl
  | cons x xs ih =>
    rw [List.cons_append, copiesSucceed, copiesSucceed, ih, List.length_cons, Nat.add_assoc, Nat.add_comm 1]
    simp only [Bool.and_assoc]

/-- Blocking copies: the loop comes to its end exactly if every copy succeeds. -/
theorem saveGroups_copiesSucceed (gs : List (List Slot)) (r : SaveRun) :
    (saveGroups false true gs r).1 = r.drv.copiesSucceed gs.flatten r.drv.clock := by
  induction gs generalizing r with
  | nil => rfl
  | cons g gs ih =>
    obtain ⟨⟨hsame, -⟩, hres, hclock⟩ := saveSlots_adds true g r
    have hgroup : saveGroup false true g r = saveSlots true g r := by rw [saveGroup, if_neg Bool.false_ne_true]
    rw [Bool.not_true, Bool.false_or] at hres
    rw [saveGroups, hgroup, List.flatten_cons, Driver.copiesSucceed_append, ← hres]
    dsimp only
    cases hg : (saveSlots true g r).1 with
    | false => rfl
    | true =>
      rw [Bool.not_true, if_neg Bool.false_ne_true, Bool.true_and]
      dsimp only
      rw [ih, hsame.copiesSucceed, hclock hg]

namespace IpcState

/-- The save of the exports reports no failed copy: every copy is enqueued, or made. -/
def exportCopiesSucceed (s : IpcState) : Bool :=
  if s.useAsync s.totalNeeded then s.drv.enqueuesSucceed s.deviceExports (s.copyClock s.totalNeeded)
  else s.drv.copiesSucceed s.deviceExports.flatten (s.copyClock s.totalNeeded)

theorem exportCopies_fst (s : IpcState) (buf : HostBuf) : (s.exportCopies buf).1 = s.exportCopiesSucceed := by
  have hsame := s.drv.same_pinHost s.fns s.totalNeeded
  unfold exportCopiesSucceed copyClock
  show (saveGroups (s.useAsync s.totalNeeded) true s.deviceExports _).1 = _
  cases s.useAsync s.totalNeeded with
  | true =>
    obtain ⟨-, hres⟩ := saveGroups_adds true s.deviceExports s.deviceExports_ne_nil
      ⟨(s.drv.pinHost s.fns s.totalNeeded).2, buf.data, [], []⟩
    rw [if_pos rfl, hres, Bool.not_true, Bool.false_or, hsame.enqueuesSucceed]
  | false => rw [if_neg Bool.false_ne_true, saveGroups_copiesSucceed, hsame.copiesSucceed]

end IpcState

/-! ### What a failed prepare keeps -/

/-- What is tracked of an export. -/
def IpcExportRecord.tracked (rec : IpcExportRecord) : Bool × Bool × Bool × Nat × Nat :=
  (rec.tornDown, rec.hasMapping, rec.hasSavedProp, rec.mappedVaddr, rec.mappedSize)

namespace IpcState

/-- The same exports and local allocations are tracked, and all memory reads the same. -/
structure SameTracked (s t : IpcState) : Prop where
  exports : t.exports.map (·.tracked) = s.exports.map (·.tracked)
  locals : t.localEntries = s.localEntries
  mem : t.drv.mem = s.drv.mem
  fns : t.fns = s.fns

section Tracked
variable {s t u : IpcState}

theorem SameTracked.trans (h : s.SameTracked t) (h' : t.SameTracked u) : s.SameTracked u :=
  ⟨h'.exports.trans h.exports, h'.locals.trans h.locals, h'.mem.trans h.mem, h'.fns.trans h.fns⟩

theorem SameTracked.exists_record (h : s.SameTracked t) {rec : IpcExportRecord} (hrec : rec ∈ t.exports) :
    ∃ rec' ∈ s.exports, rec'.tracked = rec.tracked := by
  have hmem := List.mem_map_of_mem (f := IpcExportRecord.tracked) hrec
  rw [h.exports] at hmem
  exact List.mem_map.1 hmem

theorem SameTracked.symm (h : s.SameTracked t) : t.SameTracked s :=
  ⟨h.exports.symm, h.locals.symm, h.mem.symm, h.fns.symm⟩

theorem Intact.of_sameTracked (hs : s.Intact) (h : s.SameTracked t)
    (hexp : ∀ rec ∈ s.exports, rec.hasMapping = true → t.drv.mappedAt rec.mappedVaddr rec.mappedSize = true)
    (hloc : ∀ e ∈ s.localEntries, ⟨e.vaddr, e.size, e.handle, true⟩ ∈ t.drv.maps)
    (himp : ∀ rec ∈ t.imports, rec.tornDown = false → rec ∈ s.imports) : t.Intact := by
  have hrecords : ∀ rec ∈ t.exports, ∃ rec' ∈ s.exports, rec'.tornDown = rec.tornDown ∧ rec'.hasMapping = rec.hasMapping ∧
      rec'.hasSavedProp = rec.hasSavedProp ∧ rec'.mappedVaddr = rec.mappedVaddr ∧ rec'.mappedSize = rec.mappedSize := by
    intro rec hrec
    obtain ⟨rec', hrec', heq⟩ := h.exists_record hrec
    simp only [IpcExportRecord.tracked, Prod.mk.injEq] at heq
    exact ⟨rec', hrec', heq⟩
  refine ⟨⟨fun rec hrec => ?_, fun rec hrec hmap => ?_, fun rec hrec hmap => ?_⟩, fun e he => hloc e (h.locals ▸ he),
    fun rec hrec htorn => ⟨fun exp hexp' hmap => ?_, fun e he => ?_⟩⟩
  · obtain ⟨rec', hrec', htorn, -⟩ := hrecords rec hrec
    exact htorn ▸ hs.exports.live rec' hrec'
  · obtain ⟨rec', hrec', -, hmap', hprop, -⟩ := hrecords rec hrec
    exact hprop ▸ hs.exports.prop rec' hrec' (hmap' ▸ hmap)
  · obtain ⟨rec', hrec', -, hmap', -, hva, hsz⟩ := hrecords rec hrec
    rw [← hva, ← hsz]
    exact hexp rec' hrec' (hmap' ▸ hmap)
  · obtain ⟨exp', hexp', -, hmap', -, hva, -⟩ := hrecords exp hexp'
    rw [← hva]
    exact (hs.imports rec (himp rec hrec htorn) htorn).1 exp' hexp' (hmap' ▸ hmap)
  · exact (hs.imports rec (himp rec hrec htorn) htorn).2 e (h.locals ▸ he)

theorem Intact.withEnv (hs : s.Intact) (env : DriverEnv) : (s.withEnv env).Intact :=
  hs.of_sameTracked (t := s.withEnv env) ⟨rfl, rfl, rfl, rfl⟩ hs.exports.mapped hs.locals fun _ hrec _ => hrec

/-- The teardown of the imports concerns neither exports nor local allocations. -/
theorem Intact.teardownAllImports (hs : s.Intact) (hfns : s.fns.Resolved) :
    s.teardownAllImports.Intact ∧ s.SameTracked s.teardownAllImports := by
  have hdrv := teardownAllImports_eq hfns
  have htargets : ∀ t ∈ s.importTargets, (∀ rec ∈ s.exports, rec.hasMapping = true → t.va ≠ rec.mappedVaddr) ∧
      ∀ e ∈ s.localEntries, t.va ≠ e.vaddr := by
    intro t ht
    obtain ⟨rec, hrec, rfl⟩ := List.mem_map.1 ht
    obtain ⟨hrec, htorn⟩ := List.mem_filter.1 hrec
    exact hs.imports rec hrec (by simpa using htorn)
  have hsame : s.SameTracked s.teardownAllImports :=
    ⟨rfl, rfl, by rw [hdrv]; exact (Driver.shrunk_run_tearStep _ _).mem, rfl⟩
  refine ⟨hs.of_sameTracked hsame (fun rec hrec hmap => ?_) (fun e he => ?_) fun rec hrec htorn => ?_, hsame⟩
  · rw [hdrv, (Driver.run_tearStep_keeps s.importTargets s.drv).1]
    · exact hs.exports.mapped rec hrec hmap
    · intro hmem
      obtain ⟨t, ht, heq⟩ := List.mem_map.1 hmem
      exact (htargets t ht).1 rec hrec hmap heq
  · rw [hdrv]
    exact Driver.mem_run_tearStep (hs.locals e he) fun t ht => (htargets t ht).2 e he
  · rw [teardownAllImports_torn hfns.release rec hrec] at htorn
    exact absurd htorn (by simp)

/-- A save of the exports whose copies fail tears nothing down. -/
theorem Intact.saveExports (hs : s.Intact) (hfns : s.fns.Resolved) {buf : HostBuf}
    (hsize : s.ipcGetExportDataSize ≤ buf.size) (hfail : (s.exportCopies buf).1 = false) :
    (s.ipcSaveAndTeardownAllExports buf).2.1.Intact ∧ s.SameTracked (s.ipcSaveAndTeardownAllExports buf).2.1 := by
  obtain ⟨hsame, -⟩ := s.exportCopies_spec buf
  have hexports := map_foldl_recordOffset IpcExportRecord.tracked (fun rec offset => rfl)
    (s.exportCopies buf).2.2.touched s.exports
  have hentries := localEntries_saveExports hfns hsize
  rw [saveExports_eq (by rw [hfns.release, hfns.dtoh]; rfl) hsize, hfail, Bool.not_false, if_pos rfl] at hentries ⊢
  have htracked : s.SameTracked { s with
      drv := s.afterExportCopies buf
      exports := (s.exportCopies buf).2.2.touched.foldl recordOffset s.exports } := ⟨hexports, hentries, hsame.mem, rfl⟩
  refine ⟨hs.of_sameTracked htracked (fun rec hrec hmap => ?_) (fun e he => ?_) fun rec hrec _ => hrec, htracked⟩
  · rw [Driver.mappedAt, hsame.maps]
    exact hs.exports.mapped rec hrec hmap
  · rw [hsame.maps]
    exact hs.locals e he

theorem Intact.saveLocals (hs : s.Intact) (hfns : s.fns.Resolved) {buf : HostBuf}
    (hsize : s.ipcGetLocalAllocDataSize ≤ buf.size) (hfail : (s.localCopies buf).1 = false) :
    (s.ipcSaveAndTeardownLocalAllocs buf).2.1.Intact ∧ s.SameTracked (s.ipcSaveAndTeardownLocalAllocs buf).2.1 := by
  obtain ⟨hsame, -⟩ := s.localCopies_spec buf
  have hentries := s.localEntries_saveLocals buf
  rw [saveLocals_eq (by rw [hfns.release, hfns.dtoh]; rfl) hsize] at hentries ⊢
  simp only [hfail, Bool.not_false, if_true] at hentries ⊢
  have htracked : s.SameTracked { s with
      drv := s.afterLocalCopies buf
      localAllocs := (s.deviceAllocs.take (s.localCopies buf).2.1).flatMap fun g => g.2.map fun x => x.1.record } :=
    ⟨rfl, hentries, hsame.mem, rfl⟩
  refine ⟨hs.of_sameTracked htracked (fun rec hrec hmap => ?_) (fun e he => ?_) fun rec hrec _ => hrec, htracked⟩
  · rw [Driver.mappedAt, hsame.maps]
    exact hs.exports.mapped rec hrec hmap
  · rw [hsame.maps]
    exact hs.locals e he

theorem SameTracked.readsAs (h : s.SameTracked t) (hr : t.ReadsAs u) : s.ReadsAs u := by
  refine ⟨fun rec hrec hmap => ?_, fun e he => ?_⟩
  · obtain ⟨rec', hrec', heq⟩ := h.symm.exists_record hrec
    simp only [IpcExportRecord.tracked, Prod.mk.injEq] at heq
    obtain ⟨-, hmap', -, hva, hsz⟩ := heq
    rw [← hva, ← hsz, ← h.mem]
    exact hr.exports rec' hrec' (hmap'.trans hmap)
  · rw [← h.mem]
    exact hr.locals e (h.locals ▸ he)

theorem Copied.congr {buf : HostBuf} (h : Copied s t buf) (heq : u.exports = t.exports) : Copied s u buf := by
  obtain ⟨hactive, hidle, hlength⟩ := h
  rw [← heq] at hactive hidle hlength
  exact ⟨hactive, hidle, hlength⟩

theorem Parked.withEnv {exportData localData : Option HostBuf} (h : Parked s t exportData localData) (env : DriverEnv) :
    Parked s (t.withEnv env) exportData localData :=
  ⟨h.maps, h.mem, h.readable, h.exports.imp id fun ⟨buf, hb, hpos, hsize, hcopied⟩ =>
    ⟨buf, hb, hpos, hsize, hcopied.congr rfl⟩, h.locals, h.free⟩

end Tracked

end IpcState

namespace GcrProcess

/-- The prepare returns before it tears the exports down, or there are none: the device does not synchronize, there is
no buffer, or a copy fails. -/
def KeepsExports (s : GcrProcess) (c : PrepareAnswers) : Prop :=
  0 < s.ipc.ipcGetExportDataSize → c.deviceSync = true → c.exportAlloc = true →
    (s.ipc.withEnv c.env).teardownAllImports.exportCopiesSucceed = false

/-- Where a prepare can be tried again. -/
structure Retryable (s t : GcrProcess) : Prop where
  intact : t.ipc.Intact
  tracked : s.ipc.SameTracked t.ipc
  prepared : t.prepared = false

section Failed
variable {s t : GcrProcess} {c : PrepareAnswers}

theorem intact_atExports (hs : s.ipc.Intact) (hfns : s.ipc.fns.Resolved) (c : PrepareAnswers) :
    (s.atExports c).ipc.Intact ∧ s.ipc.SameTracked (s.atExports c).ipc := by
  obtain ⟨hintact, hsame⟩ := (hs.withEnv c.env).teardownAllImports hfns
  exact ⟨hintact, hsame.exports, hsame.locals, hsame.mem, hsame.fns⟩

/-- The local allocations, if there is nothing to do for the exports. -/
theorem intact_of_localsError (hs : s.ipc.Intact) (hfns : s.ipc.fns.Resolved)
    (h : (s.toLocals c >>= saveLocals) = .error t) : t.ipc.Intact ∧ s.ipc.SameTracked t.ipc := by
  have hrefl : s.ipc.SameTracked s.ipc := ⟨rfl, rfl, rfl, rfl⟩
  rw [toLocals_eq] at h
  split_ifs at h with hevents halloc
  · obtain rfl := Except.error.inj h
    exact ⟨hs, hrefl⟩
  · have h : (s.atLocals c).saveLocals = .error t := h
    cases hbuf : (s.atLocals c).localData with
    | none =>
      rw [saveLocals_none hbuf] at h
      exact absurd h (by simp)
    | some buf =>
      obtain ⟨rfl, hpos⟩ := allocateBuffer_some hbuf
      rw [saveLocals_eq (s := s.atLocals c) hfns hbuf hpos (Nat.le_refl _)] at h
      split_ifs at h with hcopies
      obtain rfl := Except.error.inj h
      exact hs.saveLocals hfns (Nat.le_refl _) (Bool.eq_false_iff.2 hcopies)
  · obtain rfl := Except.error.inj h
    exact ⟨hs, hrefl⟩

theorem intact_of_error (hs : s.ipc.Intact) (hfns : s.ipc.fns.Resolved) (hkeeps : s.KeepsExports c)
    (h : s.teardownRun c = .error t) : t.ipc.Intact ∧ s.ipc.SameTracked t.ipc := by
  obtain ⟨hintact, hsame⟩ := intact_atExports hs hfns c
  unfold teardownRun at h
  rw [toExports_eq hfns] at h
  split_ifs at h with hsync halloc
  · obtain rfl := Except.error.inj h
    exact ⟨hs.withEnv c.env, rfl, rfl, rfl, rfl⟩
  · have h : ((s.atExports c).saveExports >>= fun u => u.toLocals c >>= saveLocals) = .error t := h
    cases hbuf : (s.atExports c).exportData with
    | none =>
      rw [saveExports_none hbuf] at h
      obtain ⟨hintact', hsame'⟩ := intact_of_localsError (s := s.atExports c) hintact hfns h
      exact ⟨hintact', hsame.trans hsame'⟩
    | some buf =>
      obtain ⟨rfl, hpos⟩ := allocateBuffer_some hbuf
      have hallocated : c.exportAlloc = true := by
        unfold allocateBuffer at halloc
        rw [if_neg hpos.ne'] at halloc
        split_ifs at halloc with hyes
        exact hyes
      have hfail : ((s.atExports c).ipc.exportCopies ⟨s.ipc.ipcGetExportDataSize, c.exportFresh⟩).1 = false :=
        (IpcState.exportCopies_fst _ _).trans (hkeeps hpos (by simpa using hsync) hallocated)
      rw [saveExports_eq (s := s.atExports c) hfns hbuf hpos (Nat.le_refl _), hfail] at h
      obtain rfl := Except.error.inj h
      obtain ⟨hintact', hsame'⟩ := hintact.saveExports hfns (Nat.le_refl _) hfail
      exact ⟨hintact', hsame.trans hsame'⟩
  · obtain rfl := Except.error.inj h
    exact ⟨hintact, hsame⟩

/-- One prepare that returns `-1` with the exports kept. -/
theorem retryable_of_failed (hs : s.Retryable t) (hfns : s.ipc.fns.Resolved) (hret : (t.gcrCheckpointPrepare c).1 = -1)
    (hkeeps : t.KeepsExports c) : s.Retryable (t.gcrCheckpointPrepare c).2 := by
  have hflag := (t.prepare_spec c).1
  rw [hs.prepared, hret] at hflag
  have hfns' : t.ipc.fns.Resolved := hs.tracked.fns ▸ hfns
  unfold gcrCheckpointPrepare at hret hflag ⊢
  rw [hs.prepared, if_neg Bool.false_ne_true] at hret hflag ⊢
  unfold prepareRun at hret hflag ⊢
  cases hrun : t.teardownRun c with
  | ok u =>
    rw [hrun] at hret
    exact absurd (show (0 : Int) = -1 from hret) (by decide)
  | error u =>
    rw [hrun] at hflag
    obtain ⟨hintact, hsame⟩ := intact_of_error hs.intact hfns' hkeeps hrun
    exact ⟨hintact, hs.tracked.trans hsame, hflag⟩

/-- Any number of them. -/
theorem retryable_of_retries (hs : s.ipc.Intact) (hfns : s.ipc.fns.Resolved) (hprep : s.prepared = false)
    {cs : List PrepareAnswers}
    (hall : AllSteps (fun t c => (t.gcrCheckpointPrepare c).1 = -1 ∧ t.KeepsExports c)
      (fun t c => (t.gcrCheckpointPrepare c).2) s cs) :
    s.Retryable (run (fun t c => (t.gcrCheckpointPrepare c).2) s cs) := by
  have hstep : ∀ (t : GcrProcess) (c : PrepareAnswers), s.Retryable t →
      (t.gcrCheckpointPrepare c).1 = -1 ∧ t.KeepsExports c → s.Retryable (t.gcrCheckpointPrepare c).2 :=
    fun _ _ ht hc => retryable_of_failed ht hfns hc.1 hc.2
  exact invariant_of_allSteps hstep ⟨hs, ⟨rfl, rfl, rfl, rfl⟩, hprep⟩ hall cs List.prefix_rfl

end Failed

/-! ### What a successful prepare keeps -/

/-- No result of a copy is lost. Every local allocation is unmapped, and their handles ascend device by device. -/
structure SavesAll (s : GcrProcess) (c : PrepareAnswers) : Prop where
  ascend : s.ipc.DevicesAscend
  exports : ∀ buf, (s.atExports c).exportData = some buf → (s.atExports c).ipc.ExportResultsSeen buf
  locals : ∀ t buf, (s.atExports c).saveExports = .ok t → (t.atLocals c).localData = some buf →
    t.ipc.LocalResultsSeen buf ∧ (t.ipc.afterLocalCopies buf).Answers t.ipc.localTargets

section Saved
variable {s t : GcrProcess} {c : PrepareAnswers}

theorem exportsParked (hfns : s.ipc.fns.Resolved) (hs : s.ipc.Intact)
    (hbuf : ∀ buf, s.exportData = some buf → buf.size = s.ipc.ipcGetExportDataSize ∧ 0 < buf.size)
    (hnone : s.exportData = none → s.ipc.ipcGetExportDataSize = 0)
    (hseen : ∀ buf, s.exportData = some buf → s.ipc.ExportResultsSeen buf) (h : s.saveExports = .ok t) :
    (∀ rec ∈ s.ipc.exports, rec.hasMapping = true →
        s.ipc.drv.accessible rec.mappedVaddr rec.mappedSize = true) ∧
      ((t.exportData = none ∧ ∀ rec ∈ s.ipc.exports, rec.hasMapping = false) ∨
        ∃ buf, t.exportData = some buf ∧ 0 < buf.size ∧ s.ipc.ipcGetExportDataSize ≤ buf.size ∧
          IpcState.Copied s.ipc t.ipc buf) := by
  have hactive : ∀ rec ∈ s.ipc.exports, rec.hasMapping = true → rec.active = true := by
    intro rec hrec hmap
    obtain ⟨m, hm, -, hsz⟩ := Driver.exists_mapping (hs.exports.mapped rec hrec hmap)
    have := s.ipc.drv.maps_pos m hm
    simp only [IpcExportRecord.active, hs.exports.live rec hrec, hmap, Bool.not_false, Bool.and_self, Bool.true_and,
      decide_eq_true_eq]
    omega
  cases hb : s.exportData with
  | none =>
    rw [saveExports_none hb] at h
    obtain rfl := Except.ok.inj h
    have hno : ∀ rec ∈ s.ipc.exports, rec.hasMapping = false := by
      intro rec hrec
      by_contra hmap
      rw [Bool.not_eq_false] at hmap
      have hpos := hactive rec hrec hmap
      rw [IpcExportRecord.active, IpcState.mappedSize_eq_zero (hnone hb) hrec (hs.exports.live rec hrec) hmap] at hpos
      simp at hpos
    refine ⟨fun rec hrec hmap => ?_, Or.inl ⟨hb, hno⟩⟩
    rw [hno rec hrec] at hmap
    exact absurd hmap Bool.false_ne_true
  | some buf =>
    obtain ⟨hsize, hpos⟩ := hbuf buf hb
    rw [saveExports_eq hfns hb hpos hsize.ge] at h
    split_ifs at h with hcopies
    obtain rfl := Except.ok.inj h
    have hcan : s.ipc.copiesExports buf = true := by
      simp only [IpcState.copiesExports, hfns.release, hfns.dtoh, Bool.and_self, Bool.true_and, decide_eq_true_eq,
        IpcState.totalNeeded_eq]
      exact hsize.ge
    have hall := (s.ipc.exportCopies_allSaved_iff buf).2 (hseen buf hb hcan) hcopies
    obtain ⟨-, hsize', hcopied⟩ := IpcState.copied_of_ok hfns hsize.ge hcopies hall
    refine ⟨fun rec hrec hmap => ?_, Or.inr ⟨_, rfl, hsize' ▸ hpos, by rw [hsize', hsize], hcopied⟩⟩
    obtain ⟨i, hi⟩ := List.mem_iff_getElem?.1 hrec
    obtain ⟨x, hx, -, hva, hsz⟩ := IpcState.exists_slot_of_active hi (hactive rec hrec hmap)
    rw [← hva, ← hsz]
    exact accessible_of_saveGroups _ _ _ (s.ipc.drv.same_pinHost s.ipc.fns s.ipc.totalNeeded) hcopies x hx

theorem localsParked (hfns : s.ipc.fns.Resolved) (hpos : ∀ e ∈ s.ipc.localEntries, 0 < e.size)
    (hbuf : ∀ buf, s.localData = some buf → buf.size = s.ipc.ipcGetLocalAllocDataSize ∧ 0 < buf.size)
    (hnone : s.localData = none → s.ipc.ipcGetLocalAllocDataSize = 0) (hasc : s.ipc.DevicesAscend)
    (hseen : ∀ buf, s.localData = some buf → s.ipc.LocalResultsSeen buf) (h : s.saveLocals = .ok t) :
    (t.localData = none ∧ s.ipc.localEntries = []) ∨
      ∃ buf, t.localData = some buf ∧ 0 < buf.size ∧ s.ipc.ipcGetLocalAllocDataSize ≤ buf.size ∧
        t.ipc.localAllocs = s.ipc.localEntries.map (fun e => { e.record with tornDown := true }) ∧
        ∀ x ∈ place (·.size) 0 s.ipc.localEntries, ∀ i < x.1.size,
          buf.data (x.2 + i) = s.ipc.drv.mem (x.1.vaddr + i) := by
  cases hb : s.localData with
  | none =>
    rw [saveLocals_none hb] at h
    obtain rfl := Except.ok.inj h
    refine Or.inl ⟨hb, List.eq_nil_iff_forall_not_mem.2 fun e he => ?_⟩
    have := hpos e he
    have := IpcState.size_eq_zero (hnone hb) he
    omega
  | some buf =>
    obtain ⟨hsize, hposBuf⟩ := hbuf buf hb
    rw [saveLocals_eq hfns hb hposBuf hsize.ge] at h
    split_ifs at h with hcopies
    obtain rfl := Except.ok.inj h
    have hcan : s.ipc.copiesLocals buf = true := by
      simp only [IpcState.copiesLocals, hfns.release, hfns.dtoh, Bool.and_self, Bool.true_and, decide_eq_true_eq]
      exact hsize.ge
    have hall := (s.ipc.localCopies_allSaved_iff buf).2 (hseen buf hb hcan) hcopies
    obtain ⟨hrecs, hbytes⟩ := IpcState.saveLocals_copied hfns hsize.ge hcopies hall hasc
    have hsize' := congrArg HostBuf.size (IpcState.saveLocals_buf hfns hsize.ge)
    exact Or.inr ⟨_, rfl, hsize' ▸ hposBuf, hsize'.ge.trans' hsize.ge, hrecs, hbytes⟩

theorem exportData_saveLocals (h : s.saveLocals = .ok t) : t.exportData = s.exportData := by
  unfold saveLocals at h
  split at h
  · exact Except.ok.inj h ▸ rfl
  · dsimp only at h
    split_ifs at h
    · exact Except.ok.inj h ▸ rfl
    · exact Except.ok.inj h ▸ rfl

/-- What a teardown leaves that comes to its end. -/
theorem parked_of_run (hs : s.ipc.Intact) (hfns : s.ipc.fns.Resolved) (hsaves : s.SavesAll c)
    (h : s.teardownRun c = .ok t) :
    IpcState.Parked (s.atExports c).ipc t.ipc t.exportData t.localData := by
  obtain ⟨hintact, hsame⟩ := intact_atExports hs hfns c
  obtain ⟨u, halloc, hsave, halloc', hsave'⟩ := teardownRun_ok hfns h
  have hfns' : u.ipc.fns.Resolved := by
    have hkept := (s.atExports c).kept_saveExports
    rw [hsave] at hkept
    have heq : u.ipc.fns = s.ipc.fns := hkept.fns
    exact heq ▸ hfns
  have hbuf : ∀ buf, (s.atExports c).exportData = some buf →
      buf.size = (s.atExports c).ipc.ipcGetExportDataSize ∧ 0 < buf.size := by
    intro buf hbuf
    obtain ⟨rfl, hpos⟩ := allocateBuffer_some hbuf
    exact ⟨rfl, hpos⟩
  have hbuf' : ∀ buf, (u.atLocals c).localData = some buf →
      buf.size = (u.atLocals c).ipc.ipcGetLocalAllocDataSize ∧ 0 < buf.size := by
    intro buf hbuf
    obtain ⟨rfl, hpos⟩ := allocateBuffer_some hbuf
    exact ⟨rfl, hpos⟩
  have hexp := exportsPassed (s := s.atExports c) hfns hbuf (fun hnone => allocateBuffer_none halloc hnone) hsave
  have hloc := localsPassed (s := u.atLocals c) hfns' hbuf' (fun hnone => allocateBuffer_none halloc' hnone) hsave'
  have hentries : u.ipc.localEntries = (s.atExports c).ipc.localEntries := hexp.locals
  obtain ⟨hreadable, hexports⟩ := exportsParked (s := s.atExports c) hfns hintact hbuf
    (fun hnone => allocateBuffer_none halloc hnone) hsaves.exports hsave
  have hlocals := localsParked (s := u.atLocals c) hfns'
    (fun e he => (s.atExports c).ipc.drv.maps_pos _ (hintact.locals e (hentries ▸ he))) hbuf'
    (fun hnone => allocateBuffer_none halloc' hnone)
    (fun e he e' he' => hsaves.ascend e (hsame.locals ▸ hentries ▸ he) e' (hsame.locals ▸ hentries ▸ he'))
    (fun buf hbuf => (hsaves.locals u buf hsave hbuf).1) hsave'
  have hshrunk : (s.atExports c).ipc.drv.Shrunk t.ipc.drv := hexp.shrunk.trans hloc.shrunk
  refine ⟨hshrunk.maps, hshrunk.mem, hreadable, ?_, ?_, fun e he m hm hva => ?_⟩
  · rw [exportData_saveLocals hsave']
    exact hexports.imp id fun ⟨buf, hb, hpos, hsize, hcopied⟩ => ⟨buf, hb, hpos, hsize, hcopied.congr hloc.exports⟩
  · refine hlocals.imp (fun ⟨hb, hnil⟩ => ⟨hb, hentries ▸ hnil⟩) fun ⟨buf, hb, hpos, hsize, hrecs, hbytes⟩ => ?_
    have hmem : (u.atLocals c).ipc.drv.mem = (s.atExports c).ipc.drv.mem := hexp.shrunk.mem
    rw [hmem] at hbytes
    unfold IpcState.ipcGetLocalAllocDataSize at hsize
    rw [← hentries]
    refine ⟨buf, hb, hpos, ?_, hrecs, hbytes⟩
    unfold IpcState.ipcGetLocalAllocDataSize
    rw [← hentries]
    exact hsize
  · have heq := Driver.eq_of_va_eq (hshrunk.maps m hm) (hintact.locals e he) hva
    have hat := Driver.mappedAt_of_mem hm
    rw [heq, hloc.unmapped (fun buf hbuf => (hsaves.locals u buf hsave hbuf).2) e (hentries ▸ he)] at hat
    exact absurd hat Bool.false_ne_true

end Saved

/-! ### Tried until it succeeds -/

section Restored
variable {s : GcrProcess}

theorem rebuildExports_ok (hfns : s.ipc.fns.Rebuildable) :
    ∃ t, s.rebuildExports = .ok t ∧ t.ipc = s.ipc.rebuiltExports s.exportData ∧ t.localData = s.localData := by
  unfold rebuildExports IpcState.rebuiltExports
  cases s.exportData with
  | none => exact ⟨s, rfl, rfl, rfl⟩
  | some buf =>
    dsimp only
    split_ifs with hzero hsome
    · exact ⟨s, rfl, rfl, rfl⟩
    · exact ⟨_, rfl, rfl, rfl⟩
    · refine absurd ?_ hsome
      unfold IpcState.ipcRebuildAndRestoreAllExports
      rw [hfns.create, hfns.map, hfns.htod, hfns.reserve]
      rfl

theorem rebuildLocals_ok (hfns : s.ipc.fns.Rebuildable) :
    ∃ t, s.rebuildLocals = .ok t ∧ t.ipc = s.ipc.rebuiltLocals s.localData := by
  unfold rebuildLocals IpcState.rebuiltLocals
  cases s.localData with
  | none => exact ⟨s, rfl, rfl⟩
  | some buf =>
    dsimp only
    split_ifs with hzero hsome
    · exact ⟨s, rfl, rfl⟩
    · exact ⟨_, rfl, rfl⟩
    · refine absurd ?_ hsome
      unfold IpcState.ipcRebuildLocalAllocs
      rw [hfns.create, hfns.map, hfns.htod]
      rfl

/-- Nothing in `restore_export` but the two rebuilds changes the tables. -/
theorem restoreExport_ipc (hfns : s.ipc.fns.Rebuildable) (r : RestoreExportAnswers) :
    (s.gcrCheckpointRestoreExport r).2.ipc =
      ((s.ipc.withEnv r.env).rebuiltExports s.exportData).rebuiltLocals s.localData := by
  obtain ⟨t, ht, hipc, hdata⟩ := rebuildExports_ok (s := s.setIpc (s.ipc.withEnv r.env)) hfns
  have hkept := kept_rebuildExports (s.setIpc (s.ipc.withEnv r.env))
  rw [ht] at hkept
  have hfns' : t.ipc.fns = s.ipc.fns := hkept.fns
  obtain ⟨u, hu, hipc'⟩ := rebuildLocals_ok (s := t) (hfns' ▸ hfns)
  have hpublish : (result (u.publish r)).2.ipc = u.ipc := by
    unfold publish
    split_ifs <;> rfl
  have hrun : s.restoreExportRun r = u.publish r := by
    unfold restoreExportRun
    rw [ht]
    show t.rebuildLocals >>= _ = _
    rw [hu]
    rfl
  unfold gcrCheckpointRestoreExport
  rw [hrun, hpublish, hipc', hipc, hdata]
  rfl

/-- A prepare that is tried again until it returns `0`, then `restore_export`. -/
def retried (s : GcrProcess) (cs : List PrepareAnswers) (c : PrepareAnswers) (r : RestoreExportAnswers) : GcrProcess :=
  (((run (fun t c => (t.gcrCheckpointPrepare c).2) s cs).gcrCheckpointPrepare c).2.gcrCheckpointRestoreExport r).2

/-- **A prepare may be tried again** as long as no failed one has torn the exports down: after the prepare that succeeds
and saves everything, `restore_export` brings back what was mapped before the first. -/
theorem readsAs_of_retries (hs : s.ipc.Intact) (hfns : s.ipc.fns.Resolved) (hback : s.ipc.fns.Rebuildable)
    (hprep : s.prepared = false) (cs : List PrepareAnswers)
    (hfailed : AllSteps (fun t c => (t.gcrCheckpointPrepare c).1 = -1 ∧ t.KeepsExports c)
      (fun t c => (t.gcrCheckpointPrepare c).2) s cs)
    (c : PrepareAnswers) (hret : ((run (fun t c => (t.gcrCheckpointPrepare c).2) s cs).gcrCheckpointPrepare c).1 = 0)
    (hsaves : (run (fun t c => (t.gcrCheckpointPrepare c).2) s cs).SavesAll c)
    (r : RestoreExportAnswers) (henv : r.env.Reliable) : s.ipc.ReadsAs (s.retried cs c r).ipc := by
  have hretry := retryable_of_retries hs hfns hprep hfailed
  unfold retried
  generalize run (fun t c => (t.gcrCheckpointPrepare c).2) s cs = t at hret hsaves hretry
  have hfns' : t.ipc.fns.Resolved := hretry.tracked.fns ▸ hfns
  have hfinal := (t.prepare_spec c).2.trans hretry.tracked.fns
  obtain ⟨hintact, hsame⟩ := intact_atExports hretry.intact hfns' c
  have hparked : IpcState.Parked (t.atExports c).ipc (t.gcrCheckpointPrepare c).2.ipc
      (t.gcrCheckpointPrepare c).2.exportData (t.gcrCheckpointPrepare c).2.localData := by
    unfold gcrCheckpointPrepare at hret ⊢
    rw [hretry.prepared, if_neg Bool.false_ne_true] at hret ⊢
    unfold prepareRun at hret ⊢
    cases hrun : t.teardownRun c with
    | error u =>
      rw [hrun] at hret
      exact absurd (show (-1 : Int) = 0 from hret) (by decide)
    | ok u =>
      have hparked := parked_of_run hretry.intact hfns' hsaves hrun
      exact hparked
  rw [restoreExport_ipc (hfinal ▸ hback)]
  refine (hretry.tracked.trans hsame).readsAs ?_
  refine (hparked.withEnv r.env).back hintact henv ?_
  exact hfinal ▸ hback

end Restored

/-! ### An export and a local allocation -/

def pairEvents : List GcrEvent :=
  exportEvents ++ [.call (.create 8 1 ⟨0⟩), .call (.map 0x20000 8 4), .call (.setAccess 0x20000 8 [⟨1, 0, 3⟩])]

/-- The device does not synchronize. -/
def unsynchronized : PrepareAnswers := { answering fun _ => false with deviceSync := false }

/-- The events are not torn down. -/
def eventsFail : PrepareAnswers := { answering fun _ => false with events := false }

theorem intact_pairEvents : (run step start pairEvents).ipc.Intact :=
  ⟨⟨by decide, by decide, by decide⟩, by decide, by decide⟩

theorem savesAll_pairEvents :
    (run (fun t c => (t.gcrCheckpointPrepare c).2) (run step start pairEvents) [unsynchronized]).SavesAll
      (answering fun _ => false) := by
  refine ⟨?_, fun buf hbuf _ _ => Or.inr (by decide), fun t buf ht hbuf => ?_⟩
  · unfold IpcState.DevicesAscend
    decide
  · obtain rfl := Except.ok.inj ht
    refine ⟨fun _ _ => ?_, rfl, trivial⟩
    decide

theorem readsAs_pairEvents : (run step start pairEvents).ipc.ReadsAs
    ((run step start pairEvents).retried [unsynchronized] (answering fun _ => false) restoring).ipc :=
  readsAs_of_retries intact_pairEvents ⟨rfl, rfl, rfl⟩ ⟨rfl, rfl, rfl, rfl, rfl, rfl⟩ rfl [unsynchronized]
    ⟨⟨by decide, fun _ h => absurd h (by decide)⟩, trivial⟩ (answering fun _ => false) (by decide) savesAll_pairEvents
    restoring fun _ => rfl

/-- After a prepare that gets no further than the events, the next one saves no export and releases the buffer with
the bytes of the first. No call of the driver fails in all this. -/
theorem not_readsAs_of_retries : ¬ ∀ (s : GcrProcess) (cs : List PrepareAnswers) (c : PrepareAnswers)
    (r : RestoreExportAnswers), s.ipc.Intact → s.ipc.fns.Resolved → s.ipc.fns.Rebuildable → s.prepared = false →
      AllSteps (fun t c => (t.gcrCheckpointPrepare c).1 = -1) (fun t c => (t.gcrCheckpointPrepare c).2) s cs →
      ((run (fun t c => (t.gcrCheckpointPrepare c).2) s cs).gcrCheckpointPrepare c).1 = 0 → r.env.Reliable →
        s.ipc.ReadsAs (s.retried cs c r).ipc := by
  intro h
  have hread := (h (run step start pairEvents) [eventsFail] (answering fun _ => false) restoring intact_pairEvents
    ⟨rfl, rfl, rfl⟩ ⟨rfl, rfl, rfl, rfl, rfl, rfl⟩ rfl ⟨by decide, trivial⟩ (by decide) fun _ => rfl).exports
  have hacc : ∀ rec ∈ (run step start pairEvents).ipc.exports, rec.hasMapping = true →
      ((run step start pairEvents).retried [eventsFail] (answering fun _ => false) restoring).ipc.drv.accessible
        rec.mappedVaddr rec.mappedSize = true := fun rec hrec hmap => (hread rec hrec hmap).1
  revert hacc
  decide

end GcrProcess

end GpuCr
