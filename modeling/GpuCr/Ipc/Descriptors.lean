import GpuCr.Lib.FdTable
import GpuCr.Ipc.ExportCycle
import GpuCr.Ipc.Live

/-!
# The descriptors of exports

The number of an exported descriptor goes to the application and into the export record. The teardown
closes the number in the record, and the rebuild opens a new one. Nothing intercepts `close`, so the
number in the record is that of the export for as long as the application keeps it open.
-/

namespace GpuCr

open Lib Lib.Run Lib.Grouping Lib.Layout Std
open HookedProcess (posixFileDescriptor)

/-- What a descriptor refers to: the memory of `handle`, shared for the export record at `record`, or
something else. -/
inductive FdObject where
  | shared (record handle : Nat)
  | other
  deriving DecidableEq, Repr

/-- The next number the driver picks is `n`. -/
def IpcState.withPick (s : IpcState) (n : Nat) : IpcState :=
  { s with drv := { s.drv with env := { s.drv.env with pick := Function.update s.drv.env.pick s.drv.clock n } } }

structure FdProcess where
  hooks : HookedProcess
  fds : FdTable FdObject

inductive DescriptorEvent where
  | openFile
  | closeFile (n : Nat)
  | call (c : HookCall)
  | save (buf : HostBuf)
  | rebuild (buf : HostBuf)

namespace FdProcess

/-- The hooked call. A descriptor that it exports has the lowest free number. -/
def call (s : FdProcess) : HookCall → FdProcess
  | .exportHandle handle handleType =>
    let ipc := s.hooks.ipc.withPick s.fds.lowest
    let opened := ipc.fns.cuMemExport && (ipc.drv.cuMemExportToShareableHandle handle).1.isSome &&
      handleType == posixFileDescriptor
    { hooks := ({ s.hooks with ipc := ipc } : HookedProcess).call (.exportHandle handle handleType)
      fds := if opened then s.fds.alloc (.shared ipc.exports.length handle) else s.fds }
  | c => { s with hooks := s.hooks.call c }

/-- `close(rec.exported_fd)` in step 2 of the save. -/
def closeExport (fds : FdTable FdObject) (rec : IpcExportRecord) : FdTable FdObject :=
  if rec.tornDown then fds else if 0 ≤ rec.exportedFd then fds.close rec.exportedFd.toNat else fds

/-- A save that fails comes back before step 2. -/
def save (s : FdProcess) (buf : HostBuf) : FdProcess :=
  let r := s.hooks.ipc.ipcSaveAndTeardownAllExports buf
  { hooks := { s.hooks with ipc := r.2.1 }
    fds := if r.1.isSome then s.hooks.ipc.exports.foldl closeExport s.fds else s.fds }

/-- Phase C for one entry. Memory that is shared without a descriptor leaves some number in the record. -/
def reexport (x : IpcState × FdTable FdObject) (e : RebuildEntry) : IpcState × FdTable FdObject :=
  match x.1.exports[e.slot.key]? with
  | none => x
  | some rec =>
    if x.1.fns.cuMemExport && (x.1.drv.calls 1).1 && rec.handleType == posixFileDescriptor then
      ((x.1.withPick x.2.lowest).trackExport e, x.2.alloc (.shared e.slot.key e.newHandle))
    else (x.1.trackExport e, x.2)

/-- `ipc_rebuild_and_restore_all_exports`, with the numbers that the kernel gives out. -/
def rebuild (s : FdProcess) (buf : HostBuf) : FdProcess :=
  let ipc := s.hooks.ipc
  if !(ipc.fns.cuMemCreate && ipc.fns.cuMemMap && ipc.fns.cuMemcpyHtoD && ipc.fns.cuMemAddressReserve) then s
  else
    let a := rebuildAlloc ipc.exportItems ipc.drv
    let c := rebuildCopy ipc.fns buf a
    let r := a.ordered.foldl reexport ({ ipc with drv := c.drv }, s.fds)
    { hooks := { s.hooks with ipc := r.1.forget true a.entries }, fds := r.2 }

def step (s : FdProcess) : DescriptorEvent → FdProcess
  | .openFile => { s with fds := s.fds.alloc .other }
  | .closeFile n => { s with fds := s.fds.close n }
  | .call c => s.call c
  | .save buf => s.save buf
  | .rebuild buf => s.rebuild buf

/-! ### The property and the condition -/

/-- The descriptor is one of the record's memory. -/
def Refers (fds : FdTable FdObject) (i : Nat) (rec : IpcExportRecord) : Prop :=
  ∃ h, fds.get rec.exportedFd.toNat = some (.shared i h) ∧ (rec.localHandle = h ∨ rec.localHandle = 0)

/-- Every close of the loop finds the record's own descriptor. -/
def OwnCloses : FdTable FdObject → List (IpcExportRecord × Nat) → Prop
  | _, [] => True
  | fds, r :: rs => (r.1.tornDown = false → 0 ≤ r.1.exportedFd → Refers fds r.2 r.1) ∧
    OwnCloses (closeExport fds r.1) rs

/-- The application does not close a number that a live record has, and what is rebuilt is shared by
descriptors. -/
def KeepsFds (s : FdProcess) : DescriptorEvent → Prop
  | .closeFile n => ∀ rec ∈ s.hooks.ipc.exports, rec.tornDown = false → rec.exportedFd ≠ n
  | .rebuild _ => ∀ rec ∈ s.hooks.ipc.exports, rec.tornActive = true → rec.hasSavedProp = true →
    rec.handleType = posixFileDescriptor
  | _ => True

/-- The number in every live record is that of the record's own descriptor. -/
def Owned (s : FdProcess) : Prop := ∀ (i : Nat) (rec : IpcExportRecord), s.hooks.ipc.exports[i]? = some rec →
  rec.tornDown = false → 0 ≤ rec.exportedFd → Refers s.fds i rec

end FdProcess

/-! ### What a hooked call leaves of the records -/

/-- The descriptor of the record is the same, and its handle is or has been released. -/
structure IpcExportRecord.SameFd (rec rec' : IpcExportRecord) : Prop where
  fd : rec'.exportedFd = rec.exportedFd
  torn : rec'.tornDown = rec.tornDown
  type : rec'.handleType = rec.handleType
  handle : rec'.localHandle = rec.localHandle ∨ rec'.localHandle = 0

theorem IpcExportRecord.SameFd.refl (rec : IpcExportRecord) : rec.SameFd rec := ⟨rfl, rfl, rfl, Or.inl rfl⟩

theorem IpcExportRecord.SameFd.trans {a b c : IpcExportRecord} (h : a.SameFd b) (h' : b.SameFd c) : a.SameFd c := by
  refine ⟨h'.fd.trans h.fd, h'.torn.trans h.torn, h'.type.trans h.type, ?_⟩
  rcases h'.handle with heq | heq
  · rw [heq]
    exact h.handle
  · exact Or.inr heq

namespace HookedProcess

theorem sameFd_dropHandle (k : Nat) (rec : IpcExportRecord) : rec.SameFd (rec.dropHandle k) := by
  unfold IpcExportRecord.dropHandle
  split_ifs
  · exact ⟨rfl, rfl, rfl, Or.inr rfl⟩
  · exact .refl rec

theorem sameFd_giveMapping (ptr size handle : Nat) (rec : IpcExportRecord) : rec.SameFd (giveMapping ptr size handle rec) := by
  unfold giveMapping
  split_ifs
  · exact ⟨rfl, rfl, rfl, Or.inl rfl⟩
  · exact .refl rec

theorem recordRelease_exports (s : HookedProcess) (d : Driver) (handle actual : Nat) :
    (s.recordRelease d handle actual).ipc.exports = s.ipc.exports.map fun rec =>
      if actual ≠ handle then (rec.dropHandle handle).dropHandle actual else rec.dropHandle handle := by
  unfold recordRelease
  dsimp only
  split_ifs
  · exact List.map_map
  · rfl

theorem call_exports (s : HookedProcess) {c : HookCall} (hc : ∀ handle type, c ≠ .exportHandle handle type) {i : Nat}
    {rec' : IpcExportRecord} (hrec' : (s.call c).ipc.exports[i]? = some rec') :
    ∃ rec, s.ipc.exports[i]? = some rec ∧ rec.SameFd rec' := by
  have hmap : ∀ f : IpcExportRecord → IpcExportRecord, (∀ rec, IpcExportRecord.SameFd rec (f rec)) →
      (s.ipc.exports.map f)[i]? = some rec' → ∃ rec, s.ipc.exports[i]? = some rec ∧ rec.SameFd rec' := by
    intro f hf h
    rw [List.getElem?_map] at h
    obtain ⟨rec, hrec, rfl⟩ := Option.map_eq_some_iff.1 h
    exact ⟨rec, hrec, hf rec⟩
  have heff := s.call_effect c
  generalize s.call c = s' at heff hrec'
  cases heff with
  | rejected hd => exact ⟨rec', hrec', .refl rec'⟩
  | plain hd => exact ⟨rec', hrec', .refl rec'⟩
  | created hd hpos => exact ⟨rec', hrec', .refl rec'⟩
  | exported hd _ hfd => exact absurd rfl (hc _ _)
  | imported hd => exact ⟨rec', hrec', .refl rec'⟩
  | mapped hd =>
    rw [recordMap_exports] at hrec'
    refine hmap _ (fun rec => ?_) hrec'
    split_ifs
    · exact sameFd_giveMapping ..
    · exact .refl rec
  | unmapped hd => exact ⟨rec', hrec', .refl rec'⟩
  | released hd =>
    rw [recordRelease_exports] at hrec'
    refine hmap _ (fun rec => ?_) hrec'
    split_ifs
    · exact (sameFd_dropHandle _ rec).trans (sameFd_dropHandle ..)
    · exact sameFd_dropHandle ..
  | access hd =>
    rw [getElem?_recordAccess_exports] at hrec'
    obtain ⟨rec, hrec, rfl⟩ := Option.map_eq_some_iff.1 hrec'
    refine ⟨rec, hrec, ?_⟩
    split_ifs
    · exact ⟨rfl, rfl, rfl, Or.inl rfl⟩
    · exact .refl rec

end HookedProcess

/-! ### The descriptors stay with their records -/

namespace FdProcess

section Owned
variable {s : FdProcess}

theorem Refers.sameFd {fds : FdTable FdObject} {i : Nat} {rec rec' : IpcExportRecord} (h : Refers fds i rec)
    (hsame : rec.SameFd rec') : Refers fds i rec' := by
  obtain ⟨k, hget, hk⟩ := h
  refine ⟨k, hsame.fd ▸ hget, ?_⟩
  rcases hsame.handle with heq | heq
  · rwa [heq]
  · exact Or.inr heq

theorem Refers.alloc {fds : FdTable FdObject} {i : Nat} {rec : IpcExportRecord} (h : Refers fds i rec) (o : FdObject) :
    Refers (fds.alloc o) i rec := by
  obtain ⟨k, hget, hk⟩ := h
  refine ⟨k, ?_, hk⟩
  rw [FdTable.get_alloc, if_neg, hget]
  intro heq
  rw [heq, FdTable.get_lowest] at hget
  exact absurd hget (by simp)

theorem Owned.closeFile (h : s.Owned) {n : Nat} (hok : s.KeepsFds (.closeFile n)) : (s.step (.closeFile n)).Owned := by
  intro i rec hrec htorn hfd
  obtain ⟨k, hget, hk⟩ := h i rec hrec htorn hfd
  have hne := hok rec (List.mem_of_getElem? hrec) htorn
  refine ⟨k, ?_, hk⟩
  show (s.fds.close n).get _ = _
  rw [FdTable.get_close, if_neg (by omega), hget]

theorem cuMemExport_withPick (ipc : IpcState) (n handle : Nat) :
    ∃ d, (ipc.withPick n).drv.cuMemExportToShareableHandle handle = (none, d) ∨
      (ipc.withPick n).drv.cuMemExportToShareableHandle handle = (some (n : Int), d) := by
  have hpick : (ipc.withPick n).drv.env.pick (ipc.withPick n).drv.clock = n := Function.update_self ..
  unfold Driver.cuMemExportToShareableHandle
  dsimp only
  rw [hpick]
  cases ((ipc.withPick n).drv.call ((ipc.withPick n).drv.isLive handle) id).1 with
  | false => exact ⟨_, Or.inl rfl⟩
  | true => exact ⟨_, Or.inr rfl⟩

theorem exportHandle_cases (s : FdProcess) (handle type : Nat) :
    ((s.call (.exportHandle handle type)).hooks.ipc.exports = s.hooks.ipc.exports ∧
        (s.call (.exportHandle handle type)).fds = s.fds) ∨
      ∃ rec : IpcExportRecord, (s.call (.exportHandle handle type)).hooks.ipc.exports = s.hooks.ipc.exports ++ [rec] ∧
        rec.handleType = type ∧ rec.tornDown = false ∧ rec.localHandle = handle ∧
        (type = posixFileDescriptor ∧ rec.exportedFd = s.fds.lowest ∧
            (s.call (.exportHandle handle type)).fds = s.fds.alloc (.shared s.hooks.ipc.exports.length handle) ∨
          rec.exportedFd = -1 ∧ (s.call (.exportHandle handle type)).fds = s.fds) := by
  unfold call
  dsimp only
  have hcall : ∀ p : HookedProcess, p.call (.exportHandle handle type) = p.hookCuMemExportToShareableHandle handle type :=
    fun _ => rfl
  rw [hcall, HookedProcess.hookCuMemExportToShareableHandle]
  dsimp only
  obtain ⟨d, hnone | hsome⟩ := cuMemExport_withPick s.hooks.ipc s.fds.lowest handle
  · rw [hnone]
    simp only [Option.isSome_none, Bool.and_false, Bool.false_and, Bool.false_eq_true, if_false]
    refine Or.inl ⟨?_, trivial⟩
    split_ifs <;> rfl
  · rw [hsome]
    cases hfn : (s.hooks.ipc.withPick s.fds.lowest).fns.cuMemExport with
    | false => exact Or.inl ⟨rfl, rfl⟩
    | true =>
      simp only [Bool.not_true, Bool.false_eq_true, if_false, Option.isSome_some, Bool.true_and, beq_iff_eq]
      refine Or.inr ⟨_, rfl, rfl, rfl, rfl, ?_⟩
      by_cases htype : type = posixFileDescriptor
      · simp only [if_pos htype]
        exact Or.inl ⟨htype, rfl, rfl⟩
      · simp only [if_neg htype]
        exact Or.inr ⟨rfl, trivial⟩

theorem Owned.exportHandle (h : s.Owned) (handle type : Nat) : (s.call (.exportHandle handle type)).Owned := by
  intro i rec' hrec' htorn hfd
  rcases s.exportHandle_cases handle type with ⟨hexports, hfds⟩ | ⟨rec, hexports, -, -, hhandle, hfds⟩
  · rw [hexports] at hrec'
    rw [hfds]
    exact h i rec' hrec' htorn hfd
  · rw [hexports] at hrec'
    rcases Nat.lt_trichotomy i s.hooks.ipc.exports.length with hi | rfl | hi
    · rw [List.getElem?_append_left hi] at hrec'
      have hold := h i rec' hrec' htorn hfd
      rcases hfds with ⟨-, -, hfds⟩ | ⟨-, hfds⟩
      · rw [hfds]
        exact hold.alloc _
      · rw [hfds]
        exact hold
    · rw [List.getElem?_concat_length] at hrec'
      obtain rfl := Option.some.inj hrec'
      rcases hfds with ⟨-, hnum, hfds⟩ | ⟨hnum, -⟩
      · refine ⟨handle, ?_, Or.inl hhandle⟩
        rw [hfds, hnum, Int.toNat_natCast, FdTable.get_alloc, if_pos rfl]
      · omega
    · rw [List.getElem?_eq_none (by rw [List.length_append]; exact hi)] at hrec'
      exact absurd hrec' (by simp)

theorem Owned.call (h : s.Owned) (c : HookCall) : (s.call c).Owned := by
  by_cases hc : ∃ handle type, c = .exportHandle handle type
  · obtain ⟨handle, type, rfl⟩ := hc
    exact h.exportHandle handle type
  · have hcall : s.call c = { s with hooks := s.hooks.call c } := by
      unfold FdProcess.call
      split
      · exact absurd ⟨_, _, rfl⟩ hc
      · rfl
    rw [hcall]
    intro i rec' hrec' htorn hfd
    obtain ⟨rec, hrec, hsame⟩ := s.hooks.call_exports (fun handle type heq => hc ⟨handle, type, heq⟩) hrec'
    exact (h i rec hrec (hsame.torn ▸ htorn) (hsame.fd ▸ hfd)).sameFd hsame

/-- A save that fails leaves the descriptors in the records; one that succeeds leaves none in a live
record. -/
theorem save_exports (ipc : IpcState) (buf : HostBuf) :
    ((ipc.ipcSaveAndTeardownAllExports buf).1 = none ∧ ∀ (i : Nat) (rec' : IpcExportRecord),
        (ipc.ipcSaveAndTeardownAllExports buf).2.1.exports[i]? = some rec' →
          ∃ rec, ipc.exports[i]? = some rec ∧ rec.SameFd rec') ∨
      (∃ n, (ipc.ipcSaveAndTeardownAllExports buf).1 = some n) ∧
        ∀ rec' ∈ (ipc.ipcSaveAndTeardownAllExports buf).2.1.exports, rec'.tornDown = false → rec'.exportedFd < 0 := by
  unfold IpcState.ipcSaveAndTeardownAllExports
  dsimp only
  split_ifs with h1 h2 h3
  · exact Or.inl ⟨rfl, fun i rec hrec => ⟨rec, hrec, .refl rec⟩⟩
  · exact Or.inl ⟨rfl, fun i rec hrec => ⟨rec, hrec, .refl rec⟩⟩
  · refine Or.inl ⟨rfl, fun i rec' hrec' => ?_⟩
    obtain ⟨rec, hrec, ⟨rfl, -⟩ | ⟨x, -, -, rfl⟩⟩ := IpcState.foldl_recordOffset _ _ hrec'
    · exact ⟨_, hrec, .refl _⟩
    · exact ⟨rec, hrec, rfl, rfl, rfl, Or.inl rfl⟩
  · refine Or.inr ⟨⟨_, rfl⟩, fun rec' hrec' htorn => ?_⟩
    obtain ⟨rec, hrec, rfl⟩ := List.mem_map.1 hrec'
    obtain ⟨rec, -, rfl⟩ := List.mem_map.1 hrec
    unfold IpcState.markTorn at htorn ⊢
    split_ifs at htorn ⊢
    unfold IpcState.closeFd at htorn ⊢
    split_ifs at htorn ⊢ with h4 h5
    · exact absurd htorn (by simp [h4])
    · exact Int.negSucc_lt_zero 0
    · exact Int.not_le.1 h5

theorem Owned.save (h : s.Owned) (buf : HostBuf) : (s.save buf).Owned := by
  intro i rec' hrec' htorn hfd
  unfold FdProcess.save at hrec' ⊢
  dsimp only at hrec' ⊢
  rcases save_exports s.hooks.ipc buf with ⟨hnone, hsame⟩ | ⟨-, hclosed⟩
  · obtain ⟨rec, hrec, hrec''⟩ := hsame i rec' hrec'
    rw [hnone, Option.isSome_none, if_neg Bool.false_ne_true]
    exact (h i rec hrec (hrec''.torn ▸ htorn) (hrec''.fd ▸ hfd)).sameFd hrec''
  · have := hclosed rec' (List.mem_of_getElem? hrec') htorn
    omega

/-- The record of a rebuilt range. -/
def rebuiltRecord (rec : IpcExportRecord) (newHandle : Nat) (fd : Int) : IpcExportRecord :=
  { rec with localHandle := newHandle, exportedFd := fd, tornDown := false }

theorem reexport_spec {x : IpcState × FdTable FdObject} {e : RebuildEntry} {rec : IpcExportRecord}
    (hrec : x.1.exports[e.slot.key]? = some rec) :
    ∃ fd, (reexport x e).1.exports = x.1.exports.set e.slot.key (rebuiltRecord rec e.newHandle fd) ∧
      (rec.handleType = posixFileDescriptor ∧ fd = x.2.lowest ∧
          (reexport x e).2 = x.2.alloc (.shared e.slot.key e.newHandle) ∨
        (reexport x e).2 = x.2 ∧ (rec.handleType = posixFileDescriptor →
          (x.1.fns.cuMemExport && (x.1.drv.calls 1).1) = false ∧ fd = -1)) := by
  unfold reexport
  rw [hrec]
  dsimp only
  split_ifs with hok
  · simp only [Bool.and_eq_true, beq_iff_eq] at hok
    refine ⟨x.2.lowest, ?_, Or.inl ⟨hok.2, rfl, rfl⟩⟩
    have hpick : (x.1.withPick x.2.lowest).drv.env.pick (x.1.withPick x.2.lowest).drv.clock = x.2.lowest :=
      Function.update_self ..
    rw [IpcState.trackExport, show (x.1.withPick x.2.lowest).exports[e.slot.key]? = some rec from hrec]
    dsimp only
    rw [show (x.1.withPick x.2.lowest).fns.cuMemExport = true from hok.1.1, if_pos rfl,
      show ((x.1.withPick x.2.lowest).drv.calls 1).1 = true from hok.1.2, if_pos rfl, hpick]
    rfl
  · refine ⟨_, by rw [IpcState.trackExport, hrec]; rfl, Or.inr ⟨rfl, fun htype => ?_⟩⟩
    rw [htype, beq_self_eq_true, Bool.and_true, Bool.not_eq_true] at hok
    refine ⟨hok, if_neg ?_⟩
    split_ifs with hfn
    · rw [hfn, Bool.true_and] at hok
      rw [hok]
      exact Bool.false_ne_true
    · exact not_false

/-- Phase C gives every record that it comes to a descriptor of its own. -/
theorem refers_foldl_reexport (entries : List RebuildEntry) (x : IpcState × FdTable FdObject)
    (htypes : ∀ e ∈ entries, ∀ rec, x.1.exports[e.slot.key]? = some rec → rec.handleType = posixFileDescriptor)
    (h : ∀ (i : Nat) (rec : IpcExportRecord), x.1.exports[i]? = some rec → rec.tornDown = false →
      0 ≤ rec.exportedFd → Refers x.2 i rec) :
    ∀ (i : Nat) (rec : IpcExportRecord), (entries.foldl reexport x).1.exports[i]? = some rec → rec.tornDown = false →
      0 ≤ rec.exportedFd → Refers (entries.foldl reexport x).2 i rec := by
  induction entries generalizing x with
  | nil => exact h
  | cons e entries ih =>
    have htypes' := fun e' he' => htypes e' (List.mem_cons_of_mem _ he')
    rw [List.foldl_cons]
    cases hrec : x.1.exports[e.slot.key]? with
    | none =>
      have hstep : reexport x e = x := by
        unfold reexport
        rw [hrec]
      rw [hstep]
      exact ih x htypes' h
    | some rec =>
      -- the step writes one record, and keeps the types of all
      have hset : ∀ fd, (reexport x e).1.exports = x.1.exports.set e.slot.key (rebuiltRecord rec e.newHandle fd) →
          ∀ i rec', (reexport x e).1.exports[i]? = some rec' →
            (i = e.slot.key ∧ rec' = rebuiltRecord rec e.newHandle fd) ∨ (i ≠ e.slot.key ∧ x.1.exports[i]? = some rec') := by
        intro fd hexports i rec' hrec'
        rw [hexports, List.getElem?_set] at hrec'
        split_ifs at hrec' with hi hlt
        · exact Or.inl ⟨hi.symm, (Option.some.inj hrec').symm⟩
        · exact Or.inr ⟨Ne.symm hi, hrec'⟩
      obtain ⟨fd, hexports, hfds⟩ := reexport_spec hrec
      have htype := htypes e (List.mem_cons_self ..) rec hrec
      refine ih _ (fun e' he' rec' hrec' => ?_) fun i rec' hrec' htorn hfd => ?_
      · rcases hset _ hexports _ _ hrec' with ⟨-, rfl⟩ | ⟨-, hold⟩
        · exact htype
        · exact htypes' e' he' rec' hold
      · rcases hfds with ⟨-, rfl, hfds⟩ | ⟨hfds, hfail⟩
        all_goals
          rw [hfds]
          rcases hset _ hexports _ _ hrec' with ⟨rfl, rfl⟩ | ⟨-, hold⟩
        · refine ⟨e.newHandle, ?_, Or.inl rfl⟩
          rw [rebuiltRecord, Int.toNat_natCast, FdTable.get_alloc, if_pos rfl]
        · exact (h i rec' hold htorn hfd).alloc _
        · rw [rebuiltRecord, (hfail htype).2] at hfd
          exact absurd hfd (by simp)
        · exact h i rec' hold htorn hfd

theorem record_of_entry {ipc : IpcState} {d : Driver} {e : RebuildEntry} (he : e ∈ (rebuildAlloc ipc.exportItems d).entries) :
    ∃ rec, ipc.exports[e.slot.key]? = some rec ∧ rec.tornActive = true ∧ rec.hasSavedProp = true := by
  obtain ⟨x, hx, hkey, -⟩ := ((foldl_item_entries _ ⟨d, [], 0⟩).2 e he).resolve_left (by simp)
  obtain ⟨⟨rec, i⟩, hmem, rfl⟩ := List.mem_map.1 hx
  obtain ⟨hmem, hactive⟩ := List.mem_filter.1 hmem
  rw [Bool.and_eq_true] at hactive
  exact ⟨rec, hkey ▸ List.mem_zipIdx_iff_getElem?.1 hmem, hactive.1, hactive.2⟩

theorem Owned.rebuild (h : s.Owned) (buf : HostBuf) (hok : s.KeepsFds (.rebuild buf)) : (s.rebuild buf).Owned := by
  unfold FdProcess.rebuild
  dsimp only
  split_ifs
  · exact h
  · refine refers_foldl_reexport _ _ (fun e he rec hrec => ?_) h
    obtain ⟨rec', hrec', htorn, hprop⟩ := record_of_entry (mem_ordered.1 he)
    obtain rfl := Option.some.inj (hrec.symm.trans hrec')
    exact hok rec (List.mem_of_getElem? hrec) htorn hprop

theorem Owned.step (h : s.Owned) (e : DescriptorEvent) (hok : s.KeepsFds e) : (s.step e).Owned := by
  cases e with
  | openFile => exact fun i rec hrec htorn hfd => (h i rec hrec htorn hfd).alloc .other
  | closeFile n => exact h.closeFile hok
  | call c => exact h.call c
  | save buf => exact h.save buf
  | rebuild buf => exact h.rebuild buf hok

theorem ownCloses_of_refers (fds : FdTable FdObject) (rs : List (IpcExportRecord × Nat)) (hnodup : (rs.map Prod.snd).Nodup)
    (h : ∀ r ∈ rs, r.1.tornDown = false → 0 ≤ r.1.exportedFd → Refers fds r.2 r.1) : OwnCloses fds rs := by
  induction rs generalizing fds with
  | nil => trivial
  | cons r rs ih =>
    rw [List.map_cons, List.nodup_cons] at hnodup
    refine ⟨h r (List.mem_cons_self ..), ih _ hnodup.2 fun r' hr' htorn' hfd' => ?_⟩
    have hold := h r' (List.mem_cons_of_mem _ hr') htorn' hfd'
    unfold closeExport
    split_ifs with htorn hfd
    · exact hold
    · obtain ⟨k, hget, -⟩ := h r (List.mem_cons_self ..) (by simpa using htorn) hfd
      obtain ⟨k', hget', hk'⟩ := hold
      refine ⟨k', ?_, hk'⟩
      rw [FdTable.get_close, if_neg, hget']
      intro heq
      rw [heq, hget] at hget'
      simp only [Option.some.injEq, FdObject.shared.injEq] at hget'
      exact hnodup.1 (List.mem_map.2 ⟨r', hr', hget'.1.symm⟩)
    · exact hold

end Owned

/-- **The teardown closes only its own descriptors**, in every run in which the application closes no
number that a live record has. -/
theorem ownCloses_of_run (s : FdProcess) (hs : s.hooks.Fresh) (events : List DescriptorEvent)
    (hok : AllSteps KeepsFds step s events) {pre post : List DescriptorEvent} {buf : HostBuf}
    (hsave : events = pre ++ .save buf :: post) :
    OwnCloses (run step s pre).fds (run step s pre).hooks.ipc.exports.zipIdx := by
  have hstart : s.Owned := by
    intro i rec hrec
    rw [hs.exports] at hrec
    exact absurd hrec (by simp)
  have howned := invariant_of_allSteps (fun s e h he => h.step e he) hstart hok pre ⟨.save buf :: post, hsave.symm⟩
  refine ownCloses_of_refers _ _ ?_ fun r hr => howned r.2 r.1 (List.mem_zipIdx_iff_getElem?.1 hr)
  rw [List.zipIdx_map_snd]
  exact List.nodup_range'

/-- A process without a descriptor. -/
def empty : FdProcess := ⟨HookedProcess.empty, ⟨[]⟩⟩

/-- An allocation is exported. -/
def exportEvents : List DescriptorEvent := HookedProcess.exportHistory.map .call

theorem keepsFds_exportEvents : AllSteps KeepsFds step empty (exportEvents ++ [.save ⟨4096, fun _ => 0⟩]) := by
  refine ⟨trivial, trivial, trivial, trivial, trivial, trivial⟩

theorem ownCloses_exportEvents :
    OwnCloses (run step empty exportEvents).fds (run step empty exportEvents).hooks.ipc.exports.zipIdx :=
  ownCloses_of_run empty HookedProcess.fresh_empty _ keepsFds_exportEvents rfl

/-- The application closes the descriptor and opens a file, which gets the number that the record has. -/
theorem not_ownCloses : ¬ ∀ s : FdProcess, s.hooks.Fresh → ∀ (events : List DescriptorEvent) (buf : HostBuf),
    ((run step s events).hooks.ipc.ipcSaveAndTeardownAllExports buf).1 ≠ none →
      OwnCloses (run step s events).fds (run step s events).hooks.ipc.exports.zipIdx := by
  intro h
  obtain ⟨hfirst, -⟩ := h empty HookedProcess.fresh_empty (exportEvents ++ [.closeFile 0, .openFile])
    ⟨4096, fun _ => 0⟩ (by decide)
  obtain ⟨k, hget, -⟩ := hfirst rfl (by decide)
  exact absurd (show some FdObject.other = some (.shared 0 k) from hget) (by simp)

end FdProcess

end GpuCr
