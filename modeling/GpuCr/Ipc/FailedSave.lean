import GpuCr.Ipc.Descriptors
import GpuCr.Ipc.SaveFirst

/-!
# A failed save of the exports

`ipc_save_and_teardown_all_exports` with the calls that the other modules leave out: for each device its primary
context is retained and made current, and after the copies of the device this is undone; the host buffer is
registered before the copies and unregistered after them. A copy that fails ends the function in the middle of a
device, with code of its own for what has to be undone. Without the contexts this is the function of `Ipc.Exports`
(`saveExports_eq_save`), and at every exit the contexts are as they were.
-/

namespace GpuCr

open Lib Lib.Run Lib.Grouping Lib.Layout Std

/-! ### Contexts -/

inductive CUcontext where
  | primary (dev : Int)
  | other (id : Nat)
  deriving DecidableEq, Repr

/-- The functions for contexts, and the one that undoes `cuMemHostRegister`. -/
structure CtxFns where
  primaryCtxRetain : Bool
  primaryCtxRelease : Bool
  ctxPushCurrent : Bool
  ctxPopCurrent : Bool
  hostUnregister : Bool
  deriving DecidableEq, Repr

structure CtxFns.Resolved (fns : CtxFns) : Prop where
  primaryCtxRelease : fns.primaryCtxRelease = true
  hostUnregister : fns.hostUnregister = true

/-- The stack of contexts, the references to the primary ones, and whether `host_buf` is registered. `retains` is
the result of `cuDevicePrimaryCtxRetain` for each device; the other calls succeed. -/
structure CtxState where
  stack : List CUcontext
  refs : Int → Nat
  retains : Int → Bool
  hostRegistered : Bool

namespace CtxState

/-- `ctx_pushed`, and the contexts when the copies of the device begin. -/
def enter (fns : CtxFns) (c : CtxState) (dev : Int) : Bool × CtxState :=
  if decide (0 ≤ dev) && fns.primaryCtxRetain && fns.ctxPushCurrent && fns.ctxPopCurrent && c.retains dev then
    (true, { c with stack := .primary dev :: c.stack, refs := Function.update c.refs dev (c.refs dev + 1) })
  else (false, c)

/-- After the copies of the device. -/
def leave (fns : CtxFns) (c : CtxState) (ctxPushed : Bool) (dev : Int) : CtxState :=
  if ctxPushed then
    { c with
      stack := c.stack.tail
      refs := if fns.primaryCtxRelease then Function.update c.refs dev (c.refs dev - 1) else c.refs }
  else c

def unregister (c : CtxState) (hostPinned : Bool) : CtxState :=
  if hostPinned then { c with hostRegistered := false } else c

/-- After a copy that failed; both copy loops have this code. `none` is a call of a function that has not been
resolved, which only here is not looked at. -/
def leaveFailed (fns : CtxFns) (c : CtxState) (ctxPushed hostPinned : Bool) (dev : Int) : Option CtxState :=
  if ctxPushed && !fns.primaryCtxRelease || hostPinned && !fns.hostUnregister then none
  else some ((c.leave fns ctxPushed dev).unregister hostPinned)

/-- The contexts are the same, and the buffer is not registered if it was not. -/
structure Balanced (c c' : CtxState) : Prop where
  stack : c'.stack = c.stack
  refs : c'.refs = c.refs
  registered : c'.hostRegistered = true → c.hostRegistered = true

theorem leave_enter {fns : CtxFns} (hfns : fns.Resolved) (c : CtxState) (dev : Int) :
    (c.enter fns dev).2.leave fns (c.enter fns dev).1 dev = c := by
  unfold enter
  split_ifs
  · simp [leave, hfns.primaryCtxRelease]
  · rfl

theorem leaveFailed_eq {fns : CtxFns} (hfns : fns.Resolved) (c : CtxState) (ctxPushed hostPinned : Bool) (dev : Int) :
    c.leaveFailed fns ctxPushed hostPinned dev = some ((c.leave fns ctxPushed dev).unregister hostPinned) := by
  simp [leaveFailed, hfns.primaryCtxRelease, hfns.hostUnregister]

end CtxState

/-! ### The function -/

/-- The loop over the devices: whether it came to its end, the copies, the contexts. -/
def saveDevices (fns : CtxFns) (hostPinned useAsync : Bool) :
    List (Int × List Slot) → SaveRun → CtxState → Option (Bool × SaveRun × CtxState)
  | [], r, c => some (true, r, c)
  | (dev, g) :: gs, r, c =>
    let entered := c.enter fns dev
    let copied := saveGroup useAsync true g r
    if !copied.1 then
      (entered.2.leaveFailed fns entered.1 hostPinned dev).map fun c => (false, copied.2, c)
    else saveDevices fns hostPinned useAsync gs copied.2 (entered.2.leave fns entered.1 dev)

/-- `device_exports`, with the devices. -/
def IpcState.deviceGroups (s : IpcState) : List (Int × List Slot) :=
  ((group (·.1.dev) s.activeExports).map Prod.fst).zip s.deviceExports

structure CtxProcess where
  proc : FdProcess
  ctx : CtxState

/-- `ipc_save_and_teardown_all_exports`. The result is `none` if a function that has not been resolved is called,
and its first part is `none` for the return value `-1`. -/
def CtxProcess.saveExports (fns : CtxFns) (p : CtxProcess) (buf : HostBuf) :
    Option (Option Nat × CtxProcess × HostBuf) :=
  let s := p.proc.hooks.ipc
  if !(s.fns.cuMemRelease && s.fns.cuMemcpyDtoH) then some (none, p, buf)
  else if buf.size < s.totalNeeded then some (none, p, buf)
  else
    let pin := s.drv.pinHost s.fns s.totalNeeded
    let registered := if pin.1 then { p.ctx with hostRegistered := true } else p.ctx
    match saveDevices fns pin.1 (pin.1 && s.fns.asyncDtoH) s.deviceGroups ⟨pin.2, buf.data, [], []⟩ registered with
    | none => none
    | some (ok, r, ctx) =>
      let exports := r.touched.foldl IpcState.recordOffset s.exports
      let buf := { buf with data := r.data }
      if !ok then
        let ipc := { s with drv := r.drv.unpinHost pin.1, exports := exports }
        some (none, ⟨{ p.proc with hooks := { p.proc.hooks with ipc := ipc } }, ctx⟩, buf)
      else
        let ctx := ctx.unregister (pin.1 && fns.hostUnregister)
        let drv := r.drv.unpinHost (pin.1 && fns.hostUnregister)
        -- step 2
        let fds := exports.foldl FdProcess.closeExport p.proc.fds
        let closed := exports.map IpcState.closeFd
        -- step 3
        let t := closed.zipIdx.foldl (IpcState.teardownExport s.fns r.saved) (drv, s.released)
        let ipc := { s with drv := t.1, released := t.2, exports := closed.map IpcState.markTorn }
        some (some (closed.countP fun rec => !rec.tornDown && rec.hasMapping),
          ⟨⟨{ p.proc.hooks with ipc := ipc }, fds⟩, ctx⟩, buf)

/-! ### Without the contexts -/

section Erase
variable {fns : CtxFns}

theorem snd_deviceGroups (s : IpcState) : s.deviceGroups.map Prod.snd = s.deviceExports := by
  refine List.map_snd_zip ?_
  rw [IpcState.deviceExports, List.length_map, length_placeGroups, List.length_map, List.length_map]

theorem saveDevices_eq (hfns : fns.Resolved) (hostPinned useAsync : Bool) (gs : List (Int × List Slot)) (r : SaveRun)
    (c : CtxState) : saveDevices fns hostPinned useAsync gs r c =
      some ((saveGroups useAsync true (gs.map Prod.snd) r).1, (saveGroups useAsync true (gs.map Prod.snd) r).2.2,
        if (saveGroups useAsync true (gs.map Prod.snd) r).1 then c else c.unregister hostPinned) := by
  induction gs generalizing r with
  | nil => rfl
  | cons x gs ih =>
    rw [saveDevices, List.map_cons, saveGroups]
    dsimp only
    cases hok : (saveGroup useAsync true x.2 r).1 with
    | false =>
      rw [Bool.not_false, if_pos rfl, CtxState.leaveFailed_eq hfns, CtxState.leave_enter hfns]
      rfl
    | true =>
      rw [Bool.not_true, if_neg Bool.false_ne_true, CtxState.leave_enter hfns, ih]
      rfl

theorem foldl_closeExport_recordOffset (xs : List Slot) (exports : List IpcExportRecord) (fds : FdTable FdObject) :
    (xs.foldl IpcState.recordOffset exports).foldl FdProcess.closeExport fds = exports.foldl FdProcess.closeExport fds := by
  have hclose : ∀ l : List IpcExportRecord, l.foldl FdProcess.closeExport fds =
      (l.map fun rec => (rec.tornDown, rec.exportedFd)).foldl
        (fun fds x => if x.1 then fds else if 0 ≤ x.2 then fds.close x.2.toNat else fds) fds := by
    intro l
    rw [List.foldl_map]
    rfl
  rw [hclose, hclose, IpcState.map_foldl_recordOffset _ fun rec offset => rfl]

theorem CtxState.balanced_unregister (c : CtxState) (hostPinned : Bool) :
    c.Balanced ((if hostPinned then { c with hostRegistered := true } else c).unregister hostPinned) := by
  unfold unregister
  cases hostPinned
  · exact ⟨rfl, rfl, id⟩
  · exact ⟨rfl, rfl, fun h => absurd h Bool.false_ne_true⟩

theorem CtxProcess.saveExports_of_not {p : CtxProcess} {buf : HostBuf}
    (h : p.proc.hooks.ipc.copiesExports buf = false) : p.saveExports fns buf = some (none, p, buf) := by
  unfold IpcState.copiesExports at h
  unfold saveExports
  dsimp only
  cases hfns : p.proc.hooks.ipc.fns.cuMemRelease && p.proc.hooks.ipc.fns.cuMemcpyDtoH with
  | false => rfl
  | true =>
    rw [hfns, Bool.true_and, decide_eq_false_iff_not, Nat.not_le] at h
    rw [Bool.not_true, if_neg Bool.false_ne_true, if_pos h]

/-- Without the contexts this is the save of the exports; and at every exit the contexts are as they were. -/
theorem CtxProcess.saveExports_eq_save (hfns : fns.Resolved) (p : CtxProcess) (buf : HostBuf) : ∃ ctx,
    p.saveExports fns buf = some ((p.proc.hooks.ipc.ipcSaveAndTeardownAllExports buf).1, ⟨p.proc.save buf, ctx⟩,
      (p.proc.hooks.ipc.ipcSaveAndTeardownAllExports buf).2.2) ∧ p.ctx.Balanced ctx := by
  unfold FdProcess.save
  cases hcan : p.proc.hooks.ipc.copiesExports buf with
  | false =>
    rw [IpcState.saveExports_of_not hcan, saveExports_of_not hcan]
    exact ⟨p.ctx, rfl, rfl, rfl, id⟩
  | true =>
    unfold IpcState.copiesExports at hcan
    rw [Bool.and_eq_true, decide_eq_true_iff] at hcan
    obtain ⟨hres, hsize⟩ := hcan
    rw [IpcState.saveExports_eq hres (p.proc.hooks.ipc.totalNeeded_eq ▸ hsize)]
    unfold saveExports
    simp only [hres, Bool.not_true, Bool.false_eq_true, if_false, Nat.not_lt.2 hsize, saveDevices_eq hfns, snd_deviceGroups]
    have hbal := p.ctx.balanced_unregister
      (p.proc.hooks.ipc.drv.pinHost p.proc.hooks.ipc.fns p.proc.hooks.ipc.totalNeeded).1
    have hcopies : saveGroups ((p.proc.hooks.ipc.drv.pinHost p.proc.hooks.ipc.fns p.proc.hooks.ipc.totalNeeded).1 &&
        p.proc.hooks.ipc.fns.asyncDtoH) true p.proc.hooks.ipc.deviceExports
          ⟨(p.proc.hooks.ipc.drv.pinHost p.proc.hooks.ipc.fns p.proc.hooks.ipc.totalNeeded).2, buf.data, [], []⟩ =
        p.proc.hooks.ipc.exportCopies buf := rfl
    rw [hcopies]
    cases hok : (p.proc.hooks.ipc.exportCopies buf).1 with
    | false => exact ⟨_, rfl, hbal⟩
    | true =>
      simp only [Bool.not_true, Bool.false_eq_true, if_false, if_true, hfns.hostUnregister, Bool.and_true,
        foldl_closeExport_recordOffset]
      exact ⟨_, rfl, hbal⟩

end Erase

/-! ### When it fails -/

/-- The record without the place of its bytes, which a save notes before it copies them. -/
def IpcExportRecord.withoutOffset (rec : IpcExportRecord) : IpcExportRecord :=
  { rec with savedDataOffset := 0, hasSavedDataOffset := false }

theorem IpcState.saveExports_of_failed {s : IpcState} {buf : HostBuf} (h : (s.ipcSaveAndTeardownAllExports buf).1 = none) :
    ∃ (d : Driver) (xs : List Slot), s.drv.Same d ∧
      (s.ipcSaveAndTeardownAllExports buf).2.1 = { s with drv := d, exports := xs.foldl recordOffset s.exports } := by
  cases hcan : s.copiesExports buf with
  | false =>
    rw [saveExports_of_not hcan]
    exact ⟨s.drv, [], Driver.Same.refl _, rfl⟩
  | true =>
    unfold copiesExports at hcan
    rw [Bool.and_eq_true, decide_eq_true_iff, s.totalNeeded_eq] at hcan
    rw [saveExports_eq hcan.1 hcan.2] at h ⊢
    cases hok : (s.exportCopies buf).1 with
    | false => exact ⟨_, _, (s.exportCopies_spec buf).1, rfl⟩
    | true => simp [hok] at h

namespace CtxProcess

/-- Nothing has changed but the noted places: the records, the other tables, the mappings, handles and bytes of the
driver, the descriptors, the contexts and the registration of the buffer. -/
structure Unchanged (p p' : CtxProcess) : Prop where
  exports : p'.proc.hooks.ipc.exports.map (·.withoutOffset) = p.proc.hooks.ipc.exports.map (·.withoutOffset)
  tables : { p'.proc.hooks with ipc := { p'.proc.hooks.ipc with drv := p.proc.hooks.ipc.drv, exports := [] } } =
    { p.proc.hooks with ipc := { p.proc.hooks.ipc with exports := [] } }
  driver : p.proc.hooks.ipc.drv.Same p'.proc.hooks.ipc.drv
  fds : p'.proc.fds = p.proc.fds
  contexts : p.ctx.Balanced p'.ctx

/-- **A failed save of the exports changes nothing**, wherever in the devices it fails. -/
theorem unchanged_of_failed (fns : CtxFns) (hfns : fns.Resolved) (p : CtxProcess) (buf : HostBuf) :
    ∃ result p' buf', p.saveExports fns buf = some (result, p', buf') ∧ (result = none → p.Unchanged p') := by
  obtain ⟨ctx, heq, hbal⟩ := saveExports_eq_save hfns p buf
  refine ⟨_, _, _, heq, fun hfailed => ?_⟩
  obtain ⟨d, xs, hsame, hipc⟩ := IpcState.saveExports_of_failed hfailed
  have hproc : p.proc.save buf =
      { p.proc with hooks := { p.proc.hooks with ipc := { p.proc.hooks.ipc with
        drv := d, exports := xs.foldl IpcState.recordOffset p.proc.hooks.ipc.exports } } } := by
    unfold FdProcess.save
    dsimp only
    rw [hfailed, hipc]
    rfl
  refine ⟨?_, ?_, ?_, ?_, hbal⟩
  · rw [hproc]
    exact IpcState.map_foldl_recordOffset _ (fun rec offset => rfl) xs _
  · rw [hproc]
  · rw [hproc]
    exact hsame
  · rw [hproc]

/-- One allocation, exported twice; the second copy can not be enqueued. -/
def secondCopyFails : CtxProcess where
  proc := ⟨{ HookedProcess.empty with ipc := IpcState.exportedTwice.failingAt 3 }, ⟨[]⟩⟩
  ctx := ⟨[.other 0], fun _ => 0, fun _ => true, false⟩

theorem unchanged_secondCopyFails : ∃ p' buf',
    secondCopyFails.saveExports ⟨true, true, true, true, true⟩ ⟨8192, fun _ => 0⟩ = some (none, p', buf') ∧
      secondCopyFails.Unchanged p' := by
  obtain ⟨result, p', buf', heq, hunchanged⟩ := unchanged_of_failed ⟨true, true, true, true, true⟩ ⟨rfl, rfl⟩
    secondCopyFails ⟨8192, fun _ => 0⟩
  have hresult : (secondCopyFails.saveExports ⟨true, true, true, true, true⟩ ⟨8192, fun _ => 0⟩).map Prod.fst =
      some none := by decide
  rw [heq] at hresult
  obtain rfl : result = none := Option.some.inj hresult
  exact ⟨p', buf', heq, hunchanged rfl⟩

end CtxProcess

end GpuCr
