import GpuCr.Ipc.ExportCycle

/-!
# Save before release

Which results of the copy calls the two save functions look at before they unmap and release. The blocking copies
are looked at one by one. On a stream, the exports give up when a copy can not be enqueued, the local allocations do
not; and neither looks at what the synchronization of the stream returns. The calls are numbered, so what the driver
returns to each of them can be said beforehand: an asynchronous save of one device makes one call for the stream,
one for each copy, one to synchronize and one to destroy the stream.
-/

namespace GpuCr

open Lib Lib.Grouping Lib.Layout Lib.Run Std

/-! ### The results of the calls -/

/-- The copies of the slots succeed, with the first of them made as call `n`. -/
def Driver.copiesSucceed (d : Driver) : List Slot → Nat → Bool
  | [], _ => true
  | x :: xs, n => (d.accessible x.vaddr x.size && !d.env.fails n) && d.copiesSucceed xs (n + 1)

/-- Every copy is enqueued, with the first group begun at call `n`. -/
def Driver.enqueuesSucceed (d : Driver) : List (List Slot) → Nat → Bool
  | [], _ => true
  | g :: gs, n => d.copiesSucceed g (n + 1) && d.enqueuesSucceed gs (n + g.length + 3)

/-- Every `cuStreamSynchronize` succeeds. -/
def Driver.syncsSucceed (d : Driver) : List (List Slot) → Nat → Bool
  | [], _ => true
  | g :: gs, n => !d.env.fails (n + 1 + g.length) && d.syncsSucceed gs (n + g.length + 3)

section Calls
variable {d d' : Driver}

theorem Driver.Same.copiesSucceed (h : d.Same d') (xs : List Slot) (n : Nat) :
    d'.copiesSucceed xs n = d.copiesSucceed xs n := by
  induction xs generalizing n with
  | nil => rfl
  | cons x xs ih => rw [Driver.copiesSucceed, Driver.copiesSucceed, ih, h.env, Driver.accessible, h.maps, Driver.accessible]

theorem Driver.Same.enqueuesSucceed (h : d.Same d') (gs : List (List Slot)) (n : Nat) :
    d'.enqueuesSucceed gs n = d.enqueuesSucceed gs n := by
  induction gs generalizing n with
  | nil => rfl
  | cons g gs ih => rw [Driver.enqueuesSucceed, Driver.enqueuesSucceed, ih, h.copiesSucceed]

theorem Driver.Same.syncsSucceed (h : d.Same d') (gs : List (List Slot)) (n : Nat) :
    d'.syncsSucceed gs n = d.syncsSucceed gs n := by
  induction gs generalizing n with
  | nil => rfl
  | cons g gs ih => rw [Driver.syncsSucceed, Driver.syncsSucceed, ih, h.env]

theorem Driver.memcpyDtoH_result (d : Driver) (data : Nat → Byte) (x : Slot) :
    (d.memcpyDtoH data x).1 = (d.accessible x.vaddr x.size && !d.env.fails d.clock) ∧
      (d.memcpyDtoH data x).2.1.clock = d.clock + 1 := by
  unfold memcpyDtoH call
  cases d.accessible x.vaddr x.size && !d.env.fails d.clock <;> exact ⟨rfl, rfl⟩

theorem Driver.calls_one (d : Driver) : (d.calls 1).1 = !d.env.fails d.clock := by
  simp [calls]

end Calls

/-! ### What is saved -/

theorem append_eq_append_iff_of_sublist {α : Type} {l l' xs ys : List α} (hl : l.Sublist xs) (hl' : l'.Sublist ys) :
    l ++ l' = xs ++ ys ↔ l = xs ∧ l' = ys := by
  refine ⟨fun heq => ?_, fun ⟨h, h'⟩ => by rw [h, h']⟩
  have hlen := congrArg List.length heq
  rw [List.length_append, List.length_append] at hlen
  have hle := hl.length_le
  have hle' := hl'.length_le
  exact ⟨hl.eq_of_length (by omega), hl'.eq_of_length (by omega)⟩

/-- What a loop over the slots adds to the saved ones: all of them exactly if `all`. -/
structure SaveRun.Adds (r r' : SaveRun) (xs : List Slot) (all : Bool) : Prop where
  same : r.drv.Same r'.drv
  saved : ∃ l : List Slot, l.Sublist xs ∧ r'.saved = r.saved ++ l ∧ (l = xs ↔ all = true)

section Save
variable {r : SaveRun}

theorem saveSlots_adds (strict : Bool) (xs : List Slot) (r : SaveRun) :
    r.Adds (saveSlots strict xs r).2 xs (r.drv.copiesSucceed xs r.drv.clock) ∧
      (saveSlots strict xs r).1 = (!strict || r.drv.copiesSucceed xs r.drv.clock) ∧
      ((saveSlots strict xs r).1 = true → (saveSlots strict xs r).2.drv.clock = r.drv.clock + xs.length) := by
  induction xs generalizing r with
  | nil => exact ⟨⟨Driver.Same.refl _, [], List.Sublist.refl _, by simp [saveSlots], by simp [Driver.copiesSucceed]⟩,
      by simp [saveSlots, Driver.copiesSucceed], fun _ => rfl⟩
  | cons x xs ih =>
    obtain ⟨hok, hclock⟩ := r.drv.memcpyDtoH_result r.data x
    have hsame := memcpyDtoH_drv r.drv r.data x
    have hcopies := hsame.copiesSucceed xs (r.drv.clock + 1)
    rw [saveSlots, Driver.copiesSucceed, ← hok]
    cases hc : (r.drv.memcpyDtoH r.data x).1 with
    | true =>
      obtain ⟨⟨hs, l, hl, hsaved, hall⟩, hres, hend⟩ := ih ⟨(r.drv.memcpyDtoH r.data x).2.1,
        (r.drv.memcpyDtoH r.data x).2.2, r.touched ++ [x], r.saved ++ [x]⟩
      dsimp only at hall hres hend ⊢
      rw [hclock, hcopies] at hall hres
      rw [if_pos rfl, Bool.true_and]
      refine ⟨⟨hsame.trans hs, x :: l, hl.cons_cons x, ?_, ?_⟩, hres, fun h => ?_⟩
      · rw [hsaved, List.append_assoc]
        rfl
      · rw [List.cons_inj_right, hall]
      · rw [hend h, hclock, List.length_cons]
        omega
    | false =>
      -- from here on a slot is missing
      have hmissing : ∀ l : List Slot, l.Sublist xs → l ≠ x :: xs := by
        rintro l hl rfl
        exact absurd hl.length_le (by simp)
      rw [if_neg Bool.false_ne_true, Bool.false_and, Bool.or_false]
      cases strict with
      | true =>
        exact ⟨⟨hsame, [], List.nil_sublist _, by simp, by simp⟩, rfl, by simp⟩
      | false =>
        obtain ⟨⟨hs, l, hl, hsaved, -⟩, hres, hend⟩ := ih ⟨(r.drv.memcpyDtoH r.data x).2.1,
          (r.drv.memcpyDtoH r.data x).2.2, r.touched ++ [x], r.saved⟩
        rw [if_neg Bool.false_ne_true]
        refine ⟨⟨hsame.trans hs, l, hl.cons x, hsaved, ?_⟩, hres, fun h => ?_⟩
        · simp [hmissing l hl]
        · rw [hend h, hclock, List.length_cons]
          omega

theorem saveGroup_adds (strict : Bool) {xs : List Slot} (hne : xs ≠ []) (r : SaveRun) :
    r.Adds (saveGroup true strict xs r).2 xs
        (r.drv.copiesSucceed xs (r.drv.clock + 1) && !r.drv.env.fails (r.drv.clock + 1 + xs.length)) ∧
      (saveGroup true strict xs r).1 = (!strict || r.drv.copiesSucceed xs (r.drv.clock + 1)) ∧
      ((saveGroup true strict xs r).1 = true →
        (saveGroup true strict xs r).2.drv.clock = r.drv.clock + xs.length + 3) := by
  have hstream := r.drv.same_calls 1
  obtain ⟨⟨hs, l, hl, hsaved, hall⟩, hres, hend⟩ := saveSlots_adds strict xs { r with drv := (r.drv.calls 1).2 }
  have hclock : (r.drv.calls 1).2.clock = r.drv.clock + 1 := rfl
  dsimp only at hall hres hend hs hsaved
  rw [hclock, hstream.copiesSucceed] at hall hres
  rw [hclock] at hend
  rw [saveGroup, if_pos rfl]
  dsimp only
  generalize saveSlots strict xs { r with drv := (r.drv.calls 1).2 } = c at hs hsaved hres hend ⊢
  have hsame := hstream.trans hs
  cases hok : c.1 with
  | false =>
    rw [hok] at hres
    have hcopies : r.drv.copiesSucceed xs (r.drv.clock + 1) = false := (Bool.or_eq_false_iff.1 hres.symm).2
    rw [hcopies] at hall
    rw [Bool.not_false, if_pos rfl, hcopies, Bool.false_and]
    exact ⟨⟨hsame.trans (Driver.same_calls _ 1), l, hl, hsaved, hall⟩, hcopies ▸ hres, by simp⟩
  | true =>
    have hsync : (c.2.drv.calls 1).1 = !r.drv.env.fails (r.drv.clock + 1 + xs.length) := by
      rw [Driver.calls_one, hsame.env, hend hok]
    have hdrv := hsame.trans ((Driver.same_calls _ 1).trans (Driver.same_calls (c.2.drv.calls 1).2 1))
    have hcount : ((c.2.drv.calls 1).2.calls 1).2.clock = r.drv.clock + xs.length + 3 := by
      show c.2.drv.clock + 1 + 1 = _
      rw [hend hok]
      omega
    rw [Bool.not_true, if_neg Bool.false_ne_true, ← hsync]
    cases hs' : (c.2.drv.calls 1).1 with
    | true =>
      rw [if_pos rfl, Bool.and_true]
      exact ⟨⟨hdrv, l, hl, hsaved, hall⟩, hok ▸ hres, fun _ => hcount⟩
    | false =>
      -- what was enqueued is not counted
      rw [if_neg Bool.false_ne_true, Bool.and_false]
      refine ⟨⟨hdrv, [], List.nil_sublist _, by simp, ?_⟩, hok ▸ hres, fun _ => hcount⟩
      simp [hne.symm]

/-- **The loop over the devices, on streams**: every slot is saved exactly if every copy is enqueued and every
synchronization succeeds. It comes to its end if it does not look at the first, or all of these succeed. -/
theorem saveGroups_adds (strict : Bool) (gs : List (List Slot)) (hne : ∀ g ∈ gs, g ≠ []) (r : SaveRun) :
    r.Adds (saveGroups true strict gs r).2.2 gs.flatten
        (r.drv.enqueuesSucceed gs r.drv.clock && r.drv.syncsSucceed gs r.drv.clock) ∧
      (saveGroups true strict gs r).1 = (!strict || r.drv.enqueuesSucceed gs r.drv.clock) := by
  induction gs generalizing r with
  | nil => exact ⟨⟨Driver.Same.refl _, [], List.Sublist.refl _, by simp [saveGroups], by
      simp [Driver.enqueuesSucceed, Driver.syncsSucceed]⟩, by simp [saveGroups, Driver.enqueuesSucceed]⟩
  | cons g gs ih =>
    obtain ⟨hg, hgs⟩ := List.forall_mem_cons.1 hne
    obtain ⟨⟨hs, l, hl, hsaved, hall⟩, hres, hend⟩ := saveGroup_adds strict hg r
    obtain ⟨⟨hs', l', hl', hsaved', hall'⟩, hres'⟩ := ih hgs (saveGroup true strict g r).2
    rw [saveGroups, List.flatten_cons, Driver.enqueuesSucceed, Driver.syncsSucceed]
    dsimp only
    cases hok : (saveGroup true strict g r).1 with
    | false =>
      rw [hok] at hres
      have hcopies : r.drv.copiesSucceed g (r.drv.clock + 1) = false := (Bool.or_eq_false_iff.1 hres.symm).2
      rw [hcopies, Bool.false_and] at hall
      rw [Bool.not_false, if_pos rfl, hcopies, Bool.false_and, Bool.false_and]
      refine ⟨⟨hs, l, hl.trans (List.sublist_append_left ..), hsaved, ?_⟩, hcopies ▸ hres⟩
      rw [← List.append_nil l, append_eq_append_iff_of_sublist hl (List.nil_sublist _), hall]
      simp
    | true =>
      have hclock := hend hok
      rw [hclock, hs.enqueuesSucceed, hs.syncsSucceed] at hall'
      rw [hclock, hs.enqueuesSucceed] at hres'
      rw [Bool.not_true, if_neg Bool.false_ne_true]
      refine ⟨⟨hs.trans hs', l ++ l', hl.append hl', by rw [hsaved', hsaved, List.append_assoc], ?_⟩, ?_⟩
      · rw [append_eq_append_iff_of_sublist hl hl', hall, hall']
        simp only [Bool.and_eq_true]
        tauto
      · rw [hok] at hres
        cases strict with
        | false => exact hres'
        | true =>
          have hcopies : r.drv.copiesSucceed g (r.drv.clock + 1) = true := by simpa using hres.symm
          rw [hcopies, Bool.true_and]
          exact hres'

theorem saveGroups_blocking (strict : Bool) (gs : List (List Slot)) (r : SaveRun)
    (hok : (saveGroups false strict gs r).1 = true) :
    (saveGroups false strict gs r).2.2.saved = r.saved ++ gs.flatten := by
  induction gs generalizing r with
  | nil => simp [saveGroups]
  | cons g gs ih =>
    obtain ⟨⟨-, l, hl, hsaved, hall⟩, hres, -⟩ := saveSlots_adds true g r
    have hgroup : saveGroup false strict g r = saveSlots true g r := by rw [saveGroup, if_neg Bool.false_ne_true]
    rw [saveGroups, hgroup] at hok ⊢
    dsimp only at hok ⊢
    cases hg : (saveSlots true g r).1 with
    | false => simp [hg] at hok
    | true =>
      rw [hg] at hok hres
      rw [Bool.not_true, if_neg Bool.false_ne_true] at hok ⊢
      have hl : l = g := hall.2 (by simpa using hres.symm)
      rw [ih _ hok, hsaved, hl, List.flatten_cons, List.append_assoc]

theorem mem_of_mem_saved {async strict : Bool} {gs : List (List Slot)} (htouched : r.touched = []) (hsaved : r.saved = []) :
    ∀ x ∈ (saveGroups async strict gs r).2.2.saved, x ∈ gs.flatten := by
  obtain ⟨-, hadds, hvisited⟩ := saveGroups_visits async strict gs r
  intro x hx
  exact (hadds x ((hvisited x hx).resolve_left (by simp [hsaved]))).resolve_left (by simp [htouched])

/-- A save that comes to its end has saved every slot: exactly if the copies are blocking, or all is enqueued and
synchronized, or a copy that can not be enqueued ends the save. -/
theorem allSaved_iff (async strict : Bool) {gs : List (List Slot)} (hne : ∀ g ∈ gs, g ≠ []) (hnodup : gs.flatten.Nodup)
    {r : SaveRun} (hr : r.saved = []) :
    ((saveGroups async strict gs r).1 = true → ∀ x ∈ gs.flatten, x ∈ (saveGroups async strict gs r).2.2.saved) ↔
      (async = true → (strict = true ∧ r.drv.enqueuesSucceed gs r.drv.clock = false) ∨
        (r.drv.enqueuesSucceed gs r.drv.clock = true ∧ r.drv.syncsSucceed gs r.drv.clock = true)) := by
  cases async with
  | false =>
    refine ⟨fun _ h => absurd h Bool.false_ne_true, fun _ hok x hx => ?_⟩
    rw [saveGroups_blocking strict gs r hok, hr]
    exact hx
  | true =>
    obtain ⟨⟨-, l, hl, hsaved, hall⟩, hres⟩ := saveGroups_adds strict gs hne r
    rw [hr, List.nil_append] at hsaved
    have heq : (∀ x ∈ gs.flatten, x ∈ l) ↔ l = gs.flatten := by
      refine ⟨fun hsub => hl.eq_of_length_le (hnodup.subperm hsub).length_le, fun heq x hx => heq ▸ hx⟩
    rw [hsaved, hres, heq, hall]
    cases strict <;> cases r.drv.enqueuesSucceed gs r.drv.clock <;> simp

end Save

theorem Driver.SameView.gone {d d' : Driver} (h : d.SameView d') (ts : List TearTarget) :
    (∀ a n, (run tearStep d' ts).mappedAt a n ≠ d.mappedAt a n → ∃ t ∈ ts, t.va = a) ∧
      ∀ k, (run tearStep d' ts).isLive k ≠ d.isLive k → ∃ t ∈ ts, t.handle = some k := by
  obtain ⟨hmaps, hlive⟩ := run_tearStep_keeps ts d'
  refine ⟨fun a n hne => ?_, fun k hne => ?_⟩
  · by_contra hno
    refine hne ((hmaps a n fun ha => hno ?_).trans (h.mapped a n))
    exact List.mem_map.1 ha
  · by_contra hno
    refine hne ((hlive k fun hk => hno ?_).trans (h.live k))
    exact List.mem_filterMap.1 hk

namespace IpcState

/-! ### What is released -/

/-- The call unmaps and releases the allocation of the export. -/
def ReleasesExport (s : IpcState) (buf : HostBuf) (i : Nat) (rec : IpcExportRecord) : Prop :=
  s.exports[i]? = some rec ∧ rec.tornDown = false ∧
    ∃ rec' : IpcExportRecord, (s.ipcSaveAndTeardownAllExports buf).2.1.exports[i]? = some rec' ∧ rec'.tornDown = true

/-- The call unmaps and releases the local allocation: unless it fails, these are the ones in its table. -/
def ReleasesLocal (s : IpcState) (buf : HostBuf) (rec : CuMemLocalAllocRecord) : Prop :=
  (s.ipcSaveAndTeardownLocalAllocs buf).1 ≠ none ∧ rec ∈ (s.ipcSaveAndTeardownLocalAllocs buf).2.1.localAllocs ∧
    rec.tornDown = true

/-- Every export that is released was copied as a whole, and the copy was reported successful. An export without
bytes has nothing to copy. -/
def ExportsSavedFirst (s : IpcState) (buf : HostBuf) : Prop :=
  ∀ i rec, s.ReleasesExport buf i rec → 0 < rec.mappedSize →
    ∃ x ∈ (s.exportCopies buf).2.2.saved, x.key = i ∧ x.vaddr = rec.mappedVaddr ∧ x.size = rec.mappedSize

def LocalsSavedFirst (s : IpcState) (buf : HostBuf) : Prop :=
  ∀ rec, s.ReleasesLocal buf rec →
    ∃ x ∈ (s.localCopies buf).2.2.saved, x.key = rec.handle ∧ x.vaddr = rec.vaddr ∧ x.size = rec.size

/-! ### When the results are seen -/

/-- The save has the functions it needs and a buffer that is large enough. -/
def copiesExports (s : IpcState) (buf : HostBuf) : Bool :=
  s.fns.cuMemRelease && s.fns.cuMemcpyDtoH && decide (s.totalNeeded ≤ buf.size)

def copiesLocals (s : IpcState) (buf : HostBuf) : Bool :=
  s.fns.cuMemRelease && s.fns.cuMemcpyDtoH && decide (s.ipcGetLocalAllocDataSize ≤ buf.size)

def localSlots (s : IpcState) : List (List Slot) := s.deviceAllocs.map fun g => g.2.map fun x => x.1.slot x.2

/-- `use_async`, for a buffer of `n` bytes. -/
def useAsync (s : IpcState) (n : Nat) : Bool := (s.drv.pinHost s.fns n).1 && s.fns.asyncDtoH

/-- The number of the call after `cuMemHostRegister`. -/
def copyClock (s : IpcState) (n : Nat) : Nat := (s.drv.pinHost s.fns n).2.clock

/-- If streams are used, a copy can not be enqueued or every synchronization succeeds. -/
def ExportResultsSeen (s : IpcState) (buf : HostBuf) : Prop :=
  s.copiesExports buf = true → s.useAsync s.totalNeeded = true →
    s.drv.enqueuesSucceed s.deviceExports (s.copyClock s.totalNeeded) = false ∨
      s.drv.syncsSucceed s.deviceExports (s.copyClock s.totalNeeded) = true

/-- If streams are used, every copy is enqueued and every synchronization succeeds. -/
def LocalResultsSeen (s : IpcState) (buf : HostBuf) : Prop :=
  s.copiesLocals buf = true → s.useAsync s.ipcGetLocalAllocDataSize = true →
    s.drv.enqueuesSucceed s.localSlots (s.copyClock s.ipcGetLocalAllocDataSize) = true ∧
      s.drv.syncsSucceed s.localSlots (s.copyClock s.ipcGetLocalAllocDataSize) = true

section Exports
variable {s : IpcState} {buf : HostBuf}

theorem deviceExports_ne_nil (s : IpcState) : ∀ g ∈ s.deviceExports, g ≠ [] := by
  intro g hg
  obtain ⟨ys, hys, rfl⟩ := List.mem_map.1 hg
  have hgroups : ∀ xs ∈ (group (·.1.dev) s.activeExports).map Prod.snd, xs ≠ [] := by
    intro xs hxs
    obtain ⟨y, hy, rfl⟩ := List.mem_map.1 hxs
    exact ((groups_group _ _).group y hy).2
  exact fun hnil => ne_nil_of_mem_placeGroups hgroups ys hys (List.map_eq_nil_iff.1 hnil)

theorem exportCopies_allSaved_iff (s : IpcState) (buf : HostBuf) :
    ((s.exportCopies buf).1 = true → ∀ x ∈ s.deviceExports.flatten, x ∈ (s.exportCopies buf).2.2.saved) ↔
      (s.useAsync s.totalNeeded = true →
        s.drv.enqueuesSucceed s.deviceExports (s.copyClock s.totalNeeded) = false ∨
          s.drv.syncsSucceed s.deviceExports (s.copyClock s.totalNeeded) = true) := by
  have hsame := s.drv.same_pinHost s.fns s.totalNeeded
  have h := allSaved_iff (s.useAsync s.totalNeeded) true s.deviceExports_ne_nil s.nodup_key_deviceExports.of_map
    (r := ⟨(s.drv.pinHost s.fns s.totalNeeded).2, buf.data, [], []⟩) rfl
  rw [hsame.enqueuesSucceed, hsame.syncsSucceed] at h
  refine h.trans (imp_congr_right fun _ => ?_)
  unfold copyClock
  cases s.drv.enqueuesSucceed s.deviceExports (s.drv.pinHost s.fns s.totalNeeded).2.clock <;> simp

theorem saveExports_of_not (h : s.copiesExports buf = false) : s.ipcSaveAndTeardownAllExports buf = (none, s, buf) := by
  unfold copiesExports at h
  unfold ipcSaveAndTeardownAllExports
  cases hfns : s.fns.cuMemRelease && s.fns.cuMemcpyDtoH with
  | false => rfl
  | true =>
    rw [hfns, Bool.true_and, decide_eq_false_iff_not, Nat.not_le] at h
    rw [Bool.not_true, if_neg Bool.false_ne_true, if_pos h]

theorem map_tornDown_saveExports (s : IpcState) (buf : HostBuf) :
    (s.ipcSaveAndTeardownAllExports buf).2.1.exports.map (·.tornDown) =
      s.exports.map fun rec => rec.tornDown || (s.copiesExports buf && (s.exportCopies buf).1 && rec.hasMapping) := by
  cases hcan : s.copiesExports buf with
  | false => rw [saveExports_of_not hcan]; simp
  | true =>
    unfold copiesExports at hcan
    rw [Bool.and_eq_true, decide_eq_true_iff, s.totalNeeded_eq] at hcan
    rw [saveExports_eq hcan.1 hcan.2]
    cases hok : (s.exportCopies buf).1 with
    | false =>
      rw [Bool.not_false, if_pos rfl, map_foldl_recordOffset _ fun rec offset => rfl]
      simp
    | true =>
      rw [Bool.not_true, if_neg Bool.false_ne_true]
      dsimp only
      refine Eq.trans ?_ (map_foldl_recordOffset _ (fun rec offset => rfl) (s.exportCopies buf).2.2.touched s.exports)
      rw [List.map_map, List.map_map]
      congr 1
      funext rec
      obtain ⟨fd, hfd⟩ := closeFd_eq rec
      rw [Function.comp_apply, Function.comp_apply, hfd, markTorn]
      cases rec.tornDown <;> cases rec.hasMapping <;> rfl

theorem releasesExport_iff {i : Nat} {rec : IpcExportRecord} : s.ReleasesExport buf i rec ↔
    s.exports[i]? = some rec ∧ rec.tornDown = false ∧
      s.copiesExports buf = true ∧ (s.exportCopies buf).1 = true ∧ rec.hasMapping = true := by
  unfold ReleasesExport
  refine and_congr_right fun hrec => and_congr_right fun htorn => ?_
  have hflag := congrArg (·[i]?) (s.map_tornDown_saveExports buf)
  simp only [List.getElem?_map, hrec, Option.map_some, htorn, Bool.false_or] at hflag
  constructor
  · rintro ⟨rec', hrec', htorn'⟩
    rw [hrec', Option.map_some, htorn', Option.some_inj] at hflag
    simpa [and_assoc] using hflag.symm
  · rintro ⟨hcan, hok, hmap⟩
    rw [hcan, hok, hmap] at hflag
    obtain ⟨rec', hrec', htorn'⟩ := Option.map_eq_some_iff.1 hflag
    exact ⟨rec', hrec', htorn'⟩

theorem releasesExport_of_target (hcan : s.copiesExports buf = true) (hok : (s.exportCopies buf).1 = true) {t : TearTarget}
    (ht : t ∈ s.exportTargets) :
    ∃ i rec, s.ReleasesExport buf i rec ∧ t = ⟨rec.mappedVaddr, rec.mappedSize, some rec.localHandle⟩ := by
  obtain ⟨rec, hrec, htarget⟩ := List.mem_filterMap.1 ht
  obtain ⟨i, hi⟩ := List.getElem?_of_mem hrec
  unfold IpcExportRecord.target at htarget
  split_ifs at htarget with hskip
  rw [Bool.not_eq_true, Bool.or_eq_false_iff, Bool.not_eq_false'] at hskip
  exact ⟨i, rec, releasesExport_iff.2 ⟨hi, hskip.1, hcan, hok, hskip.2⟩, (Option.some.inj htarget).symm⟩

theorem releasesExport_of_gone (hfns : s.fns.Resolved) :
    (∀ a n, (s.ipcSaveAndTeardownAllExports buf).2.1.drv.mappedAt a n ≠ s.drv.mappedAt a n →
        ∃ i rec, s.ReleasesExport buf i rec ∧ rec.mappedVaddr = a) ∧
      ∀ k, (s.ipcSaveAndTeardownAllExports buf).2.1.drv.isLive k ≠ s.drv.isLive k →
        ∃ i rec, s.ReleasesExport buf i rec ∧ rec.localHandle = k := by
  cases hcan : s.copiesExports buf with
  | false => rw [saveExports_of_not hcan]; simp
  | true =>
    have hcan' := hcan
    unfold copiesExports at hcan'
    rw [Bool.and_eq_true, decide_eq_true_iff, s.totalNeeded_eq] at hcan'
    have hsame := (s.exportCopies_spec buf).1
    have hview := Driver.sameView_of_eq hsame.maps hsame.live
    rw [(exportPass hcan'.1 hfns.unmap hcan'.2).drv]
    cases hok : (s.exportCopies buf).1 with
    | false =>
      rw [if_neg Bool.false_ne_true]
      exact ⟨fun a n hne => absurd (hview.mapped a n) hne, fun k hne => absurd (hview.live k) hne⟩
    | true =>
      rw [if_pos rfl]
      obtain ⟨hmaps, hlive⟩ := hview.gone s.exportTargets
      refine ⟨fun a n hne => ?_, fun k hne => ?_⟩
      · obtain ⟨t, ht, rfl⟩ := hmaps a n hne
        obtain ⟨i, rec, hrel, rfl⟩ := releasesExport_of_target hcan hok ht
        exact ⟨i, rec, hrel, rfl⟩
      · obtain ⟨t, ht, hhandle⟩ := hlive k hne
        obtain ⟨i, rec, hrel, rfl⟩ := releasesExport_of_target hcan hok ht
        exact ⟨i, rec, hrel, Option.some.inj hhandle⟩

theorem exportsSavedFirst_iff (s : IpcState) (buf : HostBuf) : s.ExportsSavedFirst buf ↔ s.ExportResultsSeen buf := by
  have hcopies := s.exportCopies_allSaved_iff buf
  have hadds : ∀ x ∈ (s.exportCopies buf).2.2.saved, x ∈ s.deviceExports.flatten := mem_of_mem_saved rfl rfl
  unfold ExportResultsSeen
  constructor
  · intro h hcan
    refine hcopies.1 fun hok x hx => ?_
    obtain ⟨⟨rec, hrec, hactive, -⟩, -⟩ := mem_deviceExports hx
    simp only [IpcExportRecord.active, Bool.and_eq_true, Bool.not_eq_true', decide_eq_true_iff] at hactive
    obtain ⟨y, hy, hkey, -⟩ := h x.key rec (releasesExport_iff.2 ⟨hrec, hactive.1.1, hcan, hok, hactive.1.2⟩) hactive.2
    exact eq_of_key_deviceExports (hadds y hy) hx hkey ▸ hy
  · intro h i rec hrel hpos
    obtain ⟨hrec, htorn, hcan, hok, hmap⟩ := releasesExport_iff.1 hrel
    have hactive : rec.active = true := by simp [IpcExportRecord.active, htorn, hmap, hpos]
    obtain ⟨x, hx, hslot⟩ := exists_slot_of_active hrec hactive
    exact ⟨x, hcopies.2 (h hcan) hok x hx, hslot⟩

end Exports

section Locals
variable {s : IpcState} {buf : HostBuf}

theorem localSlots_ne_nil (s : IpcState) : ∀ g ∈ s.localSlots, g ≠ [] := by
  intro g hg
  obtain ⟨y, hy, rfl⟩ := List.mem_map.1 hg
  exact fun hnil => ((groups_group _ _).group y hy).2 (List.map_eq_nil_iff.1 hnil)

theorem exists_entry_of_localSlot {x : Slot} (hx : x ∈ s.localSlots.flatten) :
    ∃ e ∈ s.localEntries, x = e.slot x.offset := by
  rw [localSlots, flatten_deviceSlots] at hx
  obtain ⟨y, hy, rfl⟩ := List.mem_map.1 hx
  exact ⟨y.1, s.perm_deviceOrder.mem_iff.1 (List.mem_map_of_mem hy), rfl⟩

theorem exists_localSlot {e : LocalAllocEntry} (he : e ∈ s.localEntries) :
    ∃ offset, e.slot offset ∈ s.localSlots.flatten := by
  obtain ⟨y, hy, rfl⟩ := List.mem_map.1 (s.perm_deviceOrder.mem_iff.2 he)
  refine ⟨y.2, ?_⟩
  rw [localSlots, flatten_deviceSlots]
  exact List.mem_map_of_mem (f := fun x => x.1.slot x.2) hy

theorem nodup_key_localSlots (s : IpcState) : (s.localSlots.flatten.map (·.key)).Nodup := by
  have hkeys : s.localSlots.flatten.map (·.key) = s.deviceOrder.map (·.handle) := by
    rw [localSlots, flatten_deviceSlots, deviceOrder, List.map_map, List.map_map]
    rfl
  rw [hkeys, (s.perm_deviceOrder.map _).nodup_iff]
  exact List.pairwise_map.2 (s.pairwise_handle.imp Nat.ne_of_lt)

theorem localCopies_allSaved_iff (s : IpcState) (buf : HostBuf) :
    ((s.localCopies buf).1 = true → ∀ x ∈ s.localSlots.flatten, x ∈ (s.localCopies buf).2.2.saved) ↔
      (s.useAsync s.ipcGetLocalAllocDataSize = true →
        s.drv.enqueuesSucceed s.localSlots (s.copyClock s.ipcGetLocalAllocDataSize) = true ∧
          s.drv.syncsSucceed s.localSlots (s.copyClock s.ipcGetLocalAllocDataSize) = true) := by
  have hsame := s.drv.same_pinHost s.fns s.ipcGetLocalAllocDataSize
  have h := allSaved_iff (s.useAsync s.ipcGetLocalAllocDataSize) false s.localSlots_ne_nil s.nodup_key_localSlots.of_map
    (r := ⟨(s.drv.pinHost s.fns s.ipcGetLocalAllocDataSize).2, buf.data, [], []⟩) rfl
  rw [hsame.enqueuesSucceed, hsame.syncsSucceed] at h
  refine h.trans (imp_congr_right fun _ => ?_)
  simp [copyClock]

theorem releasesLocal_iff {rec : CuMemLocalAllocRecord} : s.ReleasesLocal buf rec ↔
    s.copiesLocals buf = true ∧ (s.localCopies buf).1 = true ∧
      ∃ e ∈ s.localEntries, rec = { e.record with tornDown := true } := by
  have hcount : (s.localCopies buf).1 = true → (s.localCopies buf).2.1 = s.deviceAllocs.length := by
    intro hok
    have hcount := saveGroups_count _ _ _ _ hok
    rwa [List.length_map] at hcount
  unfold ReleasesLocal
  cases hcan : s.copiesLocals buf with
  | false =>
    refine ⟨fun h => absurd ?_ h.1, fun h => absurd h.1 Bool.false_ne_true⟩
    unfold copiesLocals at hcan
    unfold ipcSaveAndTeardownLocalAllocs
    cases hfns : s.fns.cuMemRelease && s.fns.cuMemcpyDtoH with
    | false => rfl
    | true =>
      rw [hfns, Bool.true_and, decide_eq_false_iff_not, Nat.not_le] at hcan
      rw [Bool.not_true, if_neg Bool.false_ne_true, if_pos hcan]
  | true =>
    unfold copiesLocals at hcan
    rw [Bool.and_eq_true, decide_eq_true_iff] at hcan
    rw [saveLocals_eq hcan.1 hcan.2]
    have hres : (s.ipcSaveAndTeardownLocalAllocs buf).1 ≠ none ↔ (s.localCopies buf).1 = true := by
      unfold ipcSaveAndTeardownLocalAllocs
      rw [hcan.1, Bool.not_true, if_neg Bool.false_ne_true, if_neg (Nat.not_lt.2 hcan.2)]
      show Prod.fst (if !(s.localCopies buf).1 then _ else _) ≠ none ↔ _
      cases (s.localCopies buf).1 <;> simp
    rw [hres]
    cases hok : (s.localCopies buf).1 with
    | false => simp
    | true =>
      simp only [Bool.not_true, Bool.false_eq_true, if_false, hcount hok, List.take_length, flatMap_deviceRecords,
        List.map_map, true_and, List.mem_map]
      constructor
      · rintro ⟨⟨e, he, rfl⟩, -⟩
        exact ⟨e, s.perm_deviceOrder.mem_iff.1 he, rfl⟩
      · rintro ⟨e, he, rfl⟩
        exact ⟨⟨e, s.perm_deviceOrder.mem_iff.2 he, rfl⟩, rfl⟩

theorem releasesLocal_of_gone (hfns : s.fns.Resolved) :
    (∀ a n, (s.ipcSaveAndTeardownLocalAllocs buf).2.1.drv.mappedAt a n ≠ s.drv.mappedAt a n →
        ∃ rec, s.ReleasesLocal buf rec ∧ rec.vaddr = a) ∧
      ∀ k, (s.ipcSaveAndTeardownLocalAllocs buf).2.1.drv.isLive k ≠ s.drv.isLive k →
        ∃ rec, s.ReleasesLocal buf rec ∧ rec.handle = k := by
  have hres : (s.fns.cuMemRelease && s.fns.cuMemcpyDtoH) = true := by rw [hfns.release, hfns.dtoh]; rfl
  by_cases hsize : s.ipcGetLocalAllocDataSize ≤ buf.size
  swap
  · have hdrv : (s.ipcSaveAndTeardownLocalAllocs buf).2.1.drv = s.drv := by
      unfold ipcSaveAndTeardownLocalAllocs
      rw [hres, Bool.not_true, if_neg Bool.false_ne_true, if_pos (Nat.not_le.1 hsize)]
    rw [hdrv]
    simp
  have hcan : s.copiesLocals buf = true := by simp [copiesLocals, hres, hsize]
  have hsame := (s.localCopies_spec buf).1
  have hview := Driver.sameView_of_eq hsame.maps hsame.live
  rw [(localPass hres hfns.unmap hsize).1]
  cases hok : (s.localCopies buf).1 with
  | false =>
    rw [if_neg Bool.false_ne_true]
    exact ⟨fun a n hne => absurd (hview.mapped a n) hne, fun k hne => absurd (hview.live k) hne⟩
  | true =>
    rw [if_pos rfl]
    obtain ⟨hmaps, hlive⟩ := hview.gone s.localTargets
    have hreleases : ∀ t ∈ s.localTargets, ∃ rec, s.ReleasesLocal buf rec ∧ t = ⟨rec.vaddr, rec.size, some rec.handle⟩ := by
      intro t ht
      obtain ⟨e, he, rfl⟩ := List.mem_map.1 ht
      exact ⟨_, releasesLocal_iff.2 ⟨hcan, hok, e, s.perm_deviceOrder.mem_iff.1 he, rfl⟩, rfl⟩
    refine ⟨fun a n hne => ?_, fun k hne => ?_⟩
    · obtain ⟨t, ht, rfl⟩ := hmaps a n hne
      obtain ⟨rec, hrel, rfl⟩ := hreleases t ht
      exact ⟨rec, hrel, rfl⟩
    · obtain ⟨t, ht, hhandle⟩ := hlive k hne
      obtain ⟨rec, hrel, rfl⟩ := hreleases t ht
      exact ⟨rec, hrel, Option.some.inj hhandle⟩

theorem localsSavedFirst_iff (s : IpcState) (buf : HostBuf) : s.LocalsSavedFirst buf ↔ s.LocalResultsSeen buf := by
  have hcopies := s.localCopies_allSaved_iff buf
  have hadds : ∀ x ∈ (s.localCopies buf).2.2.saved, x ∈ s.localSlots.flatten := mem_of_mem_saved rfl rfl
  unfold LocalResultsSeen
  constructor
  · intro h hcan
    refine hcopies.1 fun hok x hx => ?_
    obtain ⟨e, he, hslot⟩ := exists_entry_of_localSlot hx
    obtain ⟨y, hy, hkey, -⟩ := h _ (releasesLocal_iff.2 ⟨hcan, hok, e, he, rfl⟩)
    have hxy : y = x := List.inj_on_of_nodup_map s.nodup_key_localSlots (hadds y hy) hx
      (hkey.trans (congrArg Slot.key hslot).symm)
    exact hxy ▸ hy
  · intro h rec hrel
    obtain ⟨hcan, hok, e, he, rfl⟩ := releasesLocal_iff.1 hrel
    obtain ⟨offset, hx⟩ := exists_localSlot he
    exact ⟨e.slot offset, hcopies.2 (h hcan) hok _ hx, rfl, rfl, rfl⟩

end Locals

/-- **Save before release.** What a save unmaps and releases was copied as a whole, and reported so, exactly if no
result is lost: with streams, for exports none of a synchronization, unless a copy can not be enqueued and the save
fails; for local allocations none of a synchronization or of an enqueued copy. Blocking copies are always seen. -/
theorem savedFirst_iff (s : IpcState) (buf : HostBuf) :
    (s.ExportsSavedFirst buf ↔ s.ExportResultsSeen buf) ∧ (s.LocalsSavedFirst buf ↔ s.LocalResultsSeen buf) :=
  ⟨s.exportsSavedFirst_iff buf, s.localsSavedFirst_iff buf⟩

/-- The state with a driver on which one call fails, counted from the next. -/
def failingAt (s : IpcState) (n : Nat) : IpcState :=
  { s with drv := { s.drv with env := { s.drv.env with fails := fun k => k == s.drv.clock + n } } }

/-- With two allocations, call `2` is the first copy: the allocation is released although its copy failed. Call `4`
is the synchronization: both are released, and so are both exports. -/
theorem not_savedFirst : ¬ ((localPair 0 0).failingAt 2).LocalsSavedFirst ⟨12288, fun _ => 0⟩ ∧
    ¬ ((localPair 0 0).failingAt 4).LocalsSavedFirst ⟨12288, fun _ => 0⟩ ∧
    ¬ (exportedTwice.failingAt 4).ExportsSavedFirst ⟨8192, fun _ => 0⟩ := by
  refine ⟨fun h => ?_, fun h => ?_, fun h => ?_⟩
  · have hlost := h ⟨1, 0x10000, 4096, ⟨0⟩, true⟩ ⟨by decide, by decide, rfl⟩
    revert hlost
    decide
  · have hlost := h ⟨1, 0x10000, 4096, ⟨0⟩, true⟩ ⟨by decide, by decide, rfl⟩
    revert hlost
    decide
  · have hlost := h 0 (exportedTwice.exports.get ⟨0, by decide⟩) (releasesExport_iff.2 (by decide)) (by decide)
    revert hlost
    decide

end IpcState

end GpuCr
