import Mathlib.Algebra.Order.BigOperators.Group.List
import GpuCr.Ipc.Classify

/-!
# A failed allocation and the others

What the rebuild functions leave when some of their `cuMemCreate` and `cuMemMap` calls fail and nothing else does.
A range that could not be mapped stays torn down and keeps no handle; the others are mapped and copied. An export
is copied from the place recorded with it, so what happens to the others does not matter. For local allocations the
place is counted while they are mapped, and one that failed is not counted: the ones behind it read the bytes of
another. So the bytes come back exactly when the allocations that are rebuilt are the first ones the save went
through, in the same order.
-/

namespace GpuCr

open Lib Lib.Run Lib.Grouping Lib.Layout Std

/-! ### Which calls fail -/

/-- The calls for a range besides `cuMemCreate` and `cuMemMap` succeed: the release of a handle that could not be
mapped, or the grants of access. -/
def RebuildItem.OthersSucceed (x : RebuildItem) (d : Driver) : Prop :=
  match d.cuMemCreate x.size with
  | (none, _) => True
  | (some newHandle, d) =>
    match d.cuMemMap x.vaddr x.size newHandle with
    | (false, d) => d.env.fails d.clock = false
    | (true, d) => ∀ i < x.access.length, d.env.fails (d.clock + i) = false

/-- Of all calls of the rebuild of the items, only `cuMemCreate` and `cuMemMap` calls fail. -/
def OnlyAllocsFail : List RebuildItem → Driver → Prop
  | [], d => d.ReliableFrom
  | x :: items, d => x.OthersSucceed d ∧ OnlyAllocsFail items (x.mapNew d).2

theorem Driver.accessible_foldl_setAccess {d : Driver} {va size : Nat} (hmapped : d.mappedAt va size = true)
    {access : List CUmemAccessDesc} (hne : access ≠ []) (hok : d.env.fails d.clock = false) :
    (access.foldl (fun d _ => (d.cuMemSetAccess va size).2) d).accessible va size = true := by
  cases access with
  | nil => exact absurd rfl hne
  | cons ad access =>
    rw [List.foldl_cons]
    apply (Driver.foldl_setAccess_grows va size access (d.cuMemSetAccess va size).2).1.accessible
    obtain ⟨m, hm, heq⟩ := Driver.exists_mapping hmapped
    have hcall : (d.cuMemSetAccess va size).2 = ({ d with clock := d.clock + 1 } : Driver).grantRange va := by
      rw [Driver.cuMemSetAccess, Driver.call_ok (by rw [← heq.1, ← heq.2]; exact Driver.mappedAt_of_mem hm) hok]
    rw [hcall, Driver.accessible, List.any_eq_true]
    exact ⟨Driver.grantAccess va m, List.mem_map_of_mem hm, by simp [Driver.grantAccess, heq.1, heq.2]⟩

section Generic
variable {d : Driver} {x : RebuildItem}

theorem RebuildItem.mapNew_live {newHandle : Nat} (hok : (x.mapNew d).1 = some newHandle) :
    ∀ k, (x.mapNew d).2.isLive k = (d.isLive k || k == newHandle) := by
  have hcreate := d.cuMemCreate_view x.size
  unfold mapNew at hok ⊢
  cases heq : d.cuMemCreate x.size with
  | mk result d₁ =>
    rw [heq] at hcreate hok
    cases result with
    | none => exact absurd hok (by simp)
    | some h =>
      obtain ⟨-, h', heq', hnew⟩ := hcreate.resolve_left (by simp)
      obtain rfl := Option.some.inj heq'
      have hmap := d₁.cuMemMap_view x.vaddr x.size h
      dsimp only at hok ⊢
      cases heq₂ : d₁.cuMemMap x.vaddr x.size h with
      | mk mapped d₂ =>
        rw [heq₂] at hmap hok
        cases mapped with
        | false => exact absurd hok (by simp)
        | true =>
          obtain ⟨-, hd⟩ := hmap.resolve_left (by simp)
          obtain rfl := Option.some.inj hok
          intro k
          rw [(Driver.sameView_foldl_setAccess x.vaddr x.size x.access d₂).live, hd.live, hnew.live]

theorem RebuildItem.mapNew_isolated (h : x.OthersSucceed d) :
    ((x.mapNew d).1 = none → ∀ k, (x.mapNew d).2.isLive k = d.isLive k) ∧
      ((x.mapNew d).1 ≠ none → x.access ≠ [] → (x.mapNew d).2.accessible x.vaddr x.size = true) := by
  have hcreate := d.cuMemCreate_view x.size
  unfold OthersSucceed at h
  unfold mapNew
  cases heq : d.cuMemCreate x.size with
  | mk result d₁ =>
    rw [heq] at hcreate h
    cases result with
    | none =>
      obtain ⟨-, hd⟩ := hcreate.resolve_right (by simp)
      exact ⟨fun _ k => hd.live k, by simp⟩
    | some newHandle =>
      obtain ⟨-, h', heq', hnew⟩ := hcreate.resolve_left (by simp)
      obtain rfl := Option.some.inj heq'
      have hmap := d₁.cuMemMap_view x.vaddr x.size newHandle
      dsimp only at h ⊢
      cases heq₂ : d₁.cuMemMap x.vaddr x.size newHandle with
      | mk mapped d₂ =>
        rw [heq₂] at hmap h
        cases mapped with
        | false =>
          obtain ⟨-, hd⟩ := hmap.resolve_right (by simp)
          refine ⟨fun _ k => ?_, by simp⟩
          have hlive : d₂.isLive newHandle = true := by
            rw [hd.live, hnew.live, beq_self_eq_true, Bool.or_true]
          obtain ⟨d₃, hrelease, hd₃⟩ := Driver.cuMemRelease_ok h hlive
          dsimp only
          rw [hrelease, Bool.eq_iff_iff, hd₃.live, hd.live, hnew.live]
          by_cases hk : k = newHandle
          · subst hk
            simp [hnew.dead]
          · simp [hk]
        | true =>
          obtain ⟨-, hd⟩ := hmap.resolve_left (by simp)
          refine ⟨by simp, fun _ hne => ?_⟩
          have hat : d₂.mappedAt x.vaddr x.size = true := by simp [hd.mapped]
          exact Driver.accessible_foldl_setAccess hat hne (h 0 (List.length_pos_iff.2 hne))

theorem foldl_item_isolated (items : List RebuildItem) (r : AllocRun) (h : OnlyAllocsFail items r.drv)
    (haccess : ∀ x ∈ items, x.access ≠ []) :
    (∀ k, (items.foldl AllocRun.item r).drv.isLive k = true →
        r.drv.isLive k = true ∨ ∃ e ∈ (items.foldl AllocRun.item r).entries, e.newHandle = k) ∧
      (∀ e ∈ (items.foldl AllocRun.item r).entries, e ∈ r.entries ∨
        (items.foldl AllocRun.item r).drv.accessible e.slot.vaddr e.slot.size = true) ∧
      (items.foldl AllocRun.item r).drv.ReliableFrom := by
  induction items generalizing r with
  | nil => exact ⟨fun k hk => Or.inl hk, fun e he => Or.inl he, h⟩
  | cons x items ih =>
    obtain ⟨hx, hitems⟩ := List.forall_mem_cons.1 haccess
    obtain ⟨hdrv, hentries⟩ := r.item_spec x
    obtain ⟨hnone, hsome⟩ := RebuildItem.mapNew_isolated h.1
    obtain ⟨ih1, ih2, ih3⟩ := ih (r.item x) (hdrv ▸ h.2) hitems
    have hkeeps := (foldl_item_entries items (r.item x)).1
    rw [List.foldl_cons]
    refine ⟨fun k hk => ?_, fun e he => ?_, ih3⟩
    · rcases ih1 k hk with hk | hk
      swap
      · exact Or.inr hk
      rw [hdrv] at hk
      rcases hentries with ⟨hfail, -, -⟩ | ⟨newHandle, hok, heq, -⟩
      · exact Or.inl (hnone hfail k ▸ hk)
      · rw [RebuildItem.mapNew_live hok, Bool.or_eq_true, beq_iff_eq] at hk
        refine hk.imp_right fun hk =>
          ⟨⟨⟨x.key, x.vaddr, x.size, x.savedOffset.getD r.dataOffset⟩, newHandle, x.dev⟩, hkeeps _ ?_, hk.symm⟩
        rw [heq]
        exact List.mem_append_right _ (List.mem_singleton_self _)
    · rcases ih2 e he with he | hacc
      swap
      · exact Or.inr hacc
      rcases hentries with ⟨-, heq, -⟩ | ⟨newHandle, hok, heq, -⟩
      · exact Or.inl (heq ▸ he)
      · rw [heq] at he
        rcases List.mem_append.1 he with he | he
        · exact Or.inl he
        · obtain rfl := List.mem_singleton.1 he
          refine Or.inr ((foldl_item_grows items (r.item x)).accessible ?_)
          rw [hdrv]
          exact hsome (by simp [hok]) hx

end Generic

/-! ### The entries -/

theorem RebuildItem.mapped_sublist (items : List RebuildItem) (d : Driver) : (mapped items d).Sublist items := by
  induction items generalizing d with
  | nil => exact List.Sublist.refl _
  | cons x items ih =>
    unfold mapped
    split_ifs
    · exact (ih _).cons_cons x
    · exact (ih _).cons x

theorem map_key_slots (items : List RebuildItem) (off : Nat) :
    (RebuildItem.slots items off).map (·.key) = items.map (·.key) := by
  induction items generalizing off with
  | nil => rfl
  | cons x items ih => rw [RebuildItem.slots, List.map_cons, List.map_cons, ih]

section Entries
variable {items : List RebuildItem} {d : Driver}

theorem slots_rebuildAlloc (items : List RebuildItem) (d : Driver) :
    (rebuildAlloc items d).entries.map (·.slot) = RebuildItem.slots (RebuildItem.mapped items d) 0 :=
  foldl_item_mapped items ⟨d, [], 0⟩

theorem not_entry_of_failed (hkeys : items.Pairwise fun x y => x.key < y.key) {x : RebuildItem} (hx : x ∈ items)
    (hfail : x ∉ RebuildItem.mapped items d) : ∀ e ∈ (rebuildAlloc items d).entries, e.slot.key ≠ x.key := by
  intro e he heq
  have hmem := List.mem_map_of_mem (f := Slot.key) (List.mem_map_of_mem (f := RebuildEntry.slot) he)
  rw [slots_rebuildAlloc, map_key_slots, heq] at hmem
  obtain ⟨y, hy, hyx⟩ := List.mem_map.1 hmem
  have hnodup : (items.map (·.key)).Nodup := List.pairwise_map.2 (hkeys.imp Nat.ne_of_lt)
  rw [List.inj_on_of_nodup_map hnodup ((RebuildItem.mapped_sublist items d).subset hy) hx hyx] at hy
  exact hfail hy

theorem rebuildCopy_bytes (h : OnlyAllocsFail items d) (haccess : ∀ x ∈ items, x.access ≠ []) (fns : IpcFns)
    {buf : HostBuf} (hfits : ∀ e ∈ (rebuildAlloc items d).entries, e.slot.offset + e.slot.size ≤ buf.size) :
    ∀ e ∈ (rebuildAlloc items d).entries, ∀ i < e.slot.size,
      (rebuildCopy fns buf (rebuildAlloc items d)).drv.mem (e.slot.vaddr + i) = buf.data (e.slot.offset + i) := by
  obtain ⟨-, hacc, hrel⟩ := foldl_item_isolated items ⟨d, [], 0⟩ h haccess
  have htracks : (rebuildAlloc items d).Tracks d := (AllocRun.tracks_start d 0).foldl items
  have hcopy := rebuildCopy_spec fns buf htracks.apart
  have hdone := rebuildCopy_reliable fns (r := rebuildAlloc items d) hrel fun e he =>
    ⟨hfits e he, (hacc e he).resolve_left (by simp)⟩
  intro e he
  exact hcopy.restored _ (hdone e he)

end Entries

theorem IpcFns.Rebuildable.all {fns : IpcFns} (h : fns.Rebuildable) :
    (fns.cuMemCreate && fns.cuMemMap && fns.cuMemcpyHtoD && fns.cuMemAddressReserve) = true := by
  rw [h.create, h.map, h.htod, h.reserve]
  rfl

namespace IpcState

section Tables
variable {s : IpcState}

theorem exports_foldl_trackExport (entries : List RebuildEntry) (s : IpcState)
    (hnodup : (entries.map (·.slot.key)).Nodup) :
    (∀ e ∈ entries, ∀ rec, s.exports[e.slot.key]? = some rec → ∃ fd, (entries.foldl trackExport s).exports[e.slot.key]? =
        some { rec with localHandle := e.newHandle, exportedFd := fd, tornDown := false }) ∧
      ∀ i, (∀ e ∈ entries, e.slot.key ≠ i) → (entries.foldl trackExport s).exports[i]? = s.exports[i]? := by
  induction entries generalizing s with
  | nil => exact ⟨by simp, fun _ _ => rfl⟩
  | cons e entries ih =>
    rw [List.map_cons, List.nodup_cons] at hnodup
    obtain ⟨ih1, ih2⟩ := ih (s.trackExport e) hnodup.2
    have hother : ∀ i, e.slot.key ≠ i → (s.trackExport e).exports[i]? = s.exports[i]? := by
      intro i hne
      unfold trackExport
      split
      · rfl
      · exact List.getElem?_set_ne hne
    have hlater : ∀ e' ∈ entries, e.slot.key ≠ e'.slot.key := fun e' he' heq =>
      hnodup.1 (heq ▸ List.mem_map_of_mem he')
    rw [List.foldl_cons]
    refine ⟨fun e' he' rec hrec => ?_, fun i hi => ?_⟩
    · rcases List.mem_cons.1 he' with rfl | he'
      · rw [ih2 _ fun e'' he'' => (hlater e'' he'').symm]
        unfold trackExport
        rw [hrec]
        exact ⟨_, List.getElem?_set_self (List.getElem?_eq_some_iff.1 hrec).1⟩
      · exact ih1 e' he' rec ((hother _ (hlater e' he')).trans hrec)
    · obtain ⟨he, hrest⟩ := List.forall_mem_cons.1 hi
      rw [ih2 i hrest, hother i he]

theorem localAllocs_foldl_trackLocal (entries : List RebuildEntry) (s : IpcState)
    (hnodup : (entries.map (·.slot.key)).Nodup) :
    (∀ e ∈ entries, ∀ rec, s.localAllocs[e.slot.key]? = some rec →
      (entries.foldl trackLocal s).localAllocs[e.slot.key]? = some { rec with handle := e.newHandle, tornDown := false }) ∧
      ∀ i, (∀ e ∈ entries, e.slot.key ≠ i) → (entries.foldl trackLocal s).localAllocs[i]? = s.localAllocs[i]? := by
  induction entries generalizing s with
  | nil => exact ⟨by simp, fun _ _ => rfl⟩
  | cons e entries ih =>
    rw [List.map_cons, List.nodup_cons] at hnodup
    obtain ⟨ih1, ih2⟩ := ih (s.trackLocal e) hnodup.2
    have hother : ∀ i, e.slot.key ≠ i → (s.trackLocal e).localAllocs[i]? = s.localAllocs[i]? := by
      intro i hne
      unfold trackLocal
      split
      · rfl
      · exact List.getElem?_set_ne hne
    have hlater : ∀ e' ∈ entries, e.slot.key ≠ e'.slot.key := fun e' he' heq =>
      hnodup.1 (heq ▸ List.mem_map_of_mem he')
    rw [List.foldl_cons]
    refine ⟨fun e' he' rec hrec => ?_, fun i hi => ?_⟩
    · rcases List.mem_cons.1 he' with rfl | he'
      · rw [ih2 _ fun e'' he'' => (hlater e'' he'').symm]
        unfold trackLocal
        rw [hrec]
        exact List.getElem?_set_self (List.getElem?_eq_some_iff.1 hrec).1
      · exact ih1 e' he' rec ((hother _ (hlater e' he')).trans hrec)
    · obtain ⟨he, hrest⟩ := List.forall_mem_cons.1 hi
      rw [ih2 i hrest, hother i he]

theorem pairwise_key_localItems (s : IpcState) : s.localItems.Pairwise fun x y => x.key < y.key := by
  rw [localItems, List.pairwise_map]
  refine List.Pairwise.filter _ ?_
  have hidx : (s.localAllocs.zipIdx.map Prod.snd).Pairwise (· < ·) := by
    rw [List.zipIdx_map_snd]
    exact List.pairwise_lt_range'
  exact List.pairwise_map.1 hidx

end Tables

/-! ### Exports -/

/-- The exports are saved as a whole: all functions are there, no call of the save fails, no record has been torn
down before, and every range can be read. -/
structure ExportsSaveable (s : IpcState) : Prop where
  resolved : s.fns.Resolved
  rebuildable : s.fns.Rebuildable
  reliable : s.drv.env.Reliable
  live : ∀ rec ∈ s.exports, rec.tornDown = false
  readable : ∀ rec ∈ s.exports, rec.active = true → s.drv.accessible rec.mappedVaddr rec.mappedSize = true

/-- The rebuild of the saved exports, on any driver. -/
def exportsAfter (s : IpcState) (data : Nat → Byte) (d : Driver) : IpcState :=
  ({ (s.saveExports data).2.1 with drv := d }.ipcRebuildAndRestoreAllExports (s.saveExports data).2.2).2

/-- A record that the rebuild clears reads its own bytes, one whose memory could not be had stays torn down, and
every new handle is that of a record. -/
structure ExportsIsolated (s : IpcState) (data : Nat → Byte) (d : Driver) : Prop where
  bytes : ∀ (i : Nat) (rec rec' : IpcExportRecord), (s.saveExports data).2.1.exports[i]? = some rec →
    rec.tornDown = true → (s.exportsAfter data d).exports[i]? = some rec' → rec'.tornDown = false →
    ∀ j < rec.mappedSize, (s.exportsAfter data d).drv.mem (rec.mappedVaddr + j) = s.drv.mem (rec.mappedVaddr + j)
  failed : ∀ x ∈ (s.saveExports data).2.1.exportItems, x ∉ RebuildItem.mapped (s.saveExports data).2.1.exportItems d →
    ∃ rec, (s.exportsAfter data d).exports[x.key]? = some rec ∧ rec.tornDown = true
  noLeak : ∀ k, (s.exportsAfter data d).drv.isLive k = true →
    d.isLive k = true ∨ ∃ rec ∈ (s.exportsAfter data d).exports, rec.tornDown = false ∧ rec.localHandle = k

section Exports
variable {s : IpcState}

theorem ExportsSaveable.saved (h : s.ExportsSaveable) (data : Nat → Byte) :
    (s.saveExports data).2.2.size = s.ipcGetExportDataSize ∧ Saved s (s.saveExports data).2.1 (s.saveExports data).2.2 :=
  (saved_of_ok h.reliable h.resolved le_rfl ((exportCopies_ok_iff h.reliable).2 h.readable)).2

theorem rebuildExports_records (hfns : s.fns.Rebuildable) (buf : HostBuf) :
    (∀ e ∈ (rebuildAlloc s.exportItems s.drv).entries, ∀ rec, s.exports[e.slot.key]? = some rec →
      ∃ fd, (s.ipcRebuildAndRestoreAllExports buf).2.exports[e.slot.key]? =
        some { rec with localHandle := e.newHandle, exportedFd := fd, tornDown := false }) ∧
      ∀ i, (∀ e ∈ (rebuildAlloc s.exportItems s.drv).entries, e.slot.key ≠ i) →
        (s.ipcRebuildAndRestoreAllExports buf).2.exports[i]? = s.exports[i]? := by
  obtain ⟨hentry, hother⟩ := exports_foldl_trackExport (rebuildAlloc s.exportItems s.drv).ordered
    { s with drv := (rebuildCopy s.fns buf (rebuildAlloc s.exportItems s.drv)).drv }
    (nodup_ordered s.pairwise_key_exportItems s.drv)
  rw [rebuildExports_eq hfns.all buf]
  exact ⟨fun e he rec hrec => hentry e (mem_ordered.2 he) rec hrec,
    fun i hi => hother i fun e he => hi e (mem_ordered.1 he)⟩

theorem Saved.entry {s' : IpcState} {buf : HostBuf} (hsaved : Saved s s' buf)
    (hlive : ∀ rec ∈ s.exports, rec.tornDown = false) {d : Driver} {e : RebuildEntry}
    (he : e ∈ (rebuildAlloc s'.exportItems d).entries) :
    (∃ rec, s'.exports[e.slot.key]? = some rec ∧ rec.mappedVaddr = e.slot.vaddr ∧ rec.mappedSize = e.slot.size) ∧
      e.slot.offset + e.slot.size ≤ s.ipcGetExportDataSize ∧
      ∀ j < e.slot.size, buf.data (e.slot.offset + j) = s.drv.mem (e.slot.vaddr + j) := by
  obtain ⟨x, hx, hkey, hva, hsz, -, hoff⟩ := ((foldl_item_entries _ ⟨d, [], 0⟩).2 e he).resolve_left (by simp)
  obtain ⟨rec, hrec, hactive, hva', hsz', -, o, ho, hbound, hbytes⟩ := hsaved.copied.item hlive hx
  obtain ⟨y, -, -, ⟨fd, hrec'⟩, -⟩ := hsaved.active _ rec hrec hactive
  rw [hkey, hva, hsz, hoff o ho]
  refine ⟨⟨_, hrec', hva'.symm, hsz'.symm⟩, by omega, fun j hj => ?_⟩
  rw [hva']
  exact hbytes j (hsz' ▸ hj)

theorem exportsIsolated (h : s.ExportsSaveable) {data : Nat → Byte} {d : Driver}
    (hfail : OnlyAllocsFail (s.saveExports data).2.1.exportItems d) : s.ExportsIsolated data d := by
  obtain ⟨hsize, hsaved⟩ := h.saved data
  have hfns : (s.saveExports data).2.1.fns.Rebuildable := hsaved.fns ▸ h.rebuildable
  have hsame := same_rebuildExports (s := { (s.saveExports data).2.1 with drv := d }) hfns (s.saveExports data).2.2
  obtain ⟨hentry, hother⟩ := rebuildExports_records (s := { (s.saveExports data).2.1 with drv := d }) hfns
    (s.saveExports data).2.2
  have haccess : ∀ x ∈ (s.saveExports data).2.1.exportItems, x.access ≠ [] := by
    intro x hx
    obtain ⟨-, -, -, -, -, hne, -⟩ := hsaved.copied.item h.live hx
    exact hne
  have hfits : ∀ e ∈ (rebuildAlloc (s.saveExports data).2.1.exportItems d).entries,
      e.slot.offset + e.slot.size ≤ (s.saveExports data).2.2.size := by
    intro e he
    rw [hsize]
    exact (hsaved.entry h.live he).2.1
  have hbytes := rebuildCopy_bytes hfail haccess (s.saveExports data).2.1.fns hfits
  refine ⟨fun i rec rec' hrec htorn hrec' hback j hj => ?_, fun x hx hfailed => ?_, fun k hk => ?_⟩
  · -- a record that is not torn down any more has an entry
    obtain ⟨e, he, rfl⟩ : ∃ e ∈ (rebuildAlloc (s.saveExports data).2.1.exportItems d).entries, e.slot.key = i := by
      by_contra hno
      have hkeep := hother i fun e he heq => hno ⟨e, he, heq⟩
      obtain rfl := Option.some.inj (hrec'.symm.trans (hkeep.trans hrec))
      exact Bool.false_ne_true (hback.symm.trans htorn)
    obtain ⟨⟨rec₁, hrec₁, hva, hsz⟩, -, hown⟩ := hsaved.entry h.live he
    obtain rfl := Option.some.inj (hrec.symm.trans hrec₁)
    rw [hva]
    rw [hsz] at hj
    exact (congrFun hsame.mem _).trans ((hbytes e he j hj).trans (hown j hj))
  · have hnone := hother x.key fun e he => not_entry_of_failed (pairwise_key_exportItems _) hx hfailed e he
    obtain ⟨y, hy, rfl⟩ := List.mem_map.1 hx
    obtain ⟨hmem, htorn⟩ := List.mem_filter.1 hy
    simp only [IpcExportRecord.tornActive, Bool.and_eq_true] at htorn
    exact ⟨y.1, hnone.trans (List.mem_zipIdx_iff_getElem?.1 hmem), htorn.1.1.1⟩
  · have hview := sameView_rebuildExports (s := { (s.saveExports data).2.1 with drv := d }) hfns.all (s.saveExports data).2.2
    have hlive : (rebuildAlloc (s.saveExports data).2.1.exportItems d).drv.isLive k = true := (hview.live k).symm.trans hk
    refine ((foldl_item_isolated (s.saveExports data).2.1.exportItems ⟨d, [], 0⟩ hfail haccess).1 k hlive).imp_right ?_
    rintro ⟨e, he, rfl⟩
    obtain ⟨⟨rec, hrec, -⟩, -⟩ := hsaved.entry h.live he
    obtain ⟨fd, hnew⟩ := hentry e he rec hrec
    exact ⟨_, List.mem_of_getElem? hnew, rfl, rfl⟩

end Exports

/-! ### Local allocations -/

/-- The save of the local allocations into a fresh buffer of the size asked for. -/
def saveLocals (s : IpcState) (data : Nat → Byte) : Option Nat × IpcState × HostBuf :=
  s.ipcSaveAndTeardownLocalAllocs ⟨s.ipcGetLocalAllocDataSize, data⟩

def localsAfter (s : IpcState) (data : Nat → Byte) (d : Driver) : IpcState :=
  ({ (s.saveLocals data).2.1 with drv := d }.ipcRebuildLocalAllocs (s.saveLocals data).2.2).2

structure LocalsIsolated (s : IpcState) (data : Nat → Byte) (d : Driver) : Prop where
  bytes : ∀ (i : Nat) (rec rec' : CuMemLocalAllocRecord), (s.saveLocals data).2.1.localAllocs[i]? = some rec →
    rec.tornDown = true → (s.localsAfter data d).localAllocs[i]? = some rec' → rec'.tornDown = false →
    ∀ j < rec.size, (s.localsAfter data d).drv.mem (rec.vaddr + j) = s.drv.mem (rec.vaddr + j)
  failed : ∀ x ∈ (s.saveLocals data).2.1.localItems, x ∉ RebuildItem.mapped (s.saveLocals data).2.1.localItems d →
    ∃ rec, (s.localsAfter data d).localAllocs[x.key]? = some rec ∧ rec.tornDown = true
  noLeak : ∀ k, (s.localsAfter data d).drv.isLive k = true →
    d.isLive k = true ∨ ∃ rec ∈ (s.localsAfter data d).localAllocs, rec.tornDown = false ∧ rec.handle = k

/-- What the rebuild goes through after the save. -/
def tornItem (s : IpcState) (x : LocalAllocEntry × Nat) : RebuildItem :=
  s.localItem ({ x.1.record with tornDown := true }, x.2)

def tornItems (s : IpcState) : List RebuildItem := s.deviceOrder.zipIdx.map s.tornItem

/-- The `cuMemCreate` and the `cuMemMap` of the allocation succeed. -/
def Rebuilt (s : IpcState) (d : Driver) (e : LocalAllocEntry) : Prop :=
  ∃ x ∈ RebuildItem.mapped s.tornItems d, x.vaddr = e.vaddr

/-- With an allocation, every one with a smaller handle gets its memory, and is on no larger device. -/
def RebuiltInOrder (s : IpcState) (d : Driver) : Prop :=
  ∀ e ∈ s.localEntries, ∀ e' ∈ s.localEntries, e.handle < e'.handle → s.Rebuilt d e' →
    s.Rebuilt d e ∧ e.prop.locationId ≤ e'.prop.locationId

section Locals
variable {s : IpcState}

theorem pairwise_deviceOrder (s : IpcState) : s.deviceOrder.Pairwise fun e e' =>
    e.prop.locationId < e'.prop.locationId ∨ e.prop.locationId = e'.prop.locationId ∧ e.handle < e'.handle := by
  have hplaced : (place (·.size) 0 s.localEntries).Pairwise fun x y => x.1.handle < y.1.handle := by
    have h := s.pairwise_handle
    rw [← map_fst_place (·.size) 0 s.localEntries, List.pairwise_map] at h
    exact h
  rw [deviceOrder, List.pairwise_map]
  exact pairwise_lex_flatten_group _ hplaced

theorem exists_rebuilt (s : IpcState) (d : Driver) : ∃ l : List (LocalAllocEntry × Nat),
    l.Sublist s.deviceOrder.zipIdx ∧ RebuildItem.mapped s.tornItems d = l.map s.tornItem :=
  List.sublist_map_iff.1 (RebuildItem.mapped_sublist s.tornItems d)

/-- The entries take consecutive places in the order of the allocations that are rebuilt. -/
theorem slots_rebuilt {d : Driver} {l : List (LocalAllocEntry × Nat)}
    (hmapped : RebuildItem.mapped s.tornItems d = l.map s.tornItem) :
    (rebuildAlloc s.tornItems d).entries.map (·.slot) =
      (place (·.1.size) 0 l).map fun y => ⟨y.1.2, y.1.1.vaddr, y.1.1.size, y.2⟩ := by
  rw [slots_rebuildAlloc, hmapped, slots_localItems, place_map, List.map_map]
  · rfl
  · intro x hx
    obtain ⟨y, -, rfl⟩ := List.mem_map.1 hx
    rfl

theorem fst_mem_of_sublist {l : List (LocalAllocEntry × Nat)} (hl : l.Sublist s.deviceOrder.zipIdx) :
    (l.map Prod.fst).Sublist s.deviceOrder := by
  have h := hl.map Prod.fst
  rwa [List.zipIdx_map_fst] at h

theorem LocalsMapped.eq_of_vaddr_eq (h : s.LocalsMapped) {e e' : LocalAllocEntry} (he : e ∈ s.localEntries)
    (he' : e' ∈ s.localEntries) (heq : e.vaddr = e'.vaddr) : e = e' := by
  by_contra hne
  have hap := h.vapart.forall he he' hne
  have hpos := h.pos he
  have hpos' := h.pos he'
  unfold LocalAllocEntry.vapart at hap
  omega

theorem rebuilt_iff (h : s.LocalsMapped) {d : Driver} {l : List (LocalAllocEntry × Nat)}
    (hl : l.Sublist s.deviceOrder.zipIdx) (hmapped : RebuildItem.mapped s.tornItems d = l.map s.tornItem)
    {e : LocalAllocEntry} (he : e ∈ s.localEntries) : s.Rebuilt d e ↔ e ∈ l.map Prod.fst := by
  unfold Rebuilt
  rw [hmapped]
  constructor
  · rintro ⟨x, hx, hva⟩
    obtain ⟨y, hy, rfl⟩ := List.mem_map.1 hx
    have hmem := List.mem_map_of_mem (f := Prod.fst) hy
    have hye := s.perm_deviceOrder.mem_iff.1 ((fst_mem_of_sublist hl).subset hmem)
    exact h.eq_of_vaddr_eq hye he hva ▸ hmem
  · intro hmem
    obtain ⟨y, hy, rfl⟩ := List.mem_map.1 hmem
    exact ⟨s.tornItem y, List.mem_map_of_mem hy, rfl⟩

theorem rebuiltInOrder_iff (h : s.LocalsMapped) {d : Driver} {l : List (LocalAllocEntry × Nat)}
    (hl : l.Sublist s.deviceOrder.zipIdx) (hmapped : RebuildItem.mapped s.tornItems d = l.map s.tornItem) :
    s.RebuiltInOrder d ↔ l.map Prod.fst <+: s.localEntries := by
  have hsub := fst_mem_of_sublist hl
  have hmem : ∀ e ∈ l.map Prod.fst, e ∈ s.localEntries := fun e he => s.perm_deviceOrder.mem_iff.1 (hsub.subset he)
  have hdevs := s.pairwise_deviceOrder.sublist hsub
  constructor
  · intro hord
    refine prefix_of_lowerClosed (f := (·.handle)) (hdevs.imp_of_mem ?_) s.pairwise_handle hmem ?_
    · rintro e e' he he' (hlt | ⟨-, hlt⟩)
      · have hne : e.handle ≠ e'.handle := by
          intro heq
          exact absurd (eq_of_handle_eq (hmem e he) (hmem e' he') heq ▸ hlt) (lt_irrefl _)
        rcases Nat.lt_or_gt_of_ne hne with hlt' | hgt
        · exact hlt'
        · have hreb := (rebuilt_iff h hl hmapped (hmem e he)).2 he
          exact absurd hlt (hord e' (hmem e' he') e (hmem e he) hgt hreb).2.not_gt
      · exact hlt
    · intro e he e' he' hlt
      have hreb := (rebuilt_iff h hl hmapped (hmem e' he')).2 he'
      exact (rebuilt_iff h hl hmapped he).1 (hord e he e' (hmem e' he') hlt hreb).1
  · rintro ⟨rest, hrest⟩ e he e' he' hlt hreb
    rw [rebuilt_iff h hl hmapped he'] at hreb
    have hhandles := s.pairwise_handle
    rw [← hrest] at hhandles
    obtain ⟨hfirst, -, hcross⟩ := List.pairwise_append.1 hhandles
    have hin : e ∈ l.map Prod.fst := by
      rcases List.mem_append.1 (hrest ▸ he) with hin | hin
      · exact hin
      · exact absurd hlt (hcross e' hreb e hin).not_gt
    refine ⟨(rebuilt_iff h hl hmapped he).2 hin, ?_⟩
    exact rel_of_key_lt hfirst (hdevs.imp fun hab => hab.elim (fun hlt => hlt.le) fun hab => hab.1.le) hin hreb hlt

/-! What the save of mapped allocations leaves for the rebuild. -/

theorem rebuildLocals_records (hcreate : s.fns.cuMemCreate = true) (hmap : s.fns.cuMemMap = true)
    (hhtod : s.fns.cuMemcpyHtoD = true) (buf : HostBuf) :
    (s.ipcRebuildLocalAllocs buf).2.drv = (rebuildCopy s.fns buf (rebuildAlloc s.localItems s.drv)).drv ∧
      (∀ e ∈ (rebuildAlloc s.localItems s.drv).entries, ∀ rec, s.localAllocs[e.slot.key]? = some rec →
        (s.ipcRebuildLocalAllocs buf).2.localAllocs[e.slot.key]? =
          some { rec with handle := e.newHandle, tornDown := false }) ∧
      ∀ i, (∀ e ∈ (rebuildAlloc s.localItems s.drv).entries, e.slot.key ≠ i) →
        (s.ipcRebuildLocalAllocs buf).2.localAllocs[i]? = s.localAllocs[i]? := by
  obtain ⟨hentry, hother⟩ := localAllocs_foldl_trackLocal (rebuildAlloc s.localItems s.drv).ordered
    { s with drv := (rebuildCopy s.fns buf (rebuildAlloc s.localItems s.drv)).drv }
    (nodup_ordered s.pairwise_key_localItems s.drv)
  unfold ipcRebuildLocalAllocs
  simp only [hcreate, hmap, hhtod, Bool.and_self, Bool.not_true, Bool.false_eq_true, if_false]
  refine ⟨foldl_trackLocal_drv _ { s with drv := _ }, fun e he rec hrec => ?_, fun i hi => ?_⟩
  · exact hentry e (mem_ordered.2 he) rec hrec
  · exact hother i fun e he => hi e (mem_ordered.1 he)

/-- What the save leaves: the buffer in handle order, the records in device order. -/
theorem LocalsMapped.saved (h : s.LocalsMapped) (data : Nat → Byte) :
    (s.saveLocals data).2.1.fns = s.fns ∧ (s.saveLocals data).2.1.localItems = s.tornItems ∧
      (s.saveLocals data).2.1.localAllocs = s.deviceOrder.map (fun e => { e.record with tornDown := true }) ∧
      (s.saveLocals data).2.2.size = s.ipcGetLocalAllocDataSize ∧
      ∀ x ∈ place (·.size) 0 s.localEntries, ∀ i < x.1.size,
        (s.saveLocals data).2.2.data (x.2 + i) = s.drv.mem (x.1.vaddr + i) := by
  obtain ⟨drv, released, data', hsave, -, -, hdata⟩ := save_mapped h data
  unfold saveLocals
  rw [hsave]
  exact ⟨rfl, localItems_of_torn rfl, rfl, rfl, hdata⟩

/-- What the rebuild makes of the saved allocations: each place of the ones it rebuilds is that of an entry. -/
structure RebuildsAt (s : IpcState) (data : Nat → Byte) (d : Driver) (l : List (LocalAllocEntry × Nat)) : Prop where
  sublist : l.Sublist s.deviceOrder.zipIdx
  mapped : RebuildItem.mapped s.tornItems d = l.map s.tornItem
  copied : ∀ y ∈ place (·.1.size) 0 l, ∀ i < y.1.1.size,
    (s.localsAfter data d).drv.mem (y.1.1.vaddr + i) = (s.saveLocals data).2.2.data (y.2 + i)
  cleared : ∀ y ∈ l, ∃ newHandle,
    (s.localsAfter data d).localAllocs[y.2]? = some { y.1.record with handle := newHandle, tornDown := false }
  kept : ∀ i, (∀ y ∈ l, y.2 ≠ i) → (s.localsAfter data d).localAllocs[i]? = (s.saveLocals data).2.1.localAllocs[i]?
  live : ∀ k, (s.localsAfter data d).drv.isLive k = true → d.isLive k = true ∨
    ∃ rec ∈ (s.localsAfter data d).localAllocs, rec.tornDown = false ∧ rec.handle = k

theorem LocalsMapped.rebuildsAt (h : s.LocalsMapped) (data : Nat → Byte) {d : Driver}
    (hfail : OnlyAllocsFail s.tornItems d) {l : List (LocalAllocEntry × Nat)} (hl : l.Sublist s.deviceOrder.zipIdx)
    (hmapped : RebuildItem.mapped s.tornItems d = l.map s.tornItem) : s.RebuildsAt data d l := by
  obtain ⟨hfns, hitems, hrecs, hsize, -⟩ := h.saved data
  have hslots := slots_rebuilt hmapped
  have haccess : ∀ x ∈ s.tornItems, x.access ≠ [] := by
    intro x hx
    obtain ⟨y, -, rfl⟩ := List.mem_map.1 hx
    simp only [tornItem, localItem, h.setAccess, if_true]
    exact s.accessOf_ne_nil _ _
  have hsum : ((l.map Prod.fst).map (·.size)).sum ≤ s.ipcGetLocalAllocDataSize :=
    (((fst_mem_of_sublist hl).map _).sum_le_sum fun _ _ => Nat.zero_le _).trans
      (s.perm_deviceOrder.map (·.size)).sum_eq.le
  rw [List.map_map] at hsum
  have hfits : ∀ e ∈ (rebuildAlloc s.tornItems d).entries, e.slot.offset + e.slot.size ≤ (s.saveLocals data).2.2.size := by
    intro e he
    have hslot := List.mem_map_of_mem (f := RebuildEntry.slot) he
    rw [hslots] at hslot
    obtain ⟨y, hy, heq⟩ := List.mem_map.1 hslot
    have hbound := (bounds_of_mem_place hy).2
    rw [Nat.zero_add] at hbound
    rw [← heq, hsize]
    exact hbound.trans hsum
  obtain ⟨hdrv, hentry, hother⟩ := rebuildLocals_records (s := { (s.saveLocals data).2.1 with drv := d })
    (hfns ▸ h.create) (hfns ▸ h.map) (hfns ▸ h.htod) (s.saveLocals data).2.2
  have hitems' : ({ (s.saveLocals data).2.1 with drv := d } : IpcState).localItems = s.tornItems := hitems
  rw [hitems'] at hdrv hentry hother
  have hbytes := rebuildCopy_bytes hfail haccess (s.saveLocals data).2.1.fns hfits
  -- a numbered allocation has its entry, and an entry its numbered allocation
  have hin : ∀ y ∈ place (·.1.size) 0 l, ∃ e ∈ (rebuildAlloc s.tornItems d).entries,
      e.slot = ⟨y.1.2, y.1.1.vaddr, y.1.1.size, y.2⟩ := fun y hy => List.mem_map.1 (hslots ▸ List.mem_map_of_mem hy)
  have hout : ∀ e ∈ (rebuildAlloc s.tornItems d).entries, ∃ y ∈ l, y.2 = e.slot.key := by
    intro e he
    have hslot := List.mem_map_of_mem (f := RebuildEntry.slot) he
    rw [hslots] at hslot
    obtain ⟨y, hy, heq⟩ := List.mem_map.1 hslot
    have hyl := List.mem_map_of_mem (f := Prod.fst) hy
    rw [map_fst_place] at hyl
    exact ⟨y.1, hyl, congrArg Slot.key heq⟩
  have hrec : ∀ y ∈ l, (s.saveLocals data).2.1.localAllocs[y.2]? = some { y.1.record with tornDown := true } := by
    intro y hy
    rw [hrecs, List.getElem?_map, List.mem_zipIdx_iff_getElem?.1 (hl.subset hy)]
    rfl
  have hentry' : ∀ e ∈ (rebuildAlloc s.tornItems d).entries, ∀ y ∈ l, y.2 = e.slot.key →
      (s.localsAfter data d).localAllocs[y.2]? = some { y.1.record with handle := e.newHandle, tornDown := false } := by
    intro e he y hy hkey
    have hold := hrec y hy
    rw [hkey] at hold ⊢
    exact hentry e he { y.1.record with tornDown := true } hold
  refine ⟨hl, hmapped, fun y hy i hi => ?_, fun y hy => ?_, fun i hi => ?_, fun k hk => ?_⟩
  · obtain ⟨e, he, heq⟩ := hin y hy
    have hcopy := hbytes e he i (by rw [heq]; exact hi)
    rw [heq] at hcopy
    exact (congrArg (fun d : Driver => d.mem (y.1.1.vaddr + i)) hdrv).trans hcopy
  · obtain ⟨z, hz, rfl⟩ : ∃ z ∈ place (·.1.size) 0 l, z.1 = y :=
      List.mem_map.1 (by rw [map_fst_place]; exact hy)
    obtain ⟨e, he, heq⟩ := hin z hz
    exact ⟨e.newHandle, hentry' e he z.1 hy (congrArg Slot.key heq).symm⟩
  · refine hother i fun e he heq => ?_
    obtain ⟨y, hy, hyk⟩ := hout e he
    exact hi y hy (hyk.trans heq)
  · have hview := sameView_rebuildCopy (s.saveLocals data).2.1.fns (s.saveLocals data).2.2 s.tornItems d
    have hlive : (rebuildAlloc s.tornItems d).drv.isLive k = true :=
      (hview.live k).symm.trans ((congrArg (fun d : Driver => d.isLive k) hdrv).symm.trans hk)
    refine ((foldl_item_isolated s.tornItems ⟨d, [], 0⟩ hfail haccess).1 k hlive).imp_right ?_
    rintro ⟨e, he, rfl⟩
    obtain ⟨y, hy, hkey⟩ := hout e he
    exact ⟨_, List.mem_of_getElem? (hentry' e he y hy hkey), rfl, rfl⟩

theorem RebuildsAt.isolated (h : s.LocalsMapped) {data : Nat → Byte} {d : Driver} {l : List (LocalAllocEntry × Nat)}
    (hl : s.RebuildsAt data d l) (hown : ∀ x ∈ place (·.size) 0 (l.map Prod.fst), x ∈ place (·.size) 0 s.localEntries) :
    s.LocalsIsolated data d := by
  obtain ⟨-, hitems, hrecs, -, hdata⟩ := h.saved data
  have htorn : ∀ (i : Nat) (rec : CuMemLocalAllocRecord), (s.saveLocals data).2.1.localAllocs[i]? = some rec →
      rec.tornDown = true ∧ ∃ e : LocalAllocEntry, s.deviceOrder[i]? = some e ∧ rec.vaddr = e.vaddr ∧ rec.size = e.size := by
    intro i rec hrec
    rw [hrecs, List.getElem?_map] at hrec
    obtain ⟨e, he, rfl⟩ := Option.map_eq_some_iff.1 hrec
    exact ⟨rfl, e, he, rfl, rfl⟩
  refine ⟨fun i rec rec' hrec _ hrec' hback j hj => ?_, fun x hx hfailed => ?_, hl.live⟩
  · obtain ⟨htrue, e, he, hva, hsz⟩ := htorn i rec hrec
    obtain ⟨y, hy, rfl⟩ : ∃ y ∈ l, y.2 = i := by
      by_contra hno
      obtain rfl := Option.some.inj (hrec'.symm.trans ((hl.kept i fun y hy heq => hno ⟨y, hy, heq⟩).trans hrec))
      exact Bool.false_ne_true (hback.symm.trans htrue)
    obtain rfl : y.1 = e :=
      Option.some.inj ((List.mem_zipIdx_iff_getElem?.1 (hl.sublist.subset hy)).symm.trans he)
    obtain ⟨z, hz, rfl⟩ : ∃ z ∈ place (·.1.size) 0 l, z.1 = y :=
      List.mem_map.1 (by rw [map_fst_place]; exact hy)
    have hplace : (z.1.1, z.2) ∈ place (·.size) 0 s.localEntries := by
      apply hown
      rw [place_map]
      exact List.mem_map.2 ⟨z, hz, rfl⟩
    rw [hsz] at hj
    rw [hva, hl.copied z hz j hj]
    exact hdata _ hplace j hj
  · rw [hitems] at hx hfailed
    rw [hl.mapped] at hfailed
    obtain ⟨y, hy, rfl⟩ := List.mem_map.1 hx
    have hnone := hl.kept y.2 fun z hz heq => by
      have hzy : z = y := Prod.ext (Option.some.inj ((List.mem_zipIdx_iff_getElem?.1 (hl.sublist.subset hz)).symm.trans
        (heq ▸ List.mem_zipIdx_iff_getElem?.1 hy))) heq
      exact hfailed (hzy ▸ List.mem_map_of_mem hz)
    rw [hrecs, List.getElem?_map, List.mem_zipIdx_iff_getElem?.1 hy] at hnone
    exact ⟨_, hnone, rfl⟩

/-- If the bytes come back whatever they are, the ones that are rebuilt are the first ones of the save. -/
theorem rebuiltInOrder_of_isolated (h : s.LocalsMapped) {d : Driver} (hfail : OnlyAllocsFail s.tornItems d)
    (hiso : ∀ mem data, (s.withMem mem).LocalsIsolated data d) : s.RebuiltInOrder d := by
  obtain ⟨l, hl, hmapped⟩ := s.exists_rebuilt d
  have hsub := fst_mem_of_sublist hl
  have hmem : ∀ e ∈ l.map Prod.fst, e ∈ s.localEntries := fun e he => s.perm_deviceOrder.mem_iff.1 (hsub.subset he)
  rw [rebuiltInOrder_iff h hl hmapped]
  refine prefix_of_place_subset (·.size) 0 (fun e he => h.pos (hmem e he)) (fun e he => h.pos he) fun x hx => ?_
  rw [place_map] at hx
  obtain ⟨z, hz, rfl⟩ := List.mem_map.1 hx
  have hzl : z.1 ∈ l := by
    have := List.mem_map_of_mem (f := Prod.fst) hz
    rwa [map_fst_place] at this
  have hze := hmem z.1.1 (List.mem_map_of_mem hzl)
  have hbound : z.2 < (s.localEntries.map (·.size)).sum := by
    have hlast := (bounds_of_mem_place hz).2
    have hpos : 0 < z.1.1.size := h.pos hze
    have hsum := ((hsub.map (·.size)).sum_le_sum fun _ _ => Nat.zero_le _).trans
      (s.perm_deviceOrder.map (·.size)).sum_eq.le
    rw [List.map_map] at hsum
    dsimp only [Function.comp_def] at hlast hsum
    omega
  -- with contents that mark the first byte of an allocation, the mark is found at the place it is read from
  have hm := h.withMem (firstByte z.1.1)
  have hat := hm.rebuildsAt (fun _ => 0) hfail hl hmapped
  obtain ⟨newHandle, hcleared⟩ := hat.cleared z.1 hzl
  obtain ⟨-, -, hrecs, -, hdata⟩ := hm.saved fun _ => 0
  have hrec : ((s.withMem (firstByte z.1.1)).saveLocals fun _ => 0).2.1.localAllocs[z.1.2]? =
      some { z.1.1.record with tornDown := true } := by
    rw [hrecs, List.getElem?_map]
    exact congrArg _ (List.mem_zipIdx_iff_getElem?.1 (hl.subset hzl))
  have hfirst := (hiso (firstByte z.1.1) fun _ => 0).bytes z.1.2 _ _ hrec rfl hcleared rfl 0 (h.pos hze)
  have hone := hat.copied z hz 0 (h.pos hze)
  refine mem_place_of_firstByte h hze hbound hdata ?_
  refine (hone.symm.trans hfirst).trans ?_
  simp [IpcState.withMem, firstByte, LocalAllocEntry.record]

theorem localsIsolated_iff (h : s.LocalsMapped) {d : Driver} (hfail : OnlyAllocsFail s.tornItems d) :
    (∀ mem data, (s.withMem mem).LocalsIsolated data d) ↔ s.RebuiltInOrder d := by
  obtain ⟨l, hl, hmapped⟩ := s.exists_rebuilt d
  refine ⟨rebuiltInOrder_of_isolated h hfail, fun hord mem data => ?_⟩
  refine ((h.withMem mem).rebuildsAt data hfail hl hmapped).isolated (h.withMem mem) fun x hx => ?_
  exact (prefix_place (·.size) 0 ((rebuiltInOrder_iff h hl hmapped).1 hord)).subset hx

end Locals

/-- **A failed allocation and the others.** An export that is rebuilt has its bytes whatever happened to the others;
a local allocation has them, whatever they are, exactly if with it every one with a smaller handle is rebuilt, and
none of these is on a larger device. One whose memory could not be had stays torn down, and no handle is lost. -/
theorem rebuildIsolated_iff (s t : IpcState) (hs : s.ExportsSaveable) (ht : t.LocalsMapped) (d : Driver)
    (hfail : OnlyAllocsFail t.tornItems d) :
    ((∀ data d', OnlyAllocsFail (s.saveExports data).2.1.exportItems d' → s.ExportsIsolated data d') ∧
      ∀ mem data, (t.withMem mem).LocalsIsolated data d) ↔ t.RebuiltInOrder d := by
  refine ⟨fun h => (localsIsolated_iff ht hfail).1 h.2, fun hord => ⟨?_, (localsIsolated_iff ht hfail).2 hord⟩⟩
  intro data d' hfail'
  exact exportsIsolated hs hfail'

/-! ### One failed call -/

/-- A driver with nothing mapped, on which one call fails. -/
def failsOnce (n : Nat) : Driver where
  env := ⟨fun k => k == n, id, fun _ _ => 0xAA⟩
  clock := 0
  mem := fun _ => 0
  maps := []
  live := []
  maps_apart := List.Pairwise.nil
  maps_pos := Driver.maps_pos_nil

theorem onlyAllocsFail_failsOnce_second : OnlyAllocsFail (localPair 0 1).tornItems (failsOnce 3) := by
  refine ⟨fun i hi => ?_, trivial, fun n hn => ?_⟩
  · obtain rfl : i = 0 := Nat.lt_one_iff.1 hi
    rfl
  · have hn' : 4 ≤ n := hn
    show (n == 3) = false
    exact beq_false_of_ne (by omega)

theorem onlyAllocsFail_failsOnce_first : OnlyAllocsFail (localPair 0 0).tornItems (failsOnce 0) := by
  refine ⟨trivial, fun i hi => ?_, fun n hn => ?_⟩
  · obtain rfl : i = 0 := Nat.lt_one_iff.1 hi
    rfl
  · have hn' : 4 ≤ n := hn
    show (n == 0) = false
    exact beq_false_of_ne (by omega)

instance (s : IpcState) (d : Driver) (e : LocalAllocEntry) : Decidable (s.Rebuilt d e) :=
  inferInstanceAs (Decidable (∃ x ∈ RebuildItem.mapped s.tornItems d, x.vaddr = e.vaddr))

instance (s : IpcState) (d : Driver) : Decidable (s.RebuiltInOrder d) :=
  inferInstanceAs (Decidable (∀ e ∈ s.localEntries, ∀ e' ∈ s.localEntries, e.handle < e'.handle → s.Rebuilt d e' →
    s.Rebuilt d e ∧ e.prop.locationId ≤ e'.prop.locationId))

theorem exportsSaveable_exportedTwice : exportedTwice.ExportsSaveable :=
  ⟨⟨rfl, rfl, rfl⟩, ⟨rfl, rfl, rfl, rfl, rfl, rfl⟩, fun _ => rfl, by decide, by decide⟩

/-- The second allocation fails, on the second device. -/
theorem rebuildIsolated_second :
    ((∀ data d', OnlyAllocsFail (exportedTwice.saveExports data).2.1.exportItems d' →
      exportedTwice.ExportsIsolated data d') ∧
      ∀ mem data, ((localPair 0 1).withMem mem).LocalsIsolated data (failsOnce 3)) ∧
      (localPair 0 1).RebuiltInOrder (failsOnce 3) := by
  have hord : (localPair 0 1).RebuiltInOrder (failsOnce 3) := by decide
  exact ⟨(rebuildIsolated_iff exportedTwice (localPair 0 1) exportsSaveable_exportedTwice (localsMapped_localPair 0 1)
    (failsOnce 3) @onlyAllocsFail_failsOnce_second).2 hord, hord⟩

/-- With two allocations on one device, if the first fails the second is filled with the bytes of the first. -/
theorem not_localsIsolated :
    ¬ ∀ (s : IpcState) (d : Driver), s.LocalsMapped → OnlyAllocsFail s.tornItems d → ∀ data, s.LocalsIsolated data d := by
  intro h
  have hmapped := localsMapped_localPair 0 0
  have hord := rebuiltInOrder_of_isolated hmapped onlyAllocsFail_failsOnce_first fun mem data =>
    h _ _ (hmapped.withMem mem) onlyAllocsFail_failsOnce_first data
  exact absurd hord (by decide)

end IpcState

end GpuCr
