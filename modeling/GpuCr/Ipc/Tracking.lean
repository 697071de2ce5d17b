import GpuCr.Lib.Rekey
import GpuCr.Ipc.Isolation

/-!
# The tracking of rebuilt local allocations

When a local allocation is rebuilt, `g_created_allocs` and `g_handle_to_va` get an entry under its new handle and
lose the one under its old handle, one allocation after the other. The values of released handles are free, and the
driver may give them out again: if it returns for an allocation the old handle of the same or of a later one, the
new entry is the one that is erased.
-/

namespace GpuCr

open Lib Lib.Run Lib.Grouping Lib.Layout Lib.Rekey Std
open HookedProcess (mem_localEntries)

/-! ### The entries of a rebuild that maps everything -/

theorem foldl_item_allMapped (items : List RebuildItem) (r : AllocRun) (hall : AllMapped items r.drv) :
    ∃ news : List RebuildEntry, (items.foldl AllocRun.item r).entries = r.entries ++ news ∧
      news.map (·.slot.key) = items.map (·.key) ∧ news.map (·.dev) = items.map (·.dev) ∧
      (news.map (·.newHandle)).Nodup ∧ (∀ e ∈ news, r.drv.isLive e.newHandle = false) ∧
      ∀ k, (items.foldl AllocRun.item r).drv.isLive k = true ↔
        r.drv.isLive k = true ∨ ∃ e ∈ news, e.newHandle = k := by
  induction items generalizing r with
  | nil => exact ⟨[], by simp, rfl, rfl, List.nodup_nil, by simp, by simp⟩
  | cons x items ih =>
    obtain ⟨hdrv, ⟨hnone, -, -⟩ | ⟨newHandle, hok, hentries, -⟩⟩ := r.item_spec x
    · exact absurd hnone hall.1
    obtain ⟨news, heq, hkeys, hdevs, hnodup, hdead, hlive⟩ := ih (r.item x) (hdrv ▸ hall.2)
    have hnew := (x.mapNew_adds r.drv).2 newHandle hok
    have hstep := RebuildItem.mapNew_live hok
    rw [← hdrv] at hnew hstep
    have hfresh : newHandle ∉ news.map (·.newHandle) := by
      intro hmem
      obtain ⟨e, he, rfl⟩ := List.mem_map.1 hmem
      exact Bool.false_ne_true ((hdead e he).symm.trans hnew.2)
    refine ⟨⟨⟨x.key, x.vaddr, x.size, x.savedOffset.getD r.dataOffset⟩, newHandle, x.dev⟩ :: news, ?_, ?_, ?_, ?_, ?_, ?_⟩
    · rw [List.foldl_cons, heq, hentries, List.append_assoc]
      rfl
    · rw [List.map_cons, List.map_cons, hkeys]
    · rw [List.map_cons, List.map_cons, hdevs]
    · exact List.nodup_cons.2 ⟨hfresh, hnodup⟩
    · refine List.forall_mem_cons.2 ⟨hnew.1, fun e he => ?_⟩
      have hdead' := hdead e he
      rw [hstep, Bool.or_eq_false_iff] at hdead'
      exact hdead'.1
    · intro k
      rw [List.foldl_cons, hlive, hstep, Bool.or_eq_true, beq_iff_eq, or_assoc]
      simp only [List.mem_cons, exists_eq_or_imp]
      exact or_congr_right (or_congr_left eq_comm)

/-! ### The property and the condition -/

/-- The allocation is rebuilt with the other, or before it. -/
def LocalAllocEntry.NotAfter (e e' : LocalAllocEntry) : Prop :=
  e.prop.locationId < e'.prop.locationId ∨ e.prop.locationId = e'.prop.locationId ∧ e.handle ≤ e'.handle

instance (e e' : LocalAllocEntry) : Decidable (e.NotAfter e') :=
  inferInstanceAs (Decidable (e.prop.locationId < e'.prop.locationId ∨
    e.prop.locationId = e'.prop.locationId ∧ e.handle ≤ e'.handle))

namespace IpcState

/-- Each local allocation with the handle that `cuMemCreate` returns for it, in the order of the records. -/
def moved (s : IpcState) (d : Driver) : List (LocalAllocEntry × Nat) :=
  s.deviceOrder.zip ((rebuildAlloc s.tornItems d).entries.map (·.newHandle))

/-- Every allocation is tracked under its new handle, every handle that is tracked is live, and the next teardown
goes through the allocations once each. -/
structure StayTracked (s : IpcState) (d : Driver) (s' : IpcState) : Prop where
  created : ∀ x ∈ s.moved d, s'.createdAllocs[x.2]? = some ⟨x.1.size, x.1.prop⟩
  mapped : ∀ x ∈ s.moved d, s'.handleToVa[x.2]? = some x.1.vaddr
  live : ∀ k, s'.createdAllocs[k]? ≠ none ∨ s'.handleToVa[k]? ≠ none → s'.drv.isLive k = true
  found : s'.localEntries.Perm ((s.moved d).map fun x => { x.1 with handle := x.2 })

/-- No allocation gets the old handle of the same allocation or of one that is rebuilt later. -/
def HandlesApart (s : IpcState) (d : Driver) : Prop :=
  ∀ x ∈ s.moved d, ∀ e ∈ s.localEntries, x.1.NotAfter e → x.2 ≠ e.handle

/-- The other handles that are tracked are live, or given out again. -/
def OthersLive (s : IpcState) (d : Driver) : Prop :=
  ∀ k, s.createdAllocs[k]? ≠ none ∨ s.handleToVa[k]? ≠ none → (∀ e ∈ s.localEntries, e.handle ≠ k) →
    d.isLive k = true ∨ ∃ x ∈ s.moved d, x.2 = k

/-! ### The tables after the rebuild -/

def createdMove (x : LocalAllocEntry × Nat) : Move Nat CuMemCreateRecord := ⟨x.1.handle, x.2, ⟨x.1.size, x.1.prop⟩⟩

def addressMove (x : LocalAllocEntry × Nat) : Move Nat Nat := ⟨x.1.handle, x.2, x.1.vaddr⟩

theorem tables_foldl_trackLocal (xs : List (LocalAllocEntry × RebuildEntry)) (s : IpcState)
    (hrecs : ∀ x ∈ xs, s.localAllocs[x.2.slot.key]? = some { x.1.record with tornDown := true })
    (hnodup : (xs.map (·.2.slot.key)).Nodup) :
    ((xs.map Prod.snd).foldl trackLocal s).createdAllocs =
        (xs.map fun x => createdMove (x.1, x.2.newHandle)).foldl rekey s.createdAllocs ∧
      ((xs.map Prod.snd).foldl trackLocal s).handleToVa =
        (xs.map fun x => addressMove (x.1, x.2.newHandle)).foldl rekey s.handleToVa := by
  induction xs generalizing s with
  | nil => exact ⟨rfl, rfl⟩
  | cons x xs ih =>
    rw [List.map_cons, List.nodup_cons] at hnodup
    obtain ⟨hx, hxs⟩ := List.forall_mem_cons.1 hrecs
    have hstep : s.trackLocal x.2 = { s with
        createdAllocs := rekey s.createdAllocs (createdMove (x.1, x.2.newHandle))
        handleToVa := rekey s.handleToVa (addressMove (x.1, x.2.newHandle))
        localAllocs := s.localAllocs.set x.2.slot.key { x.1.record with handle := x.2.newHandle, tornDown := false } } := by
      unfold trackLocal
      rw [hx]
      rfl
    have hrest := ih (s.trackLocal x.2) (fun y hy => ?_) hnodup.2
    · rw [hstep] at hrest
      rw [List.map_cons, List.foldl_cons, hstep]
      exact hrest
    · have hne : x.2.slot.key ≠ y.2.slot.key := fun heq => hnodup.1 (heq ▸ List.mem_map_of_mem (f := fun x => x.2.slot.key) hy)
      rw [hstep]
      exact (List.getElem?_set_ne hne).trans (hxs y hy)

section Rebuilt
variable {s : IpcState} {d : Driver}

/-- The entries of the rebuild, in the order of the records, which is that of the devices. -/
structure RebuiltEntries (s : IpcState) (d : Driver) : Prop where
  length : (rebuildAlloc s.tornItems d).entries.length = s.deviceOrder.length
  keys : (rebuildAlloc s.tornItems d).entries.map (·.slot.key) = List.range' 0 s.deviceOrder.length
  ordered : (rebuildAlloc s.tornItems d).ordered = (rebuildAlloc s.tornItems d).entries
  nodup : ((rebuildAlloc s.tornItems d).entries.map (·.newHandle)).Nodup
  live : ∀ k, (rebuildAlloc s.tornItems d).drv.isLive k = true ↔
    d.isLive k = true ∨ ∃ e ∈ (rebuildAlloc s.tornItems d).entries, e.newHandle = k

theorem rebuiltEntries (hall : AllMapped s.tornItems d) : s.RebuiltEntries d := by
  obtain ⟨news, heq, hkeys, hdevs, hnodup, -, hlive⟩ := foldl_item_allMapped s.tornItems ⟨d, [], 0⟩ hall
  have heq : (rebuildAlloc s.tornItems d).entries = news := heq
  have hitems : s.tornItems.map (·.dev) = s.deviceOrder.map (·.prop.locationId) := by
    rw [tornItems, List.map_map]
    conv_rhs => rw [← List.zipIdx_map_fst 0 s.deviceOrder, List.map_map]
    rfl
  refine ⟨?_, ?_, ?_, heq ▸ hnodup, heq ▸ hlive⟩
  · have hlen := congrArg List.length hkeys
    rw [List.length_map, List.length_map, tornItems, List.length_map, List.length_zipIdx] at hlen
    rw [heq, hlen]
  · rw [heq, hkeys, tornItems, List.map_map, ← List.zipIdx_map_snd 0 s.deviceOrder]
    rfl
  · rw [AllocRun.ordered, flatten_group_eq_iff, heq]
    have hsorted : (news.map (·.dev)).Pairwise (· ≤ ·) := by
      rw [hdevs, hitems, List.pairwise_map]
      exact s.pairwise_deviceOrder.imp fun hab => hab.elim (fun hlt => hlt.le) fun hab => hab.1.le
    exact List.pairwise_map.1 hsorted

theorem RebuiltEntries.moved (h : s.RebuiltEntries d) :
    (s.moved d).map Prod.snd = (rebuildAlloc s.tornItems d).entries.map (·.newHandle) ∧
      (s.moved d).map Prod.fst = s.deviceOrder := by
  unfold IpcState.moved
  refine ⟨List.map_snd_zip ?_, List.map_fst_zip ?_⟩
  · rw [List.length_map, h.length]
  · rw [List.length_map, h.length]

theorem RebuiltEntries.rebuild {t : IpcState} (h : s.RebuiltEntries t.drv) (hfns : t.fns = s.fns) (hs : s.LocalsMapped)
    (hitems : t.localItems = s.tornItems)
    (hrecs : t.localAllocs = s.deviceOrder.map fun e => { e.record with tornDown := true }) (buf : HostBuf) :
    (t.ipcRebuildLocalAllocs buf).2.createdAllocs = ((s.moved t.drv).map createdMove).foldl rekey t.createdAllocs ∧
      (t.ipcRebuildLocalAllocs buf).2.handleToVa = ((s.moved t.drv).map addressMove).foldl rekey t.handleToVa := by
  have hzip : (s.deviceOrder.zip (rebuildAlloc s.tornItems t.drv).entries).map Prod.snd =
      (rebuildAlloc s.tornItems t.drv).entries := List.map_snd_zip h.length.le
  have hmoved : s.moved t.drv = (s.deviceOrder.zip (rebuildAlloc s.tornItems t.drv).entries).map
      fun x => (x.1, x.2.newHandle) := by
    rw [IpcState.moved, List.zip_map_right]
    rfl
  have hown : ∀ x ∈ s.deviceOrder.zip (rebuildAlloc s.tornItems t.drv).entries,
      t.localAllocs[x.2.slot.key]? = some { x.1.record with tornDown := true } := by
    intro x hx
    obtain ⟨i, hi, rfl⟩ := List.getElem_of_mem hx
    have hi' : i < s.deviceOrder.length := by
      rw [List.length_zip, h.length, Nat.min_self] at hi
      exact hi
    have hkey : ((rebuildAlloc s.tornItems t.drv).entries.map (·.slot.key))[i]? = some i := by
      rw [h.keys, List.getElem?_range' hi', Nat.one_mul, Nat.zero_add]
    rw [List.getElem?_map, List.getElem?_eq_getElem (h.length ▸ hi'), Option.map_some, Option.some_inj] at hkey
    rw [List.getElem_zip, hkey, hrecs, List.getElem?_map, List.getElem?_eq_getElem hi']
    rfl
  have hnodup : ((s.deviceOrder.zip (rebuildAlloc s.tornItems t.drv).entries).map (·.2.slot.key)).Nodup := by
    have hkeys := congrArg (List.map fun e : RebuildEntry => e.slot.key) hzip
    rw [List.map_map, h.keys] at hkeys
    exact hkeys ▸ List.nodup_range'
  obtain ⟨hcreated, hva⟩ := tables_foldl_trackLocal (s.deviceOrder.zip (rebuildAlloc s.tornItems t.drv).entries)
    { t with drv := (rebuildCopy t.fns buf (rebuildAlloc s.tornItems t.drv)).drv } hown hnodup
  rw [hzip] at hcreated hva
  unfold ipcRebuildLocalAllocs
  rw [hfns] at hcreated hva
  simp only [hfns, hs.create, hs.map, hs.htod, Bool.and_self, Bool.not_true, Bool.false_eq_true, if_false, hitems,
    h.ordered, forget, hmoved, List.map_map]
  exact ⟨hcreated, hva⟩

theorem RebuiltEntries.tables (h : s.RebuiltEntries d) (hs : s.LocalsMapped) (data : Nat → Byte) :
    (s.localsAfter data d).createdAllocs = ((s.moved d).map createdMove).foldl rekey s.createdAllocs ∧
      (s.localsAfter data d).handleToVa = ((s.moved d).map addressMove).foldl rekey s.handleToVa ∧
      (s.localsAfter data d).exports = s.exports ∧
      ∀ k, (s.localsAfter data d).drv.isLive k = true ↔ d.isLive k = true ∨ ∃ x ∈ s.moved d, x.2 = k := by
  obtain ⟨hfns, hitems, hrecs, -, -⟩ := hs.saved data
  have hsaved : (s.saveLocals data).2.1.createdAllocs = s.createdAllocs ∧ (s.saveLocals data).2.1.handleToVa = s.handleToVa ∧
      (s.saveLocals data).2.1.exports = s.exports := by
    obtain ⟨drv, released, data', hsave, -⟩ := save_mapped hs data
    unfold saveLocals
    rw [hsave]
    exact ⟨rfl, rfl, rfl⟩
  obtain ⟨hcreated, hva⟩ := RebuiltEntries.rebuild (t := { (s.saveLocals data).2.1 with drv := d }) h hfns hs hitems hrecs
    (s.saveLocals data).2.2
  have hcan : ((s.saveLocals data).2.1.fns.cuMemCreate && (s.saveLocals data).2.1.fns.cuMemMap &&
      (s.saveLocals data).2.1.fns.cuMemcpyHtoD) = true := by
    rw [hfns, hs.create, hs.map, hs.htod]
    rfl
  have hview := sameView_rebuildLocals (s := { (s.saveLocals data).2.1 with drv := d }) hcan (s.saveLocals data).2.2
  refine ⟨hsaved.1 ▸ hcreated, hsaved.2.1 ▸ hva, ?_, fun k => ?_⟩
  · refine Eq.trans ?_ hsaved.2.2
    unfold localsAfter ipcRebuildLocalAllocs
    dsimp only
    rw [hcan]
    exact (foldl_trackLocal_frame _ { (s.saveLocals data).2.1 with drv := _ }).1
  · have hlive : (s.localsAfter data d).drv.isLive k = (rebuildAlloc s.tornItems d).drv.isLive k := by
      rw [← hitems]
      exact hview.live k
    rw [hlive, h.live]
    refine or_congr_right ?_
    rw [← List.mem_map, ← h.moved.1, List.mem_map]

/-! ### Both directions -/

theorem RebuiltEntries.nodup_new (h : s.RebuiltEntries d) : ((s.moved d).map Prod.snd).Nodup := by
  rw [h.moved.1]
  exact h.nodup

theorem RebuiltEntries.mem (h : s.RebuiltEntries d) {x : LocalAllocEntry × Nat} (hx : x ∈ s.moved d) : x.1 ∈ s.localEntries :=
  s.perm_deviceOrder.mem_iff.1 (h.moved.2 ▸ List.mem_map_of_mem hx)

/-- The moves of both tables are apart exactly if the handles are. -/
theorem RebuiltEntries.apart_iff (h : s.RebuiltEntries d) {ν : Type} (value : LocalAllocEntry → ν) :
    Apart ((s.moved d).map fun x => (⟨x.1.handle, x.2, value x.1⟩ : Move Nat ν)) ↔ s.HandlesApart d := by
  have hpair : ∀ e ∈ s.localEntries, ∃ x ∈ s.moved d, x.1 = e := fun e he =>
    List.mem_map.1 (h.moved.2.symm ▸ s.perm_deviceOrder.mem_iff.2 he)
  have hsorted : (s.moved d).Pairwise fun x y => x.1.NotAfter y.1 ∧ ¬ y.1.NotAfter x.1 := by
    have hdev := s.pairwise_deviceOrder
    rw [← h.moved.2, List.pairwise_map] at hdev
    refine hdev.imp fun hab => ?_
    unfold LocalAllocEntry.NotAfter
    omega
  unfold Apart HandlesApart
  rw [List.pairwise_map, List.forall_mem_map]
  constructor
  · rintro ⟨hlater, hself⟩ x hx e he hle
    obtain ⟨y, hy, rfl⟩ := hpair e he
    obtain ⟨i, hi, rfl⟩ := List.getElem_of_mem hx
    obtain ⟨j, hj, rfl⟩ := List.getElem_of_mem hy
    rw [List.pairwise_iff_getElem] at hlater hsorted
    rcases Nat.lt_trichotomy i j with hij | rfl | hji
    · exact hlater i j hi hj hij
    · exact hself _ hx
    · exact absurd hle (hsorted j i hj hi hji).2
  · intro happart
    refine ⟨hsorted.imp_of_mem fun hx hy hab => happart _ hx _ (h.mem hy) hab.1, fun x hx => ?_⟩
    exact happart x hx x.1 (h.mem hx) (Or.inr ⟨rfl, le_rfl⟩)

theorem RebuiltEntries.others (h : s.RebuiltEntries d) (hs : s.LocalsMapped) (data : Nat → Byte) {k : Nat}
    (hk : ∀ x ∈ s.moved d, x.2 ≠ k) :
    ((∃ e ∈ s.localEntries, e.handle = k) →
        (s.localsAfter data d).createdAllocs[k]? = none ∧ (s.localsAfter data d).handleToVa[k]? = none) ∧
      ((∀ e ∈ s.localEntries, e.handle ≠ k) →
        (s.localsAfter data d).createdAllocs[k]? = s.createdAllocs[k]? ∧
        (s.localsAfter data d).handleToVa[k]? = s.handleToVa[k]?) := by
  obtain ⟨hcreated, hva, -, -⟩ := h.tables hs data
  have hnew : k ∉ ((s.moved d).map createdMove).map (·.new) ∧ k ∉ ((s.moved d).map addressMove).map (·.new) := by
    rw [List.map_map, List.map_map]
    exact ⟨fun hmem => (List.mem_map.1 hmem).elim fun x hx => hk x hx.1 hx.2,
      fun hmem => (List.mem_map.1 hmem).elim fun x hx => hk x hx.1 hx.2⟩
  have hold : ((s.moved d).map createdMove).map (·.old) = s.deviceOrder.map (·.handle) ∧
      ((s.moved d).map addressMove).map (·.old) = s.deviceOrder.map (·.handle) := by
    rw [← h.moved.2, List.map_map, List.map_map, List.map_map]
    exact ⟨rfl, rfl⟩
  rw [hcreated, hva, getElem?_foldl_rekey hnew.1, getElem?_foldl_rekey hnew.2, hold.1, hold.2]
  constructor
  · rintro ⟨e, he, rfl⟩
    have hmem := List.mem_map_of_mem (f := LocalAllocEntry.handle) (s.perm_deviceOrder.mem_iff.2 he)
    rw [if_pos hmem, if_pos hmem]
    exact ⟨rfl, rfl⟩
  · intro hno
    have hmem : k ∉ s.deviceOrder.map (·.handle) := by
      intro hmem
      obtain ⟨e, he, rfl⟩ := List.mem_map.1 hmem
      exact hno e (s.perm_deviceOrder.mem_iff.1 he) rfl
    rw [if_neg hmem, if_neg hmem]
    exact ⟨rfl, rfl⟩

theorem RebuiltEntries.found (h : s.RebuiltEntries d) (hs : s.LocalsMapped) (data : Nat → Byte)
    (hcreated : ∀ x ∈ s.moved d, (s.localsAfter data d).createdAllocs[x.2]? = some ⟨x.1.size, x.1.prop⟩)
    (hva : ∀ x ∈ s.moved d, (s.localsAfter data d).handleToVa[x.2]? = some x.1.vaddr) :
    (s.localsAfter data d).localEntries.Perm ((s.moved d).map fun x => { x.1 with handle := x.2 }) := by
  have hexported : (s.localsAfter data d).exportedVas = s.exportedVas := by
    unfold exportedVas
    rw [(h.tables hs data).2.2.1]
  have hnodup : (s.localsAfter data d).localEntries.Nodup := by
    refine List.Nodup.of_map (·.handle) ?_
    exact List.pairwise_map.2 ((s.localsAfter data d).pairwise_handle.imp Nat.ne_of_lt)
  have hnodup' : ((s.moved d).map fun x => ({ x.1 with handle := x.2 } : LocalAllocEntry)).Nodup := by
    refine List.Nodup.of_map (·.handle) ?_
    rw [List.map_map]
    exact h.nodup_new
  rw [List.perm_ext_iff_of_nodup hnodup hnodup']
  intro e
  rw [mem_localEntries, hexported, List.mem_map]
  constructor
  · rintro ⟨hrec, haddr, hout⟩
    by_cases hk : ∃ x ∈ s.moved d, x.2 = e.handle
    · obtain ⟨x, hx, heq⟩ := hk
      have hrec' := hcreated x hx
      have haddr' := hva x hx
      rw [heq, hrec, Option.some_inj, CuMemCreateRecord.mk.injEq] at hrec'
      rw [heq, haddr, Option.some_inj] at haddr'
      refine ⟨x, hx, ?_⟩
      dsimp only
      rw [← haddr', ← hrec'.1, ← hrec'.2, heq]
    · rw [not_exists] at hk
      obtain ⟨hlocal, hother⟩ := h.others hs data fun x hx heq => hk x ⟨hx, heq⟩
      by_cases hl : ∃ e' ∈ s.localEntries, e'.handle = e.handle
      · exact absurd (hrec.symm.trans (hlocal hl).1) (by simp)
      · have hno : ∀ e' ∈ s.localEntries, e'.handle ≠ e.handle := fun e' he' heq => hl ⟨e', he', heq⟩
        obtain ⟨h1, h2⟩ := hother hno
        exact absurd rfl (hno e (mem_localEntries.2 ⟨h1 ▸ hrec, h2 ▸ haddr, hout⟩))
  · rintro ⟨x, hx, rfl⟩
    exact ⟨hcreated x hx, hva x hx, (mem_localEntries.1 (h.mem hx)).2.2⟩

end Rebuilt

/-- **Rebuilt local allocations stay tracked** exactly if no allocation gets the old handle of the same or of a later
one, and the other handles that are tracked are live. -/
theorem stayTracked_iff (s : IpcState) (hs : s.LocalsMapped) (data : Nat → Byte) (d : Driver)
    (hall : AllMapped s.tornItems d) :
    s.StayTracked d (s.localsAfter data d) ↔ s.HandlesApart d ∧ s.OthersLive d := by
  have h := rebuiltEntries hall
  obtain ⟨htable, htable', -, hlive⟩ := h.tables hs data
  have hnew : (((s.moved d).map createdMove).map (·.new)).Nodup ∧ (((s.moved d).map addressMove).map (·.new)).Nodup := by
    rw [List.map_map, List.map_map]
    exact ⟨h.nodup_new, h.nodup_new⟩
  have hcreated := foldl_rekey_iff hnew.1 s.createdAllocs
  have hva := foldl_rekey_iff hnew.2 s.handleToVa
  rw [List.forall_mem_map, ← htable] at hcreated
  rw [List.forall_mem_map, ← htable'] at hva
  have happart : Apart ((s.moved d).map createdMove) ↔ s.HandlesApart d := 
    h.apart_iff fun e => (⟨e.size, e.prop⟩ : CuMemCreateRecord)
  have happart' : Apart ((s.moved d).map addressMove) ↔ s.HandlesApart d := h.apart_iff (·.vaddr)
  constructor
  · intro htracked
    refine ⟨happart.1 (hcreated.1 htracked.created), fun k hk hno => ?_⟩
    by_cases hnews : ∃ x ∈ s.moved d, x.2 = k
    · exact Or.inr hnews
    · obtain ⟨h1, h2⟩ := (h.others hs data fun x hx heq => hnews ⟨x, hx, heq⟩).2 hno
      exact (hlive k).1 (htracked.live k (by rw [h1, h2]; exact hk))
  · rintro ⟨hhandles, hothers⟩
    have h1 := hcreated.2 (happart.2 hhandles)
    have h2 := hva.2 (happart'.2 hhandles)
    refine ⟨h1, h2, fun k hk => (hlive k).2 ?_, h.found hs data h1 h2⟩
    by_cases hnews : ∃ x ∈ s.moved d, x.2 = k
    · exact Or.inr hnews
    · obtain ⟨hlocal, hother⟩ := h.others hs data fun x hx heq => hnews ⟨x, hx, heq⟩
      by_cases hl : ∃ e ∈ s.localEntries, e.handle = k
      · rw [(hlocal hl).1, (hlocal hl).2] at hk
        simp at hk
      · have hno : ∀ e ∈ s.localEntries, e.handle ≠ k := fun e he heq => hl ⟨e, he, heq⟩
        obtain ⟨h3, h4⟩ := hother hno
        exact hothers k (by rwa [h3, h4] at hk) hno

/-! ### Two allocations -/

/-- A driver with nothing mapped that gives out the numbers from `n` on. -/
def handsOut (n : Nat) : Driver where
  env := ⟨fun _ => false, fun k => n + k, fun _ _ => 0xAA⟩
  clock := 0
  mem := fun _ => 0
  maps := []
  live := []
  maps_apart := List.Pairwise.nil
  maps_pos := Driver.maps_pos_nil

instance (s : IpcState) (d : Driver) : Decidable (s.HandlesApart d) :=
  decidable_of_iff (∀ x ∈ s.moved d, ∀ e ∈ s.localEntries, x.1.NotAfter e → x.2 ≠ e.handle) Iff.rfl

theorem stayTracked_newHandles : (localPair 0 0).StayTracked (handsOut 7) ((localPair 0 0).localsAfter (fun _ => 0) (handsOut 7)) := by
  refine (stayTracked_iff (localPair 0 0) (localsMapped_localPair 0 0) (fun _ => 0) (handsOut 7)
    (by decide)).2 ⟨by decide, fun k hk hno => ?_⟩
  have h1 : k ≠ 1 := fun heq => hno ⟨1, 0x10000, 4096, ⟨0⟩⟩ (by simp [localEntries_localPair]) heq.symm
  have h2 : k ≠ 2 := fun heq => hno ⟨2, 0x20000, 8192, ⟨0⟩⟩ (by simp [localEntries_localPair]) heq.symm
  simp [localPair, getElem?_insert_key, h1, h2] at hk

/-- The driver returns the handle `1` again for the allocation that had it: its entry is erased. -/
theorem not_stayTracked : ¬ ∀ (s : IpcState) (data : Nat → Byte) (d : Driver), s.LocalsMapped → AllMapped s.tornItems d →
    s.StayTracked d (s.localsAfter data d) := by
  intro h
  have hlost := (h (localPair 0 0) (fun _ => 0) (handsOut 1) (localsMapped_localPair 0 0)
    (by decide)).created
  revert hlost
  decide

end IpcState

end GpuCr
