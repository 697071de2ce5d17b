import GpuCr.Lib.Grouping
import GpuCr.Lib.Layout
import GpuCr.Ipc.Copy
import GpuCr.Ipc.Records
import Mathlib.Data.List.Sort
import Mathlib.Data.Int.Order.Basic

/-!
# The state of the IPC hooks and the rebuild loop

The globals of `src/ipc_hooks.cpp` that the save, teardown and rebuild functions work on, and the loop
that gives torn-down ranges new physical memory, which exports and local allocations share.
-/

namespace GpuCr

open Lib.Grouping Std

/-- The driver functions that have been resolved. `hostRegister` and the two `async` fields stand for the
functions that pinning and asynchronous copies need. -/
structure IpcFns where
  cuMemRelease : Bool
  cuMemUnmap : Bool
  cuMemCreate : Bool
  cuMemMap : Bool
  cuMemSetAccess : Bool
  cuMemExport : Bool
  cuMemImport : Bool
  cuMemAddressReserve : Bool
  cuMemcpyDtoH : Bool
  cuMemcpyHtoD : Bool
  hostRegister : Bool
  asyncDtoH : Bool
  asyncHtoD : Bool
  deriving DecidableEq, Repr

/-- An allocation whose physical memory has been released after its bytes were saved. -/
structure ReleasedAlloc where
  isExport : Bool
  vaddr : Nat
  size : Nat
  bytes : Nat → Byte

/-- A host buffer. -/
structure HostBuf where
  size : Nat
  data : Nat → Byte

/-- The bytes of `t` are in the buffer, at one of the places. -/
def ReleasedAlloc.HeldIn (t : ReleasedAlloc) (buf : HostBuf) (slots : List Slot) : Prop :=
  ∃ x ∈ slots, x.vaddr = t.vaddr ∧ x.size = t.size ∧ x.offset + x.size ≤ buf.size ∧
    ∀ i < t.size, buf.data (x.offset + i) = t.bytes i

/-- `released` is a history of what has been torn down and not been rebuilt. No code reads it. -/
structure IpcState where
  drv : Driver
  fns : IpcFns
  imports : List IpcImportRecord
  exports : List IpcExportRecord
  createdAllocs : ExtTreeMap Nat CuMemCreateRecord
  handleToVa : ExtTreeMap Nat Nat
  localAllocs : List CuMemLocalAllocRecord
  vaAccessDescs : ExtTreeMap Nat (List CUmemAccessDesc)
  rebuiltHandleAlias : ExtTreeMap Nat Nat
  released : List ReleasedAlloc

/-- `cuMemHostRegister` of the first `n` bytes of the buffer, if there is anything to pin. -/
def Driver.pinHost (d : Driver) (fns : IpcFns) (n : Nat) : Bool × Driver :=
  if fns.hostRegister && decide (0 < n) then d.calls 1 else (false, d)

def Driver.unpinHost (d : Driver) (pinned : Bool) : Driver := if pinned then (d.calls 1).2 else d

theorem Driver.same_pinHost (d : Driver) (fns : IpcFns) (n : Nat) : d.Same (d.pinHost fns n).2 := by
  unfold pinHost
  split_ifs
  · exact same_calls d 1
  · exact Same.refl d

theorem Driver.clock_pinHost (d : Driver) (fns : IpcFns) (n : Nat) : d.clock ≤ (d.pinHost fns n).2.clock := by
  unfold pinHost
  split_ifs
  · exact Nat.le_add_right d.clock 1
  · exact le_rfl

theorem Driver.same_unpinHost (d : Driver) (pinned : Bool) : d.Same (d.unpinHost pinned) := by
  unfold unpinHost
  split_ifs
  · exact same_calls d 1
  · exact Same.refl d

/-! ### Teardown of one range -/

/-- `cuMemUnmap` and `cuMemRelease` of a range, both of which are allowed to fail. -/
def Driver.unmapAndRelease (d : Driver) (fns : IpcFns) (va size handle : Nat) : Bool × Driver :=
  let u := if fns.cuMemUnmap then d.cuMemUnmap va size else (false, d)
  let r := u.2.cuMemRelease handle
  (u.1 && r.1, r.2)

theorem Driver.unmapAndRelease_frame (d : Driver) (fns : IpcFns) (va size handle : Nat) :
    (d.unmapAndRelease fns va size handle).2.mem = d.mem ∧
      (d.unmapAndRelease fns va size handle).2.env = d.env := by
  unfold unmapAndRelease
  dsimp only
  split_ifs
  · obtain ⟨h1, h2⟩ := d.cuMemUnmap_frame va size
    obtain ⟨h3, h4⟩ := (d.cuMemUnmap va size).2.cuMemRelease_frame handle
    exact ⟨h3.trans h1, h4.trans h2⟩
  · exact d.cuMemRelease_frame handle

/-! ### New physical memory -/

/-- A torn-down range: `key` is its place in its table, `access` the descriptors to replay, `savedOffset`
the place of its bytes in the buffer if that was recorded. -/
structure RebuildItem where
  key : Nat
  vaddr : Nat
  size : Nat
  dev : Int
  access : List CUmemAccessDesc
  savedOffset : Option Nat

/-- `cuMemCreate`, `cuMemMap` and the `cuMemSetAccess` calls of a range; the handle if it is mapped. -/
def RebuildItem.mapNew (x : RebuildItem) (d : Driver) : Option Nat × Driver :=
  match d.cuMemCreate x.size with
  | (none, d) => (none, d)
  | (some newHandle, d) =>
    match d.cuMemMap x.vaddr x.size newHandle with
    | (false, d) => (none, (d.cuMemRelease newHandle).2)
    | (true, d) => (some newHandle, x.access.foldl (fun d _ => (d.cuMemSetAccess x.vaddr x.size).2) d)

structure RebuildEntry where
  slot : Slot
  newHandle : Nat
  dev : Int

structure AllocRun where
  drv : Driver
  entries : List RebuildEntry
  dataOffset : Nat

/-- The body of the loop of phase A. -/
def AllocRun.item (r : AllocRun) (x : RebuildItem) : AllocRun :=
  match x.mapNew r.drv with
  | (none, d) => { r with drv := d }
  | (some newHandle, d) =>
    let offset := x.savedOffset.getD r.dataOffset
    ⟨d, r.entries ++ [⟨⟨x.key, x.vaddr, x.size, offset⟩, newHandle, x.dev⟩],
      max r.dataOffset (offset + x.size)⟩

/-- Phase A, with `data_offset` from `0` on. -/
def rebuildAlloc (items : List RebuildItem) (d : Driver) : AllocRun :=
  items.foldl AllocRun.item ⟨d, [], 0⟩

/-- Phase B: the bytes of the entries, device by device. -/
def rebuildCopy (fns : IpcFns) (buf : HostBuf) (r : AllocRun) : RestoreRun :=
  let pin := r.drv.pinHost fns r.dataOffset
  let groups := group RebuildEntry.dev r.entries
  let c := restoreGroups (pin.1 && fns.asyncHtoD) buf.size buf.data (groups.map fun g => g.2.map (·.slot)) ⟨pin.2, []⟩
  { c with drv := c.drv.unpinHost pin.1 }

/-- The entries in the order phase C goes through them. -/
def AllocRun.ordered (r : AllocRun) : List RebuildEntry := flatten (group RebuildEntry.dev r.entries)

/-- Every range gets its new physical memory. -/
def AllMapped : List RebuildItem → Driver → Prop
  | [], _ => True
  | x :: items, d => (x.mapNew d).1 ≠ none ∧ AllMapped items (x.mapNew d).2

instance decidableAllMapped : (items : List RebuildItem) → (d : Driver) → Decidable (AllMapped items d)
  | [], _ => isTrue trivial
  | x :: items, d =>
    have := decidableAllMapped items (x.mapNew d).2
    inferInstanceAs (Decidable ((x.mapNew d).1 ≠ none ∧ AllMapped items (x.mapNew d).2))

/-- The ranges whose `cuMemCreate` and `cuMemMap` succeed. -/
def RebuildItem.mapped : List RebuildItem → Driver → List RebuildItem
  | [], _ => []
  | x :: items, d =>
    if (x.mapNew d).1.isSome then x :: mapped items (x.mapNew d).2 else mapped items (x.mapNew d).2

/-- The slots of the entries if every range gets its memory, with `data_offset` from `off` on. -/
def RebuildItem.slots : List RebuildItem → Nat → List Slot
  | [], _ => []
  | x :: items, off =>
    ⟨x.key, x.vaddr, x.size, x.savedOffset.getD off⟩ ::
      slots items (max off (x.savedOffset.getD off + x.size))

theorem RebuildItem.mem_slots_of_savedOffset {items : List RebuildItem} {x : RebuildItem} (hx : x ∈ items)
    {o : Nat} (ho : x.savedOffset = some o) (off : Nat) : ⟨x.key, x.vaddr, x.size, o⟩ ∈ slots items off := by
  induction items generalizing off with
  | nil => exact absurd hx List.not_mem_nil
  | cons y items ih =>
    rw [slots]
    rcases List.mem_cons.1 hx with rfl | hx
    · rw [ho]
      exact List.mem_cons_self ..
    · exact List.mem_cons_of_mem _ (ih hx _)

section Alloc
variable {d : Driver} {items : List RebuildItem}

theorem Driver.foldl_setAccess_frame (d : Driver) (va size : Nat) (access : List CUmemAccessDesc) :
    (access.foldl (fun d _ => (d.cuMemSetAccess va size).2) d).mem = d.mem ∧
      (access.foldl (fun d _ => (d.cuMemSetAccess va size).2) d).env = d.env := by
  induction access generalizing d with
  | nil => exact ⟨rfl, rfl⟩
  | cons ad access ih =>
    have h := d.cuMemSetAccess_frame va size
    exact ⟨(ih _).1.trans h.1, (ih _).2.trans h.2⟩

theorem RebuildItem.mapNew_frame (x : RebuildItem) (d : Driver) :
    (∀ a, a < x.vaddr ∨ x.vaddr + x.size ≤ a → (x.mapNew d).2.mem a = d.mem a) ∧
      (x.mapNew d).2.env = d.env := by
  obtain ⟨hc1, hc2⟩ := d.cuMemCreate_frame x.size
  unfold mapNew
  split
  case h_1 d₁ heq =>
    rw [heq] at hc1 hc2
    exact ⟨fun a _ => congrFun hc1 a, hc2⟩
  case h_2 newHandle d₁ heq =>
    rw [heq] at hc1 hc2
    obtain ⟨hm1, hm2⟩ := d₁.cuMemMap_frame x.vaddr x.size newHandle
    split
    case h_1 d₂ heq₂ =>
      rw [heq₂] at hm1 hm2
      obtain ⟨hr1, hr2⟩ := d₂.cuMemRelease_frame newHandle
      exact ⟨fun a ha => (congrFun hr1 a).trans ((hm1 a ha).trans (congrFun hc1 a)),
        hr2.trans (hm2.trans hc2)⟩
    case h_2 d₂ heq₂ =>
      rw [heq₂] at hm1 hm2
      obtain ⟨hs1, hs2⟩ := d₂.foldl_setAccess_frame x.vaddr x.size x.access
      exact ⟨fun a ha => (congrFun hs1 a).trans ((hm1 a ha).trans (congrFun hc1 a)),
        hs2.trans (hm2.trans hc2)⟩

theorem AllocRun.item_spec (r : AllocRun) (x : RebuildItem) :
    (r.item x).drv = (x.mapNew r.drv).2 ∧
      ((x.mapNew r.drv).1 = none ∧ (r.item x).entries = r.entries ∧ (r.item x).dataOffset = r.dataOffset ∨
        ∃ newHandle, (x.mapNew r.drv).1 = some newHandle ∧
          (r.item x).entries = r.entries ++
            [⟨⟨x.key, x.vaddr, x.size, x.savedOffset.getD r.dataOffset⟩, newHandle, x.dev⟩] ∧
          (r.item x).dataOffset = max r.dataOffset (x.savedOffset.getD r.dataOffset + x.size)) := by
  unfold AllocRun.item
  split
  case h_1 d heq => exact ⟨by rw [heq], Or.inl ⟨by rw [heq], rfl, rfl⟩⟩
  case h_2 newHandle d heq => exact ⟨by rw [heq], Or.inr ⟨newHandle, by rw [heq], rfl, rfl⟩⟩

theorem foldl_item_frame (items : List RebuildItem) (r : AllocRun) :
    (∀ a, (∀ x ∈ items, a < x.vaddr ∨ x.vaddr + x.size ≤ a) → (items.foldl AllocRun.item r).drv.mem a = r.drv.mem a) ∧
      (items.foldl AllocRun.item r).drv.env = r.drv.env := by
  induction items generalizing r with
  | nil => exact ⟨fun a _ => rfl, rfl⟩
  | cons x items ih =>
    obtain ⟨ih1, ih2⟩ := ih (r.item x)
    obtain ⟨h1, h2⟩ := x.mapNew_frame r.drv
    rw [← (r.item_spec x).1] at h1 h2
    refine ⟨fun a ha => ?_, ih2.trans h2⟩
    exact (ih1 a fun y hy => ha y (List.mem_cons_of_mem _ hy)).trans (h1 a (ha x (List.mem_cons_self ..)))

/-- The loop makes one entry for each range that is mapped; the others do not count for the places. -/
theorem foldl_item_mapped (items : List RebuildItem) (r : AllocRun) :
    (items.foldl AllocRun.item r).entries.map (·.slot) =
      r.entries.map (·.slot) ++ RebuildItem.slots (RebuildItem.mapped items r.drv) r.dataOffset := by
  induction items generalizing r with
  | nil => simp [RebuildItem.slots, RebuildItem.mapped]
  | cons x items ih =>
    obtain ⟨hdrv, ⟨hnone, hentries, hoff⟩ | ⟨newHandle, hsome, hentries, hoff⟩⟩ := r.item_spec x
    · rw [List.foldl_cons, ih, hentries, hoff, hdrv, RebuildItem.mapped, hnone, Option.isSome_none,
        if_neg Bool.false_ne_true]
    · rw [List.foldl_cons, ih, hentries, hoff, hdrv, RebuildItem.mapped, hsome, Option.isSome_some, if_pos rfl]
      simp [RebuildItem.slots]

theorem mapped_of_allMapped {items : List RebuildItem} {d : Driver} (h : AllMapped items d) :
    RebuildItem.mapped items d = items := by
  induction items generalizing d with
  | nil => rfl
  | cons x items ih =>
    rw [RebuildItem.mapped, if_pos (Option.isSome_iff_ne_none.2 h.1), ih h.2]

theorem foldl_item_slots (items : List RebuildItem) (r : AllocRun) (h : AllMapped items r.drv) :
    (items.foldl AllocRun.item r).entries.map (·.slot) =
      r.entries.map (·.slot) ++ RebuildItem.slots items r.dataOffset := by
  rw [foldl_item_mapped, mapped_of_allMapped h]

theorem exists_entry_of_allMapped {items : List RebuildItem} {d : Driver} (h : AllMapped items d) {x : Slot}
    (hx : x ∈ RebuildItem.slots items 0) : ∃ e ∈ (rebuildAlloc items d).entries, e.slot = x := by
  have hslots := foldl_item_slots items ⟨d, [], 0⟩ h
  rw [List.map_nil, List.nil_append] at hslots
  rw [← hslots] at hx
  exact List.mem_map.1 hx

/-! A reliable driver maps every range that is free. -/

/-- Every mapping of `d'` covers the range of one of `d`, or the range `[va, va + size)`. -/
def RangesWithin (d d' : Driver) (va size : Nat) : Prop :=
  ∀ m ∈ d'.maps, (∃ m' ∈ d.maps, m'.va = m.va ∧ m'.size = m.size) ∨ m.va = va ∧ m.size = size

theorem Driver.grantRange_accessible (d : Driver) (va : Nat) {a n : Nat} (h : d.accessible a n = true) :
    (d.grantRange va).accessible a n = true := by
  rw [accessible, List.any_eq_true] at h ⊢
  obtain ⟨m, hm, hacc⟩ := h
  refine ⟨grantAccess va m, List.mem_map_of_mem hm, ?_⟩
  rw [grantAccess_va, grantAccess_size]
  unfold grantAccess
  split_ifs
  · simp_all
  · exact hacc

theorem Driver.foldl_setAccess_reliable {d : Driver} (henv : d.env.Reliable) {va size : Nat}
    (hmapped : d.mappedAt va size = true) (access : List CUmemAccessDesc) :
    (∀ m ∈ (access.foldl (fun d _ => (d.cuMemSetAccess va size).2) d).maps,
        ∃ m' ∈ d.maps, m'.va = m.va ∧ m'.size = m.size) ∧
      (∀ a n, d.accessible a n = true →
        (access.foldl (fun d _ => (d.cuMemSetAccess va size).2) d).accessible a n = true) ∧
      (access ≠ [] → (access.foldl (fun d _ => (d.cuMemSetAccess va size).2) d).accessible va size = true) := by
  induction access generalizing d with
  | nil => exact ⟨fun m hm => ⟨m, hm, rfl, rfl⟩, fun a n h => h, fun h => absurd rfl h⟩
  | cons ad access ih =>
    have hcall : (d.cuMemSetAccess va size).2 = ({ d with clock := d.clock + 1 } : Driver).grantRange va := by
      rw [cuMemSetAccess, call_of_valid henv hmapped]
    rw [List.foldl_cons, hcall]
    have hmapped' : (({ d with clock := d.clock + 1 } : Driver).grantRange va).mappedAt va size = true := by
      rw [mappedAt, List.any_eq_true] at hmapped ⊢
      obtain ⟨m, hm, heq⟩ := hmapped
      exact ⟨grantAccess va m, List.mem_map_of_mem hm, by simpa using heq⟩
    have hself : (({ d with clock := d.clock + 1 } : Driver).grantRange va).accessible va size = true := by
      rw [mappedAt, List.any_eq_true] at hmapped
      obtain ⟨m, hm, heq⟩ := hmapped
      rw [accessible, List.any_eq_true]
      refine ⟨grantAccess va m, List.mem_map_of_mem hm, ?_⟩
      simp only [Bool.and_eq_true, beq_iff_eq] at heq
      simp [grantAccess, heq.1, heq.2]
    obtain ⟨h1, h2, h3⟩ := ih (d := ({ d with clock := d.clock + 1 } : Driver).grantRange va) henv hmapped'
    refine ⟨?_, ?_, fun _ => h2 va size hself⟩
    · intro m hm
      obtain ⟨m', hm', hva, hsize⟩ := h1 m hm
      obtain ⟨m'', hm'', rfl⟩ := List.mem_map.1 hm'
      exact ⟨m'', hm'', by simpa using hva, by simpa using hsize⟩
    · intro a n h
      exact h2 a n (grantRange_accessible _ va h)

theorem RebuildItem.mapNew_reliable {x : RebuildItem} (henv : d.env.Reliable) (hpos : 0 < x.size)
    (hfree : ∀ m ∈ d.maps, x.vaddr + x.size ≤ m.va ∨ m.va + m.size ≤ x.vaddr) :
    (x.mapNew d).1 ≠ none ∧ RangesWithin d (x.mapNew d).2 x.vaddr x.size ∧
      (∀ a n, d.accessible a n = true → (x.mapNew d).2.accessible a n = true) ∧
      (x.access ≠ [] → (x.mapNew d).2.accessible x.vaddr x.size = true) := by
  obtain ⟨d₁, hcreate, henv₁, hmaps₁, hlive₁⟩ : ∃ d₁, d.cuMemCreate x.size = (some d.nextHandle, d₁) ∧
      d₁.env = d.env ∧ d₁.maps = d.maps ∧ d₁.live = (d.nextHandle, x.size) :: d.live := by
    refine ⟨{ d with clock := d.clock + 1, live := (d.nextHandle, x.size) :: d.live }, ?_, rfl, rfl, rfl⟩
    unfold Driver.cuMemCreate
    dsimp only
    rw [Driver.call_of_valid henv (by simpa using hpos)]
    rfl
  have hcan : d₁.canMap x.vaddr x.size d.nextHandle ∧ d₁.env.fails d₁.clock = false := by
    refine ⟨⟨hpos, ?_, ?_⟩, henv₁ ▸ henv _⟩
    · rw [hlive₁]
      exact ⟨_, List.mem_cons_self .., rfl, le_rfl⟩
    · rw [hmaps₁]
      exact hfree
  obtain ⟨d₂, hmap, henv₂, hmaps₂⟩ : ∃ d₂, d₁.cuMemMap x.vaddr x.size d.nextHandle = (true, d₂) ∧
      d₂.env = d.env ∧ d₂.maps = ⟨x.vaddr, x.size, d.nextHandle, false⟩ :: d.maps := by
    refine ⟨(d₁.cuMemMap x.vaddr x.size d.nextHandle).2, ?_, (d₁.cuMemMap_frame ..).2.trans henv₁, ?_⟩
    · unfold Driver.cuMemMap
      rw [dif_pos hcan]
    · unfold Driver.cuMemMap
      rw [dif_pos hcan, ← hmaps₁]
  have hnew : x.mapNew d = (some d.nextHandle,
      x.access.foldl (fun d _ => (d.cuMemSetAccess x.vaddr x.size).2) d₂) := by
    simp only [mapNew, hcreate, hmap]
  have hmapped : d₂.mappedAt x.vaddr x.size = true :=
    Driver.mappedAt_of_mem (m := ⟨x.vaddr, x.size, d.nextHandle, false⟩) (hmaps₂ ▸ List.mem_cons_self ..)
  obtain ⟨h1, h2, h3⟩ := Driver.foldl_setAccess_reliable (henv₂ ▸ henv) hmapped x.access
  rw [hnew]
  refine ⟨by simp, ?_, ?_, h3⟩
  · intro m hm
    obtain ⟨m', hm', hva, hsize⟩ := h1 m hm
    rw [hmaps₂] at hm'
    rcases List.mem_cons.1 hm' with rfl | hm'
    · exact Or.inr ⟨hva.symm, hsize.symm⟩
    · exact Or.inl ⟨m', hm', hva, hsize⟩
  · intro a n hacc
    apply h2
    rw [Driver.accessible, hmaps₂, List.any_cons, Bool.or_eq_true]
    exact Or.inr hacc

/-- The items' ranges do not overlap. -/
def RebuildItem.vapart (x y : RebuildItem) : Prop := x.vaddr + x.size ≤ y.vaddr ∨ y.vaddr + y.size ≤ x.vaddr

theorem foldl_item_reliable (items : List RebuildItem) (r : AllocRun) (henv : r.drv.env.Reliable)
    (hpos : ∀ x ∈ items, 0 < x.size)
    (hfree : ∀ x ∈ items, ∀ m ∈ r.drv.maps, x.vaddr + x.size ≤ m.va ∨ m.va + m.size ≤ x.vaddr)
    (hapart : items.Pairwise RebuildItem.vapart) :
    AllMapped items r.drv ∧
      (∀ a n, r.drv.accessible a n = true → (items.foldl AllocRun.item r).drv.accessible a n = true) ∧
      ∀ x ∈ items, x.access ≠ [] → (items.foldl AllocRun.item r).drv.accessible x.vaddr x.size = true := by
  induction items generalizing r with
  | nil => exact ⟨trivial, fun a n h => h, by simp⟩
  | cons x items ih =>
    obtain ⟨hx, hapart⟩ := List.pairwise_cons.1 hapart
    obtain ⟨h1, h2, h3, h4⟩ := RebuildItem.mapNew_reliable henv (hpos x (List.mem_cons_self ..))
      (hfree x (List.mem_cons_self ..))
    have hdrv := (r.item_spec x).1
    obtain ⟨ih1, ih2, ih3⟩ := ih (r.item x) (by rw [hdrv, (x.mapNew_frame r.drv).2]; exact henv)
      (fun y hy => hpos y (List.mem_cons_of_mem _ hy))
      (by
        intro y hy m hm
        rw [hdrv] at hm
        rcases h2 m hm with ⟨m', hm', hva, hsize⟩ | ⟨hva, hsize⟩
        · rw [← hva, ← hsize]
          exact hfree y (List.mem_cons_of_mem _ hy) m' hm'
        · rw [hva, hsize]
          exact (hx y hy).symm)
      hapart
    rw [hdrv] at ih1 ih2
    refine ⟨⟨h1, ih1⟩, fun a n h => ih2 a n (h3 a n h), ?_⟩
    intro y hy hne
    rcases List.mem_cons.1 hy with rfl | hy
    · exact ih2 _ _ (h4 hne)
    · exact ih3 y hy hne

end Alloc

/-! ### The bytes of the rebuilt ranges -/

section Copy
variable {fns : IpcFns} {buf : HostBuf} {r : AllocRun}

theorem flatten_groupSlots (r : AllocRun) :
    ((group RebuildEntry.dev r.entries).map fun g => g.2.map (·.slot)).flatten = r.ordered.map (·.slot) := by
  rw [AllocRun.ordered, Lib.Grouping.flatten, List.map_flatMap]
  rfl

theorem mem_ordered {e : RebuildEntry} : e ∈ r.ordered ↔ e ∈ r.entries :=
  (perm_flatten_group RebuildEntry.dev r.entries).mem_iff

theorem Slot.vapart_symm {x y : Slot} (h : x.vapart y) : y.vapart x := Or.symm h

/-- What phase B leaves on the device. -/
theorem rebuildCopy_spec (fns : IpcFns) (buf : HostBuf) (hapart : (r.entries.map (·.slot)).Pairwise Slot.vapart) :
    (rebuildCopy fns buf r).Faithful buf.data r.drv (r.entries.map (·.slot)) := by
  have hperm : (r.ordered.map (·.slot)).Perm (r.entries.map (·.slot)) :=
    (perm_flatten_group RebuildEntry.dev r.entries).map _
  have hpin := r.drv.same_pinHost fns r.dataOffset
  have hstart : RestoreRun.Faithful buf.data r.drv (r.entries.map (·.slot)) ⟨(r.drv.pinHost fns r.dataOffset).2, []⟩ :=
    ⟨hpin.env, hpin.maps, hpin.live, by simp, fun a _ => congrFun hpin.mem a⟩
  unfold rebuildCopy
  refine RestoreRun.Faithful.drv (restoreGroups_spec _ buf.size _ hstart ?_ ?_ (by simp))
    (Driver.same_unpinHost _ _)
  · rw [flatten_groupSlots]
    exact (hperm.pairwise_iff fun h => Slot.vapart_symm h).2 hapart
  · intro x hx
    rw [flatten_groupSlots] at hx
    exact hperm.mem_iff.1 hx

theorem rebuildCopy_reliable (fns : IpcFns) {buf : HostBuf} (hrel : r.drv.ReliableFrom)
    (hfits : ∀ e ∈ r.entries, e.slot.offset + e.slot.size ≤ buf.size ∧
      r.drv.accessible e.slot.vaddr e.slot.size = true) :
    ∀ e ∈ r.entries, e.slot ∈ (rebuildCopy fns buf r).restored := by
  have hpin := r.drv.same_pinHost fns r.dataOffset
  intro e he
  unfold rebuildCopy
  show e.slot ∈ (restoreGroups _ _ _ _ _).restored
  rw [restoreGroups_reliable]
  · rw [flatten_groupSlots, List.nil_append]
    exact List.mem_map_of_mem (mem_ordered.2 he)
  · exact hrel.of_le hpin.env (r.drv.clock_pinHost fns r.dataOffset)
  · intro x hx
    rw [flatten_groupSlots] at hx
    obtain ⟨e', he', rfl⟩ := List.mem_map.1 hx
    obtain ⟨h1, h2⟩ := hfits e' (mem_ordered.1 he')
    refine ⟨h1, ?_⟩
    rw [Driver.accessible, hpin.maps]
    exact h2

end Copy

end GpuCr
