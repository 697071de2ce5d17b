import GpuCr.VGpu.Repeat
import GpuCr.VGpu.Targets
import GpuCr.VGpu.View

/-!
# The library refines the device with checkpoints

`Refines` ties the state of a hooked process to a `CkptGpu`: the parked blocks are those without a handle,
the bytes of the others are in device memory, and those of the dump in the dump file. Every call and every
message that finds what it relies on is a step of that machine (`refines_inStep`), so a run of the
process is a run of the machine with the same labels (`refines_run`). If the messages are orderly too, what
the application sees is a run of the device without checkpoints (`transparent_run`).
-/

namespace GpuCr

open Lib Lib.AsyncStream Lib.Run Lib.Simulation Std

/-! ### What a restore leaves alone -/

namespace VGpu

structure RemapKept (files : List SharedMemFile) (s s' : VGpu) : Prop where
  fs : s'.fs = s.fs
  dump : s'.dump = s.dump
  handles : ∀ q, q ∉ files.map SharedMemFile.ptr → s'.globalHandleMap[q]? = s.globalHandleMap[q]?
  mem : ∀ a, (∀ f ∈ files, a < f.ptr ∨ f.ptr + roundUp2MB f.size ≤ a) → s'.drv.mem a = s.drv.mem a

theorem mapNewPhysical_frame {s s' : VGpu} {p size : Nat} (h : s.mapNewPhysical p size = .ok s') :
    s'.fs = s.fs ∧ s'.dump = s.dump ∧ (∀ q, q ≠ p → s'.globalHandleMap[q]? = s.globalHandleMap[q]?) ∧
      ∀ a, a < p ∨ p + size ≤ a → s'.drv.mem a = s.drv.mem a := by
  unfold mapNewPhysical at h
  have hcreate := (s.drv.cuMemCreate_frame size).1
  generalize s.drv.cuMemCreate size = created at h hcreate
  obtain ⟨_ | memHandle, drv⟩ := created
  · exact absurd h (by simp)
  · dsimp only at h hcreate
    split_ifs at h
    obtain rfl := Except.ok.inj h
    refine ⟨rfl, rfl, fun q hq => ?_, fun a ha => ?_⟩
    · show (s.globalHandleMap.insert p memHandle)[q]? = _
      rw [getElem?_insert_key, if_neg hq]
    · show ((drv.cuMemMap p size memHandle).2.cuMemSetAccess p size).2.mem a = _
      rw [(Driver.cuMemSetAccess_frame _ _ _).1, (Driver.cuMemMap_frame _ _ _ _).1 a ha, hcreate]

theorem mapNewPhysical_kept {s s' : VGpu} {f : SharedMemFile}
    (h : s.mapNewPhysical f.ptr (roundUp2MB f.size) = .ok s') : RemapKept [f] s s' := by
  obtain ⟨hfs, hdump, hhandles, hmem⟩ := mapNewPhysical_frame h
  exact ⟨hfs, hdump, fun q hq => hhandles q (List.mem_singleton.not.1 hq),
    fun a ha => hmem a (ha f (List.mem_singleton_self f))⟩

theorem remapPhysicalMemory_kept {s s' : VGpu} {f : SharedMemFile}
    (h : s.remapPhysicalMemory f.ptr f.size = .ok s') : RemapKept [f] s s' := by
  unfold remapPhysicalMemory at h
  cases htab : s.allocatedMemory[f.ptr]? with
  | none =>
    rw [htab] at h
    exact absurd h (by simp)
  | some n =>
    rw [htab] at h
    dsimp only at h
    split_ifs at h
    · cases hrel : s.unmapAndRelease f.ptr (roundUp2MB n) with
      | none =>
        rw [hrel] at h
        exact absurd h (by simp)
      | some s₁ =>
        rw [hrel] at h
        have hfirst := (unmapAndRelease_inv hrel).2
        have hrest := mapNewPhysical_kept h
        exact ⟨hrest.fs.trans hfirst.fs, hrest.dump.trans hfirst.dump,
          fun q hq => (hrest.handles q hq).trans (hfirst.handles q hq),
          fun a ha => (hrest.mem a ha).trans (congrFun hfirst.mem a)⟩
    · exact mapNewPhysical_kept h

theorem remapAll_kept {files : List SharedMemFile} {s s' : VGpu} (h : remapAll files s = .ok s') :
    RemapKept files s s' := by
  induction files generalizing s with
  | nil =>
    obtain rfl : s = s' := Except.ok.inj h
    exact ⟨rfl, rfl, fun _ _ => rfl, fun _ _ => rfl⟩
  | cons f files ih =>
    unfold remapAll at h ih
    rw [List.foldlM_cons] at h
    obtain ⟨s₁, h1, h2⟩ := bind_eq_ok.1 h
    have hfirst := remapPhysicalMemory_kept h1
    have hrest := ih h2
    refine ⟨hrest.fs.trans hfirst.fs, hrest.dump.trans hfirst.dump, fun q hq => ?_, fun a ha => ?_⟩
    · rw [List.map_cons, List.mem_cons, not_or] at hq
      exact (hrest.handles q hq.2).trans (hfirst.handles q (List.mem_singleton.not.2 hq.1))
    · rw [hrest.mem a fun g hg => ha g (List.mem_cons_of_mem _ hg)]
      refine hfirst.mem a fun g hg => ?_
      obtain rfl := List.mem_singleton.1 hg
      exact ha g (List.mem_cons_self ..)

end VGpu

namespace HookedGpu

/-- What a restore did, whether its files were parked or not. -/
structure FilesBack (s : HookedGpu) (v : VGpu) : Prop where
  tracked : ({ s with toVGpu := v } : HookedGpu).Tracked
  allocatedMemory : v.allocatedMemory = s.allocatedMemory
  fs : v.fs = s.fs
  dump : v.dump = s.dump
  handled : ∀ f ∈ s.fs.fileList, v.globalHandleMap[f.ptr]?.isSome
  handles : ∀ q, q ∉ s.fs.fileList.map SharedMemFile.ptr → v.globalHandleMap[q]? = s.globalHandleMap[q]?
  content : ∀ f ∈ s.fs.fileList, ∀ i < f.size, v.drv.mem (f.ptr + i) = s.dump (f.startOffset + i)
  outside : ∀ a, (∀ f ∈ s.fs.fileList, a < f.ptr ∨ f.ptr + roundUp2MB f.size ≤ a) → v.drv.mem a = s.drv.mem a

theorem Tracked.filesBack {s : HookedGpu} (hs : s.Tracked) (rule : ChunkRule)
    (hfiles : ∀ f ∈ s.fs.fileList, ∃ n, s.allocatedMemory[f.ptr]? = some n ∧ roundUp2MB f.size = roundUp2MB n)
    (hnodup : (s.fs.fileList.map SharedMemFile.ptr).Nodup) :
    ∃ v v', VGpu.remapAll s.fs.fileList s.toVGpu = .ok v ∧ v.runCopyLoop (restoreCmds rule v.fs) = .ok v' ∧
      s.FilesBack v' := by
  obtain ⟨v, v', hremap, hloop, htracked⟩ := hs.restore_spec rule hfiles
  obtain ⟨v₁, hremap₁, -, htab, hfs, hhandles⟩ := hs.remapAll_spec hfiles
  obtain rfl : v₁ = v := Except.ok.inj (hremap₁.symm.trans hremap)
  have hkept := VGpu.remapAll_kept hremap
  obtain ⟨offset, blocks, hlist, hoffset⟩ := hs.header
  have hlist₁ : v₁.fs.fileList = layout offset blocks := hfs ▸ hlist
  obtain ⟨hdev, hdump⟩ := restoreCmds_spec rule hlist₁ (hfs ▸ hoffset) v₁.pipeMem
  obtain ⟨-, rfl⟩ := VGpu.runCopyLoop_inv hloop
  -- the files are different blocks of the table
  have hapart : s.fs.fileList.Pairwise fun f g => f.ptr + f.size ≤ g.ptr ∨ g.ptr + g.size ≤ f.ptr := by
    refine (List.pairwise_map.1 hnodup).imp_of_mem fun {f g} hf hg hne => ?_
    obtain ⟨n, hn, hsize⟩ := hfiles f hf
    obtain ⟨m, hm, hsize'⟩ := hfiles g hg
    have := hs.tableApart f.ptr g.ptr n m hn hm hne
    have := le_roundUp2MB f.size
    have := le_roundUp2MB g.size
    omega
  refine ⟨v₁, _, hremap, hloop, htracked, htab, hfs, hdump.trans hkept.dump,
    fun f hf => hhandles _ (Or.inl ⟨f, hf, rfl⟩), hkept.handles, fun f hf i hi => ?_, fun a ha => ?_⟩
  · show (runPipe (restoreCmds rule v₁.fs) v₁.pipeMem).dev (f.ptr + i) = _
    rw [hdev, hfs]
    refine (restoredDev_in _ _ _ hapart hf hi).trans ?_
    exact congrFun hkept.dump _
  · show (runPipe (restoreCmds rule v₁.fs) v₁.pipeMem).dev a = _
    rw [hdev, hfs, restoredDev_out]
    · exact hkept.mem a ha
    · intro f hf
      have := ha f hf
      have := le_roundUp2MB f.size
      omega

/-! ### The refinement -/

/-- The blocks with physical memory, the only ones a kernel can use. -/
def usable (s : HookedGpu) : Set Nat := {p | s.allocatedMemory[p]?.isSome ∧ s.globalHandleMap[p]?.isSome}

/-- What the application learns from an event, or which message it is. -/
def gpuLabel (s : HookedGpu) : GpuEvent → GpuLabel
  | .app (.cudaMalloc size) => .app (.cudaMalloc size (s.cudaMalloc size).1)
  | .app (.cudaFree ptr) => .app (.cudaFree ptr)
  | .app (.kernel mem) => .app (.kernel s.usable s.drv.mem mem)
  | .msg m => .msg m

def gpuStep (shmSize : Nat) (s : HookedGpu) (e : GpuEvent) : Except Exit HookedGpu := step shmSize (.ok s) e

/-- A condition on the messages. -/
def OnMsg (P : HookedGpu → GpuMsg → Prop) (s : HookedGpu) (e : GpuEvent) : Prop := ∀ m, e = .msg m → P s m

structure Refines (s : HookedGpu) (g : CkptGpu) : Prop where
  tracked : s.Tracked
  pending : g.Pending
  blocks : ∀ p, g.blocks p = s.allocatedMemory[p]?
  parked : ∀ p, p ∈ g.parked ↔ s.allocatedMemory[p]?.isSome ∧ s.globalHandleMap[p]? = none
  mem : PlainGpu.AgreeOn g.blocks g.parkedᶜ s.drv.mem g.mem
  nodup : (s.fs.fileList.map SharedMemFile.ptr).Nodup
  saved : ∀ p, p ∈ g.saved ↔ p ∈ s.fs.fileList.map SharedMemFile.ptr
  image : ∀ f ∈ s.fs.fileList, ∀ k c, g.dump f.ptr = some (k, c) →
    k ≤ f.size ∧ roundUp2MB k = roundUp2MB f.size ∧ ∀ i < k, s.dump (f.startOffset + i) = c i

/-- What the relation reads of the process. -/
def view (s : HookedGpu) : GpuView where
  blocks p := s.allocatedMemory[p]?
  parked := {p | s.allocatedMemory[p]?.isSome ∧ s.globalHandleMap[p]? = none}
  mem := s.drv.mem
  files := s.fs.fileList
  dump := s.dump

theorem view_usable (s : HookedGpu) : s.view.usable = s.usable := by
  ext p
  constructor
  · rintro ⟨hblock, hout⟩
    exact ⟨hblock, Option.isSome_iff_ne_none.2 fun hnone => hout ⟨hblock, hnone⟩⟩
  · rintro ⟨hblock, hhandle⟩
    refine ⟨hblock, fun hin => ?_⟩
    rw [hin.2] at hhandle
    exact absurd hhandle (by simp)

theorem Tracked.apart_view {s : HookedGpu} (hs : s.Tracked) : PlainGpu.Apart s.view.blocks := by
  intro p q n m hp hq hne
  have := hs.tableApart p q n m hp hq hne
  have := le_roundUp2MB n
  have := le_roundUp2MB m
  omega

theorem Refines.matches {s : HookedGpu} {g : CkptGpu} (h : s.Refines g) : s.view.Matches g := by
  have hblocks : g.blocks = s.view.blocks := funext h.blocks
  have hparked : g.parked = s.view.parked := Set.ext h.parked
  exact ⟨h.pending, h.tracked.apart_view, hblocks, hparked, hblocks ▸ hparked ▸ h.mem, h.nodup, Set.ext h.saved, h.image⟩

theorem refines_of_matches {s : HookedGpu} {g : CkptGpu} {v : GpuView} (htracked : s.Tracked) (hv : s.view = v)
    (h : v.Matches g) : s.Refines g := by
  subst hv
  exact ⟨htracked, h.pending, congrFun h.blocks, Set.ext_iff.1 h.parked, h.blocks ▸ h.parked ▸ h.mem, h.nodup,
    Set.ext_iff.1 h.saved, h.image⟩

theorem Fresh.refines {s : HookedGpu} (h : s.Fresh) (henv : s.drv.env.Reliable) : s.Refines .empty := by
  refine refines_of_matches (h.tracked henv) rfl (GpuView.matches_empty ?_ ?_ ?_)
  · simp [view, h.table]
  · simp [view, h.table]
  · simp [view, SharedMemFs.fileList, h.fileNum]

section Refines
variable {s : HookedGpu} {g : CkptGpu}

/-! ### The calls of the application -/

theorem allocateVmm_ptr {size alignedSize va : Nat} (h : (s.allocateVmm size alignedSize).1 = some va) : va ≠ 0 := by
  have hva : ∀ t : HookedGpu, ∀ p, (t.allocateAt p size alignedSize).1 = some va → va = p := by
    intro t p hat
    unfold allocateAt at hat
    generalize t.drv.cuMemCreate alignedSize = created at hat
    obtain ⟨_ | memHandle, drv⟩ := created
    · exact absurd hat (by simp)
    · dsimp only at hat
      split_ifs at hat
      exact (Option.some.inj hat).symm
  unfold allocateVmm cuMemAddressReserve at h
  split_ifs at h
  rw [hva _ _ h]
  exact s.nextVa_ne_zero alignedSize

theorem Tracked.fresh (hs : s.Tracked) {va size : Nat} (hpos : 0 < size)
    (hfresh : ∀ r ∈ s.reserved, rangeApart (va, roundUp2MB size) r) :
    s.view.blocks va = none ∧ ∀ q n, s.view.blocks q = some n → va + size ≤ q ∨ q + n ≤ va := by
  have happart : ∀ q n, s.view.blocks q = some n → 0 < n ∧ (va + size ≤ q ∨ q + n ≤ va) := by
    intro q n hq
    have hreserved := hfresh _ (hs.block q n hq)
    have := le_roundUp2MB n
    have := le_roundUp2MB size
    unfold rangeApart at hreserved
    simp only at hreserved
    exact ⟨hs.pos q n hq, by omega⟩
  refine ⟨Option.eq_none_iff_forall_ne_some.2 fun n hn => ?_, fun q n hq => (happart q n hq).2⟩
  have := happart va n hn
  omega

theorem Refines.cudaMalloc (h : s.Refines g) (size : Nat) : ∃ g',
    CkptGpu.App g (.cudaMalloc size (s.cudaMalloc size).1) g' ∧ (s.cudaMalloc size).2.Refines g' := by
  have htracked := tracked_cudaMalloc h.tracked size
  unfold HookedGpu.cudaMalloc at htracked ⊢
  split_ifs at htracked ⊢ with hz
  · subst hz
    obtain ⟨g', happ, hmatches⟩ := h.matches.mallocNothing
    exact ⟨g', happ, refines_of_matches h.tracked rfl hmatches⟩
  have hpos := Nat.pos_of_ne_zero hz
  obtain ⟨va, handle, drv, hfresh, hre, heq⟩ := h.tracked.allocateVmm_spec size (roundUp2MB_pos hpos)
  have hptr : va ≠ 0 := allocateVmm_ptr (congrArg Prod.fst heq)
  rw [heq] at htracked ⊢
  obtain ⟨hnew, happart⟩ := h.tracked.fresh hpos hfresh
  have hmem : PlainGpu.AgreeOn s.view.blocks Set.univ s.view.mem drv.mem := by
    intro p n hp _ i hi
    have hreserved := hfresh _ (h.tracked.block p n hp)
    have := le_roundUp2MB n
    unfold rangeApart at hreserved
    simp only at hreserved
    exact hre.mem _ (by omega)
  obtain ⟨g', happ, hmatches⟩ := h.matches.malloc hpos hptr hnew happart hmem
  refine ⟨g', happ, refines_of_matches htracked ?_ hmatches⟩
  have hnew : s.allocatedMemory[va]? = none := hnew
  unfold view
  congr 1
  · ext p : 1
    rw [getElem?_insert_key, Function.update_apply]
  · ext p
    simp only [Set.mem_ofPred_eq, getElem?_insert_key]
    split_ifs with hp
    · simp [hp, hnew]
    · rfl

theorem cudaFree_frame (hs : s.Reserved) (ptr : Nat) :
    (s.cudaFree ptr).fs = s.fs ∧ (s.cudaFree ptr).dump = s.dump ∧
      (∀ q, (s.cudaFree ptr).allocatedMemory[q]? = if q = ptr then none else s.allocatedMemory[q]?) ∧
      (∀ q, q ≠ ptr → (s.cudaFree ptr).globalHandleMap[q]? = s.globalHandleMap[q]?) ∧
      ∀ q n, s.allocatedMemory[q]? = some n → q ≠ ptr → ∀ i < n, (s.cudaFree ptr).drv.mem (q + i) = s.drv.mem (q + i) := by
  cases hptr : s.allocatedMemory[ptr]? with
  | none =>
    rw [cudaFree_unknown hptr]
    refine ⟨rfl, rfl, fun q => ?_, fun _ _ => rfl, fun _ _ _ _ _ _ => rfl⟩
    split_ifs with hq
    · exact hq ▸ hptr
    · rfl
  | some n =>
    have hfreed := cudaFree_freed hptr
    refine ⟨hfreed.only.fs, hfreed.only.dump, fun q => ?_, hfreed.only.handles, fun q m hq hne i hi => ?_⟩
    · rw [hfreed.table, getElem?_erase_key]
    · have := hs.tableApart q ptr m n hq hptr hne
      have := le_roundUp2MB m
      exact hfreed.only.drv.mem _ (by simp only; omega)

theorem Refines.cudaFree (h : s.Refines g) (ptr : Nat) : ∃ g',
    CkptGpu.App g (.cudaFree ptr) g' ∧ (s.cudaFree ptr).Refines g' := by
  obtain ⟨hfs, hdump, htable, hhandles, hmem⟩ := cudaFree_frame h.tracked.toReserved ptr
  have hkept : PlainGpu.AgreeOn s.view.blocks {ptr}ᶜ s.drv.mem (s.cudaFree ptr).drv.mem := fun p n hp hne => hmem p n hp hne
  obtain ⟨g', happ, hmatches⟩ := h.matches.free ptr hkept
  refine ⟨g', happ, refines_of_matches (tracked_cudaFree h.tracked ptr) ?_ hmatches⟩
  unfold view
  rw [hfs, hdump]
  congr 1
  · ext p : 1
    rw [htable, Function.update_apply]
  · ext p
    simp only [Set.mem_ofPred_eq, Set.mem_sdiff, Set.mem_singleton_iff, htable]
    by_cases hp : p = ptr
    · simp [hp]
    · rw [if_neg hp, hhandles p hp, and_iff_left hp]

theorem Refines.kernel (h : s.Refines g) (mem : Nat → Byte) : ∃ g',
    CkptGpu.App g (.kernel s.usable s.drv.mem mem) g' ∧ (s.appStep (.kernel mem)).Refines g' := by
  have htracked : (s.appStep (.kernel mem)).Tracked :=
    ⟨⟨h.tracked.block, h.tracked.pos, h.tracked.apart⟩, h.tracked.env, h.tracked.typed, h.tracked.covered,
      ⟨h.tracked.blocks.handled, h.tracked.blocks.blocks⟩, h.tracked.header⟩
  obtain ⟨g', happ, hmatches⟩ := h.matches.kernel mem
  rw [s.view_usable] at happ
  exact ⟨g', happ, refines_of_matches htracked rfl hmatches⟩

/-! ### The messages -/

theorem saved_view {blocks : List (Nat × Nat)} {v : VGpu} (hv : VGpu.Dumped blocks s.toVGpu v) :
    ({ s with toVGpu := v } : HookedGpu).view.saved = {p | p ∈ blocks.map Prod.fst} := by
  rw [← layout_ptrs dumpHeaderSize blocks, ← hv.fileList]
  rfl

theorem saved_of_dumped {blocks : List (Nat × Nat)} {v : VGpu} (hv : VGpu.Dumped blocks s.toVGpu v)
    (hnodup : (blocks.map Prod.fst).Nodup)
    (hsize : ∀ b ∈ blocks, ∃ n, s.allocatedMemory[b.1]? = some n ∧ n ≤ b.2 ∧ roundUp2MB n = roundUp2MB b.2)
    (hhandled : ∀ b ∈ blocks, s.globalHandleMap[b.1]?.isSome) :
    s.view.Saved ({ s with toVGpu := v } : HookedGpu).view := by
  have hfile : ∀ f ∈ v.fs.fileList, (f.ptr, f.size) ∈ blocks := by
    intro f hf
    rw [hv.fileList] at hf
    exact mem_of_mem_layout hf
  have hlist : v.fs.fileList.map SharedMemFile.ptr = blocks.map Prod.fst := by
    rw [hv.fileList, layout_ptrs]
  refine ⟨?_, hv.mem, ?_, fun f hf hin => ?_, ?_, fun f hf => hsize _ (hfile f hf), hv.image⟩
  · unfold view
    simp only [hv.allocatedMemory]
  · ext p
    show v.allocatedMemory[p]?.isSome ∧ v.globalHandleMap[p]? = none ↔
      (s.allocatedMemory[p]?.isSome ∧ s.globalHandleMap[p]? = none) ∨ p ∈ v.fs.fileList.map SharedMemFile.ptr
    rw [hv.allocatedMemory, hlist]
    by_cases hp : p ∈ blocks.map Prod.fst
    · obtain ⟨b, hb, rfl⟩ := List.mem_map.1 hp
      obtain ⟨n, hn, -⟩ := hsize b hb
      exact iff_of_true ⟨by rw [hn]; rfl, hv.unhandled _ hp⟩ (Or.inr hp)
    · rw [hv.handles p hp, or_iff_left hp]
  · have hhandle := hhandled _ (hfile f hf)
    have hnone : s.globalHandleMap[f.ptr]? = none := hin.2
    simp [hnone] at hhandle
  · show (v.fs.fileList.map SharedMemFile.ptr).Nodup
    rw [hlist]
    exact hnodup

theorem FilesBack.restored {v : VGpu} (hv : s.FilesBack v) (hs : s.Tracked)
    (hfiles : ∀ f ∈ s.fs.fileList, ∃ n, s.allocatedMemory[f.ptr]? = some n ∧ roundUp2MB f.size = roundUp2MB n) :
    s.view.Restored ({ s with toVGpu := v } : HookedGpu).view := by
  refine ⟨fun f hf => ?_, ?_, ?_, ?_, hv.dump, hv.content, ?_⟩
  · obtain ⟨n, hn, -⟩ := hfiles f hf
    exact ⟨n, hn⟩
  · unfold view
    simp only [hv.allocatedMemory]
  · ext p
    show v.allocatedMemory[p]?.isSome ∧ v.globalHandleMap[p]? = none ↔
      (s.allocatedMemory[p]?.isSome ∧ s.globalHandleMap[p]? = none) ∧ p ∉ s.fs.fileList.map SharedMemFile.ptr
    rw [hv.allocatedMemory]
    by_cases hp : p ∈ s.fs.fileList.map SharedMemFile.ptr
    · obtain ⟨f, hf, rfl⟩ := List.mem_map.1 hp
      have hhandle := hv.handled f hf
      exact iff_of_false (fun hin => by simp [hin.2] at hhandle) fun hin => hin.2 hp
    · rw [hv.handles p hp, and_iff_left hp]
  · unfold view
    simp only [hv.fs]
  · intro p n hn hout i hi
    refine hv.outside _ fun f hf => ?_
    -- the files are other blocks
    obtain ⟨m, hm, hround⟩ := hfiles f hf
    have hne : p ≠ f.ptr := by
      rintro rfl
      exact hout (List.mem_map_of_mem hf)
    have := hs.tableApart p f.ptr n m hn hm hne
    have := le_roundUp2MB n
    omega

theorem Refines.msg (h : s.Refines g) {shmSize : Nat} {m : GpuMsg} (hm : Allowed shmSize s m) : ∃ s' g',
    s.crSignalHandler shmSize m = .ok s' ∧ CkptGpu.Step g (.msg m) g' ∧ s'.Refines g' := by
  suffices hop : ∃ v g', operation shmSize m s.toVGpu = .ok v ∧ CkptGpu.Step g (.msg m) g' ∧
      ({ s with toVGpu := v } : HookedGpu).Refines g' by
    obtain ⟨v, g', hv, hg', hrefines⟩ := hop
    exact ⟨_, g', by rw [crSignalHandler, hv]; rfl, hg', hrefines⟩
  have htracked := h.tracked
  -- what has a handle is not parked
  have hpresent : ∀ p, s.globalHandleMap[p]?.isSome → p ∉ g.parked := by
    intro p hp hin
    simp [((h.parked p).1 hin).2] at hp
  cases m with
  | ckpt =>
    obtain ⟨hmapped, hnum, hsize⟩ := hm
    have hblocks : ∀ p n : Nat, s.allocatedMemory[p]? = some n → s.toVGpu.MappedBlock p n :=
      fun p n hp => htracked.blocks.mappedBlock hp (hmapped p (by simp [hp]))
    obtain ⟨v, hckpt, hdumped⟩ := VGpu.ckpt_spec htracked.env hblocks hnum hsize
    have hsaved := saved_of_dumped hdumped (VGpu.ckptBlocks_dumpable hblocks).nodup
      (fun b hb => by
        obtain ⟨n, hn, hround⟩ := VGpu.mem_ckptBlocks.1 hb
        exact ⟨n, hn, hround ▸ le_roundUp2MB n, by rw [hround, roundUp2MB_idem]⟩)
      (fun b hb => by
        obtain ⟨n, hn, -⟩ := VGpu.mem_ckptBlocks.1 hb
        exact hmapped _ (by simp [hn]))
    have hall : ({ s with toVGpu := v } : HookedGpu).view.saved = g.allBlocks := by
      rw [h.matches.allBlocks_eq fun _ => rfl]
      exact saved_view hdumped
    have hparked : g.parked = ∅ := by
      refine Set.eq_empty_iff_forall_notMem.2 fun p hp => hpresent p (hmapped p ((h.parked p).1 hp).1) hp
    exact ⟨v, _, hckpt, .ckpt g hparked, hall ▸ refines_of_matches (htracked.of_dumped hdumped) rfl (h.matches.save hsaved)⟩
  | selectiveCkpt req =>
    obtain ⟨hmapped, hnum, hsize⟩ := hm
    obtain ⟨v, hckpt, hdumped⟩ := VGpu.ckptSelective_spec htracked.env htracked.tableApart
      (fun b hb => htracked.blocks.mappedBlock (VGpu.mem_requestedBlocks.1 hb).1 (hmapped b hb)) hnum hsize
    have hsaved := saved_of_dumped hdumped (VGpu.nodup_requestedBlocks _ _)
      (fun b hb => ⟨b.2, (VGpu.mem_requestedBlocks.1 hb).1, le_rfl, rfl⟩) hmapped
    have hptrs : ({ s with toVGpu := v } : HookedGpu).view.saved = g.requested req := by
      rw [h.matches.requested_eq (fun _ => rfl) req]
      exact saved_view hdumped
    have hdisjoint : g.requested req ∩ g.parked = ∅ := by
      refine Set.eq_empty_iff_forall_notMem.2 ?_
      rintro p ⟨hin, hp⟩
      obtain ⟨f, hf, rfl⟩ := GpuView.exists_file (hptrs ▸ hin)
      exact hsaved.present f hf (h.matches.parked ▸ hp)
    exact ⟨v, _, hckpt, .selectiveCkpt g req hdisjoint,
      hptrs ▸ refines_of_matches (htracked.of_dumped hdumped) rfl (h.matches.save hsaved)⟩
  | restore =>
    obtain ⟨v, v', hremap, hloop, hback⟩ := htracked.filesBack wholeChunk hm h.nodup
    obtain ⟨g', hrestore, hmatches⟩ := h.matches.restore (hback.restored htracked hm)
    refine ⟨v', g', ?_, .restore hrestore, refines_of_matches hback.tracked rfl hmatches⟩
    show VGpu.restorePtrAndContent s.toVGpu = .ok v'
    unfold VGpu.restorePtrAndContent
    rw [hremap]
    exact hloop
  | selectiveRestore =>
    obtain ⟨v, v', hremap, hloop, hback⟩ := htracked.filesBack granuleChunk hm h.nodup
    obtain ⟨g', hrestore, hmatches⟩ := h.matches.restore (hback.restored htracked hm)
    refine ⟨v', g', ?_, .selectiveRestore hrestore, refines_of_matches hback.tracked rfl hmatches⟩
    show VGpu.restorePtrAndContentSelective s.toVGpu = .ok v'
    unfold VGpu.restorePtrAndContentSelective
    rw [hremap]
    exact hloop

/-! ### Runs -/

theorem Refines.step (h : s.Refines g) {shmSize : Nat} {e : GpuEvent} (he : OnMsg (Allowed shmSize) s e) : ∃ s' g',
    gpuStep shmSize s e = .ok s' ∧ CkptGpu.Step g (s.gpuLabel e) g' ∧ s'.Refines g' := by
  cases e with
  | msg m => exact h.msg (he m rfl)
  | app call =>
    suffices happ : ∃ l g', s.gpuLabel (.app call) = .app l ∧ CkptGpu.App g l g' ∧ (s.appStep call).Refines g' by
      obtain ⟨l, g', hl, happ, hrefines⟩ := happ
      exact ⟨_, g', rfl, hl ▸ .app happ, hrefines⟩
    cases call with
    | cudaMalloc size =>
      obtain ⟨g', happ, hrefines⟩ := h.cudaMalloc size
      exact ⟨_, g', rfl, happ, hrefines⟩
    | cudaFree ptr =>
      obtain ⟨g', happ, hrefines⟩ := h.cudaFree ptr
      exact ⟨_, g', rfl, happ, hrefines⟩
    | kernel mem =>
      obtain ⟨g', happ, hrefines⟩ := h.kernel mem
      exact ⟨_, g', rfl, happ, hrefines⟩

end Refines

theorem refines_inStep (shmSize : Nat) :
    InStep Refines (OnMsg (Allowed shmSize)) (gpuStep shmSize) gpuLabel CkptGpu.Step :=
  fun _ _ _ h he => h.step he

/-- **Checkpoints mean what they are for.** In every run whose messages find what they rely on, the process
lives, and its calls and messages are a run of the device with checkpoints. -/
theorem refines_run (shmSize : Nat) (s₀ : HookedGpu) (hfresh : s₀.Fresh) (henv : s₀.drv.env.Reliable)
    (events : List GpuEvent) (hok : AllStepsM (OnMsg (Allowed shmSize)) (gpuStep shmSize) s₀ events) :
    ∃ s g, events.foldlM (gpuStep shmSize) s₀ = .ok s ∧
      Trace CkptGpu.Step .empty (labels (gpuStep shmSize) gpuLabel s₀ events) g ∧ s.Refines g := by
  obtain ⟨s, g, hrun, htrace, hrefines⟩ := (refines_inStep shmSize).run (hfresh.refines henv) hok
  exact ⟨s, g, hrun, htrace, hrefines⟩

theorem onMsg_app (P : HookedGpu → GpuMsg → Prop) (s : HookedGpu) (call : AppCall) : OnMsg P s (.app call) :=
  fun _ heq => absurd heq (by simp)

theorem onMsg_msg {P : HookedGpu → GpuMsg → Prop} {s : HookedGpu} {m : GpuMsg} (h : P s m) : OnMsg P s (.msg m) :=
  fun _ heq => GpuEvent.msg.inj heq ▸ h

theorem refines_oneBlock : ∃ s g, [.app (.cudaMalloc 3), .msg .ckpt].foldlM (gpuStep shmSizeDefault) freshGpu = .ok s ∧
    Trace CkptGpu.Step .empty
      (labels (gpuStep shmSizeDefault) gpuLabel freshGpu [.app (.cudaMalloc 3), .msg .ckpt]) g ∧ s.Refines g := by
  refine refines_run shmSizeDefault freshGpu freshGpu_fresh (fun _ => rfl) _ ⟨onMsg_app _ _ _, ?_⟩
  rintro s hs
  obtain rfl : oneBlock = s := Except.ok.inj hs
  exact ⟨onMsg_msg oneBlock_allowed, fun _ _ => trivial⟩

/-! ### Orderly runs -/

/-- A checkpoint finds nothing parked and has room, a restore finds its files parked. -/
def OrderlyAt (shmSize : Nat) (s : HookedGpu) : GpuMsg → Prop
  | .ckpt => Allowed shmSize s .ckpt
  | .selectiveCkpt req => (∀ p : Nat, s.allocatedMemory[p]?.isSome → s.globalHandleMap[p]?.isSome) ∧
      (VGpu.requestedBlocks s.allocatedMemory req).length < maxFileNum ∧
      dumpHeaderSize + totalSize (VGpu.requestedBlocks s.allocatedMemory req) ≤ shmSize
  | .restore | .selectiveRestore => ∀ f ∈ s.fs.fileList,
      s.allocatedMemory[f.ptr]?.isSome ∧ s.globalHandleMap[f.ptr]? = none

theorem Refines.orderly {s : HookedGpu} {g : CkptGpu} (h : s.Refines g) {shmSize : Nat} {m : GpuMsg}
    (hm : OrderlyAt shmSize s m) : Allowed shmSize s m ∧ g.Orderly (.msg m) := by
  have hrestore : (∀ f ∈ s.fs.fileList, s.allocatedMemory[f.ptr]?.isSome ∧ s.globalHandleMap[f.ptr]? = none) →
      (∀ f ∈ s.fs.fileList, ∃ n, s.allocatedMemory[f.ptr]? = some n ∧ roundUp2MB f.size = roundUp2MB n) ∧
        g.saved ⊆ g.parked := by
    intro hfiles
    refine ⟨fun f hf => ?_, fun p hp => ?_⟩
    · obtain ⟨n, hn, -, hround⟩ := h.matches.parked_file hf (hfiles f hf)
      exact ⟨n, hn, hround.symm⟩
    · obtain ⟨f, hf, rfl⟩ := GpuView.exists_file (h.matches.saved ▸ hp)
      exact (h.parked f.ptr).2 (hfiles f hf)
  cases m with
  | ckpt => exact ⟨hm, trivial⟩
  | selectiveCkpt req =>
    obtain ⟨hmapped, hnum, hsize⟩ := hm
    refine ⟨⟨fun b hb => hmapped b.1 ?_, hnum, hsize⟩, Set.eq_empty_iff_forall_notMem.2 fun p hp => ?_⟩
    · rw [(VGpu.mem_requestedBlocks.1 hb).1]
      rfl
    · obtain ⟨htab, hnone⟩ := (h.parked p).1 hp
      have := hmapped p htab
      rw [hnone] at this
      exact absurd this (by simp)
  | restore => exact hrestore hm
  | selectiveRestore => exact hrestore hm

/-- What the application sees: a block it can use holds the bytes it expects, and the dump has those of a
block that is parked. -/
structure ShowsApp (s : HookedGpu) (a : PlainGpu) : Prop where
  blocks : ∀ p, a.blocks p = s.allocatedMemory[p]?
  usable : PlainGpu.AgreeOn a.blocks s.usable s.drv.mem a.mem
  parked : ∀ p n, a.blocks p = some n → p ∉ s.usable →
    ∃ f ∈ s.fs.fileList, f.ptr = p ∧ n ≤ f.size ∧ ∀ i < n, s.dump (f.startOffset + i) = a.mem (p + i)

theorem Refines.showsApp {s : HookedGpu} {g : CkptGpu} {a : PlainGpu} (h : s.Refines g) (hshows : g.Shows a) :
    s.ShowsApp a := by
  have hview := h.matches.showsApp hshows
  have husable := s.view_usable
  exact ⟨congrFun hview.blocks, husable ▸ hview.usable, husable ▸ hview.parked⟩

/-- **Checkpoints are transparent.** In every run whose messages are orderly the process lives, and what the
application has seen, every pointer and every byte, is a run of the device without checkpoints. -/
theorem transparent_run (shmSize : Nat) (s₀ : HookedGpu) (hfresh : s₀.Fresh) (henv : s₀.drv.env.Reliable)
    (events : List GpuEvent) (hok : AllStepsM (OnMsg (OrderlyAt shmSize)) (gpuStep shmSize) s₀ events) :
    ∃ s a, events.foldlM (gpuStep shmSize) s₀ = .ok s ∧
      Trace PlainGpu.Step .empty ((labels (gpuStep shmSize) gpuLabel s₀ events).filterMap GpuLabel.hideMsg) a ∧
      s.ShowsApp a := by
  have horderly : InStep Refines (OnMsg (OrderlyAt shmSize)) (gpuStep shmSize) gpuLabel
      (fun g l g' => g.Orderly l ∧ CkptGpu.Step g l g') := by
    intro s g e h he
    have hallowed : OnMsg (Allowed shmSize) s e := fun m hm => (h.orderly (he m hm)).1
    obtain ⟨s', g', hstep, hg', hrefines⟩ := h.step hallowed
    refine ⟨s', g', hstep, ⟨?_, hg'⟩, hrefines⟩
    cases e with
    | msg m => exact (h.orderly (he m rfl)).2
    | app call => cases call <;> trivial
  obtain ⟨s, g, a, hrun, hrefines, hshows, htrace⟩ :=
    horderly.run_comp CkptGpu.orderly_simulates (hfresh.refines henv) CkptGpu.shows_empty hok
  exact ⟨s, a, hrun, htrace, hrefines.showsApp hshows⟩

/-- One block, a checkpoint, a kernel and a restore. -/
def checkpointedKernel : List GpuEvent :=
  [.app (.cudaMalloc 3), .msg .ckpt, .app (.kernel fun _ => 7), .msg .restore]

theorem checkpointedKernel_orderly :
    AllStepsM (OnMsg (OrderlyAt shmSizeDefault)) (gpuStep shmSizeDefault) freshGpu checkpointedKernel := by
  refine ⟨onMsg_app _ _ _, ?_⟩
  rintro s hs
  obtain rfl : oneBlock = s := Except.ok.inj hs
  refine ⟨onMsg_msg oneBlock_allowed, ?_⟩
  rintro s hs
  obtain ⟨v, hckpt, rfl⟩ := crSignalHandler_ok (m := .ckpt) hs
  have hdumped := VGpu.dumped_of_ckpt hckpt
  refine ⟨onMsg_app _ _ _, ?_⟩
  rintro s hs
  obtain rfl : ({ oneBlock with toVGpu := v } : HookedGpu).appStep (.kernel fun _ => 7) = s := Except.ok.inj hs
  refine ⟨onMsg_msg fun f hf => ?_, fun _ _ => trivial⟩
  -- the file is the block of the table
  have hf' : f ∈ v.fs.fileList := hf
  rw [hdumped.fileList] at hf'
  have hb := mem_of_mem_layout hf'
  obtain ⟨n, hn, -⟩ := VGpu.mem_ckptBlocks.1 hb
  refine ⟨?_, hdumped.unhandled f.ptr (List.mem_map.2 ⟨_, hb, rfl⟩)⟩
  show (v.allocatedMemory[f.ptr]?).isSome
  rw [hdumped.allocatedMemory]
  exact Option.isSome_iff_exists.2 ⟨n, hn⟩

theorem transparent_checkpointedKernel : ∃ s a, checkpointedKernel.foldlM (gpuStep shmSizeDefault) freshGpu = .ok s ∧
    Trace PlainGpu.Step .empty
      ((labels (gpuStep shmSizeDefault) gpuLabel freshGpu checkpointedKernel).filterMap GpuLabel.hideMsg) a ∧
    s.ShowsApp a :=
  transparent_run shmSizeDefault freshGpu freshGpu_fresh (fun _ => rfl) _ checkpointedKernel_orderly

end HookedGpu

end GpuCr
