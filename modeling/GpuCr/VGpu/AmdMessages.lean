import GpuCr.VGpu.Amd
import GpuCr.VGpu.Repeat
import GpuCr.VGpu.View

/-!
# Checkpoints over the AMD back end

The entry points of `src/vGPU.cpp` with `amd::releasePhysicalMemory` and `amd::remapPhysicalMemory`. The copy
loops are those of the NVIDIA build, the tables are not: the sizes are rounded, and a parked block keeps its
handle, so that only the driver knows which blocks are parked. What relies on this differs too. A block can
not be freed while it is parked (`AmdGpu.not_wellUsed`), and a file whose block is still there can not be
restored. With this in place the library is the same device with checkpoints (`hip_inStep`), and where the
messages are orderly the application can not tell it from one without (`hip_transparent`).

The calls of the application have the names of the NVIDIA hooks. A failed call of a copy loop ends the process
here, while the source goes on after the ones whose result it does not look at; no driver below fails one.
-/

namespace GpuCr

open Lib Lib.AsyncStream Lib.Run Lib.Simulation Std

namespace AmdGpu

def withVGpu (s : AmdGpu) (v : VGpu) : AmdGpu := { s with toHookedGpu := { s.toHookedGpu with toVGpu := v } }

def runCopyLoop (s : AmdGpu) (cmds : List PipeCmd) : Except Exit AmdGpu := (s.toVGpu.runCopyLoop cmds).map s.withVGpu

def releaseAll (ptrs : List Nat) (s : AmdGpu) : Except Exit AmdGpu :=
  ptrs.foldlM (fun s ptr =>
    match s.releasePhysicalMemory ptr with
    | (false, _) => .error (.release ptr)
    | (true, s) => .ok s) s

def remapAll (files : List SharedMemFile) (s : AmdGpu) : Except Exit AmdGpu :=
  files.foldlM (fun s f =>
    match s.remapPhysicalMemory f.ptr f.size with
    | (false, _) => .error (.remap f.ptr)
    | (true, s) => .ok s) s

def ckpt (shmSize : Nat) (s : AmdGpu) : Except Exit AmdGpu := do
  let (cmds, fs) ← dumpCmds wholeChunk shmSize (VGpu.ckptBlocks s.allocatedMemory) s.fs
  let s ← (s.withVGpu { s.toVGpu with fs := fs }).runCopyLoop cmds
  releaseAll (s.allocatedMemory.toList.map Prod.fst) s

def ckptSelective (shmSize : Nat) (req : SelectiveCrRequest) (s : AmdGpu) : Except Exit AmdGpu := do
  let blocks ← VGpu.selectiveBlocks s.allocatedMemory req
  let (cmds, fs) ← dumpCmds granuleChunk shmSize blocks s.fs
  let s ← (s.withVGpu { s.toVGpu with fs := fs }).runCopyLoop cmds
  releaseAll (s.fs.fileList.map SharedMemFile.ptr) s

def restorePtrAndContent (s : AmdGpu) : Except Exit AmdGpu := do
  let s ← remapAll s.fs.fileList s
  s.runCopyLoop (restoreCmds wholeChunk s.fs)

def restorePtrAndContentSelective (s : AmdGpu) : Except Exit AmdGpu := do
  let s ← remapAll s.fs.fileList s
  s.runCopyLoop (restoreCmds granuleChunk s.fs)

def crSignalHandler (shmSize : Nat) (s : AmdGpu) : GpuMsg → Except Exit AmdGpu
  | .ckpt => s.ckpt shmSize
  | .restore => s.restorePtrAndContent
  | .selectiveCkpt req => s.ckptSelective shmSize req
  | .selectiveRestore => s.restorePtrAndContentSelective

def appStep (s : AmdGpu) : AppCall → AmdGpu
  | .cudaMalloc size => (s.hipMalloc size).2
  | .cudaFree ptr => s.hipFree ptr
  | .kernel mem => { s with drv := { s.drv with mem := mem } }

def gpuStep (shmSize : Nat) (s : AmdGpu) : GpuEvent → Except Exit AmdGpu
  | .app call => .ok (s.appStep call)
  | .msg m => s.crSignalHandler shmSize m

/-! ### What a run keeps -/

/-- The sizes in the table are those of the physical blocks, every mapping can be copied from and to, and the
header of the dump is that of a layout. -/
structure Ready (s : AmdGpu) : Prop extends Kept s where
  size : ∀ p n : Nat, s.allocatedMemory[p]? = some n → 0 < n ∧ roundUp2MB n = n
  access : ∀ m ∈ s.drv.maps, m.access = true
  header : ∃ offset blocks, s.fs.fileList = layout offset blocks ∧ s.fs.currentOffset = offset + totalSize blocks
  nonnull : s.allocatedMemory[0]? = none

/-- The block is mapped. -/
def Present (s : AmdGpu) (p : Nat) : Prop := ∃ m ∈ s.drv.maps, m.va = p

/-- A block without a mapping is parked, whatever the table of handles says. -/
def view (s : AmdGpu) : GpuView where
  blocks p := s.allocatedMemory[p]?
  parked := {p | s.allocatedMemory[p]?.isSome ∧ ¬ s.Present p}
  mem := s.drv.mem
  files := s.fs.fileList
  dump := s.dump

section Ready
variable {s : AmdGpu}

theorem Ready.tableApart (hs : s.Ready) : VGpu.TableApart s.allocatedMemory := by
  intro p q n m hp hq hne
  obtain ⟨extent, hn, hmem⟩ := hs.range p n hp
  obtain ⟨extent', hm, hmem'⟩ := hs.range q m hq
  have hapart : p + extent ≤ q ∨ q + extent' ≤ p :=
    hs.apart.forall hmem hmem' fun heq => hne (congrArg Prod.fst heq)
  have := (hs.size p n hp).2
  have := (hs.size q m hq).2
  omega

theorem Ready.apart_view (hs : s.Ready) : PlainGpu.Apart s.view.blocks := by
  intro p q n m hp hq hne
  have := hs.tableApart p q n m hp hq hne
  have := (hs.size p n hp).2
  have := (hs.size q m hq).2
  omega

theorem Ready.mapping (hs : s.Ready) {p n : Nat} (hp : s.allocatedMemory[p]? = some n) (hat : s.Present p) :
    ∃ k, ⟨p, n, k, true⟩ ∈ s.drv.maps := by
  obtain ⟨m, hm, rfl⟩ := hat
  obtain rfl : m.size = n := Option.some.inj ((hs.maps m hm).1.symm.trans hp)
  have hacc := hs.access m hm
  exact ⟨m.handle, hacc ▸ hm⟩

theorem Ready.mappedAt (hs : s.Ready) {p n : Nat} (hp : s.allocatedMemory[p]? = some n) (hat : s.Present p) :
    s.drv.mappedAt p n = true := by
  obtain ⟨k, hm⟩ := hs.mapping hp hat
  exact Driver.mappedAt_of_mem hm

theorem Ready.accessible (hs : s.Ready) {p n a len : Nat} (hp : s.allocatedMemory[p]? = some n) (hat : s.Present p)
    (h1 : p ≤ a) (h2 : a + len ≤ p + n) : s.drv.accessible a len = true := by
  obtain ⟨k, hm⟩ := hs.mapping hp hat
  exact VGpu.accessible_of_mem hm rfl h1 h2

end Ready

/-! ### The calls of the driver -/

section Driver
variable {s : AmdGpu} {va size p n k : Nat}

theorem hipMemMap_mem {a : Nat} (ha : a < va ∨ va + size ≤ a) : (s.hipMemMap va size k).2.drv.mem a = s.drv.mem a := by
  unfold hipMemMap
  split_ifs
  · exact (Driver.cuMemMap_frame s.drv va size k).1 a ha
  · rfl

theorem createAndMap_mem {a : Nat} (ha : a < va ∨ va + size ≤ a) : (s.createAndMap va size).2.drv.mem a = s.drv.mem a := by
  have hmap : ∀ (t : AmdGpu) k, (t.hipMemMap va size k).2.drv.mem a = t.drv.mem a := fun t k => hipMemMap_mem ha
  have haccess : ∀ t : AmdGpu, (t.hipMemSetAccess va size).2.drv.mem = t.drv.mem := fun t =>
    (Driver.cuMemSetAccess_frame t.drv va size).1
  have hunmap : ∀ t : AmdGpu, (t.hipMemUnmap va size).2.drv.mem = t.drv.mem := fun t =>
    (Driver.cuMemUnmap_frame t.drv va size).1
  have hrelease : ∀ (t : AmdGpu) k, (t.hipMemRelease k).2.drv.mem = t.drv.mem := fun t k =>
    (Driver.cuMemRelease_frame t.drv k).1
  have hcreate : (s.hipMemCreate size).2.drv.mem = s.drv.mem := by
    have h := (s.drv.cuMemCreate_frame size).1
    unfold hipMemCreate
    generalize s.drv.cuMemCreate size = r at h ⊢
    obtain ⟨_ | k, d⟩ := r <;> exact h
  unfold createAndMap
  generalize s.hipMemCreate size = created at hcreate ⊢
  obtain ⟨_ | k, s₁⟩ := created
  · exact congrFun hcreate a
  · dsimp only at hcreate ⊢
    specialize hmap s₁ k
    rw [hcreate] at hmap
    generalize s₁.hipMemMap va size k = mapped at hmap ⊢
    obtain ⟨_ | _, s₂⟩ := mapped
    · exact (congrFun (hrelease s₂ k) a).trans hmap
    · dsimp only at hmap ⊢
      specialize haccess s₂
      generalize s₂.hipMemSetAccess va size = granted at haccess ⊢
      obtain ⟨_ | _, s₃⟩ := granted
      · dsimp only at haccess ⊢
        rw [hrelease, hunmap, haccess]
        exact hmap
      · exact (congrFun haccess a).trans hmap

theorem unmap_release_frame (h : (s.hipMemUnmap p n).1 = true) :
    (∀ m, m ∈ ((s.hipMemUnmap p n).2.hipMemRelease k).2.drv.maps ↔ m ∈ s.drv.maps ∧ m.va ≠ p) ∧
      ((s.hipMemUnmap p n).2.hipMemRelease k).2.drv.mem = s.drv.mem := by
  have hunmap : (s.hipMemUnmap p n).2.drv.maps = s.drv.maps.filter fun m => m.va != p := by
    rcases s.drv.cuMemUnmap_maps p n with ⟨hfail, -⟩ | ⟨-, hmaps⟩
    · exact absurd (hfail.symm.trans h) (by simp)
    · exact hmaps
  refine ⟨fun m => ?_, ?_⟩
  · show m ∈ ((s.hipMemUnmap p n).2.drv.cuMemRelease k).2.maps ↔ _
    rw [Driver.cuMemRelease_maps, hunmap]
    simp
  · exact ((s.hipMemUnmap p n).2.drv.cuMemRelease_frame k).1.trans (s.drv.cuMemUnmap_frame p n).1

end Driver

/-! ### The loops -/

/-- Nothing is left at `ptrs`, and the contents are still the old ones. -/
structure Released (ptrs : List Nat) (s s' : AmdGpu) : Prop where
  ready : s'.Ready
  table : s'.allocatedMemory = s.allocatedMemory
  fs : s'.fs = s.fs
  dump : s'.dump = s.dump
  mem : s'.drv.mem = s.drv.mem
  maps : ∀ m, m ∈ s'.drv.maps ↔ m ∈ s.drv.maps ∧ m.va ∉ ptrs

/-- Every file has new physical memory. -/
structure RemappedAll (files : List SharedMemFile) (s s' : AmdGpu) : Prop where
  ready : s'.Ready
  table : ∀ q : Nat, s'.allocatedMemory[q]? = s.allocatedMemory[q]?
  fs : s'.fs = s.fs
  dump : s'.dump = s.dump
  mem : ∀ a, (∀ f ∈ files, a < f.ptr ∨ f.ptr + f.size ≤ a) → s'.drv.mem a = s.drv.mem a
  present : ∀ p, s'.Present p ↔ s.Present p ∨ p ∈ files.map SharedMemFile.ptr

section Loops
variable {s : AmdGpu}

theorem Ready.releasePhysicalMemory (hs : s.Ready) {p : Nat} (hknown : s.allocatedMemory[p]?.isSome)
    (hat : s.Present p) : ∃ s', s.releasePhysicalMemory p = (true, s') ∧ Released [p] s s' := by
  obtain ⟨n, hn⟩ := Option.isSome_iff_exists.1 hknown
  obtain ⟨k, access, hm, -, hhandle, -⟩ := hs.toKept.mapping (hs.mappedAt hn hat)
  obtain ⟨d, hunmap, hrelease, -, hkept⟩ := hs.toKept.dropMapping hm
  obtain ⟨hmaps, hmem⟩ := unmap_release_frame (k := k) hunmap
  have hok : ((s.hipMemUnmap p n).2.hipMemRelease k).1 = true := by
    obtain ⟨d₁, hcall₁, hd₁⟩ := Driver.cuMemUnmap_ok (hs.reliable _) (Driver.mappedAt_of_mem hm)
    obtain ⟨d₂, hcall₂, -⟩ := Driver.cuMemRelease_ok (d := d₁) (by rw [hd₁.env]; exact hs.reliable _)
      ((hd₁.live k).2 ((hs.live k).2 ⟨_, hm, rfl⟩))
    unfold hipMemRelease hipMemUnmap
    show ((s.drv.cuMemUnmap p n).2.cuMemRelease k).1 = true
    rw [hcall₁, hcall₂]
  rw [hrelease] at hmaps hmem
  refine ⟨_, ?_, ⟨hkept, hs.size, fun m hm => hs.access m ((hmaps m).1 hm).1, hs.header, hs.nonnull⟩,
    rfl, rfl, rfl, hmem, ?_⟩
  · unfold AmdGpu.releasePhysicalMemory
    rw [hn]
    dsimp only
    rw [hhandle]
    dsimp only
    generalize s.hipMemUnmap p n = r at hunmap hrelease hok
    obtain ⟨r₁, s₁⟩ := r
    obtain rfl := hunmap
    exact Prod.ext hok hrelease
  · intro m
    rw [hmaps, List.mem_singleton]

theorem Ready.releaseAll {ptrs : List Nat} (hnodup : ptrs.Nodup) (hs : s.Ready)
    (hall : ∀ p ∈ ptrs, s.allocatedMemory[p]?.isSome ∧ s.Present p) :
    ∃ s', releaseAll ptrs s = .ok s' ∧ Released ptrs s s' := by
  induction ptrs generalizing s with
  | nil => exact ⟨s, rfl, hs, rfl, rfl, rfl, rfl, by simp⟩
  | cons p ptrs ih =>
    rw [List.nodup_cons] at hnodup
    obtain ⟨hp, hrest⟩ := List.forall_mem_cons.1 hall
    obtain ⟨s₁, hfirst, h₁⟩ := hs.releasePhysicalMemory hp.1 hp.2
    -- the other blocks are still mapped
    have hrest₁ : ∀ q ∈ ptrs, s₁.allocatedMemory[q]?.isSome ∧ s₁.Present q := by
      intro q hq
      obtain ⟨hknown, m, hm, rfl⟩ := hrest q hq
      refine ⟨h₁.table ▸ hknown, m, (h₁.maps m).2 ⟨hm, ?_⟩, rfl⟩
      rw [List.mem_singleton]
      rintro rfl
      exact hnodup.1 hq
    obtain ⟨s', hok, h₂⟩ := ih hnodup.2 h₁.ready hrest₁
    refine ⟨s', ?_, h₂.ready, h₂.table.trans h₁.table, h₂.fs.trans h₁.fs, h₂.dump.trans h₁.dump, h₂.mem.trans h₁.mem, ?_⟩
    · unfold AmdGpu.releaseAll at hok ⊢
      rw [List.foldlM_cons, hfirst]
      exact hok
    · intro m
      rw [h₂.maps, h₁.maps, List.mem_singleton, List.mem_cons, not_or, and_assoc]

theorem Ready.remapPhysicalMemory (hs : s.Ready) {f : SharedMemFile} (hn : s.allocatedMemory[f.ptr]? = some f.size)
    (hno : ¬ s.Present f.ptr) :
    ∃ s', s.remapPhysicalMemory f.ptr f.size = (true, s') ∧ RemappedAll [f] s s' := by
  obtain ⟨extent, hle, hrange⟩ := hs.range f.ptr f.size hn
  have hno : ∀ m ∈ s.drv.maps, m.va ≠ f.ptr := fun m hm heq => hno ⟨m, hm, heq⟩
  have hin : s.inReservation f.ptr f.size = true := List.any_eq_true.2 ⟨_, hrange, by simpa using hle⟩
  obtain ⟨k, d, hcreate, henv, hdead, hmaps, hlive⟩ :=
    createAndMap_ok hs.reliable (hs.size _ _ hn).1 hin (hs.toKept.free hrange hle hno)
  have hkept := hs.toKept.track hrange hle hno hdead henv hmaps hlive
  have hmem : ∀ a, a < f.ptr ∨ f.ptr + f.size ≤ a →
      (s.createAndMap f.ptr f.size).2.drv.mem a = s.drv.mem a := fun _ => createAndMap_mem
  rw [hcreate] at hmem
  have htable : ∀ q : Nat, (s.allocatedMemory.insert f.ptr f.size)[q]? = s.allocatedMemory[q]? := by
    intro q
    rw [getElem?_insert_key]
    split_ifs with hq
    · rw [hq, hn]
    · rfl
  refine ⟨_, by rw [AmdGpu.remapPhysicalMemory, hcreate], ⟨hkept, fun q n hq => ?_, fun m hm => ?_, hs.header,
    (htable 0).trans hs.nonnull⟩, htable, rfl, rfl, fun a ha => hmem a (ha f (List.mem_singleton_self f)), fun p => ?_⟩
  · exact hs.size q n ((htable q).symm.trans hq)
  · rcases (hmaps m).1 hm with rfl | hm
    · rfl
    · exact hs.access m hm
  · constructor
    · rintro ⟨m, hm, rfl⟩
      rcases (hmaps m).1 hm with rfl | hm
      · exact Or.inr (List.mem_singleton_self _)
      · exact Or.inl ⟨m, hm, rfl⟩
    · rintro (⟨m, hm, rfl⟩ | hp)
      · exact ⟨m, (hmaps m).2 (Or.inr hm), rfl⟩
      · obtain rfl := List.mem_singleton.1 hp
        exact ⟨_, (hmaps _).2 (Or.inl rfl), rfl⟩

theorem Ready.remapAll {files : List SharedMemFile} (hnodup : (files.map SharedMemFile.ptr).Nodup) (hs : s.Ready)
    (hall : ∀ f ∈ files, s.allocatedMemory[f.ptr]? = some f.size ∧ ¬ s.Present f.ptr) :
    ∃ s', remapAll files s = .ok s' ∧ RemappedAll files s s' := by
  induction files generalizing s with
  | nil => exact ⟨s, rfl, hs, fun _ => rfl, rfl, rfl, fun _ _ => rfl, by simp⟩
  | cons f files ih =>
    rw [List.map_cons, List.nodup_cons] at hnodup
    obtain ⟨hf, hrest⟩ := List.forall_mem_cons.1 hall
    obtain ⟨s₁, hfirst, h₁⟩ := hs.remapPhysicalMemory hf.1 hf.2
    have hrest₁ : ∀ g ∈ files, s₁.allocatedMemory[g.ptr]? = some g.size ∧ ¬ s₁.Present g.ptr := by
      intro g hg
      refine ⟨(h₁.table g.ptr).trans (hrest g hg).1, fun hat => ?_⟩
      rcases (h₁.present g.ptr).1 hat with hat | hat
      · exact (hrest g hg).2 hat
      · have heq : g.ptr = f.ptr := List.mem_singleton.1 hat
        exact hnodup.1 (heq ▸ List.mem_map_of_mem hg)
    obtain ⟨s', hok, h₂⟩ := ih hnodup.2 h₁.ready hrest₁
    refine ⟨s', ?_, h₂.ready, fun q => (h₂.table q).trans (h₁.table q), h₂.fs.trans h₁.fs, h₂.dump.trans h₁.dump, ?_, ?_⟩
    · unfold AmdGpu.remapAll at hok ⊢
      rw [List.foldlM_cons, hfirst]
      exact hok
    · intro a ha
      rw [h₂.mem a fun g hg => ha g (List.mem_cons_of_mem _ hg)]
      exact h₁.mem a (by simpa using ha f (List.mem_cons_self ..))
    · intro p
      rw [h₂.present, h₁.present, or_assoc]
      simp

end Loops

/-! ### Dumps and restores -/

section Dumps
variable {s : AmdGpu}

theorem Ready.withVGpu (hs : s.Ready) {v : VGpu} (htable : v.allocatedMemory = s.allocatedMemory)
    (hhandles : v.globalHandleMap = s.globalHandleMap) (henv : v.drv.env = s.drv.env) (hmaps : v.drv.maps = s.drv.maps)
    (hlive : v.drv.live = s.drv.live)
    (hheader : ∃ offset blocks, v.fs.fileList = layout offset blocks ∧ v.fs.currentOffset = offset + totalSize blocks) :
    (s.withVGpu v).Ready := by
  have hisLive : v.drv.isLive = s.drv.isLive := by
    funext k
    simp only [Driver.isLive, hlive]
  have hkept : (s.withVGpu v).Kept := by
    constructor
    · exact henv ▸ hs.reliable
    · exact htable ▸ hs.range
    · exact htable ▸ hhandles ▸ hs.handle
    · exact hs.apart
    · exact hmaps ▸ htable ▸ hhandles ▸ hs.maps
    · exact hmaps ▸ hisLive ▸ hs.live
    · exact hmaps ▸ hs.distinct
    · exact hs.valid
    · exact hisLive ▸ hs.released
  exact ⟨hkept, htable ▸ hs.size, hmaps ▸ hs.access, hheader, htable ▸ hs.nonnull⟩

theorem Ready.dump (hs : s.Ready) (rule : ChunkRule) {shmSize : Nat} {blocks : List (Nat × Nat)}
    (hnodup : (blocks.map Prod.fst).Nodup)
    (hblocks : ∀ b ∈ blocks, s.allocatedMemory[b.1]? = some b.2 ∧ s.Present b.1)
    (hnum : blocks.length < maxFileNum) (hsize : dumpHeaderSize + totalSize blocks ≤ shmSize) :
    ∃ cmds fs s₁ s', dumpCmds rule shmSize blocks s.fs = .ok (cmds, fs) ∧
      (s.withVGpu { s.toVGpu with fs := fs }).runCopyLoop cmds = .ok s₁ ∧ s₁.allocatedMemory = s.allocatedMemory ∧
      s₁.fs.fileList.map SharedMemFile.ptr = blocks.map Prod.fst ∧ AmdGpu.releaseAll (blocks.map Prod.fst) s₁ = .ok s' ∧
      s'.Ready ∧ s.view.Saved s'.view ∧ s'.view.saved = {p | p ∈ blocks.map Prod.fst} := by
  obtain ⟨cmds, fs, hcmds⟩ := dumpCmds_ok rule s.fs hsize hnum
  obtain ⟨hfiles, -, hoffset⟩ := dumpCmds_inv hcmds
  obtain ⟨hdev, himage⟩ := dumpCmds_image hcmds s.pipeMem
  have hcopies : ∀ r ∈ devRanges cmds, s.drv.accessible r.1 r.2 = true := by
    intro r hr
    obtain ⟨b, hb, h1, h2⟩ := dumpCmds_copies hcmds hr
    exact hs.accessible (hblocks b hb).1 (hblocks b hb).2 h1 h2
  have hloop := VGpu.runCopyLoop_ok (s := { s.toVGpu with fs := fs }) hs.reliable hcopies (dumpCmds_asserts hcmds)
  generalize hv : ({ s.toVGpu with
      fs := fs
      drv := { s.drv with clock := s.drv.clock + VGpu.cudaCalls cmds, mem := (runPipe cmds s.pipeMem).dev }
      staging := (runPipe cmds s.pipeMem).staging
      dump := (runPipe cmds s.pipeMem).dump } : VGpu) = v
  have hs₁ : (s.withVGpu v).Ready := by
    subst hv
    exact hs.withVGpu rfl rfl rfl rfl rfl ⟨_, blocks, hfiles, hoffset⟩
  have hlist : (s.withVGpu v).fs.fileList.map SharedMemFile.ptr = blocks.map Prod.fst := by
    subst hv
    exact (congrArg _ hfiles).trans (layout_ptrs _ _)
  have htable : (s.withVGpu v).allocatedMemory = s.allocatedMemory := by
    subst hv
    rfl
  have hmaps : (s.withVGpu v).drv.maps = s.drv.maps := by
    subst hv
    rfl
  obtain ⟨s', hrelease, hdone⟩ := hs₁.releaseAll hnodup fun p hp => by
    obtain ⟨b, hb, rfl⟩ := List.mem_map.1 hp
    obtain ⟨hn, m, hm, hva⟩ := hblocks b hb
    exact ⟨by simp [htable, hn], m, hmaps ▸ hm, hva⟩
  have hfile : ∀ f ∈ s'.fs.fileList, (f.ptr, f.size) ∈ blocks := by
    intro f hf
    rw [hdone.fs] at hf
    subst hv
    have hf : f ∈ fs.fileList := hf
    rw [hfiles] at hf
    exact mem_of_mem_layout hf
  have hsaved : s'.view.saved = {p | p ∈ blocks.map Prod.fst} := by
    rw [← hlist, ← hdone.fs]
    rfl
  refine ⟨cmds, fs, s.withVGpu v, s', hcmds, ?_, htable, hlist, hrelease, hdone.ready, ⟨?_, ?_, ?_, ?_, ?_, ?_, ?_⟩, hsaved⟩
  · show (VGpu.runCopyLoop { s.toVGpu with fs := fs } cmds).map _ = _
    rw [hloop, ← hv]
    rfl
  · unfold view
    simp only [hdone.table, htable]
  · refine hdone.mem.trans ?_
    subst hv
    exact hdev
  · rw [hsaved]
    ext p
    show s'.allocatedMemory[p]?.isSome ∧ ¬ s'.Present p ↔
      (s.allocatedMemory[p]?.isSome ∧ ¬ s.Present p) ∨ p ∈ blocks.map Prod.fst
    have hpresent : s'.Present p ↔ s.Present p ∧ p ∉ blocks.map Prod.fst := by
      constructor
      · rintro ⟨m, hm, rfl⟩
        obtain ⟨hm, hout⟩ := (hdone.maps m).1 hm
        exact ⟨⟨m, hmaps ▸ hm, rfl⟩, hout⟩
      · rintro ⟨⟨m, hm, rfl⟩, hout⟩
        exact ⟨m, (hdone.maps m).2 ⟨hmaps ▸ hm, hout⟩, rfl⟩
    rw [hdone.table, htable, hpresent]
    by_cases hp : p ∈ blocks.map Prod.fst
    · obtain ⟨b, hb, rfl⟩ := List.mem_map.1 hp
      simp [hp, (hblocks b hb).1]
    · rw [or_iff_left hp, and_iff_left hp]
  · exact fun f hf hin => hin.2 (hblocks _ (hfile f hf)).2
  · show (s'.fs.fileList.map SharedMemFile.ptr).Nodup
    rw [hdone.fs, hlist]
    exact hnodup
  · exact fun f hf => ⟨f.size, (hblocks _ (hfile f hf)).1, le_rfl, rfl⟩
  · show ∀ f ∈ s'.fs.fileList, ∀ i < f.size, s'.dump (f.startOffset + i) = s.drv.mem (f.ptr + i)
    rw [hdone.fs, hdone.dump]
    subst hv
    exact himage

theorem Ready.restore (hs : s.Ready) (rule : ChunkRule) (hnodup : (s.fs.fileList.map SharedMemFile.ptr).Nodup)
    (hall : ∀ f ∈ s.fs.fileList, s.allocatedMemory[f.ptr]? = some f.size ∧ ¬ s.Present f.ptr) :
    ∃ s₁ s', AmdGpu.remapAll s.fs.fileList s = .ok s₁ ∧ s₁.runCopyLoop (restoreCmds rule s₁.fs) = .ok s' ∧
      s'.Ready ∧ s.view.Restored s'.view := by
  obtain ⟨s₁, hremap, h₁⟩ := hs.remapAll hnodup hall
  obtain ⟨offset, blocks, hlist, hoffset⟩ := h₁.ready.header
  have hknown : ∀ f ∈ s₁.fs.fileList, s₁.allocatedMemory[f.ptr]? = some f.size ∧ s₁.Present f.ptr := by
    intro f hf
    rw [h₁.fs] at hf
    exact ⟨(h₁.table _).trans (hall f hf).1, (h₁.present _).2 (Or.inr (List.mem_map_of_mem hf))⟩
  have hcopies : ∀ r ∈ devRanges (restoreCmds rule s₁.fs), s₁.drv.accessible r.1 r.2 = true := by
    intro r hr
    obtain ⟨f, hf, h1, h2⟩ := restoreCmds_copies rule s₁.fs hr
    exact h₁.ready.accessible (hknown f hf).1 (hknown f hf).2 h1 h2
  have hloop := VGpu.runCopyLoop_ok (s := s₁.toVGpu) h₁.ready.reliable hcopies (restoreCmds_asserts rule hlist)
  obtain ⟨hdev, hdump⟩ := restoreCmds_spec rule hlist hoffset s₁.pipeMem
  -- the files are different blocks of the table
  have hapart : s.fs.fileList.Pairwise fun f g => f.ptr + f.size ≤ g.ptr ∨ g.ptr + g.size ≤ f.ptr :=
    (List.pairwise_map.1 hnodup).imp_of_mem fun {f g} hf hg hne =>
      hs.apart_view f.ptr g.ptr f.size g.size (hall f hf).1 (hall g hg).1 hne
  have hdev₁ : (runPipe (restoreCmds rule s₁.fs) s₁.pipeMem).dev = restoredDev s.dump s.fs.fileList s₁.drv.mem := by
    rw [hdev, h₁.fs]
    show restoredDev s₁.dump _ _ = _
    rw [h₁.dump]
    rfl
  refine ⟨s₁, _, hremap, by rw [runCopyLoop, hloop]; rfl, ?_, ⟨fun f hf => ⟨f.size, (hall f hf).1⟩, ?_, ?_, ?_, ?_, ?_, ?_⟩⟩
  · exact h₁.ready.withVGpu rfl rfl rfl rfl rfl ⟨offset, blocks, hlist, hoffset⟩
  · funext p
    exact h₁.table p
  · ext p
    show s₁.allocatedMemory[p]?.isSome ∧ ¬ s₁.Present p ↔
      (s.allocatedMemory[p]?.isSome ∧ ¬ s.Present p) ∧ p ∉ s.fs.fileList.map SharedMemFile.ptr
    rw [h₁.table, h₁.present, not_or, and_assoc]
  · show s₁.fs.fileList = s.fs.fileList
    rw [h₁.fs]
  · exact hdump.trans h₁.dump
  · intro f hf i hi
    show (runPipe (restoreCmds rule s₁.fs) s₁.pipeMem).dev (f.ptr + i) = _
    rw [hdev₁]
    exact restoredDev_in _ _ _ hapart hf hi
  · intro p n hn hout i hi
    show (runPipe (restoreCmds rule s₁.fs) s₁.pipeMem).dev (p + i) = s.drv.mem (p + i)
    -- the files are other blocks
    have hother : ∀ f ∈ s.fs.fileList, p + i < f.ptr ∨ f.ptr + f.size ≤ p + i := by
      intro f hf
      have hne : p ≠ f.ptr := by
        rintro rfl
        exact hout (List.mem_map_of_mem hf)
      have := hs.apart_view p f.ptr n f.size hn (hall f hf).1 hne
      omega
    rw [hdev₁, restoredDev_out _ _ _ hother]
    exact h₁.mem _ hother

end Dumps

/-! ### The hooks -/

/-- A new block, mapped and in the tables. -/
structure Allocated (va size : Nat) (s s' : AmdGpu) : Prop where
  ready : s'.Ready
  nonnull : va ≠ 0
  fresh : ∀ r ∈ s.reserved, HookedGpu.rangeApart (va, size) r
  table : ∀ q : Nat, s'.allocatedMemory[q]? = if q = va then some size else s.allocatedMemory[q]?
  fs : s'.fs = s.fs
  dump : s'.dump = s.dump
  mem : ∀ a, a < va ∨ va + size ≤ a → s'.drv.mem a = s.drv.mem a
  present : ∀ p, s'.Present p ↔ p = va ∨ s.Present p

/-- A block less, if there was one at all. -/
structure Freed (ptr : Nat) (s s' : AmdGpu) : Prop where
  ready : s'.Ready
  table : ∀ q : Nat, s'.allocatedMemory[q]? = if q = ptr then none else s.allocatedMemory[q]?
  fs : s'.fs = s.fs
  dump : s'.dump = s.dump
  mem : s'.drv.mem = s.drv.mem
  present : ∀ p, s'.Present p ↔ s.Present p ∧ p ≠ ptr

section Hooks
variable {s : AmdGpu}

theorem Ready.absent (hs : s.Ready) {p : Nat} (hp : s.allocatedMemory[p]? = none) : ¬ s.Present p := by
  rintro ⟨m, hm, rfl⟩
  simp [(hs.maps m hm).1] at hp

theorem Ready.allocate (hs : s.Ready) {size : Nat} (hpos : 0 < size) (hround : roundUp2MB size = size) :
    ∃ va s', s.allocate size = (some va, s') ∧ Allocated va size s s' := by
  have hfresh := HookedGpu.nextVa_apart s.toHookedGpu size
  have hnonnull := HookedGpu.nextVa_ne_zero s.toHookedGpu size
  unfold AmdGpu.allocate hipMemAddressReserve HookedGpu.cuMemAddressReserve
  generalize s.nextVa size = va at hfresh hnonnull ⊢
  rw [if_pos ⟨hpos, hs.reliable _⟩]
  dsimp only
  have hno : ∀ m ∈ s.drv.maps, m.va ≠ va := by
    rintro m hm rfl
    obtain ⟨extent, hle, hmem⟩ := hs.range m.va m.size (hs.maps m hm).1
    have hover : m.va + size ≤ m.va ∨ m.va + extent ≤ m.va := hfresh _ hmem
    have := s.drv.maps_pos m hm
    omega
  have hres := hs.toKept.reserve hfresh
  have hrange : (va, size) ∈ (va, size) :: s.reserved := List.mem_cons_self ..
  have hin : (AmdGpu.mk { s.tick with reserved := (va, size) :: s.reserved } s.calls).inReservation va size = true :=
    List.any_eq_true.2 ⟨_, hrange, by simp⟩
  obtain ⟨k, d, hcreate, henv, hdead, hmaps, hlive⟩ :=
    createAndMap_ok hres.reliable hpos hin (hres.free hrange le_rfl hno)
  have hmem : ∀ a, a < va ∨ va + size ≤ a →
      ((AmdGpu.mk { s.tick with reserved := (va, size) :: s.reserved } s.calls).createAndMap va size).2.drv.mem a =
        s.drv.mem a := fun _ => createAndMap_mem
  have hkept := hres.track hrange le_rfl hno hdead henv hmaps hlive
  rw [hcreate] at hmem ⊢
  have htable : ∀ q : Nat, (s.allocatedMemory.insert va size)[q]? = if q = va then some size else s.allocatedMemory[q]? :=
    fun q => getElem?_insert_key _ va size q
  refine ⟨va, _, rfl, ⟨hkept, fun p n hp => ?_, fun m hm => ?_, hs.header, ?_⟩, hnonnull, hfresh, htable, rfl, rfl, hmem, fun p => ?_⟩
  · have hp := (htable p).symm.trans hp
    split_ifs at hp
    · obtain rfl := Option.some.inj hp
      exact ⟨hpos, hround⟩
    · exact hs.size p n hp
  · rcases (hmaps m).1 hm with rfl | hm
    · rfl
    · exact hs.access m hm
  · exact ((htable 0).trans (if_neg hnonnull.symm)).trans hs.nonnull
  · constructor
    · rintro ⟨m, hm, rfl⟩
      rcases (hmaps m).1 hm with rfl | hm
      · exact Or.inl rfl
      · exact Or.inr ⟨m, hm, rfl⟩
    · rintro (rfl | ⟨m, hm, rfl⟩)
      · exact ⟨_, (hmaps _).2 (Or.inl rfl), rfl⟩
      · exact ⟨m, (hmaps m).2 (Or.inr hm), rfl⟩

theorem Ready.freed_unknown (hs : s.Ready) {ptr : Nat} (hp : s.allocatedMemory[ptr]? = none) : Freed ptr s s := by
  refine ⟨hs, fun q => ?_, rfl, rfl, rfl, fun q => ?_⟩
  · split_ifs with hq
    · exact hq ▸ hp
    · rfl
  · refine (and_iff_left_of_imp ?_).symm
    rintro hat rfl
    exact hs.absent hp hat

theorem Ready.hipFree (hs : s.Ready) {ptr : Nat} (hat : s.allocatedMemory[ptr]?.isSome → s.Present ptr) :
    Freed ptr s (s.hipFree ptr) := by
  unfold AmdGpu.hipFree
  split_ifs with hnull
  · subst hnull
    exact hs.freed_unknown hs.nonnull
  cases hp : s.allocatedMemory[ptr]? with
  | none => exact hs.freed_unknown hp
  | some n =>
    obtain ⟨k, access, hm, -, hhandle, -⟩ := hs.toKept.mapping (hs.mappedAt hp (hat (by simp [hp])))
    obtain ⟨d, hunmap, hrelease, hno, hkept⟩ := hs.toKept.dropMapping hm
    obtain ⟨hmaps, hmem⟩ := unmap_release_frame (k := k) hunmap
    have hdrop := hkept.dropBlock (n := n) hno
    dsimp only
    rw [hhandle]
    dsimp only
    rw [hrelease] at hmaps hmem ⊢
    generalize ht : ({ s with drv := d, calls := (.memRelease k, true) :: (.memUnmap ptr n, true) :: s.calls } : AmdGpu) = t
      at hmaps hmem hdrop ⊢
    have hvgpu := HookedGpu.cuMemAddressFree_toVGpu t.toHookedGpu ptr n
    have hdrv : (t.cuMemAddressFree ptr n).drv = t.tick.drv := congrArg VGpu.drv hvgpu
    have htable : (t.cuMemAddressFree ptr n).allocatedMemory = t.tick.allocatedMemory := congrArg VGpu.allocatedMemory hvgpu
    have hfs : (t.cuMemAddressFree ptr n).fs = t.tick.fs := congrArg VGpu.fs hvgpu
    have hdump : (t.cuMemAddressFree ptr n).dump = t.tick.dump := congrArg VGpu.dump hvgpu
    have herase : ∀ q : Nat, ((t.cuMemAddressFree ptr n).allocatedMemory.erase ptr)[q]? =
        if q = ptr then none else s.allocatedMemory[q]? := by
      intro q
      rw [htable, getElem?_erase_key]
      subst ht
      rfl
    have hmaps' : ∀ m, m ∈ (t.cuMemAddressFree ptr n).drv.maps ↔ m ∈ s.drv.maps ∧ m.va ≠ ptr := by
      intro m
      rw [hdrv]
      exact hmaps m
    refine ⟨⟨hdrop, fun p m hp => ?_, fun m hm => ?_, ?_, ?_⟩, herase, ?_, ?_, ?_, fun p => ?_⟩
    · have hp := (herase p).symm.trans hp
      split_ifs at hp
      exact hs.size p m hp
    · exact hs.access m ((hmaps' m).1 hm).1
    · show ∃ offset blocks, (t.cuMemAddressFree ptr n).fs.fileList = _ ∧ (t.cuMemAddressFree ptr n).fs.currentOffset = _
      rw [hfs]
      subst ht
      exact hs.header
    · refine (herase 0).trans ?_
      split_ifs
      · rfl
      · exact hs.nonnull
    · subst ht
      exact hfs
    · subst ht
      exact hdump
    · show (t.cuMemAddressFree ptr n).drv.mem = _
      rw [hdrv]
      exact hmem
    · constructor
      · rintro ⟨m, hm, rfl⟩
        obtain ⟨hm, hne⟩ := (hmaps' m).1 hm
        exact ⟨⟨m, hm, rfl⟩, hne⟩
      · rintro ⟨⟨m, hm, rfl⟩, hne⟩
        exact ⟨m, (hmaps' m).2 ⟨hm, hne⟩, rfl⟩

end Hooks

/-! ### The refinement -/

/-- The application is given whole physical blocks. -/
def gpuLabel (s : AmdGpu) : GpuEvent → GpuLabel
  | .app (.cudaMalloc size) => .app (.cudaMalloc (roundUp2MB size) (s.hipMalloc size).1)
  | .app (.cudaFree ptr) => .app (.cudaFree ptr)
  | .app (.kernel mem) => .app (.kernel s.view.usable s.drv.mem mem)
  | .msg m => .msg m

/-- What an event relies on. A block is freed while it is mapped, and its files are restored while it is not. -/
def Allowed (shmSize : Nat) (s : AmdGpu) : GpuEvent → Prop
  | .app (.cudaFree ptr) => s.allocatedMemory[ptr]?.isSome → s.Present ptr
  | .app _ => True
  | .msg .ckpt => (∀ p : Nat, s.allocatedMemory[p]?.isSome → s.Present p) ∧ s.allocatedMemory.size < maxFileNum ∧
      dumpHeaderSize + totalSize (VGpu.ckptBlocks s.allocatedMemory) ≤ shmSize
  | .msg (.selectiveCkpt req) => (∀ b ∈ VGpu.requestedBlocks s.allocatedMemory req, s.Present b.1) ∧
      (VGpu.requestedBlocks s.allocatedMemory req).length < maxFileNum ∧
      dumpHeaderSize + totalSize (VGpu.requestedBlocks s.allocatedMemory req) ≤ shmSize
  | .msg .restore | .msg .selectiveRestore => ∀ f ∈ s.fs.fileList, s.allocatedMemory[f.ptr]?.isSome ∧ ¬ s.Present f.ptr

structure Refines (s : AmdGpu) (g : CkptGpu) : Prop where
  ready : s.Ready
  view : s.view.Matches g

theorem NoBlock.refines {s : AmdGpu} (h : s.NoBlock) (hfiles : s.fs.fileNum = 0) : s.Refines .empty := by
  have hlist : s.fs.fileList = [] := by simp [SharedMemFs.fileList, hfiles]
  refine ⟨⟨h.kept, fun p n hp => ?_, fun m hm => ?_, ⟨s.fs.currentOffset, [], hlist, rfl⟩, ?_⟩,
    GpuView.matches_empty ?_ ?_ hlist⟩
  · simp [h.noBlock.table] at hp
  · simp [h.noBlock.maps] at hm
  · simp [h.noBlock.table]
  · simp [AmdGpu.view, h.noBlock.table]
  · simp [AmdGpu.view, h.noBlock.table]

section Refines
variable {s : AmdGpu} {g : CkptGpu}

theorem refines_of_view {v : GpuView} (hs : s.Ready) (hv : s.view = v) (h : v.Matches g) : s.Refines g := ⟨hs, hv ▸ h⟩

theorem Refines.hipMalloc (h : s.Refines g) (size : Nat) : ∃ g',
    CkptGpu.App g (.cudaMalloc (roundUp2MB size) (s.hipMalloc size).1) g' ∧ (s.hipMalloc size).2.Refines g' := by
  unfold AmdGpu.hipMalloc
  split_ifs with hz
  · subst hz
    obtain ⟨g', happ, hview⟩ := h.view.mallocNothing
    exact ⟨g', happ, h.ready, hview⟩
  have hpos : 0 < roundUp2MB size := HookedGpu.roundUp2MB_pos (Nat.pos_of_ne_zero hz)
  obtain ⟨va, s', heq, hnew⟩ := h.ready.allocate hpos (roundUp2MB_idem size)
  rw [heq]
  have hapart : ∀ q n, s.view.blocks q = some n → 0 < n ∧ (va + roundUp2MB size ≤ q ∨ q + n ≤ va) := by
    intro q n hq
    obtain ⟨extent, hle, hmem⟩ := h.ready.range q n hq
    have hfresh : va + roundUp2MB size ≤ q ∨ q + extent ≤ va := hnew.fresh _ hmem
    exact ⟨(h.ready.size q n hq).1, by omega⟩
  have hnone : s.view.blocks va = none := by
    refine Option.eq_none_iff_forall_ne_some.2 fun n hn => ?_
    have := hapart va n hn
    omega
  have hmem : PlainGpu.AgreeOn s.view.blocks Set.univ s.view.mem s'.drv.mem := by
    intro q n hq _ i hi
    have := hapart q n hq
    exact hnew.mem _ (by omega)
  obtain ⟨g', happ, hview⟩ := h.view.malloc hpos hnew.nonnull hnone (fun q n hq => (hapart q n hq).2) hmem
  refine ⟨g', happ, refines_of_view hnew.ready ?_ hview⟩
  have hnone : s.allocatedMemory[va]? = none := hnone
  unfold AmdGpu.view
  rw [hnew.fs, hnew.dump]
  congr 1
  · ext q : 1
    rw [hnew.table, Function.update_apply]
  · ext q
    simp only [Set.mem_ofPred_eq, hnew.table, hnew.present, not_or]
    by_cases hq : q = va
    · simp [hq, hnone]
    · simp [hq]

theorem Refines.hipFree (h : s.Refines g) {ptr : Nat} (hat : s.allocatedMemory[ptr]?.isSome → s.Present ptr) :
    ∃ g', CkptGpu.App g (.cudaFree ptr) g' ∧ (s.hipFree ptr).Refines g' := by
  have hfreed := h.ready.hipFree hat
  obtain ⟨g', happ, hview⟩ := h.view.free ptr (.refl _ _ _)
  refine ⟨g', happ, refines_of_view hfreed.ready ?_ hview⟩
  unfold AmdGpu.view
  rw [hfreed.fs, hfreed.dump, hfreed.mem]
  congr 1
  · ext q : 1
    rw [hfreed.table, Function.update_apply]
  · ext q
    simp only [Set.mem_ofPred_eq, Set.mem_sdiff, Set.mem_singleton_iff, hfreed.table, hfreed.present]
    by_cases hq : q = ptr
    · simp [hq]
    · simp [hq]

theorem Refines.kernel (h : s.Refines g) (mem : Nat → Byte) : ∃ g',
    CkptGpu.App g (.kernel s.view.usable s.drv.mem mem) g' ∧ (s.appStep (.kernel mem)).Refines g' := by
  obtain ⟨g', happ, hview⟩ := h.view.kernel mem
  exact ⟨g', happ, h.ready.withVGpu (v := { s.toVGpu with drv := { s.drv with mem := mem } }) rfl rfl rfl rfl rfl h.ready.header,
    hview⟩

theorem Refines.saved (h : s.Refines g) {s' : AmdGpu} (hs' : s'.Ready) (hsaved : s.view.Saved s'.view) {ptrs : Set Nat}
    (hptrs : s'.view.saved = ptrs) : s'.Refines (g.save ptrs) ∧ ptrs ∩ g.parked = ∅ := by
  subst hptrs
  refine ⟨⟨hs', h.view.save hsaved⟩, Set.eq_empty_iff_forall_notMem.2 ?_⟩
  rintro p ⟨hin, hp⟩
  obtain ⟨f, hf, rfl⟩ := GpuView.exists_file hin
  exact hsaved.present f hf (h.view.parked ▸ hp)

/-- The files of a restore are as long as their blocks. -/
theorem Refines.files (h : s.Refines g)
    (hall : ∀ f ∈ s.fs.fileList, s.allocatedMemory[f.ptr]?.isSome ∧ ¬ s.Present f.ptr) :
    ∀ f ∈ s.fs.fileList, s.allocatedMemory[f.ptr]? = some f.size ∧ ¬ s.Present f.ptr := by
  intro f hf
  obtain ⟨n, hn, hle, hround⟩ := h.view.parked_file hf (hall f hf)
  have := (h.ready.size f.ptr n hn).2
  have := le_roundUp2MB f.size
  obtain rfl : n = f.size := by omega
  exact ⟨hn, (hall f hf).2⟩

theorem Refines.msg (h : s.Refines g) {shmSize : Nat} {m : GpuMsg} (hm : s.Allowed shmSize (.msg m)) : ∃ s' g',
    s.crSignalHandler shmSize m = .ok s' ∧ CkptGpu.Step g (.msg m) g' ∧ s'.Refines g' := by
  cases m with
  | ckpt =>
    obtain ⟨hpresent, hnum, hsize⟩ := hm
    have hblocks : ∀ b ∈ VGpu.ckptBlocks s.allocatedMemory, s.allocatedMemory[b.1]? = some b.2 ∧ s.Present b.1 := by
      intro b hb
      obtain ⟨n, hn, hround⟩ := VGpu.mem_ckptBlocks.1 hb
      rw [(h.ready.size _ n hn).2] at hround
      exact ⟨hround ▸ hn, hpresent _ (by simp [hn])⟩
    have hnodup : ((VGpu.ckptBlocks s.allocatedMemory).map Prod.fst).Nodup := by
      rw [VGpu.ckptBlocks_ptrs, List.nodup_iff_pairwise_ne, List.pairwise_map]
      exact s.allocatedMemory.distinct_keys_toList.imp fun hne heq => hne (by simp [heq])
    have hlen : (VGpu.ckptBlocks s.allocatedMemory).length < maxFileNum := by
      rw [VGpu.ckptBlocks, List.length_map, ExtTreeMap.length_toList]
      exact hnum
    obtain ⟨cmds, fs, s₁, s', hcmds, hloop, htable, -, hrelease, hs', hsaved, hptrs⟩ :=
      h.ready.dump wholeChunk hnodup hblocks hlen hsize
    obtain ⟨hrefines, -⟩ := h.saved hs' hsaved (hptrs.trans (h.view.allBlocks_eq fun _ => rfl).symm)
    have hparked : g.parked = ∅ := by
      rw [h.view.parked]
      exact Set.eq_empty_iff_forall_notMem.2 fun p hp => hp.2 (hpresent p hp.1)
    refine ⟨s', _, ?_, .ckpt g hparked, hrefines⟩
    show AmdGpu.ckpt shmSize s = _
    unfold AmdGpu.ckpt
    rw [hcmds]
    show (AmdGpu.runCopyLoop _ cmds >>= _) = _
    rw [hloop]
    show AmdGpu.releaseAll (s₁.allocatedMemory.toList.map Prod.fst) s₁ = _
    rw [htable, ← VGpu.ckptBlocks_ptrs]
    exact hrelease
  | selectiveCkpt req =>
    obtain ⟨hpresent, hnum, hsize⟩ := hm
    obtain ⟨cmds, fs, s₁, s', hcmds, hloop, -, hlist, hrelease, hs', hsaved, hptrs⟩ :=
      h.ready.dump granuleChunk (VGpu.nodup_requestedBlocks _ _)
        (fun b hb => ⟨(VGpu.mem_requestedBlocks.1 hb).1, hpresent b hb⟩) hnum hsize
    obtain ⟨hrefines, hdisjoint⟩ := h.saved hs' hsaved (hptrs.trans (h.view.requested_eq (fun _ => rfl) req).symm)
    refine ⟨s', _, ?_, .selectiveCkpt g req hdisjoint, hrefines⟩
    show AmdGpu.ckptSelective shmSize req s = _
    unfold AmdGpu.ckptSelective
    rw [VGpu.selectiveBlocks_eq h.ready.tableApart]
    show (dumpCmds granuleChunk shmSize _ s.fs >>= _) = _
    rw [hcmds]
    show (AmdGpu.runCopyLoop _ cmds >>= _) = _
    rw [hloop]
    show AmdGpu.releaseAll (s₁.fs.fileList.map SharedMemFile.ptr) s₁ = _
    rw [hlist]
    exact hrelease
  | restore =>
    obtain ⟨s₁, s', hremap, hloop, hs', hback⟩ := h.ready.restore wholeChunk h.view.nodup (h.files hm)
    obtain ⟨g', hrestore, hview⟩ := h.view.restore hback
    refine ⟨s', g', ?_, .restore hrestore, hs', hview⟩
    show AmdGpu.restorePtrAndContent s = _
    unfold AmdGpu.restorePtrAndContent
    rw [hremap]
    exact hloop
  | selectiveRestore =>
    obtain ⟨s₁, s', hremap, hloop, hs', hback⟩ := h.ready.restore granuleChunk h.view.nodup (h.files hm)
    obtain ⟨g', hrestore, hview⟩ := h.view.restore hback
    refine ⟨s', g', ?_, .selectiveRestore hrestore, hs', hview⟩
    show AmdGpu.restorePtrAndContentSelective s = _
    unfold AmdGpu.restorePtrAndContentSelective
    rw [hremap]
    exact hloop

end Refines

/-- What the source does is what the device with checkpoints does, on this back end too. -/
theorem hip_inStep (shmSize : Nat) : InStep Refines (Allowed shmSize) (gpuStep shmSize) gpuLabel CkptGpu.Step := by
  intro s g e h he
  cases e with
  | msg m => exact h.msg he
  | app call =>
    suffices happ : ∃ l g', s.gpuLabel (.app call) = .app l ∧ CkptGpu.App g l g' ∧ (s.appStep call).Refines g' by
      obtain ⟨l, g', hl, happ, hrefines⟩ := happ
      exact ⟨_, g', rfl, hl ▸ .app happ, hrefines⟩
    cases call with
    | cudaMalloc size =>
      obtain ⟨g', happ, hrefines⟩ := h.hipMalloc size
      exact ⟨_, g', rfl, happ, hrefines⟩
    | cudaFree ptr =>
      obtain ⟨g', happ, hrefines⟩ := h.hipFree he
      exact ⟨_, g', rfl, happ, hrefines⟩
    | kernel mem =>
      obtain ⟨g', happ, hrefines⟩ := h.kernel mem
      exact ⟨_, g', rfl, happ, hrefines⟩

/-! ### Orderly runs -/

/-- In addition, a selective checkpoint finds nothing parked. -/
def OrderlyAt (shmSize : Nat) (s : AmdGpu) (e : GpuEvent) : Prop :=
  s.Allowed shmSize e ∧
    ∀ req, e = .msg (.selectiveCkpt req) → ∀ p : Nat, s.allocatedMemory[p]?.isSome → s.Present p

theorem Refines.orderly {s : AmdGpu} {g : CkptGpu} (h : s.Refines g) {shmSize : Nat} {e : GpuEvent}
    (he : s.OrderlyAt shmSize e) : g.Orderly (s.gpuLabel e) := by
  obtain ⟨hallowed, hpresent⟩ := he
  have hrestore : (∀ f ∈ s.fs.fileList, s.allocatedMemory[f.ptr]?.isSome ∧ ¬ s.Present f.ptr) → g.saved ⊆ g.parked := by
    intro hfiles p hp
    obtain ⟨f, hf, rfl⟩ := GpuView.exists_file (h.view.saved ▸ hp)
    rw [h.view.parked]
    exact hfiles f hf
  cases e with
  | app call => cases call <;> trivial
  | msg m =>
    cases m with
    | ckpt => trivial
    | selectiveCkpt req =>
      refine h.view.parked.trans (Set.eq_empty_iff_forall_notMem.2 fun p hp => ?_)
      exact hp.2 (hpresent req rfl p hp.1)
    | restore => exact hrestore hallowed
    | selectiveRestore => exact hrestore hallowed

/-- **Checkpoints are transparent on AMD hardware.** In every run whose messages are orderly and in which
blocks are freed while they are mapped, the process lives, and what the application has seen is a run of the
device without checkpoints. -/
theorem hip_transparent (shmSize : Nat) (s₀ : AmdGpu) (hfresh : s₀.NoBlock) (hfiles : s₀.fs.fileNum = 0)
    (events : List GpuEvent) (hok : AllStepsM (OrderlyAt shmSize) (gpuStep shmSize) s₀ events) :
    ∃ s a, events.foldlM (gpuStep shmSize) s₀ = .ok s ∧
      Trace PlainGpu.Step .empty ((labels (gpuStep shmSize) gpuLabel s₀ events).filterMap GpuLabel.hideMsg) a ∧
      s.view.ShowsApp a := by
  have horderly : InStep Refines (OrderlyAt shmSize) (gpuStep shmSize) gpuLabel
      (fun g l g' => g.Orderly l ∧ CkptGpu.Step g l g') := by
    intro s g e h he
    obtain ⟨s', g', hstep, hg', hrefines⟩ := hip_inStep shmSize s g e h he.1
    exact ⟨s', g', hstep, ⟨h.orderly he, hg'⟩, hrefines⟩
  obtain ⟨s, g, a, hrun, hrefines, hshows, htrace⟩ :=
    horderly.run_comp CkptGpu.orderly_simulates (hfresh.refines hfiles) CkptGpu.shows_empty hok
  exact ⟨s, a, hrun, htrace, hrefines.view.showsApp hshows⟩

/-- One block, a checkpoint, a kernel and a restore. -/
def hipKernel : List GpuEvent := [.app (.cudaMalloc 3), .msg .ckpt, .app (.kernel fun _ => 7), .msg .restore]

theorem hipKernel_orderly : AllStepsM (OrderlyAt shmSizeDefault) (gpuStep shmSizeDefault) noBlock hipKernel := by
  have hnone : ∀ {P : SelectiveCrRequest → Prop} {e : GpuEvent}, (∀ req, e ≠ .msg (.selectiveCkpt req)) →
      ∀ req, e = .msg (.selectiveCkpt req) → P req := fun hne req heq => absurd heq (hne req)
  refine ⟨⟨trivial, hnone (by simp)⟩, ?_⟩
  rintro s hs
  obtain rfl : (noBlock.hipMalloc 3).2 = s := Except.ok.inj hs
  have htable : ∀ p : Nat, (noBlock.hipMalloc 3).2.allocatedMemory[p]? = if p = 0x200000 then some 0x200000 else none :=
    fun p => getElem?_insert_key ..
  have hallowed : Allowed shmSizeDefault (noBlock.hipMalloc 3).2 (.msg .ckpt) := by
    refine ⟨fun p hp => ?_, by decide, by decide⟩
    rw [htable] at hp
    split_ifs at hp with hva
    · exact hva ▸ ⟨_, List.mem_cons_self .., rfl⟩
    · exact absurd hp (by simp)
  refine ⟨⟨hallowed, hnone (by simp)⟩, ?_⟩
  rintro s hs
  obtain ⟨g, -, h⟩ := (noBlock_noBlock.refines rfl).hipMalloc 3
  obtain ⟨s', g', hs', hg', h'⟩ := h.msg hallowed
  obtain rfl : s' = s := Except.ok.inj (hs'.symm.trans hs)
  refine ⟨⟨trivial, hnone (by simp)⟩, ?_⟩
  rintro s hs
  obtain rfl : s'.appStep (.kernel fun _ => 7) = s := Except.ok.inj hs
  refine ⟨⟨fun f hf => ?_, hnone (by simp)⟩, fun _ _ => trivial⟩
  -- the checkpoint has parked its files
  cases hg' with
  | ckpt _ =>
    have hsaved : f.ptr ∈ (g.save g.allBlocks).saved := h'.view.saved ▸ GpuView.mem_saved (v := s'.view) hf
    have hparked : f.ptr ∈ s'.view.parked :=
      h'.view.parked ▸ Or.inr ((CkptGpu.mem_saved_save fun _ hp => hp).1 hsaved)
    exact hparked

theorem hip_transparent_kernel : ∃ s a, hipKernel.foldlM (gpuStep shmSizeDefault) noBlock = .ok s ∧
    Trace PlainGpu.Step .empty
      ((labels (gpuStep shmSizeDefault) gpuLabel noBlock hipKernel).filterMap GpuLabel.hideMsg) a ∧
    s.view.ShowsApp a :=
  hip_transparent shmSizeDefault noBlock noBlock_noBlock rfl _ hipKernel_orderly

end AmdGpu

end GpuCr
