import GpuCr.Lib.Run
import GpuCr.VGpu.Nv
import GpuCr.VGpu.Restore

/-!
# Checkpoint and restore

The four entry points of `src/vGPU.cpp` over the state of the library. The copy loops run here with every
copy executed where it is issued; `VGpu.Async` shows that no schedule of the stream can be told from
that. Leaving through `exit` or a failed `assert` is an `Exit`, after which the process is gone.
-/

namespace GpuCr

open Lib Lib.AsyncStream Lib.Run Std

namespace VGpu

/-- The CUDA runtime calls of a copy loop, with the creation and destruction of its stream and event. -/
def cudaCalls (cmds : List PipeCmd) : Nat :=
  4 + cmds.countP fun
    | .host _ => false
    | _ => true

def pipeMem (s : VGpu) : PipeMem := ⟨s.drv.mem, s.staging, s.dump⟩

def runCopyLoop (s : VGpu) (cmds : List PipeCmd) : Except Exit VGpu :=
  let called := s.drv.calls (cudaCalls cmds)
  if !called.1 || !(devRanges cmds).all fun r => s.drv.accessible r.1 r.2 then .error .memcpyAsync
  else if !assertsHold cmds then .error .assertion
  else
    let m := runPipe cmds s.pipeMem
    .ok { s with drv := { called.2 with mem := m.dev }, staging := m.staging, dump := m.dump }

/-- The loop that gives up the physical memory of the pointers. -/
def releaseAll (ptrs : List Nat) (s : VGpu) : Except Exit VGpu :=
  ptrs.foldlM (fun s ptr =>
    match s.releasePhysicalMemory ptr with
    | none => .error (.release ptr)
    | some s => .ok s) s

/-- The loop that gives the files of the dump new physical memory. -/
def remapAll (files : List SharedMemFile) (s : VGpu) : Except Exit VGpu :=
  files.foldlM (fun s f => s.remapPhysicalMemory f.ptr f.size) s

/-! ### The full checkpoint -/

/-- The blocks `ckpt` dumps, in the order of `allocated_memory`. -/
def ckptBlocks (allocatedMemory : ExtTreeMap Nat Nat) : List (Nat × Nat) :=
  allocatedMemory.toList.map fun entry => (entry.1, roundUp2MB entry.2)

def ckpt (shmSize : Nat) (s : VGpu) : Except Exit VGpu := do
  let (cmds, fs) ← dumpCmds wholeChunk shmSize (ckptBlocks s.allocatedMemory) s.fs
  let s ← { s with fs := fs }.runCopyLoop cmds
  releaseAll (s.allocatedMemory.toList.map Prod.fst) s

def restorePtrAndContent (s : VGpu) : Except Exit VGpu := do
  let s ← remapAll s.fs.fileList s
  s.runCopyLoop (restoreCmds wholeChunk s.fs)

/-! ### The selective checkpoint -/

/-- `[base, base + size)` contains the pointer. -/
def containsPtr (ptr : Nat) (entry : Nat × Nat) : Bool :=
  decide (entry.1 ≤ ptr) && decide (ptr < entry.1 + entry.2)

def findContainingAllocation (allocatedMemory : ExtTreeMap Nat Nat) (ptr : Nat) : Option (Nat × Nat) :=
  allocatedMemory.toList.find? (containsPtr ptr)

/-- A region in no block is skipped with a warning. -/
def insertBlockOf (allocatedMemory : ExtTreeMap Nat Nat) (blocks : ExtTreeSet Nat)
    (region : SelectiveCrRegion) : ExtTreeSet Nat :=
  match findContainingAllocation allocatedMemory region.ptr with
  | some entry => blocks.insert entry.1
  | none => blocks

/-- `blocks_to_snapshot`. -/
def blocksToSnapshot (allocatedMemory : ExtTreeMap Nat Nat) (req : SelectiveCrRequest) :
    ExtTreeSet Nat :=
  req.regions.foldl (insertBlockOf allocatedMemory) ∅

/-- The blocks with their requested sizes; the lookup is under an `assert`. -/
def selectiveBlocks (allocatedMemory : ExtTreeMap Nat Nat) (req : SelectiveCrRequest) :
    Except Exit (List (Nat × Nat)) :=
  (blocksToSnapshot allocatedMemory req).toList.mapM fun base =>
    match allocatedMemory[base]? with
    | some size => .ok (base, size)
    | none => .error .assertion

def ckptSelective (shmSize : Nat) (req : SelectiveCrRequest) (s : VGpu) : Except Exit VGpu := do
  let blocks ← selectiveBlocks s.allocatedMemory req
  let (cmds, fs) ← dumpCmds granuleChunk shmSize blocks s.fs
  let s ← { s with fs := fs }.runCopyLoop cmds
  releaseAll (s.fs.fileList.map SharedMemFile.ptr) s

def restorePtrAndContentSelective (s : VGpu) : Except Exit VGpu := do
  let s ← remapAll s.fs.fileList s
  s.runCopyLoop (restoreCmds granuleChunk s.fs)

/-! ### The loops over the blocks -/

/-- The block at `p` has its own handle and is mapped. -/
def MappedBlock (s : VGpu) (p n : Nat) : Prop :=
  s.allocatedMemory[p]? = some n ∧ ∃ h, s.globalHandleMap[p]? = some h ∧
    ⟨p, roundUp2MB n, h, true⟩ ∈ s.drv.maps ∧ s.drv.isLive h = true ∧
    ∀ q, s.globalHandleMap[q]? = some h → q = p

/-- `s'` differs from `s` only in the mappings, the live handles and the handle map, and there only at
`ptrs`. -/
structure SameElsewhere (ptrs : List Nat) (s s' : VGpu) : Prop where
  env : s'.drv.env = s.drv.env
  allocatedMemory : s'.allocatedMemory = s.allocatedMemory
  fs : s'.fs = s.fs
  staging : s'.staging = s.staging
  dump : s'.dump = s.dump
  handles : ∀ q, q ∉ ptrs → s'.globalHandleMap[q]? = s.globalHandleMap[q]?
  maps : ∀ m : Mapping, m.va ∉ ptrs → (m ∈ s'.drv.maps ↔ m ∈ s.drv.maps)

/-- After `releaseAll`: nothing is left at `ptrs`, and the contents are still the old ones. -/
structure Released (ptrs : List Nat) (s s' : VGpu) : Prop extends SameElsewhere ptrs s s' where
  mem : s'.drv.mem = s.drv.mem
  unmapped : ∀ m ∈ s'.drv.maps, m.va ∉ ptrs
  unhandled : ∀ q ∈ ptrs, s'.globalHandleMap[q]? = none
  live : ∀ k, s'.drv.isLive k = true ↔
    s.drv.isLive k = true ∧ ∀ q ∈ ptrs, s.globalHandleMap[q]? ≠ some k

theorem Released.cons {p : Nat} {ptrs : List Nat} {s s₁ s' : VGpu} (h1 : Released [p] s s₁)
    (h2 : Released ptrs s₁ s') : Released (p :: ptrs) s s' := by
  have hp : s₁.globalHandleMap[p]? = none := h1.unhandled p (List.mem_singleton_self p)
  refine ⟨⟨h2.env.trans h1.env, h2.allocatedMemory.trans h1.allocatedMemory, h2.fs.trans h1.fs,
    h2.staging.trans h1.staging, h2.dump.trans h1.dump, ?_, ?_⟩, h2.mem.trans h1.mem, ?_, ?_, ?_⟩
  · intro q hq
    rw [List.mem_cons, not_or] at hq
    rw [h2.handles q hq.2]
    exact h1.handles q (List.mem_singleton.not.2 hq.1)
  · intro m hm
    rw [List.mem_cons, not_or] at hm
    rw [h2.maps m hm.2]
    exact h1.maps m (List.mem_singleton.not.2 hm.1)
  · intro m hm
    rw [List.mem_cons, not_or]
    have hrest := h2.unmapped m hm
    have hm' := h1.unmapped m ((h2.maps m hrest).1 hm)
    exact ⟨List.mem_singleton.not.1 hm', hrest⟩
  · intro q hq
    by_cases hin : q ∈ ptrs
    · exact h2.unhandled q hin
    · obtain rfl : q = p := (List.mem_cons.1 hq).resolve_right hin
      rw [h2.handles q hin]
      exact hp
  · intro k
    have hlive : s₁.drv.isLive k = true ↔ s.drv.isLive k = true ∧ s.globalHandleMap[p]? ≠ some k := by
      rw [h1.live]
      simp
    rw [h2.live, hlive, List.forall_mem_cons, and_assoc]
    refine and_congr_right fun _ => and_congr_right fun hk => forall₂_congr fun q _ => ?_
    -- the handle at `p` is gone, the others are the old ones
    by_cases hq : q = p
    · subst hq
      rw [hp]
      exact iff_of_true (by simp) hk
    · rw [h1.handles q (List.mem_singleton.not.2 hq)]

theorem unmapAndRelease_inv {s s' : VGpu} {p size : Nat} (h : s.unmapAndRelease p size = some s') :
    s.drv.mappedAt p size = true ∧ Released [p] s s' := by
  unfold unmapAndRelease Driver.cuMemUnmap Driver.call at h
  by_cases hvalid : (s.drv.mappedAt p size && !s.drv.env.fails s.drv.clock) = true
  swap
  · rw [if_neg hvalid] at h
    simp at h
  rw [if_pos hvalid] at h
  simp only [Bool.not_true, Bool.false_eq_true, if_false] at h
  have hmaps : ∀ m, m ∈ (s.drv.unmapRange p).maps ↔ m ∈ s.drv.maps ∧ m.va ≠ p := by
    intro m
    show m ∈ List.filter _ _ ↔ _
    rw [List.mem_filter, bne_iff_ne]
  refine ⟨(Bool.and_eq_true _ _ ▸ hvalid).1, ?_⟩
  cases hh : s.globalHandleMap[p]? with
  | none =>
    rw [hh] at h
    obtain rfl := Option.some.inj h
    refine ⟨⟨rfl, rfl, rfl, rfl, rfl, fun _ _ => rfl, ?_⟩, rfl, ?_, ?_, ?_⟩
    · intro m hm
      exact (hmaps m).trans (and_iff_left (List.mem_singleton.not.1 hm))
    · intro m hm
      exact List.mem_singleton.not.2 ((hmaps m).1 hm).2
    · intro q hq
      rw [List.mem_singleton.1 hq]
      exact hh
    · intro k
      simp only [List.mem_singleton, forall_eq, hh]
      exact (and_iff_left (by simp)).symm
  | some handle =>
    rw [hh] at h
    dsimp only at h
    split_ifs at h with hrel
    obtain rfl := Option.some.inj h
    unfold Driver.cuMemRelease Driver.call at hrel ⊢
    split_ifs at hrel ⊢ with hvalid'
    · refine ⟨⟨rfl, rfl, rfl, rfl, rfl, ?_, ?_⟩, rfl, ?_, ?_, ?_⟩
      · intro q hq
        have hne : q ≠ p := List.mem_singleton.not.1 hq
        show (s.globalHandleMap.erase p)[q]? = _
        rw [getElem?_erase_key, if_neg hne]
      · intro m hm
        exact (hmaps m).trans (and_iff_left (List.mem_singleton.not.1 hm))
      · intro m hm
        exact List.mem_singleton.not.2 ((hmaps m).1 hm).2
      · intro q hq
        rw [List.mem_singleton.1 hq]
        exact ExtTreeMap.getElem?_erase_self
      · intro k
        refine (Bool.eq_iff_iff.1 (isLive_filter (s.drv.unmapRange p) handle k)).trans ?_
        simp only [List.mem_singleton, forall_eq, hh, Bool.and_eq_true, bne_iff_ne, Option.some.injEq, ne_eq]
        exact and_congr_right fun _ => not_congr eq_comm
    · exact absurd rfl hrel

theorem releaseAll_inv {ptrs : List Nat} {s s' : VGpu} (h : releaseAll ptrs s = .ok s') :
    Released ptrs s s' ∧ ∀ p ∈ ptrs, ∃ n, s.allocatedMemory[p]? = some n ∧
      s.drv.mappedAt p (roundUp2MB n) = true := by
  induction ptrs generalizing s with
  | nil =>
    obtain rfl : s = s' := Except.ok.inj h
    refine ⟨⟨⟨rfl, rfl, rfl, rfl, rfl, fun _ _ => rfl, fun _ _ => Iff.rfl⟩, rfl, ?_, ?_, ?_⟩, ?_⟩
    all_goals simp
  | cons p ptrs ih =>
    unfold releaseAll at h ih
    rw [List.foldlM_cons] at h
    obtain ⟨s₁, h1, h2⟩ := bind_eq_ok.1 h
    cases hrel : s.releasePhysicalMemory p with
    | none =>
      rw [hrel] at h1
      exact absurd h1 (by simp)
    | some s₀ =>
      rw [hrel] at h1
      obtain rfl : s₀ = s₁ := Except.ok.inj h1
      unfold releasePhysicalMemory at hrel
      cases htab : s.allocatedMemory[p]? with
      | none =>
        rw [htab] at hrel
        exact absurd hrel (by simp)
      | some n =>
        rw [htab] at hrel
        obtain ⟨hat, hfirst⟩ := unmapAndRelease_inv hrel
        obtain ⟨hrest, hmapped⟩ := ih h2
        refine ⟨hfirst.cons hrest, fun q hq => ?_⟩
        rcases List.mem_cons.1 hq with rfl | hq
        · exact ⟨n, htab, hat⟩
        · obtain ⟨n', htab', hat'⟩ := hmapped q hq
          refine ⟨n', hfirst.allocatedMemory ▸ htab', ?_⟩
          -- a mapping that is left was there before
          rw [Driver.mappedAt, List.any_eq_true] at hat' ⊢
          obtain ⟨m, hm, heq⟩ := hat'
          exact ⟨m, (hfirst.maps m (hfirst.unmapped m hm)).1 hm, heq⟩

theorem releaseAll_spec {ptrs : List Nat} (hnodup : ptrs.Nodup) {s : VGpu}
    (henv : s.drv.env.Reliable) (hmapped : ∀ p ∈ ptrs, ∃ n, s.MappedBlock p n) :
    ∃ s', releaseAll ptrs s = .ok s' ∧ Released ptrs s s' := by
  suffices hok : ∃ s', releaseAll ptrs s = .ok s' by
    obtain ⟨s', h⟩ := hok
    exact ⟨s', h, (releaseAll_inv h).1⟩
  induction ptrs generalizing s with
  | nil => exact ⟨s, rfl⟩
  | cons p ptrs ih =>
    rw [List.nodup_cons] at hnodup
    obtain ⟨n, htab, h, hh, hmap, hlive, hinj⟩ := hmapped p (List.mem_cons_self ..)
    obtain ⟨drv, hrel, hunmap⟩ := releasePhysicalMemory_spec henv htab hh hmap hlive
    have herase : ∀ q, q ≠ p → (s.globalHandleMap.erase p)[q]? = s.globalHandleMap[q]? := by
      intro q hq
      rw [getElem?_erase_key, if_neg hq]
    -- the other blocks are still mapped
    have hmapped' : ∀ q ∈ ptrs, ∃ n, MappedBlock
        { s with drv := drv, globalHandleMap := s.globalHandleMap.erase p } q n := by
      intro q hq
      have hne : q ≠ p := fun h => hnodup.1 (h ▸ hq)
      obtain ⟨n', htab', h', hh', hmap', hlive', hinj'⟩ := hmapped q (List.mem_cons_of_mem _ hq)
      refine ⟨n', htab', h', ?_, ?_, ?_, ?_⟩
      · rw [← hh']
        exact herase q hne
      · exact (hunmap.maps _).2 ⟨hmap', hne⟩
      · show drv.isLive h' = true
        rw [hunmap.live, hlive', Bool.true_and, bne_iff_ne]
        rintro rfl
        exact hne (hinj' p hh).symm
      · intro r hr
        apply hinj'
        by_cases hrp : r = p
        · simp [hrp] at hr
        · rw [← herase r hrp]
          exact hr
    obtain ⟨s', hrest⟩ := ih hnodup.2 (hunmap.env ▸ henv) hmapped'
    refine ⟨s', ?_⟩
    unfold releaseAll at hrest ⊢
    rw [List.foldlM_cons, hrel]
    exact hrest

/-- The physical block of a file. -/
def blockOf (f : SharedMemFile) (handle : Nat) : Mapping := ⟨f.ptr, roundUp2MB f.size, handle, true⟩

/-- After `remapAll`: every file has a new physical block of its own. -/
structure RemappedAll (files : List SharedMemFile) (s s' : VGpu) : Prop
    extends SameElsewhere (files.map SharedMemFile.ptr) s s' where
  mem : ∀ a, (∀ f ∈ files, a < f.ptr ∨ f.ptr + roundUp2MB f.size ≤ a) → s'.drv.mem a = s.drv.mem a
  mapped : ∀ f ∈ files, ∃ h, s'.globalHandleMap[f.ptr]? = some h ∧ blockOf f h ∈ s'.drv.maps ∧
    s'.drv.isLive h = true ∧ s.drv.isLive h = false
  distinct : ∀ f ∈ files, ∀ g ∈ files, s'.globalHandleMap[f.ptr]? = s'.globalHandleMap[g.ptr]? →
    f.ptr = g.ptr
  live : ∀ k, s.drv.isLive k = true → s'.drv.isLive k = true

/-- `remapAll` may start: the files are known, have no physical memory and no mapping in their way. -/
structure Parked (files : List SharedMemFile) (s : VGpu) : Prop where
  known : ∀ f ∈ files, ∃ n, s.allocatedMemory[f.ptr]? = some n
  unhandled : ∀ f ∈ files, s.globalHandleMap[f.ptr]? = none
  pos : ∀ f ∈ files, 0 < roundUp2MB f.size
  free : ∀ f ∈ files, ∀ m ∈ s.drv.maps, f.ptr + roundUp2MB f.size ≤ m.va ∨ m.va + m.size ≤ f.ptr
  apart : files.Pairwise fun f g =>
    f.ptr + roundUp2MB f.size ≤ g.ptr ∨ g.ptr + roundUp2MB g.size ≤ f.ptr

theorem Parked.ptr_ne {f : SharedMemFile} {files : List SharedMemFile} {s : VGpu}
    (hp : Parked (f :: files) s) {g : SharedMemFile} (hg : g ∈ files) : g.ptr ≠ f.ptr := by
  have h1 := (List.pairwise_cons.1 hp.apart).1 g hg
  have h2 := hp.pos f (List.mem_cons_self ..)
  have h3 := hp.pos g (List.mem_cons_of_mem _ hg)
  omega

theorem Parked.tail {f : SharedMemFile} {files : List SharedMemFile} {s : VGpu} {drv : Driver} {h : Nat}
    (hp : Parked (f :: files) s) (hre : Remapped s.drv drv f.ptr (roundUp2MB f.size) h) :
    Parked files { s with drv := drv, globalHandleMap := s.globalHandleMap.insert f.ptr h } := by
  have happart := List.pairwise_cons.1 hp.apart
  refine ⟨fun g hg => hp.known g (List.mem_cons_of_mem _ hg), ?_,
    fun g hg => hp.pos g (List.mem_cons_of_mem _ hg), ?_, happart.2⟩
  · intro g hg
    show (s.globalHandleMap.insert f.ptr h)[g.ptr]? = none
    rw [getElem?_insert_key, if_neg (hp.ptr_ne hg)]
    exact hp.unhandled g (List.mem_cons_of_mem _ hg)
  · intro g hg m hm
    rcases (hre.maps m).1 hm with rfl | hm
    · exact (happart.1 g hg).symm
    · exact hp.free g (List.mem_cons_of_mem _ hg) m hm

theorem remapAll_spec {files : List SharedMemFile} {s : VGpu} (henv : s.drv.env.Reliable)
    (hp : Parked files s) : ∃ s', remapAll files s = .ok s' ∧ RemappedAll files s s' := by
  induction files generalizing s with
  | nil =>
    refine ⟨s, rfl, ⟨rfl, rfl, rfl, rfl, rfl, fun _ _ => rfl, fun _ _ => Iff.rfl⟩, fun _ _ => rfl, ?_, ?_,
      fun _ hk => hk⟩
    · simp
    · simp
  | cons f files ih =>
    have hf := List.mem_cons_self (a := f) (l := files)
    obtain ⟨n, htab⟩ := hp.known f hf
    obtain ⟨drv, h, hremap, hre⟩ :=
      remapPhysicalMemory_spec henv htab (hp.unhandled f hf) (hp.pos f hf) (hp.free f hf)
    obtain ⟨s', hrest, hall⟩ := ih (hre.env ▸ henv) (hp.tail hre)
    have hnot : f.ptr ∉ files.map SharedMemFile.ptr := by
      intro hin
      obtain ⟨g, hg, heq⟩ := List.mem_map.1 hin
      exact hp.ptr_ne hg heq
    have hhandle : s'.globalHandleMap[f.ptr]? = some h := by
      rw [hall.handles f.ptr hnot]
      exact ExtTreeMap.getElem?_insert_self
    refine ⟨s', ?_, ⟨hall.env.trans hre.env, hall.allocatedMemory, hall.fs, hall.staging, hall.dump, ?_, ?_⟩,
      ?_, ?_, ?_, ?_⟩
    · unfold remapAll at hrest ⊢
      rw [List.foldlM_cons, hremap]
      exact hrest
    · intro q hq
      rw [List.map_cons, List.mem_cons, not_or] at hq
      rw [hall.handles q hq.2]
      show (s.globalHandleMap.insert f.ptr h)[q]? = _
      rw [getElem?_insert_key, if_neg hq.1]
    · intro m hm
      rw [List.map_cons, List.mem_cons, not_or] at hm
      rw [hall.maps m hm.2]
      show m ∈ drv.maps ↔ _
      rw [hre.maps]
      refine or_iff_right ?_
      rintro rfl
      exact hm.1 rfl
    · intro a ha
      rw [hall.mem a fun g hg => ha g (List.mem_cons_of_mem _ hg)]
      exact hre.mem a (ha f hf)
    · intro g hg
      rcases List.mem_cons.1 hg with rfl | hg
      · refine ⟨h, hhandle, ?_, ?_, hre.fresh⟩
        · rw [hall.maps _ hnot]
          exact (hre.maps _).2 (Or.inl rfl)
        · apply hall.live
          show drv.isLive h = true
          rw [hre.live]
          simp
      · obtain ⟨h', h1, h2, h3, h4⟩ := hall.mapped g hg
        refine ⟨h', h1, h2, h3, ?_⟩
        have hold : drv.isLive h' = false := h4
        rw [hre.live, Bool.or_eq_false_iff] at hold
        exact hold.1
    · -- the handle of a later file was not live when `f` got its own
      have hfirst : ∀ g ∈ files, s'.globalHandleMap[g.ptr]? ≠ some h := by
        intro g hg heq
        obtain ⟨h', h1, -, -, h4⟩ := hall.mapped g hg
        obtain rfl : h' = h := Option.some.inj (h1.symm.trans heq)
        have hnew : drv.isLive h' = false := h4
        rw [hre.live] at hnew
        simp at hnew
      intro g hg g' hg' heq
      rcases List.mem_cons.1 hg with h1 | h1 <;> rcases List.mem_cons.1 hg' with h2 | h2
      · rw [h1, h2]
      · rw [h1] at heq
        exact absurd (heq.symm.trans hhandle) (hfirst g' h2)
      · rw [h2] at heq
        exact absurd (heq.trans hhandle) (hfirst g h1)
      · exact hall.distinct g h1 g' h2 heq
    · intro k hk
      apply hall.live
      show drv.isLive k = true
      rw [hre.live, hk, Bool.true_or]

/-! ### The copy loop -/

theorem accessible_of_mem {d : Driver} {m : Mapping} (hm : m ∈ d.maps) (hacc : m.access = true) {a n : Nat}
    (h1 : m.va ≤ a) (h2 : a + n ≤ m.va + m.size) : d.accessible a n = true := by
  rw [Driver.accessible, List.any_eq_true]
  exact ⟨m, hm, by simp [hacc, h1, h2]⟩

/-- The copy loop runs through when its copies stay in mapped ranges and its asserts hold. -/
theorem runCopyLoop_ok {s : VGpu} {cmds : List PipeCmd} (henv : s.drv.env.Reliable)
    (hcopies : ∀ r ∈ devRanges cmds, s.drv.accessible r.1 r.2 = true) (hasserts : assertsHold cmds = true) :
    s.runCopyLoop cmds = .ok
      { s with
        drv := { s.drv with clock := s.drv.clock + cudaCalls cmds, mem := (runPipe cmds s.pipeMem).dev }
        staging := (runPipe cmds s.pipeMem).staging
        dump := (runPipe cmds s.pipeMem).dump } := by
  have hall : ((devRanges cmds).all fun r => s.drv.accessible r.1 r.2) = true := by
    rw [List.all_eq_true]
    exact hcopies
  unfold runCopyLoop
  rw [Driver.calls_of_reliable henv, hall, hasserts]
  rfl

/-- A copy loop that ran through has touched accessible ranges only, and nothing but the memories. -/
theorem runCopyLoop_inv {s s' : VGpu} {cmds : List PipeCmd} (h : s.runCopyLoop cmds = .ok s') :
    (∀ r ∈ devRanges cmds, s.drv.accessible r.1 r.2 = true) ∧
      s' = { s with
        drv := { s.drv with clock := s.drv.clock + cudaCalls cmds, mem := (runPipe cmds s.pipeMem).dev }
        staging := (runPipe cmds s.pipeMem).staging
        dump := (runPipe cmds s.pipeMem).dump } := by
  unfold runCopyLoop at h
  dsimp only at h
  split_ifs at h with h1 h2
  · simp only [Bool.or_eq_true, Bool.not_eq_true', not_or, Bool.not_eq_false] at h1
    exact ⟨List.all_eq_true.1 h1.2, (Except.ok.inj h).symm⟩

end VGpu

end GpuCr
