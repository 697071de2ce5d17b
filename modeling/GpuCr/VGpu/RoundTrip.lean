import GpuCr.VGpu.Ckpt

/-!
# The full checkpoint round trip

Both checkpoints dump a list of mapped blocks and then release them (`dump_spec`), and both restores
remap the files of a dump and then copy them back (`restore_spec`); the two specifications meet in the
file list and the dump image. The full round trip is their composition over the whole allocation table.
-/

namespace GpuCr

open Lib Lib.AsyncStream Std

/-! ### File lists -/

theorem layout_ptrs (offset : Nat) (blocks : List (Nat × Nat)) :
    (layout offset blocks).map SharedMemFile.ptr = blocks.map Prod.fst := by
  induction blocks generalizing offset with
  | nil => rfl
  | cons b blocks ih => rw [layout, List.map_cons, List.map_cons, ih]

theorem layout_blocks (offset : Nat) (blocks : List (Nat × Nat)) :
    (layout offset blocks).map (fun f => (f.ptr, f.size)) = blocks := by
  induction blocks generalizing offset with
  | nil => rfl
  | cons b blocks ih => rw [layout, List.map_cons, ih]

theorem mem_of_mem_layout {offset : Nat} {blocks : List (Nat × Nat)} {f : SharedMemFile}
    (hf : f ∈ layout offset blocks) : (f.ptr, f.size) ∈ blocks := by
  induction blocks generalizing offset with
  | nil => exact absurd hf List.not_mem_nil
  | cons b blocks ih =>
    rcases List.mem_cons.1 hf with rfl | hf
    · exact List.mem_cons_self ..
    · exact List.mem_cons_of_mem _ (ih hf)

theorem exists_file_of_mem (offset : Nat) {blocks : List (Nat × Nat)} {b : Nat × Nat} (hb : b ∈ blocks) :
    ∃ f ∈ layout offset blocks, f.ptr = b.1 ∧ f.size = b.2 := by
  induction blocks generalizing offset with
  | nil => exact absurd hb List.not_mem_nil
  | cons c blocks ih =>
    rcases List.mem_cons.1 hb with rfl | hb
    · exact ⟨_, List.mem_cons_self .., rfl, rfl⟩
    · obtain ⟨f, hf, h⟩ := ih (offset + c.2) hb
      exact ⟨f, List.mem_cons_of_mem _ hf, h⟩

namespace VGpu

/-! ### Dumping blocks -/

/-- The blocks are mapped, and what is dumped of each needs its whole physical block. -/
structure Dumpable (blocks : List (Nat × Nat)) (s : VGpu) : Prop where
  nodup : (blocks.map Prod.fst).Nodup
  mapped : ∀ b ∈ blocks, ∃ n, s.MappedBlock b.1 n ∧ roundUp2MB b.2 = roundUp2MB n

/-- The bytes of the blocks in `s` are in the dump of `s'`, and the blocks have been released. -/
structure Dumped (blocks : List (Nat × Nat)) (s s' : VGpu) : Prop where
  fileList : s'.fs.fileList = layout dumpHeaderSize blocks
  currentOffset : s'.fs.currentOffset = dumpHeaderSize + totalSize blocks
  image : ∀ f ∈ s'.fs.fileList, ∀ i < f.size, s'.dump (f.startOffset + i) = s.drv.mem (f.ptr + i)
  env : s'.drv.env = s.drv.env
  allocatedMemory : s'.allocatedMemory = s.allocatedMemory
  mem : s'.drv.mem = s.drv.mem
  handles : ∀ q, q ∉ blocks.map Prod.fst → s'.globalHandleMap[q]? = s.globalHandleMap[q]?
  maps : ∀ m : Mapping, m.va ∉ blocks.map Prod.fst → (m ∈ s'.drv.maps ↔ m ∈ s.drv.maps)
  unmapped : ∀ m ∈ s'.drv.maps, m.va ∉ blocks.map Prod.fst
  unhandled : ∀ q ∈ blocks.map Prod.fst, s'.globalHandleMap[q]? = none
  live : ∀ k, s'.drv.isLive k = true ↔
    s.drv.isLive k = true ∧ ∀ q ∈ blocks.map Prod.fst, s.globalHandleMap[q]? ≠ some k

theorem dumped_of_ok {rule : ChunkRule} {shmSize : Nat} {blocks : List (Nat × Nat)} {cmds : List PipeCmd}
    {fs : SharedMemFs} {s s₀ s' : VGpu} (hcmds : dumpCmds rule shmSize blocks s.fs = .ok (cmds, fs))
    (hloop : { s with fs := fs }.runCopyLoop cmds = .ok s₀)
    (hrelease : releaseAll (blocks.map Prod.fst) s₀ = .ok s') : Dumped blocks s s' := by
  obtain ⟨hfiles, -, hoffset⟩ := dumpCmds_inv hcmds
  obtain ⟨hdev, himage⟩ := dumpCmds_image hcmds s.pipeMem
  obtain ⟨-, rfl⟩ := runCopyLoop_inv hloop
  obtain ⟨hreleased, -⟩ := releaseAll_inv hrelease
  refine ⟨?_, ?_, ?_, hreleased.env, hreleased.allocatedMemory, hreleased.mem.trans hdev,
    hreleased.handles, hreleased.maps, hreleased.unmapped, hreleased.unhandled, hreleased.live⟩
  · rw [hreleased.fs]
    exact hfiles
  · rw [hreleased.fs]
    exact hoffset
  · rw [hreleased.fs, hreleased.dump]
    exact himage

theorem dump_spec (rule : ChunkRule) {shmSize : Nat} {blocks : List (Nat × Nat)} {s : VGpu}
    (henv : s.drv.env.Reliable) (hd : Dumpable blocks s)
    (hsize : dumpHeaderSize + totalSize blocks ≤ shmSize) (hnum : blocks.length < maxFileNum) :
    ∃ cmds fs s₁ s', dumpCmds rule shmSize blocks s.fs = .ok (cmds, fs) ∧
      { s with fs := fs }.runCopyLoop cmds = .ok s₁ ∧ s₁.allocatedMemory = s.allocatedMemory ∧
      s₁.fs.fileList.map SharedMemFile.ptr = blocks.map Prod.fst ∧
      releaseAll (blocks.map Prod.fst) s₁ = .ok s' ∧ Dumped blocks s s' := by
  obtain ⟨cmds, fs, hcmds⟩ := dumpCmds_ok rule s.fs hsize hnum
  obtain ⟨hfiles, -, hoffset⟩ := dumpCmds_inv hcmds
  have hcopies : ∀ r ∈ devRanges cmds, s.drv.accessible r.1 r.2 = true := by
    intro r hr
    obtain ⟨b, hb, h1, h2⟩ := dumpCmds_copies hcmds hr
    obtain ⟨n, ⟨-, h, -, hmap, -⟩, hround⟩ := hd.mapped b hb
    have := le_roundUp2MB b.2
    exact accessible_of_mem hmap rfl h1 (by simp only; omega)
  have hloop := runCopyLoop_ok (s := { s with fs := fs }) henv hcopies (dumpCmds_asserts hcmds)
  obtain ⟨s', hrelease, -⟩ := releaseAll_spec hd.nodup
    (s := { s with
      fs := fs
      drv := { s.drv with clock := s.drv.clock + cudaCalls cmds, mem := (runPipe cmds s.pipeMem).dev }
      staging := (runPipe cmds s.pipeMem).staging
      dump := (runPipe cmds s.pipeMem).dump }) henv (fun p hp => by
        obtain ⟨b, hb, rfl⟩ := List.mem_map.1 hp
        obtain ⟨n, hn, -⟩ := hd.mapped b hb
        exact ⟨n, hn⟩)
  refine ⟨cmds, fs, _, s', hcmds, hloop, rfl, ?_, hrelease, dumped_of_ok hcmds hloop hrelease⟩
  show fs.fileList.map SharedMemFile.ptr = _
  rw [hfiles, layout_ptrs]

/-! ### Restoring files -/

/-- The files of `s` are back in memory, each in a physical block of its own. -/
structure Restored (blocks : List (Nat × Nat)) (s s' : VGpu) : Prop where
  allocatedMemory : s'.allocatedMemory = s.allocatedMemory
  content : ∀ f ∈ s.fs.fileList, ∀ i < f.size, s'.drv.mem (f.ptr + i) = s.dump (f.startOffset + i)
  outside : ∀ a, (∀ b ∈ blocks, a < b.1 ∨ b.1 + roundUp2MB b.2 ≤ a) → s'.drv.mem a = s.drv.mem a
  handles : ∀ q, q ∉ blocks.map Prod.fst → s'.globalHandleMap[q]? = s.globalHandleMap[q]?
  maps : ∀ m : Mapping, m.va ∉ blocks.map Prod.fst → (m ∈ s'.drv.maps ↔ m ∈ s.drv.maps)
  mapped : ∀ b ∈ blocks, ∃ h, s'.globalHandleMap[b.1]? = some h ∧
    ⟨b.1, roundUp2MB b.2, h, true⟩ ∈ s'.drv.maps ∧ s'.drv.isLive h = true
  distinct : ∀ b ∈ blocks, ∀ c ∈ blocks,
    s'.globalHandleMap[b.1]? = s'.globalHandleMap[c.1]? → b.1 = c.1
  live : ∀ k, s.drv.isLive k = true → s'.drv.isLive k = true

theorem restore_spec (rule : ChunkRule) {offset : Nat} {blocks : List (Nat × Nat)} {s : VGpu}
    (henv : s.drv.env.Reliable) (hfiles : s.fs.fileList = layout offset blocks)
    (hoffset : s.fs.currentOffset = offset + totalSize blocks) (hp : Parked s.fs.fileList s) :
    ∃ s₁ s', remapAll s.fs.fileList s = .ok s₁ ∧
      s₁.runCopyLoop (restoreCmds rule s₁.fs) = .ok s' ∧ s'.drv.env = s.drv.env ∧ Restored blocks s s' := by
  obtain ⟨s₁, hremap, hre⟩ := remapAll_spec henv hp
  have hptrs : s.fs.fileList.map SharedMemFile.ptr = blocks.map Prod.fst := by
    rw [hfiles, layout_ptrs]
  have hcopies : ∀ r ∈ devRanges (restoreCmds rule s₁.fs), s₁.drv.accessible r.1 r.2 = true := by
    intro r hr
    obtain ⟨f, hf, h1, h2⟩ := restoreCmds_copies rule s₁.fs hr
    rw [hre.fs] at hf
    obtain ⟨h, -, hmap, -⟩ := hre.mapped f hf
    have := le_roundUp2MB f.size
    exact accessible_of_mem hmap rfl h1 (by simp only [blockOf]; omega)
  have hfiles₁ : s₁.fs.fileList = layout offset blocks := by rw [hre.fs, hfiles]
  have hoffset₁ : s₁.fs.currentOffset = offset + totalSize blocks := by rw [hre.fs, hoffset]
  have hasserts : assertsHold (restoreCmds rule s₁.fs) = true := restoreCmds_asserts rule hfiles₁
  have hloop := runCopyLoop_ok (hre.env ▸ henv) hcopies hasserts
  have hdev := restoreCmds_dev rule hfiles₁ hoffset₁ s₁.pipeMem
  have hdump : s₁.pipeMem.dump = s.dump := hre.dump
  have hlist : s₁.fs.fileList = s.fs.fileList := by rw [hre.fs]
  rw [hdump, hlist] at hdev
  refine ⟨s₁, _, hremap, hloop, hre.env, hre.allocatedMemory, ?_, ?_, ?_, ?_, ?_, ?_, hre.live⟩
  · intro f hf i hi
    show (runPipe (restoreCmds rule s₁.fs) s₁.pipeMem).dev (f.ptr + i) = _
    rw [hdev]
    refine restoredDev_in _ _ _ (hp.apart.imp ?_) hf hi
    intro f g hfg
    have := le_roundUp2MB f.size
    have := le_roundUp2MB g.size
    omega
  · intro a ha
    have hout : ∀ f ∈ s.fs.fileList, a < f.ptr ∨ f.ptr + roundUp2MB f.size ≤ a := by
      intro f hf
      rw [hfiles] at hf
      exact ha _ (mem_of_mem_layout hf)
    show (runPipe (restoreCmds rule s₁.fs) s₁.pipeMem).dev a = _
    rw [hdev, restoredDev_out]
    · exact hre.mem a hout
    · intro f hf
      have := hout f hf
      have := le_roundUp2MB f.size
      omega
  · intro q hq
    exact hre.handles q (hptrs ▸ hq)
  · intro m hm
    exact hre.maps m (hptrs ▸ hm)
  · intro b hb
    obtain ⟨f, hf, h1, h2⟩ := exists_file_of_mem offset hb
    obtain ⟨h, h3, h4, h5, -⟩ := hre.mapped f (hfiles ▸ hf)
    rw [h1] at h3
    rw [blockOf, h1, h2] at h4
    exact ⟨h, h3, h4, h5⟩
  · intro b hb c hc heq
    obtain ⟨f, hf, h1, -⟩ := exists_file_of_mem offset hb
    obtain ⟨g, hg, h2, -⟩ := exists_file_of_mem offset hc
    rw [← h1, ← h2]
    refine hre.distinct f (hfiles ▸ hf) g (hfiles ▸ hg) ?_
    rw [h1, h2]
    exact heq

theorem Dumped.parked {blocks : List (Nat × Nat)} {s s' : VGpu} (hd : Dumpable blocks s)
    (h : Dumped blocks s s') : Parked s'.fs.fileList s' := by
  have hblock : ∀ f ∈ s'.fs.fileList, ∃ n, s.MappedBlock f.ptr n ∧ roundUp2MB f.size = roundUp2MB n := by
    intro f hf
    rw [h.fileList] at hf
    exact hd.mapped _ (mem_of_mem_layout hf)
  have hptr : ∀ f ∈ s'.fs.fileList, f.ptr ∈ blocks.map Prod.fst := by
    intro f hf
    rw [h.fileList] at hf
    exact List.mem_map.2 ⟨_, mem_of_mem_layout hf, rfl⟩
  refine ⟨?_, fun f hf => h.unhandled _ (hptr f hf), ?_, ?_, ?_⟩
  · intro f hf
    obtain ⟨n, ⟨htab, -⟩, -⟩ := hblock f hf
    exact ⟨n, h.allocatedMemory ▸ htab⟩
  · intro f hf
    obtain ⟨n, ⟨-, k, -, hmap, -⟩, hround⟩ := hblock f hf
    rw [hround]
    exact s.drv.maps_pos _ hmap
  · intro f hf m hm
    obtain ⟨n, ⟨-, k, -, hmap, -⟩, hround⟩ := hblock f hf
    have hva := h.unmapped m hm
    have hm' := (h.maps m hva).1 hm
    have hne : Mapping.mk f.ptr (roundUp2MB n) k true ≠ m := by
      rintro rfl
      exact hva (hptr f hf)
    rw [hround]
    exact s.drv.maps_apart.forall hmap hm' hne
  · have hne : (s'.fs.fileList.map SharedMemFile.ptr).Nodup := by
      rw [h.fileList, layout_ptrs]
      exact hd.nodup
    refine (List.pairwise_map.1 hne).imp_of_mem ?_
    intro f g hf hg hptrs
    obtain ⟨n, ⟨-, k, -, hmap, -⟩, hround⟩ := hblock f hf
    obtain ⟨n', ⟨-, k', -, hmap', -⟩, hround'⟩ := hblock g hg
    rw [hround, hround']
    refine s.drv.maps_apart.forall hmap hmap' ?_
    intro heq
    exact hptrs (congrArg Mapping.va heq)

/-! ### The whole table -/

/-- Every block of the table is mapped and has its own live handle, and there are no other handles. -/
structure OneHandleEach (s : VGpu) : Prop where
  handled : ∀ p : Nat, s.globalHandleMap[p]?.isSome ↔ s.allocatedMemory[p]?.isSome
  mapped : ∀ p n h : Nat, s.allocatedMemory[p]? = some n → s.globalHandleMap[p]? = some h →
    ⟨p, roundUp2MB n, h, true⟩ ∈ s.drv.maps ∧ s.drv.isLive h = true
  injective : ∀ p q h : Nat, s.globalHandleMap[p]? = some h → s.globalHandleMap[q]? = some h → p = q

theorem OneHandleEach.mappedBlock {s : VGpu} (hs : s.OneHandleEach) {p n : Nat}
    (hp : s.allocatedMemory[p]? = some n) : s.MappedBlock p n := by
  obtain ⟨h, hh⟩ := Option.isSome_iff_exists.1 ((hs.handled p).2 (by simp [hp]))
  obtain ⟨hmap, hlive⟩ := hs.mapped p n h hp hh
  exact ⟨hp, h, hh, hmap, hlive, fun q hq => hs.injective q p h hq hh⟩

theorem ckptBlocks_ptrs (t : ExtTreeMap Nat Nat) : (ckptBlocks t).map Prod.fst = t.toList.map Prod.fst := by
  simp only [ckptBlocks, List.map_map]
  rfl

theorem mem_ckptBlocks {t : ExtTreeMap Nat Nat} {b : Nat × Nat} :
    b ∈ ckptBlocks t ↔ ∃ n, t[b.1]? = some n ∧ b.2 = roundUp2MB n := by
  obtain ⟨p, size⟩ := b
  simp only [ckptBlocks, List.mem_map, Prod.exists, Prod.mk.injEq]
  constructor
  · rintro ⟨q, n, hmem, rfl, rfl⟩
    exact ⟨n, ExtTreeMap.mem_toList_iff_getElem?_eq_some.1 hmem, rfl⟩
  · rintro ⟨n, hn, rfl⟩
    exact ⟨p, n, ExtTreeMap.mem_toList_iff_getElem?_eq_some.2 hn, rfl, rfl⟩

theorem ckptBlocks_dumpable {s : VGpu}
    (hs : ∀ p n : Nat, s.allocatedMemory[p]? = some n → s.MappedBlock p n) :
    Dumpable (ckptBlocks s.allocatedMemory) s := by
  refine ⟨?_, ?_⟩
  · rw [ckptBlocks_ptrs, List.nodup_iff_pairwise_ne, List.pairwise_map]
    exact s.allocatedMemory.distinct_keys_toList.imp fun h heq => h (by simp [heq])
  · intro b hb
    obtain ⟨n, hn, hsize⟩ := mem_ckptBlocks.1 hb
    exact ⟨n, hs _ _ hn, by rw [hsize, roundUp2MB_idem]⟩

theorem ckpt_spec {shmSize : Nat} {s : VGpu} (henv : s.drv.env.Reliable)
    (hs : ∀ p n : Nat, s.allocatedMemory[p]? = some n → s.MappedBlock p n)
    (hnum : s.allocatedMemory.size < maxFileNum)
    (hsize : dumpHeaderSize + totalSize (ckptBlocks s.allocatedMemory) ≤ shmSize) :
    ∃ s₁, s.ckpt shmSize = .ok s₁ ∧ Dumped (ckptBlocks s.allocatedMemory) s s₁ := by
  have hlen : (ckptBlocks s.allocatedMemory).length < maxFileNum := by
    rw [ckptBlocks, List.length_map, ExtTreeMap.length_toList]
    exact hnum
  obtain ⟨cmds, fs, s₀, s₁, hcmds, hloop, htab, -, hrelease, hdumped⟩ :=
    dump_spec wholeChunk henv (ckptBlocks_dumpable hs) hsize hlen
  refine ⟨s₁, ?_, hdumped⟩
  unfold ckpt
  rw [hcmds]
  show ({ s with fs := fs }.runCopyLoop cmds >>= _) = _
  rw [hloop]
  show releaseAll (s₀.allocatedMemory.toList.map Prod.fst) s₀ = _
  rw [htab, ← ckptBlocks_ptrs]
  exact hrelease

/-- **Full round trip.** A checkpoint and a restore bring back every byte of every physical block, for
every list of sizes and all contents of fresh memory. -/
theorem ckpt_restore_roundTrip (shmSize : Nat) (s : VGpu) (henv : s.drv.env.Reliable)
    (hs : s.OneHandleEach) (hnum : s.allocatedMemory.size < maxFileNum)
    (hsize : dumpHeaderSize + totalSize (ckptBlocks s.allocatedMemory) ≤ shmSize) :
    ∃ s₁ s₂, s.ckpt shmSize = .ok s₁ ∧ s₁.restorePtrAndContent = .ok s₂ ∧
      (∀ p n, s.allocatedMemory[p]? = some n → ∀ i < roundUp2MB n,
        s₂.drv.mem (p + i) = s.drv.mem (p + i)) ∧
      s₂.allocatedMemory = s.allocatedMemory ∧ s₂.OneHandleEach := by
  have hmapped : ∀ p n : Nat, s.allocatedMemory[p]? = some n → s.MappedBlock p n := fun p n hp =>
    hs.mappedBlock hp
  obtain ⟨s₁, hckpt, hdumped⟩ := ckpt_spec henv hmapped hnum hsize
  obtain ⟨s₁', s₂, hremap, hcopy, -, hrestored⟩ := restore_spec wholeChunk (hdumped.env ▸ henv)
    hdumped.fileList hdumped.currentOffset (hdumped.parked (ckptBlocks_dumpable hmapped))
  refine ⟨s₁, s₂, hckpt, ?_, ?_, hrestored.allocatedMemory.trans hdumped.allocatedMemory, ?_⟩
  · unfold restorePtrAndContent
    rw [hremap]
    exact hcopy
  · intro p n hp i hi
    have hb : (p, roundUp2MB n) ∈ ckptBlocks s.allocatedMemory := mem_ckptBlocks.2 ⟨n, hp, rfl⟩
    obtain ⟨f, hf, h1, h2⟩ := exists_file_of_mem dumpHeaderSize hb
    rw [← hdumped.fileList] at hf
    have hlt : i < f.size := by rw [h2]; exact hi
    rw [← show f.ptr = p from h1, hrestored.content f hf i hlt]
    exact hdumped.image f hf i hlt
  · -- outside the table there is nothing, before and after
    have hkeys : ∀ p n, s.allocatedMemory[p]? = some n →
        (p, roundUp2MB n) ∈ ckptBlocks s.allocatedMemory := fun p n hp => mem_ckptBlocks.2 ⟨n, hp, rfl⟩
    have hin : ∀ p : Nat, p ∈ (ckptBlocks s.allocatedMemory).map Prod.fst ↔ s.allocatedMemory[p]?.isSome := by
      intro p
      rw [List.mem_map, Option.isSome_iff_exists]
      constructor
      · rintro ⟨b, hb, rfl⟩
        obtain ⟨n, hn, -⟩ := mem_ckptBlocks.1 hb
        exact ⟨n, hn⟩
      · rintro ⟨n, hn⟩
        exact ⟨_, hkeys p n hn, rfl⟩
    have hhandled : ∀ p : Nat, s₂.globalHandleMap[p]?.isSome ↔ s.allocatedMemory[p]?.isSome := by
      intro p
      by_cases hp : s.allocatedMemory[p]?.isSome
      · obtain ⟨n, hn⟩ := Option.isSome_iff_exists.1 hp
        obtain ⟨h, hh, -⟩ := hrestored.mapped _ (hkeys p n hn)
        simp only at hh
        simp [hh, hn]
      · have hout : p ∉ (ckptBlocks s.allocatedMemory).map Prod.fst := fun hmem => hp ((hin p).1 hmem)
        rw [hrestored.handles p hout, hdumped.handles p hout]
        exact hs.handled p
    have htab' : s₂.allocatedMemory = s.allocatedMemory :=
      hrestored.allocatedMemory.trans hdumped.allocatedMemory
    refine ⟨?_, ?_, ?_⟩
    · rw [htab']
      exact hhandled
    · intro p n h hp hh
      rw [htab'] at hp
      obtain ⟨h', hh', hmap, hlive⟩ := hrestored.mapped _ (hkeys p n hp)
      obtain rfl : h' = h := Option.some.inj (hh'.symm.trans hh)
      rw [roundUp2MB_idem] at hmap
      exact ⟨hmap, hlive⟩
    · intro p q h hp hq
      obtain ⟨n, hn⟩ := Option.isSome_iff_exists.1 ((hhandled p).1 (by simp [hp]))
      obtain ⟨n', hn'⟩ := Option.isSome_iff_exists.1 ((hhandled q).1 (by simp [hq]))
      exact hrestored.distinct _ (hkeys p n hn) _ (hkeys q n' hn') (hp.trans hq.symm)

/-- Two blocks, of three bytes and of one granule and a byte. -/
def twoBlocks : VGpu where
  allocatedMemory := ((∅ : ExtTreeMap Nat Nat).insert 0x200000 3).insert 0x600000 0x200001
  globalHandleMap := ((∅ : ExtTreeMap Nat Nat).insert 0x200000 7).insert 0x600000 9
  drv :=
    { env := ⟨fun _ => false, id, fun _ _ => 0xAA⟩
      clock := 0
      mem := fun a => UInt8.ofNat a
      maps := [⟨0x200000, 0x200000, 7, true⟩, ⟨0x600000, 0x400000, 9, true⟩]
      live := [(7, 0x200000), (9, 0x400000)]
      maps_apart := by decide
      maps_pos := by decide }
  fs := ⟨0, 0, fun _ => ⟨0, 0, 0⟩⟩
  staging := fun _ _ => 0
  dump := fun _ => 0

theorem twoBlocks_oneHandleEach : twoBlocks.OneHandleEach := by
  refine ⟨?_, ?_, ?_⟩
  · intro p
    simp only [twoBlocks, ExtTreeMap.getElem?_insert, ExtTreeMap.getElem?_empty]
    split_ifs <;> simp
  · intro p n h hp hh
    simp only [twoBlocks, ExtTreeMap.getElem?_insert, ExtTreeMap.getElem?_empty] at hp hh
    split_ifs at hp hh with h1 h2
    · simp only [Nat.compare_eq_eq, Option.some.injEq] at h1 hp hh
      subst h1 hp hh
      decide
    · simp only [Nat.compare_eq_eq, Option.some.injEq] at h2 hp hh
      subst h2 hp hh
      decide
  · intro p q h hp hq
    simp only [twoBlocks, ExtTreeMap.getElem?_insert, ExtTreeMap.getElem?_empty] at hp hq
    split_ifs at hp hq <;> simp only [Nat.compare_eq_eq, Option.some.injEq] at * <;> omega

theorem ckpt_restore_twoBlocks :
    ∃ s₁ s₂, twoBlocks.ckpt shmSizeDefault = .ok s₁ ∧ s₁.restorePtrAndContent = .ok s₂ ∧
      s₂.drv.mem 0x200002 = twoBlocks.drv.mem 0x200002 := by
  obtain ⟨s₁, s₂, h1, h2, h3, -⟩ := ckpt_restore_roundTrip shmSizeDefault twoBlocks (fun _ => rfl)
    twoBlocks_oneHandleEach (by decide) (by decide)
  exact ⟨s₁, s₂, h1, h2, h3 0x200000 3 (by decide) 2 (by decide)⟩

end VGpu

end GpuCr
