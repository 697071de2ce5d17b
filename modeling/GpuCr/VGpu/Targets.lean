import GpuCr.VGpu.Messages

/-!
# Checkpoints of mapped blocks

What a run keeps (`Tracked`) as long as no message meets a block in a state it does not expect
(`Allowed`): every block of the table is either mapped under a handle of its own or parked, with nothing
in its range. Allocating and freeing keep it always, checkpoints because the blocks they park were mapped,
restores because the files of the dump are still the blocks they were. Then no message ends in `exit`,
and every copy and every unmapping of a checkpoint hits mapped memory (`targetsMapped_run`).
-/

namespace GpuCr

open Lib Lib.AsyncStream Lib.Run Std

namespace VGpu

/-! ### Blocks are mapped or parked -/

structure BlocksTracked (v : VGpu) : Prop where
  handled : ∀ p h : Nat, v.globalHandleMap[p]? = some h → ∃ n, v.allocatedMemory[p]? = some n
  blocks : ∀ p n : Nat, v.allocatedMemory[p]? = some n → v.MappedBlock p n ∨ v.ParkedBlock p n

theorem BlocksTracked.mappedBlock {v : VGpu} (hv : v.BlocksTracked) {p n : Nat}
    (hp : v.allocatedMemory[p]? = some n) (hh : v.globalHandleMap[p]?.isSome) : v.MappedBlock p n := by
  rcases hv.blocks p n hp with h | ⟨-, hnone, -⟩
  · exact h
  · rw [hnone] at hh
    exact absurd hh (by simp)

theorem BlocksTracked.of_parkedAt {ptrs : List Nat} {v v' : VGpu} (hv : v.BlocksTracked)
    (h : ParkedAt ptrs v v') : v'.BlocksTracked := by
  refine ⟨?_, ?_⟩
  · intro p k hk
    have hout : p ∉ ptrs := by
      intro hin
      rw [h.unhandled p hin] at hk
      exact absurd hk (by simp)
    rw [h.allocatedMemory]
    exact hv.handled p k ((h.handles p hout).symm.trans hk)
  · intro p n hp
    rw [h.allocatedMemory] at hp
    rcases hv.blocks p n hp with hm | hm
    · by_cases hin : p ∈ ptrs
      · exact Or.inr (h.parkedBlock hm hin)
      · exact Or.inl (h.mappedBlock hm hin)
    · exact Or.inr (h.stillParked hm)

theorem BlocksTracked.of_remapped {v v' : VGpu} {p n h : Nat} (hv : v.BlocksTracked)
    (htab : ∀ q : Nat, v'.allocatedMemory[q]? = if q = p then some n else v.allocatedMemory[q]?)
    (hhandles : ∀ q : Nat, v'.globalHandleMap[q]? = if q = p then some h else v.globalHandleMap[q]?)
    (hre : Remapped v.drv v'.drv p (roundUp2MB n) h)
    (hapart : ∀ q m : Nat, v.allocatedMemory[q]? = some m → q ≠ p →
      p + roundUp2MB n ≤ q ∨ q + roundUp2MB m ≤ p) : v'.BlocksTracked := by
  -- the new handle is not one that a block has
  have hnew : ∀ q : Nat, v.globalHandleMap[q]? ≠ some h := by
    intro q hq
    obtain ⟨m, hm⟩ := hv.handled q h hq
    obtain ⟨-, k, hk, -, hlive, -⟩ := hv.mappedBlock hm (by simp [hq])
    obtain rfl : k = h := Option.some.inj (hk.symm.trans hq)
    rw [hre.fresh] at hlive
    exact absurd hlive (by simp)
  refine ⟨?_, ?_⟩
  · intro q k hk
    rw [hhandles] at hk
    rw [htab]
    split_ifs at hk ⊢ with hq
    · exact ⟨n, rfl⟩
    · exact hv.handled q k hk
  · intro q m hm
    rw [htab] at hm
    by_cases hq : q = p
    · subst hq
      rw [if_pos rfl] at hm
      obtain rfl := Option.some.inj hm
      refine Or.inl ⟨?_, h, ?_, (hre.maps _).2 (Or.inl rfl), ?_, ?_⟩
      · rw [htab, if_pos rfl]
      · rw [hhandles, if_pos rfl]
      · rw [hre.live]
        simp
      · intro r hr
        by_contra hne
        rw [hhandles, if_neg hne] at hr
        exact hnew r hr
    · rw [if_neg hq] at hm
      rcases hv.blocks q m hm with ⟨htab', k, hk, hmap, hlive, hinj⟩ | ⟨htab', hnone, hpos, hfree⟩
      · refine Or.inl ⟨?_, k, ?_, (hre.maps _).2 (Or.inr hmap), ?_, ?_⟩
        · rw [htab, if_neg hq]
          exact hm
        · rw [hhandles, if_neg hq]
          exact hk
        · rw [hre.live, hlive, Bool.true_or]
        · intro r hr
          rw [hhandles] at hr
          split_ifs at hr with hrp
          · obtain rfl := Option.some.inj hr
            exact absurd hk (hnew q)
          · exact hinj r hr
      · refine Or.inr ⟨?_, ?_, hpos, ?_⟩
        · rw [htab, if_neg hq]
          exact hm
        · rw [hhandles, if_neg hq]
          exact hnone
        · intro m' hm'
          rcases (hre.maps m').1 hm' with rfl | hm'
          · exact (hapart q m hm hq).symm
          · exact hfree m' hm'

end VGpu

namespace HookedGpu

/-! ### What a run keeps -/

structure Tracked (s : HookedGpu) : Prop extends Reserved s where
  env : s.drv.env.Reliable
  typed : ∀ p n : Nat, s.allocatedMemory[p]? = some n → s.allocatedMemoryType[p]? = some 1
  covered : ∀ m ∈ s.drv.maps, ∃ r ∈ s.reserved, r.1 ≤ m.va ∧ m.va + m.size ≤ r.1 + r.2
  blocks : s.toVGpu.BlocksTracked
  header : ∃ offset blocks, s.fs.fileList = layout offset blocks ∧
    s.fs.currentOffset = offset + totalSize blocks

theorem Fresh.tracked {s : HookedGpu} (h : s.Fresh) (henv : s.drv.env.Reliable) : s.Tracked := by
  refine ⟨h.reserved, henv, ?_, h.covered, ⟨?_, ?_⟩, s.fs.currentOffset, [], ?_, rfl⟩
  · intro p n hp
    rw [h.table] at hp
    exact absurd hp (by simp)
  · intro p k hk
    rw [h.handles] at hk
    exact absurd hk (by simp)
  · intro p n hp
    rw [h.table] at hp
    exact absurd hp (by simp)
  · rw [SharedMemFs.fileList, h.fileNum]
    rfl

/-- A message changes neither the table nor the reservations, so a state is tracked as soon as its
mappings are old ones or those of blocks. -/
theorem Tracked.of_vgpu {s : HookedGpu} (hs : s.Tracked) {v : VGpu}
    (htab : v.allocatedMemory = s.allocatedMemory) (henv : v.drv.env = s.drv.env)
    (hmaps : ∀ m ∈ v.drv.maps, m ∈ s.drv.maps ∨
      ∃ n, s.allocatedMemory[m.va]? = some n ∧ m.size = roundUp2MB n)
    (hblocks : v.BlocksTracked)
    (hheader : ∃ offset blocks, v.fs.fileList = layout offset blocks ∧
      v.fs.currentOffset = offset + totalSize blocks) : ({ s with toVGpu := v } : HookedGpu).Tracked := by
  refine ⟨⟨htab ▸ hs.block, htab ▸ hs.pos, hs.apart⟩, henv ▸ hs.env, htab ▸ hs.typed, ?_, hblocks, hheader⟩
  intro m hm
  rcases hmaps m hm with hm | ⟨n, hn, hsize⟩
  · exact hs.covered m hm
  · exact ⟨_, hs.block _ n hn, le_rfl, by rw [hsize]⟩

/-! ### The application -/

theorem Tracked.free_of_fresh {s : HookedGpu} (hs : s.Tracked) {va size : Nat}
    (hfresh : ∀ r ∈ s.reserved, rangeApart (va, size) r) :
    ∀ m ∈ s.drv.maps, va + size ≤ m.va ∨ m.va + m.size ≤ va := by
  intro m hm
  obtain ⟨r, hr, h1, h2⟩ := hs.covered m hm
  have hapart := hfresh r hr
  unfold rangeApart at hapart
  simp only at hapart
  omega

theorem Tracked.allocateVmm_spec {s : HookedGpu} (hs : s.Tracked) {alignedSize : Nat} (size : Nat)
    (hpos : 0 < alignedSize) :
    ∃ va h drv, (∀ r ∈ s.reserved, rangeApart (va, alignedSize) r) ∧
      VGpu.Remapped s.drv drv va alignedSize h ∧
      s.allocateVmm size alignedSize = (some va,
        { s with
          drv := drv
          globalHandleMap := s.globalHandleMap.insert va h
          allocatedMemory := s.allocatedMemory.insert va size
          allocatedMemoryType := s.allocatedMemoryType.insert va 1
          reserved := (va, alignedSize) :: s.reserved }) := by
  have hfresh := nextVa_apart s alignedSize
  have hreserve : s.cuMemAddressReserve alignedSize = (some (s.nextVa alignedSize),
      { s.tick with reserved := (s.nextVa alignedSize, alignedSize) :: s.reserved }) := if_pos ⟨hpos, hs.env _⟩
  generalize s.nextVa alignedSize = va at hfresh hreserve
  obtain ⟨h, d₁, d₂, d₃, hcreate, hmap, hgrant, hre⟩ :=
    VGpu.createMapAccess_spec (d := s.tick.drv) hs.env hpos (hs.free_of_fresh hfresh)
  refine ⟨va, h, d₃, hfresh, ⟨hre.env, hre.mem, hre.maps, hre.fresh, hre.live⟩, ?_⟩
  unfold allocateVmm
  rw [hreserve]
  dsimp only
  unfold allocateAt
  rw [hcreate]
  dsimp only
  rw [hmap]
  dsimp only
  rw [hgrant]
  rfl

theorem tracked_cudaMalloc {s : HookedGpu} (hs : s.Tracked) (size : Nat) : (s.cudaMalloc size).2.Tracked := by
  have hreserved := reserved_cudaMalloc hs.toReserved size
  unfold cudaMalloc at hreserved ⊢
  split_ifs at hreserved ⊢ with hz
  · exact hs
  obtain ⟨va, h, drv, hfresh, hre, heq⟩ := hs.allocateVmm_spec size (roundUp2MB_pos (Nat.pos_of_ne_zero hz))
  rw [heq] at hreserved ⊢
  refine ⟨hreserved, ?_, ?_, ?_, ?_, hs.header⟩
  · exact hre.env ▸ hs.env
  · intro p n hp
    simp only [getElem?_insert_key] at hp ⊢
    split_ifs at hp ⊢
    · rfl
    · exact hs.typed p n hp
  · intro m hm
    rcases (hre.maps m).1 hm with rfl | hm
    · exact ⟨_, List.mem_cons_self .., le_rfl, le_rfl⟩
    · obtain ⟨r, hr, hin⟩ := hs.covered m hm
      exact ⟨r, List.mem_cons_of_mem _ hr, hin⟩
  · refine hs.blocks.of_remapped (p := va) (n := size) (h := h) ?_ ?_ hre ?_
    · intro q
      exact getElem?_insert_key ..
    · intro q
      exact getElem?_insert_key ..
    · intro q m hq _
      exact hfresh _ (hs.block q m hq)

theorem parkedAt_of_unmapped {v : VGpu} {drv : Driver} {p h : Nat} (hh : v.globalHandleMap[p]? = some h)
    (hun : VGpu.Unmapped v.drv drv p h) :
    VGpu.ParkedAt [p] v { v with drv := drv, globalHandleMap := v.globalHandleMap.erase p } := by
  refine ⟨rfl, ?_, ?_, ?_, ?_, ?_⟩
  · intro q hq
    rw [getElem?_erase_key, if_neg (List.mem_singleton.not.1 hq)]
  · intro m hm
    exact (hun.maps m).trans (and_iff_left (List.mem_singleton.not.1 hm))
  · intro m hm
    exact List.mem_singleton.not.2 ((hun.maps m).1 hm).2
  · intro q hq
    rw [List.mem_singleton.1 hq]
    exact ExtTreeMap.getElem?_erase_self
  · intro k
    rw [hun.live]
    simp only [List.mem_singleton, forall_eq, hh, Bool.and_eq_true, bne_iff_ne, Option.some.injEq, ne_eq]
    exact and_congr_right fun _ => not_congr eq_comm

theorem blocksTracked_erase {v v' : VGpu} {p : Nat} (hv : v.BlocksTracked)
    (htab : v'.allocatedMemory = v.allocatedMemory.erase p) (hnone : v.globalHandleMap[p]? = none)
    (hhandles : v'.globalHandleMap = v.globalHandleMap) (hmaps : v'.drv.maps = v.drv.maps)
    (hlive : v'.drv.live = v.drv.live) : v'.BlocksTracked := by
  have hold : ∀ q n : Nat, q ≠ p → v.allocatedMemory[q]? = some n → v'.allocatedMemory[q]? = some n := by
    intro q n hne hq
    rw [htab, getElem?_erase_key, if_neg hne]
    exact hq
  refine ⟨?_, ?_⟩
  · intro q k hk
    rw [hhandles] at hk
    obtain ⟨n, hn⟩ := hv.handled q k hk
    refine ⟨n, hold q n ?_ hn⟩
    rintro rfl
    rw [hnone] at hk
    exact absurd hk (by simp)
  · intro q n hq
    rw [htab, getElem?_erase_key] at hq
    split_ifs at hq with hne
    rcases hv.blocks q n hq with ⟨-, k, hk, hmap, hl, hinj⟩ | ⟨-, hn, hpos, hfree⟩
    · refine Or.inl ⟨hold q n hne hq, k, hhandles ▸ hk, hmaps ▸ hmap, ?_, hhandles ▸ hinj⟩
      rw [Driver.isLive, hlive]
      exact hl
    · exact Or.inr ⟨hold q n hne hq, hhandles ▸ hn, hpos, hmaps ▸ hfree⟩

theorem freePhysical_mapped {s : HookedGpu} (henv : s.drv.env.Reliable) {ptr alignedSize h : Nat}
    (hh : s.globalHandleMap[ptr]? = some h) (hmap : ⟨ptr, alignedSize, h, true⟩ ∈ s.drv.maps)
    (hlive : s.drv.isLive h = true) :
    ∃ drv, VGpu.Unmapped s.drv drv ptr h ∧
      (s.freePhysical ptr alignedSize).toVGpu =
        { s.toVGpu with drv := drv, globalHandleMap := s.globalHandleMap.erase ptr } ∧
      (s.freePhysical ptr alignedSize).allocatedMemoryType = s.allocatedMemoryType := by
  obtain ⟨d₁, d₂, hunmap, hrelease, hun⟩ := VGpu.unmapRelease_spec henv hmap hlive
  refine ⟨{ d₂ with clock := d₂.clock + 1 }, ⟨hun.env, hun.mem, hun.maps, hun.live⟩, ?_, ?_⟩
  · unfold freePhysical
    rw [hh]
    dsimp only
    rw [hunmap]
    dsimp only
    rw [hrelease, cuMemAddressFree_toVGpu]
    rfl
  · unfold freePhysical
    rw [hh]
    dsimp only
    unfold cuMemAddressFree
    split_ifs <;> rfl

theorem tracked_cudaFree {s : HookedGpu} (hs : s.Tracked) (ptr : Nat) : (s.cudaFree ptr).Tracked := by
  have hreserved := reserved_cudaFree hs.toReserved ptr
  cases hptr : s.allocatedMemory[ptr]? with
  | none =>
    rw [cudaFree_unknown hptr]
    exact hs
  | some n =>
    have hres := (cudaFree_freed hptr).reserved
    have htyped : ∀ p m : Nat, (s.allocatedMemory.erase ptr)[p]? = some m →
        (s.allocatedMemoryType.erase ptr)[p]? = some 1 := by
      intro p m hp
      rw [getElem?_erase_key] at hp ⊢
      split_ifs at hp ⊢
      exact hs.typed p m hp
    unfold cudaFree at hreserved hres ⊢
    rw [hptr] at hreserved hres ⊢
    dsimp only at hreserved hres ⊢
    rw [if_pos (hs.typed ptr n hptr)] at hreserved hres ⊢
    rcases hs.blocks.blocks ptr n hptr with ⟨-, h, hh, hmap, hlive, hinj⟩ | ⟨-, hnone, -, -⟩
    · -- the block is mapped: its mapping and its handle go, with the range or without it
      obtain ⟨drv, hun, htoVGpu, htypes⟩ := freePhysical_mapped hs.env hh hmap hlive
      generalize s.freePhysical ptr (roundUp2MB n) = s' at hreserved hres htoVGpu htypes ⊢
      obtain ⟨v', types', reserved', pickVa'⟩ := s'
      dsimp only at htoVGpu htypes hres
      subst htoVGpu htypes
      have hparked := parkedAt_of_unmapped hh hun
      refine ⟨hreserved, hun.env ▸ hs.env, htyped, ?_, ?_, hs.header⟩
      · intro m hm
        obtain ⟨hm, hva⟩ := (hun.maps m).1 hm
        obtain ⟨r, hr, h1, h2⟩ := hs.covered m hm
        refine ⟨r, ?_, h1, h2⟩
        rcases hres with hres | hres
        · exact hres ▸ hr
        · show r ∈ reserved'
          rw [hres]
          refine (List.mem_erase_of_ne ?_).2 hr
          -- the range of the block held nothing but the block
          rintro rfl
          have hapart := s.drv.maps_apart.forall hmap hm fun heq => hva (congrArg Mapping.va heq).symm
          have hpos := s.drv.maps_pos m hm
          unfold Mapping.apart at hapart
          simp only at hapart h1 h2
          omega
      · exact blocksTracked_erase (hs.blocks.of_parkedAt hparked) rfl
          (hparked.unhandled ptr (List.mem_singleton_self ptr)) rfl rfl rfl
    · have hsame : s.freePhysical ptr (roundUp2MB n) = s := by
        unfold freePhysical
        rw [hnone]
      rw [hsame] at hreserved ⊢
      exact ⟨hreserved, hs.env, htyped, hs.covered, blocksTracked_erase hs.blocks rfl hnone rfl rfl rfl, hs.header⟩

/-! ### The messages -/

/-- What a message relies on in the state it finds: the blocks a checkpoint takes have physical memory
and their dump fits; the files of a restore are blocks of the same physical size. -/
def Allowed (shmSize : Nat) (s : HookedGpu) : GpuMsg → Prop
  | .ckpt => (∀ p : Nat, s.allocatedMemory[p]?.isSome → s.globalHandleMap[p]?.isSome) ∧
      s.allocatedMemory.size < maxFileNum ∧
      dumpHeaderSize + totalSize (VGpu.ckptBlocks s.allocatedMemory) ≤ shmSize
  | .selectiveCkpt req =>
      (∀ b ∈ VGpu.requestedBlocks s.allocatedMemory req, s.globalHandleMap[b.1]?.isSome) ∧
      (VGpu.requestedBlocks s.allocatedMemory req).length < maxFileNum ∧
      dumpHeaderSize + totalSize (VGpu.requestedBlocks s.allocatedMemory req) ≤ shmSize
  | .restore | .selectiveRestore => ∀ f ∈ s.fs.fileList, ∃ n, s.allocatedMemory[f.ptr]? = some n ∧
      roundUp2MB f.size = roundUp2MB n

theorem Tracked.of_dumped {s : HookedGpu} (hs : s.Tracked) {blocks : List (Nat × Nat)} {v : VGpu}
    (h : VGpu.Dumped blocks s.toVGpu v) : ({ s with toVGpu := v } : HookedGpu).Tracked :=
  hs.of_vgpu h.allocatedMemory h.env (fun _ hm => Or.inl (h.parkedAt.maps_subset hm))
    (hs.blocks.of_parkedAt h.parkedAt) ⟨dumpHeaderSize, blocks, h.fileList, h.currentOffset⟩

theorem Tracked.mapNewPhysical_spec {s : HookedGpu} (hs : s.Tracked) {p n : Nat}
    (hp : s.toVGpu.ParkedBlock p n) :
    ∃ v, s.toVGpu.mapNewPhysical p (roundUp2MB n) = .ok v ∧ ({ s with toVGpu := v } : HookedGpu).Tracked ∧
      v.allocatedMemory = s.allocatedMemory ∧ v.fs = s.fs ∧
      ∀ q : Nat, (q = p ∨ s.globalHandleMap[q]?.isSome) → v.globalHandleMap[q]?.isSome := by
  obtain ⟨htab, hnone, hpos, hfree⟩ := hp
  obtain ⟨drv, h, hmap, hre⟩ := VGpu.mapNewPhysical_spec hs.env hpos hfree
  refine ⟨_, hmap, ?_, rfl, rfl, ?_⟩
  · refine hs.of_vgpu rfl hre.env ?_ ?_ hs.header
    · intro m hm
      rcases (hre.maps m).1 hm with rfl | hm
      · exact Or.inr ⟨n, htab, rfl⟩
      · exact Or.inl hm
    · refine hs.blocks.of_remapped (p := p) (n := n) (h := h) ?_ (getElem?_insert_key _ _ _) hre ?_
      · intro q
        split_ifs with hq
        · exact hq ▸ htab
        · rfl
      · intro q m hq hne
        exact (hs.tableApart p q n m htab hq hne.symm)
  · intro q hq
    show (s.globalHandleMap.insert p h)[q]?.isSome
    rw [getElem?_insert_key]
    split_ifs with hqp
    · rfl
    · exact hq.resolve_left hqp

theorem Tracked.remapPhysicalMemory_spec {s : HookedGpu} (hs : s.Tracked) {p n size : Nat}
    (hp : s.allocatedMemory[p]? = some n) (hsize : roundUp2MB size = roundUp2MB n) :
    ∃ v, s.toVGpu.remapPhysicalMemory p size = .ok v ∧ ({ s with toVGpu := v } : HookedGpu).Tracked ∧
      v.allocatedMemory = s.allocatedMemory ∧ v.fs = s.fs ∧
      ∀ q : Nat, (q = p ∨ s.globalHandleMap[q]?.isSome) → v.globalHandleMap[q]?.isSome := by
  unfold VGpu.remapPhysicalMemory
  rw [hp]
  dsimp only
  rw [hsize]
  rcases hs.blocks.blocks p n hp with hm | hpark
  · obtain ⟨-, h, hh, hmap, hlive, -⟩ := id hm
    obtain ⟨drv, hrel, hun⟩ := VGpu.unmapAndRelease_spec hs.env hh hmap hlive
    have hparked := parkedAt_of_unmapped hh hun
    have hs₁ : ({ s with
        drv := drv
        globalHandleMap := s.globalHandleMap.erase p } : HookedGpu).Tracked :=
      hs.of_vgpu rfl hun.env (fun _ hm => Or.inl (hparked.maps_subset hm)) (hs.blocks.of_parkedAt hparked)
        hs.header
    obtain ⟨v, hnew, htracked, htab, hfs, hhandles⟩ :=
      hs₁.mapNewPhysical_spec (hparked.parkedBlock hm (List.mem_singleton_self p))
    refine ⟨v, ?_, htracked, htab, hfs, ?_⟩
    · rw [if_pos (by rw [hh]; rfl), hrel]
      exact hnew
    · intro q hq
      apply hhandles
      by_cases hqp : q = p
      · exact Or.inl hqp
      · right
        show (s.globalHandleMap.erase p)[q]?.isSome
        rw [getElem?_erase_key, if_neg hqp]
        exact hq.resolve_left hqp
  · rw [if_neg (by rw [hpark.2.1]; simp)]
    exact hs.mapNewPhysical_spec hpark

theorem Tracked.remapAll_spec {s : HookedGpu} (hs : s.Tracked) {files : List SharedMemFile}
    (hfiles : ∀ f ∈ files, ∃ n, s.allocatedMemory[f.ptr]? = some n ∧ roundUp2MB f.size = roundUp2MB n) :
    ∃ v, VGpu.remapAll files s.toVGpu = .ok v ∧ ({ s with toVGpu := v } : HookedGpu).Tracked ∧
      v.allocatedMemory = s.allocatedMemory ∧ v.fs = s.fs ∧
      ∀ q : Nat, ((∃ f ∈ files, f.ptr = q) ∨ s.globalHandleMap[q]?.isSome) → v.globalHandleMap[q]?.isSome := by
  induction files generalizing s with
  | nil =>
    refine ⟨s.toVGpu, rfl, hs, rfl, rfl, fun q hq => ?_⟩
    exact hq.resolve_left (by simp)
  | cons f files ih =>
    obtain ⟨n, hn, hsize⟩ := hfiles f (List.mem_cons_self ..)
    obtain ⟨v, hremap, hv, htab, hfs, hhandles⟩ := hs.remapPhysicalMemory_spec hn hsize
    obtain ⟨v', hrest, hv', htab', hfs', hhandles'⟩ := ih hv fun g hg =>
      htab.symm ▸ hfiles g (List.mem_cons_of_mem _ hg)
    refine ⟨v', ?_, hv', htab'.trans htab, hfs'.trans hfs, ?_⟩
    · unfold VGpu.remapAll at hrest ⊢
      rw [List.foldlM_cons, hremap]
      exact hrest
    · rintro q (⟨g, hg, rfl⟩ | hq)
      · rcases List.mem_cons.1 hg with rfl | hg
        · exact hhandles' _ (Or.inr (hhandles _ (Or.inl rfl)))
        · exact hhandles' _ (Or.inl ⟨g, hg, rfl⟩)
      · exact hhandles' q (Or.inr (hhandles q (Or.inr hq)))

theorem Tracked.restore_spec {s : HookedGpu} (hs : s.Tracked) (rule : ChunkRule)
    (hfiles : ∀ f ∈ s.fs.fileList, ∃ n, s.allocatedMemory[f.ptr]? = some n ∧
      roundUp2MB f.size = roundUp2MB n) :
    ∃ v v', VGpu.remapAll s.fs.fileList s.toVGpu = .ok v ∧
      v.runCopyLoop (restoreCmds rule v.fs) = .ok v' ∧ ({ s with toVGpu := v' } : HookedGpu).Tracked := by
  obtain ⟨v, hremap, hv, htab, hfs, hhandles⟩ := hs.remapAll_spec hfiles
  obtain ⟨offset, blocks, hlist, -⟩ := hv.header
  have hcopies : ∀ r ∈ devRanges (restoreCmds rule v.fs), v.drv.accessible r.1 r.2 = true := by
    intro r hr
    obtain ⟨f, hf, h1, h2⟩ := restoreCmds_copies rule v.fs hr
    rw [hfs] at hf
    obtain ⟨n, hn, hsize⟩ := hfiles f hf
    obtain ⟨-, k, -, hmap, -⟩ := hv.blocks.mappedBlock (htab.symm ▸ hn) (hhandles _ (Or.inl ⟨f, hf, rfl⟩))
    have := le_roundUp2MB f.size
    exact VGpu.accessible_of_mem hmap rfl h1 (by simp only; omega)
  have hloop := VGpu.runCopyLoop_ok hv.env hcopies (restoreCmds_asserts rule hlist)
  exact ⟨v, _, hremap, hloop, hv.of_vgpu rfl rfl (fun _ hm => Or.inl hm)
    ⟨hv.blocks.handled, hv.blocks.blocks⟩ hv.header⟩

theorem tracked_msg {shmSize : Nat} {s : HookedGpu} (hs : s.Tracked) {m : GpuMsg} (hm : Allowed shmSize s m) :
    ∃ s', s.crSignalHandler shmSize m = .ok s' ∧ s'.Tracked := by
  suffices hop : ∃ v, operation shmSize m s.toVGpu = .ok v ∧ ({ s with toVGpu := v } : HookedGpu).Tracked by
    obtain ⟨v, h1, h2⟩ := hop
    exact ⟨_, by rw [crSignalHandler, h1]; rfl, h2⟩
  cases m with
  | ckpt =>
    obtain ⟨hmapped, hnum, hsize⟩ := hm
    obtain ⟨v, hckpt, hdumped⟩ := VGpu.ckpt_spec hs.env
      (fun p n hp => hs.blocks.mappedBlock hp (hmapped p (by simp [hp]))) hnum hsize
    exact ⟨v, hckpt, hs.of_dumped hdumped⟩
  | selectiveCkpt req =>
    obtain ⟨hmapped, hnum, hsize⟩ := hm
    obtain ⟨v, hckpt, hdumped⟩ := VGpu.ckptSelective_spec hs.env hs.tableApart
      (fun b hb => hs.blocks.mappedBlock (VGpu.mem_requestedBlocks.1 hb).1 (hmapped b hb)) hnum hsize
    exact ⟨v, hckpt, hs.of_dumped hdumped⟩
  | restore =>
    obtain ⟨v, v', hremap, hloop, htracked⟩ := hs.restore_spec wholeChunk hm
    refine ⟨v', ?_, htracked⟩
    show VGpu.restorePtrAndContent s.toVGpu = .ok v'
    unfold VGpu.restorePtrAndContent
    rw [hremap]
    exact hloop
  | selectiveRestore =>
    obtain ⟨v, v', hremap, hloop, htracked⟩ := hs.restore_spec granuleChunk hm
    refine ⟨v', ?_, htracked⟩
    show VGpu.restorePtrAndContentSelective s.toVGpu = .ok v'
    unfold VGpu.restorePtrAndContentSelective
    rw [hremap]
    exact hloop

/-! ### Copies and unmappings -/

/-- Each `cuMemUnmap` of the loop over `ptrs` finds its block mapped at the moment it is issued. -/
def UnmapsMapped : List Nat → VGpu → Prop
  | [], _ => True
  | p :: ptrs, v => (∀ n, v.allocatedMemory[p]? = some n → v.drv.mappedAt p (roundUp2MB n) = true) ∧
      ∀ v', v.releasePhysicalMemory p = some v' → UnmapsMapped ptrs v'

/-- The same of the copies of a dump of `blocks`, and then of the release of `ptrs`. -/
def DumpTargetsMapped (rule : ChunkRule) (shmSize : Nat) (blocks : List (Nat × Nat)) (v : VGpu) : Prop :=
  ∀ cmds fs, dumpCmds rule shmSize blocks v.fs = .ok (cmds, fs) →
    (∀ r ∈ devRanges cmds, v.drv.accessible r.1 r.2 = true) ∧
    ∀ v', { v with fs := fs }.runCopyLoop cmds = .ok v' → UnmapsMapped (blocks.map Prod.fst) v'

/-- Every copy and every unmapping the checkpoint of the message issues targets mapped memory. -/
def TargetsMapped (shmSize : Nat) (s : HookedGpu) : GpuMsg → Prop
  | .ckpt => DumpTargetsMapped wholeChunk shmSize (VGpu.ckptBlocks s.allocatedMemory) s.toVGpu
  | .selectiveCkpt req => ∀ blocks, VGpu.selectiveBlocks s.allocatedMemory req = .ok blocks →
      DumpTargetsMapped granuleChunk shmSize blocks s.toVGpu
  | .restore | .selectiveRestore => True

theorem unmapsMapped_of_releaseAll {ptrs : List Nat} {v v' : VGpu} (h : VGpu.releaseAll ptrs v = .ok v') :
    UnmapsMapped ptrs v := by
  induction ptrs generalizing v with
  | nil => trivial
  | cons p ptrs ih =>
    have hmapped := (VGpu.releaseAll_inv h).2 p (List.mem_cons_self ..)
    unfold VGpu.releaseAll at h ih
    rw [List.foldlM_cons] at h
    obtain ⟨v₁, h1, h2⟩ := bind_eq_ok.1 h
    refine ⟨?_, ?_⟩
    · intro n hn
      obtain ⟨n', hn', hat⟩ := hmapped
      obtain rfl : n' = n := Option.some.inj (hn'.symm.trans hn)
      exact hat
    · intro v₂ hrel
      rw [hrel] at h1
      obtain rfl : v₂ = v₁ := Except.ok.inj h1
      exact ih h2

/-- A dump that runs through has met nothing unmapped. -/
theorem dumpTargetsMapped_of_ok {rule : ChunkRule} {shmSize : Nat} {blocks : List (Nat × Nat)}
    {cmds : List PipeCmd} {fs : SharedMemFs} {v v₁ v' : VGpu}
    (hcmds : dumpCmds rule shmSize blocks v.fs = .ok (cmds, fs))
    (hloop : { v with fs := fs }.runCopyLoop cmds = .ok v₁)
    (hrelease : VGpu.releaseAll (blocks.map Prod.fst) v₁ = .ok v') :
    DumpTargetsMapped rule shmSize blocks v := by
  intro cmds' fs' hcmds'
  obtain ⟨rfl, rfl⟩ := Prod.mk.inj (Except.ok.inj (hcmds.symm.trans hcmds'))
  refine ⟨(VGpu.runCopyLoop_inv hloop).1, ?_⟩
  intro v₂ hloop₂
  obtain rfl : v₁ = v₂ := Except.ok.inj (hloop.symm.trans hloop₂)
  exact unmapsMapped_of_releaseAll hrelease

theorem targetsMapped_of_ok {shmSize : Nat} {s s' : HookedGpu} {m : GpuMsg}
    (h : s.crSignalHandler shmSize m = .ok s') : TargetsMapped shmSize s m := by
  obtain ⟨v', hop, -⟩ := crSignalHandler_ok h
  cases m with
  | ckpt =>
    obtain ⟨⟨cmds, fs⟩, hcmds, hop⟩ := bind_eq_ok.1 hop
    obtain ⟨v₁, hloop, hrelease⟩ := bind_eq_ok.1 hop
    have htab : v₁.allocatedMemory = s.allocatedMemory := by
      obtain ⟨-, rfl⟩ := VGpu.runCopyLoop_inv hloop
      rfl
    rw [htab, ← VGpu.ckptBlocks_ptrs] at hrelease
    exact dumpTargetsMapped_of_ok hcmds hloop hrelease
  | selectiveCkpt req =>
    obtain ⟨blocks, hblocks, hop⟩ := bind_eq_ok.1 hop
    obtain ⟨⟨cmds, fs⟩, hcmds, hop⟩ := bind_eq_ok.1 hop
    obtain ⟨v₁, hloop, hrelease⟩ := bind_eq_ok.1 hop
    have hptrs : v₁.fs.fileList.map SharedMemFile.ptr = blocks.map Prod.fst := by
      obtain ⟨-, rfl⟩ := VGpu.runCopyLoop_inv hloop
      show fs.fileList.map SharedMemFile.ptr = _
      rw [(dumpCmds_inv hcmds).1, layout_ptrs]
    rw [hptrs] at hrelease
    intro blocks' hblocks'
    obtain rfl := Except.ok.inj (hblocks.symm.trans hblocks')
    exact dumpTargetsMapped_of_ok hcmds hloop hrelease
  | restore => trivial
  | selectiveRestore => trivial

/-- The condition on an event, and what is promised of it, in a state that has not exited. -/
def MsgMeets (P : HookedGpu → GpuMsg → Prop) (r : Except Exit HookedGpu) (e : GpuEvent) : Prop :=
  ∀ s m, r = .ok s → e = .msg m → P s m

/-- The handler returns, and no copy or unmapping misses. -/
def Safe (shmSize : Nat) (s : HookedGpu) (m : GpuMsg) : Prop :=
  TargetsMapped shmSize s m ∧ ∃ s', s.crSignalHandler shmSize m = .ok s'

theorem tracked_step {shmSize : Nat} {s : HookedGpu} (hs : s.Tracked) {e : GpuEvent}
    (he : MsgMeets (Allowed shmSize) (.ok s) e) : ∃ s', step shmSize (.ok s) e = .ok s' ∧ s'.Tracked := by
  cases e with
  | app call =>
    refine ⟨s.appStep call, rfl, ?_⟩
    cases call with
    | cudaMalloc size => exact tracked_cudaMalloc hs size
    | cudaFree ptr => exact tracked_cudaFree hs ptr
    | kernel mem =>
      exact ⟨⟨hs.block, hs.pos, hs.apart⟩, hs.env, hs.typed, hs.covered, ⟨hs.blocks.handled, hs.blocks.blocks⟩,
        hs.header⟩
  | msg m => exact tracked_msg hs (he s m rfl rfl)

/-- **Every copy and unmapping targets mapped memory**, in every run in which each message finds what it
relies on; and none of the messages ends the process. -/
theorem targetsMapped_run (shmSize : Nat) (s₀ : HookedGpu) (hfresh : s₀.Fresh)
    (henv : s₀.drv.env.Reliable) (events : List GpuEvent)
    (hok : AllSteps (MsgMeets (Allowed shmSize)) (step shmSize) (.ok s₀) events) :
    AllSteps (MsgMeets (Safe shmSize)) (step shmSize) (.ok s₀) events ∧
      ∃ s, run (step shmSize) (.ok s₀) events = .ok s := by
  have hs := hfresh.tracked henv
  clear hfresh henv
  induction events generalizing s₀ with
  | nil => exact ⟨trivial, s₀, rfl⟩
  | cons e events ih =>
    obtain ⟨s₁, hstep, hs₁⟩ := tracked_step hs hok.1
    have hrest := hok.2
    rw [hstep] at hrest
    obtain ⟨hsafe, s, hrun⟩ := ih s₁ hrest hs₁
    refine ⟨⟨?_, ?_⟩, s, ?_⟩
    · rintro s' m hs' rfl
      obtain rfl := Except.ok.inj hs'
      exact ⟨targetsMapped_of_ok hstep, s₁, hstep⟩
    · rw [hstep]
      exact hsafe
    · show run (step shmSize) (step shmSize (.ok s₀) e) events = .ok s
      rw [hstep]
      exact hrun

/-! ### A parked block ends the process -/

theorem not_accessible_of_parked {v : VGpu} {p n k : Nat} (hp : v.ParkedBlock p n) (hk : 0 < k)
    (hle : k ≤ roundUp2MB n) : v.drv.accessible p k = false := by
  obtain ⟨-, -, -, hfree⟩ := hp
  rw [Driver.accessible, List.any_eq_false]
  intro m hm
  have := hfree m hm
  simp only [Bool.and_eq_true, decide_eq_true_eq]
  omega

/-- A copy loop over a parked block does not get through. -/
theorem runCopyLoop_parked {rule : ChunkRule} {shmSize : Nat} {blocks : List (Nat × Nat)}
    {cmds : List PipeCmd} {fs : SharedMemFs} {v v' : VGpu} {b : Nat × Nat} {n : Nat}
    (hcmds : dumpCmds rule shmSize blocks v.fs = .ok (cmds, fs)) (hb : b ∈ blocks) (hpos : 0 < b.2)
    (hle : b.2 ≤ roundUp2MB n) (hp : v.ParkedBlock b.1 n) : { v with fs := fs }.runCopyLoop cmds ≠ .ok v' := by
  intro hloop
  obtain ⟨k, hk, hkb, hmem⟩ := dumpCmds_reaches hcmds hb hpos
  have hacc := (VGpu.runCopyLoop_inv hloop).1 _ hmem
  rw [show ({ v with fs := fs } : VGpu).drv.accessible b.1 k = false from
    not_accessible_of_parked hp hk (Nat.le_trans hkb hle)] at hacc
  exact absurd hacc (by simp)

theorem not_safe_ckpt {shmSize : Nat} {s : HookedGpu} {p n : Nat} (hp : s.toVGpu.ParkedBlock p n) :
    ¬Safe shmSize s .ckpt := by
  rintro ⟨-, s', h⟩
  obtain ⟨v, hop, -⟩ := crSignalHandler_ok h
  obtain ⟨⟨cmds, fs⟩, hcmds, hop⟩ := bind_eq_ok.1 hop
  obtain ⟨v₁, hloop, -⟩ := bind_eq_ok.1 hop
  have hb : (p, roundUp2MB n) ∈ VGpu.ckptBlocks s.allocatedMemory := VGpu.mem_ckptBlocks.2 ⟨n, hp.1, rfl⟩
  exact runCopyLoop_parked hcmds hb hp.2.2.1 le_rfl hp hloop

/-- A process with nothing allocated, on a driver that never fails. -/
def freshGpu : HookedGpu where
  allocatedMemory := ∅
  globalHandleMap := ∅
  drv :=
    { env := ⟨fun _ => false, id, fun _ _ => 0xAA⟩
      clock := 0
      mem := fun _ => 0
      maps := []
      live := []
      maps_apart := .nil
      maps_pos := Driver.maps_pos_nil }
  fs := ⟨0, dumpHeaderSize, fun _ => ⟨0, 0, 0⟩⟩
  staging := fun _ _ => 0
  dump := fun _ => 0
  allocatedMemoryType := ∅
  reserved := []
  pickVa := fun _ => 0x600000

theorem freshGpu_fresh : freshGpu.Fresh := ⟨rfl, rfl, rfl, rfl, .nil, by simp [freshGpu]⟩

/-- One allocation of three bytes. -/
def oneBlock : HookedGpu := (freshGpu.cudaMalloc 3).2

theorem oneBlock_table (p : Nat) : oneBlock.allocatedMemory[p]? = if p = 0x600000 then some 3 else none :=
  getElem?_insert_key ..

theorem oneBlock_handles (p : Nat) : oneBlock.globalHandleMap[p]? = if p = 0x600000 then some 1 else none :=
  getElem?_insert_key ..

theorem oneBlock_allowed : Allowed shmSizeDefault oneBlock .ckpt := by
  refine ⟨?_, by decide, by decide⟩
  intro p hp
  rw [oneBlock_table] at hp
  rw [oneBlock_handles]
  split_ifs at hp ⊢
  · rfl
  · exact hp

theorem targetsMapped_oneBlock :
    AllSteps (MsgMeets (Safe shmSizeDefault)) (step shmSizeDefault) (.ok freshGpu)
        [.app (.cudaMalloc 3), .msg .ckpt] ∧
      ∃ s, run (step shmSizeDefault) (.ok freshGpu) [.app (.cudaMalloc 3), .msg .ckpt] = .ok s := by
  refine targetsMapped_run shmSizeDefault freshGpu freshGpu_fresh (fun _ => rfl) _ ⟨?_, ?_, trivial⟩
  · rintro s m - heq
    exact absurd heq (by simp)
  · rintro s m hs heq
    obtain rfl : oneBlock = s := Except.ok.inj hs
    obtain rfl : GpuMsg.ckpt = m := GpuEvent.msg.inj heq
    exact oneBlock_allowed

/-- A second checkpoint copies from the block that the first one parked. -/
theorem not_targetsMapped : ¬∀ events : List GpuEvent,
    AllSteps (MsgMeets (Safe shmSizeDefault)) (step shmSizeDefault) (.ok freshGpu) events := by
  intro hall
  have hs : oneBlock.Tracked := tracked_cudaMalloc (freshGpu_fresh.tracked fun _ => rfl) 3
  obtain ⟨hmapped, hnum, hsize⟩ := oneBlock_allowed
  have htab : oneBlock.allocatedMemory[0x600000]? = some 3 := oneBlock_table _
  obtain ⟨v, hckpt, hdumped⟩ := VGpu.ckpt_spec hs.env
    (fun p n hp => hs.blocks.mappedBlock hp (hmapped p (by simp [hp]))) hnum hsize
  have hparked : v.ParkedBlock 0x600000 3 := by
    have hb : (0x600000, roundUp2MB 3) ∈ VGpu.ckptBlocks oneBlock.allocatedMemory :=
      VGpu.mem_ckptBlocks.2 ⟨3, htab, rfl⟩
    exact hdumped.parkedAt.parkedBlock (hs.blocks.mappedBlock htab rfl) (List.mem_map_of_mem hb)
  have hfirst : oneBlock.crSignalHandler shmSizeDefault .ckpt = .ok { oneBlock with toVGpu := v } := by
    unfold crSignalHandler
    show (VGpu.ckpt shmSizeDefault oneBlock.toVGpu).map _ = _
    rw [hckpt]
    rfl
  obtain ⟨-, -, hsecond, -⟩ := hall [.app (.cudaMalloc 3), .msg .ckpt, .msg .ckpt]
  exact not_safe_ckpt hparked (hsecond _ .ckpt hfirst rfl)

end HookedGpu

end GpuCr
