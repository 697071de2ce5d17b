import Mathlib.Algebra.BigOperators.Group.List.Defs
import GpuCr.VGpu.Bounds

/-!
# Capacity of the dump file

The header of the dump has `MAX_FILE_NUM` entries. Both checkpoints write an entry, count it, and give up if
the count has reached the limit: the last entry of the header can be written, and the process exits right after.
A checkpoint of mapped blocks that fit the file therefore completes exactly with fewer blocks than entries.
-/

namespace GpuCr

open Lib Lib.AsyncStream Lib.Run Std

namespace VGpu

/-- `ckpt` returns, and the header lists all blocks of the table. -/
def CkptCompletes (shmSize : Nat) (s : VGpu) : Prop :=
  ∃ s₁, s.ckpt shmSize = .ok s₁ ∧ fileBlocks s₁.fs.fileList = ckptBlocks s.allocatedMemory

/-- `ckpt_selective` returns, and the header lists the blocks the request is resolved to. -/
def CkptSelectiveCompletes (shmSize : Nat) (req : SelectiveCrRequest) (s : VGpu) : Prop :=
  ∃ s₁, s.ckptSelective shmSize req = .ok s₁ ∧
    selectiveBlocks s.allocatedMemory req = .ok (fileBlocks s₁.fs.fileList)

/-- The blocks are mapped and the dump of them fits the file. -/
structure Fits (shmSize : Nat) (blocks : List (Nat × Nat)) (s : VGpu) : Prop where
  mapped : ∀ p ∈ blocks.map Prod.fst, ∃ n, s.MappedBlock p n
  size : dumpHeaderSize + totalSize blocks ≤ shmSize

section Capacity
variable {shmSize : Nat} {s : VGpu}

theorem Dumped.fileBlocks {blocks : List (Nat × Nat)} {s₁ : VGpu} (h : Dumped blocks s s₁) :
    fileBlocks s₁.fs.fileList = blocks := by
  rw [h.fileList]
  exact layout_blocks dumpHeaderSize blocks

theorem ckptCompletes_iff (henv : s.drv.env.Reliable) (hfits : Fits shmSize (ckptBlocks s.allocatedMemory) s) :
    s.CkptCompletes shmSize ↔ s.allocatedMemory.size < maxFileNum := by
  refine ⟨?_, fun hnum => ?_⟩
  · rintro ⟨s₁, hckpt, -⟩
    obtain ⟨⟨cmds, fs⟩, hcmds, -⟩ := bind_eq_ok.1 hckpt
    obtain ⟨hlen, hlt⟩ := fileNum_dumpCmds hcmds
    rw [ckptBlocks, List.length_map, ExtTreeMap.length_toList] at hlen
    omega
  · have hmapped : ∀ p n : Nat, s.allocatedMemory[p]? = some n → s.MappedBlock p n := by
      intro p n hp
      obtain ⟨n', hn'⟩ := hfits.mapped p (List.mem_map.2 ⟨(p, roundUp2MB n), mem_ckptBlocks.2 ⟨n, hp, rfl⟩, rfl⟩)
      obtain rfl : n' = n := Option.some.inj (hn'.1.symm.trans hp)
      exact hn'
    obtain ⟨s₁, hckpt, hdumped⟩ := ckpt_spec henv hmapped hnum hfits.size
    exact ⟨s₁, hckpt, hdumped.fileBlocks⟩

theorem selectiveBlocks_inv {t : ExtTreeMap Nat Nat} {req : SelectiveCrRequest} {blocks : List (Nat × Nat)}
    (h : selectiveBlocks t req = .ok blocks) :
    blocks.map Prod.fst = (blocksToSnapshot t req).toList ∧ ∀ b ∈ blocks, t[b.1]? = some b.2 := by
  unfold selectiveBlocks at h
  generalize (blocksToSnapshot t req).toList = bases at h ⊢
  induction bases generalizing blocks with
  | nil =>
    obtain rfl := Except.ok.inj h
    exact ⟨rfl, fun b hb => absurd hb List.not_mem_nil⟩
  | cons p bases ih =>
    rw [List.mapM_cons] at h
    obtain ⟨b, hb, h⟩ := bind_eq_ok.1 h
    obtain ⟨rest, hrest, h⟩ := bind_eq_ok.1 h
    obtain rfl := Except.ok.inj h
    obtain ⟨hptrs, hsizes⟩ := ih hrest
    cases hp : t[p]? with
    | none =>
      rw [hp] at hb
      exact absurd hb (by simp)
    | some n =>
      rw [hp] at hb
      obtain rfl := Except.ok.inj hb
      exact ⟨by rw [List.map_cons, hptrs], List.forall_mem_cons.2 ⟨hp, hsizes⟩⟩

theorem selectiveBlocks_dumpable {req : SelectiveCrRequest} {blocks : List (Nat × Nat)}
    (hblocks : selectiveBlocks s.allocatedMemory req = .ok blocks)
    (hmapped : ∀ p ∈ blocks.map Prod.fst, ∃ n, s.MappedBlock p n) : Dumpable blocks s := by
  obtain ⟨hptrs, hsizes⟩ := selectiveBlocks_inv hblocks
  refine ⟨?_, fun b hb => ?_⟩
  · rw [hptrs, List.nodup_iff_pairwise_ne]
    exact (blocksToSnapshot s.allocatedMemory req).distinct_toList.imp fun h heq => h (by simp [heq])
  · obtain ⟨n, hn⟩ := hmapped b.1 (List.mem_map_of_mem hb)
    obtain rfl : n = b.2 := Option.some.inj (hn.1.symm.trans (hsizes b hb))
    exact ⟨b.2, hn, rfl⟩

theorem ckptSelectiveCompletes_iff {req : SelectiveCrRequest} {blocks : List (Nat × Nat)}
    (henv : s.drv.env.Reliable) (hblocks : selectiveBlocks s.allocatedMemory req = .ok blocks)
    (hfits : Fits shmSize blocks s) :
    s.CkptSelectiveCompletes shmSize req ↔ blocks.length < maxFileNum := by
  refine ⟨?_, fun hnum => ?_⟩
  · rintro ⟨s₁, hckpt, -⟩
    obtain ⟨blocks', hblocks', hckpt⟩ := bind_eq_ok.1 hckpt
    obtain ⟨⟨cmds, fs⟩, hcmds, -⟩ := bind_eq_ok.1 hckpt
    obtain rfl : blocks' = blocks := Except.ok.inj (hblocks'.symm.trans hblocks)
    obtain ⟨hlen, hlt⟩ := fileNum_dumpCmds hcmds
    omega
  · obtain ⟨cmds, fs, s₀, s₁, hcmds, hloop, -, hptrs, hrelease, hdumped⟩ :=
      dump_spec granuleChunk henv (selectiveBlocks_dumpable hblocks hfits.mapped) hfits.size hnum
    refine ⟨s₁, ?_, by rw [hdumped.fileBlocks, hblocks]⟩
    rw [← hptrs] at hrelease
    exact bind_eq_ok.2 ⟨blocks, hblocks, bind_eq_ok.2 ⟨(cmds, fs), hcmds, bind_eq_ok.2 ⟨s₀, hloop, hrelease⟩⟩⟩

/-- **Capacity**: of the tables and requests of at most `MAX_FILE_NUM` mapped blocks that fit the dump file,
exactly those with fewer blocks are dumped; with `MAX_FILE_NUM` blocks the process exits. -/
theorem capacity_iff (shmSize : Nat) (s : VGpu) (henv : s.drv.env.Reliable) :
    (s.allocatedMemory.size ≤ maxFileNum → Fits shmSize (ckptBlocks s.allocatedMemory) s →
      (s.CkptCompletes shmSize ↔ s.allocatedMemory.size ≠ maxFileNum)) ∧
    ∀ req blocks, selectiveBlocks s.allocatedMemory req = .ok blocks → blocks.length ≤ maxFileNum →
      Fits shmSize blocks s → (s.CkptSelectiveCompletes shmSize req ↔ blocks.length ≠ maxFileNum) := by
  refine ⟨fun hle hfits => ?_, fun req blocks hblocks hle hfits => ?_⟩
  · rw [ckptCompletes_iff henv hfits]
    omega
  · rw [ckptSelectiveCompletes_iff henv hblocks hfits]
    omega

end Capacity

theorem twoBlocks_fits : Fits shmSizeDefault (ckptBlocks twoBlocks.allocatedMemory) twoBlocks := by
  refine ⟨fun p hp => ?_, by decide⟩
  rw [ckptBlocks_ptrs] at hp
  obtain ⟨b, hb, rfl⟩ := List.mem_map.1 hp
  exact ⟨b.2, twoBlocks_oneHandleEach.mappedBlock (ExtTreeMap.mem_toList_iff_getElem?_eq_some.1 hb)⟩

theorem capacity_twoBlocks : twoBlocks.CkptCompletes shmSizeDefault :=
  (((capacity_iff shmSizeDefault twoBlocks fun _ => rfl).1 (by decide) twoBlocks_fits).2 (by decide))

/-! ### A table with as many blocks as the header has entries -/

/-- `n` granules with the values `f`. -/
def granuleTable (f : Nat → Nat) : Nat → ExtTreeMap Nat Nat
  | 0 => ∅
  | n + 1 => (granuleTable f n).insert (hugePageSize * (n + 1)) (f n)

theorem getElem?_granuleTable {f : Nat → Nat} {n p k : Nat} :
    (granuleTable f n)[p]? = some k ↔ ∃ i < n, p = hugePageSize * (i + 1) ∧ k = f i := by
  induction n with
  | zero => simp [granuleTable]
  | succ n ih =>
    rw [granuleTable, ExtTreeMap.getElem?_insert]
    by_cases hp : hugePageSize * (n + 1) = p
    · rw [if_pos (Nat.compare_eq_eq.2 hp), Option.some.injEq]
      refine ⟨fun h => ⟨n, by omega, hp.symm, h.symm⟩, ?_⟩
      rintro ⟨i, hi, hpi, rfl⟩
      rw [hpi] at hp
      obtain rfl : n = i := by
        have := Nat.eq_of_mul_eq_mul_left (show 0 < hugePageSize by decide) hp
        omega
      rfl
    · rw [if_neg (by rwa [Nat.compare_eq_eq]), ih]
      refine ⟨?_, ?_⟩
      · rintro ⟨i, hi, h⟩
        exact ⟨i, by omega, h⟩
      · rintro ⟨i, hi, hpi, hk⟩
        refine ⟨i, ?_, hpi, hk⟩
        have hne : i ≠ n := by
          rintro rfl
          exact hp hpi.symm
        omega

theorem size_granuleTable (f : Nat → Nat) (n : Nat) : (granuleTable f n).size = n := by
  induction n with
  | zero => rfl
  | succ n ih =>
    have hnew : hugePageSize * (n + 1) ∉ granuleTable f n := by
      intro hmem
      obtain ⟨i, hi, heq, -⟩ := getElem?_granuleTable.1 (ExtTreeMap.getElem?_eq_some_getElem hmem)
      have := Nat.eq_of_mul_eq_mul_left (show 0 < hugePageSize by decide) heq
      omega
    rw [granuleTable, ExtTreeMap.size_insert, if_neg (mt ExtTreeMap.contains_iff_mem.1 hnew), ih]

/-- `n` blocks of one byte each. -/
def manyBlocks (n : Nat) : VGpu where
  allocatedMemory := granuleTable (fun _ => 1) n
  globalHandleMap := granuleTable (· + 1) n
  drv :=
    { env := ⟨fun _ => false, id, fun _ _ => 0xAA⟩
      clock := 0
      mem := fun a => UInt8.ofNat a
      maps := (List.range n).map fun i => ⟨hugePageSize * (i + 1), hugePageSize, i + 1, true⟩
      live := (List.range n).map fun i => (i + 1, hugePageSize)
      maps_apart := by
        rw [List.pairwise_map]
        refine List.pairwise_lt_range.imp fun {i j} hij => .inl ?_
        show hugePageSize * (i + 1) + hugePageSize ≤ hugePageSize * (j + 1)
        rw [← Nat.mul_succ]
        exact Nat.mul_le_mul_left _ (by omega)
      maps_pos := by
        intro m hm
        obtain ⟨i, -, rfl⟩ := List.mem_map.1 hm
        show 0 < hugePageSize
        decide }
  fs := ⟨0, 0, fun _ => ⟨0, 0, 0⟩⟩
  staging := fun _ _ => 0
  dump := fun _ => 0

theorem roundUp2MB_one : roundUp2MB 1 = hugePageSize := by decide

theorem manyBlocks_mapped {n p k : Nat} (h : (manyBlocks n).allocatedMemory[p]? = some k) :
    (manyBlocks n).MappedBlock p k := by
  obtain ⟨i, hi, rfl, rfl⟩ := getElem?_granuleTable.1 h
  refine ⟨h, i + 1, getElem?_granuleTable.2 ⟨i, hi, rfl, rfl⟩, ?_, ?_, ?_⟩
  · rw [roundUp2MB_one]
    exact List.mem_map.2 ⟨i, List.mem_range.2 hi, rfl⟩
  · exact List.any_eq_true.2 ⟨(i + 1, hugePageSize), List.mem_map.2 ⟨i, List.mem_range.2 hi, rfl⟩, beq_self_eq_true _⟩
  · intro q hq
    obtain ⟨j, -, rfl, hj⟩ := getElem?_granuleTable.1 hq
    obtain rfl : i = j := by omega
    rfl

theorem totalSize_manyBlocks (n : Nat) : totalSize (ckptBlocks (manyBlocks n).allocatedMemory) = n * hugePageSize := by
  have hsize : ∀ x ∈ (ckptBlocks (manyBlocks n).allocatedMemory).map Prod.snd, x = hugePageSize := by
    intro x hx
    obtain ⟨b, hb, rfl⟩ := List.mem_map.1 hx
    obtain ⟨k, hk, hround⟩ := mem_ckptBlocks.1 hb
    obtain ⟨i, -, -, rfl⟩ := getElem?_granuleTable.1 hk
    rw [hround, roundUp2MB_one]
  rw [totalSize, List.sum_eq_card_nsmul _ _ hsize, List.length_map, ckptBlocks, List.length_map,
    ExtTreeMap.length_toList]
  show (granuleTable (fun _ => 1) n).size • hugePageSize = _
  rw [size_granuleTable, nsmul_eq_mul, Nat.cast_id]

theorem manyBlocks_fits {n : Nat} (h : dumpHeaderSize + n * hugePageSize ≤ shmSizeDefault) :
    Fits shmSizeDefault (ckptBlocks (manyBlocks n).allocatedMemory) (manyBlocks n) := by
  refine ⟨fun p hp => ?_, ?_⟩
  · rw [ckptBlocks_ptrs] at hp
    obtain ⟨b, hb, rfl⟩ := List.mem_map.1 hp
    exact ⟨b.2, manyBlocks_mapped (ExtTreeMap.mem_toList_iff_getElem?_eq_some.1 hb)⟩
  · rw [totalSize_manyBlocks]
    exact h

/-- With 4096 blocks of one granule the dump would fit, but the process exits. -/
theorem not_ckptCompletes_manyBlocks :
    (manyBlocks maxFileNum).drv.env.Reliable ∧ (manyBlocks maxFileNum).allocatedMemory.size ≤ maxFileNum ∧
      Fits shmSizeDefault (ckptBlocks (manyBlocks maxFileNum).allocatedMemory) (manyBlocks maxFileNum) ∧
      ¬ (manyBlocks maxFileNum).CkptCompletes shmSizeDefault := by
  have hsize : (manyBlocks maxFileNum).allocatedMemory.size = maxFileNum := size_granuleTable _ _
  have hfits := manyBlocks_fits (show dumpHeaderSize + maxFileNum * hugePageSize ≤ shmSizeDefault by decide)
  refine ⟨fun _ => rfl, Nat.le_of_eq hsize, hfits, ?_⟩
  rw [ckptCompletes_iff (fun _ => rfl) hfits]
  omega

end VGpu

end GpuCr
