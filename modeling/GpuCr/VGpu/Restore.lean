import GpuCr.VGpu.Dump

/-!
# What the restore loops write

The invariant of the restore loops (`RestoreInv`): the current half holds the dump from `srcOffset`
on, as far as the half or the dump reaches. Copying from the half and refilling it keep that, so each
block of the device receives the bytes of its file (`restoreBlock_spec`), whatever the sizes before it.
-/

namespace GpuCr

open Lib Lib.AsyncStream

structure RestoreInv (currentOffset : Nat) (c : RestoreCursor) (m : PipeMem) : Prop where
  staged : ∀ i < stagingBufSize, c.srcOffset + i < currentOffset →
    m.staging (c.currentBuf % 2) i = m.dump (c.srcOffset + i)

/-- Offset in the dump of the byte that is copied next. -/
def RestoreCursor.pos (c : RestoreCursor) : Nat := c.srcOffset + c.bufOffset

theorem RestoreCursor.pos_advance (c : RestoreCursor) (currentOffset : Nat) {n : Nat}
    (hn : c.bufOffset + n ≤ stagingBufSize) : (c.advance currentOffset n).2.pos = c.pos + n := by
  unfold RestoreCursor.advance RestoreCursor.pos
  by_cases hlt : c.bufOffset + n < stagingBufSize
  · rw [dif_pos hlt]
    exact (Nat.add_assoc ..).symm
  · have hfull : c.bufOffset + n = stagingBufSize := by omega
    rw [dif_neg hlt]
    show c.srcOffset + stagingBufSize + 0 = c.srcOffset + c.bufOffset + n
    omega

theorem RestoreInv.fill (currentOffset cur src : Nat) (m : PipeMem) (h : src ≤ currentOffset) :
    RestoreInv currentOffset ⟨cur, 0, src, stagingBufSize_pos⟩
      ((PipeOp.fromDump (cur % 2) src (cpuCopySize currentOffset src)).exec m) := by
  refine ⟨?_⟩
  intro i hi hend
  have hlt : i < cpuCopySize currentOffset src := by
    rw [cpuCopySize, sizeSub_of_le h]
    simp only at hend
    omega
  rw [fromDump_eq]
  show Function.update m.staging (cur % 2) _ (cur % 2) i = m.dump (src + i)
  have hblit := blit_in (m.staging (cur % 2)) m.dump (d := 0) (s := src) hlt
  rw [Nat.zero_add] at hblit
  rw [Function.update_self, hblit]

theorem RestoreCursor.advance_spec (c : RestoreCursor) {currentOffset n : Nat} {m : PipeMem}
    (hn : c.bufOffset + n ≤ stagingBufSize) (hend : c.pos + n ≤ currentOffset)
    (hi : RestoreInv currentOffset c m) :
    RestoreInv currentOffset (c.advance currentOffset n).2 (runPipe (c.advance currentOffset n).1 m) ∧
      (runPipe (c.advance currentOffset n).1 m).dev = m.dev ∧
      (runPipe (c.advance currentOffset n).1 m).dump = m.dump := by
  unfold RestoreCursor.advance
  by_cases hlt : c.bufOffset + n < stagingBufSize
  · rw [dif_pos hlt]
    exact ⟨⟨hi.staged⟩, rfl, rfl⟩
  · have hle : c.srcOffset + stagingBufSize ≤ currentOffset := by
      unfold RestoreCursor.pos at hend
      omega
    rw [dif_neg hlt]
    dsimp only
    rw [runPipe_host, runPipe_waitEvent, runPipe_host, runPipe_record, runPipe_nil, assert_exec]
    refine ⟨RestoreInv.fill currentOffset _ _ m hle, ?_, ?_⟩
    · rw [fromDump_eq]
    · rw [fromDump_eq]

theorem RestoreInv.copy {currentOffset : Nat} {c : RestoreCursor} {m : PipeMem}
    (hi : RestoreInv currentOffset c m) (d : Nat) {n : Nat} (hn : c.bufOffset + n ≤ stagingBufSize)
    (hend : c.pos + n ≤ currentOffset) :
    ((PipeOp.hostToDev d (c.currentBuf % 2) c.bufOffset n).exec m).dev = blit m.dev d m.dump c.pos n := by
  rw [hostToDev_eq]
  funext a
  by_cases ha : a < d ∨ d + n ≤ a
  · rw [blit_out _ _ ha]
    exact blit_out _ _ ha
  · obtain ⟨i, rfl⟩ := Nat.exists_eq_add_of_le (show d ≤ a by omega)
    have hlt : i < n := by omega
    unfold RestoreCursor.pos at hend ⊢
    rw [blit_in _ _ hlt, Nat.add_assoc]
    refine (blit_in _ _ hlt).trans ?_
    exact hi.staged (c.bufOffset + i) (by omega) (by omega)

theorem restoreBlock_pos (rule : ChunkRule) (currentOffset d offset size : Nat) (c : RestoreCursor) :
    (restoreBlock rule currentOffset d offset size c).2.pos = c.pos + size := by
  fun_induction restoreBlock rule currentOffset d offset size c with
  | case1 d offset size c h n next rest ih =>
    have hle : n ≤ size ∧ c.bufOffset + n ≤ stagingBufSize := c.chunk_le rule d size
    have hpos : next.2.pos = c.pos + n := c.pos_advance currentOffset hle.2
    show rest.2.pos = c.pos + size
    rw [ih, hpos]
    omega
  | case2 d offset size c h =>
    have hz : size = 0 := by omega
    rw [hz, Nat.add_zero]

/-- Reading at the cursor is reading at its place in the half. -/
theorem RestoreCursor.sizeSub_pos (c : RestoreCursor) : sizeSub c.pos c.srcOffset = c.bufOffset := by
  unfold RestoreCursor.pos
  rw [sizeSub_of_le (Nat.le_add_right ..), Nat.add_sub_cancel_left]

/-- One file: the device receives the bytes of the dump from the cursor on, and the asserts hold. -/
theorem restoreBlock_spec (rule : ChunkRule) (currentOffset d offset size : Nat) (c : RestoreCursor)
    (m : PipeMem) (hoffset : offset = c.pos) (hend : offset + size ≤ currentOffset)
    (hi : RestoreInv currentOffset c m) :
    RestoreInv currentOffset (restoreBlock rule currentOffset d offset size c).2
        (runPipe (restoreBlock rule currentOffset d offset size c).1 m) ∧
      (runPipe (restoreBlock rule currentOffset d offset size c).1 m).dev =
        blit m.dev d m.dump offset size ∧
      (runPipe (restoreBlock rule currentOffset d offset size c).1 m).dump = m.dump := by
  fun_induction restoreBlock rule currentOffset d offset size c generalizing m with
  | case1 d offset size c h n next rest ih =>
    have hle : n ≤ size ∧ c.bufOffset + n ≤ stagingBufSize := c.chunk_le rule d size
    have hpos : next.2.pos = c.pos + n := c.pos_advance currentOffset hle.2
    subst hoffset
    rw [c.sizeSub_pos]
    have hcopy := hi.copy d hle.2 (by omega)
    have hcopied : RestoreInv currentOffset c
        ((PipeOp.hostToDev d (c.currentBuf % 2) c.bufOffset n).exec m) := ⟨hi.staged⟩
    obtain ⟨hadv, hdev, hdump⟩ := c.advance_spec hle.2 (by omega) hcopied
    obtain ⟨h1, h2, h3⟩ := ih _ hpos.symm (by omega) hadv
    dsimp only
    rw [runPipe_host, runPipe_enqueue, runPipe_append, assert_exec]
    refine ⟨h1, ?_, ?_⟩
    · rw [h2, hdev, hdump, hcopy]
      have happ := blit_append m.dev m.dump d c.pos n (size - n)
      rw [show n + (size - n) = size by omega] at happ
      exact happ
    · rw [h3, hdump]
      rfl
  | case2 d offset size c h =>
    have hz : size = 0 := by omega
    rw [hz, blit_zero]
    exact ⟨hi, rfl, rfl⟩

theorem RestoreCursor.assertsHold_advance (c : RestoreCursor) (currentOffset : Nat) {n : Nat}
    (hn : c.bufOffset + n ≤ stagingBufSize) : assertsHold (c.advance currentOffset n).1 = true := by
  unfold RestoreCursor.advance
  split_ifs with hlt
  · rfl
  · have hfull : c.bufOffset + n = stagingBufSize := by omega
    simp [hfull]

theorem restoreBlock_asserts (rule : ChunkRule) (currentOffset d offset size : Nat)
    (c : RestoreCursor) (hoffset : offset = c.pos) :
    assertsHold (restoreBlock rule currentOffset d offset size c).1 = true := by
  fun_induction restoreBlock rule currentOffset d offset size c with
  | case1 d offset size c h n next rest ih =>
    have hle := c.chunk_le rule d size
    have hpos := c.pos_advance currentOffset hle.2
    have hadv := c.assertsHold_advance currentOffset hle.2
    subst hoffset
    rw [c.sizeSub_pos]
    simp only [assertsHold_assert, assertsHold_enqueue, assertsHold_append, Bool.and_eq_true, beq_self_eq_true,
      true_and]
    exact ⟨hadv, ih hpos.symm⟩
  | case2 d offset size c h => rfl

theorem RestoreCursor.devRanges_advance (c : RestoreCursor) (currentOffset n : Nat) :
    devRanges (c.advance currentOffset n).1 = [] := by
  unfold RestoreCursor.advance
  split_ifs <;> rfl

theorem restoreBlock_copies (rule : ChunkRule) (currentOffset d offset size : Nat) (c : RestoreCursor) :
    copiesWithin d size (restoreBlock rule currentOffset d offset size c).1 := by
  fun_induction restoreBlock rule currentOffset d offset size c with
  | case1 d offset size c h n next rest ih =>
    have hle : n ≤ size := (c.chunk_le rule d size).1
    intro r hr
    rw [devRanges_host, devRanges_hostToDev, devRanges_append, c.devRanges_advance, List.nil_append] at hr
    rcases List.mem_cons.1 hr with rfl | hr
    · show d ≤ d ∧ d + n ≤ d + size
      omega
    · have := ih r hr
      omega
  | case2 d offset size c h =>
    intro r hr
    exact absurd hr List.not_mem_nil

/-! ### All files -/

/-- The device after every file of the dump has been copied to its block. -/
def restoredDev (dump : Nat → Byte) (files : List SharedMemFile) (dev : Nat → Byte) : Nat → Byte :=
  files.foldl (fun dev f => blit dev f.ptr dump f.startOffset f.size) dev

theorem restoreBlocks_spec (rule : ChunkRule) (currentOffset : Nat) (blocks : List (Nat × Nat))
    (c : RestoreCursor) (m : PipeMem) (hend : c.pos + totalSize blocks ≤ currentOffset)
    (hi : RestoreInv currentOffset c m) :
    (runPipe (restoreBlocks rule currentOffset (layout c.pos blocks) c).1 m).dev =
        restoredDev m.dump (layout c.pos blocks) m.dev ∧
      (runPipe (restoreBlocks rule currentOffset (layout c.pos blocks) c).1 m).dump = m.dump := by
  induction blocks generalizing c m with
  | nil => exact ⟨rfl, rfl⟩
  | cons b blocks ih =>
    rw [totalSize_cons] at hend
    obtain ⟨h1, h2, h3⟩ := restoreBlock_spec rule currentOffset b.1 c.pos b.2 c m rfl (by omega) hi
    have hpos := restoreBlock_pos rule currentOffset b.1 c.pos b.2 c
    obtain ⟨h4, h5⟩ := ih _ _ (by omega) h1
    rw [hpos] at h4 h5
    simp only [layout, restoreBlocks]
    rw [runPipe_append]
    refine ⟨?_, ?_⟩
    · rw [h4, h2, h3]
      rfl
    · rw [h5, h3]

theorem restoreBlocks_asserts (rule : ChunkRule) (currentOffset : Nat) (blocks : List (Nat × Nat))
    (c : RestoreCursor) :
    assertsHold (restoreBlocks rule currentOffset (layout c.pos blocks) c).1 = true := by
  induction blocks generalizing c with
  | nil => rfl
  | cons b blocks ih =>
    have hpos := restoreBlock_pos rule currentOffset b.1 c.pos b.2 c
    have hrest := ih (restoreBlock rule currentOffset b.1 c.pos b.2 c).2
    rw [hpos] at hrest
    simp only [layout, restoreBlocks]
    rw [assertsHold_append, restoreBlock_asserts rule currentOffset b.1 c.pos b.2 c rfl, hrest]
    rfl

theorem restoreBlocks_copies (rule : ChunkRule) (currentOffset : Nat) (files : List SharedMemFile)
    (c : RestoreCursor) {r : Nat × Nat} (hr : r ∈ devRanges (restoreBlocks rule currentOffset files c).1) :
    ∃ f ∈ files, f.ptr ≤ r.1 ∧ r.1 + r.2 ≤ f.ptr + f.size := by
  induction files generalizing c with
  | nil => exact absurd hr List.not_mem_nil
  | cons f files ih =>
    unfold restoreBlocks at hr
    rw [devRanges_append, List.mem_append] at hr
    rcases hr with hr | hr
    · exact ⟨f, List.mem_cons_self .., restoreBlock_copies rule currentOffset f.ptr f.startOffset f.size c r hr⟩
    · obtain ⟨f', hf', hin⟩ := ih _ hr
      exact ⟨f', List.mem_cons_of_mem _ hf', hin⟩

/-! ### The whole function -/

theorem restoreCmds_copies (rule : ChunkRule) (fs : SharedMemFs) {r : Nat × Nat}
    (hr : r ∈ devRanges (restoreCmds rule fs)) :
    ∃ f ∈ fs.fileList, f.ptr ≤ r.1 ∧ r.1 + r.2 ≤ f.ptr + f.size := by
  unfold restoreCmds at hr
  cases hfiles : fs.fileList with
  | nil =>
    rw [hfiles] at hr
    exact absurd hr List.not_mem_nil
  | cons f files =>
    rw [hfiles] at hr
    dsimp only at hr
    rw [devRanges_record, devRanges_host, devRanges_append, List.mem_append] at hr
    rcases hr with hr | hr
    · exact restoreBlocks_copies rule _ _ _ hr
    · exact absurd hr List.not_mem_nil

section Whole
variable (rule : ChunkRule) {fs : SharedMemFs} {offset : Nat} {blocks : List (Nat × Nat)}
  (hfiles : fs.fileList = layout offset blocks)
include hfiles

theorem restoreCmds_asserts : assertsHold (restoreCmds rule fs) = true := by
  unfold restoreCmds
  rw [hfiles]
  cases blocks with
  | nil => rfl
  | cons b blocks =>
    have hblocks := restoreBlocks_asserts rule fs.currentOffset (b :: blocks)
      ⟨0, 0, offset, stagingBufSize_pos⟩
    simp only [layout, RestoreCursor.pos, Nat.add_zero] at hblocks ⊢
    rw [assertsHold_record, assertsHold_fromDump, assertsHold_append, hblocks]
    rfl

/-- Every file is copied to its block; the dump is only read. -/
theorem restoreCmds_spec (hend : fs.currentOffset = offset + totalSize blocks) (m : PipeMem) :
    (runPipe (restoreCmds rule fs) m).dev = restoredDev m.dump fs.fileList m.dev ∧
      (runPipe (restoreCmds rule fs) m).dump = m.dump := by
  unfold restoreCmds
  rw [hfiles]
  cases blocks with
  | nil => exact ⟨rfl, rfl⟩
  | cons b blocks =>
    have hfill := RestoreInv.fill fs.currentOffset 0 offset m (by omega)
    have hblocks := restoreBlocks_spec rule fs.currentOffset (b :: blocks)
      ⟨0, 0, offset, stagingBufSize_pos⟩ _ (by simp only [RestoreCursor.pos]; omega) hfill
    rw [fromDump_eq] at hblocks
    simp only [layout, RestoreCursor.pos, Nat.add_zero] at hblocks ⊢
    rw [runPipe_record, runPipe_host, runPipe_append, runPipe_drain, runPipe_nil, fromDump_eq]
    exact hblocks

theorem restoreCmds_dev (hend : fs.currentOffset = offset + totalSize blocks) (m : PipeMem) :
    (runPipe (restoreCmds rule fs) m).dev = restoredDev m.dump fs.fileList m.dev :=
  (restoreCmds_spec rule hfiles hend m).1

end Whole

/-! ### Reading the device back -/

theorem restoredDev_out (dump : Nat → Byte) (files : List SharedMemFile) (dev : Nat → Byte) {a : Nat}
    (ha : ∀ f ∈ files, a < f.ptr ∨ f.ptr + f.size ≤ a) : restoredDev dump files dev a = dev a := by
  induction files generalizing dev with
  | nil => rfl
  | cons f files ih =>
    have hrest := ih (blit dev f.ptr dump f.startOffset f.size) fun g hg => ha g (List.mem_cons_of_mem _ hg)
    exact hrest.trans (blit_out _ _ (ha f (List.mem_cons_self ..)))

/-- Disjoint blocks do not overwrite each other. -/
theorem restoredDev_in (dump : Nat → Byte) (files : List SharedMemFile) (dev : Nat → Byte)
    (hdisj : files.Pairwise fun f g => f.ptr + f.size ≤ g.ptr ∨ g.ptr + g.size ≤ f.ptr)
    {f : SharedMemFile} (hf : f ∈ files) {i : Nat} (hi : i < f.size) :
    restoredDev dump files dev (f.ptr + i) = dump (f.startOffset + i) := by
  induction files generalizing dev with
  | nil => exact absurd hf List.not_mem_nil
  | cons g files ih =>
    rw [List.pairwise_cons] at hdisj
    rcases List.mem_cons.1 hf with rfl | hf
    · have hrest := restoredDev_out dump files (blit dev f.ptr dump f.startOffset f.size)
        (a := f.ptr + i) (fun g hg => by have := hdisj.1 g hg; omega)
      exact hrest.trans (blit_in _ _ hi)
    · exact ih _ hdisj.2 hf

end GpuCr
