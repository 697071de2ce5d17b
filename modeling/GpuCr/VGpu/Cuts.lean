import GpuCr.Lib.Chunks
import GpuCr.Lib.Run
import GpuCr.VGpu.Restore
import Mathlib.Data.Nat.ModEq

/-!
# The device copies of the pipelines

Which ranges of the device a loop copies depends on the blocks, on its `ChunkRule` and on how full the
staging half is when it comes to a block, and on nothing else: `cutBlocks` lists them, for the dump loops
and the restore loops alike. Both offsets of a copy, its device address and its place in the payload, run
in step, so that the end of the block in both is fixed while the loop goes through it, and a statement about
the copies of a block is a statement about these two ends.
-/

namespace GpuCr

open Lib.AsyncStream Lib.Chunks Lib.Run

/-- The length of the copy at `d`, `off` bytes of payload being in front of it. -/
def cutSize (rule : ChunkRule) (d size off : Nat) : Nat := rule.fn d (min size (stagingBufSize - off % stagingBufSize))

section CutSize
variable (rule : ChunkRule) (d : Nat)

theorem cutSize_pos {size : Nat} (off : Nat) (h : 0 < size) : 0 < cutSize rule d size off := by
  have := Nat.mod_lt off stagingBufSize_pos
  exact rule.pos d (by omega)

theorem cutSize_le (size off : Nat) :
    cutSize rule d size off ≤ size ∧ cutSize rule d size off ≤ stagingBufSize - off % stagingBufSize := by
  have := rule.le d (min size (stagingBufSize - off % stagingBufSize))
  unfold cutSize
  omega

theorem cutSize_congr (size : Nat) {off off' : Nat} (h : off % stagingBufSize = off' % stagingBufSize) :
    cutSize rule d size off = cutSize rule d size off' := by
  unfold cutSize
  rw [h]

end CutSize

/-- The copies of the block at `d`. -/
def cutBlock (rule : ChunkRule) (d size off : Nat) : List (Nat × Nat) :=
  if _h : 0 < size then
    let n := cutSize rule d size off
    (d, n) :: cutBlock rule (d + n) (size - n) (off + n)
  else []
termination_by size
decreasing_by
  have := cutSize_pos rule d off _h
  omega

theorem cutBlock_of_pos (rule : ChunkRule) (d off : Nat) {size : Nat} (h : 0 < size) :
    cutBlock rule d size off = (d, cutSize rule d size off) ::
      cutBlock rule (d + cutSize rule d size off) (size - cutSize rule d size off) (off + cutSize rule d size off) := by
  rw [cutBlock, dif_pos h]

theorem cutBlock_zero (rule : ChunkRule) (d off : Nat) : cutBlock rule d 0 off = [] := by
  rw [cutBlock, dif_neg (Nat.lt_irrefl 0)]

/-- The copies of the blocks, one block after the other. -/
def cutBlocks (rule : ChunkRule) : List (Nat × Nat) → Nat → List (Nat × Nat)
  | [], _ => []
  | b :: blocks, off => cutBlock rule b.1 b.2 off ++ cutBlocks rule blocks (off + b.2)

theorem cutBlock_congr (rule : ChunkRule) (d size off off' : Nat) (h : off % stagingBufSize = off' % stagingBufSize) :
    cutBlock rule d size off = cutBlock rule d size off' := by
  fun_induction cutBlock rule d size off generalizing off' with
  | case1 d size off hpos n ih =>
    have hn : cutSize rule d size off' = n := cutSize_congr rule d size h.symm
    have hrest : (off + n) % stagingBufSize = (off' + n) % stagingBufSize := Nat.ModEq.add_right n h
    rw [cutBlock_of_pos rule d off' hpos, hn, ih (off' + n) hrest]
  | case2 d size off hpos => rw [Nat.eq_zero_of_not_pos hpos, cutBlock_zero]

theorem cutBlocks_congr (rule : ChunkRule) (blocks : List (Nat × Nat)) {off off' : Nat}
    (h : off % stagingBufSize = off' % stagingBufSize) : cutBlocks rule blocks off = cutBlocks rule blocks off' := by
  induction blocks generalizing off off' with
  | nil => rfl
  | cons b blocks ih => rw [cutBlocks, cutBlocks, cutBlock_congr rule b.1 b.2 off off' h, ih (Nat.ModEq.add_right b.2 h)]

theorem tiles_cutBlock (rule : ChunkRule) (d size off : Nat) : Tiles d size (cutBlock rule d size off) := by
  fun_induction cutBlock rule d size off with
  | case1 d size off hpos n ih => exact ⟨rfl, cutSize_pos rule d off hpos, (cutSize_le rule d size off).1, ih⟩
  | case2 d size off hpos => exact Nat.eq_zero_of_not_pos hpos

theorem forall_cutBlocks_iff {rule : ChunkRule} {blocks : List (Nat × Nat)} {P : Nat × Nat → Prop} {Q : Nat → Nat → Prop}
    (h : ∀ b ∈ blocks, ∀ off, (∀ r ∈ cutBlock rule b.1 b.2 off, P r) ↔ Q off b.2) (off : Nat) :
    (∀ r ∈ cutBlocks rule blocks off, P r) ↔ ∀ f ∈ layout off blocks, Q f.startOffset f.size := by
  induction blocks generalizing off with
  | nil => exact iff_of_true (fun r hr => absurd hr List.not_mem_nil) fun f hf => absurd hf List.not_mem_nil
  | cons b blocks ih =>
    rw [List.forall_mem_cons] at h
    rw [cutBlocks, List.forall_mem_append, h.1 off, ih h.2, layout, List.forall_mem_cons]

/-! ### The loops -/

theorem DumpCursor.bufOffset_advance (c : DumpCursor) {n : Nat} (hn : c.bufOffset + n ≤ stagingBufSize) :
    (c.advance n).2.bufOffset % stagingBufSize = (c.bufOffset + n) % stagingBufSize := by
  unfold DumpCursor.advance
  by_cases hlt : c.bufOffset + n < stagingBufSize
  · rw [dif_pos hlt]
  · have hfull : c.bufOffset + n = stagingBufSize := by omega
    rw [dif_neg hlt, hfull, Nat.mod_self]
    split_ifs <;> exact Nat.zero_mod _

theorem RestoreCursor.bufOffset_advance (c : RestoreCursor) (currentOffset : Nat) {n : Nat}
    (hn : c.bufOffset + n ≤ stagingBufSize) :
    (c.advance currentOffset n).2.bufOffset % stagingBufSize = (c.bufOffset + n) % stagingBufSize := by
  unfold RestoreCursor.advance
  by_cases hlt : c.bufOffset + n < stagingBufSize
  · rw [dif_pos hlt]
  · have hfull : c.bufOffset + n = stagingBufSize := by omega
    rw [dif_neg hlt, hfull, Nat.mod_self]
    exact Nat.zero_mod _

theorem DumpCursor.chunk_eq (c : DumpCursor) (rule : ChunkRule) (d size : Nat) :
    c.chunk rule d size = cutSize rule d size c.bufOffset := by
  rw [DumpCursor.chunk, cutSize, Nat.mod_eq_of_lt c.bufOffset_lt]

theorem RestoreCursor.chunk_eq (c : RestoreCursor) (rule : ChunkRule) (d size : Nat) :
    c.chunk rule d size = cutSize rule d size c.bufOffset := by
  rw [RestoreCursor.chunk, cutSize, Nat.mod_eq_of_lt c.bufOffset_lt]

theorem devRanges_dumpBlock (rule : ChunkRule) (d size : Nat) (c : DumpCursor) :
    devRanges (dumpBlock rule d size c).1 = cutBlock rule d size c.bufOffset ∧
      (dumpBlock rule d size c).2.bufOffset % stagingBufSize = (c.bufOffset + size) % stagingBufSize := by
  fun_induction dumpBlock rule d size c with
  | case1 d size c hpos curSize next rest ih =>
    have hle : curSize ≤ size ∧ c.bufOffset + curSize ≤ stagingBufSize := c.chunk_le rule d size
    have hnext : next.2.bufOffset % stagingBufSize = (c.bufOffset + curSize) % stagingBufSize :=
      c.bufOffset_advance hle.2
    refine ⟨?_, ?_⟩
    · rw [devRanges_devToHost, devRanges_append, c.devRanges_advance, List.nil_append, ih.1, cutBlock_of_pos rule d _ hpos,
        ← c.chunk_eq rule d size]
      exact congrArg _ (cutBlock_congr rule _ _ _ _ hnext)
    · have hend : (c.bufOffset + curSize + (size - curSize)) % stagingBufSize = (c.bufOffset + size) % stagingBufSize := by
        rw [Nat.add_assoc, Nat.add_sub_cancel' hle.1]
      exact ih.2.trans ((Nat.ModEq.add_right _ hnext).trans hend)
  | case2 d size c hpos =>
    have hz : size = 0 := Nat.eq_zero_of_not_pos hpos
    rw [hz, cutBlock_zero]
    exact ⟨rfl, rfl⟩

theorem devRanges_restoreBlock (rule : ChunkRule) (currentOffset d offset size : Nat) (c : RestoreCursor) :
    devRanges (restoreBlock rule currentOffset d offset size c).1 = cutBlock rule d size c.bufOffset ∧
      (restoreBlock rule currentOffset d offset size c).2.bufOffset % stagingBufSize =
        (c.bufOffset + size) % stagingBufSize := by
  fun_induction restoreBlock rule currentOffset d offset size c with
  | case1 d offset size c hpos n next rest ih =>
    have hle : n ≤ size ∧ c.bufOffset + n ≤ stagingBufSize := c.chunk_le rule d size
    have hnext : next.2.bufOffset % stagingBufSize = (c.bufOffset + n) % stagingBufSize :=
      c.bufOffset_advance currentOffset hle.2
    refine ⟨?_, ?_⟩
    · rw [devRanges_host, devRanges_hostToDev, devRanges_append, c.devRanges_advance, List.nil_append, ih.1,
        cutBlock_of_pos rule d _ hpos, ← c.chunk_eq rule d size]
      exact congrArg _ (cutBlock_congr rule _ _ _ _ hnext)
    · have hend : (c.bufOffset + n + (size - n)) % stagingBufSize = (c.bufOffset + size) % stagingBufSize := by
        rw [Nat.add_assoc, Nat.add_sub_cancel' hle.1]
      exact ih.2.trans ((Nat.ModEq.add_right _ hnext).trans hend)
  | case2 d offset size c hpos =>
    have hz : size = 0 := Nat.eq_zero_of_not_pos hpos
    rw [hz, cutBlock_zero]
    exact ⟨rfl, rfl⟩

theorem devRanges_streamBlocks (rule : ChunkRule) (blocks : List (Nat × Nat)) (c : DumpCursor) :
    devRanges (streamBlocks rule blocks c).1 = cutBlocks rule blocks c.bufOffset := by
  induction blocks generalizing c with
  | nil => rfl
  | cons b blocks ih =>
    obtain ⟨hblock, hnext⟩ := devRanges_dumpBlock rule b.1 b.2 c
    unfold streamBlocks
    rw [devRanges_append, hblock, ih, cutBlocks, cutBlocks_congr rule blocks hnext]

/-- The blocks of the files of a dump. -/
def fileBlocks (files : List SharedMemFile) : List (Nat × Nat) := files.map fun f => (f.ptr, f.size)

theorem devRanges_restoreBlocks (rule : ChunkRule) (currentOffset : Nat) (files : List SharedMemFile) (c : RestoreCursor) :
    devRanges (restoreBlocks rule currentOffset files c).1 = cutBlocks rule (fileBlocks files) c.bufOffset := by
  induction files generalizing c with
  | nil => rfl
  | cons f files ih =>
    obtain ⟨hblock, hnext⟩ := devRanges_restoreBlock rule currentOffset f.ptr f.startOffset f.size c
    unfold restoreBlocks
    rw [devRanges_append, hblock, ih]
    show _ = cutBlock rule f.ptr f.size c.bufOffset ++ cutBlocks rule (fileBlocks files) (c.bufOffset + f.size)
    rw [cutBlocks_congr rule (fileBlocks files) hnext]

/-- The blocks a dump gets its entries and copies for: all of them, or those before the one that makes it
leave through `exit`. -/
def acceptedBlocks (shmSize : Nat) : List (Nat × Nat) → SharedMemFs → List (Nat × Nat)
  | [], _ => []
  | b :: blocks, fs =>
    match fs.addFile shmSize b.1 b.2 with
    | .error _ => []
    | .ok fs => b :: acceptedBlocks shmSize blocks fs

/-- The commands that the loop over the blocks issues before it is through or leaves. -/
def issuedCmds (rule : ChunkRule) (shmSize : Nat) : List (Nat × Nat) → SharedMemFs → DumpCursor → List PipeCmd
  | [], _, _ => []
  | b :: blocks, fs, c =>
    match fs.addFile shmSize b.1 b.2 with
    | .error _ => []
    | .ok fs =>
      let block := dumpBlock rule b.1 b.2 c
      block.1 ++ issuedCmds rule shmSize blocks fs block.2

theorem acceptedBlocks_subset {shmSize : Nat} {blocks : List (Nat × Nat)} {fs : SharedMemFs} {b : Nat × Nat}
    (hb : b ∈ acceptedBlocks shmSize blocks fs) : b ∈ blocks := by
  induction blocks generalizing fs with
  | nil => exact absurd hb List.not_mem_nil
  | cons b' blocks ih =>
    unfold acceptedBlocks at hb
    cases hadd : fs.addFile shmSize b'.1 b'.2 with
    | error e =>
      rw [hadd] at hb
      exact absurd hb List.not_mem_nil
    | ok fs₁ =>
      rw [hadd] at hb
      rcases List.mem_cons.1 hb with rfl | hb
      · exact List.mem_cons_self ..
      · exact List.mem_cons_of_mem _ (ih hb)

theorem issuedCmds_eq (rule : ChunkRule) (shmSize : Nat) (blocks : List (Nat × Nat)) (fs : SharedMemFs) (c : DumpCursor) :
    issuedCmds rule shmSize blocks fs c = (streamBlocks rule (acceptedBlocks shmSize blocks fs) c).1 := by
  induction blocks generalizing fs c with
  | nil => rfl
  | cons b blocks ih =>
    unfold issuedCmds acceptedBlocks
    cases fs.addFile shmSize b.1 b.2 with
    | error e => rfl
    | ok fs₁ =>
      dsimp only
      rw [ih]
      rfl

/-- The header a dump starts from. -/
def SharedMemFs.reset (fs : SharedMemFs) : SharedMemFs := { fs with fileNum := 0, currentOffset := dumpHeaderSize }

/-- The device copies of a dump, complete or not. -/
def dumpCopies (rule : ChunkRule) (shmSize : Nat) (blocks : List (Nat × Nat)) (fs : SharedMemFs) : List (Nat × Nat) :=
  devRanges (issuedCmds rule shmSize blocks fs.reset DumpCursor.start)

theorem dumpCopies_eq (rule : ChunkRule) (shmSize : Nat) (blocks : List (Nat × Nat)) (fs : SharedMemFs) :
    dumpCopies rule shmSize blocks fs = cutBlocks rule (acceptedBlocks shmSize blocks fs.reset) 0 := by
  rw [dumpCopies, issuedCmds_eq, devRanges_streamBlocks]
  rfl

theorem acceptedBlocks_of_ok {rule : ChunkRule} {shmSize : Nat} {blocks : List (Nat × Nat)} {fs fs' : SharedMemFs}
    {cmds : List PipeCmd} (h : dumpCmds rule shmSize blocks fs = .ok (cmds, fs')) :
    acceptedBlocks shmSize blocks fs.reset = blocks := by
  have haccepted : ∀ (blocks : List (Nat × Nat)) (fs fs' : SharedMemFs),
      SharedMemFs.addFiles shmSize blocks fs = .ok fs' → acceptedBlocks shmSize blocks fs = blocks := by
    intro blocks
    induction blocks with
    | nil => exact fun fs fs' _ => rfl
    | cons b blocks ih =>
      intro fs fs' h
      obtain ⟨fs₁, hadd, hrest⟩ := bind_eq_ok.1 h
      rw [acceptedBlocks, hadd]
      exact congrArg _ (ih fs₁ fs' hrest)
  simp only [dumpCmds, dumpBlocks_eq] at h
  cases hadd : SharedMemFs.addFiles shmSize blocks fs.reset with
  | ok fs₁ => exact haccepted blocks fs.reset fs₁ hadd
  | error e =>
    rw [SharedMemFs.reset] at hadd
    rw [hadd] at h
    exact absurd h (by simp [bind, Except.bind, Except.map])

theorem devRanges_dumpCmds {rule : ChunkRule} {shmSize : Nat} {blocks : List (Nat × Nat)} {fs fs' : SharedMemFs}
    {cmds : List PipeCmd} (h : dumpCmds rule shmSize blocks fs = .ok (cmds, fs')) :
    devRanges cmds = dumpCopies rule shmSize blocks fs := by
  rw [dumpCopies_eq, acceptedBlocks_of_ok h]
  obtain ⟨-, rfl, -⟩ := dumpCmds_inv h
  rw [devRanges_record, devRanges_append, DumpCursor.devRanges_finish, List.append_nil, devRanges_streamBlocks]
  rfl

theorem devRanges_restoreCmds (rule : ChunkRule) (fs : SharedMemFs) :
    devRanges (restoreCmds rule fs) = cutBlocks rule (fileBlocks fs.fileList) 0 := by
  unfold restoreCmds
  cases fs.fileList with
  | nil => rfl
  | cons f files =>
    dsimp only
    rw [devRanges_record, devRanges_host, devRanges_append, devRanges_restoreBlocks]
    exact List.append_nil _

end GpuCr
