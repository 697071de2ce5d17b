import GpuCr.VGpu.Cuts
import GpuCr.VGpu.Selective

/-!
# Bounds of the pipelines

Every operation of a dump that passes its limit checks, and of a restore of it, stays where it belongs
(`PipeOp.InBounds`): in its half of the staging buffer, in the payload of the dump, and with every `assert`
true. What ties the counters of the dump loops together is that `des_offset` follows `current_buf`
(`DumpCursor.Placed`) and that the place of the next byte only grows. The loops are also taken apart into
their iterations, each with the state it finds, to say that no iteration subtracts more than there is and
that each copies something.
-/

namespace GpuCr

open Lib Lib.AsyncStream Lib.Run Std

/-- The host and device operations among the commands. -/
def pipeOps (cmds : List PipeCmd) : List PipeOp :=
  cmds.filterMap fun
    | .enqueue c => some c
    | .host c => some c
    | _ => none

@[simp] theorem pipeOps_append (p q : List PipeCmd) : pipeOps (p ++ q) = pipeOps p ++ pipeOps q := List.filterMap_append ..

theorem pipeOps_enqueue (c : PipeOp) (p : List PipeCmd) : pipeOps (.enqueue c :: p) = c :: pipeOps p := rfl

theorem pipeOps_host (c : PipeOp) (p : List PipeCmd) : pipeOps (.host c :: p) = c :: pipeOps p := rfl

theorem pipeOps_record (p : List PipeCmd) : pipeOps (.record :: p) = pipeOps p := rfl

theorem pipeOps_waitEvent (p : List PipeCmd) : pipeOps (.waitEvent :: p) = pipeOps p := rfl

theorem pipeOps_drain (p : List PipeCmd) : pipeOps (.drain :: p) = pipeOps p := rfl

/-- The operation stays in its staging half and in the payload `[dumpHeaderSize, currentOffset)` of the dump;
an `assert` holds. -/
def PipeOp.InBounds (currentOffset : Nat) : PipeOp → Prop
  | .devToHost half off _ n => half < 2 ∧ off + n ≤ stagingBufSize
  | .hostToDev _ half off n => half < 2 ∧ off + n ≤ stagingBufSize
  | .toDump desOffset half n => half < 2 ∧ n ≤ stagingBufSize ∧ dumpHeaderSize ≤ desOffset ∧ desOffset + n ≤ currentOffset
  | .fromDump half srcOffset n => half < 2 ∧ n ≤ stagingBufSize ∧ dumpHeaderSize ≤ srcOffset ∧ srcOffset + n ≤ currentOffset
  | .assert holds => holds = true

/-- All operations of the commands are in bounds. -/
def InBounds (currentOffset : Nat) (cmds : List PipeCmd) : Prop := ∀ op ∈ pipeOps cmds, op.InBounds currentOffset

section InBounds
variable {currentOffset : Nat}

theorem inBounds_nil : InBounds currentOffset [] := fun _ hop => absurd hop List.not_mem_nil

theorem inBounds_append {p q : List PipeCmd} : InBounds currentOffset (p ++ q) ↔ InBounds currentOffset p ∧ InBounds currentOffset q := by
  unfold InBounds
  rw [pipeOps_append, List.forall_mem_append]

theorem inBounds_enqueue {c : PipeOp} {p : List PipeCmd} :
    InBounds currentOffset (.enqueue c :: p) ↔ c.InBounds currentOffset ∧ InBounds currentOffset p := by
  unfold InBounds
  rw [pipeOps_enqueue, List.forall_mem_cons]

theorem inBounds_host {c : PipeOp} {p : List PipeCmd} :
    InBounds currentOffset (.host c :: p) ↔ c.InBounds currentOffset ∧ InBounds currentOffset p := by
  unfold InBounds
  rw [pipeOps_host, List.forall_mem_cons]

theorem inBounds_record {p : List PipeCmd} : InBounds currentOffset (.record :: p) ↔ InBounds currentOffset p := Iff.rfl

theorem inBounds_waitEvent {p : List PipeCmd} : InBounds currentOffset (.waitEvent :: p) ↔ InBounds currentOffset p := Iff.rfl

theorem inBounds_drain {p : List PipeCmd} : InBounds currentOffset (.drain :: p) ↔ InBounds currentOffset p := Iff.rfl

/-- Commands in bounds write nothing outside the payload. -/
theorem runPipe_dump_out {cmds : List PipeCmd} (h : InBounds currentOffset cmds) (m : PipeMem) {a : Nat}
    (ha : a < dumpHeaderSize ∨ currentOffset ≤ a) : (runPipe cmds m).dump a = m.dump a := by
  have hexec : ∀ (op : PipeOp) (m : PipeMem), op.InBounds currentOffset → (op.exec m).dump a = m.dump a := by
    intro op m hop
    cases op with
    | toDump desOffset half n =>
      rw [toDump_eq]
      exact blit_out _ _ (by have := hop.2.2; omega)
    | _ => rfl
  induction cmds generalizing m with
  | nil => rfl
  | cons cmd cmds ih =>
    cases cmd with
    | enqueue op =>
      rw [inBounds_enqueue] at h
      rw [runPipe_enqueue, ih h.2, hexec op m h.1]
    | host op =>
      rw [inBounds_host] at h
      rw [runPipe_host, ih h.2, hexec op m h.1]
    | record => exact ih h m
    | waitEvent => exact ih h m
    | drain => exact ih h m

end InBounds

/-! ### The dump side -/

/-- `des_offset` is behind `current_buf` by one half. -/
def DumpCursor.Placed (c : DumpCursor) : Prop := c.desOffset = dumpHeaderSize + (c.currentBuf - 1) * stagingBufSize

theorem DumpCursor.placed_start : DumpCursor.start.Placed := by
  simp [DumpCursor.Placed, DumpCursor.start]

section Dump
variable {currentOffset : Nat}

theorem mod_two_lt (n : Nat) : n % 2 < 2 := Nat.mod_lt n (by decide)

theorem DumpCursor.Placed.flush {c : DumpCursor} (hc : c.Placed) (hcur : 0 < c.currentBuf) :
    dumpHeaderSize ≤ c.desOffset ∧ c.desOffset + stagingBufSize + c.bufOffset = c.pos := by
  unfold DumpCursor.Placed at hc
  unfold DumpCursor.pos
  have := pred_mul_add hcur stagingBufSize
  omega

theorem DumpCursor.Placed.advance {c : DumpCursor} (hc : c.Placed) {n : Nat} (hn : c.bufOffset + n ≤ stagingBufSize)
    (hend : c.pos + n ≤ currentOffset) :
    InBounds currentOffset (c.advance n).1 ∧ (c.advance n).2.Placed := by
  unfold DumpCursor.advance
  by_cases hlt : c.bufOffset + n < stagingBufSize
  · rw [dif_pos hlt]
    exact ⟨inBounds_nil, hc⟩
  have hfull : (c.bufOffset + n == stagingBufSize) = true := beq_iff_eq.2 (by omega)
  rw [dif_neg hlt, hfull]
  by_cases hcur : 0 < c.currentBuf
  · obtain ⟨h1, h2⟩ := hc.flush hcur
    rw [if_pos hcur]
    refine ⟨?_, ?_⟩
    · rw [inBounds_host, inBounds_waitEvent, inBounds_host, inBounds_record]
      exact ⟨rfl, ⟨mod_two_lt _, le_rfl, h1, by omega⟩, inBounds_nil⟩
    · unfold DumpCursor.Placed at hc ⊢
      show c.desOffset + stagingBufSize = dumpHeaderSize + (c.currentBuf + 1 - 1) * stagingBufSize
      have := pred_mul_add hcur stagingBufSize
      rw [Nat.add_sub_cancel]
      omega
  · rw [if_neg hcur]
    refine ⟨?_, ?_⟩
    · rw [inBounds_host, inBounds_record]
      exact ⟨rfl, inBounds_nil⟩
    · unfold DumpCursor.Placed at hc ⊢
      show c.desOffset = dumpHeaderSize + (c.currentBuf + 1 - 1) * stagingBufSize
      rw [Nat.add_sub_cancel, hc, show c.currentBuf - 1 = c.currentBuf by omega]

theorem dumpBlock_inBounds (rule : ChunkRule) (d size : Nat) (c : DumpCursor) (hc : c.Placed)
    (hend : c.pos + size ≤ currentOffset) :
    InBounds currentOffset (dumpBlock rule d size c).1 ∧ (dumpBlock rule d size c).2.Placed := by
  fun_induction dumpBlock rule d size c with
  | case1 d size c h curSize next rest ih =>
    have hle : curSize ≤ size ∧ c.bufOffset + curSize ≤ stagingBufSize := c.chunk_le rule d size
    have hpos : next.2.pos = c.pos + curSize := c.pos_advance hle.2
    obtain ⟨h1, h2⟩ := hc.advance (n := curSize) hle.2 (by omega : c.pos + curSize ≤ currentOffset)
    obtain ⟨h3, h4⟩ := ih h2 (by omega)
    refine ⟨?_, h4⟩
    rw [inBounds_enqueue, inBounds_append]
    exact ⟨⟨mod_two_lt _, hle.2⟩, h1, h3⟩
  | case2 d size c h => exact ⟨inBounds_nil, hc⟩

theorem streamBlocks_inBounds (rule : ChunkRule) (blocks : List (Nat × Nat)) (c : DumpCursor) (hc : c.Placed)
    (hend : c.pos + totalSize blocks ≤ currentOffset) :
    InBounds currentOffset (streamBlocks rule blocks c).1 ∧ (streamBlocks rule blocks c).2.Placed := by
  induction blocks generalizing c with
  | nil => exact ⟨inBounds_nil, hc⟩
  | cons b blocks ih =>
    rw [totalSize_cons] at hend
    obtain ⟨h1, h2⟩ := dumpBlock_inBounds rule b.1 b.2 c hc (by omega : c.pos + b.2 ≤ currentOffset)
    have hpos := dumpBlock_pos rule b.1 b.2 c
    obtain ⟨h3, h4⟩ := ih _ h2 (by omega)
    unfold streamBlocks
    rw [inBounds_append]
    exact ⟨⟨h1, h3⟩, h4⟩

theorem DumpCursor.Placed.finish {c : DumpCursor} (hc : c.Placed) : InBounds c.pos (c.finish c.pos) := by
  have hbuf := c.bufOffset_lt
  unfold DumpCursor.finish
  by_cases hcur : 0 < c.currentBuf
  · obtain ⟨h1, h2⟩ := hc.flush hcur
    rw [if_pos hcur, inBounds_waitEvent, inBounds_host, inBounds_drain, inBounds_host, inBounds_host]
    refine ⟨⟨mod_two_lt _, le_rfl, h1, by omega⟩, ⟨mod_two_lt _, by omega, by omega, by omega⟩, ?_, inBounds_nil⟩
    exact beq_iff_eq.2 h2
  · have hz : c.currentBuf = 0 := by omega
    have hpos : c.desOffset + c.bufOffset = c.pos := by
      unfold DumpCursor.Placed at hc
      unfold DumpCursor.pos
      rw [hc, hz]
    have hdes : dumpHeaderSize ≤ c.desOffset := by
      unfold DumpCursor.Placed at hc
      omega
    rw [if_neg hcur, inBounds_drain, inBounds_host, inBounds_host]
    exact ⟨⟨mod_two_lt _, by omega, hdes, by omega⟩, beq_iff_eq.2 hpos, inBounds_nil⟩

theorem dumpCmds_inBounds {rule : ChunkRule} {shmSize : Nat} {blocks : List (Nat × Nat)} {fs fs' : SharedMemFs}
    {cmds : List PipeCmd} (h : dumpCmds rule shmSize blocks fs = .ok (cmds, fs')) : InBounds fs'.currentOffset cmds := by
  obtain ⟨-, rfl, hoffset⟩ := dumpCmds_inv h
  have hpos := streamBlocks_pos rule blocks DumpCursor.start
  rw [DumpCursor.pos_start] at hpos
  obtain ⟨h1, h2⟩ := streamBlocks_inBounds rule blocks DumpCursor.start DumpCursor.placed_start
    (show DumpCursor.start.pos + totalSize blocks ≤ fs'.currentOffset by rw [DumpCursor.pos_start, hoffset])
  rw [inBounds_record, inBounds_append]
  refine ⟨h1, ?_⟩
  rw [hoffset, ← hpos]
  exact h2.finish

end Dump

/-! ### The restore side -/

section Restore
variable {currentOffset : Nat}

theorem RestoreCursor.advance_inBounds (c : RestoreCursor) {n : Nat} (hsrc : dumpHeaderSize ≤ c.srcOffset)
    (hn : c.bufOffset + n ≤ stagingBufSize) (hend : c.pos + n ≤ currentOffset) :
    InBounds currentOffset (c.advance currentOffset n).1 ∧ dumpHeaderSize ≤ (c.advance currentOffset n).2.srcOffset := by
  unfold RestoreCursor.advance
  by_cases hlt : c.bufOffset + n < stagingBufSize
  · rw [dif_pos hlt]
    exact ⟨inBounds_nil, hsrc⟩
  have hfull : (c.bufOffset + n == stagingBufSize) = true := beq_iff_eq.2 (by omega)
  have hle : c.srcOffset + stagingBufSize ≤ currentOffset := by
    unfold RestoreCursor.pos at hend
    omega
  have hcopy : cpuCopySize currentOffset (c.srcOffset + stagingBufSize) ≤ stagingBufSize ∧
      c.srcOffset + stagingBufSize + cpuCopySize currentOffset (c.srcOffset + stagingBufSize) ≤ currentOffset := by
    rw [cpuCopySize, sizeSub_of_le hle]
    omega
  rw [dif_neg hlt, hfull, inBounds_host, inBounds_waitEvent, inBounds_host, inBounds_record]
  refine ⟨⟨rfl, ⟨mod_two_lt _, hcopy.1, by omega, hcopy.2⟩, inBounds_nil⟩, ?_⟩
  exact Nat.le_trans hsrc (Nat.le_add_right ..)

theorem restoreBlock_inBounds (rule : ChunkRule) (d offset size : Nat) (c : RestoreCursor) (hoffset : offset = c.pos)
    (hsrc : dumpHeaderSize ≤ c.srcOffset) (hend : offset + size ≤ currentOffset) :
    InBounds currentOffset (restoreBlock rule currentOffset d offset size c).1 ∧
      dumpHeaderSize ≤ (restoreBlock rule currentOffset d offset size c).2.srcOffset := by
  fun_induction restoreBlock rule currentOffset d offset size c with
  | case1 d offset size c h n next rest ih =>
    have hle : n ≤ size ∧ c.bufOffset + n ≤ stagingBufSize := c.chunk_le rule d size
    have hpos : next.2.pos = c.pos + n := c.pos_advance currentOffset hle.2
    subst hoffset
    obtain ⟨h1, h2⟩ := c.advance_inBounds hsrc hle.2 (by omega : c.pos + n ≤ currentOffset)
    obtain ⟨h3, h4⟩ := ih hpos.symm h2 (by omega)
    refine ⟨?_, h4⟩
    rw [c.sizeSub_pos, inBounds_host, inBounds_enqueue, inBounds_append]
    exact ⟨beq_iff_eq.2 rfl, ⟨mod_two_lt _, hle.2⟩, h1, h3⟩
  | case2 d offset size c h => exact ⟨inBounds_nil, hsrc⟩

theorem restoreBlocks_inBounds (rule : ChunkRule) (blocks : List (Nat × Nat)) (c : RestoreCursor)
    (hsrc : dumpHeaderSize ≤ c.srcOffset) (hend : c.pos + totalSize blocks ≤ currentOffset) :
    InBounds currentOffset (restoreBlocks rule currentOffset (layout c.pos blocks) c).1 := by
  induction blocks generalizing c with
  | nil => exact inBounds_nil
  | cons b blocks ih =>
    rw [totalSize_cons] at hend
    obtain ⟨h1, h2⟩ := restoreBlock_inBounds rule b.1 c.pos b.2 c rfl hsrc (by omega : c.pos + b.2 ≤ currentOffset)
    have hpos := restoreBlock_pos rule currentOffset b.1 c.pos b.2 c
    have hrest := ih _ h2 (by omega)
    rw [hpos] at hrest
    simp only [layout, restoreBlocks]
    rw [inBounds_append]
    exact ⟨h1, hrest⟩

theorem restoreCmds_inBounds (rule : ChunkRule) {fs : SharedMemFs} {blocks : List (Nat × Nat)}
    (hfiles : fs.fileList = layout dumpHeaderSize blocks) (hoffset : fs.currentOffset = dumpHeaderSize + totalSize blocks) :
    InBounds fs.currentOffset (restoreCmds rule fs) := by
  unfold restoreCmds
  rw [hfiles]
  cases blocks with
  | nil => exact inBounds_nil
  | cons b blocks =>
    have hle : dumpHeaderSize ≤ fs.currentOffset := by omega
    have hblocks := restoreBlocks_inBounds rule (b :: blocks) ⟨0, 0, dumpHeaderSize, stagingBufSize_pos⟩ le_rfl
      (show RestoreCursor.pos ⟨0, 0, dumpHeaderSize, stagingBufSize_pos⟩ + _ ≤ fs.currentOffset by
        simp only [RestoreCursor.pos]
        omega)
    simp only [layout, RestoreCursor.pos, Nat.add_zero] at hblocks ⊢
    rw [inBounds_record, inBounds_host, inBounds_append]
    refine ⟨⟨by decide, ?_, le_rfl, ?_⟩, hblocks, inBounds_nil⟩
    · exact Nat.min_le_right ..
    · rw [cpuCopySize, sizeSub_of_le hle]
      omega

end Restore

/-! ### The iterations -/

/-- An iteration of the dump loop over a block, with what it finds. -/
structure DumpIter where
  d : Nat
  size : Nat
  c : DumpCursor

namespace DumpIter

/-- `cur_size`. -/
def curSize (rule : ChunkRule) (it : DumpIter) : Nat := it.c.chunk rule it.d it.size

def cmds (rule : ChunkRule) (it : DumpIter) : List PipeCmd :=
  .enqueue (.devToHost (it.c.currentBuf % 2) it.c.bufOffset it.d (it.curSize rule)) :: (it.c.advance (it.curSize rule)).1

/-- `STAGING_BUF_SIZE - buf_offset`, the subtraction of `granule_clamp` and `size -= cur_size` do not go below
zero, and something is copied. -/
structure Sound (rule : ChunkRule) (it : DumpIter) : Prop where
  room : it.c.bufOffset ≤ stagingBufSize
  toBoundary : it.d % vmmGranuleSize ≤ vmmGranuleSize
  left : it.curSize rule ≤ it.size
  progress : 0 < it.curSize rule

end DumpIter

def dumpIters (rule : ChunkRule) (d size : Nat) (c : DumpCursor) : List DumpIter :=
  if _h : 0 < size then
    let n := c.chunk rule d size
    ⟨d, size, c⟩ :: dumpIters rule (d + n) (size - n) (c.advance n).2
  else []
termination_by size
decreasing_by
  have := c.chunk_pos rule d _h
  omega

/-- The iterations of all blocks. -/
def streamIters (rule : ChunkRule) : List (Nat × Nat) → DumpCursor → List DumpIter
  | [], _ => []
  | b :: blocks, c => dumpIters rule b.1 b.2 c ++ streamIters rule blocks (dumpBlock rule b.1 b.2 c).2

theorem dumpIters_of_pos (rule : ChunkRule) (d : Nat) {size : Nat} (c : DumpCursor) (h : 0 < size) :
    dumpIters rule d size c = ⟨d, size, c⟩ ::
      dumpIters rule (d + c.chunk rule d size) (size - c.chunk rule d size) (c.advance (c.chunk rule d size)).2 := by
  rw [dumpIters, dif_pos h]

theorem flatMap_dumpIters (rule : ChunkRule) (d size : Nat) (c : DumpCursor) :
    (dumpIters rule d size c).flatMap (DumpIter.cmds rule) = (dumpBlock rule d size c).1 := by
  fun_induction dumpBlock rule d size c with
  | case1 d size c h curSize next rest ih =>
    rw [dumpIters_of_pos rule d c h, List.flatMap_cons, ih]
    rfl
  | case2 d size c h =>
    rw [dumpIters, dif_neg h]
    rfl

theorem flatMap_streamIters (rule : ChunkRule) (blocks : List (Nat × Nat)) (c : DumpCursor) :
    (streamIters rule blocks c).flatMap (DumpIter.cmds rule) = (streamBlocks rule blocks c).1 := by
  induction blocks generalizing c with
  | nil => rfl
  | cons b blocks ih =>
    rw [streamIters, List.flatMap_append, flatMap_dumpIters, ih]
    rfl

theorem sound_dumpIters (rule : ChunkRule) (d size : Nat) (c : DumpCursor) : ∀ it ∈ dumpIters rule d size c, it.Sound rule := by
  fun_induction dumpIters rule d size c with
  | case1 d size c h n ih =>
    refine List.forall_mem_cons.2 ⟨⟨?_, ?_, ?_, ?_⟩, ih⟩
    · exact Nat.le_of_lt c.bufOffset_lt
    · exact Nat.le_of_lt (Nat.mod_lt d (by decide))
    · exact (c.chunk_le rule d size).1
    · exact c.chunk_pos rule d h
  | case2 d size c h => exact fun it hit => absurd hit List.not_mem_nil

theorem sound_streamIters (rule : ChunkRule) (blocks : List (Nat × Nat)) (c : DumpCursor) :
    ∀ it ∈ streamIters rule blocks c, it.Sound rule := by
  induction blocks generalizing c with
  | nil => exact fun it hit => absurd hit List.not_mem_nil
  | cons b blocks ih =>
    rw [streamIters, List.forall_mem_append]
    exact ⟨sound_dumpIters rule b.1 b.2 c, ih _⟩

/-- An iteration of the restore loop over a file. -/
structure RestoreIter where
  requestedAddr : Nat
  offset : Nat
  size : Nat
  c : RestoreCursor

namespace RestoreIter

/-- `this_copy_size`. -/
def thisCopySize (rule : ChunkRule) (it : RestoreIter) : Nat := it.c.chunk rule it.requestedAddr it.size

def cmds (rule : ChunkRule) (currentOffset : Nat) (it : RestoreIter) : List PipeCmd :=
  .host (.assert (it.c.bufOffset == sizeSub it.offset it.c.srcOffset)) ::
    .enqueue (.hostToDev it.requestedAddr (it.c.currentBuf % 2) (sizeSub it.offset it.c.srcOffset) (it.thisCopySize rule)) ::
      (it.c.advance currentOffset (it.thisCopySize rule)).1

/-- As on the dump side, and `offset - src_offset` and, when the half is used up,
`current_offset - src_offset` do not go below zero. -/
structure Sound (rule : ChunkRule) (currentOffset : Nat) (it : RestoreIter) : Prop where
  room : it.c.bufOffset ≤ stagingBufSize
  toBoundary : it.requestedAddr % vmmGranuleSize ≤ vmmGranuleSize
  left : it.thisCopySize rule ≤ it.size
  progress : 0 < it.thisCopySize rule
  place : it.c.srcOffset ≤ it.offset
  refill : stagingBufSize ≤ it.c.bufOffset + it.thisCopySize rule → it.c.srcOffset + stagingBufSize ≤ currentOffset

end RestoreIter

def restoreIters (rule : ChunkRule) (currentOffset requestedAddr offset size : Nat) (c : RestoreCursor) : List RestoreIter :=
  if _h : 0 < size then
    let n := c.chunk rule requestedAddr size
    ⟨requestedAddr, offset, size, c⟩ ::
      restoreIters rule currentOffset (requestedAddr + n) (offset + n) (size - n) (c.advance currentOffset n).2
  else []
termination_by size
decreasing_by
  have := c.chunk_pos rule requestedAddr _h
  omega

/-- The iterations of all files. -/
def fileIters (rule : ChunkRule) (currentOffset : Nat) : List SharedMemFile → RestoreCursor → List RestoreIter
  | [], _ => []
  | f :: files, c => restoreIters rule currentOffset f.ptr f.startOffset f.size c ++
      fileIters rule currentOffset files (restoreBlock rule currentOffset f.ptr f.startOffset f.size c).2

theorem restoreIters_of_pos (rule : ChunkRule) (currentOffset d offset : Nat) {size : Nat} (c : RestoreCursor) (h : 0 < size) :
    restoreIters rule currentOffset d offset size c = ⟨d, offset, size, c⟩ ::
      restoreIters rule currentOffset (d + c.chunk rule d size) (offset + c.chunk rule d size) (size - c.chunk rule d size)
        (c.advance currentOffset (c.chunk rule d size)).2 := by
  rw [restoreIters, dif_pos h]

theorem flatMap_restoreIters (rule : ChunkRule) (currentOffset d offset size : Nat) (c : RestoreCursor) :
    (restoreIters rule currentOffset d offset size c).flatMap (RestoreIter.cmds rule currentOffset) =
      (restoreBlock rule currentOffset d offset size c).1 := by
  fun_induction restoreBlock rule currentOffset d offset size c with
  | case1 d offset size c h n next rest ih =>
    rw [restoreIters_of_pos rule currentOffset d offset c h, List.flatMap_cons, ih]
    rfl
  | case2 d offset size c h =>
    rw [restoreIters, dif_neg h]
    rfl

theorem flatMap_fileIters (rule : ChunkRule) (currentOffset : Nat) (files : List SharedMemFile) (c : RestoreCursor) :
    (fileIters rule currentOffset files c).flatMap (RestoreIter.cmds rule currentOffset) =
      (restoreBlocks rule currentOffset files c).1 := by
  induction files generalizing c with
  | nil => rfl
  | cons f files ih =>
    rw [fileIters, List.flatMap_append, flatMap_restoreIters, ih]
    rfl

theorem sound_restoreIters (rule : ChunkRule) (currentOffset d offset size : Nat) (c : RestoreCursor) (hoffset : offset = c.pos)
    (hend : offset + size ≤ currentOffset) :
    ∀ it ∈ restoreIters rule currentOffset d offset size c, it.Sound rule currentOffset := by
  fun_induction restoreIters rule currentOffset d offset size c with
  | case1 d offset size c h n ih =>
    have hle : n ≤ size ∧ c.bufOffset + n ≤ stagingBufSize := c.chunk_le rule d size
    have hpos := c.pos_advance currentOffset hle.2
    have hsrc : c.srcOffset + c.bufOffset = offset := hoffset.symm
    refine List.forall_mem_cons.2 ⟨⟨?_, ?_, hle.1, ?_, ?_, fun hfull => ?_⟩, ih (by omega) (by omega)⟩
    · exact Nat.le_of_lt c.bufOffset_lt
    · exact Nat.le_of_lt (Nat.mod_lt d (by decide))
    · exact c.chunk_pos rule d h
    · show c.srcOffset ≤ offset
      omega
    · have hfull : stagingBufSize ≤ c.bufOffset + n := hfull
      show c.srcOffset + stagingBufSize ≤ currentOffset
      omega
  | case2 d offset size c h => exact fun it hit => absurd hit List.not_mem_nil

theorem sound_fileIters (rule : ChunkRule) (currentOffset : Nat) (blocks : List (Nat × Nat)) (c : RestoreCursor)
    (hend : c.pos + totalSize blocks ≤ currentOffset) :
    ∀ it ∈ fileIters rule currentOffset (layout c.pos blocks) c, it.Sound rule currentOffset := by
  induction blocks generalizing c with
  | nil => exact fun it hit => absurd hit List.not_mem_nil
  | cons b blocks ih =>
    rw [totalSize_cons] at hend
    have hpos := restoreBlock_pos rule currentOffset b.1 c.pos b.2 c
    have hrest := ih (restoreBlock rule currentOffset b.1 c.pos b.2 c).2 (by omega)
    rw [hpos] at hrest
    rw [layout, fileIters, List.forall_mem_append]
    exact ⟨sound_restoreIters rule currentOffset b.1 c.pos b.2 c rfl (by omega), hrest⟩

/-! ### The four functions -/

/-- What a dump that passed its checks has done: its operations are in bounds, the entries follow each other
from the header on and have indices below `MAX_FILE_NUM`, and no iteration went wrong. -/
structure DumpSound (rule : ChunkRule) (blocks : List (Nat × Nat)) (cmds : List PipeCmd) (fs' : SharedMemFs) : Prop where
  inBounds : InBounds fs'.currentOffset cmds
  entries : fs'.fileList = layout dumpHeaderSize blocks
  ends : fs'.currentOffset = dumpHeaderSize + totalSize blocks
  indices : fs'.fileNum = blocks.length ∧ fs'.fileNum < maxFileNum
  loop : cmds = .record :: ((streamIters rule blocks DumpCursor.start).flatMap (DumpIter.cmds rule) ++
    (streamBlocks rule blocks DumpCursor.start).2.finish fs'.currentOffset)
  iterations : ∀ it ∈ streamIters rule blocks DumpCursor.start, it.Sound rule

/-- The same of a restore of the dump `fs`; `first` is the subtraction that fills the first half. -/
structure RestoreSound (rule : ChunkRule) (fs : SharedMemFs) : Prop where
  inBounds : InBounds fs.currentOffset (restoreCmds rule fs)
  indices : fs.fileNum < maxFileNum
  first : ∀ f ∈ fs.fileList, f.startOffset ≤ fs.currentOffset
  loop : ∀ f files, fs.fileList = f :: files → restoreCmds rule fs =
    .record :: .host (.fromDump 0 f.startOffset (cpuCopySize fs.currentOffset f.startOffset)) ::
      ((fileIters rule fs.currentOffset fs.fileList ⟨0, 0, f.startOffset, stagingBufSize_pos⟩).flatMap
        (RestoreIter.cmds rule fs.currentOffset) ++ [.drain])
  iterations : ∀ f files, fs.fileList = f :: files →
    ∀ it ∈ fileIters rule fs.currentOffset fs.fileList ⟨0, 0, f.startOffset, stagingBufSize_pos⟩,
      it.Sound rule fs.currentOffset

theorem SharedMemFs.fileNum_addFiles {shmSize : Nat} {blocks : List (Nat × Nat)} {fs fs' : SharedMemFs}
    (h : SharedMemFs.addFiles shmSize blocks fs = .ok fs') (hlt : fs.fileNum < maxFileNum) : fs'.fileNum < maxFileNum := by
  induction blocks generalizing fs with
  | nil =>
    obtain rfl := Except.ok.inj h
    exact hlt
  | cons b blocks ih =>
    obtain ⟨fs₁, hadd, hrest⟩ := bind_eq_ok.1 h
    refine ih hrest ?_
    simp only [SharedMemFs.addFile] at hadd
    split_ifs at hadd with h1 h2
    obtain rfl := Except.ok.inj hadd
    exact Nat.not_le.1 h2

theorem length_layout (offset : Nat) (blocks : List (Nat × Nat)) : (layout offset blocks).length = blocks.length := by
  induction blocks generalizing offset with
  | nil => rfl
  | cons b blocks ih => rw [layout, List.length_cons, List.length_cons, ih]

section Sound
variable {rule : ChunkRule} {shmSize : Nat} {blocks : List (Nat × Nat)} {fs fs' : SharedMemFs} {cmds : List PipeCmd}
  (h : dumpCmds rule shmSize blocks fs = .ok (cmds, fs'))
include h

theorem fileNum_dumpCmds : fs'.fileNum = blocks.length ∧ fs'.fileNum < maxFileNum := by
  have hfiles := (dumpCmds_inv h).1
  refine ⟨?_, ?_⟩
  · have hlen := congrArg List.length hfiles
    rwa [SharedMemFs.fileList, List.length_map, List.length_range, length_layout] at hlen
  · simp only [dumpCmds, dumpBlocks_eq] at h
    cases hadd : SharedMemFs.addFiles shmSize blocks { fs with fileNum := 0, currentOffset := dumpHeaderSize } with
    | error e =>
      rw [hadd] at h
      exact absurd h (by simp [bind, Except.bind, Except.map])
    | ok fs₁ =>
      rw [hadd] at h
      obtain ⟨-, rfl⟩ := Prod.mk.inj (Except.ok.inj h)
      exact SharedMemFs.fileNum_addFiles hadd (show 0 < maxFileNum by decide)

theorem dumpSound : DumpSound rule blocks cmds fs' := by
  obtain ⟨hfiles, hcmds, hoffset⟩ := dumpCmds_inv h
  refine ⟨dumpCmds_inBounds h, hfiles, hoffset, fileNum_dumpCmds h, ?_, sound_streamIters rule blocks _⟩
  rw [flatMap_streamIters, hoffset, ← DumpCursor.pos_start, ← streamBlocks_pos rule]
  exact hcmds

theorem restoreSound (rule' : ChunkRule) : RestoreSound rule' fs' := by
  obtain ⟨hfiles, -, hoffset⟩ := dumpCmds_inv h
  refine ⟨restoreCmds_inBounds rule' hfiles hoffset, (fileNum_dumpCmds h).2, fun f hf => ?_, fun f files hf => ?_,
    fun f files hf => ?_⟩
  · rw [hfiles] at hf
    have := end_le_of_mem_layout hf
    omega
  · unfold restoreCmds
    rw [flatMap_fileIters, hf]
  · cases blocks with
    | nil =>
      rw [hfiles] at hf
      exact absurd hf (by simp [layout])
    | cons b blocks =>
      rw [hfiles, layout] at hf
      obtain ⟨rfl, -⟩ := List.cons.inj hf
      rw [hfiles]
      exact sound_fileIters rule' fs'.currentOffset (b :: blocks) ⟨0, 0, dumpHeaderSize, stagingBufSize_pos⟩
        (by simp only [RestoreCursor.pos]; omega)

end Sound

namespace VGpu

theorem selectiveBlocks_ok (t : ExtTreeMap Nat Nat) (req : SelectiveCrRequest) :
    ∃ blocks, selectiveBlocks t req = .ok blocks := by
  have hlookup : ∀ (lookup : Nat → Except Exit (Nat × Nat)) (bases : List Nat), (∀ p ∈ bases, ∃ b, lookup p = .ok b) →
      ∃ blocks, bases.mapM lookup = .ok blocks := by
    intro lookup bases hall
    induction bases with
    | nil => exact ⟨[], rfl⟩
    | cons p bases ih =>
      obtain ⟨⟨b, hb⟩, hrest⟩ := List.forall_mem_cons.1 hall
      obtain ⟨blocks, hblocks⟩ := ih hrest
      refine ⟨b :: blocks, ?_⟩
      rw [List.mapM_cons, hb, hblocks]
      rfl
  refine hlookup _ _ fun p hp => ?_
  rw [ExtTreeSet.mem_toList, mem_blocksToSnapshot] at hp
  obtain ⟨r, -, n, hfind⟩ := hp
  have hget := ExtTreeMap.mem_toList_iff_getElem?_eq_some.1 (List.mem_of_find?_eq_some hfind)
  exact ⟨(p, n), by rw [hget]⟩

/-- **Bounds and assertions of the pipelines**: for every table and every request, a dump that passes the
limit checks is sound, and so is a restore of it. -/
theorem pipelines_sound (shmSize : Nat) (s : VGpu) :
    (∀ cmds fs', dumpCmds wholeChunk shmSize (ckptBlocks s.allocatedMemory) s.fs = .ok (cmds, fs') →
        DumpSound wholeChunk (ckptBlocks s.allocatedMemory) cmds fs' ∧
          RestoreSound wholeChunk fs' ∧ RestoreSound granuleChunk fs') ∧
      ∀ req, ∃ blocks, selectiveBlocks s.allocatedMemory req = .ok blocks ∧
        ∀ cmds fs', dumpCmds granuleChunk shmSize blocks s.fs = .ok (cmds, fs') →
          DumpSound granuleChunk blocks cmds fs' ∧ RestoreSound granuleChunk fs' ∧ RestoreSound wholeChunk fs' := by
  refine ⟨fun cmds fs' h => ?_, fun req => ?_⟩
  · exact ⟨dumpSound h, restoreSound h wholeChunk, restoreSound h granuleChunk⟩
  · obtain ⟨blocks, hblocks⟩ := selectiveBlocks_ok s.allocatedMemory req
    refine ⟨blocks, hblocks, fun cmds fs' h => ?_⟩
    exact ⟨dumpSound h, restoreSound h granuleChunk, restoreSound h wholeChunk⟩

theorem pipelines_sound_twoBlocks : ∃ cmds fs', dumpCmds wholeChunk shmSizeDefault (ckptBlocks twoBlocks.allocatedMemory)
    twoBlocks.fs = .ok (cmds, fs') ∧ DumpSound wholeChunk (ckptBlocks twoBlocks.allocatedMemory) cmds fs' := by
  obtain ⟨cmds, fs', h⟩ := dumpCmds_ok wholeChunk twoBlocks.fs
    (show dumpHeaderSize + totalSize (ckptBlocks twoBlocks.allocatedMemory) ≤ shmSizeDefault by decide) (by decide)
  exact ⟨cmds, fs', h, ((pipelines_sound shmSizeDefault twoBlocks).1 cmds fs' h).1⟩

end VGpu

end GpuCr
