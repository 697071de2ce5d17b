import GpuCr.VGpu.Bounds
import GpuCr.VGpu.CopyShape

/-!
# The clamp changes nothing but the copies

A loop with the clamp and the same loop without it go through the payload in different steps. What they
leave behind depends on how far they have come only: the counters are a function of the place in the payload
(`DumpCursor.eq_of_placed`), what has been flushed is the image of the blocks up to `des_offset`
(`streamBlocks_dump`), and a dump that is complete is that image as a whole (`dumpCmds_dump`).
-/

namespace GpuCr

open Lib Lib.AsyncStream Lib.Chunks Lib.Run Std

/-- The dump file after every block has been copied to its place. -/
def dumpedImage (dev : Nat → Byte) (files : List SharedMemFile) (dump : Nat → Byte) : Nat → Byte :=
  files.foldl (fun dump f => blit dump f.startOffset dev f.ptr f.size) dump

section Image
variable (dev : Nat → Byte)

theorem dumpedImage_out (offset : Nat) (blocks : List (Nat × Nat)) (dump : Nat → Byte) {a : Nat}
    (ha : a < offset ∨ offset + totalSize blocks ≤ a) : dumpedImage dev (layout offset blocks) dump a = dump a := by
  induction blocks generalizing offset dump with
  | nil => rfl
  | cons b blocks ih =>
    rw [totalSize_cons] at ha
    have hrest := ih (offset + b.2) (blit dump offset dev b.1 b.2) (by omega)
    exact hrest.trans (blit_out _ _ (by omega))

theorem dumpedImage_in (offset : Nat) (blocks : List (Nat × Nat)) (dump : Nat → Byte) :
    ∀ f ∈ layout offset blocks, ∀ i < f.size, dumpedImage dev (layout offset blocks) dump (f.startOffset + i) = dev (f.ptr + i) := by
  induction blocks generalizing offset dump with
  | nil => exact fun f hf => absurd hf List.not_mem_nil
  | cons b blocks ih =>
    intro f hf i hi
    rcases List.mem_cons.1 hf with rfl | hf
    · have hrest := dumpedImage_out dev (offset + b.2) blocks (blit dump offset dev b.1 b.2)
        (a := offset + i) (Or.inl (by simp only at hi; omega))
      exact hrest.trans (blit_in _ _ hi)
    · exact ih _ _ f hf i hi

end Image

/-! ### The counters -/

theorem DumpCursor.eq_of_placed {c c' : DumpCursor} (hc : c.Placed) (hc' : c'.Placed) (hpos : c.pos = c'.pos) : c = c' := by
  have hbuf := c.bufOffset_lt
  have hbuf' := c'.bufOffset_lt
  unfold DumpCursor.pos at hpos
  unfold DumpCursor.Placed at hc hc'
  have hsum : c.bufOffset + stagingBufSize * c.currentBuf = c'.bufOffset + stagingBufSize * c'.currentBuf := by
    rw [Nat.mul_comm, Nat.mul_comm stagingBufSize c'.currentBuf]
    omega
  have hoffset : c.bufOffset = c'.bufOffset := by
    have hmod := congrArg (· % stagingBufSize) hsum
    simp only [Nat.add_mul_mod_self_left] at hmod
    rwa [Nat.mod_eq_of_lt hbuf, Nat.mod_eq_of_lt hbuf'] at hmod
  have hcur : c.currentBuf = c'.currentBuf := by
    have hmul : stagingBufSize * c.currentBuf = stagingBufSize * c'.currentBuf := by omega
    exact Nat.eq_of_mul_eq_mul_left stagingBufSize_pos hmul
  have hdes : c.desOffset = c'.desOffset := by rw [hc, hc', hcur]
  cases c
  cases c'
  simp_all

theorem placed_streamBlocks (rule : ChunkRule) (blocks : List (Nat × Nat)) :
    (streamBlocks rule blocks DumpCursor.start).2.Placed :=
  (streamBlocks_inBounds rule blocks DumpCursor.start DumpCursor.placed_start le_rfl).2

/-- The final counters are those of any other rule. -/
theorem streamBlocks_cursor (rule rule' : ChunkRule) (blocks : List (Nat × Nat)) :
    (streamBlocks rule blocks DumpCursor.start).2 = (streamBlocks rule' blocks DumpCursor.start).2 := by
  refine DumpCursor.eq_of_placed (placed_streamBlocks rule blocks) (placed_streamBlocks rule' blocks) ?_
  rw [streamBlocks_pos, streamBlocks_pos]

/-! ### The payload -/

/-- What runs from `des_offset` to a later one leaves the rest of the dump alone. -/
def KeepsDump (lo hi : Nat) (cmds : List PipeCmd) : Prop :=
  lo ≤ hi ∧ ∀ m a, a < lo ∨ hi ≤ a → (runPipe cmds m).dump a = m.dump a

theorem KeepsDump.append {lo mid hi : Nat} {p q : List PipeCmd} (hp : KeepsDump lo mid p) (hq : KeepsDump mid hi q) :
    KeepsDump lo hi (p ++ q) := by
  refine ⟨Nat.le_trans hp.1 hq.1, fun m a ha => ?_⟩
  have h1 := hp.1
  have h2 := hq.1
  rw [runPipe_append, hq.2 _ a (by omega), hp.2 m a (by omega)]

theorem keepsDump_nil (lo : Nat) : KeepsDump lo lo [] := ⟨le_rfl, fun _ _ _ => rfl⟩

theorem DumpCursor.keepsDump_advance (c : DumpCursor) (n : Nat) : KeepsDump c.desOffset (c.advance n).2.desOffset (c.advance n).1 := by
  unfold DumpCursor.advance
  split_ifs with hlt hcur
  · exact keepsDump_nil _
  · refine ⟨Nat.le_add_right .., fun m a ha => ?_⟩
    dsimp only
    rw [runPipe_host, runPipe_waitEvent, runPipe_host, runPipe_record, runPipe_nil, assert_exec, toDump_eq]
    exact blit_out _ _ ha
  · exact ⟨le_rfl, fun _ _ _ => rfl⟩

theorem keepsDump_dumpBlock (rule : ChunkRule) (d size : Nat) (c : DumpCursor) :
    KeepsDump c.desOffset (dumpBlock rule d size c).2.desOffset (dumpBlock rule d size c).1 := by
  fun_induction dumpBlock rule d size c with
  | case1 d size c h curSize next rest ih =>
    have hcopy : KeepsDump c.desOffset c.desOffset [.enqueue (.devToHost (c.currentBuf % 2) c.bufOffset d curSize)] :=
      ⟨le_rfl, fun _ _ _ => rfl⟩
    exact hcopy.append ((c.keepsDump_advance curSize).append ih)
  | case2 d size c h => exact keepsDump_nil _

theorem keepsDump_streamBlocks (rule : ChunkRule) (blocks : List (Nat × Nat)) (c : DumpCursor) :
    KeepsDump c.desOffset (streamBlocks rule blocks c).2.desOffset (streamBlocks rule blocks c).1 := by
  induction blocks generalizing c with
  | nil => exact keepsDump_nil _
  | cons b blocks ih => exact (keepsDump_dumpBlock rule b.1 b.2 c).append (ih _)

theorem streamBlocks_dump (rule : ChunkRule) (blocks : List (Nat × Nat)) (m : PipeMem) (a : Nat) :
    (runPipe (streamBlocks rule blocks DumpCursor.start).1 m).dump a =
      if dumpHeaderSize ≤ a ∧ a < (streamBlocks rule blocks DumpCursor.start).2.desOffset then
        dumpedImage m.dev (layout dumpHeaderSize blocks) m.dump a else m.dump a := by
  obtain ⟨hinv, -⟩ := streamBlocks_inv rule blocks DumpCursor.start m
    (DumpInv.start (dumpedImage m.dev (layout dumpHeaderSize blocks) m.dump) m)
    (by rw [DumpCursor.pos_start]; exact dumpedImage_in m.dev dumpHeaderSize blocks m.dump)
  split_ifs with ha
  · exact hinv.flushed a ha.1 ha.2
  · refine (keepsDump_streamBlocks rule blocks DumpCursor.start).2 m a ?_
    show a < dumpHeaderSize ∨ _
    omega

theorem dumpCmds_dump {rule : ChunkRule} {shmSize : Nat} {blocks : List (Nat × Nat)} {fs fs' : SharedMemFs}
    {cmds : List PipeCmd} (h : dumpCmds rule shmSize blocks fs = .ok (cmds, fs')) (m : PipeMem) :
    (runPipe cmds m).dump = dumpedImage m.dev fs'.fileList m.dump := by
  have hbounds := dumpCmds_inBounds h
  obtain ⟨hfiles, hcmds, hoffset⟩ := dumpCmds_inv h
  obtain ⟨hinv, -⟩ := streamBlocks_inv rule blocks DumpCursor.start m
    (DumpInv.start (dumpedImage m.dev (layout dumpHeaderSize blocks) m.dump) m)
    (by rw [DumpCursor.pos_start]; exact dumpedImage_in m.dev dumpHeaderSize blocks m.dump)
  have hpos := streamBlocks_pos rule blocks DumpCursor.start
  rw [DumpCursor.pos_start] at hpos
  rw [hfiles]
  funext a
  by_cases ha : dumpHeaderSize ≤ a ∧ a < dumpHeaderSize + totalSize blocks
  · rw [hcmds, runPipe_record, runPipe_append]
    exact (DumpCursor.finish_spec _ _ hinv).1 a ha.1 (hpos ▸ ha.2)
  · rw [dumpedImage_out m.dev dumpHeaderSize blocks m.dump (by omega)]
    exact runPipe_dump_out hbounds m (by omega)

/-! ### The copies of a block -/

/-- The copies cut the block `[base, base + size)` into pieces that no granule boundary cuts. -/
structure Chunked (b : Nat × Nat) (copies : List (Nat × Nat)) : Prop where
  pos : ∀ r ∈ copies, 0 < r.2
  consecutive : copies.IsChain fun r r' => r.1 + r.2 = r'.1
  disjoint : copies.Pairwise fun r r' => r.1 + r.2 ≤ r'.1
  cover : ∀ a, b.1 ≤ a ∧ a < b.1 + b.2 ↔ ∃ r ∈ copies, r.1 ≤ a ∧ a < r.1 + r.2
  inGranule : ∀ r ∈ copies, InGranule vmmGranuleSize r

/-- The copies are those of the blocks, one block after the other. -/
def ChunkedBlocks (blocks : List (Nat × Nat)) (copies : List (Nat × Nat)) : Prop :=
  ∃ parts : List (List (Nat × Nat)), copies = parts.flatten ∧ List.Forall₂ Chunked blocks parts

theorem chunked_cutBlock (b : Nat × Nat) (off : Nat) : Chunked b (cutBlock granuleChunk b.1 b.2 off) := by
  have htiles := tiles_cutBlock granuleChunk b.1 b.2 off
  exact ⟨htiles.pos, htiles.consecutive, htiles.disjoint, htiles.cover, inGranule_cutBlock b.1 b.2 off⟩

theorem chunkedBlocks_cutBlocks (blocks : List (Nat × Nat)) (off : Nat) :
    ChunkedBlocks blocks (cutBlocks granuleChunk blocks off) := by
  induction blocks generalizing off with
  | nil => exact ⟨[], rfl, .nil⟩
  | cons b blocks ih =>
    obtain ⟨parts, hparts, hall⟩ := ih (off + b.2)
    refine ⟨cutBlock granuleChunk b.1 b.2 off :: parts, ?_, .cons (chunked_cutBlock b off) hall⟩
    rw [cutBlocks, hparts, List.flatten_cons]

/-! ### Both loops -/

/-- The header, the exit and the counters of the loop over the blocks do not depend on the rule. -/
theorem dumpBlocks_snd (rule rule' : ChunkRule) (shmSize : Nat) (blocks : List (Nat × Nat)) (fs : SharedMemFs) :
    (dumpBlocks rule shmSize blocks fs DumpCursor.start).map Prod.snd =
      (dumpBlocks rule' shmSize blocks fs DumpCursor.start).map Prod.snd := by
  rw [dumpBlocks_eq, dumpBlocks_eq]
  cases SharedMemFs.addFiles shmSize blocks fs with
  | error e => rfl
  | ok fs' => exact congrArg (fun c => Except.ok (fs', c)) (streamBlocks_cursor rule rule' blocks)

theorem issuedCmds_dump (rule rule' : ChunkRule) (shmSize : Nat) (blocks : List (Nat × Nat)) (fs : SharedMemFs) (m : PipeMem) :
    (runPipe (issuedCmds rule shmSize blocks fs DumpCursor.start) m).dump =
      (runPipe (issuedCmds rule' shmSize blocks fs DumpCursor.start) m).dump := by
  funext a
  rw [issuedCmds_eq, issuedCmds_eq, streamBlocks_dump, streamBlocks_dump, streamBlocks_cursor rule rule']

theorem dumpCmds_header {rule : ChunkRule} (rule' : ChunkRule) {shmSize : Nat} {blocks : List (Nat × Nat)} {fs fs' : SharedMemFs}
    {cmds : List PipeCmd} (h : dumpCmds rule shmSize blocks fs = .ok (cmds, fs')) :
    ∃ cmds', dumpCmds rule' shmSize blocks fs = .ok (cmds', fs') := by
  simp only [dumpCmds, dumpBlocks_eq] at h ⊢
  cases hadd : SharedMemFs.addFiles shmSize blocks { fs with fileNum := 0, currentOffset := dumpHeaderSize } with
  | error e =>
    rw [hadd] at h
    exact absurd h (by simp [bind, Except.bind, Except.map])
  | ok fs₁ =>
    rw [hadd] at h
    obtain ⟨-, rfl⟩ := Prod.mk.inj (Except.ok.inj h)
    exact ⟨_, rfl⟩

/-- **Chunking changes nothing but the chunking**: for all blocks, the selective loops with the clamp and
without it end the same way, with the same header, counters and dump, also when the dump is cut short by a
limit, and restore the same device contents; the clamped copies cut each block into consecutive pieces inside
granules. -/
theorem chunking_irrelevant (shmSize : Nat) (blocks : List (Nat × Nat)) (fs : SharedMemFs) :
    (dumpBlocks granuleChunk shmSize blocks fs.reset DumpCursor.start).map Prod.snd =
        (dumpBlocks wholeChunk shmSize blocks fs.reset DumpCursor.start).map Prod.snd ∧
      (∀ m, (runPipe (issuedCmds granuleChunk shmSize blocks fs.reset DumpCursor.start) m).dump =
        (runPipe (issuedCmds wholeChunk shmSize blocks fs.reset DumpCursor.start) m).dump) ∧
      ChunkedBlocks (acceptedBlocks shmSize blocks fs.reset) (dumpCopies granuleChunk shmSize blocks fs) ∧
      ∀ cmds fs', dumpCmds granuleChunk shmSize blocks fs = .ok (cmds, fs') →
        ∃ cmds', dumpCmds wholeChunk shmSize blocks fs = .ok (cmds', fs') ∧
          (∀ m, (runPipe cmds m).dump = (runPipe cmds' m).dump) ∧
          (∀ m, (runPipe (restoreCmds granuleChunk fs') m).dev = (runPipe (restoreCmds wholeChunk fs') m).dev) ∧
          ChunkedBlocks blocks (devRanges cmds) ∧ ChunkedBlocks blocks (devRanges (restoreCmds granuleChunk fs')) := by
  refine ⟨dumpBlocks_snd _ _ shmSize blocks _, issuedCmds_dump _ _ shmSize blocks _, ?_, fun cmds fs' h => ?_⟩
  · rw [dumpCopies_eq]
    exact chunkedBlocks_cutBlocks _ 0
  · obtain ⟨hfiles, -, hoffset⟩ := dumpCmds_inv h
    obtain ⟨cmds', h'⟩ := dumpCmds_header wholeChunk h
    refine ⟨cmds', h', fun m => ?_, fun m => ?_, ?_, ?_⟩
    · rw [dumpCmds_dump h, dumpCmds_dump h']
    · rw [restoreCmds_dev granuleChunk hfiles hoffset, restoreCmds_dev wholeChunk hfiles hoffset]
    · rw [devRanges_dumpCmds h, dumpCopies_eq, acceptedBlocks_of_ok h]
      exact chunkedBlocks_cutBlocks blocks 0
    · rw [devRanges_restoreCmds, hfiles, fileBlocks_layout]
      exact chunkedBlocks_cutBlocks blocks 0

theorem chunking_twoBlocks : ∃ cmds fs', dumpCmds granuleChunk shmSizeDefault [(0x200001, 3), (0x600000, 0x200001)]
    VGpu.twoBlocks.fs = .ok (cmds, fs') ∧ ChunkedBlocks [(0x200001, 3), (0x600000, 0x200001)] (devRanges cmds) := by
  obtain ⟨cmds, fs', h⟩ := dumpCmds_ok granuleChunk VGpu.twoBlocks.fs
    (show dumpHeaderSize + totalSize [(0x200001, 3), (0x600000, 0x200001)] ≤ shmSizeDefault by decide) (by decide)
  obtain ⟨-, -, -, hall⟩ := chunking_irrelevant shmSizeDefault [(0x200001, 3), (0x600000, 0x200001)] VGpu.twoBlocks.fs
  obtain ⟨cmds', -, -, -, hchunked, -⟩ := hall cmds fs' h
  exact ⟨cmds, fs', h, hchunked⟩

end GpuCr
