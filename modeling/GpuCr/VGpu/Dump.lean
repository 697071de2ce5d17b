import GpuCr.VGpu.Pipeline

/-!
# What the dump loops write

Fix a target image `S` of the dump. `DumpInv S` is the invariant of the loops: everything below
`desOffset` is in the dump, the half before the current one holds the next `stagingBufSize` bytes of
`S`, and the current half holds the bytes after those. A device copy extends the current half
(`DumpInv.copy`), a full half is retired (`DumpInv.flush`), and the tail of the function empties both
halves (`DumpInv.finish`), so the dump ends up equal to `S`.
-/

namespace GpuCr

open Lib Lib.AsyncStream

/-! ### Effects of single commands

Rewriting with these keeps `exec` folded; unfolding it would make the checker evaluate the copies.
-/

section Commands
variable (p : List PipeCmd) (m : PipeMem)

theorem runPipe_nil : runPipe [] m = m := rfl

theorem runPipe_append (q : List PipeCmd) : runPipe (p ++ q) m = runPipe q (runPipe p m) := runNow_append ..

theorem runPipe_enqueue (c : PipeOp) : runPipe (.enqueue c :: p) m = runPipe p (c.exec m) := rfl

theorem runPipe_host (c : PipeOp) : runPipe (.host c :: p) m = runPipe p (c.exec m) := rfl

theorem runPipe_record : runPipe (.record :: p) m = runPipe p m := rfl

theorem runPipe_waitEvent : runPipe (.waitEvent :: p) m = runPipe p m := rfl

theorem runPipe_drain : runPipe (.drain :: p) m = runPipe p m := rfl

end Commands

theorem devToHost_eq (half off : Nat) (src : Nat) (n : Nat) (m : PipeMem) :
    (PipeOp.devToHost half off src n).exec m =
      { m with staging := Function.update m.staging half (blit (m.staging half) off m.dev src n) } := rfl

theorem devToHost_dev (half off : Nat) (src : Nat) (n : Nat) (m : PipeMem) :
    ((PipeOp.devToHost half off src n).exec m).dev = m.dev := rfl

theorem hostToDev_eq (dst : Nat) (half off n : Nat) (m : PipeMem) :
    (PipeOp.hostToDev dst half off n).exec m =
      { m with dev := blit m.dev dst (m.staging half) off n } := rfl

theorem toDump_eq (desOffset half n : Nat) (m : PipeMem) :
    (PipeOp.toDump desOffset half n).exec m =
      { m with dump := blit m.dump desOffset (m.staging half) 0 n } := by
  rw [PipeOp.exec, memcpyMulti_eq_blit]

theorem fromDump_eq (half srcOffset n : Nat) (m : PipeMem) :
    (PipeOp.fromDump half srcOffset n).exec m =
      { m with staging := Function.update m.staging half (blit (m.staging half) 0 m.dump srcOffset n) } := by
  rw [PipeOp.exec, memcpyMulti_eq_blit]

theorem assert_exec (b : Bool) (m : PipeMem) : (PipeOp.assert b).exec m = m := rfl

/-! ### The invariant -/

/-- `k` bytes are in the current half. -/
structure DumpInv (S : Nat → Byte) (currentBuf desOffset k : Nat) (m : PipeMem) : Prop where
  desOffset_eq : desOffset = dumpHeaderSize + (currentBuf - 1) * stagingBufSize
  flushed : ∀ a, dumpHeaderSize ≤ a → a < desOffset → m.dump a = S a
  previous : 0 < currentBuf → ∀ i < stagingBufSize,
    m.staging ((currentBuf - 1) % 2) i = S (desOffset + i)
  current : ∀ i < k, m.staging (currentBuf % 2) i =
    S (dumpHeaderSize + currentBuf * stagingBufSize + i)

/-- Offset in the dump of the byte that is put into the half next. -/
def DumpCursor.pos (c : DumpCursor) : Nat :=
  dumpHeaderSize + c.currentBuf * stagingBufSize + c.bufOffset

theorem DumpCursor.pos_start : DumpCursor.start.pos = dumpHeaderSize := by
  simp [DumpCursor.pos, DumpCursor.start]

theorem DumpInv.start (S : Nat → Byte) (m : PipeMem) :
    DumpInv S DumpCursor.start.currentBuf DumpCursor.start.desOffset DumpCursor.start.bufOffset m := by
  refine ⟨by simp [DumpCursor.start], ?_, ?_, ?_⟩
  · intro a h1 h2
    simp only [DumpCursor.start] at h2
    omega
  · intro h
    exact absurd h (by decide)
  · intro i hi
    exact absurd hi (Nat.not_lt_zero i)

theorem pred_mul_add {k : Nat} (hk : 0 < k) (n : Nat) : (k - 1) * n + n = k * n := by
  rw [← Nat.succ_mul, Nat.succ_eq_add_one, Nat.sub_add_cancel hk]

section Step
variable {S : Nat → Byte} {cur des k : Nat} {m : PipeMem}

theorem DumpInv.copy (hi : DumpInv S cur des k m) {d : Nat} {n : Nat}
    (hS : ∀ i < n, S (dumpHeaderSize + cur * stagingBufSize + k + i) = m.dev (d + i)) :
    DumpInv S cur des (k + n) ((PipeOp.devToHost (cur % 2) k d n).exec m) := by
  rw [devToHost_eq]
  refine ⟨hi.desOffset_eq, hi.flushed, ?_, ?_⟩
  · intro hcur i hlt
    -- the other half keeps its bytes
    have hne : (cur - 1) % 2 ≠ cur % 2 := by omega
    show Function.update m.staging (cur % 2) _ ((cur - 1) % 2) i = _
    rw [Function.update_of_ne hne]
    exact hi.previous hcur i hlt
  · intro i hlt
    show Function.update m.staging (cur % 2) _ (cur % 2) i = _
    rw [Function.update_self]
    by_cases hik : i < k
    · rw [blit_out _ _ (Or.inl hik)]
      exact hi.current i hik
    · obtain ⟨j, rfl⟩ := Nat.exists_eq_add_of_le (Nat.le_of_not_lt hik)
      have hj : j < n := by omega
      rw [blit_in _ _ hj, ← hS j hj, Nat.add_assoc]

theorem DumpInv.retire (hi : DumpInv S cur des k m) (hcur : 0 < cur) :
    DumpInv S cur des k ((PipeOp.toDump des ((cur - 1) % 2) stagingBufSize).exec m) ∧
      ∀ a, dumpHeaderSize ≤ a → a < des + stagingBufSize →
        ((PipeOp.toDump des ((cur - 1) % 2) stagingBufSize).exec m).dump a = S a := by
  rw [toDump_eq]
  have hdump : ∀ a, dumpHeaderSize ≤ a → a < des + stagingBufSize →
      blit m.dump des (m.staging ((cur - 1) % 2)) 0 stagingBufSize a = S a := by
    intro a h1 h2
    by_cases ha : a < des
    · rw [blit_out _ _ (Or.inl ha)]
      exact hi.flushed a h1 ha
    · obtain ⟨i, rfl⟩ := Nat.exists_eq_add_of_le (Nat.le_of_not_lt ha)
      have hlt : i < stagingBufSize := by omega
      rw [blit_in _ _ hlt, Nat.zero_add]
      exact hi.previous hcur i hlt
  refine ⟨⟨hi.desOffset_eq, ?_, hi.previous, hi.current⟩, hdump⟩
  intro a h1 h2
  exact hdump a h1 (by omega)

/-- A full half becomes the previous one. -/
theorem DumpInv.turn (hi : DumpInv S cur des stagingBufSize m) {des' : Nat}
    (hdes : des' = dumpHeaderSize + cur * stagingBufSize)
    (hdump : ∀ a, dumpHeaderSize ≤ a → a < des' → m.dump a = S a) :
    DumpInv S (cur + 1) des' 0 m := by
  refine ⟨by simpa using hdes, hdump, ?_, ?_⟩
  · intro _ i hlt
    rw [Nat.add_sub_cancel, hi.current i hlt, hdes]
  · intro i hlt
    exact absurd hlt (Nat.not_lt_zero i)

end Step

theorem DumpCursor.advance_spec {S : Nat → Byte} (c : DumpCursor) {n : Nat} {m : PipeMem}
    (hn : c.bufOffset + n ≤ stagingBufSize)
    (hi : DumpInv S c.currentBuf c.desOffset (c.bufOffset + n) m) :
    DumpInv S (c.advance n).2.currentBuf (c.advance n).2.desOffset (c.advance n).2.bufOffset
        (runPipe (c.advance n).1 m) ∧
      (runPipe (c.advance n).1 m).dev = m.dev := by
  unfold DumpCursor.advance
  by_cases hlt : c.bufOffset + n < stagingBufSize
  · rw [dif_pos hlt]
    exact ⟨hi, rfl⟩
  have hfull : c.bufOffset + n = stagingBufSize := by omega
  rw [hfull] at hi
  rw [dif_neg hlt]
  by_cases hcur : 0 < c.currentBuf
  · rw [if_pos hcur]
    obtain ⟨hret, hdump⟩ := hi.retire hcur
    have hdes : c.desOffset + stagingBufSize = dumpHeaderSize + c.currentBuf * stagingBufSize := by
      rw [hi.desOffset_eq, Nat.add_assoc, pred_mul_add hcur stagingBufSize]
    dsimp only
    rw [runPipe_host, runPipe_waitEvent, runPipe_host, runPipe_record, runPipe_nil, assert_exec]
    exact ⟨hret.turn hdes hdump, by rw [toDump_eq]⟩
  · rw [if_neg hcur]
    have hz : c.currentBuf = 0 := by omega
    refine ⟨hi.turn ?_ hi.flushed, rfl⟩
    rw [hi.desOffset_eq, hz]

theorem DumpCursor.pos_advance (c : DumpCursor) {n : Nat} (hn : c.bufOffset + n ≤ stagingBufSize) :
    (c.advance n).2.pos = c.pos + n := by
  unfold DumpCursor.advance DumpCursor.pos
  by_cases hlt : c.bufOffset + n < stagingBufSize
  · rw [dif_pos hlt]
    exact (Nat.add_assoc ..).symm
  have hsucc : (c.currentBuf + 1) * stagingBufSize = c.currentBuf * stagingBufSize + stagingBufSize :=
    Nat.succ_mul ..
  rw [dif_neg hlt]
  split_ifs <;> simp only [hsucc] <;> omega

/-! ### One block -/

theorem dumpBlock_pos (rule : ChunkRule) (d : Nat) (size : Nat) (c : DumpCursor) :
    (dumpBlock rule d size c).2.pos = c.pos + size := by
  fun_induction dumpBlock rule d size c with
  | case1 d size c h curSize next rest ih =>
    have hle := c.chunk_le rule d size
    have hpos := c.pos_advance hle.2
    show rest.2.pos = c.pos + size
    rw [ih, hpos]
    omega
  | case2 d size c h =>
    have hz : size = 0 := by omega
    rw [hz, Nat.add_zero]

theorem dumpBlock_inv (rule : ChunkRule) {S : Nat → Byte} (d : Nat) (size : Nat) (c : DumpCursor)
    (m : PipeMem) (hi : DumpInv S c.currentBuf c.desOffset c.bufOffset m)
    (hS : ∀ i < size, S (c.pos + i) = m.dev (d + i)) :
    DumpInv S (dumpBlock rule d size c).2.currentBuf (dumpBlock rule d size c).2.desOffset
        (dumpBlock rule d size c).2.bufOffset (runPipe (dumpBlock rule d size c).1 m) ∧
      (runPipe (dumpBlock rule d size c).1 m).dev = m.dev := by
  fun_induction dumpBlock rule d size c generalizing m with
  | case1 d size c h curSize next rest ih =>
    have hle : curSize ≤ size ∧ c.bufOffset + curSize ≤ stagingBufSize := c.chunk_le rule d size
    have hcopy := hi.copy (d := d) (n := curSize) (fun i hlt => hS i (by omega))
    obtain ⟨hadv, hdev⟩ := c.advance_spec hle.2 hcopy
    rw [devToHost_dev] at hdev
    have hpos : next.2.pos = c.pos + curSize := c.pos_advance hle.2
    -- the rest of the block starts where the copy ended
    have hrest := ih _ hadv ?_
    · dsimp only
      rw [runPipe_enqueue, runPipe_append]
      exact ⟨hrest.1, hrest.2.trans hdev⟩
    · intro i hlt
      rw [hpos, hdev, Nat.add_assoc, Nat.add_assoc]
      exact hS (curSize + i) (by omega)
  | case2 d size c h => exact ⟨hi, rfl⟩

/-! ### All blocks

The file entries and the commands of the loop do not depend on each other, so `dumpBlocks` is taken
apart into `addFiles` and `streamBlocks`.
-/

def SharedMemFs.addFiles (shmSize : Nat) : List (Nat × Nat) → SharedMemFs → Except Exit SharedMemFs
  | [], fs => .ok fs
  | b :: blocks, fs => do
    let fs ← fs.addFile shmSize b.1 b.2
    addFiles shmSize blocks fs

def streamBlocks (rule : ChunkRule) : List (Nat × Nat) → DumpCursor → List PipeCmd × DumpCursor
  | [], c => ([], c)
  | b :: blocks, c =>
    let block := dumpBlock rule b.1 b.2 c
    let rest := streamBlocks rule blocks block.2
    (block.1 ++ rest.1, rest.2)

theorem dumpBlocks_eq (rule : ChunkRule) (shmSize : Nat) (blocks : List (Nat × Nat))
    (fs : SharedMemFs) (c : DumpCursor) :
    dumpBlocks rule shmSize blocks fs c =
      (SharedMemFs.addFiles shmSize blocks fs).map
        fun fs' => ((streamBlocks rule blocks c).1, fs', (streamBlocks rule blocks c).2) := by
  induction blocks generalizing fs c with
  | nil => rfl
  | cons b blocks ih =>
    simp only [dumpBlocks, SharedMemFs.addFiles, streamBlocks]
    cases fs.addFile shmSize b.1 b.2 with
    | error e => rfl
    | ok fs' =>
      show (dumpBlocks rule shmSize blocks fs' _ >>= _) = _
      rw [ih]
      show _ = Except.map _ (SharedMemFs.addFiles shmSize blocks fs')
      cases SharedMemFs.addFiles shmSize blocks fs' <;> rfl

/-- The file entries of the blocks, the first one at `offset`. -/
def layout : Nat → List (Nat × Nat) → List SharedMemFile
  | _, [] => []
  | offset, b :: blocks => ⟨b.1, offset, b.2⟩ :: layout (offset + b.2) blocks

def totalSize (blocks : List (Nat × Nat)) : Nat := (blocks.map Prod.snd).sum

@[simp] theorem totalSize_cons (b : Nat × Nat) (blocks : List (Nat × Nat)) :
    totalSize (b :: blocks) = b.2 + totalSize blocks := rfl

theorem le_startOffset_of_mem_layout {blocks : List (Nat × Nat)} {offset : Nat} {f : SharedMemFile}
    (hf : f ∈ layout offset blocks) : offset ≤ f.startOffset := by
  induction blocks generalizing offset with
  | nil => simp [layout] at hf
  | cons b blocks ih =>
    rcases List.mem_cons.1 hf with rfl | hf
    · exact le_rfl
    · have := ih hf
      omega

theorem end_le_of_mem_layout {blocks : List (Nat × Nat)} {offset : Nat} {f : SharedMemFile}
    (hf : f ∈ layout offset blocks) : f.startOffset + f.size ≤ offset + totalSize blocks := by
  induction blocks generalizing offset with
  | nil => simp [layout] at hf
  | cons b blocks ih =>
    rw [totalSize_cons]
    rcases List.mem_cons.1 hf with rfl | hf
    · simp only
      omega
    · have := ih hf
      omega

theorem SharedMemFs.fileList_addFile {shmSize : Nat} {fs fs' : SharedMemFs} {d : Nat} {size : Nat}
    (h : fs.addFile shmSize d size = .ok fs') :
    fs'.fileList = fs.fileList ++ [⟨d, fs.currentOffset, size⟩] ∧
      fs'.currentOffset = fs.currentOffset + size := by
  simp only [SharedMemFs.addFile] at h
  split_ifs at h with h1 h2
  obtain rfl := Except.ok.inj h
  refine ⟨?_, rfl⟩
  simp only [SharedMemFs.fileList, List.range_succ, List.map_append, List.map_cons, List.map_nil,
    Function.update_self]
  congr 1
  apply List.map_congr_left
  intro i hi
  exact Function.update_of_ne (Nat.ne_of_lt (List.mem_range.1 hi)) _ _

theorem SharedMemFs.fileList_addFiles {shmSize : Nat} {blocks : List (Nat × Nat)}
    {fs fs' : SharedMemFs} (h : SharedMemFs.addFiles shmSize blocks fs = .ok fs') :
    fs'.fileList = fs.fileList ++ layout fs.currentOffset blocks ∧
      fs'.currentOffset = fs.currentOffset + totalSize blocks := by
  induction blocks generalizing fs with
  | nil =>
    obtain rfl := Except.ok.inj h
    simp [layout, totalSize]
  | cons b blocks ih =>
    simp only [SharedMemFs.addFiles] at h
    cases hadd : fs.addFile shmSize b.1 b.2 with
    | error e =>
      rw [hadd] at h
      exact absurd h (by simp [bind, Except.bind])
    | ok fs₁ =>
      rw [hadd] at h
      obtain ⟨h1, h2⟩ := fileList_addFile hadd
      obtain ⟨h3, h4⟩ := ih h
      refine ⟨?_, ?_⟩
      · rw [h3, h1, h2, List.append_assoc]
        rfl
      · rw [h4, h2, totalSize_cons, Nat.add_assoc]

/-- The limits of the dump file are the only reason to give up. -/
theorem SharedMemFs.addFiles_ok {shmSize : Nat} {blocks : List (Nat × Nat)} {fs : SharedMemFs}
    (hsize : fs.currentOffset + totalSize blocks ≤ shmSize)
    (hnum : fs.fileNum + blocks.length < maxFileNum) :
    ∃ fs', SharedMemFs.addFiles shmSize blocks fs = .ok fs' := by
  induction blocks generalizing fs with
  | nil => exact ⟨fs, rfl⟩
  | cons b blocks ih =>
    rw [totalSize_cons] at hsize
    rw [List.length_cons] at hnum
    have hadd : fs.addFile shmSize b.1 b.2 = .ok
        { fileNum := fs.fileNum + 1
          currentOffset := fs.currentOffset + b.2
          files := Function.update fs.files fs.fileNum ⟨b.1, fs.currentOffset, b.2⟩ } := by
      simp only [SharedMemFs.addFile]
      rw [if_neg (by omega), if_neg (by omega)]
    simp only [SharedMemFs.addFiles, hadd]
    apply ih
    · simp only
      omega
    · simp only
      omega

theorem streamBlocks_pos (rule : ChunkRule) (blocks : List (Nat × Nat)) (c : DumpCursor) :
    (streamBlocks rule blocks c).2.pos = c.pos + totalSize blocks := by
  induction blocks generalizing c with
  | nil => rfl
  | cons b blocks ih =>
    simp only [streamBlocks]
    rw [ih, dumpBlock_pos, totalSize_cons, Nat.add_assoc]

theorem streamBlocks_inv (rule : ChunkRule) {S : Nat → Byte} (blocks : List (Nat × Nat))
    (c : DumpCursor) (m : PipeMem) (hi : DumpInv S c.currentBuf c.desOffset c.bufOffset m)
    (hS : ∀ f ∈ layout c.pos blocks, ∀ i < f.size, S (f.startOffset + i) = m.dev (f.ptr + i)) :
    DumpInv S (streamBlocks rule blocks c).2.currentBuf (streamBlocks rule blocks c).2.desOffset
        (streamBlocks rule blocks c).2.bufOffset (runPipe (streamBlocks rule blocks c).1 m) ∧
      (runPipe (streamBlocks rule blocks c).1 m).dev = m.dev := by
  induction blocks generalizing c m with
  | nil => exact ⟨hi, rfl⟩
  | cons b blocks ih =>
    obtain ⟨hblock, hdev⟩ := dumpBlock_inv rule b.1 b.2 c m hi (hS _ (List.mem_cons_self ..))
    have hrest := ih _ _ hblock ?_
    · unfold streamBlocks
      rw [runPipe_append]
      exact ⟨hrest.1, hrest.2.trans hdev⟩
    · intro f hf i hlt
      rw [dumpBlock_pos] at hf
      rw [hdev]
      exact hS f (List.mem_cons_of_mem _ hf) i hlt

/-! ### The end of the function -/

theorem DumpInv.tail {S : Nat → Byte} {cur des k des' : Nat} {m : PipeMem} {dump : Nat → Byte}
    (hi : DumpInv S cur des k m) (hdes : des' = dumpHeaderSize + cur * stagingBufSize)
    (hbelow : ∀ a, dumpHeaderSize ≤ a → a < des' → dump a = S a) (a : Nat)
    (h1 : dumpHeaderSize ≤ a) (h2 : a < des' + k) :
    blit dump des' (m.staging (cur % 2)) 0 k a = S a := by
  by_cases ha : a < des'
  · rw [blit_out _ _ (Or.inl ha)]
    exact hbelow a h1 ha
  · obtain ⟨i, rfl⟩ := Nat.exists_eq_add_of_le (Nat.le_of_not_lt ha)
    have hlt : i < k := by omega
    rw [blit_in _ _ hlt, Nat.zero_add, hdes]
    exact hi.current i hlt

theorem DumpCursor.finish_spec {S : Nat → Byte} (c : DumpCursor) (currentOffset : Nat) {m : PipeMem}
    (hi : DumpInv S c.currentBuf c.desOffset c.bufOffset m) :
    (∀ a, dumpHeaderSize ≤ a → a < c.pos → (runPipe (c.finish currentOffset) m).dump a = S a) ∧
      (runPipe (c.finish currentOffset) m).dev = m.dev := by
  unfold DumpCursor.finish DumpCursor.pos
  by_cases hcur : 0 < c.currentBuf
  · have hdes : c.desOffset + stagingBufSize = dumpHeaderSize + c.currentBuf * stagingBufSize := by
      rw [hi.desOffset_eq, Nat.add_assoc, pred_mul_add hcur stagingBufSize]
    obtain ⟨-, hdump⟩ := hi.retire hcur
    rw [toDump_eq] at hdump
    rw [if_pos hcur, runPipe_waitEvent, runPipe_host, runPipe_drain, runPipe_host, runPipe_host, runPipe_nil,
      assert_exec, toDump_eq, toDump_eq]
    refine ⟨fun a h1 h2 => ?_, rfl⟩
    exact hi.tail hdes hdump a h1 (by omega)
  · have hz : c.currentBuf = 0 := by omega
    have hdes : c.desOffset = dumpHeaderSize + c.currentBuf * stagingBufSize := by
      rw [hi.desOffset_eq, hz]
    rw [if_neg hcur, runPipe_drain, runPipe_host, runPipe_host, runPipe_nil, assert_exec, toDump_eq]
    refine ⟨fun a h1 h2 => ?_, rfl⟩
    exact hi.tail hdes hi.flushed a h1 (by omega)

/-! ### Asserts and copied ranges -/

@[simp] theorem assertsHold_nil : assertsHold [] = true := rfl

@[simp] theorem assertsHold_append (p q : List PipeCmd) :
    assertsHold (p ++ q) = (assertsHold p && assertsHold q) := List.all_append ..

@[simp] theorem assertsHold_enqueue (c : PipeOp) (p : List PipeCmd) :
    assertsHold (.enqueue c :: p) = assertsHold p := rfl

@[simp] theorem assertsHold_record (p : List PipeCmd) : assertsHold (.record :: p) = assertsHold p := rfl

@[simp] theorem assertsHold_waitEvent (p : List PipeCmd) :
    assertsHold (.waitEvent :: p) = assertsHold p := rfl

@[simp] theorem assertsHold_drain (p : List PipeCmd) : assertsHold (.drain :: p) = assertsHold p := rfl

@[simp] theorem assertsHold_assert (b : Bool) (p : List PipeCmd) :
    assertsHold (.host (.assert b) :: p) = (b && assertsHold p) := rfl

@[simp] theorem assertsHold_toDump (des half n : Nat) (p : List PipeCmd) :
    assertsHold (.host (.toDump des half n) :: p) = assertsHold p := rfl

@[simp] theorem assertsHold_fromDump (half src n : Nat) (p : List PipeCmd) :
    assertsHold (.host (.fromDump half src n) :: p) = assertsHold p := rfl

/-- `p` copies nothing but bytes of the range `[d, d + size)`. -/
def copiesWithin (d : Nat) (size : Nat) (p : List PipeCmd) : Prop :=
  ∀ r ∈ devRanges p, d ≤ r.1 ∧ r.1 + r.2 ≤ d + size

theorem DumpCursor.assertsHold_advance (c : DumpCursor) {n : Nat}
    (hn : c.bufOffset + n ≤ stagingBufSize) : assertsHold (c.advance n).1 = true := by
  unfold DumpCursor.advance
  split_ifs with hlt hcur
  · rfl
  · have hfull : c.bufOffset + n = stagingBufSize := by omega
    simp [hfull]
  · have hfull : c.bufOffset + n = stagingBufSize := by omega
    simp [hfull]

theorem DumpCursor.devRanges_advance (c : DumpCursor) (n : Nat) : devRanges (c.advance n).1 = [] := by
  unfold DumpCursor.advance
  split_ifs <;> rfl

theorem DumpCursor.desOffset_finish {S : Nat → Byte} (c : DumpCursor) {m : PipeMem}
    (hi : DumpInv S c.currentBuf c.desOffset c.bufOffset m) : assertsHold (c.finish c.pos) = true := by
  unfold DumpCursor.finish DumpCursor.pos
  by_cases hcur : 0 < c.currentBuf
  · have hdes : c.desOffset + stagingBufSize = dumpHeaderSize + c.currentBuf * stagingBufSize := by
      rw [hi.desOffset_eq, Nat.add_assoc, pred_mul_add hcur stagingBufSize]
    simp [hcur, hdes]
  · have hz : c.currentBuf = 0 := by omega
    have hdes : c.desOffset = dumpHeaderSize + c.currentBuf * stagingBufSize := by
      rw [hi.desOffset_eq, hz]
    simp [hcur, hdes]

theorem DumpCursor.devRanges_finish (c : DumpCursor) (currentOffset : Nat) :
    devRanges (c.finish currentOffset) = [] := by
  unfold DumpCursor.finish
  split_ifs <;> rfl

theorem dumpBlock_asserts (rule : ChunkRule) (d : Nat) (size : Nat) (c : DumpCursor) :
    assertsHold (dumpBlock rule d size c).1 = true := by
  fun_induction dumpBlock rule d size c with
  | case1 d size c h curSize next rest ih =>
    have hadv := c.assertsHold_advance (c.chunk_le rule d size).2
    simp only [assertsHold_enqueue, assertsHold_append, Bool.and_eq_true]
    exact ⟨hadv, ih⟩
  | case2 d size c h => rfl

theorem dumpBlock_copies (rule : ChunkRule) (d : Nat) (size : Nat) (c : DumpCursor) :
    copiesWithin d size (dumpBlock rule d size c).1 := by
  fun_induction dumpBlock rule d size c with
  | case1 d size c h curSize next rest ih =>
    have hle : curSize ≤ size := (c.chunk_le rule d size).1
    intro r hr
    rw [devRanges_devToHost, devRanges_append, c.devRanges_advance, List.nil_append] at hr
    rcases List.mem_cons.1 hr with rfl | hr
    · show d ≤ d ∧ d + curSize ≤ d + size
      omega
    · have := ih r hr
      omega
  | case2 d size c h =>
    intro r hr
    exact absurd hr List.not_mem_nil

theorem streamBlocks_asserts (rule : ChunkRule) (blocks : List (Nat × Nat)) (c : DumpCursor) :
    assertsHold (streamBlocks rule blocks c).1 = true := by
  induction blocks generalizing c with
  | nil => rfl
  | cons b blocks ih =>
    unfold streamBlocks
    rw [assertsHold_append, dumpBlock_asserts, ih, Bool.and_true]

theorem streamBlocks_copies (rule : ChunkRule) (blocks : List (Nat × Nat)) (c : DumpCursor)
    {r : Nat × Nat} (hr : r ∈ devRanges (streamBlocks rule blocks c).1) :
    ∃ b ∈ blocks, b.1 ≤ r.1 ∧ r.1 + r.2 ≤ b.1 + b.2 := by
  induction blocks generalizing c with
  | nil => exact absurd hr List.not_mem_nil
  | cons b blocks ih =>
    unfold streamBlocks at hr
    rw [devRanges_append, List.mem_append] at hr
    rcases hr with hr | hr
    · exact ⟨b, List.mem_cons_self .., dumpBlock_copies rule b.1 b.2 c r hr⟩
    · obtain ⟨b', hb', hin⟩ := ih _ hr
      exact ⟨b', List.mem_cons_of_mem _ hb', hin⟩

/-- The loop does copy from every block that is not empty. -/
theorem streamBlocks_reaches (rule : ChunkRule) {blocks : List (Nat × Nat)} (c : DumpCursor) {b : Nat × Nat}
    (hb : b ∈ blocks) (hpos : 0 < b.2) :
    ∃ n, 0 < n ∧ n ≤ b.2 ∧ (b.1, n) ∈ devRanges (streamBlocks rule blocks c).1 := by
  induction blocks generalizing c with
  | nil => exact absurd hb List.not_mem_nil
  | cons b' blocks ih =>
    unfold streamBlocks
    rw [devRanges_append]
    rcases List.mem_cons.1 hb with rfl | hb
    · refine ⟨c.chunk rule b.1 b.2, c.chunk_pos rule b.1 hpos, (c.chunk_le rule b.1 b.2).1, ?_⟩
      rw [List.mem_append]
      left
      unfold dumpBlock
      rw [dif_pos hpos]
      dsimp only
      rw [devRanges_devToHost]
      exact List.mem_cons_self ..
    · obtain ⟨n, h1, h2, h3⟩ := ih _ hb
      exact ⟨n, h1, h2, List.mem_append_right _ h3⟩

/-! ### The whole function -/

theorem exists_image (dev : Nat → Byte) (blocks : List (Nat × Nat)) (offset : Nat) :
    ∃ S : Nat → Byte, ∀ f ∈ layout offset blocks, ∀ i < f.size,
      S (f.startOffset + i) = dev (f.ptr + i) := by
  induction blocks generalizing offset with
  | nil => exact ⟨fun _ => 0, fun f hf => absurd hf List.not_mem_nil⟩
  | cons b blocks ih =>
    obtain ⟨S, hS⟩ := ih (offset + b.2)
    refine ⟨blit S offset dev b.1 b.2, ?_⟩
    intro f hf i hi
    rcases List.mem_cons.1 hf with rfl | hf
    · exact blit_in _ _ hi
    · have := le_startOffset_of_mem_layout hf
      rw [blit_out _ _ (Or.inr (by omega))]
      exact hS f hf i hi

theorem dumpCmds_inv {rule : ChunkRule} {shmSize : Nat} {blocks : List (Nat × Nat)}
    {fs fs' : SharedMemFs} {cmds : List PipeCmd}
    (h : dumpCmds rule shmSize blocks fs = .ok (cmds, fs')) :
    fs'.fileList = layout dumpHeaderSize blocks ∧
      cmds = .record :: ((streamBlocks rule blocks DumpCursor.start).1 ++
        (streamBlocks rule blocks DumpCursor.start).2.finish
          (streamBlocks rule blocks DumpCursor.start).2.pos) ∧
      fs'.currentOffset = dumpHeaderSize + totalSize blocks := by
  simp only [dumpCmds, dumpBlocks_eq] at h
  cases hadd : SharedMemFs.addFiles shmSize blocks
      { fs with fileNum := 0, currentOffset := dumpHeaderSize } with
  | error e =>
    rw [hadd] at h
    exact absurd h (by simp [bind, Except.bind, Except.map])
  | ok fs₁ =>
    rw [hadd] at h
    obtain ⟨hfiles, hoffset⟩ := SharedMemFs.fileList_addFiles hadd
    obtain ⟨rfl, rfl⟩ := Prod.mk.inj (Except.ok.inj h)
    refine ⟨hfiles, ?_, hoffset⟩
    rw [streamBlocks_pos, DumpCursor.pos_start, hoffset]

theorem dumpCmds_ok (rule : ChunkRule) {shmSize : Nat} {blocks : List (Nat × Nat)} (fs : SharedMemFs)
    (hsize : dumpHeaderSize + totalSize blocks ≤ shmSize) (hnum : blocks.length < maxFileNum) :
    ∃ cmds fs', dumpCmds rule shmSize blocks fs = .ok (cmds, fs') := by
  obtain ⟨fs', hadd⟩ : ∃ fs', SharedMemFs.addFiles shmSize blocks
      { fs with fileNum := 0, currentOffset := dumpHeaderSize } = .ok fs' :=
    SharedMemFs.addFiles_ok hsize (by simpa using hnum)
  simp only [dumpCmds, dumpBlocks_eq, hadd]
  exact ⟨_, fs', rfl⟩

section Whole
variable {rule : ChunkRule} {shmSize : Nat} {blocks : List (Nat × Nat)} {fs fs' : SharedMemFs}
  {cmds : List PipeCmd} (h : dumpCmds rule shmSize blocks fs = .ok (cmds, fs'))
include h

/-- Every byte of every block ends up where the file entry of the block says. -/
theorem dumpCmds_image (m : PipeMem) :
    (runPipe cmds m).dev = m.dev ∧ ∀ f ∈ fs'.fileList, ∀ i < f.size,
      (runPipe cmds m).dump (f.startOffset + i) = m.dev (f.ptr + i) := by
  obtain ⟨hfiles, rfl, hoffset⟩ := dumpCmds_inv h
  obtain ⟨S, hS⟩ := exists_image m.dev blocks dumpHeaderSize
  have hstream := streamBlocks_inv rule blocks DumpCursor.start m (DumpInv.start S m)
    (by rwa [DumpCursor.pos_start])
  have hfinish := DumpCursor.finish_spec _ (streamBlocks rule blocks DumpCursor.start).2.pos hstream.1
  rw [runPipe_record, runPipe_append]
  refine ⟨hfinish.2.trans hstream.2, ?_⟩
  intro f hf i hi
  rw [hfiles] at hf
  have hle := le_startOffset_of_mem_layout hf
  have hend := end_le_of_mem_layout hf
  rw [hfinish.1 _ (by omega) ?_]
  · exact hS f hf i hi
  · rw [streamBlocks_pos, DumpCursor.pos_start]
    omega

theorem dumpCmds_asserts : assertsHold cmds = true := by
  obtain ⟨-, rfl, -⟩ := dumpCmds_inv h
  have m : PipeMem := ⟨fun _ => 0, fun _ _ => 0, fun _ => 0⟩
  obtain ⟨S, hS⟩ := exists_image m.dev blocks dumpHeaderSize
  have hstream := streamBlocks_inv rule blocks DumpCursor.start m (DumpInv.start S m)
    (by rwa [DumpCursor.pos_start])
  rw [assertsHold_record, assertsHold_append, streamBlocks_asserts, DumpCursor.desOffset_finish _ hstream.1]
  rfl

theorem dumpCmds_copies {r : Nat × Nat} (hr : r ∈ devRanges cmds) :
    ∃ b ∈ blocks, b.1 ≤ r.1 ∧ r.1 + r.2 ≤ b.1 + b.2 := by
  obtain ⟨-, rfl, -⟩ := dumpCmds_inv h
  rw [devRanges_record, devRanges_append, DumpCursor.devRanges_finish, List.append_nil] at hr
  exact streamBlocks_copies rule blocks DumpCursor.start hr

theorem dumpCmds_reaches {b : Nat × Nat} (hb : b ∈ blocks) (hpos : 0 < b.2) :
    ∃ n, 0 < n ∧ n ≤ b.2 ∧ (b.1, n) ∈ devRanges cmds := by
  obtain ⟨-, rfl, -⟩ := dumpCmds_inv h
  rw [devRanges_record, devRanges_append, DumpCursor.devRanges_finish, List.append_nil]
  exact streamBlocks_reaches rule DumpCursor.start hb hpos

end Whole

end GpuCr
