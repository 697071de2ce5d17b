import GpuCr.Common
import GpuCr.Lib.AsyncStream
import Mathlib.Logic.Function.Basic

/-!
# The copy loops of `vGPU.cpp`

`ckpt` and `ckpt_selective` stream blocks of device memory through two staging halves into the dump
file, `restore_ptr_and_content` and `restore_ptr_and_content_selective` stream them back. The loops read
no byte of what they copy, so each of them is given here as the list of commands the host thread issues
(`Cmd PipeOp`), a function of the block list alone; `PipeOp.exec` says what a command does to the
memories. The two dump loops differ in the length of a copy (`ChunkRule`) and in the sizes they are
given, and so do the two restore loops.

An `assert` of the source is a command too: the operation that issued a false one aborts.
-/

namespace GpuCr

open Lib Lib.AsyncStream

/-- Device memory, the two halves `staging_buf[0]` and `staging_buf[1]`, and the dump file by offset. -/
structure PipeMem where
  dev : Nat → Byte
  staging : Nat → Nat → Byte
  dump : Nat → Byte

inductive PipeOp where
  /-- `memcpyAsync(staging_buf[half] + off, src, n, DeviceToHost)` -/
  | devToHost (half off : Nat) (src : Nat) (n : Nat)
  /-- `memcpyAsync(dst, staging_buf[half] + off, n, HostToDevice)` -/
  | hostToDev (dst : Nat) (half off n : Nat)
  /-- `memcpy_multi(fs + desOffset, staging_buf[half], n)` -/
  | toDump (desOffset half n : Nat)
  /-- `memcpy_multi(staging_buf[half], fs + srcOffset, n)` -/
  | fromDump (half srcOffset n : Nat)
  | assert (holds : Bool)
  deriving DecidableEq, Repr

def PipeOp.exec : PipeOp → PipeMem → PipeMem
  | .devToHost half off src n, m =>
    { m with staging := Function.update m.staging half (blit (m.staging half) off m.dev src n) }
  | .hostToDev dst half off n, m => { m with dev := blit m.dev dst (m.staging half) off n }
  | .toDump desOffset half n, m =>
    { m with dump := memcpyMulti m.dump desOffset (m.staging half) 0 n }
  | .fromDump half srcOffset n, m =>
    { m with staging := Function.update m.staging half (memcpyMulti (m.staging half) 0 m.dump srcOffset n) }
  | .assert _, m => m

abbrev PipeCmd := Cmd PipeOp

abbrev runPipe (cmds : List PipeCmd) (m : PipeMem) : PipeMem := runNow PipeOp.exec cmds m

/-- The `assert`s of a run all hold. -/
def assertsHold (cmds : List PipeCmd) : Bool :=
  cmds.all fun
    | .host (.assert b) => b
    | _ => true

/-- The device range a command copies from or to. -/
def devRange : PipeCmd → Option (Nat × Nat)
  | .enqueue (.devToHost _ _ src n) => some (src, n)
  | .enqueue (.hostToDev dst _ _ n) => some (dst, n)
  | _ => none

def devRanges (cmds : List PipeCmd) : List (Nat × Nat) := cmds.filterMap devRange

@[simp] theorem devRanges_append (p q : List PipeCmd) :
    devRanges (p ++ q) = devRanges p ++ devRanges q := List.filterMap_append ..

theorem devRanges_record (p : List PipeCmd) : devRanges (.record :: p) = devRanges p := rfl

theorem devRanges_devToHost (half off : Nat) (src : Nat) (n : Nat) (p : List PipeCmd) :
    devRanges (.enqueue (.devToHost half off src n) :: p) = (src, n) :: devRanges p := rfl

theorem devRanges_hostToDev (dst : Nat) (half off n : Nat) (p : List PipeCmd) :
    devRanges (.enqueue (.hostToDev dst half off n) :: p) = (dst, n) :: devRanges p := rfl

theorem devRanges_host (c : PipeOp) (p : List PipeCmd) : devRanges (.host c :: p) = devRanges p := rfl

/-! ### The length of a copy -/

/-- How a loop shortens the copy at a device address, never to nothing. -/
structure ChunkRule where
  fn : Nat → Nat → Nat
  pos : ∀ d {len}, 0 < len → 0 < fn d len
  le : ∀ d len, fn d len ≤ len

/-- The full-checkpoint loops copy as much as fits the staging half. -/
def wholeChunk : ChunkRule := ⟨fun _ len => len, fun _ _ h => h, fun _ len => le_refl len⟩

/-- The device copy ends at the next granule boundary at the latest. -/
def granuleClamp (devPtr : Nat) (len : Nat) : Nat :=
  let toBoundary := vmmGranuleSize - devPtr % vmmGranuleSize
  if len < toBoundary then len else toBoundary

theorem granuleClamp_pos (d : Nat) {len : Nat} (h : 0 < len) : 0 < granuleClamp d len := by
  have := Nat.mod_lt d (show vmmGranuleSize > 0 by decide)
  simp only [granuleClamp]
  split_ifs <;> omega

theorem granuleClamp_le (d : Nat) (len : Nat) : granuleClamp d len ≤ len := by
  simp only [granuleClamp]
  split_ifs <;> omega

def granuleChunk : ChunkRule := ⟨granuleClamp, fun d _ h => granuleClamp_pos d h, granuleClamp_le⟩

/-! ### Dumping -/

/-- The counters of the dump loops; the loops keep `bufOffset` inside the half. -/
structure DumpCursor where
  currentBuf : Nat
  bufOffset : Nat
  desOffset : Nat
  bufOffset_lt : bufOffset < stagingBufSize

def DumpCursor.start : DumpCursor := ⟨0, 0, dumpHeaderSize, stagingBufSize_pos⟩

/-- `n` bytes have been put into the half: when it is full, the previous half goes to the dump. -/
def DumpCursor.advance (c : DumpCursor) (n : Nat) : List PipeCmd × DumpCursor :=
  if h : c.bufOffset + n < stagingBufSize then
    ([], { c with bufOffset := c.bufOffset + n, bufOffset_lt := h })
  else if 0 < c.currentBuf then
    ([.host (.assert (c.bufOffset + n == stagingBufSize)), .waitEvent,
        .host (.toDump c.desOffset ((c.currentBuf - 1) % 2) stagingBufSize), .record],
      ⟨c.currentBuf + 1, 0, c.desOffset + stagingBufSize, stagingBufSize_pos⟩)
  else
    ([.host (.assert (c.bufOffset + n == stagingBufSize)), .record],
      ⟨c.currentBuf + 1, 0, c.desOffset, stagingBufSize_pos⟩)

/-- What the loop body copies next. -/
def DumpCursor.chunk (c : DumpCursor) (rule : ChunkRule) (d : Nat) (size : Nat) : Nat :=
  rule.fn d (min size (stagingBufSize - c.bufOffset))

theorem DumpCursor.chunk_pos (c : DumpCursor) (rule : ChunkRule) (d : Nat) {size : Nat}
    (h : 0 < size) : 0 < c.chunk rule d size :=
  rule.pos d (by have := c.bufOffset_lt; omega)

theorem DumpCursor.chunk_le (c : DumpCursor) (rule : ChunkRule) (d : Nat) (size : Nat) :
    c.chunk rule d size ≤ size ∧ c.bufOffset + c.chunk rule d size ≤ stagingBufSize := by
  have := rule.le d (min size (stagingBufSize - c.bufOffset))
  have := c.bufOffset_lt
  simp only [DumpCursor.chunk]
  omega

/-- The `while (size > 0)` loop over one block. -/
def dumpBlock (rule : ChunkRule) (d : Nat) (size : Nat) (c : DumpCursor) :
    List PipeCmd × DumpCursor :=
  if _h : 0 < size then
    let curSize := c.chunk rule d size
    let next := c.advance curSize
    let rest := dumpBlock rule (d + curSize) (size - curSize) next.2
    (.enqueue (.devToHost (c.currentBuf % 2) c.bufOffset d curSize) :: (next.1 ++ rest.1), rest.2)
  else ([], c)
termination_by size
decreasing_by
  have := c.chunk_pos rule d _h
  omega

/-- Why an operation of `vGPU.cpp` leaves through `exit` or `abort`. -/
inductive Exit where
  | notEnoughSpace
  | tooManyFiles
  | memcpyAsync
  | release (ptr : Nat)
  | remap (ptr : Nat)
  | cuCheck
  | assertion
  deriving DecidableEq, Repr

/-- The file entry of a block, then the limit checks. -/
def SharedMemFs.addFile (shmSize : Nat) (fs : SharedMemFs) (d : Nat) (size : Nat) :
    Except Exit SharedMemFs :=
  let fs : SharedMemFs :=
    { fs with
      files := Function.update fs.files fs.fileNum ⟨d, fs.currentOffset, size⟩
      currentOffset := fs.currentOffset + size }
  if fs.currentOffset > shmSize then .error .notEnoughSpace
  else
    let fs : SharedMemFs := { fs with fileNum := fs.fileNum + 1 }
    if fs.fileNum ≥ maxFileNum then .error .tooManyFiles else .ok fs

/-- The loop over the blocks. -/
def dumpBlocks (rule : ChunkRule) (shmSize : Nat) :
    List (Nat × Nat) → SharedMemFs → DumpCursor → Except Exit (List PipeCmd × SharedMemFs × DumpCursor)
  | [], fs, c => .ok ([], fs, c)
  | (d, size) :: blocks, fs, c => do
    let fs ← fs.addFile shmSize d size
    let block := dumpBlock rule d size c
    let rest ← dumpBlocks rule shmSize blocks fs block.2
    return (block.1 ++ rest.1, rest.2)

/-- After the loop: the half before the current one, if there is one, and what the current one holds. -/
def DumpCursor.finish (c : DumpCursor) (currentOffset : Nat) : List PipeCmd :=
  if 0 < c.currentBuf then
    [.waitEvent, .host (.toDump c.desOffset ((c.currentBuf - 1) % 2) stagingBufSize), .drain,
      .host (.toDump (c.desOffset + stagingBufSize) (c.currentBuf % 2) c.bufOffset),
      .host (.assert (c.desOffset + stagingBufSize + c.bufOffset == currentOffset))]
  else
    [.drain, .host (.toDump c.desOffset (c.currentBuf % 2) c.bufOffset),
      .host (.assert (c.desOffset + c.bufOffset == currentOffset))]

/-- What `ckpt` and `ckpt_selective` do with the dump file and the stream. -/
def dumpCmds (rule : ChunkRule) (shmSize : Nat) (blocks : List (Nat × Nat)) (fs : SharedMemFs) :
    Except Exit (List PipeCmd × SharedMemFs) := do
  let fs : SharedMemFs := { fs with fileNum := 0, currentOffset := dumpHeaderSize }
  let (cmds, fs, c) ← dumpBlocks rule shmSize blocks fs DumpCursor.start
  return (.record :: (cmds ++ c.finish fs.currentOffset), fs)

/-! ### Restoring -/

/-- The counters of the restore loops. -/
structure RestoreCursor where
  currentBuf : Nat
  bufOffset : Nat
  srcOffset : Nat
  bufOffset_lt : bufOffset < stagingBufSize

/-- How much of the dump from `srcOffset` goes into a half. -/
def cpuCopySize (currentOffset srcOffset : Nat) : Nat :=
  min (sizeSub currentOffset srcOffset) stagingBufSize

/-- `n` bytes of the half have been queued: when it is used up, the other half is filled. -/
def RestoreCursor.advance (c : RestoreCursor) (currentOffset n : Nat) :
    List PipeCmd × RestoreCursor :=
  if h : c.bufOffset + n < stagingBufSize then
    ([], { c with bufOffset := c.bufOffset + n, bufOffset_lt := h })
  else
    ([.host (.assert (c.bufOffset + n == stagingBufSize)), .waitEvent,
        .host (.fromDump ((c.currentBuf + 1) % 2) (c.srcOffset + stagingBufSize)
          (cpuCopySize currentOffset (c.srcOffset + stagingBufSize))), .record],
      ⟨c.currentBuf + 1, 0, c.srcOffset + stagingBufSize, stagingBufSize_pos⟩)

def RestoreCursor.chunk (c : RestoreCursor) (rule : ChunkRule) (d : Nat) (size : Nat) : Nat :=
  rule.fn d (min size (stagingBufSize - c.bufOffset))

theorem RestoreCursor.chunk_pos (c : RestoreCursor) (rule : ChunkRule) (d : Nat) {size : Nat}
    (h : 0 < size) : 0 < c.chunk rule d size :=
  rule.pos d (by have := c.bufOffset_lt; omega)

theorem RestoreCursor.chunk_le (c : RestoreCursor) (rule : ChunkRule) (d : Nat) (size : Nat) :
    c.chunk rule d size ≤ size ∧ c.bufOffset + c.chunk rule d size ≤ stagingBufSize := by
  have := rule.le d (min size (stagingBufSize - c.bufOffset))
  have := c.bufOffset_lt
  simp only [RestoreCursor.chunk]
  omega

/-- The `while (size > 0)` loop over one file of the dump. -/
def restoreBlock (rule : ChunkRule) (currentOffset : Nat) (requestedAddr : Nat) (offset size : Nat)
    (c : RestoreCursor) : List PipeCmd × RestoreCursor :=
  if _h : 0 < size then
    let n := c.chunk rule requestedAddr size
    let next := c.advance currentOffset n
    let rest := restoreBlock rule currentOffset (requestedAddr + n) (offset + n) (size - n) next.2
    (.host (.assert (c.bufOffset == sizeSub offset c.srcOffset)) ::
      .enqueue (.hostToDev requestedAddr (c.currentBuf % 2) (sizeSub offset c.srcOffset) n) ::
        (next.1 ++ rest.1), rest.2)
  else ([], c)
termination_by size
decreasing_by
  have := c.chunk_pos rule requestedAddr _h
  omega

/-- The loop over the files, the first half being in place. -/
def restoreBlocks (rule : ChunkRule) (currentOffset : Nat) :
    List SharedMemFile → RestoreCursor → List PipeCmd × RestoreCursor
  | [], c => ([], c)
  | f :: files, c =>
    let block := restoreBlock rule currentOffset f.ptr f.startOffset f.size c
    let rest := restoreBlocks rule currentOffset files block.2
    (block.1 ++ rest.1, rest.2)

/-- The files of the dump, in order. -/
def SharedMemFs.fileList (fs : SharedMemFs) : List SharedMemFile :=
  (List.range fs.fileNum).map fs.files

/-- What the restore functions do with the dump file and the stream, once the blocks are mapped. The
first iteration of the loop fills the first half. -/
def restoreCmds (rule : ChunkRule) (fs : SharedMemFs) : List PipeCmd :=
  match fs.fileList with
  | [] => [.record, .drain]
  | f :: files =>
    .record :: .host (.fromDump 0 f.startOffset (cpuCopySize fs.currentOffset f.startOffset)) ::
      ((restoreBlocks rule fs.currentOffset (f :: files) ⟨0, 0, f.startOffset, stagingBufSize_pos⟩).1 ++
        [.drain])

end GpuCr
