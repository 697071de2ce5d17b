import GpuCr.Lib.Blit

/-!
# Constants, the dump header and `memcpy_multi`

`src/common.h` and the host copy helper of `src/vGPU.cpp`. Device addresses, sizes and file offsets are
natural numbers: every allocation lies inside the address space of the device, so no sum of the code below
reaches `2 ^ 64`. The one subtraction whose operands come from the dump header is kept modular
(`sizeSub`).
-/

namespace GpuCr

open Lib

abbrev Byte := UInt8

def hugePageSize : Nat := 2 * 1024 * 1024

def roundUp2MB (x : Nat) : Nat := (x + (hugePageSize - 1)) / hugePageSize * hugePageSize

def vmmGranuleSize : Nat := 2 * 1024 * 1024

/-- `SHM_SIZE` with the default `SHM_SIZE_GB`; the build may override it, so the operations take the
size as an argument. -/
def shmSizeDefault : Nat := 25 * 2 ^ 30

def maxFileNum : Nat := 4096

def numCopyThreads : Nat := 4

def stagingBufSize : Nat := 2 ^ 30

def maxSelectiveRegions : Nat := 4096

theorem stagingBufSize_pos : 0 < stagingBufSize := Nat.two_pow_pos 30

theorem le_roundUp2MB (x : Nat) : x ≤ roundUp2MB x := by
  simp only [roundUp2MB, hugePageSize]
  omega

theorem roundUp2MB_idem (x : Nat) : roundUp2MB (roundUp2MB x) = roundUp2MB x := by
  simp only [roundUp2MB, hugePageSize]
  omega

/-- `a - b` in `size_t`, for operands below `2 ^ 64`. -/
def sizeSub (a b : Nat) : Nat := if b ≤ a then a - b else a + 2 ^ 64 - b

theorem sizeSub_of_le {a b : Nat} (h : b ≤ a) : sizeSub a b = a - b := if_pos h

/-! ### The dump header -/

structure SharedMemFile where
  ptr : Nat
  startOffset : Nat
  size : Nat
  deriving DecidableEq, Repr

/-- `files` keeps whatever an earlier dump left past `fileNum`. -/
structure SharedMemFs where
  fileNum : Nat
  currentOffset : Nat
  files : Nat → SharedMemFile

/-- Two counters of eight bytes, then `MAX_FILE_NUM` entries of three words. -/
def sizeofSharedMemFs : Nat := 8 + 8 + maxFileNum * 24

/-- Where the payload of a dump starts. -/
def dumpHeaderSize : Nat := roundUp2MB sizeofSharedMemFs

structure SelectiveCrRegion where
  ptr : Nat
  size : Nat
  deriving DecidableEq, Repr

/-- `regions` are the first `num_regions` entries of the request's array. -/
structure SelectiveCrRequest where
  regions : List SelectiveCrRegion
  length_le : regions.length ≤ maxSelectiveRegions

/-! ### `memcpy_multi` -/

/-- The chunks `(offset, this_chunk_size)` of the loop from thread `i` on, `k` threads left. -/
def copyChunks (chunkSize size : Nat) : Nat → Nat → List (Nat × Nat)
  | 0, _ => []
  | k + 1, i =>
    if i * chunkSize ≥ size then []
    else (i * chunkSize, min chunkSize (size - i * chunkSize)) :: copyChunks chunkSize size k (i + 1)

def memcpyMultiChunks (size : Nat) : List (Nat × Nat) :=
  copyChunks ((size + numCopyThreads - 1) / numCopyThreads) size numCopyThreads 0

def memcpyMulti (dest : Nat → Byte) (d : Nat) (src : Nat → Byte) (s size : Nat) : Nat → Byte :=
  (memcpyMultiChunks size).foldl (fun m c => blit m (d + c.1) src (s + c.1) c.2) dest

theorem foldl_copyChunks (src : Nat → Byte) (d s chunkSize size k : Nat) :
    ∀ (i : Nat) (dest : Nat → Byte),
      (copyChunks chunkSize size k i).foldl (fun m c => blit m (d + c.1) src (s + c.1) c.2) dest =
        blit dest (d + i * chunkSize) src (s + i * chunkSize)
          (min (k * chunkSize) (size - i * chunkSize)) := by
  induction k with
  | zero => intro i dest; simp [copyChunks]
  | succ k ih =>
    intro i dest
    rw [copyChunks]
    have hi : (i + 1) * chunkSize = i * chunkSize + chunkSize := Nat.succ_mul ..
    have hk : (k + 1) * chunkSize = k * chunkSize + chunkSize := Nat.succ_mul ..
    split_ifs with hend
    · rw [show min ((k + 1) * chunkSize) (size - i * chunkSize) = 0 by omega]
      simp
    · rw [List.foldl_cons, ih]
      by_cases hlast : size - i * chunkSize ≤ chunkSize
      · rw [show min (k * chunkSize) (size - (i + 1) * chunkSize) = 0 by omega, blit_zero]
        congr 1
        omega
      · rw [hi, ← Nat.add_assoc, ← Nat.add_assoc, show min chunkSize (size - i * chunkSize) = chunkSize by omega,
          blit_append]
        congr 1
        omega

/-- The threads' chunks make up one copy. -/
theorem memcpyMulti_eq_blit (dest src : Nat → Byte) (d s size : Nat) :
    memcpyMulti dest d src s size = blit dest d src s size := by
  rw [memcpyMulti, memcpyMultiChunks, foldl_copyChunks]
  simp only [numCopyThreads, Nat.zero_mul, Nat.add_zero, Nat.sub_zero]
  congr 1
  omega

end GpuCr
