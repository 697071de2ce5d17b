import GpuCr.Common
import GpuCr.Lib.Chunks
import Mathlib.Logic.Function.Basic

/-!
# The threads of `memcpy_multi`

`memcpy_multi` in the arithmetic of `size_t`, and its threads in whatever order they run. A `memcpy` copies the bytes of
its chunk in an order of its own, and may copy a byte more than once; the bytes of the chunks can be copied in any
interleaving. `Common` has the same function as one copy after the other over natural numbers.
-/

namespace GpuCr

open Lib Lib.Chunks

/-! ### The chunks -/

/-- `copyChunks` in `size_t`. -/
def copyChunks64 (chunkSize size : UInt64) : Nat → Nat → List (UInt64 × UInt64)
  | 0, _ => []
  | k + 1, i =>
    let offset := i.toUInt64 * chunkSize
    if offset ≥ size then []
    else (offset, min chunkSize (size - offset)) :: copyChunks64 chunkSize size k (i + 1)

def memcpyMultiChunks64 (size : UInt64) : List (UInt64 × UInt64) :=
  copyChunks64 ((size + numCopyThreads.toUInt64 - 1) / numCopyThreads.toUInt64) size numCopyThreads 0

theorem toNat_min (a b : UInt64) : (min a b).toNat = min a.toNat b.toNat := by
  show (if a ≤ b then a else b).toNat = _
  split_ifs with h
  · exact (Nat.min_eq_left (UInt64.le_iff_toNat_le.1 h)).symm
  · exact (Nat.min_eq_right (UInt64.le_iff_toNat_le.1 ((UInt64.le_total a b).resolve_left h))).symm

/-- No thread's offset reaches `2 ^ 64`. -/
theorem copyChunks64_eq (chunkSize size : UInt64) (k i : Nat) (hk : i + k < 2 ^ 64)
    (h : (i + k) * chunkSize.toNat < 2 ^ 64) :
    (copyChunks64 chunkSize size k i).map (fun c => (c.1.toNat, c.2.toNat)) =
      copyChunks chunkSize.toNat size.toNat k i := by
  induction k generalizing i with
  | zero => rfl
  | succ k ih =>
    have hle : i * chunkSize.toNat ≤ (i + (k + 1)) * chunkSize.toNat := Nat.mul_le_mul_right _ (by omega)
    have hoffset : (i.toUInt64 * chunkSize).toNat = i * chunkSize.toNat := by
      rw [UInt64.toNat_mul, UInt64.toNat_ofNat', Nat.mod_eq_of_lt (by omega : i < 2 ^ 64), Nat.mod_eq_of_lt (by omega)]
    rw [copyChunks64, copyChunks]
    by_cases hend : i.toUInt64 * chunkSize ≥ size
    · have hend' := UInt64.le_iff_toNat_le.1 hend
      rw [hoffset] at hend'
      rw [if_pos hend, if_pos hend']
      rfl
    · have hend' : ¬ i * chunkSize.toNat ≥ size.toNat := fun hge =>
        hend (UInt64.le_iff_toNat_le.2 (hoffset ▸ hge))
      have hsub : (size - i.toUInt64 * chunkSize).toNat = size.toNat - i * chunkSize.toNat := by
        rw [UInt64.toNat_sub_of_le, hoffset]
        exact UInt64.le_iff_toNat_le.2 (hoffset ▸ (Nat.le_of_not_ge hend'))
      rw [if_neg hend, if_neg hend', List.map_cons, ih (i + 1) (by omega) (by rwa [Nat.add_assoc, Nat.add_comm 1]), hoffset,
        toNat_min, hsub]

theorem memcpyMultiChunks64_eq (size : UInt64) (h : size.toNat ≤ 2 ^ 64 - numCopyThreads) :
    (memcpyMultiChunks64 size).map (fun c => (c.1.toNat, c.2.toNat)) = memcpyMultiChunks size.toNat := by
  have hthreads : numCopyThreads.toUInt64.toNat = 4 := rfl
  have hround : (size + numCopyThreads.toUInt64 - 1).toNat = size.toNat + numCopyThreads - 1 := by
    rw [numCopyThreads] at h ⊢
    have := size.toNat_lt
    -- at the largest size the sum is `2 ^ 64` before `1` is subtracted
    rw [UInt64.toNat_sub, UInt64.toNat_add]
    show (2 ^ 64 - 1 + (size.toNat + 4) % 2 ^ 64) % 2 ^ 64 = _
    omega
  have hchunk : ((size + numCopyThreads.toUInt64 - 1) / numCopyThreads.toUInt64).toNat =
      (size.toNat + numCopyThreads - 1) / numCopyThreads := by
    rw [UInt64.toNat_div, hround]
    rfl
  unfold memcpyMultiChunks64 memcpyMultiChunks
  rw [copyChunks64_eq, hchunk]
  · decide
  · rw [hchunk, numCopyThreads] at *
    omega

theorem tiles_copyChunks (chunkSize size k i : Nat) (h : size ≤ (i + k) * chunkSize) :
    Tiles (i * chunkSize) (size - i * chunkSize) (copyChunks chunkSize size k i) := by
  induction k generalizing i with
  | zero =>
    rw [Nat.add_zero] at h
    show size - i * chunkSize = 0
    omega
  | succ k ih =>
    have hsucc : (i + 1) * chunkSize = i * chunkSize + chunkSize := Nat.succ_mul ..
    have hadd : (i + (k + 1)) * chunkSize = i * chunkSize + (k + 1) * chunkSize := Nat.add_mul ..
    rw [copyChunks]
    split_ifs with hend
    · show size - i * chunkSize = 0
      omega
    · have hpos : 0 < chunkSize := by
        by_contra hzero
        rw [Nat.eq_zero_of_not_pos hzero] at h hend
        omega
      refine ⟨rfl, by dsimp only; omega, by dsimp only; omega, ?_⟩
      by_cases hlast : size - i * chunkSize ≤ chunkSize
      · have hnil : copyChunks chunkSize size k (i + 1) = [] := by
          cases k with
          | zero => rfl
          | succ k => rw [copyChunks, if_pos (by omega)]
        rw [hnil]
        show size - i * chunkSize - min chunkSize (size - i * chunkSize) = 0
        omega
      · have hih := ih (i + 1) (by rwa [Nat.add_assoc, Nat.add_comm 1])
        rw [hsucc] at hih
        dsimp only
        rw [Nat.min_eq_left (by omega)]
        rwa [Nat.sub_add_eq] at hih

theorem tiles_memcpyMultiChunks (size : Nat) : Tiles 0 size (memcpyMultiChunks size) := by
  have h := tiles_copyChunks ((size + numCopyThreads - 1) / numCopyThreads) size numCopyThreads 0
    (by rw [numCopyThreads]; omega)
  rwa [Nat.zero_mul, Nat.sub_zero] at h

/-! ### The threads -/

/-- One byte, at `o` in both ranges. Source and destination are in one memory. -/
def copyByte (d s : Nat) (mem : Nat → Byte) (o : Nat) : Nat → Byte := Function.update mem (d + o) (mem (s + o))

/-- The bytes that the threads copy, in the order in which they are copied: every thread copies its chunk, and nothing
else. -/
structure ThreadsRun (chunks : List (Nat × Nat)) (order : List Nat) : Prop where
  inside : ∀ o ∈ order, ∃ c ∈ chunks, c.1 ≤ o ∧ o < c.1 + c.2
  complete : ∀ c ∈ chunks, ∀ o, c.1 ≤ o → o < c.1 + c.2 → o ∈ order

/-- As long as only the destination is written the source reads the same. -/
theorem foldl_copyByte (d s size : Nat) (hapart : d + size ≤ s ∨ s + size ≤ d) (order : List Nat)
    (hin : ∀ o ∈ order, o < size) (mem : Nat → Byte) (a : Nat) :
    order.foldl (copyByte d s) mem a = if d ≤ a ∧ a - d ∈ order then mem (s + (a - d)) else mem a := by
  induction order generalizing mem with
  | nil => simp
  | cons o order ih =>
    obtain ⟨ho, hin⟩ := List.forall_mem_cons.1 hin
    rw [List.foldl_cons, ih hin]
    unfold copyByte
    by_cases hlater : d ≤ a ∧ a - d ∈ order
    · have := hin _ hlater.2
      rw [if_pos hlater, if_pos ⟨hlater.1, List.mem_cons_of_mem _ hlater.2⟩, Function.update_of_ne (by omega)]
    · rw [if_neg hlater]
      by_cases hnow : a = d + o
      · subst hnow
        rw [Nat.add_sub_cancel_left, if_pos ⟨by omega, List.mem_cons_self ..⟩, Function.update_self]
      · rw [Function.update_of_ne hnow, if_neg]
        rintro ⟨hle, hmem⟩
        rcases List.mem_cons.1 hmem with heq | hmem
        · omega
        · exact hlater ⟨hle, hmem⟩

/-- **`memcpy_multi` is one `memcpy`.** The chunks, which the 64-bit arithmetic gives as natural numbers would, cut the
range into disjoint pieces, and whatever the order in which their bytes are copied, the destination reads as the source
and nothing else has changed. -/
theorem memcpyMulti_anyOrder (size : UInt64) (hsize : size.toNat ≤ 2 ^ 64 - numCopyThreads) (d s : Nat)
    (hapart : d + size.toNat ≤ s ∨ s + size.toNat ≤ d) (mem : Nat → Byte) (order : List Nat)
    (hrun : ThreadsRun ((memcpyMultiChunks64 size).map fun c => (c.1.toNat, c.2.toNat)) order) :
    (memcpyMultiChunks64 size).map (fun c => (c.1.toNat, c.2.toNat)) = memcpyMultiChunks size.toNat ∧
      (memcpyMultiChunks64 size).Pairwise (fun c c' => c.1.toNat + c.2.toNat ≤ c'.1.toNat) ∧
      (∀ c ∈ memcpyMultiChunks64 size, c.1.toNat + c.2.toNat ≤ size.toNat) ∧
      (∀ o < size.toNat, ∃ c ∈ memcpyMultiChunks64 size, c.1.toNat ≤ o ∧ o < c.1.toNat + c.2.toNat) ∧
      order.foldl (copyByte d s) mem = blit mem d mem s size.toNat := by
  have htiles := tiles_memcpyMultiChunks size.toNat
  rw [← memcpyMultiChunks64_eq size hsize] at htiles
  have hcover : ∀ o, o < size.toNat ↔ o ∈ order := by
    intro o
    have hcov := htiles.cover o
    rw [Nat.zero_add] at hcov
    constructor
    · intro ho
      obtain ⟨c, hc, hlo, hhi⟩ := hcov.1 ⟨Nat.zero_le _, ho⟩
      exact hrun.complete c hc o hlo hhi
    · intro ho
      exact (hcov.2 (hrun.inside o ho)).2
  refine ⟨memcpyMultiChunks64_eq size hsize, List.pairwise_map.1 htiles.disjoint, fun c hc => ?_, fun o ho => ?_, ?_⟩
  · have := htiles.within _ (List.mem_map_of_mem hc)
    dsimp only at this
    omega
  · obtain ⟨x, hx, hin⟩ := (htiles.cover o).1 ⟨Nat.zero_le _, by omega⟩
    obtain ⟨c, hc, rfl⟩ := List.mem_map.1 hx
    exact ⟨c, hc, hin⟩
  · funext a
    rw [foldl_copyByte d s size.toNat hapart order (fun o ho => (hcover o).2 ho), blit]
    by_cases hin : d ≤ a ∧ a < d + size.toNat
    · rw [if_pos hin, if_pos ⟨hin.1, (hcover _).1 (by omega)⟩]
    · rw [if_neg hin, if_neg]
      rintro ⟨hle, hmem⟩
      exact hin ⟨hle, by have := (hcover _).2 hmem; omega⟩

/-- Five bytes, the last chunk first and one byte twice. -/
theorem threadsRun_fiveBytes :
    ThreadsRun ((memcpyMultiChunks64 5).map fun c => (c.1.toNat, c.2.toNat)) [4, 3, 1, 0, 2, 3] := by
  have hfive : ∀ c ∈ (memcpyMultiChunks64 5).map fun c => (c.1.toNat, c.2.toNat), c.1 + c.2 ≤ 5 := by decide
  have hall : ∀ o < 5, o ∈ [4, 3, 1, 0, 2, 3] := by decide
  refine ⟨by decide, fun c hc o _ hhi => hall o ?_⟩
  have := hfive c hc
  omega

theorem memcpyMulti_fiveBytes :
    [4, 3, 1, 0, 2, 3].foldl (copyByte 100 0) UInt8.ofNat = blit UInt8.ofNat 100 UInt8.ofNat 0 5 :=
  (memcpyMulti_anyOrder 5 (by decide) 100 0 (by decide) UInt8.ofNat [4, 3, 1, 0, 2, 3] threadsRun_fiveBytes).2.2.2.2

end GpuCr
