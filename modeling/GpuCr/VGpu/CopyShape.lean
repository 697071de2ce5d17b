import GpuCr.VGpu.Cuts
import GpuCr.VGpu.Messages

/-!
# The shape of the device copies

What the comment at `granule_clamp` promises of the copies of the selective loops, and what the driver
accepts of the copies of all four. In each case the copies of a block have the shape exactly if the end of
the block, in the payload and on the device, is in the right place: a half that is full in the middle of the
last granule of a block leaves a copy that is aligned at neither end, and the unclamped restore of an
unrounded dump copies across granules.
-/

namespace GpuCr

open Lib Lib.AsyncStream Lib.Chunks Lib.Run Std

/-! ### The selective loops -/

/-- The law at `granule_clamp`. -/
structure DocumentedShape (r : Nat × Nat) : Prop where
  short : r.2 ≤ vmmGranuleSize
  inGranule : InGranule vmmGranuleSize r
  aligned : AlignedAtEnd vmmGranuleSize r

/-- No half is full strictly inside the last, incomplete granule of a block of `size` bytes that has `off`
bytes of payload in front of it. -/
def NoCutInTail (off size : Nat) : Prop :=
  (off + size) % stagingBufSize = 0 ∨ size % vmmGranuleSize ≤ (off + size) % stagingBufSize

instance (off size : Nat) : Decidable (NoCutInTail off size) := inferInstanceAs (Decidable (_ ∨ _))

theorem cutSize_granuleChunk (d size off : Nat) : cutSize granuleChunk d size off =
    min (min size (stagingBufSize - off % stagingBufSize)) (vmmGranuleSize - d % vmmGranuleSize) := by
  show granuleClamp d _ = _
  unfold granuleClamp
  dsimp only
  split_ifs <;> omega

theorem inGranule_cutSize (d size off : Nat) : InGranule vmmGranuleSize (d, cutSize granuleChunk d size off) := by
  have hlt := Nat.mod_lt d (show vmmGranuleSize > 0 by decide)
  rw [cutSize_granuleChunk]
  show d % vmmGranuleSize + _ ≤ vmmGranuleSize
  omega

/-- The clamped loops never copy across a granule boundary. -/
theorem inGranule_cutBlock (d size off : Nat) : ∀ r ∈ cutBlock granuleChunk d size off, InGranule vmmGranuleSize r := by
  fun_induction cutBlock granuleChunk d size off with
  | case1 d size off hpos n ih => exact List.forall_mem_cons.2 ⟨inGranule_cutSize d size off, ih⟩
  | case2 d size off hpos => exact fun r hr => absurd hr List.not_mem_nil

theorem documentedShape_iff_aligned {r : Nat × Nat} (h : InGranule vmmGranuleSize r) :
    DocumentedShape r ↔ AlignedAtEnd vmmGranuleSize r := by
  have hshort : r.2 ≤ vmmGranuleSize := Nat.le_trans (Nat.le_add_left ..) h
  exact ⟨fun hr => hr.aligned, fun ha => ⟨hshort, h, ha⟩⟩

/-- The copies from a granule boundary on, or from the start of a half on. The end of the block in the
payload, `off + size`, and on the device, `d + size`, stay what they are from copy to copy. -/
theorem alignedAtEnd_cutBlock_iff (d size off : Nat) (h : vmmGranuleSize ∣ d ∨ stagingBufSize ∣ off) :
    (∀ r ∈ cutBlock granuleChunk d size off, AlignedAtEnd vmmGranuleSize r) ↔
      ((off + size) % stagingBufSize = 0 ∨ (d + size) % vmmGranuleSize ≤ (off + size) % stagingBufSize) := by
  fun_induction cutBlock granuleChunk d size off with
  | case1 d size off hpos n ih =>
    have hn : n = min (min size (stagingBufSize - off % stagingBufSize)) (vmmGranuleSize - d % vmmGranuleSize) :=
      cutSize_granuleChunk d size off
    have hle := cutSize_le granuleChunk d size off
    have hends : off + n + (size - n) = off + size ∧ d + n + (size - n) = d + size := by omega
    rw [hends.1, hends.2] at ih
    rw [List.forall_mem_cons]
    clear_value n
    unfold AlignedAtEnd at ih ⊢
    unfold stagingBufSize vmmGranuleSize at *
    by_cases hgranule : 2 * 1024 * 1024 ∣ d + n
    · rw [ih (Or.inl hgranule)]
      exact and_iff_right (Or.inr hgranule)
    · by_cases hhalf : 2 ^ 30 ∣ off + n
      · rw [ih (Or.inr hhalf)]
        refine and_iff_right (Or.inl ?_)
        omega
      · -- the copy ends where the block does
        have hsize : n = size := by omega
        rw [hsize, Nat.sub_self, cutBlock_zero]
        simp only [List.not_mem_nil, false_implies, implies_true, and_true]
        omega
  | case2 d size off hpos =>
    have hz : size = 0 := Nat.eq_zero_of_not_pos hpos
    refine iff_of_true (fun r hr => absurd hr List.not_mem_nil) ?_
    rw [hz, Nat.add_zero, Nat.add_zero]
    rcases h with h | h
    · rw [Nat.mod_eq_zero_of_dvd h]
      exact Or.inr (Nat.zero_le _)
    · exact Or.inl (Nat.mod_eq_zero_of_dvd h)

theorem documentedShape_cutBlock_iff {d : Nat} (hd : vmmGranuleSize ∣ d) (size off : Nat) :
    (∀ r ∈ cutBlock granuleChunk d size off, DocumentedShape r) ↔ NoCutInTail off size := by
  have hend : (d + size) % vmmGranuleSize = size % vmmGranuleSize := by
    rw [Nat.add_mod, Nat.mod_eq_zero_of_dvd hd, Nat.zero_add, Nat.mod_mod]
  rw [NoCutInTail, ← hend, ← alignedAtEnd_cutBlock_iff d size off (Or.inl hd)]
  exact forall₂_congr fun r hr => documentedShape_iff_aligned (inGranule_cutBlock d size off r hr)

theorem documentedShape_cutBlocks_iff {blocks : List (Nat × Nat)} (haligned : ∀ b ∈ blocks, vmmGranuleSize ∣ b.1)
    (off : Nat) : (∀ r ∈ cutBlocks granuleChunk blocks off, DocumentedShape r) ↔
      ∀ f ∈ layout off blocks, NoCutInTail f.startOffset f.size :=
  forall_cutBlocks_iff (fun b hb off => documentedShape_cutBlock_iff (haligned b hb) b.2 off) off

theorem fileBlocks_layout (offset : Nat) (blocks : List (Nat × Nat)) : fileBlocks (layout offset blocks) = blocks :=
  layout_blocks offset blocks

/-- **When the selective copies have the documented shape**: if and only if no half is full strictly inside
the last granule of a block, which the sizes of the block and of those before it decide. -/
theorem documentedShape_iff (shmSize : Nat) (blocks : List (Nat × Nat)) (fs : SharedMemFs)
    (haligned : ∀ b ∈ blocks, vmmGranuleSize ∣ b.1) :
    ((∀ r ∈ dumpCopies granuleChunk shmSize blocks fs, DocumentedShape r) ↔
        ∀ f ∈ layout 0 (acceptedBlocks shmSize blocks fs.reset), NoCutInTail f.startOffset f.size) ∧
      ∀ cmds fs', dumpCmds granuleChunk shmSize blocks fs = .ok (cmds, fs') →
        ((∀ r ∈ devRanges (restoreCmds granuleChunk fs'), DocumentedShape r) ↔
          ∀ f ∈ layout 0 blocks, NoCutInTail f.startOffset f.size) := by
  refine ⟨?_, fun cmds fs' h => ?_⟩
  · rw [dumpCopies_eq]
    exact documentedShape_cutBlocks_iff (fun b hb => haligned b (acceptedBlocks_subset hb)) 0
  · rw [devRanges_restoreCmds, (dumpCmds_inv h).1, fileBlocks_layout]
    exact documentedShape_cutBlocks_iff haligned 0

/-- A block of three bytes and one of a granule and a byte. -/
theorem documentedShape_twoBlocks : (∀ b ∈ [(0x200000, 3), (0x600000, 0x200001)], vmmGranuleSize ∣ b.1) ∧
    ∀ r ∈ dumpCopies granuleChunk shmSizeDefault [(0x200000, 3), (0x600000, 0x200001)] VGpu.twoBlocks.fs,
      DocumentedShape r := by
  obtain ⟨cmds, fs', hcmds⟩ := dumpCmds_ok granuleChunk VGpu.twoBlocks.fs
    (show dumpHeaderSize + totalSize [(0x200000, 3), (0x600000, 0x200001)] ≤ shmSizeDefault by decide) (by decide)
  refine ⟨by decide, (documentedShape_iff shmSizeDefault _ VGpu.twoBlocks.fs (by decide)).1.2 ?_⟩
  rw [acceptedBlocks_of_ok hcmds]
  decide

/-- The first half is full after a megabyte of the second block, which has half a megabyte more. -/
theorem not_documentedShape : ¬∀ (shmSize : Nat) (blocks : List (Nat × Nat)) (fs : SharedMemFs),
    (∀ b ∈ blocks, vmmGranuleSize ∣ b.1) → ∀ r ∈ dumpCopies granuleChunk shmSize blocks fs, DocumentedShape r := by
  intro h
  obtain ⟨cmds, fs', hcmds⟩ := dumpCmds_ok granuleChunk VGpu.twoBlocks.fs
    (show dumpHeaderSize + totalSize [(0x200000, 0x3FF00000), (0x80000000, 0x180000)] ≤ shmSizeDefault by decide) (by decide)
  have hshape := h shmSizeDefault [(0x200000, 0x3FF00000), (0x80000000, 0x180000)] VGpu.twoBlocks.fs (by decide)
  rw [dumpCopies_eq, acceptedBlocks_of_ok hcmds, documentedShape_cutBlocks_iff (by decide)] at hshape
  exact absurd hshape (by decide)

/-! ### What the driver accepts -/

/-- A copy on a hooked mapping that the driver does not reject. -/
def AcceptedShape (r : Nat × Nat) : Prop :=
  InGranule vmmGranuleSize r ∨ vmmGranuleSize ∣ r.1 ∧ vmmGranuleSize ∣ r.2

instance (r : Nat × Nat) : Decidable (AcceptedShape r) := inferInstanceAs (Decidable (_ ∨ _))

/-- A block of `size` bytes at a granule boundary, `off` bytes of payload being in front of it, is copied in
accepted pieces without the clamp: it is one granule at most; or it is whole granules, and lies in one half or
starts at a granule in it; or it starts so and what the last half has of it is one granule at most. -/
def FullCopyFits (off size : Nat) : Prop :=
  size ≤ vmmGranuleSize ∨
    vmmGranuleSize ∣ size ∧ (off % stagingBufSize + size ≤ stagingBufSize ∨ vmmGranuleSize ∣ off) ∨
    vmmGranuleSize ∣ off ∧ stagingBufSize < off % stagingBufSize + size ∧ (off + size) % stagingBufSize ≤ vmmGranuleSize

instance (off size : Nat) : Decidable (FullCopyFits off size) := inferInstanceAs (Decidable (_ ∨ _ ∨ _))

theorem cutSize_wholeChunk (d size off : Nat) :
    cutSize wholeChunk d size off = min size (stagingBufSize - off % stagingBufSize) := rfl

theorem inGranule_of_tiles {d size : Nat} {rs : List (Nat × Nat)} (h : Tiles d size rs)
    (hsize : d % vmmGranuleSize + size ≤ vmmGranuleSize) : ∀ r ∈ rs, InGranule vmmGranuleSize r := by
  intro r hr
  have hwithin := h.within r hr
  have hpos := h.pos r hr
  unfold InGranule vmmGranuleSize at *
  omega

theorem fullCopyFits_of_aligned {off : Nat} (h : vmmGranuleSize ∣ off) (size : Nat) : FullCopyFits off size ↔
    size ≤ vmmGranuleSize ∨ vmmGranuleSize ∣ size ∨
      stagingBufSize < off % stagingBufSize + size ∧ (off + size) % stagingBufSize ≤ vmmGranuleSize := by
  simp only [FullCopyFits, h, or_true, and_true, true_and]

/-- A block that starts at a granule boundary, on the device as in the half, is cut at granule boundaries
only. -/
theorem acceptedShape_cutBlock_aligned (d size off : Nat) (hd : vmmGranuleSize ∣ d) (hoff : vmmGranuleSize ∣ off) :
    (∀ r ∈ cutBlock wholeChunk d size off, AcceptedShape r) ↔ FullCopyFits off size := by
  fun_induction cutBlock wholeChunk d size off with
  | case1 d size off hpos n ih =>
    have hn : n = min size (stagingBufSize - off % stagingBufSize) := cutSize_wholeChunk d size off
    clear_value n
    rw [List.forall_mem_cons, fullCopyFits_of_aligned hoff]
    by_cases hcross : stagingBufSize < off % stagingBufSize + size
    · -- the half is filled up with whole granules, and the rest starts at the next half
      have hlt := Nat.mod_lt off stagingBufSize_pos
      have hfull : off % stagingBufSize + n = stagingBufSize := by omega
      have hhalf : vmmGranuleSize ∣ n ∧ (off + n) % stagingBufSize = 0 := by
        unfold stagingBufSize vmmGranuleSize at *
        omega
      have hoff' : vmmGranuleSize ∣ off + n := Nat.dvd_add hoff hhalf.1
      have hend : off + n + (size - n) = off + size := by omega
      have hdvd : vmmGranuleSize ∣ size - n ↔ vmmGranuleSize ∣ size := Nat.dvd_sub_iff_left (by omega) hhalf.1
      have hpiece : AcceptedShape (d, n) := Or.inr ⟨hd, hhalf.1⟩
      rw [and_iff_right hpiece, ih (Nat.dvd_add hd hhalf.1) hoff', fullCopyFits_of_aligned hoff', hend,
        hhalf.2, hdvd]
      have hgranules := hhalf.1
      clear ih hdvd hend hoff' hhalf hoff hd hpiece
      have hrest : (off + size) % stagingBufSize = (size - n) % stagingBufSize := by
        unfold stagingBufSize at *
        omega
      rw [hrest]
      unfold stagingBufSize vmmGranuleSize at *
      omega
    · have hsize : n = size := by omega
      rw [hsize, Nat.sub_self, cutBlock_zero]
      unfold AcceptedShape InGranule
      unfold stagingBufSize vmmGranuleSize at *
      simp only [List.not_mem_nil, false_implies, implies_true, and_true]
      omega
  | case2 d size off hpos =>
    have hz : size = 0 := Nat.eq_zero_of_not_pos hpos
    refine iff_of_true (fun r hr => absurd hr List.not_mem_nil) (Or.inl ?_)
    rw [hz]
    exact Nat.zero_le _

/-- **The unclamped copies of a block**, whatever is in front of it. -/
theorem acceptedShape_cutBlock_iff {d : Nat} (hd : vmmGranuleSize ∣ d) (size off : Nat) :
    (∀ r ∈ cutBlock wholeChunk d size off, AcceptedShape r) ↔ FullCopyFits off size := by
  by_cases hoff : vmmGranuleSize ∣ off
  · exact acceptedShape_cutBlock_aligned d size off hd hoff
  by_cases hsmall : size ≤ vmmGranuleSize
  · refine iff_of_true (fun r hr => Or.inl ?_) (Or.inl hsmall)
    refine inGranule_of_tiles (tiles_cutBlock wholeChunk d size off) ?_ r hr
    rw [Nat.mod_eq_zero_of_dvd hd, Nat.zero_add]
    exact hsmall
  have hpos : 0 < size := by omega
  have hn := cutSize_wholeChunk d size off
  rw [cutBlock_of_pos wholeChunk d off hpos, List.forall_mem_cons]
  generalize cutSize wholeChunk d size off = n at hn
  by_cases hcross : stagingBufSize < off % stagingBufSize + size
  · have hlt := Nat.mod_lt off stagingBufSize_pos
    have hfull : off % stagingBufSize + n = stagingBufSize := by omega
    have hgranules : ¬vmmGranuleSize ∣ n ∧ (off + n) % stagingBufSize = 0 := by
      unfold stagingBufSize vmmGranuleSize at *
      omega
    have hstart : (d + n) % vmmGranuleSize = n % vmmGranuleSize := by
      rw [Nat.add_mod, Nat.mod_eq_zero_of_dvd hd, Nat.zero_add, Nat.mod_mod]
    have hfits : ¬FullCopyFits off size := by
      rintro (h | ⟨-, h | h⟩ | ⟨h, -⟩)
      · exact hsmall h
      · exact Nat.not_lt.2 h hcross
      · exact hoff h
      · exact hoff h
    -- the first copy stays in a granule, and the second one starts inside it and goes beyond it
    have hrest : 0 < size - n := by omega
    have hn' := cutSize_wholeChunk (d + n) (size - n) (off + n)
    rw [hgranules.2, Nat.sub_zero] at hn'
    rw [cutBlock_of_pos wholeChunk (d + n) (off + n) hrest, List.forall_mem_cons, hn']
    refine iff_of_false ?_ hfits
    rintro ⟨hfirst, hsecond, -⟩
    have h1 : d % vmmGranuleSize + n ≤ vmmGranuleSize := hfirst.resolve_right fun h => hgranules.1 h.2
    have h2 : (d + n) % vmmGranuleSize + min (size - n) stagingBufSize ≤ vmmGranuleSize := by
      refine hsecond.resolve_right fun h => hgranules.1 ?_
      exact (Nat.dvd_add_right hd).1 h.1
    have hsmaller : n % vmmGranuleSize = n := by
      refine Nat.mod_eq_of_lt (Nat.lt_of_le_of_ne (by omega) ?_)
      rintro rfl
      exact hgranules.1 (dvd_refl _)
    have hcap : vmmGranuleSize < stagingBufSize := by decide
    rw [hstart, hsmaller] at h2
    omega
  · have hsize : n = size := by omega
    rw [hsize, Nat.sub_self, cutBlock_zero]
    simp only [List.not_mem_nil, false_implies, implies_true, and_true]
    unfold AcceptedShape InGranule FullCopyFits at *
    unfold stagingBufSize vmmGranuleSize at *
    omega

theorem acceptedShape_cutBlocks_iff {blocks : List (Nat × Nat)} (haligned : ∀ b ∈ blocks, vmmGranuleSize ∣ b.1)
    (off : Nat) : (∀ r ∈ cutBlocks wholeChunk blocks off, AcceptedShape r) ↔
      ∀ f ∈ layout off blocks, FullCopyFits f.startOffset f.size :=
  forall_cutBlocks_iff (fun b hb off => acceptedShape_cutBlock_iff (haligned b hb) b.2 off) off

theorem acceptedShape_granuleChunk (blocks : List (Nat × Nat)) (off : Nat) :
    ∀ r ∈ cutBlocks granuleChunk blocks off, AcceptedShape r := by
  induction blocks generalizing off with
  | nil => exact fun r hr => absurd hr List.not_mem_nil
  | cons b blocks ih =>
    rw [cutBlocks, List.forall_mem_append]
    exact ⟨fun r hr => Or.inl (inGranule_cutBlock b.1 b.2 off r hr), ih _⟩

theorem fullCopyFits_of_rounded {blocks : List (Nat × Nat)} (hsize : ∀ b ∈ blocks, vmmGranuleSize ∣ b.2) {off : Nat}
    (hoff : vmmGranuleSize ∣ off) : ∀ f ∈ layout off blocks, FullCopyFits f.startOffset f.size := by
  induction blocks generalizing off with
  | nil => exact fun f hf => absurd hf List.not_mem_nil
  | cons b blocks ih =>
    rw [List.forall_mem_cons] at hsize
    rw [layout, List.forall_mem_cons]
    exact ⟨Or.inr (Or.inl ⟨hsize.1, Or.inr hoff⟩), ih hsize.2 (Nat.dvd_add hoff hsize.1)⟩

theorem vmmGranuleSize_dvd_roundUp2MB (n : Nat) : vmmGranuleSize ∣ roundUp2MB n := Nat.dvd_mul_left ..

/-! ### The messages -/

namespace VGpu

/-- The device copies that the operation of a message issues. -/
def msgCopies (shmSize : Nat) (s : VGpu) : GpuMsg → List (Nat × Nat)
  | .ckpt => dumpCopies wholeChunk shmSize (ckptBlocks s.allocatedMemory) s.fs
  | .selectiveCkpt req =>
    match selectiveBlocks s.allocatedMemory req with
    | .error _ => []
    | .ok blocks => dumpCopies granuleChunk shmSize blocks s.fs
  | .restore =>
    match remapAll s.fs.fileList s with
    | .error _ => []
    | .ok s => devRanges (restoreCmds wholeChunk s.fs)
  | .selectiveRestore =>
    match remapAll s.fs.fileList s with
    | .error _ => []
    | .ok s => devRanges (restoreCmds granuleChunk s.fs)

def CopiesAccepted (shmSize : Nat) (s : VGpu) (m : GpuMsg) : Prop := ∀ r ∈ s.msgCopies shmSize m, AcceptedShape r

/-- A full restore finds a dump whose blocks it copies in accepted pieces. -/
def RestoreFits (s : VGpu) (m : GpuMsg) : Prop :=
  m = .restore → ∀ f ∈ layout 0 (fileBlocks s.fs.fileList), FullCopyFits f.startOffset f.size

/-- The step of a message. -/
def msgStep (shmSize : Nat) (s : VGpu) (m : GpuMsg) : Except Exit VGpu := HookedGpu.operation shmSize m s

/-- The blocks of the table and of the dump are at granule boundaries. -/
structure Aligned (s : VGpu) : Prop where
  table : ∀ p n : Nat, s.allocatedMemory[p]? = some n → vmmGranuleSize ∣ p
  files : ∀ f ∈ s.fs.fileList, vmmGranuleSize ∣ f.ptr

section Step
variable {shmSize : Nat} {s s' : VGpu}

theorem ckptBlocks_aligned (htable : ∀ p n : Nat, s.allocatedMemory[p]? = some n → vmmGranuleSize ∣ p) :
    ∀ b ∈ ckptBlocks s.allocatedMemory, vmmGranuleSize ∣ b.1 ∧ vmmGranuleSize ∣ b.2 := by
  intro b hb
  obtain ⟨n, hn, hsize⟩ := mem_ckptBlocks.1 hb
  rw [hsize]
  exact ⟨htable _ _ hn, vmmGranuleSize_dvd_roundUp2MB n⟩

theorem aligned_of_ckpt (htable : ∀ p n : Nat, s.allocatedMemory[p]? = some n → vmmGranuleSize ∣ p) {m : GpuMsg}
    (hm : m = .ckpt ∨ ∃ req, m = .selectiveCkpt req) (h : s.msgStep shmSize m = .ok s') : s'.Aligned := by
  have htab : s'.allocatedMemory = s.allocatedMemory := HookedGpu.operation_table h
  refine ⟨fun p n hp => htable p n (htab ▸ hp), fun f hf => ?_⟩
  rcases hm with rfl | ⟨req, rfl⟩
  · obtain ⟨⟨cmds, fs⟩, hcmds, h⟩ := bind_eq_ok.1 h
    obtain ⟨s₀, hloop, hrelease⟩ := bind_eq_ok.1 h
    obtain ⟨-, rfl⟩ := runCopyLoop_inv hloop
    rw [(releaseAll_inv hrelease).1.fs, (dumpCmds_inv hcmds).1] at hf
    exact (ckptBlocks_aligned htable _ (mem_of_mem_layout hf)).1
  · obtain ⟨blocks, -, hdumped, hmapped⟩ := dumped_of_ckptSelective h
    rw [hdumped.fileList] at hf
    obtain ⟨n, hn, -⟩ := hmapped f.ptr (List.mem_map_of_mem (mem_of_mem_layout hf))
    exact htable _ _ hn

theorem Aligned.msgStep (hs : s.Aligned) {m : GpuMsg} (h : s.msgStep shmSize m = .ok s') : s'.Aligned := by
  have hrestore : ∀ rule, (remapAll s.fs.fileList s >>= fun s => s.runCopyLoop (restoreCmds rule s.fs)) = .ok s' →
      s'.Aligned := by
    intro rule h
    obtain ⟨s₁, hremap, hloop⟩ := bind_eq_ok.1 h
    obtain ⟨-, rfl⟩ := runCopyLoop_inv hloop
    have htab := (remapAll_known hremap).2
    have hfs := (remapAll_host hremap).1
    exact ⟨fun p n hp => hs.table p n (htab ▸ hp), fun f hf => hs.files f (hfs ▸ hf)⟩
  cases m with
  | ckpt => exact aligned_of_ckpt hs.table (Or.inl rfl) h
  | restore => exact hrestore wholeChunk h
  | selectiveCkpt req => exact aligned_of_ckpt hs.table (Or.inr ⟨req, rfl⟩) h
  | selectiveRestore => exact hrestore granuleChunk h

theorem copiesAccepted_ckpt (htable : ∀ p n : Nat, s.allocatedMemory[p]? = some n → vmmGranuleSize ∣ p) {m : GpuMsg}
    (hm : m = .ckpt ∨ ∃ req, m = .selectiveCkpt req) : s.CopiesAccepted shmSize m := by
  unfold CopiesAccepted
  rcases hm with rfl | ⟨req, rfl⟩
  · have haligned := ckptBlocks_aligned htable
    unfold msgCopies
    rw [dumpCopies_eq, acceptedShape_cutBlocks_iff fun b hb => (haligned b (acceptedBlocks_subset hb)).1]
    exact fullCopyFits_of_rounded (fun b hb => (haligned b (acceptedBlocks_subset hb)).2) (dvd_zero _)
  · unfold msgCopies
    dsimp only
    cases selectiveBlocks s.allocatedMemory req with
    | error e => exact fun r hr => absurd hr List.not_mem_nil
    | ok blocks =>
      dsimp only
      rw [dumpCopies_eq]
      exact acceptedShape_granuleChunk _ _

theorem fileBlocks_aligned (hs : s.Aligned) : ∀ b ∈ fileBlocks s.fs.fileList, vmmGranuleSize ∣ b.1 := by
  intro b hb
  obtain ⟨f, hf, rfl⟩ := List.mem_map.1 hb
  exact hs.files f hf

theorem Aligned.copiesAccepted (hs : s.Aligned) {m : GpuMsg} (hm : s.RestoreFits m) : s.CopiesAccepted shmSize m := by
  cases m with
  | ckpt => exact copiesAccepted_ckpt hs.table (Or.inl rfl)
  | selectiveCkpt req => exact copiesAccepted_ckpt hs.table (Or.inr ⟨req, rfl⟩)
  | restore =>
    unfold CopiesAccepted msgCopies
    dsimp only
    cases hremap : remapAll s.fs.fileList s with
    | error e => exact fun r hr => absurd hr List.not_mem_nil
    | ok s₁ =>
      dsimp only
      rw [devRanges_restoreCmds, (remapAll_host hremap).1, acceptedShape_cutBlocks_iff (fileBlocks_aligned hs)]
      exact hm rfl
  | selectiveRestore =>
    unfold CopiesAccepted msgCopies
    dsimp only
    cases remapAll s.fs.fileList s with
    | error e => exact fun r hr => absurd hr List.not_mem_nil
    | ok s₁ =>
      dsimp only
      rw [devRanges_restoreCmds]
      exact acceptedShape_granuleChunk _ _

end Step

/-- Each restore comes after a checkpoint. -/
def RestoresFollow (msgs : List GpuMsg) : Prop :=
  ∀ (i : Nat) (m : GpuMsg), msgs[i]? = some m → m = .restore ∨ m = .selectiveRestore →
    ∃ (j : Nat) (c : GpuMsg), j < i ∧ msgs[j]? = some c ∧ (c = .ckpt ∨ ∃ req, c = .selectiveCkpt req)

theorem copiesAccepted_of_aligned {shmSize : Nat} {s : VGpu} (hs : s.Aligned) (msgs : List GpuMsg)
    (hok : AllStepsM RestoreFits (msgStep shmSize) s msgs) :
    AllStepsM (CopiesAccepted shmSize) (msgStep shmSize) s msgs := by
  induction msgs generalizing s with
  | nil => trivial
  | cons m msgs ih =>
    refine ⟨hs.copiesAccepted hok.1, fun s' hs' => ?_⟩
    exact ih (hs.msgStep hs') (hok.2 s' hs')

/-- **Every copy has a shape the driver accepts**, in every run of messages in which each full restore finds
a dump that it copies in accepted pieces; a full checkpoint leaves such a dump. -/
theorem copiesAccepted_run (shmSize : Nat) (s : VGpu)
    (htable : ∀ p n : Nat, s.allocatedMemory[p]? = some n → vmmGranuleSize ∣ p) (msgs : List GpuMsg)
    (hfollow : RestoresFollow msgs) (hok : AllStepsM RestoreFits (msgStep shmSize) s msgs) :
    AllStepsM (CopiesAccepted shmSize) (msgStep shmSize) s msgs := by
  cases msgs with
  | nil => trivial
  | cons m msgs =>
    have hm : m = .ckpt ∨ ∃ req, m = .selectiveCkpt req := by
      have hnone : ¬(m = .restore ∨ m = .selectiveRestore) := by
        intro h
        obtain ⟨j, c, hj, -⟩ := hfollow 0 m rfl h
        exact absurd hj (Nat.not_lt_zero j)
      cases m with
      | ckpt => exact Or.inl rfl
      | restore => exact absurd (Or.inl rfl) hnone
      | selectiveCkpt req => exact Or.inr ⟨req, rfl⟩
      | selectiveRestore => exact absurd (Or.inr rfl) hnone
    refine ⟨copiesAccepted_ckpt htable hm, fun s' hs' => ?_⟩
    exact copiesAccepted_of_aligned (aligned_of_ckpt htable hm hs') msgs (hok.2 s' hs')

/-- A full checkpoint leaves a dump of whole granules. -/
theorem restoreFits_of_ckpt {shmSize : Nat} {s s' : VGpu} (h : s.msgStep shmSize .ckpt = .ok s') (m : GpuMsg) :
    s'.RestoreFits m := by
  intro _
  obtain ⟨⟨cmds, fs⟩, hcmds, h⟩ := bind_eq_ok.1 h
  obtain ⟨s₀, hloop, hrelease⟩ := bind_eq_ok.1 h
  obtain ⟨-, rfl⟩ := runCopyLoop_inv hloop
  rw [(releaseAll_inv hrelease).1.fs, (dumpCmds_inv hcmds).1, fileBlocks_layout]
  refine fullCopyFits_of_rounded (fun b hb => ?_) (dvd_zero _)
  obtain ⟨n, -, hsize⟩ := mem_ckptBlocks.1 hb
  rw [hsize]
  exact vmmGranuleSize_dvd_roundUp2MB n

theorem twoBlocks_aligned (p n : Nat) (h : twoBlocks.allocatedMemory[p]? = some n) : vmmGranuleSize ∣ p := by
  simp only [twoBlocks, ExtTreeMap.getElem?_insert, ExtTreeMap.getElem?_empty] at h
  split_ifs at h with h1 h2
  · rw [← Nat.compare_eq_eq.1 h1]
    decide
  · rw [← Nat.compare_eq_eq.1 h2]
    decide

theorem restoresFollow_pair {c m : GpuMsg} (hc : c = .ckpt ∨ ∃ req, c = .selectiveCkpt req) : RestoresFollow [c, m] := by
  intro i m' hm' hrestore
  cases i with
  | zero =>
    obtain rfl := Option.some.inj hm'
    rcases hc with rfl | ⟨req, rfl⟩ <;> simp at hrestore
  | succ i => exact ⟨0, c, Nat.succ_pos i, rfl, hc⟩

theorem copiesAccepted_twoBlocks :
    AllStepsM (CopiesAccepted shmSizeDefault) (msgStep shmSizeDefault) twoBlocks [.ckpt, .restore] := by
  refine copiesAccepted_run shmSizeDefault twoBlocks twoBlocks_aligned _ (restoresFollow_pair (Or.inl rfl)) ?_
  refine ⟨fun h => absurd h (by simp), fun s' hs' => ⟨restoreFits_of_ckpt hs' _, fun _ _ => trivial⟩⟩

/-- A full restore of a selective dump copies a granule and a byte at once. -/
theorem not_copiesAccepted : ¬∀ s : VGpu, (∀ p n : Nat, s.allocatedMemory[p]? = some n → vmmGranuleSize ∣ p) →
    ∀ msgs, RestoresFollow msgs → AllStepsM (CopiesAccepted shmSizeDefault) (msgStep shmSizeDefault) s msgs := by
  intro h
  have hmapped : ∀ b ∈ requestedBlocks twoBlocks.allocatedMemory interiorRequest, twoBlocks.MappedBlock b.1 b.2 :=
    fun b hb => twoBlocks_oneHandleEach.mappedBlock (mem_requestedBlocks.1 hb).1
  obtain ⟨s₁, hckpt, hdumped⟩ := @ckptSelective_spec shmSizeDefault interiorRequest twoBlocks (fun _ => rfl)
    twoBlocks_apart hmapped (by decide) (by decide)
  obtain ⟨s₂, hremap, -⟩ := remapAll_spec (hdumped.env ▸ fun _ => rfl) (hdumped.parked (requestedBlocks_dumpable hmapped))
  have haccepted := ((h twoBlocks twoBlocks_aligned _ (restoresFollow_pair (m := .restore)
    (Or.inr ⟨interiorRequest, rfl⟩))).2 s₁ hckpt).1
  unfold CopiesAccepted msgCopies at haccepted
  dsimp only at haccepted
  rw [hremap] at haccepted
  dsimp only at haccepted
  have hblocks : fileBlocks s₁.fs.fileList = [(0x600000, 0x200001)] := by
    rw [hdumped.fileList, fileBlocks_layout]
    decide
  rw [devRanges_restoreCmds, (remapAll_host hremap).1, hblocks, acceptedShape_cutBlocks_iff (by decide)] at haccepted
  exact absurd haccepted (by decide)

end VGpu

end GpuCr
