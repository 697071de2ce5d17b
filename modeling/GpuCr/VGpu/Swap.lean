import GpuCr.Lib.Run
import GpuCr.VGpu.Selective
import Mathlib.Data.List.Perm.Basic

/-!
# Swapping groups of blocks

All groups of blocks share one dump file, which keeps entries and payload of larger earlier dumps past
`current_offset`; the staging halves keep bytes of earlier copies. A restore reads none of that: two
states whose dumps agree up to `current_offset` end up with the same device (`restore_device_eq`). So the
bytes `[0, current_offset)` of a dump can be saved and put back later, and groups that have been
checkpointed one after the other can be restored in any order.
-/

namespace GpuCr

open Lib Lib.AsyncStream Lib.Run Std

namespace VGpu

/-! ### What a restore reads -/

/-- The state without the dump file and the staging halves. -/
structure Device where
  allocatedMemory : ExtTreeMap Nat Nat
  globalHandleMap : ExtTreeMap Nat Nat
  drv : Driver

def device (s : VGpu) : Device := ⟨s.allocatedMemory, s.globalHandleMap, s.drv⟩

def withHost (fs : SharedMemFs) (staging : Nat → Nat → Byte) (dump : Nat → Byte) (s : VGpu) : VGpu :=
  { s with fs := fs, staging := staging, dump := dump }

theorem eq_withHost {s t : VGpu} (h : t.device = s.device) : t = withHost t.fs t.staging t.dump s := by
  obtain ⟨table, handles, drv, fs, staging, dump⟩ := s
  obtain ⟨table', handles', drv', fs', staging', dump'⟩ := t
  simp only [device, Device.mk.injEq] at h
  obtain ⟨rfl, rfl, rfl⟩ := h
  rfl

/-- The bytes `[0, current_offset)` of the two dumps are the same, as far as a restore can see them: they
hold the counters, the entries in use and the payload. -/
structure SameDump (s t : VGpu) : Prop where
  fileNum : t.fs.fileNum = s.fs.fileNum
  currentOffset : t.fs.currentOffset = s.fs.currentOffset
  files : ∀ i < s.fs.fileNum, t.fs.files i = s.fs.files i
  payload : ∀ a, dumpHeaderSize ≤ a → a < s.fs.currentOffset → t.dump a = s.dump a

theorem SameDump.fileList {s t : VGpu} (h : SameDump s t) : t.fs.fileList = s.fs.fileList := by
  unfold SharedMemFs.fileList
  rw [h.fileNum]
  apply List.map_congr_left
  intro i hi
  exact h.files i (List.mem_range.1 hi)

section Host
variable (fs : SharedMemFs) (staging : Nat → Nat → Byte) (dump : Nat → Byte)

theorem unmapAndRelease_withHost (s : VGpu) (p size : Nat) :
    (withHost fs staging dump s).unmapAndRelease p size =
      (s.unmapAndRelease p size).map (withHost fs staging dump) := by
  unfold unmapAndRelease withHost
  dsimp only
  split_ifs
  · rfl
  · cases s.globalHandleMap[p]? with
    | none => rfl
    | some handle =>
      dsimp only
      split_ifs <;> rfl

theorem mapNewPhysical_withHost (s : VGpu) (p size : Nat) :
    (withHost fs staging dump s).mapNewPhysical p size =
      (s.mapNewPhysical p size).map (withHost fs staging dump) := by
  unfold mapNewPhysical withHost
  dsimp only
  rcases s.drv.cuMemCreate size with ⟨_ | handle, drv⟩
  · rfl
  · dsimp only
    split_ifs <;> rfl

theorem remapPhysicalMemory_withHost (s : VGpu) (p size : Nat) :
    (withHost fs staging dump s).remapPhysicalMemory p size =
      (s.remapPhysicalMemory p size).map (withHost fs staging dump) := by
  unfold remapPhysicalMemory
  rw [show (withHost fs staging dump s).allocatedMemory = s.allocatedMemory from rfl]
  cases s.allocatedMemory[p]? with
  | none => rfl
  | some oldSize =>
    dsimp only
    rw [unmapAndRelease_withHost, mapNewPhysical_withHost]
    show (if s.globalHandleMap[p]?.isSome then _ else _) = _
    split_ifs
    · cases s.unmapAndRelease p (roundUp2MB oldSize) with
      | none => rfl
      | some s' => exact mapNewPhysical_withHost fs staging dump s' p _
    · rfl

theorem remapAll_withHost (files : List SharedMemFile) (s : VGpu) :
    remapAll files (withHost fs staging dump s) = (remapAll files s).map (withHost fs staging dump) := by
  induction files generalizing s with
  | nil => rfl
  | cons f files ih =>
    unfold remapAll at ih ⊢
    rw [List.foldlM_cons, List.foldlM_cons, remapPhysicalMemory_withHost]
    cases s.remapPhysicalMemory f.ptr f.size with
    | error e => rfl
    | ok s' => exact ih s'

end Host

/-- Remapping leaves the dump file and the staging halves alone. -/
theorem remapAll_host {files : List SharedMemFile} {s s' : VGpu} (h : remapAll files s = .ok s') :
    s'.fs = s.fs ∧ s'.staging = s.staging ∧ s'.dump = s.dump := by
  have hsame := remapAll_withHost s.fs s.staging s.dump files s
  rw [← eq_withHost rfl, h] at hsame
  have heq : s' = withHost s.fs s.staging s.dump s' := Except.ok.inj hsame
  rw [heq]
  exact ⟨rfl, rfl, rfl⟩

theorem restoreCmds_congr (rule : ChunkRule) {fs fs' : SharedMemFs} (hfiles : fs'.fileList = fs.fileList)
    (hoffset : fs'.currentOffset = fs.currentOffset) : restoreCmds rule fs' = restoreCmds rule fs := by
  unfold restoreCmds
  rw [hfiles, hoffset]

theorem restoredDev_congr {dump dump' : Nat → Byte} {files : List SharedMemFile}
    (h : ∀ f ∈ files, ∀ i < f.size, dump' (f.startOffset + i) = dump (f.startOffset + i)) (dev : Nat → Byte) :
    restoredDev dump' files dev = restoredDev dump files dev := by
  induction files generalizing dev with
  | nil => rfl
  | cons f files ih =>
    have hblit : blit dev f.ptr dump' f.startOffset f.size = blit dev f.ptr dump f.startOffset f.size := by
      funext a
      by_cases ha : a < f.ptr ∨ f.ptr + f.size ≤ a
      · rw [blit_out _ _ ha, blit_out _ _ ha]
      · obtain ⟨i, rfl⟩ := Nat.exists_eq_add_of_le (show f.ptr ≤ a by omega)
        have hi : i < f.size := by omega
        rw [blit_in _ _ hi, blit_in _ _ hi]
        exact h f (List.mem_cons_self ..) i hi
    unfold restoredDev at ih ⊢
    rw [List.foldl_cons, List.foldl_cons, hblit]
    exact ih (fun g hg => h g (List.mem_cons_of_mem _ hg)) _

/-- The copy loop of a restore: the device it leaves depends on the dump only up to `current_offset`. -/
theorem runCopyLoop_device_eq {s t : VGpu} {blocks : List (Nat × Nat)} (hdev : t.device = s.device)
    (hsame : SameDump s t) (hfiles : s.fs.fileList = layout dumpHeaderSize blocks)
    (hoffset : s.fs.currentOffset = dumpHeaderSize + totalSize blocks) :
    (t.runCopyLoop (restoreCmds granuleChunk t.fs)).map device =
      (s.runCopyLoop (restoreCmds granuleChunk s.fs)).map device := by
  have hlist := hsame.fileList
  have hcmds := restoreCmds_congr granuleChunk hlist hsame.currentOffset
  have hs := restoreCmds_dev granuleChunk hfiles hoffset s.pipeMem
  have ht := restoreCmds_dev granuleChunk (hlist.trans hfiles) (hsame.currentOffset.trans hoffset) t.pipeMem
  obtain ⟨htable, hhandles, hdrv⟩ := Device.mk.inj hdev
  have hmem : (runPipe (restoreCmds granuleChunk s.fs) t.pipeMem).dev =
      (runPipe (restoreCmds granuleChunk s.fs) s.pipeMem).dev := by
    rw [← hcmds, ht, hcmds, hs, hlist]
    show restoredDev t.dump s.fs.fileList t.drv.mem = restoredDev s.dump s.fs.fileList s.drv.mem
    rw [hdrv]
    apply restoredDev_congr
    intro f hf i hi
    rw [hfiles] at hf
    have hstart := le_startOffset_of_mem_layout hf
    have hend := end_le_of_mem_layout hf
    exact hsame.payload _ (by omega) (by omega)
  unfold runCopyLoop
  rw [hcmds, hdrv]
  dsimp only
  split_ifs
  · rfl
  · rfl
  · show Except.ok (Device.mk _ _ _) = Except.ok (Device.mk _ _ _)
    rw [htable, hhandles, hmem]

/-- Header and payload of the dump file are as `ckpt_selective` left them. -/
def WrittenByCkptSelective (s : VGpu) : Prop :=
  ∃ shmSize req, ∃ s₀ s₁ : VGpu, s₀.ckptSelective shmSize req = .ok s₁ ∧ s.fs = s₁.fs ∧ s.dump = s₁.dump

theorem WrittenByCkptSelective.layout {s : VGpu} (h : s.WrittenByCkptSelective) :
    ∃ blocks, s.fs.fileList = layout dumpHeaderSize blocks ∧
      s.fs.currentOffset = dumpHeaderSize + totalSize blocks := by
  obtain ⟨shmSize, req, s₀, s₁, hckpt, hfs, -⟩ := h
  obtain ⟨blocks, -, hdumped, -⟩ := dumped_of_ckptSelective hckpt
  rw [hfs]
  exact ⟨blocks, hdumped.fileList, hdumped.currentOffset⟩

theorem restore_device_eq {s t : VGpu} (hwritten : s.WrittenByCkptSelective) (hdev : t.device = s.device)
    (hsame : SameDump s t) :
    t.restorePtrAndContentSelective.map device = s.restorePtrAndContentSelective.map device := by
  obtain ⟨blocks, hfiles, hoffset⟩ := hwritten.layout
  have ht := remapAll_withHost t.fs t.staging t.dump s.fs.fileList s
  rw [← eq_withHost hdev] at ht
  unfold restorePtrAndContentSelective
  rw [hsame.fileList, ht]
  cases hremap : remapAll s.fs.fileList s with
  | error e => rfl
  | ok s₁ =>
    obtain ⟨h1, h2, h3⟩ := remapAll_host hremap
    have hsame₁ : SameDump s₁ (withHost t.fs t.staging t.dump s₁) := by
      refine ⟨?_, ?_, ?_, ?_⟩
      · exact h1 ▸ hsame.fileNum
      · exact h1 ▸ hsame.currentOffset
      · exact h1 ▸ hsame.files
      · rw [h1, h3]
        exact hsame.payload
    exact runCopyLoop_device_eq rfl hsame₁ (h1 ▸ hfiles) (h1 ▸ hoffset)

/-! ### Saving and loading a dump -/

/-- The bytes `[0, current_offset)` of a dump: the whole header, and the payload after it. -/
structure DumpImage where
  fs : SharedMemFs
  payload : Nat → Byte

def saveDump (s : VGpu) : DumpImage := ⟨s.fs, s.dump⟩

/-- Only `current_offset` bytes are copied back; past them the dump keeps what it held. -/
def loadDump (s : VGpu) (image : DumpImage) : VGpu :=
  { s with
    fs := image.fs
    dump := fun a => if a < image.fs.currentOffset then image.payload a else s.dump a }

/-- A group is a request, with the device memory its checkpoint finds: the application runs on in
between. -/
structure Group where
  mem : Nat → Byte
  req : SelectiveCrRequest

/-- One `SELECTIVE_CKPT_MSG` for each group, each dump saved before the next one overwrites it. -/
def ckptGroups (shmSize : Nat) : List Group → VGpu → Except Exit (List DumpImage × VGpu)
  | [], s => .ok ([], s)
  | g :: groups, s => do
    let s ← (s.withMem g.mem).ckptSelective shmSize g.req
    let rest ← ckptGroups shmSize groups s
    return (s.saveDump :: rest.1, rest.2)

/-- One `SELECTIVE_RESTORE_MSG` for each image. -/
def restoreGroups (images : List DumpImage) (s : VGpu) : Except Exit VGpu :=
  images.foldlM (fun s image => (s.loadDump image).restorePtrAndContentSelective) s

/-! ### Checkpointing the groups -/

/-- The image holds the bytes of the group's blocks. -/
structure ImageOf (t : ExtTreeMap Nat Nat) (g : Group) (image : DumpImage) : Prop where
  fileList : image.fs.fileList = layout dumpHeaderSize (requestedBlocks t g.req)
  currentOffset : image.fs.currentOffset = dumpHeaderSize + totalSize (requestedBlocks t g.req)
  payload : ∀ f ∈ image.fs.fileList, ∀ i < f.size, image.payload (f.startOffset + i) = g.mem (f.ptr + i)

/-- No block is in both groups. -/
def Group.disjoint (t : ExtTreeMap Nat Nat) (g h : Group) : Prop :=
  ∀ b ∈ requestedBlocks t g.req, b ∉ requestedBlocks t h.req

instance (t : ExtTreeMap Nat Nat) (g h : Group) : Decidable (Group.disjoint t g h) :=
  inferInstanceAs (Decidable (∀ b ∈ _, b ∉ _))

instance (t : ExtTreeMap Nat Nat) : Std.Symm (Group.disjoint t) :=
  ⟨fun _ _ h b hb hb' => h b hb' hb⟩

/-- The dump of the group fits the dump file. -/
def Group.fits (shmSize : Nat) (t : ExtTreeMap Nat Nat) (g : Group) : Prop :=
  (requestedBlocks t g.req).length < maxFileNum ∧
    dumpHeaderSize + totalSize (requestedBlocks t g.req) ≤ shmSize

instance (shmSize : Nat) (t : ExtTreeMap Nat Nat) (g : Group) : Decidable (g.fits shmSize t) :=
  inferInstanceAs (Decidable (_ ∧ _))

theorem ckptGroups_spec {shmSize : Nat} {groups : List Group} {s : VGpu} (henv : s.drv.env.Reliable)
    (hapart : TableApart s.allocatedMemory) (hdisj : groups.Pairwise (Group.disjoint s.allocatedMemory))
    (hmapped : ∀ g ∈ groups, ∀ b ∈ requestedBlocks s.allocatedMemory g.req, s.MappedBlock b.1 b.2)
    (hfits : ∀ g ∈ groups, g.fits shmSize s.allocatedMemory) :
    ∃ images s', ckptGroups shmSize groups s = .ok (images, s') ∧
      List.Forall₂ (ImageOf s.allocatedMemory) groups images ∧ s'.drv.env = s.drv.env ∧
      s'.allocatedMemory = s.allocatedMemory ∧
      (∀ g ∈ groups, ∀ b ∈ requestedBlocks s.allocatedMemory g.req, s'.ParkedBlock b.1 b.2) ∧
      ∀ p n, s.ParkedBlock p n → s'.ParkedBlock p n := by
  induction groups generalizing s with
  | nil => exact ⟨[], s, rfl, .nil, rfl, rfl, fun _ hg => absurd hg List.not_mem_nil, fun _ _ h => h⟩
  | cons g groups ih =>
    rw [List.pairwise_cons] at hdisj
    have hg := List.mem_cons_self (a := g) (l := groups)
    obtain ⟨hnum, hsize⟩ := hfits g hg
    obtain ⟨s₁, hckpt, hdumped⟩ := ckptSelective_spec (s := s.withMem g.mem) henv hapart (hmapped g hg) hnum
      hsize
    have htab : s₁.allocatedMemory = s.allocatedMemory := hdumped.allocatedMemory
    have hin : ∀ b ∈ requestedBlocks s.allocatedMemory g.req, s₁.ParkedBlock b.1 b.2 := fun b hb =>
      hdumped.parkedAt.parkedBlock (hmapped g hg b hb) (List.mem_map_of_mem hb)
    -- the blocks of the later groups are not in this one
    have hlater : ∀ g' ∈ groups, ∀ b ∈ requestedBlocks s.allocatedMemory g'.req, s₁.MappedBlock b.1 b.2 := by
      intro g' hg' b hb
      refine hdumped.parkedAt.mappedBlock (hmapped g' (List.mem_cons_of_mem _ hg') b hb) ?_
      exact not_mem_requested (mem_requestedBlocks.1 hb).1 fun hb' => hdisj.1 g' hg' b hb' hb
    obtain ⟨images, s', hrest, himages, henv', htab', hparked, hstill⟩ := ih (s := s₁)
      (hdumped.env ▸ henv) (htab ▸ hapart) (htab ▸ hdisj.2) (htab ▸ hlater)
      (htab ▸ fun g' hg' => hfits g' (List.mem_cons_of_mem _ hg'))
    refine ⟨s₁.saveDump :: images, s', ?_, .cons ?_ (htab ▸ himages), henv'.trans hdumped.env,
      htab'.trans htab, ?_, ?_⟩
    · unfold ckptGroups
      rw [hckpt]
      show (ckptGroups shmSize groups s₁ >>= _) = _
      rw [hrest]
      rfl
    · exact ⟨hdumped.fileList, hdumped.currentOffset, hdumped.image⟩
    · intro g' hg' b hb
      rcases List.mem_cons.1 hg' with rfl | hg'
      · exact hstill _ _ (hin b hb)
      · exact hparked g' hg' b (htab.symm ▸ hb)
    · intro p n hp
      exact hstill p n (hdumped.parkedAt.stillParked hp)

/-! ### Restoring them -/

/-- The block is mapped under a handle of its own and reads as `mem` in its requested bytes. -/
def BackInPlace (b : Nat × Nat) (mem : Nat → Byte) (s : VGpu) : Prop :=
  (∃ h, s.globalHandleMap[b.1]? = some h ∧ s.drv.isLive h = true ∧
    ⟨b.1, roundUp2MB b.2, h, true⟩ ∈ s.drv.maps) ∧
  ∀ i < b.2, s.drv.mem (b.1 + i) = mem (b.1 + i)

theorem BackInPlace.of_unchanged {b : Nat × Nat} {mem : Nat → Byte} {s s' : VGpu}
    (h : BackInPlace b mem s) (hsame : BlockUnchanged b.1 b.2 s s') : BackInPlace b mem s' := by
  obtain ⟨⟨k, hk, hlive, hmap⟩, hcontent⟩ := h
  refine ⟨⟨k, hsame.handle.trans hk, hsame.live k hk hlive, (hsame.mapping _ rfl).2 hmap⟩, ?_⟩
  intro i hi
  rw [hsame.content i (Nat.lt_of_lt_of_le hi (le_roundUp2MB b.2))]
  exact hcontent i hi

theorem BlockUnchanged.trans {p n : Nat} {s₁ s₂ s₃ : VGpu} (h : BlockUnchanged p n s₁ s₂)
    (h' : BlockUnchanged p n s₂ s₃) : BlockUnchanged p n s₁ s₃ := by
  refine ⟨?_, ?_, h'.handle.trans h.handle, ?_⟩
  · intro i hi
    exact (h'.content i hi).trans (h.content i hi)
  · intro m hm
    exact (h'.mapping m hm).trans (h.mapping m hm)
  · intro k hk hlive
    exact h'.live k (h.handle.trans hk) (h.live k hk hlive)

/-- One image: its group is back, and every other block is as it was. -/
theorem restore_image {t : ExtTreeMap Nat Nat} {g : Group} {image : DumpImage} {s : VGpu}
    (henv : s.drv.env.Reliable) (htab : s.allocatedMemory = t) (hapart : TableApart t)
    (himage : ImageOf t g image) (hparked : ∀ b ∈ requestedBlocks t g.req, s.ParkedBlock b.1 b.2) :
    ∃ s', (s.loadDump image).restorePtrAndContentSelective = .ok s' ∧ s'.drv.env = s.drv.env ∧
      s'.allocatedMemory = t ∧ (∀ b ∈ requestedBlocks t g.req, BackInPlace b g.mem s') ∧
      (∀ p n, t[p]? = some n → (p, n) ∉ requestedBlocks t g.req → BlockUnchanged p n s s') ∧
      ∀ p n, s.ParkedBlock p n → (p, n) ∉ requestedBlocks t g.req → s'.ParkedBlock p n := by
  subst htab
  have hp : Parked image.fs.fileList (s.loadDump image) := by
    rw [himage.fileList]
    exact parked_layout hapart (nodup_requestedBlocks _ _) hparked
  obtain ⟨s', hrestore, henv', hrestored⟩ := restorePtrAndContentSelective_spec (s := s.loadDump image) henv
    himage.fileList himage.currentOffset hp
  refine ⟨s', hrestore, henv', hrestored.allocatedMemory, ?_, ?_, ?_⟩
  · intro b hb
    obtain ⟨k, hk, hmap, hlive⟩ := hrestored.mapped b hb
    refine ⟨⟨k, hk, hlive, hmap⟩, fun i hi => ?_⟩
    obtain ⟨f, hf, h1, h2⟩ := exists_file_of_mem dumpHeaderSize hb
    have hend := end_le_of_mem_layout hf
    rw [← himage.fileList] at hf
    have hlt : i < f.size := h2.symm ▸ hi
    rw [← h1, hrestored.content f hf i hlt, ← himage.payload f hf i hlt]
    -- the byte is one of those that were copied back
    exact if_pos (by rw [himage.currentOffset]; omega)
  · intro p n hpn hout
    have hsame := hrestored.blockUnchanged hapart hpn hout
    exact ⟨hsame.content, hsame.mapping, hsame.handle, hsame.live⟩
  · intro p n hpn hout
    exact hrestored.stillParked hapart (fun b hb => (mem_requestedBlocks.1 hb).1) hpn
      (not_mem_requested hpn.1 hout)

theorem restoreGroups_spec {t : ExtTreeMap Nat Nat} (hapart : TableApart t) {groups : List Group}
    {images : List DumpImage} (himages : List.Forall₂ (ImageOf t) groups images)
    (hdisj : groups.Pairwise (Group.disjoint t)) {s : VGpu} (henv : s.drv.env.Reliable)
    (htab : s.allocatedMemory = t)
    (hparked : ∀ g ∈ groups, ∀ b ∈ requestedBlocks t g.req, s.ParkedBlock b.1 b.2) :
    ∃ s', restoreGroups images s = .ok s' ∧
      (∀ g ∈ groups, ∀ b ∈ requestedBlocks t g.req, BackInPlace b g.mem s') ∧
      ∀ p n, t[p]? = some n → (∀ g ∈ groups, (p, n) ∉ requestedBlocks t g.req) →
        BlockUnchanged p n s s' := by
  induction himages generalizing s with
  | nil =>
    refine ⟨s, rfl, fun _ hg => absurd hg List.not_mem_nil, fun p n _ _ => ?_⟩
    exact ⟨fun _ _ => rfl, fun _ _ => Iff.rfl, rfl, fun _ _ h => h⟩
  | @cons g image groups images himage himages ih =>
    rw [List.pairwise_cons] at hdisj
    obtain ⟨s₁, hrestore, henv₁, htab₁, hback, hsame, hstill⟩ :=
      restore_image henv htab hapart himage (hparked g (List.mem_cons_self ..))
    obtain ⟨s', hrest, hback', hsame'⟩ := ih hdisj.2 (henv₁ ▸ henv) htab₁ (by
      intro g' hg' b hb
      exact hstill _ _ (hparked g' (List.mem_cons_of_mem _ hg') b hb) fun hb' => hdisj.1 g' hg' b hb' hb)
    refine ⟨s', ?_, ?_, ?_⟩
    · unfold restoreGroups at hrest ⊢
      rw [List.foldlM_cons, hrestore]
      exact hrest
    · intro g' hg' b hb
      rcases List.mem_cons.1 hg' with rfl | hg'
      · -- the later restores do not touch the blocks of this group
        refine (hback b hb).of_unchanged (hsame' _ _ (mem_requestedBlocks.1 hb).1 ?_)
        intro g'' hg'' hb''
        exact hdisj.1 g'' hg'' b hb hb''
      · exact hback' g' hg' b hb
    · intro p n hp hout
      have h1 := hsame p n hp (hout g (List.mem_cons_self ..))
      exact h1.trans (hsame' p n hp fun g' hg' => hout g' (List.mem_cons_of_mem _ hg'))

/-- **Dumps are self-contained.** A restore depends on nothing but the bytes `[0, current_offset)` of the
dump, the tables and the driver; so groups of disjoint mapped blocks that were checkpointed one after the
other can be restored from their saved dumps in any order, whatever the application wrote before. -/
theorem dump_selfContained :
    (∀ s t : VGpu, s.WrittenByCkptSelective → SameDump s t → t.device = s.device →
      t.restorePtrAndContentSelective.map device = s.restorePtrAndContentSelective.map device) ∧
    ∀ (shmSize : Nat) (s : VGpu) (groups : List Group), s.drv.env.Reliable →
      TableApart s.allocatedMemory → groups.Pairwise (Group.disjoint s.allocatedMemory) →
      (∀ g ∈ groups, ∀ b ∈ requestedBlocks s.allocatedMemory g.req, s.MappedBlock b.1 b.2) →
      (∀ g ∈ groups, g.fits shmSize s.allocatedMemory) →
      ∃ images s₁, ckptGroups shmSize groups s = .ok (images, s₁) ∧
        ∀ (mem : Nat → Byte) (order : List DumpImage), order.Perm images →
          ∃ s₂, restoreGroups order (s₁.withMem mem) = .ok s₂ ∧
            ∀ g ∈ groups, ∀ b ∈ requestedBlocks s.allocatedMemory g.req, BackInPlace b g.mem s₂ := by
  refine ⟨fun s t hs hsame hdev => restore_device_eq hs hdev hsame, ?_⟩
  intro shmSize s groups henv hapart hdisj hmapped hfits
  obtain ⟨images, s₁, hckpt, himages, henv₁, htab₁, hparked, -⟩ :=
    ckptGroups_spec henv hapart hdisj hmapped hfits
  refine ⟨images, s₁, hckpt, fun mem order hperm => ?_⟩
  -- the images in the new order belong to the groups in some order
  obtain ⟨groups', hperm', himages'⟩ := List.perm_comp_forall₂ hperm himages.flip
  obtain ⟨s₂, hrestore, hback, -⟩ := restoreGroups_spec hapart hperm'.flip
    ((himages'.pairwise_iff fun h => Std.Symm.symm _ _ h).2 hdisj) (s := s₁.withMem mem) (henv₁ ▸ henv)
    htab₁ (fun g hg => hparked g (himages'.mem_iff.1 hg))
  exact ⟨s₂, hrestore, fun g hg => hback g (himages'.mem_iff.2 hg)⟩

/-- The first block of `twoBlocks`, and then the second. -/
def twoGroups : List Group :=
  [⟨twoBlocks.drv.mem, ⟨[⟨0x200001, 2⟩], by decide⟩⟩, ⟨fun a => UInt8.ofNat (a + 1), interiorRequest⟩]

/-- The two groups restored in the other order, and a restore from a dump with other bytes past its end. -/
theorem dump_selfContained_twoGroups :
    ∃ images s₁, ckptGroups shmSizeDefault twoGroups twoBlocks = .ok (images, s₁) ∧
      (∃ s₂, restoreGroups images.reverse s₁ = .ok s₂ ∧ s₂.drv.mem 0x200002 = twoBlocks.drv.mem 0x200002 ∧
        s₂.drv.mem 0x700000 = 0x01) ∧
      ∃ s₁, twoBlocks.ckptSelective shmSizeDefault interiorRequest = .ok s₁ ∧
        (withHost s₁.fs (fun _ _ => 7) (fun a => if a < s₁.fs.currentOffset then s₁.dump a else 9)
          s₁).restorePtrAndContentSelective.map device = s₁.restorePtrAndContentSelective.map device := by
  have hmapped : ∀ req, ∀ b ∈ requestedBlocks twoBlocks.allocatedMemory req,
      twoBlocks.MappedBlock b.1 b.2 := fun req b hb =>
    twoBlocks_oneHandleEach.mappedBlock (mem_requestedBlocks.1 hb).1
  obtain ⟨images, s₁, hckpt, hrestore⟩ := dump_selfContained.2 shmSizeDefault twoBlocks twoGroups (fun _ => rfl)
    twoBlocks_apart (by decide) (fun g _ => hmapped g.req) (by decide)
  obtain ⟨s₂, h2, hback⟩ := hrestore s₁.drv.mem images.reverse (List.reverse_perm _)
  obtain ⟨s₃, h3⟩ : ∃ s₃, twoBlocks.ckptSelective shmSizeDefault interiorRequest = .ok s₃ := by
    have hsize : dumpHeaderSize + totalSize (requestedBlocks twoBlocks.allocatedMemory interiorRequest) ≤
        shmSizeDefault := by decide
    obtain ⟨s₃, h3, -⟩ := ckptSelective_spec (s := twoBlocks) (fun _ => rfl) twoBlocks_apart
      (hmapped interiorRequest) (by decide) hsize
    exact ⟨s₃, h3⟩
  refine ⟨images, s₁, hckpt, ⟨s₂, h2, ?_, ?_⟩, s₃, h3, ?_⟩
  · exact (hback _ (List.mem_cons_self ..) (0x200000, 3) (by decide)).2 2 (by decide)
  · exact (hback _ (List.mem_cons_of_mem _ (List.mem_cons_self ..)) (0x600000, 0x200001) (by decide)).2
      0x100000 (by decide)
  · refine dump_selfContained.1 s₃ _ ⟨_, _, _, _, h3, rfl, rfl⟩ ⟨rfl, rfl, fun _ _ => rfl, ?_⟩ rfl
    intro a _ ha
    exact if_pos ha

end VGpu

end GpuCr
