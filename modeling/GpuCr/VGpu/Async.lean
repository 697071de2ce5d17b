import GpuCr.VGpu.Selective

/-!
# The copy loops on an asynchronous stream

`memcpyAsync` only queues a copy. The dump loops queue copies into one half while the host flushes the
other, the restore loops queue copies out of one half while the host refills the other, and in both a
single event, recorded again at every turn of the halves, says when the host may go on.

What may be queued is described by the parity of `current_buf`. On the dump side the copies behind the last
marker are on the current half and those ahead of it on the previous one (`DumpPending`); on the
restore side those ahead of it are on the next one (`RestorePending`), which with two halves is the same
half. The event wait drops the copies ahead of the marker just before the host touches their half.
-/

namespace GpuCr

open Lib Lib.AsyncStream

/-! ### Independence -/

def PipeOp.isCopy : PipeOp → Bool
  | .devToHost .. => true
  | .hostToDev .. => true
  | _ => false

/-- The staging half an operation reads or writes. -/
def PipeOp.stagingHalf : PipeOp → Option Nat
  | .devToHost half .. => some half
  | .hostToDev _ half .. => some half
  | .toDump _ half _ => some half
  | .fromDump half .. => some half
  | .assert _ => none

/-- A queued copy and a host operation on different halves. -/
def halvesApart (k c : PipeOp) : Prop :=
  k.isCopy = true ∧ c.isCopy = false ∧ k.stagingHalf ≠ c.stagingHalf

theorem exec_comm_of_halvesApart (k c : PipeOp) (h : halvesApart k c) (m : PipeMem) :
    c.exec (k.exec m) = k.exec (c.exec m) := by
  obtain ⟨hk, hc, hne⟩ := h
  cases k with
  | devToHost half off src n =>
    cases c with
    | toDump des half' n' =>
      have hhalf : half' ≠ half := fun h => hne (by rw [h]; rfl)
      rw [toDump_eq, toDump_eq, devToHost_eq, devToHost_eq]
      simp only [Function.update_of_ne hhalf]
    | fromDump half' src' n' =>
      have hhalf : half' ≠ half := fun h => hne (by rw [h]; rfl)
      rw [fromDump_eq, fromDump_eq, devToHost_eq, devToHost_eq]
      simp only [Function.update_of_ne hhalf, Function.update_of_ne hhalf.symm,
        Function.update_comm hhalf]
    | assert b => rfl
    | devToHost => simp [PipeOp.isCopy] at hc
    | hostToDev => simp [PipeOp.isCopy] at hc
  | hostToDev dst half off n =>
    cases c with
    | toDump des half' n' => rw [toDump_eq, toDump_eq, hostToDev_eq, hostToDev_eq]
    | fromDump half' src' n' =>
      have hhalf : half ≠ half' := fun h => hne (by rw [h]; rfl)
      rw [fromDump_eq, fromDump_eq, hostToDev_eq, hostToDev_eq]
      simp only [Function.update_of_ne hhalf]
    | assert b => rfl
    | devToHost => simp [PipeOp.isCopy] at hc
    | hostToDev => simp [PipeOp.isCopy] at hc
  | toDump => simp [PipeOp.isCopy] at hk
  | fromDump => simp [PipeOp.isCopy] at hk
  | assert => simp [PipeOp.isCopy] at hk

/-- The queued copies of the list are on one half. -/
def onHalf (half : Nat) (ks : List PipeOp) : Prop :=
  ∀ k ∈ ks, k.isCopy = true ∧ k.stagingHalf = some half

theorem onHalf_nil (half : Nat) : onHalf half [] := fun _ hk => absurd hk List.not_mem_nil

theorem onHalf_concat {half : Nat} {ks : List PipeOp} {c : PipeOp} (h : onHalf half ks)
    (hc : c.isCopy = true ∧ c.stagingHalf = some half) : onHalf half (ks ++ [c]) := by
  intro k hk
  rcases List.mem_append.1 hk with hk | hk
  · exact h k hk
  · rw [List.mem_singleton.1 hk]
    exact hc

theorem allowed_of_onHalf {half half' : Nat} {ks : List PipeOp} {c : PipeOp} (h : onHalf half ks)
    (hc : c.isCopy = false) (hhalf : c.stagingHalf = some half') (hne : half ≠ half') :
    ∀ k ∈ ks, halvesApart k c := by
  intro k hk
  obtain ⟨h1, h2⟩ := h k hk
  refine ⟨h1, hc, ?_⟩
  rw [h2, hhalf]
  exact fun heq => hne (Option.some.inj heq)

theorem halvesApart_assert {half : Nat} {ks : List PipeOp} (h : onHalf half ks) (b : Bool) :
    ∀ k ∈ ks, halvesApart k (.assert b) := by
  intro k hk
  obtain ⟨h1, h2⟩ := h k hk
  refine ⟨h1, rfl, ?_⟩
  rw [h2]
  exact Option.some_ne_none _

/-! ### The two shapes of the queue

`turn` is what the loops do when a half is full: wait, let the host work on the other half, record.
-/

/-- `covered` is what the last marker covers. -/
structure QueueOn (coveredHalf recentHalf : Nat) (P : Pending PipeOp) : Prop where
  covered : onHalf coveredHalf P.covered
  recent : onHalf recentHalf P.recent

theorem QueueOn.allowed_assert {h₁ h₂ : Nat} {P : Pending PipeOp} (hq : QueueOn h₁ h₂ P) (b : Bool) :
    Allowed halvesApart P (.host (.assert b)) := by
  intro k hk
  rcases List.mem_append.1 hk with hk | hk
  · exact halvesApart_assert hq.covered b k hk
  · exact halvesApart_assert hq.recent b k hk

theorem QueueOn.enqueue {h₁ h₂ : Nat} {P : Pending PipeOp} (hq : QueueOn h₁ h₂ P) {c : PipeOp}
    (hc : c.isCopy = true) (hhalf : c.stagingHalf = some h₂) :
    QueueOn h₁ h₂ (P.issue (.enqueue c)) := ⟨hq.covered, onHalf_concat hq.recent ⟨hc, hhalf⟩⟩

/-- Wait, one host operation on the half the wait has freed, record. -/
theorem QueueOn.turn {h₁ h₂ : Nat} {P : Pending PipeOp} (hq : QueueOn h₁ h₂ P) (hne : h₂ ≠ h₁) (b : Bool)
    {c : PipeOp} (hc : c.isCopy = false) (hhalf : c.stagingHalf = some h₁) :
    Disciplined halvesApart P [.host (.assert b), .waitEvent, .host c, .record] ∧
      QueueOn h₂ h₁ ([.host (.assert b), .waitEvent, .host c, .record].foldl Pending.issue P) := by
  refine ⟨⟨hq.allowed_assert b, trivial, ?_, trivial, trivial⟩, ?_, onHalf_nil _⟩
  · exact allowed_of_onHalf hq.recent hc hhalf hne
  · exact hq.recent

/-! ### The dump side -/

/-- The first half is filled before there is a previous one. -/
structure DumpPending (currentBuf : Nat) (P : Pending PipeOp) : Prop
    extends QueueOn ((currentBuf - 1) % 2) (currentBuf % 2) P where
  first : currentBuf = 0 → P.covered = []

theorem DumpCursor.advance_disciplined (c : DumpCursor) (n : Nat) {P : Pending PipeOp}
    (hp : DumpPending c.currentBuf P) :
    Disciplined halvesApart P (c.advance n).1 ∧
      DumpPending (c.advance n).2.currentBuf ((c.advance n).1.foldl Pending.issue P) := by
  unfold DumpCursor.advance
  by_cases hlt : c.bufOffset + n < stagingBufSize
  · rw [dif_pos hlt]
    exact ⟨trivial, hp⟩
  rw [dif_neg hlt]
  by_cases hcur : 0 < c.currentBuf
  · rw [if_pos hcur]
    have hne : c.currentBuf % 2 ≠ (c.currentBuf - 1) % 2 := by omega
    have hturn := hp.toQueueOn.turn hne (c.bufOffset + n == stagingBufSize)
      (c := .toDump c.desOffset ((c.currentBuf - 1) % 2) stagingBufSize) rfl rfl
    refine ⟨hturn.1, ⟨?_, onHalf_nil _⟩, fun h => absurd h (Nat.succ_ne_zero _)⟩
    exact hturn.2.covered
  · rw [if_neg hcur]
    have hz : c.currentBuf = 0 := by omega
    refine ⟨⟨hp.allowed_assert _, trivial, trivial⟩, ⟨?_, onHalf_nil _⟩,
      fun h => absurd h (Nat.succ_ne_zero _)⟩
    show onHalf ((c.currentBuf + 1 - 1) % 2) (P.covered ++ P.recent)
    rw [hp.first hz, List.nil_append]
    exact hp.recent

theorem dumpBlock_disciplined (rule : ChunkRule) (d size : Nat) (c : DumpCursor) (P : Pending PipeOp)
    (hp : DumpPending c.currentBuf P) :
    Disciplined halvesApart P (dumpBlock rule d size c).1 ∧
      DumpPending (dumpBlock rule d size c).2.currentBuf
        ((dumpBlock rule d size c).1.foldl Pending.issue P) := by
  fun_induction dumpBlock rule d size c generalizing P with
  | case1 d size c h curSize next rest ih =>
    have hcopy : DumpPending c.currentBuf
        (P.issue (.enqueue (.devToHost (c.currentBuf % 2) c.bufOffset d curSize))) :=
      ⟨hp.enqueue rfl rfl, hp.first⟩
    obtain ⟨h1, h2⟩ := c.advance_disciplined curSize hcopy
    obtain ⟨h3, h4⟩ := ih _ h2
    refine ⟨⟨trivial, ?_⟩, ?_⟩
    · rw [disciplined_append]
      exact ⟨h1, h3⟩
    · rw [List.foldl_cons, List.foldl_append]
      exact h4
  | case2 d size c h => exact ⟨trivial, hp⟩

theorem streamBlocks_disciplined (rule : ChunkRule) (blocks : List (Nat × Nat)) (c : DumpCursor)
    {P : Pending PipeOp} (hp : DumpPending c.currentBuf P) :
    Disciplined halvesApart P (streamBlocks rule blocks c).1 ∧
      DumpPending (streamBlocks rule blocks c).2.currentBuf
        ((streamBlocks rule blocks c).1.foldl Pending.issue P) := by
  induction blocks generalizing c P with
  | nil => exact ⟨trivial, hp⟩
  | cons b blocks ih =>
    obtain ⟨h1, h2⟩ := dumpBlock_disciplined rule b.1 b.2 c P hp
    obtain ⟨h3, h4⟩ := ih _ h2
    unfold streamBlocks
    rw [disciplined_append, List.foldl_append]
    exact ⟨⟨h1, h3⟩, h4⟩

theorem DumpCursor.finish_disciplined (c : DumpCursor) (currentOffset : Nat) {P : Pending PipeOp}
    (hp : DumpPending c.currentBuf P) :
    Disciplined halvesApart P (c.finish currentOffset) ∧
      ((c.finish currentOffset).foldl Pending.issue P).all = [] := by
  have hnone : ∀ op : PipeOp, ∀ k ∈ ([] : List PipeOp), halvesApart k op :=
    fun _ k hk => absurd hk List.not_mem_nil
  unfold DumpCursor.finish
  by_cases hcur : 0 < c.currentBuf
  · rw [if_pos hcur]
    have hne : c.currentBuf % 2 ≠ (c.currentBuf - 1) % 2 := by omega
    refine ⟨⟨trivial, ?_, trivial, hnone _, hnone _, trivial⟩, rfl⟩
    exact allowed_of_onHalf hp.recent rfl rfl hne
  · rw [if_neg hcur]
    exact ⟨⟨trivial, hnone _, hnone _, trivial⟩, rfl⟩

/-! ### The restore side -/

theorem RestoreCursor.advance_disciplined (c : RestoreCursor) (currentOffset n : Nat)
    {P : Pending PipeOp} (hp : QueueOn ((c.currentBuf + 1) % 2) (c.currentBuf % 2) P) :
    Disciplined halvesApart P (c.advance currentOffset n).1 ∧
      QueueOn (((c.advance currentOffset n).2.currentBuf + 1) % 2)
        ((c.advance currentOffset n).2.currentBuf % 2)
        ((c.advance currentOffset n).1.foldl Pending.issue P) := by
  unfold RestoreCursor.advance
  by_cases hlt : c.bufOffset + n < stagingBufSize
  · rw [dif_pos hlt]
    exact ⟨trivial, hp⟩
  · rw [dif_neg hlt]
    have hne : c.currentBuf % 2 ≠ (c.currentBuf + 1) % 2 := by omega
    have hturn := hp.turn hne (c.bufOffset + n == stagingBufSize)
      (c := .fromDump ((c.currentBuf + 1) % 2) (c.srcOffset + stagingBufSize)
        (cpuCopySize currentOffset (c.srcOffset + stagingBufSize))) rfl rfl
    refine ⟨hturn.1, ?_, onHalf_nil _⟩
    -- two turns later it is the same half again
    have hsame : (c.currentBuf + 1 + 1) % 2 = c.currentBuf % 2 := by omega
    show onHalf ((c.currentBuf + 1 + 1) % 2) _
    rw [hsame]
    exact hturn.2.covered

theorem restoreBlock_disciplined (rule : ChunkRule) (currentOffset d offset size : Nat)
    (c : RestoreCursor) (P : Pending PipeOp) (hp : QueueOn ((c.currentBuf + 1) % 2) (c.currentBuf % 2) P) :
    Disciplined halvesApart P (restoreBlock rule currentOffset d offset size c).1 ∧
      QueueOn (((restoreBlock rule currentOffset d offset size c).2.currentBuf + 1) % 2)
        ((restoreBlock rule currentOffset d offset size c).2.currentBuf % 2)
        ((restoreBlock rule currentOffset d offset size c).1.foldl Pending.issue P) := by
  fun_induction restoreBlock rule currentOffset d offset size c generalizing P with
  | case1 d offset size c h n next rest ih =>
    have hcopy := hp.enqueue
      (c := .hostToDev d (c.currentBuf % 2) (sizeSub offset c.srcOffset) n) rfl rfl
    obtain ⟨h1, h2⟩ := c.advance_disciplined currentOffset n hcopy
    obtain ⟨h3, h4⟩ := ih _ h2
    refine ⟨⟨hp.allowed_assert _, trivial, ?_⟩, ?_⟩
    · rw [disciplined_append]
      exact ⟨h1, h3⟩
    · rw [List.foldl_cons, List.foldl_cons, List.foldl_append]
      exact h4
  | case2 d offset size c h => exact ⟨trivial, hp⟩

theorem restoreBlocks_disciplined (rule : ChunkRule) (currentOffset : Nat)
    (files : List SharedMemFile) (c : RestoreCursor) {P : Pending PipeOp}
    (hp : QueueOn ((c.currentBuf + 1) % 2) (c.currentBuf % 2) P) :
    Disciplined halvesApart P (restoreBlocks rule currentOffset files c).1 := by
  induction files generalizing c P with
  | nil => exact trivial
  | cons f files ih =>
    obtain ⟨h1, h2⟩ := restoreBlock_disciplined rule currentOffset f.ptr f.startOffset f.size c P hp
    unfold restoreBlocks
    rw [disciplined_append]
    exact ⟨h1, ih _ h2⟩

/-! ### Every schedule -/

/-- No schedule of the stream can be told from immediate execution. -/
structure ScheduleSafe (cmds : List PipeCmd) : Prop where
  /-- A half is flushed only when no copy into it is queued any more. -/
  flush : ∀ m cfg, Steps PipeOp.exec ⟨cmds, [], m⟩ cfg → ∀ desOffset half n p,
    cfg.prog = .host (.toDump desOffset half n) :: p → ∀ k, some k ∈ cfg.queue → k.stagingHalf ≠ some half
  /-- A half is overwritten only when no copy on it is queued any more. -/
  fill : ∀ m cfg, Steps PipeOp.exec ⟨cmds, [], m⟩ cfg → ∀ half srcOffset n p,
    cfg.prog = .host (.fromDump half srcOffset n) :: p → ∀ k, some k ∈ cfg.queue → k.stagingHalf ≠ some half
  /-- When the function returns, the memories are those of immediate execution. -/
  result : ∀ m cfg, Steps PipeOp.exec ⟨cmds, [], m⟩ cfg → cfg.prog = [] → cfg.mem = runPipe cmds m
  /-- The function cannot get stuck before that. -/
  progress : ∀ m cfg, Steps PipeOp.exec ⟨cmds, [], m⟩ cfg → cfg.prog ≠ [] → ∃ cfg', Step PipeOp.exec cfg cfg'

theorem scheduleSafe_of_disciplined {cmds : List PipeCmd}
    (hd : Disciplined halvesApart Pending.none cmds)
    (hdrained : (cmds.foldl Pending.issue Pending.none).all = []) : ScheduleSafe cmds := by
  refine ⟨?_, ?_, ?_, ?_⟩
  · intro m cfg hs desOffset half n p hp k hk
    exact (hostIndep_of_steps exec_comm_of_halvesApart hd hs hp hk).2.2
  · intro m cfg hs half srcOffset n p hp k hk
    exact (hostIndep_of_steps exec_comm_of_halvesApart hd hs hp hk).2.2
  · intro m cfg hs hp
    exact mem_eq_of_steps exec_comm_of_halvesApart hd hdrained hs hp
  · intro m cfg _ hp
    exact AsyncStream.progress PipeOp.exec cfg (Or.inl hp)

theorem dumpCmds_scheduleSafe {rule : ChunkRule} {shmSize : Nat} {blocks : List (Nat × Nat)}
    {fs fs' : SharedMemFs} {cmds : List PipeCmd}
    (h : dumpCmds rule shmSize blocks fs = .ok (cmds, fs')) : ScheduleSafe cmds := by
  obtain ⟨-, rfl, -⟩ := dumpCmds_inv h
  have hstart : DumpPending DumpCursor.start.currentBuf (Pending.none.issue .record) :=
    ⟨⟨onHalf_nil _, onHalf_nil _⟩, fun _ => rfl⟩
  obtain ⟨h1, h2⟩ := streamBlocks_disciplined rule blocks DumpCursor.start hstart
  obtain ⟨h3, h4⟩ := DumpCursor.finish_disciplined _ (streamBlocks rule blocks DumpCursor.start).2.pos h2
  refine scheduleSafe_of_disciplined ⟨trivial, ?_⟩ ?_
  · rw [disciplined_append]
    exact ⟨h1, h3⟩
  · rw [List.foldl_cons, List.foldl_append]
    exact h4

theorem restoreCmds_scheduleSafe (rule : ChunkRule) (fs : SharedMemFs) :
    ScheduleSafe (restoreCmds rule fs) := by
  unfold restoreCmds
  cases fs.fileList with
  | nil => exact scheduleSafe_of_disciplined ⟨trivial, trivial, trivial⟩ rfl
  | cons f files =>
    have hnone : QueueOn 1 0 (Pending.none.issue .record) := ⟨onHalf_nil _, onHalf_nil _⟩
    have hblocks := restoreBlocks_disciplined rule fs.currentOffset (f :: files)
      ⟨0, 0, f.startOffset, stagingBufSize_pos⟩ hnone
    refine scheduleSafe_of_disciplined ⟨trivial, ?_, ?_⟩ ?_
    · intro k hk
      exact absurd hk List.not_mem_nil
    · rw [disciplined_append]
      exact ⟨hblocks, trivial, trivial⟩
    · rw [List.foldl_cons, List.foldl_cons, List.foldl_append]
      rfl

/-- **Double-buffer safety** of the four copy loops, for every table and every dump header. -/
theorem copyLoops_scheduleSafe (shmSize : Nat) (req : SelectiveCrRequest) (s : VGpu) :
    (∀ cmds fs, dumpCmds wholeChunk shmSize (VGpu.ckptBlocks s.allocatedMemory) s.fs = .ok (cmds, fs) →
        ScheduleSafe cmds) ∧
      (∀ blocks cmds fs, VGpu.selectiveBlocks s.allocatedMemory req = .ok blocks →
        dumpCmds granuleChunk shmSize blocks s.fs = .ok (cmds, fs) → ScheduleSafe cmds) ∧
      ScheduleSafe (restoreCmds wholeChunk s.fs) ∧ ScheduleSafe (restoreCmds granuleChunk s.fs) :=
  ⟨fun _ _ h => dumpCmds_scheduleSafe h, fun _ _ _ _ h => dumpCmds_scheduleSafe h,
    restoreCmds_scheduleSafe _ _, restoreCmds_scheduleSafe _ _⟩

theorem copyLoops_twoBlocks :
    ∃ cmds fs, dumpCmds wholeChunk shmSizeDefault (VGpu.ckptBlocks VGpu.twoBlocks.allocatedMemory)
        VGpu.twoBlocks.fs = .ok (cmds, fs) ∧ ScheduleSafe cmds := by
  obtain ⟨cmds, fs, h⟩ : ∃ cmds fs, dumpCmds wholeChunk shmSizeDefault
      (VGpu.ckptBlocks VGpu.twoBlocks.allocatedMemory) VGpu.twoBlocks.fs = .ok (cmds, fs) :=
    dumpCmds_ok wholeChunk VGpu.twoBlocks.fs (by decide) (by decide)
  exact ⟨cmds, fs, h,
    (copyLoops_scheduleSafe shmSizeDefault VGpu.interiorRequest VGpu.twoBlocks).1 cmds fs h⟩

end GpuCr
