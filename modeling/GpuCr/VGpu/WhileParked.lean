import GpuCr.VGpu.Targets

/-!
# Allocating and freeing while blocks are parked

Between a selective checkpoint and the restore of its dump the application goes on. The restore goes by
the header of the dump. `Waiting` is what the application's calls keep for a parked block it does not
free: the block stays in the table, without a handle, its range free and reserved. A parked block that is
freed leaves the table for good, since its reservation stays, and the restore then gives up.
-/

namespace GpuCr

open Lib Lib.AsyncStream Lib.Run Std

namespace HookedGpu

def runApps (apps : List AppCall) (s : HookedGpu) : HookedGpu := run appStep s apps

/-! ### Calls that do not touch a range -/

/-- A call that works on another range leaves a parked block as it is. -/
theorem OnlyRange.parkedBlock {r : Nat × Nat} {s s' : HookedGpu} {p n : Nat} (h : OnlyRange r s s')
    (hne : p ≠ r.1) (hapart : rangeApart (p, roundUp2MB n) r) (hp : s.toVGpu.ParkedBlock p n) :
    s'.toVGpu.ParkedBlock p n := by
  obtain ⟨htab, hnone, hpos, hfree⟩ := hp
  refine ⟨(h.table p hne).trans htab, (h.handles p hne).trans hnone, hpos, ?_⟩
  intro m hm
  by_cases hva : m.va = r.1
  · rcases h.drv.extent m hm hva with hsize | ⟨m', hm', hva', hsize⟩
    · rw [hva, hsize]
      exact hapart
    · have := hfree m' hm'
      rw [hva', hsize, ← hva] at this
      exact this
  · exact hfree m ((h.drv.maps m hva).1 hm)

theorem ne_of_rangeApart {p n : Nat} {r : Nat × Nat} (h : rangeApart (p, n) r) (hn : 0 < n) (hr : 0 < r.2) :
    p ≠ r.1 := by
  unfold rangeApart at h
  simp only at h
  omega

theorem Allocated.keeps {va size alignedSize : Nat} {s s' : HookedGpu} (h : Allocated va size alignedSize s s')
    {r : Nat × Nat} (hr : r ∈ s.reserved) : r ∈ s'.reserved := by
  rcases h.outcome with ⟨-, h2 | h2⟩ | ⟨-, h2⟩
  · rw [h2]
    exact hr
  · rw [h2]
    exact List.mem_cons_of_mem _ hr
  · rw [h2]
    exact List.mem_cons_of_mem _ hr

theorem Freed.keeps {p alignedSize : Nat} {s s' : HookedGpu} (h : Freed p alignedSize s s') {r : Nat × Nat}
    (hr : r ∈ s.reserved) (hne : r.1 ≠ p) : r ∈ s'.reserved := by
  rcases h.reserved with h2 | h2
  · rw [h2]
    exact hr
  · rw [h2]
    exact (List.mem_erase_of_ne fun heq => hne (congrArg Prod.fst heq)).2 hr

/-- The range a call of the application works on, when it is about a block `p` of the table. -/
theorem appStep_cases (s : HookedGpu) (call : AppCall) :
    (s.appStep call = s) ∨ (∃ mem, s.appStep call = { s with drv := { s.drv with mem := mem } }) ∨
      (∃ va size alignedSize, 0 < alignedSize ∧ Allocated va size alignedSize s (s.appStep call)) ∨
      ∃ p n, call = .cudaFree p ∧ s.allocatedMemory[p]? = some n ∧ Freed p (roundUp2MB n) s (s.appStep call) := by
  cases call with
  | cudaMalloc size =>
    by_cases hz : size = 0
    · left
      show (s.cudaMalloc size).2 = s
      rw [cudaMalloc, if_pos hz]
    · right; right; left
      obtain ⟨va, hva⟩ := allocateVmm_allocated s size (roundUp2MB size)
      refine ⟨va, size, roundUp2MB size, roundUp2MB_pos (Nat.pos_of_ne_zero hz), ?_⟩
      show Allocated va size (roundUp2MB size) s (s.cudaMalloc size).2
      rw [cudaMalloc, if_neg hz]
      exact hva
  | cudaFree p =>
    cases hp : s.allocatedMemory[p]? with
    | none => exact Or.inl (cudaFree_unknown hp)
    | some n => exact Or.inr (Or.inr (Or.inr ⟨p, n, rfl, hp, cudaFree_freed hp⟩))
  | kernel mem => exact Or.inr (Or.inl ⟨mem, rfl⟩)

/-! ### What the application's calls keep -/

theorem appStep_host (s : HookedGpu) (call : AppCall) :
    (s.appStep call).drv.env = s.drv.env ∧ (s.appStep call).fs = s.fs ∧ (s.appStep call).dump = s.dump := by
  rcases appStep_cases s call with h | ⟨mem, h⟩ | ⟨va, size, alignedSize, -, h⟩ | ⟨p, n, -, -, h⟩
  · rw [h]
    exact ⟨rfl, rfl, rfl⟩
  · rw [h]
    exact ⟨rfl, rfl, rfl⟩
  · exact ⟨h.only.drv.env, h.only.fs, h.only.dump⟩
  · exact ⟨h.only.drv.env, h.only.fs, h.only.dump⟩

/-- The block is parked, and its range is reserved. -/
structure Waiting (b : Nat × Nat) (s : HookedGpu) : Prop where
  parked : s.toVGpu.ParkedBlock b.1 b.2
  reserved : (b.1, roundUp2MB b.2) ∈ s.reserved

theorem waiting_appStep {s : HookedGpu} (hs : s.Reserved) {b : Nat × Nat} (hb : Waiting b s) {call : AppCall}
    (hkept : call ≠ .cudaFree b.1) : Waiting b (s.appStep call) := by
  rcases appStep_cases s call with h | ⟨mem, h⟩ | ⟨va, size, alignedSize, hpos, h⟩ | ⟨p, n, rfl, hp, h⟩
  · rw [h]
    exact hb
  · rw [h]
    exact ⟨hb.parked, hb.reserved⟩
  · have hapart : rangeApart (b.1, roundUp2MB b.2) (va, alignedSize) := (h.fresh _ hb.reserved).symm
    refine ⟨h.only.parkedBlock (ne_of_rangeApart hapart hb.parked.2.2.1 hpos) hapart hb.parked, ?_⟩
    exact h.keeps hb.reserved
  · have hne : b.1 ≠ p := fun heq => hkept (heq ▸ rfl)
    have hapart : rangeApart (b.1, roundUp2MB b.2) (p, roundUp2MB n) :=
      hs.tableApart b.1 p b.2 n hb.parked.1 hp hne
    refine ⟨h.only.parkedBlock hne hapart hb.parked, ?_⟩
    exact h.keeps hb.reserved hne

/-- The block has been freed while it was parked: nobody can get its address again. -/
structure Leaked (b : Nat × Nat) (s : HookedGpu) : Prop where
  unknown : s.allocatedMemory[b.1]? = none
  reserved : (b.1, roundUp2MB b.2) ∈ s.reserved

theorem leaked_of_free {s : HookedGpu} {b : Nat × Nat} (hb : Waiting b s) : Leaked b (s.cudaFree b.1) := by
  have hfreed := cudaFree_freed hb.parked.1
  refine ⟨?_, ?_⟩
  · rw [hfreed.table, getElem?_erase_key, if_pos rfl]
  · rw [(hfreed.parked hb.parked.2.1).1]
    exact hb.reserved

theorem leaked_appStep {s : HookedGpu} {b : Nat × Nat} (hpos : 0 < roundUp2MB b.2)
    (hb : Leaked b s) (call : AppCall) : Leaked b (s.appStep call) := by
  rcases appStep_cases s call with h | ⟨mem, h⟩ | ⟨va, size, alignedSize, hpos', h⟩ | ⟨p, n, rfl, hp, h⟩
  · rw [h]
    exact hb
  · rw [h]
    exact ⟨hb.unknown, hb.reserved⟩
  · have hapart : rangeApart (b.1, roundUp2MB b.2) (va, alignedSize) := (h.fresh _ hb.reserved).symm
    refine ⟨(h.only.table _ (ne_of_rangeApart hapart hpos hpos')).trans hb.unknown, ?_⟩
    exact h.keeps hb.reserved
  · have hne : b.1 ≠ p := by
      rintro rfl
      rw [hb.unknown] at hp
      exact absurd hp (by simp)
    refine ⟨(h.only.table _ hne).trans hb.unknown, ?_⟩
    exact h.keeps hb.reserved hne

/-! ### Runs of calls -/

theorem runApps_host {s : HookedGpu} (hs : s.Reserved) (apps : List AppCall) :
    (runApps apps s).Reserved ∧ (runApps apps s).drv.env = s.drv.env ∧ (runApps apps s).fs = s.fs ∧
      (runApps apps s).dump = s.dump := by
  induction apps generalizing s with
  | nil => exact ⟨hs, rfl, rfl, rfl⟩
  | cons call apps ih =>
    obtain ⟨h1, h2, h3⟩ := appStep_host s call
    obtain ⟨h0', h1', h2', h3'⟩ := ih (reserved_appStep hs call)
    exact ⟨h0', h1'.trans h1, h2'.trans h2, h3'.trans h3⟩

theorem runApps_waiting {s : HookedGpu} (hs : s.Reserved) {b : Nat × Nat} (hb : Waiting b s)
    {apps : List AppCall} (hkept : .cudaFree b.1 ∉ apps) : Waiting b (runApps apps s) := by
  induction apps generalizing s with
  | nil => exact hb
  | cons call apps ih =>
    rw [List.mem_cons, not_or] at hkept
    exact ih (reserved_appStep hs call) (waiting_appStep hs hb (Ne.symm hkept.1)) hkept.2

theorem runApps_leaked {s : HookedGpu} {b : Nat × Nat} (hpos : 0 < roundUp2MB b.2)
    (hb : Leaked b s) (apps : List AppCall) : Leaked b (runApps apps s) := by
  induction apps generalizing s with
  | nil => exact hb
  | cons call apps ih => exact ih (leaked_appStep hpos hb call)

theorem runApps_freed {s : HookedGpu} (hs : s.Reserved) {b : Nat × Nat} (hb : Waiting b s)
    {apps : List AppCall} (hfreed : .cudaFree b.1 ∈ apps) : Leaked b (runApps apps s) := by
  induction apps generalizing s with
  | nil => exact absurd hfreed List.not_mem_nil
  | cons call apps ih =>
    by_cases hcall : call = .cudaFree b.1
    · subst hcall
      exact runApps_leaked hb.parked.2.2.1 (leaked_of_free hb) apps
    · have hrest : .cudaFree b.1 ∈ apps := (List.mem_cons.1 hfreed).resolve_left (Ne.symm hcall)
      exact ih (reserved_appStep hs call) (waiting_appStep hs hb hcall) hrest

/-! ### Checkpoint, calls, restore -/

theorem waiting_of_ckpt {shmSize : Nat} {req : SelectiveCrRequest} {s : HookedGpu} {v : VGpu}
    (hs : s.Reserved) (h : s.toVGpu.ckptSelective shmSize req = .ok v) :
    VGpu.Dumped (VGpu.requestedBlocks s.allocatedMemory req) s.toVGpu v ∧
      ∀ b ∈ VGpu.requestedBlocks s.allocatedMemory req, Waiting b { s with toVGpu := v } := by
  obtain ⟨blocks, hblocks, hdumped, hmapped⟩ := VGpu.dumped_of_ckptSelective h
  rw [VGpu.selectiveBlocks_eq hs.tableApart] at hblocks
  obtain rfl := Except.ok.inj hblocks
  refine ⟨hdumped, ?_⟩
  intro b hb
  have hin := List.mem_map_of_mem (f := Prod.fst) hb
  have htab := (VGpu.mem_requestedBlocks.1 hb).1
  obtain ⟨n, hn, hat⟩ := hmapped b.1 hin
  obtain rfl : b.2 = n := Option.some.inj (htab.symm.trans hn)
  obtain ⟨m, hm, heq⟩ := Driver.exists_mapping hat
  refine ⟨⟨hdumped.allocatedMemory ▸ htab, hdumped.unhandled _ hin, roundUp2MB_pos (hs.pos _ _ htab), ?_⟩,
    hs.block _ _ htab⟩
  have hfree := hdumped.parkedAt.free hm (heq.1.symm ▸ hin)
  intro m' hm'
  have := hfree m' hm'
  unfold Mapping.apart at this
  rwa [heq.1, heq.2] at this

/-- What the application may rely on when the restore comes after its calls: the restore completes, the
blocks of the request that are still allocated are back with the bytes they had at the checkpoint, and
every other block is as the calls left it. -/
def KeptWhileParked (shmSize : Nat) (req : SelectiveCrRequest) (s s₁ : HookedGpu) (apps : List AppCall) :
    Prop :=
  ∃ s₃, (runApps apps s₁).crSignalHandler shmSize .selectiveRestore = .ok s₃ ∧
    (∀ b ∈ VGpu.requestedBlocks s.allocatedMemory req,
      (runApps apps s₁).allocatedMemory[b.1]? = some b.2 → VGpu.BackInPlace b s.drv.mem s₃.toVGpu) ∧
    ∀ p n : Nat, (runApps apps s₁).allocatedMemory[p]? = some n →
      (p, n) ∉ VGpu.requestedBlocks s.allocatedMemory req →
      VGpu.BlockUnchanged p n (runApps apps s₁).toVGpu s₃.toVGpu

section Main
variable {shmSize : Nat} {req : SelectiveCrRequest} {s : HookedGpu} {v : VGpu}

theorem kept_of_no_free (hs : s.Reserved) (henv : s.drv.env.Reliable)
    (hckpt : s.toVGpu.ckptSelective shmSize req = .ok v) {apps : List AppCall}
    (hkept : ∀ b ∈ VGpu.requestedBlocks s.allocatedMemory req, .cudaFree b.1 ∉ apps) :
    KeptWhileParked shmSize req s { s with toVGpu := v } apps := by
  obtain ⟨hdumped, hwaiting⟩ := waiting_of_ckpt hs hckpt
  have hs₁ : ({ s with toVGpu := v } : HookedGpu).Reserved :=
    ⟨hdumped.allocatedMemory ▸ hs.block, hdumped.allocatedMemory ▸ hs.pos, hs.apart⟩
  have hwait : ∀ b ∈ VGpu.requestedBlocks s.allocatedMemory req,
      Waiting b (runApps apps { s with toVGpu := v }) := fun b hb =>
    runApps_waiting hs₁ (hwaiting b hb) (hkept b hb)
  obtain ⟨hs₂, henv₂, hfs₂, hdump₂⟩ := runApps_host hs₁ apps
  unfold KeptWhileParked
  generalize runApps apps { s with toVGpu := v } = s₂ at hwait hs₂ henv₂ hfs₂ hdump₂ ⊢
  have hfiles : s₂.fs.fileList = layout dumpHeaderSize (VGpu.requestedBlocks s.allocatedMemory req) := by
    rw [hfs₂]
    exact hdumped.fileList
  have hoffset : s₂.fs.currentOffset =
      dumpHeaderSize + totalSize (VGpu.requestedBlocks s.allocatedMemory req) := by
    rw [hfs₂]
    exact hdumped.currentOffset
  have hparked : VGpu.Parked s₂.fs.fileList s₂.toVGpu := by
    rw [hfiles]
    exact VGpu.parked_layout hs₂.tableApart (VGpu.nodup_requestedBlocks _ _) fun b hb => (hwait b hb).parked
  have henv' : s₂.drv.env.Reliable := by
    rw [henv₂]
    exact hdumped.env ▸ henv
  obtain ⟨v₃, hrestore, -, hrestored⟩ :=
    VGpu.restorePtrAndContentSelective_spec henv' hfiles hoffset hparked
  refine ⟨{ s₂ with toVGpu := v₃ }, ?_, ?_, ?_⟩
  · unfold crSignalHandler
    show (VGpu.restorePtrAndContentSelective s₂.toVGpu).map _ = _
    rw [hrestore]
    rfl
  · intro b hb _
    obtain ⟨k, hk, hmap, hlive⟩ := hrestored.mapped b hb
    refine ⟨⟨k, hk, hlive, hmap⟩, fun i hi => ?_⟩
    obtain ⟨f, hf, h1, h2⟩ := exists_file_of_mem dumpHeaderSize hb
    rw [← hfiles] at hf
    have hlt : i < f.size := h2.symm ▸ hi
    rw [← h1]
    refine (hrestored.content f hf i hlt).trans ?_
    rw [hdump₂]
    exact hdumped.image f (hfs₂ ▸ hf) i hlt
  · intro p n hp hout
    have hnot : p ∉ (VGpu.requestedBlocks s.allocatedMemory req).map Prod.fst := by
      intro hin
      obtain ⟨b, hb, rfl⟩ := List.mem_map.1 hin
      obtain rfl : b.2 = n := Option.some.inj ((hwait b hb).parked.1.symm.trans hp)
      exact hout hb
    refine ⟨?_, fun m hm => hrestored.maps m (hm ▸ hnot), hrestored.handles p hnot,
      fun h _ hlive => hrestored.live h hlive⟩
    intro i hi
    refine hrestored.outside _ fun b hb => ?_
    have hne : p ≠ b.1 := fun heq => hnot (heq ▸ List.mem_map_of_mem hb)
    have := hs₂.tableApart p b.1 n b.2 hp (hwait b hb).parked.1 hne
    omega

theorem no_free_of_kept (hs : s.Reserved) (hckpt : s.toVGpu.ckptSelective shmSize req = .ok v)
    {apps : List AppCall} (hkept : KeptWhileParked shmSize req s { s with toVGpu := v } apps) :
    ∀ b ∈ VGpu.requestedBlocks s.allocatedMemory req, .cudaFree b.1 ∉ apps := by
  intro b hb hfree
  obtain ⟨hdumped, hwaiting⟩ := waiting_of_ckpt hs hckpt
  have hs₁ : ({ s with toVGpu := v } : HookedGpu).Reserved :=
    ⟨hdumped.allocatedMemory ▸ hs.block, hdumped.allocatedMemory ▸ hs.pos, hs.apart⟩
  have hleaked := runApps_freed hs₁ (hwaiting b hb) hfree
  obtain ⟨-, -, hfs₂, -⟩ := runApps_host hs₁ apps
  obtain ⟨s₃, hrestore, -⟩ := hkept
  obtain ⟨v₃, hop, -⟩ := crSignalHandler_ok hrestore
  obtain ⟨v₂, hremap, -⟩ := bind_eq_ok.1 hop
  -- the header still lists the block
  obtain ⟨f, hf, h1, -⟩ := exists_file_of_mem dumpHeaderSize hb
  rw [← hdumped.fileList] at hf
  obtain ⟨n, hn⟩ := (VGpu.remapAll_known hremap).1 f (hfs₂.symm ▸ hf)
  rw [h1, hleaked.unknown] at hn
  exact absurd hn (by simp)

end Main

/-- **Allocating and freeing while blocks are parked** is safe exactly when no parked block is freed. The
checkpoint may come at any point of any run. -/
theorem keptWhileParked_iff (shmSize : Nat) (s₀ : HookedGpu) (hfresh : s₀.Fresh) (history : List GpuEvent)
    (s : HookedGpu) (hrun : run (step shmSize) (.ok s₀) history = .ok s) (henv : s.drv.env.Reliable)
    (req : SelectiveCrRequest) (s₁ : HookedGpu)
    (hckpt : s.crSignalHandler shmSize (.selectiveCkpt req) = .ok s₁) (apps : List AppCall) :
    KeptWhileParked shmSize req s s₁ apps ↔
      ∀ b ∈ VGpu.requestedBlocks s.allocatedMemory req, .cudaFree b.1 ∉ apps := by
  have hs : s.Reserved := reserved_run shmSize (fun s' h => Except.ok.inj h ▸ hfresh.reserved) history s hrun
  obtain ⟨v, hop, rfl⟩ := crSignalHandler_ok hckpt
  exact ⟨no_free_of_kept hs hop, kept_of_no_free hs henv hop⟩

/-- A pointer into the block of `oneBlock`. -/
def oneRequest : SelectiveCrRequest := ⟨[⟨0x600001, 2⟩], by decide⟩

theorem oneBlock_ckptSelective :
    ∃ s₁, oneBlock.crSignalHandler shmSizeDefault (.selectiveCkpt oneRequest) = .ok s₁ := by
  have hs : oneBlock.Tracked := tracked_cudaMalloc (freshGpu_fresh.tracked fun _ => rfl) 3
  have hallowed : Allowed shmSizeDefault oneBlock (.selectiveCkpt oneRequest) :=
    ⟨by decide, by decide, by decide⟩
  obtain ⟨s₁, h, -⟩ := tracked_msg hs hallowed
  exact ⟨s₁, h⟩

theorem keptWhileParked_oneBlock :
    ∃ s₁, oneBlock.crSignalHandler shmSizeDefault (.selectiveCkpt oneRequest) = .ok s₁ ∧
      KeptWhileParked shmSizeDefault oneRequest oneBlock s₁ [.cudaMalloc 5, .kernel fun _ => 1] := by
  obtain ⟨s₁, h⟩ := oneBlock_ckptSelective
  refine ⟨s₁, h, (keptWhileParked_iff shmSizeDefault freshGpu freshGpu_fresh [.app (.cudaMalloc 3)] oneBlock rfl
    (fun _ => rfl) oneRequest s₁ h _).2 ?_⟩
  intro b _ hfree
  simp at hfree

theorem not_keptWhileParked :
    ∃ s₁, oneBlock.crSignalHandler shmSizeDefault (.selectiveCkpt oneRequest) = .ok s₁ ∧
      ¬KeptWhileParked shmSizeDefault oneRequest oneBlock s₁ [.cudaFree 0x600000] := by
  obtain ⟨s₁, h⟩ := oneBlock_ckptSelective
  obtain ⟨v, hop, rfl⟩ := crSignalHandler_ok h
  have hs : oneBlock.Reserved := reserved_cudaMalloc freshGpu_fresh.reserved 3
  refine ⟨_, h, fun hkept => ?_⟩
  exact no_free_of_kept hs hop hkept (0x600000, 3) (by decide) (List.mem_singleton_self _)

end HookedGpu

end GpuCr
