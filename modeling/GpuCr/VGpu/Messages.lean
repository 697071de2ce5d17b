import GpuCr.VGpu.Hooks
import GpuCr.VGpu.Swap

/-!
# Runs of a hooked process

The application allocates, frees and computes while `cr_signal_handler` of `src/vGPU.cpp` serves messages,
in any order. Every run keeps the reservations in step with the table (`reserved_run`). `ckpt` and
`ckpt_selective` take every block of the table to be mapped, which a block is not that an earlier
checkpoint parked; `Tracked` is what a run keeps when each message finds what it relies on (`Allowed`),
and then every copy and every unmapping hits mapped memory.
-/

namespace GpuCr

open Lib Lib.AsyncStream Lib.Run Std

/-- What the application does. A kernel may write anything. -/
inductive AppCall where
  | cudaMalloc (size : Nat)
  | cudaFree (ptr : Nat)
  | kernel (mem : Nat → Byte)

inductive GpuMsg where
  | ckpt
  | restore
  | selectiveCkpt (req : SelectiveCrRequest)
  | selectiveRestore

inductive GpuEvent where
  | app (call : AppCall)
  | msg (m : GpuMsg)

namespace HookedGpu

def appStep (s : HookedGpu) : AppCall → HookedGpu
  | .cudaMalloc size => (s.cudaMalloc size).2
  | .cudaFree ptr => s.cudaFree ptr
  | .kernel mem => { s with drv := { s.drv with mem := mem } }

/-- The operation a message stands for. -/
def operation (shmSize : Nat) : GpuMsg → VGpu → Except Exit VGpu
  | .ckpt => VGpu.ckpt shmSize
  | .restore => VGpu.restorePtrAndContent
  | .selectiveCkpt req => VGpu.ckptSelective shmSize req
  | .selectiveRestore => VGpu.restorePtrAndContentSelective

/-- The branches of `cr_signal_handler`; its calls for peer access do not touch this state. -/
def crSignalHandler (shmSize : Nat) (s : HookedGpu) (m : GpuMsg) : Except Exit HookedGpu :=
  (operation shmSize m s.toVGpu).map fun v => { s with toVGpu := v }

/-- A process that has left through `exit` takes no further step. -/
def step (shmSize : Nat) (r : Except Exit HookedGpu) : GpuEvent → Except Exit HookedGpu
  | .app call => r.map fun s => s.appStep call
  | .msg m => r.bind fun s => s.crSignalHandler shmSize m

/-- No allocation yet, and an empty dump. The process may have reserved and mapped other ranges. -/
structure Fresh (s : HookedGpu) : Prop where
  table : s.allocatedMemory = ∅
  handles : s.globalHandleMap = ∅
  types : s.allocatedMemoryType = ∅
  fileNum : s.fs.fileNum = 0
  apart : s.reserved.Pairwise rangeApart
  covered : ∀ m ∈ s.drv.maps, ∃ r ∈ s.reserved, r.1 ≤ m.va ∧ m.va + m.size ≤ r.1 + r.2

theorem Fresh.reserved {s : HookedGpu} (h : s.Fresh) : s.Reserved := by
  refine ⟨?_, ?_, h.apart⟩
  all_goals
    intro p n hp
    rw [h.table] at hp
    exact absurd hp (by simp)

end HookedGpu

/-! ### What every message leaves alone -/

namespace VGpu

theorem mapNewPhysical_table {s s' : VGpu} {p size : Nat} (h : s.mapNewPhysical p size = .ok s') :
    s'.allocatedMemory = s.allocatedMemory := by
  unfold mapNewPhysical at h
  generalize s.drv.cuMemCreate size = created at h
  obtain ⟨_ | memHandle, drv⟩ := created
  · exact absurd h (by simp)
  · dsimp only at h
    split_ifs at h
    obtain rfl := Except.ok.inj h
    rfl

theorem remapPhysicalMemory_known {s s' : VGpu} {p size : Nat} (h : s.remapPhysicalMemory p size = .ok s') :
    (∃ n, s.allocatedMemory[p]? = some n) ∧ s'.allocatedMemory = s.allocatedMemory := by
  unfold remapPhysicalMemory at h
  cases htab : s.allocatedMemory[p]? with
  | none =>
    rw [htab] at h
    exact absurd h (by simp)
  | some n =>
    rw [htab] at h
    refine ⟨⟨n, rfl⟩, ?_⟩
    dsimp only at h
    split_ifs at h with hmapped
    · cases hrel : s.unmapAndRelease p (roundUp2MB n) with
      | none =>
        rw [hrel] at h
        exact absurd h (by simp)
      | some s₁ =>
        rw [hrel] at h
        exact (mapNewPhysical_table h).trans (unmapAndRelease_inv hrel).2.allocatedMemory
    · exact mapNewPhysical_table h

/-- A restore that gets past the remapping has found every file of the dump in the table. -/
theorem remapAll_known {files : List SharedMemFile} {s s' : VGpu} (h : remapAll files s = .ok s') :
    (∀ f ∈ files, ∃ n, s.allocatedMemory[f.ptr]? = some n) ∧ s'.allocatedMemory = s.allocatedMemory := by
  induction files generalizing s with
  | nil =>
    obtain rfl : s = s' := Except.ok.inj h
    exact ⟨fun _ hf => absurd hf List.not_mem_nil, rfl⟩
  | cons f files ih =>
    unfold remapAll at h ih
    rw [List.foldlM_cons] at h
    obtain ⟨s₁, h1, h2⟩ := bind_eq_ok.1 h
    obtain ⟨hknown, htab⟩ := remapPhysicalMemory_known h1
    obtain ⟨hrest, htab'⟩ := ih h2
    refine ⟨fun g hg => ?_, htab'.trans htab⟩
    rcases List.mem_cons.1 hg with rfl | hg
    · exact hknown
    · exact htab ▸ hrest g hg

end VGpu

namespace HookedGpu

theorem operation_table {shmSize : Nat} {m : GpuMsg} {s s' : VGpu} (h : operation shmSize m s = .ok s') :
    s'.allocatedMemory = s.allocatedMemory := by
  cases m with
  | ckpt =>
    obtain ⟨⟨cmds, fs⟩, -, h⟩ := bind_eq_ok.1 h
    obtain ⟨s₀, hloop, hrelease⟩ := bind_eq_ok.1 h
    obtain ⟨-, rfl⟩ := VGpu.runCopyLoop_inv hloop
    exact (VGpu.releaseAll_inv hrelease).1.allocatedMemory
  | restore =>
    obtain ⟨s₁, hremap, hloop⟩ := bind_eq_ok.1 h
    obtain ⟨-, rfl⟩ := VGpu.runCopyLoop_inv hloop
    exact (VGpu.remapAll_known hremap).2
  | selectiveCkpt req =>
    obtain ⟨blocks, -, hdumped, -⟩ := VGpu.dumped_of_ckptSelective h
    exact hdumped.allocatedMemory
  | selectiveRestore =>
    obtain ⟨s₁, hremap, hloop⟩ := bind_eq_ok.1 h
    obtain ⟨-, rfl⟩ := VGpu.runCopyLoop_inv hloop
    exact (VGpu.remapAll_known hremap).2

theorem crSignalHandler_ok {shmSize : Nat} {s s' : HookedGpu} {m : GpuMsg}
    (h : s.crSignalHandler shmSize m = .ok s') :
    ∃ v, operation shmSize m s.toVGpu = .ok v ∧ s' = { s with toVGpu := v } := by
  unfold crSignalHandler at h
  cases hop : operation shmSize m s.toVGpu with
  | error e =>
    rw [hop] at h
    exact absurd h (by simp [Except.map])
  | ok v =>
    rw [hop] at h
    exact ⟨v, rfl, (Except.ok.inj h).symm⟩

theorem reserved_appStep {s : HookedGpu} (hs : s.Reserved) (call : AppCall) : (s.appStep call).Reserved := by
  cases call with
  | cudaMalloc size => exact reserved_cudaMalloc hs size
  | cudaFree ptr => exact reserved_cudaFree hs ptr
  | kernel mem => exact ⟨hs.block, hs.pos, hs.apart⟩

/-- The reservations follow the table in every run, as long as the process lives. -/
theorem reserved_run (shmSize : Nat) {r : Except Exit HookedGpu} (hr : ∀ s, r = .ok s → s.Reserved)
    (events : List GpuEvent) : ∀ s, run (step shmSize) r events = .ok s → s.Reserved := by
  induction events generalizing r with
  | nil => exact hr
  | cons e events ih =>
    refine ih ?_
    intro s' hs'
    cases r with
    | error err =>
      cases e with
      | app call => exact absurd hs' (by simp [step, Except.map])
      | msg m => exact absurd hs' (by simp [step, Except.bind])
    | ok s =>
      have hs := hr s rfl
      cases e with
      | app call =>
        obtain rfl : s.appStep call = s' := Except.ok.inj hs'
        exact reserved_appStep hs call
      | msg m =>
        obtain ⟨v, hop, rfl⟩ := crSignalHandler_ok (m := m) hs'
        have htab := operation_table hop
        exact ⟨htab ▸ hs.block, htab ▸ hs.pos, hs.apart⟩

end HookedGpu

end GpuCr
