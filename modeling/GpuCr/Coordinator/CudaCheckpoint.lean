import GpuCr.Ipc.Peer
import Mathlib.Data.List.Basic

/-!
# Freezing the workers with `cuda-checkpoint`

The part of `coordinator/multi_cr_client.cpp` and `coordinator/cr_client.cpp` that runs `cuda-checkpoint` on
the workers, around the messages it sends them. `cuda-checkpoint` is an external program; what it does to a
process is its documented state machine (`CudaState.next`), and any of its runs may fail.

The calls of `cuda_ckpt_all_parallel` run side by side, one on each worker, so their order does not matter.
-/

namespace GpuCr

inductive CudaState where
  | running
  | locked
  | checkpointed
  deriving DecidableEq, Repr

/-- The arguments of `cuda-checkpoint`: `--toggle`, or `--action` with one of the four actions. -/
inductive CudaCkptArgs where
  | toggle
  | lock
  | checkpoint
  | restore
  | unlock
  deriving DecidableEq, Repr

/-- The edges of the state machine. -/
def CudaState.next : CudaState → CudaCkptArgs → Option CudaState
  | .running, .lock => some .locked
  | .locked, .checkpoint => some .checkpointed
  | .checkpointed, .restore => some .locked
  | .locked, .unlock => some .running
  | .running, .toggle => some .checkpointed
  | .checkpointed, .toggle => some .running
  | _, _ => none

/-- One run on one process: whether the exit code is `0`, and the state after it. -/
def cudaCkptRun (fails : Bool) (args : CudaCkptArgs) (s : CudaState) : Bool × CudaState :=
  match s.next args with
  | some s' => if fails then (false, s) else (true, s')
  | none => (false, s)

/-- `fails i` says that the run on worker `i` fails. -/
def cudaCkptAllParallel (fails : Nat → Bool) (args : CudaCkptArgs) (workers : List CudaState) :
    Nat × List CudaState :=
  let results := workers.mapIdx fun i s => cudaCkptRun (fails i) args s
  (results.countP fun r => !r.1, results.map Prod.snd)

/-- `found` says whether `cuda-checkpoint` is there. -/
def cudaCheckpointToggleAll (found bufferOnly : Bool) (fails : Nat → Bool) (workers : List CudaState) :
    Nat × List CudaState :=
  if bufferOnly then (0, workers)
  else if !found then (workers.length, workers)
  else cudaCkptAllParallel fails .toggle workers

def cudaCheckpointFreezeAction (found bufferOnly : Bool) (fails : CudaCkptArgs → Nat → Bool)
    (workers : List CudaState) : Nat × List CudaState :=
  if bufferOnly then (0, workers)
  else if !found then (workers.length, workers)
  else
    let lock := cudaCkptAllParallel (fails .lock) .lock workers
    if 0 < lock.1 then (lock.1, (cudaCkptAllParallel (fails .unlock) .unlock lock.2).2)
    else
      let ckpt := cudaCkptAllParallel (fails .checkpoint) .checkpoint lock.2
      if 0 < ckpt.1 then (ckpt.1, (cudaCkptAllParallel (fails .unlock) .unlock ckpt.2).2)
      else ckpt

/-- The workers are unlocked also where the restore failed. -/
def cudaCheckpointRestoreAction (found bufferOnly : Bool) (fails : CudaCkptArgs → Nat → Bool)
    (workers : List CudaState) : Nat × List CudaState :=
  if bufferOnly then (0, workers)
  else if !found then (workers.length, workers)
  else
    let restore := cudaCkptAllParallel (fails .restore) .restore workers
    let unlock := cudaCkptAllParallel (fails .unlock) .unlock restore.2
    (restore.1 + unlock.1, unlock.2)

/-! ### All workers in one state -/

section Parallel
variable {fails : Nat → Bool} {args : CudaCkptArgs} {s s' : CudaState} {n : Nat}

theorem allParallel_replicate (h : s.next args = some s') (fails : Nat → Bool) (n : Nat) :
    cudaCkptAllParallel fails args (List.replicate n s) =
      ((List.range n).countP fails, (List.range n).map fun i => if fails i then s else s') := by
  have hresults : (List.replicate n s).mapIdx (fun i s => cudaCkptRun (fails i) args s) =
      (List.range n).map fun i => if fails i then (false, s) else (true, s') := by
    apply List.ext_getElem
    · simp
    · intro i h1 h2
      simp [cudaCkptRun, h]
  unfold cudaCkptAllParallel
  dsimp only
  rw [hresults]
  refine Prod.ext ?_ ?_
  · rw [List.countP_map]
    apply List.countP_congr
    intro i _
    cases hf : fails i <;> simp [hf]
  · rw [List.map_map]
    apply List.map_congr_left
    intro i _
    cases hf : fails i <;> simp [hf]

theorem countP_range_eq_zero (fails : Nat → Bool) (n : Nat) :
    (List.range n).countP fails = 0 ↔ ∀ i < n, fails i = false := by
  rw [List.countP_eq_zero]
  simp only [List.mem_range, Bool.not_eq_true]

theorem allParallel_of_ok (h : s.next args = some s') (hok : ∀ i < n, fails i = false) :
    cudaCkptAllParallel fails args (List.replicate n s) = (0, List.replicate n s') := by
  rw [allParallel_replicate h, (countP_range_eq_zero fails n).2 hok]
  refine Prod.ext rfl ?_
  apply List.ext_getElem
  · simp
  · intro i h1 h2
    have hi : i < n := by simpa using h1
    simp [hok i hi]

/-- What the rollback does: an unlock that does not fail frees the workers that are locked, and no others. -/
theorem unlock_map (fails : Nat → Bool) (hunlock : ∀ i < n, fails i = false) (state : Nat → CudaState) :
    (cudaCkptAllParallel fails .unlock ((List.range n).map state)).2 =
      (List.range n).map fun i => if state i = .locked then .running else state i := by
  unfold cudaCkptAllParallel
  dsimp only
  apply List.ext_getElem
  · simp
  · intro i h1 h2
    have hi : i < n := by simpa using h2
    cases hs : state i <;> simp [cudaCkptRun, CudaState.next, hs, hunlock i hi]

end Parallel

/-! ### Freeze is all or nothing -/

/-- A result of `0` means that all are frozen, any other that none is. -/
def AllOrNothing (r : Nat × List CudaState) : Prop :=
  (r.1 = 0 → ∀ s ∈ r.2, s = .checkpointed) ∧ (0 < r.1 → ∀ s ∈ r.2, s = .running)

/-- Some worker cannot be locked, or the checkpoints succeed all or fail all. -/
def Uniform (fails : CudaCkptArgs → Nat → Bool) (n : Nat) : Prop :=
  (∃ i < n, fails .lock i = true) ∨ (∀ i < n, fails .checkpoint i = false) ∨
    ∀ i < n, fails .checkpoint i = true

theorem forall_mem_range_map {n : Nat} {f : Nat → CudaState} {s : CudaState} :
    (∀ x ∈ (List.range n).map f, x = s) ↔ ∀ i < n, f i = s := by
  simp only [List.mem_map, List.mem_range, forall_exists_index, and_imp, forall_apply_eq_imp_iff₂]

theorem freeze_of_lock_fails {fails : CudaCkptArgs → Nat → Bool} {n : Nat}
    (hunlock : ∀ i < n, fails .unlock i = false) (hlock : ∃ i < n, fails .lock i = true) :
    AllOrNothing (cudaCheckpointFreezeAction true false fails (List.replicate n .running)) := by
  have hpos : 0 < (List.range n).countP (fails .lock) := by
    obtain ⟨i, hi, hfail⟩ := hlock
    exact List.countP_pos_iff.2 ⟨i, List.mem_range.2 hi, hfail⟩
  unfold cudaCheckpointFreezeAction
  dsimp only
  rw [allParallel_replicate (rfl : CudaState.next .running .lock = some .locked)]
  simp only [Bool.false_eq_true, if_false, Bool.not_true, hpos, if_true]
  refine ⟨fun h0 => absurd h0 (Nat.ne_of_gt hpos), fun _ => ?_⟩
  rw [unlock_map _ hunlock, forall_mem_range_map]
  intro i _
  cases fails .lock i <;> rfl

theorem freeze_of_locked {fails : CudaCkptArgs → Nat → Bool} {n : Nat}
    (hunlock : ∀ i < n, fails .unlock i = false) (hlock : ∀ i < n, fails .lock i = false) :
    AllOrNothing (cudaCheckpointFreezeAction true false fails (List.replicate n .running)) ↔
      (∀ i < n, fails .checkpoint i = false) ∨ ∀ i < n, fails .checkpoint i = true := by
  unfold cudaCheckpointFreezeAction
  dsimp only
  rw [allParallel_of_ok (rfl : CudaState.next .running .lock = some .locked) hlock,
    allParallel_replicate (rfl : CudaState.next .locked .checkpoint = some .checkpointed)]
  simp only [Bool.false_eq_true, if_false, Bool.not_true, Nat.lt_irrefl]
  by_cases hall : ∀ i < n, fails .checkpoint i = false
  · -- nobody fails: everyone is checkpointed
    have hzero := (countP_range_eq_zero (fails .checkpoint) n).2 hall
    simp only [hzero, Nat.lt_irrefl, if_false]
    refine iff_of_true ⟨fun _ => ?_, fun h => absurd h (Nat.lt_irrefl 0)⟩ (Or.inl hall)
    rw [forall_mem_range_map]
    intro i hi
    simp [hall i hi]
  · have hpos : 0 < (List.range n).countP (fails .checkpoint) :=
      Nat.pos_of_ne_zero fun h0 => hall ((countP_range_eq_zero _ _).1 h0)
    simp only [hpos, if_true]
    constructor
    · -- whoever is checkpointed is not freed by the unlock
      intro h
      right
      intro i hi
      have hrun := h.2 hpos
      rw [unlock_map _ hunlock, forall_mem_range_map] at hrun
      by_contra hok
      have := hrun i hi
      simp [hok] at this
    · rintro (hnone | hfail)
      · exact absurd hnone hall
      refine ⟨fun h0 => absurd h0 (Nat.ne_of_gt hpos), fun _ => ?_⟩
      rw [unlock_map _ hunlock, forall_mem_range_map]
      intro i hi
      simp [hfail i hi]

/-- **Freeze is all or nothing** exactly when a lock fails or the checkpoints succeed all or fail all. Without
`cuda-checkpoint` nothing is frozen. -/
theorem freeze_allOrNothing_iff (n : Nat) (found : Bool) (fails : CudaCkptArgs → Nat → Bool)
    (hunlock : ∀ i < n, fails .unlock i = false) :
    AllOrNothing (cudaCheckpointFreezeAction found false fails (List.replicate n .running)) ↔
      (found = true → Uniform fails n) := by
  cases found with
  | false =>
    refine iff_of_true ?_ fun h => absurd h Bool.false_ne_true
    refine ⟨fun h0 s hs => ?_, fun _ s hs => List.eq_of_mem_replicate hs⟩
    have hn : n = 0 := by simpa [cudaCheckpointFreezeAction] using h0
    subst hn
    exact absurd hs List.not_mem_nil
  | true =>
    refine Iff.trans ?_ (forall_prop_of_true rfl).symm
    unfold Uniform
    by_cases hlock : ∃ i < n, fails .lock i = true
    · exact iff_of_true (freeze_of_lock_fails hunlock hlock) (Or.inl hlock)
    · have hlocked : ∀ i < n, fails .lock i = false := by
        intro i hi
        by_contra hf
        exact hlock ⟨i, hi, by simpa using hf⟩
      rw [freeze_of_locked hunlock hlocked]
      exact (or_iff_right hlock).symm

theorem freeze_allOrNothing_bothFail :
    AllOrNothing (cudaCheckpointFreezeAction true false (fun a _ => a == .checkpoint) (List.replicate 2 .running)) :=
  (freeze_allOrNothing_iff 2 true _ fun _ _ => rfl).2 fun _ => Or.inr (Or.inr fun _ _ => rfl)

/-- The checkpoint of the second of two workers fails: the first stays checkpointed, since the unlock does not
apply to it. -/
theorem not_freeze_allOrNothing :
    ¬ ∀ (n : Nat) (fails : CudaCkptArgs → Nat → Bool), (∀ i < n, fails .unlock i = false) →
      AllOrNothing (cudaCheckpointFreezeAction true false fails (List.replicate n .running)) := by
  intro h
  have hrun := (h 2 (fun a i => a == .checkpoint && i == 1) fun _ _ => rfl).2 (by decide) .checkpointed (by decide)
  exact absurd hrun (by decide)

end GpuCr
