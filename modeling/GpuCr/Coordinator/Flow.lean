import GpuCr.Coordinator.CudaCheckpoint

/-!
# Checkpoint and restore as the clients run them

`do_checkpoint` and `do_restore` of `coordinator/multi_cr_client.cpp` and the two plain branches of `main` of
`coordinator/cr_client.cpp`, as far as the order of messages and `cuda-checkpoint` calls goes. A message is
handled by every worker before the client goes on; the log keeps what state the workers were in when they
handled it.
-/

namespace GpuCr

open PeerState (CrMsg)

/-- `log` has the messages the workers have handled, each with the states they were in. No code reads it. -/
structure FlowState where
  workers : List CudaState
  log : List (CrMsg × List CudaState)
  exited : Bool

/-- The flags of `multi_cr_client`, and what `cuda-checkpoint` does. -/
structure MultiArgs where
  actionMode : Bool
  bufferOnly : Bool
  skipNccl : Bool
  found : Bool
  fails : CudaCkptArgs → Nat → Bool

namespace FlowState

/-- `n` running workers. -/
def start (n : Nat) : FlowState := ⟨List.replicate n .running, [], false⟩

def handle (s : FlowState) (m : CrMsg) : FlowState := { s with log := s.log ++ [(m, s.workers)] }

/-- A failed freeze is reported, no more. -/
def doCheckpoint (a : MultiArgs) (s : FlowState) : FlowState :=
  let s := (PeerState.doCheckpoint a.skipNccl).foldl handle s
  let freeze := if a.actionMode then cudaCheckpointFreezeAction a.found a.bufferOnly a.fails s.workers
    else cudaCheckpointToggleAll a.found a.bufferOnly (a.fails .toggle) s.workers
  { s with workers := freeze.2 }

/-- A failed unfreeze ends the client. -/
def doRestore (a : MultiArgs) (s : FlowState) : FlowState :=
  let unfreeze := if a.actionMode then cudaCheckpointRestoreAction a.found a.bufferOnly a.fails s.workers
    else cudaCheckpointToggleAll a.found a.bufferOnly (a.fails .toggle) s.workers
  let s := { s with workers := unfreeze.2 }
  if 0 < unfreeze.1 ∧ a.bufferOnly = false then { s with exited := true }
  else (PeerState.doRestore a.skipNccl).foldl handle s

/-- `cr_client -c`. -/
def crCheckpoint (bufferOnly fails : Bool) (s : FlowState) : FlowState :=
  let s := s.handle .ckpt
  if bufferOnly then s else { s with workers := (cudaCkptAllParallel (fun _ => fails) .toggle s.workers).2 }

/-- `cr_client -r`, which sends the message first. -/
def crRestore (bufferOnly fails : Bool) (s : FlowState) : FlowState :=
  let s := s.handle .restore
  if bufferOnly then s else { s with workers := (cudaCkptAllParallel (fun _ => fails) .toggle s.workers).2 }

section Handle
variable {s : FlowState}

theorem foldl_handle (ms : List CrMsg) (s : FlowState) :
    ms.foldl handle s = { s with log := s.log ++ ms.map fun m => (m, s.workers) } := by
  induction ms generalizing s with
  | nil => simp
  | cons m ms ih =>
    rw [List.foldl_cons, ih]
    simp [handle]

end Handle

/-! ### Toggle mode -/

section Toggle
variable {n : Nat}

/-- The state of worker `i` after the freeze of a checkpoint in toggle mode. -/
def frozenBy (bufferOnly found : Bool) (fails : Nat → Bool) (i : Nat) : CudaState :=
  if bufferOnly || !found || fails i then .running else .checkpointed

theorem toggleAll_start (found bufferOnly : Bool) (fails : Nat → Bool) :
    (cudaCheckpointToggleAll found bufferOnly fails (List.replicate n .running)).2 =
      (List.range n).map (frozenBy bufferOnly found fails) := by
  unfold cudaCheckpointToggleAll frozenBy
  cases bufferOnly with
  | true => simp
  | false =>
    cases found with
    | false => simp
    | true =>
      rw [allParallel_replicate (rfl : CudaState.next .running .toggle = some .checkpointed)]
      simp

/-- The toggle is its own inverse. -/
def toggled : CudaState → CudaState
  | .running => .checkpointed
  | .checkpointed => .running
  | .locked => .locked

theorem toggleAll_of_ok (workers : List CudaState) (h : ∀ s ∈ workers, s ≠ .locked) :
    cudaCkptAllParallel (fun _ => false) .toggle workers = (0, workers.map toggled) := by
  have hrun : ∀ s ∈ workers, cudaCkptRun false .toggle s = (true, toggled s) := by
    intro s hs
    have := h s hs
    cases s with
    | running => rfl
    | locked => exact absurd rfl this
    | checkpointed => rfl
  have hresults : workers.mapIdx (fun _ s => cudaCkptRun false .toggle s) = workers.map fun s => (true, toggled s) := by
    apply List.ext_getElem
    · simp
    · intro i h1 h2
      simp [hrun _ (List.getElem_mem _)]
  unfold cudaCkptAllParallel
  dsimp only
  rw [hresults]
  simp [List.countP_map, Function.comp_def]

/-- Its state after a restore in toggle mode whose toggles succeed. -/
def restoredBy (bufferOnly found : Bool) (fails : Nat → Bool) (i : Nat) : CudaState :=
  if bufferOnly || (found && !fails i) then .running else .checkpointed

theorem toggled_frozenBy (found : Bool) (fails : Nat → Bool) (i : Nat) :
    toggled (frozenBy false found fails i) = restoredBy false found fails i := by
  unfold frozenBy restoredBy
  cases found <;> cases fails i <;> rfl

theorem unfreeze_toggle (bufferOnly found : Bool) (fails : Nat → Bool) :
    cudaCheckpointToggleAll true bufferOnly (fun _ => false) ((List.range n).map (frozenBy bufferOnly found fails)) =
      (0, (List.range n).map (restoredBy bufferOnly found fails)) := by
  cases bufferOnly with
  | true => rfl
  | false =>
    unfold cudaCheckpointToggleAll
    simp only [Bool.false_eq_true, if_false, Bool.not_true]
    rw [toggleAll_of_ok, List.map_map]
    · refine Prod.ext rfl (List.map_congr_left fun i _ => ?_)
      exact toggled_frozenBy found fails i
    · intro s hs
      obtain ⟨i, -, rfl⟩ := List.mem_map.1 hs
      unfold frozenBy
      split_ifs <;> decide

/-- A checkpoint in toggle mode, some of whose toggles fail, and a restore whose toggles succeed. -/
def toggleCycle (n : Nat) (skipNccl skipNccl' bufferOnly found : Bool) (fails : Nat → Bool) : FlowState :=
  doRestore ⟨false, bufferOnly, skipNccl', true, fun _ _ => false⟩
    (doCheckpoint ⟨false, bufferOnly, skipNccl, found, fun _ => fails⟩ (start n))

/-- **Toggle mode**: a worker runs after a restore whose toggles all succeed, and handles `RESTORE_MSG` running,
exactly when its toggle of the checkpoint succeeded or nothing is toggled; any other is frozen by the restore. -/
theorem toggleRestore_running_iff (n : Nat) (skipNccl skipNccl' bufferOnly found : Bool) (fails : Nat → Bool)
    (i : Nat) (hi : i < n) :
    (toggleCycle n skipNccl skipNccl' bufferOnly found fails).exited = false ∧
      ((toggleCycle n skipNccl skipNccl' bufferOnly found fails).workers[i]? = some .running ↔
        bufferOnly = true ∨ (found = true ∧ fails i = false)) ∧
      (bufferOnly = false → (found = false ∨ fails i = true) →
        (toggleCycle n skipNccl skipNccl' bufferOnly found fails).workers[i]? = some .checkpointed) ∧
      (∃ e ∈ (toggleCycle n skipNccl skipNccl' bufferOnly found fails).log, e.1 = .restore) ∧
      ∀ e ∈ (toggleCycle n skipNccl skipNccl' bufferOnly found fails).log, e.1 = .restore →
        (e.2[i]? = some .running ↔ bufferOnly = true ∨ (found = true ∧ fails i = false)) := by
  have hat : ((List.range n).map (restoredBy bufferOnly found fails))[i]? = some (restoredBy bufferOnly found fails i) := by
    simp [hi]
  have hworkers : ((List.range n).map (restoredBy bufferOnly found fails))[i]? = some .running ↔
      bufferOnly = true ∨ (found = true ∧ fails i = false) := by
    rw [hat]
    unfold restoredBy
    cases bufferOnly <;> cases found <;> cases fails i <;> decide
  unfold toggleCycle doCheckpoint doRestore start
  simp only [foldl_handle, Bool.false_eq_true, if_false, toggleAll_start, unfreeze_toggle, Nat.lt_irrefl, false_and,
    List.nil_append]
  refine ⟨trivial, hworkers, fun hb hfails => ?_,
    ⟨(.restore, _), List.mem_append_right _ (List.mem_map_of_mem (List.mem_cons_self ..)), rfl⟩, ?_⟩
  · rw [hat]
    unfold restoredBy
    rcases hfails with rfl | hfails
    · rw [hb]
      rfl
    · rw [hb, hfails, Bool.not_true, Bool.and_false]
      rfl
  · intro e he hrestore
    rcases List.mem_append.1 he with he | he
    · -- a checkpoint sends no such message
      obtain ⟨m, hm, rfl⟩ := List.mem_map.1 he
      dsimp only at hrestore
      subst hrestore
      cases skipNccl <;> exact absurd hm (by decide)
    · obtain ⟨m, -, rfl⟩ := List.mem_map.1 he
      exact hworkers

theorem toggleRestore_firstOfTwo :
    (toggleCycle 2 false false false true fun i => i == 1).workers[0]? = some .running :=
  (toggleRestore_running_iff 2 false false false true (fun i => i == 1) 0 (by decide)).2.1.2 (Or.inr ⟨rfl, rfl⟩)

/-- The second was never frozen: the restore freezes it and then sends it `RESTORE_MSG`. -/
theorem not_toggleRestore_running :
    ¬ ∀ (n : Nat) (fails : Nat → Bool),
      (∀ w ∈ (toggleCycle n false false false true fails).workers, w = .running) ∧
        ∀ e ∈ (toggleCycle n false false false true fails).log, e.1 = .restore → ∀ w ∈ e.2, w = .running := by
  intro h
  exact absurd ((h 2 fun i => i == 1).1 .checkpointed (by decide)) (by decide)

end Toggle

/-! ### Alternating checkpoints and restores -/

/-- Which client is run, and with which flags; `cr_client` without any. -/
inductive Client where
  | crClient
  | multiCrClient (actionMode bufferOnly skipNccl : Bool)
  deriving DecidableEq, Repr

def Client.bufferOnly : Client → Bool
  | .crClient => false
  | .multiCrClient _ bufferOnly _ => bufferOnly

/-- A checkpoint in which no `cuda-checkpoint` call fails that the state of the worker allows. -/
def checkpoint (s : FlowState) : Client → FlowState
  | .crClient => s.crCheckpoint false false
  | .multiCrClient actionMode bufferOnly skipNccl =>
    s.doCheckpoint ⟨actionMode, bufferOnly, skipNccl, true, fun _ _ => false⟩

def restore (s : FlowState) : Client → FlowState
  | .crClient => s.crRestore false false
  | .multiCrClient actionMode bufferOnly skipNccl =>
    s.doRestore ⟨actionMode, bufferOnly, skipNccl, true, fun _ _ => false⟩

/-- A checkpoint, a restore, a checkpoint and so on. -/
def alternate (s : FlowState) : List Client → FlowState
  | [] => s
  | [c] => s.checkpoint c
  | c :: r :: cs => alternate ((s.checkpoint c).restore r) cs

/-- The restore goes with the checkpoint before it. A worker that the checkpoint has frozen is unfrozen by
`multi_cr_client` without `-b`. One that runs (`-b`) is left running with `-b`, or with `--action`, which fails on it
and ends the client; `cr_client` freezes it after its message, so that no client may come after. -/
def RestoreFits (c r : Client) (cs : List Client) : Prop :=
  match r with
  | .crClient => c.bufferOnly = true ∧ cs = []
  | .multiCrClient actionMode bufferOnly _ =>
    if c.bufferOnly then bufferOnly = true ∨ actionMode = true else bufferOnly = false

/-- All restores do. -/
def RestoresFit : List Client → Prop
  | [] => True
  | [_] => True
  | c :: r :: cs => RestoreFits c r cs ∧ RestoresFit cs

/-- Every message was handled by a running worker. All of them have the handler call the driver. -/
def NoGpuWorkWhileFrozen (s : FlowState) : Prop := ∀ e ∈ s.log, ∀ w ∈ e.2, w = .running

section Alternate
variable {s : FlowState}

theorem allParallel_singleton {w w' : CudaState} {args : CudaCkptArgs} (h : w.next args = some w') :
    cudaCkptAllParallel (fun _ => false) args [w] = (0, [w']) :=
  allParallel_of_ok (n := 1) h fun _ _ => rfl

/-- The client has sent messages that a worker in this state handled. -/
def Handled (s s' : FlowState) (w : CudaState) : Prop := ∃ msgs, s'.log = s.log ++ msgs ∧ ∀ e ∈ msgs, e.2 = [w]

theorem NoGpuWorkWhileFrozen.handled {s' : FlowState} (hs : s.NoGpuWorkWhileFrozen) (h : Handled s s' .running) :
    s'.NoGpuWorkWhileFrozen := by
  obtain ⟨msgs, heq, hmsgs⟩ := h
  intro e he w hw
  rw [heq] at he
  rcases List.mem_append.1 he with he | he
  · exact hs e he w hw
  · rw [hmsgs e he] at hw
    exact List.mem_singleton.1 hw

theorem checkpoint_running (hs : s.workers = [.running]) (c : Client) :
    (s.checkpoint c).workers = [if c.bufferOnly then .running else .checkpointed] ∧
      Handled s (s.checkpoint c) .running := by
  cases c with
  | crClient =>
    simp only [checkpoint, crCheckpoint, handle, hs, Bool.false_eq_true, if_false,
      allParallel_singleton (rfl : CudaState.next .running .toggle = some .checkpointed)]
    exact ⟨rfl, _, rfl, by simp⟩
  | multiCrClient actionMode bufferOnly skipNccl =>
    simp only [checkpoint, doCheckpoint, foldl_handle, hs]
    refine ⟨?_, _, rfl, by simp⟩
    cases actionMode <;> cases bufferOnly <;> rfl

theorem checkpoint_frozen (hs : s.workers = [.checkpointed]) (c : Client) : ∃ m, (m, [.checkpointed]) ∈ (s.checkpoint c).log := by
  refine ⟨.ckpt, ?_⟩
  cases c with
  | crClient =>
    simp only [checkpoint, crCheckpoint, handle, hs, Bool.false_eq_true, if_false]
    exact List.mem_append_right _ (List.mem_singleton.2 rfl)
  | multiCrClient actionMode bufferOnly skipNccl =>
    simp only [checkpoint, doCheckpoint, foldl_handle, hs]
    refine List.mem_append_right _ (List.mem_map.2 ⟨.ckpt, ?_, rfl⟩)
    cases skipNccl <;> decide

theorem restore_multi (actionMode bufferOnly skipNccl : Bool) {w w' : CudaState} (hs : s.workers = [w])
    (hunfreeze : (if actionMode then cudaCheckpointRestoreAction true bufferOnly (fun _ _ => false) [w]
      else cudaCheckpointToggleAll true bufferOnly (fun _ => false) [w]) = (0, [w'])) :
    (s.restore (.multiCrClient actionMode bufferOnly skipNccl)).workers = [w'] ∧
      (.restore, [w']) ∈ (s.restore (.multiCrClient actionMode bufferOnly skipNccl)).log ∧
      Handled s (s.restore (.multiCrClient actionMode bufferOnly skipNccl)) w' := by
  simp only [restore, doRestore, hs, hunfreeze, Nat.lt_irrefl, false_and, if_false, foldl_handle]
  exact ⟨trivial, List.mem_append_right _ (List.mem_map_of_mem (List.mem_cons_self ..)), _, rfl, by simp⟩

theorem restore_cr {w w' : CudaState} (hs : s.workers = [w]) (hnext : w.next .toggle = some w') :
    (s.restore .crClient).workers = [w'] ∧ (.restore, [w]) ∈ (s.restore .crClient).log ∧ Handled s (s.restore .crClient) w := by
  simp only [restore, crRestore, handle, hs, Bool.false_eq_true, if_false, allParallel_singleton hnext]
  exact ⟨trivial, List.mem_append_right _ (List.mem_singleton.2 rfl), _, rfl, by simp⟩

/-- `--action restore` of a running worker fails and ends the client before its messages. -/
theorem restore_action_running (hs : s.workers = [.running]) (skipNccl : Bool) :
    (s.restore (.multiCrClient true false skipNccl)).workers = [.running] ∧
      Handled s (s.restore (.multiCrClient true false skipNccl)) .running := by
  have hfails : cudaCheckpointRestoreAction true false (fun _ _ => false) [.running] = (2, [.running]) := rfl
  simp only [restore, doRestore, hs, hfails, if_true, Nat.zero_lt_two, and_self]
  exact ⟨trivial, [], (List.append_nil _).symm, by simp⟩

theorem mem_log_checkpoint (c : Client) {e : CrMsg × List CudaState} (he : e ∈ s.log) : e ∈ (s.checkpoint c).log := by
  cases c with
  | crClient =>
    simp only [checkpoint, crCheckpoint, handle, Bool.false_eq_true, if_false]
    exact List.mem_append_left _ he
  | multiCrClient actionMode bufferOnly skipNccl =>
    simp only [checkpoint, doCheckpoint, foldl_handle]
    exact List.mem_append_left _ he

theorem mem_log_restore (c : Client) {e : CrMsg × List CudaState} (he : e ∈ s.log) : e ∈ (s.restore c).log := by
  cases c with
  | crClient =>
    simp only [restore, crRestore, handle, Bool.false_eq_true, if_false]
    exact List.mem_append_left _ he
  | multiCrClient actionMode bufferOnly skipNccl =>
    simp only [restore, doRestore, foldl_handle]
    generalize (if actionMode then cudaCheckpointRestoreAction true bufferOnly (fun _ _ => false) s.workers
      else cudaCheckpointToggleAll true bufferOnly (fun _ => false) s.workers) = unfreeze
    split_ifs
    · exact he
    · exact List.mem_append_left _ he

theorem mem_log_alternate (cs : List Client) {e : CrMsg × List CudaState} (he : e ∈ s.log) :
    e ∈ (s.alternate cs).log := by
  induction s, cs using alternate.induct with
  | case1 s => exact he
  | case2 s c => exact mem_log_checkpoint c he
  | case3 s c r cs ih => exact ih (mem_log_restore r (mem_log_checkpoint c he))

theorem not_alternate_of_mem (cs : List Client) {m : CrMsg} (hm : (m, [.checkpointed]) ∈ s.log) :
    ¬ (s.alternate cs).NoGpuWorkWhileFrozen := fun h =>
  absurd (h _ (mem_log_alternate cs hm) .checkpointed (List.mem_singleton.2 rfl)) (by decide)

theorem alternate_frozen_iff (cs : List Client) (hs : s.workers = [.checkpointed]) (hlog : s.NoGpuWorkWhileFrozen) :
    (s.alternate cs).NoGpuWorkWhileFrozen ↔ cs = [] := by
  match cs with
  | [] => exact iff_of_true hlog rfl
  | [c] =>
    obtain ⟨m, hm⟩ := checkpoint_frozen hs c
    exact iff_of_false (not_alternate_of_mem [] hm) (List.cons_ne_nil _ _)
  | c :: r :: cs =>
    obtain ⟨m, hm⟩ := checkpoint_frozen hs c
    exact iff_of_false (not_alternate_of_mem cs (mem_log_restore r hm)) (List.cons_ne_nil _ _)

theorem alternate_iff (cs : List Client) (hs : s.workers = [.running]) (hlog : s.NoGpuWorkWhileFrozen) :
    (s.alternate cs).NoGpuWorkWhileFrozen ↔ RestoresFit cs := by
  induction s, cs using alternate.induct with
  | case1 s => exact iff_of_true hlog trivial
  | case2 s c => exact iff_of_true (hlog.handled (checkpoint_running hs c).2) trivial
  | case3 s c r cs ih =>
    obtain ⟨hworkers, hckpt⟩ := checkpoint_running hs c
    have hlog₁ := hlog.handled hckpt
    rw [alternate, RestoresFit]
    unfold RestoreFits
    cases hbuf : c.bufferOnly with
    | false =>
      rw [hbuf, if_neg Bool.false_ne_true] at hworkers
      cases r with
      | crClient =>
        obtain ⟨-, hmem, -⟩ := restore_cr hworkers (rfl : CudaState.next .checkpointed .toggle = some .running)
        exact iff_of_false (not_alternate_of_mem cs hmem) fun h => Bool.false_ne_true h.1.1
      | multiCrClient actionMode bufferOnly skipNccl =>
        cases bufferOnly with
        | true =>
          obtain ⟨-, hmem, -⟩ := restore_multi actionMode true skipNccl hworkers
            (by cases actionMode <;> rfl : _ = (0, [CudaState.checkpointed]))
          exact iff_of_false (not_alternate_of_mem cs hmem) fun h => absurd h.1 (by simp)
        | false =>
          obtain ⟨hrunning, -, hmsgs⟩ := restore_multi actionMode false skipNccl hworkers
            (by cases actionMode <;> rfl : _ = (0, [CudaState.running]))
          rw [ih hrunning (hlog₁.handled hmsgs)]
          simp
    | true =>
      rw [hbuf, if_pos rfl] at hworkers
      cases r with
      | crClient =>
        obtain ⟨hfrozen, -, hmsgs⟩ := restore_cr hworkers (rfl : CudaState.next .running .toggle = some .checkpointed)
        rw [alternate_frozen_iff cs hfrozen (hlog₁.handled hmsgs)]
        exact ⟨fun h => ⟨⟨rfl, h⟩, by rw [h]; trivial⟩, fun h => h.1.2⟩
      | multiCrClient actionMode bufferOnly skipNccl =>
        cases bufferOnly with
        | true =>
          obtain ⟨hrunning, -, hmsgs⟩ := restore_multi actionMode true skipNccl hworkers
            (by cases actionMode <;> rfl : _ = (0, [CudaState.running]))
          rw [ih hrunning (hlog₁.handled hmsgs)]
          simp
        | false =>
          cases actionMode with
          | true =>
            obtain ⟨hrunning, hmsgs⟩ := restore_action_running hworkers skipNccl
            rw [ih hrunning (hlog₁.handled hmsgs)]
            simp
          | false =>
            obtain ⟨-, hmem, -⟩ := restore_multi false false skipNccl hworkers
              (rfl : _ = (0, [CudaState.checkpointed]))
            exact iff_of_false (not_alternate_of_mem cs hmem) fun h => absurd h.1 (by simp)

end Alternate

/-- **No GPU work while frozen**, exactly when every restore goes with the checkpoint before it. -/
theorem noGpuWorkWhileFrozen_iff (cs : List Client) : ((start 1).alternate cs).NoGpuWorkWhileFrozen ↔ RestoresFit cs :=
  alternate_iff cs rfl fun _ he => absurd he List.not_mem_nil

/-- `cr_client -c`, then `cr_client -r`. -/
theorem not_noGpuWorkWhileFrozen : ¬ ∀ cs : List Client, ((start 1).alternate cs).NoGpuWorkWhileFrozen := by
  intro h
  exact absurd (h [.crClient, .crClient] (.restore, [.checkpointed]) (by decide) .checkpointed (by decide)) (by decide)

end FlowState

end GpuCr
