import Mathlib.Data.List.Sort

/-!
# Peer access across a checkpoint cycle

The peer-access hooks of `src/ipc_hooks.cpp`, the part of the two signal handlers that calls them, and the
messages `do_checkpoint` and `do_restore` of the coordinator send. The driver keeps the devices whose
access is enabled; `g_peer_access_devices` follows it through the hooks. Both handlers save that set
before they disable it, into one variable: a second save before the next re-enabling overwrites the
first with the empty set.
-/

namespace GpuCr

open Std

/-- The results of the two runtime calls that the code tells apart. -/
inductive PeerResult where
  | success
  | alreadyEnabled
  | notEnabled
  | otherError
  deriving DecidableEq, Repr

/-- `enabled` is the driver's; `fails` says which calls the driver fails. -/
structure PeerState where
  fails : Nat → Bool
  clock : Nat
  enabled : ExtTreeSet Int
  peerAccessDevices : ExtTreeSet Int
  savedPeerAccessDevices : ExtTreeSet Int

namespace PeerState

/-! ### The driver -/

def realEnable (s : PeerState) (dev : Int) : PeerResult × PeerState :=
  let s' := { s with clock := s.clock + 1 }
  if s.fails s.clock then (.otherError, s')
  else if dev ∈ s.enabled then (.alreadyEnabled, s')
  else (.success, { s' with enabled := s.enabled.insert dev })

def realDisable (s : PeerState) (dev : Int) : PeerResult × PeerState :=
  let s' := { s with clock := s.clock + 1 }
  if s.fails s.clock then (.otherError, s')
  else if dev ∈ s.enabled then (.success, { s' with enabled := s.enabled.erase dev })
  else (.notEnabled, s')

/-! ### The hooks -/

def track (s : PeerState) (dev : Int) : PeerState :=
  { s with peerAccessDevices := s.peerAccessDevices.insert dev }

/-- The device is tracked when the call says that access is enabled now. -/
def enableAndTrack (s : PeerState) (dev : Int) : PeerState :=
  match s.realEnable dev with
  | (.success, s) => s.track dev
  | (.alreadyEnabled, s) => s.track dev
  | (_, s) => s

def cudaDeviceEnablePeerAccess (s : PeerState) (peerDevice : Int) : PeerState := s.enableAndTrack peerDevice

def cudaDeviceDisablePeerAccess (s : PeerState) (peerDevice : Int) : PeerState :=
  match s.realDisable peerDevice with
  | (.success, s) => { s with peerAccessDevices := s.peerAccessDevices.erase peerDevice }
  | (_, s) => s

def ipcDisableAllPeerAccess (s : PeerState) : PeerState :=
  let s := { s with savedPeerAccessDevices := s.peerAccessDevices }
  let s := s.peerAccessDevices.toList.foldl (fun s dev => (s.realDisable dev).2) s
  { s with peerAccessDevices := ∅ }

def ipcReenableAllPeerAccess (s : PeerState) : PeerState :=
  let s := s.savedPeerAccessDevices.toList.foldl enableAndTrack s
  { s with savedPeerAccessDevices := ∅ }

/-! ### Handlers and coordinator -/

inductive CrMsg where
  | init
  | ckpt
  | restore
  | selectiveCkpt
  | selectiveRestore
  | ipcTeardown
  | ipcExport
  | ipcImport
  deriving DecidableEq, Repr

/-- What `cr_signal_handler` and `cr_ipc_signal_handler` do to peer access. -/
def handleMsg (s : PeerState) : CrMsg → PeerState
  | .ckpt => s.ipcDisableAllPeerAccess
  | .restore => s.ipcReenableAllPeerAccess
  | .ipcTeardown => s.ipcDisableAllPeerAccess
  | .ipcImport => s.ipcReenableAllPeerAccess
  | .init => s
  | .selectiveCkpt => s
  | .selectiveRestore => s
  | .ipcExport => s

/-- The messages `do_checkpoint` broadcasts; `-n` sets `skipNccl`. -/
def doCheckpoint (skipNccl : Bool) : List CrMsg :=
  (if !skipNccl then [.ipcTeardown] else []) ++ [.ckpt]

def doRestore (skipNccl : Bool) : List CrMsg :=
  [.restore] ++ if !skipNccl then [.ipcExport, .ipcImport] else []

def cycle (skipNccl : Bool) (s : PeerState) : PeerState :=
  (doCheckpoint skipNccl ++ doRestore skipNccl).foldl handleMsg s

/-! ### Runs -/

/-- What can happen to the peer state of a process. -/
inductive PeerEvent where
  | enable (peerDevice : Int)
  | disable (peerDevice : Int)
  | msg (m : CrMsg)

def step (s : PeerState) : PeerEvent → PeerState
  | .enable dev => s.cudaDeviceEnablePeerAccess dev
  | .disable dev => s.cudaDeviceDisablePeerAccess dev
  | .msg m => s.handleMsg m

/-- A fresh process whose peer calls all succeed. -/
def start : PeerState := ⟨fun _ => false, 0, ∅, ∅, ∅⟩

def Reachable (s : PeerState) : Prop := ∃ events : List PeerEvent, s = events.foldl step start

/-- The invariant of such a process: the tracked set is the driver's. -/
structure Tracked (s : PeerState) : Prop where
  reliable : ∀ n, s.fails n = false
  enabled : s.enabled = s.peerAccessDevices

theorem realEnable_mem {s : PeerState} (hf : ∀ n, s.fails n = false) (dev : Int) :
    ((s.realEnable dev).1 = .success ∨ (s.realEnable dev).1 = .alreadyEnabled) ∧
      (s.realEnable dev).2.fails = s.fails ∧
      (s.realEnable dev).2.enabled = s.enabled.insert dev ∧
      (s.realEnable dev).2.peerAccessDevices = s.peerAccessDevices ∧
      (s.realEnable dev).2.savedPeerAccessDevices = s.savedPeerAccessDevices := by
  unfold realEnable
  rw [hf]
  by_cases hdev : dev ∈ s.enabled
  · have hins : s.enabled = s.enabled.insert dev := by
      apply ExtTreeSet.ext_mem
      intro k
      rw [ExtTreeSet.mem_insert]
      refine ⟨Or.inr, ?_⟩
      rintro (h | h)
      · exact LawfulEqCmp.eq_of_compare h ▸ hdev
      · exact h
    simpa [hdev] using hins
  · simp [hdev]

theorem realDisable_mem {s : PeerState} (hf : ∀ n, s.fails n = false) (dev : Int) :
    (s.realDisable dev).2.fails = s.fails ∧
      (s.realDisable dev).2.enabled = s.enabled.erase dev ∧
      (s.realDisable dev).2.peerAccessDevices = s.peerAccessDevices ∧
      (s.realDisable dev).2.savedPeerAccessDevices = s.savedPeerAccessDevices := by
  unfold realDisable
  rw [hf]
  by_cases hdev : dev ∈ s.enabled
  · simp [hdev]
  · have hera : s.enabled = s.enabled.erase dev := by
      apply ExtTreeSet.ext_mem
      intro k
      rw [ExtTreeSet.mem_erase]
      refine ⟨fun h => ⟨fun heq => hdev ?_, h⟩, And.right⟩
      exact LawfulEqCmp.eq_of_compare heq ▸ h
    simpa [hdev] using hera

theorem enableAndTrack_spec {s : PeerState} (hf : ∀ n, s.fails n = false) (dev : Int) :
    (s.enableAndTrack dev).fails = s.fails ∧ (s.enableAndTrack dev).enabled = s.enabled.insert dev ∧
      (s.enableAndTrack dev).peerAccessDevices = s.peerAccessDevices.insert dev ∧
      (s.enableAndTrack dev).savedPeerAccessDevices = s.savedPeerAccessDevices := by
  obtain ⟨hres, h1, h2, h3, h4⟩ := realEnable_mem hf dev
  unfold enableAndTrack
  cases hr : s.realEnable dev with
  | mk r s' =>
    rw [hr] at hres h1 h2 h3 h4
    rcases hres with rfl | rfl <;> exact ⟨h1, h2, congrArg (·.insert dev) h3, h4⟩

theorem foldl_enableAndTrack_mem (devs : List Int) {s : PeerState} (hf : ∀ n, s.fails n = false) :
    (devs.foldl enableAndTrack s).fails = s.fails ∧
      (∀ k, k ∈ (devs.foldl enableAndTrack s).enabled ↔ k ∈ s.enabled ∨ k ∈ devs) ∧
      (∀ k, k ∈ (devs.foldl enableAndTrack s).peerAccessDevices ↔ k ∈ s.peerAccessDevices ∨ k ∈ devs) := by
  induction devs generalizing s with
  | nil => simp
  | cons dev devs ih =>
    obtain ⟨h1, h2, h3, -⟩ := enableAndTrack_spec hf dev
    obtain ⟨h4, h5, h6⟩ := ih (s := s.enableAndTrack dev) (h1 ▸ hf)
    refine ⟨h4.trans h1, ?_, ?_⟩
    · intro k
      rw [List.foldl_cons, h5, h2, ExtTreeSet.mem_insert, List.mem_cons,
        LawfulEqCmp.compare_eq_iff_eq, eq_comm]
      tauto
    · intro k
      rw [List.foldl_cons, h6, h3, ExtTreeSet.mem_insert, List.mem_cons,
        LawfulEqCmp.compare_eq_iff_eq, eq_comm]
      tauto

theorem foldl_realDisable_mem (devs : List Int) {s : PeerState} (hf : ∀ n, s.fails n = false) :
    (devs.foldl (fun s dev => (s.realDisable dev).2) s).fails = s.fails ∧
      (∀ k, k ∈ (devs.foldl (fun s dev => (s.realDisable dev).2) s).enabled ↔ k ∈ s.enabled ∧ k ∉ devs) ∧
      (devs.foldl (fun s dev => (s.realDisable dev).2) s).savedPeerAccessDevices =
        s.savedPeerAccessDevices := by
  induction devs generalizing s with
  | nil => simp
  | cons dev devs ih =>
    obtain ⟨h1, h2, -, h4⟩ := realDisable_mem hf dev
    obtain ⟨h5, h6, h7⟩ := ih (s := (s.realDisable dev).2) (h1 ▸ hf)
    refine ⟨h5.trans h1, ?_, h7.trans h4⟩
    intro k
    rw [List.foldl_cons, h6, h2, ExtTreeSet.mem_erase, List.mem_cons, not_or, ne_eq,
      LawfulEqCmp.compare_eq_iff_eq, eq_comm]
    tauto

theorem foldl_realDisable_gone (devs : List Int) (s : PeerState)
    (hf : ∀ i < devs.length, s.fails (s.clock + i) = false) :
    ∀ k ∈ (devs.foldl (fun s dev => (s.realDisable dev).2) s).enabled, k ∈ s.enabled ∧ k ∉ devs := by
  induction devs generalizing s with
  | nil => exact fun k hk => ⟨hk, List.not_mem_nil⟩
  | cons dev devs ih =>
    have hstep : (s.realDisable dev).2.fails = s.fails ∧ (s.realDisable dev).2.clock = s.clock + 1 ∧
        ∀ k ∈ (s.realDisable dev).2.enabled, k ∈ s.enabled ∧ k ≠ dev := by
      unfold realDisable
      rw [show s.fails s.clock = false from hf 0 (by simp)]
      by_cases hdev : dev ∈ s.enabled
      · simp only [hdev, Bool.false_eq_true, if_false, if_true, true_and]
        intro k hk
        rw [ExtTreeSet.mem_erase, ne_eq, LawfulEqCmp.compare_eq_iff_eq, eq_comm] at hk
        exact ⟨hk.2, hk.1⟩
      · simp only [hdev, Bool.false_eq_true, if_false, true_and]
        intro k hk
        exact ⟨hk, fun heq => hdev (heq ▸ hk)⟩
    obtain ⟨hfails, hclock, hgone⟩ := hstep
    have hrest := ih (s.realDisable dev).2 fun i hi => by
      rw [hfails, hclock, Nat.add_assoc, Nat.add_comm 1 i]
      exact hf (i + 1) (by simpa using hi)
    intro k hk
    obtain ⟨hmem, hnot⟩ := hrest k hk
    obtain ⟨hmem, hne⟩ := hgone k hmem
    exact ⟨hmem, List.not_mem_cons_of_ne_of_not_mem hne hnot⟩

/-! ### The helpers on a tracked state -/

theorem disableAll_spec {s : PeerState} (hs : s.Tracked) :
    s.ipcDisableAllPeerAccess.Tracked ∧ s.ipcDisableAllPeerAccess.peerAccessDevices = ∅ ∧
      s.ipcDisableAllPeerAccess.savedPeerAccessDevices = s.peerAccessDevices := by
  obtain ⟨h1, h2, h3⟩ := foldl_realDisable_mem s.peerAccessDevices.toList
    (s := { s with savedPeerAccessDevices := s.peerAccessDevices }) hs.reliable
  refine ⟨⟨fun n => (congrFun h1 n).trans (hs.reliable n), ?_⟩, rfl, h3⟩
  apply ExtTreeSet.ext_mem
  intro k
  refine (h2 k).trans ⟨?_, fun h => absurd h ExtTreeSet.not_mem_empty⟩
  rintro ⟨hin, hout⟩
  rw [ExtTreeSet.mem_toList] at hout
  exact absurd (hs.enabled ▸ hin) hout

theorem reenableAll_spec {s : PeerState} (hs : s.Tracked) :
    s.ipcReenableAllPeerAccess.Tracked ∧
      (∀ k, k ∈ s.ipcReenableAllPeerAccess.peerAccessDevices ↔
        k ∈ s.peerAccessDevices ∨ k ∈ s.savedPeerAccessDevices) ∧
      s.ipcReenableAllPeerAccess.savedPeerAccessDevices = ∅ := by
  obtain ⟨h1, h2, h3⟩ := foldl_enableAndTrack_mem s.savedPeerAccessDevices.toList hs.reliable
  refine ⟨⟨fun n => (congrFun h1 n).trans (hs.reliable n), ?_⟩, ?_, rfl⟩
  · apply ExtTreeSet.ext_mem
    intro k
    exact (h2 k).trans (hs.enabled ▸ (h3 k).symm)
  · intro k
    exact (h3 k).trans (by rw [ExtTreeSet.mem_toList])

theorem Tracked.step {s : PeerState} (hs : s.Tracked) (e : PeerEvent) : (s.step e).Tracked := by
  cases e with
  | enable dev =>
    obtain ⟨h1, h2, h3, -⟩ := enableAndTrack_spec hs.reliable dev
    refine ⟨fun n => (congrFun h1 n).trans (hs.reliable n), ?_⟩
    exact h2.trans (hs.enabled ▸ h3.symm)
  | disable dev =>
    show (s.cudaDeviceDisablePeerAccess dev).Tracked
    unfold cudaDeviceDisablePeerAccess realDisable
    rw [hs.reliable]
    by_cases hdev : dev ∈ s.enabled
    · simp only [hdev, Bool.false_eq_true, if_false, if_true]
      exact ⟨hs.reliable, congrArg (·.erase dev) hs.enabled⟩
    · simp only [hdev, Bool.false_eq_true, if_false]
      exact ⟨hs.reliable, hs.enabled⟩
  | msg m =>
    cases m with
    | ckpt => exact (disableAll_spec hs).1
    | ipcTeardown => exact (disableAll_spec hs).1
    | restore => exact (reenableAll_spec hs).1
    | ipcImport => exact (reenableAll_spec hs).1
    | init => exact hs
    | selectiveCkpt => exact hs
    | selectiveRestore => exact hs
    | ipcExport => exact hs

theorem Reachable.tracked {s : PeerState} (h : s.Reachable) : s.Tracked := by
  obtain ⟨events, rfl⟩ := h
  refine List.foldlRecOn (motive := Tracked) events PeerState.step ⟨fun _ => rfl, rfl⟩ ?_
  intro s hs e _
  exact hs.step e

theorem Tracked.cycle {s : PeerState} (hs : s.Tracked) (skipNccl : Bool) : (s.cycle skipNccl).Tracked := by
  refine List.foldlRecOn (motive := Tracked) _ handleMsg hs ?_
  intro s hs m _
  exact hs.step (.msg m)

/-! ### The cycle -/

/-- The cycle ends with access to exactly the devices that had it. -/
def SurvivesCycle (skipNccl : Bool) (s : PeerState) : Prop :=
  (s.cycle skipNccl).enabled = s.peerAccessDevices ∧
    (s.cycle skipNccl).peerAccessDevices = s.peerAccessDevices

theorem cycle_skip {s : PeerState} (hs : s.Tracked) : s.SurvivesCycle true := by
  obtain ⟨h1, h2, h3⟩ := disableAll_spec hs
  obtain ⟨h4, h5, -⟩ := reenableAll_spec h1
  have hdevs : (s.cycle true).peerAccessDevices = s.peerAccessDevices := by
    apply ExtTreeSet.ext_mem
    intro k
    refine (h5 k).trans ?_
    rw [h2, h3]
    simp
  exact ⟨h4.enabled.trans hdevs, hdevs⟩

/-- The second save is made of an empty set, so nothing is ever re-enabled. -/
theorem cycle_full {s : PeerState} (hs : s.Tracked) : (s.cycle false).peerAccessDevices = ∅ := by
  obtain ⟨h1, h2, -⟩ := disableAll_spec hs
  obtain ⟨h3, h4, h5⟩ := disableAll_spec h1
  obtain ⟨h6, h7, h8⟩ := reenableAll_spec h3
  obtain ⟨-, h9, -⟩ := reenableAll_spec h6
  rw [ExtTreeSet.eq_empty_iff_forall_not_mem]
  intro k hk
  rcases (h9 k).1 hk with hk | hk
  · rcases (h7 k).1 hk with hk | hk
    · exact absurd (h4 ▸ hk) ExtTreeSet.not_mem_empty
    · rw [h5, h2] at hk
      exact absurd hk ExtTreeSet.not_mem_empty
  · exact absurd (h8 ▸ hk) ExtTreeSet.not_mem_empty

/-- **Peer access survives a cycle** exactly when the coordinator skips the IPC phases or there was none. -/
theorem survivesCycle_iff (s : PeerState) (h : s.Reachable) (skipNccl : Bool) :
    s.SurvivesCycle skipNccl ↔ skipNccl = true ∨ s.peerAccessDevices = ∅ := by
  have hs := h.tracked
  cases skipNccl with
  | true => exact ⟨fun _ => Or.inl rfl, fun _ => cycle_skip hs⟩
  | false =>
    have hempty := cycle_full hs
    constructor
    · intro hsurv
      exact Or.inr (hsurv.2.symm.trans hempty)
    · rintro (h | h)
      · exact absurd h (by decide)
      · -- with nothing to lose the empty set is the right one
        have hdevs := hempty.trans h.symm
        exact ⟨(hs.cycle false).enabled.trans hdevs, hdevs⟩

theorem survivesCycle_skip_iff_enabled :
    (start.step (.enable 1)).SurvivesCycle true ↔
      true = true ∨ (start.step (.enable 1)).peerAccessDevices = ∅ :=
  survivesCycle_iff (start.step (.enable 1)) ⟨[.enable 1], rfl⟩ true

/-- A process with access to device 1 has none after a full cycle. -/
theorem not_survivesCycle :
    ¬ ∀ s : PeerState, s.Reachable → ∀ skipNccl, s.SurvivesCycle skipNccl := by
  intro h
  have hlost := (h (start.step (.enable 1)) ⟨[.enable 1], rfl⟩ false).2
  exact absurd hlost (by decide)

end PeerState

end GpuCr
