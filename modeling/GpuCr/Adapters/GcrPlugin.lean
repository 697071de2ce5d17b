import GpuCr.Adapters.NcclApi
import GpuCr.Adapters.Prepare

/-!
# GCR's plugin

The callbacks of `plugin/nccl_checkpoint_gcr_plugin.cpp` over the runtime of `GcrProcess`, and a process that calls NCCL with
them. What the process does to the runtime is a run of the runtime's own entry points, one for each call that passes the
checks of NCCL, the loader and the plugin, and the results that the caller sees tell whether the runtime is prepared.
-/

namespace GpuCr

open Lib.Run Lib.Ledger

/-- The three functions that `GcrCheckpointContext` cannot be without are not among its fields. -/
structure GcrCheckpointContext where
  address : Nat
  validate : Bool
  deriving DecidableEq, Repr

/-- The functions of the runtime that `dlsym` finds. -/
structure RuntimeSymbols where
  prepare : Bool
  restoreExport : Bool
  restoreImport : Bool
  validate : Bool

/-- What a call finds: the runtime, memory for a context, and the answers to the entry point that it leads to. -/
structure GcrAnswers where
  symbols : RuntimeSymbols
  address : Nat
  prepare : PrepareAnswers
  restoreExport : RestoreExportAnswers
  restoreImport : RestoreImportAnswers

def gcrPluginInit (x : GcrAnswers) (s : GcrProcess) : NcclResult × Option GcrCheckpointContext × GcrProcess :=
  if x.symbols.prepare && x.symbols.restoreExport && x.symbols.restoreImport then
    (.ncclSuccess, some ⟨x.address, x.symbols.validate⟩, s)
  else (.ncclSystemError, none, s)

/-- An entry point of the runtime, through the context. -/
def gcrPluginCall (context : Option GcrCheckpointContext) (r : Int × GcrProcess) : Except Fault (NcclResult × GcrProcess) :=
  match context with
  | none => .error .nullContext
  | some _ => .ok (if r.1 = 0 then .ncclSuccess else .ncclSystemError, r.2)

def gcrPluginPrepare : CkptCallback GcrCheckpointContext GcrAnswers GcrProcess := fun context _ x s =>
  gcrPluginCall context (s.gcrCheckpointPrepare x.prepare)

/-- The answers to `gcr_checkpoint_restore_import(flags)`. -/
def GcrAnswers.importWith (x : GcrAnswers) (flags : CkptFlags) : RestoreImportAnswers :=
  { x.restoreImport with validate := flags &&& ckptOptValidate != 0 }

def gcrPluginRestore : CkptCallback GcrCheckpointContext GcrAnswers GcrProcess := fun context flags x s =>
  if flags &&& ckptRestoreExport != 0 then gcrPluginCall context (s.gcrCheckpointRestoreExport x.restoreExport)
  else if flags &&& ckptRestoreImport != 0 then gcrPluginCall context (s.gcrCheckpointRestoreImport (x.importWith flags))
  else .ok (.ncclInvalidUsage, s)

/-- `gcrPluginFinalize` frees the context and leaves the runtime alone. -/
def gcrPluginFinalize (_ : Option GcrCheckpointContext) (s : GcrProcess) : GcrProcess := s

def ncclCheckpointPluginV1 : NcclCheckpointPlugin GcrCheckpointContext GcrAnswers GcrProcess :=
  ⟨some gcrPluginInit, some gcrPluginPrepare, some gcrPluginRestore, some gcrPluginFinalize⟩

/-! ### A process that calls NCCL -/

/-- `native` is what `ncclCommSuspend` or `ncclCommResume` returns, and the hooked calls that it makes. -/
structure CkptCall where
  flags : CkptFlags
  native : Option (NcclResult × List GcrEvent)
  load : LoadAnswers GcrCheckpointContext GcrAnswers GcrProcess
  answers : GcrAnswers

inductive GcrCall where
  | prepare (c : CkptCall)
  | restore (c : CkptCall)
  | app (e : GcrEvent)
  | exit

/-- A hooked call of the application. -/
def GcrEvent.IsHook : GcrEvent → Prop
  | .prepare _ | .restoreExport _ | .restoreImport _ => False
  | .call _ | .enablePeer _ | .disablePeer _ => True

/-- Every library that can be opened is GCR's or no plugin, and NCCL itself does not call the runtime. -/
structure CkptCall.WithGcr (c : CkptCall) : Prop where
  plugin : ∀ name handle p, c.load.openLib name = some (handle, some p) → p = ncclCheckpointPluginV1
  native : ∀ n ∈ c.native, ∀ e ∈ n.2, e.IsHook

def GcrCall.WithGcr : GcrCall → Prop
  | .prepare c => c.WithGcr
  | .restore c => c.WithGcr
  | .app e => e.IsHook
  | .exit => True

def CkptCall.nativeCall (c : CkptCall) : Option (GcrProcess → NcclResult × GcrProcess) :=
  c.native.map fun n => fun s => (n.1, run GcrProcess.step s n.2)

abbrev GcrNcclProcess := NcclProcess GcrCheckpointContext GcrAnswers GcrProcess

namespace GcrNcclProcess

/-- The result of a call, where it has one, and the process after it. -/
def call (s : GcrNcclProcess) : GcrCall → Except Fault (Option NcclResult × GcrNcclProcess)
  | .prepare c => do
    let r ← s.ncclCommCheckpointPrepare c.flags c.nativeCall c.load c.answers
    pure (some r.1, r.2)
  | .restore c => do
    let r ← s.ncclCommCheckpointRestore c.flags c.nativeCall c.load c.answers
    pure (some r.1, r.2)
  | .app e => .ok (none, { s with world := s.world.step e })
  | .exit => .ok (none, s.exit)

/-- What a checkpoint call does to the runtime: `entry` if it passes. -/
def checkpointEvents (s : GcrNcclProcess) (passes : Bool) (entry : GcrEvent) (c : CkptCall) : List GcrEvent :=
  if c.flags.isNative then (c.native.map (·.2)).getD []
  else if c.flags &&& ckptModeMask == ckptModeGcrGlobal && passes &&
      decide ((s.ncclCheckpointPluginLoad c.load c.answers).1 = .ncclSuccess) then [entry]
  else []

def restoreEntry (c : CkptCall) : GcrEvent :=
  if c.flags &&& ckptRestoreExport != 0 then .restoreExport c.answers.restoreExport
  else .restoreImport (c.answers.importWith c.flags)

def events (s : GcrNcclProcess) : GcrCall → List GcrEvent
  | .prepare c => s.checkpointEvents c.flags.preparePasses (.prepare c.answers.prepare) c
  | .restore c => s.checkpointEvents c.flags.restorePasses (restoreEntry c) c
  | .app e => [e]
  | .exit => []

/-- Whether the runtime is prepared, as the caller can tell from the result; `b` says so before the call. -/
def awaits (b : Bool) : GcrCall → Option NcclResult → Bool
  | .prepare c, some r => b || !c.flags.isNative && r == .ncclSuccess
  | .restore c, some r => b && !(!c.flags.isNative && c.flags &&& ckptRestoreImport != 0 && r == .ncclSuccess)
  | _, _ => b

/-- A run of calls: what the runtime did, whether the results say that it is prepared, and the process. -/
def observe (s : GcrNcclProcess) (b : Bool) : List GcrCall → Except Fault (List GcrEvent × Bool × GcrNcclProcess)
  | [] => .ok ([], b, s)
  | c :: calls => do
    let r ← s.call c
    let rest ← observe r.2 (awaits b c r.1) calls
    pure (s.events c ++ rest.1, rest.2)

/-! ### One call -/

section Calls
variable {s : GcrNcclProcess} {c : CkptCall}

/-- What is loaded is GCR's plugin, with a context. -/
structure HasGcr (s : GcrNcclProcess) : Prop where
  plugin : ∀ p, s.plugin = some p → p = ncclCheckpointPluginV1
  loaded : s.status = .success → (∃ p, s.plugin = some p) ∧ ∃ ctx, s.context = some ctx

/-- A load leaves the runtime alone. -/
structure LoadSpec (s : GcrNcclProcess) (r : NcclResult × GcrNcclProcess) : Prop where
  hasGcr : r.2.HasGcr
  world : r.2.world = s.world
  success : r.1 = .ncclSuccess → r.2.status = .success

theorem loadSpec_fails {t : GcrNcclProcess} (h : t.world = s.world) : s.LoadSpec t.loadFails where
  hasGcr := ⟨fun _ h => (nomatch h), fun h => nomatch h⟩
  world := h
  success h := nomatch h

theorem loadSpec (hs : s.HasGcr) (hc : c.WithGcr) : s.LoadSpec (s.ncclCheckpointPluginLoad c.load c.answers) := by
  unfold NcclProcess.ncclCheckpointPluginLoad
  split
  · exact ⟨hs, rfl, fun h => nomatch h⟩
  · rename_i hstatus
    exact ⟨hs, rfl, fun _ => hstatus⟩
  · split_ifs
    · exact loadSpec_fails rfl
    · split
      · exact loadSpec_fails rfl
      · rename_i handle plugin hopen
        dsimp only
        split
        · exact loadSpec_fails rfl
        · rename_i p
          obtain rfl := hc.plugin _ _ p hopen
          show s.LoadSpec (NcclProcess.initPlugin _ gcrPluginInit c.answers)
          unfold NcclProcess.initPlugin gcrPluginInit
          dsimp only
          split_ifs with hsymbols hsuccess hsuccess
          · refine ⟨⟨fun _ h => ?_, fun _ => ⟨⟨_, rfl⟩, _, rfl⟩⟩, rfl, fun _ => rfl⟩
            exact (Option.some.inj h).symm
          · exact absurd rfl hsuccess
          · cases hsuccess
          · exact loadSpec_fails rfl

theorem prepared_hooks {es : List GcrEvent} (h : ∀ e ∈ es, e.IsHook) (w : GcrProcess) :
    (run GcrProcess.step w es).prepared = w.prepared := by
  induction es generalizing w with
  | nil => rfl
  | cons e es ih =>
    refine (ih (fun e' he' => h e' (List.mem_cons_of_mem e he')) _).trans ((w.step_spec e).1.trans ?_)
    cases e with
    | prepare c => exact (h _ List.mem_cons_self).elim
    | restoreExport c => exact (h _ List.mem_cons_self).elim
    | restoreImport c => exact (h _ List.mem_cons_self).elim
    | call c => rfl
    | enablePeer dev => rfl
    | disablePeer dev => rfl

/-- What a callback does: `ev`, and its result says whether the flag becomes `upd` of what it is. -/
def Does (f : CkptCallback GcrCheckpointContext GcrAnswers GcrProcess) (c : CkptCall) (ev : GcrEvent) (upd : Bool → Bool) :
    Prop :=
  ∀ ctx w, ∃ r, f (some ctx) c.flags c.answers w = .ok (r, w.step ev) ∧
    (w.step ev).prepared = if r = .ncclSuccess then upd w.prepared else w.prepared

theorem checkpoint_spec {passes : CkptFlags → Bool}
    (entry : NcclCheckpointPlugin GcrCheckpointContext GcrAnswers GcrProcess →
      Option (CkptCallback GcrCheckpointContext GcrAnswers GcrProcess))
    {f : CkptCallback GcrCheckpointContext GcrAnswers GcrProcess} {ev : GcrEvent} {upd : Bool → Bool} (hs : s.HasGcr)
    (hc : c.WithGcr) (hentry : entry ncclCheckpointPluginV1 = some f) (hf : passes c.flags = true → Does f c ev upd) :
    ∃ r, NcclProcess.ncclCommCheckpoint passes entry s c.flags c.nativeCall c.load c.answers = .ok r ∧
      HasGcr r.2 ∧ r.2.world = run GcrProcess.step s.world (s.checkpointEvents (passes c.flags) ev c) ∧
      r.2.world.prepared =
        if c.flags.isNative = false ∧ r.1 = .ncclSuccess then upd s.world.prepared else s.world.prepared := by
  have hload := loadSpec hs hc
  unfold NcclProcess.ncclCommCheckpoint checkpointEvents
  by_cases hnative : c.flags.isNative = true
  · rw [if_pos hnative, if_pos hnative, CkptCall.nativeCall]
    cases hn : c.native with
    | none => exact ⟨_, rfl, hs, rfl, by simp [hnative]⟩
    | some n =>
      refine ⟨_, rfl, ⟨hs.plugin, hs.loaded⟩, rfl, ?_⟩
      simpa [hnative] using prepared_hooks (hc.native n hn) s.world
  · rw [if_neg hnative, if_neg hnative]
    by_cases hmode : (c.flags &&& ckptModeMask == ckptModeGcrGlobal) = true
    · rw [if_pos hmode, hmode]
      by_cases hpasses : passes c.flags = true
      · rw [if_pos hpasses, hpasses]
        unfold NcclProcess.ncclCheckpointPlugin
        generalize s.ncclCheckpointPluginLoad c.load c.answers = t at hload
        dsimp only
        by_cases hok : t.1 = .ncclSuccess
        · rw [if_neg (not_not_intro hok), if_pos (by simp [hok])]
          obtain ⟨⟨p, hplugin⟩, ctx, hctx⟩ := hload.hasGcr.loaded (hload.success hok)
          obtain rfl := hload.hasGcr.plugin p hplugin
          obtain ⟨r, hr, hprep⟩ := hf hpasses ctx t.2.world
          rw [hplugin]
          dsimp only
          rw [hentry]
          dsimp only
          rw [hctx, hr]
          refine ⟨_, rfl, ⟨hload.hasGcr.plugin, hload.hasGcr.loaded⟩, ?_, ?_⟩
          · rw [← hload.world]
            rfl
          · rw [← hload.world]
            simpa [hnative] using hprep
        · rw [if_pos hok, if_neg (by simp [hok])]
          exact ⟨_, rfl, hload.hasGcr, hload.world, by simp [hok, hload.world]⟩
      · rw [if_neg hpasses, if_neg (by simp [hpasses])]
        exact ⟨_, rfl, hs, rfl, by simp⟩
    · rw [if_neg hmode, if_neg (by simp [hmode])]
      exact ⟨_, rfl, hs, rfl, by simp⟩

theorem does_prepare (c : CkptCall) : Does gcrPluginPrepare c (.prepare c.answers.prepare) fun _ => true := by
  intro ctx w
  refine ⟨_, rfl, (w.prepare_spec c.answers.prepare).1.trans ?_⟩
  by_cases hret : (w.gcrCheckpointPrepare c.answers.prepare).1 = 0
  · simp [hret]
  · simp [hret]

/-- Of the two phases that pass, only one is asked for. -/
theorem not_export_of_import {flags : CkptFlags} (hpasses : flags.restorePasses = true)
    (himport : (flags &&& ckptRestoreImport != 0) = true) : (flags &&& ckptRestoreExport != 0) = false := by
  have hexport : ckptRestoreExport = BitVec.twoPow 32 12 := by decide
  have himp : ckptRestoreImport = BitVec.twoPow 32 13 := by decide
  unfold CkptFlags.restorePasses at hpasses
  simp only [Bool.and_eq_true, bne_iff_ne, ne_eq, BitVec.and_or_distrib_left] at hpasses himport
  obtain ⟨-, hboth⟩ := hpasses
  rw [himp, BitVec.and_twoPow] at himport
  rw [hexport, himp, BitVec.and_twoPow, BitVec.and_twoPow] at hboth
  rw [hexport, BitVec.and_twoPow]
  split_ifs at himport hboth ⊢
  · exact absurd rfl hboth
  · exact absurd rfl himport
  · rfl
  · rfl

theorem does_restore (c : CkptCall) (hpasses : c.flags.restorePasses = true) :
    Does gcrPluginRestore c (restoreEntry c) fun b => b && !(c.flags &&& ckptRestoreImport != 0) := by
  intro ctx w
  unfold gcrPluginRestore restoreEntry
  by_cases hexport : (c.flags &&& ckptRestoreExport != 0) = true
  · rw [if_pos hexport, if_pos hexport]
    have himport : (c.flags &&& ckptRestoreImport != 0) = false := by
      by_contra h
      rw [not_export_of_import hpasses (Bool.eq_true_of_not_eq_false h)] at hexport
      exact Bool.false_ne_true hexport
    refine ⟨_, rfl, (w.kept_restoreExportRun c.answers.restoreExport).prepared.trans ?_⟩
    rw [himport]
    simp
  · rw [if_neg hexport, if_neg hexport]
    have himport : (c.flags &&& ckptRestoreImport != 0) = true := by
      have hphase := hpasses
      unfold CkptFlags.restorePasses at hphase
      simp only [Bool.and_eq_true, bne_iff_ne, ne_eq, BitVec.and_or_distrib_left] at hphase hexport ⊢
      rintro himport
      rw [not_not.1 hexport, himport] at hphase
      exact hphase.1.2 (by decide)
    rw [if_pos himport]
    refine ⟨_, rfl, (w.restoreImport_spec (c.answers.importWith c.flags)).1.trans ?_⟩
    by_cases hret : (w.gcrCheckpointRestoreImport (c.answers.importWith c.flags)).1 = 0
    · simpa [hret] using fun _ => himport
    · simp [hret]

theorem step_exit (hs : s.HasGcr) : (NcclProcess.exit s).world = s.world ∧ HasGcr (NcclProcess.exit s) := by
  unfold NcclProcess.exit
  dsimp only
  split_ifs
  · exact ⟨rfl, hs⟩
  · refine ⟨?_, ⟨fun p h => (nomatch h), fun h => nomatch h⟩⟩
    show (NcclProcess.finalizePlugin _).world = s.world
    unfold NcclProcess.finalizePlugin
    cases hplugin : s.plugin with
    | none => rfl
    | some p =>
      obtain rfl := hs.plugin p hplugin
      rfl
  · exact ⟨rfl, ⟨hs.plugin, hs.loaded⟩⟩

theorem call_spec (hs : s.HasGcr) {c : GcrCall} (hc : c.WithGcr) : ∃ r, s.call c = .ok r ∧ HasGcr r.2 ∧
    r.2.world = run GcrProcess.step s.world (s.events c) ∧ r.2.world.prepared = awaits s.world.prepared c r.1 := by
  cases c with
  | prepare c =>
    obtain ⟨r, hr, hgcr, hworld, hprep⟩ := checkpoint_spec (·.prepare) hs hc rfl fun _ => does_prepare c
    refine ⟨(some r.1, r.2), bind_eq_ok.2 ⟨r, hr, rfl⟩, hgcr, hworld, hprep.trans ?_⟩
    by_cases hnative : c.flags.isNative = true <;> by_cases hok : r.1 = .ncclSuccess <;> simp [awaits, hnative, hok]
  | restore c =>
    obtain ⟨r, hr, hgcr, hworld, hprep⟩ := checkpoint_spec (·.restore) hs hc rfl (does_restore c)
    refine ⟨(some r.1, r.2), bind_eq_ok.2 ⟨r, hr, rfl⟩, hgcr, hworld, hprep.trans ?_⟩
    by_cases hnative : c.flags.isNative = true <;> by_cases hok : r.1 = .ncclSuccess <;> simp [awaits, hnative, hok]
  | app e =>
    have hhook : ∀ e' ∈ [e], e'.IsHook := fun e' he' => List.mem_singleton.1 he' ▸ hc
    have hprep := prepared_hooks hhook s.world
    exact ⟨_, rfl, ⟨hs.plugin, hs.loaded⟩, rfl, hprep⟩
  | exit =>
    obtain ⟨hworld, hgcr⟩ := step_exit hs
    exact ⟨_, rfl, hgcr, hworld, congrArg GcrProcess.prepared hworld⟩

/-- Whatever a process calls, with whatever flags and whatever the loader finds, no call goes through a null pointer, the
runtime is left as a run of its own entry points leaves it, one for each call that passes, and it is prepared exactly if a
prepare has succeeded and no restore of the imports since. -/
theorem observed (w : GcrProcess) (calls : List GcrCall) (h : ∀ c ∈ calls, c.WithGcr) :
    ∃ evs b s', observe (NcclProcess.start w) w.prepared calls = .ok (evs, b, s') ∧
      s'.world = run GcrProcess.step w evs ∧ s'.world.prepared = b := by
  suffices hrun : ∀ s : GcrNcclProcess, s.HasGcr → ∃ evs b s', s.observe s.world.prepared calls = .ok (evs, b, s') ∧
      s'.world = run GcrProcess.step s.world evs ∧ s'.world.prepared = b from
    hrun (NcclProcess.start w) ⟨fun p h => (nomatch h), fun h => nomatch h⟩
  induction calls with
  | nil => exact fun s hs => ⟨[], s.world.prepared, s, rfl, rfl, rfl⟩
  | cons c calls ih =>
    intro s hs
    obtain ⟨r, hr, hgcr, hworld, hprep⟩ := call_spec hs (h c List.mem_cons_self)
    obtain ⟨evs, b, s', hrest, hworld', hprep'⟩ := ih (fun c' hc' => h c' (List.mem_cons_of_mem c hc')) r.2 hgcr
    rw [hprep] at hrest
    refine ⟨s.events c ++ evs, b, s', bind_eq_ok.2 ⟨r, hr, bind_eq_ok.2 ⟨_, hrest, rfl⟩⟩, ?_, hprep'⟩
    rw [hworld', hworld]
    exact (List.foldl_append ..).symm

/-- The same call, for any plugin. -/
def event : GcrCall → NcclEvent GcrCheckpointContext GcrAnswers GcrProcess
  | .prepare c => .prepare c.flags c.nativeCall c.load c.answers
  | .restore c => .restore c.flags c.nativeCall c.load c.answers
  | .app e => .app fun w => w.step e
  | .exit => .exit

theorem step_event {c : GcrCall} {r : Option NcclResult × GcrNcclProcess} (h : s.call c = .ok r) :
    NcclProcess.step s (event c) = .ok r.2 := by
  cases c with
  | prepare c =>
    obtain ⟨q, hq, hr⟩ := bind_eq_ok.1 h
    obtain rfl := Except.ok.inj hr
    exact bind_eq_ok.2 ⟨q, hq, rfl⟩
  | restore c =>
    obtain ⟨q, hq, hr⟩ := bind_eq_ok.1 h
    obtain rfl := Except.ok.inj hr
    exact bind_eq_ok.2 ⟨q, hq, rfl⟩
  | app e =>
    obtain rfl := Except.ok.inj h
    rfl
  | exit =>
    obtain rfl := Except.ok.inj h
    rfl

theorem finalizes_event {c : GcrCall} (h : c.WithGcr) : (event c).Finalizes := by
  have hload : ∀ c : CkptCall, c.WithGcr → c.load.Finalizes := by
    intro c hc name handle p hopen
    rw [hc.plugin name handle p hopen]
    rfl
  cases c with
  | prepare c => exact hload c h
  | restore c => exact hload c h
  | app e => trivial
  | exit => trivial

theorem foldlM_of_observe {b b' : Bool} {calls : List GcrCall} {evs : List GcrEvent} {s' : GcrNcclProcess}
    (h : s.observe b calls = .ok (evs, b', s')) : (calls.map event).foldlM NcclProcess.step s = .ok s' := by
  induction calls generalizing s b evs with
  | nil =>
    cases Except.ok.inj h
    rfl
  | cons c calls ih =>
    obtain ⟨r, hr, hrest⟩ := bind_eq_ok.1 h
    obtain ⟨⟨evs', b'', s''⟩, hobs, heq⟩ := bind_eq_ok.1 hrest
    obtain ⟨-, rfl, rfl⟩ : s.events c ++ evs' = evs ∧ b'' = b' ∧ s'' = s' := by simpa using Except.ok.inj heq
    rw [List.map_cons, List.foldlM_cons]
    exact bind_eq_ok.2 ⟨r.2, step_event hr, ih hobs⟩

/-- The ledger of a process with GCR's plugin. -/
theorem ledger_observed {w : GcrProcess} {b b' : Bool} {calls : List GcrCall} {evs : List GcrEvent} {s' : GcrNcclProcess}
    (hcalls : ∀ c ∈ calls, c.WithGcr) (h : observe (NcclProcess.start w) b calls = .ok (evs, b', s')) : s'.Ledger := by
  refine NcclProcess.ledger_run (s := NcclProcess.start w) ⟨NcclProcess.wf_start w, fun _ => ⟨fun _ => rfl, Nat.zero_le 1⟩⟩
    (fun e he => ?_) (foldlM_of_observe h)
  obtain ⟨c, hc, rfl⟩ := List.mem_map.1 he
  exact finalizes_event (hcalls c hc)

end Calls

/-! ### A whole cycle -/

/-- NCCL finds GCR's plugin, and everything succeeds. -/
def cycleCall (flags : CkptFlags) : CkptCall where
  flags := flags
  native := none
  load := ⟨none, fun _ => some (7, some ncclCheckpointPluginV1)⟩
  answers := ⟨⟨true, true, true, true⟩, 0x5000, GcrProcess.answering fun _ => false, GcrProcess.restoring,
    ⟨⟨fun _ => false, id, fun _ _ => 0xAA⟩, true, true, fun _ => 8, [], false⟩⟩

/-- The calls of the example of the adapter, with a call in between whose flags do not pass. -/
def cycleCalls : List GcrCall :=
  [.prepare (cycleCall 0x0004#32), .restore (cycleCall 0x3004#32), .restore (cycleCall 0x1004#32),
    .restore (cycleCall 0x2404#32), .exit]

theorem withGcr_cycleCalls : ∀ c ∈ cycleCalls, c.WithGcr := by
  have hcall : ∀ flags, (cycleCall flags).WithGcr := fun flags =>
    ⟨fun name handle p h => (Option.some.inj (Prod.mk.inj (Option.some.inj h)).2).symm, fun n hn => nomatch hn⟩
  simp [cycleCalls, GcrCall.WithGcr, hcall]

theorem observed_cycleCalls : ∃ evs b s', observe (NcclProcess.start GcrProcess.start) false cycleCalls = .ok (evs, b, s') ∧
    s'.world = run GcrProcess.step GcrProcess.start evs ∧ s'.world.prepared = b :=
  observed GcrProcess.start cycleCalls withGcr_cycleCalls

theorem ledger_cycleCalls : ∃ s : GcrNcclProcess,
    (cycleCalls.map event).foldlM NcclProcess.step (NcclProcess.start GcrProcess.start) = .ok s ∧
      Leads [] s.log s.held ∧
      (∀ log r log', s.log = log ++ .use r :: log' → log.count (.take r) = log.count (.give r) + 1) ∧
      (s.exited = false → s.opens ≤ 1 ∧ ∀ r, s.exit.log.count (.take r) = s.exit.log.count (.give r)) := by
  have hfin : ∀ e ∈ cycleCalls.map event, e.Finalizes := by
    intro e he
    obtain ⟨c, hc, rfl⟩ := List.mem_map.1 he
    exact finalizes_event (withGcr_cycleCalls c hc)
  exact ⟨_, rfl, NcclProcess.ledger_of_run GcrProcess.start _ hfin rfl⟩

end GcrNcclProcess

end GpuCr
