import GpuCr.Adapters.Gcr
import GpuCr.Lib.Ledger

/-!
# The checkpoint calls of NCCL

`ncclCommCheckpointPrepare` and `ncclCommCheckpointRestore` of `nccl_patches/checkpoint_api.cc`, the plugin loader under them
(`checkpoint.cc`) and GCR's plugin (`nccl_checkpoint_gcr_plugin.cpp`), which passes the calls on to the runtime. The loader is
that of any plugin: `κ` are the contexts it hands out, `σ` is what its callbacks act on and `ι` what they find. The log says
when a library or a context is obtained, used and given back.
-/

namespace GpuCr

open Lib.Run Lib.Ledger

/-- `ncclResult_t`, as far as these files name its values. -/
inductive NcclResult where
  | ncclSuccess
  | ncclSystemError
  | ncclInvalidUsage
  | other (code : Nat)
  deriving DecidableEq, Repr

/-! ### The flags -/

abbrev CkptFlags := BitVec 32

def ckptModeNative : CkptFlags := 0x0001#32

def ckptModeGcrGlobal : CkptFlags := 0x0004#32

def ckptModeMask : CkptFlags := ckptModeNative ||| ckptModeGcrGlobal

def ckptOptSaveData : CkptFlags := 0x0100#32

def ckptOptNoCudaCkpt : CkptFlags := 0x0200#32

def ckptOptValidate : CkptFlags := 0x0400#32

def ckptRestoreExport : CkptFlags := 0x1000#32

def ckptRestoreImport : CkptFlags := 0x2000#32

/-- `NCCL_CKPT_MODE_NATIVE` goes with no other flag. -/
def CkptFlags.isNative (flags : CkptFlags) : Bool :=
  flags &&& ckptModeMask == ckptModeNative && flags &&& ~~~ckptModeNative == 0

def CkptFlags.prepareKnown : CkptFlags := ckptModeMask ||| ckptOptSaveData ||| ckptOptNoCudaCkpt ||| ckptOptValidate

def CkptFlags.restoreKnown : CkptFlags := prepareKnown ||| ckptRestoreExport ||| ckptRestoreImport

def CkptFlags.preparePasses (flags : CkptFlags) : Bool := flags &&& ~~~prepareKnown == 0

/-- A restore has exactly one phase. -/
def CkptFlags.restorePasses (flags : CkptFlags) : Bool :=
  let restorePhase := flags &&& (ckptRestoreExport ||| ckptRestoreImport)
  flags &&& ~~~restoreKnown == 0 && restorePhase != 0 && restorePhase != (ckptRestoreExport ||| ckptRestoreImport)

/-! ### Plugins -/

/-- What would bring the process down. -/
inductive Fault where
  | nullCallback
  | nullContext
  deriving DecidableEq, Repr

/-- `prepare` and `restore` of a plugin. -/
abbrev CkptCallback (κ ι σ : Type) := Option κ → CkptFlags → ι → σ → Except Fault (NcclResult × σ)

/-- `ncclCheckpointPlugin_v1_t`, without its name. What `finalize` returns is not looked at. -/
structure NcclCheckpointPlugin (κ ι σ : Type) where
  init : Option (ι → σ → NcclResult × Option κ × σ)
  prepare : Option (CkptCallback κ ι σ)
  restore : Option (CkptCallback κ ι σ)
  finalize : Option (Option κ → σ → σ)

/-- `checkpointName` is the value of `NCCL_CHECKPOINT_PLUGIN`. `openLib` is `ncclOpenCheckpointPluginLib`, with what the
symbol of the plugin leads to in the library. -/
structure LoadAnswers (κ ι σ : Type) where
  checkpointName : Option (List Char)
  openLib : Option (List Char) → Option (Nat × Option (NcclCheckpointPlugin κ ι σ))

/-- Apart from `init`, which is not called again. -/
structure NcclCheckpointPlugin.Complete {κ ι σ : Type} (p : NcclCheckpointPlugin κ ι σ) : Prop where
  prepare : p.prepare.isSome = true
  restore : p.restore.isSome = true
  finalize : p.finalize.isSome = true

/-- A plugin that comes with `finalize`, as GCR's does. -/
def LoadAnswers.Finalizes {κ ι σ : Type} (a : LoadAnswers κ ι σ) : Prop :=
  ∀ name handle p, a.openLib name = some (handle, some p) → p.finalize.isSome = true

inductive LoadStatus where
  | failed
  | ready
  | success
  deriving DecidableEq, Repr

inductive CkptResource (κ : Type) where
  | lib (handle : Nat)
  | context (c : κ)
  deriving DecidableEq, Repr

def CkptResource.isOpening {κ : Type} : Act (CkptResource κ) → Bool
  | .take (.lib _) => true
  | _ => false

/-- `atExit` is `checkpointPluginFinalizeRegistered`. -/
structure NcclProcess (κ ι σ : Type) where
  status : LoadStatus
  lib : Option Nat
  plugin : Option (NcclCheckpointPlugin κ ι σ)
  context : Option κ
  atExit : Bool
  exited : Bool
  world : σ
  log : List (Act (CkptResource κ))

inductive NcclEvent (κ ι σ : Type) where
  | prepare (flags : CkptFlags) (native : Option (σ → NcclResult × σ)) (a : LoadAnswers κ ι σ) (x : ι)
  | restore (flags : CkptFlags) (native : Option (σ → NcclResult × σ)) (a : LoadAnswers κ ι σ) (x : ι)
  | app (f : σ → σ)
  | exit

def NcclEvent.Finalizes {κ ι σ : Type} : NcclEvent κ ι σ → Prop
  | prepare _ _ a _ => a.Finalizes
  | restore _ _ a _ => a.Finalizes
  | app _ => True
  | exit => True

namespace NcclProcess

variable {κ ι σ : Type}

def start (w : σ) : NcclProcess κ ι σ := ⟨.ready, none, none, none, false, false, w, []⟩

def held (s : NcclProcess κ ι σ) : List (CkptResource κ) :=
  s.context.toList.map .context ++ s.lib.toList.map .lib

def logs (s : NcclProcess κ ι σ) (acts : List (Act (CkptResource κ))) : NcclProcess κ ι σ := { s with log := s.log ++ acts }

/-! ### The loader -/

def ncclClosePluginLib (s : NcclProcess κ ι σ) : NcclProcess κ ι σ :=
  { s.logs (s.lib.toList.map fun h => .give (.lib h)) with lib := none }

/-- The call of `finalize`, where the plugin has one. -/
def finalizePlugin (s : NcclProcess κ ι σ) : NcclProcess κ ι σ :=
  match s.plugin.bind (·.finalize) with
  | none => s
  | some f =>
    { s.logs ((s.lib.toList.map fun h => .use (.lib h)) ++ s.context.toList.map fun c => .give (.context c)) with
      world := f s.context s.world }

def ncclCheckpointPluginFinalize (s : NcclProcess κ ι σ) : NcclProcess κ ι σ :=
  { s.finalizePlugin.ncclClosePluginLib with status := .ready, plugin := none, context := none }

/-- What stands at the label `fail`. -/
def loadFails (s : NcclProcess κ ι σ) : NcclResult × NcclProcess κ ι σ :=
  (.ncclInvalidUsage, { s.ncclClosePluginLib with status := .failed, plugin := none, context := none })

/-- The call of `init`, and what follows it. -/
def initPlugin (s : NcclProcess κ ι σ) (init : ι → σ → NcclResult × Option κ × σ) (x : ι) :
    NcclResult × NcclProcess κ ι σ :=
  let r := init x s.world
  let s := { s.logs (s.lib.toList.map fun h => .use (.lib h)) with context := r.2.1, world := r.2.2 }
  if r.1 = .ncclSuccess then
    (.ncclSuccess, { s.logs (r.2.1.toList.map fun c => .take (.context c)) with status := .success, atExit := true })
  else s.loadFails

/-- `strcasecmp(checkpointName, "none") == 0`. -/
def isNone (checkpointName : List Char) : Bool := checkpointName.map Char.toLower == ['n', 'o', 'n', 'e']

def ncclCheckpointPluginLoad (s : NcclProcess κ ι σ) (a : LoadAnswers κ ι σ) (x : ι) : NcclResult × NcclProcess κ ι σ :=
  match s.status with
  | .failed => (.ncclInvalidUsage, s)
  | .success => (.ncclSuccess, s)
  | .ready =>
    if a.checkpointName.any isNone then s.loadFails
    else
      match a.openLib a.checkpointName with
      | none => s.loadFails
      | some (handle, plugin) =>
        let s := { s.logs [.take (.lib handle)] with lib := some handle, plugin := plugin }
        match plugin with
        | none => s.loadFails
        | some p =>
          match p.init, p.prepare, p.restore with
          | some init, some _, some _ => s.initPlugin init x
          | _, _, _ => s.loadFails

/-- `ncclCheckpointPluginPrepare` and `ncclCheckpointPluginRestore`; `entry` picks the callback. -/
def ncclCheckpointPlugin (entry : NcclCheckpointPlugin κ ι σ → Option (CkptCallback κ ι σ)) (s : NcclProcess κ ι σ)
    (flags : CkptFlags) (a : LoadAnswers κ ι σ) (x : ι) : Except Fault (NcclResult × NcclProcess κ ι σ) :=
  let r := s.ncclCheckpointPluginLoad a x
  let s := r.2
  if r.1 ≠ .ncclSuccess then .ok (r.1, s)
  else
    match s.plugin with
    | none => .ok (.ncclInvalidUsage, s)
    | some p =>
      match entry p with
      | none => .error .nullCallback
      | some f => do
        let r ← f s.context flags x s.world
        pure (r.1, { s.logs (s.held.map .use) with world := r.2 })

/-! ### The calls -/

/-- `ncclCommCheckpointPrepare` and `ncclCommCheckpointRestore`. `native` is the call of NCCL itself, where it has one. -/
def ncclCommCheckpoint (passes : CkptFlags → Bool) (entry : NcclCheckpointPlugin κ ι σ → Option (CkptCallback κ ι σ))
    (s : NcclProcess κ ι σ) (flags : CkptFlags) (native : Option (σ → NcclResult × σ)) (a : LoadAnswers κ ι σ) (x : ι) :
    Except Fault (NcclResult × NcclProcess κ ι σ) :=
  if flags.isNative then
    match native with
    | some f => .ok ((f s.world).1, { s with world := (f s.world).2 })
    | none => .ok (.ncclInvalidUsage, s)
  else if flags &&& ckptModeMask == ckptModeGcrGlobal then
    if passes flags then ncclCheckpointPlugin entry s flags a x else .ok (.ncclInvalidUsage, s)
  else .ok (.ncclInvalidUsage, s)

def ncclCommCheckpointPrepare : NcclProcess κ ι σ → CkptFlags → Option (σ → NcclResult × σ) → LoadAnswers κ ι σ → ι →
    Except Fault (NcclResult × NcclProcess κ ι σ) :=
  ncclCommCheckpoint CkptFlags.preparePasses (·.prepare)

def ncclCommCheckpointRestore : NcclProcess κ ι σ → CkptFlags → Option (σ → NcclResult × σ) → LoadAnswers κ ι σ → ι →
    Except Fault (NcclResult × NcclProcess κ ι σ) :=
  ncclCommCheckpoint CkptFlags.restorePasses (·.restore)

/-- The handlers of `atexit` run once. -/
def exit (s : NcclProcess κ ι σ) : NcclProcess κ ι σ :=
  if s.exited then s
  else
    let s := { s with exited := true }
    if s.atExit then s.ncclCheckpointPluginFinalize else s

def step (s : NcclProcess κ ι σ) : NcclEvent κ ι σ → Except Fault (NcclProcess κ ι σ)
  | .prepare flags native a x => do
    let r ← s.ncclCommCheckpointPrepare flags native a x
    pure r.2
  | .restore flags native a x => do
    let r ← s.ncclCommCheckpointRestore flags native a x
    pure r.2
  | .app f => .ok { s with world := f s.world }
  | .exit => .ok s.exit

/-! ### What a call does -/

section Calls
variable {s : NcclProcess κ ι σ} {a : LoadAnswers κ ι σ} {x : ι}

/-- A call acts on the world without the loader, or ends with the load, or passes it and uses the plugin. -/
inductive CallEffect (s : NcclProcess κ ι σ) (a : LoadAnswers κ ι σ) (x : ι) : NcclProcess κ ι σ → Prop
  | outside (w : σ) : CallEffect s a x { s with world := w }
  | refused : CallEffect s a x (s.ncclCheckpointPluginLoad a x).2
  | called (w : σ) : CallEffect s a x
      { (s.ncclCheckpointPluginLoad a x).2.logs ((s.ncclCheckpointPluginLoad a x).2.held.map .use) with world := w }

theorem callEffect {passes : CkptFlags → Bool} {entry : NcclCheckpointPlugin κ ι σ → Option (CkptCallback κ ι σ)}
    {flags : CkptFlags} {native : Option (σ → NcclResult × σ)} {r : NcclResult × NcclProcess κ ι σ}
    (h : ncclCommCheckpoint passes entry s flags native a x = .ok r) : CallEffect s a x r.2 := by
  unfold ncclCommCheckpoint at h
  split_ifs at h with hnative hmode hpasses
  · split at h
    · obtain rfl := Except.ok.inj h
      exact .outside _
    · obtain rfl := Except.ok.inj h
      exact .outside s.world
  · unfold ncclCheckpointPlugin at h
    dsimp only at h
    split_ifs at h with hload
    · obtain rfl := Except.ok.inj h
      exact .refused
    · split at h
      · obtain rfl := Except.ok.inj h
        exact .refused
      · split at h
        · cases h
        · obtain ⟨u, -, hu⟩ := bind_eq_ok.1 h
          obtain rfl := Except.ok.inj hu
          exact .called u.2
  · obtain rfl := Except.ok.inj h
    exact .outside s.world
  · obtain rfl := Except.ok.inj h
    exact .outside s.world

end Calls

/-! ### The ledger -/

section Wf
variable [DecidableEq κ] {s s' : NcclProcess κ ι σ} {a : LoadAnswers κ ι σ} {x : ι}

/-- The statics fit together: they are set with the status `success` and cleared with the others. -/
structure Wf (s : NcclProcess κ ι σ) : Prop where
  leads : Leads [] s.log s.held
  idle : s.status ≠ .success → s.plugin = none ∧ s.lib = none ∧ s.context = none
  loaded : s.status = .success → s.atExit = true ∧ ∃ h p, s.lib = some h ∧ s.plugin = some p ∧ p.Complete

theorem wf_start (w : σ) : (start w : NcclProcess κ ι σ).Wf where
  leads := .nil []
  idle _ := ⟨rfl, rfl, rfl⟩
  loaded h := nomatch h

theorem leads_close (h : Leads [] s.log (s.lib.toList.map .lib)) : Leads [] s.ncclClosePluginLib.log [] := by
  refine h.append ?_
  cases s.lib with
  | none => exact .nil []
  | some handle =>
    have hgive := Leads.give (List.mem_singleton_self (CkptResource.lib (κ := κ) handle))
    rwa [List.erase_cons_head] at hgive

theorem wf_loadFails (h : Leads [] s.log (s.lib.toList.map .lib)) : s.loadFails.2.Wf where
  leads := leads_close h
  idle _ := ⟨rfl, rfl, rfl⟩
  loaded h := nomatch h

theorem wf_initPlugin {handle : Nat} {p : NcclCheckpointPlugin κ ι σ} (h : Leads [] s.log [.lib handle])
    (hlib : s.lib = some handle) (hplugin : s.plugin = some p) (hp : p.Complete)
    (init : ι → σ → NcclResult × Option κ × σ) :
    (s.initPlugin init x).2.Wf ∧
      ((s.initPlugin init x).1 = .ncclSuccess ↔ (s.initPlugin init x).2.status = .success) := by
  have huse : Leads [] (s.logs (s.lib.toList.map fun h => .use (.lib h))).log [.lib handle] := by
    rw [hlib]
    exact h.append (.use (List.mem_singleton_self _))
  unfold initPlugin
  dsimp only
  split_ifs with hinit
  · refine ⟨⟨?_, fun hne => absurd rfl hne, fun _ => ⟨rfl, handle, p, hlib, hplugin, hp⟩⟩, iff_of_true rfl rfl⟩
    show Leads [] ((s.log ++ _) ++ _) (_ ++ s.lib.toList.map CkptResource.lib)
    refine huse.append ?_
    rw [hlib]
    cases (init x s.world).2.1 with
    | none => exact .nil _
    | some c => exact .take (by simp)
  · refine ⟨wf_loadFails ?_, iff_of_false NcclResult.noConfusion LoadStatus.noConfusion⟩
    show Leads [] _ (s.lib.toList.map CkptResource.lib)
    rw [hlib] at huse ⊢
    exact huse

theorem wf_load (hs : s.Wf) (ha : a.Finalizes) :
    (s.ncclCheckpointPluginLoad a x).2.Wf ∧
      ((s.ncclCheckpointPluginLoad a x).1 = .ncclSuccess ↔ (s.ncclCheckpointPluginLoad a x).2.status = .success) := by
  unfold ncclCheckpointPluginLoad
  split
  · rename_i hstatus
    exact ⟨hs, iff_of_false NcclResult.noConfusion (by rw [hstatus]; exact LoadStatus.noConfusion)⟩
  · rename_i hstatus
    exact ⟨hs, iff_of_true rfl hstatus⟩
  · rename_i hstatus
    obtain ⟨hplugin, hlib, hctx⟩ := hs.idle (by rw [hstatus]; exact LoadStatus.noConfusion)
    have hlog : Leads [] s.log [] := by
      have h := hs.leads
      rwa [held, hctx, hlib] at h
    have hfails : ∀ t : NcclProcess κ ι σ, Leads [] t.log (t.lib.toList.map .lib) →
        t.loadFails.2.Wf ∧ (t.loadFails.1 = .ncclSuccess ↔ t.loadFails.2.status = .success) := fun t ht =>
      ⟨wf_loadFails ht, iff_of_false NcclResult.noConfusion LoadStatus.noConfusion⟩
    split_ifs with hnone
    · exact hfails s (by rwa [hlib])
    · split
      · exact hfails s (by rwa [hlib])
      · rename_i handle plugin hopen
        have htake : Leads [] (s.log ++ [.take (.lib handle)]) [.lib handle] := hlog.append (.take List.not_mem_nil)
        dsimp only
        split
        · exact hfails _ htake
        · rename_i p
          split
          · rename_i init prepare restore hinit hprepare hrestore
            exact wf_initPlugin htake rfl rfl
              ⟨by rw [hprepare]; rfl, by rw [hrestore]; rfl, ha _ _ p hopen⟩ init
          · exact hfails _ htake

theorem wf_finalize (hs : s.Wf) : s.ncclCheckpointPluginFinalize.Wf ∧ s.ncclCheckpointPluginFinalize.held = [] := by
  have hlog : Leads [] s.ncclCheckpointPluginFinalize.log [] := by
    refine leads_close (s := s.finalizePlugin) ?_
    by_cases hstatus : s.status = .success
    · obtain ⟨-, h, p, hlib, hplugin, -, -, hfin⟩ := hs.loaded hstatus
      obtain ⟨f, hf⟩ := Option.isSome_iff_exists.1 hfin
      have hbind : s.plugin.bind (·.finalize) = some f := by rw [hplugin]; exact hf
      have hheld := hs.leads
      unfold finalizePlugin
      rw [hbind]
      show Leads [] (s.log ++ _) (s.lib.toList.map .lib)
      refine hheld.append ?_
      rw [held, hlib]
      refine Leads.append (.use (by simp)) ?_
      cases s.context with
      | none => exact .nil _
      | some c =>
        have hgive := Leads.give (List.mem_cons_self (a := CkptResource.context c) (l := [.lib h]))
        rwa [List.erase_cons_head] at hgive
    · obtain ⟨hplugin, hlib, hctx⟩ := hs.idle hstatus
      have hheld := hs.leads
      unfold finalizePlugin
      rw [hplugin]
      rw [held, hctx] at hheld
      exact hheld
  exact ⟨⟨hlog, fun _ => ⟨rfl, rfl, rfl⟩, fun h => nomatch h⟩, rfl⟩

theorem CallEffect.wf (h : CallEffect s a x s') (hs : s.Wf) (ha : a.Finalizes) : s'.Wf := by
  obtain ⟨hload, -⟩ := wf_load (x := x) hs ha
  cases h with
  | outside w => exact ⟨hs.leads, hs.idle, hs.loaded⟩
  | refused => exact hload
  | called w => exact ⟨hload.leads.append (.uses fun r hr => hr), hload.idle, hload.loaded⟩

theorem wf_exit (hs : s.Wf) : s.exit.Wf := by
  have hexited : ({ s with exited := true } : NcclProcess κ ι σ).Wf := ⟨hs.leads, hs.idle, hs.loaded⟩
  unfold exit
  dsimp only
  split_ifs
  · exact hs
  · exact (wf_finalize hexited).1
  · exact hexited

theorem wf_step {e : NcclEvent κ ι σ} (hs : s.Wf) (he : e.Finalizes) (h : s.step e = .ok s') : s'.Wf := by
  cases e with
  | prepare flags native a x =>
    obtain ⟨r, hr, hs'⟩ := bind_eq_ok.1 h
    obtain rfl := Except.ok.inj hs'
    exact (callEffect hr).wf hs he
  | restore flags native a x =>
    obtain ⟨r, hr, hs'⟩ := bind_eq_ok.1 h
    obtain rfl := Except.ok.inj hs'
    exact (callEffect hr).wf hs he
  | app f =>
    obtain rfl := Except.ok.inj h
    exact ⟨hs.leads, hs.idle, hs.loaded⟩
  | exit =>
    obtain rfl := Except.ok.inj h
    exact wf_exit hs

/-! ### One library -/

/-- How often a library has been opened. -/
def opens (s : NcclProcess κ ι σ) : Nat := s.log.countP CkptResource.isOpening

omit [DecidableEq κ] in
theorem opens_loadFails : s.loadFails.2.opens = s.opens := by
  show List.countP _ (s.log ++ _) = _
  cases s.lib <;> simp [opens, CkptResource.isOpening]

omit [DecidableEq κ] in
theorem opens_initPlugin (init : ι → σ → NcclResult × Option κ × σ) : (s.initPlugin init x).2.opens = s.opens := by
  unfold initPlugin
  dsimp only
  split_ifs
  · show List.countP _ ((s.log ++ _) ++ _) = _
    cases s.lib <;> cases (init x s.world).2.1 <;> simp [opens, CkptResource.isOpening]
  · refine opens_loadFails.trans ?_
    show List.countP _ (s.log ++ _) = _
    cases s.lib <;> simp [opens, CkptResource.isOpening]

/-- Before the process exits, the loader is ready only as long as it has not opened a library, and it opens one at most. -/
structure Once (s : NcclProcess κ ι σ) : Prop where
  ready : s.status = .ready → s.opens = 0
  opened : s.opens ≤ 1

omit [DecidableEq κ] in
theorem once_load (hs : s.Once) : (s.ncclCheckpointPluginLoad a x).2.Once := by
  unfold ncclCheckpointPluginLoad
  split
  · exact hs
  · exact hs
  · rename_i hstatus
    have hzero := hs.ready hstatus
    have hfails : ∀ t : NcclProcess κ ι σ, t.opens ≤ 1 → t.loadFails.2.Once := fun t ht =>
      ⟨fun h => absurd h LoadStatus.noConfusion, (opens_loadFails (s := t)).le.trans ht⟩
    split_ifs
    · exact hfails s hs.opened
    · split
      · exact hfails s hs.opened
      · rename_i handle plugin hopen
        have hone : List.countP CkptResource.isOpening (s.logs [.take (.lib handle)]).log ≤ 1 := by
          refine (List.countP_append ..).le.trans ?_
          exact Nat.add_le_add hzero.le (Nat.le_refl 1)
        dsimp only
        split
        · exact hfails _ hone
        · split
          · refine ⟨fun h => absurd h ?_, (opens_initPlugin _).le.trans hone⟩
            unfold initPlugin
            dsimp only
            split_ifs
            · exact not_false
            · exact LoadStatus.noConfusion
          · exact hfails _ hone

omit [DecidableEq κ] in
theorem CallEffect.once (h : CallEffect s a x s') (hs : s.Once) : s'.Once := by
  have hload := once_load (a := a) (x := x) hs
  cases h with
  | outside w => exact ⟨hs.ready, hs.opened⟩
  | refused => exact hload
  | called w =>
    generalize (s.ncclCheckpointPluginLoad a x).2 = t at hload
    have hopens : (t.logs (t.held.map .use)).opens = t.opens := by
      refine (List.countP_append ..).trans (Nat.add_eq_left.2 (List.countP_eq_zero.2 ?_))
      intro act hact
      obtain ⟨r, -, rfl⟩ := List.mem_map.1 hact
      exact Bool.false_ne_true
    exact ⟨fun h => hopens.trans (hload.ready h), hopens.le.trans hload.opened⟩

/-- Only the exit of the process ends the time in which there is one library. -/
structure Ledger (s : NcclProcess κ ι σ) : Prop where
  wf : s.Wf
  once : s.exited = false → s.Once

omit [DecidableEq κ] in
theorem CallEffect.exited_eq (h : CallEffect s a x s') : s'.exited = s.exited := by
  have hfails : ∀ t : NcclProcess κ ι σ, t.loadFails.2.exited = t.exited := fun t => rfl
  have hload : (s.ncclCheckpointPluginLoad a x).2.exited = s.exited := by
    unfold ncclCheckpointPluginLoad initPlugin
    dsimp only
    split
    · rfl
    · rfl
    · split_ifs
      · rfl
      · split
        · rfl
        · split
          · rfl
          · split
            · split_ifs <;> rfl
            · rfl
  cases h with
  | outside w => rfl
  | refused => exact hload
  | called w => exact hload

omit [DecidableEq κ] in
theorem exited_exit : s.exit.exited = true := by
  unfold exit
  dsimp only
  split_ifs with hexited
  · exact hexited
  · show (finalizePlugin _).exited = true
    unfold finalizePlugin
    split <;> rfl
  · rfl

theorem ledger_step {e : NcclEvent κ ι σ} (hs : s.Ledger) (he : e.Finalizes) (h : s.step e = .ok s') : s'.Ledger := by
  refine ⟨wf_step hs.wf he h, fun hexited => ?_⟩
  have hcall : ∀ {a : LoadAnswers κ ι σ} {x : ι}, CallEffect s a x s' → s'.Once := fun heff =>
    heff.once (hs.once (heff.exited_eq.symm.trans hexited))
  cases e with
  | prepare flags native a x =>
    obtain ⟨r, hr, hs'⟩ := bind_eq_ok.1 h
    obtain rfl := Except.ok.inj hs'
    exact hcall (callEffect hr)
  | restore flags native a x =>
    obtain ⟨r, hr, hs'⟩ := bind_eq_ok.1 h
    obtain rfl := Except.ok.inj hs'
    exact hcall (callEffect hr)
  | app f =>
    obtain rfl := Except.ok.inj h
    exact ⟨(hs.once hexited).ready, (hs.once hexited).opened⟩
  | exit =>
    obtain rfl := Except.ok.inj h
    rw [exited_exit] at hexited
    cases hexited

theorem ledger_run {events : List (NcclEvent κ ι σ)} (hs : s.Ledger) (hfin : ∀ e ∈ events, e.Finalizes)
    (h : events.foldlM step s = .ok s') : s'.Ledger := by
  induction events generalizing s with
  | nil =>
    obtain rfl := Except.ok.inj h
    exact hs
  | cons e events ih =>
    rw [List.foldlM_cons] at h
    obtain ⟨t, ht, hrest⟩ := bind_eq_ok.1 h
    exact ih (ledger_step hs (hfin e List.mem_cons_self) ht) (fun e' he' => hfin e' (List.mem_cons_of_mem e he')) hrest

theorem held_exit (hs : s.Wf) (hexited : s.exited = false) : s.exit.held = [] := by
  unfold exit
  rw [hexited, if_neg Bool.false_ne_true]
  dsimp only
  split_ifs with hatExit
  · exact (wf_finalize (s := { s with exited := true }) ⟨hs.leads, hs.idle, hs.loaded⟩).2
  · obtain ⟨-, hlib, hctx⟩ := hs.idle fun hstatus => hatExit (hs.loaded hstatus).1
    show s.context.toList.map CkptResource.context ++ s.lib.toList.map CkptResource.lib = []
    rw [hlib, hctx]
    rfl

/-- Whatever calls a process makes with whatever plugins that come with `finalize`: no callback is called but between the
`init` and the `finalize` of its plugin, with the context that `init` gave out and the library open, and what is obtained
is given back once, at the latest when the process exits. Until then one library is opened at most. -/
theorem ledger_of_run (w : σ) (events : List (NcclEvent κ ι σ)) (hfin : ∀ e ∈ events, e.Finalizes)
    {s : NcclProcess κ ι σ} (h : events.foldlM step (start w) = .ok s) :
    Leads [] s.log s.held ∧
      (∀ log r log', s.log = log ++ .use r :: log' → log.count (.take r) = log.count (.give r) + 1) ∧
      (s.exited = false → s.opens ≤ 1 ∧ ∀ r, s.exit.log.count (.take r) = s.exit.log.count (.give r)) := by
  have hledger : s.Ledger :=
    ledger_run ⟨wf_start w, fun _ => ⟨fun _ => rfl, Nat.zero_le 1⟩⟩ hfin h
  refine ⟨hledger.wf.leads, fun log r log' hlog => ?_, fun hexited => ⟨(hledger.once hexited).opened, ?_⟩⟩
  · have hleads := hledger.wf.leads
    rw [hlog] at hleads
    exact hleads.count_of_use
  · have hleads := (wf_exit hledger.wf).leads
    rw [held_exit hledger.wf hexited] at hleads
    exact hleads.count_eq

end Wf

end NcclProcess

end GpuCr
