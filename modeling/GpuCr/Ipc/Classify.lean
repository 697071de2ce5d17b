import GpuCr.Ipc.Alias

/-!
# Imports and own allocations

`cuMemMap` takes a handle for an import if `g_imported_handles` has it. A teardown releases handles
through the driver and leaves their values in the tables, and a rebuild leaves the values that it
replaces. Such values are dead, and do no harm for as long as the driver does not hand them out again to
something of the other kind.
-/

namespace GpuCr

open Lib.Run Lib.Grouping Std

/-- Where a live handle comes from: a call of the application, or a rebuild. -/
inductive HandleOrigin where
  | created
  | imported
  | rebuilt
  | reimported
  deriving DecidableEq, Repr

/-- The origin of a handle that the event brings; other calls bring none. -/
def CycleEvent.origin : CycleEvent → HandleOrigin
  | .call (.importHandle _) => .imported
  | .call _ => .created
  | .stage (.importPeers _ _) => .reimported
  | .stage _ => .rebuilt

/-- The event is a teardown or a rebuild. -/
def CycleEvent.isStage : CycleEvent → Bool
  | .call _ => false
  | .stage _ => true

/-- The process, with the origins of the live handles, and whether what had a value last was released by a teardown or a
rebuild. No code reads these. -/
structure TrackedProcess where
  hooks : HookedProcess
  origin : Nat → Option HandleOrigin
  byStage : Nat → Bool

/-- The driver hands `h` out. -/
def HookedProcess.Gains (s s' : HookedProcess) (h : Nat) : Prop :=
  s.ipc.drv.isLive h = false ∧ s'.ipc.drv.isLive h = true

namespace TrackedProcess

def step (s : TrackedProcess) (e : CycleEvent) : TrackedProcess where
  hooks := s.hooks.cycleStep e
  origin h :=
    if (s.hooks.cycleStep e).ipc.drv.isLive h then
      if s.hooks.ipc.drv.isLive h then s.origin h else some e.origin
    else none
  byStage h :=
    if (s.hooks.cycleStep e).ipc.drv.isLive h then false
    else if s.hooks.ipc.drv.isLive h then e.isStage
    else s.byStage h

/-- The driver hands out no value that a table still has for something of the other kind: a creation and the rebuild of
an own allocation get none of `g_imported_handles`, imports none of `g_created_allocs`, and an import of the application
none that has an alias or is the `app_local_handle` of an export either. -/
def HandsOutApart (s : TrackedProcess) (e : CycleEvent) : Prop :=
  ∀ h, s.hooks.Gains (s.hooks.cycleStep e) h →
    ((e.origin = .created ∨ e.origin = .rebuilt) → h ∉ s.hooks.importedHandles) ∧
    ((e.origin = .imported ∨ e.origin = .reimported) → h ∉ s.hooks.ipc.createdAllocs) ∧
    (e.origin = .imported → s.hooks.ipc.rebuiltHandleAlias[h]? = none ∧
      ∀ rec ∈ s.hooks.ipc.exports, rec.appLocalHandle ≠ h)

/-- The two tables are right about every live handle they have, and what they have besides was released by a teardown or
a rebuild. -/
structure Classified (s : TrackedProcess) : Prop where
  imported : ∀ h ∈ s.hooks.importedHandles, s.hooks.ipc.drv.isLive h = true →
    s.origin h = some .imported ∨ s.origin h = some .reimported
  created : ∀ h ∈ s.hooks.ipc.createdAllocs, s.hooks.ipc.drv.isLive h = true →
    s.origin h = some .created ∨ s.origin h = some .rebuilt
  dead : ∀ h, h ∈ s.hooks.importedHandles ∨ h ∈ s.hooks.ipc.createdAllocs → s.hooks.ipc.drv.isLive h = false →
    s.byStage h = true

/-- Moreover the application's imports are in their table, and no alias or export can take them out. -/
structure Inv (s : TrackedProcess) : Prop extends s.Classified where
  live : ∀ h, s.origin h = some .imported → s.hooks.ipc.drv.isLive h = true
  listed : ∀ h, s.origin h = some .imported → h ∈ s.hooks.importedHandles
  noAlias : ∀ h, s.origin h = some .imported → s.hooks.ipc.rebuiltHandleAlias[h]? = none
  noProp : ∀ h, s.origin h = some .imported → ∀ rec ∈ s.hooks.ipc.exports, rec.appLocalHandle = h →
    rec.hasSavedProp = false

end TrackedProcess

/-! ### What an event does to the tables -/

namespace HookedProcess

structure Moves (s s' : HookedProcess) (e : CycleEvent) : Prop where
  imported : ∀ h ∈ s'.importedHandles, h ∈ s.importedHandles ∨ e.origin = .imported ∧ s.Gains s' h
  created : ∀ h ∈ s'.ipc.createdAllocs, h ∈ s.ipc.createdAllocs ∨
    (e.origin = .created ∨ e.origin = .rebuilt) ∧ s.Gains s' h
  kept : ∀ h ∈ s.importedHandles, s'.ipc.drv.isLive h = true → s.ipc.rebuiltHandleAlias[h]? = none →
    h ∈ s'.importedHandles
  aliases : ∀ h, s'.ipc.rebuiltHandleAlias[h]? ≠ none → s.ipc.rebuiltHandleAlias[h]? ≠ none ∨
    ∃ rec ∈ s.ipc.exports, rec.hasSavedProp = true ∧ rec.appLocalHandle = h
  records : ∀ rec ∈ s'.ipc.exports,
    (∃ rec' ∈ s.ipc.exports, rec'.appLocalHandle = rec.appLocalHandle ∧ rec'.hasSavedProp = rec.hasSavedProp) ∨
      s.ipc.drv.isLive rec.appLocalHandle = true ∧
        rec.hasSavedProp = s.ipc.createdAllocs[rec.appLocalHandle]?.isSome
  fresh : e.origin = .imported → ∀ h, s.Gains s' h →
    h ∈ s'.importedHandles ∧ s'.ipc.rebuiltHandleAlias = s.ipc.rebuiltHandleAlias ∧ s'.ipc.exports = s.ipc.exports

section Calls
variable {s : HookedProcess}

theorem recordRelease_importedHandles (s : HookedProcess) (d : Driver) (handle actual h : Nat) :
    h ∈ (s.recordRelease d handle actual).importedHandles ↔ h ∈ s.importedHandles ∧ h ≠ handle ∧ h ≠ actual := by
  unfold recordRelease
  dsimp only
  split_ifs with hne
  · show h ∈ List.filter _ (List.filter _ _) ↔ _
    simp only [List.mem_filter, bne_iff_ne]
    exact and_assoc
  · show h ∈ List.filter _ _ ↔ _
    rw [not_not] at hne
    simp only [List.mem_filter, bne_iff_ne, hne, and_self]
    rfl

theorem recordRelease_createdAllocs (s : HookedProcess) (d : Driver) {handle actual h : Nat}
    (hmem : h ∈ (s.recordRelease d handle actual).ipc.createdAllocs) : h ∈ s.ipc.createdAllocs ∧ h ≠ actual := by
  have herase : ∀ {t : ExtTreeMap Nat CuMemCreateRecord}, h ∈ t.erase actual → h ∈ t ∧ h ≠ actual := by
    intro t hmem
    rw [ExtTreeMap.mem_erase] at hmem
    refine ⟨hmem.2, ?_⟩
    rintro rfl
    exact hmem.1 (Std.compare_eq_iff_eq.2 rfl)
  unfold recordRelease at hmem
  dsimp only at hmem
  split_ifs at hmem with hne
  · obtain ⟨hmem, hactual⟩ := herase hmem
    exact ⟨ExtTreeMap.mem_of_mem_erase hmem, hactual⟩
  · obtain rfl := not_not.1 hne
    exact herase hmem

theorem isLive_call (s : HookedProcess) (c : HookCall) {h : Nat} (hlive : s.ipc.drv.isLive h = true)
    (hmem : h ∈ (s.call c).importedHandles ∨ h ∈ (s.call c).ipc.createdAllocs) :
    (s.call c).ipc.drv.isLive h = true := by
  have heff := s.call_effect c
  generalize s.call c = s' at heff hmem
  cases heff with
  | rejected hd => exact (hd.live h).trans hlive
  | plain hd => exact hd.keeps hlive
  | created hd hpos => exact hd.keeps hlive
  | exported hd hlive' hfd => exact (hd.live h).trans hlive
  | imported hd => exact hd.keeps hlive
  | mapped hd =>
    rw [recordMap_drv]
    exact (hd.live h).trans hlive
  | unmapped hd => exact (hd.live h).trans hlive
  | released hd =>
    rw [recordRelease_drv, hd.live, hlive, Bool.true_and, bne_iff_ne]
    rcases hmem with hmem | hmem
    · exact ((recordRelease_importedHandles ..).1 hmem).2.2
    · exact (s.recordRelease_createdAllocs _ hmem).2
  | access hd => exact (hd.live h).trans hlive

end Calls

end HookedProcess

/-! ### What a rebuild does to the tables -/

namespace IpcState

section Rebuild
variable {s : IpcState}

theorem trackExport_tables (s : IpcState) (e : RebuildEntry) :
    (∀ h ∈ (s.trackExport e).createdAllocs, h ∈ s.createdAllocs ∨ h = e.newHandle) ∧
      (∀ h v, (s.trackExport e).rebuiltHandleAlias[h]? = some v → s.rebuiltHandleAlias[h]? = some v ∨
        v = e.newHandle ∧ ∃ rec, s.exports[e.slot.key]? = some rec ∧ rec.appLocalHandle = h) ∧
      ∀ (i : Nat) (rec : IpcExportRecord), (s.trackExport e).exports[i]? = some rec → ∃ rec',
        s.exports[i]? = some rec' ∧ rec'.appLocalHandle = rec.appLocalHandle ∧ rec'.hasSavedProp = rec.hasSavedProp := by
  cases hrec : s.exports[e.slot.key]? with
  | none =>
    rw [trackExport_none hrec]
    exact ⟨fun h hmem => Or.inl hmem, fun h v hv => Or.inl hv, fun i rec hrec => ⟨rec, hrec, rfl, rfl⟩⟩
  | some rec =>
    obtain ⟨⟨fd, hexports⟩, halias⟩ := trackExport_eq hrec
    refine ⟨fun h hmem => ?_, fun h v hv => ?_, fun i rec' hrec' => ?_⟩
    · have hcreated : (s.trackExport e).createdAllocs = s.createdAllocs.insert e.newHandle ⟨rec.mappedSize, rec.savedProp⟩ := by
        unfold trackExport
        rw [hrec]
      rw [hcreated] at hmem
      rcases ExtTreeMap.mem_insert.1 hmem with heq | hmem
      · exact Or.inr (Std.compare_eq_iff_eq.1 heq).symm
      · exact Or.inl hmem
    · rw [halias] at hv
      split_ifs at hv
      · rw [getElem?_insert_key] at hv
        split_ifs at hv with heq
        · exact Or.inr ⟨(Option.some.inj hv).symm, rec, rfl, heq.symm⟩
        · exact Or.inl hv
      · exact Or.inl hv
    · rw [hexports, List.getElem?_set] at hrec'
      split_ifs at hrec' with hi
      · subst hi
        obtain rfl := Option.some.inj hrec'
        exact ⟨rec, hrec, rfl, rfl⟩
      · exact ⟨rec', hrec', rfl, rfl⟩

theorem foldl_trackExport_tables (entries : List RebuildEntry) (s : IpcState) :
    (∀ h ∈ (entries.foldl trackExport s).createdAllocs, h ∈ s.createdAllocs ∨ ∃ e ∈ entries, h = e.newHandle) ∧
      (∀ h v, (entries.foldl trackExport s).rebuiltHandleAlias[h]? = some v → s.rebuiltHandleAlias[h]? = some v ∨
        ∃ e ∈ entries, v = e.newHandle ∧ ∃ rec, s.exports[e.slot.key]? = some rec ∧ rec.appLocalHandle = h) ∧
      ∀ (i : Nat) (rec : IpcExportRecord), (entries.foldl trackExport s).exports[i]? = some rec → ∃ rec',
        s.exports[i]? = some rec' ∧ rec'.appLocalHandle = rec.appLocalHandle ∧ rec'.hasSavedProp = rec.hasSavedProp := by
  induction entries generalizing s with
  | nil => exact ⟨fun h hmem => Or.inl hmem, fun h v hv => Or.inl hv, fun i rec hrec => ⟨rec, hrec, rfl, rfl⟩⟩
  | cons e entries ih =>
    obtain ⟨hcreated, halias, hrecs⟩ := s.trackExport_tables e
    obtain ⟨ih1, ih2, ih3⟩ := ih (s.trackExport e)
    refine ⟨fun h hmem => ?_, fun h v hv => ?_, fun i rec hrec => ?_⟩
    · rcases ih1 h hmem with hmem | ⟨e', he', rfl⟩
      · exact (hcreated h hmem).imp_right fun heq => ⟨e, List.mem_cons_self .., heq⟩
      · exact Or.inr ⟨e', List.mem_cons_of_mem _ he', rfl⟩
    · rcases ih2 h v hv with hv | ⟨e', he', hnew, rec, hrec, rfl⟩
      · exact (halias h v hv).imp_right fun hrec => ⟨e, List.mem_cons_self .., hrec⟩
      · obtain ⟨rec', hrec', happ, -⟩ := hrecs _ rec hrec
        exact Or.inr ⟨e', List.mem_cons_of_mem _ he', hnew, rec', hrec', happ⟩
    · obtain ⟨rec₁, hrec₁, happ₁, hprop₁⟩ := ih3 i rec hrec
      obtain ⟨rec₂, hrec₂, happ₂, hprop₂⟩ := hrecs i rec₁ hrec₁
      exact ⟨rec₂, hrec₂, happ₂.trans happ₁, hprop₂.trans hprop₁⟩

theorem rebuildExports_eq (hfns : (s.fns.cuMemCreate && s.fns.cuMemMap && s.fns.cuMemcpyHtoD &&
    s.fns.cuMemAddressReserve) = true) (buf : HostBuf) :
    (s.ipcRebuildAndRestoreAllExports buf).2 =
      ((rebuildAlloc s.exportItems s.drv).ordered.foldl trackExport
        { s with drv := (rebuildCopy s.fns buf (rebuildAlloc s.exportItems s.drv)).drv }).forget true
          (rebuildAlloc s.exportItems s.drv).entries := by
  rw [ipcRebuildAndRestoreAllExports, hfns]
  rfl

end Rebuild

end IpcState

namespace HookedProcess

section Stages
variable {s : HookedProcess}

end Stages

end HookedProcess

namespace TrackedProcess

/-- What is dead in a table has died in a teardown or a rebuild. -/
theorem Classified.dead_step {s : TrackedProcess} (h : s.Classified) {e : CycleEvent}
    (hmoves : s.hooks.Moves (s.hooks.cycleStep e) e) (k : Nat)
    (hk : k ∈ (s.step e).hooks.importedHandles ∨ k ∈ (s.step e).hooks.ipc.createdAllocs)
    (hdead : (s.step e).hooks.ipc.drv.isLive k = false) : (s.step e).byStage k = true := by
  have hbyStage : (s.step e).byStage k = if s.hooks.ipc.drv.isLive k then e.isStage else s.byStage k :=
    if_neg (by rw [show (s.hooks.cycleStep e).ipc.drv.isLive k = false from hdead]; exact Bool.false_ne_true)
  have hnotGains : ¬ s.hooks.Gains (s.hooks.cycleStep e) k :=
    fun hgains => absurd (hdead.symm.trans hgains.2) Bool.false_ne_true
  have hk' : k ∈ s.hooks.importedHandles ∨ k ∈ s.hooks.ipc.createdAllocs :=
    hk.imp (fun hk => (hmoves.imported k hk).resolve_right fun hnew => hnotGains hnew.2)
      fun hk => (hmoves.created k hk).resolve_right fun hnew => hnotGains hnew.2
  rw [hbyStage]
  cases hlive : s.hooks.ipc.drv.isLive k with
  | false =>
    rw [if_neg Bool.false_ne_true]
    exact h.dead k hk' hlive
  | true =>
    rw [if_pos rfl]
    cases e with
    | stage st => rfl
    | call c => exact absurd (hdead.symm.trans (s.hooks.isLive_call c hlive hk)) Bool.false_ne_true

section Step
variable {s : TrackedProcess} {e : CycleEvent} {k : Nat}

/-- A live handle was live with the same origin, or is new. -/
theorem step_cases (hk : (s.step e).hooks.ipc.drv.isLive k = true) :
    s.hooks.ipc.drv.isLive k = true ∧ (s.step e).origin k = s.origin k ∨
      s.hooks.Gains (s.hooks.cycleStep e) k ∧ (s.step e).origin k = some e.origin := by
  have horigin : (s.step e).origin k = if s.hooks.ipc.drv.isLive k then s.origin k else some e.origin := if_pos hk
  cases hlive : s.hooks.ipc.drv.isLive k with
  | true => exact Or.inl ⟨rfl, by rw [horigin, hlive, if_pos rfl]⟩
  | false => exact Or.inr ⟨⟨hlive, hk⟩, by rw [horigin, hlive, if_neg Bool.false_ne_true]⟩

theorem isLive_of_origin {o : HandleOrigin} (hk : (s.step e).origin k = some o) : (s.step e).hooks.ipc.drv.isLive k = true := by
  by_contra hdead
  have hnone : (s.step e).origin k = none := if_neg hdead
  rw [hnone] at hk
  exact absurd hk (by simp)

theorem Classified.step_imported (h : s.Classified) (hok : s.HandsOutApart e) (hmoves : s.hooks.Moves (s.hooks.cycleStep e) e)
    (hk : k ∈ (s.step e).hooks.importedHandles) (hlive : (s.step e).hooks.ipc.drv.isLive k = true) :
    (s.step e).origin k = some .imported ∨ (s.step e).origin k = some .reimported := by
  rcases step_cases hlive with ⟨hold, horigin⟩ | ⟨hgains, horigin⟩
  · rw [horigin]
    refine h.imported k ((hmoves.imported k hk).resolve_right fun hnew => ?_) hold
    exact absurd (hnew.2.1.symm.trans hold) Bool.false_ne_true
  · -- no own allocation has got a value of the table
    rw [horigin]
    cases hkind : e.origin with
    | imported => exact Or.inl rfl
    | reimported => exact Or.inr rfl
    | created =>
      have hmem := (hmoves.imported k hk).resolve_right fun hnew => absurd (hkind.symm.trans hnew.1) (by simp)
      exact absurd hmem ((hok k hgains).1 (Or.inl hkind))
    | rebuilt =>
      have hmem := (hmoves.imported k hk).resolve_right fun hnew => absurd (hkind.symm.trans hnew.1) (by simp)
      exact absurd hmem ((hok k hgains).1 (Or.inr hkind))

theorem Classified.step_created (h : s.Classified) (hok : s.HandsOutApart e) (hmoves : s.hooks.Moves (s.hooks.cycleStep e) e)
    (hk : k ∈ (s.step e).hooks.ipc.createdAllocs) (hlive : (s.step e).hooks.ipc.drv.isLive k = true) :
    (s.step e).origin k = some .created ∨ (s.step e).origin k = some .rebuilt := by
  rcases step_cases hlive with ⟨hold, horigin⟩ | ⟨hgains, horigin⟩
  · rw [horigin]
    refine h.created k ((hmoves.created k hk).resolve_right fun hnew => ?_) hold
    exact absurd (hnew.2.1.symm.trans hold) Bool.false_ne_true
  · rw [horigin]
    rcases hmoves.created k hk with hmem | ⟨hkind, -⟩
    · -- no import has got a value of the table
      cases hkind : e.origin with
      | created => exact Or.inl rfl
      | rebuilt => exact Or.inr rfl
      | imported => exact absurd hmem ((hok k hgains).2.1 (Or.inl hkind))
      | reimported => exact absurd hmem ((hok k hgains).2.1 (Or.inr hkind))
    · exact hkind.imp (congrArg some) (congrArg some)

theorem Inv.step (h : s.Inv) (hok : s.HandsOutApart e) (hmoves : s.hooks.Moves (s.hooks.cycleStep e) e) : (s.step e).Inv := by
  refine ⟨⟨fun k hk hlive => h.step_imported hok hmoves hk hlive, fun k hk hlive => h.step_created hok hmoves hk hlive,
    h.toClassified.dead_step hmoves⟩, fun k hk => isLive_of_origin hk, fun k hk => ?_, fun k hk => ?_,
    fun k hk rec hrec heq => ?_⟩
  · rcases step_cases (isLive_of_origin hk) with ⟨-, horigin⟩ | ⟨hgains, horigin⟩
    · rw [horigin] at hk
      exact hmoves.kept k (h.listed k hk) (isLive_of_origin (horigin.trans hk)) (h.noAlias k hk)
    · exact (hmoves.fresh (Option.some.inj (horigin.symm.trans hk)) k hgains).1
  · rcases step_cases (isLive_of_origin hk) with ⟨-, horigin⟩ | ⟨hgains, horigin⟩
    · rw [horigin] at hk
      by_contra halias
      rcases hmoves.aliases k halias with hold | ⟨rec, hrec, hprop, heq⟩
      · exact hold (h.noAlias k hk)
      · exact absurd ((h.noProp k hk rec hrec heq).symm.trans hprop) Bool.false_ne_true
    · rw [show (s.step e).hooks = s.hooks.cycleStep e from rfl,
        (hmoves.fresh (Option.some.inj (horigin.symm.trans hk)) k hgains).2.1]
      exact ((hok k hgains).2.2 (Option.some.inj (horigin.symm.trans hk))).1
  · rcases step_cases (isLive_of_origin hk) with ⟨hold, horigin⟩ | ⟨hgains, horigin⟩
    · rw [horigin] at hk
      rcases hmoves.records rec hrec with ⟨rec', hrec', happ, hprop⟩ | ⟨-, hprop⟩
      · rw [← hprop]
        exact h.noProp k hk rec' hrec' (happ.trans heq)
      · -- the table of created allocations does not have an import
        rw [hprop, heq]
        by_contra hsome
        rw [Bool.not_eq_false, ← ExtTreeMap.mem_iff_isSome_getElem?] at hsome
        rcases h.created k hsome hold with hc | hc
        · exact absurd (hk.symm.trans hc) (by simp)
        · exact absurd (hk.symm.trans hc) (by simp)
    · rw [show (s.step e).hooks = s.hooks.cycleStep e from rfl,
        (hmoves.fresh (Option.some.inj (horigin.symm.trans hk)) k hgains).2.2] at hrec
      exact absurd heq (((hok k hgains).2.2 (Option.some.inj (horigin.symm.trans hk))).2 rec hrec)

end Step

def start (hooks : HookedProcess) : TrackedProcess := ⟨hooks, fun _ => none, fun _ => false⟩

end TrackedProcess

end GpuCr
