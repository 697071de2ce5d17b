import GpuCr.Ipc.Descriptors

/-!
# Which exports come back

The rebuild treats the records as independent of each other. Of several records whose ranges meet, the
first gets the range; what is done for the others fails, and they stay torn down.
-/

namespace GpuCr

open Lib Lib.Run Lib.Grouping Lib.Layout Std
open HookedProcess (posixFileDescriptor)

/-! ### Which records get an entry -/

/-- The ranges do not meet. -/
def IpcExportRecord.rangeApart (a b : IpcExportRecord) : Prop :=
  a.mappedVaddr + a.mappedSize ≤ b.mappedVaddr ∨ b.mappedVaddr + b.mappedSize ≤ a.mappedVaddr

instance (a b : IpcExportRecord) : Decidable (a.rangeApart b) := inferInstanceAs (Decidable (_ ∨ _))

namespace IpcState

section Entry
variable {s s' : IpcState} {buf : HostBuf}

theorem within_of_accessible {d : Driver} {m : Mapping} (hm : m ∈ d.maps) {a n : Nat} (hacc : d.accessible a n = true)
    (hmeets : a < m.va + m.size ∧ m.va < a + n) : m.va ≤ a ∧ a + n ≤ m.va + m.size := by
  rw [Driver.accessible, List.any_eq_true] at hacc
  obtain ⟨m', hm', hin⟩ := hacc
  simp only [Bool.and_eq_true, decide_eq_true_eq] at hin
  by_cases heq : m' = m
  · subst heq
    exact ⟨hin.1.2, hin.2⟩
  · have hapart := d.maps_apart.forall hm' hm heq
    unfold Mapping.apart at hapart
    omega

/-- **A mapped record gets its range back exactly if it is the first with it.** -/
theorem Saved.entry_iff (h : Saved s s' buf) (henv : s.drv.env.Reliable) (hlive : ∀ rec ∈ s.exports, rec.tornDown = false)
    (hprop : ∀ rec ∈ s.exports, rec.active = true → rec.hasSavedProp = true)
    (hacc : ∀ rec ∈ s.exports, rec.active = true → s.drv.accessible rec.mappedVaddr rec.mappedSize = true)
    {i : Nat} {rec : IpcExportRecord} (hrec : s.exports[i]? = some rec) (hactive : rec.active = true)
    (hat : s.drv.mappedAt rec.mappedVaddr rec.mappedSize = true) :
    (∃ e ∈ (rebuildAlloc s'.exportItems s'.drv).entries, e.slot.key = i) ↔
      ∀ j < i, ∀ rec', s.exports[j]? = some rec' → rec'.active = true → rec'.rangeApart rec := by
  have hmem := List.mem_of_getElem? hrec
  have hsorted := s'.pairwise_key_exportItems
  have hpos : ∀ rec : IpcExportRecord, rec.active = true → 0 < rec.mappedSize := by
    intro rec hrec
    simp only [IpcExportRecord.active, Bool.and_eq_true] at hrec
    exact of_decide_eq_true hrec.2
  obtain ⟨m, hm, hmva, hmsize⟩ := Driver.exists_mapping hat
  obtain ⟨x, hx, hkey, hva, hsize⟩ := h.copied.mem_items hrec hactive (hprop rec hmem hactive)
  have hposRec := hpos rec hactive
  obtain ⟨pre, y, post, hsplit, hmeet, hpre⟩ := exists_first_meeting hx rec.mappedVaddr rec.mappedSize (by omega)
  have hymem : y ∈ s'.exportItems := hsplit ▸ List.mem_append_right _ (List.mem_cons_self ..)
  obtain ⟨recY, hrecY, hactiveY, hvaY, hsizeY, -⟩ := h.copied.item hlive hymem
  have hposY := hpos recY hactiveY
  have hin := within_of_accessible hm (hacc recY (List.mem_of_getElem? hrecY) hactiveY) (by omega)
  obtain ⟨e, he, hof⟩ := exists_entry_of_first (x := y) (h.env ▸ henv) (by omega)
    (h.free hmem hactive hat) hpre (by omega)
  rw [hsplit] at hsorted hx
  obtain ⟨-, hcons, hbefore⟩ := List.pairwise_append.1 hsorted
  obtain ⟨hafter, hpost⟩ := List.pairwise_cons.1 hcons
  rw [hsplit]
  rcases List.mem_append.1 hx with hxpre | hxpost
  · have := hpre x hxpre
    omega
  rcases List.mem_cons.1 hxpost with rfl | hxpost
  · -- the record is the first with its range
    constructor
    · intro _ j hj rec' hrec' hactive'
      obtain ⟨z, hz, hzkey, hzva, hzsize⟩ := h.copied.mem_items hrec' hactive' (hprop rec' (List.mem_of_getElem? hrec') hactive')
      rw [hsplit] at hz
      rcases List.mem_append.1 hz with hz | hz
      · have := hpre z hz
        unfold IpcExportRecord.rangeApart
        omega
      · rcases List.mem_cons.1 hz with rfl | hz
        · omega
        · have := hafter z hz
          omega
    · intro _
      refine ⟨e, ?_, hof.1.trans hkey⟩
      rw [rebuildAlloc_split]
      exact (foldl_item_entries post _).1 e he
  · -- another is, and has taken the range
    have hlt := hafter x hxpost
    constructor
    · rintro ⟨e', he', hkey'⟩
      obtain ⟨post₁, post₂, rfl⟩ := List.append_of_mem hxpost
      have hlist : pre ++ y :: (post₁ ++ x :: post₂) = (pre ++ y :: post₁) ++ x :: post₂ := by simp
      rw [hlist] at he'
      refine absurd (hkey'.trans hkey.symm) (not_entry_of_taken ?_ ?_ e' he')
      · have htracks : (rebuildAlloc (pre ++ y :: post₁) s'.drv).Tracks s'.drv :=
          (AllocRun.tracks_start s'.drv 0).foldl (pre ++ y :: post₁)
        have he : e ∈ (rebuildAlloc (pre ++ y :: post₁) s'.drv).entries := by
          rw [rebuildAlloc_split]
          exact (foldl_item_entries post₁ _).1 e he
        obtain ⟨m', hm', hmkey⟩ := htracks.mapped he
        simp only [Mapping.key, RebuildEntry.key, Prod.mk.injEq] at hmkey
        refine ⟨m', hm', ?_⟩
        obtain ⟨-, hofva, hofsize, -⟩ := hof
        omega
      · intro z hz heq
        rw [hlist] at hsorted
        obtain ⟨-, hcons', hbefore'⟩ := List.pairwise_append.1 hsorted
        rcases List.mem_append.1 hz with hz | hz
        · have := hbefore' z hz x (List.mem_cons_self ..)
          omega
        · have := (List.pairwise_cons.1 hcons').1 z hz
          omega
    · intro hall
      have := hall y.key (by omega) recY hrecY hactiveY
      unfold IpcExportRecord.rangeApart at this
      omega

/-- Steps 2 and 3 of the save, for a record: its descriptor is closed, and it is torn down if it has a mapping. -/
theorem Saved.record (h : Saved s s' buf) (hlive : ∀ rec ∈ s.exports, rec.tornDown = false) {i : Nat} {rec : IpcExportRecord}
    (hrec : s.exports[i]? = some rec) :
    ∃ saved, s'.exports[i]? = some saved ∧ saved.mappedVaddr = rec.mappedVaddr ∧ saved.hasMapping = rec.hasMapping ∧
      (rec.hasMapping = false → saved.tornDown = false ∧ saved.exportedFd < 0) := by
  have hmark : ∀ rec : IpcExportRecord, (markTorn rec).mappedVaddr = rec.mappedVaddr ∧
      (markTorn rec).hasMapping = rec.hasMapping := by
    intro rec
    unfold markTorn
    split_ifs <;> exact ⟨rfl, rfl⟩
  cases hactive : rec.active with
  | true =>
    obtain ⟨x, -, -, ⟨fd, htorn⟩, -⟩ := h.active i rec hrec hactive
    refine ⟨_, htorn, rfl, rfl, fun hnone => ?_⟩
    simp [IpcExportRecord.active, hnone] at hactive
  | false =>
    obtain ⟨fd, hfd⟩ := closeFd_eq rec
    refine ⟨_, h.idle i rec hrec hactive, by rw [(hmark _).1, hfd], by rw [(hmark _).2, hfd], fun hnone => ?_⟩
    have htorn := hlive rec (List.mem_of_getElem? hrec)
    unfold closeFd
    rw [htorn, if_neg Bool.false_ne_true]
    split_ifs with hopen
    · exact ⟨by simp [markTorn, hnone], by simp [markTorn, hnone]⟩
    · refine ⟨by simp [markTorn, hnone, htorn], ?_⟩
      rw [markTorn, hnone, Bool.not_false, Bool.or_true, if_pos rfl]
      omega

end Entry

end IpcState

/-! ### Histories -/

namespace HookedProcess

/-- A record's handle is unreleased or forgotten, and a record with a mapping, or one that waits for it,
has its properties. -/
structure Known (s : HookedProcess) : Prop where
  sound : s.Sound
  live : ∀ rec ∈ s.ipc.exports, rec.localHandle = 0 ∨ s.ipc.drv.isLive rec.localHandle = true
  prop : ∀ rec ∈ s.ipc.exports, rec.hasMapping = true ∨ rec.localHandle ∈ s.ipc.createdAllocs → rec.hasSavedProp = true

section Known
variable {s : HookedProcess}

theorem Fresh.known (h : s.Fresh) : s.Known where
  sound := h.sound
  live rec hrec := by simp [h.exports] at hrec
  prop rec hrec := by simp [h.exports] at hrec

theorem Known.setDrv (h : s.Known) {d : Driver} (hsound : (s.setDrv d).Sound)
    (hlive : ∀ k, s.ipc.drv.isLive k = true → d.isLive k = true) : (s.setDrv d).Known :=
  ⟨hsound, fun rec hrec => (h.live rec hrec).imp_right (hlive _), h.prop⟩

theorem Known.ne_of_dead (h : s.Known) {k : Nat} (hk : s.ipc.drv.isLive k = false) (hnull : k ≠ 0)
    {rec : IpcExportRecord} (hrec : rec ∈ s.ipc.exports) : rec.localHandle ≠ k := by
  rintro rfl
  rcases h.live rec hrec with hzero | hlive
  · exact hnull hzero
  · exact Bool.false_ne_true (hk.symm.trans hlive)

theorem Known.recordRelease (h : s.Known) {d : Driver} {k : Nat} (hd : s.ipc.drv.DropHandle d k) :
    (s.recordRelease d k k).Known := by
  have hcreated : (s.recordRelease d k k).ipc.createdAllocs = s.ipc.createdAllocs.erase k ∧
      (s.recordRelease d k k).ipc.drv = d := by
    simp only [HookedProcess.recordRelease, ne_eq, not_true_eq_false, if_false]
    exact ⟨rfl, rfl⟩
  have hexports : (s.recordRelease d k k).ipc.exports = s.ipc.exports.map (IpcExportRecord.dropHandle k) := by
    rw [recordRelease_exports]
    simp
  refine ⟨h.sound.recordRelease hd, fun rec hrec => ?_, fun rec hrec hor => ?_⟩
  · rw [hexports] at hrec
    obtain ⟨rec, hrec', rfl⟩ := List.mem_map.1 hrec
    rw [(dropHandle_export k rec).2.2.2.2, hcreated.2]
    split_ifs with hk
    · exact Or.inl rfl
    · refine (h.live rec hrec').imp_right fun hlive => ?_
      rw [hd.live, hlive]
      simpa using hk
  · rw [hexports] at hrec
    obtain ⟨rec, hrec', rfl⟩ := List.mem_map.1 hrec
    obtain ⟨-, h2, -, -, h5⟩ := dropHandle_export k rec
    have hsaved : (rec.dropHandle k).hasSavedProp = rec.hasSavedProp := by
      unfold IpcExportRecord.dropHandle
      split_ifs <;> rfl
    rw [hsaved]
    refine h.prop rec hrec' ?_
    rw [h2, h5, hcreated.1, ExtTreeMap.mem_erase] at hor
    refine hor.imp_right fun hmem => ?_
    split_ifs at hmem with hk
    · -- no handle is null
      have hlive := h.sound.live 0 (by rw [(h.sound.created 0).1 hmem.2]; simp)
      exact absurd (h.sound.nullDead.symm.trans hlive) Bool.false_ne_true
    · exact hmem.2

theorem Known.recordMap (h : s.Known) {d : Driver} {ptr size handle : Nat}
    (hd : s.ipc.drv.NewRange d ptr size handle) : (s.recordMap d ptr size handle).Known := by
  refine ⟨h.sound.recordMap hd, fun rec hrec => ?_, fun rec hrec hor => ?_⟩
  · rw [recordMap_exports] at hrec
    obtain ⟨rec, hrec', rfl⟩ := List.mem_map.1 hrec
    have hhandle : (if handle ∈ s.ipc.createdAllocs then giveMapping ptr size handle rec else rec).localHandle =
        rec.localHandle := by
      unfold giveMapping
      split_ifs <;> rfl
    rw [hhandle, recordMap_drv]
    exact (h.live rec hrec').imp_right fun hk => (hd.live _).trans hk
  · rw [recordMap_exports] at hrec
    rw [(recordMap_created s d ptr size handle).1] at hor
    obtain ⟨rec, hrec', rfl⟩ := List.mem_map.1 hrec
    unfold giveMapping at hor ⊢
    split_ifs at hor ⊢ with hmem hw
    · simp only [waits, Bool.and_eq_true, beq_iff_eq] at hw
      exact h.prop rec hrec' (Or.inr (hw.1 ▸ hmem))
    · exact h.prop rec hrec' hor
    · exact h.prop rec hrec' hor

theorem Known.call (h : s.Known) (c : HookCall) : (s.call c).Known := by
  have hsound := h.sound.call c
  have heff := s.call_effect c
  generalize s.call c = s' at heff hsound
  cases heff with
  | rejected hd => exact h.setDrv hsound fun k hk => (hd.live k).trans hk
  | plain hd => exact h.setDrv hsound fun k hk => hd.keeps hk
  | created hd hpos =>
    refine ⟨hsound, fun rec hrec => (h.live rec hrec).imp_right fun hk => ?_, fun rec hrec hor => ?_⟩
    · exact hd.keeps hk
    · refine h.prop rec hrec (hor.imp_right fun hmem => ?_)
      rcases ExtTreeMap.mem_insert.1 hmem with heq | hmem
      · exact absurd (Std.compare_eq_iff_eq.1 heq).symm (h.ne_of_dead hd.dead hd.ne_zero hrec)
      · exact hmem
  | exported hd hlive hfd =>
    refine ⟨hsound, fun rec hrec => ?_, fun rec hrec hor => ?_⟩
    · rcases List.mem_append.1 hrec with hrec | hrec
      · exact (h.live rec hrec).imp_right fun hk => (hd.live _).trans hk
      · obtain rfl := List.mem_singleton.1 hrec
        exact Or.inr ((hd.live _).trans hlive)
    · rcases List.mem_append.1 hrec with hrec | hrec
      · exact h.prop rec hrec hor
      · obtain rfl := List.mem_singleton.1 hrec
        refine ExtTreeMap.mem_iff_isSome_getElem?.1 ?_
        rcases hor with hmap | hmem
        · exact h.sound.addressed _ (ExtTreeMap.mem_iff_isSome_getElem?.2 hmap)
        · exact hmem
  | imported hd =>
    exact ⟨hsound, fun rec hrec => (h.live rec hrec).imp_right fun hk => hd.keeps hk, h.prop⟩
  | mapped hd => exact h.recordMap hd
  | unmapped hd => exact ⟨hsound, fun rec hrec => (h.live rec hrec).imp_right fun hk => (hd.live _).trans hk, h.prop⟩
  | released hd =>
    rw [h.sound.alias_eq] at hd ⊢
    exact h.recordRelease hd
  | access hd =>
    refine ⟨hsound, fun rec hrec => ?_, fun rec hrec hor => ?_⟩
    · obtain ⟨rec', hrec', rfl | rfl⟩ := mem_recordAccess_exports hrec
      · exact (h.live rec hrec').imp_right fun hk => (hd.live _).trans hk
      · exact (h.live rec' hrec').imp_right fun hk => (hd.live _).trans hk
    · obtain ⟨rec', hrec', rfl | rfl⟩ := mem_recordAccess_exports hrec
      · exact h.prop rec hrec' hor
      · exact h.prop rec' hrec' hor

end Known

end HookedProcess

namespace HookedProcess

theorem call_length (s : HookedProcess) {c : HookCall} (hc : ∀ handle type, c ≠ .exportHandle handle type) :
    (s.call c).ipc.exports.length = s.ipc.exports.length := by
  have heff := s.call_effect c
  generalize s.call c = s' at heff
  cases heff with
  | exported hd _ hfd => exact absurd rfl (hc _ _)
  | mapped hd => rw [recordMap_exports, List.length_map]
  | released hd => rw [recordRelease_exports, List.length_map]
  | access hd =>
    unfold recordAccess
    dsimp only
    split
    · rfl
    · exact List.length_modify ..
  | _ => rfl

end HookedProcess

namespace FdProcess

/-- Before the first call the tables are empty and no descriptor is one of shared memory. -/
structure Fresh (s : FdProcess) : Prop where
  hooks : s.hooks.Fresh
  fds : ∀ n i h, s.fds.get n ≠ some (.shared i h)

/-- A descriptor of shared memory is that of a record whose memory is shared by descriptors. -/
def SharedPosix (fds : FdTable FdObject) (exports : List IpcExportRecord) : Prop :=
  ∀ n i h, fds.get n = some (.shared i h) →
    ∃ rec : IpcExportRecord, exports[i]? = some rec ∧ rec.handleType = posixFileDescriptor

section Histories
variable {s : FdProcess}

theorem sharedPosix_congr {fds : FdTable FdObject} {exports exports' : List IpcExportRecord} (h : SharedPosix fds exports)
    (htypes : exports'.map (·.handleType) = exports.map (·.handleType)) : SharedPosix fds exports' := by
  intro n i k hget
  obtain ⟨rec, hrec, htype⟩ := h n i k hget
  have hi := congrArg (·[i]?) htypes
  simp only [List.getElem?_map, hrec, Option.map_some] at hi
  obtain ⟨rec', hrec', heq⟩ := Option.map_eq_some_iff.1 hi
  exact ⟨rec', hrec', heq.trans htype⟩

theorem call_hooks (s : FdProcess) (c : HookCall) :
    ∃ d, s.hooks.ipc.drv.SameView d ∧ (s.call c).hooks = (s.hooks.setDrv d).call c := by
  unfold call
  split
  · exact ⟨(s.hooks.ipc.withPick s.fds.lowest).drv, Driver.sameView_of_eq rfl rfl, rfl⟩
  · exact ⟨s.hooks.ipc.drv, Driver.sameView_of_eq rfl rfl, rfl⟩

theorem known_call (h : s.hooks.Known) (c : HookCall) : (s.call c).hooks.Known := by
  obtain ⟨d, hd, heq⟩ := s.call_hooks c
  rw [heq]
  exact (h.setDrv (h.sound.setDrv hd) fun k hk => (hd.live k).trans hk).call c

theorem sharedPosix_call (h : SharedPosix s.fds s.hooks.ipc.exports) (c : HookCall) :
    SharedPosix (s.call c).fds (s.call c).hooks.ipc.exports := by
  by_cases hc : ∃ handle type, c = .exportHandle handle type
  · obtain ⟨handle, type, rfl⟩ := hc
    rcases s.exportHandle_cases handle type with ⟨hexports, hfds⟩ | ⟨rec, hexports, htype, -, -, hfds⟩
    · rw [hexports, hfds]
      exact h
    · have hold : SharedPosix s.fds (s.hooks.ipc.exports ++ [rec]) := by
        intro n i k hget
        obtain ⟨rec', hrec', htype'⟩ := h n i k hget
        exact ⟨rec', (List.getElem?_append_left (List.getElem?_eq_some_iff.1 hrec').1).trans hrec', htype'⟩
      rw [hexports]
      rcases hfds with ⟨hposix, -, hfds⟩ | ⟨-, hfds⟩
      · rw [hfds]
        intro n i k hget
        rw [FdTable.get_alloc] at hget
        split_ifs at hget with hn
        · simp only [Option.some.injEq, FdObject.shared.injEq] at hget
          exact ⟨rec, by rw [← hget.1, List.getElem?_concat_length], htype.trans hposix⟩
        · exact hold n i k hget
      · rw [hfds]
        exact hold
  · have hne := fun handle type (heq : c = .exportHandle handle type) => hc ⟨handle, type, heq⟩
    have hcall : s.call c = { s with hooks := s.hooks.call c } := by
      unfold FdProcess.call
      split
      · exact absurd rfl (hne _ _)
      · rfl
    rw [hcall]
    intro n i k hget
    obtain ⟨rec, hrec, htype⟩ := h n i k hget
    have hi : i < (s.hooks.call c).ipc.exports.length := by
      rw [s.hooks.call_length hne]
      exact (List.getElem?_eq_some_iff.1 hrec).1
    obtain ⟨rec', hrec', hsame⟩ := s.hooks.call_exports hne (List.getElem?_eq_getElem hi)
    obtain rfl := Option.some.inj (hrec.symm.trans hrec')
    exact ⟨_, List.getElem?_eq_getElem hi, hsame.type.trans htype⟩

end Histories

/-! ### The cycle -/

section Cycle

theorem get_foldl_closeExport (exports : List IpcExportRecord) (fds : FdTable FdObject) {n : Nat} {o : FdObject}
    (h : (exports.foldl closeExport fds).get n = some o) : fds.get n = some o := by
  induction exports generalizing fds with
  | nil => exact h
  | cons rec exports ih =>
    have hget := ih _ h
    unfold closeExport at hget
    split_ifs at hget
    · exact hget
    · rw [FdTable.get_close] at hget
      split_ifs at hget
      exact hget
    · exact hget

theorem save_types (ipc : IpcState) (buf : HostBuf) :
    (ipc.ipcSaveAndTeardownAllExports buf).2.1.exports.map (·.handleType) = ipc.exports.map (·.handleType) := by
  have hoff := fun xs => IpcState.map_foldl_recordOffset (fun rec : IpcExportRecord => rec.handleType)
    (fun rec offset => rfl) xs ipc.exports
  have htype : ((fun rec : IpcExportRecord => rec.handleType) ∘ IpcState.markTorn) ∘ IpcState.closeFd =
      fun rec => rec.handleType := by
    funext rec
    obtain ⟨fd, hfd⟩ := IpcState.closeFd_eq rec
    simp only [Function.comp_apply, hfd, IpcState.markTorn]
    split_ifs <;> rfl
  unfold IpcState.ipcSaveAndTeardownAllExports
  dsimp only
  split_ifs
  · rfl
  · rfl
  · exact hoff _
  · rw [List.map_map, List.map_map, htype]
    exact hoff _

theorem sharedPosix_save {s : FdProcess} (h : SharedPosix s.fds s.hooks.ipc.exports) (buf : HostBuf) :
    SharedPosix (s.save buf).fds (s.save buf).hooks.ipc.exports := by
  have hfds : SharedPosix (s.save buf).fds s.hooks.ipc.exports := by
    unfold save
    dsimp only
    split_ifs
    · exact fun n i k hget => h n i k (get_foldl_closeExport _ _ hget)
    · exact h
  exact sharedPosix_congr hfds (save_types s.hooks.ipc buf)

theorem reexport_frame (x : IpcState × FdTable FdObject) (e : RebuildEntry) :
    (reexport x e).1.fns = x.1.fns ∧ (reexport x e).1.drv.env.fails = x.1.drv.env.fails ∧
      (reexport x e).1.drv.maps = x.1.drv.maps := by
  have htrack : ∀ ipc : IpcState, (ipc.trackExport e).fns = ipc.fns ∧ (ipc.trackExport e).drv.env.fails = ipc.drv.env.fails ∧
      (ipc.trackExport e).drv.maps = ipc.drv.maps := by
    intro ipc
    have hsame := ipc.same_trackExport e
    exact ⟨(IpcState.foldl_trackExport_frame [e] ipc).2.2.1, congrArg _ hsame.env, hsame.maps⟩
  unfold reexport
  split
  · exact ⟨rfl, rfl, rfl⟩
  · split_ifs
    · exact htrack (x.1.withPick x.2.lowest)
    · exact htrack x.1

/-- What phase C leaves: the records it came to have their new handles and descriptors, the others are as
before, and no descriptor is closed. -/
structure Reexported (entries : List RebuildEntry) (x y : IpcState × FdTable FdObject) : Prop where
  maps : y.1.drv.maps = x.1.drv.maps
  others : ∀ i, i ∉ entries.map (·.slot.key) → y.1.exports[i]? = x.1.exports[i]?
  records : ∀ e ∈ entries, ∀ rec, x.1.exports[e.slot.key]? = some rec → ∃ fd,
    y.1.exports[e.slot.key]? = some (rebuiltRecord rec e.newHandle fd) ∧
      (rec.handleType = posixFileDescriptor → x.1.fns.cuMemExport = true → x.1.drv.env.Reliable →
        0 ≤ fd ∧ y.2.get fd.toNat = some (.shared e.slot.key e.newHandle))
  fds : ∀ n o, x.2.get n = some o → y.2.get n = some o
  posix : SharedPosix x.2 x.1.exports → SharedPosix y.2 y.1.exports

theorem reexported_foldl (entries : List RebuildEntry) (hnodup : (entries.map (·.slot.key)).Nodup)
    (x : IpcState × FdTable FdObject) : Reexported entries x (entries.foldl reexport x) := by
  induction entries generalizing x with
  | nil => exact ⟨rfl, fun i _ => rfl, by simp, fun n o h => h, fun h => h⟩
  | cons e entries ih =>
    rw [List.map_cons, List.nodup_cons] at hnodup
    obtain ⟨ih1, ih2, ih3, ih4, ih5⟩ := ih hnodup.2 (reexport x e)
    obtain ⟨hfns, hfails, hmaps⟩ := reexport_frame x e
    rw [List.foldl_cons]
    cases hrec : x.1.exports[e.slot.key]? with
    | none =>
      have hstep : reexport x e = x := by
        unfold reexport
        rw [hrec]
      rw [hstep] at ih1 ih2 ih3 ih4 ih5 ⊢
      refine ⟨ih1, fun i hi => ih2 i fun hmem => hi (List.mem_cons_of_mem _ hmem), fun e' he' rec' hrec' => ?_, ih4, ih5⟩
      rcases List.mem_cons.1 he' with rfl | he'
      · exact absurd (hrec.symm.trans hrec') (by simp)
      · exact ih3 e' he' rec' hrec'
    | some rec =>
      obtain ⟨fd, hexports, hcase⟩ := reexport_spec hrec
      have hlt := (List.getElem?_eq_some_iff.1 hrec).1
      have hne : ∀ i, i ≠ e.slot.key → (reexport x e).1.exports[i]? = x.1.exports[i]? := by
        intro i hi
        rw [hexports, List.getElem?_set_ne hi.symm]
      have hself : (reexport x e).1.exports[e.slot.key]? = some (rebuiltRecord rec e.newHandle fd) := by
        rw [hexports, List.getElem?_set_self hlt]
      have hkeep : ∀ n o, x.2.get n = some o → (reexport x e).2.get n = some o := by
        intro n o hget
        rcases hcase with ⟨-, -, hfds⟩ | ⟨hfds, -⟩
        · rw [hfds, FdTable.get_alloc, if_neg, hget]
          rintro rfl
          exact absurd (FdTable.get_lowest.symm.trans hget) (by simp)
        · rw [hfds, hget]
      refine ⟨ih1.trans hmaps, fun i hi => ?_, fun e' he' rec' hrec' => ?_, fun n o hget => ih4 n o (hkeep n o hget),
        fun h => ih5 fun n i k hget => ?_⟩
      · rw [List.map_cons, List.mem_cons, not_or] at hi
        exact (ih2 i hi.2).trans (hne i hi.1)
      · rcases List.mem_cons.1 he' with rfl | he'
        · obtain rfl := Option.some.inj (hrec.symm.trans hrec')
          refine ⟨fd, (ih2 _ hnodup.1).trans hself, fun htype hfn henv => ?_⟩
          rcases hcase with ⟨-, rfl, hfds⟩ | ⟨-, hfail⟩
          · refine ⟨Int.natCast_nonneg _, ih4 _ _ ?_⟩
            rw [hfds, Int.toNat_natCast, FdTable.get_alloc, if_pos rfl]
          · have hnot := (hfail htype).1
            rw [hfn, Driver.calls_of_reliable henv] at hnot
            exact absurd hnot (by simp)
        · have hkey : e'.slot.key ≠ e.slot.key := fun heq => hnodup.1 (heq ▸ List.mem_map_of_mem he')
          obtain ⟨fd', hfinal, hfd'⟩ := ih3 e' he' rec' ((hne _ hkey).trans hrec')
          refine ⟨fd', hfinal, fun htype hfn henv => hfd' htype (hfns ▸ hfn) fun n => ?_⟩
          rw [hfails]
          exact henv n
      · -- a descriptor of phase C is that of a record that is shared by one
        have hold : ∀ rec', x.1.exports[i]? = some rec' → rec'.handleType = posixFileDescriptor →
            ∃ rec', (reexport x e).1.exports[i]? = some rec' ∧ rec'.handleType = posixFileDescriptor := by
          intro rec' hrec' htype
          by_cases hi : i = e.slot.key
          · subst hi
            obtain rfl := Option.some.inj (hrec.symm.trans hrec')
            exact ⟨_, hself, htype⟩
          · exact ⟨rec', (hne i hi).trans hrec', htype⟩
        rcases hcase with ⟨htype, -, hfds⟩ | ⟨hfds, -⟩
        · rw [hfds, FdTable.get_alloc] at hget
          split_ifs at hget
          · simp only [Option.some.injEq, FdObject.shared.injEq] at hget
            exact hold rec (hget.1 ▸ hrec) htype
          · obtain ⟨rec', hrec', htype'⟩ := h n i k hget
            exact hold rec' hrec' htype'
        · rw [hfds] at hget
          obtain ⟨rec', hrec', htype'⟩ := h n i k hget
          exact hold rec' hrec' htype'

/-- The save into a buffer of the size asked for, then the rebuild from it. -/
def exportCycle (s : FdProcess) (data : Nat → Byte) : FdProcess :=
  (s.save ⟨s.hooks.ipc.ipcGetExportDataSize, data⟩).rebuild (s.hooks.ipc.saveExports data).2.2

/-- The record is live: its handle is the one that is mapped at its address, and its number is that of an
open descriptor of that handle. -/
def Back (s : FdProcess) (i : Nat) : Prop :=
  ∃ rec : IpcExportRecord, s.hooks.ipc.exports[i]? = some rec ∧ rec.tornDown = false ∧
    (∃ m ∈ s.hooks.ipc.drv.maps, m.va = rec.mappedVaddr ∧ m.handle = rec.localHandle) ∧
    0 ≤ rec.exportedFd ∧ s.fds.get rec.exportedFd.toNat = some (.shared i rec.localHandle)

theorem rebuild_eq {s : FdProcess} (hfns : s.hooks.ipc.fns.Rebuildable) (buf : HostBuf) :
    ∃ r, (s.rebuild buf).hooks.ipc.exports = r.1.exports ∧ (s.rebuild buf).hooks.ipc.drv = r.1.drv ∧
      (s.rebuild buf).fds = r.2 ∧
      Reexported (rebuildAlloc s.hooks.ipc.exportItems s.hooks.ipc.drv).ordered
        ({ s.hooks.ipc with drv :=
            (rebuildCopy s.hooks.ipc.fns buf (rebuildAlloc s.hooks.ipc.exportItems s.hooks.ipc.drv)).drv }, s.fds) r := by
  refine ⟨_, ?_, ?_, ?_, reexported_foldl _ (nodup_ordered s.hooks.ipc.pairwise_key_exportItems _) _⟩
  all_goals
    unfold rebuild
    simp only [hfns.create, hfns.map, hfns.htod, hfns.reserve, Bool.and_true, Bool.not_true, Bool.false_eq_true, if_false]
  · rfl
  · rfl

theorem back_iff_entry {s : FdProcess} (hposix : SharedPosix s.fds s.hooks.ipc.exports)
    (henv : s.hooks.ipc.drv.env.Reliable) (hfns : s.hooks.ipc.fns.Rebuildable) {i : Nat} {rec : IpcExportRecord}
    (hrec : s.hooks.ipc.exports[i]? = some rec) (htorn : rec.tornDown = true) (buf : HostBuf) :
    (s.rebuild buf).Back i ↔ rec.handleType = posixFileDescriptor ∧
      ∃ e ∈ (rebuildAlloc s.hooks.ipc.exportItems s.hooks.ipc.drv).entries, e.slot.key = i := by
  obtain ⟨r, hexports, hdrv, hfds, hr⟩ := rebuild_eq hfns buf
  have htracks : (rebuildAlloc s.hooks.ipc.exportItems s.hooks.ipc.drv).Tracks s.hooks.ipc.drv :=
    (AllocRun.tracks_start s.hooks.ipc.drv 0).foldl s.hooks.ipc.exportItems
  have hcopy := rebuildCopy_spec s.hooks.ipc.fns buf htracks.apart
  unfold Back
  rw [hexports, hdrv, hfds]
  constructor
  · rintro ⟨rec', hrec', hlive, -, -, hget⟩
    obtain ⟨e, he, hkey⟩ : ∃ e ∈ (rebuildAlloc s.hooks.ipc.exportItems s.hooks.ipc.drv).entries, e.slot.key = i := by
      by_contra hnone
      have hsame := hr.others i fun hmem => by
        obtain ⟨e, he, hkey⟩ := List.mem_map.1 hmem
        exact hnone ⟨e, mem_ordered.1 he, hkey⟩
      obtain rfl := Option.some.inj ((hrec'.symm.trans hsame).trans hrec)
      exact absurd (htorn.symm.trans hlive) (by simp)
    refine ⟨?_, e, he, hkey⟩
    subst hkey
    obtain ⟨fd, hfinal, -⟩ := hr.records e (mem_ordered.2 he) rec hrec
    obtain ⟨rec'', hrec'', htype⟩ := hr.posix hposix _ _ _ hget
    obtain rfl := Option.some.inj (hrec''.symm.trans hfinal)
    exact htype
  · rintro ⟨htype, e, he, rfl⟩
    obtain ⟨fd, hfinal, hfd⟩ := hr.records e (mem_ordered.2 he) rec hrec
    obtain ⟨hpos, hget⟩ := hfd htype hfns.reexport (by rw [hcopy.env, htracks.env]; exact henv)
    refine ⟨_, hfinal, rfl, ?_, hpos, hget⟩
    obtain ⟨m, hm, hmkey⟩ := htracks.mapped he
    simp only [Mapping.key, RebuildEntry.key, Prod.mk.injEq] at hmkey
    refine ⟨m, ?_, ?_, hmkey.2.2⟩
    · rw [hr.maps]
      exact hcopy.maps ▸ hm
    · -- the entry has the address of its record
      obtain ⟨x, hx, hkey, hva, -⟩ := ((foldl_item_entries _ ⟨s.hooks.ipc.drv, [], 0⟩).2 e he).resolve_left (by simp)
      obtain ⟨⟨rec', j⟩, hmem, rfl⟩ := List.mem_map.1 hx
      have hrec' := List.mem_zipIdx_iff_getElem?.1 (List.mem_filter.1 hmem).1
      have hkey : j = e.slot.key := hkey.symm
      rw [hkey] at hrec'
      have heq : rec' = rec := Option.some.inj (hrec'.symm.trans hrec)
      rw [hmkey.1, hva, heq]
      rfl

theorem back_iff_first {s : FdProcess} (hknown : s.hooks.Known) (hposix : SharedPosix s.fds s.hooks.ipc.exports)
    (henv : s.hooks.ipc.drv.env.Reliable) (hfns : s.hooks.ipc.fns.Resolved) (hrebuild : s.hooks.ipc.fns.Rebuildable)
    {data : Nat → Byte} (hsave : (s.hooks.ipc.saveExports data).1 ≠ none) {i : Nat} {rec : IpcExportRecord}
    (hrec : s.hooks.ipc.exports[i]? = some rec) (hmap : rec.hasMapping = true)
    (hat : s.hooks.ipc.drv.mappedAt rec.mappedVaddr rec.mappedSize = true) :
    (s.exportCycle data).Back i ↔ rec.handleType = posixFileDescriptor ∧
      ∀ j < i, ∀ rec', s.hooks.ipc.exports[j]? = some rec' → rec'.hasMapping = true → rec'.rangeApart rec := by
  have hsize : s.hooks.ipc.ipcGetExportDataSize ≤ (⟨s.hooks.ipc.ipcGetExportDataSize, data⟩ : HostBuf).size := le_rfl
  have hok : (s.hooks.ipc.exportCopies ⟨s.hooks.ipc.ipcGetExportDataSize, data⟩).1 = true := by
    by_contra hfail
    rw [Bool.not_eq_true] at hfail
    have hres : s.hooks.ipc.saveExports data = _ :=
      IpcState.saveExports_eq (by rw [hfns.release, hfns.dtoh]; rfl) hsize
    rw [hfail, Bool.not_false, if_pos rfl] at hres
    exact hsave (by rw [hres])
  obtain ⟨-, -, hsaved⟩ := IpcState.saved_of_ok henv hfns hsize hok
  have hlive : ∀ rec ∈ s.hooks.ipc.exports, rec.tornDown = false := fun rec hrec => (hknown.sound.exports rec hrec).1
  have hactive : ∀ rec ∈ s.hooks.ipc.exports, (rec.active = true ↔ rec.hasMapping = true) := by
    intro rec hrec
    obtain ⟨htorn, hpos⟩ := hknown.sound.exports rec hrec
    constructor
    · intro h
      simp only [IpcExportRecord.active, Bool.and_eq_true] at h
      exact h.1.2
    · intro h
      simp [IpcExportRecord.active, htorn, h, (hpos h).1]
  have hmem := List.mem_of_getElem? hrec
  have hrecActive := (hactive rec hmem).2 hmap
  have hiff := hsaved.entry_iff henv hlive
    (fun rec hrec h => hknown.prop rec hrec (Or.inl ((hactive rec hrec).1 h)))
    ((IpcState.exportCopies_ok_iff henv).1 hok) hrec hrecActive hat
  have hcond : (∀ j < i, ∀ rec', s.hooks.ipc.exports[j]? = some rec' → rec'.active = true → rec'.rangeApart rec) ↔
      ∀ j < i, ∀ rec', s.hooks.ipc.exports[j]? = some rec' → rec'.hasMapping = true → rec'.rangeApart rec :=
    forall₂_congr fun j _ => forall₂_congr fun rec' hrec' => by rw [hactive rec' (List.mem_of_getElem? hrec')]
  rw [← hcond, ← hiff]
  obtain ⟨x, -, -, ⟨fd, htorn⟩, -⟩ := hsaved.active i rec hrec hrecActive
  exact back_iff_entry (s := s.save ⟨s.hooks.ipc.ipcGetExportDataSize, data⟩) (sharedPosix_save hposix _)
    (by rw [show (s.save _).hooks.ipc.drv.env = _ from hsaved.env]; exact henv) (hsaved.fns ▸ hrebuild) htorn rfl _

theorem known_of_history {s : FdProcess} (hknown : s.hooks.Known) (hposix : SharedPosix s.fds s.hooks.ipc.exports)
    (history : List HookCall) : (run call s history).hooks.Known ∧
    SharedPosix (run call s history).fds (run call s history).hooks.ipc.exports := by
  induction history generalizing s with
  | nil => exact ⟨hknown, hposix⟩
  | cons c history ih => exact ih (known_call hknown c) (sharedPosix_call hposix c)

/-- **Which exports come back**: after any history of hooked calls, a mapped record is live again after the
save and the rebuild if and only if its memory is shared by a descriptor and no earlier record has a range
that meets its own. -/
theorem back_iff (s : FdProcess) (hs : s.Fresh) (history : List HookCall) (data : Nat → Byte)
    (henv : (run call s history).hooks.ipc.drv.env.Reliable) (hfns : (run call s history).hooks.ipc.fns.Resolved)
    (hrebuild : (run call s history).hooks.ipc.fns.Rebuildable)
    (hsave : ((run call s history).hooks.ipc.saveExports data).1 ≠ none) (i : Nat) (rec : IpcExportRecord)
    (hrec : (run call s history).hooks.ipc.exports[i]? = some rec) (hmap : rec.hasMapping = true)
    (hat : (run call s history).hooks.ipc.drv.mappedAt rec.mappedVaddr rec.mappedSize = true) :
    ((run call s history).exportCycle data).Back i ↔ rec.handleType = posixFileDescriptor ∧
      ∀ j < i, ∀ rec', (run call s history).hooks.ipc.exports[j]? = some rec' → rec'.hasMapping = true →
        rec'.rangeApart rec := by
  obtain ⟨hknown, hposix⟩ := known_of_history hs.hooks.known (fun n i k hget => absurd hget (hs.fds n i k)) history
  exact back_iff_first hknown hposix henv hfns hrebuild hsave hrec hmap hat

theorem fresh_empty : empty.Fresh := ⟨HookedProcess.fresh_empty, by simp [empty, FdTable.get]⟩

theorem back_exportHistory : ((run call empty HookedProcess.exportHistory).exportCycle fun _ => 0).Back 0 :=
  (back_iff empty fresh_empty HookedProcess.exportHistory (fun _ => 0) (fun _ => rfl) ⟨rfl, rfl, rfl⟩
    ⟨rfl, rfl, rfl, rfl, rfl, rfl⟩ (by decide) 0 _ rfl rfl (by decide)).2 ⟨rfl, by simp⟩

/-- An allocation that is exported twice has two records, and only the first of them comes back. -/
theorem not_back_exportedTwice : ¬ ∀ (s : FdProcess), s.Fresh → ∀ (history : List HookCall) (data : Nat → Byte),
    (run call s history).hooks.ipc.drv.env.Reliable → (run call s history).hooks.ipc.fns.Resolved →
    (run call s history).hooks.ipc.fns.Rebuildable → ((run call s history).hooks.ipc.saveExports data).1 ≠ none →
    ∀ (i : Nat) (rec : IpcExportRecord), (run call s history).hooks.ipc.exports[i]? = some rec → rec.hasMapping = true →
      (run call s history).hooks.ipc.drv.mappedAt rec.mappedVaddr rec.mappedSize = true →
      ((run call s history).exportCycle data).Back i := by
  intro h
  obtain ⟨rec, hrec, htorn, -⟩ := h empty fresh_empty
    (HookedProcess.exportHistory ++ [.exportHandle 1 posixFileDescriptor]) (fun _ => 0) (fun _ => rfl) ⟨rfl, rfl, rfl⟩
    ⟨rfl, rfl, rfl, rfl, rfl, rfl⟩ (by decide) 1 _ rfl rfl (by decide)
  have hget : (((run call empty (HookedProcess.exportHistory ++ [.exportHandle 1 posixFileDescriptor])).exportCycle
      fun _ => 0).hooks.ipc.exports[1]?.map (·.tornDown)) = some true := by decide
  rw [hrec, Option.map_some, htorn] at hget
  exact absurd hget (by simp)

end Cycle

end FdProcess

end GpuCr
