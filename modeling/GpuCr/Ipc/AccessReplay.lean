import GpuCr.Ipc.AccessHistory
import GpuCr.Ipc.Usable

/-!
# The access rights after a cycle

The three rebuild paths with the access maps of the driver. A range that is mapped again starts without access, and each
descriptor that is replayed is granted to it: those of `g_va_access_descs` for an export or a local allocation, those of the
record for an import.
-/

namespace GpuCr

open Lib.Run Lib.Grouping Std

/-! ### The rebuild with the access maps -/

/-- What is unmapped has no access any more. -/
def AccessTable.onlyMapped (t : AccessTable) (d : Driver) : AccessTable := fun va =>
  if d.startsAt va then t va else AccessMap.empty

/-- A call that grants a descriptor to a range. -/
def Driver.grantTo (va size : Nat) (x : Driver × AccessTable) (ad : CUmemAccessDesc) : Driver × AccessTable :=
  let r := x.1.cuMemSetAccess va size
  (r.2, if r.1 then x.2.grantInside x.1 va size [ad] else x.2)

/-- `RebuildItem.mapNew` with the access maps. -/
def RebuildItem.mapNewTable (x : RebuildItem) (p : Driver × AccessTable) : Driver × AccessTable :=
  match p.1.cuMemCreate x.size with
  | (none, d) => (d, p.2)
  | (some newHandle, d) =>
    match d.cuMemMap x.vaddr x.size newHandle with
    | (false, d) => ((d.cuMemRelease newHandle).2, p.2)
    | (true, d) => x.access.foldl (Driver.grantTo x.vaddr x.size) (d, p.2.reset x.vaddr)

/-- The import side of the driver with the access maps. -/
def Driver.accessOps (sizeOf : Nat → Nat) : ImportOps (Driver × AccessTable) where
  receiveFds := fun pid fds p =>
    let r := (Driver.importOps sizeOf).receiveFds pid fds p.1
    (r.1, r.2, p.2)
  importFd := fun fd p =>
    let r := p.1.cuMemCreate (sizeOf fd)
    (r.1, r.2, p.2)
  map := fun va size handle p =>
    let r := p.1.cuMemMap va size handle
    (r.1, r.2, if r.1 then p.2.reset va else p.2)
  unmap := fun va size p =>
    let r := p.1.cuMemUnmap va size
    (r.1, r.2, if r.1 then p.2.reset va else p.2)
  setAccess := fun va size ad p => ((p.1.cuMemSetAccess va size).1, Driver.grantTo va size p ad)
  release := fun handle p =>
    let r := p.1.cuMemRelease handle
    (r.1, r.2, p.2)

namespace IpcState

/-- The access maps after a stage. The stages of the teardown map nothing and grant nothing. -/
def stageTable (s : IpcState) (t : AccessTable) : CycleStage → AccessTable
  | .rebuildExports _ =>
    if s.fns.cuMemCreate && s.fns.cuMemMap && s.fns.cuMemcpyHtoD && s.fns.cuMemAddressReserve then
      (s.exportItems.foldl (fun p x => x.mapNewTable p) (s.drv, t)).2
    else t
  | .rebuildLocals _ =>
    if s.fns.cuMemCreate && s.fns.cuMemMap && s.fns.cuMemcpyHtoD then
      (s.localItems.foldl (fun p x => x.mapNewTable p) (s.drv, t)).2
    else t
  | .importPeers sizeOf block =>
    ((Driver.accessOps sizeOf).ipcImportFromShmBlock (s.fns.cuMemImport && s.fns.cuMemMap) s.fns.cuMemSetAccess block
      s.imports (s.drv, t)).2.2.2
  | stage => t.onlyMapped (s.stage stage).drv

end IpcState

namespace AccessProcess

def tableAfter (s : AccessProcess) (c : CycleInput) : AccessTable :=
  let t := s.hooks.ipc.stageTable s.table .teardownImports
  let t := s.hooks.ipc.atExportSave.stageTable t (.saveExports c.exportBuf)
  let t := (s.hooks.ipc.atLocalSave c).stageTable t (.saveLocals c.localBuf)
  let t := (s.hooks.ipc.tornDown c).stageTable t (.rebuildExports c.exportCopy)
  let t := (s.hooks.ipc.exportsBack c).stageTable t (.rebuildLocals c.localCopy)
  (s.hooks.ipc.localsBack c).stageTable t (.importPeers c.sizeOf c.block)

/-- Where something is mapped before the teardown and after the rebuild, the access is the same. -/
def AccessSurvives (s : AccessProcess) (c : CycleInput) : Prop :=
  ∀ va, s.hooks.ipc.drv.startsAt va = true → (s.hooks.ipc.importsBack c).drv.startsAt va = true →
    s.tableAfter c va = s.table va

end AccessProcess

/-! ### Granting to one mapping -/

namespace Driver

theorem grantInside_of_mappedAt {d : Driver} {va size : Nat} (h : d.mappedAt va size = true) (t : AccessTable)
    (desc : List CUmemAccessDesc) (a : Nat) :
    t.grantInside d va size desc a = if a = va then (t va).grant desc else t a := by
  unfold AccessTable.grantInside
  by_cases ha : a = va
  · subst ha
    obtain ⟨m, hm, hva, hsz⟩ := exists_mapping h
    rw [if_pos rfl, if_pos]
    exact List.any_eq_true.2 ⟨m, hm, by simp [hva, (inside_iff h hm).2 hva]⟩
  · rw [if_neg ha, if_neg]
    intro hany
    obtain ⟨m, hm, hin⟩ := List.any_eq_true.1 hany
    rw [Bool.and_eq_true, beq_iff_eq] at hin
    exact ha (hin.1.symm.trans ((inside_iff h hm).1 hin.2))

theorem startsAt_iff_mappedAt {d : Driver} {va : Nat} : d.startsAt va = true ↔ ∃ n, d.mappedAt va n = true := by
  rw [startsAt_iff]
  constructor
  · rintro ⟨m, hm, rfl⟩
    exact ⟨m.size, mappedAt_of_mem hm⟩
  · rintro ⟨n, hn⟩
    obtain ⟨m, hm, hva, -⟩ := exists_mapping hn
    exact ⟨m, hm, hva⟩

theorem SameView.startsAt {d d' : Driver} (h : d.SameView d') (va : Nat) : d'.startsAt va = d.startsAt va := by
  rw [Bool.eq_iff_iff, startsAt_iff_mappedAt, startsAt_iff_mappedAt]
  exact exists_congr fun n => by rw [h.mapped]

theorem foldl_grantTo {d : Driver} (henv : d.env.Reliable) {va size : Nat} (hat : d.mappedAt va size = true)
    (access : List CUmemAccessDesc) (t : AccessTable) :
    d.SameView (access.foldl (grantTo va size) (d, t)).1 ∧ (access.foldl (grantTo va size) (d, t)).1.env = d.env ∧
      ∀ a, (access.foldl (grantTo va size) (d, t)).2 a = if a = va then (t va).grant access else t a := by
  induction access generalizing d t with
  | nil =>
    refine ⟨sameView_of_eq rfl rfl, rfl, fun a => ?_⟩
    split_ifs with ha
    · rw [ha]
      rfl
    · rfl
  | cons ad access ih =>
    have hview := d.cuMemSetAccess_view va size
    have hok : (d.cuMemSetAccess va size).1 = true := by rw [cuMemSetAccess, call_of_valid henv hat]
    have hstep : grantTo va size (d, t) ad = ((d.cuMemSetAccess va size).2, t.grantInside d va size [ad]) := by
      unfold grantTo
      dsimp only
      rw [hok, if_pos rfl]
    have henv' := (d.cuMemSetAccess_frame va size).2
    obtain ⟨hview', hframe, htable⟩ := ih (d := (d.cuMemSetAccess va size).2) (henv' ▸ henv)
      ((hview.mapped va size).trans hat) (t.grantInside d va size [ad])
    rw [List.foldl_cons, hstep]
    refine ⟨⟨fun a n => (hview'.mapped a n).trans (hview.mapped a n), fun k => (hview'.live k).trans (hview.live k)⟩,
      hframe.trans henv', fun a => ?_⟩
    rw [htable, grantInside_of_mappedAt hat, grantInside_of_mappedAt hat, if_pos rfl]
    split_ifs
    · rfl
    · rfl

theorem startsAt_cuMemMap {d d' : Driver} {va size handle : Nat} (h : d.cuMemMap va size handle = (true, d')) (a : Nat) :
    d'.startsAt a = true ↔ a = va ∨ d.startsAt a = true := by
  obtain ⟨-, -, hmaps⟩ := (d.cuMemMap_maps va size handle).resolve_left (by simp [h])
  rw [h] at hmaps
  rw [startsAt_iff, startsAt_iff, hmaps]
  constructor
  · rintro ⟨m, hm, rfl⟩
    rcases List.mem_cons.1 hm with rfl | hm
    · exact Or.inl rfl
    · exact Or.inr ⟨m, hm, rfl⟩
  · rintro (rfl | ⟨m, hm, rfl⟩)
    · exact ⟨_, List.mem_cons_self .., rfl⟩
    · exact ⟨m, List.mem_cons_of_mem _ hm, rfl⟩

end Driver

/-! ### A driver with the access maps as well -/

namespace ImportOps

section Projects
variable {σ τ : Type} {ops : ImportOps σ} {ops' : ImportOps τ} {f : σ → τ}

/-- `f` takes what the calls of a rebuild do to one state to what they do to the other. -/
structure Projects (ops : ImportOps σ) (f : σ → τ) (ops' : ImportOps τ) : Prop where
  receiveFds : ∀ pid fds s, ops'.receiveFds pid fds (f s) = Prod.map id f (ops.receiveFds pid fds s)
  importFd : ∀ fd s, ops'.importFd fd (f s) = Prod.map id f (ops.importFd fd s)
  map : ∀ va size handle s, ops'.map va size handle (f s) = Prod.map id f (ops.map va size handle s)
  setAccess : ∀ va size ad s, ops'.setAccess va size ad (f s) = Prod.map id f (ops.setAccess va size ad s)
  release : ∀ handle s, ops'.release handle (f s) = Prod.map id f (ops.release handle s)

theorem Projects.requestFds (h : ops.Projects f ops') (block : List IpcExportShmEntry) (s : σ) :
    ops'.requestFds block (f s) = Prod.map id f (ops.requestFds block s) := by
  unfold ImportOps.requestFds
  show (peerRequests block).foldl ops'.requestPeer (Prod.map id f (fun _ => none, s)) = _
  refine List.foldl_hom (Prod.map id f) fun x req => ?_
  unfold requestPeer
  rw [Prod.map_snd, h.receiveFds]
  rfl

theorem Projects.replayAccess (h : ops.Projects f ops') (hasSetAccess : Bool) (rec : IpcImportRecord) (s : σ) :
    ops'.replayAccess hasSetAccess rec (f s) = f (ops.replayAccess hasSetAccess rec s) := by
  unfold ImportOps.replayAccess
  split_ifs
  · refine List.foldl_hom f fun s ad => ?_
    rw [h.setAccess]
    rfl
  · rw [h.setAccess]
    rfl
  · rfl

def Progress.map (f : σ → τ) (p : Progress σ) : Progress τ := ⟨p.imports, p.rebuilt, f p.state⟩

theorem Projects.rebuildImport (h : ops.Projects f ops') (hasSetAccess : Bool) (p : Progress σ)
    (pair : (IpcImportRecord × Nat) × Nat) :
    ops'.rebuildImport hasSetAccess (p.map f) pair = (ops.rebuildImport hasSetAccess p pair).map f := by
  unfold ImportOps.rebuildImport Progress.map
  dsimp only
  rw [h.importFd]
  rcases ops.importFd pair.2 p.state with ⟨_ | newHandle, s⟩
  · rfl
  · dsimp only [Prod.map, id]
    rw [h.map]
    rcases ops.map pair.1.1.mappedVaddr pair.1.1.size newHandle s with ⟨_ | _, s⟩
    · dsimp only [Prod.map, id]
      rw [h.release]
      rfl
    · dsimp only [Prod.map, id]
      rw [h.replayAccess]

theorem Projects.ipcImportFromShmBlock (h : ops.Projects f ops') (resolved hasSetAccess : Bool)
    (block : List IpcExportShmEntry) (imports : List IpcImportRecord) (s : σ) :
    ops'.ipcImportFromShmBlock resolved hasSetAccess block imports (f s) =
      Prod.map id (Prod.map id f) (ops.ipcImportFromShmBlock resolved hasSetAccess block imports s) := by
  unfold ImportOps.ipcImportFromShmBlock
  split_ifs
  · rfl
  · rfl
  · dsimp only
    rw [h.requestFds]
    generalize ops.requestFds block s = r
    have hfold : ((tornImports imports).zip (validExports block r.1)).foldl (ops'.rebuildImport hasSetAccess)
        (Progress.map f ⟨imports, 0, r.2⟩) = Progress.map f (((tornImports imports).zip (validExports block r.1)).foldl
          (ops.rebuildImport hasSetAccess) ⟨imports, 0, r.2⟩) :=
      List.foldl_hom (Progress.map f) fun p pair => h.rebuildImport hasSetAccess p pair
    exact congrArg (fun p : Progress τ => (some p.rebuilt, p.imports, p.state)) hfold

end Projects

end ImportOps

theorem Driver.accessOps_projects (sizeOf : Nat → Nat) :
    (Driver.accessOps sizeOf).Projects Prod.fst (Driver.importOps sizeOf) where
  receiveFds _ _ _ := rfl
  importFd _ _ := rfl
  map _ _ _ _ := rfl
  setAccess _ _ _ _ := rfl
  release _ _ := rfl

/-! ### What a stage keeps -/

/-- The map is the one of `RebuildItem.mapNew`. -/
theorem RebuildItem.mapNewTable_fst (x : RebuildItem) (p : Driver × AccessTable) : (x.mapNewTable p).1 = (x.mapNew p.1).2 := by
  unfold mapNewTable mapNew
  rcases p.1.cuMemCreate x.size with ⟨_ | newHandle, d⟩
  · rfl
  · dsimp only
    rcases d.cuMemMap x.vaddr x.size newHandle with ⟨_ | _, d⟩
    · rfl
    · dsimp only
      exact (List.foldl_hom (l := x.access) Prod.fst fun p ad => rfl).symm

namespace AccessProcess

/-- What was mapped before the teardown has the access it had. -/
def Keeps (s : AccessProcess) (p : Driver × AccessTable) : Prop :=
  ∀ va, s.hooks.ipc.drv.startsAt va = true → p.1.startsAt va = true → p.2 va = s.table va

/-- The descriptors give what the mapping at the address had. -/
def Gives (s : AccessProcess) (va : Nat) (access : List CUmemAccessDesc) : Prop :=
  s.hooks.ipc.drv.startsAt va = true → AccessMap.empty.grant access = s.table va

section Keeps
variable {s : AccessProcess} {d d' : Driver} {t : AccessTable} {p : Driver × AccessTable}

theorem Keeps.of_maps (h : s.Keeps (d, t)) (hd : d'.maps = d.maps) : s.Keeps (d', t) :=
  fun va hva hat => h va hva ((Driver.startsAt_congr (congrArg (List.map _) hd) va).symm.trans hat)

theorem Keeps.sameView (h : s.Keeps (d, t)) (hd : d.SameView d') : s.Keeps (d', t) :=
  fun va hva hat => h va hva ((hd.startsAt va).symm.trans hat)

theorem Keeps.shrunk (h : s.Keeps (d, t)) (hd : d.Shrunk d') : s.Keeps (d', t.onlyMapped d') := by
  intro va hva hat
  obtain ⟨m, hm, hmva⟩ := Driver.startsAt_iff.1 hat
  show (if d'.startsAt va then t va else AccessMap.empty) = s.table va
  rw [if_pos hat]
  exact h va hva (Driver.startsAt_iff.2 ⟨m, hd.maps m hm, hmva⟩)

theorem Keeps.granted (h : s.Keeps (d, t)) (henv : d.env.Reliable) {va size handle : Nat}
    (hmap : d.cuMemMap va size handle = (true, d')) {access : List CUmemAccessDesc} (hgives : s.Gives va access) :
    s.Keeps (access.foldl (Driver.grantTo va size) (d', t.reset va)) ∧
      (access.foldl (Driver.grantTo va size) (d', t.reset va)).1.env = d.env := by
  have henv' : d'.env = d.env := by
    have hframe := (d.cuMemMap_frame va size handle).2
    rw [hmap] at hframe
    exact hframe
  have hat : d'.mappedAt va size = true := by
    obtain ⟨-, -, hmaps⟩ := (d.cuMemMap_maps va size handle).resolve_left (by simp [hmap])
    rw [hmap] at hmaps
    exact Driver.mappedAt_of_mem (m := ⟨va, size, handle, false⟩) (hmaps ▸ List.mem_cons_self ..)
  obtain ⟨hview, hframe, htable⟩ := Driver.foldl_grantTo (henv'.symm ▸ henv) hat access (t.reset va)
  refine ⟨fun a ha hstart => ?_, hframe.trans henv'⟩
  rw [htable]
  split_ifs with heq
  · subst heq
    rw [AccessTable.reset_self]
    exact hgives ha
  · rw [AccessTable.reset_of_ne _ heq]
    rw [hview.startsAt, Driver.startsAt_cuMemMap hmap] at hstart
    exact h a ha (hstart.resolve_left heq)

theorem Keeps.notMapped (h : s.Keeps (d, t)) {va size handle : Nat} (hmap : d.cuMemMap va size handle = (false, d')) :
    s.Keeps ((d'.cuMemRelease handle).2, t) ∧ (d'.cuMemRelease handle).2.env = d.env := by
  have hmaps := ((d.cuMemMap_maps va size handle).resolve_right (by simp [hmap])).2
  have henv := (d.cuMemMap_frame va size handle).2
  rw [hmap] at hmaps henv
  exact ⟨h.of_maps ((d'.cuMemRelease_maps handle).trans hmaps), (d'.cuMemRelease_frame handle).2.trans henv⟩

theorem Keeps.mapNewTable (h : s.Keeps p) (henv : p.1.env.Reliable) {x : RebuildItem} (hgives : s.Gives x.vaddr x.access) :
    s.Keeps (x.mapNewTable p) ∧ (x.mapNewTable p).1.env = p.1.env := by
  have hkeeps : s.Keeps ((p.1.cuMemCreate x.size).2, p.2) := h.of_maps (p.1.cuMemCreate_maps x.size)
  have hframe := (p.1.cuMemCreate_frame x.size).2
  unfold RebuildItem.mapNewTable
  generalize p.1.cuMemCreate x.size = r at hkeeps hframe
  obtain ⟨_ | newHandle, d⟩ := r
  · exact ⟨hkeeps, hframe⟩
  · dsimp only
    rcases hmap : d.cuMemMap x.vaddr x.size newHandle with ⟨_ | _, d'⟩
    · obtain ⟨hkeeps, henv'⟩ := hkeeps.notMapped hmap
      exact ⟨hkeeps, henv'.trans hframe⟩
    · obtain ⟨hkeeps, henv'⟩ := hkeeps.granted (hframe.symm ▸ henv) hmap hgives
      exact ⟨hkeeps, henv'.trans hframe⟩

theorem Keeps.foldl_mapNewTable (items : List RebuildItem) (h : s.Keeps p) (henv : p.1.env.Reliable)
    (hgives : ∀ x ∈ items, s.Gives x.vaddr x.access) :
    s.Keeps (items.foldl (fun p x => x.mapNewTable p) p) := by
  induction items generalizing p with
  | nil => exact h
  | cons x items ih =>
    obtain ⟨hgx, hgives⟩ := List.forall_mem_cons.1 hgives
    obtain ⟨hkeeps, henv'⟩ := h.mapNewTable henv hgx
    exact ih hkeeps (henv'.symm ▸ henv) hgives

theorem Keeps.requestFds (sizeOf : Nat → Nat) (block : List IpcExportShmEntry) (h : s.Keeps p) :
    s.Keeps ((Driver.accessOps sizeOf).requestFds block p).2 ∧
      ((Driver.accessOps sizeOf).requestFds block p).2.1.env = p.1.env := by
  unfold ImportOps.requestFds
  refine List.foldlRecOn (motive := fun x : (Nat → Option Nat) × Driver × AccessTable => s.Keeps x.2 ∧ x.2.1.env = p.1.env)
    _ _ ⟨h, rfl⟩ fun x hx req _ => ?_
  exact ⟨Keeps.of_maps (d := x.2.1) hx.1 rfl, hx.2⟩

theorem replayAccess_eq (sizeOf : Nat → Nat) {rec : IpcImportRecord} (hnil : rec.allAccess = [] → rec.accessDev < 0)
    (p : Driver × AccessTable) : (Driver.accessOps sizeOf).replayAccess true rec p =
      rec.allAccess.foldl (Driver.grantTo rec.mappedVaddr rec.size) p := by
  unfold ImportOps.replayAccess
  by_cases hempty : rec.allAccess = []
  · have hdev : ¬ 0 ≤ rec.accessDev := by
      have := hnil hempty
      omega
    rw [if_neg fun h => h.1 hempty, if_neg fun h => hdev h.1, hempty]
    rfl
  · rw [if_pos ⟨hempty, rfl⟩]
    rfl

theorem Keeps.rebuildImport (sizeOf : Nat → Nat) {r : ImportOps.Progress (Driver × AccessTable)} (h : s.Keeps r.state)
    (henv : r.state.1.env.Reliable) {pair : (IpcImportRecord × Nat) × Nat}
    (hgives : s.Gives pair.1.1.mappedVaddr pair.1.1.allAccess) (hnil : pair.1.1.allAccess = [] → pair.1.1.accessDev < 0) :
    s.Keeps ((Driver.accessOps sizeOf).rebuildImport true r pair).state ∧
      ((Driver.accessOps sizeOf).rebuildImport true r pair).state.1.env = r.state.1.env := by
  have hkeeps : s.Keeps ((r.state.1.cuMemCreate (sizeOf pair.2)).2, r.state.2) :=
    h.of_maps (r.state.1.cuMemCreate_maps (sizeOf pair.2))
  have hframe := (r.state.1.cuMemCreate_frame (sizeOf pair.2)).2
  unfold ImportOps.rebuildImport
  dsimp only [Driver.accessOps]
  generalize r.state.1.cuMemCreate (sizeOf pair.2) = new at hkeeps hframe
  obtain ⟨_ | newHandle, d⟩ := new
  · exact ⟨hkeeps, hframe⟩
  · dsimp only
    rcases hmap : d.cuMemMap pair.1.1.mappedVaddr pair.1.1.size newHandle with ⟨_ | _, d'⟩
    · obtain ⟨hkeeps, henv'⟩ := hkeeps.notMapped hmap
      exact ⟨hkeeps, henv'.trans hframe⟩
    · obtain ⟨hkeeps, henv'⟩ := hkeeps.granted (hframe.symm ▸ henv) hmap hgives
      rw [← replayAccess_eq sizeOf hnil] at hkeeps henv'
      exact ⟨hkeeps, henv'.trans hframe⟩

theorem Keeps.foldl_rebuildImport (sizeOf : Nat → Nat) (pairs : List ((IpcImportRecord × Nat) × Nat))
    {r : ImportOps.Progress (Driver × AccessTable)} (h : s.Keeps r.state) (henv : r.state.1.env.Reliable)
    (hgives : ∀ pair ∈ pairs, s.Gives pair.1.1.mappedVaddr pair.1.1.allAccess ∧
      (pair.1.1.allAccess = [] → pair.1.1.accessDev < 0)) :
    s.Keeps (pairs.foldl ((Driver.accessOps sizeOf).rebuildImport true) r).state := by
  induction pairs generalizing r with
  | nil => exact h
  | cons pair pairs ih =>
    obtain ⟨hpair, hgives⟩ := List.forall_mem_cons.1 hgives
    obtain ⟨hkeeps, henv'⟩ := h.rebuildImport sizeOf henv hpair.1 hpair.2
    exact ih hkeeps (henv'.symm ▸ henv) hgives

end Keeps

end AccessProcess

theorem foldl_mapNewTable_fst (items : List RebuildItem) (r : AllocRun) (t : AccessTable) :
    (items.foldl (fun p x => x.mapNewTable p) (r.drv, t)).1 = (items.foldl AllocRun.item r).drv := by
  induction items generalizing r t with
  | nil => rfl
  | cons x items ih =>
    have hstep : (r.item x).drv = (x.mapNewTable (r.drv, t)).1 := (r.item_spec x).1.trans (x.mapNewTable_fst (r.drv, t)).symm
    rw [List.foldl_cons, List.foldl_cons, ← ih (r.item x) (x.mapNewTable (r.drv, t)).2, hstep]

namespace AccessProcess

section Stages
variable {s : AccessProcess} {q : IpcState} {t : AccessTable}

theorem Keeps.rebuildExports (h : s.Keeps (q.drv, t)) (henv : q.drv.env.Reliable)
    (hgives : ∀ x ∈ q.exportItems, s.Gives x.vaddr x.access) (buf : HostBuf) :
    s.Keeps ((q.stage (.rebuildExports buf)).drv, q.stageTable t (.rebuildExports buf)) := by
  show s.Keeps ((q.ipcRebuildAndRestoreAllExports buf).2.drv, if _ then _ else t)
  cases hfns : q.fns.cuMemCreate && q.fns.cuMemMap && q.fns.cuMemcpyHtoD && q.fns.cuMemAddressReserve with
  | false =>
    rw [IpcState.ipcRebuildAndRestoreAllExports, hfns]
    exact h
  | true =>
    have hkeeps := h.foldl_mapNewTable q.exportItems henv hgives
    rw [← Prod.mk.eta (p := List.foldl _ _ _), foldl_mapNewTable_fst q.exportItems ⟨q.drv, [], 0⟩ t] at hkeeps
    exact hkeeps.sameView (IpcState.sameView_rebuildExports hfns buf)

theorem Keeps.rebuildLocals (h : s.Keeps (q.drv, t)) (henv : q.drv.env.Reliable)
    (hgives : ∀ x ∈ q.localItems, s.Gives x.vaddr x.access) (buf : HostBuf) :
    s.Keeps ((q.stage (.rebuildLocals buf)).drv, q.stageTable t (.rebuildLocals buf)) := by
  show s.Keeps ((q.ipcRebuildLocalAllocs buf).2.drv, if _ then _ else t)
  cases hfns : q.fns.cuMemCreate && q.fns.cuMemMap && q.fns.cuMemcpyHtoD with
  | false =>
    rw [IpcState.ipcRebuildLocalAllocs, hfns]
    exact h
  | true =>
    have hkeeps := h.foldl_mapNewTable q.localItems henv hgives
    rw [← Prod.mk.eta (p := List.foldl _ _ _), foldl_mapNewTable_fst q.localItems ⟨q.drv, [], 0⟩ t] at hkeeps
    exact hkeeps.sameView (IpcState.sameView_rebuildLocals hfns buf)

theorem Keeps.importPeers (h : s.Keeps (q.drv, t)) (henv : q.drv.env.Reliable) (hset : q.fns.cuMemSetAccess = true)
    (hgives : ∀ rec ∈ q.imports, s.Gives rec.mappedVaddr rec.allAccess ∧ (rec.allAccess = [] → rec.accessDev < 0))
    (sizeOf : Nat → Nat) (block : List IpcExportShmEntry) :
    s.Keeps ((q.stage (.importPeers sizeOf block)).drv, q.stageTable t (.importPeers sizeOf block)) := by
  have hproject := (Driver.accessOps_projects sizeOf).ipcImportFromShmBlock (q.fns.cuMemImport && q.fns.cuMemMap)
    q.fns.cuMemSetAccess block q.imports (q.drv, t)
  have hdrv : (q.stage (.importPeers sizeOf block)).drv = ((Driver.accessOps sizeOf).ipcImportFromShmBlock
      (q.fns.cuMemImport && q.fns.cuMemMap) q.fns.cuMemSetAccess block q.imports (q.drv, t)).2.2.1 :=
    congrArg (·.2.2) hproject
  rw [hdrv]
  show s.Keeps ((Driver.accessOps sizeOf).ipcImportFromShmBlock _ _ block q.imports (q.drv, t)).2.2
  unfold ImportOps.ipcImportFromShmBlock
  split_ifs
  · exact h
  · exact h
  · obtain ⟨hkeeps, henv'⟩ := h.requestFds sizeOf block
    rw [hset]
    refine Keeps.foldl_rebuildImport sizeOf _ (r := ⟨q.imports, 0, _⟩) hkeeps (henv'.symm ▸ henv) fun pair hpair => ?_
    have hmem := (List.mem_filter.1 (List.of_mem_zip hpair).1).1
    exact hgives pair.1.1 (List.mem_of_getElem? (List.mk_mem_zipIdx_iff_getElem?.1 hmem))

end Stages

end AccessProcess

namespace IpcState

theorem shrunk_teardownImports (s : IpcState) : s.drv.Shrunk s.teardownAllImports.drv :=
  keptByTeardown_imports Driver.shrunk_keptByTeardown s

theorem rebuildExports_env (s : IpcState) (buf : HostBuf) : (s.ipcRebuildAndRestoreAllExports buf).2.drv.env = s.drv.env := by
  have htracks : (rebuildAlloc s.exportItems s.drv).Tracks s.drv := (AllocRun.tracks_start s.drv 0).foldl s.exportItems
  unfold ipcRebuildAndRestoreAllExports
  split_ifs
  · rfl
  · exact (same_foldl_trackExport _ { s with drv := _ }).env.trans
      ((rebuildCopy_spec s.fns buf htracks.apart).env.trans htracks.env)

theorem rebuildLocals_env (s : IpcState) (buf : HostBuf) : (s.ipcRebuildLocalAllocs buf).2.drv.env = s.drv.env := by
  have htracks : (rebuildAlloc s.localItems s.drv).Tracks s.drv := (AllocRun.tracks_start s.drv 0).foldl s.localItems
  unfold ipcRebuildLocalAllocs
  split_ifs
  · rfl
  · show (List.foldl trackLocal _ _).drv.env = _
    rw [foldl_trackLocal_drv]
    exact (rebuildCopy_spec s.fns buf htracks.apart).env.trans htracks.env

theorem rebuildExports_tables (s : IpcState) (buf : HostBuf) : (s.ipcRebuildAndRestoreAllExports buf).2.fns = s.fns ∧
    (s.ipcRebuildAndRestoreAllExports buf).2.vaAccessDescs = s.vaAccessDescs := by
  unfold ipcRebuildAndRestoreAllExports
  split_ifs
  · exact ⟨rfl, rfl⟩
  · obtain ⟨-, hdescs, hfns, -⟩ := foldl_trackExport_frame (rebuildAlloc s.exportItems s.drv).ordered
      { s with drv := (rebuildCopy s.fns buf (rebuildAlloc s.exportItems s.drv)).drv }
    exact ⟨hfns, hdescs⟩

theorem rebuildLocals_fns (s : IpcState) (buf : HostBuf) : (s.ipcRebuildLocalAllocs buf).2.fns = s.fns := by
  have hfold : ∀ (entries : List RebuildEntry) (s : IpcState), (entries.foldl trackLocal s).fns = s.fns := by
    intro entries
    induction entries with
    | nil => exact fun s => rfl
    | cons e entries ih =>
      intro s
      rw [List.foldl_cons, ih]
      unfold trackLocal
      split <;> rfl
  unfold ipcRebuildLocalAllocs
  split_ifs
  · rfl
  · exact hfold _ _

/-- What the saves leave in the tables. -/
structure SameTables (s s' : IpcState) : Prop where
  fns : s'.fns = s.fns
  vaAccessDescs : s'.vaAccessDescs = s.vaAccessDescs
  handleToVa : s'.handleToVa = s.handleToVa
  createdAllocs : s'.createdAllocs = s.createdAllocs

theorem sameTables_tornDown (s : IpcState) (c : CycleInput) :
    s.SameTables (s.atLocalSave c) ∧ s.SameTables (s.tornDown c) := by
  have hexports : ∀ (s : IpcState) (buf : HostBuf), s.SameTables (s.ipcSaveAndTeardownAllExports buf).2.1 := by
    intro s buf
    unfold ipcSaveAndTeardownAllExports
    dsimp only
    split_ifs <;> exact ⟨rfl, rfl, rfl, rfl⟩
  have hlocals : ∀ (s : IpcState) (buf : HostBuf), s.SameTables (s.ipcSaveAndTeardownLocalAllocs buf).2.1 := by
    intro s buf
    unfold ipcSaveAndTeardownLocalAllocs
    dsimp only
    split_ifs <;> exact ⟨rfl, rfl, rfl, rfl⟩
  obtain ⟨h1, h2, h3, h4⟩ := hexports s.atExportSave c.exportBuf
  obtain ⟨k1, k2, k3, k4⟩ := hlocals (s.atLocalSave c) c.localBuf
  exact ⟨⟨h1, h2, h3, h4⟩, ⟨k1.trans h1, k2.trans h2, k3.trans h3, k4.trans h4⟩⟩

theorem saveExports_ranges (s : IpcState) (buf : HostBuf) :
    (s.ipcSaveAndTeardownAllExports buf).2.1.exports.map (fun rec => (rec.hasMapping, rec.mappedVaddr, rec.mappedSize)) =
      s.exports.map fun rec => (rec.hasMapping, rec.mappedVaddr, rec.mappedSize) := by
  have hoffset := fun xs => map_foldl_recordOffset (fun rec => (rec.hasMapping, rec.mappedVaddr, rec.mappedSize))
    (fun rec offset => rfl) xs s.exports
  unfold ipcSaveAndTeardownAllExports
  dsimp only
  split_ifs
  · rfl
  · rfl
  · exact hoffset _
  · rw [List.map_map, List.map_map, ← hoffset]
    refine List.map_congr_left fun rec _ => ?_
    obtain ⟨fd, hfd⟩ := closeFd_eq rec
    rw [Function.comp_apply, Function.comp_apply, hfd]
    unfold markTorn
    split_ifs <;> rfl

theorem saveLocals_records {s : IpcState} {buf : HostBuf} (hok : (s.ipcSaveAndTeardownLocalAllocs buf).1 ≠ none)
    {rec : CuMemLocalAllocRecord} (hrec : rec ∈ (s.ipcSaveAndTeardownLocalAllocs buf).2.1.localAllocs) :
    ∃ e ∈ s.localEntries, rec.vaddr = e.vaddr := by
  unfold ipcSaveAndTeardownLocalAllocs at hok hrec
  dsimp only at hok hrec
  split_ifs at hok hrec
  · exact absurd rfl hok
  · exact absurd rfl hok
  · exact absurd rfl hok
  · obtain ⟨rec₀, hrec₀, rfl⟩ := List.mem_map.1 hrec
    obtain ⟨g, hg, hrec₀⟩ := List.mem_flatMap.1 hrec₀
    have hall : rec₀ ∈ s.deviceAllocs.flatMap fun g => g.2.map fun x => x.1.record :=
      List.mem_flatMap.2 ⟨g, List.mem_of_mem_take hg, hrec₀⟩
    rw [flatMap_deviceRecords] at hall
    obtain ⟨e, he, rfl⟩ := List.mem_map.1 hall
    exact ⟨e, s.perm_deviceOrder.mem_iff.1 he, rfl⟩

/-- A save that returns has copied from every range. -/
theorem saveExports_readable {s : IpcState} (henv : s.drv.env.Reliable) {buf : HostBuf}
    (hok : (s.ipcSaveAndTeardownAllExports buf).1 ≠ none) :
    ∀ rec ∈ s.exports, rec.active = true → s.drv.accessible rec.mappedVaddr rec.mappedSize = true := by
  refine (exportCopies_ok_iff henv).1 (?_ : (s.exportCopies buf).1 = true)
  by_contra hfail
  rw [Bool.not_eq_true] at hfail
  unfold ipcSaveAndTeardownAllExports at hok
  dsimp only at hok
  split_ifs at hok with h1 h2 h3
  · exact hok rfl
  · exact hok rfl
  · exact hok rfl
  · refine h3 ?_
    rw [show (saveGroups _ true s.deviceExports _).1 = false from hfail]
    rfl

end IpcState

/-! ### The cycle -/

namespace AccessProcess

section Cycle
variable {s : AccessProcess} {c : CycleInput}

theorem Recorded.gives (h : s.Recorded) {q : IpcState} (hdescs : q.vaAccessDescs = s.hooks.ipc.vaAccessDescs) {va n : Nat}
    (ht : s.hooks.Tracked va) (hpos : 0 < n) {d : Driver} (hd : s.hooks.ipc.drv.Shrunk d) (hacc : d.accessible va n = true)
    (otherwise : CUmemAccessDesc) : s.Gives va (q.accessOf va otherwise) := by
  intro hva
  obtain ⟨m, hm, hmva⟩ := Driver.startsAt_iff.1 hva
  rw [Driver.accessible, List.any_eq_true] at hacc
  obtain ⟨m', hm', hin⟩ := hacc
  simp only [Bool.and_eq_true, decide_eq_true_eq] at hin
  -- the mapping that is read is the one that starts there
  have heq : m' = m := by
    by_contra hne
    have hapart := s.hooks.ipc.drv.maps_apart.forall (hd.maps m' hm') hm hne
    have := s.hooks.ipc.drv.maps_pos m hm
    unfold Mapping.apart at hapart
    omega
  subst heq
  have hne := h.granted m' hm hin.1.1 (hmva.symm ▸ ht)
  rw [hmva] at hne
  have hold := (h.descs va ht hva).2
  unfold HookedProcess.descs at hne hold
  unfold IpcState.accessOf
  rw [hdescs]
  cases hget : s.hooks.ipc.vaAccessDescs[va]? with
  | none => exact absurd (by rw [hget]; rfl) hne
  | some descs =>
    rw [hget, Option.getD_some] at hne hold
    obtain ⟨ad, ads, rfl⟩ := List.exists_cons_of_ne_nil hne
    exact hold

theorem Recorded.gives_exports (h : s.Recorded) (henv : s.hooks.ipc.drv.env.Reliable) (htears : s.hooks.ipc.TearsDown c) :
    ∀ x ∈ (s.hooks.ipc.tornDown c).exportItems, s.Gives x.vaddr x.access := by
  intro x hx
  obtain ⟨⟨rec', i⟩, hmem, rfl⟩ := List.mem_map.1 hx
  obtain ⟨hmem, htorn⟩ := List.mem_filter.1 hmem
  have hrec' : (s.hooks.ipc.tornDown c).exports[i]? = some rec' := List.mk_mem_zipIdx_iff_getElem?.1 hmem
  have hexports : (s.hooks.ipc.tornDown c).exports = (s.hooks.ipc.atLocalSave c).exports :=
    ((s.hooks.ipc.atLocalSave c).saveLocals_frame c.localBuf).2.1
  have hranges := congrArg (·[i]?) (s.hooks.ipc.atExportSave.saveExports_ranges c.exportBuf)
  rw [List.getElem?_map, List.getElem?_map,
    show (s.hooks.ipc.atExportSave.ipcSaveAndTeardownAllExports c.exportBuf).2.1.exports[i]? = some rec' from
      hexports ▸ hrec'] at hranges
  obtain ⟨rec, hrec, heq⟩ := Option.map_eq_some_iff.1 hranges.symm
  simp only [Prod.mk.injEq] at heq
  obtain ⟨hmap, hva, hsize⟩ := heq
  simp only [IpcExportRecord.tornActive, Bool.and_eq_true, decide_eq_true_eq] at htorn
  have hmem : rec ∈ s.hooks.ipc.exports := List.mem_of_getElem? hrec
  have hactive : rec.active = true := by
    simp [IpcExportRecord.active, (h.sound.exports rec hmem).1, hmap, hsize, htorn.1.1.2, htorn.1.2]
  have hshrunk := s.hooks.ipc.shrunk_teardownImports
  have hacc := IpcState.saveExports_readable (s := s.hooks.ipc.atExportSave) (hshrunk.env ▸ henv) htears.exports rec hmem
    hactive
  have ht : s.hooks.Tracked rec'.mappedVaddr := Or.inr ⟨rec, hmem, hmap.trans htorn.1.1.2, hva⟩
  rw [hva, hsize] at hacc
  exact h.gives (s.hooks.ipc.sameTables_tornDown c).2.vaAccessDescs ht htorn.1.2 hshrunk hacc _

/-- The driver accepts every copy of the save of the local allocations. -/
def LocalsReadable (s : IpcState) (c : CycleInput) : Prop :=
  ∀ e ∈ (s.atLocalSave c).localEntries, (s.atLocalSave c).drv.accessible e.vaddr e.size = true

theorem Recorded.gives_locals (h : s.Recorded) (hset : s.hooks.ipc.fns.cuMemSetAccess = true)
    (hread : LocalsReadable s.hooks.ipc c) (htears : s.hooks.ipc.TearsDown c) :
    ∀ x ∈ (s.hooks.ipc.exportsBack c).localItems, s.Gives x.vaddr x.access := by
  intro x hx
  obtain ⟨⟨rec, i⟩, hmem, rfl⟩ := List.mem_map.1 hx
  have hrec : rec ∈ (s.hooks.ipc.exportsBack c).localAllocs :=
    List.mem_of_getElem? (List.mk_mem_zipIdx_iff_getElem?.1 (List.mem_filter.1 hmem).1)
  rw [show (s.hooks.ipc.exportsBack c).localAllocs = (s.hooks.ipc.tornDown c).localAllocs from
    (IpcState.rebuildExports_frame ..).2] at hrec
  obtain ⟨e, he, hva⟩ := IpcState.saveLocals_records htears.locals hrec
  obtain ⟨hsame, hsame'⟩ := s.hooks.ipc.sameTables_tornDown c
  obtain ⟨hfns, hdescs⟩ := (s.hooks.ipc.tornDown c).rebuildExports_tables c.exportCopy
  obtain ⟨hcreated, hat, -⟩ := HookedProcess.mem_localEntries.1 he
  rw [hsame.createdAllocs] at hcreated
  rw [hsame.handleToVa] at hat
  have hpos := h.sound.createdPos e.handle _ hcreated
  have hshrunk := s.hooks.ipc.shrunk_teardownImports.trans (s.hooks.ipc.atExportSave.shrunk_saveExports c.exportBuf)
  have hgives := h.gives (q := s.hooks.ipc.exportsBack c) (hdescs.trans hsame'.vaAccessDescs) (Or.inl ⟨e.handle, hat⟩) hpos
    hshrunk (hread e he) (IpcState.deviceAccess rec.prop.locationId)
  have hfn : (s.hooks.ipc.exportsBack c).fns.cuMemSetAccess = true := by
    rw [show (s.hooks.ipc.exportsBack c).fns = s.hooks.ipc.fns from hfns.trans hsame'.fns]
    exact hset
  show s.Gives rec.vaddr (if (s.hooks.ipc.exportsBack c).fns.cuMemSetAccess then _ else [])
  rw [if_pos hfn, hva]
  exact hgives

theorem Recorded.gives_imports (h : s.Recorded) : ∀ rec ∈ (s.hooks.ipc.localsBack c).imports,
    s.Gives rec.mappedVaddr rec.allAccess ∧ (rec.allAccess = [] → rec.accessDev < 0) := by
  have h1 : (s.hooks.ipc.localsBack c).imports = (s.hooks.ipc.exportsBack c).imports := IpcState.rebuildLocals_imports ..
  have h2 : (s.hooks.ipc.exportsBack c).imports = (s.hooks.ipc.tornDown c).imports := (IpcState.rebuildExports_frame ..).1
  have h3 : (s.hooks.ipc.tornDown c).imports = (s.hooks.ipc.atLocalSave c).imports := IpcState.saveLocals_imports ..
  have h4 : (s.hooks.ipc.atLocalSave c).imports = s.hooks.ipc.atExportSave.imports := IpcState.saveExports_imports ..
  rw [h1, h2, h3, h4]
  intro rec hrec
  have hold : ∃ rec₀ ∈ s.hooks.ipc.imports, rec.mappedVaddr = rec₀.mappedVaddr ∧ rec.allAccess = rec₀.allAccess ∧
      rec.accessDev = rec₀.accessDev := by
    change rec ∈ s.hooks.ipc.teardownAllImports.imports at hrec
    unfold IpcState.teardownAllImports ImportOps.ipcTeardownAllImports at hrec
    split_ifs at hrec
    · exact ⟨rec, hrec, rfl, rfl, rfl⟩
    · dsimp only at hrec
      rw [ImportOps.teardownImports_fst] at hrec
      obtain ⟨rec₀, hrec₀, rfl⟩ := List.mem_map.1 hrec
      refine ⟨rec₀, hrec₀, ?_⟩
      split_ifs <;> exact ⟨rfl, rfl, rfl⟩
  obtain ⟨rec₀, hrec₀, hva, hacc, hdev⟩ := hold
  obtain ⟨hnil, hgrant⟩ := h.imports rec₀ hrec₀
  rw [hva, hacc, hdev]
  exact ⟨fun hat => (hgrant hat).2, hnil⟩

/-- After a history that keeps the tables true, whatever the cycle maps again has the access it had. -/
theorem accessSurvives_of_history (s : AccessProcess) (hs : s.hooks.Fresh) (history : List HookCall) (c : CycleInput)
    (hok : AllSteps KeepsAccess step s history) (hset : (run step s history).hooks.ipc.fns.cuMemSetAccess = true)
    (henv : (run step s history).hooks.ipc.drv.env.Reliable) (htears : (run step s history).hooks.ipc.TearsDown c)
    (hread : LocalsReadable (run step s history).hooks.ipc c) : (run step s history).AccessSurvives c := by
  have h := recorded_of_history hs hok
  generalize run step s history = p at h hset henv htears hread
  have himports := p.hooks.ipc.shrunk_teardownImports
  have hexports := p.hooks.ipc.atExportSave.shrunk_saveExports c.exportBuf
  have hlocals := (p.hooks.ipc.atLocalSave c).shrunk_saveLocals c.localBuf
  have henv₁ : (p.hooks.ipc.tornDown c).drv.env = p.hooks.ipc.drv.env := (himports.trans (hexports.trans hlocals)).env
  have henv₂ : (p.hooks.ipc.exportsBack c).drv.env = p.hooks.ipc.drv.env :=
    ((p.hooks.ipc.tornDown c).rebuildExports_env c.exportCopy).trans henv₁
  have henv₃ : (p.hooks.ipc.localsBack c).drv.env = p.hooks.ipc.drv.env :=
    ((p.hooks.ipc.exportsBack c).rebuildLocals_env c.localCopy).trans henv₂
  have hfns : (p.hooks.ipc.localsBack c).fns = p.hooks.ipc.fns := by
    have h1 := (p.hooks.ipc.exportsBack c).rebuildLocals_fns c.localCopy
    have h2 := ((p.hooks.ipc.tornDown c).rebuildExports_tables c.exportCopy).1
    exact h1.trans (h2.trans (p.hooks.ipc.sameTables_tornDown c).2.fns)
  have hstart : p.Keeps (p.hooks.ipc.drv, p.table) := fun va _ _ => rfl
  have htorn := ((hstart.shrunk himports).shrunk hexports).shrunk hlocals
  have hback := htorn.rebuildExports (henv₁.symm ▸ henv) (h.gives_exports henv htears) c.exportCopy
  have hback := hback.rebuildLocals (henv₂.symm ▸ henv) (h.gives_locals hset hread htears) c.localCopy
  exact hback.importPeers (henv₃.symm ▸ henv) (hfns.symm ▸ hset) h.gives_imports c.sizeOf c.block

/-- No mapping yet. -/
def atStart : AccessProcess := ⟨HookedProcess.empty, fun _ => AccessMap.empty⟩

/-- The address is used again, after the allocation that had it is unmapped and released. -/
def reusedRange : List HookCall :=
  [.create 4096 1 ⟨0⟩, .map 0x10000 4096 1, .setAccess 0x10000 4096 [⟨1, 0, 3⟩, ⟨1, 1, 3⟩], .unmap 0x10000 4096, .release 1,
    .create 4096 1 ⟨0⟩, .map 0x10000 4096 5, .setAccess 0x10000 4096 [⟨1, 0, 3⟩]]

theorem keepsAccess_reusedRange : AllSteps KeepsAccess step atStart reusedRange := by
  have hnone : ∀ rec : IpcImportRecord, rec ∉ ([] : List IpcImportRecord) := fun rec => List.not_mem_nil
  have hone : ∀ handle : Nat, ∀ m ∈ [(⟨0x10000, 4096, handle, false⟩ : Mapping)], m.va = 0x10000 :=
    fun handle m hm => congrArg Mapping.va (List.mem_singleton.1 hm)
  refine ⟨trivial, fun _ _ => ⟨fun _ => rfl, fun rec hrec => absurd hrec (hnone rec)⟩, fun _ _ m hm _ hne => ?_, trivial,
    fun _ _ va hva hat => ?_, trivial, fun _ _ => ⟨fun _ => rfl, fun rec hrec => absurd hrec (hnone rec)⟩,
    fun _ _ m hm _ hne => ?_, trivial⟩
  · exact absurd (hone 1 m hm) hne
  · exact absurd (show false = true from hat) Bool.false_ne_true
  · exact absurd (hone 5 m hm) hne

theorem accessSurvives_reusedRange : (run step atStart reusedRange).AccessSurvives HookedProcess.localCycle :=
  accessSurvives_of_history atStart HookedProcess.fresh_empty reusedRange HookedProcess.localCycle keepsAccess_reusedRange rfl
    (fun _ => rfl) ⟨rfl, by decide, by decide⟩ (by unfold LocalsReadable; decide)

/-- The same allocation is mapped there again, for one of the two devices. -/
def remappedRange : List HookCall :=
  [.create 4096 1 ⟨0⟩, .map 0x10000 4096 1, .setAccess 0x10000 4096 [⟨1, 0, 3⟩, ⟨1, 1, 3⟩], .unmap 0x10000 4096,
    .map 0x10000 4096 1, .setAccess 0x10000 4096 [⟨1, 0, 3⟩]]

/-- The rebuild gives the second device its access back. -/
theorem not_accessSurvives : ¬ ∀ s : AccessProcess, s.hooks.Fresh → ∀ (history : List HookCall) (c : CycleInput),
    (run step s history).hooks.ipc.fns.cuMemSetAccess = true → (run step s history).hooks.ipc.drv.env.Reliable →
      (run step s history).hooks.ipc.TearsDown c → LocalsReadable (run step s history).hooks.ipc c →
        (run step s history).AccessSurvives c := by
  intro h
  have hsurvives := h atStart HookedProcess.fresh_empty remappedRange HookedProcess.localCycle rfl (fun _ => rfl)
    ⟨rfl, by decide, by decide⟩ (by unfold LocalsReadable; decide) 0x10000 rfl rfl
  have hflags := congrFun hsurvives (1, 1)
  exact absurd (show some 3 = none from hflags) (by simp)

end Cycle

end AccessProcess

end GpuCr
