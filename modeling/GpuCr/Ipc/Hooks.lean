import GpuCr.Lib.Run
import GpuCr.Ipc.Exports
import Mathlib.Logic.Function.Basic

/-!
# The hooked driver calls

The seven hooks of `src/ipc_hooks.cpp` that an application's calls go through: `cuMemCreate`,
`cuMemExportToShareableHandle`, `cuMemImportFromShareableHandle`, `cuMemMap`, `cuMemUnmap`, `cuMemRelease`
and `cuMemSetAccess`. A hook calls the driver and, if that accepts, writes the tables. What the driver
holds for this process is kept beside the tables: what each live handle stands for, what is mapped where,
and which descriptors are open.
-/

namespace GpuCr

open Lib.Run Std

/-- What a handle stands for. `created` is memory that can be shared (`requestedHandleTypes != 0`), `plain`
memory that can not. -/
inductive AllocKind where
  | plain
  | created
  | imported
  deriving DecidableEq, Repr

/-- A mapping of the application. `handle` is none once the allocation's handle is released. -/
structure HeldMapping where
  va : Nat
  size : Nat
  handle : Option Nat
  kind : AllocKind
  deriving DecidableEq, Repr

/-- The mapping stays when the handle goes. -/
def HeldMapping.dropHandle (h : Nat) (t : HeldMapping) : HeldMapping :=
  if t.handle = some h then { t with handle := none } else t

def IpcImportRecord.dropHandle (h : Nat) (rec : IpcImportRecord) : IpcImportRecord :=
  if rec.handle = h then { rec with handle := 0 } else rec

def IpcExportRecord.dropHandle (h : Nat) (rec : IpcExportRecord) : IpcExportRecord :=
  if rec.localHandle = h then { rec with localHandle := 0 } else rec

/-- The import record of the mapping `t`. -/
def IpcImportRecord.Of (rec : IpcImportRecord) (t : HeldMapping) : Prop :=
  t.va = rec.mappedVaddr ∧ t.size = rec.size ∧ t.kind = .imported ∧
    t.handle = if rec.handle = 0 then none else some rec.handle

/-- The tables of the hooks; `kind`, `mapped` and `openFds` are the driver's side, which no code reads. -/
structure HookedProcess where
  ipc : IpcState
  importedHandles : List Nat
  vaddrToImportIdx : ExtTreeMap Nat Nat
  vaddrToExportIdx : ExtTreeMap Nat Nat
  kind : Nat → AllocKind
  mapped : List HeldMapping
  openFds : List Int

/-- The calls of the application. The fd of an import comes with the size of the allocation behind it. -/
inductive HookCall where
  | create (size requestedHandleTypes : Nat) (prop : CUmemAllocationProp)
  | exportHandle (handle handleType : Nat)
  | importHandle (size : Nat)
  | map (ptr size handle : Nat)
  | unmap (ptr size : Nat)
  | release (handle : Nat)
  | setAccess (ptr size : Nat) (desc : List CUmemAccessDesc)

/-- The driver accepts live handles only, and may turn one down that can not be shared. -/
def Driver.cuMemExportToShareableHandle (d : Driver) (handle : Nat) : Option Int × Driver :=
  let r := d.call (d.isLive handle) id
  (if r.1 then some (d.env.pick d.clock) else none, r.2)

theorem Driver.cuMemExportToShareableHandle_view (d : Driver) (handle : Nat) :
    (d.cuMemExportToShareableHandle handle).1 = none ∧ d.SameView (d.cuMemExportToShareableHandle handle).2 ∨
      ∃ fd, (d.cuMemExportToShareableHandle handle).1 = some fd ∧ 0 ≤ fd ∧ d.isLive handle = true ∧
        d.SameView (d.cuMemExportToShareableHandle handle).2 := by
  by_cases h : (d.isLive handle && !d.env.fails d.clock) = true
  · have hcall : d.cuMemExportToShareableHandle handle =
        (some (d.env.pick d.clock : Int), { d with clock := d.clock + 1 }) := by
      rw [cuMemExportToShareableHandle, call, if_pos h]
      rfl
    rw [hcall]
    exact Or.inr ⟨_, rfl, Int.natCast_nonneg _, (Bool.and_eq_true _ _ ▸ h).1, sameView_of_eq rfl rfl⟩
  · have hcall : d.cuMemExportToShareableHandle handle = (none, { d with clock := d.clock + 1 }) := by
      rw [cuMemExportToShareableHandle, call, if_neg h]
      rfl
    rw [hcall]
    exact Or.inl ⟨rfl, sameView_of_eq rfl rfl⟩

namespace HookedProcess

def setDrv (s : HookedProcess) (d : Driver) : HookedProcess := { s with ipc := { s.ipc with drv := d } }

/-! ### The hooks

`d` is the driver after the call. -/

def recordCreate (s : HookedProcess) (d : Driver) (handle size : Nat) (prop : CUmemAllocationProp) : HookedProcess :=
  { s with
    ipc := { s.ipc with drv := d, createdAllocs := s.ipc.createdAllocs.insert handle ⟨size, prop⟩ }
    kind := Function.update s.kind handle .created }

def hookCuMemCreate (s : HookedProcess) (size requestedHandleTypes : Nat) (prop : CUmemAllocationProp) : HookedProcess :=
  if !s.ipc.fns.cuMemCreate then s
  else
    match s.ipc.drv.cuMemCreate size with
    | (none, d) => s.setDrv d
    | (some handle, d) =>
      if requestedHandleTypes ≠ 0 then s.recordCreate d handle size prop
      else s.setDrv d

/-- `CU_MEM_HANDLE_TYPE_POSIX_FILE_DESCRIPTOR` -/
def posixFileDescriptor : Nat := 1

/-- The record of a new export. -/
def exportRecord (s : HookedProcess) (handle handleType : Nat) (exportedFd : Int) : IpcExportRecord :=
  let create := s.ipc.createdAllocs[handle]?
  let size := (create.map (·.size)).getD 0
  let va := s.ipc.handleToVa[handle]?
  { appLocalHandle := handle
    localHandle := handle
    exportedFd := exportedFd
    handleType := handleType
    size := size
    mappedVaddr := va.getD 0
    mappedSize := if va.isSome then size else 0
    hasMapping := va.isSome
    accessDesc := ⟨0, 0, 0⟩
    hasAccess := false
    tornDown := false
    savedProp := (create.map (·.prop)).getD ⟨0⟩
    hasSavedProp := create.isSome
    savedDataOffset := 0
    hasSavedDataOffset := false }

/-- `fd` is none for a handle type without a descriptor. -/
def recordExport (s : HookedProcess) (d : Driver) (handle handleType : Nat) (fd : Option Int) : HookedProcess :=
  let exp := s.exportRecord handle handleType (fd.getD (-1))
  { s with
    ipc := { s.ipc with drv := d, exports := s.ipc.exports ++ [exp] }
    vaddrToExportIdx := if exp.hasMapping then
      s.vaddrToExportIdx.insert exp.mappedVaddr s.ipc.exports.length else s.vaddrToExportIdx
    openFds := fd.toList ++ s.openFds }

def hookCuMemExportToShareableHandle (s : HookedProcess) (handle handleType : Nat) : HookedProcess :=
  if !s.ipc.fns.cuMemExport then s
  else
    match s.ipc.drv.cuMemExportToShareableHandle handle with
    | (none, d) => s.setDrv d
    | (some fd, d) => s.recordExport d handle handleType (if handleType = posixFileDescriptor then some fd else none)

def recordImport (s : HookedProcess) (d : Driver) (handle : Nat) : HookedProcess :=
  { s with
    ipc := { s.ipc with drv := d }
    importedHandles := handle :: s.importedHandles
    kind := Function.update s.kind handle .imported }

def hookCuMemImportFromShareableHandle (s : HookedProcess) (size : Nat) : HookedProcess :=
  if !s.ipc.fns.cuMemImport then s
  else
    match s.ipc.drv.cuMemCreate size with
    | (none, d) => s.setDrv d
    | (some handle, d) => s.recordImport d handle

def recordMapping (s : HookedProcess) (d : Driver) (ptr size handle : Nat) : HookedProcess :=
  { s with
    ipc := { s.ipc with drv := d }
    mapped := ⟨ptr, size, some handle, s.kind handle⟩ :: s.mapped }

/-- The branch of `cuMemMap` for an imported handle. -/
def mapImported (s : HookedProcess) (ptr size handle : Nat) : HookedProcess :=
  if handle ∈ s.importedHandles then
    { s with
      ipc := { s.ipc with imports := s.ipc.imports ++ [⟨ptr, size, handle, -1, ⟨0, 0, 0⟩, [], false⟩] }
      vaddrToImportIdx := s.vaddrToImportIdx.insert ptr s.ipc.imports.length }
  else s

/-- `exp` is an export of the handle that waits for its mapping. -/
def waits (handle : Nat) (exp : IpcExportRecord) : Bool := exp.localHandle == handle && !exp.hasMapping

def giveMapping (ptr size handle : Nat) (exp : IpcExportRecord) : IpcExportRecord :=
  if waits handle exp then { exp with mappedVaddr := ptr, mappedSize := size, hasMapping := true } else exp

/-- The branch of `cuMemMap` for a handle in `g_created_allocs`. -/
def mapCreated (s : HookedProcess) (ptr size handle : Nat) : HookedProcess :=
  if handle ∈ s.ipc.createdAllocs then
    { s with
      ipc := { s.ipc with
        handleToVa := s.ipc.handleToVa.insert handle ptr
        exports := s.ipc.exports.map (giveMapping ptr size handle) }
      vaddrToExportIdx := s.ipc.exports.zipIdx.foldl
        (fun m x => if waits handle x.1 then m.insert ptr x.2 else m) s.vaddrToExportIdx }
  else s

def recordMap (s : HookedProcess) (d : Driver) (ptr size handle : Nat) : HookedProcess :=
  ((s.recordMapping d ptr size handle).mapImported ptr size handle).mapCreated ptr size handle

def hookCuMemMap (s : HookedProcess) (ptr size handle : Nat) : HookedProcess :=
  if !s.ipc.fns.cuMemMap then s
  else
    match s.ipc.drv.cuMemMap ptr size handle with
    | (false, d) => s.setDrv d
    | (true, d) => s.recordMap d ptr size handle

/-- Only import records learn of an unmapping. -/
def recordUnmap (s : HookedProcess) (d : Driver) (ptr : Nat) : HookedProcess :=
  { s with
    ipc := { s.ipc with
      drv := d
      imports := match s.vaddrToImportIdx[ptr]? with
        | none => s.ipc.imports
        | some idx => s.ipc.imports.modify idx fun rec => { rec with tornDown := true } }
    mapped := s.mapped.filter fun t => t.va != ptr }

def hookCuMemUnmap (s : HookedProcess) (ptr size : Nat) : HookedProcess :=
  if !s.ipc.fns.cuMemUnmap then s
  else
    match s.ipc.drv.cuMemUnmap ptr size with
    | (false, d) => s.setDrv d
    | (true, d) => s.recordUnmap d ptr

/-- `cleanup_handle` of `cuMemRelease`. -/
def cleanupHandle (s : HookedProcess) (h : Nat) : HookedProcess :=
  { s with
    ipc := { s.ipc with
      vaAccessDescs := match s.ipc.handleToVa[h]? with
        | none => s.ipc.vaAccessDescs
        | some va => s.ipc.vaAccessDescs.erase va
      handleToVa := s.ipc.handleToVa.erase h
      createdAllocs := s.ipc.createdAllocs.erase h
      imports := s.ipc.imports.map (IpcImportRecord.dropHandle h)
      exports := s.ipc.exports.map (IpcExportRecord.dropHandle h)
      localAllocs := s.ipc.localAllocs.map fun rec => if rec.handle = h then { rec with tornDown := true } else rec }
    vaddrToExportIdx := match s.ipc.handleToVa[h]? with
      | none => s.vaddrToExportIdx
      | some va => s.vaddrToExportIdx.erase va
    importedHandles := s.importedHandles.filter (· != h) }

def dropAliases (s : HookedProcess) (handle actual : Nat) : HookedProcess :=
  { s with ipc := { s.ipc with rebuiltHandleAlias := s.ipc.rebuiltHandleAlias.filter fun app new =>
    !(app == handle || app == actual || new == handle || new == actual) } }

/-- `actual` is the handle that stands for `handle` since a rebuild, or `handle`. -/
def recordRelease (s : HookedProcess) (d : Driver) (handle actual : Nat) : HookedProcess :=
  let s := ({ s.setDrv d with
    kind := Function.update s.kind actual .plain
    mapped := s.mapped.map (HeldMapping.dropHandle actual) } : HookedProcess)
  let s := s.cleanupHandle handle
  let s := if actual ≠ handle then s.cleanupHandle actual else s
  s.dropAliases handle actual

def hookCuMemRelease (s : HookedProcess) (handle : Nat) : HookedProcess :=
  if !s.ipc.fns.cuMemRelease then s
  else
    let actual := s.ipc.rebuiltHandleAlias[handle]?.getD handle
    match s.ipc.drv.cuMemRelease actual with
    | (false, d) => s.setDrv d
    | (true, d) => s.recordRelease d handle actual

/-- A descriptor for a location that has one replaces its flags. -/
def mergeDesc (descs : List CUmemAccessDesc) (desc : CUmemAccessDesc) : List CUmemAccessDesc :=
  match descs.findIdx? fun x => x.locationType == desc.locationType && x.locationId == desc.locationId with
  | some i => descs.modify i fun x => { x with flags := desc.flags }
  | none => descs ++ [desc]

def accessImport (desc : List CUmemAccessDesc) (first : CUmemAccessDesc) (rec : IpcImportRecord) : IpcImportRecord :=
  { rec with accessDesc := first, accessDev := first.locationId, allAccess := desc.foldl mergeDesc rec.allAccess }

def accessExport (first : CUmemAccessDesc) (rec : IpcExportRecord) : IpcExportRecord :=
  { rec with accessDesc := first, hasAccess := true }

/-- `first` is the first of the descriptors. -/
def recordAccess (s : HookedProcess) (d : Driver) (ptr : Nat) (desc : List CUmemAccessDesc) (first : CUmemAccessDesc) :
    HookedProcess :=
  { s with ipc := { s.ipc with
    drv := d
    vaAccessDescs := s.ipc.vaAccessDescs.insert ptr (desc.foldl mergeDesc (s.ipc.vaAccessDescs[ptr]?.getD []))
    imports := match s.vaddrToImportIdx[ptr]? with
      | none => s.ipc.imports
      | some idx => s.ipc.imports.modify idx (accessImport desc first)
    exports := match s.vaddrToExportIdx[ptr]? with
      | none => s.ipc.exports
      | some idx => s.ipc.exports.modify idx (accessExport first) } }

def hookCuMemSetAccess (s : HookedProcess) (ptr size : Nat) (desc : List CUmemAccessDesc) : HookedProcess :=
  if !s.ipc.fns.cuMemSetAccess then s
  else
    match s.ipc.drv.cuMemSetAccess ptr size with
    | (false, d) => s.setDrv d
    | (true, d) =>
      match desc with
      | [] => s.setDrv d
      | first :: _ => s.recordAccess d ptr desc first

def call (s : HookedProcess) : HookCall → HookedProcess
  | .create size requestedHandleTypes prop => s.hookCuMemCreate size requestedHandleTypes prop
  | .exportHandle handle handleType => s.hookCuMemExportToShareableHandle handle handleType
  | .importHandle size => s.hookCuMemImportFromShareableHandle size
  | .map ptr size handle => s.hookCuMemMap ptr size handle
  | .unmap ptr size => s.hookCuMemUnmap ptr size
  | .release handle => s.hookCuMemRelease handle
  | .setAccess ptr size desc => s.hookCuMemSetAccess ptr size desc

/-! ### What a call can do -/

/-- The effects of a call: the driver turns it down, or the tables are written. -/
inductive Effect (s : HookedProcess) : HookCall → HookedProcess → Prop
  | rejected {c : HookCall} {d : Driver} (hd : s.ipc.drv.SameView d) : Effect s c (s.setDrv d)
  | plain {size handle : Nat} {prop : CUmemAllocationProp} {d : Driver} (hd : s.ipc.drv.NewHandle d handle) :
    Effect s (.create size 0 prop) (s.setDrv d)
  | created {size types handle : Nat} {prop : CUmemAllocationProp} {d : Driver}
    (hd : s.ipc.drv.NewHandle d handle) (hpos : 0 < size) :
    Effect s (.create size types prop) (s.recordCreate d handle size prop)
  | exported {handle type : Nat} {fd : Option Int} {d : Driver} (hd : s.ipc.drv.SameView d)
    (hlive : s.ipc.drv.isLive handle = true) (hfd : ∀ x ∈ fd, 0 ≤ x) :
    Effect s (.exportHandle handle type) (s.recordExport d handle type fd)
  | imported {size handle : Nat} {d : Driver} (hd : s.ipc.drv.NewHandle d handle) :
    Effect s (.importHandle size) (s.recordImport d handle)
  | mapped {ptr size handle : Nat} {d : Driver} (hd : s.ipc.drv.NewRange d ptr size handle) :
    Effect s (.map ptr size handle) (s.recordMap d ptr size handle)
  | unmapped {ptr size : Nat} {d : Driver} (hd : s.ipc.drv.DropRange d ptr size) :
    Effect s (.unmap ptr size) (s.recordUnmap d ptr)
  | released {handle : Nat} {d : Driver}
    (hd : s.ipc.drv.DropHandle d (s.ipc.rebuiltHandleAlias[handle]?.getD handle)) :
    Effect s (.release handle) (s.recordRelease d handle (s.ipc.rebuiltHandleAlias[handle]?.getD handle))
  | access {ptr size : Nat} {desc : List CUmemAccessDesc} {first : CUmemAccessDesc} {d : Driver}
    (hd : s.ipc.drv.SameView d) : Effect s (.setAccess ptr size desc) (s.recordAccess d ptr desc first)

theorem call_effect (s : HookedProcess) (c : HookCall) : Effect s c (s.call c) := by
  have hself : Effect s c s := .rejected (Driver.sameView_of_eq (d := s.ipc.drv) rfl rfl)
  cases c with
  | create size types prop =>
    show Effect s _ (s.hookCuMemCreate size types prop)
    unfold hookCuMemCreate
    split_ifs with hfn htypes
    · exact hself
    all_goals rcases s.ipc.drv.cuMemCreate_view size with ⟨h1, hd⟩ | ⟨hpos, h, h1, hd⟩
    all_goals
      generalize s.ipc.drv.cuMemCreate size = r at h1 hd
      obtain ⟨r1, d⟩ := r
      obtain rfl := h1
    · exact .rejected hd
    · exact .created hd hpos
    · exact .rejected hd
    · obtain rfl : types = 0 := not_not.1 htypes
      exact .plain hd
  | exportHandle handle type =>
    show Effect s _ (s.hookCuMemExportToShareableHandle handle type)
    unfold hookCuMemExportToShareableHandle
    split_ifs with hfn htype
    · exact hself
    all_goals rcases s.ipc.drv.cuMemExportToShareableHandle_view handle with ⟨h1, hd⟩ | ⟨fd, h1, hfd, hlive, hd⟩
    all_goals
      generalize s.ipc.drv.cuMemExportToShareableHandle handle = r at h1 hd
      obtain ⟨r1, d⟩ := r
      obtain rfl := h1
    · exact .rejected hd
    · exact .exported hd hlive (by simpa using hfd)
    · exact .rejected hd
    · exact .exported hd hlive (by simp)
  | importHandle size =>
    show Effect s _ (s.hookCuMemImportFromShareableHandle size)
    unfold hookCuMemImportFromShareableHandle
    split_ifs with hfn
    · exact hself
    rcases s.ipc.drv.cuMemCreate_view size with ⟨h1, hd⟩ | ⟨hpos, h, h1, hd⟩
    all_goals
      generalize s.ipc.drv.cuMemCreate size = r at h1 hd
      obtain ⟨r1, d⟩ := r
      obtain rfl := h1
    · exact .rejected hd
    · exact .imported hd
  | map ptr size handle =>
    show Effect s _ (s.hookCuMemMap ptr size handle)
    unfold hookCuMemMap
    split_ifs with hfn
    · exact hself
    rcases s.ipc.drv.cuMemMap_view ptr size handle with ⟨h1, hd⟩ | ⟨h1, hd⟩
    all_goals
      generalize s.ipc.drv.cuMemMap ptr size handle = r at h1 hd
      obtain ⟨r1, d⟩ := r
      obtain rfl := h1
    · exact .rejected hd
    · exact .mapped hd
  | unmap ptr size =>
    show Effect s _ (s.hookCuMemUnmap ptr size)
    unfold hookCuMemUnmap
    split_ifs with hfn
    · exact hself
    rcases s.ipc.drv.cuMemUnmap_view ptr size with ⟨h1, hd⟩ | ⟨h1, hd⟩
    all_goals
      generalize s.ipc.drv.cuMemUnmap ptr size = r at h1 hd
      obtain ⟨r1, d⟩ := r
      obtain rfl := h1
    · exact .rejected hd
    · exact .unmapped hd
  | release handle =>
    show Effect s _ (s.hookCuMemRelease handle)
    unfold hookCuMemRelease
    split_ifs with hfn
    · exact hself
    dsimp only
    rcases s.ipc.drv.cuMemRelease_view (s.ipc.rebuiltHandleAlias[handle]?.getD handle) with ⟨h1, hd⟩ | ⟨h1, hd⟩
    all_goals
      generalize s.ipc.drv.cuMemRelease (s.ipc.rebuiltHandleAlias[handle]?.getD handle) = r at h1 hd
      obtain ⟨r1, d⟩ := r
      obtain rfl := h1
    · exact .rejected hd
    · exact .released hd
  | setAccess ptr size desc =>
    show Effect s _ (s.hookCuMemSetAccess ptr size desc)
    unfold hookCuMemSetAccess
    split_ifs with hfn
    · exact hself
    have hd := s.ipc.drv.cuMemSetAccess_view ptr size
    generalize s.ipc.drv.cuMemSetAccess ptr size = r at hd
    obtain ⟨r1, d⟩ := r
    cases r1 with
    | false => exact .rejected hd
    | true =>
      cases desc with
      | nil => exact .rejected hd
      | cons first desc => exact .access hd

theorem recordMap_mapped (s : HookedProcess) (d : Driver) (ptr size handle : Nat) :
    (s.recordMap d ptr size handle).mapped = ⟨ptr, size, some handle, s.kind handle⟩ :: s.mapped := by
  unfold recordMap mapCreated mapImported
  split_ifs <;> rfl

theorem recordMap_drv (s : HookedProcess) (d : Driver) (ptr size handle : Nat) :
    (s.recordMap d ptr size handle).ipc.drv = d := by
  unfold recordMap mapCreated mapImported
  split_ifs <;> rfl

theorem recordMap_imports (s : HookedProcess) (d : Driver) (ptr size handle : Nat) :
    (s.recordMap d ptr size handle).ipc.imports = if handle ∈ s.importedHandles then
      s.ipc.imports ++ [⟨ptr, size, handle, -1, ⟨0, 0, 0⟩, [], false⟩] else s.ipc.imports := by
  have hcreated : ∀ s : HookedProcess, (s.mapCreated ptr size handle).ipc.imports = s.ipc.imports := by
    intro s
    unfold mapCreated
    split_ifs <;> rfl
  unfold recordMap
  rw [hcreated]
  unfold mapImported recordMapping
  split_ifs <;> rfl

theorem recordMap_handleToVa (s : HookedProcess) (d : Driver) (ptr size handle q : Nat) :
    (s.recordMap d ptr size handle).ipc.handleToVa[q]? =
      if handle ∈ s.ipc.createdAllocs ∧ q = handle then some ptr else s.ipc.handleToVa[q]? := by
  have hcreated : ((s.recordMapping d ptr size handle).mapImported ptr size handle).ipc.createdAllocs =
      s.ipc.createdAllocs ∧ ((s.recordMapping d ptr size handle).mapImported ptr size handle).ipc.handleToVa =
      s.ipc.handleToVa := by
    unfold mapImported
    split_ifs <;> exact ⟨rfl, rfl⟩
  unfold recordMap mapCreated
  rw [hcreated.1]
  split_ifs with h1 h2 h2
  · show (ExtTreeMap.insert _ _ _)[q]? = _
    rw [getElem?_insert_key, if_pos h2.2]
  · show (ExtTreeMap.insert _ _ _)[q]? = _
    rw [getElem?_insert_key, if_neg fun hq => h2 ⟨h1, hq⟩, hcreated.2]
  · exact absurd h2.1 h1
  · rw [hcreated.2]

theorem recordRelease_self (s : HookedProcess) (d : Driver) (k : Nat) :
    (s.recordRelease d k k).mapped = s.mapped.map (HeldMapping.dropHandle k) ∧
      (s.recordRelease d k k).ipc.handleToVa = s.ipc.handleToVa.erase k := by
  simp only [recordRelease, ne_eq, not_true_eq_false, if_false]
  exact ⟨rfl, rfl⟩

/-! ### What every history keeps -/

/-- Before the first call the tables are empty. The driver may hold memory of others. -/
structure Fresh (s : HookedProcess) : Prop where
  nullDead : s.ipc.drv.isLive 0 = false
  imports : s.ipc.imports = []
  exports : s.ipc.exports = []
  vaddrToImportIdx : s.vaddrToImportIdx = ∅
  createdAllocs : s.ipc.createdAllocs = ∅
  handleToVa : s.ipc.handleToVa = ∅
  rebuiltHandleAlias : s.ipc.rebuiltHandleAlias = ∅
  importedHandles : s.importedHandles = []
  kind : ∀ h, s.kind h = .plain
  mapped : s.mapped = []
  openFds : s.openFds = []

/-- The tables agree with the driver on handles and on imports. -/
structure Sound (s : HookedProcess) : Prop where
  nullDead : s.ipc.drv.isLive 0 = false
  noAlias : s.ipc.rebuiltHandleAlias = ∅
  created : ∀ h, h ∈ s.ipc.createdAllocs ↔ s.kind h = .created
  imported : ∀ h, h ∈ s.importedHandles ↔ s.kind h = .imported
  createdPos : ∀ (h : Nat) (rec : CuMemCreateRecord), s.ipc.createdAllocs[h]? = some rec → 0 < rec.size
  live : ∀ h, s.kind h ≠ .plain → s.ipc.drv.isLive h = true
  addressed : ∀ h, h ∈ s.ipc.handleToVa → h ∈ s.ipc.createdAllocs
  heldLive : ∀ t ∈ s.mapped, ∀ h, t.handle = some h → s.ipc.drv.isLive h = true ∧ t.kind = s.kind h
  heldMapped : ∀ t ∈ s.mapped, s.ipc.drv.mappedAt t.va t.size = true
  heldApart : s.mapped.Pairwise fun t t' => t.va ≠ t'.va
  exports : ∀ rec ∈ s.ipc.exports, rec.tornDown = false ∧ (rec.hasMapping = true →
    0 < rec.mappedSize ∧ (rec.localHandle = 0 ∨ rec.localHandle ∈ s.ipc.createdAllocs))
  imports : ∀ (i : Nat) (rec : IpcImportRecord), s.ipc.imports[i]? = some rec → rec.tornDown = false →
    s.vaddrToImportIdx[rec.mappedVaddr]? = some i ∧ ∃ t ∈ s.mapped, rec.Of t
  importIdx : ∀ (ptr i : Nat), s.vaddrToImportIdx[ptr]? = some i →
    ∃ rec : IpcImportRecord, s.ipc.imports[i]? = some rec ∧ rec.mappedVaddr = ptr
  heldImports : ∀ t ∈ s.mapped, t.kind = .imported →
    ∃ (i : Nat) (rec : IpcImportRecord), s.ipc.imports[i]? = some rec ∧ rec.tornDown = false ∧ rec.mappedVaddr = t.va
  fds : ∀ fd ∈ s.openFds, 0 ≤ fd ∧ ∃ rec ∈ s.ipc.exports, rec.exportedFd = fd

section Sound
variable {s : HookedProcess}

theorem Fresh.sound (h : s.Fresh) : s.Sound where
  nullDead := h.nullDead
  noAlias := h.rebuiltHandleAlias
  created k := by simp [h.createdAllocs, h.kind k]
  imported k := by simp [h.importedHandles, h.kind k]
  createdPos k rec hrec := by simp [h.createdAllocs] at hrec
  live k hk := absurd (h.kind k) hk
  addressed k hk := by simp [h.handleToVa] at hk
  heldLive t ht := by simp [h.mapped] at ht
  heldMapped t ht := by simp [h.mapped] at ht
  heldApart := by simp [h.mapped]
  exports rec hrec := by simp [h.exports] at hrec
  imports i rec hrec := by simp [h.imports] at hrec
  importIdx ptr i hi := by simp [h.vaddrToImportIdx] at hi
  heldImports t ht := by simp [h.mapped] at ht
  fds fd hfd := by simp [h.openFds] at hfd

theorem Sound.eq_of_va (h : s.Sound) {t t' : HeldMapping} (ht : t ∈ s.mapped) (ht' : t' ∈ s.mapped)
    (hva : t.va = t'.va) : t = t' := by
  by_contra hne
  have hsymm : Std.Symm fun t t' : HeldMapping => t.va ≠ t'.va := ⟨fun _ _ h => h.symm⟩
  exact h.heldApart.forall ht ht' hne hva

theorem Sound.setDrv (h : s.Sound) {d : Driver} (hd : s.ipc.drv.SameView d) : (s.setDrv d).Sound where
  nullDead := (hd.live 0).trans h.nullDead
  noAlias := h.noAlias
  created := h.created
  imported := h.imported
  createdPos := h.createdPos
  live k hk := (hd.live k).trans (h.live k hk)
  addressed := h.addressed
  heldLive t ht k hk := ⟨(hd.live k).trans (h.heldLive t ht k hk).1, (h.heldLive t ht k hk).2⟩
  heldMapped t ht := (hd.mapped t.va t.size).trans (h.heldMapped t ht)
  heldApart := h.heldApart
  exports := h.exports
  imports := h.imports
  importIdx := h.importIdx
  heldImports := h.heldImports
  fds := h.fds

/-- A new handle is none the tables or the mappings know. -/
theorem Sound.ne_of_dead (h : s.Sound) {k : Nat} (hk : s.ipc.drv.isLive k = false) :
    s.kind k = .plain ∧ ∀ t ∈ s.mapped, t.handle ≠ some k := by
  refine ⟨?_, fun t ht hhandle => ?_⟩
  · by_contra hkind
    exact Bool.false_ne_true (hk.symm.trans (h.live k hkind))
  · exact Bool.false_ne_true (hk.symm.trans (h.heldLive t ht k hhandle).1)

theorem Sound.newHandle (h : s.Sound) {d : Driver} {k : Nat} (hd : s.ipc.drv.NewHandle d k) (kind : AllocKind) :
    d.isLive 0 = false ∧
      (∀ j, Function.update s.kind k kind j ≠ .plain → d.isLive j = true) ∧
      (∀ t ∈ s.mapped, ∀ j, t.handle = some j → d.isLive j = true ∧ t.kind = Function.update s.kind k kind j) ∧
      ∀ t ∈ s.mapped, d.mappedAt t.va t.size = true := by
  refine ⟨?_, fun j hj => ?_, fun t ht j hj => ⟨?_, ?_⟩, fun t ht => ?_⟩
  · rw [hd.live, h.nullDead]
    simpa using hd.ne_zero.symm
  · rw [hd.live]
    by_cases hjk : j = k
    · simp [hjk]
    · rw [Function.update_of_ne hjk] at hj
      simp [h.live j hj]
  · simp [hd.live, (h.heldLive t ht j hj).1]
  · have hjk : j ≠ k := fun hjk => (h.ne_of_dead hd.dead).2 t ht (hjk ▸ hj)
    rw [Function.update_of_ne hjk]
    exact (h.heldLive t ht j hj).2
  · rw [hd.mapped]
    exact h.heldMapped t ht

theorem Sound.recordCreate (h : s.Sound) {d : Driver} {k : Nat} (hd : s.ipc.drv.NewHandle d k) {size : Nat}
    (hpos : 0 < size) (prop : CUmemAllocationProp) : (s.recordCreate d k size prop).Sound := by
  obtain ⟨h1, h2, h3, h4⟩ := h.newHandle hd .created
  obtain ⟨hplain, -⟩ := h.ne_of_dead hd.dead
  have hold : ∀ j, j ∈ s.ipc.createdAllocs → j ∈ s.ipc.createdAllocs.insert k ⟨size, prop⟩ := fun j hj =>
    ExtTreeMap.mem_insert.2 (Or.inr hj)
  refine ⟨h1, h.noAlias, fun j => ?_, fun j => ?_, fun j rec hrec => ?_, h2, fun j hj => hold j (h.addressed j hj), h3, h4, h.heldApart,
    fun rec hrec => ?_, h.imports, h.importIdx, h.heldImports, h.fds⟩
  · show j ∈ s.ipc.createdAllocs.insert k _ ↔ Function.update s.kind k .created j = .created
    rw [ExtTreeMap.mem_insert, h.created j]
    by_cases hjk : j = k
    · simp [hjk]
    · simp [Function.update_of_ne hjk, Ne.symm hjk]
  · show j ∈ s.importedHandles ↔ Function.update s.kind k .created j = .imported
    rw [h.imported j]
    by_cases hjk : j = k
    · simp [hjk, hplain]
    · simp [Function.update_of_ne hjk]
  · have hrec : (s.ipc.createdAllocs.insert k ⟨size, prop⟩)[j]? = some rec := hrec
    rw [getElem?_insert_key] at hrec
    split_ifs at hrec
    · obtain rfl := Option.some.inj hrec
      exact hpos
    · exact h.createdPos j rec hrec
  · obtain ⟨htorn, hhandle⟩ := h.exports rec hrec
    exact ⟨htorn, fun hm => ⟨(hhandle hm).1, (hhandle hm).2.imp_right (hold _)⟩⟩

theorem Sound.recordImport (h : s.Sound) {d : Driver} {k : Nat} (hd : s.ipc.drv.NewHandle d k) :
    (s.recordImport d k).Sound := by
  obtain ⟨h1, h2, h3, h4⟩ := h.newHandle hd .imported
  obtain ⟨hplain, -⟩ := h.ne_of_dead hd.dead
  refine ⟨h1, h.noAlias, fun j => ?_, fun j => ?_, h.createdPos, h2, h.addressed, h3, h4, h.heldApart, h.exports, h.imports,
    h.importIdx, h.heldImports, h.fds⟩
  · show j ∈ s.ipc.createdAllocs ↔ Function.update s.kind k .imported j = .created
    rw [h.created j]
    by_cases hjk : j = k
    · simp [hjk, hplain]
    · simp [Function.update_of_ne hjk]
  · show j ∈ k :: s.importedHandles ↔ Function.update s.kind k .imported j = .imported
    rw [List.mem_cons, h.imported j]
    by_cases hjk : j = k
    · simp [hjk]
    · simp [hjk]

theorem Sound.plain (h : s.Sound) {d : Driver} {k : Nat} (hd : s.ipc.drv.NewHandle d k) : (s.setDrv d).Sound := by
  obtain ⟨h1, h2, h3, h4⟩ := h.newHandle hd .plain
  have hkind : Function.update s.kind k .plain = s.kind :=
    Function.update_eq_self_iff.2 (h.ne_of_dead hd.dead).1.symm
  rw [hkind] at h2 h3
  exact ⟨h1, h.noAlias, h.created, h.imported, h.createdPos, h2, h.addressed, h3, h4, h.heldApart, h.exports, h.imports,
    h.importIdx, h.heldImports, h.fds⟩

theorem Sound.recordExport (h : s.Sound) {d : Driver} {k type : Nat} {fd : Option Int} (hd : s.ipc.drv.SameView d)
    (hfd : ∀ x ∈ fd, 0 ≤ x) :
    (s.recordExport d k type fd).Sound := by
  have h' := h.setDrv hd
  refine { h' with exports := fun rec hrec => ?_, fds := fun x hx => ?_ }
  · rcases List.mem_append.1 hrec with hrec | hrec
    · exact h.exports rec hrec
    · obtain rfl := List.mem_singleton.1 hrec
      refine ⟨rfl, fun hm => ?_⟩
      have hva : s.ipc.handleToVa[k]?.isSome = true := hm
      have hmem := h.addressed k (ExtTreeMap.mem_iff_isSome_getElem?.2 hva)
      refine ⟨?_, Or.inr hmem⟩
      obtain ⟨rec, hrec⟩ := Option.isSome_iff_exists.1 (ExtTreeMap.mem_iff_isSome_getElem?.1 hmem)
      show 0 < if s.ipc.handleToVa[k]?.isSome then (s.ipc.createdAllocs[k]?.map (·.size)).getD 0 else 0
      rw [if_pos hva, hrec]
      exact h.createdPos k rec hrec
  · rcases List.mem_append.1 hx with hx | hx
    · have hx : x ∈ fd := Option.mem_toList.1 hx
      refine ⟨hfd x hx, _, List.mem_append_right _ (List.mem_singleton_self _), ?_⟩
      show fd.getD (-1) = x
      rw [Option.mem_def.1 hx]
      rfl
    · obtain ⟨hpos, rec, hrec, heq⟩ := h.fds x hx
      exact ⟨hpos, rec, List.mem_append_left _ hrec, heq⟩

theorem Sound.ne_of_free (h : s.Sound) {ptr : Nat} (hfree : ∀ n, s.ipc.drv.mappedAt ptr n = false) :
    ∀ t ∈ s.mapped, t.va ≠ ptr := by
  rintro t ht rfl
  exact Bool.false_ne_true ((hfree t.size).symm.trans (h.heldMapped t ht))

theorem Sound.newRange (h : s.Sound) {d : Driver} {ptr size handle : Nat}
    (hd : s.ipc.drv.NewRange d ptr size handle) :
    (∀ t ∈ (s.recordMapping d ptr size handle).mapped, ∀ k, t.handle = some k →
        d.isLive k = true ∧ t.kind = s.kind k) ∧
      (∀ t ∈ (s.recordMapping d ptr size handle).mapped, d.mappedAt t.va t.size = true) ∧
      (s.recordMapping d ptr size handle).mapped.Pairwise fun t t' => t.va ≠ t'.va := by
  refine ⟨fun t ht k hk => ?_, fun t ht => ?_, ?_⟩
  · rw [hd.live]
    rcases List.mem_cons.1 ht with rfl | ht
    · obtain rfl := Option.some.inj hk
      exact ⟨hd.handle, rfl⟩
    · exact h.heldLive t ht k hk
  · rw [hd.mapped]
    rcases List.mem_cons.1 ht with rfl | ht
    · simp
    · simp [h.heldMapped t ht]
  · exact List.pairwise_cons.2 ⟨fun t ht => (h.ne_of_free hd.free t ht).symm, h.heldApart⟩

theorem Sound.recordMapping (h : s.Sound) {d : Driver} {ptr size handle : Nat}
    (hd : s.ipc.drv.NewRange d ptr size handle) (hkind : s.kind handle ≠ .imported) :
    (s.recordMapping d ptr size handle).Sound := by
  obtain ⟨h1, h2, h3⟩ := h.newRange hd
  refine ⟨(hd.live 0).trans h.nullDead, h.noAlias, h.created, h.imported, h.createdPos, fun k hk => (hd.live k).trans (h.live k hk),
    h.addressed, h1, h2, h3, h.exports, ?_, h.importIdx, ?_, h.fds⟩
  · intro i rec hrec htorn
    obtain ⟨hidx, t, ht, hof⟩ := h.imports i rec hrec htorn
    exact ⟨hidx, t, List.mem_cons_of_mem _ ht, hof⟩
  · intro t ht himp
    rcases List.mem_cons.1 ht with rfl | ht
    · exact absurd himp hkind
    · exact h.heldImports t ht himp

theorem Sound.mapImported (h : s.Sound) {d : Driver} {ptr size handle : Nat}
    (hd : s.ipc.drv.NewRange d ptr size handle) (hkind : s.kind handle = .imported) :
    ((s.recordMapping d ptr size handle).mapImported ptr size handle).Sound := by
  obtain ⟨h1, h2, h3⟩ := h.newRange hd
  have hnonzero : handle ≠ 0 := by
    rintro rfl
    exact Bool.false_ne_true (h.nullDead.symm.trans hd.handle)
  have hmem : handle ∈ (s.recordMapping d ptr size handle).importedHandles := (h.imported handle).2 hkind
  rw [HookedProcess.mapImported, if_pos hmem]
  refine ⟨(hd.live 0).trans h.nullDead, h.noAlias, h.created, h.imported, h.createdPos, fun k hk => (hd.live k).trans (h.live k hk),
    h.addressed, h1, h2, h3, h.exports, ?_, ?_, ?_, h.fds⟩
  · intro i rec hrec htorn
    show (s.vaddrToImportIdx.insert ptr s.ipc.imports.length)[rec.mappedVaddr]? = some i ∧ _
    rcases Nat.lt_trichotomy i s.ipc.imports.length with hi | rfl | hi
    · have hrec : s.ipc.imports[i]? = some rec := (List.getElem?_append_left hi).symm.trans hrec
      obtain ⟨hidx, t, ht, hof⟩ := h.imports i rec hrec htorn
      have hne : rec.mappedVaddr ≠ ptr := hof.1 ▸ h.ne_of_free hd.free t ht
      rw [getElem?_insert_key, if_neg hne]
      exact ⟨hidx, t, List.mem_cons_of_mem _ ht, hof⟩
    · have hrec : some (⟨ptr, size, handle, -1, ⟨0, 0, 0⟩, [], false⟩ : IpcImportRecord) = some rec := by
        rw [← hrec]
        exact (List.getElem?_concat_length ..).symm
      obtain rfl := Option.some.inj hrec
      rw [getElem?_insert_key, if_pos rfl]
      exact ⟨rfl, _, List.mem_cons_self .., rfl, rfl, hkind, (if_neg hnonzero).symm⟩
    · rw [List.getElem?_eq_none (by rw [List.length_append]; exact hi)] at hrec
      exact absurd hrec (by simp)
  · intro a i hi
    have hi : (s.vaddrToImportIdx.insert ptr s.ipc.imports.length)[a]? = some i := hi
    rw [getElem?_insert_key] at hi
    split_ifs at hi with ha
    · obtain rfl := Option.some.inj hi
      exact ⟨_, List.getElem?_concat_length .., ha.symm⟩
    · obtain ⟨rec, hrec, hva⟩ := h.importIdx a i hi
      exact ⟨rec, (List.getElem?_append_left (List.getElem?_eq_some_iff.1 hrec).1).trans hrec, hva⟩
  · intro t ht himp
    rcases List.mem_cons.1 ht with rfl | ht
    · exact ⟨_, _, List.getElem?_concat_length .., rfl, rfl⟩
    · obtain ⟨i, rec, hrec, htorn, hva⟩ := h.heldImports t ht himp
      exact ⟨i, rec, (List.getElem?_append_left (List.getElem?_eq_some_iff.1 hrec).1).trans hrec, htorn, hva⟩

theorem Sound.mapCreated (h : s.Sound) (ptr : Nat) {size : Nat} (hpos : 0 < size) (handle : Nat) :
    (s.mapCreated ptr size handle).Sound := by
  unfold HookedProcess.mapCreated
  split_ifs with hmem
  swap
  · exact h
  have hrec : ∀ rec : IpcExportRecord, (giveMapping ptr size handle rec).localHandle = rec.localHandle ∧
      (giveMapping ptr size handle rec).tornDown = rec.tornDown ∧
      (giveMapping ptr size handle rec).exportedFd = rec.exportedFd := by
    intro rec
    unfold giveMapping
    split_ifs <;> exact ⟨rfl, rfl, rfl⟩
  refine { h with addressed := fun k hk => ?_, exports := fun rec hr => ?_, fds := fun fd hfd => ?_ }
  · rcases ExtTreeMap.mem_insert.1 hk with hk | hk
    · rw [← Std.compare_eq_iff_eq.1 hk]
      exact hmem
    · exact h.addressed k hk
  · obtain ⟨rec, hr', rfl⟩ := List.mem_map.1 hr
    obtain ⟨htorn, hhandle⟩ := h.exports rec hr'
    refine ⟨(hrec rec).2.1.trans htorn, fun hm => ?_⟩
    rw [(hrec rec).1]
    unfold giveMapping at hm ⊢
    split_ifs at hm ⊢ with hw
    · simp only [waits, Bool.and_eq_true, beq_iff_eq] at hw
      exact ⟨hpos, Or.inr (hw.1 ▸ hmem)⟩
    · exact hhandle hm
  · obtain ⟨hpos, rec, hr, heq⟩ := h.fds fd hfd
    exact ⟨hpos, _, List.mem_map_of_mem hr, (hrec rec).2.2.trans heq⟩

theorem Sound.recordMap (h : s.Sound) {d : Driver} {ptr size handle : Nat}
    (hd : s.ipc.drv.NewRange d ptr size handle) : (s.recordMap d ptr size handle).Sound := by
  unfold HookedProcess.recordMap
  refine Sound.mapCreated ?_ ptr hd.pos handle
  by_cases hkind : s.kind handle = .imported
  · exact h.mapImported hd hkind
  · have hmem : handle ∉ (s.recordMapping d ptr size handle).importedHandles := fun hm => hkind ((h.imported _).1 hm)
    rw [HookedProcess.mapImported, if_neg hmem]
    exact h.recordMapping hd hkind

/-- The record that learns of an unmapping is the one of its address. -/
theorem Sound.getElem?_recordUnmap (h : s.Sound) (d : Driver) (ptr i : Nat) :
    (s.recordUnmap d ptr).ipc.imports[i]? = s.ipc.imports[i]?.map fun rec =>
      if rec.mappedVaddr = ptr ∧ s.vaddrToImportIdx[ptr]? = some i then { rec with tornDown := true } else rec := by
  show (match s.vaddrToImportIdx[ptr]? with
    | none => s.ipc.imports
    | some idx => s.ipc.imports.modify idx fun rec => { rec with tornDown := true })[i]? = _
  cases hidx : s.vaddrToImportIdx[ptr]? with
  | none => simp
  | some idx =>
    obtain ⟨rec, hrec, hva⟩ := h.importIdx ptr idx hidx
    rw [List.getElem?_modify]
    by_cases hi : idx = i
    · subst hi
      simp [hrec, hva]
    · simp [hi]

theorem Sound.recordUnmap (h : s.Sound) {d : Driver} {ptr size : Nat} (hd : s.ipc.drv.DropRange d ptr size) :
    (s.recordUnmap d ptr).Sound := by
  have hheld : ∀ t, t ∈ (s.recordUnmap d ptr).mapped ↔ t ∈ s.mapped ∧ t.va ≠ ptr := by
    intro t
    show t ∈ List.filter _ _ ↔ _
    rw [List.mem_filter, bne_iff_ne]
  refine ⟨(hd.live 0).trans h.nullDead, h.noAlias, h.created, h.imported, h.createdPos, fun k hk => (hd.live k).trans (h.live k hk),
    h.addressed, ?_, ?_, h.heldApart.filter _, h.exports, ?_, ?_, ?_, h.fds⟩
  · intro t ht k hk
    obtain ⟨hlive, hkind⟩ := h.heldLive t ((hheld t).1 ht).1 k hk
    exact ⟨(hd.live k).trans hlive, hkind⟩
  · intro t ht
    show d.mappedAt t.va t.size = true
    obtain ⟨ht, hne⟩ := (hheld t).1 ht
    rw [hd.mapped, h.heldMapped t ht]
    simpa using hne
  · intro i rec hrec htorn
    rw [h.getElem?_recordUnmap] at hrec
    obtain ⟨rec', hrec', heq⟩ := Option.map_eq_some_iff.1 hrec
    split_ifs at heq with hva
    · rw [← heq] at htorn
      exact absurd htorn (by simp)
    · subst heq
      obtain ⟨hidx, t, ht, hof⟩ := h.imports i rec' hrec' htorn
      refine ⟨hidx, t, (hheld t).2 ⟨ht, fun hptr => hva ?_⟩, hof⟩
      rw [hof.1] at hptr
      exact ⟨hptr, hptr ▸ hidx⟩
  · intro a i hi
    obtain ⟨rec, hrec, hva⟩ := h.importIdx a i hi
    rw [h.getElem?_recordUnmap, hrec]
    refine ⟨_, rfl, ?_⟩
    dsimp only
    split_ifs <;> exact hva
  · intro t ht himp
    obtain ⟨ht, hne⟩ := (hheld t).1 ht
    obtain ⟨i, rec, hrec, htorn, hva⟩ := h.heldImports t ht himp
    refine ⟨i, rec, ?_, htorn, hva⟩
    rw [h.getElem?_recordUnmap, hrec, Option.map_some, if_neg]
    exact fun hptr => hne (hva ▸ hptr.1)

theorem Sound.alias_eq (h : s.Sound) (k : Nat) : s.ipc.rebuiltHandleAlias[k]?.getD k = k := by
  simp [h.noAlias]

@[simp] theorem dropHandle_va (k : Nat) (t : HeldMapping) : (t.dropHandle k).va = t.va := by
  unfold HeldMapping.dropHandle
  split_ifs <;> rfl

@[simp] theorem dropHandle_size (k : Nat) (t : HeldMapping) : (t.dropHandle k).size = t.size := by
  unfold HeldMapping.dropHandle
  split_ifs <;> rfl

@[simp] theorem dropHandle_kind (k : Nat) (t : HeldMapping) : (t.dropHandle k).kind = t.kind := by
  unfold HeldMapping.dropHandle
  split_ifs <;> rfl

theorem dropHandle_handle (k : Nat) (t : HeldMapping) (j : Nat) :
    (t.dropHandle k).handle = some j ↔ t.handle = some j ∧ j ≠ k := by
  unfold HeldMapping.dropHandle
  split_ifs with hk
  · simp only [hk, Option.some.injEq, false_iff, not_and, not_not]
    exact Eq.symm
  · refine ⟨fun hj => ⟨hj, ?_⟩, fun hj => hj.1⟩
    rintro rfl
    exact hk hj

theorem dropHandle_import (k : Nat) (rec : IpcImportRecord) :
    (rec.dropHandle k).tornDown = rec.tornDown ∧ (rec.dropHandle k).mappedVaddr = rec.mappedVaddr ∧
      (rec.dropHandle k).size = rec.size ∧ (rec.dropHandle k).handle = if rec.handle = k then 0 else rec.handle := by
  unfold IpcImportRecord.dropHandle
  split_ifs <;> exact ⟨rfl, rfl, rfl, rfl⟩

theorem dropHandle_export (k : Nat) (rec : IpcExportRecord) :
    (rec.dropHandle k).tornDown = rec.tornDown ∧ (rec.dropHandle k).hasMapping = rec.hasMapping ∧
      (rec.dropHandle k).exportedFd = rec.exportedFd ∧ (rec.dropHandle k).mappedSize = rec.mappedSize ∧
      (rec.dropHandle k).localHandle = if rec.localHandle = k then 0 else rec.localHandle := by
  unfold IpcExportRecord.dropHandle
  split_ifs <;> exact ⟨rfl, rfl, rfl, rfl, rfl⟩

theorem of_dropHandle {rec : IpcImportRecord} {t : HeldMapping} (hof : rec.Of t) {k : Nat}
    (hk : k ≠ 0) : (rec.dropHandle k).Of (t.dropHandle k) := by
  obtain ⟨hva, hsize, hkind, hhandle⟩ := hof
  obtain ⟨-, h2, h3, h4⟩ := dropHandle_import k rec
  refine ⟨?_, ?_, ?_, ?_⟩
  · rw [dropHandle_va, h2, hva]
  · rw [dropHandle_size, h3, hsize]
  · rw [dropHandle_kind, hkind]
  · rw [h4]
    unfold HeldMapping.dropHandle
    rw [hhandle]
    by_cases h0 : rec.handle = 0
    · simp [h0, hk.symm, hhandle]
    · by_cases hrk : rec.handle = k
      · simp [hrk, hk]
      · simp [h0, hrk, hhandle]

theorem Sound.recordRelease (h : s.Sound) {d : Driver} {k : Nat} (hd : s.ipc.drv.DropHandle d k) :
    (s.recordRelease d k k).Sound := by
  have hnull : k ≠ 0 := by
    rintro rfl
    exact Bool.false_ne_true (h.nullDead.symm.trans hd.handle)
  have hdead : ∀ j, j ≠ k → d.isLive j = s.ipc.drv.isLive j := by
    intro j hj
    simp [hd.live, hj]
  have himports : ∀ i : Nat, (s.recordRelease d k k).ipc.imports[i]? =
      s.ipc.imports[i]?.map (IpcImportRecord.dropHandle k) := by
    intro i
    simp only [HookedProcess.recordRelease, ne_eq, not_true_eq_false, if_false]
    exact List.getElem?_map ..
  simp only [HookedProcess.recordRelease, ne_eq, not_true_eq_false, if_false] at himports ⊢
  refine ⟨(hdead 0 hnull.symm).trans h.nullDead, ?_, fun j => ?_, fun j => ?_, fun j rec hrec => ?_, fun j hj => ?_,
    fun j hj => ?_,
    fun t ht j hj => ?_, fun t ht => ?_, ?_, fun rec hrec => ?_, fun i rec hrec htorn => ?_, fun a i hi => ?_,
    fun t ht himp => ?_, fun fd hfd => ?_⟩
  · show s.ipc.rebuiltHandleAlias.filter _ = ∅
    rw [h.noAlias]
    rfl
  · show j ∈ s.ipc.createdAllocs.erase k ↔ Function.update s.kind k .plain j = .created
    rw [ExtTreeMap.mem_erase, h.created j]
    by_cases hj : j = k
    · simp [hj]
    · simp [Function.update_of_ne hj, Ne.symm hj]
  · show j ∈ s.importedHandles.filter _ ↔ Function.update s.kind k .plain j = .imported
    rw [List.mem_filter, h.imported j]
    by_cases hj : j = k
    · simp [hj]
    · simp [hj]
  · have hrec : (s.ipc.createdAllocs.erase k)[j]? = some rec := hrec
    rw [getElem?_erase_key] at hrec
    split_ifs at hrec
    exact h.createdPos j rec hrec
  · have hj : Function.update s.kind k .plain j ≠ .plain := hj
    by_cases hjk : j = k
    · simp [hjk] at hj
    · rw [Function.update_of_ne hjk] at hj
      exact (hdead j hjk).trans (h.live j hj)
  · obtain ⟨hne, hj⟩ := ExtTreeMap.mem_erase.1 hj
    exact ExtTreeMap.mem_erase.2 ⟨hne, h.addressed j hj⟩
  · obtain ⟨t, ht', rfl⟩ := List.mem_map.1 ht
    obtain ⟨hj, hjk⟩ := (dropHandle_handle k t j).1 hj
    obtain ⟨hlive, hkind⟩ := h.heldLive t ht' j hj
    refine ⟨(hdead j hjk).trans hlive, ?_⟩
    show _ = Function.update s.kind k .plain j
    rw [dropHandle_kind, hkind, Function.update_of_ne hjk]
  · obtain ⟨t, ht', rfl⟩ := List.mem_map.1 ht
    rw [dropHandle_va, dropHandle_size]
    exact (hd.mapped ..).trans (h.heldMapped t ht')
  · refine List.pairwise_map.2 (h.heldApart.imp fun hne => ?_)
    rwa [dropHandle_va, dropHandle_va]
  · obtain ⟨rec, hrec', rfl⟩ := List.mem_map.1 hrec
    obtain ⟨h1, h2, -, h4, h5⟩ := dropHandle_export k rec
    obtain ⟨htorn, hhandle⟩ := h.exports rec hrec'
    refine ⟨h1.trans htorn, fun hm => ?_⟩
    obtain ⟨hpos, hhandle⟩ := hhandle (h2 ▸ hm)
    rw [h4, h5]
    refine ⟨hpos, ?_⟩
    split_ifs with hk
    · exact Or.inl rfl
    · refine hhandle.imp_right fun hmem => ExtTreeMap.mem_erase.2 ⟨?_, hmem⟩
      simpa using Ne.symm hk
  · rw [himports] at hrec
    obtain ⟨rec, hrec', rfl⟩ := Option.map_eq_some_iff.1 hrec
    obtain ⟨h1, h2, -, -⟩ := dropHandle_import k rec
    obtain ⟨hidx, t, ht, hof⟩ := h.imports i rec hrec' (h1 ▸ htorn)
    rw [h2]
    exact ⟨hidx, _, List.mem_map_of_mem ht, of_dropHandle hof hnull⟩
  · obtain ⟨rec, hrec, hva⟩ := h.importIdx a i hi
    refine ⟨_, (himports i).trans (congrArg _ hrec), ?_⟩
    exact (dropHandle_import k rec).2.1.trans hva
  · obtain ⟨t, ht', rfl⟩ := List.mem_map.1 ht
    rw [dropHandle_kind] at himp
    obtain ⟨i, rec, hrec, htorn, hva⟩ := h.heldImports t ht' himp
    obtain ⟨h1, h2, -, -⟩ := dropHandle_import k rec
    exact ⟨i, _, (himports i).trans (congrArg _ hrec), h1.trans htorn, h2.trans (hva.trans (dropHandle_va k t).symm)⟩
  · obtain ⟨hpos, rec, hrec, heq⟩ := h.fds fd hfd
    exact ⟨hpos, _, List.mem_map_of_mem hrec, (dropHandle_export k rec).2.2.1.trans heq⟩

theorem getElem?_recordAccess_imports (s : HookedProcess) (d : Driver) (ptr : Nat) (desc : List CUmemAccessDesc)
    (first : CUmemAccessDesc) (i : Nat) :
    (s.recordAccess d ptr desc first).ipc.imports[i]? = s.ipc.imports[i]?.map fun rec =>
      if s.vaddrToImportIdx[ptr]? = some i then accessImport desc first rec else rec := by
  show (match s.vaddrToImportIdx[ptr]? with
    | none => s.ipc.imports
    | some idx => s.ipc.imports.modify idx (accessImport desc first))[i]? = _
  cases s.vaddrToImportIdx[ptr]? with
  | none => simp
  | some idx =>
    rw [List.getElem?_modify]
    by_cases hi : idx = i
    · simp [hi]
    · simp [hi]

theorem getElem?_recordAccess_exports (s : HookedProcess) (d : Driver) (ptr : Nat) (desc : List CUmemAccessDesc)
    (first : CUmemAccessDesc) (i : Nat) :
    (s.recordAccess d ptr desc first).ipc.exports[i]? = s.ipc.exports[i]?.map fun rec =>
      if s.vaddrToExportIdx[ptr]? = some i then accessExport first rec else rec := by
  show (match s.vaddrToExportIdx[ptr]? with
    | none => s.ipc.exports
    | some idx => s.ipc.exports.modify idx (accessExport first))[i]? = _
  cases s.vaddrToExportIdx[ptr]? with
  | none => simp
  | some idx =>
    rw [List.getElem?_modify]
    by_cases hi : idx = i
    · simp [hi]
    · simp [hi]

theorem mem_recordAccess_exports {d : Driver} {ptr : Nat} {desc : List CUmemAccessDesc} {first : CUmemAccessDesc}
    {rec : IpcExportRecord} (hrec : rec ∈ (s.recordAccess d ptr desc first).ipc.exports) :
    ∃ rec' ∈ s.ipc.exports, rec = rec' ∨ rec = accessExport first rec' := by
  obtain ⟨i, hi⟩ := List.mem_iff_getElem?.1 hrec
  rw [getElem?_recordAccess_exports] at hi
  obtain ⟨rec', hrec', heq⟩ := Option.map_eq_some_iff.1 hi
  refine ⟨rec', List.mem_of_getElem? hrec', ?_⟩
  split_ifs at heq
  · exact Or.inr heq.symm
  · exact Or.inl heq.symm

theorem Sound.recordAccess (h : s.Sound) {d : Driver} (hd : s.ipc.drv.SameView d) (ptr : Nat)
    (desc : List CUmemAccessDesc) (first : CUmemAccessDesc) : (s.recordAccess d ptr desc first).Sound := by
  have h' := h.setDrv hd
  refine { h' with exports := ?_, imports := ?_, importIdx := ?_, heldImports := ?_, fds := ?_ }
  · intro rec hrec
    obtain ⟨rec', hrec', rfl | rfl⟩ := mem_recordAccess_exports hrec
    · exact h.exports rec hrec'
    · exact h.exports rec' hrec'
  · intro i rec hrec htorn
    rw [getElem?_recordAccess_imports] at hrec
    obtain ⟨rec', hrec', rfl⟩ := Option.map_eq_some_iff.1 hrec
    split_ifs at htorn ⊢
    · exact h.imports i rec' hrec' htorn
    · exact h.imports i rec' hrec' htorn
  · intro a i hi
    obtain ⟨rec, hrec, hva⟩ := h.importIdx a i hi
    rw [getElem?_recordAccess_imports, hrec]
    refine ⟨_, rfl, ?_⟩
    dsimp only
    split_ifs <;> exact hva
  · intro t ht himp
    obtain ⟨i, rec, hrec, htorn, hva⟩ := h.heldImports t ht himp
    refine ⟨i, _, by rw [getElem?_recordAccess_imports, hrec, Option.map_some], ?_, ?_⟩
    · split_ifs <;> exact htorn
    · split_ifs <;> exact hva
  · intro fd hfd
    obtain ⟨hpos, rec, hrec, heq⟩ := h.fds fd hfd
    obtain ⟨i, hi⟩ := List.mem_iff_getElem?.1 hrec
    have hnew := getElem?_recordAccess_exports s d ptr desc first i
    rw [hi, Option.map_some] at hnew
    refine ⟨hpos, _, List.mem_of_getElem? hnew, ?_⟩
    split_ifs <;> exact heq

theorem Sound.effect (h : s.Sound) {c : HookCall} {s' : HookedProcess} (heff : Effect s c s') : s'.Sound := by
  cases heff with
  | rejected hd => exact h.setDrv hd
  | plain hd => exact h.plain hd
  | created hd hpos => exact h.recordCreate hd hpos _
  | exported hd _ hfd => exact h.recordExport hd hfd
  | imported hd => exact h.recordImport hd
  | mapped hd => exact h.recordMap hd
  | unmapped hd => exact h.recordUnmap hd
  | released hd =>
    rw [h.alias_eq] at hd ⊢
    exact h.recordRelease hd
  | access hd => exact h.recordAccess hd ..

theorem Sound.call (h : s.Sound) (c : HookCall) : (s.call c).Sound := h.effect (s.call_effect c)

theorem sound_of_history (h : s.Sound) (history : List HookCall) : (run call s history).Sound := by
  induction history generalizing s with
  | nil => exact h
  | cons c history ih => exact ih (h.call c)

end Sound

end HookedProcess

end GpuCr
