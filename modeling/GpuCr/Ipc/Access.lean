import GpuCr.Ipc.Complete

/-!
# The access descriptors that are recorded

`cuMemSetAccess` gives the locations of its descriptors their flags, the last descriptor for a location wins. The hook
keeps, for the start address of the range and for an import with that address, a vector with one descriptor per location.
A rebuild replays the vector one descriptor at a time.
-/

namespace GpuCr

open Lib.Run Std

/-! ### Access maps -/

/-- The location of a descriptor: a device and the memory of a host node can have one id. -/
def CUmemAccessDesc.location (ad : CUmemAccessDesc) : Nat × Int := (ad.locationType, ad.locationId)

/-- The flags of each location that has access. -/
abbrev AccessMap := Nat × Int → Option Nat

namespace AccessMap

def empty : AccessMap := fun _ => none

def set (m : AccessMap) (ad : CUmemAccessDesc) : AccessMap := Function.update m ad.location (some ad.flags)

/-- What one call with these descriptors does. -/
def grant (m : AccessMap) (descs : List CUmemAccessDesc) : AccessMap := descs.foldl set m

section Laws
variable {m : AccessMap} {ad ad' : CUmemAccessDesc}

theorem set_comm (h : ad.location ≠ ad'.location) : (m.set ad).set ad' = (m.set ad').set ad :=
  Function.update_comm h _ _ _

theorem set_set (h : ad.location = ad'.location) : (m.set ad).set ad' = m.set ad' := by
  unfold set
  rw [h, Function.update_idem]

theorem grant_set {descs : List CUmemAccessDesc} (h : ad.location ∉ descs.map (·.location)) :
    (m.set ad).grant descs = (m.grant descs).set ad := by
  induction descs generalizing m with
  | nil => rfl
  | cons x descs ih =>
    rw [List.map_cons, List.mem_cons, not_or] at h
    show ((m.set ad).set x).grant descs = ((m.set x).grant descs).set ad
    rw [set_comm h.1, ih h.2]

end Laws

end AccessMap

/-- At most one descriptor per location. -/
def OnePerLocation (descs : List CUmemAccessDesc) : Prop := (descs.map (·.location)).Nodup

/-! ### Merging -/

namespace HookedProcess

open AccessMap

theorem mergeDesc_cons (x ad : CUmemAccessDesc) (descs : List CUmemAccessDesc) :
    mergeDesc (x :: descs) ad =
      if x.location = ad.location then { x with flags := ad.flags } :: descs else x :: mergeDesc descs ad := by
  have hloc : (x.locationType == ad.locationType && x.locationId == ad.locationId) = decide (x.location = ad.location) := by
    rw [CUmemAccessDesc.location, CUmemAccessDesc.location, Bool.eq_iff_iff]
    simp
  unfold mergeDesc
  rw [List.findIdx?_cons, hloc]
  by_cases h : x.location = ad.location
  · simp [h]
  · simp only [h, decide_false, Bool.false_eq_true, if_false]
    cases descs.findIdx? fun y => y.locationType == ad.locationType && y.locationId == ad.locationId with
    | none => rfl
    | some i => rfl

theorem map_location_mergeDesc (descs : List CUmemAccessDesc) (ad : CUmemAccessDesc) :
    (mergeDesc descs ad).map (·.location) =
      if ad.location ∈ descs.map (·.location) then descs.map (·.location) else descs.map (·.location) ++ [ad.location] := by
  induction descs with
  | nil => rfl
  | cons x descs ih =>
    rw [mergeDesc_cons]
    by_cases h : x.location = ad.location
    · rw [if_pos h, if_pos (by simp [h])]
      rfl
    · rw [if_neg h, List.map_cons, ih]
      by_cases hin : ad.location ∈ descs.map (·.location)
      · rw [if_pos hin, if_pos (by simp [hin])]
        rfl
      · rw [if_neg hin, if_neg]
        · rfl
        · rw [List.map_cons, List.mem_cons, not_or]
          exact ⟨fun heq => h heq.symm, hin⟩

theorem OnePerLocation.mergeDesc {descs : List CUmemAccessDesc} (h : OnePerLocation descs) (ad : CUmemAccessDesc) :
    OnePerLocation (mergeDesc descs ad) := by
  unfold OnePerLocation at h ⊢
  rw [map_location_mergeDesc]
  split_ifs with hin
  · exact h
  · refine List.nodup_append.2 ⟨h, List.nodup_singleton _, fun a ha b hb heq => hin ?_⟩
    rw [List.mem_singleton] at hb
    exact hb ▸ heq ▸ ha

/-- A descriptor that is merged into the vector is replayed as if it came last. -/
theorem grant_mergeDesc {descs : List CUmemAccessDesc} (h : OnePerLocation descs) (ad : CUmemAccessDesc) (m : AccessMap) :
    m.grant (mergeDesc descs ad) = (m.grant descs).set ad := by
  induction descs generalizing m with
  | nil => rfl
  | cons x descs ih =>
    obtain ⟨hx, hrest⟩ := List.nodup_cons.1 h
    rw [mergeDesc_cons]
    by_cases hloc : x.location = ad.location
    · rw [if_pos hloc]
      have hset : ({ x with flags := ad.flags } : CUmemAccessDesc) = ad := by
        cases x
        cases ad
        simp only [CUmemAccessDesc.location, Prod.mk.injEq] at hloc
        simp [hloc]
      show (m.set { x with flags := ad.flags }).grant descs = ((m.set x).grant descs).set ad
      rw [hset, grant_set hx, set_set hloc, grant_set (hloc ▸ hx)]
    · rw [if_neg hloc]
      exact ih hrest (m.set x)

theorem foldl_mergeDesc {descs : List CUmemAccessDesc} (h : OnePerLocation descs) (desc : List CUmemAccessDesc) :
    OnePerLocation (desc.foldl mergeDesc descs) ∧ ∀ m : AccessMap, m.grant (desc.foldl mergeDesc descs) = (m.grant descs).grant desc := by
  induction desc generalizing descs with
  | nil => exact ⟨h, fun m => rfl⟩
  | cons ad desc ih =>
    obtain ⟨hone, hgrant⟩ := ih (OnePerLocation.mergeDesc h ad)
    refine ⟨hone, fun m => ?_⟩
    rw [List.foldl_cons, hgrant, grant_mergeDesc h]
    rfl

/-! ### A sequence of calls -/

/-- `cuMemSetAccess` of any range from `ptr` on that the driver has accepted; `d` is the driver after the call. -/
def accessAccepted (ptr : Nat) (s : HookedProcess) (c : List CUmemAccessDesc × Driver) : HookedProcess :=
  match c.1 with
  | [] => s.setDrv c.2
  | first :: _ => s.recordAccess c.2 ptr c.1 first

section Calls
variable {s : HookedProcess} {va : Nat}

theorem hookCuMemSetAccess_accepted (hfn : s.ipc.fns.cuMemSetAccess = true) {size : Nat} {d : Driver}
    (h : s.ipc.drv.cuMemSetAccess va size = (true, d)) (desc : List CUmemAccessDesc) :
    s.hookCuMemSetAccess va size desc = accessAccepted va s (desc, d) := by
  cases desc with
  | nil => simp [hookCuMemSetAccess, accessAccepted, hfn, h]
  | cons first desc => simp [hookCuMemSetAccess, accessAccepted, hfn, h]

theorem accessAccepted_descs (s : HookedProcess) (va : Nat) (c : List CUmemAccessDesc × Driver) :
    (accessAccepted va s c).ipc.vaAccessDescs[va]?.getD [] = c.1.foldl mergeDesc (s.ipc.vaAccessDescs[va]?.getD []) := by
  obtain ⟨desc, d⟩ := c
  cases desc with
  | nil => rfl
  | cons first desc =>
    show (s.ipc.vaAccessDescs.insert va _)[va]?.getD [] = _
    rw [ExtTreeMap.getElem?_insert_self]
    rfl

theorem recordMap_vaddrToImportIdx (s : HookedProcess) (d : Driver) (ptr size handle : Nat) :
    (s.recordMap d ptr size handle).vaddrToImportIdx = if handle ∈ s.importedHandles then
      s.vaddrToImportIdx.insert ptr s.ipc.imports.length else s.vaddrToImportIdx := by
  have hcreated : ∀ s : HookedProcess, (s.mapCreated ptr size handle).vaddrToImportIdx = s.vaddrToImportIdx := by
    intro s
    unfold mapCreated
    split_ifs <;> rfl
  unfold recordMap
  rw [hcreated]
  unfold mapImported recordMapping
  split_ifs <;> rfl

theorem recordMap_imported (s : HookedProcess) (d : Driver) (va size : Nat) {handle : Nat} (h : handle ∈ s.importedHandles) :
    (s.recordMap d va size handle).vaddrToImportIdx[va]? = some s.ipc.imports.length ∧
      (s.recordMap d va size handle).ipc.imports[s.ipc.imports.length]? =
        some ⟨va, size, handle, -1, ⟨0, 0, 0⟩, [], false⟩ := by
  rw [recordMap_imports, recordMap_vaddrToImportIdx, if_pos h, if_pos h, ExtTreeMap.getElem?_insert_self,
    List.getElem?_concat_length]
  exact ⟨rfl, rfl⟩

theorem accessAccepted_import {i : Nat} (hidx : s.vaddrToImportIdx[va]? = some i) {rec : IpcImportRecord}
    (hrec : s.ipc.imports[i]? = some rec) (c : List CUmemAccessDesc × Driver) :
    (accessAccepted va s c).vaddrToImportIdx[va]? = some i ∧
      ∃ rec', (accessAccepted va s c).ipc.imports[i]? = some rec' ∧ rec'.mappedVaddr = rec.mappedVaddr ∧
        rec'.allAccess = c.1.foldl mergeDesc rec.allAccess := by
  obtain ⟨desc, d⟩ := c
  cases desc with
  | nil => exact ⟨hidx, rec, hrec, rfl, rfl⟩
  | cons first desc =>
    refine ⟨hidx, accessImport (first :: desc) first rec, ?_, rfl, rfl⟩
    show (s.recordAccess d va (first :: desc) first).ipc.imports[i]? = _
    unfold recordAccess
    dsimp only
    rw [hidx]
    dsimp only
    rw [List.getElem?_modify_eq, hrec]
    rfl

theorem run_accessAccepted (s : HookedProcess) (va : Nat) (hone : OnePerLocation (s.ipc.vaAccessDescs[va]?.getD []))
    (calls : List (List CUmemAccessDesc × Driver)) :
    OnePerLocation ((run (accessAccepted va) s calls).ipc.vaAccessDescs[va]?.getD []) ∧
      ∀ m : AccessMap, m.grant ((run (accessAccepted va) s calls).ipc.vaAccessDescs[va]?.getD []) =
        calls.foldl (fun m c => m.grant c.1) (m.grant (s.ipc.vaAccessDescs[va]?.getD [])) := by
  induction calls generalizing s with
  | nil => exact ⟨hone, fun m => rfl⟩
  | cons c calls ih =>
    obtain ⟨hone', hgrant⟩ := foldl_mergeDesc hone c.1
    rw [← accessAccepted_descs] at hone' hgrant
    obtain ⟨hend, hall⟩ := ih (accessAccepted va s c) hone'
    refine ⟨hend, fun m => (hall m).trans ?_⟩
    rw [hgrant]
    rfl

theorem run_accessAccepted_import {i : Nat} (hidx : s.vaddrToImportIdx[va]? = some i) {rec : IpcImportRecord}
    (hrec : s.ipc.imports[i]? = some rec) (hone : OnePerLocation rec.allAccess) (calls : List (List CUmemAccessDesc × Driver)) :
    ∃ rec', (run (accessAccepted va) s calls).ipc.imports[i]? = some rec' ∧ rec'.mappedVaddr = rec.mappedVaddr ∧
      OnePerLocation rec'.allAccess ∧
      ∀ m : AccessMap, m.grant rec'.allAccess = calls.foldl (fun m c => m.grant c.1) (m.grant rec.allAccess) := by
  induction calls generalizing s rec with
  | nil => exact ⟨rec, hrec, rfl, hone, fun m => rfl⟩
  | cons c calls ih =>
    obtain ⟨hidx', rec', hrec', hva, hmerge⟩ := accessAccepted_import hidx hrec c
    obtain ⟨hone', hgrant⟩ := foldl_mergeDesc hone c.1
    rw [← hmerge] at hone' hgrant
    obtain ⟨rec'', hrec'', hva', hone'', hall⟩ := ih hidx' hrec' hone'
    refine ⟨rec'', hrec'', hva'.trans hva, hone'', fun m => (hall m).trans ?_⟩
    rw [hgrant]
    rfl

end Calls

/-- **The descriptors are recorded faithfully.** For an address without descriptors and any sequence of accepted calls,
the vector has one descriptor per location and, replayed, gives what the calls gave. So does the vector of an import
record that the address gets before the calls. -/
theorem access_recorded (s : HookedProcess) (va : Nat) (hnew : s.ipc.vaAccessDescs[va]? = none)
    (calls : List (List CUmemAccessDesc × Driver)) :
    (OnePerLocation ((run (accessAccepted va) s calls).ipc.vaAccessDescs[va]?.getD []) ∧
      AccessMap.empty.grant ((run (accessAccepted va) s calls).ipc.vaAccessDescs[va]?.getD []) =
        calls.foldl (fun m c => m.grant c.1) AccessMap.empty) ∧
    ∀ (d : Driver) (size handle : Nat), handle ∈ s.importedHandles →
      ∃ rec, (run (accessAccepted va) (s.recordMap d va size handle) calls).ipc.imports[s.ipc.imports.length]? = some rec ∧
        rec.mappedVaddr = va ∧ OnePerLocation rec.allAccess ∧
        AccessMap.empty.grant rec.allAccess = calls.foldl (fun m c => m.grant c.1) AccessMap.empty := by
  constructor
  · have hstart : s.ipc.vaAccessDescs[va]?.getD [] = [] := by rw [hnew]; rfl
    obtain ⟨hone, hgrant⟩ := run_accessAccepted s va (by rw [hstart]; exact List.nodup_nil) calls
    rw [hstart] at hgrant
    exact ⟨hone, hgrant _⟩
  · intro d size handle himp
    obtain ⟨hidx, hrec⟩ := recordMap_imported s d va size himp
    obtain ⟨rec, hrec', hva, hone, hgrant⟩ := run_accessAccepted_import hidx hrec List.nodup_nil calls
    exact ⟨rec, hrec', hva, hone, hgrant _⟩

def oneImport : HookedProcess := { empty with importedHandles := [7] }

/-- A device twice and a host node with its id, then the device again. -/
def twoCalls : List (List CUmemAccessDesc × Driver) :=
  [([⟨1, 0, 3⟩, ⟨3, 0, 3⟩, ⟨1, 0, 1⟩], empty.ipc.drv), ([⟨1, 0, 2⟩], empty.ipc.drv)]

theorem access_recorded_twoCalls :
    (run (accessAccepted 0x10000) oneImport twoCalls).ipc.vaAccessDescs[0x10000]?.getD [] = [⟨1, 0, 2⟩, ⟨3, 0, 3⟩] ∧
      AccessMap.empty.grant ((run (accessAccepted 0x10000) oneImport twoCalls).ipc.vaAccessDescs[0x10000]?.getD []) =
        twoCalls.foldl (fun m c => m.grant c.1) AccessMap.empty ∧
      ∃ rec, (run (accessAccepted 0x10000) (oneImport.recordMap empty.ipc.drv 0x10000 4096 7) twoCalls).ipc.imports[0]? =
          some rec ∧ rec.mappedVaddr = 0x10000 ∧ OnePerLocation rec.allAccess ∧
        AccessMap.empty.grant rec.allAccess = twoCalls.foldl (fun m c => m.grant c.1) AccessMap.empty :=
  ⟨by decide, (access_recorded oneImport 0x10000 (by decide) twoCalls).1.2,
    (access_recorded oneImport 0x10000 (by decide) twoCalls).2 empty.ipc.drv 4096 7 (by decide)⟩

end HookedProcess

end GpuCr
