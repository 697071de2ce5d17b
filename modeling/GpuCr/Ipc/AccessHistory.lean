import GpuCr.Ipc.Access

/-!
# Access that is granted and access that is recorded

Beside the tables of the hooks, what the driver keeps for each mapping: the access map, which is empty for a new mapping
and which `cuMemSetAccess` updates for all mappings of its range. The hook writes what a call grants under the start of the
range, and a table entry outlives the mapping or is dropped before it. `KeepsAccess` says which calls bring no difference,
and after a history of these the tables say what the driver has (`Recorded`).
-/

namespace GpuCr

open Lib.Run Std

/-! ### The driver's side -/

def Mapping.inside (m : Mapping) (ptr size : Nat) : Bool := decide (ptr ≤ m.va) && decide (m.va + m.size ≤ ptr + size)

def Mapping.grant (ptr size : Nat) (m : Mapping) : Mapping := if m.inside ptr size then { m with access := true } else m

@[simp] theorem Mapping.grant_va (ptr size : Nat) (m : Mapping) : (m.grant ptr size).va = m.va := by
  unfold grant
  split_ifs <;> rfl

@[simp] theorem Mapping.grant_size (ptr size : Nat) (m : Mapping) : (m.grant ptr size).size = m.size := by
  unfold grant
  split_ifs <;> rfl

namespace Driver

/-- A mapping starts at `va`. -/
def startsAt (d : Driver) (va : Nat) : Bool := d.maps.any fun m => m.va == va

/-- Mappings lie one after the other from `ptr` to `stop`, at most `fuel` of them. -/
def chained (d : Driver) : Nat → Nat → Nat → Bool
  | 0, ptr, stop => ptr == stop
  | fuel + 1, ptr, stop =>
    ptr == stop || d.maps.any fun m => m.va == ptr && decide (ptr + m.size ≤ stop) && d.chained fuel (ptr + m.size) stop

/-- The range is made up of whole mappings. -/
def covered (d : Driver) (ptr size : Nat) : Bool := decide (0 < size) && d.chained d.maps.length ptr (ptr + size)

def grantInside (d : Driver) (ptr size : Nat) : Driver :=
  { d with
    maps := d.maps.map (Mapping.grant ptr size)
    maps_apart := by
      rw [List.pairwise_map]
      exact d.maps_apart.imp fun h => by simpa [Mapping.apart] using h
    maps_pos := by
      intro m hm
      obtain ⟨m', hm', rfl⟩ := List.mem_map.1 hm
      simpa using d.maps_pos m' hm' }

/-- `cuMemSetAccess` of a range that may hold several mappings. Without a descriptor it is turned down. -/
def cuMemSetAccessRange (d : Driver) (ptr size : Nat) (desc : List CUmemAccessDesc) : Bool × Driver :=
  d.call (d.covered ptr size && !desc.isEmpty) fun d => d.grantInside ptr size

theorem startsAt_iff {d : Driver} {va : Nat} : d.startsAt va = true ↔ ∃ m ∈ d.maps, m.va = va := by
  rw [startsAt, List.any_eq_true]
  simp only [beq_iff_eq]

theorem exists_of_covered {d : Driver} {ptr size : Nat} (h : d.covered ptr size = true) :
    ∃ m ∈ d.maps, m.va = ptr ∧ m.inside ptr size = true := by
  rw [covered, Bool.and_eq_true, decide_eq_true_eq] at h
  obtain ⟨hpos, hchain⟩ := h
  have hne : ¬ ptr = ptr + size := by omega
  cases hlen : d.maps.length with
  | zero =>
    rw [hlen, chained, beq_iff_eq] at hchain
    exact absurd hchain hne
  | succ fuel =>
    rw [hlen, chained, Bool.or_eq_true, beq_iff_eq, or_iff_right hne, List.any_eq_true] at hchain
    obtain ⟨m, hm, hin⟩ := hchain
    simp only [Bool.and_eq_true, beq_iff_eq, decide_eq_true_eq] at hin
    exact ⟨m, hm, hin.1.1, by simp [Mapping.inside, hin.1.1, hin.1.2]⟩

theorem covered_of_mappedAt {d : Driver} {va size : Nat} (h : d.mappedAt va size = true) : d.covered va size = true := by
  obtain ⟨m, hm, rfl, rfl⟩ := exists_mapping h
  have hpos := d.maps_pos m hm
  rw [covered, Bool.and_eq_true]
  refine ⟨decide_eq_true hpos, ?_⟩
  cases hlen : d.maps.length with
  | zero => exact absurd hm (List.eq_nil_of_length_eq_zero hlen ▸ List.not_mem_nil)
  | succ fuel =>
    have hend : d.chained fuel (m.va + m.size) (m.va + m.size) = true := by cases fuel <;> simp [chained]
    rw [chained, Bool.or_eq_true, List.any_eq_true]
    exact Or.inr ⟨m, hm, by simp [hend]⟩

theorem inside_iff {d : Driver} {va size : Nat} (h : d.mappedAt va size = true) {m : Mapping} (hm : m ∈ d.maps) :
    m.inside va size = true ↔ m.va = va := by
  obtain ⟨n, hn, rfl, rfl⟩ := exists_mapping h
  unfold Mapping.inside
  rw [Bool.and_eq_true, decide_eq_true_eq, decide_eq_true_eq]
  constructor
  · intro hin
    by_contra hne
    have hapart := d.maps_apart.forall hm hn fun heq => hne (heq ▸ rfl)
    have := d.maps_pos m hm
    unfold Mapping.apart at hapart
    omega
  · intro hva
    rw [eq_of_va_eq hm hn hva]
    exact ⟨Nat.le_refl _, Nat.le_refl _⟩

theorem startsAt_congr {d d' : Driver} (h : d'.maps.map (·.va) = d.maps.map (·.va)) (va : Nat) :
    d'.startsAt va = d.startsAt va := by
  rw [Bool.eq_iff_iff, startsAt_iff, startsAt_iff, ← List.mem_map, ← List.mem_map, h]

theorem sameView_grantInside (d : Driver) (ptr size : Nat) :
    d.SameView (({ d with clock := d.clock + 1 } : Driver).grantInside ptr size) := by
  refine ⟨fun va n => ?_, fun k => rfl⟩
  show (d.maps.map (Mapping.grant ptr size)).any _ = _
  rw [mappedAt, List.any_map]
  congr 1
  funext m
  simp

theorem cuMemSetAccessRange_cases (d : Driver) (ptr size : Nat) (desc : List CUmemAccessDesc) :
    d.cuMemSetAccessRange ptr size desc = (false, { d with clock := d.clock + 1 }) ∨
      desc ≠ [] ∧ d.covered ptr size = true ∧
        d.cuMemSetAccessRange ptr size desc = (true, ({ d with clock := d.clock + 1 } : Driver).grantInside ptr size) := by
  unfold cuMemSetAccessRange call
  split_ifs with h
  · rw [Bool.and_eq_true, Bool.and_eq_true, Bool.not_eq_true', List.isEmpty_eq_false_iff] at h
    exact Or.inr ⟨h.1.2, h.1.1, rfl⟩
  · exact Or.inl rfl

theorem cuMemSetAccessRange_of_mappedAt {d : Driver} {va size : Nat} (h : d.mappedAt va size = true)
    {desc : List CUmemAccessDesc} (hdesc : desc ≠ []) : d.cuMemSetAccessRange va size desc = d.cuMemSetAccess va size := by
  have hgrant : ({ d with clock := d.clock + 1 } : Driver).grantInside va size =
      ({ d with clock := d.clock + 1 } : Driver).grantRange va := by
    have hmaps : d.maps.map (Mapping.grant va size) = d.maps.map (grantAccess va) := by
      refine List.map_congr_left fun m hm => ?_
      unfold Mapping.grant grantAccess
      exact if_congr (inside_iff h hm) rfl rfl
    unfold grantInside grantRange
    congr 1
  have hvalid : (d.covered va size && !desc.isEmpty) = d.mappedAt va size := by
    rw [covered_of_mappedAt h, h, List.isEmpty_eq_false_iff.2 hdesc]
    rfl
  unfold cuMemSetAccessRange cuMemSetAccess call
  rw [hvalid]
  dsimp only
  rw [hgrant]

end Driver

/-- The access maps, by the start of the mapping. -/
def AccessTable := Nat → AccessMap

namespace AccessTable

def reset (t : AccessTable) (va : Nat) : AccessTable := Function.update t va AccessMap.empty

@[simp] theorem reset_self (t : AccessTable) (va : Nat) : t.reset va va = AccessMap.empty := Function.update_self va _ t

theorem reset_of_ne (t : AccessTable) {va a : Nat} (h : a ≠ va) : t.reset va a = t a := Function.update_of_ne h _ t

def grantInside (t : AccessTable) (d : Driver) (ptr size : Nat) (desc : List CUmemAccessDesc) : AccessTable := fun va =>
  if d.maps.any fun m => m.va == va && m.inside ptr size then (t va).grant desc else t va

end AccessTable

/-! ### The hooks on such a driver -/

/-- The process, with the access maps of the driver, which no code reads. -/
structure AccessProcess where
  hooks : HookedProcess
  table : AccessTable

namespace HookedProcess

/-- The rebuild of exports or of local allocations looks the address up. -/
def Tracked (s : HookedProcess) (va : Nat) : Prop :=
  (∃ h : Nat, s.ipc.handleToVa[h]? = some va) ∨ ∃ rec ∈ s.ipc.exports, rec.hasMapping = true ∧ rec.mappedVaddr = va

def descs (s : HookedProcess) (va : Nat) : List CUmemAccessDesc := s.ipc.vaAccessDescs[va]?.getD []

end HookedProcess

namespace AccessProcess

open HookedProcess

def hookCuMemSetAccess (s : AccessProcess) (ptr size : Nat) (desc : List CUmemAccessDesc) : AccessProcess :=
  if !s.hooks.ipc.fns.cuMemSetAccess then s
  else
    match s.hooks.ipc.drv.cuMemSetAccessRange ptr size desc with
    | (false, d) => { s with hooks := s.hooks.setDrv d }
    | (true, d) => ⟨accessAccepted ptr s.hooks (desc, d), s.table.grantInside s.hooks.ipc.drv ptr size desc⟩

def step (s : AccessProcess) : HookCall → AccessProcess
  | .map ptr size handle =>
    ⟨s.hooks.call (.map ptr size handle),
      if s.hooks.ipc.fns.cuMemMap && (s.hooks.ipc.drv.cuMemMap ptr size handle).1 then s.table.reset ptr else s.table⟩
  | .unmap ptr size =>
    ⟨s.hooks.call (.unmap ptr size),
      if s.hooks.ipc.fns.cuMemUnmap && (s.hooks.ipc.drv.cuMemUnmap ptr size).1 then s.table.reset ptr else s.table⟩
  | .setAccess ptr size desc => s.hookCuMemSetAccess ptr size desc
  | c => ⟨s.hooks.call c, s.table⟩

/-- A range that is one mapping: the hook as it is without the access maps. -/
theorem step_setAccess_hooks (s : AccessProcess) {ptr size : Nat} (h : s.hooks.ipc.drv.mappedAt ptr size = true)
    {desc : List CUmemAccessDesc} (hdesc : desc ≠ []) :
    (s.step (.setAccess ptr size desc)).hooks = s.hooks.call (.setAccess ptr size desc) := by
  show (s.hookCuMemSetAccess ptr size desc).hooks = s.hooks.hookCuMemSetAccess ptr size desc
  unfold hookCuMemSetAccess
  rw [Driver.cuMemSetAccessRange_of_mappedAt h hdesc]
  cases hfn : s.hooks.ipc.fns.cuMemSetAccess with
  | false =>
    unfold HookedProcess.hookCuMemSetAccess
    rw [hfn]
    rfl
  | true =>
    rcases hset : s.hooks.ipc.drv.cuMemSetAccess ptr size with ⟨ok, d⟩
    cases ok with
    | false =>
      unfold HookedProcess.hookCuMemSetAccess
      rw [hfn, hset]
      rfl
    | true => exact (HookedProcess.hookCuMemSetAccess_accepted hfn hset desc).symm

/-- The calls after which the tables still say what the driver has. A map finds no descriptors for its address, and none in
an import record that had it. A release keeps the descriptors of an address that something else has. A range has no start of
another mapping that is rebuilt. -/
def KeepsAccess (s : AccessProcess) : HookCall → Prop
  | .map ptr size handle => s.hooks.ipc.fns.cuMemMap = true → (s.hooks.ipc.drv.cuMemMap ptr size handle).1 = true →
    (s.hooks.Tracked ptr ∨ handle ∈ s.hooks.ipc.createdAllocs → s.hooks.descs ptr = []) ∧
      ∀ rec ∈ s.hooks.ipc.imports, rec.mappedVaddr = ptr → rec.allAccess = [] ∧ handle ∉ s.hooks.importedHandles
  | .release handle => s.hooks.ipc.fns.cuMemRelease = true → (s.hooks.ipc.drv.cuMemRelease handle).1 = true →
    ∀ va, s.hooks.ipc.handleToVa[handle]? = some va → s.hooks.ipc.drv.startsAt va = true → s.hooks.descs va ≠ [] →
      (∀ h, h ≠ handle → s.hooks.ipc.handleToVa[h]? ≠ some va) ∧
        ∀ rec ∈ s.hooks.ipc.exports, rec.hasMapping = true → rec.mappedVaddr ≠ va
  | .setAccess ptr size desc => s.hooks.ipc.fns.cuMemSetAccess = true →
    (s.hooks.ipc.drv.cuMemSetAccessRange ptr size desc).1 = true →
      ∀ m ∈ s.hooks.ipc.drv.maps, m.inside ptr size = true → m.va ≠ ptr →
        ¬ s.hooks.Tracked m.va ∧ ∀ rec ∈ s.hooks.ipc.imports, rec.mappedVaddr ≠ m.va
  | _ => True

/-- What the tables have for the mappings that would be rebuilt is what the driver has. A mapping with access has
descriptors, and no two imports have had one address. -/
structure Recorded (s : AccessProcess) : Prop where
  sound : s.hooks.Sound
  descs : ∀ va, s.hooks.Tracked va → s.hooks.ipc.drv.startsAt va = true →
    OnePerLocation (s.hooks.descs va) ∧ AccessMap.empty.grant (s.hooks.descs va) = s.table va
  granted : ∀ m ∈ s.hooks.ipc.drv.maps, m.access = true → s.hooks.Tracked m.va → s.hooks.descs m.va ≠ []
  importIdx : ∀ (i : Nat) (rec : IpcImportRecord), s.hooks.ipc.imports[i]? = some rec →
    s.hooks.vaddrToImportIdx[rec.mappedVaddr]? = some i
  imports : ∀ rec ∈ s.hooks.ipc.imports, (rec.allAccess = [] → rec.accessDev < 0) ∧
    (s.hooks.ipc.drv.startsAt rec.mappedVaddr = true →
      OnePerLocation rec.allAccess ∧ AccessMap.empty.grant rec.allAccess = s.table rec.mappedVaddr)

end AccessProcess

/-! ### What the calls do to the tables -/

namespace HookedProcess

section Tables
variable {s : HookedProcess}

theorem recordMap_vaAccessDescs (s : HookedProcess) (d : Driver) (ptr size handle : Nat) :
    (s.recordMap d ptr size handle).ipc.vaAccessDescs = s.ipc.vaAccessDescs := by
  unfold recordMap mapCreated mapImported
  split_ifs <;> rfl

theorem tracked_of_recordMap {d : Driver} {ptr size handle va : Nat} (h : (s.recordMap d ptr size handle).Tracked va) :
    s.Tracked va ∨ va = ptr ∧ handle ∈ s.ipc.createdAllocs := by
  rcases h with ⟨k, hk⟩ | ⟨rec, hrec, hmap, hva⟩
  · rw [recordMap_handleToVa] at hk
    split_ifs at hk with hhandle
    · exact Or.inr ⟨(Option.some.inj hk).symm, hhandle.1⟩
    · exact Or.inl (Or.inl ⟨k, hk⟩)
  · have hexports : (s.recordMap d ptr size handle).ipc.exports =
        if handle ∈ s.ipc.createdAllocs then s.ipc.exports.map (giveMapping ptr size handle) else s.ipc.exports := by
      have himported : ∀ s : HookedProcess, (s.mapImported ptr size handle).ipc.exports = s.ipc.exports ∧
          (s.mapImported ptr size handle).ipc.createdAllocs = s.ipc.createdAllocs := by
        intro s
        unfold mapImported
        split_ifs <;> exact ⟨rfl, rfl⟩
      unfold recordMap mapCreated
      rw [(himported _).2]
      show (if handle ∈ s.ipc.createdAllocs then _ else _ : HookedProcess).ipc.exports = _
      split_ifs
      · exact congrArg (List.map _) (himported _).1
      · exact (himported _).1
    rw [hexports] at hrec
    split_ifs at hrec with hcreated
    · obtain ⟨rec₀, hrec₀, rfl⟩ := List.mem_map.1 hrec
      unfold giveMapping at hmap hva
      split_ifs at hmap hva
      · exact Or.inr ⟨hva.symm, hcreated⟩
      · exact Or.inl (Or.inr ⟨rec₀, hrec₀, hmap, hva⟩)
    · exact Or.inl (Or.inr ⟨rec, hrec, hmap, hva⟩)

theorem tracked_of_recordExport {d : Driver} {handle type : Nat} {fd : Option Int} {va : Nat}
    (h : (s.recordExport d handle type fd).Tracked va) : s.Tracked va := by
  rcases h with ⟨k, hk⟩ | ⟨rec, hrec, hmap, hva⟩
  · exact Or.inl ⟨k, hk⟩
  · rcases List.mem_append.1 hrec with hrec | hrec
    · exact Or.inr ⟨rec, hrec, hmap, hva⟩
    · obtain rfl := List.mem_singleton.1 hrec
      obtain ⟨a, ha⟩ := Option.isSome_iff_exists.1 hmap
      refine Or.inl ⟨handle, ha.trans ?_⟩
      rw [← hva]
      show some a = some (s.ipc.handleToVa[handle]?.getD 0)
      rw [ha]
      rfl

theorem tracked_of_recordRelease {d : Driver} {k va : Nat} (h : (s.recordRelease d k k).Tracked va) :
    (∃ j, j ≠ k ∧ s.ipc.handleToVa[j]? = some va) ∨ ∃ rec ∈ s.ipc.exports, rec.hasMapping = true ∧ rec.mappedVaddr = va := by
  rcases h with ⟨j, hj⟩ | ⟨rec, hrec, hmap, hva⟩
  · rw [(s.recordRelease_self d k).2, getElem?_erase_key] at hj
    split_ifs at hj with hjk
    exact Or.inl ⟨j, hjk, hj⟩
  · have hexports : (s.recordRelease d k k).ipc.exports = s.ipc.exports.map (IpcExportRecord.dropHandle k) := by
      unfold recordRelease
      dsimp only
      rw [if_neg (not_not.2 rfl)]
      rfl
    rw [hexports] at hrec
    obtain ⟨rec₀, hrec₀, rfl⟩ := List.mem_map.1 hrec
    unfold IpcExportRecord.dropHandle at hmap hva
    refine Or.inr ⟨rec₀, hrec₀, ?_⟩
    split_ifs at hmap hva <;> exact ⟨hmap, hva⟩

theorem descs_recordRelease (s : HookedProcess) (d : Driver) (k va : Nat) :
    (s.recordRelease d k k).descs va = if s.ipc.handleToVa[k]? = some va then [] else s.descs va := by
  unfold descs recordRelease
  dsimp only
  rw [if_neg (not_not.2 rfl)]
  unfold dropAliases cleanupHandle
  dsimp only
  rw [show (s.setDrv d).ipc.handleToVa = s.ipc.handleToVa from rfl,
    show (s.setDrv d).ipc.vaAccessDescs = s.ipc.vaAccessDescs from rfl]
  cases hk : s.ipc.handleToVa[k]? with
  | none => simp
  | some a =>
    dsimp only
    rw [getElem?_erase_key]
    by_cases hva : va = a
    · rw [if_pos hva, if_pos (congrArg some hva.symm)]
      rfl
    · rw [if_neg hva, if_neg fun heq => hva (Option.some.inj heq).symm]

theorem tracked_of_recordAccess {d : Driver} {va : Nat} (ptr : Nat) (desc : List CUmemAccessDesc) (first : CUmemAccessDesc)
    (h : (s.recordAccess d ptr desc first).Tracked va) : s.Tracked va := by
  rcases h with ⟨k, hk⟩ | ⟨rec, hrec, hmap, hva⟩
  · exact Or.inl ⟨k, hk⟩
  · unfold recordAccess at hrec
    dsimp only at hrec
    split at hrec
    · exact Or.inr ⟨rec, hrec, hmap, hva⟩
    · obtain ⟨i, hi⟩ := List.getElem?_of_mem hrec
      rw [List.getElem?_modify] at hi
      obtain ⟨rec₀, hrec₀, rfl⟩ := Option.map_eq_some_iff.1 hi
      refine Or.inr ⟨rec₀, List.mem_of_getElem? hrec₀, ?_⟩
      split_ifs at hmap hva <;> exact ⟨hmap, hva⟩

theorem descs_recordAccess (s : HookedProcess) (d : Driver) (ptr : Nat) (desc : List CUmemAccessDesc)
    (first : CUmemAccessDesc) (va : Nat) : (s.recordAccess d ptr desc first).descs va =
      if va = ptr then desc.foldl mergeDesc (s.descs ptr) else s.descs va := by
  unfold descs recordAccess
  dsimp only
  rw [getElem?_insert_key]
  split_ifs <;> rfl

theorem recordAccess_imports (h : s.Sound) {d : Driver} {ptr : Nat} {desc : List CUmemAccessDesc} {first : CUmemAccessDesc}
    (hidx : ∀ (i : Nat) (rec : IpcImportRecord), s.ipc.imports[i]? = some rec →
      s.vaddrToImportIdx[rec.mappedVaddr]? = some i) {i : Nat} {rec : IpcImportRecord}
    (hrec : (s.recordAccess d ptr desc first).ipc.imports[i]? = some rec) :
    ∃ rec₀, s.ipc.imports[i]? = some rec₀ ∧ rec.mappedVaddr = rec₀.mappedVaddr ∧
      if rec₀.mappedVaddr = ptr then rec.allAccess = desc.foldl mergeDesc rec₀.allAccess else rec = rec₀ := by
  unfold recordAccess at hrec
  dsimp only at hrec
  cases hptr : s.vaddrToImportIdx[ptr]? with
  | none =>
    rw [hptr] at hrec
    refine ⟨rec, hrec, rfl, ?_⟩
    rw [if_neg fun hva => ?_]
    have hi := hidx i rec hrec
    rw [hva, hptr] at hi
    exact absurd hi.symm (Option.some_ne_none _)
  | some k =>
    rw [hptr] at hrec
    dsimp only at hrec
    rw [List.getElem?_modify] at hrec
    obtain ⟨rec₀, hrec₀, rfl⟩ := Option.map_eq_some_iff.1 hrec
    refine ⟨rec₀, hrec₀, ?_⟩
    have hi := hidx i rec₀ hrec₀
    by_cases hk : k = i
    · subst hk
      obtain ⟨rec₁, hrec₁, hva⟩ := h.importIdx ptr k hptr
      rw [hrec₀] at hrec₁
      obtain rfl := Option.some.inj hrec₁
      rw [if_pos rfl, if_pos hva]
      exact ⟨rfl, rfl⟩
    · rw [if_neg hk]
      refine ⟨rfl, ?_⟩
      rw [if_neg fun hva => ?_]
      rw [hva, hptr] at hi
      exact hk (Option.some.inj hi)

end Tables

end HookedProcess

/-! ### The invariant -/

namespace AccessProcess

open HookedProcess

theorem mergeDesc_ne_nil (descs : List CUmemAccessDesc) (ad : CUmemAccessDesc) : mergeDesc descs ad ≠ [] := by
  cases descs with
  | nil => exact List.cons_ne_nil _ _
  | cons x descs =>
    rw [mergeDesc_cons]
    split_ifs <;> exact List.cons_ne_nil _ _

theorem foldl_mergeDesc_ne_nil {desc : List CUmemAccessDesc} (h : desc ≠ []) (descs : List CUmemAccessDesc) :
    desc.foldl mergeDesc descs ≠ [] := by
  induction desc generalizing descs with
  | nil => exact absurd rfl h
  | cons ad desc ih =>
    cases desc with
    | nil => exact mergeDesc_ne_nil descs ad
    | cons ad' desc => exact ih (List.cons_ne_nil _ _) _

section Steps
variable {s : AccessProcess}

theorem Recorded.of_same {s' : AccessProcess} (h : s.Recorded) (hsound : s'.hooks.Sound)
    (himports : s'.hooks.ipc.imports = s.hooks.ipc.imports) (hidx : s'.hooks.vaddrToImportIdx = s.hooks.vaddrToImportIdx)
    (htracked : ∀ va, s'.hooks.Tracked va → s.hooks.Tracked va)
    (hdescs : s'.hooks.ipc.vaAccessDescs = s.hooks.ipc.vaAccessDescs)
    (hmaps : s'.hooks.ipc.drv.maps = s.hooks.ipc.drv.maps) (htable : s'.table = s.table) : s'.Recorded := by
  have hstarts : ∀ va, s'.hooks.ipc.drv.startsAt va = s.hooks.ipc.drv.startsAt va :=
    Driver.startsAt_congr (congrArg (List.map _) hmaps)
  have hat : ∀ va, s'.hooks.descs va = s.hooks.descs va := fun va => by rw [HookedProcess.descs, hdescs]; rfl
  refine ⟨hsound, fun va ht hva => ?_, fun m hm hacc ht => ?_, fun i rec hrec => ?_, fun rec hrec => ?_⟩
  · rw [hat, htable]
    exact h.descs va (htracked va ht) (hstarts va ▸ hva)
  · rw [hat]
    exact h.granted m (hmaps ▸ hm) hacc (htracked _ ht)
  · rw [hidx]
    exact h.importIdx i rec (himports ▸ hrec)
  · rw [hstarts, htable]
    exact h.imports rec (himports ▸ hrec)

theorem Recorded.setDrv (h : s.Recorded) {d : Driver} (hd : s.hooks.ipc.drv.SameView d)
    (hmaps : d.maps = s.hooks.ipc.drv.maps) : Recorded ⟨s.hooks.setDrv d, s.table⟩ :=
  h.of_same (h.sound.setDrv hd) rfl rfl (fun _ ht => ht) rfl hmaps rfl

theorem call_maps (s : HookedProcess) {c : HookCall} (hc : (∃ size types prop, c = .create size types prop) ∨
    (∃ handle type, c = .exportHandle handle type) ∨ (∃ size, c = .importHandle size) ∨ ∃ handle, c = .release handle) :
    (s.call c).ipc.drv.maps = s.ipc.drv.maps := by
  rcases hc with ⟨size, types, prop, rfl⟩ | ⟨handle, type, rfl⟩ | ⟨size, rfl⟩ | ⟨handle, rfl⟩
  · have hmaps := s.ipc.drv.cuMemCreate_maps size
    show (s.hookCuMemCreate size types prop).ipc.drv.maps = _
    unfold HookedProcess.hookCuMemCreate
    generalize s.ipc.drv.cuMemCreate size = r at hmaps
    obtain ⟨_ | h, d⟩ := r
    all_goals
      split_ifs
      · rfl
      · exact hmaps
      · exact hmaps
  · have hmaps : (s.ipc.drv.cuMemExportToShareableHandle handle).2.maps = s.ipc.drv.maps := by
      unfold Driver.cuMemExportToShareableHandle Driver.call
      dsimp only
      split_ifs <;> rfl
    show (s.hookCuMemExportToShareableHandle handle type).ipc.drv.maps = _
    unfold HookedProcess.hookCuMemExportToShareableHandle
    generalize s.ipc.drv.cuMemExportToShareableHandle handle = r at hmaps
    obtain ⟨_ | fd, d⟩ := r
    all_goals
      split_ifs
      · rfl
      · exact hmaps
      · exact hmaps
  · have hmaps := s.ipc.drv.cuMemCreate_maps size
    show (s.hookCuMemImportFromShareableHandle size).ipc.drv.maps = _
    unfold HookedProcess.hookCuMemImportFromShareableHandle
    generalize s.ipc.drv.cuMemCreate size = r at hmaps
    obtain ⟨_ | h, d⟩ := r
    all_goals
      split_ifs
      · rfl
      · exact hmaps
  · have hmaps := s.ipc.drv.cuMemRelease_maps (s.ipc.rebuiltHandleAlias[handle]?.getD handle)
    show (s.hookCuMemRelease handle).ipc.drv.maps = _
    unfold HookedProcess.hookCuMemRelease
    dsimp only
    generalize s.ipc.drv.cuMemRelease (s.ipc.rebuiltHandleAlias[handle]?.getD handle) = r at hmaps
    obtain ⟨_ | _, d⟩ := r
    · split_ifs
      · rfl
      · exact hmaps
    · split_ifs
      · rfl
      · unfold recordRelease
        dsimp only
        split_ifs <;> exact hmaps

theorem Recorded.map (h : s.Recorded) {ptr size handle : Nat} (hok : s.KeepsAccess (.map ptr size handle)) :
    (s.step (.map ptr size handle)).Recorded := by
  have hsound : (s.hooks.hookCuMemMap ptr size handle).Sound := h.sound.call (.map ptr size handle)
  show Recorded ⟨s.hooks.hookCuMemMap ptr size handle, _⟩
  simp only [KeepsAccess] at hok
  unfold HookedProcess.hookCuMemMap at hsound ⊢
  have hview := s.hooks.ipc.drv.cuMemMap_view ptr size handle
  have hmaps := s.hooks.ipc.drv.cuMemMap_maps ptr size handle
  generalize s.hooks.ipc.drv.cuMemMap ptr size handle = r at hok hsound hview hmaps
  obtain ⟨accepted, d⟩ := r
  cases hfn : s.hooks.ipc.fns.cuMemMap with
  | false => exact h
  | true =>
    cases accepted with
    | false => exact h.setDrv (hview.resolve_right (by simp)).2 (hmaps.resolve_right (by simp)).2
    | true =>
      obtain ⟨hdescs, himports⟩ := hok hfn rfl
      obtain ⟨-, hcan, hmaps⟩ := hmaps.resolve_left (by simp)
      rw [hfn] at hsound
      dsimp only at hmaps hsound
      -- every mapping that was there starts somewhere else
      have hne : ∀ m ∈ s.hooks.ipc.drv.maps, m.va ≠ ptr := by
        intro m hm hva
        have hapart := hcan.2.2 m hm
        have := s.hooks.ipc.drv.maps_pos m hm
        have := hcan.1
        unfold Mapping.apart at hapart
        dsimp only at hapart
        omega
      have hstarts : ∀ va, d.startsAt va = true ↔ va = ptr ∨ s.hooks.ipc.drv.startsAt va = true := by
        intro va
        rw [Driver.startsAt_iff, Driver.startsAt_iff, hmaps]
        simp [eq_comm]
      have hat : ∀ va, (s.hooks.recordMap d ptr size handle).descs va = s.hooks.descs va := fun va => by
        rw [HookedProcess.descs, recordMap_vaAccessDescs]
        rfl
      show Recorded ⟨s.hooks.recordMap d ptr size handle, s.table.reset ptr⟩
      refine ⟨hsound, fun va ht hva => ?_, fun m hm hacc ht => ?_, fun i rec hrec => ?_, fun rec hrec => ?_⟩
      · rw [recordMap_drv, hstarts] at hva
        rw [hat]
        show _ ∧ _ = s.table.reset ptr va
        by_cases heq : va = ptr
        · subst heq
          rw [hdescs ((tracked_of_recordMap ht).imp id And.right), AccessTable.reset_self]
          exact ⟨List.nodup_nil, rfl⟩
        · rw [AccessTable.reset_of_ne _ heq]
          exact h.descs va ((tracked_of_recordMap ht).resolve_right fun hnew => heq hnew.1) (hva.resolve_left heq)
      · rw [recordMap_drv, hmaps] at hm
        rw [hat]
        rcases List.mem_cons.1 hm with rfl | hm
        · exact absurd hacc Bool.false_ne_true
        · exact h.granted m hm hacc ((tracked_of_recordMap ht).resolve_right fun hnew => hne m hm hnew.1)
      · rw [recordMap_imports] at hrec
        rw [recordMap_vaddrToImportIdx]
        split_ifs at hrec ⊢ with himported
        · rw [getElem?_insert_key, List.getElem?_append] at *
          split_ifs at hrec with hi
          · rw [if_neg fun hva => (himports rec (List.mem_of_getElem? hrec) hva).2 himported]
            exact h.importIdx i rec hrec
          · obtain ⟨hi0, hrec⟩ := List.getElem?_eq_some_iff.1 hrec
            obtain rfl : ⟨ptr, size, handle, -1, ⟨0, 0, 0⟩, [], false⟩ = rec := by simpa using hrec
            rw [if_pos rfl]
            rw [List.length_singleton] at hi0
            exact congrArg some (by omega)
        · exact h.importIdx i rec hrec
      · have hold : ∀ rec ∈ s.hooks.ipc.imports, (rec.allAccess = [] → rec.accessDev < 0) ∧
            ((s.hooks.recordMap d ptr size handle).ipc.drv.startsAt rec.mappedVaddr = true →
              OnePerLocation rec.allAccess ∧
                AccessMap.empty.grant rec.allAccess = s.table.reset ptr rec.mappedVaddr) := by
          intro rec hrec
          refine ⟨(h.imports rec hrec).1, fun hva => ?_⟩
          rw [recordMap_drv, hstarts] at hva
          by_cases heq : rec.mappedVaddr = ptr
          · rw [heq, (himports rec hrec heq).1, AccessTable.reset_self]
            exact ⟨List.nodup_nil, rfl⟩
          · rw [AccessTable.reset_of_ne _ heq]
            exact (h.imports rec hrec).2 (hva.resolve_left heq)
        rw [recordMap_imports] at hrec
        split_ifs at hrec
        · rcases List.mem_append.1 hrec with hrec | hrec
          · exact hold rec hrec
          · obtain rfl := List.mem_singleton.1 hrec
            exact ⟨fun _ => Int.negSucc_lt_zero 0, fun _ => ⟨List.nodup_nil, (s.table.reset_self ptr).symm⟩⟩
        · exact hold rec hrec

theorem Recorded.unmap (h : s.Recorded) (ptr size : Nat) : (s.step (.unmap ptr size)).Recorded := by
  have hsound : (s.hooks.hookCuMemUnmap ptr size).Sound := h.sound.call (.unmap ptr size)
  show Recorded ⟨s.hooks.hookCuMemUnmap ptr size, _⟩
  unfold HookedProcess.hookCuMemUnmap at hsound ⊢
  have hview := s.hooks.ipc.drv.cuMemUnmap_view ptr size
  have hmaps := s.hooks.ipc.drv.cuMemUnmap_maps ptr size
  generalize s.hooks.ipc.drv.cuMemUnmap ptr size = r at hsound hview hmaps
  obtain ⟨accepted, d⟩ := r
  cases hfn : s.hooks.ipc.fns.cuMemUnmap with
  | false => exact h
  | true =>
    cases accepted with
    | false => exact h.setDrv (hview.resolve_right (by simp)).2 (hmaps.resolve_right (by simp)).2
    | true =>
      obtain ⟨-, hmaps⟩ := hmaps.resolve_left (by simp)
      rw [hfn] at hsound
      dsimp only at hmaps hsound
      have hstarts : ∀ va, d.startsAt va = true → va ≠ ptr ∧ s.hooks.ipc.drv.startsAt va = true := by
        intro va hva
        obtain ⟨m, hm, rfl⟩ := Driver.startsAt_iff.1 hva
        rw [hmaps, List.mem_filter, bne_iff_ne] at hm
        exact ⟨hm.2, Driver.startsAt_iff.2 ⟨m, hm.1, rfl⟩⟩
      -- a record keeps its address and its descriptors
      have hrecords : ∀ (i : Nat) (rec : IpcImportRecord), (s.hooks.recordUnmap d ptr).ipc.imports[i]? = some rec →
          ∃ rec₀, s.hooks.ipc.imports[i]? = some rec₀ ∧ rec.mappedVaddr = rec₀.mappedVaddr ∧
            rec.allAccess = rec₀.allAccess ∧ rec.accessDev = rec₀.accessDev := by
        intro i rec hrec
        unfold recordUnmap at hrec
        dsimp only at hrec
        split at hrec
        · exact ⟨rec, hrec, rfl, rfl, rfl⟩
        · rw [List.getElem?_modify] at hrec
          obtain ⟨rec₀, hrec₀, rfl⟩ := Option.map_eq_some_iff.1 hrec
          refine ⟨rec₀, hrec₀, ?_⟩
          split_ifs <;> exact ⟨rfl, rfl, rfl⟩
      show Recorded ⟨s.hooks.recordUnmap d ptr, s.table.reset ptr⟩
      refine ⟨hsound, fun va ht hva => ?_, fun m hm hacc ht => ?_, fun i rec hrec => ?_, fun rec hrec => ?_⟩
      · obtain ⟨hne, hva⟩ := hstarts va hva
        show _ ∧ _ = s.table.reset ptr va
        rw [AccessTable.reset_of_ne _ hne]
        exact h.descs va ht hva
      · have hm : m ∈ s.hooks.ipc.drv.maps := by
          have hm : m ∈ d.maps := hm
          rw [hmaps] at hm
          exact (List.mem_filter.1 hm).1
        exact h.granted m hm hacc ht
      · obtain ⟨rec₀, hrec₀, hva, -⟩ := hrecords i rec hrec
        rw [hva]
        exact h.importIdx i rec₀ hrec₀
      · obtain ⟨i, hi⟩ := List.getElem?_of_mem hrec
        obtain ⟨rec₀, hrec₀, hva, hacc, hdev⟩ := hrecords i rec hi
        obtain ⟨hnil, hgrant⟩ := h.imports rec₀ (List.mem_of_getElem? hrec₀)
        rw [hva, hacc, hdev]
        refine ⟨hnil, fun hat => ?_⟩
        obtain ⟨hne, hat⟩ := hstarts _ hat
        show _ ∧ _ = s.table.reset ptr _
        rw [AccessTable.reset_of_ne _ hne]
        exact hgrant hat

/-- A release that takes no descriptors from a mapping that is rebuilt. -/
theorem Recorded.release (h : s.Recorded) {handle : Nat} (hok : s.KeepsAccess (.release handle)) :
    (s.step (.release handle)).Recorded := by
  have hsound := h.sound.call (.release handle)
  have hmaps : (s.hooks.hookCuMemRelease handle).ipc.drv.maps = s.hooks.ipc.drv.maps :=
    call_maps s.hooks (c := .release handle) (Or.inr (Or.inr (Or.inr ⟨handle, rfl⟩)))
  show Recorded ⟨s.hooks.hookCuMemRelease handle, s.table⟩
  change (s.hooks.hookCuMemRelease handle).Sound at hsound
  simp only [KeepsAccess] at hok
  unfold HookedProcess.hookCuMemRelease at hsound hmaps ⊢
  dsimp only at hsound hmaps ⊢
  rw [h.sound.alias_eq] at hsound hmaps ⊢
  have hview := s.hooks.ipc.drv.cuMemRelease_view handle
  generalize s.hooks.ipc.drv.cuMemRelease handle = r at hok hsound hmaps hview
  obtain ⟨accepted, d⟩ := r
  cases hfn : s.hooks.ipc.fns.cuMemRelease with
  | false => exact h
  | true =>
    rw [hfn] at hmaps hsound
    cases accepted with
    | false => exact h.setDrv (hview.resolve_right (by simp)).2 hmaps
    | true =>
      have hkeep := hok hfn rfl
      dsimp only at hmaps hsound
      have hstarts : ∀ va, (s.hooks.recordRelease d handle handle).ipc.drv.startsAt va = s.hooks.ipc.drv.startsAt va :=
        Driver.startsAt_congr (congrArg (List.map _) hmaps)
      have himports : (s.hooks.recordRelease d handle handle).ipc.imports =
          s.hooks.ipc.imports.map (IpcImportRecord.dropHandle handle) ∧
          (s.hooks.recordRelease d handle handle).vaddrToImportIdx = s.hooks.vaddrToImportIdx := by
        unfold recordRelease
        dsimp only
        rw [if_neg (not_not.2 rfl)]
        exact ⟨rfl, rfl⟩
      have hdrop : ∀ rec : IpcImportRecord, (rec.dropHandle handle).mappedVaddr = rec.mappedVaddr ∧
          (rec.dropHandle handle).allAccess = rec.allAccess ∧ (rec.dropHandle handle).accessDev = rec.accessDev := by
        intro rec
        unfold IpcImportRecord.dropHandle
        split_ifs <;> exact ⟨rfl, rfl, rfl⟩
      -- the descriptors of an address that is still looked up are still there
      have hat : ∀ va, (s.hooks.recordRelease d handle handle).Tracked va → s.hooks.ipc.drv.startsAt va = true →
          s.hooks.Tracked va ∧ (s.hooks.recordRelease d handle handle).descs va = s.hooks.descs va := by
        intro va ht hva
        have ht' := tracked_of_recordRelease ht
        refine ⟨ht'.imp (fun ⟨j, _, hj⟩ => ⟨j, hj⟩) id, ?_⟩
        rw [descs_recordRelease]
        split_ifs with hk
        · by_contra hne
          obtain ⟨hother, hexport⟩ := hkeep va hk hva (Ne.symm hne)
          rcases ht' with ⟨j, hj, hjva⟩ | ⟨rec, hrec, hmap, hrecva⟩
          · exact hother j hj hjva
          · exact hexport rec hrec hmap hrecva
        · rfl
      show Recorded ⟨s.hooks.recordRelease d handle handle, s.table⟩
      refine ⟨hsound, fun va ht hva => ?_, fun m hm hacc ht => ?_, fun i rec hrec => ?_, fun rec hrec => ?_⟩
      · have hva := (hstarts va).symm.trans hva
        obtain ⟨ht, heq⟩ := hat va ht hva
        rw [heq]
        exact h.descs va ht hva
      · have hm : m ∈ s.hooks.ipc.drv.maps := hmaps ▸ hm
        obtain ⟨ht, heq⟩ := hat m.va ht (Driver.startsAt_iff.2 ⟨m, hm, rfl⟩)
        rw [heq]
        exact h.granted m hm hacc ht
      · rw [himports.1, List.getElem?_map] at hrec
        obtain ⟨rec₀, hrec₀, rfl⟩ := Option.map_eq_some_iff.1 hrec
        rw [himports.2, (hdrop rec₀).1]
        exact h.importIdx i rec₀ hrec₀
      · rw [himports.1] at hrec
        obtain ⟨rec₀, hrec₀, rfl⟩ := List.mem_map.1 hrec
        rw [(hdrop rec₀).1, (hdrop rec₀).2.1, (hdrop rec₀).2.2, hstarts]
        exact h.imports rec₀ hrec₀

theorem Recorded.setAccess (h : s.Recorded) {ptr size : Nat} {desc : List CUmemAccessDesc}
    (hok : s.KeepsAccess (.setAccess ptr size desc)) : (s.step (.setAccess ptr size desc)).Recorded := by
  show (s.hookCuMemSetAccess ptr size desc).Recorded
  simp only [KeepsAccess] at hok
  unfold AccessProcess.hookCuMemSetAccess
  cases hfn : s.hooks.ipc.fns.cuMemSetAccess with
  | false => exact h
  | true =>
    rcases s.hooks.ipc.drv.cuMemSetAccessRange_cases ptr size desc with heq | ⟨hdesc, hcovered, heq⟩
    · rw [heq]
      exact h.setDrv (Driver.sameView_of_eq rfl rfl) rfl
    · have hother := hok hfn (by rw [heq])
      rw [heq]
      generalize hd : ({ s.hooks.ipc.drv with clock := s.hooks.ipc.drv.clock + 1 } : Driver).grantInside ptr size = d
      have hmaps : d.maps = s.hooks.ipc.drv.maps.map (Mapping.grant ptr size) := hd ▸ rfl
      have hview : s.hooks.ipc.drv.SameView d := by
        rw [← hd]
        exact s.hooks.ipc.drv.sameView_grantInside ptr size
      obtain ⟨m₀, hm₀, hva₀, hin₀⟩ := Driver.exists_of_covered hcovered
      obtain ⟨first, rest, rfl⟩ := List.exists_cons_of_ne_nil hdesc
      show Recorded ⟨s.hooks.recordAccess d ptr (first :: rest) first,
        s.table.grantInside s.hooks.ipc.drv ptr size (first :: rest)⟩
      generalize first :: rest = desc at hdesc
      have hstarts : ∀ va, d.startsAt va = s.hooks.ipc.drv.startsAt va := by
        refine Driver.startsAt_congr ?_
        rw [hmaps, List.map_map]
        exact List.map_congr_left fun m _ => m.grant_va ptr size
      have htracked : ∀ va, (s.hooks.recordAccess d ptr desc first).Tracked va → s.hooks.Tracked va :=
        fun va => tracked_of_recordAccess ptr desc first
      have hdescs := fun va => s.hooks.descs_recordAccess d ptr desc first va
      -- what the range grants to the mappings that are rebuilt it grants at its start
      have htable : ∀ va, (s.hooks.Tracked va ∨ ∃ rec ∈ s.hooks.ipc.imports, rec.mappedVaddr = va) →
          s.table.grantInside s.hooks.ipc.drv ptr size desc va =
            if va = ptr then (s.table ptr).grant desc else s.table va := by
        intro va hrebuilt
        unfold AccessTable.grantInside
        by_cases hva : va = ptr
        · subst hva
          rw [if_pos rfl, if_pos]
          exact List.any_eq_true.2 ⟨m₀, hm₀, by simp [hva₀, hin₀]⟩
        · rw [if_neg hva, if_neg]
          intro hany
          obtain ⟨m, hm, hin⟩ := List.any_eq_true.1 hany
          rw [Bool.and_eq_true, beq_iff_eq] at hin
          obtain ⟨hnot, himport⟩ := hother m hm hin.2 (hin.1 ▸ hva)
          rcases hrebuilt with ht | ⟨rec, hrec, hrecva⟩
          · exact hnot (hin.1 ▸ ht)
          · exact himport rec hrec (hrecva.trans hin.1.symm)
      refine ⟨h.sound.recordAccess hview .., fun va ht hva => ?_, fun m hm hacc ht => ?_, fun i rec hrec => ?_,
        fun rec hrec => ?_⟩
      · have hold := h.descs va (htracked va ht) ((hstarts va).symm.trans hva)
        show _ ∧ _ = s.table.grantInside s.hooks.ipc.drv ptr size desc va
        rw [hdescs, htable va (Or.inl (htracked va ht))]
        split_ifs with heq
        · subst heq
          obtain ⟨hone, hgrant⟩ := foldl_mergeDesc hold.1 desc
          exact ⟨hone, (hgrant _).trans (congrArg (AccessMap.grant · desc) hold.2)⟩
        · exact hold
      · have hm : m ∈ s.hooks.ipc.drv.maps.map (Mapping.grant ptr size) := hmaps ▸ hm
        obtain ⟨m', hm', rfl⟩ := List.mem_map.1 hm
        rw [Mapping.grant_va] at ht ⊢
        rw [hdescs]
        split_ifs with hva
        · exact foldl_mergeDesc_ne_nil hdesc _
        · refine h.granted m' hm' ?_ (htracked _ ht)
          unfold Mapping.grant at hacc
          split_ifs at hacc with hin
          · exact absurd (htracked _ ht) (hother m' hm' hin hva).1
          · exact hacc
      · obtain ⟨rec₀, hrec₀, hva, -⟩ := recordAccess_imports h.sound h.importIdx hrec
        rw [hva]
        exact h.importIdx i rec₀ hrec₀
      · obtain ⟨i, hi⟩ := List.getElem?_of_mem hrec
        obtain ⟨rec₀, hrec₀, hva, hsame⟩ := recordAccess_imports h.sound h.importIdx hi
        have hmem := List.mem_of_getElem? hrec₀
        obtain ⟨hnil, hgrant⟩ := h.imports rec₀ hmem
        show _ ∧ (d.startsAt rec.mappedVaddr = true → _ ∧ _ = s.table.grantInside s.hooks.ipc.drv ptr size desc _)
        rw [hva, hstarts, htable _ (Or.inr ⟨rec₀, hmem, rfl⟩)]
        by_cases heq : rec₀.mappedVaddr = ptr
        · rw [if_pos heq] at hsame ⊢
          rw [hsame]
          refine ⟨fun hempty => absurd hempty (foldl_mergeDesc_ne_nil hdesc _), fun hat => ?_⟩
          obtain ⟨hone, hsum⟩ := foldl_mergeDesc (hgrant hat).1 desc
          exact ⟨hone, (hsum _).trans (congrArg (AccessMap.grant · desc) ((hgrant hat).2.trans (congrArg s.table heq)))⟩
        · rw [if_neg heq] at hsame ⊢
          rw [hsame]
          exact ⟨hnil, hgrant⟩

theorem recorded_step (h : s.Recorded) {c : HookCall} (hok : s.KeepsAccess c) : (s.step c).Recorded := by
  cases c with
  | create size types prop =>
    have hmaps := call_maps s.hooks (c := .create size types prop) (Or.inl ⟨size, types, prop, rfl⟩)
    have heff := s.hooks.call_effect (.create size types prop)
    show Recorded ⟨s.hooks.call (.create size types prop), s.table⟩
    generalize s.hooks.call (.create size types prop) = p at hmaps heff
    have hsound := h.sound.effect heff
    cases heff with
    | rejected hd => exact h.setDrv hd hmaps
    | plain hd => exact h.of_same hsound rfl rfl (fun _ ht => ht) rfl hmaps rfl
    | created hd hpos => exact h.of_same hsound rfl rfl (fun _ ht => ht) rfl hmaps rfl
  | exportHandle handle type =>
    have hmaps := call_maps s.hooks (c := .exportHandle handle type) (Or.inr (Or.inl ⟨handle, type, rfl⟩))
    have heff := s.hooks.call_effect (.exportHandle handle type)
    show Recorded ⟨s.hooks.call (.exportHandle handle type), s.table⟩
    generalize s.hooks.call (.exportHandle handle type) = p at hmaps heff
    have hsound := h.sound.effect heff
    cases heff with
    | rejected hd => exact h.setDrv hd hmaps
    | exported hd hlive hfd => exact h.of_same hsound rfl rfl (fun _ ht => tracked_of_recordExport ht) rfl hmaps rfl
  | importHandle size =>
    have hmaps := call_maps s.hooks (c := .importHandle size) (Or.inr (Or.inr (Or.inl ⟨size, rfl⟩)))
    have heff := s.hooks.call_effect (.importHandle size)
    show Recorded ⟨s.hooks.call (.importHandle size), s.table⟩
    generalize s.hooks.call (.importHandle size) = p at hmaps heff
    have hsound := h.sound.effect heff
    cases heff with
    | rejected hd => exact h.setDrv hd hmaps
    | imported hd => exact h.of_same hsound rfl rfl (fun _ ht => ht) rfl hmaps rfl
  | map ptr size handle => exact h.map hok
  | unmap ptr size => exact h.unmap ptr size
  | release handle => exact h.release hok
  | setAccess ptr size desc => exact h.setAccess hok

end Steps

theorem recorded_of_fresh {s : AccessProcess} (h : s.hooks.Fresh) : s.Recorded := by
  have hnone : ∀ va, ¬ s.hooks.Tracked va := by
    rintro va (⟨k, hk⟩ | ⟨rec, hrec, -⟩)
    · rw [h.handleToVa] at hk
      simp at hk
    · rw [h.exports] at hrec
      exact absurd hrec List.not_mem_nil
  refine ⟨h.sound, fun va ht => absurd ht (hnone va), fun m _ _ ht => absurd ht (hnone m.va), fun i rec hrec => ?_,
    fun rec hrec => ?_⟩
  · rw [h.imports] at hrec
    exact absurd hrec (by simp)
  · rw [h.imports] at hrec
    exact absurd hrec List.not_mem_nil

theorem recorded_of_history {s : AccessProcess} (hs : s.hooks.Fresh) {history : List HookCall}
    (hok : AllSteps KeepsAccess step s history) : (run step s history).Recorded := by
  have hstep : ∀ (s : AccessProcess) (c : HookCall), s.Recorded → s.KeepsAccess c → (s.step c).Recorded :=
    fun s c h hc => recorded_step h hc
  exact invariant_of_allSteps hstep (recorded_of_fresh hs) hok history List.prefix_rfl

end AccessProcess

end GpuCr
