import GpuCr.VGpu.Hooks

/-!
# The accounts of the NVIDIA back end

`cudaMalloc`, `cudaFree`, `nv::releasePhysicalMemory` and `nv::remapPhysicalMemory` in any order. Three
tables stand for three resources of the driver: address ranges, physical handles and mappings. `Accounted`
says that they agree. A block that is freed while it is parked breaks it, since its address range is then
in no table and still reserved.
-/

namespace GpuCr

open Lib.Run Std

namespace VGpu

/-! ### The operations with the state a failure leaves -/

/-- `unmapAndRelease` with its result as a flag. -/
def unmapAndReleaseRun (s : VGpu) (ptr alignedSize : Nat) : Bool × VGpu :=
  let unmapped := s.drv.cuMemUnmap ptr alignedSize
  if !unmapped.1 then (false, { s with drv := unmapped.2 })
  else
    match s.globalHandleMap[ptr]? with
    | none => (true, { s with drv := unmapped.2 })
    | some handle =>
      let released := unmapped.2.cuMemRelease handle
      if !released.1 then (false, { s with drv := released.2 })
      else (true, { s with drv := released.2, globalHandleMap := s.globalHandleMap.erase ptr })

def releasePhysicalMemoryRun (s : VGpu) (ptr : Nat) : Bool × VGpu :=
  match s.allocatedMemory[ptr]? with
  | none => (false, s)
  | some size => s.unmapAndReleaseRun ptr (roundUp2MB size)

/-- Only the calls under `CU_CHECK` leave through `exit`. -/
def remapPhysicalMemoryRun (s : VGpu) (ptr size : Nat) : Except Exit (Bool × VGpu) :=
  match s.allocatedMemory[ptr]? with
  | none => .ok (false, s)
  | some oldSize =>
    if s.globalHandleMap[ptr]?.isSome then
      let r := s.unmapAndReleaseRun ptr (roundUp2MB oldSize)
      if !r.1 then .ok r else (r.2.mapNewPhysical ptr (roundUp2MB size)).map fun s => (true, s)
    else (s.mapNewPhysical ptr (roundUp2MB size)).map fun s => (true, s)

theorem unmapAndRelease_eq (s : VGpu) (ptr alignedSize : Nat) :
    s.unmapAndRelease ptr alignedSize =
      if (s.unmapAndReleaseRun ptr alignedSize).1 then some (s.unmapAndReleaseRun ptr alignedSize).2 else none := by
  unfold unmapAndRelease unmapAndReleaseRun
  dsimp only
  by_cases hunmap : (!(s.drv.cuMemUnmap ptr alignedSize).1) = true
  · simp only [if_pos hunmap]
    rfl
  · simp only [if_neg hunmap]
    cases s.globalHandleMap[ptr]? with
    | none => rfl
    | some handle =>
      dsimp only
      by_cases hrelease : (!((s.drv.cuMemUnmap ptr alignedSize).2.cuMemRelease handle).1) = true
      · simp only [if_pos hrelease]
        rfl
      · simp only [if_neg hrelease]
        rfl

theorem unmapAndReleaseRun_unmapped {s : VGpu} {ptr alignedSize : Nat} (h : s.drv.mappedAt ptr alignedSize = false) :
    s.unmapAndReleaseRun ptr alignedSize = (false, { s with drv := { s.drv with clock := s.drv.clock + 1 } }) := by
  have hcall : s.drv.cuMemUnmap ptr alignedSize = (false, { s.drv with clock := s.drv.clock + 1 }) := by
    rw [Driver.cuMemUnmap, Driver.call, h, Bool.false_and]
    rfl
  simp only [unmapAndReleaseRun, hcall]
  rfl

/-- What the callers of the library see of a release. -/
theorem releasePhysicalMemory_eq (s : VGpu) (ptr : Nat) :
    s.releasePhysicalMemory ptr =
      if (s.releasePhysicalMemoryRun ptr).1 then some (s.releasePhysicalMemoryRun ptr).2 else none := by
  unfold releasePhysicalMemory releasePhysicalMemoryRun
  cases s.allocatedMemory[ptr]? with
  | none => rfl
  | some size => exact unmapAndRelease_eq s ptr (roundUp2MB size)

theorem remapPhysicalMemory_eq (s : VGpu) (ptr size : Nat) :
    s.remapPhysicalMemory ptr size =
      (s.remapPhysicalMemoryRun ptr size).bind fun r => if r.1 then .ok r.2 else .error (.remap ptr) := by
  unfold remapPhysicalMemory remapPhysicalMemoryRun
  have hnew : ∀ s' : VGpu, s'.mapNewPhysical ptr (roundUp2MB size) =
      ((s'.mapNewPhysical ptr (roundUp2MB size)).map fun s => (true, s)).bind
        fun r => if r.1 then .ok r.2 else .error (.remap ptr) := by
    intro s'
    cases s'.mapNewPhysical ptr (roundUp2MB size) <;> rfl
  cases s.allocatedMemory[ptr]? with
  | none => rfl
  | some oldSize =>
    dsimp only
    rw [unmapAndRelease_eq]
    by_cases hmapped : s.globalHandleMap[ptr]?.isSome = true
    · simp only [if_pos hmapped]
      cases hr : (s.unmapAndReleaseRun ptr (roundUp2MB oldSize)).1 with
      | false =>
        simp only [Bool.false_eq_true, if_false, Bool.not_false, if_true]
        show _ = if (s.unmapAndReleaseRun ptr (roundUp2MB oldSize)).1 then _ else _
        rw [hr]
        rfl
      | true =>
        simp only [if_true, Bool.not_true, Bool.false_eq_true, if_false]
        exact hnew _
    · simp only [if_neg hmapped]
      exact hnew s

end VGpu

/-- A call of the hooks or of the back end. -/
inductive MemOp where
  | malloc (size : Nat)
  | free (ptr : Nat)
  | release (ptr : Nat)
  | remap (ptr size : Nat)
  deriving DecidableEq, Repr

namespace HookedGpu

def memOp (s : HookedGpu) : MemOp → Except Exit HookedGpu
  | .malloc size => .ok (s.cudaMalloc size).2
  | .free ptr => .ok (s.cudaFree ptr)
  | .release ptr => .ok { s with toVGpu := (s.releasePhysicalMemoryRun ptr).2 }
  | .remap ptr size => (s.remapPhysicalMemoryRun ptr size).map fun r => { s with toVGpu := r.2 }

/-! ### What is claimed and when -/

/-- The tables account for everything the hooks hold of the driver. -/
structure Accounted (s : HookedGpu) : Prop where
  types : ∀ p : Nat, s.allocatedMemoryType[p]? = s.allocatedMemory[p]?.map fun _ => 1
  reserved : ∀ r : Nat × Nat, r ∈ s.reserved ↔ ∃ n, s.allocatedMemory[r.1]? = some n ∧ r.2 = roundUp2MB n
  apart : s.reserved.Pairwise rangeApart
  pos : ∀ p n : Nat, s.allocatedMemory[p]? = some n → 0 < n
  handles : ∀ h, s.drv.isLive h = true ↔ ∃ p : Nat, s.globalHandleMap[p]? = some h
  distinct : ∀ p q h : Nat, s.globalHandleMap[p]? = some h → s.globalHandleMap[q]? = some h → p = q
  mapped : ∀ m, m ∈ s.drv.maps ↔
    ∃ n, s.allocatedMemory[m.va]? = some n ∧ s.globalHandleMap[m.va]? = some m.handle ∧ m.size = roundUp2MB n ∧
      m.access = true
  known : ∀ p h : Nat, s.globalHandleMap[p]? = some h → ∃ n : Nat, s.allocatedMemory[p]? = some n

/-- No block yet, and the driver holds nothing for the hooks. -/
structure NoBlock (s : HookedGpu) : Prop where
  table : s.allocatedMemory = ∅
  types : s.allocatedMemoryType = ∅
  handles : s.globalHandleMap = ∅
  reserved : s.reserved = []
  maps : s.drv.maps = []
  live : s.drv.live = []

/-- Outside of `cudaMalloc` no call with valid arguments fails. -/
def CallsSucceed (s : HookedGpu) : MemOp → Prop
  | .malloc _ => True
  | _ => ∀ i < 6, s.drv.env.fails (s.drv.clock + i) = false

/-- If the `i`-th of the calls of `cudaMalloc` is the first to fail, the `i` calls that undo the ones before
it do not. -/
def UndoSucceeds (s : HookedGpu) : Prop :=
  ∀ i < 4, s.drv.env.fails (s.drv.clock + i) = true → (∀ j < i, s.drv.env.fails (s.drv.clock + j) = false) →
    ∀ j < i, s.drv.env.fails (s.drv.clock + i + 1 + j) = false

/-- A failed allocation can be undone, no parked block is freed, and a block gets physical memory of its
own size again. -/
def Kept (s : HookedGpu) : MemOp → Prop
  | .malloc _ => s.UndoSucceeds
  | .free ptr => ptr ∈ s.allocatedMemory → ptr ∈ s.globalHandleMap
  | .release _ => True
  | .remap ptr size => ∀ n, s.allocatedMemory[ptr]? = some n → roundUp2MB size = roundUp2MB n

/-! ### What the accounts say -/

section Accounted
variable {s : HookedGpu}

theorem NoBlock.accounted (h : s.NoBlock) : s.Accounted where
  types p := by simp [h.table, h.types]
  reserved r := by simp [h.table, h.reserved]
  apart := by simp [h.reserved]
  pos p n hp := by simp [h.table] at hp
  handles k := by simp [h.handles, Driver.isLive, h.live]
  distinct p q k hp := by simp [h.handles] at hp
  mapped m := by simp [h.maps, h.table]
  known p k hp := by simp [h.handles] at hp

theorem Accounted.drv (h : s.Accounted) {d : Driver} (hmaps : ∀ m, m ∈ d.maps ↔ m ∈ s.drv.maps)
    (hlive : ∀ k, d.isLive k = true ↔ s.drv.isLive k = true) : Accounted { s with drv := d } where
  types := h.types
  reserved := h.reserved
  apart := h.apart
  pos := h.pos
  handles k := (hlive k).trans (h.handles k)
  distinct := h.distinct
  mapped m := (hmaps m).trans (h.mapped m)
  known := h.known

theorem Accounted.tick (h : s.Accounted) : s.tick.Accounted :=
  h.drv (d := { s.drv with clock := s.drv.clock + 1 }) (fun _ => Iff.rfl) fun _ => Iff.rfl

theorem Accounted.free_of_fresh (h : s.Accounted) {r : Nat × Nat} (hfresh : ∀ r' ∈ s.reserved, rangeApart r r') :
    ∀ m ∈ s.drv.maps, rangeApart r (m.va, m.size) := by
  intro m hm
  obtain ⟨n, htab, -, hsize, -⟩ := (h.mapped m).1 hm
  exact hfresh (m.va, m.size) ((h.reserved _).2 ⟨n, htab, hsize⟩)

/-- So is the range of a block from the mappings of the others. -/
theorem Accounted.free_of_block (h : s.Accounted) {p n : Nat} (htab : s.allocatedMemory[p]? = some n) :
    ∀ m ∈ s.drv.maps, m.va ≠ p → rangeApart (p, roundUp2MB n) (m.va, m.size) := by
  intro m hm hne
  obtain ⟨n', htab', -, hsize, -⟩ := (h.mapped m).1 hm
  refine h.apart.forall ((h.reserved (p, roundUp2MB n)).2 ⟨n, htab, rfl⟩)
    ((h.reserved (m.va, m.size)).2 ⟨n', htab', hsize⟩) ?_
  intro heq
  exact hne (congrArg Prod.fst heq).symm

/-! ### Allocation -/

theorem Accounted.undone (h : s.Accounted) {r : Nat × Nat} (hfresh : ∀ r' ∈ s.reserved, rangeApart r r') {d : Driver}
    (hmaps : ∀ m, m ∈ d.maps ↔ m ∈ s.drv.maps) (hlive : ∀ k, d.isLive k = true ↔ s.drv.isLive k = true)
    (hok : d.env.fails d.clock = false) :
    Accounted (cuMemAddressFree { s with reserved := r :: s.reserved, drv := d } r.1 r.2) := by
  have hfree : ∀ m ∈ d.maps, rangeApart r (m.va, m.size) := fun m hm => h.free_of_fresh hfresh m ((hmaps m).1 hm)
  unfold cuMemAddressFree
  rw [if_pos ⟨List.mem_cons_self .., hfree, hok⟩]
  have herase : (r :: s.reserved).erase (r.1, r.2) = s.reserved := List.erase_cons_head ..
  exact { h.drv (d := { d with clock := d.clock + 1 }) hmaps hlive with
    reserved := by rw [herase]; exact h.reserved
    apart := by rw [herase]; exact h.apart }

theorem Accounted.newBlock (h : s.Accounted) {va size handle : Nat} (hpos : 0 < size)
    (hfresh : ∀ r ∈ s.reserved, rangeApart (va, roundUp2MB size) r) (hdead : s.drv.isLive handle = false) {d : Driver}
    (hmaps : ∀ m, m ∈ d.maps ↔ m = ⟨va, roundUp2MB size, handle, true⟩ ∨ m ∈ s.drv.maps)
    (hlive : ∀ k, d.isLive k = true ↔ k = handle ∨ s.drv.isLive k = true) :
    Accounted { s with
      drv := d
      reserved := (va, roundUp2MB size) :: s.reserved
      globalHandleMap := s.globalHandleMap.insert va handle
      allocatedMemory := s.allocatedMemory.insert va size
      allocatedMemoryType := s.allocatedMemoryType.insert va 1 } := by
  have hround := roundUp2MB_pos hpos
  -- the address is new: a block there would overlap the range
  have hnone : s.allocatedMemory[va]? = none := by
    refine Option.eq_none_iff_forall_ne_some.2 fun n hn => ?_
    have hover : va + roundUp2MB size ≤ va ∨ va + roundUp2MB n ≤ va :=
      hfresh (va, roundUp2MB n) ((h.reserved _).2 ⟨n, hn, rfl⟩)
    have := roundUp2MB_pos (h.pos va n hn)
    omega
  have hnohandle : ∀ p : Nat, s.globalHandleMap[p]? ≠ some handle := by
    intro p hp
    exact Bool.false_ne_true (hdead.symm.trans ((h.handles handle).2 ⟨p, hp⟩))
  have hnokey : s.globalHandleMap[va]? = none := by
    refine Option.eq_none_iff_forall_ne_some.2 fun k hk => ?_
    obtain ⟨n, hn⟩ := h.known va k hk
    exact absurd (hnone.symm.trans hn) (by simp)
  refine ⟨fun p => ?_, fun r => ?_, List.pairwise_cons.2 ⟨hfresh, h.apart⟩, fun p n hp => ?_, fun k => ?_,
    fun p q k hp hq => ?_, fun m => ?_, fun p k hp => ?_⟩
  all_goals simp only [getElem?_insert_key] at *
  · split_ifs
    · rfl
    · exact h.types p
  · rw [List.mem_cons]
    split_ifs with hr
    · constructor
      · rintro (rfl | hmem)
        · exact ⟨size, rfl, rfl⟩
        · obtain ⟨n, hn, -⟩ := (h.reserved r).1 hmem
          exact absurd (hnone.symm.trans (hr ▸ hn)) (by simp)
      · rintro ⟨n, hn, hsize⟩
        obtain rfl := Option.some.inj hn
        exact Or.inl (Prod.ext hr hsize)
    · rw [← h.reserved r]
      refine or_iff_right ?_
      rintro rfl
      exact hr rfl
  · split_ifs at hp
    · obtain rfl := Option.some.inj hp
      exact hpos
    · exact h.pos p n hp
  · rw [hlive, h.handles]
    constructor
    · rintro (rfl | ⟨p, hp⟩)
      · exact ⟨va, if_pos rfl⟩
      · refine ⟨p, ?_⟩
        rw [if_neg]
        · exact hp
        · rintro rfl
          exact absurd (hnokey.symm.trans hp) (by simp)
    · rintro ⟨p, hp⟩
      split_ifs at hp
      · exact Or.inl (Option.some.inj hp).symm
      · exact Or.inr ⟨p, hp⟩
  · split_ifs at hp hq with hpva hqva hqva
    · rw [hpva, hqva]
    · obtain rfl := Option.some.inj hp
      exact absurd hq (hnohandle q)
    · obtain rfl := Option.some.inj hq
      exact absurd hp (hnohandle p)
    · exact h.distinct p q k hp hq
  · rw [hmaps, h.mapped]
    split_ifs with hva
    · rw [hva, hnone]
      constructor
      · rintro (rfl | ⟨n, hn, -⟩)
        · exact ⟨size, rfl, rfl, rfl, rfl⟩
        · exact absurd hn (by simp)
      · rintro ⟨n, hn, hhandle, hsize, hacc⟩
        obtain rfl := Option.some.inj hn
        obtain ⟨mva, msize, mhandle, macc⟩ := m
        left
        simp_all
    · refine or_iff_right ?_
      rintro rfl
      exact hva rfl
  · split_ifs at hp ⊢
    · exact ⟨size, rfl⟩
    · exact h.known p k hp

theorem live_released {handle : Nat} (hdead : s.drv.isLive handle = false) (k : Nat) :
    (k = handle ∨ s.drv.isLive k = true) ∧ k ≠ handle ↔ s.drv.isLive k = true := by
  constructor
  · rintro ⟨hk | hk, hne⟩
    · exact absurd hk hne
    · exact hk
  · intro hk
    refine ⟨Or.inr hk, ?_⟩
    rintro rfl
    exact Bool.false_ne_true (hdead.symm.trans hk)

/-! `cudaMalloc` from `cuMemCreate` on. Whichever of its three calls fails first, the range, the handle and
the mapping there are by then are given back. -/

section AllocateAt
variable {va size alignedSize : Nat} (h : s.Accounted) (hround : 0 < alignedSize)
  (hfresh : ∀ r ∈ s.reserved, rangeApart (va, alignedSize) r)
include h hfresh

theorem Accounted.allocateAt_createFailed (hfails : s.drv.env.fails s.drv.clock = true)
    (hundo : s.drv.env.fails (s.drv.clock + 1) = false) :
    Accounted (HookedGpu.allocateAt { s with reserved := (va, alignedSize) :: s.reserved } va size alignedSize).2 := by
  obtain ⟨d₁, hcall₁, hd₁⟩ := Driver.cuMemCreate_failed hfails alignedSize
  unfold HookedGpu.allocateAt
  dsimp only
  rw [hcall₁]
  refine h.undone hfresh hd₁.maps hd₁.live ?_
  rw [hd₁.env, hd₁.clock]
  exact hundo

include hround

theorem Accounted.allocateAt_mapFailed (hcreate : s.drv.env.fails s.drv.clock = false)
    (hfails : s.drv.env.fails (s.drv.clock + 1) = true)
    (hundo : ∀ j < 2, s.drv.env.fails (s.drv.clock + 2 + j) = false) :
    Accounted (HookedGpu.allocateAt { s with reserved := (va, alignedSize) :: s.reserved } va size alignedSize).2 := by
  obtain ⟨handle, d₁, hcall₁, hdead, -, -, hd₁⟩ := Driver.cuMemCreate_ok hcreate hround
  obtain ⟨d₂, hcall₂, hd₂⟩ := Driver.cuMemMap_failed (d := d₁) (by rw [hd₁.env, hd₁.clock, hfails]) va alignedSize handle
  obtain ⟨d₃, hcall₃, hd₃⟩ := Driver.cuMemRelease_ok (d := d₂)
    (by rw [hd₂.env, hd₂.clock, hd₁.env, hd₁.clock]; exact hundo 0 (by omega))
    ((hd₂.live handle).2 ((hd₁.live handle).2 (Or.inl rfl)))
  unfold HookedGpu.allocateAt
  simp only [hcall₁, hcall₂, Bool.not_false, if_true, hcall₃]
  refine h.undone hfresh (fun m => ((hd₃.maps m).trans (hd₂.maps m)).trans (hd₁.maps m)) (fun k => ?_) ?_
  · rw [hd₃.live, hd₂.live, hd₁.live]
    exact live_released hdead k
  · rw [hd₃.env, hd₃.clock, hd₂.env, hd₂.clock, hd₁.env, hd₁.clock]
    exact hundo 1 (by omega)

theorem Accounted.allocateAt_accessFailed (hok : ∀ j < 2, s.drv.env.fails (s.drv.clock + j) = false)
    (hfails : s.drv.env.fails (s.drv.clock + 2) = true)
    (hundo : ∀ j < 3, s.drv.env.fails (s.drv.clock + 3 + j) = false) :
    Accounted (HookedGpu.allocateAt { s with reserved := (va, alignedSize) :: s.reserved } va size alignedSize).2 := by
  have hfree := h.free_of_fresh hfresh
  obtain ⟨handle, d₁, hcall₁, hdead, -, hsize₁, hd₁⟩ := Driver.cuMemCreate_ok (hok 0 (by omega)) hround
  have hcan : d₁.canMap va alignedSize handle :=
    ⟨hround, ⟨_, hsize₁, rfl, le_rfl⟩, fun m hm => hfree m ((hd₁.maps m).1 hm)⟩
  obtain ⟨d₂, hcall₂, hd₂⟩ := Driver.cuMemMap_ok (d := d₁)
    (by rw [hd₁.env, hd₁.clock]; exact hok 1 (by omega)) hcan
  obtain ⟨d₃, hcall₃, hd₃⟩ := Driver.cuMemSetAccess_failed (d := d₂)
    (by rw [hd₂.env, hd₂.clock, hd₁.env, hd₁.clock, hfails]) va alignedSize
  have hat : d₃.mappedAt va alignedSize = true :=
    Driver.mappedAt_of_mem (m := ⟨va, alignedSize, handle, false⟩) ((hd₃.maps _).2 ((hd₂.maps _).2 (Or.inl rfl)))
  obtain ⟨d₄, hcall₄, hd₄⟩ := Driver.cuMemUnmap_ok (d := d₃)
    (by rw [hd₃.env, hd₃.clock, hd₂.env, hd₂.clock, hd₁.env, hd₁.clock]; exact hundo 0 (by omega)) hat
  obtain ⟨d₅, hcall₅, hd₅⟩ := Driver.cuMemRelease_ok (d := d₄)
    (by
      rw [hd₄.env, hd₄.clock, hd₃.env, hd₃.clock, hd₂.env, hd₂.clock, hd₁.env, hd₁.clock]
      exact hundo 1 (by omega))
    ((hd₄.live handle).2 ((hd₃.live handle).2 ((hd₂.live handle).2 ((hd₁.live handle).2 (Or.inl rfl)))))
  unfold HookedGpu.allocateAt
  simp only [hcall₁, hcall₂, hcall₃, Bool.not_true, Bool.not_false, Bool.false_eq_true, if_true, if_false, hcall₄,
    hcall₅]
  refine h.undone hfresh (fun m => ?_) (fun k => ?_) ?_
  · rw [hd₅.maps, hd₄.maps, hd₃.maps, hd₂.maps, hd₁.maps]
    constructor
    · rintro ⟨rfl | hm, hne⟩
      · exact absurd rfl hne
      · exact hm
    · intro hm
      refine ⟨Or.inr hm, ?_⟩
      rintro rfl
      have hover : m.va + alignedSize ≤ m.va ∨ m.va + m.size ≤ m.va := hfree m hm
      have := s.drv.maps_pos m hm
      omega
  · rw [hd₅.live, hd₄.live, hd₃.live, hd₂.live, hd₁.live]
    exact live_released hdead k
  · rw [hd₅.env, hd₅.clock, hd₄.env, hd₄.clock, hd₃.env, hd₃.clock, hd₂.env, hd₂.clock, hd₁.env, hd₁.clock]
    exact hundo 2 (by omega)

omit hround

theorem Accounted.allocateAt_ok (halign : roundUp2MB size = alignedSize) (hpos : 0 < size)
    (hok : ∀ j < 3, s.drv.env.fails (s.drv.clock + j) = false) :
    Accounted (HookedGpu.allocateAt { s with reserved := (va, alignedSize) :: s.reserved } va size alignedSize).2 := by
  obtain ⟨handle, d₁, d₂, d₃, hcall₁, hcall₂, hcall₃, hdead, hmaps, hlive⟩ :=
    Driver.createMapAccess_ok hok (halign ▸ roundUp2MB_pos hpos) (h.free_of_fresh hfresh)
  unfold HookedGpu.allocateAt
  simp only [hcall₁, hcall₂, hcall₃, Bool.not_true, Bool.false_eq_true, if_false]
  subst halign
  exact h.newBlock hpos hfresh hdead hmaps hlive

end AllocateAt

theorem Accounted.allocateVmm (h : s.Accounted) (hundo : s.UndoSucceeds) {size alignedSize : Nat}
    (halign : roundUp2MB size = alignedSize) (hpos : 0 < size) : (s.allocateVmm size alignedSize).2.Accounted := by
  have hround : 0 < alignedSize := halign ▸ roundUp2MB_pos hpos
  have hfresh := nextVa_apart s alignedSize
  unfold HookedGpu.allocateVmm cuMemAddressReserve
  generalize s.nextVa alignedSize = va at hfresh ⊢
  cases hreserve : s.drv.env.fails s.drv.clock with
  | true =>
    rw [if_neg (by simp)]
    exact h.tick
  | false =>
    rw [if_pos ⟨hround, rfl⟩]
    dsimp only
    -- the clock of the remaining calls is one later
    cases hcreate : s.drv.env.fails (s.drv.clock + 1) with
    | true =>
      exact h.tick.allocateAt_createFailed hfresh hcreate
        (hundo 1 (by omega) hcreate (Nat.forall_lt_succ_right.2 ⟨by simp, hreserve⟩) 0 (by omega))
    | false =>
      have hfirst : ∀ j < 2, s.drv.env.fails (s.drv.clock + j) = false :=
        Nat.forall_lt_succ_right.2 ⟨Nat.forall_lt_succ_right.2 ⟨by simp, hreserve⟩, hcreate⟩
      cases hmap : s.drv.env.fails (s.drv.clock + 2) with
      | true => exact h.tick.allocateAt_mapFailed hround hfresh hcreate hmap (hundo 2 (by omega) hmap hfirst)
      | false =>
        have hlast : ∀ j < 2, s.tick.drv.env.fails (s.tick.drv.clock + j) = false :=
          Nat.forall_lt_succ_right.2 ⟨Nat.forall_lt_succ_right.2 ⟨by simp, hcreate⟩, hmap⟩
        cases haccess : s.drv.env.fails (s.drv.clock + 3) with
        | true =>
          exact h.tick.allocateAt_accessFailed hround hfresh hlast haccess
            (hundo 3 (by omega) haccess (Nat.forall_lt_succ_right.2 ⟨hfirst, hmap⟩))
        | false => exact h.tick.allocateAt_ok hfresh halign hpos (Nat.forall_lt_succ_right.2 ⟨hlast, haccess⟩)

theorem Accounted.cudaMalloc (h : s.Accounted) (hundo : s.UndoSucceeds) (size : Nat) :
    (s.cudaMalloc size).2.Accounted := by
  unfold HookedGpu.cudaMalloc
  split_ifs with hzero
  · exact h
  · exact h.allocateVmm hundo rfl (Nat.pos_of_ne_zero hzero)

/-! ### A block without its physical memory, and with it again -/

theorem Accounted.dropPhysical (h : s.Accounted) {p k : Nat} (hp : s.globalHandleMap[p]? = some k) {d : Driver}
    (hmaps : ∀ m, m ∈ d.maps ↔ m ∈ s.drv.maps ∧ m.va ≠ p)
    (hlive : ∀ j, d.isLive j = true ↔ s.drv.isLive j = true ∧ j ≠ k) :
    Accounted { s with drv := d, globalHandleMap := s.globalHandleMap.erase p } := by
  refine { h with handles := fun j => ?_, distinct := fun q r j hq hr => ?_, mapped := fun m => ?_, known := fun q j hq => ?_ }
  all_goals simp only [getElem?_erase_key] at *
  · rw [hlive, h.handles]
    constructor
    · rintro ⟨⟨q, hq⟩, hj⟩
      refine ⟨q, ?_⟩
      rw [if_neg]
      · exact hq
      · rintro rfl
        exact hj (Option.some.inj (hq.symm.trans hp))
    · rintro ⟨q, hq⟩
      split_ifs at hq with hqp
      refine ⟨⟨q, hq⟩, ?_⟩
      rintro rfl
      exact hqp (h.distinct q p j hq hp)
  · split_ifs at hq hr
    exact h.distinct q r j hq hr
  · rw [hmaps, h.mapped]
    split_ifs with hva
    · simp [hva]
    · simp [hva]
  · split_ifs at hq
    exact h.known q j hq

theorem Accounted.mapping (h : s.Accounted) {p n k : Nat} (htab : s.allocatedMemory[p]? = some n)
    (hp : s.globalHandleMap[p]? = some k) :
    s.drv.mappedAt p (roundUp2MB n) = true ∧ s.drv.isLive k = true :=
  ⟨Driver.mappedAt_of_mem (m := ⟨p, roundUp2MB n, k, true⟩) ((h.mapped _).2 ⟨n, htab, hp, rfl, rfl⟩),
    (h.handles k).2 ⟨p, hp⟩⟩

theorem Accounted.unmapRelease (h : s.Accounted) {p n k : Nat} (htab : s.allocatedMemory[p]? = some n)
    (hp : s.globalHandleMap[p]? = some k) (hok : ∀ i < 2, s.drv.env.fails (s.drv.clock + i) = false) :
    ∃ d₁ d₂, s.drv.cuMemUnmap p (roundUp2MB n) = (true, d₁) ∧ d₁.cuMemRelease k = (true, d₂) ∧
      d₂.env = s.drv.env ∧ d₂.clock = s.drv.clock + 2 ∧ (∀ m, m ∈ d₂.maps ↔ m ∈ s.drv.maps ∧ m.va ≠ p) ∧
      ∀ j, d₂.isLive j = true ↔ s.drv.isLive j = true ∧ j ≠ k := by
  obtain ⟨hat, hlive⟩ := h.mapping htab hp
  obtain ⟨d₁, hcall₁, hd₁⟩ := Driver.cuMemUnmap_ok (hok 0 (by omega)) hat
  obtain ⟨d₂, hcall₂, hd₂⟩ := Driver.cuMemRelease_ok (d := d₁)
    (by rw [hd₁.env, hd₁.clock]; exact hok 1 (by omega)) ((hd₁.live k).2 hlive)
  refine ⟨d₁, d₂, hcall₁, hcall₂, hd₂.env.trans hd₁.env, ?_, fun m => (hd₂.maps m).trans (hd₁.maps m), fun j => ?_⟩
  · rw [hd₂.clock, hd₁.clock]
  · rw [hd₂.live, hd₁.live]

theorem Accounted.unmapAndReleaseRun (h : s.Accounted) {p n k : Nat} (htab : s.allocatedMemory[p]? = some n)
    (hp : s.globalHandleMap[p]? = some k) (hok : ∀ i < 2, s.drv.env.fails (s.drv.clock + i) = false) :
    ∃ d, s.unmapAndReleaseRun p (roundUp2MB n) =
        (true, { s.toVGpu with drv := d, globalHandleMap := s.globalHandleMap.erase p }) ∧
      d.env = s.drv.env ∧ d.clock = s.drv.clock + 2 ∧
      Accounted { s with drv := d, globalHandleMap := s.globalHandleMap.erase p } := by
  obtain ⟨d₁, d₂, hcall₁, hcall₂, henv, hclock, hmaps, hlive⟩ := h.unmapRelease htab hp hok
  refine ⟨d₂, ?_, henv, hclock, h.dropPhysical hp hmaps hlive⟩
  generalize roundUp2MB n = alignedSize at hcall₁ ⊢
  simp only [VGpu.unmapAndReleaseRun, hcall₁, hp]
  rw [hcall₂]
  rfl

theorem Accounted.newPhysical (h : s.Accounted) {p n k : Nat} (htab : s.allocatedMemory[p]? = some n)
    (hp : s.globalHandleMap[p]? = none) (hdead : s.drv.isLive k = false) {d : Driver}
    (hmaps : ∀ m, m ∈ d.maps ↔ m = ⟨p, roundUp2MB n, k, true⟩ ∨ m ∈ s.drv.maps)
    (hlive : ∀ j, d.isLive j = true ↔ j = k ∨ s.drv.isLive j = true) :
    Accounted { s with drv := d, globalHandleMap := s.globalHandleMap.insert p k } := by
  have hnohandle : ∀ q : Nat, s.globalHandleMap[q]? ≠ some k := by
    intro q hq
    exact Bool.false_ne_true (hdead.symm.trans ((h.handles k).2 ⟨q, hq⟩))
  refine { h with handles := fun j => ?_, distinct := fun q r j hq hr => ?_, mapped := fun m => ?_, known := fun q j hq => ?_ }
  all_goals simp only [getElem?_insert_key] at *
  · rw [hlive, h.handles]
    constructor
    · rintro (rfl | ⟨q, hq⟩)
      · exact ⟨p, if_pos rfl⟩
      · refine ⟨q, ?_⟩
        rw [if_neg]
        · exact hq
        · rintro rfl
          exact absurd (hp.symm.trans hq) (by simp)
    · rintro ⟨q, hq⟩
      split_ifs at hq
      · exact Or.inl (Option.some.inj hq).symm
      · exact Or.inr ⟨q, hq⟩
  · split_ifs at hq hr with hqp hrp hrp
    · rw [hqp, hrp]
    · obtain rfl := Option.some.inj hq
      exact absurd hr (hnohandle r)
    · obtain rfl := Option.some.inj hr
      exact absurd hq (hnohandle q)
    · exact h.distinct q r j hq hr
  · rw [hmaps, h.mapped]
    split_ifs with hva
    · constructor
      · rintro (rfl | ⟨n', -, hhandle, -⟩)
        · exact ⟨n, htab, rfl, rfl, rfl⟩
        · exact absurd ((hva ▸ hp).symm.trans hhandle) (by simp)
      · rintro ⟨n', hn', hhandle, hsize, hacc⟩
        obtain rfl : n = n' := Option.some.inj (htab.symm.trans (hva ▸ hn'))
        obtain ⟨mva, msize, mhandle, macc⟩ := m
        left
        simp_all
    · refine or_iff_right ?_
      rintro rfl
      exact hva rfl
  · split_ifs at hq with hqp
    · exact ⟨n, hqp ▸ htab⟩
    · exact h.known q j hq

theorem Accounted.mapNewPhysical (h : s.Accounted) {p n alignedSize : Nat} (htab : s.allocatedMemory[p]? = some n)
    (halign : roundUp2MB n = alignedSize) (hp : s.globalHandleMap[p]? = none)
    (hok : ∀ i < 3, s.drv.env.fails (s.drv.clock + i) = false) :
    ∃ d k, s.mapNewPhysical p alignedSize =
        .ok { s.toVGpu with drv := d, globalHandleMap := s.globalHandleMap.insert p k } ∧
      Accounted { s with drv := d, globalHandleMap := s.globalHandleMap.insert p k } := by
  have hfree : ∀ m ∈ s.drv.maps, rangeApart (p, alignedSize) (m.va, m.size) := by
    intro m hm
    rw [← halign]
    refine h.free_of_block htab m hm ?_
    rintro rfl
    obtain ⟨-, -, hhandle, -⟩ := (h.mapped m).1 hm
    exact absurd (hp.symm.trans hhandle) (by simp)
  have hround : 0 < alignedSize := halign ▸ roundUp2MB_pos (h.pos p n htab)
  obtain ⟨k, d₁, d₂, d₃, hcall₁, hcall₂, hcall₃, hdead, hmaps, hlive⟩ := Driver.createMapAccess_ok hok hround hfree
  refine ⟨d₃, k, ?_, ?_⟩
  · simp only [VGpu.mapNewPhysical, hcall₁, hcall₂, hcall₃]
    rfl
  · subst halign
    exact h.newPhysical htab hp hdead hmaps hlive

/-! ### A block that is freed -/

theorem Accounted.dropBlock (h : s.Accounted) {p n : Nat} (htab : s.allocatedMemory[p]? = some n)
    (hp : s.globalHandleMap[p]? = none) :
    Accounted { s with
      reserved := s.reserved.erase (p, roundUp2MB n)
      allocatedMemoryType := s.allocatedMemoryType.erase p
      allocatedMemory := s.allocatedMemory.erase p } := by
  have hnodup : s.reserved.Nodup := by
    refine h.apart.imp_of_mem fun {a b} ha _ hab => ?_
    rintro rfl
    obtain ⟨m, hm, hsize⟩ := (h.reserved a).1 ha
    have := roundUp2MB_pos (h.pos a.1 m hm)
    have hab : a.1 + a.2 ≤ a.1 ∨ a.1 + a.2 ≤ a.1 := hab
    omega
  refine { h with types := fun q => ?_, reserved := fun r => ?_, apart := h.apart.sublist List.erase_sublist
                  pos := fun q m hq => ?_, mapped := fun m => ?_, known := fun q j hq => ?_ }
  all_goals simp only [getElem?_erase_key] at *
  · split_ifs
    · rfl
    · exact h.types q
  · rw [hnodup.mem_erase_iff, h.reserved]
    split_ifs with hr
    · subst hr
      rw [htab]
      simp only [Option.some.injEq, false_and, exists_false, iff_false, not_and, not_exists]
      rintro hne m rfl hsize
      exact hne (Prod.ext rfl hsize)
    · refine and_iff_right ?_
      rintro rfl
      exact hr rfl
  · split_ifs at hq
    exact h.pos q m hq
  · rw [h.mapped]
    split_ifs with hva
    · rw [hva, hp]
      simp
    · rfl
  · split_ifs with hqp
    · rw [hqp, hp] at hq
      exact absurd hq (by simp)
    · exact h.known q j hq

theorem Accounted.freePhysical (h : s.Accounted) {p n k alignedSize : Nat} (htab : s.allocatedMemory[p]? = some n)
    (halign : roundUp2MB n = alignedSize) (hp : s.globalHandleMap[p]? = some k)
    (hok : ∀ i < 3, s.drv.env.fails (s.drv.clock + i) = false) :
    ∃ d, s.freePhysical p alignedSize =
        { s with drv := d, reserved := s.reserved.erase (p, alignedSize), globalHandleMap := s.globalHandleMap.erase p } ∧
      Accounted { s with drv := d, globalHandleMap := s.globalHandleMap.erase p } := by
  obtain ⟨d₁, d₂, hcall₁, hcall₂, henv, hclock, hmaps, hlive⟩ := h.unmapRelease htab hp fun i hi => hok i (by omega)
  have hrange : (p, alignedSize) ∈ s.reserved := (h.reserved _).2 ⟨n, htab, halign.symm⟩
  have hfree : ∀ m ∈ d₂.maps, rangeApart (p, alignedSize) (m.va, m.size) := by
    intro m hm
    rw [← halign]
    exact h.free_of_block htab m ((hmaps m).1 hm).1 ((hmaps m).1 hm).2
  refine ⟨{ d₂ with clock := d₂.clock + 1 }, ?_, h.dropPhysical hp hmaps hlive⟩
  rw [halign] at hcall₁
  simp only [HookedGpu.freePhysical, hp, hcall₁, hcall₂, cuMemAddressFree]
  rw [if_pos ⟨hrange, hfree, by rw [henv, hclock]; exact hok 2 (by omega)⟩]
  rfl

/-! ### The operations -/

theorem Accounted.cudaFree (h : s.Accounted) {p : Nat} (hok : ∀ i < 6, s.drv.env.fails (s.drv.clock + i) = false)
    (hkept : p ∈ s.allocatedMemory → p ∈ s.globalHandleMap) : (s.cudaFree p).Accounted := by
  cases htab : s.allocatedMemory[p]? with
  | none =>
    rw [cudaFree_unknown htab]
    exact h
  | some n =>
    have hmem := hkept (ExtTreeMap.mem_iff_isSome_getElem?.2 (by rw [htab]; rfl))
    obtain ⟨k, hp⟩ := Option.isSome_iff_exists.1 (ExtTreeMap.mem_iff_isSome_getElem?.1 hmem)
    have htype : s.allocatedMemoryType[p]? = some 1 := by rw [h.types, htab]; rfl
    obtain ⟨d, hfree, hd⟩ := h.freePhysical htab rfl hp fun i hi => hok i (by omega)
    have hgone : (s.globalHandleMap.erase p)[p]? = none := by rw [getElem?_erase_key, if_pos rfl]
    have hdrop := hd.dropBlock htab hgone
    unfold HookedGpu.cudaFree
    rw [htab]
    dsimp only
    rw [if_pos htype]
    generalize roundUp2MB n = alignedSize at hfree hdrop ⊢
    rw [hfree]
    exact hdrop

theorem Accounted.releasePhysicalMemory (h : s.Accounted) {p : Nat}
    (hok : ∀ i < 6, s.drv.env.fails (s.drv.clock + i) = false) :
    Accounted { s with toVGpu := (s.releasePhysicalMemoryRun p).2 } := by
  unfold VGpu.releasePhysicalMemoryRun
  cases htab : s.allocatedMemory[p]? with
  | none => exact h
  | some n =>
    dsimp only
    cases hp : s.globalHandleMap[p]? with
    | some k =>
      obtain ⟨d, hrun, -, -, hd⟩ := h.unmapAndReleaseRun htab hp fun i hi => hok i (by omega)
      rw [hrun]
      exact hd
    | none =>
      -- a parked block is not mapped, so the unmapping is turned down
      have hat : s.drv.mappedAt p (roundUp2MB n) = false := by
        rw [Driver.mappedAt, List.any_eq_false]
        intro m hm
        obtain ⟨-, -, hhandle, -⟩ := (h.mapped m).1 hm
        rw [Bool.and_eq_true, beq_iff_eq]
        rintro ⟨rfl, -⟩
        exact absurd (hp.symm.trans hhandle) (by simp)
      rw [VGpu.unmapAndReleaseRun_unmapped hat]
      exact h.tick

theorem Accounted.remapPhysicalMemory (h : s.Accounted) {p size : Nat}
    (hok : ∀ i < 6, s.drv.env.fails (s.drv.clock + i) = false)
    (hkept : ∀ n, s.allocatedMemory[p]? = some n → roundUp2MB size = roundUp2MB n) :
    ∃ r, s.remapPhysicalMemoryRun p size = .ok r ∧ Accounted { s with toVGpu := r.2 } := by
  unfold VGpu.remapPhysicalMemoryRun
  cases htab : s.allocatedMemory[p]? with
  | none => exact ⟨_, rfl, h⟩
  | some n =>
    dsimp only
    rw [hkept n htab]
    cases hp : s.globalHandleMap[p]? with
    | none =>
      obtain ⟨d, k, hmap, hd⟩ := h.mapNewPhysical htab rfl hp fun i hi => hok i (by omega)
      rw [if_neg (by simp), hmap]
      exact ⟨_, rfl, hd⟩
    | some k =>
      obtain ⟨d, hrun, henv, hclock, hd⟩ := h.unmapAndReleaseRun htab hp fun i hi => hok i (by omega)
      have hgone : (s.globalHandleMap.erase p)[p]? = none := by rw [getElem?_erase_key, if_pos rfl]
      obtain ⟨d', k', hmap, hd'⟩ := hd.mapNewPhysical htab rfl hgone (by
        intro i hi
        show d.env.fails (d.clock + i) = false
        rw [henv, hclock, Nat.add_assoc]
        exact hok (2 + i) (by omega))
      rw [if_pos (by simp), hrun]
      dsimp only at hmap ⊢
      rw [hmap]
      exact ⟨_, rfl, hd'⟩

theorem Accounted.memOp (h : s.Accounted) {op : MemOp} (hok : s.CallsSucceed op) (hkept : s.Kept op) :
    ∃ s', s.memOp op = .ok s' ∧ s'.Accounted := by
  cases op with
  | malloc size => exact ⟨_, rfl, h.cudaMalloc hkept size⟩
  | free ptr => exact ⟨_, rfl, h.cudaFree hok hkept⟩
  | release ptr => exact ⟨_, rfl, h.releasePhysicalMemory hok⟩
  | remap ptr size =>
    obtain ⟨r, hrun, hr⟩ := h.remapPhysicalMemory hok hkept
    refine ⟨_, ?_, hr⟩
    show Except.map _ (s.remapPhysicalMemoryRun ptr size) = _
    rw [hrun]
    rfl

end Accounted

/-- **The accounts are kept** in every run in which failed allocations can be undone, no parked block is
freed and every block gets physical memory of its own size. -/
theorem accounted_of_ops (s : HookedGpu) (hs : s.NoBlock) (ops : List MemOp)
    (hok : AllStepsM (fun s op => s.CallsSucceed op ∧ s.Kept op) memOp s ops) (pre : List MemOp) (hpre : pre <+: ops) :
    ∃ s', pre.foldlM memOp s = .ok s' ∧ s'.Accounted :=
  invariant_of_allStepsM (fun _ _ h hok => h.memOp hok.1 hok.2) hs.accounted hok pre hpre

/-! ### One block -/

/-- A process whose driver never fails, before its first allocation. -/
def noBlock : HookedGpu where
  allocatedMemory := ∅
  globalHandleMap := ∅
  drv :=
    { env := ⟨fun _ => false, id, fun _ _ => 0xAA⟩
      clock := 0
      mem := fun _ => 0
      maps := []
      live := []
      maps_apart := List.Pairwise.nil
      maps_pos := Driver.maps_pos_nil }
  fs := ⟨0, 0, fun _ => ⟨0, 0, 0⟩⟩
  staging := fun _ _ => 0
  dump := fun _ => 0
  allocatedMemoryType := ∅
  reserved := []
  pickVa := fun _ => 0x200000

theorem noBlock_noBlock : noBlock.NoBlock := ⟨rfl, rfl, rfl, rfl, rfl, rfl⟩

theorem callsSucceed_of_reliable {s : HookedGpu} (h : s.drv.env.Reliable) (op : MemOp) : s.CallsSucceed op := by
  cases op with
  | malloc size => exact trivial
  | free ptr => exact fun i _ => h _
  | release ptr => exact fun i _ => h _
  | remap ptr size => exact fun i _ => h _

/-- A block that is allocated, parked, mapped again and freed. -/
def parkedBlock : List MemOp := [.malloc 1, .release 0x200000, .remap 0x200000 1, .free 0x200000]

theorem accounted_parkedBlock : ∃ s', parkedBlock.foldlM memOp noBlock = .ok s' ∧ s'.Accounted := by
  refine accounted_of_ops noBlock noBlock_noBlock parkedBlock ?_ parkedBlock List.prefix_rfl
  refine ⟨⟨trivial, ?_⟩, fun s₁ hs₁ => ?_⟩
  · exact fun i _ hfails => absurd hfails Bool.false_ne_true
  obtain rfl := Except.ok.inj hs₁
  refine ⟨⟨callsSucceed_of_reliable (fun _ => rfl) _, trivial⟩, fun s₂ hs₂ => ?_⟩
  obtain rfl := Except.ok.inj hs₂
  refine ⟨⟨callsSucceed_of_reliable (fun _ => rfl) _, fun n hn => ?_⟩, fun s₃ hs₃ => ?_⟩
  · obtain rfl := Option.some.inj hn
    rfl
  obtain rfl := Except.ok.inj hs₃
  refine ⟨⟨callsSucceed_of_reliable (fun _ => rfl) _, fun _ => ?_⟩, fun _ _ => trivial⟩
  exact ExtTreeMap.mem_iff_isSome_getElem?.2 rfl

/-- A block that is freed while it is parked leaves its range behind. -/
theorem not_accounted : ¬ ∀ s : HookedGpu, s.NoBlock → ∀ ops : List MemOp, AllStepsM CallsSucceed memOp s ops →
    ∀ s', ops.foldlM memOp s = .ok s' → s'.Accounted := by
  intro h
  have hcalls : AllStepsM CallsSucceed memOp noBlock [.malloc 1, .release 0x200000, .free 0x200000] := by
    refine ⟨trivial, fun s₁ hs₁ => ?_⟩
    obtain rfl := Except.ok.inj hs₁
    refine ⟨callsSucceed_of_reliable (fun _ => rfl) _, fun s₂ hs₂ => ?_⟩
    obtain rfl := Except.ok.inj hs₂
    exact ⟨callsSucceed_of_reliable (fun _ => rfl) _, fun _ _ => trivial⟩
  have hend := h noBlock noBlock_noBlock _ hcalls _ rfl
  obtain ⟨n, hn, -⟩ := (hend.reserved (0x200000, 0x200000)).1 (List.mem_cons_self ..)
  exact Option.some_ne_none n (hn.symm.trans rfl)

end HookedGpu

end GpuCr
