import GpuCr.VGpu.Accounting

/-!
# The accounts of the AMD back end

`hipMalloc`, `hipFree`, `amd::releasePhysicalMemory` and `amd::remapPhysicalMemory` of
`src/GPUs/AMD/amd.cpp`, over the same globals as the NVIDIA back end. The table has the rounded sizes here.
A release keeps its entry in `global_handle_map` and a remapping looks at no table, so whether the calls to
the driver make sense depends on their order. `calls` is a history of them, with what is known of their
arguments. No code reads it.
-/

namespace GpuCr

open Lib.Run Std

/-- The calls that make, use and drop handles and mappings; `memCreate` has the handle it returned. -/
inductive HipCall where
  | memCreate (handle : Nat)
  | memMap (va size handle : Nat)
  | memUnmap (va size : Nat)
  | memRelease (handle : Nat)
  deriving DecidableEq, Repr

structure AmdGpu extends HookedGpu where
  calls : List (HipCall × Bool)

namespace AmdGpu

/-! ### The driver -/

def record (s : AmdGpu) (d : Driver) (call : HipCall) (valid : Bool) : AmdGpu :=
  { s with drv := d, calls := (call, valid) :: s.calls }

def hipMemCreate (s : AmdGpu) (size : Nat) : Option Nat × AmdGpu :=
  match s.drv.cuMemCreate size with
  | (none, d) => (none, { s with drv := d })
  | (some handle, d) => (some handle, s.record d (.memCreate handle) true)

/-- The range lies in a reservation. -/
def inReservation (s : AmdGpu) (va size : Nat) : Bool :=
  s.reserved.any fun r => decide (r.1 ≤ va) && decide (va + size ≤ r.1 + r.2)

/-- A range that is not reserved can not be mapped. -/
def hipMemMap (s : AmdGpu) (va size handle : Nat) : Bool × AmdGpu :=
  if s.inReservation va size then
    let r := s.drv.cuMemMap va size handle
    (r.1, s.record r.2 (.memMap va size handle) (decide (s.drv.canMap va size handle)))
  else (false, s.record { s.drv with clock := s.drv.clock + 1 } (.memMap va size handle) false)

def hipMemUnmap (s : AmdGpu) (va size : Nat) : Bool × AmdGpu :=
  let r := s.drv.cuMemUnmap va size
  (r.1, s.record r.2 (.memUnmap va size) (s.drv.mappedAt va size))

def hipMemRelease (s : AmdGpu) (handle : Nat) : Bool × AmdGpu :=
  let r := s.drv.cuMemRelease handle
  (r.1, s.record r.2 (.memRelease handle) (s.drv.isLive handle))

def hipMemSetAccess (s : AmdGpu) (va size : Nat) : Bool × AmdGpu :=
  let r := s.drv.cuMemSetAccess va size
  (r.1, { s with drv := r.2 })

def hipMemAddressReserve (s : AmdGpu) (size : Nat) : Option Nat × AmdGpu :=
  let r := s.cuMemAddressReserve size
  (r.1, { s with toHookedGpu := r.2 })

def hipMemAddressFree (s : AmdGpu) (va size : Nat) : AmdGpu :=
  { s with toHookedGpu := s.cuMemAddressFree va size }

/-! ### The hooks and the back end -/

/-- `hipMemCreate`, `hipMemMap` and `hipMemSetAccess`, with what failed undone; the handle if it is mapped. -/
def createAndMap (s : AmdGpu) (va size : Nat) : Option Nat × AmdGpu :=
  match s.hipMemCreate size with
  | (none, s) => (none, s)
  | (some handle, s) =>
    match s.hipMemMap va size handle with
    | (false, s) => (none, (s.hipMemRelease handle).2)
    | (true, s) =>
      match s.hipMemSetAccess va size with
      | (false, s) => (none, ((s.hipMemUnmap va size).2.hipMemRelease handle).2)
      | (true, s) => (some handle, s)

/-- The entries of a block in the three tables. -/
def track (s : AmdGpu) (ptr size handle : Nat) : AmdGpu :=
  { s with
    globalHandleMap := s.globalHandleMap.insert ptr handle
    allocatedMemory := s.allocatedMemory.insert ptr size
    allocatedMemoryType := s.allocatedMemoryType.insert ptr 1 }

def allocate (s : AmdGpu) (alignedSize : Nat) : Option Nat × AmdGpu :=
  match s.hipMemAddressReserve alignedSize with
  | (none, s) => (none, s)
  | (some virtualAddr, s) =>
    match s.createAndMap virtualAddr alignedSize with
    | (none, s) => (none, s.hipMemAddressFree virtualAddr alignedSize)
    | (some memHandle, s) => (some virtualAddr, s.track virtualAddr alignedSize memHandle)

/-- `none` stands for an error; an allocation of no bytes yields the null pointer. -/
def hipMalloc (s : AmdGpu) (size : Nat) : Option Nat × AmdGpu :=
  if size = 0 then (some 0, s) else s.allocate (roundUp2MB size)

/-- The results of the three calls are ignored. A pointer without a handle, like one that is not in the
table, goes to the real `hipFree`, which has no part in this state. -/
def hipFree (s : AmdGpu) (ptr : Nat) : AmdGpu :=
  if ptr = 0 then s
  else
    match s.allocatedMemory[ptr]? with
    | none => s
    | some size =>
      let s := match s.globalHandleMap[ptr]? with
        | none => s
        | some handle =>
          let s := ((s.hipMemUnmap ptr size).2.hipMemRelease handle).2.hipMemAddressFree ptr size
          { s with globalHandleMap := s.globalHandleMap.erase ptr }
      { s with
        allocatedMemory := s.allocatedMemory.erase ptr
        allocatedMemoryType := s.allocatedMemoryType.erase ptr }

/-- The flag is the result `0`. -/
def releasePhysicalMemory (s : AmdGpu) (ptr : Nat) : Bool × AmdGpu :=
  match s.allocatedMemory[ptr]? with
  | none => (true, s)
  | some size =>
    match s.globalHandleMap[ptr]? with
    | none => (false, s)
    | some handle =>
      match s.hipMemUnmap ptr size with
      | (false, s) => (false, s)
      | (true, s) => s.hipMemRelease handle

def remapPhysicalMemory (s : AmdGpu) (ptr size : Nat) : Bool × AmdGpu :=
  match s.createAndMap ptr size with
  | (none, s) => (false, s)
  | (some handle, s) => (true, s.track ptr size handle)

def memOp (s : AmdGpu) : MemOp → AmdGpu
  | .malloc size => (s.hipMalloc size).2
  | .free ptr => s.hipFree ptr
  | .release ptr => (s.releasePhysicalMemory ptr).2
  | .remap ptr size => (s.remapPhysicalMemory ptr size).2

/-! ### What is claimed and when -/

/-- Every call was one its arguments allow, a handle was released as often as it was returned or is live,
and then its block can be found. -/
structure WellUsed (s : AmdGpu) : Prop where
  valid : ∀ x ∈ s.calls, x.2 = true
  released : ∀ h, s.calls.countP (·.1 == .memCreate h) =
    s.calls.countP (·.1 == .memRelease h) + if s.drv.isLive h then 1 else 0
  held : ∀ h, s.drv.isLive h = true → ∃ p n : Nat, s.allocatedMemory[p]? = some n ∧
    s.globalHandleMap[p]? = some h ∧ s.drv.mappedAt p n = true

/-- The pointer of the call is tracked. -/
def OnTracked (s : AmdGpu) : MemOp → Prop
  | .malloc _ => True
  | .free ptr => ptr ∈ s.allocatedMemory
  | .release ptr => ptr ∈ s.allocatedMemory
  | .remap ptr _ => ptr ∈ s.allocatedMemory

/-- A block is freed or released while it is mapped, and remapped, with a size that its range has room for,
while it is not. -/
def InOrder (s : AmdGpu) : MemOp → Prop
  | .malloc _ => True
  | .free ptr => ∀ n, s.allocatedMemory[ptr]? = some n → s.drv.mappedAt ptr n = true
  | .release ptr => ∀ n, s.allocatedMemory[ptr]? = some n → s.drv.mappedAt ptr n = true
  | .remap ptr size => (∀ n, s.drv.mappedAt ptr n = false) ∧ ∃ n, size ≤ n ∧ (ptr, n) ∈ s.reserved

/-- No block yet, and the driver holds nothing for the hooks. -/
structure NoBlock (s : AmdGpu) : Prop where
  noBlock : s.toHookedGpu.NoBlock
  calls : s.calls = []
  reliable : s.drv.env.Reliable

/-! ### What a run keeps -/

/-- Every tracked block has a reservation and an entry for a handle; the mappings are those of tracked
blocks with the handles of their entries, and there are no other live handles. -/
structure Kept (s : AmdGpu) : Prop where
  reliable : s.drv.env.Reliable
  range : ∀ p n : Nat, s.allocatedMemory[p]? = some n → ∃ extent, n ≤ extent ∧ (p, extent) ∈ s.reserved
  handle : ∀ p n : Nat, s.allocatedMemory[p]? = some n → ∃ h : Nat, s.globalHandleMap[p]? = some h
  apart : s.reserved.Pairwise HookedGpu.rangeApart
  maps : ∀ m ∈ s.drv.maps, s.allocatedMemory[m.va]? = some m.size ∧ s.globalHandleMap[m.va]? = some m.handle
  live : ∀ h, s.drv.isLive h = true ↔ ∃ m ∈ s.drv.maps, m.handle = h
  distinct : ∀ m ∈ s.drv.maps, ∀ m' ∈ s.drv.maps, m.handle = m'.handle → m.va = m'.va
  valid : ∀ x ∈ s.calls, x.2 = true
  released : ∀ h, s.calls.countP (·.1 == .memCreate h) =
    s.calls.countP (·.1 == .memRelease h) + if s.drv.isLive h then 1 else 0

section Kept
variable {s : AmdGpu}

theorem NoBlock.kept (h : s.NoBlock) : s.Kept where
  reliable := h.reliable
  range p n hp := by simp [h.noBlock.table] at hp
  handle p n hp := by simp [h.noBlock.table] at hp
  apart := by simp [h.noBlock.reserved]
  maps m hm := by simp [h.noBlock.maps] at hm
  live k := by simp [h.noBlock.maps, Driver.isLive, h.noBlock.live]
  distinct m hm := by simp [h.noBlock.maps] at hm
  valid x hx := by simp [h.calls] at hx
  released k := by simp [h.calls, Driver.isLive, h.noBlock.live]

theorem Kept.wellUsed (h : s.Kept) : s.WellUsed where
  valid := h.valid
  released := h.released
  held k hk := by
    obtain ⟨m, hm, rfl⟩ := (h.live k).1 hk
    obtain ⟨htab, hhandle⟩ := h.maps m hm
    exact ⟨m.va, m.size, htab, hhandle, Driver.mappedAt_of_mem hm⟩

theorem Kept.mapping (h : s.Kept) {p n : Nat} (hat : s.drv.mappedAt p n = true) :
    ∃ k access, ⟨p, n, k, access⟩ ∈ s.drv.maps ∧ s.allocatedMemory[p]? = some n ∧ s.globalHandleMap[p]? = some k ∧
      s.drv.isLive k = true := by
  obtain ⟨m, hm, rfl, rfl⟩ := Driver.exists_mapping hat
  obtain ⟨htab, hhandle⟩ := h.maps m hm
  exact ⟨m.handle, m.access, hm, htab, hhandle, (h.live _).2 ⟨m, hm, rfl⟩⟩

/-- A range inside a reservation without a mapping at its start is free. -/
theorem Kept.free (h : s.Kept) {p n extent : Nat} (hrange : (p, extent) ∈ s.reserved) (hn : n ≤ extent)
    (hno : ∀ m ∈ s.drv.maps, m.va ≠ p) : ∀ m ∈ s.drv.maps, p + n ≤ m.va ∨ m.va + m.size ≤ p := by
  intro m hm
  obtain ⟨extent', hle, hrange'⟩ := h.range m.va m.size (h.maps m hm).1
  have hapart : p + extent ≤ m.va ∨ m.va + extent' ≤ p :=
    h.apart.forall hrange hrange' fun heq => hno m hm (congrArg Prod.fst heq).symm
  omega

theorem Kept.drv (h : s.Kept) {d : Driver} (henv : d.env = s.drv.env) (hmaps : ∀ m, m ∈ d.maps ↔ m ∈ s.drv.maps)
    (hlive : ∀ k, d.isLive k = s.drv.isLive k) : Kept { s with drv := d } where
  reliable := henv ▸ h.reliable
  range := h.range
  handle := h.handle
  apart := h.apart
  maps m hm := h.maps m ((hmaps m).1 hm)
  live k := by
    rw [hlive, h.live]
    exact exists_congr fun m => and_congr_left fun _ => (hmaps m).symm
  distinct m hm m' hm' := h.distinct m ((hmaps m).1 hm) m' ((hmaps m').1 hm')
  valid := h.valid
  released k := by
    rw [hlive]
    exact h.released k

/-! ### New physical memory -/

theorem createAndMap_ok (hrel : s.drv.env.Reliable) {va size : Nat} (hpos : 0 < size)
    (hres : s.inReservation va size = true)
    (hfree : ∀ m ∈ s.drv.maps, va + size ≤ m.va ∨ m.va + m.size ≤ va) :
    ∃ h d, s.createAndMap va size =
        (some h, { s with drv := d, calls := (.memMap va size h, true) :: (.memCreate h, true) :: s.calls }) ∧
      d.env = s.drv.env ∧ s.drv.isLive h = false ∧
      (∀ m, m ∈ d.maps ↔ m = ⟨va, size, h, true⟩ ∨ m ∈ s.drv.maps) ∧
      ∀ k, d.isLive k = true ↔ k = h ∨ s.drv.isLive k = true := by
  obtain ⟨h, d₁, d₂, d₃, hcall₁, hcall₂, hcall₃, hdead, hmaps, hlive⟩ :=
    Driver.createMapAccess_ok (fun _ _ => hrel _) hpos hfree
  have hcan : d₁.canMap va size h := Driver.canMap_of_cuMemMap (by rw [hcall₂])
  have henv : d₃.env = s.drv.env := by
    have h₁ := (s.drv.cuMemCreate_frame size).2
    have h₂ := (d₁.cuMemMap_frame va size h).2
    have h₃ := (d₂.cuMemSetAccess_frame va size).2
    rw [hcall₁] at h₁
    rw [hcall₂] at h₂
    rw [hcall₃] at h₃
    exact h₃.trans (h₂.trans h₁)
  refine ⟨h, d₃, ?_, henv, hdead, hmaps, hlive⟩
  have hres₁ : (s.record d₁ (.memCreate h) true).inReservation va size = true := hres
  have hdrv₁ : (s.record d₁ (.memCreate h) true).drv = d₁ := rfl
  unfold createAndMap hipMemCreate
  rw [hcall₁]
  dsimp only
  unfold hipMemMap
  rw [if_pos hres₁, hdrv₁, hcall₂, decide_eq_true hcan]
  unfold hipMemSetAccess
  dsimp only
  have hdrv₂ : ((s.record d₁ (.memCreate h) true).record d₂ (.memMap va size h) true).drv = d₂ := rfl
  rw [hdrv₂, hcall₃]
  rfl

theorem Kept.released_create (h : s.Kept) {k : Nat} (hdead : s.drv.isLive k = false) {d : Driver}
    (hlive : ∀ j, d.isLive j = true ↔ j = k ∨ s.drv.isLive j = true) (va size j : Nat) :
    ((HipCall.memMap va size k, true) :: (.memCreate k, true) :: s.calls).countP (·.1 == .memCreate j) =
      ((HipCall.memMap va size k, true) :: (.memCreate k, true) :: s.calls).countP (·.1 == .memRelease j) +
        if d.isLive j then 1 else 0 := by
  have hold := h.released j
  by_cases hjk : j = k
  · subst hjk
    rw [hdead] at hold
    simp [(hlive j).2 (Or.inl rfl), hold]
  · have hsame : d.isLive j = s.drv.isLive j := by
      rw [Bool.eq_iff_iff, hlive]
      exact or_iff_right hjk
    rw [hsame]
    simpa [Ne.symm hjk] using hold

theorem Kept.track (h : s.Kept) {p n extent k : Nat} (hrange : (p, extent) ∈ s.reserved) (hn : n ≤ extent)
    (hno : ∀ m ∈ s.drv.maps, m.va ≠ p) (hdead : s.drv.isLive k = false) {d : Driver} (henv : d.env = s.drv.env)
    (hmaps : ∀ m, m ∈ d.maps ↔ m = ⟨p, n, k, true⟩ ∨ m ∈ s.drv.maps)
    (hlive : ∀ j, d.isLive j = true ↔ j = k ∨ s.drv.isLive j = true) :
    Kept (AmdGpu.track { s with drv := d, calls := (.memMap p n k, true) :: (.memCreate k, true) :: s.calls } p n k) := by
  have hnew : ∀ m ∈ s.drv.maps, m.handle ≠ k := by
    rintro m hm rfl
    exact Bool.false_ne_true (hdead.symm.trans ((h.live _).2 ⟨m, hm, rfl⟩))
  refine ⟨henv ▸ h.reliable, fun q m hq => ?_, fun q m hq => ?_, h.apart, fun m hm => ?_, fun j => ?_, fun m hm m' hm' heq => ?_, ?_, h.released_create hdead hlive p n⟩
  all_goals simp only [AmdGpu.track, getElem?_insert_key] at *
  · split_ifs at hq with hqp
    · obtain rfl := Option.some.inj hq
      exact ⟨extent, hn, hqp ▸ hrange⟩
    · exact h.range q m hq
  · split_ifs at hq ⊢
    · exact ⟨k, rfl⟩
    · exact h.handle q m hq
  · rcases (hmaps m).1 hm with rfl | hm
    · exact ⟨if_pos rfl, if_pos rfl⟩
    · rw [if_neg (hno m hm), if_neg (hno m hm)]
      exact h.maps m hm
  · rw [hlive, h.live]
    constructor
    · rintro (rfl | ⟨m, hm, rfl⟩)
      · exact ⟨_, (hmaps _).2 (Or.inl rfl), rfl⟩
      · exact ⟨m, (hmaps m).2 (Or.inr hm), rfl⟩
    · rintro ⟨m, hm, rfl⟩
      rcases (hmaps m).1 hm with rfl | hm
      · exact Or.inl rfl
      · exact Or.inr ⟨m, hm, rfl⟩
  · rcases (hmaps m).1 hm with rfl | hm
    · rcases (hmaps m').1 hm' with rfl | hm'
      · rfl
      · exact absurd heq.symm (hnew m' hm')
    · rcases (hmaps m').1 hm' with rfl | hm'
      · exact absurd heq (hnew m hm)
      · exact h.distinct m hm m' hm' heq
  · intro x hx
    rcases List.mem_cons.1 hx with rfl | hx
    · rfl
    · rcases List.mem_cons.1 hx with rfl | hx
      · rfl
      · exact h.valid x hx

theorem Kept.reserve (h : s.Kept) {r : Nat × Nat} (hfresh : ∀ r' ∈ s.reserved, HookedGpu.rangeApart r r') :
    Kept { s with toHookedGpu := { s.tick with reserved := r :: s.reserved } } := by
  have htick := h.drv (d := { s.drv with clock := s.drv.clock + 1 }) rfl (fun _ => Iff.rfl) fun _ => rfl
  refine { htick with range := fun p n hp => ?_, apart := List.pairwise_cons.2 ⟨hfresh, h.apart⟩ }
  obtain ⟨extent, hn, hmem⟩ := h.range p n hp
  exact ⟨extent, hn, List.mem_cons_of_mem _ hmem⟩

theorem Kept.allocate (h : s.Kept) {alignedSize : Nat} (hpos : 0 < alignedSize) : (s.allocate alignedSize).2.Kept := by
  have hfresh := HookedGpu.nextVa_apart s.toHookedGpu alignedSize
  unfold AmdGpu.allocate hipMemAddressReserve HookedGpu.cuMemAddressReserve
  generalize s.nextVa alignedSize = va at hfresh ⊢
  rw [if_pos ⟨hpos, h.reliable _⟩]
  dsimp only
  have hno : ∀ m ∈ s.drv.maps, m.va ≠ va := by
    rintro m hm rfl
    obtain ⟨extent, hle, hmem⟩ := h.range m.va m.size (h.maps m hm).1
    have hover : m.va + alignedSize ≤ m.va ∨ m.va + extent ≤ m.va := hfresh _ hmem
    have := s.drv.maps_pos m hm
    omega
  have hres := h.reserve hfresh
  have hmem : (va, alignedSize) ∈ (va, alignedSize) :: s.reserved := List.mem_cons_self ..
  generalize hs₁ : ({ s with toHookedGpu := { s.tick with reserved := (va, alignedSize) :: s.reserved } } : AmdGpu) = s₁
    at hres ⊢
  have hmem₁ : (va, alignedSize) ∈ s₁.reserved := by rw [← hs₁]; exact hmem
  have hno₁ : ∀ m ∈ s₁.drv.maps, m.va ≠ va := by rw [← hs₁]; exact hno
  have hin : s₁.inReservation va alignedSize = true :=
    List.any_eq_true.2 ⟨_, hmem₁, by simp⟩
  obtain ⟨k, d, hcreate, henv, hdead, hmaps, hlive⟩ :=
    createAndMap_ok hres.reliable hpos hin (hres.free hmem₁ le_rfl hno₁)
  rw [hcreate]
  exact hres.track hmem₁ le_rfl hno₁ hdead henv hmaps hlive

theorem Kept.hipMalloc (h : s.Kept) (size : Nat) : (s.hipMalloc size).2.Kept := by
  unfold AmdGpu.hipMalloc
  split_ifs with hzero
  · exact h
  · exact h.allocate (HookedGpu.roundUp2MB_pos (Nat.pos_of_ne_zero hzero))

theorem Kept.remapPhysicalMemory (h : s.Kept) {p size extent : Nat} (hrange : (p, extent) ∈ s.reserved)
    (hsize : size ≤ extent) (hno : ∀ n, s.drv.mappedAt p n = false) : (s.remapPhysicalMemory p size).2.Kept := by
  unfold AmdGpu.remapPhysicalMemory
  by_cases hpos : 0 < size
  · have hno : ∀ m ∈ s.drv.maps, m.va ≠ p := by
      rintro m hm rfl
      exact Bool.false_ne_true ((hno m.size).symm.trans (Driver.mappedAt_of_mem hm))
    have hin : s.inReservation p size = true := List.any_eq_true.2 ⟨_, hrange, by simpa using hsize⟩
    obtain ⟨k, d, hcreate, henv, hdead, hmaps, hlive⟩ :=
      createAndMap_ok h.reliable hpos hin (h.free hrange hsize hno)
    rw [hcreate]
    exact h.track hrange hsize hno hdead henv hmaps hlive
  · -- there is no allocation of no bytes
    obtain ⟨hnone, hview⟩ | ⟨hsize', -⟩ := s.drv.cuMemCreate_view size
    · have henv := (s.drv.cuMemCreate_frame size).2
      have hmaps : (s.drv.cuMemCreate size).2.maps = s.drv.maps := by
        unfold Driver.cuMemCreate Driver.call
        dsimp only
        split_ifs <;> rfl
      unfold createAndMap hipMemCreate
      generalize s.drv.cuMemCreate size = r at hnone hview henv hmaps
      obtain ⟨r₁, d⟩ := r
      obtain rfl := hnone
      exact h.drv henv (fun m => by rw [hmaps]) hview.live
    · exact absurd hsize' hpos

/-! ### The end of physical memory -/

theorem Kept.dropMapping (h : s.Kept) {p n k : Nat} {access : Bool} (hm : ⟨p, n, k, access⟩ ∈ s.drv.maps) :
    ∃ d, (s.hipMemUnmap p n).1 = true ∧ ((s.hipMemUnmap p n).2.hipMemRelease k).2 =
        { s with drv := d, calls := (.memRelease k, true) :: (.memUnmap p n, true) :: s.calls } ∧
      (∀ m ∈ d.maps, m.va ≠ p) ∧
      Kept { s with drv := d, calls := (.memRelease k, true) :: (.memUnmap p n, true) :: s.calls } := by
  have hat : s.drv.mappedAt p n = true := Driver.mappedAt_of_mem hm
  have hklive : s.drv.isLive k = true := (h.live k).2 ⟨_, hm, rfl⟩
  obtain ⟨d₁, hcall₁, hd₁⟩ := Driver.cuMemUnmap_ok (h.reliable _) hat
  obtain ⟨d₂, hcall₂, hd₂⟩ := Driver.cuMemRelease_ok (d := d₁) (by rw [hd₁.env]; exact h.reliable _)
    ((hd₁.live k).2 hklive)
  have hmaps : ∀ m, m ∈ d₂.maps ↔ m ∈ s.drv.maps ∧ m.va ≠ p := fun m => (hd₂.maps m).trans (hd₁.maps m)
  have hlive : ∀ j, d₂.isLive j = true ↔ s.drv.isLive j = true ∧ j ≠ k := by
    intro j
    rw [hd₂.live, hd₁.live]
  refine ⟨d₂, ?_, ?_, fun m hm => ((hmaps m).1 hm).2, ?_⟩
  · unfold hipMemUnmap
    rw [hcall₁]
  · have hlive₁ : d₁.isLive k = true := (hd₁.live k).2 hklive
    unfold hipMemUnmap hipMemRelease
    simp only [hcall₁, hat]
    show AmdGpu.record _ (d₁.cuMemRelease k).2 _ (d₁.isLive k) = _
    rw [hcall₂, hlive₁]
    rfl
  refine ⟨by rw [hd₂.env, hd₁.env]; exact h.reliable, h.range, h.handle, h.apart,
    fun m hm => h.maps m ((hmaps m).1 hm).1, fun j => ?_,
    fun m hm m' hm' => h.distinct m ((hmaps m).1 hm).1 m' ((hmaps m').1 hm').1, ?_, fun j => ?_⟩
  · -- the handle is that of the one mapping that goes
    rw [hlive, h.live]
    constructor
    · rintro ⟨⟨m, hmem, rfl⟩, hne⟩
      refine ⟨m, (hmaps m).2 ⟨hmem, ?_⟩, rfl⟩
      intro hva
      exact hne (congrArg Mapping.handle (Driver.eq_of_va_eq hmem hm hva))
    · rintro ⟨m, hmem, rfl⟩
      obtain ⟨hmem, hva⟩ := (hmaps m).1 hmem
      exact ⟨⟨m, hmem, rfl⟩, fun heq => hva (h.distinct m hmem _ hm heq)⟩
  · intro x hx
    rcases List.mem_cons.1 hx with rfl | hx
    · rfl
    · rcases List.mem_cons.1 hx with rfl | hx
      · rfl
      · exact h.valid x hx
  · have hold := h.released j
    by_cases hjk : j = k
    · subst hjk
      have hdead : d₂.isLive j = false := by
        rw [Bool.eq_false_iff, ne_eq, hlive]
        exact fun hj => hj.2 rfl
      rw [hklive] at hold
      simp [hdead, hold]
    · have hsame : d₂.isLive j = s.drv.isLive j := by
        rw [Bool.eq_iff_iff, hlive]
        exact and_iff_left hjk
      rw [hsame]
      simpa [Ne.symm hjk] using hold

theorem Kept.releasePhysicalMemory (h : s.Kept) {p : Nat}
    (hat : ∀ n, s.allocatedMemory[p]? = some n → s.drv.mappedAt p n = true) : (s.releasePhysicalMemory p).2.Kept := by
  unfold AmdGpu.releasePhysicalMemory
  cases htab : s.allocatedMemory[p]? with
  | none => exact h
  | some n =>
    obtain ⟨k, access, hm, -, hhandle, -⟩ := h.mapping (hat n htab)
    obtain ⟨d, hunmap, hrelease, -, hd⟩ := h.dropMapping hm
    dsimp only
    rw [hhandle]
    dsimp only
    generalize s.hipMemUnmap p n = r at hunmap hrelease
    obtain ⟨r₁, s₁⟩ := r
    obtain rfl := hunmap
    dsimp only at hrelease ⊢
    rw [hrelease]
    exact hd

theorem Kept.dropBlock (h : s.Kept) {p n : Nat} (hno : ∀ m ∈ s.drv.maps, m.va ≠ p) :
    Kept { s.hipMemAddressFree p n with
      globalHandleMap := (s.hipMemAddressFree p n).globalHandleMap.erase p
      allocatedMemory := (s.hipMemAddressFree p n).allocatedMemory.erase p
      allocatedMemoryType := (s.hipMemAddressFree p n).allocatedMemoryType.erase p } := by
  have hvgpu := HookedGpu.cuMemAddressFree_toVGpu s.toHookedGpu p n
  have hdrv : (s.cuMemAddressFree p n).drv = s.tick.drv := congrArg VGpu.drv hvgpu
  have htable : (s.cuMemAddressFree p n).allocatedMemory = s.tick.allocatedMemory := congrArg VGpu.allocatedMemory hvgpu
  have hhandles : (s.cuMemAddressFree p n).globalHandleMap = s.tick.globalHandleMap :=
    congrArg VGpu.globalHandleMap hvgpu
  have htick := h.drv (d := { s.drv with clock := s.drv.clock + 1 }) rfl (fun _ => Iff.rfl) fun _ => rfl
  have hreserved := HookedGpu.cuMemAddressFree_reserved s.toHookedGpu p n
  unfold hipMemAddressFree
  generalize s.cuMemAddressFree p n = s' at hdrv htable hhandles hreserved ⊢
  refine ⟨?_, fun q m hq => ?_, fun q m hq => ?_, ?_, fun m hm => ?_, ?_, ?_, h.valid, ?_⟩
  · show s'.drv.env.Reliable
    rw [hdrv]
    exact h.reliable
  · have hq : (s'.allocatedMemory.erase p)[q]? = some m := hq
    rw [htable, getElem?_erase_key] at hq
    split_ifs at hq with hqp
    obtain ⟨extent, hle, hmem⟩ := h.range q m hq
    refine ⟨extent, hle, ?_⟩
    show (q, extent) ∈ s'.reserved
    rcases hreserved with hr | hr
    · rw [hr]
      exact (List.mem_erase_of_ne fun heq => hqp (congrArg Prod.fst heq)).2 hmem
    · rw [hr]
      exact hmem
  · have hq : (s'.allocatedMemory.erase p)[q]? = some m := hq
    rw [htable, getElem?_erase_key] at hq
    split_ifs at hq with hqp
    obtain ⟨k, hk⟩ := h.handle q m hq
    refine ⟨k, ?_⟩
    show (s'.globalHandleMap.erase p)[q]? = _
    rw [hhandles, getElem?_erase_key, if_neg hqp]
    exact hk
  · show s'.reserved.Pairwise _
    rcases hreserved with hr | hr
    · rw [hr]
      exact h.apart.sublist List.erase_sublist
    · rw [hr]
      exact h.apart
  · have hm : m ∈ s'.drv.maps := hm
    rw [hdrv] at hm
    show (s'.allocatedMemory.erase p)[m.va]? = _ ∧ (s'.globalHandleMap.erase p)[m.va]? = _
    rw [htable, hhandles, getElem?_erase_key, getElem?_erase_key, if_neg (hno m hm), if_neg (hno m hm)]
    exact h.maps m hm
  · show ∀ k, s'.drv.isLive k = true ↔ ∃ m ∈ s'.drv.maps, m.handle = k
    rw [hdrv]
    exact htick.live
  · show ∀ m ∈ s'.drv.maps, ∀ m' ∈ s'.drv.maps, m.handle = m'.handle → m.va = m'.va
    rw [hdrv]
    exact h.distinct
  · show ∀ k, _ = _ + if s'.drv.isLive k then 1 else 0
    rw [hdrv]
    exact htick.released

theorem Kept.hipFree (h : s.Kept) {p : Nat}
    (hat : ∀ n, s.allocatedMemory[p]? = some n → s.drv.mappedAt p n = true) : (s.hipFree p).Kept := by
  unfold AmdGpu.hipFree
  split_ifs with hnull
  · exact h
  cases htab : s.allocatedMemory[p]? with
  | none => exact h
  | some n =>
    obtain ⟨k, access, hm, -, hhandle, -⟩ := h.mapping (hat n htab)
    obtain ⟨d, -, hrelease, hno, hd⟩ := h.dropMapping hm
    have hdrop := hd.dropBlock (n := n) hno
    dsimp only
    rw [hhandle]
    dsimp only
    rw [hrelease]
    exact hdrop

theorem Kept.memOp (h : s.Kept) {op : MemOp} (hop : s.InOrder op) : (s.memOp op).Kept := by
  cases op with
  | malloc size => exact h.hipMalloc size
  | free ptr => exact h.hipFree hop
  | release ptr => exact h.releasePhysicalMemory hop
  | remap ptr size =>
    obtain ⟨hno, extent, hsize, hrange⟩ := hop
    exact h.remapPhysicalMemory hrange hsize hno

end Kept

/-- **Handles and ranges are well used** in every run in which blocks are freed and released while they are
mapped and remapped while they are not. -/
theorem wellUsed_of_ops (s : AmdGpu) (hs : s.NoBlock) (ops : List MemOp)
    (hok : AllSteps (fun s op => s.OnTracked op ∧ s.InOrder op) memOp s ops) (pre : List MemOp) (hpre : pre <+: ops) :
    (run memOp s pre).WellUsed :=
  (invariant_of_allSteps (fun _ _ h hop => h.memOp hop.2) hs.kept hok pre hpre).wellUsed

/-! ### One block -/

def noBlock : AmdGpu := { HookedGpu.noBlock with calls := [] }

theorem noBlock_noBlock : noBlock.NoBlock := ⟨HookedGpu.noBlock_noBlock, rfl, fun _ => rfl⟩

/-- A block that is allocated, parked, mapped again and freed. -/
def parkedBlock : List MemOp := [.malloc 1, .release 0x200000, .remap 0x200000 0x200000, .free 0x200000]

theorem wellUsed_parkedBlock : (run memOp noBlock parkedBlock).WellUsed := by
  refine wellUsed_of_ops noBlock noBlock_noBlock parkedBlock ?_ parkedBlock List.prefix_rfl
  have hmem : ∀ (t : ExtTreeMap Nat Nat) (p : Nat), t[p]?.isSome = true → p ∈ t :=
    fun t p => ExtTreeMap.mem_iff_isSome_getElem?.2
  refine ⟨⟨trivial, trivial⟩, ⟨hmem _ _ rfl, fun n hn => ?_⟩, ⟨hmem _ _ rfl, fun n => rfl, 0x200000, le_rfl, ?_⟩,
    ⟨hmem _ _ rfl, fun n hn => ?_⟩, trivial⟩
  · obtain rfl := Option.some.inj hn
    rfl
  · exact List.mem_cons_self ..
  · obtain rfl := Option.some.inj hn
    rfl

/-- A block that is freed while it is parked is unmapped and released a second time. -/
theorem not_wellUsed : ¬ ∀ s : AmdGpu, s.NoBlock → ∀ ops : List MemOp, AllSteps OnTracked memOp s ops →
    (run memOp s ops).WellUsed := by
  intro h
  have hmem : ∀ (t : ExtTreeMap Nat Nat) (p : Nat), t[p]?.isSome = true → p ∈ t :=
    fun t p => ExtTreeMap.mem_iff_isSome_getElem?.2
  have hused := h noBlock noBlock_noBlock [.malloc 1, .release 0x200000, .free 0x200000]
    ⟨trivial, hmem _ _ rfl, hmem _ _ rfl, trivial⟩
  have hcall : (HipCall.memRelease 1, false) ∈ (run memOp noBlock [.malloc 1, .release 0x200000, .free 0x200000]).calls :=
    List.mem_cons_self ..
  exact Bool.false_ne_true (hused.valid _ hcall)

end AmdGpu

end GpuCr
