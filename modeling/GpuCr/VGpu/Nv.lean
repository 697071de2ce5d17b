import GpuCr.Driver
import GpuCr.VGpu.Pipeline
import Mathlib.Data.List.Sort

/-!
# Physical memory of the NVIDIA back end

`nv::releasePhysicalMemory` and `nv::remapPhysicalMemory` of `src/GPUs/NVIDIA/nv.cpp` over the state of
the single-process library. Each has one lemma that says everything it does to the tables and to the
driver when its calls succeed; the round trips use nothing else about them.
-/

namespace GpuCr

open Lib Std

/-! ### The state -/

/-- The globals of `vGPU.cpp` and `nv.cpp` that checkpoint and restore work on. `dump` is the payload of
the dump file by offset, `fs` its header. -/
structure VGpu where
  allocatedMemory : ExtTreeMap Nat Nat
  globalHandleMap : ExtTreeMap Nat Nat
  drv : Driver
  fs : SharedMemFs
  staging : Nat → Nat → Byte
  dump : Nat → Byte

namespace VGpu

/-- `cuMemUnmap` of the block at `ptr`, then `cuMemRelease` of its handle; `none` is the result `-1`. -/
def unmapAndRelease (s : VGpu) (ptr alignedSize : Nat) : Option VGpu :=
  let unmapped := s.drv.cuMemUnmap ptr alignedSize
  if !unmapped.1 then none
  else
    match s.globalHandleMap[ptr]? with
    | none => some { s with drv := unmapped.2 }
    | some handle =>
      let released := unmapped.2.cuMemRelease handle
      if !released.1 then none
      else some { s with drv := released.2, globalHandleMap := s.globalHandleMap.erase ptr }

def releasePhysicalMemory (s : VGpu) (ptr : Nat) : Option VGpu :=
  match s.allocatedMemory[ptr]? with
  | none => none
  | some size => s.unmapAndRelease ptr (roundUp2MB size)

/-- The new physical memory of `remapPhysicalMemory`; its three calls are under `CU_CHECK`. -/
def mapNewPhysical (s : VGpu) (ptr alignedSize : Nat) : Except Exit VGpu :=
  match s.drv.cuMemCreate alignedSize with
  | (none, _) => .error .cuCheck
  | (some memHandle, drv) =>
    let mapped := drv.cuMemMap ptr alignedSize memHandle
    if !mapped.1 then .error .cuCheck
    else
      let granted := mapped.2.cuMemSetAccess ptr alignedSize
      if !granted.1 then .error .cuCheck
      else .ok { s with drv := granted.2, globalHandleMap := s.globalHandleMap.insert ptr memHandle }

/-- Both callers leave through `exit` when the result is `-1`, which is `.remap ptr` here. -/
def remapPhysicalMemory (s : VGpu) (ptr size : Nat) : Except Exit VGpu :=
  match s.allocatedMemory[ptr]? with
  | none => .error (.remap ptr)
  | some oldSize =>
    if s.globalHandleMap[ptr]?.isSome then
      -- still mapped: the old physical memory goes first
      match s.unmapAndRelease ptr (roundUp2MB oldSize) with
      | none => .error (.remap ptr)
      | some s => s.mapNewPhysical ptr (roundUp2MB size)
    else s.mapNewPhysical ptr (roundUp2MB size)

/-! ### What the driver does -/

/-- `d'` is `d` without the mapping at `va` and without the handle `h`. -/
structure Unmapped (d d' : Driver) (va h : Nat) : Prop where
  env : d'.env = d.env
  mem : d'.mem = d.mem
  maps : ∀ m, m ∈ d'.maps ↔ m ∈ d.maps ∧ m.va ≠ va
  live : ∀ k, d'.isLive k = (d.isLive k && k != h)

/-- `d'` is `d` with a new allocation `h` mapped at `[va, va + size)`. -/
structure Remapped (d d' : Driver) (va size h : Nat) : Prop where
  env : d'.env = d.env
  mem : ∀ a, a < va ∨ va + size ≤ a → d'.mem a = d.mem a
  maps : ∀ m, m ∈ d'.maps ↔ m = ⟨va, size, h, true⟩ ∨ m ∈ d.maps
  fresh : d.isLive h = false
  live : ∀ k, d'.isLive k = (d.isLive k || k == h)

theorem isLive_filter (d : Driver) (h k : Nat) :
    ({ d with live := d.live.filter fun x => x.1 != h } : Driver).isLive k = (d.isLive k && k != h) := by
  unfold Driver.isLive
  rw [Bool.eq_iff_iff]
  simp only [List.any_eq_true, List.mem_filter, Bool.and_eq_true, bne_iff_ne, beq_iff_eq]
  constructor
  · rintro ⟨x, ⟨hx, hne⟩, rfl⟩
    exact ⟨⟨x, hx, rfl⟩, hne⟩
  · rintro ⟨⟨x, hx, rfl⟩, hne⟩
    exact ⟨x, ⟨hx, hne⟩, rfl⟩

theorem unmapRelease_spec {d : Driver} {p size h : Nat} {access : Bool} (henv : d.env.Reliable)
    (hmap : ⟨p, size, h, access⟩ ∈ d.maps) (hlive : d.isLive h = true) :
    ∃ d₁ d₂, d.cuMemUnmap p size = (true, d₁) ∧ d₁.cuMemRelease h = (true, d₂) ∧ Unmapped d d₂ p h := by
  have hat : d.mappedAt p size = true := Driver.mappedAt_of_mem hmap
  let d₁ : Driver := { d with clock := d.clock + 1 }.unmapRange p
  refine ⟨d₁, { d₁ with clock := d₁.clock + 1, live := d₁.live.filter fun x => x.1 != h },
    Driver.call_of_valid henv hat _, Driver.call_of_valid (d := d₁) henv hlive _, rfl, rfl, ?_, isLive_filter d₁ h⟩
  intro m
  show m ∈ List.filter _ _ ↔ _
  rw [List.mem_filter, bne_iff_ne]

theorem unmapAndRelease_spec {s : VGpu} {p size h : Nat} {access : Bool} (henv : s.drv.env.Reliable)
    (hh : s.globalHandleMap[p]? = some h) (hmap : ⟨p, size, h, access⟩ ∈ s.drv.maps)
    (hlive : s.drv.isLive h = true) :
    ∃ drv, s.unmapAndRelease p size =
        some { s with drv := drv, globalHandleMap := s.globalHandleMap.erase p } ∧
      Unmapped s.drv drv p h := by
  obtain ⟨d₁, d₂, hunmap, hrelease, hd⟩ := unmapRelease_spec henv hmap hlive
  refine ⟨d₂, ?_, hd⟩
  simp only [unmapAndRelease, hunmap, hh]
  rw [hrelease]
  rfl

theorem releasePhysicalMemory_spec {s : VGpu} {p n h : Nat} {access : Bool} (henv : s.drv.env.Reliable)
    (htab : s.allocatedMemory[p]? = some n) (hh : s.globalHandleMap[p]? = some h)
    (hmap : ⟨p, roundUp2MB n, h, access⟩ ∈ s.drv.maps) (hlive : s.drv.isLive h = true) :
    ∃ drv, s.releasePhysicalMemory p =
        some { s with drv := drv, globalHandleMap := s.globalHandleMap.erase p } ∧
      Unmapped s.drv drv p h := by
  simp only [releasePhysicalMemory, htab]
  exact unmapAndRelease_spec henv hh hmap hlive

/-- Three calls in a row, none of which can fail on a free range. -/
theorem createMapAccess_spec {d : Driver} {p size : Nat} (henv : d.env.Reliable) (hpos : 0 < size)
    (hfree : ∀ m ∈ d.maps, p + size ≤ m.va ∨ m.va + m.size ≤ p) :
    ∃ h d₁ d₂ d₃, d.cuMemCreate size = (some h, d₁) ∧ d₁.cuMemMap p size h = (true, d₂) ∧
      d₂.cuMemSetAccess p size = (true, d₃) ∧ Remapped d d₃ p size h := by
  let h := d.nextHandle
  let d₁ : Driver := { d with clock := d.clock + 1, live := (h, size) :: d.live }
  have hcreate : d.cuMemCreate size = (some h, d₁) := by
    simp [Driver.cuMemCreate, Driver.call_of_valid henv (decide_eq_true hpos), h, d₁]
  have hcan : d₁.canMap p size h ∧ d₁.env.fails d₁.clock = false :=
    ⟨⟨hpos, ⟨(h, size), List.mem_cons_self .., rfl, le_rfl⟩, hfree⟩, henv _⟩
  obtain ⟨d₂, hmap, henv₂, hmem₂, hmaps₂, hlive₂⟩ : ∃ d₂, d₁.cuMemMap p size h = (true, d₂) ∧
      d₂.env = d.env ∧ d₂.mem = scribble d.mem p size (d.env.fresh d₁.clock) ∧
      d₂.maps = ⟨p, size, h, false⟩ :: d.maps ∧ d₂.live = d₁.live := by
    unfold Driver.cuMemMap
    rw [dif_pos hcan]
    exact ⟨_, rfl, rfl, rfl, rfl, rfl⟩
  have hat : d₂.mappedAt p size = true := by
    have hnew : ⟨p, size, h, false⟩ ∈ d₂.maps := by
      rw [hmaps₂]
      exact List.mem_cons_self ..
    exact Driver.mappedAt_of_mem hnew
  have hgrant : d₂.cuMemSetAccess p size = (true, { d₂ with clock := d₂.clock + 1 }.grantRange p) :=
    Driver.call_of_valid (henv₂ ▸ henv) hat _
  refine ⟨h, d₁, d₂, _, hcreate, hmap, hgrant, henv₂, ?_, ?_, Driver.nextHandle_not_live, ?_⟩
  · intro a ha
    show d₂.mem a = d.mem a
    rw [hmem₂]
    exact scribble_out _ _ ha
  · intro m
    -- no other mapping starts at `p`, so access is granted to the new one only
    have hothers : d.maps.map (Driver.grantAccess p) = d.maps := by
      rw [List.map_congr_left (g := id), List.map_id]
      intro m' hm'
      have := hfree m' hm'
      have := d.maps_pos m' hm'
      exact if_neg (by omega)
    show m ∈ d₂.maps.map (Driver.grantAccess p) ↔ _
    rw [hmaps₂, List.map_cons, hothers, List.mem_cons]
    simp [Driver.grantAccess]
  · intro k
    show d₂.isLive k = _
    unfold Driver.isLive
    rw [hlive₂]
    show ((h == k) || _) = _
    rw [Bool.or_comm, BEq.comm]

theorem mapNewPhysical_spec {s : VGpu} {p size : Nat} (henv : s.drv.env.Reliable) (hpos : 0 < size)
    (hfree : ∀ m ∈ s.drv.maps, p + size ≤ m.va ∨ m.va + m.size ≤ p) :
    ∃ drv h, s.mapNewPhysical p size =
        .ok { s with drv := drv, globalHandleMap := s.globalHandleMap.insert p h } ∧
      Remapped s.drv drv p size h := by
  obtain ⟨h, d₁, d₂, d₃, hcreate, hmap, hgrant, hre⟩ := createMapAccess_spec henv hpos hfree
  refine ⟨d₃, h, ?_, hre⟩
  simp only [mapNewPhysical, hcreate, hmap, hgrant]
  rfl

theorem remapPhysicalMemory_spec {s : VGpu} {p n size : Nat} (henv : s.drv.env.Reliable)
    (htab : s.allocatedMemory[p]? = some n) (hnone : s.globalHandleMap[p]? = none)
    (hpos : 0 < roundUp2MB size)
    (hfree : ∀ m ∈ s.drv.maps, p + roundUp2MB size ≤ m.va ∨ m.va + m.size ≤ p) :
    ∃ drv h, s.remapPhysicalMemory p size =
        .ok { s with drv := drv, globalHandleMap := s.globalHandleMap.insert p h } ∧
      Remapped s.drv drv p (roundUp2MB size) h := by
  simp only [remapPhysicalMemory, htab, hnone, Option.isSome_none, Bool.false_eq_true, if_false]
  exact mapNewPhysical_spec henv hpos hfree

end VGpu

end GpuCr
