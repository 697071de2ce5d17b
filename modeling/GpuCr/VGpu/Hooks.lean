import GpuCr.VGpu.Selective

/-!
# The allocation hooks

`cudaMalloc` and `cudaFree` of `src/GPUs/NVIDIA/nv.cpp`. Each allocation reserves a range of addresses,
creates physical memory and maps it there. What the hooks know of a reservation is only that it overlaps
no other one; which range it is, the driver decides. A block that is freed while it is parked keeps its
reservation, so its addresses are never handed out again.

`Reserved` holds in every run, whatever the driver does and whatever messages arrive in between.
-/

namespace GpuCr

open Lib Lib.AsyncStream Lib.Run Std

/-- The library with the address ranges it has reserved. `pickVa` is the driver's choice of a range, by
the number of the call. -/
structure HookedGpu extends VGpu where
  allocatedMemoryType : ExtTreeMap Nat Nat
  reserved : List (Nat × Nat)
  pickVa : Nat → Nat

namespace HookedGpu

/-! ### Address ranges -/

def rangeApart (r r' : Nat × Nat) : Prop := r.1 + r.2 ≤ r'.1 ∨ r'.1 + r'.2 ≤ r.1

instance : Std.Symm rangeApart := ⟨fun _ _ h => h.symm⟩

instance (r r' : Nat × Nat) : Decidable (rangeApart r r') := inferInstanceAs (Decidable (_ ∨ _))

/-- An address above all reservations. -/
def reservedEnd (s : HookedGpu) : Nat := (s.reserved.map fun r => r.1 + r.2).foldl max hugePageSize

/-- What `cuMemAddressReserve` returns: any range that is not null and overlaps no reservation. -/
def nextVa (s : HookedGpu) (size : Nat) : Nat :=
  let va := s.pickVa s.drv.clock
  if va ≠ 0 ∧ ∀ r ∈ s.reserved, rangeApart (va, size) r then va else s.reservedEnd

def tick (s : HookedGpu) : HookedGpu := { s with drv := { s.drv with clock := s.drv.clock + 1 } }

def cuMemAddressReserve (s : HookedGpu) (size : Nat) : Option Nat × HookedGpu :=
  if 0 < size ∧ s.drv.env.fails s.drv.clock = false then
    (some (s.nextVa size), { s.tick with reserved := (s.nextVa size, size) :: s.reserved })
  else (none, s.tick)

/-- A range with a mapping in it is not given up. -/
def cuMemAddressFree (s : HookedGpu) (va size : Nat) : HookedGpu :=
  if (va, size) ∈ s.reserved ∧ (∀ m ∈ s.drv.maps, rangeApart (va, size) (m.va, m.size)) ∧
      s.drv.env.fails s.drv.clock = false then
    { s.tick with reserved := s.reserved.erase (va, size) }
  else s.tick

/-! ### The hooks -/

/-- `cudaMalloc` once the range is reserved: physical memory, mapping, access and tables. Whatever fails
is undone, with the results of the undoing calls ignored. -/
def allocateAt (s : HookedGpu) (virtualAddr size alignedSize : Nat) : Option Nat × HookedGpu :=
  match s.drv.cuMemCreate alignedSize with
  | (none, drv) => (none, { s with drv := drv }.cuMemAddressFree virtualAddr alignedSize)
  | (some memHandle, drv) =>
    let mapped := drv.cuMemMap virtualAddr alignedSize memHandle
    if !mapped.1 then
      (none, { s with drv := (mapped.2.cuMemRelease memHandle).2 }.cuMemAddressFree virtualAddr alignedSize)
    else
      let granted := mapped.2.cuMemSetAccess virtualAddr alignedSize
      if !granted.1 then
        let unmapped := (granted.2.cuMemUnmap virtualAddr alignedSize).2
        (none, { s with drv := (unmapped.cuMemRelease memHandle).2 }.cuMemAddressFree virtualAddr alignedSize)
      else
        (some virtualAddr,
          { s with
            drv := granted.2
            globalHandleMap := s.globalHandleMap.insert virtualAddr memHandle
            allocatedMemory := s.allocatedMemory.insert virtualAddr size
            allocatedMemoryType := s.allocatedMemoryType.insert virtualAddr 1 })

def allocateVmm (s : HookedGpu) (size alignedSize : Nat) : Option Nat × HookedGpu :=
  match s.cuMemAddressReserve alignedSize with
  | (none, s) => (none, s)
  | (some virtualAddr, s) => s.allocateAt virtualAddr size alignedSize

/-- `none` is `cudaErrorMemoryAllocation`; an allocation of no bytes yields the null pointer. Not here is what comes between
the two on the first call, `cuInit` and the device of the context, where a failure returns `cudaErrorInitializationError`
before anything is allocated. -/
def cudaMalloc (s : HookedGpu) (size : Nat) : Option Nat × HookedGpu :=
  if size = 0 then (some 0, s) else s.allocateVmm size (roundUp2MB size)

/-- The physical block of a freed allocation; the results of the three calls are ignored. A parked block
has no handle, and then the reservation stays as well. -/
def freePhysical (s : HookedGpu) (ptr alignedSize : Nat) : HookedGpu :=
  match s.globalHandleMap[ptr]? with
  | none => s
  | some memHandle =>
    let unmapped := (s.drv.cuMemUnmap ptr alignedSize).2
    let s := { s with drv := (unmapped.cuMemRelease memHandle).2 }.cuMemAddressFree ptr alignedSize
    { s with globalHandleMap := s.globalHandleMap.erase ptr }

/-- A pointer the hooks do not know goes to the real `cudaFree`, which has no part in these tables. -/
def cudaFree (s : HookedGpu) (ptr : Nat) : HookedGpu :=
  match s.allocatedMemory[ptr]? with
  | none => s
  | some size =>
    let s :=
      if s.allocatedMemoryType[ptr]? = some 1 then
        let s := s.freePhysical ptr (roundUp2MB size)
        { s with allocatedMemoryType := s.allocatedMemoryType.erase ptr }
      else s
    { s with allocatedMemory := s.allocatedMemory.erase ptr }

/-! ### One range at a time -/

/-- `d'` differs from `d` only in the mapping at `va` and the bytes of `[va, va + size)`. -/
structure OnlyAt (va size : Nat) (d d' : Driver) : Prop where
  env : d'.env = d.env
  mem : ∀ a, a < va ∨ va + size ≤ a → d'.mem a = d.mem a
  maps : ∀ m : Mapping, m.va ≠ va → (m ∈ d'.maps ↔ m ∈ d.maps)
  extent : ∀ m ∈ d'.maps, m.va = va → m.size = size ∨ ∃ m' ∈ d.maps, m'.va = va ∧ m'.size = m.size

section OnlyAt
variable {va size : Nat} {d d' d'' : Driver}

theorem OnlyAt.of_same (henv : d'.env = d.env) (hmem : d'.mem = d.mem) (hmaps : d'.maps = d.maps) :
    OnlyAt va size d d' := by
  refine ⟨henv, fun a _ => by rw [hmem], fun m _ => by rw [hmaps], ?_⟩
  intro m hm heq
  exact Or.inr ⟨m, hmaps ▸ hm, heq, rfl⟩

theorem OnlyAt.trans (h : OnlyAt va size d d') (h' : OnlyAt va size d' d'') : OnlyAt va size d d'' := by
  refine ⟨h'.env.trans h.env, fun a ha => (h'.mem a ha).trans (h.mem a ha),
    fun m hm => (h'.maps m hm).trans (h.maps m hm), ?_⟩
  intro m hm heq
  rcases h'.extent m hm heq with h1 | ⟨m', hm', heq', hsize⟩
  · exact Or.inl h1
  · rcases h.extent m' hm' heq' with h1 | ⟨m'', hm'', heq'', hsize''⟩
    · exact Or.inl (hsize ▸ h1)
    · exact Or.inr ⟨m'', hm'', heq'', hsize''.trans hsize⟩

theorem onlyAt_cuMemCreate (n : Nat) : OnlyAt va size d (d.cuMemCreate n).2 := by
  unfold Driver.cuMemCreate Driver.call
  dsimp only
  split_ifs <;> exact .of_same rfl rfl rfl

theorem onlyAt_cuMemRelease (handle : Nat) : OnlyAt va size d (d.cuMemRelease handle).2 := by
  unfold Driver.cuMemRelease Driver.call
  split_ifs <;> exact .of_same rfl rfl rfl

theorem onlyAt_cuMemMap (handle : Nat) : OnlyAt va size d (d.cuMemMap va size handle).2 := by
  unfold Driver.cuMemMap
  split_ifs
  · refine ⟨rfl, fun a ha => scribble_out _ _ ha, ?_, ?_⟩
    · intro m hm
      refine List.mem_cons.trans (or_iff_right ?_)
      rintro rfl
      exact hm rfl
    · intro m hm heq
      rcases List.mem_cons.1 hm with rfl | hm
      · exact Or.inl rfl
      · exact Or.inr ⟨m, hm, heq, rfl⟩
  · exact .of_same rfl rfl rfl

theorem onlyAt_cuMemUnmap (n : Nat) : OnlyAt va size d (d.cuMemUnmap va n).2 := by
  unfold Driver.cuMemUnmap Driver.call
  split_ifs
  · refine ⟨rfl, fun _ _ => rfl, ?_, ?_⟩
    · intro m hm
      exact List.mem_filter.trans (and_iff_left (bne_iff_ne.2 hm))
    · intro m hm heq
      exact Or.inr ⟨m, (List.mem_filter.1 hm).1, heq, rfl⟩
  · exact .of_same rfl rfl rfl

theorem onlyAt_cuMemSetAccess (n : Nat) : OnlyAt va size d (d.cuMemSetAccess va n).2 := by
  unfold Driver.cuMemSetAccess Driver.call
  split_ifs
  · refine ⟨rfl, fun _ _ => rfl, ?_, ?_⟩
    · intro m hm
      show m ∈ d.maps.map (Driver.grantAccess va) ↔ m ∈ d.maps
      rw [List.mem_map]
      constructor
      · rintro ⟨m', hm', rfl⟩
        rw [Driver.grantAccess_va] at hm
        rwa [Driver.grantAccess, if_neg hm]
      · intro hm'
        exact ⟨m, hm', if_neg hm⟩
    · intro m hm heq
      obtain ⟨m', hm', rfl⟩ := List.mem_map.1 hm
      exact Or.inr ⟨m', hm', by simpa using heq, by simp⟩
  · exact .of_same rfl rfl rfl

end OnlyAt

/-- Likewise for the whole state: the tables change at `r.1` only. -/
structure OnlyRange (r : Nat × Nat) (s s' : HookedGpu) : Prop where
  drv : OnlyAt r.1 r.2 s.drv s'.drv
  fs : s'.fs = s.fs
  dump : s'.dump = s.dump
  table : ∀ q, q ≠ r.1 → s'.allocatedMemory[q]? = s.allocatedMemory[q]?
  handles : ∀ q, q ≠ r.1 → s'.globalHandleMap[q]? = s.globalHandleMap[q]?

theorem OnlyRange.trans {r : Nat × Nat} {s s' s'' : HookedGpu} (h : OnlyRange r s s')
    (h' : OnlyRange r s' s'') : OnlyRange r s s'' :=
  ⟨h.drv.trans h'.drv, h'.fs.trans h.fs, h'.dump.trans h.dump,
    fun q hq => (h'.table q hq).trans (h.table q hq), fun q hq => (h'.handles q hq).trans (h.handles q hq)⟩

theorem nextVa_apart (s : HookedGpu) (size : Nat) : ∀ r ∈ s.reserved, rangeApart (s.nextVa size, size) r := by
  intro r hr
  unfold nextVa
  dsimp only
  split_ifs with h
  · exact h.2 r hr
  · exact Or.inr ((Driver.le_foldl_max _ hugePageSize).2 _ (List.mem_map_of_mem hr))

theorem nextVa_ne_zero (s : HookedGpu) (size : Nat) : s.nextVa size ≠ 0 := by
  unfold nextVa
  dsimp only
  split_ifs with hpick
  · exact hpick.1
  · exact (Nat.lt_of_lt_of_le (by decide : 0 < hugePageSize) (Driver.le_foldl_max _ hugePageSize).1).ne'

theorem roundUp2MB_pos {n : Nat} (h : 0 < n) : 0 < roundUp2MB n := Nat.lt_of_lt_of_le h (le_roundUp2MB n)

/-! ### The hooks on the tables and the reservations -/

theorem cuMemAddressFree_reserved (s : HookedGpu) (va size : Nat) :
    (s.cuMemAddressFree va size).reserved = s.reserved.erase (va, size) ∨
      (s.cuMemAddressFree va size).reserved = s.reserved := by
  unfold cuMemAddressFree
  split_ifs
  · exact Or.inl rfl
  · exact Or.inr rfl

theorem cuMemAddressFree_toVGpu (s : HookedGpu) (va size : Nat) :
    (s.cuMemAddressFree va size).toVGpu = s.tick.toVGpu := by
  unfold cuMemAddressFree
  split_ifs <;> rfl

theorem onlyRange_addressFree (r : Nat × Nat) (s : HookedGpu) (va size : Nat) :
    OnlyRange r s (s.cuMemAddressFree va size) := by
  refine ⟨?_, ?_, ?_, ?_, ?_⟩
  all_goals rw [cuMemAddressFree_toVGpu]
  · exact .of_same rfl rfl rfl
  · rfl
  · rfl
  · exact fun _ _ => rfl
  · exact fun _ _ => rfl

theorem onlyRange_undone {va alignedSize : Nat} {s : HookedGpu} {drv : Driver}
    (hdrv : OnlyAt va alignedSize s.drv drv) :
    OnlyRange (va, alignedSize) s ({ s with drv := drv }.cuMemAddressFree va alignedSize) := by
  have hrange : OnlyRange (va, alignedSize) s { s with drv := drv } :=
    ⟨hdrv, rfl, rfl, fun _ _ => rfl, fun _ _ => rfl⟩
  exact hrange.trans (onlyRange_addressFree _ _ _ _)

/-- What an attempt to allocate a block at `va` can leave behind: the tables as they were, with the
reservation given up or leaked, or the new block. -/
structure Attempt (va size alignedSize : Nat) (s s' : HookedGpu) : Prop where
  only : OnlyRange (va, alignedSize) s s'
  outcome : s'.allocatedMemory = s.allocatedMemory ∧
      (s'.reserved = s.reserved ∨ s'.reserved = s.reserved.erase (va, alignedSize)) ∨
    s'.allocatedMemory = s.allocatedMemory.insert va size ∧ s'.reserved = s.reserved

theorem attempt_undone {va size alignedSize : Nat} {s : HookedGpu} {drv : Driver}
    (hdrv : OnlyAt va alignedSize s.drv drv) :
    Attempt va size alignedSize s ({ s with drv := drv }.cuMemAddressFree va alignedSize) := by
  refine ⟨onlyRange_undone hdrv, Or.inl ⟨?_, ?_⟩⟩
  · rw [cuMemAddressFree_toVGpu]
    rfl
  · exact (cuMemAddressFree_reserved _ _ _).symm

theorem attempt_allocateAt (s : HookedGpu) (va size alignedSize : Nat) :
    Attempt va size alignedSize s (s.allocateAt va size alignedSize).2 := by
  have hcreate : OnlyAt va alignedSize s.drv (s.drv.cuMemCreate alignedSize).2 := onlyAt_cuMemCreate _
  unfold allocateAt
  generalize s.drv.cuMemCreate alignedSize = created at hcreate ⊢
  obtain ⟨_ | memHandle, drv⟩ := created
  · exact attempt_undone hcreate
  · have hmap := hcreate.trans (onlyAt_cuMemMap memHandle)
    have hgrant := hmap.trans (onlyAt_cuMemSetAccess alignedSize)
    dsimp only
    split_ifs
    · exact attempt_undone (hmap.trans (onlyAt_cuMemRelease memHandle))
    · exact attempt_undone ((hgrant.trans (onlyAt_cuMemUnmap _)).trans (onlyAt_cuMemRelease memHandle))
    · refine ⟨⟨hgrant, rfl, rfl, ?_, ?_⟩, Or.inr ⟨rfl, rfl⟩⟩
      · intro q hq
        show (s.allocatedMemory.insert va size)[q]? = _
        rw [getElem?_insert_key, if_neg hq]
      · intro q hq
        show (s.globalHandleMap.insert va memHandle)[q]? = _
        rw [getElem?_insert_key, if_neg hq]

/-- The state after `cudaMalloc`, whether it succeeded or not: one fresh range was worked on. -/
structure Allocated (va size alignedSize : Nat) (s s' : HookedGpu) : Prop where
  fresh : ∀ r ∈ s.reserved, rangeApart (va, alignedSize) r
  only : OnlyRange (va, alignedSize) s s'
  outcome : s'.allocatedMemory = s.allocatedMemory ∧
      (s'.reserved = s.reserved ∨ s'.reserved = (va, alignedSize) :: s.reserved) ∨
    s'.allocatedMemory = s.allocatedMemory.insert va size ∧ s'.reserved = (va, alignedSize) :: s.reserved

theorem allocateVmm_allocated (s : HookedGpu) (size alignedSize : Nat) :
    ∃ va, Allocated va size alignedSize s (s.allocateVmm size alignedSize).2 := by
  refine ⟨s.nextVa alignedSize, ?_⟩
  have hfresh := nextVa_apart s alignedSize
  have htick : OnlyRange (s.nextVa alignedSize, alignedSize) s s.tick :=
    ⟨.of_same rfl rfl rfl, rfl, rfl, fun _ _ => rfl, fun _ _ => rfl⟩
  unfold allocateVmm cuMemAddressReserve
  generalize s.nextVa alignedSize = va at hfresh htick ⊢
  split_ifs with hres
  · dsimp only
    have hattempt := attempt_allocateAt { s.tick with reserved := (va, alignedSize) :: s.reserved } va size
      alignedSize
    generalize (HookedGpu.allocateAt _ va size alignedSize).2 = s' at hattempt ⊢
    obtain ⟨honly, houtcome⟩ := hattempt
    refine ⟨hfresh, ?_, ?_⟩
    · exact ⟨htick.drv.trans honly.drv, honly.fs, honly.dump, honly.table, honly.handles⟩
    · rcases houtcome with ⟨h1, h2 | h2⟩ | ⟨h1, h2⟩
      · exact Or.inl ⟨h1, Or.inr h2⟩
      · rw [List.erase_cons_head] at h2
        exact Or.inl ⟨h1, Or.inl h2⟩
      · exact Or.inr ⟨h1, h2⟩
  · exact ⟨hfresh, htick, Or.inl ⟨rfl, Or.inl rfl⟩⟩

/-- The state after `cudaFree` of a known block. -/
structure Freed (ptr alignedSize : Nat) (s s' : HookedGpu) : Prop where
  only : OnlyRange (ptr, alignedSize) s s'
  table : s'.allocatedMemory = s.allocatedMemory.erase ptr
  reserved : s'.reserved = s.reserved ∨ s'.reserved = s.reserved.erase (ptr, alignedSize)
  /-- The reservation of a parked block stays. -/
  parked : s.globalHandleMap[ptr]? = none → s'.reserved = s.reserved ∧ s'.globalHandleMap = s.globalHandleMap

theorem freePhysical_frame (s : HookedGpu) (ptr alignedSize : Nat) :
    OnlyRange (ptr, alignedSize) s (s.freePhysical ptr alignedSize) ∧
      (s.freePhysical ptr alignedSize).allocatedMemory = s.allocatedMemory ∧
      ((s.freePhysical ptr alignedSize).reserved = s.reserved ∨
        (s.freePhysical ptr alignedSize).reserved = s.reserved.erase (ptr, alignedSize)) ∧
      (s.globalHandleMap[ptr]? = none → (s.freePhysical ptr alignedSize).reserved = s.reserved ∧
        (s.freePhysical ptr alignedSize).globalHandleMap = s.globalHandleMap) := by
  unfold freePhysical
  cases hh : s.globalHandleMap[ptr]? with
  | none =>
    exact ⟨⟨.of_same rfl rfl rfl, rfl, rfl, fun _ _ => rfl, fun _ _ => rfl⟩, rfl, Or.inl rfl,
      fun _ => ⟨rfl, rfl⟩⟩
  | some memHandle =>
    have hdrv : OnlyAt ptr alignedSize s.drv ((s.drv.cuMemUnmap ptr alignedSize).2.cuMemRelease memHandle).2 :=
      (onlyAt_cuMemUnmap _).trans (onlyAt_cuMemRelease memHandle)
    dsimp only
    generalize ((s.drv.cuMemUnmap ptr alignedSize).2.cuMemRelease memHandle).2 = drv at hdrv ⊢
    have honly : OnlyRange (ptr, alignedSize) s
        ({ s with drv := drv }.cuMemAddressFree ptr alignedSize) := onlyRange_undone hdrv
    have htoVGpu := cuMemAddressFree_toVGpu { s with drv := drv } ptr alignedSize
    have hreserved := cuMemAddressFree_reserved { s with drv := drv } ptr alignedSize
    generalize HookedGpu.cuMemAddressFree _ ptr alignedSize = s' at honly htoVGpu hreserved ⊢
    refine ⟨⟨honly.drv, honly.fs, honly.dump, honly.table, ?_⟩, ?_, hreserved.symm, fun h => absurd h (by simp)⟩
    · intro q hq
      show (s'.globalHandleMap.erase ptr)[q]? = _
      rw [getElem?_erase_key, if_neg hq]
      exact honly.handles q hq
    · show s'.toVGpu.allocatedMemory = _
      rw [htoVGpu]
      rfl

theorem cudaFree_unknown {s : HookedGpu} {ptr : Nat} (h : s.allocatedMemory[ptr]? = none) :
    s.cudaFree ptr = s := by
  unfold cudaFree
  rw [h]

theorem cudaFree_freed {s : HookedGpu} {ptr size : Nat} (h : s.allocatedMemory[ptr]? = some size) :
    Freed ptr (roundUp2MB size) s (s.cudaFree ptr) := by
  obtain ⟨honly, htable, hreserved, hparked⟩ := freePhysical_frame s ptr (roundUp2MB size)
  have herase : ∀ q, q ≠ ptr → (s.allocatedMemory.erase ptr)[q]? = s.allocatedMemory[q]? := by
    intro q hq
    rw [getElem?_erase_key, if_neg hq]
  unfold cudaFree
  rw [h]
  dsimp only
  split_ifs
  · refine ⟨⟨honly.drv, honly.fs, honly.dump, ?_, honly.handles⟩, ?_, hreserved, hparked⟩
    · intro q hq
      show ((s.freePhysical ptr (roundUp2MB size)).allocatedMemory.erase ptr)[q]? = _
      rw [htable]
      exact herase q hq
    · show (s.freePhysical ptr (roundUp2MB size)).allocatedMemory.erase ptr = _
      rw [htable]
  · exact ⟨⟨.of_same rfl rfl rfl, rfl, rfl, herase, fun _ _ => rfl⟩, rfl, Or.inl rfl, fun _ => ⟨rfl, rfl⟩⟩

/-! ### Every block has its own reservation -/

structure Reserved (s : HookedGpu) : Prop where
  block : ∀ p n : Nat, s.allocatedMemory[p]? = some n → (p, roundUp2MB n) ∈ s.reserved
  pos : ∀ p n : Nat, s.allocatedMemory[p]? = some n → 0 < n
  apart : s.reserved.Pairwise rangeApart

theorem Reserved.tableApart {s : HookedGpu} (hs : s.Reserved) : VGpu.TableApart s.allocatedMemory := by
  intro p q n m hp hq hne
  exact hs.apart.forall (hs.block p n hp) (hs.block q m hq) fun heq => hne (congrArg Prod.fst heq)

theorem reserved_cudaMalloc {s : HookedGpu} (hs : s.Reserved) (size : Nat) : (s.cudaMalloc size).2.Reserved := by
  unfold cudaMalloc
  split_ifs with hz
  · exact hs
  obtain ⟨va, hfresh, -, houtcome⟩ := allocateVmm_allocated s size (roundUp2MB size)
  generalize (s.allocateVmm size (roundUp2MB size)).2 = s' at houtcome ⊢
  rcases houtcome with ⟨h1, h2 | h2⟩ | ⟨h1, h2⟩
  · exact ⟨h1 ▸ h2 ▸ hs.block, h1 ▸ hs.pos, h2 ▸ hs.apart⟩
  · refine ⟨?_, h1 ▸ hs.pos, ?_⟩
    · intro p n hp
      rw [h2]
      exact List.mem_cons_of_mem _ (hs.block p n (h1 ▸ hp))
    · rw [h2]
      exact List.pairwise_cons.2 ⟨hfresh, hs.apart⟩
  · refine ⟨?_, ?_, ?_⟩
    · intro p n hp
      rw [h1, getElem?_insert_key] at hp
      rw [h2]
      split_ifs at hp with heq
      · obtain rfl := Option.some.inj hp
        subst heq
        exact List.mem_cons_self ..
      · exact List.mem_cons_of_mem _ (hs.block p n hp)
    · intro p n hp
      rw [h1, getElem?_insert_key] at hp
      split_ifs at hp with heq
      · obtain rfl := Option.some.inj hp
        omega
      · exact hs.pos p n hp
    · rw [h2]
      exact List.pairwise_cons.2 ⟨hfresh, hs.apart⟩

theorem reserved_cudaFree {s : HookedGpu} (hs : s.Reserved) (ptr : Nat) : (s.cudaFree ptr).Reserved := by
  cases hptr : s.allocatedMemory[ptr]? with
  | none =>
    rw [cudaFree_unknown hptr]
    exact hs
  | some size =>
    obtain ⟨-, htable, hreserved, -⟩ := cudaFree_freed hptr
    generalize s.cudaFree ptr = s' at htable hreserved ⊢
    have hold : ∀ p n : Nat, s'.allocatedMemory[p]? = some n → p ≠ ptr ∧ s.allocatedMemory[p]? = some n := by
      intro p n hp
      rw [htable, getElem?_erase_key] at hp
      split_ifs at hp with hne
      exact ⟨hne, hp⟩
    refine ⟨?_, fun p n hp => hs.pos p n (hold p n hp).2, ?_⟩
    · intro p n hp
      obtain ⟨hne, hp⟩ := hold p n hp
      have hmem := hs.block p n hp
      rcases hreserved with h | h
      · rw [h]
        exact hmem
      · rw [h]
        exact (List.mem_erase_of_ne fun heq => hne (congrArg Prod.fst heq)).2 hmem
    · rcases hreserved with h | h
      · rw [h]
        exact hs.apart
      · rw [h]
        exact hs.apart.sublist List.erase_sublist

end HookedGpu

end GpuCr
