import GpuCr.VGpu.Capacity

/-!
# Repeated restores

A second restore of the same dump finds its blocks mapped, so `remapPhysicalMemory` takes its other branch:
it unmaps and releases what the block has before it maps new memory. What a restore leaves (`Holds`) says which
mappings and handles there are in terms of those the checkpoint left and of the handles of the blocks; every
remap keeps it, whether the block was parked or mapped. The driver calls of the restores are written down as the
code makes them (`remapSteps`); performed in this order they lead from driver to driver, and they unmap and release
what a block has once in each restore.
-/

namespace GpuCr

open Lib Lib.AsyncStream Lib.Run Std

namespace VGpu

/-! ### The driver calls of a restore -/

/-- What a driver is given to do, one step a call, with the handle that a creation returns; the calls of a copy loop are
one step, and so is what the application writes. -/
inductive DriverStep where
  | unmap (va size : Nat)
  | release (handle : Nat)
  | create (size handle : Nat)
  | map (va size handle : Nat)
  | setAccess (va size : Nat)
  | copy (calls : Nat) (mem : Nat → Byte)
  | write (mem : Nat → Byte)

/-- The driver after the step, if its calls succeed, a creation with this handle. -/
def DriverStep.perform (d : Driver) : DriverStep → Option Driver
  | .unmap va size => if (d.cuMemUnmap va size).1 then some (d.cuMemUnmap va size).2 else none
  | .release handle => if (d.cuMemRelease handle).1 then some (d.cuMemRelease handle).2 else none
  | .create size handle => if (d.cuMemCreate size).1 = some handle then some (d.cuMemCreate size).2 else none
  | .map va size handle => if (d.cuMemMap va size handle).1 then some (d.cuMemMap va size handle).2 else none
  | .setAccess va size => if (d.cuMemSetAccess va size).1 then some (d.cuMemSetAccess va size).2 else none
  | .copy calls mem => if (d.calls calls).1 then some { (d.calls calls).2 with mem := mem } else none
  | .write mem => some { d with mem := mem }

/-- The steps one after the other. -/
def performAll (steps : List DriverStep) (d : Driver) : Option Driver := steps.foldlM DriverStep.perform d

/-- The calls of `unmapAndRelease` up to one that fails. -/
def unmapAndReleaseSteps (s : VGpu) (ptr alignedSize : Nat) : List DriverStep :=
  .unmap ptr alignedSize ::
    match s.globalHandleMap[ptr]? with
    | none => []
    | some handle => if (s.drv.cuMemUnmap ptr alignedSize).1 then [.release handle] else []

/-- The calls of `mapNewPhysical` up to one that fails; a creation that fails has no handle to write down. -/
def mapNewPhysicalSteps (s : VGpu) (ptr alignedSize : Nat) : List DriverStep :=
  match s.drv.cuMemCreate alignedSize with
  | (none, _) => []
  | (some memHandle, drv) =>
    .create alignedSize memHandle :: .map ptr alignedSize memHandle ::
      if (drv.cuMemMap ptr alignedSize memHandle).1 then [.setAccess ptr alignedSize] else []

/-- The calls of `remapPhysicalMemory`. -/
def remapSteps (s : VGpu) (ptr size : Nat) : List DriverStep :=
  match s.allocatedMemory[ptr]? with
  | none => []
  | some oldSize =>
    if s.globalHandleMap[ptr]?.isSome then
      s.unmapAndReleaseSteps ptr (roundUp2MB oldSize) ++
        match s.unmapAndRelease ptr (roundUp2MB oldSize) with
        | none => []
        | some s => s.mapNewPhysicalSteps ptr (roundUp2MB size)
    else s.mapNewPhysicalSteps ptr (roundUp2MB size)

/-- The calls of the remap loop. -/
def remapAllSteps : List SharedMemFile → VGpu → List DriverStep
  | [], _ => []
  | f :: files, s =>
    s.remapSteps f.ptr f.size ++
      match s.remapPhysicalMemory f.ptr f.size with
      | .error _ => []
      | .ok s => remapAllSteps files s

section Steps
variable {s s' : VGpu} {d d' : Driver}

theorem performAll_append {steps steps' : List DriverStep} (h : performAll steps d = some d') :
    performAll (steps ++ steps') d = performAll steps' d' := by
  unfold performAll at *
  rw [List.foldlM_append, h]
  rfl

theorem mapNewPhysical_steps {ptr alignedSize : Nat} (h : s.mapNewPhysical ptr alignedSize = .ok s') :
    performAll (s.mapNewPhysicalSteps ptr alignedSize) s.drv = some s'.drv ∧
      ∃ handle, s'.globalHandleMap[ptr]? = some handle ∧
        s.mapNewPhysicalSteps ptr alignedSize =
          [.create alignedSize handle, .map ptr alignedSize handle, .setAccess ptr alignedSize] := by
  unfold mapNewPhysical at h
  unfold mapNewPhysicalSteps
  cases hcreate : s.drv.cuMemCreate alignedSize with
  | mk result drv =>
    rw [hcreate] at h
    cases result with
    | none => exact absurd h (by simp)
    | some memHandle =>
      dsimp only at h ⊢
      split_ifs at h with hmap haccess
      obtain rfl := Except.ok.inj h
      simp only [Bool.not_eq_true, Bool.not_eq_false'] at hmap haccess
      rw [if_pos hmap]
      refine ⟨?_, memHandle, ExtTreeMap.getElem?_insert_self, rfl⟩
      simp only [performAll, List.foldlM_cons, List.foldlM_nil, DriverStep.perform, hcreate, hmap, haccess, if_true,
        Option.bind_eq_bind, Option.bind_some]
      rfl

theorem unmapAndRelease_steps {ptr size handle : Nat} (hh : s.globalHandleMap[ptr]? = some handle)
    (h : s.unmapAndRelease ptr size = some s') :
    performAll (s.unmapAndReleaseSteps ptr size) s.drv = some s'.drv ∧
      s.unmapAndReleaseSteps ptr size = [.unmap ptr size, .release handle] := by
  unfold unmapAndRelease at h
  unfold unmapAndReleaseSteps
  dsimp only at h
  rw [hh] at h ⊢
  split_ifs at h with hunmap
  dsimp only at h ⊢
  split_ifs at h with hrelease
  obtain rfl := Option.some.inj h
  simp only [Bool.not_eq_true, Bool.not_eq_false'] at hunmap hrelease
  rw [if_pos hunmap]
  refine ⟨?_, rfl⟩
  simp only [performAll, List.foldlM_cons, List.foldlM_nil, DriverStep.perform, hunmap, hrelease, if_true,
    Option.bind_eq_bind, Option.bind_some]
  rfl

/-- What a remap has the driver do to a file that has the handle `old`, if any. -/
def swapSteps (f : SharedMemFile) (old : Option Nat) (new : Nat) : List DriverStep :=
  (old.elim [] fun handle => [.unmap f.ptr (roundUp2MB f.size), .release handle]) ++
    [.create (roundUp2MB f.size) new, .map f.ptr (roundUp2MB f.size) new, .setAccess f.ptr (roundUp2MB f.size)]

theorem remap_steps {f : SharedMemFile} {n : Nat} (hn : s.allocatedMemory[f.ptr]? = some n)
    (hsize : roundUp2MB n = roundUp2MB f.size) (h : s.remapPhysicalMemory f.ptr f.size = .ok s') :
    performAll (s.remapSteps f.ptr f.size) s.drv = some s'.drv ∧
      ∃ new, s'.globalHandleMap[f.ptr]? = some new ∧
        s.remapSteps f.ptr f.size = swapSteps f s.globalHandleMap[f.ptr]? new := by
  unfold remapPhysicalMemory at h
  unfold remapSteps
  rw [hn] at h ⊢
  dsimp only at h ⊢
  rw [hsize] at h ⊢
  cases hh : s.globalHandleMap[f.ptr]? with
  | none =>
    rw [hh, Option.isSome_none, if_neg Bool.false_ne_true] at h
    rw [Option.isSome_none, if_neg Bool.false_ne_true]
    exact mapNewPhysical_steps h
  | some handle =>
    rw [hh, Option.isSome_some, if_pos rfl] at h
    rw [Option.isSome_some, if_pos rfl]
    cases hrelease : s.unmapAndRelease f.ptr (roundUp2MB f.size) with
    | none =>
      rw [hrelease] at h
      exact absurd h (by simp)
    | some s₁ =>
      rw [hrelease] at h
      obtain ⟨hdrop, hdropSteps⟩ := unmapAndRelease_steps hh hrelease
      obtain ⟨hmap, new, hnew, hmapSteps⟩ := mapNewPhysical_steps h
      dsimp only
      rw [performAll_append hdrop]
      exact ⟨hmap, new, hnew, by rw [hdropSteps, hmapSteps]; rfl⟩

end Steps

/-! ### What a restore holds -/

/-- The mappings and the live handles are those of `d₀` and those the files have in the handle map, each file its
own. -/
structure Holds (d₀ : Driver) (files : List SharedMemFile) (s : VGpu) : Prop where
  known : ∀ f ∈ files, ∃ n, s.allocatedMemory[f.ptr]? = some n ∧ roundUp2MB n = roundUp2MB f.size
  pos : ∀ f ∈ files, 0 < roundUp2MB f.size
  free : ∀ f ∈ files, ∀ m ∈ d₀.maps, f.ptr + roundUp2MB f.size ≤ m.va ∨ m.va + m.size ≤ f.ptr
  apart : files.Pairwise fun f g => f.ptr + roundUp2MB f.size ≤ g.ptr ∨ g.ptr + roundUp2MB g.size ≤ f.ptr
  maps : ∀ m, m ∈ s.drv.maps ↔ m ∈ d₀.maps ∨ ∃ f ∈ files, ∃ h, s.globalHandleMap[f.ptr]? = some h ∧ m = blockOf f h
  live : ∀ k, s.drv.isLive k = true ↔ d₀.isLive k = true ∨ ∃ f ∈ files, s.globalHandleMap[f.ptr]? = some k
  fresh : ∀ f ∈ files, ∀ h, s.globalHandleMap[f.ptr]? = some h → d₀.isLive h = false
  distinct : ∀ f ∈ files, ∀ g ∈ files, ∀ h, s.globalHandleMap[f.ptr]? = some h → s.globalHandleMap[g.ptr]? = some h →
    f.ptr = g.ptr

/-- What neither remaps nor copies back change. -/
structure HostKept (s s' : VGpu) : Prop where
  env : s'.drv.env = s.drv.env
  allocatedMemory : s'.allocatedMemory = s.allocatedMemory
  fs : s'.fs = s.fs
  dump : s'.dump = s.dump

theorem HostKept.refl (s : VGpu) : HostKept s s := ⟨rfl, rfl, rfl, rfl⟩

theorem HostKept.trans {s s' s'' : VGpu} (h : HostKept s s') (h' : HostKept s' s'') : HostKept s s'' :=
  ⟨h'.env.trans h.env, h'.allocatedMemory.trans h.allocatedMemory, h'.fs.trans h.fs, h'.dump.trans h.dump⟩

section Holds
variable {d₀ : Driver} {files : List SharedMemFile} {s : VGpu} {f : SharedMemFile}

theorem Holds.apart_of_ne (hs : Holds d₀ files s) (hf : f ∈ files) {g : SharedMemFile} (hg : g ∈ files)
    (hne : f.ptr ≠ g.ptr) : f.ptr + roundUp2MB f.size ≤ g.ptr ∨ g.ptr + roundUp2MB g.size ≤ f.ptr := by
  have : Std.Symm fun f g : SharedMemFile =>
      f.ptr + roundUp2MB f.size ≤ g.ptr ∨ g.ptr + roundUp2MB g.size ≤ f.ptr := ⟨fun _ _ h => h.symm⟩
  refine hs.apart.forall hf hg ?_
  rintro rfl
  exact hne rfl

theorem Holds.eq_of_ptr (hs : Holds d₀ files s) (hf : f ∈ files) {g : SharedMemFile} (hg : g ∈ files)
    (heq : f.ptr = g.ptr) : f = g := by
  have : Std.Symm fun f g : SharedMemFile =>
      f.ptr + roundUp2MB f.size ≤ g.ptr ∨ g.ptr + roundUp2MB g.size ≤ f.ptr := ⟨fun _ _ h => h.symm⟩
  by_contra hne
  have hapart := hs.apart.forall hf hg hne
  have := hs.pos f hf
  have := hs.pos g hg
  omega

theorem Holds.va_ne (hs : Holds d₀ files s) (hf : f ∈ files) {m : Mapping} (hm : m ∈ d₀.maps) : m.va ≠ f.ptr := by
  have := hs.free f hf m hm
  have := hs.pos f hf
  have := d₀.maps_pos m hm
  omega

theorem Holds.drop (hs : Holds d₀ files s) (hf : f ∈ files) {h : Nat} (hh : s.globalHandleMap[f.ptr]? = some h)
    {drv : Driver} (hun : Unmapped s.drv drv f.ptr h) :
    Holds d₀ files { s with drv := drv, globalHandleMap := s.globalHandleMap.erase f.ptr } := by
  have herase : ∀ q k : Nat, (s.globalHandleMap.erase f.ptr)[q]? = some k ↔
      q ≠ f.ptr ∧ s.globalHandleMap[q]? = some k := by
    intro q k
    rw [getElem?_erase_key]
    split_ifs with hq
    · simp [hq]
    · simp [hq]
  refine ⟨hs.known, hs.pos, hs.free, hs.apart, fun m => ?_, fun k => ?_, fun g hg k hk => ?_, fun g hg g' hg' k hk hk' => ?_⟩
  · rw [hun.maps, hs.maps]
    constructor
    · rintro ⟨hm | ⟨g, hg, k, hk, rfl⟩, hva⟩
      · exact Or.inl hm
      · exact Or.inr ⟨g, hg, k, (herase _ _).2 ⟨hva, hk⟩, rfl⟩
    · rintro (hm | ⟨g, hg, k, hk, rfl⟩)
      · exact ⟨Or.inl hm, hs.va_ne hf hm⟩
      · exact ⟨Or.inr ⟨g, hg, k, ((herase _ _).1 hk).2, rfl⟩, ((herase _ _).1 hk).1⟩
  · rw [hun.live, Bool.and_eq_true, bne_iff_ne, hs.live]
    constructor
    · rintro ⟨hk | ⟨g, hg, hk⟩, hne⟩
      · exact Or.inl hk
      · refine Or.inr ⟨g, hg, (herase _ _).2 ⟨fun heq => hne ?_, hk⟩⟩
        rw [heq] at hk
        exact Option.some.inj (hk.symm.trans hh)
    · rintro (hk | ⟨g, hg, hk⟩)
      · refine ⟨Or.inl hk, ?_⟩
        rintro rfl
        exact Bool.false_ne_true ((hs.fresh f hf _ hh).symm.trans hk)
      · obtain ⟨hne, hk⟩ := (herase _ _).1 hk
        refine ⟨Or.inr ⟨g, hg, hk⟩, ?_⟩
        rintro rfl
        exact hne (hs.distinct g hg f hf _ hk hh)
  · exact hs.fresh g hg k ((herase _ _).1 hk).2
  · exact hs.distinct g hg g' hg' k ((herase _ _).1 hk).2 ((herase _ _).1 hk').2

theorem Holds.map (hs : Holds d₀ files s) (hf : f ∈ files) (hnone : s.globalHandleMap[f.ptr]? = none) {h : Nat}
    {drv : Driver} (hre : Remapped s.drv drv f.ptr (roundUp2MB f.size) h) :
    Holds d₀ files { s with drv := drv, globalHandleMap := s.globalHandleMap.insert f.ptr h } := by
  have hinsert : ∀ q k : Nat, (s.globalHandleMap.insert f.ptr h)[q]? = some k ↔
      (q = f.ptr ∧ k = h) ∨ s.globalHandleMap[q]? = some k := by
    intro q k
    rw [getElem?_insert_key]
    split_ifs with hq
    · rw [hq, hnone, Option.some.injEq]
      simp [eq_comm]
    · simp [hq]
  -- the new handle is none that is live
  have hdead : ¬ (d₀.isLive h = true ∨ ∃ g ∈ files, s.globalHandleMap[g.ptr]? = some h) := by
    rw [← hs.live, hre.fresh]
    exact Bool.false_ne_true
  refine ⟨hs.known, hs.pos, hs.free, hs.apart, fun m => ?_, fun k => ?_, fun g hg k hk => ?_, fun g hg g' hg' k hk hk' => ?_⟩
  · rw [hre.maps, hs.maps]
    constructor
    · rintro (rfl | hm | ⟨g, hg, k, hk, rfl⟩)
      · exact Or.inr ⟨f, hf, h, (hinsert _ _).2 (Or.inl ⟨rfl, rfl⟩), rfl⟩
      · exact Or.inl hm
      · exact Or.inr ⟨g, hg, k, (hinsert _ _).2 (Or.inr hk), rfl⟩
    · rintro (hm | ⟨g, hg, k, hk, rfl⟩)
      · exact Or.inr (Or.inl hm)
      · rcases (hinsert _ _).1 hk with ⟨hptr, rfl⟩ | hk
        · obtain rfl := hs.eq_of_ptr hg hf hptr
          exact Or.inl rfl
        · exact Or.inr (Or.inr ⟨g, hg, k, hk, rfl⟩)
  · rw [hre.live, Bool.or_eq_true, beq_iff_eq, hs.live]
    constructor
    · rintro ((hk | ⟨g, hg, hk⟩) | rfl)
      · exact Or.inl hk
      · exact Or.inr ⟨g, hg, (hinsert _ _).2 (Or.inr hk)⟩
      · exact Or.inr ⟨f, hf, (hinsert _ _).2 (Or.inl ⟨rfl, rfl⟩)⟩
    · rintro (hk | ⟨g, hg, hk⟩)
      · exact Or.inl (Or.inl hk)
      · rcases (hinsert _ _).1 hk with ⟨-, rfl⟩ | hk
        · exact Or.inr rfl
        · exact Or.inl (Or.inr ⟨g, hg, hk⟩)
  · rcases (hinsert _ _).1 hk with ⟨-, rfl⟩ | hk
    · exact Bool.not_eq_true _ ▸ fun hlive => hdead (Or.inl hlive)
    · exact hs.fresh g hg k hk
  · rcases (hinsert _ _).1 hk with ⟨hg1, rfl⟩ | hk1 <;> rcases (hinsert _ _).1 hk' with ⟨hg2, h2⟩ | hk2
    · rw [hg1, hg2]
    · exact absurd (Or.inr ⟨g', hg', hk2⟩) hdead
    · exact absurd (Or.inr ⟨g, hg, h2 ▸ hk1⟩) hdead
    · exact hs.distinct g hg g' hg' k hk1 hk2

theorem Holds.remap (hs : Holds d₀ files s) (henv : s.drv.env.Reliable) (hf : f ∈ files) :
    ∃ s' h, s.remapPhysicalMemory f.ptr f.size = .ok s' ∧ Holds d₀ files s' ∧ HostKept s s' ∧
      ∀ q : Nat, s'.globalHandleMap[q]? = if q = f.ptr then some h else s.globalHandleMap[q]? := by
  have hnew : ∀ t : VGpu, Holds d₀ files t → t.drv.env.Reliable → t.globalHandleMap[f.ptr]? = none →
      ∃ s' h, t.mapNewPhysical f.ptr (roundUp2MB f.size) = .ok s' ∧ Holds d₀ files s' ∧ HostKept t s' ∧
        ∀ q : Nat, s'.globalHandleMap[q]? = if q = f.ptr then some h else t.globalHandleMap[q]? := by
    intro t ht henv hnone
    have hfree : ∀ m ∈ t.drv.maps, f.ptr + roundUp2MB f.size ≤ m.va ∨ m.va + m.size ≤ f.ptr := by
      intro m hm
      rcases (ht.maps m).1 hm with hm | ⟨g, hg, k, hk, rfl⟩
      · exact ht.free f hf m hm
      · refine ht.apart_of_ne hf hg fun heq => ?_
        rw [← heq, hnone] at hk
        exact absurd hk (by simp)
    obtain ⟨drv, h, hmap, hre⟩ := mapNewPhysical_spec henv (ht.pos f hf) hfree
    exact ⟨_, h, hmap, ht.map hf hnone hre, ⟨hre.env, rfl, rfl, rfl⟩, getElem?_insert_key _ _ _⟩
  obtain ⟨n, htab, hsize⟩ := hs.known f hf
  unfold remapPhysicalMemory
  rw [htab]
  dsimp only
  cases hh : s.globalHandleMap[f.ptr]? with
  | none =>
    rw [Option.isSome_none, if_neg Bool.false_ne_true]
    exact hnew s hs henv hh
  | some h =>
    rw [Option.isSome_some, if_pos rfl, hsize]
    have hmap : blockOf f h ∈ s.drv.maps := (hs.maps _).2 (Or.inr ⟨f, hf, h, hh, rfl⟩)
    have hlive : s.drv.isLive h = true := (hs.live h).2 (Or.inr ⟨f, hf, hh⟩)
    obtain ⟨drv, hrelease, hun⟩ := unmapAndRelease_spec henv hh hmap hlive
    rw [hrelease]
    dsimp only
    have hnone : (s.globalHandleMap.erase f.ptr)[f.ptr]? = none := ExtTreeMap.getElem?_erase_self
    obtain ⟨s', h', hok, hs', hsame, hhandles⟩ := hnew _ (hs.drop hf hh hun) (hun.env ▸ henv) hnone
    refine ⟨s', h', hok, hs', ⟨hsame.env.trans hun.env, hsame.allocatedMemory, hsame.fs, hsame.dump⟩, fun q => ?_⟩
    rw [hhandles]
    split_ifs with hq
    · rfl
    · exact (getElem?_erase_key _ _ _).trans (if_neg hq)

end Holds

/-! ### The loops -/

section Loops
variable {d₀ : Driver} {files : List SharedMemFile}

/-- The remap loop over files with different pointers: each file that had a handle gives it up, and gets one. -/
theorem Holds.remapAll {rest : List SharedMemFile} {s : VGpu} (hs : Holds d₀ files s) (henv : s.drv.env.Reliable)
    (hrest : ∀ f ∈ rest, f ∈ files) (hnodup : (rest.map SharedMemFile.ptr).Nodup) :
    ∃ s', VGpu.remapAll rest s = .ok s' ∧ Holds d₀ files s' ∧ HostKept s s' ∧
      (∀ q : Nat, q ∉ rest.map SharedMemFile.ptr → s'.globalHandleMap[q]? = s.globalHandleMap[q]?) ∧
      (∀ f ∈ rest, s'.globalHandleMap[f.ptr]?.isSome) ∧
      performAll (remapAllSteps rest s) s.drv = some s'.drv ∧
      remapAllSteps rest s =
        rest.flatMap fun f => swapSteps f s.globalHandleMap[f.ptr]? (s'.globalHandleMap.getD f.ptr 0) := by
  induction rest generalizing s with
  | nil => exact ⟨s, rfl, hs, HostKept.refl s, fun _ _ => rfl, by simp, rfl, rfl⟩
  | cons f rest ih =>
    rw [List.map_cons, List.nodup_cons] at hnodup
    have hf : f ∈ files := hrest f (List.mem_cons_self ..)
    obtain ⟨s₁, h, hremap, hs₁, hsame, hhandles⟩ := hs.remap henv hf
    obtain ⟨s', hloop, hs', hsame', hout, hin, hperform, hsteps⟩ :=
      ih hs₁ (hsame.env ▸ henv) (fun g hg => hrest g (List.mem_cons_of_mem _ hg)) hnodup.2
    obtain ⟨n, hn, hsize⟩ := hs.known f hf
    obtain ⟨hperform₁, new, hnew, hsteps₁⟩ := remap_steps hn hsize hremap
    have hfirst : s'.globalHandleMap[f.ptr]? = some new := by
      rw [hout _ hnodup.1, hnew]
    -- the other files still have what they had before the first remap
    have hlater : ∀ g ∈ rest, s₁.globalHandleMap[g.ptr]? = s.globalHandleMap[g.ptr]? := by
      intro g hg
      rw [hhandles, if_neg]
      intro heq
      exact hnodup.1 (heq ▸ List.mem_map_of_mem hg)
    have hcalls : remapAllSteps (f :: rest) s = s.remapSteps f.ptr f.size ++ remapAllSteps rest s₁ := by
      rw [remapAllSteps, hremap]
    refine ⟨s', ?_, hs', hsame.trans hsame', fun q hq => ?_, ?_, ?_, ?_⟩
    · unfold VGpu.remapAll at hloop ⊢
      rw [List.foldlM_cons, hremap]
      exact hloop
    · rw [List.map_cons, List.mem_cons, not_or] at hq
      rw [hout q hq.2, hhandles, if_neg hq.1]
    · intro g hg
      rcases List.mem_cons.1 hg with rfl | hg
      · rw [hfirst]
        rfl
      · exact hin g hg
    · rw [hcalls, performAll_append hperform₁]
      exact hperform
    · rw [hcalls, hsteps₁, hsteps, List.flatMap_cons, ExtTreeMap.getD_eq_getD_getElem?, hfirst, Option.getD_some]
      congr 1
      apply List.flatMap_congr
      intro g hg
      rw [hlater g hg]

end Loops

/-! ### The runs -/

section Runs
variable {offset : Nat} {blocks : List (Nat × Nat)} {s₁ s : VGpu}

end Runs

theorem Dumped.holds {blocks : List (Nat × Nat)} {s s₁ : VGpu} (hd : Dumpable blocks s) (h : Dumped blocks s s₁) :
    Holds s₁.drv s₁.fs.fileList s₁ := by
  have hp := h.parked hd
  have hnone : ∀ f ∈ s₁.fs.fileList, ∀ k, s₁.globalHandleMap[f.ptr]? ≠ some k := by
    intro f hf k
    rw [hp.unhandled f hf]
    simp
  refine ⟨fun f hf => ?_, hp.pos, hp.free, hp.apart, fun m => ?_, fun k => ?_, fun f hf k hk => ?_,
    fun f hf _ _ k hk => ?_⟩
  · have hf' := hf
    rw [h.fileList] at hf'
    obtain ⟨n, hn, hround⟩ := hd.mapped _ (mem_of_mem_layout hf')
    rw [h.allocatedMemory]
    exact ⟨n, hn.1, hround.symm⟩
  · refine ⟨Or.inl, ?_⟩
    rintro (hm | ⟨f, hf, k, hk, -⟩)
    · exact hm
    · exact absurd hk (hnone f hf k)
  · refine ⟨Or.inl, ?_⟩
    rintro (hk | ⟨f, hf, hk⟩)
    · exact hk
    · exact absurd hk (hnone f hf k)
  · exact absurd hk (hnone f hf k)
  · exact absurd hk (hnone f hf k)

theorem dumped_of_ckpt {shmSize : Nat} {s s₁ : VGpu} (h : s.ckpt shmSize = .ok s₁) :
    Dumped (ckptBlocks s.allocatedMemory) s s₁ := by
  obtain ⟨⟨cmds, fs⟩, hcmds, h⟩ := bind_eq_ok.1 h
  obtain ⟨s₀, hloop, hrelease⟩ := bind_eq_ok.1 h
  have htab : s₀.allocatedMemory = s.allocatedMemory := by
    obtain ⟨-, rfl⟩ := runCopyLoop_inv hloop
    rfl
  rw [htab, ← ckptBlocks_ptrs] at hrelease
  exact dumped_of_ok hcmds hloop hrelease

end VGpu

end GpuCr
