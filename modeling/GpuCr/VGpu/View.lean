import GpuCr.VGpu.Plain

/-!
# What a library shows of itself

The state of a library as far as the device with checkpoints goes: its blocks, those of them that are parked,
device memory and the dump file. `Matches` ties it to a `CkptGpu`. There is one lemma for each call and each
message, about what it does to this state and the step of the device it is. How a back end comes to do that is
no matter here, so all of them are tied to the device by these lemmas.
-/

namespace GpuCr

open Lib Std

structure GpuView where
  blocks : Nat → Option Nat
  parked : Set Nat
  mem : Nat → Byte
  files : List SharedMemFile
  dump : Nat → Byte

namespace GpuView

/-- The pointers of the files. -/
def saved (v : GpuView) : Set Nat := {p | p ∈ v.files.map SharedMemFile.ptr}

/-- The blocks with physical memory, the only ones a kernel can use. -/
def usable (v : GpuView) : Set Nat := {p | (v.blocks p).isSome ∧ p ∉ v.parked}

/-- The bytes of the parked blocks are not compared, and a file may be longer than its block. -/
structure Matches (v : GpuView) (g : CkptGpu) : Prop where
  pending : g.Pending
  apart : PlainGpu.Apart v.blocks
  blocks : g.blocks = v.blocks
  parked : g.parked = v.parked
  mem : PlainGpu.AgreeOn v.blocks v.parkedᶜ v.mem g.mem
  nodup : (v.files.map SharedMemFile.ptr).Nodup
  saved : g.saved = v.saved
  image : ∀ f ∈ v.files, ∀ k c, g.dump f.ptr = some (k, c) →
    k ≤ f.size ∧ roundUp2MB k = roundUp2MB f.size ∧ ∀ i < k, v.dump (f.startOffset + i) = c i

variable {v v' : GpuView} {g : CkptGpu}

theorem mem_saved {f : SharedMemFile} (hf : f ∈ v.files) : f.ptr ∈ v.saved := List.mem_map_of_mem hf

theorem exists_file {p : Nat} (hp : p ∈ v.saved) : ∃ f ∈ v.files, f.ptr = p := List.mem_map.1 hp

theorem matches_empty (hblocks : v.blocks = fun _ => none) (hparked : v.parked = ∅) (hfiles : v.files = []) :
    v.Matches .empty := by
  refine ⟨CkptGpu.pending_empty, ?_, hblocks.symm, hparked.symm, ?_, ?_, ?_, ?_⟩
  · intro p q n m hp
    simp [hblocks] at hp
  · intro p n hp
    simp [hblocks] at hp
  · simp [hfiles]
  · simp [saved, hfiles, CkptGpu.saved, CkptGpu.empty]
  · simp [hfiles]

theorem Matches.usable (h : v.Matches g) {p n : Nat} (hp : g.blocks p = some n) : p ∈ v.usable ↔ p ∉ g.parked := by
  have hblock : (v.blocks p).isSome := by
    rw [← h.blocks, hp]
    rfl
  rw [h.parked]
  exact and_iff_right hblock

/-! ### The calls of the application -/

theorem Matches.of_app (h : v.Matches g) {g' : CkptGpu} {l : AppLabel} (happ : CkptGpu.App g l g')
    (hfiles : v'.files = v.files) (hdump : v'.dump = v.dump) (hapart : PlainGpu.Apart v'.blocks)
    (hblocks : g'.blocks = v'.blocks) (hparked : g'.parked = v'.parked)
    (hmem : PlainGpu.AgreeOn v'.blocks v'.parkedᶜ v'.mem g'.mem) : v'.Matches g' := by
  refine ⟨CkptGpu.pending_app h.pending happ, hapart, hblocks, hparked, hmem, hfiles ▸ h.nodup, ?_, ?_⟩
  · simp only [GpuView.saved, CkptGpu.saved, hfiles, happ.dump]
    exact h.saved
  · rw [hfiles, hdump, happ.dump]
    exact h.image

theorem Matches.mallocNothing (h : v.Matches g) : ∃ g', CkptGpu.App g (.cudaMalloc 0 (some 0)) g' ∧ v.Matches g' :=
  ⟨g, ⟨.mallocNothing _, fun _ _ _ heq => absurd heq (by simp), by simp, rfl⟩, h⟩

theorem Matches.malloc (h : v.Matches g) {ptr size : Nat} {mem : Nat → Byte} (hsize : 0 < size) (hptr : ptr ≠ 0)
    (hnew : v.blocks ptr = none) (happart : ∀ q n, v.blocks q = some n → ptr + size ≤ q ∨ q + n ≤ ptr)
    (hmem : PlainGpu.AgreeOn v.blocks Set.univ v.mem mem) :
    ∃ g', CkptGpu.App g (.cudaMalloc size (some ptr)) g' ∧
      Matches { v with blocks := Function.update v.blocks ptr (some size), mem := mem } g' := by
  have hold : ∀ p n, v.blocks p = some n → p ≠ ptr ∧ Function.update v.blocks ptr (some size) p = some n := by
    intro p n hp
    have hne : p ≠ ptr := by
      rintro rfl
      simp [hnew] at hp
    exact ⟨hne, (Function.update_of_ne hne _ _).trans hp⟩
  have hapart := h.apart.update happart
  let mem' := PlainGpu.overwrite (Function.update v.blocks ptr (some size)) {ptr} mem g.mem
  have hkept : PlainGpu.AgreeOn v.blocks Set.univ g.mem mem' := fun p n hp _ =>
    hapart.agreeOn_overwrite {ptr} mem g.mem p n (hold p n hp).2 (hold p n hp).1
  have happ : CkptGpu.App g (.cudaMalloc size (some ptr))
      { g with blocks := Function.update v.blocks ptr (some size), mem := mem' } := by
    refine ⟨?_, fun _ _ _ heq => absurd heq (by simp), by simp, rfl⟩
    have hblocks := h.blocks
    rw [← hblocks] at hnew happart hkept ⊢
    exact .malloc hsize hptr hnew happart hkept
  refine ⟨_, happ, h.of_app happ rfl rfl hapart rfl h.parked ?_⟩
  intro p n hp hout i hi
  by_cases hne : p = ptr
  · exact PlainGpu.agreeOn_overwrite _ {ptr} mem g.mem p n hp hne i hi
  · have hp' : v.blocks p = some n := (Function.update_of_ne hne _ _).symm.trans hp
    calc mem' (p + i) = g.mem (p + i) := hkept p n hp' (Set.mem_univ p) i hi
      _ = v.mem (p + i) := h.mem p n hp' hout i hi
      _ = mem (p + i) := (hmem p n hp' (Set.mem_univ p) i hi).symm

theorem Matches.free (h : v.Matches g) (ptr : Nat) {mem : Nat → Byte}
    (hmem : PlainGpu.AgreeOn v.blocks {ptr}ᶜ v.mem mem) :
    ∃ g', CkptGpu.App g (.cudaFree ptr) g' ∧
      Matches { v with blocks := Function.update v.blocks ptr none, parked := v.parked \ {ptr}, mem := mem } g' := by
  have hold : ∀ p n, Function.update v.blocks ptr none p = some n → p ≠ ptr ∧ v.blocks p = some n := by
    intro p n hp
    by_cases hne : p = ptr
    · simp [hne] at hp
    · exact ⟨hne, (Function.update_of_ne hne _ _).symm.trans hp⟩
  have happ : CkptGpu.App g (.cudaFree ptr)
      { g with
        blocks := Function.update g.blocks ptr none
        parked := {p ∈ g.parked | AppLabel.cudaFree ptr ≠ .cudaFree p} } :=
    ⟨.free _ ptr, fun _ _ _ heq => absurd heq (by simp), rfl, rfl⟩
  refine ⟨_, happ, h.of_app happ rfl rfl ?_ (by rw [h.blocks]) ?_ ?_⟩
  · intro p q n m hp hq hne
    exact h.apart p q n m (hold p n hp).2 (hold q m hq).2 hne
  · ext p
    simp [h.parked, eq_comm]
  · intro p n hp hout i hi
    obtain ⟨hne, hp'⟩ := hold p n hp
    rw [h.mem p n hp' (fun hin => hout ⟨hin, hne⟩) i hi]
    exact (hmem p n hp' hne i hi).symm

theorem Matches.kernel (h : v.Matches g) (mem : Nat → Byte) :
    ∃ g', CkptGpu.App g (.kernel v.usable v.mem mem) g' ∧ Matches { v with mem := mem } g' := by
  have hapart := h.apart
  have husable : ∀ {p n}, v.blocks p = some n → (p ∈ v.usable ↔ p ∉ v.parked) := fun {p n} hp =>
    h.parked ▸ h.usable ((congrFun h.blocks p).trans hp)
  have happ : CkptGpu.App g (.kernel v.usable v.mem mem)
      { g with mem := PlainGpu.overwrite v.blocks v.usable mem g.mem } := by
    refine ⟨.kernel ?_ ?_ ?_, ?_, by simp, rfl⟩
    · rw [h.blocks]
      exact fun p n hp hin i hi => (h.mem p n hp ((husable hp).1 hin) i hi).symm
    · rw [h.blocks]
      exact PlainGpu.agreeOn_overwrite _ _ _ _
    · rw [h.blocks]
      exact hapart.agreeOn_overwrite _ _ _
    · rintro touched reads writes heq
      obtain ⟨rfl, -, -⟩ := AppLabel.kernel.inj heq.symm
      exact Set.eq_empty_iff_forall_notMem.2 fun p hp => hp.1.2 (h.parked ▸ hp.2)
  refine ⟨_, happ, h.of_app happ rfl rfl hapart h.blocks h.parked ?_⟩
  intro p n hp hout
  exact PlainGpu.agreeOn_overwrite v.blocks v.usable mem g.mem p n hp ((husable hp).2 hout)

/-! ### The messages -/

/-- What a checkpoint does: the files are blocks that were not parked and are now. -/
structure Saved (v v' : GpuView) : Prop where
  blocks : v'.blocks = v.blocks
  mem : v'.mem = v.mem
  parked : v'.parked = v.parked ∪ v'.saved
  present : ∀ f ∈ v'.files, f.ptr ∉ v.parked
  nodup : (v'.files.map SharedMemFile.ptr).Nodup
  known : ∀ f ∈ v'.files, ∃ n, v.blocks f.ptr = some n ∧ n ≤ f.size ∧ roundUp2MB n = roundUp2MB f.size
  image : ∀ f ∈ v'.files, ∀ i < f.size, v'.dump (f.startOffset + i) = v.mem (f.ptr + i)

theorem Matches.save (h : v.Matches g) (hsaved : v.Saved v') : v'.Matches (g.save v'.saved) := by
  have hsub : v'.saved ⊆ g.allBlocks := by
    intro p hp
    obtain ⟨f, hf, rfl⟩ := exists_file hp
    obtain ⟨n, hn, -⟩ := hsaved.known f hf
    exact ⟨n, (congrFun h.blocks _).trans hn⟩
  have hpending := CkptGpu.pending_save h.pending hsub
  refine ⟨hpending, hsaved.blocks ▸ h.apart, h.blocks.trans hsaved.blocks.symm, ?_, ?_, hsaved.nodup, ?_, ?_⟩
  · rw [hsaved.parked, ← h.parked]
    rfl
  · rw [hsaved.blocks, hsaved.parked, hsaved.mem]
    exact h.mem.mono fun p hp hin => hp (Or.inl hin)
  · ext p
    exact CkptGpu.mem_saved_save hsub
  · intro f hf k c hdump
    obtain ⟨n, hn, hle, hround⟩ := hsaved.known f hf
    obtain ⟨hk, hc⟩ := hpending.bytes f.ptr (Or.inr (mem_saved hf)) k c hdump
    obtain rfl : k = n := Option.some.inj (hk.symm.trans ((congrFun h.blocks _).trans hn))
    refine ⟨hle, hround, fun i hi => ?_⟩
    calc v'.dump (f.startOffset + i) = v.mem (f.ptr + i) := hsaved.image f hf i (by omega)
      _ = g.mem (f.ptr + i) := (h.mem f.ptr k hn (hsaved.present f hf) i hi).symm
      _ = c i := (hc i hi).symm

theorem Matches.allBlocks_eq (h : v.Matches g) {t : ExtTreeMap Nat Nat} (ht : ∀ p, v.blocks p = t[p]?) :
    g.allBlocks = {p | p ∈ (VGpu.ckptBlocks t).map Prod.fst} := by
  ext p
  show (∃ n, g.blocks p = some n) ↔ p ∈ (VGpu.ckptBlocks t).map Prod.fst
  rw [h.blocks, ht, VGpu.ckptBlocks_ptrs, List.mem_map]
  constructor
  · rintro ⟨n, hn⟩
    exact ⟨(p, n), ExtTreeMap.mem_toList_iff_getElem?_eq_some.2 hn, rfl⟩
  · rintro ⟨b, hb, rfl⟩
    exact ⟨b.2, ExtTreeMap.mem_toList_iff_getElem?_eq_some.1 hb⟩

theorem Matches.requested_eq (h : v.Matches g) {t : ExtTreeMap Nat Nat} (ht : ∀ p, v.blocks p = t[p]?)
    (req : SelectiveCrRequest) : g.requested req = {p | p ∈ (VGpu.requestedBlocks t req).map Prod.fst} := by
  ext p
  show (∃ n, g.blocks p = some n ∧ ∃ r ∈ req.regions, p ≤ r.ptr ∧ r.ptr < p + n) ↔
    p ∈ (VGpu.requestedBlocks t req).map Prod.fst
  rw [h.blocks, ht, List.mem_map]
  constructor
  · rintro ⟨n, hn, r, hr, h1, h2⟩
    exact ⟨(p, n), VGpu.mem_requestedBlocks.2 ⟨hn, r, hr, by simp [VGpu.containsPtr, h1, h2]⟩, rfl⟩
  · rintro ⟨b, hb, rfl⟩
    obtain ⟨hn, r, hr, hin⟩ := VGpu.mem_requestedBlocks.1 hb
    simp only [VGpu.containsPtr, Bool.and_eq_true, decide_eq_true_eq] at hin
    exact ⟨b.2, hn, r, hr, hin⟩

/-- What a restore does, whether its files were parked or not. -/
structure Restored (v v' : GpuView) : Prop where
  known : ∀ f ∈ v.files, ∃ n, v.blocks f.ptr = some n
  blocks : v'.blocks = v.blocks
  parked : v'.parked = v.parked \ v.saved
  files : v'.files = v.files
  dump : v'.dump = v.dump
  content : ∀ f ∈ v.files, ∀ i < f.size, v'.mem (f.ptr + i) = v.dump (f.startOffset + i)
  kept : PlainGpu.AgreeOn v.blocks v.savedᶜ v.mem v'.mem

theorem Matches.restore (h : v.Matches g) (hback : v.Restored v') : ∃ g', CkptGpu.Restore g g' ∧ v'.Matches g' := by
  have hapart := h.apart
  let mem' := PlainGpu.overwrite v.blocks v.saved v'.mem g.mem
  have hfile : ∀ p k c, g.dump p = some (k, c) → ∃ f ∈ v.files, f.ptr = p := by
    intro p k c hdump
    have hp : p ∈ g.saved := by
      show (g.dump p).isSome
      rw [hdump]
      rfl
    exact exists_file (h.saved ▸ hp)
  have hrestore : CkptGpu.Restore g { g with mem := mem', parked := g.parked \ g.saved } := by
    refine ⟨fun p hp => ?_, rfl, fun p k c n hdump hn i hi => ?_, ?_, rfl, rfl⟩
    · obtain ⟨f, hf, rfl⟩ := exists_file (h.saved ▸ hp)
      rw [h.blocks]
      exact hback.known f hf
    · obtain ⟨f, hf, rfl⟩ := hfile p k c hdump
      obtain ⟨hle, -, hc⟩ := h.image f hf k c hdump
      calc mem' (f.ptr + i) = v'.mem (f.ptr + i) :=
            PlainGpu.agreeOn_overwrite v.blocks v.saved v'.mem g.mem f.ptr n ((congrFun h.blocks _).symm.trans hn)
              (mem_saved hf) i (by omega)
        _ = v.dump (f.startOffset + i) := hback.content f hf i (by omega)
        _ = c i := hc i (by omega)
    · rw [h.blocks, h.saved]
      exact hapart.agreeOn_overwrite _ _ _
  refine ⟨_, hrestore, CkptGpu.pending_restore h.pending hrestore, hback.blocks ▸ h.apart,
    h.blocks.trans hback.blocks.symm, ?_, ?_, hback.files ▸ h.nodup, ?_, ?_⟩
  · rw [hback.parked, h.parked, h.saved]
  · rw [hback.blocks, hback.parked]
    intro p n hn hout i hi
    by_cases hp : p ∈ v.saved
    · exact PlainGpu.agreeOn_overwrite v.blocks v.saved v'.mem g.mem p n hn hp i hi
    · calc mem' (p + i) = g.mem (p + i) := hapart.agreeOn_overwrite v.saved v'.mem g.mem p n hn hp i hi
        _ = v.mem (p + i) := h.mem p n hn (fun hin => hout ⟨hin, hp⟩) i hi
        _ = v'.mem (p + i) := (hback.kept p n hn hp i hi).symm
  · refine h.saved.trans ?_
    simp only [GpuView.saved, hback.files]
  · rw [hback.files, hback.dump]
    exact h.image

/-- A file whose block is parked is as long as that block needs. -/
theorem Matches.parked_file (h : v.Matches g) {f : SharedMemFile} (hf : f ∈ v.files) (hparked : f.ptr ∈ v.parked) :
    ∃ n, v.blocks f.ptr = some n ∧ n ≤ f.size ∧ roundUp2MB n = roundUp2MB f.size := by
  obtain ⟨⟨k, c⟩, hdump⟩ := Option.isSome_iff_exists.1 (show f.ptr ∈ g.saved from h.saved ▸ mem_saved hf)
  obtain ⟨hle, hround, -⟩ := h.image f hf k c hdump
  exact ⟨k, h.blocks ▸ (h.pending.bytes f.ptr (h.parked ▸ hparked) k c hdump).1, hle, hround⟩

/-- What the application sees: a block it can use holds the bytes it expects, and the dump has those of a
block that is parked. -/
structure ShowsApp (v : GpuView) (a : PlainGpu) : Prop where
  blocks : a.blocks = v.blocks
  usable : PlainGpu.AgreeOn a.blocks v.usable v.mem a.mem
  parked : ∀ p n, a.blocks p = some n → p ∉ v.usable →
    ∃ f ∈ v.files, f.ptr = p ∧ n ≤ f.size ∧ ∀ i < n, v.dump (f.startOffset + i) = a.mem (p + i)

theorem Matches.showsApp {a : PlainGpu} (h : v.Matches g) (hshows : g.Shows a) : v.ShowsApp a := by
  refine ⟨hshows.blocks.trans h.blocks, ?_, ?_⟩
  · intro p n hp hin i hi
    rw [hshows.blocks] at hp
    rw [hshows.mem p n hp (Set.mem_univ p) i hi]
    exact h.mem p n (h.blocks ▸ hp) hin.2 i hi
  · intro p n hp hout
    rw [hshows.blocks] at hp
    have hparked : p ∈ g.parked := by_contra fun hin => hout ((h.usable hp).2 hin)
    have hsaved := hshows.saved hparked
    obtain ⟨f, hf, rfl⟩ := exists_file (h.saved ▸ hsaved)
    obtain ⟨⟨k, c⟩, hdump⟩ := Option.isSome_iff_exists.1 hsaved
    obtain ⟨hle, -, hc⟩ := h.image f hf k c hdump
    obtain ⟨hk, hbytes⟩ := h.pending.bytes f.ptr hparked k c hdump
    obtain rfl : k = n := Option.some.inj (hk.symm.trans hp)
    refine ⟨f, hf, rfl, hle, fun i hi => ?_⟩
    calc v.dump (f.startOffset + i) = c i := hc i hi
      _ = g.mem (f.ptr + i) := hbytes i hi
      _ = a.mem (f.ptr + i) := (hshows.mem f.ptr k hp (Set.mem_univ _) i hi).symm

end GpuView

end GpuCr
