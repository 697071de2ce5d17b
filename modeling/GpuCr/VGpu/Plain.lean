import GpuCr.Lib.Simulation
import GpuCr.VGpu.Messages
import Mathlib.Data.Set.Piecewise

/-!
# What checkpoints are for

Two machines that know nothing of handles, mappings or files. `PlainGpu` is the device the application
believes it has: blocks, and bytes in them. `CkptGpu` is the same device with the messages: a checkpoint
saves blocks and parks them, a restore brings back what the last checkpoint saved, however long ago that
was. A restore of blocks that are not parked rolls them back, and a block that is parked when another
checkpoint replaces the dump is lost.

Where neither happens (`CkptGpu.Orderly`), the messages cannot be told from doing nothing
(`orderly_simulates`).
-/

namespace GpuCr

open Lib Lib.Simulation

/-! ### The device without checkpoints -/

/-- A call of the application with all that it learns from it. A kernel reads and writes the blocks it
touches. -/
inductive AppLabel where
  | cudaMalloc (size : Nat) (ptr : Option Nat)
  | cudaFree (ptr : Nat)
  | kernel (touched : Set Nat) (reads writes : Nat → Byte)

/-- The blocks with their sizes, and the bytes by address. Bytes outside the blocks mean nothing. -/
structure PlainGpu where
  blocks : Nat → Option Nat
  mem : Nat → Byte

namespace PlainGpu

def empty : PlainGpu := ⟨fun _ => none, fun _ => 0⟩

/-- The bytes of the blocks whose pointers are in `ptrs` are the same. -/
def AgreeOn (blocks : Nat → Option Nat) (ptrs : Set Nat) (mem mem' : Nat → Byte) : Prop :=
  ∀ p n, blocks p = some n → p ∈ ptrs → ∀ i < n, mem' (p + i) = mem (p + i)

theorem AgreeOn.refl (blocks : Nat → Option Nat) (ptrs : Set Nat) (mem : Nat → Byte) :
    AgreeOn blocks ptrs mem mem := fun _ _ _ _ _ _ => rfl

theorem AgreeOn.symm {blocks : Nat → Option Nat} {ptrs : Set Nat} {mem mem' : Nat → Byte}
    (h : AgreeOn blocks ptrs mem mem') : AgreeOn blocks ptrs mem' mem :=
  fun p n hp hin i hi => (h p n hp hin i hi).symm

theorem AgreeOn.trans {blocks : Nat → Option Nat} {ptrs : Set Nat} {mem mem' mem'' : Nat → Byte}
    (h : AgreeOn blocks ptrs mem mem') (h' : AgreeOn blocks ptrs mem' mem'') : AgreeOn blocks ptrs mem mem'' :=
  fun p n hp hin i hi => (h' p n hp hin i hi).trans (h p n hp hin i hi)

theorem AgreeOn.mono {blocks : Nat → Option Nat} {ptrs ptrs' : Set Nat} {mem mem' : Nat → Byte}
    (h : AgreeOn blocks ptrs mem mem') (hsub : ptrs' ⊆ ptrs) : AgreeOn blocks ptrs' mem mem' :=
  fun p n hp hin => h p n hp (hsub hin)

/-- The addresses of the blocks in `ptrs`. -/
def bytes (blocks : Nat → Option Nat) (ptrs : Set Nat) : Set Nat :=
  {a | ∃ p n, blocks p = some n ∧ p ∈ ptrs ∧ p ≤ a ∧ a < p + n}

open Classical in
/-- The blocks in `ptrs` get new bytes. -/
noncomputable def overwrite (blocks : Nat → Option Nat) (ptrs : Set Nat) (new old : Nat → Byte) : Nat → Byte :=
  (bytes blocks ptrs).piecewise new old

/-- The blocks do not overlap. -/
def Apart (blocks : Nat → Option Nat) : Prop :=
  ∀ p q n m, blocks p = some n → blocks q = some m → p ≠ q → p + n ≤ q ∨ q + m ≤ p

theorem Apart.update {blocks : Nat → Option Nat} (hapart : Apart blocks) {ptr size : Nat}
    (hnew : ∀ q n, blocks q = some n → ptr + size ≤ q ∨ q + n ≤ ptr) :
    Apart (Function.update blocks ptr (some size)) := by
  intro p q n m hp hq hne
  rw [Function.update_apply] at hp hq
  split_ifs at hp hq with h1 h2 h2
  · exact absurd (h1.trans h2.symm) hne
  · obtain rfl := Option.some.inj hp
    subst h1
    exact hnew q m hq
  · obtain rfl := Option.some.inj hq
    subst h2
    exact (hnew p n hp).symm
  · exact hapart p q n m hp hq hne

theorem agreeOn_overwrite (blocks : Nat → Option Nat) (ptrs : Set Nat) (new old : Nat → Byte) :
    AgreeOn blocks ptrs new (overwrite blocks ptrs new old) := by
  classical
  intro p n hp hin i hi
  exact Set.piecewise_eq_of_mem _ _ _ ⟨p, n, hp, hin, by omega, by omega⟩

theorem Apart.agreeOn_overwrite {blocks : Nat → Option Nat} (hapart : Apart blocks) (ptrs : Set Nat)
    (new old : Nat → Byte) : AgreeOn blocks ptrsᶜ old (overwrite blocks ptrs new old) := by
  classical
  intro p n hp hout i hi
  refine Set.piecewise_eq_of_notMem _ _ _ ?_
  rintro ⟨q, m, hq, hin, h1, h2⟩
  have hne : p ≠ q := by
    rintro rfl
    exact hout hin
  have := hapart p q n m hp hq hne
  omega

/-- What a call does. A new block overlaps no other one and holds anything. -/
inductive Step : PlainGpu → AppLabel → PlainGpu → Prop
  | mallocNothing (g : PlainGpu) : Step g (.cudaMalloc 0 (some 0)) g
  | malloc {g : PlainGpu} {size ptr : Nat} {mem : Nat → Byte} (hsize : 0 < size) (hptr : ptr ≠ 0)
      (hfresh : g.blocks ptr = none) (happart : ∀ q n, g.blocks q = some n → ptr + size ≤ q ∨ q + n ≤ ptr)
      (hkept : AgreeOn g.blocks Set.univ g.mem mem) :
      Step g (.cudaMalloc size (some ptr)) ⟨Function.update g.blocks ptr (some size), mem⟩
  | free (g : PlainGpu) (ptr : Nat) : Step g (.cudaFree ptr) { g with blocks := Function.update g.blocks ptr none }
  | kernel {g : PlainGpu} {touched : Set Nat} {reads writes mem : Nat → Byte}
      (hreads : AgreeOn g.blocks touched g.mem reads) (hwrites : AgreeOn g.blocks touched writes mem)
      (hkept : AgreeOn g.blocks touchedᶜ g.mem mem) : Step g (.kernel touched reads writes) { g with mem := mem }

section Step
variable {g g' : PlainGpu} {l : AppLabel}

theorem Step.block (h : Step g l g') {p n : Nat} (hn : g.blocks p = some n) (hfree : l ≠ .cudaFree p)
    (huntouched : ∀ touched reads writes, l = .kernel touched reads writes → p ∉ touched) :
    g'.blocks p = some n ∧ ∀ i < n, g'.mem (p + i) = g.mem (p + i) := by
  cases h with
  | mallocNothing => exact ⟨hn, fun _ _ => rfl⟩
  | @malloc size ptr _ _ _ hfresh _ hkept =>
    have hne : p ≠ ptr := by
      rintro rfl
      rw [hfresh] at hn
      exact absurd hn (by simp)
    exact ⟨(Function.update_of_ne hne _ _).trans hn, hkept p n hn (Set.mem_univ p)⟩
  | free ptr =>
    have hne : p ≠ ptr := by
      rintro rfl
      exact hfree rfl
    exact ⟨(Function.update_of_ne hne _ _).trans hn, fun _ _ => rfl⟩
  | kernel _ _ hkept => exact ⟨hn, hkept p n hn (huntouched _ _ _ rfl)⟩

/-- A step can be taken from every device with the same blocks and bytes. -/
theorem Step.congr (h : Step g l g') {a : PlainGpu} (hblocks : a.blocks = g.blocks)
    (hmem : AgreeOn g.blocks Set.univ g.mem a.mem) : ∃ a', Step a l a' ∧ a'.blocks = g'.blocks ∧
      AgreeOn g'.blocks Set.univ g'.mem a'.mem := by
  obtain ⟨blocks, mem⟩ := a
  dsimp only at hblocks hmem
  subst hblocks
  cases h with
  | mallocNothing => exact ⟨_, .mallocNothing _, rfl, hmem⟩
  | malloc hsize hptr hfresh happart hkept =>
    exact ⟨_, .malloc hsize hptr hfresh happart (hmem.symm.trans hkept), rfl, .refl _ _ _⟩
  | free ptr =>
    refine ⟨_, .free _ ptr, rfl, fun p n hn hp => hmem p n ?_ hp⟩
    by_cases hne : p = ptr
    · subst hne
      simp at hn
    · exact (Function.update_of_ne hne _ _).symm.trans hn
  | kernel hreads hwrites hkept =>
    refine ⟨_, .kernel ?_ hwrites ?_, rfl, .refl _ _ _⟩
    · exact (hmem.mono (Set.subset_univ _)).symm.trans hreads
    · exact (hmem.mono (Set.subset_univ _)).symm.trans hkept

end Step

end PlainGpu

/-! ### The device with checkpoints -/

inductive GpuLabel where
  | app (l : AppLabel)
  | msg (m : GpuMsg)

/-- The application does not see the messages. -/
def GpuLabel.hideMsg : GpuLabel → Option AppLabel
  | .app l => some l
  | .msg _ => none

/-- The blocks in `parked` have no memory, and `mem` is what they held when they were parked. The last
checkpoint has saved the bytes of `dump`, with the size the block had. -/
structure CkptGpu extends PlainGpu where
  parked : Set Nat
  dump : Nat → Option (Nat × (Nat → Byte))

namespace CkptGpu

def empty : CkptGpu := ⟨.empty, ∅, fun _ => none⟩

/-- The pointers of the blocks. -/
def allBlocks (g : CkptGpu) : Set Nat := {p | ∃ n, g.blocks p = some n}

/-- The blocks that contain a pointer of the request. -/
def requested (g : CkptGpu) (req : SelectiveCrRequest) : Set Nat :=
  {p | ∃ n, g.blocks p = some n ∧ ∃ r ∈ req.regions, p ≤ r.ptr ∧ r.ptr < p + n}

open Classical in
/-- The blocks of `ptrs` are saved, in place of what was saved before, and parked. -/
noncomputable def save (g : CkptGpu) (ptrs : Set Nat) : CkptGpu :=
  { g with
    parked := g.parked ∪ ptrs
    dump := fun p => if p ∈ ptrs then (g.blocks p).map fun n => (n, fun i => g.mem (p + i)) else none }

/-- The pointers of the dump. -/
def saved (g : CkptGpu) : Set Nat := {p | (g.dump p).isSome}

/-- What was saved is back, wherever it fits. Whether a block was parked makes no difference. -/
structure Restore (g g' : CkptGpu) : Prop where
  known : ∀ p ∈ g.saved, ∃ n, g.blocks p = some n
  blocks : g'.blocks = g.blocks
  back : ∀ p k c n, g.dump p = some (k, c) → g.blocks p = some n → ∀ i < min k n, g'.mem (p + i) = c i
  kept : PlainGpu.AgreeOn g.blocks g.savedᶜ g.mem g'.mem
  parked : g'.parked = g.parked \ g.saved
  dump : g'.dump = g.dump

/-- The application sees a plain device of which it can use the blocks that are not parked; a parked block
that it frees is not parked any more. -/
structure App (g : CkptGpu) (l : AppLabel) (g' : CkptGpu) : Prop where
  step : PlainGpu.Step g.toPlainGpu l g'.toPlainGpu
  unparked : ∀ touched reads writes, l = .kernel touched reads writes → touched ∩ g.parked = ∅
  parked : g'.parked = {p ∈ g.parked | l ≠ .cudaFree p}
  dump : g'.dump = g.dump

inductive Step : CkptGpu → GpuLabel → CkptGpu → Prop
  | app {g g' : CkptGpu} {l : AppLabel} (h : App g l g') : Step g (.app l) g'
  | ckpt (g : CkptGpu) (h : g.parked = ∅) : Step g (.msg .ckpt) (g.save g.allBlocks)
  | selectiveCkpt (g : CkptGpu) (req : SelectiveCrRequest) (h : g.requested req ∩ g.parked = ∅) :
      Step g (.msg (.selectiveCkpt req)) (g.save (g.requested req))
  | restore {g g' : CkptGpu} (h : Restore g g') : Step g (.msg .restore) g'
  | selectiveRestore {g g' : CkptGpu} (h : Restore g g') : Step g (.msg .selectiveRestore) g'


/-- Where a parked block is in the dump, the dump has what the block held. -/
structure Pending (g : CkptGpu) : Prop where
  known : ∀ p ∈ g.parked, ∃ n, g.blocks p = some n
  bytes : ∀ p ∈ g.parked, ∀ k c, g.dump p = some (k, c) → g.blocks p = some k ∧ ∀ i < k, c i = g.mem (p + i)

theorem pending_empty : empty.Pending := ⟨fun _ hp => absurd hp id, fun _ hp => absurd hp id⟩

theorem mem_saved_save {g : CkptGpu} {ptrs : Set Nat} (hptrs : ptrs ⊆ g.allBlocks) {p : Nat} :
    p ∈ (g.save ptrs).saved ↔ p ∈ ptrs := by
  unfold saved save
  constructor
  · intro hp
    by_contra hout
    simp [hout] at hp
  · intro hp
    obtain ⟨n, hn⟩ := hptrs hp
    simp [hn, hp]

theorem pending_save {g : CkptGpu} (hg : g.Pending) {ptrs : Set Nat} (hptrs : ptrs ⊆ g.allBlocks) :
    (g.save ptrs).Pending := by
  refine ⟨?_, ?_⟩
  · rintro p (hp | hp)
    · exact hg.known p hp
    · exact hptrs hp
  · rintro p - k c hdump
    unfold save at hdump
    dsimp only at hdump
    split_ifs at hdump with hp
    obtain ⟨n, hn⟩ := hptrs hp
    rw [hn, Option.map_some, Option.some.injEq, Prod.mk.injEq] at hdump
    obtain ⟨rfl, rfl⟩ := hdump
    exact ⟨hn, fun _ _ => rfl⟩

theorem pending_restore {g g' : CkptGpu} (hg : g.Pending) (h : Restore g g') : g'.Pending := by
  have hpark : ∀ p ∈ g'.parked, p ∈ g.parked ∧ p ∉ g.saved := fun p hp => by
    rw [h.parked] at hp
    exact hp
  refine ⟨fun p hp => ?_, fun p hp k c hdump => ?_⟩
  · rw [h.blocks]
    exact hg.known p (hpark p hp).1
  · -- what is still parked was not in the dump
    rw [h.dump] at hdump
    refine absurd ?_ (hpark p hp).2
    show (g.dump p).isSome
    rw [hdump]
    rfl

/-! ### What every run keeps -/

theorem pending_app {g g' : CkptGpu} {l : AppLabel} (hg : g.Pending) (h : App g l g') : g'.Pending := by
  have hblock : ∀ p ∈ g'.parked, p ∈ g.parked ∧ ∀ n, g.blocks p = some n →
      g'.blocks p = some n ∧ ∀ i < n, g'.mem (p + i) = g.mem (p + i) := by
    intro p hp
    rw [h.parked] at hp
    refine ⟨hp.1, fun n hn => h.step.block hn hp.2 ?_⟩
    rintro touched reads writes rfl hin
    exact Set.notMem_empty p (h.unparked touched reads writes rfl ▸ ⟨hin, hp.1⟩)
  refine ⟨fun p hp => ?_, fun p hp k c hdump => ?_⟩
  · obtain ⟨hin, hkeep⟩ := hblock p hp
    obtain ⟨n, hn⟩ := hg.known p hin
    exact ⟨n, (hkeep n hn).1⟩
  · obtain ⟨hin, hkeep⟩ := hblock p hp
    rw [h.dump] at hdump
    obtain ⟨hk, hc⟩ := hg.bytes p hin k c hdump
    refine ⟨(hkeep k hk).1, fun i hi => ?_⟩
    rw [(hkeep k hk).2 i hi]
    exact hc i hi

theorem requested_subset (g : CkptGpu) (req : SelectiveCrRequest) : g.requested req ⊆ g.allBlocks :=
  fun _ hp => ⟨hp.choose, hp.choose_spec.1⟩

/-! ### Messages that the application cannot notice -/

/-- No checkpoint is taken of other blocks while some are parked, and none is restored twice. -/
def Orderly (g : CkptGpu) : GpuLabel → Prop
  | .app _ | .msg .ckpt => True
  | .msg (.selectiveCkpt _) => g.parked = ∅
  | .msg .restore | .msg .selectiveRestore => g.saved ⊆ g.parked

/-- The plain device that is left when the messages are taken out. -/
structure Shows (g : CkptGpu) (a : PlainGpu) : Prop where
  pending : g.Pending
  /-- Nothing is lost. -/
  saved : g.parked ⊆ g.saved
  blocks : a.blocks = g.blocks
  mem : PlainGpu.AgreeOn g.blocks Set.univ g.mem a.mem

theorem shows_empty : empty.Shows .empty :=
  ⟨pending_empty, fun _ hp => absurd hp id, rfl, .refl _ _ _⟩

theorem Shows.save {g : CkptGpu} {a : PlainGpu} (h : g.Shows a) (hparked : g.parked = ∅) {ptrs : Set Nat}
    (hptrs : ptrs ⊆ g.allBlocks) : (g.save ptrs).Shows a := by
  refine ⟨pending_save h.pending hptrs, ?_, h.blocks, h.mem⟩
  rintro p (hp | hp)
  · rw [hparked] at hp
    exact absurd hp id
  · exact (mem_saved_save hptrs).2 hp

/-- A restore of parked blocks brings back what they held. -/
theorem Shows.restore {g g' : CkptGpu} {a : PlainGpu} (h : g.Shows a) (horderly : g.saved ⊆ g.parked)
    (hrestore : Restore g g') : g'.Shows a := by
  refine ⟨pending_restore h.pending hrestore, ?_, h.blocks.trans hrestore.blocks.symm, ?_⟩
  · rw [hrestore.parked]
    intro p hp
    exact absurd (h.saved hp.1) hp.2
  · rw [hrestore.blocks]
    suffices hsame : PlainGpu.AgreeOn g.blocks Set.univ g.mem g'.mem from hsame.symm.trans h.mem
    intro p n hn _ i hi
    by_cases hp : p ∈ g.saved
    · obtain ⟨⟨k, c⟩, hdump⟩ := Option.isSome_iff_exists.1 hp
      obtain ⟨hk, hc⟩ := h.pending.bytes p (horderly hp) k c hdump
      obtain rfl : k = n := Option.some.inj (hk.symm.trans hn)
      rw [hrestore.back p k c k hdump hn i (by omega)]
      exact hc i hi
    · exact hrestore.kept p n hn hp i hi

theorem Shows.app {g g' : CkptGpu} {l : AppLabel} {a : PlainGpu} (h : g.Shows a) (happ : App g l g') :
    ∃ a', g'.Shows a' ∧ PlainGpu.Step a l a' := by
  obtain ⟨a', hstep, hblocks, hmem⟩ := happ.step.congr h.blocks h.mem
  refine ⟨a', ⟨pending_app h.pending happ, ?_, hblocks, hmem⟩, hstep⟩
  have hdump : g'.saved = g.saved := by
    unfold CkptGpu.saved
    rw [happ.dump]
  rw [happ.parked, hdump]
  exact fun p hp => h.saved hp.1

/-- **The messages are invisible**: an orderly run of the device with checkpoints is one of the device
without. -/
theorem orderly_simulates :
    Simulates Shows (fun g l g' => g.Orderly l ∧ Step g l g') GpuLabel.hideMsg PlainGpu.Step := by
  rintro g a l g' h ⟨horderly, hstep⟩
  cases hstep with
  | app happ =>
    obtain ⟨a', ha', hstep⟩ := h.app happ
    exact ⟨a', ha', .single hstep⟩
  | ckpt hparked => exact ⟨a, h.save hparked fun _ hp => hp, .nil a⟩
  | selectiveCkpt req => exact ⟨a, h.save horderly (g.requested_subset req), .nil a⟩
  | restore hrestore => exact ⟨a, h.restore horderly hrestore, .nil a⟩
  | selectiveRestore hrestore => exact ⟨a, h.restore horderly hrestore, .nil a⟩

end CkptGpu

end GpuCr
