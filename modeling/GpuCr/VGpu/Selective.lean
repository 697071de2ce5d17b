import GpuCr.VGpu.RoundTrip

/-!
# The selective round trip

`requestedBlocks` says which blocks a request is about: those that contain a requested pointer. The
code finds them by a search for each region and a `std::set`; over a table of disjoint blocks the two
agree, order included (`selectiveBlocks_eq`), and from there on the round trip is that of `RoundTrip`
with unrounded sizes and the granule clamp.
-/

namespace GpuCr

open Lib Lib.AsyncStream Lib.Run Std

namespace VGpu

/-- The physical blocks of the table do not overlap. -/
def TableApart (t : ExtTreeMap Nat Nat) : Prop :=
  ∀ p q n m : Nat, t[p]? = some n → t[q]? = some m → p ≠ q →
    p + roundUp2MB n ≤ q ∨ q + roundUp2MB m ≤ p

/-- The blocks that contain a requested pointer. -/
def requestedBlocks (t : ExtTreeMap Nat Nat) (req : SelectiveCrRequest) : List (Nat × Nat) :=
  t.toList.filter fun entry => req.regions.any fun region => containsPtr region.ptr entry

theorem mem_requestedBlocks {t : ExtTreeMap Nat Nat} {req : SelectiveCrRequest} {b : Nat × Nat} :
    b ∈ requestedBlocks t req ↔
      t[b.1]? = some b.2 ∧ ∃ r ∈ req.regions, containsPtr r.ptr b = true := by
  rw [requestedBlocks, List.mem_filter, ExtTreeMap.mem_toList_iff_getElem?_eq_some, List.any_eq_true]

/-! ### Resolving the regions -/

/-- Over disjoint blocks the search finds the only block that contains the pointer. -/
theorem findContainingAllocation_eq_some {t : ExtTreeMap Nat Nat} (hapart : TableApart t) {ptr : Nat}
    {b : Nat × Nat} :
    findContainingAllocation t ptr = some b ↔ t[b.1]? = some b.2 ∧ containsPtr ptr b = true := by
  constructor
  · intro h
    have hmem := List.mem_of_find?_eq_some h
    exact ⟨ExtTreeMap.mem_toList_iff_getElem?_eq_some.1 hmem, List.find?_some h⟩
  · rintro ⟨htab, hin⟩
    have hmem : b ∈ t.toList := ExtTreeMap.mem_toList_iff_getElem?_eq_some.2 htab
    cases hfind : findContainingAllocation t ptr with
    | none =>
      have hnone := List.find?_eq_none.1 hfind b hmem
      exact absurd hin hnone
    | some c =>
      have hc := List.mem_of_find?_eq_some hfind
      have htab' := ExtTreeMap.mem_toList_iff_getElem?_eq_some.1 hc
      have hin' : containsPtr ptr c = true := List.find?_some hfind
      -- two blocks that share the pointer overlap
      have hptr : c.1 = b.1 := by
        by_contra hne
        have hover := hapart c.1 b.1 c.2 b.2 htab' htab hne
        simp only [containsPtr, Bool.and_eq_true, decide_eq_true_eq] at hin hin'
        have := le_roundUp2MB c.2
        have := le_roundUp2MB b.2
        omega
      rw [hptr, htab] at htab'
      rw [Prod.ext hptr (Option.some.inj htab').symm]

theorem mem_blocksToSnapshot {t : ExtTreeMap Nat Nat} {req : SelectiveCrRequest} {p : Nat} :
    p ∈ blocksToSnapshot t req ↔
      ∃ r ∈ req.regions, ∃ n, findContainingAllocation t r.ptr = some (p, n) := by
  have hfold : ∀ (regions : List SelectiveCrRegion) (acc : ExtTreeSet Nat),
      p ∈ regions.foldl (insertBlockOf t) acc ↔
        p ∈ acc ∨ ∃ r ∈ regions, ∃ n, findContainingAllocation t r.ptr = some (p, n) := by
    intro regions
    induction regions with
    | nil => simp
    | cons r regions ih =>
      intro acc
      rw [List.foldl_cons, ih]
      simp only [List.mem_cons, exists_eq_or_imp, insertBlockOf]
      cases hfind : findContainingAllocation t r.ptr with
      | none => simp
      | some e =>
        obtain ⟨q, n⟩ := e
        simp only [ExtTreeSet.mem_insert, Nat.compare_eq_eq, Option.some.injEq, Prod.mk.injEq,
          exists_and_left, exists_eq', and_true]
        tauto
  rw [blocksToSnapshot, hfold]
  simp

theorem toList_blocksToSnapshot {t : ExtTreeMap Nat Nat} (hapart : TableApart t)
    (req : SelectiveCrRequest) :
    (blocksToSnapshot t req).toList = (requestedBlocks t req).map Prod.fst := by
  have hset : (blocksToSnapshot t req).toList.Pairwise (· < ·) :=
    (ExtTreeSet.ordered_toList).imp fun h => Nat.compare_eq_lt.1 h
  have hreq : ((requestedBlocks t req).map Prod.fst).Pairwise (· < ·) := by
    rw [List.pairwise_map]
    exact (t.ordered_keys_toList.filter _).imp fun h => Nat.compare_eq_lt.1 h
  -- both lists ascend, so they are equal as soon as they have the same members
  refine List.Perm.eq_of_pairwise (fun a b _ _ h1 h2 => absurd h1 (Nat.lt_asymm h2)) hset hreq ?_
  rw [List.perm_ext_iff_of_nodup (hset.imp Nat.ne_of_lt) (hreq.imp Nat.ne_of_lt)]
  intro p
  rw [ExtTreeSet.mem_toList, mem_blocksToSnapshot, List.mem_map]
  constructor
  · rintro ⟨r, hr, n, hfind⟩
    obtain ⟨htab, hin⟩ := (findContainingAllocation_eq_some hapart).1 hfind
    exact ⟨(p, n), mem_requestedBlocks.2 ⟨htab, r, hr, hin⟩, rfl⟩
  · rintro ⟨b, hb, rfl⟩
    obtain ⟨htab, r, hr, hin⟩ := mem_requestedBlocks.1 hb
    exact ⟨r, hr, b.2, (findContainingAllocation_eq_some hapart).2 ⟨htab, hin⟩⟩

theorem selectiveBlocks_eq {t : ExtTreeMap Nat Nat} (hapart : TableApart t) (req : SelectiveCrRequest) :
    selectiveBlocks t req = .ok (requestedBlocks t req) := by
  have hlookup : ∀ (lookup : Nat → Except Exit (Nat × Nat)) (blocks : List (Nat × Nat)),
      (∀ b ∈ blocks, lookup b.1 = .ok b) → (blocks.map Prod.fst).mapM lookup = .ok blocks := by
    intro lookup blocks
    induction blocks with
    | nil => intro _; rfl
    | cons b blocks ih =>
      intro hall
      rw [List.map_cons, List.mapM_cons, hall b (List.mem_cons_self ..),
        ih fun c hc => hall c (List.mem_cons_of_mem _ hc)]
      rfl
  rw [selectiveBlocks, toList_blocksToSnapshot hapart]
  refine hlookup _ _ fun b hb => ?_
  rw [(mem_requestedBlocks.1 hb).1]

/-! ### The two operations -/

/-- Contents, mapping and handle of the block at `p` are the same in `s` and `s'`. -/
structure BlockUnchanged (p n : Nat) (s s' : VGpu) : Prop where
  content : ∀ i < roundUp2MB n, s'.drv.mem (p + i) = s.drv.mem (p + i)
  mapping : ∀ m : Mapping, m.va = p → (m ∈ s'.drv.maps ↔ m ∈ s.drv.maps)
  handle : s'.globalHandleMap[p]? = s.globalHandleMap[p]?
  live : ∀ h, s.globalHandleMap[p]? = some h → s.drv.isLive h = true → s'.drv.isLive h = true

/-- The application has written to device memory. -/
def withMem (s : VGpu) (mem : Nat → Byte) : VGpu := { s with drv := { s.drv with mem := mem } }

section Frame
variable {t : ExtTreeMap Nat Nat} {req : SelectiveCrRequest} {p n : Nat}

theorem not_mem_requested (hp : t[p]? = some n) (hout : (p, n) ∉ requestedBlocks t req) :
    p ∉ (requestedBlocks t req).map Prod.fst := by
  intro hmem
  obtain ⟨b, hb, rfl⟩ := List.mem_map.1 hmem
  obtain ⟨htab, -⟩ := mem_requestedBlocks.1 hb
  obtain rfl : b.2 = n := Option.some.inj (htab.symm.trans hp)
  exact hout hb

/-- Nothing of a block outside the request lies in a requested block. -/
theorem outside_requested (hapart : TableApart t) (hp : t[p]? = some n)
    (hout : (p, n) ∉ requestedBlocks t req) {i : Nat} (hi : i < roundUp2MB n) :
    ∀ b ∈ requestedBlocks t req, p + i < b.1 ∨ b.1 + roundUp2MB b.2 ≤ p + i := by
  intro b hb
  have hne : p ≠ b.1 := fun h => not_mem_requested hp hout (h ▸ List.mem_map_of_mem hb)
  have := hapart p b.1 n b.2 hp (mem_requestedBlocks.1 hb).1 hne
  omega

end Frame

theorem nodup_requestedBlocks (t : ExtTreeMap Nat Nat) (req : SelectiveCrRequest) :
    ((requestedBlocks t req).map Prod.fst).Nodup := by
  rw [List.nodup_iff_pairwise_ne, List.pairwise_map]
  exact (t.distinct_keys_toList.filter _).imp fun h heq => h (by simp [heq])

theorem requestedBlocks_dumpable {s : VGpu} {req : SelectiveCrRequest}
    (hmapped : ∀ b ∈ requestedBlocks s.allocatedMemory req, s.MappedBlock b.1 b.2) :
    Dumpable (requestedBlocks s.allocatedMemory req) s := by
  exact ⟨nodup_requestedBlocks _ _, fun b hb => ⟨b.2, hmapped b hb, rfl⟩⟩

theorem ckptSelective_spec {shmSize : Nat} {req : SelectiveCrRequest} {s : VGpu}
    (henv : s.drv.env.Reliable) (hapart : TableApart s.allocatedMemory)
    (hmapped : ∀ b ∈ requestedBlocks s.allocatedMemory req, s.MappedBlock b.1 b.2)
    (hnum : (requestedBlocks s.allocatedMemory req).length < maxFileNum)
    (hsize : dumpHeaderSize + totalSize (requestedBlocks s.allocatedMemory req) ≤ shmSize) :
    ∃ s₁, s.ckptSelective shmSize req = .ok s₁ ∧ Dumped (requestedBlocks s.allocatedMemory req) s s₁ := by
  obtain ⟨cmds, fs, s₀, s₁, hcmds, hloop, -, hptrs, hrelease, hdumped⟩ :=
    dump_spec granuleChunk henv (requestedBlocks_dumpable hmapped) hsize hnum
  refine ⟨s₁, ?_, hdumped⟩
  unfold ckptSelective
  rw [selectiveBlocks_eq hapart]
  show (dumpCmds granuleChunk shmSize _ s.fs >>= _) = _
  rw [hcmds]
  show ({ s with fs := fs }.runCopyLoop cmds >>= _) = _
  rw [hloop]
  show releaseAll (s₀.fs.fileList.map SharedMemFile.ptr) s₀ = _
  rw [hptrs]
  exact hrelease

theorem dumped_of_ckptSelective {shmSize : Nat} {req : SelectiveCrRequest} {s s₁ : VGpu}
    (h : s.ckptSelective shmSize req = .ok s₁) :
    ∃ blocks, selectiveBlocks s.allocatedMemory req = .ok blocks ∧ Dumped blocks s s₁ ∧
      ∀ p ∈ blocks.map Prod.fst, ∃ n, s.allocatedMemory[p]? = some n ∧
        s.drv.mappedAt p (roundUp2MB n) = true := by
  obtain ⟨blocks, hblocks, h⟩ := bind_eq_ok.1 h
  obtain ⟨⟨cmds, fs⟩, hcmds, h⟩ := bind_eq_ok.1 h
  obtain ⟨s₀, hloop, hrelease⟩ := bind_eq_ok.1 h
  have hptrs : s₀.fs.fileList.map SharedMemFile.ptr = blocks.map Prod.fst := by
    obtain ⟨-, rfl⟩ := runCopyLoop_inv hloop
    show fs.fileList.map SharedMemFile.ptr = _
    rw [(dumpCmds_inv hcmds).1, layout_ptrs]
  rw [hptrs] at hrelease
  refine ⟨blocks, hblocks, dumped_of_ok hcmds hloop hrelease, ?_⟩
  obtain ⟨-, rfl⟩ := runCopyLoop_inv hloop
  exact (releaseAll_inv hrelease).2

theorem restorePtrAndContentSelective_spec {offset : Nat} {blocks : List (Nat × Nat)} {s : VGpu}
    (henv : s.drv.env.Reliable) (hfiles : s.fs.fileList = layout offset blocks)
    (hoffset : s.fs.currentOffset = offset + totalSize blocks) (hp : Parked s.fs.fileList s) :
    ∃ s', s.restorePtrAndContentSelective = .ok s' ∧ s'.drv.env = s.drv.env ∧ Restored blocks s s' := by
  obtain ⟨s₁, s', hremap, hcopy, henv', hrestored⟩ := restore_spec granuleChunk henv hfiles hoffset hp
  refine ⟨s', ?_, henv', hrestored⟩
  unfold restorePtrAndContentSelective
  rw [hremap]
  exact hcopy

/-! ### Parked blocks -/

/-- The block at `p` has neither a handle nor anything mapped in its range. -/
def ParkedBlock (s : VGpu) (p n : Nat) : Prop :=
  s.allocatedMemory[p]? = some n ∧ s.globalHandleMap[p]? = none ∧ 0 < roundUp2MB n ∧
    ∀ m ∈ s.drv.maps, p + roundUp2MB n ≤ m.va ∨ m.va + m.size ≤ p

/-- What is left of the tables and the driver when the blocks at `ptrs` have been given up. -/
structure ParkedAt (ptrs : List Nat) (s s' : VGpu) : Prop where
  allocatedMemory : s'.allocatedMemory = s.allocatedMemory
  handles : ∀ q, q ∉ ptrs → s'.globalHandleMap[q]? = s.globalHandleMap[q]?
  maps : ∀ m : Mapping, m.va ∉ ptrs → (m ∈ s'.drv.maps ↔ m ∈ s.drv.maps)
  unmapped : ∀ m ∈ s'.drv.maps, m.va ∉ ptrs
  unhandled : ∀ q ∈ ptrs, s'.globalHandleMap[q]? = none
  live : ∀ k, s'.drv.isLive k = true ↔
    s.drv.isLive k = true ∧ ∀ q ∈ ptrs, s.globalHandleMap[q]? ≠ some k

theorem Dumped.parkedAt {blocks : List (Nat × Nat)} {s s' : VGpu} (h : Dumped blocks s s') :
    ParkedAt (blocks.map Prod.fst) s s' :=
  ⟨h.allocatedMemory, h.handles, h.maps, h.unmapped, h.unhandled, h.live⟩

section Parking
variable {ptrs : List Nat} {s s' : VGpu} {p n : Nat}

theorem ParkedAt.maps_subset (h : ParkedAt ptrs s s') {m : Mapping} (hm : m ∈ s'.drv.maps) :
    m ∈ s.drv.maps := (h.maps m (h.unmapped m hm)).1 hm

/-- Where a mapping of the block's extent has been given up, the whole range is free. -/
theorem ParkedAt.free (h : ParkedAt ptrs s s') {m₀ : Mapping} (hm₀ : m₀ ∈ s.drv.maps) (hp : m₀.va ∈ ptrs) :
    ∀ m ∈ s'.drv.maps, m₀.apart m := by
  intro m hm
  refine s.drv.maps_apart.forall hm₀ (h.maps_subset hm) ?_
  rintro rfl
  exact h.unmapped m₀ hm hp

theorem ParkedAt.parkedBlock (h : ParkedAt ptrs s s') (hm : s.MappedBlock p n) (hp : p ∈ ptrs) :
    s'.ParkedBlock p n := by
  obtain ⟨htab, k, -, hmap, -⟩ := hm
  exact ⟨h.allocatedMemory ▸ htab, h.unhandled p hp, s.drv.maps_pos _ hmap, h.free hmap hp⟩

theorem ParkedAt.mappedBlock (h : ParkedAt ptrs s s') (hm : s.MappedBlock p n) (hp : p ∉ ptrs) :
    s'.MappedBlock p n := by
  obtain ⟨htab, k, hk, hmap, hlive, hinj⟩ := hm
  refine ⟨h.allocatedMemory ▸ htab, k, (h.handles p hp).trans hk, (h.maps _ hp).2 hmap,
    (h.live k).2 ⟨hlive, ?_⟩, ?_⟩
  · intro q hq heq
    exact hp (hinj q heq ▸ hq)
  · intro q hq
    have hout : q ∉ ptrs := by
      intro hin
      rw [h.unhandled q hin] at hq
      exact absurd hq (by simp)
    exact hinj q ((h.handles q hout).symm.trans hq)

theorem ParkedAt.stillParked (h : ParkedAt ptrs s s') (hp : s.ParkedBlock p n) : s'.ParkedBlock p n := by
  obtain ⟨htab, hnone, hpos, hfree⟩ := hp
  refine ⟨h.allocatedMemory ▸ htab, ?_, hpos, fun m hm => hfree m (h.maps_subset hm)⟩
  by_cases hin : p ∈ ptrs
  · exact h.unhandled p hin
  · exact (h.handles p hin).trans hnone

end Parking

section Restoring
variable {blocks : List (Nat × Nat)} {s s' : VGpu} {p n : Nat}

theorem parked_layout {offset : Nat} (hapart : TableApart s.allocatedMemory)
    (hnodup : (blocks.map Prod.fst).Nodup) (hparked : ∀ b ∈ blocks, s.ParkedBlock b.1 b.2) :
    Parked (layout offset blocks) s := by
  have hfile : ∀ f ∈ layout offset blocks, s.ParkedBlock f.ptr f.size := fun f hf =>
    hparked _ (mem_of_mem_layout hf)
  refine ⟨fun f hf => ⟨_, (hfile f hf).1⟩, fun f hf => (hfile f hf).2.1, fun f hf => (hfile f hf).2.2.1,
    fun f hf => (hfile f hf).2.2.2, ?_⟩
  rw [← layout_ptrs offset] at hnodup
  refine (List.pairwise_map.1 hnodup).imp_of_mem ?_
  intro f g hf hg hne
  exact hapart f.ptr g.ptr f.size g.size (hfile f hf).1 (hfile g hg).1 hne

theorem Restored.stillParked (h : Restored blocks s s') (hapart : TableApart s.allocatedMemory)
    (htab : ∀ b ∈ blocks, s.allocatedMemory[b.1]? = some b.2) (hp : s.ParkedBlock p n)
    (hout : p ∉ blocks.map Prod.fst) : s'.ParkedBlock p n := by
  obtain ⟨hpn, hnone, hpos, hfree⟩ := hp
  refine ⟨h.allocatedMemory ▸ hpn, (h.handles p hout).trans hnone, hpos, ?_⟩
  intro m hm
  by_cases hva : m.va ∈ blocks.map Prod.fst
  · obtain ⟨b, hb, heq⟩ := List.mem_map.1 hva
    obtain ⟨k, -, hmap, -⟩ := h.mapped b hb
    obtain rfl : Mapping.mk b.1 (roundUp2MB b.2) k true = m := Driver.eq_of_va_eq hmap hm heq
    exact hapart p b.1 n b.2 hpn (htab b hb) fun heq => hout (heq ▸ hva)
  · exact hfree m ((h.maps m hva).1 hm)

end Restoring

/-! ### The round trip -/

theorem Restored.blockUnchanged {t : ExtTreeMap Nat Nat} {req : SelectiveCrRequest} {s s' : VGpu}
    (hrestored : Restored (requestedBlocks t req) s s') (hapart : TableApart t) {p n : Nat}
    (hp : t[p]? = some n) (hout : (p, n) ∉ requestedBlocks t req) : BlockUnchanged p n s s' := by
  have hnot := not_mem_requested hp hout
  refine ⟨?_, ?_, hrestored.handles p hnot, fun h _ hlive => hrestored.live h hlive⟩
  · intro i hi
    exact hrestored.outside _ (outside_requested hapart hp hout hi)
  · intro m hm
    exact hrestored.maps m (hm ▸ hnot)

/-- **Selective round trip and frame.** The checkpoint writes one file for each requested block and
parks exactly those; the restore brings their requested bytes back. Neither touches any other block,
whatever the application writes in between. -/
theorem ckptSelective_restore_roundTrip (shmSize : Nat) (req : SelectiveCrRequest) (s : VGpu)
    (henv : s.drv.env.Reliable) (hapart : TableApart s.allocatedMemory)
    (hmapped : ∀ b ∈ requestedBlocks s.allocatedMemory req, s.MappedBlock b.1 b.2)
    (hnum : (requestedBlocks s.allocatedMemory req).length < maxFileNum)
    (hsize : dumpHeaderSize + totalSize (requestedBlocks s.allocatedMemory req) ≤ shmSize) :
    ∃ s₁, s.ckptSelective shmSize req = .ok s₁ ∧
      s₁.fs.fileList.map (fun f => (f.ptr, f.size)) = requestedBlocks s.allocatedMemory req ∧
      (∀ b ∈ requestedBlocks s.allocatedMemory req,
        s₁.globalHandleMap[b.1]? = none ∧ ∀ m ∈ s₁.drv.maps, m.va ≠ b.1) ∧
      (∀ p n, s.allocatedMemory[p]? = some n → (p, n) ∉ requestedBlocks s.allocatedMemory req →
        BlockUnchanged p n s s₁) ∧
      ∀ mem, ∃ s₂, (s₁.withMem mem).restorePtrAndContentSelective = .ok s₂ ∧
        (∀ b ∈ requestedBlocks s.allocatedMemory req,
          (∃ h, s₂.globalHandleMap[b.1]? = some h ∧ s₂.drv.isLive h = true ∧
            ⟨b.1, roundUp2MB b.2, h, true⟩ ∈ s₂.drv.maps) ∧
          ∀ i < b.2, s₂.drv.mem (b.1 + i) = s.drv.mem (b.1 + i)) ∧
        ∀ p n, s.allocatedMemory[p]? = some n → (p, n) ∉ requestedBlocks s.allocatedMemory req →
          BlockUnchanged p n (s₁.withMem mem) s₂ := by
  obtain ⟨s₁, hckpt, hdumped⟩ := ckptSelective_spec henv hapart hmapped hnum hsize
  refine ⟨s₁, hckpt, ?_, ?_, ?_, ?_⟩
  · rw [hdumped.fileList, layout_blocks]
  · intro b hb
    have hin : b.1 ∈ (requestedBlocks s.allocatedMemory req).map Prod.fst := List.mem_map_of_mem hb
    refine ⟨hdumped.unhandled _ hin, fun m hm heq => hdumped.unmapped m hm ?_⟩
    rw [heq]
    exact hin
  · intro p n hp hout
    have hnot := not_mem_requested hp hout
    refine ⟨fun i _ => by rw [hdumped.mem], fun m hm => hdumped.maps m (hm ▸ hnot),
      hdumped.handles p hnot, fun h hh hlive => (hdumped.live h).2 ⟨hlive, ?_⟩⟩
    -- the handle is not one of those that have been released
    intro q hq heq
    obtain ⟨b, hb, rfl⟩ := List.mem_map.1 hq
    obtain ⟨-, k, hk, -, -, hinj⟩ := hmapped b hb
    obtain rfl : k = h := Option.some.inj (hk.symm.trans heq)
    exact hnot (hinj p hh ▸ hq)
  · intro mem
    have hp := hdumped.parked (requestedBlocks_dumpable hmapped)
    obtain ⟨s₂, hrestore, -, hrestored⟩ := restorePtrAndContentSelective_spec (s := s₁.withMem mem)
      (hdumped.env ▸ henv) hdumped.fileList hdumped.currentOffset
      ⟨hp.known, hp.unhandled, hp.pos, hp.free, hp.apart⟩
    refine ⟨s₂, hrestore, ?_, ?_⟩
    · intro b hb
      obtain ⟨h, h1, h2, h3⟩ := hrestored.mapped b hb
      refine ⟨⟨h, h1, h3, h2⟩, fun i hi => ?_⟩
      obtain ⟨f, hf, h4, h5⟩ := exists_file_of_mem dumpHeaderSize hb
      rw [← hdumped.fileList] at hf
      have hlt : i < f.size := h5.symm ▸ hi
      rw [← h4, hrestored.content f hf i hlt]
      exact hdumped.image f hf i hlt
    · intro p n hpn hout
      exact hrestored.blockUnchanged hapart hpn hout

/-- Two interior pointers of the second block and one pointer of no block. -/
def interiorRequest : SelectiveCrRequest :=
  ⟨[⟨0x700000, 8⟩, ⟨0x600001, 1⟩, ⟨0x10, 4⟩], by decide⟩

theorem twoBlocks_apart : TableApart twoBlocks.allocatedMemory := by
  intro p q n m hp hq hne
  simp only [twoBlocks, ExtTreeMap.getElem?_insert, ExtTreeMap.getElem?_empty] at hp hq
  simp only [roundUp2MB, hugePageSize]
  split_ifs at hp hq <;> simp only [Nat.compare_eq_eq, Option.some.injEq] at * <;> omega

theorem ckptSelective_interiorRequest :
    ∃ s₁, twoBlocks.ckptSelective shmSizeDefault interiorRequest = .ok s₁ ∧
      s₁.fs.fileList.map (fun f => (f.ptr, f.size)) = [(0x600000, 0x200001)] ∧
      ∀ mem, ∃ s₂, (s₁.withMem mem).restorePtrAndContentSelective = .ok s₂ ∧
        s₂.drv.mem 0x700000 = twoBlocks.drv.mem 0x700000 ∧ s₂.drv.mem 0x200000 = mem 0x200000 := by
  obtain ⟨s₁, h1, h2, -, -, h3⟩ := ckptSelective_restore_roundTrip shmSizeDefault interiorRequest
    twoBlocks (fun _ => rfl) twoBlocks_apart
    (fun b hb => twoBlocks_oneHandleEach.mappedBlock (mem_requestedBlocks.1 hb).1) (by decide) (by decide)
  refine ⟨s₁, h1, h2.trans (by decide), fun mem => ?_⟩
  obtain ⟨s₂, h4, h5, h6⟩ := h3 mem
  have hblock : (0x600000, 0x200001) ∈ requestedBlocks twoBlocks.allocatedMemory interiorRequest := by decide
  exact ⟨s₂, h4, (h5 _ hblock).2 0x100000 (by decide),
    (h6 0x200000 3 (by decide) (by decide)).content 0 (by decide)⟩

end VGpu

end GpuCr
