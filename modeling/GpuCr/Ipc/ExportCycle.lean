import GpuCr.Ipc.Complete

/-!
# One cycle of exports

Several export records can have one address. The save then copies the range once for each of them, but a
range can be mapped only once: the rebuild gives it back to the first of them, and what it does for the
others fails. So the range is back and reads what it read before, while of its records only the first is
live again.
-/

namespace GpuCr

open Lib Lib.Run Lib.Grouping Lib.Layout Std

/-! ### Mappings that stay -/

/-- A mapping but for its access. -/
def Mapping.key (m : Mapping) : Nat × Nat × Nat := (m.va, m.size, m.handle)

/-- The ranges of the keys do not overlap. -/
def keyApart (k k' : Nat × Nat × Nat) : Prop := k.1 + k.2.1 ≤ k'.1 ∨ k'.1 + k'.2.1 ≤ k.1

namespace Driver

/-- Every mapping of `d` is one of `d'`, with at least the access it had. -/
def Grows (d d' : Driver) : Prop :=
  ∀ m ∈ d.maps, ∃ m' ∈ d'.maps, m'.key = m.key ∧ (m.access = true → m'.access = true)

theorem grows_of_eq {d d' : Driver} (h : d'.maps = d.maps) : d.Grows d' :=
  fun m hm => ⟨m, h ▸ hm, rfl, id⟩

theorem Grows.trans {d d' d'' : Driver} (h : d.Grows d') (h' : d'.Grows d'') : d.Grows d'' := by
  intro m hm
  obtain ⟨m', hm', hkey, hacc⟩ := h m hm
  obtain ⟨m'', hm'', hkey', hacc'⟩ := h' m' hm'
  exact ⟨m'', hm'', hkey'.trans hkey, fun ha => hacc' (hacc ha)⟩

theorem Grows.accessible {d d' : Driver} (h : d.Grows d') {a n : Nat} (hacc : d.accessible a n = true) :
    d'.accessible a n = true := by
  rw [Driver.accessible, List.any_eq_true] at hacc ⊢
  obtain ⟨m, hm, hin⟩ := hacc
  obtain ⟨m', hm', hkey, ha⟩ := h m hm
  simp only [Mapping.key, Prod.mk.injEq] at hkey
  simp only [Bool.and_eq_true, decide_eq_true_eq] at hin ⊢
  exact ⟨m', hm', ⟨ha hin.1.1, by omega⟩, by omega⟩

theorem grantAccess_key (va : Nat) (m : Mapping) : (grantAccess va m).key = m.key := by
  unfold grantAccess
  split_ifs <;> rfl

theorem cuMemSetAccess_grows (d : Driver) (va size : Nat) :
    d.Grows (d.cuMemSetAccess va size).2 ∧ (d.cuMemSetAccess va size).2.maps.map Mapping.key = d.maps.map Mapping.key := by
  unfold cuMemSetAccess call
  split_ifs
  · refine ⟨fun m hm => ⟨grantAccess va m, List.mem_map_of_mem hm, grantAccess_key va m, fun ha => ?_⟩, ?_⟩
    · unfold grantAccess
      split_ifs
      · rfl
      · exact ha
    · show List.map _ (List.map _ _) = _
      rw [List.map_map]
      congr 1
      funext m
      exact grantAccess_key va m
  · exact ⟨grows_of_eq rfl, rfl⟩

theorem foldl_setAccess_grows (va size : Nat) (access : List CUmemAccessDesc) (d : Driver) :
    d.Grows (access.foldl (fun d _ => (d.cuMemSetAccess va size).2) d) ∧
      (access.foldl (fun d _ => (d.cuMemSetAccess va size).2) d).maps.map Mapping.key = d.maps.map Mapping.key := by
  induction access generalizing d with
  | nil => exact ⟨grows_of_eq rfl, rfl⟩
  | cons ad access ih =>
    obtain ⟨h1, h2⟩ := d.cuMemSetAccess_grows va size
    obtain ⟨ih1, ih2⟩ := ih (d.cuMemSetAccess va size).2
    exact ⟨h1.trans ih1, ih2.trans h2⟩

end Driver

/-! ### Phase A, one range after the other -/

/-- The mapping of a rebuilt range. -/
def RebuildEntry.key (e : RebuildEntry) : Nat × Nat × Nat := (e.slot.vaddr, e.slot.size, e.newHandle)

theorem RebuildItem.mapNew_keys (x : RebuildItem) (d : Driver) :
    d.Grows (x.mapNew d).2 ∧
      (x.mapNew d).2.maps.map Mapping.key =
        ((x.mapNew d).1.map fun h => (x.vaddr, x.size, h)).toList ++ d.maps.map Mapping.key ∧
      ((x.mapNew d).1 ≠ none → ∀ m ∈ d.maps, x.vaddr + x.size ≤ m.va ∨ m.va + m.size ≤ x.vaddr) := by
  have hcreate := d.cuMemCreate_maps x.size
  unfold mapNew
  split
  case h_1 d₁ heq =>
    rw [heq] at hcreate
    exact ⟨Driver.grows_of_eq hcreate, congrArg (List.map _) hcreate, fun h => absurd rfl h⟩
  case h_2 newHandle d₁ heq =>
    rw [heq] at hcreate
    have hmap := d₁.cuMemMap_maps x.vaddr x.size newHandle
    split
    case h_1 d₂ heq₂ =>
      have hmaps : (d₂.cuMemRelease newHandle).2.maps = d.maps := by
        rw [heq₂] at hmap
        obtain ⟨-, hmap⟩ := hmap.resolve_right (by simp)
        exact (Driver.cuMemRelease_maps ..).trans (hmap.trans hcreate)
      exact ⟨Driver.grows_of_eq hmaps, congrArg (List.map _) hmaps, fun h => absurd rfl h⟩
    case h_2 d₂ heq₂ =>
      rw [heq₂] at hmap
      obtain ⟨-, hcan, hmap⟩ := hmap.resolve_left (by simp)
      have hmaps : d₂.maps = ⟨x.vaddr, x.size, newHandle, false⟩ :: d.maps := hmap.trans (congrArg _ hcreate)
      obtain ⟨h1, h2⟩ := Driver.foldl_setAccess_grows x.vaddr x.size x.access d₂
      refine ⟨Driver.Grows.trans (fun m hm => ⟨m, ?_, rfl, id⟩) h1, ?_, fun _ m hm => hcan.2.2 m (hcreate ▸ hm)⟩
      · rw [hmaps]
        exact List.mem_cons_of_mem _ hm
      · rw [h2, hmaps]
        rfl

theorem pairwise_key_foldl_item (items : List RebuildItem) (r : AllocRun)
    (hitems : items.Pairwise fun x y => x.key < y.key)
    (hentries : r.entries.Pairwise fun e e' => e.slot.key < e'.slot.key)
    (hlt : ∀ e ∈ r.entries, ∀ x ∈ items, e.slot.key < x.key) :
    (items.foldl AllocRun.item r).entries.Pairwise fun e e' => e.slot.key < e'.slot.key := by
  induction items generalizing r with
  | nil => exact hentries
  | cons x items ih =>
    obtain ⟨hx, hitems⟩ := List.pairwise_cons.1 hitems
    obtain ⟨-, ⟨-, heq, -⟩ | ⟨newHandle, -, heq, -⟩⟩ := r.item_spec x
    · refine ih _ hitems (heq ▸ hentries) fun e he y hy => ?_
      exact hlt e (heq ▸ he) y (List.mem_cons_of_mem _ hy)
    · refine ih _ hitems ?_ fun e he y hy => ?_
      · rw [heq, List.pairwise_append]
        refine ⟨hentries, List.pairwise_singleton .., fun e he e' he' => ?_⟩
        obtain rfl := List.mem_singleton.1 he'
        exact hlt e he x (List.mem_cons_self ..)
      · rw [heq] at he
        rcases List.mem_append.1 he with he | he
        · exact hlt e he y (List.mem_cons_of_mem _ hy)
        · obtain rfl := List.mem_singleton.1 he
          exact hx y hy

theorem nodup_ordered {items : List RebuildItem} (hitems : items.Pairwise fun x y => x.key < y.key) (d : Driver) :
    ((rebuildAlloc items d).ordered.map (·.slot.key)).Nodup := by
  have hperm := (perm_flatten_group RebuildEntry.dev (rebuildAlloc items d).entries).map fun e => e.slot.key
  refine hperm.nodup_iff.2 ?_
  have hlt := pairwise_key_foldl_item items ⟨d, [], 0⟩ hitems List.Pairwise.nil (by simp)
  exact List.pairwise_map.2 (hlt.imp Nat.ne_of_lt)

/-- What phase A has done: each entry has its mapping, and these are all new ones. -/
structure AllocRun.Tracks (d : Driver) (r : AllocRun) : Prop where
  env : r.drv.env = d.env
  keys : r.drv.maps.map Mapping.key = r.entries.reverse.map RebuildEntry.key ++ d.maps.map Mapping.key

theorem foldl_item_grows (items : List RebuildItem) (r : AllocRun) :
    r.drv.Grows (items.foldl AllocRun.item r).drv := by
  induction items generalizing r with
  | nil => exact Driver.grows_of_eq rfl
  | cons x items ih =>
    have hgrows := (x.mapNew_keys r.drv).1
    rw [← (r.item_spec x).1] at hgrows
    exact hgrows.trans (ih (r.item x))

section Tracks
variable {d : Driver} {r : AllocRun}

theorem AllocRun.tracks_start (d : Driver) (off : Nat) : AllocRun.Tracks d ⟨d, [], off⟩ :=
  ⟨rfl, rfl⟩

theorem AllocRun.Tracks.item (h : r.Tracks d) (x : RebuildItem) : (r.item x).Tracks d := by
  obtain ⟨-, hkeys, -⟩ := x.mapNew_keys r.drv
  obtain ⟨hdrv, hcase⟩ := r.item_spec x
  refine ⟨?_, ?_⟩
  · rw [hdrv, (x.mapNew_frame r.drv).2, h.env]
  · rw [hdrv, hkeys, h.keys]
    rcases hcase with ⟨hnone, hentries, -⟩ | ⟨newHandle, hsome, hentries, -⟩
    · rw [hnone, hentries]
      rfl
    · rw [hsome, hentries, List.reverse_append]
      rfl

theorem AllocRun.Tracks.foldl (h : r.Tracks d) (items : List RebuildItem) : (items.foldl AllocRun.item r).Tracks d := by
  induction items generalizing r with
  | nil => exact h
  | cons x items ih => exact ih (h.item x)

theorem AllocRun.Tracks.mapped (h : r.Tracks d) {e : RebuildEntry} (he : e ∈ r.entries) :
    ∃ m ∈ r.drv.maps, m.key = e.key := by
  have hmem : e.key ∈ r.drv.maps.map Mapping.key := by
    rw [h.keys]
    exact List.mem_append_left _ (List.mem_map_of_mem (List.mem_reverse.2 he))
  exact List.mem_map.1 hmem

theorem AllocRun.Tracks.apart (h : r.Tracks d) : (r.entries.map (·.slot)).Pairwise Slot.vapart := by
  have hmaps : (r.drv.maps.map Mapping.key).Pairwise keyApart := List.pairwise_map.2 r.drv.maps_apart
  rw [h.keys] at hmaps
  have hentries := List.pairwise_map.1 (List.pairwise_append.1 hmaps).1
  rw [List.pairwise_map]
  exact (List.pairwise_reverse.1 hentries).imp Or.symm

theorem AllocRun.Tracks.cases (h : r.Tracks d) {m : Mapping} (hm : m ∈ r.drv.maps) :
    (∃ m' ∈ d.maps, m'.key = m.key) ∨ ∃ e ∈ r.entries, e.key = m.key := by
  have hmem := List.mem_map_of_mem (f := Mapping.key) hm
  rw [h.keys] at hmem
  rcases List.mem_append.1 hmem with hmem | hmem
  · obtain ⟨e, he, heq⟩ := List.mem_map.1 hmem
    exact Or.inr ⟨e, List.mem_reverse.1 he, heq⟩
  · exact Or.inl (List.mem_map.1 hmem)

end Tracks

/-- The entry of an item: its key, its range, its device, and the place that was recorded for it. -/
def RebuildEntry.Of (e : RebuildEntry) (x : RebuildItem) : Prop :=
  e.slot.key = x.key ∧ e.slot.vaddr = x.vaddr ∧ e.slot.size = x.size ∧ e.dev = x.dev ∧
    ∀ o, x.savedOffset = some o → e.slot.offset = o

theorem foldl_item_entries (items : List RebuildItem) (r : AllocRun) :
    (∀ e ∈ r.entries, e ∈ (items.foldl AllocRun.item r).entries) ∧
      ∀ e ∈ (items.foldl AllocRun.item r).entries, e ∈ r.entries ∨ ∃ x ∈ items, e.Of x := by
  induction items generalizing r with
  | nil => exact ⟨fun e he => he, fun e he => Or.inl he⟩
  | cons x items ih =>
    obtain ⟨ih1, ih2⟩ := ih (r.item x)
    obtain ⟨-, ⟨-, hentries, -⟩ | ⟨newHandle, -, hentries, -⟩⟩ := r.item_spec x
    · rw [hentries] at ih1 ih2
      exact ⟨ih1, fun e he => (ih2 e he).imp_right fun ⟨y, hy, hof⟩ => ⟨y, List.mem_cons_of_mem _ hy, hof⟩⟩
    · rw [hentries] at ih1 ih2
      refine ⟨fun e he => ih1 e (List.mem_append_left _ he), fun e he => ?_⟩
      rcases ih2 e he with he | ⟨y, hy, hof⟩
      · rcases List.mem_append.1 he with he | he
        · exact Or.inl he
        · obtain rfl := List.mem_singleton.1 he
          exact Or.inr ⟨x, List.mem_cons_self .., rfl, rfl, rfl, rfl, fun o ho => by rw [ho]; rfl⟩
      · exact Or.inr ⟨y, List.mem_cons_of_mem _ hy, hof⟩

theorem foldl_item_accessible (items : List RebuildItem) (r : AllocRun) (henv : r.drv.env.Reliable)
    (hitems : ∀ x ∈ items, 0 < x.size ∧ x.access ≠ []) :
    ∀ e ∈ (items.foldl AllocRun.item r).entries, e ∈ r.entries ∨
      (items.foldl AllocRun.item r).drv.accessible e.slot.vaddr e.slot.size = true := by
  induction items generalizing r with
  | nil => exact fun e he => Or.inl he
  | cons x items ih =>
    obtain ⟨hpos, haccess⟩ := hitems x (List.mem_cons_self ..)
    obtain ⟨hdrv, hcase⟩ := r.item_spec x
    intro e he
    rcases ih (r.item x) (by rw [hdrv, (x.mapNew_frame r.drv).2]; exact henv)
      (fun y hy => hitems y (List.mem_cons_of_mem _ hy)) e he with he | hacc
    swap
    · exact Or.inr hacc
    rcases hcase with ⟨-, hentries, -⟩ | ⟨newHandle, hsome, hentries, -⟩
    · exact Or.inl (hentries ▸ he)
    · rw [hentries] at he
      rcases List.mem_append.1 he with he | he
      · exact Or.inl he
      · obtain rfl := List.mem_singleton.1 he
        have hfree := (x.mapNew_keys r.drv).2.2 (by rw [hsome]; simp)
        have hacc := (RebuildItem.mapNew_reliable henv hpos hfree).2.2.2 haccess
        exact Or.inr ((foldl_item_grows items _).accessible (hdrv ▸ hacc))

section First
variable {d : Driver} {pre post : List RebuildItem} {x : RebuildItem} {va size : Nat}

theorem exists_first_meeting {items : List RebuildItem} (hx : x ∈ items) (va size : Nat)
    (hmeets : x.vaddr < va + size ∧ va < x.vaddr + x.size) :
    ∃ pre y post, items = pre ++ y :: post ∧ (y.vaddr < va + size ∧ va < y.vaddr + y.size) ∧
      ∀ z ∈ pre, va + size ≤ z.vaddr ∨ z.vaddr + z.size ≤ va := by
  have hsome : (items.find? fun y => decide (y.vaddr < va + size ∧ va < y.vaddr + y.size)).isSome := by
    rw [List.find?_isSome]
    exact ⟨x, hx, decide_eq_true hmeets⟩
  obtain ⟨y, hy⟩ := Option.isSome_iff_exists.1 hsome
  obtain ⟨hmeet, pre, post, hsplit, hpre⟩ := List.find?_eq_some_iff_append.1 hy
  refine ⟨pre, y, post, hsplit, of_decide_eq_true hmeet, fun z hz => ?_⟩
  have hz := hpre z hz
  simp only [Bool.not_eq_true', decide_eq_false_iff_not] at hz
  omega

theorem free_of_apart (hfree : ∀ m ∈ d.maps, va + size ≤ m.va ∨ m.va + m.size ≤ va)
    (hpre : ∀ y ∈ pre, va + size ≤ y.vaddr ∨ y.vaddr + y.size ≤ va) :
    ∀ m ∈ (rebuildAlloc pre d).drv.maps, va + size ≤ m.va ∨ m.va + m.size ≤ va := by
  intro m hm
  rcases ((AllocRun.tracks_start d 0).foldl pre).cases hm with ⟨m', hm', hkey⟩ | ⟨e, he, hkey⟩
  · simp only [Mapping.key, Prod.mk.injEq] at hkey
    have := hfree m' hm'
    omega
  · obtain ⟨y, hy, -, hva, hsize, -⟩ := ((foldl_item_entries pre ⟨d, [], 0⟩).2 e he).resolve_left (by simp)
    simp only [Mapping.key, RebuildEntry.key, Prod.mk.injEq] at hkey
    have := hpre y hy
    omega

theorem rebuildAlloc_split (pre post : List RebuildItem) (x : RebuildItem) (d : Driver) :
    rebuildAlloc (pre ++ x :: post) d = post.foldl AllocRun.item ((rebuildAlloc pre d).item x) := by
  rw [rebuildAlloc, rebuildAlloc, List.foldl_append, List.foldl_cons]

/-- The first item that meets a free range it lies in is mapped. -/
theorem exists_entry_of_first (henv : d.env.Reliable) (hpos : 0 < x.size)
    (hfree : ∀ m ∈ d.maps, va + size ≤ m.va ∨ m.va + m.size ≤ va)
    (hpre : ∀ y ∈ pre, va + size ≤ y.vaddr ∨ y.vaddr + y.size ≤ va)
    (hin : va ≤ x.vaddr ∧ x.vaddr + x.size ≤ va + size) :
    ∃ e ∈ ((rebuildAlloc pre d).item x).entries, e.Of x := by
  have htracks := (AllocRun.tracks_start d 0).foldl pre
  have henv' : (rebuildAlloc pre d).drv.env.Reliable := htracks.env ▸ henv
  have hfree' := free_of_apart hfree hpre
  obtain ⟨hsome, -⟩ := RebuildItem.mapNew_reliable (x := x) henv' hpos fun m hm => by
    have := hfree' m hm
    omega
  obtain ⟨-, ⟨hnone, -⟩ | ⟨newHandle, -, hentries, -⟩⟩ := (rebuildAlloc pre d).item_spec x
  · exact absurd hnone hsome
  rw [hentries]
  exact ⟨_, List.mem_append_right _ (List.mem_singleton_self _), rfl, rfl, rfl, rfl, fun o ho => by rw [ho]; rfl⟩

theorem not_entry_of_taken (htaken : ∃ m ∈ (rebuildAlloc pre d).drv.maps, m.va < x.vaddr + x.size ∧ x.vaddr < m.va + m.size)
    (hkeys : ∀ y ∈ pre ++ post, y.key ≠ x.key) :
    ∀ e ∈ (rebuildAlloc (pre ++ x :: post) d).entries, e.slot.key ≠ x.key := by
  have hnone : ((rebuildAlloc pre d).item x).entries = (rebuildAlloc pre d).entries := by
    obtain ⟨-, ⟨-, hentries, -⟩ | ⟨newHandle, hsome, -⟩⟩ := (rebuildAlloc pre d).item_spec x
    · exact hentries
    · obtain ⟨m, hm, hmeets⟩ := htaken
      have := (x.mapNew_keys _).2.2 (by rw [hsome]; simp) m hm
      omega
  intro e he
  rw [rebuildAlloc_split] at he
  rcases (foldl_item_entries post _).2 e he with he | ⟨y, hy, hof⟩
  · rw [hnone] at he
    obtain ⟨y, hy, hof⟩ := ((foldl_item_entries pre ⟨d, [], 0⟩).2 e he).resolve_left (by simp)
    exact hof.1 ▸ hkeys y (List.mem_append_left _ hy)
  · exact hof.1 ▸ hkeys y (List.mem_append_right _ hy)

end First

/-! ### Copies that succeed -/

theorem Driver.Same.accessible {d d' : Driver} (h : d.Same d') (a n : Nat) : d'.accessible a n = d.accessible a n := by
  rw [Driver.accessible, Driver.accessible, h.maps]

theorem same_saveSlots (strict : Bool) (xs : List Slot) (r : SaveRun) : r.drv.Same (saveSlots strict xs r).2.drv := by
  induction xs generalizing r with
  | nil => exact Driver.Same.refl _
  | cons y xs ih =>
    have hcopy := memcpyDtoH_drv r.drv r.data y
    unfold saveSlots
    dsimp only
    split_ifs
    · exact hcopy.trans (ih ⟨_, _, _, _⟩)
    · exact hcopy
    · exact hcopy.trans (ih ⟨_, _, _, _⟩)

theorem same_saveGroup (async strict : Bool) (xs : List Slot) (r : SaveRun) :
    r.drv.Same (saveGroup async strict xs r).2.drv := by
  unfold saveGroup
  split_ifs
  · have hslots := same_saveSlots strict xs { r with drv := (r.drv.calls 1).2 }
    have h := (Driver.same_calls r.drv 1).trans (hslots.trans (Driver.same_calls _ 1))
    dsimp only
    split_ifs
    · exact h
    · exact h.trans (Driver.same_calls _ 1)
    · exact h.trans (Driver.same_calls _ 1)
  · exact same_saveSlots true xs r

theorem accessible_of_memcpyDtoH {d : Driver} {data : Nat → Byte} {x : Slot} (h : (d.memcpyDtoH data x).1 = true) :
    d.accessible x.vaddr x.size = true := by
  unfold Driver.memcpyDtoH Driver.call at h
  dsimp only at h
  split_ifs at h with hok
  exact (Bool.and_eq_true _ _ ▸ hok).1

theorem accessible_of_saveSlots (xs : List Slot) (r : SaveRun) (h : (saveSlots true xs r).1 = true) :
    ∀ x ∈ xs, r.drv.accessible x.vaddr x.size = true := by
  induction xs generalizing r with
  | nil => simp
  | cons y xs ih =>
    unfold saveSlots at h
    dsimp only at h
    split_ifs at h with hok hstrict
    swap
    · exact absurd rfl hstrict
    refine List.forall_mem_cons.2 ⟨accessible_of_memcpyDtoH hok, fun x hx => ?_⟩
    rw [← (memcpyDtoH_drv r.drv r.data y).accessible]
    exact ih _ h x hx

theorem accessible_of_saveGroup (async : Bool) (xs : List Slot) (r : SaveRun)
    (h : (saveGroup async true xs r).1 = true) : ∀ x ∈ xs, r.drv.accessible x.vaddr x.size = true := by
  unfold saveGroup at h
  split_ifs at h with hasync
  · refine accessible_of_saveSlots xs { r with drv := (r.drv.calls 1).2 } ?_
    by_contra hfail
    rw [Bool.not_eq_true] at hfail
    simp [hfail] at h
  · exact accessible_of_saveSlots xs r h

theorem accessible_of_saveGroups {d : Driver} (async : Bool) (gs : List (List Slot)) (r : SaveRun) (hd : d.Same r.drv)
    (h : (saveGroups async true gs r).1 = true) : ∀ x ∈ gs.flatten, d.accessible x.vaddr x.size = true := by
  induction gs generalizing r with
  | nil => simp
  | cons g gs ih =>
    unfold saveGroups at h
    dsimp only at h
    split_ifs at h with hfail
    rw [Bool.not_eq_true', Bool.not_eq_false] at hfail
    intro x hx
    rw [List.flatten_cons] at hx
    rcases List.mem_append.1 hx with hx | hx
    · rw [← hd.accessible]
      exact accessible_of_saveGroup async g r hfail x hx
    · exact ih _ (hd.trans (same_saveGroup async true g r)) h x hx

/-! ### The teardown of targets that are mapped -/

namespace Driver

/-- `d'` is `d` with some mappings less. -/
structure Shrunk (d d' : Driver) : Prop where
  env : d'.env = d.env
  mem : d'.mem = d.mem
  maps : ∀ m ∈ d'.maps, m ∈ d.maps

theorem Shrunk.trans {d d' d'' : Driver} (h : d.Shrunk d') (h' : d'.Shrunk d'') : d.Shrunk d'' :=
  ⟨h'.env.trans h.env, h'.mem.trans h.mem, fun m hm => h.maps m (h'.maps m hm)⟩

theorem Same.shrunk {d d' : Driver} (h : d.Same d') : d.Shrunk d' := ⟨h.env, h.mem, fun _ hm => h.maps ▸ hm⟩

theorem Shrunk.mappedAt {d d' : Driver} (h : d.Shrunk d') {va n : Nat} (hat : d'.mappedAt va n = true) :
    d.mappedAt va n = true := by
  rw [Driver.mappedAt, List.any_eq_true] at hat ⊢
  obtain ⟨m, hm, heq⟩ := hat
  exact ⟨m, h.maps m hm, heq⟩

theorem tearStep_maps (d : Driver) (t : TearTarget) : (d.tearStep t).maps = (d.cuMemUnmap t.va t.size).2.maps := by
  unfold tearStep tear
  cases t.handle with
  | none => rfl
  | some h => exact Driver.cuMemRelease_maps ..

theorem shrunk_keptByTeardown : KeptByTeardown Shrunk where
  same := Same.shrunk
  trans := Shrunk.trans
  unmap d va size := by
    obtain ⟨hmem, henv⟩ := d.cuMemUnmap_frame va size
    refine ⟨henv, hmem, fun m hm => ?_⟩
    rcases d.cuMemUnmap_maps va size with ⟨-, heq⟩ | ⟨-, heq⟩
    · exact heq ▸ hm
    · rw [heq] at hm
      exact (List.mem_filter.1 hm).1
  release d handle := by
    obtain ⟨hmem, henv⟩ := d.cuMemRelease_frame handle
    exact ⟨henv, hmem, fun m hm => d.cuMemRelease_maps handle ▸ hm⟩

theorem shrunk_tearStep (d : Driver) (t : TearTarget) : d.Shrunk (d.tearStep t) := shrunk_keptByTeardown.tearStep d t

theorem shrunk_run_tearStep (ts : List TearTarget) (d : Driver) : d.Shrunk (run tearStep d ts) :=
  shrunk_keptByTeardown.run_tearStep ts d

/-- The driver does not fail the unmapping of any target. -/
def Answers (d : Driver) (ts : List TearTarget) : Prop :=
  AllSteps (fun d _ => d.env.fails d.clock = false) tearStep d ts

theorem answers_of_reliable {d : Driver} (henv : d.env.Reliable) (ts : List TearTarget) : d.Answers ts := by
  induction ts generalizing d with
  | nil => trivial
  | cons t ts ih => exact ⟨henv _, ih ((d.shrunk_tearStep t).env ▸ henv)⟩

/-- At the end no target is mapped with its extent: what can not be unmapped was not mapped so. -/
theorem Answers.unmapped {d : Driver} {ts : List TearTarget} (h : d.Answers ts) {t : TearTarget} (ht : t ∈ ts) :
    (run tearStep d ts).mappedAt t.va t.size = false := by
  induction ts generalizing d with
  | nil => exact absurd ht List.not_mem_nil
  | cons u ts ih =>
    rcases List.mem_cons.1 ht with rfl | ht
    · by_contra hat
      rw [Bool.not_eq_false] at hat
      -- it is mapped after its own turn, and so before it
      have hafter := (shrunk_run_tearStep ts (d.tearStep t)).mappedAt hat
      obtain ⟨d', hcall, hd'⟩ := cuMemUnmap_ok h.1 ((d.shrunk_tearStep t).mappedAt hafter)
      rw [mappedAt, tearStep_maps, hcall, List.any_eq_true] at hafter
      obtain ⟨m, hm, heq⟩ := hafter
      rw [Bool.and_eq_true, beq_iff_eq] at heq
      exact ((hd'.maps m).1 hm).2 heq.1
    · exact ih h.2 ht

theorem Answers.gone {d : Driver} {ts : List TearTarget} (h : d.Answers ts) {t : TearTarget} (ht : t ∈ ts)
    (hsize : ∀ m ∈ d.maps, m.va = t.va → m.size = t.size) : ∀ m ∈ (run tearStep d ts).maps, m.va ≠ t.va := by
  intro m hm hva
  have hat := mappedAt_of_mem hm
  rw [hva, hsize m ((shrunk_run_tearStep ts d).maps m hm) hva, h.unmapped ht] at hat
  exact absurd hat Bool.false_ne_true

end Driver

namespace IpcState

theorem shrunk_saveExports (s : IpcState) (buf : HostBuf) : s.drv.Shrunk (s.ipcSaveAndTeardownAllExports buf).2.1.drv :=
  Driver.shrunk_keptByTeardown.saveExports s buf

theorem shrunk_saveLocals (s : IpcState) (buf : HostBuf) : s.drv.Shrunk (s.ipcSaveAndTeardownLocalAllocs buf).2.1.drv :=
  Driver.shrunk_keptByTeardown.saveLocals s buf

end IpcState

/-- The functions that the rebuild of exports calls are there. -/
structure IpcFns.Rebuildable (fns : IpcFns) : Prop where
  create : fns.cuMemCreate = true
  map : fns.cuMemMap = true
  setAccess : fns.cuMemSetAccess = true
  reexport : fns.cuMemExport = true
  htod : fns.cuMemcpyHtoD = true
  reserve : fns.cuMemAddressReserve = true

/-! ### What a save leaves -/

namespace IpcState

section Saved
variable {s : IpcState} {buf : HostBuf}

theorem exists_slot_of_active {i : Nat} {rec : IpcExportRecord} (hrec : s.exports[i]? = some rec)
    (hactive : rec.active = true) :
    ∃ x ∈ s.deviceExports.flatten, x.key = i ∧ x.vaddr = rec.mappedVaddr ∧ x.size = rec.mappedSize := by
  have hmem : (rec, i) ∈ s.saveOrder := s.perm_saveOrder.mem_iff.2 (mem_activeExports.2 ⟨hrec, hactive⟩)
  rw [← map_fst_place (·.1.mappedSize) 0 s.saveOrder] at hmem
  obtain ⟨y, hy, heq⟩ := List.mem_map.1 hmem
  refine ⟨exportSlot y, ?_, ?_, ?_, ?_⟩
  · rw [flatten_deviceExports]
    exact List.mem_map_of_mem hy
  · exact congrArg Prod.snd heq
  · exact congrArg (·.1.mappedVaddr) heq
  · exact congrArg (·.1.mappedSize) heq

theorem exportCopies_ok_iff (henv : s.drv.env.Reliable) : (s.exportCopies buf).1 = true ↔
    ∀ rec ∈ s.exports, rec.active = true → s.drv.accessible rec.mappedVaddr rec.mappedSize = true := by
  have hpin := s.drv.same_pinHost s.fns s.totalNeeded
  constructor
  · intro hok rec hrec hactive
    obtain ⟨i, hi⟩ := List.mem_iff_getElem?.1 hrec
    obtain ⟨x, hx, -, hva, hsize⟩ := exists_slot_of_active hi hactive
    rw [← hva, ← hsize]
    exact accessible_of_saveGroups _ _ _ hpin hok x hx
  · intro hacc
    refine (saveGroups_reliable (r := ⟨(s.drv.pinHost s.fns s.totalNeeded).2, buf.data, [], []⟩) _ _ _
      (hpin.env ▸ henv) fun x hx => ?_).1
    obtain ⟨⟨rec, hrec, hactive, hva, hsize⟩, -⟩ := mem_deviceExports hx
    rw [hpin.accessible, hva, hsize]
    exact hacc rec (List.mem_of_getElem? hrec) hactive

/-- The record of a saved range, after the teardown. -/
def tornRecord (rec : IpcExportRecord) (offset : Nat) (fd : Int) : IpcExportRecord :=
  { rec with
    savedDataOffset := offset
    hasSavedDataOffset := true
    exportedFd := fd
    tornDown := true
    localHandle := 0 }

/-- `s'` and `buf` are what a save of `s` leaves whose copies have all succeeded. -/
structure Saved (s s' : IpcState) (buf : HostBuf) : Prop where
  env : s'.drv.env = s.drv.env
  fns : s'.fns = s.fns
  maps : ∀ m ∈ s'.drv.maps, m ∈ s.drv.maps
  gone : ∀ rec ∈ s.exports, rec.active = true → s.drv.mappedAt rec.mappedVaddr rec.mappedSize = true →
    ∀ m ∈ s'.drv.maps, m.va ≠ rec.mappedVaddr
  active : ∀ (i : Nat) (rec : IpcExportRecord), s.exports[i]? = some rec → rec.active = true →
    ∃ x ∈ s.deviceExports.flatten, x.key = i ∧ (∃ fd, s'.exports[i]? = some (tornRecord rec x.offset fd)) ∧
      ∀ j < rec.mappedSize, buf.data (x.offset + j) = s.drv.mem (rec.mappedVaddr + j)
  idle : ∀ (i : Nat) (rec : IpcExportRecord), s.exports[i]? = some rec → rec.active = false →
    s'.exports[i]? = some (markTorn (closeFd rec))
  length : s'.exports.length = s.exports.length

theorem length_foldl_recordOffset (xs : List Slot) (exports : List IpcExportRecord) :
    (xs.foldl recordOffset exports).length = exports.length := by
  induction xs generalizing exports with
  | nil => rfl
  | cons y xs ih => exact (ih _).trans (List.length_modify ..)

theorem exportCopies_bytes (hall : ∀ x ∈ s.deviceExports.flatten, x ∈ (s.exportCopies buf).2.2.saved) :
    (∀ x ∈ s.deviceExports.flatten, x ∈ (s.exportCopies buf).2.2.touched) ∧
      ∀ x ∈ s.deviceExports.flatten, ∀ j < x.size,
        (s.exportCopies buf).2.2.data (x.offset + j) = s.drv.mem (x.vaddr + j) := by
  have hpin := s.drv.same_pinHost s.fns s.totalNeeded
  unfold exportCopies at hall ⊢
  dsimp only at hall ⊢
  generalize s.drv.pinHost s.fns s.totalNeeded = pin at hpin hall
  obtain ⟨hf, -⟩ := saveGroups_spec (pin.1 && s.fns.asyncDtoH) true s.deviceExports (d := s.drv)
    (r := ⟨pin.2, buf.data, [], []⟩) ⟨hpin, by simp⟩ s.apart_deviceExports (by simp)
  have hvis := saveGroups_visits (pin.1 && s.fns.asyncDtoH) true s.deviceExports ⟨pin.2, buf.data, [], []⟩
  exact ⟨fun x hx => (hvis.saved x (hall x hx)).resolve_left (by simp), fun x hx => hf.saved x (hall x hx)⟩

theorem exportCopies_saved (henv : s.drv.env.Reliable) (hok : (s.exportCopies buf).1 = true) :
    ∀ x ∈ s.deviceExports.flatten, x ∈ (s.exportCopies buf).2.2.saved := by
  have hacc := (exportCopies_ok_iff henv).1 hok
  have hpin := s.drv.same_pinHost s.fns s.totalNeeded
  unfold exportCopies
  dsimp only
  generalize s.drv.pinHost s.fns s.totalNeeded = pin at hpin
  obtain ⟨-, -, hall⟩ := saveGroups_reliable (r := ⟨pin.2, buf.data, [], []⟩) (pin.1 && s.fns.asyncDtoH) true
    s.deviceExports (hpin.env ▸ henv) fun x hx => by
      obtain ⟨⟨rec, hrec, hactive, hva, hsize⟩, -⟩ := mem_deviceExports hx
      rw [hpin.accessible, hva, hsize]
      exact hacc rec (List.mem_of_getElem? hrec) hactive
  rw [List.nil_append] at hall
  intro x hx
  rw [hall]
  exact hx

/-- The records and the buffer after a save whose copies are all reported successful, whatever its teardown has done
to the driver. -/
structure Copied (s s' : IpcState) (buf : HostBuf) : Prop where
  active : ∀ (i : Nat) (rec : IpcExportRecord), s.exports[i]? = some rec → rec.active = true →
    ∃ x ∈ s.deviceExports.flatten, x.key = i ∧ (∃ fd, s'.exports[i]? = some (tornRecord rec x.offset fd)) ∧
      ∀ j < rec.mappedSize, buf.data (x.offset + j) = s.drv.mem (rec.mappedVaddr + j)
  idle : ∀ (i : Nat) (rec : IpcExportRecord), s.exports[i]? = some rec → rec.active = false →
    s'.exports[i]? = some (markTorn (closeFd rec))
  length : s'.exports.length = s.exports.length

theorem Saved.copied {s' : IpcState} (h : Saved s s' buf) : Copied s s' buf := ⟨h.active, h.idle, h.length⟩

theorem copied_of_ok (hfns : s.fns.Resolved) (hsize : s.ipcGetExportDataSize ≤ buf.size)
    (hok : (s.exportCopies buf).1 = true) (hall : ∀ x ∈ s.deviceExports.flatten, x ∈ (s.exportCopies buf).2.2.saved) :
    (∃ n, (s.ipcSaveAndTeardownAllExports buf).1 = some n) ∧ (s.ipcSaveAndTeardownAllExports buf).2.2.size = buf.size ∧
      Copied s (s.ipcSaveAndTeardownAllExports buf).2.1 (s.ipcSaveAndTeardownAllExports buf).2.2 := by
  obtain ⟨-, htouched⟩ := s.exportCopies_spec buf
  obtain ⟨hall, hbytes⟩ := exportCopies_bytes hall
  have hres := saveExports_eq (s := s) (by rw [hfns.release, hfns.dtoh]; rfl) hsize
  rw [hok] at hres
  simp only [Bool.not_true, Bool.false_eq_true, if_false] at hres
  have hexports : (s.ipcSaveAndTeardownAllExports buf).2.1.exports =
      (((s.exportCopies buf).2.2.touched.foldl recordOffset s.exports).map closeFd).map markTorn := by rw [hres]
  have hbuf : (s.ipcSaveAndTeardownAllExports buf).2.2 = { buf with data := (s.exportCopies buf).2.2.data } := by rw [hres]
  refine ⟨⟨_, by rw [hres]⟩, by rw [hbuf], ?_, ?_, ?_⟩
  · intro i rec hrec hactive
    obtain ⟨x, hx, rfl, hva, hsz⟩ := exists_slot_of_active hrec hactive
    obtain ⟨fd, hfinal⟩ := record_of_touched htouched (hall x hx) hrec hactive
    refine ⟨x, hx, rfl, ⟨fd, by rw [hexports]; exact hfinal⟩, fun j hj => ?_⟩
    rw [hbuf, ← hva]
    exact hbytes x hx j (hsz ▸ hj)
  · intro i rec hrec hidle
    have hi : i < ((s.exportCopies buf).2.2.touched.foldl recordOffset s.exports).length := by
      rw [length_foldl_recordOffset]
      exact (List.getElem?_eq_some_iff.1 hrec).1
    obtain ⟨rec', hrec', ⟨heq, -⟩ | ⟨x, hx, hkey, -⟩⟩ := foldl_recordOffset _ _ (List.getElem?_eq_getElem hi)
    · rw [hexports, List.getElem?_map, List.getElem?_map, List.getElem?_eq_getElem hi, heq,
        Option.some.inj (hrec'.symm.trans hrec)]
      rfl
    · obtain ⟨⟨rec'', hrec'', hactive, -⟩, -⟩ := mem_deviceExports (htouched x hx)
      rw [hkey, hrec] at hrec''
      rw [← Option.some.inj hrec'', hidle] at hactive
      exact absurd hactive Bool.false_ne_true
  · rw [hexports, List.length_map, List.length_map, length_foldl_recordOffset]

theorem saved_of_ok (henv : s.drv.env.Reliable) (hfns : s.fns.Resolved) (hsize : s.ipcGetExportDataSize ≤ buf.size)
    (hok : (s.exportCopies buf).1 = true) :
    (∃ n, (s.ipcSaveAndTeardownAllExports buf).1 = some n) ∧ (s.ipcSaveAndTeardownAllExports buf).2.2.size = buf.size ∧
      Saved s (s.ipcSaveAndTeardownAllExports buf).2.1 (s.ipcSaveAndTeardownAllExports buf).2.2 := by
  have hpass := exportPass (s := s) (by rw [hfns.release, hfns.dtoh]; rfl) hfns.unmap hsize
  obtain ⟨hsame, -⟩ := s.exportCopies_spec buf
  have hshrunk := hsame.shrunk.trans (Driver.shrunk_run_tearStep s.exportTargets (s.afterExportCopies buf))
  obtain ⟨hsome, hbuf, hcopied⟩ := copied_of_ok hfns hsize hok (exportCopies_saved henv hok)
  have hdrv := hpass.drv
  rw [if_pos hok] at hdrv
  rw [← hdrv] at hshrunk
  refine ⟨hsome, hbuf, hshrunk.env, hpass.fns, hshrunk.maps, ?_, hcopied.active, hcopied.idle, hcopied.length⟩
  intro rec hrec hactive hat
  rw [hdrv]
  have hactive' : rec.tornDown = false ∧ rec.hasMapping = true := by
    simp only [IpcExportRecord.active, Bool.and_eq_true, Bool.not_eq_true'] at hactive
    exact hactive.1
  have htarget : ⟨rec.mappedVaddr, rec.mappedSize, some rec.localHandle⟩ ∈ s.exportTargets :=
    List.mem_filterMap.2 ⟨rec, hrec, by simp [IpcExportRecord.target, hactive'.1, hactive'.2]⟩
  refine (Driver.answers_of_reliable (hsame.env ▸ henv) _).gone htarget fun m hm hva => ?_
  rw [hsame.maps] at hm
  obtain ⟨m', hm', heq⟩ := Driver.exists_mapping hat
  rw [Driver.eq_of_va_eq hm hm' (hva.trans heq.1.symm)]
  exact heq.2

end Saved

/-! ### The items of a saved state -/

section Items
variable {s s' : IpcState} {buf : HostBuf}

theorem pairwise_key_exportItems (s : IpcState) : s.exportItems.Pairwise fun x y => x.key < y.key := by
  rw [exportItems, List.pairwise_map]
  refine List.Pairwise.filter _ ?_
  have hidx : (s.exports.zipIdx.map Prod.snd).Pairwise (· < ·) := by
    rw [List.zipIdx_map_snd]
    exact List.pairwise_lt_range'
  exact List.pairwise_map.1 hidx

theorem Copied.mem_items (h : Copied s s' buf) {i : Nat} {rec : IpcExportRecord} (hrec : s.exports[i]? = some rec)
    (hactive : rec.active = true) (hprop : rec.hasSavedProp = true) :
    ∃ x ∈ s'.exportItems, x.key = i ∧ x.vaddr = rec.mappedVaddr ∧ x.size = rec.mappedSize := by
  obtain ⟨x, -, -, ⟨fd, hrec'⟩, -⟩ := h.active i rec hrec hactive
  refine ⟨s'.exportItem (tornRecord rec x.offset fd, i), List.mem_map_of_mem (List.mem_filter.2 ⟨?_, ?_⟩), rfl, rfl, rfl⟩
  · exact List.mem_zipIdx_iff_getElem?.2 hrec'
  · simp only [IpcExportRecord.active, Bool.and_eq_true] at hactive
    simp [IpcExportRecord.tornActive, tornRecord, hactive.1.2, of_decide_eq_true hactive.2, hprop]

/-- Every item is that of a record that was saved, whose bytes are where the item says. -/
theorem Copied.item (h : Copied s s' buf) (hlive : ∀ rec ∈ s.exports, rec.tornDown = false) {x : RebuildItem}
    (hx : x ∈ s'.exportItems) :
    ∃ rec : IpcExportRecord, s.exports[x.key]? = some rec ∧ rec.active = true ∧ x.vaddr = rec.mappedVaddr ∧
      x.size = rec.mappedSize ∧ x.access ≠ [] ∧ ∃ o, x.savedOffset = some o ∧
        o + rec.mappedSize ≤ s.ipcGetExportDataSize ∧
        ∀ j < rec.mappedSize, buf.data (o + j) = s.drv.mem (rec.mappedVaddr + j) := by
  obtain ⟨⟨rec', i⟩, hmem, rfl⟩ := List.mem_map.1 hx
  obtain ⟨hmem, htorn⟩ := List.mem_filter.1 hmem
  rw [List.mem_zipIdx_iff_getElem?] at hmem
  have hi : i < s.exports.length := h.length ▸ (List.getElem?_eq_some_iff.1 hmem).1
  have hrec := List.getElem?_eq_getElem hi
  have hactive : s.exports[i].active = true := by
    by_contra hidle
    rw [Bool.not_eq_true] at hidle
    -- a record without bytes to save is not one that the rebuild takes up
    have hrec' := h.idle i _ hrec hidle
    have hmark := (tornActive_markTorn hidle).1
    rw [← Option.some.inj (hmem.symm.trans hrec')] at hmark
    have hnot : s.exports[i].tornActive = false := by
      simp [IpcExportRecord.tornActive, hlive _ (List.getElem_mem hi)]
    rw [hnot] at hmark
    simp [hmark] at htorn
  obtain ⟨x, hslot, hkey, ⟨fd, hrec'⟩, hbytes⟩ := h.active i _ hrec hactive
  obtain rfl := Option.some.inj (hmem.symm.trans hrec')
  obtain ⟨⟨rec, hrec'', -, -, hsize⟩, hbound⟩ := mem_deviceExports hslot
  rw [hkey, hrec] at hrec''
  obtain rfl := Option.some.inj hrec''
  exact ⟨_, hrec, hactive, rfl, rfl, s'.accessOf_ne_nil _ _, x.offset, rfl, hsize ▸ hbound, hbytes⟩

end Items

/-! ### The round trip -/

/-- No record is torn down; one with a mapping has its properties, and its range is mapped as a whole. -/
structure LiveExports (s : IpcState) : Prop where
  live : ∀ rec ∈ s.exports, rec.tornDown = false
  prop : ∀ rec ∈ s.exports, rec.hasMapping = true → rec.hasSavedProp = true
  mapped : ∀ rec ∈ s.exports, rec.hasMapping = true → s.drv.mappedAt rec.mappedVaddr rec.mappedSize = true

/-- The save into a buffer of the size asked for. -/
def saveExports (s : IpcState) (data : Nat → Byte) : Option Nat × IpcState × HostBuf :=
  s.ipcSaveAndTeardownAllExports ⟨s.ipcGetExportDataSize, data⟩

/-- The save, then the rebuild from its buffer. -/
def exportRoundTrip (s : IpcState) (data : Nat → Byte) : IpcState :=
  ((s.saveExports data).2.1.ipcRebuildAndRestoreAllExports (s.saveExports data).2.2).2

/-- The bytes of the records are in places that do not overlap. -/
def savedApart (a b : IpcExportRecord) : Prop :=
  a.savedDataOffset + a.mappedSize ≤ b.savedDataOffset ∨ b.savedDataOffset + b.mappedSize ≤ a.savedDataOffset

theorem same_trackExport (s : IpcState) (e : RebuildEntry) : s.drv.Same (s.trackExport e).drv := by
  unfold trackExport
  split
  · exact Driver.Same.refl _
  · dsimp only
    split_ifs
    · exact Driver.same_calls s.drv 1
    · exact Driver.Same.refl _

theorem same_foldl_trackExport (entries : List RebuildEntry) (s : IpcState) :
    s.drv.Same (entries.foldl trackExport s).drv := by
  induction entries generalizing s with
  | nil => exact Driver.Same.refl _
  | cons e entries ih => exact (s.same_trackExport e).trans (ih _)

theorem same_rebuildExports {s : IpcState} (hfns : s.fns.Rebuildable) (buf : HostBuf) :
    (rebuildCopy s.fns buf (rebuildAlloc s.exportItems s.drv)).drv.Same
      (s.ipcRebuildAndRestoreAllExports buf).2.drv := by
  unfold ipcRebuildAndRestoreAllExports
  simp only [hfns.create, hfns.map, hfns.htod, hfns.reserve, Bool.and_true, Bool.not_true, Bool.false_eq_true, if_false]
  exact same_foldl_trackExport _ { s with drv := _ }

section RoundTrip
variable {s s' : IpcState} {buf : HostBuf}

theorem LiveExports.active (h : s.LiveExports) {rec : IpcExportRecord} (hrec : rec ∈ s.exports)
    (hmap : rec.hasMapping = true) : rec.active = true := by
  obtain ⟨m, hm, heq⟩ := Driver.exists_mapping (h.mapped rec hrec hmap)
  have hpos := s.drv.maps_pos m hm
  rw [heq.2] at hpos
  simp [IpcExportRecord.active, h.live rec hrec, hmap, hpos]

theorem LiveExports.eq_or_apart (h : s.LiveExports) {a b : IpcExportRecord} (ha : a ∈ s.exports) (hb : b ∈ s.exports)
    (hma : a.hasMapping = true) (hmb : b.hasMapping = true) :
    (a.mappedVaddr = b.mappedVaddr ∧ a.mappedSize = b.mappedSize) ∨
      a.mappedVaddr + a.mappedSize ≤ b.mappedVaddr ∨ b.mappedVaddr + b.mappedSize ≤ a.mappedVaddr := by
  obtain ⟨m, hm, hm'⟩ := Driver.exists_mapping (h.mapped a ha hma)
  obtain ⟨n, hn, hn'⟩ := Driver.exists_mapping (h.mapped b hb hmb)
  by_cases heq : m = n
  · subst heq
    exact Or.inl ⟨hm'.1.symm.trans hn'.1, hm'.2.symm.trans hn'.2⟩
  · have hapart := s.drv.maps_apart.forall hm hn heq
    unfold Mapping.apart at hapart
    omega

theorem Saved.free (h : Saved s s' buf) {rec : IpcExportRecord} (hrec : rec ∈ s.exports) (hactive : rec.active = true)
    (hat : s.drv.mappedAt rec.mappedVaddr rec.mappedSize = true) :
    ∀ m ∈ s'.drv.maps, rec.mappedVaddr + rec.mappedSize ≤ m.va ∨ m.va + m.size ≤ rec.mappedVaddr := by
  intro m hm
  have hne := h.gone rec hrec hactive hat m hm
  obtain ⟨m', hm', heq⟩ := Driver.exists_mapping hat
  have hapart := s.drv.maps_apart.forall (h.maps m hm) hm' fun hmm => hne (hmm ▸ heq.1)
  unfold Mapping.apart at hapart
  omega

/-- A free range of a mapped record gets an entry, that of the first record with the range. -/
theorem Copied.exists_entry (h : Copied s s' buf) (hlive : s.LiveExports) (henv : s'.drv.env.Reliable)
    {rec : IpcExportRecord} (hrec : rec ∈ s.exports) (hmap : rec.hasMapping = true)
    (hfree : ∀ m ∈ s'.drv.maps, rec.mappedVaddr + rec.mappedSize ≤ m.va ∨ m.va + m.size ≤ rec.mappedVaddr) :
    ∃ e ∈ (rebuildAlloc s'.exportItems s'.drv).entries, e.slot.vaddr = rec.mappedVaddr ∧
      e.slot.size = rec.mappedSize ∧
      ∀ j < rec.mappedSize, buf.data (e.slot.offset + j) = s.drv.mem (rec.mappedVaddr + j) := by
  have hactive := hlive.active hrec hmap
  have hpos : 0 < rec.mappedSize := by
    simp only [IpcExportRecord.active, Bool.and_eq_true] at hactive
    exact of_decide_eq_true hactive.2
  obtain ⟨i, hi⟩ := List.mem_iff_getElem?.1 hrec
  obtain ⟨x, hx, -, hva, hsize⟩ := h.mem_items hi hactive (hlive.prop rec hrec hmap)
  -- the first item that meets the range has it as its own
  obtain ⟨pre, y, post, hsplit, hmeet, hpre⟩ := exists_first_meeting hx rec.mappedVaddr rec.mappedSize (by omega)
  obtain ⟨rec', hrec', hactive', hva', hsize', -, o, ho, -, hbytes⟩ :=
    h.item hlive.live (hsplit ▸ List.mem_append_right _ (List.mem_cons_self ..))
  have hmap' : rec'.hasMapping = true := by
    simp only [IpcExportRecord.active, Bool.and_eq_true] at hactive'
    exact hactive'.1.2
  obtain ⟨hsame, hsame'⟩ : rec'.mappedVaddr = rec.mappedVaddr ∧ rec'.mappedSize = rec.mappedSize := by
    rcases hlive.eq_or_apart (List.mem_of_getElem? hrec') hrec hmap' hmap with heq | hapart
    · exact heq
    · omega
  obtain ⟨e, he, -, heva, hesize, -, hoff⟩ := exists_entry_of_first (x := y) henv (by omega) hfree hpre (by omega)
  refine ⟨e, ?_, by omega, by omega, ?_⟩
  · rw [hsplit, rebuildAlloc_split]
    exact (foldl_item_entries post _).1 e he
  · rw [hoff o ho, ← hsame, ← hsame']
    exact hbytes

theorem Copied.entries (h : Copied s s' buf) (hlive : ∀ rec ∈ s.exports, rec.tornDown = false)
    (henv : s'.drv.env.Reliable) (hsize : s.ipcGetExportDataSize ≤ buf.size) :
    ∀ e ∈ (rebuildAlloc s'.exportItems s'.drv).entries,
      e.slot ∈ (rebuildCopy s'.fns buf (rebuildAlloc s'.exportItems s'.drv)).restored ∧
        (rebuildAlloc s'.exportItems s'.drv).drv.accessible e.slot.vaddr e.slot.size = true := by
  have htracks : (rebuildAlloc s'.exportItems s'.drv).Tracks s'.drv := (AllocRun.tracks_start s'.drv 0).foldl s'.exportItems
  have hitems : ∀ x ∈ s'.exportItems, 0 < x.size ∧ x.access ≠ [] ∧
      ∃ o, x.savedOffset = some o ∧ o + x.size ≤ s.ipcGetExportDataSize := by
    intro x hx
    obtain ⟨rec', -, hactive', -, hsize', hne, o, ho, hbound, -⟩ := h.item hlive hx
    simp only [IpcExportRecord.active, Bool.and_eq_true] at hactive'
    exact ⟨hsize' ▸ of_decide_eq_true hactive'.2, hne, o, ho, hsize' ▸ hbound⟩
  have hacc : ∀ e ∈ (rebuildAlloc s'.exportItems s'.drv).entries,
      (rebuildAlloc s'.exportItems s'.drv).drv.accessible e.slot.vaddr e.slot.size = true := fun e he =>
    (foldl_item_accessible s'.exportItems ⟨s'.drv, [], 0⟩ henv
      (fun x hx => ⟨(hitems x hx).1, (hitems x hx).2.1⟩) e he).resolve_left (by simp)
  have hfits : ∀ e ∈ (rebuildAlloc s'.exportItems s'.drv).entries, e.slot.offset + e.slot.size ≤ buf.size ∧
      (rebuildAlloc s'.exportItems s'.drv).drv.accessible e.slot.vaddr e.slot.size = true := by
    intro e he
    obtain ⟨x, hx, -, -, hesize, -, hoff⟩ := ((foldl_item_entries _ ⟨s'.drv, [], 0⟩).2 e he).resolve_left (by simp)
    obtain ⟨-, -, o, ho, hbound⟩ := hitems x hx
    refine ⟨?_, hacc e he⟩
    rw [hoff o ho]
    omega
  have hdone := rebuildCopy_reliable s'.fns (fun n _ => by rw [htracks.env]; exact henv n) hfits
  exact fun e he => ⟨hdone e he, hacc e he⟩

/-- The rebuild on a reliable driver: a range that is free is mapped again and reads what it read before. -/
theorem Copied.restored (h : Copied s s' buf) (hlive : s.LiveExports) (henv : s'.drv.env.Reliable)
    (hfns : s'.fns.Rebuildable) (hsize : s.ipcGetExportDataSize ≤ buf.size) {rec : IpcExportRecord}
    (hrec : rec ∈ s.exports) (hmap : rec.hasMapping = true)
    (hfree : ∀ m ∈ s'.drv.maps, rec.mappedVaddr + rec.mappedSize ≤ m.va ∨ m.va + m.size ≤ rec.mappedVaddr) :
    (s'.ipcRebuildAndRestoreAllExports buf).2.drv.mappedAt rec.mappedVaddr rec.mappedSize = true ∧
      (s'.ipcRebuildAndRestoreAllExports buf).2.drv.accessible rec.mappedVaddr rec.mappedSize = true ∧
      ∀ j < rec.mappedSize,
        (s'.ipcRebuildAndRestoreAllExports buf).2.drv.mem (rec.mappedVaddr + j) = s.drv.mem (rec.mappedVaddr + j) := by
  obtain ⟨e, he, hva, hsz, hbytes⟩ := h.exists_entry hlive henv hrec hmap hfree
  have htracks : (rebuildAlloc s'.exportItems s'.drv).Tracks s'.drv := (AllocRun.tracks_start s'.drv 0).foldl s'.exportItems
  have hsame := same_rebuildExports hfns buf
  have hcopy := rebuildCopy_spec s'.fns buf htracks.apart
  obtain ⟨hdone, hacc⟩ := h.entries hlive.live henv hsize e he
  refine ⟨?_, ?_, fun j hj => ?_⟩
  · obtain ⟨m, hm, hkey⟩ := htracks.mapped he
    simp only [Mapping.key, RebuildEntry.key, Prod.mk.injEq] at hkey
    rw [← hva, ← hsz, ← hkey.1, ← hkey.2.1]
    exact Driver.mappedAt_of_mem (hsame.maps ▸ hcopy.maps ▸ hm)
  · rw [hsame.accessible, Driver.accessible, hcopy.maps, ← hva, ← hsz]
    exact hacc
  · rw [hsame.mem, ← hbytes j hj, ← hva]
    exact hcopy.restored _ hdone j (hsz ▸ hj)

/-- After a save whose copies succeed, the bytes of all mapped records are in the buffer, at places of
their own. -/
theorem Saved.places (h : Saved s s' buf) (hlive : s.LiveExports) :
    (s'.exports.filter (·.hasMapping)).Pairwise savedApart ∧
      ∀ rec ∈ s'.exports, rec.hasMapping = true → rec.hasSavedDataOffset = true ∧
        rec.savedDataOffset + rec.mappedSize ≤ s.ipcGetExportDataSize := by
  have hslot : ∀ (i : Nat) (rec' : IpcExportRecord), s'.exports[i]? = some rec' → rec'.hasMapping = true →
      ∃ x ∈ s.deviceExports.flatten, x.key = i ∧ rec'.savedDataOffset = x.offset ∧ rec'.mappedSize = x.size ∧
        rec'.hasSavedDataOffset = true := by
    intro i rec' hrec' hmap'
    have hi : i < s.exports.length := h.length ▸ (List.getElem?_eq_some_iff.1 hrec').1
    have hrec := List.getElem?_eq_getElem hi
    cases hactive : s.exports[i].active with
    | true =>
      obtain ⟨x, hx, hkey, ⟨fd, htorn⟩, -⟩ := h.active i _ hrec hactive
      obtain rfl := Option.some.inj (hrec'.symm.trans htorn)
      obtain ⟨⟨rec, hrec'', -, -, hsize⟩, -⟩ := mem_deviceExports hx
      rw [hkey, hrec] at hrec''
      obtain rfl := Option.some.inj hrec''
      exact ⟨x, hx, hkey, rfl, hsize.symm, rfl⟩
    | false =>
      -- a record with a mapping has bytes to save
      obtain rfl := Option.some.inj (hrec'.symm.trans (h.idle i _ hrec hactive))
      have hmap : s.exports[i].hasMapping = true := by
        obtain ⟨fd, hfd⟩ := closeFd_eq s.exports[i]
        rw [hfd, markTorn] at hmap'
        split_ifs at hmap' <;> exact hmap'
      exact absurd (hactive.symm.trans (hlive.active (List.getElem_mem hi) hmap)) Bool.false_ne_true
  constructor
  · rw [List.pairwise_filter, List.pairwise_iff_getElem]
    intro i j hi hj hij hmap hmap'
    obtain ⟨x, hx, hkey, hoff, hsize, -⟩ := hslot i _ (List.getElem?_eq_getElem hi) hmap
    obtain ⟨y, hy, hkey', hoff', hsize', -⟩ := hslot j _ (List.getElem?_eq_getElem hj) hmap'
    have hsymm : Std.Symm Slot.apart := ⟨fun _ _ hxy => hxy.symm⟩
    have hapart := s.apart_deviceExports.forall hx hy fun heq => hij.ne (by rw [← hkey, ← hkey', heq])
    unfold savedApart
    rw [hoff, hoff', hsize, hsize']
    exact hapart
  · intro rec' hrec' hmap'
    obtain ⟨i, hi⟩ := List.mem_iff_getElem?.1 hrec'
    obtain ⟨x, hx, -, hoff, hsize, hhas⟩ := hslot i rec' hi hmap'
    exact ⟨hhas, by rw [hoff, hsize]; exact (mem_deviceExports hx).2⟩

theorem rebuild_none (hfns : s'.fns.Rebuildable) (hlive : ∀ rec ∈ s'.exports, rec.tornDown = false) (buf : HostBuf) :
    (s'.ipcRebuildAndRestoreAllExports buf).2.drv.maps = s'.drv.maps ∧
      (s'.ipcRebuildAndRestoreAllExports buf).2.drv.mem = s'.drv.mem := by
  have hitems : s'.exportItems = [] := by
    rw [exportItems, List.filter_eq_nil_iff.2, List.map_nil]
    intro x hx
    simp [IpcExportRecord.tornActive, hlive x.1 (List.fst_mem_of_mem_zipIdx hx)]
  have hsame := same_rebuildExports hfns buf
  rw [hitems] at hsame
  have hcopy := rebuildCopy_spec (r := rebuildAlloc [] s'.drv) s'.fns buf List.Pairwise.nil
  refine ⟨hsame.maps.trans hcopy.maps, hsame.mem.trans ?_⟩
  funext a
  exact hcopy.frame a (by simp [rebuildAlloc])

end RoundTrip

/-- **The round trip of the exports.** A save into a buffer of the size asked for fails only if some range
can not be read. If it succeeds, the bytes lie in the buffer at places of their own; and after the rebuild
every exported range is mapped and reads what it read before the save. -/
theorem exports_roundTrip (s : IpcState) (hlive : s.LiveExports) (henv : s.drv.env.Reliable) (hfns : s.fns.Resolved)
    (hrebuild : s.fns.Rebuildable) (data : Nat → Byte) :
    ¬ s.ipcGetExportDataSize < s.totalNeeded ∧
      ((s.saveExports data).1 = none ↔
        ∃ rec ∈ s.exports, rec.hasMapping = true ∧ s.drv.accessible rec.mappedVaddr rec.mappedSize = false) ∧
      ((s.saveExports data).1 ≠ none →
        ((s.saveExports data).2.1.exports.filter (·.hasMapping)).Pairwise savedApart ∧
          ∀ rec ∈ (s.saveExports data).2.1.exports, rec.hasMapping = true → rec.hasSavedDataOffset = true ∧
            rec.savedDataOffset + rec.mappedSize ≤ s.ipcGetExportDataSize) ∧
      ∀ rec ∈ s.exports, rec.hasMapping = true →
        (s.exportRoundTrip data).drv.mappedAt rec.mappedVaddr rec.mappedSize = true ∧
          ∀ i < rec.mappedSize,
            (s.exportRoundTrip data).drv.mem (rec.mappedVaddr + i) = s.drv.mem (rec.mappedVaddr + i) := by
  have hsize : s.ipcGetExportDataSize ≤ (⟨s.ipcGetExportDataSize, data⟩ : HostBuf).size := le_rfl
  have hiff : (s.exportCopies ⟨s.ipcGetExportDataSize, data⟩).1 = true ↔ _ := exportCopies_ok_iff henv
  refine ⟨by rw [s.totalNeeded_eq]; exact lt_irrefl _, ?_⟩
  cases hok : (s.exportCopies ⟨s.ipcGetExportDataSize, data⟩).1 with
  | true =>
    obtain ⟨⟨n, hn⟩, hbuf, hsaved⟩ := saved_of_ok henv hfns hsize hok
    have hn : (s.saveExports data).1 = some n := hn
    refine ⟨?_, fun _ => hsaved.places hlive, fun rec hrec hmap => ?_⟩
    · refine ⟨fun hnone => absurd (hn.symm.trans hnone) (by simp), ?_⟩
      rintro ⟨rec, hrec, hmap, hacc⟩
      rw [hiff.1 hok rec hrec (hlive.active hrec hmap)] at hacc
      exact absurd hacc (by simp)
    · obtain ⟨hat, -, hbytes⟩ := hsaved.copied.restored hlive (hsaved.env ▸ henv) (hsaved.fns ▸ hrebuild) hbuf.ge hrec hmap
        (hsaved.free hrec (hlive.active hrec hmap) (hlive.mapped rec hrec hmap))
      exact ⟨hat, hbytes⟩
  | false =>
    have hres : s.saveExports data = _ := saveExports_eq (by rw [hfns.release, hfns.dtoh]; rfl) hsize
    rw [hok, Bool.not_false, if_pos rfl] at hres
    have hsame := (s.exportCopies_spec ⟨s.ipcGetExportDataSize, data⟩).1
    have hnone : (s.saveExports data).1 = none := by rw [hres]
    have htorn : ∀ rec ∈ (s.saveExports data).2.1.exports, rec.tornDown = false := by
      intro rec hrec
      have hmem := List.mem_map_of_mem (f := IpcExportRecord.tornDown) hrec
      rw [hres, map_foldl_recordOffset _ fun rec offset => rfl] at hmem
      obtain ⟨rec', hrec', heq⟩ := List.mem_map.1 hmem
      rw [← heq, hlive.live rec' hrec']
    have hsaved : (s.saveExports data).2.1.fns.Rebuildable := by
      rw [hres]
      exact hrebuild
    obtain ⟨hmaps, hmem⟩ := rebuild_none hsaved htorn (s.saveExports data).2.2
    have hdrv : (s.saveExports data).2.1.drv = s.afterExportCopies ⟨s.ipcGetExportDataSize, data⟩ := by rw [hres]
    rw [hdrv] at hmaps hmem
    refine ⟨⟨fun _ => ?_, fun _ => hnone⟩, fun h => absurd hnone h, fun rec hrec hmap => ⟨?_, fun i _ => ?_⟩⟩
    · by_contra hall
      simp only [not_exists, not_and, Bool.not_eq_false] at hall
      rw [hiff.2] at hok
      · exact absurd hok (by simp)
      · intro rec hrec hactive
        simp only [IpcExportRecord.active, Bool.and_eq_true] at hactive
        exact hall rec hrec hactive.1.2
    · rw [Driver.mappedAt, exportRoundTrip, hmaps, hsame.maps]
      exact hlive.mapped rec hrec hmap
    · rw [exportRoundTrip, hmem, hsame.mem]

/-- One allocation, exported twice: two records with one address. -/
def exportedTwice : IpcState :=
  (run HookedProcess.call HookedProcess.empty (HookedProcess.exportHistory ++ [.exportHandle 1 HookedProcess.posixFileDescriptor])).ipc

theorem liveExports_exportedTwice : exportedTwice.LiveExports :=
  ⟨by decide, by decide, by decide⟩

theorem exports_roundTrip_exportedTwice : exportedTwice.exports.length = 2 ∧
    ∀ rec ∈ exportedTwice.exports, rec.hasMapping = true → ∀ i < rec.mappedSize,
      (exportedTwice.exportRoundTrip fun _ => 0).drv.mem (rec.mappedVaddr + i) =
        exportedTwice.drv.mem (rec.mappedVaddr + i) :=
  ⟨by decide, fun rec hrec hmap => ((exports_roundTrip exportedTwice liveExports_exportedTwice (fun _ => rfl)
    ⟨rfl, rfl, rfl⟩ ⟨rfl, rfl, rfl, rfl, rfl, rfl⟩ fun _ => 0).2.2.2 rec hrec hmap).2⟩

end IpcState

end GpuCr
