import GpuCr.Ipc.Import
import Mathlib.Data.List.Nodup

/-!
# What the import rebuild binds

The import functions against a driver that knows which allocation of which exporting process is mapped at
an address. If every call succeeds, `ipc_import_from_shm_block` binds the import at place `k` of the table
to the entry at place `k` of the block (`importFromShmBlock_mapped`).
-/

namespace GpuCr

open Lib.Grouping

/-- An allocation of an exporting process, named by the address the exporter has it at. -/
structure ExporterAlloc where
  pid : Int
  vaddr : Nat
  deriving DecidableEq, Repr

/-- What the driver and the kernel keep for an importing process: the allocations its received fds and
imported handles name, and the one mapped at an address. -/
structure ImportWorld where
  fails : Nat → Bool
  clock : Nat
  fds : List ExporterAlloc
  handles : List ExporterAlloc
  mapped : Nat → Option ExporterAlloc

namespace ImportWorld

def tick (s : ImportWorld) : ImportWorld := { s with clock := s.clock + 1 }

/-- `net pid fd` is what the descriptor `fd` of the process `pid` names. The kernel sends all of the
requested descriptors or, if one is not open, none. -/
def udsReceiveFds (net : Int → Int → Option ExporterAlloc) (pid : Int) (peerFds : List Int)
    (s : ImportWorld) : List Nat × ImportWorld :=
  if s.fails s.clock = true ∨ peerFds = [] ∨ udsMaxFds < peerFds.length then ([], s.tick)
  else
    match peerFds.mapM (net pid) with
    | none => ([], s.tick)
    | some as => (List.range' s.fds.length as.length, { s.tick with fds := s.fds ++ as })

def cuMemImportFromShareableHandle (fd : Nat) (s : ImportWorld) : Option Nat × ImportWorld :=
  match s.fds[fd]? with
  | none => (none, s.tick)
  | some a =>
    if s.fails s.clock then (none, s.tick)
    else (some (s.handles.length + 1), { s.tick with handles := s.handles ++ [a] })

def cuMemMap (va _size handle : Nat) (s : ImportWorld) : Bool × ImportWorld :=
  match s.handles[handle - 1]? with
  | none => (false, s.tick)
  | some a =>
    if s.fails s.clock = true ∨ handle = 0 ∨ s.mapped va ≠ none then (false, s.tick)
    else (true, { s.tick with mapped := Function.update s.mapped va (some a) })

def cuMemUnmap (va _size : Nat) (s : ImportWorld) : Bool × ImportWorld :=
  if s.fails s.clock = true ∨ s.mapped va = none then (false, s.tick)
  else (true, { s.tick with mapped := Function.update s.mapped va none })

def cuMemSetAccess (va _size : Nat) (_desc : CUmemAccessDesc) (s : ImportWorld) : Bool × ImportWorld :=
  (!s.fails s.clock && (s.mapped va).isSome, s.tick)

def cuMemRelease (_handle : Nat) (s : ImportWorld) : Bool × ImportWorld := (!s.fails s.clock, s.tick)

def ops (net : Int → Int → Option ExporterAlloc) : ImportOps ImportWorld where
  receiveFds := udsReceiveFds net
  importFd := cuMemImportFromShareableHandle
  map := cuMemMap
  unmap := cuMemUnmap
  setAccess := cuMemSetAccess
  release := cuMemRelease

def Reliable (s : ImportWorld) : Prop := ∀ n, s.fails n = false

/-! ### The requests for descriptors -/

/-- The entry names an open descriptor of its owner, for the allocation it says. -/
def Open (net : Int → Int → Option ExporterAlloc) (e : IpcExportShmEntry) : Prop :=
  e.valid = true ∧ net e.ownerPid e.fd = some ⟨e.ownerPid, e.localPtr⟩

theorem foldl_setLocalFd (ps : List (Nat × Nat)) (m : Nat → Option Nat) (h : (ps.map Prod.fst).Nodup) :
    (∀ p ∈ ps, ps.foldl ImportOps.setLocalFd m p.1 = some p.2) ∧
      ∀ k ∉ ps.map Prod.fst, ps.foldl ImportOps.setLocalFd m k = m k := by
  induction ps generalizing m with
  | nil => simp
  | cons p ps ih =>
    rw [List.map_cons, List.nodup_cons] at h
    obtain ⟨ih1, ih2⟩ := ih (ImportOps.setLocalFd m p) h.2
    refine ⟨?_, ?_⟩
    · intro q hq
      rcases List.mem_cons.1 hq with rfl | hq
      · rw [List.foldl_cons, ih2 _ h.1]
        exact Function.update_self ..
      · exact ih1 q hq
    · intro k hk
      rw [List.map_cons, List.mem_cons, not_or] at hk
      rw [List.foldl_cons, ih2 k hk.2]
      exact Function.update_of_ne hk.1 ..

theorem mapM_eq_some {α β : Type*} {f : α → Option β} {g : α → β} {l : List α}
    (h : ∀ a ∈ l, f a = some (g a)) : l.mapM f = some (l.map g) := by
  induction l with
  | nil => rfl
  | cons a l ih =>
    rw [List.mapM_cons, h a (List.mem_cons_self ..), ih fun b hb => h b (List.mem_cons_of_mem _ hb)]
    rfl

/-- The requests `reqs` have been answered: every entry of theirs has a local fd for its allocation. -/
structure Answered (s : ImportWorld) (reqs : List (Int × List (IpcExportShmEntry × Nat)))
    (x : (Nat → Option Nat) × ImportWorld) : Prop where
  fails : x.2.fails = s.fails
  mapped : x.2.mapped = s.mapped
  fds : ∀ req ∈ reqs, ∀ e ∈ req.2, ∃ fd, x.1 e.2 = some fd ∧
    x.2.fds[fd]? = some ⟨e.1.ownerPid, e.1.localPtr⟩

/-- A request that can be answered. -/
structure Request (net : Int → Int → Option ExporterAlloc)
    (req : Int × List (IpcExportShmEntry × Nat)) : Prop where
  nonempty : req.2 ≠ []
  fits : req.2.length ≤ udsMaxFds
  entries : ∀ e ∈ req.2, e.1.ownerPid = req.1 ∧ Open net e.1
  places : (req.2.map (·.2)).Nodup

theorem udsReceiveFds_eq {net : Int → Int → Option ExporterAlloc} {s : ImportWorld} (hs : s.Reliable)
    {req : Int × List (IpcExportShmEntry × Nat)} (hreq : Request net req) :
    udsReceiveFds net req.1 (req.2.map (·.1.fd)) s = (List.range' s.fds.length req.2.length,
      { s.tick with fds := s.fds ++ req.2.map fun e => ⟨e.1.ownerPid, e.1.localPtr⟩ }) := by
  have hmap : (req.2.map (·.1.fd)).mapM (net req.1) =
      some (req.2.map fun e => (⟨e.1.ownerPid, e.1.localPtr⟩ : ExporterAlloc)) := by
    rw [List.mapM_map]
    apply mapM_eq_some
    intro e he
    obtain ⟨howner, hopen⟩ := hreq.entries e he
    rw [← howner]
    exact hopen.2
  have hfits := hreq.fits
  unfold udsReceiveFds
  rw [if_neg, hmap]
  · simp
  · simp only [hs s.clock, Bool.false_eq_true, List.map_eq_nil_iff, List.length_map, false_or, not_or]
    exact ⟨hreq.nonempty, by omega⟩

theorem requestPeer_spec {net : Int → Int → Option ExporterAlloc} {m : Nat → Option Nat} {s : ImportWorld}
    (hs : s.Reliable) {req : Int × List (IpcExportShmEntry × Nat)} (hreq : Request net req) :
    Answered s [req] ((ops net).requestPeer (m, s) req) ∧
      (∀ i ∉ req.2.map (·.2), ((ops net).requestPeer (m, s) req).1 i = m i) ∧
      s.fds <+: ((ops net).requestPeer (m, s) req).2.fds := by
  have heq : (ops net).receiveFds req.1 (req.2.map (·.1.fd)) s = _ := udsReceiveFds_eq hs hreq
  unfold ImportOps.requestPeer
  simp only [heq]
  have hfst : ((req.2.map (·.2)).zip (List.range' s.fds.length req.2.length)).map Prod.fst =
      req.2.map (·.2) := List.map_fst_zip (by simp)
  obtain ⟨h1, h2⟩ := foldl_setLocalFd ((req.2.map (·.2)).zip (List.range' s.fds.length req.2.length)) m
    (by rw [hfst]; exact hreq.places)
  refine ⟨⟨rfl, rfl, ?_⟩, ?_, List.prefix_append ..⟩
  · intro req' hreq' e he
    obtain rfl := List.mem_singleton.1 hreq'
    obtain ⟨k, hk, rfl⟩ := List.getElem_of_mem he
    refine ⟨s.fds.length + k, ?_, ?_⟩
    · refine h1 (req'.2[k].2, s.fds.length + k) ?_
      rw [List.mem_iff_getElem]
      exact ⟨k, by simpa using hk, by simp⟩
    · simp [hk]
  · intro i hi
    exact h2 i (by rwa [hfst])

theorem requestFds_spec {net : Int → Int → Option ExporterAlloc}
    (reqs : List (Int × List (IpcExportShmEntry × Nat))) (m : Nat → Option Nat) {s : ImportWorld}
    (hs : s.Reliable) (hreqs : ∀ req ∈ reqs, Request net req)
    (hplaces : (reqs.flatMap fun req => req.2.map (·.2)).Nodup) :
    Answered s reqs (reqs.foldl (ops net).requestPeer (m, s)) ∧
      (∀ i ∉ reqs.flatMap fun req => req.2.map (·.2),
        (reqs.foldl (ops net).requestPeer (m, s)).1 i = m i) ∧
      s.fds <+: (reqs.foldl (ops net).requestPeer (m, s)).2.fds := by
  induction reqs generalizing m s with
  | nil => exact ⟨⟨rfl, rfl, by simp⟩, by simp, List.prefix_rfl⟩
  | cons req reqs ih =>
    obtain ⟨ha, hm, hf⟩ := requestPeer_spec (m := m) hs (hreqs req (List.mem_cons_self ..))
    rw [List.flatMap_cons, List.nodup_append] at hplaces
    obtain ⟨-, hrest, hdisj⟩ := hplaces
    have hs' : ((ops net).requestPeer (m, s) req).2.Reliable := fun n => (congrFun ha.fails n).trans (hs n)
    obtain ⟨ha', hm', hf'⟩ := ih ((ops net).requestPeer (m, s) req).1 hs'
      (fun r hr => hreqs r (List.mem_cons_of_mem _ hr)) hrest
    rw [List.foldl_cons]
    refine ⟨⟨ha'.fails.trans ha.fails, ha'.mapped.trans ha.mapped, ?_⟩, ?_, hf.trans hf'⟩
    · intro r hr e he
      rcases List.mem_cons.1 hr with rfl | hr
      · -- the fds of the first request are not touched by the others
        obtain ⟨fd, hfd, halloc⟩ := ha.fds r (List.mem_singleton_self r) e he
        refine ⟨fd, ?_, ?_⟩
        · rw [hm', hfd]
          intro hmem
          exact hdisj e.2 (List.mem_map_of_mem he) e.2 hmem rfl
        · obtain ⟨t, ht⟩ := hf'
          rw [← ht, List.getElem?_append_left]
          · exact halloc
          · exact (List.getElem?_eq_some_iff.1 halloc).1
      · exact ha'.fds r hr e he
    · intro i hi
      rw [List.flatMap_cons, List.mem_append, not_or] at hi
      rw [hm' i hi.2, hm i hi.1]

theorem peerRequests_spec {net : Int → Int → Option ExporterAlloc} {block : List IpcExportShmEntry}
    (hopen : ∀ e ∈ block, Open net e) (hlen : block.length ≤ udsMaxFds) :
    (∀ req ∈ ImportOps.peerRequests block, Request net req) ∧
      ((ImportOps.peerRequests block).flatMap fun req => req.2.map (·.2)).Nodup ∧
      ∀ e ∈ block.zipIdx, ∃ req ∈ ImportOps.peerRequests block, e ∈ req.2 := by
  have hvalid : block.zipIdx.filter (·.1.valid) = block.zipIdx := by
    rw [List.filter_eq_self]
    intro e he
    exact (hopen e.1 (List.fst_mem_of_mem_zipIdx he)).1
  have hplaces : (block.zipIdx.map (·.2)).Nodup := by
    rw [List.zipIdx_map_snd]
    exact List.nodup_range'
  have hgroups := groups_group (fun e : IpcExportShmEntry × Nat => e.1.ownerPid) block.zipIdx
  unfold ImportOps.peerRequests
  rw [hvalid]
  refine ⟨?_, ?_, ?_⟩
  · intro req hreq
    obtain ⟨heq, hne⟩ := hgroups.group req hreq
    have hsub : req.2.Sublist block.zipIdx := heq ▸ List.filter_sublist
    refine ⟨hne, ?_, ?_, (hsub.map (·.2)).nodup hplaces⟩
    · have := hsub.length_le
      rw [List.length_zipIdx] at this
      omega
    · intro e he
      rw [heq, List.mem_filter] at he
      exact ⟨of_decide_eq_true he.2, hopen e.1 (List.fst_mem_of_mem_zipIdx he.1)⟩
  · rw [← List.map_flatMap]
    have hperm := perm_flatten_group (fun e : IpcExportShmEntry × Nat => e.1.ownerPid) block.zipIdx
    exact (hperm.map Prod.snd).nodup_iff.2 hplaces
  · intro e he
    obtain ⟨req, hreq, hkey⟩ := hgroups.key e he
    refine ⟨req, hreq, ?_⟩
    rw [(hgroups.group req hreq).1, List.mem_filter]
    exact ⟨he, decide_eq_true hkey.symm⟩

theorem validExports_spec {net : Int → Int → Option ExporterAlloc} {block : List IpcExportShmEntry}
    {s : ImportWorld} (hs : s.Reliable) (hopen : ∀ e ∈ block, Open net e)
    (hlen : block.length ≤ udsMaxFds) :
    ((ops net).requestFds block s).2.fails = s.fails ∧ ((ops net).requestFds block s).2.mapped = s.mapped ∧
      (ImportOps.validExports block ((ops net).requestFds block s).1).map
          (fun fd => ((ops net).requestFds block s).2.fds[fd]?) =
        block.map fun e => some (⟨e.ownerPid, e.localPtr⟩ : ExporterAlloc) := by
  obtain ⟨hreqs, hplaces, hmem⟩ := peerRequests_spec hopen hlen
  obtain ⟨hans, -, -⟩ := requestFds_spec (ImportOps.peerRequests block) (fun _ => none) hs hreqs hplaces
  refine ⟨hans.fails, hans.mapped, ?_⟩
  have hfds : ∀ e ∈ block.zipIdx, ∃ fd, ((ops net).requestFds block s).1 e.2 = some fd ∧
      ((ops net).requestFds block s).2.fds[fd]? = some ⟨e.1.ownerPid, e.1.localPtr⟩ := by
    intro e he
    obtain ⟨req, hreq, hin⟩ := hmem e he
    exact hans.fds req hreq e hin
  have hgeneral : ∀ es : List (IpcExportShmEntry × Nat), (∀ e ∈ es, e ∈ block.zipIdx) →
      (es.filterMap fun e => if e.1.valid then ((ops net).requestFds block s).1 e.2 else none).map
          (fun fd => ((ops net).requestFds block s).2.fds[fd]?) =
        es.map fun e => some (⟨e.1.ownerPid, e.1.localPtr⟩ : ExporterAlloc) := by
    intro es
    induction es with
    | nil => simp
    | cons e es ih =>
      intro hsub
      have he := hsub e (List.mem_cons_self ..)
      obtain ⟨fd, h1, h2⟩ := hfds e he
      have hv : e.1.valid = true := (hopen e.1 (List.fst_mem_of_mem_zipIdx he)).1
      rw [List.filterMap_cons]
      simp only [hv, if_true, h1, List.map_cons, h2]
      rw [ih fun e' he' => hsub e' (List.mem_cons_of_mem _ he')]
  have h := hgeneral block.zipIdx fun _ he => he
  rw [ImportOps.validExports, h]
  conv_rhs => rw [← List.zipIdx_map_fst 0 block, List.map_map]
  rfl

/-! ### The matching loop -/

/-- Nothing that the matching reads differs. -/
def Same (s s' : ImportWorld) : Prop :=
  s'.fails = s.fails ∧ s'.fds = s.fds ∧ s'.handles = s.handles ∧ s'.mapped = s.mapped

theorem same_replayAccess (net : Int → Int → Option ExporterAlloc) (hasSetAccess : Bool)
    (rec : IpcImportRecord) (s : ImportWorld) :
    Same s ((ops net).replayAccess hasSetAccess rec s) := by
  unfold ImportOps.replayAccess
  split_ifs
  · refine List.foldlRecOn (motive := Same s) rec.allAccess _ ⟨rfl, rfl, rfl, rfl⟩ ?_
    intro s' h ad _
    exact h
  · exact ⟨rfl, rfl, rfl, rfl⟩
  · exact ⟨rfl, rfl, rfl, rfl⟩

theorem rebuildImport_spec (net : Int → Int → Option ExporterAlloc) (hasSetAccess : Bool)
    {p : ImportOps.Progress ImportWorld} (hs : p.state.Reliable) (pair : (IpcImportRecord × Nat) × Nat)
    {a : ExporterAlloc} (hfd : p.state.fds[pair.2]? = some a)
    (hfree : p.state.mapped pair.1.1.mappedVaddr = none) :
    ((ops net).rebuildImport hasSetAccess p pair).state.fails = p.state.fails ∧
      ((ops net).rebuildImport hasSetAccess p pair).state.fds = p.state.fds ∧
      ((ops net).rebuildImport hasSetAccess p pair).state.mapped =
        Function.update p.state.mapped pair.1.1.mappedVaddr (some a) := by
  have himport : (ops net).importFd pair.2 p.state = (some (p.state.handles.length + 1),
      { p.state.tick with handles := p.state.handles ++ [a] }) := by
    show cuMemImportFromShareableHandle _ _ = _
    simp [cuMemImportFromShareableHandle, hfd, hs p.state.clock]
  have hmap : (ops net).map pair.1.1.mappedVaddr pair.1.1.size (p.state.handles.length + 1)
      { p.state.tick with handles := p.state.handles ++ [a] } = (true,
      { p.state.tick.tick with
        handles := p.state.handles ++ [a]
        mapped := Function.update p.state.mapped pair.1.1.mappedVaddr (some a) }) := by
    show cuMemMap pair.1.1.mappedVaddr pair.1.1.size _ _ = _
    simp [cuMemMap, tick, hfree, hs (p.state.clock + 1)]
  unfold ImportOps.rebuildImport
  simp only [himport, hmap]
  obtain ⟨h1, h2, -, h4⟩ := same_replayAccess net hasSetAccess pair.1.1
    { p.state.tick.tick with
      handles := p.state.handles ++ [a]
      mapped := Function.update p.state.mapped pair.1.1.mappedVaddr (some a) }
  exact ⟨h1, h2, h4⟩

theorem foldl_rebuildImport (net : Int → Int → Option ExporterAlloc) (hasSetAccess : Bool)
    (torn : List (IpcImportRecord × Nat)) (fds : List Nat) (p : ImportOps.Progress ImportWorld)
    (hs : p.state.Reliable) (hfds : ∀ fd ∈ fds, ∃ a, p.state.fds[fd]? = some a)
    (hfree : ∀ x ∈ torn, p.state.mapped x.1.mappedVaddr = none)
    (hnodup : (torn.map (·.1.mappedVaddr)).Nodup) :
    (∀ k (hk : k < torn.length), ((torn.zip fds).foldl ((ops net).rebuildImport hasSetAccess) p).state.mapped
        torn[k].1.mappedVaddr = fds[k]?.bind (p.state.fds[·]?)) ∧
      ∀ va ∉ torn.map (·.1.mappedVaddr),
        ((torn.zip fds).foldl ((ops net).rebuildImport hasSetAccess) p).state.mapped va =
          p.state.mapped va := by
  induction torn generalizing fds p with
  | nil => simp
  | cons x torn ih =>
    cases fds with
    | nil => exact ⟨fun k hk => by simpa using hfree _ (List.getElem_mem hk), fun va _ => rfl⟩
    | cons fd fds =>
      obtain ⟨a, ha⟩ := hfds fd (List.mem_cons_self ..)
      obtain ⟨h1, h2, h3⟩ := rebuildImport_spec net hasSetAccess hs (x, fd) ha
        (hfree x (List.mem_cons_self ..))
      rw [List.map_cons, List.nodup_cons] at hnodup
      obtain ⟨ih1, ih2⟩ := ih fds ((ops net).rebuildImport hasSetAccess p (x, fd))
        (fun n => (congrFun h1 n).trans (hs n))
        (fun q hq => by rw [h2]; exact hfds q (List.mem_cons_of_mem _ hq))
        (fun q hq => by
          rw [h3, Function.update_of_ne]
          · exact hfree q (List.mem_cons_of_mem _ hq)
          · rintro heq
            exact hnodup.1 (heq ▸ List.mem_map_of_mem hq))
        hnodup.2
      rw [List.zip_cons_cons, List.foldl_cons]
      refine ⟨?_, ?_⟩
      · intro k hk
        cases k with
        | zero =>
          have hx := ih2 x.1.mappedVaddr hnodup.1
          rw [h3, Function.update_self] at hx
          simpa [ha] using hx
        | succ k =>
          have hk' := ih1 k (by simpa using hk)
          rw [h2] at hk'
          simpa using hk'
      · intro va hva
        rw [List.map_cons, List.mem_cons, not_or] at hva
        rw [ih2 va hva.2, h3, Function.update_of_ne hva.1]

end ImportWorld

end GpuCr
