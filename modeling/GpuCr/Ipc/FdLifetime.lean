import GpuCr.Ipc.Rebind
import Mathlib.Data.List.Perm.Basic

/-!
# The descriptors of an import

`ipc_import_from_shm_block` with a log of what it does with the descriptors it receives and the handles it gets for them.
A descriptor is closed right after its import, whether that succeeds or not, or at the end if there is no record left for
it. The calls are those of any `ImportOps`.
-/

namespace GpuCr

open Lib.Grouping

/-- `bind` makes a record, by its place in the table, live again, with the descriptor of an entry of the block. -/
inductive ImportEvent where
  | receive (fd : Nat)
  | use (fd : Nat)
  | close (fd : Nat)
  | acquire (handle : Nat)
  | release (handle : Nat)
  | bind (record entry handle : Nat)
  deriving DecidableEq, Repr

namespace ImportEvent

def received : ImportEvent → Option Nat
  | receive fd => some fd
  | _ => none

def closed : ImportEvent → Option Nat
  | close fd => some fd
  | _ => none

def acquired : ImportEvent → Option Nat
  | acquire handle => some handle
  | _ => none

def released : ImportEvent → Option Nat
  | release handle => some handle
  | _ => none

/-- The record, the entry and the handle. -/
def bound : ImportEvent → Option (Nat × Nat × Nat)
  | bind record entry handle => some (record, entry, handle)
  | _ => none

end ImportEvent

namespace ImportOps

variable {σ : Type} (ops : ImportOps σ)

/-! ### The function with its log -/

/-- What the requests bring, peer by peer. -/
def receivedFds : List (Int × List (IpcExportShmEntry × Nat)) → σ → List Nat
  | [], _ => []
  | req :: reqs, s =>
    let r := ops.receiveFds req.1 (req.2.map (·.1.fd)) s
    r.1 ++ receivedFds reqs r.2

/-- `valid_exports`: the place in the block and the local fd. -/
def validEntries (block : List IpcExportShmEntry) (entryToLocalFd : Nat → Option Nat) : List (Nat × Nat) :=
  block.zipIdx.filterMap fun e => if e.1.valid then (entryToLocalFd e.2).map fun fd => (e.2, fd) else none

structure LoggedProgress (σ : Type) where
  imports : List IpcImportRecord
  rebuilt : Nat
  state : σ
  log : List ImportEvent

/-- The body of the matching loop, for a record and an entry with its descriptor. -/
def rebuildLogged (hasSetAccess : Bool) (p : LoggedProgress σ) (pair : (IpcImportRecord × Nat) × Nat × Nat) :
    LoggedProgress σ :=
  let target := pair.1.1
  let fd := pair.2.2
  match ops.importFd fd p.state with
  | (none, s) => { p with state := s, log := p.log ++ [.use fd, .close fd] }
  | (some newHandle, s) =>
    match ops.map target.mappedVaddr target.size newHandle s with
    | (false, s) =>
      let r := ops.release newHandle s
      { p with
        state := r.2
        log := p.log ++ [.use fd, .acquire newHandle, .close fd] ++ if r.1 then [.release newHandle] else [] }
    | (true, s) =>
      { imports := p.imports.modify pair.1.2 fun r => { r with handle := newHandle, tornDown := false }
        rebuilt := p.rebuilt + 1
        state := ops.replayAccess hasSetAccess target s
        log := p.log ++ [.use fd, .acquire newHandle, .close fd, .bind pair.1.2 pair.2.1 newHandle] }

/-- What is matched, position by position. -/
def matched (imports : List IpcImportRecord) (block : List IpcExportShmEntry) (entryToLocalFd : Nat → Option Nat) :
    List ((IpcImportRecord × Nat) × Nat × Nat) :=
  (tornImports imports).zip (validEntries block entryToLocalFd)

/-- `ipcImportFromShmBlock` with the log. The descriptors that are not matched are closed at the end. -/
def ipcImportLogged (resolved hasSetAccess : Bool) (block : List IpcExportShmEntry) (imports : List IpcImportRecord) (s : σ) :
    Option Nat × List IpcImportRecord × σ × List ImportEvent :=
  if block = [] then (some 0, imports, s, [])
  else if !resolved then (none, imports, s, [])
  else
    let r := ops.requestFds block s
    let pairs := matched imports block r.1
    let p := pairs.foldl (ops.rebuildLogged hasSetAccess)
      ⟨imports, 0, r.2, (ops.receivedFds (peerRequests block) s).map .receive⟩
    (some p.rebuilt, p.imports, p.state,
      p.log ++ ((validEntries block r.1).drop pairs.length).map fun x => .close x.2)

section Logged

theorem mem_validEntries {block : List IpcExportShmEntry} {m : Nat → Option Nat} {x : Nat × Nat} :
    x ∈ validEntries block m ↔ ∃ e, (e, x.1) ∈ block.zipIdx ∧ e.valid = true ∧ m x.1 = some x.2 := by
  unfold validEntries
  rw [List.mem_filterMap]
  constructor
  · rintro ⟨e, he, hx⟩
    split_ifs at hx with hvalid
    obtain ⟨fd, hfd, rfl⟩ := Option.map_eq_some_iff.1 hx
    exact ⟨e.1, he, hvalid, hfd⟩
  · rintro ⟨e, he, hvalid, hfd⟩
    exact ⟨(e, x.1), he, by rw [if_pos hvalid, hfd]; rfl⟩

theorem map_fst_validEntries_sublist (block : List IpcExportShmEntry) (m : Nat → Option Nat) :
    ((validEntries block m).map Prod.fst).Sublist (block.zipIdx.map Prod.snd) := by
  unfold validEntries
  induction block.zipIdx with
  | nil => exact List.Sublist.slnil
  | cons e es ih =>
    rw [List.filterMap_cons]
    by_cases hvalid : e.1.valid = true
    · rw [if_pos hvalid]
      cases m e.2 with
      | none => exact ih.cons _
      | some fd => exact ih.cons_cons _
    · rw [if_neg hvalid]
      exact ih.cons _

theorem map_snd_validEntries (block : List IpcExportShmEntry) (m : Nat → Option Nat) :
    (validEntries block m).map Prod.snd = validExports block m := by
  unfold validEntries validExports
  rw [List.map_filterMap]
  congr 1
  funext e
  split_ifs
  · cases m e.2 <;> rfl
  · rfl

theorem foldl_rebuildLogged (hasSetAccess : Bool) (pairs : List ((IpcImportRecord × Nat) × Nat × Nat))
    (p : LoggedProgress σ) :
    (pairs.map fun x => (x.1, x.2.2)).foldl (ops.rebuildImport hasSetAccess) ⟨p.imports, p.rebuilt, p.state⟩ =
      ⟨(pairs.foldl (ops.rebuildLogged hasSetAccess) p).imports, (pairs.foldl (ops.rebuildLogged hasSetAccess) p).rebuilt,
        (pairs.foldl (ops.rebuildLogged hasSetAccess) p).state⟩ := by
  induction pairs generalizing p with
  | nil => rfl
  | cons pair pairs ih =>
    have hstep : ops.rebuildImport hasSetAccess ⟨p.imports, p.rebuilt, p.state⟩ (pair.1, pair.2.2) =
        ⟨(ops.rebuildLogged hasSetAccess p pair).imports, (ops.rebuildLogged hasSetAccess p pair).rebuilt,
          (ops.rebuildLogged hasSetAccess p pair).state⟩ := by
      unfold rebuildImport rebuildLogged
      dsimp only
      rcases ops.importFd pair.2.2 p.state with ⟨_ | newHandle, s⟩
      · rfl
      · dsimp only
        rcases ops.map pair.1.1.mappedVaddr pair.1.1.size newHandle s with ⟨_ | _, s'⟩ <;> rfl
    rw [List.map_cons, List.foldl_cons, hstep, ih]
    rfl

theorem ipcImportLogged_eq (resolved hasSetAccess : Bool) (block : List IpcExportShmEntry) (imports : List IpcImportRecord)
    (s : σ) : ops.ipcImportFromShmBlock resolved hasSetAccess block imports s =
      ((ops.ipcImportLogged resolved hasSetAccess block imports s).1,
        (ops.ipcImportLogged resolved hasSetAccess block imports s).2.1,
        (ops.ipcImportLogged resolved hasSetAccess block imports s).2.2.1) := by
  unfold ipcImportFromShmBlock ipcImportLogged
  split_ifs
  · rfl
  · rfl
  · dsimp only
    have hpairs : (tornImports imports).zip (validExports block (ops.requestFds block s).1) =
        (matched imports block (ops.requestFds block s).1).map fun x => (x.1, x.2.2) := by
      rw [matched, ← map_snd_validEntries, List.zip_map_right]
      rfl
    rw [hpairs]
    exact congrArg (fun p : Progress σ => (some p.rebuilt, p.imports, p.state)) (ops.foldl_rebuildLogged hasSetAccess
      (matched imports block (ops.requestFds block s).1)
      ⟨imports, 0, (ops.requestFds block s).2, (ops.receivedFds (peerRequests block) s).map .receive⟩)

end Logged

/-! ### The requests -/

/-- `uds_receive_fds` brings at most as many descriptors as it is asked for, different ones that were not open. -/
structure BringsNew (isOpen : σ → Nat → Prop) : Prop where
  nodup : ∀ pid fds s, (ops.receiveFds pid fds s).1.Nodup
  length_le : ∀ pid fds s, (ops.receiveFds pid fds s).1.length ≤ fds.length
  notOpen : ∀ pid fds s, ∀ fd ∈ (ops.receiveFds pid fds s).1, ¬ isOpen s fd
  opens : ∀ pid fds s fd, isOpen s fd ∨ fd ∈ (ops.receiveFds pid fds s).1 → isOpen (ops.receiveFds pid fds s).2 fd

theorem map_fst_zip_sublist {α β : Type*} (l : List α) (r : List β) : ((l.zip r).map Prod.fst).Sublist l := by
  induction l generalizing r with
  | nil => exact List.Sublist.slnil
  | cons a l ih =>
    cases r with
    | nil => exact List.nil_sublist _
    | cons b r => exact (ih r).cons_cons a

theorem map_snd_zip_eq_take {α β : Type*} (l : List α) (r : List β) :
    (l.zip r).map Prod.snd = r.take (l.zip r).length := by
  induction l generalizing r with
  | nil => rfl
  | cons a l ih =>
    cases r with
    | nil => rfl
    | cons b r => exact congrArg (List.cons b) (ih r)

/-- The places in the block and the descriptors they get. -/
def assignedFds : List (Int × List (IpcExportShmEntry × Nat)) → σ → List (Nat × Nat)
  | [], _ => []
  | req :: reqs, s =>
    let r := ops.receiveFds req.1 (req.2.map (·.1.fd)) s
    (req.2.map (·.2)).zip r.1 ++ assignedFds reqs r.2

section Requests
variable {ops} {isOpen : σ → Nat → Prop}

theorem BringsNew.receivedFds (h : ops.BringsNew isOpen) (reqs : List (Int × List (IpcExportShmEntry × Nat))) (s : σ) :
    (ops.receivedFds reqs s).Nodup ∧ ∀ fd ∈ ops.receivedFds reqs s, ¬ isOpen s fd := by
  induction reqs generalizing s with
  | nil => exact ⟨List.nodup_nil, fun fd hfd => absurd hfd List.not_mem_nil⟩
  | cons req reqs ih =>
    obtain ⟨ih1, ih2⟩ := ih (ops.receiveFds req.1 (req.2.map (·.1.fd)) s).2
    refine ⟨List.nodup_append.2 ⟨h.nodup .., ih1, fun a ha b hb heq => ?_⟩, fun fd hfd => ?_⟩
    · exact ih2 b hb (h.opens _ _ _ b (Or.inr (heq ▸ ha)))
    · rcases List.mem_append.1 hfd with hfd | hfd
      · exact h.notOpen _ _ _ fd hfd
      · exact fun hopen => ih2 fd hfd (h.opens _ _ _ fd (Or.inl hopen))

theorem foldl_requestPeer (reqs : List (Int × List (IpcExportShmEntry × Nat))) (m : Nat → Option Nat) (s : σ) :
    (reqs.foldl ops.requestPeer (m, s)).1 = (ops.assignedFds reqs s).foldl setLocalFd m := by
  induction reqs generalizing m s with
  | nil => rfl
  | cons req reqs ih =>
    rw [List.foldl_cons, assignedFds, List.foldl_append]
    exact ih ..

theorem BringsNew.assignedFds (h : ops.BringsNew isOpen) (reqs : List (Int × List (IpcExportShmEntry × Nat))) (s : σ) :
    ((ops.assignedFds reqs s).map Prod.fst).Sublist (reqs.flatMap fun req => req.2.map (·.2)) ∧
      (ops.assignedFds reqs s).map Prod.snd = ops.receivedFds reqs s := by
  induction reqs generalizing s with
  | nil => exact ⟨List.Sublist.slnil, rfl⟩
  | cons req reqs ih =>
    obtain ⟨ih1, ih2⟩ := ih (ops.receiveFds req.1 (req.2.map (·.1.fd)) s).2
    have hlen := h.length_le req.1 (req.2.map (·.1.fd)) s
    rw [List.length_map] at hlen
    rw [ImportOps.assignedFds, ImportOps.receivedFds, List.map_append, List.map_append, List.flatMap_cons]
    refine ⟨List.Sublist.append ?_ ih1, ?_⟩
    · exact map_fst_zip_sublist ..
    · rw [List.map_snd_zip (by rw [List.length_map]; exact hlen), ih2]

theorem places_peerRequests (block : List IpcExportShmEntry) :
    ((peerRequests block).flatMap fun req => req.2.map (·.2)).Nodup ∧
      ∀ k ∈ (peerRequests block).flatMap fun req => req.2.map (·.2), ∃ e, (e, k) ∈ block.zipIdx ∧ e.valid = true := by
  have hperm := (perm_flatten_group (fun e : IpcExportShmEntry × Nat => e.1.ownerPid)
    (block.zipIdx.filter (·.1.valid))).map Prod.snd
  have hplaces : (block.zipIdx.map (·.2)).Nodup := by
    rw [List.zipIdx_map_snd]
    exact List.nodup_range'
  rw [← List.map_flatMap]
  refine ⟨hperm.nodup_iff.2 ((List.filter_sublist.map _).nodup hplaces), fun k hk => ?_⟩
  obtain ⟨e, he, rfl⟩ := List.mem_map.1 (hperm.mem_iff.1 hk)
  obtain ⟨he, hvalid⟩ := List.mem_filter.1 he
  exact ⟨e.1, he, hvalid⟩

theorem BringsNew.validEntries (h : ops.BringsNew isOpen) (block : List IpcExportShmEntry) (s : σ) :
    ((validEntries block (ops.requestFds block s).1).map Prod.snd).Perm (ops.receivedFds (peerRequests block) s) ∧
      ((ImportOps.validEntries block (ops.requestFds block s).1).map Prod.fst).Nodup := by
  obtain ⟨hsub, hsnd⟩ := h.assignedFds (peerRequests block) s
  obtain ⟨hnodup, hvalid⟩ := places_peerRequests block
  have hkeys := hsub.nodup hnodup
  obtain ⟨hin, hout⟩ := ImportWorld.foldl_setLocalFd (ops.assignedFds (peerRequests block) s) (fun _ => none) hkeys
  have hlocal : (ops.requestFds block s).1 = (ops.assignedFds (peerRequests block) s).foldl setLocalFd fun _ => none :=
    foldl_requestPeer ..
  rw [← hlocal] at hin hout
  have hfst : ((ImportOps.validEntries block (ops.requestFds block s).1).map Prod.fst).Nodup := by
    refine (map_fst_validEntries_sublist ..).nodup ?_
    rw [List.zipIdx_map_snd]
    exact List.nodup_range'
  have hperm : (ImportOps.validEntries block (ops.requestFds block s).1).Perm (ops.assignedFds (peerRequests block) s) := by
    refine (List.perm_ext_iff_of_nodup hfst.of_map hkeys.of_map).2 fun x => ?_
    rw [mem_validEntries]
    constructor
    · rintro ⟨e, -, -, hfd⟩
      have hkey : x.1 ∈ (ops.assignedFds (peerRequests block) s).map Prod.fst := by
        by_contra hnot
        exact absurd (hfd.symm.trans (hout _ hnot)) (Option.some_ne_none _)
      obtain ⟨y, hy, hxy⟩ := List.mem_map.1 hkey
      have hyfd := hin y hy
      rw [hxy, hfd] at hyfd
      exact Prod.ext hxy (Option.some.inj hyfd).symm ▸ hy
    · intro hx
      obtain ⟨e, he, hev⟩ := hvalid x.1 (hsub.subset (List.mem_map_of_mem hx))
      exact ⟨e, he, hev, hin x hx⟩
  exact ⟨hsnd ▸ hperm.map Prod.snd, hfst⟩

end Requests

/-! ### The matching loop -/

/-- What the log of the loop says after `pairs`, and what it has made of the table. -/
structure Matched (imports : List IpcImportRecord) (pairs : List ((IpcImportRecord × Nat) × Nat × Nat))
    (imports' : List IpcImportRecord) (log : List ImportEvent) : Prop where
  received : log.filterMap (·.received) = []
  closed : log.filterMap (·.closed) = pairs.map (·.2.2)
  used : ∀ fd, .use fd ∈ log → fd ∈ pairs.map (·.2.2)
  notUsedAfter : log.Pairwise fun e e' => ∀ fd, e = .close fd → e' ≠ .use fd
  bound : ((log.filterMap (·.bound)).map fun x => (x.1, x.2.1)).Sublist (pairs.map fun x => (x.1.2, x.2.1))
  handles : (log.filterMap (·.acquired)).Perm
    (log.filterMap (·.released) ++ (log.filterMap (·.bound)).map (·.2.2))
  records : ∀ (i : Nat) (rec : IpcImportRecord), imports[i]? = some rec →
    (∃ entry handle, .bind i entry handle ∈ log ∧ imports'[i]? = some { rec with handle := handle, tornDown := false }) ∨
      (∀ entry handle, .bind i entry handle ∉ log) ∧ imports'[i]? = some rec

/-- The three ways a pair can go. -/
inductive Outcome (pair : (IpcImportRecord × Nat) × Nat × Nat) (imports : List IpcImportRecord) :
    List ImportEvent → List IpcImportRecord → Prop
  | importFails : Outcome pair imports [.use pair.2.2, .close pair.2.2] imports
  | mapFails (handle : Nat) :
    Outcome pair imports [.use pair.2.2, .acquire handle, .close pair.2.2, .release handle] imports
  | rebound (handle : Nat) :
    Outcome pair imports [.use pair.2.2, .acquire handle, .close pair.2.2, .bind pair.1.2 pair.2.1 handle]
      (imports.modify pair.1.2 fun r => { r with handle := handle, tornDown := false })

section Loop
variable {ops} {imports : List IpcImportRecord} {pairs : List ((IpcImportRecord × Nat) × Nat × Nat)}

theorem rebuildLogged_outcome (hrelease : ∀ handle s, (ops.release handle s).1 = true) (hasSetAccess : Bool)
    (p : LoggedProgress σ) (pair : (IpcImportRecord × Nat) × Nat × Nat) :
    ∃ events, (ops.rebuildLogged hasSetAccess p pair).log = p.log ++ events ∧
      Outcome pair p.imports events (ops.rebuildLogged hasSetAccess p pair).imports := by
  unfold rebuildLogged
  dsimp only
  rcases ops.importFd pair.2.2 p.state with ⟨_ | newHandle, s⟩
  · exact ⟨_, rfl, .importFails⟩
  · dsimp only
    rcases ops.map pair.1.1.mappedVaddr pair.1.1.size newHandle s with ⟨_ | _, s'⟩
    · refine ⟨_, ?_, .mapFails newHandle⟩
      dsimp only
      rw [hrelease, if_pos rfl, List.append_assoc]
      rfl
    · exact ⟨_, rfl, .rebound newHandle⟩

theorem Matched.of_bind {imports' : List IpcImportRecord} {log : List ImportEvent} (h : Matched imports pairs imports' log)
    {i entry handle : Nat} (hbind : .bind i entry handle ∈ log) : ∃ x ∈ pairs, x.1.2 = i ∧ x.2.1 = entry := by
  have hin := h.bound.subset (List.mem_map_of_mem (f := fun x : Nat × Nat × Nat => (x.1, x.2.1))
    (List.mem_filterMap.2 ⟨_, hbind, rfl⟩))
  obtain ⟨x, hx, heq⟩ := List.mem_map.1 hin
  exact ⟨x, hx, Prod.mk.inj heq⟩

theorem matched_nil (imports : List IpcImportRecord) : Matched imports [] imports [] where
  received := rfl
  closed := rfl
  used := fun _ hfd => absurd hfd List.not_mem_nil
  notUsedAfter := List.Pairwise.nil
  bound := List.Sublist.slnil
  handles := List.Perm.nil
  records := fun _ _ hrec => Or.inr ⟨fun _ _ h => absurd h List.not_mem_nil, hrec⟩

theorem Matched.step {imports' imports'' : List IpcImportRecord} {log events : List ImportEvent}
    (h : Matched imports pairs imports' log) {pair : (IpcImportRecord × Nat) × Nat × Nat}
    (hfd : pair.2.2 ∉ pairs.map (·.2.2)) (hidx : pair.1.2 ∉ pairs.map (·.1.2))
    (hout : Outcome pair imports' events imports'') : Matched imports (pairs ++ [pair]) imports'' (log ++ events) := by
  have hclosed : events.filterMap (·.closed) = [pair.2.2] := by cases hout <;> rfl
  have huse : ∀ fd, .use fd ∈ events → fd = pair.2.2 := by cases hout <;> simp
  have hown : events.Pairwise fun e e' => ∀ fd, e = .close fd → e' ≠ .use fd := by cases hout <;> simp
  have hmem : ∀ e ∈ log, ∀ fd, e = .close fd → fd ∈ pairs.map (·.2.2) := by
    rintro e he fd rfl
    rw [← h.closed]
    exact List.mem_filterMap.2 ⟨_, he, rfl⟩
  have hunbound : ∀ entry handle, .bind pair.1.2 entry handle ∉ log := by
    intro entry handle hbind
    obtain ⟨x, hx, heq, -⟩ := h.of_bind hbind
    exact hidx (List.mem_map.2 ⟨x, hx, heq⟩)
  refine ⟨?_, ?_, fun fd hin => ?_, List.pairwise_append.2 ⟨h.notUsedAfter, hown, fun e he e' he' fd heq => ?_⟩, ?_, ?_, ?_⟩
  · rw [List.filterMap_append, h.received]
    cases hout <;> rfl
  · rw [List.filterMap_append, h.closed, hclosed, List.map_append]
    rfl
  · rw [List.map_append, List.mem_append]
    rcases List.mem_append.1 hin with hin | hin
    · exact Or.inl (h.used fd hin)
    · exact Or.inr (by simp [huse fd hin])
  · rintro rfl
    exact hfd (huse fd he' ▸ hmem e he fd heq)
  · rw [List.filterMap_append, List.map_append, List.map_append]
    refine h.bound.append ?_
    cases hout with
    | importFails => exact List.nil_sublist _
    | mapFails handle => exact List.nil_sublist _
    | rebound handle => exact List.Sublist.refl _
  · rw [List.filterMap_append, List.filterMap_append, List.filterMap_append]
    cases hout with
    | importFails => simpa [ImportEvent.acquired, ImportEvent.released, ImportEvent.bound] using h.handles
    | mapFails handle =>
      refine (h.handles.append_right [handle]).trans ?_
      rw [List.append_assoc, List.append_assoc, show List.filterMap ImportEvent.bound
        [.use pair.2.2, .acquire handle, .close pair.2.2, .release handle] = [] from rfl, List.append_nil]
      exact List.perm_append_comm.append_left _
    | rebound handle =>
      refine (h.handles.append_right [handle]).trans ?_
      rw [List.append_assoc, List.append_assoc, List.map_append]
      exact List.Perm.refl _
  · intro i rec hrec
    -- what the pair does not bind stays as it was
    have hkept : (∀ entry handle, .bind i entry handle ∉ events) → imports''[i]? = imports'[i]? →
        (∃ entry handle, .bind i entry handle ∈ log ++ events ∧
            imports''[i]? = some { rec with handle := handle, tornDown := false }) ∨
          (∀ entry handle, .bind i entry handle ∉ log ++ events) ∧ imports''[i]? = some rec := by
      intro hnone hsame
      rw [hsame]
      rcases h.records i rec hrec with ⟨entry, handle, hbind, hget⟩ | ⟨hfree, hget⟩
      · exact Or.inl ⟨entry, handle, List.mem_append_left _ hbind, hget⟩
      · refine Or.inr ⟨fun entry handle hin => ?_, hget⟩
        exact (List.mem_append.1 hin).elim (hfree entry handle) (hnone entry handle)
    cases hout with
    | importFails => exact hkept (by simp) rfl
    | mapFails handle => exact hkept (by simp) rfl
    | rebound handle =>
      by_cases hi : i = pair.1.2
      · subst hi
        rcases h.records _ rec hrec with ⟨entry, handle', hbind, -⟩ | ⟨-, hget⟩
        · exact absurd hbind (hunbound entry handle')
        · refine Or.inl ⟨pair.2.1, handle, by simp, ?_⟩
          rw [List.getElem?_modify_eq, hget]
          rfl
      · refine hkept (by simp [hi]) ?_
        exact List.getElem?_modify_ne _ _ (Ne.symm hi)

theorem Matched.foldl (hrelease : ∀ handle s, (ops.release handle s).1 = true) (hasSetAccess : Bool)
    (rest : List ((IpcImportRecord × Nat) × Nat × Nat)) {p : LoggedProgress σ} {start log : List ImportEvent}
    (hp : p.log = start ++ log) (h : Matched imports pairs p.imports log)
    (hfds : ((pairs ++ rest).map (·.2.2)).Nodup) (hidx : ((pairs ++ rest).map (·.1.2)).Nodup) :
    ∃ log', (rest.foldl (ops.rebuildLogged hasSetAccess) p).log = start ++ log' ∧
      Matched imports (pairs ++ rest) (rest.foldl (ops.rebuildLogged hasSetAccess) p).imports log' := by
  induction rest generalizing pairs p log with
  | nil =>
    rw [List.append_nil]
    exact ⟨log, hp, h⟩
  | cons pair rest ih =>
    have hnot : ∀ {β : Type} (f : (IpcImportRecord × Nat) × Nat × Nat → β),
        ((pairs ++ pair :: rest).map f).Nodup → f pair ∉ pairs.map f := by
      intro β f hnodup hin
      rw [List.map_append, List.map_cons] at hnodup
      exact (List.nodup_append.1 hnodup).2.2 _ hin _ (List.mem_cons_self ..) rfl
    obtain ⟨events, hlog, hout⟩ := rebuildLogged_outcome hrelease hasSetAccess p pair
    have hstep := h.step (hnot (·.2.2) hfds) (hnot (·.1.2) hidx) hout
    have heq : pairs ++ pair :: rest = pairs ++ [pair] ++ rest := by rw [List.append_assoc]; rfl
    rw [heq] at hfds hidx ⊢
    exact ih (by rw [hlog, hp, List.append_assoc]) hstep hfds hidx

theorem exists_pair_of_bind {p : LoggedProgress σ} {hasSetAccess : Bool} {i entry handle : Nat}
    (h : .bind i entry handle ∈ (pairs.foldl (ops.rebuildLogged hasSetAccess) p).log) :
    .bind i entry handle ∈ p.log ∨ ∃ x ∈ pairs, x.1.2 = i ∧ x.2.1 = entry := by
  induction pairs generalizing p with
  | nil => exact Or.inl h
  | cons pair pairs ih =>
    rcases ih h with hin | ⟨x, hx, heq⟩
    · unfold rebuildLogged at hin
      dsimp only at hin
      rcases hres : ops.importFd pair.2.2 p.state with ⟨_ | newHandle, st⟩
      · rw [hres] at hin
        exact Or.inl (by simpa using hin)
      · rw [hres] at hin
        dsimp only at hin
        rcases hmap : ops.map pair.1.1.mappedVaddr pair.1.1.size newHandle st with ⟨_ | _, st'⟩
        · rw [hmap] at hin
          refine Or.inl ?_
          dsimp only at hin
          split_ifs at hin <;> simpa using hin
        · rw [hmap] at hin
          dsimp only at hin
          rcases List.mem_append.1 hin with hin | hin
          · exact Or.inl hin
          · simp only [List.mem_cons, reduceCtorEq, ImportEvent.bind.injEq, List.not_mem_nil, or_false, false_or] at hin
            exact Or.inr ⟨pair, List.mem_cons_self .., hin.1.symm, hin.2.1.symm⟩
    · exact Or.inr ⟨x, List.mem_cons_of_mem _ hx, heq⟩

theorem exists_matched_of_bind {hasSetAccess : Bool} {block : List IpcExportShmEntry} {s : σ} {i entry handle : Nat}
    (h : .bind i entry handle ∈ (ops.ipcImportLogged true hasSetAccess block imports s).2.2.2) :
    ∃ x ∈ matched imports block (ops.requestFds block s).1, x.1.2 = i ∧ x.2.1 = entry := by
  unfold ipcImportLogged at h
  split_ifs at h with hblock hresolved
  · exact absurd h List.not_mem_nil
  · exact absurd hresolved Bool.false_ne_true
  · rcases List.mem_append.1 h with h | h
    · refine (exists_pair_of_bind h).resolve_left fun hin => ?_
      obtain ⟨fd, -, heq⟩ := List.mem_map.1 hin
      exact absurd heq (by simp)
    · obtain ⟨x, -, heq⟩ := List.mem_map.1 h
      exact absurd heq (by simp)

end Loop

/-! ### The whole function -/

/-- Every descriptor is received once and closed once, and used only before that. A record is bound at most once, an
entry for at most one record, and a record that is not bound is as it was. A handle that no record has is released. -/
structure FdsAccounted (imports imports' : List IpcImportRecord) (log : List ImportEvent) : Prop where
  receivedOnce : (log.filterMap (·.received)).Nodup
  closedOnce : (log.filterMap (·.closed)).Perm (log.filterMap (·.received))
  used : ∀ fd, .use fd ∈ log → .receive fd ∈ log
  notUsedAfter : log.Pairwise fun e e' => ∀ fd, e = .close fd → e' ≠ .use fd
  recordOnce : ((log.filterMap (·.bound)).map (·.1)).Nodup
  entryOnce : ((log.filterMap (·.bound)).map (·.2.1)).Nodup
  torn : ∀ i entry handle, .bind i entry handle ∈ log → ∃ rec, imports[i]? = some rec ∧ rec.tornDown = true
  records : ∀ (i : Nat) (rec : IpcImportRecord), imports[i]? = some rec →
    (∃ entry handle, .bind i entry handle ∈ log ∧ imports'[i]? = some { rec with handle := handle, tornDown := false }) ∨
      (∀ entry handle, .bind i entry handle ∉ log) ∧ imports'[i]? = some rec
  handles : (log.filterMap (·.acquired)).Perm
    (log.filterMap (·.released) ++ (log.filterMap (·.bound)).map (·.2.2))

section Whole
variable {ops} {isOpen : σ → Nat → Prop}

theorem fdsAccounted_nil (imports : List IpcImportRecord) : FdsAccounted imports imports [] where
  receivedOnce := List.nodup_nil
  closedOnce := List.Perm.nil
  used := fun _ hfd => absurd hfd List.not_mem_nil
  notUsedAfter := List.Pairwise.nil
  recordOnce := List.nodup_nil
  entryOnce := List.nodup_nil
  torn := fun _ _ _ h => absurd h List.not_mem_nil
  records := fun _ _ hrec => Or.inr ⟨fun _ _ h => absurd h List.not_mem_nil, hrec⟩
  handles := List.Perm.nil

theorem nodup_tornImports (imports : List IpcImportRecord) : ((tornImports imports).map Prod.snd).Nodup := by
  refine (List.filter_sublist.map _).nodup ?_
  rw [List.zipIdx_map_snd]
  exact List.nodup_range'

/-- The loop between what is received before it and what is closed after it. -/
theorem Matched.accounted {imports imports' : List IpcImportRecord} {log : List ImportEvent} {received : List Nat}
    {entries : List (Nat × Nat)} {pairs : List ((IpcImportRecord × Nat) × Nat × Nat)}
    (hpairs : pairs = (tornImports imports).zip entries) (h : Matched imports pairs imports' log)
    (hreceived : received.Nodup) (hperm : (entries.map Prod.snd).Perm received) (hentries : (entries.map Prod.fst).Nodup) :
    FdsAccounted imports imports'
      (received.map ImportEvent.receive ++ log ++ (entries.drop pairs.length).map fun x => ImportEvent.close x.2) := by
  have hrecords : (pairs.map (·.1)).Sublist (tornImports imports) := hpairs ▸ map_fst_zip_sublist ..
  have htaken : pairs.map (·.2) = entries.take pairs.length := hpairs ▸ map_snd_zip_eq_take ..
  have hfds : pairs.map (·.2.2) ++ (entries.drop pairs.length).map Prod.snd = entries.map Prod.snd := by
    have hmap : pairs.map (·.2.2) = (pairs.map (·.2)).map Prod.snd := (List.map_map ..).symm
    rw [hmap, htaken, ← List.map_append, List.take_append_drop]
  -- only the loop uses and binds
  have hloop : ∀ e, (∀ fd, e ≠ .receive fd) → (∀ fd, e ≠ .close fd) →
      (e ∈ received.map ImportEvent.receive ++ log ++ (entries.drop pairs.length).map (fun x => ImportEvent.close x.2) ↔ e ∈ log) := by
    intro e hrec hclose
    rw [List.mem_append, List.mem_append]
    refine ⟨fun hin => ?_, fun hin => Or.inl (Or.inr hin)⟩
    rcases hin with (hin | hin) | hin
    · obtain ⟨fd, -, rfl⟩ := List.mem_map.1 hin
      exact absurd rfl (hrec fd)
    · exact hin
    · obtain ⟨x, -, rfl⟩ := List.mem_map.1 hin
      exact absurd rfl (hclose x.2)
  have hfilter : ∀ {β : Type} (f : ImportEvent → Option β), (∀ fd, f (.receive fd) = none) → (∀ fd, f (.close fd) = none) →
      (received.map ImportEvent.receive ++ log ++ (entries.drop pairs.length).map fun x => ImportEvent.close x.2).filterMap f =
        log.filterMap f := by
    intro β f hrec hclose
    rw [List.filterMap_append, List.filterMap_append, List.filterMap_map, List.filterMap_map]
    simp [hrec, hclose]
  have hreceive : (received.map ImportEvent.receive ++ log ++ (entries.drop pairs.length).map fun x => ImportEvent.close x.2).filterMap
      ImportEvent.received = received := by
    rw [List.filterMap_append, List.filterMap_append, h.received, List.filterMap_map, List.filterMap_map]
    simp [Function.comp_def, ImportEvent.received]
  have hclosed : (received.map ImportEvent.receive ++ log ++ (entries.drop pairs.length).map fun x => ImportEvent.close x.2).filterMap
      ImportEvent.closed = entries.map Prod.snd := by
    rw [List.filterMap_append, List.filterMap_append, h.closed, List.filterMap_map, List.filterMap_map, ← hfds]
    simp [Function.comp_def, ImportEvent.closed]
  have hbound : ∀ {β : Type} (f : Nat × Nat → β), (pairs.map fun x => f (x.1.2, x.2.1)).Nodup →
      ((log.filterMap ImportEvent.bound).map fun x => f (x.1, x.2.1)).Nodup := by
    intro β f hnodup
    have hsub := h.bound.map f
    rw [List.map_map, List.map_map] at hsub
    exact hsub.nodup hnodup
  refine ⟨?_, ?_, fun fd huse => ?_, ?_, ?_, ?_, fun i entry handle hbind => ?_, fun i rec hrec => ?_, ?_⟩
  · exact (congrArg List.Nodup hreceive).mpr hreceived
  · exact (congrArg₂ List.Perm hclosed hreceive).mpr hperm
  · have hin := h.used fd ((hloop _ (by simp) (by simp)).1 huse)
    have hin : fd ∈ entries.map Prod.snd := hfds ▸ List.mem_append_left _ hin
    exact List.mem_append_left _ (List.mem_append_left _ (List.mem_map_of_mem (hperm.mem_iff.1 hin)))
  · refine List.pairwise_append.2 ⟨List.pairwise_append.2 ⟨?_, h.notUsedAfter, ?_⟩, ?_, ?_⟩
    · rw [List.pairwise_map]
      exact List.pairwise_of_forall fun _ _ => by simp
    · intro e he e' _ fd heq
      obtain ⟨fd', -, rfl⟩ := List.mem_map.1 he
      exact absurd heq (by simp)
    · rw [List.pairwise_map]
      exact List.pairwise_of_forall fun _ _ => by simp
    · intro e _ e' he' fd _
      obtain ⟨x, -, rfl⟩ := List.mem_map.1 he'
      simp
  · rw [hfilter _ (fun _ => rfl) (fun _ => rfl)]
    refine hbound Prod.fst ?_
    have hsub := hrecords.map Prod.snd
    rw [List.map_map] at hsub
    exact hsub.nodup (nodup_tornImports imports)
  · rw [hfilter _ (fun _ => rfl) (fun _ => rfl)]
    refine hbound Prod.snd ?_
    have hsub := (List.take_sublist pairs.length entries).map Prod.fst
    rw [← htaken, List.map_map] at hsub
    exact hsub.nodup hentries
  · have hbind := (hloop _ (by simp) (by simp)).1 hbind
    obtain ⟨x, hx, hi, -⟩ := h.of_bind hbind
    obtain ⟨htorn, hdown⟩ := List.mem_filter.1 (hrecords.subset (List.mem_map_of_mem hx))
    have hget := List.mem_zipIdx_iff_getElem?.1 htorn
    rw [hi] at hget
    exact ⟨x.1.1, hget, hdown⟩
  · refine (h.records i rec hrec).imp ?_ ?_
    · rintro ⟨entry, handle, hbind, hget⟩
      exact ⟨entry, handle, (hloop _ (by simp) (by simp)).2 hbind, hget⟩
    · rintro ⟨hfree, hget⟩
      exact ⟨fun entry handle hbind => hfree entry handle ((hloop _ (by simp) (by simp)).1 hbind), hget⟩
  · rw [hfilter _ (fun _ => rfl) (fun _ => rfl), hfilter _ (fun _ => rfl) (fun _ => rfl),
      hfilter _ (fun _ => rfl) (fun _ => rfl)]
    exact h.handles

theorem BringsNew.loop (hnew : ops.BringsNew isOpen) (hrelease : ∀ handle s, (ops.release handle s).1 = true)
    (hasSetAccess : Bool) (block : List IpcExportShmEntry) (imports : List IpcImportRecord) (s : σ) :
    ∃ log, (ops.ipcImportLogged true hasSetAccess block imports s).2.2.2 =
        (ops.receivedFds (peerRequests block) s).map ImportEvent.receive ++ log ++
          ((ImportOps.validEntries block (ops.requestFds block s).1).drop
            (matched imports block (ops.requestFds block s).1).length).map (fun x => ImportEvent.close x.2) ∧
      Matched imports (matched imports block (ops.requestFds block s).1)
        (ops.ipcImportLogged true hasSetAccess block imports s).2.1 log := by
  unfold ipcImportLogged
  split_ifs with hblock hresolved
  · subst hblock
    have hpairs : matched imports [] (ops.requestFds [] s).1 = [] := List.zip_nil_right
    rw [hpairs]
    exact ⟨[], rfl, matched_nil imports⟩
  · exact absurd hresolved Bool.false_ne_true
  dsimp only
  obtain ⟨hreceived, -⟩ := hnew.receivedFds (peerRequests block) s
  obtain ⟨hperm, -⟩ := hnew.validEntries block s
  have hfds := hperm.nodup_iff.2 hreceived
  have hpairs : ((matched imports block (ops.requestFds block s).1).map (·.2.2)).Nodup := by
    have hsub := (List.take_sublist (matched imports block (ops.requestFds block s).1).length
      (ImportOps.validEntries block (ops.requestFds block s).1)).map Prod.snd
    rw [matched, ← map_snd_zip_eq_take, List.map_map] at hsub
    exact hsub.nodup hfds
  have hrecords : ((matched imports block (ops.requestFds block s).1).map (·.1.2)).Nodup := by
    have hsub := (map_fst_zip_sublist (tornImports imports)
      (ImportOps.validEntries block (ops.requestFds block s).1)).map Prod.snd
    rw [List.map_map] at hsub
    exact hsub.nodup (nodup_tornImports imports)
  let start : LoggedProgress σ := ⟨imports, 0, (ops.requestFds block s).2,
    (ops.receivedFds (peerRequests block) s).map ImportEvent.receive⟩
  have hstart : start.log = start.log ++ [] := (List.append_nil _).symm
  have hnil : Matched imports [] start.imports [] := matched_nil imports
  obtain ⟨log, hlog, hmatched⟩ := hnil.foldl hrelease hasSetAccess (matched imports block (ops.requestFds block s).1)
    hstart hpairs hrecords
  exact ⟨log, congrArg (· ++ _) hlog, hmatched⟩

/-- **The descriptors that an import receives are closed once**, whatever the peers, the driver and the block do. -/
theorem fdsAccounted_import (hnew : ops.BringsNew isOpen) (hrelease : ∀ handle s, (ops.release handle s).1 = true)
    (resolved hasSetAccess : Bool) (block : List IpcExportShmEntry) (imports : List IpcImportRecord) (s : σ) :
    FdsAccounted imports (ops.ipcImportLogged resolved hasSetAccess block imports s).2.1
      (ops.ipcImportLogged resolved hasSetAccess block imports s).2.2.2 := by
  cases resolved with
  | false =>
    unfold ipcImportLogged
    split_ifs
    · exact fdsAccounted_nil imports
    · exact fdsAccounted_nil imports
    · contradiction
  | true =>
    obtain ⟨log, hlog, hmatched⟩ := hnew.loop hrelease hasSetAccess block imports s
    obtain ⟨hreceived, -⟩ := hnew.receivedFds (peerRequests block) s
    obtain ⟨hperm, hentries⟩ := hnew.validEntries block s
    rw [hlog]
    exact hmatched.accounted rfl hreceived hperm hentries

end Whole

end ImportOps

/-! ### A driver whose map fails once -/

namespace ImportWorld

/-- Handles can always be released. -/
def releasingOps (net : Int → Int → Option ExporterAlloc) : ImportOps ImportWorld :=
  { ops net with release := fun _ s => (true, s.tick) }

theorem length_of_mapM {α β : Type*} {f : α → Option β} {l : List α} {bs : List β} (h : l.mapM f = some bs) :
    bs.length = l.length := by
  induction l generalizing bs with
  | nil =>
    obtain rfl : [] = bs := Option.some.inj h
    rfl
  | cons a l ih =>
    rw [List.mapM_cons] at h
    obtain ⟨b, -, h⟩ := Option.bind_eq_some_iff.1 h
    obtain ⟨rest, hrest, h⟩ := Option.bind_eq_some_iff.1 h
    obtain rfl : b :: rest = bs := Option.some.inj h
    exact congrArg (· + 1) (ih hrest)

theorem releasingOps_bringsNew (net : Int → Int → Option ExporterAlloc) :
    (releasingOps net).BringsNew fun s fd => fd < s.fds.length := by
  have hcases : ∀ pid fds s, (releasingOps net).receiveFds pid fds s = ([], s.tick) ∨
      ∃ as : List ExporterAlloc, as.length = fds.length ∧ (releasingOps net).receiveFds pid fds s =
        (List.range' s.fds.length as.length, { s.tick with fds := s.fds ++ as }) := by
    intro pid fds s
    change udsReceiveFds net pid fds s = _ ∨ ∃ as : List ExporterAlloc, _ ∧ udsReceiveFds net pid fds s = _
    unfold udsReceiveFds
    split_ifs
    · exact Or.inl rfl
    · cases has : fds.mapM (net pid) with
      | none => exact Or.inl rfl
      | some as => exact Or.inr ⟨as, length_of_mapM has, rfl⟩
  refine ⟨fun pid fds s => ?_, fun pid fds s => ?_, fun pid fds s fd hfd => ?_, fun pid fds s fd hfd => ?_⟩
  · rcases hcases pid fds s with heq | ⟨as, -, heq⟩
    · rw [heq]
      exact List.nodup_nil
    · rw [heq]
      exact List.nodup_range'
  · rcases hcases pid fds s with heq | ⟨as, hlen, heq⟩
    · rw [heq]
      exact Nat.zero_le _
    · rw [heq, List.length_range']
      exact Nat.le_of_eq hlen
  · rcases hcases pid fds s with heq | ⟨as, -, heq⟩
    · rw [heq] at hfd
      exact absurd hfd List.not_mem_nil
    · rw [heq, List.mem_range'_1] at hfd
      exact Nat.not_lt.2 hfd.1
  · rcases hcases pid fds s with heq | ⟨as, -, heq⟩
    · rw [heq] at hfd ⊢
      exact hfd.resolve_right List.not_mem_nil
    · rw [heq] at hfd ⊢
      change fd < (s.fds ++ as).length
      rw [List.length_append]
      rw [List.mem_range'_1] at hfd
      omega

/-- Two peers and an entry that is not valid. -/
def threeEntries : List IpcExportShmEntry :=
  [⟨9, 3, 30, 8, true⟩, ⟨8, 9, 0, 8, false⟩, ⟨7, 4, 40, 8, true⟩, ⟨7, 6, 60, 8, true⟩]

def tornAt (va : Nat) : IpcImportRecord := ⟨va, 8, 0, -1, default, [⟨1, 0, 3⟩], true⟩

/-- The fourth call fails, which is the map for the first record. -/
def failedMap : Option Nat × List IpcImportRecord × ImportWorld × List ImportEvent :=
  (releasingOps fun pid fd => some ⟨pid, fd.toNat⟩).ipcImportLogged true true threeEntries [tornAt 100, tornAt 200]
    ⟨fun n => n == 3, 0, [], [], fun _ => none⟩

/-- The second record takes the next entry, and an entry is left over. -/
theorem fdsAccounted_failedMap :
    failedMap.2.2.2 = [.receive 0, .receive 1, .receive 2, .use 2, .acquire 1, .close 2, .release 1, .use 0, .acquire 2,
        .close 0, .bind 1 2 2, .close 1] ∧
      ImportOps.FdsAccounted [tornAt 100, tornAt 200] failedMap.2.1 failedMap.2.2.2 :=
  ⟨by decide, ImportOps.fdsAccounted_import (releasingOps_bringsNew _) (fun _ _ => rfl) true true threeEntries
    [tornAt 100, tornAt 200] _⟩

end ImportWorld

end GpuCr
