import GpuCr.Ipc.FdLifetime
import GpuCr.Ipc.FdTransfer

/-!
# A batch of descriptors and the imports that wait for it

`ipc_import_from_shm_block` in a process whose peers run the server of `src/ipc_fd_exchange.cpp`, for any descriptors that
they have open and any driver. A peer's batch arrives whole or not at all, and what is missing moves all later entries to
earlier imports.
-/

namespace GpuCr

open Lib Lib.Grouping

/-- What the caller takes from `local_fds`, which has `num` cells. -/
def FdReceipt.taken {α : Type} (r : FdReceipt α) (num : Nat) : List Nat :=
  (List.range (min r.ret.toNat num)).map fun j => (r.localFds j).toNat

/-! ### The client brings new descriptors -/

section Taken
variable {α : Type} {stack : Nat} {localFds : Nat → Int} {table : FdTable α} {r : FdReceipt α}

theorem recvFds_taken {message : Option (List α)} {numFds : Nat}
    (h : recvFds stack message localFds table numFds = .ok r) : ∃ files : List α,
      r.table = (installFds table files).2 ∧ ∀ num, r.taken num <+: (installFds table files).1 := by
  unfold recvFds at h
  split_ifs at h
  dsimp only at h
  refine ⟨(message.getD []).take ((cmsgSpace (4 * numFds) - cmsgLen 0) / 4), ?_⟩
  generalize installFds table ((message.getD []).take ((cmsgSpace (4 * numFds) - cmsgLen 0) / 4)) = x at h ⊢
  by_cases hzero : x.1.length = 0
  · rw [if_pos hzero] at h
    obtain rfl := Except.ok.inj h
    exact ⟨rfl, fun num => List.nil_prefix⟩
  rw [if_neg hzero] at h
  obtain rfl := Except.ok.inj h
  refine ⟨rfl, fun num => ?_⟩
  dsimp only [FdReceipt.taken]
  have hcopy : (if x.1.length < numFds then x.1.length else numFds) ≤ x.1.length := by split_ifs <;> omega
  generalize (if x.1.length < numFds then x.1.length else numFds) = copyCount at hcopy ⊢
  -- the cells that have been written hold the installed numbers
  have htake : (List.range (min copyCount num)).map (fun j => (if j < copyCount then (x.1.getD j 0 : Int) else localFds j).toNat) =
      x.1.take (min copyCount num) := by
    refine List.ext_getElem (by simp; omega) fun i hi hi' => ?_
    have hlt : i < min copyCount num := by simpa using hi
    have hin : i < x.1.length := by omega
    rw [List.getElem_map, List.getElem_range, if_pos (by omega), List.getElem_take]
    simp [hin]
  exact htake ▸ List.take_prefix ..

theorem udsReceiveFds_taken {ignoresSigpipe : Bool} {conn : FdConnection} {peerFds : List Int} {response : FdResponse α}
    (h : udsReceiveFds ignoresSigpipe conn stack peerFds response localFds table = .ok r) : ∃ files : List α,
      r.table = (installFds table files).2 ∧ ∀ num, r.taken num <+: (installFds table files).1 := by
  have hfailed : (.ok ⟨-1, localFds, 0, table⟩ : Except FdCrash (FdReceipt α)) = .ok r → ∃ files : List α,
      r.table = (installFds table files).2 ∧ ∀ num, r.taken num <+: (installFds table files).1 := by
    intro heq
    obtain rfl := Except.ok.inj heq
    exact ⟨[], rfl, fun num => List.nil_prefix⟩
  unfold udsReceiveFds at h
  dsimp only at h
  split_ifs at h
  · exact hfailed h
  · exact hfailed h
  · cases hsend : sendRequest ignoresSigpipe conn with
    | error crash =>
      rw [hsend] at h
      exact absurd h (by simp)
    | ok sent =>
      rw [hsend] at h
      cases sent with
      | false => exact hfailed h
      | true =>
        cases hcount : response.sendCount with
        | none =>
          rw [hcount] at h
          exact hfailed h
        | some sendCount =>
          rw [hcount] at h
          dsimp only at h
          split_ifs at h
          · exact hfailed h
          · exact recvFds_taken h

end Taken

namespace ImportOps

/-- The calls of a process whose peers serve what they have open, `net`, by pid and number. The other calls are a driver's. -/
def overSockets {α σ : Type} (driver : ImportOps σ) (net : Int → Int → Option α) (stack : Nat) : ImportOps (FdTable α × σ) where
  receiveFds pid fds s :=
    match udsReceiveFds false .up stack fds (udsServe (net pid) fds) (fun _ => -1) s.1 with
    | .error _ => ([], s)
    | .ok r => (r.taken fds.length, r.table, s.2)
  importFd fd s :=
    let r := driver.importFd fd s.2
    (r.1, s.1, r.2)
  map va size handle s :=
    let r := driver.map va size handle s.2
    (r.1, s.1, r.2)
  unmap va size s :=
    let r := driver.unmap va size s.2
    (r.1, s.1, r.2)
  setAccess va size desc s :=
    let r := driver.setAccess va size desc s.2
    (r.1, s.1, r.2)
  release handle s :=
    let r := driver.release handle s.2
    (r.1, s.1, r.2)

section Sockets
variable {α σ : Type} {driver : ImportOps σ} {net : Int → Int → Option α} {stack : Nat}

theorem overSockets_bringsNew (driver : ImportOps σ) (net : Int → Int → Option α) (stack : Nat) :
    (driver.overSockets net stack).BringsNew fun s fd => s.1.get fd ≠ none := by
  -- what a request installs, and what of it is taken
  have hreq : ∀ pid fds (s : FdTable α × σ), ∃ files : List α,
      ((driver.overSockets net stack).receiveFds pid fds s).2.1 = (installFds s.1 files).2 ∧
        ((driver.overSockets net stack).receiveFds pid fds s).1 <+: (installFds s.1 files).1 := by
    intro pid fds s
    dsimp only [overSockets]
    cases hres : udsReceiveFds false .up stack fds (udsServe (net pid) fds) (fun _ => -1) s.1 with
    | error crash => exact ⟨[], rfl, List.nil_prefix⟩
    | ok r =>
      obtain ⟨files, htable, htaken⟩ := udsReceiveFds_taken hres
      exact ⟨files, htable, htaken fds.length⟩
  refine ⟨fun pid fds s => ?_, fun pid fds s => ?_, fun pid fds s fd hfd => ?_, fun pid fds s fd hfd => ?_⟩
  · obtain ⟨files, -, htaken⟩ := hreq pid fds s
    exact htaken.sublist.nodup (installFds_spec s.1 files).2.1
  · dsimp only [overSockets]
    cases udsReceiveFds false .up stack fds (udsServe (net pid) fds) (fun _ => -1) s.1 with
    | error crash => exact Nat.zero_le _
    | ok r =>
      dsimp only [FdReceipt.taken]
      rw [List.length_map, List.length_range]
      exact Nat.min_le_right ..
  · obtain ⟨files, -, htaken⟩ := hreq pid fds s
    exact fun hopen => hopen ((installFds_spec s.1 files).1 fd (htaken.subset hfd))
  · obtain ⟨files, htable, htaken⟩ := hreq pid fds s
    obtain ⟨hfree, -, -, hrest⟩ := installFds_spec s.1 files
    rw [htable]
    rcases hfd with hopen | hfd
    · rw [hrest fd fun hin => hopen (hfree fd hin)]
      exact hopen
    · exact installFds_open (htaken.subset hfd)

theorem receiveFds_overSockets (driver : ImportOps σ) (hstack : cmsgSpace (4 * udsMaxFds) ≤ stack) {fds : List Int}
    (hpos : 0 < fds.length) (hmax : fds.length ≤ udsMaxFds) (pid : Int) (s : FdTable α × σ) :
    (∀ fd ∈ fds, net pid fd ≠ none) ∧ ((driver.overSockets net stack).receiveFds pid fds s).1.length = fds.length ∨
      (∃ fd ∈ fds, net pid fd = none) ∧ ((driver.overSockets net stack).receiveFds pid fds s).1 = [] := by
  dsimp only [overSockets]
  rcases udsReceiveFds_served false (net pid) hpos hmax hstack s.1 with ⟨as, hlen, hget, heq⟩ | ⟨hclosed, heq⟩
  · refine Or.inl ⟨fun fd hfd => ?_, ?_⟩
    · obtain ⟨j, hj⟩ := List.mem_iff_getElem?.1 hfd
      have := (List.getElem?_eq_some_iff.1 hj).1
      rw [hget j fd hj, List.getElem?_eq_getElem (by omega)]
      exact Option.some_ne_none _
    · rw [heq]
      dsimp only [FdReceipt.taken]
      rw [List.length_map, List.length_range, Int.toNat_natCast, Nat.min_self]
  · rw [heq]
    exact Or.inr ⟨hclosed, rfl⟩

theorem mem_assignedFds (hstack : cmsgSpace (4 * udsMaxFds) ≤ stack) (reqs : List (Int × List (IpcExportShmEntry × Nat)))
    (hreqs : ∀ req ∈ reqs, 0 < req.2.length ∧ req.2.length ≤ udsMaxFds) (s : FdTable α × σ) (k : Nat) :
    k ∈ ((driver.overSockets net stack).assignedFds reqs s).map Prod.fst ↔
      ∃ req ∈ reqs, (∀ e ∈ req.2, net req.1 e.1.fd ≠ none) ∧ k ∈ req.2.map (·.2) := by
  induction reqs generalizing s with
  | nil => simp [assignedFds]
  | cons req reqs ih =>
    obtain ⟨hreq, hreqs⟩ := List.forall_mem_cons.1 hreqs
    have hfds : (req.2.map (·.1.fd)).length = req.2.length := List.length_map ..
    rw [assignedFds, List.map_append, List.mem_append, ih hreqs, List.exists_mem_cons_iff]
    refine or_congr ?_ Iff.rfl
    rcases receiveFds_overSockets driver hstack (hreq.1.trans_eq hfds.symm) (hfds.trans_le hreq.2) req.1 s with
      ⟨hopen, hlen⟩ | ⟨⟨fd, hfd, hclosed⟩, hnil⟩
    · rw [List.map_fst_zip (by rw [hlen, hfds, List.length_map])]
      refine (and_iff_right fun e he => ?_).symm
      exact hopen _ (List.mem_map_of_mem he)
    · rw [hnil, List.zip_nil_right]
      refine iff_of_false List.not_mem_nil fun h => ?_
      obtain ⟨e, he, rfl⟩ := List.mem_map.1 hfd
      exact h.1 e he hclosed

end Sockets

end ImportOps

/-! ### The places of a block -/

/-- The valid entries, with their places. -/
def validPlaces (block : List IpcExportShmEntry) : List (IpcExportShmEntry × Nat) := block.zipIdx.filter (·.1.valid)

/-- Its owner has the entry's descriptor open. -/
def EntryOpen {α : Type} (net : Int → Int → Option α) (e : IpcExportShmEntry) : Prop := net e.ownerPid e.fd ≠ none

section Places

theorem pairwise_validPlaces (block : List IpcExportShmEntry) : (validPlaces block).Pairwise fun a b => a.2 < b.2 := by
  have h : (block.zipIdx.map Prod.snd).Pairwise (· < ·) := by
    rw [List.zipIdx_map_snd]
    exact List.pairwise_lt_range'
  exact (List.pairwise_map.1 h).filter _

theorem nodup_validPlaces (block : List IpcExportShmEntry) : (validPlaces block).Nodup :=
  (pairwise_validPlaces block).imp fun hlt heq => absurd (congrArg Prod.snd heq) hlt.ne

theorem eq_of_place_eq {block : List IpcExportShmEntry} {a b : IpcExportShmEntry × Nat} (ha : a ∈ validPlaces block)
    (hb : b ∈ validPlaces block) (heq : a.2 = b.2) : a = b := by
  have ha := List.mem_zipIdx_iff_getElem?.1 (List.mem_filter.1 ha).1
  have hb := List.mem_zipIdx_iff_getElem?.1 (List.mem_filter.1 hb).1
  rw [heq, hb] at ha
  exact Prod.ext (Option.some.inj ha).symm heq

theorem mem_take_validPlaces {block : List IpcExportShmEntry} {k : Nat} {a b : IpcExportShmEntry × Nat}
    (hb : (validPlaces block)[k]? = some b) : a ∈ (validPlaces block).take k ↔ a ∈ validPlaces block ∧ a.2 < b.2 := by
  have hlt := pairwise_validPlaces block
  rw [List.pairwise_iff_getElem] at hlt
  obtain ⟨hk, rfl⟩ := List.getElem?_eq_some_iff.1 hb
  constructor
  · intro ha
    obtain ⟨i, hi, rfl⟩ := List.mem_take_iff_getElem.1 ha
    exact ⟨List.getElem_mem _, hlt i k _ hk (by omega)⟩
  · rintro ⟨ha, hless⟩
    obtain ⟨i, hi, rfl⟩ := List.getElem_of_mem ha
    refine List.mem_take_iff_getElem.2 ⟨i, ?_, rfl⟩
    rcases Nat.lt_trichotomy i k with hik | rfl | hki
    · omega
    · exact absurd hless (lt_irrefl _)
    · exact absurd (hlt k i hk hi hki) hless.not_gt

theorem getElem?_filter_iff {β : Type*} {p : β → Bool} {l : List β} (hl : l.Nodup) {k : Nat} {a : β}
    (h : l[k]? = some a) : (l.filter p)[k]? = some a ↔ p a = true ∧ ∀ b ∈ l.take k, p b = true := by
  obtain ⟨hk, rfl⟩ := List.getElem?_eq_some_iff.1 h
  have hsplit : l.filter p = (l.take k).filter p ++ (l.drop k).filter p := by
    rw [← List.filter_append, List.take_append_drop]
  have hdrop : l.drop k = l[k] :: l.drop (k + 1) := List.drop_eq_getElem_cons hk
  constructor
  · intro hget
    have hpa : p l[k] = true := (List.mem_filter.1 (List.mem_of_getElem? hget)).2
    -- its place there is the number of those before it
    have hplace : (l.filter p)[((l.take k).filter p).length]? = some l[k] := by
      rw [hsplit, List.getElem?_append_right (Nat.le_refl _), Nat.sub_self, hdrop, List.filter_cons, if_pos hpa]
      rfl
    obtain ⟨hk1, heq1⟩ := List.getElem?_eq_some_iff.1 hget
    obtain ⟨hk2, heq2⟩ := List.getElem?_eq_some_iff.1 hplace
    have hsame := (List.Nodup.getElem_inj_iff (hl.filter p)).1 (heq1.trans heq2.symm)
    have htake : ((l.take k).filter p).length = (l.take k).length := by
      rw [List.length_take]
      omega
    exact ⟨hpa, fun b hb => List.length_filter_eq_length_iff.1 htake b hb⟩
  · rintro ⟨hpa, hbefore⟩
    have hall : (l.take k).filter p = l.take k := List.filter_eq_self.2 hbefore
    have hlen : (l.take k).length = k := by
      rw [List.length_take]
      omega
    rw [hsplit, hall, List.getElem?_append_right hlen.le, hlen, Nat.sub_self, hdrop, List.filter_cons, if_pos hpa]
    rfl

theorem map_fst_validEntries (block : List IpcExportShmEntry) (m : Nat → Option Nat) :
    (ImportOps.validEntries block m).map Prod.fst = ((validPlaces block).filter fun e => (m e.2).isSome).map Prod.snd := by
  unfold ImportOps.validEntries validPlaces
  induction block.zipIdx with
  | nil => rfl
  | cons e es ih =>
    rw [List.filterMap_cons, List.filter_cons]
    by_cases hvalid : e.1.valid = true
    · rw [if_pos hvalid, if_pos hvalid, List.filter_cons]
      cases m e.2 with
      | none => exact ih
      | some fd => exact congrArg (List.cons e.2) ih
    · rw [if_neg hvalid, if_neg hvalid]
      exact ih

end Places

namespace ImportOps

/-! ### A driver that refuses nothing -/

structure Succeeds {σ : Type} (ops : ImportOps σ) : Prop where
  importFd : ∀ fd s, (ops.importFd fd s).1 ≠ none
  map : ∀ va size handle s, (ops.map va size handle s).1 = true
  release : ∀ handle s, (ops.release handle s).1 = true

section Succeeding
variable {σ : Type} {ops : ImportOps σ}

theorem Succeeds.rebuildLogged (h : ops.Succeeds) (hasSetAccess : Bool) (p : LoggedProgress σ)
    (pair : (IpcImportRecord × Nat) × Nat × Nat) : ∃ handle, (ops.rebuildLogged hasSetAccess p pair).log =
      p.log ++ [.use pair.2.2, .acquire handle, .close pair.2.2, .bind pair.1.2 pair.2.1 handle] := by
  unfold ImportOps.rebuildLogged
  dsimp only
  rcases hres : ops.importFd pair.2.2 p.state with ⟨_ | newHandle, s⟩
  · exact absurd (congrArg Prod.fst hres) (h.importFd pair.2.2 p.state)
  · dsimp only
    rcases hmap : ops.map pair.1.1.mappedVaddr pair.1.1.size newHandle s with ⟨_ | _, s'⟩
    · exact absurd ((congrArg Prod.fst hmap).symm.trans (h.map ..)) Bool.false_ne_true
    · exact ⟨newHandle, rfl⟩

theorem Succeeds.foldl_rebuildLogged (h : ops.Succeeds) (hasSetAccess : Bool)
    (pairs : List ((IpcImportRecord × Nat) × Nat × Nat)) (p : LoggedProgress σ) :
    (∀ e ∈ p.log, e ∈ (pairs.foldl (ops.rebuildLogged hasSetAccess) p).log) ∧
      ∀ pair ∈ pairs, ∃ handle, .bind pair.1.2 pair.2.1 handle ∈ (pairs.foldl (ops.rebuildLogged hasSetAccess) p).log := by
  induction pairs generalizing p with
  | nil => exact ⟨fun e he => he, fun pair hpair => absurd hpair List.not_mem_nil⟩
  | cons pair pairs ih =>
    obtain ⟨handle, hlog⟩ := h.rebuildLogged hasSetAccess p pair
    obtain ⟨hkept, hrest⟩ := ih (ops.rebuildLogged hasSetAccess p pair)
    rw [hlog] at hkept
    refine ⟨fun e he => hkept e (List.mem_append_left _ he), fun pair' hpair => ?_⟩
    rcases List.mem_cons.1 hpair with rfl | hpair
    · exact ⟨handle, hkept _ (List.mem_append_right _ (by simp))⟩
    · exact hrest pair' hpair

theorem Succeeds.bind_mem (h : ops.Succeeds) (hasSetAccess : Bool) {block : List IpcExportShmEntry}
    {imports : List IpcImportRecord} {s : σ} {pair : (IpcImportRecord × Nat) × Nat × Nat}
    (hpair : pair ∈ matched imports block (ops.requestFds block s).1) :
    ∃ handle, .bind pair.1.2 pair.2.1 handle ∈ (ops.ipcImportLogged true hasSetAccess block imports s).2.2.2 := by
  unfold ipcImportLogged
  split_ifs with hblock hresolved
  · subst hblock
    have hnil : matched imports [] (ops.requestFds [] s).1 = [] := List.zip_nil_right
    rw [hnil] at hpair
    exact absurd hpair List.not_mem_nil
  · exact absurd hresolved Bool.false_ne_true
  · obtain ⟨handle, hbind⟩ := (h.foldl_rebuildLogged hasSetAccess _ _).2 pair hpair
    exact ⟨handle, List.mem_append_left _ hbind⟩

theorem Succeeds.overSockets (h : ops.Succeeds) {α : Type} (net : Int → Int → Option α) (stack : Nat) :
    (ops.overSockets net stack).Succeeds :=
  ⟨fun fd s => h.importFd fd s.2, fun va size handle s => h.map va size handle s.2, fun handle s => h.release handle s.2⟩

end Succeeding

end ImportOps

/-! ### The imports -/

open ImportOps

/-- Each import is bound with the entry at its own position, the `k`-th with the `k`-th, if the descriptor of that entry
is open. -/
def RebindsOpen {α σ : Type} (net : Int → Int → Option α) (block : List IpcExportShmEntry) (ops : ImportOps σ) (s : σ) : Prop :=
  ∀ (hasSetAccess : Bool) (imports : List IpcImportRecord) (k : Nat) (rec : IpcImportRecord × Nat)
    (e : IpcExportShmEntry × Nat),
    (tornImports imports)[k]? = some rec → (validPlaces block)[k]? = some e → EntryOpen net e.1 →
      ∃ handle, .bind rec.2 e.2 handle ∈ (ops.ipcImportLogged true hasSetAccess block imports s).2.2.2 ∧
        (ops.ipcImportFromShmBlock true hasSetAccess block imports s).2.1[rec.2]? =
          some { rec.1 with handle := handle, tornDown := false }

/-- No descriptor that is not open is asked for together with one that is open, or stands before one. -/
def NoneSpoilt {α : Type} (net : Int → Int → Option α) (block : List IpcExportShmEntry) : Prop :=
  ∀ a ∈ validPlaces block, ∀ b ∈ validPlaces block,
    EntryOpen net b.1 → a.1.ownerPid = b.1.ownerPid ∨ a.2 < b.2 → EntryOpen net a.1

section Block
variable {α σ : Type} {net : Int → Int → Option α} {block : List IpcExportShmEntry} {driver : ImportOps σ} {stack : Nat}
  {s : FdTable α × σ}

theorem mem_peerRequests_iff {req : Int × List (IpcExportShmEntry × Nat)} (hreq : req ∈ peerRequests block)
    {e : IpcExportShmEntry × Nat} : e ∈ req.2 ↔ e ∈ validPlaces block ∧ e.1.ownerPid = req.1 := by
  rw [((groups_group (fun e : IpcExportShmEntry × Nat => e.1.ownerPid) (validPlaces block)).group req hreq).1,
    List.mem_filter, decide_eq_true_eq]

theorem length_peerRequests (hblock : block.length ≤ ipcMaxExportsPerProc) :
    ∀ req ∈ peerRequests block, 0 < req.2.length ∧ req.2.length ≤ udsMaxFds := by
  intro req hreq
  obtain ⟨hentries, hne⟩ :=
    (groups_group (fun e : IpcExportShmEntry × Nat => e.1.ownerPid) (validPlaces block)).group req hreq
  refine ⟨List.length_pos_iff.2 hne, ?_⟩
  have h1 : req.2.length ≤ (validPlaces block).length := hentries ▸ List.length_filter_le ..
  have h2 : (validPlaces block).length ≤ block.zipIdx.length := List.length_filter_le ..
  rw [List.length_zipIdx] at h2
  exact (h1.trans h2).trans hblock

/-- An entry gets a descriptor if all of its owner's entries are open. -/
theorem isSome_localFd_iff (hstack : cmsgSpace (4 * udsMaxFds) ≤ stack) (hblock : block.length ≤ ipcMaxExportsPerProc)
    {e : IpcExportShmEntry × Nat} (he : e ∈ validPlaces block) :
    (((driver.overSockets net stack).requestFds block s).1 e.2).isSome = true ↔
      ∀ a ∈ validPlaces block, a.1.ownerPid = e.1.ownerPid → EntryOpen net a.1 := by
  have hkeys := ((overSockets_bringsNew driver net stack).assignedFds (peerRequests block) s).1.nodup
    (places_peerRequests block).1
  obtain ⟨hin, hout⟩ := ImportWorld.foldl_setLocalFd _ (fun _ => none) hkeys
  have hlocal : ((driver.overSockets net stack).requestFds block s).1 =
      ((driver.overSockets net stack).assignedFds (peerRequests block) s).foldl setLocalFd fun _ => none :=
    foldl_requestPeer ..
  have hassigned : (((driver.overSockets net stack).requestFds block s).1 e.2).isSome = true ↔
      e.2 ∈ ((driver.overSockets net stack).assignedFds (peerRequests block) s).map Prod.fst := by
    rw [hlocal]
    constructor
    · intro hsome
      by_contra hnot
      rw [hout _ hnot] at hsome
      exact absurd hsome Bool.false_ne_true
    · intro hmem
      obtain ⟨p, hp, heq⟩ := List.mem_map.1 hmem
      rw [← heq, hin p hp]
      rfl
  rw [hassigned, mem_assignedFds hstack _ (length_peerRequests hblock)]
  constructor
  · rintro ⟨req, hreq, hopen, hplace⟩ a ha howner
    obtain ⟨b, hb, heq⟩ := List.mem_map.1 hplace
    obtain ⟨hbvalid, hbowner⟩ := (mem_peerRequests_iff hreq).1 hb
    obtain rfl := eq_of_place_eq hbvalid he heq
    have hao : a.1.ownerPid = req.1 := howner.trans hbowner
    have := hopen a ((mem_peerRequests_iff hreq).2 ⟨ha, hao⟩)
    rwa [← hao] at this
  · intro hall
    obtain ⟨req, hreq, hkey⟩ :=
      (groups_group (fun e : IpcExportShmEntry × Nat => e.1.ownerPid) (validPlaces block)).key e he
    refine ⟨req, hreq, fun a ha => ?_, List.mem_map_of_mem ((mem_peerRequests_iff hreq).2 ⟨he, hkey.symm⟩)⟩
    obtain ⟨havalid, haowner⟩ := (mem_peerRequests_iff hreq).1 ha
    have := hall a havalid (haowner.trans hkey)
    unfold EntryOpen at this
    rwa [haowner] at this

theorem getElem?_validEntries_iff {m : Nat → Option Nat} {k : Nat} {e : IpcExportShmEntry × Nat}
    (he : (validPlaces block)[k]? = some e) : (∃ fd, (validEntries block m)[k]? = some (e.2, fd)) ↔
      (m e.2).isSome = true ∧ ∀ a ∈ (validPlaces block).take k, (m a.2).isSome = true := by
  rw [← getElem?_filter_iff (p := fun e => (m e.2).isSome) (nodup_validPlaces block) he]
  have hplaces : ((validEntries block m).map Prod.fst)[k]? =
      (((validPlaces block).filter fun e => (m e.2).isSome).map Prod.snd)[k]? := by rw [map_fst_validEntries]
  rw [List.getElem?_map, List.getElem?_map] at hplaces
  constructor
  · rintro ⟨fd, hget⟩
    rw [hget] at hplaces
    obtain ⟨a, ha, heq⟩ := Option.map_eq_some_iff.1 hplaces.symm
    have hain := (List.mem_filter.1 (List.mem_of_getElem? ha)).1
    exact eq_of_place_eq hain (List.mem_of_getElem? he) heq ▸ ha
  · intro hget
    rw [hget] at hplaces
    obtain ⟨x, hx, heq⟩ := Option.map_eq_some_iff.1 hplaces
    exact ⟨x.2, hx.trans (congrArg some (Prod.ext heq rfl))⟩

theorem bind_of_position {ops : ImportOps σ} {isOpen : σ → Nat → Prop} (hnew : ops.BringsNew isOpen) (h : ops.Succeeds)
    (hasSetAccess : Bool) {imports : List IpcImportRecord} {s : σ} {k : Nat} {rec : IpcImportRecord × Nat} {entry fd : Nat}
    (hrec : (tornImports imports)[k]? = some rec)
    (hentry : (validEntries block (ops.requestFds block s).1)[k]? = some (entry, fd)) :
    ∃ handle, .bind rec.2 entry handle ∈ (ops.ipcImportLogged true hasSetAccess block imports s).2.2.2 ∧
      (ops.ipcImportFromShmBlock true hasSetAccess block imports s).2.1[rec.2]? =
        some { rec.1 with handle := handle, tornDown := false } := by
  have hpair : (matched imports block (ops.requestFds block s).1)[k]? = some (rec, entry, fd) :=
    List.getElem?_zip_eq_some.2 ⟨hrec, hentry⟩
  obtain ⟨handle, hbind⟩ := h.bind_mem hasSetAccess (List.mem_of_getElem? hpair)
  obtain ⟨log, hlog, hmatched⟩ := hnew.loop h.release hasSetAccess block imports s
  -- what is bound is bound by the loop
  have hloop : ∀ i entry handle, .bind i entry handle ∈ log ↔
      .bind i entry handle ∈ (ops.ipcImportLogged true hasSetAccess block imports s).2.2.2 := by
    intro i entry handle
    rw [hlog, List.append_assoc, List.mem_append, List.mem_append]
    refine ⟨fun hin => Or.inr (Or.inl hin), fun hin => ?_⟩
    rcases hin with hin | hin | hin
    · obtain ⟨x, -, heq⟩ := List.mem_map.1 hin
      exact absurd heq (by simp)
    · exact hin
    · obtain ⟨x, -, heq⟩ := List.mem_map.1 hin
      exact absurd heq (by simp)
  have hat : imports[rec.2]? = some rec.1 :=
    List.mem_zipIdx_iff_getElem?.1 (List.mem_filter.1 (List.mem_of_getElem? hrec)).1
  rw [ipcImportLogged_eq]
  rcases hmatched.records rec.2 rec.1 hat with ⟨entry', handle', hbind', hget⟩ | ⟨hfree, -⟩
  · obtain ⟨x, hx, hrecord, rfl⟩ := hmatched.of_bind hbind'
    obtain ⟨j, hj⟩ := List.mem_iff_getElem?.1 hx
    obtain ⟨hj1, hj2⟩ := List.getElem?_zip_eq_some.1 hj
    -- a record is at one position
    have hjk : j = k := by
      have hnodup := nodup_tornImports imports
      have h1 : ((tornImports imports).map Prod.snd)[j]? = some rec.2 := by rw [List.getElem?_map, hj1, ← hrecord]; rfl
      have h2 : ((tornImports imports).map Prod.snd)[k]? = some rec.2 := by rw [List.getElem?_map, hrec]; rfl
      obtain ⟨hlt1, heq1⟩ := List.getElem?_eq_some_iff.1 h1
      obtain ⟨hlt2, heq2⟩ := List.getElem?_eq_some_iff.1 h2
      exact (List.Nodup.getElem_inj_iff hnodup).1 (heq1.trans heq2.symm)
    subst hjk
    rw [hentry] at hj2
    rw [← Option.some.inj hj2] at hbind'
    exact ⟨handle', (hloop _ _ _).1 hbind', hget⟩
  · exact absurd ((hloop _ _ _).2 hbind) (hfree entry handle)

theorem rebindsOpen_iff_position {ops : ImportOps σ} {isOpen : σ → Nat → Prop} (hnew : ops.BringsNew isOpen)
    (h : ops.Succeeds) (s : σ) : RebindsOpen net block ops s ↔
      ∀ (k : Nat) (e : IpcExportShmEntry × Nat), (validPlaces block)[k]? = some e → EntryOpen net e.1 →
        ∃ fd, (validEntries block (ops.requestFds block s).1)[k]? = some (e.2, fd) := by
  constructor
  · intro hrebinds k e he hopen
    -- as many imports as it takes to have one at the position
    have htorn : tornImports (List.replicate (k + 1) (ImportWorld.tornAt 0)) =
        (List.replicate (k + 1) (ImportWorld.tornAt 0)).zipIdx := by
      refine List.filter_eq_self.2 fun x hx => ?_
      have hx := List.mem_zipIdx_iff_getElem?.1 hx
      rw [List.eq_of_mem_replicate (List.mem_of_getElem? hx)]
      rfl
    have hplace : ∀ (j : Nat) (x : IpcImportRecord × Nat),
        (tornImports (List.replicate (k + 1) (ImportWorld.tornAt 0)))[j]? = some x → x.2 = j := by
      intro j x hx
      rw [htorn, List.getElem?_zipIdx] at hx
      obtain ⟨-, -, rfl⟩ := Option.map_eq_some_iff.1 hx
      exact Nat.zero_add j
    have hlt : k < (tornImports (List.replicate (k + 1) (ImportWorld.tornAt 0))).length := by
      rw [htorn, List.length_zipIdx, List.length_replicate]
      exact Nat.lt_succ_self k
    have hrec := List.getElem?_eq_getElem hlt
    obtain ⟨handle, hbind, -⟩ := hrebinds true _ k _ e hrec he hopen
    obtain ⟨x, hx, hrecord, hentry⟩ := exists_matched_of_bind hbind
    obtain ⟨j, hj⟩ := List.mem_iff_getElem?.1 hx
    obtain ⟨hj1, hj2⟩ := List.getElem?_zip_eq_some.1 hj
    have hjk : j = k := (hplace j x.1 hj1).symm.trans (hrecord.trans (hplace k _ hrec))
    exact ⟨x.2.2, by rw [← hjk, hj2, ← hentry]⟩
  · intro hposition hasSetAccess imports k rec e hrec he hopen
    obtain ⟨fd, hentry⟩ := hposition k e he hopen
    exact bind_of_position hnew h hasSetAccess hrec hentry

/-- What a missing descriptor costs: the batch it is asked for in, and the positions of all entries behind it. -/
theorem rebindsOpen_iff (hstack : cmsgSpace (4 * udsMaxFds) ≤ stack) (hblock : block.length ≤ ipcMaxExportsPerProc)
    (h : driver.Succeeds) : RebindsOpen net block (driver.overSockets net stack) s ↔ NoneSpoilt net block := by
  rw [rebindsOpen_iff_position (overSockets_bringsNew driver net stack) (h.overSockets net stack)]
  constructor
  · intro hposition a ha b hb hopen hspoils
    obtain ⟨k, hk⟩ := List.mem_iff_getElem?.1 hb
    obtain ⟨hown, hbefore⟩ := (getElem?_validEntries_iff hk).1 (hposition k b hk hopen)
    rcases hspoils with howner | hless
    · exact (isSome_localFd_iff hstack hblock hb).1 hown a ha howner
    · have hgot := hbefore a ((mem_take_validPlaces hk).2 ⟨ha, hless⟩)
      exact (isSome_localFd_iff hstack hblock ha).1 hgot a ha rfl
  · intro hnone k e he hopen
    have hmem := List.mem_of_getElem? he
    refine (getElem?_validEntries_iff he).2 ⟨?_, fun a ha => ?_⟩
    · exact (isSome_localFd_iff hstack hblock hmem).2 fun a ha howner => hnone a ha e hmem hopen (Or.inl howner)
    · obtain ⟨ha, hless⟩ := (mem_take_validPlaces he).1 ha
      have haopen := hnone a ha e hmem hopen (Or.inr hless)
      exact (isSome_localFd_iff hstack hblock ha).2 fun b hb howner => hnone b hb a ha haopen (Or.inl howner)

end Block

/-! ### Both ends -/

/-- Each request of an import brings what is open, at its place, and each import gets the descriptor that stands for it. -/
structure BatchDelivered {α σ : Type} (net : Int → Int → Option α) (block : List IpcExportShmEntry) (driver : ImportOps σ)
    (stack : Nat) (s : FdTable α × σ) : Prop where
  delivers : ∀ req ∈ peerRequests block, ∀ table : FdTable α, Delivers (net req.1) (req.2.map (·.1.fd))
    (udsReceiveFds false .up stack (req.2.map (·.1.fd)) (udsServe (net req.1) (req.2.map (·.1.fd))) (fun _ => -1) table)
  rebinds : RebindsOpen net block (driver.overSockets net stack) s

/-- **One descriptor that is not open spoils the batch**, and the imports behind it. -/
theorem batchDelivered_iff {α σ : Type} (net : Int → Int → Option α) (block : List IpcExportShmEntry)
    (hblock : block.length ≤ ipcMaxExportsPerProc) (driver : ImportOps σ) (hdriver : driver.Succeeds) (stack : Nat)
    (hstack : cmsgSpace (4 * udsMaxFds) ≤ stack) (s : FdTable α × σ) :
    BatchDelivered net block driver stack s ↔ NoneSpoilt net block := by
  refine ⟨fun h => (rebindsOpen_iff hstack hblock hdriver).1 h.rebinds, fun hnone => ⟨fun req hreq table => ?_,
    (rebindsOpen_iff hstack hblock hdriver).2 hnone⟩⟩
  obtain ⟨hpos, hmax⟩ := length_peerRequests hblock req hreq
  rw [← List.length_map (f := (·.1.fd))] at hpos hmax
  rw [delivers_iff false (net req.1) _ hpos hmax stack hstack table]
  by_cases hany : ∃ e ∈ req.2, net req.1 e.1.fd ≠ none
  · obtain ⟨e, he, hopen⟩ := hany
    obtain ⟨hevalid, heowner⟩ := (mem_peerRequests_iff hreq).1 he
    refine Or.inl fun fd hfd => ?_
    obtain ⟨a, ha, rfl⟩ := List.mem_map.1 hfd
    obtain ⟨havalid, haowner⟩ := (mem_peerRequests_iff hreq).1 ha
    have := hnone a havalid e hevalid (by rw [EntryOpen, heowner]; exact hopen) (Or.inl (haowner.trans heowner.symm))
    rwa [EntryOpen, haowner] at this
  · refine Or.inr fun fd hfd => ?_
    obtain ⟨a, ha, rfl⟩ := List.mem_map.1 hfd
    by_contra hopen
    exact hany ⟨a, ha, hopen⟩

/-- A process with the descriptors from `3` to `5`. -/
def threeFiles : Int → Option Nat := fun fd => if 3 ≤ fd ∧ fd < 6 then some (100 + fd.toNat) else none

/-- A driver that takes every descriptor for a handle. -/
def willing : ImportOps Unit where
  receiveFds _ _ s := ([], s)
  importFd fd s := (some fd, s)
  map _ _ _ s := (true, s)
  unmap _ _ s := (true, s)
  setAccess _ _ _ s := (true, s)
  release _ s := (true, s)

theorem willing_succeeds : willing.Succeeds := ⟨fun fd _ => Option.some_ne_none fd, fun _ _ _ _ => rfl, fun _ _ => rfl⟩

theorem batchDelivered_allOpen : BatchDelivered (fun _ => threeFiles) [⟨7, 3, 30, 8, true⟩, ⟨7, 5, 50, 8, true⟩] willing 4096
    (⟨[none]⟩, ()) :=
  (batchDelivered_iff _ _ (by decide) willing willing_succeeds 4096 (by decide) _).2 (by
    unfold NoneSpoilt EntryOpen
    decide)

/-- With `9` in the request `5` does not arrive. -/
theorem not_batchDelivered : ¬ ∀ (net : Int → Int → Option Nat) (block : List IpcExportShmEntry) (driver : ImportOps Unit)
    (stack : Nat) (s : FdTable Nat × Unit), block.length ≤ ipcMaxExportsPerProc → driver.Succeeds →
      cmsgSpace (4 * udsMaxFds) ≤ stack → BatchDelivered net block driver stack s := by
  intro h
  obtain ⟨fd, hfd, hret, -⟩ := (h (fun _ => threeFiles) [⟨7, 5, 50, 8, true⟩, ⟨7, 9, 90, 8, true⟩] willing 4096 (⟨[none]⟩, ())
    (by decide) willing_succeeds (by decide)).delivers
    (7, [(⟨7, 5, 50, 8, true⟩, 0), (⟨7, 9, 90, 8, true⟩, 1)]) (by decide) ⟨[none]⟩ 0 5 rfl
  revert hret
  decide

end GpuCr
