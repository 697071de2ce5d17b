import GpuCr.Ipc.FdLifetime
import GpuCr.Ipc.Complete

/-!
# Imports that the application has given up

`torn_down` of an import record is set by `hook_cuMemUnmap` and by the teardown alike. Afterwards nothing tells the two
apart: the rebuild matches all records with the flag, in the order of the table, with the entries of the peer block.
-/

namespace GpuCr

open Lib.Run ImportOps

namespace HookedProcess

/-- The application still has the import at a place of the table: there is an imported mapping at its address, and the
address has not been given to a later import. -/
def stillMapped (s : HookedProcess) (x : IpcImportRecord × Nat) : Bool :=
  (s.mapped.any fun t => t.kind == .imported && t.va == x.1.mappedVaddr) && s.vaddrToImportIdx[x.1.mappedVaddr]? == some x.2

def liveImports (s : HookedProcess) : List (IpcImportRecord × Nat) := s.ipc.imports.zipIdx.filter s.stillMapped

/-- The table after the teardown, whatever the driver answers. -/
def tornTable {τ : Type} (s : HookedProcess) (driver : ImportOps τ) (t : τ) : List IpcImportRecord :=
  (driver.teardownImports s.ipc.imports t).1

/-- The rebuild pairs the imports that are still mapped at the teardown, by their places in the table, with the entries,
and maps nothing at the address of an import that is not. -/
structure StaysGone {σ τ : Type} (s : HookedProcess) (driver : ImportOps τ) (t : τ) (ops : ImportOps σ) (hasSetAccess : Bool)
    (block : List IpcExportShmEntry) (st : σ) : Prop where
  paired : (matched (s.tornTable driver t) block (ops.requestFds block st).1).map (fun x => (x.1.2, x.2)) =
    (s.liveImports.map Prod.snd).zip (validEntries block (ops.requestFds block st).1)
  notMapped : ∀ rec ∈ s.ipc.imports, (∀ m ∈ s.mapped, m.kind = .imported → m.va ≠ rec.mappedVaddr) →
    ∀ i entry handle, .bind i entry handle ∈ (ops.ipcImportLogged true hasSetAccess block (s.tornTable driver t) st).2.2.2 →
      ∀ rec', s.ipc.imports[i]? = some rec' → rec'.mappedVaddr ≠ rec.mappedVaddr

/-- The call does not unmap an import that has a record among those that a block can reach. -/
def KeepsImports (s : HookedProcess) : HookCall → Prop
  | .unmap ptr size => s.ipc.fns.cuMemUnmap = true → (s.ipc.drv.cuMemUnmap ptr size).1 = true →
    ∀ x ∈ s.liveImports, x.2 < ipcMaxExportsPerProc → x.1.mappedVaddr ≠ ptr
  | _ => True

section Table
variable {s : HookedProcess}

/-- In a history the flag says that the application has unmapped the import. -/
theorem Sound.stillMapped_iff (h : s.Sound) {rec : IpcImportRecord} {i : Nat} (hrec : s.ipc.imports[i]? = some rec) :
    s.stillMapped (rec, i) = true ↔ rec.tornDown = false := by
  unfold stillMapped
  rw [Bool.and_eq_true, beq_iff_eq, List.any_eq_true]
  constructor
  · rintro ⟨⟨t, ht, heq⟩, hidx⟩
    rw [Bool.and_eq_true, beq_iff_eq, beq_iff_eq] at heq
    obtain ⟨j, rec', hrec', htorn, hva⟩ := h.heldImports t ht heq.1
    -- the live record of the address is the one the index names
    have hj := (h.imports j rec' hrec' htorn).1
    rw [hva, heq.2, hidx] at hj
    obtain rfl := Option.some.inj hj
    rw [hrec] at hrec'
    obtain rfl := Option.some.inj hrec'
    exact htorn
  · intro htorn
    obtain ⟨hidx, t, ht, hva, -, hkind, -⟩ := h.imports i rec hrec htorn
    exact ⟨⟨t, ht, by simp [hkind, hva]⟩, hidx⟩

theorem Sound.mem_liveImports (h : s.Sound) {x : IpcImportRecord × Nat} :
    x ∈ s.liveImports ↔ s.ipc.imports[x.2]? = some x.1 ∧ x.1.tornDown = false := by
  unfold liveImports
  rw [List.mem_filter, List.mem_zipIdx_iff_getElem?]
  exact and_congr_right fun hrec => h.stillMapped_iff hrec

theorem tornImports_tornTable {τ : Type} (s : HookedProcess) (driver : ImportOps τ) (t : τ) :
    tornImports (s.tornTable driver t) = (s.tornTable driver t).zipIdx := by
  unfold tornImports
  refine List.filter_eq_self.2 fun x hx => ?_
  have hmem : x.1 ∈ s.tornTable driver t := List.mem_of_getElem? (List.mem_zipIdx_iff_getElem?.1 hx)
  rw [tornTable, teardownImports_fst] at hmem
  obtain ⟨rec, -, heq⟩ := List.mem_map.1 hmem
  rw [← heq]
  split_ifs with htorn
  · exact htorn
  · rfl

theorem length_tornTable {τ : Type} (s : HookedProcess) (driver : ImportOps τ) (t : τ) :
    (s.tornTable driver t).length = s.ipc.imports.length := by
  rw [tornTable, teardownImports_fst, List.length_map]

theorem matched_tornTable {τ : Type} (s : HookedProcess) (driver : ImportOps τ) (t : τ) (block : List IpcExportShmEntry)
    (m : Nat → Option Nat) : (matched (s.tornTable driver t) block m).map (fun x => (x.1.2, x.2)) =
      (List.range s.ipc.imports.length).zip (validEntries block m) := by
  have hsnd : (s.tornTable driver t).zipIdx.map Prod.snd = List.range s.ipc.imports.length := by
    rw [List.zipIdx_map_snd, length_tornTable, List.range_eq_range']
  rw [matched, tornImports_tornTable, ← hsnd, List.zip_map_left]
  rfl

end Table

/-! ### What a history gives up -/

def tornFlags (s : HookedProcess) : List Bool := s.ipc.imports.map (·.tornDown)

/-- The call unmaps the address of the record. -/
def UnmapsRecord (s : HookedProcess) (i : Nat) : HookCall → Prop
  | .unmap ptr size => s.ipc.fns.cuMemUnmap = true ∧ (s.ipc.drv.cuMemUnmap ptr size).1 = true ∧
    s.vaddrToImportIdx[ptr]? = some i
  | _ => False

section History
variable {s : HookedProcess}

theorem call_tornFlags (s : HookedProcess) {c : HookCall} (hc : ∀ ptr size, c ≠ .unmap ptr size) :
    (s.call c).tornFlags = s.tornFlags ∨ (s.call c).tornFlags = s.tornFlags ++ [false] := by
  have heff := s.call_effect c
  generalize s.call c = s' at heff
  cases heff with
  | rejected hd => exact Or.inl rfl
  | plain hd => exact Or.inl rfl
  | created hd hpos => exact Or.inl rfl
  | exported hd hlive hfd => exact Or.inl rfl
  | imported hd => exact Or.inl rfl
  | mapped hd =>
    unfold tornFlags
    rw [recordMap_imports]
    split_ifs
    · exact Or.inr (by rw [List.map_append]; rfl)
    · exact Or.inl rfl
  | unmapped hd => exact absurd rfl (hc _ _)
  | released hd =>
    refine Or.inl ?_
    have hdrop : ∀ (h : Nat) (imports : List IpcImportRecord),
        (imports.map (IpcImportRecord.dropHandle h)).map (·.tornDown) = imports.map (·.tornDown) := by
      intro h imports
      rw [List.map_map]
      refine List.map_congr_left fun rec _ => ?_
      show (rec.dropHandle h).tornDown = rec.tornDown
      unfold IpcImportRecord.dropHandle
      split_ifs <;> rfl
    unfold tornFlags recordRelease
    dsimp only
    split_ifs
    · exact (hdrop _ _).trans (hdrop _ _)
    · exact hdrop _ _
  | access hd =>
    refine Or.inl ?_
    unfold tornFlags recordAccess
    dsimp only
    split
    · rfl
    · refine List.ext_getElem? fun i => ?_
      rw [List.getElem?_map, List.getElem?_map, List.getElem?_modify, Option.map_eq_map, Option.map_map]
      congr 1
      funext rec
      show (if _ = i then accessImport _ _ rec else rec).tornDown = rec.tornDown
      split_ifs <;> rfl

theorem recordUnmap_tornFlags (h : s.Sound) (d : Driver) (ptr i : Nat) :
    (s.recordUnmap d ptr).tornFlags[i]? = some true ↔
      s.tornFlags[i]? = some true ∨ s.vaddrToImportIdx[ptr]? = some i := by
  unfold tornFlags recordUnmap
  cases hidx : s.vaddrToImportIdx[ptr]? with
  | none => simp
  | some k =>
    obtain ⟨rec, hrec, -⟩ := h.importIdx ptr k hidx
    dsimp only
    rw [List.getElem?_map, List.getElem?_map, List.getElem?_modify, Option.some.injEq]
    by_cases hk : k = i
    · subst hk
      simp [hrec]
    · cases s.ipc.imports[i]? <;> simp [hk]

theorem call_tornFlags_iff (h : s.Sound) (c : HookCall) (i : Nat) :
    (s.call c).tornFlags[i]? = some true ↔ s.tornFlags[i]? = some true ∨ s.UnmapsRecord i c := by
  by_cases hc : ∀ ptr size, c ≠ .unmap ptr size
  · have hnot : ¬ s.UnmapsRecord i c := by
      cases c with
      | unmap ptr size => exact absurd rfl (hc ptr size)
      | _ => exact id
    rw [or_iff_left hnot]
    rcases s.call_tornFlags hc with heq | heq
    · rw [heq]
    · rw [heq, List.getElem?_append]
      split_ifs with hi
      · rfl
      · rw [List.getElem?_eq_none (not_lt.1 hi)]
        refine iff_of_false (fun hlast => ?_) (Option.some_ne_none _).symm
        exact absurd (List.mem_singleton.1 (List.mem_of_getElem? hlast)) Bool.true_eq_false.mp
  · simp only [not_forall, not_not] at hc
    obtain ⟨ptr, size, rfl⟩ := hc
    show (s.hookCuMemUnmap ptr size).tornFlags[i]? = some true ↔ s.tornFlags[i]? = some true ∨
      s.ipc.fns.cuMemUnmap = true ∧ (s.ipc.drv.cuMemUnmap ptr size).1 = true ∧ s.vaddrToImportIdx[ptr]? = some i
    unfold hookCuMemUnmap
    generalize s.ipc.drv.cuMemUnmap ptr size = r
    obtain ⟨accepted, d⟩ := r
    cases s.ipc.fns.cuMemUnmap with
    | false => simp
    | true =>
      cases accepted with
      | false =>
        show s.tornFlags[i]? = some true ↔ _
        simp
      | true =>
        show (s.recordUnmap d ptr).tornFlags[i]? = some true ↔ _
        simp [recordUnmap_tornFlags h d ptr i]

theorem run_tornFlags (h : s.Sound) (history : List HookCall) {i : Nat} (hi : s.tornFlags[i]? = some true) :
    (run call s history).tornFlags[i]? = some true := by
  induction history generalizing s with
  | nil => exact hi
  | cons c history ih => exact ih (h.call c) ((call_tornFlags_iff h c i).2 (Or.inl hi))

/-- None of the records that a block can reach is given up. -/
def NoneGivenUp (s : HookedProcess) : Prop := ∀ i < ipcMaxExportsPerProc, s.tornFlags[i]? ≠ some true

theorem keepsImports_iff (h : s.Sound) (hnone : s.NoneGivenUp) (c : HookCall) :
    s.KeepsImports c ↔ (s.call c).NoneGivenUp := by
  have hstep : (s.call c).NoneGivenUp ↔ ∀ i < ipcMaxExportsPerProc, ¬ s.UnmapsRecord i c := by
    refine forall₂_congr fun i hi => not_congr ?_
    rw [call_tornFlags_iff h, or_iff_right (hnone i hi)]
  rw [hstep]
  cases c with
  | unmap ptr size =>
    constructor
    · rintro hkeeps i hi ⟨hfn, hok, hidx⟩
      obtain ⟨rec, hrec, hva⟩ := h.importIdx ptr i hidx
      have hlive : rec.tornDown = false := by
        have hflag := hnone i hi
        rw [tornFlags, List.getElem?_map, hrec] at hflag
        simpa using hflag
      exact hkeeps hfn hok (rec, i) (h.mem_liveImports.2 ⟨hrec, hlive⟩) hi hva
    · intro hnot hfn hok x hx hi hva
      obtain ⟨hrec, hlive⟩ := h.mem_liveImports.1 hx
      have hidx := (h.imports x.2 x.1 hrec hlive).1
      rw [hva] at hidx
      exact hnot x.2 hi ⟨hfn, hok, hidx⟩
  | _ => exact iff_of_true trivial fun _ _ => id

theorem allSteps_keepsImports_iff (h : s.Sound) (hnone : s.NoneGivenUp) (history : List HookCall) :
    AllSteps KeepsImports call s history ↔ (run call s history).NoneGivenUp := by
  induction history generalizing s with
  | nil => exact iff_of_true trivial hnone
  | cons c history ih =>
    constructor
    · rintro ⟨hc, hrest⟩
      exact (ih (h.call c) ((keepsImports_iff h hnone c).1 hc)).1 hrest
    · intro hrun
      -- what is given up by this call is so at the end
      have hcall : (s.call c).NoneGivenUp := fun i hi hflag => hrun i hi (run_tornFlags (h.call c) history hflag)
      exact ⟨(keepsImports_iff h hnone c).2 hcall, (ih (h.call c) hcall).2 hrun⟩

end History

/-! ### What the rebuild makes of it -/

theorem take_filter_eq {α : Type*} {p : α → Bool} {l : List α} {n : Nat} (h : ∀ x ∈ l.take n, p x = true) :
    (l.filter p).take n = l.take n := by
  induction l generalizing n with
  | nil => rfl
  | cons a l ih =>
    cases n with
    | zero => rfl
    | succ n =>
      have ha : p a = true := h a (List.mem_cons_self ..)
      rw [List.filter_cons, if_pos ha, List.take_succ_cons, List.take_succ_cons,
        ih fun x hx => h x (List.mem_cons_of_mem _ hx)]

theorem zip_take_length {α β : Type*} (l : List α) (r : List β) : (l.take r.length).zip r = l.zip r := by
  induction l generalizing r with
  | nil => simp
  | cons a l ih =>
    cases r with
    | nil => rfl
    | cons b r => exact congrArg (List.cons (a, b)) (ih r)

theorem length_validEntries_le (block : List IpcExportShmEntry) (m : Nat → Option Nat) :
    (validEntries block m).length ≤ block.length := by
  unfold validEntries
  exact (List.length_filterMap_le ..).trans (List.length_zipIdx ..).le

section Rebuild
variable {s : HookedProcess}

theorem staysGone_of_paired (h : s.Sound) {σ τ : Type} {driver : ImportOps τ} {t : τ} {ops : ImportOps σ}
    {hasSetAccess : Bool} {block : List IpcExportShmEntry} {st : σ}
    (hpaired : (matched (s.tornTable driver t) block (ops.requestFds block st).1).map (fun x => (x.1.2, x.2)) =
      (s.liveImports.map Prod.snd).zip (validEntries block (ops.requestFds block st).1)) :
    StaysGone s driver t ops hasSetAccess block st := by
  refine ⟨hpaired, fun rec hrec hgone i entry handle hbind rec' hrec' hva => ?_⟩
  obtain ⟨x, hx, rfl, -⟩ := exists_matched_of_bind hbind
  have hin := List.mem_map_of_mem (f := fun x : (IpcImportRecord × Nat) × Nat × Nat => (x.1.2, x.2)) hx
  rw [hpaired] at hin
  obtain ⟨y, hy, hyx⟩ := List.mem_map.1 (List.of_mem_zip hin).1
  obtain ⟨hrecy, hlive⟩ := h.mem_liveImports.1 hy
  rw [hyx, hrec'] at hrecy
  obtain rfl := Option.some.inj hrecy
  obtain ⟨-, m, hm, hmva, -, hkind, -⟩ := h.imports _ _ hrec' hlive
  exact hgone m hm hkind (hmva.trans hva)

theorem Sound.paired (h : s.Sound) (hnone : s.NoneGivenUp) {τ : Type} (driver : ImportOps τ) (t : τ)
    {block : List IpcExportShmEntry} (hblock : block.length ≤ ipcMaxExportsPerProc) (m : Nat → Option Nat) :
    (matched (s.tornTable driver t) block m).map (fun x => (x.1.2, x.2)) =
      (s.liveImports.map Prod.snd).zip (validEntries block m) := by
  have hlen := (length_validEntries_le block m).trans hblock
  have hfirst : s.liveImports.take (validEntries block m).length = s.ipc.imports.zipIdx.take (validEntries block m).length := by
    refine take_filter_eq fun x hx => ?_
    obtain ⟨k, hk, heq⟩ := List.mem_take_iff_getElem.1 hx
    have hget : s.ipc.imports[x.2]? = some x.1 := List.mem_zipIdx_iff_getElem?.1 (List.mem_of_mem_take hx)
    have hidx : x.2 = k := by
      rw [List.getElem_zipIdx] at heq
      rw [← heq]
      exact Nat.zero_add k
    have hflag := hnone x.2 (by omega)
    rw [tornFlags, List.getElem?_map, hget] at hflag
    exact (h.stillMapped_iff hget).2 (by simpa using hflag)
  rw [matched_tornTable, ← zip_take_length, ← zip_take_length (s.liveImports.map Prod.snd), ← List.map_take, hfirst,
    List.map_take, List.zipIdx_map_snd, List.range_eq_range']

/-- A peer with enough descriptors. -/
def fullBlock (n : Nat) : List IpcExportShmEntry := List.replicate n ⟨1, 5, 0, 8, true⟩

def anyDescriptor : ImportOps ImportWorld := ImportWorld.ops fun pid _ => some ⟨pid, 0⟩

def noFailure : ImportWorld := ⟨fun _ => false, 0, [], [], fun _ => none⟩

theorem length_validEntries_fullBlock {n : Nat} (hn : n ≤ ipcMaxExportsPerProc) :
    (validEntries (fullBlock n) (anyDescriptor.requestFds (fullBlock n) noFailure).1).length = n := by
  have hopen : ∀ e ∈ fullBlock n, ImportWorld.Open (fun pid _ => some ⟨pid, 0⟩) e := by
    intro e he
    rw [List.eq_of_mem_replicate he]
    exact ⟨rfl, rfl⟩
  have hlen : (fullBlock n).length = n := List.length_replicate
  obtain ⟨-, -, hfds⟩ := ImportWorld.validExports_spec (s := noFailure) (fun _ => rfl) hopen (hlen.le.trans hn)
  have hcount := congrArg List.length hfds
  rw [List.length_map, List.length_map, hlen, ← map_snd_validEntries, List.length_map] at hcount
  exact hcount

/-- **An import that was given up comes back.** The rebuild after the teardown leaves it alone, whatever the block, exactly
if no call of the history has unmapped one of the first sixty-four imports. -/
theorem staysGone_iff (s : HookedProcess) (hs : s.Fresh) (history : List HookCall) :
    (∀ (σ τ : Type) (driver : ImportOps τ) (t : τ) (ops : ImportOps σ) (hasSetAccess : Bool) (block : List IpcExportShmEntry)
      (st : σ), block.length ≤ ipcMaxExportsPerProc →
        StaysGone (run call s history) driver t ops hasSetAccess block st) ↔
      AllSteps KeepsImports call s history := by
  have hsound := sound_of_history hs.sound history
  have hnone : s.NoneGivenUp := by
    intro i _
    rw [tornFlags, hs.imports]
    exact (Option.some_ne_none _).symm
  rw [allSteps_keepsImports_iff hs.sound hnone]
  constructor
  · intro hall i hi hflag
    -- a block that reaches the record pairs it, and so it would have to be live
    obtain ⟨hpaired, -⟩ := hall ImportWorld ImportWorld anyDescriptor noFailure anyDescriptor true (fullBlock (i + 1))
      noFailure (List.length_replicate.le.trans hi)
    have hentries := length_validEntries_fullBlock (n := i + 1) hi
    rw [tornFlags, List.getElem?_map] at hflag
    obtain ⟨rec, hrec, htorn⟩ := Option.map_eq_some_iff.1 hflag
    have hlen : i < (run call s history).ipc.imports.length := (List.getElem?_eq_some_iff.1 hrec).1
    rw [matched_tornTable] at hpaired
    have hmem : i ∈ ((List.range (run call s history).ipc.imports.length).zip (validEntries (fullBlock (i + 1))
        (anyDescriptor.requestFds (fullBlock (i + 1)) noFailure).1)).map Prod.fst := by
      have hi' : i < ((List.range (run call s history).ipc.imports.length).zip (validEntries (fullBlock (i + 1))
          (anyDescriptor.requestFds (fullBlock (i + 1)) noFailure).1)).length := by
        rw [List.length_zip, List.length_range, hentries]
        omega
      have hget := List.getElem_mem hi'
      rw [List.getElem_zip, List.getElem_range] at hget
      exact List.mem_map_of_mem (f := Prod.fst) hget
    rw [hpaired] at hmem
    obtain ⟨x, hx, hxi⟩ := List.mem_map.1 ((map_fst_zip_sublist ..).subset hmem)
    obtain ⟨hrec', hlive⟩ := hsound.mem_liveImports.1 hx
    rw [hxi, hrec] at hrec'
    obtain rfl := Option.some.inj hrec'
    exact absurd (htorn.symm.trans hlive) (by simp)
  · intro hgone σ τ driver t ops hasSetAccess block st hblock
    exact staysGone_of_paired hsound (hsound.paired hgone driver t hblock _)

end Rebuild

/-- Two imports that stay, and memory of the process that does not. -/
def bothKept : List HookCall :=
  [.importHandle 4096, .importHandle 4096, .map 0x10000 4096 1, .map 0x20000 4096 2, .create 4096 1 ⟨0⟩, .map 0x30000 4096 4,
    .unmap 0x30000 4096]

theorem staysGone_bothKept :
    (run call empty bothKept).liveImports.map (fun x => (x.1.mappedVaddr, x.2)) = [(0x10000, 0), (0x20000, 1)] ∧
      StaysGone (run call empty bothKept) anyDescriptor noFailure anyDescriptor true (fullBlock 2) noFailure :=
  ⟨by decide, (staysGone_iff empty fresh_empty bothKept).2
    ⟨trivial, trivial, trivial, trivial, trivial, trivial, fun _ _ => by decide, trivial⟩ ImportWorld ImportWorld anyDescriptor
    noFailure anyDescriptor true (fullBlock 2) noFailure (by decide)⟩

/-- Two imports, of which the first is unmapped again. -/
def oneGivenUp : List HookCall :=
  [.importHandle 4096, .importHandle 4096, .map 0x10000 4096 1, .map 0x20000 4096 2, .unmap 0x10000 4096]

/-- The entry for the second import goes to the address of the first. -/
theorem not_staysGone : ¬ ∀ s : HookedProcess, s.Fresh → ∀ (history : List HookCall) (σ τ : Type) (driver : ImportOps τ)
    (t : τ) (ops : ImportOps σ) (hasSetAccess : Bool) (block : List IpcExportShmEntry) (st : σ),
      block.length ≤ ipcMaxExportsPerProc → StaysGone (run call s history) driver t ops hasSetAccess block st := by
  intro h
  have hgone := (h empty fresh_empty oneGivenUp ImportWorld ImportWorld anyDescriptor noFailure anyDescriptor true (fullBlock 1)
    noFailure (by decide)).notMapped
  have hrec : (run call empty oneGivenUp).ipc.imports[0]? = some ⟨0x10000, 4096, 1, -1, ⟨0, 0, 0⟩, [], true⟩ := by decide
  exact hgone _ (List.mem_of_getElem? hrec) (by decide) 0 0 1 (by decide) _ hrec rfl

end HookedProcess

end GpuCr
