import GpuCr.Lib.Run
import GpuCr.Ipc.Import
import Mathlib.Data.List.Perm.Subperm

/-!
# The exchange of export entries

`exchange_ipc_export_info` of `coordinator/multi_cr_client.cpp` over the dump files of the workers, and
`get_id` and `init_CR` of `src/vGPU.cpp`, which decide whose file is whose. The number of a process stands for the process: a PID that the system
gives to another one later is another number here.

A worker's file has the number the shared counter gave the worker; the coordinator opens the files
`0 .. N-1` for its `N` workers. A peer block has room for as many entries as one process publishes.
-/

namespace GpuCr

open Lib.Run

/-- `MAX_MULTI_GPU_PROCS` -/
def maxMultiGpuProcs : Nat := 32

/-! ### What a peer block holds -/

/-- The entries of all workers but the one at `i`: by shm index, and within a worker as published. -/
def peerEntries (blocks : List (List IpcExportShmEntry)) (i : Nat) : List IpcExportShmEntry :=
  ((blocks.zipIdx.filter (·.2 ≠ i)).map Prod.fst).flatten

theorem foldl_addEntry_eq_take (es dst : List IpcExportShmEntry) (h : dst.length ≤ ipcMaxExportsPerProc) :
    es.foldl addEntry dst = (dst ++ es).take ipcMaxExportsPerProc := by
  induction es generalizing dst with
  | nil => rw [List.foldl_nil, List.append_nil, List.take_of_length_le h]
  | cons e es ih =>
    rw [List.foldl_cons, addEntry]
    split_ifs with hfull
    · rw [ih dst h, List.take_append_of_le_length hfull, List.take_append_of_le_length hfull]
    · rw [ih _ (by rw [List.length_append, List.length_singleton]; omega), List.append_assoc]
      rfl

theorem foldl_blocks_eq_take (i : Nat) (xs : List (List IpcExportShmEntry × Nat)) (dst : List IpcExportShmEntry)
    (h : dst.length ≤ ipcMaxExportsPerProc) :
    xs.foldl (fun dst b => if b.2 = i then dst else b.1.foldl addEntry dst) dst =
      (dst ++ ((xs.filter (·.2 ≠ i)).map Prod.fst).flatten).take ipcMaxExportsPerProc := by
  induction xs generalizing dst with
  | nil => simp [List.take_of_length_le h]
  | cons b xs ih =>
    rw [List.foldl_cons]
    split_ifs with hb
    · rw [ih dst h, List.filter_cons_of_neg (by simpa using hb)]
    · rw [foldl_addEntry_eq_take b.1 dst h, ih _ (List.length_take_le ..),
        List.filter_cons_of_pos (by simpa using hb), List.map_cons, List.flatten_cons, ← List.append_assoc]
      generalize ((xs.filter (·.2 ≠ i)).map Prod.fst).flatten = rest
      generalize dst ++ b.1 = front
      rw [List.take_append, List.take_take, Nat.min_self, List.take_append]
      -- what follows a full block is cut off in both cases
      by_cases hfull : front.length ≤ ipcMaxExportsPerProc
      · rw [List.take_of_length_le hfull]
      · have hlen : (front.take ipcMaxExportsPerProc).length = ipcMaxExportsPerProc :=
          List.length_take_of_le (by omega)
        rw [hlen, Nat.sub_self, Nat.sub_eq_zero_of_le (by omega)]

/-- **What a worker gets**: the entries of all the others in order, up to the capacity of a block; that is
all of them, each once, exactly when they fit. -/
theorem exchange_eq_take (blocks : List (List IpcExportShmEntry)) (i : Nat) :
    exchangeIpcExportInfo blocks i = (peerEntries blocks i).take ipcMaxExportsPerProc ∧
      (exchangeIpcExportInfo blocks i = peerEntries blocks i ↔
        (peerEntries blocks i).length ≤ ipcMaxExportsPerProc) := by
  have htake : exchangeIpcExportInfo blocks i = (peerEntries blocks i).take ipcMaxExportsPerProc := by
    rw [exchangeIpcExportInfo, foldl_blocks_eq_take i _ _ (Nat.zero_le _), List.nil_append]
    rfl
  refine ⟨htake, ?_⟩
  rw [htake]
  refine ⟨fun h => ?_, List.take_of_length_le⟩
  rw [← h]
  exact List.length_take_le ..

theorem exchange_not_complete : ¬ ∀ blocks : List (List IpcExportShmEntry), blocks.length ≤ maxMultiGpuProcs →
    (∀ b ∈ blocks, b.length ≤ ipcMaxExportsPerProc ∧ ∀ e ∈ b, e.valid = true) →
      ∀ i < blocks.length, exchangeIpcExportInfo blocks i = peerEntries blocks i := by
  intro h
  have hvalid : ∀ b ∈ [[], List.replicate 64 ⟨1, 3, 0, 4096, true⟩, [(⟨2, 3, 0, 4096, true⟩ : IpcExportShmEntry)]],
      b.length ≤ ipcMaxExportsPerProc ∧ ∀ e ∈ b, e.valid = true := by
    simp [ipcMaxExportsPerProc]
  have heq := h _ (by decide) hvalid 0 (by decide)
  rw [exchangeIpcExportInfo, foldl_blocks_eq_take 0 _ _ (Nat.zero_le _)] at heq
  have hlen := congrArg List.length heq
  rw [List.length_take] at hlen
  simp [peerEntries, ipcMaxExportsPerProc] at hlen

/-! ### Whose file is whose -/

/-- A dump file, as far as the exchange reads it. `owner` is the process that has it mapped. -/
structure ShmFile where
  owner : Nat
  myBlock : List IpcExportShmEntry
  peerBlock : List IpcExportShmEntry

/-- The directory of the control counter and the dump files. `crIds` are the processes that have been
initialised, with their ids, in the order they got them. -/
structure ControlDir where
  counter : Nat
  crIds : List (Nat × Nat)
  files : Nat → Option ShmFile

namespace ControlDir

def takers (s : ControlDir) : List Nat := s.crIds.map Prod.fst

def getId (s : ControlDir) : Nat × ControlDir := (s.counter, { s with counter := s.counter + 1 })

/-- The backend opens the file of its id; a file of an earlier run keeps its blocks. -/
def setupBackend (s : ControlDir) (pid id : Nat) : ControlDir :=
  { s with
    crIds := s.crIds ++ [(pid, id)]
    files := fun j => if j = id then
      some (match s.files id with
        | none => ⟨pid, [], []⟩
        | some file => { file with owner := pid })
      else s.files j }

/-- `init_CR` of the process `pid`; it has an effect once. -/
def initCR (s : ControlDir) (pid : Nat) : ControlDir :=
  if pid ∈ s.takers then s else s.getId.2.setupBackend pid s.getId.1

end ControlDir

/-- `crId` is the place of the worker in the list, not the id it was given. -/
structure WorkerCtx where
  pid : Nat
  crId : Nat

def setupWorkers (pids : List Nat) : List WorkerCtx := pids.zipIdx.map fun p => ⟨p.1, p.2⟩

/-- The files whose `my_block` was read, those whose `peer_block` was written, and all files after it. -/
structure ExchangeRun where
  read : List Nat
  written : List Nat
  files : Nat → Option ShmFile

/-- `none` is the exit when a file can not be opened. -/
def exchangeShm (workers : List WorkerCtx) (files : Nat → Option ShmFile) : Option ExchangeRun :=
  let shms := List.range workers.length
  if shms.all fun i => (files i).isSome then
    let exportBlocks := shms.map fun i => ((files i).map (·.myBlock)).getD []
    some
      { read := shms
        written := shms
        files := fun j => if j ∈ shms then
          (files j).map fun file => { file with peerBlock := exchangeIpcExportInfo exportBlocks j }
          else files j }
  else none

/-- The files that were read and those that were written are the owned ones. -/
def ExchangeRun.Addresses (r : ExchangeRun) (owned : Nat → Prop) : Prop :=
  ∀ j, (j ∈ r.read ↔ owned j) ∧ (j ∈ r.written ↔ owned j)

namespace ControlDir

/-- The file `j` is that of a listed process. -/
def Owned (s : ControlDir) (pids : List Nat) (j : Nat) : Prop := ∃ p ∈ pids, (p, j) ∈ s.crIds

/-- The exchange runs, and on the files of the listed processes. -/
def ExchangesOwned (s : ControlDir) (pids : List Nat) : Prop :=
  ∃ r, exchangeShm (setupWorkers pids) s.files = some r ∧ r.Addresses (s.Owned pids)

/-- Ids are given out one after the other from `start` on, and each has its file. -/
structure Numbered (start : Nat) (s : ControlDir) : Prop where
  nodup : s.takers.Nodup
  ids : s.crIds = s.takers.zipIdx start
  counter : s.counter = start + s.takers.length
  files : ∀ x ∈ s.crIds, (s.files x.2).isSome = true

theorem Numbered.initCR {start : Nat} {s : ControlDir} (h : s.Numbered start) (pid : Nat) :
    (s.initCR pid).Numbered start := by
  unfold ControlDir.initCR
  split_ifs with hmem
  · exact h
  have htakers : (s.getId.2.setupBackend pid s.getId.1).takers = s.takers ++ [pid] := List.map_append
  refine ⟨?_, ?_, ?_, fun x hx => ?_⟩
  · rw [htakers]
    exact List.nodup_append.2 ⟨h.nodup, List.pairwise_singleton _ pid, by
      rintro p hp q hq rfl
      exact hmem (List.mem_singleton.1 hq ▸ hp)⟩
  · rw [htakers, List.zipIdx_append, ← h.ids, ← h.counter]
    rfl
  · rw [htakers, List.length_append]
    show s.counter + 1 = _
    rw [h.counter, List.length_singleton]
    omega
  · show (if x.2 = s.counter then _ else s.files x.2).isSome = true
    split_ifs with hid
    · rfl
    · rcases List.mem_append.1 hx with hx | hx
      · exact h.files x hx
      · rw [List.mem_singleton.1 hx] at hid
        exact absurd rfl hid

theorem numbered_run {s : ControlDir} (hs : s.crIds = []) (history : List Nat) :
    (run ControlDir.initCR s history).Numbered s.counter := by
  have htakers : s.takers = [] := congrArg (List.map Prod.fst) hs
  have hstart : s.Numbered s.counter := by
    refine ⟨?_, ?_, ?_, ?_⟩
    · rw [htakers]
      exact List.nodup_nil
    · rw [htakers]
      exact hs
    · rw [htakers]
      rfl
    · rw [hs]
      exact fun x hx => absurd hx List.not_mem_nil
  clear hs htakers
  generalize s.counter = start at hstart
  induction history generalizing s with
  | nil => exact hstart
  | cons pid history ih => exact ih (hstart.initCR pid)

theorem Numbered.owned_iff {start : Nat} {s : ControlDir} (h : s.Numbered start) {pids : List Nat} {j : Nat} :
    s.Owned pids j ↔ ∃ p ∈ pids, start ≤ j ∧ s.takers[j - start]? = some p := by
  unfold Owned
  rw [h.ids]
  simp only [List.mk_mem_zipIdx_iff_le_and_getElem?_sub]

theorem exchangesOwned_iff (s : ControlDir) (pids : List Nat) :
    s.ExchangesOwned pids ↔ ∀ j, (j < pids.length ↔ s.Owned pids j) ∧ (j < pids.length → (s.files j).isSome = true) := by
  have hlen : (setupWorkers pids).length = pids.length := by
    rw [setupWorkers, List.length_map, List.length_zipIdx]
  unfold ExchangesOwned exchangeShm
  rw [hlen]
  dsimp only
  constructor
  · rintro ⟨r, hr, haddr⟩
    split_ifs at hr with hopen
    obtain rfl := Option.some.inj hr
    intro j
    rw [List.all_eq_true] at hopen
    exact ⟨List.mem_range.symm.trans (haddr j).1, fun hj => hopen j (List.mem_range.2 hj)⟩
  · intro h
    rw [if_pos (List.all_eq_true.2 fun j hj => (h j).2 (List.mem_range.1 hj))]
    exact ⟨_, rfl, fun j => ⟨List.mem_range.trans (h j).1, List.mem_range.trans (h j).1⟩⟩

/-- **The exchange works on the files of the listed processes** exactly when ids were given out from `0`
on and the listed processes were the first to take one, in whatever order. -/
theorem exchangesOwned_iff_first (s : ControlDir) (hs : s.crIds = []) (history : List Nat) (pids : List Nat)
    (hpids : pids ≠ []) :
    (run ControlDir.initCR s history).ExchangesOwned pids ↔
      s.counter = 0 ∧ pids.Perm ((run ControlDir.initCR s history).takers.take pids.length) := by
  have hnum := numbered_run hs history
  generalize run ControlDir.initCR s history = s' at hnum
  generalize s.counter = start at hnum
  have hpos : 0 < pids.length := List.length_pos_iff.2 hpids
  rw [exchangesOwned_iff]
  constructor
  · intro h
    obtain ⟨p, -, hstart, -⟩ := hnum.owned_iff.1 ((h 0).1.1 hpos)
    obtain rfl : start = 0 := Nat.le_zero.1 hstart
    refine ⟨rfl, ?_⟩
    have htake : ∀ j < pids.length, ∃ p ∈ pids, s'.takers[j]? = some p := by
      intro j hj
      obtain ⟨p, hp, -, hget⟩ := hnum.owned_iff.1 ((h j).1.1 hj)
      exact ⟨p, hp, hget⟩
    have hlen : pids.length ≤ s'.takers.length := by
      obtain ⟨p, -, hget⟩ := htake (pids.length - 1) (by omega)
      have := (List.getElem?_eq_some_iff.1 hget).1
      omega
    have hsub : (s'.takers.take pids.length).Subperm pids := by
      refine (hnum.nodup.sublist (List.take_sublist ..)).subperm fun q hq => ?_
      obtain ⟨j, hj, rfl⟩ := List.mem_take_iff_getElem.1 hq
      obtain ⟨p, hp, hget⟩ := htake j (by omega)
      exact Option.some.inj ((List.getElem?_eq_getElem _).symm.trans hget) ▸ hp
    exact (hsub.perm_of_length_le (Nat.le_of_eq (List.length_take_of_le hlen).symm)).symm
  · rintro ⟨rfl, hperm⟩ j
    have hlen : pids.length ≤ s'.takers.length := by
      have := hperm.length_eq
      rw [List.length_take] at this
      omega
    have howned : s'.Owned pids j ↔ j < pids.length := by
      rw [hnum.owned_iff]
      constructor
      · rintro ⟨p, hp, -, hget⟩
        obtain ⟨i, hi, rfl⟩ := List.mem_take_iff_getElem.1 (hperm.mem_iff.1 hp)
        have hj : j < s'.takers.length := (List.getElem?_eq_some_iff.1 hget).1
        have hij : j = i := (List.getElem?_inj hj hnum.nodup).1 (hget.trans (List.getElem?_eq_getElem _).symm)
        omega
      · intro hj
        refine ⟨s'.takers[j], hperm.mem_iff.2 ?_, Nat.zero_le _, List.getElem?_eq_getElem _⟩
        exact List.mem_take_iff_getElem.2 ⟨j, by omega, rfl⟩
    refine ⟨howned.symm, fun hj => ?_⟩
    obtain ⟨p, -, hmem⟩ := howned.2 hj
    exact hnum.files (p, j) hmem

/-- A directory before the first process. -/
def empty : ControlDir := ⟨0, [], fun _ => none⟩

theorem exchangesOwned_two_workers : (run ControlDir.initCR empty [7, 5]).ExchangesOwned [5, 7] :=
  (exchangesOwned_iff_first empty rfl [7, 5] [5, 7] (by decide)).2 ⟨rfl, by decide⟩

/-- A process that is not listed took the first id. -/
theorem not_exchangesOwned : ¬ ∀ s : ControlDir, s.crIds = [] → ∀ history pids : List Nat, pids ≠ [] →
    pids.length ≤ maxMultiGpuProcs → (∀ p ∈ pids, p ∈ (run ControlDir.initCR s history).takers) →
      (run ControlDir.initCR s history).ExchangesOwned pids := by
  intro h
  have hfiles := (exchangesOwned_iff _ _).1 (h empty rfl [9, 5, 7] [5, 7] (by decide) (by decide) (by decide)) 0
  obtain ⟨p, hp, hmem⟩ := hfiles.1.1 (by decide)
  have hids : (run ControlDir.initCR empty [9, 5, 7]).crIds = [(9, 0), (5, 1), (7, 2)] := rfl
  rw [hids] at hmem
  obtain rfl : p = 9 := by simpa using hmem
  exact absurd hp (by decide)

end ControlDir

end GpuCr
