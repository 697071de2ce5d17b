import GpuCr.Ipc.Import
import GpuCr.Lib.FdTable
import Mathlib.Data.List.Nodup

/-!
# Publishing descriptors and handing them over

`ipc_write_export_info_to_shm`, and the two ends of a connection of `src/ipc_fd_exchange.cpp`: what the server thread
answers to a request, and what `uds_receive_fds` makes of an answer, whoever it comes from. The kernel passes all the
descriptors of a message or none, and gives the receiver as many as its control buffer has room for.
-/

namespace GpuCr

open Lib

/-! ### Publishing -/

def IpcExportRecord.shmEntry (pid : Int) (rec : IpcExportRecord) : IpcExportShmEntry :=
  ⟨pid, rec.exportedFd, rec.mappedVaddr, rec.size, true⟩

def IpcExportRecord.hasFd (rec : IpcExportRecord) : Bool := decide (0 ≤ rec.exportedFd)

/-- If the records with a descriptor fit in a block, the block is these records, in the order of the table. -/
def PublishesAll (pid : Int) (exports : List IpcExportRecord) : Prop :=
  exports.countP (·.hasFd) ≤ ipcMaxExportsPerProc →
    ipcWriteExportInfoToShm pid exports = (exports.filter (·.hasFd)).map (·.shmEntry pid) ∧
      (ipcWriteExportInfoToShm pid exports).length = exports.countP (·.hasFd)

section Publish
variable {pid : Int} {exports : List IpcExportRecord}

theorem writeExportInfo_filter (pid : Int) (exports : List IpcExportRecord) :
    ipcWriteExportInfoToShm pid exports =
      ((exports.take ipcMaxExportsPerProc).filter (·.hasFd)).map (·.shmEntry pid) := by
  unfold ipcWriteExportInfoToShm
  induction exports.take ipcMaxExportsPerProc with
  | nil => rfl
  | cons rec recs ih =>
    rw [List.filterMap_cons, List.filter_cons, ih, IpcExportRecord.hasFd]
    by_cases h : rec.exportedFd < 0
    · rw [if_pos h, if_neg (by simpa using h)]
    · rw [if_neg h, if_pos (by simpa using h)]
      rfl

/-- **The loop stops at the sixty-fourth record**, not at the sixty-fourth entry: all is published exactly if no
descriptor is further back, or more of them are than a block can hold. -/
theorem publishesAll_iff (pid : Int) (exports : List IpcExportRecord) : PublishesAll pid exports ↔
    (exports.countP (·.hasFd) ≤ ipcMaxExportsPerProc →
      ∀ rec ∈ exports.drop ipcMaxExportsPerProc, rec.exportedFd < 0) := by
  have hsplit : exports.filter (·.hasFd) = (exports.take ipcMaxExportsPerProc).filter (·.hasFd) ++
      (exports.drop ipcMaxExportsPerProc).filter (·.hasFd) := by
    rw [← List.filter_append, List.take_append_drop]
  refine imp_congr_right fun _ => ?_
  rw [writeExportInfo_filter, hsplit, List.map_append, List.length_map, List.countP_eq_length_filter, hsplit,
    List.length_append]
  constructor
  · rintro ⟨-, hlen⟩ rec hrec
    by_contra hfd
    have hmem : rec ∈ (exports.drop ipcMaxExportsPerProc).filter (·.hasFd) :=
      List.mem_filter.2 ⟨hrec, by simpa [IpcExportRecord.hasFd] using hfd⟩
    have := List.length_pos_of_mem hmem
    omega
  · intro hnone
    have hnil : (exports.drop ipcMaxExportsPerProc).filter (·.hasFd) = [] := by
      rw [List.filter_eq_nil_iff]
      intro rec hrec
      simpa [IpcExportRecord.hasFd] using hnone rec hrec
    rw [hnil, List.map_nil, List.append_nil]
    exact ⟨rfl, rfl⟩

end Publish

/-- Sixty-four records that are gone, then one with a descriptor. -/
def lateExport : List IpcExportRecord :=
  List.replicate 64 ⟨0, 0, -1, 1, 4096, 0, 0, false, ⟨0, 0, 0⟩, false, true, ⟨0⟩, true, 0, false⟩ ++
    [⟨7, 7, 5, 1, 4096, 0x10000, 4096, true, ⟨0, 0, 0⟩, false, false, ⟨0⟩, true, 0, false⟩]

theorem not_publishesAll : ¬ PublishesAll 1 lateExport := by
  intro h
  have hlen := (h (by decide)).2
  revert hlen
  decide

/-! ### The server -/

/-- What a client can find on its connection: the count, if the connection is not closed before it, and the descriptors
of the message after it, if there is one. -/
structure FdResponse (α : Type) where
  sendCount : Option Int
  message : Option (List α)

/-- `send_fds`. `files` are the open descriptors of the process. -/
def sendFds {α : Type} (files : Int → Option α) (fds : List Int) : Option (List α) := fds.mapM files

/-- `uds_server_thread` with one request. The check with `fcntl` fills `valid_fds`, which nothing reads. -/
def udsServe {α : Type} (files : Int → Option α) (requestedFds : List Int) : FdResponse α :=
  if requestedFds.length ≤ 0 ∨ udsMaxFds < requestedFds.length then ⟨none, none⟩
  else ⟨some requestedFds.length, sendFds files requestedFds⟩

/-! ### The client -/

/-- `CMSG_LEN` and `CMSG_SPACE` of `n` bytes, with a header of sixteen bytes and an alignment of eight. -/
def cmsgLen (n : Nat) : Nat := 16 + n

def cmsgSpace (n : Nat) : Nat := 16 + (n + 7) / 8 * 8

/-- `recvmsg` gives each file the lowest free number. -/
def installFds {α : Type} (table : FdTable α) : List α → List Nat × FdTable α
  | [] => ([], table)
  | a :: files =>
    let r := installFds (table.alloc a) files
    (table.lowest :: r.1, r.2)

/-- The cells from `local_fds` on and how many of them have been written, and the process's descriptors. -/
structure FdReceipt (α : Type) where
  ret : Int
  localFds : Nat → Int
  written : Nat
  table : FdTable α

/-- What a call does not come back from. -/
inductive FdCrash where
  | stackOverrun
  | sigpipe
  deriving DecidableEq, Repr

/-- `recv_fds`. The control buffer is taken from the stack, without a look at the room there. Without a message, or
without descriptors in it, there is no control message. -/
def recvFds {α : Type} (stack : Nat) (message : Option (List α)) (localFds : Nat → Int) (table : FdTable α) (numFds : Nat) :
    Except FdCrash (FdReceipt α) :=
  if stack < cmsgSpace (4 * numFds) then .error .stackOverrun
  else
    let r := installFds table ((message.getD []).take ((cmsgSpace (4 * numFds) - cmsgLen 0) / 4))
    let receivedCount := r.1.length
    if receivedCount = 0 then .ok ⟨-1, localFds, 0, r.2⟩
    else
      let copyCount := if receivedCount < numFds then receivedCount else numFds
      .ok ⟨copyCount, fun i => if i < copyCount then (r.1.getD i 0 : Nat) else localFds i, copyCount, r.2⟩

/-- What a `send` on the connection comes to. `peerClosed` is `EPIPE`: the other end has been closed. -/
inductive SendResult where
  | sent
  | failed
  | peerClosed
  deriving DecidableEq, Repr

/-- Whether `socket` and `connect` succeed, and the two `send`s of a request, of `num_fds` and of the list. -/
structure FdConnection where
  connected : Bool
  sendNum : SendResult
  sendList : SendResult

/-- A connection whose other end takes the request. -/
def FdConnection.up : FdConnection := ⟨true, .sent, .sent⟩

/-- One `send`, and whether it sends all of it. The flags are zero, so that `EPIPE` comes with `SIGPIPE`: a process that
does not ignore the signal is killed. -/
def sendAll (ignoresSigpipe : Bool) : SendResult → Except FdCrash Bool
  | .sent => .ok true
  | .failed => .ok false
  | .peerClosed => if ignoresSigpipe then .ok false else .error .sigpipe

/-- `num_fds`, then the list. -/
def sendRequest (ignoresSigpipe : Bool) (conn : FdConnection) : Except FdCrash Bool := do
  if ← sendAll ignoresSigpipe conn.sendNum then sendAll ignoresSigpipe conn.sendList
  else return false

/-- Nothing under `src/` sets what `SIGPIPE` does: `ignoresSigpipe` is the application's. -/
def udsReceiveFds {α : Type} (ignoresSigpipe : Bool) (conn : FdConnection) (stack : Nat) (peerFds : List Int)
    (response : FdResponse α) (localFds : Nat → Int) (table : FdTable α) : Except FdCrash (FdReceipt α) :=
  let failed : FdReceipt α := ⟨-1, localFds, 0, table⟩
  if peerFds.length ≤ 0 ∨ udsMaxFds < peerFds.length then .ok failed
  else if !conn.connected then .ok failed
  else
    match sendRequest ignoresSigpipe conn with
    | .error crash => .error crash
    | .ok false => .ok failed
    | .ok true =>
      match response.sendCount with
      | none => .ok failed
      | some sendCount =>
        if sendCount ≤ 0 then .ok failed
        else recvFds stack response.message localFds table sendCount.toNat

theorem udsReceiveFds_up {α : Type} (ignoresSigpipe : Bool) (stack : Nat) {peerFds : List Int} (response : FdResponse α)
    (localFds : Nat → Int) (table : FdTable α) (hnum : ¬ (peerFds.length ≤ 0 ∨ udsMaxFds < peerFds.length)) {n : Nat}
    (hcount : response.sendCount = some (n : Int)) (hpos : 0 < n) :
    udsReceiveFds ignoresSigpipe .up stack peerFds response localFds table = recvFds stack response.message localFds table n := by
  have hsent : sendRequest ignoresSigpipe .up = .ok true := rfl
  have hup : ¬ (!FdConnection.up.connected) = true := Bool.false_ne_true
  unfold udsReceiveFds
  dsimp only
  rw [if_neg hnum, if_neg hup, hsent, hcount]
  dsimp only
  rw [if_neg (by omega), Int.toNat_natCast]

section Install
variable {α : Type}

theorem length_installFds (table : FdTable α) (files : List α) : (installFds table files).1.length = files.length := by
  induction files generalizing table with
  | nil => rfl
  | cons a files ih => exact congrArg Nat.succ (ih (table.alloc a))

theorem installFds_spec (table : FdTable α) (files : List α) :
    (∀ n ∈ (installFds table files).1, table.get n = none) ∧ (installFds table files).1.Nodup ∧
      (∀ (i : Nat) (n : Nat), (installFds table files).1[i]? = some n → (installFds table files).2.get n = files[i]?) ∧
      ∀ n ∉ (installFds table files).1, (installFds table files).2.get n = table.get n := by
  induction files generalizing table with
  | nil => exact ⟨fun n hn => absurd hn List.not_mem_nil, List.nodup_nil, fun i n hn => absurd hn (by simp [installFds]), fun n _ => rfl⟩
  | cons a files ih =>
    obtain ⟨hfree, hnodup, hget, hrest⟩ := ih (table.alloc a)
    have hnew : table.lowest ∉ (installFds (table.alloc a) files).1 := by
      intro hmem
      have h := hfree _ hmem
      rw [FdTable.get_alloc, if_pos rfl] at h
      exact absurd h (by simp)
    refine ⟨?_, List.nodup_cons.2 ⟨hnew, hnodup⟩, ?_, ?_⟩
    · refine List.forall_mem_cons.2 ⟨FdTable.get_lowest, fun n hn => ?_⟩
      have h := hfree n hn
      have hne : n ≠ table.lowest := by
        rintro rfl
        exact hnew hn
      rw [FdTable.get_alloc, if_neg hne] at h
      exact h
    · intro i n hn
      cases i with
      | zero =>
        obtain rfl := Option.some.inj hn
        exact (hrest _ hnew).trans (by rw [FdTable.get_alloc, if_pos rfl]; rfl)
      | succ i => exact hget i n hn
    · intro n hn
      obtain ⟨hne, hn⟩ := not_or.1 (fun h => hn (List.mem_cons.2 h))
      exact (hrest n hn).trans (by rw [FdTable.get_alloc, if_neg hne])

theorem installFds_open {table : FdTable α} {files : List α} {n : Nat} (hn : n ∈ (installFds table files).1) :
    (installFds table files).2.get n ≠ none := by
  obtain ⟨i, hi⟩ := List.mem_iff_getElem?.1 hn
  obtain ⟨-, -, hget, -⟩ := installFds_spec table files
  have hlt := (List.getElem?_eq_some_iff.1 hi).1
  rw [length_installFds] at hlt
  rw [hget i n hi, List.getElem?_eq_getElem hlt]
  exact Option.some_ne_none _

end Install

/-! ### Any server -/

/-- The call comes back, writes and returns no more than was asked for, and every descriptor that is new in the process
is among those it returns. -/
def ReceivesSafely {α : Type} (peerFds : List Int) (table : FdTable α) : Except FdCrash (FdReceipt α) → Prop
  | .error _ => False
  | .ok r => r.written ≤ peerFds.length ∧ r.ret ≤ peerFds.length ∧
    ∀ fd, table.get fd = none → r.table.get fd ≠ none → ∃ i : Nat, (i : Int) < r.ret ∧ r.localFds i = (fd : Int)

/-- Neither `send` finds the other end closed, or the process does not mind. -/
def OutlivesRequest (ignoresSigpipe : Bool) (conn : FdConnection) : Prop :=
  ignoresSigpipe = false → conn.sendNum ≠ .peerClosed ∧ (conn.sendNum = .sent → conn.sendList ≠ .peerClosed)

/-- The request does not kill the process, and if the response is read at all: the stack has room for its count, no more
descriptors are copied than were asked for, and none is left over. An odd count leaves room for one more than it says. -/
def ResponseFits {α : Type} (ignoresSigpipe : Bool) (conn : FdConnection) (stack : Nat) (peerFds : List Int)
    (response : FdResponse α) : Prop :=
  0 < peerFds.length → peerFds.length ≤ udsMaxFds → conn.connected = true →
    OutlivesRequest ignoresSigpipe conn ∧
      (conn.sendNum = .sent → conn.sendList = .sent → ∀ n : Nat, response.sendCount = some (n : Int) → 0 < n →
        cmsgSpace (4 * n) ≤ stack ∧ min (response.message.getD []).length n ≤ peerFds.length ∧
          ((response.message.getD []).length ≤ n ∨ n % 2 = 0))

section Client
variable {α : Type} {stack : Nat} {localFds : Nat → Int} {table : FdTable α}

/-- The control buffer is aligned: there is room for an even number of descriptors. -/
theorem room_eq (n : Nat) : (cmsgSpace (4 * n) - cmsgLen 0) / 4 = n + n % 2 := by
  unfold cmsgSpace cmsgLen
  omega

theorem recvFds_safe_iff (peerFds : List Int) (message : Option (List α)) {n : Nat} (hn : 0 < n) :
    ReceivesSafely peerFds table (recvFds stack message localFds table n) ↔
      cmsgSpace (4 * n) ≤ stack ∧ min (message.getD []).length n ≤ peerFds.length ∧
        ((message.getD []).length ≤ n ∨ n % 2 = 0) := by
  unfold recvFds
  rw [room_eq]
  by_cases hstack : stack < cmsgSpace (4 * n)
  · rw [if_pos hstack]
    exact ⟨False.elim, fun h => absurd h.1 (Nat.not_le.2 hstack)⟩
  rw [if_neg hstack]
  have hlen := length_installFds table ((message.getD []).take (n + n % 2))
  obtain ⟨hfree, hnodup, -, hrest⟩ := installFds_spec table ((message.getD []).take (n + n % 2))
  have hisOpen : ∀ fd ∈ (installFds table ((message.getD []).take (n + n % 2))).1,
      (installFds table ((message.getD []).take (n + n % 2))).2.get fd ≠ none := fun _ => installFds_open
  rw [List.length_take] at hlen
  generalize installFds table ((message.getD []).take (n + n % 2)) = r at hlen hfree hnodup hisOpen hrest
  have hgetD : ∀ (i : Nat) (hi : i < r.1.length), r.1.getD i 0 = r.1[i] := fun i hi => by
    simp [List.getD_eq_getElem?_getD, hi]
  -- a number that is new has been given out
  have hnew : ∀ fd, table.get fd = none → r.2.get fd ≠ none → fd ∈ r.1 := by
    intro fd hnone hopen
    by_contra hmem
    exact hopen ((hrest fd hmem).trans hnone)
  have hopened : ∀ i < r.1.length, table.get (r.1.getD i 0) = none ∧ r.2.get (r.1.getD i 0) ≠ none := by
    intro i hi
    have hat : r.1.getD i 0 ∈ r.1 := hgetD i hi ▸ List.getElem_mem hi
    exact ⟨hfree _ hat, hisOpen _ hat⟩
  dsimp only
  by_cases hzero : r.1.length = 0
  · rw [if_pos hzero]
    refine ⟨fun _ => ⟨by omega, by omega, by omega⟩, fun _ => ⟨Nat.zero_le _, by simp, fun fd hnone hopen => ?_⟩⟩
    rw [List.length_eq_zero_iff.1 hzero] at hnew
    exact absurd (hnew fd hnone hopen) List.not_mem_nil
  · rw [if_neg hzero]
    have hcopy : (if r.1.length < n then r.1.length else n) = min r.1.length n := by
      split_ifs <;> omega
    rw [hcopy]
    unfold ReceivesSafely
    dsimp only
    constructor
    · rintro ⟨hwritten, hret, hstored⟩
      refine ⟨by omega, by omega, ?_⟩
      by_contra hleak
      -- the descriptor after the last one that is copied
      obtain ⟨hnone, hopen⟩ := hopened n (by omega)
      obtain ⟨i, hi, heq⟩ := hstored _ hnone hopen
      have hi' : i < min r.1.length n := by omega
      rw [if_pos hi', Int.ofNat_inj] at heq
      rw [hgetD i (by omega), hgetD n (by omega)] at heq
      have := (List.Nodup.getElem_inj_iff hnodup).1 heq
      omega
    · rintro ⟨-, hwritten, hleak⟩
      refine ⟨by omega, by omega, fun fd hnone hopen => ?_⟩
      obtain ⟨i, hi, heq⟩ := List.getElem_of_mem (hnew fd hnone hopen)
      have hi' : i < min r.1.length n := by omega
      refine ⟨i, by omega, ?_⟩
      rw [if_pos hi', hgetD i hi, heq]

theorem sendRequest_eq (ignoresSigpipe : Bool) (conn : FdConnection) :
    (sendRequest ignoresSigpipe conn = .error .sigpipe ∧ ¬ OutlivesRequest ignoresSigpipe conn) ∨
      (sendRequest ignoresSigpipe conn = .ok false ∧ OutlivesRequest ignoresSigpipe conn ∧
        ¬ (conn.sendNum = .sent ∧ conn.sendList = .sent)) ∨
      (sendRequest ignoresSigpipe conn = .ok true ∧ OutlivesRequest ignoresSigpipe conn ∧
        conn.sendNum = .sent ∧ conn.sendList = .sent) := by
  obtain ⟨connected, sendNum, sendList⟩ := conn
  unfold sendRequest OutlivesRequest
  cases ignoresSigpipe <;> cases sendNum <;> cases sendList <;> simp [sendAll] <;> rfl

/-- **The client takes the server's count for its own**, and does not expect the other end to be closed before its
request is out: exactly the responses that fit are harmless. -/
theorem receivesSafely_iff (ignoresSigpipe : Bool) (conn : FdConnection) (stack : Nat) (peerFds : List Int)
    (response : FdResponse α) (localFds : Nat → Int) (table : FdTable α) :
    ReceivesSafely peerFds table (udsReceiveFds ignoresSigpipe conn stack peerFds response localFds table) ↔
      ResponseFits ignoresSigpipe conn stack peerFds response := by
  have hfailed : ReceivesSafely peerFds table (.ok ⟨-1, localFds, 0, table⟩) :=
    ⟨Nat.zero_le _, by simp, fun fd hnone hopen => absurd hnone hopen⟩
  unfold udsReceiveFds ResponseFits
  dsimp only
  by_cases hnum : peerFds.length ≤ 0 ∨ udsMaxFds < peerFds.length
  · rw [if_pos hnum]
    exact ⟨fun _ h1 h2 => absurd hnum (by omega), fun _ => hfailed⟩
  rw [if_neg hnum]
  cases hconn : conn.connected with
  | false => exact ⟨fun _ _ _ h => absurd h Bool.false_ne_true, fun _ => hfailed⟩
  | true =>
    rw [Bool.not_true, if_neg Bool.false_ne_true]
    rcases sendRequest_eq ignoresSigpipe conn with ⟨heq, hkilled⟩ | ⟨heq, hout, hnot⟩ | ⟨heq, hout, hnumSent, hlistSent⟩
    · rw [heq]
      exact ⟨False.elim, fun h => hkilled (h (by omega) (by omega) rfl).1⟩
    · rw [heq]
      exact ⟨fun _ _ _ _ => ⟨hout, fun h1 h2 => absurd ⟨h1, h2⟩ hnot⟩, fun _ => hfailed⟩
    · rw [heq]
      dsimp only
      cases hcount : response.sendCount with
      | none => exact ⟨fun _ _ _ _ => ⟨hout, fun _ _ n hn => absurd hn (by simp)⟩, fun _ => hfailed⟩
      | some sendCount =>
        dsimp only
        by_cases hpos : sendCount ≤ 0
        · rw [if_pos hpos]
          refine ⟨fun _ _ _ _ => ⟨hout, fun _ _ n hn hn0 => ?_⟩, fun _ => hfailed⟩
          have := Option.some.inj hn
          omega
        · rw [if_neg hpos]
          rw [recvFds_safe_iff peerFds response.message (by omega)]
          constructor
          · intro h _ _ _
            refine ⟨hout, fun _ _ n hn _ => ?_⟩
            obtain rfl := Option.some.inj hn
            exact h
          · intro h
            have hcast : ((sendCount.toNat : Nat) : Int) = sendCount := by omega
            exact (h (by omega) (by omega) rfl).2 hnumSent hlistSent sendCount.toNat (by rw [hcast]) (by omega)

end Client

/-- The server announces two descriptors and sends two where one was asked for: the second cell is not the caller's. -/
theorem not_receivesSafely :
    ¬ ∀ (ignoresSigpipe : Bool) (conn : FdConnection) (stack : Nat) (peerFds : List Int) (response : FdResponse Unit)
      (localFds : Nat → Int) (table : FdTable Unit),
      ReceivesSafely peerFds table (udsReceiveFds ignoresSigpipe conn stack peerFds response localFds table) := by
  intro h
  have hwritten := (h true .up 4096 [5] ⟨some 2, some [(), ()]⟩ (fun _ => -1) ⟨[]⟩).1
  revert hwritten
  decide

/-! ### The server of this module -/

/-- Each descriptor that is open in the serving process arrives at the place of its request, and the places of the others
keep the `-1` of the caller. -/
def Delivers {α : Type} (files : Int → Option α) (peerFds : List Int) : Except FdCrash (FdReceipt α) → Prop
  | .error _ => False
  | .ok r => ∀ (j : Nat) (peerFd : Int), peerFds[j]? = some peerFd →
    match files peerFd with
    | some file => ∃ fd : Nat, r.localFds j = fd ∧ (j : Int) < r.ret ∧ r.table.get fd = some file
    | none => r.localFds j = -1

section Server
variable {α : Type} {files : Int → Option α} {peerFds : List Int}

theorem sendFds_eq (files : Int → Option α) (fds : List Int) :
    (∃ as, sendFds files fds = some as ∧ as.length = fds.length ∧
      ∀ (j : Nat) (fd : Int), fds[j]? = some fd → files fd = as[j]?) ∨
    (sendFds files fds = none ∧ ∃ fd ∈ fds, files fd = none) := by
  unfold sendFds
  induction fds with
  | nil => exact Or.inl ⟨[], rfl, rfl, fun j fd hj => absurd hj (by simp)⟩
  | cons fd fds ih =>
    rw [List.mapM_cons]
    cases hfd : files fd with
    | none => exact Or.inr ⟨rfl, fd, List.mem_cons_self .., hfd⟩
    | some a =>
      rcases ih with ⟨as, has, hlen, hget⟩ | ⟨hnone, fd', hfd', hclosed⟩
      · refine Or.inl ⟨a :: as, by rw [has]; rfl, congrArg Nat.succ hlen, fun j fd' hj => ?_⟩
        cases j with
        | zero => exact Option.some.inj hj ▸ hfd
        | succ j => exact hget j fd' hj
      · exact Or.inr ⟨by rw [hnone]; rfl, fd', List.mem_cons_of_mem _ hfd', hclosed⟩

/-- **What the client gets from this server**: a descriptor for each request, or none at all. -/
theorem udsReceiveFds_served (ignoresSigpipe : Bool) (files : Int → Option α) (hpos : 0 < peerFds.length) (hmax : peerFds.length ≤ udsMaxFds)
    {stack : Nat} (hstack : cmsgSpace (4 * udsMaxFds) ≤ stack) (table : FdTable α) :
    (∃ as : List α, as.length = peerFds.length ∧ (∀ (j : Nat) (fd : Int), peerFds[j]? = some fd → files fd = as[j]?) ∧
      udsReceiveFds ignoresSigpipe .up stack peerFds (udsServe files peerFds) (fun _ => -1) table =
        .ok ⟨peerFds.length, fun i => if i < peerFds.length then ((installFds table as).1.getD i 0 : Nat) else -1,
          peerFds.length, (installFds table as).2⟩) ∨
    (∃ fd ∈ peerFds, files fd = none) ∧
      udsReceiveFds ignoresSigpipe .up stack peerFds (udsServe files peerFds) (fun _ => -1) table =
        .ok ⟨-1, fun _ => -1, 0, table⟩ := by
  have hrecv : udsReceiveFds ignoresSigpipe .up stack peerFds (udsServe files peerFds) (fun _ => -1) table =
      recvFds stack (sendFds files peerFds) (fun _ => -1) table peerFds.length := by
    have hnum : ¬ (peerFds.length ≤ 0 ∨ udsMaxFds < peerFds.length) := by omega
    unfold udsServe
    rw [if_neg hnum]
    exact udsReceiveFds_up ignoresSigpipe stack _ _ table hnum rfl hpos
  rw [hrecv]
  have hroom : ¬ stack < cmsgSpace (4 * peerFds.length) := by
    unfold cmsgSpace udsMaxFds at *
    omega
  rcases sendFds_eq files peerFds with ⟨as, has, hlen, hget⟩ | ⟨hnone, hclosed⟩
  · refine Or.inl ⟨as, hlen, hget, ?_⟩
    unfold recvFds
    rw [if_neg hroom, room_eq, has, Option.getD_some, List.take_of_length_le (by omega)]
    have hinstalled := length_installFds table as
    generalize installFds table as = r at hinstalled
    dsimp only
    rw [if_neg (by omega), hinstalled, hlen, if_neg (Nat.lt_irrefl _)]
  · refine Or.inr ⟨hclosed, ?_⟩
    unfold recvFds
    rw [if_neg hroom, hnone, Option.getD_none, List.take_nil]
    rfl

end Server

/-- **One descriptor that is not open spoils the batch**: what was asked for is delivered exactly if all of the
descriptors are open, or none. -/
theorem delivers_iff {α : Type} (ignoresSigpipe : Bool) (files : Int → Option α) (peerFds : List Int) (hpos : 0 < peerFds.length)
    (hmax : peerFds.length ≤ udsMaxFds) (stack : Nat) (hstack : cmsgSpace (4 * udsMaxFds) ≤ stack) (table : FdTable α) :
    Delivers files peerFds (udsReceiveFds ignoresSigpipe .up stack peerFds (udsServe files peerFds) (fun _ => -1) table) ↔
      (∀ fd ∈ peerFds, files fd ≠ none) ∨ ∀ fd ∈ peerFds, files fd = none := by
  rcases udsReceiveFds_served ignoresSigpipe files hpos hmax hstack table with ⟨as, hlen, hget, heq⟩ | ⟨⟨fd, hfd, hclosed⟩, heq⟩
  · have hall : ∀ fd ∈ peerFds, files fd ≠ none := by
      intro fd hfd
      obtain ⟨j, hj⟩ := List.mem_iff_getElem?.1 hfd
      have := (List.getElem?_eq_some_iff.1 hj).1
      rw [hget j fd hj, List.getElem?_eq_getElem (by omega)]
      exact Option.some_ne_none _
    refine iff_of_true ?_ (Or.inl hall)
    have hinstalled := length_installFds table as
    obtain ⟨-, -, hopen, -⟩ := installFds_spec table as
    rw [heq]
    generalize installFds table as = r at hinstalled hopen
    intro j peerFd hj
    have hlt := (List.getElem?_eq_some_iff.1 hj).1
    have hat : r.1[j]? = some (r.1.getD j 0) := by simp [hinstalled, hlen, hlt]
    rw [hget j peerFd hj, List.getElem?_eq_getElem (by omega)]
    refine ⟨r.1.getD j 0, if_pos hlt, by dsimp only; omega, ?_⟩
    rw [← List.getElem?_eq_getElem (by omega)]
    exact hopen j _ hat
  · rw [heq]
    constructor
    · intro h
      refine Or.inr fun fd hfd => ?_
      by_contra hopen
      obtain ⟨j, hj⟩ := List.mem_iff_getElem?.1 hfd
      obtain ⟨file, hfile⟩ := Option.ne_none_iff_exists'.1 hopen
      have hj := h j fd hj
      rw [hfile] at hj
      obtain ⟨-, -, hret, -⟩ := hj
      exact absurd hret (by show ¬ (j : Int) < -1; omega)
    · rintro (hall | hnone)
      · exact absurd hclosed (hall fd hfd)
      · intro j peerFd hj
        rw [hnone peerFd (List.mem_of_getElem? hj)]

end GpuCr
