import GpuCr.Lib.Run
import Mathlib.Data.List.Nodup
import Mathlib.Logic.Function.Basic

/-!
# The fd servers during the import phase

The fd server and client of `src/ipc_fd_exchange.cpp` and the import branch of `cr_ipc_signal_handler`,
as steps of any number of workers in any order. A worker connects to one listed peer after the other,
waits for each answer, rebuilds its imports and then stops its own server, whether or not its peers have
been served. `StopsLast` is what would have to hold when a worker stops its server.
-/

namespace GpuCr

open Lib.Run

/-- The server thread: blocked in `accept`, busy with a client, or gone. -/
inductive ServerThread (ι : Type) where
  | accepting
  | serving (client : ι)
  | exited
  deriving DecidableEq

/-- Where a worker is in its `IPC_IMPORT_MSG` handler. `requesting` holds the peers still to be asked and
the failed attempts to connect to the first of them. -/
inductive ImportPhase (ι : Type) where
  | idle
  | requesting (todo : List ι) (attempts : Nat)
  | waiting (peer : ι) (rest : List ι)
  | rebuilt
  | stopping
  | finished
  deriving DecidableEq

def ServerThread.served {ι : Type} : ServerThread ι → List ι
  | .serving c => [c]
  | _ => []

def ImportPhase.remaining {ι : Type} (peers : List ι) : ImportPhase ι → List ι
  | .idle => peers
  | .requesting todo _ => todo
  | .waiting p rest => p :: rest
  | _ => []

/-- `listening` is the kernel's socket, which outlives `close(listen_fd)` while `accept` blocks on it.
`answered` and `refused` record how the requests ended. -/
structure FdNet (ι : Type) where
  phase : ι → ImportPhase ι
  running : ι → Bool
  listening : ι → Bool
  thread : ι → ServerThread ι
  backlog : ι → List ι
  answered : ι → List ι
  refused : List (ι × ι)

inductive FdEvent (ι : Type) where
  | deliver (w : ι)
  | connect (w : ι)
  | accept (p : ι)
  | acceptTimeout (p : ι)
  | answer (p : ι)
  | rebuild (w : ι)
  | stop (w : ι)
  | join (w : ι)

/-- The attempts of `uds_receive_fds`. -/
def connectAttempts : Nat := 20

/-- The argument of `listen`. A connect blocks when more than that many clients are queued. -/
def listenBacklog : Nat := 8

namespace FdNet

variable {ι : Type} [DecidableEq ι]

def setPhase (s : FdNet ι) (w : ι) (ph : ImportPhase ι) : FdNet ι :=
  { s with phase := Function.update s.phase w ph }

def setThread (s : FdNet ι) (p : ι) (t : ServerThread ι) : FdNet ι :=
  { s with thread := Function.update s.thread p t }

/-- A client that is told of an error goes on with the next peer. -/
def giveUp : ImportPhase ι → ImportPhase ι
  | .waiting _ rest => .requesting rest 0
  | ph => ph

/-- The kernel frees the listening socket: the clients in its backlog are reset. -/
def closeSocket (s : FdNet ι) (p : ι) : FdNet ι :=
  { s with
    listening := Function.update s.listening p false
    backlog := Function.update s.backlog p []
    phase := fun v => if v ∈ s.backlog p then giveUp (s.phase v) else s.phase v
    refused := s.refused ++ (s.backlog p).map fun v => (v, p) }

/-- The loop head of `uds_server_thread`. -/
def threadLoop (s : FdNet ι) (p : ι) : FdNet ι :=
  if s.running p then s.setThread p .accepting else s.setThread p .exited

/-- One attempt of the loop in `uds_receive_fds`; a connected client has sent its request. -/
def connect (s : FdNet ι) (w : ι) : FdNet ι :=
  match s.phase w with
  | .requesting (p :: rest) attempts =>
    if s.listening p then
      if listenBacklog < (s.backlog p).length then s
      else { s.setPhase w (.waiting p rest) with
        backlog := Function.update s.backlog p (s.backlog p ++ [w]) }
    else if attempts + 1 < connectAttempts then s.setPhase w (.requesting (p :: rest) (attempts + 1))
    else { s.setPhase w (.requesting rest 0) with refused := s.refused ++ [(w, p)] }
  | _ => s

/-- `accept` returns a connection. After `close(listen_fd)` it held the last reference to the socket. -/
def accept (s : FdNet ι) (p : ι) : FdNet ι :=
  match s.thread p, s.backlog p with
  | .accepting, c :: cs =>
    let s := { s.setThread p (.serving c) with backlog := Function.update s.backlog p cs }
    if s.running p then s else s.closeSocket p
  | _, _ => s

def acceptTimeout (s : FdNet ι) (p : ι) : FdNet ι :=
  match s.thread p with
  | .accepting => if s.running p then s else (s.closeSocket p).threadLoop p
  | _ => s

/-- The server sends the fds and closes the connection; the client goes on with its next peer. -/
def answer (s : FdNet ι) (p : ι) : FdNet ι :=
  match s.thread p with
  | .serving c =>
    match s.phase c with
    | .waiting _ rest =>
      { (s.setPhase c (.requesting rest 0)).threadLoop p with
        answered := Function.update s.answered c (s.answered c ++ [p]) }
    | _ => s.threadLoop p
  | _ => s

/-- `uds_fd_server_stop` up to its `pthread_join`. -/
def udsFdServerStop (s : FdNet ι) (w : ι) : FdNet ι :=
  if s.running w then
    let s := { s with running := Function.update s.running w false }
    match s.thread w with
    | .accepting => s
    | _ => s.closeSocket w
  else s

def step (peers : ι → List ι) (s : FdNet ι) : FdEvent ι → FdNet ι
  | .deliver w => if s.phase w = .idle then s.setPhase w (.requesting (peers w) 0) else s
  | .connect w => s.connect w
  | .accept p => s.accept p
  | .acceptTimeout p => s.acceptTimeout p
  | .answer p => s.answer p
  | .rebuild w =>
    match s.phase w with
    | .requesting [] _ => s.setPhase w .rebuilt
    | _ => s
  | .stop w => if s.phase w = .rebuilt then (s.udsFdServerStop w).setPhase w .stopping else s
  | .join w =>
    if s.phase w = .stopping ∧ s.thread w = .exited then s.setPhase w .finished else s

/-- All workers have finished `IPC_EXPORT_MSG`. -/
def start : FdNet ι where
  phase := fun _ => .idle
  running := fun _ => true
  listening := fun _ => true
  thread := fun _ => .accepting
  backlog := fun _ => []
  answered := fun _ => []
  refused := []

/-! ### The property and the condition -/

/-- The clients a server has in hand. -/
def clients (s : FdNet ι) (p : ι) : List ι := (s.thread p).served ++ s.backlog p

/-- The requests a worker has not had an answer to, those it has yet to make included. -/
def remaining (peers : ι → List ι) (s : FdNet ι) (w : ι) : List ι := (s.phase w).remaining (peers w)

/-- No fd request is refused: a peer that is asked runs its server, a client that waits is one of the
server's clients, and a worker that is through with its requests has had an answer to each. -/
structure NoRefusal (peers : ι → List ι) (s : FdNet ι) : Prop where
  asked : ∀ w p rest n, s.phase w = .requesting (p :: rest) n → s.running p = true ∧ s.listening p = true
  waiting : ∀ w p rest, s.phase w = .waiting p rest →
    s.running p = true ∧ s.thread p ≠ .exited ∧ w ∈ s.clients p
  answered : ∀ w, s.phase w = .rebuilt ∨ s.phase w = .stopping ∨ s.phase w = .finished →
    s.answered w = peers w
  refused : s.refused = []

/-- A server is stopped only when no worker has a request to it left. -/
def StopsLast (peers : ι → List ι) (s : FdNet ι) : FdEvent ι → Prop
  | .stop w => ∀ v, w ∉ remaining peers s v
  | _ => True

/-! ### The invariant -/

structure Inv (peers : ι → List ι) (s : FdNet ι) : Prop where
  running : ∀ v p, p ∈ remaining peers s v → s.running p = true
  listening : ∀ p, s.running p = true → s.listening p = true
  thread : ∀ p, s.running p = true → s.thread p ≠ .exited
  clients : ∀ p v, v ∈ s.clients p ↔ ∃ rest, s.phase v = .waiting p rest
  nodup : ∀ p, (s.clients p).Nodup
  answered : ∀ w, s.answered w ++ remaining peers s w = peers w
  refused : s.refused = []

omit [DecidableEq ι] in
theorem inv_start (peers : ι → List ι) : (start : FdNet ι).Inv peers where
  running := fun _ _ _ => rfl
  listening := fun _ _ => rfl
  thread := fun _ _ => by simp [start]
  clients := fun _ _ => by simp [FdNet.clients, ServerThread.served, start]
  nodup := fun _ => by simp [FdNet.clients, ServerThread.served, start]
  answered := fun _ => by simp [remaining, ImportPhase.remaining, start]
  refused := rfl

section Preservation
variable {peers : ι → List ι} {s : FdNet ι}

omit [DecidableEq ι] in
theorem Inv.noRefusal (h : s.Inv peers) : s.NoRefusal peers where
  asked := by
    intro w p rest n hw
    have hrun := h.running w p (by simp [remaining, ImportPhase.remaining, hw])
    exact ⟨hrun, h.listening p hrun⟩
  waiting := by
    intro w p rest hw
    have hrun := h.running w p (by simp [remaining, ImportPhase.remaining, hw])
    exact ⟨hrun, h.thread p hrun, (h.clients p w).2 ⟨rest, hw⟩⟩
  answered := by
    intro w hw
    have hans := h.answered w
    rcases hw with hw | hw | hw <;> simpa [remaining, ImportPhase.remaining, hw] using hans
  refused := h.refused

omit [DecidableEq ι] in
theorem Inv.clients_eq_nil (h : s.Inv peers) {p : ι} (hp : ∀ v, p ∉ remaining peers s v) :
    s.clients p = [] := by
  rw [List.eq_nil_iff_forall_not_mem]
  intro v hv
  obtain ⟨rest, hrest⟩ := (h.clients p v).1 hv
  apply hp v
  simp [remaining, ImportPhase.remaining, hrest]

omit [DecidableEq ι] in
theorem Inv.clients_eq_nil_of_stopped (h : s.Inv peers) {p : ι} (hp : s.running p = false) :
    s.clients p = [] := by
  apply h.clients_eq_nil
  intro v hv
  have := h.running v p hv
  simp [hp] at this

theorem Inv.setPhase (h : s.Inv peers) {w : ι} {ph : ImportPhase ι}
    (hrem : ph.remaining (peers w) = remaining peers s w) (hbefore : ∀ p rest, s.phase w ≠ .waiting p rest)
    (hafter : ∀ p rest, ph ≠ .waiting p rest) : (s.setPhase w ph).Inv peers := by
  have hremaining : ∀ v, remaining peers (s.setPhase w ph) v = remaining peers s v := by
    intro v
    by_cases hv : v = w
    · subst hv
      simpa [remaining, FdNet.setPhase] using hrem
    · simp [remaining, FdNet.setPhase, Function.update_of_ne hv]
  refine ⟨?_, h.listening, h.thread, ?_, h.nodup, ?_, h.refused⟩
  · intro v p hp
    rw [hremaining] at hp
    exact h.running v p hp
  · intro p v
    refine (h.clients p v).trans ?_
    by_cases hv : v = w
    · subst hv
      simp [FdNet.setPhase, hbefore, hafter]
    · simp [FdNet.setPhase, Function.update_of_ne hv]
  · intro v
    rw [hremaining]
    exact h.answered v

theorem closeSocket_of_nil (s : FdNet ι) {p : ι} (hp : s.backlog p = []) :
    s.closeSocket p = { s with listening := Function.update s.listening p false } := by
  have hback : Function.update s.backlog p [] = s.backlog := by
    rw [← hp]
    exact Function.update_eq_self p s.backlog
  simp [closeSocket, hp, hback]

theorem Inv.connect (h : s.Inv peers) (w : ι) : (s.connect w).Inv peers := by
  unfold FdNet.connect
  split
  case h_2 => exact h
  case h_1 p rest attempts hw =>
    have hrun := h.running w p (by simp [remaining, ImportPhase.remaining, hw])
    rw [if_pos (h.listening p hrun)]
    split_ifs with hfull
    · exact h
    -- `w` joins the backlog of `p`
    have hnew : w ∉ s.clients p := by
      rw [h.clients]
      simp [hw]
    refine ⟨?_, h.listening, h.thread, ?_, ?_, ?_, h.refused⟩
    · intro v q hq
      by_cases hv : v = w
      · subst hv
        apply h.running v q
        simpa [remaining, ImportPhase.remaining, FdNet.setPhase, hw] using hq
      · apply h.running v q
        simpa [remaining, FdNet.setPhase, Function.update_of_ne hv] using hq
    · intro q v
      by_cases hq : q = p
      · subst hq
        have hold := h.clients q v
        by_cases hv : v = w
        · subst hv
          simp [FdNet.clients, FdNet.setPhase]
        · simp only [FdNet.clients, FdNet.setPhase, Function.update_self, Function.update_of_ne hv,
            List.mem_append, List.mem_singleton, hv, or_false] at hold ⊢
          exact hold
      · refine Iff.trans ?_ ((h.clients q v).trans ?_)
        · simp [FdNet.clients, FdNet.setPhase, Function.update_of_ne hq]
        · by_cases hv : v = w
          · subst hv
            simp [FdNet.setPhase, hw, Ne.symm hq]
          · simp [FdNet.setPhase, Function.update_of_ne hv]
    · intro q
      by_cases hq : q = p
      · subst hq
        have hcl : (FdNet.clients { s.setPhase w (.waiting q rest) with
            backlog := Function.update s.backlog q (s.backlog q ++ [w]) } q) = s.clients q ++ [w] := by
          simp [FdNet.clients, FdNet.setPhase]
        rw [hcl]
        exact (h.nodup q).append (List.nodup_singleton w) (by simpa using hnew)
      · simpa [FdNet.clients, FdNet.setPhase, Function.update_of_ne hq] using h.nodup q
    · intro v
      by_cases hv : v = w
      · subst hv
        simpa [remaining, ImportPhase.remaining, FdNet.setPhase, hw] using h.answered v
      · simpa [remaining, FdNet.setPhase, Function.update_of_ne hv] using h.answered v

omit [DecidableEq ι] in
theorem Inv.servers (h : s.Inv peers) {s' : FdNet ι} (hphase : s'.phase = s.phase)
    (hanswered : s'.answered = s.answered) (hrefused : s'.refused = s.refused)
    (hclients : ∀ q, s'.clients q = s.clients q)
    (hneeded : ∀ q v, q ∈ remaining peers s v → s'.running q = true)
    (hlive : ∀ q, s'.running q = true → s'.listening q = true ∧ s'.thread q ≠ .exited) : s'.Inv peers := by
  have hrem : ∀ v, remaining peers s' v = remaining peers s v := by
    intro v
    rw [remaining, remaining, hphase]
  refine ⟨?_, fun q hq => (hlive q hq).1, fun q hq => (hlive q hq).2, ?_, ?_, ?_, hrefused.trans h.refused⟩
  · intro v p hp
    exact hneeded p v (hrem v ▸ hp)
  · intro q v
    rw [hclients, hphase]
    exact h.clients q v
  · intro q
    rw [hclients]
    exact h.nodup q
  · intro v
    rw [hanswered, hrem]
    exact h.answered v

theorem Inv.accept (h : s.Inv peers) (p : ι) : (s.accept p).Inv peers := by
  unfold FdNet.accept
  split
  case h_2 => exact h
  case h_1 c cs hthread hback =>
    by_cases hrun : s.running p = true
    · have hkeep : (s.setThread p (.serving c)).running p = true := hrun
      simp only [hkeep, if_true]
      refine h.servers rfl rfl rfl ?_ (fun q v hq => h.running v q hq) ?_
      · intro q
        by_cases hq : q = p
        · subst hq
          simp [FdNet.clients, FdNet.setThread, ServerThread.served, hthread, hback]
        · simp [FdNet.clients, FdNet.setThread, Function.update_of_ne hq]
      · intro q hq
        refine ⟨h.listening q hq, ?_⟩
        by_cases hqp : q = p
        · subst hqp
          simp [FdNet.setThread]
        · simpa [FdNet.setThread, Function.update_of_ne hqp] using h.thread q hq
    · -- a stopped server has nobody to accept
      have hnil := h.clients_eq_nil_of_stopped (eq_false_of_ne_true hrun)
      simp [FdNet.clients, hback] at hnil

theorem Inv.acceptTimeout (h : s.Inv peers) (p : ι) : (s.acceptTimeout p).Inv peers := by
  unfold FdNet.acceptTimeout
  split
  case h_2 => exact h
  case h_1 hthread =>
    split_ifs with hrun
    · exact h
    have hnil := h.clients_eq_nil_of_stopped (eq_false_of_ne_true hrun)
    have hback : s.backlog p = [] := by simpa [FdNet.clients, ServerThread.served, hthread] using hnil
    have hexit : (s.closeSocket p).threadLoop p =
        { s with
          listening := Function.update s.listening p false
          thread := Function.update s.thread p .exited } := by
      simp [closeSocket_of_nil s hback, threadLoop, FdNet.setThread, hrun]
    rw [hexit]
    refine h.servers rfl rfl rfl ?_ (fun q v hq => h.running v q hq) ?_
    · intro q
      by_cases hq : q = p
      · subst hq
        simp [FdNet.clients, ServerThread.served, hthread]
      · simp [FdNet.clients, Function.update_of_ne hq]
    · intro q hq
      have hqp : q ≠ p := by
        rintro rfl
        exact hrun hq
      simpa [Function.update_of_ne hqp] using ⟨h.listening q hq, h.thread q hq⟩

theorem answer_eq {p c : ι} {rest : List ι} (hthread : s.thread p = .serving c)
    (hphase : s.phase c = .waiting p rest) :
    s.answer p = { s with
      phase := Function.update s.phase c (.requesting rest 0)
      thread := Function.update s.thread p (if s.running p then .accepting else .exited)
      answered := Function.update s.answered c (s.answered c ++ [p]) } := by
  by_cases hrun : s.running p = true
  · simp [answer, hthread, hphase, threadLoop, FdNet.setThread, FdNet.setPhase, hrun]
  · simp [answer, hthread, hphase, threadLoop, FdNet.setThread, FdNet.setPhase, hrun]

theorem Inv.answer (h : s.Inv peers) (p : ι) : (s.answer p).Inv peers := by
  by_cases hserving : ∃ c, s.thread p = .serving c
  swap
  · have hsame : s.answer p = s := by
      unfold FdNet.answer
      split
      · exact absurd ⟨_, ‹_›⟩ hserving
      · rfl
    rw [hsame]
    exact h
  obtain ⟨c, hthread⟩ := hserving
  have hclients : s.clients p = c :: s.backlog p := by simp [FdNet.clients, ServerThread.served, hthread]
  obtain ⟨rest, hphase⟩ := (h.clients p c).1 (by simp [hclients])
  have hnodup := h.nodup p
  rw [hclients, List.nodup_cons] at hnodup
  have hrun : s.running p = true := h.running c p (by simp [remaining, ImportPhase.remaining, hphase])
  rw [answer_eq hthread hphase, if_pos hrun]
  refine ⟨?_, h.listening, ?_, ?_, ?_, ?_, h.refused⟩
  · intro v q hq
    apply h.running v q
    by_cases hv : v = c
    · subst hv
      have hq' : q ∈ rest := by simpa [remaining, ImportPhase.remaining] using hq
      simp [remaining, ImportPhase.remaining, hphase, hq']
    · simpa [remaining, Function.update_of_ne hv] using hq
  · intro q hq
    by_cases hqp : q = p
    · subst hqp
      simp
    · simpa [Function.update_of_ne hqp] using h.thread q hq
  · intro q v
    by_cases hq : q = p
    · subst hq
      by_cases hv : v = c
      · subst hv
        simpa [FdNet.clients, ServerThread.served] using hnodup.1
      · refine Iff.trans ?_ ((h.clients q v).trans ?_)
        · rw [hclients]
          simp [FdNet.clients, ServerThread.served, hv]
        · simp [Function.update_of_ne hv]
    · refine Iff.trans ?_ ((h.clients q v).trans ?_)
      · simp [FdNet.clients, Function.update_of_ne hq]
      · by_cases hv : v = c
        · subst hv
          simp [hphase, Ne.symm hq]
        · simp [Function.update_of_ne hv]
  · intro q
    by_cases hq : q = p
    · subst hq
      simpa [FdNet.clients, ServerThread.served] using hnodup.2
    · simpa [FdNet.clients, Function.update_of_ne hq] using h.nodup q
  · intro v
    have hans := h.answered v
    by_cases hv : v = c
    · subst hv
      simpa [remaining, ImportPhase.remaining, hphase] using hans
    · simpa [remaining, Function.update_of_ne hv] using hans

theorem Inv.udsFdServerStop (h : s.Inv peers) {w : ι} (hw : ∀ v, w ∉ remaining peers s v) :
    (s.udsFdServerStop w).Inv peers ∧ (s.udsFdServerStop w).phase = s.phase := by
  have hnil := h.clients_eq_nil hw
  rw [FdNet.clients, List.append_eq_nil_iff] at hnil
  have hneeded : ∀ q v, q ∈ remaining peers s v → Function.update s.running w false q = true := by
    intro q v hq
    have hqw : q ≠ w := by
      rintro rfl
      exact hw v hq
    rw [Function.update_of_ne hqw]
    exact h.running v q hq
  have hrunning : ∀ q, Function.update s.running w false q = true → q ≠ w ∧ s.running q = true := by
    intro q hq
    by_cases hqw : q = w
    · subst hqw
      simp at hq
    · exact ⟨hqw, by rwa [Function.update_of_ne hqw] at hq⟩
  unfold FdNet.udsFdServerStop
  by_cases hrun : s.running w = true
  swap
  · rw [if_neg hrun]
    exact ⟨h, rfl⟩
  simp only [hrun, if_true]
  split
  · refine ⟨h.servers rfl rfl rfl (fun _ => rfl) hneeded ?_, rfl⟩
    intro q hq
    have hq' := (hrunning q hq).2
    exact ⟨h.listening q hq', h.thread q hq'⟩
  · rw [closeSocket_of_nil { s with running := Function.update s.running w false } hnil.2]
    refine ⟨h.servers rfl rfl rfl (fun _ => rfl) hneeded ?_, rfl⟩
    intro q hq
    obtain ⟨hqw, hq'⟩ := hrunning q hq
    exact ⟨(Function.update_of_ne hqw ..).trans (h.listening q hq'), h.thread q hq'⟩

theorem Inv.step (h : s.Inv peers) {e : FdEvent ι} (hok : s.StopsLast peers e) :
    (s.step peers e).Inv peers := by
  cases e with
  | deliver w =>
    simp only [FdNet.step]
    split_ifs with hw
    · exact h.setPhase (by simp [remaining, ImportPhase.remaining, hw]) (by simp [hw]) (by simp)
    · exact h
  | connect w => exact h.connect w
  | accept p => exact h.accept p
  | acceptTimeout p => exact h.acceptTimeout p
  | answer p => exact h.answer p
  | rebuild w =>
    simp only [FdNet.step]
    split
    case h_1 n hw =>
      exact h.setPhase (by simp [remaining, ImportPhase.remaining, hw]) (by simp [hw]) (by simp)
    case h_2 => exact h
  | stop w =>
    simp only [FdNet.step]
    split_ifs with hw
    · obtain ⟨hinv, hphase⟩ := h.udsFdServerStop hok
      have hw' : (s.udsFdServerStop w).phase w = .rebuilt := hphase ▸ hw
      exact hinv.setPhase (by simp [remaining, ImportPhase.remaining, hw']) (by simp [hw']) (by simp)
    · exact h
  | join w =>
    simp only [FdNet.step]
    split_ifs with hw
    · exact h.setPhase (by simp [remaining, ImportPhase.remaining, hw.1]) (by simp [hw.1]) (by simp)
    · exact h

end Preservation

/-- **No request is refused** in a run in which every server is stopped after its last request. -/
theorem noRefusal_of_stopsLast (peers : ι → List ι) (events : List (FdEvent ι))
    (hok : AllSteps (StopsLast peers) (step peers) start events) :
    ∀ pre, pre <+: events → (run (step peers) start pre).NoRefusal peers := by
  intro pre hpre
  have hinv := invariant_of_allSteps (fun s e h hok => h.step hok) (inv_start peers) hok pre hpre
  exact hinv.noRefusal

/-- The two workers of the runs below each import from the other. -/
def twoPeers (w : Bool) : List Bool := [!w]

/-- What `w` does to get the fds of its peer. -/
def fetch (w : Bool) : List (FdEvent Bool) := [.deliver w, .connect w, .accept (!w), .answer (!w), .rebuild w]

theorem noRefusal_bothFetch :
    (run (step twoPeers) start (fetch false ++ fetch true ++ [.stop false, .stop true])).NoRefusal twoPeers :=
  noRefusal_of_stopsLast twoPeers _
    (by simp only [fetch, AllSteps, StopsLast, List.cons_append, List.nil_append, true_and, and_true]; decide)
    _ List.prefix_rfl

/-- The faster worker stops its server before the slower one has connected. -/
theorem not_noRefusal :
    ¬ ∀ (peers : Bool → List Bool) (events : List (FdEvent Bool)),
      (run (step peers) start events).NoRefusal peers := by
  intro h
  have hrefused := (h twoPeers (fetch false ++ [.stop false, .acceptTimeout false, .join false] ++
    [.deliver true] ++ List.replicate connectAttempts (.connect true))).refused
  exact absurd hrefused (by decide)

end FdNet

end GpuCr
