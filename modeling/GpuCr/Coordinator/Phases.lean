import GpuCr.Coordinator.Barrier
import GpuCr.Coordinator.Exchange
import GpuCr.Worker.Cycle
import Mathlib.Data.List.OfFn
import Mathlib.Logic.Equiv.Defs

/-!
# A job under the coordinator

The workers of a job with their memory, under `broadcast_and_wait` and `exchange_ipc_export_info` of
`coordinator/multi_cr_client.cpp`. Handlers of different workers run in any order, signals arrive at any time, and a
worker that leaves through `exit` never writes `FINISH_MSG`. Every such run can be read as one in which the broadcasts
are handled one after the other by all workers at once (`PhaseState`): that is what the barrier is for.
-/

namespace GpuCr

open Lib.Run
open PeerState (CrMsg)

/-- What a job is started with. `shmIndex` is the number of a worker's dump file; `req` and `sizeOf` are what the
handlers of the worker find beside the message. -/
structure JobConfig (n : Nat) where
  shmSize : Nat
  pid : Fin n → Int
  shmIndex : Equiv.Perm (Fin n)
  req : Fin n → SelectiveCrRequest
  sizeOf : Fin n → Nat → Nat

namespace JobConfig

variable {n : Nat} (c : JobConfig n)

/-- The handler of worker `w`, with the peer block in its file. -/
def handle (w : Fin n) (peerBlock : List IpcExportShmEntry) (p : Worker) (m : CrMsg) : Except Exit Worker :=
  p.handleMsg c.shmSize ⟨c.req w, c.sizeOf w, peerBlock⟩ m

/-- The `my_block` in the file of `w` after the handler, which has left `proc`: the export branch writes it. -/
def publish (w : Fin n) (m : CrMsg) (proc : Except Exit Worker) (myBlock : List IpcExportShmEntry) :
    List IpcExportShmEntry :=
  match proc with
  | .error _ => myBlock
  | .ok p => if m = .ipcExport then ipcWriteExportInfoToShm (c.pid w) p.ipc.ipc.exports else myBlock

/-- The `peer_block` in the file of `w` after the exchange. -/
def exchange (myBlock : Fin n → List IpcExportShmEntry) (w : Fin n) : List IpcExportShmEntry :=
  exchangeIpcExportInfo (List.ofFn fun i => myBlock (c.shmIndex.symm i)) (c.shmIndex w)

end JobConfig

/-- The phase the innermost handler executes. -/
def BarrierWorker.phase (w : BarrierWorker) : Option CrMsg :=
  match w.stack with
  | ⟨_, .executing phase⟩ :: _ => phase
  | _ => none

/-- The broadcast that returns with the next step of the coordinator. -/
def BarrierState.returning {n : Nat} (s : BarrierState n) : Option CrMsg :=
  match s.todo, s.pc with
  | m :: _, .poll i => if i < n then none else some m
  | _, _ => none

/-! ### The interleaved job -/

/-- `procs` are the processes of the workers, with `error` for one that is gone; the blocks are those in their files. -/
structure JobState (n : Nat) where
  barrier : BarrierState n
  procs : Fin n → Except Exit Worker
  myBlock : Fin n → List IpcExportShmEntry
  peerBlock : Fin n → List IpcExportShmEntry

namespace JobState

variable {n : Nat} (c : JobConfig n)

/-- The exchange follows the broadcast of `IPC_EXPORT_MSG`. -/
def coordinator (s : JobState n) : JobState n :=
  { s with
    barrier := s.barrier.coordinator
    peerBlock := if s.barrier.returning = some .ipcExport then c.exchange s.myBlock else s.peerBlock }

def deliver (s : JobState n) (w : Fin n) (sig : CrSignal) : JobState n :=
  match s.procs w with
  | .error _ => s
  | .ok _ => { s with barrier := s.barrier.step (.deliver w sig) }

/-- A phase takes effect when its handler comes to its end, and a process that exits in it takes no step any more. -/
def handler (s : JobState n) (w : Fin n) : JobState n :=
  match s.procs w with
  | .error _ => s
  | .ok p =>
    match (s.barrier.workers w).phase with
    | none => { s with barrier := s.barrier.step (.handler w) }
    | some m =>
      match c.handle w (s.peerBlock w) p m with
      | .error e => { s with procs := Function.update s.procs w (.error e) }
      | .ok p' =>
        { s with
          barrier := s.barrier.step (.handler w)
          procs := Function.update s.procs w (.ok p')
          myBlock := Function.update s.myBlock w (c.publish w m (.ok p') (s.myBlock w)) }

def step (s : JobState n) : BarrierEvent n → JobState n
  | .coordinator => s.coordinator c
  | .deliver w sig => s.deliver w sig
  | .handler w => s.handler c w

end JobState

/-! ### The job phase by phase -/

structure PhaseState (n : Nat) where
  procs : Fin n → Except Exit Worker
  myBlock : Fin n → List IpcExportShmEntry
  peerBlock : Fin n → List IpcExportShmEntry

namespace PhaseState

variable {n : Nat} (c : JobConfig n)

/-- Every worker handles the message. -/
def handleAll (q : PhaseState n) (m : CrMsg) : PhaseState n :=
  let procs := fun w => q.procs w >>= fun p => c.handle w (q.peerBlock w) p m
  { q with
    procs := procs
    myBlock := fun w => c.publish w m (procs w) (q.myBlock w) }

/-- A broadcast, with the exchange that follows it. -/
def phase (q : PhaseState n) (m : CrMsg) : PhaseState n :=
  let q := q.handleAll c m
  { q with peerBlock := if m = .ipcExport then c.exchange q.myBlock else q.peerBlock }

/-- All workers alive. -/
def Alive (q : PhaseState n) : Prop := ∀ w, ∃ p, q.procs w = .ok p

def start (ws : Fin n → Worker) (myBlock peerBlock : Fin n → List IpcExportShmEntry) : PhaseState n :=
  ⟨fun w => .ok (ws w), myBlock, peerBlock⟩

end PhaseState

/-- The job before the first broadcast, whatever is in its files. -/
def JobState.start {n : Nat} (words : Fin n → Option CrMsg) (broadcasts : List CrMsg) (q : PhaseState n) : JobState n :=
  ⟨.start words broadcasts, q.procs, q.myBlock, q.peerBlock⟩

/-! ### What a step does to the barrier -/

namespace BarrierState

open BarrierWorker

variable {n : Nat} {broadcasts : List CrMsg} {s : BarrierState n}

theorem finished_setWorker (s : BarrierState n) {w : Fin n} {b : BarrierWorker} (h : b.finished = (s.workers w).finished)
    (v : Fin n) : ((s.setWorker w b).workers v).finished = (s.workers v).finished := by
  show (Function.update s.workers w b v).finished = _
  by_cases hv : v = w
  · rw [hv, Function.update_self, h]
  · rw [Function.update_of_ne hv]

theorem finished_deliver (b : BarrierWorker) (sig : CrSignal) : (b.deliver sig).finished = b.finished := by
  unfold BarrierWorker.deliver
  split_ifs <;> rfl

theorem finished_handler {b : BarrierWorker} (h : b.phase = none) : b.handler.finished = b.finished := by
  unfold BarrierWorker.phase at h
  unfold BarrierWorker.handler
  split <;> simp_all

theorem Inv.handler_cases (h : Inv broadcasts s) {w : Fin n} {m : CrMsg} (hphase : (s.workers w).phase = some m) :
    (∃ ms, s.todo = m :: ms) ∧ (s.workers w).finished = s.done ∧ (s.workers w).handler.finished = s.done ++ [m] := by
  obtain ⟨sig, fs, hstack⟩ : ∃ sig fs, (s.workers w).stack = ⟨sig, .executing (some m)⟩ :: fs := by
    unfold BarrierWorker.phase at hphase
    split at hphase
    case h_1 sig phase fs heq => exact ⟨sig, fs, by rw [heq, hphase]⟩
    case h_2 => simp at hphase
  have hquiet : ∀ ms, ¬ Quiet ms (s.workers w) := fun ms hq => by
    have := hq.stack _ (hstack ▸ List.mem_cons_self ..)
    simp at this
  have hhandler : (s.workers w).handler.finished = (s.workers w).finished ++ [m] := by
    unfold BarrierWorker.handler
    simp only [hstack, Option.toList_some]
  cases htodo : s.todo with
  | nil => exact absurd ((h.idle htodo).2 w) (hquiet _)
  | cons m' ms =>
    have hengaged : Engaged s.done m' (s.workers w) := by
      have hstage := h.stage m' ms htodo w
      cases hpc : s.pc with
      | send i =>
        rw [hpc] at hstage
        exact (Nat.lt_or_ge w i).elim hstage.1 fun hi => absurd (hstage.2 hi) (hquiet _)
      | kill i =>
        rw [hpc] at hstage
        exact (Nat.lt_or_ge w i).elim hstage.1 fun hi => absurd (hstage.2.1 hi) (hquiet _)
      | poll i =>
        rw [hpc] at hstage
        exact (Nat.lt_or_ge w i).elim (fun hi => absurd (hstage.1 hi).2 (hquiet _)) hstage.2
    cases hengaged with
    | raised _ _ hall _ _ => exact absurd (hall _ (hstack ▸ List.mem_cons_self ..)) (by simp)
    | entered _ _ fs' hstack' _ _ _ => simp [hstack] at hstack'
    | executing _ _ fs' hstack' _ _ hfinished =>
      obtain rfl : m = m' := by
        rw [hstack] at hstack'
        simpa using congrArg HandlerFrame.pc (List.cons.inj hstack').1
      exact ⟨⟨ms, rfl⟩, hfinished, by rw [hhandler, hfinished]⟩
    | done _ hq => exact absurd hq (hquiet _)

theorem Inv.coordinator_cases (h : Inv broadcasts s) :
    (s.returning = none ∧ s.coordinator.done = s.done ∧ s.coordinator.todo = s.todo ∧
      ∀ w, (s.coordinator.workers w).finished = (s.workers w).finished) ∨
    ∃ m ms, s.todo = m :: ms ∧ s.returning = some m ∧ s.coordinator = ⟨s.workers, s.done ++ [m], ms, .send 0⟩ ∧
      ∀ w, (s.workers w).finished = s.done ++ [m] := by
  obtain ⟨workers, done, todo, pc⟩ := s
  cases todo with
  | nil => exact Or.inl ⟨rfl, rfl, rfl, fun _ => rfl⟩
  | cons m ms =>
    cases pc with
    | send i =>
      left
      unfold BarrierState.coordinator
      dsimp only
      split_ifs with hi
      · exact ⟨rfl, rfl, rfl, finished_setWorker ⟨workers, done, m :: ms, .send i⟩ rfl⟩
      · exact ⟨rfl, rfl, rfl, fun _ => rfl⟩
    | kill i =>
      left
      unfold BarrierState.coordinator
      dsimp only
      split_ifs with hi
      · refine ⟨rfl, rfl, rfl, finished_setWorker ⟨workers, done, m :: ms, .kill i⟩ ?_⟩
        unfold BarrierWorker.kill
        split_ifs <;> rfl
      · exact ⟨rfl, rfl, rfl, fun _ => rfl⟩
    | poll i =>
      unfold BarrierState.coordinator returning
      dsimp only
      split_ifs with hi hword
      · exact Or.inl ⟨rfl, rfl, rfl, fun _ => rfl⟩
      · exact Or.inl ⟨rfl, rfl, rfl, fun _ => rfl⟩
      · refine Or.inr ⟨m, ms, rfl, rfl, rfl, fun w => ?_⟩
        exact ((h.stage m ms rfl w).1 (by show w.val < i; omega)).2.finished

end BarrierState

/-! ### An interleaved job follows the phases -/

/-- A worker during the broadcast of `m`, with the state `q` of the job before it: it has not come to the end of the
message, it has left in it, or it is through. -/
inductive PhaseState.Between {n : Nat} (c : JobConfig n) (q : PhaseState n) (m : CrMsg) (done : List CrMsg) (w : Fin n)
    (finished : List CrMsg) (proc : Except Exit Worker) (myBlock : List IpcExportShmEntry) : Prop where
  | before (finished_eq : finished = done) (proc_eq : proc = q.procs w) (block_eq : myBlock = q.myBlock w)
  | gone (finished_eq : finished = done) (e : Exit) (proc_eq : proc = .error e)
      (phase_eq : (q.handleAll c m).procs w = .error e)
  | through (finished_eq : finished = done ++ [m]) (p : Worker) (proc_eq : proc = .ok p)
      (phase_eq : (q.handleAll c m).procs w = .ok p) (block_eq : myBlock = (q.handleAll c m).myBlock w)

namespace JobState

variable {n : Nat} {c : JobConfig n} {broadcasts : List CrMsg} {q₀ : PhaseState n} {s : JobState n}

/-- The job after the broadcasts that have returned. -/
def returned (c : JobConfig n) (q₀ : PhaseState n) (s : JobState n) : PhaseState n :=
  run (PhaseState.phase c) q₀ s.barrier.done

structure Follows (c : JobConfig n) (broadcasts : List CrMsg) (q₀ : PhaseState n) (s : JobState n) : Prop where
  barrier : BarrierState.Inv broadcasts s.barrier
  alive : (s.returned c q₀).Alive
  peerBlock : s.peerBlock = (s.returned c q₀).peerBlock
  idle : s.barrier.todo = [] → ∀ w, s.procs w = (s.returned c q₀).procs w ∧ s.myBlock w = (s.returned c q₀).myBlock w
  current : ∀ m ms, s.barrier.todo = m :: ms → ∀ w, (s.returned c q₀).Between c m s.barrier.done w
    (s.barrier.workers w).finished (s.procs w) (s.myBlock w)

theorem Follows.of_barrier (h : Follows c broadcasts q₀ s) {b : BarrierState n} (hb : BarrierState.Inv broadcasts b)
    (hdone : b.done = s.barrier.done) (htodo : b.todo = s.barrier.todo)
    (hfinished : ∀ w, (b.workers w).finished = (s.barrier.workers w).finished) :
    Follows c broadcasts q₀ { s with barrier := b } := by
  have hreturned : ({ s with barrier := b } : JobState n).returned c q₀ = s.returned c q₀ := by
    unfold returned
    rw [hdone]
  refine ⟨hb, hreturned ▸ h.alive, hreturned ▸ h.peerBlock, ?_, fun m ms hm w => ?_⟩
  · rw [hreturned]
    exact fun hm => h.idle (htodo ▸ hm)
  · show PhaseState.Between c _ m b.done w (b.workers w).finished _ _
    rw [hreturned, hdone, hfinished]
    exact h.current m ms (htodo ▸ hm) w

theorem Follows.deliver (h : Follows c broadcasts q₀ s) (w : Fin n) (sig : CrSignal) :
    Follows c broadcasts q₀ (s.deliver w sig) := by
  unfold JobState.deliver
  cases s.procs w with
  | error e => exact h
  | ok p =>
    exact h.of_barrier (h.barrier.step (.deliver w sig)) rfl rfl
      (BarrierState.finished_setWorker s.barrier (BarrierState.finished_deliver _ sig))

/-- A broadcast returns in the state its phase leaves, and the exchange reads what was published in it. -/
theorem Follows.coordinator (h : Follows c broadcasts q₀ s) : Follows c broadcasts q₀ (s.coordinator c) := by
  have hinv := h.barrier.coordinator
  rcases h.barrier.coordinator_cases with ⟨hreturning, hdone, htodo, hfinished⟩ | ⟨m, ms, htodo, hreturning, hcoord, hall⟩
  · have hsame : s.coordinator c = { s with barrier := s.barrier.coordinator } := by
      unfold JobState.coordinator
      rw [hreturning, if_neg (by simp)]
    rw [hsame]
    exact h.of_barrier hinv hdone htodo hfinished
  · have hthrough : ∀ w, ∃ p, s.procs w = .ok p ∧ ((s.returned c q₀).handleAll c m).procs w = .ok p ∧
        s.myBlock w = ((s.returned c q₀).handleAll c m).myBlock w := by
      intro w
      cases h.current m ms htodo w with
      | before heq _ _ => simp [hall w] at heq
      | gone heq _ _ _ => simp [hall w] at heq
      | through _ p hproc hphase hblock => exact ⟨p, hproc, hphase, hblock⟩
    have hreturned : (s.coordinator c).returned c q₀ = (s.returned c q₀).phase c m := by
      unfold returned JobState.coordinator
      rw [hcoord]
      exact List.foldl_append ..
    have hblocks : s.myBlock = ((s.returned c q₀).handleAll c m).myBlock := by
      funext w
      obtain ⟨_, _, _, hblock⟩ := hthrough w
      exact hblock
    have hbarrier : (s.coordinator c).barrier = ⟨s.barrier.workers, s.barrier.done ++ [m], ms, .send 0⟩ := hcoord
    refine ⟨hinv, ?_, ?_, fun _ w => ?_, fun m' ms' _ w => ?_⟩
    · rw [hreturned]
      exact fun w => (hthrough w).imp fun p hp => hp.2.1
    · rw [hreturned]
      show (if _ then c.exchange s.myBlock else s.peerBlock) = if _ then c.exchange _ else _
      rw [hreturning, hblocks, h.peerBlock]
      simp only [Option.some.injEq]
      rfl
    · obtain ⟨p, hproc, hphase, hblock⟩ := hthrough w
      rw [hreturned]
      exact ⟨hproc.trans hphase.symm, hblock⟩
    · obtain ⟨p, hproc, hphase, hblock⟩ := hthrough w
      rw [hreturned, hbarrier]
      exact .before (hall w) (hproc.trans hphase.symm) hblock

theorem Follows.of_worker (h : Follows c broadcasts q₀ s) {m : CrMsg} {ms : List CrMsg} (htodo : s.barrier.todo = m :: ms)
    {w : Fin n} {b : BarrierWorker} (hb : BarrierState.Inv broadcasts (s.barrier.setWorker w b)) {proc : Except Exit Worker}
    {myBlock : List IpcExportShmEntry}
    (hbetween : (s.returned c q₀).Between c m s.barrier.done w b.finished proc myBlock) :
    Follows c broadcasts q₀
      ⟨s.barrier.setWorker w b, Function.update s.procs w proc, Function.update s.myBlock w myBlock, s.peerBlock⟩ := by
  refine ⟨hb, h.alive, h.peerBlock, fun hidle => ?_, fun m' ms' hm v => ?_⟩
  · exact absurd (htodo.symm.trans hidle) (by simp)
  · obtain ⟨rfl, -⟩ := List.cons.inj (htodo.symm.trans hm)
    show PhaseState.Between c _ m s.barrier.done v (Function.update s.barrier.workers w b v).finished _ _
    by_cases hv : v = w
    · subst hv
      simp only [Function.update_self]
      exact hbetween
    · simp only [Function.update_of_ne hv]
      exact h.current m ms htodo v

theorem Follows.handler (h : Follows c broadcasts q₀ s) (w : Fin n) : Follows c broadcasts q₀ (s.handler c w) := by
  have hinv := h.barrier.step (.handler w)
  unfold JobState.handler
  cases hproc : s.procs w with
  | error e => exact h
  | ok p =>
    cases hphase : (s.barrier.workers w).phase with
    | none =>
      exact h.of_barrier hinv rfl rfl (BarrierState.finished_setWorker s.barrier (BarrierState.finished_handler hphase))
    | some m =>
      obtain ⟨⟨ms, htodo⟩, hfinished, hended⟩ := h.barrier.handler_cases hphase
      have hq : s.procs w = (s.returned c q₀).procs w ∧ s.myBlock w = (s.returned c q₀).myBlock w := by
        cases h.current m ms htodo w with
        | before _ hproc hblock => exact ⟨hproc, hblock⟩
        | gone _ e hgone _ => simp [hproc] at hgone
        | through heq _ _ _ _ => simp [hfinished] at heq
      have hall : ((s.returned c q₀).handleAll c m).procs w = c.handle w (s.peerBlock w) p m := by
        show (s.returned c q₀).procs w >>= _ = _
        rw [← hq.1, hproc, h.peerBlock]
        rfl
      dsimp only
      cases hhandle : c.handle w (s.peerBlock w) p m with
      | error e =>
        have hsame : s.barrier.setWorker w (s.barrier.workers w) = s.barrier := by
          unfold BarrierState.setWorker
          rw [Function.update_eq_self]
        have hgone := h.of_worker htodo (hsame.symm ▸ h.barrier)
          (.gone hfinished e rfl (hall.trans hhandle) : PhaseState.Between c _ m _ w _ _ (s.myBlock w))
        rw [hsame, Function.update_eq_self] at hgone
        exact hgone
      | ok p' =>
        refine h.of_worker htodo hinv (.through hended p' rfl (hall.trans hhandle) ?_)
        have hblock : ((s.returned c q₀).handleAll c m).myBlock w =
            c.publish w m (((s.returned c q₀).handleAll c m).procs w) ((s.returned c q₀).myBlock w) := rfl
        rw [hblock, hall, hhandle, hq.2]

theorem Follows.step (h : Follows c broadcasts q₀ s) (e : BarrierEvent n) : Follows c broadcasts q₀ (s.step c e) := by
  cases e with
  | coordinator => exact h.coordinator
  | deliver w sig => exact h.deliver w sig
  | handler w => exact h.handler w

theorem Follows.run (h : Follows c broadcasts q₀ s) (events : List (BarrierEvent n)) :
    Follows c broadcasts q₀ (Lib.Run.run (JobState.step c) s events) := by
  induction events generalizing s with
  | nil => exact h
  | cons e events ih => exact ih (h.step e)

theorem follows_start (words : Fin n → Option CrMsg) (hq : q₀.Alive) :
    Follows c broadcasts q₀ (start words broadcasts q₀) :=
  ⟨BarrierState.inv_start words broadcasts, hq, rfl, fun _ _ => ⟨rfl, rfl⟩, fun _ _ _ _ => .before rfl rfl rfl⟩

theorem Follows.returned_of_idle (h : Follows c broadcasts q₀ s) (hidle : s.barrier.todo = []) :
    s.returned c q₀ = Lib.Run.run (PhaseState.phase c) q₀ broadcasts := by
  have horder := h.barrier.order
  rw [hidle, List.append_nil] at horder
  rw [returned, horder]

end JobState

/-! ### A job that no worker leaves -/

namespace PhaseState

variable {n : Nat} {c : JobConfig n} {q : PhaseState n}

theorem Alive.of_phase {m : CrMsg} (h : (q.phase c m).Alive) : q.Alive := by
  intro w
  obtain ⟨p, hp⟩ := h w
  obtain ⟨p', hp', -⟩ := bind_eq_ok.1 (hp : q.procs w >>= _ = .ok p)
  exact ⟨p', hp'⟩

theorem Alive.of_run {ms : List CrMsg} (h : (run (phase c) q ms).Alive) : q.Alive := by
  induction ms generalizing q with
  | nil => exact h
  | cons m ms ih => exact (ih h).of_phase

theorem procs_run {ms : List CrMsg} (hms : .ipcImport ∉ ms) (w : Fin n) (block : List IpcExportShmEntry) :
    (run (phase c) q ms).procs w = q.procs w >>= fun p => ms.foldlM (c.handle w block) p := by
  induction ms generalizing q with
  | nil => exact (bind_pure (q.procs w)).symm
  | cons m ms ih =>
    obtain ⟨hm, hms⟩ := not_or.1 (List.mem_cons.not.1 hms)
    have hhandle : ∀ p, c.handle w (q.peerBlock w) p m = c.handle w block p m := by
      intro p
      cases m <;> first | rfl | exact absurd rfl hm
    have hstep : (q.phase c m).procs w = q.procs w >>= fun p => c.handle w block p m := by
      show q.procs w >>= _ = _
      simp only [hhandle]
    show (run (phase c) (q.phase c m) ms).procs w = _
    rw [ih hms, hstep, bind_assoc]
    rfl

end PhaseState

namespace JobState

variable {n : Nat} {c : JobConfig n} {broadcasts : List CrMsg} {q₀ : PhaseState n} {s : JobState n}

theorem Follows.alive_phase (h : Follows c broadcasts q₀ s) (hall : (Lib.Run.run (PhaseState.phase c) q₀ broadcasts).Alive)
    {m : CrMsg} {ms : List CrMsg} (htodo : s.barrier.todo = m :: ms) : ((s.returned c q₀).phase c m).Alive := by
  have horder := h.barrier.order
  rw [htodo] at horder
  have hrun : Lib.Run.run (PhaseState.phase c) q₀ broadcasts =
      Lib.Run.run (PhaseState.phase c) ((s.returned c q₀).phase c m) ms := by
    rw [← horder]
    exact List.foldl_append ..
  rw [hrun] at hall
  exact hall.of_run

theorem Follows.procs_ok (h : Follows c broadcasts q₀ s) (hall : (Lib.Run.run (PhaseState.phase c) q₀ broadcasts).Alive)
    (w : Fin n) : ∃ p, s.procs w = .ok p := by
  obtain ⟨p, hp⟩ := h.alive w
  cases htodo : s.barrier.todo with
  | nil => exact ⟨p, ((h.idle htodo w).1).trans hp⟩
  | cons m ms =>
    cases h.current m ms htodo w with
    | before _ hproc _ => exact ⟨p, hproc.trans hp⟩
    | gone _ e _ hphase =>
      obtain ⟨p', hp'⟩ := h.alive_phase hall htodo w
      exact absurd (hp'.symm.trans hphase) (by simp)
    | through _ p hproc _ _ => exact ⟨p, hproc⟩

theorem Follows.barrier_step (h : Follows c broadcasts q₀ s)
    (hall : (Lib.Run.run (PhaseState.phase c) q₀ broadcasts).Alive) (e : BarrierEvent n) :
    (s.step c e).barrier = s.barrier.step e := by
  cases e with
  | coordinator => rfl
  | deliver w sig =>
    obtain ⟨p, hp⟩ := h.procs_ok hall w
    show (s.deliver w sig).barrier = _
    unfold JobState.deliver
    rw [hp]
  | handler w =>
    have hnext := (h.handler w).procs_ok hall w
    show (s.handler c w).barrier = _
    obtain ⟨p, hp⟩ := h.procs_ok hall w
    unfold JobState.handler at hnext ⊢
    rw [hp] at hnext ⊢
    dsimp only at hnext ⊢
    cases hphase : (s.barrier.workers w).phase with
    | none => rfl
    | some m =>
      rw [hphase] at hnext
      dsimp only at hnext ⊢
      cases hhandle : c.handle w (s.peerBlock w) p m with
      | ok p' => rfl
      | error e => simp [hhandle] at hnext

theorem Follows.barrier_run (h : Follows c broadcasts q₀ s)
    (hall : (Lib.Run.run (PhaseState.phase c) q₀ broadcasts).Alive) (events : List (BarrierEvent n)) :
    (Lib.Run.run (JobState.step c) s events).barrier = Lib.Run.run BarrierState.step s.barrier events := by
  induction events generalizing s with
  | nil => rfl
  | cons e events ih =>
    show (Lib.Run.run (JobState.step c) (s.step c e) events).barrier =
      Lib.Run.run BarrierState.step (s.barrier.step e) events
    rw [ih (h.step e), h.barrier_step hall e]

end JobState

/-! ### A checkpoint and a restore of a job -/

namespace PhaseState

variable {n : Nat} {c : JobConfig n}

/-- What `do_checkpoint` and `do_restore` broadcast up to the exchange. -/
def beforeExchange : List CrMsg := PeerState.doCheckpoint false ++ [.restore, .ipcExport]

/-- Each worker goes through a cycle of its own; what it finds in its peer block is what the exchange has left there. -/
theorem procs_cycle (q : PhaseState n) (skipNccl : Bool) (w : Fin n) : ∃ block,
    (run (phase c) q (PeerState.doCheckpoint skipNccl ++ PeerState.doRestore skipNccl)).procs w =
      q.procs w >>= Worker.cycle c.shmSize ⟨c.req w, c.sizeOf w, block⟩ skipNccl := by
  cases skipNccl with
  | true => exact ⟨[], procs_run (by decide) w []⟩
  | false =>
    refine ⟨(run (phase c) q beforeExchange).peerBlock w, ?_⟩
    have hsplit : PeerState.doCheckpoint false ++ PeerState.doRestore false = beforeExchange ++ [.ipcImport] := rfl
    have hlast : (run (phase c) q (beforeExchange ++ [.ipcImport])).procs w =
        (run (phase c) q beforeExchange).procs w >>= fun p =>
          c.handle w ((run (phase c) q beforeExchange).peerBlock w) p .ipcImport := by
      rw [Lib.Run.run, List.foldl_append]
      rfl
    unfold Worker.cycle
    rw [hsplit, hlast, procs_run (by decide) w ((run (phase c) q beforeExchange).peerBlock w), bind_assoc]
    simp only [List.foldlM_append, List.foldlM_cons, List.foldlM_nil, bind_pure]
    rfl

theorem sameMemory_cycle {ws : Fin n → Worker} (hready : ∀ w, (ws w).Ready c.shmSize)
    (myBlock peerBlock : Fin n → List IpcExportShmEntry) (skipNccl : Bool) (w : Fin n) :
    ∃ p, (run (phase c) (start ws myBlock peerBlock) (PeerState.doCheckpoint skipNccl ++ PeerState.doRestore skipNccl)).procs w =
      .ok p ∧ (ws w).SameMemory p := by
  obtain ⟨block, hblock⟩ := procs_cycle (c := c) (start ws myBlock peerBlock) skipNccl w
  have hcycle : ∃ p, (ws w).cycle c.shmSize ⟨c.req w, c.sizeOf w, block⟩ skipNccl = .ok p ∧ (ws w).SameMemory p := by
    cases skipNccl with
    | true => exact (hready w).cycle_plain _
    | false => exact (hready w).cycle_ipc _
  exact hcycle.imp fun p hp => ⟨hblock.trans hp.1, hp.2⟩

end PhaseState

namespace JobState

variable {n : Nat} {c : JobConfig n}

/-- **The barrier makes a job sequential.** However the handlers of the workers, the signals and the coordinator
interleave, when the last broadcast has returned every worker is alive, and the workers and the blocks in their files are
what the broadcasts leave when all workers handle them one after the other. -/
theorem phases_of_run (c : JobConfig n) (words : Fin n → Option CrMsg) (broadcasts : List CrMsg) (q₀ : PhaseState n)
    (hq : q₀.Alive) (events : List (BarrierEvent n))
    (hreturned : (Lib.Run.run (step c) (start words broadcasts q₀) events).barrier.todo = []) :
    let s := Lib.Run.run (step c) (start words broadcasts q₀) events
    let q := Lib.Run.run (PhaseState.phase c) q₀ broadcasts
    q.Alive ∧ (∀ w, s.procs w = q.procs w ∧ s.myBlock w = q.myBlock w) ∧ s.peerBlock = q.peerBlock := by
  have hstart : Follows c broadcasts q₀ (start words broadcasts q₀) := follows_start words hq
  have h := hstart.run events
  revert hreturned h
  generalize Lib.Run.run (step c) (start words broadcasts q₀) events = s
  intro hreturned h
  dsimp only
  rw [← h.returned_of_idle hreturned]
  exact ⟨h.alive, h.idle hreturned, h.peerBlock⟩

def twoWorkers : JobConfig 2 :=
  ⟨shmSizeDefault, fun w => w.val, Equiv.swap 0 1, fun _ => ⟨[], Nat.zero_le _⟩, fun _ _ => 8⟩

/-- A broadcast in which the worker that is signalled last is first to be through. The handlers of the broadcast before
it return only after the signals have been raised. -/
def round (m : CrMsg) : List (BarrierEvent 2) :=
  List.replicate 5 .coordinator ++
    [.handler 1, .handler 0, .deliver 1 (signalOf m), .handler 1, .deliver 0 (signalOf m), .handler 1, .handler 0,
      .handler 0] ++
    List.replicate 3 .coordinator

def twins : Fin 2 → Worker := fun _ => Worker.oneOfEach

def twoStart : PhaseState 2 := .start twins (fun _ => []) (fun _ => [])

/-- `-c` and then `-r`. -/
def cycleMsgs : List CrMsg := PeerState.doCheckpoint false ++ PeerState.doRestore false

def twoRun : JobState 2 :=
  Lib.Run.run (step twoWorkers) (start (fun _ => none) cycleMsgs twoStart) (cycleMsgs.flatMap round)

theorem ready_two (w : Fin 2) : (twins w).Ready twoWorkers.shmSize := Worker.oneOfEach_ready

theorem alive_two : (Lib.Run.run (PhaseState.phase twoWorkers) twoStart cycleMsgs).Alive := fun w =>
  (PhaseState.sameMemory_cycle ready_two (fun _ => []) (fun _ => []) false w).imp fun _ hp => hp.1

theorem returned_two : twoRun.barrier.todo = [] := by
  have hstart : Follows twoWorkers cycleMsgs twoStart (start (fun _ => none) cycleMsgs twoStart) :=
    follows_start _ fun _ => ⟨_, rfl⟩
  show (Lib.Run.run (step twoWorkers) _ (cycleMsgs.flatMap round)).barrier.todo = []
  rw [hstart.barrier_run alive_two]
  decide +kernel

theorem phases_two : ∃ p, twoRun.procs 0 = .ok p ∧
    (Lib.Run.run (PhaseState.phase twoWorkers) twoStart cycleMsgs).procs 0 = .ok p := by
  obtain ⟨halive, hsame, -⟩ := phases_of_run twoWorkers (fun _ => none) cycleMsgs twoStart (fun _ => ⟨_, rfl⟩)
    (cycleMsgs.flatMap round) returned_two
  exact (halive 0).imp fun p hp => ⟨(hsame 0).1.trans hp, hp⟩

end JobState

end GpuCr
