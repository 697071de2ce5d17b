import GpuCr.Lib.Run
import GpuCr.Ipc.Peer
import Mathlib.Algebra.BigOperators.Fin
import Mathlib.Algebra.BigOperators.Intervals
import Mathlib.Logic.Function.Basic

/-!
# The barrier of the coordinator

`broadcast_and_wait` of `coordinator/multi_cr_client.cpp` against the signal handlers of the workers. A worker
shares one word with the coordinator (`ShareMemComm`): the coordinator writes a message there and raises a
signal, the handler reads it, executes the phase and writes `FINISH_MSG`, and the coordinator polls for that.

Signals are delivered at any later time. A handler is interrupted by any signal but its own, so the frames of
a worker are a stack; what is left of a handler after it has written `FINISH_MSG` may still be on it when the
next message comes. The invariant says for every worker how far it is with the current message (`Engaged`),
depending on where the coordinator is in its two loops.
-/

namespace GpuCr

open Lib.Run
open PeerState (CrMsg)

/-- The signals of `src/common.h`. -/
inductive CrSignal where
  | init
  | ckpt
  | restore
  | ipcTeardown
  | ipcRebuild
  deriving DecidableEq, Repr

/-- `SIGUSR1` and `SIGUSR2` are not queued, the others are real-time signals. -/
def CrSignal.realtime : CrSignal → Bool
  | .ckpt => false
  | .restore => false
  | _ => true

/-- The signal that goes with a message. -/
def signalOf : CrMsg → CrSignal
  | .init => .init
  | .ckpt => .ckpt
  | .selectiveCkpt => .ckpt
  | .restore => .restore
  | .selectiveRestore => .restore
  | .ipcTeardown => .ipcTeardown
  | .ipcExport => .ipcRebuild
  | .ipcImport => .ipcRebuild

/-- The phase a handler executes. `cr_signal_handler` goes by the signal for `CR_INIT_SIGNAL` and by the word
otherwise; each handler passes over the messages of the other. `none` in the word is `FINISH_MSG`. -/
def phaseOf : CrSignal → Option CrMsg → Option CrMsg
  | .init, _ => some .init
  | .ckpt, word => word.filter fun m => m = .ckpt ∨ m = .restore ∨ m = .selectiveCkpt ∨ m = .selectiveRestore
  | .restore, word => word.filter fun m => m = .ckpt ∨ m = .restore ∨ m = .selectiveCkpt ∨ m = .selectiveRestore
  | .ipcTeardown, word => word.filter fun m => m = .ipcTeardown ∨ m = .ipcExport ∨ m = .ipcImport
  | .ipcRebuild, word => word.filter fun m => m = .ipcTeardown ∨ m = .ipcExport ∨ m = .ipcImport

theorem phaseOf_signalOf (m : CrMsg) : phaseOf (signalOf m) (some m) = some m := by
  cases m <;> rfl

inductive HandlerPc where
  | entered
  | executing (phase : Option CrMsg)
  | finished
  deriving DecidableEq, Repr

structure HandlerFrame where
  sig : CrSignal
  pc : HandlerPc
  deriving DecidableEq, Repr

/-- `started` and `finished` are the phases the worker has begun and ended. No code reads them. -/
structure BarrierWorker where
  word : Option CrMsg
  pending : List CrSignal
  stack : List HandlerFrame
  started : List CrMsg
  finished : List CrMsg

namespace BarrierWorker

/-- `send_msg` of the coordinator. -/
def sendMsg (w : BarrierWorker) (m : CrMsg) : BarrierWorker := { w with word := some m }

/-- `kill` -/
def kill (w : BarrierWorker) (sig : CrSignal) : BarrierWorker :=
  if sig ∈ w.pending ∧ sig.realtime = false then w else { w with pending := w.pending ++ [sig] }

/-- A pending signal is delivered unless its handler is still on the stack. -/
def deliver (w : BarrierWorker) (sig : CrSignal) : BarrierWorker :=
  if sig ∈ w.pending ∧ ∀ f ∈ w.stack, f.sig ≠ sig then
    { w with pending := w.pending.erase sig, stack := ⟨sig, .entered⟩ :: w.stack }
  else w

/-- The innermost handler takes a step: it reads the word, ends the phase with `FINISH_MSG`, or returns. -/
def handler (w : BarrierWorker) : BarrierWorker :=
  match w.stack with
  | [] => w
  | ⟨sig, .entered⟩ :: fs =>
    { w with
      stack := ⟨sig, .executing (phaseOf sig w.word)⟩ :: fs
      started := w.started ++ (phaseOf sig w.word).toList }
  | ⟨sig, .executing phase⟩ :: fs =>
    { w with word := none, stack := ⟨sig, .finished⟩ :: fs, finished := w.finished ++ phase.toList }
  | ⟨_, .finished⟩ :: fs => { w with stack := fs }

end BarrierWorker

/-- Where `broadcast_and_wait` is: about to write the word of a worker, to raise its signal, or to poll it. -/
inductive CoordPc where
  | send (i : Nat)
  | kill (i : Nat)
  | poll (i : Nat)
  deriving DecidableEq, Repr

/-- `done` are the broadcasts that have returned, `todo` the current one and those to come. -/
structure BarrierState (n : Nat) where
  workers : Fin n → BarrierWorker
  done : List CrMsg
  todo : List CrMsg
  pc : CoordPc

inductive BarrierEvent (n : Nat) where
  | coordinator
  | deliver (w : Fin n) (sig : CrSignal)
  | handler (w : Fin n)

namespace BarrierState

variable {n : Nat}

def setWorker (s : BarrierState n) (w : Fin n) (b : BarrierWorker) : BarrierState n :=
  { s with workers := Function.update s.workers w b }

/-- A step of the coordinator. A poll that does not find `FINISH_MSG` is repeated. -/
def coordinator (s : BarrierState n) : BarrierState n :=
  match s.todo with
  | [] => s
  | m :: ms =>
    match s.pc with
    | .send i =>
      if h : i < n then { s.setWorker ⟨i, h⟩ ((s.workers ⟨i, h⟩).sendMsg m) with pc := .kill i }
      else { s with pc := .poll 0 }
    | .kill i =>
      if h : i < n then { s.setWorker ⟨i, h⟩ ((s.workers ⟨i, h⟩).kill (signalOf m)) with pc := .send (i + 1) }
      else s
    | .poll i =>
      if h : i < n then
        if (s.workers ⟨i, h⟩).word = none then { s with pc := .poll (i + 1) } else s
      else { s with done := s.done ++ [m], todo := ms, pc := .send 0 }

def step (s : BarrierState n) : BarrierEvent n → BarrierState n
  | .coordinator => s.coordinator
  | .deliver w sig => s.setWorker w ((s.workers w).deliver sig)
  | .handler w => s.setWorker w (s.workers w).handler

/-- Idle workers, whatever is in their words. -/
def start (words : Fin n → Option CrMsg) (broadcasts : List CrMsg) : BarrierState n :=
  ⟨fun w => ⟨words w, [], [], [], []⟩, [], broadcasts, .send 0⟩

end BarrierState

/-! ### One worker -/

namespace BarrierWorker

/-- The worker is through with `ms` and nothing else is on its way. -/
structure Quiet (ms : List CrMsg) (w : BarrierWorker) : Prop where
  pending : w.pending = []
  stack : ∀ f ∈ w.stack, f.pc = .finished
  started : w.started = ms
  finished : w.finished = ms

/-- How far a worker is with `m`, which it has been sent after it was through with `ms`. -/
inductive Engaged (ms : List CrMsg) (m : CrMsg) (w : BarrierWorker) : Prop where
  | raised (word : w.word = some m) (pending : w.pending = [signalOf m]) (stack : ∀ f ∈ w.stack, f.pc = .finished)
      (started : w.started = ms) (finished : w.finished = ms)
  | entered (word : w.word = some m) (pending : w.pending = []) (fs : List HandlerFrame)
      (stack : w.stack = ⟨signalOf m, .entered⟩ :: fs) (tail : ∀ f ∈ fs, f.pc = .finished)
      (started : w.started = ms) (finished : w.finished = ms)
  | executing (word : w.word = some m) (pending : w.pending = []) (fs : List HandlerFrame)
      (stack : w.stack = ⟨signalOf m, .executing (some m)⟩ :: fs) (tail : ∀ f ∈ fs, f.pc = .finished)
      (started : w.started = ms ++ [m]) (finished : w.finished = ms)
  | done (word : w.word = none) (quiet : Quiet (ms ++ [m]) w)

section Worker
variable {w : BarrierWorker} {ms : List CrMsg} {m : CrMsg}

theorem deliver_of_pending_nil (h : w.pending = []) (sig : CrSignal) : w.deliver sig = w := by
  unfold deliver
  rw [if_neg]
  rintro ⟨hmem, -⟩
  rw [h] at hmem
  exact absurd hmem List.not_mem_nil

theorem Quiet.handler (h : Quiet ms w) : Quiet ms w.handler ∧ w.handler.word = w.word := by
  unfold BarrierWorker.handler
  split
  case h_1 => exact ⟨h, rfl⟩
  case h_2 sig fs heq => exact absurd (h.stack _ (heq ▸ List.mem_cons_self ..)) (by simp)
  case h_3 sig phase fs heq => exact absurd (h.stack _ (heq ▸ List.mem_cons_self ..)) (by simp)
  case h_4 sig fs heq =>
    exact ⟨⟨h.pending, fun f hf => h.stack f (heq ▸ List.mem_cons_of_mem _ hf), h.started, h.finished⟩, rfl⟩

theorem Engaged.deliver (h : Engaged ms m w) (sig : CrSignal) : Engaged ms m (w.deliver sig) := by
  cases h with
  | raised hword hpending hstack hstarted hfinished =>
    unfold BarrierWorker.deliver
    split_ifs with hcan
    · obtain ⟨hmem, -⟩ := hcan
      rw [hpending] at hmem
      obtain rfl := List.mem_singleton.1 hmem
      refine .entered hword ?_ w.stack rfl hstack hstarted hfinished
      simp [hpending]
    · exact .raised hword hpending hstack hstarted hfinished
  | entered hword hpending fs hstack htail hstarted hfinished =>
    rw [deliver_of_pending_nil hpending]
    exact .entered hword hpending fs hstack htail hstarted hfinished
  | executing hword hpending fs hstack htail hstarted hfinished =>
    rw [deliver_of_pending_nil hpending]
    exact .executing hword hpending fs hstack htail hstarted hfinished
  | done hword hquiet =>
    rw [deliver_of_pending_nil hquiet.pending]
    exact .done hword hquiet

theorem Engaged.handler (h : Engaged ms m w) : Engaged ms m w.handler := by
  cases h with
  | raised hword hpending hstack hstarted hfinished =>
    unfold BarrierWorker.handler
    split
    case h_1 => exact .raised hword hpending hstack hstarted hfinished
    case h_2 sig fs heq => exact absurd (hstack _ (heq ▸ List.mem_cons_self ..)) (by simp)
    case h_3 sig phase fs heq => exact absurd (hstack _ (heq ▸ List.mem_cons_self ..)) (by simp)
    case h_4 sig fs heq =>
      exact .raised hword hpending (fun f hf => hstack f (heq ▸ List.mem_cons_of_mem _ hf)) hstarted hfinished
  | entered hword hpending fs hstack htail hstarted hfinished =>
    have heq : w.handler = { w with
        stack := ⟨signalOf m, .executing (some m)⟩ :: fs
        started := w.started ++ [m] } := by
      unfold BarrierWorker.handler
      rw [hstack]
      simp only [hword, phaseOf_signalOf, Option.toList_some]
    rw [heq]
    exact .executing hword hpending fs rfl htail (by simp [hstarted]) hfinished
  | executing hword hpending fs hstack htail hstarted hfinished =>
    have heq : w.handler = { w with
        word := none
        stack := ⟨signalOf m, .finished⟩ :: fs
        finished := w.finished ++ [m] } := by
      unfold BarrierWorker.handler
      rw [hstack]
      simp only [Option.toList_some]
    rw [heq]
    refine .done rfl ⟨hpending, ?_, hstarted, by simp [hfinished]⟩
    exact List.forall_mem_cons.2 ⟨rfl, htail⟩
  | done hword hquiet => exact .done (hquiet.handler.2.trans hword) hquiet.handler.1

theorem Engaged.quiet_of_word (h : Engaged ms m w) (hword : w.word = none) : Quiet (ms ++ [m]) w := by
  cases h with
  | raised hsome _ _ _ _ => exact absurd (hword.symm.trans hsome) (by simp)
  | entered hsome _ _ _ _ _ _ => exact absurd (hword.symm.trans hsome) (by simp)
  | executing hsome _ _ _ _ _ _ => exact absurd (hword.symm.trans hsome) (by simp)
  | done _ hquiet => exact hquiet

theorem Engaged.phases (h : Engaged ms m w) :
    (w.started = ms ∨ w.started = ms ++ [m]) ∧ (w.finished = ms ∨ w.finished = w.started) ∧ ms <+: w.started := by
  cases h with
  | raised _ _ _ hs hf => exact ⟨Or.inl hs, Or.inl hf, hs ▸ List.prefix_rfl⟩
  | entered _ _ _ _ _ hs hf => exact ⟨Or.inl hs, Or.inl hf, hs ▸ List.prefix_rfl⟩
  | executing _ _ _ _ _ hs hf => exact ⟨Or.inr hs, Or.inl hf, hs ▸ List.prefix_append ..⟩
  | done _ hq => exact ⟨Or.inr hq.started, Or.inr (hq.finished.trans hq.started.symm), hq.started ▸ List.prefix_append ..⟩

end Worker

end BarrierWorker

/-! ### The invariant -/

namespace BarrierState

open BarrierWorker

variable {n : Nat}

/-- Where worker `i` is with the current message `m`, by the place of the coordinator. -/
def Stage (ms : List CrMsg) (m : CrMsg) : CoordPc → Nat → BarrierWorker → Prop
  | .send j, i, w => (i < j → Engaged ms m w) ∧ (j ≤ i → Quiet ms w)
  | .kill j, i, w => (i < j → Engaged ms m w) ∧ (j ≤ i → Quiet ms w) ∧ (i = j → w.word = some m)
  | .poll j, i, w => (i < j → w.word = none ∧ Quiet (ms ++ [m]) w) ∧ (j ≤ i → Engaged ms m w)

/-- The coordinator's index is one it can have. -/
def CoordPc.Valid (n : Nat) : CoordPc → Prop
  | .send i => i ≤ n
  | .kill i => i < n
  | .poll i => i ≤ n

structure Inv (broadcasts : List CrMsg) (s : BarrierState n) : Prop where
  order : s.done ++ s.todo = broadcasts
  valid : CoordPc.Valid n s.pc
  idle : s.todo = [] → s.pc = .send 0 ∧ ∀ w, Quiet s.done (s.workers w)
  stage : ∀ m ms, s.todo = m :: ms → ∀ w : Fin n, Stage s.done m s.pc w (s.workers w)

section Inv
variable {broadcasts ms : List CrMsg} {m : CrMsg} {pc : CoordPc} {i : Nat} {w : BarrierWorker}

theorem Stage.deliver (h : Stage ms m pc i w) (sig : CrSignal) : Stage ms m pc i (w.deliver sig) := by
  have hquiet : ∀ ms, Quiet ms w → w.deliver sig = w := fun ms hq => deliver_of_pending_nil hq.pending sig
  cases pc with
  | send j =>
    refine ⟨fun hi => (h.1 hi).deliver sig, fun hi => ?_⟩
    rw [hquiet ms (h.2 hi)]
    exact h.2 hi
  | kill j =>
    refine ⟨fun hi => (h.1 hi).deliver sig, fun hi => ?_, fun hi => ?_⟩
    · rw [hquiet ms (h.2.1 hi)]
      exact h.2.1 hi
    · rw [hquiet ms (h.2.1 hi.ge)]
      exact h.2.2 hi
  | poll j =>
    refine ⟨fun hi => ?_, fun hi => (h.2 hi).deliver sig⟩
    rw [hquiet _ (h.1 hi).2]
    exact h.1 hi

theorem Stage.handler (h : Stage ms m pc i w) : Stage ms m pc i w.handler := by
  cases pc with
  | send j => exact ⟨fun hi => (h.1 hi).handler, fun hi => (h.2 hi).handler.1⟩
  | kill j =>
    refine ⟨fun hi => (h.1 hi).handler, fun hi => (h.2.1 hi).handler.1, fun hi => ?_⟩
    exact (h.2.1 hi.ge).handler.2.trans (h.2.2 hi)
  | poll j =>
    refine ⟨fun hi => ?_, fun hi => (h.2 hi).handler⟩
    obtain ⟨hword, hq⟩ := h.1 hi
    exact ⟨hq.handler.2.trans hword, hq.handler.1⟩

theorem Inv.setWorker {s : BarrierState n} (h : Inv broadcasts s) (w : Fin n) {b : BarrierWorker}
    (hquiet : Quiet s.done (s.workers w) → Quiet s.done b)
    (hstage : ∀ m, Stage s.done m s.pc w (s.workers w) → Stage s.done m s.pc w b) :
    Inv broadcasts (s.setWorker w b) := by
  refine ⟨h.order, h.valid, ?_, ?_⟩
  · intro htodo
    obtain ⟨hpc, hall⟩ := h.idle htodo
    refine ⟨hpc, fun w' => ?_⟩
    by_cases hw : w' = w
    · subst hw
      simpa [BarrierState.setWorker] using hquiet (hall w')
    · simpa [BarrierState.setWorker, Function.update_of_ne hw] using hall w'
  · intro m ms htodo w'
    have hw' := h.stage m ms htodo w'
    by_cases hw : w' = w
    · subst hw
      simpa [BarrierState.setWorker] using hstage m hw'
    · simpa [BarrierState.setWorker, Function.update_of_ne hw] using hw'

theorem inv_cons {workers : Fin n → BarrierWorker} {done : List CrMsg} (horder : done ++ m :: ms = broadcasts)
    (hvalid : CoordPc.Valid n pc) (hstage : ∀ w : Fin n, Stage done m pc w (workers w)) :
    Inv broadcasts ⟨workers, done, m :: ms, pc⟩ := by
  refine ⟨horder, hvalid, fun h => absurd h (by simp), ?_⟩
  rintro m' ms' heq
  obtain ⟨rfl, rfl⟩ := List.cons.inj heq
  exact hstage

theorem Inv.send {workers : Fin n → BarrierWorker} {done : List CrMsg}
    (h : Inv broadcasts ⟨workers, done, m :: ms, .send i⟩) :
    Inv broadcasts (coordinator ⟨workers, done, m :: ms, .send i⟩) := by
  have hstage : ∀ w : Fin n, Stage done m (.send i) w (workers w) := h.stage m ms rfl
  unfold coordinator
  dsimp only
  split_ifs with hi
  · refine inv_cons h.order hi fun w => ?_
    obtain ⟨h1, h2⟩ := hstage w
    show Stage done m (.kill i) w (Function.update workers ⟨i, hi⟩ _ w)
    by_cases hw : w = ⟨i, hi⟩
    · subst hw
      have hq := h2 (Nat.le_refl i)
      rw [Function.update_self]
      refine ⟨fun hlt => absurd hlt (Nat.lt_irrefl i), fun _ => ?_, fun _ => rfl⟩
      exact ⟨hq.pending, hq.stack, hq.started, hq.finished⟩
    · rw [Function.update_of_ne hw]
      exact ⟨h1, h2, fun heq => absurd (Fin.ext heq) hw⟩
  · -- every worker has its signal, and the second loop begins
    have hin : n ≤ i := Nat.not_lt.1 hi
    refine inv_cons h.order (Nat.zero_le n) fun w => ?_
    refine ⟨fun hlt => absurd hlt (Nat.not_lt_zero _), fun _ => ?_⟩
    exact (hstage w).1 (Nat.lt_of_lt_of_le w.isLt hin)

theorem Inv.kill {workers : Fin n → BarrierWorker} {done : List CrMsg}
    (h : Inv broadcasts ⟨workers, done, m :: ms, .kill i⟩) :
    Inv broadcasts (coordinator ⟨workers, done, m :: ms, .kill i⟩) := by
  have hstage : ∀ w : Fin n, Stage done m (.kill i) w (workers w) := h.stage m ms rfl
  have hi : i < n := h.valid
  unfold coordinator
  dsimp only
  rw [dif_pos hi]
  refine inv_cons h.order hi fun w => ?_
  obtain ⟨h1, h2, h3⟩ := hstage w
  show Stage done m (.send (i + 1)) w (Function.update workers ⟨i, hi⟩ _ w)
  by_cases hw : w = ⟨i, hi⟩
  · subst hw
    have hq := h2 (Nat.le_refl i)
    rw [Function.update_self]
    refine ⟨fun _ => ?_, fun hle => absurd hle (Nat.not_succ_le_self i)⟩
    unfold BarrierWorker.kill
    rw [if_neg (by simp [hq.pending])]
    exact .raised (h3 rfl) (by simp [hq.pending]) hq.stack hq.started hq.finished
  · have hne : w.val ≠ i := fun heq => hw (Fin.ext heq)
    rw [Function.update_of_ne hw]
    exact ⟨fun hlt => h1 (by omega), fun hle => h2 (by omega)⟩

theorem Inv.poll {workers : Fin n → BarrierWorker} {done : List CrMsg}
    (h : Inv broadcasts ⟨workers, done, m :: ms, .poll i⟩) :
    Inv broadcasts (coordinator ⟨workers, done, m :: ms, .poll i⟩) := by
  have hstage : ∀ w : Fin n, Stage done m (.poll i) w (workers w) := h.stage m ms rfl
  unfold coordinator
  dsimp only
  split_ifs with hi hword
  · refine inv_cons h.order hi fun w => ?_
    obtain ⟨h1, h2⟩ := hstage w
    refine ⟨fun hlt => ?_, fun hle => h2 (by omega)⟩
    by_cases hw : w = ⟨i, hi⟩
    · subst hw
      exact ⟨hword, (h2 (Nat.le_refl i)).quiet_of_word hword⟩
    · have hne : w.val ≠ i := fun heq => hw (Fin.ext heq)
      exact h1 (by omega)
  · exact h
  · -- everyone has finished, and the broadcast returns
    have hin : n ≤ i := Nat.not_lt.1 hi
    have hquiet : ∀ w : Fin n, Quiet (done ++ [m]) (workers w) :=
      fun w => ((hstage w).1 (Nat.lt_of_lt_of_le w.isLt hin)).2
    refine ⟨?_, Nat.zero_le n, fun _ => ⟨rfl, hquiet⟩, fun m' ms' _ w => ?_⟩
    · rw [List.append_assoc]
      exact h.order
    · exact ⟨fun hlt => absurd hlt (Nat.not_lt_zero _), fun _ => hquiet w⟩

theorem Inv.coordinator {s : BarrierState n} (h : Inv broadcasts s) : Inv broadcasts s.coordinator := by
  obtain ⟨workers, done, todo, pc⟩ := s
  cases todo with
  | nil => exact h
  | cons m ms =>
    cases pc with
    | send i => exact h.send
    | kill i => exact h.kill
    | poll i => exact h.poll

theorem Inv.step {s : BarrierState n} (h : Inv broadcasts s) (e : BarrierEvent n) : Inv broadcasts (s.step e) := by
  cases e with
  | coordinator => exact h.coordinator
  | deliver w sig =>
    refine h.setWorker w (fun hq => ?_) fun m hm => hm.deliver sig
    rw [deliver_of_pending_nil hq.pending]
    exact hq
  | handler w => exact h.setWorker w (fun hq => hq.handler.1) fun m hm => hm.handler

theorem inv_start (words : Fin n → Option CrMsg) (broadcasts : List CrMsg) :
    Inv broadcasts (start words broadcasts) := by
  have hquiet : ∀ w, Quiet [] ((start words broadcasts).workers w) :=
    fun _ => ⟨rfl, by simp [start], rfl, rfl⟩
  refine ⟨rfl, Nat.zero_le n, fun _ => ⟨rfl, hquiet⟩, fun m ms _ w => ?_⟩
  exact ⟨fun hlt => absurd hlt (Nat.not_lt_zero _), fun _ => hquiet w⟩

end Inv

/-! ### Progress -/

/-- The steps a handler has left. -/
def HandlerPc.work : HandlerPc → Nat
  | .entered => 3
  | .executing _ => 2
  | .finished => 1

def workerWork (w : BarrierWorker) : Nat := 4 * w.pending.length + (w.stack.map fun f => HandlerPc.work f.pc).sum

/-- The steps the current broadcast has left, with four for the handling of each signal still to be raised. -/
def CoordPc.work (n : Nat) : CoordPc → Nat
  | .send i => 6 * (n - i) + (n + 2)
  | .kill i => 6 * (n - i) - 1 + (n + 2)
  | .poll i => n - i + 1

/-- The steps left until all broadcasts have returned and all handlers with them. A poll that is repeated
does not count. -/
def work (s : BarrierState n) : Nat :=
  (match s.todo with
    | [] => 0
    | _ :: ms => CoordPc.work n s.pc + ms.length * (7 * n + 2)) + ∑ w, workerWork (s.workers w)

section Work
variable {broadcasts : List CrMsg}

theorem sum_update (workers : Fin n → BarrierWorker) (w : Fin n) (b : BarrierWorker) :
    (∑ i, workerWork (Function.update workers w b i)) + workerWork (workers w) =
      (∑ i, workerWork (workers i)) + workerWork b := by
  have hrest : ∑ i ∈ Finset.univ.erase w, workerWork (Function.update workers w b i) =
      ∑ i ∈ Finset.univ.erase w, workerWork (workers i) := by
    apply Finset.sum_congr rfl
    intro i hi
    rw [Function.update_of_ne (Finset.ne_of_mem_erase hi)]
  have h1 := Finset.add_sum_erase Finset.univ (fun i => workerWork (Function.update workers w b i)) (Finset.mem_univ w)
  have h2 := Finset.add_sum_erase Finset.univ (fun i => workerWork (workers i)) (Finset.mem_univ w)
  simp only [Function.update_self] at h1
  omega

theorem work_setWorker (s : BarrierState n) (w : Fin n) (b : BarrierWorker) :
    (s.setWorker w b).work + workerWork (s.workers w) = s.work + workerWork b := by
  have h := sum_update s.workers w b
  unfold work BarrierState.setWorker
  dsimp only
  omega

theorem work_setWorker_lt {s : BarrierState n} {w : Fin n} {b : BarrierWorker}
    (h : workerWork b < workerWork (s.workers w)) : (s.setWorker w b).work < s.work := by
  have := work_setWorker s w b
  omega

theorem workerWork_deliver (w : BarrierWorker) (sig : CrSignal) :
    workerWork (w.deliver sig) ≤ workerWork w ∧
      (sig ∈ w.pending → (∀ f ∈ w.stack, f.sig ≠ sig) → workerWork (w.deliver sig) < workerWork w) := by
  unfold BarrierWorker.deliver
  split_ifs with hcan
  · have hlen := List.length_erase_add_one hcan.1
    have hlt : workerWork { w with pending := w.pending.erase sig, stack := ⟨sig, .entered⟩ :: w.stack } < workerWork w := by
      unfold workerWork
      simp only [List.map_cons, List.sum_cons, HandlerPc.work]
      omega
    exact ⟨hlt.le, fun _ _ => hlt⟩
  · exact ⟨Nat.le_refl _, fun h1 h2 => absurd ⟨h1, h2⟩ hcan⟩

theorem workerWork_handler (w : BarrierWorker) :
    workerWork w.handler ≤ workerWork w ∧ (w.stack ≠ [] → workerWork w.handler < workerWork w) := by
  unfold BarrierWorker.handler
  split
  case h_1 heq => exact ⟨Nat.le_refl _, fun h => absurd heq h⟩
  all_goals
    rename_i heq
    unfold workerWork
    simp only [heq, List.map_cons, List.sum_cons, HandlerPc.work]
    exact ⟨by omega, fun _ => by omega⟩

theorem workerWork_kill (w : BarrierWorker) (sig : CrSignal) : workerWork (w.kill sig) ≤ workerWork w + 4 := by
  unfold BarrierWorker.kill workerWork
  split_ifs
  · omega
  · simp only [List.length_append, List.length_singleton]
    omega

theorem work_coordinator (workers : Fin n → BarrierWorker) (done ms : List CrMsg) (m : CrMsg) (pc : CoordPc)
    (hvalid : CoordPc.Valid n pc) :
    (coordinator ⟨workers, done, m :: ms, pc⟩).work < work ⟨workers, done, m :: ms, pc⟩ ∨
      coordinator ⟨workers, done, m :: ms, pc⟩ = ⟨workers, done, m :: ms, pc⟩ ∧
        ∃ (i : Nat) (h : i < n), pc = .poll i ∧ (workers ⟨i, h⟩).word ≠ none := by
  cases pc with
  | send i =>
    left
    unfold coordinator
    dsimp only
    split_ifs with hi
    · have h := sum_update workers ⟨i, hi⟩ ((workers ⟨i, hi⟩).sendMsg m)
      have hsame : workerWork ((workers ⟨i, hi⟩).sendMsg m) = workerWork (workers ⟨i, hi⟩) := rfl
      unfold work BarrierState.setWorker CoordPc.work
      dsimp only
      omega
    · have hle : i ≤ n := hvalid
      unfold work CoordPc.work
      dsimp only
      omega
  | kill i =>
    left
    have hi : i < n := hvalid
    have h := sum_update workers ⟨i, hi⟩ ((workers ⟨i, hi⟩).kill (signalOf m))
    have hkill := workerWork_kill (workers ⟨i, hi⟩) (signalOf m)
    unfold coordinator
    dsimp only
    rw [dif_pos hi]
    unfold work BarrierState.setWorker CoordPc.work
    dsimp only
    omega
  | poll i =>
    unfold coordinator
    dsimp only
    split_ifs with hi hword
    · left
      unfold work CoordPc.work
      dsimp only
      omega
    · exact Or.inr ⟨rfl, i, hi, rfl, hword⟩
    · left
      unfold work
      cases ms with
      | nil =>
        unfold CoordPc.work
        dsimp only
        omega
      | cons m' ms =>
        have hmul : (ms.length + 1) * (7 * n + 2) = ms.length * (7 * n + 2) + (7 * n + 2) := Nat.succ_mul ..
        unfold CoordPc.work
        dsimp only [List.length_cons]
        omega

theorem Inv.work_step_le {s : BarrierState n} (h : Inv broadcasts s) (e : BarrierEvent n) : (s.step e).work ≤ s.work := by
  cases e with
  | coordinator =>
    obtain ⟨workers, done, todo, pc⟩ := s
    cases todo with
    | nil => exact Nat.le_refl _
    | cons m ms =>
      rcases work_coordinator workers done ms m pc h.valid with hlt | ⟨heq, -⟩
      · exact hlt.le
      · exact le_of_eq (congrArg work heq)
  | deliver w sig =>
    have h1 := work_setWorker s w ((s.workers w).deliver sig)
    have h2 := (workerWork_deliver (s.workers w) sig).1
    show (s.setWorker w _).work ≤ s.work
    omega
  | handler w =>
    have h1 := work_setWorker s w (s.workers w).handler
    have h2 := (workerWork_handler (s.workers w)).1
    show (s.setWorker w _).work ≤ s.work
    omega

theorem exists_step_of_engaged {ms : List CrMsg} {m : CrMsg} {w : BarrierWorker} (h : Engaged ms m w)
    (hword : w.word ≠ none) : workerWork w.handler < workerWork w ∨ ∃ sig, workerWork (w.deliver sig) < workerWork w := by
  cases h with
  | raised _ hpending _ _ _ =>
    by_cases hstack : w.stack = []
    · right
      refine ⟨signalOf m, (workerWork_deliver w _).2 ?_ ?_⟩
      · rw [hpending]
        exact List.mem_singleton.2 rfl
      · rw [hstack]
        exact fun f hf => absurd hf List.not_mem_nil
    · exact Or.inl ((workerWork_handler w).2 hstack)
  | entered _ _ fs hstack _ _ _ => exact Or.inl ((workerWork_handler w).2 (by simp [hstack]))
  | executing _ _ fs hstack _ _ _ => exact Or.inl ((workerWork_handler w).2 (by simp [hstack]))
  | done hnone _ => exact absurd hnone hword

/-- As long as a broadcast has not returned, some step brings it nearer. -/
theorem Inv.exists_step {s : BarrierState n} (h : Inv broadcasts s) (htodo : s.todo ≠ []) :
    ∃ e, (s.step e).work < s.work := by
  obtain ⟨workers, done, todo, pc⟩ := s
  cases todo with
  | nil => exact absurd rfl htodo
  | cons m ms =>
    rcases work_coordinator workers done ms m pc h.valid with hlt | ⟨-, i, hi, rfl, hword⟩
    · exact ⟨.coordinator, hlt⟩
    have hengaged : Engaged done m (workers ⟨i, hi⟩) := (h.stage m ms rfl ⟨i, hi⟩).2 (Nat.le_refl i)
    rcases exists_step_of_engaged hengaged hword with hlt | ⟨sig, hlt⟩
    · exact ⟨.handler ⟨i, hi⟩, work_setWorker_lt hlt⟩
    · exact ⟨.deliver ⟨i, hi⟩ sig, work_setWorker_lt hlt⟩

end Work

/-! ### The barrier -/

/-- What holds in every state. A worker begins and ends the broadcast messages in their order, each once; it
begins none before every worker has ended the one before; when a broadcast has returned every worker has ended
its message. No step takes the run away from its end, and there is always one that brings it nearer. -/
structure BarrierHolds (broadcasts : List CrMsg) (s : BarrierState n) : Prop where
  inOrder : ∀ w, (s.workers w).started <+: broadcasts ∧ (s.workers w).finished <+: (s.workers w).started
  noOvertaking : ∀ w w', (s.workers w).started.length ≤ (s.workers w').finished.length + 1
  returned : ∀ w, s.done <+: (s.workers w).finished
  complete : s.todo = [] → ∀ w, (s.workers w).finished = broadcasts
  bounded : ∀ e, (s.step e).work ≤ s.work
  progress : s.todo ≠ [] → ∃ e, (s.step e).work < s.work

theorem Stage.phases {ms : List CrMsg} {m : CrMsg} {pc : CoordPc} {i : Nat} {w : BarrierWorker} (h : Stage ms m pc i w) :
    (w.started = ms ∨ w.started = ms ++ [m]) ∧ (w.finished = ms ∨ w.finished = w.started) ∧ ms <+: w.started := by
  have hquiet : Quiet ms w → (w.started = ms ∨ w.started = ms ++ [m]) ∧
      (w.finished = ms ∨ w.finished = w.started) ∧ ms <+: w.started :=
    fun hq => ⟨Or.inl hq.started, Or.inl hq.finished, hq.started ▸ List.prefix_rfl⟩
  cases pc with
  | send j =>
    rcases Nat.lt_or_ge i j with hi | hi
    · exact (h.1 hi).phases
    · exact hquiet (h.2 hi)
  | kill j =>
    rcases Nat.lt_or_ge i j with hi | hi
    · exact (h.1 hi).phases
    · exact hquiet (h.2.1 hi)
  | poll j =>
    rcases Nat.lt_or_ge i j with hi | hi
    · exact Engaged.phases (.done (h.1 hi).1 (h.1 hi).2)
    · exact (h.2 hi).phases

theorem Inv.barrierHolds {broadcasts : List CrMsg} {s : BarrierState n} (h : Inv broadcasts s) :
    BarrierHolds broadcasts s := by
  have hidle : s.todo = [] → s.done = broadcasts := by
    intro htodo
    have := h.order
    rwa [htodo, List.append_nil] at this
  have hphases : ∀ w, ((s.workers w).started = s.done ∨ ∃ m ms, s.todo = m :: ms ∧ (s.workers w).started = s.done ++ [m]) ∧
      ((s.workers w).finished = s.done ∨ (s.workers w).finished = (s.workers w).started) ∧
      s.done <+: (s.workers w).started := by
    intro w
    cases htodo : s.todo with
    | nil =>
      obtain ⟨-, hq⟩ := h.idle htodo
      exact ⟨Or.inl (hq w).started, Or.inl (hq w).finished, (hq w).started ▸ List.prefix_rfl⟩
    | cons m ms =>
      obtain ⟨h1, h2, h3⟩ := (h.stage m ms htodo w).phases
      exact ⟨h1.imp_right fun heq => ⟨m, ms, rfl, heq⟩, h2, h3⟩
  refine ⟨fun w => ?_, fun w w' => ?_, fun w => ?_, fun htodo w => ?_, h.work_step_le, h.exists_step⟩
  · obtain ⟨h1, h2, h3⟩ := hphases w
    refine ⟨?_, ?_⟩
    · rcases h1 with h1 | ⟨m, ms, htodo, h1⟩
      · rw [h1, ← h.order]
        exact List.prefix_append ..
      · rw [h1, ← h.order, htodo]
        exact ⟨ms, by simp⟩
    · rcases h2 with h2 | h2
      · rw [h2]
        exact h3
      · rw [h2]
  · have h1 : (s.workers w).started.length ≤ s.done.length + 1 := by
      rcases (hphases w).1 with h1 | ⟨m, ms, -, h1⟩ <;> simp [h1]
    have h2 : s.done.length ≤ (s.workers w').finished.length := by
      obtain ⟨-, h2 | h2, h3⟩ := hphases w'
      · exact le_of_eq (congrArg List.length h2.symm)
      · rw [h2]
        exact h3.length_le
    omega
  · obtain ⟨-, h2 | h2, h3⟩ := hphases w
    · rw [h2]
    · rw [h2]
      exact h3
  · rw [((h.idle htodo).2 w).finished, hidle htodo]

/-- **The barrier of the coordinator** holds for every number of workers, whatever their words hold at first,
for all broadcasts and for every interleaving. -/
theorem barrierHolds_run (words : Fin n → Option CrMsg) (broadcasts : List CrMsg) (events : List (BarrierEvent n)) :
    BarrierHolds broadcasts (run step (start words broadcasts) events) := by
  have hrun : ∀ (events : List (BarrierEvent n)) (s : BarrierState n), Inv broadcasts s →
      Inv broadcasts (run step s events) := by
    intro events
    induction events with
    | nil => exact fun s hs => hs
    | cons e events ih => exact fun s hs => ih (s.step e) (hs.step e)
  exact (hrun events _ (inv_start words broadcasts)).barrierHolds

end BarrierState

end GpuCr
