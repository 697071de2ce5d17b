import Mathlib.Data.List.Basic
import Mathlib.Logic.Relation
import Mathlib.Tactic.Linarith

/-!
# An asynchronous stream against immediate execution

A host thread issues commands in order. `enqueue c` puts the operation `c` on a first-in-first-out
stream that may execute it at any later moment, `record` puts a marker on the stream, `waitEvent`
blocks until the most recently recorded marker has passed, `drain` blocks until the stream is empty,
and `host c` executes `c` on the host thread at once. `Step` is one step of the host thread or of the
stream, so a run of `Step` is one schedule; `runNow` is the same program with every operation executed
where it is issued.

`Disciplined` is a static check of a program. It keeps what may still be on the stream as two lists:
`covered`, the operations ahead of the last marker, and `recent`, those behind it. `record` moves
`recent` into `covered`, `waitEvent` forgets `covered`, `drain` forgets both, and a host operation must
be independent of everything in both.

The invariant of a run (`Inv`): what is really on the stream is among `covered` and `recent`, what is
behind its last marker is among `recent`, and executing the rest of the stream now gives the memory of
`runNow` on the commands issued so far. So no host operation ever meets a queued operation it depends
on (`hostIndep_of_steps`), and a program that ends drained leaves the memory of `runNow`
(`mem_eq_of_steps`).
-/

namespace Lib.AsyncStream

variable {κ σ : Type*}

inductive Cmd (κ : Type*) where
  | enqueue (c : κ)
  | record
  | waitEvent
  | drain
  | host (c : κ)

/-- The commands still to be issued, the stream (`none` is a marker) and the memory. -/
structure Config (κ σ : Type*) where
  prog : List (Cmd κ)
  queue : List (Option κ)
  mem : σ

section Semantics
variable (exec : κ → σ → σ)

inductive Step : Config κ σ → Config κ σ → Prop
  | enqueue (c p q m) : Step ⟨.enqueue c :: p, q, m⟩ ⟨p, q ++ [some c], m⟩
  | record (p q m) : Step ⟨.record :: p, q, m⟩ ⟨p, q ++ [none], m⟩
  | waitEvent (p q m) (h : none ∉ q) : Step ⟨.waitEvent :: p, q, m⟩ ⟨p, q, m⟩
  | drain (p m) : Step ⟨.drain :: p, [], m⟩ ⟨p, [], m⟩
  | host (c p q m) : Step ⟨.host c :: p, q, m⟩ ⟨p, q, exec c m⟩
  | runHead (c p q m) : Step ⟨p, some c :: q, m⟩ ⟨p, q, exec c m⟩
  | passMarker (p q m) : Step ⟨p, none :: q, m⟩ ⟨p, q, m⟩

abbrev Steps : Config κ σ → Config κ σ → Prop := Relation.ReflTransGen (Step exec)

def runCmd (m : σ) : Cmd κ → σ
  | .enqueue c => exec c m
  | .host c => exec c m
  | _ => m

/-- Every operation executed where it is issued. -/
def runNow (prog : List (Cmd κ)) (m : σ) : σ := prog.foldl (runCmd exec) m

/-- The rest of the stream executed now. -/
def flush (queue : List (Option κ)) (m : σ) : σ :=
  queue.foldl (fun m o => o.elim m (exec · m)) m

theorem runNow_append (xs ys : List (Cmd κ)) (m : σ) :
    runNow exec (xs ++ ys) m = runNow exec ys (runNow exec xs m) := List.foldl_append ..

@[simp] theorem runNow_nil (m : σ) : runNow exec [] m = m := rfl

@[simp] theorem runNow_cons (x : Cmd κ) (xs : List (Cmd κ)) (m : σ) :
    runNow exec (x :: xs) m = runNow exec xs (runCmd exec m x) := rfl

/-- A run that has not finished can go on: the stream moves whenever the host thread is blocked. -/
theorem progress (cfg : Config κ σ) (h : cfg.prog ≠ [] ∨ cfg.queue ≠ []) :
    ∃ cfg', Step exec cfg cfg' := by
  obtain ⟨prog, queue, mem⟩ := cfg
  cases queue with
  | cons o q =>
    cases o with
    | none => exact ⟨_, .passMarker ..⟩
    | some c => exact ⟨_, .runHead ..⟩
  | nil =>
    cases prog with
    | nil => simp at h
    | cons cmd p =>
      cases cmd with
      | enqueue c => exact ⟨_, .enqueue ..⟩
      | record => exact ⟨_, .record ..⟩
      | waitEvent => exact ⟨_, .waitEvent _ _ _ (by simp)⟩
      | drain => exact ⟨_, .drain ..⟩
      | host c => exact ⟨_, .host ..⟩

end Semantics

/-! ### The discipline -/

/-- What may still be on the stream: ahead of the last marker, and behind it. -/
structure Pending (κ : Type*) where
  covered : List κ
  recent : List κ

def Pending.none : Pending κ := ⟨[], []⟩

def Pending.all (P : Pending κ) : List κ := P.covered ++ P.recent

def Pending.issue (P : Pending κ) : Cmd κ → Pending κ
  | .enqueue c => ⟨P.covered, P.recent ++ [c]⟩
  | .record => ⟨P.covered ++ P.recent, []⟩
  | .waitEvent => ⟨[], P.recent⟩
  | .drain => ⟨[], []⟩
  | .host _ => P

section Discipline
variable (indep : κ → κ → Prop)

/-- A host command is independent of everything that may still be on the stream. -/
def Allowed (P : Pending κ) : Cmd κ → Prop
  | .host c => ∀ k ∈ P.all, indep k c
  | _ => True

def Disciplined : Pending κ → List (Cmd κ) → Prop
  | _, [] => True
  | P, c :: cs => Allowed indep P c ∧ Disciplined (P.issue c) cs

@[simp] theorem disciplined_nil (P : Pending κ) : Disciplined indep P [] := trivial

theorem disciplined_append (P : Pending κ) (xs ys : List (Cmd κ)) :
    Disciplined indep P (xs ++ ys) ↔
      Disciplined indep P xs ∧ Disciplined indep (xs.foldl Pending.issue P) ys := by
  induction xs generalizing P with
  | nil => simp
  | cons x xs ih => simp [Disciplined, ih, and_assoc]

end Discipline

/-- One more entry of the stream: a marker leaves nothing behind it. -/
def pushBehind (acc : List κ) (o : Option κ) : List κ := o.elim [] fun c => acc ++ [c]

/-- The operations behind the last marker of the stream. -/
def behind (q : List (Option κ)) : List κ := q.foldl pushBehind []

@[simp] theorem behind_append_some (q : List (Option κ)) (c : κ) :
    behind (q ++ [some c]) = behind q ++ [c] := by simp [behind, pushBehind]

@[simp] theorem behind_append_none (q : List (Option κ)) : behind (q ++ [none]) = [] := by
  simp [behind, pushBehind]

theorem mem_foldl_pushBehind {q : List (Option κ)} {acc acc' : List κ} {c : κ}
    (hacc : ∀ k ∈ acc, k ∈ acc') (h : c ∈ q.foldl pushBehind acc) : c ∈ q.foldl pushBehind acc' := by
  induction q generalizing acc acc' with
  | nil => exact hacc c h
  | cons o q ih =>
    refine ih (fun k hk => ?_) h
    cases o with
    | none => exact hk
    | some d =>
      simp only [pushBehind, Option.elim, List.mem_append] at hk ⊢
      exact hk.imp_left (hacc k)

theorem mem_behind_cons {o : Option κ} {q : List (Option κ)} {c : κ} (h : c ∈ behind q) :
    c ∈ behind (o :: q) := by
  show c ∈ q.foldl pushBehind (pushBehind [] o)
  exact mem_foldl_pushBehind (by simp) h

theorem foldl_pushBehind_of_not_mem {q : List (Option κ)} (h : none ∉ q) (acc : List κ) {c : κ}
    (hc : some c ∈ q ∨ c ∈ acc) : c ∈ q.foldl pushBehind acc := by
  induction q generalizing acc with
  | nil => simpa using hc
  | cons o q ih =>
    cases o with
    | none => simp at h
    | some d =>
      refine ih (by simpa using h) (pushBehind acc (some d)) ?_
      simp only [pushBehind, Option.elim, List.mem_append, List.mem_singleton]
      simp only [List.mem_cons, Option.some.injEq] at hc
      tauto

theorem mem_behind_of_not_mem {q : List (Option κ)} (h : none ∉ q) {c : κ} (hc : some c ∈ q) :
    c ∈ behind q := foldl_pushBehind_of_not_mem h [] (Or.inl hc)

/-! ### The invariant of a run -/

section Invariant
variable (exec : κ → σ → σ) (prog : List (Cmd κ)) (m₀ : σ)

/-- `done` are the commands issued so far. -/
structure Inv (done : List (Cmd κ)) (cfg : Config κ σ) : Prop where
  split : prog = done ++ cfg.prog
  queued : ∀ c, some c ∈ cfg.queue → c ∈ (done.foldl Pending.issue Pending.none).all
  recent : ∀ c ∈ behind cfg.queue, c ∈ (done.foldl Pending.issue Pending.none).recent
  mem : flush exec cfg.queue cfg.mem = runNow exec done m₀

variable {exec prog m₀} {indep : κ → κ → Prop}

theorem flush_host (hcomm : ∀ k c, indep k c → ∀ m, exec c (exec k m) = exec k (exec c m)) (c : κ)
    (queue : List (Option κ)) (h : ∀ k, some k ∈ queue → indep k c) (m : σ) :
    flush exec queue (exec c m) = exec c (flush exec queue m) := by
  induction queue generalizing m with
  | nil => rfl
  | cons o q ih =>
    have hq : ∀ k, some k ∈ q → indep k c := fun k hk => h k (List.mem_cons_of_mem _ hk)
    cases o with
    | none => exact ih hq m
    | some k =>
      have hk := hcomm k c (h k (by simp)) m
      show flush exec q (exec k (exec c m)) = exec c (flush exec q (exec k m))
      rw [← hk, ih hq]

theorem allowed_of_inv (hd : Disciplined indep Pending.none prog) {done : List (Cmd κ)}
    {c : Cmd κ} {p : List (Cmd κ)} (h : prog = done ++ c :: p) :
    Allowed indep (done.foldl Pending.issue Pending.none) c := by
  rw [h, disciplined_append] at hd
  exact hd.2.1

theorem Inv.step (hcomm : ∀ k c, indep k c → ∀ m, exec c (exec k m) = exec k (exec c m))
    (hd : Disciplined indep Pending.none prog) {done : List (Cmd κ)} {cfg cfg' : Config κ σ}
    (hi : Inv exec prog m₀ done cfg) (hs : Step exec cfg cfg') :
    ∃ done', Inv exec prog m₀ done' cfg' := by
  obtain ⟨hsplit, hqueued, hrecent, hmem⟩ := hi
  cases hs with
  | enqueue c p q m =>
    refine ⟨done ++ [.enqueue c], by simp [hsplit], fun k hk => ?_, fun k hk => ?_, ?_⟩
    · simp only [List.foldl_append, List.foldl_cons, List.foldl_nil, Pending.issue, Pending.all]
      rcases List.mem_append.1 hk with hk | hk
      · have := hqueued k hk
        simp only [Pending.all, List.mem_append] at this ⊢
        tauto
      · simp_all
    · simp only [List.foldl_append, List.foldl_cons, List.foldl_nil, Pending.issue, List.mem_append]
      rw [behind_append_some] at hk
      exact (List.mem_append.1 hk).imp_left (hrecent k)
    · rw [runNow_append, ← hmem]
      simp [flush, runCmd]
  | record p q m =>
    refine ⟨done ++ [.record], by simp [hsplit], fun k hk => ?_, fun k hk => ?_, ?_⟩
    · have := hqueued k (by simpa using hk)
      simpa [Pending.issue, Pending.all] using this
    · simp [behind_append_none] at hk
    · rw [runNow_append, ← hmem]
      simp [flush, runCmd]
  | waitEvent p q m h =>
    -- the last marker has passed, so what is left on the stream was issued after it
    refine ⟨done ++ [.waitEvent], by simp [hsplit], fun k hk => ?_, fun k hk => ?_, ?_⟩
    · have := hrecent k (mem_behind_of_not_mem h hk)
      simpa [Pending.issue, Pending.all] using this
    · simpa [Pending.issue] using hrecent k hk
    · rw [runNow_append, ← hmem]
      simp [runCmd]
  | drain p m =>
    refine ⟨done ++ [.drain], by simp [hsplit], by simp, by simp [behind], ?_⟩
    rw [runNow_append, ← hmem]
    simp [runCmd]
  | host c p q m =>
    have hall := allowed_of_inv hd hsplit
    have hindep : ∀ k, some k ∈ q → indep k c := fun k hk => hall k (hqueued k hk)
    refine ⟨done ++ [.host c], by simp [hsplit], by simpa [Pending.issue] using hqueued,
      by simpa [Pending.issue] using hrecent, ?_⟩
    rw [runNow_append, ← hmem, flush_host hcomm c q hindep]
    simp [runCmd]
  | runHead c p q m =>
    exact ⟨done, hsplit, fun k hk => hqueued k (List.mem_cons_of_mem _ hk),
      fun k hk => hrecent k (mem_behind_cons hk), hmem⟩
  | passMarker p q m =>
    exact ⟨done, hsplit, fun k hk => hqueued k (List.mem_cons_of_mem _ hk),
      fun k hk => hrecent k (mem_behind_cons hk), hmem⟩

theorem Inv.steps (hcomm : ∀ k c, indep k c → ∀ m, exec c (exec k m) = exec k (exec c m))
    (hd : Disciplined indep Pending.none prog) {cfg : Config κ σ}
    (hs : Steps exec ⟨prog, [], m₀⟩ cfg) : ∃ done, Inv exec prog m₀ done cfg := by
  induction hs with
  | refl => exact ⟨[], rfl, by simp, by simp [behind], rfl⟩
  | tail _ hstep ih =>
    obtain ⟨done, hi⟩ := ih
    exact hi.step hcomm hd hstep

/-- Whenever a host command is about to execute, it is independent of everything on the stream. -/
theorem hostIndep_of_steps (hcomm : ∀ k c, indep k c → ∀ m, exec c (exec k m) = exec k (exec c m))
    (hd : Disciplined indep Pending.none prog) {cfg : Config κ σ}
    (hs : Steps exec ⟨prog, [], m₀⟩ cfg) {c : κ} {p : List (Cmd κ)} (hp : cfg.prog = .host c :: p)
    {k : κ} (hk : some k ∈ cfg.queue) : indep k c := by
  obtain ⟨done, hi⟩ := Inv.steps hcomm hd hs
  have hall := allowed_of_inv hd (hp ▸ hi.split)
  exact hall k (hi.queued k hk)

theorem flush_of_drained {queue : List (Option κ)} (h : ∀ c, some c ∉ queue) (m : σ) :
    flush exec queue m = m := by
  induction queue with
  | nil => rfl
  | cons o q ih =>
    cases o with
    | none => exact ih fun c hc => h c (List.mem_cons_of_mem _ hc)
    | some c => exact absurd (List.mem_cons_self ..) (h c)

/-- **A disciplined program does not see its schedule**: one that ends drained has, when it has issued
its last command, the memory of immediate execution. -/
theorem mem_eq_of_steps (hcomm : ∀ k c, indep k c → ∀ m, exec c (exec k m) = exec k (exec c m))
    (hd : Disciplined indep Pending.none prog)
    (hdrained : (prog.foldl Pending.issue Pending.none).all = []) {cfg : Config κ σ}
    (hs : Steps exec ⟨prog, [], m₀⟩ cfg) (hprog : cfg.prog = []) : cfg.mem = runNow exec prog m₀ := by
  obtain ⟨done, hi⟩ := Inv.steps hcomm hd hs
  have hdone : prog = done := by rw [hi.split, hprog, List.append_nil]
  subst hdone
  have hempty : ∀ c, some c ∉ cfg.queue := by
    intro c hc
    have := hi.queued c hc
    rw [hdrained] at this
    exact absurd this List.not_mem_nil
  rw [← hi.mem, flush_of_drained hempty]

end Invariant

end Lib.AsyncStream
