import GpuCr.Lib.Run
import Mathlib.Data.List.Perm.Basic
import Mathlib.Data.List.Count

/-!
# Ledgers

A component takes resources, uses them and gives them back, and its log says which and when. `replay`
follows a log from the resources that are held at first. It stops at the second taking of a resource that
is held, and at the use or the return of one that is not. `Leads held log held'` says that the log can be
followed to the end and that `held'` is what is held then, in whatever order. A log that leads from nothing
to nothing takes and gives every resource equally often, and uses none outside.
-/

namespace Lib.Ledger

inductive Act (ρ : Type*) where
  | take (r : ρ)
  | use (r : ρ)
  | give (r : ρ)
  deriving DecidableEq, Repr

variable {ρ : Type*} [DecidableEq ρ]

def Act.apply (held : List ρ) : Act ρ → Option (List ρ)
  | take r => if r ∈ held then none else some (r :: held)
  | use r => if r ∈ held then some held else none
  | give r => if r ∈ held then some (held.erase r) else none

def replay (held : List ρ) (log : List (Act ρ)) : Option (List ρ) := log.foldlM Act.apply held

def Leads (held : List ρ) (log : List (Act ρ)) (held' : List ρ) : Prop :=
  ∃ l, replay held log = some l ∧ l.Perm held'

section Apply
variable {held l : List ρ} {r : ρ}

@[simp] theorem apply_take : (Act.take r).apply held = some l ↔ r ∉ held ∧ r :: held = l := by
  by_cases hr : r ∈ held <;> simp [Act.apply, hr]

@[simp] theorem apply_use : (Act.use r).apply held = some l ↔ r ∈ held ∧ held = l := by
  by_cases hr : r ∈ held <;> simp [Act.apply, hr]

@[simp] theorem apply_give : (Act.give r).apply held = some l ↔ r ∈ held ∧ held.erase r = l := by
  by_cases hr : r ∈ held <;> simp [Act.apply, hr]

end Apply

section Replay
variable {held held' held'' : List ρ} {log log' : List (Act ρ)} {r : ρ}

theorem replay_append (held : List ρ) (log log' : List (Act ρ)) :
    replay held (log ++ log') = (replay held log).bind fun l => replay l log' := by
  unfold replay
  rw [List.foldlM_append]
  rfl

theorem replay_cons {a : Act ρ} {l : List ρ} :
    replay held (a :: log) = some l ↔ ∃ m, a.apply held = some m ∧ replay m log = some l :=
  Option.bind_eq_some_iff

/-- The order in which resources are held does not matter for what can be done with them. -/
theorem perm_apply {a : Act ρ} {l : List ρ} (hperm : held.Perm held') (h : a.apply held = some l) :
    ∃ l', a.apply held' = some l' ∧ l.Perm l' := by
  cases a with
  | take r =>
    obtain ⟨hr, rfl⟩ := apply_take.1 h
    exact ⟨r :: held', apply_take.2 ⟨fun h => hr (hperm.mem_iff.2 h), rfl⟩, hperm.cons r⟩
  | use r =>
    obtain ⟨hr, rfl⟩ := apply_use.1 h
    exact ⟨held', apply_use.2 ⟨hperm.mem_iff.1 hr, rfl⟩, hperm⟩
  | give r =>
    obtain ⟨hr, rfl⟩ := apply_give.1 h
    exact ⟨held'.erase r, apply_give.2 ⟨hperm.mem_iff.1 hr, rfl⟩, hperm.erase r⟩

theorem perm_replay {l : List ρ} (hperm : held.Perm held') (h : replay held log = some l) :
    ∃ l', replay held' log = some l' ∧ l.Perm l' := by
  induction log generalizing held held' with
  | nil =>
    obtain rfl : held = l := Option.some.inj h
    exact ⟨held', rfl, hperm⟩
  | cons a log ih =>
    obtain ⟨m, ha, hm⟩ := replay_cons.1 h
    obtain ⟨m', ha', hperm'⟩ := perm_apply hperm ha
    obtain ⟨l', hl', hfinal⟩ := ih hperm' hm
    exact ⟨l', replay_cons.2 ⟨m', ha', hl'⟩, hfinal⟩

end Replay

namespace Leads

variable {held held' held'' : List ρ} {log log' : List (Act ρ)} {r : ρ}

theorem nil (held : List ρ) : Leads held [] held := ⟨held, rfl, .refl held⟩

theorem append (h : Leads held log held') (h' : Leads held' log' held'') : Leads held (log ++ log') held'' := by
  obtain ⟨l, hl, hperm⟩ := h
  obtain ⟨l', hl', hperm'⟩ := h'
  obtain ⟨m, hm, hpm⟩ := perm_replay hperm.symm hl'
  refine ⟨m, ?_, hpm.symm.trans hperm'⟩
  rw [replay_append, hl]
  exact hm

theorem perm (h : Leads held log held') (hperm : held'.Perm held'') : Leads held log held'' := by
  obtain ⟨l, hl, hl'⟩ := h
  exact ⟨l, hl, hl'.trans hperm⟩

theorem take (hr : r ∉ held) : Leads held [.take r] (r :: held) :=
  ⟨r :: held, replay_cons.2 ⟨_, apply_take.2 ⟨hr, rfl⟩, rfl⟩, .refl _⟩

theorem use (hr : r ∈ held) : Leads held [.use r] held :=
  ⟨held, replay_cons.2 ⟨_, apply_use.2 ⟨hr, rfl⟩, rfl⟩, .refl _⟩

theorem uses {rs : List ρ} (h : ∀ r ∈ rs, r ∈ held) : Leads held (rs.map .use) held := by
  induction rs with
  | nil => exact .nil held
  | cons r rs ih =>
    show Leads held ([.use r] ++ rs.map .use) held
    exact append (use (h r List.mem_cons_self)) (ih fun r' hr' => h r' (List.mem_cons_of_mem r hr'))

theorem give (hr : r ∈ held) : Leads held [.give r] (held.erase r) :=
  ⟨held.erase r, replay_cons.2 ⟨_, apply_give.2 ⟨hr, rfl⟩, rfl⟩, .refl _⟩

/-- Everything is given back, the first thing first. -/
theorem gives (rs rest : List ρ) : Leads (rs ++ rest) (rs.map .give) rest := by
  induction rs with
  | nil => exact .nil rest
  | cons r rs ih =>
    have hgive : Leads (r :: (rs ++ rest)) [.give r] ((r :: (rs ++ rest)).erase r) := give List.mem_cons_self
    rw [List.erase_cons_head] at hgive
    show Leads (r :: (rs ++ rest)) ([.give r] ++ rs.map .give) rest
    exact append hgive ih

/-- A resource that is used is held at that point. -/
theorem held_of_use (h : Leads held (log ++ .use r :: log') held'') : ∃ held', Leads held log held' ∧ r ∈ held' := by
  obtain ⟨l, hl, -⟩ := h
  rw [replay_append] at hl
  obtain ⟨m, hm, hrest⟩ := Option.bind_eq_some_iff.1 hl
  obtain ⟨_, hr, -⟩ := replay_cons.1 hrest
  exact ⟨m, ⟨m, hm, .refl m⟩, (apply_use.1 hr).1⟩

/-- What is held is held once. -/
theorem nodup (h : Leads held log held') (hheld : held.Nodup) : held'.Nodup := by
  obtain ⟨l, hl, hperm⟩ := h
  rw [← hperm.nodup_iff]
  clear hperm
  induction log generalizing held with
  | nil =>
    obtain rfl : held = l := Option.some.inj hl
    exact hheld
  | cons a log ih =>
    obtain ⟨m, ha, hm⟩ := replay_cons.1 hl
    refine ih ?_ hm
    cases a with
    | take r =>
      obtain ⟨hr, rfl⟩ := apply_take.1 ha
      exact List.nodup_cons.2 ⟨hr, hheld⟩
    | use r =>
      obtain ⟨-, rfl⟩ := apply_use.1 ha
      exact hheld
    | give r =>
      obtain ⟨-, rfl⟩ := apply_give.1 ha
      exact hheld.erase r

/-- Every resource is given back as often as it is taken, but for those that are held. -/
theorem count_take (h : Leads held log held') (r : ρ) :
    held.count r + log.count (.take r) = held'.count r + log.count (.give r) := by
  obtain ⟨l, hl, hperm⟩ := h
  rw [← hperm.count_eq r]
  clear hperm
  induction log generalizing held with
  | nil =>
    obtain rfl : held = l := Option.some.inj hl
    rfl
  | cons a log ih =>
    obtain ⟨m, ha, hm⟩ := replay_cons.1 hl
    have hrest := ih hm
    cases a with
    | take r' =>
      obtain ⟨-, rfl⟩ := apply_take.1 ha
      by_cases heq : r' = r
      · subst heq
        simp at hrest ⊢
        omega
      · simp [heq] at hrest ⊢
        omega
    | use r' =>
      obtain ⟨-, rfl⟩ := apply_use.1 ha
      simpa [List.count_cons] using hrest
    | give r' =>
      obtain ⟨hr', rfl⟩ := apply_give.1 ha
      by_cases heq : r' = r
      · subst heq
        have hpos := List.count_pos_iff.2 hr'
        simp at hrest ⊢
        omega
      · rw [List.count_erase_of_ne (Ne.symm heq)] at hrest
        simp [heq] at hrest ⊢
        omega

/-- From nothing: what is used has been taken once more often than it has been given back. -/
theorem count_of_use (h : Leads [] (log ++ .use r :: log') held) : log.count (.take r) = log.count (.give r) + 1 := by
  obtain ⟨mid, hmid, hr⟩ := h.held_of_use
  have hone : mid.count r = 1 := by rw [(hmid.nodup List.nodup_nil).count, if_pos hr]
  have hcount := hmid.count_take r
  rw [hone, List.count_nil] at hcount
  omega

/-- From nothing to nothing: what is taken is given back. -/
theorem count_eq (h : Leads [] log []) (r : ρ) : log.count (.take r) = log.count (.give r) := by
  have hcount := h.count_take r
  rw [List.count_nil] at hcount
  omega

end Leads

end Lib.Ledger
