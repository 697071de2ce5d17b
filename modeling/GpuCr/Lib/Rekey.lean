import Mathlib.Data.List.Basic
import Mathlib.Tactic.Linarith

/-!
# Moving the entries of a map to new keys

A move enters a value under a new key and then erases the old key. When moves are made one after the other, a new
key may be the old key of another move. Every value is found under its new key exactly if no new key is the old key
of the same or of a later move (`foldl_rekey_iff`).
-/

namespace Lib.Rekey

open Std

structure Move (κ ν : Type*) where
  old : κ
  new : κ
  value : ν

section Moves
variable {κ ν : Type*}

/-- No new key is the old key of the same or of a later move. -/
def Apart (moves : List (Move κ ν)) : Prop :=
  (moves.Pairwise fun x y => x.new ≠ y.old) ∧ ∀ x ∈ moves, x.new ≠ x.old

theorem apart_cons {x : Move κ ν} {moves : List (Move κ ν)} :
    Apart (x :: moves) ↔ x.new ≠ x.old ∧ x.new ∉ moves.map (·.old) ∧ Apart moves := by
  unfold Apart
  rw [List.pairwise_cons, List.forall_mem_cons, List.mem_map, not_exists]
  constructor
  · rintro ⟨⟨h1, h2⟩, h3, h4⟩
    exact ⟨h3, fun y hy => h1 y hy.1 hy.2.symm, h2, h4⟩
  · rintro ⟨h3, h1, h2, h4⟩
    exact ⟨⟨fun y hy heq => h1 y ⟨hy, heq.symm⟩, h2⟩, h3, h4⟩

end Moves

variable {κ ν : Type*} [Ord κ] [TransOrd κ] [LawfulEqOrd κ] [DecidableEq κ]

def rekey (m : ExtTreeMap κ ν) (x : Move κ ν) : ExtTreeMap κ ν := (m.insert x.new x.value).erase x.old

theorem getElem?_rekey (m : ExtTreeMap κ ν) (x : Move κ ν) (k : κ) :
    (rekey m x)[k]? = if k = x.old then none else if k = x.new then some x.value else m[k]? := by
  rw [rekey, ExtTreeMap.getElem?_erase, ExtTreeMap.getElem?_insert]
  simp only [LawfulEqCmp.compare_eq_iff_eq]
  exact if_congr eq_comm rfl (if_congr eq_comm rfl rfl)

/-- A key that is not new is gone if it is an old one, and else is as before. -/
theorem getElem?_foldl_rekey {moves : List (Move κ ν)} {k : κ} (hk : k ∉ moves.map (·.new)) (m : ExtTreeMap κ ν) :
    (moves.foldl rekey m)[k]? = if k ∈ moves.map (·.old) then none else m[k]? := by
  induction moves generalizing m with
  | nil => simp
  | cons x moves ih =>
    rw [List.map_cons, List.mem_cons, not_or] at hk
    rw [List.foldl_cons, ih hk.2, getElem?_rekey, if_neg hk.1]
    by_cases hx : k = x.old
    · simp [hx]
    · simp [hx]

/-- The first value, after the other moves. -/
theorem getElem?_first {x : Move κ ν} {moves : List (Move κ ν)} (hx : x.new ∉ moves.map (·.new)) (m : ExtTreeMap κ ν) :
    (moves.foldl rekey (rekey m x))[x.new]? =
      if x.new ∈ moves.map (·.old) ∨ x.new = x.old then none else some x.value := by
  rw [getElem?_foldl_rekey hx, getElem?_rekey, if_pos rfl]
  by_cases h1 : x.new ∈ moves.map (·.old)
  · simp [h1]
  · simp [h1]

theorem getElem?_of_apart {moves : List (Move κ ν)} (hnew : (moves.map (·.new)).Nodup) (h : Apart moves)
    (m : ExtTreeMap κ ν) : ∀ x ∈ moves, (moves.foldl rekey m)[x.new]? = some x.value := by
  induction moves generalizing m with
  | nil => simp
  | cons x moves ih =>
    rw [List.map_cons, List.nodup_cons] at hnew
    obtain ⟨h1, h2, h3⟩ := apart_cons.1 h
    refine List.forall_mem_cons.2 ⟨?_, ih hnew.2 h3 _⟩
    rw [List.foldl_cons, getElem?_first hnew.1, if_neg (by simp [h1, h2])]

theorem apart_of_mem {moves : List (Move κ ν)} (hnew : (moves.map (·.new)).Nodup) {m : ExtTreeMap κ ν}
    (h : ∀ x ∈ moves, (moves.foldl rekey m)[x.new]? ≠ none) : Apart moves := by
  induction moves generalizing m with
  | nil => exact ⟨List.Pairwise.nil, by simp⟩
  | cons x moves ih =>
    rw [List.map_cons, List.nodup_cons] at hnew
    obtain ⟨hx, hmoves⟩ := List.forall_mem_cons.1 h
    rw [List.foldl_cons, getElem?_first hnew.1] at hx
    have hor : ¬ (x.new ∈ moves.map (·.old) ∨ x.new = x.old) := fun hor => hx (if_pos hor)
    rw [not_or] at hor
    exact apart_cons.2 ⟨hor.2, hor.1, ih hnew.2 hmoves⟩

/-- **Every value is found under its new key** exactly if the moves are apart. -/
theorem foldl_rekey_iff {moves : List (Move κ ν)} (hnew : (moves.map (·.new)).Nodup) (m : ExtTreeMap κ ν) :
    (∀ x ∈ moves, (moves.foldl rekey m)[x.new]? = some x.value) ↔ Apart moves := by
  refine ⟨fun h => apart_of_mem (m := m) hnew fun x hx => ?_, fun h => getElem?_of_apart hnew h m⟩
  rw [h x hx]
  simp

end Lib.Rekey
