import Mathlib.Data.List.Basic

/-!
# Descriptor tables

The open descriptors of a process, by number. The number of a new one is the lowest that is free, so a
number that was closed is given out again.
-/

namespace Lib

structure FdTable (α : Type*) where
  slots : List (Option α)

namespace FdTable

variable {α : Type*}

/-- What an open descriptor refers to. -/
def get (t : FdTable α) (n : Nat) : Option α := t.slots[n]?.join

/-- The lowest number that is not open. -/
def lowest (t : FdTable α) : Nat := t.slots.findIdx (·.isNone)

def alloc (t : FdTable α) (a : α) : FdTable α := ⟨(t.slots ++ [none]).set t.lowest (some a)⟩

def close (t : FdTable α) (n : Nat) : FdTable α := ⟨t.slots.set n none⟩

variable {t : FdTable α}

theorem lowest_le : t.lowest ≤ t.slots.length := List.findIdx_le_length

@[simp] theorem get_lowest : t.get t.lowest = none := by
  unfold get
  rcases Nat.lt_or_ge t.lowest t.slots.length with h | h
  · have hnone := List.findIdx_getElem (w := h)
    rw [Option.isNone_iff_eq_none] at hnone
    rw [List.getElem?_eq_getElem h]
    exact hnone
  · rw [List.getElem?_eq_none h]
    rfl

@[simp] theorem get_alloc (a : α) (n : Nat) : (t.alloc a).get n = if n = t.lowest then some a else t.get n := by
  have hle := t.lowest_le
  show ((t.slots ++ [none]).set t.lowest (some a))[n]?.join = _
  rw [List.getElem?_set]
  by_cases hn : t.lowest = n
  · rw [if_pos hn, if_pos hn.symm, if_pos (by simp; omega)]
    rfl
  · rw [if_neg hn, if_neg (Ne.symm hn)]
    rcases Nat.lt_trichotomy n t.slots.length with h | h | h
    · rw [List.getElem?_append_left h]
      rfl
    · subst h
      rw [List.getElem?_concat_length, get, List.getElem?_eq_none (Nat.le_refl _)]
      rfl
    · rw [get, List.getElem?_eq_none (by simp; omega), List.getElem?_eq_none (Nat.le_of_lt h)]

@[simp] theorem get_close (n m : Nat) : (t.close n).get m = if m = n then none else t.get m := by
  show (t.slots.set n none)[m]?.join = _
  rw [List.getElem?_set]
  by_cases hn : n = m
  · rw [if_pos hn, if_pos hn.symm]
    split_ifs <;> rfl
  · rw [if_neg hn, if_neg (Ne.symm hn)]
    rfl

end FdTable

end Lib
