import Mathlib.Data.List.Basic
import Mathlib.Tactic.Linarith

/-!
# Block copies between stores

A store gives a value to every address. `blit dst d src s n` is `dst` after the `n` cells from `d`
have been overwritten with the `n` cells of `src` from `s`, `scribble dst d n src` is `dst` after the
same cells have been overwritten with whatever `src` has at those addresses. Everything the copy
loops need is here: what the target reads afterwards (`blit_in`, `blit_out`), and that two adjacent
copies are one copy (`blit_append`).
-/

namespace Lib

variable {α : Type*}

/-- `dst` with the cells `[d, d + n)` replaced by the cells `[s, s + n)` of `src`. -/
def blit (dst : Nat → α) (d : Nat) (src : Nat → α) (s n : Nat) : Nat → α :=
  fun a => if d ≤ a ∧ a < d + n then src (s + (a - d)) else dst a

/-- `dst` with the cells `[d, d + n)` replaced by those of `src` at the same addresses. -/
def scribble (dst : Nat → α) (d n : Nat) (src : Nat → α) : Nat → α := blit dst d src d n

theorem blit_in (dst src : Nat → α) {d s n i : Nat} (hi : i < n) :
    blit dst d src s n (d + i) = src (s + i) := by
  rw [blit, if_pos ⟨by omega, by omega⟩, Nat.add_sub_cancel_left]

theorem blit_out (dst src : Nat → α) {d s n a : Nat} (ha : a < d ∨ d + n ≤ a) :
    blit dst d src s n a = dst a := by
  rw [blit, if_neg (by omega)]

@[simp] theorem blit_zero (dst src : Nat → α) (d s : Nat) : blit dst d src s 0 = dst := by
  funext a
  exact blit_out dst src (by omega)

theorem blit_append (dst src : Nat → α) (d s m n : Nat) :
    blit (blit dst d src s m) (d + m) src (s + m) n = blit dst d src s (m + n) := by
  funext a
  simp only [blit]
  split_ifs with h1 h2 h3 h4 <;> first | omega | rfl | skip
  rw [show s + m + (a - (d + m)) = s + (a - d) by omega]

theorem scribble_out (dst src : Nat → α) {d n a : Nat} (ha : a < d ∨ d + n ≤ a) :
    scribble dst d n src a = dst a := blit_out dst src ha

end Lib
