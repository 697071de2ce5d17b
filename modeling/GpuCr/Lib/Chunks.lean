import Mathlib.Data.List.Pairwise

/-!
# Cutting a range into pieces

`Tiles d size rs` says that the pieces `rs` (start and length) are the range `[d, d + size)` cut into
consecutive pieces none of which is empty. Such pieces are disjoint, and an address is in the range exactly
if it is in a piece. Pieces are compared with a grid of granules of `g` bytes.
-/

namespace Lib.Chunks

def Tiles : Nat → Nat → List (Nat × Nat) → Prop
  | _, size, [] => size = 0
  | d, size, r :: rs => r.1 = d ∧ 0 < r.2 ∧ r.2 ≤ size ∧ Tiles (d + r.2) (size - r.2) rs

section Tiles
variable {d size : Nat} {rs : List (Nat × Nat)}

theorem Tiles.pos (h : Tiles d size rs) : ∀ r ∈ rs, 0 < r.2 := by
  induction rs generalizing d size with
  | nil => exact fun r hr => absurd hr List.not_mem_nil
  | cons r rs ih =>
    obtain ⟨-, hpos, -, hrest⟩ := h
    exact List.forall_mem_cons.2 ⟨hpos, ih hrest⟩

theorem Tiles.within (h : Tiles d size rs) : ∀ r ∈ rs, d ≤ r.1 ∧ r.1 + r.2 ≤ d + size := by
  induction rs generalizing d size with
  | nil => exact fun r hr => absurd hr List.not_mem_nil
  | cons r rs ih =>
    obtain ⟨hstart, hpos, hle, hrest⟩ := h
    refine List.forall_mem_cons.2 ⟨by omega, fun r' hr' => ?_⟩
    have := ih hrest r' hr'
    omega

/-- Each piece starts where the one before it ends. -/
theorem Tiles.consecutive (h : Tiles d size rs) : rs.IsChain fun r r' => r.1 + r.2 = r'.1 := by
  induction rs generalizing d size with
  | nil => exact List.IsChain.nil
  | cons r rs ih =>
    obtain ⟨hstart, -, -, hrest⟩ := h
    cases rs with
    | nil => exact List.IsChain.singleton r
    | cons r' rs =>
      refine List.isChain_cons_cons.2 ⟨?_, ih hrest⟩
      rw [hstart]
      exact hrest.1.symm

theorem Tiles.disjoint (h : Tiles d size rs) : rs.Pairwise fun r r' => r.1 + r.2 ≤ r'.1 := by
  induction rs generalizing d size with
  | nil => exact List.Pairwise.nil
  | cons r rs ih =>
    obtain ⟨hstart, -, -, hrest⟩ := h
    refine List.pairwise_cons.2 ⟨fun r' hr' => ?_, ih hrest⟩
    have := hrest.within r' hr'
    omega

theorem Tiles.cover (h : Tiles d size rs) (a : Nat) :
    d ≤ a ∧ a < d + size ↔ ∃ r ∈ rs, r.1 ≤ a ∧ a < r.1 + r.2 := by
  constructor
  · intro ha
    induction rs generalizing d size with
    | nil =>
      have hz : size = 0 := h
      omega
    | cons r rs ih =>
      obtain ⟨hstart, -, -, hrest⟩ := h
      by_cases hlt : a < d + r.2
      · exact ⟨r, List.mem_cons_self .., by omega, by omega⟩
      · obtain ⟨r', hr', hin⟩ := ih hrest (by omega)
        exact ⟨r', List.mem_cons_of_mem _ hr', hin⟩
  · rintro ⟨r, hr, hin⟩
    have := h.within r hr
    omega

end Tiles

/-! ### Granules -/

/-- The piece lies in one granule. -/
def InGranule (g : Nat) (r : Nat × Nat) : Prop := r.1 % g + r.2 ≤ g

/-- The piece starts or ends at a granule boundary. -/
def AlignedAtEnd (g : Nat) (r : Nat × Nat) : Prop := g ∣ r.1 ∨ g ∣ r.1 + r.2

instance (g : Nat) (r : Nat × Nat) : Decidable (InGranule g r) := inferInstanceAs (Decidable (_ ≤ _))

instance (g : Nat) (r : Nat × Nat) : Decidable (AlignedAtEnd g r) := inferInstanceAs (Decidable (_ ∨ _))

/-- The first and the last byte of a piece in one granule have that granule in common. -/
theorem InGranule.same {g : Nat} {r : Nat × Nat} (h : InGranule g r) {a b : Nat} (ha : r.1 ≤ a ∧ a < r.1 + r.2)
    (hb : r.1 ≤ b ∧ b < r.1 + r.2) : a / g = b / g := by
  unfold InGranule at h
  have hg : 0 < g := by omega
  have hdiv : ∀ x, r.1 ≤ x ∧ x < r.1 + r.2 → x / g = r.1 / g := by
    intro x hx
    have heq := Nat.div_add_mod r.1 g
    have hmul : r.1 / g * g = g * (r.1 / g) := Nat.mul_comm ..
    have hsucc : (r.1 / g + 1) * g = r.1 / g * g + g := Nat.succ_mul ..
    exact Nat.div_eq_of_lt_le (by omega) (by omega)
  rw [hdiv a ha, hdiv b hb]

end Lib.Chunks
