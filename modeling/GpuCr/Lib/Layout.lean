import Mathlib.Data.List.Basic
import Mathlib.Algebra.BigOperators.Group.List.Basic
import Mathlib.Algebra.GroupWithZero.Nat

/-!
# Consecutive placement

`place size off l` gives the elements of `l` consecutive ranges from `off` on. Placed elements do not
overlap, and when no range is empty an element's place determines the order of the list
(`prefix_of_place_subset`).
-/

namespace Lib.Layout

variable {α : Type*} {size : α → Nat}

def place (size : α → Nat) (off : Nat) : List α → List (α × Nat)
  | [] => []
  | a :: l => (a, off) :: place size (off + size a) l

@[simp] theorem map_fst_place (size : α → Nat) (off : Nat) (l : List α) : (place size off l).map Prod.fst = l := by
  induction l generalizing off with
  | nil => rfl
  | cons a l ih => simp [place, ih]

theorem bounds_of_mem_place {off : Nat} {l : List α} {x : α × Nat} (hx : x ∈ place size off l) :
    off ≤ x.2 ∧ x.2 + size x.1 ≤ off + (l.map size).sum := by
  induction l generalizing off with
  | nil => simp [place] at hx
  | cons a l ih =>
    rw [List.map_cons, List.sum_cons]
    rcases List.mem_cons.1 hx with rfl | hx
    · dsimp only
      omega
    · have := ih hx
      omega

theorem pairwise_place (size : α → Nat) (off : Nat) (l : List α) :
    (place size off l).Pairwise fun x y => x.2 + size x.1 ≤ y.2 := by
  induction l generalizing off with
  | nil => exact List.Pairwise.nil
  | cons a l ih =>
    refine List.pairwise_cons.2 ⟨?_, ih _⟩
    intro y hy
    exact (bounds_of_mem_place hy).1

/-- Every address of the placed range belongs to an element. -/
theorem exists_mem_place (size : α → Nat) {off o : Nat} (l : List α) (h : off ≤ o) (ho : o < off + (l.map size).sum) :
    ∃ x ∈ place size off l, x.2 ≤ o ∧ o < x.2 + size x.1 := by
  induction l generalizing off with
  | nil => simp at ho; omega
  | cons a l ih =>
    rw [List.map_cons, List.sum_cons] at ho
    by_cases hlt : o < off + size a
    · exact ⟨(a, off), List.mem_cons_self .., h, hlt⟩
    · obtain ⟨x, hx, hxo⟩ := @ih (off + size a) (by omega) (by omega)
      exact ⟨x, List.mem_cons_of_mem _ hx, hxo⟩

theorem place_append (off : Nat) (l l' : List α) :
    place size off (l ++ l') = place size off l ++ place size (off + (l.map size).sum) l' := by
  induction l generalizing off with
  | nil => simp [place]
  | cons a l ih => simp [place, ih, Nat.add_assoc]

/-- A list that places its elements like another one is the beginning of it. -/
theorem prefix_of_place_subset (size : α → Nat) (off : Nat) {l l' : List α} (hpos : ∀ a ∈ l, 0 < size a)
    (hpos' : ∀ a ∈ l', 0 < size a) (h : ∀ x ∈ place size off l, x ∈ place size off l') : l <+: l' := by
  induction l generalizing off l' with
  | nil => exact List.nil_prefix
  | cons a l ih =>
    have hmem := h (a, off) (List.mem_cons_self ..)
    cases l' with
    | nil => exact absurd hmem List.not_mem_nil
    | cons b l' =>
      have hb : 0 < size b := hpos' b (List.mem_cons_self ..)
      have ha : 0 < size a := hpos a (List.mem_cons_self ..)
      have hab : a = b := by
        rcases List.mem_cons.1 hmem with heq | hmem
        · exact (Prod.mk.inj heq).1
        · have := (bounds_of_mem_place hmem).1
          dsimp only at this
          omega
      subst hab
      refine (List.prefix_cons_inj a).2 (ih (off + size a) (fun c hc => hpos c (List.mem_cons_of_mem _ hc))
        (fun c hc => hpos' c (List.mem_cons_of_mem _ hc)) ?_)
      intro x hx
      rcases List.mem_cons.1 (h x (List.mem_cons_of_mem _ hx)) with rfl | hmem
      · have := (bounds_of_mem_place hx).1
        dsimp only at this
        omega
      · exact hmem

theorem prefix_place (size : α → Nat) (off : Nat) {l l' : List α} (h : l <+: l') : place size off l <+: place size off l' := by
  obtain ⟨r, rfl⟩ := h
  rw [place_append]
  exact List.prefix_append ..

theorem place_map {β : Type*} (f : β → α) (off : Nat) (l : List β) :
    place size off (l.map f) = (place (size ∘ f) off l).map (Prod.map f id) := by
  induction l generalizing off with
  | nil => rfl
  | cons a l ih => simp [place, ih]

/-- Groups placed one after the other. -/
def placeGroups (size : α → Nat) (off : Nat) : List (List α) → List (List (α × Nat))
  | [] => []
  | g :: gs => place size off g :: placeGroups size (off + (g.map size).sum) gs

theorem length_placeGroups (size : α → Nat) (off : Nat) (gs : List (List α)) :
    (placeGroups size off gs).length = gs.length := by
  induction gs generalizing off with
  | nil => rfl
  | cons g gs ih => rw [placeGroups, List.length_cons, List.length_cons, ih]

theorem ne_nil_of_mem_placeGroups {off : Nat} {gs : List (List α)} (hgs : ∀ g ∈ gs, g ≠ []) :
    ∀ g ∈ placeGroups size off gs, g ≠ [] := by
  induction gs generalizing off with
  | nil => simp [placeGroups]
  | cons g gs ih =>
    obtain ⟨hg, hgs⟩ := List.forall_mem_cons.1 hgs
    refine List.forall_mem_cons.2 ⟨fun hnil => hg ?_, ih hgs⟩
    rw [← map_fst_place size off g, hnil, List.map_nil]

theorem flatten_placeGroups (off : Nat) (gs : List (List α)) :
    (placeGroups size off gs).flatten = place size off gs.flatten := by
  induction gs generalizing off with
  | nil => rfl
  | cons g gs ih => rw [placeGroups, List.flatten_cons, List.flatten_cons, place_append, ih]

end Lib.Layout
