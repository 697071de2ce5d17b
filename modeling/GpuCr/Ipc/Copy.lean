import GpuCr.Driver

/-!
# Copies between device ranges and a host buffer

The copy loops that the save and rebuild functions of `src/ipc_hooks.cpp` share. A slot is a device range
and its place in the host buffer. One group of slots is copied for each device: asynchronously on a
stream if the host buffer could be pinned, else one blocking copy after the other. Loops differ in
whether a failed enqueue ends them; none looks at the result of the stream synchronization, after which
the targets of the group hold whatever has arrived.

Pushing and popping the device's context has no effect in this model.
-/

namespace GpuCr

open Lib

/-- `key` is the index or the handle the caller knows the range by. -/
structure Slot where
  key : Nat
  vaddr : Nat
  size : Nat
  offset : Nat
  deriving DecidableEq, Repr

/-- The places in the host buffer do not overlap. -/
def Slot.apart (x y : Slot) : Prop := x.offset + x.size ≤ y.offset ∨ y.offset + y.size ≤ x.offset

namespace Driver

def memcpyDtoH (d : Driver) (data : Nat → Byte) (x : Slot) : Bool × Driver × (Nat → Byte) :=
  let r := d.call (d.accessible x.vaddr x.size) id
  (r.1, r.2, if r.1 then blit data x.offset d.mem x.vaddr x.size else data)

def memcpyHtoD (d : Driver) (data : Nat → Byte) (x : Slot) : Bool × Driver :=
  d.call (d.accessible x.vaddr x.size) fun d => { d with mem := blit d.mem x.vaddr data x.offset x.size }

/-- All but the number of the next call. -/
structure Same (d d' : Driver) : Prop where
  env : d'.env = d.env
  mem : d'.mem = d.mem
  maps : d'.maps = d.maps
  live : d'.live = d.live

theorem Same.refl (d : Driver) : Same d d := ⟨rfl, rfl, rfl, rfl⟩

theorem Same.trans {d d' d'' : Driver} (h : Same d d') (h' : Same d' d'') : Same d d'' :=
  ⟨h'.env.trans h.env, h'.mem.trans h.mem, h'.maps.trans h.maps, h'.live.trans h.live⟩

theorem same_calls (d : Driver) (k : Nat) : Same d (d.calls k).2 := ⟨rfl, rfl, rfl, rfl⟩

theorem same_call_id (d : Driver) (valid : Bool) : Same d (d.call valid id).2 := by
  unfold call
  split_ifs <;> exact ⟨rfl, rfl, rfl, rfl⟩

end Driver

/-! ### From the device -/

/-- A save loop at work: `touched` are the slots it has come to, `saved` those whose bytes are in `data`.
No code reads `saved`. -/
structure SaveRun where
  drv : Driver
  data : Nat → Byte
  touched : List Slot
  saved : List Slot

def saveSlots (strict : Bool) : List Slot → SaveRun → Bool × SaveRun
  | [], r => (true, r)
  | x :: xs, r =>
    let c := r.drv.memcpyDtoH r.data x
    if c.1 then saveSlots strict xs ⟨c.2.1, c.2.2, r.touched ++ [x], r.saved ++ [x]⟩
    else if strict then (false, ⟨c.2.1, c.2.2, r.touched ++ [x], r.saved⟩)
    else saveSlots strict xs ⟨c.2.1, c.2.2, r.touched ++ [x], r.saved⟩

/-- The host ranges of the slots after a synchronization that failed. -/
def lostSlots (d : Driver) (data : Nat → Byte) (xs : List Slot) : Nat → Byte :=
  xs.foldl (fun data x => scribble data x.offset x.size (d.env.fresh d.clock)) data

/-- The copies of one device. -/
def saveGroup (async strict : Bool) (xs : List Slot) (r : SaveRun) : Bool × SaveRun :=
  if async then
    -- `cuStreamCreate`, the copies, `cuStreamSynchronize`, `cuStreamDestroy`
    let c := saveSlots strict xs { r with drv := (r.drv.calls 1).2 }
    if !c.1 then (false, { c.2 with drv := (c.2.drv.calls 1).2 })
    else
      let sync := c.2.drv.calls 1
      if sync.1 then (true, { c.2 with drv := (sync.2.calls 1).2 })
      else (true, ⟨(sync.2.calls 1).2, lostSlots c.2.drv c.2.data xs, c.2.touched, r.saved⟩)
  else saveSlots true xs r

/-- The loop over the devices: whether it came to its end, and how many of the groups it finished. -/
def saveGroups (async strict : Bool) : List (List Slot) → SaveRun → Bool × Nat × SaveRun
  | [], r => (true, 0, r)
  | g :: gs, r =>
    let c := saveGroup async strict g r
    if !c.1 then (false, 0, c.2)
    else
      let cs := saveGroups async strict gs c.2
      (cs.1, cs.2.1 + 1, cs.2.2)

/-- The saved slots read in the buffer what the device holds. -/
structure SaveRun.Faithful (d : Driver) (r : SaveRun) : Prop where
  same : d.Same r.drv
  saved : ∀ x ∈ r.saved, ∀ i < x.size, r.data (x.offset + i) = d.mem (x.vaddr + i)

section Save
variable {d : Driver} {r : SaveRun}

theorem SaveRun.Faithful.drv (h : r.Faithful d) {drv : Driver} (hdrv : r.drv.Same drv) :
    SaveRun.Faithful d { r with drv := drv } :=
  ⟨h.same.trans hdrv, h.saved⟩

theorem memcpyDtoH_drv (d : Driver) (data : Nat → Byte) (x : Slot) : d.Same (d.memcpyDtoH data x).2.1 :=
  Driver.same_call_id d _

theorem memcpyDtoH_apart (d : Driver) (data : Nat → Byte) {x y : Slot} (h : x.apart y) {i : Nat}
    (hi : i < x.size) : (d.memcpyDtoH data y).2.2 (x.offset + i) = data (x.offset + i) := by
  unfold Driver.memcpyDtoH Slot.apart at *
  dsimp only
  split_ifs
  · exact blit_out _ _ (by omega)
  · rfl

theorem memcpyDtoH_same (d : Driver) (data : Nat → Byte) (x : Slot)
    (hok : (d.memcpyDtoH data x).1 = true) {i : Nat} (hi : i < x.size) :
    (d.memcpyDtoH data x).2.2 (x.offset + i) = d.mem (x.vaddr + i) := by
  unfold Driver.memcpyDtoH at *
  dsimp only at *
  rw [if_pos hok]
  exact blit_in _ _ hi

/-- What a save loop adds to the saved slots is among those it was given. -/
structure SaveRun.Extends (r r' : SaveRun) (xs : List Slot) : Prop where
  keeps : ∀ x ∈ r.saved, x ∈ r'.saved
  adds : ∀ x ∈ r'.saved, x ∈ r.saved ∨ x ∈ xs

theorem saveSlots_spec (strict : Bool) (xs : List Slot) (h : r.Faithful d) (hxs : xs.Pairwise Slot.apart)
    (hsaved : ∀ x ∈ r.saved, ∀ y ∈ xs, x.apart y) :
    (saveSlots strict xs r).2.Faithful d ∧ r.Extends (saveSlots strict xs r).2 xs := by
  induction xs generalizing r with
  | nil => exact ⟨h, fun x hx => hx, fun x hx => Or.inl hx⟩
  | cons y xs ih =>
    obtain ⟨hy, hxs⟩ := List.pairwise_cons.1 hxs
    have hsame := h.same.trans (memcpyDtoH_drv r.drv r.data y)
    have hkeep : ∀ x ∈ r.saved, ∀ i < x.size,
        (r.drv.memcpyDtoH r.data y).2.2 (x.offset + i) = d.mem (x.vaddr + i) := by
      intro x hx i hi
      rw [memcpyDtoH_apart _ _ (hsaved x hx y (List.mem_cons_self ..)) hi]
      exact h.saved x hx i hi
    have hrest : ∀ x ∈ r.saved, ∀ z ∈ xs, x.apart z :=
      fun x hx z hz => hsaved x hx z (List.mem_cons_of_mem _ hz)
    unfold saveSlots
    dsimp only
    split_ifs with hok hstrict
    · obtain ⟨h1, h2, h3⟩ := ih (r := ⟨(r.drv.memcpyDtoH r.data y).2.1, (r.drv.memcpyDtoH r.data y).2.2,
        r.touched ++ [y], r.saved ++ [y]⟩)
        ⟨hsame, by
          intro x hx i hi
          rcases List.mem_append.1 hx with hx | hx
          · exact hkeep x hx i hi
          · obtain rfl := List.mem_singleton.1 hx
            rw [← h.same.mem]
            exact memcpyDtoH_same _ _ _ hok hi⟩
        hxs (by
          intro x hx z hz
          rcases List.mem_append.1 hx with hx | hx
          · exact hrest x hx z hz
          · exact List.mem_singleton.1 hx ▸ hy z hz)
      refine ⟨h1, fun x hx => h2 x (List.mem_append_left _ hx), fun x hx => ?_⟩
      rcases h3 x hx with hx | hx
      · rcases List.mem_append.1 hx with hx | hx
        · exact Or.inl hx
        · exact Or.inr (List.mem_singleton.1 hx ▸ List.mem_cons_self ..)
      · exact Or.inr (List.mem_cons_of_mem _ hx)
    · exact ⟨⟨hsame, hkeep⟩, fun x hx => hx, fun x hx => Or.inl hx⟩
    · obtain ⟨h1, h2, h3⟩ := ih (r := ⟨(r.drv.memcpyDtoH r.data y).2.1, (r.drv.memcpyDtoH r.data y).2.2,
        r.touched ++ [y], r.saved⟩) ⟨hsame, hkeep⟩ hxs hrest
      exact ⟨h1, h2, fun x hx => (h3 x hx).imp_right (List.mem_cons_of_mem _)⟩

theorem lostSlots_apart (d : Driver) (xs : List Slot) (data : Nat → Byte) {x : Slot}
    (h : ∀ y ∈ xs, x.apart y) {i : Nat} (hi : i < x.size) :
    lostSlots d data xs (x.offset + i) = data (x.offset + i) := by
  induction xs generalizing data with
  | nil => rfl
  | cons y xs ih =>
    have hy := h y (List.mem_cons_self ..)
    unfold Slot.apart at hy
    refine (ih _ fun z hz => h z (List.mem_cons_of_mem _ hz)).trans ?_
    exact scribble_out _ _ (by omega)

theorem saveGroup_spec (async strict : Bool) (xs : List Slot) (h : r.Faithful d) (hxs : xs.Pairwise Slot.apart)
    (hsaved : ∀ x ∈ r.saved, ∀ y ∈ xs, x.apart y) :
    (saveGroup async strict xs r).2.Faithful d ∧ r.Extends (saveGroup async strict xs r).2 xs := by
  unfold saveGroup
  split_ifs with hasync
  · obtain ⟨h1, h2⟩ := saveSlots_spec strict xs (h.drv (Driver.same_calls r.drv 1)) hxs hsaved
    have h2' : r.Extends (saveSlots strict xs { r with drv := (r.drv.calls 1).2 }).2 xs := ⟨h2.keeps, h2.adds⟩
    have hcalls := (Driver.same_calls (saveSlots strict xs { r with drv := (r.drv.calls 1).2 }).2.drv 1).trans
      (Driver.same_calls _ 1)
    dsimp only
    split_ifs with hfail hsync
    · exact ⟨h1.drv (Driver.same_calls _ 1), h2'.keeps, h2'.adds⟩
    · exact ⟨h1.drv hcalls, h2'.keeps, h2'.adds⟩
    · -- what the group copied is lost, what earlier groups copied is not
      refine ⟨⟨h1.same.trans hcalls, ?_⟩, fun x hx => hx, fun x hx => Or.inl hx⟩
      intro x hx i hi
      refine (lostSlots_apart _ _ _ (hsaved x hx) hi).trans ?_
      exact h1.saved x (h2'.keeps x hx) i hi
  · exact saveSlots_spec true xs h hxs hsaved

/-- **What the save loops leave in the buffer**: every slot they count as saved reads there what the device
holds. -/
theorem saveGroups_spec (async strict : Bool) (gs : List (List Slot)) (h : r.Faithful d)
    (hgs : gs.flatten.Pairwise Slot.apart) (hsaved : ∀ x ∈ r.saved, ∀ y ∈ gs.flatten, x.apart y) :
    (saveGroups async strict gs r).2.2.Faithful d ∧
      r.Extends (saveGroups async strict gs r).2.2 gs.flatten := by
  induction gs generalizing r with
  | nil => exact ⟨h, fun x hx => hx, fun x hx => Or.inl hx⟩
  | cons g gs ih =>
    rw [List.flatten_cons] at hgs hsaved ⊢
    obtain ⟨hg, hgs, hdisj⟩ := List.pairwise_append.1 hgs
    obtain ⟨h1, h2⟩ := saveGroup_spec async strict g h hg
      fun x hx y hy => hsaved x hx y (List.mem_append_left _ hy)
    unfold saveGroups
    dsimp only
    split_ifs with hfail
    · exact ⟨h1, h2.keeps, fun x hx => (h2.adds x hx).imp_right (List.mem_append_left _)⟩
    · obtain ⟨h3, h4⟩ := ih h1 hgs (by
        intro x hx y hy
        rcases h2.adds x hx with hx | hx
        · exact hsaved x hx y (List.mem_append_right _ hy)
        · exact hdisj x hx y hy)
      refine ⟨h3, fun x hx => h4.keeps x (h2.keeps x hx), fun x hx => ?_⟩
      rcases h4.adds x hx with hx | hx
      · exact (h2.adds x hx).imp_right (List.mem_append_left _)
      · exact Or.inr (List.mem_append_right _ hx)

/-- A save loop comes to every slot it saves, and to none that it was not given. -/
structure SaveRun.Visits (r r' : SaveRun) (xs : List Slot) : Prop where
  keeps : ∀ x ∈ r.touched, x ∈ r'.touched
  adds : ∀ x ∈ r'.touched, x ∈ r.touched ∨ x ∈ xs
  saved : ∀ x ∈ r'.saved, x ∈ r.saved ∨ x ∈ r'.touched

theorem saveSlots_visits (strict : Bool) (xs : List Slot) (r : SaveRun) :
    r.Visits (saveSlots strict xs r).2 xs := by
  induction xs generalizing r with
  | nil => exact ⟨fun x hx => hx, fun x hx => Or.inl hx, fun x hx => Or.inl hx⟩
  | cons y xs ih =>
    have htouched : ∀ r' : SaveRun, (∀ x ∈ r'.touched, x ∈ r.touched ++ [y] ∨ x ∈ xs) →
        ∀ x ∈ r'.touched, x ∈ r.touched ∨ x ∈ y :: xs := by
      intro r' h x hx
      rcases h x hx with hx | hx
      · rcases List.mem_append.1 hx with hx | hx
        · exact Or.inl hx
        · exact Or.inr (List.mem_singleton.1 hx ▸ List.mem_cons_self ..)
      · exact Or.inr (List.mem_cons_of_mem _ hx)
    unfold saveSlots
    dsimp only
    split_ifs with hok hstrict
    · obtain ⟨h1, h2, h3⟩ := ih ⟨(r.drv.memcpyDtoH r.data y).2.1, (r.drv.memcpyDtoH r.data y).2.2,
        r.touched ++ [y], r.saved ++ [y]⟩
      refine ⟨fun x hx => h1 x (List.mem_append_left _ hx), htouched _ h2, fun x hx => ?_⟩
      rcases h3 x hx with hx | hx
      · rcases List.mem_append.1 hx with hx | hx
        · exact Or.inl hx
        · exact Or.inr (h1 x (List.mem_append_right _ hx))
      · exact Or.inr hx
    · exact ⟨fun x hx => List.mem_append_left _ hx, htouched _ fun x hx => Or.inl hx, fun x hx => Or.inl hx⟩
    · obtain ⟨h1, h2, h3⟩ := ih ⟨(r.drv.memcpyDtoH r.data y).2.1, (r.drv.memcpyDtoH r.data y).2.2,
        r.touched ++ [y], r.saved⟩
      exact ⟨fun x hx => h1 x (List.mem_append_left _ hx), htouched _ h2, h3⟩

theorem saveGroup_visits (async strict : Bool) (xs : List Slot) (r : SaveRun) :
    r.Visits (saveGroup async strict xs r).2 xs := by
  unfold saveGroup
  split_ifs with hasync
  · have h := saveSlots_visits strict xs { r with drv := (r.drv.calls 1).2 }
    dsimp only
    split_ifs with hfail hsync
    · exact ⟨h.keeps, h.adds, h.saved⟩
    · exact ⟨h.keeps, h.adds, h.saved⟩
    · exact ⟨h.keeps, h.adds, fun x hx => Or.inl hx⟩
  · exact saveSlots_visits true xs r

theorem saveGroups_visits (async strict : Bool) (gs : List (List Slot)) (r : SaveRun) :
    r.Visits (saveGroups async strict gs r).2.2 gs.flatten := by
  induction gs generalizing r with
  | nil => exact ⟨fun x hx => hx, fun x hx => Or.inl hx, fun x hx => Or.inl hx⟩
  | cons g gs ih =>
    rw [List.flatten_cons]
    have h := saveGroup_visits async strict g r
    unfold saveGroups
    dsimp only
    split_ifs with hfail
    · exact ⟨h.keeps, fun x hx => (h.adds x hx).imp_right (List.mem_append_left _), h.saved⟩
    · obtain ⟨h1, h2, h3⟩ := ih (saveGroup async strict g r).2
      refine ⟨fun x hx => h1 x (h.keeps x hx), fun x hx => ?_, fun x hx => ?_⟩
      · rcases h2 x hx with hx | hx
        · exact (h.adds x hx).imp_right (List.mem_append_left _)
        · exact Or.inr (List.mem_append_right _ hx)
      · rcases h3 x hx with hx | hx
        · exact (h.saved x hx).imp_right (h1 x)
        · exact Or.inr hx

theorem saveGroups_count (async strict : Bool) (gs : List (List Slot)) (r : SaveRun)
    (h : (saveGroups async strict gs r).1 = true) : (saveGroups async strict gs r).2.1 = gs.length := by
  induction gs generalizing r with
  | nil => rfl
  | cons g gs ih =>
    unfold saveGroups at h ⊢
    dsimp only at h ⊢
    split_ifs at h ⊢ with hfail
    rw [List.length_cons, ih _ h]

/-! A reliable driver copies every slot it can read. -/

theorem saveSlots_reliable (strict : Bool) (xs : List Slot) (henv : r.drv.env.Reliable)
    (hacc : ∀ x ∈ xs, r.drv.accessible x.vaddr x.size = true) :
    (saveSlots strict xs r).1 = true ∧ (saveSlots strict xs r).2.touched = r.touched ++ xs ∧
      (saveSlots strict xs r).2.saved = r.saved ++ xs ∧ r.drv.Same (saveSlots strict xs r).2.drv := by
  induction xs generalizing r with
  | nil => simp [saveSlots, Driver.Same.refl]
  | cons x xs ih =>
    have hcopy : r.drv.memcpyDtoH r.data x = (true, { r.drv with clock := r.drv.clock + 1 },
        blit r.data x.offset r.drv.mem x.vaddr x.size) := by
      unfold Driver.memcpyDtoH
      rw [Driver.call_of_valid henv (hacc x (List.mem_cons_self ..))]
      simp
    unfold saveSlots
    simp only [hcopy, if_true]
    obtain ⟨h1, h2, h3, h4⟩ := ih (r := ⟨{ r.drv with clock := r.drv.clock + 1 },
      blit r.data x.offset r.drv.mem x.vaddr x.size, r.touched ++ [x], r.saved ++ [x]⟩) henv
      fun y hy => hacc y (List.mem_cons_of_mem _ hy)
    refine ⟨h1, by simp [h2], by simp [h3], ?_⟩
    exact ⟨h4.env, h4.mem, h4.maps, h4.live⟩

theorem saveGroup_reliable (async strict : Bool) (xs : List Slot) (henv : r.drv.env.Reliable)
    (hacc : ∀ x ∈ xs, r.drv.accessible x.vaddr x.size = true) :
    (saveGroup async strict xs r).1 = true ∧ (saveGroup async strict xs r).2.touched = r.touched ++ xs ∧
      (saveGroup async strict xs r).2.saved = r.saved ++ xs ∧ r.drv.Same (saveGroup async strict xs r).2.drv := by
  unfold saveGroup
  split_ifs with hasync
  · obtain ⟨h1, h2, h3, h4⟩ := saveSlots_reliable (r := { r with drv := (r.drv.calls 1).2 }) strict xs henv hacc
    have henv' : (saveSlots strict xs { r with drv := (r.drv.calls 1).2 }).2.drv.env.Reliable :=
      h4.env ▸ henv
    have hsync := congrArg Prod.fst (Driver.calls_of_reliable henv' 1)
    simp only [h1, hsync, Bool.not_true, Bool.false_eq_true, if_false, if_true]
    have hcalls := h4.trans ((Driver.same_calls _ 1).trans (Driver.same_calls _ 1))
    exact ⟨trivial, h2, h3, hcalls.env, hcalls.mem, hcalls.maps, hcalls.live⟩
  · exact saveSlots_reliable true xs henv hacc

theorem saveGroups_reliable (async strict : Bool) (gs : List (List Slot)) (henv : r.drv.env.Reliable)
    (hacc : ∀ x ∈ gs.flatten, r.drv.accessible x.vaddr x.size = true) :
    (saveGroups async strict gs r).1 = true ∧ (saveGroups async strict gs r).2.1 = gs.length ∧
      (saveGroups async strict gs r).2.2.saved = r.saved ++ gs.flatten := by
  induction gs generalizing r with
  | nil => simp [saveGroups]
  | cons g gs ih =>
    rw [List.flatten_cons] at hacc
    obtain ⟨h1, -, h3, h4⟩ := saveGroup_reliable async strict g henv
      fun x hx => hacc x (List.mem_append_left _ hx)
    obtain ⟨h5, h6, h7⟩ := ih (r := (saveGroup async strict g r).2) (h4.env ▸ henv) (by
      intro x hx
      have hsame : ∀ a n, (saveGroup async strict g r).2.drv.accessible a n = r.drv.accessible a n := by
        intro a n
        rw [Driver.accessible, Driver.accessible, h4.maps]
      rw [hsame]
      exact hacc x (List.mem_append_right _ hx))
    unfold saveGroups
    simp only [h1, Bool.not_true, Bool.false_eq_true, if_false]
    exact ⟨h5, by simp [h6], by simp [h7, h3]⟩

end Save

/-! ### To the device -/

/-- A restore loop at work: `restored` are the slots whose bytes are back on the device. No code reads it. -/
structure RestoreRun where
  drv : Driver
  restored : List Slot

/-- A slot past the end of the buffer is left out; the result of a copy is not looked at. -/
def restoreSlot (bufSize : Nat) (data : Nat → Byte) (r : RestoreRun) (x : Slot) : RestoreRun :=
  if x.offset + x.size ≤ bufSize then
    let c := r.drv.memcpyHtoD data x
    ⟨c.2, if c.1 then r.restored ++ [x] else r.restored⟩
  else r

def restoreSlots (bufSize : Nat) (data : Nat → Byte) (xs : List Slot) (r : RestoreRun) : RestoreRun :=
  xs.foldl (restoreSlot bufSize data) r

/-- The device ranges of the slots after a synchronization that failed. -/
def Driver.lostSlots (d : Driver) (xs : List Slot) : Driver :=
  { d with mem := xs.foldl (fun mem x => scribble mem x.vaddr x.size (d.env.fresh d.clock)) d.mem }

def restoreGroup (async : Bool) (bufSize : Nat) (data : Nat → Byte) (xs : List Slot) (r : RestoreRun) :
    RestoreRun :=
  if async then
    let c := restoreSlots bufSize data xs { r with drv := (r.drv.calls 1).2 }
    let sync := c.drv.calls 1
    if sync.1 then { c with drv := (sync.2.calls 1).2 }
    else ⟨((sync.2.calls 1).2).lostSlots xs, r.restored⟩
  else restoreSlots bufSize data xs r

def restoreGroups (async : Bool) (bufSize : Nat) (data : Nat → Byte) (gs : List (List Slot)) (r : RestoreRun) :
    RestoreRun :=
  gs.foldl (fun r g => restoreGroup async bufSize data g r) r

/-- The device ranges do not overlap. -/
def Slot.vapart (x y : Slot) : Prop := x.vaddr + x.size ≤ y.vaddr ∨ y.vaddr + y.size ≤ x.vaddr

/-- The restored slots read on the device what the buffer holds, and the copies have touched nothing
outside the slots. -/
structure RestoreRun.Faithful (data : Nat → Byte) (d : Driver) (slots : List Slot) (r : RestoreRun) : Prop where
  env : r.drv.env = d.env
  maps : r.drv.maps = d.maps
  live : r.drv.live = d.live
  restored : ∀ x ∈ r.restored, ∀ i < x.size, r.drv.mem (x.vaddr + i) = data (x.offset + i)
  frame : ∀ a, (∀ x ∈ slots, a < x.vaddr ∨ x.vaddr + x.size ≤ a) → r.drv.mem a = d.mem a

section Restore
variable {d : Driver} {data : Nat → Byte} {slots : List Slot} {r : RestoreRun}

theorem RestoreRun.Faithful.drv (h : r.Faithful data d slots) {drv : Driver} (hdrv : r.drv.Same drv) :
    RestoreRun.Faithful data d slots { r with drv := drv } := by
  refine ⟨hdrv.env.trans h.env, hdrv.maps.trans h.maps, hdrv.live.trans h.live, ?_, ?_⟩
  · intro x hx i hi
    exact (congrFun hdrv.mem _).trans (h.restored x hx i hi)
  · intro a ha
    exact (congrFun hdrv.mem a).trans (h.frame a ha)

theorem restoreSlot_spec (bufSize : Nat) (h : r.Faithful data d slots) {y : Slot} (hy : y ∈ slots)
    (hapart : ∀ x ∈ r.restored, x.vapart y) :
    (restoreSlot bufSize data r y).Faithful data d slots ∧
      (∀ x ∈ r.restored, x ∈ (restoreSlot bufSize data r y).restored) ∧
      ∀ x ∈ (restoreSlot bufSize data r y).restored, x ∈ r.restored ∨ x = y := by
  unfold restoreSlot
  split_ifs with hfit
  swap
  · exact ⟨h, fun x hx => hx, fun x hx => Or.inl hx⟩
  unfold Driver.memcpyHtoD Driver.call
  by_cases hok : (r.drv.accessible y.vaddr y.size && !r.drv.env.fails r.drv.clock) = true
  · simp only [hok, if_true]
    refine ⟨⟨h.env, h.maps, h.live, ?_, ?_⟩, fun x hx => List.mem_append_left _ hx, ?_⟩
    · intro x hx i hi
      rcases List.mem_append.1 hx with hx | hx
      · have hxy := hapart x hx
        unfold Slot.vapart at hxy
        exact (blit_out _ _ (by omega)).trans (h.restored x hx i hi)
      · obtain rfl := List.mem_singleton.1 hx
        exact blit_in _ _ hi
    · intro a ha
      have := ha y hy
      exact (blit_out _ _ (by omega)).trans (h.frame a ha)
    · intro x hx
      rcases List.mem_append.1 hx with hx | hx
      · exact Or.inl hx
      · exact Or.inr (List.mem_singleton.1 hx)
  · simp only [hok, Bool.false_eq_true, if_false]
    exact ⟨h.drv ⟨rfl, rfl, rfl, rfl⟩, fun x hx => hx, fun x hx => Or.inl hx⟩

theorem restoreSlots_spec (bufSize : Nat) (xs : List Slot) (h : r.Faithful data d slots)
    (hxs : xs.Pairwise Slot.vapart) (hmem : ∀ x ∈ xs, x ∈ slots)
    (hapart : ∀ x ∈ r.restored, ∀ y ∈ xs, x.vapart y) :
    (restoreSlots bufSize data xs r).Faithful data d slots ∧
      (∀ x ∈ r.restored, x ∈ (restoreSlots bufSize data xs r).restored) ∧
      ∀ x ∈ (restoreSlots bufSize data xs r).restored, x ∈ r.restored ∨ x ∈ xs := by
  induction xs generalizing r with
  | nil => exact ⟨h, fun x hx => hx, fun x hx => Or.inl hx⟩
  | cons y xs ih =>
    obtain ⟨hy, hxs⟩ := List.pairwise_cons.1 hxs
    obtain ⟨h1, h2, h3⟩ := restoreSlot_spec bufSize h (hmem y (List.mem_cons_self ..))
      fun x hx => hapart x hx y (List.mem_cons_self ..)
    obtain ⟨h4, h5, h6⟩ := ih h1 hxs (fun x hx => hmem x (List.mem_cons_of_mem _ hx)) (by
      intro x hx z hz
      rcases h3 x hx with hx | rfl
      · exact hapart x hx z (List.mem_cons_of_mem _ hz)
      · exact hy z hz)
    refine ⟨h4, fun x hx => h5 x (h2 x hx), fun x hx => ?_⟩
    rcases h6 x hx with hx | hx
    · exact (h3 x hx).imp_right fun hxy : x = y => hxy ▸ List.mem_cons_self ..
    · exact Or.inr (List.mem_cons_of_mem _ hx)

theorem foldl_scribble_out (fresh : Nat → Byte) (xs : List Slot) (mem : Nat → Byte) {a : Nat}
    (h : ∀ x ∈ xs, a < x.vaddr ∨ x.vaddr + x.size ≤ a) :
    xs.foldl (fun mem x => scribble mem x.vaddr x.size fresh) mem a = mem a := by
  induction xs generalizing mem with
  | nil => rfl
  | cons y xs ih =>
    refine (ih _ fun x hx => h x (List.mem_cons_of_mem _ hx)).trans ?_
    exact scribble_out _ _ (h y (List.mem_cons_self ..))

theorem restoreGroup_spec (async : Bool) (bufSize : Nat) (xs : List Slot) (h : r.Faithful data d slots)
    (hxs : xs.Pairwise Slot.vapart) (hmem : ∀ x ∈ xs, x ∈ slots)
    (hapart : ∀ x ∈ r.restored, ∀ y ∈ xs, x.vapart y) :
    (restoreGroup async bufSize data xs r).Faithful data d slots ∧
      (∀ x ∈ r.restored, x ∈ (restoreGroup async bufSize data xs r).restored) ∧
      ∀ x ∈ (restoreGroup async bufSize data xs r).restored, x ∈ r.restored ∨ x ∈ xs := by
  unfold restoreGroup
  split_ifs with hasync
  swap
  · exact restoreSlots_spec bufSize xs h hxs hmem hapart
  obtain ⟨h1, h2, h3⟩ := restoreSlots_spec bufSize xs (h.drv (Driver.same_calls r.drv 1)) hxs hmem hapart
  have hcalls := (Driver.same_calls (restoreSlots bufSize data xs { r with drv := (r.drv.calls 1).2 }).drv 1).trans
    (Driver.same_calls _ 1)
  dsimp only
  split_ifs with hsync
  · exact ⟨h1.drv hcalls, h2, h3⟩
  · refine ⟨⟨hcalls.env.trans h1.env, hcalls.maps.trans h1.maps, hcalls.live.trans h1.live, ?_, ?_⟩,
      fun x hx => hx, fun x hx => Or.inl hx⟩
    · intro x hx i hi
      refine (foldl_scribble_out _ _ _ ?_).trans
        ((congrFun hcalls.mem _).trans (h1.restored x (h2 x hx) i hi))
      intro y hy
      have := hapart x hx y hy
      unfold Slot.vapart at this
      omega
    · intro a ha
      refine (foldl_scribble_out _ _ _ fun y hy => ha y (hmem y hy)).trans ?_
      exact (congrFun hcalls.mem a).trans (h1.frame a ha)

/-- **What the restore loops leave on the device.** -/
theorem restoreGroups_spec (async : Bool) (bufSize : Nat) (gs : List (List Slot)) (h : r.Faithful data d slots)
    (hgs : gs.flatten.Pairwise Slot.vapart) (hmem : ∀ x ∈ gs.flatten, x ∈ slots)
    (hapart : ∀ x ∈ r.restored, ∀ y ∈ gs.flatten, x.vapart y) :
    (restoreGroups async bufSize data gs r).Faithful data d slots := by
  induction gs generalizing r with
  | nil => exact h
  | cons g gs ih =>
    rw [List.flatten_cons] at hgs hmem hapart
    obtain ⟨hg, hgs, hdisj⟩ := List.pairwise_append.1 hgs
    obtain ⟨h1, h2, h3⟩ := restoreGroup_spec async bufSize g h hg
      (fun x hx => hmem x (List.mem_append_left _ hx))
      (fun x hx y hy => hapart x hx y (List.mem_append_left _ hy))
    refine ih h1 hgs (fun x hx => hmem x (List.mem_append_right _ hx)) ?_
    intro x hx y hy
    rcases h3 x hx with hx | hx
    · exact hapart x hx y (List.mem_append_right _ hy)
    · exact hdisj x hx y hy

/-! A driver that does not fail restores every slot that lies in the buffer and on the device. -/

theorem restoreSlots_reliable (bufSize : Nat) (data : Nat → Byte) (xs : List Slot) (hrel : r.drv.ReliableFrom)
    (hxs : ∀ x ∈ xs, x.offset + x.size ≤ bufSize ∧ r.drv.accessible x.vaddr x.size = true) :
    (restoreSlots bufSize data xs r).restored = r.restored ++ xs ∧
      (restoreSlots bufSize data xs r).drv.env = r.drv.env ∧
      (restoreSlots bufSize data xs r).drv.maps = r.drv.maps ∧
      r.drv.clock ≤ (restoreSlots bufSize data xs r).drv.clock := by
  induction xs generalizing r with
  | nil => simp [restoreSlots]
  | cons x xs ih =>
    obtain ⟨hfit, hacc⟩ := hxs x (List.mem_cons_self ..)
    have hstep : restoreSlot bufSize data r x = ⟨{ r.drv with
        clock := r.drv.clock + 1
        mem := blit r.drv.mem x.vaddr data x.offset x.size }, r.restored ++ [x]⟩ := by
      unfold restoreSlot Driver.memcpyHtoD
      rw [if_pos hfit, Driver.call_ok hacc (hrel _ le_rfl)]
      rfl
    have hcons : restoreSlots bufSize data (x :: xs) r =
        restoreSlots bufSize data xs (restoreSlot bufSize data r x) := rfl
    rw [hcons, hstep]
    obtain ⟨h1, h2, h3, h4⟩ := ih (r := ⟨{ r.drv with
        clock := r.drv.clock + 1
        mem := blit r.drv.mem x.vaddr data x.offset x.size }, r.restored ++ [x]⟩)
      (hrel.of_le rfl (Nat.le_succ _)) fun y hy => hxs y (List.mem_cons_of_mem _ hy)
    exact ⟨by simp [h1], h2, h3, (Nat.le_succ _).trans h4⟩

theorem restoreGroup_reliable (async : Bool) (bufSize : Nat) (data : Nat → Byte) (xs : List Slot) (hrel : r.drv.ReliableFrom)
    (hxs : ∀ x ∈ xs, x.offset + x.size ≤ bufSize ∧ r.drv.accessible x.vaddr x.size = true) :
    (restoreGroup async bufSize data xs r).restored = r.restored ++ xs ∧
      (restoreGroup async bufSize data xs r).drv.env = r.drv.env ∧
      (restoreGroup async bufSize data xs r).drv.maps = r.drv.maps ∧
      r.drv.clock ≤ (restoreGroup async bufSize data xs r).drv.clock := by
  unfold restoreGroup
  split_ifs with hasync
  · have hcreate : r.drv.clock ≤ (r.drv.calls 1).2.clock := Nat.le_succ _
    obtain ⟨h1, h2, h3, h4⟩ := restoreSlots_reliable (r := { r with drv := (r.drv.calls 1).2 })
      bufSize data xs (hrel.of_le rfl hcreate) hxs
    have hsync := Driver.calls_of_reliableFrom (hrel.of_le h2 (hcreate.trans h4)) 1
    simp only [hsync, if_true]
    refine ⟨h1, h2, h3, ?_⟩
    exact (hcreate.trans h4).trans (Nat.le_add_right _ 2)
  · exact restoreSlots_reliable bufSize data xs hrel hxs

theorem restoreGroups_reliable (async : Bool) (bufSize : Nat) (gs : List (List Slot)) (hrel : r.drv.ReliableFrom)
    (hgs : ∀ x ∈ gs.flatten, x.offset + x.size ≤ bufSize ∧ r.drv.accessible x.vaddr x.size = true) :
    (restoreGroups async bufSize data gs r).restored = r.restored ++ gs.flatten := by
  induction gs generalizing r with
  | nil => simp [restoreGroups]
  | cons g gs ih =>
    rw [List.flatten_cons] at hgs ⊢
    obtain ⟨h1, h2, h3, h4⟩ := restoreGroup_reliable async bufSize data g hrel
      fun x hx => hgs x (List.mem_append_left _ hx)
    refine (ih (r := restoreGroup async bufSize data g r) (hrel.of_le h2 h4) ?_).trans (by rw [h1, List.append_assoc])
    intro x hx
    rw [Driver.accessible, h3]
    exact hgs x (List.mem_append_right _ hx)

end Restore

end GpuCr
