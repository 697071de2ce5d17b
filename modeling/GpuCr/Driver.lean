import GpuCr.Common
import Mathlib.Data.List.Pairwise

/-!
# The CUDA driver

The part of the driver the code relies on: physical allocations behind handles, mappings of virtual
ranges, and the bytes a mapped range reads. Everything the code has no say in is an environment
(`DriverEnv`): which calls fail although their arguments are valid, which handle a creation returns,
and what fresh physical memory holds. A call whose arguments are invalid fails in every environment.

Contents are kept by virtual address. An unmapped range keeps the bytes it read last, which nothing
can read before a new mapping puts fresh bytes there.
-/

namespace GpuCr

open Lib

/-! ### Lookups in the tables of the code -/

theorem getElem?_insert_key {α : Type} (t : Std.ExtTreeMap Nat α) (p : Nat) (n : α) (q : Nat) :
    (t.insert p n)[q]? = if q = p then some n else t[q]? := by
  rw [Std.ExtTreeMap.getElem?_insert]
  simp only [Nat.compare_eq_eq]
  exact if_congr eq_comm rfl rfl

theorem getElem?_erase_key {α : Type} (t : Std.ExtTreeMap Nat α) (p q : Nat) :
    (t.erase p)[q]? = if q = p then none else t[q]? := by
  rw [Std.ExtTreeMap.getElem?_erase]
  simp only [Nat.compare_eq_eq]
  exact if_congr eq_comm rfl rfl

/-! ### The driver -/

structure Mapping where
  va : Nat
  size : Nat
  handle : Nat
  /-- `cuMemSetAccess` has been called for it. -/
  access : Bool
  deriving DecidableEq, Repr

/-- The choices of the driver, by the number of the call. -/
structure DriverEnv where
  fails : Nat → Bool
  pick : Nat → Nat
  fresh : Nat → Nat → Byte

/-- No call with valid arguments fails. -/
def DriverEnv.Reliable (env : DriverEnv) : Prop := ∀ n, env.fails n = false

def Mapping.apart (m n : Mapping) : Prop := m.va + m.size ≤ n.va ∨ n.va + n.size ≤ m.va

instance : Std.Symm Mapping.apart := ⟨fun _ _ h => h.symm⟩

instance (m n : Mapping) : Decidable (m.apart n) := inferInstanceAs (Decidable (_ ∨ _))

/-- `live` are the unreleased handles with their sizes. -/
structure Driver where
  env : DriverEnv
  clock : Nat
  mem : Nat → Byte
  maps : List Mapping
  live : List (Nat × Nat)
  maps_apart : maps.Pairwise Mapping.apart
  maps_pos : ∀ m ∈ maps, 0 < m.size

namespace Driver

theorem maps_pos_nil : ∀ m ∈ ([] : List Mapping), 0 < m.size := fun _ hm => absurd hm List.not_mem_nil

/-- No call from now on fails. -/
def ReliableFrom (d : Driver) : Prop := ∀ n, d.clock ≤ n → d.env.fails n = false

/-- `k` calls that do not change what is modelled, all of which succeed. -/
def calls (d : Driver) (k : Nat) : Bool × Driver :=
  ((List.range k).all fun i => !d.env.fails (d.clock + i), { d with clock := d.clock + k })

/-- A call succeeds if its arguments are valid and the driver does not fail it. -/
def call (d : Driver) (valid : Bool) (effect : Driver → Driver) : Bool × Driver :=
  if valid && !d.env.fails d.clock then (true, effect { d with clock := d.clock + 1 })
  else (false, { d with clock := d.clock + 1 })

def isLive (d : Driver) (handle : Nat) : Bool := d.live.any fun x => x.1 == handle

/-- A handle value above all live ones. -/
def unusedHandle (d : Driver) : Nat := (d.live.map Prod.fst).foldl max 0 + 1

/-- What `cuMemCreate` returns: any value that is neither null nor live. -/
def nextHandle (d : Driver) : Nat :=
  let h := d.env.pick d.clock
  if h ≠ 0 ∧ !d.isLive h then h else d.unusedHandle

def cuMemCreate (d : Driver) (size : Nat) : Option Nat × Driver :=
  let h := d.nextHandle
  let r := d.call (0 < size) fun d => { d with live := (h, size) :: d.live }
  (if r.1 then some h else none, r.2)

def cuMemRelease (d : Driver) (handle : Nat) : Bool × Driver :=
  d.call (d.isLive handle) fun d => { d with live := d.live.filter fun x => x.1 != handle }

/-- The range is free and the allocation large enough. -/
def canMap (d : Driver) (va size handle : Nat) : Prop :=
  0 < size ∧ (∃ x ∈ d.live, x.1 = handle ∧ size ≤ x.2) ∧
    ∀ m ∈ d.maps, Mapping.apart ⟨va, size, handle, false⟩ m

instance (d : Driver) (va size handle : Nat) : Decidable (d.canMap va size handle) :=
  inferInstanceAs (Decidable (_ ∧ _ ∧ _))

def cuMemMap (d : Driver) (va size handle : Nat) : Bool × Driver :=
  if h : d.canMap va size handle ∧ d.env.fails d.clock = false then
    (true,
      { d with
        clock := d.clock + 1
        mem := scribble d.mem va size (d.env.fresh d.clock)
        maps := ⟨va, size, handle, false⟩ :: d.maps
        maps_apart := List.pairwise_cons.2 ⟨h.1.2.2, d.maps_apart⟩
        maps_pos := by
          intro m hm
          rcases List.mem_cons.1 hm with rfl | hm
          · exact h.1.1
          · exact d.maps_pos m hm })
  else (false, { d with clock := d.clock + 1 })

/-- A mapping starts at `va` and has that extent. -/
def mappedAt (d : Driver) (va size : Nat) : Bool := d.maps.any fun m => m.va == va && m.size == size

def unmapRange (d : Driver) (va : Nat) : Driver :=
  { d with
    maps := d.maps.filter fun m => m.va != va
    maps_apart := d.maps_apart.filter _
    maps_pos := fun m hm => d.maps_pos m (List.mem_filter.1 hm).1 }

def cuMemUnmap (d : Driver) (va size : Nat) : Bool × Driver :=
  d.call (d.mappedAt va size) fun d => d.unmapRange va

def grantAccess (va : Nat) (m : Mapping) : Mapping := if m.va = va then { m with access := true } else m

@[simp] theorem grantAccess_va (va : Nat) (m : Mapping) : (grantAccess va m).va = m.va := by
  unfold grantAccess
  split_ifs <;> rfl

@[simp] theorem grantAccess_size (va : Nat) (m : Mapping) : (grantAccess va m).size = m.size := by
  unfold grantAccess
  split_ifs <;> rfl

def grantRange (d : Driver) (va : Nat) : Driver :=
  { d with
    maps := d.maps.map (grantAccess va)
    maps_apart := by
      rw [List.pairwise_map]
      exact d.maps_apart.imp fun h => by simpa [Mapping.apart] using h
    maps_pos := by
      intro m hm
      obtain ⟨m', hm', rfl⟩ := List.mem_map.1 hm
      simpa using d.maps_pos m' hm' }

def cuMemSetAccess (d : Driver) (va size : Nat) : Bool × Driver :=
  d.call (d.mappedAt va size) fun d => d.grantRange va

/-- A copy may touch the range. -/
def accessible (d : Driver) (a n : Nat) : Bool :=
  d.maps.any fun m => m.access && decide (m.va ≤ a) && decide (a + n ≤ m.va + m.size)

/-! ### What the calls leave alone -/

theorem cuMemUnmap_frame (d : Driver) (va size : Nat) :
    (d.cuMemUnmap va size).2.mem = d.mem ∧ (d.cuMemUnmap va size).2.env = d.env := by
  unfold cuMemUnmap call
  split_ifs <;> exact ⟨rfl, rfl⟩

theorem cuMemSetAccess_frame (d : Driver) (va size : Nat) :
    (d.cuMemSetAccess va size).2.mem = d.mem ∧ (d.cuMemSetAccess va size).2.env = d.env := by
  unfold cuMemSetAccess call
  split_ifs <;> exact ⟨rfl, rfl⟩

theorem cuMemCreate_frame (d : Driver) (size : Nat) :
    (d.cuMemCreate size).2.mem = d.mem ∧ (d.cuMemCreate size).2.env = d.env := by
  unfold cuMemCreate call
  dsimp only
  split_ifs <;> exact ⟨rfl, rfl⟩

theorem cuMemRelease_frame (d : Driver) (handle : Nat) :
    (d.cuMemRelease handle).2.mem = d.mem ∧ (d.cuMemRelease handle).2.env = d.env := by
  unfold cuMemRelease call
  split_ifs <;> exact ⟨rfl, rfl⟩

theorem cuMemMap_frame (d : Driver) (va size handle : Nat) :
    (∀ a, a < va ∨ va + size ≤ a → (d.cuMemMap va size handle).2.mem a = d.mem a) ∧
      (d.cuMemMap va size handle).2.env = d.env := by
  unfold cuMemMap
  split_ifs
  · exact ⟨fun a ha => scribble_out _ _ ha, rfl⟩
  · exact ⟨fun a _ => rfl, rfl⟩

theorem cuMemCreate_maps (d : Driver) (size : Nat) : (d.cuMemCreate size).2.maps = d.maps := by
  unfold cuMemCreate call
  dsimp only
  split_ifs <;> rfl

theorem cuMemRelease_maps (d : Driver) (handle : Nat) : (d.cuMemRelease handle).2.maps = d.maps := by
  unfold cuMemRelease call
  split_ifs <;> rfl

theorem cuMemMap_maps (d : Driver) (va size handle : Nat) :
    (d.cuMemMap va size handle).1 = false ∧ (d.cuMemMap va size handle).2.maps = d.maps ∨
      (d.cuMemMap va size handle).1 = true ∧ d.canMap va size handle ∧
        (d.cuMemMap va size handle).2.maps = ⟨va, size, handle, false⟩ :: d.maps := by
  unfold cuMemMap
  split_ifs with h
  · exact Or.inr ⟨rfl, h.1, rfl⟩
  · exact Or.inl ⟨rfl, rfl⟩

theorem cuMemUnmap_maps (d : Driver) (va size : Nat) :
    (d.cuMemUnmap va size).1 = false ∧ (d.cuMemUnmap va size).2.maps = d.maps ∨
      (d.cuMemUnmap va size).1 = true ∧ (d.cuMemUnmap va size).2.maps = d.maps.filter fun m => m.va != va := by
  unfold cuMemUnmap call
  split_ifs
  · exact Or.inr ⟨rfl, rfl⟩
  · exact Or.inl ⟨rfl, rfl⟩

/-! ### The calls of a reliable driver -/

/-- A fold of `max` is above its start and all its elements. -/
theorem le_foldl_max (l : List Nat) (b : Nat) : b ≤ l.foldl max b ∧ ∀ x ∈ l, x ≤ l.foldl max b := by
  induction l generalizing b with
  | nil => simp
  | cons y l ih =>
    have := ih (max b y)
    simp only [List.foldl_cons, List.mem_cons, forall_eq_or_imp]
    exact ⟨by omega, by omega, this.2⟩

section Reliable
variable {d : Driver}

theorem unusedHandle_not_live : d.isLive d.unusedHandle = false := by
  rw [isLive, List.any_eq_false]
  intro x hx
  have := (le_foldl_max (d.live.map Prod.fst) 0).2 x.1 (List.mem_map_of_mem hx)
  simp only [beq_iff_eq, unusedHandle]
  omega

theorem nextHandle_not_live : d.isLive d.nextHandle = false := by
  unfold nextHandle
  simp only
  split_ifs with h
  · simpa using h.2
  · exact unusedHandle_not_live

theorem call_of_valid {valid : Bool} (henv : d.env.Reliable) (h : valid = true)
    (effect : Driver → Driver) :
    d.call valid effect = (true, effect { d with clock := d.clock + 1 }) := by
  simp [call, h, henv d.clock]

theorem calls_of_reliable (henv : d.env.Reliable) (k : Nat) :
    d.calls k = (true, { d with clock := d.clock + k }) := by
  simp [calls, henv _]

theorem calls_of_reliableFrom (h : d.ReliableFrom) (k : Nat) : (d.calls k).1 = true := by
  simp only [calls, List.all_eq_true, Bool.not_eq_true']
  intro i _
  exact h _ (Nat.le_add_right ..)

theorem ReliableFrom.of_le {d d' : Driver} (h : d.ReliableFrom) (henv : d'.env = d.env) (hclock : d.clock ≤ d'.clock) :
    d'.ReliableFrom := by
  intro n hn
  rw [henv]
  exact h n (hclock.trans hn)

theorem exists_mapping {va n : Nat} (h : d.mappedAt va n = true) : ∃ m ∈ d.maps, m.va = va ∧ m.size = n := by
  rw [mappedAt, List.any_eq_true] at h
  obtain ⟨m, hm, heq⟩ := h
  rw [Bool.and_eq_true, beq_iff_eq, beq_iff_eq] at heq
  exact ⟨m, hm, heq⟩

theorem mappedAt_of_mem {m : Mapping} (h : m ∈ d.maps) : d.mappedAt m.va m.size = true := by
  rw [mappedAt, List.any_eq_true]
  exact ⟨m, h, by simp⟩

/-- Mappings with one start are one mapping. -/
theorem eq_of_va_eq {m n : Mapping} (hm : m ∈ d.maps) (hn : n ∈ d.maps) (h : m.va = n.va) : m = n := by
  by_contra hne
  have hm0 := d.maps_pos m hm
  have hn0 := d.maps_pos n hn
  have hapart := d.maps_apart.forall hm hn hne
  unfold Mapping.apart at hapart
  omega

end Reliable

/-! ### What a call can do

What a call changes of the ranges that are mapped and of the handles that are live. -/

theorem nextHandle_ne_zero (d : Driver) : d.nextHandle ≠ 0 := by
  unfold nextHandle
  simp only
  split_ifs with h
  · exact h.1
  · exact Nat.succ_ne_zero _

/-- The same ranges are mapped and the same handles live. -/
structure SameView (d d' : Driver) : Prop where
  mapped : ∀ va n, d'.mappedAt va n = d.mappedAt va n
  live : ∀ k, d'.isLive k = d.isLive k

theorem sameView_of_eq {d d' : Driver} (hmaps : d'.maps = d.maps) (hlive : d'.live = d.live) : d.SameView d' :=
  ⟨fun va n => by rw [mappedAt, hmaps]; rfl, fun k => by rw [isLive, hlive]; rfl⟩

/-- `h` is live now. -/
structure NewHandle (d d' : Driver) (h : Nat) : Prop where
  ne_zero : h ≠ 0
  dead : d.isLive h = false
  mapped : ∀ va n, d'.mappedAt va n = d.mappedAt va n
  live : ∀ k, d'.isLive k = (d.isLive k || k == h)

theorem NewHandle.keeps {d d' : Driver} {h k : Nat} (hd : d.NewHandle d' h) (hk : d.isLive k = true) :
    d'.isLive k = true := by
  rw [hd.live, hk, Bool.true_or]

/-- The range is mapped now. -/
structure NewRange (d d' : Driver) (va size handle : Nat) : Prop where
  pos : 0 < size
  handle : d.isLive handle = true
  free : ∀ n, d.mappedAt va n = false
  mapped : ∀ a n, d'.mappedAt a n = ((a == va && n == size) || d.mappedAt a n)
  live : ∀ k, d'.isLive k = d.isLive k

/-- The range is not mapped any more. -/
structure DropRange (d d' : Driver) (va size : Nat) : Prop where
  range : d.mappedAt va size = true
  mapped : ∀ a n, d'.mappedAt a n = (d.mappedAt a n && a != va)
  live : ∀ k, d'.isLive k = d.isLive k

/-- `h` is not live any more. -/
structure DropHandle (d d' : Driver) (h : Nat) : Prop where
  handle : d.isLive h = true
  mapped : ∀ a n, d'.mappedAt a n = d.mappedAt a n
  live : ∀ k, d'.isLive k = (d.isLive k && k != h)

section Call
variable (d : Driver)

theorem cuMemCreate_view (size : Nat) :
    (d.cuMemCreate size).1 = none ∧ d.SameView (d.cuMemCreate size).2 ∨
      0 < size ∧ ∃ h, (d.cuMemCreate size).1 = some h ∧ d.NewHandle (d.cuMemCreate size).2 h := by
  by_cases h : (decide (0 < size) && !d.env.fails d.clock) = true
  · have hcall : d.cuMemCreate size =
        (some d.nextHandle, { d with clock := d.clock + 1, live := (d.nextHandle, size) :: d.live }) := by
      rw [cuMemCreate, call, if_pos h]
      rfl
    rw [hcall]
    have hpos : 0 < size := of_decide_eq_true (Bool.and_eq_true _ _ ▸ h).1
    refine Or.inr ⟨hpos, _, rfl, d.nextHandle_ne_zero, nextHandle_not_live, fun va n => rfl, fun k => ?_⟩
    show ((d.nextHandle == k) || _) = _
    rw [Bool.or_comm, BEq.comm]
    rfl
  · have hcall : d.cuMemCreate size = (none, { d with clock := d.clock + 1 }) := by
      rw [cuMemCreate, call, if_neg h]
      rfl
    rw [hcall]
    exact Or.inl ⟨rfl, sameView_of_eq rfl rfl⟩

theorem cuMemMap_view (va size handle : Nat) :
    (d.cuMemMap va size handle).1 = false ∧ d.SameView (d.cuMemMap va size handle).2 ∨
      (d.cuMemMap va size handle).1 = true ∧ d.NewRange (d.cuMemMap va size handle).2 va size handle := by
  unfold cuMemMap
  split_ifs with h
  · obtain ⟨⟨hpos, ⟨x, hx, hxh, -⟩, hfree⟩, -⟩ := h
    refine Or.inr ⟨rfl, hpos, ?_, fun n => ?_, fun a n => ?_, fun k => rfl⟩
    · rw [isLive, List.any_eq_true]
      exact ⟨x, hx, by simp [hxh]⟩
    · rw [mappedAt, List.any_eq_false]
      intro m hm
      have hapart : va + size ≤ m.va ∨ m.va + m.size ≤ va := hfree m hm
      have hm0 := d.maps_pos m hm
      simp only [Bool.and_eq_true, beq_iff_eq, not_and]
      omega
    · show ((va == a && size == n) || _) = _
      rw [BEq.comm, BEq.comm (a := size)]
      rfl
  · exact Or.inl ⟨rfl, sameView_of_eq rfl rfl⟩

theorem cuMemUnmap_view (va size : Nat) :
    (d.cuMemUnmap va size).1 = false ∧ d.SameView (d.cuMemUnmap va size).2 ∨
      (d.cuMemUnmap va size).1 = true ∧ d.DropRange (d.cuMemUnmap va size).2 va size := by
  unfold cuMemUnmap call
  split_ifs with h
  · rw [Bool.and_eq_true] at h
    refine Or.inr ⟨rfl, h.1, fun a n => ?_, fun k => rfl⟩
    show List.any (List.filter _ _) _ = (List.any _ _ && _)
    rw [Bool.eq_iff_iff]
    simp only [List.any_eq_true, List.mem_filter, Bool.and_eq_true, bne_iff_ne, beq_iff_eq]
    constructor
    · rintro ⟨m, ⟨hm, hne⟩, rfl, rfl⟩
      exact ⟨⟨m, hm, rfl, rfl⟩, hne⟩
    · rintro ⟨⟨m, hm, rfl, rfl⟩, hne⟩
      exact ⟨m, ⟨hm, hne⟩, rfl, rfl⟩
  · exact Or.inl ⟨rfl, sameView_of_eq rfl rfl⟩

theorem cuMemRelease_view (handle : Nat) :
    (d.cuMemRelease handle).1 = false ∧ d.SameView (d.cuMemRelease handle).2 ∨
      (d.cuMemRelease handle).1 = true ∧ d.DropHandle (d.cuMemRelease handle).2 handle := by
  unfold cuMemRelease call
  split_ifs with h
  · rw [Bool.and_eq_true] at h
    refine Or.inr ⟨rfl, h.1, fun a n => rfl, fun k => ?_⟩
    show List.any (List.filter _ _) _ = (List.any _ _ && _)
    rw [Bool.eq_iff_iff]
    simp only [List.any_eq_true, List.mem_filter, Bool.and_eq_true, bne_iff_ne, beq_iff_eq]
    constructor
    · rintro ⟨x, ⟨hx, hne⟩, rfl⟩
      exact ⟨⟨x, hx, rfl⟩, hne⟩
    · rintro ⟨⟨x, hx, rfl⟩, hne⟩
      exact ⟨x, ⟨hx, hne⟩, rfl⟩
  · exact Or.inl ⟨rfl, sameView_of_eq rfl rfl⟩

theorem cuMemSetAccess_view (va size : Nat) : d.SameView (d.cuMemSetAccess va size).2 := by
  unfold cuMemSetAccess call
  split_ifs
  · refine ⟨fun a n => ?_, fun k => rfl⟩
    show List.any (List.map _ _) _ = List.any _ _
    rw [List.any_map]
    congr 1
    funext m
    simp
  · exact sameView_of_eq rfl rfl

end Call

/-! ### One call at a time

What a call does that the driver does not fail. One that it fails only takes its turn. -/

/-- `d'` is `d` one call later, with these mappings and these live handles. -/
structure Next (d d' : Driver) (maps : Mapping → Prop) (live : Nat → Prop) : Prop where
  env : d'.env = d.env
  clock : d'.clock = d.clock + 1
  maps : ∀ m, m ∈ d'.maps ↔ maps m
  live : ∀ h, d'.isLive h = true ↔ live h

section Once
variable {d : Driver}

/-- A call that the driver fails only takes its turn. -/
theorem next_tick (d : Driver) : d.Next { d with clock := d.clock + 1 } (· ∈ d.maps) fun k => d.isLive k = true :=
  ⟨rfl, rfl, fun _ => Iff.rfl, fun _ => Iff.rfl⟩

theorem call_failed (hfails : d.env.fails d.clock = true) (valid : Bool) (effect : Driver → Driver) :
    d.call valid effect = (false, { d with clock := d.clock + 1 }) := by
  simp [call, hfails]

theorem call_ok {valid : Bool} (hvalid : valid = true) (hok : d.env.fails d.clock = false)
    (effect : Driver → Driver) : d.call valid effect = (true, effect { d with clock := d.clock + 1 }) := by
  simp [call, hvalid, hok]

theorem cuMemCreate_failed (hfails : d.env.fails d.clock = true) (size : Nat) :
    ∃ d', d.cuMemCreate size = (none, d') ∧ d.Next d' (· ∈ d.maps) fun k => d.isLive k = true := by
  refine ⟨_, ?_, d.next_tick⟩
  unfold cuMemCreate
  dsimp only
  rw [call_failed hfails]
  rfl

theorem cuMemMap_failed (hfails : d.env.fails d.clock = true) (va size handle : Nat) :
    ∃ d', d.cuMemMap va size handle = (false, d') ∧ d.Next d' (· ∈ d.maps) fun k => d.isLive k = true := by
  refine ⟨_, ?_, d.next_tick⟩
  unfold cuMemMap
  rw [dif_neg]
  simp [hfails]

theorem cuMemSetAccess_failed (hfails : d.env.fails d.clock = true) (va size : Nat) :
    ∃ d', d.cuMemSetAccess va size = (false, d') ∧ d.Next d' (· ∈ d.maps) fun k => d.isLive k = true :=
  ⟨_, call_failed hfails _ _, d.next_tick⟩

theorem cuMemCreate_ok (hok : d.env.fails d.clock = false) {size : Nat} (hpos : 0 < size) :
    ∃ h d', d.cuMemCreate size = (some h, d') ∧ d.isLive h = false ∧ h ≠ 0 ∧ (h, size) ∈ d'.live ∧
      d.Next d' (· ∈ d.maps) fun k => k = h ∨ d.isLive k = true := by
  refine ⟨d.nextHandle, { d with clock := d.clock + 1, live := (d.nextHandle, size) :: d.live }, ?_,
    nextHandle_not_live, d.nextHandle_ne_zero, List.mem_cons_self .., rfl, rfl, fun m => Iff.rfl, fun k => ?_⟩
  · unfold cuMemCreate
    dsimp only
    rw [call_ok (decide_eq_true hpos) hok]
    rfl
  · show (d.nextHandle == k || _) = true ↔ _
    rw [Bool.or_eq_true, beq_iff_eq]
    exact or_congr_left eq_comm

theorem cuMemMap_ok (hok : d.env.fails d.clock = false) {va size handle : Nat} (hcan : d.canMap va size handle) :
    ∃ d', d.cuMemMap va size handle = (true, d') ∧
      d.Next d' (fun m => m = ⟨va, size, handle, false⟩ ∨ m ∈ d.maps) fun k => d.isLive k = true := by
  unfold cuMemMap
  rw [dif_pos ⟨hcan, hok⟩]
  exact ⟨_, rfl, rfl, rfl, fun _ => List.mem_cons, fun _ => Iff.rfl⟩

theorem canMap_of_cuMemMap {va size handle : Nat} (h : (d.cuMemMap va size handle).1 = true) :
    d.canMap va size handle := by
  unfold cuMemMap at h
  split_ifs at h with hcan
  exact hcan.1

theorem cuMemSetAccess_ok (hok : d.env.fails d.clock = false) {va size : Nat} (hat : d.mappedAt va size = true) :
    ∃ d', d.cuMemSetAccess va size = (true, d') ∧
      d.Next d' (fun m => ∃ m' ∈ d.maps, grantAccess va m' = m) fun k => d.isLive k = true :=
  ⟨_, call_ok hat hok _, rfl, rfl, fun _ => List.mem_map, fun _ => Iff.rfl⟩

theorem cuMemUnmap_ok (hok : d.env.fails d.clock = false) {va size : Nat} (hat : d.mappedAt va size = true) :
    ∃ d', d.cuMemUnmap va size = (true, d') ∧
      d.Next d' (fun m => m ∈ d.maps ∧ m.va ≠ va) fun k => d.isLive k = true := by
  refine ⟨_, call_ok hat hok _, rfl, rfl, fun m => ?_, fun k => Iff.rfl⟩
  show m ∈ List.filter _ _ ↔ _
  rw [List.mem_filter, bne_iff_ne]

theorem cuMemRelease_ok (hok : d.env.fails d.clock = false) {handle : Nat} (hlive : d.isLive handle = true) :
    ∃ d', d.cuMemRelease handle = (true, d') ∧
      d.Next d' (· ∈ d.maps) fun k => d.isLive k = true ∧ k ≠ handle := by
  obtain ⟨hfail, -⟩ | ⟨-, hdrop⟩ := d.cuMemRelease_view handle
  · rw [cuMemRelease, call_ok hlive hok] at hfail
    exact absurd hfail (by simp)
  · have hcall := call_ok hlive hok fun d => { d with live := d.live.filter fun x => x.1 != handle }
    rw [cuMemRelease, hcall] at hdrop
    refine ⟨_, hcall, rfl, rfl, fun m => Iff.rfl, fun k => ?_⟩
    rw [hdrop.live, Bool.and_eq_true, bne_iff_ne]

/-- Three calls in a row, none of which can fail on a free range: new memory that can be accessed. -/
theorem createMapAccess_ok {va size : Nat} (hok : ∀ i < 3, d.env.fails (d.clock + i) = false) (hpos : 0 < size)
    (hfree : ∀ m ∈ d.maps, va + size ≤ m.va ∨ m.va + m.size ≤ va) :
    ∃ h d₁ d₂ d₃, d.cuMemCreate size = (some h, d₁) ∧ d₁.cuMemMap va size h = (true, d₂) ∧
      d₂.cuMemSetAccess va size = (true, d₃) ∧ d.isLive h = false ∧
      (∀ m, m ∈ d₃.maps ↔ m = ⟨va, size, h, true⟩ ∨ m ∈ d.maps) ∧
      ∀ k, d₃.isLive k = true ↔ k = h ∨ d.isLive k = true := by
  obtain ⟨h, d₁, hcall₁, hdead, -, hsize, hd₁⟩ := cuMemCreate_ok (hok 0 (by omega)) hpos
  have hcan : d₁.canMap va size h := ⟨hpos, ⟨_, hsize, rfl, le_rfl⟩, fun m hm => hfree m ((hd₁.maps m).1 hm)⟩
  obtain ⟨d₂, hcall₂, hd₂⟩ := cuMemMap_ok (d := d₁) (by rw [hd₁.env, hd₁.clock]; exact hok 1 (by omega)) hcan
  have hat : d₂.mappedAt va size = true := mappedAt_of_mem (m := ⟨va, size, h, false⟩) ((hd₂.maps _).2 (Or.inl rfl))
  obtain ⟨d₃, hcall₃, hd₃⟩ := cuMemSetAccess_ok (d := d₂)
    (by rw [hd₂.env, hd₂.clock, hd₁.env, hd₁.clock]; exact hok 2 (by omega)) hat
  refine ⟨h, d₁, d₂, d₃, hcall₁, hcall₂, hcall₃, hdead, fun m => ?_, fun k => ?_⟩
  · -- access is granted to the new mapping, which is the only one there
    have hothers : ∀ m' ∈ d.maps, grantAccess va m' = m' := by
      intro m' hm'
      have := hfree m' hm'
      have := d.maps_pos m' hm'
      exact if_neg (by omega)
    rw [hd₃.maps]
    constructor
    · rintro ⟨m', hm', rfl⟩
      rcases (hd₂.maps m').1 hm' with rfl | hm'
      · exact Or.inl (if_pos rfl)
      · have hold := (hd₁.maps m').1 hm'
        rw [hothers m' hold]
        exact Or.inr hold
    · rintro (rfl | hm)
      · exact ⟨_, (hd₂.maps _).2 (Or.inl rfl), if_pos rfl⟩
      · exact ⟨m, (hd₂.maps _).2 (Or.inr ((hd₁.maps m).2 hm)), hothers m hm⟩
  · rw [hd₃.live, hd₂.live, hd₁.live]

end Once

end Driver

end GpuCr
