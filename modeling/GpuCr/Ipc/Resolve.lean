import GpuCr.Lib.Run
import Mathlib.Logic.Function.Basic

/-!
# The slots of the hook table

Every hook of `src/ipc_hooks.cpp` forwards to the address in its slot of `g_hook_table`. The slots are
written by the exported wrappers (through `dlsym(RTLD_NEXT, …)`), by the interposed `dlsym`, by
`try_intercept`, and by `resolve_helper_fns` and the fallbacks of the teardown and rebuild functions. The
last two look a symbol up with `RTLD_DEFAULT`, which finds the library itself, and they do it through the
library's own `dlsym`, which returns a hook: the slot then points back into the library.
-/

namespace GpuCr

open Lib.Run

/-- The symbols of `g_hook_table`. -/
inductive HookSym where
  | cuMemCreate
  | cuMemExportToShareableHandle
  | cuMemImportFromShareableHandle
  | cuMemMap
  | cuMemUnmap
  | cuMemRelease
  | cuMemSetAccess
  | cudaLaunchKernel
  | cuLaunchKernel
  | cudaLaunchKernel_ptsz
  | cuLaunchKernel_ptsz
  | cuLaunchKernelEx
  | cudaLaunchKernelExC
  | cudaLaunchKernelExC_ptsz
  | __cudaLaunchKernel
  | __cudaLaunchKernel_ptsz
  | cudaGetLastError
  | cudaPeekAtLastError
  | cudaStreamSynchronize
  | cudaStreamSynchronize_ptsz
  | cuCtxCreate
  | cuCtxDestroy
  | cuDevicePrimaryCtxRetain
  | cuDevicePrimaryCtxRelease
  deriving DecidableEq, Repr

/-- What an address may point to: the driver's (or runtime's) function, a `hook_*` of the library, or
the function the library exports under the symbol's own name. -/
inductive Code where
  | driver (s : HookSym)
  | hook (s : HookSym)
  | wrapper (s : HookSym)
  deriving DecidableEq, Repr

def Code.isOwn : Code → Bool
  | .driver _ => false
  | _ => true

namespace HookSym

/-- The context symbols are hooked but not exported. -/
def exported : HookSym → Bool
  | cuCtxCreate | cuCtxDestroy | cuDevicePrimaryCtxRetain | cuDevicePrimaryCtxRelease => false
  | _ => true

/-- The `cuMem*` and context symbols have a `hook_*` of their own, the others are hooked by what the
library exports. -/
def hookFn : HookSym → Code
  | s@cuMemCreate | s@cuMemExportToShareableHandle | s@cuMemImportFromShareableHandle | s@cuMemMap
  | s@cuMemUnmap | s@cuMemRelease | s@cuMemSetAccess | s@cuCtxCreate | s@cuCtxDestroy
  | s@cuDevicePrimaryCtxRetain | s@cuDevicePrimaryCtxRelease => .hook s
  | s => .wrapper s

end HookSym

/-- Handles by what a search through them finds: `next` is `RTLD_NEXT`, `default` is `RTLD_DEFAULT` or any
other handle whose search meets the preloaded library first, `driverLib` a library with the real
function, `without` one that has no such symbol. -/
inductive DlHandle where
  | next
  | default
  | driverLib
  | without
  deriving DecidableEq, Repr

def realDlsym : DlHandle → HookSym → Option Code
  | .next, s => some (.driver s)
  | .default, s => some (if s.exported then .wrapper s else .driver s)
  | .driverLib, s => some (.driver s)
  | .without, _ => none

/-- `slot` is `real_fn_storage` by symbol. `given` marks the hooks whose address the application has been
handed. -/
structure HookState where
  slot : HookSym → Option Code
  fnCuDevicePrimaryCtxRetain : Option Code
  fnCuDevicePrimaryCtxRelease : Option Code
  given : HookSym → Bool

namespace HookState

def setSlot (st : HookState) (s : HookSym) (c : Option Code) : HookState :=
  { st with slot := Function.update st.slot s c }

/-- The interposed `dlsym`, for the symbols of the table. -/
def dlsym (st : HookState) (handle : DlHandle) (s : HookSym) : Option Code × HookState :=
  if handle ≠ .next then
    match realDlsym handle s with
    | some real => (some s.hookFn, st.setSlot s (some real))
    | none => (none, st)
  else (realDlsym handle s, st)

/-- `if (!slot) slot = dlsym(handle, symbol);` -/
def resolveSlot (handle : DlHandle) (st : HookState) (s : HookSym) : HookState :=
  if st.slot s = none then
    let r := st.dlsym handle s
    r.2.setSlot s r.1
  else st

def resolveCtxRetain (st : HookState) : HookState :=
  if st.fnCuDevicePrimaryCtxRetain = none then
    let r := st.dlsym .default .cuDevicePrimaryCtxRetain
    { r.2 with fnCuDevicePrimaryCtxRetain := r.1 }
  else st

/-- `hasV2` says whether `cuDevicePrimaryCtxRelease_v2`, which is not in the table, exists. -/
def resolveCtxRelease (hasV2 : Bool) (st : HookState) : HookState :=
  if st.fnCuDevicePrimaryCtxRelease = none then
    if hasV2 then { st with fnCuDevicePrimaryCtxRelease := some (.driver .cuDevicePrimaryCtxRelease) }
    else
      let r := st.dlsym .default .cuDevicePrimaryCtxRelease
      { r.2 with fnCuDevicePrimaryCtxRelease := r.1 }
  else st

/-- The lookups of `resolve_helper_fns` that concern symbols of the table. -/
def resolveHelperFns (hasV2 : Bool) (st : HookState) : HookState :=
  (((st.resolveSlot .default .cuMemRelease).resolveSlot .default .cuMemCreate).resolveCtxRetain).resolveCtxRelease
    hasV2

/-- What a hook does about its slot before it forwards. -/
def enterHook (hasV2 : Bool) (st : HookState) : HookSym → HookState
  | .cuMemRelease => if st.slot .cuMemRelease = none then st.resolveHelperFns hasV2 else st
  | s@.cuCtxCreate | s@.cuCtxDestroy | s@.cuDevicePrimaryCtxRetain | s@.cuDevicePrimaryCtxRelease =>
    st.resolveSlot .next s
  | _ => st

/-- An exported wrapper fills its slot and goes on as the hook. -/
def enterWrapper (hasV2 : Bool) (st : HookState) (s : HookSym) : HookState :=
  enterHook hasV2 (st.resolveSlot .next s) s

def enter (hasV2 : Bool) (st : HookState) : Code → HookState
  | .driver _ => st
  | .hook s => st.enterHook hasV2 s
  | .wrapper s => st.enterWrapper hasV2 s

/-- Where a call ends: each hook or wrapper on the way forwards to its slot. A null slot ends the call
with an error of the library. -/
def follow (hasV2 : Bool) : Nat → HookState → Code → Option HookSym
  | 0, _, _ => none
  | _ + 1, _, .driver s => some s
  | n + 1, st, .hook s =>
    ((st.enterHook hasV2 s).slot s).bind (follow hasV2 n (st.enterHook hasV2 s))
  | n + 1, st, .wrapper s =>
    ((st.enterWrapper hasV2 s).slot s).bind (follow hasV2 n (st.enterWrapper hasV2 s))

/-! ### Runs -/

/-- The functions of the library that resolve more than `resolve_helper_fns` does. `ipc_import_from_shm_block` is called
with a block that has entries: with an empty one it returns before its lookups. -/
inductive LibraryCall where
  | validateAllMappings
  | rebuildLocalAllocs
  | teardownAllImports
  | saveAndTeardownAllExports
  | saveAndTeardownLocalAllocs
  | rebuildAndRestoreAllExports
  | importFromShmBlock
  deriving DecidableEq, Repr

def LibraryCall.resolvesHelpers : LibraryCall → Bool
  | .importFromShmBlock => false
  | _ => true

/-- The fallbacks, in order. -/
def LibraryCall.fallbacks : LibraryCall → List HookSym
  | .validateAllMappings => []
  | .rebuildLocalAllocs => []
  | .teardownAllImports => [.cuMemUnmap]
  | .saveAndTeardownAllExports => [.cuMemUnmap]
  | .saveAndTeardownLocalAllocs => [.cuMemUnmap]
  | .rebuildAndRestoreAllExports => [.cuMemMap, .cuMemSetAccess, .cuMemExportToShareableHandle]
  | .importFromShmBlock => [.cuMemImportFromShareableHandle, .cuMemMap, .cuMemSetAccess]

/-- The slots a library function looks up with `RTLD_DEFAULT` if they are null. -/
def LibraryCall.lookups (c : LibraryCall) : List HookSym :=
  (if c.resolvesHelpers then [.cuMemRelease, .cuMemCreate] else []) ++ c.fallbacks

inductive HookEvent where
  /-- The application calls what the library exports under the symbol. -/
  | callWrapper (s : HookSym)
  /-- The application calls a hook it has been handed. -/
  | callHook (s : HookSym)
  | dlsym (handle : DlHandle) (s : HookSym)
  /-- `cudaGetDriverEntryPoint` or `cuGetProcAddress`, in any version. -/
  | procAddress (s : HookSym)
  | library (c : LibraryCall)
  deriving DecidableEq, Repr

def give (st : HookState) (s : HookSym) : HookState := { st with given := Function.update st.given s true }

def step (hasV2 : Bool) (st : HookState) : HookEvent → HookState
  | .callWrapper s => if s.exported then st.enterWrapper hasV2 s else st
  | .callHook s => if st.given s then st.enter hasV2 s.hookFn else st
  | .dlsym handle s =>
    let r := st.dlsym handle s
    if r.1 = some s.hookFn then r.2.give s else r.2
  | .procAddress s => (st.setSlot s (some (.driver s))).give s
  | .library c =>
    let st := if c.resolvesHelpers then st.resolveHelperFns hasV2 else st
    c.fallbacks.foldl (resolveSlot .default) st

def start : HookState := ⟨fun _ => none, none, none, fun _ => false⟩

/-- No slot points into the library, and every call of a wrapper or of a hook the application has been
handed gets to the driver. -/
structure ReachesDriver (hasV2 : Bool) (st : HookState) : Prop where
  slots : ∀ s c, st.slot s = some c → c.isOwn = false
  wrappers : ∀ s, s.exported = true → ∃ n, follow hasV2 n st (.wrapper s) = some s
  hooks : ∀ s, st.given s = true → ∃ n, follow hasV2 n st s.hookFn = some s

/-- The step looks up no exported symbol of the table with `RTLD_DEFAULT`. -/
def NoSelfLookup (st : HookState) : HookEvent → Prop
  | .dlsym handle s => handle = .default → s.exported = false
  | .library c => ∀ s ∈ c.lookups, st.slot s ≠ none
  | _ => True

/-! ### The invariant -/

/-- A slot is null or holds the driver's function, and a hook that has been handed out has a slot. -/
structure Clean (st : HookState) : Prop where
  slot : ∀ s, st.slot s = none ∨ st.slot s = some (.driver s)
  given : ∀ s, st.given s = true → st.slot s ≠ none

section Preservation
variable {st : HookState} {s : HookSym}

theorem Clean.setDriver (h : st.Clean) (s : HookSym) : (st.setSlot s (some (.driver s))).Clean := by
  refine ⟨fun t => ?_, fun t ht => ?_⟩
  · by_cases hts : t = s
    · subst hts
      exact Or.inr (Function.update_self ..)
    · rw [setSlot]
      simp only [Function.update_of_ne hts]
      exact h.slot t
  · by_cases hts : t = s
    · subst hts
      simp [setSlot]
    · rw [setSlot]
      simp only [Function.update_of_ne hts]
      exact h.given t ht

theorem Clean.give (h : st.Clean) (hs : st.slot s ≠ none) : (st.give s).Clean := by
  refine ⟨h.slot, fun t ht => ?_⟩
  by_cases hts : t = s
  · exact hts ▸ hs
  · simp only [HookState.give, Function.update_of_ne hts] at ht
    exact h.given t ht

theorem resolveSlot_next (st : HookState) (s : HookSym) :
    st.resolveSlot .next s = if st.slot s = none then st.setSlot s (some (.driver s)) else st := rfl

theorem Clean.resolveNext (h : st.Clean) (s : HookSym) :
    (st.resolveSlot .next s).Clean ∧ (st.resolveSlot .next s).slot s = some (.driver s) := by
  rw [resolveSlot_next]
  by_cases hs : st.slot s = none
  · rw [if_pos hs]
    exact ⟨h.setDriver s, Function.update_self ..⟩
  · rw [if_neg hs]
    exact ⟨h, (h.slot s).resolve_left hs⟩

theorem resolveSlot_of_ne (handle : DlHandle) (hs : st.slot s ≠ none) : st.resolveSlot handle s = st :=
  if_neg hs

/-- The lookups of the context helpers find the driver: the library does not export those symbols. -/
theorem Clean.dlsymDriver (h : st.Clean) {handle : DlHandle}
    (hreal : handle = .default → s.exported = false) : (st.dlsym handle s).2.Clean ∧
      ((st.dlsym handle s).1 = some s.hookFn → (st.dlsym handle s).2.slot s ≠ none) := by
  cases handle with
  | next =>
    refine ⟨h, fun heq => ?_⟩
    have : Code.driver s = s.hookFn := Option.some.inj heq
    cases s <;> simp [HookSym.hookFn] at this
  | default =>
    have hexp := hreal rfl
    have hset : st.dlsym .default s = (some s.hookFn, st.setSlot s (some (.driver s))) := by
      simp [dlsym, realDlsym, hexp]
    rw [hset]
    exact ⟨h.setDriver s, fun _ => by simp [setSlot]⟩
  | driverLib => exact ⟨h.setDriver s, fun _ => by simp [dlsym, realDlsym, setSlot]⟩
  | without => exact ⟨h, fun heq => absurd heq (by simp [dlsym, realDlsym])⟩

/-- `st'` has every slot that `st` has. -/
def SlotsKept (st st' : HookState) : Prop := ∀ s, st.slot s ≠ none → st'.slot s ≠ none

theorem slotsKept_setSlot (st : HookState) (t : HookSym) (c : Code) : SlotsKept st (st.setSlot t (some c)) := by
  intro s hs
  by_cases hst : s = t
  · subst hst
    simp [setSlot]
  · simp only [setSlot, Function.update_of_ne hst]
    exact hs

theorem Clean.resolveCtxRetain (h : st.Clean) :
    st.resolveCtxRetain.Clean ∧ SlotsKept st st.resolveCtxRetain := by
  unfold HookState.resolveCtxRetain
  split_ifs with hnull
  · have hset := h.setDriver .cuDevicePrimaryCtxRetain
    exact ⟨⟨hset.slot, hset.given⟩, slotsKept_setSlot st .cuDevicePrimaryCtxRetain _⟩
  · exact ⟨h, fun _ hs => hs⟩

theorem Clean.resolveCtxRelease (h : st.Clean) (hasV2 : Bool) :
    (st.resolveCtxRelease hasV2).Clean ∧ SlotsKept st (st.resolveCtxRelease hasV2) := by
  unfold HookState.resolveCtxRelease
  split_ifs with hnull hv
  · exact ⟨⟨h.slot, h.given⟩, fun _ hs => hs⟩
  · have hset := h.setDriver .cuDevicePrimaryCtxRelease
    exact ⟨⟨hset.slot, hset.given⟩, slotsKept_setSlot st .cuDevicePrimaryCtxRelease _⟩
  · exact ⟨h, fun _ hs => hs⟩

theorem Clean.resolveHelperFns (h : st.Clean) (hasV2 : Bool) (h1 : st.slot .cuMemRelease ≠ none)
    (h2 : st.slot .cuMemCreate ≠ none) :
    (st.resolveHelperFns hasV2).Clean ∧ SlotsKept st (st.resolveHelperFns hasV2) := by
  unfold HookState.resolveHelperFns
  rw [resolveSlot_of_ne .default h1, resolveSlot_of_ne .default h2]
  obtain ⟨h3, h4⟩ := h.resolveCtxRetain
  obtain ⟨h5, h6⟩ := h3.resolveCtxRelease hasV2
  exact ⟨h5, fun s hs => h6 s (h4 s hs)⟩

theorem foldl_resolveSlot_of_ne (syms : List HookSym) (hs : ∀ s ∈ syms, st.slot s ≠ none) :
    syms.foldl (resolveSlot .default) st = st := by
  induction syms with
  | nil => rfl
  | cons s syms ih =>
    rw [List.foldl_cons, resolveSlot_of_ne .default (hs s (List.mem_cons_self ..))]
    exact ih fun t ht => hs t (List.mem_cons_of_mem _ ht)

theorem enterHook_of_ne (hasV2 : Bool) (hs : st.slot s ≠ none) : st.enterHook hasV2 s = st := by
  unfold enterHook
  split
  · exact if_neg hs
  all_goals first | exact resolveSlot_of_ne .next hs | rfl

theorem Clean.enterWrapper (h : st.Clean) (hasV2 : Bool) (s : HookSym) :
    (st.enterWrapper hasV2 s).Clean ∧ (st.enterWrapper hasV2 s).slot s = some (.driver s) := by
  obtain ⟨h1, h2⟩ := h.resolveNext s
  have hsame : st.enterWrapper hasV2 s = st.resolveSlot .next s :=
    enterHook_of_ne hasV2 (by rw [h2]; exact Option.some_ne_none _)
  rw [hsame]
  exact ⟨h1, h2⟩

theorem hookFn_eq (s : HookSym) : s.hookFn = .hook s ∨ s.hookFn = .wrapper s := by
  cases s <;> simp [HookSym.hookFn]

theorem Clean.step (h : st.Clean) (hasV2 : Bool) {e : HookEvent} (hok : st.NoSelfLookup e) :
    (st.step hasV2 e).Clean := by
  cases e with
  | callWrapper s =>
    simp only [HookState.step]
    split_ifs
    · exact (h.enterWrapper hasV2 s).1
    · exact h
  | callHook s =>
    simp only [HookState.step]
    split_ifs with hgiven
    · rcases hookFn_eq s with heq | heq
      · rw [heq]
        show (st.enterHook hasV2 s).Clean
        rw [enterHook_of_ne hasV2 (h.given s hgiven)]
        exact h
      · rw [heq]
        exact (h.enterWrapper hasV2 s).1
    · exact h
  | dlsym handle s =>
    obtain ⟨h1, h2⟩ := h.dlsymDriver hok
    unfold HookState.step
    dsimp only
    split_ifs with hhook
    · exact h1.give (h2 hhook)
    · exact h1
  | procAddress s => exact (h.setDriver s).give (by simp [setSlot])
  | library c =>
    have hlookups : ∀ s ∈ c.lookups, st.slot s ≠ none := hok
    unfold HookState.step
    dsimp only
    split_ifs with hres
    · obtain ⟨h1, h2⟩ := h.resolveHelperFns hasV2 (hlookups _ (by simp [LibraryCall.lookups, hres]))
        (hlookups _ (by simp [LibraryCall.lookups, hres]))
      rw [foldl_resolveSlot_of_ne]
      · exact h1
      · intro s hs
        exact h2 s (hlookups s (List.mem_append_right _ hs))
    · rw [foldl_resolveSlot_of_ne]
      · exact h
      · intro s hs
        exact hlookups s (List.mem_append_right _ hs)

theorem Clean.reachesDriver (h : st.Clean) (hasV2 : Bool) : st.ReachesDriver hasV2 := by
  have hwrapper : ∀ s, follow hasV2 2 st (.wrapper s) = some s := by
    intro s
    simp only [follow, (h.enterWrapper hasV2 s).2]
    rfl
  refine ⟨?_, fun s _ => ⟨2, hwrapper s⟩, ?_⟩
  · intro s c hc
    rcases h.slot s with hs | hs
    · rw [hs] at hc
      exact absurd hc (by simp)
    · obtain rfl := Option.some.inj (hs.symm.trans hc)
      rfl
  · intro s hs
    have hne := h.given s hs
    rcases hookFn_eq s with heq | heq
    · refine ⟨2, ?_⟩
      rw [heq]
      simp only [follow, enterHook_of_ne hasV2 hne, (h.slot s).resolve_left hne]
      rfl
    · rw [heq]
      exact ⟨2, hwrapper s⟩

end Preservation

/-- **Slots stay outside the library** in every run in which no step makes the library look up one of its
own symbols with `RTLD_DEFAULT`. -/
theorem reachesDriver_of_noSelfLookup (hasV2 : Bool) (events : List HookEvent)
    (hok : AllSteps NoSelfLookup (step hasV2) start events) :
    ∀ pre, pre <+: events → (run (step hasV2) start pre).ReachesDriver hasV2 := by
  have hstart : start.Clean := ⟨fun _ => Or.inl rfl, fun _ h => absurd h (by simp [start])⟩
  intro pre hpre
  have hclean := invariant_of_allSteps (fun st e h hok => h.step hasV2 hok) hstart hok pre hpre
  exact hclean.reachesDriver hasV2

theorem reachesDriver_teardown :
    (run (step true) start [.callWrapper .cuMemCreate, .callWrapper .cuMemUnmap, .callWrapper .cuMemRelease,
      .library .teardownAllImports]).ReachesDriver true :=
  reachesDriver_of_noSelfLookup true _
    (by simp [AllSteps, NoSelfLookup, LibraryCall.lookups, LibraryCall.fallbacks,
      LibraryCall.resolvesHelpers]; decide) _ List.prefix_rfl

/-- After `cudaMalloc` has created and mapped a block, the first teardown finds no `cuMemRelease` in the
slot and stores its own hook there. -/
theorem not_reachesDriver :
    ¬ ∀ (hasV2 : Bool) (events : List HookEvent), (run (step hasV2) start events).ReachesDriver hasV2 := by
  intro h
  have hslot := (h true [.callWrapper .cuMemCreate, .callWrapper .cuMemMap, .callWrapper .cuMemSetAccess,
    .library .teardownAllImports]).slots .cuMemRelease (.hook .cuMemRelease) (by decide)
  exact absurd hslot (by decide)

end HookState

end GpuCr
