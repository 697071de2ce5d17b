import GpuCr.Common
import GpuCr.Lib.CString
import Mathlib.Data.List.Forall2

/-!
# The region list of the client

`parse_selective_regions` of `coordinator/cr_client.cpp`, which reads the argument of `-s`. `strtok` passes over empty items
and nothing looks at where `strtoull` has stopped, so that the client takes more than a list of `ptr:size` pairs, and takes
some addresses and sizes for others.
-/

namespace GpuCr

open Lib.CString

/-- Why the argument is turned down, with the text that the message shows. -/
inductive RegionsError where
  | tooMany
  | format (token : List Char)
  | zeroSize (token : List Char)
  | noRegion
  deriving DecidableEq

/-- What is written to the standard error. -/
def RegionsError.message : RegionsError → Option String
  | tooMany => some ("Error: too many selective regions (max " ++ toString maxSelectiveRegions ++ ")")
  | format token => some ("Error: invalid region format '" ++ String.ofList token ++ "' (expected ptr:size)")
  | zeroSize token => some ("Error: region size is 0 for ptr " ++ String.ofList token)
  | noRegion => none

/-- `token` once the colon is overwritten. -/
def ptrText (token : List Char) : List Char := token.takeWhile (· != ':')

/-- `colon + 1` -/
def sizeText (token : List Char) : List Char := (token.dropWhile (· != ':')).tail

def SelectiveCrRequest.none : SelectiveCrRequest := ⟨[], Nat.zero_le _⟩

def SelectiveCrRequest.add (req : SelectiveCrRequest) (region : SelectiveCrRegion)
    (h : req.regions.length < maxSelectiveRegions) : SelectiveCrRequest :=
  ⟨req.regions ++ [region], by rw [List.length_append]; exact h⟩

/-- The body of the loop, after the check of the count. -/
def parseRegion (token : List Char) : Except RegionsError SelectiveCrRegion :=
  if ':' ∉ token then .error (.format token)
  else
    let ptr := strtoull (ptrText token)
    let size := strtoull (sizeText token)
    if size = 0 then .error (.zeroSize (ptrText token)) else .ok ⟨ptr, size⟩

def parseRegions (s : List Char) (req : SelectiveCrRequest) : Except RegionsError SelectiveCrRequest :=
  match _hs : strtok ',' s with
  | none => .ok req
  | some (token, rest) =>
    if hfull : maxSelectiveRegions ≤ req.regions.length then .error .tooMany
    else
      match parseRegion token with
      | .error e => .error e
      | .ok region => parseRegions rest (req.add region (Nat.not_le.1 hfull))
termination_by s.length
decreasing_by exact length_of_strtok _hs

/-- An error stands for the return value `false`; the caller then does not look at the request. -/
def parseSelectiveRegions (spec : List Char) : Except RegionsError SelectiveCrRequest :=
  match parseRegions spec .none with
  | .error e => .error e
  | .ok req => if req.regions = [] then .error .noRegion else .ok req

/-! ### The grammar -/

/-- `ptr:size`, two constants that fit, the size not `0`. -/
def RegionItem (item : List Char) (region : SelectiveCrRegion) : Prop :=
  ∃ p n, item = p ++ ':' :: n ∧ Literal p region.ptr ∧ region.ptr < 2 ^ 64 ∧ Literal n region.size ∧
    region.size < 2 ^ 64 ∧ 0 < region.size

/-- A list of such items, separated by commas. -/
def RegionList (spec : List Char) (regions : List SelectiveCrRegion) : Prop :=
  ∃ items, spec = [','].intercalate items ∧ items.Forall₂ RegionItem regions ∧ 1 ≤ items.length ∧
    items.length ≤ maxSelectiveRegions

/-- The client accepts the argument exactly if it is a list of regions, and the request is that list. -/
def ParsesExactly (spec : List Char) : Prop :=
  ∀ regions, (∃ req, parseSelectiveRegions spec = .ok req ∧ req.regions = regions) ↔ RegionList spec regions

/-! ### What is accepted -/

/-- The checks of the code find nothing. -/
def PassesChecks (spec : List Char) : Prop :=
  tokens ',' spec ≠ [] ∧ (tokens ',' spec).length ≤ maxSelectiveRegions ∧
    ∀ token ∈ tokens ',' spec, ':' ∈ token ∧ strtoull (sizeText token) ≠ 0

/-- An item is empty, or a part of one is not a constant that fits. -/
def Misreads (spec : List Char) : Prop :=
  [] ∈ spec.splitOn ',' ∨ ∃ token ∈ tokens ',' spec, Misread (ptrText token) ∨ Misread (sizeText token)

def readRegion (token : List Char) : SelectiveCrRegion := ⟨strtoull (ptrText token), strtoull (sizeText token)⟩

theorem parseRegion_ok {token : List Char} {region : SelectiveCrRegion} :
    parseRegion token = .ok region ↔ (':' ∈ token ∧ strtoull (sizeText token) ≠ 0) ∧ region = readRegion token := by
  unfold parseRegion
  dsimp only
  split_ifs with hcolon hsize
  · exact iff_of_false (by simp) fun h => h.1.2 hsize
  · rw [Except.ok.injEq]
    exact ⟨fun h => ⟨⟨hcolon, hsize⟩, h.symm⟩, fun h => h.2.symm⟩
  · exact iff_of_false (by simp) fun h => hcolon h.1.1

theorem parseRegions_ok (s : List Char) (req : SelectiveCrRequest) (regions : List SelectiveCrRegion) :
    (∃ req', parseRegions s req = .ok req' ∧ req'.regions = regions) ↔
      req.regions.length + (tokens ',' s).length ≤ maxSelectiveRegions ∧
        (∀ token ∈ tokens ',' s, ':' ∈ token ∧ strtoull (sizeText token) ≠ 0) ∧
          regions = req.regions ++ (tokens ',' s).map readRegion := by
  induction s, req using parseRegions.induct with
  | case1 s req hs =>
    have htokens : tokens ',' s = [] := by rw [tokens_eq, hs]
    rw [parseRegions, hs, htokens, List.map_nil, List.append_nil]
    constructor
    · rintro ⟨req', heq, rfl⟩
      rw [← Except.ok.inj heq]
      exact ⟨req.length_le, fun _ h => absurd h List.not_mem_nil, rfl⟩
    · rintro ⟨-, -, rfl⟩
      exact ⟨req, rfl, rfl⟩
  | case2 s req token rest hs hfull =>
    have htokens : tokens ',' s = token :: tokens ',' rest := by rw [tokens_eq, hs]
    rw [htokens, List.length_cons]
    refine iff_of_false ?_ fun h => ?_
    · rintro ⟨req', heq, -⟩
      rw [parseRegions, hs] at heq
      simp [hfull] at heq
    · omega
  | case3 s req token rest hs hfull e he =>
    have htokens : tokens ',' s = token :: tokens ',' rest := by rw [tokens_eq, hs]
    rw [htokens]
    refine iff_of_false ?_ fun h => ?_
    · rintro ⟨req', heq, -⟩
      rw [parseRegions, hs] at heq
      simp [hfull, he] at heq
    · have hok := parseRegion_ok.2 ⟨h.2.1 token (List.mem_cons_self ..), rfl⟩
      rw [he] at hok
      exact absurd hok (by simp)
  | case4 s req token rest hs hfull region hr ih =>
    have htokens : tokens ',' s = token :: tokens ',' rest := by rw [tokens_eq, hs]
    have hstep : parseRegions s req = parseRegions rest (req.add region (Nat.not_le.1 hfull)) := by
      rw [parseRegions, hs]
      simp [hfull, hr]
    have hlen : (req.add region (Nat.not_le.1 hfull)).regions.length = req.regions.length + 1 := by
      simp [SelectiveCrRequest.add]
    obtain ⟨htoken, rfl⟩ := parseRegion_ok.1 hr
    rw [hstep, ih, htokens, hlen, List.forall_mem_cons, List.length_cons, List.map_cons, and_iff_right htoken]
    show _ ∧ _ ∧ regions = (req.regions ++ [readRegion token]) ++ _ ↔ _
    rw [List.append_assoc, List.singleton_append, Nat.add_assoc, Nat.add_comm 1]

theorem parseSelectiveRegions_ok (spec : List Char) (regions : List SelectiveCrRegion) :
    (∃ req, parseSelectiveRegions spec = .ok req ∧ req.regions = regions) ↔
      PassesChecks spec ∧ regions = (tokens ',' spec).map readRegion := by
  have hloop := parseRegions_ok spec .none regions
  rw [show SelectiveCrRequest.none.regions = [] from rfl, List.length_nil, Nat.zero_add, List.nil_append] at hloop
  have hsome : (∃ req, parseSelectiveRegions spec = .ok req ∧ req.regions = regions) ↔
      (∃ req, parseRegions spec .none = .ok req ∧ req.regions = regions) ∧ regions ≠ [] := by
    unfold parseSelectiveRegions
    cases parseRegions spec .none with
    | error e => simp
    | ok req =>
      dsimp only
      split_ifs with hempty
      · refine iff_of_false (by simp) ?_
        rintro ⟨⟨req', heq, rfl⟩, hne⟩
        exact hne (Except.ok.inj heq ▸ hempty)
      · constructor
        · rintro ⟨req', heq, rfl⟩
          exact ⟨⟨req', heq, rfl⟩, Except.ok.inj heq ▸ hempty⟩
        · exact fun h => h.1
  rw [hsome, hloop]
  unfold PassesChecks
  constructor
  · rintro ⟨⟨hlen, hall, rfl⟩, hne⟩
    exact ⟨⟨fun hnil => hne (by rw [hnil]; rfl), hlen, hall⟩, rfl⟩
  · rintro ⟨⟨hne, hlen, hall⟩, rfl⟩
    exact ⟨⟨hlen, hall, rfl⟩, fun hnil => hne (List.map_eq_nil_iff.1 hnil)⟩

/-! ### What is in the grammar -/

theorem ptrText_append {p n : List Char} (hp : ':' ∉ p) :
    ptrText (p ++ ':' :: n) = p ∧ sizeText (p ++ ':' :: n) = n := by
  have hall : ∀ c ∈ p, (c != ':') = true := fun c hc => bne_iff_ne.2 fun heq => hp (heq ▸ hc)
  unfold ptrText sizeText
  rw [List.takeWhile_append_of_pos hall, List.dropWhile_append_of_pos hall]
  simp

theorem eq_of_colon_mem {token : List Char} (h : ':' ∈ token) : token = ptrText token ++ ':' :: sizeText token := by
  have hsplit := List.takeWhile_append_dropWhile (p := (· != ':')) (l := token)
  cases hrest : token.dropWhile (· != ':') with
  | nil => exact absurd (List.dropWhile_eq_nil_iff.1 hrest ':' h) (by decide)
  | cons x rest =>
    have hhead := List.head?_dropWhile_not (· != ':') token
    rw [hrest] at hhead
    have hx : x = ':' := by simpa using hhead
    rw [hrest, hx] at hsplit
    unfold ptrText sizeText
    rw [hrest, List.tail_cons]
    exact hsplit.symm

theorem regionItem_iff {item : List Char} {region : SelectiveCrRegion} : RegionItem item region ↔
    (':' ∈ item ∧ strtoull (sizeText item) ≠ 0) ∧ ¬ (Misread (ptrText item) ∨ Misread (sizeText item)) ∧
      region = readRegion item := by
  unfold readRegion
  rw [not_or, ← literal_iff, ← literal_iff]
  constructor
  · rintro ⟨p, n, rfl, hp, hplt, hn, hnlt, hpos⟩
    obtain ⟨hptr, hsize⟩ := ptrText_append (p := p) (n := n) (hp.ne_of_mem rfl)
    rw [hptr, hsize, strtoull_literal hp hplt, strtoull_literal hn hnlt]
    exact ⟨⟨by simp, Nat.pos_iff_ne_zero.1 hpos⟩, ⟨⟨_, hp, hplt⟩, ⟨_, hn, hnlt⟩⟩, rfl⟩
  · rintro ⟨⟨hcolon, hpos⟩, ⟨⟨v, hp, hplt⟩, ⟨w, hn, hnlt⟩⟩, rfl⟩
    rw [strtoull_literal hp hplt, strtoull_literal hn hnlt] at *
    exact ⟨_, _, eq_of_colon_mem hcolon, hp, hplt, hn, hnlt, Nat.pos_iff_ne_zero.2 hpos⟩

theorem RegionItem.comma_not_mem {item : List Char} {region : SelectiveCrRegion} (h : RegionItem item region) : ',' ∉ item := by
  obtain ⟨p, n, rfl, hp, -, hn, -⟩ := h
  have hcomma : isDigit 36 ',' = false := rfl
  simp [hp.ne_of_mem hcomma, hn.ne_of_mem hcomma]

theorem forall₂_regionItem {items : List (List Char)} {regions : List SelectiveCrRegion} :
    items.Forall₂ RegionItem regions ↔ (∀ item ∈ items, RegionItem item (readRegion item)) ∧ regions = items.map readRegion := by
  induction items generalizing regions with
  | nil => simp
  | cons item items ih =>
    rw [List.forall₂_cons_left_iff, List.forall_mem_cons, List.map_cons]
    constructor
    · rintro ⟨region, regions, hitem, hitems, rfl⟩
      obtain ⟨hall, rfl⟩ := ih.1 hitems
      obtain ⟨-, -, rfl⟩ := regionItem_iff.1 hitem
      exact ⟨⟨hitem, hall⟩, rfl⟩
    · rintro ⟨⟨hitem, hall⟩, rfl⟩
      exact ⟨_, _, hitem, ih.2 ⟨hall, rfl⟩, rfl⟩

theorem regionList_iff (spec : List Char) (regions : List SelectiveCrRegion) : RegionList spec regions ↔
    PassesChecks spec ∧ ¬ Misreads spec ∧ regions = (tokens ',' spec).map readRegion := by
  unfold RegionList PassesChecks Misreads
  constructor
  · rintro ⟨items, rfl, hitems, hpos, hmax⟩
    obtain ⟨hall, rfl⟩ := forall₂_regionItem.1 hitems
    have hsplit : ([','].intercalate items).splitOn ',' = items :=
      List.splitOn_intercalate ',' (fun item hitem => (hall item hitem).comma_not_mem)
        (List.ne_nil_of_length_pos hpos)
    have hempty : [] ∉ ([','].intercalate items).splitOn ',' := by
      rw [hsplit]
      intro hmem
      obtain ⟨p, n, heq, -⟩ := hall [] hmem
      simp at heq
    rw [tokens_eq_splitOn hempty, hsplit]
    refine ⟨⟨List.ne_nil_of_length_pos hpos, hmax, fun t ht => (regionItem_iff.1 (hall t ht)).1⟩, ?_, rfl⟩
    rintro (hmem | ⟨t, ht, hmis⟩)
    · exact hempty (hsplit.symm ▸ hmem)
    · exact (regionItem_iff.1 (hall t ht)).2.1 hmis
  · rintro ⟨⟨hne, hmax, hall⟩, hread, rfl⟩
    rw [not_or] at hread
    obtain ⟨hempty, hread⟩ := hread
    rw [tokens_eq_splitOn hempty] at hne hmax hall hread ⊢
    refine ⟨spec.splitOn ',', (List.intercalate_splitOn ',').symm, forall₂_regionItem.2 ⟨fun t ht => ?_, rfl⟩,
      List.length_pos_iff.2 hne, hmax⟩
    exact regionItem_iff.2 ⟨hall t ht, fun hmis => hread ⟨t, ht, hmis⟩, rfl⟩

/-- **The argument of `-s`**: the client takes it for the list it is, or turns it down, unless it passes the checks with an
empty item or with a part that is read for something else. -/
theorem parsesExactly_iff (spec : List Char) : ParsesExactly spec ↔ ¬ (PassesChecks spec ∧ Misreads spec) := by
  unfold ParsesExactly
  simp only [parseSelectiveRegions_ok, regionList_iff]
  constructor
  · rintro h ⟨hpass, hmis⟩
    exact ((h _).1 ⟨hpass, rfl⟩).2.1 hmis
  · intro h regions
    constructor
    · rintro ⟨hpass, hregions⟩
      exact ⟨hpass, fun hmis => h ⟨hpass, hmis⟩, hregions⟩
    · rintro ⟨hpass, -, hregions⟩
      exact ⟨hpass, hregions⟩

/-- An address without the `0x`: the client takes it for the address `7`. -/
theorem not_parsesExactly : ¬ ParsesExactly "7f4a00000000:4096".toList := by
  intro h
  have hpass : PassesChecks "7f4a00000000:4096".toList := ⟨by decide, by decide, by decide⟩
  have hlist := (h _).1 ((parseSelectiveRegions_ok _ _).2 ⟨hpass, rfl⟩)
  exact ((regionList_iff _ _).1 hlist).2.1 (Or.inr ⟨"7f4a00000000:4096".toList, by decide, Or.inl (by decide)⟩)

end GpuCr
