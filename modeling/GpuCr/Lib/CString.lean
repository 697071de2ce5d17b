import Mathlib.Algebra.Group.Nat.Defs
import Mathlib.Data.List.Basic
import Mathlib.Data.List.TakeWhile

/-!
# C strings

`strtok` and `strtoull` on the list of the characters of a string, without the terminating one. A text that `strtoull`
takes to its end and to its value is an integer constant of C below `2 ^ 64`, and nothing else is: it takes a text that
has no digits for `0`, stops at the first character that is no digit and returns the largest value for one that is larger.
-/

namespace Lib.CString

/-! ### Tokens -/

/-- `strtok`, from where the call before has stopped: the token, and where the next call goes on. -/
def strtok (delim : Char) (s : List Char) : Option (List Char × List Char) :=
  match s.dropWhile (· == delim) with
  | [] => none
  | c :: s => some ((c :: s).takeWhile (· != delim), ((c :: s).dropWhile (· != delim)).tail)

/-- What lies between the delimiters, unless it is empty. -/
def tokens (delim : Char) (s : List Char) : List (List Char) := (s.splitOn delim).filter fun t => !t.isEmpty

section Tokens
variable {delim : Char}

theorem tokens_eq_splitOn {s : List Char} (h : [] ∉ s.splitOn delim) : tokens delim s = s.splitOn delim := by
  refine List.filter_eq_self.2 fun t ht => ?_
  cases t with
  | nil => exact absurd ht h
  | cons c t => rfl

theorem strtok_delim (s : List Char) : strtok delim (delim :: s) = strtok delim s := by
  simp [strtok]

theorem strtok_cons {c : Char} (hc : c ≠ delim) (s : List Char) : strtok delim (c :: s) =
    some ((c :: s).takeWhile (· != delim), ((c :: s).dropWhile (· != delim)).tail) := by
  have hdrop : (c :: s).dropWhile (· == delim) = c :: s := List.dropWhile_cons_of_neg (by simpa using hc)
  rw [strtok, hdrop]

/-- Every call takes up at least one character. -/
theorem length_of_strtok {s token rest : List Char} (h : strtok delim s = some (token, rest)) :
    rest.length < s.length := by
  induction s with
  | nil => simp [strtok] at h
  | cons c s ih =>
    by_cases hc : c = delim
    · subst hc
      rw [strtok_delim] at h
      exact Nat.lt_succ_of_lt (ih h)
    · rw [strtok_cons hc, Option.some.injEq, Prod.mk.injEq] at h
      have hle := (List.dropWhile_sublist (l := s) (· != delim)).length_le
      rw [← h.2, List.dropWhile_cons_of_pos (by simpa using hc), List.length_tail, List.length_cons]
      omega

/-- The tokens are those that the calls return one after the other. -/
theorem tokens_eq (s : List Char) : tokens delim s = match strtok delim s with
    | none => []
    | some (token, rest) => token :: tokens delim rest := by
  induction s with
  | nil => rfl
  | cons c s ih =>
    by_cases hc : c = delim
    · subst hc
      rw [strtok_delim, ← ih, tokens, List.splitOn_cons_eq_if_modifyHead, beq_self_eq_true, if_pos rfl]
      rfl
    · rw [strtok_cons hc]
      dsimp only
      have hne : (c :: s).takeWhile (· != delim) ≠ [] := by
        rw [List.takeWhile_cons_of_pos (by simpa using hc)]
        exact List.cons_ne_nil _ _
      have hnot : delim ∉ (c :: s).takeWhile (· != delim) := by
        intro hmem
        simpa using List.mem_takeWhile_imp hmem
      have hsplit := List.takeWhile_append_dropWhile (p := (· != delim)) (l := c :: s)
      generalize (c :: s).takeWhile (· != delim) = token at hne hnot hsplit
      cases hrest : (c :: s).dropWhile (· != delim) with
      | nil =>
        rw [hrest, List.append_nil] at hsplit
        rw [← hsplit, tokens, List.splitOn_eq_singleton hnot]
        simp [tokens, hne]
      | cons x rest =>
        have hx : x = delim := by
          have hhead := List.head?_dropWhile_not (· != delim) (c :: s)
          rw [hrest] at hhead
          simpa using hhead
        rw [hrest, hx] at hsplit
        rw [← hsplit, tokens, List.splitOn_append_cons_self_of_not_mem hnot]
        simp [tokens, hne]

end Tokens

/-! ### Numbers -/

/-- `isspace` -/
def isSpace (c : Char) : Bool := c == ' ' || (decide (9 ≤ c.toNat) && decide (c.toNat ≤ 13))

/-- The value of a digit or a letter; other characters are digits of no base. -/
def digit (c : Char) : Nat :=
  if 48 ≤ c.toNat ∧ c.toNat ≤ 57 then c.toNat - 48
  else if 97 ≤ c.toNat ∧ c.toNat ≤ 122 then c.toNat - 87
  else if 65 ≤ c.toNat ∧ c.toNat ≤ 90 then c.toNat - 55
  else 36

def isDigit (base : Nat) (c : Char) : Bool := decide (digit c < base)

def value (base : Nat) (digits : List Char) : Nat := digits.foldl (fun v c => v * base + digit c) 0

def readSign : List Char → Bool × List Char
  | '-' :: s => (true, s)
  | '+' :: s => (false, s)
  | s => (false, s)

/-- The base that the first characters give, and what is left to read. -/
def readBase : List Char → Nat × List Char
  | '0' :: 'x' :: s => (16, s)
  | '0' :: 'X' :: s => (16, s)
  | '0' :: s => (8, '0' :: s)
  | s => (10, s)

/-- `strtoull(s, NULL, 0)` -/
def strtoull (s : List Char) : Nat :=
  let signed := readSign (s.dropWhile isSpace)
  let based := readBase signed.2
  let v := value based.1 (based.2.takeWhile (isDigit based.1))
  if 2 ^ 64 ≤ v then 2 ^ 64 - 1 else if signed.1 then (2 ^ 64 - v) % 2 ^ 64 else v

/-- An integer constant without a suffix, and its value. -/
inductive Literal : List Char → Nat → Prop
  | decimal {c : Char} {ds : List Char} : c ≠ '0' → (∀ d ∈ c :: ds, isDigit 10 d = true) → Literal (c :: ds) (value 10 (c :: ds))
  | octal {ds : List Char} : (∀ d ∈ ds, isDigit 8 d = true) → Literal ('0' :: ds) (value 8 ('0' :: ds))
  | hex {x : Char} {ds : List Char} : x = 'x' ∨ x = 'X' → ds ≠ [] → (∀ d ∈ ds, isDigit 16 d = true) →
    Literal ('0' :: x :: ds) (value 16 ds)

/-- The text has no digits at its start (a blank or a sign is none), goes on after them, or is too large. -/
def Misread (s : List Char) : Prop :=
  (readBase s).2.takeWhile (isDigit (readBase s).1) = [] ∨ (readBase s).2.dropWhile (isDigit (readBase s).1) ≠ [] ∨
    2 ^ 64 ≤ value (readBase s).1 ((readBase s).2.takeWhile (isDigit (readBase s).1))

instance (s : List Char) : Decidable (Misread s) := inferInstanceAs (Decidable (_ ∨ _ ∨ _))

section Numbers
variable {s : List Char} {v : Nat}

theorem digit_lt_ten {c : Char} (h : isDigit 10 c = true) : 48 ≤ c.toNat ∧ c.toNat ≤ 57 := by
  rw [isDigit, decide_eq_true_eq, digit] at h
  split_ifs at h <;> omega

theorem isDigit_mono {b b' : Nat} (hb : b ≤ b') {c : Char} (h : isDigit b c = true) : isDigit b' c = true := by
  rw [isDigit, decide_eq_true_eq] at h ⊢
  omega

theorem readBase_decimal {c : Char} (hc : c ≠ '0') (ds : List Char) : readBase (c :: ds) = (10, c :: ds) := by
  unfold readBase
  split
  · exact absurd (List.cons.inj ‹_›).1 hc
  · exact absurd (List.cons.inj ‹_›).1 hc
  · exact absurd (List.cons.inj ‹_›).1 hc
  · rfl

theorem readBase_octal {ds : List Char} (hx : ∀ x ∈ ds.head?, x ≠ 'x' ∧ x ≠ 'X') : readBase ('0' :: ds) = (8, '0' :: ds) := by
  cases ds with
  | nil => rfl
  | cons x ds =>
    obtain ⟨h, h'⟩ := hx x rfl
    unfold readBase
    split
    · exact absurd (List.cons.inj (List.cons.inj ‹_›).2).1 h
    · exact absurd (List.cons.inj (List.cons.inj ‹_›).2).1 h'
    · next heq =>
      rw [(List.cons.inj heq).2]
    · next hno => exact absurd rfl (hno (x :: ds))

/-- The base is that of the constant, and what is left are its digits. -/
theorem Literal.readBase_eq (h : Literal s v) : (readBase s).2 ≠ [] ∧ (∀ d ∈ (readBase s).2, isDigit (readBase s).1 d = true) ∧
    v = value (readBase s).1 (readBase s).2 := by
  cases h with
  | @decimal c ds hc hds =>
    rw [readBase_decimal hc]
    exact ⟨List.cons_ne_nil _ _, hds, rfl⟩
  | @octal ds hds =>
    rw [readBase_octal fun x hx => ?_]
    · exact ⟨List.cons_ne_nil _ _, List.forall_mem_cons.2 ⟨rfl, hds⟩, rfl⟩
    · have hdigit := digit_lt_ten (isDigit_mono (by decide) (hds x (List.mem_of_mem_head? hx)))
      constructor
      · rintro rfl
        exact absurd hdigit (by decide)
      · rintro rfl
        exact absurd hdigit (by decide)
  | @hex x ds hx hne hds =>
    rcases hx with rfl | rfl
    · exact ⟨hne, hds, rfl⟩
    · exact ⟨hne, hds, rfl⟩

theorem readBase_cases (s : List Char) : (∃ x ds, (x = 'x' ∨ x = 'X') ∧ s = '0' :: x :: ds ∧ readBase s = (16, ds)) ∨
    (∃ ds, s = '0' :: ds ∧ readBase s = (8, s)) ∨ (∀ ds, s ≠ '0' :: ds) ∧ readBase s = (10, s) := by
  unfold readBase
  split
  · exact Or.inl ⟨_, _, Or.inl rfl, rfl, rfl⟩
  · exact Or.inl ⟨_, _, Or.inr rfl, rfl, rfl⟩
  · exact Or.inr (Or.inl ⟨_, rfl, rfl⟩)
  · next h => exact Or.inr (Or.inr ⟨h, rfl⟩)

/-- A text of digits of its base is a constant. -/
theorem literal_of_readBase (hne : (readBase s).2 ≠ []) (hds : ∀ d ∈ (readBase s).2, isDigit (readBase s).1 d = true) :
    Literal s (value (readBase s).1 (readBase s).2) := by
  rcases readBase_cases s with ⟨x, ds, hx, rfl, heq⟩ | ⟨ds, rfl, heq⟩ | ⟨h0, heq⟩
  · rw [heq] at hne hds ⊢
    exact Literal.hex hx hne hds
  · rw [heq] at hds ⊢
    exact Literal.octal fun d hd => hds d (List.mem_cons_of_mem _ hd)
  · rw [heq] at hne hds ⊢
    obtain ⟨c, ds, rfl⟩ := List.exists_cons_of_ne_nil hne
    exact Literal.decimal (fun hc => h0 ds (by rw [hc])) hds

/-- The texts that are read as they are written. -/
theorem literal_iff : (∃ v, Literal s v ∧ v < 2 ^ 64) ↔ ¬ Misread s := by
  rw [Misread, not_or, not_or, ne_eq, not_not, Nat.not_le]
  constructor
  · rintro ⟨v, h, hlt⟩
    obtain ⟨hne, hds, rfl⟩ := h.readBase_eq
    have htake := List.takeWhile_eq_self_iff.2 hds
    rw [htake]
    exact ⟨hne, List.dropWhile_eq_nil_iff.2 hds, hlt⟩
  · rintro ⟨hne, hdrop, hlt⟩
    have hds := List.dropWhile_eq_nil_iff.1 hdrop
    rw [List.takeWhile_eq_self_iff.2 hds] at hne hlt
    exact ⟨_, literal_of_readBase hne hds, hlt⟩

/-- The first character of a constant. -/
theorem Literal.head (h : Literal s v) : ∃ c ds, s = c :: ds ∧ isDigit 10 c = true := by
  cases h with
  | @decimal c ds hc hds => exact ⟨c, ds, rfl, hds c (List.mem_cons_self ..)⟩
  | @octal ds hds => exact ⟨_, ds, rfl, rfl⟩
  | @hex x ds hx hne hds => exact ⟨_, x :: ds, rfl, rfl⟩

theorem strtoull_literal (h : Literal s v) (hlt : v < 2 ^ 64) : strtoull s = v := by
  obtain ⟨c, ds, rfl, hc⟩ := h.head
  obtain ⟨hlo, hhi⟩ := digit_lt_ten hc
  have hspace : isSpace c = false := by
    have hne : c ≠ ' ' := by
      rintro rfl
      exact absurd hlo (by decide)
    have hnot : ¬ c.toNat ≤ 13 := by omega
    simp [isSpace, hne, hnot]
  have hdrop : (c :: ds).dropWhile isSpace = c :: ds := List.dropWhile_cons_of_neg (by simp [hspace])
  have hsign : readSign (c :: ds) = (false, c :: ds) := by
    unfold readSign
    split
    · next heq =>
      rw [(List.cons.inj heq).1] at hlo
      exact absurd hlo (by decide)
    · next heq =>
      rw [(List.cons.inj heq).1] at hlo
      exact absurd hlo (by decide)
    · rfl
  obtain ⟨-, hds, rfl⟩ := h.readBase_eq
  unfold strtoull
  rw [hdrop, hsign]
  dsimp only
  rw [List.takeWhile_eq_self_iff.2 hds, if_neg (Nat.not_le.2 hlt)]
  rfl

/-- The characters of a constant are digits, or the `x` of the prefix. -/
theorem Literal.ne_of_mem (h : Literal s v) {c : Char} (hc : isDigit 36 c = false) : c ∉ s := by
  intro hmem
  have hdigit : ∀ b ≤ 36, isDigit b c ≠ true := fun b hb hd => absurd (hc.symm.trans (isDigit_mono hb hd)) (by simp)
  cases h with
  | decimal _ hds => exact hdigit 10 (by decide) (hds c hmem)
  | octal hds =>
    rcases List.mem_cons.1 hmem with rfl | hmem
    · exact hdigit 8 (by decide) rfl
    · exact hdigit 8 (by decide) (hds c hmem)
  | hex hx _ hds =>
    rcases List.mem_cons.1 hmem with rfl | hmem
    · exact hdigit 16 (by decide) rfl
    · rcases List.mem_cons.1 hmem with rfl | hmem
      · rcases hx with rfl | rfl
        · exact hdigit 36 (Nat.le_refl _) rfl
        · exact hdigit 36 (Nat.le_refl _) rfl
      · exact hdigit 16 (by decide) (hds c hmem)

end Numbers

end Lib.CString
