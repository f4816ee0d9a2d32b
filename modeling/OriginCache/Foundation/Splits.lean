import Mathlib.Data.List.Basic
import Mathlib.Data.List.Infix

/-! Cutting a list at the first or at the last occurrence of a separator, and
decimal numerals as lists of digits. A cut is exact when the part that must not
hold the separator does not hold it. -/

namespace OriginCache.Foundation.Splits

section Cuts
variable {α : Type*} [DecidableEq α]

/-- The parts before and after the first `sep`. -/
@[grind =] def splitOnce (sep : α) : List α → Option (List α × List α)
  | [] => none
  | x :: rest =>
      if x = sep then some ([], rest)
      else (splitOnce sep rest).map fun parts => (x :: parts.1, parts.2)

/-- The parts before and after the last `sep`. -/
@[grind =] def rsplitOnce (sep : α) : List α → Option (List α × List α)
  | [] => none
  | x :: rest =>
      match rsplitOnce sep rest with
      | some parts => some (x :: parts.1, parts.2)
      | none => if x = sep then some ([], rest) else none

def stripPrefix (front whole : List α) : Option (List α) :=
  if front.isPrefixOf whole then some (whole.drop front.length) else none

theorem splitOnce_append (sep : α) (before after : List α) (free : sep ∉ before) :
    splitOnce sep (before ++ sep :: after) = some (before, after) := by
  induction before with
  | nil => simp [splitOnce]
  | cons x before ih =>
    have head : x ≠ sep := fun same => free (same ▸ List.mem_cons_self)
    have tail : sep ∉ before := fun present => free (List.mem_cons_of_mem x present)
    simp [splitOnce, head, ih tail]

theorem splitOnce_some (sep : α) (whole before after : List α)
    (cut : splitOnce sep whole = some (before, after)) : whole = before ++ sep :: after := by
  induction whole generalizing before with
  | nil => cases cut
  | cons x rest ih =>
    rw [splitOnce] at cut
    by_cases here : x = sep
    · rw [if_pos here] at cut
      cases cut
      rw [here, List.nil_append]
    · rw [if_neg here] at cut
      obtain ⟨parts, later, same⟩ := Option.map_eq_some_iff.mp cut
      cases same
      rw [ih parts.1 later, List.cons_append]

theorem rsplitOnce_some (sep : α) (whole before after : List α)
    (cut : rsplitOnce sep whole = some (before, after)) : whole = before ++ sep :: after := by
  induction whole generalizing before with
  | nil => cases cut
  | cons x rest ih =>
    rw [rsplitOnce] at cut
    cases later : rsplitOnce sep rest with
    | some parts =>
      rw [later] at cut
      cases cut
      rw [ih parts.1 later, List.cons_append]
    | none =>
      rw [later] at cut
      simp only at cut
      split_ifs at cut with here
      cases cut
      rw [here, List.nil_append]

theorem rsplitOnce_free (sep : α) (whole : List α) (free : sep ∉ whole) :
    rsplitOnce sep whole = none := by
  induction whole with
  | nil => rfl
  | cons x rest ih =>
    have head : x ≠ sep := fun same => free (same ▸ List.mem_cons_self)
    have tail : sep ∉ rest := fun present => free (List.mem_cons_of_mem x present)
    simp [rsplitOnce, ih tail, head]

theorem rsplitOnce_append (sep : α) (before after : List α) (free : sep ∉ after) :
    rsplitOnce sep (before ++ sep :: after) = some (before, after) := by
  induction before with
  | nil => simp [rsplitOnce, rsplitOnce_free sep after free]
  | cons x before ih => simp [rsplitOnce, ih]

@[simp] theorem stripPrefix_append (front rest : List α) :
    stripPrefix front (front ++ rest) = some rest := by
  simp [stripPrefix]

omit [DecidableEq α] in
/-- A marked name is a prefix of another marked name exactly when the two names
agree or the second one continues the first after a mark. -/
theorem marked_prefix_iff (mark : α) (first second tail : List α) (free : mark ∉ tail) :
    first ++ [mark] <+: second ++ mark :: tail ↔
      first = second ∨ ∃ rest, second = first ++ mark :: rest := by
  constructor
  · rintro ⟨after, same⟩
    rw [List.append_assoc, List.singleton_append, List.append_eq_append_iff] at same
    rcases same with ⟨gap, long, short⟩ | ⟨gap, long, short⟩
    · cases gap with
      | nil => exact Or.inl (by simpa using long.symm)
      | cons head rest =>
        simp only [List.cons_append, List.cons.injEq] at short
        exact Or.inr ⟨rest, by rw [long, short.1]⟩
    · cases gap with
      | nil => exact Or.inl (by simpa using long)
      | cons head rest =>
        simp only [List.cons_append, List.cons.injEq] at short
        exact (free (by rw [short.2]; simp)).elim
  · rintro (rfl | ⟨rest, rfl⟩)
    · exact ⟨tail, by simp⟩
    · exact ⟨rest ++ mark :: tail, by simp⟩

end Cuts

/-! Parts joined by a separator that none of them holds. -/

section Joins
variable {α : Type*}

theorem mem_intercalate (sep c : α) (parts : List (List α)) (member : c ∈ [sep].intercalate parts) :
    c = sep ∨ ∃ part ∈ parts, c ∈ part := by
  induction parts with
  | nil => exact absurd member List.not_mem_nil
  | cons part parts ih =>
    by_cases last : parts = []
    · subst last
      rw [List.intercalate_singleton] at member
      exact .inr ⟨part, List.mem_cons_self, member⟩
    · rw [List.intercalate_cons_of_ne_nil last, List.mem_append, List.mem_append,
        List.mem_singleton] at member
      rcases member with (here | mark) | later
      · exact .inr ⟨part, List.mem_cons_self, here⟩
      · exact .inl mark
      · apply (ih later).imp_right
        intro ⟨other, inside, holds⟩
        exact ⟨other, List.mem_cons_of_mem part inside, holds⟩

theorem splitOnP_free (cuts : α → Bool) (whole part : List α) (member : part ∈ whole.splitOnP cuts) :
    ∀ c ∈ part, cuts c = false := by
  induction whole generalizing part with
  | nil =>
    rw [List.splitOnP_nil, List.mem_singleton] at member
    rw [member]
    exact fun c inside => absurd inside List.not_mem_nil
  | cons head tail ih =>
    rw [List.splitOnP_cons_eq_if_modifyHead] at member
    by_cases cut : cuts head = true
    · rw [if_pos cut, List.mem_cons] at member
      rcases member with rfl | later
      · exact fun c inside => absurd inside List.not_mem_nil
      · exact ih part later
    · rw [if_neg cut] at member
      cases pieces : tail.splitOnP cuts with
      | nil => exact absurd pieces (List.splitOnP_ne_nil cuts tail)
      | cons first others =>
        rw [pieces, List.modifyHead_cons, List.mem_cons] at member
        rcases member with rfl | later
        · intro c inside
          rcases List.mem_cons.mp inside with rfl | rest
          · exact Bool.not_eq_true _ ▸ cut
          · exact ih first (pieces ▸ List.mem_cons_self) c rest
        · exact ih part (pieces ▸ List.mem_cons_of_mem first later)

variable [DecidableEq α]

/-- A cut at the first separator is unique. -/
theorem append_cons_inj (sep : α) {front₁ rest₁ front₂ rest₂ : List α}
    (same : front₁ ++ sep :: rest₁ = front₂ ++ sep :: rest₂) (free₁ : sep ∉ front₁) (free₂ : sep ∉ front₂) :
    front₁ = front₂ ∧ rest₁ = rest₂ := by
  have cut := congrArg (splitOnce sep) same
  rw [splitOnce_append sep front₁ rest₁ free₁, splitOnce_append sep front₂ rest₂ free₂] at cut
  exact Prod.mk.inj (Option.some.inj cut)

/-- A cut at the last separator is unique. -/
theorem append_cons_inj_last (sep : α) {front₁ rest₁ front₂ rest₂ : List α}
    (same : front₁ ++ sep :: rest₁ = front₂ ++ sep :: rest₂) (free₁ : sep ∉ rest₁) (free₂ : sep ∉ rest₂) :
    front₁ = front₂ ∧ rest₁ = rest₂ := by
  have cut := congrArg (rsplitOnce sep) same
  rw [rsplitOnce_append sep front₁ rest₁ free₁, rsplitOnce_append sep front₂ rest₂ free₂] at cut
  exact Prod.mk.inj (Option.some.inj cut)

/-- Joined parts are read back, also when there is none. -/
theorem intercalate_inj (sep : α) (first second : List (List α))
    (free₁ : ∀ part ∈ first, sep ∉ part ∧ part ≠ []) (free₂ : ∀ part ∈ second, sep ∉ part ∧ part ≠ [])
    (same : [sep].intercalate first = [sep].intercalate second) : first = second := by
  have read : ∀ parts : List (List α), (∀ part ∈ parts, sep ∉ part ∧ part ≠ []) → parts ≠ [] →
      ([sep].intercalate parts).splitOn sep = parts := by
    intro parts free some
    exact List.splitOn_intercalate sep (fun part member => (free part member).1) some
  have unread : ∀ parts : List (List α), (∀ part ∈ parts, sep ∉ part ∧ part ≠ []) →
      [sep].intercalate parts = [] → parts = [] := by
    intro parts free empty
    by_contra some
    have pieces := read parts free some
    rw [empty, List.splitOn_nil] at pieces
    exact (free [] (pieces ▸ List.mem_singleton_self [])).2 rfl
  by_cases none : first = []
  · rw [none] at same
    rw [none, unread second free₂ same.symm]
  · have other : second ≠ [] := by
      rintro rfl
      exact none (unread first free₁ same)
    rw [← read first free₁ none, same, read second free₂ other]

end Joins

/-! Decimal numerals. -/

/-- The digits of a number, most significant first, with no leading zero. -/
def numeral (n : Nat) : List Char := Nat.toDigits 10 n

theorem numeral_ne_nil (n : Nat) : numeral n ≠ [] := Nat.toDigits_ne_nil

theorem numeral_isDigit (n : Nat) (c : Char) (member : c ∈ numeral n) : c.isDigit = true :=
  Nat.isDigit_of_mem_toDigits (by decide) (by decide) member

theorem not_mem_numeral (n : Nat) (c : Char) (other : c.isDigit = false) : c ∉ numeral n := by
  intro member
  rw [numeral_isDigit n c member] at other
  exact Bool.noConfusion other

/-- The value of a nonempty run of digits below `limit`. -/
def readNumeral (limit : Nat) (digits : List Char) : Option Nat :=
  if digits ≠ [] ∧ digits.all Char.isDigit ∧ Nat.ofDigitChars 10 digits 0 < limit then
    some (Nat.ofDigitChars 10 digits 0)
  else none

theorem readNumeral_numeral (limit n : Nat) (bound : n < limit) :
    readNumeral limit (numeral n) = some n := by
  have value : Nat.ofDigitChars 10 (numeral n) 0 = n := Nat.ofDigitChars_ten_toDigits
  have digits : (numeral n).all Char.isDigit = true :=
    List.all_eq_true.mpr (numeral_isDigit n)
  rw [readNumeral, if_pos ⟨numeral_ne_nil n, digits, by rw [value]; exact bound⟩, value]

theorem numeral_injective : Function.Injective numeral := by
  intro first second same
  have values := congrArg (fun digits => Nat.ofDigitChars 10 digits 0) same
  simpa only [numeral, Nat.ofDigitChars_ten_toDigits] using values

end OriginCache.Foundation.Splits
