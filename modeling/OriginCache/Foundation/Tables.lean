import Mathlib.Data.List.AList
import Mathlib.Algebra.Ring.Nat
import Mathlib.Algebra.BigOperators.Group.List.Basic

/-! Finite tables and the sum of a weight over their entries. A sum maintained
one entry at a time stays exact when each change gives up the weight of the entry
it replaces. -/

namespace OriginCache.Foundation.Tables

abbrev Table (κ ν : Type*) := AList fun _ : κ => ν

section Weights
variable {κ ν : Type*} (weight : κ → ν → Nat)

def weigh (table : Table κ ν) : Nat :=
  (table.entries.map fun entry => weight entry.1 entry.2).sum

@[simp] theorem weigh_empty : weigh weight (∅ : Table κ ν) = 0 := rfl

variable [DecidableEq κ]

theorem weigh_insert_absent (table : Table κ ν) (key : κ) (value : ν) (absent : key ∉ table) :
    weigh weight (table.insert key value) = weight key value + weigh weight table := by
  rw [weigh, AList.entries_insert_of_notMem absent, List.map_cons, List.sum_cons, weigh]

theorem erase_absent (table : Table κ ν) (key : κ) (absent : key ∉ table) :
    table.erase key = table :=
  AList.ext (List.kerase_of_notMem_keys absent)

theorem weigh_erase (table : Table κ ν) (key : κ) (value : ν)
    (found : table.lookup key = some value) :
    weigh weight table = weight key value + weigh weight (table.erase key) := by
  have present : key ∈ table.entries.keys :=
    AList.mem_keys.mp (AList.lookup_isSome.mp (by rw [found]; rfl))
  obtain ⟨old, front, back, _, whole, rest⟩ := List.exists_of_kerase present
  have same : old = value := by
    have member : (⟨key, old⟩ : Sigma fun _ : κ => ν) ∈ table.entries := by rw [whole]; simp
    have other := (List.mem_dlookup_iff table.nodupKeys).mpr member
    have given : table.entries.dlookup key = some value := found
    rw [Option.mem_def, given] at other
    exact (Option.some.inj other).symm
  have shrunk : (table.erase key).entries = front ++ back := rest
  rw [weigh, weigh, shrunk, whole]
  simp only [List.map_append, List.map_cons, List.sum_append, List.sum_cons, same]
  omega

theorem weigh_insert (table : Table κ ν) (key : κ) (value old : ν)
    (found : table.lookup key = some old) :
    weigh weight (table.insert key value) + weight key old =
      weigh weight table + weight key value := by
  have absent : key ∉ table.erase key := by simp
  have rebuilt : table.insert key value = (table.erase key).insert key value := by
    apply AList.ext
    rw [AList.entries_insert, AList.entries_insert]
    change _ = _ :: (table.entries.kerase key).kerase key
    rw [List.kerase_of_notMem_keys (List.notMem_keys_kerase key table.nodupKeys)]
  rw [rebuilt, weigh_insert_absent weight _ key value absent, weigh_erase weight table key old found]
  omega

theorem weight_le_weigh (table : Table κ ν) (key : κ) (value : ν)
    (found : table.lookup key = some value) : weight key value ≤ weigh weight table := by
  rw [weigh_erase weight table key value found]
  exact Nat.le_add_right _ _

theorem lookup_mem (table : Table κ ν) (key : κ) (value : ν)
    (found : table.lookup key = some value) : key ∈ table :=
  AList.lookup_isSome.mp (by rw [found]; rfl)

theorem keys_insert_length (table : Table κ ν) (key : κ) (value : ν) (absent : table.lookup key = none) :
    (table.insert key value).keys.length = table.keys.length + 1 := by
  have fresh : key ∉ table := AList.lookup_eq_none.mp absent
  change (table.insert key value).entries.keys.length = table.entries.keys.length + 1
  rw [AList.entries_insert_of_notMem fresh]
  rfl

theorem lookup_insert_some (table : Table κ ν) (key other : κ) (value found : ν)
    (hit : (table.insert key value).lookup other = some found) :
    (other = key ∧ found = value) ∨ (other ≠ key ∧ table.lookup other = some found) := by
  by_cases same : other = key
  · rw [same, AList.lookup_insert] at hit
    exact .inl ⟨same, (Option.some.inj hit).symm⟩
  · rw [AList.lookup_insert_ne same] at hit
    exact .inr ⟨same, hit⟩

theorem lookup_erase_some (table : Table κ ν) (key other : κ) (found : ν)
    (hit : (table.erase key).lookup other = some found) :
    other ≠ key ∧ table.lookup other = some found := by
  by_cases same : other = key
  · rw [same, AList.lookup_erase] at hit
    cases hit
  · rw [AList.lookup_erase_ne same] at hit
    exact ⟨same, hit⟩

/-- Write an entry, or drop it. -/
def replace (table : Table κ ν) (key : κ) : Option ν → Table κ ν
  | some value => table.insert key value
  | none => table.erase key

theorem lookup_replace (table : Table κ ν) (key : κ) (next : Option ν) :
    (replace table key next).lookup key = next := by
  cases next with
  | some value => exact AList.lookup_insert table
  | none => exact AList.lookup_erase key table

theorem lookup_replace_ne (table : Table κ ν) {key other : κ} (next : Option ν) (differs : other ≠ key) :
    (replace table key next).lookup other = table.lookup other := by
  cases next with
  | some value => exact AList.lookup_insert_ne differs
  | none => exact AList.lookup_erase_ne differs

/-- The weight of an entry that may not be there. -/
def weightAt (key : κ) (value : Option ν) : Nat := (value.map (weight key)).getD 0

theorem weigh_replace (table : Table κ ν) (key : κ) (next : Option ν) :
    weigh weight (replace table key next) + weightAt weight key (table.lookup key) =
      weigh weight table + weightAt weight key next := by
  cases found : table.lookup key with
  | none =>
    have absent : key ∉ table := AList.lookup_eq_none.mp found
    cases next with
    | none =>
      change weigh weight (table.erase key) + 0 = weigh weight table + 0
      rw [erase_absent table key absent]
    | some value =>
      change weigh weight (table.insert key value) + 0 = weigh weight table + weight key value
      rw [weigh_insert_absent weight table key value absent]
      omega
  | some old =>
    cases next with
    | none =>
      change weigh weight (table.erase key) + weight key old = weigh weight table + 0
      rw [weigh_erase weight table key old found]
      omega
    | some value => exact weigh_insert weight table key value old found

/-- The weight of one entry and of the others. -/
theorem weigh_split (table : Table κ ν) (key : κ) :
    weigh weight table = weightAt weight key (table.lookup key) + weigh weight (table.erase key) := by
  cases found : table.lookup key with
  | none =>
    rw [erase_absent table key (AList.lookup_eq_none.mp found)]
    exact (Nat.zero_add _).symm
  | some value => exact weigh_erase weight table key value found

theorem weigh_replaced (table : Table κ ν) (key : κ) (next : Option ν) :
    weigh weight (replace table key next) = weightAt weight key next + weigh weight (table.erase key) := by
  have moved := weigh_replace weight table key next
  have before := weigh_split weight table key
  omega

end Weights

/-! The entries that pass a test. -/

section Retained
variable {κ ν : Type*}

def retain (table : Table κ ν) (test : κ → ν → Bool) : Table κ ν :=
  ⟨table.entries.filter fun entry => test entry.1 entry.2, table.nodupKeys.sublist List.filter_sublist⟩

theorem lookup_retain [DecidableEq κ] (table : Table κ ν) (test : κ → ν → Bool) (key : κ) :
    (retain table test).lookup key = (table.lookup key).filter (test key) := by
  apply Option.ext
  intro value
  have kept : value ∈ (retain table test).lookup key ↔ ⟨key, value⟩ ∈ (retain table test).entries :=
    AList.mem_lookup_iff
  have before : value ∈ table.lookup key ↔ ⟨key, value⟩ ∈ table.entries := AList.mem_lookup_iff
  rw [← Option.mem_def, kept, ← Option.mem_def, Option.mem_filter_iff, before]
  exact List.mem_filter

end Retained

section Tests
variable {κ ν : Type*}

def every (table : Table κ ν) (test : κ → ν → Bool) : Bool :=
  table.entries.all fun entry => test entry.1 entry.2

def someEntry (table : Table κ ν) (test : κ → ν → Bool) : Bool :=
  table.entries.any fun entry => test entry.1 entry.2

variable [DecidableEq κ]

theorem every_iff (table : Table κ ν) (test : κ → ν → Bool) :
    every table test = true ↔ ∀ key value, table.lookup key = some value → test key value = true := by
  rw [every, List.all_eq_true]
  apply Iff.intro
  · intro all key value found
    exact all ⟨key, value⟩ (AList.mem_lookup_iff.mp found)
  · intro all entry member
    exact all entry.1 entry.2 (AList.mem_lookup_iff.mpr member)

theorem someEntry_iff (table : Table κ ν) (test : κ → ν → Bool) :
    someEntry table test = true ↔ ∃ key value, table.lookup key = some value ∧ test key value = true := by
  rw [someEntry, List.any_eq_true]
  apply Iff.intro
  · intro passing
    obtain ⟨entry, member, passes⟩ := passing
    exact ⟨entry.1, entry.2, AList.mem_lookup_iff.mpr member, passes⟩
  · intro passing
    obtain ⟨key, value, found, passes⟩ := passing
    exact ⟨⟨key, value⟩, AList.mem_lookup_iff.mp found, passes⟩

/-- An entry at a key, and the others. -/
theorem someEntry_split (table : Table κ ν) (key : κ) (test : κ → ν → Bool) :
    someEntry table test = ((table.lookup key).any (test key) || someEntry (table.erase key) test) := by
  apply Bool.eq_iff_iff.mpr
  rw [Bool.or_eq_true, Option.any_eq_true, someEntry_iff, someEntry_iff]
  constructor
  · intro passing
    obtain ⟨other, value, found, passes⟩ := passing
    by_cases same : other = key
    · rw [same] at found passes
      exact .inl ⟨value, found, passes⟩
    · exact .inr ⟨other, value, by rw [AList.lookup_erase_ne same]; exact found, passes⟩
  · intro passing
    cases passing with
    | inl here =>
      obtain ⟨value, found, passes⟩ := here
      exact ⟨key, value, found, passes⟩
    | inr there =>
      obtain ⟨other, value, found, passes⟩ := there
      exact ⟨other, value, (lookup_erase_some table key other value found).2, passes⟩

theorem someEntry_congr (table other : Table κ ν) (test : κ → ν → Bool)
    (same : ∀ key, table.lookup key = other.lookup key) : someEntry table test = someEntry other test := by
  apply Bool.eq_iff_iff.mpr
  simp only [someEntry_iff, same]

theorem someEntry_replace (table : Table κ ν) (key : κ) (next : Option ν) (test : κ → ν → Bool) :
    someEntry (replace table key next) test = (next.any (test key) || someEntry (table.erase key) test) := by
  rw [someEntry_split _ key, lookup_replace]
  congr 1
  apply someEntry_congr
  intro other
  by_cases same : other = key
  · rw [same, AList.lookup_erase, AList.lookup_erase]
  · rw [AList.lookup_erase_ne same, AList.lookup_erase_ne same, lookup_replace_ne table next same]

end Tests

end OriginCache.Foundation.Tables
