import OriginCache.Foundation.Tables

/-! A table in which each key names at most one entry, while the entries have a life of
their own. As long as every live entry is the one under its key, no two live entries
share a key, whoever adds and removes them. -/

namespace OriginCache.Foundation.Registry
open Tables

section Entries
variable {κ ε : Type} [DecidableEq κ]

/-- Every live entry is the one under its key. -/
def Exclusive (map : Table κ ε) (live : ε → κ → Prop) : Prop :=
  ∀ entry key, live entry key → map.lookup key = some entry

theorem Exclusive.unique {map : Table κ ε} {live : ε → κ → Prop} (exclusive : Exclusive map live) {one other : ε}
    {key : κ} (left : live one key) (right : live other key) : one = other :=
  Option.some.inj ((exclusive one key left).symm.trans (exclusive other key right))

theorem Exclusive.mono {map : Table κ ε} {live alive : ε → κ → Prop} (exclusive : Exclusive map live)
    (fewer : ∀ entry key, alive entry key → live entry key) : Exclusive map alive :=
  fun entry key lives => exclusive entry key (fewer entry key lives)

/-- A new entry takes a key that is free. -/
theorem Exclusive.insert {map : Table κ ε} {live alive : ε → κ → Prop} (exclusive : Exclusive map live) (entry : ε)
    (key : κ) (free : map.lookup key = none)
    (others : ∀ other k, alive other k → (other = entry ∧ k = key) ∨ live other k) :
    Exclusive (map.insert key entry) alive := by
  intro other k lives
  cases others other k lives with
  | inl new => rw [new.1, new.2, AList.lookup_insert]
  | inr old =>
    have found := exclusive other k old
    have differs : k ≠ key := by
      intro same
      rw [same, free] at found
      cases found
    rw [AList.lookup_insert_ne differs, found]

/-- A key may be freed once its entry is no longer live. -/
theorem Exclusive.erase {map : Table κ ε} {live alive : ε → κ → Prop} (exclusive : Exclusive map live) (key : κ)
    (fewer : ∀ entry k, alive entry k → live entry k) (spent : ∀ entry, ¬ alive entry key) :
    Exclusive (map.erase key) alive := by
  intro entry k lives
  have differs : k ≠ key := by
    intro same
    rw [same] at lives
    exact spent entry lives
  rw [AList.lookup_erase_ne differs]
  exact exclusive entry k (fewer entry k lives)

variable [DecidableEq ε]

/-- Free a key if it still names this entry. -/
def release (map : Table κ ε) (key : κ) (entry : ε) : Table κ ε :=
  if map.lookup key = some entry then map.erase key else map

/-- No other entry loses its key. -/
theorem lookup_release_other (map : Table κ ε) (key k : κ) (entry other : ε) (differs : other ≠ entry)
    (found : map.lookup k = some other) : (release map key entry).lookup k = some other := by
  unfold release
  split_ifs with own
  · have apart : k ≠ key := by
      intro same
      rw [same, own] at found
      exact differs (Option.some.inj found).symm
    rw [AList.lookup_erase_ne apart, found]
  · exact found

theorem Exclusive.release {map : Table κ ε} {live : ε → κ → Prop} (exclusive : Exclusive map live) (key : κ) (entry : ε)
    (spent : ¬ live entry key) : Exclusive (release map key entry) live := by
  intro other k lives
  have found := exclusive other k lives
  by_cases same : other = entry
  · subst same
    have apart : k ≠ key := by
      intro same
      rw [same] at lives
      exact spent lives
    unfold Registry.release
    split_ifs
    · rw [AList.lookup_erase_ne apart, found]
    · exact found
  · exact lookup_release_other map key k entry other same found

end Entries

end OriginCache.Foundation.Registry
