import OriginCache.Foundation.Tables

/-! Memoised functions. Inputs are remembered under names, and the whole memo is dropped
when it is full. Where fine inputs have names of their own, what is remembered is what the
function would give. -/

namespace OriginCache.Foundation.Memos
open Tables

section Memos
variable {ι κ ν : Type*} [DecidableEq κ] (name : ι → κ) (f : ι → ν) (cap : Nat)

def consult (memo : Table κ ν) (x : ι) : ν × Table κ ν :=
  match memo.lookup (name x) with
  | some known => (known, memo)
  | none =>
      let kept := if cap ≤ memo.keys.length then ∅ else memo
      (f x, kept.insert (name x) (f x))

/-- What the memo says about a fine input is right. -/
def Truthful (fine : ι → Prop) (memo : Table κ ν) : Prop :=
  ∀ x, fine x → ∀ known, memo.lookup (name x) = some known → known = f x

variable {name f cap} {fine : ι → Prop} {memo : Table κ ν} {x : ι}

theorem truthful_empty : Truthful name f fine (∅ : Table κ ν) := by
  intro x _ known found
  rw [AList.lookup_empty] at found
  cases found

theorem consult_value (truthful : Truthful name f fine memo) (good : fine x) : (consult name f cap memo x).1 = f x := by
  unfold consult
  cases found : memo.lookup (name x) with
  | none => rfl
  | some known => exact truthful x good known found

theorem truthful_kept (truthful : Truthful name f fine memo) :
    Truthful name f fine (if cap ≤ memo.keys.length then ∅ else memo) := by
  split_ifs
  · exact truthful_empty
  · exact truthful

theorem consult_truthful (named : ∀ a b, fine a → fine b → name a = name b → a = b)
    (truthful : Truthful name f fine memo) (good : fine x) : Truthful name f fine (consult name f cap memo x).2 := by
  unfold consult
  cases found : memo.lookup (name x) with
  | some known => exact truthful
  | none =>
    intro y other known remembered
    by_cases same : name y = name x
    · have one := named y x other good same
      subst one
      simp only [AList.lookup_insert] at remembered
      exact (Option.some.inj remembered).symm
    · simp only [AList.lookup_insert_ne same] at remembered
      exact truthful_kept truthful y other known remembered

theorem consult_length (room : 0 < cap) (few : memo.keys.length ≤ cap) :
    (consult name f cap memo x).2.keys.length ≤ cap := by
  unfold consult
  cases found : memo.lookup (name x) with
  | some known => exact few
  | none =>
    simp only
    split_ifs with full
    · rw [keys_insert_length _ _ _ (AList.lookup_empty _)]
      exact room
    · rw [keys_insert_length _ _ _ found]
      omega

end Memos

end OriginCache.Foundation.Memos
