import Mathlib.Algebra.Ring.Nat
import Mathlib.Tactic.Common

/-! Arithmetic on 64-bit words that remembers whether an operation wrapped. The
value is the one a wrapping build computes; the mark is what a checking build
stops on. -/

namespace OriginCache.Foundation.Words

@[ext] structure Calc (α : Type) where
  value : α
  exact : Bool
deriving DecidableEq, Repr

instance : Monad Calc where
  pure value := ⟨value, true⟩
  bind first next := ⟨(next first.value).value, first.exact && (next first.value).exact⟩

section Laws
variable {α β : Type}

@[simp] theorem value_pure (value : α) : (pure value : Calc α).value = value := rfl

@[simp] theorem exact_pure (value : α) : (pure value : Calc α).exact = true := rfl

@[simp] theorem value_bind (first : Calc α) (next : α → Calc β) :
    (first >>= next).value = (next first.value).value := rfl

@[simp] theorem exact_bind (first : Calc α) (next : α → Calc β) :
    (first >>= next).exact = (first.exact && (next first.value).exact) := rfl

instance : LawfulMonad Calc := LawfulMonad.mk' Calc
  (fun first => by ext <;> simp [Functor.map])
  (fun _ _ => rfl)
  (fun first next last => by ext <;> simp [Bool.and_assoc])

/-- After a step that did not wrap, what follows alone decides. -/
theorem bind_of_exact (first : Calc α) (next : α → Calc β) (exact₁ : first.exact = true) :
    (first >>= next) = next first.value := by
  ext
  · rfl
  · rw [exact_bind, exact₁, Bool.true_and]

end Laws

def add (a b : UInt64) : Calc UInt64 := ⟨a + b, decide (a.toNat + b.toNat < 2 ^ 64)⟩

def sub (a b : UInt64) : Calc UInt64 := ⟨a - b, decide (b ≤ a)⟩

theorem exact_add (a b : UInt64) : (add a b).exact = true ↔ a.toNat + b.toNat < 2 ^ 64 :=
  decide_eq_true_iff

theorem exact_sub (a b : UInt64) : (sub a b).exact = true ↔ b.toNat ≤ a.toNat := by
  rw [sub, decide_eq_true_iff, UInt64.le_iff_toNat_le]

theorem toNat_add (a b : UInt64) (fits : a.toNat + b.toNat < 2 ^ 64) :
    (add a b).value.toNat = a.toNat + b.toNat := by
  rw [add, UInt64.toNat_add, Nat.mod_eq_of_lt fits]

theorem toNat_sub (a b : UInt64) (fits : b.toNat ≤ a.toNat) :
    (sub a b).value.toNat = a.toNat - b.toNat :=
  UInt64.toNat_sub_of_le a b (UInt64.le_iff_toNat_le.mpr fits)

theorem toNat_min (a b : UInt64) : (min a b).toNat = min a.toNat b.toNat := by
  change (if a ≤ b then a else b).toNat = min a.toNat b.toNat
  have order := UInt64.le_iff_toNat_le (a := a) (b := b)
  split_ifs with below
  · exact (Nat.min_eq_left (order.mp below)).symm
  · exact (Nat.min_eq_right (Nat.le_of_not_le (mt order.mpr below))).symm

/-! Operations that saturate, and the ones a narrower counter or a shift needs. -/

def satAdd (a b : UInt64) : UInt64 := UInt64.ofNat (min (a.toNat + b.toNat) (2 ^ 64 - 1))

def satMul (a b : UInt64) : UInt64 := UInt64.ofNat (min (a.toNat * b.toNat) (2 ^ 64 - 1))

theorem toNat_satAdd (a b : UInt64) : (satAdd a b).toNat = min (a.toNat + b.toNat) (2 ^ 64 - 1) := by
  rw [satAdd, UInt64.toNat_ofNat']
  exact Nat.mod_eq_of_lt (lt_of_le_of_lt (Nat.min_le_right _ _) (by decide))

theorem toNat_satMul (a b : UInt64) : (satMul a b).toNat = min (a.toNat * b.toNat) (2 ^ 64 - 1) := by
  rw [satMul, UInt64.toNat_ofNat']
  exact Nat.mod_eq_of_lt (lt_of_le_of_lt (Nat.min_le_right _ _) (by decide))

/-- A shift is checked against the width alone. -/
def shiftLeft (a : UInt64) (k : UInt32) : Calc UInt64 := ⟨UInt64.ofNat (a.toNat * 2 ^ (k.toNat % 64)), decide (k.toNat < 64)⟩

theorem toNat_shiftLeft (a : UInt64) (k : UInt32) (fits : a.toNat * 2 ^ k.toNat < 2 ^ 64) (narrow : k.toNat < 64) :
    (shiftLeft a k).value.toNat = a.toNat * 2 ^ k.toNat := by
  rw [shiftLeft, Nat.mod_eq_of_lt narrow, UInt64.toNat_ofNat', Nat.mod_eq_of_lt fits]

def pred (a : UInt32) : UInt32 := if a = 0 then 0 else a - 1

def succ (a : UInt32) : Calc UInt32 := ⟨a + 1, decide (a.toNat + 1 < 2 ^ 32)⟩

theorem toNat_pred (a : UInt32) : (pred a).toNat = a.toNat - 1 := by
  unfold pred
  split_ifs with zero
  · rw [zero]
    rfl
  · have positive : 1 ≤ a.toNat := by
      apply Nat.one_le_iff_ne_zero.mpr
      intro none_
      exact zero (UInt32.toNat_inj.mp none_)
    exact UInt32.toNat_sub_of_le a 1 (UInt32.le_iff_toNat_le.mpr positive)

theorem toNat_succ (a : UInt32) (fits : a.toNat + 1 < 2 ^ 32) : (succ a).value.toNat = a.toNat + 1 := by
  rw [succ, UInt32.toNat_add]
  exact Nat.mod_eq_of_lt fits

end OriginCache.Foundation.Words
