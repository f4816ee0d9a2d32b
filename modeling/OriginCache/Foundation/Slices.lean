import Mathlib.Data.List.Infix

/-! The stretch of a list from one position on. What is read piece by piece from a
list is one stretch of it, and a stretch of a stretch is one of the list. -/

namespace OriginCache.Foundation.Slices

section
variable {α : Type*}

def slice (list : List α) (start len : Nat) : List α := (list.drop start).take len

@[simp] theorem slice_zero (list : List α) (start : Nat) : slice list start 0 = [] := List.take_zero

theorem slice_add (list : List α) (start front back : Nat) :
    slice list start (front + back) = slice list start front ++ slice list (start + front) back := by
  unfold slice
  rw [List.take_add, List.drop_drop]

theorem length_slice (list : List α) (start len : Nat) :
    (slice list start len).length = min len (list.length - start) := by
  rw [slice, List.length_take, List.length_drop]

theorem slice_prefix (list : List α) (start : Nat) {front len : Nat} (within : front ≤ len) :
    slice list start front <+: slice list start len := List.take_prefix_take_left within

/-- A list that is another one's from a position on. -/
def ReadFrom (list : List α) (start : Nat) (part : List α) : Prop := part = slice list start part.length

instance [DecidableEq α] (list : List α) (start : Nat) (part : List α) : Decidable (ReadFrom list start part) :=
  inferInstanceAs (Decidable (part = slice list start part.length))

theorem readFrom_nil (list : List α) (start : Nat) : ReadFrom list start [] := (slice_zero list start).symm

theorem ReadFrom.append {list front back : List α} {start : Nat} (first : ReadFrom list start front)
    (rest : ReadFrom list (start + front.length) back) : ReadFrom list start (front ++ back) := by
  unfold ReadFrom
  rw [List.length_append, slice_add, ← first, ← rest]

theorem ReadFrom.slice {list part : List α} {start : Nat} (whole : ReadFrom list start part)
    (offset len : Nat) : ReadFrom list (start + offset) (slice part offset len) := by
  have length := length_slice part offset len
  unfold ReadFrom
  rw [length]
  calc Slices.slice part offset len
      = Slices.slice (Slices.slice list start part.length) offset len := by rw [← whole]
    _ = Slices.slice list (start + offset) (min len (part.length - offset)) := by
      unfold Slices.slice
      rw [List.drop_take, List.drop_drop, List.take_take]

end

end OriginCache.Foundation.Slices
