import Mathlib.Order.Bounds.Basic
import Mathlib.Order.MinMax
import Mathlib.Data.List.Basic

/-! How far half-open spans listed by their starts cover without a gap. One pass that
never turns back finds the end of the gapless prefix. -/

namespace OriginCache.Foundation.Frontiers

variable {α : Type*} [LinearOrder α]

def Held (spans : List (α × α)) (x : α) : Prop := ∃ span ∈ spans, span.1 ≤ x ∧ x < span.2

def HeldUpto (spans : List (α × α)) (low high : α) : Prop := ∀ x, low ≤ x → x < high → Held spans x

/-- A span moves the position when it begins no later and ends after it. -/
@[grind =] def reach (low : α) : List (α × α) → α
  | [] => low
  | span :: rest => if span.1 ≤ low ∧ low < span.2 then reach span.2 rest else reach low rest

theorem le_reach (low : α) (spans : List (α × α)) : low ≤ reach low spans := by
  induction spans generalizing low with
  | nil => exact le_refl low
  | cons span rest ih =>
    rw [reach]
    split_ifs with moves
    · exact le_trans (le_of_lt moves.2) (ih span.2)
    · exact ih low

theorem Held.later (span : α × α) (rest : List (α × α)) (x : α) (held : Held rest x) : Held (span :: rest) x := by
  obtain ⟨other, member, inside⟩ := held
  exact ⟨other, List.mem_cons_of_mem _ member, inside⟩

theorem heldUpto_reach (low : α) (spans : List (α × α)) : HeldUpto spans low (reach low spans) := by
  induction spans generalizing low with
  | nil =>
    intro x after before
    exact absurd before (not_lt.mpr after)
  | cons span rest ih =>
    intro x after before
    rw [reach] at before
    split_ifs at before with moves
    · by_cases inside : x < span.2
      · exact ⟨span, List.mem_cons_self, le_trans moves.1 after, inside⟩
      · exact (ih span.2 x (not_lt.mp inside) before).later span
    · exact (ih low x after before).later span

/-- Nothing moves a position before all the starts. -/
theorem reach_gap (low : α) (spans : List (α × α)) (gap : ∀ span ∈ spans, low < span.1) : reach low spans = low := by
  induction spans with
  | nil => rfl
  | cons span rest ih =>
    have ahead := gap span List.mem_cons_self
    rw [reach, if_neg fun moves => absurd moves.1 (not_le.mpr ahead)]
    exact ih fun other member => gap other (List.mem_cons_of_mem _ member)

/-- In the order of the starts no span is passed over too early. -/
theorem not_held_reach (low : α) (spans : List (α × α)) (sorted : spans.Pairwise fun a b => a.1 ≤ b.1) :
    ¬ Held spans (reach low spans) := by
  induction spans generalizing low with
  | nil =>
    intro held
    obtain ⟨span, member, -⟩ := held
    exact absurd member List.not_mem_nil
  | cons span rest ih =>
    obtain ⟨first, later⟩ := List.pairwise_cons.mp sorted
    intro held
    obtain ⟨other, member, begins, ends⟩ := held
    rw [reach] at begins ends
    split_ifs at begins ends with moves
    · rcases List.mem_cons.mp member with rfl | member
      · exact absurd ends (not_lt.mpr (le_reach _ rest))
      · exact ih span.2 later ⟨other, member, begins, ends⟩
    · rcases List.mem_cons.mp member with rfl | member
      · by_cases starts : other.1 ≤ low
        · have passed : other.2 ≤ low := not_lt.mp fun ahead => moves ⟨starts, ahead⟩
          exact absurd ends (not_lt.mpr (le_trans passed (le_reach low rest)))
        · have ahead := not_le.mp starts
          rw [reach_gap low rest fun next inside => lt_of_lt_of_le ahead (first next inside)] at begins
          exact starts begins
      · exact ih low later ⟨other, member, begins, ends⟩

theorem heldUpto_iff (low high : α) (spans : List (α × α)) (sorted : spans.Pairwise fun a b => a.1 ≤ b.1) :
    HeldUpto spans low high ↔ high ≤ reach low spans := by
  constructor
  · intro held
    apply not_lt.mp
    intro short
    exact not_held_reach low spans sorted (held _ (le_reach low spans) short)
  · intro within x after before
    exact heldUpto_reach low spans x after (lt_of_lt_of_le before within)

/-- Cut to a limit, the position reached is the largest one covered up to. -/
theorem isGreatest_reach (low stop : α) (spans : List (α × α)) (sorted : spans.Pairwise fun a b => a.1 ≤ b.1) :
    IsGreatest {f | f ≤ stop ∧ HeldUpto spans low f} (min stop (reach low spans)) := by
  constructor
  · exact ⟨min_le_left _ _, (heldUpto_iff low _ spans sorted).mpr (min_le_right _ _)⟩
  · intro f good
    exact le_min good.1 ((heldUpto_iff low f spans sorted).mp good.2)

end OriginCache.Foundation.Frontiers
