import OriginCache.Foundation.Frontiers
import OriginCache.Cache.Ledger
import OriginCache.Cache.Staging

/-! The plan of a range and the ledger's own check walk the same files. Both find the end
of the prefix that the files cover together. -/

namespace OriginCache.Cache.StagedPrefix
open Foundation.Frontiers SegName Store Ledger Staging

def bounds (segs : List (Nat × Nat × Text)) : List (Nat × Nat) := segs.map fun seg => (seg.1, seg.2.1)

theorem bounds_sorted (segs : List (Nat × Nat × Text)) (sorted : segs.Pairwise pathOrder) :
    (bounds segs).Pairwise fun a b => a.1 ≤ b.1 := by
  apply List.pairwise_map.mpr
  apply sorted.imp
  intro a b before
  unfold pathOrder at before
  omega

theorem held_bounds (segs : List (Nat × Nat × Text)) (x : Nat) :
    Held (bounds segs) x ↔ ∃ s e path, (s, e, path) ∈ segs ∧ s ≤ x ∧ x < e := by
  constructor
  · intro held
    obtain ⟨span, member, inside⟩ := held
    obtain ⟨seg, listed, rfl⟩ := List.mem_map.mp member
    exact ⟨seg.1, seg.2.1, seg.2.2, listed, inside⟩
  · intro held
    obtain ⟨s, e, path, listed, inside⟩ := held
    exact ⟨(s, e), List.mem_map.mpr ⟨(s, e, path), listed, rfl⟩, inside⟩

/-! The plan. -/

theorem planFrom_reach (stop cursor : Nat) (segs : List (Nat × Nat × Text))
    (sorted : (bounds segs).Pairwise fun a b => a.1 ≤ b.1) (range : cursor ≤ stop) :
    (planFrom stop cursor segs).frontier = min stop (reach cursor (bounds segs)) := by
  induction segs generalizing cursor with
  | nil => exact (Nat.min_eq_right range).symm
  | cons seg rest ih =>
    obtain ⟨s, e, path⟩ := seg
    change ((s, e) :: bounds rest).Pairwise _ at sorted
    obtain ⟨first, later⟩ := List.pairwise_cons.mp sorted
    change _ = min stop (reach cursor ((s, e) :: bounds rest))
    have grows := le_reach cursor ((s, e) :: bounds rest)
    rw [planFrom]
    by_cases full : stop ≤ cursor
    · rw [if_pos full]
      simp only
      omega
    · rw [if_neg full]
      by_cases before : e ≤ cursor
      · rw [if_pos before, ih cursor later range, reach, if_neg fun moves => by simp only at moves; omega]
      · rw [if_neg before]
        by_cases gap : cursor < s
        · have still : reach cursor ((s, e) :: bounds rest) = cursor := by
            apply reach_gap
            intro span member
            rcases List.mem_cons.mp member with rfl | member
            · exact gap
            · exact Nat.lt_of_lt_of_le gap (first span member)
          rw [if_pos gap, still]
          exact (Nat.min_eq_right range).symm
        · rw [if_neg gap, reach, if_pos (show s ≤ cursor ∧ cursor < e by omega)]
          simp only
          rw [ih (min e stop) later (Nat.min_le_right _ _)]
          -- A span that ends past the range ends the plan, wherever the pass would go on to.
          by_cases inside : e ≤ stop
          · rw [Nat.min_eq_left inside]
          · have cut : min e stop = stop := by omega
            have here := le_reach stop (bounds rest)
            have there := le_reach e (bounds rest)
            rw [cut]
            omega

/-- The pieces lie end to end from one position to another, each inside the interval its
file is named for. -/
def EndToEnd (segs : List (Nat × Nat × Text)) : Nat → List Piece → Nat → Prop
  | low, [], high => low = high
  | low, piece :: rest, high =>
      (∃ s e, (s, e, piece.path) ∈ segs ∧ s ≤ low ∧ piece.offset = low - s ∧
        0 < piece.len ∧ low + piece.len ≤ e) ∧ EndToEnd segs (low + piece.len) rest high

theorem EndToEnd.more (seg : Nat × Nat × Text) (segs : List (Nat × Nat × Text)) (low high : Nat)
    (pieces : List Piece) (laid : EndToEnd segs low pieces high) : EndToEnd (seg :: segs) low pieces high := by
  induction pieces generalizing low with
  | nil => exact laid
  | cons piece rest ih =>
    obtain ⟨⟨s, e, member, inside⟩, later⟩ := laid
    exact ⟨⟨s, e, List.mem_cons_of_mem _ member, inside⟩, ih _ later⟩

theorem EndToEnd.length (segs : List (Nat × Nat × Text)) (low high : Nat) (pieces : List Piece)
    (laid : EndToEnd segs low pieces high) : low + plannedLen pieces = high := by
  induction pieces generalizing low with
  | nil => exact laid
  | cons piece rest ih =>
    have later := ih _ laid.2
    simp only [plannedLen, List.map_cons, List.sum_cons] at later ⊢
    omega

theorem planFrom_endToEnd (stop cursor : Nat) (segs : List (Nat × Nat × Text)) :
    EndToEnd segs cursor (planFrom stop cursor segs).pieces (planFrom stop cursor segs).frontier := by
  induction segs generalizing cursor with
  | nil => exact rfl
  | cons seg rest ih =>
    obtain ⟨s, e, path⟩ := seg
    rw [planFrom]
    split_ifs with full before gap
    · exact rfl
    · exact (ih cursor).more (s, e, path) rest
    · exact rfl
    · constructor
      · exact ⟨s, e, List.mem_cons_self, by omega, rfl, by simp only; omega, by simp only; omega⟩
      · have next : cursor + (min e stop - cursor) = min e stop := by omega
        simp only [next]
        exact (ih (min e stop)).more (s, e, path) rest

/-! The ledger's check. -/

theorem coversFrom_iff (stop reached : Nat) (segs : List (Nat × Nat × Text)) (range : reached < stop) :
    coversFrom stop reached segs = true ↔ stop ≤ reach reached (bounds segs) := by
  induction segs generalizing reached with
  | nil =>
    change false = true ↔ stop ≤ reached
    simp only [Bool.false_eq_true, false_iff]
    omega
  | cons seg rest ih =>
    obtain ⟨s, e, path⟩ := seg
    change _ ↔ stop ≤ reach reached ((s, e) :: bounds rest)
    rw [coversFrom, reach]
    split_ifs with moves full
    · have grows := le_reach e (bounds rest)
      simp only [true_iff]
      omega
    · exact ih e (by omega)
    · exact ih reached range

/-- The plan of a range lies end to end up to the largest position the files cover it
to, and the ledger's check over the same files says whether that is all of it. -/
theorem planStaged_frontier (segs : List (Nat × Nat × Text)) (sorted : segs.Pairwise pathOrder)
    (start stop : Nat) (range : start < stop) :
    EndToEnd segs start (planStaged segs start stop).pieces (planStaged segs start stop).frontier ∧
      plannedLen (planStaged segs start stop).pieces = (planStaged segs start stop).frontier - start ∧
      start ≤ (planStaged segs start stop).frontier ∧
      IsGreatest {f | f ≤ stop ∧ ∀ x, start ≤ x → x < f → ∃ s e path, (s, e, path) ∈ segs ∧ s ≤ x ∧ x < e}
        (planStaged segs start stop).frontier ∧
      ∀ dir key, segmentsForKey dir key = segs →
        (diskCovers dir key start stop = true ↔ (planStaged segs start stop).frontier = stop) := by
  have laid := planFrom_endToEnd stop start segs
  have length := laid.length
  have frontier := planFrom_reach stop start segs (bounds_sorted segs sorted) (Nat.le_of_lt range)
  have greatest := isGreatest_reach start stop (bounds segs) (bounds_sorted segs sorted)
  unfold planStaged
  refine ⟨laid, by omega, by omega, ?_, ?_⟩
  · simp only [HeldUpto, held_bounds] at greatest
    rw [frontier]
    exact greatest
  · intro dir key same
    rw [diskCovers, same, coversFrom_iff stop start segs range, frontier]
    exact min_eq_left_iff.symm

/-- Nested, overlapping and apart. -/
def scattered : List (Nat × Nat × Text) := [(0, 9, ['a']), (2, 4, ['b']), (5, 12, ['c']), (20, 30, ['d'])]

theorem scattered_frontier : (planStaged scattered 3 25).pieces = [⟨['a'], 3, 6⟩, ⟨['c'], 4, 3⟩] ∧
    IsGreatest {f | f ≤ 25 ∧ ∀ x, 3 ≤ x → x < f → ∃ s e path, (s, e, path) ∈ scattered ∧ s ≤ x ∧ x < e} 12 :=
  ⟨by decide, (planStaged_frontier scattered (by decide) 3 25 (by decide)).2.2.2.1⟩

end OriginCache.Cache.StagedPrefix
