import OriginCache.Cache.Store

/-! Planning a range against the staged files, and what an eviction or a reset of
a key deletes. A plan's pieces are laid end to end from the start of the range to
its frontier. -/

namespace OriginCache.Cache.Staging
open SegName Store

structure Piece where
  path : Text
  offset : Nat
  len : Nat
deriving DecidableEq, Repr

structure StagedPlan where
  pieces : List Piece
  frontier : Nat
deriving DecidableEq, Repr

/-- The walk over the sorted segments from a cursor. -/
@[grind =] def planFrom (stop cursor : Nat) : List (Nat × Nat × Text) → StagedPlan
  | [] => ⟨[], cursor⟩
  | (s, e, path) :: rest =>
      if stop ≤ cursor then ⟨[], cursor⟩
      else if e ≤ cursor then planFrom stop cursor rest
      else if cursor < s then ⟨[], cursor⟩
      else
        let later := planFrom stop (min e stop) rest
        ⟨⟨path, cursor - s, min e stop - cursor⟩ :: later.pieces, later.frontier⟩

def planStaged (segs : List (Nat × Nat × Text)) (start stop : Nat) : StagedPlan :=
  planFrom stop start segs

/-- The files an eviction deletes: the picked spans by their own names. -/
def dropFiles (dir : Dir) (key : Text) (picks : List (Nat × Nat)) : Dir × Nat :=
  removeMeasured dir (picks.map fun pick => segPath key pick.1 pick.2)

/-- The files a version reset deletes. -/
def resetFiles (dir : Dir) (key : Text) : Dir × Nat :=
  let removed := removeMeasured dir (keySegmentFiles dir key)
  (removed.1.erase (segmetaPath key), removed.2)

def plannedLen (pieces : List Piece) : Nat := (pieces.map Piece.len).sum

theorem planFrom_frontier (stop cursor : Nat) (segs : List (Nat × Nat × Text))
    (range : cursor ≤ stop) :
    cursor ≤ (planFrom stop cursor segs).frontier ∧ (planFrom stop cursor segs).frontier ≤ stop := by
  induction segs generalizing cursor with
  | nil => exact ⟨Nat.le_refl _, range⟩
  | cons seg rest ih =>
    obtain ⟨s, e, path⟩ := seg
    rw [planFrom]
    split_ifs with full before gap
    · exact ⟨Nat.le_refl _, range⟩
    · exact ih cursor range
    · exact ⟨Nat.le_refl _, range⟩
    · have bounds := ih (min e stop) (Nat.min_le_right _ _)
      exact ⟨by simp only; omega, bounds.2⟩

/-- The pieces' lengths add up to the part of the range before the frontier. -/
theorem plannedLen_planStaged (segs : List (Nat × Nat × Text)) (start stop : Nat)
    (range : start ≤ stop) :
    start + plannedLen (planStaged segs start stop).pieces = (planStaged segs start stop).frontier := by
  unfold planStaged
  induction segs generalizing start with
  | nil => rfl
  | cons seg rest ih =>
    obtain ⟨s, e, path⟩ := seg
    rw [planFrom]
    split_ifs with full before gap
    · rfl
    · exact ih start range
    · rfl
    · have later := ih (min e stop) (Nat.min_le_right _ _)
      simp only [plannedLen, List.map_cons, List.sum_cons] at later ⊢
      omega

/-- Every piece lies inside the segment it was cut from. -/
theorem planFrom_inside (stop cursor : Nat) (segs : List (Nat × Nat × Text)) (piece : Piece)
    (planned : piece ∈ (planFrom stop cursor segs).pieces) :
    ∃ s e, (s, e, piece.path) ∈ segs ∧ 0 < piece.len ∧ s + piece.offset + piece.len ≤ min e stop := by
  induction segs generalizing cursor with
  | nil => cases planned
  | cons seg rest ih =>
    obtain ⟨s, e, path⟩ := seg
    rw [planFrom] at planned
    split_ifs at planned with full before gap
    · cases planned
    · obtain ⟨s', e', member, good⟩ := ih cursor planned
      exact ⟨s', e', List.mem_cons_of_mem _ member, good⟩
    · cases planned
    · rcases List.mem_cons.mp planned with rfl | later
      · exact ⟨s, e, List.mem_cons_self, by simp only; omega, by simp only; omega⟩
      · obtain ⟨s', e', member, good⟩ := ih _ later
        exact ⟨s', e', List.mem_cons_of_mem _ member, good⟩

/-- Every piece comes from a segment that meets the range. -/
theorem planFrom_meets (stop cursor : Nat) (segs : List (Nat × Nat × Text)) (piece : Piece)
    (planned : piece ∈ (planFrom stop cursor segs).pieces) :
    ∃ s e, (s, e, piece.path) ∈ segs ∧ s < stop ∧ cursor < e := by
  induction segs generalizing cursor with
  | nil => cases planned
  | cons seg rest ih =>
    obtain ⟨s, e, path⟩ := seg
    rw [planFrom] at planned
    split_ifs at planned with full before gap
    · cases planned
    · obtain ⟨s', e', member, good⟩ := ih cursor planned
      exact ⟨s', e', List.mem_cons_of_mem _ member, good⟩
    · cases planned
    · cases List.mem_cons.mp planned with
      | inl here =>
        subst here
        exact ⟨s, e, List.mem_cons_self, by omega, by omega⟩
      | inr later =>
        obtain ⟨s', e', member, starts, stops⟩ := ih _ later
        exact ⟨s', e', List.mem_cons_of_mem _ member, starts, by omega⟩

theorem lookup_resetFiles (dir : Dir) (key name : Text) (segment : name ≠ segmetaPath key) :
    (resetFiles dir key).1.lookup name =
      if name ∈ keySegmentFiles dir key then none else dir.lookup name := by
  rw [resetFiles, AList.lookup_erase_ne segment, lookup_removeMeasured]

theorem lookup_dropFiles (dir : Dir) (key name : Text) (picks : List (Nat × Nat)) :
    (dropFiles dir key picks).1.lookup name =
      if ∃ pick ∈ picks, segPath key pick.1 pick.2 = name then none else dir.lookup name := by
  rw [dropFiles, lookup_removeMeasured]
  simp only [List.mem_map]

end OriginCache.Cache.Staging
