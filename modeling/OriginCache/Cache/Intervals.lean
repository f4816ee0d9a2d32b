import OriginCache.Cache.Coverage

/-! A row's intervals as a set of bytes. The merging insert, compaction and decay
keep them apart and in order, and add no byte that was not asked for. -/

namespace OriginCache.Cache.Intervals
open Coverage

def Within (i : Interval) (position : Nat) : Prop := i.start ≤ position ∧ position < i.stop

def Covers (intervals : List Interval) (position : Nat) : Prop := ∃ i ∈ intervals, Within i position

/-- Non-empty, sorted by start and pairwise disjoint. -/
structure Tidy (intervals : List Interval) : Prop where
  proper : Proper intervals
  ordered : intervals.Pairwise fun a b => a.stop ≤ b.start

theorem tidy_nil : Tidy [] := ⟨fun _ member => (List.not_mem_nil member).elim, List.Pairwise.nil⟩

theorem tidy_cons (first : Interval) (rest : List Interval) :
    Tidy (first :: rest) ↔
      first.start < first.stop ∧ (∀ i ∈ rest, first.stop ≤ i.start) ∧ Tidy rest := by
  constructor
  · intro tidy
    have ordered := List.pairwise_cons.mp tidy.ordered
    exact ⟨tidy.proper first List.mem_cons_self, ordered.1,
      fun i member => tidy.proper i (List.mem_cons_of_mem _ member), ordered.2⟩
  · intro parts
    have proper : Proper (first :: rest) := by
      intro i member
      cases List.mem_cons.mp member with
      | inl same => rw [same]; exact parts.1
      | inr later => exact parts.2.2.proper i later
    exact ⟨proper, List.pairwise_cons.mpr ⟨parts.2.1, parts.2.2.ordered⟩⟩

theorem tidy_append (front back : List Interval) :
    Tidy (front ++ back) ↔ Tidy front ∧ Tidy back ∧ ∀ a ∈ front, ∀ b ∈ back, a.stop ≤ b.start := by
  constructor
  · intro tidy
    have ordered := List.pairwise_append.mp tidy.ordered
    exact ⟨⟨fun i member => tidy.proper i (List.mem_append_left _ member), ordered.1⟩,
      ⟨fun i member => tidy.proper i (List.mem_append_right _ member), ordered.2.1⟩, ordered.2.2⟩
  · intro parts
    have proper : Proper (front ++ back) := by
      intro i member
      cases List.mem_append.mp member with
      | inl early => exact parts.1.proper i early
      | inr late => exact parts.2.1.proper i late
    exact ⟨proper, List.pairwise_append.mpr ⟨parts.1.ordered, parts.2.1.ordered, parts.2.2⟩⟩

theorem Tidy.sublist {intervals kept : List Interval} (tidy : Tidy intervals)
    (sub : kept.Sublist intervals) : Tidy kept :=
  ⟨fun i member => tidy.proper i (sub.subset member), tidy.ordered.sublist sub⟩

theorem Covers.of_subset {intervals kept : List Interval} {position : Nat} (subset : kept ⊆ intervals)
    (covers : Covers kept position) : Covers intervals position := by
  obtain ⟨i, member, within⟩ := covers
  exact ⟨i, subset member, within⟩

theorem covers_cons (first : Interval) (rest : List Interval) (position : Nat) :
    Covers (first :: rest) position ↔ Within first position ∨ Covers rest position := by
  simp only [Covers, List.mem_cons, exists_eq_or_imp]

theorem covers_append (front back : List Interval) (position : Nat) :
    Covers (front ++ back) position ↔ Covers front position ∨ Covers back position := by
  simp only [Covers, List.mem_append, or_and_right, exists_or]

/-! Compaction. -/

def Bounded (low : Nat) (intervals : List Interval) : Prop := ∀ i ∈ intervals, low ≤ i.start

theorem mergeTouchingOnce_short (short : List Interval)
    (few : ∀ a b rest, short = a :: b :: rest → False) : mergeTouchingOnce short = short := by
  cases short with
  | nil => rfl
  | cons a rest =>
    cases rest with
    | nil => rfl
    | cons b rest => exact (few a b rest rfl).elim

theorem bounded_mergeTouchingOnce (low : Nat) (intervals : List Interval)
    (bounded : Bounded low intervals) : Bounded low (mergeTouchingOnce intervals) := by
  induction intervals using mergeTouchingOnce.induct with
  | case1 a b rest touch ih =>
    simp only [mergeTouchingOnce, touch, if_true]
    intro i member
    cases List.mem_cons.mp member with
    | inl same => rw [same]; exact bounded a (by simp)
    | inr later => exact ih (fun j inside => bounded j (by simp [inside])) i later
  | case2 a b rest apart ih =>
    simp only [mergeTouchingOnce, apart, if_false]
    intro i member
    cases List.mem_cons.mp member with
    | inl same => rw [same]; exact bounded a (by simp)
    | inr later => exact ih (fun j inside => bounded j (List.mem_cons_of_mem _ inside)) i later
  | case3 short few =>
    rw [mergeTouchingOnce_short short few]
    exact bounded

theorem tidy_mergeTouchingOnce (intervals : List Interval) (tidy : Tidy intervals) :
    Tidy (mergeTouchingOnce intervals) := by
  induction intervals using mergeTouchingOnce.induct with
  | case1 a b rest touch ih =>
    have head := (tidy_cons a (b :: rest)).mp tidy
    have next := (tidy_cons b rest).mp head.2.2
    simp only [mergeTouchingOnce, touch, if_true]
    apply (tidy_cons _ _).mpr
    have wide : a.start < b.stop := by omega
    exact ⟨wide, bounded_mergeTouchingOnce b.stop rest next.2.1, ih next.2.2⟩
  | case2 a b rest apart ih =>
    have head := (tidy_cons a (b :: rest)).mp tidy
    simp only [mergeTouchingOnce, apart, if_false]
    apply (tidy_cons _ _).mpr
    exact ⟨head.1, bounded_mergeTouchingOnce a.stop (b :: rest) head.2.1, ih head.2.2⟩
  | case3 short few =>
    rw [mergeTouchingOnce_short short few]
    exact tidy

theorem covers_mergeTouchingOnce (intervals : List Interval) (position : Nat) :
    Covers (mergeTouchingOnce intervals) position → Covers intervals position := by
  induction intervals using mergeTouchingOnce.induct with
  | case1 a b rest touch ih =>
    simp only [mergeTouchingOnce, touch, if_true, covers_cons, Within]
    intro covers
    cases covers with
    | inl merged => omega
    | inr later => exact Or.inr (Or.inr (ih later))
  | case2 a b rest apart ih =>
    simp only [mergeTouchingOnce, apart, if_false]
    rw [covers_cons, covers_cons]
    exact Or.imp_right ih
  | case3 short few =>
    rw [mergeTouchingOnce_short short few]
    exact id

/-- Apart in either order, which no sorting changes. -/
def Apart (a b : Interval) : Prop := a.stop ≤ b.start ∨ b.stop ≤ a.start

theorem apart_symm {a b : Interval} (apart : Apart a b) : Apart b a := apart.symm

theorem tidy_of_sorted (intervals : List Interval) (proper : Proper intervals)
    (sorted : intervals.Pairwise fun a b => a.start ≤ b.start) (apart : intervals.Pairwise Apart) :
    Tidy intervals := by
  have both := sorted.and apart
  apply Tidy.mk proper
  apply both.imp_of_mem
  intro a b _ second order
  have wide := proper b second
  cases order.2 with
  | inl before => exact before
  | inr behind => have start := order.1; omega

theorem tidy_dropColdest (n : Nat) (intervals : List Interval) (tidy : Tidy intervals) :
    Tidy (dropColdest n intervals) := by
  unfold dropColdest
  have aged := List.perm_insertionSort (fun a b : Interval => a.readAt ≤ b.readAt) intervals
  have apart : intervals.Pairwise Apart := tidy.ordered.imp fun before => Or.inl before
  have agedApart := (aged.pairwise_iff apart_symm).mpr apart
  generalize intervals.insertionSort (fun a b => a.readAt ≤ b.readAt) = coldest at aged agedApart ⊢
  have restApart := agedApart.sublist (List.drop_sublist n coldest)
  have placed := List.perm_insertionSort (fun a b : Interval => a.start ≤ b.start) (coldest.drop n)
  apply tidy_of_sorted
  · intro i member
    have kept := List.mem_of_mem_drop (placed.mem_iff.mp member)
    exact tidy.proper i (aged.mem_iff.mp kept)
  · exact List.pairwise_insertionSort (fun a b : Interval => a.start ≤ b.start) _
  · exact (placed.pairwise_iff apart_symm).mpr restApart

theorem compact_spec (intervals : List Interval) (tidy : Tidy intervals) :
    Tidy (compact intervals) ∧ ∀ position, Covers (compact intervals) position → Covers intervals position := by
  have rounds : ∀ n list, Tidy list → Tidy (compactWithin n list) ∧
      ∀ position, Covers (compactWithin n list) position → Covers list position := by
    intro n
    induction n with
    | zero => exact fun list good => ⟨good, fun _ covers => covers⟩
    | succ n ih =>
      intro list good
      rw [compactWithin]
      split_ifs with fits touch
      · exact ⟨good, fun _ covers => covers⟩
      · have merged := ih _ (tidy_mergeTouchingOnce list good)
        exact ⟨merged.1, fun p covers => covers_mergeTouchingOnce list p (merged.2 p covers)⟩
      · have cut := ih _ (tidy_dropColdest (list.length - maxIntervalsPerKey) list good)
        exact ⟨cut.1, fun p covers => (cut.2 p covers).of_subset (dropColdest_subset _ list)⟩
  exact rounds _ _ tidy

/-! The merging insert. -/

theorem absorb_tidy (current : Interval) (after : List Interval) (proper : current.start < current.stop)
    (tidy : Tidy after) (follows : Bounded current.start after) :
    Tidy (absorb current after) ∧ Bounded current.start (absorb current after) := by
  induction after generalizing current with
  | nil =>
    have alone : Tidy [current] :=
      (tidy_cons current []).mpr ⟨proper, fun _ member => (List.not_mem_nil member).elim, tidy_nil⟩
    refine ⟨alone, fun i member => ?_⟩
    rw [List.mem_singleton.mp member]
  | cons next after ih =>
    have parts := (tidy_cons next after).mp tidy
    have start := follows next List.mem_cons_self
    rw [absorb]
    by_cases reaches : next.start < current.stop
    · rw [if_pos reaches]
      have wide : current.start < max current.stop next.stop := by omega
      apply ih _ wide parts.2.2
      intro i member
      exact follows i (List.mem_cons_of_mem _ member)
    · rw [if_neg reaches]
      have beyond : ∀ i ∈ next :: after, current.stop ≤ i.start := by
        intro i member
        cases List.mem_cons.mp member with
        | inl same => rw [same]; omega
        | inr later => have apart := parts.2.1 i later; omega
      refine ⟨(tidy_cons _ _).mpr ⟨proper, beyond, tidy⟩, fun i member => ?_⟩
      cases List.mem_cons.mp member with
      | inl same => rw [same]
      | inr later => exact follows i later

theorem covers_absorb (current : Interval) (after : List Interval) (position : Nat)
    (follows : Bounded current.start after) (covers : Covers (absorb current after) position) :
    Within current position ∨ Covers after position := by
  induction after generalizing current with
  | nil =>
    rw [absorb, covers_cons] at covers
    exact covers
  | cons next after ih =>
    have start := follows next List.mem_cons_self
    rw [absorb] at covers
    by_cases reaches : next.start < current.stop
    · rw [if_pos reaches] at covers
      have rest : Bounded current.start after := fun i member => follows i (List.mem_cons_of_mem _ member)
      have later := ih ⟨current.start, max current.stop next.stop, max current.readAt next.readAt,
        addReads current.reads next.reads⟩ rest covers
      rw [covers_cons]
      cases later with
      | inl grown =>
        simp only [Within] at grown ⊢
        omega
      | inr rest => exact Or.inr (Or.inr rest)
    · rw [if_neg reaches, covers_cons] at covers
      exact covers

/-- The pieces of a merging insert, joined and cut to the ceiling. -/
theorem joined_spec (front after : List Interval) (current : Interval)
    (proper : current.start < current.stop) (tidyFront : Tidy front) (tidyAfter : Tidy after)
    (before : ∀ i ∈ front, i.stop ≤ current.start) (follows : Bounded current.start after) :
    Tidy (compact (front ++ absorb current after)) ∧ ∀ position,
      Covers (compact (front ++ absorb current after)) position →
        Within current position ∨ Covers front position ∨ Covers after position := by
  have grown := absorb_tidy current after proper tidyAfter follows
  have joined : Tidy (front ++ absorb current after) := by
    apply (tidy_append _ _).mpr
    refine ⟨tidyFront, grown.1, fun a early b late => ?_⟩
    have left := before a early
    have right := grown.2 b late
    omega
  have compacted := compact_spec _ joined
  refine ⟨compacted.1, fun position covers => ?_⟩
  cases (covers_append _ _ _).mp (compacted.2 position covers) with
  | inl early => exact Or.inr (Or.inl early)
  | inr late =>
    cases covers_absorb current after position follows late with
    | inl within => exact Or.inl within
    | inr rest => exact Or.inr (Or.inr rest)

theorem takeWhile_start (start : Nat) (intervals : List Interval) :
    ∀ i ∈ intervals.takeWhile (fun i => i.start < start), i.start < start := by
  intro i member
  have passes := List.mem_takeWhile_imp member
  simpa using passes

/-- In a sorted list everything after the split starts at or after it. -/
theorem dropWhile_start (start : Nat) (intervals : List Interval) (tidy : Tidy intervals) :
    Bounded start (intervals.dropWhile fun i => i.start < start) := by
  induction intervals with
  | nil => exact fun i member => (List.not_mem_nil member).elim
  | cons first rest ih =>
    have parts := (tidy_cons first rest).mp tidy
    by_cases early : first.start < start
    · rw [List.dropWhile_cons_of_pos (by simpa using early)]
      exact ih parts.2.2
    · rw [List.dropWhile_cons_of_neg (by simpa using early)]
      intro i member
      cases List.mem_cons.mp member with
      | inl same => rw [same]; omega
      | inr later => have apart := parts.2.1 i later; have wide := parts.1; omega

/-- Adding a span keeps the intervals apart and adds only the bytes of the span. -/
theorem addInterval_tidy (intervals : List Interval) (start stop now : Nat) (tidy : Tidy intervals) :
    Tidy (addInterval intervals start stop now) ∧ ∀ position,
      Covers (addInterval intervals start stop now) position →
        (start ≤ position ∧ position < stop) ∨ Covers intervals position := by
  unfold addInterval splitAtStart
  by_cases span : stop ≤ start
  · rw [if_pos span]
    exact ⟨tidy, fun _ covers => Or.inr covers⟩
  rw [if_neg span]
  have whole : intervals.takeWhile (fun i => i.start < start) ++
      intervals.dropWhile (fun i => i.start < start) = intervals := List.takeWhile_append_dropWhile
  have early := takeWhile_start start intervals
  have late := dropWhile_start start intervals tidy
  generalize intervals.takeWhile (fun i => i.start < start) = before at whole early ⊢
  generalize intervals.dropWhile (fun i => i.start < start) = after at whole late ⊢
  rw [← whole] at tidy
  have parts := (tidy_append before after).mp tidy
  have back : ∀ front : List Interval, front ⊆ before → ∀ position,
      Covers front position ∨ Covers after position → Covers intervals position := by
    intro front sub position either
    rw [← whole, covers_append]
    exact either.imp_left fun covers => covers.of_subset sub
  have fresh : (∀ i ∈ before, i.stop ≤ start) → Tidy (compact (before ++ absorb ⟨start, stop, now, 0⟩ after)) ∧
      ∀ position, Covers (compact (before ++ absorb ⟨start, stop, now, 0⟩ after)) position →
        (start ≤ position ∧ position < stop) ∨ Covers intervals position := by
    intro ends
    have joined := joined_spec before after ⟨start, stop, now, 0⟩ (by simp only; omega) parts.1 parts.2.1
      ends late
    exact ⟨joined.1, fun position covers => (joined.2 position covers).imp_right
      (back before (List.Subset.refl _) position)⟩
  cases final : before.getLast? with
  | none =>
    rw [List.getLast?_eq_none_iff] at final
    subst final
    exact fresh fun i member => (List.not_mem_nil member).elim
  | some last =>
    have split := List.dropLast_append_getLast? last final
    have tidyBefore := parts.1
    rw [← split] at tidyBefore
    have ends := ((tidy_append _ _).mp tidyBefore).2.2
    have lastMember : last ∈ before := by rw [← split]; simp
    have lastEarly := early last lastMember
    simp only [final]
    by_cases reaches : start < last.stop
    · rw [if_pos reaches]
      have joined := joined_spec before.dropLast after
        ⟨min last.start start, max last.stop stop, max last.readAt now, last.reads⟩
        (by simp only; omega) (parts.1.sublist (List.dropLast_sublist before)) parts.2.1
        (fun i member => by have left := ends i member last (by simp); simp only; omega)
        (fun i member => by have right := late i member; simp only; omega)
      refine ⟨joined.1, fun position covers => ?_⟩
      cases joined.2 position covers with
      | inl within =>
        simp only [Within] at within
        by_cases old : position < last.stop
        · apply Or.inr
          apply back before (List.Subset.refl _) position
          exact Or.inl ⟨last, lastMember, by simp only [Within]; omega⟩
        · exact Or.inl (by omega)
      | inr rest => exact Or.inr (back before.dropLast (List.dropLast_subset before) position rest)
    · rw [if_neg reaches]
      apply fresh
      intro i member
      rw [← split] at member
      cases List.mem_append.mp member with
      | inl inside => have left := ends i inside last (by simp); omega
      | inr same => rw [List.mem_singleton.mp same]; omega

/-! The other ways a row changes. -/

theorem tidy_decay (intervals : List Interval) (now window : Nat) (tidy : Tidy intervals) :
    Tidy (decay intervals now window) := by
  unfold decay
  split_ifs
  · exact tidy
  · exact tidy.sublist List.filter_sublist

theorem length_decay (intervals : List Interval) (now window : Nat) :
    (decay intervals now window).length ≤ intervals.length := by
  unfold decay
  split_ifs
  · exact Nat.le_refl _
  · exact List.length_filter_le _ _

theorem length_addInterval (intervals : List Interval) (start stop now : Nat)
    (short : intervals.length ≤ maxIntervalsPerKey) :
    (addInterval intervals start stop now).length ≤ maxIntervalsPerKey := by
  unfold addInterval
  split_ifs
  · exact short
  · simp only
    split
    · split_ifs <;> exact length_compact _
    · exact length_compact _

/-- A rebuilt row is in order when the files' own spans are. -/
theorem adoptFiles_tidy (prior : List Interval) (files : List (Nat × Nat)) (now : Nat)
    (proper : ∀ file ∈ files, file.1 < file.2) (apart : files.Pairwise fun a b => a.2 ≤ b.1) :
    Tidy (adoptFiles prior files now) ∧ ∀ position, Covers (adoptFiles prior files now) position →
      ∃ file ∈ files, file.1 ≤ position ∧ position < file.2 := by
  have tidy : Tidy (files.map (adoptFile prior now)) := by
    apply Tidy.mk
    · intro i member
      obtain ⟨file, given, same⟩ := List.mem_map.mp member
      have bounds := adoptFile_bounds prior now file
      have wide := proper file given
      rw [← same]
      omega
    · apply List.pairwise_map.mpr
      apply apart.imp
      intro a b before
      rw [(adoptFile_bounds prior now a).2, (adoptFile_bounds prior now b).1]
      exact before
  have compacted := compact_spec _ tidy
  refine ⟨compacted.1, fun position covers => ?_⟩
  obtain ⟨i, member, within⟩ := compacted.2 position covers
  obtain ⟨file, given, same⟩ := List.mem_map.mp member
  have bounds := adoptFile_bounds prior now file
  rw [← same] at within
  simp only [Within] at within
  exact ⟨file, given, by omega, by omega⟩

end OriginCache.Cache.Intervals
