import Mathlib.Algebra.Ring.Nat
import Mathlib.Data.List.Sort
import Mathlib.Data.List.TakeWhile
import Mathlib.Tactic.Common

/-! The intervals one ledger row remembers: sorted by start, each with the time it
was last read and its read count. Every operation keeps or widens what it keeps,
so a property that widening preserves holds of every interval that remains. -/

namespace OriginCache.Cache.Coverage

structure Interval where
  start : Nat
  stop : Nat
  readAt : Nat
  reads : Nat
deriving DecidableEq, Repr

def maxIntervalsPerKey : Nat := 4096

/-- Read counts are `u64`, added without overflow checks. -/
def addReads (a b : Nat) : Nat := (a + b) % 2 ^ 64

/-- One halving pass over touching neighbours. -/
@[grind =] def mergeTouchingOnce : List Interval → List Interval
  | a :: b :: rest =>
      if b.start = a.stop then
        ⟨a.start, b.stop, max a.readAt b.readAt, addReads a.reads b.reads⟩ :: mergeTouchingOnce rest
      else a :: mergeTouchingOnce (b :: rest)
  | short => short

def touches : List Interval → Bool
  | a :: b :: rest => b.start = a.stop || touches (b :: rest)
  | _ => false

def dropColdest (n : Nat) (intervals : List Interval) : List Interval :=
  (((intervals.insertionSort fun a b => a.readAt ≤ b.readAt).drop n).insertionSort
    fun a b => a.start ≤ b.start)

/-- Each round of the loop merges or, where nothing touches, cuts to the ceiling. -/
@[grind =] def compactWithin : Nat → List Interval → List Interval
  | 0, intervals => intervals
  | rounds + 1, intervals =>
      if intervals.length ≤ maxIntervalsPerKey then intervals
      else if touches intervals then compactWithin rounds (mergeTouchingOnce intervals)
      else compactWithin rounds (dropColdest (intervals.length - maxIntervalsPerKey) intervals)

/-- A round shortens the list, so as many rounds as intervals are enough. -/
def compact (intervals : List Interval) : List Interval :=
  compactWithin intervals.length intervals

/-- The interval that `start` reaches into from the left, if there is one. -/
def splitAtStart (start : Nat) (intervals : List Interval) : List Interval × List Interval :=
  (intervals.takeWhile fun i => i.start < start, intervals.dropWhile fun i => i.start < start)

/-- Swallow the following intervals that begin before the end reached so far. -/
@[grind =] def absorb (current : Interval) : List Interval → List Interval
  | [] => [current]
  | next :: rest =>
      if next.start < current.stop then
        absorb ⟨current.start, max current.stop next.stop, max current.readAt next.readAt,
          addReads current.reads next.reads⟩ rest
      else current :: next :: rest

def addInterval (intervals : List Interval) (start stop now : Nat) : List Interval :=
  if stop ≤ start then intervals
  else
    let (before, after) := splitAtStart start intervals
    match before.getLast? with
    | some last =>
        if start < last.stop then
          compact (before.dropLast ++
            absorb ⟨min last.start start, max last.stop stop, max last.readAt now, last.reads⟩ after)
        else compact (before ++ absorb ⟨start, stop, now, 0⟩ after)
    | none => compact (before ++ absorb ⟨start, stop, now, 0⟩ after)

/-- A surviving file's interval, with the record that covered it. -/
def adoptFile (prior : List Interval) (now : Nat) (file : Nat × Nat) : Interval :=
  match prior.find? fun p => p.start ≤ file.1 ∧ file.2 ≤ p.stop with
  | some p => ⟨file.1, file.2, p.readAt, p.reads⟩
  | none => ⟨file.1, file.2, now, 0⟩

def adoptFiles (prior : List Interval) (files : List (Nat × Nat)) (now : Nat) : List Interval :=
  compact (files.map (adoptFile prior now))

/-- A window of zero keeps everything. -/
def decay (intervals : List Interval) (now window : Nat) : List Interval :=
  if window = 0 then intervals else intervals.filter fun i => now - window ≤ i.readAt

def covered (intervals : List Interval) : Nat :=
  (intervals.map fun i => i.stop - i.start).sum

/-! Compaction. -/

theorem length_mergeTouchingOnce (intervals : List Interval) (some : touches intervals = true) :
    (mergeTouchingOnce intervals).length < intervals.length := by
  have shrinks : ∀ list, (mergeTouchingOnce list).length ≤ list.length ∧
      (touches list = true → (mergeTouchingOnce list).length < list.length) := by
    intro list
    induction list using mergeTouchingOnce.induct with
    | case1 a b rest touch ih =>
      simp only [mergeTouchingOnce, touch, if_true, List.length_cons]
      omega
    | case2 a b rest apart ih =>
      simp only [mergeTouchingOnce, apart, if_false, touches, decide_false, Bool.false_or,
        List.length_cons] at ih ⊢
      exact ⟨by omega, fun later => by have := ih.2 later; omega⟩
    | case3 short few =>
      rcases short with _ | ⟨a, _ | ⟨b, rest⟩⟩
      · exact ⟨Nat.le_refl _, fun no => absurd no (by decide)⟩
      · exact ⟨Nat.le_refl _, fun no => absurd no (by simp [touches])⟩
      · exact (few a b rest rfl).elim
  exact (shrinks intervals).2 some

theorem length_dropColdest (n : Nat) (intervals : List Interval) :
    (dropColdest n intervals).length = intervals.length - n := by
  simp [dropColdest, List.length_insertionSort]

/-- The ceiling holds after every compaction. -/
theorem length_compact (intervals : List Interval) :
    (compact intervals).length ≤ maxIntervalsPerKey := by
  have rounds : ∀ n list, list.length ≤ n + maxIntervalsPerKey →
      (compactWithin n list).length ≤ maxIntervalsPerKey := by
    intro n
    induction n with
    | zero => intro list short; simpa [compactWithin] using short
    | succ n ih =>
      intro list short
      rw [compactWithin]
      split_ifs with fits touch
      · exact fits
      · have shorter := length_mergeTouchingOnce list touch
        exact ih _ (by omega)
      · have cut := length_dropColdest (list.length - maxIntervalsPerKey) list
        exact ih _ (by omega)
  exact rounds _ _ (Nat.le_add_right _ _)

def Proper (intervals : List Interval) : Prop := ∀ i ∈ intervals, i.start < i.stop

/-- Every interval of `new` is proper and contains one of `old`. -/
def Widens (old new : List Interval) : Prop :=
  ∀ i ∈ new, i.start < i.stop ∧ ∃ a ∈ old, i.start ≤ a.start ∧ a.stop ≤ i.stop

theorem Widens.of_subset {old new : List Interval} (proper : Proper old) (subset : new ⊆ old) :
    Widens old new :=
  fun i member => ⟨proper i (subset member), i, subset member, Nat.le_refl _, Nat.le_refl _⟩

theorem Widens.proper {old new : List Interval} (widens : Widens old new) : Proper new :=
  fun i member => (widens i member).1

theorem Widens.trans {old mid new : List Interval} (first : Widens old mid)
    (second : Widens mid new) : Widens old new := by
  intro i member
  obtain ⟨proper, a, inMid, left, right⟩ := second i member
  obtain ⟨_, b, inOld, left', right'⟩ := first a inMid
  exact ⟨proper, b, inOld, Nat.le_trans left left', Nat.le_trans right' right⟩

theorem widens_mergeTouchingOnce (intervals : List Interval) (proper : Proper intervals) :
    Widens intervals (mergeTouchingOnce intervals) := by
  induction intervals using mergeTouchingOnce.induct with
  | case1 a b rest touch ih =>
    have ha := proper a (by simp)
    have hb := proper b (by simp)
    simp only [mergeTouchingOnce, touch, if_true]
    intro i member
    rcases List.mem_cons.mp member with rfl | later
    · exact ⟨by simp only; omega, a, by simp, Nat.le_refl _, by simp only; omega⟩
    · obtain ⟨good, c, old, bounds⟩ := ih (fun j inside => proper j (by simp [inside])) i later
      exact ⟨good, c, by simp [old], bounds⟩
  | case2 a b rest apart ih =>
    simp only [mergeTouchingOnce, apart, if_false]
    intro i member
    rcases List.mem_cons.mp member with rfl | later
    · exact ⟨proper i (by simp), i, by simp, Nat.le_refl _, Nat.le_refl _⟩
    · obtain ⟨good, c, old, bounds⟩ :=
        ih (fun j inside => proper j (List.mem_cons_of_mem a inside)) i later
      exact ⟨good, c, List.mem_cons_of_mem a old, bounds⟩
  | case3 short few =>
    have same : mergeTouchingOnce short = short := by
      rcases short with _ | ⟨a, _ | ⟨b, rest⟩⟩
      · rfl
      · rfl
      · exact (few a b rest rfl).elim
    rw [same]
    exact Widens.of_subset proper (List.Subset.refl _)

theorem dropColdest_subset (n : Nat) (intervals : List Interval) :
    dropColdest n intervals ⊆ intervals := by
  intro i member
  rw [dropColdest, List.mem_insertionSort] at member
  exact (List.mem_insertionSort _).mp (List.mem_of_mem_drop member)

theorem widens_compact (intervals : List Interval) (proper : Proper intervals) :
    Widens intervals (compact intervals) := by
  have rounds : ∀ n list, Proper list → Widens list (compactWithin n list) := by
    intro n
    induction n with
    | zero => exact fun list good => Widens.of_subset good (List.Subset.refl _)
    | succ n ih =>
      intro list good
      rw [compactWithin]
      split_ifs with fits touch
      · exact Widens.of_subset good (List.Subset.refl _)
      · have merged := widens_mergeTouchingOnce list good
        exact merged.trans (ih _ merged.proper)
      · have cut := Widens.of_subset good (dropColdest_subset (list.length - maxIntervalsPerKey) list)
        exact cut.trans (ih _ cut.proper)
  exact rounds _ _ proper

/-! The latest read time survives compaction. -/

def FreshAt (now : Nat) (intervals : List Interval) : Prop := ∃ i ∈ intervals, now ≤ i.readAt

theorem freshAt_mergeTouchingOnce (now : Nat) (intervals : List Interval)
    (fresh : FreshAt now intervals) : FreshAt now (mergeTouchingOnce intervals) := by
  induction intervals using mergeTouchingOnce.induct with
  | case1 a b rest touch ih =>
    obtain ⟨i, member, late⟩ := fresh
    simp only [mergeTouchingOnce, touch, if_true]
    rcases List.mem_cons.mp member with rfl | member
    · exact ⟨_, List.mem_cons_self, by simp only; omega⟩
    · rcases List.mem_cons.mp member with rfl | member
      · exact ⟨_, List.mem_cons_self, by simp only; omega⟩
      · obtain ⟨j, inside, good⟩ := ih ⟨i, member, late⟩
        exact ⟨j, List.mem_cons_of_mem _ inside, good⟩
  | case2 a b rest apart ih =>
    obtain ⟨i, member, late⟩ := fresh
    simp only [mergeTouchingOnce, apart, if_false]
    rcases List.mem_cons.mp member with rfl | member
    · exact ⟨i, List.mem_cons_self, late⟩
    · obtain ⟨j, inside, good⟩ := ih ⟨i, member, late⟩
      exact ⟨j, List.mem_cons_of_mem _ inside, good⟩
  | case3 short few =>
    rcases short with _ | ⟨a, _ | ⟨b, rest⟩⟩
    · exact fresh
    · exact fresh
    · exact (few a b rest rfl).elim

theorem freshAt_dropColdest (now n : Nat) (intervals : List Interval) (some : n < intervals.length)
    (fresh : FreshAt now intervals) : FreshAt now (dropColdest n intervals) := by
  obtain ⟨i, member, late⟩ := fresh
  have inSorted := (List.mem_insertionSort fun a b : Interval => a.readAt ≤ b.readAt).mpr member
  have ordered := List.pairwise_insertionSort (fun a b : Interval => a.readAt ≤ b.readAt) intervals
  have long := List.length_insertionSort (fun a b : Interval => a.readAt ≤ b.readAt) intervals
  unfold dropColdest
  generalize intervals.insertionSort (fun a b => a.readAt ≤ b.readAt) = sorted
    at inSorted ordered long ⊢
  have rest : sorted.drop n ≠ [] := by
    rw [Ne, List.drop_eq_nil_iff]
    omega
  have kept : ∃ j ∈ sorted.drop n, now ≤ j.readAt := by
    rw [← List.take_append_drop n sorted] at inSorted ordered
    rcases List.mem_append.mp inSorted with dropped | stays
    · obtain ⟨j, inside⟩ := List.exists_mem_of_ne_nil _ rest
      have below := (List.pairwise_append.mp ordered).2.2 i dropped j inside
      exact ⟨j, inside, Nat.le_trans late below⟩
    · exact ⟨i, stays, late⟩
  obtain ⟨j, inside, good⟩ := kept
  exact ⟨j, (List.mem_insertionSort _).mpr inside, good⟩

theorem freshAt_compact (now : Nat) (intervals : List Interval) (fresh : FreshAt now intervals) :
    FreshAt now (compact intervals) := by
  have rounds : ∀ n list, FreshAt now list → FreshAt now (compactWithin n list) := by
    intro n
    induction n with
    | zero => exact fun list good => good
    | succ n ih =>
      intro list good
      rw [compactWithin]
      split_ifs with fits touch
      · exact good
      · exact ih _ (freshAt_mergeTouchingOnce now list good)
      · exact ih _ (freshAt_dropColdest now _ list
          (by unfold maxIntervalsPerKey at fits ⊢; omega) good)
  exact rounds _ _ fresh

/-! What each operation leaves in the row. -/

theorem absorb_spec (current : Interval) (after : List Interval) (proper : current.start < current.stop)
    (rest : Proper after) :
    Widens (current :: after) (absorb current after) ∧ FreshAt current.readAt (absorb current after) := by
  induction after generalizing current with
  | nil =>
    refine ⟨Widens.of_subset ?_ (List.Subset.refl _), current, List.mem_cons_self, Nat.le_refl _⟩
    intro i member
    rw [List.mem_singleton.mp member]
    exact proper
  | cons next after ih =>
    rw [absorb]
    split_ifs with reaches
    · have wide : current.start < max current.stop next.stop := by omega
      obtain ⟨widens, j, inside, late⟩ :=
        ih ⟨current.start, max current.stop next.stop, max current.readAt next.readAt,
          addReads current.reads next.reads⟩ wide fun i member => rest i (List.mem_cons_of_mem _ member)
      refine ⟨fun i member => ?_, j, inside, by simp only at late; omega⟩
      obtain ⟨good, a, old, left, right⟩ := widens i member
      rcases List.mem_cons.mp old with rfl | old
      · exact ⟨good, current, List.mem_cons_self, left, by simp only at right; omega⟩
      · exact ⟨good, a, List.mem_cons_of_mem _ (List.mem_cons_of_mem _ old), left, right⟩
    · refine ⟨Widens.of_subset ?_ (List.Subset.refl _), current, List.mem_cons_self, Nat.le_refl _⟩
      intro i member
      rcases List.mem_cons.mp member with rfl | later
      · exact proper
      · exact rest i later

theorem compact_absorb_spec (base kept after : List Interval) (current : Interval) (now : Nat)
    (proper : Proper base) (keeps : kept ⊆ base) (follows : after ⊆ base)
    (wide : current.start < current.stop)
    (origin : ∃ a ∈ base, current.start ≤ a.start ∧ a.stop ≤ current.stop)
    (late : now ≤ current.readAt) :
    Widens base (compact (kept ++ absorb current after)) ∧
      FreshAt now (compact (kept ++ absorb current after)) := by
  obtain ⟨widens, j, inside, fresh⟩ :=
    absorb_spec current after wide fun i member => proper i (follows member)
  have joined : Widens base (kept ++ absorb current after) := by
    intro i member
    rcases List.mem_append.mp member with stays | grown
    · exact ⟨proper i (keeps stays), i, keeps stays, Nat.le_refl _, Nat.le_refl _⟩
    · obtain ⟨good, a, old, left, right⟩ := widens i grown
      rcases List.mem_cons.mp old with rfl | old
      · obtain ⟨b, given, left', right'⟩ := origin
        exact ⟨good, b, given, Nat.le_trans left left', Nat.le_trans right' right⟩
      · exact ⟨good, a, follows old, left, right⟩
  exact ⟨joined.trans (widens_compact _ joined.proper),
    freshAt_compact now _ ⟨j, List.mem_append_right _ inside, Nat.le_trans late fresh⟩⟩

/-- Adding a span leaves intervals that contain it or an old interval, and one of
them was read now. -/
theorem addInterval_spec (intervals : List Interval) (start stop now : Nat)
    (proper : Proper intervals) (span : start < stop) :
    Widens (⟨start, stop, now, 0⟩ :: intervals) (addInterval intervals start stop now) ∧
      FreshAt now (addInterval intervals start stop now) := by
  have base : Proper (⟨start, stop, now, 0⟩ :: intervals) := by
    intro i member
    rcases List.mem_cons.mp member with rfl | old
    · exact span
    · exact proper i old
  have whole : intervals.takeWhile (fun i => i.start < start) ++
      intervals.dropWhile (fun i => i.start < start) = intervals := List.takeWhile_append_dropWhile
  unfold addInterval splitAtStart
  simp only [Nat.not_le.mpr span, if_false]
  generalize intervals.takeWhile (fun i => i.start < start) = before at whole
  generalize intervals.dropWhile (fun i => i.start < start) = after at whole
  have left : before ⊆ ⟨start, stop, now, 0⟩ :: intervals := fun i member =>
    List.mem_cons_of_mem _ (by rw [← whole]; exact List.mem_append_left _ member)
  have right : after ⊆ ⟨start, stop, now, 0⟩ :: intervals := fun i member =>
    List.mem_cons_of_mem _ (by rw [← whole]; exact List.mem_append_right _ member)
  have inserted := compact_absorb_spec _ before after ⟨start, stop, now, 0⟩ now base left right span
    ⟨_, List.mem_cons_self, Nat.le_refl _, Nat.le_refl _⟩ (Nat.le_refl _)
  cases final : before.getLast? with
  | none => exact inserted
  | some last =>
    simp only
    split_ifs with reaches
    · have wide : min last.start start < max last.stop stop := by omega
      exact compact_absorb_spec _ before.dropLast after
        ⟨min last.start start, max last.stop stop, max last.readAt now, last.reads⟩ now base
        (fun i member => left ((List.dropLast_subset before) member)) right wide
        ⟨_, List.mem_cons_self, Nat.min_le_right _ _, Nat.le_max_right _ _⟩ (Nat.le_max_right _ _)
    · exact inserted

theorem adoptFile_bounds (prior : List Interval) (now : Nat) (file : Nat × Nat) :
    (adoptFile prior now file).start = file.1 ∧ (adoptFile prior now file).stop = file.2 := by
  unfold adoptFile
  split <;> exact ⟨rfl, rfl⟩

/-- A rebuilt row lists intervals that each contain a surviving file. -/
theorem adoptFiles_spec (prior : List Interval) (files : List (Nat × Nat)) (now : Nat)
    (proper : ∀ file ∈ files, file.1 < file.2) :
    ∀ i ∈ adoptFiles prior files now,
      i.start < i.stop ∧ ∃ file ∈ files, i.start ≤ file.1 ∧ file.2 ≤ i.stop := by
  intro i member
  have good : Proper (files.map (adoptFile prior now)) := by
    intro a inside
    obtain ⟨file, given, rfl⟩ := List.mem_map.mp inside
    rw [(adoptFile_bounds prior now file).1, (adoptFile_bounds prior now file).2]
    exact proper file given
  obtain ⟨ok, a, inside, left, right⟩ := widens_compact _ good i member
  obtain ⟨file, given, rfl⟩ := List.mem_map.mp inside
  have bounds := adoptFile_bounds prior now file
  exact ⟨ok, file, given, by omega, by omega⟩

theorem adoptFiles_ne_nil (prior : List Interval) (files : List (Nat × Nat)) (now : Nat)
    (some : files ≠ []) : adoptFiles prior files now ≠ [] := by
  obtain ⟨file, member⟩ := List.exists_mem_of_ne_nil _ some
  have before : FreshAt 0 (files.map (adoptFile prior now)) :=
    ⟨_, List.mem_map_of_mem member, Nat.zero_le _⟩
  obtain ⟨i, inside, _⟩ := freshAt_compact 0 _ before
  exact List.ne_nil_of_mem inside

theorem decay_subset (intervals : List Interval) (now window : Nat) :
    decay intervals now window ⊆ intervals := by
  unfold decay
  split_ifs
  · exact List.Subset.refl _
  · exact fun i member => List.mem_of_mem_filter member

/-- A row that was just read keeps what was read. -/
theorem decay_ne_nil (intervals : List Interval) (now window : Nat)
    (fresh : FreshAt now intervals) : decay intervals now window ≠ [] := by
  obtain ⟨i, member, late⟩ := fresh
  unfold decay
  split_ifs
  · exact List.ne_nil_of_mem member
  · exact List.ne_nil_of_mem (List.mem_filter.mpr ⟨member, by simp only [decide_eq_true_eq]; omega⟩)

end OriginCache.Cache.Coverage
