import Mathlib.Algebra.BigOperators.Group.List.Basic
import OriginCache.Cache.Intervals

/-! Which intervals of a row a merging insert and its compaction put together. The
groups are found from the positions alone; what became of stamps and read counts is
then a property of each group. -/

namespace OriginCache.Cache.Merging
open Coverage Intervals

/-- Two intervals as one. -/
def join (a b : Interval) : Interval :=
  ⟨min a.start b.start, max a.stop b.stop, max a.readAt b.readAt, addReads a.reads b.reads⟩

/-- Intervals that were put together, from left to right. -/
structure Group where
  first : Interval
  more : List Interval
deriving DecidableEq, Repr

def Group.single (i : Interval) : Group := ⟨i, []⟩
def Group.parts (g : Group) : List Interval := g.first :: g.more
def Group.joined (g : Group) : Interval := g.more.foldl join g.first
def Group.heat (g : Group) : Nat := (g.parts.map Interval.reads).sum
def Group.append (g other : Group) : Group := ⟨g.first, g.more ++ other.parts⟩

/-- What lies before the span, what meets it, and what lies behind. -/
@[grind =] def insertGroups (row : List Interval) (start stop now : Nat) : List Group :=
  if stop ≤ start then row.map Group.single
  else
    let before := row.takeWhile fun i => i.stop ≤ start
    let rest := row.dropWhile fun i => i.stop ≤ start
    before.map Group.single ++
      ⟨⟨start, stop, now, 0⟩, rest.takeWhile fun i => i.start < stop⟩ ::
        (rest.dropWhile fun i => i.start < stop).map Group.single

/-- The halving pass, on groups. -/
@[grind =] def mergeGroups : List Group → List Group
  | a :: b :: rest =>
      if b.joined.start = a.joined.stop then a.append b :: mergeGroups rest else a :: mergeGroups (b :: rest)
  | short => short

@[grind =] def settleGroups : Nat → List Group → List Group
  | 0, groups => groups
  | rounds + 1, groups =>
      if groups.length ≤ maxIntervalsPerKey then groups
      else if touches (groups.map Group.joined) then settleGroups rounds (mergeGroups groups)
      else groups

/-- The groups a call puts together, before any of them is dropped. -/
def mergedGroups (row : List Interval) (start stop now : Nat) : List Group :=
  let groups := insertGroups row start stop now
  settleGroups groups.length groups

/-- How many stretches without a gap there are, the first of which may go on from a
position. -/
@[grind =] def stretches : Option Nat → List Interval → Nat
  | _, [] => 0
  | last, i :: rest => (if last = some i.start then 0 else 1) + stretches (some i.stop) rest

/-! Groups. -/

theorem addReads_assoc (a b c : Nat) : addReads (addReads a b) c = addReads a (addReads b c) := by
  unfold addReads
  rw [Nat.mod_add_mod, Nat.add_mod_mod, Nat.add_assoc]

theorem join_assoc (a b c : Interval) : join (join a b) c = join a (join b c) := by
  unfold join
  simp only [addReads_assoc, Nat.min_assoc, Nat.max_assoc]

theorem foldl_join (a b : Interval) (more : List Interval) :
    more.foldl join (join a b) = join a (more.foldl join b) := by
  induction more generalizing b with
  | nil => rfl
  | cons i more ih => rw [List.foldl_cons, List.foldl_cons, join_assoc, ih]

theorem joined_append (g other : Group) : (g.append other).joined = join g.joined other.joined := by
  unfold Group.append Group.joined Group.parts
  rw [List.foldl_append, List.foldl_cons, foldl_join]

theorem parts_append (g other : Group) : (g.append other).parts = g.parts ++ other.parts := rfl

theorem joined_singles (row : List Interval) : (row.map Group.single).map Group.joined = row := by
  rw [List.map_map]
  exact List.map_id row

theorem parts_singles (row : List Interval) : (row.map Group.single).flatMap Group.parts = row := by
  induction row with
  | nil => rfl
  | cons i row ih =>
    rw [List.map_cons, List.flatMap_cons, ih]
    rfl

theorem foldl_readAt (first : Interval) (more : List Interval) :
    (∀ part ∈ first :: more, part.readAt ≤ (more.foldl join first).readAt) ∧
      ∃ part ∈ first :: more, part.readAt = (more.foldl join first).readAt := by
  induction more generalizing first with
  | nil =>
    refine ⟨fun part member => ?_, first, List.mem_cons_self, rfl⟩
    rw [List.mem_singleton.mp member]
    exact Nat.le_refl _
  | cons i more ih =>
    obtain ⟨upper, part, member, latest⟩ := ih (join first i)
    have both : (join first i).readAt = max first.readAt i.readAt := rfl
    have here := upper (join first i) List.mem_cons_self
    rw [List.foldl_cons]
    constructor
    · intro other inside
      rcases List.mem_cons.mp inside with rfl | inside
      · omega
      · rcases List.mem_cons.mp inside with rfl | inside
        · omega
        · exact upper other (List.mem_cons_of_mem _ inside)
    · rcases List.mem_cons.mp member with rfl | later
      · by_cases older : first.readAt ≤ i.readAt
        · exact ⟨i, List.mem_cons_of_mem _ List.mem_cons_self, by omega⟩
        · exact ⟨first, List.mem_cons_self, by omega⟩
      · exact ⟨part, List.mem_cons_of_mem _ (List.mem_cons_of_mem _ later), latest⟩

theorem foldl_reads (first : Interval) (more : List Interval) (words : ∀ part ∈ first :: more, part.reads < 2 ^ 64) :
    (more.foldl join first).reads = ((first :: more).map Interval.reads).sum % 2 ^ 64 := by
  induction more generalizing first with
  | nil =>
    have small := words first List.mem_cons_self
    simp only [List.foldl_nil, List.map_cons, List.map_nil, List.sum_cons, List.sum_nil]
    omega
  | cons i more ih =>
    have sum := ih (join first i) fun part member => by
      rcases List.mem_cons.mp member with rfl | later
      · exact Nat.mod_lt _ (by decide)
      · exact words part (List.mem_cons_of_mem _ (List.mem_cons_of_mem _ later))
    have both : (join first i).reads = (first.reads + i.reads) % 2 ^ 64 := rfl
    rw [List.foldl_cons, sum]
    simp only [List.map_cons, List.sum_cons, both]
    omega

/-! What the merges cover. -/

theorem within_join (a b : Interval) (position : Nat) (touch : a.start ≤ b.stop ∧ b.start ≤ a.stop) :
    Within (join a b) position ↔ Within a position ∨ Within b position := by
  unfold Within join
  simp only
  omega

theorem covers_mergeTouchingOnce_iff (row : List Interval) (tidy : Tidy row) (position : Nat) :
    Covers (mergeTouchingOnce row) position ↔ Covers row position := by
  induction row using mergeTouchingOnce.induct with
  | case1 a b rest touch ih =>
    have head := (tidy_cons a (b :: rest)).mp tidy
    have next := (tidy_cons b rest).mp head.2.2
    have wide := head.1
    have broad := next.1
    simp only [mergeTouchingOnce, touch, if_true]
    rw [covers_cons, covers_cons, covers_cons, ih next.2.2, ← or_assoc]
    apply or_congr_left
    unfold Within
    simp only
    omega
  | case2 a b rest apart ih =>
    have head := (tidy_cons a (b :: rest)).mp tidy
    simp only [mergeTouchingOnce, apart, if_false]
    rw [covers_cons, covers_cons, ih head.2.2]
  | case3 short few => rw [mergeTouchingOnce_short short few]

theorem within_foldl (current : Interval) (more : List Interval) (position : Nat)
    (meets : ∀ i ∈ more, i.start ≤ current.stop ∧ current.start ≤ i.stop) :
    Within (more.foldl join current) position ↔ Within current position ∨ Covers more position := by
  induction more generalizing current with
  | nil =>
    rw [List.foldl_nil]
    constructor
    · exact Or.inl
    · intro covered
      rcases covered with here | ⟨i, member, -⟩
      · exact here
      · exact absurd member List.not_mem_nil
  | cons i more ih =>
    have first := meets i List.mem_cons_self
    have wider : (join current i).stop = max current.stop i.stop := rfl
    have opening : (join current i).start = min current.start i.start := rfl
    rw [List.foldl_cons, ih (join current i), within_join current i position ⟨first.2, first.1⟩, covers_cons, or_assoc]
    intro other member
    have later := meets other (List.mem_cons_of_mem _ member)
    omega

theorem foldl_start (low : Nat) (current : Interval) (more : List Interval)
    (bounded : ∀ i ∈ current :: more, low ≤ i.start) : low ≤ (more.foldl join current).start := by
  induction more generalizing current with
  | nil => exact bounded current List.mem_cons_self
  | cons i more ih =>
    rw [List.foldl_cons]
    apply ih
    intro other member
    rcases List.mem_cons.mp member with rfl | later
    · exact Nat.le_min.mpr ⟨bounded current List.mem_cons_self, bounded i (List.mem_cons_of_mem _ List.mem_cons_self)⟩
    · exact bounded other (List.mem_cons_of_mem _ (List.mem_cons_of_mem _ later))

theorem foldl_stop (high : Nat) (current : Interval) (more : List Interval)
    (bounded : ∀ i ∈ current :: more, i.stop ≤ high) : (more.foldl join current).stop ≤ high := by
  induction more generalizing current with
  | nil => exact bounded current List.mem_cons_self
  | cons i more ih =>
    rw [List.foldl_cons]
    apply ih
    intro other member
    rcases List.mem_cons.mp member with rfl | later
    · exact Nat.max_le.mpr ⟨bounded current List.mem_cons_self, bounded i (List.mem_cons_of_mem _ List.mem_cons_self)⟩
    · exact bounded other (List.mem_cons_of_mem _ (List.mem_cons_of_mem _ later))

theorem foldl_wide (current : Interval) (more : List Interval) (wide : current.start < current.stop) :
    (more.foldl join current).start < (more.foldl join current).stop := by
  induction more generalizing current with
  | nil => exact wide
  | cons i more ih =>
    rw [List.foldl_cons]
    apply ih
    have wider : (join current i).stop = max current.stop i.stop := rfl
    have opening : (join current i).start = min current.start i.start := rfl
    omega

/-! Stretches. -/

theorem stretches_mergeTouchingOnce (last : Option Nat) (row : List Interval) :
    stretches last (mergeTouchingOnce row) = stretches last row := by
  induction row using mergeTouchingOnce.induct generalizing last with
  | case1 a b rest touch ih =>
    simp only [mergeTouchingOnce, touch, if_true, stretches, ih, Nat.zero_add]
  | case2 a b rest apart ih =>
    simp only [mergeTouchingOnce, apart, if_false, stretches] at ih ⊢
    rw [ih]
  | case3 short few => rw [mergeTouchingOnce_short short few]

/-- Where nothing touches every interval is a stretch. -/
theorem stretches_apart (last : Option Nat) (row : List Interval) (apart : touches row = false)
    (fresh : ∀ i, row.head? = some i → last ≠ some i.start) : stretches last row = row.length := by
  induction row generalizing last with
  | nil => rfl
  | cons i rest ih =>
    have opens : last ≠ some i.start := fresh i rfl
    have later : touches rest = false ∧ ∀ j, rest.head? = some j → some i.stop ≠ some j.start := by
      cases rest with
      | nil => exact ⟨rfl, fun j none_ => by cases none_⟩
      | cons j rest =>
        simp only [touches, Bool.or_eq_false_iff, decide_eq_false_iff_not] at apart
        refine ⟨apart.2, fun k head same => ?_⟩
        cases head
        exact apart.1 (Option.some.inj same).symm
    rw [stretches, if_neg opens, ih (some i.stop) later.1 later.2, List.length_cons]
    omega

theorem stretches_le (last other : Option Nat) (row : List Interval) : stretches last row ≤ stretches other row + 1 := by
  cases row with
  | nil => exact Nat.zero_le _
  | cons i rest =>
    simp only [stretches]
    split_ifs <;> omega

theorem stretches_append (last : Option Nat) (front back : List Interval) :
    ∃ mid, stretches last (front ++ back) = stretches last front + stretches mid back := by
  induction front generalizing last with
  | nil => exact ⟨last, (Nat.zero_add _).symm⟩
  | cons i front ih =>
    obtain ⟨mid, split⟩ := ih (some i.stop)
    refine ⟨mid, ?_⟩
    rw [List.cons_append, stretches, stretches, split]
    omega

/-! Compaction. -/

theorem compactWithin_short (rounds : Nat) (row : List Interval) (short : row.length ≤ maxIntervalsPerKey) :
    compactWithin rounds row = row := by
  cases rounds with
  | zero => rfl
  | succ rounds => rw [compactWithin, if_pos short]

theorem compactWithin_succ (rounds : Nat) (row : List Interval) (enough : row.length ≤ rounds + maxIntervalsPerKey) :
    compactWithin (rounds + 1) row = compactWithin rounds row := by
  induction rounds generalizing row with
  | zero => rw [compactWithin_short _ row (by omega), compactWithin_short _ row (by omega)]
  | succ rounds ih =>
    rw [compactWithin]
    conv_rhs => rw [compactWithin]
    split_ifs with fits touch
    · rfl
    · have shorter := length_mergeTouchingOnce row touch
      exact ih _ (by omega)
    · have cut := length_dropColdest (row.length - maxIntervalsPerKey) row
      exact ih _ (by omega)

/-- The loop is over after as many rounds as there are intervals. -/
theorem compactWithin_ends (rounds : Nat) (row : List Interval) (enough : row.length ≤ rounds) :
    compactWithin rounds row = compact row := by
  induction rounds, enough using Nat.le_induction with
  | base => rfl
  | succ rounds enough ih => rw [compactWithin_succ rounds row (by omega), ih]

/-- With room for every stretch nothing is dropped. -/
theorem covers_compactWithin (rounds : Nat) (row : List Interval) (tidy : Tidy row)
    (room : stretches none row ≤ maxIntervalsPerKey) (position : Nat) :
    Covers (compactWithin rounds row) position ↔ Covers row position := by
  induction rounds generalizing row with
  | zero => exact Iff.rfl
  | succ rounds ih =>
    rw [compactWithin]
    split_ifs with fits touch
    · exact Iff.rfl
    · rw [ih _ (tidy_mergeTouchingOnce row tidy) (by rwa [stretches_mergeTouchingOnce]),
        covers_mergeTouchingOnce_iff row tidy]
    · have all := stretches_apart none row (Bool.eq_false_iff.mpr touch) (fun _ _ => Option.some_ne_none _ ∘ Eq.symm)
      omega

/-! The code's lists are the groups', joined. -/

theorem mergeTouchingOnce_joined (groups : List Group) (tidy : Tidy (groups.map Group.joined)) :
    mergeTouchingOnce (groups.map Group.joined) = (mergeGroups groups).map Group.joined := by
  induction groups using mergeGroups.induct with
  | case1 a b rest touch ih =>
    have head := (tidy_cons a.joined ((b :: rest).map Group.joined)).mp tidy
    have next := (tidy_cons b.joined (rest.map Group.joined)).mp head.2.2
    have wide := head.1
    have broad := next.1
    have both : (⟨a.joined.start, b.joined.stop, max a.joined.readAt b.joined.readAt,
        addReads a.joined.reads b.joined.reads⟩ : Interval) = (a.append b).joined := by
      have left : min a.joined.start b.joined.start = a.joined.start := by omega
      have right : max a.joined.stop b.joined.stop = b.joined.stop := by omega
      rw [joined_append, join, left, right]
    simp only [List.map_cons, mergeTouchingOnce, mergeGroups, touch, if_true, both, ih next.2.2]
  | case2 a b rest apart ih =>
    have head := (tidy_cons a.joined ((b :: rest).map Group.joined)).mp tidy
    have later := ih head.2.2
    simp only [List.map_cons] at later
    simp only [List.map_cons, mergeTouchingOnce, mergeGroups, apart, if_false, later]
  | case3 short few =>
    have same : mergeGroups short = short := by
      cases short with
      | nil => rfl
      | cons a rest =>
        cases rest with
        | nil => rfl
        | cons b rest => exact (few a b rest rfl).elim
    rw [same]
    apply mergeTouchingOnce_short
    intro a b rest long
    obtain ⟨first, more, rfl, -, later⟩ := List.map_eq_cons_iff.mp long
    obtain ⟨second, others, rfl, -⟩ := List.map_eq_cons_iff.mp later
    exact few first second others rfl

theorem parts_mergeGroups (groups : List Group) :
    (mergeGroups groups).flatMap Group.parts = groups.flatMap Group.parts := by
  induction groups using mergeGroups.induct with
  | case1 a b rest touch ih =>
    simp only [mergeGroups, touch, if_true, List.flatMap_cons, parts_append, ih, List.append_assoc]
  | case2 a b rest apart ih =>
    simp only [mergeGroups, apart, if_false, List.flatMap_cons] at ih ⊢
    rw [ih]
  | case3 short few =>
    cases short with
    | nil => rfl
    | cons a rest =>
      cases rest with
      | nil => rfl
      | cons b rest => exact (few a b rest rfl).elim

theorem parts_settleGroups (rounds : Nat) (groups : List Group) :
    (settleGroups rounds groups).flatMap Group.parts = groups.flatMap Group.parts := by
  induction rounds generalizing groups with
  | zero => rfl
  | succ rounds ih =>
    rw [settleGroups]
    split_ifs
    · rfl
    · rw [ih, parts_mergeGroups]
    · rfl

/-- What compaction leaves are settled groups; dropping loses whole groups. -/
theorem compactWithin_settled (rounds : Nat) (groups : List Group) (tidy : Tidy (groups.map Group.joined)) :
    compactWithin rounds (groups.map Group.joined) ⊆ (settleGroups rounds groups).map Group.joined := by
  induction rounds generalizing groups with
  | zero => exact List.Subset.refl _
  | succ rounds ih =>
    rw [compactWithin, settleGroups, List.length_map]
    split_ifs with fits touch
    · exact List.Subset.refl _
    · have merged := mergeTouchingOnce_joined groups tidy
      have good := tidy_mergeTouchingOnce _ tidy
      rw [merged] at good ⊢
      exact ih _ good
    · have cut := length_dropColdest (groups.length - maxIntervalsPerKey) (groups.map Group.joined)
      rw [List.length_map] at cut
      rw [compactWithin_short rounds _ (by omega)]
      exact dropColdest_subset _ _

/-! The insert. -/

/-- Absorption stops at the first interval behind the span. -/
theorem absorb_groups (current : Interval) (after : List Interval) (stop : Nat) (tidy : Tidy after)
    (starts : ∀ i ∈ after, current.start ≤ i.start) (reaches : stop ≤ current.stop)
    (behind : ∀ i ∈ after, stop ≤ i.start → current.stop ≤ i.start) :
    absorb current after = ((after.takeWhile fun i => i.start < stop).foldl join current) ::
      after.dropWhile fun i => i.start < stop := by
  induction after generalizing current with
  | nil => rfl
  | cons next after ih =>
    have parts := (tidy_cons next after).mp tidy
    have first := starts next List.mem_cons_self
    by_cases meets : next.start < stop
    · have swallowed : next.start < current.stop := by omega
      have grown : (⟨current.start, max current.stop next.stop, max current.readAt next.readAt,
          addReads current.reads next.reads⟩ : Interval) = join current next := by
        rw [join, Nat.min_eq_left first]
      have wider : (join current next).stop = max current.stop next.stop := rfl
      have opening : (join current next).start = min current.start next.start := rfl
      rw [absorb, if_pos swallowed, grown, List.takeWhile_cons_of_pos (by simpa using meets),
        List.dropWhile_cons_of_pos (by simpa using meets), List.foldl_cons]
      apply ih _ parts.2.2
      · intro i member
        have later := starts i (List.mem_cons_of_mem _ member)
        omega
      · omega
      · intro i member far
        have beyond := behind i (List.mem_cons_of_mem _ member) far
        have apart := parts.2.1 i member
        omega
    · have stays := behind next List.mem_cons_self (Nat.not_lt.mp meets)
      rw [absorb, if_neg (Nat.not_lt.mpr stays), List.takeWhile_cons_of_neg (by simpa using meets),
        List.dropWhile_cons_of_neg (by simpa using meets)]
      rfl

theorem addReads_zero (n : Nat) (word : n < 2 ^ 64) : addReads 0 n = n := by
  rw [addReads, Nat.zero_add, Nat.mod_eq_of_lt word]

/-- The insert of a span joins what lies before it, what meets it and what lies behind. -/
theorem addInterval_groups (row : List Interval) (start stop now : Nat) (tidy : Tidy row)
    (words : ∀ i ∈ row, i.reads < 2 ^ 64) (span : start < stop) :
    addInterval row start stop now = compact ((insertGroups row start stop now).map Group.joined) := by
  have whole : row.takeWhile (fun i => i.start < start) ++ row.dropWhile (fun i => i.start < start) = row :=
    List.takeWhile_append_dropWhile
  have early := takeWhile_start start row
  have late := dropWhile_start start row tidy
  unfold addInterval insertGroups splitAtStart
  simp only [Nat.not_le.mpr span, if_false]
  generalize row.takeWhile (fun i => i.start < start) = before at whole early ⊢
  generalize row.dropWhile (fun i => i.start < start) = after at whole late ⊢
  subst whole
  obtain ⟨tidyBefore, tidyAfter, apart⟩ := (tidy_append before after).mp tidy
  -- Nothing at or behind the start of the span ends before it.
  have open_ : after.takeWhile (fun i => i.stop ≤ start) = [] ∧ after.dropWhile (fun i => i.stop ≤ start) = after := by
    cases after with
    | nil => exact ⟨rfl, rfl⟩
    | cons i after =>
      have begins := late i List.mem_cons_self
      have wide := tidyAfter.proper i List.mem_cons_self
      have reaches : ¬ i.stop ≤ start := by omega
      exact ⟨List.takeWhile_cons_of_neg (by simpa using reaches), List.dropWhile_cons_of_neg (by simpa using reaches)⟩
  have absorbed (current : Interval) (left : current.start ≤ start) (right : stop ≤ current.stop)
      (behind : ∀ i ∈ after, stop ≤ i.start → current.stop ≤ i.start) :=
    absorb_groups current after stop tidyAfter (fun i member => Nat.le_trans left (late i member)) right behind
  have clear : (∀ i ∈ before, i.stop ≤ start) → compact (before ++ absorb ⟨start, stop, now, 0⟩ after) =
      compact (((before ++ after).takeWhile (fun i => i.stop ≤ start)).map Group.single ++
        ⟨⟨start, stop, now, 0⟩, ((before ++ after).dropWhile fun i => i.stop ≤ start).takeWhile fun i => i.start < stop⟩ ::
        (((before ++ after).dropWhile fun i => i.stop ≤ start).dropWhile fun i => i.start < stop).map Group.single
          |>.map Group.joined) := by
    intro ends
    have all : ∀ i ∈ before, decide (i.stop ≤ start) = true := fun i member => decide_eq_true (ends i member)
    rw [List.takeWhile_append_of_pos all, List.dropWhile_append_of_pos all, open_.1, open_.2, List.append_nil,
      absorbed ⟨start, stop, now, 0⟩ (Nat.le_refl _) (Nat.le_refl _) (fun _ _ far => far)]
    simp only [List.map_append, List.map_cons, joined_singles]
    rfl
  cases final : before.getLast? with
  | none =>
    rw [List.getLast?_eq_none_iff] at final
    subst final
    exact clear fun i member => absurd member List.not_mem_nil
  | some last =>
    have split := List.dropLast_append_getLast? last final
    have member : last ∈ before := by rw [← split]; simp
    have begins := early last member
    rw [← split] at tidyBefore
    have ends := ((tidy_append _ _).mp tidyBefore).2.2
    simp only
    by_cases reaches : start < last.stop
    · rw [if_pos reaches]
      have grown : (⟨min last.start start, max last.stop stop, max last.readAt now, last.reads⟩ : Interval) =
          join ⟨start, stop, now, 0⟩ last := by
        simp only [join, addReads_zero last.reads (words last (List.mem_append_left _ member)), Nat.min_comm, Nat.max_comm]
      have all : ∀ i ∈ before.dropLast, decide (i.stop ≤ start) = true := by
        intro i inside
        have left := ends i inside last (by simp)
        exact decide_eq_true (by omega)
      have not_ : ¬ last.stop ≤ start := by omega
      have meets : last.start < stop := by omega
      have row_ : before ++ after = before.dropLast ++ last :: after := by
        conv_lhs => rw [← split]
        simp
      rw [row_, List.takeWhile_append_of_pos all, List.dropWhile_append_of_pos all,
        List.takeWhile_cons_of_neg (by simpa using not_), List.dropWhile_cons_of_neg (by simpa using not_),
        List.takeWhile_cons_of_pos (by simpa using meets), List.dropWhile_cons_of_pos (by simpa using meets), grown,
        absorbed (join ⟨start, stop, now, 0⟩ last) (Nat.min_le_left _ _) (Nat.le_max_left _ _) (fun i inside far => by
          have beyond := apart last member i inside
          have wider : (join ⟨start, stop, now, 0⟩ last).stop = max stop last.stop := rfl
          omega)]
      simp only [List.append_nil, List.map_append, List.map_cons, joined_singles]
      rfl
    · rw [if_neg reaches]
      apply clear
      intro i inside
      rw [← split] at inside
      cases List.mem_append.mp inside with
      | inl early =>
        have left := ends i early last (by simp)
        omega
      | inr same =>
        rw [List.mem_singleton.mp same]
        omega

/-! The row after the insert, before compaction. -/

def inserted (row : List Interval) (start stop now : Nat) : List Interval :=
  (insertGroups row start stop now).map Group.joined

/-- The three parts of a row that a span divides it into. -/
structure Divided (row : List Interval) (start stop : Nat) (before mid behind : List Interval) : Prop where
  whole : row = before ++ (mid ++ behind)
  ends : ∀ i ∈ before, i.stop ≤ start
  meets : ∀ i ∈ mid, i.start < stop ∧ start < i.stop
  begins : ∀ i ∈ behind, stop ≤ i.start

theorem dropWhile_stop (start : Nat) (row : List Interval) (tidy : Tidy row) :
    ∀ i ∈ row.dropWhile (fun i => i.stop ≤ start), start < i.stop := by
  induction row with
  | nil => exact fun i member => absurd member List.not_mem_nil
  | cons first rest ih =>
    have parts := (tidy_cons first rest).mp tidy
    by_cases early : first.stop ≤ start
    · rw [List.dropWhile_cons_of_pos (by simpa using early)]
      exact ih parts.2.2
    · rw [List.dropWhile_cons_of_neg (by simpa using early)]
      intro i member
      rcases List.mem_cons.mp member with rfl | later
      · omega
      · have apart := parts.2.1 i later
        have wide := parts.2.2.proper i later
        omega

theorem divided (row : List Interval) (start stop now : Nat) (tidy : Tidy row) (span : start < stop) :
    ∃ before mid behind, Divided row start stop before mid behind ∧
      insertGroups row start stop now = before.map Group.single ++ ⟨⟨start, stop, now, 0⟩, mid⟩ :: behind.map Group.single := by
  have rest : Tidy (row.dropWhile fun i => i.stop ≤ start) := tidy.sublist (List.dropWhile_sublist _)
  have whole : row = row.takeWhile (fun i => i.stop ≤ start) ++
      (((row.dropWhile fun i => i.stop ≤ start).takeWhile fun i => i.start < stop) ++
        (row.dropWhile fun i => i.stop ≤ start).dropWhile fun i => i.start < stop) := by
    rw [List.takeWhile_append_dropWhile, List.takeWhile_append_dropWhile]
  refine ⟨_, _, _, ⟨whole, ?_, ?_, dropWhile_start stop _ rest⟩, ?_⟩
  · intro i member
    simpa using List.mem_takeWhile_imp member
  · intro i member
    have first := List.mem_takeWhile_imp member
    have inside := (List.takeWhile_sublist _).subset member
    exact ⟨by simpa using first, dropWhile_stop start row tidy i inside⟩
  · unfold insertGroups
    rw [if_neg (Nat.not_le.mpr span)]

theorem inserted_divided (row : List Interval) (start stop now : Nat) (before mid behind : List Interval)
    (groups : insertGroups row start stop now =
      before.map Group.single ++ ⟨⟨start, stop, now, 0⟩, mid⟩ :: behind.map Group.single) :
    inserted row start stop now = before ++ mid.foldl join ⟨start, stop, now, 0⟩ :: behind := by
  rw [inserted, groups, List.map_append, List.map_cons, joined_singles, joined_singles]
  rfl

theorem inserted_empty (row : List Interval) (start stop now : Nat) (none_ : stop ≤ start) :
    inserted row start stop now = row := by
  rw [inserted, insertGroups, if_pos none_, joined_singles]

theorem tidy_inserted (row : List Interval) (start stop now : Nat) (tidy : Tidy row) :
    Tidy (inserted row start stop now) := by
  by_cases span : start < stop
  · obtain ⟨before, mid, behind, parts, groups⟩ := divided row start stop now tidy span
    rw [inserted_divided row start stop now before mid behind groups]
    rw [parts.whole] at tidy
    obtain ⟨first, later, apart⟩ := (tidy_append _ _).mp tidy
    obtain ⟨second, third, beyond⟩ := (tidy_append _ _).mp later
    apply (tidy_append _ _).mpr
    refine ⟨first, (tidy_cons _ _).mpr ⟨foldl_wide _ mid span, ?_, third⟩, ?_⟩
    · intro i member
      apply foldl_stop
      intro part inside
      rcases List.mem_cons.mp inside with rfl | inside
      · exact parts.begins i member
      · exact beyond part inside i member
    · intro a early b late
      rcases List.mem_cons.mp late with rfl | late
      · apply foldl_start
        intro part inside
        rcases List.mem_cons.mp inside with rfl | inside
        · exact parts.ends a early
        · exact apart a early part (List.mem_append_left _ inside)
      · exact apart a early b (List.mem_append_right _ late)
  · rw [inserted_empty row start stop now (Nat.not_lt.mp span)]
    exact tidy

theorem covers_inserted (row : List Interval) (start stop now : Nat) (tidy : Tidy row) (position : Nat) :
    Covers (inserted row start stop now) position ↔ Covers row position ∨ (start ≤ position ∧ position < stop) := by
  by_cases span : start < stop
  · obtain ⟨before, mid, behind, parts, groups⟩ := divided row start stop now tidy span
    have whole := parts.whole
    rw [inserted_divided row start stop now before mid behind groups, whole, covers_append, covers_cons,
      within_foldl, covers_append, covers_append]
    · change _ ∨ ((start ≤ position ∧ position < stop) ∨ _) ∨ _ ↔ _
      grind
    · intro i member
      have meets := parts.meets i member
      exact ⟨Nat.le_of_lt meets.1, Nat.le_of_lt meets.2⟩
  · rw [inserted_empty row start stop now (Nat.not_lt.mp span)]
    have none_ : ¬ (start ≤ position ∧ position < stop) := by omega
    exact (or_iff_left none_).symm

theorem perm_insertGroups (row : List Interval) (start stop now : Nat) (tidy : Tidy row) :
    ((insertGroups row start stop now).flatMap Group.parts).Perm
      (if stop ≤ start then row else ⟨start, stop, now, 0⟩ :: row) := by
  by_cases span : start < stop
  · obtain ⟨before, mid, behind, parts, groups⟩ := divided row start stop now tidy span
    have pieces : (insertGroups row start stop now).flatMap Group.parts =
        before ++ ⟨start, stop, now, 0⟩ :: (mid ++ behind) := by
      rw [groups, List.flatMap_append, List.flatMap_cons, parts_singles, parts_singles]
      rfl
    rw [if_neg (Nat.not_le.mpr span), pieces, parts.whole]
    exact List.perm_middle
  · have none_ := Nat.not_lt.mp span
    rw [if_pos none_, insertGroups, if_pos none_, parts_singles]

theorem stretches_touching (i : Interval) (rest : List Interval)
    (chain : (i :: rest).IsChain fun a b => a.stop = b.start) : stretches (some i.stop) rest = 0 := by
  induction rest generalizing i with
  | nil => rfl
  | cons next rest ih =>
    obtain ⟨touch, later⟩ := List.isChain_cons_cons.mp chain
    rw [stretches, if_pos (congrArg some touch), ih next later]

/-- A span leaves at most a few stretches of a row that has none or one. -/
theorem stretches_inserted (row : List Interval) (start stop now : Nat) (tidy : Tidy row)
    (chain : row.IsChain fun a b => a.stop = b.start) : stretches none (inserted row start stop now) ≤ 4 := by
  have one : stretches none row ≤ 1 := by
    cases row with
    | nil => exact Nat.zero_le _
    | cons i rest =>
      have rest_ := stretches_touching i rest chain
      rw [stretches, rest_]
      split_ifs <;> omega
  by_cases span : start < stop
  · obtain ⟨before, mid, behind, parts, groups⟩ := divided row start stop now tidy span
    rw [inserted_divided row start stop now before mid behind groups]
    rw [parts.whole] at one
    obtain ⟨first, split⟩ := stretches_append none before (mid ++ behind)
    obtain ⟨second, later⟩ := stretches_append first mid behind
    obtain ⟨third, joined⟩ := stretches_append none before (mid.foldl join ⟨start, stop, now, 0⟩ :: behind)
    rw [stretches] at joined
    have more := stretches_le (some (mid.foldl join ⟨start, stop, now, 0⟩).stop) second behind
    rw [joined]
    split_ifs <;> omega
  · rw [inserted_empty row start stop now (Nat.not_lt.mp span)]
    omega

theorem stretches_groups (last : Option Nat) (groups : List Group) (tidy : Tidy (groups.map Group.joined)) :
    stretches last ((mergeGroups groups).map Group.joined) = stretches last (groups.map Group.joined) := by
  rw [← mergeTouchingOnce_joined groups tidy, stretches_mergeTouchingOnce]

/-- With room for every stretch the groups are what is left. -/
theorem compactWithin_groups (rounds : Nat) (groups : List Group) (tidy : Tidy (groups.map Group.joined))
    (room : stretches none (groups.map Group.joined) ≤ maxIntervalsPerKey) :
    compactWithin rounds (groups.map Group.joined) = (settleGroups rounds groups).map Group.joined := by
  induction rounds generalizing groups with
  | zero => rfl
  | succ rounds ih =>
    rw [compactWithin, settleGroups, List.length_map]
    split_ifs with fits touch
    · rfl
    · have merged := mergeTouchingOnce_joined groups tidy
      have good := tidy_mergeTouchingOnce _ tidy
      have same := stretches_groups none groups tidy
      rw [merged] at good ⊢
      exact ih _ good (by omega)
    · have all := stretches_apart none _ (Bool.eq_false_iff.mpr touch) (fun _ _ => Option.some_ne_none _ ∘ Eq.symm)
      rw [List.length_map] at all
      omega

theorem compact_addInterval (row : List Interval) (start stop now : Nat) (tidy : Tidy row)
    (words : ∀ i ∈ row, i.reads < 2 ^ 64) :
    compact (addInterval row start stop now) = compact (inserted row start stop now) := by
  by_cases span : start < stop
  · have short := length_compact (inserted row start stop now)
    rw [addInterval_groups row start stop now tidy words span]
    exact compactWithin_short _ _ short
  · have none_ := Nat.not_lt.mp span
    rw [inserted_empty row start stop now none_, addInterval, if_pos none_]

/-- What a merging insert and its compaction leave of a row. -/
structure Merges (row : List Interval) (start stop now : Nat) (result : List Interval) : Prop where
  ends : ∀ rounds, (inserted row start stop now).length ≤ rounds →
    compactWithin rounds (inserted row start stop now) = result
  tidy : Tidy result
  short : result.length ≤ maxIntervalsPerKey
  within : ∀ position, Covers result position → Covers row position ∨ (start ≤ position ∧ position < stop)
  whole : stretches none (inserted row start stop now) ≤ maxIntervalsPerKey →
    ∀ position, Covers result position ↔ Covers row position ∨ (start ≤ position ∧ position < stop)
  touching : row.IsChain (fun a b => a.stop = b.start) →
    ∀ position, Covers row position ∨ (start ≤ position ∧ position < stop) → Covers result position
  parts : ((mergedGroups row start stop now).flatMap Group.parts).Perm
    (if stop ≤ start then row else ⟨start, stop, now, 0⟩ :: row)
  merged : ∀ i ∈ result, ∃ g ∈ mergedGroups row start stop now, i = g.joined
  all : stretches none (inserted row start stop now) ≤ maxIntervalsPerKey →
    result = (mergedGroups row start stop now).map Group.joined
  stamps : ∀ g ∈ mergedGroups row start stop now,
    (∀ part ∈ g.parts, part.readAt ≤ g.joined.readAt) ∧ ∃ part ∈ g.parts, part.readAt = g.joined.readAt
  heat : ∀ g ∈ mergedGroups row start stop now, g.joined.reads = g.heat

theorem words_merged (row : List Interval) (start stop now : Nat) (tidy : Tidy row)
    (words : ∀ i ∈ row, i.reads < 2 ^ 64) :
    ∀ g ∈ mergedGroups row start stop now, ∀ part ∈ g.parts, part.reads < 2 ^ 64 := by
  intro g member part inside
  have perm := perm_insertGroups row start stop now tidy
  rw [← parts_settleGroups (insertGroups row start stop now).length] at perm
  have given := perm.subset (List.mem_flatMap.mpr ⟨g, member, inside⟩)
  split_ifs at given with none_
  · exact words part given
  · rcases List.mem_cons.mp given with rfl | old
    · exact Nat.two_pow_pos 64
    · exact words part old

theorem heat_conserved (row : List Interval) (start stop now : Nat) (tidy : Tidy row)
    (words : ∀ i ∈ row, i.reads < 2 ^ 64) (g : Group) (member : g ∈ mergedGroups row start stop now) :
    g.joined.reads = g.heat ↔ g.heat < 2 ^ 64 := by
  have sum := foldl_reads g.first g.more (words_merged row start stop now tidy words g member)
  change g.joined.reads = g.heat % 2 ^ 64 at sum
  rw [sum]
  exact Nat.mod_eq_iff_lt (Nat.two_pow_pos 64).ne'

theorem addInterval_merges_iff (row : List Interval) (start stop now : Nat) (tidy : Tidy row)
    (words : ∀ i ∈ row, i.reads < 2 ^ 64) :
    Merges row start stop now (compact (addInterval row start stop now)) ↔
      ∀ g ∈ mergedGroups row start stop now, g.heat < 2 ^ 64 := by
  have conserved := heat_conserved row start stop now tidy words
  have good := tidy_inserted row start stop now tidy
  have covers := covers_inserted row start stop now tidy
  rw [compact_addInterval row start stop now tidy words]
  have whole (room : stretches none (inserted row start stop now) ≤ maxIntervalsPerKey) (position : Nat) :
      Covers (compact (inserted row start stop now)) position ↔
        Covers row position ∨ (start ≤ position ∧ position < stop) := by
    rw [compact, covers_compactWithin _ _ good room, covers]
  have subset : compact (inserted row start stop now) ⊆ (mergedGroups row start stop now).map Group.joined := by
    unfold compact mergedGroups inserted
    rw [List.length_map]
    exact compactWithin_settled _ _ good
  constructor
  · intro merges g member
    exact (conserved g member).mp (merges.heat g member)
  · intro small
    apply Merges.mk
    case ends => exact fun rounds enough => compactWithin_ends rounds _ enough
    case tidy => exact (compact_spec _ good).1
    case short => exact length_compact _
    case within => exact fun position covered => (covers position).mp ((compact_spec _ good).2 position covered)
    case whole => exact whole
    case touching =>
      intro chain position
      have few := stretches_inserted row start stop now tidy chain
      exact (whole (Nat.le_trans few (by decide)) position).mpr
    case parts =>
      unfold mergedGroups
      rw [parts_settleGroups]
      exact perm_insertGroups row start stop now tidy
    case merged =>
      intro i member
      obtain ⟨g, inside, same⟩ := List.mem_map.mp (subset member)
      exact ⟨g, inside, same.symm⟩
    case all =>
      intro room
      unfold compact mergedGroups inserted
      rw [List.length_map]
      exact compactWithin_groups _ _ good room
    case stamps => exact fun g _ => foldl_readAt g.first g.more
    case heat => exact fun g member => (conserved g member).mpr (small g member)

/-- A row that a read bridges, with a later interval it only touches. -/
def bridged : List Interval := [⟨100, 200, 10, 2⟩, ⟨300, 400, 20, 3⟩, ⟨400, 500, 40, 1⟩]

theorem tidy_bridged : Tidy bridged := ⟨by unfold Proper; decide, by decide⟩

theorem bridged_merges : Merges bridged 150 350 30 (compact (addInterval bridged 150 350 30)) ∧
    compact (addInterval bridged 150 350 30) = [⟨100, 400, 30, 5⟩, ⟨400, 500, 40, 1⟩] :=
  ⟨(addInterval_merges_iff bridged 150 350 30 tidy_bridged (by decide)).mpr (by decide), by decide⟩

/-- Two counts whose sum is one more than the word holds. -/
def overheated : List Interval := [⟨0, 10, 1, 2 ^ 63⟩, ⟨10, 20, 1, 2 ^ 63⟩]

theorem tidy_overheated : Tidy overheated := ⟨by unfold Proper; decide, by decide⟩

theorem overheated_loses : Tidy overheated ∧ (∀ i ∈ overheated, i.reads < 2 ^ 64) ∧
    compact (addInterval overheated 5 15 7) = [⟨0, 20, 7, 0⟩] ∧
    ¬ Merges overheated 5 15 7 (compact (addInterval overheated 5 15 7)) := by
  refine ⟨tidy_overheated, by decide, by decide, fun merges => ?_⟩
  have heat := merges.heat ⟨⟨5, 15, 7, 0⟩, overheated⟩ (by decide)
  exact absurd heat (by decide)

end OriginCache.Cache.Merging
