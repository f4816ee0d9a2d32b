import OriginCache.Cache.Evictions
import OriginCache.Cache.Intervals

/-! What one eviction guarantees. A row is visited once in each pass, and between the
passes a rebuild must not change how old its files are. -/

namespace OriginCache.Cache.Budgets
open Foundation.Tables SegName Coverage Intervals Store Staging Ledger SegmentFiles Rows Picks Evictions

abbrev filesOf (s : Staged) (key : Text) : List FileSpan := survivorsOf s.dir key

/-- A visit leaves everything as it is or trims its row. -/
def Visits (config : Config) (now : Nat) (e : Eviction) (key : Text) (after : Eviction) : Prop :=
  after = e ∨ ∃ want pin insidePins cap freed,
    Trimmed config e.staged key want pin insidePins cap now after.staged freed ∧ after.freed = e.freed + freed

section Passes
variable (config : Config) (verdict : Text → Verdict) (need now : Nat)

theorem trimmed_trimInto (e : Eviction) (exact_ : Exact e.staged.dir) (key : Text) (want : Nat) (insidePins : Bool)
    (cap : Option Nat) : ∃ freed,
      Trimmed config e.staged key want (verdict key).pin insidePins cap now
        (trimInto config verdict now e key want insidePins cap).staged freed ∧
      (trimInto config verdict now e key want insidePins cap).freed = e.freed + freed :=
  ⟨_, trimmed_trimRow config e.staged exact_ key want (verdict key).pin insidePins cap now, rfl⟩

theorem visits_budgetRow (insidePins : Bool) (e : Eviction) (exact_ : Exact e.staged.dir) (key : Text) :
    Visits config now e key (budgetRow config verdict need now insidePins e key) := by
  unfold budgetRow
  by_cases passes : need ≤ e.freed ∨ (verdict key).holds = true
  · rw [if_pos passes]
    exact Or.inl rfl
  · rw [if_neg passes]
    obtain ⟨freed, trimmed, counted⟩ :=
      trimmed_trimInto config verdict now e exact_ key (need - e.freed) insidePins none
    exact Or.inr ⟨_, _, _, _, freed, trimmed, counted⟩

theorem visits_capRow (e : Eviction) (exact_ : Exact e.staged.dir) (key : Text) :
    Visits config now e key (capRow config verdict now e key) := by
  unfold capRow
  by_cases passes : (verdict key).holds = true
  · rw [if_pos passes]
    exact Or.inl rfl
  · rw [if_neg passes]
    obtain ⟨freed, trimmed, counted⟩ :=
      trimmed_trimInto config verdict now e exact_ key 0 false (some (workingWindowBytes config))
    exact Or.inr ⟨_, _, _, _, freed, trimmed, counted⟩

/-! A whole pass. -/

/-- What a pass leaves of a key that it does not visit. -/
structure Apart (e after : Eviction) (key : Text) : Prop where
  files : ∀ file, file ∈ filesOf after.staged key ↔ file ∈ filesOf e.staged key
  row : after.staged.ledger.map.lookup key = e.staged.ledger.map.lookup key

theorem apart_refl (e : Eviction) (key : Text) : Apart e e key := ⟨fun _ => Iff.rfl, rfl⟩

theorem Apart.trans {e middle after : Eviction} {key : Text} (first : Apart e middle key)
    (second : Apart middle after key) : Apart e after key :=
  ⟨fun file => (second.files file).trans (first.files file), second.row.trans first.row⟩

theorem Visits.apart {config : Config} {now : Nat} {e after : Eviction} {key other : Text}
    (visits : Visits config now e key after) (differs : other ≠ key) : Apart e after other := by
  rcases visits with rfl | ⟨_, _, _, _, _, trimmed, -⟩
  · exact apart_refl _ other
  · exact ⟨trimmed.others other differs, trimmed.rows other differs⟩

theorem Visits.exact {config : Config} {now : Nat} {e after : Eviction} {key : Text}
    (visits : Visits config now e key after) (exact_ : Exact e.staged.dir) : Exact after.staged.dir := by
  rcases visits with rfl | ⟨_, _, _, _, _, trimmed, -⟩
  · exact exact_
  · exact trimmed.exact

theorem Visits.freed_le {config : Config} {now : Nat} {e after : Eviction} {key : Text}
    (visits : Visits config now e key after) : e.freed ≤ after.freed := by
  rcases visits with rfl | ⟨_, _, _, _, _, -, counted⟩
  · exact Nat.le_refl _
  · omega

/-- A function that visits the keys of a list in turn. -/
def Visitor (visit : Eviction → Text → Eviction) : Prop :=
  ∀ e key, Exact e.staged.dir → Visits config now e key (visit e key)

theorem pass_frame (visit : Eviction → Text → Eviction) (visitor : Visitor config now visit) (order : List Text)
    (e : Eviction) (exact_ : Exact e.staged.dir) :
    Exact (order.foldl visit e).staged.dir ∧ e.freed ≤ (order.foldl visit e).freed ∧
      ∀ key, key ∉ order → Apart e (order.foldl visit e) key := by
  induction order generalizing e with
  | nil => exact ⟨exact_, Nat.le_refl _, fun key _ => apart_refl e key⟩
  | cons first rest ih =>
    have here := visitor e first exact_
    obtain ⟨later, grows, frame⟩ := ih (visit e first) (here.exact exact_)
    refine ⟨later, Nat.le_trans here.freed_le grows, fun key absent => ?_⟩
    have differs : key ≠ first := fun same => absent (same ▸ List.mem_cons_self)
    exact (here.apart differs).trans (frame key fun further => absent (List.mem_cons_of_mem _ further))

theorem visitor_budgetRow (insidePins : Bool) :
    Visitor config now (budgetRow config verdict need now insidePins) :=
  fun e key exact_ => visits_budgetRow config verdict need now insidePins e exact_ key

theorem visitor_capRow : Visitor config now (capRow config verdict now) :=
  fun e key exact_ => visits_capRow config verdict now e exact_ key

/-- A budget pass that ends short of the need took what it may from every row. -/
theorem budgetPass_spends (insidePins : Bool) (order : List Text) (once : order.Nodup) (e : Eviction)
    (exact_ : Exact e.staged.dir)
    (short : (budgetPass config verdict need now order insidePins e).freed < need) (key : Text)
    (visited : key ∈ order) (free : (verdict key).holds = false) (row : Row)
    (found : e.staged.ledger.map.lookup key = some row) (file : FileSpan)
    (left : file ∈ filesOf (budgetPass config verdict need now order insidePins e).staged key) :
    mayTake row.intervals (verdict key).pin insidePins now file = false := by
  induction order generalizing e with
  | nil => exact (List.not_mem_nil visited).elim
  | cons first rest ih =>
    obtain ⟨alone, once⟩ := List.nodup_cons.mp once
    have here := visits_budgetRow config verdict need now insidePins e exact_ first
    obtain ⟨-, grows, frame⟩ := pass_frame config now _ (visitor_budgetRow config verdict need now insidePins) rest
      (budgetRow config verdict need now insidePins e first) (here.exact exact_)
    change (rest.foldl (budgetRow config verdict need now insidePins) (budgetRow config verdict need now insidePins e first)).freed
      < need at short
    by_cases same : key = first
    · subst same
      have unmet : ¬ (need ≤ e.freed ∨ (verdict key).holds = true) := by
        rw [free]
        have grown := here.freed_le
        simp only [Bool.false_eq_true, or_false]
        omega
      have step : budgetRow config verdict need now insidePins e key =
          trimInto config verdict now e key (need - e.freed) insidePins none := if_neg unmet
      obtain ⟨freed, trimmed, counted⟩ :=
        trimmed_trimInto config verdict now e exact_ key (need - e.freed) insidePins none
      obtain ⟨picks, picked, bytes, files, -⟩ := trimmed.taken row found
      rw [← step] at counted files
      obtain ⟨member, unpicked⟩ := (files file).mp (((frame key alone).files file).mp left)
      by_contra may
      have asked : needOf (filesOf e.staged key) (need - e.freed) none = need - e.freed := rfl
      rcases picked.enough with enough | all
      · rw [asked] at enough
        omega
      · exact unpicked (all file member (by simpa using may))
    · have later : key ∈ rest := (List.mem_cons.mp visited).resolve_left same
      have unchanged := (here.apart (show key ≠ first from same)).row
      exact ih once (budgetRow config verdict need now insidePins e first) (here.exact exact_) short later
        (unchanged.trans found) left

theorem spanBytes_rest (files picks left : List FileSpan) (picksOnce : picks.Nodup) (leftOnce : left.Nodup)
    (once : files.Nodup) (inside : ∀ file ∈ picks, file ∈ files)
    (rest : ∀ file, file ∈ left ↔ file ∈ files ∧ file ∉ picks) :
    spanBytes picks + spanBytes left = spanBytes files := by
  have apart : (picks ++ left).Nodup := by
    apply List.nodup_append.mpr
    refine ⟨picksOnce, leftOnce, ?_⟩
    intro a inPicks b inLeft same
    exact ((rest b).mp inLeft).2 (same ▸ inPicks)
  have whole : (picks ++ left).Perm files := by
    apply (List.perm_ext_iff_of_nodup apart once).mpr
    intro file
    rw [List.mem_append, rest file]
    by_cases picked : file ∈ picks
    · simp [picked, inside file picked]
    · simp [picked]
  have sums := (whole.map fun file : FileSpan => file.2 - file.1).sum_eq
  rw [List.map_append, List.sum_append] at sums
  exact sums

/-- The last pass holds a row to its window, or takes what it may. -/
theorem capPass_caps (order : List Text) (e : Eviction) (exact_ : Exact e.staged.dir)
    (once : order.Nodup) (key : Text) (visited : key ∈ order) (free : (verdict key).holds = false) (row : Row)
    (found : e.staged.ledger.map.lookup key = some row) :
    spanBytes (filesOf (order.foldl (capRow config verdict now) e).staged key) ≤ workingWindowBytes config ∨
      ∀ file ∈ filesOf (order.foldl (capRow config verdict now) e).staged key,
        mayTake row.intervals (verdict key).pin false now file = false := by
  induction order generalizing e with
  | nil => exact (List.not_mem_nil visited).elim
  | cons first rest ih =>
    obtain ⟨alone, once⟩ := List.nodup_cons.mp once
    have here := visits_capRow config verdict now e exact_ first
    obtain ⟨later, -, frame⟩ := pass_frame config now _ (visitor_capRow config verdict now) rest
      (capRow config verdict now e first) (here.exact exact_)
    rw [List.foldl_cons]
    by_cases same : key = first
    · subst same
      have step : capRow config verdict now e key =
          trimInto config verdict now e key 0 false (some (workingWindowBytes config)) := by
        apply if_neg
        rw [free]
        exact Bool.false_ne_true
      obtain ⟨freed, trimmed, -⟩ :=
        trimmed_trimInto config verdict now e exact_ key 0 false (some (workingWindowBytes config))
      obtain ⟨picks, picked, -, files, -⟩ := trimmed.taken row found
      rw [← step] at files
      have final : ∀ file, file ∈ filesOf (rest.foldl (capRow config verdict now) (capRow config verdict now e key)).staged key ↔
          file ∈ filesOf e.staged key ∧ file ∉ picks :=
        fun file => ((frame key alone).files file).trans (files file)
      refine picked.enough.imp (fun enough => ?_) fun all file left => ?_
      · have whole := nodup_survivorsOf e.staged.dir exact_ key
        have split := spanBytes_rest (filesOf e.staged key) picks
          (filesOf (rest.foldl (capRow config verdict now) (capRow config verdict now e key)).staged key)
          (picked.once whole) (nodup_survivorsOf _ later key) whole (fun file member => (picked.listed file member).1)
          final
        have asked : needOf (filesOf e.staged key) 0 (some (workingWindowBytes config)) =
            max 0 (spanBytes (filesOf e.staged key) - workingWindowBytes config) := rfl
        rw [asked] at enough
        omega
      · obtain ⟨member, unpicked⟩ := (final file).mp left
        by_contra may
        exact unpicked (all file member (by simpa using may))
    · have further : key ∈ rest := (List.mem_cons.mp visited).resolve_left same
      have unchanged := (here.apart (show key ≠ first from same)).row
      exact ih (capRow config verdict now e first) (here.exact exact_) once further (unchanged.trans found)

end Passes

/-! The rows a pass visits. -/

theorem perm_rowsByAge (ledger : Inner) (maxSizeBytes : Nat) : (rowsByAge ledger maxSizeBytes).Perm ledger.map.keys := by
  unfold rowsByAge
  have sorted := (List.perm_insertionSort pathOrder (ledger.map.entries.map fun entry =>
    (if entry.2.total ≤ maxSizeBytes then 1 else 0, entry.2.lastTouch, entry.1))).map fun row => row.2.2
  rw [List.map_map] at sorted
  exact sorted

theorem mem_rowsByAge (ledger : Inner) (maxSizeBytes : Nat) (key : Text) (row : Row)
    (found : ledger.map.lookup key = some row) : key ∈ rowsByAge ledger maxSizeBytes :=
  (perm_rowsByAge ledger maxSizeBytes).mem_iff.mpr (AList.mem_keys.mp (lookup_mem _ _ _ found))

theorem nodup_rowsByAge (ledger : Inner) (maxSizeBytes : Nat) : (rowsByAge ledger maxSizeBytes).Nodup :=
  (perm_rowsByAge ledger maxSizeBytes).symm.nodup ledger.map.nodupKeys

theorem mem_unkeepableRows (ledger : Inner) (maxSizeBytes : Nat) (key : Text) (row : Row)
    (found : ledger.map.lookup key = some row) (large : maxSizeBytes < row.total) :
    key ∈ unkeepableRows ledger maxSizeBytes :=
  List.mem_map.mpr ⟨⟨key, row⟩, List.mem_filter.mpr ⟨AList.mem_lookup_iff.mp found, decide_eq_true large⟩, rfl⟩

theorem nodup_unkeepableRows (ledger : Inner) (maxSizeBytes : Nat) : (unkeepableRows ledger maxSizeBytes).Nodup :=
  (List.filter_sublist.map Sigma.fst).nodup ledger.map.nodupKeys

/-! What a row remembers of its files while they go. -/

/-- A row can be rebuilt without the ceiling, and from a file that contains another
without a change of age. -/
structure Steady (row : Row) (files : List FileSpan) : Prop where
  few : files.length ≤ maxIntervalsPerKey
  nested : Nested row.intervals files

def Recorded (row : Row) (files : List FileSpan) : Prop := ∀ file ∈ files, (ageOf row.intervals file).isSome = true

/-- In sorted and disjoint intervals a file has the record of any file around it. -/
theorem recordOf_inside (intervals : List Interval) (tidy : Tidy intervals) (inner outer : FileSpan)
    (record : Interval) (starts : outer.1 < inner.1) (stops : inner.2 ≤ outer.2) (range : inner.1 ≤ inner.2)
    (found : recordOf intervals outer = some record) : recordOf intervals inner = some record := by
  unfold recordOf at found ⊢
  induction intervals with
  | nil => cases found
  | cons i rest ih =>
    obtain ⟨-, before, tidyRest⟩ := (tidy_cons i rest).mp tidy
    simp only [List.find?_cons] at found ⊢
    by_cases around : i.start ≤ outer.1 ∧ outer.2 ≤ i.stop
    · have closer : i.start ≤ inner.1 ∧ inner.2 ≤ i.stop := by omega
      rw [decide_eq_true around] at found
      rw [decide_eq_true closer]
      exact found
    · rw [decide_eq_false around] at found
      have later := before record (List.mem_of_find?_eq_some found)
      have covers : record.start ≤ outer.1 ∧ outer.2 ≤ record.stop := by
        simpa using List.find?_some found
      have apart : ¬ (i.start ≤ inner.1 ∧ inner.2 ≤ i.stop) := by omega
      rw [decide_eq_false apart]
      exact ih tidyRest found

/-- A row as the ledger means it to be is steady where it records its files. -/
theorem steady_of_tidy (row : Row) (files : List FileSpan) (tidy : Tidy row.intervals)
    (few : files.length ≤ maxIntervalsPerKey) (ranges : ∀ file ∈ files, file.1 ≤ file.2)
    (recorded : Recorded row files) : Steady row files := by
  refine ⟨few, ?_⟩
  intro inner isIn outer isOut starts stops
  have known := recorded outer isOut
  rw [ageOf, Option.isSome_map] at known
  obtain ⟨record, found⟩ := Option.isSome_iff_exists.mp known
  rw [ageOf, ageOf, found, recordOf_inside row.intervals tidy inner outer record starts stops (ranges inner isIn) found]

/-- A later form of a row has the ages that the first one had. -/
structure Remembers (first row : Row) (files : List FileSpan) : Prop where
  nested : Nested row.intervals files
  ages : ∀ file ∈ files, ∀ age, ageOf first.intervals file = some age → ageOf row.intervals file = some age

theorem Remembers.young {first row : Row} {files : List FileSpan} (remembers : Remembers first row files) (now : Nat)
    (file : FileSpan) (member : file ∈ files) (young : isYoung first.intervals now file = true) :
    isYoung row.intervals now file = true := by
  cases age : ageOf first.intervals file with
  | none => simp [isYoung, age] at young
  | some t =>
    have kept := remembers.ages file member t age
    simpa only [isYoung, age, kept] using young

theorem Remembers.old {first row : Row} {files : List FileSpan} (remembers : Remembers first row files)
    (recorded : ∀ file ∈ files, (ageOf first.intervals file).isSome = true) (now : Nat) (file : FileSpan)
    (member : file ∈ files) (young : isYoung row.intervals now file = true) :
    isYoung first.intervals now file = true := by
  obtain ⟨t, age⟩ := Option.isSome_iff_exists.mp (recorded file member)
  have kept := remembers.ages file member t age
  simpa only [isYoung, age, kept] using young

/-- The row of a key and what is left of its files, against what they were. -/
structure Holds (first : Row) (files : List FileSpan) (row : Option Row) (left : List FileSpan) : Prop where
  total : ∀ r, row = some r → r.total = first.total
  remembers : ∀ r, row = some r → Steady first files → Remembers first r left
  gone : row = none → Steady first files → ∀ file, file ∉ left

theorem holds_rebuilt (first row : Row) (files before after : List FileSpan) (now : Nat) (next : Option Row)
    (holds : Holds first files (some row) before) (fewer : ∀ file ∈ after, file ∈ before)
    (within : ∀ file ∈ before, file ∈ files) (rebuilt : Rebuilt row after now next) : Holds first files next after := by
  have total := holds.total row rfl
  rcases rebuilt with same | ⟨left, sorted, leftOnce, members, fate⟩
  · subst same
    refine ⟨fun r equal => ?_, fun r equal steady => ?_, nofun⟩
    · rw [← Option.some.inj equal]
      exact total
    · rw [← Option.some.inj equal]
      have remembers := holds.remembers row rfl steady
      exact ⟨fun inner isIn outer isOut => remembers.nested inner (fewer inner isIn) outer (fewer outer isOut),
        fun file member => remembers.ages file (fewer file member)⟩
  · have few : Steady first files → left.length ≤ maxIntervalsPerKey := fun steady =>
      Nat.le_trans (List.subperm_of_subset leftOnce fun file member =>
        within file (fewer file ((members file).mp member))).length_le steady.few
    rcases fate with same | ⟨gone, empty⟩
    · subst same
      refine ⟨fun r equal => ?_, fun r equal steady => ?_, nofun⟩
      · rw [← Option.some.inj equal]
        exact total
      · have remembers := holds.remembers row rfl steady
        have inside : ∀ file ∈ left, file ∈ before := fun file member => fewer file ((members file).mp member)
        have ages := ageOf_adoptFiles row.intervals left now (few steady) sorted
          fun inner isIn outer isOut => remembers.nested inner (inside inner isIn) outer (inside outer isOut)
        rw [← Option.some.inj equal]
        apply Remembers.mk
        · intro inner isIn outer isOut starts stops
          rw [ages inner ((members inner).mpr isIn), ages outer ((members outer).mpr isOut),
            remembers.nested inner (fewer inner isIn) outer (fewer outer isOut) starts stops]
        · intro file member age known
          rw [ages file ((members file).mpr member), remembers.ages file (fewer file member) age known]
          rfl
    · subst gone
      refine ⟨nofun, nofun, fun _ steady file member => ?_⟩
      rw [adoptFiles_few row.intervals left now (few steady), List.map_eq_nil_iff] at empty
      have listed := (members file).mpr member
      rw [empty] at listed
      exact List.not_mem_nil listed

/-- How an eviction stands against the state it began with. -/
structure Since (s : Staged) (e : Eviction) : Prop where
  exact : Exact e.staged.dir
  fewer : ∀ key file, file ∈ filesOf e.staged key → file ∈ filesOf s key
  accounted : e.freed + segmentBytes e.staged.dir = segmentBytes s.dir
  rows : ∀ key first, s.ledger.map.lookup key = some first →
    Holds first (filesOf s key) (e.staged.ledger.map.lookup key) (filesOf e.staged key)
  absent : ∀ key, s.ledger.map.lookup key = none → e.staged.ledger.map.lookup key = none

theorem since_start (s : Staged) (exact_ : Exact s.dir) : Since s ⟨s, 0, 0⟩ := by
  refine ⟨exact_, fun _ _ member => member, Nat.zero_add _, ?_, fun _ none_ => none_⟩
  intro key first found
  refine ⟨fun r same => ?_, fun r same steady => ?_, fun none_ => ?_⟩
  · rw [found] at same
    rw [← Option.some.inj same]
  · rw [found] at same
    rw [← Option.some.inj same]
    exact ⟨steady.nested, fun _ _ _ known => known⟩
  · rw [found] at none_
    cases none_

theorem since_visit (config : Config) (now : Nat) (s : Staged) (e after : Eviction) (key : Text) (since : Since s e)
    (visits : Visits config now e key after) : Since s after := by
  rcases visits with rfl | ⟨want, pin, insidePins, cap, freed, trimmed, counted⟩
  · exact since
  have accounted : after.freed + segmentBytes after.staged.dir = segmentBytes s.dir := by
    have left := trimmed.accounted
    have before := since.accounted
    omega
  cases found : e.staged.ledger.map.lookup key with
  | none =>
    have same := trimmed.absent found
    refine ⟨trimmed.exact, ?_, accounted, ?_, ?_⟩ <;> rw [same]
    · exact since.fewer
    · exact since.rows
    · exact since.absent
  | some row =>
    obtain ⟨picks, -, -, files, rebuilt⟩ := trimmed.taken row found
    refine ⟨trimmed.exact, ?_, accounted, ?_, ?_⟩
    · intro other file member
      by_cases same : other = key
      · subst same
        exact since.fewer other file ((files file).mp member).1
      · exact since.fewer other file ((trimmed.others other same file).mp member)
    · intro other first known
      have before := since.rows other first known
      by_cases same : other = key
      · subst same
        rw [found] at before
        exact holds_rebuilt first row _ _ _ now _ before
          (fun file member => ((files file).mp member).1) (since.fewer other) rebuilt
      · rw [trimmed.rows other same]
        have members := trimmed.others other same
        refine ⟨before.total, fun r present steady => ?_, fun gone steady file member => ?_⟩
        · have remembers := before.remembers r present steady
          exact ⟨fun inner isIn outer isOut => remembers.nested inner ((members inner).mp isIn) outer ((members outer).mp isOut),
            fun file member => remembers.ages file ((members file).mp member)⟩
        · exact before.gone gone steady file ((members file).mp member)
    · intro other none_
      by_cases same : other = key
      · subst same
        rw [since.absent other none_] at found
        cases found
      · rw [trimmed.rows other same]
        exact since.absent other none_

/-! An eviction from beginning to end. -/

section Whole
variable (config : Config) (verdict : Text → Verdict) (need now : Nat)

theorem since_pass (s : Staged) (visit : Eviction → Text → Eviction) (visitor : Visitor config now visit)
    (order : List Text) (e : Eviction) (since : Since s e) : Since s (order.foldl visit e) := by
  induction order generalizing e with
  | nil => exact since
  | cons first rest ih => exact ih _ (since_visit config now s e _ first since (visitor e first since.exact))

theorem Visits.fewer {config : Config} {now : Nat} {e after : Eviction} {first : Text}
    (visits : Visits config now e first after) (key : Text) (file : FileSpan)
    (member : file ∈ filesOf after.staged key) : file ∈ filesOf e.staged key := by
  by_cases same : key = first
  · subst same
    rcases visits with equal | ⟨_, _, _, _, _, trimmed, -⟩
    · rw [equal] at member
      exact member
    · cases found : e.staged.ledger.map.lookup key with
      | none =>
        rw [trimmed.absent found] at member
        exact member
      | some row =>
        obtain ⟨_, -, -, files, -⟩ := trimmed.taken row found
        exact ((files file).mp member).1
  · exact ((visits.apart same).files file).mp member

theorem pass_fewer (visit : Eviction → Text → Eviction) (visitor : Visitor config now visit) (order : List Text)
    (e : Eviction) (exact_ : Exact e.staged.dir) (key : Text) (file : FileSpan)
    (member : file ∈ filesOf (order.foldl visit e).staged key) : file ∈ filesOf e.staged key := by
  induction order generalizing e with
  | nil => exact member
  | cons first rest ih =>
    have here := visitor e first exact_
    exact here.fewer key file (ih (visit e first) (here.exact exact_) member)

/-- A file that its own row's visit spares is spared by the pass. -/
theorem pass_keeps (s : Staged) (visit : Eviction → Text → Eviction) (visitor : Visitor config now visit)
    (key : Text) (file : FileSpan)
    (keeps : ∀ e, Since s e → file ∈ filesOf e.staged key → file ∈ filesOf (visit e key).staged key)
    (order : List Text) (e : Eviction) (since : Since s e) (member : file ∈ filesOf e.staged key) :
    file ∈ filesOf (order.foldl visit e).staged key := by
  induction order generalizing e with
  | nil => exact member
  | cons first rest ih =>
    have here := visitor e first since.exact
    apply ih (visit e first) (since_visit config now s e _ first since here)
    by_cases same : key = first
    · subst same
      exact keeps e since member
    · exact ((here.apart same).files file).mpr member

theorem trimInto_keeps (e : Eviction) (exact_ : Exact e.staged.dir) (key : Text) (want : Nat) (insidePins : Bool)
    (cap : Option Nat) (file : FileSpan)
    (spared : ∀ row, e.staged.ledger.map.lookup key = some row →
      mayTake row.intervals (verdict key).pin insidePins now file = false)
    (member : file ∈ filesOf e.staged key) :
    file ∈ filesOf (trimInto config verdict now e key want insidePins cap).staged key := by
  obtain ⟨_, trimmed, -⟩ := trimmed_trimInto config verdict now e exact_ key want insidePins cap
  cases found : e.staged.ledger.map.lookup key with
  | none =>
    rw [trimmed.absent found]
    exact member
  | some row =>
    obtain ⟨picks, picked, -, files, -⟩ := trimmed.taken row found
    refine (files file).mpr ⟨member, fun taken => ?_⟩
    have may := (picked.listed file taken).2
    rw [spared row found] at may
    cases may

theorem budgetRow_keeps (insidePins : Bool) (e : Eviction) (exact_ : Exact e.staged.dir) (key : Text) (file : FileSpan)
    (spared : (verdict key).holds = true ∨ ∀ row, e.staged.ledger.map.lookup key = some row →
      mayTake row.intervals (verdict key).pin insidePins now file = false)
    (member : file ∈ filesOf e.staged key) :
    file ∈ filesOf (budgetRow config verdict need now insidePins e key).staged key := by
  unfold budgetRow
  by_cases passes : need ≤ e.freed ∨ (verdict key).holds = true
  · rw [if_pos passes]
    exact member
  · rw [if_neg passes]
    exact trimInto_keeps config verdict now e exact_ key _ insidePins none file
      (spared.resolve_left fun holds => passes (Or.inr holds)) member

theorem capRow_keeps (e : Eviction) (exact_ : Exact e.staged.dir) (key : Text) (file : FileSpan)
    (spared : (verdict key).holds = true ∨ ∀ row, e.staged.ledger.map.lookup key = some row →
      mayTake row.intervals (verdict key).pin false now file = false)
    (member : file ∈ filesOf e.staged key) : file ∈ filesOf (capRow config verdict now e key).staged key := by
  unfold capRow
  by_cases passes : (verdict key).holds = true
  · rw [if_pos passes]
    exact member
  · rw [if_neg passes]
    exact trimInto_keeps config verdict now e exact_ key _ false _ file (spared.resolve_left passes) member

/-- A pass whose need is met visits nothing. -/
theorem budgetPass_met (insidePins : Bool) (order : List Text) (e : Eviction) (met : need ≤ e.freed) :
    budgetPass config verdict need now order insidePins e = e := by
  induction order with
  | nil => rfl
  | cons first rest ih =>
    have here : budgetRow config verdict need now insidePins e first = e := if_pos (Or.inl met)
    unfold budgetPass at ih ⊢
    rw [List.foldl_cons, here, ih]

/-- What one eviction of `need` bytes leaves, for the rows it began with. -/
structure Evicted (s : Staged) (out : Eviction) : Prop where
  accounted : out.freed + segmentBytes out.staged.dir = segmentBytes s.dir
  leasedKept : ∀ key file, (verdict key).holds = true → file ∈ filesOf s key → file ∈ filesOf out.staged key
  pinsLast : ∀ key file, file ∈ filesOf s key → file ∉ filesOf out.staged key →
    isOutside (verdict key).pin file = false → ∀ other row left, s.ledger.map.lookup other = some row →
      (verdict other).holds = false → left ∈ filesOf out.staged other → isOutside (verdict other).pin left = true →
        isYoung row.intervals now left = true
  youngKept : (∀ key row, s.ledger.map.lookup key = some row → Steady row (filesOf s key)) →
    ∀ key row file, s.ledger.map.lookup key = some row → file ∈ filesOf s key → isYoung row.intervals now file = true →
      file ∈ filesOf out.staged key
  spent : (∀ key row, s.ledger.map.lookup key = some row → Steady row (filesOf s key) ∧ Recorded row (filesOf s key)) →
    need ≤ out.freed ∨ ∀ key row file, s.ledger.map.lookup key = some row → file ∈ filesOf out.staged key →
      isYoung row.intervals now file = true ∨ (verdict key).holds = true
  capped : (∀ key row, s.ledger.map.lookup key = some row → Steady row (filesOf s key) ∧ Recorded row (filesOf s key)) →
    ∀ key row, s.ledger.map.lookup key = some row → config.maxSizeBytes < row.total → (verdict key).holds = false →
      spanBytes (filesOf out.staged key) ≤ workingWindowBytes config ∨
        ∀ file ∈ filesOf out.staged key,
          isYoung row.intervals now file = true ∨ isOutside (verdict key).pin file = false

end Whole

/-! Directories with the files of keys without a dot. -/

def filesDir (files : List (Text × FileSpan)) : Dir :=
  files.foldr (fun file dir =>
    dir.insert (segPath file.1 file.2.1 file.2.2) (List.replicate (file.2.2 - file.2.1) 0)) ∅

theorem lookup_filesDir (files : List (Text × FileSpan)) (name : Text) (bytes : Bytes)
    (found : (filesDir files).lookup name = some bytes) :
    ∃ file ∈ files, name = segPath file.1 file.2.1 file.2.2 ∧ bytes.length = file.2.2 - file.2.1 := by
  induction files with
  | nil => simp [filesDir] at found
  | cons file files ih =>
    cases lookup_insert_some _ _ _ _ _ found with
    | inl here => exact ⟨file, List.mem_cons_self, here.1, by rw [here.2, List.length_replicate]⟩
    | inr further =>
      obtain ⟨other, member, rest⟩ := ih further.2
      exact ⟨other, List.mem_cons_of_mem _ member, rest⟩

theorem exact_filesDir (files : List (Text × FileSpan))
    (plain : ∀ file ∈ files, '.' ∉ file.1 ∧ file.2.1 < file.2.2 ∧ file.2.2 < 2 ^ 64) : Exact (filesDir files) := by
  have named : ∀ name ∈ filesDir files, ∃ file ∈ files, name = segPath file.1 file.2.1 file.2.2 ∧
      fileLen (filesDir files) name = file.2.2 - file.2.1 := by
    intro name member
    obtain ⟨bytes, found⟩ := Option.isSome_iff_exists.mp (AList.lookup_isSome.mpr member)
    obtain ⟨file, listed, same, length⟩ := lookup_filesDir files name bytes found
    exact ⟨file, listed, same, by rw [fileLen, found]; exact length⟩
  have produced : Produced (filesDir files) := by
    intro name member _
    obtain ⟨file, listed, same, -⟩ := named name member
    exact ⟨file.1, file.2.1, file.2.2, same, (plain file listed).2⟩
  have alone : ∀ key, NoDottedSibling (filesDir files) key := by
    rintro key longer start stop ⟨rest, rfl⟩ member
    obtain ⟨file, listed, same, -⟩ := named _ member
    have dotted := (plain file listed).1
    rw [← (segPath_injective _ _ _ _ _ _ same).1] at dotted
    exact dotted (by simp)
  have listed : ∀ key start stop name, (start, stop, name) ∈ segmentsForKey (filesDir files) key →
      name ∈ filesDir files ∧ name = segPath key start stop :=
    fun key start stop name => (spans_of_noDottedSibling _ produced key (alone key) start stop name).mp
  apply Exact.mk
  · exact fun key start stop name member => (listed key start stop name member).2
  · intro key start stop name member
    obtain ⟨present, rfl⟩ := listed key start stop name member
    obtain ⟨file, inFiles, same, length⟩ := named _ present
    obtain ⟨-, rfl, rfl⟩ := segPath_injective _ _ _ _ _ _ same
    have range := (plain file inFiles).2.1
    omega

/-- A magazine of ten bytes with a window of four, and a viewer's four. -/
def smallCache : Config := ⟨.lru, 10, 4, 4⟩

def oneRow (key : Text) (total : Nat) (intervals : List Interval) : Table Text Row :=
  AList.singleton key ⟨none, total, intervals, 7⟩

/-- A key of two files, one of them young, and a watched key the magazine cannot keep. -/
def twoRows : Staged :=
  ⟨filesDir [(['a'], (0, 4)), (['a'], (4, 8)), (['b'], (0, 2)), (['b'], (2, 6))],
    ⟨(oneRow ['a'] 8 [⟨0, 4, 5, 0⟩, ⟨4, 8, 99990, 0⟩]).insert ['b'] ⟨none, 20, [⟨0, 2, 5, 0⟩, ⟨2, 6, 5, 0⟩], 9⟩, 14⟩⟩

def watchesB (key : Text) : Verdict := if key = ['b'] then ⟨true, some ⟨2, 6, 4⟩⟩ else ⟨false, none⟩

/-- An object of a thousand bytes with thirty staged, held by a body without a watch. -/
def leasedLarge : Staged :=
  ⟨filesDir [(['a'], (0, 30))], ⟨oneRow ['a'] 1000 [⟨0, 30, 5, 0⟩], 30⟩⟩

/-- A watched key whose pinned file the ledger has lost the record of. -/
def unrecorded : Staged :=
  ⟨filesDir [(['a'], (0, 4)), (['a'], (100, 106))], ⟨oneRow ['a'] 8 [⟨0, 4, 5, 0⟩], 10⟩⟩

/-- The file of a key without a row. -/
def rowless : Staged := ⟨filesDir [(['a'], (0, 4))], ⟨∅, 4⟩⟩

end OriginCache.Cache.Budgets
