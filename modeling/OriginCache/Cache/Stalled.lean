import OriginCache.Cache.Slots

/-! A viewer that has stopped: how far the chain of windows goes ahead of a playhead
that does not move. -/

namespace OriginCache.Cache.Stalled
open Foundation.Tables Foundation.Runs Slots
open Sessions (Config Run Slot windowFor floorBytes runSpan)
open Transfers (Span)

/-! The windows of a chain. -/

section Windows
variable (config : Config)

/-- The largest window that a chain asks for. -/
def largest : Nat := max config.sessionWindowBytes 1

/-- A run that a tick starts behind a spent one. -/
structure Follows (front next : Run) : Prop where
  spans : ∃ start window, front.wantsSuccessor true config = some (start, window) ∧
    runSpan config start window front.total none = some next.span
  total : next.total = front.total
  playhead : next.playhead = front.playhead

theorem wantsSuccessor_some {run : Run} {watched : Bool} {start window : Nat}
    (wants : run.wantsSuccessor watched config = some (start, window)) :
    start = run.span.stop ∧ start < run.total ∧ start ≤ run.playhead + window ∧
      window = windowFor 0 (run.total - start) config
        (some (run.span.stop - run.span.start, run.playhead - run.span.start)) := by
  unfold Run.wantsSuccessor at wants
  simp only at wants
  split_ifs at wants with ahead
  cases wants
  exact ⟨rfl, ahead.1, ahead.2.2, rfl⟩

theorem wantsSuccessor_watched {run : Run} {watched : Bool} {next : Nat × Nat}
    (wants : run.wantsSuccessor watched config = some next) : run.wantsSuccessor true config = some next := by
  cases watched with
  | true => exact wants
  | false =>
    unfold Run.wantsSuccessor at wants
    simp at wants

theorem windowFor_le (need remaining : Nat) (behind : Option Sessions.Behind) (small : need ≤ largest config) :
    windowFor need remaining config behind ≤ largest config := by
  have floor : floorBytes (max config.sessionWindowBytes 1) config.windowFloorBytes ≤ largest config := by
    unfold floorBytes largest
    omega
  unfold windowFor
  apply Nat.le_trans (Nat.min_le_left _ _)
  apply Nat.max_le.mpr
  refine ⟨small, ?_⟩
  cases behind with
  | none => exact floor
  | some achieved =>
    simp only
    split_ifs
    · exact Nat.min_le_right _ _
    · exact floor

/-- A window that was not read to its end is followed by the floor at most. -/
theorem windowFor_unread (remaining covered : Nat) (some_ : 0 < covered) :
    windowFor 0 remaining config (some (covered, 0)) ≤ floorBytes (max config.sessionWindowBytes 1) config.windowFloorBytes := by
  unfold windowFor
  have unread : ¬(0 < covered ∧ covered ≤ 0) := by omega
  simp only [if_neg unread]
  omega

theorem runSpan_bounds {start need total : Nat} {span : Span} (spans : runSpan config start need total none = some span) :
    span.start = start ∧ span.stop ≤ start + windowFor need (total - start) config none ∧
      (span.stop = total ∨
        start + floorBytes (max config.sessionWindowBytes 1) config.windowFloorBytes ≤ span.stop) := by
  unfold runSpan at spans
  simp only at spans
  split_ifs at spans with range
  cases spans
  refine ⟨rfl, Nat.min_le_left _ _, ?_⟩
  unfold windowFor
  simp only
  omega

/-- A chained run starts within a window of the playhead and is no longer than one. -/
theorem Follows.bounds {front next : Run} (follows : Follows config front next) :
    next.span.start = front.span.stop ∧ next.span.start ≤ front.playhead + largest config ∧
      next.span.stop ≤ front.playhead + 2 * largest config := by
  obtain ⟨start, window, wants, spans⟩ := follows.spans
  obtain ⟨rfl, -, ahead, size⟩ := wantsSuccessor_some config wants
  have small : window ≤ largest config := by
    rw [size]
    exact windowFor_le config 0 _ _ (Nat.zero_le _)
  obtain ⟨begins, ends, -⟩ := runSpan_bounds config spans
  have length := windowFor_le config window (front.total - front.span.stop) none small
  omega

/-- The run holds the floor, or the rest of the object. -/
def Full (run : Run) : Prop :=
  run.span.stop = run.total ∨
    run.span.start + floorBytes (max config.sessionWindowBytes 1) config.windowFloorBytes ≤ run.span.stop

theorem Follows.full {front next : Run} (follows : Follows config front next) : Full config next := by
  obtain ⟨start, window, -, spans⟩ := follows.spans
  obtain ⟨begins, -, full⟩ := runSpan_bounds config spans
  rw [Full, begins, follows.total]
  exact full

/-- A chain ends with the first run that the playhead has not entered. -/
theorem no_successor {front next : Run} (full : Full config front) (behind : front.playhead < front.span.start) :
    ¬Follows config front next := by
  intro follows
  obtain ⟨start, window, wants, -⟩ := follows.spans
  obtain ⟨rfl, inside, ahead, size⟩ := wantsSuccessor_some config wants
  have unread : front.playhead - front.span.start = 0 := by omega
  have proper := front.span.proper
  rw [unread] at size
  have small := windowFor_unread config (front.total - front.span.stop) (front.span.stop - front.span.start) (by omega)
  rcases full with whole | held
  · omega
  · omega

/-- The runs of a chain, the newest first, and the run it has come to. -/
inductive Line (first : Run) : List (Nat × Run) → Run → Prop
  | start : Line first [] first
  | chained (id : Nat) (line : List (Nat × Run)) (front next : Run) : Line first line front →
      Follows config front next → Line first ((id, next) :: line) next

variable {config} {first front : Run} {line : List (Nat × Run)}

theorem Line.playhead (along : Line config first line front) : front.playhead = first.playhead := by
  induction along with
  | start => rfl
  | chained id line front next _ follows ih => exact follows.playhead.trans ih

theorem Line.bounds (along : Line config first line front) : ∀ entry ∈ line,
    entry.2.span.start ≤ first.playhead + largest config ∧ entry.2.span.stop ≤ first.playhead + 2 * largest config := by
  induction along with
  | start => exact fun entry member => absurd member List.not_mem_nil
  | chained id line front next earlier follows ih =>
    intro entry member
    cases List.mem_cons.mp member with
    | inl newest =>
      subst newest
      rw [← earlier.playhead]
      exact (follows.bounds config).2
    | inr older => exact ih entry older

/-- How long a chain is, and where its last run stands. -/
theorem Line.length (along : Line config first line front) (inside : first.playhead ≤ first.span.stop) :
    (line.length = 0 ∧ front = first) ∨
    (line.length = 1 ∧ Full config front ∧ front.span.start = first.span.stop) ∨
    (line.length = 2 ∧ Full config front ∧ front.playhead < front.span.start ∧ first.playhead = first.span.stop) := by
  induction along with
  | start => exact .inl ⟨rfl, rfl⟩
  | chained id line front next earlier follows ih =>
    right
    have begins := (follows.bounds config).1
    have stalled := earlier.playhead
    rcases ih with ⟨none_, rfl⟩ | ⟨one, full, after_⟩ | ⟨-, full, behind, -⟩
    · exact .inl ⟨congrArg (· + 1) none_, follows.full config, begins⟩
    · right
      have proper := front.span.proper
      have here : ¬front.playhead < front.span.start := fun behind => no_successor config full behind follows
      refine ⟨congrArg (· + 1) one, follows.full config, ?_, ?_⟩
      · rw [begins, follows.playhead]
        omega
      · omega
    · exact absurd follows (no_successor config full behind)

end Windows

/-! The slot while nobody asks and nobody reads. -/

/-- One tick after another, and the drivers as they come. -/
def stalled (s : System) : Label → Bool
  | .request _ _ => false
  | .consume _ _ => false
  | .tick _ => s.tasks.entries.isEmpty
  | _ => true

section Standing
variable (config : Config) (front : Run) (frontId : Nat)

/-- What a tick asks `Sessions::start` for. -/
structure Wanted (ask : Ask) : Prop where
  window : front.wantsSuccessor true config = some (ask.start, ask.need)
  total : ask.total = front.total
  seed : ask.playheadSeed = some front.playhead

/-- The slot and a tick that works on the run the chain has come to. -/
def Fits (slot : Option Slot) : Phase → Prop
  | .collected run => run = frontId ∧ slot = some (.live frontId)
  | .finishing run next => run = frontId ∧ slot = some (.live frontId) ∧
      ∀ window, next = some window → front.wantsSuccessor true config = some window
  | .asking ask => slot = none ∧ Wanted config front ask
  | .permitWait ask span => slot = some .starting ∧ Wanted config front ask ∧
      span = runSpan config ask.start ask.need ask.total none
  | .releasing => slot = some .starting
  | .binding ask span => slot = some .starting ∧ Wanted config front ask ∧
      runSpan config ask.start ask.need ask.total none = some span

variable (before : System) (first : Run) (line : List (Nat × Run))

structure Standing (s : System) : Prop where
  along : Line config first line front
  runs : ∀ x r, s.runs.lookup x = some r → x ∈ before.runs ∨ ∃ started, (x, started) ∈ line ∧ r.span = started.span
  current : ∃ r, s.runs.lookup frontId = some r ∧ r.span = front.span ∧ r.total = front.total ∧ r.playhead = front.playhead
  alone : ∀ x y t u, s.tasks.lookup x = some t → s.tasks.lookup y = some u → x = y
  idle : (∀ x, s.tasks.lookup x = none) → s.slot = some (.live frontId) ∨ s.slot = none
  fits : ∀ x t, s.tasks.lookup x = some t → t.tick = true ∧ Fits config front frontId s.slot t.phase

variable {config front frontId before first line} {s : System}

theorem Standing.goes {id : Nat} {task : Task} (standing : Standing config front frontId before first line s)
    (found : s.tasks.lookup id = some task) (slot : Option Slot) (phase : Option Phase)
    (settles : phase = none → slot = some (.live frontId) ∨ slot = none)
    (fits : ∀ next, phase = some next → Fits config front frontId slot next) :
    Standing config front frontId before first line (goes { s with slot := slot } id task phase) := by
  have only : ∀ x t, (Slots.goes { s with slot := slot } id task phase).tasks.lookup x = some t →
      x = id ∧ ∃ next, phase = some next ∧ t = { task with phase := next } := by
    intro x t present
    change (replace s.tasks id _).lookup x = some t at present
    by_cases here : x = id
    · subst here
      rw [lookup_replace] at present
      obtain ⟨next, given, same⟩ := Option.map_eq_some_iff.mp present
      exact ⟨rfl, next, given, same.symm⟩
    · rw [lookup_replace_ne _ _ here] at present
      exact absurd (standing.alone x id t task present found) here
  constructor
  · exact standing.along
  · exact standing.runs
  · exact standing.current
  · intro x y t u atX atY
    rw [(only x t atX).1, (only y u atY).1]
  · intro none_
    apply settles
    have gone := none_ id
    change (replace s.tasks id _).lookup id = none at gone
    rw [lookup_replace] at gone
    exact Option.map_eq_none_iff.mp gone
  · intro x t present
    obtain ⟨-, next, given, rfl⟩ := only x t present
    exact ⟨(standing.fits id task found).1, fits next given⟩

/-- A tick's run is the next of the chain. -/
theorem Standing.bind {id run : Nat} {task : Task} {ask : Ask} {span : Span}
    (standing : Standing config front frontId before first line s) (found : s.tasks.lookup id = some task)
    (wanted : Wanted config front ask) (spans : runSpan config ask.start ask.need ask.total none = some span)
    (fresh : run ∉ s.runs) :
    Standing config ⟨span, ask.etag, ask.total, ask.playheadSeed.getD span.start, false, false⟩ run before first
      ((run, ⟨span, ask.etag, ask.total, ask.playheadSeed.getD span.start, false, false⟩) :: line)
      (Slots.goes { s with
        slot := some (.live run)
        runs := s.runs.insert run ⟨span, ask.etag, ask.total, ask.playheadSeed.getD span.start, false, false⟩
        drivers := s.drivers.insert run .opening } id task none) := by
  have nobody : ∀ x t, (replace s.tasks id none).lookup x ≠ some t := by
    intro x t present
    by_cases here : x = id
    · rw [here, lookup_replace] at present
      cases present
    · rw [lookup_replace_ne _ _ here] at present
      exact here (standing.alone x id t task present found)
  constructor
  · apply Line.chained run line front _ standing.along
    constructor
    · rw [wanted.total] at spans
      exact ⟨ask.start, ask.need, wanted.window, spans⟩
    · exact wanted.total
    · change ask.playheadSeed.getD span.start = front.playhead
      rw [wanted.seed, Option.getD_some]
  · intro x r present
    by_cases here : x = run
    · subst here
      have newest := (AList.lookup_insert s.runs).symm.trans present
      exact .inr ⟨_, List.mem_cons_self, by rw [← Option.some.inj newest]⟩
    · have older := (AList.lookup_insert_ne here).symm.trans present
      apply (standing.runs x r older).imp_right
      rintro ⟨started, member, same⟩
      exact ⟨started, List.mem_cons_of_mem _ member, same⟩
  · exact ⟨_, AList.lookup_insert _, rfl, rfl, rfl⟩
  · exact fun x _ t _ present _ => absurd present (nobody x t)
  · exact fun _ => .inl rfl
  · exact fun x t present => absurd present (nobody x t)

/-- The reservation of a tick behind a slot that it has just cleared. -/
theorem takeSlot_free (start : Nat) (free : s.slot = none) : takeSlot s start = some none := by
  rw [takeSlot, free]

theorem Standing.task {after : System} {id : Nat} {task : Task} (label : TaskLabel)
    (standing : Standing config front frontId before first line s) (found : s.tasks.lookup id = some task)
    (moves : taskMove config s id task label = some after) :
    ∃ line frontId front, Standing config front frontId before first line after := by
  obtain ⟨ticks, fits⟩ := standing.fits id task found
  cases label with
  | decide watched =>
    simp only [taskMove] at moves
    split at moves
    · next run phase =>
      obtain ⟨spent, known, rfl⟩ := Option.map_eq_some_iff.mp moves
      rw [phase] at fits
      obtain ⟨rfl, live⟩ := fits
      obtain ⟨r, present, span, total, playhead⟩ := standing.current
      cases known.symm.trans present
      refine ⟨line, run, front, standing.goes found s.slot _ (fun none_ => (by cases none_)) fun next given => ?_⟩
      cases given
      refine ⟨rfl, live, fun window wants => ?_⟩
      have same : spent.wantsSuccessor watched config = front.wantsSuccessor watched config := by
        unfold Run.wantsSuccessor
        rw [span, total, playhead]
      rw [same] at wants
      exact wantsSuccessor_watched config wants
    · cases moves
  | finish =>
    simp only [taskMove] at moves
    split at moves
    · next run next phase =>
      obtain ⟨spent, known, rfl⟩ := Option.map_eq_some_iff.mp moves
      rw [phase] at fits
      obtain ⟨rfl, live, wants⟩ := fits
      obtain ⟨r, present, span, total, playhead⟩ := standing.current
      cases known.symm.trans present
      rw [if_pos live]
      refine ⟨line, run, front, standing.goes found none _ (fun _ => .inr rfl) fun asking given => ?_⟩
      obtain ⟨window, here, rfl⟩ := Option.map_eq_some_iff.mp given
      exact ⟨rfl, wants window here, total, congrArg some playhead⟩
    · cases moves
  | reserve =>
    simp only [taskMove] at moves
    split at moves
    · next ask phase =>
      rw [phase] at fits
      obtain ⟨free, wanted⟩ := fits
      rw [takeSlot_free ask.start free] at moves
      cases moves
      refine ⟨line, frontId, front, standing.goes found _ _ (fun none_ => (by cases none_)) fun next given => ?_⟩
      cases given
      exact ⟨rfl, wanted, rfl⟩
    · cases moves
  | permit ok =>
    simp only [taskMove] at moves
    split at moves
    · next ask span phase =>
      cases moves
      rw [phase] at fits
      obtain ⟨starting, wanted, spans⟩ := fits
      refine ⟨line, frontId, front, standing.goes found s.slot _ (fun none_ => (by cases none_)) fun next given => ?_⟩
      cases given
      cases ok with
      | true => exact ⟨starting, wanted, spans.symm⟩
      | false => exact starting
    · next ask phase =>
      split_ifs at moves
      cases moves
      rw [phase] at fits
      refine ⟨line, frontId, front, standing.goes found s.slot _ (fun none_ => (by cases none_)) fun next given => ?_⟩
      cases given
      exact fits.1
    · cases moves
  | release =>
    simp only [taskMove] at moves
    split_ifs at moves with phase starting
    · cases moves
      exact ⟨line, frontId, front, standing.goes found none _ (fun _ => .inr rfl) fun next given => (by cases given)⟩
    · rw [phase] at fits
      exact absurd fits starting
  | bind run =>
    simp only [taskMove] at moves
    split at moves
    · next ask span phase =>
      split_ifs at moves with fresh
      cases moves
      rw [phase] at fits
      exact ⟨_, run, _, standing.bind found fits.2.1 fits.2.2 fresh⟩
    · cases moves
  | cancel =>
    simp only [taskMove, ticks] at moves
    cases moves

/-- A driver that reports leaves the window and the playhead of its run. -/
theorem Standing.driver {after : System} {run : Nat} (label : DriverLabel)
    (standing : Standing config front frontId before first line s) (steps : driverStep s run label = some after) :
    Standing config front frontId before first line after := by
  unfold driverStep at steps
  split at steps
  · next driver r working known =>
    obtain ⟨next, -, rfl⟩ := Option.map_eq_some_iff.mp steps
    have kept : ∀ x found, (if label = .finish then s.runs.insert run { r with finished := true } else s.runs).lookup x =
        some found → ∃ earlier, s.runs.lookup x = some earlier ∧ found.span = earlier.span := by
      intro x found present
      split_ifs at present
      · by_cases here : x = run
        · subst here
          rw [AList.lookup_insert] at present
          cases present
          exact ⟨r, known, rfl⟩
        · rw [AList.lookup_insert_ne here] at present
          exact ⟨found, present, rfl⟩
      · exact ⟨found, present, rfl⟩
    constructor
    · exact standing.along
    · intro x found present
      obtain ⟨earlier, there, same⟩ := kept x found present
      rw [same]
      exact standing.runs x earlier there
    · obtain ⟨current, present, span, total, playhead⟩ := standing.current
      simp only
      split_ifs
      · by_cases here : frontId = run
        · subst here
          cases known.symm.trans present
          exact ⟨_, AList.lookup_insert _, span, total, playhead⟩
        · exact ⟨current, (AList.lookup_insert_ne here).trans present, span, total, playhead⟩
      · exact ⟨current, present, span, total, playhead⟩
    · exact standing.alone
    · exact standing.idle
    · exact standing.fits
  · cases steps

theorem Standing.step {after : System} (label : Label) (standing : Standing config front frontId before first line s)
    (still : stalled s label = true) (steps : Slots.step config s label = some after) :
    ∃ line frontId front, Standing config front frontId before first line after := by
  cases label with
  | request id ask => cases still
  | consume run offset => cases still
  | tick id =>
    have nobody : ∀ x, s.tasks.lookup x = none := fun x =>
      AList.lookup_eq_none.mpr (not_mem_of_isEmpty s.tasks still x)
    simp only [Slots.step] at steps
    split at steps
    · next run live =>
      split_ifs at steps with spent
      cases steps
      have current : run = frontId := by
        cases standing.idle nobody with
        | inl same =>
          rw [live] at same
          cases same
          rfl
        | inr free =>
          rw [live] at free
          cases free
      have only : ∀ x t, (s.tasks.insert id ⟨true, .collected run⟩).lookup x = some t →
          x = id ∧ t = ⟨true, .collected run⟩ := by
        intro x t present
        by_cases here : x = id
        · subst here
          rw [AList.lookup_insert] at present
          exact ⟨rfl, (Option.some.inj present).symm⟩
        · rw [AList.lookup_insert_ne here, nobody x] at present
          cases present
      refine ⟨line, frontId, front, standing.along, standing.runs, standing.current, ?_, ?_, ?_⟩
      · intro x y t u atX atY
        rw [(only x t atX).1, (only y u atY).1]
      · intro none_
        exact absurd (none_ id) (by simp)
      · intro x t present
        rw [(only x t present).2]
        exact ⟨rfl, current, by rw [live, current]⟩
    · cases steps
  | task id label =>
    obtain ⟨task, found, moves⟩ := Option.bind_eq_some_iff.mp steps
    exact standing.task label found moves
  | driver run label => exact ⟨line, frontId, front, standing.driver label steps⟩

end Standing

/-- The runs that were started on the way from one state to another. -/
def successors (before after : System) : List Run :=
  (after.runs.entries.filter fun entry => entry.1 ∉ before.runs).map Sigma.snd

theorem successors_line {config : Config} {front first : Run} {frontId : Nat} {before after : System}
    {line : List (Nat × Run)} (standing : Standing config front frontId before first line after) :
    (successors before after).length ≤ line.length ∧
      ∀ run ∈ successors before after, ∃ entry ∈ line, run.span = entry.2.span := by
  have known : ∀ entry ∈ after.runs.entries.filter (fun entry => entry.1 ∉ before.runs),
      ∃ started, (entry.1, started) ∈ line ∧ entry.2.span = started.span := by
    intro entry member
    obtain ⟨inside, new⟩ := List.mem_filter.mp member
    have present := AList.mem_lookup_iff.mpr inside
    exact (standing.runs entry.1 entry.2 present).resolve_left (of_decide_eq_true new)
  constructor
  · have nodup : ((after.runs.entries.filter fun entry => entry.1 ∉ before.runs).map Sigma.fst).Nodup :=
      after.runs.nodupKeys.sublist List.filter_sublist
    have inside : (after.runs.entries.filter fun entry => entry.1 ∉ before.runs).map Sigma.fst ⊆ line.map Prod.fst := by
      intro id member
      obtain ⟨entry, here, rfl⟩ := List.mem_map.mp member
      obtain ⟨started, along, -⟩ := known entry here
      exact List.mem_map_of_mem (f := Prod.fst) along
    have count := (List.subperm_of_subset nodup inside).length_le
    rw [List.length_map, List.length_map] at count
    rw [successors, List.length_map]
    exact count
  · intro run member
    obtain ⟨entry, here, rfl⟩ := List.mem_map.mp member
    obtain ⟨started, along, same⟩ := known entry here
    exact ⟨_, along, same⟩

/-- The chain behind a playhead that does not move. -/
structure Bounded (config : Config) (run : Run) (before after : System) : Prop where
  starts : ∀ next ∈ successors before after, next.span.start ≤ run.playhead + largest config
  pulls : ∀ next ∈ successors before after, next.span.stop ≤ run.playhead + 2 * largest config
  two : (successors before after).length ≤ 2
  one : run.playhead < run.span.stop → (successors before after).length ≤ 1

/-- From a live run, with no request and no read, the ticks buy two windows at most,
and one where the run itself was not read to its end. -/
theorem stalled_bounded (config : Config) (before after : System) (id : Nat) (run : Run)
    (live : before.slot = some (.live id)) (found : before.runs.lookup id = some run)
    (nobody : before.tasks.entries.isEmpty = true) (inside : run.playhead ≤ run.span.stop)
    (reached : Reaches ⟨fun s => s = before, Slots.step config⟩ (fun s label => stalled s label = true) after) :
    Bounded config run before after := by
  have held : ∃ line frontId front, Standing config front frontId before run line after := by
    apply Reaches.invariant (fun s => ∃ line frontId front, Standing config front frontId before run line s) _ _ reached
    · rintro s rfl
      have none_ : ∀ x, s.tasks.lookup x = none := fun x =>
        AList.lookup_eq_none.mpr (not_mem_of_isEmpty s.tasks nobody x)
      refine ⟨[], id, run, .start, fun x r present => .inl (lookup_mem _ _ _ present), ⟨run, found, rfl, rfl, rfl⟩, ?_,
        fun _ => .inl live, ?_⟩
      · intro x y t u atX
        rw [none_] at atX
        cases atX
      · intro x t present
        rw [none_] at present
        cases present
    · rintro s label next ⟨line, frontId, front, standing⟩ still steps
      exact standing.step label still steps
  obtain ⟨line, frontId, front, standing⟩ := held
  obtain ⟨count, spans⟩ := successors_line standing
  have bounds := standing.along.bounds
  constructor
  · intro next member
    obtain ⟨entry, along, same⟩ := spans next member
    rw [same]
    exact (bounds entry along).1
  · intro next member
    obtain ⟨entry, along, same⟩ := spans next member
    rw [same]
    exact (bounds entry along).2
  · rcases standing.along.length inside with ⟨length, -⟩ | ⟨length, -⟩ | ⟨length, -⟩ <;> omega
  · intro behind
    rcases standing.along.length inside with ⟨length, -⟩ | ⟨length, -⟩ | ⟨length, -, -, read⟩ <;> omega

/-! A viewer that has read the first window, of an object of five. -/

theorem readWindow_proper : 0 < 4 := by decide

theorem readWindow_bound : 4 < 2 ^ 64 := by decide

def readWindow : Run := ⟨⟨0, 4, readWindow_proper, readWindow_bound⟩, none, 20, 4, true, true⟩

def readOut : System := ⟨some (.live 0), AList.insert 0 readWindow ∅, ∅, ∅⟩

/-- A tick that starts a run, which is sealed. -/
def ticksOn (run : Nat) : List Label :=
  [.tick 0, .task 0 (.decide true), .task 0 .finish, .task 0 .reserve, .task 0 (.permit true), .task 0 (.bind run),
    .driver run (.opened true), .driver run (.pumped true), .driver run .sealed, .driver run .finish]

/-- The third tick starts nothing. -/
def threeTicks : List Label :=
  ticksOn 1 ++ ticksOn 2 ++ [.tick 0, .task 0 (.decide true), .task 0 .finish]

theorem readOut_bounded : ∃ after,
    Reaches ⟨fun s => s = readOut, Slots.step smallWindows⟩ (fun s label => stalled s label = true) after ∧
      (successors readOut after).length = 2 ∧ after.slot = none ∧ Bounded smallWindows readWindow readOut after := by
  obtain ⟨after, reached, test⟩ := exists_reached ⟨fun s => s = readOut, Slots.step smallWindows⟩
    (fun s label => stalled s label = true) threeTicks (show readOut = readOut from rfl)
    (fun s => decide ((successors readOut s).length = 2) && decide (s.slot = none)) (by decide +kernel)
  obtain ⟨two, free⟩ := Bool.and_eq_true_iff.mp test
  exact ⟨after, reached, of_decide_eq_true two, of_decide_eq_true free,
    stalled_bounded smallWindows readOut after 0 readWindow rfl rfl rfl (by decide) reached⟩

end OriginCache.Cache.Stalled
