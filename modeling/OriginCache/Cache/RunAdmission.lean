import OriginCache.Cache.Stalled

/-! What a run may write, and who asks the disk: a request does before it starts a run,
a tick that chains one does not. -/

namespace OriginCache.Cache.RunAdmission
open Foundation.Tables Foundation.Runs Slots
open SegName (Text)
open Sessions (Config Run Slot windowFor floorBytes runSpan)
open Transfers (Span)
open Stalled (largest)

/-- Disk headroom that is held back from the cache. -/
def diskReserveBytes : Nat := 512 * 1024 * 1024

/-- The most that a run of a request can write. -/
def worstCaseBytes (need remaining : Nat) (config : Config) : Nat :=
  min (max need (max config.sessionWindowBytes 1)) remaining

/-- Whether a run may write `runLen` bytes. An unknown amount of free space is no reason
to refuse. -/
def runAdmits (runLen maxSizeBytes : Nat) (free : Option Nat) (reserve : Nat) : Bool :=
  0 < runLen ∧ runLen ≤ maxSizeBytes ∧ free.all fun free => runLen ≤ free - reserve

structure Limits where
  config : Config
  maxSizeBytes : Nat

/-- What the disk was asked for, and the reading that answered. -/
structure Admission where
  runLen : Nat
  free : Option Nat
deriving DecidableEq, Repr

/-- A start, with the admission of the caller that made it. -/
structure Started where
  need : Nat
  remaining : Nat
  window : Nat
  admission : Option Admission
deriving DecidableEq, Repr

structure System where
  slots : Slots.System
  asked : Table Nat Admission
  started : Table Nat Started

inductive Label
  | request (id : Nat) (etag : Option Text) (total frontier stop : Nat) (free : Option Nat)
  | slot (label : Slots.Label)
deriving DecidableEq, Repr

section Steps
variable (limits : Limits)

/-- A ranged request that is not staged up to its end. One that is not admitted is served
without a run. -/
def requestStep (s : System) (id : Nat) (etag : Option Text) (total frontier stop : Nat) (free : Option Nat) :
    Option System :=
  if frontier < stop ∧ stop ≤ total then
    let runLen := worstCaseBytes (stop - frontier) (total - frontier) limits.config
    if runAdmits runLen limits.maxSizeBytes free diskReserveBytes then
      (Slots.step limits.config s.slots (.request id ⟨etag, total, frontier, stop - frontier, none⟩)).map fun slots =>
        { s with slots := slots, asked := s.asked.insert id ⟨runLen, free⟩ }
    else some s
  else none

/-- A tick comes without an admission. -/
def askedAfter (s : System) : Slots.Label → Table Nat Admission
  | .tick id => s.asked.erase id
  | _ => s.asked

def startedAfter (s : System) : Slots.Label → Table Nat Started
  | .task id (.bind run) =>
      match (s.slots.tasks.lookup id).map Task.phase with
      | some (.binding ask span) =>
          s.started.insert run ⟨ask.need, ask.total - ask.start, span.stop - span.start, s.asked.lookup id⟩
      | _ => s.started
  | _ => s.started

def step (s : System) : Label → Option System
  | .request id etag total frontier stop free => requestStep limits s id etag total frontier stop free
  | .slot (.request _ _) => none
  | .slot label =>
      (Slots.step limits.config s.slots label).map fun slots => ⟨slots, askedAfter s label, startedAfter s label⟩

def empty : System := ⟨Slots.empty, ∅, ∅⟩

def machine : Machine System Label := ⟨fun s => s = empty, step limits⟩

/-- A tick that starts the next run. -/
def chains (s : System) : Label → Bool
  | .slot (.task id (.bind _)) => (s.slots.tasks.lookup id).any Task.tick
  | _ => false

/-- A start that was admitted and kept to it. -/
structure Obeys (started : Started) : Prop where
  worst : started.window ≤ worstCaseBytes started.need started.remaining limits.config
  kept : started.window ≤ limits.maxSizeBytes
  admitted : ∃ admission, started.admission = some admission ∧ started.window ≤ admission.runLen ∧
    runAdmits admission.runLen limits.maxSizeBytes admission.free diskReserveBytes = true

/-! The windows. -/

def Affordable (ask : Ask) : Prop := worstCaseBytes ask.need (ask.total - ask.start) limits.config ≤ limits.maxSizeBytes

def Within (ask : Ask) (span : Span) : Prop :=
  span.start = ask.start ∧ span.stop - span.start ≤ worstCaseBytes ask.need (ask.total - ask.start) limits.config

theorem windowFor_worst (need remaining : Nat) (config : Config) (behind : Option Sessions.Behind) :
    windowFor need remaining config behind ≤ worstCaseBytes need remaining config := by
  have floor : floorBytes (max config.sessionWindowBytes 1) config.windowFloorBytes ≤ max config.sessionWindowBytes 1 := by
    unfold floorBytes
    omega
  unfold windowFor worstCaseBytes
  apply min_le_min_right
  apply max_le_max_left
  cases behind with
  | none => exact floor
  | some achieved =>
    simp only
    split_ifs
    · exact Nat.min_le_right _ _
    · exact floor

theorem runSpan_within {limits : Limits} {ask : Ask} {behind : Option Sessions.Behind} {span : Span}
    (spans : runSpan limits.config ask.start ask.need ask.total behind = some span) : Within limits ask span := by
  have worst := windowFor_worst ask.need (ask.total - ask.start) limits.config behind
  unfold runSpan at spans
  simp only at spans
  split_ifs at spans with range
  cases spans
  refine ⟨rfl, ?_⟩
  simp only
  omega

/-- A phase whose start, when it comes, is within the limits. -/
def Settled (runs : Table Nat Run) : Phase → Prop
  | .collected _ => True
  | .finishing run next => ∃ r, runs.lookup run = some r ∧ ∀ start window, next = some (start, window) →
      worstCaseBytes window (r.total - start) limits.config ≤ limits.maxSizeBytes
  | .asking ask => Affordable limits ask
  | .permitWait ask span => Affordable limits ask ∧ ∀ found, span = some found → Within limits ask found
  | .releasing => True
  | .binding ask span => Affordable limits ask ∧ Within limits ask span

/-- A phase of the request that was admitted. -/
def Asks (admission : Admission) : Phase → Prop
  | .collected _ => False
  | .finishing _ _ => False
  | .asking ask => admission.runLen = worstCaseBytes ask.need (ask.total - ask.start) limits.config
  | .permitWait ask _ => admission.runLen = worstCaseBytes ask.need (ask.total - ask.start) limits.config
  | .releasing => True
  | .binding ask _ => admission.runLen = worstCaseBytes ask.need (ask.total - ask.start) limits.config

/-- A tick was not admitted, a request was. -/
def Vouched (admission : Option Admission) (task : Task) : Prop :=
  (task.tick = true ∧ admission = none) ∨
    (task.tick = false ∧ ∃ given, admission = some given ∧ Asks limits given task.phase ∧
      runAdmits given.runLen limits.maxSizeBytes given.free diskReserveBytes = true)

/-- What a start leaves in the books. -/
structure Booked (started : Started) : Prop where
  worst : started.window ≤ worstCaseBytes started.need started.remaining limits.config
  kept : started.window ≤ limits.maxSizeBytes
  admitted : ∀ admission, started.admission = some admission → started.window ≤ admission.runLen ∧
    runAdmits admission.runLen limits.maxSizeBytes admission.free diskReserveBytes = true

/-- What is left of the object behind a run fits, as far as a window of it goes. -/
structure Accounts (s : System) : Prop where
  rest : ∀ run r, s.slots.runs.lookup run = some r →
    worstCaseBytes 0 (r.total - r.span.stop) limits.config ≤ limits.maxSizeBytes
  books : ∀ run r, s.slots.runs.lookup run = some r →
    ∃ started, s.started.lookup run = some started ∧ started.window = r.span.stop - r.span.start
  settled : ∀ id task, s.slots.tasks.lookup id = some task → Settled limits s.slots.runs task.phase
  vouched : ∀ id task, s.slots.tasks.lookup id = some task → Vouched limits (s.asked.lookup id) task
  booked : ∀ run started, s.started.lookup run = some started → Booked limits started

variable {limits} {s : System}

theorem Accounts.goes {id : Nat} {task : Task} (accounts : Accounts limits s) (slot : Option Slot) (phase : Option Phase)
    (settles : ∀ next, phase = some next → Settled limits s.slots.runs next)
    (vouches : ∀ next, phase = some next → Vouched limits (s.asked.lookup id) { task with phase := next }) :
    Accounts limits { s with slots := Slots.goes { s.slots with slot := slot } id task phase } := by
  have tasks : ∀ x t, (replace s.slots.tasks id (phase.map fun phase => { task with phase := phase })).lookup x = some t →
      s.slots.tasks.lookup x = some t ∨ (x = id ∧ ∃ next, phase = some next ∧ t = { task with phase := next }) := by
    intro x t present
    by_cases here : x = id
    · subst here
      rw [lookup_replace] at present
      obtain ⟨next, given, same⟩ := Option.map_eq_some_iff.mp present
      exact .inr ⟨rfl, next, given, same.symm⟩
    · rw [lookup_replace_ne _ _ here] at present
      exact .inl present
  constructor
  · exact accounts.rest
  · exact accounts.books
  · intro x t present
    rcases tasks x t present with old | ⟨-, next, given, rfl⟩
    · exact accounts.settled x t old
    · exact settles next given
  · intro x t present
    rcases tasks x t present with old | ⟨rfl, next, given, rfl⟩
    · exact accounts.vouched x t old
    · exact vouches next given
  · exact accounts.booked

theorem Vouched.phase {admission : Option Admission} {task : Task} (vouched : Vouched limits admission task) (next : Phase)
    (asks : ∀ given, Asks limits given task.phase → Asks limits given next) :
    Vouched limits admission { task with phase := next } := by
  apply vouched.imp_right
  rintro ⟨request, given, found, asked, admits⟩
  exact ⟨request, given, found, asks given asked, admits⟩

/-- The next window of a run with little left behind it. -/
theorem successor_affordable {run : Run} {watched : Bool} {start window : Nat}
    (rest : worstCaseBytes 0 (run.total - run.span.stop) limits.config ≤ limits.maxSizeBytes)
    (wants : run.wantsSuccessor watched limits.config = some (start, window)) :
    worstCaseBytes window (run.total - start) limits.config ≤ limits.maxSizeBytes := by
  obtain ⟨rfl, -, -, size⟩ := Stalled.wantsSuccessor_some limits.config wants
  have worst := windowFor_worst 0 (run.total - run.span.stop) limits.config
    (some (run.span.stop - run.span.start, run.playhead - run.span.start))
  rw [← size] at worst
  unfold worstCaseBytes at worst rest ⊢
  omega

/-- The same windows of the same objects, whatever else has changed. -/
structure SameWindows (runs later : Table Nat Run) : Prop where
  earlier : ∀ x r, later.lookup x = some r → ∃ old, runs.lookup x = some old ∧ r.span = old.span ∧ r.total = old.total
  later : ∀ x old, runs.lookup x = some old → ∃ r, later.lookup x = some r ∧ r.total = old.total

theorem sameWindows_insert (runs : Table Nat Run) (id : Nat) (old next : Run) (known : runs.lookup id = some old)
    (span : next.span = old.span) (total : next.total = old.total) : SameWindows runs (runs.insert id next) := by
  constructor
  · intro x r present
    by_cases here : x = id
    · subst here
      cases (AList.lookup_insert runs).symm.trans present
      exact ⟨old, known, span, total⟩
    · exact ⟨r, (AList.lookup_insert_ne here).symm.trans present, rfl, rfl⟩
  · intro x before present
    by_cases here : x = id
    · subst here
      cases known.symm.trans present
      exact ⟨next, AList.lookup_insert _, total⟩
    · exact ⟨before, (AList.lookup_insert_ne here).trans present, rfl⟩

theorem settled_later {runs later : Table Nat Run} {phase : Phase} (settled : Settled limits runs phase)
    (there : ∀ x old, runs.lookup x = some old → ∃ r, later.lookup x = some r ∧ r.total = old.total) :
    Settled limits later phase := by
  cases phase with
  | finishing run next =>
    obtain ⟨old, known, bounds⟩ := settled
    obtain ⟨r, present, total⟩ := there run old known
    refine ⟨r, present, ?_⟩
    rw [total]
    exact bounds
  | collected run => trivial
  | asking ask => exact settled
  | permitWait ask span => exact settled
  | releasing => trivial
  | binding ask span => exact settled

theorem Accounts.reports {after : Slots.System} (accounts : Accounts limits s) (tasks : after.tasks = s.slots.tasks)
    (same : SameWindows s.slots.runs after.runs) : Accounts limits { s with slots := after } := by
  constructor
  · intro run r present
    obtain ⟨old, known, span, total⟩ := same.earlier run r present
    rw [span, total]
    exact accounts.rest run old known
  · intro run r present
    obtain ⟨old, known, span, -⟩ := same.earlier run r present
    rw [span]
    exact accounts.books run old known
  · intro id task present
    exact settled_later (accounts.settled id task (by rw [← tasks]; exact present)) same.later
  · intro id task present
    exact accounts.vouched id task (by rw [← tasks]; exact present)
  · exact accounts.booked

/-- A caller that enters. -/
theorem Accounts.enters {id : Nat} {task : Task} {asked : Table Nat Admission} (accounts : Accounts limits s)
    (settled : Settled limits s.slots.runs task.phase) (vouched : Vouched limits (asked.lookup id) task)
    (others : ∀ x, x ≠ id → asked.lookup x = s.asked.lookup x) :
    Accounts limits ⟨{ s.slots with tasks := s.slots.tasks.insert id task }, asked, s.started⟩ := by
  constructor
  · exact accounts.rest
  · exact accounts.books
  · intro x t present
    by_cases here : x = id
    · subst here
      cases (AList.lookup_insert s.slots.tasks).symm.trans present
      exact settled
    · exact accounts.settled x t ((AList.lookup_insert_ne here).symm.trans present)
  · intro x t present
    by_cases here : x = id
    · subst here
      cases (AList.lookup_insert s.slots.tasks).symm.trans present
      exact vouched
    · have old := accounts.vouched x t ((AList.lookup_insert_ne here).symm.trans present)
      rw [← others x here] at old
      exact old
  · exact accounts.booked

/-- The start of a run. -/
theorem Accounts.bind {id run : Nat} {task : Task} {ask : Ask} {span : Span} (accounts : Accounts limits s)
    (found : s.slots.tasks.lookup id = some task) (phase : task.phase = .binding ask span) (fresh : run ∉ s.slots.runs)
    (started : Run) (window : started.span = span) (total : started.total = ask.total) :
    Accounts limits ⟨Slots.goes { s.slots with
        slot := some (.live run)
        runs := s.slots.runs.insert run started
        drivers := s.slots.drivers.insert run .opening } id task none,
      s.asked, s.started.insert run ⟨ask.need, ask.total - ask.start, span.stop - span.start, s.asked.lookup id⟩⟩ := by
  have settled := accounts.settled id task found
  have vouched := accounts.vouched id task found
  rw [phase] at settled
  obtain ⟨affordable, begins, within⟩ := settled
  have proper := span.proper
  have others : ∀ x t, (replace s.slots.tasks id none).lookup x = some t → s.slots.tasks.lookup x = some t := by
    intro x t present
    by_cases here : x = id
    · rw [here, lookup_replace] at present
      cases present
    · rw [lookup_replace_ne _ _ here] at present
      exact present
  constructor
  · intro x r present
    by_cases here : x = run
    · subst here
      cases (AList.lookup_insert s.slots.runs).symm.trans present
      rw [window, total]
      unfold Affordable at affordable
      unfold worstCaseBytes at affordable ⊢
      omega
    · exact accounts.rest x r ((AList.lookup_insert_ne here).symm.trans present)
  · intro x r present
    by_cases here : x = run
    · subst here
      cases (AList.lookup_insert s.slots.runs).symm.trans present
      exact ⟨_, AList.lookup_insert _, by rw [window]⟩
    · obtain ⟨entry, there, same⟩ := accounts.books x r ((AList.lookup_insert_ne here).symm.trans present)
      exact ⟨entry, (AList.lookup_insert_ne here).trans there, same⟩
  · intro x t present
    apply settled_later (accounts.settled x t (others x t present))
    intro other old known
    have differs : other ≠ run := by
      rintro rfl
      exact fresh (lookup_mem _ _ _ known)
    exact ⟨old, (AList.lookup_insert_ne differs).trans known, rfl⟩
  · exact fun x t present => accounts.vouched x t (others x t present)
  · intro x entry present
    by_cases here : x = run
    · subst here
      cases (AList.lookup_insert s.started).symm.trans present
      refine ⟨within, Nat.le_trans within affordable, ?_⟩
      intro admission given
      rcases vouched with ⟨-, none_⟩ | ⟨-, asked, there, asks, admits⟩
      · rw [none_] at given
        cases given
      · cases there.symm.trans given
        rw [phase] at asks
        exact ⟨within.trans_eq asks.symm, admits⟩
    · exact accounts.booked x entry ((AList.lookup_insert_ne here).symm.trans present)

theorem Accounts.task {after : Slots.System} {id : Nat} {task : Task} {label : TaskLabel} (accounts : Accounts limits s)
    (found : s.slots.tasks.lookup id = some task) (moves : taskMove limits.config s.slots id task label = some after) :
    Accounts limits ⟨after, s.asked, startedAfter s (.task id label)⟩ := by
  have settled := accounts.settled id task found
  have vouched := accounts.vouched id task found
  cases label with
  | decide watched =>
    simp only [taskMove] at moves
    split at moves
    · next run phase =>
      obtain ⟨spent, known, rfl⟩ := Option.map_eq_some_iff.mp moves
      apply accounts.goes s.slots.slot
      · intro next given
        cases given
        exact ⟨spent, known, fun start window wants => successor_affordable (accounts.rest run spent known) wants⟩
      · intro next given
        cases given
        apply vouched.phase
        intro given asks
        rw [phase] at asks
        exact asks
    · cases moves
  | finish =>
    simp only [taskMove] at moves
    split at moves
    · next run next phase =>
      obtain ⟨spent, known, rfl⟩ := Option.map_eq_some_iff.mp moves
      rw [phase] at settled
      obtain ⟨r, present, bounds⟩ := settled
      cases known.symm.trans present
      apply accounts.goes
      · intro asking given
        obtain ⟨window, here, rfl⟩ := Option.map_eq_some_iff.mp given
        exact bounds window.1 window.2 here
      · intro asking given
        apply vouched.phase
        intro given asks
        rw [phase] at asks
        exact False.elim asks
    · cases moves
  | reserve =>
    simp only [taskMove] at moves
    split at moves
    · next ask phase =>
      rw [phase] at settled
      split at moves
      · next behind taken =>
        cases moves
        apply accounts.goes
        · intro next given
          cases given
          exact ⟨settled, fun span spans => runSpan_within spans⟩
        · intro next given
          cases given
          apply vouched.phase
          intro given asks
          rw [phase] at asks
          exact asks
      · cases moves
        exact accounts.goes s.slots.slot none (fun next given => (by cases given)) fun next given => (by cases given)
    · cases moves
  | permit ok =>
    simp only [taskMove] at moves
    split at moves
    · next ask span phase =>
      cases moves
      rw [phase] at settled
      apply accounts.goes s.slots.slot
      · intro next given
        cases given
        cases ok with
        | true => exact ⟨settled.1, settled.2 span rfl⟩
        | false => trivial
      · intro next given
        cases given
        apply vouched.phase
        intro given asks
        rw [phase] at asks
        cases ok with
        | true => exact asks
        | false => trivial
    · next ask phase =>
      split_ifs at moves
      cases moves
      apply accounts.goes s.slots.slot
      · intro next given
        cases given
        trivial
      · intro next given
        cases given
        exact vouched.phase _ fun _ _ => trivial
    · cases moves
  | release =>
    simp only [taskMove] at moves
    split_ifs at moves
    · cases moves
      exact accounts.goes none none (fun next given => (by cases given)) fun next given => (by cases given)
    · cases moves
      exact accounts.goes s.slots.slot none (fun next given => (by cases given)) fun next given => (by cases given)
  | bind run =>
    simp only [taskMove] at moves
    split at moves
    · next ask span phase =>
      split_ifs at moves with fresh
      cases moves
      have booked : startedAfter s (.task id (.bind run)) =
          s.started.insert run ⟨ask.need, ask.total - ask.start, span.stop - span.start, s.asked.lookup id⟩ := by
        simp only [startedAfter, found, Option.map_some, phase]
      rw [booked]
      exact accounts.bind found phase fresh _ rfl rfl
    · cases moves
  | cancel =>
    simp only [taskMove] at moves
    split_ifs at moves
    cases moves
    exact accounts.goes s.slots.slot none (fun next given => (by cases given)) fun next given => (by cases given)

theorem Accounts.step {after : System} (label : Label) (accounts : Accounts limits s)
    (steps : RunAdmission.step limits s label = some after) : Accounts limits after := by
  cases label with
  | request id etag total frontier stop free =>
    simp only [RunAdmission.step, requestStep] at steps
    split_ifs at steps with range admits
    · obtain ⟨slots, enters, rfl⟩ := Option.map_eq_some_iff.mp steps
      simp only [Slots.step] at enters
      split_ifs at enters
      cases enters
      apply accounts.enters
      · have runs := admits
        simp only [runAdmits, decide_eq_true_eq] at runs
        exact runs.2.1
      · exact .inr ⟨rfl, _, AList.lookup_insert _, rfl, admits⟩
      · exact fun x differs => AList.lookup_insert_ne differs
    · cases steps
      exact accounts
  | slot label =>
    cases label with
    | request id ask => cases steps
    | tick id =>
      obtain ⟨slots, enters, rfl⟩ := Option.map_eq_some_iff.mp steps
      simp only [Slots.step] at enters
      split at enters
      · split_ifs at enters
        cases enters
        apply accounts.enters
        · trivial
        · exact .inl ⟨rfl, AList.lookup_erase _ _⟩
        · exact fun x differs => AList.lookup_erase_ne differs
      · cases enters
    | task id label =>
      obtain ⟨slots, moves, rfl⟩ := Option.map_eq_some_iff.mp steps
      obtain ⟨task, found, moved⟩ := Option.bind_eq_some_iff.mp moves
      exact accounts.task found moved
    | driver run label =>
      obtain ⟨slots, moves, rfl⟩ := Option.map_eq_some_iff.mp steps
      simp only [Slots.step, driverStep] at moves
      split at moves
      · next driver r working known =>
        obtain ⟨next, -, rfl⟩ := Option.map_eq_some_iff.mp moves
        apply accounts.reports
        · rfl
        · simp only
          split_ifs
          · exact sameWindows_insert _ run r _ known rfl rfl
          · exact ⟨fun x r present => ⟨r, present, rfl, rfl⟩, fun x r present => ⟨r, present, rfl⟩⟩
      · cases moves
    | consume run offset =>
      obtain ⟨slots, moves, rfl⟩ := Option.map_eq_some_iff.mp steps
      simp only [Slots.step] at moves
      obtain ⟨r, known, rfl⟩ := Option.map_eq_some_iff.mp moves
      apply accounts.reports
      · rfl
      · exact sameWindows_insert _ run r _ known rfl rfl

theorem accounts_reached {allowed : System → Label → Prop} (reached : Reaches (machine limits) allowed s) :
    Accounts limits s := by
  apply Reaches.invariant (Accounts limits) _ _ reached
  · rintro state rfl
    constructor <;> (intro x entry present; cases present)
  · exact fun state label after accounts _ steps => accounts.step label steps

/-! Who was asked. -/

/-- Only the start of a run writes into the books. -/
theorem startedAfter_cases (label : Slots.Label) (after : Slots.System)
    (steps : Slots.step limits.config s.slots label = some after) :
    startedAfter s label = s.started ∨ ∃ (id run : Nat) (task : Task) (ask : Ask) (span : Span), label = .task id (.bind run) ∧
      s.slots.tasks.lookup id = some task ∧ startedAfter s label =
        s.started.insert run ⟨ask.need, ask.total - ask.start, span.stop - span.start, s.asked.lookup id⟩ := by
  unfold startedAfter
  split
  · next id run =>
    split
    · next ask span given =>
      obtain ⟨task, found, phase⟩ := Option.map_eq_some_iff.mp given
      exact .inr ⟨id, run, task, ask, span, rfl, found, rfl⟩
    · exact .inl rfl
  · exact .inl rfl

/-- Without a chained start every start had an admission. -/
theorem admitted_step {after : System} (label : Label) (accounts : Accounts limits s)
    (admitted : ∀ run started, s.started.lookup run = some started → started.admission ≠ none)
    (free : chains s label = false) (steps : RunAdmission.step limits s label = some after) (run : Nat) (started : Started)
    (present : after.started.lookup run = some started) : started.admission ≠ none := by
  cases label with
  | request id etag total frontier stop free =>
    simp only [RunAdmission.step, requestStep] at steps
    split_ifs at steps
    · obtain ⟨slots, -, rfl⟩ := Option.map_eq_some_iff.mp steps
      exact admitted run started present
    · cases steps
      exact admitted run started present
  | slot label =>
    have known : ∃ slots, Slots.step limits.config s.slots label = some slots ∧
        after = ⟨slots, askedAfter s label, startedAfter s label⟩ := by
      cases label with
      | request id ask => cases steps
      | _ =>
        obtain ⟨slots, moves, rfl⟩ := Option.map_eq_some_iff.mp steps
        exact ⟨slots, moves, rfl⟩
    obtain ⟨slots, moves, rfl⟩ := known
    rcases startedAfter_cases label slots moves with same | ⟨id, new, task, ask, span, rfl, found, written⟩
    · simp only [same] at present
      exact admitted run started present
    · simp only [written] at present
      by_cases here : run = new
      · subst here
        cases (AList.lookup_insert s.started).symm.trans present
        simp only [chains, found, Option.any_some] at free
        rcases accounts.vouched id task found with ⟨ticks, -⟩ | ⟨-, given, there, -⟩
        · rw [free] at ticks
          cases ticks
        · simp only [there]
          exact Option.some_ne_none given
      · exact admitted run started ((AList.lookup_insert_ne here).symm.trans present)

end Steps

/-- Every window, chained or not, is within what the request could have asked for, and
within the magazine. -/
theorem started_within (limits : Limits) (s : System) (reached : Reaches (machine limits) (fun _ _ => True) s)
    (run : Nat) (r : Run) (live : s.slots.runs.lookup run = some r) :
    ∃ started, s.started.lookup run = some started ∧ started.window = r.span.stop - r.span.start ∧
      started.window ≤ worstCaseBytes started.need started.remaining limits.config ∧
      started.window ≤ limits.maxSizeBytes := by
  have accounts := accounts_reached reached
  obtain ⟨started, present, window⟩ := accounts.books run r live
  have booked := accounts.booked run started present
  exact ⟨started, present, window, booked.worst, booked.kept⟩

/-- A chained start comes without an admission. -/
theorem chained_unadmitted (limits : Limits) (s after : System) (id run : Nat)
    (reached : Reaches (machine limits) (fun _ _ => True) s) (chained : chains s (.slot (.task id (.bind run))) = true)
    (steps : step limits s (.slot (.task id (.bind run))) = some after) :
    ∃ started, after.started.lookup run = some started ∧ started.admission = none := by
  have accounts := accounts_reached reached
  obtain ⟨task, found, ticks⟩ := (Option.any_eq_true _ _).mp chained
  obtain ⟨slots, moves, rfl⟩ := Option.map_eq_some_iff.mp steps
  obtain ⟨mover, same, moved⟩ := Option.bind_eq_some_iff.mp moves
  cases found.symm.trans same
  simp only [taskMove] at moved
  split at moved
  · next ask span phase =>
    refine ⟨⟨ask.need, ask.total - ask.start, span.stop - span.start, s.asked.lookup id⟩, ?_, ?_⟩
    · simp only [startedAfter, found, Option.map_some, phase]
      exact AList.lookup_insert _
    · rcases accounts.vouched id task found with ⟨-, none_⟩ | ⟨request, -⟩
      · exact none_
      · rw [request] at ticks
        cases ticks
  · cases moved

/-- In every run in which no tick starts a successor, every run that was started obeys
the admission of its own start. -/
theorem starts_admitted (limits : Limits) (s : System)
    (reached : Reaches (machine limits) (fun s label => chains s label = false) s) (run : Nat) (r : Run)
    (live : s.slots.runs.lookup run = some r) :
    ∃ started, s.started.lookup run = some started ∧ started.window = r.span.stop - r.span.start ∧
      Obeys limits started := by
  have held : Accounts limits s ∧ ∀ run started, s.started.lookup run = some started → started.admission ≠ none := by
    apply Reaches.invariant (fun s => Accounts limits s ∧
      ∀ run started, s.started.lookup run = some started → started.admission ≠ none) _ _ reached
    · rintro state begins
      refine ⟨accounts_reached (.start state begins : Reaches (machine limits) (fun _ _ => True) state), ?_⟩
      rw [show state = empty from begins]
      intro run started present
      cases present
    · exact fun state label after held free steps =>
        ⟨held.1.step label steps, admitted_step label held.1 held.2 free steps⟩
  obtain ⟨started, present, window⟩ := held.1.books run r live
  have booked := held.1.booked run started present
  obtain ⟨admission, given⟩ := Option.ne_none_iff_exists'.mp (held.2 run started present)
  exact ⟨started, present, window, booked.worst, booked.kept, admission, given, booked.admitted admission given⟩

/-! A disk with room for one window above the reserve. -/

def smallLimits : Limits := ⟨smallWindows, 8⟩

def oneWindowFree : Option Nat := some (diskReserveBytes + 4)

def startsAdmitted : List Label :=
  [.request 0 none 8 0 4 oneWindowFree, .slot (.task 0 .reserve), .slot (.task 0 (.permit true)), .slot (.task 0 (.bind 0)),
    .slot (.driver 0 (.opened true)), .slot (.driver 0 (.pumped true)), .slot (.driver 0 .sealed),
    .slot (.driver 0 .finish)]

theorem startsAdmitted_obeys : ∃ s r started,
    Reaches (machine smallLimits) (fun s label => chains s label = false) s ∧ s.slots.runs.lookup 0 = some r ∧
      s.started.lookup 0 = some started ∧ started.window = r.span.stop - r.span.start ∧ Obeys smallLimits started := by
  obtain ⟨s, reached, test⟩ := exists_reached (machine smallLimits) (fun s label => chains s label = false) startsAdmitted
    (show (machine smallLimits).initial empty from rfl) (fun s => (s.slots.runs.lookup 0).isSome) (by decide +kernel)
  obtain ⟨r, live⟩ := Option.isSome_iff_exists.mp test
  obtain ⟨started, present, window, obeys⟩ := starts_admitted smallLimits s reached 0 r live
  exact ⟨s, r, started, reached, live, present, window, obeys⟩

/-- The window is read, and a tick starts the next one. -/
def chainsOn : List Label :=
  startsAdmitted ++ [.slot (.consume 0 4), .slot (.tick 0), .slot (.task 0 (.decide true)), .slot (.task 0 .finish),
    .slot (.task 0 .reserve), .slot (.task 0 (.permit true)), .slot (.task 0 (.bind 1))]

/-- The second run was started with no admission at all. -/
theorem chainsOn_unadmitted : ∃ s started, Reaches (machine smallLimits) (fun _ _ => True) s ∧ 1 ∈ s.slots.runs ∧
    s.started.lookup 1 = some started ∧ started.window = 4 ∧ ¬Obeys smallLimits started := by
  obtain ⟨s, reached, test⟩ := exists_reached (machine smallLimits) (fun _ _ => True) chainsOn
    (show (machine smallLimits).initial empty from rfl)
    (fun s => decide (1 ∈ s.slots.runs) && decide (s.started.lookup 1 = some ⟨4, 4, 4, none⟩)) (by decide +kernel)
  obtain ⟨started, recorded⟩ := Bool.and_eq_true_iff.mp test
  refine ⟨s, _, reached, of_decide_eq_true started, of_decide_eq_true recorded, rfl, ?_⟩
  intro obeys
  obtain ⟨admission, given, -⟩ := obeys.admitted
  cases given

end OriginCache.Cache.RunAdmission
