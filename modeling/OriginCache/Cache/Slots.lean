import OriginCache.Cache.Sessions

/-! The life of one key's slot: the requests and ticks inside `Sessions::start`, each
of which can be cancelled where it waits if a request drives it, and the drivers,
which end, fail or panic. -/

namespace OriginCache.Cache.Slots
open Foundation.Tables Foundation.Runs SegName
open Sessions (Config Run Slot Behind behindOf windowFor runSpan)
open Transfers (Span)

/-- What `Sessions::start` is called with. -/
structure Ask where
  etag : Option Text
  total : Nat
  start : Nat
  need : Nat
  playheadSeed : Option Nat
deriving DecidableEq, Repr

/-- Where a caller of `Sessions::start` waits, and what a tick does around it. -/
inductive Phase
  | asking (ask : Ask)
  | permitWait (ask : Ask) (span : Option Span)
  | releasing
  | binding (ask : Ask) (span : Span)
  | collected (run : Nat)
  | finishing (run : Nat) (next : Option (Nat × Nat))
deriving DecidableEq, Repr

/-- Whether the slot's reservation is this caller's. -/
def Phase.holds : Phase → Bool
  | .permitWait _ _ => true
  | .releasing => true
  | .binding _ _ => true
  | _ => false

/-- Only a request's future is dropped; a tick runs to its end. -/
structure Task where
  tick : Bool
  phase : Phase
deriving DecidableEq, Repr

inductive Driver
  | opening | pumping | sealing | reporting
deriving DecidableEq, Repr

structure System where
  slot : Option Slot
  runs : Table Nat Run
  drivers : Table Nat Driver
  tasks : Table Nat Task

inductive DriverLabel
  | opened (ok : Bool)
  | pumped (ok : Bool)
  | sealed
  | finish
  | panic
deriving DecidableEq, Repr

inductive TaskLabel
  | decide (watched : Bool)
  | finish
  | reserve
  | permit (ok : Bool)
  | release
  | bind (run : Nat)
  | cancel
deriving DecidableEq, Repr

inductive Label
  | request (id : Nat) (ask : Ask)
  | tick (id : Nat)
  | task (id : Nat) (label : TaskLabel)
  | driver (run : Nat) (label : DriverLabel)
  | consume (run : Nat) (offset : Nat)
deriving DecidableEq, Repr

/-- The next phase of a driver; a driver that has reported sets its run's flag. -/
def driverMove (driver : Driver) : DriverLabel → Option (Option Driver)
  | .opened ok => if driver = .opening then some (some (if ok then .pumping else .reporting)) else none
  | .pumped ok => if driver = .pumping then some (some (if ok then .sealing else .reporting)) else none
  | .sealed => if driver = .sealing then some (some .reporting) else none
  | .finish => if driver = .reporting then some none else none
  | .panic => some none

def driverStep (s : System) (id : Nat) (label : DriverLabel) : Option System :=
  match s.drivers.lookup id, s.runs.lookup id with
  | some driver, some run =>
      (driverMove driver label).map fun next =>
        { s with
          drivers := replace s.drivers id next
          runs := if label = .finish then s.runs.insert id { run with finished := true } else s.runs }
  | _, _ => none

/-- The slot's first lock: a spent run, or one whose end is the new start, gives way. -/
def takeSlot (s : System) (start : Nat) : Option (Option Behind) :=
  match s.slot with
  | some (.live id) =>
      match s.runs.lookup id with
      | some run => if run.finished ∨ start = run.span.stop then some (behindOf start run) else none
      | none => none
  | some .starting => none
  | none => some none

/-- A caller goes on to this phase, or is through. -/
def goes (s : System) (id : Nat) (task : Task) (phase : Option Phase) : System :=
  { s with tasks := replace s.tasks id (phase.map fun phase => { task with phase := phase }) }

section Steps
variable (config : Config)

def taskMove (s : System) (id : Nat) (task : Task) : TaskLabel → Option System
  | .decide watched =>
      match task.phase with
      | .collected run =>
          (s.runs.lookup run).map fun spent =>
            goes s id task (some (.finishing run (spent.wantsSuccessor watched config)))
      | _ => none
  | .finish =>
      match task.phase with
      | .finishing run next =>
          (s.runs.lookup run).map fun spent =>
            goes { s with slot := if s.slot = some (.live run) then none else s.slot } id task
              (next.map fun (start, window) =>
                .asking ⟨spent.etag, spent.total, start, window, some spent.playhead⟩)
      | _ => none
  | .reserve =>
      match task.phase with
      | .asking ask =>
          match takeSlot s ask.start with
          | some behind =>
              some (goes { s with slot := some .starting } id task
                (some (.permitWait ask (runSpan config ask.start ask.need ask.total behind))))
          | none => some (goes s id task none)
      | _ => none
  | .permit ok =>
      match task.phase with
      | .permitWait ask (some span) =>
          some (goes s id task (some (if ok then .binding ask span else .releasing)))
      | .permitWait _ none => if ok then none else some (goes s id task (some .releasing))
      | _ => none
  | .release =>
      if task.phase = .releasing then
        some (goes { s with slot := if s.slot = some .starting then none else s.slot } id task none)
      else none
  | .bind run =>
      match task.phase with
      | .binding ask span =>
          if run ∈ s.runs then none
          else
            some (goes { s with
              slot := some (.live run)
              runs := s.runs.insert run
                ⟨span, ask.etag, ask.total, ask.playheadSeed.getD span.start, false, false⟩
              drivers := s.drivers.insert run .opening } id task none)
      | _ => none
  | .cancel => if task.tick then none else some (goes s id task none)

def step (s : System) : Label → Option System
  | .request id ask =>
      if id ∈ s.tasks then none else some { s with tasks := s.tasks.insert id ⟨false, .asking ask⟩ }
  | .tick id =>
      match s.slot with
      | some (.live run) =>
          if id ∉ s.tasks ∧ (s.runs.lookup run).any Run.finished then
            some { s with tasks := s.tasks.insert id ⟨true, .collected run⟩ }
          else none
      | _ => none
  | .task id label => (s.tasks.lookup id).bind fun task => taskMove config s id task label
  | .driver run label => driverStep s run label
  | .consume id offset =>
      (s.runs.lookup id).map fun run =>
        { s with runs := s.runs.insert id { run with playhead := max run.playhead offset } }

def empty : System := ⟨none, ∅, ∅, ∅⟩

def machine : Machine System Label := ⟨fun s => s = empty, step config⟩

/-- No task of the key is running. -/
def quiescent (s : System) : Bool := s.tasks.entries.isEmpty && s.drivers.entries.isEmpty

/-- A caller that wins the slot and gets its permit. -/
def starts (id run : Nat) (ask : Ask) : List Label :=
  [.request id ask, .task id .reserve, .task id (.permit true), .task id (.bind run)]

/-- A slot that no task works on is free or has a spent run, and a later request
takes it. -/
structure Restartable (s : System) : Prop where
  settled : quiescent s = true →
    s.slot = none ∨ ∃ run r, s.slot = some (.live run) ∧ s.runs.lookup run = some r ∧ r.finished = true
  restarts : quiescent s = true → ∀ id run ask, run ∉ s.runs → ask.start < ask.total → 0 < ask.need →
    ask.total < 2 ^ 64 → ∃ after, follow (machine config) (fun _ _ => True) s (starts id run ask) = some after ∧
      after.slot = some (.live run) ∧ (after.runs.lookup run).map (·.span.start) = some ask.start

/-- A future dropped while it holds the reservation, or a panic in the driver of the
slot's run. -/
def abandons (s : System) : Label → Bool
  | .task id .cancel => (s.tasks.lookup id).any fun task => task.phase.holds
  | .driver run .panic => s.slot = some (.live run)
  | _ => false

end Steps

/-! The invariant: a reservation has a caller that will resolve it, and a live run
has a driver that will finish it. -/

structure Kept (s : System) : Prop where
  reserved : s.slot = some .starting → ∃ id task, s.tasks.lookup id = some task ∧ task.phase.holds = true
  live : ∀ run, s.slot = some (.live run) →
    ∃ r, s.runs.lookup run = some r ∧ (r.finished = true ∨ run ∈ s.drivers)

theorem kept_empty : Kept empty := ⟨nofun, nofun⟩

theorem kept_goes (s : System) (id : Nat) (task : Task) (phase : Option Phase) (slot : Option Slot)
    (kept : Kept s)
    (resolves : slot = none ∨ (phase.any Phase.holds = true ∧ (slot = some .starting ∨ slot = s.slot)) ∨
      (slot = s.slot ∧ (task.phase.holds = false ∨ slot ≠ some .starting)))
    (found : s.tasks.lookup id = some task) : Kept (goes { s with slot := slot } id task phase) := by
  apply Kept.mk
  · intro reserved
    rcases resolves with free | ⟨mine, -⟩ | ⟨same, other⟩
    · rw [show slot = some .starting from reserved] at free
      cases free
    · obtain ⟨next, present, holds⟩ := (Option.any_eq_true _ _).mp mine
      subst present
      exact ⟨id, { task with phase := next }, lookup_replace _ _ _, holds⟩
    · obtain ⟨x, holder, present, holds⟩ := kept.reserved (same.symm.trans reserved)
      have differs : x ≠ id := by
        intro equal
        subst equal
        rw [found] at present
        cases present
        rcases other with idle | free
        · rw [holds] at idle
          cases idle
        · exact free reserved
      refine ⟨x, holder, ?_, holds⟩
      change (replace s.tasks id _).lookup x = some holder
      rw [lookup_replace_ne _ _ differs, present]
  · intro run live
    have before : s.slot = some (.live run) := by
      change slot = some (.live run) at live
      rcases resolves with free | ⟨-, starting | same⟩ | ⟨same, -⟩
      · rw [live] at free
        cases free
      · rw [live] at starting
        cases starting
      · exact same.symm.trans live
      · exact same.symm.trans live
    exact kept.live run before

theorem kept_bind (s : System) (id run : Nat) (task : Task) (started : Run) :
    Kept (goes { s with
      slot := some (.live run), runs := s.runs.insert run started, drivers := s.drivers.insert run .opening }
      id task none) := by
  apply Kept.mk
  · nofun
  · intro other live
    cases live
    exact ⟨started, AList.lookup_insert _, Or.inr (AList.mem_insert _ |>.mpr (Or.inl rfl))⟩

theorem kept_task (config : Config) (s after : System) (id : Nat) (task : Task) (label : TaskLabel)
    (kept : Kept s) (found : s.tasks.lookup id = some task)
    (resolved : abandons s (.task id label) = false)
    (moves : taskMove config s id task label = some after) : Kept after := by
  cases label with
  | decide watched =>
    simp only [taskMove] at moves
    split at moves
    · next run phase =>
      obtain ⟨spent, -, rfl⟩ := Option.map_eq_some_iff.mp moves
      exact kept_goes s id task _ s.slot kept (Or.inr (Or.inr ⟨rfl, Or.inl (by rw [phase]; rfl)⟩)) found
    · cases moves
  | finish =>
    simp only [taskMove] at moves
    split at moves
    · next run next phase =>
      obtain ⟨spent, -, rfl⟩ := Option.map_eq_some_iff.mp moves
      have idle : task.phase.holds = false := by rw [phase]; rfl
      apply kept_goes s id task _ _ kept _ found
      by_cases current : s.slot = some (.live run)
      · exact Or.inl (if_pos current)
      · exact Or.inr (Or.inr ⟨if_neg current, Or.inl idle⟩)
    · cases moves
  | reserve =>
    simp only [taskMove] at moves
    split at moves
    · next ask phase =>
      split at moves
      · cases moves
        exact kept_goes s id task _ _ kept (Or.inr (Or.inl ⟨rfl, Or.inl rfl⟩)) found
      · cases moves
        exact kept_goes s id task _ s.slot kept (Or.inr (Or.inr ⟨rfl, Or.inl (by rw [phase]; rfl)⟩)) found
    · cases moves
  | permit ok =>
    simp only [taskMove] at moves
    split at moves
    · cases moves
      refine kept_goes s id task _ s.slot kept (Or.inr (Or.inl ⟨?_, Or.inr rfl⟩)) found
      cases ok <;> rfl
    · split_ifs at moves
      cases moves
      exact kept_goes s id task _ s.slot kept (Or.inr (Or.inl ⟨rfl, Or.inr rfl⟩)) found
    · cases moves
  | release =>
    simp only [taskMove] at moves
    split_ifs at moves with phase starting
    · cases moves
      exact kept_goes s id task none none kept (Or.inl rfl) found
    · cases moves
      exact kept_goes s id task none s.slot kept (Or.inr (Or.inr ⟨rfl, Or.inr starting⟩)) found
  | bind run =>
    simp only [taskMove] at moves
    split at moves
    · split_ifs at moves
      cases moves
      exact kept_bind s id run task _
    · cases moves
  | cancel =>
    simp only [taskMove] at moves
    split_ifs at moves
    cases moves
    have idle : task.phase.holds = false := by
      simp only [abandons, found, Option.any_some] at resolved
      exact resolved
    exact kept_goes s id task none s.slot kept (Or.inr (Or.inr ⟨rfl, Or.inl idle⟩)) found

theorem kept_driver (s after : System) (id : Nat) (label : DriverLabel) (kept : Kept s)
    (resolved : abandons s (.driver id label) = false) (steps : driverStep s id label = some after) :
    Kept after := by
  unfold driverStep at steps
  split at steps
  · next driver run working found =>
    obtain ⟨next, moves, same⟩ := Option.map_eq_some_iff.mp steps
    subst same
    refine ⟨kept.reserved, fun x live => ?_⟩
    obtain ⟨r, present, ends⟩ := kept.live x live
    by_cases mine : x = id
    · subst mine
      rw [found] at present
      cases present
      by_cases finishes : label = .finish
      · exact ⟨_, by rw [if_pos finishes]; exact AList.lookup_insert _, Or.inl rfl⟩
      · refine ⟨run, by rw [if_neg finishes]; exact found, ?_⟩
        rcases ends with finished | driven
        · exact Or.inl finished
        · right
          have continues : ∃ d, next = some d := by
            cases label with
            | finish => exact (finishes rfl).elim
            | panic =>
              simp only [abandons, decide_eq_false_iff_not] at resolved
              exact (resolved live).elim
            | opened ok =>
              simp only [driverMove] at moves
              split_ifs at moves
              all_goals exact ⟨_, (Option.some.inj moves).symm⟩
            | pumped ok =>
              simp only [driverMove] at moves
              split_ifs at moves
              all_goals exact ⟨_, (Option.some.inj moves).symm⟩
            | sealed =>
              simp only [driverMove] at moves
              split_ifs at moves
              exact ⟨_, (Option.some.inj moves).symm⟩
          obtain ⟨d, rfl⟩ := continues
          exact lookup_mem _ _ d (lookup_replace s.drivers x (some d))
    · have others : (if label = .finish then s.runs.insert id { run with finished := true } else s.runs).lookup x =
          s.runs.lookup x := by
        split_ifs
        · exact AList.lookup_insert_ne mine
        · rfl
      refine ⟨r, others.trans present, ends.imp_right fun driven => ?_⟩
      obtain ⟨d, working⟩ := Option.isSome_iff_exists.mp (AList.lookup_isSome.mpr driven)
      exact lookup_mem _ _ d ((lookup_replace_ne s.drivers next mine).trans working)
  · cases steps

theorem kept_step (config : Config) (s after : System) (label : Label) (kept : Kept s)
    (resolved : abandons s label = false) (steps : step config s label = some after) : Kept after := by
  have joins : ∀ id task, id ∉ s.tasks → Kept { s with tasks := s.tasks.insert id task } := by
    intro id task fresh
    refine ⟨fun reserved => ?_, kept.live⟩
    obtain ⟨x, holder, present, holds⟩ := kept.reserved reserved
    have differs : x ≠ id := fun same => fresh (same ▸ lookup_mem _ _ _ present)
    exact ⟨x, holder, (AList.lookup_insert_ne differs).trans present, holds⟩
  cases label with
  | request id ask =>
    simp only [step] at steps
    split_ifs at steps with known
    cases steps
    exact joins id _ known
  | tick id =>
    simp only [step] at steps
    split at steps
    · split_ifs at steps with spent
      cases steps
      exact joins id _ spent.1
    · cases steps
  | task id label =>
    obtain ⟨task, found, moves⟩ := Option.bind_eq_some_iff.mp steps
    exact kept_task config s after id task label kept found resolved moves
  | driver run label => exact kept_driver s after run label kept resolved steps
  | consume id offset =>
    obtain ⟨run, found, rfl⟩ := Option.map_eq_some_iff.mp steps
    refine ⟨kept.reserved, fun x live => ?_⟩
    obtain ⟨r, present, ends⟩ := kept.live x live
    by_cases mine : x = id
    · subst mine
      rw [found] at present
      cases present
      exact ⟨_, AList.lookup_insert _, ends⟩
    · exact ⟨r, (AList.lookup_insert_ne mine).trans present, ends⟩

/-! The slot of a key that nobody works on. -/

theorem not_mem_of_isEmpty {ν : Type} (table : Table Nat ν) (none_ : table.entries.isEmpty = true) (id : Nat) :
    id ∉ table := by
  rw [List.isEmpty_iff] at none_
  rw [AList.mem_keys, AList.keys, none_]
  exact List.not_mem_nil

theorem settled_of_kept (s : System) (kept : Kept s) (quiet : quiescent s = true) :
    s.slot = none ∨ ∃ run r, s.slot = some (.live run) ∧ s.runs.lookup run = some r ∧ r.finished = true := by
  obtain ⟨tasks, drivers⟩ := Bool.and_eq_true_iff.mp quiet
  cases slot : s.slot with
  | none => exact Or.inl rfl
  | some taken =>
    right
    cases taken with
    | starting =>
      obtain ⟨id, task, found, -⟩ := kept.reserved slot
      exact (not_mem_of_isEmpty s.tasks tasks id (lookup_mem _ _ _ found)).elim
    | live run =>
      obtain ⟨r, found, ends⟩ := kept.live run slot
      exact ⟨run, r, rfl, found, ends.resolve_right (not_mem_of_isEmpty s.drivers drivers run)⟩

/-- A window that somebody needs a byte of is not empty. -/
theorem runSpan_some (config : Config) (start need total : Nat) (behind : Option Behind) (inside : start < total)
    (needs : 0 < need) (bound : total < 2 ^ 64) :
    ∃ span, runSpan config start need total behind = some span ∧ span.start = start := by
  have window : 0 < windowFor need (total - start) config behind := by
    unfold windowFor
    apply Nat.lt_min.mpr
    exact ⟨Nat.lt_of_lt_of_le needs (Nat.le_max_left _ _), by omega⟩
  have range : start < min (start + windowFor need (total - start) config behind) total ∧
      min (start + windowFor need (total - start) config behind) total < 2 ^ 64 := by
    omega
  exact ⟨_, dif_pos range, rfl⟩

theorem takeSlot_settled (s : System) (start : Nat)
    (settled : s.slot = none ∨
      ∃ run r, s.slot = some (.live run) ∧ s.runs.lookup run = some r ∧ r.finished = true) :
    ∃ behind, takeSlot s start = some behind := by
  unfold takeSlot
  rcases settled with free | ⟨run, r, live, found, finished⟩
  · rw [free]
    exact ⟨none, rfl⟩
  · rw [live]
    simp only [found]
    exact ⟨_, if_pos (Or.inl finished)⟩

/-- From a slot that gives way, a caller that is alone gets its run. -/
theorem starts_run (config : Config) (s : System) (id run : Nat) (ask : Ask) (behind : Option Behind) (span : Span)
    (unknown : id ∉ s.tasks) (fresh : run ∉ s.runs) (takes : takeSlot s ask.start = some behind)
    (window : runSpan config ask.start ask.need ask.total behind = some span) :
    ∃ after, follow (machine config) (fun _ _ => True) s (starts id run ask) = some after ∧
      after.slot = some (.live run) ∧ (after.runs.lookup run).map (·.span.start) = some span.start := by
  let asked : System := { s with tasks := s.tasks.insert id ⟨false, .asking ask⟩ }
  let reserved : System :=
    goes { asked with slot := some .starting } id ⟨false, .asking ask⟩ (some (.permitWait ask (some span)))
  let permitted : System := goes reserved id ⟨false, .permitWait ask (some span)⟩ (some (.binding ask span))
  have asks : (machine config).step s (.request id ask) = some asked := if_neg unknown
  have reserves : (machine config).step asked (.task id .reserve) = some reserved := by
    have same : takeSlot asked ask.start = some behind := takes
    change (asked.tasks.lookup id).bind _ = _
    rw [AList.lookup_insert]
    simp only [Option.bind_some, taskMove, same, window]
    rfl
  have permits : (machine config).step reserved (.task id (.permit true)) = some permitted := by
    change (reserved.tasks.lookup id).bind _ = _
    rw [show reserved.tasks.lookup id = some ⟨false, .permitWait ask (some span)⟩ from lookup_replace _ _ _]
    rfl
  have binds : ∃ after, (machine config).step permitted (.task id (.bind run)) = some after ∧
      after.slot = some (.live run) ∧ (after.runs.lookup run).map (·.span.start) = some span.start := by
    change ∃ after, (permitted.tasks.lookup id).bind _ = some after ∧ _
    rw [show permitted.tasks.lookup id = some ⟨false, .binding ask span⟩ from lookup_replace _ _ _]
    refine ⟨_, if_neg fresh, rfl, ?_⟩
    simp only [goes, AList.lookup_insert, Option.map_some]
  obtain ⟨after, binds, slot, begins⟩ := binds
  refine ⟨after, ?_, slot, begins⟩
  rw [starts, follow_cons _ asks, follow_cons _ reserves, follow_cons _ permits, follow_cons _ binds]
  rfl

theorem restartable_of_kept (config : Config) (s : System) (kept : Kept s) : Restartable config s := by
  refine ⟨settled_of_kept s kept, fun quiet id run ask fresh inside needs bound => ?_⟩
  have unknown : id ∉ s.tasks := not_mem_of_isEmpty s.tasks (Bool.and_eq_true_iff.mp quiet).1 id
  obtain ⟨behind, takes⟩ := takeSlot_settled s ask.start (settled_of_kept s kept quiet)
  obtain ⟨span, window, begins⟩ := runSpan_some config ask.start ask.need ask.total behind inside needs bound
  rw [← begins]
  exact starts_run config s id run ask behind span unknown fresh takes window

/-- In every run in which no caller is dropped while it holds the reservation and the
driver of the slot's run does not panic, a slot that no task works on can be taken. -/
theorem slots_restartable (config : Config) (s : System)
    (reached : Reaches (machine config) (fun s label => abandons s label = false) s) : Restartable config s := by
  apply restartable_of_kept config s
  apply Reaches.invariant Kept _ _ reached
  · intro state begins
    rw [show state = empty from begins]
    exact kept_empty
  · exact fun state label after kept resolved steps => kept_step config state after label kept resolved steps

def smallWindows : Config := ⟨4, 4⟩

/-- A request for the first four bytes of eight. -/
def firstBytes : Ask := ⟨none, 8, 0, 4, none⟩

/-- One window is sealed; a second request is dropped before it reserves anything,
and another is refused while the run is live. -/
def sealedWindow : List Label :=
  starts 0 0 firstBytes ++ [.request 1 firstBytes, .task 1 .cancel, .request 2 ⟨none, 8, 6, 2, none⟩, .task 2 .reserve,
    .driver 0 (.opened true), .driver 0 (.pumped true), .driver 0 .sealed, .driver 0 .finish]

theorem sealedWindow_restartable : ∃ s,
    Reaches (machine smallWindows) (fun s label => abandons s label = false) s ∧ quiescent s = true ∧
      s.slot = some (.live 0) ∧ Restartable smallWindows s := by
  obtain ⟨s, reached, test⟩ := exists_reached (machine smallWindows) (fun s label => abandons s label = false)
    sealedWindow (show (machine smallWindows).initial empty from rfl)
    (fun s => quiescent s && decide (s.slot = some (.live 0))) (by decide)
  obtain ⟨quiet, live⟩ := Bool.and_eq_true_iff.mp test
  exact ⟨s, reached, quiet, of_decide_eq_true live, slots_restartable smallWindows s reached⟩

/-- The request is dropped while it waits for its permit. -/
def droppedWaiting : List Label := [.request 0 firstBytes, .task 0 .reserve, .task 0 .cancel]

/-- The driver panics while it pumps. -/
def panicked : List Label := starts 0 0 firstBytes ++ [.driver 0 (.opened true), .driver 0 .panic]

/-- No task is left in either run; the slot is reserved for nobody in the one, and
has a run that nobody will finish in the other. -/
theorem abandoned_slots :
    (∃ s, Reaches (machine smallWindows) (fun _ _ => True) s ∧ quiescent s = true ∧ s.slot = some .starting ∧
      ¬ Restartable smallWindows s) ∧
    ∃ s, Reaches (machine smallWindows) (fun _ _ => True) s ∧ quiescent s = true ∧ s.slot = some (.live 0) ∧
      (s.runs.lookup 0).map (·.finished) = some false ∧ ¬ Restartable smallWindows s := by
  apply And.intro
  · obtain ⟨s, reached, test⟩ := exists_reached (machine smallWindows) (fun _ _ => True) droppedWaiting
      (show (machine smallWindows).initial empty from rfl)
      (fun s => quiescent s && decide (s.slot = some .starting)) (by decide)
    obtain ⟨quiet, starting⟩ := Bool.and_eq_true_iff.mp test
    have held := of_decide_eq_true starting
    refine ⟨s, reached, quiet, held, fun restartable => ?_⟩
    rcases restartable.settled quiet with free | ⟨run, r, live, -⟩
    · rw [held] at free
      cases free
    · rw [held] at live
      cases live
  · obtain ⟨s, reached, test⟩ := exists_reached (machine smallWindows) (fun _ _ => True) panicked
      (show (machine smallWindows).initial empty from rfl)
      (fun s => quiescent s && (decide (s.slot = some (.live 0)) &&
        decide ((s.runs.lookup 0).map (·.finished) = some false))) (by decide)
    obtain ⟨quiet, rest⟩ := Bool.and_eq_true_iff.mp test
    obtain ⟨live, unfinished⟩ := Bool.and_eq_true_iff.mp rest
    have held := of_decide_eq_true live
    have open_ := of_decide_eq_true unfinished
    refine ⟨s, reached, quiet, held, open_, fun restartable => ?_⟩
    rcases restartable.settled quiet with free | ⟨run, r, other, found, finished⟩
    · rw [held] at free
      cases free
    · rw [held] at other
      cases other
      rw [found] at open_
      rw [Option.map_some, finished] at open_
      cases open_

end OriginCache.Cache.Slots
