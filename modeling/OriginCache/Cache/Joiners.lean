import OriginCache.Cache.DiskHit
import OriginCache.Cache.Following

/-! Requests that join a whole-file download. A joiner subscribes, looks at the one
stored value, and answers from it or waits for the next. -/

namespace OriginCache.Cache.Joiners
open Foundation.Tables Foundation.Runs Foundation.Watch Flight
open DiskHit (ByteRange resolveRange)

/-- What a look leads to. A growing body has its first byte and its length, which a
request without a range leaves open. -/
inductive Answer
  | streams (start : Nat) (len : Option Nat) (contentLength : Nat)
  | rangeNotSatisfiable
  | fromDisk
  | staleOrRefused
  | waits
deriving DecidableEq, Repr

structure Join where
  range : Option ByteRange
  timely : Bool
  answer : Option Answer
deriving DecidableEq, Repr

structure State where
  flight : Flight.State
  published : Bool
  joins : Table Nat Join

inductive Label
  | driver (label : DriverLabel)
  | join (id : Nat) (range : Option ByteRange)
  | look (id : Nat)
  | leave (id : Nat)
  | follow (id : Nat) (label : ReaderLabel)
deriving DecidableEq, Repr

/-- The answer from the metadata of an object of this size. -/
def fromMeta (size : Nat) (range : Option ByteRange) : Answer :=
  match range with
  | none => .streams 0 none size
  | some r =>
      match resolveRange (some r) size with
      | none => .rangeNotSatisfiable
      | some (start, stop) => .streams start (some (stop - start)) (stop - start)

/-- One turn of the loop of `await_flight`. -/
def awaitFlight (size : Nat) (range : Option ByteRange) : Progress → Answer
  | .announced => fromMeta size range
  | .done => .fromDisk
  | .failed _ => .staleOrRefused
  | _ => .waits

/-- Where the body will start, and how long it will be. -/
def bodySpan (size : Nat) (range : Option ByteRange) : Nat × Option Nat :=
  match fromMeta size range with
  | .streams start len _ => (start, len)
  | _ => (0, none)

/-- The metadata has been published and no outcome has. -/
def inFlight (s : State) : Bool := s.published && s.flight.reported.isNone

/-- Whether a request still has to look. -/
def looksNext (s : State) (id : Nat) : Bool := (s.flight.readers.lookup id).any fun r => r.phase = .heading

/-- A request that is refused for its range has no body. -/
def dismiss (s : Flight.State) (id : Nat) : Answer → Flight.State
  | .rangeNotSatisfiable => { s with readers := s.readers.erase id, channel := s.channel.leave id }
  | _ => s

def step (size : Nat) (promised : Option Nat) (s : State) : Label → Option State
  | .driver label =>
      (driverStep .flight promised s.flight label).map fun flight =>
        { s with flight := flight, published := s.published || label = .announce true }
  | .join id range =>
      (readerStep .flight s.flight id (.attach (bodySpan size range).1 (bodySpan size range).2)).map
        fun flight => { s with flight := flight, joins := s.joins.insert id ⟨range, inFlight s, none⟩ }
  | .look id =>
      match s.joins.lookup id with
      | none => none
      | some j =>
          if looksNext s id then
            (readerStep .flight s.flight id .act).map fun flight =>
              let answer := awaitFlight size j.range s.flight.channel.value
              { s with flight := dismiss flight id answer, joins := s.joins.insert id { j with answer := some answer } }
          else none
  | .leave id =>
      (readerStep .flight s.flight id .drop).map fun flight =>
        { s with flight := flight, joins := s.joins.erase id }
  | .follow id label =>
      if looksNext s id then none
      else (takeTurn s.flight id label).map fun flight => { s with flight := flight }

def machine (size : Nat) (promised : Option Nat) : Machine State Label :=
  ⟨fun s => s = ⟨begin, false, ∅⟩, step size promised⟩

/-- A request that joined between the metadata and the outcome can look at once, and
the first look gives it what the metadata says. -/
structure Prompt (size : Nat) (promised : Option Nat) (s : State) : Prop where
  looks : ∀ id j, s.joins.lookup id = some j → j.answer = none →
    ∃ after, step size promised s (.look id) = some after
  answers : ∀ id j answer, s.joins.lookup id = some j → j.timely = true → j.answer = some answer →
    answer = fromMeta size j.range

/-- A look of a timely joiner that does not find the metadata stored. -/
def overtaken (s : State) : Label → Bool
  | .look id =>
      (s.joins.lookup id).any fun j => j.timely && decide (s.flight.channel.value ≠ .announced)
  | _ => false

theorem awaitFlight_fromMeta (size : Nat) (range : Option ByteRange) (stored : Progress) :
    awaitFlight size range stored = fromMeta size range ↔ stored = .announced := by
  have offers : ∀ answer, fromMeta size range = answer →
      answer ≠ .fromDisk ∧ answer ≠ .staleOrRefused ∧ answer ≠ .waits := by
    intro answer same
    subst same
    unfold fromMeta
    repeat' split
    all_goals exact ⟨nofun, nofun, nofun⟩
  obtain ⟨disk, stale, waits⟩ := offers _ rfl
  cases stored with
  | announced => exact ⟨fun _ => rfl, fun _ => rfl⟩
  | pending => exact ⟨fun same => (waits same.symm).elim, nofun⟩
  | growing written => exact ⟨fun same => (waits same.symm).elim, nofun⟩
  | done => exact ⟨fun same => (disk same.symm).elim, nofun⟩
  | failed reason => exact ⟨fun same => (stale same.symm).elim, nofun⟩

/-! The invariant: a joiner without an answer is at the top of its loop. -/

structure Heads (s : State) : Prop where
  heading : ∀ id j, s.joins.lookup id = some j → j.answer = none → looksNext s id = true

theorem looksNext_iff (s : State) (id : Nat) :
    looksNext s id = true ↔ ∃ r, s.flight.readers.lookup id = some r ∧ r.phase = .heading := by
  unfold looksNext
  rw [Option.any_eq_true]
  apply Iff.intro
  · rintro ⟨r, found, heading⟩
    exact ⟨r, found, of_decide_eq_true heading⟩
  · rintro ⟨r, found, heading⟩
    exact ⟨r, found, decide_eq_true heading⟩

/-- A joiner at the top of its loop can look. -/
theorem look_enabled (size : Nat) (promised : Option Nat) (s : State) (id : Nat) (j : Join)
    (found : s.joins.lookup id = some j) (next : looksNext s id = true) :
    ∃ after, step size promised s (.look id) = some after := by
  obtain ⟨r, present, heading⟩ := (looksNext_iff s id).mp next
  have acts : ∃ r', act s.flight r = some r' := by
    unfold act
    rw [heading]
    cases s.flight.channel.value <;> exact ⟨_, rfl⟩
  obtain ⟨r', acts⟩ := acts
  simp only [step, found, next, if_true, readerStep, takeTurn, present, move, acts, Option.map_some]
  exact ⟨_, rfl⟩

/-- The joins a step leaves, and the readers of the requests it is not about. -/
structure Turned (size : Nat) (s after : State) (subject : Option Nat) (entry : Option Join) : Prop where
  mine : ∀ id, subject = some id → after.joins.lookup id = entry
  others : ∀ x, subject ≠ some x → after.joins.lookup x = s.joins.lookup x
  readers : ∀ x, subject ≠ some x → after.flight.readers.lookup x = s.flight.readers.lookup x

theorem turned_driver (size : Nat) (promised : Option Nat) (s after : State) (label : DriverLabel)
    (steps : step size promised s (.driver label) = some after) : Turned size s after none none := by
  obtain ⟨flight, moves, same⟩ := Option.map_eq_some_iff.mp steps
  subst same
  refine ⟨nofun, fun _ _ => rfl, fun x _ => ?_⟩
  rw [(driver_cases .flight promised s.flight flight label moves).1]

theorem turned_join (size : Nat) (promised : Option Nat) (s after : State) (id : Nat)
    (range : Option ByteRange) (steps : step size promised s (.join id range) = some after) :
    Turned size s after (some id) (some ⟨range, inFlight s, none⟩) ∧ looksNext after id = true := by
  obtain ⟨flight, moves, same⟩ := Option.map_eq_some_iff.mp steps
  subst same
  simp only [readerStep] at moves
  split_ifs at moves with fresh
  cases moves
  refine ⟨⟨?_, ?_, ?_⟩, ?_⟩
  · intro x mine
    rw [Option.some.inj mine]
    exact AList.lookup_insert _
  · exact fun x differs => AList.lookup_insert_ne fun equal => differs (congrArg some equal.symm)
  · exact fun x differs => AList.lookup_insert_ne fun equal => differs (congrArg some equal.symm)
  · exact (looksNext_iff _ id).mpr ⟨_, AList.lookup_insert _, rfl⟩

theorem turned_look (size : Nat) (promised : Option Nat) (s after : State) (id : Nat)
    (steps : step size promised s (.look id) = some after) :
    ∃ j, s.joins.lookup id = some j ∧ Turned size s after (some id)
      (some { j with answer := some (awaitFlight size j.range s.flight.channel.value) }) := by
  simp only [step] at steps
  cases found : s.joins.lookup id with
  | none =>
    rw [found] at steps
    cases steps
  | some j =>
    rw [found] at steps
    simp only at steps
    split_ifs at steps
    obtain ⟨flight, moves, same⟩ := Option.map_eq_some_iff.mp steps
    subst same
    obtain ⟨r, r', -, -, turned⟩ := takeTurn_cases s.flight flight id .act moves
    refine ⟨j, rfl, ?_, ?_, ?_⟩
    · intro x mine
      rw [Option.some.inj mine]
      exact AList.lookup_insert _
    · exact fun x differs => AList.lookup_insert_ne fun equal => differs (congrArg some equal.symm)
    · intro x differs
      have other : x ≠ id := fun equal => differs (congrArg some equal.symm)
      have kept : flight.readers.lookup x = s.flight.readers.lookup x := by
        rw [turned]
        exact AList.lookup_insert_ne other
      simp only [dismiss]
      split
      · rw [AList.lookup_erase_ne other, kept]
      · exact kept

theorem turned_leave (size : Nat) (promised : Option Nat) (s after : State) (id : Nat)
    (steps : step size promised s (.leave id) = some after) : Turned size s after (some id) none := by
  obtain ⟨flight, moves, same⟩ := Option.map_eq_some_iff.mp steps
  subst same
  simp only [readerStep] at moves
  split_ifs at moves
  cases moves
  refine ⟨?_, ?_, ?_⟩
  · intro x mine
    rw [← Option.some.inj mine]
    exact AList.lookup_erase _ _
  · exact fun x differs => AList.lookup_erase_ne fun equal => differs (congrArg some equal.symm)
  · exact fun x differs => AList.lookup_erase_ne fun equal => differs (congrArg some equal.symm)

/-- A body's own steps are those of a request that does not look. -/
theorem turned_follow (size : Nat) (promised : Option Nat) (s after : State) (id : Nat) (label : ReaderLabel)
    (steps : step size promised s (.follow id label) = some after) :
    looksNext s id = false ∧ Turned size s after (some id) (s.joins.lookup id) := by
  simp only [step] at steps
  split_ifs at steps with looking
  obtain ⟨flight, moves, same⟩ := Option.map_eq_some_iff.mp steps
  subst same
  obtain ⟨r, r', -, -, turned⟩ := takeTurn_cases s.flight flight id label moves
  refine ⟨by simpa using looking, ?_, fun _ _ => rfl, ?_⟩
  · intro x mine
    rw [← Option.some.inj mine]
  · intro x differs
    rw [turned]
    exact AList.lookup_insert_ne fun equal => differs (congrArg some equal.symm)

theorem looksNext_congr (s after : State) (x : Nat)
    (same : after.flight.readers.lookup x = s.flight.readers.lookup x) : looksNext after x = looksNext s x := by
  unfold looksNext
  rw [same]

/-- A step keeps the joiners it is not about; so the one it is about decides. -/
theorem heads_turned (size : Nat) (s after : State) (subject : Option Nat) (entry : Option Join) (heads : Heads s)
    (turned : Turned size s after subject entry)
    (own : ∀ id j, subject = some id → entry = some j → j.answer = none → looksNext after id = true) :
    Heads after := by
  apply Heads.mk
  intro x j found unanswered
  by_cases mine : subject = some x
  · rw [turned.mine x mine] at found
    exact own x j mine found unanswered
  · rw [turned.others x mine] at found
    rw [looksNext_congr s after x (turned.readers x mine)]
    exact heads.heading x j found unanswered

theorem heads_step (size : Nat) (promised : Option Nat) (s after : State) (label : Label) (heads : Heads s)
    (steps : step size promised s label = some after) : Heads after := by
  cases label with
  | driver label =>
    apply heads_turned size s after none none heads (turned_driver size promised s after label steps)
    nofun
  | join id range =>
    obtain ⟨turned, looking⟩ := turned_join size promised s after id range steps
    apply heads_turned size s after _ _ heads turned
    intro x j mine _ _
    rw [← Option.some.inj mine]
    exact looking
  | look id =>
    obtain ⟨j, found, turned⟩ := turned_look size promised s after id steps
    apply heads_turned size s after _ _ heads turned
    intro x entry _ answered unanswered
    rw [← Option.some.inj answered] at unanswered
    cases unanswered
  | leave id =>
    apply heads_turned size s after _ _ heads (turned_leave size promised s after id steps)
    nofun
  | follow id label =>
    obtain ⟨quiet, turned⟩ := turned_follow size promised s after id label steps
    apply heads_turned size s after _ _ heads turned
    intro x j mine found unanswered
    cases mine
    rw [heads.heading id j found unanswered] at quiet
    cases quiet

theorem answers_turned (size : Nat) (s after : State) (subject : Option Nat) (entry : Option Join)
    (before : ∀ id j answer, s.joins.lookup id = some j → j.timely = true → j.answer = some answer →
      answer = fromMeta size j.range)
    (turned : Turned size s after subject entry)
    (own : ∀ id j answer, subject = some id → entry = some j → j.timely = true → j.answer = some answer →
      answer = fromMeta size j.range) (id : Nat) (j : Join) (answer : Answer)
    (found : after.joins.lookup id = some j) (timely : j.timely = true) (answered : j.answer = some answer) :
    answer = fromMeta size j.range := by
  by_cases mine : subject = some id
  · rw [turned.mine id mine] at found
    exact own id j answer mine found timely answered
  · rw [turned.others id mine] at found
    exact before id j answer found timely answered

theorem answers_step (size : Nat) (promised : Option Nat) (s after : State) (label : Label)
    (prompt : Prompt size promised s) (first : overtaken s label = false)
    (steps : step size promised s label = some after) :
    ∀ id j answer, after.joins.lookup id = some j → j.timely = true → j.answer = some answer →
      answer = fromMeta size j.range := by
  cases label with
  | driver label =>
    apply answers_turned size s after none none prompt.answers (turned_driver size promised s after label steps)
    nofun
  | join id range =>
    apply answers_turned size s after _ _ prompt.answers (turned_join size promised s after id range steps).1
    intro x j answer _ new _ answered
    rw [← Option.some.inj new] at answered
    cases answered
  | look id =>
    obtain ⟨j, found, turned⟩ := turned_look size promised s after id steps
    apply answers_turned size s after _ _ prompt.answers turned
    intro x entry answer _ new timely answered
    cases new
    cases answered
    have stored : s.flight.channel.value = .announced := by
      simp only [overtaken, found, Option.any_some, show j.timely = true from timely, Bool.true_and,
        decide_eq_false_iff_not, not_not] at first
      exact first
    exact (awaitFlight_fromMeta size j.range _).mpr stored
  | leave id =>
    apply answers_turned size s after _ _ prompt.answers (turned_leave size promised s after id steps)
    nofun
  | follow id label =>
    apply answers_turned size s after _ _ prompt.answers (turned_follow size promised s after id label steps).2
    exact fun x j answer mine found => prompt.answers id j answer found

/-- A run answers every timely joiner from the metadata up to the first look that
was overtaken by a later publication, and not beyond it. -/
theorem prompt_until_overtaken (size : Nat) (promised : Option Nat) :
    (∀ s, Reaches (machine size promised) (fun s label => overtaken s label = false) s →
      Prompt size promised s) ∧
    ∀ s label after, Reaches (machine size promised) (fun _ _ => True) s → overtaken s label = true →
      (machine size promised).step s label = some after → ¬ Prompt size promised after := by
  apply And.intro
  · intro s reached
    have both : Heads s ∧ Prompt size promised s := by
      apply Reaches.invariant (fun s => Heads s ∧ Prompt size promised s) _ _ reached
      · intro state begins
        rw [show state = ⟨begin, false, ∅⟩ from begins]
        refine ⟨⟨?_⟩, ?_, ?_⟩
        · intro id j found
          simp at found
        · intro id j found
          simp at found
        · intro id j answer found
          simp at found
      · intro state label after held first steps
        have heads := heads_step size promised state after label held.1 steps
        exact ⟨heads,
          fun id j found unanswered => look_enabled size promised after id j found (heads.heading id j found unanswered),
          answers_step size promised state after label held.2 first steps⟩
    exact both.2
  · intro s label after reached late steps prompt
    match label, late with
    | .look id, late =>
      obtain ⟨j, found, turned⟩ := turned_look size promised s after id steps
      simp only [overtaken, found, Option.any_some, Bool.and_eq_true, decide_eq_true_eq] at late
      have answer := prompt.answers id _ _ (turned.mine id rfl) late.1 rfl
      exact late.2 ((awaitFlight_fromMeta size j.range _).mp answer)

/-- The first request is there when the metadata comes, and its body is polled. -/
def firstRequest : List Label :=
  [.join 0 none, .driver (.announce true), .look 0, .follow 0 .poll]

/-- A range of the second half joins before anything was written. -/
theorem earlyJoin_prompt : ∃ s,
    Reaches (machine 4 (some 4)) (fun s label => overtaken s label = false) s ∧
      s.joins.lookup 1 = some ⟨some ⟨2, none⟩, true, some (.streams 2 (some 2) 2)⟩ ∧
      Prompt 4 (some 4) s := by
  obtain ⟨s, reached, test⟩ := exists_reached (machine 4 (some 4)) (fun s label => overtaken s label = false)
    (firstRequest ++ [.join 1 (some ⟨2, none⟩), .look 1])
    (show (machine 4 (some 4)).initial ⟨begin, false, ∅⟩ from rfl)
    (fun s => decide (s.joins.lookup 1 = some ⟨some ⟨2, none⟩, true, some (.streams 2 (some 2) 2)⟩))
    (by decide)
  exact ⟨s, reached, of_decide_eq_true test, (prompt_until_overtaken 4 (some 4)).1 s reached⟩

/-- The same request joins after one published update, and waits although its bytes
are on disk. -/
theorem lateJoin_waits : ∃ s, Reaches (machine 4 (some 4)) (fun _ _ => True) s ∧
    s.flight.reported = none ∧ s.flight.size = 3 ∧
    s.joins.lookup 1 = some ⟨some ⟨2, none⟩, true, some .waits⟩ ∧ ¬ Prompt 4 (some 4) s := by
  obtain ⟨s, reached, test⟩ := exists_reached (machine 4 (some 4)) (fun _ _ => True)
    (firstRequest ++ [.driver (.openSource true), .driver (.create true), .driver (.write 3), .driver .publish,
      .join 1 (some ⟨2, none⟩), .look 1])
    (show (machine 4 (some 4)).initial ⟨begin, false, ∅⟩ from rfl)
    (fun s => s.flight.reported = none && s.flight.size = 3 &&
      decide (s.joins.lookup 1 = some ⟨some ⟨2, none⟩, true, some .waits⟩)) (by decide)
  simp only [Bool.and_eq_true, decide_eq_true_eq] at test
  obtain ⟨⟨unreported, size⟩, held⟩ := test
  refine ⟨s, reached, unreported, size, held, fun prompt => ?_⟩
  have streams : Answer.waits = fromMeta 4 (some ⟨2, none⟩) := prompt.answers 1 _ _ held rfl rfl
  have other : Answer.waits ≠ fromMeta 4 (some ⟨2, none⟩) := by decide
  exact other streams

end OriginCache.Cache.Joiners
