import OriginCache.Foundation.Runs
import OriginCache.Foundation.Watch

/-! One download: a driver that pumps into a temporary file, seals it and reports
on a watch channel, and the readers that follow the file as it grows. A body
subscribes at its first poll and a report that finds no receiver is lost. -/

namespace OriginCache.Cache.Flight
open Foundation.Tables Foundation.Runs Foundation.Watch

def publishInterval : Nat := 1024 * 1024
def chunkSize : Nat := 256 * 1024

/-- Why a download failed: its upstream or its disk, or a driver that died
without a terminal state. -/
inductive Failure
  | download | died
deriving DecidableEq, Repr

inductive Progress
  | pending | announced | growing (written : Nat) | done | failed (reason : Failure)
deriving DecidableEq, Repr

def Progress.terminal : Progress → Bool
  | .done => true
  | .failed _ => true
  | _ => false

/-- A whole-file pull announces its metadata first; a run has no metadata. -/
inductive Kind
  | flight | run
deriving DecidableEq, Repr

/-- Where the driver is. The number is the watermark it last published. -/
inductive Stage
  | starting
  | opening
  | creating
  | pumping (published : Nat)
  | written (published : Nat)
  | drained (published : Nat)
  | sealing
  | reporting (outcome : Progress)
  | returned
  | gone
deriving DecidableEq, Repr

inductive Phase
  | heading | headWait
  | unpolled
  | top | untried | openWait
  | ahead | growWait | recheck
  | reading | atEnd | endWait
  | hit | refused | ended | failed | stalled
deriving DecidableEq, Repr

def Phase.waits : Phase → Bool
  | .headWait | .openWait | .growWait | .endWait => true
  | _ => false

/-- Whether the request holds a receiver. -/
def Phase.subscribed : Phase → Bool
  | .unpolled | .hit | .refused | .ended | .failed | .stalled => false
  | _ => true

structure Reader where
  phase : Phase
  pos : Nat
  remaining : Option Nat
  holding : Bool
deriving DecidableEq, Repr

structure State where
  channel : Channel Nat Progress
  readers : Table Nat Reader
  stage : Stage
  size : Nat
  tmp : Bool
  installed : Bool
  reported : Option Progress

inductive DriverLabel
  | announce (room : Bool)
  | openSource (ok : Bool)
  | create (ok : Bool)
  | write (bytes : Nat)
  | breakOff
  | publish
  | exhaust
  | announceSize
  | install
  | abandon (cleaned : Bool)
  | report
  | panic
  | guard
deriving DecidableEq, Repr

inductive ReaderLabel
  | attach (pos : Nat) (len : Option Nat)
  | body (pos : Nat) (len : Option Nat)
  | poll
  | act
  | read (bytes : Nat)
  | wake
  | stall
  | drop
deriving DecidableEq, Repr

inductive Label
  | driver (label : DriverLabel)
  | reader (id : Nat) (label : ReaderLabel)
deriving DecidableEq, Repr

def failing (s : State) : State := { s with stage := .reporting (.failed .download) }

/-- One step of the driver: open, create, pump, publish on crossings, check the
length, rename, report, and the guard around all of it. -/
def driverStep (kind : Kind) (promised : Option Nat) (s : State) : DriverLabel → Option State
  | .announce room =>
      if s.stage = .starting ∧ kind = .flight then
        if room then some { s with stage := .opening, channel := s.channel.send .announced }
        else some (failing s)
      else none
  | .openSource ok =>
      if s.stage = .opening ∨ (s.stage = .starting ∧ kind = .run) then
        if ok then some { s with stage := .creating } else some (failing s)
      else none
  | .create ok =>
      if s.stage = .creating then
        if ok then some { s with stage := .pumping 0, tmp := true, size := 0 } else some (failing s)
      else none
  | .write bytes =>
      match s.stage with
      | .pumping published =>
          if 0 < bytes ∧ bytes ≤ chunkSize ∧ promised.all (s.size + bytes ≤ ·) then
            some { s with stage := .written published, size := s.size + bytes }
          else none
      | _ => none
  | .breakOff =>
      match s.stage with
      | .pumping _ => some { failing s with tmp := false }
      | _ => none
  | .publish =>
      match s.stage with
      | .written published =>
          if published = 0 ∨ publishInterval ≤ s.size - published then
            some { s with stage := .pumping s.size, channel := s.channel.send (.growing s.size) }
          else some { s with stage := .pumping published }
      | _ => none
  | .exhaust =>
      match s.stage with
      | .pumping published => some { s with stage := .drained published }
      | _ => none
  | .announceSize =>
      match s.stage with
      | .drained published =>
          if published < s.size then
            some { s with stage := .sealing, channel := s.channel.send (.growing s.size) }
          else some { s with stage := .sealing }
      | _ => none
  | .install =>
      if s.stage = .sealing ∧ promised.all (· ≤ s.size) then
        some { s with stage := .reporting .done, tmp := false, installed := true }
      else none
  | .abandon cleaned =>
      if s.stage = .sealing then some { failing s with tmp := s.tmp && !cleaned } else none
  | .report =>
      match s.stage with
      | .reporting outcome =>
          some { s with stage := .returned, channel := s.channel.send outcome, reported := some outcome }
      | _ => none
  | .panic => if s.stage = .returned ∨ s.stage = .gone then none else some { s with stage := .returned }
  | .guard =>
      if s.stage = .returned then
        if s.channel.value.terminal then some { s with stage := .gone }
        else
          some { s with
            stage := .gone
            channel := s.channel.send (.failed .died)
            reported := s.reported.or (some (.failed .died)) }
      else none

/-- What a request does next by itself, from what it finds stored and on disk. -/
def act (s : State) (r : Reader) : Option Reader :=
  match r.phase with
  | .heading =>
      match s.channel.value with
      | .announced => some { r with phase := .unpolled }
      | .done => some { r with phase := .hit }
      | .failed _ => some { r with phase := .refused }
      | _ => some { r with phase := .headWait }
  | .top =>
      if r.remaining = some 0 then some { r with phase := .ended }
      else if r.holding then some { r with phase := .ahead }
      else if s.tmp then some { r with phase := .ahead, holding := true }
      else some { r with phase := .untried }
  | .untried =>
      match s.channel.value with
      | .done =>
          if s.installed then some { r with phase := .top, holding := true }
          else some { r with phase := .failed }
      | .failed _ => some { r with phase := .failed }
      | _ => some { r with phase := .openWait }
  | .ahead =>
      match s.channel.value with
      | .growing w => if w ≤ r.pos then some { r with phase := .growWait } else some { r with phase := .reading }
      | _ => some { r with phase := .reading }
  | .recheck =>
      match s.channel.value with
      | .growing w => if r.pos < w then some { r with phase := .reading } else some { r with phase := .growWait }
      | _ => some { r with phase := .reading }
  | .atEnd =>
      match s.channel.value with
      | .done => some { r with phase := .ended }
      | .failed _ => some { r with phase := .failed }
      | _ => some { r with phase := .endWait }
  | _ => none

/-- How much one read of the file may return. -/
def readLimit (s : State) (r : Reader) : Nat :=
  min (r.remaining.elim chunkSize (min chunkSize)) (s.size - r.pos)

def read (s : State) (r : Reader) (bytes : Nat) : Option Reader :=
  if r.phase = .reading then
    if bytes = 0 then
      if readLimit s r = 0 then some { r with phase := .atEnd } else none
    else if bytes ≤ readLimit s r then
      some { r with phase := .top, pos := r.pos + bytes, remaining := r.remaining.map (· - bytes) }
    else none
  else none

/-- Where a request goes on after its wait. -/
def resume (r : Reader) : Option Reader :=
  match r.phase with
  | .headWait => some { r with phase := .heading }
  | .openWait => some { r with phase := .top }
  | .growWait => some { r with phase := .recheck }
  | .endWait => some { r with phase := .top }
  | _ => none

def move (s : State) (id : Nat) (r : Reader) : ReaderLabel → Option Reader
  | .poll => if r.phase = .unpolled then some { r with phase := .top } else none
  | .act => act s r
  | .read bytes => read s r bytes
  | .wake => if s.channel.changed id then resume r else none
  | .stall => if r.phase.waits ∧ ¬ s.channel.changed id then some { r with phase := .stalled } else none
  | _ => none

/-- A first poll subscribes and a wake-up marks the value as seen; a request that
is over drops its receiver. -/
def follows (channel : Channel Nat Progress) (id : Nat) (label : ReaderLabel) (r : Reader) :
    Channel Nat Progress :=
  if r.phase.subscribed then
    match label with
    | .poll => channel.subscribe id
    | .wake => channel.markSeen id
    | _ => channel
  else channel.leave id

def takeTurn (s : State) (id : Nat) (label : ReaderLabel) : Option State :=
  match s.readers.lookup id with
  | none => none
  | some r =>
      match move s id r label with
      | none => none
      | some r' =>
          some { s with
            readers := s.readers.insert id r'
            channel := follows s.channel id label r' }

def readerStep (kind : Kind) (s : State) (id : Nat) : ReaderLabel → Option State
  | .attach pos len =>
      if kind = .flight ∧ id ∉ s.readers then
        some { s with
          readers := s.readers.insert id ⟨.heading, pos, len, false⟩
          channel := s.channel.subscribe id }
      else none
  | .body pos len =>
      if id ∉ s.readers then
        some { s with readers := s.readers.insert id ⟨.unpolled, pos, len, false⟩ }
      else none
  | .drop =>
      if id ∈ s.readers then
        some { s with readers := s.readers.erase id, channel := s.channel.leave id }
      else none
  | label => takeTurn s id label

def step (kind : Kind) (promised : Option Nat) (s : State) : Label → Option State
  | .driver label => driverStep kind promised s label
  | .reader id label => readerStep kind s id label

def begin : State := ⟨Channel.new .pending, ∅, .starting, 0, false, false, none⟩

def machine (kind : Kind) (promised : Option Nat) : Machine State Label :=
  ⟨fun s => s = begin, step kind promised⟩

/-- The driver has reported, and what it reported is not what is stored. -/
def Lost (s : State) : Bool := s.reported.any (· ≠ s.channel.value)

/-- Nobody subscribes after a terminal report that no receiver heard. -/
def heardReport (s : State) : Label → Bool
  | .reader _ (.attach _ _) => !Lost s
  | .reader _ .poll => !Lost s
  | _ => true

/-! What a request's own step can lead to. -/

/-- Phases that no request enters once the outcome is stored. -/
def Phase.misses (outcome : Progress) : Phase → Bool
  | .stalled => true
  | .failed => outcome = .done
  | .refused => outcome = .done
  | phase => phase.waits

theorem act_subscribed (s : State) (r r' : Reader) (acts : act s r = some r') :
    r.phase.subscribed = true := by
  unfold act at acts
  cases phase : r.phase <;> simp only [phase] at acts <;> first | rfl | cases acts

theorem act_settled (s : State) (r r' : Reader) (acts : act s r = some r')
    (terminal : s.channel.value.terminal = true)
    (found : s.channel.value = .done → s.installed = true) :
    r'.phase.misses s.channel.value = false := by
  unfold act at acts
  repeat' split at acts
  all_goals cases acts
  all_goals simp_all [Phase.misses, Phase.waits, Progress.terminal]

theorem act_waits (s : State) (r r' : Reader) (acts : act s r = some r')
    (waits : r'.phase.waits = true) : s.channel.value.terminal = false := by
  unfold act at acts
  repeat' split at acts
  all_goals cases acts
  all_goals simp_all [Phase.waits, Progress.terminal]

theorem waits_subscribed (phase : Phase) (waits : phase.waits = true) : phase.subscribed = true := by
  cases phase <;> first | rfl | cases waits

/-! The invariant. -/

structure Sound (s : State) : Prop where
  timely : s.channel.Timely
  polled : ∀ id, id ∈ s.channel.seen ↔
    ∃ r, s.readers.lookup id = some r ∧ r.phase.subscribed = true
  waiting : ∀ id r, s.readers.lookup id = some r → r.phase.waits = true →
    s.channel.value.terminal = true → s.channel.changed id = true
  stored : s.channel.value.terminal = true → s.reported = some s.channel.value
  reported : ∀ outcome, s.reported = some outcome →
    (s.stage = .returned ∨ s.stage = .gone) ∧ outcome.terminal = true ∧
      (s.channel.value = outcome ∨ s.channel.heard = false)
  outcome : ∀ outcome, s.stage = .reporting outcome → outcome.terminal = true
  found : s.stage = .reporting .done ∨ s.reported = some .done → s.installed = true

theorem sound_begin : Sound begin := by
  have nobody : ∀ id, id ∉ begin.channel.seen := fun id => by simp [begin, Channel.new]
  refine ⟨?_, ?_, ?_, ?_, ?_, ?_, ?_⟩
  · intro id version found
    simp [begin, Channel.new] at found
  · intro id
    simp [begin, Channel.new]
  · intro id r found
    simp [begin] at found
  · intro terminal
    cases terminal
  · intro outcome reported
    cases reported
  · intro outcome stage
    cases stage
  · intro either
    rcases either with stage | reported
    · cases stage
    · cases reported

/-- The driver's steps, by what they publish. -/
theorem driver_cases (kind : Kind) (promised : Option Nat) (s s' : State) (label : DriverLabel)
    (steps : driverStep kind promised s label = some s') :
    s'.readers = s.readers ∧ (s.installed = true → s'.installed = true) ∧
      ((s.stage ≠ .returned ∧ s.stage ≠ .gone ∧ s'.reported = s.reported ∧
          (s'.channel = s.channel ∨
            ∃ value, value.terminal = false ∧ s'.channel = s.channel.send value) ∧
          ∀ outcome, s'.stage = .reporting outcome →
            outcome.terminal = true ∧ (outcome = .done → s'.installed = true)) ∨
        (∃ outcome, s.stage = .reporting outcome ∧ s'.stage = .returned ∧
          s'.channel = s.channel.send outcome ∧ s'.reported = some outcome) ∨
        (s.stage = .returned ∧ s'.stage = .gone ∧
          ((s.channel.value.terminal = true ∧ s'.channel = s.channel ∧ s'.reported = s.reported) ∨
            (s.channel.value.terminal = false ∧ s'.channel = s.channel.send (.failed .died) ∧
              s'.reported = s.reported.or (some (.failed .died)))))) := by
  cases label <;> simp only [driverStep] at steps <;> repeat' split at steps
  all_goals cases steps
  all_goals simp_all [failing, Progress.terminal]
  all_goals first
    | exact Or.inr ⟨_, rfl, rfl⟩
    | (rename_i begins _
       rcases begins with opening | ⟨starting, _⟩
       · simp [opening]
       · simp [starting])

theorem move_cases (s : State) (id : Nat) (r r' : Reader) (label : ReaderLabel)
    (moves : move s id r label = some r') :
    (r'.phase.waits = true → s.channel.value.terminal = false) ∧
      (r.phase.subscribed = true ∨ label = .poll) := by
  cases label with
  | act =>
    exact ⟨act_waits s r r' moves, Or.inl (act_subscribed s r r' moves)⟩
  | poll =>
    simp only [move] at moves
    split_ifs at moves
    cases moves
    exact ⟨(nomatch ·), Or.inr rfl⟩
  | read bytes =>
    simp only [move, read] at moves
    split_ifs at moves with reading
    all_goals cases moves
    all_goals exact ⟨(nomatch ·), Or.inl (by rw [reading]; rfl)⟩
  | wake =>
    simp only [move, resume] at moves
    split_ifs at moves
    cases phase : r.phase <;> simp only [phase] at moves <;> cases moves <;>
      exact ⟨(nomatch ·), Or.inl rfl⟩
  | stall =>
    simp only [move] at moves
    split_ifs at moves with parked
    cases moves
    exact ⟨(nomatch ·), Or.inl (waits_subscribed r.phase parked.1)⟩
  | attach pos len => cases moves
  | body pos len => cases moves
  | drop => cases moves

/-- The version a request's receiver has seen after its step. -/
def heardAfter (channel : Channel Nat Progress) (id : Nat) (label : ReaderLabel) (r : Reader) :
    Option Nat :=
  if r.phase.subscribed then
    match label with
    | .poll => some channel.version
    | .wake => some channel.version
    | _ => channel.seen.lookup id
  else none

theorem lookup_follows (channel : Channel Nat Progress) (id x : Nat) (label : ReaderLabel)
    (r : Reader) :
    (follows channel id label r).seen.lookup x =
      if x = id then heardAfter channel id label r else channel.seen.lookup x := by
  by_cases same : x = id
  · subst same
    rw [if_pos rfl]
    unfold follows heardAfter
    split_ifs
    · cases label <;> simp [Channel.subscribe, Channel.markSeen]
    · simp [Channel.leave]
  · rw [if_neg same]
    unfold follows
    split_ifs
    · cases label <;> simp [Channel.subscribe, Channel.markSeen, AList.lookup_insert_ne same]
    · simp [Channel.leave, AList.lookup_erase_ne same]

/-- What one request's step leaves: its entry, and the version its receiver has
seen; the other requests and the other receivers are as before. -/
structure Turns (s s' : State) (id : Nat) (label : ReaderLabel) (entry : Option Reader)
    (heardBy : Option Nat) : Prop where
  entries : ∀ x, s'.readers.lookup x = if x = id then entry else s.readers.lookup x
  receivers : ∀ x, s'.channel.seen.lookup x = if x = id then heardBy else s.channel.seen.lookup x
  paired : heardBy.isSome = true ↔ ∃ r, entry = some r ∧ r.phase.subscribed = true
  timely : ∀ version, heardBy = some version → version ≤ s.channel.version
  parks : ∀ r, entry = some r → r.phase.waits = true → s.channel.value.terminal = false
  joins : heardBy.isSome = true →
    id ∈ s.channel.seen ∨ label = .poll ∨ ∃ pos len, label = .attach pos len

theorem lookup_insert_eq {ν : Type} (table : Table Nat ν) (id x : Nat) (value : ν) :
    (table.insert id value).lookup x = if x = id then some value else table.lookup x := by
  by_cases same : x = id
  · subst same
    simp
  · rw [if_neg same, AList.lookup_insert_ne same]

theorem lookup_erase_eq {ν : Type} (table : Table Nat ν) (id x : Nat) :
    (table.erase id).lookup x = if x = id then none else table.lookup x := by
  by_cases same : x = id
  · subst same
    simp
  · rw [if_neg same, AList.lookup_erase_ne same]

theorem turns_move (s : State) (id : Nat) (r r' : Reader) (label : ReaderLabel) (sound : Sound s)
    (found : s.readers.lookup id = some r) (moves : move s id r label = some r') :
    Turns s { s with readers := s.readers.insert id r', channel := follows s.channel id label r' }
      id label (some r') (heardAfter s.channel id label r') := by
  obtain ⟨parks, before⟩ := move_cases s id r r' label moves
  have listening : r.phase.subscribed = true → id ∈ s.channel.seen :=
    fun subscribed => (sound.polled id).mpr ⟨r, found, subscribed⟩
  have heard : label ≠ .poll → (s.channel.seen.lookup id).isSome = true := fun other =>
    AList.lookup_isSome.mpr (listening (before.resolve_right other))
  refine ⟨fun x => lookup_insert_eq s.readers id x r', fun x => lookup_follows s.channel id x label r',
    ?_, ?_, ?_, ?_⟩
  · simp only [Option.some.injEq, exists_eq_left']
    unfold heardAfter
    by_cases subscribed : r'.phase.subscribed = true
    · simp only [subscribed, if_true]
      cases label <;> simp_all
    · simp [subscribed]
  · intro version seen
    unfold heardAfter at seen
    split_ifs at seen with subscribed
    cases label <;> simp only [Option.some.injEq] at seen <;>
      first | exact Nat.le_of_eq seen.symm | exact sound.timely id version seen
  · intro other same waits
    cases same
    exact parks waits
  · intro _
    rcases before with subscribed | polls
    · exact Or.inl (listening subscribed)
    · exact Or.inr (Or.inl polls)

theorem takeTurn_cases (s s' : State) (id : Nat) (label : ReaderLabel)
    (steps : takeTurn s id label = some s') :
    ∃ r r', s.readers.lookup id = some r ∧ move s id r label = some r' ∧
      s' = { s with readers := s.readers.insert id r', channel := follows s.channel id label r' } := by
  unfold takeTurn at steps
  cases found : s.readers.lookup id with
  | none =>
    rw [found] at steps
    cases steps
  | some r =>
    rw [found] at steps
    cases moves : move s id r label with
    | none =>
      simp only [moves] at steps
      cases steps
    | some r' =>
      simp only [moves] at steps
      cases steps
      exact ⟨r, r', rfl, moves, rfl⟩

theorem turns_takeTurn (s s' : State) (id : Nat) (label : ReaderLabel) (sound : Sound s)
    (steps : takeTurn s id label = some s') : ∃ entry heardBy, Turns s s' id label entry heardBy := by
  obtain ⟨r, r', found, moves, rfl⟩ := takeTurn_cases s s' id label steps
  exact ⟨_, _, turns_move s id r r' label sound found moves⟩

theorem reader_cases (kind : Kind) (s s' : State) (id : Nat) (label : ReaderLabel) (sound : Sound s)
    (steps : readerStep kind s id label = some s') :
    ∃ entry heardBy, Turns s s' id label entry heardBy := by
  cases label with
  | attach pos len =>
    simp only [readerStep] at steps
    split_ifs at steps with fresh
    cases steps
    refine ⟨some ⟨.heading, pos, len, false⟩, some s.channel.version,
      fun x => lookup_insert_eq _ id x _, fun x => lookup_insert_eq _ id x _, ?_, ?_, ?_, ?_⟩
    · simp [Phase.subscribed]
    · intro version same
      cases same
      exact Nat.le_refl _
    · intro r same waits
      cases same
      cases waits
    · exact fun _ => Or.inr (Or.inr ⟨pos, len, rfl⟩)
  | body pos len =>
    simp only [readerStep] at steps
    split_ifs at steps with fresh
    cases steps
    have absent : id ∉ s.channel.seen := by
      intro member
      obtain ⟨r, found, _⟩ := (sound.polled id).mp member
      exact fresh (lookup_mem s.readers id r found)
    refine ⟨some ⟨.unpolled, pos, len, false⟩, none, fun x => lookup_insert_eq _ id x _,
      fun x => ?_, ?_, ?_, ?_, ?_⟩
    · by_cases same : x = id
      · subst same
        rw [if_pos rfl]
        exact AList.lookup_eq_none.mpr absent
      · rw [if_neg same]
    · simp [Phase.subscribed]
    · intro version same
      cases same
    · intro r same waits
      cases same
      cases waits
    · intro some_
      cases some_
  | drop =>
    simp only [readerStep] at steps
    split_ifs at steps with present
    cases steps
    refine ⟨none, none, fun x => lookup_erase_eq _ id x, fun x => lookup_erase_eq _ id x, ?_, ?_, ?_, ?_⟩
    · simp
    · intro version same
      cases same
    · intro r same
      cases same
    · intro some_
      cases some_
  | poll => exact turns_takeTurn s s' id _ sound steps
  | act => exact turns_takeTurn s s' id _ sound steps
  | read bytes => exact turns_takeTurn s s' id _ sound steps
  | wake => exact turns_takeTurn s s' id _ sound steps
  | stall => exact turns_takeTurn s s' id _ sound steps

theorem reader_frame (kind : Kind) (s s' : State) (id : Nat) (label : ReaderLabel)
    (steps : readerStep kind s id label = some s') :
    s'.channel.value = s.channel.value ∧ s'.channel.version = s.channel.version ∧
      s'.stage = s.stage ∧ s'.installed = s.installed ∧ s'.reported = s.reported := by
  unfold readerStep takeTurn at steps
  repeat' split at steps
  all_goals cases steps
  all_goals refine ⟨?_, ?_, rfl, rfl, rfl⟩
  all_goals try rfl
  all_goals unfold follows; repeat' split
  all_goals rfl

theorem heard_send (channel : Channel Nat Progress) (value : Progress) :
    (channel.send value).value = value ∨
      (channel.send value).value = channel.value ∧ (channel.send value).heard = false := by
  by_cases heard : channel.heard = true
  · rw [send_heard channel value heard]
    exact Or.inl rfl
  · have silent : channel.heard = false := by simpa using heard
    rw [send_unheard channel value silent]
    exact Or.inr ⟨rfl, silent⟩

theorem unreported_of_early (s : State) (sound : Sound s) (early : s.stage ≠ .returned)
    (late : s.stage ≠ .gone) : s.reported = none ∧ s.channel.value.terminal = false := by
  have unreported : s.reported = none := by
    cases given : s.reported with
    | none => rfl
    | some verdict =>
      rcases (sound.reported verdict given).1 with returned | gone
      · exact (early returned).elim
      · exact (late gone).elim
  refine ⟨unreported, ?_⟩
  by_contra closed
  have given := sound.stored (by simpa using closed)
  rw [unreported] at given
  cases given

/-- Before the report: what is published is not terminal. -/
theorem sound_running (s s' : State) (sound : Sound s) (readers : s'.readers = s.readers)
    (early : s.stage ≠ .returned) (late : s.stage ≠ .gone) (reported : s'.reported = s.reported)
    (published : s'.channel = s.channel ∨
      ∃ value, value.terminal = false ∧ s'.channel = s.channel.send value)
    (outcome : ∀ outcome, s'.stage = .reporting outcome →
      outcome.terminal = true ∧ (outcome = .done → s'.installed = true)) : Sound s' := by
  obtain ⟨unreported, running⟩ := unreported_of_early s sound early late
  have channel : s'.channel.Timely ∧ s'.channel.seen = s.channel.seen ∧
      s'.channel.value.terminal = false := by
    rcases published with same | ⟨value, open_, sent⟩
    · rw [same]
      exact ⟨sound.timely, rfl, running⟩
    · rw [sent]
      refine ⟨timely_send s.channel value sound.timely, seen_send s.channel value, ?_⟩
      rcases heard_send s.channel value with same | ⟨same, _⟩
      · rw [same]
        exact open_
      · rw [same]
        exact running
  have never : s'.channel.value.terminal = true → False := fun terminal => by
    rw [channel.2.2] at terminal
    cases terminal
  refine ⟨channel.1, ?_, fun id r _ _ terminal => (never terminal).elim,
    fun terminal => (never terminal).elim, ?_, fun v stage => (outcome v stage).1, ?_⟩
  · intro id
    rw [channel.2.1, readers]
    exact sound.polled id
  · intro verdict given
    rw [reported, unreported] at given
    cases given
  · intro either
    rcases either with stage | given
    · exact (outcome .done stage).2 rfl
    · rw [reported, unreported] at given
      cases given

/-- A terminal report, by the driver or by the guard around it. -/
theorem sound_report (s s' : State) (outcome verdict : Progress) (sound : Sound s)
    (readers : s'.readers = s.readers) (open_ : s.channel.value.terminal = false)
    (stage : s'.stage = .returned ∨ s'.stage = .gone) (ends : verdict.terminal = true)
    (channel : s'.channel = s.channel.send outcome) (reported : s'.reported = some verdict)
    (kept : verdict = outcome ∨ s.channel.heard = false)
    (found : verdict = .done → s'.installed = true) : Sound s' := by
  have sent := heard_send s.channel outcome
  rw [← channel] at sent
  have quiet : s.channel.heard = false → s'.channel.heard = false := by
    intro silent
    rw [channel, send_unheard s.channel outcome silent]
    exact silent
  refine ⟨?_, ?_, ?_, ?_, ?_, ?_, ?_⟩
  · rw [channel]
    exact timely_send s.channel outcome sound.timely
  · intro id
    rw [channel, seen_send, readers]
    exact sound.polled id
  · intro id r given waits _
    rw [channel]
    have member := (sound.polled id).mpr ⟨r, readers ▸ given, waits_subscribed r.phase waits⟩
    exact changed_send s.channel outcome id sound.timely member
  · intro terminal
    rcases sent with same | ⟨same, silent⟩
    · rcases kept with equal | silent
      · rw [reported, same, equal]
      · rw [channel, send_unheard s.channel outcome silent, open_] at terminal
        cases terminal
    · rw [same, open_] at terminal
      cases terminal
  · intro other given
    rw [reported] at given
    cases given
    refine ⟨stage, ends, ?_⟩
    rcases kept with equal | silent
    · rcases sent with same | ⟨_, silent⟩
      · exact Or.inl (same.trans equal.symm)
      · exact Or.inr silent
    · exact Or.inr (quiet silent)
  · intro other reporting
    rcases stage with returned | gone
    · rw [returned] at reporting
      cases reporting
    · rw [gone] at reporting
      cases reporting
  · intro either
    rcases either with reporting | given
    · rcases stage with returned | gone
      · rw [returned] at reporting
        cases reporting
      · rw [gone] at reporting
        cases reporting
    · rw [reported] at given
      exact found (Option.some.inj given)

theorem sound_driver (kind : Kind) (promised : Option Nat) (s s' : State) (label : DriverLabel)
    (sound : Sound s) (steps : driverStep kind promised s label = some s') : Sound s' := by
  obtain ⟨readers, kept, published⟩ := driver_cases kind promised s s' label steps
  rcases published with ⟨early, late, reported, published, outcome⟩ |
    ⟨outcome, stage, after, channel, reported⟩ |
    ⟨stage, after, ⟨terminal, channel, reported⟩ | ⟨open_, channel, reported⟩⟩
  · exact sound_running s s' sound readers early late reported published outcome
  · have open_ := (unreported_of_early s sound (by simp [stage]) (by simp [stage])).2
    exact sound_report s s' outcome outcome sound readers open_ (Or.inl after)
      (sound.outcome outcome stage) channel reported (Or.inl rfl)
      fun done => kept (sound.found (Or.inl (done ▸ stage)))
  · refine ⟨channel ▸ sound.timely, ?_, ?_, ?_, ?_, ?_, ?_⟩
    · intro id
      rw [channel, readers]
      exact sound.polled id
    · intro id r found
      rw [channel]
      exact sound.waiting id r (readers ▸ found)
    · rw [channel, reported]
      exact sound.stored
    · intro verdict given
      rw [channel]
      rw [reported] at given
      exact ⟨Or.inr after, (sound.reported verdict given).2⟩
    · intro outcome reporting
      rw [after] at reporting
      cases reporting
    · intro either
      rcases either with reporting | given
      · rw [after] at reporting
        cases reporting
      · rw [reported] at given
        exact kept (sound.found (Or.inr given))
  · cases given : s.reported with
    | none =>
      rw [given] at reported
      exact sound_report s s' (.failed .died) (.failed .died) sound readers open_ (Or.inr after) rfl
        channel reported (Or.inl rfl) fun done => by cases done
    | some verdict =>
      have before := sound.reported verdict given
      have silent : s.channel.heard = false := by
        rcases before.2.2 with same | silent
        · rw [same, before.2.1] at open_
          cases open_
        · exact silent
      rw [given] at reported
      exact sound_report s s' (.failed .died) verdict sound readers open_ (Or.inr after) before.2.1
        channel reported (Or.inr silent)
        fun done => kept (sound.found (Or.inr (done ▸ given)))

theorem sound_reader (kind : Kind) (s s' : State) (id : Nat) (label : ReaderLabel) (sound : Sound s)
    (heard : heardReport s (.reader id label) = true)
    (steps : readerStep kind s id label = some s') : Sound s' := by
  obtain ⟨value, version, stage, installed, reported⟩ := reader_frame kind s s' id label steps
  obtain ⟨entry, heardBy, turns⟩ := reader_cases kind s s' id label sound steps
  refine ⟨?_, ?_, ?_, ?_, ?_, ?_, ?_⟩
  · intro x seen found
    rw [turns.receivers] at found
    rw [version]
    split_ifs at found
    · exact turns.timely seen found
    · exact sound.timely x seen found
  · intro x
    rw [← AList.lookup_isSome, turns.receivers, turns.entries]
    by_cases same : x = id
    · simp only [same, if_true]
      exact turns.paired
    · simp only [same, if_false]
      rw [AList.lookup_isSome]
      exact sound.polled x
  · intro x r found waits terminal
    rw [turns.entries] at found
    rw [value] at terminal
    split_ifs at found with same
    · rw [turns.parks r found waits] at terminal
      cases terminal
    · have before := sound.waiting x r found waits terminal
      rw [Channel.changed, turns.receivers, if_neg same, version]
      exact before
  · rw [value, reported]
    exact sound.stored
  · intro verdict given
    rw [reported] at given
    obtain ⟨ended, ends, stored⟩ := sound.reported verdict given
    rw [stage, value]
    refine ⟨ended, ends, ?_⟩
    by_cases same : s.channel.value = verdict
    · exact Or.inl same
    · have silent := stored.resolve_left same
      refine Or.inr (unheard_of_not_mem _ fun x member => ?_)
      have nobody := not_mem_of_unheard s.channel silent
      rw [← AList.lookup_isSome, turns.receivers] at member
      split_ifs at member
      · have lost : Lost s = true := by
          simp [Lost, given, Ne.symm same]
        rcases turns.joins member with inside | polls | ⟨pos, len, attaches⟩
        · exact nobody id inside
        · subst polls
          simp [heardReport, lost] at heard
        · subst attaches
          simp [heardReport, lost] at heard
      · exact nobody x (AList.lookup_isSome.mp member)
  · rw [stage]
    exact sound.outcome
  · rw [stage, reported, installed]
    exact sound.found

theorem sound_reaches (kind : Kind) (promised : Option Nat) (s : State)
    (reached : Reaches (machine kind promised) (fun s label => heardReport s label = true) s) :
    Sound s := by
  apply reached.invariant Sound
  · intro state begins
    rw [show state = begin from begins]
    exact sound_begin
  · intro state label after sound heard steps
    cases label with
    | driver label => exact sound_driver kind promised state after label sound steps
    | reader id label => exact sound_reader kind state after id label sound heard steps

/-- What a request that holds a receiver finds once the outcome is reported: the
outcome is stored, a sealed file is in place, and its next step neither waits nor
fails nor stalls. -/
structure Observes (kind : Kind) (promised : Option Nat) (s : State) (outcome : Progress)
    (id : Nat) : Prop where
  stored : s.channel.value = outcome
  found : outcome = .done → s.installed = true
  settles : ∀ label s' r r', step kind promised s label = some s' → s.readers.lookup id = some r →
    s'.readers.lookup id = some r' → r' = r ∨ r'.phase.misses outcome = false
  proceeds : ∀ r, s.readers.lookup id = some r → r.phase.waits = true →
    ∃ s', step kind promised s (.reader id .wake) = some s'

theorem move_settles (s : State) (id : Nat) (r r' : Reader) (label : ReaderLabel) (sound : Sound s)
    (terminal : s.channel.value.terminal = true)
    (found : s.channel.value = .done → s.installed = true)
    (present : s.readers.lookup id = some r) (moves : move s id r label = some r') :
    r'.phase.misses s.channel.value = false := by
  cases label with
  | act => exact act_settled s r r' moves terminal found
  | poll =>
    simp only [move] at moves
    split_ifs at moves
    cases moves
    rfl
  | read bytes =>
    simp only [move, read] at moves
    split_ifs at moves
    all_goals cases moves
    all_goals rfl
  | wake =>
    simp only [move, resume] at moves
    split_ifs at moves
    cases phase : r.phase <;> simp only [phase] at moves <;> cases moves <;> rfl
  | stall =>
    simp only [move] at moves
    split_ifs at moves with parked
    exact (parked.2 (sound.waiting id r present parked.1 terminal)).elim
  | attach pos len => cases moves
  | body pos len => cases moves
  | drop => cases moves

/-- A request's own step, once the outcome is stored. -/
theorem reader_settles (kind : Kind) (s s' : State) (id : Nat) (label : ReaderLabel) (sound : Sound s)
    (terminal : s.channel.value.terminal = true)
    (found : s.channel.value = .done → s.installed = true) (r r' : Reader)
    (present : s.readers.lookup id = some r) (after : s'.readers.lookup id = some r')
    (steps : readerStep kind s id label = some s') : r'.phase.misses s.channel.value = false := by
  have known : id ∈ s.readers := lookup_mem s.readers id r present
  have own : takeTurn s id label = some s' → r'.phase.misses s.channel.value = false := by
    intro turn
    obtain ⟨q, q', given, moves, same⟩ := takeTurn_cases s s' id label turn
    rw [same, AList.lookup_insert] at after
    rw [← Option.some.inj after]
    exact move_settles s id q q' label sound terminal found given moves
  cases label with
  | attach pos len =>
    simp only [readerStep] at steps
    split_ifs at steps with fresh
    exact (fresh.2 known).elim
  | body pos len =>
    simp only [readerStep] at steps
    split_ifs at steps
  | drop =>
    simp only [readerStep] at steps
    split_ifs at steps
    cases steps
    rw [AList.lookup_erase] at after
    cases after
  | poll => exact own steps
  | act => exact own steps
  | read bytes => exact own steps
  | wake => exact own steps
  | stall => exact own steps

/-- A parked request can wake up once the outcome is stored. -/
theorem wake_enabled (kind : Kind) (s : State) (id : Nat) (r : Reader) (sound : Sound s)
    (terminal : s.channel.value.terminal = true) (present : s.readers.lookup id = some r)
    (waits : r.phase.waits = true) : ∃ s', readerStep kind s id .wake = some s' := by
  have changed := sound.waiting id r present waits terminal
  have resumes : ∃ r', resume r = some r' := by
    unfold resume
    cases phase : r.phase <;> rw [phase] at waits <;> first | exact ⟨_, rfl⟩ | cases waits
  obtain ⟨r', goes⟩ := resumes
  exact ⟨{ s with readers := s.readers.insert id r', channel := follows s.channel id .wake r' },
    by simp only [readerStep, takeTurn, present, move, changed, if_true, goes]⟩

/-- In every run in which nobody subscribes after an unheard report, every request
that holds a receiver after the report observes it. -/
theorem terminal_observed (kind : Kind) (promised : Option Nat) (s : State)
    (reached : Reaches (machine kind promised) (fun s label => heardReport s label = true) s)
    (outcome : Progress) (reported : s.reported = some outcome) (id : Nat)
    (polls : id ∈ s.channel.seen) : Observes kind promised s outcome id := by
  have sound := sound_reaches kind promised s reached
  obtain ⟨_, ends, stored⟩ := sound.reported outcome reported
  have same : s.channel.value = outcome := by
    rcases stored with same | silent
    · exact same
    · exact (not_mem_of_unheard s.channel silent id polls).elim
  have found : outcome = .done → s.installed = true := fun done =>
    sound.found (Or.inr (done ▸ reported))
  have terminal : s.channel.value.terminal = true := by rw [same]; exact ends
  subst same
  refine ⟨rfl, found, ?_, fun r present waits => wake_enabled kind s id r sound terminal present waits⟩
  intro label s' r r' steps present after
  cases label with
  | driver label =>
    have readers := (driver_cases kind promised s s' label steps).1
    rw [readers, present] at after
    exact Or.inl (Option.some.inj after).symm
  | reader x label =>
    by_cases other : x = id
    · subst other
      exact Or.inr (reader_settles kind s s' x label sound terminal found r r' present after steps)
    · obtain ⟨entry, heardBy, turns⟩ := reader_cases kind s s' x label sound steps
      rw [turns.entries, if_neg (Ne.symm other), present] at after
      exact Or.inl (Option.some.inj after).symm

/-- A body that was polled before the report hears it. -/
def earlyBody : List Label :=
  [.reader 0 (.body 0 (some 2)), .reader 0 .poll, .driver (.openSource true), .driver (.create true),
    .driver (.write 2), .driver .publish, .driver .exhaust, .driver .announceSize, .driver .install,
    .driver .report]

theorem earlyBody_observes :
    ∃ s, Reaches (machine .run (some 2)) (fun s label => heardReport s label = true) s ∧
      Observes .run (some 2) s .done 0 := by
  obtain ⟨s, reached, test⟩ := exists_reached (machine .run (some 2))
    (fun s label => heardReport s label = true) earlyBody rfl
    (fun s => s.reported = some .done && (s.channel.seen.lookup 0).isSome) (by decide)
  simp only [Bool.and_eq_true, decide_eq_true_eq, AList.lookup_isSome] at test
  exact ⟨s, reached, terminal_observed .run (some 2) s reached .done test.1 0 test.2⟩

/-- The driver of a run pumps two bytes and reports while the response still sends
its staged head; then the body is polled for the first time. -/
def lateBody : List Label :=
  [.reader 0 (.body 0 (some 2)), .driver (.openSource true), .driver (.create true),
    .driver (.write 2), .driver .publish, .driver .exhaust, .driver .announceSize, .driver .install,
    .driver .report, .driver .guard, .reader 0 .poll]

/-- Nobody hears the report, so the body finds neither the temporary file nor an
outcome; it waits and stalls with every byte on disk. -/
theorem lateBody_stalls :
    ∃ s after, Reaches (machine .run (some 2)) (fun _ _ => True) s ∧
      s.reported = some .done ∧ s.installed = true ∧ 0 ∈ s.channel.seen ∧
      ¬ Observes .run (some 2) s .done 0 ∧
      Reaches (machine .run (some 2)) (fun _ _ => True) after ∧
      after.reported = some .done ∧ (after.readers.lookup 0).map Reader.phase = some .stalled := by
  obtain ⟨s, reached, test⟩ := exists_reached (machine .run (some 2)) (fun _ _ => True)
    lateBody rfl
    (fun s => s.reported = some .done && s.installed && (s.channel.seen.lookup 0).isSome &&
      decide (s.channel.value ≠ .done)) (by decide)
  obtain ⟨after, later, stalls⟩ := exists_reached (machine .run (some 2)) (fun _ _ => True)
    (lateBody ++ [.reader 0 .act, .reader 0 .act, .reader 0 .stall]) rfl
    (fun s => s.reported = some .done &&
      decide ((s.readers.lookup 0).map Reader.phase = some .stalled)) (by decide)
  simp only [Bool.and_eq_true, decide_eq_true_eq, AList.lookup_isSome] at test stalls
  obtain ⟨⟨⟨reported, installed⟩, polls⟩, unstored⟩ := test
  exact ⟨s, after, reached, reported, installed, polls, fun observes => unstored observes.stored,
    later, stalls⟩

end OriginCache.Cache.Flight
