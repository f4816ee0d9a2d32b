import OriginCache.Foundation.Registry
import OriginCache.Cache.Flight

/-! Joining and starting downloads. A download is registered under its key before its
driver can run, and its driver is the one that takes the key out again. -/

namespace OriginCache.Cache.Flights
open Foundation.Tables Foundation.Runs Foundation.Registry Foundation.Watch
open Flight (Progress Failure)

/-- `reported` and `died` are a closure that is over, with and without a terminal
state. -/
inductive Stage
  | spawned | running | reported | died | guarded | removed
deriving DecidableEq, Repr

structure Entry (κ : Type) where
  key : κ
  channel : Channel Nat Progress
  stage : Stage
  outcome : Option Progress

inductive Phase
  | locking
  | joined (entry : Nat)
  | watching (entry : Nat)
  | parked (entry : Nat)
  | received (entry : Nat) (outcome : Progress)
deriving DecidableEq, Repr

structure Caller (κ : Type) where
  key : κ
  phase : Phase
deriving DecidableEq, Repr

structure System (κ : Type) where
  map : Table κ Nat
  entries : Table Nat (Entry κ)
  callers : Table Nat (Caller κ)

inductive DriverLabel
  | start
  | send (progress : Progress)
  | report (outcome : Progress)
  | die
  | guard
  | remove
deriving DecidableEq, Repr

/-- A caller is dropped with its request, or gives up after a stall. -/
inductive CallerLabel
  | join (fresh : Nat)
  | subscribe
  | look
  | wake
  | drop
deriving DecidableEq, Repr

inductive Label (κ : Type)
  | call (id : Nat) (key : κ)
  | caller (id : Nat) (label : CallerLabel)
  | driver (entry : Nat) (label : DriverLabel)
deriving DecidableEq, Repr

def Entry.send {κ : Type} (entry : Entry κ) (progress : Progress) : Entry κ :=
  { entry with channel := entry.channel.send progress }

/-- A closure that ends without a terminal state gets one from the guard, if the channel
stores none. -/
def Entry.move {κ : Type} (entry : Entry κ) : DriverLabel → Option (Entry κ)
  | .start => if entry.stage = .spawned then some { entry with stage := .running } else none
  | .send progress =>
      if entry.stage = .running ∧ progress.terminal = false then some (entry.send progress) else none
  | .report outcome =>
      if entry.stage = .running ∧ outcome.terminal = true then
        some { entry.send outcome with stage := .reported, outcome := some outcome }
      else none
  | .die =>
      if entry.stage = .running then some { entry with stage := .died, outcome := some (.failed .died) } else none
  | .guard =>
      if entry.stage = .reported ∨ entry.stage = .died then
        if entry.channel.value.terminal then some { entry with stage := .guarded }
        else some { entry.send (.failed .died) with stage := .guarded }
      else none
  | .remove => if entry.stage = .guarded then some { entry with stage := .removed } else none

section Steps
variable {κ : Type} [DecidableEq κ]

def System.goes (s : System κ) (id : Nat) (key : κ) (phase : Phase) : System κ :=
  { s with callers := s.callers.insert id ⟨key, phase⟩ }

def System.put (s : System κ) (id : Nat) (entry : Entry κ) : System κ := { s with entries := s.entries.insert id entry }

/-- The key is removed whatever it names then. -/
def driverStep (s : System κ) (id : Nat) (entry : Entry κ) (label : DriverLabel) : Option (System κ) :=
  (entry.move label).map fun moved =>
    if label = .remove then { s.put id moved with map := s.map.erase entry.key } else s.put id moved

def Phase.receiver : Phase → Option Nat
  | .watching e => some e
  | .parked e => some e
  | _ => none

/-- Dropping a receiver takes it off the channel. -/
def System.leave (s : System κ) (id : Nat) (phase : Phase) : System κ :=
  match phase.receiver with
  | none => s
  | some e =>
      match s.entries.lookup e with
      | some entry => s.put e { entry with channel := entry.channel.leave id }
      | none => s

/-- A receiver that finds no terminal state waits for the next change. -/
def lookStep (s : System κ) (id : Nat) (key : κ) (e : Nat) (entry : Entry κ) : System κ :=
  if entry.channel.value.terminal then
    (s.put e { entry with channel := entry.channel.leave id }).goes id key (.received e entry.channel.value)
  else s.goes id key (.parked e)

/-- The one under the key, else a new one, registered before it can run. -/
def joinStep (s : System κ) (id : Nat) (key : κ) (fresh : Nat) : Option (System κ) :=
  match s.map.lookup key with
  | some e => some (s.goes id key (.joined e))
  | none =>
      if fresh ∈ s.entries then none
      else some ({ s.put fresh ⟨key, .new .pending, .spawned, none⟩ with map := s.map.insert key fresh }.goes
        id key (.joined fresh))

def callerStep (s : System κ) (id : Nat) (key : κ) (phase : Phase) : CallerLabel → Option (System κ)
  | .join fresh =>
      if phase = .locking then joinStep s id key fresh else none
  | .subscribe =>
      match phase with
      | .joined e =>
          (s.entries.lookup e).map fun entry =>
            (s.put e { entry with channel := entry.channel.subscribe id }).goes id key (.watching e)
      | _ => none
  | .look =>
      match phase with
      | .watching e => (s.entries.lookup e).map (lookStep s id key e)
      | _ => none
  | .wake =>
      match phase with
      | .parked e =>
          (s.entries.lookup e).bind fun entry =>
            if entry.channel.changed id then
              some ((s.put e { entry with channel := entry.channel.markSeen id }).goes id key (.watching e))
            else none
      | _ => none
  | .drop => some { s.leave id phase with callers := s.callers.erase id }

def step (s : System κ) : Label κ → Option (System κ)
  | .call id key => if id ∈ s.callers then none else some (s.goes id key .locking)
  | .caller id label => (s.callers.lookup id).bind fun caller => callerStep s id caller.key caller.phase label
  | .driver id label => (s.entries.lookup id).bind fun entry => driverStep s id entry label

def empty : System κ := ⟨∅, ∅, ∅⟩

def machine : Machine (System κ) (Label κ) := ⟨fun s => s = empty, step⟩

/-- Its outcome was sent and nobody heard it. -/
def Entry.lost (entry : Entry κ) : Bool :=
  !entry.channel.value.terminal &&
    (entry.stage = .reported || entry.stage = .guarded || entry.stage = .removed)

/-- Nobody subscribes after a terminal report that nobody heard. -/
def heard (s : System κ) : Label κ → Bool
  | .caller id .subscribe =>
      match s.callers.lookup id with
      | some ⟨_, .joined e⟩ => !(s.entries.lookup e).any Entry.lost
      | _ => true
  | _ => true

def Entry.active (entry : Entry κ) : Bool := entry.stage ≠ .removed

/-- What every caller can rely on. -/
structure Single (s : System κ) : Prop where
  one : ∀ a b x y, s.entries.lookup a = some x → s.entries.lookup b = some y → x.active = true → y.active = true →
    x.key = y.key → a = b
  told : ∀ id caller e outcome, s.callers.lookup id = some caller → caller.phase = .received e outcome →
    ∃ entry, s.entries.lookup e = some entry ∧ entry.key = caller.key ∧ entry.outcome = some outcome
  answered : ∀ id caller e entry, s.callers.lookup id = some caller → s.entries.lookup e = some entry →
    entry.stage = .guarded ∨ entry.stage = .removed → ∀ outcome, entry.outcome = some outcome →
    (caller.phase = .watching e → ∃ after, step s (.caller id .look) = some after ∧
      after.callers.lookup id = some ⟨caller.key, .received e outcome⟩) ∧
    (caller.phase = .parked e → ∃ after, step s (.caller id .wake) = some after ∧
      after.callers.lookup id = some ⟨caller.key, .watching e⟩)
  own : ∀ e after, step s (.driver e .remove) = some after →
    ∀ k other, other ≠ e → s.map.lookup k = some other → after.map.lookup k = some other

/-! The invariant. -/

/-- What an entry's channel stores, and who can have heard it. -/
structure Entry.Sound (entry : Entry κ) : Prop where
  timely : entry.channel.Timely
  quiet : entry.stage = .spawned ∨ entry.stage = .running → entry.channel.value.terminal = false ∧ entry.outcome = none
  ended : entry.stage ≠ .spawned → entry.stage ≠ .running → entry.outcome.isSome = true
  stored : entry.channel.value.terminal = true → entry.outcome = some entry.channel.value
  told : entry.stage = .reported ∨ entry.stage = .guarded ∨ entry.stage = .removed →
    entry.channel.value.terminal = true ∨ ∀ receiver, receiver ∉ entry.channel.seen
  died : entry.stage = .died → entry.channel.value.terminal = false ∧ entry.outcome = some (.failed .died)

/-- A receiver whose next wait ends once a terminal state is stored. -/
def Entry.wakes (entry : Entry κ) (id : Nat) : Prop :=
  ∃ version, entry.channel.seen.lookup id = some version ∧
    (entry.channel.value.terminal = true → version ≠ entry.channel.version)

def Follows (entries : Table Nat (Entry κ)) (id : Nat) (key : κ) : Phase → Prop
  | .locking => True
  | .joined e => ∃ entry, entries.lookup e = some entry ∧ entry.key = key
  | .watching e => ∃ entry, entries.lookup e = some entry ∧ entry.key = key ∧ id ∈ entry.channel.seen
  | .parked e => ∃ entry, entries.lookup e = some entry ∧ entry.key = key ∧ entry.wakes id
  | .received e outcome => ∃ entry, entries.lookup e = some entry ∧ entry.key = key ∧ entry.outcome = some outcome

def Active (entries : Table Nat (Entry κ)) (e : Nat) (key : κ) : Prop :=
  ∃ entry, entries.lookup e = some entry ∧ entry.key = key ∧ entry.active = true

structure Kept (s : System κ) : Prop where
  exclusive : Exclusive s.map (Active s.entries)
  mapped : ∀ key e, s.map.lookup key = some e → ∃ entry, s.entries.lookup e = some entry ∧ entry.key = key
  sound : ∀ e entry, s.entries.lookup e = some entry → entry.Sound
  follows : ∀ id caller, s.callers.lookup id = some caller → Follows s.entries id caller.key caller.phase

theorem kept_empty : Kept (empty : System κ) := ⟨nofun, nofun, nofun, nofun⟩

/-- What an entry's change leaves to the callers other than the one that made it. -/
structure Entry.Extends (old new : Entry κ) (id : Nat) : Prop where
  key : new.key = old.key
  seen : id ∈ old.channel.seen → id ∈ new.channel.seen
  wakes : old.wakes id → new.wakes id
  outcome : ∀ outcome, old.outcome = some outcome → new.outcome = some outcome

omit [DecidableEq κ] in
theorem follows_put (entries : Table Nat (Entry κ)) (e id : Nat) (old new : Entry κ) (key : κ) (phase : Phase)
    (found : entries.lookup e = some old) (extends_ : old.Extends new id) (follows : Follows entries id key phase) :
    Follows (entries.insert e new) id key phase := by
  have kept (entry : Nat) (there : Entry κ) (holds : Entry κ → Prop) (found' : entries.lookup entry = some there)
      (same : there.key = key) (here : holds there) (moves : holds old → holds new) :
      ∃ entry', (entries.insert e new).lookup entry = some entry' ∧ entry'.key = key ∧ holds entry' := by
    by_cases equal : entry = e
    · subst equal
      rw [found] at found'
      cases found'
      exact ⟨new, AList.lookup_insert entries, extends_.key.trans same, moves here⟩
    · exact ⟨there, by rw [AList.lookup_insert_ne equal, found'], same, here⟩
  cases phase with
  | locking => trivial
  | joined entry =>
    obtain ⟨there, found', same⟩ := follows
    obtain ⟨entry', lookup, same', -⟩ := kept entry there (fun _ => True) found' same trivial (fun _ => trivial)
    exact ⟨entry', lookup, same'⟩
  | watching entry =>
    obtain ⟨there, found', same, member⟩ := follows
    exact kept entry there (fun entry => id ∈ entry.channel.seen) found' same member extends_.seen
  | parked entry =>
    obtain ⟨there, found', same, wakes⟩ := follows
    exact kept entry there (fun entry => entry.wakes id) found' same wakes extends_.wakes
  | received entry outcome =>
    obtain ⟨there, found', same, given⟩ := follows
    exact kept entry there (fun entry => entry.outcome = some outcome) found' same given (extends_.outcome outcome)

omit [DecidableEq κ] in
theorem follows_grow (entries more : Table Nat (Entry κ)) (id : Nat) (key : κ) (phase : Phase)
    (old : ∀ e entry, entries.lookup e = some entry → more.lookup e = some entry)
    (follows : Follows entries id key phase) : Follows more id key phase := by
  cases phase with
  | locking => trivial
  | joined e =>
    obtain ⟨entry, found, named⟩ := follows
    exact ⟨entry, old e entry found, named⟩
  | watching e =>
    obtain ⟨entry, found, rest⟩ := follows
    exact ⟨entry, old e entry found, rest⟩
  | parked e =>
    obtain ⟨entry, found, rest⟩ := follows
    exact ⟨entry, old e entry found, rest⟩
  | received e outcome =>
    obtain ⟨entry, found, rest⟩ := follows
    exact ⟨entry, old e entry found, rest⟩

/-- An entry changes and the callers are looked at again. -/
theorem kept_put (s : System κ) (e : Nat) (old new : Entry κ) (callers : Table Nat (Caller κ)) (kept : Kept s)
    (found : s.entries.lookup e = some old) (sound : new.Sound) (key : new.key = old.key)
    (active : new.active = true → old.active = true)
    (follows : ∀ id caller, callers.lookup id = some caller → Follows (s.entries.insert e new) id caller.key caller.phase) :
    Kept { s.put e new with callers := callers } := by
  apply Kept.mk
  · apply kept.exclusive.mono
    intro other k alive
    obtain ⟨entry, there, same, lives⟩ := alive
    change (s.entries.insert e new).lookup other = _ at there
    by_cases equal : other = e
    · subst equal
      rw [AList.lookup_insert] at there
      cases there
      exact ⟨old, found, key.symm.trans same, active lives⟩
    · rw [AList.lookup_insert_ne equal] at there
      exact ⟨entry, there, same, lives⟩
  · intro k other mapped
    obtain ⟨entry, there, same⟩ := kept.mapped k other mapped
    change ∃ entry, (s.entries.insert e new).lookup other = _ ∧ _
    by_cases equal : other = e
    · subst equal
      rw [found] at there
      cases there
      exact ⟨new, AList.lookup_insert s.entries, key.trans same⟩
    · exact ⟨entry, by rw [AList.lookup_insert_ne equal, there], same⟩
  · intro other entry there
    change (s.entries.insert e new).lookup other = _ at there
    by_cases equal : other = e
    · subst equal
      rw [AList.lookup_insert] at there
      cases there
      exact sound
    · rw [AList.lookup_insert_ne equal] at there
      exact kept.sound other entry there
  · exact follows

/-! The driver. -/

section Entries
omit [DecidableEq κ]

theorem extends_channel (old new : Entry κ) (id : Nat) (key : new.key = old.key) (channel : new.channel = old.channel)
    (outcome : ∀ outcome, old.outcome = some outcome → new.outcome = some outcome) : old.Extends new id := by
  apply Entry.Extends.mk key
  · rw [channel]
    exact fun member => member
  · intro wakes
    unfold Entry.wakes
    rw [channel]
    exact wakes
  · exact outcome

/-- A send before any terminal state wakes whoever waits. -/
theorem extends_send (old new : Entry κ) (id : Nat) (progress : Progress) (key : new.key = old.key)
    (channel : new.channel = old.channel.send progress) (timely : old.channel.Timely)
    (outcome : ∀ outcome, old.outcome = some outcome → new.outcome = some outcome) : old.Extends new id := by
  apply Entry.Extends.mk key
  · rw [channel, seen_send]
    exact fun member => member
  · intro wakes
    obtain ⟨version, seen, -⟩ := wakes
    have heard := heard_of_mem old.channel id (AList.lookup_isSome.mp (by rw [seen]; rfl))
    have before := timely id version seen
    refine ⟨version, by rw [channel, seen_send, seen], fun _ => ?_⟩
    rw [channel, send_heard old.channel progress heard]
    simp only
    omega
  · exact outcome

/-- A value is stored for every receiver there is. -/
theorem stored_send (channel : Channel Nat Progress) (progress : Progress) :
    (channel.send progress).value = progress ∨
      ((channel.send progress).value = channel.value ∧ ∀ receiver, receiver ∉ (channel.send progress).seen) := by
  cases heard : channel.heard with
  | true =>
    rw [send_heard channel progress heard]
    exact Or.inl rfl
  | false =>
    rw [send_unheard channel progress heard]
    exact Or.inr ⟨rfl, not_mem_of_unheard channel heard⟩

/-- What a driver's move keeps. -/
structure Moves (entry moved : Entry κ) : Prop where
  sound : moved.Sound
  key : moved.key = entry.key
  active : moved.active = true → entry.active = true
  extends_ : ∀ id, entry.Extends moved id

theorem moves_start (entry : Entry κ) (sound : entry.Sound) (stage : entry.stage = .spawned) :
    Moves entry { entry with stage := .running } := by
  have quiet := sound.quiet (Or.inl stage)
  apply Moves.mk
  · apply Entry.Sound.mk
    · exact sound.timely
    · exact fun _ => quiet
    · exact fun _ other => absurd rfl other
    · exact sound.stored
    · intro ended
      rcases ended with ended | ended | ended <;> cases ended
    · intro ended
      cases ended
  · rfl
  · intro _
    simp [Entry.active, stage]
  · exact fun id => extends_channel _ _ id rfl rfl (fun _ same => same)

theorem moves_send (entry : Entry κ) (progress : Progress) (sound : entry.Sound) (stage : entry.stage = .running)
    (growing : progress.terminal = false) : Moves entry (entry.send progress) := by
  have quiet := sound.quiet (Or.inr stage)
  have value : (entry.channel.send progress).value.terminal = false := by
    rcases stored_send entry.channel progress with stored | ⟨same, -⟩
    · rw [stored, growing]
    · rw [same, quiet.1]
  apply Moves.mk
  · apply Entry.Sound.mk
    · exact timely_send _ _ sound.timely
    · exact fun _ => ⟨value, quiet.2⟩
    · exact sound.ended
    · intro terminal
      rw [Entry.send, value] at terminal
      cases terminal
    · intro ended
      rw [Entry.send, stage] at ended
      rcases ended with ended | ended | ended <;> cases ended
    · intro ended
      rw [Entry.send, stage] at ended
      cases ended
  · rfl
  · exact fun active => active
  · exact fun id => extends_send _ _ id progress rfl rfl sound.timely (fun _ same => same)

theorem moves_report (entry : Entry κ) (outcome : Progress) (sound : entry.Sound) (stage : entry.stage = .running)
    (ended : outcome.terminal = true) :
    Moves entry { entry.send outcome with stage := .reported, outcome := some outcome } := by
  have quiet := sound.quiet (Or.inr stage)
  have stored := stored_send entry.channel outcome
  apply Moves.mk
  · apply Entry.Sound.mk
    · exact timely_send _ _ sound.timely
    · intro early
      rcases early with early | early <;> cases early
    · exact fun _ _ => rfl
    · intro terminal
      change (entry.channel.send outcome).value.terminal = true at terminal
      change some outcome = some (entry.channel.send outcome).value
      rcases stored with stored | ⟨same, -⟩
      · rw [stored]
      · rw [same, quiet.1] at terminal
        cases terminal
    · intro _
      change (entry.channel.send outcome).value.terminal = true ∨ ∀ receiver, receiver ∉ (entry.channel.send outcome).seen
      rcases stored with stored | ⟨-, unheard⟩
      · exact Or.inl (by rw [stored, ended])
      · exact Or.inr unheard
    · intro died
      cases died
  · rfl
  · intro _
    simp [Entry.active, stage]
  · refine fun id => extends_send _ _ id outcome rfl rfl sound.timely (fun other same => ?_)
    rw [quiet.2] at same
    cases same

theorem moves_die (entry : Entry κ) (sound : entry.Sound) (stage : entry.stage = .running) :
    Moves entry { entry with stage := .died, outcome := some (.failed .died) } := by
  have quiet := sound.quiet (Or.inr stage)
  apply Moves.mk
  · apply Entry.Sound.mk
    · exact sound.timely
    · intro early
      rcases early with early | early <;> cases early
    · exact fun _ _ => rfl
    · intro terminal
      rw [quiet.1] at terminal
      cases terminal
    · intro ended
      rcases ended with ended | ended | ended <;> cases ended
    · exact fun _ => ⟨quiet.1, rfl⟩
  · rfl
  · intro _
    simp [Entry.active, stage]
  · refine fun id => extends_channel _ _ id rfl rfl (fun other same => ?_)
    rw [quiet.2] at same
    cases same

/-- The guard's own report is heard or changes nothing. -/
theorem moves_guard (entry moved : Entry κ) (sound : entry.Sound) (stage : entry.stage = .reported ∨ entry.stage = .died)
    (guarded : (if entry.channel.value.terminal then { entry with stage := .guarded }
      else { entry.send (.failed .died) with stage := .guarded } : Entry κ) = moved) : Moves entry moved := by
  have ended : entry.outcome.isSome = true := by
    apply sound.ended
    · intro early
      rcases stage with ended | ended <;> rw [early] at ended <;> cases ended
    · intro early
      rcases stage with ended | ended <;> rw [early] at ended <;> cases ended
  have active : entry.active = true := by
    unfold Entry.active
    rcases stage with ended | ended <;> rw [ended] <;> decide
  subst guarded
  by_cases terminal : entry.channel.value.terminal = true
  · rw [if_pos terminal]
    apply Moves.mk
    · apply Entry.Sound.mk
      · exact sound.timely
      · intro early
        rcases early with early | early <;> cases early
      · exact fun _ _ => ended
      · exact sound.stored
      · exact fun _ => Or.inl terminal
      · intro died
        cases died
    · rfl
    · exact fun _ => active
    · exact fun id => extends_channel _ _ id rfl rfl (fun _ same => same)
  · have quiet : entry.channel.value.terminal = false := by simpa using terminal
    have stored := stored_send entry.channel (.failed .died)
    rw [if_neg terminal]
    apply Moves.mk
    · apply Entry.Sound.mk
      · exact timely_send _ _ sound.timely
      · intro early
        rcases early with early | early <;> cases early
      · exact fun _ _ => ended
      · intro ended
        change (entry.channel.send (.failed .died)).value.terminal = true at ended
        change entry.outcome = some (entry.channel.send (.failed .died)).value
        rcases stored with stored | ⟨same, -⟩
        · rw [stored]
          rcases stage with reported | died
          · -- A report that nobody heard leaves no receiver the guard could reach.
            rcases sound.told (Or.inl reported) with there | unheard
            · exact absurd there terminal
            · have silent := unheard_of_not_mem entry.channel unheard
              rw [send_unheard entry.channel _ silent] at stored
              rw [stored] at quiet
              cases quiet
          · exact (sound.died died).2
        · rw [same, quiet] at ended
          cases ended
      · intro _
        change (entry.channel.send (.failed .died)).value.terminal = true ∨
          ∀ receiver, receiver ∉ (entry.channel.send (.failed .died)).seen
        rcases stored with stored | ⟨-, unheard⟩
        · exact Or.inl (by rw [stored]; rfl)
        · exact Or.inr unheard
      · intro died
        cases died
    · rfl
    · exact fun _ => active
    · exact fun id => extends_send _ _ id (.failed .died) rfl rfl sound.timely (fun _ same => same)

theorem moves_remove (entry : Entry κ) (sound : entry.Sound) (stage : entry.stage = .guarded) :
    Moves entry { entry with stage := .removed } := by
  apply Moves.mk
  · apply Entry.Sound.mk
    · exact sound.timely
    · intro early
      rcases early with early | early <;> cases early
    · intro _ _
      apply sound.ended
      · rw [stage]
        decide
      · rw [stage]
        decide
    · exact sound.stored
    · exact fun _ => sound.told (Or.inr (Or.inl stage))
    · intro died
      cases died
  · rfl
  · intro active
    cases active
  · exact fun id => extends_channel _ _ id rfl rfl (fun _ same => same)

theorem moves_move (entry moved : Entry κ) (label : DriverLabel) (sound : entry.Sound)
    (steps : entry.move label = some moved) : Moves entry moved := by
  cases label with
  | start =>
    rw [Entry.move] at steps
    split_ifs at steps with stage
    cases steps
    exact moves_start entry sound stage
  | send progress =>
    rw [Entry.move] at steps
    split_ifs at steps with stage
    cases steps
    exact moves_send entry progress sound stage.1 stage.2
  | report outcome =>
    rw [Entry.move] at steps
    split_ifs at steps with stage
    cases steps
    exact moves_report entry outcome sound stage.1 stage.2
  | die =>
    rw [Entry.move] at steps
    split_ifs at steps with stage
    cases steps
    exact moves_die entry sound stage
  | guard =>
    rw [Entry.move] at steps
    by_cases stage : entry.stage = .reported ∨ entry.stage = .died
    · rw [if_pos stage] at steps
      apply moves_guard entry moved sound stage
      split_ifs at steps ⊢
      · exact Option.some.inj steps
      · exact Option.some.inj steps
    · rw [if_neg stage] at steps
      cases steps
  | remove =>
    rw [Entry.move] at steps
    split_ifs at steps with stage
    cases steps
    exact moves_remove entry sound stage

end Entries

/-! The callers. -/

section Entries
omit [DecidableEq κ]

theorem sound_subscribe (entry : Entry κ) (id : Nat) (sound : entry.Sound) (kept : entry.lost = false) :
    Entry.Sound { entry with channel := entry.channel.subscribe id } := by
  apply Entry.Sound.mk
  · exact timely_subscribe _ _ sound.timely
  · exact sound.quiet
  · exact sound.ended
  · exact sound.stored
  · intro ended
    apply Or.inl
    change entry.channel.value.terminal = true
    by_contra quiet
    have missed : entry.lost = true := by
      unfold Entry.lost
      rw [Bool.not_eq_true] at quiet
      rw [quiet]
      rcases ended with ended | ended | ended
      · simp [show entry.stage = _ from ended]
      · simp [show entry.stage = _ from ended]
      · simp [show entry.stage = _ from ended]
    rw [kept] at missed
    cases missed
  · exact sound.died

theorem sound_leave (entry : Entry κ) (id : Nat) (sound : entry.Sound) :
    Entry.Sound { entry with channel := entry.channel.leave id } := by
  apply Entry.Sound.mk
  · exact timely_leave _ _ sound.timely
  · exact sound.quiet
  · exact sound.ended
  · exact sound.stored
  · intro ended
    rcases sound.told ended with terminal | unheard
    · exact Or.inl terminal
    · refine Or.inr fun receiver member => ?_
      rw [Channel.leave, AList.mem_erase] at member
      exact unheard receiver member.2
  · exact sound.died

theorem extends_subscribe (entry : Entry κ) (id other : Nat) (differs : other ≠ id) :
    entry.Extends { entry with channel := entry.channel.subscribe id } other := by
  have same : (entry.channel.subscribe id).seen.lookup other = entry.channel.seen.lookup other :=
    AList.lookup_insert_ne differs
  apply Entry.Extends.mk
  · rfl
  · intro member
    apply AList.lookup_isSome.mp
    change ((entry.channel.subscribe id).seen.lookup other).isSome = true
    rw [same]
    exact AList.lookup_isSome.mpr member
  · intro wakes
    obtain ⟨version, seen, later⟩ := wakes
    exact ⟨version, same.trans seen, later⟩
  · exact fun _ same => same

theorem extends_leave (entry : Entry κ) (id other : Nat) (differs : other ≠ id) :
    entry.Extends { entry with channel := entry.channel.leave id } other := by
  have same : (entry.channel.leave id).seen.lookup other = entry.channel.seen.lookup other :=
    AList.lookup_erase_ne differs
  apply Entry.Extends.mk
  · rfl
  · intro member
    apply AList.lookup_isSome.mp
    change ((entry.channel.leave id).seen.lookup other).isSome = true
    rw [same]
    exact AList.lookup_isSome.mpr member
  · intro wakes
    obtain ⟨version, seen, later⟩ := wakes
    exact ⟨version, same.trans seen, later⟩
  · exact fun _ same => same

end Entries

/-- A caller changes its entry's channel and moves on. -/
theorem kept_turn (s : System κ) (id e : Nat) (old new : Entry κ) (next : Option (Caller κ)) (kept : Kept s)
    (found : s.entries.lookup e = some old) (sound : new.Sound) (key : new.key = old.key) (stage : new.stage = old.stage)
    (others : ∀ other, other ≠ id → old.Extends new other)
    (follows : ∀ caller, next = some caller → Follows (s.entries.insert e new) id caller.key caller.phase) :
    Kept { s.put e new with callers := replace s.callers id next } := by
  apply kept_put s e old new (replace s.callers id next) kept found sound key
  · unfold Entry.active
    rw [stage]
    exact fun active => active
  · intro other caller there
    by_cases same : other = id
    · subst same
      rw [lookup_replace] at there
      exact follows caller there
    · rw [lookup_replace_ne _ _ same] at there
      exact follows_put s.entries e other old new caller.key caller.phase found (others other same)
        (kept.follows other caller there)

/-- A caller moves on and touches no channel. -/
theorem kept_goes (s : System κ) (id : Nat) (next : Option (Caller κ)) (kept : Kept s)
    (follows : ∀ caller, next = some caller → Follows s.entries id caller.key caller.phase) :
    Kept { s with callers := replace s.callers id next } := by
  apply Kept.mk
  · exact kept.exclusive
  · exact kept.mapped
  · exact kept.sound
  · intro other caller there
    by_cases same : other = id
    · subst same
      rw [lookup_replace] at there
      exact follows caller there
    · rw [lookup_replace_ne _ _ same] at there
      exact kept.follows other caller there

omit [DecidableEq κ] in
theorem sound_new (key : κ) : Entry.Sound ⟨key, .new .pending, .spawned, none⟩ := by
  apply Entry.Sound.mk
  · intro receiver version seen
    cases seen
  · exact fun _ => ⟨rfl, rfl⟩
  · exact fun other => absurd rfl other
  · intro terminal
    cases terminal
  · intro ended
    rcases ended with ended | ended | ended <;> cases ended
  · intro died
    cases died

/-- A new download takes a free key. -/
theorem kept_create (s : System κ) (id fresh : Nat) (key : κ) (kept : Kept s) (absent : fresh ∉ s.entries)
    (free : s.map.lookup key = none) :
    Kept ({ s.put fresh ⟨key, .new .pending, .spawned, none⟩ with map := s.map.insert key fresh }.goes
      id key (.joined fresh)) := by
  have new : s.entries.lookup fresh = none := AList.lookup_eq_none.mpr absent
  have old (e : Nat) (entry : Entry κ) (there : s.entries.lookup e = some entry) :
      (s.entries.insert fresh ⟨key, .new .pending, .spawned, none⟩).lookup e = some entry := by
    have differs : e ≠ fresh := by
      intro same
      rw [same, new] at there
      cases there
    rw [AList.lookup_insert_ne differs, there]
  apply Kept.mk
  · apply kept.exclusive.insert fresh key free
    intro other k alive
    obtain ⟨entry, there, same, active⟩ := alive
    change (s.entries.insert fresh _).lookup other = _ at there
    by_cases equal : other = fresh
    · subst equal
      rw [AList.lookup_insert] at there
      cases there
      exact Or.inl ⟨rfl, same.symm⟩
    · rw [AList.lookup_insert_ne equal] at there
      exact Or.inr ⟨entry, there, same, active⟩
  · intro k e mapped
    change (s.map.insert key fresh).lookup k = _ at mapped
    change ∃ entry, (s.entries.insert fresh _).lookup e = some entry ∧ entry.key = k
    by_cases same : k = key
    · subst same
      rw [AList.lookup_insert] at mapped
      cases mapped
      exact ⟨_, AList.lookup_insert s.entries, rfl⟩
    · rw [AList.lookup_insert_ne same] at mapped
      obtain ⟨entry, there, named⟩ := kept.mapped k e mapped
      exact ⟨entry, old e entry there, named⟩
  · intro e entry there
    change (s.entries.insert fresh _).lookup e = _ at there
    by_cases same : e = fresh
    · subst same
      rw [AList.lookup_insert] at there
      cases there
      exact sound_new key
    · rw [AList.lookup_insert_ne same] at there
      exact kept.sound e entry there
  · intro other caller there
    change (s.callers.insert id ⟨key, .joined fresh⟩).lookup other = _ at there
    change Follows (s.entries.insert fresh _) other caller.key caller.phase
    by_cases same : other = id
    · subst same
      rw [AList.lookup_insert] at there
      cases there
      exact ⟨_, AList.lookup_insert s.entries, rfl⟩
    · rw [AList.lookup_insert_ne same] at there
      exact follows_grow s.entries _ other caller.key caller.phase old (kept.follows other caller there)

theorem kept_join (s after : System κ) (id fresh : Nat) (key : κ) (kept : Kept s)
    (steps : joinStep s id key fresh = some after) : Kept after := by
  unfold joinStep at steps
  cases mapped : s.map.lookup key with
  | some e =>
    rw [mapped] at steps
    cases steps
    apply kept_goes s id (some ⟨key, .joined e⟩) kept
    intro caller same
    cases same
    exact kept.mapped key e mapped
  | none =>
    rw [mapped] at steps
    by_cases taken : fresh ∈ s.entries
    · simp only [if_pos taken] at steps
      cases steps
    · simp only [if_neg taken] at steps
      cases steps
      exact kept_create s id fresh key kept taken mapped

theorem kept_leave (s : System κ) (id : Nat) (phase : Phase) (kept : Kept s) :
    Kept { s.leave id phase with callers := s.callers.erase id } := by
  have gone : Kept { s with callers := s.callers.erase id } :=
    kept_goes s id none kept (fun caller same => by cases same)
  unfold System.leave
  cases phase.receiver with
  | none => exact gone
  | some e =>
    simp only
    cases found : s.entries.lookup e with
    | none => exact gone
    | some entry =>
      exact kept_turn s id e entry { entry with channel := entry.channel.leave id } none kept found
        (sound_leave entry id (kept.sound e entry found)) rfl rfl (fun other => extends_leave entry id other)
        (fun caller same => by cases same)

theorem kept_look (s : System κ) (id e : Nat) (key : κ) (entry : Entry κ) (kept : Kept s)
    (found : s.entries.lookup e = some entry) (named : entry.key = key) (member : id ∈ entry.channel.seen) :
    Kept (lookStep s id key e entry) := by
  have sound := kept.sound e entry found
  unfold lookStep
  split_ifs with terminal
  · apply kept_turn s id e entry { entry with channel := entry.channel.leave id }
      (some ⟨key, .received e entry.channel.value⟩) kept found (sound_leave entry id sound) rfl rfl
      (fun other => extends_leave entry id other)
    intro caller same
    cases same
    exact ⟨_, AList.lookup_insert s.entries, named, sound.stored terminal⟩
  · apply kept_goes s id (some ⟨key, .parked e⟩) kept
    intro caller same
    cases same
    obtain ⟨version, seen⟩ := Option.isSome_iff_exists.mp (AList.lookup_isSome.mpr member)
    exact ⟨entry, found, named, version, seen, fun ended => absurd ended terminal⟩

/-- A caller's receiver sees what the channel stores now. -/
theorem kept_see (s : System κ) (id e : Nat) (key : κ) (entry : Entry κ) (kept : Kept s)
    (found : s.entries.lookup e = some entry) (named : entry.key = key) (told : entry.lost = false) :
    Kept ((s.put e { entry with channel := entry.channel.subscribe id }).goes id key (.watching e)) := by
  apply kept_turn s id e entry { entry with channel := entry.channel.subscribe id } (some ⟨key, .watching e⟩) kept
    found (sound_subscribe entry id (kept.sound e entry found) told) rfl rfl
    (fun other => extends_subscribe entry id other)
  intro caller same
  cases same
  refine ⟨_, AList.lookup_insert s.entries, named, ?_⟩
  rw [Channel.subscribe, AList.mem_insert]
  exact Or.inl rfl

omit [DecidableEq κ] in
/-- What is sent while there is a receiver is stored. -/
theorem not_lost (entry : Entry κ) (id : Nat) (sound : entry.Sound) (member : id ∈ entry.channel.seen) :
    entry.lost = false := by
  unfold Entry.lost
  cases terminal : entry.channel.value.terminal with
  | true => rfl
  | false =>
    have present (past : entry.stage = .reported ∨ entry.stage = .guarded ∨ entry.stage = .removed) : False := by
      rcases sound.told past with stored | unheard
      · rw [terminal] at stored
        cases stored
      · exact unheard id member
    simp only [Bool.not_false, Bool.true_and, Bool.or_eq_false_iff, decide_eq_false_iff_not]
    exact ⟨⟨fun past => present (Or.inl past), fun past => present (Or.inr (Or.inl past))⟩,
      fun past => present (Or.inr (Or.inr past))⟩

theorem kept_caller (s after : System κ) (id : Nat) (key : κ) (phase : Phase) (label : CallerLabel) (kept : Kept s)
    (found : s.callers.lookup id = some ⟨key, phase⟩) (hears : heard s (.caller id label) = true)
    (steps : callerStep s id key phase label = some after) : Kept after := by
  have follows := kept.follows id _ found
  cases label with
  | join fresh =>
    rw [callerStep] at steps
    by_cases locking : phase = .locking
    · subst locking
      rw [if_pos rfl] at steps
      exact kept_join s after id fresh key kept steps
    · rw [if_neg locking] at steps
      cases steps
  | subscribe =>
    cases phase with
    | joined e =>
      obtain ⟨entry, there, named⟩ := follows
      rw [callerStep, there] at steps
      cases steps
      have told : entry.lost = false := by
        simp only [heard, found, there, Option.any_some, Bool.not_eq_true'] at hears
        exact hears
      exact kept_see s id e key entry kept there named told
    | _ => cases steps
  | look =>
    cases phase with
    | watching e =>
      obtain ⟨entry, there, named, member⟩ := follows
      rw [callerStep, there] at steps
      cases steps
      exact kept_look s id e key entry kept there named member
    | _ => cases steps
  | wake =>
    cases phase with
    | parked e =>
      obtain ⟨entry, there, named, version, seen, -⟩ := follows
      rw [callerStep, there, Option.bind_some] at steps
      split_ifs at steps with changed
      cases steps
      have member : id ∈ entry.channel.seen := AList.lookup_isSome.mp (by rw [seen]; rfl)
      exact kept_see s id e key entry kept there named (not_lost entry id (kept.sound e entry there) member)
    | _ => cases steps
  | drop =>
    cases steps
    exact kept_leave s id phase kept

theorem kept_driver (s after : System κ) (e : Nat) (entry : Entry κ) (label : DriverLabel) (kept : Kept s)
    (found : s.entries.lookup e = some entry) (steps : driverStep s e entry label = some after) : Kept after := by
  obtain ⟨moved, moves, result⟩ := Option.map_eq_some_iff.mp steps
  have keeps := moves_move entry moved label (kept.sound e entry found) moves
  have put : Kept (s.put e moved) :=
    kept_put s e entry moved s.callers kept found keeps.sound keeps.key keeps.active fun id caller there =>
      follows_put s.entries e id entry moved caller.key caller.phase found (keeps.extends_ id)
        (kept.follows id caller there)
  by_cases removes : label = .remove
  · rw [if_pos removes] at result
    subst removes
    rw [Entry.move] at moves
    split_ifs at moves with stage
    cases moves
    subst result
    have mine := kept.exclusive e entry.key ⟨entry, found, rfl, by simp [Entry.active, stage]⟩
    apply Kept.mk
    · apply put.exclusive.erase entry.key (fun _ _ alive => alive)
      intro other alive
      have named : s.map.lookup entry.key = some other := put.exclusive other entry.key alive
      rw [mine] at named
      cases named
      obtain ⟨gone, there, -, active⟩ := alive
      change (s.entries.insert e _).lookup e = _ at there
      rw [AList.lookup_insert] at there
      cases there
      cases active
    · intro k other mapped
      exact put.mapped k other (lookup_erase_some s.map entry.key k other mapped).2
    · exact put.sound
    · exact put.follows
  · rw [if_neg removes] at result
    subst result
    exact put

theorem kept_step (s after : System κ) (label : Label κ) (kept : Kept s) (hears : heard s label = true)
    (steps : step s label = some after) : Kept after := by
  cases label with
  | call id key =>
    rw [step] at steps
    split_ifs at steps with taken
    cases steps
    apply kept_goes s id (some ⟨key, .locking⟩) kept
    intro caller same
    cases same
    trivial
  | caller id label =>
    obtain ⟨caller, found, moves⟩ := Option.bind_eq_some_iff.mp steps
    exact kept_caller s after id caller.key caller.phase label kept found hears moves
  | driver e label =>
    obtain ⟨entry, found, moves⟩ := Option.bind_eq_some_iff.mp steps
    exact kept_driver s after e entry label kept found moves

theorem reached_kept {s : System κ} (reached : Reaches machine (fun s label => heard s label = true) s) : Kept s :=
  reached.invariant Kept (fun _ begins => by rw [begins]; exact kept_empty)
    (fun s label after kept hears steps => kept_step s after label kept hears steps)

theorem kept_single (s : System κ) (kept : Kept s) : Single s := by
  apply Single.mk
  · intro a b x y left right active active' same
    exact kept.exclusive.unique ⟨x, left, same, active⟩ ⟨y, right, rfl, active'⟩
  · intro id caller e outcome found received
    have follows := kept.follows id caller found
    rw [received] at follows
    exact follows
  · intro id caller e entry found there ended outcome given
    have follows := kept.follows id caller found
    have sound := kept.sound e entry there
    have terminal (member : id ∈ entry.channel.seen) : entry.channel.value.terminal = true := by
      rcases sound.told (Or.inr ended) with terminal | unheard
      · exact terminal
      · exact absurd member (unheard id)
    constructor
    · intro watching
      rw [watching] at follows
      obtain ⟨entry', there', -, member⟩ := follows
      rw [there] at there'
      cases there'
      have stores := sound.stored (terminal member)
      rw [given] at stores
      have steps : step s (.caller id .look) = some (lookStep s id caller.key e entry) := by
        rw [step, found, Option.bind_some, watching, callerStep, there, Option.map_some]
      refine ⟨_, steps, ?_⟩
      rw [lookStep, if_pos (terminal member), ← Option.some.inj stores]
      exact AList.lookup_insert s.callers
    · intro parked
      rw [parked] at follows
      obtain ⟨entry', there', -, version, seen, later⟩ := follows
      rw [there] at there'
      cases there'
      have member : id ∈ entry.channel.seen := AList.lookup_isSome.mp (by rw [seen]; rfl)
      have changed : entry.channel.changed id = true := by
        rw [Channel.changed, seen, Option.any_some, decide_eq_true_eq]
        exact later (terminal member)
      refine ⟨(s.put e { entry with channel := entry.channel.markSeen id }).goes id caller.key (.watching e), ?_,
        AList.lookup_insert s.callers⟩
      rw [step, found, Option.bind_some, parked, callerStep, there, Option.bind_some, if_pos changed]
  · intro e after steps k other differs mapped
    obtain ⟨entry, found, moves⟩ := Option.bind_eq_some_iff.mp steps
    obtain ⟨moved, move, result⟩ := Option.map_eq_some_iff.mp moves
    rw [Entry.move] at move
    split_ifs at move with stage
    rw [if_pos rfl] at result
    subst result
    have mine := kept.exclusive e entry.key ⟨entry, found, rfl, by simp [Entry.active, stage]⟩
    have apart : k ≠ entry.key := by
      intro same
      rw [same, mine] at mapped
      exact differs (Option.some.inj mapped).symm
    change (s.map.erase entry.key).lookup k = some other
    rw [AList.lookup_erase_ne apart, mapped]

end Steps

end OriginCache.Cache.Flights
