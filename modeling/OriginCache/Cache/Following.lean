import OriginCache.Foundation.Slices
import OriginCache.Cache.Store
import OriginCache.Cache.Flight

/-! The bytes that the readers of a download yield. The driver appends the object's
next bytes to its file, and a body reads the file from its own offset on. -/

namespace OriginCache.Cache.Following
open Foundation.Tables Foundation.Runs Foundation.Slices Flight
open Store (Bytes)

/-- One body: the span it was opened for and the bytes it has yielded. -/
structure Body where
  start : Nat
  len : Option Nat
  yielded : Bytes
deriving DecidableEq, Repr

structure State where
  flight : Flight.State
  file : Bytes
  bodies : Table Nat Body

/-- What one step of the download does to the bytes. A handle that a body opened
reads the same file before the rename, after it, and after the file was removed. -/
def carry (object : Bytes) (s : State) (flight : Flight.State) : Label → Option State
  | .driver (.create ok) => some ⟨flight, if ok then [] else s.file, s.bodies⟩
  | .driver (.write bytes) =>
      if s.file.length + bytes ≤ object.length then
        some ⟨flight, s.file ++ slice object s.file.length bytes, s.bodies⟩
      else none
  | .reader id (.attach pos len) => some ⟨flight, s.file, s.bodies.insert id ⟨pos, len, []⟩⟩
  | .reader id (.body pos len) => some ⟨flight, s.file, s.bodies.insert id ⟨pos, len, []⟩⟩
  | .reader id (.read bytes) =>
      match s.flight.readers.lookup id, s.bodies.lookup id with
      | some r, some b =>
          some ⟨flight, s.file, s.bodies.insert id { b with yielded := b.yielded ++ slice s.file r.pos bytes }⟩
      | _, _ => none
  | _ => some ⟨flight, s.file, s.bodies⟩

def step (object : Bytes) (kind : Kind) (promised : Option Nat) (s : State) (label : Label) : Option State :=
  (Flight.step kind promised s.flight label).bind fun flight => carry object s flight label

def machine (object : Bytes) (kind : Kind) (promised : Option Nat) : Machine State Label :=
  ⟨fun s => s = ⟨begin, [], ∅⟩, step object kind promised⟩

/-- Every body has yielded a prefix of its span, and one that ended without an
error has yielded all of it. -/
structure Faithful (object : Bytes) (s : State) : Prop where
  inOrder : ∀ id b len, s.bodies.lookup id = some b → b.len = some len →
    b.yielded <+: slice object b.start len
  whole : ∀ id r b len, s.flight.readers.lookup id = some r → r.phase = .ended →
    s.bodies.lookup id = some b → b.len = some len → b.yielded.length = len

/-- A body that still owes bytes has read up to the end of the file, and finds the
download done when it looks. -/
def cutsShort (s : State) : Label → Bool
  | .reader id .act =>
      (s.flight.readers.lookup id).any fun r =>
        r.phase = .atEnd && r.remaining.any (0 < ·) && s.flight.channel.value = .done
  | _ => false

theorem cutsShort_acts (s : State) (label : Label) (cut : cutsShort s label = true) :
    ∃ id, label = .reader id .act := by
  cases label with
  | driver label => simp [cutsShort] at cut
  | reader id label =>
    cases label with
    | act => exact ⟨id, rfl⟩
    | _ => simp [cutsShort] at cut

/-! What a step of the download does to its readers. -/

/-- A reader keeps its place unless it reads, and it ends where it owes nothing or
finds the download done behind the end of the file. -/
structure Advances (s : Flight.State) (r r' : Reader) (label : ReaderLabel) (bytes : Nat) : Prop where
  reads : label = .read bytes ∨ (bytes = 0 ∧ ∀ count, label ≠ .read count)
  limited : bytes ≤ readLimit s r
  place : r'.pos = r.pos + bytes
  owed : r'.remaining = r.remaining.map (· - bytes)
  ends : r'.phase = .ended → label = .act ∧
    (r.remaining = some 0 ∨ (r.phase = .atEnd ∧ s.channel.value = .done))

theorem act_advances (s : Flight.State) (r r' : Reader) (acts : act s r = some r') :
    Advances s r r' .act 0 := by
  have owed : r.remaining = r.remaining.map (· - 0) := by simp
  unfold act at acts
  repeat' split at acts
  all_goals cases acts
  all_goals refine ⟨Or.inr ⟨rfl, fun _ => nofun⟩, Nat.zero_le _, rfl, owed, ?_⟩
  all_goals simp_all

theorem move_advances (s : Flight.State) (id : Nat) (r r' : Reader) (label : ReaderLabel)
    (moves : move s id r label = some r') : ∃ bytes, Advances s r r' label bytes := by
  have owed : r.remaining = r.remaining.map (· - 0) := by simp
  cases label with
  | act => exact ⟨0, act_advances s r r' moves⟩
  | read bytes =>
    refine ⟨bytes, ?_⟩
    simp only [move, Flight.read] at moves
    split_ifs at moves with reading none_left limit within
    · cases moves
      subst none_left
      exact ⟨Or.inl rfl, Nat.zero_le _, rfl, owed, by rintro ⟨⟩⟩
    · cases moves
      exact ⟨Or.inl rfl, within, rfl, rfl, by rintro ⟨⟩⟩
  | poll =>
    simp only [move] at moves
    split_ifs at moves
    cases moves
    exact ⟨0, Or.inr ⟨rfl, fun _ => by rintro ⟨⟩⟩, Nat.zero_le _, rfl, owed, by rintro ⟨⟩⟩
  | wake =>
    simp only [move, resume] at moves
    repeat' split at moves
    all_goals cases moves
    all_goals exact ⟨0, Or.inr ⟨rfl, fun _ => by rintro ⟨⟩⟩, Nat.zero_le _, rfl, owed, by rintro ⟨⟩⟩
  | stall =>
    simp only [move] at moves
    split_ifs at moves
    cases moves
    exact ⟨0, Or.inr ⟨rfl, fun _ => by rintro ⟨⟩⟩, Nat.zero_le _, rfl, owed, by rintro ⟨⟩⟩
  | attach pos len => cases moves
  | body pos len => cases moves
  | drop => cases moves

/-- A reader is new, or gone, or has made a move. -/
theorem readerStep_cases (kind : Kind) (s s' : Flight.State) (id : Nat) (label : ReaderLabel)
    (steps : readerStep kind s id label = some s') :
    s'.size = s.size ∧
      ((∃ pos len phase, (label = .attach pos len ∨ label = .body pos len) ∧ phase ≠ .ended ∧
          s'.readers = s.readers.insert id ⟨phase, pos, len, false⟩) ∨
        (label = .drop ∧ s'.readers = s.readers.erase id) ∨
        ∃ r r' bytes, s.readers.lookup id = some r ∧ move s id r label = some r' ∧
          Advances s r r' label bytes ∧ s'.readers = s.readers.insert id r') := by
  have own : takeTurn s id label = some s' → s'.size = s.size ∧
      ∃ r r' bytes, s.readers.lookup id = some r ∧ move s id r label = some r' ∧
        Advances s r r' label bytes ∧ s'.readers = s.readers.insert id r' := by
    intro turn
    obtain ⟨r, r', found, moves, rfl⟩ := takeTurn_cases s s' id label turn
    obtain ⟨bytes, advances⟩ := move_advances s id r r' label moves
    exact ⟨rfl, r, r', bytes, found, moves, advances, rfl⟩
  cases label with
  | attach pos len =>
    simp only [readerStep] at steps
    split_ifs at steps
    cases steps
    exact ⟨rfl, Or.inl ⟨pos, len, .heading, Or.inl rfl, by decide, rfl⟩⟩
  | body pos len =>
    simp only [readerStep] at steps
    split_ifs at steps
    cases steps
    exact ⟨rfl, Or.inl ⟨pos, len, .unpolled, Or.inr rfl, by decide, rfl⟩⟩
  | drop =>
    simp only [readerStep] at steps
    split_ifs at steps
    cases steps
    exact ⟨rfl, Or.inr (Or.inl ⟨rfl, rfl⟩)⟩
  | poll => exact ⟨(own steps).1, Or.inr (Or.inr (own steps).2)⟩
  | act => exact ⟨(own steps).1, Or.inr (Or.inr (own steps).2)⟩
  | read bytes => exact ⟨(own steps).1, Or.inr (Or.inr (own steps).2)⟩
  | wake => exact ⟨(own steps).1, Or.inr (Or.inr (own steps).2)⟩
  | stall => exact ⟨(own steps).1, Or.inr (Or.inr (own steps).2)⟩

/-- How the file's size moves under the driver. -/
def sizeAfter (size : Nat) : DriverLabel → Nat
  | .create true => 0
  | .write bytes => size + bytes
  | _ => size

theorem driverStep_size (kind : Kind) (promised : Option Nat) (s s' : Flight.State) (label : DriverLabel)
    (steps : driverStep kind promised s label = some s') : s'.size = sizeAfter s.size label := by
  cases label <;> simp only [driverStep] at steps <;> repeat' split at steps
  all_goals cases steps
  all_goals first | rfl | simp_all [sizeAfter, failing]

/-! The invariant: the file is the object's beginning, and every reader stands
behind the bytes it has yielded. -/

structure Owes (b : Body) (r : Reader) : Prop where
  place : r.pos = b.start + b.yielded.length
  rest : r.remaining = b.len.map (· - b.yielded.length)

structure Tracks (object : Bytes) (s : State) : Prop where
  filed : ReadFrom object 0 s.file
  sized : s.file.length = s.flight.size
  owed : ∀ id r, s.flight.readers.lookup id = some r → ∃ b, s.bodies.lookup id = some b ∧ Owes b r
  yields : ∀ id b, s.bodies.lookup id = some b →
    ReadFrom object b.start b.yielded ∧ ∀ len, b.len = some len → b.yielded.length ≤ len

theorem tracks_begin (object : Bytes) : Tracks object ⟨begin, [], ∅⟩ := by
  refine ⟨readFrom_nil object 0, rfl, ?_, ?_⟩
  · intro id r found
    simp [begin] at found
  · intro id b found
    simp at found

theorem tracks_driver (object : Bytes) (kind : Kind) (promised : Option Nat) (s after : State)
    (label : DriverLabel) (tracks : Tracks object s)
    (steps : step object kind promised s (.driver label) = some after) :
    Tracks object after ∧ after.flight.readers = s.flight.readers ∧ after.bodies = s.bodies := by
  obtain ⟨flight, moves, carries⟩ := Option.bind_eq_some_iff.mp steps
  have readers := (driver_cases kind promised s.flight flight label moves).1
  have size := driverStep_size kind promised s.flight flight label moves
  have frame : ∀ file : Bytes, ReadFrom object 0 file → file.length = flight.size →
      Tracks object ⟨flight, file, s.bodies⟩ := fun file filed sized =>
    ⟨filed, sized, by simpa only [readers] using tracks.owed, tracks.yields⟩
  cases label with
  | create ok =>
    cases carries
    refine ⟨?_, readers, rfl⟩
    cases ok with
    | true => exact frame [] (readFrom_nil object 0) size.symm
    | false => exact frame s.file tracks.filed (tracks.sized.trans size.symm)
  | write bytes =>
    simp only [carry] at carries
    split_ifs at carries with room
    cases carries
    have next : (slice object s.file.length bytes).length = bytes := by
      rw [length_slice]
      omega
    refine ⟨frame _ ?_ ?_, readers, rfl⟩
    · apply tracks.filed.append
      rw [Nat.zero_add, ReadFrom, next]
    · rw [List.length_append, next, tracks.sized, size, sizeAfter]
  | _ =>
    cases carries
    exact ⟨frame s.file tracks.filed (tracks.sized.trans size.symm), readers, rfl⟩

theorem tracks_new (object : Bytes) (s after : State) (id pos : Nat) (len : Option Nat) (phase : Phase)
    (tracks : Tracks object s) (size : after.flight.size = s.flight.size) (file : after.file = s.file)
    (readers : after.flight.readers = s.flight.readers.insert id ⟨phase, pos, len, false⟩)
    (bodies : after.bodies = s.bodies.insert id ⟨pos, len, []⟩) : Tracks object after := by
  refine ⟨by rw [file]; exact tracks.filed, by rw [file, size]; exact tracks.sized, ?_, ?_⟩
  · intro other r found
    rw [readers] at found
    rw [bodies]
    by_cases same : other = id
    · subst same
      rw [AList.lookup_insert] at found
      cases found
      exact ⟨_, AList.lookup_insert _, rfl, by simp⟩
    · rw [AList.lookup_insert_ne same] at found ⊢
      exact tracks.owed other r found
  · intro other b found
    rw [bodies] at found
    cases lookup_insert_some _ _ _ _ _ found with
    | inl new =>
      rw [new.2]
      exact ⟨readFrom_nil object pos, fun _ _ => Nat.zero_le _⟩
    | inr old => exact tracks.yields other b old.2

/-- A read hands on what the file holds at the reader's place, which is what the
object holds there. -/
theorem yields_read (object : Bytes) (s : State) (id bytes : Nat) (r : Reader) (b : Body)
    (tracks : Tracks object s) (found : s.bodies.lookup id = some b) (owes : Owes b r)
    (limited : bytes ≤ readLimit s.flight r) :
    (slice s.file r.pos bytes).length = bytes ∧
      ReadFrom object b.start (b.yielded ++ slice s.file r.pos bytes) ∧
      ∀ len, b.len = some len → (b.yielded ++ slice s.file r.pos bytes).length ≤ len := by
  have length : (slice s.file r.pos bytes).length = bytes := by
    rw [length_slice, tracks.sized]
    unfold readLimit at limited
    omega
  refine ⟨length, ?_, ?_⟩
  · apply (tracks.yields id b found).1.append
    have piece := tracks.filed.slice r.pos bytes
    rw [Nat.zero_add] at piece
    rw [← owes.place]
    exact piece
  · intro len bounded
    have within := (tracks.yields id b found).2 len bounded
    have rest : bytes ≤ len - b.yielded.length := by
      unfold readLimit at limited
      rw [owes.rest, bounded] at limited
      simp only [Option.map_some, Option.elim_some] at limited
      omega
    rw [List.length_append, length]
    omega

theorem tracks_reader (object : Bytes) (kind : Kind) (promised : Option Nat) (s after : State) (id : Nat)
    (label : ReaderLabel) (tracks : Tracks object s)
    (steps : step object kind promised s (.reader id label) = some after) : Tracks object after := by
  obtain ⟨flight, moves, carries⟩ := Option.bind_eq_some_iff.mp steps
  obtain ⟨size, fresh | gone | moved⟩ := readerStep_cases kind s.flight flight id label moves
  · obtain ⟨pos, len, phase, either, -, readers⟩ := fresh
    cases either with
    | inl attach =>
      subst attach
      cases carries
      exact tracks_new object s _ id pos len phase tracks size rfl readers rfl
    | inr body =>
      subst body
      cases carries
      exact tracks_new object s _ id pos len phase tracks size rfl readers rfl
  · obtain ⟨rfl, readers⟩ := gone
    cases carries
    refine ⟨tracks.filed, tracks.sized.trans size.symm, ?_, tracks.yields⟩
    intro other r found
    rw [show flight.readers = _ from readers] at found
    exact tracks.owed other r (lookup_erase_some _ _ _ _ found).2
  · obtain ⟨r, r', bytes, found, -, advances, readers⟩ := moved
    obtain ⟨b, held, owes⟩ := tracks.owed id r found
    have others : ∀ (bodies : Table Nat Body) (b' : Body), bodies.lookup id = some b' → Owes b' r' →
        (∀ other, other ≠ id → bodies.lookup other = s.bodies.lookup other) →
        ∀ other q, flight.readers.lookup other = some q → ∃ c, bodies.lookup other = some c ∧ Owes c q := by
      intro bodies b' mine owes' rest other q present
      rw [readers] at present
      by_cases same : other = id
      · subst same
        rw [AList.lookup_insert] at present
        cases present
        exact ⟨b', mine, owes'⟩
      · rw [AList.lookup_insert_ne same] at present
        rw [rest other same]
        exact tracks.owed other q present
    rcases advances.reads with rfl | ⟨rfl, other⟩
    · simp only [carry, found, held] at carries
      cases carries
      obtain ⟨length, inOrder, within⟩ := yields_read object s id bytes r b tracks held owes advances.limited
      refine ⟨tracks.filed, tracks.sized.trans size.symm, ?_, ?_⟩
      · apply others _ { b with yielded := b.yielded ++ slice s.file r.pos bytes } (AList.lookup_insert _)
        · apply Owes.mk
          · change r'.pos = b.start + (b.yielded ++ slice s.file r.pos bytes).length
            rw [List.length_append, length, advances.place, owes.place, Nat.add_assoc]
          · change r'.remaining = b.len.map (· - (b.yielded ++ slice s.file r.pos bytes).length)
            rw [advances.owed, owes.rest, Option.map_map, List.length_append, length]
            apply congrArg (Option.map · b.len)
            funext len
            exact (Nat.sub_add_eq _ _ _).symm
        · exact fun x differs => AList.lookup_insert_ne differs
      · intro x c present
        cases lookup_insert_some _ _ _ _ _ present with
        | inl new =>
          rw [new.2]
          exact ⟨inOrder, within⟩
        | inr old => exact tracks.yields x c old.2
    · have same : after = ⟨flight, s.file, s.bodies⟩ := by
        cases label with
        | read count => exact (other count rfl).elim
        | attach pos len => simp [Flight.step, readerStep, lookup_mem _ _ _ found] at moves
        | body pos len => simp [Flight.step, readerStep, lookup_mem _ _ _ found] at moves
        | _ =>
          cases carries
          rfl
      subst same
      refine ⟨tracks.filed, tracks.sized.trans size.symm, ?_, tracks.yields⟩
      refine others s.bodies b held ⟨advances.place.trans owes.place, ?_⟩ fun _ _ => rfl
      rw [advances.owed, owes.rest, Option.map_map]
      apply congrArg (Option.map · b.len)
      funext len
      rfl

theorem tracks_step (object : Bytes) (kind : Kind) (promised : Option Nat) (s after : State) (label : Label)
    (tracks : Tracks object s) (steps : step object kind promised s label = some after) :
    Tracks object after := by
  cases label with
  | driver label => exact (tracks_driver object kind promised s after label tracks steps).1
  | reader id label => exact tracks_reader object kind promised s after id label tracks steps

theorem tracks_reaches (object : Bytes) (kind : Kind) (promised : Option Nat)
    {allowed : State → Label → Prop} (s : State) (reached : Reaches (machine object kind promised) allowed s) :
    Tracks object s := by
  apply Reaches.invariant (Tracks object) _ _ reached
  · intro state begins
    rw [show state = ⟨begin, [], ∅⟩ from begins]
    exact tracks_begin object
  · exact fun state label after tracks _ steps => tracks_step object kind promised state after label tracks steps

/-! The end of a body. -/

theorem inOrder_of_tracks (object : Bytes) (s : State) (tracks : Tracks object s) (id : Nat) (b : Body)
    (len : Nat) (found : s.bodies.lookup id = some b) (bounded : b.len = some len) :
    b.yielded <+: slice object b.start len := by
  obtain ⟨inOrder, within⟩ := tracks.yields id b found
  rw [show b.yielded = _ from inOrder]
  exact slice_prefix object b.start (within len bounded)

/-- Another reader and its body stay as they are. -/
theorem others_kept (object : Bytes) (kind : Kind) (promised : Option Nat) (s after : State) (id x : Nat)
    (label : ReaderLabel) (other : x ≠ id)
    (steps : step object kind promised s (.reader id label) = some after) :
    after.flight.readers.lookup x = s.flight.readers.lookup x ∧ after.bodies.lookup x = s.bodies.lookup x := by
  obtain ⟨flight, moves, carries⟩ := Option.bind_eq_some_iff.mp steps
  have readers : flight.readers.lookup x = s.flight.readers.lookup x := by
    obtain ⟨-, ⟨_, _, _, -, -, fresh⟩ | ⟨-, gone⟩ | ⟨_, _, _, -, -, -, moved⟩⟩ :=
      readerStep_cases kind s.flight flight id label moves
    · rw [fresh, AList.lookup_insert_ne other]
    · rw [gone, AList.lookup_erase_ne other]
    · rw [moved, AList.lookup_insert_ne other]
  cases label with
  | attach pos len =>
    cases carries
    exact ⟨readers, AList.lookup_insert_ne other⟩
  | body pos len =>
    cases carries
    exact ⟨readers, AList.lookup_insert_ne other⟩
  | read bytes =>
    simp only [carry] at carries
    split at carries
    · cases carries
      exact ⟨readers, AList.lookup_insert_ne other⟩
    · cases carries
  | _ =>
    cases carries
    exact ⟨readers, rfl⟩

theorem bodies_act (object : Bytes) (kind : Kind) (promised : Option Nat) (s after : State) (id : Nat)
    (steps : step object kind promised s (.reader id .act) = some after) :
    after.bodies = s.bodies ∧ readerStep kind s.flight id .act = some after.flight := by
  obtain ⟨flight, moves, carries⟩ := Option.bind_eq_some_iff.mp steps
  cases carries
  exact ⟨rfl, moves⟩

theorem whole_kept (object : Bytes) (kind : Kind) (promised : Option Nat) (s after : State) (label : Label)
    (tracks : Tracks object s) (faithful : Faithful object s) (uncut : cutsShort s label = false)
    (steps : step object kind promised s label = some after) (x : Nat) (q : Reader) (c : Body) (len : Nat)
    (present : after.flight.readers.lookup x = some q) (ended : q.phase = .ended)
    (held : after.bodies.lookup x = some c) (bounded : c.len = some len) : c.yielded.length = len := by
  cases label with
  | driver label =>
    obtain ⟨-, readers, bodies⟩ := tracks_driver object kind promised s after label tracks steps
    rw [readers] at present
    rw [bodies] at held
    exact faithful.whole x q c len present ended held bounded
  | reader id label =>
    by_cases same : x = id
    · subst same
      obtain ⟨flight, moves, carries⟩ := Option.bind_eq_some_iff.mp steps
      have now : after.flight = flight := by
        unfold carry at carries
        repeat' split at carries
        all_goals cases carries
        all_goals rfl
      rw [now] at present
      obtain ⟨-, ⟨pos, len', phase, -, running, fresh⟩ | ⟨-, gone⟩ | ⟨r, r', bytes, found, -, advances, moved⟩⟩ :=
        readerStep_cases kind s.flight flight x label moves
      · rw [fresh, AList.lookup_insert] at present
        cases present
        exact (running ended).elim
      · rw [gone, AList.lookup_erase] at present
        cases present
      · rw [moved, AList.lookup_insert] at present
        cases present
        obtain ⟨rfl, stops⟩ := advances.ends ended
        rw [(bodies_act object kind promised s after x steps).1] at held
        obtain ⟨b, mine, owes⟩ := tracks.owed x r found
        rw [held] at mine
        cases mine
        have within := (tracks.yields x c held).2 len bounded
        have rest : r.remaining = some (len - c.yielded.length) := by
          rw [owes.rest, bounded]
          rfl
        rcases stops with satisfied | ⟨atEnd, done⟩
        · have none_left : len - c.yielded.length = 0 := by
            rw [rest] at satisfied
            exact Option.some.inj satisfied
          omega
        · simp only [cutsShort, found, Option.any_some, atEnd, done, rest, decide_true, Bool.true_and,
            Bool.and_true, decide_eq_false_iff_not] at uncut
          omega
    · obtain ⟨readers, bodies⟩ := others_kept object kind promised s after id x label same steps
      rw [readers] at present
      rw [bodies] at held
      exact faithful.whole x q c len present ended held bounded

/-- A run keeps every body faithful up to the first look that cuts one short, and
not beyond it. -/
theorem faithful_until_cut (object : Bytes) (kind : Kind) (promised : Option Nat) :
    (∀ s, Reaches (machine object kind promised) (fun s label => cutsShort s label = false) s →
      Faithful object s) ∧
    ∀ s label after, Reaches (machine object kind promised) (fun _ _ => True) s → cutsShort s label = true →
      (machine object kind promised).step s label = some after → ¬ Faithful object after := by
  apply And.intro
  · intro s reached
    have both : Tracks object s ∧ Faithful object s := by
      apply Reaches.invariant (fun s => Tracks object s ∧ Faithful object s) _ _ reached
      · intro state begins
        rw [show state = ⟨begin, [], ∅⟩ from begins]
        refine ⟨tracks_begin object, ?_, ?_⟩
        · intro id b len found
          simp at found
        · intro id r b len found
          simp [begin] at found
      · intro state label after held uncut steps
        have next := tracks_step object kind promised state after label held.1 steps
        exact ⟨next, inOrder_of_tracks object after next,
          whole_kept object kind promised state after label held.1 held.2 uncut steps⟩
    exact both.2
  · intro s label after reached cut steps faithful
    have tracks := tracks_reaches object kind promised s reached
    obtain ⟨id, rfl⟩ := cutsShort_acts s label cut
    obtain ⟨r, found, late⟩ := (Option.any_eq_true _ _).mp cut
    simp only [Bool.and_eq_true, decide_eq_true_eq] at late
    obtain ⟨⟨atEnd, owing⟩, done⟩ := late
    obtain ⟨rest, remaining, positive⟩ := (Option.any_eq_true _ _).mp owing
    obtain ⟨b, held, owes⟩ := tracks.owed id r found
    obtain ⟨bodies, turns⟩ := bodies_act object kind promised s after id steps
    have ended : after.flight.readers.lookup id = some { r with phase := .ended } := by
      obtain ⟨q, q', present, moves, same⟩ := takeTurn_cases s.flight after.flight id .act turns
      rw [found] at present
      cases present
      simp only [move, act, atEnd, done] at moves
      rw [same, AList.lookup_insert, ← Option.some.inj moves]
    have owed := owes.rest
    rw [remaining] at owed
    obtain ⟨len, bounded, short⟩ := Option.map_eq_some_iff.mp owed.symm
    have whole := faithful.whole id _ b len ended rfl (by rw [bodies]; exact held) bounded
    simp only [decide_eq_true_eq] at positive
    omega

/-- A body opens the file of a window of two bytes before anything is written. -/
def opened : List Label :=
  [.reader 0 (.body 0 (some 2)), .reader 0 .poll, .driver (.openSource true), .driver (.create true),
    .reader 0 .act, .reader 0 .act]

/-- It reads after the bytes are there. -/
def readsLater : List Label :=
  opened ++ [.driver (.write 2), .driver .publish, .reader 0 (.read 2), .reader 0 .act]

theorem readsLater_faithful : ∃ s,
    Reaches (machine [1, 2] .run (some 2)) (fun s label => cutsShort s label = false) s ∧
      s.bodies.lookup 0 = some ⟨0, some 2, [1, 2]⟩ ∧ Faithful [1, 2] s := by
  obtain ⟨s, reached, test⟩ := exists_reached (machine [1, 2] .run (some 2))
    (fun s label => cutsShort s label = false) readsLater
    (show (machine [1, 2] .run (some 2)).initial ⟨begin, [], ∅⟩ from rfl)
    (fun s => decide (s.bodies.lookup 0 = some ⟨0, some 2, [1, 2]⟩)) (by decide)
  exact ⟨s, reached, of_decide_eq_true test, (faithful_until_cut [1, 2] .run (some 2)).1 s reached⟩

/-- It reads the empty file, and before it looks the driver writes both bytes, seals
them and reports. -/
def readsEarlier : List Label :=
  opened ++ [.reader 0 (.read 0), .driver (.write 2), .driver .publish, .driver .exhaust,
    .driver .announceSize, .driver .install, .driver .report, .reader 0 .act]

/-- The body ends without an error and without a byte, and both are in the file. -/
theorem readsEarlier_empty : ∃ s, Reaches (machine [1, 2] .run (some 2)) (fun _ _ => True) s ∧
    s.file = [1, 2] ∧ s.flight.installed = true ∧
    (s.flight.readers.lookup 0).map Reader.phase = some .ended ∧
    s.bodies.lookup 0 = some ⟨0, some 2, []⟩ ∧ ¬ Faithful [1, 2] s := by
  obtain ⟨s, reached, test⟩ := exists_reached (machine [1, 2] .run (some 2)) (fun _ _ => True) readsEarlier
    (show (machine [1, 2] .run (some 2)).initial ⟨begin, [], ∅⟩ from rfl)
    (fun s => s.file = [1, 2] && s.flight.installed &&
      decide ((s.flight.readers.lookup 0).map Reader.phase = some .ended) &&
      decide (s.bodies.lookup 0 = some ⟨0, some 2, []⟩)) (by decide)
  simp only [Bool.and_eq_true, decide_eq_true_eq] at test
  obtain ⟨⟨⟨file, installed⟩, ended⟩, held⟩ := test
  refine ⟨s, reached, file, installed, ended, held, fun faithful => ?_⟩
  obtain ⟨r, found, phase⟩ := Option.map_eq_some_iff.mp ended
  have whole : (0 : Nat) = 2 := faithful.whole 0 r _ 2 found phase held rfl
  omega

end OriginCache.Cache.Following
