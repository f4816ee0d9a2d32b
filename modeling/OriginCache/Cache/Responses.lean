import OriginCache.Cache.SegmentFiles
import OriginCache.Cache.VersionFiles

/-! What a response has still to open, and what makes the bytes it will yield one
version's. A step of the transfers keeps it so when nothing of another version lands
on a name the response has still to open. -/

namespace OriginCache.Cache.Responses
open Foundation.Files Foundation.Tables Foundation.Slices
open SegName Store Staging PartFiles SingleWriter VersionFiles Sessions
open Transfers hiding System Label step machine empty

section
variable (key : Text) (object : Text → Bytes)

/-- A segment that meets a range may be taken into its plan. -/
def meets (range : Span) (start stop : Nat) : Bool := start < range.stop && range.start < stop

/-- The pieces whose files are not open yet. -/
def unopened (b : Body) : List Piece :=
  match b.handle with
  | some _ => b.pieces.tail
  | none => b.pieces

def runPaths (run : Run) : List Text := [partOf key run.span, segPath key run.span.start run.span.stop]

/-- A request between its gate and its plan may open any segment that meets its range,
one with a plan the planned ones, and a reader of a run also the run's two names. -/
def mayOpen (runs : Table Nat Run) (r : Request) (path : Text) : Bool :=
  match r.stage with
  | .clearing | .resetting _ _ | .planning => (spanOf path).any fun seg => meets r.range seg.1 seg.2.1
  | .uncovered plan | .seeking plan | .starting plan | .reserved plan _ | .escaping plan =>
      plan.pieces.any fun piece => piece.path = path
  | .serving b =>
      b.finish = .waiting && ((unopened b).any (fun piece => piece.path = path) ||
        match b.tail with
        | .run id => (runs.lookup id).any fun run => path ∈ runPaths key run
        | _ => false)
  | .stated | .failed => false

theorem mayOpen_piece {runs : Table Nat Run} (r : Request) (b : Body) (piece : Piece)
    (serves : r.stage = .serving b) (waits : b.finish = .waiting) (member : piece ∈ unopened b) :
    mayOpen key runs r piece.path = true := by
  simp only [mayOpen, serves, waits, decide_true, Bool.true_and, Bool.or_eq_true]
  apply Or.inl
  exact List.any_eq_true.mpr ⟨piece, member, decide_eq_true rfl⟩

theorem mayOpen_run {runs : Table Nat Run} (r : Request) (b : Body) (id : Nat) (run : Run) (path : Text)
    (serves : r.stage = .serving b) (waits : b.finish = .waiting) (source : b.tail = .run id)
    (found : runs.lookup id = some run) (member : path ∈ runPaths key run) : mayOpen key runs r path = true := by
  simp only [mayOpen, serves, waits, decide_true, Bool.true_and, Bool.or_eq_true, source, found, Option.any_some]
  apply Or.inr
  exact decide_eq_true member

/-- The name a step puts a file at, or may, and the version it does so for. -/
def lands (s : Transfers.System) : Transfers.Label → Option (Text × Option Text)
  | .start _ _ etag span => some (partOf key span, etag)
  | .transfer id (.rename _) =>
      (s.transfers.lookup id).map fun t => (segPath key t.span.start t.sealStop, t.etag)
  | .watch id (.rename _) =>
      (s.watchers.lookup id).map fun w => (segPath key w.span.start w.span.stop, w.etag)
  | _ => none

def actsOn : Transfers.Label → Option Nat
  | .start id _ _ _ => some id
  | .transfer id _ => some id
  | _ => none

/-! Sound requests. -/

def SegPure (s : Transfers.System) (version : Text) (start stop : Nat) : Prop :=
  ∀ inode, s.disk.nodes.lookup (segPath key start stop) = some inode →
    Pure key object s.disk s.transfers version start none inode

/-- The files of a run, and whoever works on its range, are of the version. -/
structure RunSound (s : Transfers.System) (version : Text) (run : Run) : Prop where
  etag : run.etag = some version
  part : ∀ inode, s.disk.nodes.lookup (partOf key run.span) = some inode →
    Pure key object s.disk s.transfers version run.span.start (some run.span) inode
  segment : run.sealed = true → SegPure key object s version run.span.start run.span.stop
  range : ∀ etag, Stakes s.transfers s.watchers run.span etag → etag = some version

/-- Pieces laid end to end from a position, over pure segments. -/
def Laid (s : Transfers.System) (version : Text) : Nat → List Piece → Prop
  | _, [] => True
  | position, piece :: rest =>
      (∃ start stop, piece.path = segPath key start stop ∧ start + piece.offset = position ∧
        SegPure key object s version start stop) ∧ Laid s version (position + piece.len) rest

/-- What is left of the piece that is open. -/
def headLeft (b : Body) : Nat :=
  match b.handle, b.pieces with
  | some (_, served), piece :: _ => piece.len - served
  | _, _ => 0

/-- Where the tail of a body begins, or has come to. -/
def tailStart (range : Span) (b : Body) : Nat := cursor range b + headLeft b + plannedLen (unopened b)

def TailSound (s : Transfers.System) (runs : Table Nat Run) (version : Text) (range : Span) (b : Body) : Prop :=
  match b.tail with
  | .nothing | .stream => True
  | .run id => ∃ run, runs.lookup id = some run ∧ RunSound key object s version run ∧
      run.span.start ≤ tailStart range b ∧
      ∀ inode, b.file = some inode →
        Pure key object s.disk s.transfers version run.span.start (some run.span) inode
  | .escape id => ∀ t, s.transfers.lookup id = some t → t.kind = .escape ∧ t.etag = some version ∧
      t.span.start + t.written = tailStart range b

structure BodySound (s : Transfers.System) (runs : Table Nat Run) (version : Text) (range : Span) (b : Body) :
    Prop where
  opened : ∀ piece rest inode served, b.pieces = piece :: rest → b.handle = some (inode, served) →
    served ≤ piece.len ∧ ∃ start, start + piece.offset + served = cursor range b ∧
      Pure key object s.disk s.transfers version start none inode
  unopened : Laid key object s version (cursor range b + headLeft b) (unopened b)
  tail : TailSound key object s runs version range b

/-- What a body has yielded is of the version, and so is what it will yield. -/
def Serves (s : Transfers.System) (runs : Table Nat Run) (version : Text) (range : Span) (b : Body) : Prop :=
  ReadFrom (object version) range.start b.yielded ∧
    (b.finish = .waiting → BodySound key object s runs version range b)

def PlanSound (s : Transfers.System) (version : Text) (range : Span) (plan : StagedPlan) : Prop :=
  Laid key object s version range.start plan.pieces ∧ range.start + plannedLen plan.pieces = plan.frontier

def RequestSound (s : Transfers.System) (runs : Table Nat Run) (version : Text) (r : Request) : Prop :=
  match r.stage with
  | .stated | .clearing | .failed => True
  | .resetting doomed _ => ∀ start stop, meets r.range start stop = true → segPath key start stop ∉ doomed →
      SegPure key object s version start stop
  | .planning => ∀ start stop, meets r.range start stop = true → SegPure key object s version start stop
  | .uncovered plan | .seeking plan | .starting plan | .reserved plan _ | .escaping plan =>
      PlanSound key object s version r.range plan
  | .serving b => Serves key object s runs version r.range b

variable {key object}

/-! A step of the transfers. -/

section Frames
variable {s s' : Transfers.System} {label : Transfers.Label} {version : Text}

theorem lands_bounds (owned : Owned key s.disk s.transfers) (start stop : Nat) (etag : Option Text)
    (landing : lands key s label = some (segPath key start stop, etag)) : start ≤ stop ∧ stop < 2 ^ 64 := by
  unfold lands at landing
  split at landing
  next => exact absurd (Prod.mk.inj (Option.some.inj landing)).1 (partOf_ne_segPath _ _ _)
  next id ok =>
    obtain ⟨t, found, same⟩ := Option.map_eq_some_iff.mp landing
    obtain ⟨_, begins, ends⟩ := segPath_injective key key _ _ _ _ (Prod.mk.inj same).1
    rw [← begins, ← ends]
    exact sealStop_bounds t (owned.sized id t found)
  next id ok =>
    obtain ⟨w, found, same⟩ := Option.map_eq_some_iff.mp landing
    obtain ⟨_, begins, ends⟩ := segPath_injective key key _ _ _ _ (Prod.mk.inj same).1
    rw [← begins, ← ends]
    exact ⟨Nat.le_of_lt w.span.proper, w.span.bound⟩
  next => cases landing

variable (owned : Owned key s.disk s.transfers)
  (versioned : Versioned key object s.disk s.transfers s.watchers) (order : Delivers object s.transfers label)
  (steps : Transfers.step key s label = some s')

include owned versioned order steps

theorem segPure_step (start stop : Nat) (before : SegPure key object s version start stop)
    (alone : ∀ etag, lands key s label = some (segPath key start stop, etag) → etag = some version) :
    SegPure key object s' version start stop := by
  intro inode named
  apply segPure_effect owned versioned start stop before (effect_step key s s' label steps) order
  · intro id ok t it found same
    apply alone
    rw [it, lands, found, Option.map_some, same]
  · intro id ok w it found same
    apply alone
    rw [it, lands, found, Option.map_some, same]
  · exact named

theorem laid_step (position : Nat) (pieces : List Piece) (laid : Laid key object s version position pieces)
    (alone : ∀ piece ∈ pieces, ∀ etag, lands key s label = some (piece.path, etag) → etag = some version) :
    Laid key object s' version position pieces := by
  induction pieces generalizing position with
  | nil => trivial
  | cons piece rest ih =>
    obtain ⟨⟨start, stop, named, begins, pure_⟩, later⟩ := laid
    refine ⟨⟨start, stop, named, begins, ?_⟩, ?_⟩
    · apply segPure_step owned versioned order steps start stop pure_
      rw [← named]
      exact alone piece List.mem_cons_self
    · exact ih _ later fun other member => alone other (List.mem_cons_of_mem _ member)

theorem runSound_step (run : Run) (sound : RunSound key object s version run)
    (alone : ∀ path ∈ runPaths key run, ∀ etag, lands key s label = some (path, etag) → etag = some version) :
    RunSound key object s' version run := by
  have starts : ∀ id kind etag, label = .start id kind etag run.span → etag = some version := by
    intro id kind etag it
    apply alone (partOf key run.span) List.mem_cons_self
    rw [it]
    rfl
  refine ⟨sound.etag, fun inode named => ?_, fun sealed_ => ?_, fun etag stakes => ?_⟩
  · apply partPure_effect owned run.span sound.part _ (effect_step key s s' label steps) order starts named
    intro id t found same
    exact sound.range t.etag (.inl ⟨id, t, found, same, rfl⟩)
  · apply segPure_step owned versioned order steps _ _ (sound.segment sealed_)
    exact alone _ (List.mem_cons_of_mem _ List.mem_cons_self)
  · cases stakes_step s s' label steps run.span etag stakes with
    | inl before => exact sound.range etag before
    | inr started =>
      obtain ⟨id, kind, it⟩ := started
      exact starts id kind etag it

omit owned versioned order in
theorem lookup_untouched (id : Nat) (apart : actsOn label ≠ some id) :
    s'.transfers.lookup id = s.transfers.lookup id := by
  cases label with
  | start other kind etag span =>
    simp only [Transfers.step] at steps
    split_ifs at steps
    cases steps
    exact AList.lookup_insert_ne fun same => apart (by rw [same]; rfl)
  | transfer other move =>
    simp only [Transfers.step] at steps
    split at steps
    next =>
      obtain ⟨_, _, after⟩ := Option.map_eq_some_iff.mp steps
      rw [← after]
      exact lookup_replace_ne s.transfers _ fun same => apart (by rw [same]; rfl)
    next => cases steps
  | watch other move =>
    simp only [Transfers.step] at steps
    split at steps
    next =>
      obtain ⟨_, _, after⟩ := Option.map_eq_some_iff.mp steps
      rw [← after]
    next => cases steps
  | claim owner move =>
    simp only [Transfers.step] at steps
    split at steps
    next =>
      obtain ⟨_, _, after⟩ := Option.map_eq_some_iff.mp steps
      rw [← after]
    next => cases steps
  | remove path | forget freed | reAdopt freed survivors now | dropRow =>
    cases steps
    rfl

/-- A segment that a plan may take stays pure. -/
theorem planned_step (range : Span) (start stop : Nat) (wanted : meets range start stop = true)
    (before : SegPure key object s version start stop)
    (alone : ∀ path etag, lands key s label = some (path, etag) →
      ((spanOf path).any fun seg => meets range seg.1 seg.2.1) = true → etag = some version) :
    SegPure key object s' version start stop := by
  apply segPure_step owned versioned order steps start stop before
  intro etag landing
  have bounds := lands_bounds owned start stop etag landing
  apply alone _ etag landing
  rw [spanOf, parseSegName_segPath key start stop (by omega) bounds.2]
  exact wanted

theorem planSound_step (range : Span) (plan : StagedPlan) (sound : PlanSound key object s version range plan)
    (alone : ∀ path etag, lands key s label = some (path, etag) →
      (plan.pieces.any fun piece => piece.path = path) = true → etag = some version) :
    PlanSound key object s' version range plan := by
  refine ⟨laid_step owned versioned order steps _ plan.pieces sound.1 fun piece member etag landing => ?_, sound.2⟩
  exact alone piece.path etag landing (List.any_eq_true.mpr ⟨piece, member, decide_eq_true rfl⟩)

theorem bodySound_step (runs : Table Nat Run) (range : Span) (b : Body)
    (sound : BodySound key object s runs version range b)
    (pieces : ∀ piece ∈ unopened b, ∀ etag, lands key s label = some (piece.path, etag) → etag = some version)
    (ofRun : ∀ id run, b.tail = .run id → runs.lookup id = some run →
      ∀ path ∈ runPaths key run, ∀ etag, lands key s label = some (path, etag) → etag = some version)
    (mine : ∀ id, b.tail = .escape id → actsOn label ≠ some id) :
    BodySound key object s' runs version range b := by
  have effect := effect_step key s s' label steps
  refine ⟨fun piece rest inode served front handle => ?_,
    laid_step owned versioned order steps _ _ sound.unopened pieces, ?_⟩
  · obtain ⟨fits, start, place, pure_⟩ := sound.opened piece rest inode served front handle
    exact ⟨fits, start, place, pure_effect owned pure_ effect order nofun⟩
  · have tail := sound.tail
    unfold TailSound at tail ⊢
    cases source : b.tail with
    | nothing => trivial
    | stream => trivial
    | run id =>
      rw [source] at tail
      obtain ⟨run, found, good, begins, file⟩ := tail
      have alone := ofRun id run source found
      refine ⟨run, found, runSound_step owned versioned order steps run good alone, begins,
        fun inode opened => pure_effect owned (file inode opened) effect order fun new kind etag span it lives => ?_⟩
      cases lives
      apply alone (partOf key run.span) List.mem_cons_self
      rw [it]
      rfl
    | escape id =>
      rw [source] at tail
      intro t found
      rw [lookup_untouched steps id (mine id source)] at found
      exact tail t found

/-- A request stays sound through a step that is not its own transfer's. -/
theorem requestSound_step (runs : Table Nat Run) (r : Request) (sound : RequestSound key object s runs version r)
    (alone : ∀ path etag, lands key s label = some (path, etag) → mayOpen key runs r path = true →
      etag = some version)
    (mine : ∀ b id, r.stage = .serving b → b.finish = .waiting → b.tail = .escape id →
      actsOn label ≠ some id) : RequestSound key object s' runs version r := by
  obtain ⟨etag, total, range, stage⟩ := r
  cases stage with
  | stated | clearing | failed => trivial
  | resetting doomed freed =>
    intro start stop wanted absent
    exact planned_step owned versioned order steps range start stop wanted (sound start stop wanted absent) alone
  | planning =>
    intro start stop wanted
    exact planned_step owned versioned order steps range start stop wanted (sound start stop wanted) alone
  | uncovered plan | seeking plan | starting plan | reserved plan behind | escaping plan =>
    exact planSound_step owned versioned order steps range plan sound alone
  | serving b =>
    refine ⟨sound.1, fun waits => ?_⟩
    refine bodySound_step owned versioned order steps runs range b (sound.2 waits)
      (fun piece member etag landing => ?_) (fun id run source found path member etag landing => ?_)
      (fun id => mine b id rfl waits)
    · apply alone piece.path etag landing
      exact mayOpen_piece key ⟨_, total, range, .serving b⟩ b piece rfl waits member
    · apply alone path etag landing
      exact mayOpen_run key ⟨_, total, range, .serving b⟩ b id run path rfl waits source found member

end Frames

/-! What a body yields. -/

section Yields
variable {s : System} {version : Text} {range : Span} {b b' : Body}

theorem TailSound.congr {t : Transfers.System} {runs : Table Nat Run}
    (sound : TailSound key object t runs version range b) (tail : b'.tail = b.tail) (file : b'.file = b.file)
    (place : tailStart range b' = tailStart range b) : TailSound key object t runs version range b' := by
  unfold TailSound at sound ⊢
  rw [tail, file, place]
  exact sound

theorem yielded_next (data : Bytes) (so_far : ReadFrom (object version) range.start b.yielded)
    (next : ReadFrom (object version) (cursor range b) data) :
    ReadFrom (object version) range.start (b.yielded ++ data) := so_far.append next

theorem serves_openPiece (sound : BodySound key object s.spans s.runs version range b) (piece : Piece)
    (rest : List Piece) (inode : Nat) (front : b.pieces = piece :: rest) (shut : b.handle = none)
    (named : s.spans.disk.nodes.lookup piece.path = some inode) :
    BodySound key object s.spans s.runs version range { b with handle := some (inode, 0) } := by
  obtain ⟨pieces, handle, tail, file, yielded, finish⟩ := b
  cases front
  cases shut
  obtain ⟨⟨start, stop, path, begins, pure_⟩, later⟩ := sound.unopened
  refine ⟨fun other others target served front handle => ?_, later, sound.tail.congr rfl rfl ?_⟩
  · cases front
    cases handle
    exact ⟨Nat.zero_le _, start, begins, pure_ inode (path ▸ named)⟩
  · simp only [tailStart, headLeft, unopened, cursor, plannedLen, List.tail_cons, List.map_cons, List.sum_cons]
    omega

theorem serves_readPiece (count : Nat) (so_far : ReadFrom (object version) range.start b.yielded)
    (sound : BodySound key object s.spans s.runs version range b)
    (reads : readPiece s.spans.disk b count = some b') : Serves key object s.spans s.runs version range b' := by
  obtain ⟨pieces, handle, tail, file, yielded, finish⟩ := b
  unfold readPiece at reads
  split at reads
  next piece rest inode served front open_ =>
    cases front
    cases open_
    obtain ⟨fits, start, place, pure_⟩ := sound.opened piece rest inode served rfl rfl
    have unopened_ := sound.unopened
    simp only [headLeft, unopened, List.tail_cons] at unopened_
    dsimp only at reads
    by_cases done : piece.len - served = 0
    · rw [if_pos done] at reads
      cases reads
      refine ⟨so_far, fun _ => ⟨nofun, ?_, sound.tail.congr rfl rfl ?_⟩⟩
      · rw [done] at unopened_
        exact unopened_
      · simp only [tailStart, headLeft, unopened, cursor, List.tail_cons]
        omega
    · rw [if_neg done] at reads
      by_cases short : (s.spans.disk.contents inode).length - (piece.offset + served) = 0
      · rw [if_pos short] at reads
        cases reads
        exact ⟨so_far, nofun⟩
      · rw [if_neg short] at reads
        split_ifs at reads with fine
        cases reads
        have bytes := pure_.bytes.slice (piece.offset + served) count
        rw [← Nat.add_assoc, place] at bytes
        have length : (slice (s.spans.disk.contents inode) (piece.offset + served) count).length = count := by
          rw [length_slice]
          omega
        refine ⟨yielded_next _ so_far bytes, fun _ => ⟨fun other others target more front handle => ?_, ?_,
          sound.tail.congr rfl rfl ?_⟩⟩
        · cases front
          cases handle
          refine ⟨by omega, start, ?_, pure_⟩
          simp only [cursor, List.length_append, length] at place ⊢
          omega
        · simp only [headLeft, unopened, cursor, List.tail_cons, List.length_append, length] at unopened_ ⊢
          rw [show range.start + (yielded.length + count) + (piece.len - (served + count)) =
            range.start + yielded.length + (piece.len - served) by omega]
          exact unopened_
        · simp only [tailStart, headLeft, unopened, cursor, List.tail_cons, List.length_append, length]
          omega
  next => cases reads

theorem headLeft_nil (b : Body) (done : b.pieces = []) : headLeft b = 0 := by
  unfold headLeft
  rw [done]
  split
  next front => cases front
  next => rfl

theorem unopened_nil (b : Body) (done : b.pieces = []) : unopened b = [] := by
  unfold unopened
  rw [done]
  split <;> rfl

theorem tailStart_nil (range : Span) (b : Body) (done : b.pieces = []) : tailStart range b = cursor range b := by
  rw [tailStart, headLeft_nil b done, unopened_nil b done]
  rfl

/-- A body with no pieces left is sound when its tail is. -/
theorem bodySound_of_tail {t : Transfers.System} {runs : Table Nat Run} (b : Body) (done : b.pieces = [])
    (tail : TailSound key object t runs version range b) : BodySound key object t runs version range b := by
  refine ⟨fun piece rest inode served front => ?_, ?_, tail⟩
  · rw [done] at front
    cases front
  · rw [unopened_nil b done]
    trivial

theorem serves_openTail (opened_ : Bool) (done : b.pieces = [])
    (sound : BodySound key object s.spans s.runs version range b)
    (opens : openTail key s b opened_ = some b') : BodySound key object s.spans s.runs version range b' := by
  have tail := sound.tail
  unfold openTail at opens
  split at opens
  next id source =>
    unfold TailSound at tail
    rw [source] at tail
    obtain ⟨run, found, good, begins, _⟩ := tail
    rw [found, Option.bind_some] at opens
    by_cases early : (opened_ && !run.sealed) = true
    · rw [if_pos early] at opens
      cases opens
    · rw [if_neg early] at opens
      obtain ⟨inode, named, same⟩ := Option.map_eq_some_iff.mp opens
      rw [← same]
      refine bodySound_of_tail _ done ?_
      unfold TailSound
      rw [source]
      refine ⟨run, found, good, begins, fun other file => ?_⟩
      cases file
      cases opened_ with
      | false => exact good.part inode named
      | true =>
        have sealed_ : run.sealed = true := by simpa using early
        have pure_ := good.segment sealed_ inode named
        refine ⟨pure_.bytes, pure_.below, fun span lives => by cases lives; rfl,
          fun span there => absurd (pure_.homes span there) nofun, fun id t present touched => ?_⟩
        cases touched with
        | inl made => exact pure_.writers id t present (.inl made)
        | inr lives =>
          have same := Option.some.inj lives
          exact ⟨good.range t.etag (.inl ⟨id, t, present, same.symm, rfl⟩), by rw [same]⟩
  next => cases opens

theorem yielded_openTail {opened_ : Bool} (opens : openTail key s b opened_ = some b') : b'.yielded = b.yielded := by
  unfold openTail at opens
  split at opens
  next =>
    obtain ⟨run, _, made⟩ := Option.bind_eq_some_iff.mp opens
    dsimp only at made
    by_cases early : (opened_ && !run.sealed) = true
    · rw [if_pos early] at made
      cases made
    · rw [if_neg early] at made
      obtain ⟨_, _, same⟩ := Option.map_eq_some_iff.mp made
      rw [← same]
  next => cases opens

theorem serves_readTail (count : Nat) (runs : Table Nat Run) (done : b.pieces = [])
    (so_far : ReadFrom (object version) range.start b.yielded)
    (sound : BodySound key object s.spans s.runs version range b)
    (reads : readTail s range b count = some (runs, b')) : Serves key object s.spans s.runs version range b' := by
  have tail := sound.tail
  unfold readTail at reads
  split at reads
  next id inode source file =>
    unfold TailSound at tail
    rw [source] at tail
    obtain ⟨run, found, good, begins, pure_⟩ := tail
    have place := tailStart_nil range b done
    rw [found, Option.bind_some] at reads
    dsimp only at reads
    split_ifs at reads with fine
    cases reads
    refine ⟨yielded_next _ so_far ?_, fun _ => bodySound_of_tail _ done ?_⟩
    · have bytes := (pure_ inode file).bytes.slice (cursor range b - run.span.start) count
      rw [show run.span.start + (cursor range b - run.span.start) = cursor range b by omega] at bytes
      exact bytes
    · unfold TailSound
      simp only [source]
      refine ⟨run, found, good, ?_, pure_⟩
      rw [place] at begins
      simp only [tailStart, cursor, List.length_append] at begins ⊢
      omega
  next => cases reads

/-- A body that moves by itself stays sound. -/
theorem serves_quietMove (label : BodyLabel) (runs : Table Nat Run) (waits : b.finish = .waiting)
    (before : Serves key object s.spans s.runs version range b)
    (stream : ∀ data, label = .stream data → ReadFrom (object version) (cursor range b) data)
    (moves : bodyMove key s range b label = some (none, runs, b')) :
    Serves key object s.spans s.runs version range b' := by
  have sound := before.2 waits
  cases label with
  | openPiece =>
    simp only [bodyMove] at moves
    split at moves
    next piece rest front shut =>
      split at moves
      next inode named =>
        cases moves
        exact ⟨before.1, fun _ => serves_openPiece sound piece rest inode front shut named⟩
      next =>
        cases moves
        exact ⟨before.1, nofun⟩
    next => cases moves
  | readPiece count =>
    obtain ⟨next, reads, same⟩ := Option.map_eq_some_iff.mp moves
    cases same
    exact serves_readPiece count before.1 sound reads
  | openTail opened_ =>
    simp only [bodyMove] at moves
    split_ifs at moves with done
    obtain ⟨next, opens, same⟩ := Option.map_eq_some_iff.mp moves
    cases same
    refine ⟨?_, fun _ => serves_openTail opened_ done.1 sound opens⟩
    rw [yielded_openTail opens]
    exact before.1
  | readTail count =>
    simp only [bodyMove] at moves
    split_ifs at moves with done
    obtain ⟨⟨table, next⟩, reads, same⟩ := Option.map_eq_some_iff.mp moves
    cases same
    exact serves_readTail count _ done before.1 sound reads
  | stream data =>
    simp only [bodyMove] at moves
    split_ifs at moves with fine
    cases moves
    refine ⟨yielded_next data before.1 (stream data rfl), fun _ => bodySound_of_tail _ fine.1 ?_⟩
    unfold TailSound
    simp only [fine.2.1]
  | escape label =>
    simp only [bodyMove] at moves
    split at moves
    next => split at moves <;> cases moves
    next => cases moves
  | finish =>
    simp only [bodyMove] at moves
    split_ifs at moves
    split at moves
    next =>
      split_ifs at moves
      cases moves
      exact ⟨before.1, nofun⟩
    next =>
      cases moves
      exact ⟨before.1, nofun⟩
  | breakOff =>
    cases moves
    exact ⟨before.1, nofun⟩

/-- A body keeps its tail. -/
theorem tail_bodyMove (label : BodyLabel) (inner : Option Transfers.Label) (runs : Table Nat Run)
    (moves : bodyMove key s range b label = some (inner, runs, b')) : b'.tail = b.tail := by
  cases label with
  | readPiece count =>
    obtain ⟨next, reads, same⟩ := Option.map_eq_some_iff.mp moves
    cases same
    unfold readPiece at reads
    split at reads
    next =>
      dsimp only at reads
      split_ifs at reads <;> cases reads <;> rfl
    next => cases reads
  | openTail opened_ =>
    simp only [bodyMove] at moves
    split_ifs at moves
    obtain ⟨next, opens, same⟩ := Option.map_eq_some_iff.mp moves
    cases same
    unfold openTail at opens
    split at opens
    next =>
      obtain ⟨run, _, made⟩ := Option.bind_eq_some_iff.mp opens
      by_cases early : (opened_ && !run.sealed) = true
      · rw [if_pos early] at made
        cases made
      · rw [if_neg early] at made
        obtain ⟨_, _, kept⟩ := Option.map_eq_some_iff.mp made
        rw [← kept]
    next => cases opens
  | readTail count =>
    simp only [bodyMove] at moves
    split_ifs at moves
    obtain ⟨⟨table, next⟩, reads, same⟩ := Option.map_eq_some_iff.mp moves
    cases same
    unfold readTail at reads
    split at reads
    next =>
      obtain ⟨run, _, made⟩ := Option.bind_eq_some_iff.mp reads
      dsimp only at made
      split_ifs at made
      cases made
      rfl
    next => cases reads
  | escape move =>
    simp only [bodyMove] at moves
    split at moves
    next => cases move <;> cases moves <;> rfl
    next => cases moves
  | _ =>
    simp only [bodyMove] at moves
    repeat' split at moves
    all_goals
      cases moves
      try rfl

def writtenBy : TransferLabel → Nat
  | .write data => data.length
  | _ => 0

theorem written_transferStep (disk after : Disk Text UInt8) (t next : Transfer) (claim : Option Claim)
    (label : TransferLabel) (steps : transferStep key disk t label = some (after, some next, claim)) :
    next.written = t.written + writtenBy label := by
  cases label with
  | write data =>
    simp only [transferStep] at steps
    split at steps
    next =>
      split_ifs at steps
      cases steps
      rfl
    next => cases steps
  | _ =>
    simp only [transferStep] at steps
    repeat' split at steps
    all_goals
      cases steps
      try rfl

/-- The body after a move of its transfer. -/
def afterMove (b : Body) : TransferLabel → Body
  | .write data => { b with yielded := b.yielded ++ data }
  | .fail => { b with finish := .error }
  | _ => b

/-- What moves a transfer belongs to the body it is the tail of. -/
theorem escape_bodyMove (label : BodyLabel) (inner : Transfers.Label) (runs : Table Nat Run)
    (moves : bodyMove key s range b label = some (some inner, runs, b')) :
    ∃ id move, inner = .transfer id move ∧ b.pieces = [] ∧ b.tail = .escape id ∧
      b' = afterMove b move ∧ runs = s.runs := by
  cases label with
  | escape move =>
    simp only [bodyMove] at moves
    split at moves
    next id done source =>
      cases move <;> cases moves
      all_goals exact ⟨id, _, rfl, done, source, rfl, rfl⟩
    next => cases moves
  | openPiece =>
    simp only [bodyMove] at moves
    split at moves
    next => split at moves <;> cases moves
    next => cases moves
  | readPiece count =>
    obtain ⟨_, _, same⟩ := Option.map_eq_some_iff.mp moves
    cases same
  | openTail opened_ =>
    simp only [bodyMove] at moves
    split_ifs at moves
    obtain ⟨_, _, same⟩ := Option.map_eq_some_iff.mp moves
    cases same
  | readTail count =>
    simp only [bodyMove] at moves
    split_ifs at moves
    obtain ⟨_, _, same⟩ := Option.map_eq_some_iff.mp moves
    cases same
  | stream data =>
    simp only [bodyMove] at moves
    split_ifs at moves
    cases moves
  | finish =>
    simp only [bodyMove] at moves
    split_ifs at moves
    split at moves
    next =>
      split_ifs at moves
      cases moves
    next => cases moves
  | breakOff => cases moves

/-- A body that moves its transfer yields what the transfer writes. -/
theorem serves_escapeMove (label : BodyLabel) (inner : Transfers.Label) (runs : Table Nat Run)
    (spans : Transfers.System) (waits : b.finish = .waiting)
    (before : Serves key object s.spans s.runs version range b)
    (order : Delivers object s.spans.transfers inner)
    (moves : bodyMove key s range b label = some (some inner, runs, b'))
    (steps : Transfers.step key s.spans inner = some spans) : Serves key object spans s.runs version range b' := by
  obtain ⟨id, move, it, done, source, made, _⟩ := escape_bodyMove label inner runs moves
  have tail := (before.2 waits).tail
  unfold TailSound at tail
  rw [source] at tail
  rw [it] at steps order
  simp only [Transfers.step] at steps
  split at steps
  next t found =>
    obtain ⟨⟨disk, next, claim⟩, turns, after⟩ := Option.map_eq_some_iff.mp steps
    obtain ⟨kind, etag, place⟩ := tail t found
    rw [tailStart_nil range b done] at place
    have later : ∀ u, spans.transfers.lookup id = some u → u.kind = .escape ∧ u.etag = some version ∧
        u.span.start + u.written = cursor range b + writtenBy move := by
      intro u present
      rw [← after] at present
      change (replace s.spans.transfers id next).lookup id = some u at present
      rw [lookup_replace] at present
      rw [present] at turns
      have kept := kept_transferStep s.spans.disk disk t u claim move turns
      have more := written_transferStep s.spans.disk disk t u claim move turns
      refine ⟨kept.2.2.trans kind, kept.2.1.trans etag, ?_⟩
      rw [kept.1, more]
      omega
    have tailed : ∀ b'' : Body, b''.pieces = [] → b''.tail = .escape id →
        cursor range b'' = cursor range b + writtenBy move → BodySound key object spans s.runs version range b'' := by
      intro b'' done' source' place'
      refine bodySound_of_tail b'' done' ?_
      unfold TailSound
      rw [source']
      intro u present
      rw [tailStart_nil range b'' done', place']
      exact later u present
    cases move with
    | write data =>
      rw [made]
      have next := order id t data version rfl found etag
      rw [place] at next
      refine ⟨yielded_next data before.1 next, fun _ => tailed _ done source ?_⟩
      simp only [cursor, afterMove, writtenBy, List.length_append]
      omega
    | fail =>
      rw [made]
      exact ⟨before.1, fun waiting => by cases waiting⟩
    | _ =>
      rw [made]
      exact ⟨before.1, fun _ => tailed _ done source rfl⟩
  next => cases steps

end Yields

/-! What a plan takes. -/

section Plans
variable {t : Transfers.System} {version : Text}

/-- A segment of the key is listed under its bounds. -/
theorem mem_listed (owned : Owned key t.disk t.transfers) (start stop inode : Nat)
    (found : t.disk.nodes.lookup (segPath key start stop) = some inode) :
    (start, stop, segPath key start stop) ∈ segmentsForKey (dirOf t.disk) key := by
  obtain ⟨first, last, range, bound, shape⟩ := owned.named _ inode found
  cases shape with
  | inl segment =>
    obtain ⟨_, begins, ends⟩ := segPath_injective key key _ _ _ _ segment
    rw [← begins, ← ends] at range
    rw [← ends] at bound
    refine (mem_segmentsForKey _ key _ start stop).mpr ⟨(mem_keySegmentFiles _ key _).mpr ⟨?_, ?_⟩,
      _, parseSegName_segPath key start stop (by omega) bound⟩
    · apply AList.lookup_isSome.mp
      rw [lookup_dirOf, Disk.read, found]
      rfl
    · exact (SegmentFiles.ownedBy_segPath key key start stop (by omega) bound).mpr (.inl rfl)
  | inr part => exact absurd part.symm (segpartPath_ne_segPath _ _ _ _ _ _)

theorem laid_planFrom (range : Span) (position : Nat) (segs : List (Nat × Nat × Text))
    (begins : range.start ≤ position)
    (named : ∀ start stop path, (start, stop, path) ∈ segs → path = segPath key start stop ∧
      (meets range start stop = true → SegPure key object t version start stop)) :
    Laid key object t version position (planFrom range.stop position segs).pieces := by
  induction segs generalizing position with
  | nil => trivial
  | cons seg rest ih =>
    obtain ⟨start, stop, path⟩ := seg
    have later := fun place from_ =>
      ih place from_ fun first last other member => named first last other (List.mem_cons_of_mem _ member)
    rw [planFrom]
    split_ifs with full before gap
    · trivial
    · exact later position begins
    · trivial
    · obtain ⟨same, pure_⟩ := named start stop path List.mem_cons_self
      have wanted : meets range start stop = true := by
        simp only [meets, Bool.and_eq_true, decide_eq_true_eq]
        omega
      refine ⟨⟨start, stop, same, by simp only; omega, pure_ wanted⟩, ?_⟩
      have place : position + (min stop range.stop - position) = min stop range.stop := by omega
      simp only [place]
      exact later _ (by omega)

/-- A plan over pure segments is sound. -/
theorem planSound_planned (owned : Owned key t.disk t.transfers) (range : Span)
    (sound : ∀ start stop, meets range start stop = true → SegPure key object t version start stop) :
    PlanSound key object t version range
      (planStaged (segmentsForKey (dirOf t.disk) key) range.start range.stop) := by
  refine ⟨laid_planFrom range range.start _ (Nat.le_refl _) fun start stop path member => ?_,
    plannedLen_planStaged _ _ _ (Nat.le_of_lt range.proper)⟩
  obtain ⟨same, _, _⟩ := listed owned start stop path member
  exact ⟨same, sound start stop⟩

/-- Where the tail of a planned body begins. -/
theorem tailStart_begin (range : Span) (plan : StagedPlan) (tail : Tail) (sound : PlanSound key object t version range plan) :
    tailStart range ⟨plan.pieces, none, tail, none, [], .waiting⟩ = plan.frontier := by
  rw [← sound.2]
  rfl

/-- A body that begins to serve a sound plan is sound when its tail is. -/
theorem serves_begin {runs : Table Nat Run} {range : Span} {plan : StagedPlan}
    (sound : PlanSound key object t version range plan) (tail : Tail)
    (rest : TailSound key object t runs version range ⟨plan.pieces, none, tail, none, [], .waiting⟩) :
    Serves key object t runs version range ⟨plan.pieces, none, tail, none, [], .waiting⟩ :=
  ⟨readFrom_nil _ _, fun _ => ⟨nofun, sound.1, rest⟩⟩

/-- The file at a path holds the version, and nobody is writing another one to it. -/
def holdsVersion (object : Text → Bytes) (t : Transfers.System) (version : Text) (start : Nat) (path : Text) : Bool :=
  (t.disk.nodes.lookup path).all fun inode =>
    ReadFrom (object version) start (t.disk.contents inode) &&
      every t.transfers fun _ u => u.made ≠ some inode || u.etag = some version

theorem segPure_of_holds (owned : Owned key t.disk t.transfers) (start stop : Nat)
    (holds : holdsVersion object t version start (segPath key start stop) = true) :
    SegPure key object t version start stop := by
  intro inode named
  rw [holdsVersion, named, Option.all_some, Bool.and_eq_true, every_iff] at holds
  refine ⟨of_decide_eq_true holds.1, owned.tidy.below _ inode named, nofun, fun span there => ?_,
    fun id u found touched => ?_⟩
  · exact absurd (owned.tidy.single _ _ inode there named) (partOf_ne_segPath _ _ _)
  · cases touched with
    | inl made =>
      have meets_ := holds.2 id u found
      simp only [made, ne_eq, not_true_eq_false, decide_false, Bool.false_or, decide_eq_true_eq] at meets_
      cases (owned.holds id u inode found made).names _ named with
      | inl part => exact absurd part.symm (partOf_ne_segPath _ _ _)
      | inr sealed_ => exact ⟨meets_, (segPath_injective key key _ _ _ _ sealed_).2.1.symm⟩
    | inr lives => cases lives

end Plans

end

end OriginCache.Cache.Responses
