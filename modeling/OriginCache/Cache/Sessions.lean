import OriginCache.Foundation.Slices
import OriginCache.Cache.Staging
import OriginCache.Cache.Transfers

/-! The requests for ranges of one key: the version gate, the plan over the staged
files, the choice between the live run, a new run and a standalone escape, and the
chain that starts the next window. A step of a session asks at most one step of the
transfers. -/

namespace OriginCache.Cache.Sessions
open Foundation.Files Foundation.Tables Foundation.Slices Foundation.Runs
open SegName Store Ledger Staging Transfers
open Ranged (chunkSize Finish)

structure Config where
  sessionWindowBytes : Nat
  windowFloorBytes : Nat
deriving DecidableEq, Repr

/-! The window of a run. -/

/-- What the replaced run covered and how much of it was consumed. -/
abbrev Behind := Nat × Nat

def floorBytes (configured floor : Nat) : Nat := min floor (max configured 1)

def windowFor (need remaining : Nat) (config : Config) (behind : Option Behind) : Nat :=
  let configured := max config.sessionWindowBytes 1
  let base := match behind with
    | some (covered, consumed) =>
        if 0 < covered ∧ covered ≤ consumed then min (covered * 2) configured
        else floorBytes configured config.windowFloorBytes
    | none => floorBytes configured config.windowFloorBytes
  min (max need base) remaining

/-- `sealed` is set when its driver has renamed the part. -/
structure Run where
  span : Span
  etag : Option Text
  total : Nat
  playhead : Nat
  sealed : Bool
  finished : Bool
deriving DecidableEq, Repr

def behindOf (start : Nat) (run : Run) : Option Behind :=
  if run.span.start ≤ start ∧ start ≤ run.span.stop then
    some (run.span.stop - run.span.start, run.playhead - run.span.start)
  else none

def Run.covers (run : Run) (start stop : Nat) : Bool := run.span.start ≤ start ∧ stop ≤ run.span.stop

/-- Where the next window would begin and how long it would be. -/
def Run.wantsSuccessor (run : Run) (watched : Bool) (config : Config) : Option (Nat × Nat) :=
  let next := run.span.stop
  let window := windowFor 0 (run.total - next) config
    (some (run.span.stop - run.span.start, run.playhead - run.span.start))
  if next < run.total ∧ watched ∧ next ≤ run.playhead + window then some (next, window) else none

/-- A key has one run at most, and a reservation while one is being started. -/
inductive Slot
  | starting
  | live (run : Nat)
deriving DecidableEq, Repr

/-! Bodies and requests. -/

inductive Tail
  | nothing
  | run (id : Nat)
  | escape (id : Nat)
  | stream
deriving DecidableEq, Repr

/-- The pieces still to serve, the inode of the first of them with what is served of
it, and the open file of a run. -/
structure Body where
  pieces : List Piece
  handle : Option (Nat × Nat)
  tail : Tail
  file : Option Nat
  yielded : Bytes
  finish : Finish
deriving DecidableEq, Repr

inductive Stage
  | stated
  | clearing
  | resetting (doomed : List Text) (freed : Nat)
  | planning
  | uncovered (plan : StagedPlan)
  | seeking (plan : StagedPlan)
  | starting (plan : StagedPlan)
  | reserved (plan : StagedPlan) (behind : Option Behind)
  | escaping (plan : StagedPlan)
  | serving (body : Body)
  | failed
deriving DecidableEq, Repr

/-- A request with what the stat told it; `etag` and `total` go into its headers. -/
structure Request where
  etag : Option Text
  total : Nat
  range : Span
  stage : Stage
deriving DecidableEq, Repr

/-- A tick's work on one spent run. -/
inductive ChainStage
  | collected
  | finishing (next : Option (Nat × Nat))
  | starting (next window seed : Nat)
  | reserved (next window seed : Nat) (behind : Option Behind)
deriving DecidableEq, Repr

structure Chain where
  run : Nat
  stage : ChainStage
deriving DecidableEq, Repr

structure System where
  spans : Transfers.System
  slot : Option Slot
  runs : Table Nat Run
  requests : Table Nat Request
  chains : Table Nat Chain

inductive BodyLabel
  | openPiece
  | readPiece (count : Nat)
  | openTail (sealed : Bool)
  | readTail (count : Nat)
  | stream (data : Bytes)
  | escape (label : TransferLabel)
  | finish
  | breakOff
deriving DecidableEq, Repr

inductive RequestLabel
  | gate (inUse : Bool)
  | list
  | unlink
  | plan
  | permit (ok : Bool)
  | cover
  | reserve
  | spawn (run : Nat) (permit : Bool)
  | escape (transfer : Nat) (ok : Bool)
  | body (label : BodyLabel)
  | drop
deriving DecidableEq, Repr

inductive ChainLabel
  | decide (watched : Bool)
  | finish
  | reserve
  | spawn (run : Nat) (permit : Bool)
deriving DecidableEq, Repr

inductive Label
  | stat (id : Nat) (etag : Option Text) (total : Nat) (range : Span)
  | request (id : Nat) (label : RequestLabel)
  | tick (id : Nat)
  | chain (id : Nat) (label : ChainLabel)
  | finishRun (id : Nat)
  | span (label : Transfers.Label)
deriving DecidableEq, Repr

/-- What a party does: the step it asks of the transfers, the slot and the runs, and
what becomes of the party. -/
structure Turn (ρ : Type) where
  inner : Option Transfers.Label
  slot : Option Slot
  runs : Table Nat Run
  party : Option ρ

section Moves
variable (key : Text) (config : Config)

def quietly {ρ : Type} (s : System) (party : ρ) : Turn ρ := ⟨none, s.slot, s.runs, some party⟩

/-- The first lock of `Sessions::start`: whether the slot can be taken, and what the
run that gives it up achieved. -/
def takeSlot (s : System) (start : Nat) : Option (Option Behind) :=
  match s.slot with
  | some (.live id) =>
      match s.runs.lookup id with
      | some run => if run.finished ∨ start = run.span.stop then some (behindOf start run) else none
      | none => none
  | some .starting => none
  | none => some none

def runSpan (start need total : Nat) (behind : Option Behind) : Option Span :=
  let stop := min (start + windowFor need (total - start) config behind) total
  if range : start < stop ∧ stop < 2 ^ 64 then some ⟨start, stop, range.1, range.2⟩ else none

/-- The rest of `Sessions::start`; without a permit the reservation is released. -/
def spawn {ρ : Type} (s : System) (id : Nat) (etag : Option Text) (total : Nat) (span : Option Span)
    (seed : Option Nat) (started released : Option ρ) : Turn ρ :=
  match span with
  | some span =>
      ⟨some (.start id .run etag span), some (.live id),
        s.runs.insert id ⟨span, etag, total, seed.getD span.start, false, false⟩, started⟩
  | none => ⟨none, if s.slot = some .starting then none else s.slot, s.runs, released⟩

/-- A name that no run and no escape has had. -/
def unused (s : System) (id : Nat) : Bool :=
  id ∉ s.runs && every s.requests fun _ r =>
    match r.stage with
    | .serving b => b.tail ≠ .escape id
    | _ => true

def body (pieces : List Piece) (tail : Tail) : Stage :=
  .serving ⟨pieces, none, tail, none, [], .waiting⟩

/-- The next byte of the object a body yields. -/
def cursor (range : Span) (b : Body) : Nat := range.start + b.yielded.length

def readPiece (disk : Disk Text UInt8) (b : Body) (count : Nat) : Option Body :=
  match b.pieces, b.handle with
  | piece :: rest, some (inode, served) =>
      let remaining := piece.len - served
      let available := (disk.contents inode).length - (piece.offset + served)
      if remaining = 0 then some { b with pieces := rest, handle := none }
      else if available = 0 then some { b with finish := .error }
      else if 0 < count ∧ count ≤ min (min chunkSize remaining) available then
        some { b with
          handle := some (inode, served + count)
          yielded := b.yielded ++ slice (disk.contents inode) (piece.offset + served) count }
      else none
  | _, _ => none

/-- A reader of a run opens the part, or the segment once the run has renamed it. -/
def openTail (s : System) (b : Body) (sealed : Bool) : Option Body :=
  match b.tail with
  | .run id =>
      (s.runs.lookup id).bind fun run =>
        if sealed && !run.sealed then none
        else
          let path := if sealed then segPath key run.span.start run.span.stop else partOf key run.span
          (s.spans.disk.nodes.lookup path).map fun inode => { b with file := some inode }
  | _ => none

def readTail (s : System) (range : Span) (b : Body) (count : Nat) : Option (Table Nat Run × Body) :=
  match b.tail, b.file with
  | .run id, some inode =>
      (s.runs.lookup id).bind fun run =>
        let position := cursor range b - run.span.start
        let available := (s.spans.disk.contents inode).length - position
        if 0 < count ∧ count ≤ min (min chunkSize (range.stop - cursor range b)) available then
          some (s.runs.insert id { run with playhead := max run.playhead (cursor range b + count) },
            { b with yielded := b.yielded ++ slice (s.spans.disk.contents inode) position count })
        else none
  | _, _ => none

def bodyMove (s : System) (range : Span) (b : Body) :
    BodyLabel → Option (Option Transfers.Label × Table Nat Run × Body)
  | .openPiece =>
      match b.pieces, b.handle with
      | piece :: _, none =>
          match s.spans.disk.nodes.lookup piece.path with
          | some inode => some (none, s.runs, { b with handle := some (inode, 0) })
          | none => some (none, s.runs, { b with finish := .error })
      | _, _ => none
  | .readPiece count => (readPiece s.spans.disk b count).map fun next => (none, s.runs, next)
  | .openTail sealed =>
      if b.pieces = [] ∧ b.file = none then
        (openTail key s b sealed).map fun next => (none, s.runs, next)
      else none
  | .readTail count =>
      if b.pieces = [] then (readTail s range b count).map fun (runs, next) => (none, runs, next) else none
  | .stream data =>
      if b.pieces = [] ∧ b.tail = .stream ∧ data ≠ [] ∧ data.length ≤ chunkSize then
        some (none, s.runs, { b with yielded := b.yielded ++ data })
      else none
  | .escape label =>
      match b.pieces, b.tail with
      | [], .escape id =>
          match label with
          | .write data => some (some (.transfer id label), s.runs, { b with yielded := b.yielded ++ data })
          | .fail => some (some (.transfer id label), s.runs, { b with finish := .error })
          | .drop => none
          | _ => some (some (.transfer id label), s.runs, b)
      | _, _ => none
  | .finish =>
      if b.pieces = [] then
        match b.tail with
        | .escape id =>
            if id ∈ s.spans.transfers ∨ .transfer id ∈ s.spans.claims then none
            else some (none, s.runs, { b with finish := .complete })
        | _ => some (none, s.runs, { b with finish := .complete })
      else none
  | .breakOff => some (none, s.runs, { b with finish := .error })

/-- A body that is dropped takes its own transfer, or the seal of it, along. -/
def dropped (s : System) (stage : Stage) : Option Transfers.Label :=
  match stage with
  | .serving b =>
      match b.tail with
      | .escape id =>
          if id ∈ s.spans.transfers then some (.transfer id .drop)
          else if .transfer id ∈ s.spans.claims then some (.claim (.transfer id) .cancel)
          else none
      | _ => none
  | _ => none

def requestMove (s : System) (r : Request) : RequestLabel → Option (Turn Request)
  | .gate inUse =>
      if r.stage = .stated then
        if versionChanged (knownEtag s.spans.ledger key) r.etag then
          if inUse then some (quietly s { r with stage := body [] .stream })
          else some (quietly s { r with stage := .clearing })
        else some (quietly s { r with stage := .planning })
      else none
  | .list =>
      if r.stage = .clearing then
        some (quietly s { r with stage := .resetting (keySegmentFiles (dirOf s.spans.disk) key) 0 })
      else none
  | .unlink =>
      match r.stage with
      | .resetting (path :: rest) freed =>
          some ⟨some (.remove path), s.slot, s.runs,
            some { r with stage := .resetting rest (freed + fileLen (dirOf s.spans.disk) path) }⟩
      | .resetting [] freed =>
          some ⟨some (.forget freed), s.slot, s.runs, some { r with stage := .planning }⟩
      | _ => none
  | .plan =>
      if r.stage = .planning then
        let plan := planStaged (segmentsForKey (dirOf s.spans.disk) key) r.range.start r.range.stop
        if r.range.stop ≤ plan.frontier then some (quietly s { r with stage := body plan.pieces .nothing })
        else some (quietly s { r with stage := .uncovered plan })
      else none
  | .permit ok =>
      match r.stage with
      | .uncovered plan =>
          if ok then some (quietly s { r with stage := .seeking plan })
          else some (quietly s { r with stage := body plan.pieces .stream })
      | _ => none
  | .cover =>
      match r.stage with
      | .seeking plan =>
          match s.slot with
          | some (.live id) =>
              if (s.runs.lookup id).any fun run => !run.finished && run.covers plan.frontier r.range.stop then
                some (quietly s { r with stage := body plan.pieces (.run id) })
              else some (quietly s { r with stage := .starting plan })
          | _ => some (quietly s { r with stage := .starting plan })
      | _ => none
  | .reserve =>
      match r.stage with
      | .starting plan =>
          match takeSlot s plan.frontier with
          | some behind => some ⟨none, some .starting, s.runs, some { r with stage := .reserved plan behind }⟩
          | none => some (quietly s { r with stage := .escaping plan })
      | _ => none
  | .spawn id permit =>
      match r.stage with
      | .reserved plan behind =>
          if !unused s id then none
          else
            let span := runSpan config plan.frontier (r.range.stop - plan.frontier) r.total behind
            some (spawn s id r.etag r.total (if permit then span else none) none
              (some { r with stage := body plan.pieces (.run id) })
              (some { r with stage := .escaping plan }))
      | _ => none
  | .escape id ok =>
      match r.stage with
      | .escaping plan =>
          if range : plan.frontier < r.range.stop then
            if ok then
              if !unused s id then none
              else some ⟨some (.start id .escape r.etag ⟨plan.frontier, r.range.stop, range, r.range.bound⟩),
                s.slot, s.runs, some { r with stage := body plan.pieces (.escape id) }⟩
            else some (quietly s { r with stage := .failed })
          else none
      | _ => none
  | .body label =>
      match r.stage with
      | .serving b =>
          if b.finish = .waiting then
            (bodyMove key s r.range b label).map fun (inner, runs, next) =>
              ⟨inner, s.slot, runs, some { r with stage := .serving next }⟩
          else none
      | _ => none
  | .drop => some ⟨dropped s r.stage, s.slot, s.runs, none⟩

/-- A body of the run that is still served. -/
def attached (s : System) (id : Nat) : Bool :=
  someEntry s.requests fun _ r =>
    match r.stage with
    | .serving b => b.tail = .run id && b.finish = .waiting
    | _ => false

def chainMove (s : System) (c : Chain) : ChainLabel → Option (Turn Chain)
  | .decide watched =>
      match c.stage, s.runs.lookup c.run with
      | .collected, some run =>
          some (quietly s { c with
            stage := .finishing (run.wantsSuccessor (watched || attached s c.run) config) })
      | _, _ => none
  | .finish =>
      match c.stage, s.runs.lookup c.run with
      | .finishing next, some run =>
          some ⟨none, if s.slot = some (.live c.run) then none else s.slot, s.runs,
            next.map fun (start, window) => { c with stage := .starting start window run.playhead }⟩
      | _, _ => none
  | .reserve =>
      match c.stage with
      | .starting next window seed =>
          match takeSlot s next with
          | some behind =>
              some ⟨none, some .starting, s.runs, some { c with stage := .reserved next window seed behind }⟩
          | none => some ⟨none, s.slot, s.runs, none⟩
      | _ => none
  | .spawn id permit =>
      match c.stage, s.runs.lookup c.run with
      | .reserved next window seed behind, some run =>
          if !unused s id then none
          else
            let span := runSpan config next window run.total behind
            some (spawn s id run.etag run.total (if permit then span else none) (some seed) none none)
      | _, _ => none

/-- What goes on without the sessions: drivers, watchers, seals and evictions. -/
def unattended (s : System) : Transfers.Label → Bool
  | .start .. => false
  | .transfer id _ => (s.spans.transfers.lookup id).any fun t => t.kind = .run
  | .claim _ .cancel => false
  | _ => true

/-- A driver that has renamed its part goes on to say so. -/
def noteSeal (s : System) : Transfers.Label → Table Nat Run
  | .transfer id (.rename true) =>
      match s.runs.lookup id with
      | some run =>
          if partOf key run.span ∈ s.spans.disk.nodes then s.runs.insert id { run with sealed := true }
          else s.runs
      | none => s.runs
  | _ => s.runs

/-- The sessions' half of a step, and the step it asks of the transfers. -/
def move (s : System) : Label → Option (Option Transfers.Label × System)
  | .stat id etag total range =>
      if id ∈ s.requests ∨ total < range.stop then none
      else some (none, { s with requests := s.requests.insert id ⟨etag, total, range, .stated⟩ })
  | .request id label =>
      match s.requests.lookup id with
      | some r =>
          (requestMove key config s r label).map fun turn =>
            (turn.inner, { s with
              slot := turn.slot
              runs := turn.runs
              requests := replace s.requests id turn.party })
      | none => none
  | .tick id =>
      match s.slot with
      | some (.live run) =>
          if id ∉ s.chains ∧ (s.runs.lookup run).any Run.finished then
            some (none, { s with chains := s.chains.insert id ⟨run, .collected⟩ })
          else none
      | _ => none
  | .chain id label =>
      match s.chains.lookup id with
      | some c =>
          (chainMove config s c label).map fun turn =>
            (turn.inner, { s with
              slot := turn.slot
              runs := turn.runs
              chains := replace s.chains id turn.party })
      | none => none
  | .finishRun id =>
      match s.runs.lookup id with
      | some run =>
          if run.finished ∨ id ∈ s.spans.transfers ∨ .transfer id ∈ s.spans.claims then none
          else some (none, { s with runs := s.runs.insert id { run with finished := true } })
      | none => none
  | .span label =>
      if unattended s label then some (some label, { s with runs := noteSeal key s label }) else none

def step (s : System) (label : Label) : Option System :=
  match move key config s label with
  | some (none, next) => some next
  | some (some inner, next) =>
      (Transfers.step key s.spans inner).map fun spans => { next with spans := spans }
  | none => none

def empty : System := ⟨Transfers.empty, none, ∅, ∅, ∅⟩

def machine : Machine System Label := ⟨fun s => s = empty, step key config⟩

/-- The step a session step asks of the transfers, if it can be taken at all. -/
def asked (s : System) (label : Label) : Option Transfers.Label := (move key config s label).bind Prod.fst

/-! A step of the sessions is a step of the transfers, or leaves them alone. -/

variable {key config}

theorem spans_move (s next : System) (label : Label) (inner : Option Transfers.Label)
    (moves : move key config s label = some (inner, next)) : next.spans = s.spans := by
  cases label with
  | stat id etag total range =>
    simp only [move] at moves
    split_ifs at moves
    cases moves
    rfl
  | request id label =>
    simp only [move] at moves
    split at moves
    next =>
      obtain ⟨turn, _, made⟩ := Option.map_eq_some_iff.mp moves
      cases made
      rfl
    next => cases moves
  | tick id =>
    simp only [move] at moves
    split at moves
    next =>
      split_ifs at moves
      cases moves
      rfl
    next => cases moves
  | chain id label =>
    simp only [move] at moves
    split at moves
    next =>
      obtain ⟨turn, _, made⟩ := Option.map_eq_some_iff.mp moves
      cases made
      rfl
    next => cases moves
  | finishRun id =>
    simp only [move] at moves
    split at moves
    next =>
      split_ifs at moves
      cases moves
      rfl
    next => cases moves
  | span label =>
    simp only [move] at moves
    split_ifs at moves
    cases moves
    rfl

theorem step_some (s s' : System) (label : Label) (steps : step key config s label = some s') :
    ∃ inner next, move key config s label = some (inner, next) ∧
      match inner with
      | none => s' = next
      | some inner => ∃ spans, Transfers.step key s.spans inner = some spans ∧ s' = { next with spans := spans } := by
  unfold step at steps
  split at steps
  next next moves =>
    cases steps
    exact ⟨none, _, moves, rfl⟩
  next inner next moves =>
    obtain ⟨spans, inside, made⟩ := Option.map_eq_some_iff.mp steps
    exact ⟨some inner, next, moves, spans, inside, made.symm⟩
  next => cases steps

theorem spans_step (s s' : System) (label : Label) (steps : step key config s label = some s') :
    s'.spans = s.spans ∨
      ∃ inner, asked key config s label = some inner ∧ Transfers.step key s.spans inner = some s'.spans := by
  obtain ⟨inner, next, moves, after⟩ := step_some s s' label steps
  cases inner with
  | none =>
    rw [after]
    exact .inl (spans_move s next label none moves)
  | some inner =>
    obtain ⟨spans, inside, made⟩ := after
    refine .inr ⟨inner, ?_, ?_⟩
    · rw [asked, moves]
      rfl
    · rw [made]
      exact inside

end Moves

end OriginCache.Cache.Sessions
