import OriginCache.Cache.Responses

/-! Responses of one version. The gate compares a request's version with the row's and
nothing later compares versions again, so a response stays one version's as long as
the files it is planned over, the run it attaches to and whatever lands on the names
it has still to open are of its version. -/

namespace OriginCache.Cache.Versions
open Foundation.Files Foundation.Tables Foundation.Slices Foundation.Runs
open SegName Store Ledger Staging PartFiles SingleWriter VersionFiles Responses Sessions
open Transfers hiding System Label step machine empty

section
variable (key : Text) (object : Text → Bytes) (config : Config)

/-- What a response has yielded is of the version in its headers. -/
def OneVersion (s : System) : Prop :=
  ∀ id r b version, s.requests.lookup id = some r → r.etag = some version → r.stage = .serving b →
    b.yielded = slice (object version) r.range.start b.yielded.length

def spansDeliver (t : Transfers.System) : Transfers.Label → Bool
  | .transfer id (.write data) =>
      (t.transfers.lookup id).all fun u =>
        u.etag.all fun version => ReadFrom (object version) (u.span.start + u.written) data
  | _ => true

def streamDelivers (s : System) : Label → Bool
  | .request id (.body (.stream data)) =>
      (s.requests.lookup id).all fun r =>
        match r.stage with
        | .serving b => r.etag.all fun version => ReadFrom (object version) (cursor r.range b) data
        | _ => true
  | _ => true

/-- What is opened upstream for a version delivers it in order. -/
def delivers (s : System) (label : Label) : Bool :=
  streamDelivers object s label && (asked key config s label).all (spansDeliver object s.spans)

def suits (given etag : Option Text) : Bool := given.all fun version => etag = some version

/-- A request that passes the gate without a reset finds staged files of its version. -/
def gateKnows (s : System) : Label → Bool
  | .request id (.gate _) =>
      (s.requests.lookup id).all fun r =>
        versionChanged (knownEtag s.spans.ledger key) r.etag || r.etag.all fun version =>
          (segmentsForKey (dirOf s.spans.disk) key).all fun seg =>
            !meets r.range seg.1 seg.2.1 || holdsVersion object s.spans version seg.1 seg.2.2
  | _ => true

/-- A request attaches to a live run of its own version. -/
def attachesSame (s : System) : Label → Bool
  | .request id .cover =>
      (s.requests.lookup id).all fun r =>
        match r.stage, s.slot with
        | .seeking plan, some (.live run) =>
            (s.runs.lookup run).all fun run =>
              run.finished || !run.covers plan.frontier r.range.stop || suits r.etag run.etag
        | _, _ => true
  | _ => true

/-- Nothing of another version lands on a name that a response or a run in progress
has still to open. -/
def landsAlone (s : System) (inner : Transfers.Label) : Bool :=
  (lands key s.spans inner).all fun landing =>
    every s.requests (fun _ r => !mayOpen key s.runs r landing.1 || suits r.etag landing.2) &&
      every s.runs fun _ run => run.finished || landing.1 ∉ runPaths key run || suits run.etag landing.2

def spansApart (s : System) (inner : Transfers.Label) : Bool :=
  rangeFree s.spans inner && startsClean key object s.spans inner && landsAlone key s inner

def keepsVersions (s : System) (label : Label) : Bool :=
  delivers key object config s label && gateKnows key object s label && attachesSame s label &&
    (asked key config s label).all (spansApart key object s)

/-! The invariant. -/

/-- An escape belongs to one body. -/
def Single (requests : Table Nat Request) : Prop :=
  ∀ id other r q b c x, requests.lookup id = some r → requests.lookup other = some q →
    r.stage = .serving b → q.stage = .serving c → b.tail = .escape x → c.tail = .escape x → id = other

def Drives (t : Transfer) (run : Run) : Prop := t.span = run.span ∧ t.kind = .run ∧ t.etag = run.etag

structure Sound (s : System) : Prop where
  owned : Owned key s.spans.disk s.spans.transfers
  versioned : Versioned key object s.spans.disk s.spans.transfers s.spans.watchers
  runs : ∀ id run version, s.runs.lookup id = some run → run.finished = false → run.etag = some version →
    RunSound key object s.spans version run
  drivers : ∀ id run t, s.runs.lookup id = some run → s.spans.transfers.lookup id = some t → Drives t run
  requests : ∀ id r version, s.requests.lookup id = some r → r.etag = some version →
    RequestSound key object s.spans s.runs version r
  single : Single s.requests

/-- A step of the transfers on some party leaves everything sound but the body that
the party belongs to. -/
structure Carried (s : System) (spans : Transfers.System) (party : Option Nat) : Prop where
  owned : Owned key spans.disk spans.transfers
  versioned : Versioned key object spans.disk spans.transfers spans.watchers
  runs : ∀ id run version, s.runs.lookup id = some run → run.finished = false → run.etag = some version →
    RunSound key object spans version run
  drivers : ∀ id run t, s.runs.lookup id = some run → spans.transfers.lookup id = some t → Drives t run
  requests : ∀ id r version, s.requests.lookup id = some r → r.etag = some version →
    (∀ b x, r.stage = .serving b → b.finish = .waiting → b.tail = .escape x → party ≠ some x) →
    RequestSound key object spans s.runs version r

variable {key object config}

theorem suits_some {given etag : Option Text} {version : Text} (same : suits given etag = true)
    (tag : given = some version) : etag = some version := by
  rw [tag] at same
  exact of_decide_eq_true same

theorem delivers_spans (t : Transfers.System) (inner : Transfers.Label)
    (order : spansDeliver object t inner = true) : Delivers object t.transfers inner := by
  intro id u data version it found etag
  rw [it] at order
  simp only [spansDeliver, found, etag, Option.all_some, decide_eq_true_eq] at order
  exact order

theorem carried_quiet (s : System) (sound : Sound key object s) : Carried key object s s.spans none :=
  ⟨sound.owned, sound.versioned, sound.runs, sound.drivers, fun id r version found etag _ =>
    sound.requests id r version found etag⟩

theorem carried_step (s : System) (spans : Transfers.System) (inner : Transfers.Label)
    (sound : Sound key object s) (order : spansDeliver object s.spans inner = true)
    (apart : spansApart key object s inner = true)
    (fresh : ∀ id kind etag span, inner = .start id kind etag span → id ∉ s.runs)
    (steps : Transfers.step key s.spans inner = some spans) :
    Carried key object s spans (actsOn inner) := by
  simp only [spansApart, Bool.and_eq_true] at apart
  obtain ⟨⟨free, clean⟩, alone⟩ := apart
  have inOrder := delivers_spans s.spans inner order
  have landing : ∀ path etag, lands key s.spans inner = some (path, etag) →
      (∀ id r version, s.requests.lookup id = some r → r.etag = some version →
        mayOpen key s.runs r path = true → etag = some version) ∧
      ∀ id run version, s.runs.lookup id = some run → run.finished = false → run.etag = some version →
        path ∈ runPaths key run → etag = some version := by
    intro path etag there
    simp only [landsAlone, there, Option.all_some, Bool.and_eq_true, every_iff] at alone
    refine ⟨fun id r version found tag opens => ?_, fun id run version found live tag member => ?_⟩
    · have fits := alone.1 id r found
      rw [opens, Bool.not_true, Bool.false_or] at fits
      exact suits_some fits tag
    · have fits := alone.2 id run found
      rw [live, Bool.false_or, Bool.or_eq_true, decide_eq_true_eq] at fits
      cases fits with
      | inl absent => exact absurd member absent
      | inr same => exact suits_some same tag
  refine ⟨owned_effect sound.owned (loneStart_of_rangeFree s.spans inner free) (effect_step key s.spans spans inner steps),
    versioned_step s.spans spans inner sound.owned sound.versioned free clean inOrder steps,
    fun id run version found live etag => ?_, fun id run t found driver => ?_,
    fun id r version found etag mine => ?_⟩
  · apply runSound_step sound.owned sound.versioned inOrder steps run (sound.runs id run version found live etag)
    intro path member tag there
    exact (landing path tag there).2 id run version found live etag member
  · cases transfers_step s.spans spans inner steps id t driver with
    | inl old =>
      obtain ⟨u, present, span, tag, kind⟩ := old
      have drives := sound.drivers id run u found present
      exact ⟨span.trans drives.1, kind.trans drives.2.1, tag.trans drives.2.2⟩
    | inr started => exact absurd (lookup_mem s.runs id run found) (fresh id _ _ _ started)
  · apply requestSound_step sound.owned sound.versioned inOrder steps s.runs r (sound.requests id r version found etag)
    · intro path tag there opens
      exact (landing path tag there).1 id r version found etag opens
    · exact mine

/-! The table of runs. -/

/-- A run that is updated stays sound for whoever reads it. -/
structure Kept (key : Text) (object : Text → Bytes) (spans : Transfers.System) (run next : Run) : Prop where
  span : next.span = run.span
  etag : next.etag = run.etag
  finished : next.finished = false → run.finished = false
  sound : ∀ version, RunSound key object spans version run → RunSound key object spans version next

structure RunsChange (key : Text) (object : Text → Bytes) (spans : Transfers.System)
    (runs next : Table Nat Run) : Prop where
  kept : ∀ id run, runs.lookup id = some run → ∃ run', next.lookup id = some run' ∧
    Kept key object spans run run'
  from_ : ∀ id run', next.lookup id = some run' →
    (∃ run, runs.lookup id = some run ∧ Kept key object spans run run') ∨
      (∀ version, run'.etag = some version → RunSound key object spans version run') ∧
        ∀ t, spans.transfers.lookup id = some t → Drives t run'

theorem Kept.refl (spans : Transfers.System) (run : Run) : Kept key object spans run run :=
  ⟨rfl, rfl, fun live => live, fun _ sound => sound⟩

theorem RunsChange.refl (spans : Transfers.System) (runs : Table Nat Run) :
    RunsChange key object spans runs runs :=
  ⟨fun _ run found => ⟨run, found, .refl spans run⟩, fun _ run found => .inl ⟨run, found, .refl spans run⟩⟩

theorem RunsChange.update {spans : Transfers.System} {runs : Table Nat Run} (id : Nat) (run next : Run)
    (found : runs.lookup id = some run) (kept : Kept key object spans run next) :
    RunsChange key object spans runs (runs.insert id next) := by
  refine ⟨fun other old present => ?_, fun other new present => ?_⟩
  · by_cases same : other = id
    · rw [same, found] at present
      cases present
      rw [same]
      exact ⟨next, AList.lookup_insert runs, kept⟩
    · exact ⟨old, (AList.lookup_insert_ne same).trans present, .refl spans old⟩
  · cases lookup_insert_some runs id other next new present with
    | inl updated =>
      rw [updated.1, updated.2]
      exact .inl ⟨run, found, kept⟩
    | inr old => exact .inl ⟨new, old.2, .refl spans new⟩

theorem requestSound_runs {spans : Transfers.System} {runs next : Table Nat Run} {version : Text} (r : Request)
    (change : RunsChange key object spans runs next) (sound : RequestSound key object spans runs version r) :
    RequestSound key object spans next version r := by
  obtain ⟨etag, total, range, stage⟩ := r
  cases stage with
  | serving b =>
    refine ⟨sound.1, fun waits => ?_⟩
    have body := sound.2 waits
    refine ⟨body.opened, body.unopened, ?_⟩
    have tail := body.tail
    unfold TailSound at tail ⊢
    cases source : b.tail with
    | nothing => trivial
    | stream => trivial
    | run id =>
      rw [source] at tail
      obtain ⟨run, found, good, begins, file⟩ := tail
      obtain ⟨run', present, kept⟩ := change.kept id run found
      refine ⟨run', present, kept.sound version good, ?_, ?_⟩
      · rw [kept.span]
        exact begins
      · rw [kept.span]
        exact file
    | escape id =>
      rw [source] at tail
      exact tail
  | _ => exact sound

/-- A run that has just been started is sound. -/
theorem runsChange_spawn (s : System) (spans : Transfers.System) (party : Option Nat) (id : Nat) (run : Run)
    (carried : Carried key object s spans party) (fresh : id ∉ s.runs) (unsealed : run.sealed = false)
    (steps : Transfers.step key s.spans (.start id .run run.etag run.span) = some spans) :
    RunsChange key object spans s.runs (s.runs.insert id run) := by
  simp only [Transfers.step] at steps
  split_ifs at steps
  cases steps
  have mine : ∀ t, (s.spans.transfers.insert id ⟨.run, run.etag, run.span, none, 0, .pumping⟩).lookup id = some t →
      Drives t run := by
    intro t found
    rw [AList.lookup_insert] at found
    cases found
    exact ⟨rfl, rfl, rfl⟩
  have stakes : Stakes (s.spans.transfers.insert id ⟨.run, run.etag, run.span, none, 0, .pumping⟩)
      s.spans.watchers run.span run.etag := .inl ⟨id, _, AList.lookup_insert _, rfl, rfl⟩
  refine ⟨fun other old present => ?_, fun other new present => ?_⟩
  · have apart : other ≠ id := fun same => fresh (same ▸ lookup_mem s.runs other old present)
    exact ⟨old, (AList.lookup_insert_ne apart).trans present, .refl _ old⟩
  · cases lookup_insert_some s.runs id other run new present with
    | inl started =>
      rw [started.1, started.2]
      refine .inr ⟨fun version etag => ⟨etag, fun inode named => ?_, fun sealed_ => ?_, fun tag other => ?_⟩, mine⟩
      · exact pure_staked carried.owned carried.versioned run.span (etag ▸ stakes) named
      · rw [unsealed] at sealed_
        cases sealed_
      · exact (carried.versioned.agree run.span _ _ other stakes).trans etag
    | inr old => exact .inl ⟨new, old.2, .refl _ new⟩

/-- A rename that finds its part succeeds. -/
theorem rename_lands (t : Transfers.System) (spans : Transfers.System) (id : Nat) (u : Transfer)
    (found : t.transfers.lookup id = some u) (there : partOf key u.span ∈ t.disk.nodes)
    (steps : Transfers.step key t (.transfer id (.rename true)) = some spans) :
    u.phase = .renaming ∧
      t.disk.rename (partOf key u.span) (segPath key u.span.start u.sealStop) = some spans.disk ∧
      spans.transfers = t.transfers.erase id := by
  obtain ⟨inode, named⟩ := Option.isSome_iff_exists.mp (AList.lookup_isSome.mpr there)
  simp only [Transfers.step, found, transferStep] at steps
  obtain ⟨⟨disk, next, claim⟩, moves, after⟩ := Option.map_eq_some_iff.mp steps
  by_cases renames : u.phase = .renaming
  · rw [if_pos renames, attempt, if_pos rfl, Disk.rename, named, Option.map_some] at moves
    cases moves
    rw [← after, Disk.rename, named]
    exact ⟨renames, rfl, rfl⟩
  · rw [if_neg renames] at moves
    cases moves

/-- A driver's rename leaves the window's file under its segment name. -/
theorem runsChange_seal (s : System) (spans : Transfers.System) (inner : Transfers.Label)
    (sound : Sound key object s)
    (steps : Transfers.step key s.spans inner = some spans) :
    RunsChange key object spans s.runs (noteSeal key s inner) := by
  unfold noteSeal
  split
  next id =>
    split
    next run found =>
      split_ifs with there
      · refine .update id run _ found ⟨rfl, rfl, fun live => live, fun version good => ?_⟩
        refine ⟨good.etag, good.part, fun _ inode named => ?_, good.range⟩
        have present : ∃ u, s.spans.transfers.lookup id = some u := by
          simp only [Transfers.step] at steps
          split at steps
          next u present => exact ⟨u, present⟩
          next => cases steps
        obtain ⟨u, present⟩ := present
        obtain ⟨span, kind, tag⟩ := sound.drivers id run u found present
        rw [← span] at there
        obtain ⟨renames, moves, table⟩ := rename_lands s.spans spans id u present there steps
        have ends : u.sealStop = u.span.stop := by rw [Transfer.sealStop, kind]
        change spans.disk.nodes.lookup (segPath key run.span.start run.span.stop) = some inode at named
        rw [table]
        change Pure key object spans.disk _ version run.span.start none inode
        rw [← span, ← ends] at named
        rw [← span]
        exact sealedPure sound.owned sound.versioned id u present renames (tag.trans good.etag) moves named
      · exact .refl spans s.runs
    next => exact .refl spans s.runs
  next => exact .refl spans s.runs

/-! A turn of a request. -/

/-- What a turn asks of the transfers is done. -/
def Follows (key : Text) (t : Transfers.System) (inner : Option Transfers.Label) (spans : Transfers.System) : Prop :=
  match inner with
  | none => spans = t
  | some inner => Transfers.step key t inner = some spans

structure TurnSound (key : Text) (object : Text → Bytes) (s : System) (spans : Transfers.System) (r : Request)
    (turn : Turn Request) : Prop where
  runs : RunsChange key object spans s.runs turn.runs
  party : ∀ next, turn.party = some next → next.etag = r.etag ∧
    ∀ version, r.etag = some version → RequestSound key object spans turn.runs version next

theorem turn_quietly (s : System) (r next : Request) (etag : next.etag = r.etag)
    (sound : ∀ version, r.etag = some version → RequestSound key object s.spans s.runs version next) :
    TurnSound key object s s.spans r (quietly s next) := by
  refine ⟨.refl _ _, fun party same => ?_⟩
  cases same
  exact ⟨etag, sound⟩

theorem runSpan_start {start need total : Nat} {behind : Option Behind} {span : Span}
    (chosen : runSpan config start need total behind = some span) : span.start = start := by
  unfold runSpan at chosen
  dsimp only at chosen
  split_ifs at chosen
  cases chosen
  rfl

/-- A body changes the playhead of its run at most. -/
theorem runsChange_bodyMove (s : System) (spans : Transfers.System) (range : Span) (b next : Body)
    (label : BodyLabel) (runs : Table Nat Run) (moves : bodyMove key s range b label = some (none, runs, next)) :
    RunsChange key object spans s.runs runs := by
  cases label with
  | readTail count =>
    simp only [bodyMove] at moves
    split_ifs at moves
    obtain ⟨⟨table, after⟩, reads, same⟩ := Option.map_eq_some_iff.mp moves
    cases same
    unfold readTail at reads
    split at reads
    next id inode _ _ =>
      obtain ⟨run, found, made⟩ := Option.bind_eq_some_iff.mp reads
      dsimp only at made
      split_ifs at made
      cases made
      exact .update id run _ found ⟨rfl, rfl, fun live => live, fun _ good =>
        ⟨good.etag, good.part, good.segment, good.range⟩⟩
    next => cases reads
  | readPiece count =>
    obtain ⟨_, _, same⟩ := Option.map_eq_some_iff.mp moves
    cases same
    exact .refl spans s.runs
  | openTail opened_ =>
    simp only [bodyMove] at moves
    split_ifs at moves
    obtain ⟨_, _, same⟩ := Option.map_eq_some_iff.mp moves
    cases same
    exact .refl spans s.runs
  | escape move =>
    simp only [bodyMove] at moves
    split at moves
    next => cases move <;> cases moves
    next => cases moves
  | _ =>
    simp only [bodyMove] at moves
    repeat' split at moves
    all_goals
      cases moves
      try exact .refl spans s.runs

section Turns
variable {s : System} {spans : Transfers.System} {id : Nat} {r : Request} {turn : Turn Request}
  (sound : Sound key object s) (found : s.requests.lookup id = some r)

include sound found

theorem turn_gate (inUse : Bool) (knows : gateKnows key object s (.request id (.gate inUse)) = true)
    (moves : requestMove key config s r (.gate inUse) = some turn)
    (follows : Follows key s.spans turn.inner spans) : TurnSound key object s spans r turn := by
  simp only [requestMove] at moves
  split_ifs at moves with stated changed used
  · cases moves
    cases follows
    refine turn_quietly s r _ rfl fun version _ => ?_
    exact ⟨readFrom_nil _ _, fun _ => bodySound_of_tail _ rfl trivial⟩
  · cases moves
    cases follows
    exact turn_quietly s r _ rfl fun _ _ => trivial
  · cases moves
    cases follows
    refine turn_quietly s r _ rfl fun version etag start stop wanted inode named => ?_
    simp only [gateKnows, found, Option.all_some] at knows
    rw [Bool.eq_false_iff.mpr changed, Bool.false_or, etag, Option.all_some, List.all_eq_true] at knows
    have fits := knows _ (mem_listed sound.owned start stop inode named)
    rw [wanted, Bool.not_true, Bool.false_or] at fits
    exact segPure_of_holds sound.owned start stop fits inode named

omit found in
theorem turn_list (moves : requestMove key config s r .list = some turn)
    (follows : Follows key s.spans turn.inner spans) : TurnSound key object s spans r turn := by
  simp only [requestMove] at moves
  split_ifs at moves
  cases moves
  cases follows
  refine turn_quietly s r _ rfl fun version etag start stop wanted absent inode named => ?_
  have listed_ := mem_listed sound.owned start stop inode named
  exact absurd ((mem_segmentsForKey _ key _ start stop).mp listed_).1 absent

theorem turn_plan (moves : requestMove key config s r .plan = some turn)
    (follows : Follows key s.spans turn.inner spans) : TurnSound key object s spans r turn := by
  have before := fun version etag => sound.requests id r version found etag
  obtain ⟨etag, total, range, stage⟩ := r
  simp only [requestMove] at moves
  split_ifs at moves with planning full
  · cases planning
    cases moves
    cases follows
    refine turn_quietly s _ _ rfl fun version same => ?_
    exact serves_begin (planSound_planned sound.owned range (before version same)) .nothing trivial
  · cases planning
    cases moves
    cases follows
    refine turn_quietly s _ _ rfl fun version same => ?_
    exact planSound_planned sound.owned range (before version same)

theorem turn_permit (ok : Bool) (moves : requestMove key config s r (.permit ok) = some turn)
    (follows : Follows key s.spans turn.inner spans) : TurnSound key object s spans r turn := by
  have before := fun version etag => sound.requests id r version found etag
  obtain ⟨etag, total, range, stage⟩ := r
  simp only [requestMove] at moves
  split at moves
  next plan =>
    split_ifs at moves
    · cases moves
      cases follows
      exact turn_quietly s _ _ rfl before
    · cases moves
      cases follows
      exact turn_quietly s _ _ rfl fun version same => serves_begin (before version same) .stream trivial
  next => cases moves

theorem turn_cover (same_ : attachesSame s (.request id .cover) = true)
    (moves : requestMove key config s r .cover = some turn)
    (follows : Follows key s.spans turn.inner spans) : TurnSound key object s spans r turn := by
  have before := fun version etag => sound.requests id r version found etag
  obtain ⟨etag, total, range, stage⟩ := r
  simp only [requestMove] at moves
  split at moves
  next plan =>
    split at moves
    next run live =>
      split_ifs at moves with covers
      · cases moves
        cases follows
        refine turn_quietly s _ _ rfl fun version tag => ?_
        obtain ⟨window, present, fits⟩ := (Option.any_eq_true _ _).mp covers
        simp only [Bool.and_eq_true, Bool.not_eq_true'] at fits
        simp only [attachesSame, found, Option.all_some, live, present, fits.1, fits.2, Bool.not_true,
          Bool.false_or] at same_
        refine serves_begin (before version tag) (.run run) ⟨window, present, ?_, ?_, nofun⟩
        · exact sound.runs run window version present fits.1 (suits_some same_ tag)
        · rw [tailStart_begin range plan _ (before version tag)]
          have inside := of_decide_eq_true fits.2
          exact inside.1
      · cases moves
        cases follows
        exact turn_quietly s _ _ rfl before
    next =>
      cases moves
      cases follows
      exact turn_quietly s _ _ rfl before
  next => cases moves

omit sound found in
/-- A turn that asks for nothing and keeps the stage's plan. -/
theorem turn_stage (plan : StagedPlan) (slot : Option Slot) (next : Stage)
    (before : ∀ version, r.etag = some version → PlanSound key object s.spans version r.range plan)
    (planned : ∀ version, RequestSound key object s.spans s.runs version { r with stage := next } =
      PlanSound key object s.spans version r.range plan) :
    TurnSound key object s s.spans r ⟨none, slot, s.runs, some { r with stage := next }⟩ := by
  refine ⟨.refl _ _, fun party same => ?_⟩
  cases same
  refine ⟨rfl, fun version etag => ?_⟩
  rw [planned version]
  exact before version etag

theorem turn_reserve (moves : requestMove key config s r .reserve = some turn)
    (follows : Follows key s.spans turn.inner spans) : TurnSound key object s spans r turn := by
  have before := fun version etag => sound.requests id r version found etag
  obtain ⟨etag, total, range, stage⟩ := r
  simp only [requestMove] at moves
  split at moves
  next plan =>
    split at moves
    next behind taken =>
      cases moves
      cases follows
      exact turn_stage plan _ _ before fun _ => rfl
    next =>
      cases moves
      cases follows
      exact turn_stage plan _ _ before fun _ => rfl
  next => cases moves

omit sound in
theorem turn_unlink (party : Option Nat) (carried : Carried key object s spans party)
    (moves : requestMove key config s r .unlink = some turn)
    (follows : Follows key s.spans turn.inner spans) : TurnSound key object s spans r turn := by
  have before := fun version etag => carried.requests id r version found etag
  obtain ⟨etag, total, range, stage⟩ := r
  simp only [requestMove] at moves
  split at moves
  next path rest freed =>
    cases moves
    cases follows
    refine ⟨.refl _ _, fun next same => ?_⟩
    cases same
    refine ⟨rfl, fun version tag start stop wanted absent inode named => ?_⟩
    have whole := before version tag nofun
    obtain ⟨differs, _⟩ := lookup_erase_some s.spans.disk.nodes path _ inode named
    exact whole start stop wanted (fun member => (List.mem_cons.mp member).elim differs absent) inode named
  next freed =>
    cases moves
    cases follows
    refine ⟨.refl _ _, fun next same => ?_⟩
    cases same
    refine ⟨rfl, fun version tag start stop wanted inode named => ?_⟩
    exact before version tag nofun start stop wanted (List.not_mem_nil) inode named
  next => cases moves

theorem turn_spawn (run : Nat) (permit : Bool) (party : Option Nat) (carried : Carried key object s spans party)
    (moves : requestMove key config s r (.spawn run permit) = some turn)
    (follows : Follows key s.spans turn.inner spans) : TurnSound key object s spans r turn := by
  have old := fun version etag => sound.requests id r version found etag
  have before := fun version etag => carried.requests id r version found etag
  obtain ⟨etag, total, range, stage⟩ := r
  simp only [requestMove] at moves
  split at moves
  next plan behind =>
    by_cases taken : (!unused s run) = true
    · rw [if_pos taken] at moves
      cases moves
    rw [if_neg taken] at moves
    cases moves
    simp only [Bool.not_eq_true', Bool.not_eq_false, unused, Bool.and_eq_true, decide_eq_true_eq] at taken
    unfold spawn at follows ⊢
    split at follows
    next span chosen =>
      have begins : span.start = plan.frontier := by
        cases permit with
        | true => exact runSpan_start chosen
        | false => cases chosen
      have change := runsChange_spawn s spans party run
        ⟨span, etag, total, (none : Option Nat).getD span.start, false, false⟩ carried taken.1 rfl follows
      refine ⟨change, fun next same => ?_⟩
      cases same
      refine ⟨rfl, fun version tag => ?_⟩
      refine serves_begin (before version tag nofun) (.run run) ?_
      refine ⟨_, AList.lookup_insert _, ?_, ?_, nofun⟩
      · cases change.from_ run _ (AList.lookup_insert _) with
        | inl earlier =>
          obtain ⟨other, present, _⟩ := earlier
          exact absurd (lookup_mem s.runs run other present) taken.1
        | inr fresh => exact fresh.1 version tag
      · rw [tailStart_begin range plan _ (before version tag nofun)]
        exact Nat.le_of_eq begins
    next =>
      cases follows
      exact turn_stage plan _ _ old fun _ => rfl
  next => cases moves

omit sound in
theorem turn_escape (new : Nat) (ok : Bool) (party : Option Nat) (carried : Carried key object s spans party)
    (moves : requestMove key config s r (.escape new ok) = some turn)
    (follows : Follows key s.spans turn.inner spans) : TurnSound key object s spans r turn := by
  have before := fun version etag => carried.requests id r version found etag
  obtain ⟨etag, total, range, stage⟩ := r
  simp only [requestMove] at moves
  split at moves
  next plan =>
    split_ifs at moves with short fine taken
    · cases moves
      refine ⟨.refl _ _, fun next same => ?_⟩
      cases same
      refine ⟨rfl, fun version tag => ?_⟩
      refine serves_begin (before version tag nofun) (.escape new) fun t present => ?_
      simp only [Follows, Transfers.step] at follows
      split_ifs at follows
      cases follows
      rw [AList.lookup_insert] at present
      cases present
      exact ⟨rfl, tag, (tailStart_begin range plan _ (before version tag nofun)).symm⟩
    · cases moves
      cases follows
      exact turn_quietly s _ _ rfl fun _ _ => trivial
  next => cases moves

theorem turn_body (label : BodyLabel) (streams : streamDelivers object s (.request id (.body label)) = true)
    (order : ∀ inner, turn.inner = some inner → spansDeliver object s.spans inner = true)
    (moves : requestMove key config s r (.body label) = some turn)
    (follows : Follows key s.spans turn.inner spans) : TurnSound key object s spans r turn := by
  have before := fun version etag => sound.requests id r version found etag
  obtain ⟨etag, total, range, stage⟩ := r
  simp only [requestMove] at moves
  split at moves
  next b =>
    split_ifs at moves with waits
    obtain ⟨⟨inner, runs, next⟩, yields, made⟩ := Option.map_eq_some_iff.mp moves
    cases made
    cases inner with
    | none =>
      cases follows
      have change : RunsChange key object s.spans s.runs runs :=
        runsChange_bodyMove s s.spans range b next label runs yields
      refine ⟨change, fun party same => ?_⟩
      cases same
      refine ⟨rfl, fun version tag => ?_⟩
      apply requestSound_runs _ change
      apply serves_quietMove label runs waits (before version tag) _ yields
      intro data it
      rw [it] at streams
      change etag = some version at tag
      simp only [streamDelivers, found, Option.all_some, tag, decide_eq_true_eq] at streams
      exact streams
    | some inner =>
      obtain ⟨_, _, _, _, _, _, kept⟩ := escape_bodyMove label inner runs yields
      cases kept
      refine ⟨.refl spans s.runs, fun party same => ?_⟩
      cases same
      refine ⟨rfl, fun version tag => ?_⟩
      exact serves_escapeMove label inner s.runs spans waits (before version tag)
        (delivers_spans s.spans inner (order inner rfl)) yields follows
  next => cases moves

omit sound found in
theorem turn_drop (moves : requestMove key config s r .drop = some turn) : TurnSound key object s spans r turn := by
  cases moves
  exact ⟨.refl spans s.runs, nofun⟩

theorem turn_request (label : RequestLabel) (party : Option Nat) (carried : Carried key object s spans party)
    (streams : streamDelivers object s (.request id label) = true)
    (knows : gateKnows key object s (.request id label) = true)
    (same_ : attachesSame s (.request id label) = true)
    (order : ∀ inner, turn.inner = some inner → spansDeliver object s.spans inner = true)
    (moves : requestMove key config s r label = some turn)
    (follows : Follows key s.spans turn.inner spans) : TurnSound key object s spans r turn := by
  cases label with
  | gate inUse => exact turn_gate sound found inUse knows moves follows
  | list => exact turn_list sound moves follows
  | unlink => exact turn_unlink found party carried moves follows
  | plan => exact turn_plan sound found moves follows
  | permit ok => exact turn_permit sound found ok moves follows
  | cover => exact turn_cover sound found same_ moves follows
  | reserve => exact turn_reserve sound found moves follows
  | spawn run permit => exact turn_spawn sound found run permit party carried moves follows
  | escape new ok => exact turn_escape found new ok party carried moves follows
  | body label => exact turn_body sound found label streams order moves follows
  | drop => exact turn_drop moves

end Turns

/-! Whose transfer a step moves. -/

/-- A turn moves the transfer of its own body, or starts one under a new name. -/
theorem inner_requestMove (s : System) (r : Request) (label : RequestLabel) (turn : Turn Request)
    (inner : Transfers.Label) (moves : requestMove key config s r label = some turn)
    (asks : turn.inner = some inner) :
    actsOn inner = none ∨ (∃ x kind etag span, inner = .start x kind etag span ∧ unused s x = true) ∨
      ∃ b x move, inner = .transfer x move ∧ r.stage = .serving b ∧ b.tail = .escape x := by
  cases label with
  | unlink =>
    simp only [requestMove] at moves
    split at moves <;> cases moves <;> cases asks
    · exact .inl rfl
    · exact .inl rfl
  | spawn run permit =>
    simp only [requestMove] at moves
    split at moves
    next =>
      by_cases taken : (!unused s run) = true
      · rw [if_pos taken] at moves
        cases moves
      rw [if_neg taken] at moves
      cases moves
      unfold spawn at asks
      split at asks <;> cases asks
      exact .inr (.inl ⟨run, .run, r.etag, _, rfl, by simpa using taken⟩)
    next => cases moves
  | escape new ok =>
    simp only [requestMove] at moves
    split at moves
    next =>
      split_ifs at moves with short fine taken <;> cases moves <;> cases asks
      exact .inr (.inl ⟨new, .escape, r.etag, _, rfl, by simpa using taken⟩)
    next => cases moves
  | body label =>
    simp only [requestMove] at moves
    split at moves
    next b stage =>
      split_ifs at moves
      obtain ⟨⟨own, runs, next⟩, yields, made⟩ := Option.map_eq_some_iff.mp moves
      cases made
      change own = some inner at asks
      rw [asks] at yields
      obtain ⟨x, move, it, _, source, _⟩ := escape_bodyMove label inner runs yields
      exact .inr (.inr ⟨b, x, move, it, stage, source⟩)
    next => cases moves
  | drop =>
    cases moves
    change dropped s r.stage = some inner at asks
    unfold dropped at asks
    split at asks
    next b stage =>
      split at asks
      next x source =>
        split_ifs at asks
        · cases asks
          exact .inr (.inr ⟨b, x, .drop, rfl, stage, source⟩)
        · cases asks
          exact .inl rfl
      next => cases asks
    next => cases asks
  | _ =>
    simp only [requestMove] at moves
    repeat' split at moves
    all_goals
      cases moves
      try cases asks

theorem inner_chainMove (s : System) (c : Chain) (label : ChainLabel) (turn : Turn Chain)
    (inner : Transfers.Label) (moves : chainMove config s c label = some turn) (asks : turn.inner = some inner) :
    ∃ x run span, s.runs.lookup c.run = some run ∧ inner = .start x .run run.etag span ∧ unused s x = true ∧
      ∃ seed, turn.runs = s.runs.insert x ⟨span, run.etag, run.total, seed, false, false⟩ := by
  cases label with
  | spawn new permit =>
    simp only [chainMove] at moves
    split at moves
    next run _ found =>
      by_cases taken : (!unused s new) = true
      · rw [if_pos taken] at moves
        cases moves
      rw [if_neg taken] at moves
      cases moves
      unfold spawn at asks ⊢
      split at asks
      next span _ =>
        cases asks
        exact ⟨new, run, span, found, rfl, by simpa using taken, _, rfl⟩
      next => cases asks
    next => cases moves
  | _ =>
    simp only [chainMove] at moves
    repeat' split at moves
    all_goals
      cases moves
      try cases asks

theorem runs_chainMove (s : System) (c : Chain) (label : ChainLabel) (turn : Turn Chain)
    (moves : chainMove config s c label = some turn) (quiet : turn.inner = none) : turn.runs = s.runs := by
  cases label with
  | spawn new permit =>
    simp only [chainMove] at moves
    split at moves
    next =>
      by_cases taken : (!unused s new) = true
      · rw [if_pos taken] at moves
        cases moves
      rw [if_neg taken] at moves
      cases moves
      unfold spawn at quiet ⊢
      split at quiet
      next => cases quiet
      next => rfl
    next => cases moves
  | _ =>
    simp only [chainMove] at moves
    repeat' split at moves
    all_goals
      cases moves
      try rfl

/-- The tail a turn gives a body is an escape only if it was, or under a new name. -/
theorem tail_requestMove (s : System) (r next : Request) (label : RequestLabel) (turn : Turn Request)
    (moves : requestMove key config s r label = some turn) (goes : turn.party = some next) (b : Body) (x : Nat)
    (serves : next.stage = .serving b) (tail : b.tail = .escape x) :
    (∃ c, r.stage = .serving c ∧ c.tail = .escape x) ∨ unused s x = true := by
  cases label with
  | body label =>
    simp only [requestMove] at moves
    split at moves
    next c stage =>
      split_ifs at moves
      obtain ⟨⟨own, runs, after⟩, yields, made⟩ := Option.map_eq_some_iff.mp moves
      cases made
      cases goes
      cases serves
      exact .inl ⟨c, stage, (tail_bodyMove label own runs yields).symm.trans tail⟩
    next => cases moves
  | escape new ok =>
    simp only [requestMove] at moves
    split at moves
    next =>
      split_ifs at moves with short fine taken <;> cases moves <;> cases goes <;> cases serves
      cases tail
      exact .inr (by simpa using taken)
    next => cases moves
  | spawn run permit =>
    simp only [requestMove] at moves
    split at moves
    next =>
      by_cases taken : (!unused s run) = true
      · rw [if_pos taken] at moves
        cases moves
      rw [if_neg taken] at moves
      cases moves
      unfold spawn at goes
      split at goes <;> cases goes <;> cases serves
      cases tail
    next => cases moves
  | unlink =>
    simp only [requestMove] at moves
    split at moves <;> cases moves <;> cases goes <;> cases serves
  | _ =>
    simp only [requestMove] at moves
    repeat' split at moves
    all_goals
      cases moves
      try cases goes
      try cases serves
      try cases tail

theorem not_escape_of_unused (s : System) (x : Nat) (free : unused s x = true) :
    x ∉ s.runs ∧ ∀ id r b, s.requests.lookup id = some r → r.stage = .serving b → b.tail ≠ .escape x := by
  simp only [unused, Bool.and_eq_true, decide_eq_true_eq, every_iff] at free
  refine ⟨free.1, fun id r b found serves => ?_⟩
  have apart := free.2 id r found
  rw [serves] at apart
  exact of_decide_eq_true apart

theorem single_turn (s : System) (single : Single s.requests) (id : Nat) (r : Request) (label : RequestLabel)
    (turn : Turn Request) (found : s.requests.lookup id = some r)
    (moves : requestMove key config s r label = some turn) : Single (replace s.requests id turn.party) := by
  -- An escape of the party was its own before, or is new to everybody.
  have mine : ∀ next b other q c x, turn.party = some next → next.stage = .serving b → b.tail = .escape x →
      s.requests.lookup other = some q → q.stage = .serving c → c.tail = .escape x → other = id := by
    intro next b other q c x goes serves tail present also too
    cases tail_requestMove s r next label turn moves goes b x serves tail with
    | inl own =>
      obtain ⟨d, stage, source⟩ := own
      exact single other id q r c d x present found also stage too source
    | inr free => exact absurd too ((not_escape_of_unused s x free).2 other q c present also)
  intro first second p q b c x one two serves also tail too
  by_cases same : first = id
  · by_cases it : second = id
    · exact same.trans it.symm
    · rw [same, lookup_replace] at one
      rw [lookup_replace_ne s.requests _ it] at two
      exact same.trans (mine p b second q c x one serves tail two also too).symm
  · rw [lookup_replace_ne s.requests _ same] at one
    by_cases it : second = id
    · rw [it, lookup_replace] at two
      exact (mine q c first p b x two also too one serves tail).trans it.symm
    · rw [lookup_replace_ne s.requests _ it] at two
      exact single first second p q b c x one two serves also tail too

/-- What a step asks of the transfers: nothing of a party's, a start under a new name,
a move of the acting body's own transfer, or what goes on without the sessions. -/
theorem inner_move (s next : System) (label : Label) (inner : Transfers.Label)
    (moves : move key config s label = some (some inner, next)) :
    actsOn inner = none ∨ (∃ x kind etag span, inner = .start x kind etag span ∧ unused s x = true) ∨
      (∃ id turn r b x act, label = .request id turn ∧ s.requests.lookup id = some r ∧ r.stage = .serving b ∧
        b.tail = .escape x ∧ inner = .transfer x act) ∨ unattended s inner = true := by
  cases label with
  | request id label =>
    simp only [move] at moves
    split at moves
    next r present =>
      obtain ⟨turn, turns, made⟩ := Option.map_eq_some_iff.mp moves
      cases inner_requestMove s r label turn inner turns (Prod.mk.inj made).1 with
      | inl nobody => exact .inl nobody
      | inr somebody =>
        cases somebody with
        | inl started => exact .inr (.inl started)
        | inr own =>
          obtain ⟨b, x, act, it, stage, source⟩ := own
          exact .inr (.inr (.inl ⟨id, label, r, b, x, act, rfl, present, stage, source, it⟩))
    next => cases moves
  | chain id label =>
    simp only [move] at moves
    split at moves
    next c present =>
      obtain ⟨turn, turns, made⟩ := Option.map_eq_some_iff.mp moves
      obtain ⟨x, _, _, _, it, free, _⟩ := inner_chainMove s c label turn inner turns (Prod.mk.inj made).1
      exact .inr (.inl ⟨x, _, _, _, it, free⟩)
    next => cases moves
  | span label =>
    simp only [move] at moves
    split_ifs at moves with alone
    cases moves
    exact .inr (.inr (.inr alone))
  | stat id etag total range =>
    simp only [move] at moves
    split_ifs at moves
    cases moves
  | tick id =>
    simp only [move] at moves
    split at moves
    next =>
      split_ifs at moves
      cases moves
    next => cases moves
  | finishRun id =>
    simp only [move] at moves
    split at moves
    next =>
      split_ifs at moves
      cases moves
    next => cases moves

theorem start_unused (s next : System) (label : Label) (inner : Transfers.Label)
    (moves : move key config s label = some (some inner, next)) (x : Nat) (kind : Kind) (etag : Option Text)
    (span : Span) (it : inner = .start x kind etag span) : x ∉ s.runs := by
  rcases inner_move s next label inner moves with nobody | ⟨_, _, _, _, same, free⟩ |
    ⟨_, _, _, _, _, _, _, _, _, _, same⟩ | alone
  · rw [it] at nobody
    cases nobody
  · rw [it] at same
    cases same
    exact (not_escape_of_unused s _ free).1
  · rw [it] at same
    cases same
  · rw [it] at alone
    cases alone

/-- A step moves no transfer of a body but that of the request it is a turn of. -/
theorem elsewhere (s next : System) (label : Label) (inner : Transfers.Label) (sound : Sound key object s)
    (moves : move key config s label = some (some inner, next)) (other : Nat) (q : Request) (b : Body) (x : Nat)
    (version : Text) (found : s.requests.lookup other = some q) (etag : q.etag = some version)
    (serves : q.stage = .serving b) (waits : b.finish = .waiting) (tail : b.tail = .escape x)
    (acts : actsOn inner = some x) : ∃ turn, label = .request other turn := by
  rcases inner_move s next label inner moves with nobody | ⟨_, _, _, _, it, free⟩ |
    ⟨id, turn, r, c, y, _, own, present, stage, source, it⟩ | alone
  · rw [nobody] at acts
    cases acts
  · rw [it] at acts
    cases acts
    exact absurd tail ((not_escape_of_unused s _ free).2 other q b found serves)
  · rw [it] at acts
    cases acts
    exact ⟨turn, by rw [own, sound.single other id q r b c _ found present serves stage tail source]⟩
  · -- What goes on by itself moves the transfers of runs only.
    cases inner with
    | transfer y act =>
      cases acts
      obtain ⟨t, present, run⟩ := (Option.any_eq_true _ _).mp alone
      have good := sound.requests other q version found etag
      unfold RequestSound at good
      rw [serves] at good
      have tailed := (good.2 waits).tail
      unfold TailSound at tailed
      rw [tail] at tailed
      have escape := (tailed t present).1
      rw [of_decide_eq_true run] at escape
      cases escape
    | start => cases alone
    | _ => cases acts

/-! A step. -/

theorem asked_move (s next : System) (label : Label) (inner : Option Transfers.Label)
    (moves : move key config s label = some (inner, next)) : asked key config s label = inner := by
  rw [asked, moves]
  rfl

/-- A step carries everything but the body whose transfer it moves. -/
theorem carried_move (s s' next : System) (label : Label) (inner : Option Transfers.Label)
    (sound : Sound key object s) (keeps : keepsVersions key object config s label = true)
    (moves : move key config s label = some (inner, next)) (follows : Follows key s.spans inner s'.spans) :
    ∃ party, Carried key object s s'.spans party ∧
      ∀ other q b x version, s.requests.lookup other = some q → q.etag = some version → q.stage = .serving b →
        b.finish = .waiting → b.tail = .escape x → party = some x → ∃ turn, label = .request other turn := by
  simp only [keepsVersions, delivers, asked_move s next label inner moves, Bool.and_eq_true] at keeps
  cases inner with
  | none =>
    rw [show s'.spans = s.spans from follows]
    exact ⟨none, carried_quiet s sound, fun _ _ _ _ _ _ _ _ _ _ same => by cases same⟩
  | some inner =>
    refine ⟨actsOn inner, carried_step s s'.spans inner sound keeps.1.1.1.2 keeps.2
      (start_unused s next label inner moves) follows, ?_⟩
    exact elsewhere s next label inner sound moves

/-- Everything is sound after a step when the runs and the responses are. -/
theorem sound_of_carried (s s' : System) (party : Option Nat) (carried : Carried key object s s'.spans party)
    (change : RunsChange key object s'.spans s.runs s'.runs)
    (requests : ∀ id r version, s'.requests.lookup id = some r → r.etag = some version →
      RequestSound key object s'.spans s'.runs version r)
    (single : Single s'.requests) : Sound key object s' := by
  refine ⟨carried.owned, carried.versioned, fun id run version found live etag => ?_,
    fun id run t found driver => ?_, requests, single⟩
  · cases change.from_ id run found with
    | inl earlier =>
      obtain ⟨old, present, kept⟩ := earlier
      exact kept.sound version (carried.runs id old version present (kept.finished live) (kept.etag ▸ etag))
    | inr started => exact started.1 version etag
  · cases change.from_ id run found with
    | inl earlier =>
      obtain ⟨old, present, kept⟩ := earlier
      have drives := carried.drivers id old t present driver
      exact ⟨drives.1.trans kept.span.symm, drives.2.1, drives.2.2.trans kept.etag.symm⟩
    | inr started => exact started.2 t driver

/-- Where nobody's request moves, the responses are as sound as before. -/
theorem requests_carried (s s' : System) (party : Option Nat) (label : Label)
    (carried : Carried key object s s'.spans party) (change : RunsChange key object s'.spans s.runs s'.runs)
    (others : ∀ other q b x version, s.requests.lookup other = some q → q.etag = some version →
      q.stage = .serving b → b.finish = .waiting → b.tail = .escape x → party = some x →
      ∃ turn, label = .request other turn)
    (id : Nat) (r : Request) (version : Text) (found : s.requests.lookup id = some r)
    (etag : r.etag = some version) (apart : ∀ turn, label ≠ .request id turn) :
    RequestSound key object s'.spans s'.runs version r := by
  apply requestSound_runs r change
  apply carried.requests id r version found etag
  intro b x serves waits tail acts
  obtain ⟨turn, it⟩ := others id r b x version found etag serves waits tail acts
  exact apart turn it

theorem sound_move (s s' next : System) (label : Label) (inner : Option Transfers.Label)
    (sound : Sound key object s) (keeps : keepsVersions key object config s label = true)
    (moves : move key config s label = some (inner, next)) (follows : Follows key s.spans inner s'.spans)
    (runs : s'.runs = next.runs) (requests : s'.requests = next.requests) : Sound key object s' := by
  obtain ⟨party, carried, others⟩ := carried_move s s' next label inner sound keeps moves follows
  have later := requests_carried s s' party label carried
  have order := keeps
  simp only [keepsVersions, delivers, asked_move s next label inner moves, Bool.and_eq_true] at order
  cases label with
  | request id label =>
    simp only [move] at moves
    split at moves
    next r found =>
      obtain ⟨turn, turns, made⟩ := Option.map_eq_some_iff.mp moves
      cases made
      have good := turn_request sound found label party carried order.1.1.1.1 order.1.1.2 order.1.2
        (fun asks it => by rw [it] at order; exact order.1.1.1.2) turns follows
      change s'.runs = turn.runs at runs
      have change := good.runs
      rw [← runs] at change
      refine sound_of_carried s s' party carried change (fun other q version present etag => ?_) ?_
      · rw [requests] at present
        by_cases same : other = id
        · rw [same, lookup_replace] at present
          have kept := good.party q present
          rw [runs]
          exact kept.2 version (kept.1.symm.trans etag)
        · rw [lookup_replace_ne s.requests _ same] at present
          exact later change others other q version present etag fun turn it => by cases it; exact same rfl
      · rw [requests]
        exact single_turn s sound.single id r label turn found turns
    next => cases moves
  | stat id etag total range =>
    simp only [move] at moves
    split_ifs at moves with taken
    cases moves
    have change : RunsChange key object s'.spans s.runs s'.runs := runs ▸ .refl _ _
    refine sound_of_carried s s' party carried change (fun other q version present tag => ?_) ?_
    · rw [requests] at present
      cases lookup_insert_some s.requests id other _ q present with
      | inl new =>
        rw [new.2]
        trivial
      | inr old => exact later change others other q version old.2 tag (by intro _ it; cases it)
    · rw [requests]
      intro first second p q b c x one two serves also tail too
      cases lookup_insert_some s.requests id first _ p one with
      | inl new =>
        rw [new.2] at serves
        cases serves
      | inr old =>
        cases lookup_insert_some s.requests id second _ q two with
        | inl new =>
          rw [new.2] at also
          cases also
        | inr both => exact sound.single first second p q b c x old.2 both.2 serves also tail too
  | tick id =>
    simp only [move] at moves
    split at moves
    next =>
      split_ifs at moves
      cases moves
      have change : RunsChange key object s'.spans s.runs s'.runs := runs ▸ .refl _ _
      exact sound_of_carried s s' party carried change (fun other q version present tag =>
        later change others other q version (requests ▸ present) tag (by intro _ it; cases it)) (requests ▸ sound.single)
    next => cases moves
  | chain id label =>
    simp only [move] at moves
    split at moves
    next c found =>
      obtain ⟨turn, turns, made⟩ := Option.map_eq_some_iff.mp moves
      cases made
      change s'.runs = turn.runs at runs
      have change : RunsChange key object s'.spans s.runs s'.runs := by
        rw [runs]
        cases asks : turn.inner with
        | none =>
          rw [runs_chainMove s c label turn turns asks]
          exact .refl _ _
        | some inner =>
          obtain ⟨x, run, span, present, it, free, seed, table⟩ := inner_chainMove s c label turn inner turns asks
          rw [asks, it] at follows
          rw [table]
          exact runsChange_spawn s s'.spans party x ⟨span, run.etag, run.total, seed, false, false⟩ carried
            (not_escape_of_unused s x free).1 rfl follows
      exact sound_of_carried s s' party carried change (fun other q version present tag =>
        later change others other q version (requests ▸ present) tag (by intro _ it; cases it)) (requests ▸ sound.single)
    next => cases moves
  | finishRun id =>
    simp only [move] at moves
    split at moves
    next run found =>
      split_ifs at moves
      cases moves
      have change : RunsChange key object s'.spans s.runs s'.runs := by
        rw [runs]
        exact .update id run _ found ⟨rfl, rfl, by simp, fun _ good =>
          ⟨good.etag, good.part, good.segment, good.range⟩⟩
      exact sound_of_carried s s' party carried change (fun other q version present tag =>
        later change others other q version (requests ▸ present) tag (by intro _ it; cases it)) (requests ▸ sound.single)
    next => cases moves
  | span label =>
    simp only [move] at moves
    split_ifs at moves
    cases moves
    have change : RunsChange key object s'.spans s.runs s'.runs := by
      rw [runs]
      exact runsChange_seal s s'.spans label sound follows
    exact sound_of_carried s s' party carried change (fun other q version present tag =>
      later change others other q version (requests ▸ present) tag (by intro _ it; cases it)) (requests ▸ sound.single)

theorem sound_step (s s' : System) (label : Label) (sound : Sound key object s)
    (keeps : keepsVersions key object config s label = true) (steps : step key config s label = some s') :
    Sound key object s' := by
  obtain ⟨inner, next, moves, after⟩ := step_some s s' label steps
  cases inner with
  | none =>
    rw [after] at *
    exact sound_move s next next label none sound keeps moves (spans_move s next label none moves) rfl rfl
  | some inner =>
    obtain ⟨spans, follows, made⟩ := after
    rw [made]
    exact sound_move s _ next label (some inner) sound keeps moves follows rfl rfl

/-- In every run in which what lands, is attached to and is planned over is of the
response's version, each response has yielded bytes of the version in its headers. -/
theorem responses_oneVersion (key : Text) (object : Text → Bytes) (config : Config) (s : System)
    (reached : Reaches (machine key config) (fun s label => keepsVersions key object config s label = true) s) :
    OneVersion object s := by
  have sound : Sound key object s := by
    apply reached.invariant (Sound key object)
    · intro state begins
      rw [show state = empty from begins]
      exact ⟨owned_empty, versioned_empty, fun _ _ _ found => absurd found (by simp [empty]),
        fun _ _ _ found => absurd found (by simp [empty]), fun _ _ _ found => absurd found (by simp [empty]),
        fun _ _ _ _ _ _ _ found => absurd found (by simp [empty])⟩
    · intro state label after held keeps steps
      exact sound_step state after label held keeps steps
  intro id r b version found etag serves
  have good := sound.requests id r version found etag
  unfold RequestSound at good
  rw [serves] at good
  exact good.1

end

/-! An object of four bytes that changes from one version to the next. -/

def first : Text := ['1']
def second : Text := ['2']
def versions (version : Text) : Bytes := if version = first then [1, 1, 1, 1] else [2, 2, 2, 2]

def wholeObject : Span := SingleWriter.firstFour
def small : Config := ⟨4, 1⟩

def yieldedBy (s : System) (id : Nat) : Option Bytes :=
  (s.requests.lookup id).bind fun r =>
    match r.stage with
    | .serving b => some b.yielded
    | _ => none

/-- A request that starts a run and waits for its bytes. -/
def served (id run : Nat) (version : Text) (reset : List RequestLabel) : List Label :=
  [.stat id (some version) 4 wholeObject, .request id (.gate false)] ++ reset.map (Label.request id) ++
  [.request id .plan, .request id (.permit true), .request id .cover, .request id .reserve,
    .request id (.spawn run true), .span (.transfer run .create)]

/-- The first version is served, sealed and recorded; the second resets it. -/
def oneAfterAnother : List Label :=
  served 1 7 first [] ++
  [.span (.transfer 7 (.write [1, 1, 1, 1])), .request 1 (.body (.openTail false)),
    .request 1 (.body (.readTail 4)), .request 1 (.body .finish), .span (.transfer 7 .exhaust),
    .span (.transfer 7 (.rename true)), .span (.claim (.transfer 7) .size), .span (.claim (.transfer 7) .view),
    .span (.claim (.transfer 7) .measure), .span (.claim (.transfer 7) (.record 4 0 7)), .finishRun 7] ++
  served 2 8 second [.list, .unlink, .unlink] ++
  [.span (.transfer 8 (.write [2, 2])), .request 2 (.body (.openTail false)), .request 2 (.body (.readTail 2))]

theorem oneAfterAnother_oneVersion :
    ∃ s, Reaches (machine ['k'] small) (fun s label => keepsVersions ['k'] versions small s label = true) s ∧
      yieldedBy s 1 = some [1, 1, 1, 1] ∧ yieldedBy s 2 = some [2, 2] ∧ OneVersion versions s := by
  obtain ⟨s, reached, test⟩ := exists_reached (machine ['k'] small)
    (fun s label => keepsVersions ['k'] versions small s label = true) oneAfterAnother rfl
    (fun s => yieldedBy s 1 = some [1, 1, 1, 1] && yieldedBy s 2 = some [2, 2]) (by decide +kernel)
  simp only [Bool.and_eq_true, decide_eq_true_eq] at test
  exact ⟨s, reached, test.1, test.2, responses_oneVersion ['k'] versions small s reached⟩

/-- The object changes while the first version's run is live, and no row names a
version yet. -/
def attachedToOld : List Label :=
  served 1 7 first [] ++
  [.span (.transfer 7 (.write [1, 1])), .stat 2 (some second) 4 wholeObject, .request 2 (.gate false),
    .request 2 .plan, .request 2 (.permit true), .request 2 .cover, .request 2 (.body (.openTail false)),
    .request 2 (.body (.readTail 2))]

theorem attachedToOld_mixes :
    ∃ s, Reaches (machine ['k'] small) (fun s label => delivers ['k'] versions small s label = true) s ∧
      (s.requests.lookup 2).bind Request.etag = some second ∧ yieldedBy s 2 = some [1, 1] ∧
      ¬ OneVersion versions s := by
  obtain ⟨s, reached, test⟩ := exists_reached (machine ['k'] small)
    (fun s label => delivers ['k'] versions small s label = true) attachedToOld rfl
    (fun s => (s.requests.lookup 2).bind Request.etag = some second && yieldedBy s 2 = some [1, 1])
    (by decide +kernel)
  simp only [Bool.and_eq_true, decide_eq_true_eq] at test
  refine ⟨s, reached, test.1, test.2, fun one => ?_⟩
  obtain ⟨r, found, etag⟩ := Option.bind_eq_some_iff.mp test.1
  have yields := test.2
  simp only [yieldedBy, found, Option.bind_some] at yields
  split at yields
  next b serves =>
    have bytes := one 2 r b second found etag serves
    rw [Option.some.inj yields] at bytes
    have member : (1 : UInt8) ∈ slice (versions second) r.range.start ([1, 1] : Bytes).length :=
      bytes ▸ List.mem_cons_self
    exact absurd (List.mem_of_mem_drop (List.mem_of_mem_take member)) (by decide)
  next => cases yields

end OriginCache.Cache.Versions
