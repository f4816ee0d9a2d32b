import OriginCache.Foundation.Files
import OriginCache.Foundation.Runs
import OriginCache.Cache.Ledger
import OriginCache.Cache.Ranged

/-! Who writes and seals the staged spans of one key: the driver of a run, the body
of a standalone escape, and the watcher that outlives the body. Each of them names
its part file by the range it was asked for, and renames it to a segment. -/

namespace OriginCache.Cache.Transfers
open Foundation.Files Foundation.Tables Foundation.Runs SegName Store Ledger
open Ranged (chunkSize)

/-- The range of one upstream open; offsets are `u64`. -/
structure Span where
  start : Nat
  stop : Nat
  proper : start < stop
  bound : stop < 2 ^ 64
deriving DecidableEq, Repr

def Span.len (span : Span) : Nat := span.stop - span.start

def partOf (key : Text) (span : Span) : Text := segpartPath key span.start span.stop

inductive Kind
  | run | escape
deriving DecidableEq, Repr

inductive Phase
  | pumping | renaming | discarding
deriving DecidableEq, Repr

/-- A transfer that has not given up its part file yet. `made` is the file it
created, open until the rename. -/
structure Transfer where
  kind : Kind
  etag : Option Text
  span : Span
  made : Option Nat
  written : Nat
  phase : Phase
deriving DecidableEq, Repr

inductive WatchPhase
  | polling
  | checking (size : Nat)
  | sealing (size : Nat)
  | discarding
deriving DecidableEq, Repr

structure Watcher where
  etag : Option Text
  span : Span
  last : Nat
  stable : Nat
  phase : WatchPhase
deriving DecidableEq, Repr

inductive ClaimPhase
  | sizing
  | viewing
  | listing
  | purging (doomed : List Text) (freed : Nat)
  | measuring
  | recording (reached len : Nat)
deriving DecidableEq, Repr

/-- A span on its way into the ledger: the end in the name its file was given, and
the end it claims. -/
structure Claim where
  etag : Option Text
  start : Nat
  named : Nat
  stop : Nat
  inBody : Bool
  phase : ClaimPhase
deriving DecidableEq, Repr

inductive Owner
  | transfer (id : Nat)
  | watcher (id : Nat)
deriving DecidableEq, Repr

/-- What a seal added to the row, beside the name of its file. -/
structure Added where
  start : Nat
  named : Nat
  reached : Nat
deriving DecidableEq, Repr

structure System where
  disk : Disk Text UInt8
  transfers : Table Nat Transfer
  watchers : Table Nat Watcher
  claims : Table Owner Claim
  ledger : Inner
  added : List Added

/-- The directory as a listing sees it. -/
def dirOf (disk : Disk Text UInt8) : Dir :=
  ⟨disk.nodes.entries.map fun entry => ⟨entry.1, disk.contents entry.2⟩, by
    have keys : (disk.nodes.entries.map fun entry => (⟨entry.1, disk.contents entry.2⟩ :
        Sigma fun _ : Text => Bytes)).keys = disk.nodes.entries.keys := by
      simp only [List.keys, List.map_map, Function.comp_def]
    exact (congrArg List.Nodup keys).mpr disk.nodes.nodupKeys⟩

inductive TransferLabel
  | create
  | write (data : Bytes)
  | exhaust
  | fail
  | rename (ok : Bool)
  | discard
  | drop
deriving DecidableEq, Repr

inductive WatchLabel
  | poll
  | check
  | rename (ok : Bool)
  | discard
  | giveUp
deriving DecidableEq, Repr

inductive ClaimLabel
  | size
  | view
  | list
  | purge
  | measure
  | record (total window now : Nat)
  | cancel
deriving DecidableEq, Repr

inductive Label
  | start (id : Nat) (kind : Kind) (etag : Option Text) (span : Span)
  | transfer (id : Nat) (label : TransferLabel)
  | watch (id : Nat) (label : WatchLabel)
  | claim (owner : Owner) (label : ClaimLabel)
  | remove (path : Text)
  | forget (freed : Nat)
  | reAdopt (freed : Nat) (survivors : List (Nat × Nat)) (now : Nat)
  | dropRow
deriving DecidableEq, Repr

section Steps
variable (key : Text)

/-- The run is capped inside its reads; the escape looks at its cap before a read. -/
def hasRoom (t : Transfer) (data : Bytes) : Bool :=
  match t.kind with
  | .run => data.length ≤ t.span.len - t.written
  | .escape => t.written < t.span.len && t.span.start + t.written + data.length < 2 ^ 64

/-- A call that can fail for reasons of its own. -/
def attempt {α : Type} (ok : Bool) (result : Option α) : Option α := if ok then result else none

/-- The end in the name a transfer gives its file. -/
def Transfer.sealStop (t : Transfer) : Nat :=
  match t.kind with
  | .run => t.span.stop
  | .escape => t.span.start + t.written

/-- What a run claims is measured after the rename, what an escape claims is what
it has written. -/
def Transfer.claim (t : Transfer) : Claim :=
  ⟨t.etag, t.span.start, t.sealStop, t.sealStop, t.kind = .escape,
    match t.kind with
    | .run => .sizing
    | .escape => .viewing⟩

/-- A step of a transfer: the disk, the transfer if it goes on, the claim it makes. -/
def transferStep (disk : Disk Text UInt8) (t : Transfer) :
    TransferLabel → Option (Disk Text UInt8 × Option Transfer × Option Claim)
  | .create =>
      if t.phase = .pumping ∧ t.made = none then
        some (disk.create (partOf key t.span),
          some { t with made := some (disk.nodeFor (partOf key t.span)) }, none)
      else none
  | .write data =>
      match t.made with
      | some inode =>
          if t.phase = .pumping ∧ data ≠ [] ∧ data.length ≤ chunkSize ∧ hasRoom t data then
            some (disk.write inode t.written data,
              some { t with written := t.written + data.length }, none)
          else none
      | none => none
  | .exhaust =>
      if t.phase = .pumping then
        match t.kind with
        | .run =>
            if t.made = none then none
            else if t.written < t.span.len then some (disk.unlink (partOf key t.span), none, none)
            else some (disk, some { t with phase := .renaming }, none)
        | .escape =>
            if t.written = 0 then some (disk, none, none)
            else some (disk, some { t with phase := .renaming }, none)
      else none
  | .fail =>
      match t.kind with
      | .run =>
          if t.phase = .discarding then none
          -- Nothing to clean up before the part file is there.
          else if t.made = none then some (disk, none, none)
          else some (disk.unlink (partOf key t.span), none, none)
      | .escape => if t.phase = .pumping then some (disk, none, none) else none
  | .rename ok =>
      if t.phase = .renaming then
        match attempt ok (disk.rename (partOf key t.span) (segPath key t.span.start t.sealStop)) with
        | some moved => some (moved, none, some t.claim)
        | none =>
            match t.kind with
            | .run => some (disk, none, none)
            | .escape => some (disk, some { t with phase := .discarding }, none)
      else none
  | .discard =>
      if t.phase = .discarding then some (disk.unlink (partOf key t.span), none, none) else none
  | .drop => if t.kind = .escape then some (disk, none, none) else none

/-- One wake-up: an empty or absent part counts for nothing. -/
def poll (disk : Disk Text UInt8) (w : Watcher) : Watcher :=
  let size := ((disk.read (partOf key w.span)).map List.length).getD 0
  if size = 0 then w
  else if size = w.last then
    if 3 ≤ w.stable + 1 then { w with stable := w.stable + 1, phase := .checking size }
    else { w with stable := w.stable + 1 }
  else { w with stable := 0, last := size }

def watchStep (disk : Disk Text UInt8) (w : Watcher) :
    WatchLabel → Option (Disk Text UInt8 × Option Watcher × Option Claim)
  | .poll => if w.phase = .polling then some (disk, some (poll key disk w), none) else none
  | .check =>
      match w.phase with
      | .checking size =>
          if segPath key w.span.start w.span.stop ∈ disk.nodes then some (disk, none, none)
          else some (disk, some { w with phase := .sealing size }, none)
      | _ => none
  | .rename ok =>
      match w.phase with
      | .sealing size =>
          match attempt ok (disk.rename (partOf key w.span) (segPath key w.span.start w.span.stop)) with
          | some moved =>
              some (moved, none,
                some ⟨w.etag, w.span.start, w.span.stop, w.span.start + size, false, .viewing⟩)
          | none => some (disk, some { w with phase := .discarding }, none)
      | _ => none
  | .discard =>
      if w.phase = .discarding then some (disk.unlink (partOf key w.span), none, none) else none
  | .giveUp => if w.phase = .polling then some (disk, none, none) else none

def versionChanged (known given : Option Text) : Bool :=
  match known, given with
  | some a, some b => a ≠ b
  | _, _ => false

/-- A step of a seal after its rename; `none` in the last but one place ends it. -/
def claimStep (disk : Disk Text UInt8) (ledger : Inner) (c : Claim) :
    ClaimLabel → Option (Disk Text UInt8 × Inner × Option Claim × List Added)
  | .size =>
      if c.phase = .sizing then
        let written := ((disk.read (segPath key c.start c.named)).map List.length).getD (c.named - c.start)
        some (disk, ledger, some { c with stop := c.start + written, phase := .viewing }, [])
      else none
  | .view =>
      if c.phase = .viewing then
        if versionChanged (knownEtag ledger key) c.etag then
          some (disk, ledger, some { c with phase := .listing }, [])
        else some (disk, ledger, some { c with phase := .measuring }, [])
      else none
  | .list =>
      if c.phase = .listing then
        let doomed := (keySegmentFiles (dirOf disk) key).filter fun name =>
          name ≠ segPath key c.start c.stop
        some (disk, ledger, some { c with phase := .purging doomed 0 }, [])
      else none
  | .purge =>
      match c.phase with
      | .purging (path :: rest) freed =>
          some (disk.unlink path, ledger,
            some { c with phase := .purging rest (freed + fileLen (dirOf disk) path) }, [])
      | .purging [] freed => some (disk, forget ledger key freed, some { c with phase := .measuring }, [])
      | _ => none
  | .measure =>
      if c.phase = .measuring then
        match measureSeal (dirOf disk) key c.start c.stop with
        | some (reached, len) => some (disk, ledger, some { c with phase := .recording reached len }, [])
        | none => some (disk, ledger, none, [])
      else none
  | .record total window now =>
      match c.phase with
      | .recording reached len =>
          some (disk, recordSeal ledger key c.start reached len c.etag total window now, none,
            [⟨c.start, c.named, reached⟩])
      | _ => none
  | .cancel => if c.inBody then some (disk, ledger, none, []) else none

def withClaim (claims : Table Owner Claim) (owner : Owner) : Option Claim → Table Owner Claim
  | some c => claims.insert owner c
  | none => claims

def step (s : System) : Label → Option System
  | .start id kind etag span =>
      if id ∈ s.transfers ∨ id ∈ s.watchers ∨ .transfer id ∈ s.claims ∨ .watcher id ∈ s.claims then none
      else
        some { s with
          transfers := s.transfers.insert id ⟨kind, etag, span, none, 0, .pumping⟩
          watchers :=
            match kind with
            | .run => s.watchers
            | .escape => s.watchers.insert id ⟨etag, span, 0, 0, .polling⟩ }
  | .transfer id label =>
      match s.transfers.lookup id with
      | some t =>
          (transferStep key s.disk t label).map fun (disk, next, claim) =>
            { s with
              disk := disk
              transfers := replace s.transfers id next
              claims := withClaim s.claims (.transfer id) claim }
      | none => none
  | .watch id label =>
      match s.watchers.lookup id with
      | some w =>
          (watchStep key s.disk w label).map fun (disk, next, claim) =>
            { s with
              disk := disk
              watchers := replace s.watchers id next
              claims := withClaim s.claims (.watcher id) claim }
      | none => none
  | .claim owner label =>
      match s.claims.lookup owner with
      | some c =>
          (claimStep key s.disk s.ledger c label).map fun (disk, ledger, next, added) =>
            { s with
              disk := disk
              ledger := ledger
              claims := replace s.claims owner next
              added := s.added ++ added }
      | none => none
  -- An eviction, a reset, or the sweep of old parts.
  | .remove path => some { s with disk := s.disk.unlink path }
  | .forget freed => some { s with ledger := forget s.ledger key freed }
  | .reAdopt freed survivors now => some { s with ledger := reAdopt s.ledger key freed survivors now }
  | .dropRow => some { s with ledger := (dropRowIfEmpty s.ledger key).1 }

def empty : System := ⟨Disk.empty, ∅, ∅, ∅, Inner.new, []⟩

def machine : Machine System Label := ⟨fun s => s = empty, step key⟩

end Steps

/-! What a step does to the disk and the transfers on it. -/

abbrev Writers := Table Nat Transfer

inductive Effect (key : Text) (watchers : Table Nat Watcher) (label : Label) (disk : Disk Text UInt8)
    (transfers : Writers) : Disk Text UInt8 → Writers → Prop
  | started (id : Nat) (kind : Kind) (etag : Option Text) (span : Span) :
      label = .start id kind etag span → id ∉ transfers →
      Effect key watchers label disk transfers disk (transfers.insert id ⟨kind, etag, span, none, 0, .pumping⟩)
  | created (id : Nat) (t : Transfer) : transfers.lookup id = some t → t.made = none →
      t.phase = .pumping →
      Effect key watchers label disk transfers (disk.create (partOf key t.span))
        (transfers.insert id { t with made := some (disk.nodeFor (partOf key t.span)) })
  | wrote (id : Nat) (t : Transfer) (inode : Nat) (data : Bytes) :
      label = .transfer id (.write data) → transfers.lookup id = some t →
      t.made = some inode → t.phase = .pumping → data ≠ [] → hasRoom t data = true →
      Effect key watchers label disk transfers (disk.write inode t.written data)
        (transfers.insert id { t with written := t.written + data.length })
  | moved (id : Nat) (t : Transfer) (phase : Phase) : transfers.lookup id = some t →
      t.phase ≠ .discarding → phase ≠ .pumping →
      (t.kind = .run → phase = .renaming ∧ t.made ≠ none ∧ t.span.len ≤ t.written) →
      (t.kind = .escape → 0 < t.written ∨ t.phase = .renaming) →
      Effect key watchers label disk transfers disk (transfers.insert id { t with phase := phase })
  | ended (id : Nat) : Effect key watchers label disk transfers disk (transfers.erase id)
  | failed (id : Nat) (path : Text) : Effect key watchers label disk transfers (disk.unlink path) (transfers.erase id)
  | removed (path : Text) : Effect key watchers label disk transfers (disk.unlink path) transfers
  | sealed (id : Nat) (ok : Bool) (t : Transfer) (moved : Disk Text UInt8) :
      label = .transfer id (.rename ok) → transfers.lookup id = some t → t.phase = .renaming →
      disk.rename (partOf key t.span) (segPath key t.span.start t.sealStop) = some moved →
      Effect key watchers label disk transfers moved (transfers.erase id)
  | seized (id : Nat) (ok : Bool) (w : Watcher) (size : Nat) (moved : Disk Text UInt8) :
      label = .watch id (.rename ok) → watchers.lookup id = some w → w.phase = .sealing size →
      disk.rename (partOf key w.span) (segPath key w.span.start w.span.stop) = some moved →
      Effect key watchers label disk transfers moved transfers
  | quiet : Effect key watchers label disk transfers disk transfers

section Effects
variable (key : Text)

theorem attempt_some {α : Type} {ok : Bool} {result : Option α} {value : α}
    (succeeds : attempt ok result = some value) : result = some value := by
  cases ok with
  | true => exact succeeds
  | false => cases succeeds

theorem hasRoom_run (t : Transfer) (data : Bytes) (run : t.kind = .run) :
    hasRoom t data = true ↔ data.length ≤ t.span.len - t.written := by
  unfold hasRoom
  rw [run]
  exact decide_eq_true_iff

theorem hasRoom_escape (t : Transfer) (data : Bytes) (escape : t.kind = .escape) :
    hasRoom t data = true ↔
      t.written < t.span.len ∧ t.span.start + t.written + data.length < 2 ^ 64 := by
  unfold hasRoom
  rw [escape]
  simp only [Bool.and_eq_true, decide_eq_true_eq]

theorem effect_transferStep (watchers : Table Nat Watcher) (disk after : Disk Text UInt8) (transfers : Writers) (id : Nat) (t : Transfer)
    (next : Option Transfer) (claim : Option Claim) (move : TransferLabel)
    (found : transfers.lookup id = some t)
    (steps : transferStep key disk t move = some (after, next, claim)) :
    Effect key watchers (.transfer id move) disk transfers after (replace transfers id next) := by
  cases move with
  | create =>
    simp only [transferStep] at steps
    split_ifs at steps with fresh
    cases steps
    exact .created id t found fresh.2 fresh.1
  | write data =>
    simp only [transferStep] at steps
    split at steps
    next inode made =>
      split_ifs at steps with fits
      cases steps
      exact .wrote id t inode data rfl found made fits.1 fits.2.1 fits.2.2.2
    next => cases steps
  | exhaust =>
    by_cases pumps : t.phase = .pumping
    swap
    · rw [transferStep, if_neg pumps] at steps
      cases steps
    rw [transferStep, if_pos pumps] at steps
    split at steps
    next run =>
      split_ifs at steps with unmade short
      · cases steps
        exact .failed id _
      · cases steps
        refine .moved id t .renaming found (by rw [pumps]; decide) (by decide)
          (fun _ => ⟨rfl, unmade, by omega⟩) (fun escape => ?_)
        rw [run] at escape
        cases escape
    next escape =>
      split_ifs at steps with nothing
      · cases steps
        exact .ended id
      · cases steps
        refine .moved id t .renaming found (by rw [pumps]; decide) (by decide) (fun run => ?_)
          (fun _ => .inl (by omega))
        rw [escape] at run
        cases run
  | fail =>
    simp only [transferStep] at steps
    split at steps
    next =>
      split_ifs at steps
      · cases steps
        exact .ended id
      · cases steps
        exact .failed id _
    next =>
      split_ifs at steps
      cases steps
      exact .ended id
  | rename ok =>
    by_cases renames : t.phase = .renaming
    swap
    · rw [transferStep, if_neg renames] at steps
      cases steps
    rw [transferStep, if_pos renames] at steps
    split at steps
    next moved moves =>
      cases steps
      exact .sealed id ok t _ rfl found renames (attempt_some moves)
    next =>
      split at steps
      next =>
        cases steps
        exact .ended id
      next escape =>
        cases steps
        refine .moved id t .discarding found (by rw [renames]; decide) (by decide) (fun run => ?_)
          (fun _ => .inr renames)
        rw [escape] at run
        cases run
  | discard =>
    simp only [transferStep] at steps
    split_ifs at steps
    cases steps
    exact .failed id _
  | drop =>
    simp only [transferStep] at steps
    split_ifs at steps
    cases steps
    exact .ended id

theorem effect_watchStep (watchers : Table Nat Watcher) (disk after : Disk Text UInt8)
    (transfers : Writers) (id : Nat) (w : Watcher) (next : Option Watcher) (claim : Option Claim)
    (move : WatchLabel) (found : watchers.lookup id = some w)
    (steps : watchStep key disk w move = some (after, next, claim)) :
    Effect key watchers (.watch id move) disk transfers after transfers := by
  cases move with
  | poll =>
    simp only [watchStep] at steps
    split_ifs at steps
    cases steps
    exact .quiet
  | check =>
    simp only [watchStep] at steps
    split at steps
    next =>
      split_ifs at steps
      · cases steps
        exact .quiet
      · cases steps
        exact .quiet
    next => cases steps
  | rename ok =>
    simp only [watchStep] at steps
    split at steps
    next size seals =>
      split at steps
      next moved moves =>
        cases steps
        exact .seized id ok w size _ rfl found seals (attempt_some moves)
      next =>
        cases steps
        exact .quiet
    next => cases steps
  | discard =>
    simp only [watchStep] at steps
    split_ifs at steps
    cases steps
    exact .removed _
  | giveUp =>
    simp only [watchStep] at steps
    split_ifs at steps
    cases steps
    exact .quiet

theorem effect_claimStep (watchers : Table Nat Watcher) (disk after : Disk Text UInt8) (transfers : Writers) (ledger ledger' : Inner)
    (c : Claim) (next : Option Claim) (added : List Added) (move : ClaimLabel) (label : Label)
    (steps : claimStep key disk ledger c move = some (after, ledger', next, added)) :
    Effect key watchers label disk transfers after transfers := by
  cases move with
  | purge =>
    simp only [claimStep] at steps
    split at steps
    next =>
      cases steps
      exact .removed _
    next =>
      cases steps
      exact .quiet
    next => cases steps
  | size =>
    simp only [claimStep] at steps
    split_ifs at steps
    cases steps
    exact .quiet
  | view =>
    simp only [claimStep] at steps
    split_ifs at steps
    · cases steps
      exact .quiet
    · cases steps
      exact .quiet
  | list =>
    simp only [claimStep] at steps
    split_ifs at steps
    cases steps
    exact .quiet
  | measure =>
    simp only [claimStep] at steps
    split_ifs at steps
    split at steps
    next =>
      cases steps
      exact .quiet
    next =>
      cases steps
      exact .quiet
  | record total window now =>
    simp only [claimStep] at steps
    split at steps
    next =>
      cases steps
      exact .quiet
    next => cases steps
  | cancel =>
    simp only [claimStep] at steps
    split_ifs at steps
    cases steps
    exact .quiet

theorem effect_step (s s' : System) (label : Label) (steps : step key s label = some s') :
    Effect key s.watchers label s.disk s.transfers s'.disk s'.transfers := by
  cases label with
  | start id kind etag span =>
    simp only [step] at steps
    split_ifs at steps with taken
    cases steps
    exact .started id kind etag span rfl fun present => taken (.inl present)
  | transfer id move =>
    simp only [step] at steps
    split at steps
    next t found =>
      obtain ⟨⟨disk, next, claim⟩, moves, after⟩ := Option.map_eq_some_iff.mp steps
      rw [← after]
      exact effect_transferStep key s.watchers s.disk disk s.transfers id t next claim move found moves
    next => cases steps
  | watch id move =>
    simp only [step] at steps
    split at steps
    next w found =>
      obtain ⟨⟨disk, next, claim⟩, moves, after⟩ := Option.map_eq_some_iff.mp steps
      rw [← after]
      exact effect_watchStep key s.watchers s.disk disk s.transfers id w next claim move found moves
    next => cases steps
  | claim owner move =>
    simp only [step] at steps
    split at steps
    next c found =>
      obtain ⟨⟨disk, ledger, next, added⟩, moves, after⟩ := Option.map_eq_some_iff.mp steps
      rw [← after]
      exact effect_claimStep key s.watchers s.disk disk s.transfers s.ledger ledger c next added move _ moves
    next => cases steps
  | remove path =>
    cases steps
    exact .removed path
  | forget freed =>
    cases steps
    exact .quiet
  | reAdopt freed survivors now =>
    cases steps
    exact .quiet
  | dropRow =>
    cases steps
    exact .quiet

variable {key}

/-! A party keeps its range and its version. -/

theorem kept_transferStep (disk after : Disk Text UInt8) (t next : Transfer) (claim : Option Claim)
    (label : TransferLabel) (steps : transferStep key disk t label = some (after, some next, claim)) :
    next.span = t.span ∧ next.etag = t.etag ∧ next.kind = t.kind := by
  unfold transferStep at steps
  repeat' split at steps
  all_goals
    cases steps
    try exact ⟨rfl, rfl, rfl⟩

theorem kept_watchStep (disk after : Disk Text UInt8) (w next : Watcher) (claim : Option Claim)
    (label : WatchLabel) (steps : watchStep key disk w label = some (after, some next, claim)) :
    next.span = w.span ∧ next.etag = w.etag := by
  cases label with
  | poll =>
    simp only [watchStep] at steps
    split_ifs at steps
    cases steps
    simp only [poll]
    split_ifs <;> exact ⟨rfl, rfl⟩
  | check =>
    simp only [watchStep] at steps
    split at steps
    next =>
      split_ifs at steps <;> cases steps
      exact ⟨rfl, rfl⟩
    next => cases steps
  | rename ok =>
    simp only [watchStep] at steps
    split at steps
    next =>
      split at steps <;> cases steps
      exact ⟨rfl, rfl⟩
    next => cases steps
  | discard =>
    simp only [watchStep] at steps
    split_ifs at steps
    cases steps
  | giveUp =>
    simp only [watchStep] at steps
    split_ifs at steps
    cases steps

theorem transfers_step (s s' : System) (label : Label) (steps : step key s label = some s') (id : Nat)
    (t : Transfer) (found : s'.transfers.lookup id = some t) :
    (∃ old, s.transfers.lookup id = some old ∧ t.span = old.span ∧ t.etag = old.etag ∧ t.kind = old.kind) ∨
      label = .start id t.kind t.etag t.span := by
  cases label with
  | start new kind etag span =>
    simp only [step] at steps
    split_ifs at steps
    cases steps
    cases lookup_insert_some s.transfers new id _ t found with
    | inl started =>
      refine .inr ?_
      rw [started.1, started.2]
    | inr old => exact .inl ⟨t, old.2, rfl, rfl, rfl⟩
  | transfer party label =>
    simp only [step] at steps
    split at steps
    next u present =>
      obtain ⟨⟨disk, next, claim⟩, moves, after⟩ := Option.map_eq_some_iff.mp steps
      rw [← after] at found
      change (replace s.transfers party next).lookup id = some t at found
      by_cases same : id = party
      · rw [same, lookup_replace] at found
        rw [found] at moves
        rw [same]
        exact .inl ⟨u, present, kept_transferStep s.disk disk u t claim label moves⟩
      · rw [lookup_replace_ne s.transfers next same] at found
        exact .inl ⟨t, found, rfl, rfl, rfl⟩
    next => cases steps
  | watch party label =>
    simp only [step] at steps
    split at steps
    next =>
      obtain ⟨_, _, after⟩ := Option.map_eq_some_iff.mp steps
      rw [← after] at found
      exact .inl ⟨t, found, rfl, rfl, rfl⟩
    next => cases steps
  | claim owner label =>
    simp only [step] at steps
    split at steps
    next =>
      obtain ⟨_, _, after⟩ := Option.map_eq_some_iff.mp steps
      rw [← after] at found
      exact .inl ⟨t, found, rfl, rfl, rfl⟩
    next => cases steps
  | remove path | forget freed | reAdopt freed survivors now | dropRow =>
    cases steps
    exact .inl ⟨t, found, rfl, rfl, rfl⟩

theorem watchers_step (s s' : System) (label : Label) (steps : step key s label = some s') (id : Nat)
    (w : Watcher) (found : s'.watchers.lookup id = some w) :
    (∃ old, s.watchers.lookup id = some old ∧ w.span = old.span ∧ w.etag = old.etag) ∨
      label = .start id .escape w.etag w.span := by
  cases label with
  | start new kind etag span =>
    simp only [step] at steps
    split_ifs at steps
    cases steps
    cases kind with
    | run => exact .inl ⟨w, found, rfl, rfl⟩
    | escape =>
      cases lookup_insert_some s.watchers new id _ w found with
      | inl started =>
        refine .inr ?_
        rw [started.1, started.2]
      | inr old => exact .inl ⟨w, old.2, rfl, rfl⟩
  | watch party label =>
    simp only [step] at steps
    split at steps
    next v present =>
      obtain ⟨⟨disk, next, claim⟩, moves, after⟩ := Option.map_eq_some_iff.mp steps
      rw [← after] at found
      change (replace s.watchers party next).lookup id = some w at found
      by_cases same : id = party
      · rw [same, lookup_replace] at found
        rw [found] at moves
        rw [same]
        exact .inl ⟨v, present, kept_watchStep s.disk disk v w claim label moves⟩
      · rw [lookup_replace_ne s.watchers next same] at found
        exact .inl ⟨w, found, rfl, rfl⟩
    next => cases steps
  | transfer party label =>
    simp only [step] at steps
    split at steps
    next =>
      obtain ⟨_, _, after⟩ := Option.map_eq_some_iff.mp steps
      rw [← after] at found
      exact .inl ⟨w, found, rfl, rfl⟩
    next => cases steps
  | claim owner label =>
    simp only [step] at steps
    split at steps
    next =>
      obtain ⟨_, _, after⟩ := Option.map_eq_some_iff.mp steps
      rw [← after] at found
      exact .inl ⟨w, found, rfl, rfl⟩
    next => cases steps
  | remove path | forget freed | reAdopt freed survivors now | dropRow =>
    cases steps
    exact .inl ⟨w, found, rfl, rfl⟩

end Effects

end OriginCache.Cache.Transfers
