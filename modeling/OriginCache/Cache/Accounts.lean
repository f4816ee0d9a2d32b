import OriginCache.Cache.AgeSweep
import OriginCache.Cache.Evictions

/-! The account of staged bytes against the disk. A seal renames its file before it claims
it, and a deletion measures, removes and only then gives up what it measured; each of these
is a step of its own, and any number of them are under way at once. -/

namespace OriginCache.Cache.Accounts
open Foundation.Tables Foundation.Runs SegName Coverage Store Staging Ledger Evictions SegmentFiles
open Rows (Staged fileStart held held_iff fileStart_segPath)
open AgeSweep (touch)

/-- What a writer hands over with its file; the window is that of its upstream. -/
structure FinalizedSpan where
  key : Text
  etag : Option Text
  total : Nat
  start : Nat
  stop : Nat
  window : Nat
  now : Nat
deriving DecidableEq, Repr

/-- What a deletion does once its files are gone. -/
inductive Next
  | reseal (span : FinalizedSpan) (size : Nat)
  | forget (key : Text)
  | readopt (key : Text) (now : Nat)
deriving DecidableEq, Repr

def Next.key : Next → Text
  | .reseal span _ => span.key
  | .forget key => key
  | .readopt key _ => key

/-- What is under way between two of its steps. A span carries the size of the file that
was renamed for it. -/
inductive Task
  | landed (span : FinalizedSpan) (size : Nat)
  | drifted (span : FinalizedSpan) (size : Nat)
  | removing (todo : List Text) (measured : Option Nat) (freed : Nat) (next : Next)
  | forgetting (key : Text) (freed : Nat) (next : Option (FinalizedSpan × Nat))
  | readopting (key : Text) (freed : Nat) (survivors : List (Nat × Nat)) (now : Nat)
  | emptying (key : Text)
  | claiming (span : FinalizedSpan) (size : Nat)
  | sealing (span : FinalizedSpan) (size reached len : Nat)
  | marking (key : Text)
  | adopting (key : Text) (start stop now : Nat) (size : Option Nat)
  | recording (key : Text) (start stop now reached len : Nat) (size : Option Nat)
  | rebuilding (files : List SegmentFile) (now : Nat)
deriving DecidableEq

inductive Move
  | rename (span : FinalizedSpan) (data : Bytes)
  | view
  | list
  | reset (key : Text)
  | expire (key : Text)
  | dropSpans (key : Text) (picks : List (Nat × Nat)) (now : Nat)
  | measure
  | remove (gone : Bool)
  | close
  | forget
  | readopt
  | dropRow
  | stat
  | seal
  | mark (data : Option Bytes)
  | place (key : Text) (start stop now : Nat) (data : Bytes)
  | adopt (key : Text) (start stop now : Nat)
  | statAdopt
  | record
  | scan (now : Nat)
  | rebuild
  | served (key : Text) (start stop : Nat)
  | touched (key : Text) (time : Nat)
  | decayed (key : Text) (now window : Nat)
  | setVersion (key : Text) (etag : Option Text) (total : Nat)

def FinalizedSpan.path (span : FinalizedSpan) : Text := segPath span.key span.start span.stop

/-- Both versions are known and they differ. -/
def versionChanged (ledger : Inner) (span : FinalizedSpan) : Bool :=
  (knownEtag ledger span.key).any fun known => span.etag.any fun etag => known ≠ etag

def setVersion (ledger : Inner) (key : Text) (etag : Option Text) (total : Nat) : Inner :=
  { ledger with map := ledger.map.insert key ((rowOf ledger key).setVersion etag total) }

/-- Offsets are words. -/
def words (start stop : Nat) : Prop := start < 2 ^ 64 ∧ stop < 2 ^ 64

instance (start stop : Nat) : Decidable (words start stop) := inferInstanceAs (Decidable (_ ∧ _))

section Steps
variable (decodeMeta : Bytes → Option SegMeta)

/-- The first steps, of a task that has not begun. -/
def taskStart (s : Staged) : Move → Option (Staged × Option Task)
  | .rename span data =>
      if words span.start span.stop then
        some ({ s with dir := s.dir.insert span.path data }, some (.landed span data.length))
      else none
  | .reset key => some (s, some (.removing (keySegmentFiles s.dir key) none 0 (.forget key)))
  | .expire key => some (s, some (.removing (((segmentIndex s.dir).lookup key).getD []) none 0 (.forget key)))
  | .dropSpans key picks now =>
      if ∀ pick ∈ picks, words pick.1 pick.2 then
        some (s, some (.removing (picks.map fun pick => segPath key pick.1 pick.2) none 0 (.readopt key now)))
      else none
  | .place key start stop now data =>
      if words start stop then
        some ({ s with dir := s.dir.insert (segPath key start stop) data }, some (.adopting key start stop now (some data.length)))
      else none
  | .adopt key start stop now => if words start stop then some (s, some (.adopting key start stop now none)) else none
  | .scan now => some ({ s with dir := sweepOrphans s.dir }, some (.rebuilding (scanSegmentFiles decodeMeta s.dir).1 now))
  | _ => none

/-- The next step of a task; a task that has ended is `none`. -/
def taskGo (s : Staged) : Task → Move → Option (Staged × Option Task)
  | .landed span size, .view =>
      some (s, some (if versionChanged s.ledger span then .drifted span size else .claiming span size))
  | .drifted span size, .list =>
      some (s, some (.removing ((keySegmentFiles s.dir span.key).filter (· ≠ span.path)) none 0 (.reseal span size)))
  | .removing (name :: rest) none freed next, .measure =>
      some (s, some (.removing (name :: rest) (some (fileLen s.dir name)) freed next))
  | .removing (name :: rest) (some len) freed next, .remove gone =>
      some ({ s with dir := if gone then s.dir.erase name else s.dir }, some (.removing rest none (freed + len) next))
  | .removing [] _ freed (.reseal span size), .close =>
      some ({ s with dir := s.dir.erase (segmetaPath span.key) }, some (.forgetting span.key freed (some (span, size))))
  | .removing [] _ freed (.forget key), .close =>
      some ({ s with dir := s.dir.erase (segmetaPath key) }, some (.forgetting key freed none))
  | .removing [] _ freed (.readopt key now), .close => some (s, some (.readopting key freed (survivorsOf s.dir key) now))
  | .forgetting key freed next, .forget =>
      some ({ s with ledger := forget s.ledger key freed }, next.map fun own => .claiming own.1 own.2)
  | .readopting key freed survivors now, .readopt =>
      some ({ s with ledger := reAdopt s.ledger key freed survivors now }, if freed = 0 then none else some (.emptying key))
  | .emptying key, .dropRow =>
      let dropped := dropRowIfEmpty s.ledger key
      some (⟨if dropped.2 then s.dir.erase (segmetaPath key) else s.dir, dropped.1⟩, none)
  | .claiming span size, .stat =>
      some (s, some (match measureSeal s.dir span.key span.start span.stop with
        | some (reached, len) => .sealing span size reached len
        | none => .marking span.key))
  | .sealing span _ reached len, .seal =>
      some ({ s with ledger := recordSeal s.ledger span.key span.start reached len span.etag span.total span.window span.now },
        some (.marking span.key))
  | .marking key, .mark data =>
      some ({ s with dir := (data.map fun bytes => s.dir.insert (segmetaPath key) bytes).getD s.dir }, none)
  | .adopting key start stop now size, .statAdopt =>
      some (s, (measureAdopt s.dir key start stop).map fun found => .recording key start stop now found.1 found.2 size)
  | .recording key start _ now reached len _, .record =>
      some ({ s with ledger := recordAdopt s.ledger key start reached len now }, none)
  | .rebuilding files now, .rebuild => some ({ s with ledger := recordAll files now }, none)
  | _, _ => none

/-- What the ledger does at once, whoever asks. -/
def ledgerMove (ledger : Inner) : Move → Option Inner
  | .served key start stop => some (Ledger.served ledger key start stop)
  | .touched key time => some (touch ledger key time)
  | .decayed key now window => some (decayedCoverage ledger key now window).1
  | .setVersion key etag total => some (setVersion ledger key etag total)
  | _ => none

def taskStep (s : Staged) (own : Option Task) (move : Move) : Option (Staged × Option Task) :=
  match ledgerMove s.ledger move with
  | some ledger => some ({ s with ledger := ledger }, own)
  | none =>
    match own with
    | some task => taskGo s task move
    | none => taskStart decodeMeta s move

end Steps

structure System where
  staged : Staged
  tasks : Table Nat Task

structure Label where
  task : Nat
  move : Move

def step (decodeMeta : Bytes → Option SegMeta) (s : System) (label : Label) : Option System :=
  (taskStep decodeMeta s.staged (s.tasks.lookup label.task) label.move).map fun done =>
    ⟨done.1, replace s.tasks label.task done.2⟩

/-! What agreement asks. -/

/-- The account is what the files weigh; a file that holds something is of a key with a
row; an interval has a byte in some file. -/
structure Agrees (s : Staged) : Prop where
  total : s.ledger.totalStaged = segmentBytes s.dir
  rows : ∀ name, isSegment name = true → 0 < fileLen s.dir name → ∃ key ∈ s.ledger.map, (fileStart key name).isSome = true
  intervals : ∀ key row, s.ledger.map.lookup key = some row → ∀ i ∈ row.intervals,
    ∃ position, i.start ≤ position ∧ position < i.stop ∧ held s.dir key position = true

def machine (decodeMeta : Bytes → Option SegMeta) : Machine System Label :=
  ⟨fun s => s.tasks = ∅ ∧ Agrees s.staged, step decodeMeta⟩

/-! What the tasks still owe. -/

/-- A file that came into place and is not in the account yet. -/
structure Unclaimed where
  key : Text
  start : Nat
  stop : Nat
  size : Nat
deriving DecidableEq, Repr

def Unclaimed.path (file : Unclaimed) : Text := segPath file.key file.start file.stop

def FinalizedSpan.unclaimed (span : FinalizedSpan) (size : Nat) : Unclaimed := ⟨span.key, span.start, span.stop, size⟩

def Next.file : Next → Option Unclaimed
  | .reseal span size => some (span.unclaimed size)
  | _ => none

def Task.file : Task → Option Unclaimed
  | .landed span size => some (span.unclaimed size)
  | .drifted span size => some (span.unclaimed size)
  | .removing _ _ _ next => next.file
  | .forgetting _ _ next => next.map fun own => own.1.unclaimed own.2
  | .claiming span size => some (span.unclaimed size)
  | .sealing span size _ _ => some (span.unclaimed size)
  | .adopting key start stop _ size => size.map (⟨key, start, stop, ·⟩)
  | .recording key start stop _ _ _ size => size.map (⟨key, start, stop, ·⟩)
  | _ => none

/-- The bytes that came and are not counted yet. -/
def Task.owed (task : Task) : Nat := (task.file.map Unclaimed.size).getD 0

/-- The bytes that left and are still counted. -/
def Task.freed : Task → Nat
  | .removing _ _ freed _ => freed
  | .forgetting _ freed _ => freed
  | .readopting _ freed _ _ => freed
  | _ => 0

def Task.claims (name : Text) (task : Task) : Bool := task.file.any fun file => file.path = name

/-- The row of the key is still to be dropped or rebuilt. -/
def Task.mends (key : Text) : Task → Bool
  | .removing _ _ _ next => next.key = key
  | .forgetting own _ _ => own = key
  | .readopting own _ _ _ => own = key
  | _ => false

def owed (others : Table Nat Task) (own : Option Task) : Nat :=
  (own.map Task.owed).getD 0 + weigh (fun _ task => task.owed) others

def freed (others : Table Nat Task) (own : Option Task) : Nat :=
  (own.map Task.freed).getD 0 + weigh (fun _ task => task.freed) others

def claimed (others : Table Nat Task) (own : Option Task) (name : Text) : Bool :=
  own.any (Task.claims name) || someEntry others fun _ task => task.claims name

def mended (others : Table Nat Task) (own : Option Task) (key : Text) : Bool :=
  own.any (Task.mends key) || someEntry others fun _ task => task.mends key

/-- Some file of the key has a byte of the interval. -/
def backed (dir : Dir) (key : Text) (start stop : Nat) : Bool :=
  someEntry dir fun name bytes => (fileStart key name).any fun first => max start first < min stop (first + bytes.length)

/-! Orderly steps. -/

/-- Every file of the key that holds something is still to be claimed. -/
def leaves (dir : Dir) (others : Table Nat Task) (own : Option Task) (key : Text) : Bool :=
  every dir fun name bytes => bytes = [] || (fileStart key name).isNone || claimed others own name

/-- A file replaces none that holds something or is still to be claimed. -/
def lands (dir : Dir) (others : Table Nat Task) (name : Text) (start stop : Nat) (data : Bytes) : Bool :=
  fileLen dir name = 0 && !claimed others none name && (data = [] || start < stop)

/-- What leaves the disk is what was measured, is not still to be claimed and is a file of no
other key with a row. -/
def removes (s : Staged) (others : Table Nat Task) (own : Option Task) (key name : Text) (len : Nat) (gone : Bool) : Bool :=
  len = (if gone then fileLen s.dir name else 0) &&
    (len = 0 || !claimed others own name && every s.ledger.map fun other _ => other = key || (fileStart other name).isNone)

def orderly (decodeMeta : Bytes → Option SegMeta) (s : Staged) (others : Table Nat Task) (own : Option Task) : Move → Bool
  | .rename span data => lands s.dir others span.path span.start span.stop data
  | .place key start stop _ data => lands s.dir others (segPath key start stop) start stop data
  | .remove gone =>
      match own with
      | some (.removing (name :: _) (some len) _ next) => removes s others own next.key name len gone
      | _ => true
  | .forget =>
      match own with
      | some (.forgetting key _ _) => leaves s.dir others own key
      | _ => true
  | .readopt =>
      match own with
      | some (.readopting key _ survivors _) => key ∉ s.ledger.map || survivors.all fun file => backed s.dir key file.1 file.2
      | _ => true
  | .dropRow =>
      match own with
      | some (.emptying key) => !(dropRowIfEmpty s.ledger key).2 || leaves s.dir others own key
      | _ => true
  | .seal =>
      match own with
      | some (.sealing _ _ _ len) => s.ledger.totalStaged + len < 2 ^ 64
      | _ => true
  | .record =>
      match own with
      | some (.recording key start _ _ reached len size) =>
          s.ledger.totalStaged + len < 2 ^ 64 && (len = size.getD 0 && backed s.dir key start reached)
      | _ => true
  | .rebuild =>
      match own with
      | some (.rebuilding files _) =>
          others.keys = [] && (files = (scanSegmentFiles decodeMeta s.dir).1 && segmentBytes s.dir < 2 ^ 64)
      | _ => true
  | _ => true

def allowed (decodeMeta : Bytes → Option SegMeta) (s : System) (label : Label) : Prop :=
  orderly decodeMeta s.staged (s.tasks.erase label.task) (s.tasks.lookup label.task) label.move = true

instance (decodeMeta : Bytes → Option SegMeta) (s : System) (label : Label) : Decidable (allowed decodeMeta s label) :=
  inferInstanceAs (Decidable (orderly decodeMeta s.staged (s.tasks.erase label.task) (s.tasks.lookup label.task) label.move = true))

end OriginCache.Cache.Accounts
