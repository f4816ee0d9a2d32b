import OriginCache.Cache.Coverage
import OriginCache.Cache.Store

/-! The staged state: one row of intervals for each key, and the account of staged
bytes. Each operation is split where the source measures the disk before it takes
the lock, so that other work can come in between. -/

namespace OriginCache.Cache.Ledger
open Foundation.Tables SegName Coverage Store

structure Row where
  etag : Option Text
  total : Nat
  intervals : List Interval
  lastTouch : Nat
deriving DecidableEq, Repr

/-- The row a key has before anything is known about it. -/
def Row.default : Row := ⟨none, 0, [], 0⟩

structure Inner where
  map : Table Text Row
  totalStaged : Nat
deriving DecidableEq

def Inner.new : Inner := ⟨∅, 0⟩

def saturatingAdd (a b : Nat) : Nat := min (2 ^ 64 - 1) (a + b)

def rowOf (inner : Inner) (key : Text) : Row := (inner.map.lookup key).getD Row.default

/-- An absent version leaves the one that is known. -/
def Row.setVersion (row : Row) (etag : Option Text) (total : Nat) : Row :=
  { row with etag := etag.or row.etag, total := if total = 0 then row.total else total }

def knownEtag (inner : Inner) (key : Text) : Option Text :=
  (inner.map.lookup key).bind Row.etag

/-- The end a claim may have and the file's length, from the file that landed. -/
def measureSeal (dir : Dir) (key : Text) (start stop : Nat) : Option (Nat × Nat) :=
  match dir.lookup (segPath key start stop) with
  | none => none
  | some bytes =>
      let reached := min stop (saturatingAdd start bytes.length)
      if reached ≤ start then none else some (reached, bytes.length)

/-- The locked part of a seal, with what was measured. -/
def recordSeal (inner : Inner) (key : Text) (start reached len : Nat) (etag : Option Text)
    (total window now : Nat) : Inner :=
  let row := (rowOf inner key).setVersion etag total
  let intervals := decay (addInterval row.intervals start reached now) now window
  ⟨inner.map.insert key { row with intervals := intervals, lastTouch := now },
    saturatingAdd inner.totalStaged len⟩

/-- `Ledger::seal`: whether the disk backed the span, and the state after. -/
def ledgerSeal (inner : Inner) (dir : Dir) (key : Text) (start stop : Nat) (etag : Option Text)
    (total window now : Nat) : Inner × Bool :=
  match measureSeal dir key start stop with
  | none => (inner, false)
  | some (reached, len) => (recordSeal inner key start reached len etag total window now, true)

def coversFrom (stop : Nat) : Nat → List (Nat × Nat × Text) → Bool
  | _, [] => false
  | reached, (s, e, _) :: rest =>
      if s ≤ reached ∧ reached < e then
        if stop ≤ e then true else coversFrom stop e rest
      else coversFrom stop reached rest

def diskCovers (dir : Dir) (key : Text) (start stop : Nat) : Bool :=
  coversFrom stop start (segmentsForKey dir key)

/-- The end and the bytes an adoption may record: those of the file of that name,
or no bytes for a span the key's files cover together. -/
def measureAdopt (dir : Dir) (key : Text) (start stop : Nat) : Option (Nat × Nat) :=
  match dir.lookup (segPath key start stop) with
  | some bytes =>
      let reached := min stop (saturatingAdd start bytes.length)
      if reached ≤ start then none else some (reached, bytes.length)
  | none =>
      if diskCovers dir key start stop then
        if stop ≤ start then none else some (stop, 0)
      else none

def recordAdopt (inner : Inner) (key : Text) (start reached len now : Nat) : Inner :=
  let row := rowOf inner key
  ⟨inner.map.insert key
      { row with intervals := addInterval row.intervals start reached now, lastTouch := now },
    saturatingAdd inner.totalStaged len⟩

def adopt (inner : Inner) (dir : Dir) (key : Text) (start stop now : Nat) : Inner × Bool :=
  match measureAdopt dir key start stop with
  | none => (inner, false)
  | some (reached, len) => (recordAdopt inner key start reached len now, true)

def adoptScanned (now : Nat) (inner : Inner) (file : SegmentFile) : Inner :=
  let row := rowOf inner file.key
  let stop := min file.stop (saturatingAdd file.start file.len)
  ⟨inner.map.insert file.key
      ⟨row.etag.or file.etag, if row.total = 0 then file.total else row.total,
        addInterval row.intervals file.start stop now, now⟩,
    saturatingAdd inner.totalStaged file.len⟩

/-- The locked part of the startup rebuild: the old rows and account go. -/
def recordAll (files : List SegmentFile) (now : Nat) : Inner :=
  files.foldl (adoptScanned now) Inner.new

def adoptAll (decodeMeta : Bytes → Option SegMeta) (dir : Dir) (now : Nat) : Inner :=
  recordAll (scanSegmentFiles decodeMeta dir).1 now

def forget (inner : Inner) (key : Text) (freed : Nat) : Inner :=
  ⟨inner.map.erase key, inner.totalStaged - freed⟩

/-- The locked part of `re_adopt`, with the survivors that were listed. -/
def reAdopt (inner : Inner) (key : Text) (freed : Nat) (survivors : List (Nat × Nat)) (now : Nat) :
    Inner :=
  match inner.map.lookup key with
  | some row =>
      ⟨inner.map.insert key { row with intervals := adoptFiles row.intervals survivors now },
        inner.totalStaged - freed⟩
  | none => ⟨inner.map, inner.totalStaged - freed⟩

def survivorsOf (dir : Dir) (key : Text) : List (Nat × Nat) :=
  (segmentsForKey dir key).map fun seg => (seg.1, seg.2.1)

def dropRowIfEmpty (inner : Inner) (key : Text) : Inner × Bool :=
  match inner.map.lookup key with
  | some row =>
      if row.intervals = [] then ({ inner with map := inner.map.erase key }, true) else (inner, false)
  | none => (inner, false)

/-- Bytes were served: every interval the read touched gains a count. -/
def credit (start stop : Nat) (i : Interval) : Interval :=
  if i.start < stop ∧ start < i.stop then { i with reads := saturatingAdd i.reads 1 } else i

def served (inner : Inner) (key : Text) (start stop : Nat) : Inner :=
  if stop ≤ start then inner
  else
    match inner.map.lookup key with
    | some row =>
        ⟨inner.map.insert key { row with intervals := row.intervals.map (credit start stop) },
          inner.totalStaged⟩
    | none => inner

/-- The row after the coverage window dropped what has gone cold, and the bytes it
still covers. -/
def decayedCoverage (inner : Inner) (key : Text) (now window : Nat) : Inner × Nat :=
  match inner.map.lookup key with
  | some row =>
      let kept := decay row.intervals now window
      (⟨inner.map.insert key { row with intervals := kept }, inner.totalStaged⟩, covered kept)
  | none => (inner, 0)

/-- The version gate reads the version of the latest seal that named one. -/
theorem knownEtag_recordSeal (inner : Inner) (key : Text) (start reached len : Nat)
    (etag : Option Text) (total window now : Nat) :
    knownEtag (recordSeal inner key start reached len etag total window now) key =
      etag.or (knownEtag inner key) := by
  rw [knownEtag, recordSeal, AList.lookup_insert]
  simp only [Option.bind_some, Row.setVersion, rowOf, knownEtag]
  cases inner.map.lookup key <;> cases etag <;> rfl

/-- After the rebuild the rows are the keys of the inventory. -/
theorem mem_recordAll (files : List SegmentFile) (now : Nat) (key : Text) :
    key ∈ (recordAll files now).map ↔ ∃ file ∈ files, file.key = key := by
  have step : ∀ (list : List SegmentFile) (inner : Inner),
      key ∈ (list.foldl (adoptScanned now) inner).map ↔
        key ∈ inner.map ∨ ∃ file ∈ list, file.key = key := by
    intro list
    induction list with
    | nil => simp
    | cons file list ih =>
      intro inner
      rw [List.foldl_cons, ih, adoptScanned, AList.mem_insert]
      simp only [List.mem_cons, exists_eq_or_imp, eq_comm (a := key)]
      tauto
  simpa [recordAll, Inner.new] using step files Inner.new

end OriginCache.Cache.Ledger
