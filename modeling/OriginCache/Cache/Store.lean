import OriginCache.Foundation.Tables
import OriginCache.Cache.Key

/-! The flat top level of the cache directory: listing, deleting and reading back
the segment files. A directory maps file names to contents; its entry order is
the order a directory read happens to give. -/

namespace OriginCache.Cache.Store
open Foundation.Splits Foundation.Tables SegName

abbrev Bytes := List UInt8

abbrev Dir := Table Text Bytes

/-- `metadata(path).len()`, or nothing for a file that is not there. -/
def fileLen (dir : Dir) (name : Text) : Nat := ((dir.lookup name).map List.length).getD 0

structure SegMeta where
  etag : Option Text
  total : Nat
deriving DecidableEq, Repr

structure SegmentFile where
  key : Text
  start : Nat
  stop : Nat
  len : Nat
  etag : Option Text
  total : Nat
deriving DecidableEq, Repr

/-- The names that are asked for as "the files of `key`". -/
def ownedBy (key name : Text) : Bool :=
  (segPrefix ++ (escapeKey key ++ ['.'])).isPrefixOf name && (parseSegName name).isSome

def keySegmentFiles (dir : Dir) (key : Text) : List Text := dir.keys.filter (ownedBy key)

def pathOrder (a b : Nat × Nat × Text) : Prop :=
  a.1 < b.1 ∨ a.1 = b.1 ∧ (a.2.1 < b.2.1 ∨ a.2.1 = b.2.1 ∧ bytesOf a.2.2 ≤ bytesOf b.2.2)

instance : DecidableRel pathOrder := fun a b => inferInstanceAs (Decidable
  (a.1 < b.1 ∨ a.1 = b.1 ∧ (a.2.1 < b.2.1 ∨ a.2.1 = b.2.1 ∧ bytesOf a.2.2 ≤ bytesOf b.2.2)))

def spanOf (name : Text) : Option (Nat × Nat × Text) :=
  (parseSegName name).map fun parsed => (parsed.2.1, parsed.2.2, name)

def segmentsForKey (dir : Dir) (key : Text) : List (Nat × Nat × Text) :=
  ((keySegmentFiles dir key).filterMap spanOf).insertionSort pathOrder

/-- Delete the named files and measure what leaves the disk. -/
def removeMeasured (dir : Dir) : List Text → Dir × Nat
  | [] => (dir, 0)
  | name :: rest =>
      let later := removeMeasured (dir.erase name) rest
      (later.1, fileLen dir name + later.2)

def removeKeySegments (dir : Dir) (key : Text) (keep : Option Text) : Dir × Nat :=
  let removed := removeMeasured dir ((keySegmentFiles dir key).filter fun name => keep ≠ some name)
  (removed.1.erase (segmetaPath key), removed.2)

abbrev Index := Table Text (List Text)

def indexUnder (index : Index) (key name : Text) : Index :=
  index.insert key ((index.lookup key).getD [] ++ [name])

def segmentIndex (dir : Dir) : Index :=
  dir.keys.foldl (fun index name =>
    if segPrefix.isPrefixOf name then
      match parseSegName name with
      | some parsed => indexUnder index parsed.1 name
      | none => index
    else index) ∅

section Scan
variable (decodeMeta : Bytes → Option SegMeta)

/-- The version a key's marker claims; an absent or broken marker claims none. -/
def markerOf (dir : Dir) (key : Text) : SegMeta :=
  ((dir.lookup (segmetaPath key)).bind decodeMeta).getD ⟨none, 0⟩

/-- The in-flight parts and the segment names that cannot be read back. -/
def isOrphan (name : Text) : Bool :=
  segpartPrefix.isPrefixOf name || (segPrefix.isPrefixOf name && (parseSegName name).isNone)

def isSegment (name : Text) : Bool :=
  !segpartPrefix.isPrefixOf name && segPrefix.isPrefixOf name && (parseSegName name).isSome

def sweepOrphans (dir : Dir) : Dir := (removeMeasured dir (dir.keys.filter isOrphan)).1

def describe (dir : Dir) (name : Text) : Option SegmentFile :=
  (parseSegName name).map fun parsed =>
    ⟨parsed.1, parsed.2.1, parsed.2.2, fileLen dir name, (markerOf decodeMeta dir parsed.1).etag,
      (markerOf decodeMeta dir parsed.1).total⟩

/-- The inventory of the segments, and the directory without the orphans. -/
def scanSegmentFiles (dir : Dir) : List SegmentFile × Dir :=
  let swept := sweepOrphans dir
  ((dir.keys.filter isSegment).filterMap (describe decodeMeta swept), swept)

end Scan

/-! What a deletion pass leaves. -/

theorem lookup_removeMeasured (dir : Dir) (names : List Text) (name : Text) :
    (removeMeasured dir names).1.lookup name = if name ∈ names then none else dir.lookup name := by
  induction names generalizing dir with
  | nil => rfl
  | cons head names ih =>
    rw [removeMeasured, ih]
    by_cases same : name = head
    · subst same
      simp
    · simp [same, AList.lookup_erase_ne same]

theorem lookup_removeKeySegments (dir : Dir) (key : Text) (keep : Option Text) (name : Text)
    (segment : name ≠ segmetaPath key) :
    (removeKeySegments dir key keep).1.lookup name =
      if name ∈ keySegmentFiles dir key ∧ keep ≠ some name then none else dir.lookup name := by
  rw [removeKeySegments, AList.lookup_erase_ne segment, lookup_removeMeasured]
  simp only [List.mem_filter, ne_eq, decide_eq_true_eq]

theorem mem_keySegmentFiles (dir : Dir) (key name : Text) :
    name ∈ keySegmentFiles dir key ↔ name ∈ dir ∧ ownedBy key name = true := by
  rw [keySegmentFiles, List.mem_filter, AList.mem_keys]

theorem mem_segmentsForKey (dir : Dir) (key name : Text) (start stop : Nat) :
    (start, stop, name) ∈ segmentsForKey dir key ↔
      name ∈ keySegmentFiles dir key ∧ ∃ read, parseSegName name = some (read, start, stop) := by
  rw [segmentsForKey, List.mem_insertionSort, List.mem_filterMap]
  constructor
  · rintro ⟨other, listed, found⟩
    simp only [spanOf, Option.map_eq_some_iff, Prod.mk.injEq] at found
    obtain ⟨⟨read, s, e⟩, parsed, rfl, rfl, rfl⟩ := found
    exact ⟨listed, read, parsed⟩
  · rintro ⟨listed, read, parsed⟩
    exact ⟨name, listed, by rw [spanOf, parsed]; rfl⟩

/-- Indexing files one at a time: each key's files, in directory order. -/
theorem lookup_segmentIndex (dir : Dir) (key : Text) :
    ((segmentIndex dir).lookup key).getD [] =
      dir.keys.filter fun name => segPrefix.isPrefixOf name &&
        (parseSegName name).any fun parsed => parsed.1 = key := by
  have step : ∀ (names : List Text) (index : Index),
      ((names.foldl (fun index name =>
        if segPrefix.isPrefixOf name then
          match parseSegName name with
          | some parsed => indexUnder index parsed.1 name
          | none => index
        else index) index).lookup key).getD [] =
      (index.lookup key).getD [] ++ names.filter fun name => segPrefix.isPrefixOf name &&
        (parseSegName name).any fun parsed => parsed.1 = key := by
    intro names
    induction names with
    | nil => simp
    | cons name names ih =>
      intro index
      rw [List.foldl_cons, ih]
      by_cases marked : segPrefix.isPrefixOf name
      · cases parsed : parseSegName name with
        | none => simp [marked, parsed]
        | some found =>
          by_cases same : found.1 = key
          · subst same
            simp [marked, parsed, indexUnder]
          · have other : (indexUnder index found.1 name).lookup key = index.lookup key :=
              AList.lookup_insert_ne fun equal => same equal.symm
            simp [marked, parsed, other, same]
      · simp [marked]
  have start := step dir.keys ∅
  rw [AList.lookup_empty, Option.getD_none, List.nil_append] at start
  exact start

section Inventory
variable (decodeMeta : Bytes → Option SegMeta)

theorem lookup_sweepOrphans (dir : Dir) (name : Text) (segment : isOrphan name = false) :
    (sweepOrphans dir).lookup name = dir.lookup name := by
  rw [sweepOrphans, lookup_removeMeasured]
  simp [segment]

theorem mem_scanSegmentFiles (dir : Dir) (file : SegmentFile) :
    file ∈ (scanSegmentFiles decodeMeta dir).1 ↔
      ∃ name ∈ dir, isSegment name = true ∧
        describe decodeMeta (sweepOrphans dir) name = some file := by
  simp only [scanSegmentFiles, List.mem_filterMap, List.mem_filter, AList.mem_keys, and_assoc]

end Inventory

end OriginCache.Cache.Store
