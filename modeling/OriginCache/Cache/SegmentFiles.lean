import OriginCache.Cache.Ledger
import OriginCache.Cache.Staging

/-! Which key a segment file belongs to. The request path asks by a name prefix,
the restart path by decoding the name: the first is exact when no key on disk
continues the asked one after a dot, the second when the key is ASCII. -/

namespace OriginCache.Cache.SegmentFiles
open Foundation.Splits Foundation.Tables SegName Key Store Staging Ledger

/-- Every segment name in the directory was made by `segPath`. -/
def Produced (dir : Dir) : Prop :=
  ∀ name ∈ dir, segPrefix <+: name →
    ∃ key start stop, name = segPath key start stop ∧ start < stop ∧ stop < 2 ^ 64

theorem segPrefix_segPath (key : Text) (start stop : Nat) : segPrefix <+: segPath key start stop :=
  List.prefix_append _ _

theorem segPath_ne_segmetaPath (key other : Text) (start stop : Nat) :
    segPath key start stop ≠ segmetaPath other := by
  intro same
  have fifth := congrArg (fun name => name[4]?) same
  simp [segPath, segmetaPath, segPrefix, segmetaPrefix] at fifth

theorem not_segpart_segPath (key : Text) (start stop : Nat) :
    segpartPrefix.isPrefixOf (segPath key start stop) = false := by
  simp [segPath, segPrefix, segpartPrefix, List.isPrefixOf]

theorem bounds_of_mem (dir : Dir) (produced : Produced dir) (key : Text) (start stop : Nat)
    (member : segPath key start stop ∈ dir) : start < stop ∧ stop < 2 ^ 64 := by
  obtain ⟨other, first, last, same, range, bound⟩ :=
    produced _ member (segPrefix_segPath key start stop)
  obtain ⟨_, rfl, rfl⟩ := segPath_injective key other start stop first last same
  exact ⟨range, bound⟩

theorem ownedBy_segPath (key other : Text) (start stop : Nat) (first : start < 2 ^ 64)
    (last : stop < 2 ^ 64) :
    ownedBy key (segPath other start stop) = true ↔ key = other ∨ Extends key other := by
  rw [ownedBy, parseSegName_segPath other start stop first last, Option.isSome_some, Bool.and_true,
    List.isPrefixOf_iff_prefix, segPath_prefix_iff]

/-- In a produced directory the files listed for a key are its own and those of
the keys that continue it after a dot. -/
theorem mem_keySegmentFiles_iff (dir : Dir) (produced : Produced dir) (key name : Text) :
    name ∈ keySegmentFiles dir key ↔
      name ∈ dir ∧ ∃ other start stop, (key = other ∨ Extends key other) ∧
        name = segPath other start stop := by
  rw [mem_keySegmentFiles]
  constructor
  · rintro ⟨member, owned⟩
    have marked : segPrefix <+: name := by
      simp only [ownedBy, Bool.and_eq_true, List.isPrefixOf_iff_prefix] at owned
      exact (List.prefix_append _ _).trans owned.1
    obtain ⟨other, start, stop, rfl, range, bound⟩ := produced name member marked
    exact ⟨member, other, start, stop,
      (ownedBy_segPath key other start stop (by omega) bound).mp owned, rfl⟩
  · rintro ⟨member, other, start, stop, owner, rfl⟩
    have range := bounds_of_mem dir produced other start stop member
    exact ⟨member, (ownedBy_segPath key other start stop (by omega) range.2).mpr owner⟩

/-- What the request path relies on for one key. -/
structure OwnFilesOnly (dir : Dir) (key : Text) : Prop where
  listed : ∀ name, name ∈ keySegmentFiles dir key ↔
    name ∈ dir ∧ ∃ start stop, name = segPath key start stop
  once : (keySegmentFiles dir key).Nodup
  spans : ∀ start stop name, (start, stop, name) ∈ segmentsForKey dir key ↔
    name ∈ dir ∧ name = segPath key start stop
  removal : ∀ keep other start stop, other ≠ key →
    (removeKeySegments dir key keep).1.lookup (segPath other start stop) =
      dir.lookup (segPath other start stop)
  reset : ∀ other start stop, other ≠ key →
    (resetFiles dir key).1.lookup (segPath other start stop) = dir.lookup (segPath other start stop)
  eviction : ∀ picks other start stop, other ≠ key →
    (dropFiles dir key picks).1.lookup (segPath other start stop) =
      dir.lookup (segPath other start stop)
  planned : ∀ start stop, ∀ piece ∈ (planStaged (segmentsForKey dir key) start stop).pieces,
    ∃ s e, piece.path = segPath key s e ∧ piece.path ∈ dir ∧ s + piece.offset + piece.len ≤ e

/-- No file belongs to a key that continues this one after a dot. -/
def NoDottedSibling (dir : Dir) (key : Text) : Prop :=
  ∀ longer start stop, Extends key longer → segPath longer start stop ∉ dir

theorem Extends.ne (key longer : Text) (extends_ : Extends key longer) : longer ≠ key := by
  obtain ⟨rest, rfl⟩ := extends_
  intro same
  have lengths := congrArg List.length same
  simp at lengths

theorem listed_of_noDottedSibling (dir : Dir) (produced : Produced dir) (key : Text)
    (alone : NoDottedSibling dir key) (name : Text) :
    name ∈ keySegmentFiles dir key ↔ name ∈ dir ∧ ∃ start stop, name = segPath key start stop := by
  rw [mem_keySegmentFiles_iff dir produced]
  constructor
  · rintro ⟨member, other, start, stop, rfl | longer, rfl⟩
    · exact ⟨member, start, stop, rfl⟩
    · exact (alone other start stop longer member).elim
  · rintro ⟨member, start, stop, rfl⟩
    exact ⟨member, key, start, stop, Or.inl rfl, rfl⟩

theorem spans_of_noDottedSibling (dir : Dir) (produced : Produced dir) (key : Text)
    (alone : NoDottedSibling dir key) (start stop : Nat) (name : Text) :
    (start, stop, name) ∈ segmentsForKey dir key ↔ name ∈ dir ∧ name = segPath key start stop := by
  rw [mem_segmentsForKey, listed_of_noDottedSibling dir produced key alone]
  constructor
  · rintro ⟨⟨member, first, last, rfl⟩, read, parsed⟩
    have range := bounds_of_mem dir produced key first last member
    rw [parseSegName_segPath key first last (by omega) range.2] at parsed
    simp only [Option.some.injEq, Prod.mk.injEq] at parsed
    obtain ⟨_, rfl, rfl⟩ := parsed
    exact ⟨member, rfl⟩
  · rintro ⟨member, rfl⟩
    have range := bounds_of_mem dir produced key start stop member
    exact ⟨⟨member, start, stop, rfl⟩, _, parseSegName_segPath key start stop (by omega) range.2⟩

theorem foreign_not_listed (dir : Dir) (produced : Produced dir) (key other : Text)
    (alone : NoDottedSibling dir key) (start stop : Nat) (different : other ≠ key) :
    segPath other start stop ∉ keySegmentFiles dir key := by
  rw [listed_of_noDottedSibling dir produced key alone]
  rintro ⟨_, first, last, same⟩
  exact different (segPath_injective other key start stop first last same).1

/-- Listing, deleting and planning for a key stay inside its own files exactly
when no key on disk continues it after a dot. -/
theorem ownFilesOnly_iff (dir : Dir) (produced : Produced dir) (key : Text) :
    OwnFilesOnly dir key ↔ NoDottedSibling dir key := by
  constructor
  · intro own longer start stop longerKey member
    have listed : segPath longer start stop ∈ keySegmentFiles dir key :=
      (mem_keySegmentFiles_iff dir produced key _).mpr
        ⟨member, longer, start, stop, Or.inr longerKey, rfl⟩
    obtain ⟨_, first, last, same⟩ := (own.listed _).mp listed
    exact Extends.ne key longer longerKey (segPath_injective longer key start stop first last same).1
  · intro alone
    have foreign := fun other start stop =>
      foreign_not_listed dir produced key other alone start stop
    refine ⟨listed_of_noDottedSibling dir produced key alone, dir.keys_nodup.filter _,
      spans_of_noDottedSibling dir produced key alone, ?_, ?_, ?_, ?_⟩
    · intro keep other start stop different
      rw [lookup_removeKeySegments dir key keep _ (segPath_ne_segmetaPath other key start stop),
        if_neg fun both => foreign other start stop different both.1]
    · intro other start stop different
      rw [lookup_resetFiles dir key _ (segPath_ne_segmetaPath other key start stop),
        if_neg (foreign other start stop different)]
    · intro picks other start stop different
      rw [lookup_dropFiles, if_neg]
      rintro ⟨pick, _, same⟩
      exact different (segPath_injective key other pick.1 pick.2 start stop same).1.symm
    · intro start stop piece planned
      obtain ⟨s, e, listed, _, inside⟩ := planFrom_inside stop start _ piece planned
      obtain ⟨member, same⟩ :=
        (spans_of_noDottedSibling dir produced key alone s e piece.path).mp listed
      exact ⟨s, e, same, member, by omega⟩

/-- One file, of the key `a.b`. -/
def dottedDir : Dir := AList.singleton (segPath ['a', '.', 'b'] 0 3) [1, 2, 3]

theorem produced_dottedDir : Produced dottedDir := by
  intro name member _
  have same : name = segPath ['a', '.', 'b'] 0 3 := by
    simpa [dottedDir, AList.mem_keys, AList.keys_singleton] using member
  exact ⟨['a', '.', 'b'], 0, 3, same, by decide, by decide⟩

/-- The keys `a` and `a.b` are both accepted, and the file of the second is listed,
planned and deleted as a file of the first. -/
theorem dottedDir_not_own :
    resolveKey ['a'] defaultRoutes [] =
        .ok ⟨['a'], ['a'], ['p', 'r', 'i', 'm', 'a', 'r', 'y']⟩ ∧
      resolveKey ['a', '.', 'b'] defaultRoutes [] =
        .ok ⟨['a', '.', 'b'], ['a', '.', 'b'], ['p', 'r', 'i', 'm', 'a', 'r', 'y']⟩ ∧
      Produced dottedDir ∧
      planStaged (segmentsForKey dottedDir ['a']) 0 3 =
        ⟨[⟨segPath ['a', '.', 'b'] 0 3, 0, 3⟩], 3⟩ ∧
      (resetFiles dottedDir ['a']).1.lookup (segPath ['a', '.', 'b'] 0 3) = none ∧
      ¬ OwnFilesOnly dottedDir ['a'] := by
  have listed : segPath ['a', '.', 'b'] 0 3 ∈ keySegmentFiles dottedDir ['a'] := by decide
  refine ⟨by decide, by decide, produced_dottedDir, by decide,
    by decide, fun own => ?_⟩
  obtain ⟨_, first, last, same⟩ := (own.listed _).mp listed
  exact absurd (segPath_injective _ _ 0 3 first last same).1 (by decide)

theorem ownFilesOnly_dottedDir : OwnFilesOnly dottedDir ['a', '.', 'b'] := by
  refine (ownFilesOnly_iff dottedDir produced_dottedDir _).mpr ?_
  intro longer start stop longerKey member
  have same : segPath longer start stop = segPath ['a', '.', 'b'] 0 3 := by
    simpa [dottedDir, AList.mem_keys, AList.keys_singleton] using member
  exact Extends.ne _ _ longerKey (segPath_injective longer _ start stop 0 3 same).1

/-! The restart path. -/

section Restart
variable (decodeMeta : Bytes → Option SegMeta)

/-- Every way back from a file name leads to the key the file was written for. -/
structure FiledUnder (key : Text) : Prop where
  flattened : unescapeKey (escapeKey key) = some key
  named : ∀ start stop, start < 2 ^ 64 → stop < 2 ^ 64 →
    parseSegName (segPath key start stop) = some (key, start, stop)
  scanned : ∀ (dir : Dir) (start stop : Nat), start < 2 ^ 64 → stop < 2 ^ 64 →
    segPath key start stop ∈ dir → ∃ file ∈ (scanSegmentFiles decodeMeta dir).1,
      file.key = key ∧ file.start = start ∧ file.stop = stop ∧
        file.len = fileLen dir (segPath key start stop)
  indexed : ∀ (dir : Dir) (start stop : Nat), start < 2 ^ 64 → stop < 2 ^ 64 →
    segPath key start stop ∈ dir →
      segPath key start stop ∈ ((segmentIndex dir).lookup key).getD []
  adopted : ∀ (dir : Dir) (start stop now : Nat), start < 2 ^ 64 → stop < 2 ^ 64 →
    segPath key start stop ∈ dir → key ∈ (adoptAll decodeMeta dir now).map

theorem isSegment_segPath (key : Text) (start stop : Nat) (first : start < 2 ^ 64)
    (last : stop < 2 ^ 64) : isSegment (segPath key start stop) = true := by
  simp [isSegment, not_segpart_segPath, parseSegName_segPath key start stop first last,
    List.isPrefixOf_iff_prefix.mpr (segPrefix_segPath key start stop)]

theorem isOrphan_segPath (key : Text) (start stop : Nat) (first : start < 2 ^ 64)
    (last : stop < 2 ^ 64) : isOrphan (segPath key start stop) = false := by
  simp [isOrphan, not_segpart_segPath, parseSegName_segPath key start stop first last]

/-- The inventory lists a surviving segment under what its name decodes to. -/
theorem scanned_segPath (dir : Dir) (key : Text) (start stop : Nat) (first : start < 2 ^ 64)
    (last : stop < 2 ^ 64) (member : segPath key start stop ∈ dir) :
    ∃ file ∈ (scanSegmentFiles decodeMeta dir).1,
      file.key = (bytesOf key).map latin ∧ file.start = start ∧ file.stop = stop ∧
        file.len = fileLen dir (segPath key start stop) := by
  have kept := lookup_sweepOrphans dir _ (isOrphan_segPath key start stop first last)
  have shown : describe decodeMeta (sweepOrphans dir) (segPath key start stop) =
      some ⟨(bytesOf key).map latin, start, stop, fileLen dir (segPath key start stop),
        (markerOf decodeMeta (sweepOrphans dir) ((bytesOf key).map latin)).etag,
        (markerOf decodeMeta (sweepOrphans dir) ((bytesOf key).map latin)).total⟩ := by
    rw [describe, parseSegName_segPath key start stop first last]
    simp only [Option.map_some, fileLen, kept]
  have listed := (mem_scanSegmentFiles decodeMeta dir _).mpr
    ⟨segPath key start stop, member, isSegment_segPath key start stop first last, shown⟩
  exact ⟨_, listed, rfl, rfl, rfl, rfl⟩

/-- A key's segments come back under the key itself exactly when it is ASCII. -/
theorem filedUnder_iff (key : Text) : FiledUnder decodeMeta key ↔ Ascii key := by
  constructor
  · intro filed
    have read := filed.flattened
    rw [unescapeKey_escapeKey] at read
    exact (latin_bytesOf_iff key).mp (Option.some.inj read)
  · intro ascii
    have back := (latin_bytesOf_iff key).mpr ascii
    have named : ∀ start stop, start < 2 ^ 64 → stop < 2 ^ 64 →
        parseSegName (segPath key start stop) = some (key, start, stop) := by
      intro start stop first last
      rw [parseSegName_segPath key start stop first last, back]
    have scanned : ∀ (dir : Dir) (start stop : Nat), start < 2 ^ 64 → stop < 2 ^ 64 →
        segPath key start stop ∈ dir → ∃ file ∈ (scanSegmentFiles decodeMeta dir).1,
          file.key = key ∧ file.start = start ∧ file.stop = stop ∧
            file.len = fileLen dir (segPath key start stop) := by
      intro dir start stop first last member
      have found := scanned_segPath decodeMeta dir key start stop first last member
      rwa [back] at found
    refine ⟨by rw [unescapeKey_escapeKey, back], named, scanned, ?_, ?_⟩
    · intro dir start stop first last member
      rw [lookup_segmentIndex, List.mem_filter]
      refine ⟨member, ?_⟩
      rw [named start stop first last]
      simp [List.isPrefixOf_iff_prefix.mpr (segPrefix_segPath key start stop)]
    · intro dir start stop now first last member
      obtain ⟨file, listed, same, _⟩ := scanned dir start stop first last member
      exact (mem_recordAll _ now key).mpr ⟨file, listed, same⟩

/-- The key `é` is accepted and comes back as two characters. -/
theorem accented_not_filed :
    resolveKey ['é'] defaultRoutes [] =
        .ok ⟨['é'], ['é'], ['p', 'r', 'i', 'm', 'a', 'r', 'y']⟩ ∧
      parseSegName (segPath ['é'] 0 3) = some (['Ã', '©'], 0, 3) ∧
      unescapeKey (escapeKey ['é']) ≠ some ['é'] ∧
      (segmentIndex (AList.singleton (segPath ['é'] 0 3) [1, 2, 3])).lookup ['é'] = none ∧
      ¬ FiledUnder (fun _ => none) ['é'] := by
  refine ⟨by decide, by decide, by decide, by decide, ?_⟩
  intro filed
  exact absurd filed.flattened (by decide)

end Restart

end OriginCache.Cache.SegmentFiles
