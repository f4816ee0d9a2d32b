import OriginCache.Foundation.Runs
import OriginCache.Cache.Intervals
import OriginCache.Cache.SegmentFiles

/-! The rows of the ledger over whole runs of its operations. A row is a sorted map
of bytes that files hold, as long as what is copied from file names is too. -/

namespace OriginCache.Cache.Rows
open Foundation.Tables Foundation.Runs SegName Coverage Intervals Store Staging Ledger SegmentFiles

/-- The disk, the ledger over it and the operations that take turns on them. -/
structure Staged where
  dir : Dir
  ledger : Inner

inductive LedgerLabel
  | placed (key : Text) (start stop : Nat) (data : Bytes)
  | sealed (key : Text) (start stop : Nat) (etag : Option Text) (total window now : Nat)
  | adopted (key : Text) (start stop now : Nat)
  | adoptedAll (now : Nat)
  | served (key : Text) (start stop : Nat)
  | decayed (key : Text) (now window : Nat)
  | dropped (key : Text) (picks : List (Nat × Nat)) (now : Nat)
deriving DecidableEq, Repr

/-- `drop_spans`: delete the picked files, then rebuild the row from what is left. -/
def dropSpans (s : Staged) (key : Text) (picks : List (Nat × Nat)) (now : Nat) : Staged × Nat :=
  let removed := dropFiles s.dir key picks
  (⟨removed.1, reAdopt s.ledger key removed.2 (survivorsOf removed.1 key) now⟩, removed.2)

/-- One operation with its offsets as words; a file comes into place before it is
sealed or adopted. -/
def ledgerStep (decodeMeta : Bytes → Option SegMeta) (s : Staged) : LedgerLabel → Option Staged
  | .placed key start stop data =>
      if start < 2 ^ 64 ∧ stop < 2 ^ 64 then
        some { s with dir := s.dir.insert (segPath key start stop) data }
      else none
  | .sealed key start stop etag total window now =>
      if start < 2 ^ 64 ∧ stop < 2 ^ 64 then
        some { s with ledger := (ledgerSeal s.ledger s.dir key start stop etag total window now).1 }
      else none
  | .adopted key start stop now =>
      if start < 2 ^ 64 ∧ stop < 2 ^ 64 then
        some { s with ledger := (adopt s.ledger s.dir key start stop now).1 }
      else none
  | .adoptedAll now => some ⟨(scanSegmentFiles decodeMeta s.dir).2, adoptAll decodeMeta s.dir now⟩
  | .served key start stop => some { s with ledger := Ledger.served s.ledger key start stop }
  | .decayed key now window => some { s with ledger := (decayedCoverage s.ledger key now window).1 }
  | .dropped key picks now => some (dropSpans s key picks now).1

def machine (decodeMeta : Bytes → Option SegMeta) : Machine Staged LedgerLabel :=
  ⟨fun s => s.ledger = Inner.new, ledgerStep decodeMeta⟩

/-! What a row claims and what the files hold. -/

/-- Where a file of this key begins: one that was named for the key, or one whose
name reads back as the key. -/
def fileStart (key name : Text) : Option Nat :=
  (parseSegName name).bind fun read =>
    if read.1 = key ∨ name = segPath key read.2.1 read.2.2 then some read.2.1 else none

/-- Some file of the key really holds this byte. -/
def held (dir : Dir) (key : Text) (position : Nat) : Bool :=
  someEntry dir fun name bytes =>
    (fileStart key name).any fun start => decide (start ≤ position ∧ position < start + bytes.length)

structure RowSound (dir : Dir) (key : Text) (row : Row) : Prop where
  tidy : Tidy row.intervals
  short : row.intervals.length ≤ maxIntervalsPerKey
  inside : ∀ position, Covers row.intervals position → held dir key position = true

def RowsSound (s : Staged) : Prop :=
  ∀ key row, s.ledger.map.lookup key = some row → RowSound s.dir key row

/-- The spans that the listed files are named for are non-empty, lie one after the
other and hold every byte they name. -/
def Listed (dir : Dir) (key : Text) (files : List (Nat × Nat)) : Prop :=
  (∀ file ∈ files, file.1 < file.2 ∧
      ∀ position < file.2, file.1 ≤ position → held dir key position = true) ∧
    files.Pairwise fun a b => a.2 ≤ b.1

instance (dir : Dir) (key : Text) (files : List (Nat × Nat)) : Decidable (Listed dir key files) := by
  unfold Listed
  infer_instance

/-- A file replaces no longer one; a span that no one file is named for is adopted
only where files hold it; a row is rebuilt from files that can be listed as they
are named, and none that another row relies on is deleted. -/
def allowed (s : Staged) : LedgerLabel → Prop
  | .placed key start stop data => fileLen s.dir (segPath key start stop) ≤ data.length
  | .adopted key start stop _ =>
      s.dir.lookup (segPath key start stop) = none → diskCovers s.dir key start stop = true →
        ∀ position < stop, start ≤ position → held s.dir key position = true
  | .dropped key picks _ =>
      (key ∈ s.ledger.map → Listed (dropFiles s.dir key picks).1 key
          (survivorsOf (dropFiles s.dir key picks).1 key)) ∧
        every s.ledger.map (fun other _ => other = key ||
          picks.all fun pick => (fileStart other (segPath key pick.1 pick.2)).isNone) = true
  | _ => True

instance (s : Staged) (label : LedgerLabel) : Decidable (allowed s label) := by
  cases label <;> simp only [allowed] <;> infer_instance

theorem held_iff (dir : Dir) (key : Text) (position : Nat) :
    held dir key position = true ↔ ∃ name bytes start, dir.lookup name = some bytes ∧
      fileStart key name = some start ∧ start ≤ position ∧ position < start + bytes.length := by
  rw [held, someEntry_iff]
  constructor
  · intro found
    obtain ⟨name, bytes, present, passes⟩ := found
    obtain ⟨start, begins, inside⟩ := Option.any_eq_true _ _ |>.mp passes
    exact ⟨name, bytes, start, present, begins, of_decide_eq_true inside⟩
  · intro found
    obtain ⟨name, bytes, start, present, begins, inside⟩ := found
    exact ⟨name, bytes, present, Option.any_eq_true _ _ |>.mpr ⟨start, begins, decide_eq_true inside⟩⟩

theorem fileStart_segPath (key : Text) (start stop : Nat) (first : start < 2 ^ 64) (last : stop < 2 ^ 64) :
    fileStart key (segPath key start stop) = some start := by
  rw [fileStart, parseSegName_segPath key start stop first last]
  simp

theorem RowSound.of_held {dir dir' : Dir} {key : Text} {row : Row} (sound : RowSound dir key row)
    (more : ∀ position, held dir key position = true → held dir' key position = true) :
    RowSound dir' key row :=
  ⟨sound.tidy, sound.short, fun position covers => more position (sound.inside position covers)⟩

/-- A key without a row starts from one without intervals. -/
theorem rowSound_rowOf (s : Staged) (key : Text) (sound : RowsSound s) :
    RowSound s.dir key (rowOf s.ledger key) := by
  unfold rowOf
  cases found : s.ledger.map.lookup key with
  | some row => exact sound key row found
  | none =>
    exact ⟨tidy_nil, Nat.zero_le _, fun position covers => by
      obtain ⟨i, member, _⟩ := covers
      exact (List.not_mem_nil member).elim⟩

theorem rowsSound_insert (s : Staged) (key : Text) (row : Row) (total : Nat) (sound : RowsSound s)
    (good : RowSound s.dir key row) : RowsSound ⟨s.dir, ⟨s.ledger.map.insert key row, total⟩⟩ := by
  intro other found present
  cases lookup_insert_some _ _ _ _ _ present with
  | inl same => rw [same.1, same.2]; exact good
  | inr kept => exact sound other found kept.2

/-- A row with one more span of bytes that a file holds. -/
theorem rowSound_add (dir : Dir) (key : Text) (row : Row) (start stop now : Nat) (sound : RowSound dir key row)
    (backed : ∀ position < stop, start ≤ position → held dir key position = true) :
    Tidy (addInterval row.intervals start stop now) ∧
      (addInterval row.intervals start stop now).length ≤ maxIntervalsPerKey ∧
      ∀ position, Covers (addInterval row.intervals start stop now) position →
        held dir key position = true := by
  have added := addInterval_tidy row.intervals start stop now sound.tidy
  refine ⟨added.1, length_addInterval _ _ _ _ sound.short, fun position covers => ?_⟩
  cases added.2 position covers with
  | inl inside => exact backed position inside.2 inside.1
  | inr old => exact sound.inside position old

/-! One lemma for each operation. -/

theorem rowsSound_placed (s : Staged) (key : Text) (start stop : Nat) (data : Bytes) (sound : RowsSound s)
    (longer : fileLen s.dir (segPath key start stop) ≤ data.length) :
    RowsSound { s with dir := s.dir.insert (segPath key start stop) data } := by
  intro other row found
  apply (sound other row found).of_held
  intro position holds
  obtain ⟨name, bytes, first, present, begins, inside⟩ := (held_iff _ _ _).mp holds
  apply (held_iff _ _ _).mpr
  by_cases same : name = segPath key start stop
  · have old : fileLen s.dir (segPath key start stop) = bytes.length := by
      rw [← same, fileLen, present]
      rfl
    refine ⟨name, data, first, ?_, begins, inside.1, by omega⟩
    rw [same]
    exact AList.lookup_insert s.dir
  · exact ⟨name, bytes, first, (AList.lookup_insert_ne same).trans present, begins, inside⟩

/-- The part of a span that the file of its name holds. -/
theorem held_reached (dir : Dir) (key : Text) (start stop : Nat) (bytes : Bytes) (first : start < 2 ^ 64)
    (last : stop < 2 ^ 64) (present : dir.lookup (segPath key start stop) = some bytes) (position : Nat)
    (before : position < min stop (saturatingAdd start bytes.length)) (from_ : start ≤ position) :
    held dir key position = true := by
  apply (held_iff _ _ _).mpr
  have reach : saturatingAdd start bytes.length ≤ start + bytes.length := Nat.min_le_right _ _
  exact ⟨_, bytes, start, present, fileStart_segPath key start stop first last, from_, by omega⟩

theorem rowsSound_sealed (s : Staged) (key : Text) (start stop : Nat) (etag : Option Text)
    (total window now : Nat) (first : start < 2 ^ 64) (last : stop < 2 ^ 64) (sound : RowsSound s) :
    RowsSound { s with ledger := (ledgerSeal s.ledger s.dir key start stop etag total window now).1 } := by
  unfold ledgerSeal measureSeal
  cases present : s.dir.lookup (segPath key start stop) with
  | none => exact sound
  | some bytes =>
    by_cases none : min stop (saturatingAdd start bytes.length) ≤ start
    · simp only [if_pos none]
      exact sound
    · simp only [if_neg none, recordSeal]
      apply rowsSound_insert s key _ _ sound
      have added := rowSound_add s.dir key _ start _ now (rowSound_rowOf s key sound)
        (held_reached s.dir key start stop bytes first last present)
      have shorter := length_decay (addInterval (rowOf s.ledger key).intervals start
        (min stop (saturatingAdd start bytes.length)) now) now window
      exact ⟨tidy_decay _ now window added.1, Nat.le_trans shorter added.2.1,
        fun position covers => added.2.2 position (covers.of_subset (decay_subset _ now window))⟩

theorem rowsSound_adopted (s : Staged) (key : Text) (start stop now : Nat) (first : start < 2 ^ 64)
    (last : stop < 2 ^ 64) (sound : RowsSound s) (backed : allowed s (.adopted key start stop now)) :
    RowsSound { s with ledger := (adopt s.ledger s.dir key start stop now).1 } := by
  have record : ∀ reached len, (∀ position < reached, start ≤ position → held s.dir key position = true) →
      RowsSound { s with ledger := recordAdopt s.ledger key start reached len now } := by
    intro reached len holds
    apply rowsSound_insert s key _ _ sound
    have added := rowSound_add s.dir key _ start reached now (rowSound_rowOf s key sound) holds
    exact ⟨added.1, added.2.1, added.2.2⟩
  unfold adopt measureAdopt
  cases present : s.dir.lookup (segPath key start stop) with
  | some bytes =>
    by_cases none : min stop (saturatingAdd start bytes.length) ≤ start
    · simp only [if_pos none]
      exact sound
    · simp only [if_neg none]
      exact record _ _ (held_reached s.dir key start stop bytes first last present)
  | none =>
    by_cases covers : diskCovers s.dir key start stop = true
    · by_cases none : stop ≤ start
      · simp only [covers, if_true, if_pos none]
        exact sound
      · simp only [covers, if_true, if_neg none]
        exact record _ _ (backed present covers)
    · simp only [covers]
      exact sound

/-- What the startup scan lists about a file is what the file holds. -/
theorem held_scanned (decodeMeta : Bytes → Option SegMeta) (dir : Dir) (file : SegmentFile)
    (listed : file ∈ (scanSegmentFiles decodeMeta dir).1) (position : Nat)
    (before : position < min file.stop (saturatingAdd file.start file.len)) (from_ : file.start ≤ position) :
    held (scanSegmentFiles decodeMeta dir).2 file.key position = true := by
  obtain ⟨name, _, segment, described⟩ := (mem_scanSegmentFiles decodeMeta dir file).mp listed
  obtain ⟨read, parsed, same⟩ := Option.map_eq_some_iff.mp described
  have reach : saturatingAdd file.start file.len ≤ file.start + file.len := Nat.min_le_right _ _
  have size : file.len = fileLen (sweepOrphans dir) name := by rw [← same]
  cases present : (sweepOrphans dir).lookup name with
  | none =>
    have empty : file.len = 0 := by
      rw [size, fileLen, present]
      rfl
    omega
  | some bytes =>
    have full : file.len = bytes.length := by
      rw [size, fileLen, present]
      rfl
    apply (held_iff _ _ _).mpr
    refine ⟨name, bytes, file.start, present, ?_, from_, by omega⟩
    rw [fileStart, parsed, ← same]
    simp

theorem rowsSound_adoptedAll (decodeMeta : Bytes → Option SegMeta) (s : Staged) (now : Nat) :
    RowsSound ⟨(scanSegmentFiles decodeMeta s.dir).2, adoptAll decodeMeta s.dir now⟩ := by
  have folds : ∀ (files : List SegmentFile) (inner : Inner),
      (∀ file ∈ files, file ∈ (scanSegmentFiles decodeMeta s.dir).1) →
      RowsSound ⟨(scanSegmentFiles decodeMeta s.dir).2, inner⟩ →
        RowsSound ⟨(scanSegmentFiles decodeMeta s.dir).2, files.foldl (adoptScanned now) inner⟩ := by
    intro files
    induction files with
    | nil => exact fun _ _ good => good
    | cons file files ih =>
      intro inner listed good
      rw [List.foldl_cons]
      apply ih _ fun later member => listed later (List.mem_cons_of_mem _ member)
      have added := rowSound_add _ file.key _ file.start _ now
        (rowSound_rowOf ⟨(scanSegmentFiles decodeMeta s.dir).2, inner⟩ file.key good)
        (held_scanned decodeMeta s.dir file (listed file List.mem_cons_self))
      exact rowsSound_insert ⟨_, inner⟩ file.key _ _ good ⟨added.1, added.2.1, added.2.2⟩
  apply folds _ Inner.new (fun _ member => member)
  intro key row found
  cases found

theorem rowsSound_served (s : Staged) (key : Text) (start stop : Nat) (sound : RowsSound s) :
    RowsSound { s with ledger := Ledger.served s.ledger key start stop } := by
  unfold Ledger.served
  by_cases empty : stop ≤ start
  · rw [if_pos empty]
    exact sound
  · rw [if_neg empty]
    cases found : s.ledger.map.lookup key with
    | none => exact sound
    | some row =>
      have good := sound key row found
      have bounds : ∀ i, (credit start stop i).start = i.start ∧ (credit start stop i).stop = i.stop := by
        intro i
        unfold credit
        split_ifs <;> exact ⟨rfl, rfl⟩
      apply rowsSound_insert s key _ _ sound
      apply RowSound.mk
      · apply Tidy.mk
        · intro i member
          obtain ⟨old, given, same⟩ := List.mem_map.mp member
          rw [← same, (bounds old).1, (bounds old).2]
          exact good.tidy.proper old given
        · apply List.pairwise_map.mpr
          apply good.tidy.ordered.imp
          intro a b before
          rw [(bounds a).2, (bounds b).1]
          exact before
      · rw [List.length_map]
        exact good.short
      · intro position covers
        obtain ⟨i, member, within⟩ := covers
        obtain ⟨old, given, same⟩ := List.mem_map.mp member
        rw [← same, Within, (bounds old).1, (bounds old).2] at within
        exact good.inside position ⟨old, given, within⟩

theorem rowsSound_decayed (s : Staged) (key : Text) (now window : Nat) (sound : RowsSound s) :
    RowsSound { s with ledger := (decayedCoverage s.ledger key now window).1 } := by
  unfold decayedCoverage
  cases found : s.ledger.map.lookup key with
  | none => exact sound
  | some row =>
    have good := sound key row found
    apply rowsSound_insert s key _ _ sound
    exact ⟨tidy_decay _ now window good.tidy, Nat.le_trans (length_decay _ now window) good.short,
      fun position covers => good.inside position (covers.of_subset (decay_subset _ now window))⟩

theorem rowsSound_dropped (s : Staged) (key : Text) (picks : List (Nat × Nat)) (now : Nat)
    (sound : RowsSound s) (meets : allowed s (.dropped key picks now)) :
    RowsSound (dropSpans s key picks now).1 := by
  have elsewhere : ∀ other row, other ≠ key → s.ledger.map.lookup other = some row →
      RowSound (dropFiles s.dir key picks).1 other row := by
    intro other row different found
    have foreign := (every_iff _ _).mp meets.2 other row found
    simp only [Bool.or_eq_true, decide_eq_true_eq, List.all_eq_true] at foreign
    apply (sound other row found).of_held
    intro position holds
    obtain ⟨name, bytes, first, present, begins, inside⟩ := (held_iff _ _ _).mp holds
    apply (held_iff _ _ _).mpr
    refine ⟨name, bytes, first, ?_, begins, inside⟩
    rw [lookup_dropFiles, if_neg, present]
    intro picked
    obtain ⟨pick, member, same⟩ := picked
    have unread := foreign.resolve_left different pick member
    rw [same, begins] at unread
    cases unread
  unfold dropSpans reAdopt
  cases found : s.ledger.map.lookup key with
  | none =>
    intro other row present
    apply elsewhere other row _ present
    intro same
    rw [same, found] at present
    cases present
  | some row =>
    intro other new present
    cases lookup_insert_some _ _ _ _ _ present with
    | inr kept => exact elsewhere other new kept.1 kept.2
    | inl same =>
      have listed := meets.1 (lookup_mem _ _ _ found)
      have rebuilt := adoptFiles_tidy row.intervals (survivorsOf (dropFiles s.dir key picks).1 key) now
        (fun file member => (listed.1 file member).1) listed.2
      rw [same.1, same.2]
      refine ⟨rebuilt.1, length_compact _, fun position covers => ?_⟩
      obtain ⟨file, member, inside⟩ := rebuilt.2 position covers
      exact (listed.1 file member).2 position inside.2 inside.1

theorem rowsSound_step (decodeMeta : Bytes → Option SegMeta) (s s' : Staged) (label : LedgerLabel)
    (sound : RowsSound s) (meets : allowed s label) (steps : ledgerStep decodeMeta s label = some s') :
    RowsSound s' := by
  cases label with
  | placed key start stop data =>
    simp only [ledgerStep] at steps
    split_ifs at steps
    cases steps
    exact rowsSound_placed s key start stop data sound meets
  | sealed key start stop etag total window now =>
    simp only [ledgerStep] at steps
    split_ifs at steps with words
    cases steps
    exact rowsSound_sealed s key start stop etag total window now words.1 words.2 sound
  | adopted key start stop now =>
    simp only [ledgerStep] at steps
    split_ifs at steps with words
    cases steps
    exact rowsSound_adopted s key start stop now words.1 words.2 sound meets
  | adoptedAll now =>
    cases steps
    exact rowsSound_adoptedAll decodeMeta s now
  | served key start stop =>
    cases steps
    exact rowsSound_served s key start stop sound
  | decayed key now window =>
    cases steps
    exact rowsSound_decayed s key now window sound
  | dropped key picks now =>
    cases steps
    exact rowsSound_dropped s key picks now sound meets

/-- In every run whose operations meet the condition, every row of every state is
sound. -/
theorem rows_sound (decodeMeta : Bytes → Option SegMeta) (s : Staged)
    (reached : Reaches (machine decodeMeta) allowed s) (key : Text) (row : Row)
    (found : s.ledger.map.lookup key = some row) : RowSound s.dir key row := by
  have sound : RowsSound s := by
    apply Reaches.invariant RowsSound _ (fun s label s' => rowsSound_step decodeMeta s s' label) reached
    intro start fresh key row found
    rw [fresh] at found
    cases found
  exact sound key row found

/-- Two windows side by side and a third one; the third is evicted and a read of
the rest is counted. -/
def sideBySide : List LedgerLabel :=
  [.placed ['a'] 0 2 [1, 2], .sealed ['a'] 0 2 none 8 0 10, .placed ['a'] 2 4 [3, 4], .adopted ['a'] 2 4 20,
    .placed ['a'] 6 8 [7, 8], .adopted ['a'] 6 8 30, .dropped ['a'] [(6, 8)] 40, .served ['a'] 1 3,
    .adopted ['a'] 0 4 50, .decayed ['a'] 60 20]

theorem sideBySide_sound : ∃ s row, Reaches (machine fun _ => none) allowed s ∧
    s.ledger.map.lookup ['a'] = some row ∧ row.intervals = [⟨0, 4, 50, 2⟩] ∧ RowSound s.dir ['a'] row := by
  obtain ⟨s, reached, passes⟩ := exists_reached (machine fun _ => none) allowed sideBySide
    (show (machine fun _ => none).initial ⟨∅, Inner.new⟩ from rfl)
    (fun s => (s.ledger.map.lookup ['a']).any fun row => row.intervals = [⟨0, 4, 50, 2⟩])
    (by decide)
  obtain ⟨row, found, same⟩ := Option.any_eq_true _ _ |>.mp passes
  exact ⟨s, row, reached, found, of_decide_eq_true same, rows_sound _ s reached ['a'] row found⟩

/-- Two overlapping windows and a third one; evicting the third writes the other
two into the row as they are named. -/
def overlapping : List LedgerLabel :=
  [.placed ['a'] 0 4 [1, 2, 3, 4], .sealed ['a'] 0 4 none 10 0 10, .placed ['a'] 2 6 [3, 4, 5, 6],
    .sealed ['a'] 2 6 none 10 0 20, .placed ['a'] 8 10 [9, 10], .sealed ['a'] 8 10 none 10 0 30,
    .dropped ['a'] [(8, 10)] 40]

theorem overlapping_untidy : ∃ s row, Reaches (machine fun _ => none) (fun _ _ => True) s ∧
    s.ledger.map.lookup ['a'] = some row ∧ row.intervals = [⟨0, 4, 20, 0⟩, ⟨2, 6, 20, 0⟩] ∧
      ¬ RowSound s.dir ['a'] row := by
  obtain ⟨s, reached, passes⟩ := exists_reached (machine fun _ => none) (fun _ _ => True) overlapping
    (show (machine fun _ => none).initial ⟨∅, Inner.new⟩ from rfl)
    (fun s => (s.ledger.map.lookup ['a']).any fun row =>
      row.intervals = [⟨0, 4, 20, 0⟩, ⟨2, 6, 20, 0⟩])
    (by decide)
  obtain ⟨row, found, same⟩ := Option.any_eq_true _ _ |>.mp passes
  have intervals : row.intervals = [⟨0, 4, 20, 0⟩, ⟨2, 6, 20, 0⟩] := of_decide_eq_true same
  refine ⟨s, row, reached, found, intervals, fun sound => ?_⟩
  have ordered := sound.tidy.ordered
  rw [intervals] at ordered
  exact absurd ordered (by decide)

end OriginCache.Cache.Rows
