import OriginCache.Cache.Agreement
import OriginCache.Cache.Rows

/-! The start of a cache from what is on disk: the rows of redb that still have a file,
or one row for each object file when there are none; and the runs that a crash cuts. -/

namespace OriginCache.Cache.Startup
open Foundation.Tables Foundation.Runs SegName Key Meta Magazine Agreement
open Store (Bytes Dir SegMeta removeMeasured scanSegmentFiles lookup_removeMeasured)
open DiskHit (Files)
open Rows (Staged RowsSound rowsSound_adoptedAll)

/-- The flat artifacts, the object tree and the rows of redb. -/
structure Disk where
  top : Dir
  objects : Files
  rows : Table Text EntryMeta

/-- Whether the rows could be read, and which transactions were committed. -/
structure Outcome where
  loads : Bool
  removes : Bool
  inserts : Text → Bool

structure Started where
  stores : Stores
  staged : Staged
  rebuilt : Nat

def tmpPrefix : Text := ['.', 't', 'm', 'p', '.']

def cleanupTmps (top : Dir) : Dir := (removeMeasured top (top.keys.filter tmpPrefix.isPrefixOf)).1

/-- A directory is there when something lies under it. -/
def isDirectory (objects : Files) (key : Text) : Bool := objects.keys.any (key ++ ['/']).isPrefixOf

/-- A row whose path is there, and whose key a request could have produced. -/
def survives (objects : Files) (m : EntryMeta) : Bool :=
  !isReservedKey m.key && (decide (m.key ∈ objects) || isDirectory objects m.key)

def slashed (path : Text) : Text := path.map fun c => if c = '\\' then '/' else c

/-- The object files and their sizes, without what the top of the directory reserves. -/
def scanObjectFiles (objects : Files) : List (Text × Nat) :=
  (objects.entries.filter fun file => !isReservedKey file.1 && decide (slashed file.1 ≠ [])).map fun file =>
    (slashed file.1, file.2.length)

def fitsMagazine (sizeBytes : Nat) (config : Config) : Bool := 0 < sizeBytes && sizeBytes ≤ config.maxSizeBytes

/-- A row for a file of which only the size is known. -/
def rebuiltRow (config : Config) (routes : RouteTable) (now : Nat) (found : Text × Nat) : EntryMeta where
  version := 1
  upstreamId := routes.resolve found.1
  key := found.1
  sizeBytes := found.2
  etag := none
  lastModified := none
  contentType := none
  createdAtMillis := now
  lastAccessMillis := now
  lastRevalidatedMillis := none
  negativeUntilMillis := none
  oversize := !fitsMagazine found.2 config

def insertRow (inserts : Text → Bool) (rows : Table Text EntryMeta) (m : EntryMeta) : Table Text EntryMeta :=
  commit (inserts m.key) rows (rows.insert m.key m)

/-- `load_and_start`, up to the loops it spawns. -/
def start (config : Config) (routes : RouteTable) (decodeMeta : Bytes → Option SegMeta) (outcome : Outcome) (now : Nat)
    (disk : Disk) : Started :=
  let top := cleanupTmps disk.top
  let staged : Staged := ⟨(scanSegmentFiles decodeMeta top).2, Ledger.adoptAll decodeMeta top now⟩
  let persisted := if outcome.loads then disk.rows.entries.map Sigma.snd else []
  let live := persisted.filter (survives disk.objects)
  let lost := (persisted.filter fun m => !survives disk.objects m).map EntryMeta.key
  let rows := commit outcome.removes disk.rows (removeBatch disk.rows lost)
  let cache := loadRows ⟨∅, 0⟩ live
  if cache.entries.entries = [] then
    let rebuilt := (scanObjectFiles disk.objects).map (rebuiltRow config routes now)
    ⟨⟨loadRows cache rebuilt, rebuilt.foldl (insertRow outcome.inserts) rows, disk.objects⟩, staged, rebuilt.length⟩
  else ⟨⟨cache, rows, disk.objects⟩, staged, 0⟩

/-! Rows are kept under their own keys. -/

def Keyed (rows : Table Text EntryMeta) : Prop := ∀ key m, rows.lookup key = some m → m.key = key

theorem keyed_insert {rows : Table Text EntryMeta} (keyed : Keyed rows) (m : EntryMeta) : Keyed (rows.insert m.key m) := by
  intro key found present
  obtain ⟨rfl, rfl⟩ | ⟨_, earlier⟩ := lookup_insert_some rows m.key key m found present
  · rfl
  · exact keyed key found earlier

theorem keyed_commit {rows after : Table Text EntryMeta} (ok : Bool) (keyed : Keyed rows) (next : Keyed after) :
    Keyed (commit ok rows after) := by
  cases ok with
  | true => exact next
  | false => exact keyed

theorem lookup_removeBatch (rows : Table Text EntryMeta) (keys : List Text) (key : Text) :
    (removeBatch rows keys).lookup key = if key ∈ keys then none else rows.lookup key := by
  induction keys generalizing rows with
  | nil => rfl
  | cons head keys ih =>
    change (removeBatch (rows.erase head) keys).lookup key = _
    rw [ih]
    by_cases same : key = head
    · rw [same, AList.lookup_erase, if_pos List.mem_cons_self, ite_self]
    · rw [AList.lookup_erase_ne same]
      simp [same]

theorem keyed_removeBatch {rows : Table Text EntryMeta} (keyed : Keyed rows) (keys : List Text) :
    Keyed (removeBatch rows keys) := by
  intro key m present
  rw [lookup_removeBatch] at present
  split_ifs at present
  exact keyed key m present

theorem mem_rows {rows : Table Text EntryMeta} (keyed : Keyed rows) (m : EntryMeta) :
    m ∈ rows.entries.map Sigma.snd ↔ rows.lookup m.key = some m := by
  constructor
  · intro member
    obtain ⟨⟨key, found⟩, inside, rfl⟩ := List.mem_map.mp member
    have present : rows.lookup key = some found := AList.mem_lookup_iff.mpr inside
    rw [keyed key found present]
    exact present
  · intro present
    exact List.mem_map.mpr ⟨⟨m.key, m⟩, AList.mem_lookup_iff.mp present, rfl⟩

theorem keys_rows {rows : Table Text EntryMeta} (keyed : Keyed rows) :
    (rows.entries.map Sigma.snd).map EntryMeta.key = rows.keys := by
  rw [List.map_map]
  apply List.map_congr_left
  intro entry inside
  exact keyed entry.1 entry.2 (AList.mem_lookup_iff.mpr inside)

/-! Loading. -/

theorem loadRows_cons (s : CacheState) (m : EntryMeta) (rows : List EntryMeta) :
    loadRows s (m :: rows) = loadRows (loadRow s m) rows := rfl

theorem lookup_loadRows_other (rows : List EntryMeta) (s : CacheState) (key : Text) (other : key ∉ rows.map EntryMeta.key) :
    (loadRows s rows).entries.lookup key = s.entries.lookup key := by
  induction rows generalizing s with
  | nil => rfl
  | cons m rows ih =>
    rw [List.map_cons, List.mem_cons, not_or] at other
    rw [loadRows_cons, ih (loadRow s m) other.2]
    exact AList.lookup_insert_ne other.1

theorem lookup_loadRows_mem (rows : List EntryMeta) (s : CacheState) (distinct : (rows.map EntryMeta.key).Nodup)
    (m : EntryMeta) (member : m ∈ rows) : (loadRows s rows).entries.lookup m.key = some m := by
  induction rows generalizing s with
  | nil => exact absurd member List.not_mem_nil
  | cons first rows ih =>
    obtain ⟨fresh, others⟩ := List.nodup_cons.mp distinct
    rw [loadRows_cons]
    cases List.mem_cons.mp member with
    | inl here =>
      rw [here, lookup_loadRows_other rows _ _ fresh]
      exact AList.lookup_insert s.entries
    | inr later => exact ih (loadRow s first) others later

/-- A load into an empty table holds the loaded rows and nothing else. -/
theorem lookup_loadRows (rows : List EntryMeta) (distinct : (rows.map EntryMeta.key).Nodup) (key : Text) (m : EntryMeta) :
    (loadRows ⟨∅, 0⟩ rows).entries.lookup key = some m ↔ m ∈ rows ∧ m.key = key := by
  constructor
  · intro present
    by_cases known : key ∈ rows.map EntryMeta.key
    · obtain ⟨found, member, rfl⟩ := List.mem_map.mp known
      cases (lookup_loadRows_mem rows _ distinct found member).symm.trans present
      exact ⟨member, rfl⟩
    · rw [lookup_loadRows_other rows _ key known] at present
      cases present
  · intro found
    obtain ⟨member, rfl⟩ := found
    exact lookup_loadRows_mem rows _ distinct m member

theorem loadsFresh_of_small (rows : List EntryMeta) (s : CacheState) (distinct : (rows.map EntryMeta.key).Nodup)
    (absent : ∀ m ∈ rows, s.entries.lookup m.key = none)
    (small : s.totalBytes + (rows.map EntryMeta.sizeBytes).sum < 2 ^ 64) : loadsFresh s rows = true := by
  induction rows generalizing s with
  | nil => rfl
  | cons m rows ih =>
    obtain ⟨fresh, others⟩ := List.nodup_cons.mp distinct
    rw [List.map_cons, List.sum_cons] at small
    have size : rowSize s m.key = 0 := by
      rw [rowSize, absent m List.mem_cons_self]
      rfl
    have total : (loadRow s m).totalBytes = s.totalBytes + m.sizeBytes := Nat.mod_eq_of_lt (by omega)
    rw [loadsFresh, size, decide_eq_true rfl, decide_eq_true (by omega), Bool.true_and, Bool.true_and]
    apply ih (loadRow s m) others
    · intro other later
      have differs : other.key ≠ m.key := fun same => fresh (same ▸ List.mem_map_of_mem later)
      exact (AList.lookup_insert_ne differs).trans (absent other (List.mem_cons_of_mem m later))
    · rw [total]
      omega

/-- What is loaded into an empty table is counted once. -/
theorem balanced_load (rows : List EntryMeta) (distinct : (rows.map EntryMeta.key).Nodup)
    (small : (rows.map EntryMeta.sizeBytes).sum < 2 ^ 64) : Balanced (loadRows ⟨∅, 0⟩ rows) := by
  apply balanced_loadRows rows ⟨∅, 0⟩ rfl
  exact loadsFresh_of_small rows ⟨∅, 0⟩ distinct (fun _ _ => rfl) (by rw [Nat.zero_add]; exact small)

theorem loadRows_empty (rows : List EntryMeta) (distinct : (rows.map EntryMeta.key).Nodup)
    (none : (loadRows ⟨∅, 0⟩ rows).entries.entries = []) : rows = [] := by
  apply List.eq_nil_iff_forall_not_mem.mpr
  intro m member
  have present := (lookup_loadRows rows distinct m.key m).mpr ⟨member, rfl⟩
  have inside : (⟨m.key, m⟩ : Sigma fun _ : Text => EntryMeta) ∈ (loadRows ⟨∅, 0⟩ rows).entries.entries :=
    AList.mem_lookup_iff.mp present
  rw [none] at inside
  exact absurd inside List.not_mem_nil

theorem lookup_insertRows (found : List EntryMeta) (rows : Table Text EntryMeta) (s : CacheState)
    (same : ∀ key, rows.lookup key = s.entries.lookup key) (key : Text) :
    (found.foldl (insertRow fun _ => true) rows).lookup key = (loadRows s found).entries.lookup key := by
  induction found generalizing rows s with
  | nil => exact same key
  | cons m found ih =>
    apply ih (insertRow (fun _ => true) rows m) (loadRow s m)
    intro other
    change (rows.insert m.key m).lookup other = (s.entries.insert m.key m).lookup other
    by_cases here : other = m.key
    · rw [here, AList.lookup_insert, AList.lookup_insert]
    · rw [AList.lookup_insert_ne here, AList.lookup_insert_ne here]
      exact same other

/-! The object tree. -/

/-- No name of a valid key holds a backslash. -/
def Plain (objects : Files) : Prop := ∀ key ∈ objects, '\\' ∉ key

theorem slashed_plain (path : Text) (plain : '\\' ∉ path) : slashed path = path := by
  unfold slashed
  calc path.map (fun c => if c = '\\' then '/' else c) = path.map id := by
        apply List.map_congr_left
        intro c member
        exact if_neg fun (same : c = '\\') => plain (same ▸ member)
    _ = path := List.map_id path

theorem mem_scanObjectFiles {objects : Files} (plain : Plain objects) (key : Text) (size : Nat) :
    (key, size) ∈ scanObjectFiles objects ↔
      ∃ bytes, objects.lookup key = some bytes ∧ bytes.length = size ∧ isReservedKey key = false ∧ key ≠ [] := by
  constructor
  · intro member
    obtain ⟨⟨path, bytes⟩, listed, same⟩ := List.mem_map.mp member
    obtain ⟨inside, passes⟩ := List.mem_filter.mp listed
    have present : objects.lookup path = some bytes := AList.mem_lookup_iff.mpr inside
    have here := slashed_plain path (plain path (lookup_mem objects path bytes present))
    simp only [here, Bool.and_eq_true, Bool.not_eq_true', decide_eq_true_eq] at passes same
    cases same
    exact ⟨bytes, present, rfl, passes.1, passes.2⟩
  · intro found
    obtain ⟨bytes, present, rfl, unreserved, named⟩ := found
    have here := slashed_plain key (plain key (lookup_mem objects key bytes present))
    apply List.mem_map.mpr
    refine ⟨⟨key, bytes⟩, List.mem_filter.mpr ⟨AList.mem_lookup_iff.mp present, ?_⟩, by rw [here]⟩
    rw [here, unreserved, decide_eq_true named]
    rfl

theorem scanObjectFiles_distinct {objects : Files} (plain : Plain objects) :
    ((scanObjectFiles objects).map Prod.fst).Nodup := by
  have same : (scanObjectFiles objects).map Prod.fst =
      (objects.entries.filter fun file => !isReservedKey file.1 && decide (slashed file.1 ≠ [])).map Sigma.fst := by
    rw [scanObjectFiles, List.map_map]
    apply List.map_congr_left
    intro file listed
    have present : objects.lookup file.1 = some file.2 := AList.mem_lookup_iff.mpr (List.mem_of_mem_filter listed)
    exact slashed_plain file.1 (plain file.1 (lookup_mem objects file.1 file.2 present))
  rw [same]
  exact objects.keys_nodup.sublist (List.filter_sublist.map Sigma.fst)

theorem rebuilt_keys (config : Config) (routes : RouteTable) (now : Nat) (found : List (Text × Nat)) :
    (found.map (rebuiltRow config routes now)).map EntryMeta.key = found.map Prod.fst := by
  rw [List.map_map]
  rfl

/-! What a start restores. -/

/-- The rows that the load keeps. -/
def liveRows (outcome : Outcome) (disk : Disk) : List EntryMeta :=
  (if outcome.loads then disk.rows.entries.map Sigma.snd else []).filter (survives disk.objects)

def lostKeys (outcome : Outcome) (disk : Disk) : List Text :=
  ((if outcome.loads then disk.rows.entries.map Sigma.snd else []).filter fun m => !survives disk.objects m).map
    EntryMeta.key

def rebuiltRows (config : Config) (routes : RouteTable) (now : Nat) (disk : Disk) : List EntryMeta :=
  (scanObjectFiles disk.objects).map (rebuiltRow config routes now)

section Starts
variable (config : Config) (routes : RouteTable) (decodeMeta : Bytes → Option SegMeta) (outcome : Outcome) (now : Nat)
  (disk : Disk)

theorem mem_liveRows (keyed : Keyed disk.rows) (m : EntryMeta) :
    m ∈ liveRows outcome disk ↔
      outcome.loads = true ∧ disk.rows.lookup m.key = some m ∧ survives disk.objects m = true := by
  rw [liveRows, List.mem_filter]
  cases outcome.loads with
  | true => rw [if_pos rfl, mem_rows keyed, and_iff_right rfl]
  | false => simp

theorem liveRows_distinct (keyed : Keyed disk.rows) : ((liveRows outcome disk).map EntryMeta.key).Nodup := by
  unfold liveRows
  apply List.Nodup.sublist (List.filter_sublist.map EntryMeta.key)
  cases outcome.loads with
  | true =>
    rw [if_pos rfl, keys_rows keyed]
    exact disk.rows.keys_nodup
  | false => exact List.nodup_nil

/-- The rows that are left when the rows of the lost keys are gone. -/
theorem lookup_left (keyed : Keyed disk.rows) (loads : outcome.loads = true) (key : Text) :
    (removeBatch disk.rows (lostKeys outcome disk)).lookup key =
      (loadRows ⟨∅, 0⟩ (liveRows outcome disk)).entries.lookup key := by
  have distinct := liveRows_distinct outcome disk keyed
  rw [lookup_removeBatch]
  apply Option.ext
  intro m
  rw [lookup_loadRows _ distinct, mem_liveRows outcome disk keyed]
  have lost : ∀ found, disk.rows.lookup key = some found →
      (key ∈ lostKeys outcome disk ↔ survives disk.objects found = false) := by
    intro found present
    have own := keyed key found present
    rw [lostKeys, loads, if_pos rfl, List.mem_map]
    constructor
    · intro named
      obtain ⟨other, listed, same⟩ := named
      obtain ⟨inside, failed⟩ := List.mem_filter.mp listed
      have there := (mem_rows keyed other).mp inside
      rw [same, present] at there
      cases there
      simpa using failed
    · intro failed
      refine ⟨found, List.mem_filter.mpr ⟨(mem_rows keyed found).mpr (by rw [own]; exact present), ?_⟩, own⟩
      rw [failed]
      rfl
  constructor
  · intro present
    split_ifs at present with gone
    have own := keyed key m present
    refine ⟨⟨loads, by rw [own]; exact present, ?_⟩, own⟩
    cases alive : survives disk.objects m with
    | true => rfl
    | false => exact absurd ((lost m present).mpr alive) gone
  · intro found
    obtain ⟨⟨_, present, alive⟩, rfl⟩ := found
    rw [if_neg fun gone => Bool.false_ne_true (((lost m present).mp gone).symm.trans alive)]
    exact present

/-- The two ends of a start. -/
theorem start_cases (keyed : Keyed disk.rows) :
    (liveRows outcome disk ≠ [] ∧ (start config routes decodeMeta outcome now disk).stores =
        ⟨loadRows ⟨∅, 0⟩ (liveRows outcome disk),
          commit outcome.removes disk.rows (removeBatch disk.rows (lostKeys outcome disk)), disk.objects⟩) ∨
      (liveRows outcome disk = [] ∧ (start config routes decodeMeta outcome now disk).stores =
        ⟨loadRows ⟨∅, 0⟩ (rebuiltRows config routes now disk),
          (rebuiltRows config routes now disk).foldl (insertRow outcome.inserts)
            (commit outcome.removes disk.rows (removeBatch disk.rows (lostKeys outcome disk))), disk.objects⟩) := by
  by_cases none : (loadRows ⟨∅, 0⟩ (liveRows outcome disk)).entries.entries = []
  · have empty := loadRows_empty _ (liveRows_distinct outcome disk keyed) none
    refine .inr ⟨empty, ?_⟩
    unfold start
    refine (congrArg Started.stores (if_pos none)).trans ?_
    change Stores.mk (loadRows (loadRows ⟨∅, 0⟩ (liveRows outcome disk)) _) _ _ = _
    rw [empty]
    rfl
  · refine .inl ⟨fun empty => none (by rw [empty]; rfl), ?_⟩
    unfold start
    exact congrArg Started.stores (if_neg none)

/-- The rows that were loaded, and the files where none were, stay below the word. -/
def Small : Prop :=
  ((liveRows outcome disk).map EntryMeta.sizeBytes).sum < 2 ^ 64 ∧
    ((rebuiltRows config routes now disk).map EntryMeta.sizeBytes).sum < 2 ^ 64

/-- What the start makes of a disk. -/
structure Restored (after : Started) : Prop where
  backed : ∀ key m, after.stores.cache.entries.lookup key = some m → m.key = key ∧ isReservedKey key = false ∧
    (key ∈ disk.objects ∨ isDirectory disk.objects key = true)
  kept : ∀ key m, outcome.loads = true → disk.rows.lookup key = some m → survives disk.objects m = true →
    after.stores.cache.entries.lookup key = some m
  adopted : (∀ m ∈ liveRows outcome disk, False) → ∀ key bytes, disk.objects.lookup key = some bytes →
    isReservedKey key = false → key ≠ [] →
      after.stores.cache.entries.lookup key = some (rebuiltRow config routes now (key, bytes.length))
  known : ∀ key m, after.stores.cache.entries.lookup key = some m → disk.rows.lookup key = some m ∨
    ∃ bytes, disk.objects.lookup key = some bytes ∧ m = rebuiltRow config routes now (key, bytes.length)
  balanced : Small config routes outcome now disk → Balanced after.stores.cache
  agrees : outcome.loads = true → outcome.removes = true → outcome.inserts = (fun _ => true) →
    ∀ key, after.stores.rows.lookup key = after.stores.cache.entries.lookup key
  objects : after.stores.files = disk.objects

theorem restored (keyed : Keyed disk.rows) (plain : Plain disk.objects) :
    Restored config routes outcome now disk (start config routes decodeMeta outcome now disk) := by
  have distinct := liveRows_distinct outcome disk keyed
  have fresh : ((rebuiltRows config routes now disk).map EntryMeta.key).Nodup := by
    rw [rebuiltRows, rebuilt_keys]
    exact scanObjectFiles_distinct plain
  cases start_cases config routes decodeMeta outcome now disk keyed with
  | inl loaded =>
    obtain ⟨some_, stores⟩ := loaded
    constructor
    · intro key m present
      rw [stores] at present
      obtain ⟨member, rfl⟩ := (lookup_loadRows _ distinct key m).mp present
      obtain ⟨_, _, alive⟩ := (mem_liveRows outcome disk keyed m).mp member
      rw [survives, Bool.and_eq_true, Bool.not_eq_true', Bool.or_eq_true, decide_eq_true_eq] at alive
      exact ⟨rfl, alive⟩
    · intro key m loads present alive
      have own := keyed key m present
      rw [stores]
      exact (lookup_loadRows _ distinct key m).mpr
        ⟨(mem_liveRows outcome disk keyed m).mpr ⟨loads, by rw [own]; exact present, alive⟩, own⟩
    · intro none
      exact absurd (List.eq_nil_iff_forall_not_mem.mpr none) some_
    · intro key m present
      rw [stores] at present
      obtain ⟨member, rfl⟩ := (lookup_loadRows _ distinct key m).mp present
      exact .inl ((mem_liveRows outcome disk keyed m).mp member).2.1
    · intro small
      rw [stores]
      exact balanced_load _ distinct small.1
    · intro loads removes _ key
      rw [stores, removes]
      exact lookup_left outcome disk keyed loads key
    · rw [stores]
  | inr rebuilt =>
    obtain ⟨empty, stores⟩ := rebuilt
    have found : ∀ key m, (loadRows ⟨∅, 0⟩ (rebuiltRows config routes now disk)).entries.lookup key = some m ↔
        ∃ bytes, disk.objects.lookup key = some bytes ∧ isReservedKey key = false ∧ key ≠ [] ∧
          m = rebuiltRow config routes now (key, bytes.length) := by
      intro key m
      rw [lookup_loadRows _ fresh, rebuiltRows, List.mem_map]
      constructor
      · intro present
        obtain ⟨⟨⟨path, size⟩, listed, rfl⟩, rfl⟩ := present
        obtain ⟨bytes, there, rfl, unreserved, named⟩ := (mem_scanObjectFiles plain path size).mp listed
        exact ⟨bytes, there, unreserved, named, rfl⟩
      · intro present
        obtain ⟨bytes, there, unreserved, named, rfl⟩ := present
        exact ⟨⟨(key, bytes.length), (mem_scanObjectFiles plain key _).mpr ⟨bytes, there, rfl, unreserved, named⟩, rfl⟩, rfl⟩
    constructor
    · intro key m present
      rw [stores] at present
      obtain ⟨bytes, there, unreserved, _, rfl⟩ := (found key m).mp present
      exact ⟨rfl, unreserved, .inl (lookup_mem disk.objects key bytes there)⟩
    · intro key m loads present alive
      have own := keyed key m present
      have member := (mem_liveRows outcome disk keyed m).mpr ⟨loads, by rw [own]; exact present, alive⟩
      rw [empty] at member
      exact absurd member List.not_mem_nil
    · intro _ key bytes there unreserved named
      rw [stores]
      exact (found key _).mpr ⟨bytes, there, unreserved, named, rfl⟩
    · intro key m present
      rw [stores] at present
      obtain ⟨bytes, there, _, _, same⟩ := (found key m).mp present
      exact .inr ⟨bytes, there, same⟩
    · intro small
      rw [stores]
      exact balanced_load _ fresh small.2
    · intro loads removes inserts key
      rw [stores, removes, inserts]
      apply lookup_insertRows
      intro other
      have left := lookup_left outcome disk keyed loads other
      rw [empty] at left
      exact left
    · rw [stores]

theorem cleanupTmps_free (top : Dir) (name : Text) (left : name ∈ (scanSegmentFiles decodeMeta (cleanupTmps top)).2) :
    tmpPrefix.isPrefixOf name = false := by
  obtain ⟨bytes, present⟩ := Option.isSome_iff_exists.mp (AList.lookup_isSome.mpr left)
  change (removeMeasured (cleanupTmps top) _).1.lookup name = some bytes at present
  rw [lookup_removeMeasured] at present
  split_ifs at present
  rw [cleanupTmps, lookup_removeMeasured] at present
  split_ifs at present with swept
  cases tmp : tmpPrefix.isPrefixOf name with
  | false => rfl
  | true => exact absurd (List.mem_filter.mpr ⟨AList.mem_keys.mp (lookup_mem top name bytes present), tmp⟩) swept

end Starts

/-! Runs that a crash cuts: the tasks under way are gone, and so is the memory. -/

inductive Happening
  | task (label : Agreement.Label)
  | crash (top : Dir) (now : Nat)

/-- The rows decode and every transaction commits. -/
def committed : Outcome := ⟨true, true, fun _ => true⟩

def diskOf (top : Dir) (stores : Stores) : Disk := ⟨top, stores.files, stores.rows⟩

section Crashes
variable (config : Config) (routes : RouteTable) (decodeMeta : Bytes → Option SegMeta)

def restart (s : Agreement.System) (top : Dir) (now : Nat) : Agreement.System :=
  ⟨(start config routes decodeMeta committed now (diskOf top s.stores)).stores, ∅⟩

def crashStep (s : Agreement.System) : Happening → Option Agreement.System
  | .task label => Agreement.step config s label
  | .crash top now => some (restart config routes decodeMeta s top now)

/-- Names are those of valid keys, and no row names a directory. -/
def tidy (stores : Stores) : Bool :=
  stores.files.keys.all (fun key => decide ('\\' ∉ key)) && stores.rows.keys.all fun key => !isDirectory stores.files key

def permitted (s : Agreement.System) : Happening → Bool
  | .task label => decide (Agreement.allowed s label)
  | .crash _ _ => tidy s.stores

def crashing : Machine Agreement.System Happening :=
  ⟨fun s => s.tasks = ∅ ∧ Agree s.stores ∧ Keyed s.stores.rows, crashStep config routes decodeMeta⟩

variable {config routes decodeMeta} {s : Agreement.System}

theorem keyed_taskStep {stores after : Stores} {own next : Option Task} (move : Move) (keyed : Keyed stores.rows)
    (steps : taskStep config stores own move = some (after, next)) : Keyed after.rows := by
  cases move with
  | rename target upstreamId objectMeta oversize bytes =>
    simp only [taskStep] at steps
    split_ifs at steps
    cases steps
    exact keyed
  | readRow now =>
    simp only [taskStep] at steps
    split at steps <;> cases steps
    exact keyed
  | persist ok =>
    simp only [taskStep] at steps
    split at steps <;> cases steps
    exact keyed_commit ok keyed (keyed_insert keyed _)
  | write spared =>
    simp only [taskStep] at steps
    split at steps <;> cases steps
    exact keyed
  | evictBudget spared =>
    simp only [taskStep] at steps
    split_ifs at steps
    cases steps
    exact keyed
  | reap ttl now spared =>
    simp only [taskStep] at steps
    split_ifs at steps
    cases steps
    exact keyed
  | reclaimStrays needBytes =>
    simp only [taskStep] at steps
    split_ifs at steps
    cases steps
    exact keyed
  | removeRows ok =>
    simp only [taskStep] at steps
    split at steps <;> cases steps
    exact keyed_commit ok keyed (keyed_removeBatch keyed _)
  | unlink gone =>
    simp only [taskStep] at steps
    split at steps <;> cases steps
    exact keyed
  | persistNegative target upstreamId now ok =>
    simp only [taskStep] at steps
    split_ifs at steps
    cases steps
    exact keyed_commit ok keyed (keyed_insert keyed _)
  | writeNegative =>
    simp only [taskStep] at steps
    split at steps <;> cases steps
    exact keyed
  | flushAccess target now =>
    cases steps
    exact keyed
  | bumpAccess target now ok =>
    cases steps
    apply keyed_commit ok keyed
    unfold bumpLastAccess
    cases found : stores.rows.lookup target with
    | none => exact keyed
    | some m =>
      simp only
      split_ifs
      · have own := keyed target m found
        rw [← own]
        exact keyed_insert keyed { m with lastAccessMillis := now }
      · exact keyed
  | rehash order =>
    simp only [taskStep] at steps
    split_ifs at steps
    cases steps
    exact keyed

theorem steady_agrees (steady : Steady s) (quiet : s.tasks = ∅) : Agree s.stores := by
  unfold Steady at steady
  rw [quiet] at steady
  have idle (role : Role) (key : Text) : busy ∅ none key role = false := rfl
  constructor
  · intro key
    obtain ⟨rows, entries, files⟩ := steady key
    simp only [idle, Bool.false_eq_true, or_false] at rows entries
    exact ⟨rows, entries⟩
  · intro key live
    have files := (steady key).files
    simp only [idle, Bool.false_eq_true, or_false] at files
    exact files live

theorem agrees_steady (quiet : s.tasks = ∅) (agree : Agree s.stores) : Steady s := by
  intro key
  rw [quiet]
  constructor
  · intro live
    cases live with
    | inl entry => exact .inl ((agree.rows key).mp entry)
    | inr task => cases task
  · intro row
    exact .inl ((agree.rows key).mpr row)
  · intro live
    cases live with
    | inl entry => exact .inl (agree.files key entry)
    | inr task => cases task

theorem positive_iff (table : Table Text EntryMeta) (key : Text) :
    positive table key = true ↔ ∃ m, table.lookup key = some m ∧ m.negativeUntilMillis = none := by
  rw [positive, Option.any_eq_true]
  constructor
  · intro found
    obtain ⟨m, present, live⟩ := found
    exact ⟨m, present, Option.isNone_iff_eq_none.mp live⟩
  · intro found
    obtain ⟨m, present, live⟩ := found
    exact ⟨m, present, Option.isNone_iff_eq_none.mpr live⟩

theorem plain_of_tidy {stores : Stores} (tidied : tidy stores = true) : Plain stores.files := by
  intro key member
  exact of_decide_eq_true (List.all_eq_true.mp (Bool.and_eq_true_iff.mp tidied).1 key (AList.mem_keys.mp member))

/-- A restart leaves nothing under way, and the three stores agree. -/
theorem restart_agrees (keyed : Keyed s.stores.rows) (tidied : tidy s.stores = true) (top : Dir) (now : Nat) :
    Agree (restart config routes decodeMeta s top now).stores ∧
      Keyed (restart config routes decodeMeta s top now).stores.rows := by
  have after := restored config routes decodeMeta committed now (diskOf top s.stores) keyed (plain_of_tidy tidied)
  have same := after.agrees rfl rfl rfl
  refine ⟨⟨?_, ?_⟩, ?_⟩
  · intro key
    change positive (start config routes decodeMeta committed now (diskOf top s.stores)).stores.cache.entries key = true ↔
      positive (start config routes decodeMeta committed now (diskOf top s.stores)).stores.rows key = true
    rw [positive, positive, same key]
  · intro key live
    obtain ⟨m, present, _⟩ := (positive_iff _ key).mp live
    change key ∈ (start config routes decodeMeta committed now (diskOf top s.stores)).stores.files
    rw [after.objects]
    cases after.known key m present with
    | inr rebuilt =>
      obtain ⟨bytes, there, _⟩ := rebuilt
      exact lookup_mem _ key bytes there
    | inl row =>
      obtain ⟨_, _, path⟩ := after.backed key m present
      have bare : isDirectory s.stores.files key = false := by
        have every := List.all_eq_true.mp (Bool.and_eq_true_iff.mp tidied).2 key (AList.mem_keys.mp (lookup_mem _ key m row))
        simpa using every
      exact path.resolve_right fun directory => Bool.false_ne_true (bare.symm.trans directory)
  · intro key m present
    exact (after.backed key m ((same key).symm.trans present)).1

/-- The invariant of the runs that a crash may cut. -/
theorem steady_crashing (reached : Reaches (crashing config routes decodeMeta) (fun s label => permitted s label = true) s) :
    Steady s ∧ Keyed s.stores.rows := by
  apply reached.invariant
  · intro state begins
    exact ⟨agrees_steady begins.1 begins.2.1, begins.2.2⟩
  · intro state label after held permits steps
    obtain ⟨steady, keyed⟩ := held
    cases label with
    | task label =>
      refine ⟨steady_step config state after label steady (of_decide_eq_true permits) steps, ?_⟩
      obtain ⟨⟨stores, next⟩, moved, rfl⟩ := Option.map_eq_some_iff.mp steps
      exact keyed_taskStep label.move keyed moved
    | crash top now =>
      cases steps
      obtain ⟨agree, rows⟩ := restart_agrees keyed permits top now
      exact ⟨agrees_steady rfl agree, rows⟩

end Crashes

/-! A pull that is through, and one that the crash cuts between its file and its row. -/

def cut : List Happening :=
  (pull 0 5).map .task ++ [.task ⟨1, .rename ['b'] ['p'] ⟨1, none, none, none⟩ false [8]⟩, .task ⟨1, .readRow 6⟩]

def noMeta : Bytes → Option SegMeta := fun _ => none

/-- A row whose file is gone, and a file without a row. -/
def torn : Disk where
  top := ∅
  objects := AList.insert ['b'] [8] ∅
  rows := AList.insert ['a'] (tombstone ⟨1, 1, 1, 1⟩ ['a'] ['p'] 0) ∅

end OriginCache.Cache.Startup
