import Mathlib.Data.List.Sort
import OriginCache.Foundation.Runs
import OriginCache.Foundation.Tables
import OriginCache.Cache.Meta

/-! The table of cached entries and the running total of their sizes. Every
operation is split at the locks it takes: an install reads the old size under one
guard and writes under a later one. -/

namespace OriginCache.Cache.Magazine
open Foundation.Tables Foundation.Runs SegName Meta

structure Config where
  maxSizeBytes : Nat
  maxEntries : Nat
  inactiveTtlSecs : Nat
  negativeTtlSecs : Nat
deriving DecidableEq, Repr

structure CacheState where
  entries : Table Text EntryMeta
  totalBytes : Nat

/-- The bytes of a key's row, none for an absent row. -/
def rowSize (s : CacheState) (key : Text) : Nat := ((s.entries.lookup key).map EntryMeta.sizeBytes).getD 0

/-- `u64` addition of a build without overflow checks. -/
def wrappingAdd (a b : Nat) : Nat := (a + b) % 2 ^ 64

def straysBytes (s : CacheState) : Nat :=
  ((s.entries.entries.filter fun entry => entry.2.oversize).map fun entry => entry.2.sizeBytes).sum

def residentBytes (s : CacheState) : Nat := s.totalBytes - straysBytes s

def removeRow (s : CacheState) (key : Text) (m : EntryMeta) : CacheState :=
  ⟨s.entries.erase key, s.totalBytes - m.sizeBytes⟩

/-- Take rows in order until both overshoots are covered. -/
def takeRows (bytesOver rowsOver freed : Nat) (s : CacheState) (out : List (Text × Nat)) :
    List Text → CacheState × List (Text × Nat)
  | [] => (s, out)
  | key :: rest =>
      if bytesOver ≤ freed ∧ rowsOver ≤ out.length then (s, out)
      else
        match s.entries.lookup key with
        | some m =>
            takeRows bytesOver rowsOver (freed + m.sizeBytes) (removeRow s key m)
              (out ++ [(key, m.sizeBytes)]) rest
        | none => takeRows bytesOver rowsOver freed s out rest

/-- The keys of the rows that pass a test, oldest first. -/
def oldestFirst (s : CacheState) (config : Config) (test : Text → EntryMeta → Bool) : List Text :=
  (((s.entries.entries.filter fun entry => test entry.1 entry.2).map fun entry =>
    (entry.2.eligibleAt config.inactiveTtlSecs, entry.1)).insertionSort fun a b => a.1 ≤ b.1).map
      Prod.snd

def evictPick (s : CacheState) (config : Config) (spared : List Text) :
    CacheState × List (Text × Nat) :=
  let resident := residentBytes s
  let overBytes := config.maxSizeBytes < resident
  let overEntries := 0 < config.maxEntries ∧ config.maxEntries < s.entries.entries.length
  if ¬ overBytes ∧ ¬ overEntries then (s, [])
  else
    let bytesOver := resident - config.maxSizeBytes
    let entriesOver := if overEntries then s.entries.entries.length - config.maxEntries else 0
    takeRows bytesOver entriesOver 0 s []
      (oldestFirst s config fun key m => m.negativeUntilMillis.isNone && !m.oversize && key ∉ spared)

def pickStraysForPressure (s : CacheState) (config : Config) (needBytes : Nat) :
    CacheState × List (Text × Nat) :=
  if needBytes = 0 then (s, [])
  else takeRows needBytes 0 0 s [] (oldestFirst s config fun _ m => m.oversize)

def expired (ttl now : Nat) (spared : List Text) (key : Text) (m : EntryMeta) : Bool :=
  (match m.negativeUntilMillis with
    | none => decide (ttl ≤ now - m.lastAccessMillis)
    | some deadline => decide (deadline ≤ now)) &&
  (m.negativeUntilMillis.isSome || key ∉ spared)

def removeAll (s : CacheState) (out : List (Text × Nat)) : List Text → CacheState × List (Text × Nat)
  | [] => (s, out)
  | key :: rest =>
      match s.entries.lookup key with
      | some m => removeAll (removeRow s key m) (out ++ [(key, m.sizeBytes)]) rest
      | none => removeAll s out rest

def reapCollect (s : CacheState) (ttl now : Nat) (spared : List Text) :
    CacheState × List (Text × Nat) :=
  removeAll s [] ((s.entries.entries.filter fun entry => expired ttl now spared entry.1 entry.2).map
    Sigma.fst)

/-- What an install reads under its first guard. -/
structure Installing where
  oldSize : Nat
  entry : EntryMeta
deriving DecidableEq, Repr

def readInstall (s : CacheState) (key upstreamId : Text) (meta_ : ObjectMeta) (now : Nat)
    (oversize : Bool) : Installing :=
  ⟨rowSize s key,
    { version := 1
      upstreamId := upstreamId
      key := key
      sizeBytes := meta_.sizeBytes
      etag := meta_.etag
      lastModified := meta_.lastModified
      contentType := meta_.mimeHint
      createdAtMillis := ((s.entries.lookup key).map EntryMeta.createdAtMillis).getD now
      lastAccessMillis := now
      lastRevalidatedMillis := some now
      negativeUntilMillis := none
      oversize := oversize }⟩

/-- What it writes under the second, before the eviction the write may cause. -/
def writeInstall (s : CacheState) (pending : Installing) : CacheState :=
  ⟨s.entries.insert pending.entry.key pending.entry,
    wrappingAdd (s.totalBytes - pending.oldSize) pending.entry.sizeBytes⟩

def tombstone (config : Config) (key upstreamId : Text) (now : Nat) : EntryMeta :=
  { version := 1
    upstreamId := upstreamId
    key := key
    sizeBytes := 0
    etag := none
    lastModified := none
    contentType := none
    createdAtMillis := now
    lastAccessMillis := now
    lastRevalidatedMillis := none
    negativeUntilMillis := some (now + config.negativeTtlSecs * 1000)
    oversize := false }

def installNegative (s : CacheState) (config : Config) (key upstreamId : Text) (now : Nat) :
    CacheState :=
  ⟨s.entries.insert key (tombstone config key upstreamId now), s.totalBytes⟩

/-- The loop of the startup load and of the rebuild. -/
def loadRow (s : CacheState) (m : EntryMeta) : CacheState :=
  ⟨s.entries.insert m.key m, wrappingAdd s.totalBytes m.sizeBytes⟩

def loadRows (s : CacheState) (rows : List EntryMeta) : CacheState := rows.foldl loadRow s

/-- The flusher folds an access stamp into a row that is still there. -/
def stampAccess (s : CacheState) (key : Text) (now : Nat) : CacheState :=
  match s.entries.lookup key with
  | some m => { s with entries := s.entries.insert key { m with lastAccessMillis := now } }
  | none => s

/-! The system: the table, and the installs between their two guards. -/

structure System where
  cache : CacheState
  installs : Table Nat Installing

inductive Label
  | beginInstall (task : Nat) (key upstreamId : Text) (objectMeta : ObjectMeta) (now : Nat)
      (oversize : Bool)
  | finishInstall (task : Nat) (spared : List Text)
  | installNegative (key upstreamId : Text) (now : Nat)
  | evictBudget (spared : List Text)
  | reap (ttl now : Nat) (spared : List Text)
  | reclaimStrays (needBytes : Nat)
  | rebuild (rows : List EntryMeta)
  | load (rows : List EntryMeta)
  | flushAccess (key : Text) (now : Nat)
  | rehash (order : Table Text EntryMeta)

def step (config : Config) (s : System) : Label → Option System
  | .beginInstall task key upstreamId objectMeta now oversize =>
      if task ∈ s.installs then none
      else
        some { s with
          installs := s.installs.insert task (readInstall s.cache key upstreamId objectMeta now oversize) }
  | .finishInstall task spared =>
      match s.installs.lookup task with
      | some pending =>
          some ⟨(evictPick (writeInstall s.cache pending) config spared).1, s.installs.erase task⟩
      | none => none
  | .installNegative key upstreamId now =>
      some { s with cache := installNegative s.cache config key upstreamId now }
  | .evictBudget spared => some { s with cache := (evictPick s.cache config spared).1 }
  | .reap ttl now spared => some { s with cache := (reapCollect s.cache ttl now spared).1 }
  | .reclaimStrays needBytes =>
      some { s with cache := (pickStraysForPressure s.cache config needBytes).1 }
  | .rebuild rows => some { s with cache := loadRows s.cache rows }
  | .load rows => some { s with cache := loadRows s.cache rows }
  | .flushAccess key now => some { s with cache := stampAccess s.cache key now }
  | .rehash order =>
      if order.entries.Perm s.cache.entries.entries then
        some { s with cache := { s.cache with entries := order } }
      else none

def empty : System := ⟨⟨∅, 0⟩, ∅⟩

def machine (config : Config) : Machine System Label := ⟨fun s => s = empty, step config⟩

/-- Each row that is loaded replaces none that counts, and the total has room. -/
def loadsFresh (s : CacheState) : List EntryMeta → Bool
  | [] => true
  | m :: rest =>
      rowSize s m.key = 0 && decide (s.totalBytes + m.sizeBytes < 2 ^ 64) && loadsFresh (loadRow s m) rest

/-- A write gives up what the row it replaces holds now. -/
def replacesCounted (s : System) : Label → Bool
  | .finishInstall task _ =>
      (s.installs.lookup task).all fun pending =>
        s.cache.totalBytes - pending.oldSize = s.cache.totalBytes - rowSize s.cache pending.entry.key &&
          decide (s.cache.totalBytes - pending.oldSize + pending.entry.sizeBytes < 2 ^ 64)
  | .installNegative key _ _ => rowSize s.cache key = 0
  | .rebuild rows => loadsFresh s.cache rows
  | .load rows => loadsFresh s.cache rows
  | _ => true

def tableBytes (s : CacheState) : Nat := weigh (fun _ m => m.sizeBytes) s.entries

/-- The total is the sum of the sizes of the rows. -/
def Balanced (s : CacheState) : Prop := s.totalBytes = tableBytes s

theorem tableBytes_insert (s : CacheState) (key : Text) (m : EntryMeta) :
    weigh (fun _ m => m.sizeBytes) (s.entries.insert key m) + rowSize s key =
      tableBytes s + m.sizeBytes := by
  unfold tableBytes rowSize
  cases found : s.entries.lookup key with
  | none =>
    rw [weigh_insert_absent _ s.entries key m (AList.lookup_eq_none.mp found)]
    simp only [Option.map_none, Option.getD_none]
    omega
  | some old =>
    have swap := weigh_insert (fun _ m => m.sizeBytes) s.entries key m old found
    simpa only [Option.map_some, Option.getD_some] using swap

theorem rowSize_le (s : CacheState) (key : Text) : rowSize s key ≤ tableBytes s := by
  unfold rowSize tableBytes
  cases found : s.entries.lookup key with
  | none => exact Nat.zero_le _
  | some m => exact weight_le_weigh (fun _ m => m.sizeBytes) s.entries key m found

theorem balanced_removeRow (s : CacheState) (key : Text) (m : EntryMeta)
    (found : s.entries.lookup key = some m) (balanced : Balanced s) : Balanced (removeRow s key m) := by
  have split : tableBytes s = m.sizeBytes + tableBytes (removeRow s key m) :=
    weigh_erase (fun (_ : Text) (m : EntryMeta) => m.sizeBytes) s.entries key m found
  unfold Balanced at balanced ⊢
  have total : (removeRow s key m).totalBytes = s.totalBytes - m.sizeBytes := rfl
  omega

theorem balanced_takeRows (bytesOver rowsOver : Nat) (keys : List Text) (freed : Nat) (s : CacheState)
    (out : List (Text × Nat)) (balanced : Balanced s) :
    Balanced (takeRows bytesOver rowsOver freed s out keys).1 := by
  induction keys generalizing freed s out with
  | nil => exact balanced
  | cons key rest ih =>
    rw [takeRows]
    split_ifs
    · exact balanced
    · cases found : s.entries.lookup key with
      | none => exact ih freed s out balanced
      | some m => exact ih _ _ _ (balanced_removeRow s key m found balanced)

theorem balanced_removeAll (keys : List Text) (s : CacheState) (out : List (Text × Nat))
    (balanced : Balanced s) : Balanced (removeAll s out keys).1 := by
  induction keys generalizing s out with
  | nil => exact balanced
  | cons key rest ih =>
    rw [removeAll]
    cases found : s.entries.lookup key with
    | none => exact ih s out balanced
    | some m => exact ih _ _ (balanced_removeRow s key m found balanced)

theorem balanced_evictPick (s : CacheState) (config : Config) (spared : List Text)
    (balanced : Balanced s) : Balanced (evictPick s config spared).1 := by
  unfold evictPick
  simp only
  split_ifs
  · exact balanced
  all_goals exact balanced_takeRows _ _ _ _ s [] balanced

theorem balanced_pickStrays (s : CacheState) (config : Config) (needBytes : Nat)
    (balanced : Balanced s) : Balanced (pickStraysForPressure s config needBytes).1 := by
  unfold pickStraysForPressure
  split_ifs
  · exact balanced
  · exact balanced_takeRows _ _ _ _ s [] balanced

/-- Sweeps remove rows and write none. -/
def Fewer (before after : CacheState) : Prop :=
  ∀ key m, after.entries.lookup key = some m → before.entries.lookup key = some m

theorem fewer_removeRow (s : CacheState) (key : Text) (m : EntryMeta) : Fewer s (removeRow s key m) :=
  fun other m' found => (lookup_erase_some s.entries key other m' found).2

theorem fewer_takeRows (bytesOver rowsOver : Nat) (keys : List Text) (freed : Nat) (s : CacheState)
    (out : List (Text × Nat)) : Fewer s (takeRows bytesOver rowsOver freed s out keys).1 := by
  induction keys generalizing freed s out with
  | nil => exact fun _ _ found => found
  | cons key rest ih =>
    rw [takeRows]
    split_ifs
    · exact fun _ _ found => found
    · cases s.entries.lookup key with
      | none => exact ih freed s out
      | some m => exact fun other m' found =>
          fewer_removeRow s key m other m' (ih _ _ _ other m' found)

theorem fewer_removeAll (keys : List Text) (s : CacheState) (out : List (Text × Nat)) :
    Fewer s (removeAll s out keys).1 := by
  induction keys generalizing s out with
  | nil => exact fun _ _ found => found
  | cons key rest ih =>
    rw [removeAll]
    cases s.entries.lookup key with
    | none => exact ih s out
    | some m => exact fun other m' found => fewer_removeRow s key m other m' (ih _ _ other m' found)

theorem fewer_evictPick (s : CacheState) (config : Config) (spared : List Text) :
    Fewer s (evictPick s config spared).1 := by
  unfold evictPick
  simp only
  split_ifs
  · exact fun _ _ found => found
  all_goals exact fewer_takeRows _ _ _ _ s []

theorem fewer_pickStrays (s : CacheState) (config : Config) (needBytes : Nat) :
    Fewer s (pickStraysForPressure s config needBytes).1 := by
  unfold pickStraysForPressure
  split_ifs
  · exact fun _ _ found => found
  · exact fewer_takeRows _ _ _ _ s []

/-- An install keeps the balance when it gives up what the row holds now. -/
theorem balanced_writeInstall (s : CacheState) (pending : Installing) (balanced : Balanced s)
    (current : s.totalBytes - pending.oldSize = s.totalBytes - rowSize s pending.entry.key)
    (room : s.totalBytes - pending.oldSize + pending.entry.sizeBytes < 2 ^ 64) :
    Balanced (writeInstall s pending) := by
  have swap := tableBytes_insert s pending.entry.key pending.entry
  have within := rowSize_le s pending.entry.key
  unfold Balanced at balanced ⊢
  have total : (writeInstall s pending).totalBytes =
      s.totalBytes - rowSize s pending.entry.key + pending.entry.sizeBytes := by
    rw [writeInstall, wrappingAdd, Nat.mod_eq_of_lt room, current]
  have sum : tableBytes (writeInstall s pending) =
      weigh (fun _ m => m.sizeBytes) (s.entries.insert pending.entry.key pending.entry) := rfl
  omega

theorem balanced_installNegative (s : CacheState) (config : Config) (key upstreamId : Text) (now : Nat)
    (balanced : Balanced s) (none_ : rowSize s key = 0) :
    Balanced (installNegative s config key upstreamId now) := by
  have swap := tableBytes_insert s key (tombstone config key upstreamId now)
  have size : (tombstone config key upstreamId now).sizeBytes = 0 := rfl
  unfold Balanced at balanced ⊢
  change s.totalBytes = weigh (fun _ m => m.sizeBytes)
    (s.entries.insert key (tombstone config key upstreamId now))
  omega

theorem balanced_loadRows (rows : List EntryMeta) (s : CacheState) (balanced : Balanced s)
    (fresh : loadsFresh s rows = true) : Balanced (loadRows s rows) := by
  induction rows generalizing s with
  | nil => exact balanced
  | cons m rest ih =>
    simp only [loadsFresh, Bool.and_eq_true, decide_eq_true_eq] at fresh
    obtain ⟨⟨none_, room⟩, later⟩ := fresh
    apply ih (loadRow s m) _ later
    have swap := tableBytes_insert s m.key m
    unfold Balanced at balanced ⊢
    have total : (loadRow s m).totalBytes = s.totalBytes + m.sizeBytes := by
      rw [loadRow, wrappingAdd, Nat.mod_eq_of_lt room]
    have sum : tableBytes (loadRow s m) =
        weigh (fun _ m => m.sizeBytes) (s.entries.insert m.key m) := rfl
    omega

theorem balanced_stampAccess (s : CacheState) (key : Text) (now : Nat) (balanced : Balanced s) :
    Balanced (stampAccess s key now) := by
  unfold stampAccess
  cases found : s.entries.lookup key with
  | none => exact balanced
  | some m =>
    have swap := weigh_insert (fun _ m => m.sizeBytes) s.entries key
      { m with lastAccessMillis := now } m found
    unfold Balanced tableBytes at balanced ⊢
    simp only at swap ⊢
    omega

/-- In every run whose writes give up what the rows they replace hold, the total is
the sum of the sizes in every state reached. -/
theorem total_balanced (config : Config) (s : System)
    (reached : Reaches (machine config) (fun s label => replacesCounted s label = true) s) :
    Balanced s.cache := by
  apply reached.invariant fun s => Balanced s.cache
  · intro state begins
    rw [show state = empty from begins]
    rfl
  · intro state label after balanced counted steps
    cases label with
    | beginInstall task key upstreamId objectMeta now oversize =>
      simp only [machine, step] at steps
      split_ifs at steps
      cases steps
      exact balanced
    | finishInstall task spared =>
      simp only [machine, step] at steps
      cases found : state.installs.lookup task with
      | none =>
        rw [found] at steps
        cases steps
      | some pending =>
        rw [found] at steps
        cases steps
        simp only [replacesCounted, found, Option.all_some, Bool.and_eq_true,
          decide_eq_true_eq] at counted
        exact balanced_evictPick _ config spared
          (balanced_writeInstall state.cache pending balanced counted.1 counted.2)
    | installNegative key upstreamId now =>
      cases steps
      simp only [replacesCounted, decide_eq_true_eq] at counted
      exact balanced_installNegative state.cache config key upstreamId now balanced counted
    | evictBudget spared =>
      cases steps
      exact balanced_evictPick state.cache config spared balanced
    | reap ttl now spared =>
      cases steps
      exact balanced_removeAll _ state.cache [] balanced
    | reclaimStrays needBytes =>
      cases steps
      exact balanced_pickStrays state.cache config needBytes balanced
    | rebuild rows =>
      cases steps
      exact balanced_loadRows rows state.cache balanced counted
    | load rows =>
      cases steps
      exact balanced_loadRows rows state.cache balanced counted
    | flushAccess key now =>
      cases steps
      exact balanced_stampAccess state.cache key now balanced
    | rehash order =>
      simp only [machine, step] at steps
      split_ifs at steps with same
      cases steps
      unfold Balanced tableBytes weigh at balanced ⊢
      rw [balanced]
      exact ((same.map _).sum_eq).symm

def small : Config := ⟨100, 10, 1200, 30⟩

def pull : List Label :=
  [.beginInstall 0 ['a'] ['p'] ⟨10, none, none, none⟩ 5 false, .finishInstall 0 []]

theorem pull_balanced :
    ∃ s, Reaches (machine small) (fun s label => replacesCounted s label = true) s ∧
      s.cache.totalBytes = 10 ∧ Balanced s.cache := by
  obtain ⟨s, reached, test⟩ := exists_reached (machine small)
    (fun s label => replacesCounted s label = true) pull rfl
    (fun s => s.cache.totalBytes = 10) (by decide)
  exact ⟨s, reached, of_decide_eq_true test, total_balanced small s reached⟩

/-- A tombstone over a pulled row gives up none of the bytes the row was counted for. -/
theorem tombstone_drifts :
    ∃ s, Reaches (machine small) (fun _ _ => True) s ∧ s.cache.totalBytes = 10 ∧
      tableBytes s.cache = 0 ∧ ¬ Balanced s.cache := by
  obtain ⟨s, reached, test⟩ := exists_reached (machine small)
    (fun _ _ => True) (pull ++ [.installNegative ['a'] ['p'] 6]) rfl
    (fun s => s.cache.totalBytes = 10 && tableBytes s.cache = 0) (by decide)
  simp only [Bool.and_eq_true, decide_eq_true_eq] at test
  refine ⟨s, reached, test.1, test.2, fun balanced => ?_⟩
  unfold Balanced at balanced
  omega

end OriginCache.Cache.Magazine
