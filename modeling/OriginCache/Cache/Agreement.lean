import OriginCache.Cache.DiskHit

/-! The three stores of an object: its entry in memory, its row in redb and its file.
Installs write file, row and entry; deletions take entry, row and file; and each of
these is a step of its own. -/

namespace OriginCache.Cache.Agreement
open Foundation.Tables Foundation.Runs SegName Meta Magazine
open Store (Bytes)
open DiskHit (Files isMetaStorePath remove)

structure Stores where
  cache : CacheState
  rows : Table Text EntryMeta
  files : Files

/-- An install never writes a tombstone. -/
abbrev Pending := { pending : Installing // pending.entry.negativeUntilMillis = none }

abbrev Tombstone := { row : EntryMeta // row.negativeUntilMillis ≠ none }

def Pending.key (pending : Pending) : Text := pending.1.entry.key

/-- What is under way between two of its steps. -/
inductive Task
  | renamed (key upstreamId : Text) (objectMeta : ObjectMeta) (oversize : Bool)
  | installing (pending : Pending)
  | persisted (pending : Pending)
  | removing (victims : List (Text × Nat))
  | unlinking (victims : List (Text × Nat))
  | buried (row : Tombstone)
deriving DecidableEq, Repr

inductive Move
  | rename (key upstreamId : Text) (objectMeta : ObjectMeta) (oversize : Bool) (bytes : Bytes)
  | readRow (now : Nat)
  | persist (ok : Bool)
  | write (spared : List Text)
  | evictBudget (spared : List Text)
  | reap (ttl now : Nat) (spared : List Text)
  | reclaimStrays (needBytes : Nat)
  | removeRows (ok : Bool)
  | unlink (gone : Bool)
  | persistNegative (key upstreamId : Text) (now : Nat) (ok : Bool)
  | writeNegative
  | flushAccess (key : Text) (now : Nat)
  | bumpAccess (key : Text) (now : Nat) (ok : Bool)
  | rehash (order : Table Text EntryMeta)

def keysOf (victims : List (Text × Nat)) : List Text := victims.map Prod.fst

/-- One transaction of redb, which may fail as a whole. -/
def commit (ok : Bool) (rows after : Table Text EntryMeta) : Table Text EntryMeta := if ok then after else rows

def removeBatch (rows : Table Text EntryMeta) (keys : List Text) : Table Text EntryMeta :=
  keys.foldl (fun rows key => rows.erase key) rows

/-- Rewrites the row of an entry that is still there. -/
def bumpLastAccess (rows : Table Text EntryMeta) (key : Text) (now : Nat) : Table Text EntryMeta :=
  match rows.lookup key with
  | some m => if m.lastAccessMillis ≠ now then rows.insert key { m with lastAccessMillis := now } else rows
  | none => rows

/-- A deletion without victims has nothing to do. -/
def delete (victims : List (Text × Nat)) : Option Task := if victims = [] then none else some (.removing victims)

/-- The deletion goes on with the files of the other victims. -/
def unlinkRest (victims : List (Text × Nat)) : Option Task := if victims = [] then none else some (.unlinking victims)

/-- One step of a task; a task that has not begun, or has ended, is `none`. -/
def taskStep (config : Config) (stores : Stores) (own : Option Task) : Move → Option (Stores × Option Task)
  | .rename key upstreamId objectMeta oversize bytes =>
      if own = none ∧ isMetaStorePath key = false then
        some ({ stores with files := stores.files.insert key bytes }, some (.renamed key upstreamId objectMeta oversize))
      else none
  | .readRow now =>
      match own with
      | some (.renamed key upstreamId objectMeta oversize) =>
          some (stores, some (.installing ⟨readInstall stores.cache key upstreamId objectMeta now oversize, rfl⟩))
      | _ => none
  | .persist ok =>
      match own with
      | some (.installing pending) =>
          some ({ stores with rows := commit ok stores.rows (stores.rows.insert pending.key pending.1.entry) },
            some (.persisted pending))
      | _ => none
  | .write spared =>
      match own with
      | some (.persisted pending) =>
          let picked := evictPick (writeInstall stores.cache pending.1) config spared
          some ({ stores with cache := picked.1 }, delete picked.2)
      | _ => none
  | .evictBudget spared =>
      if own = none then
        let picked := evictPick stores.cache config spared
        some ({ stores with cache := picked.1 }, delete picked.2)
      else none
  | .reap ttl now spared =>
      if own = none then
        let picked := reapCollect stores.cache ttl now spared
        some ({ stores with cache := picked.1 }, delete picked.2)
      else none
  | .reclaimStrays needBytes =>
      if own = none then
        let picked := pickStraysForPressure stores.cache config needBytes
        some ({ stores with cache := picked.1 }, delete picked.2)
      else none
  | .removeRows ok =>
      match own with
      | some (.removing victims) =>
          some ({ stores with rows := commit ok stores.rows (removeBatch stores.rows (keysOf victims)) },
            some (.unlinking victims))
      | _ => none
  | .unlink gone =>
      match own with
      | some (.unlinking (victim :: rest)) =>
          some ({ stores with files := if gone then remove stores.files victim.1 else stores.files }, unlinkRest rest)
      | _ => none
  | .persistNegative key upstreamId now ok =>
      if own = none then
        let row := tombstone config key upstreamId now
        some ({ stores with rows := commit ok stores.rows (stores.rows.insert row.key row) },
          some (.buried ⟨row, Option.some_ne_none _⟩))
      else none
  | .writeNegative =>
      match own with
      | some (.buried row) =>
          some ({ stores with cache := ⟨stores.cache.entries.insert row.1.key row.1, stores.cache.totalBytes⟩ }, none)
      | _ => none
  | .flushAccess key now => some ({ stores with cache := stampAccess stores.cache key now }, own)
  | .bumpAccess key now ok =>
      some ({ stores with rows := commit ok stores.rows (bumpLastAccess stores.rows key now) }, own)
  | .rehash order =>
      if order.entries.Perm stores.cache.entries.entries then
        some ({ stores with cache := { stores.cache with entries := order } }, own)
      else none

structure System where
  stores : Stores
  tasks : Table Nat Task

structure Label where
  task : Nat
  move : Move

def step (config : Config) (s : System) (label : Label) : Option System :=
  (taskStep config s.stores (s.tasks.lookup label.task) label.move).map fun done =>
    ⟨done.1, replace s.tasks label.task done.2⟩

/-! What agreement asks, and what the tasks still owe. -/

/-- An entry that is not a tombstone. -/
def positive (table : Table Text EntryMeta) (key : Text) : Bool :=
  (table.lookup key).any fun m => m.negativeUntilMillis.isNone

structure Agree (stores : Stores) : Prop where
  rows : ∀ key, positive stores.cache.entries key = true ↔ positive stores.rows key = true
  files : ∀ key, positive stores.cache.entries key = true → key ∈ stores.files

def machine (config : Config) : Machine System Label :=
  ⟨fun s => s.tasks = ∅ ∧ Agree s.stores, step config⟩

/-- What a task means to a key: a pull past its row or past its file, a deletion before its
rows or before its file, a tombstone between redb and memory. -/
inductive Role
  | installs | pulls | removes | deletes | buries
deriving DecidableEq, Repr

def Task.plays (role : Role) (key : Text) (task : Task) : Bool :=
  match role, task with
  | .installs, .persisted pending => pending.key = key
  | .pulls, .renamed other _ _ _ => other = key
  | .pulls, .installing pending => pending.key = key
  | .pulls, .persisted pending => pending.key = key
  | .removes, .removing victims => key ∈ keysOf victims
  | .deletes, .removing victims => key ∈ keysOf victims
  | .deletes, .unlinking victims => key ∈ keysOf victims
  | .buries, .buried row => row.1.key = key
  | _, _ => false

def plays (own : Option Task) (role : Role) (key : Text) : Bool := own.any (Task.plays role key)

def has (tasks : Table Nat Task) (role : Role) (key : Text) : Bool := someEntry tasks fun _ task => task.plays role key

/-- The step leaves every live key with its row and its file, or with a task that is
still to take the key away; and every row with its entry, or with a task that is still
to bring the one or to take the other. -/
def orderly (stores : Stores) (others : Table Nat Task) (own : Option Task) : Move → Bool
  | .persist ok =>
      match own with
      | some (.installing pending) =>
          let key := pending.key
          ok || positive stores.rows key || has others .deletes key || has others .buries key
      | _ => true
  | .removeRows ok =>
      match own with
      | some (.removing victims) =>
          ok || (keysOf victims).all fun key =>
            !positive stores.rows key || positive stores.cache.entries key || has others .installs key ||
              has others .removes key
      | _ => true
  | .unlink gone =>
      match own with
      | some (.unlinking (victim :: rest)) =>
          let key := victim.1
          let live := positive stores.cache.entries key
          decide (key ∈ keysOf rest) || has others .deletes key ||
            ((!live && !has others .installs key || positive stores.rows key || has others .buries key) &&
              (!live && !has others .pulls key || decide (gone = false ∧ key ∈ stores.files)))
      | _ => true
  | .writeNegative =>
      match own with
      | some (.buried row) =>
          let key := row.1.key
          (!has others .installs key || positive stores.rows key || has others .deletes key || has others .buries key) &&
            (!positive stores.rows key || has others .installs key || has others .removes key)
      | _ => true
  | _ => true

def allowed (s : System) (label : Label) : Prop :=
  orderly s.stores (s.tasks.erase label.task) (s.tasks.lookup label.task) label.move = true

instance (s : System) (label : Label) : Decidable (allowed s label) :=
  inferInstanceAs (Decidable (orderly s.stores (s.tasks.erase label.task) (s.tasks.lookup label.task) label.move = true))

/-! What is owed for one key, by one task and by all the others. -/

def busy (others : Table Nat Task) (own : Option Task) (key : Text) (role : Role) : Bool :=
  plays own role key || has others role key

theorem busy_split (tasks : Table Nat Task) (id : Nat) (key : Text) :
    busy tasks none key = busy (tasks.erase id) (tasks.lookup id) key := by
  funext role
  exact (Bool.false_or _).trans (someEntry_split tasks id fun _ task => task.plays role key)

theorem busy_replace (tasks : Table Nat Task) (id : Nat) (next : Option Task) (key : Text) :
    busy (replace tasks id next) none key = busy (tasks.erase id) next key := by
  funext role
  exact (Bool.false_or _).trans (someEntry_replace tasks id next fun _ task => task.plays role key)

structure Held (stores : Stores) (busy : Role → Bool) (key : Text) : Prop where
  rows : positive stores.cache.entries key = true ∨ busy .installs = true →
    positive stores.rows key = true ∨ busy .deletes = true ∨ busy .buries = true
  entries : positive stores.rows key = true →
    positive stores.cache.entries key = true ∨ busy .installs = true ∨ busy .removes = true
  files : positive stores.cache.entries key = true ∨ busy .pulls = true → key ∈ stores.files ∨ busy .deletes = true

/-- The invariant of the orderly runs. -/
def Steady (s : System) : Prop := ∀ key, Held s.stores (busy s.tasks none key) key

theorem steady_split (s : System) (id : Nat) :
    Steady s ↔ ∀ key, Held s.stores (busy (s.tasks.erase id) (s.tasks.lookup id) key) key := by
  unfold Steady
  simp only [busy_split s.tasks id]

/-! The stores, key by key. -/

theorem positive_insert (table : Table Text EntryMeta) (key other : Text) (m : EntryMeta) :
    positive (table.insert key m) other = if other = key then m.negativeUntilMillis.isNone else positive table other := by
  unfold positive
  by_cases same : other = key
  · rw [if_pos same, same, AList.lookup_insert]
    rfl
  · rw [if_neg same, AList.lookup_insert_ne same]

theorem positive_erase (table : Table Text EntryMeta) (key other : Text) :
    positive (table.erase key) other = (decide (other ≠ key) && positive table other) := by
  unfold positive
  by_cases same : other = key
  · rw [same, AList.lookup_erase, decide_eq_false (not_not.mpr rfl)]
    rfl
  · rw [AList.lookup_erase_ne same, decide_eq_true same, Bool.true_and]

theorem positive_removeBatch (rows : Table Text EntryMeta) (keys : List Text) (key : Text) :
    positive (removeBatch rows keys) key = (decide (key ∉ keys) && positive rows key) := by
  induction keys generalizing rows with
  | nil => simp [removeBatch]
  | cons head keys ih =>
    change positive (removeBatch (rows.erase head) keys) key = _
    rw [ih, positive_erase]
    simp only [List.mem_cons, not_or, Bool.decide_and, ne_eq]
    cases decide (key ∉ keys) <;> simp

theorem positive_bump (rows : Table Text EntryMeta) (key other : Text) (now : Nat) :
    positive (bumpLastAccess rows key now) other = positive rows other := by
  unfold bumpLastAccess
  cases found : rows.lookup key with
  | none => rfl
  | some m =>
    by_cases moved : m.lastAccessMillis ≠ now
    · change positive (if m.lastAccessMillis ≠ now then _ else _) other = _
      rw [if_pos moved, positive_insert]
      by_cases same : other = key
      · rw [if_pos same, same, positive, found]
        rfl
      · rw [if_neg same]
    · change positive (if m.lastAccessMillis ≠ now then _ else _) other = _
      rw [if_neg moved]

theorem positive_stamp (s : CacheState) (key other : Text) (now : Nat) :
    positive (stampAccess s key now).entries other = positive s.entries other := by
  unfold stampAccess
  cases found : s.entries.lookup key with
  | none => rfl
  | some m =>
    change positive (s.entries.insert key _) other = _
    rw [positive_insert]
    by_cases same : other = key
    · rw [if_pos same, same, positive, found]
      rfl
    · rw [if_neg same]

theorem positive_perm (first second : Table Text EntryMeta) (same : first.entries.Perm second.entries) (key : Text) :
    positive first key = positive second key := by
  unfold positive
  rw [AList.perm_lookup same]

/-! A selection names all that it removes. -/

/-- What is left, and what was named, of a selection that had named `out`. -/
structure Named (before after : CacheState) (out victims : List (Text × Nat)) : Prop where
  kept : ∀ key ∈ keysOf out, key ∈ keysOf victims
  named : ∀ key, positive before.entries key = true → positive after.entries key = true ∨ key ∈ keysOf victims

theorem named_refl (s : CacheState) (out : List (Text × Nat)) : Named s s out out :=
  ⟨fun _ member => member, fun _ live => .inl live⟩

theorem named_removeRow (s after : CacheState) (key : Text) (m : EntryMeta) (out victims : List (Text × Nat))
    (later : Named (removeRow s key m) after (out ++ [(key, m.sizeBytes)]) victims) : Named s after out victims := by
  have whole : keysOf (out ++ [(key, m.sizeBytes)]) = keysOf out ++ [key] := List.map_append
  constructor
  · intro other member
    exact later.kept other (by rw [whole]; exact List.mem_append_left _ member)
  · intro other live
    by_cases same : other = key
    · right
      exact later.kept other (by rw [whole, same]; exact List.mem_append_right _ List.mem_cons_self)
    · apply later.named other
      change positive (s.entries.erase key) other = true
      rw [positive_erase, decide_eq_true same, Bool.true_and]
      exact live

theorem named_takeRows (bytesOver rowsOver : Nat) (keys : List Text) (freed : Nat) (s : CacheState) (out : List (Text × Nat)) :
    Named s (takeRows bytesOver rowsOver freed s out keys).1 out (takeRows bytesOver rowsOver freed s out keys).2 := by
  induction keys generalizing freed s out with
  | nil => exact named_refl s out
  | cons key rest ih =>
    rw [takeRows]
    split_ifs
    · exact named_refl s out
    · cases s.entries.lookup key with
      | none => exact ih freed s out
      | some m => exact named_removeRow s _ key m out _ (ih _ _ _)

theorem named_removeAll (keys : List Text) (s : CacheState) (out : List (Text × Nat)) :
    Named s (removeAll s out keys).1 out (removeAll s out keys).2 := by
  induction keys generalizing s out with
  | nil => exact named_refl s out
  | cons key rest ih =>
    rw [removeAll]
    cases s.entries.lookup key with
    | none => exact ih s out
    | some m => exact named_removeRow s _ key m out _ (ih _ _)

structure Picked (before : CacheState) (picked : CacheState × List (Text × Nat)) : Prop where
  fewer : Fewer before picked.1
  named : Named before picked.1 [] picked.2

theorem picked_evict (s : CacheState) (config : Config) (spared : List Text) : Picked s (evictPick s config spared) := by
  refine ⟨fewer_evictPick s config spared, ?_⟩
  unfold evictPick
  simp only
  split_ifs
  · exact named_refl s []
  all_goals exact named_takeRows _ _ _ _ s []

theorem picked_strays (s : CacheState) (config : Config) (needBytes : Nat) :
    Picked s (pickStraysForPressure s config needBytes) := by
  refine ⟨fewer_pickStrays s config needBytes, ?_⟩
  unfold pickStraysForPressure
  split_ifs
  · exact named_refl s []
  · exact named_takeRows _ _ _ _ s []

theorem picked_reap (s : CacheState) (ttl now : Nat) (spared : List Text) : Picked s (reapCollect s ttl now spared) :=
  ⟨fewer_removeAll _ s [], named_removeAll _ s []⟩

theorem positive_fewer (before after : CacheState) (fewer : Fewer before after) (key : Text)
    (live : positive after.entries key = true) : positive before.entries key = true := by
  obtain ⟨m, found, clear⟩ := Option.any_eq_true _ _ |>.mp live
  exact Option.any_eq_true _ _ |>.mpr ⟨m, fewer key m found, clear⟩

/-! What a task is busy with once it has stepped. -/

section Tasks
variable (others : Table Nat Task) (key : Text)

theorem busy_none (role : Role) : busy others none key role = has others role key := Bool.false_or _

theorem busy_some (task : Task) (role : Role) : busy others (some task) key role = (task.plays role key || has others role key) := rfl

theorem busy_delete (victims : List (Text × Nat)) (role : Role) : busy others (delete victims) key role =
    ((Task.removing victims).plays role key || has others role key) := by
  unfold delete
  by_cases empty : victims = []
  · rw [if_pos empty, busy_none, empty]
    cases role <;> rfl
  · rw [if_neg empty, busy_some]

theorem busy_unlinkRest (victims : List (Text × Nat)) (role : Role) : busy others (unlinkRest victims) key role =
    ((Task.unlinking victims).plays role key || has others role key) := by
  unfold unlinkRest
  by_cases empty : victims = []
  · rw [if_pos empty, busy_none, empty]
    cases role <;> rfl
  · rw [if_neg empty, busy_some]

end Tasks

section Steps
variable (config : Config) (stores : Stores) (others : Table Nat Task) (key : Text)

attribute [local simp] orderly Task.plays

theorem held_rename (target upstreamId : Text) (objectMeta : ObjectMeta) (oversize : Bool) (bytes : Bytes)
    (held : Held stores (busy others none key) key) :
    Held { stores with files := stores.files.insert target bytes }
      (busy others (some (.renamed target upstreamId objectMeta oversize)) key) key := by
  obtain ⟨rows, entries, files⟩ := held
  simp only [busy_none] at rows entries files
  have kept : key ∈ stores.files.insert target bytes ↔ key = target ∨ key ∈ stores.files := AList.mem_insert stores.files
  constructor <;> simp only [busy_some, Task.plays, Bool.or_eq_true, decide_eq_true_eq, Bool.false_or]
  · exact rows
  · exact entries
  · rw [kept]
    grind

theorem held_readRow (target upstreamId : Text) (objectMeta : ObjectMeta) (oversize : Bool) (pending : Pending)
    (same : pending.key = target)
    (held : Held stores (busy others (some (.renamed target upstreamId objectMeta oversize)) key) key) :
    Held stores (busy others (some (.installing pending)) key) key := by
  obtain ⟨rows, entries, files⟩ := held
  simp only [busy_some, Task.plays, Bool.or_eq_true, decide_eq_true_eq, Bool.false_or] at rows entries files
  constructor <;> simp only [busy_some, Task.plays, Bool.or_eq_true, decide_eq_true_eq, Bool.false_or]
  · exact rows
  · exact entries
  · rw [same]
    exact files

theorem held_persist (pending : Pending) (ok : Bool)
    (order : orderly stores others (some (.installing pending)) (.persist ok) = true)
    (held : Held stores (busy others (some (.installing pending)) key) key) :
    Held { stores with rows := commit ok stores.rows (stores.rows.insert pending.key pending.1.entry) }
      (busy others (some (.persisted pending)) key) key := by
  obtain ⟨rows, entries, files⟩ := held
  simp only [busy_some, Task.plays, Bool.or_eq_true, decide_eq_true_eq, Bool.false_or] at rows entries files
  simp only [orderly, Bool.or_eq_true] at order
  have after : positive (commit ok stores.rows (stores.rows.insert pending.key pending.1.entry)) key =
      if ok = true ∧ key = pending.key then true else positive stores.rows key := by
    cases ok with
    | false => rfl
    | true =>
      change positive (stores.rows.insert pending.key pending.1.entry) key = _
      rw [positive_insert, pending.2]
      simp only [true_and]
      rfl
  constructor <;> simp only [busy_some, Task.plays, Bool.or_eq_true, decide_eq_true_eq, Bool.false_or, after]
  · grind
  · grind
  · exact files

theorem held_write (pending : Pending) (held : Held stores (busy others (some (.persisted pending)) key) key) :
    Held { stores with cache := writeInstall stores.cache pending.1 } (busy others none key) key := by
  obtain ⟨rows, entries, files⟩ := held
  simp only [busy_some, Task.plays, Bool.or_eq_true, decide_eq_true_eq, Bool.false_or] at rows entries files
  have after : positive (writeInstall stores.cache pending.1).entries key =
      if key = pending.key then true else positive stores.cache.entries key := by
    change positive (stores.cache.entries.insert pending.key pending.1.entry) key = _
    rw [positive_insert, pending.2]
    rfl
  constructor <;> simp only [busy_none, after]
  · grind
  · grind
  · grind

theorem held_pick (picked : CacheState × List (Text × Nat)) (sound : Picked stores.cache picked)
    (held : Held stores (busy others none key) key) :
    Held { stores with cache := picked.1 } (busy others (delete picked.2) key) key := by
  have fewer := positive_fewer stores.cache picked.1 sound.fewer key
  have named := sound.named.named key
  obtain ⟨rows, entries, files⟩ := held
  simp only [busy_none] at rows entries files
  constructor <;> simp only [busy_delete, Task.plays, Bool.or_eq_true, decide_eq_true_eq, Bool.false_or]
  · grind
  · grind
  · grind

theorem held_removeRows (victims : List (Text × Nat)) (ok : Bool)
    (order : orderly stores others (some (.removing victims)) (.removeRows ok) = true)
    (held : Held stores (busy others (some (.removing victims)) key) key) :
    Held { stores with rows := commit ok stores.rows (removeBatch stores.rows (keysOf victims)) }
      (busy others (some (.unlinking victims)) key) key := by
  obtain ⟨rows, entries, files⟩ := held
  simp only [busy_some, Task.plays, Bool.or_eq_true, decide_eq_true_eq, Bool.false_or] at rows entries files
  have after : positive (commit ok stores.rows (removeBatch stores.rows (keysOf victims))) key = true ↔
      (ok = true → key ∉ keysOf victims) ∧ positive stores.rows key = true := by
    cases ok with
    | false => simp [commit]
    | true =>
      change positive (removeBatch stores.rows (keysOf victims)) key = true ↔ _
      rw [positive_removeBatch, Bool.and_eq_true, decide_eq_true_eq]
      simp
  simp only [orderly, Bool.or_eq_true, List.all_eq_true, Bool.not_eq_true'] at order
  constructor <;> simp only [busy_some, Task.plays, Bool.or_eq_true, decide_eq_true_eq, Bool.false_or, after]
  · grind
  · grind
  · exact files

theorem held_unlink (victim : Text × Nat) (rest : List (Text × Nat)) (gone : Bool)
    (order : orderly stores others (some (.unlinking (victim :: rest))) (.unlink gone) = true)
    (held : Held stores (busy others (some (.unlinking (victim :: rest))) key) key) :
    Held { stores with files := if gone then remove stores.files victim.1 else stores.files }
      (busy others (unlinkRest rest) key) key := by
  obtain ⟨rows, entries, files⟩ := held
  have keys : keysOf (victim :: rest) = victim.1 :: keysOf rest := rfl
  simp only [busy_some, Task.plays, Bool.or_eq_true, decide_eq_true_eq, Bool.false_or, keys, List.mem_cons]
    at rows entries files
  have stays : key ∈ stores.files → key ≠ victim.1 ∨ gone = false →
      key ∈ (if gone = true then remove stores.files victim.1 else stores.files) := by
    intro here apart
    cases gone with
    | false => exact here
    | true =>
      change key ∈ remove stores.files victim.1
      unfold remove
      split_ifs
      · exact here
      · have other : key ≠ victim.1 := by simpa using apart
        exact AList.mem_erase.mpr ⟨other, here⟩
  simp only [orderly, Bool.or_eq_true, Bool.and_eq_true, Bool.not_eq_true', decide_eq_true_eq] at order
  constructor <;> simp only [busy_unlinkRest, Task.plays, Bool.or_eq_true, decide_eq_true_eq, Bool.false_or]
  · grind
  · exact entries
  · grind

theorem held_persistNegative (row : Tombstone) (ok : Bool) (held : Held stores (busy others none key) key) :
    Held { stores with rows := commit ok stores.rows (stores.rows.insert row.1.key row.1) }
      (busy others (some (.buried row)) key) key := by
  obtain ⟨rows, entries, files⟩ := held
  simp only [busy_none] at rows entries files
  have after : positive (commit ok stores.rows (stores.rows.insert row.1.key row.1)) key = true ↔
      (ok = true → key ≠ row.1.key) ∧ positive stores.rows key = true := by
    cases ok with
    | false => simp [commit]
    | true =>
      change positive (stores.rows.insert row.1.key row.1) key = true ↔ _
      rw [positive_insert]
      by_cases same : key = row.1.key
      · rw [if_pos same]
        simp [same, row.2]
      · rw [if_neg same]
        simp [same]
  constructor <;> simp only [busy_some, Task.plays, Bool.or_eq_true, decide_eq_true_eq, Bool.false_or, after]
  · grind
  · grind
  · exact files

theorem held_writeNegative (row : Tombstone) (order : orderly stores others (some (.buried row)) .writeNegative = true)
    (held : Held stores (busy others (some (.buried row)) key) key) :
    Held { stores with cache := ⟨stores.cache.entries.insert row.1.key row.1, stores.cache.totalBytes⟩ }
      (busy others none key) key := by
  obtain ⟨rows, entries, files⟩ := held
  simp only [busy_some, Task.plays, Bool.or_eq_true, decide_eq_true_eq, Bool.false_or] at rows entries files
  have after : positive (stores.cache.entries.insert row.1.key row.1) key = true ↔
      key ≠ row.1.key ∧ positive stores.cache.entries key = true := by
    rw [positive_insert]
    by_cases same : key = row.1.key
    · rw [if_pos same]
      simp [same, row.2]
    · rw [if_neg same]
      simp [same]
  simp only [orderly, Bool.or_eq_true, Bool.and_eq_true, Bool.not_eq_true'] at order
  constructor <;> simp only [busy_none, after]
  · grind
  · grind
  · grind

theorem held_same (after : Stores)
    (entries : positive after.cache.entries key = positive stores.cache.entries key)
    (rows : positive after.rows key = positive stores.rows key) (files : after.files = stores.files) (busy : Role → Bool)
    (held : Held stores busy key) : Held after busy key := by
  constructor
  · rw [entries, rows]
    exact held.rows
  · rw [entries, rows]
    exact held.entries
  · rw [entries, files]
    exact held.files

/-- An orderly step of one task keeps what all the tasks together owe to a key. -/
theorem held_step (own next : Option Task) (move : Move) (after : Stores)
    (order : orderly stores others own move = true) (steps : taskStep config stores own move = some (after, next))
    (held : Held stores (busy others own key) key) : Held after (busy others next key) key := by
  cases move with
  | rename target upstreamId objectMeta oversize bytes =>
    simp only [taskStep] at steps
    split_ifs at steps with begins
    cases steps
    rw [begins.1] at held
    exact held_rename stores others key target upstreamId objectMeta oversize bytes held
  | readRow now =>
    cases own with
    | none => cases steps
    | some task =>
      cases task with
      | renamed target upstreamId objectMeta oversize =>
        cases steps
        exact held_readRow stores others key target upstreamId objectMeta oversize _ rfl held
      | _ => cases steps
  | persist ok =>
    cases own with
    | none => cases steps
    | some task =>
      cases task with
      | installing pending =>
        cases steps
        exact held_persist stores others key pending ok order held
      | _ => cases steps
  | write spared =>
    cases own with
    | none => cases steps
    | some task =>
      cases task with
      | persisted pending =>
        cases steps
        exact held_pick { stores with cache := writeInstall stores.cache pending.1 } others key _ (picked_evict _ config spared)
          (held_write stores others key pending held)
      | _ => cases steps
  | evictBudget spared =>
    simp only [taskStep] at steps
    split_ifs at steps with begins
    cases steps
    rw [begins] at held
    exact held_pick stores others key _ (picked_evict stores.cache config spared) held
  | reap ttl now spared =>
    simp only [taskStep] at steps
    split_ifs at steps with begins
    cases steps
    rw [begins] at held
    exact held_pick stores others key _ (picked_reap stores.cache ttl now spared) held
  | reclaimStrays needBytes =>
    simp only [taskStep] at steps
    split_ifs at steps with begins
    cases steps
    rw [begins] at held
    exact held_pick stores others key _ (picked_strays stores.cache config needBytes) held
  | removeRows ok =>
    cases own with
    | none => cases steps
    | some task =>
      cases task with
      | removing victims =>
        cases steps
        exact held_removeRows stores others key victims ok order held
      | _ => cases steps
  | unlink gone =>
    cases own with
    | none => cases steps
    | some task =>
      cases task with
      | unlinking victims =>
        cases victims with
        | nil => cases steps
        | cons victim rest =>
          cases steps
          exact held_unlink stores others key victim rest gone order held
      | _ => cases steps
  | persistNegative target upstreamId now ok =>
    simp only [taskStep] at steps
    split_ifs at steps with begins
    cases steps
    rw [begins] at held
    exact held_persistNegative stores others key ⟨tombstone config target upstreamId now, Option.some_ne_none _⟩ ok held
  | writeNegative =>
    cases own with
    | none => cases steps
    | some task =>
      cases task with
      | buried row =>
        cases steps
        exact held_writeNegative stores others key row order held
      | _ => cases steps
  | flushAccess target now =>
    cases steps
    exact held_same stores key { stores with cache := stampAccess stores.cache target now }
      (positive_stamp stores.cache target key now) rfl rfl _ held
  | bumpAccess target now ok =>
    cases steps
    refine held_same stores key { stores with rows := commit ok stores.rows (bumpLastAccess stores.rows target now) }
      rfl ?_ rfl _ held
    cases ok with
    | false => rfl
    | true => exact positive_bump stores.rows target key now
  | rehash entries =>
    simp only [taskStep] at steps
    split_ifs at steps with same
    cases steps
    exact held_same stores key { stores with cache := { stores.cache with entries := entries } }
      (positive_perm entries stores.cache.entries same key) rfl rfl _ held

end Steps

theorem steady_step (config : Config) (s after : System) (label : Label) (steady : Steady s) (order : allowed s label)
    (steps : step config s label = some after) : Steady after := by
  obtain ⟨⟨stores, next⟩, moved, rfl⟩ := Option.map_eq_some_iff.mp steps
  intro key
  rw [busy_replace]
  exact held_step config s.stores _ key _ next label.move stores order moved ((steady_split s label.task).mp steady key)

theorem steady_reached (config : Config) (s : System) (reached : Reaches (machine config) allowed s) : Steady s := by
  apply reached.invariant Steady
  · rintro state ⟨quiet, agree⟩ key
    rw [quiet]
    constructor
    · intro live
      cases live with
      | inl entry => exact .inl ((agree.rows key).mp entry)
      | inr task => cases task
    · intro row
      exact .inl ((agree.rows key).mpr row)
    · intro live
      cases live with
      | inl entry => exact .inl (agree.files key entry)
      | inr task => cases task
  · exact fun state label after steady order steps => steady_step config state after label steady order steps

def small : Config := ⟨100, 10, 1200, 30⟩

def pull (task now : Nat) : List Label :=
  [⟨task, .rename ['a'] ['p'] ⟨1, none, none, none⟩ false [7]⟩, ⟨task, .readRow now⟩, ⟨task, .persist true⟩, ⟨task, .write []⟩]

/-- The entry is reaped to the end, then pulled again. -/
def reaped : List Label :=
  pull 0 5 ++ [⟨1, .reap 10 100 []⟩, ⟨1, .removeRows true⟩, ⟨1, .unlink true⟩] ++ pull 2 100

/-- The entry is pulled again before the sweep that took it is through. -/
def overtaken : List Label :=
  pull 0 5 ++ [⟨1, .reap 10 100 []⟩] ++ pull 2 100 ++ [⟨1, .removeRows true⟩, ⟨1, .unlink true⟩]

def clear : System := ⟨⟨⟨∅, 0⟩, ∅, ∅⟩, ∅⟩

theorem clear_begins : clear.tasks = ∅ ∧ Agree clear.stores := by
  refine ⟨rfl, fun key => Iff.rfl, ?_⟩
  intro key live
  cases live

theorem tasks_empty (s : System) (quiet : s.tasks.entries.isEmpty = true) : s.tasks = ∅ :=
  AList.ext (List.isEmpty_iff.mp quiet)

end OriginCache.Cache.Agreement
