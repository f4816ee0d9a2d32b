import OriginCache.Foundation.Slices
import OriginCache.Cache.Magazine
import OriginCache.Cache.Ranged

/-! Hits from the sealed file of a key beside the pulls that replace it. A pull
renames the file first and installs the row later; a hit reads the row first and
opens the file when its body is polled. -/

namespace OriginCache.Cache.DiskHit
open Foundation.Slices Foundation.Tables Foundation.Runs SegName Key Meta Magazine
open Store (Bytes)
open Ranged (chunkSize Finish)

/-- `u64` subtraction of a build without overflow checks. -/
def wrappingSub (a b : Nat) : Nat := (a + 2 ^ 64 - b) % 2 ^ 64

structure ByteRange where
  offset : Nat
  length : Option Nat
deriving DecidableEq, Repr

/-- The first byte and the end, clamped to the object. -/
def resolveRange (range : Option ByteRange) (total : Nat) : Option (Nat × Nat) :=
  match range with
  | none => some (0, total)
  | some r =>
      if total ≤ r.offset then none
      else some (r.offset, (r.length.map fun l => min (wrappingAdd r.offset l) total).getD total)

/-- The part of a row that the response headers show. -/
structure EntryHeaders where
  sizeBytes : Nat
  etag : Option Text
  lastModified : Option Text
  contentType : Option Text
  negative : Bool
deriving DecidableEq, Repr

def entryMeta (s : CacheState) (key : Text) : Option EntryHeaders :=
  (s.entries.lookup key).map fun m =>
    ⟨m.sizeBytes, m.etag, m.lastModified, m.contentType, m.negativeUntilMillis.isSome⟩

/-- The object files by their keys. A sealed file is never written again, so a
handle is the bytes the file had when it was opened. -/
abbrev Files := Table Text Bytes

/-- A key names the metadata store only from the top of the cache directory. -/
def isMetaStorePath (key : Text) : Bool := '/' ∉ key && isMetaStoreName key

/-! Pulls. -/

inductive PullPhase
  | pumping
  | sealing
  | renamed
  | installing (pending : Installing)
  | deleting (victims : List (Text × Nat))
deriving DecidableEq, Repr

structure Pull where
  key : Text
  upstreamId : Text
  objectMeta : ObjectMeta
  oversize : Bool
  promisedLen : Option Nat
  solo : Bool
  tmp : Bytes
  phase : PullPhase
deriving DecidableEq, Repr

/-- The file is in place and its row is not. -/
def Pull.awaiting (pull : Pull) : Bool :=
  match pull.phase with
  | .renamed => true
  | .installing _ => true
  | _ => false

inductive PullLabel
  | pump (chunk : Bytes)
  | exhaust
  | rename
  | readRow (now : Nat)
  | writeRow (spared : List Text)
  | delete
  | fail
deriving DecidableEq, Repr

/-- The bytes the next read may take off the stream. -/
def Pull.allow (pull : Pull) : Nat :=
  (pull.promisedLen.map fun len => min (len - pull.tmp.length) chunkSize).getD chunkSize

def remove (files : Files) (key : Text) : Files := if isMetaStorePath key then files else files.erase key

/-- One step of a pull; `none` in the last place is a pull that has ended. -/
def pullStep (config : Config) (cache : CacheState) (files : Files) (pull : Pull) :
    PullLabel → Option (CacheState × Files × Option Pull)
  | .pump chunk =>
      if pull.phase = .pumping ∧ chunk ≠ [] ∧ chunk.length ≤ pull.allow then
        some (cache, files, some { pull with tmp := pull.tmp ++ chunk })
      else none
  | .exhaust =>
      if pull.phase = .pumping then
        if pull.promisedLen.any (pull.tmp.length < ·) then some (cache, files, none)
        else some (cache, files, some { pull with phase := .sealing })
      else none
  | .rename =>
      if pull.phase = .sealing ∧ isMetaStorePath pull.key = false then
        some (cache, files.insert pull.key pull.tmp, some { pull with phase := .renamed })
      else none
  | .readRow now =>
      if pull.phase = .renamed then
        some (cache, files, some { pull with
          phase := .installing
            (readInstall cache pull.key pull.upstreamId pull.objectMeta now pull.oversize) })
      else none
  | .writeRow spared =>
      match pull.phase with
      | .installing pending =>
          let picked := evictPick (writeInstall cache pending) config spared
          some (picked.1, files, some { pull with phase := .deleting picked.2 })
      | _ => none
  | .delete =>
      match pull.phase with
      | .deleting (victim :: rest) =>
          some (cache, remove files victim.1, some { pull with phase := .deleting rest })
      | .deleting [] => some (cache, files, none)
      | _ => none
  | .fail =>
      if pull.phase = .pumping ∨ pull.phase = .sealing then some (cache, files, none) else none

/-! Hits. -/

/-- A body that reads its file from `offset` for `len` bytes, opened when polled. -/
structure Body where
  offset : Nat
  len : Nat
  file : Option Bytes
  yielded : Bytes
  finish : Finish
deriving DecidableEq, Repr

inductive HitPhase
  | checking
  | missed
  | refused
  | body (body : Body)
deriving DecidableEq, Repr

structure Hit where
  key : Text
  range : Option ByteRange
  headers : EntryHeaders
  phase : HitPhase
deriving DecidableEq, Repr

/-- The row is read and the file is not open yet. -/
def Hit.unopened (hit : Hit) : Bool :=
  match hit.phase with
  | .checking => true
  | .body body => body.file.isNone && body.finish = .waiting
  | _ => false

inductive HitLabel
  | check
  | openFile
  | read (count : Nat)
  | breakOff
deriving DecidableEq, Repr

/-- One turn of the loop that reads the file. A read at the end of a short file
breaks the body off. -/
def readChunk (body : Body) (file : Bytes) (count : Nat) : Option Body :=
  let remaining := body.len - body.yielded.length
  let available := file.length - (body.offset + body.yielded.length)
  if remaining = 0 then some { body with finish := .complete }
  else if available = 0 then some { body with finish := .error }
  else if 0 < count ∧ count ≤ min (min chunkSize remaining) available then
    some { body with
      yielded := body.yielded ++ slice file (body.offset + body.yielded.length) count }
  else none

def bodyStep (files : Files) (key : Text) (body : Body) : HitLabel → Option Body
  | .openFile =>
      if body.finish = .waiting ∧ body.file = none then
        match files.lookup key with
        | some bytes => some { body with file := some bytes }
        | none => some { body with finish := .error }
      else none
  | .read count =>
      match body.finish, body.file with
      | .waiting, some bytes => readChunk body bytes count
      | _, _ => none
  | .breakOff => if body.finish = .waiting then some { body with finish := .error } else none
  | .check => none

def hitStep (files : Files) (hit : Hit) (label : HitLabel) : Option Hit :=
  match hit.phase with
  | .checking =>
      if label = .check then
        if hit.key ∈ files then
          match resolveRange hit.range hit.headers.sizeBytes with
          | some (offset, stop) =>
              some { hit with
                phase := .body ⟨offset, wrappingSub stop offset, none, [], .waiting⟩ }
          | none => some { hit with phase := .refused }
        else some { hit with phase := .missed }
      else none
  | .body body => (bodyStep files hit.key body label).map fun next => { hit with phase := .body next }
  | _ => none

/-! The system. -/

structure System where
  cache : CacheState
  files : Files
  pulls : Table Nat Pull
  sweeps : Table Nat (List (Text × Nat))
  hits : Table Nat Hit

inductive Sweep
  | evictBudget (spared : List Text)
  | reap (ttl now : Nat) (spared : List Text)
  | reclaimStrays (needBytes : Nat)
deriving DecidableEq, Repr

inductive Label
  | beginPull (id : Nat) (key upstreamId : Text) (objectMeta : ObjectMeta) (oversize : Bool)
      (promisedLen : Option Nat) (solo : Bool)
  | pull (id : Nat) (label : PullLabel)
  | sweep (id : Nat) (sweep : Sweep)
  | sweepFile (id : Nat)
  | installNegative (key upstreamId : Text) (now : Nat)
  | flushAccess (key : Text) (now : Nat)
  | readRow (id : Nat) (key : Text) (range : Option ByteRange)
  | hit (id : Nat) (label : HitLabel)
  | dropHit (id : Nat)
deriving DecidableEq, Repr

def pick (config : Config) (cache : CacheState) : Sweep → CacheState × List (Text × Nat)
  | .evictBudget spared => evictPick cache config spared
  | .reap ttl now spared => reapCollect cache ttl now spared
  | .reclaimStrays needBytes => pickStraysForPressure cache config needBytes

def step (config : Config) (s : System) : Label → Option System
  | .beginPull id key upstreamId objectMeta oversize promisedLen solo =>
      -- A second cold pull of a key joins the first; a forced one is private.
      if id ∈ s.pulls ∨ (solo = false ∧ someEntry s.pulls fun _ pull => pull.key = key && !pull.solo) then
        none
      else
        some { s with
          pulls := s.pulls.insert id
            ⟨key, upstreamId, objectMeta, oversize, promisedLen, solo, [], .pumping⟩ }
  | .pull id label =>
      match s.pulls.lookup id with
      | some pull =>
          (pullStep config s.cache s.files pull label).map fun (cache, files, next) =>
            { s with cache := cache, files := files, pulls := replace s.pulls id next }
      | none => none
  | .sweep id sweep =>
      if id ∈ s.sweeps then none
      else
        let picked := pick config s.cache sweep
        some { s with cache := picked.1, sweeps := s.sweeps.insert id picked.2 }
  | .sweepFile id =>
      match s.sweeps.lookup id with
      | some (victim :: rest) =>
          some { s with files := remove s.files victim.1, sweeps := s.sweeps.insert id rest }
      | some [] => some { s with sweeps := s.sweeps.erase id }
      | none => none
  | .installNegative key upstreamId now =>
      some { s with cache := installNegative s.cache config key upstreamId now }
  | .flushAccess key now => some { s with cache := stampAccess s.cache key now }
  | .readRow id key range =>
      match entryMeta s.cache key with
      | some headers =>
          if id ∈ s.hits ∨ headers.negative then none
          else some { s with hits := s.hits.insert id ⟨key, range, headers, .checking⟩ }
      | none => none
  | .hit id label =>
      match s.hits.lookup id with
      | some hit => (hitStep s.files hit label).map fun next => { s with hits := s.hits.insert id next }
      | none => none
  | .dropHit id => if id ∈ s.hits then some { s with hits := s.hits.erase id } else none

section Versions
/- The bytes of the object version with an etag and a size. -/
variable (object : Option Text → Nat → Bytes)

/-- A start: no task is running, and the file of a row has the row's version. -/
def Stored (s : System) : Prop :=
  s.pulls = ∅ ∧ s.sweeps = ∅ ∧ s.hits = ∅ ∧
    ∀ key m bytes, s.cache.entries.lookup key = some m → m.negativeUntilMillis = none →
      s.files.lookup key = some bytes → bytes = object m.etag m.sizeBytes

def machine (config : Config) : Machine System Label := ⟨Stored object, step config⟩

def Pull.version (pull : Pull) : Bytes := object pull.objectMeta.etag pull.objectMeta.sizeBytes

/-- Row and file are read, replaced and paired inside one version. -/
def keepsVersions (s : System) : Label → Bool
  -- No pull of another version is between its rename and its install.
  | .readRow _ key _ =>
      key ∉ s.files || (s.cache.entries.lookup key).all fun m =>
        every s.pulls fun _ pull => !(pull.key = key && pull.awaiting) ||
          (pull.objectMeta.etag = m.etag && pull.objectMeta.sizeBytes = m.sizeBytes)
  -- The upstream delivered the version, and no hit of another has its file still to open.
  | .pull id .rename =>
      (s.pulls.lookup id).all fun pull =>
        pull.tmp = pull.version object && every s.hits fun _ hit => !(hit.key = pull.key && hit.unopened) ||
          (hit.headers.etag = pull.objectMeta.etag && hit.headers.sizeBytes = pull.objectMeta.sizeBytes)
  -- The file is this pull's version, or that of a pull that installs later.
  | .pull id (.writeRow _) =>
      (s.pulls.lookup id).all fun pull => (s.files.lookup pull.key).all fun bytes =>
        bytes = pull.version object || someEntry s.pulls fun other later =>
          other ≠ id && later.key = pull.key && later.awaiting && bytes = later.version object
  | _ => true

/-- The body has yielded the bytes from `offset` on of the version in the headers,
and all it promised when it ends without an error. -/
def YieldsVersion (hit : Hit) (body : Body) : Prop :=
  (∃ stop, resolveRange hit.range hit.headers.sizeBytes = some (body.offset, stop) ∧
    body.len = wrappingSub stop body.offset) ∧
  body.yielded <+: slice (object hit.headers.etag hit.headers.sizeBytes) body.offset body.len ∧
  (body.finish = .complete →
    body.yielded = slice (object hit.headers.etag hit.headers.sizeBytes) body.offset body.len ∧
      body.yielded.length = body.len)

/-! What one step preserves. -/

/-- The file a hit will open, if there is one, has the version of its headers. -/
def OnDisk (files : Files) (key : Text) (headers : EntryHeaders) : Prop :=
  ∀ bytes, files.lookup key = some bytes → bytes = object headers.etag headers.sizeBytes

structure BodySound (files : Files) (hit : Hit) (body : Body) : Prop where
  promised : ∃ stop, resolveRange hit.range hit.headers.sizeBytes = some (body.offset, stop) ∧
    body.len = wrappingSub stop body.offset
  closed : body.file = none → body.yielded = [] ∧ body.finish ≠ .complete ∧
    (body.finish = .waiting → OnDisk object files hit.key hit.headers)
  opened : ∀ bytes, body.file = some bytes → bytes = object hit.headers.etag hit.headers.sizeBytes
  read : body.yielded =
    slice (object hit.headers.etag hit.headers.sizeBytes) body.offset body.yielded.length
  within : body.yielded.length ≤ body.len
  whole : body.finish = .complete → body.yielded.length = body.len

def HitSound (files : Files) (hit : Hit) : Prop :=
  match hit.phase with
  | .checking => OnDisk object files hit.key hit.headers
  | .body body => BodySound object files hit body
  | _ => True

theorem yields_of_sound (files : Files) (hit : Hit) (body : Body) (sound : BodySound object files hit body) :
    YieldsVersion object hit body := by
  refine ⟨sound.promised, ?_, fun ends => ⟨?_, sound.whole ends⟩⟩
  · rw [sound.read]
    exact slice_prefix _ _ sound.within
  · rw [← sound.whole ends]
    exact sound.read

theorem sound_readChunk (files : Files) (hit : Hit) (body next : Body) (bytes : Bytes) (count : Nat)
    (sound : BodySound object files hit body) (waits : body.finish = .waiting)
    (opens : body.file = some bytes) (steps : readChunk body bytes count = some next) :
    BodySound object files hit next := by
  have version := sound.opened bytes opens
  have within := sound.within
  unfold readChunk at steps
  simp only at steps
  split_ifs at steps with full short fits
  · cases steps
    refine { sound with closed := fun absent => ?_, whole := fun _ => ?_ }
    · rw [opens] at absent
      cases absent
    · change body.yielded.length = body.len
      omega
  · cases steps
    refine { sound with closed := fun absent => ?_, whole := (nomatch ·) }
    rw [opens] at absent
    cases absent
  · cases steps
    have more : (slice bytes (body.offset + body.yielded.length) count).length = count := by
      rw [length_slice]
      omega
    have length : (body.yielded ++ slice bytes (body.offset + body.yielded.length) count).length =
        body.yielded.length + count := by rw [List.length_append, more]
    refine ⟨sound.promised, fun absent => ?_, sound.opened, ?_, ?_, fun ends => ?_⟩
    · rw [opens] at absent
      cases absent
    · change body.yielded ++ _ = slice _ _ (body.yielded ++ _).length
      rw [length, slice_add, ← sound.read, version]
    · change (body.yielded ++ _).length ≤ body.len
      omega
    · rw [waits] at ends
      cases ends

theorem sound_bodyStep (files : Files) (hit : Hit) (body next : Body) (label : HitLabel)
    (sound : BodySound object files hit body) (steps : bodyStep files hit.key body label = some next) :
    BodySound object files hit next := by
  cases label with
  | check => cases steps
  | openFile =>
    simp only [bodyStep] at steps
    split_ifs at steps with waits
    have closed := sound.closed waits.2
    cases found : files.lookup hit.key with
    | some bytes =>
      rw [found] at steps
      cases steps
      refine { sound with closed := (nomatch ·), opened := fun other same => ?_ }
      cases same
      exact closed.2.2 waits.1 bytes found
    | none =>
      rw [found] at steps
      cases steps
      exact { sound with closed := fun _ => ⟨closed.1, nofun, nofun⟩, whole := (nomatch ·) }
  | read count =>
    simp only [bodyStep] at steps
    split at steps
    next bytes waits opens => exact sound_readChunk object files hit body next bytes count sound waits opens steps
    next => cases steps
  | breakOff =>
    simp only [bodyStep] at steps
    split_ifs at steps
    cases steps
    exact { sound with
      closed := fun absent => ⟨(sound.closed absent).1, nofun, nofun⟩, whole := (nomatch ·) }

theorem sound_hitStep (files : Files) (hit next : Hit) (label : HitLabel)
    (sound : HitSound object files hit) (steps : hitStep files hit label = some next) :
    HitSound object files next := by
  unfold hitStep at steps
  unfold HitSound at sound
  split at steps
  next checking =>
    rw [checking] at sound
    split_ifs at steps with label_ present
    · split at steps
      next offset stop resolved =>
        cases steps
        exact ⟨⟨stop, resolved, rfl⟩, fun _ => ⟨rfl, nofun, fun _ => sound⟩, nofun, rfl, Nat.zero_le _, nofun⟩
      next =>
        cases steps
        exact trivial
    · cases steps
      exact trivial
  next body phase =>
    rw [phase] at sound
    obtain ⟨after, moves, same⟩ := Option.map_eq_some_iff.mp steps
    rw [← same]
    have kept := sound_bodyStep object files hit body after label sound moves
    exact ⟨kept.promised, kept.closed, kept.opened, kept.read, kept.within, kept.whole⟩
  next => cases steps

/-- A hit that has its file, or finds none any more, is not touched by a change of
the directory; one that waits for its file needs the new file to be its version. -/
theorem HitSound.files_change (files after : Files) (hit : Hit) (sound : HitSound object files hit)
    (waits : hit.unopened = true → OnDisk object files hit.key hit.headers →
      OnDisk object after hit.key hit.headers) : HitSound object after hit := by
  unfold HitSound at sound ⊢
  unfold Hit.unopened at waits
  cases phase : hit.phase with
  | checking =>
    rw [phase] at sound waits
    exact waits rfl sound
  | missed => trivial
  | refused => trivial
  | body body =>
    rw [phase] at sound waits
    refine { sound with closed := fun absent => ?_ }
    obtain ⟨nothing, open_, onDisk⟩ := sound.closed absent
    refine ⟨nothing, open_, fun waiting => waits ?_ (onDisk waiting)⟩
    change (body.file.isNone && decide (body.finish = .waiting)) = true
    rw [absent, waiting]
    rfl

/-- The file of a row is of its version, or of a pull that has its row still to install. -/
def RowsSound (cache : CacheState) (files : Files) (pulls : Table Nat Pull) : Prop :=
  ∀ key m bytes, cache.entries.lookup key = some m → m.negativeUntilMillis = none →
    files.lookup key = some bytes → bytes = object m.etag m.sizeBytes ∨
      ∃ id pull, pulls.lookup id = some pull ∧ pull.key = key ∧ pull.awaiting = true ∧
        bytes = pull.version object

/-- Each row of one table is a row of the other, as far as versions go. -/
def RowsFrom (before after : CacheState) : Prop :=
  ∀ key m, after.entries.lookup key = some m → m.negativeUntilMillis = none →
    ∃ old, before.entries.lookup key = some old ∧ old.negativeUntilMillis = none ∧
      old.etag = m.etag ∧ old.sizeBytes = m.sizeBytes

/-- A pull that awaits its install still does. -/
def Awaits (before after : Table Nat Pull) : Prop :=
  ∀ id pull, before.lookup id = some pull → pull.awaiting = true →
    ∃ next, after.lookup id = some next ∧ next.key = pull.key ∧
      next.objectMeta = pull.objectMeta ∧ next.awaiting = true

def FilesFrom (before after : Files) : Prop :=
  ∀ key bytes, after.lookup key = some bytes → before.lookup key = some bytes

theorem RowsSound.shrink {cache cache' : CacheState} {files files' : Files} {pulls pulls' : Table Nat Pull}
    (sound : RowsSound object cache files pulls) (rows : RowsFrom cache cache')
    (kept : FilesFrom files files') (awaits : Awaits pulls pulls') :
    RowsSound object cache' files' pulls' := by
  intro key m bytes row positive file
  obtain ⟨old, before, oldPositive, etag, size⟩ := rows key m row positive
  cases sound key old bytes before oldPositive (kept key bytes file) with
  | inl version => exact .inl (by rw [version, etag, size])
  | inr pending =>
    obtain ⟨id, pull, found, same, waits, version⟩ := pending
    obtain ⟨next, later, key', meta', waits'⟩ := awaits id pull found waits
    refine .inr ⟨id, next, later, key'.trans same, waits', ?_⟩
    rw [version, Pull.version, Pull.version, meta']

theorem rowsFrom_refl (cache : CacheState) : RowsFrom cache cache :=
  fun _ m found positive => ⟨m, found, positive, rfl, rfl⟩

theorem rowsFrom_of_fewer {before after : CacheState} (fewer : Fewer before after) :
    RowsFrom before after :=
  fun key m found positive => ⟨m, fewer key m found, positive, rfl, rfl⟩

theorem rowsFrom_installNegative (config : Config) (cache : CacheState) (key upstreamId : Text) (now : Nat) :
    RowsFrom cache (installNegative cache config key upstreamId now) := by
  intro other m found positive
  cases lookup_insert_some cache.entries key other _ m found with
  | inl new =>
    rw [new.2] at positive
    cases positive
  | inr old => exact ⟨m, old.2, positive, rfl, rfl⟩

theorem rowsFrom_stampAccess (cache : CacheState) (key : Text) (now : Nat) :
    RowsFrom cache (stampAccess cache key now) := by
  intro other m found positive
  unfold stampAccess at found
  cases row : cache.entries.lookup key with
  | none =>
    rw [row] at found
    exact ⟨m, found, positive, rfl, rfl⟩
  | some old =>
    rw [row] at found
    cases lookup_insert_some cache.entries key other _ m found with
    | inl new =>
      rw [new.2] at positive ⊢
      exact ⟨old, new.1 ▸ row, positive, rfl, rfl⟩
    | inr kept => exact ⟨m, kept.2, positive, rfl, rfl⟩

theorem rowsFrom_pick (config : Config) (cache : CacheState) (sweep : Sweep) :
    RowsFrom cache (pick config cache sweep).1 := by
  cases sweep with
  | evictBudget spared => exact rowsFrom_of_fewer (fewer_evictPick cache config spared)
  | reap ttl now spared => exact rowsFrom_of_fewer (fewer_removeAll _ cache [])
  | reclaimStrays needBytes => exact rowsFrom_of_fewer (fewer_pickStrays cache config needBytes)

theorem filesFrom_remove (files : Files) (key : Text) : FilesFrom files (remove files key) := by
  intro other bytes found
  unfold remove at found
  split_ifs at found
  · exact found
  · exact (lookup_erase_some files key other bytes found).2

theorem awaits_refl (pulls : Table Nat Pull) : Awaits pulls pulls :=
  fun _ pull found waits => ⟨pull, found, rfl, rfl, waits⟩

/-- What a pull waits to write is the row of its own version. -/
def Pending (pull : Pull) : Prop :=
  ∀ pending, pull.phase = .installing pending → pending.entry.key = pull.key ∧
    pending.entry.etag = pull.objectMeta.etag ∧ pending.entry.sizeBytes = pull.objectMeta.sizeBytes

structure Sound (s : System) : Prop where
  rows : RowsSound object s.cache s.files s.pulls
  installs : ∀ id pull, s.pulls.lookup id = some pull → Pending pull
  hits : ∀ id hit, s.hits.lookup id = some hit → HitSound object s.files hit

end Versions

/-- What a step of a pull does to rows and files. -/
inductive Pulled (config : Config) (cache cache' : CacheState) (files files' : Files) (pull : Pull)
    (label : PullLabel) : Option Pull → Prop
  | quiet (next : Option Pull) : cache' = cache → FilesFrom files files' →
      (pull.awaiting = true → ∃ after, next = some after ∧ after.key = pull.key ∧
        after.objectMeta = pull.objectMeta ∧ after.awaiting = true) →
      (∀ after, next = some after → Pending after) →
      Pulled config cache cache' files files' pull label next
  | renamed : label = .rename → cache' = cache → files' = files.insert pull.key pull.tmp →
      pull.awaiting = false →
      Pulled config cache cache' files files' pull label (some { pull with phase := .renamed })
  | installed (pending : Installing) (spared : List Text) (victims : List (Text × Nat)) :
      label = .writeRow spared → pull.phase = .installing pending →
      cache' = (evictPick (writeInstall cache pending) config spared).1 → files' = files →
      Pulled config cache cache' files files' pull label (some { pull with phase := .deleting victims })

theorem pulled_step (config : Config) (cache cache' : CacheState) (files files' : Files) (pull : Pull)
    (next : Option Pull) (label : PullLabel)
    (steps : pullStep config cache files pull label = some (cache', files', next)) :
    Pulled config cache cache' files files' pull label next := by
  have same : FilesFrom files files := fun _ _ found => found
  cases label with
  | pump chunk =>
    simp only [pullStep] at steps
    split_ifs at steps with runs
    cases steps
    refine .quiet _ rfl same (fun waits => ?_) (fun after ends => ?_)
    · simp only [Pull.awaiting, runs.1] at waits
      cases waits
    · cases ends
      intro pending phase
      simp only [runs.1] at phase
      cases phase
  | exhaust =>
    simp only [pullStep] at steps
    split_ifs at steps with runs
    all_goals
      cases steps
      refine .quiet _ rfl same (fun waits => ?_) (fun after ends => ?_)
      · simp only [Pull.awaiting, runs] at waits
        cases waits
      · cases ends
        try exact nofun
  | rename =>
    simp only [pullStep] at steps
    split_ifs at steps with runs
    cases steps
    exact .renamed rfl rfl rfl (by simp only [Pull.awaiting, runs.1])
  | readRow now =>
    simp only [pullStep] at steps
    split_ifs at steps with runs
    cases steps
    refine .quiet _ rfl same (fun _ => ⟨_, rfl, rfl, rfl, rfl⟩) (fun after ends => ?_)
    cases ends
    intro pending phase
    cases phase
    exact ⟨rfl, rfl, rfl⟩
  | writeRow spared =>
    simp only [pullStep] at steps
    split at steps
    next pending phase =>
      cases steps
      exact .installed pending spared _ rfl phase rfl rfl
    next => cases steps
  | delete =>
    simp only [pullStep] at steps
    split at steps
    next victim rest phase =>
      cases steps
      refine .quiet _ rfl (filesFrom_remove files victim.1) (fun waits => ?_) (fun after ends => ?_)
      · simp only [Pull.awaiting, phase] at waits
        cases waits
      · cases ends
        exact nofun
    next phase =>
      cases steps
      refine .quiet _ rfl same (fun waits => ?_) (fun after ends => ?_)
      · simp only [Pull.awaiting, phase] at waits
        cases waits
      · cases ends
    next => cases steps
  | fail =>
    simp only [pullStep] at steps
    split_ifs at steps with runs
    cases steps
    refine .quiet _ rfl same (fun waits => ?_) (fun after ends => ?_)
    · cases runs with
      | inl phase =>
        simp only [Pull.awaiting, phase] at waits
        cases waits
      | inr phase =>
        simp only [Pull.awaiting, phase] at waits
        cases waits
    · cases ends

section Runs
variable (object : Option Text → Nat → Bytes)

theorem awaits_replace (pulls : Table Nat Pull) (id : Nat) (pull : Pull) (next : Option Pull)
    (found : pulls.lookup id = some pull)
    (same : pull.awaiting = true → ∃ after, next = some after ∧ after.key = pull.key ∧
      after.objectMeta = pull.objectMeta ∧ after.awaiting = true) : Awaits pulls (replace pulls id next) := by
  intro other held present waits
  by_cases it : other = id
  · rw [it, found] at present
    cases present
    rw [it, lookup_replace]
    exact same waits
  · rw [lookup_replace_ne pulls next it]
    exact ⟨held, present, rfl, rfl, waits⟩

theorem installs_replace (pulls : Table Nat Pull) (id : Nat) (next : Option Pull)
    (sound : ∀ id pull, pulls.lookup id = some pull → Pending pull)
    (fresh : ∀ after, next = some after → Pending after) :
    ∀ other pull, (replace pulls id next).lookup other = some pull → Pending pull := by
  intro other pull present
  by_cases it : other = id
  · rw [it, lookup_replace] at present
    exact fresh pull present
  · rw [lookup_replace_ne pulls next it] at present
    exact sound other pull present

theorem HitSound.shrink {files after : Files} {hit : Hit} (sound : HitSound object files hit)
    (kept : FilesFrom files after) : HitSound object after hit :=
  sound.files_change object files after hit fun _ onDisk bytes found => onDisk bytes (kept _ bytes found)

/-- A rename keeps the pairs if the file is the pull's version and no other hit waits for it. -/
theorem sound_renamed (s : System) (id : Nat) (pull : Pull) (sound : Sound object s)
    (found : s.pulls.lookup id = some pull) (rests : pull.awaiting = false)
    (keeps : keepsVersions object s (.pull id .rename) = true) :
    Sound object { s with
      files := s.files.insert pull.key pull.tmp
      pulls := replace s.pulls id (some { pull with phase := .renamed }) } := by
  simp only [keepsVersions, found, Option.all_some, Bool.and_eq_true, decide_eq_true_eq, every_iff,
    Bool.or_eq_true, Bool.not_eq_true', Bool.and_eq_false_iff, decide_eq_false_iff_not] at keeps
  obtain ⟨delivered, opens⟩ := keeps
  refine ⟨?_, ?_, ?_⟩
  · intro key m bytes row positive file
    cases lookup_insert_some s.files pull.key key _ bytes file with
    | inl new =>
      refine .inr ⟨id, _, lookup_replace s.pulls id _, new.1.symm, rfl, ?_⟩
      rw [new.2]
      exact delivered
    | inr old =>
      cases sound.rows key m bytes row positive old.2 with
      | inl version => exact .inl version
      | inr pending =>
        obtain ⟨other, held, present, same, waits, version⟩ := pending
        have differs : other ≠ id := by
          intro it
          rw [it, found] at present
          cases present
          rw [rests] at waits
          cases waits
        exact .inr ⟨other, held, (lookup_replace_ne s.pulls _ differs).trans present, same, waits, version⟩
  · exact installs_replace s.pulls id _ sound.installs fun after ends => by
      cases ends
      intro pending phase
      cases phase
  · intro other hit present
    refine (sound.hits other hit present).files_change object s.files _ hit fun waits onDisk bytes file => ?_
    cases lookup_insert_some s.files pull.key hit.key _ bytes file with
    | inl new =>
      have version := opens other hit present
      rw [new.2, delivered, Pull.version]
      cases version with
      | inl neither =>
        cases neither with
        | inl differs => exact absurd new.1 differs
        | inr opened =>
          rw [waits] at opened
          cases opened
      | inr same => rw [same.1, same.2]
    | inr old => exact onDisk bytes old.2

/-- An install keeps the pairs if the file is its version or that of a later install. -/
theorem sound_installed (config : Config) (s : System) (id : Nat) (pull : Pull) (pending : Installing)
    (spared : List Text) (victims : List (Text × Nat)) (sound : Sound object s)
    (found : s.pulls.lookup id = some pull) (phase : pull.phase = .installing pending)
    (keeps : keepsVersions object s (.pull id (.writeRow spared)) = true) :
    Sound object { s with
      cache := (evictPick (writeInstall s.cache pending) config spared).1
      pulls := replace s.pulls id (some { pull with phase := .deleting victims }) } := by
  obtain ⟨ofKey, etag, size⟩ := sound.installs id pull found pending phase
  simp only [keepsVersions, found, Option.all_some] at keeps
  have others : ∀ key bytes, key ≠ pull.key → (∃ id pull, s.pulls.lookup id = some pull ∧ pull.key = key ∧
      pull.awaiting = true ∧ bytes = pull.version object) →
      ∃ other held, (replace s.pulls id (some { pull with phase := .deleting victims })).lookup other =
        some held ∧ held.key = key ∧ held.awaiting = true ∧ bytes = held.version object := by
    intro key bytes differs waiting
    obtain ⟨other, held, present, same, waits, version⟩ := waiting
    have it : other ≠ id := by
      intro it
      rw [it, found] at present
      cases present
      exact differs same.symm
    exact ⟨other, held, (lookup_replace_ne s.pulls _ it).trans present, same, waits, version⟩
  refine ⟨?_, ?_, sound.hits⟩
  · intro key m bytes row positive file
    have kept := fewer_evictPick (writeInstall s.cache pending) config spared key m row
    cases lookup_insert_some s.cache.entries pending.entry.key key _ m kept with
    | inl new =>
      have own : key = pull.key := new.1.trans ofKey
      change s.files.lookup key = some bytes at file
      rw [← own, file] at keeps
      simp only [Option.all_some, Bool.or_eq_true, decide_eq_true_eq, someEntry_iff, Bool.and_eq_true] at keeps
      cases keeps with
      | inl version =>
        left
        rw [version, Pull.version, new.2, etag, size]
      | inr waiting =>
        obtain ⟨other, later, present, ⟨⟨differs, same⟩, waits⟩, version⟩ := waiting
        exact .inr ⟨other, later, (lookup_replace_ne s.pulls _ differs).trans present, same, waits, version⟩
    | inr old =>
      cases sound.rows key m bytes old.2 positive file with
      | inl version => exact .inl version
      | inr waiting => exact .inr (others key bytes (fun same => old.1 (same.trans ofKey.symm)) waiting)
  · exact installs_replace s.pulls id _ sound.installs fun after ends => by
      cases ends
      intro pending phase
      cases phase

theorem sound_pull (config : Config) (s : System) (id : Nat) (pull : Pull) (label : PullLabel)
    (cache : CacheState) (files : Files) (next : Option Pull) (sound : Sound object s)
    (found : s.pulls.lookup id = some pull)
    (keeps : keepsVersions object s (.pull id label) = true)
    (steps : pullStep config s.cache s.files pull label = some (cache, files, next)) :
    Sound object { s with cache := cache, files := files, pulls := replace s.pulls id next } := by
  cases pulled_step config s.cache cache s.files files pull next label steps with
  | quiet _ rows kept same fresh =>
    rw [rows]
    exact ⟨sound.rows.shrink object (rowsFrom_refl s.cache) kept (awaits_replace s.pulls id pull next found same),
      installs_replace s.pulls id next sound.installs fresh,
      fun other hit present => (sound.hits other hit present).shrink object kept⟩
  | renamed it rows file rests =>
    rw [rows, file]
    rw [it] at keeps
    exact sound_renamed object s id pull sound found rests keeps
  | installed pending spared victims it phase rows same =>
    rw [rows, same]
    rw [it] at keeps
    exact sound_installed object config s id pull pending spared victims sound found phase keeps

theorem sound_hits_insert (s : System) (id : Nat) (hit : Hit) (sound : Sound object s)
    (fresh : HitSound object s.files hit) : Sound object { s with hits := s.hits.insert id hit } := by
  refine ⟨sound.rows, sound.installs, fun other found present => ?_⟩
  cases lookup_insert_some s.hits id other hit found present with
  | inl new =>
    rw [new.2]
    exact fresh
  | inr old => exact sound.hits other found old.2

/-- A row that is read while every waiting pull is of its version goes with its file. -/
theorem onDisk_readRow (s : System) (id : Nat) (key : Text) (range : Option ByteRange)
    (headers : EntryHeaders) (sound : Sound object s) (row : entryMeta s.cache key = some headers)
    (positive : headers.negative = false) (keeps : keepsVersions object s (.readRow id key range) = true) :
    OnDisk object s.files key headers := by
  intro bytes file
  obtain ⟨m, found, shown⟩ := Option.map_eq_some_iff.mp row
  rw [← shown] at positive ⊢
  have live : m.negativeUntilMillis = none := Option.isSome_eq_false_iff.mp positive |> Option.isNone_iff_eq_none.mp
  cases sound.rows key m bytes found live file with
  | inl version => exact version
  | inr waiting =>
    obtain ⟨other, pull, present, same, waits, version⟩ := waiting
    have there : key ∈ s.files := lookup_mem s.files key bytes file
    simp only [keepsVersions, there, not_true_eq_false, decide_false, Bool.false_or, found, Option.all_some,
      every_iff, Bool.or_eq_true, Bool.not_eq_true', Bool.and_eq_false_iff, decide_eq_false_iff_not,
      Bool.and_eq_true, decide_eq_true_eq] at keeps
    cases keeps other pull present with
    | inl neither =>
      cases neither with
      | inl differs => exact absurd same differs
      | inr installed =>
        rw [waits] at installed
        cases installed
    | inr agrees =>
      rw [version, Pull.version, agrees.1, agrees.2]

theorem sound_begin (s : System) (stored : Stored object s) : Sound object s := by
  obtain ⟨pulls, _, hits, rows⟩ := stored
  refine ⟨fun key m bytes row positive file => .inl (rows key m bytes row positive file), ?_, ?_⟩
  · intro id pull found
    rw [pulls] at found
    cases found
  · intro id hit found
    rw [hits] at found
    cases found

theorem sound_step (config : Config) (s s' : System) (label : Label) (sound : Sound object s)
    (keeps : keepsVersions object s label = true) (steps : step config s label = some s') :
    Sound object s' := by
  have shrunk : ∀ cache files, RowsFrom s.cache cache → FilesFrom s.files files →
      ∀ sweeps, Sound object { s with cache := cache, files := files, sweeps := sweeps } :=
    fun cache files rows kept sweeps =>
      ⟨sound.rows.shrink object rows kept (awaits_refl s.pulls), sound.installs,
        fun other hit present => (sound.hits other hit present).shrink object kept⟩
  have same : FilesFrom s.files s.files := fun _ _ found => found
  cases label with
  | beginPull id key upstreamId objectMeta oversize promisedLen solo =>
    simp only [step] at steps
    split_ifs at steps with taken
    cases steps
    have absent : s.pulls.lookup id = none := AList.lookup_eq_none.mpr fun present => taken (.inl present)
    refine ⟨sound.rows.shrink object (rowsFrom_refl s.cache) same fun other pull found waits => ?_, ?_, sound.hits⟩
    · have differs : other ≠ id := by
        intro it
        rw [it, absent] at found
        cases found
      exact ⟨pull, (AList.lookup_insert_ne differs).trans found, rfl, rfl, waits⟩
    · exact installs_replace s.pulls id (some _) sound.installs fun after ends => by
        cases ends
        intro pending phase
        cases phase
  | pull id label =>
    simp only [step] at steps
    cases found : s.pulls.lookup id with
    | none =>
      rw [found] at steps
      cases steps
    | some pull =>
      rw [found] at steps
      obtain ⟨⟨cache, files, next⟩, moves, after⟩ := Option.map_eq_some_iff.mp steps
      rw [← after]
      exact sound_pull object config s id pull label cache files next sound found keeps moves
  | sweep id sweep =>
    simp only [step] at steps
    split_ifs at steps
    cases steps
    exact shrunk _ s.files (rowsFrom_pick config s.cache sweep) same _
  | sweepFile id =>
    simp only [step] at steps
    split at steps
    next victim rest found =>
      cases steps
      exact shrunk s.cache _ (rowsFrom_refl s.cache) (filesFrom_remove s.files victim.1) _
    next found =>
      cases steps
      exact shrunk s.cache s.files (rowsFrom_refl s.cache) same _
    next => cases steps
  | installNegative key upstreamId now =>
    cases steps
    exact shrunk _ s.files (rowsFrom_installNegative config s.cache key upstreamId now) same s.sweeps
  | flushAccess key now =>
    cases steps
    exact shrunk _ s.files (rowsFrom_stampAccess s.cache key now) same s.sweeps
  | readRow id key range =>
    simp only [step] at steps
    cases row : entryMeta s.cache key with
    | none =>
      rw [row] at steps
      cases steps
    | some headers =>
      rw [row] at steps
      simp only at steps
      split_ifs at steps with refused
      cases steps
      have positive : headers.negative = false := Bool.eq_false_iff.mpr fun negative => refused (.inr negative)
      exact sound_hits_insert object s id _ sound
        (onDisk_readRow object s id key range headers sound row positive keeps)
  | hit id label =>
    simp only [step] at steps
    cases found : s.hits.lookup id with
    | none =>
      rw [found] at steps
      cases steps
    | some hit =>
      rw [found] at steps
      obtain ⟨next, moves, after⟩ := Option.map_eq_some_iff.mp steps
      rw [← after]
      exact sound_hits_insert object s id next sound
        (sound_hitStep object s.files hit next label (sound.hits id hit found) moves)
  | dropHit id =>
    simp only [step] at steps
    split_ifs at steps
    cases steps
    exact ⟨sound.rows, sound.installs, fun other hit present =>
      sound.hits other hit (lookup_erase_some s.hits id other hit present).2⟩

/-- In every run whose steps keep rows and files in one version, each body read from
disk yields the bytes of the version in its headers. -/
theorem hits_yield_version (config : Config) (s : System)
    (reached : Reaches (machine object config) (fun s label => keepsVersions object s label = true) s)
    (id : Nat) (hit : Hit) (body : Body) (found : s.hits.lookup id = some hit)
    (phase : hit.phase = .body body) : YieldsVersion object hit body := by
  have sound : Sound object s :=
    reached.invariant (Sound object) (sound_begin object)
      fun state label after sound keeps steps => sound_step object config state after label sound keeps steps
  have read := sound.hits id hit found
  unfold HitSound at read
  rw [phase] at read
  exact yields_of_sound object s.files hit body read

end Runs

/-- Two versions of two bytes. -/
def flipped (etag : Option Text) (_ : Nat) : Bytes := if etag = some ['1'] then [1, 1] else [2, 2]

def oldRow : EntryMeta :=
  ⟨1, ['p'], ['a'], 2, some ['1'], none, none, 0, 0, some 0, none, false⟩

def oldOnly : System := ⟨⟨AList.singleton ['a'] oldRow, 2⟩, AList.singleton ['a'] [1, 1], ∅, ∅, ∅⟩

theorem stored_oldOnly : Stored flipped oldOnly := by
  refine ⟨rfl, rfl, rfl, fun key m bytes row _ file => ?_⟩
  cases (lookup_insert_some ∅ ['a'] key oldRow m row) with
  | inl new =>
    rw [new.2]
    cases lookup_insert_some ∅ ['a'] key [1, 1] bytes file with
    | inl same => exact same.2
    | inr old => cases old.2
  | inr old => cases old.2

def refetch : List Label :=
  [.beginPull 0 ['a'] ['p'] ⟨2, some ['2'], none, none⟩ false (some 2) true, .pull 0 (.pump [2, 2]),
    .pull 0 .exhaust]

def readAll (id : Nat) : List Label := [.hit id .check, .hit id .openFile, .hit id (.read 2), .hit id (.read 0)]

/-- The body of a hit that has read both bytes of one version. -/
def served (bytes : Bytes) : HitPhase := .body ⟨0, 2, some bytes, bytes, .complete⟩

theorem beforeAndAfter_yield :
    ∃ s, Reaches (machine flipped small) (fun s label => keepsVersions flipped s label = true) s ∧
      ∃ before after, s.hits.lookup 0 = some before ∧ before.phase = served [1, 1] ∧
        YieldsVersion flipped before ⟨0, 2, some [1, 1], [1, 1], .complete⟩ ∧
        s.hits.lookup 1 = some after ∧ after.phase = served [2, 2] ∧
        YieldsVersion flipped after ⟨0, 2, some [2, 2], [2, 2], .complete⟩ := by
  obtain ⟨s, reached, test⟩ := exists_reached (machine flipped small)
    (fun s label => keepsVersions flipped s label = true)
    (.readRow 0 ['a'] none :: readAll 0 ++ refetch ++
      [.pull 0 .rename, .pull 0 (.readRow 5), .pull 0 (.writeRow []), .readRow 1 ['a'] none] ++ readAll 1)
    stored_oldOnly
    (fun s => (s.hits.lookup 0).any (fun hit => hit.phase = served [1, 1]) &&
      (s.hits.lookup 1).any fun hit => hit.phase = served [2, 2]) (by decide)
  simp only [Bool.and_eq_true, Option.any_eq_true, decide_eq_true_eq] at test
  obtain ⟨⟨before, first, old⟩, ⟨after, second, new⟩⟩ := test
  exact ⟨s, reached, before, after, first, old,
    hits_yield_version flipped small s reached 0 before _ first old, second, new,
    hits_yield_version flipped small s reached 1 after _ second new⟩

/-- Between the rename and the install a hit takes the old row and the new file. -/
theorem renamedFile_oldRow :
    ∃ s, Reaches (machine flipped small) (fun _ _ => True) s ∧
      ∃ hit, s.hits.lookup 0 = some hit ∧ hit.headers.etag = some ['1'] ∧ hit.phase = served [2, 2] ∧
        ¬ YieldsVersion flipped hit ⟨0, 2, some [2, 2], [2, 2], .complete⟩ := by
  obtain ⟨s, reached, test⟩ := exists_reached (machine flipped small) (fun _ _ => True)
    (refetch ++ [.pull 0 .rename, .readRow 0 ['a'] none] ++ readAll 0) stored_oldOnly
    (fun s => (s.hits.lookup 0).any fun hit => hit.headers.etag = some ['1'] && hit.phase = served [2, 2])
    (by decide)
  simp only [Bool.and_eq_true, Option.any_eq_true, decide_eq_true_eq] at test
  obtain ⟨hit, found, etag, phase⟩ := test
  refine ⟨s, reached, hit, found, etag, phase, fun yields => ?_⟩
  have whole := (yields.2.2 rfl).1
  rw [etag] at whole
  exact absurd whole (by simp [slice, flipped])

end OriginCache.Cache.DiskHit
