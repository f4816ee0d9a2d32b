import OriginCache.Cache.Pulls
import OriginCache.Cache.RunAdmission

/-! How one GET is answered: the relief valve, the profile without a cache, the ranged
path, and the ordinary path behind it. A body is told by where its bytes will come
from. -/

namespace OriginCache.Cache.Serving
open Foundation.Tables SegName Meta Magazine DiskHit Store Staging
open Pulls (hasRoomFor diskReserveBytes deleteFiles)
open RunAdmission (worstCaseBytes runAdmits)

inductive BackendError
  | notFound
  | rateLimited (retryAfterMillis : Option Nat)
  | serverError (text : Text)
  | authRequired
  | rangeNotSatisfiable
  | other (text : Text)
deriving DecidableEq, Repr

def unknownUpstream (id : Text) : BackendError := .other ("unknown upstream ".toList ++ id)
def belowMinFileSize : BackendError := .other "below min_file_size".toList
def gateClosed : BackendError := .other "upstream stream gate is closed".toList
def entryMissing : BackendError := .other "flight done but entry missing".toList
def endedWithoutMetadata : BackendError := .other "flight ended without metadata".toList
def stalledBeforeMetadata (budget : Text) : BackendError :=
  .other ("flight stalled before metadata: no progress for ".toList ++ budget)

structure ResolvedKey where
  cacheKey : Text
  backendKey : Text
  upstreamId : Text

structure CacheProfile where
  nocache : Bool
  minFileSize : Nat

/-- What is configured for the request's upstream. -/
structure Site where
  magazine : Magazine.Config
  revalidateTtlSecs : Nat
  windows : Sessions.Config
  redirectCapable : Bool
  profile : CacheProfile

/-- What a request for the key finds on the node. -/
structure Node where
  cache : CacheState
  files : Files
  dir : Dir
  knownEtag : Option Text
  inUse : Bool

/-- What a flight has published when its waiter looks; a finished driver has changed
rows and files before. -/
inductive FlightProgress
  | published (objectMeta : ObjectMeta)
  | done (cache : CacheState) (files : Files)
  | failed (error : BackendError)
  | ended
  | stalled (budget : Text)

structure RunWindow where
  start : Nat
  stop : Nat
deriving DecidableEq, Repr

/-- What the clock, the disk, the upstream and the other tasks answer during one
request. -/
structure Surroundings where
  registered : Bool
  link : Option Text
  redirectAllowed : Text → Bool
  stat : Except BackendError ObjectMeta
  gateOpen : Bool
  opens : Option ByteRange → Except BackendError Unit
  free : List (Text × Nat) → Option Nat
  covering : Nat → Nat → Option RunWindow
  starts : Nat → Nat → Option RunWindow
  flight : FlightProgress
  solo : FlightProgress
  mime : Text → Option Text → Option Text
  peekNow : Nat
  passNow : Nat
  failNow : Nat
  hitNow : Nat

structure HitMeta where
  size : Nat
  etag : Option Text
  contentType : Option Text
  lastModified : Option Text
deriving DecidableEq, Repr

structure ContentRange where
  first : Nat
  last : Nat
  total : Nat
deriving DecidableEq, Repr

inductive Source
  | disk | stage | upstream
deriving DecidableEq, Repr

inductive Body
  | file (offset len : Nat)
  | growing (solo : Bool) (start : Nat) (len : Option Nat)
  | staged (pieces : List Piece)
  | run (pieces : List Piece) (window : RunWindow) (start stop : Nat)
  | upstream (opened : Option ByteRange)
  | prefixed (pieces : List Piece) (opened : ByteRange)
  | sunk (pieces : List Piece) (opened : ByteRange)
deriving DecidableEq, Repr

inductive CacheOutcome
  | hit | miss | stale | revalidated
deriving DecidableEq, Repr

structure CacheHit where
  outcome : CacheOutcome
  objectMeta : HitMeta
  contentRange : Option ContentRange
  contentLength : Option Nat
  body : Body
  source : Source
deriving DecidableEq, Repr

structure PassthroughHit where
  objectMeta : HitMeta
  etag : Option Text
  total : Nat
  contentRange : Option ContentRange
  contentLength : Option Nat
  body : Body
  source : Source
deriving DecidableEq, Repr

structure StreamPlan where
  status : Nat
  objectMeta : HitMeta
  contentRange : Option ContentRange
  contentLength : Option Nat
  body : Body
  stale : Bool
  source : Source
deriving DecidableEq, Repr

inductive ServeOutcome
  | redirect (location : Text)
  | stream (plan : StreamPlan)
deriving DecidableEq, Repr

def forSpan (total first stop : Nat) (requested : Bool) : Option ContentRange :=
  if requested = true ∧ first < stop then some ⟨first, stop - 1, total⟩ else none

def streamPlan (objectMeta : HitMeta) (contentRange : Option ContentRange) (contentLength : Option Nat)
    (body : Body) (stale : Bool) (source : Source) : StreamPlan :=
  ⟨if contentRange.isSome then 206 else 200, objectMeta, contentRange, contentLength, body, stale, source⟩

def PassthroughHit.intoCacheHit (hit : PassthroughHit) (outcome : CacheOutcome) : CacheHit :=
  ⟨outcome, hit.objectMeta, hit.contentRange, hit.contentLength, hit.body, .upstream⟩

section Requests
variable (site : Site) (env : Surroundings) (rk : ResolvedKey) (range : Option ByteRange)

def hitMetaRemote (m : ObjectMeta) : HitMeta := ⟨m.sizeBytes, m.etag, env.mime rk.cacheKey m.mimeHint, m.lastModified⟩

def hitMetaEntry (m : EntryHeaders) : HitMeta := ⟨m.sizeBytes, m.etag, env.mime rk.cacheKey m.contentType, m.lastModified⟩

/-- Any row counts, a tombstone too, whatever its deadline. -/
def entryExists (cache : CacheState) (key : Text) : Bool := (cache.entries.lookup key).isSome

def memoryHitFresh (cache : CacheState) : Bool :=
  match Key.validateKey rk.cacheKey with
  | .error _ => false
  | .ok key =>
      match cache.entries.lookup key with
      | some m => m.negativeUntilMillis.isNone && !m.revalidateDue env.peekNow site.revalidateTtlSecs
      | none => false

def serveUpstreamRange (m : ObjectMeta) : Except BackendError PassthroughHit :=
  match resolveRange range m.sizeBytes with
  | none => .error .rangeNotSatisfiable
  | some (start, stop) =>
      if env.gateOpen = false then .error gateClosed
      else
        match env.opens range with
        | .error e => .error e
        | .ok _ => .ok ⟨hitMetaRemote env rk m, m.etag, m.sizeBytes, forSpan m.sizeBytes start stop range.isSome,
            some (wrappingSub stop start), .upstream range, .upstream⟩

def serveNocache : Except BackendError PassthroughHit :=
  if env.registered = false then .error (unknownUpstream rk.upstreamId)
  else
    match env.stat with
    | .error e => .error e
    | .ok m => serveUpstreamRange env rk range m

/-! The ranged path. -/

/-- How the ranged path will answer. -/
inductive Route
  | whole
  | staged (pieces : List Piece)
  | prefixed (pieces : List Piece) (frontier : Nat)
  | run (pieces : List Piece) (frontier : Nat) (window : RunWindow)
  | standalone (pieces : List Piece) (frontier : Nat)
deriving DecidableEq, Repr

def drifted (node : Node) (m : ObjectMeta) : Bool :=
  node.knownEtag.any fun known => m.etag.any (known ≠ ·)

/-- The version gate, the plan over the staged files, the admission of a run and the
run, in this order. -/
def route (node : Node) (m : ObjectMeta) (start stop : Nat) : Route :=
  if drifted node m = true ∧ node.inUse = true then .whole
  else
    let dir := if drifted node m then (resetFiles node.dir rk.cacheKey).1 else node.dir
    let plan := planStaged (segmentsForKey dir rk.cacheKey) start stop
    if stop ≤ plan.frontier then .staged plan.pieces
    else
      let runLen := worstCaseBytes (stop - plan.frontier) (m.sizeBytes - plan.frontier) site.windows
      if runAdmits runLen site.magazine.maxSizeBytes (env.free []) diskReserveBytes = false then
        if plan.pieces = [] then .whole else .prefixed plan.pieces plan.frontier
      else
        match env.covering plan.frontier stop with
        | some window => .run plan.pieces plan.frontier window
        | none =>
            match env.starts plan.frontier (stop - plan.frontier) with
            | some window => .run plan.pieces plan.frontier window
            | none => .standalone plan.pieces plan.frontier

def bounded (frontier stop : Nat) : ByteRange := ⟨frontier, some (stop - frontier)⟩

/-- An open of exactly the rest. A missing object leaves a tombstone. -/
def openRest (cache : CacheState) (opened : ByteRange) (hit : PassthroughHit) :
    Except BackendError PassthroughHit × CacheState :=
  if env.gateOpen = false then (.error gateClosed, cache)
  else
    match env.opens (some opened) with
    | .error .notFound =>
        (.error .notFound, installNegative cache site.magazine rk.cacheKey rk.upstreamId env.failNow)
    | .error e => (.error e, cache)
    | .ok _ => (.ok hit, cache)

/-- What a route answers, with the rows it leaves. -/
def follow (cache : CacheState) (m : ObjectMeta) (start stop : Nat) :
    Route → Except BackendError PassthroughHit × CacheState
  | .whole => (serveUpstreamRange env rk range m, cache)
  | .staged pieces => (.ok (answer (.staged pieces) .stage), cache)
  | .prefixed pieces frontier =>
      openRest site env rk cache (bounded frontier stop) (answer (.prefixed pieces (bounded frontier stop)) .stage)
  | .run pieces frontier window => (.ok (answer (.run pieces window frontier stop) .stage), cache)
  | .standalone pieces frontier =>
      openRest site env rk cache (bounded frontier stop)
        (answer (.sunk pieces (bounded frontier stop)) (if pieces = [] then .upstream else .stage))
where
  answer (body : Body) (source : Source) : PassthroughHit :=
    ⟨hitMetaRemote env rk m, m.etag, m.sizeBytes, forSpan m.sizeBytes start stop range.isSome,
      some (wrappingSub stop start), body, source⟩

def servePassthrough (node : Node) : Except BackendError PassthroughHit × CacheState :=
  if env.registered = false then (.error (unknownUpstream rk.upstreamId), node.cache)
  else if (node.cache.entries.lookup rk.cacheKey).any (·.isNegative env.passNow) then (.error .notFound, node.cache)
  else
    match env.stat with
    | .error .notFound =>
        (.error .notFound, installNegative node.cache site.magazine rk.cacheKey rk.upstreamId env.failNow)
    | .error e => (.error e, node.cache)
    | .ok m =>
        if m.sizeBytes < site.profile.minFileSize then (.error belowMinFileSize, node.cache)
        else
          match resolveRange range m.sizeBytes with
          | none => (.error .rangeNotSatisfiable, node.cache)
          | some (start, stop) =>
              follow site env rk range node.cache m start stop (route site env rk node m start stop)

/-! The ordinary path. -/

def serveFromDisk (cache : CacheState) (files : Files) (outcome : CacheOutcome) :
    Except BackendError (Option CacheHit) :=
  match entryMeta cache rk.cacheKey with
  | none => .ok none
  | some m =>
      if m.negative = true ∨ files.lookup rk.cacheKey = none then .ok none
      else
        match resolveRange range m.sizeBytes with
        | none => .error .rangeNotSatisfiable
        | some (offset, stop) =>
            .ok (some ⟨outcome, hitMetaEntry env rk m, forSpan m.sizeBytes offset stop range.isSome,
              some (wrappingSub stop offset), .file offset (wrappingSub stop offset), .disk⟩)

/-- The hit if there is one, the next answer otherwise. -/
def orElse (found : Except BackendError (Option CacheHit)) (next : Except BackendError CacheHit) :
    Except BackendError CacheHit :=
  match found with
  | .error e => .error e
  | .ok (some hit) => .ok hit
  | .ok none => next

def awaitFlight (solo : Bool) (cache : CacheState) (files : Files) : FlightProgress → Except BackendError CacheHit
  | .published m =>
      match range with
      | none => .ok ⟨.miss, hitMetaRemote env rk m, none, some m.sizeBytes, .growing solo 0 none, .upstream⟩
      | some r =>
          match resolveRange (some r) m.sizeBytes with
          | none => .error .rangeNotSatisfiable
          | some (start, stop) =>
              let want := wrappingSub stop start
              .ok ⟨.miss, hitMetaRemote env rk m, forSpan m.sizeBytes start (wrappingAdd start want) true, some want,
                .growing solo start (some want), .upstream⟩
  | .done cache files => orElse (serveFromDisk env rk range cache files .miss) (.error entryMissing)
  | .failed e => orElse (serveFromDisk env rk range cache files .stale) (.error e)
  | .ended => .error endedWithoutMetadata
  | .stalled budget => .error (stalledBeforeMetadata budget)

/-- Strays yield until the object fits beside the reserve, or do not suffice. -/
def makeRoom (cache : CacheState) (files : Files) (want : Nat) : Bool × CacheState × Files :=
  if hasRoomFor (env.free []) want diskReserveBytes then (true, cache, files)
  else
    let need := min (diskReserveBytes + want) (2 ^ 64 - 1) - (env.free []).getD 0
    let picked := pickStraysForPressure cache site.magazine need
    (hasRoomFor (env.free picked.2) want diskReserveBytes, picked.1, deleteFiles files picked.2)

/-- A pull of an object of known size, or its bytes without a pull. -/
def fetch (solo : Bool) (flight : FlightProgress) (cache : CacheState) (files : Files) (m : ObjectMeta) :
    Except BackendError CacheHit :=
  let room := makeRoom site env cache files m.sizeBytes
  if room.1 = false then (serveUpstreamRange env rk range m).map (·.intoCacheHit .miss)
  else awaitFlight env rk range solo room.2.1 room.2.2 flight

def coldMiss (cache : CacheState) (files : Files) : Except BackendError CacheHit :=
  match env.stat with
  | .error e => .error e
  | .ok m => fetch site env rk range false env.flight cache files m

/-- Whether the row needs a fresh look, and the etag it has. -/
def consult (cache : CacheState) : Except BackendError (Bool × Option Text) :=
  match cache.entries.lookup rk.cacheKey with
  | some m =>
      if m.isNegative env.hitNow then .error .notFound
      else if m.negativeUntilMillis.isSome then .ok (false, none)
      else .ok (m.revalidateDue env.hitNow site.revalidateTtlSecs, m.etag)
  | none => .ok (false, none)

def revalidate (cache : CacheState) (files : Files) (cachedEtag : Option Text) : Except BackendError CacheHit :=
  match env.stat with
  | .ok m =>
      if cachedEtag.isSome = true ∧ cachedEtag = m.etag then
        orElse (serveFromDisk env rk range cache files .revalidated) (coldMiss site env rk range cache files)
      else fetch site env rk range true env.solo cache files m
  | .error .notFound => .error .notFound
  | .error e => orElse (serveFromDisk env rk range cache files .stale) (.error e)

def getResolved (cache : CacheState) (files : Files) : Except BackendError CacheHit :=
  if env.registered = false then .error (unknownUpstream rk.upstreamId)
  else
    match consult site env rk cache with
    | .error e => .error e
    | .ok (false, _) =>
        orElse (serveFromDisk env rk range cache files .hit) (coldMiss site env rk range cache files)
    | .ok (true, cachedEtag) => revalidate site env rk range cache files cachedEtag

def ordinary (cache : CacheState) (files : Files) : Except BackendError ServeOutcome :=
  (getResolved site env rk range cache files).map fun hit =>
    .stream (streamPlan hit.objectMeta hit.contentRange hit.contentLength hit.body (hit.outcome = .stale) hit.source)

/-- The link the relief valve hands out, if the upstream gave one that may be handed
out. -/
def legalLink : Option Text := env.link.filter env.redirectAllowed

def serve (node : Node) : Except BackendError ServeOutcome :=
  match if site.redirectCapable && !memoryHitFresh site env rk node.cache then legalLink env else none with
  | some location => .ok (.redirect location)
  | none =>
      if site.profile.nocache then
        (serveNocache env rk range).map fun hit =>
          .stream (streamPlan hit.objectMeta hit.contentRange hit.contentLength hit.body false .upstream)
      else if range.isSome && !entryExists node.cache rk.cacheKey then
        match servePassthrough site env rk range node with
        | (.ok hit, _) =>
            .ok (.stream (streamPlan hit.objectMeta hit.contentRange hit.contentLength hit.body false hit.source))
        | (.error _, cache) => ordinary site env rk range cache node.files
      else ordinary site env rk range node.cache node.files

end Requests

end OriginCache.Cache.Serving
