import OriginCache.Cache.Serving
import OriginCache.Cache.Victims

/-! What a tombstone does once its deadline has passed. The ordinary path sees through
it; the ranged path is not tried. -/

namespace OriginCache.Cache.Tombstones
open Foundation.Tables SegName Meta Magazine Serving
open DiskHit (Files ByteRange resolveRange entryMeta wrappingSub)
open Victims (lookup_removeRow)

/-- A tombstone that no longer answers. -/
structure Lapsed (m : EntryMeta) (now : Nat) : Prop where
  past : ∃ deadline, m.negativeUntilMillis = some deadline ∧ deadline ≤ now
  member : m.oversize = false

def Node.without (node : Node) (key : Text) (m : EntryMeta) : Node :=
  { node with cache := removeRow node.cache key m }

section Requests
variable (site : Site) (env : Surroundings) (rk : ResolvedKey) (range : Option ByteRange)

/-- The error of an open, if it is refused. -/
def refusal (opened : Option ByteRange) : Option BackendError :=
  if env.gateOpen = false then some gateClosed
  else match env.opens opened with
    | .error e => some e
    | .ok _ => none

def roomFor (node : Node) (m : ObjectMeta) : Bool := (makeRoom site env node.cache node.files m.sizeBytes).1

/-- The ordinary path would end in the same not-found. -/
def MissesToo (node : Node) (m : ObjectMeta) : Prop :=
  if roomFor site env node m = true then env.flight = .failed .notFound else refusal env range = some .notFound

/-- The ordinary path gives the answer of this route, or the route gives none. -/
def Yields (node : Node) (m : ObjectMeta) (stop : Nat) : Route → Prop
  | .whole => refusal env range ≠ none ∨ roomFor site env node m = false
  | .staged _ => False
  | .run _ _ _ => False
  | .prefixed _ frontier => rest frontier
  | .standalone _ frontier => rest frontier
where
  rest (frontier : Nat) : Prop :=
    ∃ e, refusal env (some (bounded frontier stop)) = some e ∧
      (e = .notFound → env.failNow + site.magazine.negativeTtlSecs * 1000 ≤ env.hitNow ∨
        MissesToo site env range node m)

/-- The ranged path is not asked, or has nothing of its own to say. -/
def Inert (node : Node) : Prop :=
  range = none ∨ site.profile.nocache = true ∨ (site.redirectCapable = true ∧ legalLink env ≠ none) ∨
    env.registered = false ∨ (∃ e, env.stat = .error e) ∨
    ∃ m, env.stat = .ok m ∧ (m.sizeBytes < site.profile.minFileSize ∨ resolveRange range m.sizeBytes = none ∨
      ∃ start stop, resolveRange range m.sizeBytes = some (start, stop) ∧
        Yields site env range node m stop (route site env rk node m start stop))

end Requests

/-! States that differ in a lapsed tombstone only. -/

def Quiet (cache : CacheState) (key : Text) (now : Nat) : Prop :=
  ∀ m, cache.entries.lookup key = some m → Lapsed m now

/-- The same rows at every other key, and the same strays in the same order. -/
structure Beside (key : Text) (now : Nat) (one other : CacheState) : Prop where
  left : Quiet one key now
  right : Quiet other key now
  rows : ∀ k, k ≠ key → one.entries.lookup k = other.entries.lookup k
  strays : one.entries.entries.filter (fun entry => entry.2.oversize) =
    other.entries.entries.filter (fun entry => entry.2.oversize)

/-- Every tombstone lapses with its deadline. -/
theorem lapsed_tombstone (config : Magazine.Config) (key upstreamId : Text) (written now : Nat)
    (past : written + config.negativeTtlSecs * 1000 ≤ now) : Lapsed (tombstone config key upstreamId written) now :=
  ⟨⟨_, rfl, past⟩, rfl⟩

theorem quiet_tombstone (m : EntryMeta) (now : Nat) (lapsed : Lapsed m now) :
    m.isNegative now = false ∧ m.negativeUntilMillis.isSome = true := by
  obtain ⟨deadline, written, past⟩ := lapsed.past
  unfold EntryMeta.isNegative
  rw [written]
  exact ⟨decide_eq_false (Nat.not_lt.mpr past), rfl⟩

/-- Erasing a row that is no stray leaves the strays. -/
theorem filter_kerase (entries : List (Sigma fun _ : Text => EntryMeta)) (key : Text)
    (member : ∀ m, entries.dlookup key = some m → m.oversize = false) :
    (entries.kerase key).filter (fun entry => entry.2.oversize) = entries.filter fun entry => entry.2.oversize := by
  induction entries with
  | nil => rfl
  | cons entry rest ih =>
    obtain ⟨k, m⟩ := entry
    by_cases same : key = k
    · subst same
      have plain := member m (List.dlookup_cons_eq rest key m)
      have erased : List.kerase key (⟨key, m⟩ :: rest) = rest := List.kerase_cons_eq rfl
      rw [erased, List.filter_cons_of_neg (by simpa using plain)]
    · have rest_ := ih fun other found => member other (by rw [List.dlookup_cons_ne rest ⟨k, m⟩ same]; exact found)
      rw [List.kerase_cons_ne same, List.filter_cons, List.filter_cons, rest_]

theorem beside_removeRow (cache : CacheState) (key : Text) (m : EntryMeta) (now : Nat)
    (row : cache.entries.lookup key = some m) (lapsed : Lapsed m now) :
    Beside key now cache (removeRow cache key m) := by
  apply Beside.mk
  · intro found same
    rw [row] at same
    rw [← Option.some.inj same]
    exact lapsed
  · intro found same
    rw [lookup_removeRow, if_pos rfl] at same
    cases same
  · intro k differs
    rw [lookup_removeRow, if_neg differs]
  · symm
    apply filter_kerase
    intro found same
    have given : cache.entries.lookup key = some found := same
    rw [row] at given
    rw [← Option.some.inj given]
    exact lapsed.member

theorem beside_installNegative (cache one : CacheState) (config : Magazine.Config) (key upstreamId : Text)
    (now written : Nat) (beside : Beside key now one cache)
    (past : written + config.negativeTtlSecs * 1000 ≤ now) :
    Beside key now one (installNegative cache config key upstreamId written) := by
  apply Beside.mk beside.left
  · intro found same
    rw [installNegative, AList.lookup_insert] at same
    rw [← Option.some.inj same]
    exact lapsed_tombstone config key upstreamId written now past
  · intro k differs
    rw [installNegative, AList.lookup_insert_ne differs]
    exact beside.rows k differs
  · rw [beside.strays, installNegative, AList.entries_insert, List.filter_cons_of_neg Bool.false_ne_true]
    symm
    apply filter_kerase
    exact fun found same => (beside.right found same).member

/-! The ordinary path. -/

/-- Taking rows looks at the listed keys only. -/
theorem takeRows_beside (bytesOver rowsOver freed : Nat) (key : Text) (one other : CacheState) (out : List (Text × Nat))
    (keys : List Text) (rows : ∀ k, k ≠ key → one.entries.lookup k = other.entries.lookup k) (apart : key ∉ keys) :
    (takeRows bytesOver rowsOver freed one out keys).2 = (takeRows bytesOver rowsOver freed other out keys).2 := by
  induction keys generalizing freed one other out with
  | nil => rfl
  | cons k keys ih =>
    have differs : k ≠ key := fun same => apart (by rw [same]; exact List.mem_cons_self)
    have later : key ∉ keys := fun member => apart (List.mem_cons_of_mem _ member)
    rw [takeRows, takeRows, rows k differs]
    split_ifs
    · rfl
    · cases other.entries.lookup k with
      | none => exact ih _ _ _ _ rows later
      | some m =>
        apply ih _ _ _ _ _ later
        intro k' apart'
        rw [lookup_removeRow, lookup_removeRow, rows k' apart']

theorem strays_apart (cache : CacheState) (config : Magazine.Config) (key : Text)
    (member : ∀ m, cache.entries.lookup key = some m → m.oversize = false) :
    key ∉ oldestFirst cache config fun _ m => m.oversize := by
  intro listed
  obtain ⟨aged, inside, same⟩ := List.mem_map.mp listed
  obtain ⟨entry, stray, named⟩ := List.mem_map.mp ((List.mem_insertionSort _).mp inside)
  obtain ⟨present, oversize⟩ := List.mem_filter.mp stray
  have key_ : entry.1 = key := by rw [← same, ← named]
  have row : cache.entries.lookup key = some entry.2 := by
    subst key_
    exact (List.mem_dlookup_iff cache.entries.nodupKeys).mpr present
  change entry.2.oversize = true at oversize
  rw [member entry.2 row] at oversize
  cases oversize

theorem makeRoom_beside (site : Site) (env : Surroundings) (key : Text) (one other : CacheState) (files : Files)
    (want : Nat) (beside : Beside key env.hitNow one other) :
    (makeRoom site env one files want).1 = (makeRoom site env other files want).1 ∧
      (makeRoom site env one files want).2.2 = (makeRoom site env other files want).2.2 ∧
      Quiet (makeRoom site env one files want).2.1 key env.hitNow ∧
      Quiet (makeRoom site env other files want).2.1 key env.hitNow := by
  unfold makeRoom
  split_ifs with fits
  · exact ⟨rfl, rfl, beside.left, beside.right⟩
  · generalize min (Pulls.diskReserveBytes + want) (2 ^ 64 - 1) - (env.free []).getD 0 = need
    have victims : (pickStraysForPressure one site.magazine need).2 = (pickStraysForPressure other site.magazine need).2 := by
      unfold pickStraysForPressure
      split_ifs
      · rfl
      · have order : (oldestFirst one site.magazine fun _ m => m.oversize) =
            oldestFirst other site.magazine fun _ m => m.oversize := by
          unfold oldestFirst
          rw [beside.strays]
        rw [order]
        exact takeRows_beside _ _ _ key _ _ _ _ beside.rows
          (strays_apart other site.magazine key fun m row => (beside.right m row).member)
    have fewer (cache : CacheState) (quiet : Quiet cache key env.hitNow) :
        Quiet (pickStraysForPressure cache site.magazine need).1 key env.hitNow :=
      fun m row => quiet m (fewer_pickStrays cache site.magazine need key m row)
    dsimp only
    exact ⟨by rw [victims], by rw [victims], fewer one beside.left, fewer other beside.right⟩

section Requests
variable (site : Site) (env : Surroundings) (rk : ResolvedKey) (range : Option ByteRange)

theorem serveFromDisk_quiet (cache : CacheState) (files : Files) (outcome : CacheOutcome)
    (quiet : Quiet cache rk.cacheKey env.hitNow) :
    serveFromDisk env rk range cache files outcome = .ok none := by
  unfold serveFromDisk entryMeta
  cases row : cache.entries.lookup rk.cacheKey with
  | none => rfl
  | some m =>
    have silent := (quiet_tombstone m env.hitNow (quiet m row)).2
    simp only [Option.map_some, silent, true_or, if_true]

theorem awaitFlight_quiet (solo : Bool) (one other : CacheState) (files : Files) (flight : FlightProgress)
    (left : Quiet one rk.cacheKey env.hitNow) (right : Quiet other rk.cacheKey env.hitNow) :
    awaitFlight env rk range solo one files flight = awaitFlight env rk range solo other files flight := by
  cases flight with
  | published m => rfl
  | done cache files => rfl
  | failed e =>
    rw [awaitFlight, awaitFlight, serveFromDisk_quiet env rk range one files .stale left,
      serveFromDisk_quiet env rk range other files .stale right]
  | ended => rfl
  | stalled budget => rfl

theorem fetch_beside (solo : Bool) (flight : FlightProgress) (one other : CacheState) (files : Files) (m : ObjectMeta)
    (beside : Beside rk.cacheKey env.hitNow one other) :
    fetch site env rk range solo flight one files m = fetch site env rk range solo flight other files m := by
  obtain ⟨fits, left, quiet, silent⟩ := makeRoom_beside site env rk.cacheKey one other files m.sizeBytes beside
  unfold fetch
  simp only
  rw [fits, left, awaitFlight_quiet env rk range solo _ _ _ flight quiet silent]

/-- A quiet row is no hit, and nothing to revalidate. -/
theorem getResolved_quiet (cache : CacheState) (files : Files) (quiet : Quiet cache rk.cacheKey env.hitNow) :
    getResolved site env rk range cache files =
      if env.registered = false then .error (unknownUpstream rk.upstreamId)
      else coldMiss site env rk range cache files := by
  have missing := serveFromDisk_quiet env rk range cache files .hit quiet
  have nothing : consult site env rk cache = .ok (false, none) := by
    unfold consult
    cases row : cache.entries.lookup rk.cacheKey with
    | none => rfl
    | some m =>
      obtain ⟨past, silent⟩ := quiet_tombstone m env.hitNow (quiet m row)
      simp only [past, silent, if_true, Bool.false_eq_true, if_false]
  unfold getResolved
  rw [nothing]
  simp only
  rw [missing]
  rfl

theorem ordinary_beside (one other : CacheState) (files : Files) (beside : Beside rk.cacheKey env.hitNow one other) :
    ordinary site env rk range one files = ordinary site env rk range other files := by
  have same : coldMiss site env rk range one files = coldMiss site env rk range other files := by
    unfold coldMiss
    cases env.stat with
    | error e => rfl
    | ok m => exact fetch_beside site env rk range false env.flight one other files m beside
  unfold ordinary
  rw [getResolved_quiet site env rk range one files beside.left,
    getResolved_quiet site env rk range other files beside.right, same]

/-- A tombstone that still answers ends the ordinary path. -/
theorem ordinary_fresh (cache : CacheState) (files : Files) (written : Nat) (registered : env.registered = true)
    (fresh : env.hitNow < written + site.magazine.negativeTtlSecs * 1000) :
    ordinary site env rk range (installNegative cache site.magazine rk.cacheKey rk.upstreamId written) files =
      .error .notFound := by
  have found : consult site env rk (installNegative cache site.magazine rk.cacheKey rk.upstreamId written) =
      .error .notFound := by
    unfold consult installNegative
    rw [AList.lookup_insert]
    simp [EntryMeta.isNegative, tombstone, fresh]
  unfold ordinary getResolved
  rw [found, registered]
  rfl

/-- What a quiet row leaves to the stat. -/
theorem ordinary_quiet (cache : CacheState) (files : Files) (m : ObjectMeta) (registered : env.registered = true)
    (stat : env.stat = .ok m) (quiet : Quiet cache rk.cacheKey env.hitNow) :
    ordinary site env rk range cache files =
      (fetch site env rk range false env.flight cache files m).map fun hit =>
        .stream (streamPlan hit.objectMeta hit.contentRange hit.contentLength hit.body (hit.outcome = .stale) hit.source) := by
  unfold ordinary
  rw [getResolved_quiet site env rk range cache files quiet, registered, coldMiss, stat]
  rfl

theorem ordinary_error (cache : CacheState) (files : Files) (e : BackendError) (registered : env.registered = true)
    (stat : env.stat = .error e) (quiet : Quiet cache rk.cacheKey env.hitNow) :
    ordinary site env rk range cache files = .error e := by
  unfold ordinary
  rw [getResolved_quiet site env rk range cache files quiet, registered, coldMiss, stat]
  rfl

theorem serveUpstreamRange_eq (m : ObjectMeta) (start stop : Nat) (resolved : resolveRange range m.sizeBytes = some (start, stop)) :
    serveUpstreamRange env rk range m =
      match refusal env range with
      | some e => .error e
      | none => .ok ⟨hitMetaRemote env rk m, m.etag, m.sizeBytes, forSpan m.sizeBytes start stop range.isSome,
          some (wrappingSub stop start), .upstream range, .upstream⟩ := by
  unfold serveUpstreamRange refusal
  rw [resolved]
  by_cases closed : env.gateOpen = false
  · simp only [closed, if_true]
  · simp only [closed]
    cases env.opens range <;> rfl

theorem openRest_eq (cache : CacheState) (opened : ByteRange) (hit : PassthroughHit) :
    openRest site env rk cache opened hit =
      match refusal env (some opened) with
      | some .notFound => (.error .notFound, installNegative cache site.magazine rk.cacheKey rk.upstreamId env.failNow)
      | some e => (.error e, cache)
      | none => (.ok hit, cache) := by
  unfold openRest refusal
  by_cases closed : env.gateOpen = false
  · simp only [closed, if_true]
    rfl
  · simp only [closed]
    cases env.opens (some opened) with
    | error e => cases e <;> rfl
    | ok _ => rfl

/-! Which bodies the ordinary path can have. -/

def pulled : Body → Bool
  | .file _ _ => true
  | .growing _ _ _ => true
  | _ => false

theorem serveFromDisk_pulled (cache : CacheState) (files : Files) (outcome : CacheOutcome) (hit : CacheHit)
    (found : serveFromDisk env rk range cache files outcome = .ok (some hit)) : pulled hit.body = true := by
  unfold serveFromDisk at found
  cases headers : entryMeta cache rk.cacheKey with
  | none =>
    rw [headers] at found
    cases found
  | some m =>
    rw [headers] at found
    simp only at found
    split_ifs at found
    · cases found
    · cases resolved : resolveRange range m.sizeBytes with
      | none =>
        rw [resolved] at found
        cases found
      | some span =>
        rw [resolved] at found
        cases found
        rfl

theorem serveFromDisk_error (cache : CacheState) (files : Files) (outcome : CacheOutcome) (e : BackendError)
    (failed : serveFromDisk env rk range cache files outcome = .error e) : e = .rangeNotSatisfiable := by
  unfold serveFromDisk at failed
  cases headers : entryMeta cache rk.cacheKey with
  | none =>
    rw [headers] at failed
    cases failed
  | some m =>
    rw [headers] at failed
    simp only at failed
    split_ifs at failed
    cases resolved : resolveRange range m.sizeBytes with
    | none =>
      rw [resolved] at failed
      cases failed
      rfl
    | some span =>
      rw [resolved] at failed
      cases failed

theorem awaitFlight_pulled (solo : Bool) (cache : CacheState) (files : Files) (flight : FlightProgress) (hit : CacheHit)
    (quiet : Quiet cache rk.cacheKey env.hitNow) (served : awaitFlight env rk range solo cache files flight = .ok hit) :
    pulled hit.body = true := by
  cases flight with
  | published m =>
    cases range with
    | none =>
      cases served
      rfl
    | some r =>
      rw [awaitFlight] at served
      cases resolved : resolveRange (some r) m.sizeBytes with
      | none =>
        simp only [resolved] at served
        cases served
      | some span =>
        simp only [resolved] at served
        cases served
        rfl
  | done cache files =>
    rw [awaitFlight] at served
    cases found : serveFromDisk env rk range cache files .miss with
    | error e =>
      rw [found] at served
      cases served
    | ok other =>
      rw [found] at served
      cases other with
      | none => cases served
      | some hit =>
        cases served
        exact serveFromDisk_pulled env rk range cache files .miss hit found
  | failed e =>
    rw [awaitFlight, serveFromDisk_quiet env rk range cache files .stale quiet] at served
    cases served
  | ended => cases served
  | stalled budget => cases served

theorem awaitFlight_missing (solo : Bool) (cache : CacheState) (files : Files) (flight : FlightProgress)
    (quiet : Quiet cache rk.cacheKey env.hitNow) :
    awaitFlight env rk range solo cache files flight = .error .notFound ↔ flight = .failed .notFound := by
  cases flight with
  | published m =>
    cases range with
    | none => simp [awaitFlight]
    | some r =>
      rw [awaitFlight]
      cases resolveRange (some r) m.sizeBytes <;> simp
  | done cache files =>
    rw [awaitFlight]
    cases found : serveFromDisk env rk range cache files .miss with
    | error e =>
      rw [serveFromDisk_error env rk range cache files .miss e found]
      simp [orElse]
    | ok other => cases other <;> simp [orElse, entryMissing]
  | failed e =>
    rw [awaitFlight, serveFromDisk_quiet env rk range cache files .stale quiet]
    simp [orElse]
  | ended => simp [awaitFlight, endedWithoutMetadata]
  | stalled budget => simp [awaitFlight, stalledBeforeMetadata]

theorem beside_refl (key : Text) (now : Nat) (cache : CacheState) (quiet : Quiet cache key now) :
    Beside key now cache cache :=
  ⟨quiet, quiet, fun _ _ => rfl, rfl⟩

theorem quiet_makeRoom (key : Text) (cache : CacheState) (files : Files) (want : Nat) (quiet : Quiet cache key env.hitNow) :
    Quiet (makeRoom site env cache files want).2.1 key env.hitNow :=
  (makeRoom_beside site env key cache cache files want (beside_refl key env.hitNow cache quiet)).2.2.1

/-- A body of the ordinary path is the object's file, or one stream of the request's
own range where there is no room. -/
theorem fetch_body (cache : CacheState) (files : Files) (m : ObjectMeta) (hit : CacheHit)
    (quiet : Quiet cache rk.cacheKey env.hitNow)
    (served : fetch site env rk range false env.flight cache files m = .ok hit) :
    pulled hit.body = true ∨ ((makeRoom site env cache files m.sizeBytes).1 = false ∧ hit.body = .upstream range) := by
  unfold fetch at served
  simp only at served
  split_ifs at served with room
  · apply Or.inr
    refine ⟨room, ?_⟩
    cases resolved : resolveRange range m.sizeBytes with
    | none =>
      unfold serveUpstreamRange at served
      rw [resolved] at served
      cases served
    | some span =>
      rw [serveUpstreamRange_eq env rk range m span.1 span.2 resolved] at served
      cases refused : refusal env range with
      | some e =>
        rw [refused] at served
        cases served
      | none =>
        rw [refused] at served
        cases served
        rfl
  · exact Or.inl (awaitFlight_pulled env rk range false _ _ env.flight hit (quiet_makeRoom site env _ cache files _ quiet) served)

theorem ordinary_body (cache : CacheState) (files : Files) (m : ObjectMeta) (plan : StreamPlan)
    (registered : env.registered = true) (stat : env.stat = .ok m) (quiet : Quiet cache rk.cacheKey env.hitNow)
    (served : ordinary site env rk range cache files = .ok (.stream plan)) :
    pulled plan.body = true ∨ ((makeRoom site env cache files m.sizeBytes).1 = false ∧ plan.body = .upstream range) := by
  rw [ordinary_quiet site env rk range cache files m registered stat quiet] at served
  cases fetched : fetch site env rk range false env.flight cache files m with
  | error e =>
    rw [fetched] at served
    cases served
  | ok hit =>
    rw [fetched] at served
    cases served
    exact fetch_body site env rk range cache files m hit quiet fetched

/-- When the ordinary path ends in a not-found of its own. -/
theorem ordinary_missing (node : Node) (m : ObjectMeta) (start stop : Nat) (registered : env.registered = true)
    (stat : env.stat = .ok m) (quiet : Quiet node.cache rk.cacheKey env.hitNow)
    (resolved : resolveRange range m.sizeBytes = some (start, stop)) :
    ordinary site env rk range node.cache node.files = .error .notFound ↔ MissesToo site env range node m := by
  rw [ordinary_quiet site env rk range node.cache node.files m registered stat quiet]
  unfold MissesToo roomFor fetch
  simp only
  by_cases room : (makeRoom site env node.cache node.files m.sizeBytes).1 = false
  · rw [if_pos room, if_neg (by rw [room]; exact Bool.false_ne_true), serveUpstreamRange_eq env rk range m start stop resolved]
    cases refusal env range with
    | some e => simp [Except.map]
    | none => simp [Except.map]
  · have fits : (makeRoom site env node.cache node.files m.sizeBytes).1 = true := by simpa using room
    rw [if_neg room, if_pos fits, ← awaitFlight_missing env rk range false _ (makeRoom site env node.cache node.files m.sizeBytes).2.2
      env.flight (quiet_makeRoom site env _ node.cache node.files _ quiet)]
    generalize awaitFlight env rk range false _ _ env.flight = awaited
    cases awaited <;> simp [Except.map]

/-- What the ranged path's answer becomes. -/
def settle (files : Files) (answer : Except BackendError PassthroughHit × CacheState) : Except BackendError ServeOutcome :=
  match answer with
  | (.ok hit, _) => .ok (.stream (streamPlan hit.objectMeta hit.contentRange hit.contentLength hit.body false hit.source))
  | (.error _, cache) => ordinary site env rk range cache files

/-- A route gives the ordinary path's answer in these cases only. -/
theorem settle_iff (node : Node) (cache : CacheState) (m : ObjectMeta) (start stop : Nat) (way : Route)
    (registered : env.registered = true) (stat : env.stat = .ok m)
    (beside : Beside rk.cacheKey env.hitNow node.cache cache)
    (resolved : resolveRange range m.sizeBytes = some (start, stop)) :
    ordinary site env rk range node.cache node.files =
        settle site env rk range node.files (follow site env rk range cache m start stop way) ↔
      Yields site env range node m stop way := by
  have same := ordinary_beside site env rk range node.cache cache node.files beside
  have body (plan : StreamPlan) := ordinary_body site env rk range node.cache node.files m plan registered stat beside.left
  have distinct (hit : PassthroughHit) (kept : CacheState) (other : pulled hit.body = false)
      (apart : hit.body ≠ .upstream range) :
      ¬ ordinary site env rk range node.cache node.files = settle site env rk range node.files (.ok hit, kept) := by
    intro served
    cases body _ served with
    | inl file => exact Bool.false_ne_true (other.symm.trans file)
    | inr stream => exact apart stream.2
  have rest (frontier : Nat) (hit : PassthroughHit) (other : pulled hit.body = false) (apart : hit.body ≠ .upstream range) :
      ordinary site env rk range node.cache node.files =
          settle site env rk range node.files (openRest site env rk cache (bounded frontier stop) hit) ↔
        Yields.rest site env range node m stop frontier := by
    unfold Yields.rest
    rw [openRest_eq]
    cases refused : refusal env (some (bounded frontier stop)) with
    | none =>
      simp only [reduceCtorEq, false_and, exists_false, iff_false]
      exact distinct hit cache other apart
    | some e =>
      by_cases missing : e = .notFound
      · subst missing
        have settled : settle site env rk range node.files
            (.error .notFound, installNegative cache site.magazine rk.cacheKey rk.upstreamId env.failNow) =
            ordinary site env rk range (installNegative cache site.magazine rk.cacheKey rk.upstreamId env.failNow)
              node.files := rfl
        simp only [Option.some.injEq, exists_eq_left', true_imp_iff]
        rw [settled]
        by_cases past : env.failNow + site.magazine.negativeTtlSecs * 1000 ≤ env.hitNow
        · have again := beside_installNegative cache node.cache site.magazine rk.cacheKey rk.upstreamId env.hitNow
            env.failNow beside past
          exact iff_of_true (ordinary_beside site env rk range _ _ node.files again) (Or.inl past)
        · rw [ordinary_fresh site env rk range cache node.files env.failNow registered (Nat.not_le.mp past),
            or_iff_right past, ordinary_missing site env rk range node m start stop registered stat beside.left resolved]
      · have settled : settle site env rk range node.files
            (match some e with
              | some .notFound =>
                (.error .notFound, installNegative cache site.magazine rk.cacheKey rk.upstreamId env.failNow)
              | some e => (.error e, cache)
              | none => (.ok hit, cache)) = ordinary site env rk range cache node.files := by
          cases e <;> first | rfl | exact absurd rfl missing
        rw [settled]
        exact iff_of_true same ⟨e, rfl, fun found => absurd found missing⟩
  cases way with
  | whole =>
    rw [follow, serveUpstreamRange_eq env rk range m start stop resolved]
    cases refused : refusal env range with
    | some e =>
      apply iff_of_true same
      apply Or.inl
      rw [refused]
      exact Option.some_ne_none e
    | none =>
      change _ ↔ refusal env range ≠ none ∨ roomFor site env node m = false
      rw [refused, or_iff_right (fun other => other rfl)]
      constructor
      · intro served
        cases body _ served with
        | inl file => cases file
        | inr stream => exact stream.1
      · intro room
        unfold roomFor at room
        rw [ordinary_quiet site env rk range node.cache node.files m registered stat beside.left, fetch]
        simp only
        rw [if_pos room, serveUpstreamRange_eq env rk range m start stop resolved, refused]
        rfl
  | staged pieces => exact iff_of_false (distinct _ cache rfl (fun same => by cases same)) not_false
  | prefixed pieces frontier => exact rest frontier _ rfl (fun same => by cases same)
  | run pieces frontier window => exact iff_of_false (distinct _ cache rfl (fun same => by cases same)) not_false
  | standalone pieces frontier => exact rest frontier _ rfl (fun same => by cases same)

theorem memoryHitFresh_quiet (cache : CacheState) (quiet : Quiet cache rk.cacheKey env.hitNow) :
    memoryHitFresh site env rk cache = false := by
  unfold memoryHitFresh
  cases valid : Key.validateKey rk.cacheKey with
  | error e => rfl
  | ok key =>
    rw [Key.validateKey_ok rk.cacheKey key valid]
    simp only
    cases row : cache.entries.lookup rk.cacheKey with
    | none => rfl
    | some m =>
      have silent := (quiet_tombstone m env.hitNow (quiet m row)).2
      simp only [Option.isNone_eq_false_iff.mpr silent, Bool.false_and]

/-- The gates of a request whose row is quiet. -/
theorem serve_quiet (node : Node) (quiet : Quiet node.cache rk.cacheKey env.hitNow) :
    serve site env rk range node =
      match if site.redirectCapable then legalLink env else none with
      | some location => .ok (.redirect location)
      | none =>
          if site.profile.nocache then
            (serveNocache env rk range).map fun hit =>
              .stream (streamPlan hit.objectMeta hit.contentRange hit.contentLength hit.body false .upstream)
          else if range.isSome && !entryExists node.cache rk.cacheKey then
            settle site env rk range node.files (servePassthrough site env rk range node)
          else ordinary site env rk range node.cache node.files := by
  unfold serve
  rw [memoryHitFresh_quiet site env rk node.cache quiet, Bool.not_false, Bool.and_true]
  rfl

/-- Where the ranged path asks nobody, its error leads to the same ordinary path. -/
theorem settle_servePassthrough (node : Node) (m : EntryMeta) (registered : env.registered = true)
    (row : node.cache.entries.lookup rk.cacheKey = some m) (lapsed : Lapsed m env.hitNow) :
    ordinary site env rk range node.cache node.files =
        settle site env rk range node.files (servePassthrough site env rk range (Node.without node rk.cacheKey m)) ↔
      (∃ e, env.stat = .error e) ∨
        ∃ m, env.stat = .ok m ∧ (m.sizeBytes < site.profile.minFileSize ∨ resolveRange range m.sizeBytes = none ∨
          ∃ start stop, resolveRange range m.sizeBytes = some (start, stop) ∧
            Yields site env range node m stop (route site env rk node m start stop)) := by
  have beside := beside_removeRow node.cache rk.cacheKey m env.hitNow row lapsed
  have same := ordinary_beside site env rk range _ _ node.files beside
  have absent : (Node.without node rk.cacheKey m).cache.entries.lookup rk.cacheKey = none := by
    change (removeRow node.cache rk.cacheKey m).entries.lookup rk.cacheKey = none
    rw [lookup_removeRow, if_pos rfl]
  unfold servePassthrough
  rw [registered, absent]
  simp only [Bool.true_eq_false, if_false, Option.any_none, Bool.false_eq_true]
  cases stat : env.stat with
  | error e =>
    refine iff_of_true ?_ (Or.inl ⟨e, rfl⟩)
    rw [ordinary_error site env rk range node.cache node.files e registered stat beside.left]
    have kept : settle site env rk range node.files (.error e, removeRow node.cache rk.cacheKey m) = .error e :=
      ordinary_error site env rk range _ node.files e registered stat beside.right
    cases e with
    | notFound =>
      symm
      change ordinary site env rk range (installNegative (removeRow node.cache rk.cacheKey m) site.magazine rk.cacheKey
        rk.upstreamId env.failNow) node.files = _
      by_cases past : env.failNow + site.magazine.negativeTtlSecs * 1000 ≤ env.hitNow
      · have again := beside_installNegative _ node.cache site.magazine rk.cacheKey rk.upstreamId env.hitNow
          env.failNow beside past
        exact ordinary_error site env rk range _ node.files .notFound registered stat again.right
      · exact ordinary_fresh site env rk range _ node.files env.failNow registered (Nat.not_le.mp past)
    | _ => exact kept.symm
  | ok found =>
    simp only [reduceCtorEq, exists_false, false_or, Except.ok.injEq, exists_eq_left']
    by_cases small : found.sizeBytes < site.profile.minFileSize
    · rw [if_pos small]
      exact iff_of_true same (Or.inl small)
    · rw [if_neg small, or_iff_right small]
      cases resolved : resolveRange range found.sizeBytes with
      | none => exact iff_of_true same (Or.inl rfl)
      | some span =>
        obtain ⟨start, stop⟩ := span
        simp only [reduceCtorEq, false_or, Option.some.injEq, Prod.mk.injEq]
        have settled := settle_iff site env rk range node _ found start stop (route site env rk node found start stop)
          registered stat beside resolved
        constructor
        · intro answered
          exact ⟨start, stop, ⟨rfl, rfl⟩, settled.mp answered⟩
        · intro yields
          obtain ⟨start', stop', ⟨rfl, rfl⟩, inert⟩ := yields
          exact settled.mpr inert

end Requests

/-- A lapsed tombstone is inert exactly where the ranged path is not asked or has
nothing of its own to say. -/
theorem serve_inert_iff (site : Site) (env : Surroundings) (rk : ResolvedKey) (range : Option ByteRange) (node : Node)
    (m : EntryMeta) (row : node.cache.entries.lookup rk.cacheKey = some m) (lapsed : Lapsed m env.hitNow) :
    serve site env rk range node = serve site env rk range (Node.without node rk.cacheKey m) ↔
      Inert site env rk range node := by
  have beside := beside_removeRow node.cache rk.cacheKey m env.hitNow row lapsed
  have same := ordinary_beside site env rk range _ _ node.files beside
  have present : entryExists node.cache rk.cacheKey = true := by
    unfold entryExists
    rw [row]
    rfl
  have absent : entryExists (Node.without node rk.cacheKey m).cache rk.cacheKey = false := by
    unfold entryExists
    change ((removeRow node.cache rk.cacheKey m).entries.lookup rk.cacheKey).isSome = false
    rw [lookup_removeRow, if_pos rfl]
    rfl
  rw [serve_quiet site env rk range node beside.left, serve_quiet site env rk range (Node.without node rk.cacheKey m) beside.right,
    present, absent]
  unfold Inert
  by_cases valve : site.redirectCapable = true ∧ legalLink env ≠ none
  · obtain ⟨location, given⟩ := Option.ne_none_iff_exists'.mp valve.2
    simp only [valve.1, if_true, given]
    simp
  have shut : (if site.redirectCapable then legalLink env else none) = none := by
    by_cases capable : site.redirectCapable = true
    · rw [if_pos capable]
      by_contra some_
      exact valve ⟨capable, some_⟩
    · rw [if_neg capable]
  rw [shut]
  simp only
  by_cases water : site.profile.nocache = true
  · simp only [water, if_true, true_or, or_true]
  rw [if_neg water, if_neg water]
  cases range with
  | none => exact iff_of_true same (Or.inl rfl)
  | some r =>
    by_cases registered : env.registered = true
    · have settled := settle_servePassthrough site env rk (some r) node m registered row lapsed
      simp only [Option.isSome_some, Bool.not_true, Bool.not_false, Bool.and_false, Bool.and_true, Bool.false_eq_true,
        if_false, if_true, reduceCtorEq, false_or, valve, water, registered, Bool.true_eq_false]
      exact settled
    · simp only [Bool.not_eq_true] at registered
      refine iff_of_true ?_ (Or.inr (Or.inr (Or.inr (Or.inl registered))))
      have unknown : servePassthrough site env rk (some r) (Node.without node rk.cacheKey m) =
          (.error (unknownUpstream rk.upstreamId), removeRow node.cache rk.cacheKey m) := by
        unfold servePassthrough
        rw [if_pos registered]
        rfl
      rw [unknown]
      exact same

/-- A node with plenty of room, and a minute for a tombstone. -/
def roomy : Site := ⟨⟨2 ^ 40, 0, 3600, 60⟩, 60, ⟨64 * 2 ^ 20, 2 ^ 20⟩, false, ⟨false, 0⟩⟩

/-- Fifty gigabytes that the upstream has now, and a run that starts when asked. -/
def fiftyGigabytes : Surroundings where
  registered := true
  link := none
  redirectAllowed _ := true
  stat := .ok ⟨50 * 10 ^ 9, none, none, none⟩
  gateOpen := true
  opens _ := .ok ()
  free _ := none
  covering _ _ := none
  starts frontier need := some ⟨frontier, frontier + need⟩
  flight := .published ⟨50 * 10 ^ 9, none, none, none⟩
  solo := .ended
  mime _ hint := hint
  peekNow := 60000
  passNow := 60000
  failNow := 60000
  hitNow := 60000

def film : ResolvedKey := ⟨['a'], ['a'], ['p']⟩

/-- The object was missing a minute ago. -/
def missed : Node := ⟨⟨AList.singleton ['a'] (tombstone roomy.magazine ['a'] ['p'] 0), 0⟩, ∅, ∅, none, false⟩

theorem missed_row : missed.cache.entries.lookup film.cacheKey = some (tombstone roomy.magazine ['a'] ['p'] 0) := rfl

theorem missed_lapsed : Lapsed (tombstone roomy.magazine ['a'] ['p'] 0) fiftyGigabytes.hitNow :=
  lapsed_tombstone roomy.magazine ['a'] ['p'] 0 60000 (by decide)

theorem missed_whole : serve roomy fiftyGigabytes film none missed =
    serve roomy fiftyGigabytes film none (Node.without missed ['a'] (tombstone roomy.magazine ['a'] ['p'] 0)) :=
  (serve_inert_iff roomy fiftyGigabytes film none missed _ missed_row missed_lapsed).mpr (Or.inl rfl)

/-- Two bytes at the end: a run without the row, the whole object with it. -/
theorem missed_ranged :
    serve roomy fiftyGigabytes film (some ⟨49999999998, some 2⟩) missed =
      .ok (.stream ⟨206, ⟨50000000000, none, none, none⟩, some ⟨49999999998, 49999999999, 50000000000⟩, some 2,
        .growing false 49999999998 (some 2), false, .upstream⟩) ∧
    serve roomy fiftyGigabytes film (some ⟨49999999998, some 2⟩)
        (Node.without missed ['a'] (tombstone roomy.magazine ['a'] ['p'] 0)) =
      .ok (.stream ⟨206, ⟨50000000000, none, none, none⟩, some ⟨49999999998, 49999999999, 50000000000⟩, some 2,
        .run [] ⟨49999999998, 50000000000⟩ 49999999998 50000000000, false, .stage⟩) ∧
    ¬ serve roomy fiftyGigabytes film (some ⟨49999999998, some 2⟩) missed =
      serve roomy fiftyGigabytes film (some ⟨49999999998, some 2⟩)
        (Node.without missed ['a'] (tombstone roomy.magazine ['a'] ['p'] 0)) := by
  have pulled_ : serve roomy fiftyGigabytes film (some ⟨49999999998, some 2⟩) missed =
      .ok (.stream ⟨206, ⟨50000000000, none, none, none⟩, some ⟨49999999998, 49999999999, 50000000000⟩, some 2,
        .growing false 49999999998 (some 2), false, .upstream⟩) := by
    decide
  have run : serve roomy fiftyGigabytes film (some ⟨49999999998, some 2⟩)
        (Node.without missed ['a'] (tombstone roomy.magazine ['a'] ['p'] 0)) =
      .ok (.stream ⟨206, ⟨50000000000, none, none, none⟩, some ⟨49999999998, 49999999999, 50000000000⟩, some 2,
        .run [] ⟨49999999998, 50000000000⟩ 49999999998 50000000000, false, .stage⟩) := by
    decide
  refine ⟨pulled_, run, fun same => ?_⟩
  rw [pulled_, run] at same
  cases same

end OriginCache.Cache.Tombstones
