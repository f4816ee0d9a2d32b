import OriginCache.Cache.Serving

/-! What a HEAD says of an object, beside what a GET of the same range streams. -/

namespace OriginCache.Cache.Heads
open Foundation.Tables SegName Meta Magazine DiskHit Serving

/-- What the client's header asks for, once it is read. -/
inductive RequestedRange
  | absent | single (range : ByteRange) | suffix (count : Nat) | refused
deriving DecidableEq, Repr

inductive RequestedSpan
  | whole | span (offset len : Nat) | unsatisfiable
deriving DecidableEq, Repr

/-- `client_range::resolve`. -/
def requestedSpan : RequestedRange → Nat → RequestedSpan
  | .absent, _ => .whole
  | .refused, _ => .unsatisfiable
  | .suffix n, size => if size = 0 ∨ n = 0 then .unsatisfiable else .span (size - min n size) (min n size)
  | .single r, size =>
      if size ≤ r.offset then .unsatisfiable
      else .span r.offset (wrappingSub ((r.length.map fun l => min (wrappingAdd r.offset l) size).getD size) r.offset)

/-- The headers that tell one representation from another. -/
structure Reply where
  status : Nat
  objectMeta : HitMeta
  contentRange : Option ContentRange
  contentLength : Option Nat
deriving DecidableEq, Repr

section Requests
variable (site : Site) (env : Surroundings) (rk : ResolvedKey)

/-- A fresh row answers from memory, anything else costs a stat. -/
def headResolved (now : Nat) (cache : CacheState) : Except BackendError HitMeta × CacheState :=
  if site.profile.nocache then
    if env.registered = false then (.error (unknownUpstream rk.upstreamId), cache)
    else (env.stat.map (hitMetaRemote env rk), cache)
  else
    match cache.entries.lookup rk.cacheKey with
    | some row =>
        if row.isNegative now then (.error .notFound, cache)
        else if row.negativeUntilMillis.isNone && !row.revalidateDue now site.revalidateTtlSecs then
          (.ok (hitMetaEntry env rk ⟨row.sizeBytes, row.etag, row.lastModified, row.contentType, false⟩), cache)
        else stat cache
    | none => stat cache
where
  stat (cache : CacheState) : Except BackendError HitMeta × CacheState :=
    if env.registered = false then (.error (unknownUpstream rk.upstreamId), cache)
    else
      match env.stat with
      | .ok m => (.ok (hitMetaRemote env rk m), cache)
      | .error .notFound => (.error .notFound, installNegative cache site.magazine rk.cacheKey rk.upstreamId env.failNow)
      | .error e => (.error e, cache)

/-- Always a 200, also for a range. -/
def describe (range : RequestedRange) (objectMeta : HitMeta) : Except BackendError Reply :=
  match requestedSpan range objectMeta.size with
  | .whole => .ok ⟨200, objectMeta, none, some objectMeta.size⟩
  | .span offset len =>
      .ok ⟨200, objectMeta, forSpan objectMeta.size offset (wrappingAdd offset len) true, some len⟩
  | .unsatisfiable => .error .rangeNotSatisfiable

/-- `head_key_inner`, behind the key. -/
def headObject (now : Nat) (range : RequestedRange) (cache : CacheState) : Except BackendError Reply :=
  if range = .refused then .error .rangeNotSatisfiable
  else
    match (headResolved site env rk now cache).1 with
    | .error e => .error e
    | .ok objectMeta => describe range objectMeta

/-- `get_key_inner`, behind the key: a suffix needs the size before it is a range. -/
def getObject (now : Nat) (range : RequestedRange) (node : Node) : Except BackendError ServeOutcome :=
  match range with
  | .refused => .error .rangeNotSatisfiable
  | .absent => serve site env rk none node
  | .single r => serve site env rk (some r) node
  | .suffix n =>
      match headResolved site env rk now node.cache with
      | (.error e, _) => .error e
      | (.ok objectMeta, cache) =>
          match requestedSpan (.suffix n) objectMeta.size with
          | .span offset len => serve site env rk (some ⟨offset, some len⟩) { node with cache := cache }
          | _ => .error .rangeNotSatisfiable

/-! An object that stays what it is. -/

/-- The live row of the key, if there is one, tells what the upstream tells. -/
def Describes (m : ObjectMeta) (cache : CacheState) : Prop :=
  ∀ row, cache.entries.lookup rk.cacheKey = some row → row.negativeUntilMillis = none →
    hitMetaEntry env rk ⟨row.sizeBytes, row.etag, row.lastModified, row.contentType, false⟩ = hitMetaRemote env rk m

/-- What a flight publishes is the object, and the rows it leaves describe it. -/
def Carries (m : ObjectMeta) : FlightProgress → Prop
  | .published found => found = m
  | .done cache _ => Describes env rk m cache
  | _ => True

structure Steady (m : ObjectMeta) (cache : CacheState) : Prop where
  sized : m.sizeBytes < 2 ^ 64
  stat : env.stat = .ok m
  row : Describes env rk m cache
  flight : Carries env rk m env.flight
  solo : Carries env rk m env.solo

/-- The one framing of a range of the object. -/
def framing (range : Option ByteRange) (m : ObjectMeta) : Option (HitMeta × Option ContentRange × Option Nat) :=
  (resolveRange range m.sizeBytes).map fun span =>
    (hitMetaRemote env rk m, forSpan m.sizeBytes span.1 span.2 range.isSome, some (wrappingSub span.2 span.1))

end Requests

section Framed
variable {site : Site} {env : Surroundings} {rk : ResolvedKey} {range : Option ByteRange} {m : ObjectMeta}
  {cache : CacheState}

theorem wrappingSub_zero (n : Nat) (small : n < 2 ^ 64) : wrappingSub n 0 = n := by
  unfold wrappingSub
  omega

theorem wrappingAdd_sub (offset stop : Nat) (first : offset < 2 ^ 64) (last : stop < 2 ^ 64) :
    wrappingAdd offset (wrappingSub stop offset) = stop := by
  unfold wrappingAdd wrappingSub
  omega

/-- Both ends of a resolved range are words. -/
theorem resolveRange_small {size offset stop : Nat} (sized : size < 2 ^ 64)
    (found : resolveRange range size = some (offset, stop)) : offset < 2 ^ 64 ∧ stop < 2 ^ 64 := by
  unfold resolveRange at found
  cases range with
  | none =>
    cases found
    exact ⟨Nat.two_pow_pos 64, sized⟩
  | some r =>
    simp only at found
    split_ifs at found with outside
    cases found
    refine ⟨by omega, ?_⟩
    cases r.length with
    | none => exact sized
    | some l => exact Nat.lt_of_le_of_lt (Nat.min_le_right _ _) sized

theorem resolveRange_inside {size offset stop : Nat} (found : resolveRange range size = some (offset, stop)) :
    stop ≤ size := by
  unfold resolveRange at found
  cases range with
  | none =>
    cases found
    exact Nat.le_refl _
  | some r =>
    simp only at found
    split_ifs at found
    cases found
    cases r.length with
    | none => exact Nat.le_refl _
    | some l => exact Nat.min_le_right _ _

theorem orElse_ok {found : Except BackendError (Option CacheHit)} {next : Except BackendError CacheHit} {hit : CacheHit}
    (answered : orElse found next = .ok hit) : found = .ok (some hit) ∨ (found = .ok none ∧ next = .ok hit) := by
  cases found with
  | error e => cases answered
  | ok found =>
    cases found with
    | none => exact .inr ⟨rfl, answered⟩
    | some other =>
      cases answered
      exact .inl rfl

theorem framing_disk (describes : Describes env rk m cache) {files : Files} {outcome : CacheOutcome} {hit : CacheHit}
    (answered : serveFromDisk env rk range cache files outcome = .ok (some hit)) :
    framing env rk range m = some (hit.objectMeta, hit.contentRange, hit.contentLength) := by
  unfold serveFromDisk at answered
  cases found : entryMeta cache rk.cacheKey with
  | none =>
    rw [found] at answered
    cases answered
  | some headers =>
    rw [found] at answered
    simp only at answered
    by_cases unfit : headers.negative = true ∨ files.lookup rk.cacheKey = none
    · rw [if_pos unfit] at answered
      cases answered
    · rw [if_neg unfit] at answered
      obtain ⟨row, present, rfl⟩ := Option.map_eq_some_iff.mp found
      have live : row.negativeUntilMillis = none := by
        rw [not_or] at unfit
        simpa using unfit.1
      have same := describes row present live
      have size : row.sizeBytes = m.sizeBytes := congrArg HitMeta.size same
      simp only [live, Option.isSome_none, size] at answered same
      cases span : resolveRange range m.sizeBytes with
      | none =>
        rw [span] at answered
        cases answered
      | some ends =>
        rw [span] at answered
        cases answered
        rw [framing, span]
        exact congrArg (fun told => some (told, _, _)) same.symm

theorem framing_upstream {hit : PassthroughHit} (answered : serveUpstreamRange env rk range m = .ok hit) :
    framing env rk range m = some (hit.objectMeta, hit.contentRange, hit.contentLength) := by
  unfold serveUpstreamRange at answered
  cases span : resolveRange range m.sizeBytes with
  | none =>
    rw [span] at answered
    cases answered
  | some ends =>
    rw [span] at answered
    simp only at answered
    split_ifs at answered
    split at answered
    · cases answered
    · cases answered
      rw [framing, span]
      rfl

theorem framing_flight (sized : m.sizeBytes < 2 ^ 64) {solo : Bool} {files : Files} {flight : FlightProgress}
    (describes : Describes env rk m cache) (carries : Carries env rk m flight) {hit : CacheHit}
    (answered : awaitFlight env rk range solo cache files flight = .ok hit) :
    framing env rk range m = some (hit.objectMeta, hit.contentRange, hit.contentLength) := by
  cases flight with
  | published found =>
    cases (show found = m from carries)
    cases range with
    | none =>
      cases answered
      rw [framing, resolveRange, Option.map_some, wrappingSub_zero _ sized]
      rfl
    | some r =>
      simp only [awaitFlight] at answered
      cases span : resolveRange (some r) m.sizeBytes with
      | none =>
        rw [span] at answered
        cases answered
      | some ends =>
        rw [span] at answered
        cases answered
        obtain ⟨first, last⟩ := resolveRange_small sized span
        rw [framing, span, Option.map_some, wrappingAdd_sub ends.1 ends.2 first last]
        rfl
  | done after files' =>
    cases orElse_ok answered with
    | inl found => exact framing_disk carries found
    | inr other => cases other.2
  | failed e =>
    cases orElse_ok answered with
    | inl found => exact framing_disk describes found
    | inr other => cases other.2
  | ended => cases answered
  | stalled budget => cases answered

theorem describes_fewer {after : CacheState} (describes : Describes env rk m cache) (fewer : Fewer cache after) :
    Describes env rk m after :=
  fun row present live => describes row (fewer rk.cacheKey row present) live

theorem describes_makeRoom (describes : Describes env rk m cache) (files : Files) (want : Nat) :
    Describes env rk m (makeRoom site env cache files want).2.1 := by
  unfold makeRoom
  split_ifs
  · exact describes
  · exact describes_fewer describes (fewer_pickStrays cache site.magazine _)

/-- A tombstone describes nothing. -/
theorem describes_buried (now : Nat) :
    Describes env rk m (installNegative cache site.magazine rk.cacheKey rk.upstreamId now) := by
  intro row present live
  cases (AList.lookup_insert cache.entries).symm.trans present
  cases live

variable (steady : Steady env rk m cache)
include steady

theorem framing_fetch {solo : Bool} {flight : FlightProgress} {files : Files} (carries : Carries env rk m flight)
    {hit : CacheHit} (answered : fetch site env rk range solo flight cache files m = .ok hit) :
    framing env rk range m = some (hit.objectMeta, hit.contentRange, hit.contentLength) := by
  unfold fetch at answered
  simp only at answered
  split_ifs at answered
  · cases opened : serveUpstreamRange env rk range m with
    | error e =>
      rw [opened] at answered
      cases answered
    | ok found =>
      rw [opened] at answered
      cases answered
      exact framing_upstream opened
  · exact framing_flight steady.sized (describes_makeRoom steady.row files m.sizeBytes) carries answered

theorem framing_coldMiss {files : Files} {hit : CacheHit} (answered : coldMiss site env rk range cache files = .ok hit) :
    framing env rk range m = some (hit.objectMeta, hit.contentRange, hit.contentLength) := by
  rw [coldMiss, steady.stat] at answered
  exact framing_fetch steady steady.flight answered

/-- What the ordinary path answers from, and that it looked at the row. -/
theorem framing_getResolved {files : Files} {hit : CacheHit} (answered : getResolved site env rk range cache files = .ok hit) :
    framing env rk range m = some (hit.objectMeta, hit.contentRange, hit.contentLength) ∧ env.registered = true ∧
      ∀ row, cache.entries.lookup rk.cacheKey = some row → row.isNegative env.hitNow = false := by
  unfold getResolved at answered
  split_ifs at answered with unknown
  have registered : env.registered = true := by simpa using unknown
  have looked : ∀ due, consult site env rk cache = .ok due →
      ∀ row, cache.entries.lookup rk.cacheKey = some row → row.isNegative env.hitNow = false := by
    intro due consulted row present
    rw [consult, present] at consulted
    simp only at consulted
    split_ifs at consulted with negative
    all_goals exact Bool.eq_false_iff.mpr negative
  split at answered
  · cases answered
  · next etag consulted =>
    refine ⟨?_, registered, looked _ consulted⟩
    cases orElse_ok answered with
    | inl found => exact framing_disk steady.row found
    | inr other => exact framing_coldMiss steady other.2
  · next etag consulted =>
    refine ⟨?_, registered, looked _ consulted⟩
    rw [revalidate, steady.stat] at answered
    simp only at answered
    split_ifs at answered
    · cases orElse_ok answered with
      | inl found => exact framing_disk steady.row found
      | inr other => exact framing_coldMiss steady other.2
    · exact framing_fetch steady steady.solo answered

theorem framing_ordinary {files : Files} {plan : StreamPlan}
    (answered : ordinary site env rk range cache files = .ok (.stream plan)) :
    framing env rk range m = some (plan.objectMeta, plan.contentRange, plan.contentLength) ∧ env.registered = true ∧
      ∀ row, cache.entries.lookup rk.cacheKey = some row → row.isNegative env.hitNow = false := by
  unfold ordinary at answered
  cases resolved : getResolved site env rk range cache files with
  | error e =>
    rw [resolved] at answered
    cases answered
  | ok hit =>
    rw [resolved] at answered
    cases answered
    exact framing_getResolved steady resolved

omit steady in
theorem framing_follow {start stop : Nat} {way : Route} {hit : PassthroughHit} {after : CacheState}
    (span : resolveRange range m.sizeBytes = some (start, stop))
    (answered : follow site env rk range cache m start stop way = (.ok hit, after)) :
    framing env rk range m = some (hit.objectMeta, hit.contentRange, hit.contentLength) := by
  have rest : ∀ (opened : ByteRange) (found : PassthroughHit),
      openRest site env rk cache opened found = (.ok hit, after) → found = hit := by
    intro opened found opens
    unfold openRest at opens
    split_ifs at opens
    · cases opens
    · split at opens
      · cases opens
      · cases opens
      · cases opens
        rfl
  have framed : ∀ (body : Serving.Body) (source : Source), follow.answer env rk range m start stop body source = hit →
      framing env rk range m = some (hit.objectMeta, hit.contentRange, hit.contentLength) := by
    intro body source same
    subst same
    rw [framing, span]
    rfl
  cases way with
  | whole => exact framing_upstream (Prod.mk.inj answered).1
  | staged pieces => exact framed _ _ (Except.ok.inj (Prod.mk.inj answered).1)
  | prefixed pieces frontier => exact framed _ _ (rest _ _ answered)
  | run pieces frontier window => exact framed _ _ (Except.ok.inj (Prod.mk.inj answered).1)
  | standalone pieces frontier => exact framed _ _ (rest _ _ answered)

omit steady in
/-- A failed attempt leaves the rows alone, or a tombstone. -/
theorem follow_describes (describes : Describes env rk m cache) (found : ObjectMeta) (start stop : Nat) (way : Route) :
    Describes env rk m (follow site env rk range cache found start stop way).2 := by
  have rest : ∀ (opened : ByteRange) (hit : PassthroughHit), Describes env rk m (openRest site env rk cache opened hit).2 := by
    intro opened hit
    unfold openRest
    split_ifs
    · exact describes
    · split
      · exact describes_buried env.failNow
      · exact describes
      · exact describes
  cases way with
  | whole => exact describes
  | staged pieces => exact describes
  | prefixed pieces frontier => exact rest _ _
  | run pieces frontier window => exact describes
  | standalone pieces frontier => exact rest _ _

theorem framing_passthrough {node : Node} (here : node.cache = cache) {hit : PassthroughHit} {after : CacheState}
    (answered : servePassthrough site env rk range node = (.ok hit, after)) :
    framing env rk range m = some (hit.objectMeta, hit.contentRange, hit.contentLength) ∧ env.registered = true := by
  subst here
  unfold servePassthrough at answered
  rw [steady.stat] at answered
  simp only at answered
  split_ifs at answered with unknown
  · cases answered
  · cases answered
  · cases answered
  · refine ⟨?_, by simpa using unknown⟩
    cases span : resolveRange range m.sizeBytes with
    | none =>
      rw [span] at answered
      cases answered
    | some ends =>
      rw [span] at answered
      exact framing_follow span answered

theorem passthrough_describes {node : Node} (here : node.cache = cache) :
    Describes env rk m (servePassthrough site env rk range node).2 := by
  subst here
  unfold servePassthrough
  rw [steady.stat]
  simp only
  split_ifs
  · exact steady.row
  · exact steady.row
  · exact steady.row
  · split
    · exact steady.row
    · exact follow_describes steady.row _ _ _ _

/-- Every stream frames its range of the one object, and no live tombstone was passed over. -/
theorem framing_serve {node : Node} (here : node.cache = cache) {plan : StreamPlan}
    (answered : serve site env rk range node = .ok (.stream plan)) :
    framing env rk range m = some (plan.objectMeta, plan.contentRange, plan.contentLength) ∧ env.registered = true ∧
      (site.profile.nocache = true ∨
        ∀ row, cache.entries.lookup rk.cacheKey = some row → row.isNegative env.hitNow = false) := by
  unfold serve at answered
  split at answered
  · cases answered
  · split_ifs at answered with plain ranged
    · cases opened : serveNocache env rk range with
      | error e =>
        rw [opened] at answered
        cases answered
      | ok hit =>
        rw [opened] at answered
        cases answered
        rw [serveNocache, steady.stat] at opened
        simp only at opened
        split_ifs at opened with unknown
        exact ⟨framing_upstream opened, by simpa using unknown, .inl plain⟩
    · subst here
      have absent : node.cache.entries.lookup rk.cacheKey = none := by
        rw [Bool.and_eq_true, Bool.not_eq_true', entryExists] at ranged
        exact Option.isSome_eq_false_iff.mp ranged.2 |> Option.isNone_iff_eq_none.mp
      have none_ : ∀ row, node.cache.entries.lookup rk.cacheKey = some row → row.isNegative env.hitNow = false := by
        intro row present
        cases absent.symm.trans present
      split at answered
      · next hit after passed =>
        cases answered
        obtain ⟨framed, registered⟩ := framing_passthrough steady rfl passed
        exact ⟨framed, registered, .inr none_⟩
      · next e after failed =>
        have describes : Describes env rk m (servePassthrough site env rk range node).2 := passthrough_describes steady rfl
        rw [failed] at describes
        obtain ⟨framed, registered, _⟩ := framing_ordinary { steady with row := describes } answered
        exact ⟨framed, registered, .inr none_⟩
    · subst here
      obtain ⟨framed, registered, looked⟩ := framing_ordinary steady answered
      exact ⟨framed, registered, .inr looked⟩

/-- A HEAD that passes over no live tombstone tells the object. -/
theorem headResolved_steady (registered : env.registered = true) (looked : site.profile.nocache = true ∨
    ∀ row, cache.entries.lookup rk.cacheKey = some row → row.isNegative env.hitNow = false) :
    headResolved site env rk env.hitNow cache = (.ok (hitMetaRemote env rk m), cache) := by
  have stat : headResolved.stat site env rk cache = (.ok (hitMetaRemote env rk m), cache) := by
    rw [headResolved.stat, registered, steady.stat]
    rfl
  unfold headResolved
  cases plain : site.profile.nocache with
  | true =>
    rw [if_pos rfl, registered, steady.stat]
    rfl
  | false =>
    rw [if_neg Bool.false_ne_true]
    cases present : cache.entries.lookup rk.cacheKey with
    | none => exact stat
    | some row =>
      have quiet := looked.resolve_left (fun other => Bool.false_ne_true (plain.symm.trans other)) row present
      simp only [quiet, Bool.false_eq_true, if_false]
      split_ifs with fresh
      · rw [Bool.and_eq_true, Option.isNone_iff_eq_none] at fresh
        rw [steady.row row present fresh.1]
      · exact stat

/-- Whatever a HEAD tells of the object is true of it. -/
theorem headResolved_ok {now : Nat} {objectMeta : HitMeta} {after : CacheState}
    (told : headResolved site env rk now cache = (.ok objectMeta, after)) :
    objectMeta = hitMetaRemote env rk m ∧ after = cache := by
  have stat : headResolved.stat site env rk cache = (.ok objectMeta, after) →
      objectMeta = hitMetaRemote env rk m ∧ after = cache := by
    intro told
    rw [headResolved.stat, steady.stat] at told
    split_ifs at told
    · cases told
    · cases told
      exact ⟨rfl, rfl⟩
  unfold headResolved at told
  rw [steady.stat] at told
  split_ifs at told
  · cases told
  · cases told
    exact ⟨rfl, rfl⟩
  · split at told
    · next row present =>
      split_ifs at told with negative fresh
      · cases told
      · rw [Bool.and_eq_true, Option.isNone_iff_eq_none] at fresh
        cases told
        exact ⟨steady.row row present fresh.1, rfl⟩
      · exact stat told
    · exact stat told

omit steady in
/-- The two ways to read a range of one object agree. -/
theorem describe_single (sized : m.sizeBytes < 2 ^ 64) (r : ByteRange) {told : HitMeta × Option ContentRange × Option Nat}
    (framed : framing env rk (some r) m = some told) :
    describe (.single r) (hitMetaRemote env rk m) = .ok ⟨200, told.1, told.2.1, told.2.2⟩ := by
  obtain ⟨span, found, rfl⟩ := Option.map_eq_some_iff.mp framed
  obtain ⟨first, last⟩ := resolveRange_small sized found
  rw [resolveRange] at found
  split_ifs at found with outside
  cases found
  have size : (hitMetaRemote env rk m).size = m.sizeBytes := rfl
  rw [describe, size, requestedSpan, if_neg outside]
  simp only
  rw [wrappingAdd_sub _ _ first last]
  rfl

omit steady in
theorem describe_suffix (sized : m.sizeBytes < 2 ^ 64) (n offset len : Nat)
    (span : requestedSpan (.suffix n) m.sizeBytes = .span offset len) {told : HitMeta × Option ContentRange × Option Nat}
    (framed : framing env rk (some ⟨offset, some len⟩) m = some told) :
    describe (.suffix n) (hitMetaRemote env rk m) = .ok ⟨200, told.1, told.2.1, told.2.2⟩ := by
  have single := describe_single sized ⟨offset, some len⟩ framed
  have asked : requestedSpan (.single ⟨offset, some len⟩) m.sizeBytes = .span offset len := by
    rw [requestedSpan] at span
    split_ifs at span with nothing
    cases span
    rw [not_or] at nothing
    rw [requestedSpan, if_neg (show ¬m.sizeBytes ≤ m.sizeBytes - min n m.sizeBytes by omega)]
    congr 1
    change wrappingSub (min (wrappingAdd (m.sizeBytes - min n m.sizeBytes) (min n m.sizeBytes)) m.sizeBytes)
      (m.sizeBytes - min n m.sizeBytes) = min n m.sizeBytes
    unfold wrappingSub wrappingAdd
    omega
  have size : (hitMetaRemote env rk m).size = m.sizeBytes := rfl
  rw [describe, size, asked] at single
  rw [describe, size, span]
  exact single

/-- On an object that stays what it is, a HEAD of the same range tells what a GET streams,
and the range it shows lies inside the object and is as long as the body says. -/
theorem head_describes_get {node : Node} (here : node.cache = cache) (range : RequestedRange) (plan : StreamPlan)
    (streams : getObject site env rk env.hitNow range node = .ok (.stream plan)) :
    headObject site env rk env.hitNow range node.cache =
        .ok ⟨200, plan.objectMeta, plan.contentRange, plan.contentLength⟩ ∧
      plan.objectMeta = hitMetaRemote env rk m ∧
      ∀ shown, plan.contentRange = some shown → shown.first ≤ shown.last ∧ shown.last < shown.total ∧
        shown.total = m.sizeBytes ∧ plan.contentLength = some (shown.last + 1 - shown.first) := by
  subst here
  have honest : ∀ asked, framing env rk asked m = some (plan.objectMeta, plan.contentRange, plan.contentLength) →
      plan.objectMeta = hitMetaRemote env rk m ∧ ∀ shown, plan.contentRange = some shown →
        shown.first ≤ shown.last ∧ shown.last < shown.total ∧ shown.total = m.sizeBytes ∧
          plan.contentLength = some (shown.last + 1 - shown.first) := by
    intro asked framed
    obtain ⟨span, found, same⟩ := Option.map_eq_some_iff.mp framed
    obtain ⟨told, rest⟩ := Prod.mk.inj same
    obtain ⟨range_, length⟩ := Prod.mk.inj rest
    refine ⟨told.symm, fun shown present => ?_⟩
    rw [← range_, forSpan] at present
    split_ifs at present with fits
    cases present
    have inside : span.2 ≤ m.sizeBytes := resolveRange_inside found
    have small := resolveRange_small steady.sized found
    refine ⟨by simp only; omega, by simp only; omega, rfl, ?_⟩
    rw [← length]
    congr 1
    unfold wrappingSub
    simp only
    omega
  cases range with
  | refused => cases streams
  | absent =>
    obtain ⟨framed, registered, looked⟩ := framing_serve steady rfl streams
    refine ⟨?_, honest none framed⟩
    rw [headObject, if_neg (by decide), headResolved_steady steady registered looked]
    change describe .absent (hitMetaRemote env rk m) = _
    have whole : framing env rk none m = some (hitMetaRemote env rk m, none, some m.sizeBytes) := by
      rw [framing, resolveRange, Option.map_some, wrappingSub_zero _ steady.sized]
      rfl
    obtain ⟨told, rest⟩ := Prod.mk.inj (Option.some.inj (whole.symm.trans framed))
    obtain ⟨range_, length⟩ := Prod.mk.inj rest
    rw [← told, ← range_, ← length]
    rfl
  | single r =>
    obtain ⟨framed, registered, looked⟩ := framing_serve steady rfl streams
    refine ⟨?_, honest (some r) framed⟩
    rw [headObject, if_neg (by simp), headResolved_steady steady registered looked]
    exact describe_single steady.sized r framed
  | suffix n =>
    rw [getObject] at streams
    split at streams
    · cases streams
    · next objectMeta after resolved =>
      obtain ⟨rfl, rfl⟩ := headResolved_ok steady resolved
      split at streams
      · next offset len span =>
        obtain ⟨framed, _, _⟩ := framing_serve steady rfl streams
        refine ⟨?_, honest _ framed⟩
        rw [headObject, if_neg (by simp), resolved]
        exact describe_suffix steady.sized n offset len span framed
      · cases streams

end Framed

/-! The last byte of three, which are not on the node. -/

def threeBytes : ObjectMeta := ⟨3, some ['e'], none, none⟩

def calm : Surroundings where
  registered := true
  link := none
  redirectAllowed _ := true
  stat := .ok threeBytes
  gateOpen := true
  opens _ := .ok ()
  free _ := none
  covering _ _ := none
  starts frontier need := some ⟨frontier, frontier + need⟩
  flight := .published threeBytes
  solo := .ended
  mime _ hint := hint
  peekNow := 0
  passNow := 0
  failNow := 0
  hitNow := 0

def plainSite : Site := ⟨⟨2 ^ 40, 0, 3600, 60⟩, 60, ⟨64 * 2 ^ 20, 2 ^ 20⟩, false, ⟨false, 0⟩⟩

def clip : ResolvedKey := ⟨['a'], ['a'], ['p']⟩

def bare : Node := ⟨⟨∅, 0⟩, ∅, ∅, none, false⟩

theorem head_describes_get_last : headObject plainSite calm clip 0 (.suffix 1) bare.cache =
    .ok ⟨200, ⟨3, some ['e'], none, none⟩, some ⟨2, 2, 3⟩, some 1⟩ := by
  have steady : Steady calm clip threeBytes bare.cache := by
    refine ⟨by decide, rfl, ?_, rfl, trivial⟩
    intro row present
    cases present
  have streams : getObject plainSite calm clip 0 (.suffix 1) bare = .ok (.stream ⟨206, ⟨3, some ['e'], none, none⟩,
      some ⟨2, 2, 3⟩, some 1, .run [] ⟨2, 3⟩ 2 3, false, .stage⟩) := by decide +kernel
  exact (head_describes_get steady rfl (.suffix 1) _ streams).1

end OriginCache.Cache.Heads
