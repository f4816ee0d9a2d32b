import OriginCache.Cache.Key
import OriginCache.Request.ContentAuth
import OriginCache.Request.Hosts

/-! What a configuration file must satisfy to be served, and what the accepted
configuration makes of a request path: its upstream, by bucket or by the longest
prefix, and that upstream's profile. -/

namespace OriginCache.Request.Configuration
open Foundation.Splits Foundation.Tables
open Cache.SegName (Text bytesOf)
open Cache.Key (RouteRule RouteTable ResolvedKey sortRules splitBucket resolveKey)
open Sigv4 (CredentialStore trim protocolMaxExpiresSecs)
open ContentAuth (Caps ContentGate saturatingMul)
open Hosts (UrlFault upstreamUrlPolicy)

inductive ColdMiss
  | proxy | redirect
deriving DecidableEq, Repr

structure UpstreamConfig where
  id : Text
  backendType : Text
  baseUrl : Text
  coldMiss : ColdMiss
  cacheProfile : Text
  linkApiTokenEnv : Option Text
deriving DecidableEq, Repr

/-- A `[cache_profiles]` table, the same before and after validation. -/
structure CacheProfile where
  minFileSize : Nat
  coverageWindowSecs : Nat
deriving DecidableEq, Repr

structure RawConfig where
  frontThreads : Option Nat
  frontOriginTokenHeader : Option Text
  frontOriginTokenEnv : Option Text
  frontContentAuthMaxExpirySecs : Nat
  frontContentAuthSessionRps : Nat
  frontContentAuthSessionMibPerMin : Nat
  maxSizeBytes : Nat
  inactiveTtlSecs : Nat
  concurrencyPerUpstream : Nat
  upstreams : List UpstreamConfig
  routes : List RouteRule
  cacheProfiles : Table Text CacheProfile

structure Config where
  frontThreads : Option Nat
  frontOriginTokenHeader : Option Text
  frontOriginTokenEnv : Option Text
  frontContentAuthMaxExpirySecs : Nat
  frontContentAuthSessionRps : Nat
  frontContentAuthSessionMibPerMin : Nat
  maxSizeBytes : Nat
  inactiveTtlSecs : Nat
  concurrencyPerUpstream : Nat
  upstreams : List UpstreamConfig
  routes : RouteTable
  cacheProfiles : Table Text CacheProfile

/-! The caps of the content gate. -/

inductive CapsFault
  | zeroExpiry | longExpiry (secs : Nat) | zeroRps | zeroMib
deriving DecidableEq, Repr

def CapsFault.message : CapsFault → Text
  | .zeroExpiry =>
      "front_content_auth_max_expiry_secs = 0 would refuse every signed read (the URL could never be valid): omit the key for the default, or set a positive number of seconds".toList
  | .longExpiry secs =>
      "front_content_auth_max_expiry_secs = ".toList ++ numeral secs ++ " exceeds the protocol maximum ".toList ++
        numeral protocolMaxExpiresSecs
  | .zeroRps =>
      "front_content_auth_session_rps = 0 would slow every session after its first request in a second: omit the key for the default, or set a positive rate".toList
  | .zeroMib =>
      "front_content_auth_session_mib_per_min = 0 would stop every session after its first response: omit the key for the default, or set a positive budget".toList

def validateCaps (caps : Caps) : Except CapsFault Unit :=
  if caps.maxExpirySecs = 0 then .error .zeroExpiry
  else if protocolMaxExpiresSecs < caps.maxExpirySecs then .error (.longExpiry caps.maxExpirySecs)
  else if caps.sessionRps = 0 then .error .zeroRps
  else if caps.sessionMibPerMin = 0 then .error .zeroMib
  else .ok ()

def Config.contentCaps (config : Config) : Caps :=
  ⟨config.frontContentAuthMaxExpirySecs, config.frontContentAuthSessionRps, config.frontContentAuthSessionMibPerMin⟩

/-! Validation. -/

inductive ConfigError
  | noUpstreams | noRoutes | zeroConcurrency | zeroFrontThreads | halfOriginToken | zeroMaxSize | zeroInactiveTtl
  | emptyId | emptyBaseUrl (id : Text) | duplicateId (id : Text)
  | url (id : Text) (fault : UrlFault) | redirectType (id : Text) | redirectToken (id : Text)
  | danglingProfile (id profile : Text) | unknownUpstream (front upstream : Text) | noDefaultRoute
  | caps (fault : CapsFault)
deriving DecidableEq, Repr

/-- `debug` renders a text as `{:?}` does. -/
def ConfigError.message (debug : Text → Text) : ConfigError → Text
  | .noUpstreams => "at least one [[upstreams]] required".toList
  | .noRoutes => "at least one [[routes]] required".toList
  | .zeroConcurrency =>
      "concurrency_per_upstream = 0 would deadlock every request: the per-upstream semaphores are built with zero permits and every acquire awaits forever".toList
  | .zeroFrontThreads =>
      "front_threads = 0 is invalid: pingora asserts a non-zero thread count, and the resulting panic left the process alive with no listener".toList
  | .halfOriginToken =>
      "front_origin_token_header and front_origin_token_env must be set together (header = what the edge stamps, env = where the expected value lives)".toList
  | .zeroMaxSize =>
      "max_size_bytes = 0 would evict every entry on every tick, leaving the cache permanently empty".toList
  | .zeroInactiveTtl =>
      "inactive_ttl_secs = 0 would expire every entry on every tick, disabling the disk cache (and the staged-segment sweep)".toList
  | .emptyId => "[[upstreams]] entry has an empty id".toList
  | .emptyBaseUrl id => "upstream ".toList ++ id ++ ": base_url must not be empty".toList
  | .duplicateId id =>
      "duplicate upstream id ".toList ++ debug id ++
        ": ids must be unique, otherwise one entry silently overwrites the other".toList
  | .url id fault => fault.message id
  | .redirectType id =>
      "upstream ".toList ++ id ++ ": cold_miss = \"redirect\" is only supported for openlist upstreams (v1)".toList
  | .redirectToken id =>
      "upstream ".toList ++ id ++ ": cold_miss = \"redirect\" requires link_api_token_env".toList
  | .danglingProfile id profile =>
      "upstream ".toList ++ id ++ ": cache_profile ".toList ++ debug profile ++
        " has no [cache_profiles.<name>] table".toList
  | .unknownUpstream front upstream =>
      "route prefix ".toList ++ debug front ++ " references unknown upstream ".toList ++ debug upstream
  | .noDefaultRoute => "at least one [[routes]] with empty prefix (default) required".toList
  | .caps fault => fault.message

def openlist : Text := ['o', 'p', 'e', 'n', 'l', 'i', 's', 't']
def efficient : Text := ['e', 'f', 'f', 'i', 'c', 'i', 'e', 'n', 't']
def nocache : Text := ['n', 'o', 'c', 'a', 'c', 'h', 'e']

def bailIf (condition : Bool) (error : ConfigError) : Except ConfigError Unit :=
  if condition then .error error else .ok ()

/-- `seen` is the set of the ids before, the last one first. -/
@[grind =] def checkIds : List Text → List UpstreamConfig → Except ConfigError Unit
  | _, [] => .ok ()
  | seen, u :: rest => do
      bailIf (trim u.id = []) .emptyId
      bailIf (trim u.baseUrl = []) (.emptyBaseUrl u.id)
      bailIf (u.id ∈ seen) (.duplicateId u.id)
      checkIds (u.id :: seen) rest

def checkUpstream (u : UpstreamConfig) : Except ConfigError Unit :=
  match upstreamUrlPolicy u.baseUrl with
  | .error fault => .error (.url u.id fault)
  | .ok _ =>
      if u.coldMiss = .redirect then do
        bailIf (u.backendType ≠ openlist) (.redirectType u.id)
        bailIf u.linkApiTokenEnv.isNone (.redirectToken u.id)
      else .ok ()

def checkProfile (profiles : Table Text CacheProfile) (u : UpstreamConfig) : Except ConfigError Unit :=
  let builtin : Bool := u.cacheProfile = nocache ∨ u.cacheProfile = efficient
  bailIf (!builtin && (profiles.lookup u.cacheProfile).isNone) (.danglingProfile u.id u.cacheProfile)

def checkRoute (ids : List Text) (r : RouteRule) : Except ConfigError Unit :=
  bailIf (r.upstream ∉ ids) (.unknownUpstream r.front r.upstream)

/-- A loop whose body may bail. -/
def checkAll {α : Type} (check : α → Except ConfigError Unit) : List α → Except ConfigError Unit
  | [] => .ok ()
  | x :: rest => do
      check x
      checkAll check rest

def upstreamIds (upstreams : List UpstreamConfig) : List Text := upstreams.map UpstreamConfig.id

def fromRaw (raw : RawConfig) : Except ConfigError Config := do
  bailIf (raw.upstreams = []) .noUpstreams
  if filled : raw.routes = [] then .error .noRoutes
  else do
    bailIf (raw.concurrencyPerUpstream = 0) .zeroConcurrency
    bailIf (raw.frontThreads = some 0) .zeroFrontThreads
    bailIf (raw.frontOriginTokenHeader.isSome ≠ raw.frontOriginTokenEnv.isSome) .halfOriginToken
    bailIf (raw.maxSizeBytes = 0) .zeroMaxSize
    bailIf (raw.inactiveTtlSecs = 0) .zeroInactiveTtl
    checkIds [] raw.upstreams
    checkAll checkUpstream raw.upstreams
    checkAll (checkProfile raw.cacheProfiles) raw.upstreams
    checkAll (checkRoute (upstreamIds raw.upstreams)) raw.routes
    bailIf (!raw.routes.any fun r => r.front = []) .noDefaultRoute
    let config : Config :=
      { frontThreads := raw.frontThreads
        frontOriginTokenHeader := raw.frontOriginTokenHeader
        frontOriginTokenEnv := raw.frontOriginTokenEnv
        frontContentAuthMaxExpirySecs := raw.frontContentAuthMaxExpirySecs
        frontContentAuthSessionRps := raw.frontContentAuthSessionRps
        frontContentAuthSessionMibPerMin := raw.frontContentAuthSessionMibPerMin
        maxSizeBytes := raw.maxSizeBytes
        inactiveTtlSecs := raw.inactiveTtlSecs
        concurrencyPerUpstream := raw.concurrencyPerUpstream
        upstreams := raw.upstreams
        routes := .new raw.routes filled
        cacheProfiles := raw.cacheProfiles }
    match validateCaps config.contentCaps with
    | .error fault => .error (.caps fault)
    | .ok _ => .ok config

/-! What the running node asks of it. -/

def Config.upstream (config : Config) (id : Text) : Option UpstreamConfig :=
  config.upstreams.find? fun u => u.id = id

structure EffectiveProfile where
  efficient : Bool
  nocache : Bool
  minFileSize : Nat
  coverageWindowSecs : Nat
deriving DecidableEq, Repr

def defaultCoverageWindowSecs : Nat := 3600

/-- Nothing is written. -/
def EffectiveProfile.ofNocache : EffectiveProfile := ⟨false, true, 0, 0⟩

/-- Every ranged read is staged. -/
def EffectiveProfile.ofEfficient : EffectiveProfile := ⟨true, false, 0, defaultCoverageWindowSecs⟩

def EffectiveProfile.ofTable (p : CacheProfile) : EffectiveProfile :=
  ⟨true, false, p.minFileSize, p.coverageWindowSecs⟩

def Config.cacheProfile (config : Config) (upstreamId : Text) : EffectiveProfile :=
  let name := ((config.upstream upstreamId).map UpstreamConfig.cacheProfile).getD efficient
  if name = nocache then .ofNocache
  else
    match config.cacheProfiles.lookup name with
    | some p => .ofTable p
    | none => .ofEfficient

/-! What a refusal says. -/

/-- What is wrong with a file when the error is right. -/
def Faulty (raw : RawConfig) : ConfigError → Prop
  | .noUpstreams => raw.upstreams = []
  | .noRoutes => raw.routes = []
  | .zeroConcurrency => raw.concurrencyPerUpstream = 0
  | .zeroFrontThreads => raw.frontThreads = some 0
  | .halfOriginToken => raw.frontOriginTokenHeader.isSome ≠ raw.frontOriginTokenEnv.isSome
  | .zeroMaxSize => raw.maxSizeBytes = 0
  | .zeroInactiveTtl => raw.inactiveTtlSecs = 0
  | .emptyId => ∃ u ∈ raw.upstreams, trim u.id = []
  | .emptyBaseUrl id => ∃ u ∈ raw.upstreams, u.id = id ∧ trim u.baseUrl = []
  | .duplicateId id => 2 ≤ (upstreamIds raw.upstreams).count id
  | .url id fault => ∃ u ∈ raw.upstreams, u.id = id ∧ upstreamUrlPolicy u.baseUrl = .error fault
  | .redirectType id => ∃ u ∈ raw.upstreams, u.id = id ∧ u.coldMiss = .redirect ∧ u.backendType ≠ openlist
  | .redirectToken id => ∃ u ∈ raw.upstreams, u.id = id ∧ u.coldMiss = .redirect ∧ u.linkApiTokenEnv = none
  | .danglingProfile id profile => ∃ u ∈ raw.upstreams, u.id = id ∧ u.cacheProfile = profile ∧
      profile ≠ nocache ∧ profile ≠ efficient ∧ raw.cacheProfiles.lookup profile = none
  | .unknownUpstream front upstream => ⟨front, upstream⟩ ∈ raw.routes ∧ ∀ u ∈ raw.upstreams, u.id ≠ upstream
  | .noDefaultRoute => ∀ r ∈ raw.routes, r.front ≠ []
  | .caps .zeroExpiry => raw.frontContentAuthMaxExpirySecs = 0
  | .caps (.longExpiry secs) => raw.frontContentAuthMaxExpirySecs = secs ∧ protocolMaxExpiresSecs < secs
  | .caps .zeroRps => raw.frontContentAuthSessionRps = 0
  | .caps .zeroMib => raw.frontContentAuthSessionMibPerMin = 0

section Bail
variable {condition : Bool} {error other : ConfigError}

@[simp] theorem bailIf_ok (u : Unit) : bailIf condition error = .ok u ↔ condition = false := by
  unfold bailIf
  split_ifs with bails <;> simp_all

@[simp] theorem bailIf_error : bailIf condition error = .error other ↔ condition = true ∧ error = other := by
  unfold bailIf
  split_ifs with bails <;> simp_all

variable {α β : Type} {first : Except ConfigError α} {next : α → Except ConfigError β}

theorem bind_ok (b : β) : (first >>= next) = .ok b ↔ ∃ a, first = .ok a ∧ next a = .ok b := by
  cases first <;> simp [bind, Except.bind]

theorem bind_error : (first >>= next) = .error error ↔
    first = .error error ∨ ∃ a, first = .ok a ∧ next a = .error error := by
  cases first <;> simp [bind, Except.bind]

end Bail

section Loops
variable {α : Type} (check : α → Except ConfigError Unit)

theorem checkAll_ok (items : List α) (u : Unit) : checkAll check items = .ok u ↔ ∀ x ∈ items, check x = .ok () := by
  induction items with
  | nil => simp [checkAll]
  | cons x rest ih =>
    rw [checkAll, bind_ok, List.forall_mem_cons, ← ih]
    exact ⟨fun ⟨_, head, tail⟩ => ⟨head, tail⟩, fun ⟨head, tail⟩ => ⟨(), head, tail⟩⟩

theorem checkAll_error (items : List α) (error : ConfigError) (bails : checkAll check items = .error error) :
    ∃ x ∈ items, check x = .error error := by
  induction items with
  | nil => cases bails
  | cons x rest ih =>
    rcases bind_error.mp bails with here | ⟨_, _, later⟩
    · exact ⟨x, List.mem_cons_self, here⟩
    · obtain ⟨y, member, bad⟩ := ih later
      exact ⟨y, List.mem_cons_of_mem x member, bad⟩

theorem checkIds_ok (seen : List Text) (upstreams : List UpstreamConfig) (u : Unit) :
    checkIds seen upstreams = .ok u ↔ (∀ x ∈ upstreams, trim x.id ≠ [] ∧ trim x.baseUrl ≠ [] ∧ x.id ∉ seen) ∧
      (upstreamIds upstreams).Nodup := by
  induction upstreams generalizing seen with
  | nil => simp [checkIds, upstreamIds]
  | cons x rest ih =>
    have distinct : (∀ y ∈ rest, y.id ∉ x.id :: seen) ↔ x.id ∉ upstreamIds rest ∧ ∀ y ∈ rest, y.id ∉ seen := by
      simp only [List.mem_cons, not_or, upstreamIds, List.mem_map, not_exists, not_and, forall_and]
    have ids : upstreamIds (x :: rest) = x.id :: upstreamIds rest := rfl
    simp only [checkIds, bind_ok, bailIf_ok, ih, decide_eq_false_iff_not]
    rw [List.forall_mem_cons, ids, List.nodup_cons]
    simp only [forall_and, distinct, exists_const]
    tauto

theorem checkIds_error (seen : List Text) (upstreams : List UpstreamConfig) (error : ConfigError)
    (bails : checkIds seen upstreams = .error error) :
    (error = .emptyId ∧ ∃ x ∈ upstreams, trim x.id = []) ∨
      (∃ x ∈ upstreams, error = .emptyBaseUrl x.id ∧ trim x.baseUrl = []) ∨
      ∃ x ∈ upstreams, error = .duplicateId x.id ∧ 2 ≤ (seen ++ upstreamIds upstreams).count x.id := by
  induction upstreams generalizing seen with
  | nil => cases bails
  | cons x rest ih =>
    simp only [checkIds, bind_error, bailIf_error, bailIf_ok, decide_eq_true_eq] at bails
    rcases bails with ⟨bad, rfl⟩ | ⟨_, _, ⟨bad, rfl⟩ | ⟨_, _, ⟨bad, rfl⟩ | ⟨_, _, later⟩⟩⟩
    · exact .inl ⟨rfl, x, List.mem_cons_self, bad⟩
    · exact .inr (.inl ⟨x, List.mem_cons_self, rfl, bad⟩)
    · have before := List.count_pos_iff.mpr bad
      refine .inr (.inr ⟨x, List.mem_cons_self, rfl, ?_⟩)
      rw [List.count_append, upstreamIds, List.map_cons, List.count_cons_self]
      omega
    · rcases ih (x.id :: seen) later with ⟨same, y, member, bad⟩ | ⟨y, member, same, bad⟩ | ⟨y, member, same, twice⟩
      · exact .inl ⟨same, y, List.mem_cons_of_mem x member, bad⟩
      · exact .inr (.inl ⟨y, List.mem_cons_of_mem x member, same, bad⟩)
      · refine .inr (.inr ⟨y, List.mem_cons_of_mem x member, same, ?_⟩)
        calc
          2 ≤ (x.id :: seen ++ upstreamIds rest).count y.id := twice
          _ = (seen ++ upstreamIds (x :: rest)).count y.id := List.perm_middle.symm.count_eq _

end Loops

theorem checkUpstream_ok (u : UpstreamConfig) (v : Unit) : checkUpstream u = .ok v ↔
    upstreamUrlPolicy u.baseUrl = .ok () ∧
      (u.coldMiss = .redirect → u.backendType = openlist ∧ u.linkApiTokenEnv ≠ none) := by
  unfold checkUpstream
  cases answer : upstreamUrlPolicy u.baseUrl with
  | error fault => simp
  | ok _ =>
    simp only
    split_ifs with redirects
    · simp [bind_ok, redirects, Option.isSome_iff_ne_none]
    · simp [redirects]

theorem checkUpstream_error (u : UpstreamConfig) (error : ConfigError) (bails : checkUpstream u = .error error) :
    (∃ fault, error = .url u.id fault ∧ upstreamUrlPolicy u.baseUrl = .error fault) ∨
      (error = .redirectType u.id ∧ u.coldMiss = .redirect ∧ u.backendType ≠ openlist) ∨
      (error = .redirectToken u.id ∧ u.coldMiss = .redirect ∧ u.linkApiTokenEnv = none) := by
  unfold checkUpstream at bails
  cases answer : upstreamUrlPolicy u.baseUrl with
  | error fault =>
    rw [answer] at bails
    cases bails
    exact .inl ⟨fault, rfl, rfl⟩
  | ok _ =>
    rw [answer] at bails
    simp only at bails
    by_cases redirects : u.coldMiss = .redirect
    · rw [if_pos redirects] at bails
      simp only [bind_error, bailIf_error, decide_eq_true_eq, Option.isNone_iff_eq_none] at bails
      rcases bails with ⟨bad, rfl⟩ | ⟨_, _, bad, rfl⟩
      · exact .inr (.inl ⟨rfl, redirects, bad⟩)
      · exact .inr (.inr ⟨rfl, redirects, bad⟩)
    · rw [if_neg redirects] at bails
      cases bails

theorem checkProfile_ok (profiles : Table Text CacheProfile) (u : UpstreamConfig) (v : Unit) :
    checkProfile profiles u = .ok v ↔
      (u.cacheProfile ≠ nocache → u.cacheProfile ≠ efficient → profiles.lookup u.cacheProfile ≠ none) := by
  simp only [checkProfile, bailIf_ok, Bool.and_eq_false_iff, Bool.not_eq_false', decide_eq_true_eq,
    Option.isNone_eq_false_iff, Option.isSome_iff_ne_none]
  tauto

theorem validateCaps_ok (caps : Caps) (u : Unit) : validateCaps caps = .ok u ↔
    caps.maxExpirySecs ≠ 0 ∧ caps.maxExpirySecs ≤ protocolMaxExpiresSecs ∧ caps.sessionRps ≠ 0 ∧
      caps.sessionMibPerMin ≠ 0 := by
  unfold validateCaps
  split_ifs <;> simp_all

section Validation
variable {raw : RawConfig}

/-- What the checks establish, and the configuration that is made. -/
structure Accepted (raw : RawConfig) (config : Config) : Prop where
  upstreamed : raw.upstreams ≠ []
  concurrent : raw.concurrencyPerUpstream ≠ 0
  threaded : raw.frontThreads ≠ some 0
  gated : raw.frontOriginTokenHeader.isSome = raw.frontOriginTokenEnv.isSome
  sized : raw.maxSizeBytes ≠ 0
  lasting : raw.inactiveTtlSecs ≠ 0
  named : ∀ u ∈ raw.upstreams, trim u.id ≠ [] ∧ trim u.baseUrl ≠ []
  distinct : (upstreamIds raw.upstreams).Nodup
  upstream : ∀ u ∈ raw.upstreams, upstreamUrlPolicy u.baseUrl = .ok () ∧
    (u.coldMiss = .redirect → u.backendType = openlist ∧ u.linkApiTokenEnv ≠ none)
  profiled : ∀ u ∈ raw.upstreams, u.cacheProfile ≠ nocache → u.cacheProfile ≠ efficient →
    raw.cacheProfiles.lookup u.cacheProfile ≠ none
  routed : ∀ r ∈ raw.routes, r.upstream ∈ upstreamIds raw.upstreams
  default : ∃ r ∈ raw.routes, r.front = []
  capped : validateCaps config.contentCaps = .ok ()
  made : ∃ filled, config =
    ⟨raw.frontThreads, raw.frontOriginTokenHeader, raw.frontOriginTokenEnv, raw.frontContentAuthMaxExpirySecs,
      raw.frontContentAuthSessionRps, raw.frontContentAuthSessionMibPerMin, raw.maxSizeBytes, raw.inactiveTtlSecs,
      raw.concurrencyPerUpstream, raw.upstreams, .new raw.routes filled, raw.cacheProfiles⟩

theorem fromRaw_accepted {config : Config} (accepted : fromRaw raw = .ok config) : Accepted raw config := by
  unfold fromRaw at accepted
  by_cases empty : raw.routes = []
  · simp only [empty, bind_ok, dite_true, reduceCtorEq, and_false, exists_false] at accepted
  · simp only [dif_neg empty, bind_ok, bailIf_ok, checkAll_ok, checkIds_ok, checkUpstream_ok, checkProfile_ok,
      checkRoute, exists_const, decide_eq_false_iff_not, Bool.not_eq_false', List.any_eq_true, decide_eq_true_eq,
      not_not, ne_eq, List.not_mem_nil, not_false_eq_true, and_true] at accepted
    obtain ⟨upstreamed, concurrent, threaded, gated, sized, lasting, ⟨named, distinct⟩, upstream, profiled, routed,
      default, made⟩ := accepted
    split at made
    · cases made
    · next _ capped =>
      cases made
      exact ⟨upstreamed, concurrent, threaded, gated, sized, lasting, named, distinct, upstream, profiled, routed,
        default, capped, empty, rfl⟩

theorem count_lt_two {config : Config} (accepted : Accepted raw config) (id : Text) :
    (upstreamIds raw.upstreams).count id < 2 := by
  have once := List.nodup_iff_count_le_one.mp accepted.distinct id
  omega

theorem not_faulty {config : Config} (accepted : Accepted raw config) (error : ConfigError) : ¬Faulty raw error := by
  obtain ⟨filled, rfl⟩ := accepted.made
  have capped := (validateCaps_ok _ _).mp accepted.capped
  cases error with
  | noUpstreams => exact accepted.upstreamed
  | noRoutes => exact filled
  | zeroConcurrency => exact accepted.concurrent
  | zeroFrontThreads => exact accepted.threaded
  | halfOriginToken => exact fun half => half accepted.gated
  | zeroMaxSize => exact accepted.sized
  | zeroInactiveTtl => exact accepted.lasting
  | emptyId =>
    rintro ⟨u, member, bad⟩
    exact (accepted.named u member).1 bad
  | emptyBaseUrl id =>
    rintro ⟨u, member, _, bad⟩
    exact (accepted.named u member).2 bad
  | duplicateId id => exact fun twice => absurd twice (Nat.not_le.mpr (count_lt_two accepted id))
  | url id fault =>
    rintro ⟨u, member, _, bad⟩
    rw [(accepted.upstream u member).1] at bad
    cases bad
  | redirectType id =>
    rintro ⟨u, member, _, redirects, bad⟩
    exact bad ((accepted.upstream u member).2 redirects).1
  | redirectToken id =>
    rintro ⟨u, member, _, redirects, bad⟩
    exact ((accepted.upstream u member).2 redirects).2 bad
  | danglingProfile id profile =>
    rintro ⟨u, member, _, rfl, cached, staged, bad⟩
    exact accepted.profiled u member cached staged bad
  | unknownUpstream front upstream =>
    rintro ⟨member, unknown⟩
    obtain ⟨u, known, same⟩ := List.mem_map.mp (accepted.routed _ member)
    exact unknown u known same
  | noDefaultRoute =>
    intro none
    obtain ⟨r, member, empty⟩ := accepted.default
    exact none r member empty
  | caps fault =>
    cases fault with
    | zeroExpiry => exact capped.1
    | longExpiry secs =>
      rintro ⟨rfl, long⟩
      exact absurd long (Nat.not_lt.mpr capped.2.1)
    | zeroRps => exact capped.2.2.1
    | zeroMib => exact capped.2.2.2

theorem faulty_ids {error : ConfigError} (bails : checkIds [] raw.upstreams = .error error) : Faulty raw error := by
  rcases checkIds_error [] raw.upstreams error bails with
    ⟨rfl, u, member, bad⟩ | ⟨u, member, rfl, bad⟩ | ⟨u, member, rfl, twice⟩
  · exact ⟨u, member, bad⟩
  · exact ⟨u, member, rfl, bad⟩
  · exact twice

theorem faulty_upstream {error : ConfigError} (bails : checkAll checkUpstream raw.upstreams = .error error) :
    Faulty raw error := by
  obtain ⟨u, member, bad⟩ := checkAll_error _ _ _ bails
  rcases checkUpstream_error u error bad with ⟨fault, rfl, refused⟩ | ⟨rfl, redirects, other⟩ | ⟨rfl, redirects, absent⟩
  · exact ⟨u, member, rfl, refused⟩
  · exact ⟨u, member, rfl, redirects, other⟩
  · exact ⟨u, member, rfl, redirects, absent⟩

theorem faulty_profile {error : ConfigError}
    (bails : checkAll (checkProfile raw.cacheProfiles) raw.upstreams = .error error) : Faulty raw error := by
  obtain ⟨u, member, bad⟩ := checkAll_error _ _ _ bails
  simp only [checkProfile, bailIf_error, Bool.and_eq_true, Bool.not_eq_true', decide_eq_false_iff_not, not_or,
    Option.isNone_iff_eq_none] at bad
  obtain ⟨⟨⟨cached, staged⟩, absent⟩, rfl⟩ := bad
  exact ⟨u, member, rfl, rfl, cached, staged, absent⟩

theorem faulty_route {error : ConfigError}
    (bails : checkAll (checkRoute (upstreamIds raw.upstreams)) raw.routes = .error error) : Faulty raw error := by
  obtain ⟨r, member, bad⟩ := checkAll_error _ _ _ bails
  simp only [checkRoute, bailIf_error, decide_eq_true_eq] at bad
  obtain ⟨unknown, rfl⟩ := bad
  exact ⟨member, fun u known same => unknown (List.mem_map.mpr ⟨u, known, same⟩)⟩

theorem faulty_caps {caps : Caps} {fault : CapsFault} (expiry : caps.maxExpirySecs = raw.frontContentAuthMaxExpirySecs)
    (rps : caps.sessionRps = raw.frontContentAuthSessionRps)
    (mib : caps.sessionMibPerMin = raw.frontContentAuthSessionMibPerMin)
    (bails : validateCaps caps = .error fault) : Faulty raw (.caps fault) := by
  unfold validateCaps at bails
  split_ifs at bails with none long idle still <;> cases bails
  · exact expiry.symm.trans none
  · exact ⟨expiry.symm, long⟩
  · exact rps.symm.trans idle
  · exact mib.symm.trans still

theorem fromRaw_faulty {error : ConfigError} (refused : fromRaw raw = .error error) : Faulty raw error := by
  unfold fromRaw at refused
  by_cases empty : raw.routes = []
  · simp only [empty, bind_error, bailIf_error, dite_true, Except.error.injEq, decide_eq_true_eq] at refused
    rcases refused with ⟨bad, rfl⟩ | ⟨_, _, rfl⟩
    · exact bad
    · exact empty
  · simp only [dif_neg empty, bind_error, bailIf_error, decide_eq_true_eq, Bool.not_eq_true', List.any_eq_false]
      at refused
    rcases refused with ⟨bad, rfl⟩ | ⟨_, _, ⟨bad, rfl⟩ | ⟨_, _, ⟨bad, rfl⟩ | ⟨_, _, ⟨bad, rfl⟩ | ⟨_, _, ⟨bad, rfl⟩ |
      ⟨_, _, ⟨bad, rfl⟩ | ⟨_, _, ids | ⟨_, _, upstreams | ⟨_, _, profiles | ⟨_, _, routes | ⟨_, _, ⟨bad, rfl⟩ |
      ⟨_, _, caps⟩⟩⟩⟩⟩⟩⟩⟩⟩⟩⟩
    · exact bad
    · exact bad
    · exact bad
    · exact bad
    · exact bad
    · exact bad
    · exact faulty_ids ids
    · exact faulty_upstream upstreams
    · exact faulty_profile profiles
    · exact faulty_route routes
    · exact bad
    · split at caps
      · next fault bad =>
        cases caps
        exact faulty_caps rfl rfl rfl bad
      · cases caps

/-- A file is served exactly when nothing is wrong with it. -/
theorem fromRaw_iff : (∃ config, fromRaw raw = .ok config) ↔ ∀ error, ¬Faulty raw error := by
  constructor
  · intro ⟨config, accepted⟩
    exact not_faulty (fromRaw_accepted accepted)
  · intro sound
    cases answer : fromRaw raw with
    | ok config => exact ⟨config, rfl⟩
    | error error => exact absurd (fromRaw_faulty answer) (sound error)

end Validation

/-! The rule that a key meets first. -/

section Sorting
variable {α : Type} (r : α → α → Prop) [DecidableRel r] (p : α → Bool)

/-- An item goes before the items that it is not to pass. -/
theorem filter_orderedInsert (a : α) (items : List α) (stays : ∀ b, p a = true → p b = true → r a b) :
    (items.orderedInsert r a).filter p = (a :: items).filter p := by
  induction items with
  | nil => rfl
  | cons b rest ih =>
    rw [List.orderedInsert_cons]
    split_ifs with before
    · rfl
    · rw [List.filter_cons, ih]
      by_cases first : p a = true
      · have second : p b = false := by
          by_contra other
          exact before (stays b first ((Bool.not_eq_false _).mp other))
        simp only [List.filter_cons, first, second, if_true, Bool.false_eq_true, if_false]
      · simp only [List.filter_cons, first, Bool.false_eq_true, if_false]

/-- Items that sort alike keep their order. -/
theorem filter_insertionSort (items : List α) (alike : ∀ a b, p a = true → p b = true → r a b) :
    (items.insertionSort r).filter p = items.filter p := by
  induction items with
  | nil => rfl
  | cons a rest ih =>
    rw [List.insertionSort_cons, filter_orderedInsert r p a _ (alike a), List.filter_cons, ih, List.filter_cons]

end Sorting

theorem bytes_append (front rest : Text) :
    (bytesOf (front ++ rest)).length = (bytesOf front).length + (bytesOf rest).length := by
  rw [bytesOf, List.flatMap_append, List.length_append, bytesOf, bytesOf]

/-- Of two prefixes of a key, the one of fewer bytes is a prefix of the other. -/
theorem prefix_of_bytes {short long key : Text} (one : short <+: key) (two : long <+: key)
    (fewer : (bytesOf short).length ≤ (bytesOf long).length) : short <+: long := by
  rcases List.prefix_or_prefix_of_prefix one two with inside | ⟨rest, rfl⟩
  · exact inside
  · have nothing : rest.length ≤ 0 := by
      calc
        rest.length ≤ (bytesOf rest).length := Cache.SegName.length_le_bytesOf rest
        _ ≤ 0 := by rw [bytes_append] at fewer; omega
    rw [List.length_eq_zero_iff.mp (Nat.le_zero.mp nothing), List.append_nil]

/-- The rule of the longest prefix of the key, and of equal prefixes the first. -/
structure Governs (routes : List RouteRule) (key : Text) (rule : RouteRule) : Prop where
  matched : rule.front <+: key
  longest : ∀ other ∈ routes, other.front <+: key → other.front <+: rule.front
  first : routes.find? (fun other => other.front = rule.front) = some rule

theorem matches_iff (rule : RouteRule) (key : Text) :
    decide (rule.front = [] ∨ rule.front.isPrefixOf key = true) = true ↔ rule.front <+: key := by
  rw [decide_eq_true_eq, List.isPrefixOf_iff_prefix, or_iff_right_iff_imp]
  intro empty
  exact empty ▸ List.nil_prefix

theorem sorted_sortRules (rules : List RouteRule) :
    (sortRules rules).Pairwise fun a b => (bytesOf b.front).length ≤ (bytesOf a.front).length := by
  have total : Std.Total fun a b : RouteRule => (bytesOf b.front).length ≤ (bytesOf a.front).length :=
    ⟨fun a b => Nat.le_total _ _⟩
  have trans : IsTrans RouteRule fun a b => (bytesOf b.front).length ≤ (bytesOf a.front).length :=
    ⟨fun a b c ab bc => Nat.le_trans bc ab⟩
  exact List.pairwise_insertionSort _ rules

theorem find_sortRules (rules : List RouteRule) (front : Text) :
    (sortRules rules).find? (fun r => r.front = front) = rules.find? fun r => r.front = front := by
  have alike : ∀ a b : RouteRule, decide (a.front = front) = true → decide (b.front = front) = true →
      (bytesOf b.front).length ≤ (bytesOf a.front).length := by
    intro a b one two
    rw [of_decide_eq_true one, of_decide_eq_true two]
  rw [← List.head?_filter, ← List.head?_filter, sortRules, filter_insertionSort _ _ rules alike]

/-- A table with a default route sends a key where its longest prefix says. -/
theorem resolve_governed (rules : List RouteRule) (filled : rules ≠ []) (key : Text)
    (default : ∃ r ∈ rules, r.front = []) :
    ∃ rule ∈ rules, Governs rules key rule ∧ (RouteTable.new rules filled).resolve key = rule.upstream := by
  obtain ⟨r, member, empty⟩ := default
  have listed : ∀ rule, rule ∈ sortRules rules ↔ rule ∈ rules := fun rule => List.mem_insertionSort _
  cases found : (sortRules rules).find? fun r => r.front = [] ∨ r.front.isPrefixOf key with
  | none =>
    have missed := List.find?_eq_none.mp found r ((listed r).mpr member)
    exact absurd ((matches_iff r key).mpr (empty ▸ List.nil_prefix)) missed
  | some rule =>
    obtain ⟨hit, before, after, whole, earlier⟩ := List.find?_eq_some_iff_append.mp found
    have matched := (matches_iff rule key).mp hit
    have passed : ∀ other ∈ before, ¬other.front <+: key := by
      intro other inside fits
      have missed := earlier other inside
      rw [(matches_iff other key).mpr fits] at missed
      cases missed
    refine ⟨rule, (listed rule).mp (List.mem_of_find?_eq_some found), ⟨matched, ?_, ?_⟩, ?_⟩
    · intro other inside fits
      have sorted := sorted_sortRules rules
      rw [whole, List.pairwise_append, List.pairwise_cons] at sorted
      have place := (listed other).mpr inside
      rw [whole, List.mem_append, List.mem_cons] at place
      rcases place with ahead | rfl | behind
      · exact absurd fits (passed other ahead)
      · exact List.prefix_rfl
      · exact prefix_of_bytes fits matched (sorted.2.1.1 other behind)
    · rw [← find_sortRules]
      apply List.find?_eq_some_iff_append.mpr
      refine ⟨decide_eq_true rfl, before, after, whole, ?_⟩
      intro other inside
      rw [Bool.not_eq_true', decide_eq_false_iff_not]
      exact fun same => passed other inside (same ▸ matched)
    · unfold RouteTable.resolve RouteTable.new
      simp only [found]

/-! A request path under an accepted configuration. -/

theorem splitOnce_free (sep : Char) (whole before after : Text) (cut : splitOnce sep whole = some (before, after)) :
    sep ∉ before := by
  induction whole generalizing before with
  | nil => cases cut
  | cons c rest ih =>
    rw [splitOnce] at cut
    split_ifs at cut with here
    · cases cut
      exact List.not_mem_nil
    · obtain ⟨parts, later, same⟩ := Option.map_eq_some_iff.mp cut
      cases same
      simp only [List.mem_cons, not_or]
      exact ⟨fun same => here same.symm, ih parts.1 later⟩

/-- The path is a bucket and what stands below it. -/
structure Bucket (ids : List Text) (path bucket rest : Text) : Prop where
  known : bucket ∈ ids
  free : '/' ∉ bucket
  filled : rest ≠ []
  whole : path = bucket ++ '/' :: rest

theorem splitBucket_iff (path bucket rest : Text) (ids : List Text) :
    splitBucket path ids = some (bucket, rest) ↔ Bucket ids path bucket rest := by
  unfold splitBucket
  constructor
  · intro split
    obtain ⟨⟨first, below⟩, cut, checked⟩ := Option.bind_eq_some_iff.mp split
    simp only at checked
    split_ifs at checked with bad
    cases checked
    rw [not_or, not_not] at bad
    exact ⟨bad.2, splitOnce_free '/' path _ _ cut, bad.1, splitOnce_some '/' path _ _ cut⟩
  · intro bucketed
    rw [bucketed.whole, splitOnce_append '/' bucket rest bucketed.free]
    simp only [Option.bind_eq_bind, Option.bind_some]
    rw [if_neg (by simp only [bucketed.known, bucketed.filled, not_true_eq_false, or_self, not_false_eq_true])]

/-- The coordinates that a path has: those of its bucket, else those of its rule. -/
def Resolves (upstreams : List UpstreamConfig) (routes : List RouteRule) (path : Text) (resolved : ResolvedKey) : Prop :=
  resolved.cacheKey = path ∧
    (Bucket (upstreamIds upstreams) path resolved.upstreamId resolved.backendKey ∨
      (∀ bucket rest, ¬Bucket (upstreamIds upstreams) path bucket rest) ∧ resolved.backendKey = path ∧
        ∃ rule ∈ routes, Governs routes path rule ∧ resolved.upstreamId = rule.upstream)

theorem Bucket.perm {ids others : List Text} {path bucket rest : Text} (order : ids.Perm others)
    (bucketed : Bucket ids path bucket rest) : Bucket others path bucket rest :=
  ⟨order.mem_iff.mp bucketed.known, bucketed.free, bucketed.filled, bucketed.whole⟩

section Accepting
variable {raw : RawConfig} {config : Config}

theorem accepted_resolves (accepted : Accepted raw config) (buckets : List Text)
    (order : buckets.Perm (upstreamIds config.upstreams)) (path : Text) (resolved : ResolvedKey)
    (ok : resolveKey path config.routes buckets = .ok resolved) : Resolves raw.upstreams raw.routes path resolved := by
  obtain ⟨filled, rfl⟩ := accepted.made
  refine ⟨(Cache.Key.resolveKey_ok path _ buckets resolved ok).1, ?_⟩
  unfold resolveKey at ok
  cases split : splitBucket path buckets with
  | some parts =>
    have bucketed := (splitBucket_iff path parts.1 parts.2 buckets).mp split
    rw [split] at ok
    simp only [bind, Except.bind, pure, Except.pure] at ok
    split at ok
    · cases ok
    · split at ok
      · cases ok
      · split at ok
        · cases ok
        · next backendKey valid =>
          cases ok
          left
          rw [Cache.Key.validateKey_ok _ _ valid]
          exact bucketed.perm order
  | none =>
    have unbucketed : ∀ bucket rest, ¬Bucket (upstreamIds raw.upstreams) path bucket rest := by
      intro bucket rest bucketed
      have other := (splitBucket_iff path bucket rest buckets).mpr (bucketed.perm order.symm)
      rw [split] at other
      cases other
    rw [split] at ok
    simp only [bind, Except.bind, pure, Except.pure] at ok
    split at ok
    · cases ok
    · next cacheKey valid =>
      split at ok
      · cases ok
      · cases ok
        rw [Cache.Key.validateKey_ok _ _ valid]
        exact .inr ⟨unbucketed, rfl, resolve_governed raw.routes filled path accepted.default⟩

/-- The profile that an upstream has asked for. -/
def Profiled (profiles : Table Text CacheProfile) (name : Text) (profile : EffectiveProfile) : Prop :=
  (name = nocache ∧ profile = .ofNocache) ∨
    (name ≠ nocache ∧ ∃ table, profiles.lookup name = some table ∧ profile = .ofTable table) ∨
    (name = efficient ∧ profiles.lookup efficient = none ∧ profile = .ofEfficient)

theorem upstream_known (accepted : Accepted raw config) (u : UpstreamConfig) (member : u ∈ raw.upstreams) :
    config.upstream u.id = some u := by
  obtain ⟨filled, rfl⟩ := accepted.made
  unfold Config.upstream
  cases found : raw.upstreams.find? fun v => v.id = u.id with
  | none =>
    have missed := List.find?_eq_none.mp found u member
    exact absurd (decide_eq_true rfl) missed
  | some v =>
    have same : v.id = u.id := of_decide_eq_true (@List.find?_some _ (fun v : UpstreamConfig => decide (v.id = u.id)) _ _ found)
    have one : v = u := List.inj_on_of_nodup_map accepted.distinct (List.mem_of_find?_eq_some found) member same
    rw [one]

theorem cacheProfile_profiled (accepted : Accepted raw config) (u : UpstreamConfig) (member : u ∈ raw.upstreams) :
    Profiled raw.cacheProfiles u.cacheProfile (config.cacheProfile u.id) := by
  have known := upstream_known accepted u member
  have declared := accepted.profiled u member
  obtain ⟨filled, rfl⟩ := accepted.made
  unfold Config.cacheProfile
  rw [known]
  simp only [Option.map_some, Option.getD_some]
  by_cases dry : u.cacheProfile = nocache
  · rw [if_pos dry]
    exact .inl ⟨dry, rfl⟩
  · rw [if_neg dry]
    cases table : raw.cacheProfiles.lookup u.cacheProfile with
    | some p => exact .inr (.inl ⟨dry, p, table, rfl⟩)
    | none =>
      have builtin : u.cacheProfile = efficient := by
        by_contra other
        exact declared dry other table
      exact .inr (.inr ⟨builtin, builtin ▸ table, rfl⟩)

/-- Caps that pass are enforced as they are written. -/
theorem fromCaps_capped (store : CredentialStore) (caps : Caps) (capped : validateCaps caps = .ok ()) :
    ContentGate.fromCaps store caps =
      ⟨store, caps.maxExpirySecs, caps.sessionRps, saturatingMul caps.sessionMibPerMin (1024 * 1024)⟩ := by
  obtain ⟨_, short, moves, sends⟩ := (validateCaps_ok caps ()).mp capped
  have budget : 1 ≤ saturatingMul caps.sessionMibPerMin (1024 * 1024) := by
    unfold saturatingMul
    omega
  unfold ContentGate.fromCaps ContentGate.new
  rw [Nat.min_eq_left short, Nat.max_eq_left (Nat.one_le_iff_ne_zero.mpr moves), Nat.max_eq_left budget]

theorem resolves_known (accepted : Accepted raw config) (path : Text) (resolved : ResolvedKey)
    (resolves : Resolves raw.upstreams raw.routes path resolved) : ∃ u ∈ raw.upstreams, u.id = resolved.upstreamId := by
  have known : resolved.upstreamId ∈ upstreamIds raw.upstreams := by
    rcases resolves.2 with bucketed | ⟨_, _, rule, member, _, same⟩
    · exact bucketed.known
    · rw [same]
      exact accepted.routed rule member
  exact List.mem_map.mp known

end Accepting

/-- A file is refused for a fault that it has, and accepted when it has none. An
accepted one has its content caps enforced as written, and each path that resolves goes to
one of its upstreams, by bucket or by the longest prefix, with the profile asked for. -/
theorem fromRaw_serves (raw : RawConfig) (store : CredentialStore) :
    (∀ error, fromRaw raw = .error error → Faulty raw error) ∧
      ((∃ config, fromRaw raw = .ok config) ↔ ∀ error, ¬Faulty raw error) ∧
      ∀ config, fromRaw raw = .ok config →
        ContentGate.fromCaps store config.contentCaps =
            ⟨store, raw.frontContentAuthMaxExpirySecs, raw.frontContentAuthSessionRps,
              saturatingMul raw.frontContentAuthSessionMibPerMin (1024 * 1024)⟩ ∧
          ∀ buckets, buckets.Perm (upstreamIds config.upstreams) → ∀ path resolved,
            resolveKey path config.routes buckets = .ok resolved →
              Resolves raw.upstreams raw.routes path resolved ∧
                ∃ u ∈ raw.upstreams, config.upstream resolved.upstreamId = some u ∧
                  upstreamUrlPolicy u.baseUrl = .ok () ∧
                  (u.coldMiss = .redirect → u.backendType = openlist ∧ u.linkApiTokenEnv ≠ none) ∧
                  Profiled raw.cacheProfiles u.cacheProfile (config.cacheProfile resolved.upstreamId) := by
  refine ⟨fun error refused => fromRaw_faulty refused, fromRaw_iff, ?_⟩
  intro config ok
  have accepted := fromRaw_accepted ok
  constructor
  · rw [fromCaps_capped store _ accepted.capped]
    obtain ⟨filled, rfl⟩ := accepted.made
    rfl
  · intro buckets order path resolved found
    have resolves := accepted_resolves accepted buckets order path resolved found
    obtain ⟨u, member, same⟩ := resolves_known accepted path resolved resolves
    have fine := accepted.upstream u member
    have known := upstream_known accepted u member
    have profiled := cacheProfile_profiled accepted u member
    rw [same] at known profiled
    exact ⟨resolves, u, member, known, fine.1, fine.2, profiled⟩

def exampleUpstream (id : Text) : UpstreamConfig :=
  ⟨id, openlist, "http://127.0.0.1:5244/dav".toList, .proxy, efficient, none⟩

def exampleRaw : RawConfig :=
  ⟨some 2, none, none, 21600, 30, 1024, 107374182400, 1200, 3, [exampleUpstream ['a'], exampleUpstream ['b']],
    [⟨[], ['a']⟩, ⟨['m', '/'], ['b']⟩], ∅⟩

example : (fromRaw exampleRaw).map (fun config => resolveKey ['m', '/', 'x'] config.routes (upstreamIds config.upstreams)) =
    .ok (.ok ⟨['m', '/', 'x'], ['m', '/', 'x'], ['b']⟩) := by rfl

end OriginCache.Request.Configuration
