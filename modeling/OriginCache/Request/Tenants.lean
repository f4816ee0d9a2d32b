import OriginCache.Request.Pages
import OriginCache.Request.Tickets

/-! Tenant confinement. Two worlds that agree under a tenant's prefix differ for it only
where a listing shows a key outside the prefix. -/

namespace OriginCache.Request.Tenants
open Foundation.Splits Foundation.Percent Foundation.Tables Canonical Sigv4 ContentAuth Listing Business Pages
open Cache.SegName (Text)
open Cache.Key

section Worlds
variable {decoder : Decoder} {Cached : Type} (plane : Plane decoder Cached)

/-- The object a path key names, without asking whether the key is valid. -/
def nameOf (key : Text) : Text × Text :=
  match splitBucket key plane.backends with
  | some named => named
  | none => (plane.routes.resolve key, key)

/-- A path key within an allowed prefix. -/
def Within (allowed : Option Text) (key : Text) : Prop := ∀ p, allowed = some p → p.isPrefixOf key = true

/-- An upstream's object that some path key within the prefix names. -/
def Under (allowed : Option Text) (upstream key : Text) : Prop :=
  allowed = none ∨ ∃ path, Within allowed path ∧ nameOf plane path = (upstream, key)

def UpstreamsAgree (allowed : Option Text) (upstream : Text) (up₁ up₂ : Upstream) : Prop :=
  ∀ f : File, Under plane allowed upstream f.key → (f ∈ up₁.files ↔ f ∈ up₂.files)

/-- Worlds that hold the same objects under a prefix, and started from the same cached
contents and from listing snapshots of agreeing upstreams. -/
structure Agree (allowed : Option Text) (world₁ world₂ : World Cached) : Prop where
  objects : ∀ upstream, UpstreamsAgree plane allowed upstream (world₁.upstream upstream) (world₂.upstream upstream)
  cached : ∀ key, Within allowed key → world₁.cached key = world₂.cached key
  listings : ∀ upstream folder recursive,
    (world₁.listings.lookup (upstream, folder, recursive) = none ∧
      world₂.listings.lookup (upstream, folder, recursive) = none) ∨
    ∃ walkedAt up₁ up₂, UpstreamsAgree plane allowed upstream up₁ up₂ ∧
      world₁.listings.lookup (upstream, folder, recursive) = some (walkedAt, up₁.walked folder recursive) ∧
      world₂.listings.lookup (upstream, folder, recursive) = some (walkedAt, up₂.walked folder recursive)

/-- The answer does not depend on what lies outside the prefix. -/
def Confined (allowed : Option Text) (forwarded : Forwarded) (moment : Moment) : Prop :=
  ∀ world₁ world₂, Agree plane allowed world₁ world₂ →
    answer plane world₁ forwarded moment = answer plane world₂ forwarded moment

/-! Objects. -/

theorem find_some (up : Upstream) (key : Text) (f : File) :
    up.find key = some f ↔ f ∈ up.files ∧ f.key = key := by
  constructor
  · intro found
    exact ⟨List.mem_of_find?_eq_some found, by simpa using List.find?_some found⟩
  · rintro ⟨inside, named⟩
    cases found : up.find key with
    | none =>
      have absent := List.find?_eq_none.mp found f inside
      exact absurd (decide_eq_true named) absent
    | some g =>
      have namedG : g.key = key := by simpa using List.find?_some found
      rw [file_of_key up g f (List.mem_of_find?_eq_some found) inside (namedG.trans named.symm)]

theorem find_congr (allowed : Option Text) (upstream key : Text) (up₁ up₂ : Upstream)
    (agree : UpstreamsAgree plane allowed upstream up₁ up₂) (under : Under plane allowed upstream key) :
    up₁.find key = up₂.find key := by
  apply Option.ext
  intro f
  rw [find_some, find_some]
  constructor
  · rintro ⟨inside, rfl⟩
    exact ⟨(agree f under).mp inside, rfl⟩
  · rintro ⟨inside, rfl⟩
    exact ⟨(agree f under).mpr inside, rfl⟩

/-- A resolved key is the object its path names. -/
theorem resolveKey_nameOf (key : Text) (rk : ResolvedKey)
    (resolved : resolveKey key plane.routes plane.backends = .ok rk) :
    rk.cacheKey = key ∧ nameOf plane key = (rk.upstreamId, rk.backendKey) := by
  have cacheKey := (resolveKey_ok key plane.routes plane.backends rk resolved).1
  unfold nameOf
  unfold resolveKey at resolved
  cases split : splitBucket key plane.backends with
  | none =>
    rw [split] at resolved
    simp only [bind, Except.bind, pure, Except.pure] at resolved
    repeat' split at resolved
    all_goals cases resolved
    have same : _ = key := cacheKey
    subst same
    exact ⟨rfl, rfl⟩
  | some parts =>
    rw [split] at resolved
    simp only [bind, Except.bind, pure, Except.pure] at resolved
    repeat' split at resolved
    all_goals cases resolved
    next validRest =>
      have same := validateKey_ok _ _ validRest
      exact ⟨cacheKey, by rw [same]⟩

theorem objectAnswer_congr (allowed : Option Text) (headOnly : Bool) (world₁ world₂ : World Cached)
    (forwarded : Forwarded) (key : Text) (moment : Moment) (agree : Agree plane allowed world₁ world₂)
    (within : Within allowed key) :
    objectAnswer plane headOnly world₁ forwarded key moment =
      objectAnswer plane headOnly world₂ forwarded key moment := by
  unfold objectAnswer
  cases resolved : resolveKey key plane.routes plane.backends with
  | error bad => rfl
  | ok rk =>
    obtain ⟨cacheKey, named⟩ := resolveKey_nameOf plane key rk resolved
    have under : Under plane allowed rk.upstreamId rk.backendKey := .inr ⟨key, within, named⟩
    have cached := agree.cached rk.cacheKey (cacheKey ▸ within)
    have objects := find_congr plane allowed rk.upstreamId rk.backendKey _ _ (agree.objects rk.upstreamId) under
    simp only [cached, objects]

/-! Listings. -/

theorem listAnswer_congr (allowed : Option Text) (world₁ world₂ : World Cached) (bucket : Text)
    (params : ListParams) (key : Text) (moment : Moment) (agree : Agree plane allowed world₁ world₂)
    (covered : ∀ k, shows plane.wire params k = true → Under plane allowed bucket k) :
    listAnswer plane world₁ bucket params key moment = listAnswer plane world₂ bucket params key moment := by
  have pages : ∀ up₁ up₂, UpstreamsAgree plane allowed bucket up₁ up₂ →
      listPage plane.wire bucket params key moment.ids (.ok (up₁.walked params.folder params.recursive)) =
        listPage plane.wire bucket params key moment.ids (.ok (up₂.walked params.folder params.recursive)) :=
    fun up₁ up₂ same => listPage_congr plane.wire bucket params key moment.ids up₁ up₂
      fun f shown => same f (covered f.key shown)
  have live := pages _ _ (agree.objects bucket)
  rcases agree.listings bucket params.folder params.recursive with ⟨none₁, none₂⟩ | ⟨walkedAt, up₁, up₂, same, row₁, row₂⟩
  · simpa only [listAnswer, ListingCache.get, none₁, none₂, Option.bind_none, entriesOf_walk] using live
  · by_cases fresh : moment.nowMillis - walkedAt < listingSnapshotTtlMs
    · simpa only [listAnswer, ListingCache.get, row₁, row₂, Option.bind_some, if_pos fresh, entriesOf] using
        pages up₁ up₂ same
    · simpa only [listAnswer, ListingCache.get, row₁, row₂, Option.bind_some, if_neg fresh, entriesOf_walk]
        using live

/-- The world in which one upstream holds one file and nothing else exists. -/
def loneWorld (bucket : Text) (up : Upstream) : World Cached where
  upstream name := if name = bucket then up else noFiles
  cached _ := none
  listings := ∅

theorem loneWorld_agree (allowed : Option Text) (bucket : Text) (f : File)
    (outside : ¬Under plane allowed bucket f.key) :
    Agree plane allowed (loneWorld bucket noFiles : World Cached) (loneWorld bucket (oneFile f)) where
  objects := by
    intro upstream g under
    by_cases here : upstream = bucket
    · subst here
      simp only [loneWorld, if_pos]
      have other : g ≠ f := fun same => outside (same ▸ under)
      exact iff_of_false List.not_mem_nil (fun member => other (List.mem_singleton.mp member))
    · simp only [loneWorld, if_neg here]
  cached _ _ := rfl
  listings _ _ _ := .inl ⟨rfl, rfl⟩

theorem listAnswer_ne (bucket : Text) (params : ListParams) (key : Text) (moment : Moment) (f : File)
    (shown : shows plane.wire params f.key = true) :
    listAnswer plane (loneWorld bucket noFiles : World Cached) bucket params key moment ≠
      listAnswer plane (loneWorld bucket (oneFile f)) bucket params key moment := by
  have page := listPage_ne plane.wire bucket params key moment.ids f shown
  have empty : ListingCache.get ∅ bucket params.folder params.recursive moment.nowMillis = none := rfl
  simpa only [listAnswer, loneWorld, empty, if_pos, entriesOf_walk] using page

/-! Confinement. -/

/-- A request that reaches no listing is answered about its own key. -/
theorem answer_congr (allowed : Option Text) (forwarded : Forwarded) (moment : Moment)
    (world₁ world₂ : World Cached) (agree : Agree plane allowed world₁ world₂)
    (within : ∀ key, plane.router.key forwarded.request.rawPath = some key → Within allowed key)
    (covered : ∀ bucket params, reaches plane forwarded moment = some (bucket, params) →
      ∀ k, shows plane.wire params k = true → Under plane allowed bucket k) :
    answer plane world₁ forwarded moment = answer plane world₂ forwarded moment := by
  unfold answer
  unfold reaches at covered
  cases routed : plane.router.key forwarded.request.rawPath with
  | none => rfl
  | some key =>
    have own := fun headOnly => objectAnswer_congr plane allowed headOnly world₁ world₂ forwarded key moment agree
      (within key routed)
    simp only [routed] at covered ⊢
    by_cases get : forwarded.request.method = methodGet
    · simp only [if_pos get, getKey]
      cases passed : sigv4Gate plane methodGet forwarded moment with
      | some refused => rfl
      | none =>
        rw [if_pos ⟨get, passed⟩] at covered
        cases target : dispatch plane.wire plane.routes plane.upstreams plane.backends key
          forwarded.request.query moment.ids with
        | refused response => rfl
        | object => exact own false
        | listing bucket params =>
          exact listAnswer_congr plane allowed world₁ world₂ bucket params key moment agree
            (covered bucket params (by rw [target]))
    · simp only [if_neg get]
      by_cases head : forwarded.request.method = methodHead
      · simp only [if_pos head, headKey]
        cases sigv4Gate plane methodHead forwarded moment with
        | some refused => rfl
        | none => exact own true
      · simp only [if_neg head]

theorem reaches_answer (forwarded : Forwarded) (moment : Moment) (bucket : Text) (params : ListParams)
    (reached : reaches plane forwarded moment = some (bucket, params)) :
    ∃ key, ∀ world : World Cached,
      answer plane world forwarded moment = listAnswer plane world bucket params key moment := by
  unfold reaches at reached
  unfold answer
  cases routed : plane.router.key forwarded.request.rawPath with
  | none =>
    rw [routed] at reached
    cases reached
  | some key =>
    simp only [routed] at reached ⊢
    split_ifs at reached with through
    simp only [if_pos through.1]
    cases target : dispatch plane.wire plane.routes plane.upstreams plane.backends key
      forwarded.request.query moment.ids with
    | refused response =>
      rw [target] at reached
      cases reached
    | object =>
      rw [target] at reached
      cases reached
    | listing other others =>
      rw [target] at reached
      cases reached
      exact ⟨key, fun world => (by simp only [getKey, through.2, target])⟩

/-- A shown key outside the prefix is told apart from no key at all. -/
theorem not_confined (allowed : Option Text) (forwarded : Forwarded) (moment : Moment) (bucket : Text)
    (params : ListParams) (reached : reaches plane forwarded moment = some (bucket, params)) (k : Text)
    (shown : shows plane.wire params k = true) (outside : ¬Under plane allowed bucket k) :
    ¬Confined plane allowed forwarded moment := by
  intro confined
  obtain ⟨key, listed⟩ := reaches_answer plane forwarded moment bucket params reached
  let f : File := ⟨k, 0, none, none, []⟩
  have same := confined _ _ (loneWorld_agree plane allowed bucket f outside)
  rw [listed, listed] at same
  exact listAnswer_ne plane bucket params key moment f shown same

theorem within_of_admitted (allowed : Option Text) (forwarded : Forwarded)
    (inside : withinPrefix allowed (forwarded.request.decodedPath decoder) = true) (key : Text)
    (routed : plane.router.key forwarded.request.rawPath = some key) : Within allowed key := by
  have path : forwarded.request.decodedPath decoder = '/' :: key :=
    plane.router.key_decode forwarded.request.rawPath key routed
  intro p named
  rw [path, named] at inside
  have whole : stripPrefix ['/'] ('/' :: key) = some key := stripPrefix_append ['/'] key
  simpa only [withinPrefix, whole, Option.any_some] using inside

/-- An admitted request is confined to its tenant exactly when every key that the listing
it reaches, if it reaches one, has a place for lies under the tenant's prefix. -/
theorem confined_iff (hashes : Hashes) (formParse : Text → List (Text × Text)) (gate : ContentGate)
    (now : Int) (state : GateState) (forwarded : Forwarded) (moment : Moment) (credential session : Text)
    (entry : CredentialEntry)
    (admitted : (admits hashes decoder formParse gate forwarded.request now state).1 =
      .allow credential session)
    (known : gate.store.lookup credential = some entry) :
    Confined plane entry.keyPrefix forwarded moment ↔
      ∀ bucket params, reaches plane forwarded moment = some (bucket, params) →
        ∀ k, shows plane.wire params k = true → Under plane entry.keyPrefix bucket k := by
  obtain ⟨found, same, inside⟩ :=
    admits_allow hashes decoder formParse gate forwarded.request now state credential session admitted
  rw [known] at same
  cases same
  constructor
  · intro confined bucket params reached k shown
    by_contra outside
    exact not_confined plane entry.keyPrefix forwarded moment bucket params reached k shown outside confined
  · intro covered world₁ world₂ agree
    exact answer_congr plane entry.keyPrefix forwarded moment world₁ world₂ agree
      (within_of_admitted plane entry.keyPrefix forwarded inside) covered

end Worlds

/-! A tenant of `m/a/` asks for the listing of `m` under `b/`, at a path of its own. -/

def tenants : CredentialStore := AList.insert ['k'] ⟨['s'], some ['m', '/', 'a', '/'], none, none⟩ ∅

def tenantGate : ContentGate := .fromCaps tenants ⟨21600, 30, 1024⟩

def listSignature : Text :=
  ['1', '6', '7', '7', '2', 'f', '0', 'f', '9', 'a', '9', '7', '9', 'a', 'f', '5', 'e', '0', 'c',
    '0', '8', '0', 'b', 'f', '4', '8', 'b', '7', '4', '8', 'b', 'a', '5', '0', '8', '7', 'f', 'd',
    'c', 'a', 'f', 'c', '1', 'e', 'b', '9', '3', '6', 'e', '2', 'd', '2', 'c', '3', 'c', '0', '8',
    '8', 'f', '9', 'a', '0', 'f', '2']

/-- The signed part of a ticket for 60 seconds. -/
def ticketPairs : List (Text × Text) :=
  [(paramAlgorithm, algorithmName), (paramCredential, 'k' :: '/' :: Tickets.sampleScope),
    (paramDate, Tickets.sampleIso), (paramExpires, ['6', '0']), (paramSignedHeaders, headerHost),
    (paramSession, ['v'])]

def listPairs : List (Text × Text) :=
  [(nameListType, ['2']), (namePrefix, ['b', '/'])] ++ ticketPairs ++ [(paramSignature, listSignature)]

def listPath : Text := ['/', 'm', '/', 'a', '/', 'x']

def listQuery : Text := ['&'].intercalate (listPairs.map fun pair => pairText (encodePair pair))

def listRequest : ContentRequest where
  method := methodGet
  pathAndQuery := listPath ++ '?' :: listQuery
  host := some ['h']
  oneMethod := by decide
  oneLine := by decide +kernel

def listDigest : List UInt8 :=
  [0x98, 0xB1, 0xDE, 0x38, 0x23, 0x0F, 0x94, 0x9D, 0x63, 0xF7, 0x36, 0x1C, 0x42, 0xA4, 0x89, 0x72,
    0xDF, 0xC9, 0x77, 0xF7, 0x4C, 0x6F, 0x2F, 0x7C, 0x36, 0x9C, 0x8F, 0xF9, 0x9E, 0x06, 0x1F, 0x14]
def listMac : List UInt8 :=
  [0x16, 0x77, 0x2F, 0x0F, 0x9A, 0x97, 0x9A, 0xF5, 0xE0, 0xC0, 0x80, 0xBF, 0x48, 0xB7, 0x48, 0xBA,
    0x50, 0x87, 0xFD, 0xCA, 0xFC, 0x1E, 0xB9, 0x36, 0xE2, 0xD2, 0xC3, 0xC0, 0x88, 0xF9, 0xA0, 0xF2]

def listHashes : Hashes where
  sha256 := Tickets.patched
    [(utf8 (canonicalRequest methodGet listPath (canonicalQuery listPairs true) (hostLine 0 ['h'] ++ ['\n'])
      headerHost unsignedPayload), listDigest)] Tickets.longDigest
  hmacSha256 key data := Tickets.patched
    (Tickets.macTable ++ [((Tickets.sampleSigningKey, utf8 (algorithmName ++ '\n' :: (Tickets.sampleIso ++
      '\n' :: (Tickets.sampleScope ++ '\n' :: hexEncode listDigest)))), listMac)]) Tickets.longMac (key, data)

def plainRouter : Router lossy where
  key raw :=
    match decodeLossy raw with
    | '/' :: key => some key
    | _ => none
  key_decode raw key' found := by
    split at found
    · next key same =>
      cases found
      exact same
    · cases found

/-- One upstream, and objects served as they are. -/
def plainPlane : Plane lossy Unit where
  hashes := listHashes
  wire := ⟨formDecode, id, fun _ => none, fun _ => none⟩
  routes := defaultRoutes
  upstreams := [['m']]
  backends := [['m']]
  store := some tenants
  router := plainRouter
  pipeline headOnly _ _ _ file :=
    match file with
    | some f => ⟨200, [], if headOnly then [] else f.content⟩
    | none => ⟨404, [], []⟩

def listForwarded : Forwarded := ⟨listRequest, [(headerHost, some ['h'])]⟩

def listMoment : Moment := ⟨1790380800, 0, ∅, ⟨['1'], ['2']⟩⟩

def listParamsRead : ListParams where
  isList := true
  isV2 := true
  keyPrefix := ['b', '/']
  delimiter := none
  maxKeysRaw := none
  continuationToken := none
  startAfter := none
  marker := none
  encodingUrl := false
  fetchOwner := false

theorem listing_admitted : (admits listHashes lossy formDecode tenantGate listForwarded.request 1790380800
    ⟨∅, ∅⟩).1 = .allow ['k'] ['v'] := by decide +kernel

/-- A path under `m/a/` names an object of `m` under `a/`. -/
theorem under_tenant (key : Text) (under : Under plainPlane (some ['m', '/', 'a', '/']) ['m'] key) :
    ∃ rest, key = 'a' :: '/' :: rest := by
  rcases under with none | ⟨path, within, named⟩
  · cases none
  · obtain ⟨rest, whole⟩ := List.isPrefixOf_iff_prefix.mp (within _ rfl)
    have split : splitBucket path plainPlane.backends = some (['m'], 'a' :: '/' :: rest) := by
      rw [← whole]
      rfl
    rw [nameOf, split] at named
    exact ⟨rest, (congrArg Prod.snd named).symm⟩

/-- The listing is admitted, and shows what another tenant's folder holds. -/
theorem foreign_listing :
    (admits listHashes lossy formDecode tenantGate listForwarded.request 1790380800 ⟨∅, ∅⟩).1 =
        .allow ['k'] ['v'] ∧
      tenantGate.store.lookup ['k'] = some ⟨['s'], some ['m', '/', 'a', '/'], none, none⟩ ∧
      ¬Confined plainPlane (some ['m', '/', 'a', '/']) listForwarded listMoment := by
  constructor
  · exact listing_admitted
  · constructor
    · rfl
    · apply not_confined plainPlane _ listForwarded listMoment ['m'] listParamsRead (by decide +kernel)
        ['b', '/', 'y'] (by decide)
      intro under
      obtain ⟨rest, same⟩ := under_tenant _ under
      cases same

theorem listing_confined_iff :
    Confined plainPlane (some ['m', '/', 'a', '/']) listForwarded listMoment ↔
      ∀ bucket params, reaches plainPlane listForwarded listMoment = some (bucket, params) →
        ∀ k, shows plainPlane.wire params k = true →
          Under plainPlane (some ['m', '/', 'a', '/']) bucket k :=
  confined_iff plainPlane listHashes formDecode tenantGate 1790380800 ⟨∅, ∅⟩ listForwarded listMoment
    ['k'] ['v'] ⟨['s'], some ['m', '/', 'a', '/'], none, none⟩ listing_admitted rfl

end OriginCache.Request.Tenants
