import Mathlib.Data.List.Infix
import OriginCache.Request.ContentAuth
import OriginCache.Request.Listing

/-! The business plane: one path space for objects and listings. An upstream is the
objects it holds; the object pipeline behind the resolved key is a parameter. -/

namespace OriginCache.Request.Business
open Foundation.Splits Foundation.Percent Foundation.Tables Canonical Sigv4 ContentAuth Listing
open Cache.SegName (Text replaceChar)
open Cache.Key

/-! Upstreams. -/

structure File where
  key : Text
  size : Nat
  etag : Option Text
  lastModified : Option Text
  content : List UInt8
deriving DecidableEq, Repr

def File.entry (f : File) : ListEntry := ⟨f.key, f.size, f.etag, f.lastModified, false⟩

structure Upstream where
  files : List File
  distinct : (files.map File.key).Nodup

def Upstream.find (up : Upstream) (key : Text) : Option File := up.files.find? fun f => f.key = key

/-- The directory of `folder` that holds `key`, when it is not in `folder` itself. -/
def dirOf (folder key : Text) : Option Text :=
  (splitOnce '/' (key.drop folder.length)).map fun parts => folder ++ parts.1 ++ ['/']

def dirEntry (name : Text) : ListEntry := ⟨name, 0, none, none, true⟩

def Upstream.below (up : Upstream) (folder : Text) : List File :=
  up.files.filter fun f => folder.isPrefixOf f.key

/-- One directory walk: files, and in the shallow form the directories beside them. -/
def Upstream.walked (up : Upstream) (folder : Text) (recursive : Bool) : List ListEntry :=
  if recursive then (up.below folder).map File.entry
  else ((up.below folder).filter fun f => (dirOf folder f.key).isNone).map File.entry ++
    ((up.below folder).filterMap fun f => dirOf folder f.key).dedup.map dirEntry

def Upstream.walk (up : Upstream) (folder : Text) (recursive : Bool) : Except BackendError (List ListEntry) :=
  if folder ≠ [] ∧ up.below folder = [] then .error .notFound else .ok (up.walked folder recursive)

theorem entriesOf_walk (up : Upstream) (folder : Text) (recursive : Bool) :
    entriesOf none (up.walk folder recursive) = .ok (up.walked folder recursive) := by
  unfold Upstream.walk
  by_cases missing : folder ≠ [] ∧ up.below folder = []
  · rw [if_pos missing, Upstream.walked, missing.2]
    cases recursive <;> rfl
  · rw [if_neg missing]
    rfl

/-! The plane. -/

/-- How the router reads a path: its decoded form without the leading slash, unless it
is no UTF-8. -/
structure Router (decoder : Decoder) where
  key : Text → Option Text
  key_decode : ∀ raw key', key raw = some key' → decoder.decode raw = '/' :: key'

/-- What the plane is configured with. `Cached` is whatever the cache holds about one key. -/
structure Plane (decoder : Decoder) (Cached : Type) where
  hashes : Hashes
  wire : Wire
  routes : RouteTable
  upstreams : List Text
  backends : List Text
  store : Option CredentialStore
  router : Router decoder
  pipeline : Bool → HeaderMap → ResolvedKey → Option Cached → Option File → Response

structure World (Cached : Type) where
  upstream : Text → Upstream
  cached : Text → Option Cached
  listings : ListingCache

/-- The moment a request is answered at, and the process state it meets. -/
structure Moment where
  now : Int
  nowMillis : Nat
  keys : KeyCache
  ids : RequestIds

/-- A request as the front forwards it. -/
structure Forwarded where
  request : ContentRequest
  headers : HeaderMap

def methodGet : Text := ['G', 'E', 'T']
def methodHead : Text := ['H', 'E', 'A', 'D']

def rawQuery (request : ContentRequest) : Option Text :=
  (splitOnce '?' request.pathAndQuery).map Prod.snd

/-- `utf8_percent_encode` over the control characters, then the markup. -/
def resourcePath (key : Text) : Text :=
  let encoded := encode (fun b => 0x20 ≤ b ∧ b < 0x7F) key
  '/' :: replaceChar '>' "&gt;".toList (replaceChar '<' "&lt;".toList (replaceChar '&' "&amp;".toList encoded))

def envelope (status : Nat) (body : Text) (ids : RequestIds) : Response :=
  ⟨status, idHeaders ids ++ [xmlType], utf8 body⟩

def invalidKeyResponse (key : Text) (ids : RequestIds) (headOnly : Bool) : Response :=
  envelope 400 (if headOnly then []
    else s3ErrorXml "InvalidRequest" "The request key is invalid." (resourcePath key) ids []) ids

def badPath : Response := ⟨400, [], []⟩
def methodNotAllowed : Response := ⟨405, [], []⟩

section Answers
variable {decoder : Decoder} {Cached : Type} (plane : Plane decoder Cached)

/-- Verify what carries signature material; anything else passes. -/
def sigv4Gate (method : Text) (forwarded : Forwarded) (moment : Moment) : Option Response :=
  match plane.store with
  | none => none
  | some store =>
      let authorization := (forwarded.headers.find? fun header => header.1 = headerAuthorization).bind Prod.snd
      let query := rawQuery forwarded.request
      if authorization.isNone ∧ !query.any (fun q => decide (paramSignature <:+: q)) then none
      else
        let raw := forwarded.request.rawPath
        let pairs := (query.map plane.wire.formParse).getD []
        let input := verifyInput method (decoder.decode raw) raw pairs none (some forwarded.headers)
        match (verifyOptional plane.hashes (some store) input moment.now moment.keys).1 with
        | .anonymous => none
        | .verified _ => none
        | .failed _ =>
            some ⟨403, xmlType :: ("cache-control".toList, "no-store".toList) :: idHeaders moment.ids,
              utf8 (s3ErrorXml "AccessDenied" "Access Denied" ('/' :: raw) moment.ids [])⟩

/-- Everything behind the resolution seam takes the resolved key. -/
def objectAnswer (headOnly : Bool) (world : World Cached) (forwarded : Forwarded) (key : Text)
    (moment : Moment) : Response :=
  match resolveKey key plane.routes plane.backends with
  | .error _ => invalidKeyResponse key moment.ids headOnly
  | .ok rk =>
      plane.pipeline headOnly forwarded.headers rk (world.cached rk.cacheKey)
        ((world.upstream rk.upstreamId).find rk.backendKey)

def listAnswer (world : World Cached) (bucket : Text) (params : ListParams) (key : Text)
    (moment : Moment) : Response :=
  let snapshot := world.listings.get bucket params.folder params.recursive moment.nowMillis
  listPage plane.wire bucket params key moment.ids
    (entriesOf snapshot ((world.upstream bucket).walk params.folder params.recursive))

def getKey (world : World Cached) (forwarded : Forwarded) (key : Text) (moment : Moment) : Response :=
  match sigv4Gate plane methodGet forwarded moment with
  | some refused => refused
  | none =>
      match dispatch plane.wire plane.routes plane.upstreams plane.backends key forwarded.request.query
        moment.ids with
      | .refused response => response
      | .listing bucket params => listAnswer plane world bucket params key moment
      | .object => objectAnswer plane false world forwarded key moment

def headKey (world : World Cached) (forwarded : Forwarded) (key : Text) (moment : Moment) : Response :=
  match sigv4Gate plane methodHead forwarded moment with
  | some refused => refused
  | none => objectAnswer plane true world forwarded key moment

/-- The business plane's answer to a forwarded request. -/
def answer (world : World Cached) (forwarded : Forwarded) (moment : Moment) : Response :=
  match plane.router.key forwarded.request.rawPath with
  | none => badPath
  | some key =>
      if forwarded.request.method = methodGet then getKey plane world forwarded key moment
      else if forwarded.request.method = methodHead then headKey plane world forwarded key moment
      else methodNotAllowed

/-- The listing a request reaches, if it reaches one. -/
def reaches (forwarded : Forwarded) (moment : Moment) : Option (Text × ListParams) :=
  match plane.router.key forwarded.request.rawPath with
  | none => none
  | some key =>
      if forwarded.request.method = methodGet ∧ sigv4Gate plane methodGet forwarded moment = none then
        match dispatch plane.wire plane.routes plane.upstreams plane.backends key forwarded.request.query
          moment.ids with
        | .listing bucket params => some (bucket, params)
        | _ => none
      else none

end Answers

end OriginCache.Request.Business
