import Mathlib.Data.List.Dedup
import OriginCache.Cache.Key
import OriginCache.Foundation.Tables
import OriginCache.Request.Sigv4

/-! The listing endpoint: which requests are listings, of what, and the page they are
answered with. Query parsing, page tokens and the date format are parameters. -/

namespace OriginCache.Request.Listing
open Foundation.Splits Foundation.Percent Foundation.Tables Canonical Sigv4
open Cache.SegName (Text parseU64)
open Cache.Key (RouteTable)

def maxKeysCap : Nat := 1000

/-- What the endpoint uses of other packages and of the process: the query parser, the
boot-keyed page tokens and the conversion of an RFC 2822 date. -/
structure Wire where
  formParse : Text → List (Text × Text)
  signToken : Text → Text
  openToken : Text → Option Text
  iso8601 : Text → Option Text

structure ListEntry where
  key : Text
  size : Nat
  etag : Option Text
  lastModified : Option Text
  isDir : Bool
deriving DecidableEq, Repr

inductive BackendError
  | notFound | rateLimited (retryAfterMillis : Option Nat) | serverError | authRequired
  | rangeNotSatisfiable | other
deriving DecidableEq, Repr

structure Response where
  status : Nat
  headers : List (Text × Text)
  body : List UInt8
deriving DecidableEq, Repr

structure RequestIds where
  reqId : Text
  hostId : Text
deriving DecidableEq, Repr

/-! Query parsing. -/

def nameListType : Text := ['l', 'i', 's', 't', '-', 't', 'y', 'p', 'e']
def namePrefix : Text := ['p', 'r', 'e', 'f', 'i', 'x']
def nameDelimiter : Text := ['d', 'e', 'l', 'i', 'm', 'i', 't', 'e', 'r']
def nameMaxKeys : Text := ['m', 'a', 'x', '-', 'k', 'e', 'y', 's']
def nameContinuationToken : Text :=
  ['c', 'o', 'n', 't', 'i', 'n', 'u', 'a', 't', 'i', 'o', 'n', '-', 't', 'o', 'k', 'e', 'n']
def nameStartAfter : Text := ['s', 't', 'a', 'r', 't', '-', 'a', 'f', 't', 'e', 'r']
def nameMarker : Text := ['m', 'a', 'r', 'k', 'e', 'r']
def nameEncodingType : Text :=
  ['e', 'n', 'c', 'o', 'd', 'i', 'n', 'g', '-', 't', 'y', 'p', 'e']
def nameFetchOwner : Text := ['f', 'e', 't', 'c', 'h', '-', 'o', 'w', 'n', 'e', 'r']

def listParams : List Text :=
  [nameListType, namePrefix, nameDelimiter, nameMaxKeys, nameContinuationToken, nameStartAfter, nameMarker,
    nameEncodingType]

/-- Whole parameter names, never substrings. -/
def hasListParam (pairs : List (Text × Text)) : Bool := pairs.any fun pair => pair.1 ∈ listParams

structure ListParams where
  isList : Bool
  isV2 : Bool
  keyPrefix : Text
  delimiter : Option Text
  maxKeysRaw : Option Text
  continuationToken : Option Text
  startAfter : Option Text
  marker : Option Text
  encodingUrl : Bool
  fetchOwner : Bool
deriving DecidableEq, Repr

inductive ListParamError
  | encodingType | maxKeysNotInteger | maxKeysNegative | continuationToken
deriving DecidableEq, Repr

/-- `str::parse::<i64>`. -/
def parseI64 (text : Text) : Option Int :=
  match text with
  | '-' :: digits => (readNumeral (2 ^ 63 + 1) digits).map fun n => -(n : Int)
  | '+' :: digits => (readNumeral (2 ^ 63) digits).map fun n => (n : Int)
  | digits => (readNumeral (2 ^ 63) digits).map fun n => (n : Int)

def nonEmpty (value : Option Text) : Option Text := value.filter (· ≠ [])

def checkMaxKeys (raw : Option Text) : Except ListParamError Unit :=
  match raw with
  | none => .ok ()
  | some raw =>
      match parseI64 raw with
      | none => .error .maxKeysNotInteger
      | some n =>
          if n < 0 then .error .maxKeysNegative
          else if 2 ^ 31 - 1 < n then .error .maxKeysNotInteger
          else .ok ()

def checkEncoding (encodingType : Option Text) : Except ListParamError Bool :=
  match encodingType with
  | none => .ok false
  | some value => if value = ['u', 'r', 'l'] then .ok true else .error .encodingType

def ListParams.parse (wire : Wire) (query : Text) : Except ListParamError ListParams := do
  let pairs := wire.formParse query
  let encodingUrl ← checkEncoding (queryGet pairs nameEncodingType)
  let maxKeysRaw := nonEmpty (queryGet pairs nameMaxKeys)
  checkMaxKeys maxKeysRaw
  return {
    isList := hasListParam pairs
    isV2 := queryGet pairs nameListType = some ['2']
    keyPrefix := (queryGet pairs namePrefix).getD []
    delimiter := nonEmpty (queryGet pairs nameDelimiter)
    maxKeysRaw := maxKeysRaw
    continuationToken := queryGet pairs nameContinuationToken
    startAfter := queryGet pairs nameStartAfter
    marker := queryGet pairs nameMarker
    encodingUrl := encodingUrl
    fetchOwner := queryGet pairs nameFetchOwner = some ['t', 'r', 'u', 'e'] }

def ListParams.cap (params : ListParams) : Nat :=
  min ((params.maxKeysRaw.bind parseU64).getD maxKeysCap) maxKeysCap

/-- The longest directory part of the prefix. -/
def ListParams.folder (params : ListParams) : Text :=
  match rsplitOnce '/' params.keyPrefix with
  | some (front, _) => front ++ ['/']
  | none => []

def ListParams.recursive (params : ListParams) : Bool := params.delimiter.isNone

/-! Bucket resolution. -/

def trimSlashes (path : Text) : Text :=
  ((path.dropWhile (· = '/')).reverse.dropWhile (· = '/')).reverse

def resolveListBucket (pathKey : Text) (routes : RouteTable) (upstreams : List Text) : Option Text :=
  let path := trimSlashes pathKey
  if path = [] then some (routes.resolve [])
  else
    let first := (path.splitOn '/').headD path
    if first ∈ upstreams then some first else none

/-! Entry selection. -/

structure PageItems where
  contents : List ListEntry
  commonPrefixes : List Text
deriving DecidableEq, Repr

/-- The names greater than the `start-after` of a first V2 page. -/
def ListParams.starts (params : ListParams) (name : Text) : Bool :=
  if params.isV2 ∧ params.continuationToken = none then params.startAfter.all (· < name) else true

def selectItems (entries : List ListEntry) (params : ListParams) : PageItems :=
  let matching := entries.filter fun e => params.keyPrefix.isPrefixOf e.key
  let contents := (matching.filter fun e => !e.isDir).insertionSort fun a b => NotAfter a.key b.key
  let dirs := (matching.filter fun e => e.isDir).map ListEntry.key
  let commonPrefixes :=
    if params.delimiter.isSome then (dirs.insertionSort NotAfter).destutter (· ≠ ·) else []
  ⟨contents.filter fun e => params.starts e.key, commonPrefixes.filter fun p => params.starts p⟩

inductive Resume
  | start | afterContent (key : Text) | afterPrefix (name : Text)
deriving DecidableEq, Repr

/-- Where the page resumes, or a token that cannot be opened. -/
def resumeFrom (wire : Wire) (params : ListParams) : Option (Except Unit Resume) :=
  if params.isV2 then
    params.continuationToken.map fun token =>
      match (wire.openToken token).bind (splitOnce '|') with
      | some (['c'], name) => .ok (.afterContent name)
      | some (['p'], name) => .ok (.afterPrefix name)
      | _ => .error ()
  else
    params.marker.map fun marker =>
      if marker.getLast? = some '/' ∧ params.delimiter.isSome then .ok (.afterPrefix marker)
      else .ok (.afterContent marker)

/-- What is left of the sequence at a resume point. -/
def resumed (page : PageItems) : Resume → PageItems
  | .start => page
  | .afterContent key => ⟨page.contents.filter fun e => key < e.key, page.commonPrefixes⟩
  | .afterPrefix name => ⟨[], page.commonPrefixes.filter fun p => name < p⟩

/-- The first `cap` items, and whether there were more. -/
def cut (cap : Nat) (items : PageItems) : PageItems × Bool :=
  let contents := items.contents.take cap
  let commonPrefixes := items.commonPrefixes.take (cap - contents.length)
  (⟨contents, commonPrefixes⟩,
    contents.length + commonPrefixes.length < items.contents.length + items.commonPrefixes.length)

def nextToken (wire : Wire) (items : PageItems) : Text :=
  match items.commonPrefixes.getLast? with
  | some p => wire.signToken ('p' :: '|' :: p)
  | none =>
      match items.contents.getLast? with
      | some c => wire.signToken ('c' :: '|' :: c.key)
      | none => wire.signToken ['c', '|']

/-! Rendering. -/

def xmlEscapeChar (c : Char) : Text :=
  if c = '&' then "&amp;".toList
  else if c = '<' then "&lt;".toList
  else if c = '>' then "&gt;".toList
  else if c = '"' then "&quot;".toList
  else if c = '\'' then "&apos;".toList
  else [c]

def xmlEscape (s : Text) : Text := s.flatMap xmlEscapeChar

def awsUrlEncodeByte (b : UInt8) : Text :=
  if (0x41 ≤ b ∧ b ≤ 0x5A) ∨ (0x61 ≤ b ∧ b ≤ 0x7A) ∨ (0x30 ≤ b ∧ b ≤ 0x39) ∨ b = 0x2D ∨ b = 0x5F ∨
      b = 0x2E ∨ b = 0x2F then [latin b]
  else if b = 0x20 then ['+']
  else escapeByte b

def awsUrlEncode (s : Text) : Text := (utf8 s).flatMap awsUrlEncodeByte

def encMaybe (params : ListParams) (s : Text) : Text :=
  if params.encodingUrl then awsUrlEncode s else xmlEscape s

def quoteEtag (etag : Text) : Text :=
  let t := trim etag
  let bare := (stripPrefix ['W', '/'] t).getD t
  if 2 ≤ (utf8 bare).length ∧ bare.head? = some '"' ∧ bare.getLast? = some '"' then bare
  else '"' :: bare ++ ['"']

def element (name : String) (inner : Text) : Text :=
  ("<" ++ name ++ ">").toList ++ inner ++ ("</" ++ name ++ ">").toList

def optional (value : Option Text) (render : Text → Text) : Text := (value.map render).getD []

def renderContent (wire : Wire) (params : ListParams) (c : ListEntry) : Text :=
  element "Contents" (element "Key" (encMaybe params c.key) ++
    optional (c.lastModified.bind wire.iso8601) (element "LastModified") ++
    optional c.etag (fun etag => element "ETag" (xmlEscape (quoteEtag etag))) ++
    element "Size" (numeral c.size) ++
    (if params.fetchOwner then
      element "Owner" (element "ID" "origin-cache".toList ++ element "DisplayName" "origin-cache".toList)
    else []) ++ element "StorageClass" "STANDARD".toList)

def renderPrefix (params : ListParams) (p : Text) : Text :=
  element "CommonPrefixes" (element "Prefix" (encMaybe params p))

def maxKeysEcho (params : ListParams) : Text :=
  element "MaxKeys" (xmlEscape (params.maxKeysRaw.getD ['1', '0', '0', '0']))

/-- The part of the page that both dialects end their own fields with. -/
def renderOptions (params : ListParams) : Text :=
  optional params.delimiter (fun d => element "Delimiter" (encMaybe params d)) ++
    (if params.encodingUrl then element "EncodingType" ['u', 'r', 'l'] else [])

def renderFields (params : ListParams) (items : PageItems) (truncated : Bool) (token : Option Text) : Text :=
  if params.isV2 then
    optional params.startAfter (fun after => element "StartAfter" (encMaybe params after)) ++
      optional params.continuationToken (fun t => element "ContinuationToken" (xmlEscape t)) ++
      optional token (fun t => element "NextContinuationToken" (xmlEscape t)) ++
      element "KeyCount" (numeral (items.contents.length + items.commonPrefixes.length)) ++
      maxKeysEcho params ++ renderOptions params
  else
    maxKeysEcho params ++ optional params.marker (fun m => element "Marker" (encMaybe params m)) ++
      (if truncated ∧ params.delimiter.isSome then
        let next := (items.commonPrefixes.getLast?.orElse fun _ =>
          items.contents.getLast?.map ListEntry.key).getD []
        element "NextMarker" (encMaybe params next)
      else []) ++ renderOptions params

def renderOpening (bucket : Text) (params : ListParams) : Text :=
  "<?xml version=\"1.0\" encoding=\"UTF-8\"?>\n".toList ++
    "<ListBucketResult xmlns=\"http://s3.amazonaws.com/doc/2006-03-01/\">".toList ++
    element "Name" (xmlEscape bucket) ++ element "Prefix" (encMaybe params params.keyPrefix)

def renderTruncated (truncated : Bool) : Text :=
  element "IsTruncated" (if truncated then "true".toList else "false".toList)

def renderClosing : Text := "</ListBucketResult>".toList

def renderXml (wire : Wire) (bucket : Text) (params : ListParams) (items : PageItems) (truncated : Bool)
    (token : Option Text) : Text :=
  renderOpening bucket params ++ renderFields params items truncated token ++ renderTruncated truncated ++
    items.contents.flatMap (renderContent wire params) ++
    items.commonPrefixes.flatMap (renderPrefix params) ++ renderClosing

def idHeaders (ids : RequestIds) : List (Text × Text) :=
  [("x-amz-request-id".toList, ids.reqId), ("x-amz-id-2".toList, ids.hostId)]

def xmlType : Text × Text := ("content-type".toList, "application/xml".toList)

def renderPage (wire : Wire) (bucket : Text) (params : ListParams) (page : PageItems) (resume : Resume)
    (ids : RequestIds) : Response :=
  let (items, truncated) := if params.cap = 0 then (⟨[], []⟩, false) else cut params.cap (resumed page resume)
  let token := if truncated then some (nextToken wire items) else none
  ⟨200, xmlType :: ("cache-control".toList, "private, max-age=5".toList) :: idHeaders ids,
    utf8 (renderXml wire bucket params items truncated token)⟩

/-! Errors. -/

def s3ErrorXml (code message : String) (resource : Text) (ids : RequestIds) (extra : List (String × Text)) : Text :=
  "<?xml version=\"1.0\" encoding=\"UTF-8\"?>".toList ++
    element "Error" (element "Code" code.toList ++ element "Message" message.toList ++
      extra.flatMap (fun pair => element pair.1 pair.2) ++ element "Resource" resource ++
      element "RequestId" ids.reqId ++ element "HostId" ids.hostId)

inductive ListErrorCode
  | noSuchBucket | accessDenied | internalError | invalidArgument
deriving DecidableEq, Repr

def ListErrorCode.text : ListErrorCode → String
  | .noSuchBucket => "NoSuchBucket"
  | .accessDenied => "AccessDenied"
  | .internalError => "InternalError"
  | .invalidArgument => "InvalidArgument"

def ListErrorCode.status : ListErrorCode → Nat
  | .noSuchBucket => 404
  | .accessDenied => 403
  | .internalError => 500
  | .invalidArgument => 400

def listError (code : ListErrorCode) (message : String) (pathKey : Text) (ids : RequestIds)
    (extra : List (String × Text)) : Response :=
  let resource := '/' :: trimSlashes pathKey ++ ['/']
  ⟨code.status, xmlType :: idHeaders ids, utf8 (s3ErrorXml code.text message resource ids extra)⟩

def ListParamError.message : ListParamError → String
  | .encodingType => "Invalid Encoding Method specified in Request"
  | .maxKeysNotInteger => "Provided max-keys not an integer or within integer range"
  | .maxKeysNegative => "Argument maxKeys must be an integer between 0 and 2147483647"
  | .continuationToken => "The continuation token provided is incorrect"

def ListParamError.argument : ListParamError → String
  | .encodingType => "encoding-type"
  | .maxKeysNotInteger => "max-keys"
  | .maxKeysNegative => "max-keys"
  | .continuationToken => "continuation-token"

def invalidArgument (e : ListParamError) (pathKey : Text) (ids : RequestIds) : Response :=
  listError .invalidArgument e.message pathKey ids [("ArgumentName", e.argument.toList)]

def noSuchBucket (pathKey : Text) (ids : RequestIds) : Response :=
  let bucket := xmlEscape (((trimSlashes pathKey).splitOn '/').headD [])
  listError .noSuchBucket "The specified bucket does not exist" pathKey ids [("BucketName", bucket)]

/-! The endpoint. -/

/-- One upstream walk is reused for paging. -/
abbrev ListingCache := Table (Text × Text × Bool) (Nat × List ListEntry)

def listingSnapshotTtlMs : Nat := 5000

def ListingCache.get (rows : ListingCache) (upstream folder : Text) (recursive : Bool) (nowMillis : Nat) :
    Option (List ListEntry) :=
  (rows.lookup (upstream, folder, recursive)).bind fun row =>
    if nowMillis - row.1 < listingSnapshotTtlMs then some row.2 else none

/-- Expired rows are dropped first. -/
def ListingCache.put (rows : ListingCache) (upstream folder : Text) (recursive : Bool) (entries : List ListEntry)
    (nowMillis : Nat) : ListingCache :=
  (retain rows fun _ row => nowMillis - row.1 < listingSnapshotTtlMs).insert (upstream, folder, recursive)
    (nowMillis, entries)

/-- Where a request goes. -/
inductive Dispatch
  | object | refused (response : Response) | listing (bucket : Text) (params : ListParams)

/-- The part of `try_list` before any upstream is asked. -/
def dispatch (wire : Wire) (routes : RouteTable) (upstreams backends : List Text) (pathKey query : Text)
    (ids : RequestIds) : Dispatch :=
  match ListParams.parse wire query with
  | .error e => .refused (invalidArgument e pathKey ids)
  | .ok params =>
      if params.isList = false then .object
      else
        match resolveListBucket pathKey routes upstreams with
        | none => .refused (noSuchBucket pathKey ids)
        | some bucket =>
            if bucket ∈ backends then .listing bucket params else .refused (noSuchBucket pathKey ids)

/-- The entries a listing is made from: a live snapshot, or what the upstream says. -/
def entriesOf (snapshot : Option (List ListEntry)) (walked : Except BackendError (List ListEntry)) :
    Except BackendError (List ListEntry) :=
  match snapshot with
  | some entries => .ok entries
  | none =>
      match walked with
      | .error .notFound => .ok []
      | other => other

/-- The rest of `try_list`. -/
def listPage (wire : Wire) (bucket : Text) (params : ListParams) (pathKey : Text) (ids : RequestIds)
    (entries : Except BackendError (List ListEntry)) : Response :=
  match entries with
  | .error .authRequired => listError .accessDenied "Access Denied" pathKey ids []
  | .error _ =>
      listError .internalError "We encountered an internal error. Please try again." pathKey ids []
  | .ok entries =>
      let page := selectItems entries params
      match resumeFrom wire params with
      | some (.error _) => invalidArgument .continuationToken pathKey ids
      | some (.ok resume) => renderPage wire bucket params page resume ids
      | none => renderPage wire bucket params page .start ids

end OriginCache.Request.Listing
