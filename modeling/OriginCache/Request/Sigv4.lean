import OriginCache.Foundation.Tables
import OriginCache.Request.Dates
import OriginCache.Request.Canonical

/-! Inbound signature verification. The two hash functions are parameters, and the
memo of derived signing keys is a state that verification reads and extends. -/

namespace OriginCache.Request.Sigv4
open Foundation.Splits Foundation.Percent Foundation.Tables Canonical
open Dates
open Cache.SegName (Text parseU64)

inductive Reason
  | missingSignature | missingCredential | malformedCredential | missingSignedHeaders
  | malformedSignedHeaders | emptySignedHeaders | signedHeaderAbsent | hostNotSigned
  | malformedSignature | unsupportedAuthScheme | malformedAuthorizationHeader
  | unsupportedAlgorithm | missingAlgorithm | unsupportedService | streamingPayload
  | missingExpires | unknownAccessKey | signatureMismatch | expiresCapExceeded
  | requestExpired | requestTimeSkewed | requestDateInFuture | missingRequestDate
  | malformedRequestDate | invalidRequestDate | credentialScopeDateMismatch
  | malformedRequest | expiresTooLong | missingSession | malformedSession
  | outsideKeyPrefix | sessionRateExceeded | sessionBytesExceeded
deriving DecidableEq, Repr

def Reason.asStr : Reason → String
  | .missingSignature => "missing signature"
  | .missingCredential => "missing credential"
  | .malformedCredential => "malformed credential"
  | .missingSignedHeaders => "missing signed headers"
  | .malformedSignedHeaders => "malformed signed headers"
  | .emptySignedHeaders => "empty SignedHeaders"
  | .signedHeaderAbsent => "signed header missing from request"
  | .hostNotSigned => "host header is not signed"
  | .malformedSignature => "malformed signature"
  | .unsupportedAuthScheme => "unsupported auth scheme"
  | .malformedAuthorizationHeader => "malformed authorization header"
  | .unsupportedAlgorithm => "unsupported X-Amz-Algorithm"
  | .missingAlgorithm => "missing X-Amz-Algorithm"
  | .unsupportedService => "unsupported service in credential scope"
  | .streamingPayload => "streaming payloads are not supported"
  | .missingExpires => "missing X-Amz-Expires"
  | .unknownAccessKey => "unknown access key"
  | .signatureMismatch => "signature does not match"
  | .expiresCapExceeded => "X-Amz-Expires exceeds the maximum"
  | .requestExpired => "request has expired"
  | .requestTimeSkewed => "request time too skewed"
  | .requestDateInFuture => "request date is later than server time too much"
  | .missingRequestDate => "missing request date"
  | .malformedRequestDate => "malformed request date"
  | .invalidRequestDate => "invalid request date"
  | .credentialScopeDateMismatch => "credential scope date does not match the request date"
  | .malformedRequest => "malformed request"
  | .expiresTooLong => "expires too long"
  | .missingSession => "missing session"
  | .malformedSession => "malformed session"
  | .outsideKeyPrefix => "outside key prefix"
  | .sessionRateExceeded => "session rate exceeded"
  | .sessionBytesExceeded => "session bytes exceeded"

def Reason.status : Reason → Nat
  | .sessionRateExceeded | .sessionBytesExceeded => 503
  | _ => 403

/-! Steps that may refuse. -/

def need {α : Type} (value : Option α) (reason : Reason) : Except Reason α :=
  match value with
  | some v => .ok v
  | none => .error reason

def refuseIf (condition : Bool) (reason : Reason) : Except Reason Unit :=
  if condition then .error reason else .ok ()

@[simp] theorem need_ok {α : Type} (value : Option α) (reason : Reason) (v : α) :
    need value reason = .ok v ↔ value = some v := by
  cases value <;> simp [need]

@[simp] theorem refuseIf_ok (condition : Bool) (reason : Reason) (u : Unit) :
    refuseIf condition reason = .ok u ↔ condition = false := by
  cases condition <;> simp [refuseIf]

theorem bind_ok {α β : Type} (first : Except Reason α) (next : α → Except Reason β) (b : β) :
    (first >>= next) = .ok b ↔ ∃ a, first = .ok a ∧ next a = .ok b := by
  cases first with
  | error reason => exact ⟨fun ok => (by cases ok), fun ⟨_, ok, _⟩ => (by cases ok)⟩
  | ok a => exact ⟨fun ok => ⟨a, rfl, ok⟩, fun ⟨_, same, ok⟩ => (by cases same; exact ok)⟩

/-! The credential scope. -/

def algorithmName : Text :=
  ['A', 'W', 'S', '4', '-', 'H', 'M', 'A', 'C', '-', 'S', 'H', 'A', '2', '5', '6']
def terminatorName : Text := ['a', 'w', 's', '4', '_', 'r', 'e', 'q', 'u', 'e', 's', 't']
def serviceName : Text := ['s', '3']
def unsignedPayload : Text :=
  ['U', 'N', 'S', 'I', 'G', 'N', 'E', 'D', '-', 'P', 'A', 'Y', 'L', 'O', 'A', 'D']

/-- `<access-key>/<date>/<region>/<service>/aws4_request`. -/
structure CredentialV4 where
  accessKeyId : Text
  date : Text
  awsRegion : Text
  awsService : Text
deriving DecidableEq, Repr

def CredentialV4.parse (input : Text) : Option CredentialV4 :=
  match input.splitOn '/' with
  | [accessKeyId, date, awsRegion, awsService, terminator] =>
      if terminator ≠ terminatorName then none
      else if accessKeyId = [] ∨ (utf8 date).length ≠ 8 ∨ (utf8 date).all isAsciiDigit = false then none
      else some ⟨accessKeyId, date, awsRegion, awsService⟩
  | _ => none

/-- One tenant's secret and the policy that travels with it. -/
structure CredentialEntry where
  secret : Text
  keyPrefix : Option Text
  sessionRps : Option Nat
  sessionMibPerMin : Option Nat
deriving DecidableEq, Repr

abbrev CredentialStore := Table Text CredentialEntry

/-! Signing. -/

structure Hashes where
  sha256 : List UInt8 → List UInt8
  hmacSha256 : List UInt8 → List UInt8 → List UInt8

abbrev KeyCache := Table Text (List UInt8)

def signingKeyCacheCap : Nat := 64

section Signing
variable (hashes : Hashes)

def sha256Hex (data : List UInt8) : Text := hexEncode (hashes.sha256 data)

def deriveSigningKeyUncached (secret date region service : Text) : List UInt8 :=
  let dateKey := hashes.hmacSha256 (utf8 (['A', 'W', 'S', '4'] ++ secret)) (utf8 date)
  let regionKey := hashes.hmacSha256 dateKey (utf8 region)
  let serviceKey := hashes.hmacSha256 regionKey (utf8 service)
  hashes.hmacSha256 serviceKey (utf8 terminatorName)

/-- Memoised by the four inputs in one text. -/
def deriveSigningKey (cache : KeyCache) (secret date region service : Text) : List UInt8 × KeyCache :=
  let key := secret ++ '\x01' :: (date ++ '\x01' :: (region ++ '\x01' :: service))
  match cache.lookup key with
  | some known => (known, cache)
  | none =>
      let derived := deriveSigningKeyUncached hashes secret date region service
      let kept := if signingKeyCacheCap ≤ cache.keys.length then ∅ else cache
      (derived, kept.insert key derived)

def calculateSignature (cache : KeyCache) (text secret date region service : Text) : Text × KeyCache :=
  let (key, cache) := deriveSigningKey hashes cache secret date region service
  (hexEncode (hashes.hmacSha256 key (utf8 text)), cache)

def stringToSign (canonicalRequest amzDateIso scopeDate region service : Text) : Text :=
  algorithmName ++ '\n' :: (amzDateIso ++ '\n' ::
    (scopeDate ++ '/' :: (region ++ '/' :: (service ++ '/' :: terminatorName)) ++ '\n' ::
      sha256Hex hashes (utf8 canonicalRequest)))

/-- The candidates in turn, until one has the expected signature. -/
def tryCandidates (amzDateIso : Text) (credential : CredentialV4) (secret expected : Text) :
    List Text → KeyCache → Bool × KeyCache
  | [], cache => (false, cache)
  | canonical :: rest, cache =>
      let text := stringToSign hashes canonical amzDateIso credential.date credential.awsRegion
        credential.awsService
      let (computed, cache) := calculateSignature hashes cache text secret credential.date
        credential.awsRegion credential.awsService
      if constantTimeEq (utf8 computed) (utf8 expected) then (true, cache)
      else tryCandidates amzDateIso credential secret expected rest cache

def verifySignature (canonicalDecoded : Text) (canonicalRaw : Option Text) (amzDateIso : Text)
    (credential : CredentialV4) (secret expected : Text) (cache : KeyCache) : Bool × KeyCache :=
  let candidates :=
    match canonicalRaw with
    | some raw => if raw ≠ canonicalDecoded then [canonicalDecoded, raw] else [canonicalDecoded]
    | none => [canonicalDecoded]
  tryCandidates hashes amzDateIso credential secret expected candidates cache

end Signing

def pathFormsDiffer (decoded raw : Text) : Bool := decoded ≠ raw

/-! Verification. -/

structure VerifyInput where
  method : Text
  uriPath : Text
  rawUriPath : Text
  queryPairs : List (Text × Text)
  headers : List (Text × Text)
  authorization : Option Text

/-- A header map holds lower-case names; a value that is no text is `none`. -/
abbrev HeaderMap := List (Text × Option Text)

def verifyInput (method uriPath rawUriPath : Text) (queryPairs : List (Text × Text))
    (host : Option Text) (headers : Option HeaderMap) : VerifyInput :=
  match headers with
  | some map =>
      ⟨method, uriPath, rawUriPath, queryPairs,
        map.filterMap fun header => header.2.map (header.1, ·),
        (map.find? fun header => header.1 = headerAuthorization).bind Prod.snd⟩
  | none =>
      ⟨method, uriPath, rawUriPath, queryPairs,
        (host.map fun h => [(headerHost, h)]).getD [], none⟩

structure VerifiedRequest where
  accessKeyId : Text
  expiresSecs : Nat
deriving DecidableEq, Repr

inductive VerifyOutcome
  | anonymous | verified (request : VerifiedRequest) | failed (reason : Reason)
deriving DecidableEq, Repr

/-- What the checks before the signature leave to be compared. -/
structure Material where
  canonicalDecoded : Text
  canonicalRaw : Option Text
  amzDateIso : Text
  credential : CredentialV4
  secret : Text
  signature : Text
  expiresSecs : Nat

def maxSkewSecs : Int := 900
def protocolMaxExpiresSecs : Nat := 604800

def queryGet (pairs : List (Text × Text)) (name : Text) : Option Text :=
  (pairs.find? fun pair => pair.1 = name).map Prod.snd

def signedNames (signedHeadersRaw : Text) : List Text :=
  (signedHeadersRaw.splitOn ';').map fun name => name.map Char.toLower

def canonicalRequest (method path query headers signedList payloadHash : Text) : Text :=
  method ++ '\n' :: (path ++ '\n' :: (query ++ '\n' :: (headers ++ '\n' ::
    (signedList ++ '\n' :: payloadHash))))

/-- The lines of a canonical request are read back, up to the signed headers. -/
theorem canonicalRequest_inj {method₁ path₁ query₁ headers₁ list₁ hash₁ method₂ path₂ query₂ headers₂ list₂
      hash₂ : Text}
    (same : canonicalRequest method₁ path₁ query₁ headers₁ list₁ hash₁ =
      canonicalRequest method₂ path₂ query₂ headers₂ list₂ hash₂)
    (methods : '\n' ∉ method₁ ∧ '\n' ∉ method₂) (paths : '\n' ∉ path₁ ∧ '\n' ∉ path₂)
    (queries : '\n' ∉ query₁ ∧ '\n' ∉ query₂) :
    method₁ = method₂ ∧ path₁ = path₂ ∧ query₁ = query₂ ∧
      headers₁ ++ '\n' :: (list₁ ++ '\n' :: hash₁) = headers₂ ++ '\n' :: (list₂ ++ '\n' :: hash₂) := by
  have first := append_cons_inj '\n' same methods.1 methods.2
  have second := append_cons_inj '\n' first.2 paths.1 paths.2
  have third := append_cons_inj '\n' second.2 queries.1 queries.2
  exact ⟨first.1, second.1, third.1, third.2⟩

/-- The decoded and, where it differs, the raw form of one request. -/
def canonicalForms (input : VerifyInput) (query headers signedList payloadHash : Text) :
    Text × Option Text :=
  (canonicalRequest input.method (uriEncodeString input.uriPath false) query headers signedList payloadHash,
    if pathFormsDiffer input.uriPath input.rawUriPath then
      some (canonicalRequest input.method input.rawUriPath query headers signedList payloadHash)
    else none)

/-- `verify_presigned` up to the comparison. -/
def presignedMaterial (store : CredentialStore) (input : VerifyInput) (now : Int) :
    Except Reason Material := do
  let algorithm ← need (queryGet input.queryPairs paramAlgorithm) .missingAlgorithm
  refuseIf (algorithm ≠ algorithmName) .unsupportedAlgorithm
  let credentialRaw ← need (queryGet input.queryPairs paramCredential) .missingCredential
  let credential ← need (CredentialV4.parse credentialRaw) .malformedCredential
  let dateRaw ← need (queryGet input.queryPairs paramDate) .missingRequestDate
  let amzDate ← need (AmzDate.parse dateRaw) .malformedRequestDate
  let expiresRaw ← need (queryGet input.queryPairs paramExpires) .missingExpires
  let expiresSecs ← need (parseU64 expiresRaw) .missingExpires
  refuseIf (protocolMaxExpiresSecs < expiresSecs) .expiresCapExceeded
  let signedHeadersRaw ← need (queryGet input.queryPairs paramSignedHeaders) .missingSignedHeaders
  refuseIf (!(utf8 signedHeadersRaw).all (· < 0x80)) .malformedSignedHeaders
  let signature ← need (queryGet input.queryPairs paramSignature) .missingSignature
  refuseIf (!isSha256Checksum signature) .malformedSignature
  refuseIf (credential.date ≠ amzDate.fmtDate) .credentialScopeDateMismatch
  let duration := now - amzDate.toUnix
  refuseIf (duration < 0 ∧ maxSkewSecs < duration.natAbs) .requestDateInFuture
  refuseIf ((expiresSecs : Int) < duration) .requestExpired
  let entry ← need (store.lookup credential.accessKeyId) .unknownAccessKey
  refuseIf (credential.awsService ≠ serviceName) .unsupportedService
  let names := signedNames signedHeadersRaw
  refuseIf (headerHost ∉ names) .hostNotSigned
  let headers ← need (canonicalHeaders names (headerLookup input.headers)) .signedHeaderAbsent
  let forms := canonicalForms input (canonicalQuery input.queryPairs true) headers
    (signedHeadersList names) unsignedPayload
  .ok ⟨forms.1, forms.2, amzDate.fmtIso8601, credential, entry.secret, signature, expiresSecs⟩

/-- What accepted material was read from. -/
structure Presigned (input : VerifyInput) (m : Material) (signedHeadersRaw headers : Text) : Prop where
  credential : (queryGet input.queryPairs paramCredential).bind CredentialV4.parse = some m.credential
  expires : (queryGet input.queryPairs paramExpires).bind parseU64 = some m.expiresSecs
  signedHeaders : queryGet input.queryPairs paramSignedHeaders = some signedHeadersRaw
  signature : queryGet input.queryPairs paramSignature = some m.signature
  rendered : canonicalHeaders (signedNames signedHeadersRaw) (headerLookup input.headers) = some headers
  forms : (m.canonicalDecoded, m.canonicalRaw) = canonicalForms input
    (canonicalQuery input.queryPairs true) headers (signedHeadersList (signedNames signedHeadersRaw))
      unsignedPayload

theorem presignedMaterial_ok (store : CredentialStore) (input : VerifyInput) (now : Int) (m : Material)
    (ok : presignedMaterial store input now = .ok m) :
    ∃ signedHeadersRaw headers, Presigned input m signedHeadersRaw headers := by
  simp only [presignedMaterial, bind_ok, need_ok, refuseIf_ok] at ok
  obtain ⟨_, _, _, _, credentialRaw, credential, _, parsed, _, _, _, _, expiresRaw, expires, _, value, _, _,
    signedHeadersRaw, signed, _, _, _, signature, _, _, _, _, _, _, _, _, _, _, _, _, _, _, headers,
    rendered, whole⟩ := ok
  cases whole
  apply Exists.intro signedHeadersRaw
  apply Exists.intro headers
  exact {
    credential := by rw [credential]; exact parsed
    expires := by rw [expires]; exact value
    signedHeaders := signed
    signature := signature
    rendered := rendered
    forms := rfl }

/-! The header form. -/

def streamingMark : Text := ['S', 'T', 'R', 'E', 'A', 'M', 'I', 'N', 'G', '-']
def headerDate : Text := ['x', '-', 'a', 'm', 'z', '-', 'd', 'a', 't', 'e']
def headerPayloadHash : Text :=
  ['x', '-', 'a', 'm', 'z', '-', 'c', 'o', 'n', 't', 'e', 'n', 't', '-', 's', 'h', 'a', '2', '5', '6']
def partCredential : Text := ['C', 'r', 'e', 'd', 'e', 'n', 't', 'i', 'a', 'l']
def partSignedHeaders : Text := ['S', 'i', 'g', 'n', 'e', 'd', 'H', 'e', 'a', 'd', 'e', 'r', 's']
def partSignature : Text := ['S', 'i', 'g', 'n', 'a', 't', 'u', 'r', 'e']

structure HeaderParts where
  credential : Option CredentialV4
  signedHeaders : Option Text
  signature : Option Text

def trim (text : Text) : Text :=
  ((text.dropWhile isWhitespace).reverse.dropWhile isWhitespace).reverse

/-- One `key=value` of the `Authorization` header; unknown keys are passed over. -/
def readPart (parts : HeaderParts) (part : Text) : Except Reason HeaderParts :=
  match splitOnce '=' (trim part) with
  | none => .error .malformedAuthorizationHeader
  | some (k, v) =>
      if k = partCredential then
        (need (CredentialV4.parse v) .malformedCredential).map fun c => { parts with credential := some c }
      else if k = partSignedHeaders then
        .ok { parts with signedHeaders := some (v.map Char.toLower) }
      else if k = partSignature then
        if isSha256Checksum v then .ok { parts with signature := some v } else .error .malformedSignature
      else .ok parts

/-- `verify_header` up to the comparison. -/
def headerMaterial (store : CredentialStore) (input : VerifyInput) (authHeader : Text) (now : Int) :
    Except Reason Material := do
  let rest ← need (stripPrefix algorithmName authHeader) .unsupportedAuthScheme
  let parts ← (rest.splitOn ',').foldlM readPart ⟨none, none, none⟩
  let credential ← need parts.credential .missingCredential
  let signedHeadersRaw ← need parts.signedHeaders .missingSignedHeaders
  let signature ← need parts.signature .missingSignature
  let dateRaw ← need (queryGet input.headers headerDate) .missingRequestDate
  let amzDate ← need (AmzDate.parse dateRaw) .malformedRequestDate
  refuseIf (credential.date ≠ amzDate.fmtDate) .credentialScopeDateMismatch
  refuseIf (maxSkewSecs < (now - amzDate.toUnix).natAbs) .requestTimeSkewed
  let entry ← need (store.lookup credential.accessKeyId) .unknownAccessKey
  refuseIf (credential.awsService ≠ serviceName) .unsupportedService
  let names := signedHeadersRaw.splitOn ';'
  refuseIf (names = []) .emptySignedHeaders
  refuseIf (headerHost ∉ names) .hostNotSigned
  let headers ← need (canonicalHeaders names (headerLookup input.headers)) .signedHeaderAbsent
  let payloadHash := (queryGet input.headers headerPayloadHash).getD unsignedPayload
  refuseIf (streamingMark.isPrefixOf payloadHash) .streamingPayload
  let forms := canonicalForms input (canonicalQuery input.queryPairs false) headers
    (signedHeadersList names) payloadHash
  .ok ⟨forms.1, forms.2, amzDate.fmtIso8601, credential, entry.secret, signature, 0⟩

section Verify
variable (hashes : Hashes)

/-- The comparison both forms end with. -/
def settle (cache : KeyCache) : Except Reason Material → Except Reason VerifiedRequest × KeyCache
  | .error reason => (.error reason, cache)
  | .ok m =>
      let (matched, cache) := verifySignature hashes m.canonicalDecoded m.canonicalRaw m.amzDateIso
        m.credential m.secret m.signature cache
      (if matched then .ok ⟨m.credential.accessKeyId, m.expiresSecs⟩ else .error .signatureMismatch, cache)

def verifyPresigned (store : CredentialStore) (input : VerifyInput) (now : Int) (cache : KeyCache) :
    Except Reason VerifiedRequest × KeyCache :=
  settle hashes cache (presignedMaterial store input now)

def verifyHeader (store : CredentialStore) (input : VerifyInput) (authHeader : Text) (now : Int)
    (cache : KeyCache) : Except Reason VerifiedRequest × KeyCache :=
  settle hashes cache (headerMaterial store input authHeader now)

def outcome : Except Reason VerifiedRequest → VerifyOutcome
  | .ok request => .verified request
  | .error reason => .failed reason

def verifyOptional (store : Option CredentialStore) (input : VerifyInput) (now : Int) (cache : KeyCache) :
    VerifyOutcome × KeyCache :=
  match store with
  | none => (.anonymous, cache)
  | some store =>
      if input.queryPairs.any fun pair => pair.1 = paramSignature then
        let (verdict, cache) := verifyPresigned hashes store input now cache
        (outcome verdict, cache)
      else
        match input.authorization with
        | none => (.anonymous, cache)
        | some auth =>
            if algorithmName.isPrefixOf auth then
              let (verdict, cache) := verifyHeader hashes store input auth now cache
              (outcome verdict, cache)
            else (.anonymous, cache)

/-! What an accepted signature says. -/

/-- The canonical request is hashed on the last line. -/
theorem stringToSign_inj (injective : Function.Injective hashes.sha256)
    {canonical₁ iso₁ date₁ region₁ service₁ canonical₂ iso₂ date₂ region₂ service₂ : Text}
    (same : stringToSign hashes canonical₁ iso₁ date₁ region₁ service₁ =
      stringToSign hashes canonical₂ iso₂ date₂ region₂ service₂) : canonical₁ = canonical₂ := by
  have split : ∀ canonical iso date region service,
      stringToSign hashes canonical iso date region service =
        (algorithmName ++ '\n' :: (iso ++ '\n' ::
          (date ++ '/' :: (region ++ '/' :: (service ++ '/' :: terminatorName))))) ++
        '\n' :: sha256Hex hashes (utf8 canonical) := by
    intro canonical iso date region service
    simp [stringToSign]
  rw [split, split] at same
  have digests := (append_cons_inj_last '\n' same (newline_not_mem_hexEncode _)
    (newline_not_mem_hexEncode _)).2
  exact utf8_injective (injective (hexEncode_injective digests))

/-- Some candidate has the expected signature, under whatever key the memo gave. -/
theorem tryCandidates_true (amzDateIso : Text) (credential : CredentialV4) (secret expected : Text)
    (candidates : List Text) (cache : KeyCache)
    (matched : (tryCandidates hashes amzDateIso credential secret expected candidates cache).1 = true) :
    ∃ canonical ∈ candidates, ∃ key, expected = hexEncode (hashes.hmacSha256 key
      (utf8 (stringToSign hashes canonical amzDateIso credential.date credential.awsRegion
        credential.awsService))) := by
  induction candidates generalizing cache with
  | nil => exact absurd matched Bool.false_ne_true
  | cons canonical rest ih =>
    rw [tryCandidates, calculateSignature] at matched
    simp only at matched
    generalize deriveSigningKey hashes cache secret credential.date credential.awsRegion
      credential.awsService = derived at matched
    split_ifs at matched with same
    · have equal := utf8_injective (constantTimeEq_iff _ _ |>.mp same)
      exact ⟨canonical, List.mem_cons_self, derived.1, equal.symm⟩
    · obtain ⟨other, member, signed⟩ := ih derived.2 matched
      exact ⟨other, List.mem_cons_of_mem canonical member, signed⟩

theorem verifySignature_true (canonicalDecoded : Text) (canonicalRaw : Option Text) (amzDateIso : Text)
    (credential : CredentialV4) (secret expected : Text) (cache : KeyCache)
    (matched : (verifySignature hashes canonicalDecoded canonicalRaw amzDateIso credential secret expected
      cache).1 = true) :
    ∃ canonical, (canonical = canonicalDecoded ∨ canonicalRaw = some canonical) ∧
      ∃ key, expected = hexEncode (hashes.hmacSha256 key (utf8 (stringToSign hashes canonical amzDateIso
        credential.date credential.awsRegion credential.awsService))) := by
  obtain ⟨canonical, member, signed⟩ := tryCandidates_true hashes _ _ _ _ _ _ matched
  refine ⟨canonical, ?_, signed⟩
  cases canonicalRaw with
  | none => exact .inl (List.mem_singleton.mp member)
  | some raw =>
    by_cases differs : raw ≠ canonicalDecoded
    · simp only [if_pos differs, List.mem_cons, List.not_mem_nil, or_false] at member
      exact member.imp_right fun same => congrArg some same.symm
    · simp only [if_neg differs, List.mem_singleton] at member
      exact .inl member

theorem settle_ok (cache : KeyCache) (material : Except Reason Material) (verified : VerifiedRequest)
    (ok : (settle hashes cache material).1 = .ok verified) :
    ∃ m, material = .ok m ∧ verified = ⟨m.credential.accessKeyId, m.expiresSecs⟩ ∧
      (verifySignature hashes m.canonicalDecoded m.canonicalRaw m.amzDateIso m.credential m.secret
        m.signature cache).1 = true := by
  cases material with
  | error reason => cases ok
  | ok m =>
    simp only [settle] at ok
    split_ifs at ok with matched
    exact ⟨m, rfl, (Except.ok.inj ok).symm, matched⟩

end Verify

end OriginCache.Request.Sigv4
