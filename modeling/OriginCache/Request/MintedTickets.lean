import OriginCache.Request.TicketWorker
import OriginCache.Request.Tickets

/-! What the content gate says to the URLs that the ticket worker mints. -/

namespace OriginCache.Request.MintedTickets
open Foundation.Splits Foundation.Percent Foundation.Tables Dates SessionBudgets ContentAuth
open Canonical hiding uriEncode canonicalQuery
open Sigv4 hiding stringToSign canonicalRequest trim sha256Hex
open TicketWorker Tickets
open Cache.SegName (Text parseU64)

/-! The gate from its answer back to its checks. -/

section Gate
variable (hashes : Hashes) (decoder : Decoder) (formParse : Text → List (Text × Text))

theorem settle_iff (cache : KeyCache) (material : Except Reason Material) (verified : VerifiedRequest) :
    (settle hashes cache material).1 = .ok verified ↔
      ∃ m, material = .ok m ∧ verified = ⟨m.credential.accessKeyId, m.expiresSecs⟩ ∧
        (verifySignature hashes m.canonicalDecoded m.canonicalRaw m.amzDateIso m.credential m.secret
          m.signature cache).1 = true := by
  constructor
  · exact settle_ok hashes cache material verified
  · rintro ⟨m, rfl, rfl, matched⟩
    simp only [settle, matched, if_true]

theorem verifyOptional_iff (store : CredentialStore) (input : VerifyInput) (now : Int) (cache : KeyCache)
    (verified : VerifiedRequest) (signed : (input.queryPairs.any fun pair => pair.1 = paramSignature) = true) :
    (verifyOptional hashes (some store) input now cache).1 = .verified verified ↔
      (verifyPresigned hashes store input now cache).1 = .ok verified := by
  have answer : (verifyOptional hashes (some store) input now cache).1 =
      outcome (verifyPresigned hashes store input now cache).1 := by
    rw [verifyOptional, if_pos signed]
  rw [answer]
  cases (verifyPresigned hashes store input now cache).1 with
  | error reason => simp [outcome]
  | ok request => simp [outcome]

theorem admits_iff (gate : ContentGate) (request : ContentRequest) (now : Int) (state : GateState)
    (credential session : Text) :
    (admits hashes decoder formParse gate request now state).1 = .allow credential session ↔
      (utf8 request.query).length ≤ maxQueryBytes ∧ (formParse request.query).length ≤ maxQueryPairs ∧
        ∃ verified entry, (verifyOptional hashes (some gate.store)
            (frontInput decoder request (formParse request.query)) now state.keys).1 = .verified verified ∧
          authorize decoder gate request (queryGet (formParse request.query) paramSession) verified = .ok (session, entry) ∧
          (charge gate entry verified.accessKeyId session now state.tables).1 = .ok () ∧
          credential = verified.accessKeyId := by
  unfold admits
  by_cases long : maxQueryBytes < (utf8 request.query).length
  · rw [if_pos long]
    exact ⟨fun refused => (by cases refused), fun facts => absurd facts.1 (Nat.not_le.mpr long)⟩
  rw [if_neg long]
  by_cases many : maxQueryPairs < (formParse request.query).length
  · have more : maxQueryPairs < ((formParse request.query).take (maxQueryPairs + 1)).length := by
      rw [List.length_take]
      omega
    simp only [if_pos more]
    exact ⟨fun refused => (by cases refused), fun facts => absurd facts.2.1 (Nat.not_le.mpr many)⟩
  have whole : (formParse request.query).take (maxQueryPairs + 1) = formParse request.query :=
    List.take_of_length_le (by omega)
  simp only [whole, if_neg many, Nat.le_of_not_lt long, Nat.le_of_not_lt many, true_and]
  cases verdict : (verifyOptional hashes (some gate.store)
      (frontInput decoder request (formParse request.query)) now state.keys).1 with
  | anonymous => simp [deny]
  | failed reason => simp [deny]
  | verified verified =>
    simp only [VerifyOutcome.verified.injEq]
    cases settled : authorize decoder gate request (queryGet (formParse request.query) paramSession) verified with
    | error reason => simp [deny, settled]
    | ok found =>
      cases charged : (charge gate found.2 verified.accessKeyId found.1 now state.tables).1 with
      | error reason =>
        simp only [charged, deny]
        constructor
        · intro refused
          cases refused
        · rintro ⟨_, entry, rfl, same, allowed, -⟩
          rw [settled] at same
          cases same
          rw [charged] at allowed
          cases allowed
      | ok _ =>
        simp only [charged]
        constructor
        · intro allowed
          cases allowed
          exact ⟨verified, found.2, rfl, settled, charged, rfl⟩
        · rintro ⟨_, entry, rfl, same, -, rfl⟩
          rw [settled] at same
          cases same
          rfl

end Gate

/-! The request that a ticket makes. -/

theorem frontInput_pairs (decoder : Decoder) (request : ContentRequest) (pairs : List (Text × Text)) :
    (frontInput decoder request pairs).queryPairs = pairs := rfl

theorem hex_checksum (bytes : List UInt8) :
    (utf8 (hex bytes)).length = 2 * bytes.length ∧
      ((utf8 (hex bytes)).all fun b => (0x30 ≤ b ∧ b ≤ 0x39) ∨ (0x61 ≤ b ∧ b ≤ 0x66)) = true := by
  have each : ((List.range 256).all fun n => (utf8 (padStart 2 (hexDigits (UInt8.ofNat n)))).length = 2 ∧
      (utf8 (padStart 2 (hexDigits (UInt8.ofNat n)))).all fun b =>
        (0x30 ≤ b ∧ b ≤ 0x39) ∨ (0x61 ≤ b ∧ b ≤ 0x66)) = true := by decide +kernel
  induction bytes with
  | nil => exact ⟨rfl, rfl⟩
  | cons b bytes ih =>
    have one := of_decide_eq_true (List.all_eq_true.mp each b.toNat (List.mem_range.mpr b.toNat_lt))
    rw [UInt8.ofNat_toNat] at one
    have split : hex (b :: bytes) = padStart 2 (hexDigits b) ++ hex bytes := List.flatMap_cons
    rw [split, utf8_append, List.length_append, List.all_append, one.1, one.2, ih.1, ih.2]
    exact ⟨by rw [List.length_cons]; omega, rfl⟩

theorem fullKey_plain (text : Text) : '?' ∉ uriEncode text true := by
  have mark : ∀ b, literal false b = true → latin b ≠ '?' := by
    have each : ((List.range 256).all fun n =>
        !literal false (UInt8.ofNat n) || latin (UInt8.ofNat n) != '?') = true := by decide +kernel
    intro b kept
    have this := List.all_eq_true.mp each b.toNat (List.mem_range.mpr b.toNat_lt)
    rw [UInt8.ofNat_toNat, kept] at this
    simpa using this
  rw [uriEncode_eq]
  exact not_mem_encode _ text '?' (by decide) (by decide) mark

section Ticket
variable (hashes : Hashes) (host key session expires accessKeyId secret : Text) (nowMs : Nat)

def pairsOf : List (Text × Text) := ticketPairs accessKeyId session expires (amzDateText nowMs)

/-- What a ticket signs. -/
def textOf : Text :=
  stringToSign hashes (canonicalRequest host key (pairsOf session expires accessKeyId nowMs)) (amzDateText nowMs)

def signatureOf : Text :=
  hex (hashes.hmacSha256 (signingKey hashes secret ((amzDateText nowMs).take 8))
    (utf8 (textOf hashes host key session expires accessKeyId nowMs)))

def signedPairsOf : List (Text × Text) :=
  pairsOf session expires accessKeyId nowMs ++
    [(paramSignature, signatureOf hashes host key session expires accessKeyId secret nowMs)]

section Reading
variable (request : ContentRequest)
  (target : request.pathAndQuery = signedTarget hashes host key session expires accessKeyId secret nowMs)
include target

theorem request_splits : splitQuery request.pathAndQuery =
    (uriEncode (fullKey key) true, canonicalQuery (pairsOf session expires accessKeyId nowMs) ++
      '&' :: (paramSignature ++ '=' :: signatureOf hashes host key session expires accessKeyId secret nowMs)) := by
  rw [target, signedTarget, splitQuery, splitOnce_append '?' _ _ (fullKey_plain (fullKey key))]
  rfl

theorem request_path : request.rawPath = uriEncode (fullKey key) true ∧
    request.decodedPath lossy = fullKey key := by
  have raw : request.rawPath = uriEncode (fullKey key) true := by
    rw [ContentRequest.rawPath, request_splits hashes host key session expires accessKeyId secret nowMs request target]
  refine ⟨raw, ?_⟩
  rw [ContentRequest.decodedPath, raw, uriEncode_eq]
  exact lossy.decode_encode _ (literal_plain _) _

theorem request_pairs : formDecode request.query =
    signedPairsOf hashes host key session expires accessKeyId secret nowMs := by
  rw [ContentRequest.query, request_splits hashes host key session expires accessKeyId secret nowMs request target]
  exact formDecode_query _ _ _ _ _ fun c member => unreserved_hex _ c member

end Reading

theorem queryGet_signed :
    queryGet (signedPairsOf hashes host key session expires accessKeyId secret nowMs) paramAlgorithm = some algorithmName ∧
    queryGet (signedPairsOf hashes host key session expires accessKeyId secret nowMs) paramCredential =
      some (accessKeyId ++ '/' :: scopeText ((amzDateText nowMs).take 8)) ∧
    queryGet (signedPairsOf hashes host key session expires accessKeyId secret nowMs) paramDate =
      some (amzDateText nowMs) ∧
    queryGet (signedPairsOf hashes host key session expires accessKeyId secret nowMs) paramExpires = some expires ∧
    queryGet (signedPairsOf hashes host key session expires accessKeyId secret nowMs) paramSignedHeaders = some headerHost ∧
    queryGet (signedPairsOf hashes host key session expires accessKeyId secret nowMs) paramSession = some session ∧
    queryGet (signedPairsOf hashes host key session expires accessKeyId secret nowMs) paramSignature =
      some (signatureOf hashes host key session expires accessKeyId secret nowMs) := by
  have names : (ticketNames ++ [paramSignature]).Nodup := by decide
  have unique : Unique (signedPairsOf hashes host key session expires accessKeyId secret nowMs) := names
  have found : ∀ name value, (name, value) ∈ signedPairsOf hashes host key session expires accessKeyId secret nowMs →
      queryGet (signedPairsOf hashes host key session expires accessKeyId secret nowMs) name = some value :=
    fun name value => (queryGet_mem _ unique name value).mpr
  unfold signedPairsOf pairsOf ticketPairs at found ⊢
  refine ⟨found _ _ ?_, found _ _ ?_, found _ _ ?_, found _ _ ?_, found _ _ ?_, found _ _ ?_, found _ _ ?_⟩ <;>
    simp only [List.mem_append, List.mem_cons, true_or, or_true]

/-! The material of a ticket. -/

theorem host_line_plain (plain : ∀ c ∈ host, isWhitespace c = false) :
    canonicalHeaders [headerHost] (headerLookup [(headerHost, host)]) = some (headerHost ++ ':' :: (host ++ ['\n'])) := by
  have words : normalized host = host := by
    rw [normalized, normalizeHeaderValue, splitWhitespace, List.splitOnP_eq_singleton plain, List.nil_append]
    by_cases empty : host = []
    · rw [empty]
      rfl
    · have kept : [host].filter (· ≠ []) = [host] := List.filter_eq_self.mpr (by simpa using empty)
      rw [kept]
      exact List.intercalate_singleton
  have single : canonicalHeaders [headerHost] (headerLookup [(headerHost, host)]) =
      some (renderHeaders (List.replicate 1 (headerHost, host))) := by
    simp [canonicalHeaders, signedPairs, headerLookup]
  rw [single, renderHeaders_host, hostLine, words]
  simp

/-- The worker's canonical request is the verifier's. -/
theorem canonicalRequest_agrees (pairs : List (Text × Text)) :
    canonicalRequest host key pairs =
      Sigv4.canonicalRequest methodGet (uriEncode (fullKey key) true) (canonicalQuery pairs)
        (headerHost ++ ':' :: (host ++ ['\n'])) (signedHeadersList [headerHost]) unsignedPayload := by
  have list : signedHeadersList [headerHost] = headerHost := by decide
  rw [list]
  simp [canonicalRequest, Sigv4.canonicalRequest, List.intercalate, List.intersperse]

theorem stringToSign_agrees (canonical amzDate : Text) :
    stringToSign hashes canonical amzDate =
      Sigv4.stringToSign hashes canonical amzDate (amzDate.take 8) region serviceName := by
  simp [stringToSign, Sigv4.stringToSign, scopeText, Sigv4.sha256Hex, hex_eq, List.intercalate, List.intersperse]

theorem signingKey_agrees (secret scopeDate : Text) :
    signingKey hashes secret scopeDate = deriveSigningKeyUncached hashes secret scopeDate region serviceName := rfl

theorem scopeText_split (date : Text) (free : '/' ∉ date) :
    (scopeText date).splitOn '/' = [date, region, serviceName, terminatorName] := by
  have joined : scopeText date = ['/'].intercalate [date, region, serviceName, terminatorName] := by
    simp [scopeText, List.intercalate, List.intersperse]
  rw [joined]
  apply List.splitOn_intercalate
  · intro part member
    simp only [List.mem_cons, List.not_mem_nil, or_false] at member
    rcases member with rfl | rfl | rfl | rfl
    · exact free
    · decide
    · decide
    · decide
  · exact List.cons_ne_nil _ _

theorem credential_split (date : Text) (free : '/' ∉ date) :
    (accessKeyId ++ '/' :: scopeText date).splitOn '/' =
      accessKeyId.splitOn '/' ++ [date, region, serviceName, terminatorName] := by
  rw [List.splitOn_eq_splitOnP, List.splitOnP_append_cons _ _ (by simp), ← List.splitOn_eq_splitOnP,
    ← List.splitOn_eq_splitOnP, scopeText_split date free]

theorem parse_length (input : Text) (credential : CredentialV4) (parsed : CredentialV4.parse input = some credential) :
    (input.splitOn '/').length = 5 := by
  unfold CredentialV4.parse at parsed
  split at parsed
  · next pieces => rw [pieces]; rfl
  · cases parsed

/-- A tenant id with a slash is no credential; any other is the one that was written. -/
theorem parse_credential (date : Text) (free : '/' ∉ date) (credential : CredentialV4) :
    CredentialV4.parse (accessKeyId ++ '/' :: scopeText date) = some credential ↔
      '/' ∉ accessKeyId ∧ accessKeyId ≠ [] ∧ (utf8 date).length = 8 ∧ (utf8 date).all isAsciiDigit = true ∧
        credential = ⟨accessKeyId, date, region, serviceName⟩ := by
  by_cases slash : '/' ∈ accessKeyId
  · have several : ∃ a b rest, accessKeyId.splitOn '/' = a :: b :: rest := by
      cases pieces : accessKeyId.splitOn '/' with
      | nil => exact absurd pieces (List.splitOn_ne_nil _ _)
      | cons a others =>
        cases others with
        | nil =>
          have joined : ['/'].intercalate (accessKeyId.splitOn '/') = accessKeyId := List.intercalate_splitOn '/'
          have piece := splitOnP_free (· == '/') accessKeyId a (by
            rw [← List.splitOn_eq_splitOnP, pieces]
            exact List.mem_singleton_self a)
          rw [pieces, List.intercalate_singleton] at joined
          rw [joined] at piece
          exact absurd (piece '/' slash) (by decide)
        | cons b rest => exact ⟨a, b, rest, rfl⟩
    obtain ⟨a, b, rest, pieces⟩ := several
    constructor
    · intro parsed
      have five := parse_length _ credential parsed
      rw [credential_split accessKeyId date free, pieces] at five
      simp at five
    · intro facts
      exact absurd slash facts.1
  · have single : accessKeyId.splitOn '/' = [accessKeyId] := by
      rw [List.splitOn_eq_splitOnP]
      apply List.splitOnP_eq_singleton
      intro c member
      apply beq_false_of_ne
      rintro rfl
      exact slash member
    unfold CredentialV4.parse
    rw [credential_split accessKeyId date free, single]
    simp only [List.cons_append, List.nil_append, ne_eq, not_true_eq_false, if_false]
    by_cases bad : accessKeyId = [] ∨ (utf8 date).length ≠ 8 ∨ (utf8 date).all isAsciiDigit = false
    · rw [if_pos bad]
      constructor
      · intro parsed
        cases parsed
      · rintro ⟨-, some, long, digits, -⟩
        rcases bad with empty | short | other
        · exact absurd empty some
        · exact absurd long short
        · rw [digits] at other
          cases other
    · rw [if_neg bad]
      have good : accessKeyId ≠ [] ∧ (utf8 date).length = 8 ∧ (utf8 date).all isAsciiDigit = true := by
        simpa [not_or] using bad
      constructor
      · intro parsed
        exact ⟨slash, good.1, good.2.1, good.2.2, (Option.some.inj parsed).symm⟩
      · rintro ⟨-, -, -, -, rfl⟩
        rfl

theorem slash_not_mem_date : '/' ∉ amzDateText nowMs := by
  have digits : ∀ width n, '/' ∉ padded width n := by
    intro width n member
    exact absurd (padded_isDigit width n '/' member) (by decide)
  have year : ∀ y, '/' ∉ isoYear y := by
    intro y member
    exact absurd (isoYear_digits y '/' member) (by decide)
  rw [amzDateText, toIsoString, isoText_parts]
  simp [digits, year]

theorem ofUnix_proper (four : (AmzDate.ofUnix (nowMs / 1000)).year < 10000) :
    (AmzDate.ofUnix (nowMs / 1000)).Proper where
  year := four
  month := (ofUnix_ranges _).1
  day := (ofUnix_ranges _).2
  time := ⟨Nat.mod_lt _ (by decide), Nat.mod_lt _ (by decide), Nat.mod_lt _ (by decide)⟩

theorem scope_date (four : (AmzDate.ofUnix (nowMs / 1000)).year < 10000) :
    (amzDateText nowMs).take 8 = (AmzDate.ofUnix (nowMs / 1000)).fmtDate := by
  have proper := ofUnix_proper nowMs four
  have month := proper.month
  have day := proper.day
  have length : (AmzDate.ofUnix (nowMs / 1000)).fmtDate.length = 8 := by
    rw [AmzDate.fmtDate, List.length_append, List.length_append, padded_length 3 _ four,
      padded_length 1 _ (by omega), padded_length 1 _ (by omega)]
  rw [amzDateText_eq nowMs four, AmzDate.fmtIso8601, List.append_assoc]
  exact List.take_left' length

section Material
variable (store : CredentialStore) (entry : CredentialEntry) (request : ContentRequest)
  (get : request.method = methodGet) (atHost : request.host = some host)
  (target : request.pathAndQuery = signedTarget hashes host key session expires accessKeyId secret nowMs)
  (plain : ∀ c ∈ host, isWhitespace c = false) (known : store.lookup accessKeyId = some entry)
  (sized : ∀ key data, (hashes.hmacSha256 key data).length = 32)
include get atHost target plain known sized

/-- What the verifier compares for a ticket. -/
theorem material_ok (n : Nat) (expiry : parseU64 expires = some n) (small : n ≤ protocolMaxExpiresSecs)
    (tenant : '/' ∉ accessKeyId) (named : accessKeyId ≠ []) (four : (AmzDate.ofUnix (nowMs / 1000)).year < 10000) :
    ∃ raw, presignedMaterial store
        (frontInput lossy request (signedPairsOf hashes host key session expires accessKeyId secret nowMs))
        ((nowMs / 1000 : Nat) : Int) =
      .ok ⟨canonicalRequest host key (pairsOf session expires accessKeyId nowMs), raw, amzDateText nowMs,
        ⟨accessKeyId, (amzDateText nowMs).take 8, region, serviceName⟩, entry.secret,
        signatureOf hashes host key session expires accessKeyId secret nowMs, n⟩ ∧
      ∀ other, raw = some other → other = canonicalRequest host key (pairsOf session expires accessKeyId nowMs) := by
  have proper := ofUnix_proper nowMs four
  have bytes := fmtDate_bytes _ proper
  have date := scope_date nowMs four
  have parsedDate : AmzDate.parse (amzDateText nowMs) = some (AmzDate.ofUnix (nowMs / 1000)) := by
    rw [amzDateText_eq nowMs four]
    exact parse_fmtIso8601 _ proper
  have parsed : CredentialV4.parse (accessKeyId ++ '/' :: scopeText ((amzDateText nowMs).take 8)) =
      some ⟨accessKeyId, (amzDateText nowMs).take 8, region, serviceName⟩ := by
    apply (parse_credential accessKeyId _ (fun member => slash_not_mem_date nowMs (List.mem_of_mem_take member)) _).mpr
    exact ⟨tenant, named, by rw [date]; exact bytes.1, by rw [date]; exact bytes.2, rfl⟩
  obtain ⟨q1, q2, q3, q4, q5, -, q7⟩ := queryGet_signed hashes host key session expires accessKeyId secret nowMs
  have ⟨raw, decoded⟩ := request_path hashes host key session expires accessKeyId secret nowMs request target
  have checksum : isSha256Checksum (signatureOf hashes host key session expires accessKeyId secret nowMs) = true := by
    have sig := hex_checksum (hashes.hmacSha256 (signingKey hashes secret ((amzDateText nowMs).take 8))
      (utf8 (textOf hashes host key session expires accessKeyId nowMs)))
    rw [sized] at sig
    exact decide_eq_true sig
  have headers : (frontInput lossy request
      (signedPairsOf hashes host key session expires accessKeyId secret nowMs)).headers = [(headerHost, host)] := by
    simp [frontInput, verifyInput, atHost]
  have names : signedNames headerHost = [headerHost] := by decide
  have path : (frontInput lossy request
      (signedPairsOf hashes host key session expires accessKeyId secret nowMs)).uriPath = fullKey key := decoded
  have form : (canonicalForms (frontInput lossy request
        (signedPairsOf hashes host key session expires accessKeyId secret nowMs))
      (Canonical.canonicalQuery (signedPairsOf hashes host key session expires accessKeyId secret nowMs) true)
      (headerHost ++ ':' :: (host ++ ['\n'])) (signedHeadersList [headerHost]) unsignedPayload).1 =
        canonicalRequest host key (pairsOf session expires accessKeyId nowMs) := by
    rw [canonicalRequest_agrees, canonicalForms, path, uriEncodeString_eq, uriEncode_eq, signedPairsOf, pairsOf,
      canonicalQuery_agrees]
    change Sigv4.canonicalRequest request.method _ _ _ _ _ = _
    rw [get]
    rfl
  have rawForm : ∀ other, (canonicalForms (frontInput lossy request
        (signedPairsOf hashes host key session expires accessKeyId secret nowMs))
      (Canonical.canonicalQuery (signedPairsOf hashes host key session expires accessKeyId secret nowMs) true)
      (headerHost ++ ':' :: (host ++ ['\n'])) (signedHeadersList [headerHost]) unsignedPayload).2 = some other →
        other = canonicalRequest host key (pairsOf session expires accessKeyId nowMs) := by
    intro other given
    have rawPath : (frontInput lossy request
        (signedPairsOf hashes host key session expires accessKeyId secret nowMs)).rawUriPath =
          uriEncode (fullKey key) true := raw
    rw [canonicalForms, rawPath] at given
    split_ifs at given
    rw [canonicalRequest_agrees, ← Option.some.inj given, signedPairsOf, pairsOf, canonicalQuery_agrees]
    change Sigv4.canonicalRequest request.method _ _ _ _ _ = _
    rw [get]
  have past : ((nowMs / 1000 : Nat) : Int) - (AmzDate.ofUnix (nowMs / 1000)).toUnix = 0 := by
    rw [toUnix_ofUnix, Int.sub_self]
  refine ⟨_, ?_, rawForm⟩
  simp only [presignedMaterial, bind_ok, need_ok, refuseIf_ok]
  refine ⟨_, q1, (), by decide, _, q2, _, parsed, _, q3, _, parsedDate, _, q4, _, expiry, (),
    decide_eq_false (Nat.not_lt.mpr small), _, q5, (), by decide, _, q7, (), by rw [checksum]; rfl, (), ?_, (), ?_, (), ?_,
    _, known, (), decide_eq_false (not_not_intro rfl), (), by decide, headerHost ++ ':' :: (host ++ ['\n']), ?_, ?_⟩
  · rw [date]
    simp
  · rw [past]
    decide
  · rw [past]
    apply decide_eq_false
    omega
  · rw [names, headers]
    exact host_line_plain host plain
  · rw [names, frontInput_pairs, form, ← amzDateText_eq nowMs four]

/-- Material that was accepted came from a ticket the verifier can read. -/
theorem material_inv (named : accessKeyId ≠ []) (m : Material) (small : ∀ n, parseU64 expires = some n → n ≤ protocolMaxExpiresSecs)
    (ok : presignedMaterial store
        (frontInput lossy request (signedPairsOf hashes host key session expires accessKeyId secret nowMs))
        ((nowMs / 1000 : Nat) : Int) = .ok m) :
    '/' ∉ accessKeyId ∧ (AmzDate.ofUnix (nowMs / 1000)).year < 10000 ∧ ∃ n raw, parseU64 expires = some n ∧
      m = ⟨canonicalRequest host key (pairsOf session expires accessKeyId nowMs), raw, amzDateText nowMs,
        ⟨accessKeyId, (amzDateText nowMs).take 8, region, serviceName⟩, entry.secret,
        signatureOf hashes host key session expires accessKeyId secret nowMs, n⟩ ∧
      ∀ other, raw = some other → other = canonicalRequest host key (pairsOf session expires accessKeyId nowMs) := by
  obtain ⟨-, q2, -, q4, -, -, -⟩ := queryGet_signed hashes host key session expires accessKeyId secret nowMs
  obtain ⟨signedHeadersRaw, headers, facts⟩ := presignedMaterial_ok store _ _ m ok
  have credential : CredentialV4.parse (accessKeyId ++ '/' :: scopeText ((amzDateText nowMs).take 8)) =
      some m.credential := by
    have read := facts.credential
    rwa [frontInput_pairs, q2] at read
  have expiry : parseU64 expires = some m.expiresSecs := by
    have read := facts.expires
    rwa [frontInput_pairs, q4] at read
  obtain ⟨tenant, -, -, digits, -⟩ := (parse_credential accessKeyId _
    (fun member => slash_not_mem_date nowMs (List.mem_of_mem_take member)) _).mp credential
  have four : (AmzDate.ofUnix (nowMs / 1000)).year < 10000 := by
    by_contra wide
    obtain ⟨rest, sign⟩ := amzDateText_wide nowMs wide
    rw [sign, List.take_succ_cons] at digits
    have plus : utf8 ('+' :: rest.take 7) = 0x2B :: utf8 (rest.take 7) := utf8_append ['+'] _
    rw [plus, List.all_cons, Bool.and_eq_true] at digits
    exact absurd digits.1 (by decide)
  obtain ⟨raw, exact_, same⟩ := material_ok hashes host key session expires accessKeyId secret nowMs store entry request get
    atHost target plain known sized m.expiresSecs expiry (small _ expiry) tenant named four
  rw [exact_] at ok
  exact ⟨tenant, four, m.expiresSecs, raw, expiry, (Except.ok.inj ok).symm, same⟩

end Material

/-! The length of the query. -/

theorem length_encode_append (first second : Text) :
    (utf8 (encode (literal true) (first ++ second))).length =
      (utf8 (encode (literal true) first)).length + (utf8 (encode (literal true) second)).length := by
  rw [encode, utf8_append, encodeBytes, List.flatMap_append, utf8_append, List.length_append]
  rfl

theorem length_encode_plain (text : Text) (plain : ∀ c ∈ text, unreservedChar c = true) :
    (utf8 (encode (literal true) text)).length = text.length := by
  rw [encode_eq, uriEncode_unreserved text false plain]
  induction text with
  | nil => rfl
  | cons c text ih =>
    have ascii : c.toNat < 128 := by
      by_contra wide
      have small : ∀ d : Char, d.toNat < 128 → c ≠ d := by
        rintro d below rfl
        exact wide below
      have above : ∀ d : Char, d.toNat < 128 → ¬c ≤ d := by
        intro d below order
        have values : c.toNat ≤ d.toNat := order
        omega
      have kept := plain c List.mem_cons_self
      simp [unreservedChar, small, above] at kept
    have one : utf8 (c :: text) = String.utf8EncodeChar c ++ utf8 text := List.flatMap_cons
    rw [one, Cache.SegName.encodeChar_ascii c ascii, List.length_append,
      ih fun d member => plain d (List.mem_cons_of_mem c member), List.length_singleton, List.length_cons, Nat.add_comm]

theorem length_amzDate (four : (AmzDate.ofUnix (nowMs / 1000)).year < 10000) :
    (utf8 (encode (literal true) (amzDateText nowMs))).length = 16 ∧
      (utf8 (encode (literal true) ((amzDateText nowMs).take 8))).length = 8 := by
  have proper := ofUnix_proper nowMs four
  have month := proper.month
  have day := proper.day
  have time := proper.time
  have digits : ∀ width n, ∀ c ∈ padded width n, unreservedChar c = true :=
    fun width n c member => unreserved_digit c (padded_isDigit width n c member)
  have plain : ∀ c ∈ amzDateText nowMs, unreservedChar c = true := by
    intro c member
    rw [amzDateText_eq nowMs four, AmzDate.fmtIso8601, AmzDate.fmtDate] at member
    simp only [List.mem_append, List.mem_cons, List.not_mem_nil, or_false] at member
    rcases member with (((m | m) | m) | rfl | ((m | m) | m)) | rfl
    · exact digits _ _ c m
    · exact digits _ _ c m
    · exact digits _ _ c m
    · decide
    · exact digits _ _ c m
    · exact digits _ _ c m
    · exact digits _ _ c m
    · decide
  have length : (amzDateText nowMs).length = 16 := by
    rw [amzDateText_eq nowMs four, AmzDate.fmtIso8601, AmzDate.fmtDate]
    simp only [List.length_append, List.length_cons, List.length_nil, padded_length 3 _ four,
      padded_length 1 (AmzDate.ofUnix (nowMs / 1000)).month (by omega), padded_length 1 (AmzDate.ofUnix (nowMs / 1000)).day (by omega),
      padded_length 1 (AmzDate.ofUnix (nowMs / 1000)).hour (by omega), padded_length 1 (AmzDate.ofUnix (nowMs / 1000)).minute (by omega),
      padded_length 1 (AmzDate.ofUnix (nowMs / 1000)).second (by omega)]
  constructor
  · rw [length_encode_plain _ plain, length]
  · rw [length_encode_plain _ fun c member => plain c (List.mem_of_mem_take member), List.length_take, length]
    rfl

/-- Only the tenant id, the expiry and the session make one query longer than another. -/
theorem length_query (four : (AmzDate.ofUnix (nowMs / 1000)).year < 10000)
    (sized : ∀ key data, (hashes.hmacSha256 key data).length = 32) :
    (utf8 (canonicalQuery (pairsOf session expires accessKeyId nowMs) ++ '&' :: (paramSignature ++ '=' ::
      signatureOf hashes host key session expires accessKeyId secret nowMs))).length =
        (utf8 (uriEncode accessKeyId false)).length + (utf8 (uriEncode expires false)).length +
          (utf8 (uriEncode session false)).length + 251 := by
  have date := length_amzDate nowMs four
  have signature := (hex_checksum (hashes.hmacSha256 (signingKey hashes secret ((amzDateText nowMs).take 8))
    (utf8 (textOf hashes host key session expires accessKeyId nowMs)))).1
  rw [sized] at signature
  have scope : (utf8 (encode (literal true) (accessKeyId ++ '/' :: scopeText ((amzDateText nowMs).take 8)))).length =
      (utf8 (encode (literal true) accessKeyId)).length + 43 := by
    have rest : (utf8 (encode (literal true) ('/' :: (region ++ '/' :: (serviceName ++ '/' :: terminatorName))))).length = 32 := by
      decide
    have slash : (utf8 (encode (literal true) ['/'])).length = 3 := by decide
    rw [length_encode_append, ← List.singleton_append, length_encode_append, scopeText, length_encode_append, slash, rest,
      date.2]
  have names : (utf8 (encode (literal true) paramAlgorithm)).length = 15 ∧
      (utf8 (encode (literal true) paramCredential)).length = 16 ∧ (utf8 (encode (literal true) paramDate)).length = 10 ∧
      (utf8 (encode (literal true) paramExpires)).length = 13 ∧
      (utf8 (encode (literal true) paramSignedHeaders)).length = 19 ∧
      (utf8 (encode (literal true) paramSession)).length = 7 ∧ (utf8 (encode (literal true) algorithmName)).length = 16 ∧
      (utf8 (encode (literal true) headerHost)).length = 4 ∧ (utf8 paramSignature).length = 15 := by decide
  have mark : ∀ (c : Char) (rest : Text), c.toNat < 128 → (utf8 (c :: rest)).length = (utf8 rest).length + 1 := by
    intro c rest ascii
    have one : utf8 (c :: rest) = String.utf8EncodeChar c ++ utf8 rest := List.flatMap_cons
    rw [one, Cache.SegName.encodeChar_ascii c ascii, List.length_append, List.length_singleton, Nat.add_comm]
  obtain ⟨n1, n2, n3, n4, n5, n6, n7, n8, n9⟩ := names
  rw [pairsOf, canonicalQuery_eq, ← encode_eq, ← encode_eq, ← encode_eq]
  simp only [formEncode, ticketPairs, List.map_cons, List.map_nil, List.intercalate_cons_cons, List.intercalate_singleton,
    utf8_append, List.length_append, mark '&' _ (by decide), mark '=' _ (by decide), n1, n2, n3, n4, n5, n6, n7, n8, n9,
    date.1, scope]
  rw [signatureOf, signature]
  have none : (utf8 []).length = 0 := rfl
  omega

end Ticket

/-! The comparison and the charge. -/

/-- The memo's name for the key that signs a ticket. -/
def memoKey (secret scopeDate : Text) : Text :=
  secret ++ '\x01' :: (scopeDate ++ '\x01' :: (region ++ '\x01' :: serviceName))

theorem deriveSigningKey_eq (hashes : Hashes) (keys : KeyCache) (secret scopeDate : Text) :
    (deriveSigningKey hashes keys secret scopeDate region serviceName).1 =
      (keys.lookup (memoKey secret scopeDate)).getD (signingKey hashes secret scopeDate) := by
  unfold deriveSigningKey memoKey
  simp only
  cases keys.lookup (secret ++ '\x01' :: (scopeDate ++ '\x01' :: (region ++ '\x01' :: serviceName))) with
  | none => rfl
  | some known => rfl

/-- One text is compared where both forms of it are the same. -/
theorem verifySignature_iff (hashes : Hashes) (canonical : Text) (raw : Option Text) (amzDate secret expected : Text)
    (credential : CredentialV4) (keys : KeyCache) (same : ∀ other, raw = some other → other = canonical) :
    (verifySignature hashes canonical raw amzDate credential secret expected keys).1 = true ↔
      hexEncode (hashes.hmacSha256 (deriveSigningKey hashes keys secret credential.date credential.awsRegion
        credential.awsService).1 (utf8 (Sigv4.stringToSign hashes canonical amzDate credential.date credential.awsRegion
          credential.awsService))) = expected := by
  have single : verifySignature hashes canonical raw amzDate credential secret expected keys =
      tryCandidates hashes amzDate credential secret expected [canonical] keys := by
    cases given : raw with
    | none => rfl
    | some other =>
      rw [verifySignature]
      simp only [same other given, ne_eq, not_true_eq_false, if_false]
  rw [single, tryCandidates, calculateSignature]
  simp only
  generalize deriveSigningKey hashes keys secret credential.date credential.awsRegion credential.awsService = derived
  by_cases matched : constantTimeEq (utf8 (hexEncode (hashes.hmacSha256 derived.1 (utf8 (Sigv4.stringToSign hashes canonical
      amzDate credential.date credential.awsRegion credential.awsService))))) (utf8 expected) = true
  · rw [if_pos matched]
    exact ⟨fun _ => utf8_injective ((constantTimeEq_iff _ _).mp matched), fun _ => rfl⟩
  · rw [if_neg matched, tryCandidates]
    constructor
    · intro found
      exact absurd found Bool.false_ne_true
    · intro equal
      exact absurd ((constantTimeEq_iff _ _).mpr (congrArg utf8 equal)) matched

theorem lookup_makeRoom (table : SessionTables) (now : Int) (key : Text) (row : SessionBudget)
    (found : (makeRoom table now).lookup key = some row) : table.lookup key = some row := by
  have kept : ∀ test, (SessionBudgets.retain table test).lookup key = some row → table.lookup key = some row := by
    intro test present
    have member := AList.mem_lookup_iff.mp present
    exact AList.mem_lookup_iff.mpr (List.mem_of_mem_filter member)
  have erased : ∀ (order : List (Int × Text)) (start : SessionTables),
      (order.foldl (fun table old => table.erase old.2) start).lookup key = some row → start.lookup key = some row := by
    intro order
    induction order with
    | nil => exact fun _ => id
    | cons old order ih => exact fun start present => (lookup_erase_some start old.2 key row (ih _ present)).2
  unfold makeRoom at found
  split_ifs at found with room
  · exact found
  · simp only at found
    split_ifs at found
    · exact kept _ found
    · exact kept _ (erased _ _ found)

def rpsOf (gate : ContentGate) (entry : CredentialEntry) : Nat :=
  max (entry.sessionRps.getD (gate.defaultRps % 2 ^ 32)) 1

def bytesPerMinOf (gate : ContentGate) (entry : CredentialEntry) : Nat :=
  max ((entry.sessionMibPerMin.map (saturatingMul · (1024 * 1024))).getD gate.defaultBytesPerMin) 1

/-- A session that is counted has a request and a byte left. -/
def Unspent (gate : ContentGate) (entry : CredentialEntry) (credential session : Text) (now : Int)
    (tables : SessionTables) : Prop :=
  ∀ row, tables.lookup (budgetKey credential session) = some row →
    ((row.requests.used now).1 + 1).toNat ≤ rpsOf gate entry ∧ (row.bytes.used now).1.toNat < bytesPerMinOf gate entry

theorem charge_ok (gate : ContentGate) (entry : CredentialEntry) (credential session : Text) (now : Int)
    (tables : SessionTables) (unspent : Unspent gate entry credential session now tables) :
    (charge gate entry credential session now tables).1 = .ok () := by
  have fits : ∀ row, ((makeRoom tables now).lookup (budgetKey credential session)).getD (SessionBudget.new now) = row →
      ((row.requests.used now).1 + 1).toNat ≤ rpsOf gate entry ∧
        (row.bytes.used now).1.toNat < bytesPerMinOf gate entry := by
    intro row given
    cases found : (makeRoom tables now).lookup (budgetKey credential session) with
    | some known =>
      rw [found] at given
      exact given ▸ unspent known (lookup_makeRoom tables now _ known found)
    | none =>
      rw [found] at given
      rw [← given]
      exact ⟨Nat.le_max_right _ 1, Nat.lt_of_lt_of_le Nat.zero_lt_one (Nat.le_max_right _ 1)⟩
  have row := fits _ rfl
  unfold charge admitSession
  simp only
  generalize ((makeRoom tables now).lookup (budgetKey credential session)).getD (SessionBudget.new now) = known at row ⊢
  unfold rpsOf bytesPerMinOf at row
  rw [if_neg (Nat.not_lt.mpr row.1), if_neg (Nat.not_le.mpr row.2)]

/-! What the endpoint answers, and what the gate says to it. -/

/-- The key that the embedded source names. -/
def keyOf (runtime : Runtime) (request : TicketRequest) : Option Text :=
  ((present (runtime.srcOf request.body)).bind runtime.parseUrl).bind fun src => decodeUriComponent (src.pathname.drop 1)

theorem present_some (binding : Option Text) (value : Text) (given : present binding = some value) : value ≠ [] := by
  obtain ⟨-, kept⟩ := Option.filter_eq_some_iff.mp given
  exact of_decide_eq_true kept

theorem required_named (env : Env) (bound : Bindings) (required : env.required = some bound) : bound.accessKeyId ≠ [] := by
  simp only [Env.required, Option.bind_eq_bind, Option.bind_eq_some_iff, Option.some.injEq] at required
  obtain ⟨_, -, accessKeyId, given, _, -, _, -, _, -, rfl⟩ := required
  exact present_some _ accessKeyId given

theorem validateSrc_ok (runtime : Runtime) (raw : Option Text) (host keyPrefix key : Text)
    (ok : validateSrc runtime raw host keyPrefix = .ok key) :
    ∃ src, (present raw).bind runtime.parseUrl = some src ∧ src.host = host ∧
      decodeUriComponent (src.pathname.drop 1) = some key ∧ keyPrefix.isPrefixOf key = true := by
  unfold validateSrc at ok
  cases parsed : (present raw).bind runtime.parseUrl with
  | none =>
    rw [parsed] at ok
    cases ok
  | some src =>
    rw [parsed] at ok
    simp only at ok
    split_ifs at ok with form elsewhere
    cases decoded : decodeUriComponent (src.pathname.drop 1) with
    | none =>
      rw [decoded] at ok
      cases ok
    | some found =>
      rw [decoded] at ok
      simp only at ok
      split_ifs at ok with inside
      cases ok
      exact ⟨src, rfl, Classical.not_not.mp elsewhere, decoded, inside⟩

/-- A ticket is the signed URL of the key and of the session. -/
theorem handleTicketRequest_ticket (runtime : Runtime) (env : Env) (request : TicketRequest) (newSession : Text)
    (nowMs : Nat) (seen : Table Text Nat) (url expiresAt : Text) (cookie : Option Text)
    (minted : (handleTicketRequest runtime env request newSession nowMs seen).1 = .ticket url expiresAt cookie) :
    ∃ bound key, env.required = some bound ∧
      validateSrc runtime (runtime.srcOf request.body) bound.host bound.keyPrefix = .ok key ∧
      url = signUrl runtime.hashes bound.host key (env.session request newSession) (env.expires runtime) bound.accessKeyId
        bound.secret nowMs := by
  unfold handleTicketRequest at minted
  split_ifs at minted with post
  cases required : env.required with
  | none =>
    rw [required] at minted
    cases minted
  | some bound =>
    rw [required] at minted
    simp only at minted
    by_cases origin : (!originAllowed request bound.allowed) = true
    · rw [if_pos origin] at minted
      cases minted
    rw [if_neg origin] at minted
    cases valid : validateSrc runtime (runtime.srcOf request.body) bound.host bound.keyPrefix with
    | error status =>
      rw [valid] at minted
      cases minted
    | ok key =>
      rw [valid] at minted
      simp only at minted
      by_cases taken : (!(takeTicket runtime (env.ratePerMin.getD defaultRatePerMin) seen (env.session request newSession)
          nowMs).1) = true
      · rw [if_pos taken] at minted
        cases minted
      rw [if_neg taken] at minted
      cases expiry : runtime.expiresAt nowMs (env.expiresSecs.getD defaultExpires) with
      | none =>
        rw [expiry] at minted
        cases minted
      | some moment =>
        rw [expiry] at minted
        simp only [Answer.ticket.injEq] at minted
        exact ⟨bound, key, rfl, valid, minted.1.symm⟩

/-- A GET of a URL of the deployment, as the front hands it over. -/
structure Fetches (content : ContentRequest) (host url : Text) : Prop where
  method : content.method = methodGet
  atHost : content.host = some host
  target : url = https ++ (host ++ content.pathAndQuery)

/-- A gate with the tenant of the deployment, caps that cover the expiry and budgets left. -/
structure Configured (store : CredentialStore) (caps : Caps) (entry : CredentialEntry) (bound : Bindings)
    (expires session : Text) (now : Int) (tables : SessionTables) : Prop where
  known : store.lookup bound.accessKeyId = some entry
  secret : entry.secret = bound.secret
  keyPrefix : entry.keyPrefix = some bound.keyPrefix
  capped : ∀ n, parseU64 expires = some n → n ≤ (ContentGate.fromCaps store caps).maxExpirySecs
  unspent : Unspent (ContentGate.fromCaps store caps) entry bound.accessKeyId session now tables

/-- What the gate asks of a ticket and the worker does not. -/
structure Presentable (hashes : Hashes) (bound : Bindings) (key session expires : Text) (nowMs : Nat) (keys : KeyCache) :
    Prop where
  marker : validSession session = true
  seconds : (parseU64 expires).isSome
  tenant : '/' ∉ bound.accessKeyId
  inside : key.head? = some '/' → bound.keyPrefix.isPrefixOf key.tail = true
  year : (AmzDate.ofUnix (nowMs / 1000)).year < 10000
  short : (utf8 (uriEncode bound.accessKeyId false)).length + (utf8 (uriEncode expires false)).length +
    (utf8 (uriEncode session false)).length + 251 ≤ maxQueryBytes
  memo : ∀ known, keys.lookup (memoKey bound.secret ((amzDateText nowMs).take 8)) = some known →
    hashes.hmacSha256 known (utf8 (textOf hashes bound.host key session expires bound.accessKeyId nowMs)) =
      hashes.hmacSha256 (signingKey hashes bound.secret ((amzDateText nowMs).take 8))
        (utf8 (textOf hashes bound.host key session expires bound.accessKeyId nowMs))

theorem withinPrefix_fullKey (keyPrefix key : Text) (inside : keyPrefix.isPrefixOf key = true) :
    withinPrefix (some keyPrefix) (fullKey key) = true ↔ (key.head? = some '/' → keyPrefix.isPrefixOf key.tail = true) := by
  by_cases slash : key.head? = some '/'
  · obtain ⟨rest, rfl⟩ := List.head?_eq_some_iff.mp slash
    rw [fullKey, if_pos slash]
    exact ⟨fun within _ => within, fun within => within slash⟩
  · rw [fullKey, if_neg slash]
    exact ⟨fun _ found => absurd found slash, fun _ => inside⟩

section Ticket
variable (hashes : Hashes) (store : CredentialStore) (caps : Caps) (entry : CredentialEntry) (bound : Bindings)
  (key session expires : Text) (nowMs : Nat) (content : ContentRequest) (state : GateState)
  (configured : Configured store caps entry bound expires session ((nowMs / 1000 : Nat) : Int) state.tables)
  (get : content.method = methodGet) (atHost : content.host = some bound.host)
  (target : content.pathAndQuery = signedTarget hashes bound.host key session expires bound.accessKeyId bound.secret nowMs)
  (plain : ∀ c ∈ bound.host, isWhitespace c = false) (named : bound.accessKeyId ≠ [])
  (sized : ∀ key data, (hashes.hmacSha256 key data).length = 32)
include configured get atHost target plain named sized

theorem verified_ticket (verified : VerifiedRequest) :
    (verifyOptional hashes (some store) (frontInput lossy content
        (signedPairsOf hashes bound.host key session expires bound.accessKeyId bound.secret nowMs))
        ((nowMs / 1000 : Nat) : Int) state.keys).1 = .verified verified ↔
      '/' ∉ bound.accessKeyId ∧ (AmzDate.ofUnix (nowMs / 1000)).year < 10000 ∧
        (∃ n, parseU64 expires = some n ∧ verified = ⟨bound.accessKeyId, n⟩) ∧
        (∀ known, state.keys.lookup (memoKey bound.secret ((amzDateText nowMs).take 8)) = some known →
          hashes.hmacSha256 known (utf8 (textOf hashes bound.host key session expires bound.accessKeyId nowMs)) =
            hashes.hmacSha256 (signingKey hashes bound.secret ((amzDateText nowMs).take 8))
              (utf8 (textOf hashes bound.host key session expires bound.accessKeyId nowMs))) := by
  have signed : ((frontInput lossy content (signedPairsOf hashes bound.host key session expires bound.accessKeyId
      bound.secret nowMs)).queryPairs.any fun pair => pair.1 = paramSignature) = true := by
    rw [frontInput_pairs, signedPairsOf, List.any_append, Bool.or_eq_true]
    exact .inr rfl
  have small : ∀ n, parseU64 expires = some n → n ≤ protocolMaxExpiresSecs :=
    fun n parsed => Nat.le_trans (configured.capped n parsed) (Nat.min_le_right _ _)
  -- The comparison under the secret of the entry is one under the secret of the deployment.
  have compared : ∀ raw, (∀ other, raw = some other →
      other = canonicalRequest bound.host key (pairsOf session expires bound.accessKeyId nowMs)) →
      ((verifySignature hashes (canonicalRequest bound.host key (pairsOf session expires bound.accessKeyId nowMs)) raw
        (amzDateText nowMs) ⟨bound.accessKeyId, (amzDateText nowMs).take 8, region, serviceName⟩ entry.secret
        (signatureOf hashes bound.host key session expires bound.accessKeyId bound.secret nowMs) state.keys).1 = true ↔
      ∀ known, state.keys.lookup (memoKey bound.secret ((amzDateText nowMs).take 8)) = some known →
        hashes.hmacSha256 known (utf8 (textOf hashes bound.host key session expires bound.accessKeyId nowMs)) =
          hashes.hmacSha256 (signingKey hashes bound.secret ((amzDateText nowMs).take 8))
            (utf8 (textOf hashes bound.host key session expires bound.accessKeyId nowMs))) := by
    intro raw same
    rw [verifySignature_iff hashes _ raw _ _ _ _ _ same, configured.secret, deriveSigningKey_eq, ← stringToSign_agrees,
      signatureOf, hex_eq]
    cases state.keys.lookup (memoKey bound.secret ((amzDateText nowMs).take 8)) with
    | none => exact ⟨fun _ _ found => (by cases found), fun _ => rfl⟩
    | some known =>
      constructor
      · intro equal other found
        cases found
        exact hexEncode_injective equal
      · intro agrees
        exact congrArg hexEncode (agrees known rfl)
  rw [verifyOptional_iff hashes store _ _ _ _ signed, verifyPresigned, settle_iff]
  constructor
  · rintro ⟨m, read, rfl, matched⟩
    obtain ⟨tenant, four, n, raw, parsed, rfl, same⟩ := material_inv hashes bound.host key session expires bound.accessKeyId
      bound.secret nowMs store entry content get atHost target plain configured.known sized named m small read
    exact ⟨tenant, four, ⟨n, parsed, rfl⟩, (compared raw same).mp matched⟩
  · rintro ⟨tenant, four, ⟨n, parsed, rfl⟩, agrees⟩
    obtain ⟨raw, read, same⟩ := material_ok hashes bound.host key session expires bound.accessKeyId bound.secret nowMs store
      entry content get atHost target plain configured.known sized n parsed (small n parsed) tenant named four
    exact ⟨_, read, rfl, (compared raw same).mpr agrees⟩

omit get atHost plain named sized in
theorem authorize_ticket (inside : bound.keyPrefix.isPrefixOf key = true) (n : Nat)
    (expiry : parseU64 expires = some n) (marker : Text) (found : CredentialEntry) :
    authorize lossy (ContentGate.fromCaps store caps) content (some session) ⟨bound.accessKeyId, n⟩ = .ok (marker, found) ↔
      validSession session = true ∧ (key.head? = some '/' → bound.keyPrefix.isPrefixOf key.tail = true) ∧
        marker = session ∧ found = entry := by
  have path := (request_path hashes bound.host key session expires bound.accessKeyId bound.secret nowMs content target).2
  have capped : decide ((ContentGate.fromCaps store caps).maxExpirySecs < n) = false :=
    decide_eq_false (Nat.not_lt.mpr (configured.capped n expiry))
  have known : (ContentGate.fromCaps store caps).store.lookup bound.accessKeyId = some entry := configured.known
  simp only [authorize, bind_ok, need_ok, refuseIf_ok, Bool.not_eq_false', path, known, Option.some.injEq]
  constructor
  · rintro ⟨_, rfl, _, valid, _, -, _, rfl, _, within, same⟩
    cases same
    rw [configured.keyPrefix] at within
    exact ⟨valid, (withinPrefix_fullKey _ key inside).mp within, rfl, rfl⟩
  · rintro ⟨valid, within, rfl, rfl⟩
    refine ⟨marker, rfl, (), valid, (), capped, found, rfl, (), ?_, rfl⟩
    rw [configured.keyPrefix]
    exact (withinPrefix_fullKey _ key inside).mpr within

/-- The gate admits a signed request exactly when its ticket is presentable. -/
theorem admits_ticket (inside : bound.keyPrefix.isPrefixOf key = true) :
    (∃ credential marker, (admits hashes lossy formDecode (ContentGate.fromCaps store caps) content
      ((nowMs / 1000 : Nat) : Int) state).1 = .allow credential marker) ↔
      Presentable hashes bound key session expires nowMs state.keys := by
  have pairs := request_pairs hashes bound.host key session expires bound.accessKeyId bound.secret nowMs content target
  have query : content.query = canonicalQuery (pairsOf session expires bound.accessKeyId nowMs) ++ '&' :: (paramSignature ++
      '=' :: signatureOf hashes bound.host key session expires bound.accessKeyId bound.secret nowMs) := by
    rw [ContentRequest.query, request_splits hashes bound.host key session expires bound.accessKeyId bound.secret nowMs
      content target]
  have few : (signedPairsOf hashes bound.host key session expires bound.accessKeyId bound.secret nowMs).length ≤
      maxQueryPairs := by
    rw [signedPairsOf, List.length_append]
    exact Nat.le_of_ble_eq_true rfl
  have marked := (queryGet_signed hashes bound.host key session expires bound.accessKeyId bound.secret nowMs).2.2.2.2.2.1
  have length := fun four => length_query hashes bound.host key session expires bound.accessKeyId bound.secret nowMs four sized
  simp only [admits_iff, pairs, few, true_and, marked]
  constructor
  · rintro ⟨_, _, short, verified, found, verdict, settled, -, -⟩
    obtain ⟨tenant, four, ⟨n, expiry, rfl⟩, agrees⟩ := (verified_ticket hashes store caps entry bound key session expires
      nowMs content state configured get atHost target plain named sized verified).mp verdict
    obtain ⟨valid, within, -, -⟩ := (authorize_ticket hashes store caps entry bound key session expires nowMs content state
      configured target inside n expiry _ found).mp settled
    rw [query, length four] at short
    exact ⟨valid, by rw [expiry]; rfl, tenant, within, four, short, agrees⟩
  · intro presentable
    obtain ⟨n, expiry⟩ := Option.isSome_iff_exists.mp presentable.seconds
    refine ⟨bound.accessKeyId, session, ?_, ⟨bound.accessKeyId, n⟩, entry, ?_, ?_, ?_, rfl⟩
    · rw [query, length presentable.year]
      exact presentable.short
    · exact (verified_ticket hashes store caps entry bound key session expires nowMs content state configured get atHost
        target plain named sized _).mpr ⟨presentable.tenant, presentable.year, ⟨n, expiry, rfl⟩, presentable.memo⟩
    · exact (authorize_ticket hashes store caps entry bound key session expires nowMs content state configured target
        inside n expiry _ _).mpr ⟨presentable.marker, presentable.inside, rfl, rfl⟩
    · exact charge_ok _ entry bound.accessKeyId session _ state.tables configured.unspent

end Ticket

/-- What the worker mints is admitted where its session, its expiry, its tenant id and its
key are ones the gate takes. -/
theorem minted_admitted (runtime : Runtime) (env : Env) (bound : Bindings) (request : TicketRequest) (newSession key : Text)
    (nowMs : Nat) (seen : Table Text Nat) (url expiresAt : Text) (cookie : Option Text) (content : ContentRequest)
    (store : CredentialStore) (caps : Caps) (entry : CredentialEntry) (state : GateState)
    (minted : (handleTicketRequest runtime env request newSession nowMs seen).1 = .ticket url expiresAt cookie)
    (required : env.required = some bound) (named : keyOf runtime request = some key)
    (fetches : Fetches content bound.host url)
    (configured : Configured store caps entry bound (env.expires runtime) (env.session request newSession)
      ((nowMs / 1000 : Nat) : Int) state.tables)
    (sized : ∀ key data, (runtime.hashes.hmacSha256 key data).length = 32)
    (hosts : ∀ text src, runtime.parseUrl text = some src → ∀ c ∈ src.host, isWhitespace c = false) :
    (∃ credential session, (admits runtime.hashes lossy formDecode (ContentGate.fromCaps store caps) content
      ((nowMs / 1000 : Nat) : Int) state).1 = .allow credential session) ↔
      Presentable runtime.hashes bound key (env.session request newSession) (env.expires runtime) nowMs state.keys := by
  obtain ⟨bound', key', required', valid, signed⟩ :=
    handleTicketRequest_ticket runtime env request newSession nowMs seen url expiresAt cookie minted
  cases required.symm.trans required'
  obtain ⟨src, parsed, host, decoded, inside⟩ := validateSrc_ok runtime _ _ _ key' valid
  have same : keyOf runtime request = some key' := by
    rw [keyOf, parsed]
    exact decoded
  cases named.symm.trans same
  have plain : ∀ c ∈ bound.host, isWhitespace c = false := by
    obtain ⟨text, -, given⟩ := Option.bind_eq_some_iff.mp parsed
    rw [← host]
    exact hosts text src given
  have target : content.pathAndQuery = signedTarget runtime.hashes bound.host key (env.session request newSession)
      (env.expires runtime) bound.accessKeyId bound.secret nowMs := by
    have whole := fetches.target.symm.trans signed
    exact List.append_cancel_left (List.append_cancel_left whole)
  exact admits_ticket runtime.hashes store caps entry bound key _ _ nowMs content state configured fetches.method
    fetches.atHost target plain (required_named env bound required) sized inside

/-! A deployment with one object, and two of its tickets. -/

def mintMs : Nat := 1790380800000

def mintDateKey : List UInt8 :=
  [0x09, 0x69, 0x7C, 0x4E, 0xF8, 0xFB, 0x90, 0x7E, 0xD3, 0x82, 0x64, 0x33, 0xB1, 0x4F, 0x02, 0x8E,
    0x69, 0x65, 0xD3, 0x39, 0x37, 0xCF, 0x69, 0xE9, 0xB8, 0x44, 0xA6, 0x03, 0x0B, 0xE0, 0xC1, 0xF7]
def mintRegionKey : List UInt8 :=
  [0x2C, 0xA4, 0x53, 0x8B, 0xAA, 0xAA, 0x01, 0x05, 0x24, 0x86, 0xC4, 0x31, 0xDF, 0xA3, 0x62, 0x62,
    0xA4, 0x36, 0x05, 0x0A, 0x63, 0x1A, 0x10, 0xDA, 0x87, 0xD5, 0x42, 0xFA, 0x63, 0x9E, 0xE8, 0xF0]
def mintServiceKey : List UInt8 :=
  [0x66, 0xC9, 0xA0, 0xEB, 0x9F, 0x2F, 0x5F, 0xDE, 0xB7, 0xD0, 0xD9, 0x1F, 0x93, 0x55, 0xFB, 0x90,
    0x26, 0x30, 0x90, 0xB0, 0xE0, 0x8F, 0x79, 0x9C, 0x8E, 0xC3, 0x73, 0xA8, 0x1B, 0xF6, 0xFD, 0xBA]
def mintSigningKey : List UInt8 :=
  [0x67, 0xF8, 0x71, 0x25, 0x24, 0xE1, 0xCC, 0x32, 0xAB, 0xEC, 0x00, 0x53, 0x9E, 0x8F, 0x1B, 0xB4,
    0xD3, 0x73, 0x56, 0x73, 0x13, 0xB1, 0xB5, 0x88, 0xDD, 0x6C, 0x3F, 0xE1, 0xDC, 0x95, 0xF6, 0x82]
def viewerDigest : List UInt8 :=
  [0x78, 0x38, 0x46, 0xDE, 0xEF, 0x2F, 0xE8, 0xBE, 0x42, 0x59, 0x51, 0x26, 0xF6, 0x7B, 0xBE, 0x67,
    0x8F, 0x87, 0xE2, 0x0A, 0xE9, 0xC8, 0xA5, 0x86, 0x24, 0x95, 0x0A, 0x69, 0x51, 0x85, 0xC2, 0xD9]
def viewerMac : List UInt8 :=
  [0xB4, 0x34, 0x3D, 0x8F, 0x81, 0x43, 0x3A, 0xA6, 0x40, 0xA0, 0x6F, 0x90, 0x2C, 0xC5, 0xC1, 0xAF,
    0x44, 0x4C, 0x35, 0xB9, 0x7C, 0x3A, 0x39, 0xD1, 0x8A, 0x91, 0xA2, 0x43, 0x07, 0x26, 0x21, 0xED]
def emptyDigest : List UInt8 :=
  [0x01, 0xF2, 0xE4, 0xB4, 0xBD, 0x97, 0xD2, 0xE9, 0x68, 0xF7, 0x39, 0x81, 0xFE, 0xEF, 0x8D, 0x48,
    0x8B, 0x1E, 0x2A, 0xFC, 0x5B, 0x9B, 0x9F, 0x10, 0xA2, 0x41, 0x48, 0x67, 0x04, 0xD7, 0xE1, 0x3A]
def emptyMac : List UInt8 :=
  [0x23, 0xAA, 0x8E, 0xD2, 0x34, 0xA5, 0x12, 0xF2, 0xF7, 0x40, 0x59, 0xAC, 0x67, 0x43, 0x0E, 0x3D,
    0x18, 0xD4, 0x4E, 0x97, 0x40, 0xF7, 0x47, 0xCC, 0x61, 0xFB, 0x30, 0xC8, 0x8E, 0x3F, 0x31, 0x39]

def mintCanonical (session : Text) : Text :=
  canonicalRequest ['h'] ['m'] (pairsOf session defaultExpires ['k'] mintMs)

def mintText (digest : List UInt8) : Text :=
  ['\n'].intercalate [algorithmName, amzDateText mintMs, scopeText ((amzDateText mintMs).take 8), hex digest]

def mintDigests : List (List UInt8 × List UInt8) :=
  [(utf8 (mintCanonical ['v']), viewerDigest), (utf8 (mintCanonical []), emptyDigest)]

def mintMacs : List ((List UInt8 × List UInt8) × List UInt8) :=
  [((utf8 ['A', 'W', 'S', '4', 's'], utf8 ((amzDateText mintMs).take 8)), mintDateKey),
    ((mintDateKey, utf8 region), mintRegionKey), ((mintRegionKey, utf8 serviceName), mintServiceKey),
    ((mintServiceKey, utf8 terminatorName), mintSigningKey),
    ((mintSigningKey, utf8 (mintText viewerDigest)), viewerMac),
    ((mintSigningKey, utf8 (mintText emptyDigest)), emptyMac)]

def mintHashes : Hashes where
  sha256 := patched mintDigests fun _ => List.replicate 32 0
  hmacSha256 key data := patched mintMacs (fun _ => List.replicate 32 0) (key, data)

theorem patched_length {α : Type} [DecidableEq α] (table : List (α × List UInt8)) (base : α → List UInt8) (size : Nat)
    (rows : ∀ row ∈ table, row.2.length = size) (others : ∀ x, (base x).length = size) (x : α) :
    (patched table base x).length = size := by
  unfold patched
  cases found : table.lookup x with
  | none => exact others x
  | some output =>
    obtain ⟨front, back, whole, -⟩ := List.lookup_eq_some_iff.mp found
    apply rows (x, output)
    rw [whole]
    exact List.mem_append_right front List.mem_cons_self

theorem mintHashes_sized (key data : List UInt8) : (mintHashes.hmacSha256 key data).length = 32 :=
  patched_length mintMacs _ 32 (by decide) (fun _ => List.length_replicate) (key, data)

def mintSource : Text := ['h', 't', 't', 'p', 's', ':', '/', '/', 'h', '/', 'm']

def mintBody : Text := ['\x7b', '"', 's', 'r', 'c', '"', ':', '"'] ++ mintSource ++ ['"', '\x7d']

def mintRuntime : Runtime where
  hashes := mintHashes
  parseUrl text := if text = mintSource then some ⟨httpsProtocol, [], ['h'], ['/', 'm']⟩ else none
  srcOf body := if body = mintBody then some mintSource else none
  numberText := id
  atMost n text := (parseU64 text).any fun limit => n ≤ limit
  expiresAt nowMs text := (parseU64 text).map fun secs => toIsoString (nowMs + secs * 1000)

def mintOrigin : Text := ['h', 't', 't', 'p', 's', ':', '/', '/', 's']

def mintEnv : Env where
  ticketHost := some ['h']
  ticketId := some ['k']
  ticketPrefix := some ['m']
  ticketSecret := some ['s']
  allowedOrigin := some mintOrigin
  sessionCookie := none
  ratePerMin := none
  expiresSecs := none

def mintRequest (session : Text) : TicketRequest where
  method := methodPost
  origin := some mintOrigin
  referer := none
  cookie := some (sessionCookieName ++ '=' :: session)
  body := mintBody

def mintBound : Bindings := ⟨['h'], ['k'], ['m'], ['s'], mintOrigin⟩

def mintTarget (session : Text) : Text := signedTarget mintHashes ['h'] ['m'] session defaultExpires ['k'] ['s'] mintMs

def viewerContent : ContentRequest where
  method := methodGet
  pathAndQuery := mintTarget ['v']
  host := some ['h']
  oneMethod := by decide
  oneLine := by decide +kernel

def emptyContent : ContentRequest where
  method := methodGet
  pathAndQuery := mintTarget []
  host := some ['h']
  oneMethod := by decide
  oneLine := by decide +kernel

def mintEntry : CredentialEntry := ⟨['s'], some ['m'], none, none⟩

def mintStore : CredentialStore := AList.insert ['k'] mintEntry ∅

def mintCaps : Caps := ⟨3600, 10, 100⟩

def mintState : GateState := ⟨∅, ∅⟩

theorem mint_configured (session : Text) : Configured mintStore mintCaps mintEntry mintBound defaultExpires session
    ((mintMs / 1000 : Nat) : Int) mintState.tables where
  known := by decide
  secret := rfl
  keyPrefix := rfl
  capped := by
    intro n parsed
    have hour : parseU64 defaultExpires = some 3600 := by decide
    cases hour.symm.trans parsed
    decide
  unspent := by
    intro row found
    cases found

theorem minted_admitted_viewer : ∃ credential session, (admits mintRuntime.hashes lossy formDecode
    (ContentGate.fromCaps mintStore mintCaps) viewerContent ((mintMs / 1000 : Nat) : Int) mintState).1 =
      .allow credential session := by
  apply (minted_admitted mintRuntime mintEnv mintBound (mintRequest ['v']) ['n'] ['m'] mintMs ∅
    (https ++ (['h'] ++ mintTarget ['v'])) (toIsoString (mintMs + 3600000)) none viewerContent mintStore mintCaps mintEntry
    mintState (by decide +kernel) (by rfl) (by decide +kernel) ⟨rfl, rfl, rfl⟩ ?_ mintHashes_sized ?_).mpr
  · constructor
    · decide
    · decide
    · decide
    · decide
    · decide
    · decide
    · intro known found
      cases found
  · exact mint_configured _
  · intro text src parsed
    change (if text = mintSource then _ else _) = some src at parsed
    split_ifs at parsed
    cases parsed
    intro c member
    rw [List.mem_singleton.mp member]
    decide

/-- An empty cookie is signed as the session, and the gate takes no empty session. -/
theorem minted_empty_session :
    (∃ expiresAt cookie, (handleTicketRequest mintRuntime mintEnv (mintRequest []) ['n'] mintMs ∅).1 =
      .ticket (https ++ (['h'] ++ mintTarget [])) expiresAt cookie) ∧
    mintEnv.required = some mintBound ∧ Fetches emptyContent mintBound.host (https ++ (['h'] ++ mintTarget [])) ∧
    Configured mintStore mintCaps mintEntry mintBound (mintEnv.expires mintRuntime)
      (mintEnv.session (mintRequest []) ['n']) ((mintMs / 1000 : Nat) : Int) mintState.tables ∧
    (admits mintRuntime.hashes lossy formDecode (ContentGate.fromCaps mintStore mintCaps) emptyContent
      ((mintMs / 1000 : Nat) : Int) mintState).1 = deny .malformedSession := by
  refine ⟨⟨toIsoString (mintMs + 3600000), some (cookieLine sessionCookieName []), ?_⟩, rfl, ⟨rfl, rfl, rfl⟩,
    mint_configured _, ?_⟩
  · decide +kernel
  · decide +kernel

end OriginCache.Request.MintedTickets
