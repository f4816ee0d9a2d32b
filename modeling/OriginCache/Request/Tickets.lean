import OriginCache.Request.ContentAuth

/-! One signature, one request: what two accepted requests with the same signature
have in common. The hash functions are taken to be injective. -/

namespace OriginCache.Request.Tickets
open Foundation.Splits Foundation.Percent Canonical Sigv4 ContentAuth
open Cache.SegName (Text parseU64)

/-- No query name twice. -/
def Unique (pairs : List (Text × Text)) : Prop := (pairs.map Prod.fst).Nodup

instance (pairs : List (Text × Text)) : Decidable (Unique pairs) := inferInstanceAs (Decidable (List.Nodup _))

theorem queryGet_mem (pairs : List (Text × Text)) (unique : Unique pairs) (name value : Text) :
    queryGet pairs name = some value ↔ (name, value) ∈ pairs := by
  induction pairs with
  | nil => simp [queryGet]
  | cons pair pairs ih =>
    obtain ⟨fresh, rest⟩ := List.nodup_cons.mp unique
    have later := ih rest
    simp only [queryGet, List.find?_cons] at later ⊢
    by_cases here : pair.1 = name
    · rw [decide_eq_true here]
      have away : (name, value) ∉ pairs := fun member =>
        fresh (here ▸ List.mem_map_of_mem (f := Prod.fst) member)
      simp only [Option.map_some, Option.some.injEq, List.mem_cons, away, or_false]
      exact ⟨fun same => (by rw [← same, ← here]), fun same => (by rw [← same])⟩
    · rw [decide_eq_false here]
      have other : (name, value) ≠ pair := fun same => here (by rw [← same])
      simp only [List.mem_cons, other, false_or]
      exact later

/-- Where names are unique, the pairs other than the signature fix every other value. -/
theorem queryGet_of_perm (first second : List (Text × Text)) (unique₁ : Unique first)
    (unique₂ : Unique second) (same : (skipped first true).Perm (skipped second true)) (name : Text)
    (other : name ≠ paramSignature) : queryGet first name = queryGet second name := by
  apply Option.ext
  intro value
  have kept : ∀ pairs : List (Text × Text), (name, value) ∈ pairs ↔ (name, value) ∈ skipped pairs true := by
    intro pairs
    simp [skipped, other]
  rw [queryGet_mem first unique₁, queryGet_mem second unique₂, kept first, kept second, same.mem_iff]

section Binding
variable (hashes : Hashes) (decoder : Decoder)

theorem splitQuery_path (pathAndQuery : Text) (c : Char) (free : c ∉ pathAndQuery) :
    c ∉ (splitQuery pathAndQuery).1 := by
  unfold splitQuery
  cases cut : splitOnce '?' pathAndQuery with
  | none => exact free
  | some parts =>
    have whole := splitOnce_some '?' pathAndQuery parts.1 parts.2 cut
    intro member
    exact free (by rw [whole]; exact List.mem_append_left _ member)

/-- Either candidate names the method, a path that decodes to the request's own, the
query and the host line. -/
theorem candidate_reads (request : ContentRequest) (pairs : List (Text × Text)) (m : Material)
    (signedHeadersRaw headers canonical : Text)
    (facts : Presigned (frontInput decoder request pairs) m signedHeadersRaw headers)
    (candidate : canonical = m.canonicalDecoded ∨ m.canonicalRaw = some canonical) :
    ∃ path, decoder.decode path = request.decodedPath decoder ∧ '\n' ∉ path ∧
      canonical = canonicalRequest request.method path (canonicalQuery pairs true) headers
        (signedHeadersList (signedNames signedHeadersRaw)) unsignedPayload := by
  have forms := Prod.mk.inj facts.forms
  rcases candidate with decoded | raw
  · refine ⟨uriEncodeString (request.decodedPath decoder) false, ?_, ?_, decoded.trans forms.1⟩
    · exact decoder.decode_encode _ (literal_plain false) _
    · exact separator_not_mem false _ '\n' (by decide)
  · refine ⟨request.rawPath, rfl, splitQuery_path _ _ request.oneLine, ?_⟩
    rw [forms.2] at raw
    split_ifs at raw
    exact (Option.some.inj raw).symm

/-- The front signs `host` and nothing else. -/
theorem host_line (request : ContentRequest) (pairs : List (Text × Text)) (names : List Text) (headers : Text)
    (signed : names ≠ [])
    (found : canonicalHeaders names (headerLookup (frontInput decoder request pairs).headers) = some headers) :
    ∃ host, request.host = some host ∧ headers = hostLine (names.length - 1) host ++ ['\n'] := by
  cases given : request.host with
  | none =>
    have nobody : (frontInput decoder request pairs).headers = [] := by
      simp [frontInput, verifyInput, given]
    rw [nobody] at found
    cases names with
    | nil => exact absurd rfl signed
    | cons name names =>
      rw [canonicalHeaders, signedPairs, if_pos (by rfl)] at found
      cases found
  | some host =>
    have only : (frontInput decoder request pairs).headers = [(headerHost, host)] := by
      simp [frontInput, verifyInput, given]
    rw [only] at found
    exact ⟨host, rfl, canonicalHeaders_host host names headers signed found⟩

/-- The facts two requests share. -/
structure SameTicket (request₁ request₂ : ContentRequest) (pairs₁ pairs₂ : List (Text × Text)) : Prop where
  method : request₁.method = request₂.method
  path : request₁.decodedPath decoder = request₂.decodedPath decoder
  query : (skipped pairs₁ true).Perm (skipped pairs₂ true)
  host : request₁.host.map normalized = request₂.host.map normalized
  values : ∀ name, name ≠ paramSignature → queryGet pairs₁ name = queryGet pairs₂ name

/-- One signature value signs one canonical request. -/
theorem canonical_of_signature (shaInjective : Function.Injective hashes.sha256)
    (macInjective : Function.Injective2 hashes.hmacSha256)
    {key₁ key₂ : List UInt8} {canonical₁ iso₁ canonical₂ iso₂ : Text} {credential₁ credential₂ : CredentialV4}
    (same : hexEncode (hashes.hmacSha256 key₁ (utf8 (stringToSign hashes canonical₁ iso₁ credential₁.date
        credential₁.awsRegion credential₁.awsService))) =
      hexEncode (hashes.hmacSha256 key₂ (utf8 (stringToSign hashes canonical₂ iso₂ credential₂.date
        credential₂.awsRegion credential₂.awsService)))) : canonical₁ = canonical₂ := by
  have inputs := macInjective (hexEncode_injective same)
  exact stringToSign_inj hashes shaInjective (utf8_injective inputs.2)

/-- With the same names signed, one header text is one host. -/
theorem host_binds (request₁ request₂ : ContentRequest) (pairs₁ pairs₂ : List (Text × Text))
    (signedHeadersRaw headers₁ headers₂ list₁ list₂ : Text)
    (found₁ : canonicalHeaders (signedNames signedHeadersRaw)
      (headerLookup (frontInput decoder request₁ pairs₁).headers) = some headers₁)
    (found₂ : canonicalHeaders (signedNames signedHeadersRaw)
      (headerLookup (frontInput decoder request₂ pairs₂).headers) = some headers₂)
    (same : headers₁ ++ '\n' :: list₁ = headers₂ ++ '\n' :: list₂) :
    request₁.host.map normalized = request₂.host.map normalized := by
  have signed : signedNames signedHeadersRaw ≠ [] := by simp [signedNames, List.splitOn_ne_nil]
  obtain ⟨host₁, given₁, text₁⟩ := host_line decoder request₁ pairs₁ _ _ signed found₁
  obtain ⟨host₂, given₂, text₂⟩ := host_line decoder request₂ pairs₂ _ _ signed found₂
  rw [text₁, text₂, List.append_assoc, List.append_assoc] at same
  have lines := (append_cons_inj '\n' same (newline_not_mem_hostLine _ _) (newline_not_mem_hostLine _ _)).1
  rw [given₁, given₂, Option.map_some, Option.map_some, hostLine_inj _ host₁ host₂ lines]

/-- Two accepted requests with one signature are the same ticket, whichever candidate
each of them was accepted through and whatever the memo of signing keys held. -/
theorem signature_binds (store₁ store₂ : CredentialStore) (request₁ request₂ : ContentRequest)
    (pairs₁ pairs₂ : List (Text × Text)) (now₁ now₂ : Int) (cache₁ cache₂ : KeyCache)
    (verified₁ verified₂ : VerifiedRequest) (shaInjective : Function.Injective hashes.sha256)
    (macInjective : Function.Injective2 hashes.hmacSha256)
    (unique₁ : Unique pairs₁) (unique₂ : Unique pairs₂)
    (accepted₁ : (verifyPresigned hashes store₁ (frontInput decoder request₁ pairs₁) now₁ cache₁).1 =
      .ok verified₁)
    (accepted₂ : (verifyPresigned hashes store₂ (frontInput decoder request₂ pairs₂) now₂ cache₂).1 =
      .ok verified₂)
    (sameSignature : queryGet pairs₁ paramSignature = queryGet pairs₂ paramSignature) :
    SameTicket decoder request₁ request₂ pairs₁ pairs₂ ∧ verified₁ = verified₂ := by
  obtain ⟨m₁, read₁, result₁, matched₁⟩ := settle_ok hashes cache₁ _ verified₁ accepted₁
  obtain ⟨m₂, read₂, result₂, matched₂⟩ := settle_ok hashes cache₂ _ verified₂ accepted₂
  obtain ⟨raw₁, headers₁, facts₁⟩ := presignedMaterial_ok store₁ _ now₁ m₁ read₁
  obtain ⟨raw₂, headers₂, facts₂⟩ := presignedMaterial_ok store₂ _ now₂ m₂ read₂
  obtain ⟨canonical₁, candidate₁, key₁, signed₁⟩ := verifySignature_true hashes _ _ _ _ _ _ _ matched₁
  obtain ⟨canonical₂, candidate₂, key₂, signed₂⟩ := verifySignature_true hashes _ _ _ _ _ _ _ matched₂
  have signatures := Option.some.inj (facts₁.signature.symm.trans (sameSignature.trans facts₂.signature))
  have texts := canonical_of_signature hashes shaInjective macInjective
    (signed₁.symm.trans (signatures.trans signed₂))
  obtain ⟨path₁, decoded₁, line₁, whole₁⟩ :=
    candidate_reads decoder request₁ pairs₁ m₁ raw₁ headers₁ canonical₁ facts₁ candidate₁
  obtain ⟨path₂, decoded₂, line₂, whole₂⟩ :=
    candidate_reads decoder request₂ pairs₂ m₂ raw₂ headers₂ canonical₂ facts₂ candidate₂
  obtain ⟨methods, paths, queries, rest⟩ := canonicalRequest_inj (whole₁.symm.trans (texts.trans whole₂))
    ⟨request₁.oneMethod, request₂.oneMethod⟩ ⟨line₁, line₂⟩
    ⟨newline_not_mem_canonicalQuery pairs₁ true, newline_not_mem_canonicalQuery pairs₂ true⟩
  have shared := canonicalQuery_inj decoder pairs₁ pairs₂ true queries
  have values := queryGet_of_perm pairs₁ pairs₂ unique₁ unique₂ shared
  -- The two lists of signed names are one query value, so the host lines have one shape.
  have names : raw₁ = raw₂ := by
    have given := facts₁.signedHeaders.symm.trans
      ((values paramSignedHeaders (by decide)).trans facts₂.signedHeaders)
    exact Option.some.inj given
  have hosts : request₁.host.map normalized = request₂.host.map normalized := by
    subst names
    exact host_binds decoder request₁ request₂ pairs₁ pairs₂ raw₁ headers₁ headers₂ _ _ facts₁.rendered
      facts₂.rendered rest
  have credentials : m₁.credential = m₂.credential := by
    have parsed := congrArg (fun raw => Option.bind raw CredentialV4.parse)
      (values paramCredential (by decide))
    exact Option.some.inj (facts₁.credential.symm.trans (parsed.trans facts₂.credential))
  have expiries : m₁.expiresSecs = m₂.expiresSecs := by
    have parsed := congrArg (fun raw => Option.bind raw parseU64) (values paramExpires (by decide))
    exact Option.some.inj (facts₁.expires.symm.trans (parsed.trans facts₂.expires))
  constructor
  · exact ⟨methods, by rw [← decoded₁, ← decoded₂, paths], shared, hosts, values⟩
  · rw [result₁, result₂, credentials, expiries]

end Binding

/-! Hash functions with the outputs of SHA-256 and HMAC-SHA-256 where the sample below
asks for them, and longer outputs everywhere else. -/

def patched {α : Type} [DecidableEq α] (table : List (α × List UInt8)) (base : α → List UInt8) (x : α) :
    List UInt8 :=
  (table.lookup x).getD (base x)

/-- Distinct short outputs and an injective long rest make an injective function. -/
theorem patched_injective {α : Type} [DecidableEq α] (table : List (α × List UInt8))
    (base : α → List UInt8) (injective : Function.Injective base)
    (short : ∀ entry ∈ table, entry.2.length ≤ 32) (long : ∀ x, 32 < (base x).length)
    (distinct : (table.map Prod.snd).Nodup) : Function.Injective (patched table base) := by
  have entry : ∀ x v, table.lookup x = some v → (x, v) ∈ table := by
    intro x v found
    obtain ⟨front, back, whole, -⟩ := List.lookup_eq_some_iff.mp found
    rw [whole]
    exact List.mem_append_right front List.mem_cons_self
  have apart : ∀ x y v, table.lookup x = some v → base y ≠ v := by
    intro x y v found same
    have small := short _ (entry x v found)
    have large := long y
    rw [same] at large
    exact absurd large (Nat.not_lt.mpr small)
  intro x y same
  unfold patched at same
  cases foundX : table.lookup x with
  | none =>
    cases foundY : table.lookup y with
    | none =>
      rw [foundX, foundY] at same
      exact injective same
    | some w =>
      rw [foundX, foundY] at same
      exact absurd same (apart y x w foundY)
  | some v =>
    cases foundY : table.lookup y with
    | none =>
      rw [foundX, foundY] at same
      exact absurd same.symm (apart x y v foundX)
    | some w =>
      rw [foundX, foundY] at same
      have values : v = w := same
      subst values
      exact congrArg Prod.fst (List.inj_on_of_nodup_map distinct (entry x v foundX) (entry y v foundY) rfl)

def longDigest (data : List UInt8) : List UInt8 := List.replicate 33 0 ++ data

/-- Both arguments, the first one marked byte by byte. -/
def longMac (input : List UInt8 × List UInt8) : List UInt8 :=
  longDigest (input.1.flatMap (fun b => [1, b]) ++ 0 :: input.2)

theorem longMac_injective : Function.Injective longMac := by
  intro first second same
  have tails := List.append_cancel_left same
  obtain ⟨key₁, data₁⟩ := first
  obtain ⟨key₂, data₂⟩ := second
  induction key₁ generalizing key₂ with
  | nil =>
    cases key₂ with
    | nil => simpa using tails
    | cons b key₂ => simp at tails
  | cons a key₁ ih =>
    cases key₂ with
    | nil => simp at tails
    | cons b key₂ =>
      simp only [List.flatMap_cons, List.cons_append, List.nil_append, List.cons.injEq, true_and] at tails
      have rest := ih key₂ (congrArg longDigest tails.2) tails.2
      rw [Prod.mk.injEq] at rest ⊢
      rw [tails.1, rest.1, rest.2]
      exact ⟨rfl, rfl⟩

def sampleIso : Text := ['2', '0', '2', '6', '0', '9', '2', '6', 'T', '0', '0', '0', '0', '0', '0', 'Z']
def sampleDate : Text := ['2', '0', '2', '6', '0', '9', '2', '6']
def sampleScope : Text := sampleDate ++ ['/', 'r', '/', 's', '3', '/', 'a', 'w', 's', '4', '_', 'r', 'e', 'q', 'u', 'e', 's', 't']
def sampleSignature : Text :=
  ['a', 'b', '8', '5', 'a', 'e', '3', '4', '5', '7', '3', '5', 'f', '1', '9', '7', '0', 'a', '2',
    '0', '2', '5', 'f', '3', 'f', 'd', '0', '2', '5', 'e', 'a', '7', 'b', '6', 'f', '6', '6', 'f',
    'a', 'd', 'e', '2', '4', '3', 'e', '8', 'c', '8', 'a', 'd', 'e', '8', '0', '7', 'f', 'a', 'a',
    'a', '1', '4', '4', '5', 'c', '3']

def samplePairs : List (Text × Text) :=
  [(paramAlgorithm, algorithmName), (paramCredential, 'k' :: '/' :: sampleScope), (paramDate, sampleIso),
    (paramExpires, ['6', '0']), (paramSignedHeaders, headerHost), (paramSession, ['v']),
    (paramSignature, sampleSignature)]

def sampleStore : CredentialStore :=
  AList.insert ['k'] ⟨['s'], none, none, none⟩ ∅

def sampleDigest : List UInt8 :=
  [0x15, 0x85, 0x50, 0xEE, 0x48, 0x6D, 0x85, 0x9B, 0x13, 0xB2, 0xEC, 0x6E, 0x55, 0xF9, 0xBF, 0xBE,
    0x8D, 0x90, 0xFB, 0x06, 0x55, 0x9E, 0x0B, 0x00, 0xA6, 0x36, 0x3A, 0x41, 0x43, 0x8E, 0x14, 0x7B]
def sampleDateKey : List UInt8 :=
  [0x09, 0x69, 0x7C, 0x4E, 0xF8, 0xFB, 0x90, 0x7E, 0xD3, 0x82, 0x64, 0x33, 0xB1, 0x4F, 0x02, 0x8E,
    0x69, 0x65, 0xD3, 0x39, 0x37, 0xCF, 0x69, 0xE9, 0xB8, 0x44, 0xA6, 0x03, 0x0B, 0xE0, 0xC1, 0xF7]
def sampleRegionKey : List UInt8 :=
  [0x52, 0x12, 0xB3, 0xB7, 0xA1, 0xE9, 0x91, 0x50, 0xC2, 0xF4, 0xFB, 0xDA, 0xCC, 0x71, 0x6E, 0x13,
    0x37, 0x9E, 0xFD, 0x34, 0x48, 0xDA, 0xBE, 0x0B, 0x75, 0x74, 0xE8, 0xA0, 0x33, 0x38, 0x74, 0xBB]
def sampleServiceKey : List UInt8 :=
  [0xD6, 0xE9, 0x06, 0x1E, 0x69, 0xA9, 0x29, 0x8F, 0x27, 0x9F, 0x7F, 0x8B, 0x60, 0x18, 0x47, 0xE4,
    0x32, 0xCD, 0x9F, 0x79, 0xF8, 0x61, 0x36, 0x35, 0x3C, 0xF7, 0x60, 0xAC, 0xC4, 0xDF, 0x41, 0x71]
def sampleSigningKey : List UInt8 :=
  [0xC2, 0xD1, 0x72, 0x9A, 0xA3, 0xA9, 0x4F, 0x65, 0x43, 0xF6, 0x56, 0xA3, 0x53, 0x38, 0xE4, 0x89,
    0x0A, 0x46, 0x76, 0x7C, 0xB8, 0x19, 0x6B, 0xB1, 0x12, 0x01, 0x2F, 0x0A, 0xAF, 0xD1, 0xAD, 0xA9]
def sampleMac : List UInt8 :=
  [0xAB, 0x85, 0xAE, 0x34, 0x57, 0x35, 0xF1, 0x97, 0x0A, 0x20, 0x25, 0xF3, 0xFD, 0x02, 0x5E, 0xA7,
    0xB6, 0xF6, 0x6F, 0xAD, 0xE2, 0x43, 0xE8, 0xC8, 0xAD, 0xE8, 0x07, 0xFA, 0xAA, 0x14, 0x45, 0xC3]

def sampleCanonical : Text :=
  canonicalRequest ['G', 'E', 'T'] ['/', 'a', '%', '2', 'B', 'b'] (canonicalQuery samplePairs true)
    (hostLine 0 ['h'] ++ ['\n']) headerHost unsignedPayload

def sampleText : Text :=
  algorithmName ++ '\n' :: (sampleIso ++ '\n' :: (sampleScope ++ '\n' :: hexEncode sampleDigest))

def digestTable : List (List UInt8 × List UInt8) := [(utf8 sampleCanonical, sampleDigest)]

def macTable : List ((List UInt8 × List UInt8) × List UInt8) :=
  [((utf8 ['A', 'W', 'S', '4', 's'], utf8 sampleDate), sampleDateKey),
    ((sampleDateKey, utf8 ['r']), sampleRegionKey), ((sampleRegionKey, utf8 serviceName), sampleServiceKey),
    ((sampleServiceKey, utf8 terminatorName), sampleSigningKey),
    ((sampleSigningKey, utf8 sampleText), sampleMac)]

def sampleHashes : Hashes where
  sha256 := patched digestTable longDigest
  hmacSha256 key data := patched macTable longMac (key, data)

theorem sampleHashes_injective :
    Function.Injective sampleHashes.sha256 ∧ Function.Injective2 sampleHashes.hmacSha256 := by
  constructor
  · apply patched_injective digestTable longDigest (fun _ _ same => List.append_cancel_left same)
    · decide
    · simp [longDigest]
    · decide
  · intro key₁ key₂ data₁ data₂ same
    have inputs := patched_injective macTable longMac longMac_injective (by decide)
      (by intro x; simp [longMac, longDigest]) (by decide) same
    exact Prod.mk.inj inputs

/-- Two requests one ticket opens: an encoded path, and the same path as it is. -/
def encodedRequest : ContentRequest where
  method := ['G', 'E', 'T']
  pathAndQuery := ['/', 'a', '%', '2', 'B', 'b']
  host := some ['h']
  oneMethod := by decide
  oneLine := by decide

def plainRequest : ContentRequest where
  method := ['G', 'E', 'T']
  pathAndQuery := ['/', 'a', '+', 'b']
  host := some [' ', 'h']
  oneMethod := by decide
  oneLine := by decide

theorem sample_binds :
    SameTicket lossy encodedRequest plainRequest samplePairs samplePairs.reverse ∧
      (⟨['k'], 60⟩ : VerifiedRequest) = ⟨['k'], 60⟩ :=
  signature_binds sampleHashes lossy sampleStore sampleStore encodedRequest plainRequest samplePairs
    samplePairs.reverse 1790380800 1790380830 ∅ ∅ ⟨['k'], 60⟩ ⟨['k'], 60⟩ sampleHashes_injective.1
    sampleHashes_injective.2 (by decide +kernel) (by decide +kernel) (by decide +kernel) (by decide +kernel)
    (by decide)

end OriginCache.Request.Tickets
