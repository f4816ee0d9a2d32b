import OriginCache.Cache.Key
import OriginCache.Request.ContentAuth

/-! The ticket endpoint: the worker that mints presigned URLs for a site. What it takes
from its runtime is a parameter: the parsers of URLs and JSON, number conversion, the
hash functions. -/

namespace OriginCache.Request.TicketWorker
open Foundation.Splits Foundation.Percent Foundation.Tables Dates
open Canonical hiding uriEncode canonicalQuery
open Sigv4 hiding stringToSign canonicalRequest trim sha256Hex
open Cache.SegName (Text)

/-! The encoder. -/

def unreservedChar (c : Char) : Bool :=
  ('A' ≤ c ∧ c ≤ 'Z') ∨ ('a' ≤ c ∧ c ≤ 'z') ∨ ('0' ≤ c ∧ c ≤ '9') ∨ c = '_' ∨ c = '.' ∨ c = '~' ∨ c = '-'

/-- `padStart(width, "0")`. -/
def padStart (width : Nat) (text : Text) : Text := List.replicate (width - text.length) '0' ++ text

/-- `byte.toString(16)`. -/
def hexDigits (b : UInt8) : Text := Nat.toDigits 16 b.toNat

def percentByte (b : UInt8) : Text := '%' :: padStart 2 ((hexDigits b).map Char.toUpper)

def uriEncode (value : Text) (keepSlash : Bool) : Text :=
  value.flatMap fun ch =>
    if unreservedChar ch || (keepSlash && ch == '/') then [ch]
    else (String.utf8EncodeChar ch).flatMap percentByte

def hex (bytes : List UInt8) : Text := bytes.flatMap fun b => padStart 2 (hexDigits b)

/-- By name, then by value, before anything is encoded. -/
def canonicalQuery (pairs : List (Text × Text)) : Text :=
  ['&'].intercalate ((pairs.insertionSort PairOrder).map fun pair =>
    uriEncode pair.1 false ++ '=' :: uriEncode pair.2 false)

/-! The signature. -/

def isoYear (year : Nat) : Text := if year < 10000 then padded 4 year else '+' :: padded 6 year

def isoText (date : AmzDate) (ms : Nat) : Text :=
  isoYear date.year ++ '-' :: (padded 2 date.month ++ '-' :: (padded 2 date.day ++ 'T' :: (padded 2 date.hour ++ ':' ::
    (padded 2 date.minute ++ ':' :: (padded 2 date.second ++ '.' :: (padded 3 ms ++ ['Z']))))))

/-- `toISOString` of a moment after the epoch. -/
def toIsoString (nowMs : Nat) : Text := isoText (AmzDate.ofUnix (nowMs / 1000)) (nowMs % 1000)

/-- `replace(/\.\d+Z$/, "Z")`. -/
def dropFraction (iso : Text) : Text :=
  match splitOnce '.' iso with
  | none => iso
  | some (front, fraction) =>
      if fraction.getLast? = some 'Z' ∧ fraction.dropLast ≠ [] ∧ fraction.dropLast.all Char.isDigit then
        front ++ ['Z']
      else iso

def amzDateText (nowMs : Nat) : Text :=
  dropFraction ((toIsoString nowMs).filter fun c => c ≠ '-' ∧ c ≠ ':')

def region : Text := ['u', 's', '-', 'e', 'a', 's', 't', '-', '1']
def https : Text := ['h', 't', 't', 'p', 's', ':', '/', '/']
def methodGet : Text := ['G', 'E', 'T']

def fullKey (key : Text) : Text := if key.head? = some '/' then key else '/' :: key

def scopeText (scopeDate : Text) : Text :=
  scopeDate ++ '/' :: (region ++ '/' :: (serviceName ++ '/' :: terminatorName))

/-- The query before it is signed. -/
def ticketPairs (accessKeyId session expires amzDate : Text) : List (Text × Text) :=
  [(paramAlgorithm, algorithmName),
    (paramCredential, accessKeyId ++ '/' :: scopeText (amzDate.take 8)),
    (paramDate, amzDate), (paramExpires, expires), (paramSignedHeaders, headerHost), (paramSession, session)]

section Signing
variable (hashes : Hashes)

def canonicalRequest (host key : Text) (pairs : List (Text × Text)) : Text :=
  ['\n'].intercalate [methodGet, uriEncode (fullKey key) true, canonicalQuery pairs, headerHost ++ ':' :: host, [],
    headerHost, unsignedPayload]

def stringToSign (canonical amzDate : Text) : Text :=
  ['\n'].intercalate [algorithmName, amzDate, scopeText (amzDate.take 8), hex (hashes.sha256 (utf8 canonical))]

def signingKey (secret scopeDate : Text) : List UInt8 :=
  let dateKey := hashes.hmacSha256 (utf8 (['A', 'W', 'S', '4'] ++ secret)) (utf8 scopeDate)
  let regionKey := hashes.hmacSha256 dateKey (utf8 region)
  let serviceKey := hashes.hmacSha256 regionKey (utf8 serviceName)
  hashes.hmacSha256 serviceKey (utf8 terminatorName)

/-- The signed part of the URL, without its scheme and host. -/
def signedTarget (host key session expires accessKeyId secret : Text) (nowMs : Nat) : Text :=
  let amzDate := amzDateText nowMs
  let pairs := ticketPairs accessKeyId session expires amzDate
  let text := stringToSign hashes (canonicalRequest host key pairs) amzDate
  let signature := hex (hashes.hmacSha256 (signingKey hashes secret (amzDate.take 8)) (utf8 text))
  uriEncode (fullKey key) true ++ '?' :: (canonicalQuery pairs ++ '&' :: (paramSignature ++ '=' :: signature))

def signUrl (host key session expires accessKeyId secret : Text) (nowMs : Nat) : Text :=
  https ++ (host ++ signedTarget hashes host key session expires accessKeyId secret nowMs)

end Signing

/-! The request. -/

structure Url where
  protocol : Text
  search : Text
  host : Text
  pathname : Text
deriving DecidableEq, Repr

/-- What the platform does for the worker. A value that `new URL`, `JSON.parse` or
`toISOString` throws at is `none`; `atMost n v` is `n <= Number(v)`. -/
structure Runtime where
  hashes : Hashes
  parseUrl : Text → Option Url
  srcOf : Text → Option Text
  numberText : Text → Text
  atMost : Nat → Text → Bool
  expiresAt : Nat → Text → Option Text

/-- The bindings of a deployment. -/
structure Env where
  ticketHost : Option Text
  ticketId : Option Text
  ticketPrefix : Option Text
  ticketSecret : Option Text
  allowedOrigin : Option Text
  sessionCookie : Option Text
  ratePerMin : Option Text
  expiresSecs : Option Text

/-- The bindings an answer cannot do without. -/
structure Bindings where
  host : Text
  accessKeyId : Text
  keyPrefix : Text
  secret : Text
  allowed : Text

def present (binding : Option Text) : Option Text := binding.filter (· ≠ [])

def Env.required (env : Env) : Option Bindings := do
  let host ← present env.ticketHost
  let accessKeyId ← present env.ticketId
  let keyPrefix ← present env.ticketPrefix
  let secret ← present env.ticketSecret
  let allowed ← present env.allowedOrigin
  some ⟨host, accessKeyId, keyPrefix, secret, allowed⟩

structure TicketRequest where
  method : Text
  origin : Option Text
  referer : Option Text
  cookie : Option Text
  body : Text

inductive Answer
  | refused (status : Nat)
  | ticket (url expiresAt : Text) (setCookie : Option Text)
deriving DecidableEq, Repr

def sessionCookieName : Text := ['t', 'i', 'c', 'k', 'e', 't', '_', 's', 'e', 's', 's', 'i', 'o', 'n']
def defaultExpires : Text := ['3', '6', '0', '0']
def defaultRatePerMin : Text := ['3', '0']
def methodPost : Text := ['P', 'O', 'S', 'T']
def httpsProtocol : Text := ['h', 't', 't', 'p', 's', ':']

/-- The same origin as the page, by header or by referrer. -/
def originAllowed (request : TicketRequest) (allowed : Text) : Bool :=
  match present request.origin with
  | some origin => origin = allowed
  | none => (present request.referer).any fun referer => (allowed ++ ['/']).isPrefixOf referer

/-- `decodeURIComponent`: every escape is well formed and the bytes are UTF-8. -/
def decodeUriComponent (text : Text) : Option Text := (Cache.Key.decodeBytes (utf8 text)).bind Cache.Key.fromUtf8

/-- The key of the raw embed, or the status it is refused with. -/
def validateSrc (runtime : Runtime) (raw : Option Text) (host keyPrefix : Text) : Except Nat Text :=
  match (present raw).bind runtime.parseUrl with
  | none => .error 400
  | some url =>
      if url.protocol ≠ httpsProtocol ∨ url.search ≠ [] then .error 400
      else if url.host ≠ host then .error 403
      else
        match decodeUriComponent (url.pathname.drop 1) with
        | none => .error 400
        | some key => if keyPrefix.isPrefixOf key then .ok key else .error 403

/-- White space and line ends of the language. -/
def isJsSpace (c : Char) : Bool :=
  (0x09 ≤ c.toNat ∧ c.toNat ≤ 0x0D) ∨ c.toNat ∈ [0x20, 0xA0, 0x1680, 0x2028, 0x2029, 0x202F, 0x205F, 0x3000, 0xFEFF] ∨
    (0x2000 ≤ c.toNat ∧ c.toNat ≤ 0x200A)

def trimJs (text : Text) : Text := ((text.dropWhile isJsSpace).reverse.dropWhile isJsSpace).reverse

/-- The value of the first cookie of that name, whatever it is. -/
def sessionFromCookie (cookie : Option Text) (name : Text) : Option Text :=
  ((cookie.getD []).splitOn ';').findSome? fun part =>
    match splitOnce '=' (trimJs part) with
    | some (k, rest) => if k = name then some rest else none
    | none => none

/-! The valve: mints of a session in a minute. -/

def limiterCap : Nat := 4096

def takeTicket (runtime : Runtime) (perMinute : Text) (seen : Table Text Nat) (session : Text) (nowMs : Nat) :
    Bool × Table Text Nat :=
  let window := ':' :: numeral (nowMs / 60000)
  let used := (seen.lookup (session ++ window)).getD 0 + 1
  let seen := seen.insert (session ++ window) used
  let seen := if limiterCap < seen.keys.length then
    (⟨seen.entries.filter fun row => window.isSuffixOf row.1, seen.nodupKeys.sublist List.filter_sublist⟩ : Table Text Nat)
  else seen
  (runtime.atMost used perMinute, seen)

/-! The endpoint. -/

def cookieLine (name session : Text) : Text :=
  name ++ '=' :: (session ++ "; Path=/; HttpOnly; Secure; SameSite=Lax; Max-Age=604800".toList)

def Env.cookieName (env : Env) : Text := env.sessionCookie.getD sessionCookieName

/-- The session of a mint: what the cookie says, or a new one. -/
def Env.session (env : Env) (request : TicketRequest) (newSession : Text) : Text :=
  (sessionFromCookie request.cookie env.cookieName).getD newSession

/-- Set where the request has no session to keep. -/
def Env.setCookie (env : Env) (request : TicketRequest) (session : Text) : Option Text :=
  match present (sessionFromCookie request.cookie env.cookieName) with
  | some _ => none
  | none => some (cookieLine env.cookieName session)

def Env.expires (env : Env) (runtime : Runtime) : Text := runtime.numberText (env.expiresSecs.getD defaultExpires)

/-- `handleTicketRequest`. `newSession` is what the generator gives when it is asked. -/
def handleTicketRequest (runtime : Runtime) (env : Env) (request : TicketRequest) (newSession : Text) (nowMs : Nat)
    (seen : Table Text Nat) : Answer × Table Text Nat :=
  if request.method ≠ methodPost then (.refused 405, seen)
  else
    match env.required with
    | none => (.refused 500, seen)
    | some bound =>
        if !originAllowed request bound.allowed then (.refused 403, seen)
        else
          match validateSrc runtime (runtime.srcOf request.body) bound.host bound.keyPrefix with
          | .error status => (.refused status, seen)
          | .ok key =>
              let session := env.session request newSession
              let taken := takeTicket runtime (env.ratePerMin.getD defaultRatePerMin) seen session nowMs
              if !taken.1 then (.refused 429, taken.2)
              else
                match runtime.expiresAt nowMs (env.expiresSecs.getD defaultExpires) with
                -- The request ends in an exception.
                | none => (.refused 500, taken.2)
                | some expiresAt =>
                    (.ticket (signUrl runtime.hashes bound.host key session (env.expires runtime) bound.accessKeyId
                      bound.secret nowMs) expiresAt (env.setCookie request session), taken.2)

/-! The two sides encode alike. -/

theorem percentByte_eq (b : UInt8) : percentByte b = escapeByte b := by
  have each : ((List.range 256).all fun n => percentByte (UInt8.ofNat n) = escapeByte (UInt8.ofNat n)) = true := by
    decide +kernel
  have same := of_decide_eq_true (List.all_eq_true.mp each b.toNat (List.mem_range.mpr b.toNat_lt))
  rwa [UInt8.ofNat_toNat] at same

theorem hex_eq (bytes : List UInt8) : hex bytes = hexEncode bytes := by
  have each : ((List.range 256).all fun n =>
      padStart 2 (hexDigits (UInt8.ofNat n)) = hexPair (UInt8.ofNat n)) = true := by decide +kernel
  apply List.flatMap_congr
  intro b _
  have same := of_decide_eq_true (List.all_eq_true.mp each b.toNat (List.mem_range.mpr b.toNat_lt))
  rwa [UInt8.ofNat_toNat] at same

/-- A character is written as it is where its one byte is, and escaped byte by byte
everywhere else. -/
theorem uriEncode_char (keepSlash : Bool) (c : Char) :
    (if unreservedChar c || (keepSlash && c == '/') then [c] else (String.utf8EncodeChar c).flatMap percentByte) =
      (String.utf8EncodeChar c).flatMap (encodeByte (literal (!keepSlash))) := by
  by_cases ascii : c.toNat < 128
  · have each : ((List.range 128).all fun n =>
        (if unreservedChar (Char.ofNat n) || (keepSlash && Char.ofNat n == '/') then [Char.ofNat n]
          else percentByte (UInt8.ofNat n)) = encodeByte (literal (!keepSlash)) (UInt8.ofNat n)) = true := by
      cases keepSlash <;> decide
    have same := of_decide_eq_true (List.all_eq_true.mp each c.toNat (List.mem_range.mpr ascii))
    rw [Char.ofNat_toNat] at same
    rw [Cache.SegName.encodeChar_ascii c ascii, List.flatMap_singleton, List.flatMap_singleton]
    exact same
  · have wide := (Cache.SegName.encodeChar_wide c ascii).2
    have reserved : (unreservedChar c || (keepSlash && c == '/')) = false := by
      have small : ∀ d : Char, d.toNat < 128 → c ≠ d := by
        rintro d below rfl
        exact ascii below
      have above : ∀ d : Char, d.toNat < 128 → ¬c ≤ d := by
        intro d below order
        have values : c.toNat ≤ d.toNat := order
        omega
      simp [unreservedChar, small, above]
    rw [reserved, if_neg Bool.false_ne_true]
    apply List.flatMap_congr
    intro b member
    have dropped : ¬literal (!keepSlash) b = true := by
      intro kept
      have low := UInt8.lt_iff_toNat_lt.mp (literal_plain (!keepSlash) b kept).1
      have high := UInt8.le_iff_toNat_le.mp (wide b member)
      exact absurd low (Nat.not_lt.mpr high)
    rw [percentByte_eq, encodeByte, if_neg dropped]

theorem uriEncode_eq (value : Text) (keepSlash : Bool) :
    uriEncode value keepSlash = encode (literal (!keepSlash)) value := by
  unfold uriEncode encode encodeBytes utf8
  rw [List.flatMap_assoc]
  apply List.flatMap_congr
  intro c _
  exact uriEncode_char keepSlash c

theorem uriEncode_unreserved (text : Text) (keepSlash : Bool) (plain : ∀ c ∈ text, unreservedChar c = true) :
    uriEncode text keepSlash = text := by
  unfold uriEncode
  conv_rhs => rw [← List.flatMap_singleton' text]
  apply List.flatMap_congr
  intro c member
  rw [plain c member, Bool.true_or, if_pos rfl]

theorem unreserved_digit (c : Char) (digit : c.isDigit = true) : unreservedChar c = true := by
  have low : '0' ≤ c := (by simpa [Char.isDigit] using digit : (48 : UInt32) ≤ c.val ∧ c.val ≤ 57).1
  have high : c ≤ '9' := (by simpa [Char.isDigit] using digit : (48 : UInt32) ≤ c.val ∧ c.val ≤ 57).2
  simp [unreservedChar, low, high]

theorem unreserved_hex (bytes : List UInt8) (c : Char) (member : c ∈ hex bytes) : unreservedChar c = true := by
  have each : ((List.range 256).all fun n =>
      (padStart 2 (hexDigits (UInt8.ofNat n))).all unreservedChar) = true := by decide +kernel
  obtain ⟨b, -, inside⟩ := List.mem_flatMap.mp member
  have all := List.all_eq_true.mp each b.toNat (List.mem_range.mpr b.toNat_lt)
  rw [UInt8.ofNat_toNat] at all
  exact List.all_eq_true.mp all c inside

/-! The date of a mint. -/

theorem stripped_iso (year month day hour minute second ms : Text)
    (digits : ∀ c, c ∈ year ++ month ++ day ++ hour ++ minute ++ second ++ ms → c.isDigit = true ∨ c = '+')
    (fraction : ms ≠ [] ∧ ms.all Char.isDigit = true) :
    dropFraction ((year ++ '-' :: (month ++ '-' :: (day ++ 'T' :: (hour ++ ':' :: (minute ++ ':' :: (second ++ '.' ::
      (ms ++ ['Z'])))))) : Text).filter fun c => c ≠ '-' ∧ c ≠ ':') =
        year ++ month ++ day ++ 'T' :: (hour ++ minute ++ second) ++ ['Z'] := by
  have kept : ∀ part : Text, (∀ c ∈ part, c.isDigit = true ∨ c = '+') →
      part.filter (fun c => c ≠ '-' ∧ c ≠ ':') = part := by
    intro part plain
    apply List.filter_eq_self.mpr
    intro c member
    apply decide_eq_true
    constructor <;> (rintro rfl; exact absurd (plain _ member) (by decide))
  have free : ∀ part : Text, (∀ c ∈ part, c.isDigit = true ∨ c = '+') → '.' ∉ part := by
    intro part plain member
    exact absurd (plain _ member) (by decide)
  have inside : ∀ part : Text, part ⊆ year ++ month ++ day ++ hour ++ minute ++ second ++ ms →
      ∀ c ∈ part, c.isDigit = true ∨ c = '+' := fun part sub c member => digits c (sub member)
  have y := inside year (by intro c m; simp [m])
  have mo := inside month (by intro c m; simp [m])
  have d := inside day (by intro c m; simp [m])
  have h := inside hour (by intro c m; simp [m])
  have mi := inside minute (by intro c m; simp [m])
  have se := inside second (by intro c m; simp [m])
  have fr := inside ms (by intro c m; simp [m])
  have whole : ((year ++ '-' :: (month ++ '-' :: (day ++ 'T' :: (hour ++ ':' :: (minute ++ ':' :: (second ++ '.' ::
      (ms ++ ['Z'])))))) : Text).filter fun c => c ≠ '-' ∧ c ≠ ':') =
        (year ++ month ++ day ++ 'T' :: (hour ++ minute ++ second)) ++ '.' :: (ms ++ ['Z']) := by
    simp only [List.filter_append, List.filter_cons, kept _ y, kept _ mo, kept _ d, kept _ h, kept _ mi, kept _ se,
      kept _ fr]
    simp
  have front : '.' ∉ year ++ month ++ day ++ 'T' :: (hour ++ minute ++ second) := by
    simp [free _ y, free _ mo, free _ d, free _ h, free _ mi, free _ se]
  rw [whole, dropFraction, splitOnce_append '.' _ _ front]
  apply if_pos
  rw [List.getLast?_concat, List.dropLast_concat]
  exact ⟨rfl, fraction⟩

theorem isoYear_digits (year : Nat) : ∀ c ∈ isoYear year, c.isDigit = true ∨ c = '+' := by
  intro c member
  unfold isoYear at member
  split_ifs at member
  · exact .inl (padded_isDigit _ _ c member)
  · cases List.mem_cons.mp member with
    | inl sign => exact .inr sign
    | inr digit => exact .inl (padded_isDigit _ _ c digit)

theorem isoText_parts (date : AmzDate) (ms : Nat) :
    dropFraction ((isoText date ms).filter fun c => c ≠ '-' ∧ c ≠ ':') =
      isoYear date.year ++ padded 2 date.month ++ padded 2 date.day ++
        'T' :: (padded 2 date.hour ++ padded 2 date.minute ++ padded 2 date.second) ++ ['Z'] := by
  have digits : ∀ width n, ∀ c ∈ padded width n, c.isDigit = true ∨ c = '+' :=
    fun width n c member => .inl (padded_isDigit width n c member)
  unfold isoText
  apply stripped_iso
  · intro c member
    simp only [List.mem_append] at member
    rcases member with (((((m | m) | m) | m) | m) | m) | m
    · exact isoYear_digits _ c m
    all_goals exact digits _ _ c m
  · have some := numeral_ne_nil ms
    exact ⟨by simp [padded, some], List.all_eq_true.mpr fun c m => padded_isDigit _ _ c m⟩

/-- A date of four-digit years is minted in the form the verifier reads. -/
theorem amzDateText_eq (nowMs : Nat) (four : (AmzDate.ofUnix (nowMs / 1000)).year < 10000) :
    amzDateText nowMs = (AmzDate.ofUnix (nowMs / 1000)).fmtIso8601 := by
  rw [amzDateText, toIsoString, isoText_parts, isoYear, if_pos four, AmzDate.fmtIso8601, AmzDate.fmtDate]

/-- A later year begins with a sign. -/
theorem isoText_wide (date : AmzDate) (ms : Nat) (wide : ¬date.year < 10000) :
    ∃ rest, dropFraction ((isoText date ms).filter fun c => c ≠ '-' ∧ c ≠ ':') = '+' :: rest := by
  rw [isoText_parts, isoYear, if_neg wide]
  exact ⟨_, rfl⟩

theorem amzDateText_wide (nowMs : Nat) (wide : ¬(AmzDate.ofUnix (nowMs / 1000)).year < 10000) :
    ∃ rest, amzDateText nowMs = '+' :: rest :=
  isoText_wide _ _ wide

/-! The query, as the verifier reads it. -/

def ticketNames : List Text :=
  [paramAlgorithm, paramCredential, paramDate, paramExpires, paramSignedHeaders, paramSession]

theorem ticketNames_sorted : ticketNames.Pairwise (· < ·) ∧ paramSignature ∉ ticketNames ∧
    ticketNames.map (fun name => uriEncodeString name true) = ticketNames := by
  decide

theorem encode_eq (value : Text) : encode (literal true) value = uriEncode value false :=
  (uriEncode_eq value false).symm

theorem free_separators (text : Text) :
    '&' ∉ encode (literal true) text ∧ '=' ∉ encode (literal true) text ∧ '+' ∉ encode (literal true) text := by
  have plus : ∀ b, literal true b = true → latin b ≠ '+' := by
    have each : ((List.range 256).all fun n =>
        !literal true (UInt8.ofNat n) || latin (UInt8.ofNat n) != '+') = true := by decide +kernel
    intro b kept
    have this := List.all_eq_true.mp each b.toNat (List.mem_range.mpr b.toNat_lt)
    rw [UInt8.ofNat_toNat, kept] at this
    simpa using this
  exact ⟨separator_not_mem true text '&' (by decide), separator_not_mem true text '=' (by decide),
    not_mem_encode _ text '+' (by decide) (by decide) plus⟩

section Query
variable (accessKeyId session expires amzDate : Text)

theorem ticketPairs_names : (ticketPairs accessKeyId session expires amzDate).map Prod.fst = ticketNames := rfl

theorem ticketPairs_sorted :
    (ticketPairs accessKeyId session expires amzDate).insertionSort PairOrder =
      ticketPairs accessKeyId session expires amzDate := by
  have names := ticketNames_sorted.1
  rw [← ticketPairs_names accessKeyId session expires amzDate, List.pairwise_map] at names
  exact (names.imp fun {a b} order => Or.inl order).insertionSort_eq

theorem canonicalQuery_eq : canonicalQuery (ticketPairs accessKeyId session expires amzDate) =
    formEncode (literal true) (ticketPairs accessKeyId session expires amzDate) := by
  unfold canonicalQuery formEncode
  rw [ticketPairs_sorted]
  simp only [encode_eq]

/-- The verifier's canonical query is the worker's. -/
theorem canonicalQuery_agrees (signature : Text) :
    Canonical.canonicalQuery (ticketPairs accessKeyId session expires amzDate ++ [(paramSignature, signature)]) true =
      canonicalQuery (ticketPairs accessKeyId session expires amzDate) := by
  have kept : skipped (ticketPairs accessKeyId session expires amzDate ++ [(paramSignature, signature)]) true =
      ticketPairs accessKeyId session expires amzDate := by
    have names : ∀ pair ∈ ticketPairs accessKeyId session expires amzDate, pair.1 ≠ paramSignature := by
      intro pair member same
      apply ticketNames_sorted.2.1
      rw [← ticketPairs_names accessKeyId session expires amzDate, ← same]
      exact List.mem_map_of_mem member
    have all : (ticketPairs accessKeyId session expires amzDate).filter
        (fun pair => !(true && pair.1 == paramSignature)) = ticketPairs accessKeyId session expires amzDate := by
      apply List.filter_eq_self.mpr
      intro pair member
      simp [names pair member]
    rw [skipped, List.filter_append, all]
    simp
  have sorted : ((ticketPairs accessKeyId session expires amzDate).map encodePair).insertionSort PairOrder =
      (ticketPairs accessKeyId session expires amzDate).map encodePair := by
    have names := ticketNames_sorted.1
    rw [← ticketNames_sorted.2.2, ← ticketPairs_names accessKeyId session expires amzDate, List.map_map,
      List.pairwise_map] at names
    apply List.Pairwise.insertionSort_eq
    rw [List.pairwise_map]
    exact names.imp fun {a b} order => Or.inl order
  rw [canonicalQuery_eq, Canonical.canonicalQuery, sortedQuery, kept, sorted, formEncode, List.map_map]
  rfl

/-- The query of the URL holds the pairs and their signature. -/
theorem formDecode_query (signature : Text) (plain : ∀ c ∈ signature, unreservedChar c = true) :
    formDecode (canonicalQuery (ticketPairs accessKeyId session expires amzDate) ++
      '&' :: (paramSignature ++ '=' :: signature)) =
        ticketPairs accessKeyId session expires amzDate ++ [(paramSignature, signature)] := by
  have name : encode (literal true) paramSignature = paramSignature := by decide
  have value : encode (literal true) signature = signature := by
    rw [encode_eq]
    exact uriEncode_unreserved signature false plain
  have joined : canonicalQuery (ticketPairs accessKeyId session expires amzDate) ++
      '&' :: (paramSignature ++ '=' :: signature) =
        formEncode (literal true) (ticketPairs accessKeyId session expires amzDate ++ [(paramSignature, signature)]) := by
    have append : ∀ (parts : List Text) (last : Text), parts ≠ [] →
        ['&'].intercalate (parts ++ [last]) = ['&'].intercalate parts ++ '&' :: last := by
      intro parts last some
      induction parts with
      | nil => exact absurd rfl some
      | cons part parts ih =>
        cases parts with
        | nil => simp
        | cons next parts =>
          have later := ih (by simp)
          have first : ['&'].intercalate (part :: next :: parts) = part ++ ['&'] ++ ['&'].intercalate (next :: parts) :=
            List.intercalate_cons_of_ne_nil (by simp)
          rw [List.cons_append, List.intercalate_cons_of_ne_nil (by simp), later, first]
          simp only [List.append_assoc]
    rw [canonicalQuery_eq, formEncode, formEncode, List.map_append, List.map_singleton, append _ _ (by simp [ticketPairs]),
      name, value]
  rw [joined]
  exact formDecode_formEncode (literal true) (literal_plain true) free_separators _

end Query

end OriginCache.Request.TicketWorker
