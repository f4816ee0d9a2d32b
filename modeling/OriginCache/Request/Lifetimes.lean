import OriginCache.Foundation.Memos
import OriginCache.Request.MintedTickets

/-! The memo of the signing keys over any history of verifications, and what it leaves
of time in a presigned request: when the request is admitted, from which second on and
until which. -/

namespace OriginCache.Request.Lifetimes
open Foundation.Splits Foundation.Percent Foundation.Tables Foundation.Memos Dates Canonical Sigv4 SessionBudgets ContentAuth
open MintedTickets (settle_iff admits_iff)
open Cache.SegName (Text parseU64)

/-! The memo. -/

/-- What a signing key is derived from. -/
structure KeyScope where
  secret : Text
  date : Text
  region : Text
  service : Text

def KeyScope.text (scope : KeyScope) : Text :=
  scope.secret ++ '\x01' :: (scope.date ++ '\x01' :: (scope.region ++ '\x01' :: scope.service))

/-- A scope of a served request: its text is read back in one way only. -/
structure KeyScope.Fine (scope : KeyScope) : Prop where
  secret : '\x01' ∉ scope.secret
  date : '\x01' ∉ scope.date
  service : scope.service = serviceName

theorem text_injective (a b : KeyScope) (fine : a.Fine) (good : b.Fine) (same : a.text = b.text) : a = b := by
  obtain ⟨secret, rest⟩ := append_cons_inj '\x01' same fine.secret good.secret
  obtain ⟨date, rest⟩ := append_cons_inj '\x01' rest fine.date good.date
  have service := fine.service.trans good.service.symm
  have region : a.region = b.region := by
    rw [service] at rest
    exact List.append_cancel_right rest
  cases a
  cases b
  simp only at secret date region service
  rw [secret, date, region, service]

section Verifying
variable (hashes : Hashes)

/-- The key without the memo. -/
def KeyScope.key (scope : KeyScope) : List UInt8 :=
  deriveSigningKeyUncached hashes scope.secret scope.date scope.region scope.service

theorem deriveSigningKey_consult (memo : KeyCache) (scope : KeyScope) :
    deriveSigningKey hashes memo scope.secret scope.date scope.region scope.service =
      consult KeyScope.text (KeyScope.key hashes) signingKeyCacheCap memo scope := by
  unfold deriveSigningKey consult KeyScope.text
  simp only
  cases memo.lookup (scope.secret ++ '\x01' :: (scope.date ++ '\x01' :: (scope.region ++ '\x01' :: scope.service))) with
  | none => rfl
  | some known => rfl

/-- The memo is of a bounded size and holds derived keys. -/
structure MemoHolds (memo : KeyCache) : Prop where
  truthful : Truthful KeyScope.text (KeyScope.key hashes) KeyScope.Fine memo
  few : memo.keys.length ≤ signingKeyCacheCap

theorem memoHolds_empty : MemoHolds hashes ∅ := ⟨truthful_empty, Nat.zero_le _⟩

variable {hashes}

theorem MemoHolds.consult {memo : KeyCache} (holds : MemoHolds hashes memo) (scope : KeyScope) (fine : scope.Fine) :
    MemoHolds hashes (consult KeyScope.text (KeyScope.key hashes) signingKeyCacheCap memo scope).2 :=
  ⟨consult_truthful text_injective holds.truthful fine, consult_length (by decide) holds.few⟩

/-! One comparison. -/

/-- The signature of the canonical text under the derived key. -/
def signed (hashes : Hashes) (amzDateIso : Text) (credential : CredentialV4) (secret canonical : Text) : Text :=
  hexEncode (hashes.hmacSha256
    (deriveSigningKeyUncached hashes secret credential.date credential.awsRegion credential.awsService)
    (utf8 (stringToSign hashes canonical amzDateIso credential.date credential.awsRegion credential.awsService)))

def scopeOf (credential : CredentialV4) (secret : Text) : KeyScope :=
  ⟨secret, credential.date, credential.awsRegion, credential.awsService⟩

variable {amzDateIso secret expected : Text} {credential : CredentialV4} {memo : KeyCache}
  (holds : MemoHolds hashes memo) (fine : (scopeOf credential secret).Fine)
include holds fine

theorem tryCandidates_holds (candidates : List Text) :
    ((tryCandidates hashes amzDateIso credential secret expected candidates memo).1 = true ↔
        ∃ canonical ∈ candidates, expected = signed hashes amzDateIso credential secret canonical) ∧
      MemoHolds hashes (tryCandidates hashes amzDateIso credential secret expected candidates memo).2 := by
  induction candidates generalizing memo with
  | nil =>
    refine ⟨?_, holds⟩
    simp only [tryCandidates, Bool.false_eq_true, List.not_mem_nil, false_and, exists_false]
  | cons canonical rest ih =>
    have derived := deriveSigningKey_consult hashes memo (scopeOf credential secret)
    have kept := holds.consult (scopeOf credential secret) fine
    have value := @consult_value _ _ _ _ _ _ signingKeyCacheCap _ _ _ holds.truthful fine
    rw [tryCandidates, calculateSignature]
    simp only [scopeOf] at derived value kept
    simp only [derived, value]
    split_ifs with matched
    · have same : signed hashes amzDateIso credential secret canonical = expected :=
        utf8_injective ((constantTimeEq_iff _ _).mp matched)
      exact ⟨⟨fun _ => ⟨canonical, List.mem_cons_self, same.symm⟩, fun _ => rfl⟩, kept⟩
    · have other : expected ≠ signed hashes amzDateIso credential secret canonical :=
        fun same => matched ((constantTimeEq_iff _ _).mpr (congrArg utf8 same.symm))
      rw [(ih kept).1]
      refine ⟨?_, (ih kept).2⟩
      simp only [List.mem_cons, exists_eq_or_imp, other, false_or]

theorem verifySignature_holds (canonical : Text) (raw : Option Text) :
    ((verifySignature hashes canonical raw amzDateIso credential secret expected memo).1 = true ↔
        ∃ form, (form = canonical ∨ raw = some form) ∧ expected = signed hashes amzDateIso credential secret form) ∧
      MemoHolds hashes (verifySignature hashes canonical raw amzDateIso credential secret expected memo).2 := by
  have tried := @tryCandidates_holds _ amzDateIso secret expected credential memo holds fine
  unfold verifySignature
  cases raw with
  | none =>
    refine ⟨?_, (tried [canonical]).2⟩
    rw [(tried [canonical]).1]
    simp only [List.mem_singleton, reduceCtorEq, or_false]
  | some raw =>
    simp only
    split_ifs with differs
    · refine ⟨?_, (tried [canonical, raw]).2⟩
      rw [(tried [canonical, raw]).1]
      simp only [List.mem_cons, List.not_mem_nil, or_false, Option.some.injEq, eq_comm (a := raw)]
    · refine ⟨?_, (tried [canonical]).2⟩
      rw [(tried [canonical]).1]
      rw [not_ne_iff] at differs
      simp only [List.mem_singleton, differs, Option.some.injEq, eq_comm (a := canonical), or_self]

omit holds fine

/-! One verification. -/

/-- No secret of the store holds the mark that separates the parts of a scope. -/
def PlainSecrets (store : CredentialStore) : Prop :=
  ∀ id entry, store.lookup id = some entry → '\x01' ∉ entry.secret

theorem mark_not_mem_fmtDate (date : AmzDate) : '\x01' ∉ date.fmtDate := by
  have digits : ∀ width n, '\x01' ∉ padded width n := by
    intro width n
    rw [padded, List.mem_append, not_or]
    refine ⟨?_, not_mem_numeral n '\x01' (by decide)⟩
    intro zero
    exact absurd (List.eq_of_mem_replicate zero) (by decide)
  rw [AmzDate.fmtDate]
  simp only [List.mem_append, digits, or_self, not_false_eq_true]

variable {store : CredentialStore} (plain : PlainSecrets store)
include plain

theorem presignedMaterial_fine (input : VerifyInput) (now : Int) (m : Material)
    (ok : presignedMaterial store input now = .ok m) : (scopeOf m.credential m.secret).Fine := by
  simp only [presignedMaterial, bind_ok, need_ok, refuseIf_ok] at ok
  obtain ⟨_, _, _, _, _, _, credential, _, _, _, amzDate, _, _, _, _, _, _, _, _, _, _, _, _, _, _, _, _, dated, _, _, _,
    _, entry, known, _, service, _, _, headers, _, whole⟩ := ok
  cases whole
  rw [decide_eq_false_iff_not, not_not] at dated service
  have free : '\x01' ∉ credential.date := by
    rw [dated]
    exact mark_not_mem_fmtDate amzDate
  exact ⟨plain _ entry known, free, service⟩

theorem headerMaterial_fine (input : VerifyInput) (auth : Text) (now : Int) (m : Material)
    (ok : headerMaterial store input auth now = .ok m) : (scopeOf m.credential m.secret).Fine := by
  simp only [headerMaterial, bind_ok, need_ok, refuseIf_ok] at ok
  obtain ⟨_, _, parts, _, credential, _, _, _, _, _, _, _, amzDate, _, _, dated, _, _, entry, known, _, service, _, _,
    _, _, headers, _, _, _, whole⟩ := ok
  cases whole
  rw [decide_eq_false_iff_not, not_not] at dated service
  have free : '\x01' ∉ credential.date := by
    rw [dated]
    exact mark_not_mem_fmtDate amzDate
  exact ⟨plain _ entry known, free, service⟩

omit plain

/-- The signature of the material is one of the secret over one of its forms. -/
def Signed (hashes : Hashes) (m : Material) : Prop :=
  ∃ form, (form = m.canonicalDecoded ∨ m.canonicalRaw = some form) ∧
    m.signature = signed hashes m.amzDateIso m.credential m.secret form

theorem settle_holds (holds : MemoHolds hashes memo) (material : Except Reason Material)
    (fine : ∀ m, material = .ok m → (scopeOf m.credential m.secret).Fine) :
    (∀ verified, (settle hashes memo material).1 = .ok verified ↔
        ∃ m, material = .ok m ∧ verified = ⟨m.credential.accessKeyId, m.expiresSecs⟩ ∧ Signed hashes m) ∧
      MemoHolds hashes (settle hashes memo material).2 := by
  constructor
  · intro verified
    rw [settle_iff]
    apply exists_congr
    intro m
    apply and_congr_right
    intro found
    rw [(verifySignature_holds holds (fine m found) _ _).1, Signed]
  · cases material with
    | error reason => exact holds
    | ok m => exact (verifySignature_holds holds (fine m rfl) _ _).2

include plain

/-- Whatever is verified, by query or by header, the memo stays good. -/
theorem verifyOptional_holds (holds : MemoHolds hashes memo) (input : VerifyInput) (now : Int) :
    MemoHolds hashes (verifyOptional hashes (some store) input now memo).2 := by
  unfold verifyOptional
  simp only
  split_ifs
  · exact (settle_holds holds _ (presignedMaterial_fine plain input now)).2
  · cases input.authorization with
    | none => exact holds
    | some auth =>
      simp only
      split_ifs
      · exact (settle_holds holds _ (headerMaterial_fine plain input auth now)).2
      · exact holds

omit plain

/-- The memo after a history of verifications, by the front and by the business plane. -/
def memoAfter (hashes : Hashes) (store : CredentialStore) (past : List (VerifyInput × Int)) : KeyCache :=
  past.foldl (fun memo call => (verifyOptional hashes (some store) call.1 call.2 memo).2) ∅

theorem memoAfter_holds (plain : PlainSecrets store) (past : List (VerifyInput × Int)) :
    MemoHolds hashes (memoAfter hashes store past) := by
  have run : ∀ memo, MemoHolds hashes memo →
      MemoHolds hashes (past.foldl (fun memo call => (verifyOptional hashes (some store) call.1 call.2 memo).2) memo) := by
    induction past with
    | nil => exact fun memo holds => holds
    | cons call past ih => exact fun memo holds => ih _ (verifyOptional_holds plain holds call.1 call.2)
  exact run ∅ (memoHolds_empty hashes)

/-! The window of a presigned request. -/

def dateOf (input : VerifyInput) : Option Int :=
  ((queryGet input.queryPairs paramDate).bind AmzDate.parse).map AmzDate.toUnix

/-- The checks but those of the time are made of the request alone, so they pass at the
request's own date when they pass at all. -/
theorem presignedMaterial_window (input : VerifyInput) (now : Int) (m : Material) :
    presignedMaterial store input now = .ok m ↔
      ∃ date, dateOf input = some date ∧ presignedMaterial store input date = .ok m ∧
        date - maxSkewSecs ≤ now ∧ now ≤ date + m.expiresSecs := by
  have skewed : ∀ t : Int, (decide (t < 0 ∧ maxSkewSecs < t.natAbs) = false) ↔ -maxSkewSecs ≤ t := by
    intro t
    rw [decide_eq_false_iff_not, maxSkewSecs]
    omega
  constructor
  · intro ok
    simp only [presignedMaterial, bind_ok, need_ok, refuseIf_ok] at ok
    obtain ⟨algorithm, a1, _, a2, raw, c1, credential, c2, dateRaw, d1, amzDate, d2, secsRaw, e1, secs, e2, _, e3, headersRaw,
      h1, _, h2, signature, s1, _, s2, _, dated, _, early, _, late, entry, known, _, service, _, host, headers, h3, whole⟩ := ok
    cases whole
    rw [skewed] at early
    rw [decide_eq_false_iff_not, not_lt] at late
    refine ⟨amzDate.toUnix, by rw [dateOf, d1, Option.bind_some, d2, Option.map_some], ?_, by omega, by
      change now ≤ amzDate.toUnix + (secs : Int)
      omega⟩
    simp only [presignedMaterial, bind_ok, need_ok, refuseIf_ok]
    refine ⟨algorithm, a1, (), a2, raw, c1, credential, c2, dateRaw, d1, amzDate, d2, secsRaw, e1, secs, e2, (), e3,
      headersRaw, h1, (), h2, signature, s1, (), s2, (), dated, (), ?_, (), ?_, entry, known, (), service, (), host,
      headers, h3, rfl⟩
    · rw [skewed, maxSkewSecs]
      omega
    · rw [decide_eq_false_iff_not, not_lt]
      omega
  · rintro ⟨date, given, ok, early, late⟩
    simp only [presignedMaterial, bind_ok, need_ok, refuseIf_ok] at ok
    obtain ⟨algorithm, a1, _, a2, raw, c1, credential, c2, dateRaw, d1, amzDate, d2, secsRaw, e1, secs, e2, _, e3, headersRaw,
      h1, _, h2, signature, s1, _, s2, _, dated, _, _, _, _, entry, known, _, service, _, host, headers, h3, whole⟩ := ok
    cases whole
    rw [dateOf, d1, Option.bind_some, d2, Option.map_some, Option.some.injEq] at given
    subst given
    simp only [presignedMaterial, bind_ok, need_ok, refuseIf_ok]
    refine ⟨algorithm, a1, (), a2, raw, c1, credential, c2, dateRaw, d1, amzDate, d2, secsRaw, e1, secs, e2, (), e3,
      headersRaw, h1, (), h2, signature, s1, (), s2, (), dated, (), ?_, (), ?_, entry, known, (), service, (), host,
      headers, h3, rfl⟩
    · rw [skewed]
      omega
    · rw [decide_eq_false_iff_not, not_lt]
      change now ≤ amzDate.toUnix + (secs : Int) at late
      omega

/-- The front verifies by query alone, and as it would without a memo. -/
theorem verifyOptional_verified (plain : PlainSecrets store) (holds : MemoHolds hashes memo) (input : VerifyInput)
    (bare : input.authorization = none) (now : Int) (verified : VerifiedRequest) :
    (verifyOptional hashes (some store) input now memo).1 = .verified verified ↔
      ∃ m, presignedMaterial store input now = .ok m ∧ verified = ⟨m.credential.accessKeyId, m.expiresSecs⟩ ∧
        Signed hashes m := by
  rw [← (settle_holds holds _ (presignedMaterial_fine plain input now)).1 verified]
  by_cases asked : (input.queryPairs.any fun pair => pair.1 = paramSignature) = true
  · exact MintedTickets.verifyOptional_iff hashes store input now memo verified asked
  · constructor
    · intro found
      rw [verifyOptional, if_neg asked, bare] at found
      cases found
    · intro found
      obtain ⟨m, read, _⟩ := settle_ok hashes memo _ verified found
      obtain ⟨_, _, presigned⟩ := presignedMaterial_ok store input now m read
      have named := presigned.signature
      rw [queryGet, Option.map_eq_some_iff] at named
      obtain ⟨pair, first, _⟩ := named
      exact absurd (List.any_eq_true.mpr ⟨pair, List.mem_of_find?_eq_some first, List.find?_some first⟩) asked

end Verifying

section Gate
variable (hashes : Hashes) (decoder : Decoder) (formParse : Text → List (Text × Text))

/-- What a request says for good: by whom it is signed, on which date, for how many
seconds, and for which session. Neither a clock nor a state of the gate is in it. -/
structure Standing (gate : ContentGate) (request : ContentRequest) (credential session : Text) (entry : CredentialEntry)
    (date : Int) (expires : Nat) : Prop where
  short : (utf8 request.query).length ≤ maxQueryBytes
  few : (formParse request.query).length ≤ maxQueryPairs
  dated : dateOf (frontInput decoder request (formParse request.query)) = some date
  signed : ∃ m, presignedMaterial gate.store (frontInput decoder request (formParse request.query)) date = .ok m ∧
    m.credential.accessKeyId = credential ∧ m.expiresSecs = expires ∧ Signed hashes m
  authorized : authorize decoder gate request (queryGet (formParse request.query) paramSession) ⟨credential, expires⟩ =
    .ok (session, entry)

end Gate

/-! The ticket of an hour, up to its last second. -/

open MintedTickets (mintHashes mintStore mintCaps mintEntry mintMs viewerContent)

def mintGate : ContentGate := .fromCaps mintStore mintCaps

def viewerCall : VerifyInput × Int := (frontInput lossy viewerContent (formDecode viewerContent.query), 1790380800)

theorem mintStore_plain : PlainSecrets mintStore := by
  intro id entry found
  have known : mintStore = AList.insert ['k'] mintEntry ∅ := rfl
  rw [known] at found
  by_cases same : id = ['k']
  · subst same
    rw [AList.lookup_insert] at found
    cases found
    decide
  · rw [AList.lookup_insert_ne same, AList.lookup_empty] at found
    cases found

end OriginCache.Request.Lifetimes
