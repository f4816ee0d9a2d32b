import OriginCache.Request.SessionBudgets

/-! Content-read admission: a presigned URL is the ticket. The parsing of a query into
its decoded pairs is a parameter. -/

namespace OriginCache.Request.ContentAuth
open Foundation.Splits Foundation.Percent Foundation.Tables Canonical Sigv4 SessionBudgets
open Cache.SegName (Text)

/-- A content read as the front hands it over. Neither part of a request line holds a
line break. -/
structure ContentRequest where
  method : Text
  pathAndQuery : Text
  host : Option Text
  oneMethod : '\n' ∉ method
  oneLine : '\n' ∉ pathAndQuery

inductive ContentDecision
  | allow (credential session : Text) | deny (status : Nat) (reason : String)
deriving DecidableEq, Repr

structure Caps where
  maxExpirySecs : Nat
  sessionRps : Nat
  sessionMibPerMin : Nat

structure ContentGate where
  store : CredentialStore
  maxExpirySecs : Nat
  defaultRps : Nat
  defaultBytesPerMin : Nat

def sessionMaxLen : Nat := 128
def maxQueryBytes : Nat := 8 * 1024
def maxQueryPairs : Nat := 64

def saturatingMul (a b : Nat) : Nat := min (a * b) (2 ^ 64 - 1)

def ContentGate.new (store : CredentialStore) (maxExpirySecs sessionRps sessionMibPerMin : Nat) : ContentGate :=
  ⟨store, min maxExpirySecs protocolMaxExpiresSecs, max sessionRps 1,
    max (saturatingMul sessionMibPerMin (1024 * 1024)) 1⟩

def ContentGate.fromCaps (store : CredentialStore) (caps : Caps) : ContentGate :=
  .new store caps.maxExpirySecs caps.sessionRps caps.sessionMibPerMin

def validSession (s : Text) : Bool :=
  s ≠ [] ∧ (utf8 s).length ≤ sessionMaxLen ∧ (utf8 s).all fun b => 0x20 ≤ b ∧ b ≤ 0x7E ∧ b ≠ 0x27

def deny (reason : Reason) : ContentDecision := .deny reason.status reason.asStr

/-- The raw path and the query, which is empty when there is none. -/
def splitQuery (pathAndQuery : Text) : Text × Text :=
  (splitOnce '?' pathAndQuery).getD (pathAndQuery, [])

def ContentRequest.rawPath (request : ContentRequest) : Text := (splitQuery request.pathAndQuery).1

def ContentRequest.query (request : ContentRequest) : Text := (splitQuery request.pathAndQuery).2

/-- The tenant's part of the path space. -/
def withinPrefix (keyPrefix : Option Text) (decodedPath : Text) : Bool :=
  match keyPrefix with
  | none => true
  | some allowed => (stripPrefix ['/'] decodedPath).any allowed.isPrefixOf

def budgetKey (credential session : Text) : Text := credential ++ '\x01' :: session

structure GateState where
  keys : KeyCache
  tables : SessionTables

section Gate
variable (hashes : Hashes) (decoder : Decoder) (formParse : Text → List (Text × Text))

def ContentRequest.decodedPath (request : ContentRequest) : Text := decoder.decode request.rawPath

/-- The input of the verifier: the resolved host and no header map. -/
def frontInput (request : ContentRequest) (pairs : List (Text × Text)) : VerifyInput :=
  verifyInput request.method (request.decodedPath decoder) request.rawPath pairs request.host none

/-- The checks behind a verified signature, up to the budgets. -/
def authorize (gate : ContentGate) (request : ContentRequest) (session : Option Text)
    (verified : VerifiedRequest) : Except Reason (Text × CredentialEntry) := do
  let marker ← need session .missingSession
  refuseIf (!validSession marker) .malformedSession
  refuseIf (gate.maxExpirySecs < verified.expiresSecs) .expiresTooLong
  let entry ← need (gate.store.lookup verified.accessKeyId) .unknownAccessKey
  refuseIf (!withinPrefix entry.keyPrefix (request.decodedPath decoder)) .outsideKeyPrefix
  .ok (marker, entry)

def charge (gate : ContentGate) (entry : CredentialEntry) (credential session : Text) (now : Int)
    (tables : SessionTables) : Except Reason Unit × SessionTables :=
  let rps := max (entry.sessionRps.getD (gate.defaultRps % 2 ^ 32)) 1
  let bytesPerMin := max ((entry.sessionMibPerMin.map (saturatingMul · (1024 * 1024))).getD
    gate.defaultBytesPerMin) 1
  admitSession tables (budgetKey credential session) now rps bytesPerMin

/-- `ContentGate::admit`. -/
def admits (gate : ContentGate) (request : ContentRequest) (now : Int) (state : GateState) :
    ContentDecision × GateState :=
  if maxQueryBytes < (utf8 request.query).length then (deny .malformedRequest, state)
  else
    let pairs := (formParse request.query).take (maxQueryPairs + 1)
    if maxQueryPairs < pairs.length then (deny .malformedRequest, state)
    else
      let session := queryGet pairs paramSession
      let (verdict, keys) := verifyOptional hashes (some gate.store) (frontInput decoder request pairs) now
        state.keys
      let state := { state with keys := keys }
      match verdict with
      | .anonymous => (deny .missingSignature, state)
      | .failed reason => (deny reason, state)
      | .verified verified =>
          match authorize decoder gate request session verified with
          | .error reason => (deny reason, state)
          | .ok (marker, entry) =>
              let (charged, tables) := charge gate entry verified.accessKeyId marker now state.tables
              let state := { state with tables := tables }
              match charged with
              | .error reason => (deny reason, state)
              | .ok () => (.allow verified.accessKeyId marker, state)

theorem authorize_ok (gate : ContentGate) (request : ContentRequest) (session : Option Text)
    (verified : VerifiedRequest) (marker : Text) (entry : CredentialEntry)
    (ok : authorize decoder gate request session verified = .ok (marker, entry)) :
    gate.store.lookup verified.accessKeyId = some entry ∧
      withinPrefix entry.keyPrefix (request.decodedPath decoder) = true := by
  simp only [authorize, bind_ok, need_ok, refuseIf_ok, Bool.not_eq_false'] at ok
  obtain ⟨_, _, _, _, _, _, found, known, _, inside, same⟩ := ok
  cases same
  exact ⟨known, inside⟩

/-- An admitted request carries a known credential and names a path under its prefix. -/
theorem admits_allow (gate : ContentGate) (request : ContentRequest) (now : Int) (state : GateState)
    (credential session : Text)
    (allowed : (admits hashes decoder formParse gate request now state).1 = .allow credential session) :
    ∃ entry, gate.store.lookup credential = some entry ∧
      withinPrefix entry.keyPrefix (request.decodedPath decoder) = true := by
  unfold admits at allowed
  split_ifs at allowed
  · cases allowed
  · simp only at allowed
    split_ifs at allowed
    · cases allowed
    · split at allowed
      · cases allowed
      · cases allowed
      · next verified _ =>
        split at allowed
        · cases allowed
        · next marker entry settled =>
          split at allowed
          · cases allowed
          · cases allowed
            exact ⟨entry, authorize_ok decoder gate request _ verified _ entry settled⟩

end Gate

end OriginCache.Request.ContentAuth
