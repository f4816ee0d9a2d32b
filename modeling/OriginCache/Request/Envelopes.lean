import OriginCache.Foundation.Markup
import OriginCache.Request.Business

/-! The XML envelopes of the business plane's errors. Every builder fills the same
template; they differ in the form of the path they write into it. -/

namespace OriginCache.Request.Envelopes
open Foundation.Markup Foundation.Percent Foundation.Splits ContentAuth Listing Business
open Cache.SegName (Text replaceChar)
open Cache.Key

/-! Request ids. -/

def idAlphabet : Text :=
  ['A', 'B', 'C', 'D', 'E', 'F', 'G', 'H', 'I', 'J', 'K', 'L', 'M', 'N', 'O', 'P', 'Q', 'R', 'S', 'T', 'U', 'V',
    'W', 'X', 'Y', 'Z', 'a', 'b', 'c', 'd', 'e', 'f', 'g', 'h', 'i', 'j', 'k', 'l', 'm', 'n', 'o', 'p', 'q', 'r',
    's', 't', 'u', 'v', 'w', 'x', 'y', 'z', '0', '1', '2', '3', '4', '5', '6', '7', '8', '9', '/', '+', ':']

/-- `{:016X}` of the low word. -/
def reqIdText (x : BitVec 128) : Text :=
  (List.range 16).map fun i => upperDigits.getD (x.toNat / 16 ^ (15 - i) % 16) '0'

def stir (x : BitVec 128) : BitVec 128 :=
  let x := x ^^^ (x <<< 13)
  let x := x ^^^ (x >>> 7)
  x ^^^ (x <<< 17)

def hostIdText : Nat → BitVec 128 → Text
  | 0, _ => []
  | k + 1, x => idAlphabet.getD ((stir x).toNat % 64) 'A' :: hostIdText k (stir x)

/-- The ids of the `n`th request, `nanos` after the epoch. -/
def requestIds (n nanos : Nat) : RequestIds :=
  let x := BitVec.ofNat 128 n * 0x9E3779B97F4A7C15#128 + BitVec.ofNat 128 nanos
  ⟨reqIdText x, hostIdText 76 x⟩

/-! The object pipeline's errors. -/

def jsonType : Text × Text := ("content-type".toList, "application/json".toList)

def errorResponse (e : BackendError) (key : Text) (ids : RequestIds) (headOnly : Bool) (sizeHint : Option Nat) :
    Response :=
  let xml (code message : String) := if headOnly then [] else s3ErrorXml code message (resourcePath key) ids []
  match e with
  | .notFound => envelope 404 (xml "NoSuchKey" "The specified key does not exist.") ids
  | .rangeNotSatisfiable =>
      let response := envelope 416 (xml "InvalidRange" "The requested range is not satisfiable.") ids
      { response with headers := response.headers ++ sizeHint.toList.map fun size =>
          ("content-range".toList, "bytes */".toList ++ numeral size) }
  | .rateLimited retryAfterMillis =>
      ⟨503, jsonType :: retryAfterMillis.toList.map fun ms => ("retry-after".toList, numeral (ms / 1000)),
        utf8 "\x7b\"error\":\"upstream rate limited\"\x7d".toList⟩
  | _ => ⟨502, [jsonType], utf8 "\x7b\"error\":\"upstream error\"\x7d".toList⟩

/-! The faults that are answered with an envelope, and what each writes into it. -/

inductive Fault
  | signature
  | argument (e : ListParamError)
  | noSuchBucket
  | listingDenied
  | listingFailed
  | invalidKey
  | noSuchKey
  | invalidRange
deriving DecidableEq, Repr

def Fault.code : Fault → String
  | .signature | .listingDenied => "AccessDenied"
  | .argument _ => "InvalidArgument"
  | .noSuchBucket => "NoSuchBucket"
  | .listingFailed => "InternalError"
  | .invalidKey => "InvalidRequest"
  | .noSuchKey => "NoSuchKey"
  | .invalidRange => "InvalidRange"

def Fault.message : Fault → String
  | .signature | .listingDenied => "Access Denied"
  | .argument e => e.message
  | .noSuchBucket => "The specified bucket does not exist"
  | .listingFailed => "We encountered an internal error. Please try again."
  | .invalidKey => "The request key is invalid."
  | .noSuchKey => "The specified key does not exist."
  | .invalidRange => "The requested range is not satisfiable."

def Fault.extra (key : Text) : Fault → List (String × Text)
  | .argument e => [("ArgumentName", e.argument.toList)]
  | .noSuchBucket => [("BucketName", xmlEscape (((trimSlashes key).splitOn '/').headD []))]
  | _ => []

/-- The gate writes the path as it was sent, a listing the decoded path, and only the
object pipeline an escaped one. -/
def Fault.resource (raw key : Text) : Fault → Text
  | .signature => '/' :: raw
  | .argument _ | .noSuchBucket | .listingDenied | .listingFailed => '/' :: trimSlashes key ++ ['/']
  | .invalidKey | .noSuchKey | .invalidRange => resourcePath key

def Fault.body (fault : Fault) (raw key : Text) (ids : RequestIds) : Text :=
  s3ErrorXml fault.code fault.message (fault.resource raw key) ids (fault.extra key)

/-! Every envelope the plane answers with is the body of a fault. -/

section Answers
variable {decoder : Decoder} {Cached : Type} (plane : Plane decoder Cached)

theorem sigv4Gate_fault (method : Text) (forwarded : Forwarded) (moment : Moment) (response : Response) (key : Text)
    (refused : sigv4Gate plane method forwarded moment = some response) :
    response.body = utf8 (Fault.signature.body forwarded.request.rawPath key moment.ids) := by
  unfold sigv4Gate at refused
  cases configured : plane.store with
  | none =>
    rw [configured] at refused
    cases refused
  | some store =>
    rw [configured] at refused
    simp only at refused
    split at refused
    · cases refused
    · split at refused
      · cases refused
      · cases refused
      · rw [← Option.some.inj refused]
        rfl

theorem dispatch_fault (wire : Wire) (routes : RouteTable) (upstreams backends : List Text) (raw key query : Text)
    (ids : RequestIds) (response : Response)
    (refused : dispatch wire routes upstreams backends key query ids = .refused response) :
    ∃ fault : Fault, response.body = utf8 (fault.body raw key ids) := by
  unfold dispatch at refused
  cases parsed : ListParams.parse wire query with
  | error e =>
    rw [parsed] at refused
    rw [← Dispatch.refused.inj refused]
    exact ⟨.argument e, rfl⟩
  | ok params =>
    rw [parsed] at refused
    simp only at refused
    split_ifs at refused
    cases found : resolveListBucket key routes upstreams with
    | none =>
      rw [found] at refused
      rw [← Dispatch.refused.inj refused]
      exact ⟨.noSuchBucket, rfl⟩
    | some bucket =>
      rw [found] at refused
      simp only at refused
      split_ifs at refused
      rw [← Dispatch.refused.inj refused]
      exact ⟨.noSuchBucket, rfl⟩

theorem listPage_fault (wire : Wire) (bucket : Text) (params : ListParams) (raw key : Text) (ids : RequestIds)
    (entries : Except BackendError (List ListEntry)) :
    (∃ fault : Fault, (listPage wire bucket params key ids entries).body = utf8 (fault.body raw key ids)) ∨
      ∃ page resume, listPage wire bucket params key ids entries = renderPage wire bucket params page resume ids := by
  unfold listPage
  split
  · exact .inl ⟨.listingDenied, rfl⟩
  · exact .inl ⟨.listingFailed, rfl⟩
  · simp only
    split
    · exact .inl ⟨.argument .continuationToken, rfl⟩
    · exact .inr ⟨_, _, rfl⟩
    · exact .inr ⟨_, _, rfl⟩

theorem errorResponse_fault (e : BackendError) (raw key : Text) (ids : RequestIds) (sizeHint : Option Nat) :
    (∃ fault : Fault, (errorResponse e key ids false sizeHint).body = utf8 (fault.body raw key ids)) ∨
      jsonType ∈ (errorResponse e key ids false sizeHint).headers := by
  cases e with
  | notFound => exact .inl ⟨.noSuchKey, rfl⟩
  | rangeNotSatisfiable => exact .inl ⟨.invalidRange, rfl⟩
  | rateLimited retryAfterMillis => exact .inr List.mem_cons_self
  | serverError => exact .inr List.mem_cons_self
  | authRequired => exact .inr List.mem_cons_self
  | other => exact .inr List.mem_cons_self

/-- A GET is answered with a fault's envelope, a listing page, or what the object
pipeline makes of a resolved key. -/
theorem getKey_fault (world : World Cached) (forwarded : Forwarded) (key : Text) (moment : Moment) :
    (∃ fault : Fault, (getKey plane world forwarded key moment).body =
        utf8 (fault.body forwarded.request.rawPath key moment.ids)) ∨
      (∃ bucket params page resume, getKey plane world forwarded key moment =
        renderPage plane.wire bucket params page resume moment.ids) ∨
      ∃ rk cached file, resolveKey key plane.routes plane.backends = .ok rk ∧
        getKey plane world forwarded key moment = plane.pipeline false forwarded.headers rk cached file := by
  unfold getKey
  cases gate : sigv4Gate plane methodGet forwarded moment with
  | some response => exact .inl ⟨.signature, sigv4Gate_fault plane _ _ _ response key gate⟩
  | none =>
    simp only
    cases sent : dispatch plane.wire plane.routes plane.upstreams plane.backends key forwarded.request.query
        moment.ids with
    | refused response => exact .inl (dispatch_fault _ _ _ _ _ _ _ _ _ sent)
    | listing bucket params =>
      rcases listPage_fault plane.wire bucket params forwarded.request.rawPath key moment.ids _ with failed | shown
      · exact .inl failed
      · obtain ⟨page, resume, same⟩ := shown
        exact .inr (.inl ⟨bucket, params, page, resume, same⟩)
    | object =>
      simp only [objectAnswer]
      cases resolved : resolveKey key plane.routes plane.backends with
      | error e => exact .inl ⟨.invalidKey, rfl⟩
      | ok rk => exact .inr (.inr ⟨rk, _, _, rfl, rfl⟩)

end Answers

/-! What is escaped. -/

theorem inert_alphabet (alphabet text : Text) (plain : '<' ∉ alphabet ∧ '>' ∉ alphabet ∧ '&' ∉ alphabet)
    (within : ∀ c ∈ text, c ∈ alphabet) : Inert text :=
  inert_plain text (fun member => plain.1 (within _ member)) (fun member => plain.2.1 (within _ member))
    fun member => plain.2.2 (within _ member)

theorem inert_reqId (x : BitVec 128) : Inert (reqIdText x) := by
  apply inert_alphabet upperDigits _ (by decide)
  intro c member
  obtain ⟨i, -, rfl⟩ := List.mem_map.mp member
  have digit : ∀ n, n < 16 → upperDigits.getD n '0' ∈ upperDigits := by decide
  exact digit _ (Nat.mod_lt _ (by decide))

theorem inert_hostId (k : Nat) (x : BitVec 128) : Inert (hostIdText k x) := by
  apply inert_alphabet idAlphabet _ (by decide)
  intro c member
  induction k generalizing x with
  | zero => exact absurd member List.not_mem_nil
  | succ k ih =>
    rcases List.mem_cons.mp member with rfl | later
    · have letter : ∀ n, n < 64 → idAlphabet.getD n 'A' ∈ idAlphabet := by decide +kernel
      exact letter _ (Nat.mod_lt _ (by decide))
    · exact ih (stir x) later

theorem inert_xmlEscape (text : Text) : Inert (xmlEscape text) := by
  apply inert_flatMap
  intro c
  unfold xmlEscapeChar
  split_ifs with amp lt gt quote apos
  · exact inert_entity ['a', 'm', 'p', ';'] (by decide)
  · exact inert_entity ['l', 't', ';'] (by decide)
  · exact inert_entity ['g', 't', ';'] (by decide)
  · exact inert_entity ['q', 'u', 'o', 't', ';'] (by decide)
  · exact inert_entity ['a', 'p', 'o', 's', ';'] (by decide)
  · apply inert_plain
    · exact fun member => lt (List.mem_singleton.mp member).symm
    · exact fun member => gt (List.mem_singleton.mp member).symm
    · exact fun member => amp (List.mem_singleton.mp member).symm

/-- Three replacements, one after the other, escape each character by itself. -/
theorem inert_resourcePath (key : Text) : Inert (resourcePath key) := by
  unfold resourcePath
  simp only [replaceChar, List.flatMap_assoc]
  apply Inert.append ['/'] _ (inert_plain _ (by decide) (by decide) (by decide))
  apply inert_flatMap
  intro c
  by_cases amp : c = '&'
  · subst amp
    exact inert_entity ['a', 'm', 'p', ';'] (by decide)
  · by_cases lt : c = '<'
    · subst lt
      exact inert_entity ['l', 't', ';'] (by decide)
    · by_cases gt : c = '>'
      · subst gt
        exact inert_entity ['g', 't', ';'] (by decide)
      · simp only [amp, lt, gt, if_false, List.flatMap_cons, List.flatMap_nil, List.append_nil]
        apply inert_plain
        · exact fun member => lt (List.mem_singleton.mp member).symm
        · exact fun member => gt (List.mem_singleton.mp member).symm
        · exact fun member => amp (List.mem_singleton.mp member).symm

/-! The template. -/

def declaration : Text := "<?xml version=\"1.0\" encoding=\"UTF-8\"?>".toList
def openError : Text := ("<" ++ "Error" ++ ">").toList
def closeError : Text := ("</" ++ "Error" ++ ">").toList
def openResource : Text := ("<" ++ "Resource" ++ ">").toList
def closeResource : Text := ("</" ++ "Resource" ++ ">").toList

def extraXml (extra : List (String × Text)) : Text := extra.flatMap fun pair => element pair.1 pair.2

/-- Everything before the resource. -/
def envelopeFront (code message : String) (extra : List (String × Text)) : Text :=
  declaration ++ openError ++ element "Code" code.toList ++ element "Message" message.toList ++ extraXml extra ++
    openResource

def envelopeBack (ids : RequestIds) : Text :=
  closeResource ++ element "RequestId" ids.reqId ++ element "HostId" ids.hostId ++ closeError

theorem s3ErrorXml_split (code message : String) (resource : Text) (ids : RequestIds) (extra : List (String × Text)) :
    s3ErrorXml code message resource ids extra = envelopeFront code message extra ++ resource ++ envelopeBack ids := by
  have regroup (start opens first second third before inner after fourth fifth closes : Text) :
      start ++ (opens ++ (first ++ second ++ third ++ (before ++ inner ++ after) ++ fourth ++ fifth) ++ closes) =
        (start ++ opens ++ first ++ second ++ third ++ before) ++ inner ++ (after ++ fourth ++ fifth ++ closes) := by
    simp only [List.append_assoc]
  exact regroup declaration openError (element "Code" code.toList) (element "Message" message.toList)
    (extraXml extra) openResource resource closeResource (element "RequestId" ids.reqId) (element "HostId" ids.hostId)
    closeError

theorem referenced_element (name : String) (inner : Text) (plain : '&' ∉ name.toList) (fits : Referenced inner) :
    Referenced (element name inner) := by
  have opening : '&' ∉ ("<" ++ name ++ ">").toList := by simp [plain]
  have closing : '&' ∉ ("</" ++ name ++ ">").toList := by simp [plain]
  exact ((referenced_free _ opening).append _ _ fits).append _ _ (referenced_free _ closing)

theorem angles_element (name : String) (inner other : Text) (one : angles inner = []) (two : angles other = []) :
    angles (element name inner) = angles (element name other) := by
  simp only [element, angles_append, one, two]

/-- Every `<` and `>` of a body stands where its template has one, and every `&` begins a
predefined entity. -/
structure Escaped (body template : Text) : Prop where
  tags : angles body = angles template
  references : Referenced body

/-- What the template is filled with besides the path. -/
theorem fault_plain (fault : Fault) : Inert fault.code.toList ∧ Inert fault.message.toList := by
  constructor
  · apply inert_bare
    cases fault with
    | argument e =>
      change bare "InvalidArgument".toList = true
      decide +kernel
    | _ => decide +kernel
  · apply inert_bare
    cases fault with
    | argument e => cases e <;> decide +kernel
    | _ => decide +kernel

theorem argument_plain (e : ListParamError) : Inert e.argument.toList := by
  apply inert_bare
  cases e <;> decide +kernel

theorem angles_extra (fault : Fault) (key other : Text) :
    angles (extraXml (fault.extra key)) = angles (extraXml (fault.extra other)) := by
  cases fault with
  | noSuchBucket =>
    simp only [Fault.extra, extraXml, List.flatMap_cons, List.flatMap_nil, List.append_nil]
    exact angles_element _ _ _ (inert_xmlEscape _).angles (inert_xmlEscape _).angles
  | _ => rfl

theorem referenced_extra (fault : Fault) (key : Text) :
    Referenced (extraXml (fault.extra key)) := by
  cases fault with
  | argument e =>
    simp only [Fault.extra, extraXml, List.flatMap_cons, List.flatMap_nil, List.append_nil]
    exact referenced_element _ _ (by decide) (argument_plain e).referenced
  | noSuchBucket =>
    simp only [Fault.extra, extraXml, List.flatMap_cons, List.flatMap_nil, List.append_nil]
    exact referenced_element _ _ (by decide) (inert_xmlEscape _).referenced
  | _ => exact inert_nil.referenced

theorem angles_front (fault : Fault) (key other : Text) :
    angles (envelopeFront fault.code fault.message (fault.extra key)) =
      angles (envelopeFront fault.code fault.message (fault.extra other)) := by
  simp only [envelopeFront, angles_append, angles_extra fault key other]

theorem referenced_front (fault : Fault) (key : Text) :
    Referenced (envelopeFront fault.code fault.message (fault.extra key)) := by
  obtain ⟨code, message⟩ := fault_plain fault
  unfold envelopeFront
  apply Referenced.append
  · apply Referenced.append
    · apply Referenced.append
      · apply Referenced.append
        · exact referenced_free _ (by decide)
        · exact referenced_element _ _ (by decide) code.referenced
      · exact referenced_element _ _ (by decide) message.referenced
    · exact referenced_extra fault key
  · exact referenced_free _ (by decide)

theorem referenced_back (n nanos : Nat) : Referenced (envelopeBack (requestIds n nanos)) := by
  unfold envelopeBack
  apply Referenced.append
  · apply Referenced.append
    · apply Referenced.append
      · exact referenced_free _ (by decide)
      · exact referenced_element _ _ (by decide) (inert_reqId _).referenced
    · exact referenced_element _ _ (by decide) (inert_hostId _ _).referenced
  · exact referenced_free _ (by decide)

theorem envelopeBack_stop (ids : RequestIds) : ∃ rest, envelopeBack ids = '<' :: rest := by
  have opens : closeResource = '<' :: closeResource.tail := by decide
  exact ⟨closeResource.tail ++ element "RequestId" ids.reqId ++ element "HostId" ids.hostId ++ closeError,
    congrArg (fun text => text ++ element "RequestId" ids.reqId ++ element "HostId" ids.hostId ++ closeError) opens⟩

/-- The path of the request as the builder writes it carries no markup. -/
def Fault.Spared (raw key : Text) : Fault → Prop
  | .signature => Inert raw
  | .argument _ | .noSuchBucket | .listingDenied | .listingFailed => Inert (trimSlashes key)
  | .invalidKey | .noSuchKey | .invalidRange => True

theorem inert_slash (text : Text) : Inert ('/' :: text) ↔ Inert text := by
  constructor
  · intro whole
    refine ⟨?_, whole.referenced.suffix ['/'] text⟩
    have bare := whole.angles
    rwa [← List.singleton_append, angles_append] at bare
  · exact (inert_plain ['/'] (by decide) (by decide) (by decide)).append ['/'] text

theorem inert_slashed (text : Text) : Inert ('/' :: text ++ ['/']) ↔ Inert text := by
  have slash : Inert ['/'] := inert_plain _ (by decide) (by decide) (by decide)
  constructor
  · intro whole
    constructor
    · have bare := whole.angles
      rw [angles_append, slash.angles, List.append_nil, ← List.singleton_append, angles_append] at bare
      exact bare
    · exact Referenced.hole ['/'] text [] '/' (by decide) whole.referenced
  · intro inner
    exact ((inert_slash text).mpr inner).append _ _ slash

theorem inert_resource (fault : Fault) (raw key : Text) : Inert (fault.resource raw key) ↔ fault.Spared raw key := by
  cases fault with
  | signature => exact inert_slash raw
  | argument e => exact inert_slashed (trimSlashes key)
  | noSuchBucket => exact inert_slashed (trimSlashes key)
  | listingDenied => exact inert_slashed (trimSlashes key)
  | listingFailed => exact inert_slashed (trimSlashes key)
  | invalidKey => exact iff_of_true (inert_resourcePath key) trivial
  | noSuchKey => exact iff_of_true (inert_resourcePath key) trivial
  | invalidRange => exact iff_of_true (inert_resourcePath key) trivial

/-- The body and its template differ in what fills the hole. -/
theorem template_hole (fault : Fault) (raw key : Text) (ids : RequestIds) :
    angles (fault.body raw key ids) = angles (fault.body [] [] ids) ↔ angles (fault.resource raw key) = [] := by
  have blank : angles (fault.resource [] []) = [] := by
    apply ((inert_resource fault [] []).mpr _).angles
    cases fault <;> first | exact inert_nil | trivial
  rw [← angles_hole_iff (envelopeFront fault.code fault.message (fault.extra key)) (fault.resource raw key)
    (fault.resource [] []) (envelopeBack ids) blank]
  simp only [Fault.body, s3ErrorXml_split, angles_append, angles_front fault [] key]

theorem inert_of_escaped (fault : Fault) (raw key : Text) (ids : RequestIds)
    (escaped : Escaped (fault.body raw key ids) (fault.body [] [] ids)) : Inert (fault.resource raw key) := by
  obtain ⟨tags, references⟩ := escaped
  obtain ⟨rest, stop⟩ := envelopeBack_stop ids
  rw [Fault.body, s3ErrorXml_split, stop] at references
  exact ⟨(template_hole fault raw key ids).mp tags, references.hole _ _ _ '<' (by decide)⟩

/-- An envelope is escaped exactly when its builder escapes the path, as the object
pipeline's does, or the path it is given has nothing to escape. -/
theorem body_escaped_iff (fault : Fault) (raw key : Text) (n nanos : Nat) :
    Escaped (fault.body raw key (requestIds n nanos)) (fault.body [] [] (requestIds n nanos)) ↔
      fault.Spared raw key := by
  rw [← inert_resource]
  constructor
  · exact inert_of_escaped fault raw key (requestIds n nanos)
  · intro inert
    constructor
    · exact (template_hole fault raw key (requestIds n nanos)).mpr inert.angles
    · rw [Fault.body, s3ErrorXml_split]
      exact ((referenced_front fault key).append _ _ inert.referenced).append _ _ (referenced_back n nanos)

def markedPath : Text := ['/', '%', '3', 'C', 'y', '%', '3', 'E']
def markedKey : Text := ['<', 'y', '>']

/-- `GET /%3Cy%3E?max-keys=-1` is answered with an envelope that holds a tag of the client's. -/
theorem marked_unescaped : decodeLossy markedPath = '/' :: markedKey ∧
    ¬ Escaped ((Fault.argument .maxKeysNegative).body markedPath markedKey (requestIds 1 0))
      ((Fault.argument .maxKeysNegative).body [] [] (requestIds 1 0)) := by
  refine ⟨?_, fun escaped => ?_⟩
  · have encoded : markedPath = encode (fun b => b = 0x2F ∨ b = 0x79) ('/' :: markedKey) := by decide
    have plain : Plain fun b => b = 0x2F ∨ b = 0x79 := by
      intro b kept
      rcases of_decide_eq_true kept with rfl | rfl <;> decide
    rw [encoded]
    exact lossy.decode_encode _ plain _
  · have inert := inert_of_escaped _ _ _ _ escaped
    exact absurd inert.angles (by decide)

end OriginCache.Request.Envelopes
