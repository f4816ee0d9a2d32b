import OriginCache.Backend.OpenList
import OriginCache.Cache.Serving
import OriginCache.Request.Hosts

/-! The links a viewer may be sent to instead of being served: how the backend asks for
one, what it refuses, and what the cache makes of it. The link service and the probed
host may answer anything. -/

namespace OriginCache.Backend.Links
open Foundation.Splits Request.Hosts Request.Listing
open Cache.SegName (Text)
open Cache.DiskHit (ByteRange)
open Cache.Serving (Site Node Surroundings ResolvedKey ServeOutcome serve memoryHitFresh legalLink)

def davPath (rootPath : Option Text) (key : Text) : Text :=
  let root := (rootPath.map trimSlashes).getD []
  if root = [] then '/' :: key else '/' :: root ++ '/' :: key

/-- Scheme and authority. -/
def urlOrigin (url : Text) : Option Text :=
  (splitScheme url).bind fun (scheme, rest) =>
    if before '/' rest = [] then none else some (scheme ++ [':', '/', '/'] ++ before '/' rest)

/-- The authority, in lower case. -/
def urlHost (url : Text) : Option Text :=
  (splitScheme url).bind fun (_, rest) =>
    if before '/' rest = [] then none else some ((before '/' rest).map Char.toLower)

structure OpenListBackend where
  baseUrl : Text
  rootPath : Option Text
  apiToken : Option Text

structure HttpRequest where
  method : Text
  url : Text
  headers : List (Text × Text)
  path : Option Text
deriving DecidableEq, Repr

inductive LinkAnswer
  | unreachable (error : Text)
  | undecoded (error : Text)
  | decoded (code : Int) (url : Option Text)

/-- What the link service and a probed host answer; a probe tells the status and the URL
it ended at. -/
structure Web where
  link : HttpRequest → LinkAnswer
  probe : HttpRequest → Except Text (Nat × Text)

inductive NoLink
  | noToken | badBase | unreachable (error : Text) | undecoded (error : Text) | code (n : Int) | empty | relative
  | selfReferential | policy | probeUnreachable (error : Text) | probeStatus (status : Nat)
deriving DecidableEq, Repr

def signed (n : Int) : Text := if n < 0 then '-' :: numeral n.natAbs else numeral n.natAbs

def NoLink.why : NoLink → Text
  | .noToken => "no link token".toList
  | .badBase => "bad base_url".toList
  | .unreachable error => "link api unreachable: ".toList ++ error
  | .undecoded error => "link decode: ".toList ++ error
  | .code n => "link api code ".toList ++ signed n
  | .empty => "empty link url".toList
  | .relative => "relative link url".toList
  | .selfReferential => "self-referential link url".toList
  | .policy => "link target fails redirect policy".toList
  | .probeUnreachable error => "probe unreachable: ".toList ++ error
  | .probeStatus status => "probe status ".toList ++ numeral status

def NoLink.message (fault : NoLink) : Text := "openlist: no direct link (".toList ++ fault.why ++ [')']

section Links
variable (backend : OpenListBackend) (web : Web) (key : Text) (viewerUa : Option Text)

def authorization : Text := "authorization".toList

def agentHeader : List (Text × Text) := (viewerUa.map fun ua => ("user-agent".toList, ua)).toList

def linkUrl (api : Text) : Text := api ++ "/api/fs/link".toList

def linkRequest (api token : Text) : HttpRequest :=
  ⟨"POST".toList, linkUrl api, (authorization, token) :: agentHeader viewerUa, some (davPath backend.rootPath key)⟩

def probeRequest (url : Text) : HttpRequest :=
  ⟨"GET".toList, url, ("range".toList, "bytes=0-0".toList) :: agentHeader viewerUa, none⟩

/-- A link without a scheme is an https link. -/
def absolute (url : Text) : Text :=
  match stripPrefix ['/', '/'] url with
  | some rest => https ++ [':', '/', '/'] ++ rest
  | none => url

/-- The link of an answer, if a viewer may be sent there. -/
def targetOf (api : Text) : LinkAnswer → Except NoLink Text
  | .unreachable error => .error (.unreachable error)
  | .undecoded error => .error (.undecoded error)
  | .decoded code given =>
      if code ≠ 200 then .error (.code code)
      else
        if given.getD [] = [] then .error .empty
        else
          let url := absolute (given.getD [])
          match urlHost url with
          | none => .error .relative
          | some host =>
              if host = (urlHost api).getD [] then .error .selfReferential
              else if redirectTargetAllowed url then .ok url
              else .error .policy

/-- The requests that are sent, and the URL a probe ended at with a 206. -/
def directUrl : List HttpRequest × Except NoLink Text :=
  match backend.apiToken.filter (· ≠ []) with
  | none => ([], .error .noToken)
  | some token =>
      match urlOrigin backend.baseUrl with
      | none => ([], .error .badBase)
      | some api =>
          let ask := linkRequest backend key viewerUa api token
          match targetOf api (web.link ask) with
          | .error fault => ([ask], .error fault)
          | .ok url =>
              let probe := probeRequest viewerUa url
              ([ask, probe],
                match web.probe probe with
                | .error error => .error (.probeUnreachable error)
                | .ok (status, reached) => if status = 206 then .ok reached else .error (.probeStatus status))

/-- A value that a header can carry. -/
def headerLegal (text : Text) : Bool := text.all fun c => (32 ≤ c.toNat ∧ c.toNat < 127) ∨ c = '\t'

end Links

/-- The surroundings of a request, with the link its backend comes back with in time. -/
def offered (env : Surroundings) (backend : OpenListBackend) (web : Web) (rk : ResolvedKey) (viewerUa : Option Text)
    (inTime : Bool) : Surroundings :=
  { env with
    link := if inTime then (directUrl backend web rk.backendKey viewerUa).2.toOption else none
    redirectAllowed := fun url => redirectTargetAllowed url && headerLegal url }

/-! What a link has been through. -/

/-- Https, or plain http to a local host, and nobody's credentials in front of the host. -/
def Safe (url : Text) : Prop :=
  ∃ scheme rest, splitScheme url = some (scheme, rest) ∧ before '/' rest ≠ [] ∧ '@' ∉ before '/' rest ∧
    (scheme.map Char.toLower = https ∨ scheme.map Char.toLower = http ∧ LocalHost (hostOf (before '/' rest)))

theorem safe_iff (url : Text) : redirectTargetAllowed url = true ↔ Safe url := by
  cases parts : splitScheme url with
  | none =>
    have refused : redirectTargetAllowed url = false := by
      rw [redirectTargetAllowed, parts]
    rw [refused, Safe, parts]
    simp
  | some both =>
    obtain ⟨scheme, rest⟩ := both
    rw [redirectTargetAllowed_iff url scheme rest parts, Safe, parts]
    constructor
    · exact fun safe => ⟨scheme, rest, rfl, safe⟩
    · rintro ⟨_, _, same, safe⟩
      cases same
      exact safe

theorem targetOf_ok {api : Text} {answer : LinkAnswer} {url : Text} (given : targetOf api answer = .ok url) :
    Safe url ∧ ∃ host, urlHost url = some host ∧ host ≠ (urlHost api).getD [] := by
  cases answer with
  | unreachable error => cases given
  | undecoded error => cases given
  | decoded code link =>
    rw [targetOf] at given
    by_cases bad : code ≠ 200
    · rw [if_pos bad] at given
      cases given
    · rw [if_neg bad] at given
      by_cases empty : link.getD [] = []
      · rw [if_pos empty] at given
        cases given
      · rw [if_neg empty] at given
        cases named : urlHost (absolute (link.getD [])) with
        | none =>
          simp only [named] at given
          cases given
        | some host =>
          simp only [named] at given
          split_ifs at given with own allowed
          cases given
          exact ⟨(safe_iff _).mp allowed, host, named, own⟩

section Relief
variable (backend : OpenListBackend) (web : Web) (key : Text) (viewerUa : Option Text)

/-- What comes of asking for a link: nothing, or a URL that a probe of a safe foreign
target ended at with a 206. -/
theorem directUrl_ok {reached : Text} (found : (directUrl backend web key viewerUa).2 = .ok reached) :
    ∃ api target host, urlOrigin backend.baseUrl = some api ∧ Safe target ∧ urlHost target = some host ∧
      host ≠ (urlHost api).getD [] ∧ web.probe (probeRequest viewerUa target) = .ok (206, reached) := by
  unfold directUrl at found
  cases token : backend.apiToken.filter (· ≠ []) with
  | none =>
    simp only [token] at found
    cases found
  | some secret =>
    cases origin : urlOrigin backend.baseUrl with
    | none =>
      simp only [token, origin] at found
      cases found
    | some api =>
      cases accepted : targetOf api (web.link (linkRequest backend key viewerUa api secret)) with
      | error fault =>
        simp only [token, origin, accepted] at found
        cases found
      | ok target =>
        simp only [token, origin, accepted] at found
        obtain ⟨safe, host, named, foreign⟩ := targetOf_ok accepted
        cases probed : web.probe (probeRequest viewerUa target) with
        | error error =>
          simp only [probed] at found
          cases found
        | ok answer =>
          simp only [probed] at found
          split_ifs at found with partial_
          cases found
          exact ⟨api, target, host, rfl, safe, named, foreign, partial_ ▸ probed⟩

/-- The token goes to the link service of the configured origin, and nowhere else. -/
theorem token_confined (request : HttpRequest) (sent : request ∈ (directUrl backend web key viewerUa).1) (value : Text)
    (bears : (authorization, value) ∈ request.headers) :
    ∃ api, urlOrigin backend.baseUrl = some api ∧ request.url = linkUrl api := by
  have agent : (authorization, value) ∉ agentHeader viewerUa := by
    unfold agentHeader
    cases viewerUa with
    | none => exact List.not_mem_nil
    | some ua =>
      intro member
      have named : authorization = "user-agent".toList := congrArg Prod.fst (List.mem_singleton.mp member)
      exact absurd named (by decide)
  have probes (url : Text) : (authorization, value) ∉ (probeRequest viewerUa url).headers := by
    intro member
    rcases List.mem_cons.mp member with range | other
    · have named : authorization = "range".toList := congrArg Prod.fst range
      exact absurd named (by decide)
    · exact agent other
  unfold directUrl at sent
  cases token : backend.apiToken.filter (· ≠ []) with
  | none =>
    simp only [token] at sent
    cases sent
  | some secret =>
    cases origin : urlOrigin backend.baseUrl with
    | none =>
      simp only [token, origin] at sent
      cases sent
    | some api =>
      refine ⟨api, rfl, ?_⟩
      cases accepted : targetOf api (web.link (linkRequest backend key viewerUa api secret)) with
      | error fault =>
        simp only [token, origin, accepted, List.mem_singleton] at sent
        rw [sent]
        rfl
      | ok target =>
        simp only [token, origin, accepted, List.mem_cons, List.not_mem_nil, or_false] at sent
        rcases sent with rfl | rfl
        · rfl
        · exact absurd bears (probes target)

end Relief

/-- The site without its relief valve. -/
def shut (site : Site) : Site := { site with redirectCapable := false }

theorem serve_shut (site : Site) (env : Surroundings) (rk : ResolvedKey) (range : Option ByteRange) (node : Node) :
    serve site env rk range node =
      match if site.redirectCapable && !memoryHitFresh site env rk node.cache then legalLink env else none with
      | some location => .ok (.redirect location)
      | none => serve (shut site) env rk range node := rfl

theorem legalLink_offered {env : Surroundings} {backend : OpenListBackend} {web : Web} {rk : ResolvedKey}
    {viewerUa : Option Text} {inTime : Bool} {location : Text}
    (given : legalLink (offered env backend web rk viewerUa inTime) = some location) :
    inTime = true ∧ (directUrl backend web rk.backendKey viewerUa).2 = .ok location ∧
      Safe location ∧ headerLegal location = true := by
  obtain ⟨found, allowed⟩ := Option.filter_eq_some_iff.mp given
  simp only [offered] at found allowed
  obtain ⟨safe, legal⟩ := Bool.and_eq_true_iff.mp allowed
  split_ifs at found with timely
  cases answer : (directUrl backend web rk.backendKey viewerUa).2 with
  | error fault =>
    rw [answer] at found
    cases found
  | ok reached =>
    rw [answer] at found
    cases found
    exact ⟨timely, rfl, (safe_iff location).mp safe, legal⟩

/-- A viewer is sent only to where a probe of a safe foreign link ended with a 206, and
only if that is safe too; otherwise the answer is the one without the valve. -/
theorem relief_safe (site : Site) (env : Surroundings) (rk : ResolvedKey) (range : Option ByteRange) (node : Node)
    (backend : OpenListBackend) (web : Web) (viewerUa : Option Text) (inTime : Bool) :
    (serve site (offered env backend web rk viewerUa inTime) rk range node =
        serve (shut site) (offered env backend web rk viewerUa inTime) rk range node ∨
      ∃ location api target host, serve site (offered env backend web rk viewerUa inTime) rk range node =
          .ok (.redirect location) ∧
        site.redirectCapable = true ∧
        memoryHitFresh site (offered env backend web rk viewerUa inTime) rk node.cache = false ∧
        inTime = true ∧ Safe location ∧ headerLegal location = true ∧
        urlOrigin backend.baseUrl = some api ∧ Safe target ∧ urlHost target = some host ∧
        host ≠ (urlHost api).getD [] ∧ web.probe (probeRequest viewerUa target) = .ok (206, location)) ∧
    ∀ request ∈ (directUrl backend web rk.backendKey viewerUa).1, ∀ value, (authorization, value) ∈ request.headers →
      ∃ api, urlOrigin backend.baseUrl = some api ∧ request.url = linkUrl api := by
  refine ⟨?_, token_confined backend web rk.backendKey viewerUa⟩
  rw [serve_shut site]
  cases gate : site.redirectCapable &&
      !memoryHitFresh site (offered env backend web rk viewerUa inTime) rk node.cache with
  | false => exact .inl rfl
  | true =>
    obtain ⟨capable, stale⟩ := Bool.and_eq_true_iff.mp gate
    cases link : legalLink (offered env backend web rk viewerUa inTime) with
    | none => exact .inl rfl
    | some location =>
      obtain ⟨timely, found, safe, legal⟩ := legalLink_offered link
      obtain ⟨api, target, host, origin, first, named, foreign, probed⟩ :=
        directUrl_ok backend web rk.backendKey viewerUa found
      have old := (Bool.not_eq_true' _).mp stale
      exact .inr ⟨location, api, target, host, rfl, capable, old, timely, safe, legal, origin, first, named, foreign,
        probed⟩

/-- A link without a scheme, whose host sends on to another one. -/
example : (directUrl ⟨"http://127.0.0.1:5244/dav".toList, none, some ['t']⟩
    ⟨fun _ => .decoded 200 (some "//disk.example/f".toList), fun _ => .ok (206, "https://cdn.example/f".toList)⟩
    ['k'] none).2 = .ok "https://cdn.example/f".toList := by
  decide

end OriginCache.Backend.Links
