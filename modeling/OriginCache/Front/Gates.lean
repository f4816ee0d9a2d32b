import OriginCache.Request.ContentAuth
import OriginCache.Request.Hosts

/-! The front's door: the gates, and the order in which a request passes them. The
policy behind the content gate, the counter of the rate ceiling and the networks that
the lists are parsed into are parameters. -/

namespace OriginCache.Front.Gates
open Cache.SegName (Text)
open Request.ContentAuth (ContentRequest)
open Request.Hosts (IpAddr toIpv4Mapped)
open Request.Canonical (constantTimeEq constantTimeEq_iff)

structure FrontOptions where
  ipAllow : List Text
  rateRps : Option Nat
  originToken : Option (Text × List UInt8)
  originTokenExempt : List Text
  contentAuth : Bool
  contentAuthExempt : List Text

/-- What the networks and the header names are read with. -/
structure Networks (Net : Type) where
  cidr : Text → Option Net
  host : IpAddr → Net
  contains : Net → IpAddr → Bool
  headerName : Text → Option Text

inductive ContentDecision
  | allow (credential : Text) (session : Option Text)
  | deny (status : Nat) (reason : String)
deriving DecidableEq, Repr

/-- Who may read content, decided behind the front. -/
structure ContentPolicy (σ : Type) where
  admits : σ → ContentRequest → Int → ContentDecision × σ
  observe : σ → Text → Option Text → UInt64 → Int → σ

/-- The events of each peer inside a sliding window, the new one counted. -/
structure RateWindow (ρ : Type) where
  observe : ρ → IpAddr → Nat → Int × ρ

structure Identity where
  credential : Text
  session : Option Text
deriving DecidableEq, Repr

/-- No part of a request line holds a line break. -/
structure RequestHead where
  method : Text
  path : Text
  pathAndQuery : Text
  host : Option Text
  peer : Option IpAddr
  declaredLen : Option Nat
  headers : List (Text × List UInt8)
  oneMethod : '\n' ∉ method
  oneLine : '\n' ∉ pathAndQuery

inductive Verdict
  | serve (identity : Option Identity) | refuse (status : Nat) (reason : String)
deriving DecidableEq, Repr

def prewarmMaxBody : Nat := 64 * 1024

def internalPrefix : Text := ['/', '_', 'i', 'n', 't', 'e', 'r', 'n', 'a', 'l', '/']
def prewarmPrefix : Text := internalPrefix ++ ['p', 'r', 'e', 'w', 'a', 'r', 'm', '/']

def isPrewarm (path : Text) : Bool := prewarmPrefix.isPrefixOf path

def isInternal (path : Text) : Bool := internalPrefix.isPrefixOf path && !isPrewarm path

def header (headers : List (Text × List UInt8)) (name : Text) : Option (List UInt8) :=
  (headers.find? fun h => h.1 = name).map Prod.snd

/-- `HeaderValue::to_str`: visible ASCII, blanks and tabs. -/
def toStr (value : List UInt8) : Option Text :=
  if value.all fun b => (0x20 ≤ b ∧ b < 0x7F) ∨ b = 0x09 then some (value.map Cache.SegName.latin) else none

/-- The header, or the authority of the URI when there is none to read. -/
def requestHost (headers : List (Text × List UInt8)) (authority : Option Text) : Option Text :=
  ((header headers Request.Canonical.headerHost).bind toStr).or authority

/-! The lists. -/

inductive BootError
  | badCidr (text : Text) | badIp (text : Text) | emptyToken | badHeaderName (name : Text)
deriving DecidableEq, Repr

/-- An IPv4 peer of a dual-stack listener arrives in its mapped form. -/
def canonical : IpAddr → IpAddr
  | .v4 bits => .v4 bits
  | .v6 bits => ((toIpv4Mapped bits).map IpAddr.v4).getD (.v6 bits)

section Lists
variable {Net : Type} (networks : Networks Net)

def ipInAny (nets : List Net) (ip : IpAddr) : Bool := nets.any fun net => networks.contains net (canonical ip)

/-- A bare address is a network of its own. -/
def parseCidr (text : Text) : Except BootError Net :=
  if '/' ∈ text then
    match networks.cidr text with
    | some net => .ok net
    | none => .error (.badCidr text)
  else
    match IpAddr.parse text with
    | some ip => .ok (networks.host ip)
    | none => .error (.badIp text)

def parseCidrs (texts : List Text) : Except BootError (List Net) := texts.mapM (parseCidr networks)

/-- The connection-time gate. A peer without an address is not guessed to be blocked. -/
def shouldAccept (block : List Net) (peer : Option IpAddr) : Bool := peer.all fun ip => !ipInAny networks block ip

end Lists

/-! The gates. -/

structure OriginTokenGate (Net : Type) where
  header : Text
  value : List UInt8
  exempt : List Net
  filled : value ≠ []

structure RateGate (Net : Type) where
  rps : Nat
  exempt : List Net

/-- The lists of exempt peers stand beside the policy and the window. -/
structure Admission (Net : Type) where
  token : Option (OriginTokenGate Net)
  content : Option (List Net)
  rate : Option (RateGate Net)

structure Door (σ ρ : Type) where
  policy : σ
  window : ρ

/-- What the clocks say while a request is decided. -/
structure Moment where
  unix : Int
  instant : Nat

section Gates
variable {Net σ ρ : Type} (networks : Networks Net) (policy : ContentPolicy σ) (window : RateWindow ρ)

def OriginTokenGate.new (name : Text) (value : List UInt8) (exempt : List Net) :
    Except BootError (OriginTokenGate Net) :=
  if filled : value = [] then .error .emptyToken
  else
    match networks.headerName name with
    | none => .error (.badHeaderName name)
    | some header => .ok ⟨header, value, exempt, filled⟩

def Admission.fromOptions (options : FrontOptions) : Except BootError (Admission Net) := do
  let token ← match options.originToken with
    | none => .ok none
    | some (name, value) => do
        let exempt ← parseCidrs networks options.originTokenExempt
        (OriginTokenGate.new networks name value exempt).map some
  let content ← if options.contentAuth then (parseCidrs networks options.contentAuthExempt).map some else .ok none
  let rate ← match options.rateRps with
    | none => .ok none
    | some rps => (parseCidrs networks options.ipAllow).map fun exempt => some ⟨rps, exempt⟩
  .ok ⟨token, content, rate⟩

/-- A peer without an address is never exempt. -/
def OriginTokenGate.requires (gate : OriginTokenGate Net) (peer : Option IpAddr) : Bool :=
  !peer.any (ipInAny networks gate.exempt)

def OriginTokenGate.accepts (gate : OriginTokenGate Net) (headers : List (Text × List UInt8)) : Bool :=
  constantTimeEq ((Gates.header headers gate.header).getD []) gate.value

def contentRequest (head : RequestHead) : ContentRequest :=
  ⟨head.method, head.pathAndQuery, head.host, head.oneMethod, head.oneLine⟩

def methodGet : Text := ['G', 'E', 'T']
def methodHead : Text := ['H', 'E', 'A', 'D']

/-- Content reads by peers that are not exempt; a peer without an address never is. -/
def concerns (exempt : List Net) (head : RequestHead) : Bool :=
  (head.method = methodGet || head.method = methodHead) && !isInternal head.path &&
    !head.peer.any (ipInAny networks exempt)

/-- Nothing for a request that is not the gate's business. -/
def contentCheck (exempt : List Net) (head : RequestHead) (now : Int) (state : σ) : Option ContentDecision × σ :=
  if concerns networks exempt head then
    let answer := policy.admits state (contentRequest head) now
    (some answer.1, answer.2)
  else (none, state)

/-- A ceiling of zero is no ceiling. -/
def RateGate.exceeds (gate : RateGate Net) (peer : Option IpAddr) (now : Nat) (state : ρ) : Bool × ρ :=
  match peer with
  | none => (false, state)
  | some ip =>
      if ipInAny networks gate.exempt ip then (false, state)
      else if gate.rps = 0 then (false, state)
      else
        let counted := window.observe state ip now
        (gate.rps < counted.1, counted.2)

/-! The order. -/

variable (admission : Admission Net) (head : RequestHead)

def unstamped : Bool := admission.token.any fun gate => gate.requires networks head.peer && !gate.accepts head.headers

def oversized : Bool := isPrewarm head.path && head.declaredLen.any (prewarmMaxBody < ·)

def rateCheck (now : Nat) (state : ρ) : Bool × ρ :=
  match admission.rate with
  | none => (false, state)
  | some gate => gate.exceeds networks window head.peer now state

def ticketCheck (now : Int) (state : σ) : Option ContentDecision × σ :=
  match admission.content with
  | none => (none, state)
  | some exempt => contentCheck networks policy exempt head now state

/-- What stands behind the content ticket. -/
def checkRest (identity : Option Identity) (moment : Moment) (door : Door σ ρ) : Verdict × Door σ ρ :=
  let limited := rateCheck networks window admission head moment.instant door.window
  let door := { door with window := limited.2 }
  if limited.1 then (.refuse 429 "rate ceiling", door)
  else if oversized head then (.refuse 413 "prewarm body too large", door)
  else (.serve identity, door)

def check (moment : Moment) (door : Door σ ρ) : Verdict × Door σ ρ :=
  if isInternal head.path then (.refuse 404 "private surface", door)
  else if unstamped networks admission head then (.refuse 403 "no edge stamp", door)
  else
    let ticket := ticketCheck networks policy admission head moment.unix door.policy
    let door := { door with policy := ticket.2 }
    match ticket.1 with
    | none => checkRest networks window admission head none moment door
    | some (.allow credential session) =>
        checkRest networks window admission head (some ⟨credential, session⟩) moment door
    | some (.deny status reason) => (.refuse status reason, door)

/-- The chunked half of the cap. -/
def prewarmBodyExceeds (seen : Nat) : Bool := prewarmMaxBody < seen

/-- A finished response is charged to whom the door named. -/
def account (identity : Identity) (bytes : UInt64) (now : Int) (door : Door σ ρ) : Door σ ρ :=
  match admission.content with
  | none => door
  | some _ => { door with policy := policy.observe door.policy identity.credential identity.session bytes now }

/-! What a verdict says about the request. -/

/-- What the content ticket decided, if the request got that far. -/
def decision (moment : Moment) (door : Door σ ρ) : Option ContentDecision :=
  if isInternal head.path || unstamped networks admission head then none
  else (ticketCheck networks policy admission head moment.unix door.policy).1

theorem checkRest_policy (identity : Option Identity) (moment : Moment) (door : Door σ ρ) :
    (checkRest networks window admission head identity moment door).2.policy = door.policy := by
  unfold checkRest
  simp only
  split_ifs <;> rfl

theorem checkRest_serve {identity given : Option Identity} {moment : Moment} {door : Door σ ρ}
    (served : (checkRest networks window admission head identity moment door).1 = .serve given) :
    given = identity ∧ oversized head = false := by
  unfold checkRest at served
  simp only at served
  split_ifs at served with limited large
  cases served
  exact ⟨rfl, Bool.eq_false_iff.mpr large⟩

/-- The policy is asked once the surface and the stamp are settled, and only then. -/
theorem check_policy (moment : Moment) (door : Door σ ρ) :
    (check networks policy window admission head moment door).2.policy =
      if isInternal head.path || unstamped networks admission head then door.policy
      else (ticketCheck networks policy admission head moment.unix door.policy).2 := by
  cases hidden : isInternal head.path with
  | true =>
    rw [check, if_pos hidden]
    rfl
  | false =>
    cases bare : unstamped networks admission head with
    | true =>
      rw [check, if_neg (Bool.eq_false_iff.mp hidden), if_pos bare]
      rfl
    | false =>
      rw [check, if_neg (Bool.eq_false_iff.mp hidden), if_neg (Bool.eq_false_iff.mp bare)]
      simp only
      split
      · exact checkRest_policy networks window admission head none moment _
      · exact checkRest_policy networks window admission head _ moment _
      · rfl

/-- A decision is the policy's answer, and without one the policy is left alone. -/
theorem check_asked (moment : Moment) (door : Door σ ρ) :
    (decision networks policy admission head moment door = none ∧
        (check networks policy window admission head moment door).2.policy = door.policy) ∨
      ∃ exempt, admission.content = some exempt ∧ decision networks policy admission head moment door =
          some (policy.admits door.policy (contentRequest head) moment.unix).1 ∧
        (check networks policy window admission head moment door).2.policy =
          (policy.admits door.policy (contentRequest head) moment.unix).2 := by
  rw [check_policy, decision]
  split_ifs
  · exact .inl ⟨rfl, rfl⟩
  · unfold ticketCheck
    cases content : admission.content with
    | none => exact .inl ⟨rfl, rfl⟩
    | some exempt =>
      cases concerned : concerns networks exempt head with
      | true =>
        simp only [contentCheck, concerned, if_true]
        exact .inr ⟨exempt, rfl, trivial, trivial⟩
      | false =>
        simp only [contentCheck, concerned, Bool.false_eq_true, if_false]
        exact .inl ⟨trivial, trivial⟩

/-- A request that is served. -/
structure Served (identity : Option Identity) (moment : Moment) (door : Door σ ρ) : Prop where
  published : isInternal head.path = false
  stamped : unstamped networks admission head = false
  sized : oversized head = false
  named : decision networks policy admission head moment door = identity.map fun who => .allow who.credential who.session

theorem check_serve {identity : Option Identity} {moment : Moment} {door : Door σ ρ}
    (served : (check networks policy window admission head moment door).1 = .serve identity) :
    Served networks policy admission head identity moment door := by
  unfold check at served
  split_ifs at served with hidden bare
  have open_ : (isInternal head.path || unstamped networks admission head) = false := by
    rw [Bool.eq_false_iff.mpr hidden, Bool.eq_false_iff.mpr bare]
    rfl
  have decided : decision networks policy admission head moment door =
      (ticketCheck networks policy admission head moment.unix door.policy).1 := by
    unfold decision
    rw [open_]
    rfl
  simp only at served
  split at served
  · next nothing =>
    obtain ⟨rfl, sized⟩ := checkRest_serve networks window admission head served
    exact ⟨Bool.eq_false_iff.mpr hidden, Bool.eq_false_iff.mpr bare, sized, decided.trans nothing⟩
  · next credential session allowed =>
    obtain ⟨rfl, sized⟩ := checkRest_serve networks window admission head served
    exact ⟨Bool.eq_false_iff.mpr hidden, Bool.eq_false_iff.mpr bare, sized, decided.trans allowed⟩
  · cases served

end Gates

end OriginCache.Front.Gates
