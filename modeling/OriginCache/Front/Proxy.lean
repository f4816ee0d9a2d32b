import OriginCache.Foundation.Runs
import OriginCache.Foundation.Tables
import OriginCache.Front.Gates

/-! The requests inside the front: each passes the door, sends its body on in chunks and
ends in the access log. What the business plane answers, and when, is left open. -/

namespace OriginCache.Front.Proxy
open Foundation.Runs Foundation.Tables Gates
open Cache.SegName (Text)

structure FrontCtx where
  prewarmBodyBytes : Nat
  identity : Option Identity
  refusal : Option String
deriving DecidableEq, Repr

inductive Phase
  | fresh | serving | failed (status : Nat)
deriving DecidableEq, Repr

/-- A request with what went up to the business plane and what came down to the client. -/
structure Exchange where
  head : RequestHead
  ctx : FrontCtx
  phase : Phase
  uploaded : Nat
  sent : UInt64

inductive Event
  | decided (id : Nat) (now : Int) (decision : ContentDecision)
  | forwarded (id : Nat) (head : RequestHead) (identity : Option Identity) (now : Int)
  | refused (id : Nat) (status : Nat) (reason : String)
  | finished (id : Nat) (head : RequestHead) (identity : Option Identity) (auth : Text) (uploaded : Nat)
      (sent : UInt64) (now : Int)

def Event.id : Event → Nat
  | .decided id _ _ => id
  | .forwarded id _ _ _ => id
  | .refused id _ _ => id
  | .finished id _ _ _ _ _ _ => id

/-- The newest event comes first. -/
structure System (σ ρ : Type) where
  door : Door σ ρ
  exchanges : Table Nat Exchange
  count : Nat
  connectionsActive : Int
  clock : Int
  log : List Event

inductive Label
  | newCtx (head : RequestHead)
  | requestFilter (id : Nat) (moment : Moment)
  | requestBodyFilter (id : Nat) (body : Option Nat)
  | respond (id : Nat) (bytes : UInt64)
  | logging (id : Nat) (now : Int)

def denial (reason : String) : Text := "DENIED:".toList ++ reason.toList

/-- Who a request was, in one column of the access log. -/
def authColumn (ctx : FrontCtx) : Text :=
  match ctx.identity, ctx.refusal with
  | some identity, _ =>
      match identity.session with
      | some session => identity.credential ++ '/' :: session
      | none => identity.credential
  | none, some reason => denial reason
  | none, none => ['-']

def Exchange.new (head : RequestHead) : Exchange := ⟨head, ⟨0, none, none⟩, .fresh, 0, 0⟩

/-- `usize::saturating_add`. -/
def saturatingAdd (a b : Nat) : Nat := min (a + b) (2 ^ 64 - 1)

/-- The chunked half of the cap of a prewarm body; other bodies pass. -/
def Exchange.chunk (exchange : Exchange) (body : Option Nat) : Exchange :=
  let length := body.getD 0
  if isPrewarm exchange.head.path then
    let seen := saturatingAdd exchange.ctx.prewarmBodyBytes length
    let ctx := { exchange.ctx with prewarmBodyBytes := seen }
    if prewarmBodyExceeds seen then { exchange with ctx := ctx, phase := .failed 413 }
    else { exchange with ctx := ctx, uploaded := exchange.uploaded + length }
  else { exchange with uploaded := exchange.uploaded + length }

def Exchange.judged (exchange : Exchange) : Verdict → Exchange
  | .serve identity => { exchange with ctx := { exchange.ctx with identity := identity }, phase := .serving }
  | .refuse status reason =>
      { exchange with ctx := { exchange.ctx with refusal := some reason }, phase := .failed status }

def verdictEvent (id : Nat) (head : RequestHead) (now : Int) : Verdict → Event
  | .serve identity => .forwarded id head identity now
  | .refuse status reason => .refused id status reason

section Steps
variable {Net σ ρ : Type} (networks : Networks Net) (policy : ContentPolicy σ) (window : RateWindow ρ)
  (admission : Admission Net)

def filterStep (s : System σ ρ) (id : Nat) (exchange : Exchange) (moment : Moment) : System σ ρ :=
  let answer := check networks policy window admission exchange.head moment s.door
  let asked := (decision networks policy admission exchange.head moment s.door).toList.map (.decided id moment.unix)
  { s with
    door := answer.2
    exchanges := s.exchanges.insert id (exchange.judged answer.1)
    clock := moment.unix
    log := verdictEvent id exchange.head moment.unix answer.1 :: (asked ++ s.log) }

def loggingStep (s : System σ ρ) (id : Nat) (exchange : Exchange) (now : Int) : System σ ρ :=
  { s with
    door :=
      match exchange.ctx.identity with
      | some identity => account policy admission identity exchange.sent now s.door
      | none => s.door
    exchanges := s.exchanges.erase id
    connectionsActive := s.connectionsActive - 1
    clock := now
    log := .finished id exchange.head exchange.ctx.identity (authColumn exchange.ctx) exchange.uploaded exchange.sent now :: s.log }

def step (s : System σ ρ) : Label → Option (System σ ρ)
  | .newCtx head =>
      some { s with
        exchanges := s.exchanges.insert s.count (.new head)
        count := s.count + 1
        connectionsActive := s.connectionsActive + 1 }
  | .requestFilter id moment =>
      match s.exchanges.lookup id with
      | some exchange =>
          if exchange.phase = .fresh then some (filterStep networks policy window admission s id exchange moment)
          else none
      | none => none
  | .requestBodyFilter id body =>
      match s.exchanges.lookup id with
      | some exchange =>
          if exchange.phase = .serving then
            some { s with exchanges := s.exchanges.insert id (exchange.chunk body) }
          else none
      | none => none
  | .respond id bytes =>
      match s.exchanges.lookup id with
      | some exchange =>
          if exchange.phase = .fresh then none
          else
            some { s with exchanges := s.exchanges.insert id { exchange with sent := exchange.sent + bytes } }
      | none => none
  | .logging id now =>
      match s.exchanges.lookup id with
      | some exchange => some (loggingStep policy admission s id exchange now)
      | none => none

def machine (door : Door σ ρ) : Machine (System σ ρ) Label :=
  ⟨fun s => s.door = door ∧ s.exchanges = ∅ ∧ s.count = 0 ∧ s.connectionsActive = 0 ∧ s.log = [],
    step networks policy window admission⟩

/-! What the business plane may be sent. -/

/-- A request that has passed every gate. -/
structure Vetted (head : RequestHead) (identity : Option Identity) : Prop where
  published : isInternal head.path = false
  stamped : ∀ gate, admission.token = some gate → gate.requires networks head.peer = true →
    header head.headers gate.header = some gate.value
  sized : isPrewarm head.path = true → ∀ length, head.declaredLen = some length → length ≤ prewarmMaxBody
  named : ∀ exempt, admission.content = some exempt → concerns networks exempt head = true →
    ∃ who state now, identity = some who ∧
      (policy.admits state (contentRequest head) now).1 = .allow who.credential who.session
  unnamed : (∀ exempt, admission.content = some exempt → concerns networks exempt head = false) → identity = none

end Steps

def forwards (id : Nat) : Event → Bool
  | .forwarded other _ _ _ => other = id
  | _ => false

def finishes (id : Nat) : Event → Bool
  | .finished other _ _ _ _ _ _ => other = id
  | _ => false

section Runs
variable {Net σ ρ : Type} {networks : Networks Net} {policy : ContentPolicy σ} {window : RateWindow ρ}
  {admission : Admission Net}

theorem vetted_of_served {head : RequestHead} {identity : Option Identity} {moment : Moment} {door : Door σ ρ}
    (served : Served networks policy admission head identity moment door) :
    Vetted networks policy admission head identity := by
  have asked : decision networks policy admission head moment door =
      (ticketCheck networks policy admission head moment.unix door.policy).1 := by
    unfold decision
    rw [served.published, served.stamped]
    rfl
  have named := served.named
  rw [asked] at named
  constructor
  · exact served.published
  · intro gate token required
    have bare := served.stamped
    rw [unstamped, token, Option.any_some, required, Bool.true_and, Bool.not_eq_false'] at bare
    have same := (Request.Canonical.constantTimeEq_iff _ _).mp bare
    cases found : header head.headers gate.header with
    | none =>
      rw [found] at same
      exact absurd same.symm gate.filled
    | some value =>
      rw [found] at same
      exact congrArg some same
  · intro prewarm length declared
    have small := served.sized
    rw [oversized, prewarm, declared, Bool.true_and, Option.any_some] at small
    exact Nat.not_lt.mp (of_decide_eq_false small)
  · intro exempt content concerned
    rw [ticketCheck, content] at named
    simp only [contentCheck, concerned, if_true] at named
    obtain ⟨who, rfl, allowed⟩ := Option.map_eq_some_iff.mp named.symm
    exact ⟨who, door.policy, moment.unix, rfl, allowed.symm⟩
  · intro apart
    have nothing : (ticketCheck networks policy admission head moment.unix door.policy).1 = none := by
      unfold ticketCheck
      cases content : admission.content with
      | none => rfl
      | some exempt =>
        simp only [contentCheck, apart exempt content, Bool.false_eq_true, if_false]
    rw [nothing] at named
    exact Option.map_eq_none_iff.mp named.symm

/-- What the log and the count of requests say about an open exchange. -/
structure Open (networks : Networks Net) (policy : ContentPolicy σ) (admission : Admission Net) (count : Nat)
    (log : List Event) (id : Nat) (exchange : Exchange) : Prop where
  began : id < count
  going : log.countP (finishes id) = 0
  fresh : exchange.phase = .fresh → exchange.ctx = ⟨0, none, none⟩ ∧ exchange.uploaded = 0 ∧ ∀ e ∈ log, e.id ≠ id
  serving : exchange.phase = .serving → Vetted networks policy admission exchange.head exchange.ctx.identity ∧
    (isPrewarm exchange.head.path = true → exchange.ctx.prewarmBodyBytes = exchange.uploaded)
  named : ∀ who, exchange.ctx.identity = some who → ∃ now, .forwarded id exchange.head (some who) now ∈ log
  denied : ∀ status reason, .refused id status reason ∈ log →
    exchange.ctx.identity = none ∧ exchange.ctx.refusal = some reason
  capped : isPrewarm exchange.head.path = true → exchange.uploaded ≤ prewarmMaxBody

structure Kept (networks : Networks Net) (policy : ContentPolicy σ) (admission : Admission Net) (s : System σ ρ) :
    Prop where
  gauge : s.connectionsActive = s.exchanges.keys.length
  past : ∀ e ∈ s.log, e.id < s.count
  opened : ∀ id exchange, s.exchanges.lookup id = some exchange →
    Open networks policy admission s.count s.log id exchange
  vetted : ∀ id head identity now, .forwarded id head identity now ∈ s.log →
    Vetted networks policy admission head identity
  once : ∀ id, s.log.countP (forwards id) ≤ 1 ∧ s.log.countP (finishes id) ≤ 1
  barred : ∀ id status reason, .refused id status reason ∈ s.log → s.log.countP (forwards id) = 0
  paid : ∀ id head who auth uploaded sent now, .finished id head (some who) auth uploaded sent now ∈ s.log →
    ∃ earlier, .forwarded id head (some who) earlier ∈ s.log
  denied : ∀ id status reason head identity auth uploaded sent now, .refused id status reason ∈ s.log →
    .finished id head identity auth uploaded sent now ∈ s.log → identity = none ∧ auth = denial reason
  capped : ∀ id head identity auth uploaded sent now, .finished id head identity auth uploaded sent now ∈ s.log →
    isPrewarm head.path = true → uploaded ≤ prewarmMaxBody

variable {s : System σ ρ} {id : Nat} {exchange : Exchange}

theorem forwards_id {e : Event} (forwarded : forwards id e = true) : e.id = id := by
  cases e with
  | forwarded other head identity now => exact of_decide_eq_true forwarded
  | decided other now decision => cases forwarded
  | refused other status reason => cases forwarded
  | finished other head identity auth uploaded sent now => cases forwarded

theorem finishes_id {e : Event} (finished : finishes id e = true) : e.id = id := by
  cases e with
  | finished other head identity auth uploaded sent now => exact of_decide_eq_true finished
  | decided other now decision => cases finished
  | refused other status reason => cases finished
  | forwarded other head identity now => cases finished

/-- Events of other requests count for nothing. -/
theorem countP_others {test : Event → Bool} (own : ∀ e, test e = true → e.id = id) (events log : List Event)
    (others : ∀ e ∈ events, e.id ≠ id) : (events ++ log).countP test = log.countP test := by
  rw [List.countP_append, List.countP_eq_zero.mpr, Nat.zero_add]
  intro e member passes
  exact others e member (own e passes)

theorem Open.others (held : Open networks policy admission s.count s.log id exchange) (events : List Event)
    (others : ∀ e ∈ events, e.id ≠ id) (count : Nat) (later : s.count ≤ count) :
    Open networks policy admission count (events ++ s.log) id exchange := by
  constructor
  · exact Nat.lt_of_lt_of_le held.began later
  · rw [countP_others (fun e => finishes_id) events s.log others]
    exact held.going
  · intro fresh
    obtain ⟨blank, empty, silent⟩ := held.fresh fresh
    refine ⟨blank, empty, fun e member => ?_⟩
    cases List.mem_append.mp member with
    | inl new => exact others e new
    | inr old => exact silent e old
  · exact held.serving
  · intro who named
    obtain ⟨now, member⟩ := held.named who named
    exact ⟨now, List.mem_append_right events member⟩
  · intro status reason member
    cases List.mem_append.mp member with
    | inl new => exact absurd rfl (others _ new)
    | inr old => exact held.denied status reason old
  · exact held.capped

theorem weigh_ones (table : Table Nat Exchange) : weigh (fun _ _ => 1) table = table.keys.length := by
  simp [weigh, AList.keys, List.keys]

theorem keys_length_insert (table : Table Nat Exchange) (found : table.lookup id = some exchange) (next : Exchange) :
    (table.insert id next).keys.length = table.keys.length := by
  have swap := weigh_insert (fun _ _ => 1) table id next exchange found
  rw [weigh_ones, weigh_ones] at swap
  omega

/-- A step that leaves the log alone and changes one exchange. -/
theorem Kept.write (kept : Kept networks policy admission s) (found : s.exchanges.lookup id = some exchange)
    (next : Exchange) (opened : Open networks policy admission s.count s.log id next) :
    Kept networks policy admission { s with exchanges := s.exchanges.insert id next } := by
  refine { kept with gauge := ?_, opened := ?_ }
  · rw [kept.gauge, keys_length_insert s.exchanges found next]
  · intro other there present
    by_cases here : other = id
    · subst here
      cases (AList.lookup_insert s.exchanges).symm.trans present
      exact opened
    · exact kept.opened other there ((AList.lookup_insert_ne here).symm.trans present)

theorem Kept.initially (door : Door σ ρ) (begins : (machine networks policy window admission door).initial s) :
    Kept networks policy admission s := by
  obtain ⟨_, none, zero, idle, silent⟩ := begins
  constructor
  · rw [idle, none]
    rfl
  · intro e member
    rw [silent] at member
    cases member
  · intro id exchange present
    rw [none] at present
    cases present
  · intro id head identity now member
    rw [silent] at member
    cases member
  · intro id
    rw [silent]
    exact ⟨Nat.zero_le 1, Nat.zero_le 1⟩
  · intro id status reason member
    rw [silent] at member
    cases member
  · intro id head who auth uploaded sent now member
    rw [silent] at member
    cases member
  · intro id status reason head identity auth uploaded sent now member
    rw [silent] at member
    cases member
  · intro id head identity auth uploaded sent now member
    rw [silent] at member
    cases member

theorem Kept.begun (kept : Kept networks policy admission s) (head : RequestHead) :
    Kept networks policy admission { s with
      exchanges := s.exchanges.insert s.count (.new head)
      count := s.count + 1
      connectionsActive := s.connectionsActive + 1 } := by
  have absent : s.exchanges.lookup s.count = none := by
    cases found : s.exchanges.lookup s.count with
    | none => rfl
    | some exchange => exact absurd (kept.opened s.count exchange found).began (Nat.lt_irrefl _)
  have silent : ∀ e ∈ s.log, e.id ≠ s.count := fun e member => Nat.ne_of_lt (kept.past e member)
  refine { kept with gauge := ?_, past := ?_, opened := ?_ }
  · rw [keys_insert_length s.exchanges s.count (.new head) absent, kept.gauge]
    exact (Int.natCast_succ _).symm
  · intro e member
    exact Nat.lt_succ_of_lt (kept.past e member)
  · intro other there present
    obtain ⟨rfl, rfl⟩ | ⟨apart, earlier⟩ := lookup_insert_some s.exchanges s.count other (.new head) there present
    · constructor
      · exact Nat.lt_succ_self s.count
      · apply List.countP_eq_zero.mpr
        intro e member finished
        exact silent e member (finishes_id finished)
      · intro _
        exact ⟨rfl, rfl, silent⟩
      · intro serving
        cases serving
      · intro who named
        cases named
      · intro status reason member
        exact absurd rfl (silent _ member)
      · intro _
        exact Nat.zero_le _
    · exact (kept.opened other there earlier).others [] (by simp) (s.count + 1) (Nat.le_succ _)

/-- A step that adds events of one exchange, and leaves the exchange open. -/
theorem Kept.told (kept : Kept networks policy admission s) (found : s.exchanges.lookup id = some exchange)
    (next : Exchange) (events : List Event) (own : ∀ e ∈ events, e.id = id) (door : Door σ ρ) (clock : Int)
    (opened : Open networks policy admission s.count (events ++ s.log) id next)
    (vetted : ∀ head identity now, .forwarded id head identity now ∈ events →
      Vetted networks policy admission head identity)
    (once : (events ++ s.log).countP (forwards id) ≤ 1)
    (barred : ∀ status reason, .refused id status reason ∈ events ++ s.log → (events ++ s.log).countP (forwards id) = 0)
    (ongoing : ∀ e ∈ events, finishes id e = false) :
    Kept networks policy admission { s with
      door := door, exchanges := s.exchanges.insert id next, clock := clock, log := events ++ s.log } := by
  have others : ∀ other, other ≠ id → ∀ e ∈ events, e.id ≠ other := by
    intro other apart e member same
    exact apart (same.symm.trans (own e member))
  have unfinished : ∀ other head identity auth uploaded sent now,
      .finished other head identity auth uploaded sent now ∈ events ++ s.log →
        .finished other head identity auth uploaded sent now ∈ s.log := by
    intro other head identity auth uploaded sent now member
    cases List.mem_append.mp member with
    | inl new =>
      have here : other = id := own _ new
      have false_ := ongoing _ new
      rw [finishes, decide_eq_false_iff_not] at false_
      exact absurd here false_
    | inr old => exact old
  constructor
  · rw [kept.gauge, keys_length_insert s.exchanges found next]
  · intro e member
    cases List.mem_append.mp member with
    | inl new =>
      rw [own e new]
      exact (kept.opened id exchange found).began
    | inr old => exact kept.past e old
  · intro other there present
    obtain ⟨rfl, rfl⟩ | ⟨apart, earlier⟩ := lookup_insert_some s.exchanges id other next there present
    · exact opened
    · exact (kept.opened other there earlier).others events (others other apart) s.count (Nat.le_refl _)
  · intro other head identity now member
    cases List.mem_append.mp member with
    | inl new =>
      cases (show other = id from own _ new)
      exact vetted head identity now new
    | inr old => exact kept.vetted other head identity now old
  · intro other
    by_cases here : other = id
    · subst here
      exact ⟨once, Nat.le_trans (Nat.le_of_eq opened.going) (Nat.zero_le 1)⟩
    · rw [countP_others (fun e => forwards_id) events s.log (others other here),
        countP_others (fun e => finishes_id) events s.log (others other here)]
      exact kept.once other
  · intro other status reason member
    by_cases here : other = id
    · subst here
      exact barred status reason member
    · rw [countP_others (fun e => forwards_id) events s.log (others other here)]
      cases List.mem_append.mp member with
      | inl new => exact absurd (own _ new) here
      | inr old => exact kept.barred other status reason old
  · intro other head who auth uploaded sent now member
    obtain ⟨earlier, forwarded⟩ := kept.paid other head who auth uploaded sent now (unfinished _ _ _ _ _ _ _ member)
    exact ⟨earlier, List.mem_append_right events forwarded⟩
  · intro other status reason head identity auth uploaded sent now refused member
    have earlier := unfinished _ _ _ _ _ _ _ member
    cases List.mem_append.mp refused with
    | inl new =>
      cases (show other = id from own _ new)
      have going := List.countP_eq_zero.mp (kept.opened id exchange found).going _ earlier
      exact absurd (decide_eq_true rfl) going
    | inr old => exact kept.denied other status reason head identity auth uploaded sent now old earlier
  · intro other head identity auth uploaded sent now member
    exact kept.capped other head identity auth uploaded sent now (unfinished _ _ _ _ _ _ _ member)

/-- What the door says of one request, newest first. -/
def filterEvents (id : Nat) (head : RequestHead) (now : Int) (answer : Verdict) (asked : Option ContentDecision) :
    List Event :=
  verdictEvent id head now answer :: asked.toList.map (.decided id now)

theorem filterEvents_own (head : RequestHead) (now : Int) (answer : Verdict) (asked : Option ContentDecision) :
    ∀ e ∈ filterEvents id head now answer asked, e.id = id := by
  intro e member
  cases List.mem_cons.mp member with
  | inl first =>
    rw [first]
    cases answer <;> rfl
  | inr rest =>
    obtain ⟨decision, _, rfl⟩ := List.mem_map.mp rest
    rfl

theorem filterEvents_finishes (head : RequestHead) (now : Int) (answer : Verdict) (asked : Option ContentDecision) :
    ∀ e ∈ filterEvents id head now answer asked, finishes id e = false := by
  intro e member
  cases List.mem_cons.mp member with
  | inl first =>
    rw [first]
    cases answer <;> rfl
  | inr rest =>
    obtain ⟨decision, _, rfl⟩ := List.mem_map.mp rest
    rfl

theorem filterEvents_forwards (head : RequestHead) (now : Int) (answer : Verdict) (asked : Option ContentDecision) :
    (filterEvents id head now answer asked).countP (forwards id) =
      if forwards id (verdictEvent id head now answer) then 1 else 0 := by
  have silent : (asked.toList.map (Event.decided id now)).countP (forwards id) = 0 := by
    apply List.countP_eq_zero.mpr
    intro e member forwarded
    obtain ⟨decision, _, rfl⟩ := List.mem_map.mp member
    cases forwarded
  rw [filterEvents, List.countP_cons, silent, Nat.zero_add]

theorem filterEvents_refused {head : RequestHead} {now : Int} {answer : Verdict} {asked : Option ContentDecision}
    {status : Nat} {reason : String} (member : .refused id status reason ∈ filterEvents id head now answer asked) :
    answer = .refuse status reason := by
  cases List.mem_cons.mp member with
  | inl first =>
    cases answer with
    | serve identity => cases first
    | refuse status reason =>
      cases first
      rfl
  | inr rest =>
    obtain ⟨decision, _, same⟩ := List.mem_map.mp rest
    cases same

theorem filterEvents_forwarded {head given : RequestHead} {now at_ : Int} {answer : Verdict}
    {asked : Option ContentDecision} {identity : Option Identity}
    (member : .forwarded id given identity at_ ∈ filterEvents id head now answer asked) :
    answer = .serve identity ∧ given = head := by
  cases List.mem_cons.mp member with
  | inl first =>
    cases answer with
    | serve identity =>
      cases first
      exact ⟨rfl, rfl⟩
    | refuse status reason => cases first
  | inr rest =>
    obtain ⟨decision, _, same⟩ := List.mem_map.mp rest
    cases same

theorem Kept.filtered (kept : Kept networks policy admission s) (found : s.exchanges.lookup id = some exchange)
    (fresh : exchange.phase = .fresh) (moment : Moment) :
    Kept networks policy admission (filterStep networks policy window admission s id exchange moment) := by
  have opened := kept.opened id exchange found
  obtain ⟨blank, empty, silent⟩ := opened.fresh fresh
  have answered : ∀ identity, (check networks policy window admission exchange.head moment s.door).1 = .serve identity →
      Served networks policy admission exchange.head identity moment s.door :=
    fun _ served => check_serve networks policy window admission exchange.head served
  have unsent : s.log.countP (forwards id) = 0 :=
    List.countP_eq_zero.mpr fun e member forwarded => silent e member (forwards_id forwarded)
  let answer := (check networks policy window admission exchange.head moment s.door).1
  let asked := decision networks policy admission exchange.head moment s.door
  have counted : (filterEvents id exchange.head moment.unix answer asked ++ s.log).countP (forwards id) =
      if forwards id (verdictEvent id exchange.head moment.unix answer) then 1 else 0 := by
    rw [List.countP_append, unsent, Nat.add_zero, filterEvents_forwards]
  have unfinished : (filterEvents id exchange.head moment.unix answer asked ++ s.log).countP (finishes id) = 0 := by
    rw [List.countP_append, opened.going, Nat.add_zero]
    apply List.countP_eq_zero.mpr
    intro e member finished
    exact Bool.false_ne_true ((filterEvents_finishes exchange.head moment.unix answer asked e member).symm.trans finished)
  apply kept.told found (exchange.judged answer) (filterEvents id exchange.head moment.unix answer asked)
    (filterEvents_own exchange.head moment.unix answer asked)
  · cases verdict : answer with
    | serve identity =>
      have passed := vetted_of_served (answered identity verdict)
      constructor
      · exact opened.began
      · rw [← verdict]
        exact unfinished
      · intro phase
        cases phase
      · intro _
        refine ⟨passed, fun _ => ?_⟩
        change exchange.ctx.prewarmBodyBytes = exchange.uploaded
        rw [blank, empty]
      · intro who named
        have same : identity = some who := named
        rw [same]
        exact ⟨moment.unix, List.mem_append_left _ (List.mem_cons_self ..)⟩
      · intro status reason member
        cases List.mem_append.mp member with
        | inl new => cases filterEvents_refused new
        | inr old => exact absurd rfl (silent _ old)
      · intro _
        exact Nat.le_trans (Nat.le_of_eq empty) (Nat.zero_le _)
    | refuse status reason =>
      constructor
      · exact opened.began
      · rw [← verdict]
        exact unfinished
      · intro phase
        cases phase
      · intro phase
        cases phase
      · intro who named
        have same : exchange.ctx.identity = some who := named
        rw [blank] at same
        cases same
      · intro code text member
        cases List.mem_append.mp member with
        | inl new =>
          cases filterEvents_refused new
          refine ⟨?_, rfl⟩
          change exchange.ctx.identity = none
          rw [blank]
        | inr old => exact absurd rfl (silent _ old)
      · intro _
        exact Nat.le_trans (Nat.le_of_eq empty) (Nat.zero_le _)
  · intro head identity now member
    obtain ⟨verdict, rfl⟩ := filterEvents_forwarded member
    exact vetted_of_served (answered identity verdict)
  · rw [counted]
    split_ifs <;> decide
  · intro status reason member
    have verdict : answer = .refuse status reason := by
      cases List.mem_append.mp member with
      | inl new => exact filterEvents_refused new
      | inr old => exact absurd rfl (silent _ old)
    rw [counted, verdict]
    rfl
  · exact filterEvents_finishes exchange.head moment.unix answer asked

theorem Open.chunked (opened : Open networks policy admission s.count s.log id exchange)
    (serving : exchange.phase = .serving) (body : Option Nat) :
    Open networks policy admission s.count s.log id (exchange.chunk body) := by
  obtain ⟨passed, counted⟩ := opened.serving serving
  unfold Exchange.chunk
  cases prewarm : isPrewarm exchange.head.path with
  | false =>
    simp only [Bool.false_eq_true, if_false]
    constructor
    · exact opened.began
    · exact opened.going
    · intro phase
      exact Phase.noConfusion (serving.symm.trans phase)
    · intro _
      refine ⟨passed, fun other => ?_⟩
      exact absurd (prewarm.symm.trans other) Bool.false_ne_true
    · exact opened.named
    · exact opened.denied
    · intro other
      exact absurd (prewarm.symm.trans other) Bool.false_ne_true
  | true =>
    simp only [if_true]
    have same := counted prewarm
    split_ifs with exceeds
    · constructor
      · exact opened.began
      · exact opened.going
      · intro phase
        cases phase
      · intro phase
        cases phase
      · exact opened.named
      · exact opened.denied
      · exact opened.capped
    · -- A counter that stays below the cap has not saturated.
      have small : saturatingAdd exchange.ctx.prewarmBodyBytes (body.getD 0) ≤ prewarmMaxBody :=
        Nat.not_lt.mp fun large => exceeds (decide_eq_true large)
      have exact_ : saturatingAdd exchange.ctx.prewarmBodyBytes (body.getD 0) = exchange.uploaded + body.getD 0 := by
        unfold saturatingAdd prewarmMaxBody at *
        omega
      constructor
      · exact opened.began
      · exact opened.going
      · intro phase
        exact Phase.noConfusion (serving.symm.trans phase)
      · intro _
        exact ⟨passed, fun _ => exact_⟩
      · exact opened.named
      · exact opened.denied
      · intro _
        exact Nat.le_trans (Nat.le_of_eq exact_.symm) small

theorem Open.responded (opened : Open networks policy admission s.count s.log id exchange) (bytes : UInt64)
    (begun : exchange.phase ≠ .fresh) :
    Open networks policy admission s.count s.log id { exchange with sent := exchange.sent + bytes } :=
  ⟨opened.began, opened.going, fun fresh => absurd fresh begun, opened.serving, opened.named,
    opened.denied, opened.capped⟩

theorem keys_length_erase (table : Table Nat Exchange) (found : table.lookup id = some exchange) :
    (table.keys.length : Int) = ((table.erase id).keys.length : Int) + 1 := by
  have weighed := weigh_erase (fun _ _ => 1) table id exchange found
  rw [weigh_ones, weigh_ones] at weighed
  omega

theorem Kept.logged (kept : Kept networks policy admission s) (found : s.exchanges.lookup id = some exchange) (now : Int) :
    Kept networks policy admission (loggingStep policy admission s id exchange now) := by
  have opened := kept.opened id exchange found
  have mine : Event.id (.finished id exchange.head exchange.ctx.identity (authColumn exchange.ctx) exchange.uploaded
      exchange.sent now) = id := rfl
  have others : ∀ other, other ≠ id → ∀ e ∈ [Event.finished id exchange.head exchange.ctx.identity
      (authColumn exchange.ctx) exchange.uploaded exchange.sent now], e.id ≠ other := by
    intro other apart e member same
    rw [List.mem_singleton.mp member] at same
    exact apart same.symm
  constructor
  · change s.connectionsActive - 1 = ((s.exchanges.erase id).keys.length : Int)
    rw [kept.gauge, keys_length_erase s.exchanges found, Int.add_sub_cancel]
  · intro e member
    cases List.mem_cons.mp member with
    | inl first =>
      rw [first, mine]
      exact opened.began
    | inr rest => exact kept.past e rest
  · intro other there present
    obtain ⟨apart, earlier⟩ := lookup_erase_some s.exchanges id other there present
    exact (kept.opened other there earlier).others _ (others other apart) s.count (Nat.le_refl _)
  · intro other head identity at_ member
    cases List.mem_cons.mp member with
    | inl first => cases first
    | inr rest => exact kept.vetted other head identity at_ rest
  · intro other
    constructor
    · change (_ :: s.log).countP (forwards other) ≤ 1
      rw [List.countP_cons]
      exact (kept.once other).1
    · change (_ :: s.log).countP (finishes other) ≤ 1
      rw [List.countP_cons]
      by_cases here : id = other
      · subst here
        rw [opened.going]
        split_ifs <;> decide
      · rw [finishes, if_neg (by simpa using here)]
        exact (kept.once other).2
  · intro other status reason member
    cases List.mem_cons.mp member with
    | inl first => cases first
    | inr rest =>
      change (_ :: s.log).countP (forwards other) = 0
      rw [List.countP_cons]
      exact kept.barred other status reason rest
  · intro other head who auth uploaded sent at_ member
    cases List.mem_cons.mp member with
    | inl first =>
      injection first with same heads named
      subst same heads
      obtain ⟨earlier, forwarded⟩ := opened.named who named.symm
      exact ⟨earlier, List.mem_cons_of_mem _ forwarded⟩
    | inr rest =>
      obtain ⟨earlier, forwarded⟩ := kept.paid other head who auth uploaded sent at_ rest
      exact ⟨earlier, List.mem_cons_of_mem _ forwarded⟩
  · intro other status reason head identity auth uploaded sent at_ refused member
    have earlier : .refused other status reason ∈ s.log := by
      cases List.mem_cons.mp refused with
      | inl first => cases first
      | inr rest => exact rest
    cases List.mem_cons.mp member with
    | inl first =>
      injection first with same heads named column
      subst same named column
      obtain ⟨nobody, recorded⟩ := opened.denied status reason earlier
      refine ⟨nobody, ?_⟩
      rw [authColumn, nobody, recorded]
    | inr rest => exact kept.denied other status reason head identity auth uploaded sent at_ earlier rest
  · intro other head identity auth uploaded sent at_ member prewarm
    cases List.mem_cons.mp member with
    | inl first =>
      injection first with same heads named column bytes
      subst heads bytes
      exact opened.capped prewarm
    | inr rest => exact kept.capped other head identity auth uploaded sent at_ rest prewarm

theorem Kept.stepped (kept : Kept networks policy admission s) (label : Label) (after : System σ ρ)
    (steps : step networks policy window admission s label = some after) : Kept networks policy admission after := by
  cases label with
  | newCtx head =>
    cases steps
    exact kept.begun head
  | requestFilter id moment =>
    rw [step] at steps
    split at steps
    · next exchange found =>
      split_ifs at steps with fresh
      cases steps
      exact kept.filtered found fresh moment
    · cases steps
  | requestBodyFilter id body =>
    rw [step] at steps
    split at steps
    · next exchange found =>
      split_ifs at steps with serving
      cases steps
      exact kept.write found _ ((kept.opened id exchange found).chunked serving body)
    · cases steps
  | respond id bytes =>
    rw [step] at steps
    split at steps
    · next exchange found =>
      split_ifs at steps with fresh
      cases steps
      exact kept.write found _ ((kept.opened id exchange found).responded bytes fresh)
    · cases steps
  | logging id now =>
    rw [step] at steps
    split at steps
    · next exchange found =>
      cases steps
      exact kept.logged found now
    · cases steps

theorem kept_of_reaches {door : Door σ ρ} {allowed : System σ ρ → Label → Prop}
    (reached : Reaches (machine networks policy window admission door) allowed s) : Kept networks policy admission s :=
  reached.invariant (Kept networks policy admission) (fun _ begins => Kept.initially door begins)
    (fun _ label after kept _ steps => kept.stepped label after steps)

end Runs

/-! A door that answers one read and refuses the next. -/

def readHead : RequestHead :=
  ⟨methodGet, ['/', 'b'], ['/', 'b'], none, some (.v4 1), none, [], by decide, by decide⟩

def hostNetworks : Networks Request.Hosts.IpAddr := ⟨fun _ => none, id, fun net ip => net = ip, some⟩

def onePolicy : ContentPolicy Bool :=
  ⟨fun asked _ _ => (if asked then .deny 429 "session over its request rate" else .allow ['k'] none, true),
    fun asked _ _ _ _ => asked⟩

def freeWindow : RateWindow Unit := ⟨fun _ _ _ => (0, ())⟩

def oneRead : List Label :=
  [.newCtx readHead, .newCtx readHead, .requestFilter 0 ⟨5, 0⟩, .requestFilter 1 ⟨5, 0⟩, .requestBodyFilter 0 none,
    .respond 0 100, .logging 1 6, .logging 0 7]

end OriginCache.Front.Proxy
