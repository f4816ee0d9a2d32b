import OriginCache.Front.Proxy
import OriginCache.Request.SessionLimits
import OriginCache.Request.Tenants

/-! The front with the content gate behind its door. Every run of it is a run of the
session tables, whose history is read off the front's own log; so what the tables keep of
a session holds of what the front sends on. -/

namespace OriginCache.Front.Metered
open Foundation.Runs Foundation.Tables Foundation.Splits Foundation.Percent Gates Proxy
open Request.Sigv4 Request.SessionBudgets Request.ContentAuth
open Request.SessionLimits hiding System Event Label step machine
open Cache.SegName (Text)

/-! The gate as the front's policy. -/

section Policy
variable (hashes : Hashes) (decoder : Decoder) (formParse : Text → List (Text × Text)) (gate : ContentGate)

/-- The marker is required, so an admission always names its session. -/
def frontDecision : Request.ContentAuth.ContentDecision → Gates.ContentDecision
  | .allow credential session => .allow credential (some session)
  | .deny status reason => .deny status reason

/-- `ContentGate::observe`. -/
def observes (state : GateState) (credential : Text) (session : Option Text) (bytes : UInt64) (now : Int) : GateState :=
  match session with
  | none => state
  | some session => { state with tables := observeSession state.tables (budgetKey credential session) now bytes }

def contentPolicy : ContentPolicy GateState where
  admits state request now :=
    let answer := admits hashes decoder formParse gate request now state
    (frontDecision answer.1, answer.2)
  observe := observes

def rpsOf (entry : CredentialEntry) : Nat := max (entry.sessionRps.getD (gate.defaultRps % 2 ^ 32)) 1

def bytesPerMinOf (entry : CredentialEntry) : Nat :=
  max ((entry.sessionMibPerMin.map (saturatingMul · (1024 * 1024))).getD gate.defaultBytesPerMin) 1

/-- The budget behind a key of the tables. -/
def budgets (key : Text) : Budget :=
  match (rsplitOnce '\x01' key).bind fun parts => gate.store.lookup parts.1 with
  | some entry => ⟨UInt32.ofNat (rpsOf gate entry), UInt64.ofNat (bytesPerMinOf gate entry)⟩
  | none => ⟨0, 0⟩

/-- The numbers of the store and of the gate have their types. -/
structure Typed : Prop where
  rps : ∀ credential entry rps, gate.store.lookup credential = some entry → entry.sessionRps = some rps → rps < 2 ^ 32
  bytes : gate.defaultBytesPerMin < 2 ^ 64

theorem typed_fromCaps (store : CredentialStore) (caps : Caps)
    (rps : ∀ credential entry rps, store.lookup credential = some entry → entry.sessionRps = some rps → rps < 2 ^ 32) :
    Typed (.fromCaps store caps) := by
  refine ⟨rps, ?_⟩
  change max (min _ (2 ^ 64 - 1)) 1 < 2 ^ 64
  omega

theorem saturatingMul_lt (a b : Nat) : saturatingMul a b < 2 ^ 64 := by
  unfold saturatingMul
  omega

theorem rpsOf_lt {gate : ContentGate} (typed : Typed gate) {credential : Text} {entry : CredentialEntry}
    (known : gate.store.lookup credential = some entry) : rpsOf gate entry < 2 ^ 32 := by
  unfold rpsOf
  cases own : entry.sessionRps with
  | none =>
    rw [Option.getD_none]
    omega
  | some rps =>
    have small := typed.rps credential entry rps known own
    rw [Option.getD_some]
    omega

theorem bytesPerMinOf_lt {gate : ContentGate} (typed : Typed gate) (entry : CredentialEntry) :
    bytesPerMinOf gate entry < 2 ^ 64 := by
  have bytes := typed.bytes
  unfold bytesPerMinOf
  cases own : entry.sessionMibPerMin with
  | none =>
    rw [Option.map_none, Option.getD_none]
    omega
  | some mib =>
    have small := saturatingMul_lt mib (1024 * 1024)
    rw [Option.map_some, Option.getD_some]
    omega

theorem budgets_key {gate : ContentGate} (typed : Typed gate) {credential session : Text} {entry : CredentialEntry}
    (known : gate.store.lookup credential = some entry) (plain : '\x01' ∉ session) :
    (budgets gate (budgetKey credential session)).rps.toNat = rpsOf gate entry ∧
      (budgets gate (budgetKey credential session)).bytesPerMin.toNat = bytesPerMinOf gate entry := by
  have found : (rsplitOnce '\x01' (budgetKey credential session)).bind (fun parts => gate.store.lookup parts.1) =
      some entry := by
    rw [budgetKey, rsplitOnce_append '\x01' credential session plain]
    exact known
  rw [budgets, found]
  exact ⟨UInt32.toNat_ofNat_of_lt' (rpsOf_lt typed known), UInt64.toNat_ofNat_of_lt' (bytesPerMinOf_lt typed entry)⟩

theorem plain_of_valid {session : Text} (valid : validSession session = true) : '\x01' ∉ session := by
  intro member
  have bytes := (of_decide_eq_true valid).2.2
  have inside : (1 : UInt8) ∈ utf8 session := List.mem_flatMap.mpr ⟨'\x01', member, by decide⟩
  exact absurd (List.all_eq_true.mp bytes 1 inside) (by decide)

/-- What the gate does to a request whose signature, marker and path it has accepted. -/
structure Charged (request : ContentRequest) (now : Int) (state : GateState)
    (answer : Request.ContentAuth.ContentDecision × GateState) (credential session : Text) (entry : CredentialEntry) :
    Prop where
  known : gate.store.lookup credential = some entry
  valid : validSession session = true
  inside : withinPrefix entry.keyPrefix (request.decodedPath decoder) = true
  tables : answer.2.tables = (charge gate entry credential session now state.tables).2
  verdict : if (charge gate entry credential session now state.tables).1.isOk = true then
    answer.1 = .allow credential session else ∃ status reason, answer.1 = .deny status reason

/-- The gate charges a session, or it refuses and leaves the tables alone. -/
theorem admits_cases (request : ContentRequest) (now : Int) (state : GateState) :
    ((∃ status reason, (admits hashes decoder formParse gate request now state).1 = .deny status reason) ∧
        (admits hashes decoder formParse gate request now state).2.tables = state.tables) ∨
      ∃ credential session entry, Charged decoder gate request now state
        (admits hashes decoder formParse gate request now state) credential session entry := by
  generalize answered : admits hashes decoder formParse gate request now state = answer
  unfold admits at answered
  simp only at answered
  split_ifs at answered
  · subst answered
    exact .inl ⟨⟨_, _, rfl⟩, rfl⟩
  · subst answered
    exact .inl ⟨⟨_, _, rfl⟩, rfl⟩
  · split at answered
    · subst answered
      exact .inl ⟨⟨_, _, rfl⟩, rfl⟩
    · subst answered
      exact .inl ⟨⟨_, _, rfl⟩, rfl⟩
    · next verified _ =>
      split at answered
      · subst answered
        exact .inl ⟨⟨_, _, rfl⟩, rfl⟩
      · next marker entry settled =>
        obtain ⟨known, inside⟩ := authorize_ok decoder gate request _ verified marker entry settled
        refine .inr ⟨verified.accessKeyId, marker, entry, known, ?_, inside, ?_, ?_⟩
        · simp only [authorize, bind_ok, need_ok, refuseIf_ok, Bool.not_eq_false'] at settled
          obtain ⟨_, _, _, valid, _, _, _, _, _, _, same⟩ := settled
          cases same
          exact valid
        · split at answered <;> subst answered <;> rfl
        · split at answered
          · next refused =>
            subst answered
            rw [refused]
            exact ⟨_, _, rfl⟩
          · next passed =>
            subst answered
            rw [passed]
            rfl

/-- Whom the gate allows, and where. -/
theorem charged_of_allow (request : ContentRequest) (now : Int) (state : GateState) (who : Identity)
    (allowed : ((contentPolicy hashes decoder formParse gate).admits state request now).1 =
      .allow who.credential who.session) :
    ∃ credential session entry, some who = some ⟨credential, some session⟩ ∧ gate.store.lookup credential = some entry ∧
      withinPrefix entry.keyPrefix (request.decodedPath decoder) = true := by
  change frontDecision (admits hashes decoder formParse gate request now state).1 = _ at allowed
  cases admits_cases hashes decoder formParse gate request now state with
  | inl denied =>
    obtain ⟨⟨status, reason, refusal⟩, _⟩ := denied
    rw [refusal] at allowed
    cases allowed
  | inr charged =>
    obtain ⟨name, session, entry, charged⟩ := charged
    have outcome := charged.verdict
    split_ifs at outcome
    · obtain ⟨credential, marker⟩ := who
      rw [outcome] at allowed
      cases allowed
      exact ⟨_, session, entry, rfl, charged.known, charged.inside⟩
    · obtain ⟨status, reason, refusal⟩ := outcome
      rw [refusal] at allowed
      cases allowed

end Policy

/-! The history of the tables in the log of the front. -/

def spelled : Proxy.Event → Option Request.SessionLimits.Event
  | .decided _ now (.allow credential (some session)) => some (.asked (budgetKey credential session) now true)
  | .finished _ _ (some ⟨credential, some session⟩) _ _ sent now => some (.moved (budgetKey credential session) now sent)
  | _ => none

def ledger (log : List Proxy.Event) : List Request.SessionLimits.Event := log.filterMap spelled

/-- The log does not say whom a refusal was about. -/
def settled : Request.SessionLimits.Event → Bool
  | .asked _ _ ok => ok
  | .moved _ _ _ => true

theorem admissions_settled (history : List Request.SessionLimits.Event) (key : Text) :
    admissions (history.filter settled) key = admissions history key := by
  unfold admissions
  rw [List.filterMap_filter]
  congr 1
  funext e
  cases e with
  | asked other now ok => cases ok <;> rfl
  | moved other now bytes => rfl

theorem transfers_settled (history : List Request.SessionLimits.Event) (key : Text) :
    transfers (history.filter settled) key = transfers history key := by
  unfold transfers
  rw [List.filterMap_filter]
  congr 1
  funext e
  cases e with
  | asked other now ok => cases ok <;> rfl
  | moved other now bytes => rfl

theorem within_settled {budgets : Text → Budget} {history : List Request.SessionLimits.Event}
    (within : WithinBudgets budgets history) : WithinBudgets budgets (history.filter settled) := by
  constructor
  · intro key second
    rw [admittedIn, admissions_settled]
    exact within.rate key second
  · intro key now newer older whole
    obtain ⟨front, back, rfl, _, behind⟩ := List.filter_eq_append_iff.mp whole
    obtain ⟨skipped, rest, rfl, _, _, rfl⟩ := List.filter_eq_cons_iff.mp behind
    rw [observedBytes, transfers_settled]
    apply within.bytes key now (front ++ skipped) rest
    rw [List.append_assoc]

/-- The requests of a session that the front sent on in one second. -/
def forwardsFor (credential session : Text) (second : Int) : Proxy.Event → Bool
  | .forwarded _ _ (some who) now => who.credential = credential ∧ who.session = some session ∧ now = second
  | _ => false

def admitsFor (credential session : Text) (second : Int) : Proxy.Event → Bool
  | .decided _ now (.allow name marker) => name = credential ∧ marker = some session ∧ now = second
  | _ => false

def sentTo (credential session : Text) (now : Int) : Proxy.Event → Nat
  | .finished _ _ (some who) _ _ sent at_ =>
      if who.credential = credential ∧ who.session = some session ∧ now - 60 < at_ then sent.toNat else 0
  | _ => 0

/-- The bytes sent to a session in the trailing minute. -/
def sentBytes (log : List Proxy.Event) (credential session : Text) (now : Int) : Nat :=
  (log.map (sentTo credential session now)).sum

theorem ledger_append (newer older : List Proxy.Event) : ledger (newer ++ older) = ledger newer ++ ledger older :=
  List.filterMap_append

theorem admissions_append (newer older : List Request.SessionLimits.Event) (key : Text) :
    admissions (newer ++ older) key = admissions newer key ++ admissions older key :=
  List.filterMap_append

theorem countP_admitsFor_le (log : List Proxy.Event) (credential session : Text) (second : Int) :
    log.countP (admitsFor credential session second) ≤ admittedIn (ledger log) (budgetKey credential session) second := by
  induction log with
  | nil => exact Nat.le_refl 0
  | cons e log ih =>
    have more : admittedIn (ledger log) (budgetKey credential session) second ≤
        admittedIn (ledger (e :: log)) (budgetKey credential session) second := by
      change _ ≤ admittedIn (ledger ([e] ++ log)) (budgetKey credential session) second
      unfold admittedIn
      rw [ledger_append, admissions_append, List.filter_append, List.length_append]
      exact Nat.le_add_left _ _
    rw [List.countP_cons]
    cases e with
    | forwarded id head identity now => exact ih.trans more
    | refused id status reason => exact ih.trans more
    | finished id head identity auth uploaded sent now => exact ih.trans more
    | decided id now answer =>
      cases answer with
      | deny status reason => exact ih.trans more
      | allow name marker =>
        by_cases mine : name = credential ∧ marker = some session ∧ now = second
        · obtain ⟨rfl, rfl, rfl⟩ := mine
          rw [if_pos (by simp [admitsFor])]
          change _ ≤ admittedIn (.asked (budgetKey name session) now true :: ledger log) (budgetKey name session) now
          unfold admittedIn at *
          rw [admissions_admitted, List.filter_cons, if_pos (by simp), List.length_cons]
          exact Nat.succ_le_succ ih
        · rw [if_neg (by simpa [admitsFor] using mine)]
          exact ih.trans more

theorem sentBytes_le (log : List Proxy.Event) (credential session : Text) (now : Int) :
    sentBytes log credential session now ≤ observedBytes (ledger log) (budgetKey credential session) now := by
  induction log with
  | nil => exact Nat.le_refl 0
  | cons e log ih =>
    have more : observedBytes (ledger log) (budgetKey credential session) now ≤
        observedBytes (ledger (e :: log)) (budgetKey credential session) now := by
      change _ ≤ observedBytes (ledger ([e] ++ log)) (budgetKey credential session) now
      unfold observedBytes bytesOf transfers Foundation.Buckets.after
      rw [ledger_append, List.filterMap_append, List.filter_append, List.map_append, List.sum_append]
      exact Nat.le_add_left _ _
    have spends : sentBytes (e :: log) credential session now =
        sentTo credential session now e + sentBytes log credential session now := List.sum_cons
    rw [spends]
    cases e with
    | forwarded id head identity at_ => exact (Nat.le_of_eq (Nat.zero_add _)).trans (ih.trans more)
    | refused id status reason => exact (Nat.le_of_eq (Nat.zero_add _)).trans (ih.trans more)
    | decided id at_ answer => exact (Nat.le_of_eq (Nat.zero_add _)).trans (ih.trans more)
    | finished id head identity auth uploaded sent at_ =>
      cases identity with
      | none => exact (Nat.le_of_eq (Nat.zero_add _)).trans (ih.trans more)
      | some who =>
        rw [sentTo]
        by_cases mine : who.credential = credential ∧ who.session = some session ∧ now - 60 < at_
        · rw [if_pos mine]
          obtain ⟨name, marker⟩ := who
          obtain ⟨rfl, same, recent⟩ := mine
          cases (show marker = some session from same)
          change _ ≤ observedBytes (.moved (budgetKey name session) at_ sent :: ledger log) (budgetKey name session) now
          rw [observedBytes, transfers_moved, Foundation.Buckets.after_cons, if_pos recent]
          exact Nat.add_le_add_left ih _
        · rw [if_neg mine]
          exact (Nat.le_of_eq (Nat.zero_add _)).trans (ih.trans more)

/-! The runs. -/

section Runs
variable {Net ρ : Type} {networks : Networks Net} {window : RateWindow ρ} {admission : Admission Net} {hashes : Hashes}
  {decoder : Decoder} {formParse : Text → List (Text × Text)} {gate : ContentGate}

/-- Time does not run backwards, no admission finds the table full, and no count of bytes wraps. -/
def metersWell (s : System GateState ρ) : Label → Bool
  | .requestFilter _ moment => s.clock ≤ moment.unix && s.door.policy.tables.keys.length < sessionTableCap
  | .logging id now => s.clock ≤ now && (s.exchanges.lookup id).all fun exchange =>
      exchange.ctx.identity.all fun who => who.session.all fun session =>
        (s.door.policy.tables.lookup (budgetKey who.credential session)).all fun entry =>
          (entry.bytes.used now).1.toNat + exchange.sent.toNat < 2 ^ 64
  | _ => true

/-- The tables, the clock of their last event and what the log says are one run of the session machine. -/
def Booked (gate : ContentGate) (tables : SessionTables) (clock : Int) (log : List Proxy.Event) : Prop :=
  ∃ last history, last ≤ clock ∧ history.filter settled = ledger log ∧
    Reaches (Request.SessionLimits.machine (budgets gate)) (fun s label => keepsAccounts s label = true)
      ⟨tables, last, history⟩

/-- An identity that was sent on is a session that the tables have admitted. -/
structure Standing (log : List Proxy.Event) (who : Identity) (session : Text) : Prop where
  marker : who.session = some session
  plain : '\x01' ∉ session
  admitted : admissions (ledger log) (budgetKey who.credential session) ≠ []

structure Books (gate : ContentGate) (s : System GateState ρ) : Prop where
  booked : Booked gate s.door.policy.tables s.clock s.log
  stood : ∀ id head who now, .forwarded id head (some who) now ∈ s.log → ∃ session, Standing s.log who session
  allowed : ∀ id now credential marker, .decided id now (.allow credential marker) ∈ s.log →
    ∃ session entry, marker = some session ∧ '\x01' ∉ session ∧ gate.store.lookup credential = some entry
  answered : ∀ credential session second,
    s.log.countP (forwardsFor credential session second) ≤ s.log.countP (admitsFor credential session second)

theorem Standing.later {log : List Proxy.Event} {who : Identity} {session : Text} (standing : Standing log who session)
    (events : List Proxy.Event) : Standing (events ++ log) who session := by
  refine ⟨standing.marker, standing.plain, ?_⟩
  rw [ledger_append, admissions_append]
  exact fun empty => standing.admitted (List.append_eq_nil_iff.mp empty).2

theorem Booked.later {tables : SessionTables} {clock now : Int} {log : List Proxy.Event}
    (booked : Booked gate tables clock log) (passes : clock ≤ now) (events : List Proxy.Event)
    (silent : ledger events = []) : Booked gate tables now (events ++ log) := by
  obtain ⟨last, history, before, spells, reached⟩ := booked
  refine ⟨last, history, before.trans passes, ?_, reached⟩
  rw [ledger_append, silent, spells]
  rfl

/-- A charge is an admission of the session machine, whatever its outcome. -/
theorem Booked.charged {tables : SessionTables} {clock now : Int} {log : List Proxy.Event}
    (booked : Booked gate tables clock log) (typed : Typed gate) (passes : clock ≤ now)
    (room : tables.keys.length < sessionTableCap) {credential session : Text} {entry : CredentialEntry}
    (known : gate.store.lookup credential = some entry) (plain : '\x01' ∉ session) (events : List Proxy.Event)
    (tells : ledger events = if (charge gate entry credential session now tables).1.isOk = true then
      [.asked (budgetKey credential session) now true] else []) :
    Booked gate (charge gate entry credential session now tables).2 now (events ++ log) := by
  obtain ⟨last, history, before, spells, reached⟩ := booked
  obtain ⟨rps, bytes⟩ := budgets_key typed known plain
  have steps := step_ask (budgets gate) ⟨tables, last, history⟩ (budgetKey credential session) now (before.trans passes)
  rw [rps, bytes] at steps
  refine ⟨now, _, Int.le_refl now, ?_, reached.next _ _ (.ask _ now) (decide_eq_true room) steps⟩
  change List.filter settled (.asked _ now (charge gate entry credential session now tables).1.isOk :: history) = _
  rw [ledger_append, tells, List.filter_cons, spells]
  cases (charge gate entry credential session now tables).1.isOk <;> rfl

theorem Booked.observed {tables : SessionTables} {clock now : Int} {log : List Proxy.Event} {who : Identity}
    {session : Text} (booked : Booked gate tables clock log) (passes : clock ≤ now) (standing : Standing log who session)
    (bytes : UInt64) (fits : (tables.lookup (budgetKey who.credential session)).all (fun entry =>
      (entry.bytes.used now).1.toNat + bytes.toNat < 2 ^ 64) = true) (e : Proxy.Event)
    (tells : spelled e = some (.moved (budgetKey who.credential session) now bytes)) :
    Booked gate (observeSession tables (budgetKey who.credential session) now bytes) now (e :: log) := by
  obtain ⟨last, history, before, spells, reached⟩ := booked
  have known : admissions history (budgetKey who.credential session) ≠ [] := by
    rw [← admissions_settled, spells]
    exact standing.admitted
  have enabled : ¬(now < last ∨ admissions history (budgetKey who.credential session) = []) :=
    not_or.mpr ⟨Int.not_lt.mpr (before.trans passes), known⟩
  have steps : Request.SessionLimits.step (budgets gate) ⟨tables, last, history⟩
      (.move (budgetKey who.credential session) now bytes) =
      some ⟨observeSession tables (budgetKey who.credential session) now bytes, now,
        .moved (budgetKey who.credential session) now bytes :: history⟩ := if_neg enabled
  refine ⟨now, _, Int.le_refl now, ?_, reached.next _ _ (.move _ now bytes) fits steps⟩
  rw [List.filter_cons, spells, ledger, ledger, List.filterMap_cons_some tells]
  rfl

theorem ledger_filterEvents (id : Nat) (head : RequestHead) (now : Int) (verdict : Verdict)
    (asked : Option Gates.ContentDecision) :
    ledger (filterEvents id head now verdict asked) = asked.toList.filterMap fun decision =>
      spelled (.decided id now decision) := by
  have silent : spelled (verdictEvent id head now verdict) = none := by cases verdict <;> rfl
  rw [ledger, filterEvents, List.filterMap_cons_none silent, List.filterMap_map]
  rfl

theorem countP_filterEvents (id : Nat) (head : RequestHead) (now : Int) (verdict : Verdict)
    (asked : Option Gates.ContentDecision) (credential session : Text) (second : Int)
    (agrees : ∀ identity, verdict = .serve identity →
      asked = identity.map fun who => .allow who.credential who.session) :
    (filterEvents id head now verdict asked).countP (forwardsFor credential session second) ≤
      (filterEvents id head now verdict asked).countP (admitsFor credential session second) := by
  have others : (asked.toList.map (Proxy.Event.decided id now)).countP (forwardsFor credential session second) = 0 := by
    apply List.countP_eq_zero.mpr
    intro e member
    obtain ⟨decision, _, rfl⟩ := List.mem_map.mp member
    exact Bool.false_ne_true
  rw [filterEvents, List.countP_cons, List.countP_cons, others]
  cases verdict with
  | refuse status reason => exact Nat.zero_le _
  | serve identity =>
    cases identity with
    | none => exact Nat.zero_le _
    | some who =>
      rw [agrees (some who) rfl]
      change 0 + (if forwardsFor credential session second (.forwarded id head (some who) now) = true then 1 else 0) ≤
        [Proxy.Event.decided id now (.allow who.credential who.session)].countP (admitsFor credential session second) + 0
      rw [List.countP_singleton]
      simp [forwardsFor, admitsFor]

section Filter
variable {s : System GateState ρ} (books : Books gate s)
include books

/-- The door's events added to the books, once the tables and what the gate allowed are known. -/
theorem Books.told (id : Nat) (head : RequestHead) (now : Int) (verdict : Verdict)
    (asked : Option Gates.ContentDecision) (next : System GateState ρ)
    (log : next.log = filterEvents id head now verdict asked ++ s.log)
    (booked : Booked gate next.door.policy.tables next.clock next.log)
    (agrees : ∀ identity, verdict = .serve identity →
      asked = identity.map fun who => .allow who.credential who.session)
    (allowed : ∀ credential marker, asked = some (.allow credential marker) →
      ∃ session entry, marker = some session ∧ '\x01' ∉ session ∧ gate.store.lookup credential = some entry) :
    Books gate next := by
  constructor
  · exact booked
  · intro other given who at_ member
    rw [log] at member ⊢
    cases List.mem_append.mp member with
    | inl new =>
      have own := filterEvents_own head now verdict asked _ new
      cases (show other = id from own)
      obtain ⟨served, rfl⟩ := filterEvents_forwarded new
      have ticket := agrees (some who) served
      obtain ⟨session, entry, marker, plain, _⟩ := allowed who.credential who.session ticket
      refine ⟨session, marker, plain, ?_⟩
      rw [Option.map_some, marker] at ticket
      rw [ledger_append, admissions_append, ledger_filterEvents, ticket]
      change admissions [.asked (budgetKey who.credential session) now true] _ ++ _ ≠ []
      rw [admissions_admitted]
      exact List.cons_ne_nil _ _
    | inr old =>
      obtain ⟨session, standing⟩ := books.stood other given who at_ old
      exact ⟨session, standing.later _⟩
  · intro other at_ credential marker member
    rw [log] at member
    cases List.mem_append.mp member with
    | inl new =>
      cases List.mem_cons.mp new with
      | inl first => cases verdict <;> cases first
      | inr rest =>
        obtain ⟨decision, inside, same⟩ := List.mem_map.mp rest
        injection same with _ _ same
        rw [same] at inside
        exact allowed credential marker (Option.mem_toList.mp inside)
    | inr old => exact books.allowed other at_ credential marker old
  · intro credential session second
    rw [log, List.countP_append, List.countP_append]
    exact Nat.add_le_add (countP_filterEvents id head now verdict asked credential session second agrees)
      (books.answered credential session second)

theorem Books.filtered (typed : Typed gate) (id : Nat) (exchange : Exchange) (moment : Moment)
    (passes : s.clock ≤ moment.unix) (room : s.door.policy.tables.keys.length < sessionTableCap) :
    Books gate (filterStep networks (contentPolicy hashes decoder formParse gate) window admission s id exchange moment) := by
  generalize policy : contentPolicy hashes decoder formParse gate = content
  have agrees : ∀ identity, (check networks content window admission exchange.head moment s.door).1 = .serve identity →
      decision networks content admission exchange.head moment s.door =
        identity.map fun who => .allow who.credential who.session := by
    intro identity served
    exact (check_serve networks content window admission exchange.head served).named
  have told := books.told id exchange.head moment.unix (check networks content window admission exchange.head moment s.door).1
    (decision networks content admission exchange.head moment s.door)
    (filterStep networks content window admission s id exchange moment) rfl
  refine told ?_ agrees ?_
  · change Booked gate (check networks content window admission exchange.head moment s.door).2.policy.tables moment.unix
      (filterEvents id exchange.head moment.unix (check networks content window admission exchange.head moment s.door).1
        (decision networks content admission exchange.head moment s.door) ++ s.log)
    cases check_asked networks content window admission exchange.head moment s.door with
    | inl unasked =>
      obtain ⟨nothing, same⟩ := unasked
      rw [same]
      refine books.booked.later passes _ ?_
      rw [ledger_filterEvents, nothing]
      rfl
    | inr asked =>
      obtain ⟨exempt, _, answer, same⟩ := asked
      rw [same]
      subst policy
      cases admits_cases hashes decoder formParse gate (contentRequest exchange.head) moment.unix s.door.policy with
      | inl denied =>
        obtain ⟨⟨status, reason, refusal⟩, tables⟩ := denied
        change Booked gate
          (admits hashes decoder formParse gate (contentRequest exchange.head) moment.unix s.door.policy).2.tables _ _
        rw [tables]
        refine books.booked.later passes _ ?_
        rw [ledger_filterEvents, answer]
        change [frontDecision (admits hashes decoder formParse gate (contentRequest exchange.head) moment.unix
          s.door.policy).1].filterMap _ = []
        rw [refusal]
        rfl
      | inr charged =>
        obtain ⟨credential, session, entry, charged⟩ := charged
        change Booked gate
          (admits hashes decoder formParse gate (contentRequest exchange.head) moment.unix s.door.policy).2.tables _ _
        rw [charged.tables]
        refine books.booked.charged typed passes room charged.known (plain_of_valid charged.valid) _ ?_
        rw [ledger_filterEvents, answer]
        change [frontDecision (admits hashes decoder formParse gate (contentRequest exchange.head) moment.unix
          s.door.policy).1].filterMap _ = _
        have verdict := charged.verdict
        split_ifs at verdict ⊢ with passed
        · rw [verdict]
          rfl
        · obtain ⟨status, reason, refusal⟩ := verdict
          rw [refusal]
          rfl
  · intro credential marker ticket
    cases check_asked networks content window admission exchange.head moment s.door with
    | inl unasked => cases unasked.1.symm.trans ticket
    | inr asked =>
      obtain ⟨exempt, _, answer, _⟩ := asked
      subst policy
      have verdict := Option.some.inj (answer.symm.trans ticket)
      change frontDecision (admits hashes decoder formParse gate (contentRequest exchange.head) moment.unix
        s.door.policy).1 = _ at verdict
      cases admits_cases hashes decoder formParse gate (contentRequest exchange.head) moment.unix s.door.policy with
      | inl denied =>
        obtain ⟨⟨status, reason, refusal⟩, _⟩ := denied
        rw [refusal] at verdict
        cases verdict
      | inr charged =>
        obtain ⟨name, session, entry, charged⟩ := charged
        have outcome := charged.verdict
        split_ifs at outcome
        · rw [outcome] at verdict
          cases verdict
          exact ⟨session, entry, rfl, plain_of_valid charged.valid, charged.known⟩
        · obtain ⟨status, reason, refusal⟩ := outcome
          rw [refusal] at verdict
          cases verdict

theorem Books.logged (kept : Kept networks (contentPolicy hashes decoder formParse gate) admission s) {id : Nat}
    {exchange : Exchange} (found : s.exchanges.lookup id = some exchange) (now : Int) (passes : s.clock ≤ now)
    (fits : (exchange.ctx.identity.all fun who => who.session.all fun session =>
      (s.door.policy.tables.lookup (budgetKey who.credential session)).all fun entry =>
        (entry.bytes.used now).1.toNat + exchange.sent.toNat < 2 ^ 64) = true) :
    Books gate (loggingStep (contentPolicy hashes decoder formParse gate) admission s id exchange now) := by
  constructor
  · cases identity : exchange.ctx.identity with
    | none =>
      unfold loggingStep
      rw [identity]
      exact books.booked.later passes [_] rfl
    | some who =>
      obtain ⟨earlier, forwarded⟩ := (kept.opened id exchange found).named who identity
      obtain ⟨session, standing⟩ := books.stood id exchange.head who earlier forwarded
      have vetted := kept.vetted id exchange.head (some who) earlier forwarded
      cases content : admission.content with
      | none => cases vetted.unnamed fun exempt other => absurd (content.symm.trans other) (by simp)
      | some exempt =>
        rw [identity, Option.all_some, standing.marker, Option.all_some] at fits
        have tells : spelled (.finished id exchange.head (some who) (authColumn exchange.ctx) exchange.uploaded
            exchange.sent now) = some (.moved (budgetKey who.credential session) now exchange.sent) := by
          obtain ⟨name, marker⟩ := who
          cases (show marker = some session from standing.marker)
          rfl
        have booked := books.booked.observed passes standing exchange.sent fits _ tells
        unfold loggingStep account
        rw [identity, content]
        change Booked gate (observes s.door.policy who.credential who.session exchange.sent now).tables now _
        rw [standing.marker]
        exact booked
  · intro other head who at_ member
    cases List.mem_cons.mp member with
    | inl first => cases first
    | inr rest =>
      obtain ⟨session, standing⟩ := books.stood other head who at_ rest
      exact ⟨session, standing.later [_]⟩
  · intro other at_ credential marker member
    cases List.mem_cons.mp member with
    | inl first => cases first
    | inr rest => exact books.allowed other at_ credential marker rest
  · intro credential session second
    change (_ :: s.log).countP _ ≤ (_ :: s.log).countP _
    rw [List.countP_cons, List.countP_cons]
    exact books.answered credential session second

theorem Books.stepped (typed : Typed gate)
    (kept : Kept networks (contentPolicy hashes decoder formParse gate) admission s) (label : Label)
    (next : System GateState ρ) (well : metersWell s label = true)
    (steps : step networks (contentPolicy hashes decoder formParse gate) window admission s label = some next) :
    Books gate next := by
  cases label with
  | newCtx head =>
    cases steps
    exact ⟨books.booked, books.stood, books.allowed, books.answered⟩
  | requestFilter id moment =>
    obtain ⟨passes, room⟩ := Bool.and_eq_true_iff.mp well
    rw [step] at steps
    split at steps
    · next exchange found =>
      split_ifs at steps with fresh
      cases steps
      exact books.filtered typed id exchange moment (of_decide_eq_true passes) (of_decide_eq_true room)
    · cases steps
  | requestBodyFilter id body =>
    rw [step] at steps
    split at steps
    · split_ifs at steps
      cases steps
      exact ⟨books.booked, books.stood, books.allowed, books.answered⟩
    · cases steps
  | respond id bytes =>
    rw [step] at steps
    split at steps
    · split_ifs at steps
      cases steps
      exact ⟨books.booked, books.stood, books.allowed, books.answered⟩
    · cases steps
  | logging id now =>
    obtain ⟨passes, fits⟩ := Bool.and_eq_true_iff.mp well
    rw [step] at steps
    split at steps
    · next exchange found =>
      cases steps
      rw [found, Option.all_some] at fits
      exact books.logged kept found now (of_decide_eq_true passes) fits
    · cases steps

end Filter

/-- The gate at boot: no session is known. -/
def freshState : GateState := ⟨∅, ∅⟩

theorem books_of_reaches (typed : Typed gate) {counter : ρ} {s : System GateState ρ}
    (reached : Reaches (machine networks (contentPolicy hashes decoder formParse gate) window admission
      ⟨freshState, counter⟩) (fun s label => metersWell s label = true) s) :
    Kept networks (contentPolicy hashes decoder formParse gate) admission s ∧ Books gate s := by
  apply reached.invariant
  · intro state begins
    refine ⟨Kept.initially _ begins, ?_⟩
    obtain ⟨door, _, _, _, silent⟩ := begins
    constructor
    · rw [silent, door]
      exact ⟨state.clock, [], Int.le_refl _, rfl, .start _ ⟨rfl, rfl⟩⟩
    · intro id head who now member
      rw [silent] at member
      cases member
    · intro id now credential marker member
      rw [silent] at member
      cases member
    · intro credential session second
      rw [silent]
      exact Nat.le_refl 0
  · intro state label next held well steps
    obtain ⟨kept, books⟩ := held
    exact ⟨kept.stepped label next steps, books.stepped typed kept label next well steps⟩

theorem Books.within (books : Books gate s) : WithinBudgets (budgets gate) (ledger s.log) := by
  obtain ⟨last, history, _, spells, reached⟩ := books.booked
  rw [← spells]
  apply within_settled
  exact (reached.invariant (Accounted (budgets gate)) (accounted_initial (budgets gate))
    (fun _ label next held keeps steps => accounted_step held label next keeps steps)).within

theorem Books.plain_of_forwards {s : System GateState ρ} (books : Books gate s) {credential session : Text} {second : Int}
    {e : Proxy.Event} (member : e ∈ s.log) (mine : forwardsFor credential session second e = true) : '\x01' ∉ session := by
  cases e with
  | decided id now answer => cases mine
  | refused id status reason => cases mine
  | finished id head identity auth uploaded sent now => cases mine
  | forwarded id head identity now =>
    cases identity with
    | none => cases mine
    | some who =>
      obtain ⟨_, marker, _⟩ := of_decide_eq_true mine
      obtain ⟨other, standing⟩ := books.stood id head who now member
      cases standing.marker.symm.trans marker
      exact standing.plain

/-- On every run in which the tables have room, time does not run backwards and no count
wraps: what the front sends on of a session stays within its requests a second, and no
session is admitted whose bytes of the trailing minute have reached its budget. -/
theorem front_metered (store : CredentialStore) (caps : Caps)
    (typed : ∀ credential entry rps, store.lookup credential = some entry → entry.sessionRps = some rps → rps < 2 ^ 32)
    {counter : ρ} {s : System GateState ρ}
    (reached : Reaches (machine networks (contentPolicy hashes decoder formParse (.fromCaps store caps)) window
      admission ⟨freshState, counter⟩) (fun s label => metersWell s label = true) s) :
    (∀ id head identity now exempt, .forwarded id head identity now ∈ s.log → admission.content = some exempt →
        concerns networks exempt head = true → ∃ credential session entry,
          identity = some ⟨credential, some session⟩ ∧ store.lookup credential = some entry ∧
            withinPrefix entry.keyPrefix ((contentRequest head).decodedPath decoder) = true) ∧
      (∀ credential session entry second, store.lookup credential = some entry →
        s.log.countP (forwardsFor credential session second) ≤ rpsOf (.fromCaps store caps) entry) ∧
      ∀ credential session id now newer older, s.log = newer ++ .decided id now (.allow credential (some session)) :: older →
        ∃ entry, store.lookup credential = some entry ∧
          sentBytes older credential session now < bytesPerMinOf (.fromCaps store caps) entry := by
  have types := typed_fromCaps store caps typed
  obtain ⟨kept, books⟩ := books_of_reaches types reached
  have within := books.within
  refine ⟨?_, ?_, ?_⟩
  · intro id head identity now exempt forwarded content concerned
    obtain ⟨who, state, moment, rfl, allowed⟩ := (kept.vetted id head identity now forwarded).named exempt content concerned
    exact charged_of_allow _ _ _ _ _ moment state who allowed
  · intro credential session entry second known
    by_cases none : s.log.countP (forwardsFor credential session second) = 0
    · exact Nat.le_trans (Nat.le_of_eq none) (Nat.zero_le _)
    · obtain ⟨e, member, mine⟩ := List.countP_pos_iff.mp (Nat.pos_of_ne_zero none)
      have plain := books.plain_of_forwards member mine
      calc s.log.countP (forwardsFor credential session second)
          ≤ s.log.countP (admitsFor credential session second) := books.answered credential session second
        _ ≤ admittedIn (ledger s.log) (budgetKey credential session) second :=
          countP_admitsFor_le s.log credential session second
        _ ≤ (budgets (.fromCaps store caps) (budgetKey credential session)).rps.toNat := within.rate _ second
        _ = rpsOf (.fromCaps store caps) entry := (budgets_key types known plain).1
  · intro credential session id now newer older whole
    obtain ⟨marker, entry, same, plain, known⟩ := books.allowed id now credential (some session)
      (by rw [whole]; exact List.mem_append_right newer List.mem_cons_self)
    cases same
    refine ⟨entry, known, ?_⟩
    have spelt : ledger s.log = ledger newer ++ .asked (budgetKey credential session) now true :: ledger older := by
      rw [whole, ledger_append]
      rfl
    calc sentBytes older credential session now
        ≤ observedBytes (ledger older) (budgetKey credential session) now := sentBytes_le older credential session now
      _ < (budgets (.fromCaps store caps) (budgetKey credential session)).bytesPerMin.toNat :=
          within.bytes _ now (ledger newer) (ledger older) spelt
      _ = bytesPerMinOf (.fromCaps store caps) entry := (budgets_key types known plain).2

end Runs

/-! A viewer's ticket at the door. -/

def ticketHead : RequestHead where
  method := Request.Tenants.listRequest.method
  path := Request.Tenants.listPath
  pathAndQuery := Request.Tenants.listRequest.pathAndQuery
  host := Request.Tenants.listRequest.host
  peer := some (.v4 1)
  declaredLen := none
  headers := []
  oneMethod := Request.Tenants.listRequest.oneMethod
  oneLine := Request.Tenants.listRequest.oneLine

def ticketRun : List Proxy.Label :=
  [.newCtx ticketHead, .requestFilter 0 ⟨1790380800, 0⟩, .respond 0 100, .logging 0 1790380801]

theorem front_metered_ticket :
    ∃ s, Reaches (machine hostNetworks (contentPolicy Request.Tenants.listHashes lossy
        formDecode Request.Tenants.tenantGate) freeWindow ⟨none, some [], none⟩ ⟨freshState, ()⟩)
        (fun s label => metersWell s label = true) s ∧
      s.log.countP (forwardsFor ['k'] ['v'] 1790380800) = 1 ∧
      ∀ session second, s.log.countP (forwardsFor ['k'] session second) ≤ 30 := by
  have begins : (machine hostNetworks (contentPolicy Request.Tenants.listHashes lossy
      formDecode Request.Tenants.tenantGate) freeWindow ⟨none, some [], none⟩ ⟨freshState, ()⟩).initial
      ⟨⟨freshState, ()⟩, ∅, 0, 0, 0, []⟩ := ⟨rfl, rfl, rfl, rfl, rfl⟩
  obtain ⟨s, reached, sent⟩ := exists_reached _ (fun s label => metersWell s label = true) ticketRun begins
    (fun s => s.log.countP (forwardsFor ['k'] ['v'] 1790380800) = 1) (by decide +kernel)
  refine ⟨s, reached, of_decide_eq_true sent, fun session second => ?_⟩
  apply (front_metered Request.Tenants.tenants ⟨21600, 30, 1024⟩ ?_ reached).2.1 ['k'] session
    ⟨['s'], some ['m', '/', 'a', '/'], none, none⟩ second rfl
  intro credential entry rps known limited
  obtain ⟨_, same⟩ | ⟨_, other⟩ := lookup_insert_some _ _ _ _ _ known
  · rw [same] at limited
    cases limited
  · cases other

end OriginCache.Front.Metered
