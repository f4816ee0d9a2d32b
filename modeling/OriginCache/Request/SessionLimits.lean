import OriginCache.Foundation.Runs
import OriginCache.Request.SessionBudgets

/-! The sessions of the content gate over time: who was admitted when, and what was
observed of whom. The front observes bytes for sessions that it has admitted. -/

namespace OriginCache.Request.SessionLimits
open Foundation.Buckets Foundation.Tables Foundation.Runs SessionBudgets
open Foundation.Splits (numeral numeral_injective)
open Cache.SegName (Text)

structure Budget where
  rps : UInt32
  bytesPerMin : UInt64

inductive Event
  | asked (key : Text) (now : Int) (ok : Bool)
  | moved (key : Text) (now : Int) (bytes : UInt64)
deriving DecidableEq, Repr

def Event.key : Event → Text
  | .asked key _ _ => key
  | .moved key _ _ => key

def Event.time : Event → Int
  | .asked _ now _ => now
  | .moved _ now _ => now

/-- The newest event comes first. -/
structure System where
  tables : SessionTables
  clock : Int
  history : List Event

inductive Label
  | ask (key : Text) (now : Int)
  | move (key : Text) (now : Int) (bytes : UInt64)
deriving DecidableEq, Repr

/-- The admissions of a session, each counted once. -/
def admissions (history : List Event) (key : Text) : List (Int × UInt64) :=
  history.filterMap fun
    | .asked other now true => if other = key then some (now, 1) else none
    | _ => none

def transfers (history : List Event) (key : Text) : List (Int × UInt64) :=
  history.filterMap fun
    | .moved other now bytes => if other = key then some (now, bytes) else none
    | _ => none

def admittedIn (history : List Event) (key : Text) (second : Int) : Nat :=
  ((admissions history key).filter fun e => e.1 = second).length

def bytesOf (events : List (Int × UInt64)) : Nat := (events.map fun e => e.2.toNat).sum

/-- The bytes of the trailing minute. -/
def observedBytes (history : List Event) (key : Text) (now : Int) : Nat :=
  bytesOf (after (now - 60) (transfers history key))

def sessionsOf (history : List Event) : List Text := (history.map Event.key).dedup

section Gate
variable (budgets : Text → Budget)

def step (s : System) : Label → Option System
  | .ask key now =>
      if now < s.clock then none
      else
        let answer := admitSession s.tables key now (budgets key).rps.toNat (budgets key).bytesPerMin.toNat
        some ⟨answer.2, now, .asked key now answer.1.isOk :: s.history⟩
  | .move key now bytes =>
      if now < s.clock ∨ admissions s.history key = [] then none
      else some ⟨observeSession s.tables key now bytes, now, .moved key now bytes :: s.history⟩

def machine : Machine System Label := ⟨fun s => s.tables = ∅ ∧ s.history = [], step budgets⟩

structure WithinBudgets (history : List Event) : Prop where
  rate : ∀ key second, admittedIn history key second ≤ (budgets key).rps.toNat
  bytes : ∀ key now newer older, history = newer ++ .asked key now true :: older →
    observedBytes older key now < (budgets key).bytesPerMin.toNat

theorem step_ask (s : System) (key : Text) (now : Int) (passes : s.clock ≤ now) :
    step budgets s (.ask key now) =
      some ⟨(admitSession s.tables key now (budgets key).rps.toNat (budgets key).bytesPerMin.toNat).2, now,
        .asked key now (admitSession s.tables key now (budgets key).rps.toNat
          (budgets key).bytesPerMin.toNat).1.isOk :: s.history⟩ := by
  rw [step, if_neg (Int.not_lt.mpr passes)]

/-- No admission finds the table full, and no count of bytes wraps. -/
def keepsAccounts (s : System) : Label → Bool
  | .ask _ _ => s.tables.keys.length < sessionTableCap
  | .move key now bytes =>
      (s.tables.lookup key).all fun entry => (entry.bytes.used now).1.toNat + bytes.toNat < 2 ^ 64

end Gate

/-! Counting. -/

theorem toNat_total (events : List (Int × UInt64)) : (total events).toNat = bytesOf events % 2 ^ 64 := by
  induction events with
  | nil => rfl
  | cons e events ih =>
    rw [total_cons, UInt64.toNat_add, ih, bytesOf, bytesOf, List.map_cons, List.sum_cons]
    omega

theorem bytesOf_after_le {cut later : Int} (order : cut ≤ later) (events : List (Int × UInt64)) :
    bytesOf (after later events) ≤ bytesOf (after cut events) := by
  induction events with
  | nil => exact Nat.le_refl _
  | cons e events ih =>
    rw [after_cons, after_cons]
    by_cases newer : later < e.1
    · have both : cut < e.1 := Int.lt_of_le_of_lt order newer
      rw [if_pos newer, if_pos both]
      exact Nat.add_le_add_left ih _
    · rw [if_neg newer]
      by_cases between : cut < e.1
      · rw [if_pos between]
        exact ih.trans (Nat.le_add_left _ _)
      · rw [if_neg between]
        exact ih

theorem mem_admissions (history : List Event) (key : Text) (e : Int × UInt64) :
    e ∈ admissions history key ↔ e.2 = 1 ∧ .asked key e.1 true ∈ history := by
  unfold admissions
  rw [List.mem_filterMap]
  constructor
  · rintro ⟨event, member, made⟩
    cases event with
    | moved other now bytes => cases made
    | asked other now ok =>
      cases ok with
      | false => cases made
      | true =>
        simp only at made
        split_ifs at made with same
        cases made
        exact ⟨rfl, same ▸ member⟩
  · rintro ⟨one, member⟩
    exact ⟨.asked key e.1 true, member, by rw [← one]; exact if_pos rfl⟩

theorem admissions_eq_nil (history : List Event) (key : Text) (unknown : ∀ e ∈ history, e.key ≠ key) :
    admissions history key = [] := by
  apply List.eq_nil_iff_forall_not_mem.mpr
  intro e member
  exact unknown _ ((mem_admissions history key e).mp member).2 rfl

theorem transfers_eq_nil (history : List Event) (key : Text) (unknown : ∀ e ∈ history, e.key ≠ key) :
    transfers history key = [] := by
  apply List.filterMap_eq_nil_iff.mpr
  intro e member
  cases e with
  | asked other now ok => rfl
  | moved other now bytes => exact if_neg (unknown _ member)

theorem bytesOf_ones (history : List Event) (key : Text) (cut : Int) :
    bytesOf (after cut (admissions history key)) = (after cut (admissions history key)).length := by
  unfold bytesOf
  have ones : (after cut (admissions history key)).map (fun e => e.2.toNat) =
      (after cut (admissions history key)).map fun _ => 1 := by
    apply List.map_congr_left
    intro e member
    rw [((mem_admissions history key e).mp (List.mem_of_mem_filter member)).1]
    rfl
  rw [ones]
  simp

/-- Of the admissions up to now, those after the last second are this second's. -/
theorem admittedIn_now (history : List Event) (key : Text) (now : Int)
    (dated : ∀ e ∈ history, e.time ≤ now) :
    (after (now - 1) (admissions history key)).length = admittedIn history key now := by
  unfold admittedIn after
  congr 1
  apply List.filter_congr
  intro e member
  have past := dated _ ((mem_admissions history key e).mp member).2
  change e.1 ≤ now at past
  rw [decide_eq_decide]
  omega

/-! What one call does. -/

theorem makeRoom_below (table : SessionTables) (now : Int) (room : table.keys.length < sessionTableCap) :
    makeRoom table now = table := if_pos room

def entryOf (table : SessionTables) (key : Text) (now : Int) : SessionBudget :=
  (table.lookup key).getD (SessionBudget.new now)

structure Admitted (entry next : SessionBudget) (now : Int) (rps bytesPerMin : Nat) : Prop where
  rate : (total (entry.requests.prune now).buckets + 1).toNat ≤ rps
  spent : (total (entry.bytes.prune now).buckets).toNat < bytesPerMin
  requests : next.requests = (entry.requests.prune now).add now 1
  bytes : next.bytes = entry.bytes.prune now
  seen : next.lastSeen = now

structure Refused (entry next : SessionBudget) (now : Int) (rps bytesPerMin : Nat) : Prop where
  exceeds : rps < (total (entry.requests.prune now).buckets + 1).toNat ∨
    bytesPerMin ≤ (total (entry.bytes.prune now).buckets).toNat
  requests : next.requests = entry.requests.prune now
  bytes : next.bytes = entry.bytes ∨ next.bytes = entry.bytes.prune now
  seen : next.lastSeen = now

/-- A call writes the entry of its session, pruned, and with one more request if it is
admitted. -/
theorem admitSession_cases (table : SessionTables) (key : Text) (now : Int) (rps bytesPerMin : Nat) :
    ∃ next, (admitSession table key now rps bytesPerMin).2 = (makeRoom table now).insert key next ∧
      if (admitSession table key now rps bytesPerMin).1.isOk = true then
        Admitted (entryOf (makeRoom table now) key now) next now rps bytesPerMin
      else Refused (entryOf (makeRoom table now) key now) next now rps bytesPerMin := by
  generalize entry : entryOf (makeRoom table now) key now = e
  by_cases fast : rps < (total (e.requests.prune now).buckets + 1).toNat
  · have result : admitSession table key now rps bytesPerMin = (.error .sessionRateExceeded,
        (makeRoom table now).insert key { e with lastSeen := now, requests := e.requests.prune now }) := by
      subst entry
      exact if_pos fast
    rw [result]
    exact ⟨_, rfl, .inl fast, rfl, .inl rfl, rfl⟩
  · by_cases heavy : bytesPerMin ≤ (total (e.bytes.prune now).buckets).toNat
    · have result : admitSession table key now rps bytesPerMin = (.error .sessionBytesExceeded,
          (makeRoom table now).insert key ⟨e.requests.prune now, e.bytes.prune now, now⟩) := by
        subst entry
        exact (if_neg fast).trans (if_pos heavy)
      rw [result]
      exact ⟨_, rfl, .inr heavy, rfl, .inr rfl, rfl⟩
    · have result : admitSession table key now rps bytesPerMin = (.ok (),
          (makeRoom table now).insert key ⟨(e.requests.prune now).add now 1, e.bytes.prune now, now⟩) := by
        subst entry
        exact (if_neg fast).trans (if_neg heavy)
      rw [result]
      exact ⟨_, rfl, Nat.le_of_not_lt fast, Nat.lt_of_not_le heavy, rfl, rfl, rfl⟩

theorem observeSession_cases (table : SessionTables) (key : Text) (now : Int) (bytes : UInt64)
    (entry : SessionBudget) (found : table.lookup key = some entry) :
    (bytes = 0 ∧ observeSession table key now bytes = table) ∨
      observeSession table key now bytes =
        table.insert key { entry with lastSeen := now, bytes := entry.bytes.add now bytes } := by
  unfold observeSession
  by_cases zero : bytes = 0
  · exact .inl ⟨zero, if_pos zero⟩
  · rw [if_neg zero, found]
    exact .inr rfl

/-! The table against the history. -/

section Histories
variable (history : List Event) (key : Text) (now : Int)

theorem admissions_admitted : admissions (.asked key now true :: history) key = (now, 1) :: admissions history key :=
  List.filterMap_cons_some (if_pos rfl)

theorem admissions_refused (other : Text) :
    admissions (.asked other now false :: history) key = admissions history key :=
  List.filterMap_cons_none rfl

theorem admissions_moved (other : Text) (bytes : UInt64) :
    admissions (.moved other now bytes :: history) key = admissions history key :=
  List.filterMap_cons_none rfl

theorem admissions_other (e : Event) (differs : e.key ≠ key) : admissions (e :: history) key = admissions history key := by
  apply List.filterMap_cons_none
  cases e with
  | moved other at_ bytes => rfl
  | asked other at_ ok =>
    cases ok with
    | false => rfl
    | true => exact if_neg differs

theorem transfers_asked (other : Text) (ok : Bool) :
    transfers (.asked other now ok :: history) key = transfers history key :=
  List.filterMap_cons_none rfl

theorem transfers_moved (bytes : UInt64) :
    transfers (.moved key now bytes :: history) key = (now, bytes) :: transfers history key :=
  List.filterMap_cons_some (if_pos rfl)

theorem transfers_other (e : Event) (differs : e.key ≠ key) : transfers (e :: history) key = transfers history key := by
  apply List.filterMap_cons_none
  cases e with
  | moved other at_ bytes => exact if_neg differs
  | asked other at_ ok => rfl

end Histories

/-- The windows of an entry hold what the history holds of its session. -/
structure Counted (clock : Int) (history : List Event) (key : Text) (entry : SessionBudget) : Prop where
  second : entry.requests.windowSecs = 1
  minute : entry.bytes.windowSecs = 60
  requests : Tracks (clock - 1) clock entry.requests.buckets (admissions history key)
  bytes : Tracks (clock - 60) clock entry.bytes.buckets (transfers history key)

theorem Counted.later {clock now : Int} {history : List Event} {key : Text} {entry : SessionBudget}
    (counted : Counted clock history key entry) (passes : clock ≤ now) : Counted now history key entry :=
  ⟨counted.second, counted.minute, counted.requests.later (by omega) passes, counted.bytes.later (by omega) passes⟩

theorem counted_new (now : Int) (history : List Event) (key : Text) (unknown : ∀ e ∈ history, e.key ≠ key) :
    Counted now history key (SessionBudget.new now) := by
  refine ⟨rfl, rfl, ?_, ?_⟩
  · rw [admissions_eq_nil history key unknown]
    exact .empty _ _
  · rw [transfers_eq_nil history key unknown]
    exact .empty _ _

section Looks
variable {now : Int} {history : List Event} {key : Text} {entry : SessionBudget}

theorem Counted.requests_prune (counted : Counted now history key entry) :
    Tracks (now - 1) now (entry.requests.prune now).buckets (admissions history key) := by
  have pruned := counted.requests.prune
  rw [← counted.second] at pruned
  rw [← counted.second]
  exact pruned

theorem Counted.bytes_prune (counted : Counted now history key entry) :
    Tracks (now - 60) now (entry.bytes.prune now).buckets (transfers history key) := by
  have pruned := counted.bytes.prune
  rw [← counted.minute] at pruned
  rw [← counted.minute]
  exact pruned

theorem Counted.requests_total (counted : Counted now history key entry)
    (dated : ∀ e ∈ history, e.time ≤ now) :
    (total (entry.requests.prune now).buckets).toNat = admittedIn history key now % 2 ^ 64 := by
  have held := counted.requests.total_eq
  rw [← counted.second] at held
  have same : total (entry.requests.prune now).buckets = total (after (now - 1) (admissions history key)) := by
    rw [← counted.second]
    exact held
  rw [same, toNat_total, bytesOf_ones, admittedIn_now history key now dated]

theorem Counted.bytes_total (counted : Counted now history key entry) :
    (total (entry.bytes.prune now).buckets).toNat = observedBytes history key now % 2 ^ 64 := by
  have held := counted.bytes.total_eq
  rw [← counted.minute] at held
  have same : total (entry.bytes.prune now).buckets = total (after (now - 60) (transfers history key)) := by
    rw [← counted.minute]
    exact held
  rw [same, toNat_total, observedBytes]

theorem tracks_add (low : Int) (window : Window) (events : List (Int × UInt64)) (amount : UInt64)
    (from_ : low = now - window.windowSecs) (tracks : Tracks low now window.buckets events) :
    Tracks low now (window.add now amount).buckets ((now, amount) :: events) := by
  subst from_
  exact tracks.prune.push amount

theorem Counted.admitted {next : SessionBudget} {rps bytesPerMin : Nat} (counted : Counted now history key entry)
    (outcome : Admitted entry next now rps bytesPerMin) : Counted now (.asked key now true :: history) key next := by
  refine ⟨?_, ?_, ?_, ?_⟩
  · rw [outcome.requests]
    exact counted.second
  · rw [outcome.bytes]
    exact counted.minute
  · rw [outcome.requests, admissions_admitted]
    exact tracks_add _ _ _ 1 (congrArg (now - ·) counted.second).symm counted.requests_prune
  · rw [outcome.bytes, transfers_asked]
    exact counted.bytes_prune

theorem Counted.refused {next : SessionBudget} {rps bytesPerMin : Nat} (counted : Counted now history key entry)
    (outcome : Refused entry next now rps bytesPerMin) : Counted now (.asked key now false :: history) key next := by
  have bytes : next.bytes.windowSecs = 60 ∧ Tracks (now - 60) now next.bytes.buckets (transfers history key) := by
    cases outcome.bytes with
    | inl same =>
      rw [same]
      exact ⟨counted.minute, counted.bytes⟩
    | inr pruned =>
      rw [pruned]
      exact ⟨counted.minute, counted.bytes_prune⟩
  refine ⟨?_, bytes.1, ?_, ?_⟩
  · rw [outcome.requests]
    exact counted.second
  · rw [outcome.requests, admissions_refused]
    exact counted.requests_prune
  · rw [transfers_asked]
    exact bytes.2

end Looks

/-- Every event has an entry that counts it, and the budgets were kept so far. -/
structure Accounted (budgets : Text → Budget) (s : System) : Prop where
  dated : ∀ e ∈ s.history, e.time ≤ s.clock
  known : ∀ key, s.tables.lookup key = none → ∀ e ∈ s.history, e.key ≠ key
  counted : ∀ key entry, s.tables.lookup key = some entry → Counted s.clock s.history key entry
  small : ∀ key, observedBytes s.history key s.clock < 2 ^ 64
  within : WithinBudgets budgets s.history

section Keeping
variable {budgets : Text → Budget} {s : System}

theorem Accounted.entry (held : Accounted budgets s) (key : Text) {now : Int} (passes : s.clock ≤ now) :
    Counted now s.history key (entryOf s.tables key now) := by
  unfold entryOf
  cases found : s.tables.lookup key with
  | none => exact counted_new now s.history key (held.known key found)
  | some entry => exact (held.counted key entry found).later passes

theorem observedBytes_le (history : List Event) (key : Text) {clock now : Int} (passes : clock ≤ now) :
    observedBytes history key now ≤ observedBytes history key clock :=
  bytesOf_after_le (by omega) _

/-- What a new event and the entry it leaves keep of the table's accounts. -/
theorem accounted_write (held : Accounted budgets s) {now : Int} (passes : s.clock ≤ now) (e : Event)
    (dated : e.time = now) (tables : SessionTables) (entry : SessionBudget) (here : tables.lookup e.key = some entry)
    (elsewhere : ∀ key, key ≠ e.key → tables.lookup key = s.tables.lookup key)
    (counted : Counted now (e :: s.history) e.key entry)
    (small : observedBytes (e :: s.history) e.key now < 2 ^ 64) (within : WithinBudgets budgets (e :: s.history)) :
    Accounted budgets ⟨tables, now, e :: s.history⟩ := by
  refine ⟨fun e' member => ?_, fun key absent e' member => ?_, fun key found lookup => ?_, fun key => ?_, within⟩
  · cases List.mem_cons.mp member with
    | inl same => rw [same, dated]
    | inr older => exact (held.dated e' older).trans passes
  · have apart : key ≠ e.key := by
      intro same
      rw [same] at absent
      rw [here] at absent
      cases absent
    cases List.mem_cons.mp member with
    | inl same =>
      rw [same]
      exact apart.symm
    | inr older => exact held.known key ((elsewhere key apart).symm.trans absent) e' older
  · by_cases same : key = e.key
    · subst same
      rw [here] at lookup
      cases lookup
      exact counted
    · have before := (held.counted key found ((elsewhere key same).symm.trans lookup)).later passes
      refine ⟨before.second, before.minute, ?_, ?_⟩
      · rw [admissions_other s.history key e (Ne.symm same)]
        exact before.requests
      · rw [transfers_other s.history key e (Ne.symm same)]
        exact before.bytes
  · by_cases same : e.key = key
    · rw [← same]
      exact small
    · change observedBytes (e :: s.history) key now < _
      rw [observedBytes, transfers_other s.history key e same]
      exact Nat.lt_of_le_of_lt (observedBytes_le s.history key passes) (held.small key)

/-- An admission that the windows allow is within the budgets. -/
theorem within_admitted (held : Accounted budgets s) {now : Int} (passes : s.clock ≤ now) (key : Text)
    (entry : SessionBudget) (counted : Counted now s.history key entry)
    (rate : (total (entry.requests.prune now).buckets + 1).toNat ≤ (budgets key).rps.toNat)
    (spent : (total (entry.bytes.prune now).buckets).toNat < (budgets key).bytesPerMin.toNat) :
    WithinBudgets budgets (.asked key now true :: s.history) := by
  have dated : ∀ e ∈ s.history, e.time ≤ now := fun e member => (held.dated e member).trans passes
  have before := held.within.rate key now
  have word := (budgets key).rps.toNat_lt
  constructor
  · intro other second
    unfold admittedIn
    by_cases same : key = other
    · subst same
      rw [admissions_admitted, List.filter_cons]
      by_cases here : now = second
      · subst here
        have count := counted.requests_total dated
        rw [UInt64.toNat_add, count] at rate
        rw [if_pos (by simp), List.length_cons]
        change admittedIn s.history key now + 1 ≤ _
        have one : (1 : UInt64).toNat = 1 := rfl
        omega
      · rw [if_neg (by simpa using here)]
        exact held.within.rate key second
    · rw [admissions_other s.history other (.asked key now true) same]
      exact held.within.rate other second
  · intro other at_ newer older whole
    cases newer with
    | nil =>
      obtain ⟨first, rest⟩ := List.cons.inj whole
      cases first
      have count := counted.bytes_total
      have bound := Nat.lt_of_le_of_lt (observedBytes_le s.history key passes) (held.small key)
      rw [← rest]
      omega
    | cons e newer =>
      exact held.within.bytes other at_ newer older (List.cons.inj whole).2

/-- A refused request and an observation spend nothing. -/
theorem within_other (held : Accounted budgets s) (e : Event) (kept : ∀ key, admissions (e :: s.history) key =
    admissions s.history key) (other : ∀ key now, e ≠ .asked key now true) :
    WithinBudgets budgets (e :: s.history) := by
  constructor
  · intro key second
    rw [admittedIn, kept]
    exact held.within.rate key second
  · intro key at_ newer older whole
    cases newer with
    | nil => exact absurd (List.cons.inj whole).1 (other key at_)
    | cons first newer => exact held.within.bytes key at_ newer older (List.cons.inj whole).2

theorem accounted_ask (held : Accounted budgets s) (key : Text) (now : Int) (passes : s.clock ≤ now)
    (room : s.tables.keys.length < sessionTableCap) (answer : Except Sigv4.Reason Unit × SessionTables)
    (asked : admitSession s.tables key now (budgets key).rps.toNat (budgets key).bytesPerMin.toNat = answer) :
    Accounted budgets ⟨answer.2, now, .asked key now answer.1.isOk :: s.history⟩ := by
  obtain ⟨next, table, outcome⟩ := admitSession_cases s.tables key now (budgets key).rps.toNat
    (budgets key).bytesPerMin.toNat
  rw [asked, makeRoom_below s.tables now room] at table outcome
  have counted := held.entry key passes
  have small : ∀ ok, observedBytes (.asked key now ok :: s.history) key now < 2 ^ 64 := by
    intro ok
    rw [observedBytes, transfers_asked]
    exact Nat.lt_of_le_of_lt (observedBytes_le s.history key passes) (held.small key)
  rw [table]
  cases ok : answer.1.isOk with
  | true =>
    simp only [ok, if_true] at outcome
    apply accounted_write held passes (.asked key now true) rfl _ next (AList.lookup_insert _)
      (fun _ apart => AList.lookup_insert_ne apart) (counted.admitted outcome) (small true)
    exact within_admitted held passes key _ counted outcome.rate outcome.spent
  | false =>
    simp only [ok, Bool.false_eq_true, if_false] at outcome
    apply accounted_write held passes (.asked key now false) rfl _ next (AList.lookup_insert _)
      (fun _ apart => AList.lookup_insert_ne apart) (counted.refused outcome) (small false)
    exact within_other held _ (fun other => admissions_refused s.history other now key) (by simp)

theorem accounted_move (held : Accounted budgets s) (key : Text) (now : Int) (bytes : UInt64)
    (passes : s.clock ≤ now) (known : admissions s.history key ≠ [])
    (fits : keepsAccounts s (.move key now bytes) = true) :
    Accounted budgets ⟨observeSession s.tables key now bytes, now, .moved key now bytes :: s.history⟩ := by
  cases found : s.tables.lookup key with
  | none => exact absurd (admissions_eq_nil s.history key (held.known key found)) known
  | some entry =>
    have counted := (held.counted key entry found).later passes
    have bound := Nat.lt_of_le_of_lt (observedBytes_le s.history key passes) (held.small key)
    have small : observedBytes (.moved key now bytes :: s.history) key now < 2 ^ 64 := by
      have sum := counted.bytes_total
      simp only [keepsAccounts, found, Option.all_some, decide_eq_true_eq] at fits
      change (total (entry.bytes.prune now).buckets).toNat + bytes.toNat < 2 ^ 64 at fits
      rw [observedBytes, transfers_moved, after_cons, if_pos (by omega), bytesOf, List.map_cons, List.sum_cons]
      change bytes.toNat + observedBytes s.history key now < 2 ^ 64
      omega
    have within : WithinBudgets budgets (.moved key now bytes :: s.history) :=
      within_other held _ (fun other => admissions_moved s.history other now key bytes) (by simp)
    cases observeSession_cases s.tables key now bytes entry found with
    | inl nothing =>
      obtain ⟨zero, same⟩ := nothing
      subst zero
      rw [same]
      apply accounted_write held passes (.moved key now 0) rfl _ entry found (fun _ _ => rfl) _ small within
      refine ⟨counted.second, counted.minute, ?_, ?_⟩
      · rw [admissions_moved]
        exact counted.requests
      · change Tracks _ _ _ (transfers (.moved key now 0 :: s.history) key)
        rw [transfers_moved]
        exact counted.bytes.idle now
    | inr wrote =>
      rw [wrote]
      apply accounted_write held passes (.moved key now bytes) rfl _ _ (AList.lookup_insert _)
        (fun _ apart => AList.lookup_insert_ne apart) _ small within
      refine ⟨counted.second, counted.minute, ?_, ?_⟩
      · rw [admissions_moved]
        exact counted.requests
      · change Tracks _ _ _ (transfers (.moved key now bytes :: s.history) key)
        rw [transfers_moved]
        exact tracks_add _ _ _ bytes (congrArg (now - ·) counted.minute).symm counted.bytes

theorem accounted_step (held : Accounted budgets s) (label : Label) (after_ : System)
    (keeps : keepsAccounts s label = true) (steps : step budgets s label = some after_) :
    Accounted budgets after_ := by
  cases label with
  | ask key now =>
    by_cases early : now < s.clock
    · rw [step, if_pos early] at steps
      cases steps
    · have passes := Int.not_lt.mp early
      rw [step_ask budgets s key now passes] at steps
      rw [← Option.some.inj steps]
      exact accounted_ask held key now passes (of_decide_eq_true keeps) _ rfl
  | move key now bytes =>
    simp only [step] at steps
    split_ifs at steps with refused
    cases steps
    rw [not_or] at refused
    exact accounted_move held key now bytes (Int.not_lt.mp refused.1) refused.2 keeps

end Keeping

theorem accounted_initial (budgets : Text → Budget) (s : System) (begins : (machine budgets).initial s) :
    Accounted budgets s := by
  obtain ⟨tables, clock, history⟩ := s
  obtain ⟨rfl, rfl⟩ : tables = ∅ ∧ history = [] := begins
  refine ⟨by simp, by simp, fun key entry found => ?_, fun _ => Nat.two_pow_pos 64,
    fun _ _ => Nat.zero_le _, ?_⟩
  · cases found
  · intro key now newer older whole
    cases newer <;> cases whole

def viewer : Text := ['v']

def tight : Text → Budget := fun _ => ⟨5, 1⟩

def spendsAll : List Label := [.ask viewer 0, .move viewer 0 1]

theorem retain_all (table : SessionTables) (test : SessionBudget → Bool)
    (passes : ∀ key entry, table.lookup key = some entry → test entry = true) :
    SessionBudgets.retain table test = table := by
  apply AList.ext
  apply List.filter_eq_self.mpr
  intro entry member
  exact passes entry.1 entry.2 (AList.mem_lookup_iff.mpr member)

/-- What no other element comes before is sorted to the front. -/
theorem take_one_insertionSort {α : Type} (r : α → α → Prop) [DecidableRel r] [Std.Total r] [IsTrans α r]
    (items : List α) (x : α) (member : x ∈ items) (least : ∀ y ∈ items, r y x → y = x) :
    (items.insertionSort r).take 1 = [x] := by
  have same := List.perm_insertionSort r items
  have ordered := List.pairwise_insertionSort r items
  cases sorted : items.insertionSort r with
  | nil =>
    rw [sorted] at same
    rw [same.symm.eq_nil] at member
    cases member
  | cons first rest =>
    rw [sorted] at same ordered
    have here : first = x := by
      cases List.mem_cons.mp (same.mem_iff.mpr member) with
      | inl head => exact head.symm
      | inr tail =>
        exact least first (same.mem_iff.mp List.mem_cons_self) ((List.pairwise_cons.mp ordered).1 x tail)
    rw [here]
    rfl

theorem touchOrder_total (a b : Int × Text) : TouchOrder a b ∨ TouchOrder b a := by
  unfold TouchOrder
  rcases Int.lt_trichotomy a.1 b.1 with first | same | second
  · exact .inl (.inl first)
  · cases Canonical.notAfter_total a.2 b.2 with
    | inl before => exact .inl (.inr ⟨same, before⟩)
    | inr after_ => exact .inr (.inr ⟨same.symm, after_⟩)
  · exact .inr (.inl second)

theorem touchOrder_trans (a b c : Int × Text) (first : TouchOrder a b) (second : TouchOrder b c) : TouchOrder a c := by
  unfold TouchOrder at *
  rcases first with earlier | ⟨same, before⟩
  · rcases second with later | ⟨alike, _⟩
    · exact .inl (earlier.trans later)
    · exact .inl (alike ▸ earlier)
  · rcases second with later | ⟨alike, after_⟩
    · exact .inl (same ▸ later)
    · exact .inr ⟨same.trans alike, Canonical.notAfter_trans _ _ _ before after_⟩

instance : Std.Total TouchOrder := ⟨touchOrder_total⟩
instance : IsTrans (Int × Text) TouchOrder := ⟨touchOrder_trans⟩

/-- At the cap, with nobody idle, the session that was touched longest ago goes. -/
theorem makeRoom_full (table : SessionTables) (now : Int) (full : table.keys.length = sessionTableCap)
    (busy : ∀ key entry, table.lookup key = some entry → now - entry.lastSeen ≤ sessionIdleSecs)
    (key : Text) (entry : SessionBudget) (found : table.lookup key = some entry)
    (oldest : ∀ other session, table.lookup other = some session → other ≠ key →
      entry.lastSeen < session.lastSeen) : makeRoom table now = table.erase key := by
  have kept : SessionBudgets.retain table (fun session => now - session.lastSeen ≤ sessionIdleSecs) = table :=
    retain_all table _ fun other session present => decide_eq_true (busy other session present)
  unfold makeRoom
  rw [if_neg (by omega), kept, if_neg (by omega), full, Nat.sub_self]
  have front := take_one_insertionSort TouchOrder
    (table.entries.map fun entry => (entry.2.lastSeen, entry.1)) (entry.lastSeen, key)
    (List.mem_map.mpr ⟨⟨key, entry⟩, AList.mem_lookup_iff.mp found, rfl⟩)
    (fun y member before => by
      obtain ⟨⟨other, session⟩, inside, rfl⟩ := List.mem_map.mp member
      have present : table.lookup other = some session := AList.mem_lookup_iff.mpr inside
      by_cases same : other = key
      · subst same
        rw [found] at present
        cases present
        rfl
      · have later := oldest other session present same
        rcases before with earlier | ⟨alike, _⟩
        · exact absurd earlier (Int.lt_asymm later)
        · exact absurd alike (Int.ne_of_gt later))
  simp only [Nat.zero_add, front]
  rfl

section Crowd
variable {s : System}

/-- A first contact below the cap is admitted and leaves a session just touched. -/
theorem step_fresh (s : System) (key : Text) (now : Int) (passes : s.clock ≤ now)
    (absent : (makeRoom s.tables now).lookup key = none) : ∃ after_ entry,
    step tight s (.ask key now) = some after_ ∧ after_.tables = (makeRoom s.tables now).insert key entry ∧
      entry.lastSeen = now ∧ after_.clock = now ∧ after_.history = .asked key now true :: s.history := by
  obtain ⟨entry, table, outcome⟩ := admitSession_cases s.tables key now (tight key).rps.toNat
    (tight key).bytesPerMin.toNat
  have steps := step_ask tight s key now passes
  by_cases ok : (admitSession s.tables key now (tight key).rps.toNat (tight key).bytesPerMin.toNat).1.isOk = true
  · rw [if_pos ok] at outcome
    rw [ok] at steps
    exact ⟨_, entry, steps, table, outcome.seen, rfl, rfl⟩
  · rw [if_neg ok, entryOf, absent] at outcome
    have excess : 5 < ((0 : UInt64) + 1).toNat ∨ 1 ≤ (0 : UInt64).toNat := outcome.exceeds
    exact absurd excess (by decide)

/-- A crowd that fits in the table is in it afterwards, and nobody else has moved. -/
theorem crowd_enters (names : List Text) (now : Int) (s : System) (passes : s.clock ≤ now) (distinct : names.Nodup)
    (strangers : ∀ name ∈ names, s.tables.lookup name = none)
    (room : s.tables.keys.length + names.length ≤ sessionTableCap) :
    ∃ after_ recent, follow (machine tight) (fun _ _ => True) s (names.map (.ask · now)) = some after_ ∧
      after_.clock ≤ now ∧ after_.tables.keys.length = s.tables.keys.length + names.length ∧
      (∀ name ∉ names, after_.tables.lookup name = s.tables.lookup name) ∧
      (∀ name ∈ names, ∃ entry, after_.tables.lookup name = some entry ∧ entry.lastSeen = now) ∧
      after_.history = recent ++ s.history ∧ ∀ e ∈ recent, e.key ∈ names := by
  induction names generalizing s with
  | nil => exact ⟨s, [], rfl, passes, rfl, fun _ _ => rfl, by simp, rfl, by simp⟩
  | cons name names ih =>
    obtain ⟨fresh, others⟩ := List.nodup_cons.mp distinct
    rw [List.length_cons] at room
    have below := makeRoom_below s.tables now (by omega)
    have absent := strangers name List.mem_cons_self
    obtain ⟨next, entry, steps, tables, seen, clock, history⟩ := step_fresh s name now passes (by rw [below]; exact absent)
    rw [below] at tables
    have grown : next.tables.keys.length = s.tables.keys.length + 1 := by
      rw [tables]
      exact keys_insert_length s.tables name entry absent
    obtain ⟨after_, recent, run, clock', count, kept, entered, whole, theirs⟩ := ih next (Int.le_of_eq clock) others
      (fun other member => by
        have differs : other ≠ name := fun same => fresh (same ▸ member)
        rw [tables, AList.lookup_insert_ne differs]
        exact strangers other (List.mem_cons_of_mem _ member)) (by omega)
    refine ⟨after_, recent ++ [.asked name now true], ?_, clock', by rw [List.length_cons]; omega, ?_, ?_, ?_, ?_⟩
    · rw [List.map_cons, follow_cons _ steps]
      exact run
    · intro other outside
      rw [List.mem_cons, not_or] at outside
      rw [kept other outside.2, tables, AList.lookup_insert_ne outside.1]
    · intro other member
      cases List.mem_cons.mp member with
      | inl same =>
        subst same
        exact ⟨entry, by rw [kept _ fresh, tables, AList.lookup_insert], seen⟩
      | inr later => exact entered other later
    · rw [whole, history, List.append_assoc]
      rfl
    · intro e member
      cases List.mem_append.mp member with
      | inl later => exact List.mem_cons_of_mem _ (theirs e later)
      | inr here =>
        rw [List.mem_singleton.mp here]
        exact List.mem_cons_self

end Crowd

/-- Everyone else the table has a place for. -/
def crowd : List Text := (List.range 4095).map numeral

theorem crowd_distinct : crowd.Nodup :=
  List.nodup_range.map fun _ _ same => numeral_injective same

theorem viewer_not_in_crowd : viewer ∉ crowd := by
  intro member
  obtain ⟨n, _, same⟩ := List.mem_map.mp member
  have digit : 'v' ∈ numeral n := by rw [same]; exact List.mem_cons_self
  exact Foundation.Splits.not_mem_numeral n 'v' (by decide) digit

end OriginCache.Request.SessionLimits
