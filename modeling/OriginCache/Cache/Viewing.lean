import OriginCache.Foundation.Runs
import OriginCache.Cache.Budgets
import OriginCache.Cache.Guards

/-! Responses that open their staged pieces one after the other, beside the evictions.
An eviction asks for the verdict on a key before it looks at the key's files, and
everything else goes on while it deletes them. -/

namespace OriginCache.Cache.Viewing
open Foundation.Tables Foundation.Runs SegName Store Staging Ledger SegmentFiles Rows Picks Guards
open Evictions hiding Config

structure Config where
  eviction : Evictions.Config
  graceMs : Nat
  idleMs : Nat

def Config.limits (config : Config) : Limits :=
  .new config.graceMs config.idleMs config.eviction.watchPinBytes

/-! Responses. -/

/-- The guards that a response holds: its plan is older than both of them, and they go
one after the other. -/
inductive Hold
  | planned
  | leased
  | held
  | ending (lease watch : Bool)
deriving DecidableEq, Repr

def Hold.leases : Hold → Bool
  | .planned => false
  | .leased | .held => true
  | .ending lease _ => lease

def Hold.watches : Hold → Bool
  | .planned | .leased => false
  | .held => true
  | .ending _ watch => watch

/-- The pieces are those whose files the body has not opened yet. An open file is read
through its handle. -/
structure Response where
  key : Text
  span : Nat × Nat
  pieces : List Piece
  broken : Bool
  hold : Hold
deriving DecidableEq, Repr

/-! Calls of `evict_staged`. -/

/-- The two passes of the budget, and the one for the rows that cannot be kept. -/
inductive Pass
  | sparing | spending | capping
deriving DecidableEq, Repr

/-- Where the loop over the rows is, and what it knows of the row it is at. -/
inductive Visit
  | choosing
  | looked (key : Text) (verdict : Verdict)
  | viewed (key : Text) (verdict : Verdict) (row : Row)
  | deleting (key : Text) (verdict : Verdict) (picks : List FileSpan) (freed : Nat)
  | emptying (key : Text) (freed : Nat)
deriving DecidableEq, Repr

/-- The row that is being trimmed and the verdict it is trimmed under. -/
def Visit.subject : Visit → Option (Text × Verdict)
  | .looked key verdict | .viewed key verdict _ | .deleting key verdict _ _ => some (key, verdict)
  | .choosing | .emptying _ _ => none

structure Evictor where
  need : Nat
  now : Nat
  order : List Text
  pass : Pass
  rows : List Text
  visit : Visit
  touched : Nat
  freed : Nat
deriving DecidableEq, Repr

def Evictor.goes (e : Evictor) (visit : Visit) : Evictor := { e with visit := visit }

@[simp] theorem Evictor.goes_visit (e : Evictor) (visit : Visit) : (e.goes visit).visit = visit := rfl

def Evictor.start (ledger : Inner) (maxSizeBytes need now : Nat) : Evictor :=
  let order := rowsByAge ledger maxSizeBytes
  ⟨need, now, order, .sparing, order, .choosing, 0, 0⟩

structure System where
  protection : Protection
  staged : Staged
  responses : Table Nat Response
  evictors : Table Nat Evictor

section Steps
variable (config : Config)

/-- The end of a pass. -/
def Evictor.turn (e : Evictor) (ledger : Inner) : Option Evictor :=
  match e.pass with
  | .sparing => some { e with pass := .spending, rows := e.order }
  | .spending =>
      some { e with pass := .capping, rows := unkeepableRows ledger config.eviction.maxSizeBytes }
  | .capping => none

def Evictor.picks (e : Evictor) (dir : Dir) (key : Text) (pin : Option Pin) (row : Row) : List FileSpan :=
  let policy := config.eviction.evictionPolicy
  let files := survivorsOf dir key
  match e.pass with
  | .sparing => pickSpans policy files row.intervals (e.need - e.freed) pin false none e.now
  | .spending => pickSpans policy files row.intervals (e.need - e.freed) pin true none e.now
  | .capping => pickSpans policy files row.intervals 0 pin false (some (workingWindowBytes config.eviction)) e.now

/-- The next step of a call, up to the next place where it waits. -/
def advance (protection : Protection) (s : Staged) (e : Evictor) : Staged × Option Evictor :=
  match e.visit with
  | .choosing =>
      match e.rows with
      | [] => (s, e.turn config s.ledger)
      | key :: rest =>
          if e.pass ≠ .capping ∧ e.need ≤ e.freed then (s, e.turn config s.ledger)
          else
            let verdict := protection.verdict config.limits key e.now
            (s, some ({ e with rows := rest }.goes (if verdict.holds then .choosing else .looked key verdict)))
  | .looked key verdict =>
      match s.ledger.map.lookup key with
      | some row => (s, some (e.goes (.viewed key verdict row)))
      | none => (s, some (e.goes .choosing))
  | .viewed key verdict row =>
      let picks := e.picks config s.dir key verdict.pin row
      (s, some (e.goes (if picks = [] then .choosing else .deleting key verdict picks 0)))
  | .deleting key verdict (pick :: rest) freed =>
      let name := segPath key pick.1 pick.2
      ({ s with dir := s.dir.erase name },
        some (e.goes (.deleting key verdict rest (freed + fileLen s.dir name))))
  | .deleting key _ [] freed =>
      ({ s with ledger := reAdopt s.ledger key freed (survivorsOf s.dir key) e.now },
        some (e.goes (if freed = 0 then .choosing else .emptying key freed)))
  | .emptying key freed =>
      (dropEmptyRow s key, some { e with visit := .choosing, touched := e.touched + 1, freed := e.freed + freed })

inductive Label
  | plan (id : Nat) (key : Text) (start stop : Nat)
  | lease (id : Nat)
  | watch (id now : Nat)
  | openPiece (id : Nat)
  | dropWatch (id now : Nat)
  | dropLease (id now : Nat)
  | call (id need now : Nat)
  | evict (id : Nat)
  | sweep (now : Nat)
  | others (staged : Staged)

/-- A step of one response; its key stays. -/
def respond (s : System) (id : Nat) (protection : Response → Protection)
    (next : Response → Option Response) : Option System :=
  (s.responses.lookup id).bind fun r => (next r).map fun after =>
    { s with responses := s.responses.insert id after, protection := protection r }

/-- The rest of the cache may do anything to the directory and the ledger. -/
def step (s : System) : Label → Option System
  | .plan id key start stop =>
      if id ∉ s.responses ∧ start < stop ∧ stop < 2 ^ 64 then
        let plan := planStaged (segmentsForKey s.staged.dir key) start stop
        some { s with responses := s.responses.insert id ⟨key, (start, stop), plan.pieces, false, .planned⟩ }
      else none
  | .lease id =>
      respond s id (fun r => { s.protection with leases := leaseAcquire s.protection.leases r.key })
        fun r => if r.hold = .planned then some { r with hold := .leased } else none
  | .watch id now =>
      respond s id (fun r => { s.protection with watches := watchAcquire s.protection.watches r.key r.span now })
        fun r => if r.hold = .leased then some { r with hold := .held } else none
  | .openPiece id =>
      respond s id (fun _ => s.protection) fun r =>
        match r.pieces with
        | [] => none
        | piece :: rest =>
            if r.hold = .held ∧ r.broken = false then
              some (if piece.path ∈ s.staged.dir then { r with pieces := rest } else { r with broken := true })
            else none
  | .dropWatch id now =>
      respond s id (fun r => { s.protection with watches := watchDrop s.protection.watches r.key r.span now })
        fun r => if r.hold.watches = true then some { r with hold := .ending r.hold.leases false } else none
  | .dropLease id now =>
      respond s id (fun r => { s.protection with leases := leaseDrop s.protection.leases r.key now })
        fun r =>
          if r.hold.leases = true ∧ r.hold ≠ .leased then some { r with hold := .ending false r.hold.watches }
          else none
  | .call id need now =>
      if id ∈ s.evictors then none
      else some { s with
        evictors := s.evictors.insert id (.start s.staged.ledger config.eviction.maxSizeBytes need now) }
  | .evict id =>
      (s.evictors.lookup id).map fun e =>
        let out := advance config s.protection s.staged e
        { s with staged := out.1, evictors := replace s.evictors id out.2 }
  | .sweep now => some { s with protection := (s.protection.spared config.limits now).2 }
  | .others staged => some { s with staged := staged }

/-- A cache that is serving nobody, whatever it has staged. -/
def machine : Machine System Label :=
  ⟨fun s => s.protection = .empty ∧ s.responses = ∅ ∧ s.evictors = ∅, step config⟩

end Steps

/-! A call that nothing else comes in between is one eviction. -/

section Alone
variable (config : Config) (protection : Protection)

def Moves (a b : Staged × Evictor) : Prop := advance config protection a.1 a.2 = (b.1, some b.2)

/-- Where a call is between two rows. -/
def Evictor.between (e : Evictor) (rows : List Text) (out : Eviction) : Evictor :=
  { e with rows := rows, visit := .choosing, touched := out.touched, freed := out.freed }

def Evictor.visitRow (e : Evictor) (x : Eviction) (key : Text) : Eviction :=
  let verdict := fun key => protection.verdict config.limits key e.now
  match e.pass with
  | .sparing => budgetRow config.eviction verdict e.need e.now false x key
  | .spending => budgetRow config.eviction verdict e.need e.now true x key
  | .capping => capRow config.eviction verdict e.now x key

theorem moves_deleting (s : Staged) (e : Evictor) (key : Text) (verdict : Verdict) (picks : List FileSpan)
    (freed : Nat) :
    Relation.ReflTransGen (Moves config protection) (s, e.goes (.deleting key verdict picks freed))
      (⟨(dropFiles s.dir key picks).1, s.ledger⟩,
        e.goes (.deleting key verdict [] (freed + (dropFiles s.dir key picks).2))) := by
  induction picks generalizing s freed with
  | nil => exact .refl
  | cons pick rest ih =>
    have deletes : Moves config protection (s, e.goes (.deleting key verdict (pick :: rest) freed))
        (⟨s.dir.erase (segPath key pick.1 pick.2), s.ledger⟩,
          e.goes (.deleting key verdict rest (freed + fileLen s.dir (segPath key pick.1 pick.2)))) := rfl
    have later := ih ⟨s.dir.erase (segPath key pick.1 pick.2), s.ledger⟩
      (freed + fileLen s.dir (segPath key pick.1 pick.2))
    rw [Nat.add_assoc] at later
    exact .head deletes later

/-- A row that is not held is trimmed as the pass trims it. -/
theorem moves_trim (e : Evictor) (rest : List Text) (x : Eviction) (key : Text) (want : Nat) (insidePins : Bool)
    (cap : Option Nat)
    (asks : ∀ row, (e.between rest x).picks config x.staged.dir key
      (protection.verdict config.limits key e.now).pin row =
        pickSpans config.eviction.evictionPolicy (survivorsOf x.staged.dir key) row.intervals want
          (protection.verdict config.limits key e.now).pin insidePins cap e.now) :
    let out := trimInto config.eviction (fun key => protection.verdict config.limits key e.now) e.now x key want
      insidePins cap
    Relation.ReflTransGen (Moves config protection)
      (x.staged, (e.between rest x).goes (.looked key (protection.verdict config.limits key e.now)))
      (out.staged, e.between rest out) := by
  intro out
  obtain ⟨s, touched, freed⟩ := x
  generalize named : protection.verdict config.limits key e.now = verdict at asks
  let here := e.between rest ⟨s, touched, freed⟩
  let trimmed := trimRow config.eviction s key want verdict.pin insidePins cap e.now
  have trims : out = ⟨trimmed.1, if 0 < trimmed.2 then touched + 1 else touched, freed + trimmed.2⟩ := by
    subst named
    rfl
  change Relation.ReflTransGen _ (s, here.goes (.looked key verdict)) _
  cases found : s.ledger.map.lookup key with
  | none =>
    have nothing : trimmed = (s, 0) := by
      simp only [trimmed, trimRow, found]
    rw [trims, nothing]
    apply Relation.ReflTransGen.single
    simp only [Moves, Evictor.goes, advance, found]
    rfl
  | some row =>
    have picked := asks row
    have view : Moves config protection (s, here.goes (.looked key verdict)) (s, here.goes (.viewed key verdict row)) := by
      simp only [Moves, Evictor.goes, advance, found]
    apply Relation.ReflTransGen.head view
    have trims_ : trimmed = if here.picks config s.dir key verdict.pin row = [] then (s, 0)
        else
          let dropped := dropSpans s key (here.picks config s.dir key verdict.pin row) e.now
          if dropped.2 = 0 then dropped else (dropEmptyRow dropped.1 key, dropped.2) := by
      rw [picked]
      simp only [trimmed, trimRow, found]
    have choose : Moves config protection (s, here.goes (.viewed key verdict row)) (s, here.goes
        (if here.picks config s.dir key verdict.pin row = [] then .choosing
          else .deleting key verdict (here.picks config s.dir key verdict.pin row) 0)) := rfl
    generalize here.picks config s.dir key verdict.pin row = picks at trims_ choose
    apply Relation.ReflTransGen.head choose
    by_cases nothing : picks = []
    · rw [if_pos nothing] at trims_
      rw [if_pos nothing, trims, trims_]
      exact .refl
    rw [if_neg nothing] at trims_
    rw [if_neg nothing]
    apply (moves_deleting config protection s here key verdict picks 0).trans
    rw [Nat.zero_add]
    have adopts : Moves config protection
        (⟨(dropFiles s.dir key picks).1, s.ledger⟩, here.goes (.deleting key verdict [] (dropFiles s.dir key picks).2))
        ((dropSpans s key picks e.now).1, here.goes
          (if (dropFiles s.dir key picks).2 = 0 then .choosing else .emptying key (dropFiles s.dir key picks).2)) := rfl
    apply Relation.ReflTransGen.head adopts
    change trimmed = if (dropFiles s.dir key picks).2 = 0 then dropSpans s key picks e.now
      else (dropEmptyRow (dropSpans s key picks e.now).1 key, (dropFiles s.dir key picks).2) at trims_
    by_cases free : (dropFiles s.dir key picks).2 = 0
    · rw [if_pos free] at trims_
      have zero : (dropSpans s key picks e.now).2 = 0 := free
      rw [if_pos free, trims, trims_, zero]
      exact .refl
    · rw [if_neg free] at trims_
      have positive : 0 < (dropFiles s.dir key picks).2 := by omega
      rw [if_neg free, trims, trims_, if_pos positive]
      exact .single rfl

theorem moves_row (e : Evictor) (rest : List Text) (x : Eviction) (key : Text)
    (goes : ¬ (e.pass ≠ .capping ∧ e.need ≤ x.freed)) :
    Relation.ReflTransGen (Moves config protection) (x.staged, e.between (key :: rest) x)
      ((e.visitRow config protection x key).staged, e.between rest (e.visitRow config protection x key)) := by
  have looks : Moves config protection (x.staged, e.between (key :: rest) x) (x.staged, (e.between rest x).goes
      (if (protection.verdict config.limits key e.now).holds then .choosing
        else .looked key (protection.verdict config.limits key e.now))) := by
    change (if e.pass ≠ .capping ∧ e.need ≤ x.freed then _ else _) = _
    rw [if_neg goes]
    rfl
  apply Relation.ReflTransGen.head looks
  by_cases holds : (protection.verdict config.limits key e.now).holds = true
  · have same : e.visitRow config protection x key = x := by
      unfold Evictor.visitRow
      split
      · exact if_pos (Or.inr holds)
      · exact if_pos (Or.inr holds)
      · exact if_pos holds
    rw [if_pos holds, same]
    exact .refl
  · have unmet : e.pass ≠ .capping →
        ¬ (e.need ≤ x.freed ∨ (protection.verdict config.limits key e.now).holds = true) :=
      fun budget either => either.elim (fun met => goes ⟨budget, met⟩) holds
    rw [if_neg holds]
    unfold Evictor.visitRow
    split
    next sparing =>
      rw [budgetRow, if_neg (unmet (by rw [sparing]; decide))]
      apply moves_trim config protection e rest x key
      intro row
      simp only [Evictor.picks, Evictor.between, sparing]
    next spending =>
      rw [budgetRow, if_neg (unmet (by rw [spending]; decide))]
      apply moves_trim config protection e rest x key
      intro row
      simp only [Evictor.picks, Evictor.between, spending]
    next capping =>
      rw [capRow, if_neg holds]
      apply moves_trim config protection e rest x key
      intro row
      simp only [Evictor.picks, Evictor.between, capping]

/-- A pass comes to its end with what the fold over its rows gives. -/
theorem moves_rows (e : Evictor) (rows : List Text) (x : Eviction) :
    ∃ left, Relation.ReflTransGen (Moves config protection) (x.staged, e.between rows x)
        ((rows.foldl (e.visitRow config protection) x).staged,
          e.between left (rows.foldl (e.visitRow config protection) x)) ∧
      advance config protection (rows.foldl (e.visitRow config protection) x).staged
          (e.between left (rows.foldl (e.visitRow config protection) x)) =
        ((rows.foldl (e.visitRow config protection) x).staged,
          (e.between left (rows.foldl (e.visitRow config protection) x)).turn config
            (rows.foldl (e.visitRow config protection) x).staged.ledger) := by
  induction rows generalizing x with
  | nil => exact ⟨[], .refl, rfl⟩
  | cons key rest ih =>
    by_cases met : e.pass ≠ .capping ∧ e.need ≤ x.freed
    · have skips : ∀ rows : List Text, rows.foldl (e.visitRow config protection) x = x := by
        intro rows
        induction rows with
        | nil => rfl
        | cons row rows same =>
          have here : e.visitRow config protection x row = x := by
            unfold Evictor.visitRow
            split
            · exact if_pos (Or.inl met.2)
            · exact if_pos (Or.inl met.2)
            next capping => exact (met.1 capping).elim
          rw [List.foldl_cons, here, same]
      rw [skips (key :: rest)]
      exact ⟨key :: rest, .refl, if_pos met⟩
    · obtain ⟨left, later, ends⟩ := ih (e.visitRow config protection x key)
      exact ⟨left, (moves_row config protection e rest x key met).trans later, ends⟩

/-- A call that runs alone does what one eviction does, and then it is over. -/
theorem alone_evictStaged (s : Staged) (need now : Nat) :
    let out := evictStaged config.eviction (fun key => protection.verdict config.limits key now) need now s
    ∃ last : Evictor, Relation.ReflTransGen (Moves config protection)
        (s, .start s.ledger config.eviction.maxSizeBytes need now) (out.staged, last) ∧
      last.touched = out.touched ∧ last.freed = out.freed ∧
      advance config protection out.staged last = (out.staged, none) := by
  intro out
  let order := rowsByAge s.ledger config.eviction.maxSizeBytes
  let first := Evictor.start s.ledger config.eviction.maxSizeBytes need now
  obtain ⟨left, spares, turns⟩ := moves_rows config protection first order ⟨s, 0, 0⟩
  let x := order.foldl (first.visitRow config protection) ⟨s, 0, 0⟩
  let second : Evictor := { first with pass := .spending }
  obtain ⟨left', spends, turns'⟩ := moves_rows config protection second order x
  let y := order.foldl (second.visitRow config protection) x
  let third : Evictor := { first with pass := .capping }
  let capped := unkeepableRows y.staged.ledger config.eviction.maxSizeBytes
  obtain ⟨left'', caps, ends⟩ := moves_rows config protection third capped y
  have whole : capped.foldl (third.visitRow config protection) y = out := rfl
  rw [whole] at caps ends
  refine ⟨third.between left'' out, ?_, rfl, rfl, ends⟩
  have toSecond : Moves config protection (x.staged, first.between left x) (x.staged, second.between order x) := turns
  have toThird : Moves config protection (y.staged, second.between left' y) (y.staged, third.between capped y) := turns'
  exact (spares.tail toSecond).trans ((spends.tail toThird).trans caps)

end Alone

/-! The guards that are held are the guards that are counted. -/

def leaseAt (key : Text) (_ : Nat) (r : Response) : Nat := if r.key = key ∧ r.hold.leases = true then 1 else 0

def watchAt (key : Text) (_ : Nat) (r : Response) : Nat := if r.key = key ∧ r.hold.watches = true then 1 else 0

structure Counted (s : System) : Prop where
  leases : ∀ key, activeOf s.protection.leases key = weigh (leaseAt key) s.responses
  watches : ∀ key, readersOf s.protection.watches key = weigh (watchAt key) s.responses
  placed : Placed s.protection.watches

theorem Counted.leased {s : System} (counted : Counted s) {id : Nat} {r : Response}
    (found : s.responses.lookup id = some r) (holds : r.hold.leases = true) :
    0 < activeOf s.protection.leases r.key := by
  have one : leaseAt r.key id r = 1 := if_pos ⟨rfl, holds⟩
  have weighed := weight_le_weigh (leaseAt r.key) s.responses id r found
  rw [counted.leases r.key]
  omega

theorem Counted.watched {s : System} (counted : Counted s) {id : Nat} {r : Response}
    (found : s.responses.lookup id = some r) (holds : r.hold.watches = true) :
    0 < readersOf s.protection.watches r.key := by
  have one : watchAt r.key id r = 1 := if_pos ⟨rfl, holds⟩
  have weighed := weight_le_weigh (watchAt r.key) s.responses id r found
  rw [counted.watches r.key]
  omega

/-- A response that moves on keeps the counts when the guards change as it does. -/
theorem counted_respond (s after : System) (id : Nat) (protection : Response → Protection)
    (next : Response → Option Response) (counted : Counted s)
    (moves : ∀ r r', s.responses.lookup id = some r → next r = some r' →
      (∀ key, activeOf (protection r).leases key + leaseAt key id r =
        activeOf s.protection.leases key + leaseAt key id r') ∧
      (∀ key, readersOf (protection r).watches key + watchAt key id r =
        readersOf s.protection.watches key + watchAt key id r') ∧ Placed (protection r).watches)
    (steps : respond s id protection next = some after) : Counted after := by
  obtain ⟨r, found, moved⟩ := Option.bind_eq_some_iff.mp steps
  obtain ⟨r', turned, rfl⟩ := Option.map_eq_some_iff.mp moved
  obtain ⟨leases, watches, placed⟩ := moves r r' found turned
  apply Counted.mk
  · intro key
    have here := leases key
    have whole := weigh_insert (leaseAt key) s.responses id r' r found
    have before := counted.leases key
    change activeOf (protection r).leases key = weigh (leaseAt key) (s.responses.insert id r')
    omega
  · intro key
    have here := watches key
    have whole := weigh_insert (watchAt key) s.responses id r' r found
    have before := counted.watches key
    change readersOf (protection r).watches key = weigh (watchAt key) (s.responses.insert id r')
    omega
  · exact placed

theorem counted_step (config : Config) (s after : System) (label : Label) (counted : Counted s)
    (steps : step config s label = some after) : Counted after := by
  cases label with
  | plan id key start stop =>
    simp only [step] at steps
    split_ifs at steps with fresh
    cases steps
    refine ⟨fun other => ?_, fun other => ?_, counted.placed⟩
    · have nothing : ∀ r : Response, r.hold = .planned → leaseAt other id r = 0 := by
        intro r planned
        simp [leaseAt, planned, Hold.leases]
      rw [weigh_insert_absent _ _ _ _ fresh.1, nothing _ rfl, Nat.zero_add]
      exact counted.leases other
    · have nothing : ∀ r : Response, r.hold = .planned → watchAt other id r = 0 := by
        intro r planned
        simp [watchAt, planned, Hold.watches]
      rw [weigh_insert_absent _ _ _ _ fresh.1, nothing _ rfl, Nat.zero_add]
      exact counted.watches other
  | lease id =>
    refine counted_respond s after id _ _ counted ?_ steps
    intro r r' _ moved
    split_ifs at moved with planned
    cases moved
    refine ⟨fun key => ?_, fun key => ?_, counted.placed⟩
    · rw [activeOf_leaseAcquire]
      simp [leaseAt, planned, Hold.leases]
    · simp [watchAt, planned, Hold.watches]
  | watch id now =>
    refine counted_respond s after id _ _ counted ?_ steps
    intro r r' _ moved
    split_ifs at moved with leased
    cases moved
    refine ⟨fun key => ?_, fun key => ?_, placed_insert _ counted.placed _ _ _ _⟩
    · simp [leaseAt, leased, Hold.leases]
    · rw [readersOf_watchAcquire]
      simp [watchAt, leased, Hold.watches]
  | openPiece id =>
    refine counted_respond s after id _ _ counted ?_ steps
    intro r r' _ moved
    split at moved
    · cases moved
    · split_ifs at moved <;> cases moved <;> exact ⟨fun _ => rfl, fun _ => rfl, counted.placed⟩
  | dropWatch id now =>
    refine counted_respond s after id _ _ counted ?_ steps
    intro r r' found moved
    split_ifs at moved with holds
    cases moved
    refine ⟨fun key => rfl, fun key => ?_, placed_watchDrop _ counted.placed _ _ _⟩
    have one := counted.watched found holds
    rw [readersOf_watchDrop]
    by_cases same : r.key = key
    · subst same
      have mine : watchAt r.key id r = 1 := if_pos ⟨rfl, holds⟩
      have gone : watchAt r.key id { r with hold := .ending r.hold.leases false } = 0 := if_neg (by simp [Hold.watches])
      rw [if_pos rfl, mine, gone]
      omega
    · simp [watchAt, same]
  | dropLease id now =>
    refine counted_respond s after id _ _ counted ?_ steps
    intro r r' found moved
    split_ifs at moved with holds
    cases moved
    refine ⟨fun key => ?_, fun key => ?_, counted.placed⟩
    · have one := counted.leased found holds.1
      rw [activeOf_leaseDrop]
      by_cases same : r.key = key
      · subst same
        have mine : leaseAt r.key id r = 1 := if_pos ⟨rfl, holds.1⟩
        have gone : leaseAt r.key id { r with hold := .ending false r.hold.watches } = 0 :=
          if_neg (by simp [Hold.leases])
        rw [if_pos rfl, mine, gone]
        omega
      · simp [leaseAt, same]
    · rfl
  | call id need now =>
    simp only [step] at steps
    split_ifs at steps
    cases steps
    exact ⟨counted.leases, counted.watches, counted.placed⟩
  | evict id =>
    obtain ⟨e, -, rfl⟩ := Option.map_eq_some_iff.mp steps
    exact ⟨counted.leases, counted.watches, counted.placed⟩
  | sweep now =>
    cases steps
    refine ⟨fun key => ?_, fun key => ?_, placed_spared _ _ counted.placed now⟩
    · rw [activeOf_spared]
      exact counted.leases key
    · rw [readersOf_spared]
      exact counted.watches key
  | others staged =>
    cases steps
    exact ⟨counted.leases, counted.watches, counted.placed⟩

theorem counted_reached (config : Config) {s : System}
    (reached : Reaches (machine config) (fun _ _ => True) s) : Counted s := by
  refine reached.invariant Counted ?_ fun state label after counted _ steps =>
    counted_step config state after label counted steps
  rintro state ⟨free, none_, -⟩
  apply Counted.mk
  · intro key
    rw [free, none_]
    rfl
  · intro key
    rw [free, none_]
    rfl
  · rw [free]
    exact fun key entry found => nomatch found

/-! What a call deletes. -/

/-- A call never works on a key that it holds, and where it may not spend a pin it has
picked nothing inside it. -/
structure Restrained (e : Evictor) : Prop where
  free : ∀ key verdict, e.visit.subject = some (key, verdict) → verdict.holds = false
  outside : e.pass ≠ .spending → ∀ key verdict picks freed, e.visit = .deleting key verdict picks freed →
    ∀ pick ∈ picks, isOutside verdict.pin pick = true

theorem restrained_idle (e : Evictor) (idle : e.visit.subject = none) : Restrained e := by
  apply Restrained.mk
  · intro key verdict works
    rw [idle] at works
    cases works
  · intro _ key verdict picks freed visit
    rw [visit] at idle
    cases idle

theorem restrained_advance (config : Config) (protection : Protection) (s : Staged) (e after : Evictor)
    (restrained : Restrained e) (moves : (advance config protection s e).2 = some after) : Restrained after := by
  unfold advance at moves
  split at moves
  next choosing =>
    have turned : e.turn config s.ledger = some after → Restrained after := by
      intro turned
      apply restrained_idle
      unfold Evictor.turn at turned
      split at turned
      · cases turned
        rw [choosing]
        rfl
      · cases turned
        rw [choosing]
        rfl
      · cases turned
    split at moves
    · exact turned moves
    next row rest rows =>
      split_ifs at moves
      · exact turned moves
      · cases moves
        by_cases holds : (protection.verdict config.limits row e.now).holds = true
        · apply restrained_idle
          simp only [if_pos holds]
          rfl
        · simp only [if_neg holds]
          refine ⟨fun key verdict works => ?_, fun _ key verdict picks freed visit => by cases visit⟩
          cases works
          exact Bool.not_eq_true _ ▸ holds
  next key verdict looked =>
    have free := restrained.free key verdict (by rw [looked]; rfl)
    split at moves
    · cases moves
      refine ⟨fun other asked works => ?_, fun _ key verdict picks freed visit => by cases visit⟩
      cases works
      exact free
    · cases moves
      exact restrained_idle _ rfl
  next key verdict row viewed =>
    have free := restrained.free key verdict (by rw [viewed]; rfl)
    cases moves
    by_cases nothing : e.picks config s.dir key verdict.pin row = []
    · apply restrained_idle
      simp only [if_pos nothing]
      rfl
    · simp only [if_neg nothing]
      apply Restrained.mk
      · intro other asked works
        cases works
        exact free
      · intro spares other asked picks freed visit pick picked
        cases visit
        have may : ∃ need cap, pick ∈ pickSpans config.eviction.evictionPolicy (survivorsOf s.dir key) row.intervals
            need verdict.pin false cap e.now := by
          unfold Evictor.picks at picked
          split at picked
          · exact ⟨_, _, picked⟩
          next spending => exact (spares spending).elim
          · exact ⟨_, _, picked⟩
        obtain ⟨need, cap, offered⟩ := may
        have taken := ((picked_pickSpans _ _ _ need verdict.pin false cap e.now).listed pick offered).2
        unfold mayTake at taken
        simpa using (Bool.and_eq_true_iff.mp taken).2
  next key verdict pick rest freed deleting =>
    cases moves
    apply Restrained.mk
    · intro other asked works
      cases works
      exact restrained.free key verdict (by rw [deleting]; rfl)
    · intro spares other asked picks freed' visit p member
      cases visit
      exact restrained.outside spares key verdict _ freed deleting p (List.mem_cons_of_mem _ member)
  next key verdict freed deleting =>
    cases moves
    apply restrained_idle
    rw [Evictor.goes_visit]
    split_ifs <;> rfl
  next key freed emptying =>
    cases moves
    exact restrained_idle _ rfl

/-- Only the next pick of a call leaves the directory. -/
theorem erased_advance (config : Config) (protection : Protection) (s : Staged) (e : Evictor) (key : Text)
    (file : FileSpan)
    (erased : (advance config protection s e).1.dir.lookup (segPath key file.1 file.2) ≠
      s.dir.lookup (segPath key file.1 file.2)) :
    ∃ verdict rest freed, e.visit = .deleting key verdict (file :: rest) freed := by
  unfold advance at erased
  split at erased
  · split at erased
    · exact (erased rfl).elim
    · split_ifs at erased
      · exact (erased rfl).elim
      · exact (erased rfl).elim
  · split at erased <;> exact (erased rfl).elim
  · exact (erased rfl).elim
  next other verdict pick rest freed deleting =>
    by_cases same : segPath key file.1 file.2 = segPath other pick.1 pick.2
    · obtain ⟨keys, starts, stops⟩ := segPath_injective _ _ _ _ _ _ same
      have equal : file = pick := Prod.ext starts stops
      rw [keys, equal]
      exact ⟨verdict, rest, freed, deleting⟩
    · exact (erased (AList.lookup_erase_ne same)).elim
  · exact (erased rfl).elim
  next other freed emptying =>
    exfalso
    apply erased
    change (dropEmptyRow s other).dir.lookup _ = _
    unfold dropEmptyRow
    simp only
    split_ifs
    · exact AList.lookup_erase_ne (segPath_ne_segmetaPath key other file.1 file.2)
    · rfl

/-! One visit of a call to a row, from the verdict to the last file it deletes. -/

def Label.evicts : Label → Option Nat
  | .evict id => some id
  | _ => none

def visiting (s : System) (id : Nat) : Bool := (s.evictors.lookup id).any fun e => e.visit.subject.isSome

def spends (s : System) (id : Nat) : Bool := (s.evictors.lookup id).any fun e => e.pass = .spending

/-- The call does not go on to another row. -/
def Stays (id : Nat) (s : System) (label : Label) : Prop := label.evicts = some id → visiting s id = true

instance (id : Nat) (s : System) (label : Label) : Decidable (Stays id s label) := inferInstanceAs (Decidable (_ → _))

/-- The row a call works on is worked on under this protection's verdict. -/
def Asked (config : Config) (protection : Protection) (id : Nat) (s : System) : Prop :=
  ∀ e key verdict, s.evictors.lookup id = some e → e.visit.subject = some (key, verdict) →
    ∃ now, verdict = protection.verdict config.limits key now

theorem subject_advance (config : Config) (protection : Protection) (s : Staged) (e after : Evictor)
    (moves : (advance config protection s e).2 = some after) (key : Text) (verdict : Verdict)
    (works : after.visit.subject = some (key, verdict)) :
    e.visit.subject = some (key, verdict) ∨
      (e.visit.subject = none ∧ verdict = protection.verdict config.limits key e.now) := by
  unfold advance at moves
  split at moves
  next choosing =>
    have idle : e.visit.subject = none := by
      rw [choosing]
      rfl
    have turned : e.turn config s.ledger = some after → after.visit = e.visit := by
      intro turned
      unfold Evictor.turn at turned
      split at turned <;> cases turned <;> rfl
    split at moves
    · rw [turned moves, idle] at works
      cases works
    · split_ifs at moves
      · rw [turned moves, idle] at works
        cases works
      · cases moves
        rw [Evictor.goes_visit] at works
        split_ifs at works
        · cases works
        · cases works
          exact Or.inr ⟨idle, rfl⟩
  next other asked looked =>
    rw [looked]
    split at moves
    · cases moves
      exact Or.inl works
    · cases moves
      cases works
  next other asked row viewed =>
    cases moves
    rw [Evictor.goes_visit] at works
    split_ifs at works
    · cases works
    · rw [viewed]
      exact Or.inl works
  next other asked pick rest freed deleting =>
    cases moves
    rw [deleting]
    exact Or.inl works
  next other asked freed deleting =>
    cases moves
    rw [Evictor.goes_visit] at works
    split_ifs at works <;> cases works
  · cases moves
    cases works

/-- A call after a step is the one before it, or new, or has made its own step. -/
theorem evictor_step (config : Config) (s after : System) (label : Label)
    (steps : step config s label = some after) (id : Nat) (e : Evictor) (found : after.evictors.lookup id = some e) :
    s.evictors.lookup id = some e ∨ e.visit.subject = none ∨
      (label.evicts = some id ∧ ∃ before, s.evictors.lookup id = some before ∧
        (advance config s.protection s.staged before).2 = some e) := by
  have responds : ∀ other protection next, respond s other protection next = some after →
      s.evictors.lookup id = some e := by
    intro other protection next moved
    obtain ⟨r, -, turned⟩ := Option.bind_eq_some_iff.mp moved
    obtain ⟨r', -, rfl⟩ := Option.map_eq_some_iff.mp turned
    exact found
  cases label with
  | plan other key start stop =>
    simp only [step] at steps
    split_ifs at steps
    cases steps
    exact Or.inl found
  | lease other => exact Or.inl (responds other _ _ steps)
  | watch other now => exact Or.inl (responds other _ _ steps)
  | openPiece other => exact Or.inl (responds other _ _ steps)
  | dropWatch other now => exact Or.inl (responds other _ _ steps)
  | dropLease other now => exact Or.inl (responds other _ _ steps)
  | call other need now =>
    simp only [step] at steps
    split_ifs at steps
    cases steps
    cases lookup_insert_some _ _ _ _ _ found with
    | inl here =>
      right
      left
      rw [here.2]
      rfl
    | inr further => exact Or.inl further.2
  | evict other =>
    obtain ⟨before, present, rfl⟩ := Option.map_eq_some_iff.mp steps
    by_cases same : id = other
    · subst same
      have moved := (lookup_replace s.evictors id (advance config s.protection s.staged before).2).symm.trans found
      exact Or.inr (Or.inr ⟨rfl, before, present, moved⟩)
    · exact Or.inl ((lookup_replace_ne s.evictors _ same).symm.trans found)
  | sweep now =>
    cases steps
    exact Or.inl found
  | others staged =>
    cases steps
    exact Or.inl found

theorem restrained_reached (config : Config) {s : System}
    (reached : Reaches (machine config) (fun _ _ => True) s) (id : Nat) (e : Evictor)
    (found : s.evictors.lookup id = some e) : Restrained e := by
  refine reached.invariant (fun s => ∀ id e, s.evictors.lookup id = some e → Restrained e) ?_ ?_ id e found
  · rintro state ⟨-, -, none_⟩ id e present
    rw [none_] at present
    cases present
  · intro state label after earlier _ steps id e present
    rcases evictor_step config state after label steps id e present with same | idle | ⟨-, before, known, moved⟩
    · exact earlier id e same
    · exact restrained_idle e idle
    · exact restrained_advance config _ _ before e (earlier id before known) moved

/-- The first step of a visit asks for the verdict. -/
theorem asked_look (config : Config) (s looked : System) (id : Nat) (idle : visiting s id = false)
    (looks : step config s (.evict id) = some looked) : Asked config s.protection id looked := by
  obtain ⟨e, found, rfl⟩ := Option.map_eq_some_iff.mp looks
  intro after key verdict present works
  have moved := (lookup_replace s.evictors id (advance config s.protection s.staged e).2).symm.trans present
  rcases subject_advance config s.protection s.staged e after moved key verdict works with busy | ⟨-, asked⟩
  · rw [visiting, found, Option.any_some, busy] at idle
    cases idle
  · exact ⟨e.now, asked⟩

/-- Whatever else goes on, a visit keeps the verdict it began with. -/
theorem asked_visit (config : Config) (protection : Protection) (id : Nat) (labels : List Label)
    (looked last : System) (asked : Asked config protection id looked)
    (visit : follow (machine config) (Stays id) looked labels = some last) : Asked config protection id last := by
  apply follow_invariant (Asked config protection id) _ labels asked visit
  intro state label after earlier stays steps e key verdict found works
  rcases evictor_step config state after label steps id e found with same | idle | ⟨mine, before, known, moved⟩
  · exact earlier e key verdict same works
  · rw [idle] at works
    cases works
  · rcases subject_advance config _ _ before e moved key verdict works with busy | ⟨free, -⟩
    · exact earlier before key verdict known busy
    · have working := stays mine
      rw [visiting, known, Option.any_some, free] at working
      cases working

/-! The files of a plan. -/

/-- The pieces of a response are of files that meet its range. -/
def Planned (r : Response) : Prop :=
  r.span.2 < 2 ^ 64 ∧ ∀ piece ∈ r.pieces, ∃ read first last, parseSegName piece.path = some (read, first, last) ∧
    first < r.span.2 ∧ r.span.1 < last

theorem planned_respond (s after : System) (id other : Nat) (protection : Response → Protection)
    (next : Response → Option Response) (planned : ∀ id r, s.responses.lookup id = some r → Planned r)
    (keeps : ∀ r r', next r = some r' → r'.span = r.span ∧ ∀ piece ∈ r'.pieces, piece ∈ r.pieces)
    (steps : respond s other protection next = some after) (r : Response)
    (found : after.responses.lookup id = some r) : Planned r := by
  obtain ⟨before, known, moved⟩ := Option.bind_eq_some_iff.mp steps
  obtain ⟨r', turned, rfl⟩ := Option.map_eq_some_iff.mp moved
  cases lookup_insert_some _ _ _ _ _ found with
  | inl here =>
    obtain ⟨span, pieces⟩ := keeps before r' turned
    obtain ⟨bound, meets⟩ := planned other before known
    rw [here.2]
    refine ⟨span ▸ bound, fun piece member => ?_⟩
    rw [span]
    exact meets piece (pieces piece member)
  | inr further => exact planned id r further.2

theorem planned_reached (config : Config) {s : System}
    (reached : Reaches (machine config) (fun _ _ => True) s) (id : Nat) (r : Response)
    (found : s.responses.lookup id = some r) : Planned r := by
  refine reached.invariant (fun s => ∀ id r, s.responses.lookup id = some r → Planned r) ?_ ?_ id r found
  · rintro state ⟨-, none_, -⟩ id r present
    rw [none_] at present
    cases present
  · intro state label after earlier _ steps id r present
    change step config state label = some after at steps
    have moved : ∀ (r r' : Response) (hold : Hold), r' = { r with hold := hold } →
        r'.span = r.span ∧ ∀ piece ∈ r'.pieces, piece ∈ r.pieces := by
      rintro r r' hold rfl
      exact ⟨rfl, fun piece member => member⟩
    cases label with
    | plan other key start stop =>
      simp only [step] at steps
      split_ifs at steps with range
      cases steps
      cases lookup_insert_some _ _ _ _ _ present with
      | inl here =>
        rw [here.2]
        refine ⟨range.2.2, fun piece member => ?_⟩
        obtain ⟨first, last, listed, starts, stops⟩ := planFrom_meets stop start _ piece member
        obtain ⟨-, read, parsed⟩ := (mem_segmentsForKey _ _ _ _ _).mp listed
        exact ⟨read, first, last, parsed, starts, stops⟩
      | inr further => exact earlier id r further.2
    | lease other =>
      refine planned_respond state after id other _ _ earlier (fun r r' turned => ?_) steps r present
      split_ifs at turned
      exact moved r r' _ (Option.some.inj turned).symm
    | watch other now =>
      refine planned_respond state after id other _ _ earlier (fun r r' turned => ?_) steps r present
      split_ifs at turned
      exact moved r r' _ (Option.some.inj turned).symm
    | openPiece other =>
      refine planned_respond state after id other _ _ earlier (fun r r' turned => ?_) steps r present
      split at turned
      · cases turned
      next piece rest pieces =>
        split_ifs at turned
        · cases turned
          exact ⟨rfl, fun piece member => pieces ▸ List.mem_cons_of_mem _ member⟩
        · cases turned
          exact ⟨rfl, fun piece member => member⟩
    | dropWatch other now =>
      refine planned_respond state after id other _ _ earlier (fun r r' turned => ?_) steps r present
      split_ifs at turned
      exact moved r r' _ (Option.some.inj turned).symm
    | dropLease other now =>
      refine planned_respond state after id other _ _ earlier (fun r r' turned => ?_) steps r present
      split_ifs at turned
      exact moved r r' _ (Option.some.inj turned).symm
    | call other need now =>
      simp only [step] at steps
      split_ifs at steps
      cases steps
      exact earlier id r present
    | evict other =>
      obtain ⟨e, -, rfl⟩ := Option.map_eq_some_iff.mp steps
      exact earlier id r present
    | sweep now =>
      cases steps
      exact earlier id r present
    | others staged =>
      cases steps
      exact earlier id r present

/-! What a response has still to open. -/

/-- The pin of a key's viewer reaches into the file; a pin of no bytes keeps the key. -/
def Near (config : Config) (s : System) (key : Text) (file : FileSpan) : Prop :=
  config.eviction.watchPinBytes = 0 ∨ ∃ span, spanAt s.protection.watches key = some span ∧
    span.2 - config.limits.backBytes < file.2 ∧ file.1 < saturatingAdd span.2 config.limits.aheadBytes

def fileAt (s : System) (path : Text) : Option Bytes := s.staged.dir.lookup path

/-- A visit that began while a response was streaming does not delete what was near
its key's viewer then, unless it may spend the pins. -/
theorem near_kept (config : Config) (s looked last after : System) (labels : List Label) (id other : Nat)
    (r : Response) (reached : Reaches (machine config) (fun _ _ => True) s)
    (found : s.responses.lookup other = some r) (held : r.hold = .held) (idle : visiting s id = false)
    (looks : step config s (.evict id) = some looked)
    (visit : follow (machine config) (Stays id) looked labels = some last) (sparing : spends last id = false)
    (deletes : step config last (.evict id) = some after) (file : FileSpan) (near : Near config s r.key file) :
    fileAt after (segPath r.key file.1 file.2) = fileAt last (segPath r.key file.1 file.2) := by
  have counted := counted_reached config reached
  have reachedLast : Reaches (machine config) (fun _ _ => True) last := by
    have looking : Reaches (machine config) (fun _ _ => True) looked := .next s looked (.evict id) reached trivial looks
    exact follow_invariant (Reaches (machine config) fun _ _ => True)
      (fun state label after earlier _ steps => .next state after label earlier trivial steps) labels looking visit
  have asked := asked_visit config s.protection id labels looked last (asked_look config s looked id idle looks) visit
  obtain ⟨e, present, rfl⟩ := Option.map_eq_some_iff.mp deletes
  by_contra erased
  obtain ⟨verdict, rest, freed, deleting⟩ := erased_advance config last.protection last.staged e r.key file erased
  have works : e.visit.subject = some (r.key, verdict) := by
    rw [deleting]
    rfl
  obtain ⟨now, same⟩ := asked e r.key verdict present works
  have restrained := restrained_reached config reachedLast id e present
  have answer := verdict_held config.limits s.protection counted.placed r.key now
    (counted.leased found (by rw [held]; rfl)) (counted.watched found (by rw [held]; rfl))
  have free := restrained.free r.key verdict works
  rw [← same] at answer
  split_ifs at answer with zero
  · rw [answer] at free
    cases free
  · obtain ⟨span, known, pinned⟩ := answer
    have spares : e.pass ≠ .spending := by
      intro spending
      rw [spends, present, Option.any_some, spending] at sparing
      cases sparing
    have outside := restrained.outside spares r.key verdict _ freed deleting file List.mem_cons_self
    rw [pinned] at outside
    rcases near with none_ | ⟨place, at_, behind, ahead⟩
    · apply zero
      rw [Config.limits, none_]
      exact ⟨rfl, rfl⟩
    · rw [known] at at_
      cases at_
      simp only [isOutside, Option.all_some, Bool.or_eq_true, decide_eq_true_eq] at outside
      omega

/-- A response that is the key's last and no longer than the pin behind it has all of
its files near. -/
theorem near_short (config : Config) (s : System) (r : Response) (planned : Planned r)
    (latest : spanAt s.protection.watches r.key = some r.span)
    (short : r.span.2 ≤ r.span.1 + config.limits.backBytes) (piece : Piece) (unopened : piece ∈ r.pieces)
    (file : FileSpan) (bounds : file.1 < 2 ^ 64 ∧ file.2 < 2 ^ 64)
    (own : piece.path = segPath r.key file.1 file.2) : Near config s r.key file := by
  obtain ⟨bound, meets⟩ := planned
  obtain ⟨read, first, last, parsed, starts, stops⟩ := meets piece unopened
  rw [own, parseSegName_segPath r.key file.1 file.2 bounds.1 bounds.2] at parsed
  cases parsed
  refine Or.inr ⟨r.span, latest, ?_, ?_⟩
  · omega
  · unfold saturatingAdd
    omega

/-- From the verdict on, the files near the viewer outlast the visit, and so do all that
a short latest response has not opened. -/
theorem unopened_kept (config : Config) (s looked last after : System) (labels : List Label) (id other : Nat)
    (r : Response) (reached : Reaches (machine config) (fun _ _ => True) s)
    (found : s.responses.lookup other = some r) (held : r.hold = .held) (idle : visiting s id = false)
    (looks : step config s (.evict id) = some looked)
    (visit : follow (machine config) (Stays id) looked labels = some last) (sparing : spends last id = false)
    (deletes : step config last (.evict id) = some after) :
    (∀ file : FileSpan, Near config s r.key file →
      fileAt after (segPath r.key file.1 file.2) = fileAt last (segPath r.key file.1 file.2)) ∧
    (spanAt s.protection.watches r.key = some r.span → r.span.2 ≤ r.span.1 + config.limits.backBytes →
      ∀ piece ∈ r.pieces, ∀ file : FileSpan, file.1 < 2 ^ 64 ∧ file.2 < 2 ^ 64 →
        piece.path = segPath r.key file.1 file.2 → fileAt after piece.path = fileAt last piece.path) := by
  have kept := near_kept config s looked last after labels id other r reached found held idle looks visit sparing deletes
  refine ⟨kept, fun latest short piece unopened file bounds own => ?_⟩
  have near := near_short config s r (planned_reached config reached other r found) latest short piece unopened
    file bounds own
  rw [own]
  exact kept file near

/-- A magazine of ten bytes, and two bytes pinned behind a viewer and two ahead. -/
def smallPin : Config := ⟨⟨.lru, 10, 4, 4⟩, 300000, 900000⟩

/-- A key of three old files. -/
def threeFiles : System :=
  ⟨.empty,
    ⟨Budgets.filesDir [(['a'], (0, 4)), (['a'], (4, 8)), (['a'], (8, 12))],
      ⟨AList.singleton ['a'] ⟨none, 12, [⟨0, 4, 5, 0⟩, ⟨4, 8, 5, 0⟩, ⟨8, 12, 5, 0⟩], 7⟩, 12⟩⟩, ∅, ∅⟩

/-- A response to a range of the key with its guards, and a call for four bytes. -/
def watchedCall (start stop : Nat) : List Label :=
  [.plan 0 ['a'] start stop, .lease 0, .watch 0 99000, .call 1 4 100000]

theorem short_response_kept :
    ∃ last after : System, step smallPin last (.evict 1) = some after ∧
      (fileAt last (segPath ['a'] 0 4)).isSome = true ∧ fileAt after (segPath ['a'] 0 4) = none ∧
      fileAt after (segPath ['a'] 8 12) = fileAt last (segPath ['a'] 8 12) := by
  let r : Response := ⟨['a'], (10, 12), [⟨segPath ['a'] 8 12, 2, 2⟩], false, .held⟩
  let visit : List Label := [.evict 1, .plan 2 ['a'] 0 4, .evict 1]
  obtain ⟨s, reached, test⟩ := exists_reached (machine smallPin) (fun _ _ => True) (watchedCall 10 12)
    (show (machine smallPin).initial threeFiles from ⟨rfl, rfl, rfl⟩)
    (fun s => s.responses.lookup 0 = some r && !visiting s 1 && spanAt s.protection.watches ['a'] = some (10, 12) &&
      (step smallPin s (.evict 1)).any fun looked =>
        (follow (machine smallPin) (Stays 1) looked visit).any fun last =>
          !spends last 1 && (fileAt last (segPath ['a'] 0 4)).isSome &&
            (step smallPin last (.evict 1)).any fun after => (fileAt after (segPath ['a'] 0 4)).isNone)
    (by decide +kernel)
  simp only [Bool.and_eq_true, Option.any_eq_true, decide_eq_true_eq, Bool.not_eq_true'] at test
  obtain ⟨⟨⟨found, idle⟩, latest⟩, looked, looks, last, followed, ⟨sparing, before⟩, after, deletes, gone⟩ := test
  have kept := unopened_kept smallPin s looked last after visit 1 0 r reached found rfl idle looks followed sparing deletes
  have own := kept.2 latest (by decide) ⟨segPath ['a'] 8 12, 2, 2⟩ List.mem_cons_self (8, 12) (by decide) rfl
  exact ⟨last, after, deletes, before, Option.isNone_iff_eq_none.mp gone, own⟩

def unopened (s : System) (id : Nat) (path : Text) : Bool :=
  (s.responses.lookup id).any fun r => r.hold = .held && r.pieces.any fun piece => piece.path = path

/-- The front of a response of twelve bytes lies before the pin at its end: the first
pass takes the file the body was about to open. -/
theorem front_deleted :
    ∃ s after broken : System, Reaches (machine smallPin) (fun _ _ => True) s ∧
      step smallPin s (.evict 1) = some after ∧ spends s 1 = false ∧
      unopened s 0 (segPath ['a'] 0 4) = true ∧ (fileAt s (segPath ['a'] 0 4)).isSome = true ∧
      fileAt after (segPath ['a'] 0 4) = none ∧ step smallPin after (.openPiece 0) = some broken ∧
      ((broken.responses.lookup 0).any fun r => r.hold = .held && r.broken) = true := by
  obtain ⟨s, reached, test⟩ := exists_reached (machine smallPin) (fun _ _ => True)
    (watchedCall 0 12 ++ [.evict 1, .evict 1, .evict 1])
    (show (machine smallPin).initial threeFiles from ⟨rfl, rfl, rfl⟩)
    (fun s => !spends s 1 && unopened s 0 (segPath ['a'] 0 4) && (fileAt s (segPath ['a'] 0 4)).isSome &&
      (step smallPin s (.evict 1)).any fun after => (fileAt after (segPath ['a'] 0 4)).isNone &&
        (step smallPin after (.openPiece 0)).any fun broken =>
          (broken.responses.lookup 0).any fun r => r.hold = .held && r.broken)
    (by decide +kernel)
  simp only [Bool.and_eq_true, Option.any_eq_true, Bool.not_eq_true'] at test
  obtain ⟨⟨⟨sparing, waits⟩, before⟩, after, deletes, gone, broken, opens, fails⟩ := test
  refine ⟨s, after, broken, reached, deletes, sparing, waits, before, Option.isNone_iff_eq_none.mp gone, opens, ?_⟩
  simpa only [Bool.and_eq_true, Option.any_eq_true] using fails

end OriginCache.Cache.Viewing
