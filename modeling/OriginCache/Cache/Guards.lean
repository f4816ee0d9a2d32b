import OriginCache.Cache.Evictions

/-! What is protected right now. A lease is held by a body and shelters its key; a
watch outlives its bodies and remembers where the viewer is, which is the position
that a pin is anchored to. -/

namespace OriginCache.Cache.Guards
open Foundation.Tables SegName Ledger Picks Evictions

structure Limits where
  graceMs : Nat
  idleMs : Nat
  backBytes : Nat
  aheadBytes : Nat
deriving DecidableEq, Repr

/-- The pin is split evenly around the viewer's position. -/
def Limits.new (graceMs idleMs pinBytes : Nat) : Limits := ⟨graceMs, idleMs, pinBytes / 2, pinBytes - pinBytes / 2⟩

/-- How many bodies hold a key, and when the last one let go. -/
structure Lease where
  active : Nat
  lastEnd : Nat
deriving DecidableEq, Repr

/-- The bodies that stream a key, and the range of the most recent response. -/
structure Watch where
  readers : Nat
  lastActivity : Nat
  span : Option (Nat × Nat)
deriving DecidableEq, Repr

abbrev Leases := Table Text Lease
abbrev Watches := Table Text Watch

def leaseAcquire (leases : Leases) (key : Text) : Leases :=
  let entry := (leases.lookup key).getD ⟨0, 0⟩
  leases.insert key { entry with active := entry.active + 1 }

def leaseDrop (leases : Leases) (key : Text) (now : Nat) : Leases :=
  match leases.lookup key with
  | some entry => leases.insert key ⟨entry.active - 1, if entry.active - 1 = 0 then now else entry.lastEnd⟩
  | none => leases

def watchAcquire (watches : Watches) (key : Text) (span : Nat × Nat) (now : Nat) : Watches :=
  let entry := (watches.lookup key).getD ⟨0, 0, none⟩
  watches.insert key ⟨entry.readers + 1, now, some span⟩

/-- The guard that goes leaves its own range behind. -/
def watchDrop (watches : Watches) (key : Text) (span : Nat × Nat) (now : Nat) : Watches :=
  match watches.lookup key with
  | some entry => watches.insert key ⟨entry.readers - 1, now, some span⟩
  | none => watches

structure Protection where
  leases : Leases
  watches : Watches

def Protection.empty : Protection := ⟨∅, ∅⟩

section Answers
variable (limits : Limits)

def protectedEntry (entry : Lease) (now : Nat) : Bool :=
  0 < entry.active || (0 < entry.lastEnd && now - entry.lastEnd < limits.graceMs)

def isProtected (leases : Leases) (key : Text) (now : Nat) : Bool :=
  (leases.lookup key).any fun entry => protectedEntry limits entry now

def liveEntry (entry : Watch) (now : Nat) : Bool :=
  0 < entry.readers || now - entry.lastActivity < limits.idleMs

/-- Nothing is pinned around a position when the pin has no bytes. -/
def pinOf (entry : Watch) : Option Pin :=
  if limits.backBytes = 0 ∧ limits.aheadBytes = 0 then none
  else entry.span.map fun span => ⟨span.2 - limits.backBytes, saturatingAdd span.2 limits.aheadBytes, span.2⟩

def pin (watches : Watches) (key : Text) (now : Nat) : Option Pin :=
  (watches.lookup key).bind fun entry => if liveEntry limits entry now then pinOf limits entry else none

/-- What a budget pass asks about one key. -/
def Protection.verdict (p : Protection) (key : Text) (now : Nat) : Verdict :=
  ⟨isProtected limits p.leases key now, pin limits p.watches key now⟩

/-- The keys that a sweep of the whole cache spares; what has lapsed is forgotten. -/
def Protection.spared (p : Protection) (now : Nat) : List Text × Protection :=
  let leases := retain p.leases fun _ entry => protectedEntry limits entry now || 0 < entry.active
  let watches := retain p.watches fun _ entry => liveEntry limits entry now
  ((leases.entries.filter fun entry => protectedEntry limits entry.2 now).map Sigma.fst ++ watches.keys,
    ⟨leases, watches⟩)

end Answers

/-! The counts of a key. -/

def activeOf (leases : Leases) (key : Text) : Nat := ((leases.lookup key).map Lease.active).getD 0

def readersOf (watches : Watches) (key : Text) : Nat := ((watches.lookup key).map Watch.readers).getD 0

/-- Where the viewer of a key is. -/
def spanAt (watches : Watches) (key : Text) : Option (Nat × Nat) := (watches.lookup key).bind Watch.span

theorem activeOf_leaseAcquire (leases : Leases) (key other : Text) :
    activeOf (leaseAcquire leases key) other = activeOf leases other + if key = other then 1 else 0 := by
  unfold activeOf leaseAcquire
  by_cases same : key = other
  · rw [if_pos same, ← same, AList.lookup_insert]
    cases leases.lookup key <;> rfl
  · rw [if_neg same, AList.lookup_insert_ne (Ne.symm same)]
    rfl

theorem activeOf_leaseDrop (leases : Leases) (key other : Text) (now : Nat) :
    activeOf (leaseDrop leases key now) other = activeOf leases other - if key = other then 1 else 0 := by
  unfold activeOf leaseDrop
  cases found : leases.lookup key with
  | none =>
    by_cases same : key = other
    · rw [← same, found]
      exact (Nat.zero_sub _).symm
    · rw [if_neg same]
      rfl
  | some entry =>
    by_cases same : key = other
    · rw [if_pos same, ← same, AList.lookup_insert, found]
      rfl
    · rw [if_neg same, AList.lookup_insert_ne (Ne.symm same)]
      rfl

theorem readersOf_watchAcquire (watches : Watches) (key other : Text) (span : Nat × Nat) (now : Nat) :
    readersOf (watchAcquire watches key span now) other = readersOf watches other + if key = other then 1 else 0 := by
  unfold readersOf watchAcquire
  by_cases same : key = other
  · rw [if_pos same, ← same, AList.lookup_insert]
    cases watches.lookup key <;> rfl
  · rw [if_neg same, AList.lookup_insert_ne (Ne.symm same)]
    rfl

theorem readersOf_watchDrop (watches : Watches) (key other : Text) (span : Nat × Nat) (now : Nat) :
    readersOf (watchDrop watches key span now) other = readersOf watches other - if key = other then 1 else 0 := by
  unfold readersOf watchDrop
  cases found : watches.lookup key with
  | none =>
    by_cases same : key = other
    · rw [← same, found]
      exact (Nat.zero_sub _).symm
    · rw [if_neg same]
      rfl
  | some entry =>
    by_cases same : key = other
    · rw [if_pos same, ← same, AList.lookup_insert, found]
      rfl
    · rw [if_neg same, AList.lookup_insert_ne (Ne.symm same)]
      rfl

/-- A count that only the forgotten lack is not changed by forgetting. -/
theorem count_filter {ν : Type} (found : Option ν) (test : ν → Bool) (count : ν → Nat)
    (spares : ∀ entry, test entry = false → count entry = 0) :
    ((found.filter test).map count).getD 0 = (found.map count).getD 0 := by
  cases found with
  | none => rfl
  | some entry =>
    cases kept : test entry with
    | true => simp [Option.filter_some, kept]
    | false => simp [Option.filter_some, kept, spares entry kept]

theorem activeOf_spared (limits : Limits) (p : Protection) (now : Nat) (key : Text) :
    activeOf (p.spared limits now).2.leases key = activeOf p.leases key := by
  unfold activeOf Protection.spared
  rw [lookup_retain]
  apply count_filter
  intro entry forgotten
  simp only [Bool.or_eq_false_iff, decide_eq_false_iff_not] at forgotten
  omega

theorem readersOf_spared (limits : Limits) (p : Protection) (now : Nat) (key : Text) :
    readersOf (p.spared limits now).2.watches key = readersOf p.watches key := by
  unfold readersOf Protection.spared
  rw [lookup_retain]
  apply count_filter
  intro entry forgotten
  simp only [liveEntry, Bool.or_eq_false_iff, decide_eq_false_iff_not] at forgotten
  omega

/-- A watch that exists knows where its viewer is. -/
def Placed (watches : Watches) : Prop := ∀ key entry, watches.lookup key = some entry → entry.span.isSome = true

theorem placed_insert (watches : Watches) (placed : Placed watches) (key : Text) (readers at_ : Nat)
    (span : Nat × Nat) : Placed (watches.insert key ⟨readers, at_, some span⟩) := by
  intro other entry found
  cases lookup_insert_some _ _ _ _ _ found with
  | inl here =>
    rw [here.2]
    rfl
  | inr further => exact placed other entry further.2

theorem placed_watchDrop (watches : Watches) (placed : Placed watches) (key : Text) (span : Nat × Nat) (now : Nat) :
    Placed (watchDrop watches key span now) := by
  unfold watchDrop
  split
  · exact placed_insert watches placed key _ now span
  · exact placed

theorem placed_spared (limits : Limits) (p : Protection) (placed : Placed p.watches) (now : Nat) :
    Placed (p.spared limits now).2.watches := by
  intro key entry found
  have kept : (retain p.watches fun _ entry => liveEntry limits entry now).lookup key = some entry := found
  rw [lookup_retain] at kept
  exact placed key entry (Option.eq_some_of_filter_eq_some kept)

/-! The verdict on a key that a body holds. -/

theorem isProtected_of_active (limits : Limits) (leases : Leases) (key : Text) (now : Nat)
    (held : 0 < activeOf leases key) : isProtected limits leases key now = true := by
  unfold activeOf at held
  unfold isProtected
  cases found : leases.lookup key with
  | none =>
    rw [found] at held
    exact absurd held (Nat.lt_irrefl 0)
  | some entry =>
    rw [found] at held
    have positive : 0 < entry.active := held
    simp [protectedEntry, positive]

/-- While a body streams the key the verdict keeps the whole key or the neighbourhood
of the viewer. -/
theorem verdict_held (limits : Limits) (p : Protection) (placed : Placed p.watches) (key : Text) (now : Nat)
    (leased : 0 < activeOf p.leases key) (watched : 0 < readersOf p.watches key) :
    if limits.backBytes = 0 ∧ limits.aheadBytes = 0 then (p.verdict limits key now).holds = true
    else ∃ span, spanAt p.watches key = some span ∧ (p.verdict limits key now).pin =
      some ⟨span.2 - limits.backBytes, saturatingAdd span.2 limits.aheadBytes, span.2⟩ := by
  have protected_ := isProtected_of_active limits p.leases key now leased
  unfold readersOf at watched
  cases found : p.watches.lookup key with
  | none =>
    rw [found] at watched
    exact absurd watched (Nat.lt_irrefl 0)
  | some entry =>
    rw [found] at watched
    have live : liveEntry limits entry now = true := by
      have positive : 0 < entry.readers := watched
      simp [liveEntry, positive]
    have answer : (p.verdict limits key now).pin = pinOf limits entry := by
      simp only [Protection.verdict, pin, found, Option.bind_some, live, if_true]
    obtain ⟨span, known⟩ := Option.isSome_iff_exists.mp (placed key entry found)
    by_cases zero : limits.backBytes = 0 ∧ limits.aheadBytes = 0
    · rw [if_pos zero, Verdict.holds, answer, pinOf, if_pos zero]
      simp only [Protection.verdict, protected_, Option.isNone_none, Bool.and_self]
    · rw [if_neg zero]
      refine ⟨span, ?_, ?_⟩
      · rw [spanAt, found]
        exact known
      · rw [answer, pinOf, if_neg zero, known]
        rfl

end OriginCache.Cache.Guards
