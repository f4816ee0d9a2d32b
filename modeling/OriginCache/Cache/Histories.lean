import OriginCache.Foundation.Runs
import OriginCache.Cache.Guards

/-! Guards over time: what the leases, the watches and the pins answer, against what was
acquired and dropped. -/

namespace OriginCache.Cache.Histories
open Foundation.Tables Foundation.Runs SegName Ledger Picks Guards

/-! The questions about one key, and the prunes. -/

section Questions
variable (limits : Limits)

/-- `Watches::live`. -/
def live (watches : Watches) (key : Text) (now : Nat) : Bool :=
  (watches.lookup key).any fun entry => liveEntry limits entry now

/-- `Protection::in_use`. -/
def inUse (p : Protection) (key : Text) (now : Nat) : Bool :=
  isProtected limits p.leases key now || live limits p.watches key now

def pruneLeases (leases : Leases) (now : Nat) : Leases :=
  retain leases fun _ entry => protectedEntry limits entry now || 0 < entry.active

def pruneWatches (watches : Watches) (now : Nat) : Watches := retain watches fun _ entry => liveEntry limits entry now

theorem spared_prunes (p : Protection) (now : Nat) :
    (p.spared limits now).2 = ⟨pruneLeases limits p.leases now, pruneWatches limits p.watches now⟩ := rfl

/-- The point answer and the set answer are one answer. -/
theorem inUse_iff_spared (p : Protection) (key : Text) (now : Nat) :
    inUse limits p key now = true ↔ key ∈ (p.spared limits now).1 := by
  have leased : isProtected limits p.leases key now = true ↔
      key ∈ ((pruneLeases limits p.leases now).entries.filter fun entry => protectedEntry limits entry.2 now).map Sigma.fst := by
    rw [isProtected, Option.any_eq_true, List.mem_map]
    constructor
    · rintro ⟨entry, found, protected_⟩
      have kept : (pruneLeases limits p.leases now).lookup key = some entry := by
        rw [pruneLeases, lookup_retain, found]
        simp [protected_]
      exact ⟨⟨key, entry⟩, List.mem_filter.mpr ⟨AList.mem_lookup_iff.mp kept, protected_⟩, rfl⟩
    · rintro ⟨⟨_, entry⟩, member, rfl⟩
      obtain ⟨inside, protected_⟩ := List.mem_filter.mp member
      have kept := AList.mem_lookup_iff.mpr inside
      rw [pruneLeases, lookup_retain] at kept
      exact ⟨entry, Option.eq_some_of_filter_eq_some kept, protected_⟩
  have watched : live limits p.watches key now = true ↔ key ∈ (pruneWatches limits p.watches now).keys := by
    rw [live, Option.any_eq_true, ← AList.mem_keys, ← AList.lookup_isSome, pruneWatches, lookup_retain,
      Option.isSome_filter, Option.any_eq_true]
  rw [inUse, Bool.or_eq_true, leased, watched]
  exact List.mem_append.symm

end Questions

/-! The history. -/

inductive Event
  | leased (key : Text)
  | released (key : Text) (time : Nat)
  | watched (key : Text) (span : Nat × Nat) (time : Nat)
  | left (key : Text) (span : Nat × Nat) (time : Nat)
deriving DecidableEq, Repr

@[grind =] def Event.releasedAt (key : Text) : Event → Option Nat
  | .released other time => if other = key then some time else none
  | _ => none

@[grind =] def Event.touchedAt (key : Text) : Event → Option Nat
  | .watched other _ time => if other = key then some time else none
  | .left other _ time => if other = key then some time else none
  | _ => none

@[grind =] def Event.watchedAt (key : Text) : Event → Option (Nat × Nat)
  | .watched other span _ => if other = key then some span else none
  | _ => none

/-- When a lease of the key was last dropped. -/
def lastReleased (history : List Event) (key : Text) : Option Nat := history.findSome? (Event.releasedAt key)

/-- When a watch of the key was last acquired or dropped. -/
def lastTouched (history : List Event) (key : Text) : Option Nat := history.findSome? (Event.touchedAt key)

/-- The range of the most recent response. -/
def lastWatched (history : List Event) (key : Text) : Option (Nat × Nat) := history.findSome? (Event.watchedAt key)

/-- The two tables, the guards that are out and what has happened, the newest first. -/
structure System where
  protection : Protection
  leaseGuards : Table Nat Text
  watchGuards : Table Nat (Text × (Nat × Nat))
  clock : Nat
  history : List Event

inductive Label
  | lease (guard : Nat) (key : Text) (now : Nat)
  | release (guard : Nat) (now : Nat)
  | watch (guard : Nat) (key : Text) (span : Nat × Nat) (now : Nat)
  | leave (guard : Nat) (now : Nat)
  | pruneLeases (now : Nat)
  | pruneWatches (now : Nat)
deriving DecidableEq, Repr

@[grind =] def Label.time : Label → Nat
  | .lease _ _ now => now
  | .release _ now => now
  | .watch _ _ _ now => now
  | .leave _ now => now
  | .pruneLeases now => now
  | .pruneWatches now => now

@[grind =] def Label.prunes : Label → Bool
  | .pruneLeases _ => true
  | .pruneWatches _ => true
  | _ => false

section Steps
variable (limits : Limits)

@[grind =] def step (s : System) : Label → Option System
  | .lease guard key now =>
      if guard ∈ s.leaseGuards then none
      else
        some { s with
          protection := { s.protection with leases := leaseAcquire s.protection.leases key }
          leaseGuards := s.leaseGuards.insert guard key
          clock := now
          history := .leased key :: s.history }
  | .release guard now =>
      (s.leaseGuards.lookup guard).map fun key =>
        { s with
          protection := { s.protection with leases := leaseDrop s.protection.leases key now }
          leaseGuards := s.leaseGuards.erase guard
          clock := now
          history := .released key now :: s.history }
  | .watch guard key span now =>
      if guard ∈ s.watchGuards then none
      else
        some { s with
          protection := { s.protection with watches := watchAcquire s.protection.watches key span now }
          watchGuards := s.watchGuards.insert guard (key, span)
          clock := now
          history := .watched key span now :: s.history }
  | .leave guard now =>
      (s.watchGuards.lookup guard).map fun held =>
        { s with
          protection := { s.protection with watches := watchDrop s.protection.watches held.1 held.2 now }
          watchGuards := s.watchGuards.erase guard
          clock := now
          history := .left held.1 held.2 now :: s.history }
  | .pruneLeases now =>
      some { s with protection := { s.protection with leases := pruneLeases limits s.protection.leases now }, clock := now }
  | .pruneWatches now =>
      some { s with protection := { s.protection with watches := pruneWatches limits s.protection.watches now }, clock := now }

def empty : System := ⟨.empty, ∅, ∅, 0, []⟩

def machine : Machine System Label := ⟨fun s => s = empty, step limits⟩

end Steps

/-! Where the pin is anchored. -/

/-- A drop that puts another range than the latest response's into a watch that goes on. -/
@[grind =] def strays (limits : Limits) (s : System) : Label → Bool
  | .leave guard _ =>
      (s.watchGuards.lookup guard).any fun held =>
        (s.protection.watches.lookup held.1).any fun entry =>
          (1 < entry.readers || 0 < limits.idleMs) && (limits.backBytes ≠ 0 || limits.aheadBytes ≠ 0) &&
            (lastWatched s.history held.1).any fun span => span.2 ≠ held.2.2
  | _ => false

/-- A live key is pinned around the end of its most recent response. -/
def Anchored (limits : Limits) (s : System) : Prop :=
  ∀ key now, live limits s.protection.watches key now = true → ∃ span, lastWatched s.history key = some span ∧
    pin limits s.protection.watches key now =
      if limits.backBytes = 0 ∧ limits.aheadBytes = 0 then none
      else some ⟨span.2 - limits.backBytes, saturatingAdd span.2 limits.aheadBytes, span.2⟩

/-- The entry is anchored where the latest response ends, or nobody will ask. -/
def Settled (limits : Limits) (entry : Watch) (latest : Option (Nat × Nat)) : Prop :=
  ∃ span, latest = some span ∧ ∃ own, entry.span = some own ∧
    (own.2 = span.2 ∨ (entry.readers = 0 ∧ limits.idleMs = 0) ∨ (limits.backBytes = 0 ∧ limits.aheadBytes = 0))

theorem lookup_watchAcquire (watches : Watches) (key other : Text) (span : Nat × Nat) (now : Nat) :
    (watchAcquire watches key span now).lookup other =
      if other = key then some ⟨((watches.lookup key).getD ⟨0, 0, none⟩).readers + 1, now, some span⟩
      else watches.lookup other := by
  unfold watchAcquire
  by_cases same : other = key
  · rw [if_pos same, same, AList.lookup_insert]
  · rw [if_neg same, AList.lookup_insert_ne same]

theorem lookup_watchDrop (watches : Watches) (key other : Text) (span : Nat × Nat) (now : Nat) :
    (watchDrop watches key span now).lookup other =
      if other = key then (watches.lookup key).map fun entry => ⟨entry.readers - 1, now, some span⟩
      else watches.lookup other := by
  unfold watchDrop
  cases found : watches.lookup key with
  | none =>
    by_cases same : other = key
    · rw [if_pos same, same, found]
      rfl
    · rw [if_neg same]
  | some entry =>
    by_cases same : other = key
    · rw [if_pos same, same, AList.lookup_insert]
      rfl
    · rw [if_neg same, AList.lookup_insert_ne same]

theorem lastWatched_watched (history : List Event) (key other : Text) (span : Nat × Nat) (now : Nat) :
    lastWatched (.watched key span now :: history) other = if key = other then some span else lastWatched history other := by
  by_cases same : key = other
  · simp [lastWatched, Event.watchedAt, same]
  · simp [lastWatched, Event.watchedAt, same]

theorem settled_step {limits : Limits} {s after : System} (label : Label)
    (settled : ∀ key entry, s.protection.watches.lookup key = some entry → Settled limits entry (lastWatched s.history key))
    (keeps : strays limits s label = false) (steps : step limits s label = some after) (key : Text) (entry : Watch)
    (found : after.protection.watches.lookup key = some entry) : Settled limits entry (lastWatched after.history key) := by
  cases label with
  | lease guard other now =>
    simp only [step] at steps
    split_ifs at steps
    cases steps
    exact settled key entry found
  | release guard now =>
    obtain ⟨other, -, rfl⟩ := Option.map_eq_some_iff.mp steps
    exact settled key entry found
  | watch guard other span now =>
    simp only [step] at steps
    split_ifs at steps
    cases steps
    simp only [lookup_watchAcquire] at found
    rw [lastWatched_watched]
    by_cases same : key = other
    · rw [if_pos same] at found
      cases found
      exact ⟨span, if_pos same.symm, span, rfl, .inl rfl⟩
    · rw [if_neg same] at found
      rw [if_neg (Ne.symm same)]
      exact settled key entry found
  | leave guard now =>
    obtain ⟨held, out, rfl⟩ := Option.map_eq_some_iff.mp steps
    simp only [lookup_watchDrop] at found
    change Settled limits entry (lastWatched s.history key)
    by_cases same : key = held.1
    · subst same
      rw [if_pos rfl] at found
      obtain ⟨old, present, rfl⟩ := Option.map_eq_some_iff.mp found
      obtain ⟨span, latest, -⟩ := settled held.1 old present
      refine ⟨span, latest, held.2, rfl, ?_⟩
      simp only [strays, out, present, latest, Option.any_some] at keeps
      by_cases ends : span.2 = held.2.2
      · exact .inl ends.symm
      · right
        by_cases pinless : limits.backBytes = 0 ∧ limits.aheadBytes = 0
        · exact .inr pinless
        · left
          change old.readers - 1 = 0 ∧ limits.idleMs = 0
          simp [ends] at keeps
          omega
    · rw [if_neg same] at found
      exact settled key entry found
  | pruneLeases now =>
    cases steps
    exact settled key entry found
  | pruneWatches now =>
    cases steps
    simp only [pruneWatches, lookup_retain] at found
    exact settled key entry (Option.eq_some_of_filter_eq_some found)

theorem anchored_of_settled {limits : Limits} {s : System}
    (settled : ∀ key entry, s.protection.watches.lookup key = some entry → Settled limits entry (lastWatched s.history key)) :
    Anchored limits s := by
  intro key now alive
  obtain ⟨entry, found, liveNow⟩ := (Option.any_eq_true _ _).mp alive
  obtain ⟨span, latest, own, given, anchor⟩ := settled key entry found
  refine ⟨span, latest, ?_⟩
  rw [pin, found, Option.bind_some, if_pos liveNow, pinOf]
  by_cases pinless : limits.backBytes = 0 ∧ limits.aheadBytes = 0
  · rw [if_pos pinless, if_pos pinless]
  · rw [if_neg pinless, if_neg pinless, given, Option.map_some]
    rcases anchor with same | ⟨idle, never⟩ | none_
    · rw [same]
    · simp [liveEntry, idle, never] at liveNow
    · exact absurd none_ pinless

/-- In every run in which no drop strays, every live key is pinned where its latest
response ends. -/
theorem pins_anchored (limits : Limits) (s : System)
    (reached : Reaches (machine limits) (fun s label => strays limits s label = false) s) : Anchored limits s := by
  apply anchored_of_settled
  apply Reaches.invariant (fun s => ∀ key entry, s.protection.watches.lookup key = some entry →
    Settled limits entry (lastWatched s.history key)) _ _ reached
  · rintro state rfl key entry found
    cases found
  · exact fun state label after settled keeps steps => settled_step label settled keeps steps

/-- A drop that strays leaves a live key with its pin elsewhere. -/
theorem strays_moves (limits : Limits) (s after : System) (guard now : Nat)
    (stray : strays limits s (.leave guard now) = true) (steps : step limits s (.leave guard now) = some after) :
    ¬Anchored limits after := by
  obtain ⟨held, out, rfl⟩ := Option.map_eq_some_iff.mp steps
  simp only [strays, out, Option.any_some] at stray
  obtain ⟨entry, present, facts⟩ := (Option.any_eq_true _ _).mp stray
  simp only [Bool.and_eq_true, Bool.or_eq_true, decide_eq_true_eq, Option.any_eq_true] at facts
  obtain ⟨⟨on, bytes⟩, span, latest, differs⟩ := facts
  have dropped : (watchDrop s.protection.watches held.1 held.2 now).lookup held.1 =
      some ⟨entry.readers - 1, now, some held.2⟩ := by
    rw [lookup_watchDrop, if_pos rfl, present]
    rfl
  have liveNow : liveEntry limits ⟨entry.readers - 1, now, some held.2⟩ now = true := by
    simp [liveEntry]
    omega
  intro anchored
  obtain ⟨other, known, pinned⟩ := anchored held.1 now (by rw [live, dropped]; exact liveNow)
  cases latest.symm.trans known
  rw [pin, dropped, Option.bind_some, if_pos liveNow, pinOf] at pinned
  have some_ : ¬(limits.backBytes = 0 ∧ limits.aheadBytes = 0) := by omega
  rw [if_neg some_, if_neg some_] at pinned
  simp at pinned
  exact differs pinned.2.2.symm

def viewed : Text := ['v']

def shortLimits : Limits := ⟨100, 100, 4, 4⟩

/-- The newer of two responses ends first. -/
def nested : List Label := [.watch 0 viewed (0, 10) 1, .watch 1 viewed (100, 110) 2, .leave 1 3]

theorem nested_anchored : ∃ s, Reaches (machine shortLimits) (fun s label => strays shortLimits s label = false) s ∧
    pin shortLimits s.protection.watches viewed 3 = some ⟨106, 114, 110⟩ ∧ Anchored shortLimits s := by
  obtain ⟨s, reached, test⟩ := exists_reached (machine shortLimits) (fun s label => strays shortLimits s label = false)
    nested (show (machine shortLimits).initial empty from rfl)
    (fun s => decide (pin shortLimits s.protection.watches viewed 3 = some ⟨106, 114, 110⟩)) (by decide)
  exact ⟨s, reached, of_decide_eq_true test, pins_anchored shortLimits s reached⟩

/-- The older of two responses ends first. -/
def crossed : List Label := [.watch 0 viewed (0, 10) 1, .watch 1 viewed (100, 110) 2, .leave 0 3]

/-- The newer response still streams, and the pin is back where the older one ended. -/
theorem crossed_strays : ∃ s, Reaches (machine shortLimits) (fun _ _ => True) s ∧
    live shortLimits s.protection.watches viewed 3 = true ∧ lastWatched s.history viewed = some (100, 110) ∧
    pin shortLimits s.protection.watches viewed 3 = some ⟨6, 14, 10⟩ ∧ ¬Anchored shortLimits s := by
  obtain ⟨s, reached, test⟩ := exists_reached (machine shortLimits) (fun _ _ => True) crossed
    (show (machine shortLimits).initial empty from rfl)
    (fun s => live shortLimits s.protection.watches viewed 3 && (decide (lastWatched s.history viewed = some (100, 110)) &&
      decide (pin shortLimits s.protection.watches viewed 3 = some ⟨6, 14, 10⟩))) (by decide)
  obtain ⟨alive, rest⟩ := Bool.and_eq_true_iff.mp test
  obtain ⟨latest, pinned⟩ := Bool.and_eq_true_iff.mp rest
  have last := of_decide_eq_true latest
  have here := of_decide_eq_true pinned
  refine ⟨s, reached, alive, last, here, fun anchored => ?_⟩
  obtain ⟨span, known, around⟩ := anchored viewed 3 alive
  cases last.symm.trans known
  rw [here] at around
  cases around

/-! What the guards of a key and its history say about its entries. -/

def leasesHeld (s : System) (key : Text) : Nat := weigh (fun _ held => if held = key then 1 else 0) s.leaseGuards

def watchesHeld (s : System) (key : Text) : Nat := weigh (fun _ held => if held.1 = key then 1 else 0) s.watchGuards

section Fits
variable (limits : Limits)

/-- A lease with what was held of its key and when it was last let go. -/
def LeaseFits (clock : Nat) (entry : Option Lease) (held : Nat) (last : Option Nat) : Prop :=
  match entry with
  | some entry => entry.active = held ∧ (held = 0 → last = some entry.lastEnd ∧ 0 < entry.lastEnd)
  | none => held = 0 ∧ ∀ time, last = some time → limits.graceMs ≤ clock - time

def WatchFits (clock : Nat) (entry : Option Watch) (held : Nat) (last : Option Nat) : Prop :=
  match entry with
  | some entry => entry.readers = held ∧ last = some entry.lastActivity
  | none => held = 0 ∧ ∀ time, last = some time → limits.idleMs ≤ clock - time

variable {limits} {clock now held : Nat} {last : Option Nat}

theorem LeaseFits.later {entry : Option Lease} (fits : LeaseFits limits clock entry held last) (passes : clock ≤ now) :
    LeaseFits limits now entry held last := by
  cases entry with
  | some entry => exact fits
  | none => exact ⟨fits.1, fun time released => (fits.2 time released).trans (Nat.sub_le_sub_right passes time)⟩

theorem WatchFits.later {entry : Option Watch} (fits : WatchFits limits clock entry held last) (passes : clock ≤ now) :
    WatchFits limits now entry held last := by
  cases entry with
  | some entry => exact fits
  | none => exact ⟨fits.1, fun time touched => (fits.2 time touched).trans (Nat.sub_le_sub_right passes time)⟩

theorem LeaseFits.acquire {entry : Option Lease} (fits : LeaseFits limits clock entry held last) :
    LeaseFits limits now (some { entry.getD ⟨0, 0⟩ with active := (entry.getD ⟨0, 0⟩).active + 1 }) (held + 1) last := by
  refine ⟨?_, fun none_ => absurd none_ (Nat.succ_ne_zero held)⟩
  cases entry with
  | some entry => exact congrArg (· + 1) fits.1
  | none => exact congrArg (· + 1) fits.1.symm

theorem LeaseFits.release {entry : Option Lease} (fits : LeaseFits limits clock entry (held + 1) last)
    (positive : 0 < now) :
    LeaseFits limits now (entry.map fun entry => ⟨entry.active - 1, if entry.active - 1 = 0 then now else entry.lastEnd⟩)
      held (some now) := by
  cases entry with
  | none => exact absurd fits.1 (Nat.succ_ne_zero held)
  | some entry =>
    have count : entry.active - 1 = held := by
      rw [fits.1, Nat.add_sub_cancel]
    refine ⟨count, fun none_ => ?_⟩
    simp only [count, if_pos none_]
    exact ⟨trivial, positive⟩

theorem LeaseFits.prune {entry : Option Lease} (fits : LeaseFits limits clock entry held last) (passes : clock ≤ now) :
    LeaseFits limits now (entry.filter fun entry => protectedEntry limits entry now || 0 < entry.active) held last := by
  cases entry with
  | none => exact fits.later passes
  | some entry =>
    cases kept : protectedEntry limits entry now || decide (0 < entry.active) with
    | true => rw [Option.filter_some, if_pos kept]; exact fits
    | false =>
      rw [Option.filter_some, if_neg (by rw [kept]; exact Bool.false_ne_true)]
      simp only [protectedEntry, Bool.or_eq_false_iff, Bool.and_eq_false_iff, decide_eq_false_iff_not] at kept
      have none_ : held = 0 := by
        have count := fits.1
        omega
      obtain ⟨released, positive⟩ := fits.2 none_
      refine ⟨none_, fun time given => ?_⟩
      cases released.symm.trans given
      omega

theorem LeaseFits.answer {entry : Option Lease} (fits : LeaseFits limits clock entry held last) (passes : clock ≤ now) :
    (entry.any fun entry => protectedEntry limits entry now) = true ↔
      0 < held ∨ ∃ time, last = some time ∧ now - time < limits.graceMs := by
  cases entry with
  | none =>
    obtain ⟨none_, lapsed⟩ := fits.later passes
    constructor
    · intro protected_
      cases protected_
    · rintro (some_ | ⟨time, given, within⟩)
      · omega
      · exact absurd (lapsed time given) (Nat.not_le.mpr within)
  | some entry =>
    obtain ⟨count, released⟩ := fits
    simp only [Option.any_some, protectedEntry, Bool.or_eq_true, Bool.and_eq_true, decide_eq_true_eq, count]
    by_cases some_ : 0 < held
    · exact ⟨fun _ => .inl some_, fun _ => .inl some_⟩
    · obtain ⟨given, positive⟩ := released (by omega)
      constructor
      · rintro (held_ | ⟨-, within⟩)
        · exact .inl held_
        · exact .inr ⟨_, given, within⟩
      · rintro (held_ | ⟨time, other, within⟩)
        · exact .inl held_
        · cases given.symm.trans other
          exact .inr ⟨positive, within⟩

theorem WatchFits.acquire {entry : Option Watch} {span : Nat × Nat} (fits : WatchFits limits clock entry held last) :
    WatchFits limits now (some ⟨(entry.getD ⟨0, 0, none⟩).readers + 1, now, some span⟩) (held + 1) (some now) := by
  refine ⟨?_, rfl⟩
  cases entry with
  | some entry => exact congrArg (· + 1) fits.1
  | none => exact congrArg (· + 1) fits.1.symm

theorem WatchFits.leave {entry : Option Watch} {span : Nat × Nat} (fits : WatchFits limits clock entry (held + 1) last) :
    WatchFits limits now (entry.map fun entry => ⟨entry.readers - 1, now, some span⟩) held (some now) := by
  cases entry with
  | none => exact absurd fits.1 (Nat.succ_ne_zero held)
  | some entry => exact ⟨by simp only [fits.1, Nat.add_sub_cancel], rfl⟩

theorem WatchFits.prune {entry : Option Watch} (fits : WatchFits limits clock entry held last) (passes : clock ≤ now) :
    WatchFits limits now (entry.filter fun entry => liveEntry limits entry now) held last := by
  cases entry with
  | none => exact fits.later passes
  | some entry =>
    cases kept : liveEntry limits entry now with
    | true => rw [Option.filter_some, if_pos kept]; exact fits
    | false =>
      rw [Option.filter_some, if_neg (by rw [kept]; exact Bool.false_ne_true)]
      simp only [liveEntry, Bool.or_eq_false_iff, decide_eq_false_iff_not] at kept
      obtain ⟨count, touched⟩ := fits
      refine ⟨by omega, fun time given => ?_⟩
      cases touched.symm.trans given
      omega

theorem WatchFits.answer {entry : Option Watch} (fits : WatchFits limits clock entry held last) (passes : clock ≤ now) :
    (entry.any fun entry => liveEntry limits entry now) = true ↔
      0 < held ∨ ∃ time, last = some time ∧ now - time < limits.idleMs := by
  cases entry with
  | none =>
    obtain ⟨none_, lapsed⟩ := fits.later passes
    constructor
    · intro alive
      cases alive
    · rintro (some_ | ⟨time, given, within⟩)
      · omega
      · exact absurd (lapsed time given) (Nat.not_le.mpr within)
  | some entry =>
    obtain ⟨count, touched⟩ := fits
    simp only [Option.any_some, liveEntry, Bool.or_eq_true, decide_eq_true_eq, count]
    constructor
    · exact Or.imp_right fun within => ⟨_, touched, within⟩
    · rintro (held_ | ⟨time, other, within⟩)
      · exact .inl held_
      · cases touched.symm.trans other
        exact .inr within

end Fits

theorem lookup_leaseAcquire (leases : Leases) (key other : Text) :
    (leaseAcquire leases key).lookup other =
      if other = key then some { (leases.lookup key).getD ⟨0, 0⟩ with active := ((leases.lookup key).getD ⟨0, 0⟩).active + 1 }
      else leases.lookup other := by
  unfold leaseAcquire
  by_cases same : other = key
  · rw [if_pos same, same, AList.lookup_insert]
  · rw [if_neg same, AList.lookup_insert_ne same]

theorem lookup_leaseDrop (leases : Leases) (key other : Text) (now : Nat) :
    (leaseDrop leases key now).lookup other =
      if other = key then
        (leases.lookup key).map fun entry => ⟨entry.active - 1, if entry.active - 1 = 0 then now else entry.lastEnd⟩
      else leases.lookup other := by
  unfold leaseDrop
  cases found : leases.lookup key with
  | none =>
    by_cases same : other = key
    · rw [if_pos same, same, found]
      rfl
    · rw [if_neg same]
  | some entry =>
    by_cases same : other = key
    · rw [if_pos same, same, AList.lookup_insert]
      rfl
    · rw [if_neg same, AList.lookup_insert_ne same]

theorem lastReleased_released (history : List Event) (key other : Text) (now : Nat) :
    lastReleased (.released key now :: history) other = if key = other then some now else lastReleased history other := by
  by_cases same : key = other
  · simp [lastReleased, Event.releasedAt, same]
  · simp [lastReleased, Event.releasedAt, same]

theorem lastTouched_watched (history : List Event) (key other : Text) (span : Nat × Nat) (now : Nat) :
    lastTouched (.watched key span now :: history) other = if key = other then some now else lastTouched history other := by
  by_cases same : key = other
  · simp [lastTouched, Event.touchedAt, same]
  · simp [lastTouched, Event.touchedAt, same]

theorem lastTouched_left (history : List Event) (key other : Text) (span : Nat × Nat) (now : Nat) :
    lastTouched (.left key span now :: history) other = if key = other then some now else lastTouched history other := by
  by_cases same : key = other
  · simp [lastTouched, Event.touchedAt, same]
  · simp [lastTouched, Event.touchedAt, same]

/-! Runs under one clock. -/

/-- The clock is positive and does not go back. -/
def ticks (s : System) (label : Label) : Prop := s.clock ≤ label.time ∧ 0 < label.time

instance (s : System) (label : Label) : Decidable (ticks s label) := inferInstanceAs (Decidable (_ ∧ _))

structure Kept (limits : Limits) (s : System) : Prop where
  leases : ∀ key, LeaseFits limits s.clock (s.protection.leases.lookup key) (leasesHeld s key) (lastReleased s.history key)
  watches : ∀ key, WatchFits limits s.clock (s.protection.watches.lookup key) (watchesHeld s key)
    (lastTouched s.history key)

theorem kept_step {limits : Limits} {s after : System} (label : Label) (kept : Kept limits s) (passes : ticks s label)
    (steps : step limits s label = some after) : Kept limits after := by
  obtain ⟨order, positive⟩ := passes
  cases label with
  | lease guard key now =>
    simp only [step] at steps
    split_ifs at steps with known
    cases steps
    refine ⟨fun other => ?_, fun other => (kept.watches other).later order⟩
    have held : weigh (fun _ held => if held = other then 1 else 0) (s.leaseGuards.insert guard key) =
        leasesHeld s other + if key = other then 1 else 0 := by
      rw [weigh_insert_absent _ _ _ _ known, Nat.add_comm]
      rfl
    change LeaseFits limits now ((leaseAcquire s.protection.leases key).lookup other) _ (lastReleased s.history other)
    rw [lookup_leaseAcquire, leasesHeld, held]
    by_cases same : other = key
    · subst same
      rw [if_pos rfl, if_pos rfl]
      exact (kept.leases other).acquire
    · rw [if_neg same, if_neg (Ne.symm same)]
      exact (kept.leases other).later order
  | release guard now =>
    obtain ⟨key, out, rfl⟩ := Option.map_eq_some_iff.mp steps
    refine ⟨fun other => ?_, fun other => (kept.watches other).later order⟩
    have held : leasesHeld s other = (if key = other then 1 else 0) +
        weigh (fun _ held => if held = other then 1 else 0) (s.leaseGuards.erase guard) :=
      weigh_erase _ s.leaseGuards guard key out
    change LeaseFits limits now ((leaseDrop s.protection.leases key now).lookup other)
      (weigh (fun _ held => if held = other then 1 else 0) (s.leaseGuards.erase guard))
      (lastReleased (.released key now :: s.history) other)
    have before := kept.leases other
    rw [held] at before
    rw [lookup_leaseDrop, lastReleased_released]
    by_cases same : other = key
    · subst same
      rw [if_pos rfl, Nat.add_comm] at before
      rw [if_pos rfl, if_pos rfl]
      exact before.release positive
    · rw [if_neg (Ne.symm same), Nat.zero_add] at before
      rw [if_neg same, if_neg (Ne.symm same)]
      exact before.later order
  | watch guard key span now =>
    simp only [step] at steps
    split_ifs at steps with known
    cases steps
    refine ⟨fun other => (kept.leases other).later order, fun other => ?_⟩
    have held : weigh (fun _ held => if held.1 = other then 1 else 0) (s.watchGuards.insert guard (key, span)) =
        watchesHeld s other + if key = other then 1 else 0 := by
      rw [weigh_insert_absent _ _ _ _ known, Nat.add_comm]
      rfl
    change WatchFits limits now ((watchAcquire s.protection.watches key span now).lookup other) _
      (lastTouched (.watched key span now :: s.history) other)
    rw [lookup_watchAcquire, lastTouched_watched, watchesHeld, held]
    by_cases same : other = key
    · subst same
      rw [if_pos rfl, if_pos rfl, if_pos rfl]
      exact (kept.watches other).acquire
    · rw [if_neg same, if_neg (Ne.symm same), if_neg (Ne.symm same)]
      exact (kept.watches other).later order
  | leave guard now =>
    obtain ⟨⟨key, span⟩, out, rfl⟩ := Option.map_eq_some_iff.mp steps
    refine ⟨fun other => (kept.leases other).later order, fun other => ?_⟩
    have held : watchesHeld s other = (if key = other then 1 else 0) +
        weigh (fun _ held => if held.1 = other then 1 else 0) (s.watchGuards.erase guard) :=
      weigh_erase _ s.watchGuards guard (key, span) out
    change WatchFits limits now ((watchDrop s.protection.watches key span now).lookup other)
      (weigh (fun _ held => if held.1 = other then 1 else 0) (s.watchGuards.erase guard))
      (lastTouched (.left key span now :: s.history) other)
    have before := kept.watches other
    rw [held] at before
    rw [lookup_watchDrop, lastTouched_left]
    by_cases same : other = key
    · subst same
      rw [if_pos rfl, Nat.add_comm] at before
      rw [if_pos rfl, if_pos rfl]
      exact before.leave
    · rw [if_neg (Ne.symm same), Nat.zero_add] at before
      rw [if_neg same, if_neg (Ne.symm same)]
      exact before.later order
  | pruneLeases now =>
    cases steps
    refine ⟨fun key => ?_, fun key => (kept.watches key).later order⟩
    change LeaseFits limits now ((pruneLeases limits s.protection.leases now).lookup key) (leasesHeld s key) _
    rw [pruneLeases, lookup_retain]
    exact (kept.leases key).prune order
  | pruneWatches now =>
    cases steps
    refine ⟨fun key => (kept.leases key).later order, fun key => ?_⟩
    change WatchFits limits now ((pruneWatches limits s.protection.watches now).lookup key) (watchesHeld s key) _
    rw [pruneWatches, lookup_retain]
    exact (kept.watches key).prune order

theorem kept_empty (limits : Limits) : Kept limits empty := by
  refine ⟨fun key => ⟨rfl, fun time released => ?_⟩, fun key => ⟨rfl, fun time touched => ?_⟩⟩
  · cases released
  · cases touched

theorem kept_reached {limits : Limits} {s : System} (reached : Reaches (machine limits) ticks s) : Kept limits s := by
  apply Reaches.invariant (Kept limits) _ _ reached
  · rintro state rfl
    exact kept_empty limits
  · exact fun state label after kept passes steps => kept_step label kept passes steps

/-! Runs without their prunes. -/

/-- The same guards and the same history, and no later clock. -/
structure Alike (s t : System) : Prop where
  leaseGuards : s.leaseGuards = t.leaseGuards
  watchGuards : s.watchGuards = t.watchGuards
  history : s.history = t.history
  clock : t.clock ≤ s.clock

theorem alike_step {limits : Limits} {s t after : System} (label : Label) (alike : Alike s t) (passes : ticks s label)
    (steps : step limits s label = some after) :
    if label.prunes then Alike after t
    else ticks t label ∧ ∃ other, step limits t label = some other ∧ Alike after other := by
  have earlier : ticks t label := ⟨alike.clock.trans passes.1, passes.2⟩
  cases label with
  | lease guard key now =>
    simp only [step, alike.leaseGuards] at steps
    split_ifs at steps with known
    cases steps
    refine ⟨earlier, _, if_neg known, ?_⟩
    exact ⟨rfl, alike.watchGuards, congrArg (Event.leased key :: ·) alike.history, Nat.le_refl _⟩
  | release guard now =>
    obtain ⟨key, out, rfl⟩ := Option.map_eq_some_iff.mp steps
    rw [alike.leaseGuards] at out
    refine ⟨earlier, _, Option.map_eq_some_iff.mpr ⟨key, out, rfl⟩, ?_⟩
    exact ⟨congrArg (AList.erase guard) alike.leaseGuards, alike.watchGuards,
      congrArg (Event.released key now :: ·) alike.history, Nat.le_refl _⟩
  | watch guard key span now =>
    simp only [step, alike.watchGuards] at steps
    split_ifs at steps with known
    cases steps
    refine ⟨earlier, _, if_neg known, ?_⟩
    exact ⟨alike.leaseGuards, rfl, congrArg (Event.watched key span now :: ·) alike.history, Nat.le_refl _⟩
  | leave guard now =>
    obtain ⟨held, out, rfl⟩ := Option.map_eq_some_iff.mp steps
    rw [alike.watchGuards] at out
    refine ⟨earlier, _, Option.map_eq_some_iff.mpr ⟨held, out, rfl⟩, ?_⟩
    exact ⟨alike.leaseGuards, congrArg (AList.erase guard) alike.watchGuards,
      congrArg (Event.left held.1 held.2 now :: ·) alike.history, Nat.le_refl _⟩
  | pruneLeases now =>
    cases steps
    exact ⟨alike.leaseGuards, alike.watchGuards, alike.history, earlier.1⟩
  | pruneWatches now =>
    cases steps
    exact ⟨alike.leaseGuards, alike.watchGuards, alike.history, earlier.1⟩

/-- A run goes on as well without its prunes. -/
theorem unpruned_follows {limits : Limits} (labels : List Label) {s t last : System} (alike : Alike s t)
    (run : follow (machine limits) ticks s labels = some last) :
    ∃ other, follow (machine limits) ticks t (labels.filter fun label => !label.prunes) = some other ∧ Alike last other := by
  induction labels generalizing s t with
  | nil =>
    cases run
    exact ⟨t, rfl, alike⟩
  | cons label labels ih =>
    rw [follow] at run
    split_ifs at run with passes
    cases steps : (machine limits).step s label with
    | none =>
      rw [steps] at run
      cases run
    | some after =>
      rw [steps] at run
      have next := alike_step label alike passes steps
      cases prunes : label.prunes with
      | true =>
        rw [prunes, if_pos rfl] at next
        rw [List.filter_cons_of_neg (by rw [prunes]; decide)]
        exact ih next run
      | false =>
        rw [prunes, if_neg Bool.false_ne_true] at next
        obtain ⟨earlier, other, follows, alike'⟩ := next
        obtain ⟨final, rest, same⟩ := ih alike' run
        refine ⟨final, ?_, same⟩
        have kept : (!label.prunes) = true := by
          rw [prunes]
          rfl
        rw [List.filter_cons, if_pos kept, follow, if_pos earlier, show (machine limits).step t label = some other from follows]
        exact rest

/-- What is answered at a moment that has not passed. -/
structure Answers (limits : Limits) (s : System) : Prop where
  leases : ∀ key now, s.clock ≤ now → (isProtected limits s.protection.leases key now = true ↔
    0 < leasesHeld s key ∨ ∃ time, lastReleased s.history key = some time ∧ now - time < limits.graceMs)
  watches : ∀ key now, s.clock ≤ now → (live limits s.protection.watches key now = true ↔
    0 < watchesHeld s key ∨ ∃ time, lastTouched s.history key = some time ∧ now - time < limits.idleMs)
  union : ∀ key now, inUse limits s.protection key now = true ↔ key ∈ (s.protection.spared limits now).1

theorem answers_kept {limits : Limits} {s : System} (kept : Kept limits s) : Answers limits s :=
  ⟨fun key _ passes => (kept.leases key).answer passes, fun key _ passes => (kept.watches key).answer passes,
    fun key now => inUse_iff_spared limits s.protection key now⟩

/-- Every answer is what the history says, and a run without its prunes ends with the
same answers. -/
theorem answers_history (limits : Limits) (labels : List Label) (s : System)
    (run : follow (machine limits) ticks empty labels = some s) :
    Answers limits s ∧ ∃ other,
      follow (machine limits) ticks empty (labels.filter fun label => !label.prunes) = some other ∧
      ∀ key now, s.clock ≤ now →
        isProtected limits other.protection.leases key now = isProtected limits s.protection.leases key now ∧
        live limits other.protection.watches key now = live limits s.protection.watches key now ∧
        inUse limits other.protection key now = inUse limits s.protection key now := by
  have kept : ∀ (labels : List Label) (last : System), follow (machine limits) ticks empty labels = some last →
      Kept limits last := by
    intro labels last ends
    exact follow_invariant (Kept limits) (fun _ label _ kept passes steps => kept_step label kept passes steps) labels
      (kept_empty limits) ends
  obtain ⟨other, unpruned, alike⟩ := unpruned_follows labels (s := empty) (t := empty) ⟨rfl, rfl, rfl, Nat.le_refl _⟩ run
  have mine := answers_kept (kept labels s run)
  have theirs := answers_kept (kept _ other unpruned)
  refine ⟨mine, other, unpruned, fun key now passes => ?_⟩
  have leased : isProtected limits other.protection.leases key now = isProtected limits s.protection.leases key now := by
    rw [Bool.eq_iff_iff, mine.leases key now passes, theirs.leases key now (alike.clock.trans passes), leasesHeld,
      leasesHeld, alike.leaseGuards, alike.history]
  have watched : live limits other.protection.watches key now = live limits s.protection.watches key now := by
    rw [Bool.eq_iff_iff, mine.watches key now passes, theirs.watches key now (alike.clock.trans passes), watchesHeld,
      watchesHeld, alike.watchGuards, alike.history]
  exact ⟨leased, watched, by rw [inUse, inUse, leased, watched]⟩

/-- Two bodies of one key; a prune between them and one after the last has gone. -/
def pruned : List Label :=
  [.lease 0 viewed 1, .watch 0 viewed (0, 10) 1, .pruneLeases 2, .lease 1 viewed 3, .release 0 4, .leave 0 5,
    .pruneWatches 106, .release 1 107, .pruneLeases 150]

theorem pruned_answers : ∃ s, follow (machine shortLimits) ticks empty pruned = some s ∧
    isProtected shortLimits s.protection.leases viewed 206 = true ∧
    isProtected shortLimits s.protection.leases viewed 207 = false ∧
    live shortLimits s.protection.watches viewed 150 = false ∧ Answers shortLimits s := by
  have runs : ((follow (machine shortLimits) ticks empty pruned).any fun s =>
      isProtected shortLimits s.protection.leases viewed 206 && (!isProtected shortLimits s.protection.leases viewed 207 &&
        !live shortLimits s.protection.watches viewed 150)) = true := by decide
  obtain ⟨s, run, test⟩ := (Option.any_eq_true _ _).mp runs
  simp only [Bool.and_eq_true, Bool.not_eq_true'] at test
  exact ⟨s, run, test.1, test.2.1, test.2.2, (answers_history shortLimits pruned s run).1⟩

end OriginCache.Cache.Histories
