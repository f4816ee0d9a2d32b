import OriginCache.Cache.Histories
import OriginCache.Cache.Rows

/-! The age sweep: which keys are idle is decided at one moment, their files are deleted at
another and their rows are forgotten at a third, and everything else goes on in between. -/

namespace OriginCache.Cache.AgeSweep
open Foundation.Tables Foundation.Runs SegName Store Staging Ledger Rows Guards
open Histories (inUse pruneLeases pruneWatches leasesHeld watchesHeld lookup_leaseAcquire lookup_leaseDrop lookup_watchAcquire
  lookup_watchDrop)

structure Config where
  limits : Limits
  inactiveTtlMs : Nat

/-- Rows that were not touched for the time to live, without the spared ones. -/
def expiredCandidates (inner : Inner) (ttlMs now : Nat) (spared : List Text) : List Text :=
  ((inner.map.entries.filter fun row => ttlMs ≤ now - row.2.lastTouch).map Sigma.fst).filter (· ∉ spared)

def touch (inner : Inner) (key : Text) (time : Nat) : Inner :=
  match inner.map.lookup key with
  | some row => { inner with map := inner.map.insert key { row with lastTouch := time } }
  | none => inner

/-- Where a sweep is: the files it has to delete are listed in one go for all the keys. -/
inductive Stage
  | started
  | spared (keys : List Text)
  | judged (victims : List Text)
  | deleting (todo : List (Text × List Text)) (freed : Nat) (swept : List (Text × Nat))
  | forgetting (swept : List (Text × Nat))
deriving DecidableEq, Repr

/-- A sweep, the keys that were leased or watched since it noted what it spares, and the
files that came into place since it judged. -/
structure Sweep where
  now : Nat
  stage : Stage
  anew : List Text
  fresh : List Text
deriving DecidableEq, Repr

structure System where
  guards : Histories.System
  staged : Staged
  sweptAt : Nat
  sweep : Option Sweep

inductive Label
  | guard (label : Histories.Label)
  | ledger (label : LedgerLabel)
  | touched (key : Text) (time : Nat)
  | reset (key : Text)
  | unlink (names : List Text)
  | tick (time : Nat)
  | sweep (time : Nat) (deletes : Bool)
deriving DecidableEq, Repr

def acquired : Histories.Label → Option Text
  | .lease _ key _ | .watch _ key _ _ => some key
  | _ => none

/-- The key whose file comes into place, and the file. -/
def arrived : LedgerLabel → Option (Text × Text)
  | .placed key start stop _ => some (key, segPath key start stop)
  | _ => none

def Sweep.goes (w : Sweep) (stage : Stage) : Sweep := { w with stage := stage }

def Sweep.noteKey (w : Sweep) (key : Option Text) : Sweep := { w with anew := key.toList ++ w.anew }

def Sweep.noteFile (w : Sweep) (name : Option Text) : Sweep := { w with fresh := name.toList ++ w.fresh }

section Steps
variable (config : Config) (decodeMeta : Bytes → Option SegMeta)

/-- The next step of a sweep. A file that cannot be deleted is measured all the same. -/
def advance (s : System) (w : Sweep) (deletes : Bool) : System :=
  match w.stage with
  | .started =>
      let spared := s.guards.protection.spared config.limits w.now
      { s with
        guards := { s.guards with protection := spared.2 }
        sweep := some { w with stage := .spared spared.1, anew := [] } }
  | .spared keys =>
      let victims := expiredCandidates s.staged.ledger config.inactiveTtlMs w.now keys
      { s with sweep := some { w with stage := .judged victims, fresh := [] } }
  | .judged victims =>
      let index := segmentIndex s.staged.dir
      { s with sweep := some (w.goes (.deleting (victims.map fun key => (key, (index.lookup key).getD [])) 0 [])) }
  | .deleting ((key, name :: rest) :: later) freed swept =>
      { s with
        staged := { s.staged with dir := if deletes then s.staged.dir.erase name else s.staged.dir }
        sweep := some (w.goes (.deleting ((key, rest) :: later) (freed + fileLen s.staged.dir name) swept)) }
  | .deleting ((key, []) :: later) freed swept =>
      { s with
        staged := { s.staged with dir := s.staged.dir.erase (segmetaPath key) }
        sweep := some (w.goes (.deleting later 0 (swept ++ [(key, freed)]))) }
  | .deleting [] _ swept => { s with sweptAt := w.now, sweep := some (w.goes (.forgetting swept)) }
  | .forgetting ((key, bytes) :: rest) =>
      { s with
        staged := { s.staged with ledger := forget s.staged.ledger key bytes }
        sweep := some (w.goes (.forgetting rest)) }
  | .forgetting [] => { s with sweep := none }

/-- Requests, the ledger's operations and whatever else deletes files, between the steps of
a sweep. -/
def step (s : System) : Label → Option System
  | .guard label =>
      (Histories.step config.limits s.guards label).map fun guards =>
        { s with guards := guards, sweep := s.sweep.map (·.noteKey (acquired label)) }
  | .ledger label =>
      (ledgerStep decodeMeta s.staged label).map fun staged =>
        { s with staged := staged, sweep := s.sweep.map (·.noteFile ((arrived label).map Prod.snd)) }
  | .touched key time => some { s with staged := { s.staged with ledger := touch s.staged.ledger key time } }
  | .reset key =>
      let removed := resetFiles s.staged.dir key
      some { s with staged := ⟨removed.1, forget s.staged.ledger key removed.2⟩ }
  | .unlink names => some { s with staged := { s.staged with dir := (removeMeasured s.staged.dir names).1 } }
  | .tick time =>
      if s.sweep = none ∧ config.inactiveTtlMs ≤ time - s.sweptAt then
        some { s with guards := { s.guards with clock := time }, sweep := some ⟨time, .started, [], []⟩ }
      else none
  | .sweep time deletes =>
      s.sweep.map fun w => advance config { s with guards := { s.guards with clock := time } } w deletes

/-- Any staged state, with nobody served and no sweep under way. -/
def machine : Machine System Label :=
  ⟨fun s => s.guards = Histories.empty ∧ s.sweep = none, step config decodeMeta⟩

end Steps

/-! What a sweep must not do. -/

/-- A file of the key's own. -/
def ofKey (key name : Text) : Bool := (parseSegName name).any fun read => name = segPath key read.2.1 read.2.2

/-- A file that the sweep deletes is no file of a key in use and did not come into place
after the judging; a row that it drops has no file left. -/
def Safe (config : Config) (s : System) (w : Sweep) (time : Nat) (deletes : Bool) : Prop :=
  match w.stage with
  | .deleting ((_, name :: _) :: _) _ _ =>
      deletes = true → name ∈ s.staged.dir → ∀ key, ofKey key name = true →
        inUse config.limits s.guards.protection key time = false ∧ name ∉ w.fresh
  | .forgetting ((key, _) :: _) => key ∈ s.staged.ledger.map → ∀ name ∈ s.staged.dir, ofKey key name = false
  | _ => True

/-- The judged keys whose files are still to be deleted. -/
def Sweep.doomed (w : Sweep) : List Text :=
  match w.stage with
  | .judged victims => victims
  | .deleting todo _ _ => todo.map Prod.fst
  | _ => []

/-- The judged keys whose rows are still to be forgotten. -/
def Sweep.unforgotten (w : Sweep) : List Text :=
  match w.stage with
  | .judged victims => victims
  | .deleting todo _ swept => todo.map Prod.fst ++ swept.map Prod.fst
  | .forgetting swept => swept.map Prod.fst
  | _ => []

/-- No key was taken into use between the noting and the judging; the names on the disk
read back as the keys they were made for; what is to be deleted can be. -/
def Sweep.Clear (config : Config) (s : System) (w : Sweep) (deletes : Bool) : Prop :=
  match w.stage with
  | .spared keys => ∀ key ∈ expiredCandidates s.staged.ledger config.inactiveTtlMs w.now keys, key ∉ w.anew
  | .judged victims =>
      ∀ key ∈ victims, ((segmentIndex s.staged.dir).lookup key).getD [] = s.staged.dir.keys.filter (ofKey key)
  | .deleting ((_, _ :: _) :: _) _ _ => deletes = true
  | _ => True

/-- The clock does not go back. A judged key is not taken into use before its files are
deleted, and no file of it comes into place before its row is forgotten. -/
def allowed (config : Config) (s : System) : Label → Prop
  | .guard label =>
      Histories.ticks s.guards label ∧ ∀ w ∈ s.sweep.toList, ∀ key ∈ (acquired label).toList, key ∉ w.doomed
  | .ledger label => ∀ w ∈ s.sweep.toList, ∀ file ∈ (arrived label).toList, file.1 ∉ w.unforgotten
  | .tick time => s.guards.clock ≤ time
  | .sweep time deletes => s.guards.clock ≤ time ∧ ∀ w ∈ s.sweep.toList, w.Clear config s deletes
  | _ => True

instance (config : Config) (s : System) (w : Sweep) (deletes : Bool) : Decidable (w.Clear config s deletes) := by
  unfold Sweep.Clear
  split <;> infer_instance

instance (config : Config) (s : System) (label : Label) : Decidable (allowed config s label) := by
  cases label <;> simp only [allowed] <;> infer_instance

/-- The clock does not go back, and what is to be deleted can be. -/
def timely (s : System) : Label → Prop
  | .guard label => Histories.ticks s.guards label
  | .tick time => s.guards.clock ≤ time
  | .sweep time deletes => s.guards.clock ≤ time ∧ deletes = true
  | _ => True

instance (s : System) (label : Label) : Decidable (timely s label) := by
  cases label <;> simp only [timely] <;> infer_instance

/-! Names and keys. -/

theorem ofKey_segPath (key other : Text) (start stop : Nat) (first : start < 2 ^ 64) (last : stop < 2 ^ 64) :
    ofKey key (segPath other start stop) = true ↔ key = other := by
  rw [ofKey, parseSegName_segPath other start stop first last, Option.any_some, decide_eq_true_iff]
  constructor
  · intro same
    exact (segPath_injective other key start stop start stop same).1.symm
  · rintro rfl
    rfl

theorem ofKey_unique (key other name : Text) (mine : ofKey key name = true) (yours : ofKey other name = true) :
    key = other := by
  obtain ⟨read, -, named⟩ := Option.any_eq_true _ _ |>.mp mine
  obtain ⟨read', -, named'⟩ := Option.any_eq_true _ _ |>.mp yours
  exact (segPath_injective key other _ _ _ _ ((of_decide_eq_true named).symm.trans (of_decide_eq_true named'))).1

/-! What is not in use stays so until somebody takes it. -/

section Use
variable (limits : Limits)

theorem inUse_later (p : Protection) (key : Text) (now later : Nat) (passes : now ≤ later)
    (free : inUse limits p key now = false) : inUse limits p key later = false := by
  unfold inUse at free ⊢
  rw [Bool.or_eq_false_iff] at free ⊢
  constructor
  · cases found : p.leases.lookup key with
    | none => rw [isProtected, found]; rfl
    | some entry =>
      have lapsed := free.1
      rw [isProtected, found, Option.any_some] at lapsed ⊢
      simp only [protectedEntry, Bool.or_eq_false_iff, Bool.and_eq_false_iff, decide_eq_false_iff_not] at lapsed ⊢
      omega
  · cases found : p.watches.lookup key with
    | none => rw [Histories.live, found]; rfl
    | some entry =>
      have lapsed := free.2
      rw [Histories.live, found, Option.any_some] at lapsed ⊢
      simp only [liveEntry, Bool.or_eq_false_iff, decide_eq_false_iff_not] at lapsed ⊢
      omega

theorem any_filter {α : Type} (found : Option α) (kept test : α → Bool) (free : found.any test = false) :
    (found.filter kept).any test = false := by
  cases found with
  | none => rfl
  | some value =>
    rw [Option.filter_some]
    split_ifs
    · exact free
    · rfl

theorem isProtected_pruned (leases : Leases) (key : Text) (now later : Nat)
    (free : isProtected limits leases key later = false) :
    isProtected limits (pruneLeases limits leases now) key later = false := by
  rw [isProtected, pruneLeases, lookup_retain]
  exact any_filter _ _ _ free

theorem live_pruned (watches : Watches) (key : Text) (now later : Nat)
    (free : Histories.live limits watches key later = false) :
    Histories.live limits (pruneWatches limits watches now) key later = false := by
  rw [Histories.live, pruneWatches, lookup_retain]
  exact any_filter _ _ _ free

theorem inUse_pruned (p : Protection) (key : Text) (now later : Nat) (free : inUse limits p key later = false) :
    inUse limits (p.spared limits now).2 key later = false := by
  unfold inUse at free ⊢
  rw [Bool.or_eq_false_iff] at free ⊢
  exact ⟨isProtected_pruned limits p.leases key now later free.1, live_pruned limits p.watches key now later free.2⟩

/-- A key that is not spared is not in use. -/
theorem not_spared (p : Protection) (key : Text) (now later : Nat) (passes : now ≤ later)
    (left : key ∉ (p.spared limits now).1) : inUse limits (p.spared limits now).2 key later = false := by
  have free : inUse limits p key now = false := by
    apply Bool.eq_false_iff.mpr
    intro used
    exact left ((Histories.inUse_iff_spared limits p key now).mp used)
  exact inUse_pruned limits p key now later (inUse_later limits p key now later passes free)

/-- The guards that are out are the ones that are counted. -/
structure Counted (g : Histories.System) : Prop where
  leases : ∀ key, activeOf g.protection.leases key = leasesHeld g key
  watches : ∀ key, readersOf g.protection.watches key = watchesHeld g key

theorem counted_spared (g : Histories.System) (counted : Counted g) (now : Nat) :
    Counted { g with protection := (g.protection.spared limits now).2 } where
  leases key := (activeOf_spared limits g.protection now key).trans (counted.leases key)
  watches key := (readersOf_spared limits g.protection now key).trans (counted.watches key)

theorem counted_step (g after : Histories.System) (label : Histories.Label) (counted : Counted g)
    (steps : Histories.step limits g label = some after) : Counted after := by
  cases label with
  | lease guard key now =>
    simp only [Histories.step] at steps
    split_ifs at steps with known
    cases steps
    refine ⟨fun other => ?_, counted.watches⟩
    have held : leasesHeld { g with leaseGuards := g.leaseGuards.insert guard key } other =
        (if key = other then 1 else 0) + leasesHeld g other := weigh_insert_absent _ _ guard key known
    change activeOf (leaseAcquire g.protection.leases key) other = _
    rw [activeOf_leaseAcquire, counted.leases other, Nat.add_comm]
    exact held.symm
  | release guard now =>
    obtain ⟨key, found, rfl⟩ := Option.map_eq_some_iff.mp steps
    refine ⟨fun other => ?_, counted.watches⟩
    have held : leasesHeld g other =
        (if key = other then 1 else 0) + leasesHeld { g with leaseGuards := g.leaseGuards.erase guard } other :=
      weigh_erase _ _ guard key found
    change activeOf (leaseDrop g.protection.leases key now) other = _
    rw [activeOf_leaseDrop, counted.leases other, held]
    exact Nat.add_sub_cancel_left _ _
  | watch guard key span now =>
    simp only [Histories.step] at steps
    split_ifs at steps with known
    cases steps
    refine ⟨counted.leases, fun other => ?_⟩
    have held : watchesHeld { g with watchGuards := g.watchGuards.insert guard (key, span) } other =
        (if key = other then 1 else 0) + watchesHeld g other := weigh_insert_absent _ _ guard (key, span) known
    change readersOf (watchAcquire g.protection.watches key span now) other = _
    rw [readersOf_watchAcquire, counted.watches other, Nat.add_comm]
    exact held.symm
  | leave guard now =>
    obtain ⟨own, found, rfl⟩ := Option.map_eq_some_iff.mp steps
    refine ⟨counted.leases, fun other => ?_⟩
    have held : watchesHeld g other =
        (if own.1 = other then 1 else 0) + watchesHeld { g with watchGuards := g.watchGuards.erase guard } other :=
      weigh_erase _ _ guard own found
    change readersOf (watchDrop g.protection.watches own.1 own.2 now) other = _
    rw [readersOf_watchDrop, counted.watches other, held]
    exact Nat.add_sub_cancel_left _ _
  | pruneLeases now =>
    cases steps
    exact ⟨fun key => (activeOf_spared limits g.protection now key).trans (counted.leases key), counted.watches⟩
  | pruneWatches now =>
    cases steps
    exact ⟨counted.leases, fun key => (readersOf_spared limits g.protection now key).trans (counted.watches key)⟩

theorem counted_empty : Counted Histories.empty := ⟨fun _ => rfl, fun _ => rfl⟩

theorem live_of_readers (watches : Watches) (key : Text) (now : Nat) (held : 0 < readersOf watches key) :
    Histories.live limits watches key now = true := by
  unfold readersOf at held
  unfold Histories.live
  cases found : watches.lookup key with
  | none =>
    rw [found] at held
    exact absurd held (Nat.lt_irrefl 0)
  | some entry =>
    rw [found] at held
    have positive : 0 < entry.readers := held
    simp [liveEntry, positive]

/-- No guard of a key that is not in use is out. -/
theorem none_held (g : Histories.System) (key : Text) (counted : Counted g)
    (free : inUse limits g.protection key g.clock = false) : leasesHeld g key = 0 ∧ watchesHeld g key = 0 := by
  rw [inUse, Bool.or_eq_false_iff] at free
  constructor
  · by_contra held
    have positive : 0 < activeOf g.protection.leases key := by
      rw [counted.leases]
      exact Nat.pos_of_ne_zero held
    exact Bool.false_ne_true (free.1.symm.trans (isProtected_of_active limits _ key g.clock positive))
  · by_contra held
    have positive : 0 < readersOf g.protection.watches key := by
      rw [counted.watches]
      exact Nat.pos_of_ne_zero held
    exact Bool.false_ne_true (free.2.symm.trans (live_of_readers limits _ key g.clock positive))

theorem inUse_congr (p after : Protection) (key : Text) (now : Nat)
    (leases : after.leases.lookup key = p.leases.lookup key) (watches : after.watches.lookup key = p.watches.lookup key) :
    inUse limits after key now = inUse limits p key now := by
  rw [inUse, inUse, isProtected, isProtected, Histories.live, Histories.live, leases, watches]

theorem clock_step (g after : Histories.System) (label : Histories.Label)
    (steps : Histories.step limits g label = some after) : after.clock = label.time := by
  cases label with
  | lease guard key now =>
    simp only [Histories.step] at steps
    split_ifs at steps
    cases steps
    rfl
  | release guard now =>
    obtain ⟨key, -, rfl⟩ := Option.map_eq_some_iff.mp steps
    rfl
  | watch guard key span now =>
    simp only [Histories.step] at steps
    split_ifs at steps
    cases steps
    rfl
  | leave guard now =>
    obtain ⟨own, -, rfl⟩ := Option.map_eq_some_iff.mp steps
    rfl
  | pruneLeases now =>
    cases steps
    rfl
  | pruneWatches now =>
    cases steps
    rfl

/-- A key that nobody takes stays as free as it is: what is dropped was another's. -/
theorem free_step (g after : Histories.System) (label : Histories.Label) (key : Text) (counted : Counted g)
    (passes : g.clock ≤ label.time) (steps : Histories.step limits g label = some after)
    (others : ∀ taken ∈ (acquired label).toList, key ≠ taken) (free : inUse limits g.protection key g.clock = false) :
    inUse limits after.protection key after.clock = false := by
  have still := inUse_later limits g.protection key g.clock label.time passes free
  have idle := none_held limits g key counted free
  rw [clock_step limits g after label steps]
  cases label with
  | lease guard taken now =>
    have differs : key ≠ taken := others taken List.mem_cons_self
    simp only [Histories.step] at steps
    split_ifs at steps
    cases steps
    have same : (leaseAcquire g.protection.leases taken).lookup key = g.protection.leases.lookup key := by
      rw [lookup_leaseAcquire, if_neg differs]
    calc inUse limits ⟨leaseAcquire g.protection.leases taken, g.protection.watches⟩ key now
        = inUse limits g.protection key now := inUse_congr limits g.protection _ key now same rfl
      _ = false := still
  | release guard now =>
    obtain ⟨dropped, found, rfl⟩ := Option.map_eq_some_iff.mp steps
    have differs : key ≠ dropped := by
      rintro rfl
      have weighs := weight_le_weigh (fun _ held => if held = key then 1 else 0) g.leaseGuards guard key found
      rw [if_pos rfl] at weighs
      exact absurd (Nat.le_trans weighs (Nat.le_of_eq idle.1)) (by decide)
    have same : (leaseDrop g.protection.leases dropped now).lookup key = g.protection.leases.lookup key := by
      rw [lookup_leaseDrop, if_neg differs]
    calc inUse limits ⟨leaseDrop g.protection.leases dropped now, g.protection.watches⟩ key now
        = inUse limits g.protection key now := inUse_congr limits g.protection _ key now same rfl
      _ = false := still
  | watch guard taken span now =>
    have differs : key ≠ taken := others taken List.mem_cons_self
    simp only [Histories.step] at steps
    split_ifs at steps
    cases steps
    have same : (watchAcquire g.protection.watches taken span now).lookup key = g.protection.watches.lookup key := by
      rw [lookup_watchAcquire, if_neg differs]
    calc inUse limits ⟨g.protection.leases, watchAcquire g.protection.watches taken span now⟩ key now
        = inUse limits g.protection key now := inUse_congr limits g.protection _ key now rfl same
      _ = false := still
  | leave guard now =>
    obtain ⟨own, found, rfl⟩ := Option.map_eq_some_iff.mp steps
    have differs : key ≠ own.1 := by
      rintro rfl
      have weighs := weight_le_weigh (fun _ held => if held.1 = own.1 then 1 else 0) g.watchGuards guard own found
      rw [if_pos rfl] at weighs
      exact absurd (Nat.le_trans weighs (Nat.le_of_eq idle.2)) (by decide)
    have same : (watchDrop g.protection.watches own.1 own.2 now).lookup key = g.protection.watches.lookup key := by
      rw [lookup_watchDrop, if_neg differs]
    calc inUse limits ⟨g.protection.leases, watchDrop g.protection.watches own.1 own.2 now⟩ key now
        = inUse limits g.protection key now := inUse_congr limits g.protection _ key now rfl same
      _ = false := still
  | pruneLeases now =>
    cases steps
    rw [inUse, Bool.or_eq_false_iff] at still ⊢
    exact ⟨isProtected_pruned limits _ key now now still.1, still.2⟩
  | pruneWatches now =>
    cases steps
    rw [inUse, Bool.or_eq_false_iff] at still ⊢
    exact ⟨still.1, live_pruned limits _ key now now still.2⟩

end Use

/-! Files come into place one at a time, and everything else only takes them away. -/

theorem mem_removeMeasured (dir : Dir) (names : List Text) (name : Text) (left : name ∈ (removeMeasured dir names).1) :
    name ∈ dir := by
  induction names generalizing dir with
  | nil => exact left
  | cons head names ih => exact (AList.mem_erase.mp (ih (dir.erase head) left)).2

theorem mem_resetFiles (dir : Dir) (key name : Text) (left : name ∈ (resetFiles dir key).1) : name ∈ dir :=
  mem_removeMeasured dir (keySegmentFiles dir key) name (AList.mem_erase.mp left).2

theorem mem_files (decodeMeta : Bytes → Option SegMeta) (s after : Staged) (label : LedgerLabel) (name : Text)
    (steps : ledgerStep decodeMeta s label = some after) (inside : name ∈ after.dir) :
    name ∈ s.dir ∨ ∃ file ∈ (arrived label).toList, name = file.2 := by
  cases label with
  | placed key start stop data =>
    simp only [ledgerStep] at steps
    split_ifs at steps
    cases steps
    cases (AList.mem_insert s.dir).mp inside with
    | inl new => exact .inr ⟨_, List.mem_cons_self, new⟩
    | inr old => exact .inl old
  | sealed key start stop etag total window now =>
    simp only [ledgerStep] at steps
    split_ifs at steps
    cases steps
    exact .inl inside
  | adopted key start stop now =>
    simp only [ledgerStep] at steps
    split_ifs at steps
    cases steps
    exact .inl inside
  | adoptedAll now =>
    cases steps
    exact .inl (mem_removeMeasured s.dir _ name inside)
  | served key start stop =>
    cases steps
    exact .inl inside
  | decayed key now window =>
    cases steps
    exact .inl inside
  | dropped key picks now =>
    cases steps
    exact .inl (mem_removeMeasured s.dir _ name inside)

/-- A file that comes into place is of the key it is placed for and of no other. -/
theorem arrived_own (decodeMeta : Bytes → Option SegMeta) (s after : Staged) (label : LedgerLabel)
    (steps : ledgerStep decodeMeta s label = some after) :
    ∀ file ∈ (arrived label).toList, ∀ key, ofKey key file.2 = true → key = file.1 := by
  cases label with
  | placed other start stop data =>
    simp only [ledgerStep] at steps
    split_ifs at steps with words
    intro file only key own
    cases List.mem_singleton.mp only
    exact (ofKey_segPath key other start stop words.1 words.2).mp own
  | sealed key start stop etag total window now => exact fun file none_ => absurd none_ List.not_mem_nil
  | adopted key start stop now => exact fun file none_ => absurd none_ List.not_mem_nil
  | adoptedAll now => exact fun file none_ => absurd none_ List.not_mem_nil
  | served key start stop => exact fun file none_ => absurd none_ List.not_mem_nil
  | decayed key now window => exact fun file none_ => absurd none_ List.not_mem_nil
  | dropped key picks now => exact fun file none_ => absurd none_ List.not_mem_nil

/-! What holds while a sweep is under way. -/

def Sweep.todo (w : Sweep) : List (Text × List Text) :=
  match w.stage with
  | .deleting todo _ _ => todo
  | _ => []

/-- The judged keys whose files are deleted. -/
def Sweep.swept (w : Sweep) : List Text :=
  match w.stage with
  | .deleting _ _ swept => swept.map Prod.fst
  | .forgetting swept => swept.map Prod.fst
  | _ => []

/-- A key that may be swept: nobody uses it and none of its files is new. -/
structure Idle (config : Config) (s : System) (w : Sweep) (key : Text) : Prop where
  free : inUse config.limits s.guards.protection key s.guards.clock = false
  old : ∀ name ∈ w.fresh, ofKey key name = false

structure Indexed (dir : Dir) (key : Text) (names : List Text) : Prop where
  own : ∀ name ∈ names, ofKey key name = true
  whole : ∀ name ∈ dir, ofKey key name = true → name ∈ names

def Gone (dir : Dir) (key : Text) : Prop := ∀ name ∈ dir, ofKey key name = false

structure Stands (config : Config) (s : System) (w : Sweep) : Prop where
  spares : ∀ keys, w.stage = .spared keys → ∀ key, key ∉ keys → key ∉ w.anew →
    inUse config.limits s.guards.protection key s.guards.clock = false
  idle : ∀ key ∈ w.doomed, Idle config s w key
  listed : ∀ entry ∈ w.todo, Indexed s.staged.dir entry.1 entry.2
  gone : ∀ key ∈ w.swept, Gone s.staged.dir key

theorem mem_unforgotten (w : Sweep) (key : Text) : key ∈ w.unforgotten ↔ key ∈ w.doomed ∨ key ∈ w.swept := by
  obtain ⟨now, stage, anew, fresh⟩ := w
  cases stage <;> simp [Sweep.unforgotten, Sweep.doomed, Sweep.swept]

theorem todo_doomed (w : Sweep) (entry : Text × List Text) (member : entry ∈ w.todo) : entry.1 ∈ w.doomed := by
  obtain ⟨now, stage, anew, fresh⟩ := w
  cases stage with
  | deleting todo freed swept => exact List.mem_map_of_mem member
  | started => exact absurd member List.not_mem_nil
  | spared keys => exact absurd member List.not_mem_nil
  | judged victims => exact absurd member List.not_mem_nil
  | forgetting swept => exact absurd member List.not_mem_nil

/-- A step of the guards while a sweep is under way. -/
theorem stands_guard (config : Config) (s : System) (w : Sweep) (after : Histories.System) (label : Histories.Label)
    (counted : Counted s.guards) (ticks : Histories.ticks s.guards label)
    (apart : ∀ key ∈ (acquired label).toList, key ∉ w.doomed)
    (steps : Histories.step config.limits s.guards label = some after) (stands : Stands config s w)
    (sweep : Option Sweep) :
    Stands config { s with guards := after, sweep := sweep } (w.noteKey (acquired label)) where
  spares keys stage key unspared fresh := by
    have others : ∀ taken ∈ (acquired label).toList, key ≠ taken := by
      rintro taken member rfl
      exact fresh (List.mem_append_left _ member)
    have before := stands.spares keys stage key unspared fun old => fresh (List.mem_append_right _ old)
    exact free_step config.limits s.guards after label key counted ticks.1 steps others before
  idle key doomed := by
    have others : ∀ taken ∈ (acquired label).toList, key ≠ taken := by
      rintro taken member rfl
      exact apart key member doomed
    have before := stands.idle key doomed
    exact ⟨free_step config.limits s.guards after label key counted ticks.1 steps others before.free, before.old⟩
  listed := stands.listed
  gone := stands.gone

/-- A step of the disk: the files that arrive are of keys that are not judged. -/
theorem stands_files (config : Config) (s : System) (w : Sweep) (staged : Staged) (arrives : Option (Text × Text))
    (own : ∀ file ∈ arrives.toList, ∀ key, ofKey key file.2 = true → key = file.1)
    (apart : ∀ file ∈ arrives.toList, file.1 ∉ w.unforgotten)
    (files : ∀ name ∈ staged.dir, name ∈ s.staged.dir ∨ ∃ file ∈ arrives.toList, name = file.2)
    (stands : Stands config s w) (sweep : Option Sweep) :
    Stands config { s with staged := staged, sweep := sweep } (w.noteFile (arrives.map Prod.snd)) := by
  have foreign : ∀ key ∈ w.unforgotten, ∀ file ∈ arrives.toList, ofKey key file.2 = false := by
    intro key judged file member
    apply Bool.eq_false_iff.mpr
    intro mine
    exact apart file member (own file member key mine ▸ judged)
  have remains : ∀ key ∈ w.unforgotten, ∀ name ∈ staged.dir, ofKey key name = true → name ∈ s.staged.dir := by
    intro key judged name inside mine
    cases files name inside with
    | inl old => exact old
    | inr new =>
      obtain ⟨file, member, rfl⟩ := new
      exact absurd ((foreign key judged file member).symm.trans mine) Bool.false_ne_true
  refine ⟨stands.spares, fun key doomed => ?_, fun entry member => ?_, fun key swept name inside => ?_⟩
  · have before := stands.idle key doomed
    refine ⟨before.free, fun name new => ?_⟩
    cases List.mem_append.mp new with
    | inl here =>
      rw [Option.toList_map] at here
      obtain ⟨file, arrived_, rfl⟩ := List.mem_map.mp here
      exact foreign key ((mem_unforgotten w key).mpr (.inl doomed)) file arrived_
    | inr earlier => exact before.old name earlier
  · have before := stands.listed entry member
    have judged := (mem_unforgotten w entry.1).mpr (.inl (todo_doomed w entry member))
    exact ⟨before.own, fun name inside mine => before.whole name (remains entry.1 judged name inside mine) mine⟩
  · apply Bool.eq_false_iff.mpr
    intro mine
    have judged := (mem_unforgotten w key).mpr (.inr swept)
    exact Bool.false_ne_true ((stands.gone key swept name (remains key judged name inside mine)).symm.trans mine)

theorem Indexed.fewer {dir dir' : Dir} {key : Text} {names : List Text} (indexed : Indexed dir key names)
    (fewer : ∀ name ∈ dir', name ∈ dir) : Indexed dir' key names :=
  ⟨indexed.own, fun name inside mine => indexed.whole name (fewer name inside) mine⟩

/-! The stages of a sweep, one after the other. -/

section Stages
variable (config : Config) (s : System) (now : Nat) (anew fresh : List Text) (sweep : Option Sweep)

theorem stands_noted (passes : now ≤ s.guards.clock) :
    Stands config
      { s with
        guards := { s.guards with protection := (s.guards.protection.spared config.limits now).2 }
        sweep := sweep }
      ⟨now, .spared (s.guards.protection.spared config.limits now).1, [], fresh⟩ where
  spares keys stage key unspared _ := by
    cases stage
    exact not_spared config.limits s.guards.protection key now s.guards.clock passes unspared
  idle _ none_ := absurd none_ List.not_mem_nil
  listed _ none_ := absurd none_ List.not_mem_nil
  gone _ none_ := absurd none_ List.not_mem_nil

theorem stands_judged (keys : List Text)
    (clear : ∀ key ∈ expiredCandidates s.staged.ledger config.inactiveTtlMs now keys, key ∉ anew)
    (stands : Stands config s ⟨now, .spared keys, anew, fresh⟩) :
    Stands config { s with sweep := sweep }
      ⟨now, .judged (expiredCandidates s.staged.ledger config.inactiveTtlMs now keys), anew, []⟩ where
  spares _ stage := by cases stage
  idle key judged := by
    have unspared : key ∉ keys := of_decide_eq_true (List.mem_filter.mp judged).2
    exact ⟨stands.spares keys rfl key unspared (clear key judged), fun _ none_ => absurd none_ List.not_mem_nil⟩
  listed _ none_ := absurd none_ List.not_mem_nil
  gone _ none_ := absurd none_ List.not_mem_nil

theorem stands_listed (victims : List Text)
    (clear : ∀ key ∈ victims, ((segmentIndex s.staged.dir).lookup key).getD [] = s.staged.dir.keys.filter (ofKey key))
    (stands : Stands config s ⟨now, .judged victims, anew, fresh⟩) :
    Stands config { s with sweep := sweep }
      ⟨now, .deleting (victims.map fun key => (key, ((segmentIndex s.staged.dir).lookup key).getD [])) 0 [], anew, fresh⟩ where
  spares _ stage := by cases stage
  idle key doomed := by
    obtain ⟨entry, member, rfl⟩ := List.mem_map.mp doomed
    obtain ⟨victim, judged, rfl⟩ := List.mem_map.mp member
    have before := stands.idle victim judged
    exact ⟨before.free, before.old⟩
  listed entry member := by
    obtain ⟨victim, judged, rfl⟩ := List.mem_map.mp member
    change Indexed s.staged.dir victim (((segmentIndex s.staged.dir).lookup victim).getD [])
    rw [clear victim judged]
    exact ⟨fun name inside => (List.mem_filter.mp inside).2,
      fun name inside mine => List.mem_filter.mpr ⟨AList.mem_keys.mp inside, mine⟩⟩
  gone _ none_ := absurd none_ List.not_mem_nil

/-- One file of the first key is deleted. -/
theorem stands_unlinked (key name : Text) (rest : List Text) (later : List (Text × List Text)) (freed bytes : Nat)
    (swept : List (Text × Nat))
    (stands : Stands config s ⟨now, .deleting ((key, name :: rest) :: later) freed swept, anew, fresh⟩) :
    Stands config { s with staged := { s.staged with dir := s.staged.dir.erase name }, sweep := sweep }
      ⟨now, .deleting ((key, rest) :: later) (freed + bytes) swept, anew, fresh⟩ := by
  have fewer : ∀ other ∈ s.staged.dir.erase name, other ∈ s.staged.dir := fun other left => (AList.mem_erase.mp left).2
  refine ⟨fun _ stage => (by cases stage), fun other doomed => ?_, fun entry member => ?_, fun other dropped file left => ?_⟩
  · have before := stands.idle other doomed
    exact ⟨before.free, before.old⟩
  · cases List.mem_cons.mp member with
    | inl first =>
      subst first
      have before : Indexed s.staged.dir key (name :: rest) := stands.listed _ List.mem_cons_self
      refine ⟨fun file kept => before.own file (List.mem_cons_of_mem _ kept), fun file left mine => ?_⟩
      have differs := (AList.mem_erase.mp left).1
      exact (List.mem_cons.mp (before.whole file (fewer file left) mine)).resolve_left differs
    | inr further => exact (stands.listed entry (List.mem_cons_of_mem _ further)).fewer fewer
  · exact stands.gone other dropped file (fewer file left)

/-- The first key has no file left on its list. -/
theorem stands_emptied (key : Text) (later : List (Text × List Text)) (freed : Nat) (swept : List (Text × Nat))
    (stands : Stands config s ⟨now, .deleting ((key, []) :: later) freed swept, anew, fresh⟩) :
    Stands config { s with staged := { s.staged with dir := s.staged.dir.erase (segmetaPath key) }, sweep := sweep }
      ⟨now, .deleting later 0 (swept ++ [(key, freed)]), anew, fresh⟩ := by
  have fewer : ∀ other ∈ s.staged.dir.erase (segmetaPath key), other ∈ s.staged.dir :=
    fun other left => (AList.mem_erase.mp left).2
  refine ⟨fun _ stage => (by cases stage), fun other doomed => ?_, fun entry member => ?_, fun other dropped file left => ?_⟩
  · have before := stands.idle other (List.mem_cons_of_mem _ doomed)
    exact ⟨before.free, before.old⟩
  · exact (stands.listed entry (List.mem_cons_of_mem _ member)).fewer fewer
  · have split_ : other ∈ swept.map Prod.fst ∨ other = key := by
      have both : other ∈ (swept ++ [(key, freed)]).map Prod.fst := dropped
      rwa [List.map_append, List.mem_append, List.map_cons, List.map_nil, List.mem_singleton] at both
    cases split_ with
    | inl earlier => exact stands.gone other earlier file (fewer file left)
    | inr last =>
      subst last
      have before : Indexed s.staged.dir other [] := stands.listed _ List.mem_cons_self
      apply Bool.eq_false_iff.mpr
      intro mine
      exact List.not_mem_nil (before.whole file (fewer file left) mine)

theorem stands_deleted (freed : Nat) (swept : List (Text × Nat))
    (stands : Stands config s ⟨now, .deleting [] freed swept, anew, fresh⟩) :
    Stands config { s with sweptAt := now, sweep := sweep } ⟨now, .forgetting swept, anew, fresh⟩ where
  spares _ stage := by cases stage
  idle _ none_ := absurd none_ List.not_mem_nil
  listed _ none_ := absurd none_ List.not_mem_nil
  gone := stands.gone

theorem stands_forgot (key : Text) (bytes : Nat) (rest : List (Text × Nat)) (ledger : Inner)
    (stands : Stands config s ⟨now, .forgetting ((key, bytes) :: rest), anew, fresh⟩) :
    Stands config { s with staged := { s.staged with ledger := ledger }, sweep := sweep }
      ⟨now, .forgetting rest, anew, fresh⟩ where
  spares _ stage := by cases stage
  idle _ none_ := absurd none_ List.not_mem_nil
  listed _ none_ := absurd none_ List.not_mem_nil
  gone other member := stands.gone other (List.mem_cons_of_mem _ member)

end Stages

/-! Whole runs. -/

structure Sound (config : Config) (s : System) : Prop where
  counted : Counted s.guards
  begun : ∀ w, s.sweep = some w → w.now ≤ s.guards.clock
  stands : ∀ w, s.sweep = some w → Stands config s w

theorem Sound.of_next {config : Config} {after : System} {next : Sweep} (counted : Counted after.guards)
    (same : after.sweep = some next) (begun : next.now ≤ after.guards.clock) (stands : Stands config after next) :
    Sound config after where
  counted := counted
  begun w underway := by
    cases same.symm.trans underway
    exact begun
  stands w underway := by
    cases same.symm.trans underway
    exact stands

theorem Sound.of_none {config : Config} {after : System} (counted : Counted after.guards) (none_ : after.sweep = none) :
    Sound config after where
  counted := counted
  begun w underway := by
    rw [none_] at underway
    cases underway
  stands w underway := by
    rw [none_] at underway
    cases underway

section Steps
variable (config : Config) (decodeMeta : Bytes → Option SegMeta)

theorem sound_later (s : System) (time : Nat) (passes : s.guards.clock ≤ time) (sound : Sound config s) :
    Sound config { s with guards := { s.guards with clock := time } } where
  counted := ⟨sound.counted.leases, sound.counted.watches⟩
  begun w underway := Nat.le_trans (sound.begun w underway) passes
  stands w underway := by
    have before := sound.stands w underway
    refine ⟨fun keys stage key unspared fresh => ?_, fun key doomed => ?_, before.listed, before.gone⟩
    · exact inUse_later config.limits _ key _ time passes (before.spares keys stage key unspared fresh)
    · exact ⟨inUse_later config.limits _ key _ time passes (before.idle key doomed).free, (before.idle key doomed).old⟩

theorem sound_advance (s : System) (w : Sweep) (deletes : Bool) (underway : s.sweep = some w)
    (clear : w.Clear config s deletes) (sound : Sound config s) : Sound config (advance config s w deletes) := by
  have counted := sound.counted
  have begun := sound.begun w underway
  have stands := sound.stands w underway
  obtain ⟨now, stage, anew, fresh⟩ := w
  cases stage with
  | started =>
    exact .of_next (counted_spared config.limits s.guards counted now) rfl begun (stands_noted config s now fresh _ begun)
  | spared keys => exact .of_next counted rfl begun (stands_judged config s now anew fresh _ keys clear stands)
  | judged victims => exact .of_next counted rfl begun (stands_listed config s now anew fresh _ victims clear stands)
  | deleting todo freed swept =>
    cases todo with
    | nil => exact .of_next counted rfl begun (stands_deleted config s now anew fresh _ freed swept stands)
    | cons entry later =>
      obtain ⟨key, names⟩ := entry
      cases names with
      | nil => exact .of_next counted rfl begun (stands_emptied config s now anew fresh _ key later freed swept stands)
      | cons name rest =>
        have sure : deletes = true := clear
        subst sure
        exact .of_next counted rfl begun (stands_unlinked config s now anew fresh _ key name rest later freed _ swept stands)
  | forgetting swept =>
    cases swept with
    | nil => exact .of_none counted rfl
    | cons entry rest =>
      exact .of_next counted rfl begun (stands_forgot config s now anew fresh _ entry.1 entry.2 rest _ stands)

/-- The disk and the ledger go on: the files that arrive are of keys that are not judged. -/
theorem sound_files (s : System) (staged : Staged) (arrives : Option (Text × Text))
    (own : ∀ file ∈ arrives.toList, ∀ key, ofKey key file.2 = true → key = file.1)
    (apart : ∀ w ∈ s.sweep.toList, ∀ file ∈ arrives.toList, file.1 ∉ w.unforgotten)
    (files : ∀ name ∈ staged.dir, name ∈ s.staged.dir ∨ ∃ file ∈ arrives.toList, name = file.2)
    (sound : Sound config s) :
    Sound config { s with staged := staged, sweep := s.sweep.map (·.noteFile (arrives.map Prod.snd)) } := by
  cases underway : s.sweep with
  | none => exact .of_none sound.counted rfl
  | some w =>
    have member : w ∈ s.sweep.toList := Option.mem_toList.mpr underway
    exact .of_next sound.counted rfl (sound.begun w underway)
      (stands_files config s w staged arrives own (apart w member) files (sound.stands w underway) _)

/-- Files are only taken away. -/
theorem sound_fewer (s : System) (staged : Staged) (fewer : ∀ name ∈ staged.dir, name ∈ s.staged.dir)
    (sound : Sound config s) : Sound config { s with staged := staged } := by
  have quiet : s.sweep.map (·.noteFile (Option.map Prod.snd (none : Option (Text × Text)))) = s.sweep := Option.map_id'
  have moved := sound_files config s staged none (fun file none_ => absurd none_ List.not_mem_nil)
    (fun w _ file none_ => absurd none_ List.not_mem_nil) (fun name inside => .inl (fewer name inside)) sound
  rwa [quiet] at moved

theorem sound_step (s after : System) (label : Label) (meets : allowed config s label)
    (steps : step config decodeMeta s label = some after) (sound : Sound config s) : Sound config after := by
  cases label with
  | guard label =>
    obtain ⟨guards, moves, rfl⟩ := Option.map_eq_some_iff.mp steps
    have counted := counted_step config.limits s.guards guards label sound.counted moves
    cases underway : s.sweep with
    | none => exact .of_none counted rfl
    | some w =>
      have member : w ∈ s.sweep.toList := Option.mem_toList.mpr underway
      have passes : s.guards.clock ≤ guards.clock := by
        rw [clock_step config.limits s.guards guards label moves]
        exact meets.1.1
      exact .of_next counted rfl (Nat.le_trans (sound.begun w underway) passes)
        (stands_guard config s w guards label sound.counted meets.1 (meets.2 w member) moves (sound.stands w underway) _)
  | ledger label =>
    obtain ⟨staged, moves, rfl⟩ := Option.map_eq_some_iff.mp steps
    exact sound_files config s staged (arrived label) (arrived_own decodeMeta s.staged staged label moves) meets
      (fun name inside => mem_files decodeMeta s.staged staged label name moves inside) sound
  | touched key time =>
    cases steps
    exact sound_fewer config s _ (fun _ inside => inside) sound
  | reset key =>
    cases steps
    exact sound_fewer config s _ (mem_resetFiles s.staged.dir key) sound
  | unlink names =>
    cases steps
    exact sound_fewer config s _ (mem_removeMeasured s.staged.dir names) sound
  | tick time =>
    simp only [step] at steps
    split_ifs at steps
    cases steps
    have counted : Counted { s.guards with clock := time } := ⟨sound.counted.leases, sound.counted.watches⟩
    refine .of_next counted rfl (Nat.le_refl time) ⟨fun _ stage => (by cases stage), ?_, ?_, ?_⟩
    · exact fun _ none_ => absurd none_ List.not_mem_nil
    · exact fun _ none_ => absurd none_ List.not_mem_nil
    · exact fun _ none_ => absurd none_ List.not_mem_nil
  | sweep time deletes =>
    obtain ⟨w, underway, rfl⟩ := Option.map_eq_some_iff.mp steps
    have member : w ∈ s.sweep.toList := Option.mem_toList.mpr underway
    exact sound_advance config _ w deletes underway (meets.2 w member) (sound_later config s time meets.1 sound)

theorem sound_reached (s : System) (reached : Reaches (machine config decodeMeta) (allowed config) s) : Sound config s := by
  apply Reaches.invariant (Sound config) _ _ reached
  · intro state begins
    apply Sound.of_none _ begins.2
    rw [begins.1]
    exact counted_empty
  · exact fun state label after sound meets steps => sound_step config decodeMeta state after label meets steps sound

end Steps

/-! One span that is old enough, and what may come between. -/

def brief : Config := ⟨⟨1000, 1000, 4, 4⟩, 1000⟩

def resting : System := ⟨Histories.empty, ⟨∅, Inner.new⟩, 0, none⟩

/-- A span is staged, and long after that its key is judged. -/
def judging : List Label :=
  [.ledger (.placed Histories.viewed 0 2 [1, 2]), .ledger (.sealed Histories.viewed 0 2 none 4 1000 1), .tick 2000, .sweep 2000 true,
    .sweep 2001 true]

/-- The sweep is about to delete the only file. -/
def Sweep.deletesOnly (w : Sweep) : Bool := w.stage = .deleting [(Histories.viewed, [segPath Histories.viewed 0 2])] 0 []

/-- The next step of the sweep deletes a file of the key that is in use or new, or drops the
row of a key that has a file. -/
def meddles (config : Config) (s : System) (w : Sweep) (time : Nat) (key : Text) : Bool :=
  match w.stage with
  | .deleting ((_, name :: _) :: _) _ _ =>
      decide (name ∈ s.staged.dir) && (ofKey key name && (inUse config.limits s.guards.protection key time || decide (name ∈ w.fresh)))
  | .forgetting ((other, _) :: _) => decide (other ∈ s.staged.ledger.map) && s.staged.dir.keys.any (ofKey other)
  | _ => false

theorem meddles_unsafe (config : Config) (s : System) (w : Sweep) (time : Nat) (key : Text)
    (meddling : meddles config s w time key = true) : ¬Safe config s w time true := by
  obtain ⟨now, stage, anew, fresh⟩ := w
  intro safe
  unfold meddles at meddling
  split at meddling
  case h_1 own name rest later freed swept at_ =>
    cases at_
    simp only [Bool.and_eq_true, Bool.or_eq_true, decide_eq_true_eq] at meddling
    have kept := safe rfl meddling.1 key meddling.2.1
    cases meddling.2.2 with
    | inl used => exact Bool.false_ne_true (kept.1.symm.trans used)
    | inr new => exact kept.2 new
  case h_2 other bytes rest at_ =>
    cases at_
    simp only [Bool.and_eq_true, decide_eq_true_eq] at meddling
    obtain ⟨name, inside, mine⟩ := List.any_eq_true.mp meddling.2
    exact Bool.false_ne_true ((safe meddling.1 name (AList.mem_keys.mpr inside)).symm.trans mine)
  case h_3 => exact Bool.false_ne_true meddling

theorem meddling_reached (labels : List Label) (test : System → Sweep → Bool)
    (run : ((follow (machine brief fun _ => none) timely resting labels).any fun s =>
      s.sweep.any fun w => test s w && meddles brief s w 2003 Histories.viewed) = true) :
    ∃ s w, Reaches (machine brief fun _ => none) timely s ∧ s.sweep = some w ∧ test s w = true ∧ ¬Safe brief s w 2003 true := by
  obtain ⟨s, reached, found⟩ := exists_reached (machine brief fun _ => none) timely labels
    (show (machine brief fun _ => none).initial resting from ⟨rfl, rfl⟩) _ run
  obtain ⟨w, underway, facts⟩ := Option.any_eq_true _ _ |>.mp found
  rw [Bool.and_eq_true] at facts
  exact ⟨s, w, reached, underway, facts.1, meddles_unsafe brief s w 2003 Histories.viewed facts.2⟩

end OriginCache.Cache.AgeSweep
