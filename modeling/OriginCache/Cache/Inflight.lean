import OriginCache.Foundation.Registry
import OriginCache.Foundation.Runs

/-! Calls that share one execution per key. A cell is created under the map's lock and
filled by one caller at a time; each caller that got its value starts a task that frees
the key after the cooldown. -/

namespace OriginCache.Cache.Inflight
open Foundation.Tables Foundation.Runs Foundation.Registry

/-- A cell whose leader was dropped is idle again. -/
inductive CellState (β : Type)
  | idle
  | running (caller : Nat)
  | set (value : β)
deriving DecidableEq, Repr

def CellState.isSet {β : Type} : CellState β → Bool
  | .set _ => true
  | _ => false

structure Cell (κ β : Type) where
  key : κ
  state : CellState β
deriving DecidableEq, Repr

inductive Phase (β : Type)
  | locking
  | joined (cell : Nat)
  | leading (cell : Nat)
  | settling (cell : Nat) (value : β)
  | returned (cell : Nat) (value : β)
deriving DecidableEq, Repr

structure Caller (κ β : Type) where
  key : κ
  phase : Phase β
deriving DecidableEq, Repr

structure System (κ β : Type) where
  map : Table κ Nat
  cells : Table Nat (Cell κ β)
  callers : Table Nat (Caller κ β)
  removers : Table Nat (κ × Nat)

inductive CallerLabel (β : Type)
  | join (fresh : Nat)
  | lead
  | finish (value : β)
  | take
  | settle (remover : Nat)
  | drop
deriving DecidableEq, Repr

inductive Label (κ β : Type)
  | call (id : Nat) (key : κ)
  | caller (id : Nat) (label : CallerLabel β)
  | sweep (remover : Nat)
deriving DecidableEq, Repr

section Steps
variable {κ β : Type} [DecidableEq κ]

def System.goes (s : System κ β) (id : Nat) (key : κ) (phase : Phase β) : System κ β :=
  { s with callers := s.callers.insert id ⟨key, phase⟩ }

def System.fill (s : System κ β) (cell : Nat) (key : κ) (state : CellState β) : System κ β :=
  { s with cells := s.cells.insert cell ⟨key, state⟩ }

/-- Entry under the lock, then the cell, then the lock again for the cooldown. -/
@[grind =] def callerStep (s : System κ β) (id : Nat) (key : κ) : Phase β → CallerLabel β → Option (System κ β)
  | .locking, .join fresh =>
      match s.map.lookup key with
      | some cell => some (s.goes id key (.joined cell))
      | none =>
          if fresh ∈ s.cells then none
          else some ({ s.fill fresh key .idle with map := s.map.insert key fresh }.goes id key (.joined fresh))
  | .joined cell, .lead =>
      match s.cells.lookup cell with
      | some ⟨k, .idle⟩ => some ((s.fill cell k (.running id)).goes id key (.leading cell))
      | _ => none
  | .joined cell, .take =>
      match s.cells.lookup cell with
      | some ⟨_, .set value⟩ => some (s.goes id key (.settling cell value))
      | _ => none
  | .leading cell, .finish value => some ((s.fill cell key (.set value)).goes id key (.settling cell value))
  | .settling cell value, .settle remover =>
      if s.map.lookup key = some cell then
        if remover ∈ s.removers then none
        else some ({ s with removers := s.removers.insert remover (key, cell) }.goes id key (.returned cell value))
      else some (s.goes id key (.returned cell value))
  | .leading cell, .drop => some { s.fill cell key .idle with callers := s.callers.erase id }
  | _, .drop => some { s with callers := s.callers.erase id }
  | _, _ => none

@[grind =] def step (s : System κ β) : Label κ β → Option (System κ β)
  | .call id key => if id ∈ s.callers then none else some (s.goes id key .locking)
  | .caller id label => (s.callers.lookup id).bind fun caller => callerStep s id caller.key caller.phase label
  | .sweep remover =>
      (s.removers.lookup remover).map fun claim =>
        { s with map := release s.map claim.1 claim.2, removers := s.removers.erase remover }

def empty : System κ β := ⟨∅, ∅, ∅, ∅⟩

def machine : Machine (System κ β) (Label κ β) := ⟨fun s => s = empty, step⟩

/-- What every call can rely on. -/
structure Single (s : System κ β) : Prop where
  one : ∀ a b x y c d, s.callers.lookup a = some x → s.callers.lookup b = some y →
    x.phase = .leading c → y.phase = .leading d → x.key = y.key → a = b
  told : ∀ id caller c value, s.callers.lookup id = some caller →
    caller.phase = .settling c value ∨ caller.phase = .returned c value →
    s.cells.lookup c = some ⟨caller.key, .set value⟩
  waits : ∀ id caller c, s.callers.lookup id = some caller → caller.phase = .joined c →
    (∃ value after, s.cells.lookup c = some ⟨caller.key, .set value⟩ ∧ step s (.caller id .take) = some after ∧
      after.callers.lookup id = some ⟨caller.key, .settling c value⟩) ∨
    (∃ after, step s (.caller id .lead) = some after) ∨
    ∃ leader, s.callers.lookup leader = some ⟨caller.key, .leading c⟩
  own : ∀ remover key c after, s.removers.lookup remover = some (key, c) → step s (.sweep remover) = some after →
    ∀ k other, other ≠ c → s.map.lookup k = some other → after.map.lookup k = some other

/-! The invariant. -/

def Open (cells : Table Nat (Cell κ β)) (c : Nat) (key : κ) : Prop :=
  ∃ state, cells.lookup c = some ⟨key, state⟩ ∧ state.isSet = false

@[grind =] def Follows (cells : Table Nat (Cell κ β)) (id : Nat) (key : κ) : Phase β → Prop
  | .locking => True
  | .joined c => ∃ state, cells.lookup c = some ⟨key, state⟩
  | .leading c => cells.lookup c = some ⟨key, .running id⟩
  | .settling c value => cells.lookup c = some ⟨key, .set value⟩
  | .returned c value => cells.lookup c = some ⟨key, .set value⟩

structure Kept (s : System κ β) : Prop where
  exclusive : Exclusive s.map (Open s.cells)
  mapped : ∀ key c, s.map.lookup key = some c → ∃ state, s.cells.lookup c = some ⟨key, state⟩
  follows : ∀ id caller, s.callers.lookup id = some caller → Follows s.cells id caller.key caller.phase
  leaders : ∀ c key id, s.cells.lookup c = some ⟨key, .running id⟩ → s.callers.lookup id = some ⟨key, .leading c⟩
  spent : ∀ remover key c, s.removers.lookup remover = some (key, c) →
    ∃ k value, s.cells.lookup c = some ⟨k, .set value⟩

theorem kept_empty : Kept (empty : System κ β) :=
  ⟨nofun, nofun, nofun, nofun, nofun⟩

omit [DecidableEq κ] in
/-- A cell that is not set yet can change without any other caller noticing. -/
theorem follows_fill (cells : Table Nat (Cell κ β)) (c other : Nat) (key k : κ) (old new : CellState β) (phase : Phase β)
    (found : cells.lookup c = some ⟨key, old⟩) (unset : old.isSet = false) (apart : old ≠ .running other)
    (follows : Follows cells other k phase) : Follows (cells.insert c ⟨key, new⟩) other k phase := by
  have kept (cell : Nat) (state : CellState β) (there : cells.lookup cell = some ⟨k, state⟩) (differs : state ≠ old) :
      (cells.insert c ⟨key, new⟩).lookup cell = some ⟨k, state⟩ := by
    have elsewhere : cell ≠ c := by
      intro same
      rw [same, found] at there
      exact differs (Cell.mk.inj (Option.some.inj there)).2.symm
    rw [AList.lookup_insert_ne elsewhere, there]
  have filled (value : β) : CellState.set value ≠ old := by
    intro same
    rw [← same] at unset
    cases unset
  cases phase with
  | locking => trivial
  | joined cell =>
    obtain ⟨state, there⟩ := follows
    by_cases same : cell = c
    · subst same
      rw [found] at there
      cases there
      exact ⟨new, AList.lookup_insert cells⟩
    · exact ⟨state, by rw [AList.lookup_insert_ne same, there]⟩
  | leading cell => exact kept cell _ follows apart.symm
  | settling cell value => exact kept cell _ follows (filled value)
  | returned cell value => exact kept cell _ follows (filled value)

omit [DecidableEq κ] in
theorem follows_grow (cells more : Table Nat (Cell κ β)) (id : Nat) (key : κ) (phase : Phase β)
    (old : ∀ c cell, cells.lookup c = some cell → more.lookup c = some cell) (follows : Follows cells id key phase) :
    Follows more id key phase := by
  cases phase with
  | locking => trivial
  | joined c =>
    obtain ⟨state, found⟩ := follows
    exact ⟨state, old c _ found⟩
  | leading c => exact old c _ follows
  | settling c value => exact old c _ follows
  | returned c value => exact old c _ follows

/-- A caller that holds no permit moves on, or is dropped. -/
theorem kept_move (s : System κ β) (id : Nat) (next : Option (Caller κ β)) (kept : Kept s)
    (idle : ∀ key c, s.callers.lookup id ≠ some ⟨key, .leading c⟩)
    (follows : ∀ caller, next = some caller → Follows s.cells id caller.key caller.phase) :
    Kept { s with callers := replace s.callers id next } := by
  apply Kept.mk
  · exact kept.exclusive
  · exact kept.mapped
  · intro other caller found
    by_cases same : other = id
    · subst same
      rw [lookup_replace] at found
      exact follows caller found
    · rw [lookup_replace_ne _ _ same] at found
      exact kept.follows other caller found
  · intro c key leader running
    have leads := kept.leaders c key leader running
    have differs : leader ≠ id := by
      intro same
      rw [same] at leads
      exact idle key c leads
    change (replace s.callers id next).lookup leader = _
    rw [lookup_replace_ne _ _ differs, leads]
  · exact kept.spent

/-- A caller changes the cell it may change. -/
theorem kept_fill (s : System κ β) (id c : Nat) (key : κ) (old new : CellState β) (next : Option (Caller κ β)) (kept : Kept s)
    (found : s.cells.lookup c = some ⟨key, old⟩) (unset : old.isSet = false)
    (mine : ∀ other, old = .running other → other = id)
    (leads : ∀ other, new = .running other → other = id ∧ next = some ⟨key, .leading c⟩)
    (here : ∀ k d, s.callers.lookup id = some ⟨k, .leading d⟩ → d = c)
    (follows : ∀ caller, next = some caller → Follows (s.cells.insert c ⟨key, new⟩) id caller.key caller.phase) :
    Kept { s.fill c key new with callers := replace s.callers id next } := by
  apply Kept.mk
  · apply kept.exclusive.mono
    intro cell k opened
    obtain ⟨state, there, unset'⟩ := opened
    change (s.cells.insert c ⟨key, new⟩).lookup cell = _ at there
    by_cases same : cell = c
    · subst same
      rw [AList.lookup_insert] at there
      cases there
      exact ⟨old, found, unset⟩
    · rw [AList.lookup_insert_ne same] at there
      exact ⟨state, there, unset'⟩
  · intro k cell mapped
    obtain ⟨state, there⟩ := kept.mapped k cell mapped
    change ∃ state, (s.cells.insert c ⟨key, new⟩).lookup cell = some ⟨k, state⟩
    by_cases same : cell = c
    · subst same
      rw [found] at there
      cases there
      exact ⟨new, AList.lookup_insert s.cells⟩
    · exact ⟨state, by rw [AList.lookup_insert_ne same, there]⟩
  · intro other caller there
    by_cases same : other = id
    · subst same
      change (replace s.callers other next).lookup other = _ at there
      rw [lookup_replace] at there
      exact follows caller there
    · change (replace s.callers id next).lookup other = _ at there
      rw [lookup_replace_ne _ _ same] at there
      exact follows_fill s.cells c other key caller.key old new caller.phase found unset
        (fun running => same (mine other running)) (kept.follows other caller there)
  · intro cell k leader running
    change (s.cells.insert c ⟨key, new⟩).lookup cell = _ at running
    change (replace s.callers id next).lookup leader = _
    by_cases same : cell = c
    · subst same
      rw [AList.lookup_insert] at running
      cases running
      obtain ⟨rfl, leading⟩ := leads leader rfl
      rw [lookup_replace, leading]
    · rw [AList.lookup_insert_ne same] at running
      have there := kept.leaders cell k leader running
      have differs : leader ≠ id := by
        intro equal
        rw [equal] at there
        exact same (here k cell there)
      rw [lookup_replace_ne _ _ differs, there]
  · intro remover k cell claimed
    obtain ⟨k', value, there⟩ := kept.spent remover k cell claimed
    have differs : cell ≠ c := by
      intro same
      rw [same, found] at there
      cases there
      cases unset
    exact ⟨k', value, by change (s.cells.insert c ⟨key, new⟩).lookup cell = _; rw [AList.lookup_insert_ne differs, there]⟩

/-- A new cell takes a free key. -/
theorem kept_create (s : System κ β) (id fresh : Nat) (key : κ) (kept : Kept s) (absent : fresh ∉ s.cells)
    (free : s.map.lookup key = none) (waits : s.callers.lookup id = some ⟨key, .locking⟩) :
    Kept ({ s.fill fresh key .idle with map := s.map.insert key fresh }.goes id key (.joined fresh)) := by
  have new : s.cells.lookup fresh = none := AList.lookup_eq_none.mpr absent
  have old (cell : Nat) (found : Cell κ β) (there : s.cells.lookup cell = some found) :
      (s.cells.insert fresh ⟨key, .idle⟩).lookup cell = some found := by
    have differs : cell ≠ fresh := by
      intro same
      rw [same, new] at there
      cases there
    rw [AList.lookup_insert_ne differs, there]
  apply Kept.mk
  · apply kept.exclusive.insert fresh key free
    intro other k opened
    obtain ⟨state, there, unset⟩ := opened
    change (s.cells.insert fresh ⟨key, .idle⟩).lookup other = _ at there
    by_cases same : other = fresh
    · subst same
      rw [AList.lookup_insert] at there
      cases there
      exact Or.inl ⟨rfl, rfl⟩
    · rw [AList.lookup_insert_ne same] at there
      exact Or.inr ⟨state, there, unset⟩
  · intro k cell mapped
    change (s.map.insert key fresh).lookup k = _ at mapped
    change ∃ state, (s.cells.insert fresh ⟨key, .idle⟩).lookup cell = some ⟨k, state⟩
    by_cases same : k = key
    · subst same
      rw [AList.lookup_insert] at mapped
      cases mapped
      exact ⟨.idle, AList.lookup_insert s.cells⟩
    · rw [AList.lookup_insert_ne same] at mapped
      obtain ⟨state, there⟩ := kept.mapped k cell mapped
      exact ⟨state, old cell _ there⟩
  · intro other caller there
    change (s.callers.insert id ⟨key, .joined fresh⟩).lookup other = _ at there
    change Follows (s.cells.insert fresh ⟨key, .idle⟩) other caller.key caller.phase
    by_cases same : other = id
    · subst same
      rw [AList.lookup_insert] at there
      cases there
      exact ⟨.idle, AList.lookup_insert s.cells⟩
    · rw [AList.lookup_insert_ne same] at there
      exact follows_grow s.cells _ other caller.key caller.phase old (kept.follows other caller there)
  · intro cell k leader running
    change (s.cells.insert fresh ⟨key, .idle⟩).lookup cell = _ at running
    change (s.callers.insert id ⟨key, .joined fresh⟩).lookup leader = _
    have elsewhere : cell ≠ fresh := by
      intro same
      rw [same, AList.lookup_insert] at running
      cases running
    rw [AList.lookup_insert_ne elsewhere] at running
    have there := kept.leaders cell k leader running
    have differs : leader ≠ id := by
      intro same
      rw [same, waits] at there
      cases there
    rw [AList.lookup_insert_ne differs, there]
  · intro remover k cell claimed
    obtain ⟨k', value, there⟩ := kept.spent remover k cell claimed
    exact ⟨k', value, old cell _ there⟩

theorem kept_call (s after : System κ β) (id : Nat) (key : κ) (kept : Kept s)
    (steps : step s (.call id key) = some after) : Kept after := by
  rw [step] at steps
  split_ifs at steps with taken
  cases steps
  have absent : s.callers.lookup id = none := AList.lookup_eq_none.mpr taken
  apply kept_move s id (some ⟨key, .locking⟩) kept
  · intro k c there
    rw [absent] at there
    cases there
  · intro caller same
    cases same
    trivial

omit [DecidableEq κ] in
/-- Only the leader's caller holds a permit. -/
theorem no_permit (s : System κ β) (id : Nat) (key : κ) (phase : Phase β) (found : s.callers.lookup id = some ⟨key, phase⟩)
    (other : ∀ c, phase ≠ .leading c) (k : κ) (c : Nat) : s.callers.lookup id ≠ some ⟨k, .leading c⟩ := by
  intro there
  rw [found] at there
  cases there
  exact other c rfl

theorem kept_locking (s after : System κ β) (id : Nat) (key : κ) (label : CallerLabel β) (kept : Kept s)
    (found : s.callers.lookup id = some ⟨key, .locking⟩) (steps : callerStep s id key .locking label = some after) :
    Kept after := by
  have idle := no_permit s id key .locking found (fun c same => by cases same)
  cases label with
  | join fresh =>
    rw [callerStep] at steps
    cases mapped : s.map.lookup key with
    | some cell =>
      rw [mapped] at steps
      cases steps
      apply kept_move s id (some ⟨key, .joined cell⟩) kept idle
      intro caller same
      cases same
      exact kept.mapped key cell mapped
    | none =>
      rw [mapped] at steps
      simp only at steps
      split_ifs at steps with taken
      cases steps
      exact kept_create s id fresh key kept taken mapped found
  | drop =>
    cases steps
    exact kept_move s id none kept idle (fun caller same => by cases same)
  | _ => cases steps

theorem kept_joined (s after : System κ β) (id cell : Nat) (key : κ) (label : CallerLabel β) (kept : Kept s)
    (found : s.callers.lookup id = some ⟨key, .joined cell⟩)
    (steps : callerStep s id key (.joined cell) label = some after) : Kept after := by
  have idle := no_permit s id key (.joined cell) found (fun c same => by cases same)
  obtain ⟨state, there⟩ := kept.follows id _ found
  cases label with
  | lead =>
    rw [callerStep, there] at steps
    cases state with
    | idle =>
      cases steps
      apply kept_fill s id cell key .idle (.running id) (some ⟨key, .leading cell⟩) kept there rfl
      · intro other same
        cases same
      · intro other same
        cases same
        exact ⟨rfl, rfl⟩
      · exact fun k d leading => absurd leading (idle k d)
      · intro caller same
        cases same
        exact AList.lookup_insert s.cells
    | running leader => cases steps
    | set value => cases steps
  | take =>
    rw [callerStep, there] at steps
    cases state with
    | idle => cases steps
    | running leader => cases steps
    | set value =>
      cases steps
      apply kept_move s id (some ⟨key, .settling cell value⟩) kept idle
      intro caller same
      cases same
      exact there
  | drop =>
    cases steps
    exact kept_move s id none kept idle (fun caller same => by cases same)
  | _ => cases steps

/-- The leader fills its cell, or leaves it for the next one. -/
theorem kept_leading (s after : System κ β) (id cell : Nat) (key : κ) (label : CallerLabel β) (kept : Kept s)
    (found : s.callers.lookup id = some ⟨key, .leading cell⟩)
    (steps : callerStep s id key (.leading cell) label = some after) : Kept after := by
  have follows : s.cells.lookup cell = some ⟨key, .running id⟩ := kept.follows id _ found
  have here (k : κ) (d : Nat) (leading : s.callers.lookup id = some ⟨k, .leading d⟩) : d = cell := by
    rw [found] at leading
    cases leading
    rfl
  have mine (other : Nat) (same : CellState.running id = (.running other : CellState β)) : other = id := by
    cases same
    rfl
  cases label with
  | finish value =>
    cases steps
    apply kept_fill s id cell key (.running id) (.set value) (some ⟨key, .settling cell value⟩) kept follows rfl mine
    · intro other same
      cases same
    · exact here
    · intro caller same
      cases same
      exact AList.lookup_insert s.cells
  | drop =>
    cases steps
    apply kept_fill s id cell key (.running id) .idle none kept follows rfl mine
    · intro other same
      cases same
    · exact here
    · intro caller same
      cases same
  | _ => cases steps

/-- A task may free the key only of a cell that is filled. -/
theorem kept_settling (s after : System κ β) (id cell : Nat) (key : κ) (value : β) (label : CallerLabel β) (kept : Kept s)
    (found : s.callers.lookup id = some ⟨key, .settling cell value⟩)
    (steps : callerStep s id key (.settling cell value) label = some after) : Kept after := by
  have idle := no_permit s id key (.settling cell value) found (fun c same => by cases same)
  have follows : s.cells.lookup cell = some ⟨key, .set value⟩ := kept.follows id _ found
  have moves : Kept (s.goes id key (.returned cell value)) := by
    apply kept_move s id (some ⟨key, .returned cell value⟩) kept idle
    intro caller same
    cases same
    exact follows
  cases label with
  | settle remover =>
    rw [callerStep] at steps
    split_ifs at steps with own taken
    · cases steps
      apply Kept.mk
      · exact moves.exclusive
      · exact moves.mapped
      · exact moves.follows
      · exact moves.leaders
      · intro other k c claimed
        change (s.removers.insert remover (key, cell)).lookup other = _ at claimed
        by_cases same : other = remover
        · subst same
          rw [AList.lookup_insert] at claimed
          cases claimed
          exact ⟨key, value, follows⟩
        · rw [AList.lookup_insert_ne same] at claimed
          exact kept.spent other k c claimed
    · cases steps
      exact moves
  | drop =>
    cases steps
    exact kept_move s id none kept idle (fun caller same => by cases same)
  | _ => cases steps

theorem kept_caller (s after : System κ β) (id : Nat) (key : κ) (phase : Phase β) (label : CallerLabel β) (kept : Kept s)
    (found : s.callers.lookup id = some ⟨key, phase⟩) (steps : callerStep s id key phase label = some after) :
    Kept after := by
  cases phase with
  | locking => exact kept_locking s after id key label kept found steps
  | joined cell => exact kept_joined s after id cell key label kept found steps
  | leading cell => exact kept_leading s after id cell key label kept found steps
  | settling cell value => exact kept_settling s after id cell key value label kept found steps
  | returned cell value =>
    have idle := no_permit s id key (.returned cell value) found (fun c same => by cases same)
    cases label with
    | drop =>
      cases steps
      exact kept_move s id none kept idle (fun caller same => by cases same)
    | _ => cases steps

theorem kept_sweep (s after : System κ β) (remover : Nat) (kept : Kept s)
    (steps : step s (.sweep remover) = some after) : Kept after := by
  rw [step] at steps
  obtain ⟨⟨key, cell⟩, claimed, rfl⟩ := Option.map_eq_some_iff.mp steps
  obtain ⟨k, value, spent⟩ := kept.spent remover key cell claimed
  apply Kept.mk
  · apply kept.exclusive.release key cell
    intro opened
    obtain ⟨state, there, unset⟩ := opened
    rw [spent] at there
    cases there
    cases unset
  · intro k' c mapped
    apply kept.mapped k' c
    change (release s.map key cell).lookup k' = _ at mapped
    unfold release at mapped
    split_ifs at mapped
    · exact (lookup_erase_some s.map key k' c mapped).2
    · exact mapped
  · exact kept.follows
  · exact kept.leaders
  · intro other k' c claimed'
    exact kept.spent other k' c (lookup_erase_some s.removers remover other (k', c) claimed').2

theorem kept_step (s after : System κ β) (label : Label κ β) (kept : Kept s) (steps : step s label = some after) :
    Kept after := by
  cases label with
  | call id key => exact kept_call s after id key kept steps
  | caller id label =>
    obtain ⟨caller, found, moves⟩ := Option.bind_eq_some_iff.mp steps
    exact kept_caller s after id caller.key caller.phase label kept found moves
  | sweep remover => exact kept_sweep s after remover kept steps

theorem reached_kept {allowed : System κ β → Label κ β → Prop} {s : System κ β} (reached : Reaches machine allowed s) :
    Kept s :=
  reached.invariant Kept (fun _ begins => by rw [begins]; exact kept_empty)
    (fun s label after kept _ steps => kept_step s after label kept steps)

theorem kept_single (s : System κ β) (kept : Kept s) : Single s := by
  apply Single.mk
  · intro a b x y c d left right leads leads' same
    have first := kept.follows a x left
    have second := kept.follows b y right
    rw [leads] at first
    rw [leads', ← same] at second
    have cells := kept.exclusive.unique ⟨_, first, rfl⟩ ⟨_, second, rfl⟩
    rw [← cells] at second
    have leader := Option.some.inj (first.symm.trans second)
    cases leader
    rfl
  · intro id caller c value found phase
    have follows := kept.follows id caller found
    rcases phase with settling | returned
    · rw [settling] at follows
      exact follows
    · rw [returned] at follows
      exact follows
  · intro id caller c found joined
    have follows := kept.follows id caller found
    rw [joined] at follows
    obtain ⟨state, there⟩ := follows
    cases state with
    | idle =>
      apply Or.inr
      apply Or.inl
      rw [step, found, Option.bind_some, joined, callerStep, there]
      exact ⟨_, rfl⟩
    | running leader => exact Or.inr (Or.inr ⟨leader, kept.leaders c caller.key leader there⟩)
    | set value =>
      apply Or.inl
      refine ⟨value, s.goes id caller.key (.settling c value), there, ?_, AList.lookup_insert s.callers⟩
      rw [step, found, Option.bind_some, joined, callerStep, there]
  · intro remover key c after claimed steps k other differs mapped
    rw [step, claimed] at steps
    cases steps
    exact lookup_release_other s.map key k c other differs mapped

end Steps

end OriginCache.Cache.Inflight
