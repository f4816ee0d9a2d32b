import Mathlib.Logic.Function.Basic
import OriginCache.Cache.SegName
import OriginCache.Foundation.Runs
import OriginCache.Foundation.Tables

/-! The access clock. A hit leaves its time in the shard of its key; a flusher drains the
shards one after the other, folds what it found into the entries and writes it to the
metadata store. Between any two of its steps hits, installs and deletions go on. -/

namespace OriginCache.Cache.Touches
open Foundation.Tables Foundation.Runs
open SegName (Text)

def accessShards : Nat := 16

/-- A time of last access, numbered by the event it is from. -/
structure Stamp where
  millis : Nat
  event : Nat
deriving DecidableEq, Repr

abbrev Batch := List (Text × Stamp)

inductive Flush
  | idle
  | draining (next : Nat) (batch : Batch)
  | folding (batch : Batch)
  | committing (batch : Batch)
deriving DecidableEq, Repr

/-- Of an entry and of a stored row only the last access is kept here. `touches` and
`installs` record what has happened, and `begun` is when the last flush began. -/
structure System where
  shards : Nat → Table Text Stamp
  pending : Nat
  entries : Table Text Stamp
  rows : Table Text Stamp
  flush : Flush
  events : Nat
  touches : Batch
  installs : Batch
  begun : Nat

inductive Label
  | touch (key : Text) (millis : Nat)
  | tick
  | drain
  | gather
  | fold
  | commit (ok : Bool)
  | install (key : Text) (millis : Nat)
  | remove (key : Text)
  | persist (key : Text) (stamp : Stamp)
  | erase (key : Text)
deriving DecidableEq, Repr

section Steps
variable (hash : Text → Nat)

def shardOf (key : Text) : Nat := hash key % accessShards

def pairs (table : Table Text Stamp) : Batch := table.entries.map fun entry => (entry.1, entry.2)

/-- Keys without a row are passed over. -/
def applyBatch : Batch → Table Text Stamp → Table Text Stamp
  | [], table => table
  | each :: batch, table => applyBatch batch (if each.1 ∈ table then table.insert each.1 each.2 else table)

def touch (s : System) (key : Text) (millis : Nat) : System :=
  let shard := (s.shards (shardOf hash key)).insert key ⟨millis, s.events⟩
  { s with
    shards := Function.update s.shards (shardOf hash key) shard
    pending := shard.keys.length
    events := s.events + 1
    touches := (key, ⟨millis, s.events⟩) :: s.touches }

def install (s : System) (key : Text) (millis : Nat) : System :=
  { s with
    entries := s.entries.insert key ⟨millis, s.events⟩
    events := s.events + 1
    installs := (key, ⟨millis, s.events⟩) :: s.installs }

def step (s : System) : Label → Option System
  | .touch key millis => some (touch hash s key millis)
  | .tick => if s.flush = .idle then some { s with flush := .draining 0 [], begun := s.events } else none
  | .drain =>
      match s.flush with
      | .draining next batch =>
          if next < accessShards then
            some { s with
              shards := Function.update s.shards next ∅
              flush := .draining (next + 1) (batch ++ pairs (s.shards next)) }
          else none
      | _ => none
  | .gather =>
      match s.flush with
      | .draining next batch =>
          if next < accessShards then none
          else some { s with pending := 0, flush := if batch = [] then .idle else .folding batch }
      | _ => none
  | .fold =>
      match s.flush with
      | .folding batch => some { s with entries := applyBatch batch s.entries, flush := .committing batch }
      | _ => none
  | .commit ok =>
      match s.flush with
      | .committing batch => some { s with rows := if ok then applyBatch batch s.rows else s.rows, flush := .idle }
      | _ => none
  | .install key millis => some (install s key millis)
  | .remove key => some { s with entries := s.entries.erase key }
  | .persist key stamp =>
      if (key, stamp) ∈ s.installs then some { s with rows := s.rows.insert key stamp } else none
  | .erase key => some { s with rows := s.rows.erase key }

def machine : Machine System Label where
  initial s := s = ⟨fun _ => ∅, 0, ∅, ∅, .idle, 0, [], [], 0⟩
  step := step hash

/-! What holds of every state. -/

/-- What the flusher has drained and not folded yet. -/
def Flush.hand : Flush → Batch
  | .draining _ batch => batch
  | .folding batch => batch
  | _ => []

/-- The shards a flush has drained, when it is still at it. -/
def Flush.passed : Flush → Nat → Prop
  | .draining next _, shard => shard < next
  | _, _ => True

/-- The entry of the key, if it has one, is as late as the event. -/
def Settled (s : System) (key : Text) (event : Nat) : Prop :=
  ∀ stamp, s.entries.lookup key = some stamp → event ≤ stamp.event

def InHand (s : System) (key : Text) (event : Nat) : Prop := ∃ v, (key, v) ∈ s.flush.hand ∧ event ≤ v.event

def InShard (s : System) (key : Text) (event : Nat) : Prop :=
  ∃ v, (s.shards (shardOf hash key)).lookup key = some v ∧ event ≤ v.event

structure Sound (s : System) : Prop where
  numbered : ∀ key stamp, (key, stamp) ∈ s.touches ∨ (key, stamp) ∈ s.installs → stamp.event < s.events
  started : s.begun ≤ s.events
  placed : ∀ shard key stamp, (s.shards shard).lookup key = some stamp →
    shard = shardOf hash key ∧ (key, stamp) ∈ s.touches
  latest : ∀ key stamp other, (s.shards (shardOf hash key)).lookup key = some stamp → (key, other) ∈ s.touches →
    other.event ≤ stamp.event
  drained : ∀ key stamp, (key, stamp) ∈ s.flush.hand →
    s.flush.passed (shardOf hash key) ∧ (key, stamp) ∈ s.touches
  order : ∀ key stamp other, (key, stamp) ∈ s.flush.hand → (key, other) ∈ s.touches →
    other.event ≤ stamp.event ∨ s.begun ≤ other.event ∧ InShard hash s key other.event
  kept : ∀ key stamp, (key, stamp) ∈ s.touches →
    InShard hash s key stamp.event ∨ InHand s key stamp.event ∨ Settled s key stamp.event
  old : ∀ key stamp, (key, stamp) ∈ s.touches → stamp.event < s.begun → s.flush.passed (shardOf hash key) →
    InHand s key stamp.event ∨ Settled s key stamp.event
  entries : ∀ key stamp, s.entries.lookup key = some stamp →
    ((key, stamp) ∈ s.touches ∨ (key, stamp) ∈ s.installs) ∧ ∃ made, (key, made) ∈ s.installs
  rows : ∀ key stamp, s.rows.lookup key = some stamp →
    ((key, stamp) ∈ s.touches ∨ (key, stamp) ∈ s.installs) ∧ ∃ made, (key, made) ∈ s.installs
  writing : ∀ batch, s.flush = .committing batch →
    ∀ key stamp, (key, stamp) ∈ batch → (key, stamp) ∈ s.touches

variable {hash} {s : System} {key : Text}

theorem mem_pairs (table : Table Text Stamp) (key : Text) (stamp : Stamp) :
    (key, stamp) ∈ pairs table ↔ table.lookup key = some stamp := by
  rw [← Option.mem_def, AList.mem_lookup_iff, pairs, List.mem_map]
  constructor
  · rintro ⟨⟨k, v⟩, member, same⟩
    cases same
    exact member
  · intro member
    exact ⟨⟨key, stamp⟩, member, rfl⟩

/-- A row that is there after a batch was there before it, and is of the batch unless the
batch passes its key over. -/
theorem applyBatch_cases (batch : Batch) (table : Table Text Stamp) (stamp : Stamp)
    (found : (applyBatch batch table).lookup key = some stamp) :
    ∃ old, table.lookup key = some old ∧ ((key, stamp) ∈ batch ∨ stamp = old ∧ ∀ v, (key, v) ∉ batch) := by
  induction batch generalizing table with
  | nil => exact ⟨stamp, found, .inr ⟨rfl, fun v => List.not_mem_nil⟩⟩
  | cons each batch ih =>
    obtain ⟨old, there, from_⟩ := ih _ found
    by_cases known : each.1 ∈ table
    · rw [if_pos known] at there
      rcases lookup_insert_some _ _ _ _ _ there with ⟨rfl, rfl⟩ | ⟨differs, there⟩
      · obtain ⟨before, had⟩ := Option.isSome_iff_exists.mp (AList.lookup_isSome.mpr known)
        refine ⟨before, had, .inl ?_⟩
        rcases from_ with later | ⟨rfl, _⟩
        · exact List.mem_cons_of_mem _ later
        · exact List.mem_cons_self
      · refine ⟨old, there, from_.imp (List.mem_cons_of_mem _) ?_⟩
        rintro ⟨rfl, free⟩
        refine ⟨rfl, fun v member => ?_⟩
        rcases List.mem_cons.mp member with rfl | later
        · exact differs rfl
        · exact free v later
    · rw [if_neg known] at there
      refine ⟨old, there, from_.imp (List.mem_cons_of_mem _) ?_⟩
      rintro ⟨rfl, free⟩
      refine ⟨rfl, fun v member => ?_⟩
      rcases List.mem_cons.mp member with rfl | later
      · exact known (AList.lookup_isSome.mp (Option.isSome_iff_exists.mpr ⟨_, there⟩))
      · exact free v later

/-! A hit. -/

/-- The shard of a key now holds an event as late as any. -/
theorem inShard_touch (millis event : Nat) (past : event ≤ s.events) :
    InShard hash (touch hash s key millis) key event := by
  refine ⟨⟨millis, s.events⟩, ?_, past⟩
  simp only [touch, Function.update_self, AList.lookup_insert]

theorem inShard_kept (millis : Nat) (other : Text) (event : Nat) (past : event ≤ s.events)
    (held : InShard hash s other event) : InShard hash (touch hash s key millis) other event := by
  by_cases same : other = key
  · subst same
    exact inShard_touch millis event past
  · obtain ⟨v, there, late⟩ := held
    refine ⟨v, ?_, late⟩
    by_cases own : shardOf hash other = shardOf hash key
    · simp only [touch, own, Function.update_self, AList.lookup_insert_ne same]
      rw [← own]
      exact there
    · simp only [touch, Function.update_of_ne own]
      exact there

section Hits
variable (sound : Sound hash s) (millis : Nat)
include sound

theorem shard_touch (shard : Nat) (other : Text) (stamp : Stamp)
    (found : ((touch hash s key millis).shards shard).lookup other = some stamp) :
    shard = shardOf hash key ∧ other = key ∧ stamp = ⟨millis, s.events⟩ ∨
      other ≠ key ∧ (s.shards shard).lookup other = some stamp := by
  by_cases own : shard = shardOf hash key
  · subst own
    simp only [touch, Function.update_self] at found
    rcases lookup_insert_some _ _ _ _ _ found with ⟨rfl, rfl⟩ | ⟨differs, before⟩
    · exact .inl ⟨rfl, rfl, rfl⟩
    · exact .inr ⟨differs, before⟩
  · simp only [touch, Function.update_of_ne own] at found
    by_cases same : other = key
    · subst same
      exact absurd (sound.placed shard other stamp found).1 own
    · exact .inr ⟨same, found⟩

theorem sound_touch : Sound hash (touch hash s key millis) := by
  have numbered := sound.numbered
  constructor
  · intro other stamp recorded
    simp only [touch, List.mem_cons, Prod.mk.injEq] at recorded ⊢
    rcases recorded with (⟨-, rfl⟩ | before) | before
    · exact Nat.lt_succ_self _
    · exact Nat.lt_succ_of_lt (numbered other stamp (.inl before))
    · exact Nat.lt_succ_of_lt (numbered other stamp (.inr before))
  · exact Nat.le_succ_of_le sound.started
  · intro shard other stamp found
    rcases shard_touch sound millis shard other stamp found with ⟨rfl, rfl, rfl⟩ | ⟨_, before⟩
    · exact ⟨rfl, List.mem_cons_self⟩
    · obtain ⟨own, recorded⟩ := sound.placed shard other stamp before
      exact ⟨own, List.mem_cons_of_mem _ recorded⟩
  · intro k stamp other found recorded
    rcases shard_touch sound millis _ k stamp found with ⟨_, rfl, rfl⟩ | ⟨differs, before⟩
    · rcases List.mem_cons.mp recorded with new | old
      · cases new
        exact Nat.le_refl _
      · exact Nat.le_of_lt (numbered k other (.inl old))
    · rcases List.mem_cons.mp recorded with new | old
      · cases new
        exact absurd rfl differs
      · exact sound.latest k stamp other before old
  · intro k stamp held
    obtain ⟨passed, recorded⟩ := sound.drained k stamp held
    exact ⟨passed, List.mem_cons_of_mem _ recorded⟩
  · intro k stamp other held recorded
    rcases List.mem_cons.mp recorded with new | old
    · cases new
      exact .inr ⟨sound.started, inShard_touch millis _ (Nat.le_refl _)⟩
    · have past := Nat.le_of_lt (numbered k other (.inl old))
      exact (sound.order k stamp other held old).imp id fun later =>
        ⟨later.1, inShard_kept millis k _ past later.2⟩
  · intro k stamp recorded
    rcases List.mem_cons.mp recorded with new | old
    · cases new
      exact .inl (inShard_touch millis _ (Nat.le_refl _))
    · have past := Nat.le_of_lt (numbered k stamp (.inl old))
      exact (sound.kept k stamp old).imp (inShard_kept millis k _ past) id
  · intro k stamp recorded early passed
    rcases List.mem_cons.mp recorded with new | old
    · cases new
      exact absurd early (Nat.not_lt.mpr sound.started)
    · exact sound.old k stamp old early passed
  · intro k stamp found
    obtain ⟨from_, made⟩ := sound.entries k stamp found
    exact ⟨from_.imp (List.mem_cons_of_mem _) id, made⟩
  · intro k stamp found
    obtain ⟨from_, made⟩ := sound.rows k stamp found
    exact ⟨from_.imp (List.mem_cons_of_mem _) id, made⟩
  · intro batch writes k stamp member
    exact List.mem_cons_of_mem _ (sound.writing batch writes k stamp member)

end Hits

/-! The flusher. -/

theorem sound_tick (sound : Sound hash s) (idle : s.flush = .idle) :
    Sound hash { s with flush := .draining 0 [], begun := s.events } := by
  obtain ⟨numbered, _, placed, latest, _, _, kept, _, entries, rows, _⟩ := sound
  constructor
  · exact numbered
  · exact Nat.le_refl _
  · exact placed
  · exact latest
  · intro k stamp held
    cases held
  · intro k stamp other held
    cases held
  · intro k stamp recorded
    refine (kept k stamp recorded).imp id (Or.imp ?_ id)
    rintro ⟨v, held, _⟩
    rw [idle] at held
    cases held
  · intro k stamp _ _ passed
    exact absurd passed (Nat.not_lt_zero _)
  · exact entries
  · exact rows
  · intro batch writes
    cases writes

theorem sound_drain (sound : Sound hash s) (next : Nat) (batch : Batch) (flush : s.flush = .draining next batch) :
    Sound hash { s with
      shards := Function.update s.shards next ∅
      flush := .draining (next + 1) (batch ++ pairs (s.shards next)) } := by
  obtain ⟨numbered, started, placed, latest, drained, order, kept, old, entries, rows, _⟩ := sound
  rw [flush] at drained order old
  simp only [Flush.hand, Flush.passed] at drained order old
  have left : ∀ shard k stamp, (Function.update s.shards next ∅ shard).lookup k = some stamp →
      shard ≠ next ∧ (s.shards shard).lookup k = some stamp := by
    intro shard k stamp found
    by_cases same : shard = next
    · subst same
      rw [Function.update_self, AList.lookup_empty] at found
      cases found
    · rw [Function.update_of_ne same] at found
      exact ⟨same, found⟩
  -- What was in the shard of a key is in hand now, and any other shard is as it was.
  have stays : ∀ k event, InShard hash s k event → shardOf hash k ≠ next → InShard hash
      { s with
        shards := Function.update s.shards next ∅
        flush := .draining (next + 1) (batch ++ pairs (s.shards next)) } k event := by
    rintro k event ⟨v, there, late⟩ other
    exact ⟨v, by simp only [Function.update_of_ne other]; exact there, late⟩
  have taken : ∀ k event, InShard hash s k event → shardOf hash k = next →
      ∃ v, (k, v) ∈ batch ++ pairs (s.shards next) ∧ event ≤ v.event := by
    rintro k event ⟨v, there, late⟩ own
    rw [own] at there
    exact ⟨v, List.mem_append_right _ ((mem_pairs _ k v).mpr there), late⟩
  have carried : ∀ k event, InHand s k event → ∃ v, (k, v) ∈ batch ++ pairs (s.shards next) ∧ event ≤ v.event := by
    rintro k event ⟨v, held, late⟩
    rw [flush] at held
    exact ⟨v, List.mem_append_left _ held, late⟩
  constructor
  · exact numbered
  · exact started
  · intro shard k stamp found
    exact placed shard k stamp (left shard k stamp found).2
  · intro k stamp other found recorded
    exact latest k stamp other (left _ k stamp found).2 recorded
  · intro k stamp held
    rcases List.mem_append.mp held with before | new
    · exact ⟨Nat.lt_succ_of_lt (drained k stamp before).1, (drained k stamp before).2⟩
    · obtain ⟨own, recorded⟩ := placed next k stamp ((mem_pairs _ k stamp).mp new)
      exact ⟨own ▸ Nat.lt_succ_self next, recorded⟩
  · intro k stamp other held recorded
    rcases List.mem_append.mp held with before | new
    · refine (order k stamp other before recorded).imp id fun later => ⟨later.1, ?_⟩
      exact stays k _ later.2 (Nat.ne_of_lt (drained k stamp before).1)
    · have there := (mem_pairs _ k stamp).mp new
      have own := (placed next k stamp there).1
      rw [own] at there
      exact .inl (latest k stamp other there recorded)
  · intro k stamp recorded
    rcases kept k stamp recorded with sharded | held | settled
    · by_cases own : shardOf hash k = next
      · exact .inr (.inl (taken k _ sharded own))
      · exact .inl (stays k _ sharded own)
    · exact .inr (.inl (carried k _ held))
    · exact .inr (.inr settled)
  · intro k stamp recorded early passed
    rcases Nat.lt_succ_iff_lt_or_eq.mp passed with before | own
    · exact (old k stamp recorded early before).imp (carried k _) id
    · rcases kept k stamp recorded with sharded | held | settled
      · exact .inl (taken k _ sharded own)
      · exact .inl (carried k _ held)
      · exact .inr settled
  · exact entries
  · exact rows
  · intro other writes
    cases writes

theorem sound_gather (sound : Sound hash s) (next : Nat) (batch : Batch) (flush : s.flush = .draining next batch)
    (all : ¬ next < accessShards) :
    Sound hash { s with pending := 0, flush := if batch = [] then .idle else .folding batch } := by
  obtain ⟨numbered, started, placed, latest, drained, order, kept, old, entries, rows, _⟩ := sound
  have hand : (if batch = [] then Flush.idle else .folding batch).hand = s.flush.hand := by
    rw [flush]
    split_ifs with none_
    · exact none_.symm
    · rfl
  have passes (k : Text) : s.flush.passed (shardOf hash k) := by
    rw [flush]
    exact Nat.lt_of_lt_of_le (Nat.mod_lt _ (by decide)) (Nat.not_lt.mp all)
  have inHand : ∀ k event, InHand s k event → InHand
      { s with pending := 0, flush := if batch = [] then .idle else .folding batch } k event := by
    rintro k event ⟨v, held, late⟩
    exact ⟨v, by rw [← hand] at held; exact held, late⟩
  constructor
  · exact numbered
  · exact started
  · exact placed
  · exact latest
  · intro k stamp held
    rw [hand] at held
    refine ⟨?_, (drained k stamp held).2⟩
    split_ifs <;> exact trivial
  · intro k stamp other held
    rw [hand] at held
    exact order k stamp other held
  · intro k stamp recorded
    exact (kept k stamp recorded).imp id (Or.imp (inHand k _) id)
  · intro k stamp recorded early _
    exact (old k stamp recorded early (passes k)).imp (inHand k _) id
  · exact entries
  · exact rows
  · intro other writes
    split_ifs at writes

/-- The fold makes each entry as late as the batch says, and that is as late as every
touch the shards no longer hold. -/
theorem sound_fold (sound : Sound hash s) (batch : Batch) (flush : s.flush = .folding batch) :
    Sound hash { s with entries := applyBatch batch s.entries, flush := .committing batch } := by
  obtain ⟨numbered, started, placed, latest, drained, order, kept, old, entries, rows, _⟩ := sound
  rw [flush] at drained order old
  simp only [Flush.hand, Flush.passed] at drained order old
  have free : ∀ k event, InHand s k event → ¬ ∀ v, (k, v) ∉ batch := by
    rintro k event ⟨v, held, _⟩ none_
    rw [flush] at held
    exact none_ v held
  constructor
  · exact numbered
  · exact started
  · exact placed
  · exact latest
  · intro k stamp held
    cases held
  · intro k stamp other held
    cases held
  · intro k touched recorded
    by_cases sharded : InShard hash s k touched.event
    · exact .inl sharded
    · refine .inr (.inr fun stamp found => ?_)
      obtain ⟨before, had, from_⟩ := applyBatch_cases batch s.entries stamp found
      rcases from_ with held | ⟨rfl, none_⟩
      · exact (order k stamp touched held recorded).elim id fun later => absurd later.2 sharded
      · rcases kept k touched recorded with there | held | settled
        · exact absurd there sharded
        · exact absurd none_ (free k _ held)
        · exact settled stamp had
  · intro k touched recorded early _
    refine .inr fun stamp found => ?_
    obtain ⟨before, had, from_⟩ := applyBatch_cases batch s.entries stamp found
    rcases from_ with held | ⟨rfl, none_⟩
    · exact (order k stamp touched held recorded).elim id fun later => absurd early (Nat.not_lt.mpr later.1)
    · rcases old k touched recorded early trivial with held | settled
      · exact absurd none_ (free k _ held)
      · exact settled stamp had
  · intro k stamp found
    obtain ⟨before, had, from_⟩ := applyBatch_cases batch s.entries stamp found
    refine ⟨?_, (entries k before had).2⟩
    rcases from_ with held | ⟨rfl, _⟩
    · exact .inl (drained k stamp held).2
    · exact (entries k stamp had).1
  · exact rows
  · intro other writes
    cases writes
    exact fun k stamp held => (drained k stamp held).2

theorem sound_commit (sound : Sound hash s) (batch : Batch) (flush : s.flush = .committing batch) (ok : Bool) :
    Sound hash { s with rows := if ok then applyBatch batch s.rows else s.rows, flush := .idle } := by
  obtain ⟨numbered, started, placed, latest, _, _, kept, old, entries, rows, writing⟩ := sound
  have inHand : ∀ k event, ¬ InHand s k event := by
    rintro k event ⟨v, held, _⟩
    rw [flush] at held
    cases held
  constructor
  · exact numbered
  · exact started
  · exact placed
  · exact latest
  · intro k stamp held
    cases held
  · intro k stamp other held
    cases held
  · intro k stamp recorded
    exact (kept k stamp recorded).imp id (Or.imp (fun held => absurd held (inHand k _)) id)
  · intro k stamp recorded early _
    rw [flush] at old
    exact (old k stamp recorded early trivial).imp (fun held => absurd held (inHand k _)) id
  · exact entries
  · intro k stamp found
    cases ok with
    | false => exact rows k stamp found
    | true =>
      obtain ⟨before, had, from_⟩ := applyBatch_cases batch s.rows stamp found
      refine ⟨?_, (rows k before had).2⟩
      rcases from_ with held | ⟨rfl, _⟩
      · exact .inl (writing batch flush k stamp held)
      · exact (rows k stamp had).1
  · intro other writes
    cases writes

/-! The other writers of entries and rows. -/

theorem sound_install (sound : Sound hash s) (millis : Nat) : Sound hash (install s key millis) := by
  obtain ⟨numbered, started, placed, latest, drained, order, kept, old, entries, rows, writing⟩ := sound
  have settled : ∀ k stamp, (k, stamp) ∈ s.touches → Settled s k stamp.event →
      Settled (install s key millis) k stamp.event := by
    intro k stamp recorded before found there
    rcases lookup_insert_some _ _ _ _ _ there with ⟨_, rfl⟩ | ⟨_, had⟩
    · exact Nat.le_of_lt (numbered k stamp (.inl recorded))
    · exact before found had
  constructor
  · intro k stamp recorded
    rcases recorded with touched | made
    · exact Nat.lt_succ_of_lt (numbered k stamp (.inl touched))
    · rcases List.mem_cons.mp made with new | before
      · cases new
        exact Nat.lt_succ_self _
      · exact Nat.lt_succ_of_lt (numbered k stamp (.inr before))
  · exact Nat.le_succ_of_le started
  · exact placed
  · exact latest
  · exact drained
  · exact order
  · intro k stamp recorded
    exact (kept k stamp recorded).imp id (Or.imp id (settled k stamp recorded))
  · intro k stamp recorded early passed
    exact (old k stamp recorded early passed).imp id (settled k stamp recorded)
  · intro k stamp found
    rcases lookup_insert_some _ _ _ _ _ found with ⟨rfl, rfl⟩ | ⟨_, had⟩
    · exact ⟨.inr List.mem_cons_self, _, List.mem_cons_self⟩
    · obtain ⟨from_, made, there⟩ := entries k stamp had
      exact ⟨from_.imp id (List.mem_cons_of_mem _), made, List.mem_cons_of_mem _ there⟩
  · intro k stamp found
    obtain ⟨from_, made, there⟩ := rows k stamp found
    exact ⟨from_.imp id (List.mem_cons_of_mem _), made, List.mem_cons_of_mem _ there⟩
  · exact writing

theorem sound_remove (sound : Sound hash s) : Sound hash { s with entries := s.entries.erase key } := by
  obtain ⟨numbered, started, placed, latest, drained, order, kept, old, entries, rows, writing⟩ := sound
  have settled : ∀ k event, Settled s k event → Settled { s with entries := s.entries.erase key } k event :=
    fun k event before stamp found => before stamp (lookup_erase_some _ _ _ _ found).2
  exact {
    numbered, started, placed, latest, drained, order, rows, writing
    kept := fun k stamp recorded => (kept k stamp recorded).imp id (Or.imp id (settled k _))
    old := fun k stamp recorded early passed => (old k stamp recorded early passed).imp id (settled k _)
    entries := fun k stamp found => entries k stamp (lookup_erase_some _ _ _ _ found).2 }

theorem sound_step (sound : Sound hash s) (label : Label) (after : System) (steps : step hash s label = some after) :
    Sound hash after := by
  cases label with
  | touch key millis =>
    cases steps
    exact sound_touch sound millis
  | tick =>
    rw [step] at steps
    split_ifs at steps with idle
    cases steps
    exact sound_tick sound idle
  | drain =>
    rw [step] at steps
    split at steps
    · rename_i next batch flush
      split_ifs at steps with more
      cases steps
      exact sound_drain sound next batch flush
    · cases steps
  | gather =>
    rw [step] at steps
    split at steps
    · rename_i next batch flush
      by_cases more : next < accessShards
      · rw [if_pos more] at steps
        cases steps
      · rw [if_neg more] at steps
        cases steps
        exact sound_gather sound next batch flush more
    · cases steps
  | fold =>
    rw [step] at steps
    split at steps
    · rename_i batch flush
      cases steps
      exact sound_fold sound batch flush
    · cases steps
  | commit ok =>
    rw [step] at steps
    split at steps
    · rename_i batch flush
      cases steps
      exact sound_commit sound batch flush ok
    · cases steps
  | install key millis =>
    cases steps
    exact sound_install sound millis
  | remove key =>
    cases steps
    exact sound_remove sound
  | persist key stamp =>
    rw [step] at steps
    split_ifs at steps with made
    cases steps
    refine { sound with rows := fun k found there => ?_ }
    rcases lookup_insert_some _ _ _ _ _ there with ⟨rfl, rfl⟩ | ⟨_, had⟩
    · exact ⟨.inr made, _, made⟩
    · exact sound.rows k found had
  | erase key =>
    cases steps
    exact { sound with rows := fun k stamp found => sound.rows k stamp (lookup_erase_some _ _ _ _ found).2 }

theorem sound_reached (reached : Reaches (machine hash) (fun _ _ => True) s) : Sound hash s := by
  apply reached.invariant (Sound hash)
  · rintro state rfl
    constructor
    all_goals
      simp [Flush.hand, Flush.passed]
  · intro state label after sound _ steps
    exact sound_step sound label after steps

end Steps

/-! A hit between two drains, and its entry after the flush. -/

def drains (n : Nat) : List Label := List.replicate n .drain

def flushed : List Label :=
  [.install ['k'] 5, .touch ['k'] 7, .tick] ++ drains 16 ++ [.touch ['k'] 6, .gather, .fold]

def sameShard : Text → Nat := fun _ => 3

end OriginCache.Cache.Touches
