import OriginCache.Foundation.Runs
import OriginCache.Request.Listing

/-! Listing requests that share the snapshots of their walks. Between any two steps of a
request, its clock reading, its look at the snapshots, the answer of the upstream and the
recording of it, any other request may take its own. -/

namespace OriginCache.Request.Snapshots
open Foundation.Tables Foundation.Runs Listing
open Cache.SegName (Text)

/-- A dispatched listing, with the moment it has read from the clock. -/
structure Query where
  bucket : Text
  params : ListParams
  pathKey : Text
  ids : RequestIds
  now : Nat

/-- What a walk covers, and a snapshot is kept under. -/
def Query.place (q : Query) : Text × Text × Bool := (q.bucket, q.params.folder, q.params.recursive)

inductive Stage
  | asked | walking | walked (result : Except BackendError (List ListEntry))

/-- An answer of the upstream, kept for the record. -/
structure Walked where
  id : Nat
  place : Text × Text × Bool
  began : Nat
  result : Except BackendError (List ListEntry)

structure Page where
  id : Nat
  query : Query
  response : Response

/-- `lastPut` is the moment of the request that has recorded last. -/
structure State where
  clock : Nat
  rows : ListingCache
  requests : Table Nat (Query × Stage)
  history : List Walked
  pages : List Page
  lastPut : Nat

inductive Label
  | tick (millis : Nat)
  | ask (id : Nat) (bucket : Text) (params : ListParams) (pathKey : Text) (ids : RequestIds)
  | look (id : Nat)
  | walk (id : Nat) (result : Except BackendError (List ListEntry))
  | settle (id : Nat)

section Steps
variable (wire : Wire)

def respond (q : Query) (entries : Except BackendError (List ListEntry)) : Response :=
  listPage wire q.bucket q.params q.pathKey q.ids entries

/-- The request is answered and gone. -/
def State.close (s : State) (id : Nat) (q : Query) (entries : Except BackendError (List ListEntry)) : State :=
  { s with requests := s.requests.erase id, pages := s.pages ++ [⟨id, q, respond wire q entries⟩] }

def State.put (s : State) (q : Query) (entries : List ListEntry) : State :=
  { s with
    rows := ListingCache.put s.rows q.bucket q.params.folder q.params.recursive entries q.now
    lastPut := q.now }

def step (s : State) : Label → Option State
  | .tick millis => some { s with clock := s.clock + millis }
  | .ask id bucket params pathKey ids =>
      if id ∈ s.requests ∨ id ∈ s.pages.map Page.id then none
      else some { s with requests := s.requests.insert id (⟨bucket, params, pathKey, ids, s.clock⟩, .asked) }
  | .look id =>
      match s.requests.lookup id with
      | some (q, .asked) =>
          match ListingCache.get s.rows q.bucket q.params.folder q.params.recursive q.now with
          | some entries => some (s.close wire id q (.ok entries))
          | none => some { s with requests := s.requests.insert id (q, .walking) }
      | _ => none
  | .walk id result =>
      match s.requests.lookup id with
      | some (q, .walking) =>
          some { s with
            requests := s.requests.insert id (q, .walked result)
            history := s.history ++ [⟨id, q.place, q.now, result⟩] }
      | _ => none
  | .settle id =>
      match s.requests.lookup id with
      | some (q, .walked result) =>
          let kept :=
            match result with
            | .ok entries => s.put q entries
            | .error _ => s
          some (kept.close wire id q (entriesOf none result))
      | _ => none

def machine : Machine State Label where
  initial s := s = ⟨s.clock, ∅, ∅, [], [], 0⟩
  step := step wire

/-! What holds of every state. -/

/-- The page is of one answer of the upstream for its own place: its own walk's, or a
good one of a walk that began less than five seconds before the request did. -/
def Cut (history : List Walked) (page : Page) : Prop :=
  ∃ w ∈ history, w.place = page.query.place ∧ page.response = respond wire page.query (entriesOf none w.result) ∧
    (w.id = page.id ∧ w.began = page.query.now ∨
      (∃ entries, w.result = .ok entries) ∧ page.query.now < w.began + listingSnapshotTtlMs)

structure Sound (s : State) : Prop where
  kept : ∀ place row, s.rows.lookup place = some row →
    ∃ w ∈ s.history, w.place = place ∧ w.began = row.1 ∧ w.result = .ok row.2
  live : ∀ place row, s.rows.lookup place = some row → s.lastPut < row.1 + listingSnapshotTtlMs
  walked : ∀ id q result, s.requests.lookup id = some (q, .walked result) →
    ∃ w ∈ s.history, w.id = id ∧ w.place = q.place ∧ w.began = q.now ∧ w.result = result
  cut : ∀ page ∈ s.pages, Cut wire s.history page
  dated : ∀ w ∈ s.history, w.began ≤ s.clock
  asked : ∀ id q stage, s.requests.lookup id = some (q, stage) → q.now ≤ s.clock ∧ id ∉ s.pages.map Page.id
  once : (s.pages.map Page.id).Nodup

variable {wire} {s : State} {id : Nat} {q : Query}

theorem Cut.later {history : List Walked} {page : Page} (cut : Cut wire history page) (w : Walked) :
    Cut wire (history ++ [w]) page := by
  obtain ⟨old, member, rest⟩ := cut
  exact ⟨old, List.mem_append_left _ member, rest⟩

/-- An answer to a request in flight leaves every fact in place. -/
theorem sound_close (sound : Sound wire s) (stage : Stage) (found : s.requests.lookup id = some (q, stage))
    (entries : Except BackendError (List ListEntry)) (cut : Cut wire s.history ⟨id, q, respond wire q entries⟩) :
    Sound wire (s.close wire id q entries) := by
  have fresh := (sound.asked id q stage found).2
  constructor
  · exact sound.kept
  · exact sound.live
  · intro other r result there
    exact sound.walked other r result (lookup_erase_some _ _ _ _ there).2
  · intro page member
    rcases List.mem_append.mp member with before | new
    · exact sound.cut page before
    · exact List.mem_singleton.mp new ▸ cut
  · exact sound.dated
  · intro other r stage there
    obtain ⟨differs, there⟩ := lookup_erase_some _ _ _ _ there
    obtain ⟨early, absent⟩ := sound.asked other r stage there
    refine ⟨early, ?_⟩
    simp only [State.close, List.map_append, List.map_cons, List.map_nil, List.mem_append, List.mem_singleton, not_or]
    exact ⟨absent, differs⟩
  · simp only [State.close, List.map_append, List.map_cons, List.map_nil]
    exact List.nodup_append'.mpr ⟨sound.once, List.nodup_singleton _, List.disjoint_singleton.mpr fresh⟩

theorem sound_put (sound : Sound wire s) (entries : List ListEntry)
    (found : s.requests.lookup id = some (q, .walked (.ok entries))) : Sound wire (s.put q entries) := by
  have row : ∀ place row, (s.put q entries).rows.lookup place = some row →
      place = q.place ∧ row = (q.now, entries) ∨
        s.rows.lookup place = some row ∧ q.now < row.1 + listingSnapshotTtlMs := by
    intro place row there
    rcases lookup_insert_some _ _ _ _ _ there with ⟨same, value⟩ | ⟨_, there⟩
    · exact .inl ⟨same, value⟩
    · rw [lookup_retain, Option.filter_eq_some_iff, decide_eq_true_eq] at there
      have ttl : 0 < listingSnapshotTtlMs := by decide
      exact .inr ⟨there.1, by omega⟩
  constructor
  · intro place r there
    rcases row place r there with ⟨rfl, rfl⟩ | ⟨before, _⟩
    · obtain ⟨w, member, _, placed, began, result⟩ := sound.walked id q _ found
      exact ⟨w, member, placed, began, result⟩
    · exact sound.kept place r before
  · intro place r there
    rcases row place r there with ⟨rfl, rfl⟩ | ⟨_, young⟩
    · exact Nat.lt_add_of_pos_right (by decide)
    · exact young
  · exact sound.walked
  · exact sound.cut
  · exact sound.dated
  · exact sound.asked
  · exact sound.once

theorem sound_look (sound : Sound wire s) (entries : List ListEntry)
    (snapshot : ListingCache.get s.rows q.bucket q.params.folder q.params.recursive q.now = some entries) :
    Cut wire s.history ⟨id, q, respond wire q (.ok entries)⟩ := by
  obtain ⟨row, there, young⟩ := Option.bind_eq_some_iff.mp snapshot
  split_ifs at young with live
  cases young
  obtain ⟨w, member, placed, began, result⟩ := sound.kept q.place row there
  have ttl : 0 < listingSnapshotTtlMs := by decide
  have late : q.now < w.began + listingSnapshotTtlMs := by omega
  exact ⟨w, member, placed, by rw [result]; rfl, .inr ⟨⟨row.2, result⟩, late⟩⟩

/-- A request moves on to a stage that has nothing to record. -/
theorem sound_move (sound : Sound wire s) (stage next : Stage) (found : s.requests.lookup id = some (q, stage))
    (quiet : ∀ result, next ≠ .walked result) :
    Sound wire { s with requests := s.requests.insert id (q, next) } := by
  constructor
  · exact sound.kept
  · exact sound.live
  · intro other r result there
    rcases lookup_insert_some _ _ _ _ _ there with ⟨_, same⟩ | ⟨_, before⟩
    · cases same
      exact absurd rfl (quiet result)
    · exact sound.walked other r result before
  · exact sound.cut
  · exact sound.dated
  · intro other r later there
    rcases lookup_insert_some _ _ _ _ _ there with ⟨rfl, same⟩ | ⟨_, before⟩
    · cases same
      exact sound.asked other q stage found
    · exact sound.asked other r later before
  · exact sound.once

theorem sound_walk (sound : Sound wire s) (found : s.requests.lookup id = some (q, .walking))
    (result : Except BackendError (List ListEntry)) :
    Sound wire { s with
      requests := s.requests.insert id (q, .walked result)
      history := s.history ++ [⟨id, q.place, q.now, result⟩] } := by
  have early := sound.asked id q .walking found
  constructor
  · intro place row there
    obtain ⟨w, member, facts⟩ := sound.kept place row there
    exact ⟨w, List.mem_append_left _ member, facts⟩
  · exact sound.live
  · intro other r answer there
    rcases lookup_insert_some _ _ _ _ _ there with ⟨rfl, same⟩ | ⟨_, before⟩
    · cases same
      exact ⟨_, List.mem_append_right _ (List.mem_singleton.mpr rfl), rfl, rfl, rfl, rfl⟩
    · obtain ⟨w, member, facts⟩ := sound.walked other r answer before
      exact ⟨w, List.mem_append_left _ member, facts⟩
  · exact fun page member => (sound.cut page member).later _
  · intro w member
    rcases List.mem_append.mp member with before | new
    · exact sound.dated w before
    · rw [List.mem_singleton.mp new]
      exact early.1
  · intro other r stage there
    rcases lookup_insert_some _ _ _ _ _ there with ⟨rfl, same⟩ | ⟨_, before⟩
    · cases same
      exact early
    · exact sound.asked other r stage before
  · exact sound.once

theorem sound_ask (sound : Sound wire s) (bucket : Text) (params : ListParams) (pathKey : Text) (ids : RequestIds)
    (fresh : ¬(id ∈ s.requests ∨ id ∈ s.pages.map Page.id)) :
    Sound wire { s with requests := s.requests.insert id (⟨bucket, params, pathKey, ids, s.clock⟩, .asked) } := by
  rw [not_or] at fresh
  constructor
  · exact sound.kept
  · exact sound.live
  · intro other r result there
    rcases lookup_insert_some _ _ _ _ _ there with ⟨_, same⟩ | ⟨_, before⟩
    · cases same
    · exact sound.walked other r result before
  · exact sound.cut
  · exact sound.dated
  · intro other r stage there
    rcases lookup_insert_some _ _ _ _ _ there with ⟨rfl, same⟩ | ⟨_, before⟩
    · cases same
      exact ⟨Nat.le_refl _, fresh.2⟩
    · exact sound.asked other r stage before
  · exact sound.once

theorem sound_tick (sound : Sound wire s) (millis : Nat) : Sound wire { s with clock := s.clock + millis } where
  kept := sound.kept
  live := sound.live
  walked := sound.walked
  cut := sound.cut
  dated w member := Nat.le_add_right_of_le (sound.dated w member)
  asked other r stage there := ⟨Nat.le_add_right_of_le (sound.asked other r stage there).1, (sound.asked other r stage there).2⟩
  once := sound.once

theorem sound_step (label : Label) (after : State) (sound : Sound wire s)
    (moved : (machine wire).step s label = some after) : Sound wire after := by
  change step wire s label = some after at moved
  cases label with
  | tick millis =>
    cases moved
    exact sound_tick sound millis
  | ask id bucket params pathKey ids =>
    rw [step] at moved
    split_ifs at moved with fresh
    cases moved
    exact sound_ask sound bucket params pathKey ids fresh
  | look id =>
    rw [step] at moved
    split at moved
    · next q found =>
      split at moved
      · next entries snapshot =>
        cases moved
        exact sound_close sound .asked found _ (sound_look sound entries snapshot)
      · cases moved
        exact sound_move sound .asked .walking found (by simp)
    · cases moved
  | walk id result =>
    rw [step] at moved
    split at moved
    · next q found =>
      cases moved
      exact sound_walk sound found result
    · cases moved
  | settle id =>
    rw [step] at moved
    split at moved
    · next q result found =>
      cases moved
      obtain ⟨w, member, named, placed, began, answer⟩ := sound.walked id q result found
      have own : Cut wire s.history ⟨id, q, respond wire q (entriesOf none result)⟩ :=
        ⟨w, member, placed, by rw [answer], .inl ⟨named, began⟩⟩
      cases result with
      | ok entries => exact sound_close (sound_put sound entries found) (.walked (.ok entries)) found _ own
      | error e => exact sound_close sound (.walked (.error e)) found _ own
    · cases moved

theorem sound_start (begins : (machine wire).initial s) : Sound wire s := by
  rw [show s = ⟨s.clock, ∅, ∅, [], [], 0⟩ from begins]
  constructor
  · intro place row there
    cases there
  · intro place row there
    cases there
  · intro other r result there
    cases there
  · intro page member
    cases member
  · intro w member
    cases member
  · intro other r stage there
    cases there
  · exact List.nodup_nil

end Steps

/-- In every state that listing requests can reach, each answered request has one page, of
one answer of the upstream for its own place: its own walk's, or a good one of a walk that
began less than five seconds before. Snapshots older than that are gone with the next one. -/
theorem pages_fresh (wire : Wire) (s : State) (reached : Reaches (machine wire) (fun _ _ => True) s) :
    (∀ page ∈ s.pages, Cut wire s.history page) ∧ (s.pages.map Page.id).Nodup ∧ (∀ w ∈ s.history, w.began ≤ s.clock) ∧
      ∀ place row, s.rows.lookup place = some row → s.lastPut < row.1 + listingSnapshotTtlMs := by
  have sound : Sound wire s := reached.invariant (Sound wire) (fun _ begins => sound_start begins)
    (fun _ label after held _ moved => sound_step label after held moved)
  exact ⟨sound.cut, sound.once, sound.dated, sound.live⟩

/-! Two requests for one directory: the second is answered from the walk of the first, and
a third walks again. -/

def plainWire : Wire := ⟨fun _ => [], id, some, some⟩

def sampleParams : ListParams := ⟨true, true, ['d', '/'], some ['/'], none, none, none, none, false, false⟩

def twoRequests : List Label :=
  [.ask 1 ['b'] sampleParams [] ⟨[], []⟩, .look 1, .walk 1 (.ok [⟨['d', '/', 'f'], 7, none, none, false⟩]), .settle 1,
    .tick 4999, .ask 2 ['b'] sampleParams [] ⟨[], []⟩, .look 2, .tick 1, .ask 3 ['b'] sampleParams [] ⟨[], []⟩, .look 3]

theorem pages_fresh_shared : ∃ s : State, (s.pages.map Page.id = [1, 2] ∧ s.history.length = 1 ∧ 3 ∈ s.requests) ∧
    (∀ page ∈ s.pages, Cut plainWire s.history page) := by
  have begins : (machine plainWire).initial ⟨0, ∅, ∅, [], [], 0⟩ := rfl
  obtain ⟨s, reached, passes⟩ := exists_reached (machine plainWire) (fun _ _ => True) twoRequests begins
    (fun s : State => s.pages.map Page.id = [1, 2] && s.history.length = 1 && (s.requests.lookup 3).isSome) (by decide +kernel)
  simp only [Bool.and_eq_true, decide_eq_true_eq] at passes
  exact ⟨s, ⟨passes.1.1, passes.1.2, AList.lookup_isSome.mp passes.2⟩, (pages_fresh plainWire s reached).1⟩

end OriginCache.Request.Snapshots
