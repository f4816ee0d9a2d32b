import OriginCache.Cache.Coverage

/-! Which of a key's staged spans an eviction takes: the policy's order over the files
on disk, the guard for young spans, and the neighbourhood of a viewer. -/

namespace OriginCache.Cache.Picks
open Coverage

/-- A viewer's neighbourhood and where the viewer will go on from. -/
structure Pin where
  start : Nat
  stop : Nat
  anchor : Nat
deriving DecidableEq, Repr

inductive EvictionPolicy
  | lru | heat
deriving DecidableEq, Repr

def stageMinAgeMs : Nat := 60000
def heatTrailingWindow : Nat := 20

abbrev FileSpan := Nat × Nat

/-- The record of the interval that covers a file. -/
def recordOf (prior : List Interval) (file : FileSpan) : Option Interval :=
  prior.find? fun p => p.start ≤ file.1 ∧ file.2 ≤ p.stop

def ageOf (prior : List Interval) (file : FileSpan) : Option Nat := (recordOf prior file).map Interval.readAt

/-- A file without a record counts as staged at the beginning of time. -/
def isYoung (prior : List Interval) (now : Nat) (file : FileSpan) : Bool :=
  let sealedAt := (ageOf prior file).getD 0
  0 < sealedAt && now - stageMinAgeMs < sealedAt

def isOutside (pin : Option Pin) (file : FileSpan) : Bool :=
  pin.all fun p => file.2 ≤ p.start || p.stop ≤ file.1

def spanBytes (files : List FileSpan) : Nat := (files.map fun file => file.2 - file.1).sum

/-- A file with its place among the key's files. -/
structure Candidate where
  file : FileSpan
  index : Nat
deriving DecidableEq, Repr

/-- The lexicographic order of sort keys of one length. -/
def lexLe : List Nat → List Nat → Bool
  | a :: as, b :: bs => a < b || (a = b && lexLe as bs)
  | _, _ => true

def policyKey (policy : EvictionPolicy) (prior : List Interval) (newest : Nat) (c : Candidate) : List Nat :=
  let readAt := (ageOf prior c.file).getD 0
  match policy with
  | .lru => [readAt, c.file.1]
  | .heat =>
      [(newest - c.index) / heatTrailingWindow, ((recordOf prior c.file).map Interval.reads).getD 0, readAt,
        c.file.1]

/-- Behind the anchor first, ahead of it last. -/
def rank (pin : Option Pin) (file : FileSpan) : Nat × Nat :=
  match pin with
  | some p =>
      if file.2 ≤ p.anchor then (0, p.anchor - file.2)
      else if p.anchor ≤ file.1 then (2, file.1 - p.anchor)
      else (1, 0)
  | none => (1, 0)

/-- Of two files on one side the farther one goes first. -/
def rankLe (a b : Nat × Nat) : Bool := a.1 < b.1 || (a.1 = b.1 && b.2 ≤ a.2)

def takeUntil (need : Nat) : Nat → List FileSpan → List FileSpan
  | _, [] => []
  | acc, file :: rest => if need ≤ acc then [] else file :: takeUntil need (acc + (file.2 - file.1)) rest

/-- What the caller asked for, or the bytes over the cap if those are more. -/
def needOf (files : List FileSpan) (need : Nat) (cap : Option Nat) : Nat :=
  (cap.map fun cap => max need (spanBytes files - cap)).getD need

def ordered (policy : EvictionPolicy) (files : List FileSpan) (prior : List Interval) : List FileSpan :=
  let candidates := files.zipIdx.map fun entry => Candidate.mk entry.1 entry.2
  (candidates.insertionSort fun a b =>
    lexLe (policyKey policy prior (files.length - 1) a) (policyKey policy prior (files.length - 1) b) = true).map
      Candidate.file

/-- The files a pass may take, in the order it takes them. -/
def offered (policy : EvictionPolicy) (files : List FileSpan) (prior : List Interval) (pin : Option Pin)
    (insidePins : Bool) (now : Nat) : List FileSpan :=
  let old := (ordered policy files prior).filter fun file => !isYoung prior now file
  if insidePins then old.insertionSort fun a b => rankLe (rank pin a) (rank pin b) = true
  else old.filter (isOutside pin)

def pickSpans (policy : EvictionPolicy) (files : List FileSpan) (prior : List Interval) (need : Nat)
    (pin : Option Pin) (insidePins : Bool) (cap : Option Nat) (now : Nat) : List FileSpan :=
  takeUntil (needOf files need cap) 0 (offered policy files prior pin insidePins now)

/-! What is picked. -/

theorem perm_ordered (policy : EvictionPolicy) (files : List FileSpan) (prior : List Interval) :
    (ordered policy files prior).Perm files := by
  unfold ordered
  have sorted := List.perm_insertionSort (fun a b : Candidate =>
    lexLe (policyKey policy prior (files.length - 1) a) (policyKey policy prior (files.length - 1) b) = true)
    (files.zipIdx.map fun entry => Candidate.mk entry.1 entry.2)
  have named := sorted.map Candidate.file
  rw [List.map_map] at named
  have plain : files.zipIdx.map (Candidate.file ∘ fun entry => Candidate.mk entry.1 entry.2) = files := by
    change files.zipIdx.map Prod.fst = files
    exact List.zipIdx_map_fst 0 files
  rw [plain] at named
  exact named

/-- Whether a pass may take a file. -/
def mayTake (prior : List Interval) (pin : Option Pin) (insidePins : Bool) (now : Nat) (file : FileSpan) : Bool :=
  !isYoung prior now file && (insidePins || isOutside pin file)

theorem perm_offered (policy : EvictionPolicy) (files : List FileSpan) (prior : List Interval) (pin : Option Pin)
    (insidePins : Bool) (now : Nat) :
    (offered policy files prior pin insidePins now).Perm (files.filter (mayTake prior pin insidePins now)) := by
  unfold offered
  have old := (perm_ordered policy files prior).filter fun file => !isYoung prior now file
  cases insidePins with
  | true =>
    have all : mayTake prior pin true now = fun file => !isYoung prior now file := by
      funext file
      simp [mayTake]
    rw [if_pos rfl, all]
    exact (List.perm_insertionSort _ _).trans old
  | false =>
    rw [if_neg Bool.false_ne_true]
    refine (old.filter _).trans (List.Perm.of_eq ?_)
    rw [List.filter_filter]
    apply List.filter_congr
    intro file _
    simp [mayTake, Bool.and_comm]

theorem takeUntil_prefix (need acc : Nat) (files : List FileSpan) :
    ∃ rest, files = takeUntil need acc files ++ rest ∧
      (need ≤ acc + spanBytes (takeUntil need acc files) ∨ rest = []) := by
  induction files generalizing acc with
  | nil => exact ⟨[], rfl, Or.inr rfl⟩
  | cons file files ih =>
    rw [takeUntil]
    by_cases full : need ≤ acc
    · rw [if_pos full]
      exact ⟨file :: files, rfl, Or.inl (Nat.le_trans full (Nat.le_add_right _ _))⟩
    · rw [if_neg full]
      obtain ⟨rest, same, enough⟩ := ih (acc + (file.2 - file.1))
      refine ⟨rest, by rw [List.cons_append, ← same], enough.imp_left fun enough => ?_⟩
      simp only [spanBytes, List.map_cons, List.sum_cons] at enough ⊢
      omega

/-- The picks are files the pass may take, each once, and they cover the need unless
nothing more may be taken. -/
structure Picked (files : List FileSpan) (prior : List Interval) (need : Nat) (pin : Option Pin)
    (insidePins : Bool) (cap : Option Nat) (now : Nat) (picks : List FileSpan) : Prop where
  listed : ∀ file ∈ picks, file ∈ files ∧ mayTake prior pin insidePins now file = true
  once : files.Nodup → picks.Nodup
  enough : needOf files need cap ≤ spanBytes picks ∨
    ∀ file ∈ files, mayTake prior pin insidePins now file = true → file ∈ picks

theorem picked_pickSpans (policy : EvictionPolicy) (files : List FileSpan) (prior : List Interval) (need : Nat)
    (pin : Option Pin) (insidePins : Bool) (cap : Option Nat) (now : Nat) :
    Picked files prior need pin insidePins cap now
      (pickSpans policy files prior need pin insidePins cap now) := by
  have offers := perm_offered policy files prior pin insidePins now
  obtain ⟨rest, same, enough⟩ := takeUntil_prefix (needOf files need cap) 0
    (offered policy files prior pin insidePins now)
  refine ⟨?_, ?_, ?_⟩
  · intro file picked
    have member : file ∈ offered policy files prior pin insidePins now := by
      rw [same]
      exact List.mem_append_left _ picked
    exact List.mem_filter.mp (offers.mem_iff.mp member)
  · intro once
    have all : (offered policy files prior pin insidePins now).Nodup := offers.symm.nodup (once.filter _)
    rw [same] at all
    exact (List.nodup_append.mp all).1
  · rw [Nat.zero_add] at enough
    refine enough.imp_right fun nothing => ?_
    intro file member may
    have offer := offers.mem_iff.mpr (List.mem_filter.mpr ⟨member, may⟩)
    rw [same, nothing, List.append_nil] at offer
    exact offer

/-! What a rebuilt row remembers. -/

theorem find_first {α : Type} (r : α → α → Prop) (list : List α) (test : α → Bool) (ordered_ : list.Pairwise r)
    (item : α) (member : item ∈ list) (passes : test item = true) :
    ∃ first, list.find? test = some first ∧ test first = true ∧ (first = item ∨ r first item) := by
  induction list with
  | nil => exact (List.not_mem_nil member).elim
  | cons head rest ih =>
    obtain ⟨before, later⟩ := List.pairwise_cons.mp ordered_
    by_cases hit : test head = true
    · refine ⟨head, List.find?_cons_of_pos hit, hit, ?_⟩
      cases List.mem_cons.mp member with
      | inl same => exact Or.inl same.symm
      | inr further => exact Or.inr (before item further)
    · have further : item ∈ rest := by
        cases List.mem_cons.mp member with
        | inl same => exact (hit (same ▸ passes)).elim
        | inr further => exact further
      rw [List.find?_cons_of_neg hit]
      exact ih later further

/-- A listing is sorted by start and then by end. -/
def ListedBefore (a b : FileSpan) : Prop := a.1 < b.1 ∨ (a.1 = b.1 ∧ a.2 ≤ b.2)

/-- A file inside another one of the key has that one's record. -/
def Nested (prior : List Interval) (files : List FileSpan) : Prop :=
  ∀ inner ∈ files, ∀ outer ∈ files, outer.1 < inner.1 → inner.2 ≤ outer.2 → ageOf prior outer = ageOf prior inner

theorem adoptFiles_few (prior : List Interval) (files : List FileSpan) (now : Nat)
    (few : files.length ≤ maxIntervalsPerKey) : adoptFiles prior files now = files.map (adoptFile prior now) := by
  have short : (files.map (adoptFile prior now)).length ≤ maxIntervalsPerKey := by
    rw [List.length_map]
    exact few
  unfold adoptFiles compact
  cases (files.map (adoptFile prior now)).length with
  | zero => rfl
  | succ n => rw [compactWithin, if_pos short]

/-- After a rebuild each survivor has the age it had, and one without a record is as
young as the rebuild. -/
theorem ageOf_adoptFiles (prior : List Interval) (files : List FileSpan) (now : Nat)
    (few : files.length ≤ maxIntervalsPerKey) (sorted : files.Pairwise ListedBefore) (nested : Nested prior files)
    (file : FileSpan) (member : file ∈ files) :
    ageOf (adoptFiles prior files now) file = some ((ageOf prior file).getD now) := by
  have bounds : ∀ g : FileSpan, (adoptFile prior now g).start = g.1 ∧ (adoptFile prior now g).stop = g.2 ∧
      (adoptFile prior now g).readAt = (ageOf prior g).getD now := by
    intro g
    unfold adoptFile ageOf recordOf
    cases prior.find? fun p => p.start ≤ g.1 ∧ g.2 ≤ p.stop <;> exact ⟨rfl, rfl, rfl⟩
  obtain ⟨first, found, covers, earlier⟩ := find_first ListedBefore files
    (fun g => decide (g.1 ≤ file.1 ∧ file.2 ≤ g.2)) sorted file member (by simp)
  have same : ageOf prior first = ageOf prior file := by
    have inside := of_decide_eq_true covers
    rcases earlier with rfl | before | ⟨start, stop⟩
    · rfl
    · have listed : first ∈ files := List.mem_of_find?_eq_some found
      exact nested file member first listed before inside.2
    · have equal : first = file := Prod.ext start (Nat.le_antisymm stop inside.2)
      rw [equal]
  have record : recordOf (adoptFiles prior files now) file = some (adoptFile prior now first) := by
    rw [adoptFiles_few prior files now few, recordOf, List.find?_map]
    have test : ((fun p : Interval => decide (p.start ≤ file.1 ∧ file.2 ≤ p.stop)) ∘ adoptFile prior now) =
        fun g => decide (g.1 ≤ file.1 ∧ file.2 ≤ g.2) := by
      funext g
      simp only [Function.comp, (bounds g).1, (bounds g).2.1]
    rw [test, found]
    rfl
  rw [ageOf, record, Option.map_some, (bounds first).2.2, same]

end OriginCache.Cache.Picks
