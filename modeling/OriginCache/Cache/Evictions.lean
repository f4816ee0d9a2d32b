import OriginCache.Cache.Picks
import OriginCache.Cache.Rows

/-! One eviction over the staged rows: two passes for the budget of the whole cache,
the second of which may spend the viewers' neighbourhoods, and one pass that holds
the rows of objects the cache can never keep to their working window. -/

namespace OriginCache.Cache.Evictions
open Foundation.Tables SegName Coverage Store Staging Ledger SegmentFiles Rows Picks

structure Config where
  evictionPolicy : EvictionPolicy
  maxSizeBytes : Nat
  watchPinBytes : Nat
  sessionWindowBytes : Nat
deriving DecidableEq, Repr

/-- Whether a live body holds a key whole, and where its viewer is. -/
structure Verdict where
  leased : Bool
  pin : Option Pin
deriving DecidableEq, Repr

/-- A body without a watch keeps the whole key. -/
def Verdict.holds (verdict : Verdict) : Bool := verdict.leased && verdict.pin.isNone

def workingWindowBytes (config : Config) : Nat :=
  saturatingAdd config.watchPinBytes (max config.sessionWindowBytes 1)

/-- The rows least recently touched first, those that can never be kept before them. -/
def rowsByAge (ledger : Inner) (maxSizeBytes : Nat) : List Text :=
  ((ledger.map.entries.map fun entry =>
    (if entry.2.total ≤ maxSizeBytes then 1 else 0, entry.2.lastTouch, entry.1)).insertionSort pathOrder).map
      fun row => row.2.2

def unkeepableRows (ledger : Inner) (maxSizeBytes : Nat) : List Text :=
  (ledger.map.entries.filter fun entry => maxSizeBytes < entry.2.total).map Sigma.fst

def dropEmptyRow (s : Staged) (key : Text) : Staged :=
  let kept := dropRowIfEmpty s.ledger key
  ⟨if kept.2 then s.dir.erase (segmetaPath key) else s.dir, kept.1⟩

def trimRow (config : Config) (s : Staged) (key : Text) (want : Nat) (pin : Option Pin) (insidePins : Bool)
    (cap : Option Nat) (now : Nat) : Staged × Nat :=
  match s.ledger.map.lookup key with
  | none => (s, 0)
  | some row =>
      let picks := pickSpans config.evictionPolicy (survivorsOf s.dir key) row.intervals want pin insidePins cap now
      if picks = [] then (s, 0)
      else
        let dropped := dropSpans s key picks now
        if dropped.2 = 0 then dropped else (dropEmptyRow dropped.1 key, dropped.2)

/-- How far an eviction has come: the rows it touched and the bytes it freed. -/
structure Eviction where
  staged : Staged
  touched : Nat
  freed : Nat

section Passes
variable (config : Config) (verdict : Text → Verdict) (need now : Nat)

def trimInto (e : Eviction) (key : Text) (want : Nat) (insidePins : Bool) (cap : Option Nat) : Eviction :=
  let out := trimRow config e.staged key want (verdict key).pin insidePins cap now
  ⟨out.1, if 0 < out.2 then e.touched + 1 else e.touched, e.freed + out.2⟩

def budgetRow (insidePins : Bool) (e : Eviction) (key : Text) : Eviction :=
  if need ≤ e.freed ∨ (verdict key).holds = true then e
  else trimInto config verdict now e key (need - e.freed) insidePins none

def capRow (e : Eviction) (key : Text) : Eviction :=
  if (verdict key).holds = true then e
  else trimInto config verdict now e key 0 false (some (workingWindowBytes config))

def budgetPass (order : List Text) (insidePins : Bool) (e : Eviction) : Eviction :=
  order.foldl (budgetRow config verdict need now insidePins) e

def capPass (e : Eviction) : Eviction :=
  (unkeepableRows e.staged.ledger config.maxSizeBytes).foldl (capRow config verdict now) e

def evictStaged (s : Staged) : Eviction :=
  let order := rowsByAge s.ledger config.maxSizeBytes
  let spared := budgetPass config verdict need now order false ⟨s, 0, 0⟩
  capPass config verdict now (budgetPass config verdict need now order true spared)

end Passes

/-! The files of a key. -/

/-- The listing of a key has its own files only, each as long as its name says. -/
structure Exact (dir : Dir) : Prop where
  own : ∀ key start stop name, (start, stop, name) ∈ segmentsForKey dir key → name = segPath key start stop
  sized : ∀ key start stop name, (start, stop, name) ∈ segmentsForKey dir key → start + fileLen dir name = stop

theorem mem_survivorsOf (dir : Dir) (exact_ : Exact dir) (key : Text) (file : FileSpan) :
    file ∈ survivorsOf dir key ↔ (file.1, file.2, segPath key file.1 file.2) ∈ segmentsForKey dir key := by
  rw [survivorsOf, List.mem_map]
  apply Iff.intro
  · rintro ⟨⟨start, stop, name⟩, listed, rfl⟩
    rw [exact_.own key start stop name listed] at listed
    exact listed
  · exact fun listed => ⟨_, listed, rfl⟩

theorem pathOrder_total (a b : Nat × Nat × Text) : pathOrder a b ∨ pathOrder b a := by
  have texts := List.le_total (bytesOf a.2.2) (bytesOf b.2.2)
  unfold pathOrder
  grind

theorem pathOrder_trans (a b c : Nat × Nat × Text) (first : pathOrder a b) (second : pathOrder b c) :
    pathOrder a c := by
  have texts : bytesOf a.2.2 ≤ bytesOf b.2.2 → bytesOf b.2.2 ≤ bytesOf c.2.2 → bytesOf a.2.2 ≤ bytesOf c.2.2 :=
    fun before after => List.le_trans before after
  unfold pathOrder at first second ⊢
  grind

instance : Std.Total pathOrder := ⟨pathOrder_total⟩
instance : IsTrans (Nat × Nat × Text) pathOrder := ⟨pathOrder_trans⟩

theorem sorted_survivorsOf (dir : Dir) (key : Text) : (survivorsOf dir key).Pairwise ListedBefore := by
  rw [survivorsOf, List.pairwise_map]
  apply (List.pairwise_insertionSort pathOrder _).imp
  intro a b before
  unfold pathOrder at before
  unfold ListedBefore
  omega

theorem nodup_survivorsOf (dir : Dir) (exact_ : Exact dir) (key : Text) : (survivorsOf dir key).Nodup := by
  have paths : (segmentsForKey dir key).Nodup := by
    have names : (keySegmentFiles dir key).Nodup := dir.nodupKeys.filter _
    apply (List.perm_insertionSort pathOrder _).symm.nodup
    apply names.filterMap
    intro a b seg atA atB
    obtain ⟨_, -, rfl⟩ := Option.map_eq_some_iff.mp atA
    obtain ⟨_, -, same⟩ := Option.map_eq_some_iff.mp atB
    exact (congrArg (fun seg : Nat × Nat × Text => seg.2.2) same).symm
  apply List.Nodup.map_on _ paths
  intro a inA b inB same
  obtain ⟨aStart, aStop, aName⟩ := a
  obtain ⟨bStart, bStop, bName⟩ := b
  obtain ⟨rfl, rfl⟩ := Prod.mk.inj same
  rw [exact_.own key aStart aStop aName inA, exact_.own key aStart aStop bName inB]

/-! What deleting some files does to the listings. -/

theorem mem_segmentsForKey_removed (dir after : Dir) (gone : Text → Prop)
    (left : ∀ name, after.lookup name = none ↔ dir.lookup name = none ∨ gone name) (key name : Text)
    (start stop : Nat) :
    (start, stop, name) ∈ segmentsForKey after key ↔ (start, stop, name) ∈ segmentsForKey dir key ∧ ¬ gone name := by
  have kept : name ∈ after ↔ name ∈ dir ∧ ¬ gone name := by
    have here := left name
    rw [AList.lookup_eq_none, AList.lookup_eq_none] at here
    tauto
  rw [mem_segmentsForKey, mem_segmentsForKey, mem_keySegmentFiles, mem_keySegmentFiles, kept]
  tauto

/-- What is left of an exact directory is exact. -/
theorem exact_removed (dir after : Dir) (gone : Text → Prop) (exact_ : Exact dir)
    (left : ∀ name, after.lookup name = none ↔ dir.lookup name = none ∨ gone name)
    (same : ∀ name, ¬ gone name → after.lookup name = dir.lookup name) : Exact after := by
  have back := mem_segmentsForKey_removed dir after gone left
  apply Exact.mk
  · intro key start stop name listed
    exact exact_.own key start stop name ((back key name start stop).mp listed).1
  · intro key start stop name listed
    obtain ⟨before, stays⟩ := (back key name start stop).mp listed
    rw [fileLen, same name stays]
    exact exact_.sized key start stop name before

/-- The bytes of all segment files. -/
def segmentBytes (dir : Dir) : Nat := weigh (fun name bytes => if isSegment name then bytes.length else 0) dir

theorem segmentBytes_erase (dir : Dir) (name : Text) :
    segmentBytes dir = (if isSegment name then fileLen dir name else 0) + segmentBytes (dir.erase name) := by
  unfold segmentBytes
  cases found : dir.lookup name with
  | some bytes =>
    rw [weigh_erase _ dir name bytes found, fileLen, found]
    rfl
  | none =>
    rw [erase_absent dir name (AList.lookup_eq_none.mp found), fileLen, found]
    simp

theorem segmentBytes_removeMeasured (dir : Dir) (names : List Text) (segments : ∀ name ∈ names, isSegment name = true) :
    (removeMeasured dir names).2 + segmentBytes (removeMeasured dir names).1 = segmentBytes dir := by
  induction names generalizing dir with
  | nil => exact Nat.zero_add _
  | cons name names ih =>
    have later := ih (dir.erase name) fun other member => segments other (List.mem_cons_of_mem _ member)
    have here := segmentBytes_erase dir name
    rw [if_pos (segments name List.mem_cons_self)] at here
    simp only [removeMeasured]
    omega

/-- The measured bytes of an exact listing are those of the names. -/
theorem measured_dropFiles (dir : Dir) (exact_ : Exact dir) (key : Text) (picks : List FileSpan) (once : picks.Nodup)
    (listed : ∀ file ∈ picks, file ∈ survivorsOf dir key) : (dropFiles dir key picks).2 = spanBytes picks := by
  unfold dropFiles spanBytes
  induction picks generalizing dir with
  | nil => rfl
  | cons file picks ih =>
    obtain ⟨fresh, once⟩ := List.nodup_cons.mp once
    have here := (mem_survivorsOf dir exact_ key file).mp (listed file List.mem_cons_self)
    have size := exact_.sized key file.1 file.2 _ here
    have left : ∀ name, (dir.erase (segPath key file.1 file.2)).lookup name = none ↔
        dir.lookup name = none ∨ name = segPath key file.1 file.2 := by
      intro name
      by_cases same : name = segPath key file.1 file.2
      · rw [same, AList.lookup_erase]
        simp
      · rw [AList.lookup_erase_ne same]
        simp [same]
    have smaller := exact_removed dir (dir.erase (segPath key file.1 file.2)) (· = segPath key file.1 file.2) exact_
      left fun name other => AList.lookup_erase_ne other
    have rest := ih (dir.erase (segPath key file.1 file.2)) smaller once ?_
    · simp only [List.map_cons, removeMeasured, List.sum_cons] at rest ⊢
      rw [rest]
      omega
    · intro other member
      apply (mem_survivorsOf _ smaller key other).mpr
      apply (mem_segmentsForKey_removed dir _ _ left _ _ _ _).mpr
      refine ⟨(mem_survivorsOf dir exact_ key other).mp (listed other (List.mem_cons_of_mem _ member)), ?_⟩
      intro same
      obtain ⟨-, start, stop⟩ := segPath_injective key key _ _ _ _ same
      exact fresh (Prod.ext start stop ▸ member)

theorem isSegment_listed (dir : Dir) (exact_ : Exact dir) (key name : Text) (start stop : Nat)
    (listed : (start, stop, name) ∈ segmentsForKey dir key) : isSegment name = true := by
  have named := exact_.own key start stop name listed
  obtain ⟨-, read, parsed⟩ := (mem_segmentsForKey dir key name start stop).mp listed
  have segment := List.isPrefixOf_iff_prefix.mpr (segPrefix_segPath key start stop)
  have part := not_segpart_segPath key start stop
  rw [← named] at segment part
  simp [isSegment, segment, part, parsed]

theorem not_isSegment_segmetaPath (key : Text) : isSegment (segmetaPath key) = false := by
  have marker : segPrefix.isPrefixOf (segmetaPath key) = false := rfl
  simp [isSegment, marker]

/-! One row. -/

/-- A row stays as it was, or is rebuilt from the files that are left, or goes because
none are. -/
def Rebuilt (row : Row) (files : List FileSpan) (now : Nat) (after : Option Row) : Prop :=
  after = some row ∨ ∃ left : List FileSpan, left.Pairwise ListedBefore ∧ left.Nodup ∧ (∀ file, file ∈ left ↔ file ∈ files) ∧
    (after = some { row with intervals := adoptFiles row.intervals left now } ∨
      (after = none ∧ adoptFiles row.intervals left now = []))

/-- What trimming one row does: every other key keeps its files and its row, the
bytes that leave are counted, and the row loses the picked files and no others. -/
structure Trimmed (config : Config) (s : Staged) (key : Text) (want : Nat) (pin : Option Pin) (insidePins : Bool)
    (cap : Option Nat) (now : Nat) (after : Staged) (freed : Nat) : Prop where
  exact : Exact after.dir
  others : ∀ other, other ≠ key → ∀ file, file ∈ survivorsOf after.dir other ↔ file ∈ survivorsOf s.dir other
  rows : ∀ other, other ≠ key → after.ledger.map.lookup other = s.ledger.map.lookup other
  accounted : freed + segmentBytes after.dir = segmentBytes s.dir
  absent : s.ledger.map.lookup key = none → after = s
  taken : ∀ row, s.ledger.map.lookup key = some row →
    ∃ picks, Picked (survivorsOf s.dir key) row.intervals want pin insidePins cap now picks ∧ freed = spanBytes picks ∧
      (∀ file, file ∈ survivorsOf after.dir key ↔ file ∈ survivorsOf s.dir key ∧ file ∉ picks) ∧
      Rebuilt row (survivorsOf after.dir key) now (after.ledger.map.lookup key)

/-- The directory after the picked files went, whether or not the marker goes too. -/
structure Cleared (dir : Dir) (key : Text) (picks : List FileSpan) (after : Dir) : Prop where
  exact : Exact after
  files : ∀ other file, file ∈ survivorsOf after other ↔
    file ∈ survivorsOf dir other ∧ ¬ (other = key ∧ file ∈ picks)
  bytes : segmentBytes after = segmentBytes (dropFiles dir key picks).1

theorem cleared_dropFiles (dir : Dir) (exact_ : Exact dir) (key : Text) (picks : List FileSpan) :
    Cleared dir key picks (dropFiles dir key picks).1 := by
  let gone : Text → Prop := fun name => ∃ pick ∈ picks, segPath key pick.1 pick.2 = name
  have left : ∀ name, (dropFiles dir key picks).1.lookup name = none ↔ dir.lookup name = none ∨ gone name := by
    intro name
    rw [lookup_dropFiles]
    by_cases picked : gone name
    · rw [if_pos picked]
      simp [picked]
    · rw [if_neg picked]
      simp [picked]
  have same : ∀ name, ¬ gone name → (dropFiles dir key picks).1.lookup name = dir.lookup name := by
    intro name stays
    rw [lookup_dropFiles, if_neg stays]
  have smaller := exact_removed dir _ gone exact_ left same
  refine ⟨smaller, ?_, rfl⟩
  intro other file
  rw [mem_survivorsOf _ smaller, mem_survivorsOf _ exact_, mem_segmentsForKey_removed dir _ gone left]
  have named : gone (segPath other file.1 file.2) ↔ other = key ∧ file ∈ picks := by
    apply Iff.intro
    · rintro ⟨pick, picked, equal⟩
      obtain ⟨rfl, start, stop⟩ := segPath_injective _ _ _ _ _ _ equal
      exact ⟨rfl, Prod.ext start stop ▸ picked⟩
    · rintro ⟨rfl, picked⟩
      exact ⟨file, picked, rfl⟩
  rw [named]

theorem Cleared.marker {dir after : Dir} {key : Text} {picks : List FileSpan} (cleared : Cleared dir key picks after) :
    Cleared dir key picks (after.erase (segmetaPath key)) := by
  let gone : Text → Prop := fun name => name = segmetaPath key
  have left : ∀ name, (after.erase (segmetaPath key)).lookup name = none ↔ after.lookup name = none ∨ gone name := by
    intro name
    by_cases same : name = segmetaPath key
    · rw [same, AList.lookup_erase]
      simp [gone]
    · rw [AList.lookup_erase_ne same]
      simp [gone, same]
  have smaller := exact_removed after _ gone cleared.exact left fun name other => AList.lookup_erase_ne other
  refine ⟨smaller, ?_, ?_⟩
  · intro other file
    rw [← cleared.files other file, mem_survivorsOf _ smaller, mem_survivorsOf _ cleared.exact,
      mem_segmentsForKey_removed after _ gone left]
    have apart : ¬ gone (segPath other file.1 file.2) := segPath_ne_segmetaPath other key file.1 file.2
    exact and_iff_left apart
  · have here := segmentBytes_erase after (segmetaPath key)
    rw [not_isSegment_segmetaPath key, if_neg Bool.false_ne_true, Nat.zero_add] at here
    rw [← here]
    exact cleared.bytes

theorem lookup_reAdopt (inner : Inner) (key other : Text) (freed : Nat) (survivors : List FileSpan) (now : Nat) :
    (reAdopt inner key freed survivors now).map.lookup other =
      if other = key then
        (inner.map.lookup key).map fun row => { row with intervals := adoptFiles row.intervals survivors now }
      else inner.map.lookup other := by
  unfold reAdopt
  cases found : inner.map.lookup key with
  | none =>
    by_cases same : other = key
    · rw [if_pos same, same]
      exact found
    · rw [if_neg same]
  | some row =>
    by_cases same : other = key
    · rw [if_pos same, same]
      exact AList.lookup_insert _
    · rw [if_neg same]
      exact AList.lookup_insert_ne same

theorem dropRowIfEmpty_cases (inner : Inner) (key : Text) (row : Row) (found : inner.map.lookup key = some row) :
    (row.intervals = [] ∧ dropRowIfEmpty inner key = ({ inner with map := inner.map.erase key }, true)) ∨
      (row.intervals ≠ [] ∧ dropRowIfEmpty inner key = (inner, false)) := by
  unfold dropRowIfEmpty
  rw [found]
  by_cases empty : row.intervals = []
  · exact Or.inl ⟨empty, if_pos empty⟩
  · exact Or.inr ⟨empty, if_neg empty⟩

theorem trimmed_trimRow (config : Config) (s : Staged) (exact_ : Exact s.dir) (key : Text) (want : Nat)
    (pin : Option Pin) (insidePins : Bool) (cap : Option Nat) (now : Nat) :
    Trimmed config s key want pin insidePins cap now (trimRow config s key want pin insidePins cap now).1
      (trimRow config s key want pin insidePins cap now).2 := by
  unfold trimRow
  cases found : s.ledger.map.lookup key with
  | none =>
    refine ⟨exact_, fun _ _ _ => Iff.rfl, fun _ _ => rfl, Nat.zero_add _, fun _ => rfl, ?_⟩
    intro row present
    rw [found] at present
    cases present
  | some row =>
    simp only
    have picked := picked_pickSpans config.evictionPolicy (survivorsOf s.dir key) row.intervals want pin insidePins cap now
    generalize pickSpans config.evictionPolicy (survivorsOf s.dir key) row.intervals want pin insidePins cap now =
      picks at picked
    have gone : ∀ present, s.ledger.map.lookup key = some present → present = row := by
      intro present same
      rw [found] at same
      exact (Option.some.inj same).symm
    by_cases nothing : picks = []
    · rw [if_pos nothing]
      refine ⟨exact_, fun _ _ _ => Iff.rfl, fun _ _ => rfl, Nat.zero_add _, fun _ => rfl, ?_⟩
      intro present same
      rw [gone present same]
      refine ⟨picks, picked, by rw [nothing]; rfl, fun file => ?_, Or.inl found⟩
      rw [nothing]
      simp
    rw [if_neg nothing]
    have once := picked.once (nodup_survivorsOf s.dir exact_ key)
    have cleared := cleared_dropFiles s.dir exact_ key picks
    have measured := measured_dropFiles s.dir exact_ key picks once fun file member => (picked.listed file member).1
    have counted : (dropFiles s.dir key picks).2 + segmentBytes (dropFiles s.dir key picks).1 = segmentBytes s.dir := by
      apply segmentBytes_removeMeasured
      intro name member
      obtain ⟨file, taken, rfl⟩ := List.mem_map.mp member
      exact isSegment_listed s.dir exact_ key _ _ _
        ((mem_survivorsOf s.dir exact_ key file).mp (picked.listed file taken).1)
    have rebuilt : (dropSpans s key picks now).1.ledger.map.lookup key =
        some { row with intervals := adoptFiles row.intervals (survivorsOf (dropFiles s.dir key picks).1 key) now } := by
      simp only [dropSpans, lookup_reAdopt, if_true, found, Option.map_some]
    have kept : ∀ other, other ≠ key → (dropSpans s key picks now).1.ledger.map.lookup other =
        s.ledger.map.lookup other := by
      intro other differs
      simp only [dropSpans, lookup_reAdopt, if_neg differs]
    have result : ∀ after : Staged, ∀ entry, Cleared s.dir key picks after.dir →
        (∀ other, other ≠ key → after.ledger.map.lookup other = s.ledger.map.lookup other) →
        after.ledger.map.lookup key = entry →
        (entry = (dropSpans s key picks now).1.ledger.map.lookup key ∨
          (entry = none ∧ adoptFiles row.intervals (survivorsOf (dropFiles s.dir key picks).1 key) now = [])) →
        Trimmed config s key want pin insidePins cap now after (dropFiles s.dir key picks).2 := by
      intro after entry clear others mine either
      refine ⟨clear.exact, ?_, others, ?_, ?_, ?_⟩
      · intro other differs file
        rw [clear.files other file]
        simp [differs]
      · rw [clear.bytes]
        exact counted
      · intro none_
        rw [found] at none_
        cases none_
      · intro present same
        rw [gone present same]
        have files : ∀ file, file ∈ survivorsOf after.dir key ↔ file ∈ survivorsOf s.dir key ∧ file ∉ picks := by
          intro file
          rw [clear.files key file]
          simp
        refine ⟨picks, picked, measured, files, Or.inr ⟨survivorsOf (dropFiles s.dir key picks).1 key,
          sorted_survivorsOf _ key, nodup_survivorsOf _ cleared.exact key, ?_, ?_⟩⟩
        · intro file
          rw [files file, cleared.files key file]
          simp
        · rw [mine]
          exact either.imp_left fun same => same.trans rebuilt
    by_cases free : (dropSpans s key picks now).2 = 0
    · rw [if_pos free]
      exact result _ _ cleared kept rfl (Or.inl rfl)
    · rw [if_neg free]
      unfold dropEmptyRow
      rcases dropRowIfEmpty_cases _ key _ rebuilt with ⟨empty, drops⟩ | ⟨-, stays⟩
      · rw [drops]
        refine result _ _ cleared.marker ?_ (AList.lookup_erase _ _) (Or.inr ⟨rfl, empty⟩)
        intro other differs
        rw [← kept other differs]
        exact AList.lookup_erase_ne differs
      · rw [stays]
        exact result _ _ cleared kept rfl (Or.inl rfl)

end OriginCache.Cache.Evictions
