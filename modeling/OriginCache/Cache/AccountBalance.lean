import OriginCache.Cache.Accounts

/-! The balance between the account, the files and what is owed on both sides, and what
each kind of change does to it. -/

namespace OriginCache.Cache.Accounts
open Foundation.Tables Foundation.Splits SegName Coverage Store Ledger Evictions SegmentFiles
open Rows (Staged fileStart held held_iff)

/-! Files and their bytes. -/

theorem isSegment_iff (name : Text) : isSegment name = true ↔ (parseSegName name).isSome = true := by
  constructor
  · intro segment
    exact ((Bool.and_eq_true _ _).mp segment).2
  · intro read
    have marked : segPrefix.isPrefixOf name = true := by
      by_contra other
      have unread : parseSegName name = none := by
        rw [parseSegName, stripPrefix, if_neg other]
        rfl
      rw [unread] at read
      exact Bool.false_ne_true read
    obtain ⟨rest, rfl⟩ := List.isPrefixOf_iff_prefix.mp marked
    have whole : segpartPrefix.isPrefixOf (segPrefix ++ rest) = false := rfl
    rw [isSegment, whole, marked, read]
    rfl

theorem fileStart_segment (key name : Text) (own : (fileStart key name).isSome = true) : isSegment name = true := by
  apply (isSegment_iff name).mpr
  cases read : parseSegName name with
  | none =>
    rw [fileStart, read] at own
    exact own
  | some _ => rfl

theorem backed_iff (dir : Dir) (key : Text) (start stop : Nat) : backed dir key start stop = true ↔
    ∃ name bytes first, dir.lookup name = some bytes ∧ fileStart key name = some first ∧
      max start first < min stop (first + bytes.length) := by
  rw [backed, someEntry_iff]
  constructor
  · intro found
    obtain ⟨name, bytes, present, passes⟩ := found
    obtain ⟨first, begins, meets⟩ := Option.any_eq_true _ _ |>.mp passes
    exact ⟨name, bytes, first, present, begins, of_decide_eq_true meets⟩
  · intro found
    obtain ⟨name, bytes, first, present, begins, meets⟩ := found
    exact ⟨name, bytes, present, Option.any_eq_true _ _ |>.mpr ⟨first, begins, decide_eq_true meets⟩⟩

/-- To be backed is to have a byte that is held. -/
theorem backed_iff_held (dir : Dir) (key : Text) (start stop : Nat) : backed dir key start stop = true ↔
    ∃ position, start ≤ position ∧ position < stop ∧ held dir key position = true := by
  rw [backed_iff]
  constructor
  · intro found
    obtain ⟨name, bytes, first, present, begins, meets⟩ := found
    have inside : held dir key (max start first) = true :=
      (held_iff _ _ _).mpr ⟨name, bytes, first, present, begins, Nat.le_max_right _ _, by omega⟩
    exact ⟨max start first, Nat.le_max_left _ _, by omega, inside⟩
  · intro found
    obtain ⟨position, after, before, inside⟩ := found
    obtain ⟨name, bytes, first, present, begins, from_, within⟩ := (held_iff _ _ _).mp inside
    exact ⟨name, bytes, first, present, begins, by omega⟩

theorem backed_proper (dir : Dir) (key : Text) (start stop : Nat)
    (meets : backed dir key start stop = true) : start < stop := by
  obtain ⟨position, after, before, -⟩ := (backed_iff_held dir key start stop).mp meets
  omega

/-- Files that keep what they hold keep what they back. -/
theorem backed_kept (dir dir' : Dir) (key : Text) (start stop : Nat)
    (kept : ∀ name, (fileStart key name).isSome = true → 0 < fileLen dir name → dir'.lookup name = dir.lookup name)
    (meets : backed dir key start stop = true) : backed dir' key start stop = true := by
  obtain ⟨name, bytes, first, present, begins, inside⟩ := (backed_iff _ _ _ _).mp meets
  have full : 0 < fileLen dir name := by
    rw [fileLen, present]
    change 0 < bytes.length
    omega
  have own : (fileStart key name).isSome = true := by
    rw [begins]
    rfl
  exact (backed_iff _ _ _ _).mpr ⟨name, bytes, first, (kept name own full).trans present, begins, inside⟩

/-- A wider interval is backed as well. -/
theorem backed_wider (dir : Dir) (key : Text) (start stop left right : Nat) (before : left ≤ start) (after : stop ≤ right)
    (meets : backed dir key start stop = true) : backed dir key left right = true := by
  obtain ⟨position, from_, upto, inside⟩ := (backed_iff_held dir key start stop).mp meets
  exact (backed_iff_held dir key left right).mpr ⟨position, by omega, by omega, inside⟩

theorem segmentBytes_insert (dir : Dir) (name : Text) (data : Bytes) :
    segmentBytes (dir.insert name data) + (if isSegment name then fileLen dir name else 0) =
      segmentBytes dir + (if isSegment name then data.length else 0) := by
  have moved := weigh_replace (fun name bytes => if isSegment name then bytes.length else 0) dir name (some data)
  have old : weightAt (fun name (bytes : Bytes) => if isSegment name then bytes.length else 0) name (dir.lookup name) =
      if isSegment name then fileLen dir name else 0 := by
    unfold weightAt fileLen
    cases dir.lookup name with
    | none => exact (ite_self 0).symm
    | some bytes => rfl
  rw [old] at moved
  exact moved

/-- The segment files are the same. -/
def Alike (dir dir' : Dir) : Prop :=
  segmentBytes dir' = segmentBytes dir ∧ ∀ name, isSegment name = true → dir'.lookup name = dir.lookup name

theorem alike_refl (dir : Dir) : Alike dir dir := ⟨rfl, fun _ _ => rfl⟩

theorem alike_erase (dir : Dir) (name : Text) (other : isSegment name = false) : Alike dir (dir.erase name) := by
  constructor
  · have split_ := segmentBytes_erase dir name
    rw [other, if_neg Bool.false_ne_true, Nat.zero_add] at split_
    exact split_.symm
  · intro segment marked
    apply AList.lookup_erase_ne
    rintro rfl
    exact Bool.false_ne_true (other.symm.trans marked)

theorem alike_insert (dir : Dir) (name : Text) (data : Bytes) (other : isSegment name = false) :
    Alike dir (dir.insert name data) := by
  constructor
  · have moved := segmentBytes_insert dir name data
    rw [other, if_neg Bool.false_ne_true, if_neg Bool.false_ne_true] at moved
    exact moved
  · intro segment marked
    apply AList.lookup_insert_ne
    rintro rfl
    exact Bool.false_ne_true (other.symm.trans marked)

theorem alike_removeMeasured (dir : Dir) (names : List Text) (others : ∀ name ∈ names, isSegment name = false) :
    Alike dir (removeMeasured dir names).1 := by
  induction names generalizing dir with
  | nil => exact alike_refl dir
  | cons name names ih =>
    have first := alike_erase dir name (others name List.mem_cons_self)
    have later := ih (dir.erase name) fun other member => others other (List.mem_cons_of_mem _ member)
    exact ⟨later.1.trans first.1, fun segment marked => (later.2 segment marked).trans (first.2 segment marked)⟩

theorem alike_sweepOrphans (dir : Dir) : Alike dir (sweepOrphans dir) := by
  apply alike_removeMeasured
  intro name member
  have orphan : isOrphan name = true := (List.mem_filter.mp member).2
  apply Bool.eq_false_iff.mpr
  intro segment
  simp only [isSegment, isOrphan, Bool.and_eq_true, Bool.or_eq_true, Bool.not_eq_true', Option.isNone_iff_eq_none] at segment orphan
  grind

/-! The balance while tasks are under way. -/

/-- The file is of a key with a row. -/
def Filed (ledger : Inner) (name : Text) : Prop := ∃ key ∈ ledger.map, (fileStart key name).isSome = true

structure Balanced (s : Staged) (owed freed : Nat) (claimed mended : Text → Bool) : Prop where
  account : s.ledger.totalStaged + owed = segmentBytes s.dir + freed
  rows : ∀ name, isSegment name = true → 0 < fileLen s.dir name → Filed s.ledger name ∨ claimed name = true
  intervals : ∀ key row, s.ledger.map.lookup key = some row → ∀ i ∈ row.intervals,
    i.start < i.stop ∧ (backed s.dir key i.start i.stop = true ∨ mended key = true)

/-- Rows keep their intervals or lose some, and none goes. -/
structure Fewer (before after : Inner) : Prop where
  total : after.totalStaged = before.totalStaged
  keys : ∀ key ∈ before.map, key ∈ after.map
  intervals : ∀ key row, after.map.lookup key = some row → ∀ i ∈ row.intervals, ∃ old, before.map.lookup key = some old ∧
    ∃ j ∈ old.intervals, j.start = i.start ∧ j.stop = i.stop

section Balance
variable {s : Staged} {owed freed : Nat} {claimed mended claimed' mended' : Text → Bool}

theorem fileLen_alike {dir dir' : Dir} (same : Alike dir dir') (name : Text) (segment : isSegment name = true) :
    fileLen dir' name = fileLen dir name := by
  rw [fileLen, same.2 name segment, fileLen]

/-- Nothing happens to the segment files or to the ledger. -/
theorem Balanced.alike (balanced : Balanced s owed freed claimed mended) (dir : Dir) (same : Alike s.dir dir)
    (claims : ∀ name, claimed name = true → claimed' name = true ∨ fileLen s.dir name = 0)
    (mends : ∀ key, mended key = true → mended' key = true) :
    Balanced { s with dir := dir } owed freed claimed' mended' := by
  refine ⟨?_, ?_, ?_⟩
  · rw [same.1]
    exact balanced.account
  · intro name segment full
    rw [fileLen_alike same name segment] at full
    cases balanced.rows name segment full with
    | inl filed => exact .inl filed
    | inr still =>
      cases claims name still with
      | inl later => exact .inr later
      | inr empty => exact absurd empty (Nat.ne_of_gt full)
  · intro key row found i member
    have before := balanced.intervals key row found i member
    refine ⟨before.1, before.2.imp ?_ (mends key)⟩
    exact backed_kept s.dir dir key i.start i.stop fun name own _ => same.2 name (fileStart_segment key name own)

/-- A file comes into place. -/
theorem Balanced.landed (balanced : Balanced s owed freed claimed mended) (name : Text) (data : Bytes)
    (segment : isSegment name = true) (empty : fileLen s.dir name = 0)
    (claims : ∀ other, claimed other = true → claimed' other = true)
    (mends : ∀ key, mended key = true → mended' key = true) (claims_ : claimed' name = true) :
    Balanced { s with dir := s.dir.insert name data } (data.length + owed) freed claimed' mended' := by
  have others : ∀ other, other ≠ name → (s.dir.insert name data).lookup other = s.dir.lookup other :=
    fun other differs => AList.lookup_insert_ne differs
  refine ⟨?_, ?_, ?_⟩
  · have moved := segmentBytes_insert s.dir name data
    rw [segment, if_pos rfl, if_pos rfl, empty] at moved
    have before := balanced.account
    change s.ledger.totalStaged + (data.length + owed) = segmentBytes (s.dir.insert name data) + freed
    omega
  · intro other marked full
    by_cases same : other = name
    · exact .inr (same ▸ claims_)
    · change 0 < fileLen (s.dir.insert name data) other at full
      rw [fileLen, others other same] at full
      exact (balanced.rows other marked full).imp_right (claims other)
  · intro key row found i member
    have before := balanced.intervals key row found i member
    refine ⟨before.1, before.2.imp ?_ (mends key)⟩
    apply backed_kept
    intro other own full
    apply others
    rintro rfl
    exact absurd empty (Nat.ne_of_gt full)

/-- A file leaves; what it backed is mended, or it held nothing. -/
theorem Balanced.removed (balanced : Balanced s owed freed claimed mended) (name : Text) (segment : isSegment name = true)
    (claims : ∀ other, claimed other = true → claimed' other = true) (mends : ∀ key, mended key = true → mended' key = true)
    (foreign : 0 < fileLen s.dir name → ∀ key ∈ s.ledger.map, (fileStart key name).isSome = true → mended' key = true) :
    Balanced { s with dir := s.dir.erase name } owed (fileLen s.dir name + freed) claimed' mended' := by
  have others : ∀ other, other ≠ name → (s.dir.erase name).lookup other = s.dir.lookup other :=
    fun other differs => AList.lookup_erase_ne differs
  refine ⟨?_, ?_, ?_⟩
  · have split_ := segmentBytes_erase s.dir name
    rw [segment, if_pos rfl] at split_
    have before := balanced.account
    change s.ledger.totalStaged + owed = segmentBytes (s.dir.erase name) + _
    omega
  · intro other marked full
    change 0 < fileLen (s.dir.erase name) other at full
    by_cases same : other = name
    · rw [same, fileLen, AList.lookup_erase] at full
      exact absurd full (Nat.lt_irrefl 0)
    · rw [fileLen, others other same] at full
      exact (balanced.rows other marked full).imp_right (claims other)
  · intro key row found i member
    have before := balanced.intervals key row found i member
    refine ⟨before.1, ?_⟩
    by_cases own : 0 < fileLen s.dir name ∧ (fileStart key name).isSome = true
    · exact .inr (foreign own.1 key (lookup_mem _ _ _ found) own.2)
    · apply before.2.imp _ (mends key)
      apply backed_kept
      intro other mine full
      apply others
      rintro rfl
      exact own ⟨full, mine⟩

/-- A row goes, and the account gives up what its files measured. -/
theorem Balanced.forgot (balanced : Balanced s owed (len + freed) claimed mended) (key : Text)
    (covers : len ≤ s.ledger.totalStaged)
    (left : ∀ name, isSegment name = true → 0 < fileLen s.dir name → (fileStart key name).isSome = true → claimed' name = true)
    (claims : ∀ name, claimed name = true → claimed' name = true)
    (mends : ∀ other, other ≠ key → mended other = true → mended' other = true) :
    Balanced { s with ledger := Ledger.forget s.ledger key len } owed freed claimed' mended' := by
  refine ⟨?_, ?_, ?_⟩
  · have before := balanced.account
    change s.ledger.totalStaged - len + owed = segmentBytes s.dir + freed
    omega
  · intro name segment full
    cases balanced.rows name segment full with
    | inr still => exact .inr (claims name still)
    | inl filed =>
      obtain ⟨other, member, own⟩ := filed
      by_cases same : other = key
      · exact .inr (left name segment full (same ▸ own))
      · exact .inl ⟨other, AList.mem_erase.mpr ⟨same, member⟩, own⟩
  · intro other row found i member
    obtain ⟨differs, present⟩ := lookup_erase_some _ _ _ _ found
    have before := balanced.intervals other row present i member
    exact ⟨before.1, before.2.imp_right (mends other differs)⟩

/-- A row is rebuilt from files that back what they are named for. -/
theorem Balanced.readopted (balanced : Balanced s owed (len + freed) claimed mended) (key : Text)
    (survivors : List (Nat × Nat))
    (now : Nat) (covers : len ≤ s.ledger.totalStaged)
    (stays : key ∈ s.ledger.map → ∀ file ∈ survivors, backed s.dir key file.1 file.2 = true)
    (claims : ∀ name, claimed name = true → claimed' name = true)
    (mends : ∀ other, other ≠ key → mended other = true → mended' other = true) :
    Balanced { s with ledger := reAdopt s.ledger key len survivors now } owed freed claimed' mended' := by
  have total : (reAdopt s.ledger key len survivors now).totalStaged = s.ledger.totalStaged - len := by
    unfold reAdopt
    cases s.ledger.map.lookup key <;> rfl
  refine ⟨?_, ?_, ?_⟩
  · have before := balanced.account
    change (reAdopt s.ledger key len survivors now).totalStaged + owed = segmentBytes s.dir + freed
    omega
  · intro name segment full
    cases balanced.rows name segment full with
    | inr still => exact .inr (claims name still)
    | inl filed =>
      obtain ⟨other, member, own⟩ := filed
      refine .inl ⟨other, ?_, own⟩
      rw [← AList.lookup_isSome] at member ⊢
      change ((reAdopt s.ledger key len survivors now).map.lookup other).isSome = true
      rw [lookup_reAdopt]
      split_ifs with same
      · rw [Option.isSome_map, ← same]
        exact member
      · exact member
  · intro other row found i member
    change (reAdopt s.ledger key len survivors now).map.lookup other = some row at found
    rw [lookup_reAdopt] at found
    by_cases same : other = key
    · rw [if_pos same] at found
      obtain ⟨old, present, rfl⟩ := Option.map_eq_some_iff.mp found
      have stand := stays (lookup_mem _ _ _ present)
      obtain ⟨proper, file, listed, left, right⟩ := adoptFiles_spec old.intervals survivors now
        (fun file listed => backed_proper s.dir key file.1 file.2 (stand file listed)) i member
      exact ⟨proper, .inl (same ▸ backed_wider s.dir key file.1 file.2 i.start i.stop left right (stand file listed))⟩
    · rw [if_neg same] at found
      have before := balanced.intervals other row found i member
      exact ⟨before.1, before.2.imp_right (mends other same)⟩

/-- A row takes in one more span that is backed, and the account its bytes. -/
theorem Balanced.recorded (balanced : Balanced s (len + owed) freed claimed mended) (key : Text) (row : Row)
    (start reached now : Nat)
    (inside : row.intervals ⊆ addInterval (rowOf s.ledger key).intervals start reached now)
    (room : s.ledger.totalStaged + len < 2 ^ 64) (meets : backed s.dir key start reached = true)
    (claims : ∀ name, claimed name = true → claimed' name = true ∨ (fileStart key name).isSome = true)
    (mends : ∀ other, mended other = true → mended' other = true) :
    Balanced { s with ledger := ⟨s.ledger.map.insert key row, saturatingAdd s.ledger.totalStaged len⟩ } owed freed claimed' mended' := by
  refine ⟨?_, ?_, ?_⟩
  · have before := balanced.account
    change min (2 ^ 64 - 1) (s.ledger.totalStaged + len) + owed = segmentBytes s.dir + freed
    omega
  · intro name segment full
    cases balanced.rows name segment full with
    | inl filed =>
      obtain ⟨other, member, own⟩ := filed
      exact .inl ⟨other, (AList.mem_insert _).mpr (.inr member), own⟩
    | inr still =>
      cases claims name still with
      | inl later => exact .inr later
      | inr own => exact .inl ⟨key, (AList.mem_insert _).mpr (.inl rfl), own⟩
  · intro other new found i member
    cases lookup_insert_some _ _ _ _ _ found with
    | inr kept =>
      have before := balanced.intervals other new kept.2 i member
      exact ⟨before.1, before.2.imp_right (mends other)⟩
    | inl here =>
      obtain ⟨rfl, rfl⟩ := here
      have old : ∀ j ∈ (rowOf s.ledger other).intervals,
          j.start < j.stop ∧ (backed s.dir other j.start j.stop = true ∨ mended other = true) := by
        intro j listed
        cases present : s.ledger.map.lookup other with
        | none =>
          rw [rowOf, present] at listed
          exact absurd listed List.not_mem_nil
        | some own =>
          rw [rowOf, present] at listed
          exact balanced.intervals other own present j listed
      have widens := (addInterval_spec (rowOf s.ledger other).intervals start reached now (fun j listed => (old j listed).1)
        (backed_proper s.dir other start reached meets)).1
      obtain ⟨proper, part, from_, left, right⟩ := widens i (inside member)
      refine ⟨proper, ?_⟩
      cases List.mem_cons.mp from_ with
      | inl new =>
        subst new
        exact .inl (backed_wider s.dir other start reached i.start i.stop left right meets)
      | inr earlier =>
        exact (old part earlier).2.imp (backed_wider s.dir other part.start part.stop i.start i.stop left right) (mends other)

theorem Balanced.rewritten (balanced : Balanced s owed freed claimed mended) (ledger : Inner)
    (fewer : Fewer s.ledger ledger) :
    Balanced { s with ledger := ledger } owed freed claimed mended := by
  refine ⟨?_, ?_, ?_⟩
  · change ledger.totalStaged + owed = segmentBytes s.dir + freed
    rw [fewer.total]
    exact balanced.account
  · intro name segment full
    apply (balanced.rows name segment full).imp_left
    rintro ⟨key, member, own⟩
    exact ⟨key, fewer.keys key member, own⟩
  · intro key row found i member
    obtain ⟨old, present, j, listed, starts, stops⟩ := fewer.intervals key row found i member
    rw [← starts, ← stops]
    exact balanced.intervals key old present j listed

end Balance

/-! The startup rebuild. -/

section Rebuild
variable (decodeMeta : Bytes → Option SegMeta) (dir : Dir)

/-- What the scan says of a segment file. -/
theorem scanned_file (name : Text) (segment : isSegment name = true) : ∃ file,
    describe decodeMeta (sweepOrphans dir) name = some file ∧ file.len = fileLen dir name ∧ fileStart file.key name = some file.start := by
  obtain ⟨read, parsed⟩ := Option.isSome_iff_exists.mp ((isSegment_iff name).mp segment)
  have kept := (alike_sweepOrphans dir).2 name segment
  refine ⟨_, by rw [describe, parsed]; rfl, ?_, ?_⟩
  · rw [fileLen, fileLen, kept]
  · rw [fileStart, parsed]
    exact if_pos (.inl rfl)

theorem sum_scanned (entries : List (Sigma fun _ : Text => Bytes)) (describe : Text → Option SegmentFile)
    (sized : ∀ entry ∈ entries, isSegment entry.1 = true → ∃ file, describe entry.1 = some file ∧ file.len = entry.2.length) :
    ((((entries.map Sigma.fst).filter isSegment).filterMap describe).map SegmentFile.len).sum =
      (entries.map fun entry => if isSegment entry.1 then entry.2.length else 0).sum := by
  induction entries with
  | nil => rfl
  | cons entry entries ih =>
    have rest := ih fun other member => sized other (List.mem_cons_of_mem _ member)
    rw [List.map_cons, List.map_cons, List.sum_cons, List.filter_cons]
    by_cases segment : isSegment entry.1 = true
    · obtain ⟨file, found, size⟩ := sized entry List.mem_cons_self segment
      rw [if_pos segment, if_pos segment, List.filterMap_cons_some found, List.map_cons, List.sum_cons, rest, size]
    · rw [if_neg segment, if_neg segment, Nat.zero_add]
      exact rest

/-- The scan weighs the segment files. -/
theorem scanned_bytes : ((scanSegmentFiles decodeMeta dir).1.map SegmentFile.len).sum = segmentBytes dir := by
  apply sum_scanned
  intro entry member segment
  obtain ⟨file, found, size, -⟩ := scanned_file decodeMeta dir entry.1 segment
  refine ⟨file, found, ?_⟩
  rw [size, fileLen, AList.mem_lookup_iff.mpr member]
  rfl

theorem adoptScanned_total (files : List SegmentFile) (now : Nat) (inner : Inner)
    (room : inner.totalStaged + (files.map SegmentFile.len).sum < 2 ^ 64) :
    (files.foldl (adoptScanned now) inner).totalStaged = inner.totalStaged + (files.map SegmentFile.len).sum := by
  induction files generalizing inner with
  | nil => rfl
  | cons file files ih =>
    rw [List.map_cons, List.sum_cons] at room ⊢
    have total : (adoptScanned now inner file).totalStaged = inner.totalStaged + file.len := by
      change min (2 ^ 64 - 1) (inner.totalStaged + file.len) = _
      omega
    rw [List.foldl_cons, ih _ (by omega), total, Nat.add_assoc]

/-- Every interval is backed. -/
def Backs (inner : Inner) : Prop :=
  ∀ key row, inner.map.lookup key = some row → ∀ i ∈ row.intervals, backed dir key i.start i.stop = true

theorem backs_adoptScanned (now : Nat) (inner : Inner) (file : SegmentFile) (backs : Backs dir inner)
    (meets : file.start < min file.stop (saturatingAdd file.start file.len) →
      backed dir file.key file.start (min file.stop (saturatingAdd file.start file.len)) = true) :
    Backs dir (adoptScanned now inner file) := by
  intro key row found i member
  cases lookup_insert_some _ _ _ _ _ found with
  | inr kept => exact backs key row kept.2 i member
  | inl here =>
    obtain ⟨rfl, rfl⟩ := here
    have old : ∀ j ∈ (rowOf inner file.key).intervals, backed dir file.key j.start j.stop = true := by
      intro j listed
      cases present : inner.map.lookup file.key with
      | none =>
        rw [rowOf, present] at listed
        exact absurd listed List.not_mem_nil
      | some own =>
        rw [rowOf, present] at listed
        exact backs file.key own present j listed
    change i ∈ addInterval (rowOf inner file.key).intervals file.start (min file.stop (saturatingAdd file.start file.len)) now at member
    by_cases span : file.start < min file.stop (saturatingAdd file.start file.len)
    · have widens := (addInterval_spec (rowOf inner file.key).intervals file.start _ now
        (fun j listed => backed_proper dir file.key j.start j.stop (old j listed)) span).1
      obtain ⟨-, part, from_, left, right⟩ := widens i member
      cases List.mem_cons.mp from_ with
      | inl new =>
        subst new
        exact backed_wider dir file.key _ _ i.start i.stop left right (meets span)
      | inr earlier => exact backed_wider dir file.key part.start part.stop i.start i.stop left right (old part earlier)
    · rw [addInterval, if_pos (Nat.not_lt.mp span)] at member
      exact old i member

theorem backs_recordAll (files : List SegmentFile) (now : Nat) (inner : Inner) (backs : Backs dir inner)
    (meets : ∀ file ∈ files, file.start < min file.stop (saturatingAdd file.start file.len) →
      backed dir file.key file.start (min file.stop (saturatingAdd file.start file.len)) = true) :
    Backs dir (files.foldl (adoptScanned now) inner) := by
  induction files generalizing inner with
  | nil => exact backs
  | cons file files ih =>
    exact ih _ (backs_adoptScanned dir now inner file backs (meets file List.mem_cons_self))
      fun other member => meets other (List.mem_cons_of_mem _ member)

/-- The rebuild agrees with the disk it was read from. -/
theorem balanced_rebuilt (now : Nat) (room : segmentBytes dir < 2 ^ 64) (claimed mended : Text → Bool) :
    Balanced ⟨dir, recordAll (scanSegmentFiles decodeMeta dir).1 now⟩ 0 0 claimed mended := by
  refine ⟨?_, ?_, ?_⟩
  · have whole := scanned_bytes decodeMeta dir
    have total := adoptScanned_total (scanSegmentFiles decodeMeta dir).1 now Inner.new (by
      rw [whole]
      change 0 + segmentBytes dir < 2 ^ 64
      omega)
    rw [whole] at total
    exact total.trans (Nat.zero_add _)
  · intro name segment full
    obtain ⟨file, found, -, begins⟩ := scanned_file decodeMeta dir name segment
    have present : name ∈ dir := by
      cases there : dir.lookup name with
      | none =>
        change 0 < fileLen dir name at full
        rw [fileLen, there] at full
        exact absurd full (Nat.lt_irrefl 0)
      | some bytes => exact lookup_mem _ _ _ there
    have listed := (mem_scanSegmentFiles decodeMeta dir file).mpr ⟨name, present, segment, found⟩
    refine .inl ⟨file.key, (mem_recordAll _ now file.key).mpr ⟨file, listed, rfl⟩, ?_⟩
    rw [begins]
    rfl
  · have backs : Backs dir (recordAll (scanSegmentFiles decodeMeta dir).1 now) := by
      apply backs_recordAll
      · intro key row found
        cases found
      · intro file listed span
        obtain ⟨name, present, segment, described⟩ := (mem_scanSegmentFiles decodeMeta dir file).mp listed
        obtain ⟨same, found, size, begins⟩ := scanned_file decodeMeta dir name segment
        cases described.symm.trans found
        obtain ⟨bytes, there⟩ := Option.isSome_iff_exists.mp (AList.lookup_isSome.mpr present)
        rw [fileLen, there] at size
        change file.len = bytes.length at size
        have most : saturatingAdd file.start file.len ≤ file.start + file.len := Nat.min_le_right _ _
        exact (backed_iff _ _ _ _).mpr ⟨name, bytes, file.start, there, begins, by omega⟩
    intro key row found i member
    have meets := backs key row found i member
    exact ⟨backed_proper dir key i.start i.stop meets, .inl meets⟩

end Rebuild

end OriginCache.Cache.Accounts
