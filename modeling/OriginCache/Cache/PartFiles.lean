import OriginCache.Cache.Transfers

/-! One writer for each part file. While no transfer starts on the range of an
unfinished one, every transfer has an inode of its own, found under its part name
or, once a watcher took it, under the name of its segment. -/

namespace OriginCache.Cache.PartFiles
open Foundation.Files Foundation.Tables SegName Store Transfers

/-- No unfinished transfer has the range that a new one starts on. -/
def loneStart (writers : Writers) : Label → Bool
  | .start _ _ _ span => every writers fun _ t => t.span ≠ span
  | _ => true

section
variable (key : Text)

def Named (path : Text) : Prop :=
  ∃ start stop, start ≤ stop ∧ stop < 2 ^ 64 ∧
    (path = segPath key start stop ∨ path = segpartPath key start stop)

/-- What a transfer's counters may be. -/
structure Sized (t : Transfer) : Prop where
  unmade : t.made = none → t.written = 0
  made : t.phase ≠ .pumping → t.made ≠ none
  capped : t.kind = .run → t.written ≤ t.span.len
  whole : t.kind = .run → t.phase ≠ .pumping → t.written = t.span.len
  offset : t.span.start + t.written < 2 ^ 64

/-- The inode a transfer writes holds what it has written and is nobody else's. -/
structure Holds (disk : Disk Text UInt8) (t : Transfer) (inode : Nat) : Prop where
  length : (disk.contents inode).length = t.written
  below : inode < disk.next
  names : ∀ path, disk.nodes.lookup path = some inode →
    path = partOf key t.span ∨ path = segPath key t.span.start t.span.stop
  part : ∀ other, disk.nodes.lookup (partOf key t.span) = some other → other = inode

structure Owned (disk : Disk Text UInt8) (writers : Writers) : Prop where
  tidy : disk.Tidy
  named : ∀ path inode, disk.nodes.lookup path = some inode → Named key path
  sized : ∀ id t, writers.lookup id = some t → Sized t
  holds : ∀ id t inode, writers.lookup id = some t → t.made = some inode → Holds key disk t inode
  alone : ∀ id other t u, writers.lookup id = some t → writers.lookup other = some u →
    t.span = u.span → id = other
  separate : ∀ id other t u inode, writers.lookup id = some t → writers.lookup other = some u →
    t.made = some inode → u.made = some inode → id = other

variable {key}

theorem partOf_injective {span other : Span} (same : partOf key span = partOf key other) : span = other := by
  obtain ⟨start, stop, _, _⟩ := span
  obtain ⟨first, last, _, _⟩ := other
  obtain ⟨_, rfl, rfl⟩ := segpartPath_injective key key start stop first last same
  rfl

theorem partOf_ne_segPath (span : Span) (start stop : Nat) : partOf key span ≠ segPath key start stop :=
  segpartPath_ne_segPath key key _ _ _ _

theorem named_partOf (span : Span) : Named key (partOf key span) :=
  ⟨span.start, span.stop, Nat.le_of_lt span.proper, span.bound, .inr rfl⟩

theorem sealStop_bounds (t : Transfer) (sized : Sized t) :
    t.span.start ≤ t.sealStop ∧ t.sealStop < 2 ^ 64 := by
  have proper := t.span.proper
  have bound := t.span.bound
  have offset := sized.offset
  unfold Transfer.sealStop
  split <;> omega

/-- A change elsewhere leaves a transfer's inode to it. -/
theorem Holds.frame {disk after : Disk Text UInt8} {t : Transfer} {inode : Nat} (holds : Holds key disk t inode)
    (contents : after.contents inode = disk.contents inode) (next : disk.next ≤ after.next)
    (names : ∀ path, after.nodes.lookup path = some inode →
      path = segPath key t.span.start t.span.stop ∨ disk.nodes.lookup path = some inode)
    (part : ∀ other, after.nodes.lookup (partOf key t.span) = some other →
      disk.nodes.lookup (partOf key t.span) = some other) : Holds key after t inode := by
  refine ⟨?_, Nat.lt_of_lt_of_le holds.below next, fun path named => ?_, fun other named => ?_⟩
  · rw [contents]
    exact holds.length
  · cases names path named with
    | inl sealed => exact .inr sealed
    | inr before => exact holds.names path before
  · exact holds.part other (part other named)

theorem Holds.unlink {disk : Disk Text UInt8} {t : Transfer} {inode : Nat} (holds : Holds key disk t inode)
    (path : Text) : Holds key (disk.unlink path) t inode :=
  holds.frame rfl (Nat.le_refl _)
    (fun other named => .inr (lookup_erase_some disk.nodes path other inode named).2)
    (fun other named => (lookup_erase_some disk.nodes path _ other named).2)

/-- A create on another range opens another inode. -/
theorem Holds.nodeFor_ne {disk : Disk Text UInt8} {t : Transfer} {inode : Nat}
    (holds : Holds key disk t inode) (span : Span) (differs : t.span ≠ span) :
    disk.nodeFor (partOf key span) ≠ inode := by
  intro same
  unfold Disk.nodeFor at same
  cases present : disk.nodes.lookup (partOf key span) with
  | some other =>
    rw [present, Option.getD_some] at same
    rw [same] at present
    cases holds.names _ present with
    | inl part => exact differs (partOf_injective part).symm
    | inr sealed => exact partOf_ne_segPath _ _ _ sealed
  | none =>
    rw [present, Option.getD_none] at same
    have below := holds.below
    omega

theorem owned_started {disk : Disk Text UInt8} {writers : Writers} (owned : Owned key disk writers)
    (id : Nat) (kind : Kind) (etag : Option Text) (span : Span)
    (lone : ∀ other t, writers.lookup other = some t → t.span ≠ span) :
    Owned key disk (writers.insert id ⟨kind, etag, span, none, 0, .pumping⟩) := by
  have bound := span.bound
  have proper := span.proper
  refine ⟨owned.tidy, owned.named, fun other t found => ?_, fun other t inode found made => ?_,
    fun first second t u found also same => ?_, fun first second t u inode found also made too => ?_⟩
  · cases lookup_insert_some writers id other _ t found with
    | inl new =>
      rw [new.2]
      exact ⟨fun _ => rfl, fun pumps => absurd rfl pumps, fun _ => Nat.zero_le _,
        fun _ pumps => absurd rfl pumps, by simp only; omega⟩
    | inr old => exact owned.sized other t old.2
  · cases lookup_insert_some writers id other _ t found with
    | inl new =>
      rw [new.2] at made
      cases made
    | inr old => exact owned.holds other t inode old.2 made
  · cases lookup_insert_some writers id first _ t found with
    | inl new =>
      cases lookup_insert_some writers id second _ u also with
      | inl too => exact new.1.trans too.1.symm
      | inr old =>
        rw [new.2] at same
        exact absurd same.symm (lone second u old.2)
    | inr old =>
      cases lookup_insert_some writers id second _ u also with
      | inl new =>
        rw [new.2] at same
        exact absurd same (lone first t old.2)
      | inr too => exact owned.alone first second t u old.2 too.2 same
  · cases lookup_insert_some writers id first _ t found with
    | inl new =>
      rw [new.2] at made
      cases made
    | inr old =>
      cases lookup_insert_some writers id second _ u also with
      | inl new =>
        rw [new.2] at too
        cases too
      | inr both => exact owned.separate first second t u inode old.2 both.2 made too

/-- A transfer that goes on keeps its range and either its inode or a fresh one. -/
theorem owned_update {disk after : Disk Text UInt8} {writers : Writers} (owned : Owned key disk writers)
    (id : Nat) (t next : Transfer) (found : writers.lookup id = some t) (span : next.span = t.span)
    (tidy : after.Tidy) (named : ∀ path inode, after.nodes.lookup path = some inode → Named key path)
    (sized : Sized next)
    (own : ∀ inode, next.made = some inode → Holds key after next inode)
    (others : ∀ other u inode, other ≠ id → writers.lookup other = some u → u.made = some inode →
      Holds key after u inode ∧ next.made ≠ some inode) :
    Owned key after (writers.insert id next) := by
  refine ⟨tidy, named, fun other u present => ?_, fun other u inode present made => ?_,
    fun first second u v present also same => ?_, fun first second u v inode present also made too => ?_⟩
  · cases lookup_insert_some writers id other next u present with
    | inl new => exact new.2 ▸ sized
    | inr old => exact owned.sized other u old.2
  · cases lookup_insert_some writers id other next u present with
    | inl new =>
      rw [new.2] at made ⊢
      exact own inode made
    | inr old => exact (others other u inode old.1 old.2 made).1
  · cases lookup_insert_some writers id first next u present with
    | inl new =>
      cases lookup_insert_some writers id second next v also with
      | inl too => exact new.1.trans too.1.symm
      | inr old =>
        rw [new.2, span] at same
        exact new.1.trans (owned.alone id second t v found old.2 same)
    | inr old =>
      cases lookup_insert_some writers id second next v also with
      | inl new =>
        rw [new.2, span] at same
        exact (owned.alone first id u t old.2 found same).trans new.1.symm
      | inr too => exact owned.alone first second u v old.2 too.2 same
  · cases lookup_insert_some writers id first next u present with
    | inl new =>
      cases lookup_insert_some writers id second next v also with
      | inl both => exact new.1.trans both.1.symm
      | inr old =>
        rw [new.2] at made
        exact absurd made (others second v inode old.1 old.2 too).2
    | inr old =>
      cases lookup_insert_some writers id second next v also with
      | inl new =>
        rw [new.2] at too
        exact absurd too (others first u inode old.1 old.2 made).2
      | inr both => exact owned.separate first second u v inode old.2 both.2 made too

/-- Some transfers end, and the inodes of the others stay theirs. -/
theorem owned_shrink {disk after : Disk Text UInt8} {writers fewer : Writers} (owned : Owned key disk writers)
    (tidy : after.Tidy) (named : ∀ path inode, after.nodes.lookup path = some inode → Named key path)
    (kept : ∀ id t, fewer.lookup id = some t → writers.lookup id = some t)
    (holds : ∀ id t inode, fewer.lookup id = some t → t.made = some inode → Holds key after t inode) :
    Owned key after fewer :=
  ⟨tidy, named, fun id t found => owned.sized id t (kept id t found), holds,
    fun id other t u found also same => owned.alone id other t u (kept id t found) (kept other u also) same,
    fun id other t u inode found also made too =>
      owned.separate id other t u inode (kept id t found) (kept other u also) made too⟩

theorem named_unlink {disk : Disk Text UInt8} {writers : Writers} (owned : Owned key disk writers)
    (path other : Text) (inode : Nat) (found : (disk.unlink path).nodes.lookup other = some inode) :
    Named key other :=
  owned.named other inode (lookup_erase_some disk.nodes path other inode found).2

theorem owned_created {disk : Disk Text UInt8} {writers : Writers} (owned : Owned key disk writers)
    (id : Nat) (t : Transfer) (found : writers.lookup id = some t) (unmade : t.made = none)
    (pumps : t.phase = .pumping) :
    Owned key (disk.create (partOf key t.span))
      (writers.insert id { t with made := some (disk.nodeFor (partOf key t.span)) }) := by
  have sized := owned.sized id t found
  refine owned_update owned id t _ found rfl (owned.tidy.create _) (fun path inode present => ?_) ?_
    (fun inode made => ?_) (fun other u inode differs present made => ?_)
  · by_cases same : path = partOf key t.span
    · rw [same]
      exact named_partOf t.span
    · rw [lookup_create_ne disk same] at present
      exact owned.named path inode present
  · exact ⟨nofun, fun _ => nofun, sized.capped, fun run moves => absurd pumps moves, sized.offset⟩
  · cases made
    refine ⟨?_, nodeFor_lt disk _, fun path present => ?_, fun other present => ?_⟩
    · change (Function.update disk.contents _ [] _).length = t.written
      rw [Function.update_self, sized.unmade unmade, List.length_nil]
    · by_cases same : path = partOf key t.span
      · exact .inl same
      · rw [lookup_create_ne disk same] at present
        exact .inl (owned.tidy.nodeFor_eq _ path present)
    · rw [lookup_create] at present
      exact (Option.some.inj present).symm
  · have holds := owned.holds other u inode present made
    have spans : u.span ≠ t.span := fun same => differs (owned.alone other id u t present found same)
    have fresh := holds.nodeFor_ne t.span spans
    refine ⟨holds.frame ?_ (next_le_create disk _) (fun path named => ?_) (fun target named => ?_), ?_⟩
    · exact Function.update_of_ne fresh.symm _ _
    · by_cases same : path = partOf key t.span
      · rw [same, lookup_create] at named
        exact absurd (Option.some.inj named) fresh
      · rw [lookup_create_ne disk same] at named
        exact .inr named
    · rw [lookup_create_ne disk fun same => spans (partOf_injective same)] at named
      exact named
    · exact fun same => fresh (Option.some.inj same)

theorem owned_wrote {disk : Disk Text UInt8} {writers : Writers} (owned : Owned key disk writers)
    (id : Nat) (t : Transfer) (inode : Nat) (data : Bytes) (found : writers.lookup id = some t)
    (made : t.made = some inode) (pumps : t.phase = .pumping) (room : hasRoom t data = true) :
    Owned key (disk.write inode t.written data)
      (writers.insert id { t with written := t.written + data.length }) := by
  have sized := owned.sized id t found
  have holds := owned.holds id t inode found made
  have proper := t.span.proper
  have bound := t.span.bound
  have offset := sized.offset
  refine owned_update owned id t _ found rfl (owned.tidy.write _ _ _) owned.named ?_
    (fun other same => ?_) (fun other u target differs present wrote => ?_)
  · refine ⟨fun unmade => ?_, fun moves => absurd pumps moves, fun run => ?_, fun _ moves => absurd pumps moves, ?_⟩
    · rw [made] at unmade
      cases unmade
    · have capped := sized.capped run
      have fits := (hasRoom_run t data run).mp room
      simp only
      omega
    · cases kind : t.kind with
      | run =>
        have capped := sized.capped kind
        have fits := (hasRoom_run t data kind).mp room
        simp only [Span.len] at capped fits ⊢
        omega
      | escape =>
        have fits := (hasRoom_escape t data kind).mp room
        simp only
        omega
  · have it : other = inode := Option.some.inj (same.symm.trans made)
    rw [it]
    refine ⟨?_, holds.below, holds.names, holds.part⟩
    change (Function.update disk.contents inode _ inode).length = t.written + data.length
    rw [Function.update_self, ← holds.length, overlay_end, List.length_append]
  · have apart : target ≠ inode := by
      intro same
      exact differs (owned.separate other id u t inode present found (same ▸ wrote) made)
    refine ⟨(owned.holds other u target present wrote).frame ?_ (Nat.le_refl _) (fun _ named => .inr named)
      (fun _ named => named), ?_⟩
    · exact Function.update_of_ne apart _ _
    · change t.made ≠ some target
      rw [made]
      exact fun same => apart (Option.some.inj same).symm

theorem owned_moved {disk : Disk Text UInt8} {writers : Writers} (owned : Owned key disk writers)
    (id : Nat) (t : Transfer) (phase : Phase) (found : writers.lookup id = some t)
    (run : t.kind = .run → phase = .renaming ∧ t.made ≠ none ∧ t.span.len ≤ t.written)
    (escape : t.kind = .escape → 0 < t.written ∨ t.phase = .renaming) :
    Owned key disk (writers.insert id { t with phase := phase }) := by
  have sized := owned.sized id t found
  have made : t.made ≠ none := by
    cases kind : t.kind with
    | run => exact (run kind).2.1
    | escape =>
      cases escape kind with
      | inl some_ =>
        intro unmade
        have zero := sized.unmade unmade
        omega
      | inr renames => exact sized.made (by rw [renames]; decide)
  refine owned_update owned id t _ found rfl owned.tidy owned.named ?_ (fun inode same => ?_)
    (fun other u inode differs present wrote => ?_)
  · exact ⟨sized.unmade, fun _ => made, sized.capped,
      fun is_run _ => Nat.le_antisymm (sized.capped is_run) (run is_run).2.2, sized.offset⟩
  · have holds := owned.holds id t inode found same
    exact ⟨holds.length, holds.below, holds.names, holds.part⟩
  · exact ⟨owned.holds other u inode present wrote, fun same =>
      differs (owned.separate other id u t inode present found wrote same)⟩

/-- A rename of a part to a segment name, seen from the other transfers. -/
theorem Holds.renamed {disk moved : Disk Text UInt8} {t : Transfer} {inode : Nat} (span : Span)
    (start stop source : Nat) (holds : Holds key disk t inode)
    (renames : disk.rename (partOf key span) (segPath key start stop) = some moved)
    (from_ : disk.nodes.lookup (partOf key span) = some source)
    (apart : source = inode → segPath key start stop = segPath key t.span.start t.span.stop) :
    Holds key moved t inode := by
  have kept := rename_contents disk moved _ _ renames
  refine holds.frame (by rw [kept.1]) (Nat.le_of_eq kept.2.symm) (fun path named => ?_) (fun other named => ?_)
  · cases lookup_rename disk moved _ _ source from_ renames path inode named with
    | inl arrived => exact .inl (arrived.1.trans (apart arrived.2.symm))
    | inr stayed => exact .inr stayed.2.2
  · cases lookup_rename disk moved _ _ source from_ renames _ other named with
    | inl arrived => exact absurd arrived.1 (partOf_ne_segPath _ _ _)
    | inr stayed => exact stayed.2.2

theorem named_renamed {disk moved : Disk Text UInt8} {writers : Writers} (owned : Owned key disk writers)
    (span : Span) (start stop : Nat) (range : start ≤ stop) (bound : stop < 2 ^ 64)
    (renames : disk.rename (partOf key span) (segPath key start stop) = some moved) (path : Text) (inode : Nat)
    (named : moved.nodes.lookup path = some inode) : Named key path := by
  obtain ⟨source, from_, _⟩ := Option.map_eq_some_iff.mp renames
  cases lookup_rename disk moved _ _ source from_ renames path inode named with
  | inl arrived => exact ⟨start, stop, range, bound, .inl arrived.1⟩
  | inr stayed => exact owned.named path inode stayed.2.2

theorem owned_effect {watchers : Table Nat Watcher} {disk after : Disk Text UInt8}
    {writers writers' : Writers} {label : Label}
    (owned : Owned key disk writers) (lone : loneStart writers label = true)
    (effect : Effect key watchers label disk writers after writers') : Owned key after writers' := by
  cases effect with
  | started id kind etag span it _ =>
    rw [it] at lone
    simp only [loneStart, every_iff, ne_eq, decide_not, Bool.not_eq_true', decide_eq_false_iff_not] at lone
    exact owned_started owned id kind etag span lone
  | created id t found unmade pumps => exact owned_created owned id t found unmade pumps
  | wrote id t inode data _ found made pumps _ room => exact owned_wrote owned id t inode data found made pumps room
  | moved id t phase found _ _ run escape => exact owned_moved owned id t phase found run escape
  | ended id =>
    exact owned_shrink owned owned.tidy owned.named
      (fun other t found => (lookup_erase_some writers id other t found).2)
      (fun other t inode found => owned.holds other t inode (lookup_erase_some writers id other t found).2)
  | failed id path =>
    exact owned_shrink owned (owned.tidy.unlink path) (named_unlink owned path)
      (fun other t found => (lookup_erase_some writers id other t found).2)
      (fun other t inode found made =>
        (owned.holds other t inode (lookup_erase_some writers id other t found).2 made).unlink path)
  | removed path =>
    exact owned_shrink owned (owned.tidy.unlink path) (named_unlink owned path) (fun _ _ found => found)
      (fun other t inode found made => (owned.holds other t inode found made).unlink path)
  | sealed id _ t _ _ found renames moves =>
    have bounds := sealStop_bounds t (owned.sized id t found)
    obtain ⟨source, from_, _⟩ := Option.map_eq_some_iff.mp moves
    refine owned_shrink owned (owned.tidy.rename _ _ moves)
      (named_renamed owned t.span t.span.start t.sealStop bounds.1 bounds.2 moves)
      (fun other u present => (lookup_erase_some writers id other u present).2)
      (fun other u inode present made => ?_)
    obtain ⟨differs, present⟩ := lookup_erase_some writers id other u present
    refine (owned.holds other u inode present made).renamed t.span _ _ source moves from_ fun same => ?_
    obtain ⟨own, created⟩ := Option.ne_none_iff_exists'.mp
      ((owned.sized id t found).made (by rw [renames]; decide))
    have it := (owned.holds id t own found created).part source from_
    exact absurd (owned.separate other id u t inode present found made (by rw [created, ← it, same])) differs
  | seized _ _ w _ _ _ _ _ moves =>
    obtain ⟨source, from_, _⟩ := Option.map_eq_some_iff.mp moves
    refine owned_shrink owned (owned.tidy.rename _ _ moves)
      (named_renamed owned w.span w.span.start w.span.stop (Nat.le_of_lt w.span.proper) w.span.bound moves)
      (fun _ _ found => found) (fun other u inode present made => ?_)
    have holds := owned.holds other u inode present made
    refine holds.renamed w.span _ _ source moves from_ fun same => ?_
    cases holds.names _ (same ▸ from_) with
    | inl part => rw [partOf_injective part]
    | inr sealed => exact absurd sealed (partOf_ne_segPath _ _ _)
  | quiet => exact owned

theorem owned_empty : Owned key (Disk.empty : Disk Text UInt8) ∅ :=
  ⟨tidy_empty, fun _ _ found => absurd found (by simp [Disk.empty]), fun _ _ found => absurd found (by simp),
    fun _ _ _ found => absurd found (by simp), fun _ _ _ _ found => absurd found (by simp),
    fun _ _ _ _ _ found => absurd found (by simp)⟩

/-! The listing. -/

theorem lookup_dirOf (disk : Disk Text UInt8) (path : Text) : (dirOf disk).lookup path = disk.read path :=
  List.dlookup_map₂ (f := fun _ inode => disk.contents inode) path

theorem ownedBy_segpartPath (other : Text) (start stop : Nat) :
    ownedBy key (segpartPath other start stop) = false := by
  simp [ownedBy, segpartPath, segPrefix, segpartPrefix, List.isPrefixOf]

/-- A span is listed under its own name only. -/
theorem listed {disk : Disk Text UInt8} {writers : Writers} (owned : Owned key disk writers)
    (start stop : Nat) (name : Text) (member : (start, stop, name) ∈ segmentsForKey (dirOf disk) key) :
    name = segPath key start stop ∧ start ≤ stop ∧ ∃ inode, disk.nodes.lookup name = some inode := by
  obtain ⟨present, read, parsed⟩ := (mem_segmentsForKey _ key name start stop).mp member
  obtain ⟨there, mine⟩ := (mem_keySegmentFiles _ key name).mp present
  have found : ((dirOf disk).lookup name).isSome = true := AList.lookup_isSome.mpr there
  rw [lookup_dirOf, Disk.read, Option.isSome_map] at found
  obtain ⟨inode, lookup⟩ := Option.isSome_iff_exists.mp found
  obtain ⟨first, last, range, bound, shape⟩ := owned.named name inode lookup
  cases shape with
  | inl segment =>
    rw [segment, parseSegName_segPath key first last (by omega) bound] at parsed
    cases parsed
    exact ⟨segment, range, inode, lookup⟩
  | inr part =>
    rw [part, ownedBy_segpartPath] at mine
    cases mine

/-! What the files hold. -/

section Contents
variable {watchers : Table Nat Watcher} {disk after : Disk Text UInt8} {writers writers' : Writers}
  {label : Label}

/-- A name other than a created part keeps its inode's bytes. -/
theorem contents_create (owned : Owned key disk writers) (span : Span) (path : Text) (inode : Nat)
    (differs : path ≠ partOf key span) (named : (disk.create (partOf key span)).nodes.lookup path = some inode) :
    disk.nodes.lookup path = some inode ∧
      (disk.create (partOf key span)).contents inode = disk.contents inode := by
  rw [lookup_create_ne disk differs] at named
  refine ⟨named, Function.update_of_ne ?_ _ _⟩
  intro same
  exact differs (owned.tidy.nodeFor_eq _ path (same ▸ named))

/-- What holds of every segment goes on to hold when it holds of what is sealed and
survives what is written. -/
theorem segs_effect (holds : Nat → Nat → Bytes → Prop) (owned : Owned key disk writers)
    (effect : Effect key watchers label disk writers after writers')
    (segs : ∀ start stop inode, disk.nodes.lookup (segPath key start stop) = some inode →
      holds start stop (disk.contents inode))
    (sealed : ∀ id t inode, writers.lookup id = some t → t.phase = .renaming → t.made = some inode →
      holds t.span.start t.sealStop (disk.contents inode))
    (seized : ∀ id ok w size inode, label = .watch id (.rename ok) → watchers.lookup id = some w →
      w.phase = .sealing size → disk.nodes.lookup (partOf key w.span) = some inode →
      holds w.span.start w.span.stop (disk.contents inode))
    (wrote : ∀ id t inode data, label = .transfer id (.write data) → writers.lookup id = some t →
      t.made = some inode → data ≠ [] → hasRoom t data = true →
      holds t.span.start t.span.stop (disk.contents inode) →
      holds t.span.start t.span.stop (disk.contents inode ++ data)) :
    ∀ start stop inode, after.nodes.lookup (segPath key start stop) = some inode →
      holds start stop (after.contents inode) := by
  intro start stop inode named
  have unlinked : ∀ path, (disk.unlink path).nodes.lookup (segPath key start stop) = some inode →
      holds start stop (disk.contents inode) :=
    fun path found => segs start stop inode (lookup_erase_some disk.nodes path _ inode found).2
  cases effect with
  | started => exact segs start stop inode named
  | created id t =>
    have kept := contents_create owned t.span _ inode (partOf_ne_segPath _ _ _).symm named
    rw [kept.2]
    exact segs start stop inode kept.1
  | wrote id t own data it found made _ some_ room =>
    have bytes := segs start stop inode named
    change holds start stop (Function.update disk.contents own _ inode)
    by_cases same : inode = own
    · rw [same] at bytes named ⊢
      have mine := owned.holds id t own found made
      rw [Function.update_self, ← mine.length, overlay_end]
      cases mine.names _ named with
      | inl part => exact absurd part.symm (partOf_ne_segPath _ _ _)
      | inr sealed =>
        obtain ⟨_, first, last⟩ := segPath_injective key key _ _ _ _ sealed
        rw [first, last] at bytes ⊢
        exact wrote id t own data it found made some_ room bytes
    · rw [Function.update_of_ne same]
      exact bytes
  | moved => exact segs start stop inode named
  | ended => exact segs start stop inode named
  | failed id path => exact unlinked path named
  | removed path => exact unlinked path named
  | sealed id _ t _ _ found renames moves =>
    obtain ⟨source, from_, _⟩ := Option.map_eq_some_iff.mp moves
    rw [(rename_contents disk _ _ _ moves).1]
    cases lookup_rename disk _ _ _ source from_ moves _ inode named with
    | inl arrived =>
      obtain ⟨_, first, last⟩ := segPath_injective key key _ _ _ _ arrived.1
      obtain ⟨own, made⟩ := Option.ne_none_iff_exists'.mp
        ((owned.sized id t found).made (by rw [renames]; decide))
      have it := (owned.holds id t own found made).part source from_
      rw [first, last, arrived.2, it]
      exact sealed id t own found renames made
    | inr stayed => exact segs start stop inode stayed.2.2
  | seized id ok w size _ it watched seals moves =>
    obtain ⟨source, from_, _⟩ := Option.map_eq_some_iff.mp moves
    rw [(rename_contents disk _ _ _ moves).1]
    cases lookup_rename disk _ _ _ source from_ moves _ inode named with
    | inl arrived =>
      obtain ⟨_, first, last⟩ := segPath_injective key key _ _ _ _ arrived.1
      rw [first, last, arrived.2]
      exact seized id ok w size source it watched seals from_
    | inr stayed => exact segs start stop inode stayed.2.2
  | quiet => exact segs start stop inode named

/-- The part files, and the inodes of transfers, hold bytes that suit their start. -/
structure Filled (good : Nat → Bytes → Prop) (key : Text) (disk : Disk Text UInt8) (writers : Writers) :
    Prop where
  made : ∀ id t inode, writers.lookup id = some t → t.made = some inode →
    good t.span.start (disk.contents inode)
  parts : ∀ start stop inode, disk.nodes.lookup (segpartPath key start stop) = some inode →
    good start (disk.contents inode)

theorem Filled.shrink {good : Nat → Bytes → Prop} {fewer : Writers} (filled : Filled good key disk writers)
    (contents : after.contents = disk.contents)
    (kept : ∀ id t, fewer.lookup id = some t → writers.lookup id = some t)
    (parts : ∀ start stop inode, after.nodes.lookup (segpartPath key start stop) = some inode →
      disk.nodes.lookup (segpartPath key start stop) = some inode) : Filled good key after fewer := by
  refine ⟨fun id t inode found made => ?_, fun start stop inode named => ?_⟩
  · rw [contents]
    exact filled.made id t inode (kept id t found) made
  · rw [contents]
    exact filled.parts start stop inode (parts start stop inode named)

theorem parts_rename (old : Text) (start stop : Nat)
    (moves : disk.rename old (segPath key start stop) = some after) (first last inode : Nat)
    (named : after.nodes.lookup (segpartPath key first last) = some inode) :
    disk.nodes.lookup (segpartPath key first last) = some inode := by
  obtain ⟨source, from_, _⟩ := Option.map_eq_some_iff.mp moves
  cases lookup_rename disk after old _ source from_ moves _ inode named with
  | inl arrived => exact absurd arrived.1 (segpartPath_ne_segPath _ _ _ _ _ _)
  | inr stayed => exact stayed.2.2

theorem filled_created {good : Nat → Bytes → Prop} (owned : Owned key disk writers)
    (filled : Filled good key disk writers) (nothing : ∀ start, good start []) (id : Nat) (t : Transfer)
    (found : writers.lookup id = some t) :
    Filled good key (disk.create (partOf key t.span))
      (writers.insert id { t with made := some (disk.nodeFor (partOf key t.span)) }) := by
  have fresh : good t.span.start ((disk.create (partOf key t.span)).contents (disk.nodeFor (partOf key t.span))) := by
    change good t.span.start (Function.update disk.contents _ [] _)
    rw [Function.update_self]
    exact nothing _
  refine ⟨fun other u inode present made => ?_, fun start stop inode named => ?_⟩
  · cases lookup_insert_some writers id other _ u present with
    | inl new =>
      rw [new.2] at made ⊢
      cases made
      exact fresh
    | inr old =>
      have spans : u.span ≠ t.span := fun same => old.1 (owned.alone other id u t old.2 found same)
      have apart := (owned.holds other u inode old.2 made).nodeFor_ne t.span spans
      have kept : (disk.create (partOf key t.span)).contents inode = disk.contents inode :=
        Function.update_of_ne apart.symm _ _
      rw [kept]
      exact filled.made other u inode old.2 made
  · by_cases same : segpartPath key start stop = partOf key t.span
    · obtain ⟨_, first, _⟩ := segpartPath_injective key key _ _ _ _ same
      rw [same, lookup_create] at named
      cases named
      rw [first]
      exact fresh
    · have kept := contents_create owned t.span _ inode same named
      rw [kept.2]
      exact filled.parts start stop inode kept.1

theorem filled_wrote {good : Nat → Bytes → Prop} (owned : Owned key disk writers)
    (filled : Filled good key disk writers) (id : Nat) (t : Transfer) (inode : Nat) (data : Bytes)
    (found : writers.lookup id = some t) (made : t.made = some inode)
    (grows : good t.span.start (disk.contents inode) → good t.span.start (disk.contents inode ++ data)) :
    Filled good key (disk.write inode t.written data)
      (writers.insert id { t with written := t.written + data.length }) := by
  have mine := owned.holds id t inode found made
  have longer : good t.span.start ((disk.write inode t.written data).contents inode) := by
    change good t.span.start (Function.update disk.contents inode _ inode)
    rw [Function.update_self, ← mine.length, overlay_end]
    exact grows (filled.made id t inode found made)
  refine ⟨fun other u target present wrote => ?_, fun start stop target named => ?_⟩
  · cases lookup_insert_some writers id other _ u present with
    | inl new =>
      rw [new.2] at wrote ⊢
      have it : target = inode := Option.some.inj (wrote.symm.trans made)
      rw [it]
      exact longer
    | inr old =>
      have apart : target ≠ inode := by
        intro same
        exact old.1 (owned.separate other id u t inode old.2 found (same ▸ wrote) made)
      change good u.span.start (Function.update disk.contents inode _ target)
      rw [Function.update_of_ne apart]
      exact filled.made other u target old.2 wrote
  · by_cases same : target = inode
    · rw [same] at named ⊢
      cases mine.names _ named with
      | inl part =>
        obtain ⟨_, first, _⟩ := segpartPath_injective key key _ _ _ _ part
        rw [first]
        exact longer
      | inr sealed => exact absurd sealed (segpartPath_ne_segPath _ _ _ _ _ _)
    · change good start (Function.update disk.contents inode _ target)
      rw [Function.update_of_ne same]
      exact filled.parts start stop target named

/-- Bytes go on to suit their start when what is written does. -/
theorem filled_effect {good : Nat → Bytes → Prop} (owned : Owned key disk writers)
    (filled : Filled good key disk writers) (nothing : ∀ start, good start [])
    (effect : Effect key watchers label disk writers after writers')
    (grows : ∀ id t inode data, label = .transfer id (.write data) → writers.lookup id = some t →
      t.made = some inode → good t.span.start (disk.contents inode) →
      good t.span.start (disk.contents inode ++ data)) : Filled good key after writers' := by
  cases effect with
  | started id kind etag span =>
    refine ⟨fun other t inode found made => ?_, filled.parts⟩
    cases lookup_insert_some writers id other _ t found with
    | inl new =>
      rw [new.2] at made
      cases made
    | inr old => exact filled.made other t inode old.2 made
  | created id t found => exact filled_created owned filled nothing id t found
  | wrote id t inode data it found made =>
    exact filled_wrote owned filled id t inode data found made (grows id t inode data it found made)
  | moved id t phase found =>
    refine ⟨fun other u inode present made => ?_, filled.parts⟩
    cases lookup_insert_some writers id other _ u present with
    | inl new =>
      rw [new.2] at made ⊢
      exact filled.made id t inode found made
    | inr old => exact filled.made other u inode old.2 made
  | ended id =>
    exact filled.shrink rfl (fun other t found => (lookup_erase_some writers id other t found).2)
      (fun _ _ _ named => named)
  | failed id path =>
    exact filled.shrink rfl (fun other t found => (lookup_erase_some writers id other t found).2)
      (fun _ _ inode named => (lookup_erase_some disk.nodes path _ inode named).2)
  | removed path =>
    exact filled.shrink rfl (fun _ _ found => found)
      (fun _ _ inode named => (lookup_erase_some disk.nodes path _ inode named).2)
  | sealed id _ t _ _ _ _ moves =>
    exact filled.shrink (rename_contents disk _ _ _ moves).1
      (fun other u found => (lookup_erase_some writers id other u found).2)
      (parts_rename _ _ _ moves)
  | seized _ _ w _ _ _ _ _ moves =>
    exact filled.shrink (rename_contents disk _ _ _ moves).1 (fun _ _ found => found)
      (parts_rename _ _ _ moves)
  | quiet => exact filled

theorem filled_empty (good : Nat → Bytes → Prop) : Filled good key (Disk.empty : Disk Text UInt8) ∅ :=
  ⟨fun _ _ _ found => absurd found (by simp), fun _ _ _ found => absurd found (by simp [Disk.empty])⟩

end Contents

end

end OriginCache.Cache.PartFiles
