import OriginCache.Foundation.Slices
import OriginCache.Cache.SingleWriter

/-! Files of one version. An inode is pure when its bytes are one version's and
everything that writes it, or may come to, was begun under that version. -/

namespace OriginCache.Cache.VersionFiles
open Foundation.Files Foundation.Tables Foundation.Slices
open SegName Store Transfers PartFiles SingleWriter

section
variable (key : Text) (object : Text → Bytes)

/-- An inode that holds the version from a position on. Its part name, if it may have
one, is that of its home. -/
structure Pure (disk : Disk Text UInt8) (writers : Writers) (version : Text) (start : Nat)
    (home : Option Span) (inode : Nat) : Prop where
  bytes : ReadFrom (object version) start (disk.contents inode)
  below : inode < disk.next
  anchored : ∀ span, home = some span → span.start = start
  homes : ∀ span, disk.nodes.lookup (partOf key span) = some inode → home = some span
  writers : ∀ id t, writers.lookup id = some t → t.made = some inode ∨ home = some t.span →
    t.etag = some version ∧ t.span.start = start

/-- Each write is the next stretch of the version the transfer was begun under. -/
def Delivers (writers : Writers) (label : Label) : Prop :=
  ∀ id t data version, label = .transfer id (.write data) → writers.lookup id = some t →
    t.etag = some version → ReadFrom (object version) (t.span.start + t.written) data

/-- A transfer or a watcher works on the range. -/
def Stakes (writers : Writers) (watchers : Table Nat Watcher) (span : Span) (etag : Option Text) : Prop :=
  (∃ id t, writers.lookup id = some t ∧ t.span = span ∧ t.etag = etag) ∨
    ∃ id w, watchers.lookup id = some w ∧ w.span = span ∧ w.etag = etag

/-- What transfers have written, and what lies under the part names they and the
watchers go by, is of their version. -/
structure Versioned (disk : Disk Text UInt8) (writers : Writers) (watchers : Table Nat Watcher) : Prop where
  made : ∀ id t inode version, writers.lookup id = some t → t.made = some inode → t.etag = some version →
    ReadFrom (object version) t.span.start (disk.contents inode)
  staked : ∀ span inode version, Stakes writers watchers span (some version) →
    disk.nodes.lookup (partOf key span) = some inode →
    ReadFrom (object version) span.start (disk.contents inode)
  agree : ∀ span a b, Stakes writers watchers span a → Stakes writers watchers span b → a = b

/-- A part that is left over from earlier is of the version of the transfer that starts. -/
def startsClean (s : System) : Label → Bool
  | .start _ _ etag span =>
      (s.disk.read (partOf key span)).all fun bytes =>
        etag.all fun version => ReadFrom (object version) span.start bytes
  | _ => true

variable {key object} {watchers : Table Nat Watcher} {disk after : Disk Text UInt8}
  {writers writers' : Writers} {label : Label} {version : Text} {start : Nat} {home : Option Span} {inode : Nat}

theorem Pure.shrink {fewer : Writers} (pure_ : Pure key object disk writers version start home inode)
    (contents : after.contents inode = disk.contents inode) (next : disk.next ≤ after.next)
    (parts : ∀ span, after.nodes.lookup (partOf key span) = some inode →
      disk.nodes.lookup (partOf key span) = some inode)
    (kept : ∀ id t, fewer.lookup id = some t → writers.lookup id = some t) :
    Pure key object after fewer version start home inode :=
  ⟨by rw [contents]; exact pure_.bytes, Nat.lt_of_lt_of_le pure_.below next, pure_.anchored,
    fun span named => pure_.homes span (parts span named),
    fun id t found => pure_.writers id t (kept id t found)⟩

theorem pure_created (pure_ : Pure key object disk writers version start home inode) (id : Nat) (t : Transfer)
    (found : writers.lookup id = some t) :
    Pure key object (disk.create (partOf key t.span))
      (writers.insert id { t with made := some (disk.nodeFor (partOf key t.span)) }) version start home inode := by
  -- A create truncates the inode only under its home, whose transfers are of the version.
  have home_of : disk.nodeFor (partOf key t.span) = inode → home = some t.span := by
    intro target
    unfold Disk.nodeFor at target
    cases present : disk.nodes.lookup (partOf key t.span) with
    | some other =>
      rw [present, Option.getD_some] at target
      exact pure_.homes t.span (by rw [present, target])
    | none =>
      rw [present, Option.getD_none] at target
      have below := pure_.below
      omega
  refine ⟨?_, Nat.lt_of_lt_of_le pure_.below (next_le_create disk _), pure_.anchored, fun span named => ?_,
    fun other u present touched => ?_⟩
  · change ReadFrom _ start (Function.update disk.contents _ [] inode)
    by_cases target : disk.nodeFor (partOf key t.span) = inode
    · rw [target, Function.update_self]
      exact readFrom_nil _ _
    · rw [Function.update_of_ne (Ne.symm target)]
      exact pure_.bytes
  · by_cases same : partOf key span = partOf key t.span
    · rw [same, lookup_create] at named
      rw [partOf_injective same]
      exact home_of (Option.some.inj named)
    · rw [lookup_create_ne disk same] at named
      exact pure_.homes span named
  · cases lookup_insert_some writers id other _ u present with
    | inl new =>
      rw [new.2] at touched ⊢
      apply pure_.writers id t found
      cases touched with
      | inl made => exact .inr (home_of (Option.some.inj made))
      | inr lives => exact .inr lives
    | inr old => exact pure_.writers other u old.2 touched

theorem pure_wrote (owned : Owned key disk writers)
    (pure_ : Pure key object disk writers version start home inode) (id : Nat) (t : Transfer) (own : Nat)
    (data : Bytes) (found : writers.lookup id = some t) (made : t.made = some own)
    (order : t.etag = some version → ReadFrom (object version) (t.span.start + t.written) data) :
    Pure key object (disk.write own t.written data)
      (writers.insert id { t with written := t.written + data.length }) version start home inode := by
  refine ⟨?_, pure_.below, pure_.anchored, pure_.homes, fun other u present touched => ?_⟩
  · change ReadFrom _ start (Function.update disk.contents own _ inode)
    by_cases same : inode = own
    · obtain ⟨etag, begins⟩ := pure_.writers id t found (.inl (by rw [made, same]))
      have length := (owned.holds id t own found made).length
      have next := order etag
      rw [begins, ← length, ← same] at next
      rw [← same, Function.update_self, ← length, ← same, overlay_end]
      exact pure_.bytes.append next
    · rw [Function.update_of_ne same]
      exact pure_.bytes
  · cases lookup_insert_some writers id other _ u present with
    | inl new =>
      rw [new.2] at touched ⊢
      exact pure_.writers id t found touched
    | inr old => exact pure_.writers other u old.2 touched

/-- A pure inode stays pure as long as no transfer of another version starts on its home. -/
theorem pure_effect (owned : Owned key disk writers)
    (pure_ : Pure key object disk writers version start home inode)
    (effect : Effect key watchers label disk writers after writers') (order : Delivers object writers label)
    (starts : ∀ id kind etag span, label = .start id kind etag span → home = some span → etag = some version) :
    Pure key object after writers' version start home inode := by
  cases effect with
  | started id kind etag span it =>
    refine ⟨pure_.bytes, pure_.below, pure_.anchored, pure_.homes, fun other t present touched => ?_⟩
    cases lookup_insert_some writers id other _ t present with
    | inl new =>
      rw [new.2] at touched ⊢
      cases touched with
      | inl made => cases made
      | inr lives => exact ⟨starts id kind etag span it lives, pure_.anchored span lives⟩
    | inr old => exact pure_.writers other t old.2 touched
  | created id t found => exact pure_created pure_ id t found
  | wrote id t own data it found made =>
    exact pure_wrote owned pure_ id t own data found made (order id t data version it found)
  | moved id t phase found =>
    refine ⟨pure_.bytes, pure_.below, pure_.anchored, pure_.homes, fun other u present touched => ?_⟩
    cases lookup_insert_some writers id other _ u present with
    | inl new =>
      rw [new.2] at touched ⊢
      exact pure_.writers id t found touched
    | inr old => exact pure_.writers other u old.2 touched
  | ended id =>
    exact pure_.shrink rfl (Nat.le_refl _) (fun _ named => named)
      (fun other t found => (lookup_erase_some writers id other t found).2)
  | failed id path =>
    exact pure_.shrink rfl (Nat.le_refl _) (fun _ named => (lookup_erase_some disk.nodes path _ inode named).2)
      (fun other t found => (lookup_erase_some writers id other t found).2)
  | removed path =>
    exact pure_.shrink rfl (Nat.le_refl _) (fun _ named => (lookup_erase_some disk.nodes path _ inode named).2)
      (fun _ _ found => found)
  | sealed id _ t _ _ _ _ moves =>
    have kept := rename_contents disk after _ _ moves
    exact pure_.shrink (by rw [kept.1]) (Nat.le_of_eq kept.2.symm)
      (fun span named => parts_rename _ _ _ moves span.start span.stop inode named)
      (fun other u found => (lookup_erase_some writers id other u found).2)
  | seized _ _ _ _ _ _ _ _ moves =>
    have kept := rename_contents disk after _ _ moves
    exact pure_.shrink (by rw [kept.1]) (Nat.le_of_eq kept.2.symm)
      (fun span named => parts_rename _ _ _ moves span.start span.stop inode named) (fun _ _ found => found)
  | quiet => exact pure_

/-- A part name goes on naming its inode, or a create has just taken it. -/
theorem part_effect (effect : Effect key watchers label disk writers after writers') (span : Span)
    (named : after.nodes.lookup (partOf key span) = some inode) :
    disk.nodes.lookup (partOf key span) = some inode ∨
      ∃ id t, writers.lookup id = some t ∧ t.span = span ∧ after = disk.create (partOf key span) ∧
        writers' = writers.insert id { t with made := some (disk.nodeFor (partOf key span)) } := by
  cases effect with
  | created id t found =>
    by_cases same : partOf key span = partOf key t.span
    · have it := partOf_injective same
      exact .inr ⟨id, t, found, it.symm, by rw [it], by rw [it]⟩
    · rw [lookup_create_ne disk same] at named
      exact .inl named
  | failed id path => exact .inl (lookup_erase_some disk.nodes path _ inode named).2
  | removed path => exact .inl (lookup_erase_some disk.nodes path _ inode named).2
  | sealed id _ t _ _ _ _ moves => exact .inl (parts_rename _ _ _ moves span.start span.stop inode named)
  | seized _ _ _ _ _ _ _ _ moves => exact .inl (parts_rename _ _ _ moves span.start span.stop inode named)
  | started | wrote | moved | ended | quiet => exact .inl named

/-- What lies under a part name stays pure while the transfers on its range are of the version. -/
theorem partPure_effect (owned : Owned key disk writers) (span : Span)
    (before : ∀ inode, disk.nodes.lookup (partOf key span) = some inode →
      Pure key object disk writers version span.start (some span) inode)
    (range : ∀ id t, writers.lookup id = some t → t.span = span → t.etag = some version)
    (effect : Effect key watchers label disk writers after writers') (order : Delivers object writers label)
    (starts : ∀ id kind etag, label = .start id kind etag span → etag = some version)
    (named : after.nodes.lookup (partOf key span) = some inode) :
    Pure key object after writers' version span.start (some span) inode := by
  cases part_effect effect span named with
  | inl old =>
    apply pure_effect owned (before inode old) effect order
    intro id kind etag other it lives
    rw [← Option.some.inj lives] at it
    exact starts id kind etag it
  | inr new =>
    obtain ⟨id, t, found, same, created, table⟩ := new
    rw [created, lookup_create] at named
    cases named
    rw [created, table]
    refine ⟨?_, nodeFor_lt disk _, fun other lives => by cases lives; rfl, fun other there => ?_,
      fun other u present touched => ?_⟩
    · change ReadFrom _ _ (Function.update disk.contents _ [] _)
      rw [Function.update_self]
      exact readFrom_nil _ _
    · by_cases it : partOf key other = partOf key span
      · rw [partOf_injective it]
      · rw [lookup_create_ne disk it] at there
        exact absurd (owned.tidy.nodeFor_eq _ _ there) it
    · cases lookup_insert_some writers id other _ u present with
      | inl fresh =>
        rw [fresh.2]
        exact ⟨range id t found same, by rw [same]⟩
      | inr old =>
        cases touched with
        | inl made =>
          have apart : u.span ≠ span := fun it => old.1 (owned.alone other id u t old.2 found (it.trans same.symm))
          exact absurd rfl ((owned.holds other u _ old.2 made).nodeFor_ne span apart)
        | inr lives =>
          cases lives
          exact ⟨range other u old.2 rfl, rfl⟩

theorem pure_made (owned : Owned key disk writers) (versioned : Versioned key object disk writers watchers)
    (id : Nat) (t : Transfer) (found : writers.lookup id = some t) (made : t.made = some inode)
    (etag : t.etag = some version) : Pure key object disk writers version t.span.start (some t.span) inode := by
  have holds := owned.holds id t inode found made
  refine ⟨versioned.made id t inode version found made etag, holds.below, fun span lives => by cases lives; rfl,
    fun span named => ?_, fun other u present touched => ?_⟩
  · cases holds.names _ named with
    | inl part => rw [partOf_injective part]
    | inr sealed => exact absurd sealed (partOf_ne_segPath _ _ _)
  · have same : id = other := by
      cases touched with
      | inl too => exact owned.separate id other t u inode found present made too
      | inr lives => exact owned.alone id other t u found present (Option.some.inj lives)
    rw [← same, found] at present
    cases present
    exact ⟨etag, rfl⟩

theorem pure_staked (owned : Owned key disk writers) (versioned : Versioned key object disk writers watchers)
    (span : Span) (stakes : Stakes writers watchers span (some version))
    (named : disk.nodes.lookup (partOf key span) = some inode) :
    Pure key object disk writers version span.start (some span) inode := by
  refine ⟨versioned.staked span inode version stakes named, owned.tidy.below _ inode named,
    fun other lives => by cases lives; rfl, fun other there => ?_, fun id t found touched => ?_⟩
  · rw [partOf_injective (owned.tidy.single _ _ inode named there)]
  · have same : span = t.span := by
      cases touched with
      | inl made =>
        cases (owned.holds id t inode found made).names _ named with
        | inl part => exact partOf_injective part
        | inr sealed => exact absurd sealed (partOf_ne_segPath _ _ _)
      | inr lives => exact Option.some.inj lives
    exact ⟨versioned.agree span _ _ (.inl ⟨id, t, found, same.symm, rfl⟩) stakes, by rw [same]⟩

/-- A file that a transfer or a watcher has just renamed is pure and at no part name. -/
theorem sealedPure (owned : Owned key disk writers) (versioned : Versioned key object disk writers watchers)
    (id : Nat) (t : Transfer) (found : writers.lookup id = some t) (renames : t.phase = .renaming)
    (etag : t.etag = some version)
    (moves : disk.rename (partOf key t.span) (segPath key t.span.start t.sealStop) = some after)
    (named : after.nodes.lookup (segPath key t.span.start t.sealStop) = some inode) :
    Pure key object after (writers.erase id) version t.span.start none inode := by
  obtain ⟨source, from_, _⟩ := Option.map_eq_some_iff.mp moves
  obtain ⟨own, made⟩ := Option.ne_none_iff_exists'.mp ((owned.sized id t found).made (by rw [renames]; decide))
  have kept := rename_contents disk after _ _ moves
  have it : inode = own := by
    cases lookup_rename disk after _ _ source from_ moves _ inode named with
    | inl arrived => exact arrived.2.trans ((owned.holds id t own found made).part source from_)
    | inr stayed => exact absurd rfl stayed.1
  rw [it] at named ⊢
  refine ⟨?_, ?_, nofun, fun span there => ?_, fun other u present touched => ?_⟩
  · rw [kept.1]
    exact versioned.made id t own version found made etag
  · rw [kept.2]
    exact (owned.holds id t own found made).below
  · exact absurd ((owned.tidy.rename _ _ moves).single _ _ own there named) (partOf_ne_segPath _ _ _)
  · obtain ⟨differs, present⟩ := lookup_erase_some writers id other u present
    cases touched with
    | inl too => exact absurd (owned.separate other id u t own present found too made) differs
    | inr lives => cases lives

theorem seizedPure (owned : Owned key disk writers) (versioned : Versioned key object disk writers watchers)
    (id : Nat) (w : Watcher) (watched : watchers.lookup id = some w) (etag : w.etag = some version)
    (moves : disk.rename (partOf key w.span) (segPath key w.span.start w.span.stop) = some after)
    (named : after.nodes.lookup (segPath key w.span.start w.span.stop) = some inode) :
    Pure key object after writers version w.span.start none inode := by
  obtain ⟨source, from_, _⟩ := Option.map_eq_some_iff.mp moves
  have kept := rename_contents disk after _ _ moves
  have it : inode = source := by
    cases lookup_rename disk after _ _ source from_ moves _ inode named with
    | inl arrived => exact arrived.2
    | inr stayed => exact absurd rfl stayed.1
  rw [it] at named ⊢
  have before := pure_staked owned versioned w.span (.inr ⟨id, w, watched, rfl, etag⟩) from_
  refine ⟨?_, ?_, nofun, fun span there => ?_, fun other u present touched => ?_⟩
  · rw [kept.1]
    exact before.bytes
  · rw [kept.2]
    exact before.below
  · exact absurd ((owned.tidy.rename _ _ moves).single _ _ source there named) (partOf_ne_segPath _ _ _)
  · cases touched with
    | inl made => exact before.writers other u present (.inl made)
    | inr lives => cases lives

/-- A segment stays pure as long as nothing of another version lands on its name. -/
theorem segPure_effect (owned : Owned key disk writers) (versioned : Versioned key object disk writers watchers)
    (first last : Nat)
    (before : ∀ inode, disk.nodes.lookup (segPath key first last) = some inode →
      Pure key object disk writers version first none inode)
    (effect : Effect key watchers label disk writers after writers') (order : Delivers object writers label)
    (sealed : ∀ id ok t, label = .transfer id (.rename ok) → writers.lookup id = some t →
      segPath key t.span.start t.sealStop = segPath key first last → t.etag = some version)
    (seized : ∀ id ok w, label = .watch id (.rename ok) → watchers.lookup id = some w →
      segPath key w.span.start w.span.stop = segPath key first last → w.etag = some version)
    (named : after.nodes.lookup (segPath key first last) = some inode) :
    Pure key object after writers' version first none inode := by
  have stays : disk.nodes.lookup (segPath key first last) = some inode →
      Pure key object after writers' version first none inode :=
    fun old => pure_effect owned (before inode old) effect order fun _ _ _ _ _ lives => by cases lives
  cases effect with
  | created id t found =>
    rw [lookup_create_ne disk (partOf_ne_segPath _ _ _).symm] at named
    exact stays named
  | failed id path => exact stays (lookup_erase_some disk.nodes path _ inode named).2
  | removed path => exact stays (lookup_erase_some disk.nodes path _ inode named).2
  | sealed id ok t _ it found renames moves =>
    by_cases same : segPath key t.span.start t.sealStop = segPath key first last
    · have begins := (segPath_injective key key _ _ _ _ same).2.1
      rw [← same] at named
      rw [← begins]
      exact sealedPure owned versioned id t found renames (sealed id ok t it found same) moves named
    · obtain ⟨source, from_, _⟩ := Option.map_eq_some_iff.mp moves
      cases lookup_rename disk after _ _ source from_ moves _ inode named with
      | inl arrived => exact absurd arrived.1.symm same
      | inr stayed => exact stays stayed.2.2
  | seized id ok w size _ it watched seals moves =>
    by_cases same : segPath key w.span.start w.span.stop = segPath key first last
    · have begins := (segPath_injective key key _ _ _ _ same).2.1
      rw [← same] at named
      rw [← begins]
      exact seizedPure owned versioned id w watched (seized id ok w it watched same) moves named
    · obtain ⟨source, from_, _⟩ := Option.map_eq_some_iff.mp moves
      cases lookup_rename disk after _ _ source from_ moves _ inode named with
      | inl arrived => exact absurd arrived.1.symm same
      | inr stayed => exact stays stayed.2.2
  | started | wrote | moved | ended | quiet => exact stays named

/-! The invariant. -/

theorem stakes_step (s s' : System) (label : Label) (steps : step key s label = some s') (span : Span)
    (etag : Option Text) (stakes : Stakes s'.transfers s'.watchers span etag) :
    Stakes s.transfers s.watchers span etag ∨ ∃ id kind, label = .start id kind etag span := by
  cases stakes with
  | inl transfer =>
    obtain ⟨id, t, found, begins, tag⟩ := transfer
    cases transfers_step s s' label steps id t found with
    | inl old =>
      obtain ⟨u, present, same, kept, _⟩ := old
      exact .inl (.inl ⟨id, u, present, by rw [← same, begins], by rw [← kept, tag]⟩)
    | inr started =>
      rw [begins, tag] at started
      exact .inr ⟨id, _, started⟩
  | inr watcher =>
    obtain ⟨id, w, found, begins, tag⟩ := watcher
    cases watchers_step s s' label steps id w found with
    | inl old =>
      obtain ⟨v, present, same, kept⟩ := old
      exact .inl (.inr ⟨id, v, present, by rw [← same, begins], by rw [← kept, tag]⟩)
    | inr started =>
      rw [begins, tag] at started
      exact .inr ⟨id, _, started⟩

theorem not_stakes_of_free (s : System) (id : Nat) (kind : Kind) (etag other : Option Text) (span : Span)
    (free : rangeFree s (.start id kind etag span) = true) : ¬ Stakes s.transfers s.watchers span other := by
  simp only [rangeFree, Bool.and_eq_true, every_iff, decide_eq_true_eq] at free
  intro stakes
  cases stakes with
  | inl transfer =>
    obtain ⟨party, t, found, same, _⟩ := transfer
    exact free.1 party t found same
  | inr watcher =>
    obtain ⟨party, w, found, same, _⟩ := watcher
    exact free.2 party w found same

/-- A transfer keeps the inode it made, and a new one is empty. -/
theorem made_effect (effect : Effect key watchers label disk writers after writers') (id : Nat) (t : Transfer)
    (found : writers'.lookup id = some t) (made : t.made = some inode) :
    (∃ old, writers.lookup id = some old ∧ old.made = some inode ∧ old.span = t.span ∧ old.etag = t.etag) ∨
      after.contents inode = [] := by
  cases effect with
  | started new kind etag span =>
    cases lookup_insert_some writers new id _ t found with
    | inl fresh =>
      rw [fresh.2] at made
      cases made
    | inr old => exact .inl ⟨t, old.2, made, rfl, rfl⟩
  | created party u present =>
    cases lookup_insert_some writers party id _ t found with
    | inl fresh =>
      rw [fresh.2] at made
      cases made
      exact .inr (Function.update_self _ _ _)
    | inr old => exact .inl ⟨t, old.2, made, rfl, rfl⟩
  | wrote party u own data _ present mine =>
    cases lookup_insert_some writers party id _ t found with
    | inl same =>
      rw [same.2] at made ⊢
      exact .inl ⟨u, same.1 ▸ present, made, rfl, rfl⟩
    | inr old => exact .inl ⟨t, old.2, made, rfl, rfl⟩
  | moved party u phase present =>
    cases lookup_insert_some writers party id _ t found with
    | inl same =>
      rw [same.2] at made ⊢
      exact .inl ⟨u, same.1 ▸ present, made, rfl, rfl⟩
    | inr old => exact .inl ⟨t, old.2, made, rfl, rfl⟩
  | ended party | failed party | sealed party =>
    exact .inl ⟨t, (lookup_erase_some writers party id t found).2, made, rfl, rfl⟩
  | removed | seized | quiet => exact .inl ⟨t, found, made, rfl, rfl⟩

theorem versioned_step (s s' : System) (label : Label) (owned : Owned key s.disk s.transfers)
    (versioned : Versioned key object s.disk s.transfers s.watchers) (free : rangeFree s label = true)
    (clean : startsClean key object s label = true) (order : Delivers object s.transfers label)
    (steps : step key s label = some s') : Versioned key object s'.disk s'.transfers s'.watchers := by
  have effect := effect_step key s s' label steps
  have on_start : ∀ id kind etag span, label = .start id kind etag span →
      ∀ other, ¬ Stakes s.transfers s.watchers span other := by
    intro id kind etag span it other
    exact not_stakes_of_free s id kind etag other span (it ▸ free)
  refine ⟨fun id t inode version found made etag => ?_, fun span inode version stakes named => ?_,
    fun span a b first second => ?_⟩
  · cases made_effect effect id t found made with
    | inl earlier =>
      obtain ⟨old, present, same, begins, tag⟩ := earlier
      rw [← begins]
      have before := pure_made owned versioned id old present same (tag.trans etag)
      refine (pure_effect owned before effect order fun new kind other span it lives => ?_).bytes
      cases lives
      exact absurd (.inl ⟨id, old, present, rfl, rfl⟩) (on_start new kind other _ it old.etag)
    | inr fresh =>
      rw [fresh]
      exact readFrom_nil _ _
  · cases stakes_step s s' label steps span _ stakes with
    | inl before =>
      refine (partPure_effect owned span (fun other there => pure_staked owned versioned span before there)
        (fun id t found same => versioned.agree span _ _ (.inl ⟨id, t, found, same, rfl⟩) before)
        effect order (fun id kind etag it => absurd before (on_start id kind etag span it _)) named).bytes
    | inr started =>
      obtain ⟨id, kind, it⟩ := started
      rw [it] at steps clean
      simp only [step] at steps
      split_ifs at steps
      cases steps
      simp only [startsClean, Disk.read] at clean
      change s.disk.nodes.lookup _ = some inode at named
      rw [named] at clean
      exact of_decide_eq_true clean
  · cases stakes_step s s' label steps span a first with
    | inl before =>
      cases stakes_step s s' label steps span b second with
      | inl also => exact versioned.agree span a b before also
      | inr started =>
        obtain ⟨id, kind, it⟩ := started
        exact absurd before (on_start id kind b span it a)
    | inr started =>
      obtain ⟨id, kind, it⟩ := started
      cases stakes_step s s' label steps span b second with
      | inl before => exact absurd before (on_start id kind a span it b)
      | inr also =>
        obtain ⟨other, kind', it'⟩ := also
        exact (Label.start.inj (it.symm.trans it')).2.2.1

theorem versioned_empty : Versioned key object (Disk.empty : Disk Text UInt8) ∅ ∅ := by
  have none_ : ∀ span etag, ¬ Stakes ∅ ∅ span etag := by
    intro span etag stakes
    cases stakes with
    | inl transfer =>
      obtain ⟨_, _, found, _⟩ := transfer
      exact absurd found (by simp)
    | inr watcher =>
      obtain ⟨_, _, found, _⟩ := watcher
      exact absurd found (by simp)
  exact ⟨fun _ _ _ _ found => absurd found (by simp), fun span _ _ stakes => absurd stakes (none_ span _),
    fun span a _ stakes => absurd stakes (none_ span a)⟩

end

end OriginCache.Cache.VersionFiles
