import OriginCache.Cache.PartFiles
import OriginCache.Cache.Staging

/-! What a seal names, what it claims, and what the file holds. All three agree in
runs whose watchers rename complete parts only. -/

namespace OriginCache.Cache.SpanSeals
open Foundation.Files Foundation.Tables Foundation.Runs SegName Store Ledger Staging Transfers PartFiles

section
variable (key : Text)

/-- Ranges are not shared, and a watcher that renames finds its part complete or gone. -/
def sealsWhole (s : System) (label : Label) : Bool :=
  loneStart s.transfers label &&
    match label with
    | .watch id (.rename _) =>
        (s.watchers.lookup id).all fun w =>
          match w.phase with
          | .sealing size =>
              (s.disk.read (partOf key w.span)).all fun bytes =>
                bytes.length = w.span.len && size = w.span.len
          | _ => true
    | _ => true

/-- Names, claims, files and plans agree. -/
structure SealsExact (s : System) : Prop where
  files : ∀ start stop bytes, s.disk.read (segPath key start stop) = some bytes →
    bytes.length = stop - start
  added : ∀ a ∈ s.added, a.reached = a.named
  claims : ∀ owner c, s.claims.lookup owner = some c → c.phase ≠ .sizing → c.stop = c.named
  plans : ∀ start stop, ∀ piece ∈ (planStaged (segmentsForKey (dirOf s.disk) key) start stop).pieces,
    ∃ bytes, s.disk.read piece.path = some bytes ∧ piece.offset + piece.len ≤ bytes.length

def Complete (disk : Disk Text UInt8) : Prop :=
  ∀ start stop inode, disk.nodes.lookup (segPath key start stop) = some inode →
    (disk.contents inode).length = stop - start

structure ClaimSound (c : Claim) : Prop where
  range : c.start ≤ c.named ∧ c.named < 2 ^ 64
  settled : c.phase ≠ .sizing → c.stop = c.named
  recorded : ∀ reached len, c.phase = .recording reached len → reached = c.named

structure Sound (s : System) : Prop where
  owned : Owned key s.disk s.transfers
  complete : Complete key s.disk
  claims : ∀ owner c, s.claims.lookup owner = some c → ClaimSound c
  added : ∀ a ∈ s.added, a.reached = a.named

variable {key}

theorem sealStop_written (t : Transfer) (sized : Sized t) (renames : t.phase = .renaming) :
    t.written = t.sealStop - t.span.start := by
  cases kind : t.kind with
  | run =>
    have whole := sized.whole kind (by rw [renames]; decide)
    rw [whole, Transfer.sealStop, kind, Span.len]
  | escape =>
    rw [Transfer.sealStop, kind]
    simp only
    omega

theorem complete_step (s s' : System) (label : Label) (owned : Owned key s.disk s.transfers)
    (complete : Complete key s.disk)
    (whole : ∀ id ok w size bytes, label = .watch id (.rename ok) → s.watchers.lookup id = some w →
      w.phase = .sealing size → s.disk.read (partOf key w.span) = some bytes → bytes.length = w.span.len)
    (steps : step key s label = some s') : Complete key s'.disk := by
  refine segs_effect (fun start stop bytes => bytes.length = stop - start) owned
    (effect_step key s s' label steps) complete (fun id t inode found renames made => ?_)
    (fun id ok w size inode it watched seals from_ => ?_)
    (fun id t inode data _ found made some_ room full => ?_)
  · rw [(owned.holds id t inode found made).length]
    exact sealStop_written t (owned.sized id t found) renames
  · exact whole id ok w size _ it watched seals (by rw [Disk.read, from_]; rfl)
  · -- A full transfer has no room left.
    have length := (owned.holds id t inode found made).length
    have more := List.length_pos_iff.mpr some_
    cases kind : t.kind with
    | run =>
      have fits := (hasRoom_run t data kind).mp room
      simp only [Span.len] at fits
      omega
    | escape =>
      have fits := (hasRoom_escape t data kind).mp room
      simp only [Span.len] at fits
      omega

theorem sealsWhole_rename (s : System) (label : Label) (whole : sealsWhole key s label = true) (id : Nat)
    (ok : Bool) (w : Watcher) (size : Nat) (bytes : Bytes) (it : label = .watch id (.rename ok))
    (watched : s.watchers.lookup id = some w) (seals : w.phase = .sealing size)
    (there : s.disk.read (partOf key w.span) = some bytes) : bytes.length = w.span.len := by
  simp only [sealsWhole, Bool.and_eq_true] at whole
  have meets := whole.2
  simp only [it, watched, Option.all_some, seals, there, Bool.and_eq_true, decide_eq_true_eq] at meets
  exact meets.1

theorem claimSound_transfer (t : Transfer) (sized : Sized t) : ClaimSound t.claim := by
  have bounds := sealStop_bounds t sized
  refine ⟨bounds, fun _ => rfl, fun reached len phase => ?_⟩
  simp only [Transfer.claim] at phase
  split at phase <;> cases phase

theorem claim_transferStep (disk after : Disk Text UInt8) (t : Transfer) (next : Option Transfer)
    (c : Claim) (label : TransferLabel)
    (steps : transferStep key disk t label = some (after, next, some c)) : c = t.claim := by
  unfold transferStep at steps
  repeat' split at steps
  all_goals cases steps
  rfl

theorem claim_watchStep (disk after : Disk Text UInt8) (w : Watcher) (next : Option Watcher)
    (c : Claim) (label : WatchLabel) (steps : watchStep key disk w label = some (after, next, some c)) :
    ∃ ok size, label = .rename ok ∧ w.phase = .sealing size ∧
      disk.rename (partOf key w.span) (segPath key w.span.start w.span.stop) = some after ∧
      c = ⟨w.etag, w.span.start, w.span.stop, w.span.start + size, false, .viewing⟩ := by
  cases label with
  | rename ok =>
    simp only [watchStep] at steps
    split at steps
    next size seals =>
      split at steps
      next moved moves =>
        cases steps
        exact ⟨ok, size, rfl, seals, attempt_some moves, rfl⟩
      next => cases steps
    next => cases steps
  | poll =>
    simp only [watchStep] at steps
    split_ifs at steps
    cases steps
  | check =>
    simp only [watchStep] at steps
    split at steps
    next => split_ifs at steps <;> cases steps
    next => cases steps
  | discard =>
    simp only [watchStep] at steps
    split_ifs at steps
    cases steps
  | giveUp =>
    simp only [watchStep] at steps
    split_ifs at steps
    cases steps

/-- The claim a watcher makes is for the range its file is named by. -/
theorem claimSound_watch (s : System) (id : Nat) (w : Watcher) (disk : Disk Text UInt8)
    (next : Option Watcher) (c : Claim) (label : WatchLabel) (found : s.watchers.lookup id = some w)
    (whole : sealsWhole key s (.watch id label) = true)
    (steps : watchStep key s.disk w label = some (disk, next, some c)) : ClaimSound c := by
  obtain ⟨ok, size, it, seals, moves, made⟩ := claim_watchStep s.disk disk w next c label steps
  obtain ⟨source, from_, _⟩ := Option.map_eq_some_iff.mp moves
  simp only [sealsWhole, loneStart, Bool.true_and, it, found, Option.all_some, seals, Disk.read, from_,
    Option.map_some, Bool.and_eq_true, decide_eq_true_eq] at whole
  have proper := w.span.proper
  rw [made]
  refine ⟨⟨Nat.le_of_lt proper, w.span.bound⟩, fun _ => ?_, fun _ _ phase => ?_⟩
  · simp only [whole.2, Span.len]
    omega
  · cases phase

/-- A seal measures the whole of its file. -/
theorem measured (disk : Disk Text UInt8) (complete : Complete key disk) (start stop reached len : Nat)
    (range : start ≤ stop) (bound : stop < 2 ^ 64)
    (found : measureSeal (dirOf disk) key start stop = some (reached, len)) : reached = stop := by
  unfold measureSeal at found
  rw [lookup_dirOf, Disk.read] at found
  cases present : disk.nodes.lookup (segPath key start stop) with
  | none =>
    rw [present] at found
    cases found
  | some inode =>
    have length := complete start stop inode present
    rw [present] at found
    simp only [Option.map_some] at found
    split at found
    next => cases found
    next =>
      cases found
      unfold saturatingAdd
      omega

theorem claimSound_step (disk after : Disk Text UInt8) (ledger ledger' : Inner) (c next : Claim)
    (new : List Added) (label : ClaimLabel) (complete : Complete key disk) (sound : ClaimSound c)
    (steps : claimStep key disk ledger c label = some (after, ledger', some next, new)) :
    ClaimSound next := by
  cases label with
  | size =>
    simp only [claimStep] at steps
    split_ifs at steps with sizes
    cases steps
    refine ⟨sound.range, fun _ => ?_, by simp⟩
    have range := sound.range
    cases present : disk.nodes.lookup (segPath key c.start c.named) with
    | none =>
      simp only [Disk.read, present, Option.map_none, Option.getD_none]
      omega
    | some inode =>
      have length := complete c.start c.named inode present
      simp only [Disk.read, present, Option.map_some, Option.getD_some]
      omega
  | view =>
    simp only [claimStep] at steps
    split_ifs at steps with views changed
    all_goals
      cases steps
      exact ⟨sound.range, fun _ => sound.settled (by rw [views]; decide), by simp⟩
  | list =>
    simp only [claimStep] at steps
    split_ifs at steps with lists
    cases steps
    exact ⟨sound.range, fun _ => sound.settled (by rw [lists]; decide), by simp⟩
  | purge =>
    simp only [claimStep] at steps
    split at steps
    next purges =>
      cases steps
      exact ⟨sound.range, fun _ => sound.settled (by rw [purges]; simp), by simp⟩
    next purges =>
      cases steps
      exact ⟨sound.range, fun _ => sound.settled (by rw [purges]; simp), by simp⟩
    next => cases steps
  | measure =>
    simp only [claimStep] at steps
    split_ifs at steps with measures
    have settled := sound.settled (by rw [measures]; decide)
    split at steps
    next reached len found =>
      cases steps
      refine ⟨sound.range, fun _ => settled, fun other _ phase => ?_⟩
      cases phase
      rw [settled] at found
      exact measured disk complete c.start c.named _ _ sound.range.1 sound.range.2 found
    next => cases steps
  | record total window now =>
    simp only [claimStep] at steps
    split at steps <;> cases steps
  | cancel =>
    simp only [claimStep] at steps
    split_ifs at steps
    cases steps

/-- What is added is what the file is named by. -/
theorem added_claimStep (disk after : Disk Text UInt8) (ledger ledger' : Inner) (c : Claim)
    (next : Option Claim) (new : List Added) (label : ClaimLabel) (sound : ClaimSound c)
    (steps : claimStep key disk ledger c label = some (after, ledger', next, new)) :
    ∀ a ∈ new, a.reached = a.named := by
  cases label with
  | record total window now =>
    simp only [claimStep] at steps
    split at steps
    next reached len records =>
      cases steps
      intro a member
      rw [List.mem_singleton.mp member]
      exact sound.recorded reached len records
    next => cases steps
  | _ =>
    simp only [claimStep] at steps
    repeat' split at steps
    all_goals
      cases steps
      try simp

theorem sound_step (s s' : System) (label : Label) (sound : Sound key s)
    (whole : sealsWhole key s label = true) (steps : step key s label = some s') : Sound key s' := by
  have lone : loneStart s.transfers label = true := by
    simp only [sealsWhole, Bool.and_eq_true] at whole
    exact whole.1
  have owned := owned_effect sound.owned lone (effect_step key s s' label steps)
  have complete := complete_step s s' label sound.owned sound.complete (sealsWhole_rename s label whole) steps
  cases label with
  | start id kind etag span =>
    simp only [step] at steps
    split_ifs at steps
    cases steps
    exact ⟨owned, complete, sound.claims, sound.added⟩
  | transfer id label =>
    simp only [step] at steps
    split at steps
    next t found =>
      obtain ⟨⟨disk, next, claim⟩, moves, after⟩ := Option.map_eq_some_iff.mp steps
      rw [← after] at owned complete ⊢
      refine ⟨owned, complete, fun owner c present => ?_, sound.added⟩
      cases claim with
      | none => exact sound.claims owner c present
      | some made =>
        cases lookup_insert_some s.claims _ owner made c present with
        | inl new =>
          rw [new.2, claim_transferStep s.disk disk t next made label moves]
          exact claimSound_transfer t (sound.owned.sized id t found)
        | inr old => exact sound.claims owner c old.2
    next => cases steps
  | watch id label =>
    simp only [step] at steps
    split at steps
    next w found =>
      obtain ⟨⟨disk, next, claim⟩, moves, after⟩ := Option.map_eq_some_iff.mp steps
      rw [← after] at owned complete ⊢
      refine ⟨owned, complete, fun owner c present => ?_, sound.added⟩
      cases claim with
      | none => exact sound.claims owner c present
      | some made =>
        cases lookup_insert_some s.claims _ owner made c present with
        | inl new =>
          rw [new.2]
          exact claimSound_watch s id w disk next made label found whole moves
        | inr old => exact sound.claims owner c old.2
    next => cases steps
  | claim owner label =>
    simp only [step] at steps
    split at steps
    next c found =>
      obtain ⟨⟨disk, ledger, next, new⟩, moves, after⟩ := Option.map_eq_some_iff.mp steps
      rw [← after] at owned complete ⊢
      refine ⟨owned, complete, fun other d present => ?_, fun a member => ?_⟩
      · by_cases same : other = owner
        · rw [same, lookup_replace] at present
          change next = some d at present
          rw [present] at moves
          exact claimSound_step s.disk disk s.ledger ledger c d new label sound.complete
            (sound.claims owner c found) moves
        · rw [lookup_replace_ne s.claims next same] at present
          exact sound.claims other d present
      · cases List.mem_append.mp member with
        | inl old => exact sound.added a old
        | inr fresh =>
          exact added_claimStep s.disk disk s.ledger ledger c next new label (sound.claims owner c found)
            moves a fresh
    next => cases steps
  | remove path =>
    cases steps
    exact ⟨owned, complete, sound.claims, sound.added⟩
  | forget freed =>
    cases steps
    exact ⟨owned, complete, sound.claims, sound.added⟩
  | reAdopt freed survivors now =>
    cases steps
    exact ⟨owned, complete, sound.claims, sound.added⟩
  | dropRow =>
    cases steps
    exact ⟨owned, complete, sound.claims, sound.added⟩

/-- A plan made from complete files promises no byte that a file lacks. -/
theorem exact_of_sound (s : System) (sound : Sound key s) : SealsExact key s := by
  have files : ∀ start stop bytes, s.disk.read (segPath key start stop) = some bytes →
      bytes.length = stop - start := by
    intro start stop bytes found
    obtain ⟨inode, present, same⟩ := Option.map_eq_some_iff.mp found
    rw [← same]
    exact sound.complete start stop inode present
  refine ⟨files, sound.added, fun owner c found => (sound.claims owner c found).settled,
    fun start stop piece planned => ?_⟩
  obtain ⟨first, last, member, _, inside⟩ := planFrom_inside stop start _ piece planned
  obtain ⟨name, range, inode, present⟩ := listed sound.owned first last piece.path member
  have found : s.disk.read piece.path = some (s.disk.contents inode) := by rw [Disk.read, present]; rfl
  refine ⟨_, found, ?_⟩
  have length := files first last _ (name ▸ found)
  omega

end

def firstThree : Span := ⟨0, 3, by decide, by decide⟩
def nextTwo : Span := ⟨3, 5, by decide, by decide⟩

/-- The seal of a claim that nothing interrupts. -/
def claimed (owner : Owner) : List Label :=
  [.claim owner .view, .claim owner .measure, .claim owner (.record 5 0 7)]

/-- A part that stays the same for four wake-ups is taken by the watcher. -/
def watched (id : Nat) : List Label :=
  [.watch id .poll, .watch id .poll, .watch id .poll, .watch id .poll, .watch id .check,
    .watch id (.rename true)]

/-- One body ends by itself, one is dropped after its last byte. -/
def bothSealed : List Label :=
  [.start 0 .escape none firstThree, .transfer 0 .create, .transfer 0 (.write [1, 2, 3]),
    .transfer 0 .exhaust, .transfer 0 (.rename true)] ++ claimed (.transfer 0) ++
  [.start 1 .escape none nextTwo, .transfer 1 .create, .transfer 1 (.write [4, 5]), .transfer 1 .drop] ++
  watched 1 ++ claimed (.watcher 1)

end OriginCache.Cache.SpanSeals
