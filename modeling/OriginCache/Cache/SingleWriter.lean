import OriginCache.Cache.Sessions
import OriginCache.Cache.SpanSeals

/-! One writer for each part file, and sealed spans that hold the object's bytes. The
sessions keep to it as long as no transfer starts on a range that another one, or the
watcher of another one, has not given up. -/

namespace OriginCache.Cache.SingleWriter
open Foundation.Files Foundation.Tables Foundation.Slices Foundation.Runs
open SegName Store Transfers PartFiles SpanSeals

section
variable (key : Text) (object : Bytes)

def rangeFree (s : System) : Label → Bool
  | .start _ _ _ span =>
      every s.transfers (fun _ t => t.span ≠ span) && every s.watchers fun _ w => w.span ≠ span
  | _ => true

def takesWhole (s : System) : Label → Bool
  | .watch id (.rename _) =>
      (s.watchers.lookup id).all fun w =>
        (s.disk.read (partOf key w.span)).all fun bytes => bytes.length = w.span.len
  | _ => true

/-- The source delivers the object's bytes in order. -/
def inOrder (s : System) : Label → Bool
  | .transfer id (.write data) =>
      (s.transfers.lookup id).all fun t => ReadFrom object (t.span.start + t.written) data
  | _ => true

def writesAlone (s : System) (label : Label) : Bool :=
  rangeFree s label && takesWhole key s label && inOrder object s label

/-- A part path has one unfinished transfer, which finds its file as it wrote it and
which no watcher but its own can rename. Segments hold the bytes they are named by. -/
structure WritesApart (s : System) : Prop where
  alone : ∀ id other t u, s.transfers.lookup id = some t → s.transfers.lookup other = some u →
    partOf key t.span = partOf key u.span → id = other
  watchers : ∀ id other w t, s.watchers.lookup id = some w → s.transfers.lookup other = some t →
    partOf key w.span = partOf key t.span → id = other
  intact : ∀ id t inode, s.transfers.lookup id = some t → t.made = some inode →
    s.disk.contents inode = slice object t.span.start t.written ∧
      ∀ other, s.disk.nodes.lookup (partOf key t.span) = some other → other = inode
  segments : ∀ start stop bytes, s.disk.read (segPath key start stop) = some bytes →
    bytes = slice object start (stop - start)

structure Sound (s : System) : Prop where
  owned : Owned key s.disk s.transfers
  complete : Complete key s.disk
  filled : Filled (ReadFrom object) key s.disk s.transfers
  segments : ∀ start stop inode, s.disk.nodes.lookup (segPath key start stop) = some inode →
    ReadFrom object start (s.disk.contents inode)
  watchers : ∀ id other w t, s.watchers.lookup id = some w → s.transfers.lookup other = some t →
    w.span = t.span → id = other

variable {key object}

/-! The invariant. -/

theorem loneStart_of_rangeFree (s : System) (label : Label) (free : rangeFree s label = true) :
    loneStart s.transfers label = true := by
  cases label with
  | start id kind etag span =>
    simp only [rangeFree, Bool.and_eq_true] at free
    exact free.1
  | _ => rfl

theorem takesWhole_rename (s : System) (label : Label) (whole : takesWhole key s label = true) (id : Nat)
    (ok : Bool) (w : Watcher) (size : Nat) (bytes : Bytes) (it : label = .watch id (.rename ok))
    (watched : s.watchers.lookup id = some w) (_ : w.phase = .sealing size)
    (there : s.disk.read (partOf key w.span) = some bytes) : bytes.length = w.span.len := by
  rw [it] at whole
  simp only [takesWhole, watched, there, Option.all_some, decide_eq_true_eq] at whole
  exact whole

/-- What is written next goes on from what was written. -/
theorem genuine_wrote (s : System) (label : Label) (owned : Owned key s.disk s.transfers)
    (order : inOrder object s label = true) (id : Nat) (t : Transfer) (inode : Nat) (data : Bytes)
    (it : label = .transfer id (.write data)) (found : s.transfers.lookup id = some t)
    (made : t.made = some inode) (good : ReadFrom object t.span.start (s.disk.contents inode)) :
    ReadFrom object t.span.start (s.disk.contents inode ++ data) := by
  rw [it] at order
  simp only [inOrder, found, Option.all_some, decide_eq_true_eq] at order
  rw [← (owned.holds id t inode found made).length] at order
  exact good.append order

theorem watchers_alone (s s' : System) (label : Label)
    (apart : ∀ id other w t, s.watchers.lookup id = some w → s.transfers.lookup other = some t →
      w.span = t.span → id = other)
    (free : rangeFree s label = true) (steps : step key s label = some s') (id other : Nat) (w : Watcher)
    (t : Transfer) (watched : s'.watchers.lookup id = some w) (found : s'.transfers.lookup other = some t)
    (same : w.span = t.span) : id = other := by
  have watcher := watchers_step s s' label steps id w watched
  have transfer := transfers_step s s' label steps other t found
  cases watcher with
  | inl old =>
    obtain ⟨v, before, kept, _⟩ := old
    cases transfer with
    | inl old =>
      obtain ⟨u, present, stays, _⟩ := old
      exact apart id other v u before present (by rw [← kept, ← stays, same])
    | inr new =>
      rw [new] at free
      simp only [rangeFree, Bool.and_eq_true, every_iff, decide_eq_true_eq] at free
      exact absurd (kept.symm.trans same) (free.2 id v before)
  | inr started =>
    cases transfer with
    | inl old =>
      obtain ⟨u, present, stays, _⟩ := old
      rw [started] at free
      simp only [rangeFree, Bool.and_eq_true, every_iff, decide_eq_true_eq] at free
      exact absurd (stays.symm.trans same.symm) (free.1 other u present)
    | inr also => exact (Label.start.inj (started.symm.trans also)).1

theorem sound_step (s s' : System) (label : Label) (sound : Sound key object s)
    (alone : writesAlone key object s label = true) (steps : step key s label = some s') :
    Sound key object s' := by
  simp only [writesAlone, Bool.and_eq_true] at alone
  obtain ⟨⟨free, whole⟩, order⟩ := alone
  have effect := effect_step key s s' label steps
  have grows := genuine_wrote s label sound.owned order
  refine ⟨owned_effect sound.owned (loneStart_of_rangeFree s label free) effect,
    complete_step s s' label sound.owned sound.complete (takesWhole_rename s label whole) steps,
    filled_effect sound.owned sound.filled (readFrom_nil object) effect grows, ?_, ?_⟩
  · apply segs_effect (fun start _ bytes => ReadFrom object start bytes) sound.owned effect sound.segments
    · intro id t inode found _ made
      exact sound.filled.made id t inode found made
    · intro id ok w size inode _ _ _ from_
      exact sound.filled.parts _ _ inode from_
    · intro id t inode data it found made _ _ good
      exact grows id t inode data it found made good
  · exact watchers_alone s s' label sound.watchers free steps

theorem writesApart_of_sound (s : System) (sound : Sound key object s) : WritesApart key object s := by
  refine ⟨fun id other t u found also same => ?_, fun id other w t watched found same => ?_,
    fun id t inode found made => ⟨?_, ?_⟩, fun start stop bytes there => ?_⟩
  · exact sound.owned.alone id other t u found also (partOf_injective same)
  · exact sound.watchers id other w t watched found (partOf_injective same)
  · rw [← (sound.owned.holds id t inode found made).length]
    exact sound.filled.made id t inode found made
  · exact (sound.owned.holds id t inode found made).part
  · obtain ⟨inode, present, same⟩ := Option.map_eq_some_iff.mp there
    rw [← same, ← sound.complete start stop inode present]
    exact sound.segments start stop inode present

theorem sound_empty : Sound key object empty :=
  ⟨owned_empty, fun _ _ _ found => absurd found (by simp [empty, Disk.empty]), filled_empty _,
    fun _ _ _ found => absurd found (by simp [empty, Disk.empty]),
    fun _ _ _ _ found => absurd found (by simp [empty])⟩

/-- In every run of the transfers that keeps to the condition. -/
theorem writesApart_run (s : System)
    (reached : Reaches (machine key) (fun s label => writesAlone key object s label = true) s) :
    WritesApart key object s := by
  apply writesApart_of_sound
  apply reached.invariant (Sound key object)
  · intro state begins
    rw [show state = empty from begins]
    exact sound_empty
  · intro state label after sound alone steps
    exact sound_step state after label sound alone steps

/-! The sessions. -/

/-- What a step of the sessions asks of the transfers keeps to the condition. -/
def keepsApart (key : Text) (object : Bytes) (config : Sessions.Config) (s : Sessions.System)
    (label : Sessions.Label) : Bool :=
  (Sessions.asked key config s label).all (writesAlone key object s.spans)

end

/-! Two requests for the same four bytes. -/

def fourBytes : Bytes := [1, 2, 3, 4]
def firstFour : Span := ⟨0, 4, by decide, by decide⟩
def small : Sessions.Config := ⟨4, 1⟩

/-- A request up to the choice of where its bytes come from. -/
def planned (id : Nat) : List Sessions.Label :=
  [.stat id none 4 firstFour, .request id (.gate false), .request id .plan, .request id (.permit true),
    .request id .cover]

/-- The second request waits for the run of the first. -/
def followed : List Sessions.Label :=
  planned 1 ++ [.request 1 .reserve, .request 1 (.spawn 7 true)] ++ planned 2 ++
  [.span (.transfer 7 .create), .span (.transfer 7 (.write [1, 2])), .request 2 .drop,
    .span (.transfer 7 (.write [3, 4])), .span (.transfer 7 .exhaust), .span (.transfer 7 (.rename true))]

/-- The second request finds the slot reserved, and its escape has the range that the
run of the first is about to take. -/
def crossed : List Sessions.Label :=
  planned 1 ++ [.request 1 .reserve] ++ planned 2 ++
  [.request 2 .reserve, .request 2 (.escape 8 true), .request 1 (.spawn 7 true),
    .span (.transfer 7 .create), .span (.transfer 7 (.write [1, 2])), .request 2 (.body (.escape .create)),
    .span (.transfer 7 (.write [3, 4])), .span (.transfer 7 .exhaust), .span (.transfer 7 (.rename true))]

end OriginCache.Cache.SingleWriter
