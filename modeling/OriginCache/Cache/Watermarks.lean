import OriginCache.Cache.Pulls

/-! The pump of one pull, with the temp file it fills and the watermarks its readers
wake up to. -/

namespace OriginCache.Cache.Watermarks
open Foundation.Tables SegName Meta Pulls
open Store (Bytes)
open Ranged (chunkSize)
open DiskHit (Files isMetaStorePath)

def publishInterval : Nat := 1024 * 1024

/-- What the local disk does with one pump. -/
structure Disk where
  creates : Bool
  writes : Nat → Bool
  flushes : Bool
  syncs : Bool
  joins : Bool
  makesDirs : Bool
  renames : Bool
  unlinks : Bool

/-- The temp file and the file at the final path. -/
structure Place where
  tmp : Option Bytes
  dest : Option Bytes
deriving DecidableEq, Repr

inductive Event
  | wrote (bytes : Bytes)
  | sent (mark : Nat)
deriving DecidableEq, Repr

structure Loop where
  written : Bytes
  published : Nat
  trace : List Event
deriving DecidableEq, Repr

def Loop.new : Loop := ⟨[], 0, []⟩

def Loop.write (loop : Loop) (bytes : Bytes) : Loop :=
  ⟨loop.written ++ bytes, loop.published, loop.trace ++ [.wrote bytes]⟩

def Loop.announce (loop : Loop) : Loop :=
  ⟨loop.written, loop.written.length, loop.trace ++ [.sent loop.written.length]⟩

/-- The first chunk is always published. -/
def Loop.publish (loop : Loop) : Loop :=
  if loop.published = 0 ∨ publishInterval ≤ loop.written.length - loop.published then loop.announce else loop

/-- The final size is announced before the outcome. -/
def Loop.finish (loop : Loop) : Loop :=
  if loop.published < loop.written.length then loop.announce else loop

def pumpLoop (up : Upstream) (disk : Disk) (reads : Nat) (loop : Loop) (rest : Bytes) : Loop × Option Failure :=
  if allow up.promisedLen loop.written.length = 0 then (loop, none)
  else if rest = [] then (loop, if up.breaks then some .readStream else none)
  else if disk.writes reads = false then (loop, some .writeTmp)
  else
    let count := min (up.sizes reads + 1) (allow up.promisedLen loop.written.length)
    pumpLoop up disk (reads + 1) (loop.write (rest.take count)).publish (rest.drop count)
termination_by rest.length
decreasing_by
  have positive : 0 < rest.length := List.length_pos_of_ne_nil ‹rest ≠ []›
  rw [List.length_drop]
  omega

/-- A refused unlink is ignored. -/
def failCleanup (disk : Disk) (place : Place) : Place :=
  if disk.unlinks then { place with tmp := none } else place

/-- Refuses the metadata store, then makes the parents and renames. -/
def installTmp (disk : Disk) (metaStore : Bool) (place : Place) : Place × Option Failure :=
  if metaStore = true then (place, some .installTmp)
  else if disk.makesDirs = false then (place, some .installTmp)
  else if disk.renames = false then (place, some .installTmp)
  else (⟨none, place.tmp⟩, none)

structure Pumped where
  place : Place
  trace : List Event
  failure : Option Failure
deriving DecidableEq, Repr

def pumpAndSeal (up : Upstream) (disk : Disk) (metaStore : Bool) (place : Place) : Pumped :=
  if disk.creates = false then ⟨place, [], some .createTmp⟩
  else
    match pumpLoop up disk 0 .new up.data with
    | (loop, some failure) => ⟨failCleanup disk ⟨some loop.written, place.dest⟩, loop.trace, some failure⟩
    | (loop, none) =>
        let filled : Place := ⟨some loop.written, place.dest⟩
        if up.promisedLen.any (loop.written.length < ·) then
          ⟨failCleanup disk filled, loop.finish.trace,
            some (.shortRead loop.written.length (up.promisedLen.getD 0))⟩
        else if disk.flushes = false then ⟨failCleanup disk filled, loop.finish.trace, some .flushTmp⟩
        else if disk.syncs = false then ⟨failCleanup disk filled, loop.finish.trace, some .syncTmp⟩
        else if disk.joins = false then ⟨filled, loop.finish.trace, some .installTmp⟩
        else
          let installed := installTmp disk metaStore filled
          ⟨installed.1, loop.finish.trace, installed.2⟩

/-! What a run of the pump owes. -/

def handed (trace : List Event) : Nat :=
  (trace.map fun event => match event with | .wrote bytes => bytes.length | .sent _ => 0).sum

def marks (trace : List Event) : List Nat :=
  trace.filterMap fun event => match event with | .wrote _ => none | .sent mark => some mark

/-- Every watermark is above the earlier ones and no higher than what was written. -/
structure Sound (trace : List Event) : Prop where
  rising : (marks trace).Pairwise (· < ·)
  covered : ∀ early mark late, trace = early ++ .sent mark :: late → mark ≤ handed early

/-- What the upstream gets to send: its promise, or all it has. -/
def goal (up : Upstream) : Nat := min (up.promisedLen.getD up.data.length) up.data.length

structure Seals (up : Upstream) (before : Place) (result : Pumped) : Prop where
  whole : result.failure = none → result.place = ⟨none, some (up.data.take (up.promisedLen.getD up.data.length))⟩
  exact_ : result.failure = none → ∀ expected ∈ up.promisedLen, expected ≤ up.data.length
  sound : Sound result.trace
  gone : ∀ failure ∈ result.failure, result.place.tmp = none ∨ (failure = .createTmp ∧ result.place = before)
  untouched : ∀ failure ∈ result.failure, result.place.dest = before.dest

/-- How far the first reads get. -/
def taken (up : Upstream) : Nat → Nat
  | 0 => 0
  | reads + 1 => min (goal up) (taken up reads + min (up.sizes reads + 1) chunkSize)

/-- The stream keeps its promise or, where it made none, ends without breaking. -/
def keepsPromise (up : Upstream) : Bool :=
  up.promisedLen.elim (!up.breaks) fun expected => expected ≤ up.data.length

/-- The whole of it gets to the temp file. -/
structure Arrives (up : Upstream) (disk : Disk) : Prop where
  sent : keepsPromise up = true
  writes : ∀ reads, taken up reads < goal up → disk.writes reads = true
  flushes : disk.flushes = true
  syncs : disk.syncs = true

structure Installs (disk : Disk) (metaStore : Bool) : Prop where
  joins : disk.joins = true
  object : metaStore = false
  makesDirs : disk.makesDirs = true
  renames : disk.renames = true

/-! Watermarks. -/

theorem handed_append (early late : List Event) : handed (early ++ late) = handed early + handed late := by
  unfold handed
  rw [List.map_append, List.sum_append]

theorem marks_append (early late : List Event) : marks (early ++ late) = marks early ++ marks late :=
  List.filterMap_append

theorem sound_nil : Sound [] :=
  ⟨List.Pairwise.nil, fun early mark late empty => by simp at empty⟩

/-- An event of a longer trace is its last one or was there before. -/
theorem split_last (trace early late : List Event) (last event : Event)
    (split : trace ++ [last] = early ++ event :: late) :
    (trace = early ∧ last = event) ∨ ∃ shorter, trace = early ++ event :: shorter := by
  rcases List.eq_nil_or_concat late with rfl | ⟨shorter, other, rfl⟩
  · obtain ⟨start, ends⟩ := List.append_inj' split rfl
    exact Or.inl ⟨start, List.head_eq_of_cons_eq ends⟩
  · rw [List.concat_eq_append, ← List.cons_append, ← List.append_assoc] at split
    exact Or.inr ⟨shorter, (List.append_inj' split rfl).1⟩

theorem sound_wrote (trace : List Event) (bytes : Bytes) (sound : Sound trace) : Sound (trace ++ [.wrote bytes]) := by
  apply Sound.mk
  · rw [marks_append]
    simpa [marks] using sound.rising
  · intro early mark late split
    rcases split_last trace early late _ _ split with ⟨-, other⟩ | ⟨shorter, before⟩
    · cases other
    · exact sound.covered early mark shorter before

theorem sound_sent (trace : List Event) (mark : Nat) (sound : Sound trace) (above : ∀ m ∈ marks trace, m < mark)
    (below : mark ≤ handed trace) : Sound (trace ++ [.sent mark]) := by
  apply Sound.mk
  · rw [marks_append]
    apply List.pairwise_append.mpr
    exact ⟨sound.rising, List.pairwise_singleton _ _, fun m member last same => by
      rw [List.mem_singleton.mp same]
      exact above m member⟩
  · intro early other late split
    rcases split_last trace early late _ _ split with ⟨rfl, same⟩ | ⟨shorter, before⟩
    · cases same
      exact below
    · exact sound.covered early other shorter before

/-- What a loop that wrote and published so far keeps. -/
structure Loop.Good (loop : Loop) : Prop where
  sound : Sound loop.trace
  wrote : handed loop.trace = loop.written.length
  marked : ∀ mark ∈ marks loop.trace, mark ≤ loop.published
  reached : loop.published ≤ loop.written.length

theorem good_new : Loop.new.Good :=
  ⟨sound_nil, rfl, fun _ member => absurd member List.not_mem_nil, Nat.le_refl _⟩

theorem good_write (loop : Loop) (bytes : Bytes) (good : loop.Good) : (loop.write bytes).Good := by
  apply Loop.Good.mk
  · exact sound_wrote _ _ good.sound
  · rw [Loop.write, handed_append, good.wrote, List.length_append]
    simp [handed]
  · intro mark member
    rw [Loop.write, marks_append] at member
    exact good.marked mark (by simpa [marks] using member)
  · have reached := good.reached
    simp only [Loop.write, List.length_append]
    omega

theorem good_announce (loop : Loop) (good : loop.Good) (more : loop.published < loop.written.length) :
    loop.announce.Good := by
  have below (mark : Nat) (member : mark ∈ marks loop.trace) : mark < loop.written.length :=
    Nat.lt_of_le_of_lt (good.marked mark member) more
  apply Loop.Good.mk
  · exact sound_sent _ _ good.sound below (Nat.le_of_eq good.wrote.symm)
  · rw [Loop.announce, handed_append, good.wrote]
    simp [handed]
  · intro mark member
    rw [Loop.announce, marks_append] at member
    rcases List.mem_append.mp member with early | last
    · exact Nat.le_of_lt (below mark early)
    · have same : mark = loop.written.length := by simpa [marks] using last
      exact Nat.le_of_eq same
  · exact Nat.le_refl _

theorem good_publish (loop : Loop) (good : loop.Good) (some_ : loop.written ≠ []) : loop.publish.Good := by
  have positive := List.length_pos_of_ne_nil some_
  unfold Loop.publish
  split_ifs with due
  · apply good_announce loop good
    unfold publishInterval at due
    omega
  · exact good

theorem good_finish (loop : Loop) (good : loop.Good) : loop.finish.Good := by
  unfold Loop.finish
  split_ifs with more
  · exact good_announce loop good more
  · exact good

@[simp] theorem written_publish (loop : Loop) : loop.publish.written = loop.written := by
  unfold Loop.publish
  split_ifs <;> rfl

theorem good_pumpLoop (up : Upstream) (disk : Disk) (reads : Nat) (loop : Loop) (rest : Bytes) (good : loop.Good) :
    (pumpLoop up disk reads loop rest).1.Good := by
  induction reads, loop, rest using pumpLoop.induct up disk with
  | case1 reads loop rest full =>
    rw [pumpLoop, if_pos full]
    exact good
  | case2 reads loop room =>
    rw [pumpLoop, if_neg room, if_pos rfl]
    exact good
  | case3 reads loop rest room more fails =>
    rw [pumpLoop, if_neg room, if_neg more, if_pos fails]
    exact good
  | case4 reads loop rest room more works count ih =>
    rw [pumpLoop, if_neg room, if_neg more, if_neg works]
    apply ih
    apply good_publish _ (good_write _ _ good)
    have taken : rest.take count ≠ [] := by
      have positive : 0 < count := by omega
      have some_ := List.length_pos_of_ne_nil more
      apply List.ne_nil_of_length_pos
      rw [List.length_take]
      omega
    exact List.append_ne_nil_of_right_ne_nil _ taken

/-! The pull's own pump, without the temp file and the watermarks. -/

def Disk.fate (disk : Disk) : Fate :=
  ⟨none, true, disk.creates, disk.writes, disk.flushes, disk.syncs, disk.joins && disk.makesDirs && disk.renames⟩

theorem pumpLoop_reads (up : Upstream) (disk : Disk) (reads : Nat) (loop : Loop) (rest : Bytes) :
    pumpReads up disk.writes reads loop.written rest =
      match (pumpLoop up disk reads loop rest).2 with
      | none => .ok (pumpLoop up disk reads loop rest).1.written
      | some failure => .error failure := by
  induction reads, loop, rest using pumpLoop.induct up disk with
  | case1 reads loop rest full => rw [pumpReads, pumpLoop, if_pos full, if_pos full]
  | case2 reads loop room =>
    rw [pumpReads, pumpLoop, if_neg room, if_neg room, if_pos rfl, if_pos rfl]
    by_cases breaks : up.breaks = true
    · simp only [breaks, if_true]
    · simp only [breaks, if_false, Bool.false_eq_true]
  | case3 reads loop rest room more fails =>
    rw [pumpReads, pumpLoop, if_neg room, if_neg room, if_neg more, if_neg more, if_pos fails, if_pos fails]
  | case4 reads loop rest room more works count ih =>
    rw [pumpReads, pumpLoop, if_neg room, if_neg room, if_neg more, if_neg more, if_neg works, if_neg works]
    rw [written_publish] at ih
    exact ih

/-- What a pull installs is what the pump put at the final path, or its failure. -/
theorem pumpAndSeal_pull (up : Upstream) (disk : Disk) (place : Place) (key : Text) (files : Files) :
    Pulls.pumpAndSeal up disk.fate key files =
      match (pumpAndSeal up disk (isMetaStorePath key) place).failure with
      | none => .ok (((pumpAndSeal up disk (isMetaStorePath key) place).place.dest).getD [],
          files.insert key (((pumpAndSeal up disk (isMetaStorePath key) place).place.dest).getD []))
      | some failure => .error failure := by
  have loops := pumpLoop_reads up disk 0 .new up.data
  change pumpReads up disk.fate.writes 0 [] up.data = _ at loops
  unfold Pulls.pumpAndSeal pumpAndSeal
  change (if disk.creates = false then _ else _) = _
  by_cases creates : disk.creates = false
  · rw [if_pos creates, if_pos creates]
  rw [if_neg creates, if_neg creates, loops]
  rcases pumpLoop up disk 0 .new up.data with ⟨loop, _ | failure⟩
  · simp only
    change (if _ then _ else if disk.flushes = false then _ else if disk.syncs = false then _ else
      if isMetaStorePath key = true ∨ (disk.joins && disk.makesDirs && disk.renames) = false then _ else _) = _
    by_cases short : up.promisedLen.any (loop.written.length < ·) = true
    · rw [if_pos short, if_pos short]
    rw [if_neg short, if_neg short]
    by_cases flushes : disk.flushes = false
    · rw [if_pos flushes, if_pos flushes]
    rw [if_neg flushes, if_neg flushes]
    by_cases syncs : disk.syncs = false
    · rw [if_pos syncs, if_pos syncs]
    rw [if_neg syncs, if_neg syncs]
    unfold installTmp
    cases disk.joins <;> cases isMetaStorePath key <;> cases disk.makesDirs <;> cases disk.renames <;> rfl
  · rfl

/-! How far the reads get. -/

theorem taken_le (up : Upstream) (reads : Nat) : taken up reads ≤ goal up := by
  cases reads with
  | zero => exact Nat.zero_le _
  | succ reads => exact Nat.min_le_left _ _

theorem taken_mono (up : Upstream) {reads later : Nat} (order : reads ≤ later) : taken up reads ≤ taken up later := by
  induction later, order using Nat.le_induction with
  | base => exact Nat.le_refl _
  | succ later order ih =>
    have below := taken_le up reads
    rw [taken]
    omega

/-- The loop is left without a failure when the stream does not break and no write
fails before everything is there. -/
theorem pumpLoop_none_iff (up : Upstream) (disk : Disk) (reads : Nat) (loop : Loop) (rest : Bytes)
    (sofar : loop.written.length = taken up reads) (left : rest.length = up.data.length - taken up reads) :
    (pumpLoop up disk reads loop rest).2 = none ↔
      (up.breaks = true → up.promisedLen.any (· ≤ up.data.length) = true) ∧
        ∀ later, reads ≤ later → taken up later < goal up → disk.writes later = true := by
  have most := taken_le up reads
  induction reads, loop, rest using pumpLoop.induct up disk with
  | case1 reads loop rest full =>
    rw [pumpLoop, if_pos full]
    cases promised : up.promisedLen with
    | none => simp [allow, promised, chunkSize] at full
    | some expected =>
      simp only [goal, allow, promised, Option.map_some, Option.getD_some, chunkSize] at full most
      simp only [Option.any_some, decide_eq_true_eq, true_iff]
      refine ⟨fun _ => by omega, fun later order short => ?_⟩
      have further := taken_mono up order
      simp only [goal, promised, Option.getD_some] at short
      omega
  | case2 reads loop room =>
    rw [pumpLoop, if_neg room, if_pos rfl]
    rw [List.length_nil] at left
    have all : goal up = up.data.length := by
      have below : goal up ≤ up.data.length := Nat.min_le_right _ _
      omega
    have none_ : up.promisedLen.any (· ≤ up.data.length) = false := by
      cases promised : up.promisedLen with
      | none => rfl
      | some expected =>
        simp only [allow, promised, Option.map_some, Option.getD_some] at room
        simp only [Option.any_some, decide_eq_false_iff_not]
        omega
    have done (later : Nat) (order : reads ≤ later) : ¬ taken up later < goal up := by
      have further := taken_mono up order
      omega
    rw [none_]
    by_cases breaks : up.breaks = true
    · simp [breaks]
    · simp only [breaks, if_false, false_imp_iff, true_and, true_iff, Bool.false_eq_true]
      exact fun later order short => absurd short (done later order)
  | case3 reads loop rest room more fails =>
    rw [pumpLoop, if_neg room, if_neg more, if_pos fails]
    have positive := List.length_pos_of_ne_nil more
    have short : taken up reads < goal up := by
      unfold goal at most ⊢
      cases promised : up.promisedLen with
      | none => simp only [Option.getD_none]; omega
      | some expected =>
        simp only [allow, promised, Option.map_some, Option.getD_some] at room
        simp only [Option.getD_some]
        omega
    simp only [reduceCtorEq, false_iff, not_and]
    intro _ works
    rw [works reads (Nat.le_refl _) short] at fails
    cases fails
  | case4 reads loop rest room more works count ih =>
    rw [pumpLoop, if_neg room, if_neg more, if_neg works]
    have next : taken up (reads + 1) = taken up reads + min count rest.length := by
      rw [taken]
      unfold goal at most ⊢
      change _ = taken up reads + min (min (up.sizes reads + 1) (allow up.promisedLen loop.written.length)) rest.length
      cases promised : up.promisedLen with
      | none =>
        simp only [promised, allow, Option.map_none, Option.getD_none] at most ⊢
        generalize chunkSize = chunk
        omega
      | some expected =>
        simp only [promised, allow, Option.map_some, Option.getD_some] at most ⊢
        generalize chunkSize = chunk
        omega
    have written : (loop.write (rest.take count)).publish.written.length = taken up (reads + 1) := by
      rw [written_publish, Loop.write, List.length_append, List.length_take]
      omega
    have dropped : (rest.drop count).length = up.data.length - taken up (reads + 1) := by
      rw [List.length_drop]
      omega
    apply (ih written dropped (taken_le _ _)).trans
    apply and_congr_right
    intro _
    constructor
    · intro rest_ later order short
      rcases Nat.eq_or_lt_of_le order with rfl | after
      · exact Bool.not_eq_false _ ▸ works
      · exact rest_ later after short
    · exact fun all later order short => all later (Nat.le_of_succ_le order) short

theorem pumpLoop_written (up : Upstream) (disk : Disk) (quiet : (pumpLoop up disk 0 .new up.data).2 = none) :
    (pumpLoop up disk 0 .new up.data).1.written = up.data.take (up.promisedLen.getD up.data.length) := by
  have reads := pumpLoop_reads up disk 0 .new up.data
  rw [quiet] at reads
  have written := pumpReads_written up disk.writes 0 [] up.data _ reads
  rw [written, List.nil_append]
  cases up.promisedLen <;> rfl

theorem arrives_iff (up : Upstream) (disk : Disk) :
    Arrives up disk ↔ (pumpLoop up disk 0 .new up.data).2 = none ∧
      up.promisedLen.any (min (up.promisedLen.getD up.data.length) up.data.length < ·) = false ∧
      disk.flushes = true ∧ disk.syncs = true := by
  have quiet := pumpLoop_none_iff up disk 0 .new up.data rfl rfl
  have sent : keepsPromise up = true ↔
      (up.breaks = true → up.promisedLen.any (· ≤ up.data.length) = true) ∧
        up.promisedLen.any (min (up.promisedLen.getD up.data.length) up.data.length < ·) = false := by
    unfold keepsPromise
    cases up.promisedLen with
    | none => simp
    | some expected =>
      simp only [Option.elim_some, Option.any_some, Option.getD_some, decide_eq_true_eq, decide_eq_false_iff_not]
      omega
  rw [quiet]
  constructor
  · intro arrives
    have kept := sent.mp arrives.sent
    exact ⟨⟨kept.1, fun later _ => arrives.writes later⟩, kept.2, arrives.flushes, arrives.syncs⟩
  · intro parts
    exact ⟨sent.mpr ⟨parts.1.1, parts.2.1⟩, fun reads => parts.1.2 reads (Nat.zero_le _), parts.2.2.1, parts.2.2.2⟩

theorem pumpLoop_failure (up : Upstream) (disk : Disk) (reads : Nat) (loop : Loop) (rest : Bytes) (failure : Failure)
    (failed : (pumpLoop up disk reads loop rest).2 = some failure) : failure ≠ .createTmp := by
  induction reads, loop, rest using pumpLoop.induct up disk with
  | case1 reads loop rest full =>
    rw [pumpLoop, if_pos full] at failed
    cases failed
  | case2 reads loop room =>
    rw [pumpLoop, if_neg room, if_pos rfl] at failed
    split_ifs at failed
    cases failed
    decide
  | case3 reads loop rest room more fails =>
    rw [pumpLoop, if_neg room, if_neg more, if_pos fails] at failed
    cases failed
    decide
  | case4 reads loop rest room more works count ih =>
    rw [pumpLoop, if_neg room, if_neg more, if_neg works] at failed
    exact ih failed

/-- Every way out of the pump, once the temp file is there. -/
theorem pumpAndSeal_exits (up : Upstream) (disk : Disk) (metaStore : Bool) (place : Place)
    (creates : disk.creates = true) :
    (Arrives up disk ∧ ∃ trace, pumpAndSeal up disk metaStore place =
      let filled : Place := ⟨some (up.data.take (up.promisedLen.getD up.data.length)), place.dest⟩
      if disk.joins = false then ⟨filled, trace, some .installTmp⟩
      else ⟨(installTmp disk metaStore filled).1, trace, (installTmp disk metaStore filled).2⟩) ∨
    (¬ Arrives up disk ∧ ∃ bytes trace failure, failure ≠ .createTmp ∧
      pumpAndSeal up disk metaStore place = ⟨failCleanup disk ⟨some bytes, place.dest⟩, trace, some failure⟩) := by
  have arrives := arrives_iff up disk
  have written := pumpLoop_written up disk
  have other := pumpLoop_failure up disk 0 .new up.data
  unfold pumpAndSeal
  rw [if_neg (by rw [creates]; decide)]
  generalize pumpLoop up disk 0 .new up.data = looped at arrives written other ⊢
  obtain ⟨loop, ended⟩ := looped
  cases ended with
  | none =>
    have whole := written rfl
    simp only at whole arrives ⊢
    rw [whole, List.length_take]
    by_cases short : up.promisedLen.any (min (up.promisedLen.getD up.data.length) up.data.length < ·) = true
    · rw [if_pos short]
      refine Or.inr ⟨fun there => ?_, _, _, _, fun same => ?_, rfl⟩
      · rw [(arrives.mp there).2.1] at short
        cases short
      · cases same
    rw [if_neg short]
    by_cases flushes : disk.flushes = false
    · rw [if_pos flushes]
      refine Or.inr ⟨fun there => ?_, _, _, .flushTmp, by decide, rfl⟩
      rw [there.flushes] at flushes
      cases flushes
    rw [if_neg flushes]
    by_cases syncs : disk.syncs = false
    · rw [if_pos syncs]
      refine Or.inr ⟨fun there => ?_, _, _, .syncTmp, by decide, rfl⟩
      rw [there.syncs] at syncs
      cases syncs
    rw [if_neg syncs]
    simp only [Bool.not_eq_true, Bool.not_eq_false] at short flushes syncs
    exact Or.inl ⟨arrives.mpr ⟨trivial, short, flushes, syncs⟩, _, rfl⟩
  | some failure =>
    refine Or.inr ⟨fun there => ?_, _, _, failure, other failure rfl, rfl⟩
    cases (arrives.mp there).1

theorem sound_pumpAndSeal (up : Upstream) (disk : Disk) (metaStore : Bool) (place : Place) :
    Sound (pumpAndSeal up disk metaStore place).trace := by
  have good := good_pumpLoop up disk 0 .new up.data good_new
  unfold pumpAndSeal
  by_cases creates : disk.creates = false
  · rw [if_pos creates]
    exact sound_nil
  rw [if_neg creates]
  generalize pumpLoop up disk 0 .new up.data = looped at good ⊢
  obtain ⟨loop, ended⟩ := looped
  cases ended with
  | none =>
    have announced := (good_finish loop good).sound
    simp only
    split_ifs <;> exact announced
  | some failure => exact good.sound

theorem installed (disk : Disk) (metaStore : Bool) (filled : Place) (installs : Installs disk metaStore) :
    disk.joins = true ∧ installTmp disk metaStore filled = (⟨none, filled.tmp⟩, none) := by
  unfold installTmp
  simp [installs.joins, installs.object, installs.makesDirs, installs.renames]

theorem not_installed (disk : Disk) (metaStore : Bool) (filled : Place) (fails : ¬ Installs disk metaStore)
    (joins : disk.joins = true) : installTmp disk metaStore filled = (filled, some .installTmp) := by
  unfold installTmp
  split_ifs with guarded dirs renames
  · rfl
  · rfl
  · rfl
  · exact absurd ⟨joins, by simpa using guarded, by simpa using dirs, by simpa using renames⟩ fails

/-- Everything works but one parent of the final path is a file. -/
def blocked : Disk := ⟨true, fun _ => true, true, true, true, false, true, true⟩

end OriginCache.Cache.Watermarks
