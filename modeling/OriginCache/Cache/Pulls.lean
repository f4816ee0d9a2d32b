import OriginCache.Cache.DiskHit

/-! One whole-file pull from its start to its install. Three lengths meet here: the
size the stat reported, the length the response promised, and the bytes the
upstream really sent. -/

namespace OriginCache.Cache.Pulls
open Foundation.Slices Foundation.Tables SegName Meta Magazine DiskHit
open Store (Bytes)
open Ranged (chunkSize)

def diskReserveBytes : Nat := 512 * 1024 * 1024

inductive Failure
  | insufficientSpace | openFailed
  | createTmp | readStream | writeTmp | shortRead (got expected : Nat) | flushTmp | syncTmp | installTmp
deriving DecidableEq, Repr

/-- What the upstream does with one request: the length its response promises, the
bytes it sends before it ends or breaks, and how many of them a read returns. -/
structure Upstream where
  promisedLen : Option Nat
  data : Bytes
  breaks : Bool
  sizes : Nat → Nat

/-- What the local disk does meanwhile. -/
structure Fate where
  freeBytes : Option Nat
  opens : Bool
  creates : Bool
  writes : Nat → Bool
  flushes : Bool
  syncs : Bool
  renames : Bool

/-- Unknown free space does not block a pull. -/
def hasRoomFor (free : Option Nat) (want reserve : Nat) : Bool :=
  free.all fun bytes => want ≤ bytes - reserve

/-- How many bytes the next read may take off the stream. -/
def allow (promisedLen : Option Nat) (written : Nat) : Nat :=
  (promisedLen.map fun expected => min (expected - written) chunkSize).getD chunkSize

/-- The loop of `pump_and_seal`, at its read number `reads`. -/
def pumpReads (up : Upstream) (writes : Nat → Bool) (reads : Nat) (written rest : Bytes) :
    Except Failure Bytes :=
  if allow up.promisedLen written.length = 0 then .ok written
  else if rest = [] then if up.breaks then .error .readStream else .ok written
  else if writes reads = false then .error .writeTmp
  else
    let count := min (up.sizes reads + 1) (allow up.promisedLen written.length)
    pumpReads up writes (reads + 1) (written ++ rest.take count) (rest.drop count)
termination_by rest.length
decreasing_by
  have positive : 0 < rest.length := List.length_pos_of_ne_nil ‹rest ≠ []›
  rw [List.length_drop]
  omega

/-- The sealed bytes, renamed over the key's file. -/
def pumpAndSeal (up : Upstream) (fate : Fate) (key : Text) (files : Files) : Except Failure (Bytes × Files) :=
  if fate.creates = false then .error .createTmp
  else
    match pumpReads up fate.writes 0 [] up.data with
    | .error failure => .error failure
    | .ok written =>
        if up.promisedLen.any (written.length < ·) then
          .error (.shortRead written.length (up.promisedLen.getD 0))
        else if fate.flushes = false then .error .flushTmp
        else if fate.syncs = false then .error .syncTmp
        else if isMetaStorePath key ∨ fate.renames = false then .error .installTmp
        else .ok (written, files.insert key written)

/-- The request a driver works on. -/
structure ColdPull where
  entryKey : Text
  upstreamId : Text
  objectMeta : ObjectMeta
  oversize : Bool
deriving DecidableEq, Repr

/-- What a finished pull left: the file it sealed and the row it installed. -/
structure Installed where
  file : Bytes
  entry : EntryMeta
deriving DecidableEq, Repr

/-- The files of evicted rows go after the row is written. -/
def deleteFiles (files : Files) (victims : List (Text × Nat)) : Files :=
  victims.foldl (fun files victim => remove files victim.1) files

def driveFlight (config : Config) (cache : CacheState) (files : Files) (pull : ColdPull) (up : Upstream)
    (fate : Fate) (now : Nat) (spared : List Text) : CacheState × Files × Except Failure Installed :=
  if hasRoomFor fate.freeBytes pull.objectMeta.sizeBytes diskReserveBytes = false then
    (cache, files, .error .insufficientSpace)
  else if fate.opens = false then (cache, files, .error .openFailed)
  else
    match pumpAndSeal up fate pull.entryKey files with
    | .error failure => (cache, files, .error failure)
    | .ok (written, sealedFiles) =>
        let pending := readInstall cache pull.entryKey pull.upstreamId pull.objectMeta now pull.oversize
        let picked := evictPick (writeInstall cache pending) config spared
        (picked.1, deleteFiles sealedFiles picked.2, .ok ⟨written, pending.entry⟩)

/-! What a hit makes of a row and its file. -/

/-- The file has the row's size, so every range a hit promises is there, and the
whole object is the whole file. -/
structure KeepsLength (entry : EntryMeta) (file : Bytes) : Prop where
  exact : file.length = entry.sizeBytes
  delivers : ∀ range offset stop, resolveRange range entry.sizeBytes = some (offset, stop) →
    (slice file offset (stop - offset)).length = stop - offset
  shows : ∀ offset stop, resolveRange none entry.sizeBytes = some (offset, stop) →
    slice file offset (stop - offset) = file

theorem keepsLength_of_exact (entry : EntryMeta) (file : Bytes) (exact_ : file.length = entry.sizeBytes) :
    KeepsLength entry file := by
  apply KeepsLength.mk exact_
  · intro range offset stop resolved
    have below : stop ≤ entry.sizeBytes := by
      unfold resolveRange at resolved
      split at resolved
      · cases resolved
        exact Nat.le_refl _
      · split_ifs at resolved
        cases resolved
        next r _ =>
          cases r.length with
          | none => exact Nat.le_refl _
          | some l => exact Nat.min_le_right _ _
    rw [length_slice]
    omega
  · intro offset stop resolved
    cases resolved
    rw [slice, List.drop_zero, Nat.sub_zero, List.take_of_length_le (Nat.le_of_eq exact_)]

/-! The pump. -/

/-- How much of its data an upstream gets to send. -/
def delivered (up : Upstream) : Nat := up.promisedLen.getD up.data.length

/-- Taking some and then the rest of a number. -/
theorem take_rest (rest : Bytes) (count most : Nat) (fewer : count ≤ most) :
    rest.take count ++ (rest.drop count).take (most - (rest.take count).length) = rest.take most := by
  rw [List.length_take]
  by_cases long : count ≤ rest.length
  · have split : most = count + (most - count) := by omega
    rw [Nat.min_eq_left long]
    conv_rhs => rw [split]
    rw [List.take_add]
  · have short : rest.length ≤ count := by omega
    rw [List.drop_eq_nil_of_le short, List.take_nil, List.append_nil, List.take_of_length_le short,
      List.take_of_length_le (Nat.le_trans short fewer)]

/-- The loop takes what was promised off the stream, or all of it, whatever the
reads return. -/
theorem pumpReads_written (up : Upstream) (writes : Nat → Bool) (reads : Nat) (written rest out : Bytes)
    (pumped : pumpReads up writes reads written rest = .ok out) :
    out = written ++ rest.take ((up.promisedLen.map (· - written.length)).getD rest.length) := by
  induction reads, written, rest using pumpReads.induct up writes with
  | case1 reads written rest full =>
    rw [pumpReads, if_pos full] at pumped
    rw [← Except.ok.inj pumped]
    cases promised : up.promisedLen with
    | none => simp [allow, promised, chunkSize] at full
    | some expected =>
      have none_left : expected - written.length = 0 := by
        simp only [allow, promised, Option.map_some, Option.getD_some, chunkSize] at full
        omega
      simp [none_left]
  | case2 reads written room breaks =>
    rw [pumpReads, if_neg room, if_pos rfl, if_pos breaks] at pumped
    cases pumped
  | case3 reads written room ends =>
    rw [pumpReads, if_neg room, if_pos rfl, if_neg ends] at pumped
    cases pumped
    simp
  | case4 reads written rest room more fails =>
    rw [pumpReads, if_neg room, if_neg more, if_pos fails] at pumped
    cases pumped
  | case5 reads written rest room more works count ih =>
    rw [pumpReads, if_neg room, if_neg more, if_neg works] at pumped
    have later := ih pumped
    rw [later, List.append_assoc]
    congr 1
    cases promised : up.promisedLen with
    | none =>
      simp only [Option.map_none, Option.getD_none]
      rw [List.take_of_length_le (Nat.le_refl _), List.take_append_drop, List.take_of_length_le (Nat.le_refl _)]
    | some expected =>
      simp only [Option.map_some, Option.getD_some, List.length_append]
      have within : count ≤ expected - written.length := by
        have below : count ≤ allow up.promisedLen written.length := Nat.min_le_right _ _
        simp only [allow, promised, Option.map_some, Option.getD_some] at below
        omega
      rw [← take_rest rest count _ within, Nat.sub_add_eq]

/-- A sealed file has the promised length, or all the upstream sent. -/
theorem pumpAndSeal_length (up : Upstream) (fate : Fate) (key : Text) (files sealedFiles : Files)
    (written : Bytes) (pumped : pumpAndSeal up fate key files = .ok (written, sealedFiles)) :
    written.length = delivered up ∧ sealedFiles = files.insert key written := by
  unfold pumpAndSeal at pumped
  by_cases creates : fate.creates = false
  · rw [if_pos creates] at pumped
    cases pumped
  rw [if_neg creates] at pumped
  cases loop : pumpReads up fate.writes 0 [] up.data with
  | error failure =>
    rw [loop] at pumped
    cases pumped
  | ok out =>
    rw [loop] at pumped
    simp only at pumped
    split_ifs at pumped with short
    cases pumped
    refine ⟨?_, rfl⟩
    have taken := pumpReads_written up fate.writes 0 [] up.data written loop
    simp only [List.nil_append, List.length_nil, Nat.sub_zero] at taken
    unfold delivered
    cases promised : up.promisedLen with
    | none =>
      rw [taken, promised]
      simp
    | some expected =>
      rw [promised] at short taken
      simp only [Option.any_some, decide_eq_true_eq] at short
      have most : written.length ≤ expected := by
        rw [taken]
        exact List.length_take_le _ _
      simp only [Option.getD_some]
      omega

theorem lookup_deleteFiles (files : Files) (victims : List (Text × Nat)) (key : Text) (bytes : Bytes)
    (found : (deleteFiles files victims).lookup key = some bytes) : files.lookup key = some bytes := by
  induction victims generalizing files with
  | nil => exact found
  | cons victim victims ih => exact filesFrom_remove files victim.1 key bytes (ih _ found)

/-- A pull that installs a row leaves a file of the row's size exactly when what its
upstream promised, or sent without a promise, is the size the stat reported. What
is then found under the key is that row and that file. -/
theorem installed_length_iff (config : Config) (cache after : CacheState) (files afterFiles : Files)
    (pull : ColdPull) (up : Upstream) (fate : Fate) (now : Nat) (spared : List Text) (out : Installed)
    (driven : driveFlight config cache files pull up fate now spared = (after, afterFiles, .ok out)) :
    (KeepsLength out.entry out.file ↔ delivered up = pull.objectMeta.sizeBytes) ∧
      (∀ m, after.entries.lookup pull.entryKey = some m → m = out.entry) ∧
      ∀ bytes, afterFiles.lookup pull.entryKey = some bytes → bytes = out.file := by
  unfold driveFlight at driven
  by_cases room : hasRoomFor fate.freeBytes pull.objectMeta.sizeBytes diskReserveBytes = false
  · rw [if_pos room] at driven
    cases driven
  rw [if_neg room] at driven
  by_cases opens : fate.opens = false
  · rw [if_pos opens] at driven
    cases driven
  rw [if_neg opens] at driven
  cases pumped : pumpAndSeal up fate pull.entryKey files with
  | error failure =>
    rw [pumped] at driven
    cases driven
  | ok result =>
    obtain ⟨written, sealedFiles⟩ := result
    rw [pumped] at driven
    cases driven
    have length := pumpAndSeal_length up fate pull.entryKey files sealedFiles written pumped
    refine ⟨⟨fun keeps => ?_, fun same => ?_⟩, ?_, ?_⟩
    · rw [← length.1]
      exact keeps.exact
    · apply keepsLength_of_exact
      rw [length.1]
      exact same
    · intro m found
      have kept := fewer_evictPick _ config spared _ m found
      cases lookup_insert_some _ _ _ _ m kept with
      | inl new => exact new.2
      | inr other => exact (other.1 rfl).elim
    · intro bytes found
      have kept := lookup_deleteFiles _ _ _ bytes found
      rw [length.2, AList.lookup_insert] at kept
      exact (Option.some.inj kept).symm

/-- A stat of five bytes. -/
def fiveBytes : ColdPull := ⟨['a'], ['p'], ⟨5, none, none, none⟩, false⟩

def luck : Fate := ⟨none, true, true, fun _ => true, true, true, true⟩

def generous : Config := ⟨1000, 0, 60, 60⟩

/-- Five bytes are promised and seven would come. -/
def excess : Upstream := ⟨some 5, [1, 2, 3, 4, 5, 6, 7], false, fun _ => 1⟩

/-- Whatever a pull that ends well returns is the outcome it is driven to. -/
theorem exists_driven (config : Config) (cache : CacheState) (files : Files) (pull : ColdPull) (up : Upstream)
    (fate : Fate) (now : Nat) (spared : List Text) (out : Installed)
    (outcome : (driveFlight config cache files pull up fate now spared).2.2.toOption = some out) :
    ∃ after afterFiles, driveFlight config cache files pull up fate now spared = (after, afterFiles, .ok out) := by
  generalize driven : driveFlight config cache files pull up fate now spared = result at outcome
  obtain ⟨after, afterFiles, ended⟩ := result
  match ended, outcome with
  | .ok _, rfl => exact ⟨after, afterFiles, rfl⟩

theorem excess_keepsLength : ∃ after afterFiles out,
    driveFlight generous ⟨∅, 0⟩ ∅ fiveBytes excess luck 7 [] = (after, afterFiles, .ok out) ∧
      KeepsLength out.entry out.file := by
  have installs : (driveFlight generous ⟨∅, 0⟩ ∅ fiveBytes excess luck 7 []).2.2.toOption.isSome = true := by
    decide +kernel
  obtain ⟨out, outcome⟩ := Option.isSome_iff_exists.mp installs
  obtain ⟨after, afterFiles, driven⟩ := exists_driven _ _ _ _ _ _ _ _ out outcome
  exact ⟨after, afterFiles, out, driven,
    (installed_length_iff generous _ after _ afterFiles fiveBytes excess luck 7 [] out driven).1.mpr rfl⟩

/-- A response without a length that sends three bytes of the five. -/
def unpromised : Upstream := ⟨none, [1, 2, 3], false, fun _ => 1⟩

/-- The row says five bytes, a hit promises five, and the file has three. -/
theorem unpromised_short : ∃ after afterFiles out,
    driveFlight generous ⟨∅, 0⟩ ∅ fiveBytes unpromised luck 7 [] = (after, afterFiles, .ok out) ∧
      out.file = [1, 2, 3] ∧ resolveRange none out.entry.sizeBytes = some (0, 5) ∧
      after.entries.lookup ['a'] = some out.entry ∧ afterFiles.lookup ['a'] = some out.file ∧
      ¬ KeepsLength out.entry out.file := by
  have installs : (driveFlight generous ⟨∅, 0⟩ ∅ fiveBytes unpromised luck 7 []).2.2.toOption =
      some ⟨[1, 2, 3], (readInstall ⟨∅, 0⟩ ['a'] ['p'] fiveBytes.objectMeta 7 false).entry⟩ := by
    decide +kernel
  have row : (driveFlight generous ⟨∅, 0⟩ ∅ fiveBytes unpromised luck 7 []).1.entries.lookup ['a'] =
      some (readInstall ⟨∅, 0⟩ ['a'] ['p'] fiveBytes.objectMeta 7 false).entry := by
    decide +kernel
  have file : (driveFlight generous ⟨∅, 0⟩ ∅ fiveBytes unpromised luck 7 []).2.1.lookup ['a'] =
      some [1, 2, 3] := by
    decide +kernel
  obtain ⟨after, afterFiles, driven⟩ := exists_driven _ _ _ _ _ _ _ _ _ installs
  rw [driven] at row file
  refine ⟨after, afterFiles, _, driven, rfl, rfl, row, file, fun keeps => ?_⟩
  have fewer : (3 : Nat) = 5 := keeps.exact
  omega

end OriginCache.Cache.Pulls
