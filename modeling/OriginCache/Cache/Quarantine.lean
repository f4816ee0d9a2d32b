import OriginCache.Cache.Key
import OriginCache.Foundation.Runs
import OriginCache.Foundation.Tables

/-! The opening of the metadata store over any number of boots. A store that does not
open is moved aside under a name of its own, and no later boot and no file of the cache
takes that name. -/

namespace OriginCache.Cache.Quarantine
open Foundation.Splits Foundation.Tables Foundation.Runs
open SegName Key

/-- What stands at a name of the cache directory. -/
inductive Node
  | file (bytes : List UInt8) | folder
deriving DecidableEq, Repr

abbrev Dir := Table Text Node

inductive StoreState
  | ready | quarantined (movedTo : Text)
deriving DecidableEq, Repr

/-- `path.with_extension("db.corrupt-...")` of the store. -/
def corruptName (stamp : Nat) : Text :=
  metaStoreFile ++ ['.', 'c', 'o', 'r', 'r', 'u', 'p', 't', '-'] ++ numeral stamp

def nextName (stamp n : Nat) : Text := corruptName stamp ++ '-' :: numeral n

/-- The first name from `n` on that nothing stands at; the counter ends after `fuel` names. -/
@[grind =] def firstFree (dir : Dir) (name : Nat → Text) (n : Nat) : Nat → Option Text
  | 0 => none
  | fuel + 1 => if name n ∈ dir then firstFree dir name (n + 1) fuel else some (name n)

/-- The values of a `u32` from 2 on. -/
def counted : Nat := 2 ^ 32 - 2

def quarantinePath (dir : Dir) (stamp : Nat) : Option Text :=
  if corruptName stamp ∈ dir then firstFree dir (nextName stamp) 2 counted else some (corruptName stamp)

/-- What the system calls of one opening answer. -/
structure Calls where
  creates : Bool
  renames : Bool
  removes : Bool
  recreates : Bool

section Opening
variable (accepts : List UInt8 → Bool) (fresh : List UInt8)

/-- `redb::Database::create`: a new file, or one that the database accepts. -/
def create (able : Bool) (dir : Dir) : Option Dir :=
  match able, dir.lookup metaStoreFile with
  | false, _ => none
  | true, none => some (dir.insert metaStoreFile (.file fresh))
  | true, some (.file bytes) => if accepts bytes then some dir else none
  | true, some .folder => none

def rename (dir : Dir) (aside : Text) : Dir :=
  match dir.lookup metaStoreFile with
  | some node => (dir.erase metaStoreFile).insert aside node
  | none => dir

/-- A directory in the place of the store is removed. -/
def clearFolder (removes : Bool) (dir : Dir) : Dir :=
  if removes ∧ dir.lookup metaStoreFile = some .folder then dir.erase metaStoreFile else dir

/-- `shared_db` with an empty registry; without a state the opening fails. -/
def sharedDb (calls : Calls) (stamp : Nat) (dir : Dir) : Option StoreState × Dir :=
  match create accepts fresh calls.creates dir with
  | some opened => (some .ready, opened)
  | none =>
      match quarantinePath dir stamp with
      | none => (none, dir)
      | some aside =>
          let cleared := clearFolder calls.removes (if calls.renames then rename dir aside else dir)
          match create accepts fresh calls.recreates cleared with
          | none => (none, cleared)
          | some opened => (some (.quarantined (if aside ∈ opened then aside else [])), opened)

end Opening

/-! Names. -/

theorem corruptName_meta (stamp : Nat) : isMetaStoreName (corruptName stamp) = true := by
  rw [isMetaStoreName, List.isPrefixOf_iff_prefix, corruptName, List.append_assoc]
  exact List.prefix_append _ _

theorem nextName_meta (stamp n : Nat) : isMetaStoreName (nextName stamp n) = true := by
  have first := corruptName_meta stamp
  rw [isMetaStoreName, List.isPrefixOf_iff_prefix] at first ⊢
  exact first.trans (List.prefix_append _ _)

theorem length_corruptName (stamp : Nat) : metaStoreFile.length < (corruptName stamp).length := by
  rw [corruptName, List.length_append, List.length_append]
  simp only [List.length_cons, List.length_nil]
  omega

theorem corruptName_ne (stamp : Nat) : corruptName stamp ≠ metaStoreFile := fun same =>
  Nat.ne_of_gt (length_corruptName stamp) (congrArg List.length same)

theorem nextName_ne (stamp n : Nat) : nextName stamp n ≠ metaStoreFile := by
  intro same
  have longer := length_corruptName stamp
  have equal := congrArg List.length same
  rw [nextName, List.length_append] at equal
  omega

theorem nextName_injective (stamp : Nat) : Function.Injective (nextName stamp) := by
  intro a b same
  exact numeral_injective (List.tail_eq_of_cons_eq (List.append_cancel_left same))

theorem firstFree_free (dir : Dir) (name : Nat → Text) (n fuel : Nat) (found : Text)
    (free : firstFree dir name n fuel = some found) : found ∉ dir ∧ ∃ k, found = name k := by
  induction fuel generalizing n with
  | zero => cases free
  | succ fuel ih =>
    rw [firstFree] at free
    split_ifs at free with taken
    · exact ih (n + 1) free
    · cases free
      exact ⟨taken, n, rfl⟩

theorem firstFree_none (dir : Dir) (name : Nat → Text) (n fuel : Nat) (full : firstFree dir name n fuel = none) :
    ∀ k, n ≤ k → k < n + fuel → name k ∈ dir := by
  induction fuel generalizing n with
  | zero =>
    intro k low high
    omega
  | succ fuel ih =>
    rw [firstFree] at full
    split_ifs at full with taken
    intro k low high
    by_cases first : k = n
    · exact first ▸ taken
    · exact ih (n + 1) full k (by omega) (by omega)

/-- Fewer names than the counter can count leave one free. -/
theorem quarantinePath_some (dir : Dir) (stamp : Nat) (few : dir.keys.length < counted) :
    ∃ aside, quarantinePath dir stamp = some aside := by
  unfold quarantinePath
  split_ifs with taken
  · cases found : firstFree dir (nextName stamp) 2 counted with
    | some aside => exact ⟨aside, rfl⟩
    | none =>
      have all := firstFree_none dir (nextName stamp) 2 counted found
      have inside : ((List.range' 2 counted).map (nextName stamp)) ⊆ dir.keys := by
        intro name member
        obtain ⟨k, bounds, rfl⟩ := List.mem_map.mp member
        rw [List.mem_range'_1] at bounds
        exact AList.mem_keys.mp (all k bounds.1 bounds.2)
      have distinct : ((List.range' 2 counted).map (nextName stamp)).Nodup :=
        List.Nodup.map (nextName_injective stamp) List.nodup_range'
      have count := (List.subperm_of_subset distinct inside).length_le
      rw [List.length_map, List.length_range'] at count
      omega
  · exact ⟨_, rfl⟩

theorem quarantinePath_free (dir : Dir) (stamp : Nat) (aside : Text) (found : quarantinePath dir stamp = some aside) :
    aside ∉ dir ∧ isMetaStoreName aside = true ∧ aside ≠ metaStoreFile := by
  unfold quarantinePath at found
  split_ifs at found with taken
  · obtain ⟨free, k, rfl⟩ := firstFree_free dir _ 2 counted aside found
    exact ⟨free, nextName_meta stamp k, nextName_ne stamp k⟩
  · cases found
    exact ⟨taken, corruptName_meta stamp, corruptName_ne stamp⟩

/-! One opening. -/

section Opened
variable {accepts : List UInt8 → Bool} {fresh : List UInt8} {dir after : Dir}

/-- What an opening database leaves: the file it accepts, or a new one and all the rest. -/
theorem create_some {able : Bool} (opened : create accepts fresh able dir = some after) :
    (after = dir ∧ ∃ bytes, dir.lookup metaStoreFile = some (.file bytes) ∧ accepts bytes = true) ∨
      (dir.lookup metaStoreFile = none ∧ after = dir.insert metaStoreFile (.file fresh)) := by
  unfold create at opened
  split at opened
  · cases opened
  · next absent =>
    cases opened
    exact .inr ⟨absent, rfl⟩
  · next bytes found =>
    split_ifs at opened with fine
    cases opened
    exact .inl ⟨rfl, bytes, found, fine⟩
  · cases opened

theorem create_keeps {able : Bool} (opened : create accepts fresh able dir = some after) (name : Text) (node : Node)
    (found : dir.lookup name = some node) : after.lookup name = some node := by
  rcases create_some opened with ⟨rfl, _⟩ | ⟨absent, rfl⟩
  · exact found
  · have other : name ≠ metaStoreFile := by
      intro same
      rw [same, absent] at found
      cases found
    rw [AList.lookup_insert_ne other]
    exact found

theorem create_opens {able : Bool} (opened : create accepts fresh able dir = some after) :
    ∃ bytes, after.lookup metaStoreFile = some (.file bytes) ∧ (accepts bytes = true ∨ bytes = fresh) := by
  rcases create_some opened with ⟨rfl, bytes, found, fine⟩ | ⟨_, rfl⟩
  · exact ⟨bytes, found, .inl fine⟩
  · exact ⟨fresh, AList.lookup_insert _, .inr rfl⟩

theorem lookup_rename_other {aside name : Text} (free : aside ∉ dir) (other : name ≠ metaStoreFile) (node : Node)
    (found : dir.lookup name = some node) : (rename dir aside).lookup name = some node := by
  have elsewhere : name ≠ aside := by
    rintro rfl
    exact free (lookup_mem dir name node found)
  unfold rename
  cases dir.lookup metaStoreFile with
  | none => exact found
  | some old =>
    rw [AList.lookup_insert_ne elsewhere, AList.lookup_erase_ne other]
    exact found

theorem lookup_rename_aside {aside : Text} (node : Node) (found : dir.lookup metaStoreFile = some node) :
    (rename dir aside).lookup aside = some node := by
  rw [rename, found]
  exact AList.lookup_insert _

theorem lookup_rename_store {aside : Text} (other : aside ≠ metaStoreFile) :
    (rename dir aside).lookup metaStoreFile = none := by
  unfold rename
  cases found : dir.lookup metaStoreFile with
  | none => exact found
  | some node => rw [AList.lookup_insert_ne other.symm, AList.lookup_erase]

theorem lookup_clearFolder {removes : Bool} {name : Text} (node : Node) (found : dir.lookup name = some node)
    (safe : name ≠ metaStoreFile ∨ node ≠ .folder) : (clearFolder removes dir).lookup name = some node := by
  unfold clearFolder
  split_ifs with folder
  · have other : name ≠ metaStoreFile := by
      rintro rfl
      rw [found] at folder
      exact safe.elim (fun differs => differs rfl) fun file => file (Option.some.inj folder.2)
    rw [AList.lookup_erase_ne other]
    exact found
  · exact found

/-- The directory between the two attempts. -/
def cleared (calls : Calls) (dir : Dir) (aside : Text) : Dir :=
  clearFolder calls.removes (if calls.renames then rename dir aside else dir)

theorem sharedDb_cases (calls : Calls) (stamp : Nat) :
    (∃ opened, create accepts fresh calls.creates dir = some opened ∧
        sharedDb accepts fresh calls stamp dir = (some .ready, opened)) ∨
      (create accepts fresh calls.creates dir = none ∧ quarantinePath dir stamp = none ∧
        sharedDb accepts fresh calls stamp dir = (none, dir)) ∨
      ∃ aside, create accepts fresh calls.creates dir = none ∧ quarantinePath dir stamp = some aside ∧
        ((create accepts fresh calls.recreates (cleared calls dir aside) = none ∧
            sharedDb accepts fresh calls stamp dir = (none, cleared calls dir aside)) ∨
          ∃ opened, create accepts fresh calls.recreates (cleared calls dir aside) = some opened ∧
            sharedDb accepts fresh calls stamp dir =
              (some (.quarantined (if aside ∈ opened then aside else [])), opened)) := by
  unfold sharedDb
  cases create accepts fresh calls.creates dir with
  | some opened => exact .inl ⟨opened, rfl, rfl⟩
  | none =>
    cases quarantinePath dir stamp with
    | none => exact .inr (.inl ⟨rfl, rfl, rfl⟩)
    | some aside =>
      refine .inr (.inr ⟨aside, rfl, rfl, ?_⟩)
      simp only [cleared]
      cases create accepts fresh calls.recreates
          (clearFolder calls.removes (if calls.renames then rename dir aside else dir)) with
      | none => exact .inl ⟨rfl, rfl⟩
      | some opened => exact .inr ⟨opened, rfl, rfl⟩

/-- No opening takes away what stands at another name. -/
theorem sharedDb_keeps (calls : Calls) (stamp : Nat) (name : Text) (node : Node) (other : name ≠ metaStoreFile)
    (found : dir.lookup name = some node) : (sharedDb accepts fresh calls stamp dir).2.lookup name = some node := by
  have between : ∀ aside, quarantinePath dir stamp = some aside → (cleared calls dir aside).lookup name = some node := by
    intro aside given
    apply lookup_clearFolder node _ (.inl other)
    split_ifs
    · exact lookup_rename_other (quarantinePath_free dir stamp aside given).1 other node found
    · exact found
  rcases @sharedDb_cases accepts fresh dir calls stamp with
    ⟨opened, first, answer⟩ | ⟨_, _, answer⟩ | ⟨aside, _, given, ⟨_, answer⟩ | ⟨opened, second, answer⟩⟩
  · rw [answer]
    exact create_keeps first name node found
  · rw [answer]
    exact found
  · rw [answer]
    exact between aside given
  · rw [answer]
    exact create_keeps second name node (between aside given)

/-- The bytes of the store stay under its name, or stand under a new one, which is told
when the opening succeeds. -/
theorem sharedDb_moves (calls : Calls) (stamp : Nat) (bytes : List UInt8)
    (found : dir.lookup metaStoreFile = some (.file bytes)) :
    ∃ name, isMetaStoreName name = true ∧
      (sharedDb accepts fresh calls stamp dir).2.lookup name = some (.file bytes) ∧
      (name = metaStoreFile ∨ name ∉ dir ∧ ∀ state, (sharedDb accepts fresh calls stamp dir).1 = some state →
        state = .quarantined name) := by
  have own : isMetaStoreName metaStoreFile = true := by decide
  have between : ∀ aside, quarantinePath dir stamp = some aside →
      (calls.renames = true ∧ (cleared calls dir aside).lookup aside = some (.file bytes)) ∨
        (cleared calls dir aside).lookup metaStoreFile = some (.file bytes) := by
    intro aside given
    have apart := (quarantinePath_free dir stamp aside given).2.2
    by_cases renames : calls.renames = true
    · left
      refine ⟨renames, lookup_clearFolder _ ?_ (.inl apart)⟩
      rw [if_pos renames]
      exact lookup_rename_aside _ found
    · right
      apply lookup_clearFolder _ _ (.inr (by simp))
      rw [if_neg renames]
      exact found
  rcases @sharedDb_cases accepts fresh dir calls stamp with
    ⟨opened, first, answer⟩ | ⟨_, _, answer⟩ | ⟨aside, _, given, rest⟩
  · rw [answer]
    exact ⟨metaStoreFile, own, create_keeps first _ _ found, .inl rfl⟩
  · rw [answer]
    exact ⟨metaStoreFile, own, found, .inl rfl⟩
  · obtain ⟨free, named, _⟩ := quarantinePath_free dir stamp aside given
    rcases rest with ⟨_, answer⟩ | ⟨opened, second, answer⟩
    · rw [answer]
      rcases between aside given with ⟨_, moved⟩ | stayed
      · exact ⟨aside, named, moved, .inr ⟨free, fun state none => (by cases none)⟩⟩
      · exact ⟨metaStoreFile, own, stayed, .inl rfl⟩
    · rw [answer]
      rcases between aside given with ⟨_, moved⟩ | stayed
      · have there := create_keeps second aside _ moved
        refine ⟨aside, named, there, .inr ⟨free, ?_⟩⟩
        intro state told
        rw [if_pos (lookup_mem opened aside _ there)] at told
        exact (Option.some.inj told).symm
      · exact ⟨metaStoreFile, own, create_keeps second _ _ stayed, .inl rfl⟩

/-- A store that is opened is one the database accepts, or a new one. -/
theorem sharedDb_opens (calls : Calls) (stamp : Nat) (state : StoreState)
    (opened : (sharedDb accepts fresh calls stamp dir).1 = some state) :
    ∃ bytes, (sharedDb accepts fresh calls stamp dir).2.lookup metaStoreFile = some (.file bytes) ∧
      (accepts bytes = true ∨ bytes = fresh) := by
  rcases @sharedDb_cases accepts fresh dir calls stamp with
    ⟨_, first, answer⟩ | ⟨_, _, answer⟩ | ⟨aside, _, _, ⟨_, answer⟩ | ⟨_, second, answer⟩⟩
  · rw [answer]
    exact create_opens first
  · rw [answer] at opened
    cases opened
  · rw [answer] at opened
    cases opened
  · rw [answer]
    exact create_opens second

/-- Where files can be made and moved, whatever stands at the store's name is no obstacle. -/
theorem sharedDb_succeeds (calls : Calls) (stamp : Nat) (renames : calls.renames = true)
    (recreates : calls.recreates = true) (few : dir.keys.length < counted) :
    ∃ state, (sharedDb accepts fresh calls stamp dir).1 = some state := by
  rcases @sharedDb_cases accepts fresh dir calls stamp with
    ⟨_, _, answer⟩ | ⟨_, full, _⟩ | ⟨aside, _, given, ⟨failed, _⟩ | ⟨_, _, answer⟩⟩
  · exact ⟨_, by rw [answer]⟩
  · obtain ⟨aside, free⟩ := quarantinePath_some dir stamp few
    rw [full] at free
    cases free
  · have apart := (quarantinePath_free dir stamp aside given).2.2
    have gone : (rename dir aside).lookup metaStoreFile = none := lookup_rename_store apart
    have same : cleared calls dir aside = rename dir aside := by
      rw [cleared, if_pos renames, clearFolder, gone]
      simp only [reduceCtorEq, and_false, if_false]
    rw [same, recreates] at failed
    unfold create at failed
    rw [gone] at failed
    cases failed
  · exact ⟨_, by rw [answer]⟩

end Opened

/-! The run of a node over its boots. -/

inductive Label
  | boot (calls : Calls) (stamp : Nat)
  | damage (node : Option Node)
  | write (name : Text) (node : Node)
  | remove (name : Text)

/-- A top-level name that the cache makes: of a key it can store, or of a staging file. -/
inductive Made : Text → Prop
  | object (raw key : Text) (fits : storable raw key = .ok ()) : Made ((key.splitOn '/').headD [])
  | staging (rest : Text) : Made ('.' :: rest)

/-- The cache works on the names it makes; anything may happen to the store's own file. -/
def allowed (_ : Dir) : Label → Prop
  | .boot _ _ => True
  | .damage _ => True
  | .write name _ => Made name
  | .remove name => Made name

/-- `damage` is what the database's own writing, a crash or an operator make of the store. -/
def machine (accepts : List UInt8 → Bool) (fresh : List UInt8) (start : Dir) : Machine Dir Label where
  initial dir := dir = start
  step dir
    | .boot calls stamp => some (sharedDb accepts fresh calls stamp dir).2
    | .damage node => some (replace dir metaStoreFile node)
    | .write name node => some (dir.insert name node)
    | .remove name => some (dir.erase name)

theorem made_not_meta (name : Text) (made : Made name) : isMetaStoreName name = false := by
  cases made with
  | object raw key fits =>
    unfold storable at fits
    by_cases long : nameMaxBytes < (bytesOf (escapeKey raw)).length
    · rw [if_pos long] at fits
      cases fits
    · rw [if_neg long] at fits
      by_cases reserved : isReservedKey key = true
      · rw [if_pos reserved] at fits
        cases fits
      · rw [isReservedKey] at reserved
        simp only [decide_eq_true_eq, not_or, Bool.not_eq_true] at reserved
        exact reserved.2
  | staging rest => rfl

/-- What has been put aside stays for good: no boot, no damage to the store and no file of
the cache touches it. -/
theorem archive_step (accepts : List UInt8 → Bool) (fresh : List UInt8) (start dir after : Dir) (label : Label)
    (permitted : allowed dir label) (moved : (machine accepts fresh start).step dir label = some after) (name : Text)
    (node : Node) (reserved : isMetaStoreName name = true) (other : name ≠ metaStoreFile)
    (found : dir.lookup name = some node) : after.lookup name = some node := by
  cases label with
  | boot calls stamp =>
    cases moved
    exact sharedDb_keeps calls stamp name node other found
  | damage next =>
    cases moved
    rw [lookup_replace_ne dir next other]
    exact found
  | write made new =>
    cases moved
    have differs : name ≠ made := by
      rintro rfl
      rw [made_not_meta name permitted] at reserved
      cases reserved
    rw [AList.lookup_insert_ne differs]
    exact found
  | remove made =>
    cases moved
    have differs : name ≠ made := by
      rintro rfl
      rw [made_not_meta name permitted] at reserved
      cases reserved
    rw [AList.lookup_erase_ne differs]
    exact found

/-- Over any run, an archive keeps its name and its bytes. A boot of the state that was
reached loses no store file either: the bytes stay, or stand under a name that was free and
that is told. What opens is a good store, and with working calls one always opens. -/
theorem archives_kept (accepts : List UInt8 → Bool) (fresh : List UInt8) (start dir : Dir)
    (reached : Reaches (machine accepts fresh start) allowed dir) (calls : Calls) (stamp : Nat) :
    (∀ name node, isMetaStoreName name = true → name ≠ metaStoreFile → start.lookup name = some node →
        dir.lookup name = some node) ∧
      (∀ bytes, dir.lookup metaStoreFile = some (.file bytes) → ∃ name, isMetaStoreName name = true ∧
        (sharedDb accepts fresh calls stamp dir).2.lookup name = some (.file bytes) ∧
        (name = metaStoreFile ∨ name ∉ dir ∧ ∀ state, (sharedDb accepts fresh calls stamp dir).1 = some state →
          state = .quarantined name)) ∧
      (∀ state, (sharedDb accepts fresh calls stamp dir).1 = some state →
        ∃ bytes, (sharedDb accepts fresh calls stamp dir).2.lookup metaStoreFile = some (.file bytes) ∧
          (accepts bytes = true ∨ bytes = fresh)) ∧
      (calls.renames = true → calls.recreates = true → dir.keys.length < counted →
        ∃ state, (sharedDb accepts fresh calls stamp dir).1 = some state) := by
  refine ⟨?_, fun bytes => sharedDb_moves calls stamp bytes, sharedDb_opens calls stamp, sharedDb_succeeds calls stamp⟩
  apply reached.invariant (fun dir => ∀ name node, isMetaStoreName name = true → name ≠ metaStoreFile →
    start.lookup name = some node → dir.lookup name = some node)
  · rintro _ rfl name node _ _ found
    exact found
  · intro dir label after kept permitted moved name node reserved other found
    exact archive_step accepts fresh start dir after label permitted moved name node reserved other
      (kept name node reserved other found)

/-! Two bad stores in one second. -/

def works : Calls := ⟨true, true, true, true⟩

def badStore : Dir := AList.insert metaStoreFile (.file [1]) ∅

def good (bytes : List UInt8) : Bool := bytes = [0]

theorem archives_kept_twice : ∃ dir : Dir, dir.lookup (corruptName 7) = some (.file [1]) ∧
    dir.lookup (nextName 7 2) = some (.file [2]) ∧ dir.lookup metaStoreFile = some (.file [0]) := by
  have first : ((sharedDb good [0] works 7 badStore).2).lookup (corruptName 7) = some (.file [1]) := by decide
  generalize given : (sharedDb good [0] works 7 badStore).2 = start at first
  have begins : Reaches (machine good [0] start) allowed start := .start _ rfl
  have damaged : Reaches (machine good [0] start) allowed (replace start metaStoreFile (some (.file [2]))) :=
    .next start _ (.damage (some (.file [2]))) begins trivial rfl
  have booted : Reaches (machine good [0] start) allowed
      (sharedDb good [0] works 7 (replace start metaStoreFile (some (.file [2])))).2 :=
    .next _ _ (.boot works 7) damaged trivial rfl
  have kept := (archives_kept good [0] start _ booted works 7).1 (corruptName 7) (.file [1]) (corruptName_meta 7)
    (corruptName_ne 7) first
  refine ⟨_, kept, ?_, ?_⟩
  · rw [← given]
    decide
  · rw [← given]
    decide

end OriginCache.Cache.Quarantine
