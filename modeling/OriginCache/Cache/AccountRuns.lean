import OriginCache.Cache.AccountBalance

/-! Runs of seals, evictions, resets, sweeps and adoptions: every orderly step keeps the
balance, and a balance without tasks is agreement. -/

namespace OriginCache.Cache.Accounts
open Foundation.Tables Foundation.Runs SegName Coverage Store Ledger Evictions SegmentFiles
open Rows (Staged fileStart fileStart_segPath)
open AgeSweep (touch)

/-! What the tasks know. -/

def Task.todo : Task → List Text
  | .removing todo _ _ _ => todo
  | _ => []

/-- The file of a task is as it came, what is to be deleted are segment files, and what was
measured of a span to be sealed is that file. -/
structure Kept (dir : Dir) (task : Task) : Prop where
  file : ∀ file, task.file = some file →
    words file.start file.stop ∧ fileLen dir file.path = file.size ∧ (file.size = 0 ∨ file.start < file.stop)
  todo : ∀ name ∈ task.todo, isSegment name = true
  measured : ∀ span size reached len, task = .sealing span size reached len → len = size ∧ span.start < reached ∧ 0 < len

structure Solid (dir : Dir) (tasks : Table Nat Task) : Prop where
  kept : ∀ id task, tasks.lookup id = some task → Kept dir task
  apart : ∀ id task, tasks.lookup id = some task → ∀ other theirs, tasks.lookup other = some theirs → id ≠ other →
    ∀ file, task.file = some file → ∀ its, theirs.file = some its → file.path ≠ its.path

theorem isSegment_path (file : Unclaimed) (bounds : words file.start file.stop) : isSegment file.path = true :=
  isSegment_segPath file.key file.start file.stop bounds.1 bounds.2

theorem sum_unclaimed (files : List Unclaimed) (dir : Dir) (apart : files.Pairwise fun a b => a.path ≠ b.path)
    (there : ∀ file ∈ files, isSegment file.path = true ∧ fileLen dir file.path = file.size) :
    (files.map Unclaimed.size).sum ≤ segmentBytes dir := by
  induction files generalizing dir with
  | nil => exact Nat.zero_le _
  | cons file files ih =>
    obtain ⟨differs, rest⟩ := List.pairwise_cons.mp apart
    obtain ⟨segment, size⟩ := there file List.mem_cons_self
    have later := ih (dir.erase file.path) rest fun other member => by
      have here := there other (List.mem_cons_of_mem _ member)
      rw [fileLen, AList.lookup_erase_ne (differs other member).symm]
      exact here
    have split_ := segmentBytes_erase dir file.path
    rw [segment, if_pos rfl, size] at split_
    rw [List.map_cons, List.sum_cons]
    omega

theorem sum_owed (entries : List (Sigma fun _ : Nat => Task)) : (entries.map fun entry => entry.2.owed).sum =
    ((entries.filterMap fun entry => entry.2.file).map Unclaimed.size).sum := by
  induction entries with
  | nil => rfl
  | cons entry entries ih =>
    rw [List.map_cons, List.sum_cons, ih]
    cases found : entry.2.file with
    | none =>
      rw [List.filterMap_cons_none (f := fun entry : Sigma fun _ : Nat => Task => entry.2.file) found, Task.owed, found]
      exact Nat.zero_add _
    | some file =>
      rw [List.filterMap_cons_some (f := fun entry : Sigma fun _ : Nat => Task => entry.2.file) found, Task.owed, found, List.map_cons, List.sum_cons]
      rfl

/-- What is owed is on the disk. -/
theorem owed_le (dir : Dir) (tasks : Table Nat Task) (solid : Solid dir tasks) :
    weigh (fun _ task => task.owed) tasks ≤ segmentBytes dir := by
  rw [weigh, sum_owed]
  apply sum_unclaimed
  · have keys := List.nodupKeys_iff_pairwise.mp tasks.nodupKeys
    apply List.Pairwise.filterMap _ _ (List.Pairwise.and_mem.mp keys)
    intro entry other both file found its known
    exact solid.apart entry.1 entry.2 (AList.mem_lookup_iff.mpr both.1) other.1 other.2 (AList.mem_lookup_iff.mpr both.2.1)
      both.2.2 file found its known
  · intro file member
    obtain ⟨entry, inside, found⟩ := List.mem_filterMap.mp member
    have known := (solid.kept entry.1 entry.2 (AList.mem_lookup_iff.mpr inside)).file file found
    exact ⟨isSegment_path file known.1, known.2.1⟩

/-! One task and the others. -/

theorem owed_split (tasks : Table Nat Task) (id : Nat) : owed tasks none = owed (tasks.erase id) (tasks.lookup id) :=
  (Nat.zero_add _).trans (weigh_split (fun _ task => task.owed) tasks id)

theorem freed_split (tasks : Table Nat Task) (id : Nat) : freed tasks none = freed (tasks.erase id) (tasks.lookup id) :=
  (Nat.zero_add _).trans (weigh_split (fun _ task => task.freed) tasks id)

theorem claimed_split (tasks : Table Nat Task) (id : Nat) : claimed tasks none = claimed (tasks.erase id)
    (tasks.lookup id) := by
  funext name
  exact (Bool.false_or _).trans (someEntry_split tasks id fun _ task => task.claims name)

theorem mended_split (tasks : Table Nat Task) (id : Nat) : mended tasks none = mended (tasks.erase id)
    (tasks.lookup id) := by
  funext key
  exact (Bool.false_or _).trans (someEntry_split tasks id fun _ task => task.mends key)

theorem owed_replace (tasks : Table Nat Task) (id : Nat) (next : Option Task) :
    owed (replace tasks id next) none = owed (tasks.erase id) next :=
  (Nat.zero_add _).trans (weigh_replaced (fun _ task => task.owed) tasks id next)

theorem freed_replace (tasks : Table Nat Task) (id : Nat) (next : Option Task) :
    freed (replace tasks id next) none = freed (tasks.erase id) next :=
  (Nat.zero_add _).trans (weigh_replaced (fun _ task => task.freed) tasks id next)

theorem claimed_replace (tasks : Table Nat Task) (id : Nat) (next : Option Task) :
    claimed (replace tasks id next) none = claimed (tasks.erase id) next := by
  funext name
  exact (Bool.false_or _).trans (someEntry_replace tasks id next fun _ task => task.claims name)

theorem mended_replace (tasks : Table Nat Task) (id : Nat) (next : Option Task) :
    mended (replace tasks id next) none = mended (tasks.erase id) next := by
  funext key
  exact (Bool.false_or _).trans (someEntry_replace tasks id next fun _ task => task.mends key)

/-- The balance with one task set apart from the others. -/
def Level (s : Staged) (others : Table Nat Task) (own : Option Task) : Prop :=
  Balanced s (owed others own) (freed others own) (claimed others own) (mended others own)

theorem level_split (s : Staged) (tasks : Table Nat Task) (id : Nat) :
    Level s tasks none ↔ Level s (tasks.erase id) (tasks.lookup id) := by
  rw [Level, Level, owed_split tasks id, freed_split tasks id, claimed_split tasks id, mended_split tasks id]

theorem level_replace (s : Staged) (tasks : Table Nat Task) (id : Nat) (next : Option Task) :
    Level s (replace tasks id next) none ↔ Level s (tasks.erase id) next := by
  rw [Level, Level, owed_replace, freed_replace, claimed_replace, mended_replace]

/-- What a step leaves of the files of tasks: those of the others stay, and its own is the one
it had or nobody's. -/
structure Moved (dir dir' : Dir) (others : Table Nat Task) (own next : Option Task) : Prop where
  theirs : ∀ name, isSegment name = true → claimed others none name = true → fileLen dir' name = fileLen dir name
  kept : ∀ task, next = some task → Kept dir' task
  apart : ∀ file, next.bind Task.file = some file →
    own.bind Task.file = some file ∨ claimed others none file.path = false

theorem claimed_of (others : Table Nat Task) (id : Nat) (task : Task) (file : Unclaimed)
    (found : others.lookup id = some task)
    (holds : task.file = some file) : claimed others none file.path = true := by
  apply (Bool.false_or _).trans
  apply (someEntry_iff _ _).mpr
  refine ⟨id, task, found, ?_⟩
  rw [Task.claims, holds]
  exact decide_eq_true rfl

theorem Solid.replaced {dir dir' : Dir} {tasks : Table Nat Task} {id : Nat} {next : Option Task} (solid : Solid dir tasks)
    (moved : Moved dir dir' (tasks.erase id) (tasks.lookup id) next) : Solid dir' (replace tasks id next) := by
  have theirs : ∀ other, other ≠ id → (tasks.erase id).lookup other = tasks.lookup other :=
    fun other differs => AList.lookup_erase_ne differs
  have mine : ∀ task, next = some task → ∀ other their, tasks.lookup other = some their → other ≠ id →
      ∀ file, task.file = some file → ∀ its, their.file = some its → file.path ≠ its.path := by
    intro task here other their found differs file holds its held_
    have own : next.bind Task.file = some file := by
      rw [here]
      exact holds
    cases moved.apart file own with
    | inl before =>
      obtain ⟨old, present, same⟩ := Option.bind_eq_some_iff.mp before
      exact solid.apart id old present other their found differs.symm file same its held_
    | inr unclaimed =>
      intro same
      have claims := claimed_of (tasks.erase id) other their its ((theirs other differs).trans found) held_
      rw [← same, unclaimed] at claims
      exact Bool.false_ne_true claims
  constructor
  · intro other task found
    by_cases same : other = id
    · rw [same, lookup_replace] at found
      exact moved.kept task found
    · rw [lookup_replace_ne tasks next same] at found
      have before := solid.kept other task found
      refine ⟨fun file holds => ?_, before.todo, before.measured⟩
      have known := before.file file holds
      have claims := claimed_of (tasks.erase id) other task file ((theirs other same).trans found) holds
      rw [moved.theirs file.path (isSegment_path file known.1) claims]
      exact known
  · intro first task found second their known differs file holds its held_
    by_cases here : first = id
    · have far : second ≠ id := fun same => differs (here.trans same.symm)
      rw [here, lookup_replace] at found
      rw [lookup_replace_ne tasks next far] at known
      exact mine task found second their known far file holds its held_
    · rw [lookup_replace_ne tasks next here] at found
      by_cases there : second = id
      · rw [there, lookup_replace] at known
        exact (mine their known first task found here its held_ file holds).symm
      · rw [lookup_replace_ne tasks next there] at known
        exact solid.apart first task found second their known differs file holds its held_

/-! The steps, one by one. -/

structure Good (s after : Staged) (others : Table Nat Task) (own next : Option Task) : Prop where
  level : Level after others next
  moved : Moved s.dir after.dir others own next

section Quiet
variable {s : Staged} {others : Table Nat Task} {own next : Option Task}

theorem owed_file (others : Table Nat Task) (own : Option Task) : owed others own =
    ((own.bind Task.file).map Unclaimed.size).getD 0 + weigh (fun _ task => task.owed) others := by
  cases own <;> rfl

theorem claimed_file (others : Table Nat Task) (own : Option Task) (name : Text) : claimed others own name =
    ((own.bind Task.file).any (fun file => file.path = name) || someEntry others fun _ task => task.claims name) := by
  cases own <;> rfl

theorem mended_imp (mends : ∀ key, own.any (Task.mends key) = true → next.any (Task.mends key) = true) (key : Text)
    (mended_ : mended others own key = true) : mended others next key = true := by
  rw [mended, Bool.or_eq_true] at mended_ ⊢
  exact mended_.imp_left (mends key)

theorem claimed_others (name : Text) (claims : claimed others none name = true) : claimed others own name = true := by
  rw [claimed, Bool.or_eq_true]
  exact .inr ((Bool.false_or _).symm.trans claims)

theorem kept_own {dir : Dir} (kept : ∀ task, own = some task → Kept dir task) (file : Unclaimed)
    (holds : own.bind Task.file = some file) :
    words file.start file.stop ∧ fileLen dir file.path = file.size ∧ (file.size = 0 ∨ file.start < file.stop) := by
  obtain ⟨task, here, its⟩ := Option.bind_eq_some_iff.mp holds
  exact (kept task here).file file its

/-- A step that changes no segment file, no row and nothing that is owed. -/
theorem good_quiet (dir : Dir) (same : Alike s.dir dir) (level : Level s others own)
    (kept : ∀ task, own = some task → Kept s.dir task)
    (file : next.bind Task.file = own.bind Task.file) (frees : (next.map Task.freed).getD 0 = (own.map Task.freed).getD 0)
    (mends : ∀ key, own.any (Task.mends key) = true → next.any (Task.mends key) = true)
    (todo : ∀ task, next = some task → ∀ name ∈ task.todo, isSegment name = true)
    (measured : ∀ task, next = some task → ∀ span size reached len, task = .sealing span size reached len →
      len = size ∧ span.start < reached ∧ 0 < len) : Good s { s with dir := dir } others own next := by
  constructor
  · have bytes : owed others next = owed others own := by rw [owed_file, owed_file, file]
    have left : freed others next = freed others own := by rw [freed, freed, frees]
    have names : claimed others next = claimed others own := by
      funext name
      rw [claimed_file, claimed_file, file]
    rw [Level, bytes, left, names]
    exact Balanced.alike level dir same (fun _ still => .inl still) (mended_imp mends)
  · refine ⟨fun name segment _ => fileLen_alike same name segment, fun task here => ?_, fun its holds => .inl (file.symm.trans holds)⟩
    refine ⟨fun its holds => ?_, todo task here, measured task here⟩
    have mine : own.bind Task.file = some its := by
      rw [← file, here]
      exact holds
    have known := kept_own kept its mine
    rw [fileLen_alike same its.path (isSegment_path its known.1)]
    exact known

/-- A quiet step from one task to another that deletes no more and seals nothing yet. -/
theorem good_goes (task after : Task) (level : Level s others (some task)) (kept : Kept s.dir task) (dir : Dir)
    (same : Alike s.dir dir)
    (file : after.file = task.file) (frees : after.freed = task.freed)
    (mends : ∀ key, task.mends key = true → after.mends key = true) (todo : ∀ name ∈ after.todo, isSegment name = true)
    (unsealed : ∀ span size reached len, after ≠ .sealing span size reached len) :
    Good s { s with dir := dir } others (some task) (some after) := by
  have whole : (some after).bind Task.file = (some task).bind Task.file := file
  apply good_quiet dir same level _ whole frees mends
  · rintro _ ⟨rfl⟩
    exact todo
  · rintro _ ⟨rfl⟩ span size reached len sealing
    exact absurd sealing (unsealed span size reached len)
  · rintro _ ⟨rfl⟩
    exact kept

/-- A task that begins with nothing owed. -/
theorem good_begins (after : Task) (level : Level s others none) (dir : Dir) (same : Alike s.dir dir)
    (file : after.file = none)
    (frees : after.freed = 0) (todo : ∀ name ∈ after.todo, isSegment name = true)
    (unsealed : ∀ span size reached len, after ≠ .sealing span size reached len) :
    Good s { s with dir := dir } others none (some after) := by
  have whole : (some after).bind Task.file = (none : Option Task).bind Task.file := file
  apply good_quiet dir same level _ whole frees
  · intro key none_
    exact absurd none_ Bool.false_ne_true
  · rintro _ ⟨rfl⟩
    exact todo
  · rintro _ ⟨rfl⟩ span size reached len sealing
    exact absurd sealing (unsealed span size reached len)
  · intro task none_
    cases none_

/-- A file comes into place for a task that begins. -/
theorem good_landed (after : Task) (file : Unclaimed) (data : Bytes) (level : Level s others none)
    (bounds : words file.start file.stop)
    (size : file.size = data.length) (holds : after.file = some file) (frees : after.freed = 0) (todo : after.todo = [])
    (unsealed : ∀ span size reached len, after ≠ .sealing span size reached len)
    (lands_ : lands s.dir others file.path file.start file.stop data = true) :
    Good s { s with dir := s.dir.insert file.path data } others none (some after) := by
  simp only [lands, Bool.and_eq_true, Bool.or_eq_true, Bool.not_eq_true', decide_eq_true_eq] at lands_
  obtain ⟨⟨empty, unclaimed⟩, span⟩ := lands_
  have segment := isSegment_path file bounds
  have mine : claimed others (some after) file.path = true := by
    rw [claimed_file, Option.bind_some, holds, Bool.or_eq_true]
    exact .inl (decide_eq_true rfl)
  constructor
  · have bytes : owed others (some after) = data.length + owed others none := by
      rw [owed_file, Option.bind_some, holds, ← size, owed]
      exact congrArg _ (Nat.zero_add _).symm
    have left : freed others (some after) = freed others none := by
      rw [freed, Option.map_some, frees]
      rfl
    rw [Level, bytes, left]
    apply Balanced.landed level file.path data segment empty claimed_others _ mine
    apply mended_imp
    intro key none_
    exact absurd none_ Bool.false_ne_true
  · refine ⟨fun name _ claims => ?_, ?_, fun its here => .inr ?_⟩
    · have differs : name ≠ file.path := by
        rintro rfl
        exact Bool.false_ne_true (unclaimed.symm.trans claims)
      rw [fileLen, AList.lookup_insert_ne differs, fileLen]
    · rintro _ ⟨rfl⟩
      refine ⟨fun its here => ?_, ?_, fun span size reached len sealing => absurd sealing (unsealed span size reached len)⟩
      · cases holds.symm.trans here
        refine ⟨bounds, ?_, ?_⟩
        · rw [fileLen, AList.lookup_insert, size]
          rfl
        · exact span.imp_left fun nothing => by rw [size, nothing]; rfl
      · rw [todo]
        exact fun name none_ => absurd none_ List.not_mem_nil
    · cases holds.symm.trans here
      exact unclaimed

/-- What was measured leaves the disk, or an empty file stays. -/
theorem good_removed (name : Text) (rest : List Text) (len bytes : Nat) (then_ : Next) (gone : Bool)
    (level : Level s others (some (.removing (name :: rest) (some len) bytes then_)))
    (kept : Kept s.dir (.removing (name :: rest) (some len) bytes then_))
    (order : removes s others (some (.removing (name :: rest) (some len) bytes then_)) then_.key name len gone = true) :
    Good s { s with dir := if gone then s.dir.erase name else s.dir } others (some (.removing (name :: rest) (some len) bytes then_))
      (some (.removing rest none (bytes + len) then_)) := by
  simp only [removes, Bool.and_eq_true, Bool.or_eq_true, Bool.not_eq_true', decide_eq_true_eq] at order
  obtain ⟨measured, order⟩ := order
  have segment : isSegment name = true := kept.todo name List.mem_cons_self
  have todo : ∀ other ∈ rest, isSegment other = true := fun other member => kept.todo other (List.mem_cons_of_mem _ member)
  cases gone with
  | false =>
    have none_ : len = 0 := measured
    subst none_
    exact good_goes _ (.removing rest none bytes then_) level kept s.dir (alike_refl s.dir) rfl rfl (fun _ mends => mends) todo
      fun _ _ _ _ other => by cases other
  | true =>
    have size : fileLen s.dir name = len := measured.symm
    have same : ∀ other, claimed others (some (.removing (name :: rest) (some len) bytes then_)) other = true →
        fileLen (s.dir.erase name) other = fileLen s.dir other := by
      intro other claims
      by_cases here : other = name
      · cases order with
        | inl empty => rw [here, size, empty, fileLen, AList.lookup_erase]; rfl
        | inr orderly_ =>
          rw [here, orderly_.1] at claims
          exact absurd claims Bool.false_ne_true
      · rw [fileLen, AList.lookup_erase_ne here, fileLen]
    constructor
    · have left : freed others (some (.removing rest none (bytes + len) then_)) =
          fileLen s.dir name + freed others (some (.removing (name :: rest) (some len) bytes then_)) := by
        change bytes + len + weigh (fun _ task => task.freed) others = _ + (bytes + weigh (fun _ task => task.freed) others)
        omega
      rw [Level, left]
      apply Balanced.removed level name segment (fun _ claims => claims) (fun _ mends => mends)
      intro full key member own
      cases order with
      | inl empty => exact absurd (size.trans empty) (Nat.ne_of_gt full)
      | inr orderly_ =>
        obtain ⟨row, found⟩ := Option.isSome_iff_exists.mp (AList.lookup_isSome.mpr member)
        have foreign := (every_iff _ _).mp orderly_.2 key row found
        rw [Bool.or_eq_true, decide_eq_true_iff] at foreign
        cases foreign with
        | inl its =>
          rw [mended, Bool.or_eq_true]
          exact .inl (decide_eq_true its.symm)
        | inr none_ =>
          rw [Option.isNone_iff_eq_none.mp none_] at own
          exact absurd own Bool.false_ne_true
    · refine ⟨fun other _ claims => same other (claimed_others other claims), ?_, fun file holds => .inl holds⟩
      rintro _ ⟨rfl⟩
      refine ⟨fun file holds => ?_, todo, fun _ _ _ _ other => by cases other⟩
      have known := kept.file file holds
      have mine : (some (Task.removing (name :: rest) (some len) bytes then_)).bind Task.file = some file := holds
      have claims : claimed others (some (.removing (name :: rest) (some len) bytes then_)) file.path = true := by
        rw [claimed_file, mine, Bool.or_eq_true]
        exact .inl (decide_eq_true rfl)
      have stays : fileLen (s.dir.erase name) file.path = file.size := (same file.path claims).trans known.2.1
      exact ⟨known.1, stays, known.2.2⟩

/-- A task that is over, or has only its marker to see to. -/
def Free (after : Option Task) : Prop := after = none ∨ (∃ key, after = some (.marking key)) ∨ ∃ key, after = some (.emptying key)

theorem Free.file (free : Free next) : next.bind Task.file = none := by
  rcases free with rfl | ⟨key, rfl⟩ | ⟨key, rfl⟩ <;> rfl

theorem Free.freed (free : Free next) : (next.map Task.freed).getD 0 = 0 := by
  rcases free with rfl | ⟨key, rfl⟩ | ⟨key, rfl⟩ <;> rfl

theorem Free.kept (free : Free next) (dir : Dir) (task : Task) (here : next = some task) : Kept dir task := by
  have nothing : task.file = none ∧ task.todo = [] ∧ ∀ span size reached len, task ≠ .sealing span size reached len := by
    rcases free with rfl | ⟨key, rfl⟩ | ⟨key, rfl⟩
    · cases here
    · cases here
      exact ⟨rfl, rfl, fun _ _ _ _ other => by cases other⟩
    · cases here
      exact ⟨rfl, rfl, fun _ _ _ _ other => by cases other⟩
  refine ⟨fun file holds => ?_, fun name listed => ?_, fun span size reached len same => absurd same (nothing.2.2 span size reached len)⟩
  · cases nothing.1.symm.trans holds
  · rw [nothing.2.1] at listed
    exact absurd listed List.not_mem_nil

theorem Free.moved (free : Free next) (dir : Dir) : Moved dir dir others own next := by
  refine ⟨fun _ _ _ => rfl, free.kept dir, fun file holds => ?_⟩
  cases free.file.symm.trans holds

/-- The account holds what a task is about to give up. -/
theorem covers (level : Level s others own) (there : owed others own ≤ segmentBytes s.dir) :
    (own.map Task.freed).getD 0 ≤ s.ledger.totalStaged := by
  have account := level.account
  unfold freed at account
  omega

theorem leaves_claimed {key : Text} (left : leaves s.dir others own key = true) (name : Text)
    (full : 0 < fileLen s.dir name)
    (its : (fileStart key name).isSome = true) : claimed others own name = true := by
  cases present : s.dir.lookup name with
  | none =>
    rw [fileLen, present] at full
    exact absurd full (Nat.lt_irrefl 0)
  | some bytes =>
    have passes := (every_iff _ _).mp left name bytes present
    rw [Bool.or_eq_true, Bool.or_eq_true, decide_eq_true_iff] at passes
    rcases passes with (empty | none_) | claims
    · rw [fileLen, present, empty] at full
      exact absurd full (Nat.lt_irrefl 0)
    · rw [Option.isNone_iff_eq_none.mp none_] at its
      exact absurd its Bool.false_ne_true
    · exact claims

/-- A step that leaves the files and their tasks as they are. -/
theorem moved_same (kept : ∀ task, own = some task → Kept s.dir task) (file : next.bind Task.file = own.bind Task.file)
    (todo : ∀ task, next = some task → task.todo = [])
    (unsealed : ∀ task, next = some task → ∀ span size reached len, task ≠ .sealing span size reached len) :
    Moved s.dir s.dir others own next := by
  refine ⟨fun _ _ _ => rfl, fun task here => ⟨fun its holds => ?_, ?_, ?_⟩, fun its holds => .inl (file.symm.trans holds)⟩
  · apply kept_own kept its
    rw [← file, here]
    exact holds
  · rw [todo task here]
    exact fun name none_ => absurd none_ List.not_mem_nil
  · exact fun span size reached len sealing => absurd sealing (unsealed task here span size reached len)

theorem mended_other (key other : Text) (differs : other ≠ key) (task : Task)
    (only : ∀ its, task.mends its = true → key = its)
    (mends : mended others (some task) other = true) : mended others next other = true := by
  rw [mended, Bool.or_eq_true] at mends ⊢
  cases mends with
  | inl here => exact absurd (only other here).symm differs
  | inr there => exact .inr there

theorem good_forgot (key : Text) (len : Nat) (then_ : Option (FinalizedSpan × Nat))
    (level : Level s others (some (.forgetting key len then_)))
    (kept : Kept s.dir (.forgetting key len then_))
    (there : owed others (some (.forgetting key len then_)) ≤ segmentBytes s.dir)
    (order : leaves s.dir others (some (.forgetting key len then_)) key = true) :
    Good s { s with ledger := Ledger.forget s.ledger key len } others (some (.forgetting key len then_))
      (then_.map fun own => .claiming own.1 own.2) := by
  have file : (then_.map fun own => Task.claiming own.1 own.2).bind Task.file = (some (Task.forgetting key len then_)).bind Task.file := by
    cases then_ <;> rfl
  have none_ : ((then_.map fun own => Task.claiming own.1 own.2).map Task.freed).getD 0 = 0 := by
    cases then_ <;> rfl
  have bytes : owed others (then_.map fun own => .claiming own.1 own.2) = owed others (some (.forgetting key len then_)) := by
    rw [owed_file, owed_file, file]
  have left : freed others (some (.forgetting key len then_)) = len + freed others (then_.map fun own => .claiming own.1 own.2) := by
    rw [freed, freed, none_, Nat.zero_add]
    rfl
  have names : claimed others (then_.map fun own => .claiming own.1 own.2) = claimed others (some (.forgetting key len then_)) := by
    funext name
    rw [claimed_file, claimed_file, file]
  constructor
  · have before : Balanced s (owed others (some (.forgetting key len then_)))
        (len + freed others (then_.map fun own => .claiming own.1 own.2)) (claimed others (some (.forgetting key len then_)))
        (mended others (some (.forgetting key len then_))) := left ▸ level
    rw [Level, bytes, names]
    apply Balanced.forgot before key (covers level there) (fun name _ full its => leaves_claimed order name full its) (fun _ claims => claims)
    exact fun other differs mends => mended_other key other differs (.forgetting key len then_) (fun its same => of_decide_eq_true same) mends
  · apply moved_same _ file
    · rintro task here
      obtain ⟨own, -, rfl⟩ := Option.map_eq_some_iff.mp here
      rfl
    · rintro task here span size reached len' sealing
      obtain ⟨own, -, rfl⟩ := Option.map_eq_some_iff.mp here
      cases sealing
    · rintro _ ⟨rfl⟩
      exact kept

theorem good_readopted (key : Text) (len : Nat) (survivors : List (Nat × Nat)) (now : Nat) (free : Free next)
    (level : Level s others (some (.readopting key len survivors now)))
    (there : owed others (some (.readopting key len survivors now)) ≤ segmentBytes s.dir)
    (order : key ∈ s.ledger.map → ∀ file ∈ survivors, backed s.dir key file.1 file.2 = true) :
    Good s { s with ledger := reAdopt s.ledger key len survivors now } others (some (.readopting key len survivors now)) next := by
  have file : next.bind Task.file = (some (Task.readopting key len survivors now)).bind Task.file := free.file
  have bytes : owed others next = owed others (some (.readopting key len survivors now)) := by
    rw [owed_file, owed_file, file]
  have left : freed others (some (.readopting key len survivors now)) = len + freed others next := by
    rw [freed, freed, free.freed, Nat.zero_add]
    rfl
  have names : claimed others next = claimed others (some (.readopting key len survivors now)) := by
    funext name
    rw [claimed_file, claimed_file, file]
  refine ⟨?_, free.moved s.dir⟩
  have before : Balanced s (owed others (some (.readopting key len survivors now))) (len + freed others next)
      (claimed others (some (.readopting key len survivors now))) (mended others (some (.readopting key len survivors now))) :=
    left ▸ level
  rw [Level, bytes, names]
  apply Balanced.readopted before key survivors now (covers level there) order (fun _ claims => claims)
  exact fun other differs mends => mended_other key other differs (.readopting key len survivors now)
    (fun its same => of_decide_eq_true same) mends

theorem good_emptied (key : Text) (level : Level s others (some (.emptying key)))
    (order : (dropRowIfEmpty s.ledger key).2 = true → leaves s.dir others (some (.emptying key)) key = true) :
    Good s ⟨if (dropRowIfEmpty s.ledger key).2 then s.dir.erase (segmetaPath key) else s.dir, (dropRowIfEmpty s.ledger key).1⟩ others
      (some (.emptying key)) none := by
  have marker := alike_erase s.dir (segmetaPath key) (not_isSegment_segmetaPath key)
  have ended : ∀ other, mended others (some (.emptying key)) other = true → mended others none other = true :=
    mended_imp fun _ none_ => absurd none_ Bool.false_ne_true
  have quiet : dropRowIfEmpty s.ledger key = (s.ledger, false) →
      Good s ⟨if (dropRowIfEmpty s.ledger key).2 then s.dir.erase (segmetaPath key) else s.dir, (dropRowIfEmpty s.ledger key).1⟩ others
        (some (.emptying key)) none := by
    intro stays
    rw [stays]
    exact ⟨Balanced.alike level s.dir (alike_refl s.dir) (fun _ claims => .inl claims) ended, Free.moved (.inl rfl) s.dir⟩
  cases found : s.ledger.map.lookup key with
  | none =>
    apply quiet
    rw [dropRowIfEmpty, found]
  | some row =>
    rcases dropRowIfEmpty_cases s.ledger key row found with ⟨-, drops⟩ | ⟨-, stays⟩
    · rw [drops] at order ⊢
      have gone : Balanced { s with ledger := Ledger.forget s.ledger key 0 } (owed others (some (.emptying key)))
          (freed others (some (.emptying key))) (claimed others (some (.emptying key))) (mended others none) := by
        have before : Balanced s (owed others (some (.emptying key))) (0 + freed others (some (.emptying key)))
            (claimed others (some (.emptying key))) (mended others (some (.emptying key))) := (Nat.zero_add _).symm ▸ level
        apply Balanced.forgot before key (Nat.zero_le _) (fun name _ full its => leaves_claimed (order rfl) name full its)
          (fun _ claims => claims)
        exact fun other _ mends => ended other mends
      refine ⟨Balanced.alike gone (s.dir.erase (segmetaPath key)) marker (fun _ claims => .inl claims) fun _ mends => mends, ?_⟩
      refine ⟨fun name segment _ => fileLen_alike marker name segment, ?_, ?_⟩
      · intro task none_
        cases none_
      · intro file none_
        cases none_
    · exact quiet stays

/-- A file that cannot be claimed holds nothing. -/
theorem measureSeal_none (dir : Dir) (key : Text) (start stop size : Nat) (bounds : words start stop)
    (there : fileLen dir (segPath key start stop) = size) (span : size = 0 ∨ start < stop)
    (none_ : measureSeal dir key start stop = none) : size = 0 := by
  unfold fileLen at there
  unfold measureSeal at none_
  cases found : dir.lookup (segPath key start stop) with
  | none =>
    rw [found] at there
    exact there.symm
  | some bytes =>
    rw [found] at there none_
    change bytes.length = size at there
    simp only at none_
    split_ifs at none_ with short
    unfold words at bounds
    unfold saturatingAdd at short
    omega

theorem measureSeal_some (dir : Dir) (key : Text) (start stop size reached len : Nat)
    (there : fileLen dir (segPath key start stop) = size)
    (measured : measureSeal dir key start stop = some (reached, len)) :
    len = size ∧ start < reached ∧ 0 < len := by
  unfold fileLen at there
  unfold measureSeal at measured
  cases found : dir.lookup (segPath key start stop) with
  | none =>
    rw [found] at measured
    cases measured
  | some bytes =>
    rw [found] at there measured
    change bytes.length = size at there
    simp only at measured
    split_ifs at measured with short
    cases measured
    unfold saturatingAdd at short ⊢
    omega

/-- A task that ends with a file that holds nothing. -/
theorem good_ends (task : Task) (free : Free next) (level : Level s others (some task)) (kept : Kept s.dir task)
    (empty : ∀ file, task.file = some file → file.size = 0) (frees : task.freed = 0)
    (mends : ∀ key, task.mends key = false) :
    Good s s others (some task) next := by
  have bytes : owed others next = owed others (some task) := by
    rw [owed_file, owed_file, free.file, Option.bind_some]
    cases holds : task.file with
    | none => rfl
    | some its => rw [Option.map_some, Option.getD_some, empty its holds]; rfl
  have left : freed others next = freed others (some task) := by
    rw [freed, freed, free.freed, Option.map_some, Option.getD_some, frees]
  refine ⟨?_, free.moved s.dir⟩
  rw [Level, bytes, left]
  apply Balanced.alike level s.dir (alike_refl s.dir)
  · intro name claims
    rw [claimed_file, Option.bind_some, Bool.or_eq_true] at claims
    cases claims with
    | inl here =>
      obtain ⟨its, holds, same⟩ := Option.any_eq_true _ _ |>.mp here
      have known := kept.file its holds
      rw [← of_decide_eq_true same, known.2.1]
      exact .inr (empty its holds)
    | inr there =>
      rw [claimed_file, Bool.or_eq_true]
      exact .inl (.inr there)
  · apply mended_imp
    intro key holds
    exact absurd ((mends key).symm.trans holds) Bool.false_ne_true

/-- A claim is recorded: the row takes the span in and the account the file. -/
theorem good_recorded (task : Task) (free : Free next) (key : Text) (row : Row) (start reached now len : Nat)
    (level : Level s others (some task)) (kept : Kept s.dir task) (owes : task.owed = len) (frees : task.freed = 0)
    (own : ∀ file, task.file = some file → file.key = key) (mends : ∀ other, task.mends other = false)
    (inside : row.intervals ⊆ addInterval (rowOf s.ledger key).intervals start reached now)
    (room : s.ledger.totalStaged + len < 2 ^ 64) (meets : backed s.dir key start reached = true) :
    Good s { s with ledger := ⟨s.ledger.map.insert key row, saturatingAdd s.ledger.totalStaged len⟩ } others (some task) next := by
  have bytes : owed others (some task) = len + owed others next := by
    rw [owed_file others next, free.file, owed, Option.map_some, Option.getD_some, owes]
    exact congrArg _ (Nat.zero_add _).symm
  have left : freed others next = freed others (some task) := by
    rw [freed, freed, free.freed, Option.map_some, Option.getD_some, frees]
  refine ⟨?_, free.moved s.dir⟩
  have before : Balanced s (len + owed others next) (freed others (some task)) (claimed others (some task))
      (mended others (some task)) := bytes ▸ level
  rw [Level, left]
  apply Balanced.recorded before key row start reached now inside room meets
  · intro name claims
    rw [claimed_file, Option.bind_some, Bool.or_eq_true] at claims
    cases claims with
    | inl here =>
      obtain ⟨its, holds, same⟩ := Option.any_eq_true _ _ |>.mp here
      have known := kept.file its holds
      rw [← of_decide_eq_true same, ← own its holds, Unclaimed.path,
        fileStart_segPath its.key its.start its.stop known.1.1 known.1.2]
      exact .inr rfl
    | inr there =>
      rw [claimed_file, Bool.or_eq_true]
      exact .inl (.inr there)
  · apply mended_imp
    intro other holds
    exact absurd ((mends other).symm.trans holds) Bool.false_ne_true

/-- A file that holds something backs whatever begins where it does. -/
theorem backed_file (dir : Dir) (file : Unclaimed) (bounds : words file.start file.stop)
    (full : 0 < fileLen dir file.path) (reached : Nat)
    (span : file.start < reached) : backed dir file.key file.start reached = true := by
  cases found : dir.lookup file.path with
  | none =>
    rw [fileLen, found] at full
    exact absurd full (Nat.lt_irrefl 0)
  | some bytes =>
    rw [fileLen, found] at full
    change 0 < bytes.length at full
    exact (backed_iff _ _ _ _).mpr ⟨file.path, bytes, file.start, found, fileStart_segPath file.key file.start file.stop bounds.1 bounds.2,
      by omega⟩

theorem good_sealed (span : FinalizedSpan) (size reached len : Nat)
    (level : Level s others (some (.sealing span size reached len)))
    (kept : Kept s.dir (.sealing span size reached len)) (room : s.ledger.totalStaged + len < 2 ^ 64) :
    Good s { s with ledger := recordSeal s.ledger span.key span.start reached len span.etag span.total span.window span.now } others
      (some (.sealing span size reached len)) (some (.marking span.key)) := by
  obtain ⟨same, begins, full⟩ := kept.measured span size reached len rfl
  have known := kept.file (span.unclaimed size) rfl
  have holds : 0 < fileLen s.dir (span.unclaimed size).path := by
    rw [known.2.1]
    exact same ▸ full
  have free : Free (some (.marking span.key)) := .inr (.inl ⟨span.key, rfl⟩)
  apply good_recorded _ free span.key _ span.start reached span.now len level kept same.symm rfl _ (fun _ => rfl) _ room
  · exact backed_file s.dir (span.unclaimed size) known.1 holds reached begins
  · rintro file holds
    cases holds
    rfl
  · exact decay_subset _ span.now span.window

theorem good_adopted (key : Text) (start stop now reached len : Nat) (size : Option Nat)
    (level : Level s others (some (.recording key start stop now reached len size)))
    (kept : Kept s.dir (.recording key start stop now reached len size)) (room : s.ledger.totalStaged + len < 2 ^ 64)
    (counts : len = size.getD 0) (meets : backed s.dir key start reached = true) :
    Good s { s with ledger := recordAdopt s.ledger key start reached len now } others
      (some (.recording key start stop now reached len size)) none := by
  have owes : (Task.recording key start stop now reached len size).owed = len := by
    rw [counts]
    cases size <;> rfl
  apply good_recorded _ (.inl rfl) key _ start reached now len level kept owes rfl _ (fun _ => rfl) _ room meets
  · intro file holds
    obtain ⟨_, -, rfl⟩ := Option.map_eq_some_iff.mp holds
    rfl
  · exact List.Subset.refl _

theorem no_task (tasks : Table Nat Task) (none_ : tasks.keys = []) : tasks = ∅ := by
  apply AList.ext
  exact List.map_eq_nil_iff.mp none_

theorem good_rebuilt (decodeMeta : Bytes → Option SegMeta) (now : Nat) (alone : others.keys = [])
    (room : segmentBytes s.dir < 2 ^ 64)
    (files : List SegmentFile) (same : files = (scanSegmentFiles decodeMeta s.dir).1) :
    Good s { s with ledger := recordAll files now } others (some (.rebuilding files now)) none := by
  have empty := no_task others alone
  subst empty
  subst same
  exact ⟨balanced_rebuilt decodeMeta s.dir now room _ _, Free.moved (.inl rfl) s.dir⟩

end Quiet

/-! What the ledger does at once. -/

theorem fewer_refl (ledger : Inner) : Fewer ledger ledger :=
  ⟨rfl, fun _ member => member, fun _ row found i member => ⟨row, found, i, member, rfl, rfl⟩⟩

theorem fewer_insert (ledger : Inner) (key : Text) (row : Row)
    (fewer : ∀ i ∈ row.intervals, ∃ j ∈ (rowOf ledger key).intervals, j.start = i.start ∧ j.stop = i.stop) :
    Fewer ledger { ledger with map := ledger.map.insert key row } := by
  refine ⟨rfl, fun other member => (AList.mem_insert _).mpr (.inr member), fun other new found i member => ?_⟩
  cases lookup_insert_some _ _ _ _ _ found with
  | inr kept => exact ⟨new, kept.2, i, member, rfl, rfl⟩
  | inl here =>
    obtain ⟨rfl, rfl⟩ := here
    obtain ⟨j, listed, bounds⟩ := fewer i member
    cases present : ledger.map.lookup other with
    | none =>
      rw [rowOf, present] at listed
      exact absurd listed List.not_mem_nil
    | some old =>
      rw [rowOf, present] at listed
      exact ⟨old, rfl, j, listed, bounds⟩

theorem fewer_ledgerMove (ledger after : Inner) (move : Move)
    (moves : ledgerMove ledger move = some after) : Fewer ledger after := by
  cases move with
  | served key start stop =>
    cases moves
    unfold Ledger.served
    split_ifs
    · exact fewer_refl ledger
    · cases found : ledger.map.lookup key with
      | none => exact fewer_refl ledger
      | some row =>
        apply fewer_insert ledger key { row with intervals := row.intervals.map (credit start stop) }
        intro i member
        obtain ⟨old, listed, rfl⟩ := List.mem_map.mp member
        refine ⟨old, by rw [rowOf, found]; exact listed, ?_⟩
        unfold credit
        split_ifs <;> exact ⟨rfl, rfl⟩
  | touched key time =>
    cases moves
    unfold touch
    cases found : ledger.map.lookup key with
    | none => exact fewer_refl ledger
    | some row =>
      apply fewer_insert ledger key { row with lastTouch := time }
      intro i member
      exact ⟨i, by rw [rowOf, found]; exact member, rfl, rfl⟩
  | decayed key now window =>
    cases moves
    unfold decayedCoverage
    cases found : ledger.map.lookup key with
    | none => exact fewer_refl ledger
    | some row =>
      apply fewer_insert ledger key { row with intervals := decay row.intervals now window }
      intro i member
      exact ⟨i, by rw [rowOf, found]; exact decay_subset row.intervals now window member, rfl, rfl⟩
  | setVersion key etag total =>
    cases moves
    exact fewer_insert ledger key _ fun i member => ⟨i, member, rfl, rfl⟩
  | _ => cases moves

/-! Every step. -/

theorem keySegmentFiles_segments (dir : Dir) (key name : Text)
    (listed : name ∈ keySegmentFiles dir key) : isSegment name = true := by
  have owned := ((mem_keySegmentFiles dir key name).mp listed).2
  exact (isSegment_iff name).mpr ((Bool.and_eq_true _ _).mp owned).2

theorem segmentIndex_segments (dir : Dir) (key name : Text) (listed : name ∈ ((segmentIndex dir).lookup key).getD []) :
    isSegment name = true := by
  rw [lookup_segmentIndex] at listed
  obtain ⟨read, parsed, -⟩ := Option.any_eq_true _ _ |>.mp ((Bool.and_eq_true _ _).mp (List.mem_filter.mp listed).2).2
  apply (isSegment_iff name).mpr
  rw [parsed]
  rfl

section Every
variable {decodeMeta : Bytes → Option SegMeta} {s after : Staged} {others : Table Nat Task} {next : Option Task}

theorem good_start (move : Move) (level : Level s others none) (order : orderly decodeMeta s others none move = true)
    (steps : taskStart decodeMeta s move = some (after, next)) : Good s after others none next := by
  have quiet := alike_refl s.dir
  cases move with
  | rename span data =>
    simp only [taskStart] at steps
    split_ifs at steps with bounds
    cases steps
    exact good_landed (.landed span data.length) (span.unclaimed data.length) data level bounds rfl rfl rfl rfl
      (fun _ _ _ _ other => by cases other) order
  | reset key =>
    cases steps
    exact good_begins _ level s.dir quiet rfl rfl (fun name listed => keySegmentFiles_segments s.dir key name listed)
      fun _ _ _ _ other => by cases other
  | expire key =>
    cases steps
    exact good_begins _ level s.dir quiet rfl rfl (fun name listed => segmentIndex_segments s.dir key name listed)
      fun _ _ _ _ other => by cases other
  | dropSpans key picks now =>
    simp only [taskStart] at steps
    split_ifs at steps with bounds
    cases steps
    apply good_begins _ level s.dir quiet rfl rfl _ fun _ _ _ _ other => by cases other
    intro name listed
    obtain ⟨pick, picked, rfl⟩ := List.mem_map.mp listed
    exact isSegment_segPath key pick.1 pick.2 (bounds pick picked).1 (bounds pick picked).2
  | place key start stop now data =>
    simp only [taskStart] at steps
    split_ifs at steps with bounds
    cases steps
    exact good_landed (.adopting key start stop now (some data.length)) ⟨key, start, stop, data.length⟩ data level bounds rfl rfl rfl rfl
      (fun _ _ _ _ other => by cases other) order
  | adopt key start stop now =>
    simp only [taskStart] at steps
    split_ifs at steps
    cases steps
    exact good_begins _ level s.dir quiet rfl rfl (fun _ none_ => absurd none_ List.not_mem_nil) fun _ _ _ _ other => by cases other
  | scan now =>
    cases steps
    exact good_begins _ level _ (alike_sweepOrphans s.dir) rfl rfl (fun _ none_ => absurd none_ List.not_mem_nil)
      fun _ _ _ _ other => by cases other
  | _ => cases steps

theorem good_go (task : Task) (move : Move) (level : Level s others (some task)) (kept : Kept s.dir task)
    (there : owed others (some task) ≤ segmentBytes s.dir) (order : orderly decodeMeta s others (some task) move = true)
    (steps : taskGo s task move = some (after, next)) : Good s after others (some task) next := by
  have quiet := alike_refl s.dir
  have nothing : ∀ name ∈ ([] : List Text), isSegment name = true := fun _ none_ => absurd none_ List.not_mem_nil
  unfold taskGo at steps
  split at steps
  case h_1 span size =>
    cases steps
    split_ifs
    · exact good_goes _ _ level kept s.dir quiet rfl rfl (fun _ mends => mends) nothing fun _ _ _ _ other => by cases other
    · exact good_goes _ _ level kept s.dir quiet rfl rfl (fun _ mends => mends) nothing fun _ _ _ _ other => by cases other
  case h_2 span size =>
    cases steps
    refine good_goes _ _ level kept s.dir quiet rfl rfl ?_ ?_ fun _ _ _ _ other => by cases other
    · exact fun _ none_ => absurd none_ Bool.false_ne_true
    · exact fun name listed => keySegmentFiles_segments s.dir span.key name (List.mem_filter.mp listed).1
  case h_3 name rest freed_ then_ =>
    cases steps
    exact good_goes _ _ level kept s.dir quiet rfl rfl (fun _ mends => mends) kept.todo fun _ _ _ _ other => by cases other
  case h_4 name rest len freed_ then_ gone =>
    cases steps
    exact good_removed name rest len freed_ then_ gone level kept order
  case h_5 measured freed_ span size =>
    cases steps
    have marker := alike_erase s.dir (segmetaPath span.key) (not_isSegment_segmetaPath span.key)
    exact good_goes _ _ level kept _ marker rfl rfl (fun _ mends => mends) nothing fun _ _ _ _ other => by cases other
  case h_6 measured freed_ key =>
    cases steps
    have marker := alike_erase s.dir (segmetaPath key) (not_isSegment_segmetaPath key)
    exact good_goes _ _ level kept _ marker rfl rfl (fun _ mends => mends) nothing fun _ _ _ _ other => by cases other
  case h_7 measured freed_ key now =>
    cases steps
    exact good_goes _ _ level kept s.dir quiet rfl rfl (fun _ mends => mends) nothing fun _ _ _ _ other => by cases other
  case h_8 key freed_ then_ =>
    cases steps
    exact good_forgot key freed_ then_ level kept there order
  case h_9 key freed_ survivors now =>
    cases steps
    have free : Free (if freed_ = 0 then none else some (.emptying key)) := by
      split_ifs
      · exact .inl rfl
      · exact .inr (.inr ⟨key, rfl⟩)
    apply good_readopted key freed_ survivors now free level there
    intro member file listed
    simp only [orderly, Bool.or_eq_true, decide_eq_true_eq] at order
    exact List.all_eq_true.mp (order.resolve_left fun absent => absent member) file listed
  case h_10 key =>
    cases steps
    apply good_emptied key level
    intro drops
    simp only [orderly, drops, Bool.not_true, Bool.false_or] at order
    exact order
  case h_11 span size =>
    cases steps
    have known := kept.file (span.unclaimed size) rfl
    cases measured : measureSeal s.dir span.key span.start span.stop with
    | none =>
      have free : Free (some (.marking span.key)) := .inr (.inl ⟨span.key, rfl⟩)
      apply good_ends _ free level kept _ rfl fun _ => rfl
      rintro file holds
      cases holds
      exact measureSeal_none s.dir span.key span.start span.stop size known.1 known.2.1 known.2.2 measured
    | some found =>
      have facts := measureSeal_some s.dir span.key span.start span.stop size found.1 found.2 known.2.1 measured
      refine good_quiet s.dir quiet level ?_ rfl rfl (fun _ mends => mends) ?_ ?_
      · rintro _ ⟨rfl⟩
        exact kept
      · rintro _ ⟨rfl⟩
        exact nothing
      · rintro _ ⟨rfl⟩ span' size' reached len same
        cases same
        exact facts
  case h_12 span size reached len =>
    cases steps
    exact good_sealed span size reached len level kept (of_decide_eq_true order)
  case h_13 key data =>
    cases steps
    have marker : Alike s.dir ((data.map fun bytes => s.dir.insert (segmetaPath key) bytes).getD s.dir) := by
      cases data with
      | none => exact quiet
      | some bytes => exact alike_insert s.dir (segmetaPath key) bytes (not_isSegment_segmetaPath key)
    refine good_quiet _ marker level ?_ rfl rfl (fun _ none_ => absurd none_ Bool.false_ne_true) ?_ ?_
    · rintro _ ⟨rfl⟩
      exact kept
    · intro _ none_
      cases none_
    · intro _ none_
      cases none_
  case h_14 key start stop now size =>
    cases steps
    cases measured : measureAdopt s.dir key start stop with
    | none =>
      apply good_ends _ (.inl rfl) level kept _ rfl fun _ => rfl
      intro file holds
      obtain ⟨bytes, -, rfl⟩ := Option.map_eq_some_iff.mp holds
      have known := kept.file _ holds
      apply measureSeal_none s.dir key start stop bytes known.1 known.2.1 known.2.2
      unfold measureAdopt at measured
      unfold measureSeal
      cases found : s.dir.lookup (segPath key start stop) with
      | none => rfl
      | some data =>
        rw [found] at measured
        exact measured
    | some found =>
      exact good_goes _ _ level kept s.dir quiet rfl rfl (fun _ mends => mends) nothing fun _ _ _ _ other => by cases other
  case h_15 key start stop now reached len size =>
    cases steps
    simp only [orderly, Bool.and_eq_true, decide_eq_true_eq] at order
    exact good_adopted key start stop now reached len size level kept order.1 order.2.1 order.2.2
  case h_16 files now =>
    cases steps
    simp only [orderly, Bool.and_eq_true, decide_eq_true_eq] at order
    exact good_rebuilt decodeMeta now order.1 order.2.2 files order.2.1
  case h_17 => cases steps

theorem good_ledger (ledger : Inner) (own : Option Task) (level : Level s others own)
    (kept : ∀ task, own = some task → Kept s.dir task)
    (fewer : Fewer s.ledger ledger) : Good s { s with ledger := ledger } others own own :=
  ⟨Balanced.rewritten level ledger fewer, fun _ _ _ => rfl, kept, fun _ holds => .inl holds⟩

end Every

/-! Whole runs. -/

structure Steady (s : System) : Prop where
  level : Level s.staged s.tasks none
  solid : Solid s.staged.dir s.tasks

theorem steady_step (decodeMeta : Bytes → Option SegMeta) (s after : System) (label : Label)
    (meets : allowed decodeMeta s label)
    (steps : step decodeMeta s label = some after) (steady : Steady s) : Steady after := by
  obtain ⟨done, moves, rfl⟩ := Option.map_eq_some_iff.mp steps
  have level := (level_split s.staged s.tasks label.task).mp steady.level
  have kept : ∀ task, s.tasks.lookup label.task = some task → Kept s.staged.dir task := steady.solid.kept label.task
  have there : owed (s.tasks.erase label.task) (s.tasks.lookup label.task) ≤ segmentBytes s.staged.dir := by
    rw [← owed_split, owed]
    exact Nat.le_trans (Nat.le_of_eq (Nat.zero_add _)) (owed_le s.staged.dir s.tasks steady.solid)
  have good : Good s.staged done.1 (s.tasks.erase label.task) (s.tasks.lookup label.task) done.2 := by
    unfold taskStep at moves
    cases quick : ledgerMove s.staged.ledger label.move with
    | some ledger =>
      rw [quick] at moves
      cases moves
      exact good_ledger ledger _ level kept (fewer_ledgerMove s.staged.ledger ledger label.move quick)
    | none =>
      rw [quick] at moves
      unfold allowed at meets
      cases own : s.tasks.lookup label.task with
      | none =>
        rw [own] at moves level meets
        exact good_start label.move level meets moves
      | some task =>
        rw [own] at moves level meets there
        exact good_go task label.move level (kept task own) there meets moves
  exact ⟨(level_replace done.1 s.tasks label.task done.2).mpr good.level, steady.solid.replaced good.moved⟩

theorem steady_start (s : System) (idle : s.tasks = ∅) (agrees : Agrees s.staged) : Steady s := by
  constructor
  · rw [idle]
    refine ⟨agrees.total, fun name segment full => .inl (agrees.rows name segment full), fun key row found i member => ?_⟩
    obtain ⟨position, after, before, inside⟩ := agrees.intervals key row found i member
    exact ⟨by omega, .inl ((backed_iff_held _ _ _ _).mpr ⟨position, after, before, inside⟩)⟩
  · rw [idle]
    constructor
    · intro id task none_
      cases none_
    · intro id task none_
      cases none_

theorem agrees_steady (s : System) (idle : s.tasks = ∅) (steady : Steady s) : Agrees s.staged := by
  have level := steady.level
  rw [idle] at level
  refine ⟨level.account, fun name segment full => ?_, fun key row found i member => ?_⟩
  · cases level.rows name segment full with
    | inl filed => exact filed
    | inr claims => exact absurd claims Bool.false_ne_true
  · cases (level.intervals key row found i member).2 with
    | inl meets => exact (backed_iff_held _ _ _ _).mp meets
    | inr mends => exact absurd mends Bool.false_ne_true

/-- Nothing is staged. -/
def blank : System := ⟨⟨∅, Inner.new⟩, ∅⟩

theorem agrees_blank : Agrees blank.staged := by
  refine ⟨rfl, fun name _ full => absurd full (Nat.lt_irrefl 0), ?_⟩
  intro key row none_
  cases none_

def front : FinalizedSpan := ⟨['v'], none, 6, 0, 3, 0, 10⟩

def back : FinalizedSpan := ⟨['v'], none, 6, 3, 6, 0, 20⟩

/-- Two spans of a key are sealed at once, and the first is evicted. -/
def evicting : List Label :=
  [⟨0, .rename front [1, 2, 3]⟩, ⟨1, .rename back [4, 5, 6]⟩, ⟨0, .view⟩, ⟨1, .view⟩, ⟨1, .stat⟩, ⟨0, .stat⟩, ⟨0, .seal⟩, ⟨1, .seal⟩,
    ⟨1, .mark none⟩, ⟨0, .mark none⟩, ⟨2, .dropSpans ['v'] [(0, 3)] 30⟩, ⟨2, .measure⟩, ⟨2, .remove true⟩, ⟨2, .close⟩, ⟨2, .readopt⟩,
    ⟨2, .dropRow⟩]

/-- The same span is sealed twice. -/
def resealing : List Label :=
  [⟨0, .rename front [1, 2, 3]⟩, ⟨0, .view⟩, ⟨0, .stat⟩, ⟨0, .seal⟩, ⟨0, .mark none⟩, ⟨0, .rename front [1, 2, 3]⟩, ⟨0, .view⟩,
    ⟨0, .stat⟩, ⟨0, .seal⟩, ⟨0, .mark none⟩]

end OriginCache.Cache.Accounts
