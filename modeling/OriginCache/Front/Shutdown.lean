import OriginCache.Front.Proxy

/-! How long a shutdown takes: the gauge of the front is watched for one settle window,
and the drain is skipped when nothing was in flight at any sample. -/

namespace OriginCache.Front.Shutdown
open Foundation.Runs Foundation.Tables Gates Proxy
open Cache.SegName (Text)

inductive StopAction
  | fastExit | drain
deriving DecidableEq, Repr

/-- In milliseconds. -/
def settleWindow : Nat := 3000
def settleInterval : Nat := 250

/-- Having observed nothing is no evidence of idleness. -/
def stopAction (samples : List Int) : StopAction :=
  if samples = [] then .drain else if samples.all (· ≤ 0) then .fastExit else .drain

def rounds : Nat := settleWindow / max settleInterval 1

/-- The rounds that are left, after the samples that were taken. -/
@[grind =] def observe (sample : Nat → Int) : Nat → List Int → StopAction × List Int
  | 0, samples => (stopAction samples, samples)
  | left + 1, samples =>
      let samples := samples ++ [sample samples.length]
      if stopAction samples = .drain then (.drain, samples) else observe sample left samples

/-- The decision and what it was made from. -/
def observeSettle (sample : Nat → Int) : StopAction × List Int := observe sample (max rounds 1) []

section Watching
variable (sample : Nat → Int)

def taken (count : Nat) : List Int := (List.range count).map sample

theorem taken_succ (count : Nat) : taken sample (count + 1) = taken sample count ++ [sample count] := by
  rw [taken, List.range_succ, List.map_append]
  rfl

theorem stopAction_taken (count : Nat) :
    stopAction (taken sample (count + 1)) = .fastExit ↔ ∀ i < count + 1, sample i ≤ 0 := by
  have some_ : taken sample (count + 1) ≠ [] := by
    rw [taken_succ]
    exact List.append_ne_nil_of_right_ne_nil _ (List.cons_ne_nil _ _)
  have idle : (taken sample (count + 1)).all (· ≤ 0) = true ↔ ∀ i < count + 1, sample i ≤ 0 := by
    simp [taken, List.all_eq_true]
  rw [stopAction, if_neg some_]
  split_ifs with quiet
  · exact iff_of_true rfl (idle.mp quiet)
  · exact iff_of_false id (fun all => quiet (idle.mpr all))

theorem taken_length (count : Nat) : (taken sample count).length = count := by
  rw [taken, List.length_map, List.length_range]

theorem observe_quiet (left done : Nat) (idle : ∀ i < done + 1, sample i ≤ 0) :
    observe sample (left + 1) (taken sample done) = observe sample left (taken sample (done + 1)) := by
  have fast := (stopAction_taken sample done).mpr idle
  rw [observe, taken_length, ← taken_succ]
  exact if_neg fun drains => StopAction.noConfusion (fast.symm.trans drains)

theorem observe_busy (left done : Nat) (busy : 0 < sample done) :
    observe sample (left + 1) (taken sample done) = (.drain, taken sample (done + 1)) := by
  have drains : stopAction (taken sample (done + 1)) = .drain := by
    cases action : stopAction (taken sample (done + 1)) with
    | drain => rfl
    | fastExit =>
      have low := (stopAction_taken sample done).mp action done (Nat.lt_succ_self done)
      exact absurd low (Int.not_le.mpr busy)
  rw [observe, taken_length, ← taken_succ]
  exact if_pos drains

/-- From an idle stretch the watch goes on to its end or to the first busy sample. -/
theorem observe_taken (left done : Nat) (idle : ∀ i < done, sample i ≤ 0) (begun : 0 < done + left) :
    (observe sample left (taken sample done) = (.fastExit, taken sample (done + left)) ∧
        ∀ i < done + left, sample i ≤ 0) ∨
      ∃ busy < done + left, observe sample left (taken sample done) = (.drain, taken sample (busy + 1)) ∧
        0 < sample busy ∧ ∀ i < busy, sample i ≤ 0 := by
  induction left generalizing done with
  | zero =>
    obtain ⟨before, rfl⟩ := Nat.exists_eq_succ_of_ne_zero (Nat.ne_of_gt begun)
    have fast := (stopAction_taken sample before).mpr idle
    exact .inl ⟨by rw [observe]; exact congrArg (·, _) fast, idle⟩
  | succ left ih =>
    by_cases busy : 0 < sample done
    · exact .inr ⟨done, by omega, observe_busy sample left done busy, busy, idle⟩
    · have quiet : ∀ i < done + 1, sample i ≤ 0 := by
        intro i below
        cases Nat.lt_succ_iff_lt_or_eq.mp below with
        | inl earlier => exact idle i earlier
        | inr now =>
          rw [now]
          exact Int.not_lt.mp busy
      rw [observe_quiet sample left done quiet]
      have later := ih (done + 1) quiet (by omega)
      rw [show done + 1 + left = done + (left + 1) by omega] at later
      exact later

theorem observeSettle_cases :
    (observeSettle sample = (.fastExit, taken sample rounds) ∧ ∀ i < rounds, sample i ≤ 0) ∨
      ∃ busy < rounds, observeSettle sample = (.drain, taken sample (busy + 1)) ∧
        0 < sample busy ∧ ∀ i < busy, sample i ≤ 0 := by
  have watched := observe_taken sample rounds 0 (fun i below => absurd below (Nat.not_lt_zero i)) (by decide)
  rw [Nat.zero_add] at watched
  exact watched

end Watching

/-! The gauge of a front. -/

section Fronts
variable {Net σ ρ : Type} {networks : Networks Net} {policy : ContentPolicy σ} {window : RateWindow ρ}
  {admission : Admission Net} {s : System σ ρ}

/-- Every request that began is inside or was logged. -/
def Settled (s : System σ ρ) : Prop :=
  ∀ id < s.count, s.exchanges.lookup id = none → s.log.countP (finishes id) = 1

/-- A step that keeps an exchange open, and ends none. -/
theorem Settled.write (settled : Settled s) (id : Nat) (next : Exchange) (after : System σ ρ)
    (count : after.count = s.count) (table : after.exchanges = s.exchanges.insert id next)
    (log : ∀ other, other ≠ id → after.log.countP (finishes other) = s.log.countP (finishes other)) :
    Settled after := by
  intro other began absent
  rw [count] at began
  rw [table] at absent
  by_cases here : other = id
  · rw [here, AList.lookup_insert] at absent
    cases absent
  · rw [AList.lookup_insert_ne here] at absent
    rw [log other here]
    exact settled other began absent

theorem Settled.begun (settled : Settled s) (head : RequestHead) (active : Int) :
    Settled { s with
      exchanges := s.exchanges.insert s.count (.new head), count := s.count + 1, connectionsActive := active } := by
  intro other began absent
  by_cases here : other = s.count
  · rw [here, AList.lookup_insert] at absent
    cases absent
  · rw [AList.lookup_insert_ne here] at absent
    have below : other < s.count + 1 := began
    exact settled other (by omega) absent

theorem Settled.filtered (settled : Settled s) (id : Nat) (exchange : Exchange) (moment : Moment) :
    Settled (filterStep networks policy window admission s id exchange moment) := by
  refine settled.write id _ _ rfl rfl fun other apart => ?_
  exact countP_others (fun e => finishes_id) (filterEvents id exchange.head moment.unix _ _) s.log
    fun e member same => apart (same.symm.trans (filterEvents_own _ _ _ _ e member))

theorem Settled.logged (settled : Settled s) (kept : Kept networks policy admission s) {id : Nat} {exchange : Exchange}
    (found : s.exchanges.lookup id = some exchange) (now : Int) :
    Settled (loggingStep policy admission s id exchange now) := by
  intro other began absent
  change (_ :: s.log).countP (finishes other) = 1
  rw [List.countP_cons]
  by_cases here : id = other
  · subst here
    rw [(kept.opened id exchange found).going, if_pos (by simp [finishes])]
  · have before : s.exchanges.lookup other = none := by
      rw [← AList.lookup_erase_ne (Ne.symm here)]
      exact absent
    rw [settled other began before, if_neg (by simp [finishes, here])]

theorem settled_of_reaches {door : Door σ ρ}
    (reached : Reaches (machine networks policy window admission door) (fun _ _ => True) s) :
    Kept networks policy admission s ∧ Settled s := by
  apply reached.invariant
  · intro state begins
    refine ⟨Kept.initially door begins, ?_⟩
    intro id began
    rw [begins.2.2.1] at began
    exact absurd began (Nat.not_lt_zero id)
  · intro state label next held _ steps
    obtain ⟨kept, settled⟩ := held
    change step networks policy window admission state label = some next at steps
    refine ⟨kept.stepped label next steps, ?_⟩
    cases label with
    | newCtx head =>
      cases steps
      exact settled.begun head _
    | requestFilter id moment =>
      rw [step] at steps
      split at steps
      · next exchange found =>
        split_ifs at steps
        cases steps
        exact settled.filtered id exchange moment
      · cases steps
    | requestBodyFilter id body =>
      rw [step] at steps
      split at steps
      · split_ifs at steps
        cases steps
        exact settled.write id _ _ rfl rfl fun _ _ => rfl
      · cases steps
    | respond id bytes =>
      rw [step] at steps
      split at steps
      · split_ifs at steps
        cases steps
        exact settled.write id _ _ rfl rfl fun _ _ => rfl
      · cases steps
    | logging id now =>
      rw [step] at steps
      split at steps
      · next exchange found =>
        cases steps
        exact settled.logged kept found now
      · cases steps

theorem gauge_idle (kept : Kept networks policy admission s) : s.connectionsActive ≤ 0 ↔ s.exchanges = ∅ := by
  have empty : s.exchanges.keys.length = 0 ↔ s.exchanges = ∅ := by
    rw [List.length_eq_zero_iff]
    constructor
    · intro none
      apply AList.ext
      exact List.map_eq_nil_iff.mp none
    · intro none
      rw [none]
      rfl
  rw [kept.gauge, ← empty]
  omega

/-- Whatever the front does between the samples of its gauge: the process exits without a
drain exactly when no request was inside at any of them, then every request that had
begun is in the log once, and otherwise the watch ends with the first busy sample. -/
theorem settled_exit {door : Door σ ρ} (at_ : Nat → System σ ρ)
    (reached : ∀ i, Reaches (machine networks policy window admission door) (fun _ _ => True) (at_ i)) :
    ((observeSettle fun i => (at_ i).connectionsActive).1 = .fastExit ↔ ∀ i < rounds, (at_ i).exchanges = ∅) ∧
      ((observeSettle fun i => (at_ i).connectionsActive).1 = .fastExit → ∀ i < rounds, ∀ id < (at_ i).count,
        (at_ i).log.countP (finishes id) = 1) ∧
      ((observeSettle fun i => (at_ i).connectionsActive).1 = .drain → ∃ busy < rounds, (at_ busy).exchanges ≠ ∅ ∧
        (∀ i < busy, (at_ i).exchanges = ∅) ∧
          (observeSettle fun i => (at_ i).connectionsActive).2.length = busy + 1) := by
  have idle : ∀ i, (at_ i).connectionsActive ≤ 0 ↔ (at_ i).exchanges = ∅ :=
    fun i => gauge_idle (settled_of_reaches (reached i)).1
  cases observeSettle_cases fun i => (at_ i).connectionsActive with
  | inl fast =>
    obtain ⟨decided, quiet⟩ := fast
    rw [decided]
    have none : ∀ i < rounds, (at_ i).exchanges = ∅ := fun i below => (idle i).mp (quiet i below)
    refine ⟨iff_of_true rfl none, ?_, fun other => StopAction.noConfusion other⟩
    intro _ i below id began
    apply (settled_of_reaches (reached i)).2 id began
    rw [none i below]
    rfl
  | inr drains =>
    obtain ⟨busy, below, decided, active, quiet⟩ := drains
    rw [decided]
    have inside : (at_ busy).exchanges ≠ ∅ := fun none => Int.not_le.mpr active ((idle busy).mpr none)
    refine ⟨iff_of_false (fun other => StopAction.noConfusion other) fun none => inside (none busy below),
      fun other => StopAction.noConfusion other, ?_⟩
    intro _
    refine ⟨busy, below, inside, fun i earlier => (idle i).mp (quiet i earlier), taken_length _ _⟩

/-- One read that is still inside at the third sample. -/
theorem settled_exit_read : ∃ at_ : Nat → System Bool Unit,
    (∀ i, Reaches (machine hostNetworks onePolicy freeWindow ⟨none, some [], none⟩ ⟨false, ()⟩) (fun _ _ => True) (at_ i)) ∧
      (at_ 2).exchanges.keys.length = 1 ∧ (observeSettle fun i => (at_ i).connectionsActive).1 ≠ .fastExit := by
  have begins : (machine hostNetworks onePolicy freeWindow ⟨none, some [], none⟩ ⟨false, ()⟩).initial
      ⟨⟨false, ()⟩, ∅, 0, 0, 0, []⟩ := ⟨rfl, rfl, rfl, rfl, rfl⟩
  obtain ⟨s, reached, busy⟩ := exists_reached _ (fun _ _ => True) [.newCtx readHead] begins
    (fun s => s.exchanges.keys.length = 1) (by decide)
  have runs : ∀ i, Reaches (machine hostNetworks onePolicy freeWindow ⟨none, some [], none⟩ ⟨false, ()⟩)
      (fun _ _ => True) (if i = 2 then s else ⟨⟨false, ()⟩, ∅, 0, 0, 0, []⟩) := by
    intro i
    split_ifs
    · exact reached
    · exact .start _ begins
  refine ⟨_, runs, of_decide_eq_true busy, fun fast => ?_⟩
  have empty := ((settled_exit _ runs).1.mp fast) 2 (by decide)
  rw [if_pos rfl] at empty
  rw [empty] at busy
  cases busy

end Fronts

end OriginCache.Front.Shutdown
