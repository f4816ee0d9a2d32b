import OriginCache.Cache.Sessions

/-! How many upstream opens a reader costs who reads each window of an object out and
goes on at its end. Windows double from the floor to the configured length. -/

namespace OriginCache.Cache.Ramp
open Sessions
open Transfers (Span)

section Walks
variable (config : Config) (total start : Nat)

/-- What `Sessions::start` opens for a request of `need` bytes that begins there. -/
def opened (s : Sessions.System) (begun need : Nat) : Option Span :=
  (takeSlot s begun).bind fun behind => runSpan config begun need total behind

/-- The windows of such a reader, the last one first. The first request finds no run. Each
next one finds the run of the last window read to its end and begins there. -/
inductive Walk : List Span → Prop
  | jump (s : Sessions.System) (need : Nat) (span : Span) : s.slot = none →
      opened config total s start need = some span → Walk [span]
  | onward (s : Sessions.System) (id need : Nat) (last : Run) (span : Span) (rest : List Span) :
      Walk (last.span :: rest) → s.slot = some (.live id) → s.runs.lookup id = some last →
      last.span.stop ≤ last.playhead → opened config total s last.span.stop need = some span →
      Walk (span :: last.span :: rest)

/-- The configured window, which is one byte at least. -/
def configured : Nat := max config.sessionWindowBytes 1

def floor : Nat := floorBytes (configured config) config.windowFloorBytes

/-- The window after so many that were read out. -/
def climb (n : Nat) : Nat := min (floor config * 2 ^ n) (configured config)

/-- What so many windows cover. -/
def covered (n : Nat) : Nat := ((List.range n).map (climb config)).sum

variable {config total start}

theorem opened_jump {s : Sessions.System} (need : Nat) (clear : s.slot = none) :
    opened config total s start need = runSpan config start need total none := by
  unfold opened takeSlot
  simp only [clear, Option.bind_some]

/-- The slot is handed over at the end of its run, with what the run achieved. -/
theorem opened_onward {s : Sessions.System} {id : Nat} {last : Run} (need : Nat) (live : s.slot = some (.live id))
    (known : s.runs.lookup id = some last) :
    opened config total s last.span.stop need = runSpan config last.span.stop need total
      (some (last.span.stop - last.span.start, last.playhead - last.span.start)) := by
  have proper := last.span.proper
  have achieved : behindOf last.span.stop last =
      some (last.span.stop - last.span.start, last.playhead - last.span.start) := by
    rw [behindOf, if_pos ⟨Nat.le_of_lt proper, Nat.le_refl _⟩]
  unfold opened takeSlot
  simp only [live, known, or_true, if_true, Option.bind_some, achieved]

theorem configured_pos : 0 < configured config := Nat.lt_of_lt_of_le Nat.zero_lt_one (Nat.le_max_right _ 1)

theorem floor_le : floor config ≤ configured config := by
  unfold floor floorBytes
  have positive := @configured_pos config
  omega

theorem climb_zero : climb config 0 = floor config := by
  rw [climb, pow_zero, Nat.mul_one, Nat.min_eq_left floor_le]

theorem climb_succ (n : Nat) : climb config (n + 1) = min (2 * climb config n) (configured config) := by
  unfold climb
  rw [pow_succ]
  generalize floor config = f
  have same : f * (2 ^ n * 2) = 2 * (f * 2 ^ n) := by rw [← Nat.mul_assoc, Nat.mul_comm]
  omega

theorem covered_succ (n : Nat) : covered config (n + 1) = covered config n + climb config n := by
  rw [covered, List.range_succ, List.map_append, List.sum_append, covered]
  simp only [List.map_cons, List.map_nil, List.sum_cons, List.sum_nil, Nat.add_zero]

/-- The span of a run is the window that was chosen. -/
theorem runSpan_some {begun need : Nat} {behind : Option Behind} {span : Span}
    (given : runSpan config begun need total behind = some span) :
    span.start = begun ∧ span.stop = begun + windowFor need (total - begun) config behind ∧ begun < span.stop ∧
      span.stop ≤ total := by
  unfold runSpan at given
  simp only at given
  split_ifs at given with range
  cases given
  have inside : windowFor need (total - begun) config behind ≤ total - begun := Nat.min_le_right _ _
  refine ⟨rfl, ?_, range.1, Nat.min_le_right _ _⟩
  simp only at range ⊢
  omega

theorem windowFor_jump (need remaining : Nat) :
    windowFor need remaining config none = min (max need (floor config)) remaining := rfl

/-- A window that was read out is doubled. -/
theorem windowFor_spent (need remaining length consumed : Nat) (filled : 0 < length) (spent : length ≤ consumed) :
    windowFor need remaining config (some (length, consumed)) =
      min (max need (min (length * 2) (configured config))) remaining := by
  unfold windowFor
  simp only [filled, spent, and_self, if_true]
  rfl

/-- Each window but the last one was a full step of the climb. -/
structure Climbed (config : Config) (total start : Nat) (last : Span) (rest : List Span) : Prop where
  behind : start + covered config rest.length ≤ last.start
  window : min (climb config rest.length) (total - last.start) ≤ last.stop - last.start
  inside : last.stop ≤ total
  once : ((last :: rest).map Span.len).sum = last.stop - start

theorem climbed_jump (need : Nat) (span : Span) (given : runSpan config start need total none = some span) :
    Climbed config total start span [] := by
  obtain ⟨first, stop, range, inside⟩ := runSpan_some given
  rw [windowFor_jump] at stop
  constructor
  · rw [first]
    exact Nat.le_refl _
  · rw [List.length_nil, climb_zero, first]
    omega
  · exact inside
  · simp only [List.map_cons, List.map_nil, List.sum_cons, List.sum_nil, Span.len, first, Nat.add_zero]

theorem climbed_onward (need playhead : Nat) (last span : Span) (rest : List Span)
    (climbed : Climbed config total start last rest) (spent : last.stop ≤ playhead)
    (given : runSpan config last.stop need total (some (last.stop - last.start, playhead - last.start)) = some span) :
    Climbed config total start span (last :: rest) := by
  obtain ⟨behind, window, inside, once⟩ := climbed
  obtain ⟨first, stop, range, within⟩ := runSpan_some given
  have proper := last.proper
  rw [windowFor_spent need _ _ _ (by omega) (by omega)] at stop
  -- The object goes on behind the last window, so that window was not cut short.
  have full : climb config rest.length ≤ last.stop - last.start := by omega
  constructor
  · rw [List.length_cons, covered_succ, first]
    omega
  · rw [List.length_cons, climb_succ, first]
    omega
  · exact within
  · rw [List.map_cons, List.sum_cons, once, Span.len, first]
    have ahead : start ≤ last.start := Nat.le_trans (Nat.le_add_right _ _) behind
    omega

theorem walk_climbed (spans : List Span) (walk : Walk config total start spans) :
    ∃ last rest, spans = last :: rest ∧ Climbed config total start last rest := by
  induction walk with
  | jump s need span clear given =>
    rw [opened_jump need clear] at given
    exact ⟨span, [], rfl, climbed_jump need span given⟩
  | onward s id need last span rest _ live known spent given ih =>
    obtain ⟨_, _, same, climbed⟩ := ih
    cases same
    rw [opened_onward need live known] at given
    exact ⟨span, last.span :: rest, rfl, climbed_onward need last.playhead last.span span rest climbed spent given⟩

/-- From the step on that reaches it, each window is the configured one. -/
theorem covered_linear (a n : Nat) (enough : configured config ≤ floor config * 2 ^ a) :
    (n - a) * configured config ≤ covered config n := by
  induction n with
  | zero =>
    rw [Nat.zero_sub, Nat.zero_mul]
    exact Nat.zero_le _
  | succ n ih =>
    rw [covered_succ]
    by_cases early : n < a
    · rw [Nat.sub_eq_zero_of_le early, Nat.zero_mul]
      exact Nat.zero_le _
    · have high : a ≤ n := Nat.le_of_not_lt early
      have top : climb config n = configured config := by
        apply Nat.min_eq_right
        calc
          configured config ≤ floor config * 2 ^ a := enough
          _ ≤ floor config * 2 ^ n := Nat.mul_le_mul_left _ (Nat.pow_le_pow_right Nat.zero_lt_two high)
      have split : (n + 1 - a) * configured config = (n - a) * configured config + configured config := by
        rw [Nat.succ_sub high, Nat.succ_mul]
      omega

end Walks

def defaults : Config := ⟨67108864, 8388608⟩

def firstRun : Run := ⟨⟨0, 8388608, by decide, by decide⟩, none, 25165824, 8388608, true, true⟩

def handing : Sessions.System := { empty with slot := some (.live 0), runs := AList.singleton 0 firstRun }

def secondSpan : Span := ⟨8388608, 25165824, by decide, by decide⟩

end OriginCache.Cache.Ramp
