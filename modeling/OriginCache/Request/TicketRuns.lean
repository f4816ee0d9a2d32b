import OriginCache.Request.MintedTickets

/-! One isolate of the ticket worker over all the requests it answers. Its valve lets a
session have so many tickets in a minute and no more, as long as the clock does not go
back. -/

namespace OriginCache.Request.TicketRuns
open Foundation.Splits Foundation.Tables TicketWorker
open Cache.SegName (Text)

/-- A request at a moment, with the session a generator would give. -/
structure Call where
  request : TicketRequest
  newSession : Text
  nowMs : Nat

def Call.minute (c : Call) : Nat := c.nowMs / 60000

/-- What the isolate remembers, and what it has answered. -/
structure Isolate where
  seen : Table Text Nat
  answered : List (Call × Answer)

section Worker
variable (runtime : Runtime) (env : Env)

def Call.session (c : Call) : Text := env.session c.request c.newSession

def answerTo (s : Isolate) (c : Call) : Answer × Table Text Nat :=
  handleTicketRequest runtime env c.request c.newSession c.nowMs s.seen

def Isolate.handle (s : Isolate) (c : Call) : Isolate :=
  ⟨(answerTo runtime env s c).2, s.answered ++ [(c, (answerTo runtime env s c).1)]⟩

/-- An isolate starts with nothing seen. -/
def isolateAfter (calls : List Call) : Isolate := calls.foldl (Isolate.handle runtime env) ⟨∅, []⟩

/-- The request reaches the valve. -/
def asks (c : Call) : Bool :=
  decide (c.request.method = methodPost) && env.required.any fun bound =>
    originAllowed c.request bound.allowed &&
      (validateSrc runtime (runtime.srcOf c.request.body) bound.host bound.keyPrefix).isOk

def isTicket : Answer → Bool
  | .ticket _ _ _ => true
  | .refused _ => false

/-- The requests of a session in a minute that reached the valve. -/
def asked (session : Text) (minute : Nat) (answered : List (Call × Answer)) : Nat :=
  answered.countP fun a => asks runtime env a.1 && decide (a.1.session env = session ∧ a.1.minute = minute)

def minted (session : Text) (minute : Nat) (answered : List (Call × Answer)) : Nat :=
  answered.countP fun a => isTicket a.2 && decide (a.1.session env = session ∧ a.1.minute = minute)

def rateOf : Text := env.ratePerMin.getD defaultRatePerMin

/-! One request. -/

theorem validateSrc_status (raw : Option Text) (host keyPrefix : Text) (status : Nat)
    (refused : validateSrc runtime raw host keyPrefix = .error status) : status ≠ 429 := by
  unfold validateSrc at refused
  split at refused
  · cases refused
    decide
  · split_ifs at refused
    · cases refused
      decide
    · cases refused
      decide
    · split at refused
      · cases refused
        decide
      · split_ifs at refused
        cases refused
        decide

/-- What a request can do: be refused before the valve, at it, or pass it. -/
theorem answerTo_cases (s : Isolate) (c : Call) :
    (asks runtime env c = false ∧ (answerTo runtime env s c).2 = s.seen ∧
        ∃ status, (answerTo runtime env s c).1 = .refused status ∧ status ≠ 429) ∨
      (asks runtime env c = true ∧
        (answerTo runtime env s c).2 = (takeTicket runtime (rateOf env) s.seen (c.session env) c.nowMs).2 ∧
        if (takeTicket runtime (rateOf env) s.seen (c.session env) c.nowMs).1 then
          (answerTo runtime env s c).1 ≠ .refused 429
        else (answerTo runtime env s c).1 = .refused 429) := by
  unfold answerTo handleTicketRequest asks Call.session rateOf
  by_cases post : c.request.method = methodPost
  · rw [if_neg (not_not_intro post)]
    cases required : env.required with
    | none => exact .inl ⟨by rw [decide_eq_true post]; rfl, rfl, 500, rfl, by decide⟩
    | some bound =>
      simp only [post, decide_true, Bool.true_and, Option.any_some]
      cases origin : originAllowed c.request bound.allowed with
      | false => exact .inl ⟨rfl, rfl, 403, rfl, by decide⟩
      | true =>
        cases valid : validateSrc runtime (runtime.srcOf c.request.body) bound.host bound.keyPrefix with
        | error status => exact .inl ⟨rfl, rfl, status, rfl, validateSrc_status runtime _ _ _ status valid⟩
        | ok key =>
          right
          refine ⟨rfl, ?_⟩
          simp only [Bool.not_true, Bool.false_eq_true, if_false]
          cases passed : (takeTicket runtime (env.ratePerMin.getD defaultRatePerMin) s.seen
            (env.session c.request c.newSession) c.nowMs).1 with
          | false => exact ⟨rfl, rfl⟩
          | true =>
            cases runtime.expiresAt c.nowMs (env.expiresSecs.getD defaultExpires) with
            | none => exact ⟨rfl, by simp⟩
            | some moment => exact ⟨rfl, by simp⟩
  · rw [if_pos post]
    exact .inl ⟨by rw [decide_eq_false post]; rfl, rfl, 405, rfl, by decide⟩

end Worker

/-! The valve's names. -/

def windowText (minute : Nat) : Text := ':' :: numeral minute

theorem colon_not_mem_numeral (n : Nat) : ':' ∉ numeral n := not_mem_numeral n ':' (by decide)

/-- A name is read back as its session and its minute. -/
theorem name_injective {session other : Text} {minute n : Nat}
    (same : session ++ windowText minute = other ++ windowText n) : session = other ∧ minute = n := by
  obtain ⟨front, rest⟩ := append_cons_inj_last ':' same (colon_not_mem_numeral minute) (colon_not_mem_numeral n)
  exact ⟨front, numeral_injective rest⟩

theorem window_suffix (session : Text) (minute n : Nat) :
    (windowText n).isSuffixOf (session ++ windowText minute) = true ↔ n = minute := by
  rw [List.isSuffixOf_iff_suffix]
  constructor
  · intro ⟨front, whole⟩
    exact (name_injective whole).2
  · rintro rfl
    exact List.suffix_append session _

section Valve
variable (runtime : Runtime) (perMinute : Text) (seen : Table Text Nat) (session : Text) (nowMs : Nat)

/-- How often the session was seen in the minute. -/
def uses (seen : Table Text Nat) (session : Text) (minute : Nat) : Nat :=
  (seen.lookup (session ++ windowText minute)).getD 0

def counted : Table Text Nat :=
  seen.insert (session ++ windowText (nowMs / 60000)) (uses seen session (nowMs / 60000) + 1)

theorem takeTicket_eq : takeTicket runtime perMinute seen session nowMs =
    (runtime.atMost (uses seen session (nowMs / 60000) + 1) perMinute,
      if limiterCap < (counted seen session nowMs).keys.length then
        retain (counted seen session nowMs) fun name _ => (windowText (nowMs / 60000)).isSuffixOf name
      else counted seen session nowMs) := rfl

theorem uses_counted (other : Text) (minute : Nat) : uses (counted seen session nowMs) other minute =
    if other = session ∧ minute = nowMs / 60000 then uses seen session (nowMs / 60000) + 1
    else uses seen other minute := by
  unfold uses counted
  split_ifs with same
  · rw [same.1, same.2, AList.lookup_insert]
    rfl
  · have differs : other ++ windowText minute ≠ session ++ windowText (nowMs / 60000) :=
      fun equal => same (name_injective equal)
    rw [AList.lookup_insert_ne differs]

/-- The minute of the call is counted and kept, and of later ones nothing is seen. -/
theorem uses_takeTicket (other : Text) (minute : Nat) (now : nowMs / 60000 ≤ minute)
    (fresh : nowMs / 60000 < minute → uses seen other minute = 0) :
    uses (takeTicket runtime perMinute seen session nowMs).2 other minute =
      if other = session ∧ minute = nowMs / 60000 then uses seen session (nowMs / 60000) + 1
      else uses seen other minute := by
  rw [takeTicket_eq, ← uses_counted]
  simp only
  split_ifs with full
  · unfold uses
    rw [lookup_retain]
    by_cases current : minute = nowMs / 60000
    · have kept : (windowText (nowMs / 60000)).isSuffixOf (other ++ windowText minute) = true :=
        (window_suffix other minute _).mpr current.symm
      cases found : (counted seen session nowMs).lookup (other ++ windowText minute) with
      | none => rfl
      | some n =>
        rw [Option.filter_some, if_pos kept]
    · have dropped : (windowText (nowMs / 60000)).isSuffixOf (other ++ windowText minute) ≠ true :=
        fun suffix => current ((window_suffix other minute _).mp suffix).symm
      have before := uses_counted seen session nowMs other minute
      rw [if_neg fun same => current same.2, fresh (by omega)] at before
      unfold uses at before
      rw [before]
      cases found : (counted seen session nowMs).lookup (other ++ windowText minute) with
      | none => rfl
      | some n =>
        rw [Option.filter_some, if_neg dropped]
        rfl
  · rfl

/-- More names than the bound are names of one minute. -/
theorem keys_takeTicket :
    (takeTicket runtime perMinute seen session nowMs).2.keys.length ≤ limiterCap ∨
      ∃ minute, ∀ name ∈ (takeTicket runtime perMinute seen session nowMs).2.keys, windowText minute <:+ name := by
  rw [takeTicket_eq]
  simp only
  split_ifs with full
  · right
    refine ⟨nowMs / 60000, ?_⟩
    intro name member
    obtain ⟨entry, inside, same⟩ := List.mem_map.mp member
    have kept := (List.mem_filter.mp inside).2
    rw [List.isSuffixOf_iff_suffix] at kept
    exact same ▸ kept
  · exact .inl (Nat.le_of_not_lt full)

end Valve

/-! The run. -/

section Run
variable (runtime : Runtime) (env : Env) (rate : Nat)

/-- The valve counts what it was asked, and tickets come out of what was counted. -/
structure Metered (s : Isolate) : Prop where
  counts : ∀ session minute, (∀ a ∈ s.answered, a.1.minute ≤ minute) →
    uses s.seen session minute = asked runtime env session minute s.answered
  covered : ∀ session minute, minted env session minute s.answered ≤ asked runtime env session minute s.answered
  within : ∀ session minute, minted env session minute s.answered ≤ rate
  small : s.seen.keys.length ≤ limiterCap ∨ ∃ minute, ∀ name ∈ s.seen.keys, windowText minute <:+ name

theorem metered_start : Metered runtime env rate ⟨∅, []⟩ where
  counts _ _ _ := rfl
  covered _ _ := Nat.zero_le _
  within _ _ := Nat.zero_le _
  small := .inl (Nat.zero_le _)

variable {runtime env rate} {s : Isolate} {c : Call}

theorem asked_later (session : Text) (minute : Nat) (past : ∀ a ∈ s.answered, a.1.minute < minute) :
    asked runtime env session minute s.answered = 0 := by
  apply List.countP_eq_zero.mpr
  intro a member
  have other : a.1.minute ≠ minute := Nat.ne_of_lt (past a member)
  simp only [other, and_false, decide_false, Bool.and_false, Bool.false_eq_true, not_false_eq_true]

/-- A call that asks is one more of its session and minute. -/
theorem asked_handle (session : Text) (minute : Nat) :
    asked runtime env session minute (s.handle runtime env c).answered =
      asked runtime env session minute s.answered +
        if asks runtime env c = true ∧ session = c.session env ∧ minute = c.minute then 1 else 0 := by
  rw [asked, Isolate.handle, List.countP_append, List.countP_singleton, asked]
  simp only [Bool.and_eq_true, decide_eq_true_eq, eq_comm (a := session), eq_comm (a := minute)]

theorem minted_handle (session : Text) (minute : Nat) :
    minted env session minute (s.handle runtime env c).answered = minted env session minute s.answered +
      if isTicket (answerTo runtime env s c).1 = true ∧ session = c.session env ∧ minute = c.minute then 1 else 0 := by
  rw [minted, Isolate.handle, List.countP_append, List.countP_singleton, minted]
  simp only [Bool.and_eq_true, decide_eq_true_eq, eq_comm (a := session), eq_comm (a := minute)]

variable (limited : ∀ used, 0 < used → (runtime.atMost used (rateOf env) = true ↔ used ≤ rate))
include limited

/-- The valve refuses a call exactly when its session has been counted so often. -/
theorem refused_iff (metered : Metered runtime env rate s) (clock : ∀ a ∈ s.answered, a.1.minute ≤ c.minute) :
    (answerTo runtime env s c).1 = .refused 429 ↔
      asks runtime env c = true ∧ rate ≤ asked runtime env (c.session env) c.minute s.answered := by
  have counts := metered.counts (c.session env) c.minute clock
  have passes := limited (uses s.seen (c.session env) c.minute + 1) (Nat.succ_pos _)
  rcases answerTo_cases runtime env s c with ⟨none, _, status, refused, other⟩ | ⟨reaches, _, answer⟩
  · rw [refused, none]
    simp only [Answer.refused.injEq, other, Bool.false_eq_true, false_and]
  · rw [takeTicket_eq] at answer
    change (if runtime.atMost (uses s.seen (c.session env) c.minute + 1) (rateOf env) = true then _ else _) at answer
    rw [← counts, reaches]
    by_cases passed : runtime.atMost (uses s.seen (c.session env) c.minute + 1) (rateOf env) = true
    · rw [if_pos passed] at answer
      have room := passes.mp passed
      exact ⟨fun refused => absurd refused answer, fun full => absurd full.2 (by omega)⟩
    · rw [if_neg passed] at answer
      have full : ¬uses s.seen (c.session env) c.minute + 1 ≤ rate := fun room => passed (passes.mpr room)
      exact ⟨fun _ => ⟨rfl, by omega⟩, fun _ => answer⟩

theorem ticket_room (metered : Metered runtime env rate s) (clock : ∀ a ∈ s.answered, a.1.minute ≤ c.minute)
    (ticket : isTicket (answerTo runtime env s c).1 = true) :
    asks runtime env c = true ∧ asked runtime env (c.session env) c.minute s.answered < rate := by
  have passes : (answerTo runtime env s c).1 ≠ .refused 429 := by
    intro refused
    rw [refused] at ticket
    cases ticket
  rw [Ne, refused_iff limited metered clock, not_and] at passes
  rcases answerTo_cases runtime env s c with ⟨_, _, status, refused, _⟩ | ⟨reaches, _, _⟩
  · rw [refused] at ticket
    cases ticket
  · exact ⟨reaches, Nat.lt_of_not_le (passes reaches)⟩

theorem metered_handle (metered : Metered runtime env rate s) (clock : ∀ a ∈ s.answered, a.1.minute ≤ c.minute) :
    Metered runtime env rate (s.handle runtime env c) := by
  have room := ticket_room limited metered clock
  constructor
  · intro session minute all
    have later : ∀ a ∈ s.answered, a.1.minute ≤ minute := fun a member => all a (List.mem_append_left _ member)
    have now : c.minute ≤ minute := all (c, _) (List.mem_append_right _ (List.mem_singleton.mpr rfl))
    have before := metered.counts session minute later
    rw [asked_handle]
    rcases answerTo_cases runtime env s c with ⟨none, kept, _⟩ | ⟨reaches, taken, _⟩
    · rw [if_neg fun asking => by rw [none] at asking; exact absurd asking.1 Bool.false_ne_true]
      change uses (answerTo runtime env s c).2 session minute = _
      rw [kept, before, Nat.add_zero]
    · have fresh : c.minute < minute → uses s.seen session minute = 0 := by
        intro ahead
        rw [before]
        exact asked_later session minute fun a member => Nat.lt_of_le_of_lt (clock a member) ahead
      change uses (answerTo runtime env s c).2 session minute = _
      rw [taken, uses_takeTicket runtime (rateOf env) s.seen (c.session env) c.nowMs session minute now fresh]
      simp only [reaches, true_and]
      change (if session = c.session env ∧ minute = c.minute then uses s.seen (c.session env) c.minute + 1 else _) = _
      split_ifs with same
      · obtain ⟨rfl, rfl⟩ := same
        rw [before]
      · rw [before, Nat.add_zero]
  · intro session minute
    have before := metered.covered session minute
    rw [asked_handle, minted_handle]
    split_ifs with ticket asking asking
    · omega
    · exact absurd ⟨(room ticket.1).1, ticket.2⟩ asking
    · omega
    · omega
  · intro session minute
    have before := metered.within session minute
    have covered := metered.covered session minute
    rw [minted_handle]
    split_ifs with ticket
    · obtain ⟨made, rfl, rfl⟩ := ticket
      have less := (room made).2
      omega
    · omega
  · rcases answerTo_cases runtime env s c with ⟨_, kept, _⟩ | ⟨_, taken, _⟩
    · rw [Isolate.handle, kept]
      exact metered.small
    · rw [Isolate.handle, taken]
      exact keys_takeTicket runtime (rateOf env) s.seen (c.session env) c.nowMs

omit limited in
theorem isolateAfter_calls (calls : List Call) : (isolateAfter runtime env calls).answered.map Prod.fst = calls := by
  induction calls using List.reverseRecOn with
  | nil => rfl
  | append_singleton calls c ih =>
    rw [isolateAfter, List.foldl_append, List.foldl_cons, List.foldl_nil]
    change ((isolateAfter runtime env calls).answered ++ [(c, _)]).map Prod.fst = _
    rw [List.map_append, ih]
    rfl

omit limited in
theorem minutes_before (calls : List Call) (last : Call)
    (clock : (calls ++ [last]).Pairwise fun a b => a.nowMs ≤ b.nowMs) :
    ∀ a ∈ (isolateAfter runtime env calls).answered, a.1.minute ≤ last.minute := by
  intro a member
  have called : a.1 ∈ calls := by
    rw [← @isolateAfter_calls runtime env calls]
    exact List.mem_map_of_mem member
  exact Nat.div_le_div_right ((List.pairwise_append.mp clock).2.2 a.1 called last (List.mem_singleton.mpr rfl))

theorem metered_after (calls : List Call) (clock : calls.Pairwise fun a b => a.nowMs ≤ b.nowMs) :
    Metered runtime env rate (isolateAfter runtime env calls) := by
  induction calls using List.reverseRecOn with
  | nil => exact metered_start runtime env rate
  | append_singleton calls c ih =>
    rw [isolateAfter, List.foldl_append, List.foldl_cons, List.foldl_nil]
    exact metered_handle limited (ih (List.pairwise_append.mp clock).1) (minutes_before calls c clock)

end Run

open MintedTickets (mintRuntime mintEnv mintRequest mintMs)

def oneEnv : Env := { mintEnv with ratePerMin := some ['1'] }

def viewerCall (ms : Nat) : Call := ⟨mintRequest ['v'], ['n'], mintMs + ms⟩

end OriginCache.Request.TicketRuns
