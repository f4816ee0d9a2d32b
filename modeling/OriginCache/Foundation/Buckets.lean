import Mathlib.Algebra.BigOperators.Group.List.Basic
import Mathlib.Data.List.Induction
import Mathlib.Order.Lattice
import Mathlib.Tactic.Common

/-! Amounts counted in buckets that are ordered by time. Dropping the buckets before a
cut loses nothing of what came after the cut, so a window that is pruned when it is
looked at still holds the sum over its trailing part. -/

namespace OriginCache.Foundation.Buckets

section Cuts
variable {τ M : Type*} [LinearOrder τ]

/-- What came after the cut. -/
def after (cut : τ) (events : List (τ × M)) : List (τ × M) := events.filter fun e => cut < e.1

def Ascending (buckets : List (τ × M)) : Prop := buckets.Pairwise fun a b => a.1 < b.1

theorem after_cons (cut : τ) (e : τ × M) (events : List (τ × M)) :
    after cut (e :: events) = if cut < e.1 then e :: after cut events else after cut events := by
  unfold after
  by_cases newer : cut < e.1 <;> simp [newer]

theorem after_after {cut later : τ} (order : cut ≤ later) (events : List (τ × M)) :
    after later (after cut events) = after later events := by
  unfold after
  rw [List.filter_filter]
  apply List.filter_congr
  intro e _
  by_cases newer : later < e.1
  · simp [newer, lt_of_le_of_lt order newer]
  · simp [newer]

theorem after_eq_nil {cut : τ} {events : List (τ × M)} (bounded : ∀ e ∈ events, e.1 ≤ cut) :
    after cut events = [] := by
  apply List.filter_eq_nil_iff.mpr
  intro e member
  simpa using bounded e member

theorem after_eq_self {cut : τ} {events : List (τ × M)} (newer : ∀ e ∈ events, cut < e.1) :
    after cut events = events := by
  apply List.filter_eq_self.mpr
  intro e member
  simpa using newer e member

/-- Of ascending buckets the old ones are at the front. -/
theorem dropWhile_eq_after (cut : τ) (buckets : List (τ × M)) (ascending : Ascending buckets) :
    (buckets.dropWhile fun b => b.1 ≤ cut) = after cut buckets := by
  induction buckets with
  | nil => rfl
  | cons b rest ih =>
    obtain ⟨first, others⟩ := List.pairwise_cons.mp ascending
    rw [List.dropWhile_cons, after_cons]
    by_cases old : b.1 ≤ cut
    · rw [if_pos (by simpa using old), if_neg (not_lt.mpr old)]
      exact ih others
    · have newer := not_le.mp old
      rw [if_neg (by simpa using newer), if_pos newer, after_eq_self fun e member => lt_trans newer (first e member)]

end Cuts

section Sums
variable {τ M : Type*} [AddCommMonoid M]

def total (events : List (τ × M)) : M := (events.map Prod.snd).sum

theorem total_cons (e : τ × M) (events : List (τ × M)) : total (e :: events) = e.2 + total events := by
  rw [total, List.map_cons, List.sum_cons, total]

theorem total_append (first second : List (τ × M)) : total (first ++ second) = total first + total second := by
  rw [total, List.map_append, List.sum_append, total, total]

variable [LinearOrder τ]

/-- Add to the newest bucket if it is this instant's, else open one. -/
def push (buckets : List (τ × M)) (now : τ) (amount : M) : List (τ × M) :=
  match buckets.getLast? with
  | some (instant, count) =>
      if instant = now then buckets.dropLast ++ [(instant, count + amount)] else buckets ++ [(now, amount)]
  | none => buckets ++ [(now, amount)]

/-- The newest bucket is this instant's and is the last, or every bucket is older. -/
theorem push_cases (buckets : List (τ × M)) (now : τ) (amount : M) (ascending : Ascending buckets)
    (bounded : ∀ b ∈ buckets, b.1 ≤ now) :
    (∃ front count, buckets = front ++ [(now, count)] ∧ push buckets now amount = front ++ [(now, count + amount)]) ∨
      ((∀ b ∈ buckets, b.1 < now) ∧ push buckets now amount = buckets ++ [(now, amount)]) := by
  cases buckets using List.reverseRecOn with
  | nil => exact .inr ⟨by simp, rfl⟩
  | append_singleton front last =>
    obtain ⟨instant, count⟩ := last
    have ordered := (List.pairwise_append.mp ascending).2.2
    unfold push
    rw [List.getLast?_concat, List.dropLast_concat]
    by_cases same : instant = now
    · subst same
      exact .inl ⟨front, count, rfl, if_pos rfl⟩
    · have newest : instant < now := lt_of_le_of_ne (bounded (instant, count) (by simp)) same
      refine .inr ⟨fun b member => ?_, if_neg same⟩
      rcases List.mem_append.mp member with older | here
      · exact lt_trans (ordered b older (instant, count) (by simp)) newest
      · rw [List.mem_singleton.mp here]
        exact newest

theorem ascending_push (buckets : List (τ × M)) (now : τ) (amount : M) (ascending : Ascending buckets)
    (bounded : ∀ b ∈ buckets, b.1 ≤ now) :
    Ascending (push buckets now amount) ∧ ∀ b ∈ push buckets now amount, b.1 ≤ now := by
  have fresh : ∀ (front : List (τ × M)) (value : M), Ascending front → (∀ b ∈ front, b.1 < now) →
      Ascending (front ++ [(now, value)]) ∧ ∀ b ∈ front ++ [(now, value)], b.1 ≤ now := by
    intro front value ordered older
    constructor
    · apply List.pairwise_append.mpr
      refine ⟨ordered, List.pairwise_singleton _ _, fun a member b last => ?_⟩
      rw [List.mem_singleton.mp last]
      exact older a member
    · intro b member
      rcases List.mem_append.mp member with earlier | last
      · exact (older b earlier).le
      · rw [List.mem_singleton.mp last]
  rcases push_cases buckets now amount ascending bounded with ⟨front, count, whole, pushed⟩ | ⟨older, pushed⟩
  · rw [pushed]
    subst whole
    have parts := List.pairwise_append.mp ascending
    exact fresh front _ parts.1 fun b member => parts.2.2 b member (now, count) (by simp)
  · rw [pushed]
    exact fresh buckets amount ascending older

theorem total_after_push (buckets : List (τ × M)) (now cut : τ) (amount : M) (ascending : Ascending buckets)
    (bounded : ∀ b ∈ buckets, b.1 ≤ now) (older : cut < now) :
    total (after cut (push buckets now amount)) = total (after cut buckets) + amount := by
  have single : ∀ value : M, after cut [(now, value)] = [(now, value)] := by
    intro value
    rw [after_cons, if_pos older]
    rfl
  have split : ∀ (front : List (τ × M)) (value : M),
      total (after cut (front ++ [(now, value)])) = total (after cut front) + value := by
    intro front value
    have parts : after cut (front ++ [(now, value)]) = after cut front ++ after cut [(now, value)] :=
      List.filter_append ..
    rw [parts, single, total_append, total_cons]
    exact congrArg _ (add_zero value)
  rcases push_cases buckets now amount ascending bounded with ⟨front, count, whole, pushed⟩ | ⟨_, pushed⟩
  · rw [pushed, whole, split, split, add_assoc]
  · rw [pushed, split]

end Sums

/-! Buckets that stand for a history of events. -/

section Tracking
variable {τ M : Type*} [LinearOrder τ] [AddCommMonoid M]

/-- The buckets hold, after every cut from `low` on, what the events hold. -/
structure Tracks (low clock : τ) (buckets events : List (τ × M)) : Prop where
  ascending : Ascending buckets
  bounded : ∀ b ∈ buckets, b.1 ≤ clock
  same : ∀ cut, low ≤ cut → total (after cut buckets) = total (after cut events)

theorem Tracks.empty (low clock : τ) : Tracks low clock ([] : List (τ × M)) [] :=
  ⟨List.Pairwise.nil, by simp, fun _ _ => rfl⟩

variable {low clock : τ} {buckets events : List (τ × M)}

theorem Tracks.later (tracks : Tracks low clock buckets events) {low' clock' : τ} (rises : low ≤ low')
    (passes : clock ≤ clock') : Tracks low' clock' buckets events :=
  ⟨tracks.ascending, fun b member => (tracks.bounded b member).trans passes,
    fun cut above => tracks.same cut (rises.trans above)⟩

theorem Tracks.prune (tracks : Tracks low clock buckets events) :
    Tracks low clock (buckets.dropWhile fun b => b.1 ≤ low) events := by
  rw [dropWhile_eq_after low buckets tracks.ascending]
  refine ⟨tracks.ascending.filter _, fun b member => tracks.bounded b (List.mem_of_mem_filter member), ?_⟩
  intro cut above
  rw [after_after above]
  exact tracks.same cut above

theorem Tracks.total_eq (tracks : Tracks low clock buckets events) :
    total (buckets.dropWhile fun b => b.1 ≤ low) = total (after low events) := by
  rw [dropWhile_eq_after low buckets tracks.ascending]
  exact tracks.same low le_rfl

theorem Tracks.push (tracks : Tracks low clock buckets events) (amount : M) :
    Tracks low clock (push buckets clock amount) ((clock, amount) :: events) := by
  have order := ascending_push buckets clock amount tracks.ascending tracks.bounded
  refine ⟨order.1, order.2, fun cut above => ?_⟩
  rw [after_cons]
  by_cases older : cut < clock
  · rw [if_pos older, total_after_push buckets clock cut amount tracks.ascending tracks.bounded older,
      tracks.same cut above, total_cons, add_comm]
  · -- Nothing is newer than the clock.
    have passed := not_lt.mp older
    rw [if_neg older, after_eq_nil fun b member => (order.2 b member).trans passed, ← tracks.same cut above,
      after_eq_nil fun b member => (tracks.bounded b member).trans passed]

/-- An event of no amount changes no sum. -/
theorem Tracks.idle (tracks : Tracks low clock buckets events) (now : τ) :
    Tracks low clock buckets ((now, 0) :: events) := by
  refine ⟨tracks.ascending, tracks.bounded, fun cut above => ?_⟩
  rw [after_cons, tracks.same cut above]
  split_ifs
  · rw [total_cons]
    exact (zero_add _).symm
  · rfl

end Tracking

end OriginCache.Foundation.Buckets
