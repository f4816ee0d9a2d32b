import Mathlib.Tactic.Common

/-! Machines whose steps are chosen by labels, and the states they reach by steps
that meet a condition. An invariant needs one proof for the initial states and one
for a single step. -/

namespace OriginCache.Foundation.Runs

structure Machine (σ α : Type*) where
  initial : σ → Prop
  step : σ → α → Option σ

section Reachability
variable {σ α : Type*}

inductive Reaches (machine : Machine σ α) (allowed : σ → α → Prop) : σ → Prop
  | start (state : σ) : machine.initial state → Reaches machine allowed state
  | next (state after : σ) (label : α) : Reaches machine allowed state → allowed state label →
      machine.step state label = some after → Reaches machine allowed after

variable {machine : Machine σ α} {allowed : σ → α → Prop}

/-- What holds at the start and survives every allowed step holds on every run. -/
theorem Reaches.invariant (holds : σ → Prop) (starts : ∀ state, machine.initial state → holds state)
    (keeps : ∀ state label after, holds state → allowed state label →
      machine.step state label = some after → holds after)
    {state : σ} (reached : Reaches machine allowed state) : holds state := by
  induction reached with
  | start state begins => exact starts state begins
  | next state after label _ meets steps held => exact keeps state label after held meets steps

/-- A run of a larger machine is a run of a part of it when each step is a step of
the part or leaves it alone. -/
theorem Reaches.project {τ β : Type*} {part : Machine τ β} {permitted : τ → β → Prop} (view : σ → τ)
    (starts : ∀ state, machine.initial state → part.initial (view state))
    (follows : ∀ state label after, allowed state label → machine.step state label = some after →
      view after = view state ∨
        ∃ inner, permitted (view state) inner ∧ part.step (view state) inner = some (view after))
    {state : σ} (reached : Reaches machine allowed state) : Reaches part permitted (view state) := by
  induction reached with
  | start state begins => exact .start _ (starts state begins)
  | next state after label _ meets steps earlier =>
    cases follows state label after meets steps with
    | inl same =>
      rw [same]
      exact earlier
    | inr moved =>
      obtain ⟨inner, permits, moves⟩ := moved
      exact .next _ _ inner earlier permits moves

/-- Run the labels in order, as long as each is enabled and allowed. -/
@[grind =] def follow (machine : Machine σ α) (allowed : σ → α → Prop)
    [∀ state label, Decidable (allowed state label)] : σ → List α → Option σ
  | state, [] => some state
  | state, label :: rest =>
      if allowed state label then
        match machine.step state label with
        | some after => follow machine allowed after rest
        | none => none
      else none

/-- A free run goes on wherever its next label leads. -/
theorem follow_cons {state after : σ} {label : α} (rest : List α)
    (steps : machine.step state label = some after) :
    follow machine (fun _ _ => True) state (label :: rest) = follow machine (fun _ _ => True) after rest := by
  rw [follow, if_pos trivial, steps]

/-- What survives every allowed step holds wherever the labels lead. -/
theorem follow_invariant [∀ state label, Decidable (allowed state label)] (holds : σ → Prop)
    (keeps : ∀ state label after, holds state → allowed state label →
      machine.step state label = some after → holds after)
    (labels : List α) {state last : σ} (starts : holds state)
    (run : Runs.follow machine allowed state labels = some last) : holds last := by
  induction labels generalizing state with
  | nil =>
    cases run
    exact starts
  | cons label rest ih =>
    rw [Runs.follow] at run
    split_ifs at run with meets
    cases steps : machine.step state label with
    | none =>
      rw [steps] at run
      cases run
    | some after =>
      rw [steps] at run
      exact ih (keeps state label after starts meets steps) run

theorem Reaches.follow [∀ state label, Decidable (allowed state label)] (labels : List α)
    {state last : σ} (reached : Reaches machine allowed state)
    (run : Runs.follow machine allowed state labels = some last) : Reaches machine allowed last :=
  follow_invariant (Reaches machine allowed)
    (fun state label after earlier meets steps => .next state after label earlier meets steps) labels reached run

/-- A run that can be evaluated reaches a state that passes the same test. -/
theorem exists_reached (machine : Machine σ α) (allowed : σ → α → Prop)
    [∀ state label, Decidable (allowed state label)] (labels : List α) {state : σ} (begins : machine.initial state) (test : σ → Bool)
    (run : (Runs.follow machine allowed state labels).any test = true) :
    ∃ last, Reaches machine allowed last ∧ test last = true := by
  obtain ⟨last, found, passes⟩ := Option.any_eq_true _ _ |>.mp run
  exact ⟨last, Reaches.follow labels (.start state begins) found, passes⟩

end Reachability

end OriginCache.Foundation.Runs
