import OriginCache.Foundation.Words
import OriginCache.Request.Listing

/-! Retrying a backend call. Every call's outcome and the clock's nanoseconds at every
delay are given; the loop, the delays and the attempt counter are the source's. -/

namespace OriginCache.Backend.Retries
open Foundation.Words
open Request.Listing (BackendError)

structure RetryPolicy where
  maxAttempts : UInt32
  baseMs : UInt64
  maxMs : UInt64
deriving DecidableEq, Repr

def RetryPolicy.none : RetryPolicy := ⟨1, 0, 0⟩

/-- Whether another attempt is allowed after this one; the first is number 1. -/
def RetryPolicy.allows (policy : RetryPolicy) (attempt : UInt32) : Bool := attempt < max policy.maxAttempts 1

def jitterMs (nanos ms : UInt64) : UInt64 := if ms = 0 then 0 else nanos % max (ms / 4) 1

def RetryPolicy.delay (policy : RetryPolicy) (nanos : UInt64) (attempt : UInt32) (retryAfterMillis : Option Nat) :
    Calc Nat :=
  match retryAfterMillis with
  | some ms => pure ms
  | .none => do
      let factor ← shiftLeft 1 (min (pred attempt) 16)
      let capped := min (satMul policy.baseMs factor) policy.maxMs
      pure (satAdd capped (jitterMs nanos capped)).toNat

theorem toNat_exponent (attempt : UInt32) : (min (pred attempt) 16).toNat = min (attempt.toNat - 1) 16 := by
  rw [← toNat_pred]
  change (if pred attempt ≤ 16 then pred attempt else 16).toNat = _
  have order := UInt32.le_iff_toNat_le (a := pred attempt) (b := 16)
  split_ifs with low
  · exact (Nat.min_eq_left (order.mp low)).symm
  · exact (Nat.min_eq_right (Nat.le_of_not_le (mt order.mpr low))).symm

/-- The shift is by 16 places at most, whatever the attempt's number. -/
theorem toNat_factor (attempt : UInt32) :
    (shiftLeft 1 (min (pred attempt) 16)).value.toNat = 2 ^ min (attempt.toNat - 1) 16 := by
  have low : min (attempt.toNat - 1) 16 ≤ 16 := Nat.min_le_right _ _
  have small : 2 ^ min (attempt.toNat - 1) 16 ≤ 2 ^ 16 := Nat.pow_le_pow_right (by decide) low
  have value := toNat_shiftLeft 1 (min (pred attempt) 16)
  rw [toNat_exponent] at value
  rw [value (by change 1 * _ < _; omega) (by omega)]
  exact Nat.one_mul _

theorem jitter_small (nanos ms : UInt64) : 4 * (jitterMs nanos ms).toNat ≤ ms.toNat := by
  unfold jitterMs
  split_ifs with zero
  · exact Nat.zero_le _
  · have quarter : (max (ms / 4) 1).toNat = max (ms.toNat / 4) 1 := by
      change (if ms / 4 ≤ 1 then 1 else ms / 4).toNat = _
      have order := UInt64.le_iff_toNat_le (a := ms / 4) (b := 1)
      rw [UInt64.toNat_div] at order
      split_ifs with low
      · exact (Nat.max_eq_right (order.mp low)).symm
      · rw [UInt64.toNat_div]
        exact (Nat.max_eq_left (Nat.le_of_not_le (mt order.mpr low))).symm
    rw [UInt64.toNat_mod, quarter]
    have less : nanos.toNat % max (ms.toNat / 4) 1 < max (ms.toNat / 4) 1 := Nat.mod_lt _ (by omega)
    omega

/-- The backoff before jitter; a product past the word is already past the ceiling. -/
theorem toNat_capped (base factor ceiling : UInt64) :
    (min (satMul base factor) ceiling).toNat = min (base.toNat * factor.toNat) ceiling.toNat := by
  have bound := ceiling.toNat_lt
  rw [toNat_min, toNat_satMul]
  omega

theorem delay_exact (policy : RetryPolicy) (nanos : UInt64) (attempt : UInt32) (retryAfterMillis : Option Nat) :
    (policy.delay nanos attempt retryAfterMillis).exact = true := by
  have low : min (attempt.toNat - 1) 16 ≤ 16 := Nat.min_le_right _ _
  cases retryAfterMillis with
  | some ms => rfl
  | none =>
    change (decide ((min (pred attempt) 16).toNat < 64) && true) = true
    rw [toNat_exponent, Bool.and_true, decide_eq_true_iff]
    omega

theorem delay_between (policy : RetryPolicy) (nanos : UInt64) (attempt : UInt32) :
    min (policy.baseMs.toNat * 2 ^ min (attempt.toNat - 1) 16) policy.maxMs.toNat ≤
        (policy.delay nanos attempt none).value ∧
      4 * (policy.delay nanos attempt none).value ≤ 5 * policy.maxMs.toNat := by
  have capped := toNat_capped policy.baseMs (shiftLeft 1 (min (pred attempt) 16)).value policy.maxMs
  rw [toNat_factor] at capped
  have value : (policy.delay nanos attempt none).value =
      (satAdd (min (satMul policy.baseMs (shiftLeft 1 (min (pred attempt) 16)).value) policy.maxMs)
        (jitterMs nanos (min (satMul policy.baseMs (shiftLeft 1 (min (pred attempt) 16)).value) policy.maxMs))).toNat := rfl
  have jitter := jitter_small nanos (min (satMul policy.baseMs (shiftLeft 1 (min (pred attempt) 16)).value) policy.maxMs)
  have bound := policy.maxMs.toNat_lt
  rw [value, toNat_satAdd]
  omega

/-- A ceiling of 0 is no ceiling. -/
def RetryPolicy.worthWaiting (policy : RetryPolicy) (retryAfterMillis : Option Nat) : Bool :=
  retryAfterMillis.all fun ms => policy.maxMs = 0 ∨ ms ≤ policy.maxMs.toNat

def isRetryable : BackendError → Bool
  | .rateLimited _ => true
  | .serverError => true
  | _ => false

def retryAfter : BackendError → Option Nat
  | .rateLimited retryAfterMillis => retryAfterMillis
  | _ => none

structure Trace (α : Type) where
  calls : Nat
  sleeps : List Nat
  outcome : Except BackendError α

section Attempts
variable {α : Type} (policy : RetryPolicy) (outcomes : Nat → Except BackendError α) (nanos : Nat → UInt64)

theorem succ_allowed (attempt : UInt32) (allowed : policy.allows attempt = true) :
    (succ attempt).value.toNat = attempt.toNat + 1 ∧ attempt.toNat < (max policy.maxAttempts 1).toNat := by
  have below : attempt.toNat < (max policy.maxAttempts 1).toNat := UInt32.lt_iff_toNat_lt.mp (of_decide_eq_true allowed)
  have bound := (max policy.maxAttempts 1).toNat_lt
  exact ⟨toNat_succ attempt (by omega), below⟩

/-- The loop of `attempt`, after as many calls as were made. -/
def attemptFrom (made : Nat) (attempt : UInt32) : Calc (Trace α) :=
  match outcomes made with
  | .ok value => pure ⟨made + 1, [], .ok value⟩
  | .error e =>
      if allowed : isRetryable e = true ∧ policy.allows attempt = true then
        if policy.worthWaiting (retryAfter e) then
          let delay := policy.delay (nanos made) attempt (retryAfter e)
          let rest := attemptFrom (made + 1) (succ attempt).value
          ⟨{ rest.value with sleeps := delay.value :: rest.value.sleeps }, delay.exact && (succ attempt).exact && rest.exact⟩
        else pure ⟨made + 1, [], .error e⟩
      else pure ⟨made + 1, [], .error e⟩
termination_by (max policy.maxAttempts 1).toNat - attempt.toNat
decreasing_by
  have next := succ_allowed policy attempt allowed.2
  omega

def attempt : Calc (Trace α) := attemptFrom policy outcomes nanos 0 1

/-- An outcome that is returned whatever attempts are left. -/
def Final (outcome : Except BackendError α) : Prop :=
  match outcome with
  | .ok _ => True
  | .error e => isRetryable e = false ∨ ∃ ms, retryAfter e = some ms ∧ policy.maxMs ≠ 0 ∧ policy.maxMs.toNat < ms

/-- The first outcome is number 1. -/
def FirstFinal (n : Nat) : Prop :=
  ∃ i, n = i + 1 ∧ Final policy (outcomes i) ∧ ∀ j < i, ¬ Final policy (outcomes j)

/-- What is slept after the outcome of an attempt. -/
def Waits (outcome : Except BackendError α) (attempt ms : Nat) : Prop :=
  match outcome with
  | .ok _ => False
  | .error e =>
      match retryAfter e with
      | some given => ms = given ∧ (policy.maxMs ≠ 0 → given ≤ policy.maxMs.toNat)
      | .none => min (policy.baseMs.toNat * 2 ^ min (attempt - 1) 16) policy.maxMs.toNat ≤ ms ∧
          4 * ms ≤ 5 * policy.maxMs.toNat

structure Retried (run : Calc (Trace α)) : Prop where
  calls : ∀ n, FirstFinal policy outcomes n → run.value.calls = min (max 1 policy.maxAttempts.toNat) n
  exhausts : (∀ i, ¬ Final policy (outcomes i)) → run.value.calls = max 1 policy.maxAttempts.toNat
  between : run.value.sleeps.length + 1 = run.value.calls
  sleeps : ∀ i ms, run.value.sleeps[i]? = some ms → Waits policy (outcomes i) (i + 1) ms
  outcome : run.value.outcome = outcomes (run.value.calls - 1)
  exact : run.exact = true

/-- What holds of the loop entered after `made` calls. -/
structure Ran (made : Nat) (run : Calc (Trace α)) : Prop where
  more : made + 1 ≤ run.value.calls
  bound : run.value.calls ≤ max 1 policy.maxAttempts.toNat
  early : ∀ i, made ≤ i → i + 1 < run.value.calls → ¬ Final policy (outcomes i)
  last : run.value.calls = max 1 policy.maxAttempts.toNat ∨ Final policy (outcomes (run.value.calls - 1))
  between : run.value.sleeps.length + (made + 1) = run.value.calls
  sleeps : ∀ i ms, run.value.sleeps[i]? = some ms → Waits policy (outcomes (made + i)) (made + i + 1) ms
  outcome : run.value.outcome = outcomes (run.value.calls - 1)
  exact : run.exact = true

theorem Ran.stops (made : Nat) (within : made + 1 ≤ max 1 policy.maxAttempts.toNat)
    (last : made + 1 = max 1 policy.maxAttempts.toNat ∨ Final policy (outcomes made)) :
    Ran policy outcomes made (pure ⟨made + 1, [], outcomes made⟩) where
  more := Nat.le_refl _
  bound := within
  early i low high := absurd high (Nat.not_lt_of_le (Nat.succ_le_succ low))
  last := last
  between := Nat.zero_add _
  sleeps i ms given := absurd given (by simp)
  outcome := rfl
  exact := rfl

theorem Ran.sleep (made ms : Nat) (marked : Bool) (rest : Calc (Trace α)) (ran : Ran policy outcomes (made + 1) rest)
    (open_ : ¬ Final policy (outcomes made)) (waits : Waits policy (outcomes made) (made + 1) ms)
    (sound : marked = true) :
    Ran policy outcomes made ⟨{ rest.value with sleeps := ms :: rest.value.sleeps }, marked && rest.exact⟩ where
  more := Nat.le_of_succ_le ran.more
  bound := ran.bound
  early i low high := by
    by_cases first : i = made
    · rw [first]
      exact open_
    · exact ran.early i (by omega) high
  last := ran.last
  between := by
    have between := ran.between
    change rest.value.sleeps.length + 1 + (made + 1) = rest.value.calls
    omega
  sleeps i given at_ := by
    cases i with
    | zero =>
      have same : ms = given := by simpa using at_
      rw [← same]
      exact waits
    | succ i =>
      have later := ran.sleeps i given (by simpa using at_)
      rw [Nat.add_right_comm] at later
      exact later
  outcome := ran.outcome
  exact := by
    rw [sound, ran.exact]
    rfl

theorem toNat_attempts : (max policy.maxAttempts 1).toNat = max 1 policy.maxAttempts.toNat := by
  change (if policy.maxAttempts ≤ 1 then 1 else policy.maxAttempts).toNat = _
  have order := UInt32.le_iff_toNat_le (a := policy.maxAttempts) (b := 1)
  split_ifs with low
  · exact (Nat.max_eq_left (order.mp low)).symm
  · exact (Nat.max_eq_right (Nat.le_of_not_le (mt order.mpr low))).symm

theorem worthWaiting_iff (e : BackendError) :
    policy.worthWaiting (retryAfter e) = true ↔
      ¬ ∃ ms, retryAfter e = some ms ∧ policy.maxMs ≠ 0 ∧ policy.maxMs.toNat < ms := by
  unfold RetryPolicy.worthWaiting
  cases retryAfter e with
  | none => simp
  | some ms =>
    by_cases none_ : policy.maxMs = 0
    · simp [none_]
    · simp [none_]

/-- What the loop sleeps is what the policy says of the outcome. -/
theorem delay_waits (e : BackendError) (attempt : UInt32) (now : UInt64)
    (worth : policy.worthWaiting (retryAfter e) = true) :
    Waits policy (.error e : Except BackendError α) attempt.toNat (policy.delay now attempt (retryAfter e)).value := by
  have fits := (worthWaiting_iff policy e).mp worth
  simp only [Waits]
  cases given : retryAfter e with
  | none => exact delay_between policy now attempt
  | some ms =>
    constructor
    · rfl
    · intro ceiling
      by_contra past
      exact fits ⟨ms, given, ceiling, Nat.lt_of_not_le past⟩

theorem final_error (e : BackendError) :
    Final policy (.error e : Except BackendError α) ↔
      isRetryable e = false ∨ policy.worthWaiting (retryAfter e) = false := by
  have worth := worthWaiting_iff policy e
  change (isRetryable e = false ∨ _) ↔ _
  rw [← Bool.not_eq_true (policy.worthWaiting _), worth, not_not]

theorem attemptFrom_ran (made : Nat) (attempt : UInt32) (number : attempt.toNat = made + 1)
    (within : made + 1 ≤ max 1 policy.maxAttempts.toNat) :
    Ran policy outcomes made (attemptFrom policy outcomes nanos made attempt) := by
  have limit := toNat_attempts policy
  induction made, attempt using attemptFrom.induct policy outcomes nanos with
  | case1 made attempt value ok =>
    rw [attemptFrom, ok]
    change Ran policy outcomes made (pure ⟨made + 1, [], Except.ok value⟩)
    rw [← ok]
    apply Ran.stops policy outcomes made within
    rw [ok]
    exact .inr trivial
  | case2 made attempt e failed allowed worth ih =>
    have next := succ_allowed policy attempt allowed.2
    have rest := ih (by omega) (by omega)
    rw [attemptFrom, failed]
    change Ran policy outcomes made (dite _ _ _)
    rw [dif_pos allowed, if_pos worth]
    apply Ran.sleep policy outcomes made _ _ _ rest
    · rw [failed, final_error, allowed.1, worth]
      simp
    · rw [failed, ← number]
      exact delay_waits policy e attempt (nanos made) worth
    · have bound := (max policy.maxAttempts 1).toNat_lt
      rw [delay_exact, Bool.true_and]
      exact decide_eq_true (by omega)
  | case3 made attempt e failed allowed worth =>
    rw [attemptFrom, failed]
    change Ran policy outcomes made (dite _ _ _)
    rw [dif_pos allowed, if_neg worth, ← failed]
    apply Ran.stops policy outcomes made within
    rw [failed, final_error]
    exact .inr (.inr (Bool.not_eq_true _ ▸ worth))
  | case4 made attempt e failed refused =>
    rw [attemptFrom, failed]
    change Ran policy outcomes made (dite _ _ _)
    rw [dif_neg refused, ← failed]
    apply Ran.stops policy outcomes made within
    by_cases retryable : isRetryable e = true
    · left
      have over_ : ¬ attempt < max policy.maxAttempts 1 := fun more => refused ⟨retryable, decide_eq_true more⟩
      rw [UInt32.lt_iff_toNat_lt] at over_
      omega
    · right
      rw [failed, final_error]
      exact .inl (Bool.not_eq_true _ ▸ retryable)

theorem Ran.retried (run : Calc (Trace α)) (ran : Ran policy outcomes 0 run) : Retried policy outcomes run where
  calls n first := by
    obtain ⟨i, rfl, final, none_before⟩ := first
    have more := ran.more
    have bound := ran.bound
    have reached : run.value.calls ≤ i + 1 := by
      by_contra beyond
      exact ran.early i (Nat.zero_le _) (Nat.lt_of_not_le beyond) final
    cases ran.last with
    | inl all => omega
    | inr last =>
      have met : ¬ run.value.calls - 1 < i := fun before => none_before _ before last
      omega
  exhausts never := by
    cases ran.last with
    | inl all => exact all
    | inr last => exact absurd last (never _)
  between := ran.between
  sleeps i ms at_ := by
    have waits := ran.sleeps i ms at_
    rw [Nat.zero_add] at waits
    exact waits
  outcome := ran.outcome
  exact := ran.exact

/-- The calls of an operation under its retry policy, and the arithmetic of every delay. -/
theorem attempt_retried :
    Retried policy outcomes (attempt policy outcomes nanos) ∧
      ∀ now number retryAfterMillis, (policy.delay now number retryAfterMillis).exact = true := by
  constructor
  · apply Ran.retried
    exact attemptFrom_ran policy outcomes nanos 0 1 rfl (Nat.le_max_left _ _)
  · exact delay_exact policy

end Attempts

end OriginCache.Backend.Retries
