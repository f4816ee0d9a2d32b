import Mathlib.Tactic.Common

/-! The Gregorian calendar, extended to the year 0. Days are counted by adding up years
and months; a later instant has the greater second. -/

namespace OriginCache.Foundation.Calendar

def leap (year : Nat) : Bool := year % 4 = 0 ∧ (year % 100 ≠ 0 ∨ year % 400 = 0)

def yearDays (year : Nat) : Nat := if leap year then 366 else 365

def monthDays (year month : Nat) : Nat :=
  if month = 2 then if leap year then 29 else 28
  else if month = 4 ∨ month = 6 ∨ month = 9 ∨ month = 11 then 30
  else 31

/-- The days of the years before a year. -/
@[grind =] def daysBefore : Nat → Nat
  | 0 => 0
  | year + 1 => daysBefore year + yearDays year

/-- The days of a year before a month; the first month is 1. -/
@[grind =] def monthStart (year : Nat) : Nat → Nat
  | 0 => 0
  | 1 => 0
  | month + 1 => monthStart year month + monthDays year month

structure Date where
  year : Nat
  month : Nat
  day : Nat
  inYear : 1 ≤ month ∧ month ≤ 12
  inMonth : 1 ≤ day ∧ day ≤ monthDays year month
deriving DecidableEq

/-- Days since the first day of the year 0. -/
def Date.number (date : Date) : Nat := daysBefore date.year + monthStart date.year date.month + (date.day - 1)

structure Instant where
  date : Date
  hour : Nat
  minute : Nat
  second : Nat
  inDay : hour < 24 ∧ minute < 60 ∧ second < 60
deriving DecidableEq

def epoch : Date := ⟨1970, 1, 1, by decide, by decide⟩

/-- Seconds since the epoch; a day has 86400 of them. -/
def Instant.unix (instant : Instant) : Int :=
  ((instant.date.number : Int) - epoch.number) * 86400 + instant.hour * 3600 + instant.minute * 60 + instant.second

def Instant.fields (instant : Instant) : List Nat :=
  [instant.date.year, instant.date.month, instant.date.day, instant.hour, instant.minute, instant.second]

/-! Adding up. -/

theorem monthStart_succ (year month : Nat) (first : 1 ≤ month) :
    monthStart year (month + 1) = monthStart year month + monthDays year month := by
  cases month with
  | zero => cases first
  | succ month => rfl

theorem monthStart_le (year : Nat) {one other : Nat} (first : 1 ≤ one) (later : one ≤ other) :
    monthStart year one ≤ monthStart year other := by
  induction later with
  | refl => exact Nat.le_refl _
  | step between ih =>
    rw [monthStart_succ year _ (Nat.le_trans first between)]
    exact Nat.le_trans ih (Nat.le_add_right _ _)

/-- Twelve months make a year. -/
theorem monthStart_year (year : Nat) : monthStart year 13 = yearDays year := by
  unfold yearDays
  simp only [monthStart, monthDays]
  cases leap year <;> rfl

theorem daysBefore_le {one other : Nat} (later : one ≤ other) : daysBefore one ≤ daysBefore other := by
  induction later with
  | refl => exact Nat.le_refl _
  | step _ ih => exact Nat.le_trans ih (Nat.le_add_right _ _)

/-- One more year ends a cycle when it is a multiple of the cycle. -/
theorem cycles_succ (cycle year : Nat) (some_ : 0 < cycle) :
    (year + 1 + (cycle - 1)) / cycle = (year + (cycle - 1)) / cycle + if year % cycle = 0 then 1 else 0 := by
  have whole := Nat.div_add_mod year cycle
  have small := Nat.mod_lt year some_
  generalize year / cycle = q at whole
  generalize year % cycle = r at whole small
  have one : (year + 1 + (cycle - 1)) / cycle = q + 1 :=
    Nat.div_eq_of_lt_le (by rw [Nat.add_mul, Nat.mul_comm]; omega) (by rw [Nat.add_mul, Nat.add_mul, Nat.mul_comm]; omega)
  rw [one]
  split_ifs with ends
  · rw [Nat.div_eq_of_lt_le (k := q) (by rw [Nat.mul_comm]; omega) (by rw [Nat.add_mul, Nat.mul_comm]; omega)]
  · exact (Nat.div_eq_of_lt_le (by rw [Nat.add_mul, Nat.mul_comm]; omega)
      (by rw [Nat.add_mul, Nat.add_mul, Nat.mul_comm]; omega)).symm

/-- Leap days by cycles. -/
theorem daysBefore_closed (year : Nat) :
    daysBefore year + (year + 99) / 100 = 365 * year + (year + 3) / 4 + (year + 399) / 400 := by
  induction year with
  | zero => rfl
  | succ year ih =>
    have four := cycles_succ 4 year (by decide)
    have hundred := cycles_succ 100 year (by decide)
    have era := cycles_succ 400 year (by decide)
    have rule : yearDays year + (if year % 100 = 0 then 1 else 0) =
        365 + (if year % 4 = 0 then 1 else 0) + if year % 400 = 0 then 1 else 0 := by
      unfold yearDays leap
      by_cases quarter : year % 4 = 0
      · by_cases century : year % 100 = 0
        · by_cases full : year % 400 = 0 <;> simp [quarter, century, full]
        · have never : year % 400 ≠ 0 := by omega
          simp [quarter, century, never]
      · have never : year % 100 ≠ 0 := by omega
        have never' : year % 400 ≠ 0 := by omega
        simp [quarter, never, never']
    rw [daysBefore]
    omega

theorem epoch_number : epoch.number = 719528 := by
  have closed := daysBefore_closed 1970
  unfold Date.number epoch
  simp only [monthStart]
  omega

/-! Order. -/

/-- A day is within its month, and the month within its year. -/
theorem number_bounds (date : Date) : daysBefore date.year + monthStart date.year date.month ≤ date.number ∧
    date.number < daysBefore date.year + monthStart date.year (date.month + 1) := by
  have day := date.inMonth
  rw [monthStart_succ date.year date.month date.inYear.1]
  unfold Date.number
  omega

theorem number_lt_of_month (one other : Date) (year : one.year = other.year) (month : one.month < other.month) :
    one.number < other.number := by
  have ends := (number_bounds one).2
  have begins := (number_bounds other).1
  have between : monthStart other.year (one.month + 1) ≤ monthStart other.year other.month :=
    monthStart_le other.year (Nat.le_add_left 1 one.month) month
  rw [year] at ends
  omega

theorem number_lt_of_year (one other : Date) (year : one.year < other.year) : one.number < other.number := by
  have ends := (number_bounds one).2
  have begins := (number_bounds other).1
  have months := one.inYear.2
  have twelve : monthStart one.year (one.month + 1) ≤ monthStart one.year 13 :=
    monthStart_le one.year (Nat.le_add_left 1 one.month) (Nat.succ_le_succ months)
  have years : daysBefore (one.year + 1) ≤ daysBefore other.year := daysBefore_le year
  rw [monthStart_year] at twelve
  rw [daysBefore] at years
  omega

theorem unix_lt_of_number (one other : Instant) (earlier : one.date.number < other.date.number) : one.unix < other.unix := by
  have time := one.inDay
  unfold Instant.unix
  omega

/-- Instants are ordered as their fields are. -/
theorem unix_lt (one other : Instant) (earlier : one.fields < other.fields) : one.unix < other.unix := by
  unfold Instant.fields at earlier
  simp only [List.cons_lt_cons_iff, List.not_lt_nil, and_false, or_false] at earlier
  rcases earlier with year | ⟨year, month | ⟨month, day⟩⟩
  · exact unix_lt_of_number one other (number_lt_of_year _ _ year)
  · exact unix_lt_of_number one other (number_lt_of_month _ _ year month)
  · have start : monthStart one.date.year one.date.month = monthStart other.date.year other.date.month := by
      rw [year, month]
    have first := one.date.inMonth
    have first' := other.date.inMonth
    have time := one.inDay
    have time' := other.inDay
    unfold Instant.unix Date.number
    rw [year] at *
    rw [start]
    omega

end OriginCache.Foundation.Calendar
