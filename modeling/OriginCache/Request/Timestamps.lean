import Mathlib.Data.List.GetD
import Mathlib.Tactic.IntervalCases
import OriginCache.Foundation.Calendar
import OriginCache.Request.Dates

/-! The request date against the calendar: which texts it reads, what it writes back and
which second it names. -/

namespace OriginCache.Request.Timestamps
open Foundation.Percent Foundation.Calendar Dates
open Cache.SegName (Text)

def AmzDate.of (instant : Instant) : AmzDate :=
  ⟨instant.date.year, instant.date.month, instant.date.day, instant.hour, instant.minute, instant.second⟩

/-- The sixteen characters of an instant in the years 0 to 9999. -/
def Denotes (s : Text) (instant : Instant) : Prop :=
  instant.date.year < 10000 ∧ (AmzDate.of instant).fmtIso8601 = s

/-- Read exactly when it names an instant, as that instant, and written back. -/
structure Exact (s : Text) : Prop where
  accepted : (AmzDate.parse s).isSome = true ↔ ∃ instant, Denotes s instant
  restored : ∀ date, AmzDate.parse s = some date → date.fmtIso8601 = s
  seconds : ∀ date, AmzDate.parse s = some date → ∃ instant, Denotes s instant ∧ date.toUnix = instant.unix

def Ordered (s t : Text) : Prop :=
  ∀ date other, AmzDate.parse s = some date → AmzDate.parse t = some other → s < t → date.toUnix < other.toUnix

/-- A text of the right shape with a day beyond its month, or a time beyond the day. -/
def Strays (s : Text) : Prop :=
  ∃ date : AmzDate, date.Readable ∧ date.fmtIso8601 = s ∧
    (monthDays date.year date.month < date.day ∨ 24 ≤ date.hour ∨ 60 ≤ date.minute ∨ 60 ≤ date.second)

/-! The parser reads back what is written, and nothing else. -/

theorem digit_some (b : UInt8) (n : Nat) (reads : digit b = some n) : n < 10 ∧ b = digitByte n := by
  unfold digit isAsciiDigit at reads
  split_ifs at reads with range
  cases reads
  have low : 0x30 ≤ b.toNat := UInt8.le_iff_toNat_le.mp (of_decide_eq_true range).1
  have high : b.toNat ≤ 0x39 := UInt8.le_iff_toNat_le.mp (of_decide_eq_true range).2
  constructor
  · omega
  · rw [digitByte, Nat.add_sub_cancel' low, UInt8.ofNat_toNat]

theorem d2_some (a b : UInt8) (n : Nat) (reads : d2 a b = some n) :
    n < 100 ∧ a = digitByte (n / 10) ∧ b = digitByte (n % 10) := by
  unfold d2 at reads
  obtain ⟨tens, first, reads⟩ := Option.bind_eq_some_iff.mp reads
  obtain ⟨ones, second, reads⟩ := Option.bind_eq_some_iff.mp reads
  cases reads
  obtain ⟨small, here⟩ := digit_some a tens first
  obtain ⟨small', there⟩ := digit_some b ones second
  have front : (tens * 10 + ones) / 10 = tens := by omega
  have back : (tens * 10 + ones) % 10 = ones := by omega
  rw [front, back]
  exact ⟨by omega, here, there⟩

theorem d4_some (a b c d : UInt8) (n : Nat) (reads : d4 a b c d = some n) :
    n < 10000 ∧ a = digitByte (n / 1000) ∧ b = digitByte (n / 100 % 10) ∧ c = digitByte (n / 10 % 10) ∧
      d = digitByte (n % 10) := by
  unfold d4 at reads
  obtain ⟨i, first, reads⟩ := Option.bind_eq_some_iff.mp reads
  obtain ⟨j, second, reads⟩ := Option.bind_eq_some_iff.mp reads
  obtain ⟨k, third, reads⟩ := Option.bind_eq_some_iff.mp reads
  obtain ⟨l, last, reads⟩ := Option.bind_eq_some_iff.mp reads
  cases reads
  obtain ⟨small₁, here₁⟩ := digit_some a i first
  obtain ⟨small₂, here₂⟩ := digit_some b j second
  obtain ⟨small₃, here₃⟩ := digit_some c k third
  obtain ⟨small₄, here₄⟩ := digit_some d l last
  have thousands : (i * 1000 + j * 100 + k * 10 + l) / 1000 = i := by omega
  have hundreds : (i * 1000 + j * 100 + k * 10 + l) / 100 % 10 = j := by omega
  have tens : (i * 1000 + j * 100 + k * 10 + l) / 10 % 10 = k := by omega
  have ones : (i * 1000 + j * 100 + k * 10 + l) % 10 = l := by omega
  rw [thousands, hundreds, tens, ones]
  exact ⟨by omega, here₁, here₂, here₃, here₄⟩

theorem sixteen (bytes : List UInt8) (length : bytes.length = 16) :
    bytes = [bytes.getD 0 0, bytes.getD 1 0, bytes.getD 2 0, bytes.getD 3 0, bytes.getD 4 0, bytes.getD 5 0,
      bytes.getD 6 0, bytes.getD 7 0, bytes.getD 8 0, bytes.getD 9 0, bytes.getD 10 0, bytes.getD 11 0,
      bytes.getD 12 0, bytes.getD 13 0, bytes.getD 14 0, bytes.getD 15 0] := by
  apply List.ext_getElem
  · rw [length]
    rfl
  · intro i bound bound'
    rw [← List.getD_eq_getElem _ 0 bound, ← List.getD_eq_getElem _ 0 bound']
    have small : i < 16 := by omega
    interval_cases i <;> rfl

/-- A check of the parser that did not stop it. -/
theorem unless_some {α β : Type} (stops : Prop) [Decidable stops] (later : Option α) {found : α} {next : β → Option α}
    (reads : (if stops then none >>= next else later) = some found) : ¬ stops ∧ later = some found := by
  by_cases here : stops
  · rw [if_pos here] at reads
    cases reads
  · rw [if_neg here] at reads
    exact ⟨here, reads⟩

theorem parse_some (s : Text) (date : AmzDate) (reads : AmzDate.parse s = some date) :
    date.Readable ∧ date.fmtIso8601 = s := by
  unfold AmzDate.parse at reads
  dsimp only at reads
  obtain ⟨length, reads⟩ := unless_some _ _ reads
  obtain ⟨year, first, reads⟩ := Option.bind_eq_some_iff.mp reads
  obtain ⟨month, second, reads⟩ := Option.bind_eq_some_iff.mp reads
  obtain ⟨day, third, reads⟩ := Option.bind_eq_some_iff.mp reads
  obtain ⟨mark, reads⟩ := unless_some _ _ reads
  obtain ⟨hour, fourth, reads⟩ := Option.bind_eq_some_iff.mp reads
  obtain ⟨minute, fifth, reads⟩ := Option.bind_eq_some_iff.mp reads
  obtain ⟨second_, sixth, reads⟩ := Option.bind_eq_some_iff.mp reads
  obtain ⟨zulu, reads⟩ := unless_some _ _ reads
  obtain ⟨range, reads⟩ := unless_some _ _ reads
  rw [not_not] at length mark zulu
  cases reads
  obtain ⟨smallYear, y₀, y₁, y₂, y₃⟩ := d4_some _ _ _ _ _ first
  obtain ⟨smallMonth, m₀, m₁⟩ := d2_some _ _ _ second
  obtain ⟨smallDay, d₀, d₁⟩ := d2_some _ _ _ third
  obtain ⟨smallHour, h₀, h₁⟩ := d2_some _ _ _ fourth
  obtain ⟨smallMinute, n₀, n₁⟩ := d2_some _ _ _ fifth
  obtain ⟨smallSecond, s₀, s₁⟩ := d2_some _ _ _ sixth
  have readable : AmzDate.Readable ⟨year, month, day, hour, minute, second_⟩ := by
    apply AmzDate.Readable.mk
    · exact smallYear
    · change 1 ≤ month ∧ month ≤ 12
      omega
    · change 1 ≤ day ∧ day ≤ 31
      omega
    · exact ⟨smallHour, smallMinute, smallSecond⟩
  refine ⟨readable, utf8_injective ?_⟩
  rw [utf8_fmtIso8601 _ readable, sixteen (utf8 s) length, y₀, y₁, y₂, y₃, m₀, m₁, d₀, d₁, mark, h₀, h₁, n₀, n₁, s₀, s₁,
    zulu]

theorem fmtIso8601_inj (date other : AmzDate) (readable : date.Readable) (readable' : other.Readable)
    (same : date.fmtIso8601 = other.fmtIso8601) : date = other := by
  have reads := parse_readable date readable
  rw [same, parse_readable other readable'] at reads
  exact (Option.some.inj reads).symm

/-! The closed form of the source. -/

/-- Days from the first of March, or from the March before. -/
theorem shifted_month (year month : Nat) (inYear : 1 ≤ month ∧ month ≤ 12) :
    (153 * ((month + 9) % 12) + 2) / 5 + (if month ≤ 2 then 0 else 59 + if leap year then 1 else 0) =
      monthStart year month + if month ≤ 2 then 306 else 0 := by
  obtain ⟨low, high⟩ := inYear
  cases long : leap year with
  | true => interval_cases month <;> simp [monthStart, monthDays, long]
  | false => interval_cases month <;> simp [monthStart, monthDays, long]

theorem daysBefore_march (year : Nat) : (daysBefore year : Int) + (if leap year then 1 else 0) =
    365 * year + (year : Int) / 4 - (year : Int) / 100 + (year : Int) / 400 + 1 := by
  have closed := daysBefore_closed (year + 1)
  rw [daysBefore, yearDays] at closed
  split_ifs at closed ⊢ <;> omega

/-- Eras of 400 years, counted from March. -/
theorem era_days (yy : Int) : yy / 400 * 146097 + ((yy - yy / 400 * 400) * 365 + (yy - yy / 400 * 400) / 4 -
    (yy - yy / 400 * 400) / 100) = 365 * yy + yy / 4 - yy / 100 + yy / 400 := by
  omega

theorem truncated_era (yy : Int) : (if 0 ≤ yy then yy else yy - 399).tdiv 400 = yy / 400 := by
  by_cases positive : 0 ≤ yy
  · rw [if_pos positive, Int.tdiv_eq_ediv_of_nonneg positive]
  · rw [if_neg positive, Int.tdiv_eq_ediv]
    split_ifs with exact_
    · omega
    · have one : (400 : Int).sign = 1 := rfl
      rw [one]
      omega

/-- The source's second is the calendar's. -/
theorem toUnix_of (instant : Instant) : (AmzDate.of instant).toUnix = instant.unix := by
  have month := shifted_month instant.date.year instant.date.month instant.date.inYear
  have march := daysBefore_march instant.date.year
  have inYear := instant.date.inYear
  have inMonth := instant.date.inMonth
  rw [Instant.unix, epoch_number]
  unfold Date.number AmzDate.toUnix AmzDate.of
  dsimp only
  generalize instant.date.year = year at *
  generalize instant.date.month = m at *
  generalize instant.date.day = day at *
  have shift : ((m : Int) + 9).tmod 12 = ((m + 9) % 12 : Nat) := by
    rw [Int.tmod_eq_emod_of_nonneg (by omega)]
    omega
  rw [truncated_era, shift]
  generalize (m + 9) % 12 = mp at *
  have first : (153 * (mp : Int) + 2).tdiv 5 = ((153 * mp + 2) / 5 : Nat) := by
    rw [Int.tdiv_eq_ediv_of_nonneg (by omega)]
    omega
  rw [first]
  generalize (153 * mp + 2) / 5 = start at *
  have cast : ((m : Int) ≤ 2) ↔ m ≤ 2 := by omega
  simp only [cast]
  by_cases early : m ≤ 2
  · simp only [if_pos early] at *
    have eras := era_days ((year : Int) - 1)
    generalize yoe : (year : Int) - 1 - ((year : Int) - 1) / 400 * 400 = r at *
    rw [Int.tdiv_eq_ediv_of_nonneg (by omega), Int.tdiv_eq_ediv_of_nonneg (by omega)]
    have closed := daysBefore_closed year
    omega
  · simp only [if_neg early] at *
    have eras := era_days (year : Int)
    generalize yoe : (year : Int) - (year : Int) / 400 * 400 = r at *
    rw [Int.tdiv_eq_ediv_of_nonneg (by omega), Int.tdiv_eq_ediv_of_nonneg (by omega)]
    split_ifs at month march <;> omega

/-! Texts of one width are ordered as their fields are. -/

theorem append_lt_append (a b x y : List Char) (same : a.length = b.length) :
    a ++ x < b ++ y ↔ a < b ∨ (a = b ∧ x < y) := by
  induction a generalizing b with
  | nil =>
    have empty : b = [] := List.length_eq_zero_iff.mp same.symm
    subst empty
    simp
  | cons c a ih =>
    cases b with
    | nil => cases same
    | cons d b =>
      rw [List.cons_append, List.cons_append, List.cons_lt_cons_iff, List.cons_lt_cons_iff, ih b (Nat.succ.inj same)]
      simp only [List.cons.injEq]
      tauto

theorem digitChar_lt (m n : Nat) (small : m < 10) (small' : n < 10) :
    (Nat.digitChar m < Nat.digitChar n ↔ m < n) ∧ (Nat.digitChar m = Nat.digitChar n ↔ m = n) := by
  have each : ∀ i, i < 10 → ∀ j, j < 10 → (Nat.digitChar i < Nat.digitChar j ↔ i < j) ∧
      (Nat.digitChar i = Nat.digitChar j ↔ i = j) := by decide
  exact each m small n small'

theorem padded_lt (width m n : Nat) (small : m < 10 ^ (width + 1)) (small' : n < 10 ^ (width + 1)) :
    (padded (width + 1) m < padded (width + 1) n ↔ m < n) ∧ (padded (width + 1) m = padded (width + 1) n ↔ m = n) := by
  induction width generalizing m n with
  | zero =>
    rw [padded_one m small, padded_one n small', List.cons_lt_cons_iff]
    simpa using digitChar_lt m n small small'
  | succ width ih =>
    have shorter : m / 10 < 10 ^ (width + 1) := by
      rw [Nat.pow_succ] at small
      omega
    have shorter' : n / 10 < 10 ^ (width + 1) := by
      rw [Nat.pow_succ] at small'
      omega
    have fronts := ih (m / 10) (n / 10) shorter shorter'
    have lasts := digitChar_lt (m % 10) (n % 10) (Nat.mod_lt _ (by decide)) (Nat.mod_lt _ (by decide))
    have lengths : (padded (width + 1) (m / 10)).length = (padded (width + 1) (n / 10)).length := by
      rw [padded_length width _ shorter, padded_length width _ shorter']
    rw [padded_succ (width + 1) m (Nat.succ_pos width), padded_succ (width + 1) n (Nat.succ_pos width),
      append_lt_append _ _ _ _ lengths, fronts.1, fronts.2, List.cons_lt_cons_iff, lasts.1]
    constructor
    · simp only [List.not_lt_nil, and_false, or_false]
      omega
    · constructor
      · intro same
        obtain ⟨front, last⟩ := List.append_inj same lengths
        have first := fronts.2.mp front
        have second := lasts.2.mp (List.cons.inj last).1
        omega
      · intro same
        rw [same]

/-- A field in front of what follows it. -/
theorem padded_append_lt (width m n : Nat) (x y : List Char) (small : m < 10 ^ (width + 1))
    (small' : n < 10 ^ (width + 1)) :
    padded (width + 1) m ++ x < padded (width + 1) n ++ y ↔ m < n ∨ (m = n ∧ x < y) := by
  have order := padded_lt width m n small small'
  rw [append_lt_append _ _ _ _ (by rw [padded_length width m small, padded_length width n small']), order.1, order.2]

def fieldsOf (date : AmzDate) : List Nat := [date.year, date.month, date.day, date.hour, date.minute, date.second]

theorem fmtIso8601_lt (date other : AmzDate) (readable : date.Readable) (readable' : other.Readable) :
    date.fmtIso8601 < other.fmtIso8601 ↔ fieldsOf date < fieldsOf other := by
  have month := readable.month
  have month' := readable'.month
  have day := readable.day
  have day' := readable'.day
  unfold AmzDate.fmtIso8601 AmzDate.fmtDate fieldsOf
  simp only [List.append_assoc, List.cons_append]
  rw [padded_append_lt 3 _ _ _ _ readable.year readable'.year, padded_append_lt 1 _ _ _ _ (by omega) (by omega),
    padded_append_lt 1 _ _ _ _ (by omega) (by omega), List.cons_lt_cons_iff,
    padded_append_lt 1 _ _ _ _ readable.time.1 readable'.time.1,
    padded_append_lt 1 _ _ _ _ readable.time.2.1 readable'.time.2.1,
    padded_append_lt 1 _ _ _ _ readable.time.2.2 readable'.time.2.2]
  simp [List.cons_lt_cons_iff]

/-! Instants and dates. -/

theorem monthDays_le (year month : Nat) : monthDays year month ≤ 31 := by
  unfold monthDays
  split_ifs <;> omega

theorem readable_of (instant : Instant) (year : instant.date.year < 10000) : (AmzDate.of instant).Readable := by
  have most := monthDays_le instant.date.year instant.date.month
  have day := instant.date.inMonth
  have time := instant.inDay
  apply AmzDate.Readable.mk
  · exact year
  · exact instant.date.inYear
  · exact ⟨day.1, le_trans day.2 most⟩
  · change instant.hour < 100 ∧ instant.minute < 100 ∧ instant.second < 100
    omega

theorem Denotes.parse {s : Text} {instant : Instant} (denotes : Denotes s instant) :
    AmzDate.parse s = some (AmzDate.of instant) := by
  rw [← denotes.2]
  exact parse_readable _ (readable_of instant denotes.1)

/-- What is read without straying is an instant. -/
theorem denotes_of_parse (s : Text) (date : AmzDate) (reads : AmzDate.parse s = some date) (straight : ¬ Strays s) :
    ∃ instant, Denotes s instant ∧ AmzDate.of instant = date := by
  obtain ⟨readable, written⟩ := parse_some s date reads
  have within : date.day ≤ monthDays date.year date.month ∧ date.hour < 24 ∧ date.minute < 60 ∧ date.second < 60 := by
    by_contra beyond
    apply straight
    refine ⟨date, readable, written, ?_⟩
    omega
  exact ⟨⟨⟨date.year, date.month, date.day, readable.month, readable.day.1, within.1⟩, date.hour, date.minute,
    date.second, within.2⟩, ⟨readable.year, written⟩, rfl⟩

theorem exact_of_straight (s : Text) (straight : ¬ Strays s) : Exact s := by
  apply Exact.mk
  · constructor
    · intro reads
      obtain ⟨date, found⟩ := Option.isSome_iff_exists.mp reads
      obtain ⟨instant, denotes, -⟩ := denotes_of_parse s date found straight
      exact ⟨instant, denotes⟩
    · intro named
      obtain ⟨instant, denotes⟩ := named
      rw [denotes.parse]
      rfl
  · exact fun date reads => (parse_some s date reads).2
  · intro date reads
    obtain ⟨instant, denotes, same⟩ := denotes_of_parse s date reads straight
    exact ⟨instant, denotes, by rw [← same, toUnix_of]⟩

theorem not_strays_of_accepted (s : Text) (accepted : (AmzDate.parse s).isSome = true ↔ ∃ instant, Denotes s instant) :
    ¬ Strays s := by
  intro strays
  obtain ⟨date, readable, written, beyond⟩ := strays
  have reads : AmzDate.parse s = some date := written ▸ parse_readable date readable
  obtain ⟨instant, denotes⟩ := accepted.mp (by rw [reads]; rfl)
  have same : AmzDate.of instant = date := Option.some.inj (denotes.parse.symm.trans reads)
  have day := instant.date.inMonth
  have time := instant.inDay
  rw [← same] at beyond
  change monthDays instant.date.year instant.date.month < instant.date.day ∨ 24 ≤ instant.hour ∨ 60 ≤ instant.minute ∨
    60 ≤ instant.second at beyond
  omega

theorem ordered_of_straight (s t : Text) (straight : ¬ Strays s) (straight' : ¬ Strays t) : Ordered s t := by
  intro date other reads reads' earlier
  obtain ⟨instant, denotes, rfl⟩ := denotes_of_parse s date reads straight
  obtain ⟨later, denotes', rfl⟩ := denotes_of_parse t other reads' straight'
  rw [toUnix_of, toUnix_of]
  apply unix_lt
  rw [← denotes.2, ← denotes'.2] at earlier
  exact (fmtIso8601_lt _ _ (readable_of instant denotes.1) (readable_of later denotes'.1)).mp earlier

theorem dates_exact_iff (s t : Text) : (Exact s ∧ Exact t ∧ Ordered s t) ↔ ¬ Strays s ∧ ¬ Strays t := by
  constructor
  · intro exacts
    exact ⟨not_strays_of_accepted s exacts.1.accepted, not_strays_of_accepted t exacts.2.1.accepted⟩
  · intro straight
    exact ⟨exact_of_straight s straight.1, exact_of_straight t straight.2, ordered_of_straight s t straight.1 straight.2⟩

/-- The 31st of February is read, as the third of March. -/
theorem february_31 :
    AmzDate.parse "20260231T000000Z".toList = some ⟨2026, 2, 31, 0, 0, 0⟩ ∧
      AmzDate.parse "20260301T000000Z".toList = some ⟨2026, 3, 1, 0, 0, 0⟩ ∧
      ¬ Exact "20260231T000000Z".toList ∧ ¬ Ordered "20260231T000000Z".toList "20260301T000000Z".toList := by
  have first : AmzDate.parse "20260231T000000Z".toList = some ⟨2026, 2, 31, 0, 0, 0⟩ := by decide
  have second : AmzDate.parse "20260301T000000Z".toList = some ⟨2026, 3, 1, 0, 0, 0⟩ := by decide
  refine ⟨first, second, fun exact_ => ?_, fun ordered => ?_⟩
  · apply not_strays_of_accepted _ exact_.accepted
    obtain ⟨readable, written⟩ := parse_some _ _ first
    exact ⟨_, readable, written, by decide⟩
  · have later := ordered _ _ first second (by decide)
    revert later
    decide

end OriginCache.Request.Timestamps
