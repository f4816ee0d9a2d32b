import OriginCache.Foundation.Percent
import OriginCache.Cache.SegName

/-! The request date of a signed request, `YYYYMMDD'T'HHMMSS'Z'`. -/

namespace OriginCache.Request.Dates
open Foundation.Splits Foundation.Percent
open Cache.SegName (Text)

structure AmzDate where
  year : Nat
  month : Nat
  day : Nat
  hour : Nat
  minute : Nat
  second : Nat
deriving DecidableEq, Repr

def isAsciiDigit (b : UInt8) : Bool := 0x30 ≤ b ∧ b ≤ 0x39

def digit (b : UInt8) : Option Nat :=
  if isAsciiDigit b then some (b.toNat - 0x30) else none

def d4 (a b c d : UInt8) : Option Nat := do
  let thousands ← digit a
  let hundreds ← digit b
  let tens ← digit c
  let ones ← digit d
  some (thousands * 1000 + hundreds * 100 + tens * 10 + ones)

def d2 (a b : UInt8) : Option Nat := do
  let tens ← digit a
  let ones ← digit b
  some (tens * 10 + ones)

def AmzDate.parse (s : Text) : Option AmzDate := do
  let x := utf8 s
  let at_ (i : Nat) : UInt8 := x.getD i 0
  if x.length ≠ 16 then none
  let year ← d4 (at_ 0) (at_ 1) (at_ 2) (at_ 3)
  let month ← d2 (at_ 4) (at_ 5)
  let day ← d2 (at_ 6) (at_ 7)
  if at_ 8 ≠ 0x54 then none
  let hour ← d2 (at_ 9) (at_ 10)
  let minute ← d2 (at_ 11) (at_ 12)
  let second ← d2 (at_ 13) (at_ 14)
  if at_ 15 ≠ 0x5A then none
  if month < 1 ∨ 12 < month ∨ day = 0 ∨ 31 < day then none
  some ⟨year, month, day, hour, minute, second⟩

/-- A number in at least `width` digits. -/
def padded (width n : Nat) : Text := List.replicate (width - (numeral n).length) '0' ++ numeral n

def AmzDate.fmtDate (date : AmzDate) : Text := padded 4 date.year ++ padded 2 date.month ++ padded 2 date.day

def AmzDate.fmtIso8601 (date : AmzDate) : Text :=
  date.fmtDate ++ 'T' :: (padded 2 date.hour ++ padded 2 date.minute ++ padded 2 date.second) ++ ['Z']

/-- Days from the civil date, then seconds. Division truncates, as in the source. -/
def AmzDate.toUnix (date : AmzDate) : Int :=
  let y : Int := date.year
  let m : Int := date.month
  let d : Int := date.day
  let yy := if m ≤ 2 then y - 1 else y
  let era := (if 0 ≤ yy then yy else yy - 399).tdiv 400
  let yoe := yy - era * 400
  let mp := (m + 9).tmod 12
  let doy := (153 * mp + 2).tdiv 5 + d - 1
  let doe := yoe * 365 + yoe.tdiv 4 - yoe.tdiv 100 + doy
  let days := era * 146097 + doe - 719468
  days * 86400 + date.hour * 3600 + date.minute * 60 + date.second

example : (AmzDate.parse ['2', '0', '2', '6', '0', '9', '2', '6', 'T', '0', '0', '0', '0', '0', '0', 'Z']).map AmzDate.toUnix =
    some 1790380800 := by decide +kernel

/-! The date of a moment. -/

/-- Year and day of a day within 400 years that begin in March. -/
def yearOfEra (doe : Nat) : Nat × Nat :=
  let century := min (doe / 36524) 3
  let rest := doe - century * 36524
  let year := min (rest % 1461 / 365) 3
  (century * 100 + rest / 1461 * 4 + year, rest % 1461 - year * 365)

/-- Year, month and day of a day counted from 1970-01-01. -/
def civilOfDays (days : Nat) : Nat × Nat × Nat :=
  let z := days + 719468
  let year := yearOfEra (z % 146097)
  let mp := (5 * year.2 + 2) / 153
  (z / 146097 * 400 + year.1 + (if mp < 10 then 0 else 1), if mp < 10 then mp + 3 else mp - 9,
    year.2 - (153 * mp + 2) / 5 + 1)

def AmzDate.ofUnix (seconds : Nat) : AmzDate :=
  let date := civilOfDays (seconds / 86400)
  ⟨date.1, date.2.1, date.2.2, seconds / 3600 % 24, seconds / 60 % 60, seconds % 60⟩

/-- A date that the request form can hold. -/
structure AmzDate.Proper (date : AmzDate) : Prop where
  year : date.year < 10000
  month : 1 ≤ date.month ∧ date.month ≤ 12
  day : 1 ≤ date.day ∧ date.day ≤ 31
  time : date.hour < 24 ∧ date.minute < 60 ∧ date.second < 60

theorem yearOfEra_parts (doe : Nat) (small : doe < 146097) :
    (yearOfEra doe).1 < 400 ∧ (yearOfEra doe).2 < 366 ∧
      doe + (yearOfEra doe).1 / 100 = (yearOfEra doe).1 * 365 + (yearOfEra doe).1 / 4 + (yearOfEra doe).2 := by
  unfold yearOfEra
  dsimp only
  generalize named₁ : min (doe / 36524) 3 = century
  generalize named₂ : doe - century * 36524 = rest
  generalize named₃ : min (rest % 1461 / 365) 3 = year
  have last : year * 365 ≤ rest % 1461 := by omega
  have span : rest / 1461 < 25 := by omega
  have quarter : (century * 100 + rest / 1461 * 4 + year) / 4 = century * 25 + rest / 1461 := by omega
  have hundred : (century * 100 + rest / 1461 * 4 + year) / 100 = century := by omega
  rw [quarter, hundred]
  omega

theorem civilOfDays_parts (days : Nat) : ∃ yoe doy mp : Nat,
    yoe < 400 ∧ doy < 366 ∧ mp = (5 * doy + 2) / 153 ∧
      (days + 719468) % 146097 + yoe / 100 = yoe * 365 + yoe / 4 + doy ∧
      civilOfDays days =
        ((days + 719468) / 146097 * 400 + yoe + (if mp < 10 then 0 else 1), if mp < 10 then mp + 3 else mp - 9,
          doy - (153 * mp + 2) / 5 + 1) := by
  have parts := yearOfEra_parts ((days + 719468) % 146097) (Nat.mod_lt _ (by decide))
  exact ⟨_, _, _, parts.1, parts.2.1, rfl, parts.2.2, rfl⟩

theorem ofUnix_ranges (seconds : Nat) :
    (1 ≤ (AmzDate.ofUnix seconds).month ∧ (AmzDate.ofUnix seconds).month ≤ 12) ∧
      (1 ≤ (AmzDate.ofUnix seconds).day ∧ (AmzDate.ofUnix seconds).day ≤ 31) := by
  obtain ⟨yoe, doy, mp, -, bound, months, -, same⟩ := civilOfDays_parts (seconds / 86400)
  have most : mp ≤ 11 := by omega
  simp only [AmzDate.ofUnix, same]
  constructor
  · split_ifs <;> omega
  · omega

/-- The date of a moment is that moment. -/
theorem toUnix_ofUnix (seconds : Nat) : (AmzDate.ofUnix seconds).toUnix = seconds := by
  obtain ⟨yoe, doy, mp, few, bound, months, whole, same⟩ := civilOfDays_parts (seconds / 86400)
  have most : mp ≤ 11 := by omega
  have era := Nat.div_add_mod (seconds / 86400 + 719468) 146097
  generalize (seconds / 86400 + 719468) / 146097 = e at era same
  generalize (seconds / 86400 + 719468) % 146097 = doe at era whole
  unfold AmzDate.toUnix AmzDate.ofUnix
  simp only [same]
  have march : (if (((if mp < 10 then mp + 3 else mp - 9 : Nat) : Int) ≤ 2) then
      ((e * 400 + yoe + (if mp < 10 then 0 else 1) : Nat) : Int) - 1
      else ((e * 400 + yoe + (if mp < 10 then 0 else 1) : Nat) : Int)) = ((e * 400 + yoe : Nat) : Int) := by
    split_ifs <;> omega
  rw [march]
  have positive : (0 : Int) ≤ ((e * 400 + yoe : Nat) : Int) := Int.natCast_nonneg _
  rw [if_pos positive]
  have eras : (((e * 400 + yoe : Nat) : Int)).tdiv 400 = e := by
    rw [Int.tdiv_eq_ediv_of_nonneg positive]
    omega
  have month : ((((if mp < 10 then mp + 3 else mp - 9 : Nat) : Int)) + 9).tmod 12 = mp := by
    rw [Int.tmod_eq_emod_of_nonneg (by split_ifs <;> omega)]
    split_ifs <;> omega
  rw [eras, month]
  have first : (153 * (mp : Int) + 2).tdiv 5 = ((153 * mp + 2) / 5 : Nat) := by
    rw [Int.tdiv_eq_ediv_of_nonneg (by omega)]
    omega
  have rest : (((e * 400 + yoe : Nat) : Int)) - e * 400 = yoe := by omega
  rw [rest, first]
  have quarter : (yoe : Int).tdiv 4 = (yoe / 4 : Nat) := by
    rw [Int.tdiv_eq_ediv_of_nonneg (by omega)]
    omega
  have hundred : (yoe : Int).tdiv 100 = (yoe / 100 : Nat) := by
    rw [Int.tdiv_eq_ediv_of_nonneg (by omega)]
    omega
  rw [quarter, hundred]
  have reached : (153 * mp + 2) / 5 ≤ doy := by omega
  omega

/-! Its text is read back. -/

def digitByte (n : Nat) : UInt8 := UInt8.ofNat (0x30 + n)

theorem digit_digitByte (n : Nat) (small : n < 10) : digit (digitByte n) = some n := by
  have each : ∀ m, m < 10 → digit (digitByte m) = some m := by decide
  exact each n small

theorem utf8_digitChar (n : Nat) (small : n < 10) : utf8 [Nat.digitChar n] = [digitByte n] := by
  have each : ∀ m, m < 10 → utf8 [Nat.digitChar m] = [digitByte m] := by decide +kernel
  exact each n small

/-- One more digit of room. -/
theorem padded_succ (width n : Nat) (room : 0 < width) :
    padded (width + 1) n = padded width (n / 10) ++ [Nat.digitChar (n % 10)] := by
  unfold padded numeral
  by_cases single : n < 10
  · have zero : n / 10 = 0 := by omega
    have zeros : List.replicate width '0' = List.replicate (width - 1) '0' ++ ['0'] := by
      rw [← List.replicate_succ', Nat.sub_add_cancel room]
    rw [zero, Nat.mod_eq_of_lt single, Nat.toDigits_of_lt_base single, Nat.toDigits_zero, List.length_singleton,
      List.length_singleton, Nat.add_sub_cancel, zeros]
  · rw [Nat.toDigits_of_base_le (by decide) (Nat.le_of_not_lt single), List.length_append, List.length_singleton,
      Nat.add_sub_add_right, List.append_assoc]

theorem padded_one (n : Nat) (small : n < 10) : padded 1 n = [Nat.digitChar n] := by
  unfold padded numeral
  rw [Nat.toDigits_of_lt_base small]
  rfl

theorem utf8_padded_two (n : Nat) (small : n < 100) :
    utf8 (padded 2 n) = [digitByte (n / 10), digitByte (n % 10)] := by
  rw [padded_succ 1 n (by decide), padded_one _ (by omega), utf8_append, utf8_digitChar _ (by omega),
    utf8_digitChar _ (Nat.mod_lt _ (by decide))]
  rfl

theorem utf8_padded_four (n : Nat) (small : n < 10000) : utf8 (padded 4 n) =
    [digitByte (n / 1000), digitByte (n / 100 % 10), digitByte (n / 10 % 10), digitByte (n % 10)] := by
  have hundreds : n / 10 / 10 = n / 100 := by omega
  rw [padded_succ 3 n (by decide), padded_succ 2 _ (by decide), hundreds, utf8_append, utf8_append,
    utf8_padded_two _ (by omega), utf8_digitChar _ (Nat.mod_lt _ (by decide)),
    utf8_digitChar _ (Nat.mod_lt _ (by decide))]
  have thousands : n / 100 / 10 = n / 1000 := by omega
  rw [thousands]
  rfl

theorem d2_digits (n : Nat) (small : n < 100) : d2 (digitByte (n / 10)) (digitByte (n % 10)) = some n := by
  have value : n / 10 * 10 + n % 10 = n := by omega
  simp only [d2, digit_digitByte _ (show n / 10 < 10 by omega), digit_digitByte _ (Nat.mod_lt _ (by decide)),
    Option.bind_eq_bind, Option.bind_some, value]

theorem d4_digits (n : Nat) (small : n < 10000) :
    d4 (digitByte (n / 1000)) (digitByte (n / 100 % 10)) (digitByte (n / 10 % 10)) (digitByte (n % 10)) = some n := by
  have value : n / 1000 * 1000 + n / 100 % 10 * 100 + n / 10 % 10 * 10 + n % 10 = n := by omega
  simp only [d4, digit_digitByte _ (show n / 1000 < 10 by omega), digit_digitByte _ (Nat.mod_lt _ (by decide)),
    Option.bind_eq_bind, Option.bind_some, value]

/-- Fields that the parser lets through. -/
structure AmzDate.Readable (date : AmzDate) : Prop where
  year : date.year < 10000
  month : 1 ≤ date.month ∧ date.month ≤ 12
  day : 1 ≤ date.day ∧ date.day ≤ 31
  time : date.hour < 100 ∧ date.minute < 100 ∧ date.second < 100

theorem AmzDate.Proper.readable {date : AmzDate} (proper : date.Proper) : date.Readable := by
  have time := proper.time
  exact ⟨proper.year, proper.month, proper.day, by omega, by omega, by omega⟩

theorem utf8_fmtIso8601 (date : AmzDate) (readable : date.Readable) : utf8 date.fmtIso8601 =
    [digitByte (date.year / 1000), digitByte (date.year / 100 % 10), digitByte (date.year / 10 % 10),
      digitByte (date.year % 10), digitByte (date.month / 10), digitByte (date.month % 10), digitByte (date.day / 10),
      digitByte (date.day % 10), 0x54, digitByte (date.hour / 10), digitByte (date.hour % 10),
      digitByte (date.minute / 10), digitByte (date.minute % 10), digitByte (date.second / 10),
      digitByte (date.second % 10), 0x5A] := by
  have bytes : utf8 date.fmtIso8601 =
      utf8 (padded 4 date.year) ++ utf8 (padded 2 date.month) ++ utf8 (padded 2 date.day) ++ 0x54 ::
        (utf8 (padded 2 date.hour) ++ utf8 (padded 2 date.minute) ++ utf8 (padded 2 date.second)) ++ [0x5A] := by
    have mark : ∀ rest, utf8 ('T' :: rest) = 0x54 :: utf8 rest := fun rest => utf8_append ['T'] rest
    have zulu : utf8 ['Z'] = [0x5A] := by decide
    simp only [AmzDate.fmtIso8601, AmzDate.fmtDate, utf8_append, mark, zulu]
  have month := readable.month
  have day := readable.day
  have ⟨hour, minute, second⟩ := readable.time
  rw [utf8_padded_four _ readable.year, utf8_padded_two date.month (by omega), utf8_padded_two date.day (by omega),
    utf8_padded_two date.hour hour, utf8_padded_two date.minute minute, utf8_padded_two date.second second] at bytes
  exact bytes

theorem parse_readable (date : AmzDate) (readable : date.Readable) : AmzDate.parse date.fmtIso8601 = some date := by
  have month := readable.month
  have day := readable.day
  have ⟨hour, minute, second⟩ := readable.time
  have inRange : ¬(date.month < 1 ∨ 12 < date.month ∨ date.day = 0 ∨ 31 < date.day) := by omega
  unfold AmzDate.parse
  rw [utf8_fmtIso8601 date readable]
  simp only [List.length_cons, List.length_nil, List.getD_cons_zero,
    List.getD_cons_succ, d4_digits _ readable.year, d2_digits date.month (by omega), d2_digits date.day (by omega),
    d2_digits date.hour hour, d2_digits date.minute minute, d2_digits date.second second,
    Option.bind_eq_bind, Option.bind_some, if_neg inRange, ne_eq, not_true_eq_false, if_false]

theorem parse_fmtIso8601 (date : AmzDate) (proper : date.Proper) : AmzDate.parse date.fmtIso8601 = some date :=
  parse_readable date proper.readable

theorem padded_isDigit (width n : Nat) (c : Char) (member : c ∈ padded width n) : c.isDigit = true := by
  cases List.mem_append.mp member with
  | inl zero =>
    rw [List.eq_of_mem_replicate zero]
    rfl
  | inr digits => exact numeral_isDigit n c digits

theorem padded_length (width n : Nat) (small : n < 10 ^ (width + 1)) : (padded (width + 1) n).length = width + 1 := by
  induction width generalizing n with
  | zero => rw [padded_one n small, List.length_singleton]
  | succ width ih =>
    have shorter : n / 10 < 10 ^ (width + 1) := by
      rw [Nat.pow_succ] at small
      omega
    rw [padded_succ (width + 1) n (Nat.succ_pos width), List.length_append, ih _ shorter, List.length_singleton]

theorem isAsciiDigit_digitByte (n : Nat) (small : n < 10) : isAsciiDigit (digitByte n) = true := by
  have each : ∀ m, m < 10 → isAsciiDigit (digitByte m) = true := by decide
  exact each n small

theorem fmtDate_bytes (date : AmzDate) (proper : date.Proper) :
    (utf8 date.fmtDate).length = 8 ∧ (utf8 date.fmtDate).all isAsciiDigit = true := by
  have month := proper.month
  have day := proper.day
  have year := proper.year
  unfold AmzDate.fmtDate
  rw [utf8_append, utf8_append, utf8_padded_four _ year, utf8_padded_two date.month (by omega),
    utf8_padded_two date.day (by omega)]
  have digits : ∀ m, m < 10 → isAsciiDigit (digitByte m) = true := isAsciiDigit_digitByte
  constructor
  · rfl
  · simp only [List.cons_append, List.nil_append, List.all_cons, List.all_nil, Bool.and_true, Bool.and_eq_true]
    refine ⟨digits _ ?_, digits _ ?_, digits _ ?_, digits _ ?_, digits _ ?_, digits _ ?_, digits _ ?_, digits _ ?_⟩ <;> omega

end OriginCache.Request.Dates
