import Mathlib.Tactic.IntervalCases
import Meu1oARM.Foundation.Calendar
import Meu1oARM.Foundation.Machine

/-! # The real-time clock

The clock counts seconds in a register of 32 bits. The driver converts between
seconds and dates; every fourth year is a leap year to it.
-/

namespace Meu1oARM

open Machine Calendar

/-- `rtc_datetime_t` -/
structure RtcDatetime where
  year : Nat
  month : Nat
  day : Nat
  hour : Nat
  minute : Nat
  second : Nat
  deriving DecidableEq, Repr

/-- `ULY` -/
def uly : List Nat := [0, 31, 28, 31, 30, 31, 30, 31, 31, 30, 31, 30, 31]

/-- `LY` -/
def ly : List Nat := [0, 31, 29, 31, 30, 31, 30, 31, 31, 30, 31, 30, 31]

/-- `MONTH_DAYS` -/
def monthDays : List Nat := [0, 0, 31, 59, 90, 120, 151, 181, 212, 243, 273, 304, 334]

/-- The year loop of `RTC_HAL_ConvertSecsToDatetime`: the days left and the year. Every
round takes days away, so the days bound the rounds. -/
def yearLoop : Nat → Nat → Nat → Nat → Nat × Nat
  | 0, days, _, year => (days, year)
  | fuel + 1, days, daysInYear, year =>
    if daysInYear < days then
      let year' := u16 (year + 1)
      yearLoop fuel (days - daysInYear) (if year' &&& 3 ≠ 0 then 365 else 366) year'
    else (days, year)

/-- The month loop of `RTC_HAL_ConvertSecsToDatetime` from the month `x` on: the days left
and the month, which stays what it was when no month is long enough. -/
def monthLoop (daysInMonth : List Nat) : Nat → Nat → Nat → Nat → Nat × Nat
  | 0, _, days, month => (days, month)
  | fuel + 1, x, days, month =>
    if days ≤ daysInMonth.getD x 0 then (days, x)
    else monthLoop daysInMonth fuel (x + 1) (days - daysInMonth.getD x 0) month

/-- `RTC_HAL_ConvertSecsToDatetime` -/
def convertSecsToDatetime (seconds : UInt32) (datetime : RtcDatetime) : RtcDatetime :=
  let days := seconds.toNat / 86400 + 1
  let left := seconds.toNat % 86400
  let (days, year) := yearLoop days days 365 1970
  let (days, month) :=
    monthLoop (if year &&& 3 ≠ 0 then uly else ly) 12 1 days datetime.month
  { year, month
    day := u16 days
    hour := u16 (left / 3600)
    minute := u16 (left % 3600 / 60)
    second := u8 (left % 3600 % 60) }

/-- `RTC_HAL_IsDatetimeCorrectFormat` -/
def isDatetimeCorrectFormat (datetime : RtcDatetime) : Bool :=
  let result :=
    !(datetime.year < 1970 || datetime.year > 2099 || datetime.month > 12 ||
      datetime.month < 1 || datetime.day > 31 || datetime.day < 1 || datetime.hour ≥ 24 ||
      datetime.minute ≥ 60 || datetime.second ≥ 60)
  if result && datetime.year &&& 3 ≠ 0 then
    if uly.getD datetime.month 0 < datetime.day then false else result
  else if result && ly.getD datetime.month 0 < datetime.day then false
  else result

/-- `MONTH_DAYS[month]`; `stray` is what stands in the memory behind the table. -/
def monthDaysAt (stray : Nat → Nat) (month : Nat) : Nat :=
  if month < monthDays.length then monthDays.getD month 0 else u16 (stray month)

/-- `RTC_HAL_ConvertDatetimeToSecs` -/
def convertDatetimeToSecs (stray : Nat → Nat) (datetime : RtcDatetime) : UInt32 :=
  let seconds := u32 (sub32 datetime.year 1970 * 365)
  let seconds := u32 (seconds + sub32 (datetime.year / 4) (1970 / 4))
  let seconds := u32 (seconds + monthDaysAt stray datetime.month)
  let seconds := u32 (seconds + sub32 datetime.day 1)
  let seconds :=
    if datetime.year &&& 3 = 0 ∧ datetime.month ≤ 2 then sub32 seconds 1 else seconds
  UInt32.ofNat (u32 (seconds * 86400) + u32 (datetime.hour * 3600) +
    u32 (datetime.minute * 60) + datetime.second)

section Tables

theorem and_three (n : Nat) : n &&& 3 = n % 4 := Nat.and_two_pow_sub_one_eq_mod n 2

theorem everyFourth_iff {y : Nat} : everyFourth y ↔ y &&& 3 = 0 := by
  simp [everyFourth, and_three]

/-- The table of month lengths that the driver picks for a year. -/
theorem monthTable_getD (y m : Nat) :
    (if y &&& 3 ≠ 0 then uly else ly).getD m 0 = monthLength everyFourth y m := by
  by_cases hm : m ≤ 12
  · by_cases hleap : y &&& 3 = 0
    · have hfourth : everyFourth y := everyFourth_iff.mpr hleap
      interval_cases m <;> simp [hleap, hfourth, ly, monthLength]
    · have hfourth : ¬everyFourth y := fun h => hleap (everyFourth_iff.mp h)
      interval_cases m <;> simp [hleap, hfourth, uly, monthLength]
  · obtain ⟨n, rfl⟩ : ∃ n, m = n + 13 := ⟨m - 13, by omega⟩
    have hlength : (if y &&& 3 ≠ 0 then uly else ly).length ≤ n + 13 := by
      split <;> simp [uly, ly]
    rw [List.getD_eq_getElem?_getD, List.getElem?_eq_none hlength]
    rfl

theorem monthDays_getD {y m : Nat} (hpos : 1 ≤ m) (hle : m ≤ 12) :
    monthDays.getD m 0 + (if everyFourth y ∧ 2 < m then 1 else 0) =
      monthStart everyFourth y m := by
  by_cases hleap : everyFourth y
  · interval_cases m <;> simp [hleap, monthDays, monthStart, monthLength]
  · interval_cases m <;> simp [hleap, monthDays, monthStart, monthLength]

/-- The days in front of a year, counted from 1970. -/
theorem yearStart_1970 (n : Nat) : yearStart everyFourth 1970 n = 365 * n + (n + 1) / 4 := by
  induction n with
  | zero => rfl
  | succ n ih =>
      rw [yearStart, ih, yearLength]
      by_cases h : everyFourth (1970 + n)
      · have hmod : (1970 + n) % 4 = 0 := by simpa [everyFourth] using h
        rw [if_pos h]
        omega
      · have hmod : (1970 + n) % 4 ≠ 0 := by simpa [everyFourth] using h
        rw [if_neg h]
        omega

end Tables

section Reading

theorem yearLoop_spec (fuel : Nat) {d n : Nat} (hpos : 1 ≤ d) (hfuel : d ≤ fuel)
    (hbound : 1970 + n + d < 65536) :
    ∃ n' d', yearLoop fuel d (yearLength everyFourth (1970 + n)) (1970 + n) = (d', 1970 + n') ∧
      1 ≤ d' ∧ d' ≤ yearLength everyFourth (1970 + n') ∧
      yearStart everyFourth 1970 n' + d' = yearStart everyFourth 1970 n + d := by
  induction fuel generalizing d n with
  | zero => omega
  | succ fuel ih =>
      rw [yearLoop]
      split
      next hlt =>
        have hlength : 365 ≤ yearLength everyFourth (1970 + n) := by
          unfold yearLength
          split <;> omega
        have hyear : u16 (1970 + n + 1) = 1970 + (n + 1) := u16_of_lt (by omega)
        have hnext : (if 1970 + (n + 1) &&& 3 ≠ 0 then 365 else 366) =
            yearLength everyFourth (1970 + (n + 1)) := by
          simp only [yearLength, everyFourth_iff, ne_eq, ite_not]
        obtain ⟨n', d', hloop, hday, hday', hsum⟩ :=
          ih (d := d - yearLength everyFourth (1970 + n)) (n := n + 1)
            (by omega) (by omega) (by omega)
        refine ⟨n', d', ?_, hday, hday', ?_⟩
        · simp only [hyear, hnext, hloop]
        · rw [hsum, yearStart]
          omega
      next hle => exact ⟨n, d, rfl, hpos, Nat.le_of_not_lt hle, rfl⟩

theorem monthLoop_spec (y month : Nat) {fuel x d : Nat} (hfuel : x + fuel = 13) (hx : 1 ≤ x)
    (hpos : 1 ≤ d) (hle : monthStart everyFourth y x + d ≤ monthStart everyFourth y 13) :
    ∃ m d', monthLoop (if y &&& 3 ≠ 0 then uly else ly) fuel x d month = (d', m) ∧
      IsDate everyFourth y m d' ∧
      monthStart everyFourth y m + d' = monthStart everyFourth y x + d := by
  induction fuel generalizing x d with
  | zero =>
      obtain rfl : x = 13 := hfuel
      omega
  | succ fuel ih =>
      rw [monthLoop, monthTable_getD]
      split
      next hday => exact ⟨x, d, rfl, ⟨hx, by omega, hpos, hday⟩, rfl⟩
      next hday =>
        have hstart : monthStart everyFourth y (x + 1) =
            monthStart everyFourth y x + monthLength everyFourth y x := rfl
        obtain ⟨m, d', hloop, hdate, hsum⟩ :=
          ih (x := x + 1) (d := d - monthLength everyFourth y x) (by omega) (by omega)
            (by omega) (by omega)
        exact ⟨m, d', hloop, hdate, by omega⟩

/-- The date and time are those of a number of seconds. -/
structure RtcDatetime.Shows (datetime : RtcDatetime) (seconds : Nat) : Prop where
  date : IsDate everyFourth datetime.year datetime.month datetime.day
  year_ge : 1970 ≤ datetime.year
  day_eq : dayNumber everyFourth 1970 datetime.year datetime.month datetime.day =
    seconds / 86400 + 1
  minute_lt : datetime.minute < 60
  second_lt : datetime.second < 60
  time_eq : datetime.hour * 3600 + datetime.minute * 60 + datetime.second = seconds % 86400

theorem convertSecsToDatetime_shows (seconds : UInt32) (datetime : RtcDatetime) :
    (convertSecsToDatetime seconds datetime).Shows seconds.toNat := by
  have hlt : seconds.toNat < 4294967296 := seconds.toNat_lt
  obtain ⟨n, days, hyear, hday, hday', hsum⟩ :=
    yearLoop_spec (seconds.toNat / 86400 + 1) (d := seconds.toNat / 86400 + 1) (n := 0)
      (by omega) (Nat.le_refl _) (by omega)
  have hlength : yearLength everyFourth (1970 + 0) = 365 := rfl
  rw [hlength] at hyear
  have hinYear : monthStart everyFourth (1970 + n) 1 + days ≤
      monthStart everyFourth (1970 + n) 13 := by
    rw [monthStart_thirteen]
    simpa [monthStart, monthLength] using hday'
  obtain ⟨m, d, hmonth, hdate, hsum'⟩ :=
    monthLoop_spec (1970 + n) datetime.month (Eq.refl (1 + 12)) (Nat.le_refl _) hday hinYear
  -- none of the fields is cut off
  have hd : u16 d = d := by
    have hle := hdate.in_year
    have hyearLength : yearLength everyFourth (1970 + n) ≤ 366 := by
      unfold yearLength
      split <;> omega
    exact u16_of_lt (by omega)
  have hhour : u16 (seconds.toNat % 86400 / 3600) = seconds.toNat % 86400 / 3600 :=
    u16_of_lt (by omega)
  have hminute : u16 (seconds.toNat % 86400 % 3600 / 60) = seconds.toNat % 86400 % 3600 / 60 :=
    u16_of_lt (by omega)
  have hsecond : u8 (seconds.toNat % 86400 % 3600 % 60) = seconds.toNat % 86400 % 3600 % 60 :=
    u8_of_lt (by omega)
  have hresult : convertSecsToDatetime seconds datetime =
      { year := 1970 + n, month := m, day := d
        hour := seconds.toNat % 86400 / 3600
        minute := seconds.toNat % 86400 % 3600 / 60
        second := seconds.toNat % 86400 % 3600 % 60 } := by
    simp only [convertSecsToDatetime, hyear, hmonth, hd, hhour, hminute, hsecond]
  rw [hresult]
  refine ⟨hdate, Nat.le_add_right _ _, ?_, ?_, ?_, ?_⟩
  · simp only [dayNumber, Nat.add_sub_cancel_left]
    simp only [yearStart, monthStart, monthLength] at hsum hsum'
    omega
  · exact Nat.div_lt_of_lt_mul (Nat.mod_lt _ (by decide))
  · exact Nat.mod_lt _ (by decide)
  · simp only
    omega

theorem RtcDatetime.Shows.hour_lt {datetime : RtcDatetime} {seconds : Nat}
    (h : datetime.Shows seconds) : datetime.hour < 24 := by
  have htime := h.time_eq
  omega

/-- A number of seconds is shown as one date and time only. -/
theorem RtcDatetime.Shows.unique {a b : RtcDatetime} {seconds : Nat} (ha : a.Shows seconds)
    (hb : b.Shows seconds) : a = b := by
  obtain ⟨hyear, hmonth, hday⟩ :=
    dayNumber_injective ha.date hb.date ha.year_ge hb.year_ge (ha.day_eq.trans hb.day_eq.symm)
  have htime := ha.time_eq.trans hb.time_eq.symm
  have hminute := ha.minute_lt
  have hminute' := hb.minute_lt
  have hsecond := ha.second_lt
  have hsecond' := hb.second_lt
  cases a
  cases b
  simp only at hyear hmonth hday htime hminute hminute' hsecond hsecond'
  simp only [RtcDatetime.mk.injEq]
  omega

/-- The date that is there before does not show through. -/
theorem convertSecsToDatetime_eq {datetime datetime' : RtcDatetime} {seconds : UInt32}
    (h : datetime.Shows seconds.toNat) : convertSecsToDatetime seconds datetime' = datetime :=
  (convertSecsToDatetime_shows seconds datetime').unique h

end Reading

section Writing

/-- The days since 1970 that the driver computes; a day zero or a month zero is one day
or one month too early. -/
def RtcDatetime.dayIndex (datetime : RtcDatetime) : Int :=
  365 * ((datetime.year : Int) - 1970) + ((datetime.year / 4 : Nat) - 492) +
    (monthDays.getD datetime.month 0 : Nat) + datetime.day - 1 -
    (if datetime.year &&& 3 = 0 ∧ datetime.month ≤ 2 then 1 else 0)

/-- The conversion to seconds computes modulo 2 ^ 32 throughout. -/
theorem convertDatetimeToSecs_toNat {datetime : RtcDatetime} (hmonth : datetime.month ≤ 12)
    (stray : Nat → Nat) :
    ((convertDatetimeToSecs stray datetime).toNat : Int) =
      (datetime.dayIndex * 86400 + datetime.hour * 3600 + datetime.minute * 60 +
        datetime.second) % 4294967296 := by
  have htable : monthDaysAt stray datetime.month = monthDays.getD datetime.month 0 :=
    if_pos (Nat.lt_succ_of_le hmonth)
  unfold convertDatetimeToSecs RtcDatetime.dayIndex
  rw [htable, UInt32.toNat_ofNat']
  generalize monthDays.getD datetime.month 0 = table
  split <;> simp only [u32, sub32] <;> omega

theorem RtcDatetime.dayIndex_of_isDate {datetime : RtcDatetime} (hyear : 1970 ≤ datetime.year)
    (hdate : IsDate everyFourth datetime.year datetime.month datetime.day) :
    datetime.dayIndex + 1 =
      dayNumber everyFourth 1970 datetime.year datetime.month datetime.day := by
  obtain ⟨n, hn⟩ := Nat.exists_eq_add_of_le hyear
  have hmonth := monthDays_getD (y := datetime.year) hdate.month_pos hdate.month_le
  have hpos := hdate.day_pos
  rw [dayNumber, ← hmonth, hn, Nat.add_sub_cancel_left, yearStart_1970]
  unfold RtcDatetime.dayIndex
  rw [hn]
  by_cases hleap : 1970 + n &&& 3 = 0
  · have hmod := hleap
    rw [and_three] at hmod
    by_cases hfeb : datetime.month ≤ 2
    · simp [everyFourth_iff, hleap, hfeb, Nat.not_lt_of_le hfeb]
      omega
    · simp [everyFourth_iff, hleap, hfeb, Nat.lt_of_not_le hfeb]
      omega
  · have hmod := hleap
    rw [and_three] at hmod
    simp [everyFourth_iff, hleap]
    omega

/-- A date and time that the clock can show. -/
structure RtcDatetime.Real (datetime : RtcDatetime) : Prop where
  date : IsDate everyFourth datetime.year datetime.month datetime.day
  year_ge : 1970 ≤ datetime.year
  hour_lt : datetime.hour < 24
  minute_lt : datetime.minute < 60
  second_lt : datetime.second < 60

theorem RtcDatetime.Shows.real {datetime : RtcDatetime} {seconds : Nat}
    (h : datetime.Shows seconds) : datetime.Real :=
  ⟨h.date, h.year_ge, h.hour_lt, h.minute_lt, h.second_lt⟩

/-- The seconds since 1970. -/
def RtcDatetime.seconds (datetime : RtcDatetime) : Nat :=
  (dayNumber everyFourth 1970 datetime.year datetime.month datetime.day - 1) * 86400 +
    (datetime.hour * 3600 + datetime.minute * 60 + datetime.second)

theorem RtcDatetime.seconds_cast {t : RtcDatetime} (hyear : 1970 ≤ t.year)
    (hdate : IsDate everyFourth t.year t.month t.day) :
    (t.seconds : Int) = t.dayIndex * 86400 + (t.hour * 3600 + t.minute * 60 + t.second) := by
  have hday := RtcDatetime.dayIndex_of_isDate hyear hdate
  have hpos := hdate.day_pos
  have hnumber : 1 ≤ dayNumber everyFourth 1970 t.year t.month t.day :=
    hpos.trans (Nat.le_add_left _ _)
  unfold RtcDatetime.seconds
  omega

theorem RtcDatetime.Real.shows {datetime : RtcDatetime} (h : datetime.Real) :
    datetime.Shows datetime.seconds := by
  have hday := h.date.day_pos
  have hhour := h.hour_lt
  have hminute := h.minute_lt
  have hsecond := h.second_lt
  refine ⟨h.date, h.year_ge, ?_, hminute, hsecond, ?_⟩
  · unfold RtcDatetime.seconds dayNumber
    omega
  · unfold RtcDatetime.seconds
    omega

theorem RtcDatetime.Shows.seconds_eq {datetime : RtcDatetime} {seconds : Nat}
    (h : datetime.Shows seconds) : datetime.seconds = seconds := by
  rw [RtcDatetime.seconds, h.day_eq, h.time_eq, Nat.add_sub_cancel, Nat.div_add_mod']

theorem convertDatetimeToSecs_of_real {datetime : RtcDatetime} (h : datetime.Real)
    (stray : Nat → Nat) :
    (convertDatetimeToSecs stray datetime).toNat = datetime.seconds % 4294967296 := by
  have hseconds := convertDatetimeToSecs_toNat h.date.month_le stray
  have hcast := RtcDatetime.seconds_cast h.year_ge h.date
  omega

/-- Reading the clock and setting it to what was read changes nothing. -/
theorem convertDatetimeToSecs_convertSecsToDatetime (seconds : UInt32) (datetime : RtcDatetime)
    (stray : Nat → Nat) :
    convertDatetimeToSecs stray (convertSecsToDatetime seconds datetime) = seconds := by
  have hshows := convertSecsToDatetime_shows seconds datetime
  have hlt : seconds.toNat < 4294967296 := seconds.toNat_lt
  apply UInt32.toNat_inj.mp
  rw [convertDatetimeToSecs_of_real hshows.real, hshows.seconds_eq, Nat.mod_eq_of_lt hlt]

/-- Setting the clock and reading it gives what was set, as long as the seconds fit. -/
theorem convertSecsToDatetime_convertDatetimeToSecs {datetime : RtcDatetime} (h : datetime.Real)
    (hfits : datetime.seconds < 4294967296) (stray : Nat → Nat) (before : RtcDatetime) :
    convertSecsToDatetime (convertDatetimeToSecs stray datetime) before = datetime := by
  apply convertSecsToDatetime_eq
  rw [convertDatetimeToSecs_of_real h, Nat.mod_eq_of_lt hfits]
  exact h.shows

/-- Up to the end of 2099 the seconds fit. -/
theorem RtcDatetime.Real.seconds_lt {datetime : RtcDatetime} (h : datetime.Real)
    (hyear : datetime.year ≤ 2099) : datetime.seconds < 4294967296 := by
  obtain ⟨n, hn⟩ := Nat.exists_eq_add_of_le h.year_ge
  have hle := h.date.in_year
  have hyearLength : yearLength everyFourth datetime.year ≤ 366 := by
    unfold yearLength
    split <;> omega
  have hhour := h.hour_lt
  have hminute := h.minute_lt
  have hsecond := h.second_lt
  unfold RtcDatetime.seconds dayNumber
  rw [hn, Nat.add_sub_cancel_left, yearStart_1970, ← hn]
  omega

/-- The check of the driver accepts the real dates from 1970 to 2099. -/
theorem isDatetimeCorrectFormat_iff {datetime : RtcDatetime} :
    isDatetimeCorrectFormat datetime ↔ datetime.Real ∧ datetime.year ≤ 2099 := by
  have htable := monthTable_getD datetime.year datetime.month
  have hcheck : isDatetimeCorrectFormat datetime ↔
      1970 ≤ datetime.year ∧ datetime.year ≤ 2099 ∧ datetime.month ≤ 12 ∧ 1 ≤ datetime.month ∧
        datetime.day ≤ 31 ∧ 1 ≤ datetime.day ∧ datetime.hour < 24 ∧ datetime.minute < 60 ∧
        datetime.second < 60 ∧
        datetime.day ≤ monthLength everyFourth datetime.year datetime.month := by
    rw [← htable]
    unfold isDatetimeCorrectFormat
    by_cases hleap : datetime.year &&& 3 = 0
    · simp [hleap]
      grind
    · simp [hleap]
      grind
  rw [hcheck]
  constructor
  · rintro ⟨hfirst, hlast, hmonth, hmonth', -, hday, hhour, hminute, hsecond, hlength⟩
    exact ⟨⟨⟨hmonth', hmonth, hday, hlength⟩, hfirst, hhour, hminute, hsecond⟩, hlast⟩
  · rintro ⟨h, hlast⟩
    have hday : datetime.day ≤ 31 := h.date.day_le.trans (monthLength_le _ _)
    exact ⟨h.year_ge, hlast, h.date.month_le, h.date.month_pos, hday, h.date.day_pos,
      h.hour_lt, h.minute_lt, h.second_lt, h.date.day_le⟩

end Writing

end Meu1oARM
