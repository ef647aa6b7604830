import Mathlib.Data.Int.GCD
import Mathlib.Tactic.Linarith
import Meu1oARM.Board.Clock

/-! # What the clock is set to

Setting the clock and showing it round-trips when no digits are left over in the second
block; the unescaped time loses its minutes. Nothing checks the numbers that are read.
-/

namespace Meu1oARM

open Machine CString Calendar

section Showing

variable (b : Board)

theorem Board.now_shows : b.now.Shows b.rtc.toNat := convertSecsToDatetime_shows b.rtc b.date

theorem RtcDatetime.Shows.year_lt {datetime : RtcDatetime} {seconds : UInt32}
    (h : datetime.Shows seconds.toNat) : datetime.year < 10000 := by
  have hlt : seconds.toNat < 4294967296 := seconds.toNat_lt
  obtain ⟨n, hn⟩ := Nat.exists_eq_add_of_le h.year_ge
  have hday := h.day_eq
  rw [dayNumber, hn, Nat.add_sub_cancel_left, yearStart_1970] at hday
  omega

theorem RtcDatetime.Shows.day_lt {datetime : RtcDatetime} {seconds : Nat}
    (h : datetime.Shows seconds) : datetime.day < 32 :=
  Nat.lt_succ_of_le (h.date.day_le.trans (monthLength_le _ _))

theorem printfInt_short {w n : Nat} (h : n < 32768) : printfInt w (short n) = decimal w n := by
  rw [short_of_lt h, printfInt_natCast]

/-- The text for `tag1`. -/
theorem atualizadorSsi_date :
    (atualizadorSsi b 0).1 = decimal 2 b.now.day ++ 47 :: decimal 2 b.now.month ++
      47 :: decimal 4 b.now.year ++ [32] := by
  have hshows := b.now_shows
  have hday := hshows.day_lt
  have hmonth := hshows.date.month_le
  have hyear := hshows.year_lt
  rw [← printfInt_short (w := 2) (n := b.now.day) (by omega),
    ← printfInt_short (w := 2) (n := b.now.month) (by omega),
    ← printfInt_short (w := 4) (n := b.now.year) (by omega)]
  rfl

/-- The text for `tag2`. -/
theorem atualizadorSsi_time :
    (atualizadorSsi b 1).1 =
      decimal 2 b.now.hour ++ 58 :: decimal 2 b.now.minute ++ [32] := by
  have hshows := b.now_shows
  have hhour := hshows.hour_lt
  have hminute := hshows.minute_lt
  rw [← printfInt_short (w := 2) (n := b.now.hour) (by omega),
    ← printfInt_short (w := 2) (n := b.now.minute) (by omega)]
  rfl

theorem decimal_append_inj {w n n' : Nat} {rest rest' : List UInt8} (h : n < 10 ^ w)
    (h' : n' < 10 ^ w) (heq : decimal w n ++ rest = decimal w n' ++ rest') :
    n = n' ∧ rest = rest' := by
  obtain ⟨hdigits, hrest⟩ :=
    List.append_inj heq ((length_decimal h).trans (length_decimal h').symm)
  exact ⟨decimal_injective h h' hdigits, hrest⟩

theorem atualizadorSsi_date_iff {y m d : Nat} (hy : y < 10000) (hm : m < 100) (hd : d < 100) :
    (atualizadorSsi b 0).1 =
        decimal 2 d ++ 47 :: decimal 2 m ++ 47 :: decimal 4 y ++ [32] ↔
      b.now.year = y ∧ b.now.month = m ∧ b.now.day = d := by
  have hshows := b.now_shows
  have hday : b.now.day < 10 ^ 2 := Nat.lt_trans hshows.day_lt (by decide)
  have hmonth : b.now.month < 10 ^ 2 := Nat.lt_of_le_of_lt hshows.date.month_le (by decide)
  rw [atualizadorSsi_date]
  constructor
  · intro heq
    simp only [List.append_assoc, List.cons_append] at heq
    obtain ⟨hd', heq⟩ := decimal_append_inj hday hd heq
    obtain ⟨hm', heq⟩ := decimal_append_inj hmonth hm (List.cons_inj_right _ |>.mp heq)
    obtain ⟨hy', -⟩ := decimal_append_inj hshows.year_lt hy (List.cons_inj_right _ |>.mp heq)
    exact ⟨hy', hm', hd'⟩
  · rintro ⟨rfl, rfl, rfl⟩
    rfl

theorem atualizadorSsi_time_iff {h m : Nat} (hh : h < 100) (hm : m < 100) :
    (atualizadorSsi b 1).1 = decimal 2 h ++ 58 :: decimal 2 m ++ [32] ↔
      b.now.hour = h ∧ b.now.minute = m := by
  have hshows := b.now_shows
  have hhour : b.now.hour < 10 ^ 2 := Nat.lt_trans hshows.hour_lt (by decide)
  have hminute : b.now.minute < 10 ^ 2 := Nat.lt_trans hshows.minute_lt (by decide)
  rw [atualizadorSsi_time]
  constructor
  · intro heq
    simp only [List.append_assoc, List.cons_append] at heq
    obtain ⟨hh', heq⟩ := decimal_append_inj hhour hh heq
    obtain ⟨hm', -⟩ := decimal_append_inj hminute hm (List.cons_inj_right _ |>.mp heq)
    exact ⟨hh', hm'⟩
  · rintro ⟨rfl, rfl⟩
    rfl

end Showing

/-! ## The round trip -/

/-- The settings of the clock: a date, or a time with the colon escaped or not. -/
inductive ClockSetting
  | data (y m d : Nat)
  | horaEscaped (h m : Nat)
  | horaPlain (h m : Nat)

namespace ClockSetting

/-- The request that asks for the setting. -/
def target : ClockSetting → List UInt8
  | data y m d => requestTarget (chars "/data.cgi") (some (chars "data" ++ 61 :: dateText y m d))
  | horaEscaped h m =>
    requestTarget (chars "/hora.cgi") (some (chars "hora" ++ 61 :: timeText (chars "%3A") h m))
  | horaPlain h m =>
    requestTarget (chars "/hora.cgi") (some (chars "hora" ++ 61 :: timeText (chars ":") h m))

/-- The dates of the years that the driver is made for, and the times of a day. -/
def Valid : ClockSetting → Prop
  | data y m d => IsDate gregorian y m d ∧ 1970 ≤ y ∧ y ≤ 2099
  | horaEscaped h m | horaPlain h m => h < 24 ∧ m < 60

/-- What has been set is shown, the rest of the clock is what it was, and `MONTH_DAYS` has not
been read behind its end. -/
def Shown (s : ClockSetting) (b b' : Board) : Prop :=
  b'.outOfTable = false ∧
    match s with
    | data y m d =>
      (atualizadorSsi b' 0).1 = decimal 2 d ++ 47 :: decimal 2 m ++ 47 :: decimal 4 y ++ [32] ∧
        b'.now.hour = b.now.hour ∧ b'.now.minute = b.now.minute ∧ b'.now.second = b.now.second
    | horaEscaped h m | horaPlain h m =>
      (atualizadorSsi b' 1).1 = decimal 2 h ++ 58 :: decimal 2 m ++ [32] ∧
        b'.now.year = b.now.year ∧ b'.now.month = b.now.month ∧ b'.now.day = b.now.day ∧
          b'.now.second = b.now.second

/-- The time on the day that the clock shows does not run over the end of the counter. -/
def Fits (b : Board) (h m : Nat) : Prop :=
  b.rtc.toNat / 86400 * 86400 + h * 3600 + m * 60 + b.rtc.toNat % 60 < 4294967296

/-- The leftover bytes do not change the numbers, and the time fits. -/
def Kept (s : ClockSetting) (b : Board) : Prop :=
  match s with
  | data _ m d => withLeftover m b.leftover = m ∧ withLeftover d b.leftover = d
  | horaEscaped h m => withLeftover m b.leftover = m ∧ Fits b h m
  | horaPlain h m => m = 0 ∧ Fits b h m

end ClockSetting

section RoundTrip

variable {b b' : Board}

theorem RtcDatetime.dayIndex_withDate (t : RtcDatetime) (y m d : Nat) :
    (t.withDate y m d).dayIndex =
      365 * ((y : Int) - 1970) + ((y / 4 : Nat) - 492) + monthOffset (everyFourth y) m + d - 1 := by
  unfold RtcDatetime.dayIndex monthOffset RtcDatetime.withDate
  simp only [Bool.and_eq_true, decide_eq_true_eq, everyFourth_iff]
  omega

/-- The counter cannot wrap around by whole days: 675 divides the seconds of a day. -/
theorem day_of_mod {n n' t : Int} (h : n * 86400 + t = (n' * 86400 + t) % 4294967296)
    (hlow : -200000 < n' - n) (hhigh : n' - n < 200000) : n' = n := by
  rw [Int.emod_def] at h
  have hwrap : (n' - n) * 675 = 33554432 * ((n' * 86400 + t) / 4294967296) := by linarith
  have hdays : (33554432 : Int) ∣ n' - n :=
    Int.dvd_of_dvd_mul_left_of_gcd_one ⟨_, hwrap⟩ (by decide)
  have hnear : |n' - n| < 33554432 := abs_lt.mpr ⟨by linarith, by linarith⟩
  exact Int.eq_of_sub_eq_zero (Int.eq_zero_of_abs_lt_dvd hdays hnear)

/-- Nor by whole minutes, as few as there are. -/
theorem minute_of_mod {t s : Int} {h m m' : Nat}
    (heq : t + ((h : Int) * 3600 + m * 60 + s) = (t + h * 3600 + m' * 60 + s) % 4294967296)
    (hm : m < 60) (hm' : m' < 65536) : m' = m := by
  have hnear : |((m' : Int) - m) * 60| < 4294967296 := abs_lt.mpr ⟨by linarith, by linarith⟩
  rw [Int.emod_def] at heq
  have hwrap : ((m' : Int) - m) * 60 =
      4294967296 * ((t + h * 3600 + m' * 60 + s) / 4294967296) := by linarith
  have hzero := Int.eq_zero_of_abs_lt_dvd ⟨_, hwrap⟩ hnear
  clear heq hwrap
  omega

theorem Board.now_of_setTo {t : RtcDatetime} (hset : SetTo b b' t) (ht : t.Real)
    (hfits : t.seconds < 4294967296) : b'.now = t := by
  rw [Board.now, hset.rtc]
  exact convertSecsToDatetime_convertDatetimeToSecs ht hfits _ _

/-- What is shown is the number of seconds that the driver has computed. -/
theorem Board.seconds_of_setTo {t : RtcDatetime} (hset : SetTo b b' t) (hmonth : t.month ≤ 12) :
    (b'.now.seconds : Int) =
      (t.dayIndex * 86400 + t.hour * 3600 + t.minute * 60 + t.second) % 4294967296 := by
  rw [b'.now_shows.seconds_eq, hset.rtc, convertDatetimeToSecs_toNat hmonth]

/-- Setting a date shows it if and only if no digit is left over. -/
theorem data_shown_iff {y m d : Nat} (hdate : IsDate everyFourth y m d) (hfirst : 1970 ≤ y)
    (hlast : y ≤ 2099)
    (hset : SetTo b b' (b.now.withDate y (withLeftover m b.leftover) (withLeftover d b.leftover))) :
    (b'.outOfTable = false ∧ b'.now = b.now.withDate y m d) ↔
      withLeftover m b.leftover = m ∧ withLeftover d b.leftover = d := by
  have hshows := b.now_shows
  have hreal : (b.now.withDate y m d).Real :=
    ⟨hdate, hfirst, hshows.hour_lt, hshows.minute_lt, hshows.second_lt⟩
  constructor
  · rintro ⟨htable, hnow⟩
    have hle : withLeftover m b.leftover ≤ 12 := by
      have hrange := hset.outOfTable
      rw [htable] at hrange
      have hlt : ¬13 ≤ withLeftover m b.leftover := of_decide_eq_false hrange.symm
      omega
    have hseconds := Board.seconds_of_setTo hset hle
    have hday_le := hdate.day_le.trans (monthLength_le _ _)
    have hoffset := monthOffset_bounds (everyFourth y) (withLeftover m b.leftover)
    have hoffset' := monthOffset_bounds (everyFourth y) m
    have hlt := withLeftover_lt d b.leftover
    have hnumber := b.now.dayIndex_withDate y m d
    have hnumber' :=
      b.now.dayIndex_withDate y (withLeftover m b.leftover) (withLeftover d b.leftover)
    have hsame : (b.now.withDate y (withLeftover m b.leftover) (withLeftover d b.leftover)).dayIndex =
        (b.now.withDate y m d).dayIndex := by
      apply day_of_mod (t := b.now.hour * 3600 + b.now.minute * 60 + b.now.second)
      · rw [hnow, RtcDatetime.seconds_cast (t := b.now.withDate y m d) hfirst hdate] at hseconds
        simpa only [RtcDatetime.hour_withDate, RtcDatetime.minute_withDate,
          RtcDatetime.second_withDate, add_assoc] using hseconds
      · omega
      · omega
    apply leftover_unique (everyFourth y) ⟨hdate.month_pos, hdate.month_le⟩
      ⟨hdate.day_pos, hday_le⟩ hle
    omega
  · rintro ⟨hm, hd⟩
    rw [hm, hd] at hset
    refine ⟨?_, Board.now_of_setTo hset hreal (hreal.seconds_lt hlast)⟩
    rw [hset.outOfTable]
    exact decide_eq_false (Nat.not_le_of_lt (Nat.lt_succ_of_le hdate.month_le))

/-- Setting a time shows it if and only if the minutes are read as they are and the time
fits. -/
theorem hora_shown_iff {h m m' : Nat} (hh : h < 24) (hm : m < 60) (hlt : m' < 65536)
    (hset : SetTo b b' (b.now.withTime h m')) :
    (b'.outOfTable = false ∧ b'.now = b.now.withTime h m) ↔
      m' = m ∧ ClockSetting.Fits b h m := by
  have hshows := b.now_shows
  have hreal : (b.now.withTime h m).Real :=
    ⟨hshows.date, hshows.year_ge, hh, hm, hshows.second_lt⟩
  have hfits : (b.now.withTime h m).seconds =
      b.rtc.toNat / 86400 * 86400 + h * 3600 + m * 60 + b.rtc.toNat % 60 := by
    have hday : dayNumber everyFourth 1970 b.now.year b.now.month b.now.day - 1 =
        b.rtc.toNat / 86400 := by
      rw [hshows.day_eq, Nat.add_sub_cancel]
    have htime := hshows.time_eq
    have hsecond := hshows.second_lt
    have hlast : b.now.second = b.rtc.toNat % 60 := by omega
    simp only [RtcDatetime.seconds, RtcDatetime.withTime, hday, hlast, Nat.add_assoc]
  constructor
  · rintro ⟨-, hnow⟩
    have hrange : (b.now.withTime h m).seconds < 4294967296 := by
      rw [← hnow, b'.now_shows.seconds_eq]
      exact b'.rtc.toNat_lt
    have hcast := RtcDatetime.seconds_cast (t := b.now.withTime h m) hshows.year_ge hshows.date
    have hindex : (b.now.withTime h m').dayIndex = (b.now.withTime h m).dayIndex := rfl
    have hseconds := Board.seconds_of_setTo hset hshows.date.month_le
    rw [hnow, hcast, hindex] at hseconds
    refine ⟨minute_of_mod hseconds hm hlt, ?_⟩
    rwa [hfits] at hrange
  · rintro ⟨rfl, hfit⟩
    have hrange : (b.now.withTime h m').seconds < 4294967296 := by
      rw [hfits]
      exact hfit
    refine ⟨?_, Board.now_of_setTo hset hreal hrange⟩
    rw [hset.outOfTable]
    exact decide_eq_false (Nat.not_le_of_lt (Nat.lt_succ_of_le hshows.date.month_le))

theorem RtcDatetime.eq_withDate_iff {t t' : RtcDatetime} {y m d : Nat} :
    t' = t.withDate y m d ↔ (t'.year = y ∧ t'.month = m ∧ t'.day = d) ∧
      t'.hour = t.hour ∧ t'.minute = t.minute ∧ t'.second = t.second := by
  cases t'
  simp [RtcDatetime.withDate, and_assoc]

theorem RtcDatetime.eq_withTime_iff {t t' : RtcDatetime} {h m : Nat} :
    t' = t.withTime h m ↔ (t'.hour = h ∧ t'.minute = m) ∧
      t'.year = t.year ∧ t'.month = t.month ∧ t'.day = t.day ∧ t'.second = t.second := by
  cases t'
  simp only [RtcDatetime.withTime, RtcDatetime.mk.injEq]
  tauto

/-- A setting is shown on the board that its request leaves if and only if it is kept. -/
theorem clock_round_trip_iff (root : List FsdataFile) (ssiHandler : Nat → Nat → Insert)
    {s : ClockSetting} (hs : s.Valid) {c : Ctx Board} (hfit : c.hs.ArraysFit) :
    s.Shown c.sys.app (callCgi (boardSite root ssiHandler) s.target c).2.2.sys.app ↔
      s.Kept c.sys.app := by
  cases s with
  | data y m d =>
      obtain ⟨hdate, hfirst, hlast⟩ := hs
      have hdate' := (IsDate.congr (gregorian_eq_everyFourth (by omega) hlast)).mp hdate
      have hm : m < 100 := Nat.lt_of_le_of_lt hdate.month_le (by decide)
      have hd : d < 100 :=
        Nat.lt_of_le_of_lt (hdate.day_le.trans (monthLength_le _ _)) (by decide)
      have hset := callCgi_data root ssiHandler (dateText_isValue y m d) hfit
      rw [dataDate_dateText _ (by omega) hm hd] at hset
      simp only [ClockSetting.Shown, ClockSetting.Kept, ClockSetting.target,
        atualizadorSsi_date_iff _ (by omega : y < 10000) hm hd, ← RtcDatetime.eq_withDate_iff]
      exact data_shown_iff hdate' hfirst hlast hset
  | horaEscaped h m =>
      obtain ⟨hh, hm⟩ := hs
      have hset := callCgi_hora root ssiHandler
        (timeText_isValue IsValue.escapedColon h m) hfit
      rw [horaDate_escaped _ (by omega) (by omega)] at hset
      simp only [ClockSetting.Shown, ClockSetting.Kept, ClockSetting.target,
        atualizadorSsi_time_iff _ (by omega : h < 100) (by omega : m < 100),
        ← RtcDatetime.eq_withTime_iff]
      exact hora_shown_iff hh hm (withLeftover_lt _ _) hset
  | horaPlain h m =>
      obtain ⟨hh, hm⟩ := hs
      have hset := callCgi_hora root ssiHandler
        (timeText_isValue IsValue.colon h m) hfit
      rw [horaDate_plain _ (by omega) (by omega)] at hset
      simp only [ClockSetting.Shown, ClockSetting.Kept, ClockSetting.target,
        atualizadorSsi_time_iff _ (by omega : h < 100) (by omega : m < 100),
        ← RtcDatetime.eq_withTime_iff]
      rw [hora_shown_iff hh hm (by decide) hset, eq_comm]

theorem clock_round_trip_trial :
    (ClockSetting.data 2021 5 18).Shown (.trial 1000000 0)
      (callCgi (boardSite [] fun _ _ => Insert.empty) (ClockSetting.data 2021 5 18).target
        (.trial (.trial 1000000 0))).2.2.sys.app := by
  have hvalid : (ClockSetting.data 2021 5 18).Valid :=
    ⟨⟨by decide, by decide, by decide, by decide⟩, by decide, by decide⟩
  apply (clock_round_trip_iff [] (fun _ _ => Insert.empty) hvalid
    (c := .trial (.trial 1000000 0)) httpStateInit_arraysFit).mpr
  exact ⟨by decide, by decide⟩

/-- The minutes of a time with a plain colon are lost. -/
theorem clock_loses_minutes :
    ¬(ClockSetting.horaPlain 14 42).Shown (.trial 1000000 0)
      (callCgi trialBoardSite (ClockSetting.horaPlain 14 42).target
        (.trial (.trial 1000000 0))).2.2.sys.app := by
  intro h
  exact absurd h.2.1 (by decide +kernel)

end RoundTrip

/-! ## What is not checked -/

/-- The requests that set the clock. -/
inductive ClockCgi
  | data | hora
  deriving DecidableEq, Repr

namespace ClockCgi

/-- The request with the value `v`. -/
def target (v : List UInt8) : ClockCgi → List UInt8
  | data => requestTarget (chars "/data.cgi") (some (chars "data" ++ 61 :: v))
  | hora => requestTarget (chars "/hora.cgi") (some (chars "hora" ++ 61 :: v))

/-- The value is a date of the years that the driver is made for, or a time of a day with the
colon escaped or not. -/
def ValidValue (v : List UInt8) : ClockCgi → Prop
  | data => ∃ y m d, v = dateText y m d ∧ IsDate gregorian y m d ∧ 1970 ≤ y ∧ y ≤ 2099
  | hora => ∃ colon ∈ [chars ":", chars "%3A", chars "%3a"],
      ∃ h m, v = timeText colon h m ∧ h < 24 ∧ m < 60

/-- The driver has been given a date and time in the correct format, and for a value that is
not valid the clock goes on as it was. -/
def SetsRealTime (k : ClockCgi) (v : List UInt8) (b b' : Board) : Prop :=
  isDatetimeCorrectFormat b'.date ∧ (¬k.ValidValue v → b'.rtc = b.rtc)

/-- The numbers at the fixed positions of the value make up a date or a time that the driver
accepts, and if the value is not valid they are those that the clock shows. -/
def NumbersFit (v : List UInt8) (b : Board) : ClockCgi → Prop
  | data =>
    IsDate gregorian (toU16 (atoi v)) (b.fieldAt v 5) (b.fieldAt v 8) ∧
      1970 ≤ toU16 (atoi v) ∧ toU16 (atoi v) ≤ 2099 ∧
      (data.ValidValue v ∨
        (toU16 (atoi v) = b.now.year ∧ b.fieldAt v 5 = b.now.month ∧ b.fieldAt v 8 = b.now.day))
  | hora =>
    toU16 (atoi v) < 24 ∧ b.fieldAt v 5 < 60 ∧ b.now.year ≤ 2099 ∧
      (hora.ValidValue v ∨ (toU16 (atoi v) = b.now.hour ∧ b.fieldAt v 5 = b.now.minute))

end ClockCgi

section Checking

variable {b b' : Board} {t : RtcDatetime}

/-- The clock goes on as it was if and only if it is set to what it shows. -/
theorem rtc_unchanged_iff (hset : SetTo b b' t) (ht : t.Real) (hlast : t.year ≤ 2099) :
    b'.rtc = b.rtc ↔ t = b.now := by
  constructor
  · intro hrtc
    have hshows' := b'.now_shows
    rw [Board.now_of_setTo hset ht (ht.seconds_lt hlast), hrtc] at hshows'
    exact hshows'.unique b.now_shows
  · rintro rfl
    rw [hset.rtc, Board.now, convertDatetimeToSecs_convertSecsToDatetime]

theorem setsRealTime_iff (hset : SetTo b b' t) (valid : Prop) :
    (isDatetimeCorrectFormat b'.date = true ∧ (¬valid → b'.rtc = b.rtc)) ↔
      t.Real ∧ t.year ≤ 2099 ∧ (valid ∨ t = b.now) := by
  rw [hset.date, isDatetimeCorrectFormat_iff]
  constructor
  · rintro ⟨⟨hreal, hlast⟩, hkept⟩
    refine ⟨hreal, hlast, ?_⟩
    by_cases hvalid : valid
    · exact Or.inl hvalid
    · exact Or.inr ((rtc_unchanged_iff hset hreal hlast).mp (hkept hvalid))
  · rintro ⟨hreal, hlast, hor⟩
    refine ⟨⟨hreal, hlast⟩, fun hvalid => ?_⟩
    exact (rtc_unchanged_iff hset hreal hlast).mpr (hor.resolve_left hvalid)

theorem real_withDate_iff {y m d : Nat} :
    ((b.now.withDate y m d).Real ∧ y ≤ 2099) ↔
      IsDate gregorian y m d ∧ 1970 ≤ y ∧ y ≤ 2099 := by
  have hshows := b.now_shows
  constructor
  · rintro ⟨hreal, hlast⟩
    have hfirst : 1970 ≤ y := hreal.year_ge
    have hleap := gregorian_eq_everyFourth (by omega) hlast
    exact ⟨(IsDate.congr hleap).mpr hreal.date, hfirst, hlast⟩
  · rintro ⟨hdate, hfirst, hlast⟩
    have hleap := gregorian_eq_everyFourth (by omega) hlast
    exact ⟨⟨(IsDate.congr hleap).mp hdate, hfirst, hshows.hour_lt, hshows.minute_lt,
      hshows.second_lt⟩, hlast⟩

theorem real_withTime_iff {h m : Nat} : (b.now.withTime h m).Real ↔ h < 24 ∧ m < 60 := by
  have hshows := b.now_shows
  constructor
  · exact fun hreal => ⟨hreal.hour_lt, hreal.minute_lt⟩
  · rintro ⟨hh, hm⟩
    exact ⟨hshows.date, hshows.year_ge, hh, hm, hshows.second_lt⟩

/-- The clock is only set to a real time if and only if the numbers in the value fit. -/
theorem clock_set_real_iff (root : List FsdataFile) (ssiHandler : Nat → Nat → Insert)
    (k : ClockCgi) {v : List UInt8} (hv : IsValue v) {c : Ctx Board} (hfit : c.hs.ArraysFit) :
    k.SetsRealTime v c.sys.app
        (callCgi (boardSite root ssiHandler) (k.target v) c).2.2.sys.app ↔
      k.NumbersFit v c.sys.app := by
  cases k with
  | data =>
      have hset := callCgi_data root ssiHandler hv hfit
      rw [Board.dataDate, atoiField_copied _ hv.1] at hset
      rw [ClockCgi.SetsRealTime, ClockCgi.target, setsRealTime_iff hset, ← and_assoc]
      change ((_ ∧ toU16 (atoi v) ≤ 2099) ∧ _) ↔ _
      rw [real_withDate_iff, eq_comm (b := c.sys.app.now), RtcDatetime.eq_withDate_iff]
      simp only [ClockCgi.NumbersFit, and_assoc, and_true, eq_comm]
  | hora =>
      have hset := callCgi_hora root ssiHandler hv hfit
      rw [Board.horaDate, atoiField_copied _ hv.1] at hset
      rw [ClockCgi.SetsRealTime, ClockCgi.target, setsRealTime_iff hset, real_withTime_iff,
        eq_comm (b := c.sys.app.now), RtcDatetime.eq_withTime_iff]
      simp only [ClockCgi.NumbersFit, RtcDatetime.year_withTime, and_assoc, and_true, eq_comm]

theorem clock_set_real_trial :
    ClockCgi.data.SetsRealTime (dateText 2021 5 18) (.trial 1000000 0)
      (callCgi (boardSite [] fun _ _ => Insert.empty)
        (ClockCgi.data.target (dateText 2021 5 18)) (.trial (.trial 1000000 0))).2.2.sys.app := by
  apply (clock_set_real_iff [] (fun _ _ => Insert.empty) .data (dateText_isValue 2021 5 18)
    (c := .trial (.trial 1000000 0)) httpStateInit_arraysFit).mpr
  refine ⟨⟨by decide +kernel, by decide +kernel, by decide +kernel, by decide +kernel⟩,
    by decide +kernel, by decide +kernel, Or.inl ⟨2021, 5, 18, rfl, ?_⟩⟩
  exact ⟨⟨by decide, by decide, by decide, by decide⟩, by decide, by decide⟩

/-- The thirteenth month is handed to the driver. -/
theorem clock_set_unchecked :
    ¬ClockCgi.data.SetsRealTime (chars "2021-13-40") (.trial 1000000 0)
      (callCgi trialBoardSite (ClockCgi.data.target (chars "2021-13-40"))
        (.trial (.trial 1000000 0))).2.2.sys.app := by
  intro h
  exact absurd h.1 (by decide +kernel)

end Checking

end Meu1oARM
