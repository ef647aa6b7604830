import Mathlib.Data.Int.ModEq
import Meu1oARM.Board.Relays

/-! # Setting and showing the clock

`/data.cgi` and `/hora.cgi` take numbers from fixed positions of the value and set the
clock to them; `tag1` and `tag2` print the date and the time. The two characters of a
month, a day or a minute are read in a buffer that nothing terminates.
-/

namespace Meu1oARM

open Machine CString Calendar

/-- What the clock shows. -/
def Board.now (b : Board) : RtcDatetime := convertSecsToDatetime b.rtc b.date

/-- The number that `atoi` makes of the digits of `n` with the bytes `rest` behind them, as it
arrives in a field of the date. -/
def withLeftover (n : Nat) (rest : List UInt8) : Nat := toU16 (clampInt (readDigits n rest : Nat))

/-- What the second block holds behind the two characters that are copied into it. -/
def Board.leftover (b : Board) : List UInt8 := (b.heap (b.mallocs + 1)).bytes.drop 2

/-- The value as `strcpy` leaves it in the first block. -/
def Board.copied (b : Board) (v : List UInt8) : List UInt8 :=
  strcpy (b.heap b.mallocs).bytes v

/-- The number read from two characters of the value. -/
def Board.fieldAt (b : Board) (v : List UInt8) (i : Nat) : Nat :=
  atoiField ((b.copied v).getD i 0 :: (b.copied v).getD (i + 1) 0 :: b.leftover)

section Calls

variable (b : Board) (n : Nat) (args : CgiArgs)

theorem copyTwo_eq (text : List UInt8) {tmp : List UInt8} (h : 2 ≤ tmp.length) (i : Nat) :
    copyTwo text tmp i = text.getD i 0 :: text.getD (i + 1) 0 :: tmp.drop 2 := by
  match tmp, h with
  | _ :: _ :: _, _ => rfl

theorem copyTwo_copyTwo (text : List UInt8) {tmp : List UInt8} (h : 2 ≤ tmp.length) (i j : Nat) :
    copyTwo text (copyTwo text tmp i) j = copyTwo text tmp j := by
  match tmp, h with
  | _ :: _ :: _, _ => rfl

def RtcDatetime.withDate (t : RtcDatetime) (y m d : Nat) : RtcDatetime :=
  { t with year := y, month := m, day := d }

def RtcDatetime.withTime (t : RtcDatetime) (h m : Nat) : RtcDatetime :=
  { t with hour := h, minute := m }

section Fields

variable (t : RtcDatetime) (x y z : Nat)

@[simp] theorem RtcDatetime.hour_withDate : (t.withDate x y z).hour = t.hour := rfl

@[simp] theorem RtcDatetime.minute_withDate : (t.withDate x y z).minute = t.minute := rfl

@[simp] theorem RtcDatetime.second_withDate : (t.withDate x y z).second = t.second := rfl

@[simp] theorem RtcDatetime.year_withTime : (t.withTime x y).year = t.year := rfl

@[simp] theorem RtcDatetime.month_withTime : (t.withTime x y).month = t.month := rfl

@[simp] theorem RtcDatetime.day_withTime : (t.withTime x y).day = t.day := rfl

@[simp] theorem RtcDatetime.second_withTime : (t.withTime x y).second = t.second := rfl

end Fields

/-- The date that `/data.cgi` sets. -/
def Board.dataDate (b : Board) (v : List UInt8) : RtcDatetime :=
  b.now.withDate (atoiField (b.copied v)) (b.fieldAt v 5) (b.fieldAt v 8)

/-- The time that `/hora.cgi` sets. -/
def Board.horaDate (b : Board) (v : List UInt8) : RtcDatetime :=
  b.now.withTime (atoiField (b.copied v)) (b.fieldAt v 5)

/-- The board after the clock has been set to `d`. -/
structure SetTo (b b' : Board) (d : RtcDatetime) : Prop where
  date : b'.date = d
  rtc : b'.rtc = convertDatetimeToSecs b.stray d
  outOfTable : b'.outOfTable = decide (13 ≤ d.month)

theorem setDatetime_setTo (b₀ : Board) (hstray : b₀.stray = b.stray)
    (hrange : b₀.outOfTable = false) : SetTo b b₀.setDatetime.flagCgi b₀.date := by
  constructor
  · rw [Board.flagCgi, Board.setDatetime]
  · rw [Board.flagCgi, Board.setDatetime, hstray]
  · rw [Board.flagCgi, Board.setDatetime, hrange, Bool.false_or]
    rfl

/-- The fields that the clock is set from are those of `b`. -/
structure SameClock (b b' : Board) : Prop where
  date : b'.date = b.date
  stray : b'.stray = b.stray
  outOfTable : b'.outOfTable = b.outOfTable

theorem SameClock.trans {b₁ b₂ b₃ : Board} (h : SameClock b₁ b₂) (h' : SameClock b₂ b₃) :
    SameClock b₁ b₃ :=
  ⟨h'.date.trans h.date, h'.stray.trans h.stray, h'.outOfTable.trans h.outOfTable⟩

theorem sameClock_use (b : Board) (u : StringUse) : SameClock b (b.use u) := ⟨rfl, rfl, rfl⟩

theorem sameClock_compareRele (value : StringUse) (l : List (List UInt8 × Relay)) (b : Board) :
    SameClock b (Board.compareRele value l b) := by
  induction l generalizing b with
  | nil => exact ⟨rfl, rfl, rfl⟩
  | cons entry rest ih =>
      rw [Board.compareRele]
      split
      · exact ⟨rfl, rfl, rfl⟩
      · exact (sameClock_use b value).trans (ih _)

/-- A relay is switched without a look at the clock. -/
theorem sameClock_releParams (b : Board) (k : Nat) :
    SameClock b ((List.range k).foldl (Board.releParam n args) b) := by
  induction k with
  | zero => exact ⟨rfl, rfl, rfl⟩
  | succ k ih =>
      rw [List.range_succ, List.foldl_append, List.foldl_cons, List.foldl_nil]
      apply ih.trans
      rw [releParam_eq]
      split
      · exact (sameClock_use _ _).trans (sameClock_compareRele _ _ _)
      · exact sameClock_use _ _

theorem processaCgi_rele_setTo : SetTo b (processaCgi b 0 n args).1 b.now := by
  have hsame := sameClock_releParams n args b.startCall.getDatetime.relaysOff n
  have hset := setDatetime_setTo b (b.startCall.getDatetime.releCgi n args)
    hsame.stray hsame.outOfTable
  have hdate : (b.startCall.getDatetime.releCgi n args).date = b.now := hsame.date
  rwa [hdate] at hset

/-- A relay request leaves the clock alone: what is written back is what was read. -/
theorem relay_request_keeps_clock (b : Board) (iNumParams : Nat) (args : CgiArgs) :
    (processaCgi b 0 iNumParams args).1.rtc = b.rtc ∧
      ∀ (seconds : UInt32) (datetime : RtcDatetime) (stray : Nat → Nat),
        convertDatetimeToSecs stray (convertSecsToDatetime seconds datetime) = seconds := by
  refine ⟨?_, convertDatetimeToSecs_convertSecsToDatetime⟩
  rw [(processaCgi_rele_setTo b iNumParams args).rtc]
  exact convertDatetimeToSecs_convertSecsToDatetime b.rtc b.date b.stray

theorem processaCgi_data :
    SetTo b (processaCgi b 1 n args).1 (b.dataDate (b.string (valueUse n args 0))) := by
  have htmp : 2 ≤ (b.heap (b.mallocs + 1)).bytes.length :=
    Nat.le_trans (by decide) (b.heap (b.mallocs + 1)).size_le
  have hdate : (b.startCall.getDatetime.dataCgi n args).date =
      b.dataDate (b.string (valueUse n args 0)) := by
    change b.now.withDate (atoiField (b.copied (b.string (valueUse n args 0))))
      (atoiField
        (copyTwo (b.copied (b.string (valueUse n args 0))) (b.heap (b.mallocs + 1)).bytes 5))
      (atoiField (copyTwo (b.copied (b.string (valueUse n args 0)))
        (copyTwo (b.copied (b.string (valueUse n args 0))) (b.heap (b.mallocs + 1)).bytes 5) 8)) =
      _
    rw [copyTwo_copyTwo _ htmp, copyTwo_eq _ htmp, copyTwo_eq _ htmp]
    rfl
  have hset := setDatetime_setTo b (b.startCall.getDatetime.dataCgi n args) rfl rfl
  rwa [hdate] at hset

theorem processaCgi_hora :
    SetTo b (processaCgi b 2 n args).1 (b.horaDate (b.string (valueUse n args 0))) := by
  have htmp : 2 ≤ (b.heap (b.mallocs + 1)).bytes.length :=
    Nat.le_trans (by decide) (b.heap (b.mallocs + 1)).size_le
  have hdate : (b.startCall.getDatetime.horaCgi n args).date =
      b.horaDate (b.string (valueUse n args 0)) := by
    change b.now.withTime (atoiField (b.copied (b.string (valueUse n args 0))))
      (atoiField (copyTwo (b.copied (b.string (valueUse n args 0)))
        (b.heap (b.mallocs + 1)).bytes 5)) = _
    rw [copyTwo_eq _ htmp]
    rfl
  have hset := setDatetime_setTo b (b.startCall.getDatetime.horaCgi n args) rfl rfl
  rwa [hdate] at hset

/-- A value as it can stand in a query. -/
def IsValue (v : List UInt8) : Prop := 0 ∉ v ∧ 32 ∉ v ∧ 38 ∉ v

/-- The handler for a query of one parameter finds its value. -/
theorem string_of_query {name v : List UInt8} (hname : IsValue name) (hequals : 61 ∉ name)
    (hv : IsValue v) {hs : HttpState} (hfit : hs.ArraysFit) :
    b.string (valueUse (extractUriParameters (some (name ++ 61 :: v)) hs).1
      (extractUriParameters (some (name ++ 61 :: v)) hs).2 0) = v := by
  have hquery : IsQuery (name ++ 61 :: v) := by
    constructor
    · simp [hname.1, hv.1]
    · simp [hname.2.1, hv.2.1]
  have hpieces : paramPieces (some (name ++ 61 :: v)) = [name ++ 61 :: v] := by
    have hamp : 38 ∉ name ++ 61 :: v := by simp [hname.2.2, hv.2.2]
    cases name with
    | nil => exact List.splitOn_eq_singleton hamp
    | cons b name => exact List.splitOn_eq_singleton hamp
  have hvalue : paramValue (name ++ 61 :: v) = some v := by
    have hdrop : (name ++ 61 :: v).dropWhile (· ≠ 61) = 61 :: v := by
      rw [List.dropWhile_append_of_pos]
      · simp
      · intro b hb
        have hne : b ≠ 61 := fun heq => hequals (heq ▸ hb)
        simpa using hne
    simp only [paramValue, hdrop]
    simp
  obtain ⟨-, hholds⟩ := extractUriParameters_spec hquery.of_some hfit
  exact Board.string_valueUse b (hholds 0 _ (by rw [hpieces]; rfl) (by decide)) hvalue _

theorem IsValue.data : IsValue (chars "data") ∧ 61 ∉ chars "data" :=
  ⟨⟨by decide, by decide, by decide⟩, by decide⟩

theorem IsValue.hora : IsValue (chars "hora") ∧ 61 ∉ chars "hora" :=
  ⟨⟨by decide, by decide, by decide⟩, by decide⟩

variable (root : List FsdataFile) (ssiHandler : Nat → Nat → Insert)

/-- The date that a request for `/data.cgi` sets. -/
theorem callCgi_data {v : List UInt8} (hv : IsValue v) {c : Ctx Board} (hfit : c.hs.ArraysFit) :
    SetTo c.sys.app
      (callCgi (boardSite root ssiHandler)
        (requestTarget (chars "/data.cgi") (some (chars "data" ++ 61 :: v))) c).2.2.sys.app
      (c.sys.app.dataDate v) := by
  have hset := processaCgi_data c.sys.app
    (extractUriParameters (some (chars "data" ++ 61 :: v)) c.hs).1
    (extractUriParameters (some (chars "data" ++ 61 :: v)) c.hs).2
  rw [string_of_query _ IsValue.data.1 IsValue.data.2 hv hfit] at hset
  rwa [callCgi_app root ssiHandler (i := 1) rfl]

/-- The time that a request for `/hora.cgi` sets. -/
theorem callCgi_hora {v : List UInt8} (hv : IsValue v) {c : Ctx Board} (hfit : c.hs.ArraysFit) :
    SetTo c.sys.app
      (callCgi (boardSite root ssiHandler)
        (requestTarget (chars "/hora.cgi") (some (chars "hora" ++ 61 :: v))) c).2.2.sys.app
      (c.sys.app.horaDate v) := by
  have hset := processaCgi_hora c.sys.app
    (extractUriParameters (some (chars "hora" ++ 61 :: v)) c.hs).1
    (extractUriParameters (some (chars "hora" ++ 61 :: v)) c.hs).2
  rw [string_of_query _ IsValue.hora.1 IsValue.hora.2 hv hfit] at hset
  rwa [callCgi_app root ssiHandler (i := 2) rfl]

end Calls

/-! ## Reading the numbers -/

/-- `YYYY-MM-DD` -/
def dateText (y m d : Nat) : List UInt8 :=
  decimal 4 y ++ 45 :: (decimal 2 m ++ 45 :: decimal 2 d)

/-- `HH:MM`, with the colon as it is written in the URI. -/
def timeText (colon : List UInt8) (h m : Nat) : List UInt8 := decimal 2 h ++ (colon ++ decimal 2 m)

section Reading

variable (b : Board)

theorem copied_eq {v : List UInt8} (h : 0 ∉ v) :
    b.copied v = v ++ 0 :: (b.heap b.mallocs).bytes.drop (v.length + 1) := by
  rw [Board.copied, strcpy, cstr_eq_self h]

theorem atoiField_copied {v : List UInt8} (h : 0 ∉ v) : atoiField (b.copied v) = toU16 (atoi v) := by
  rw [atoiField, copied_eq b h, cstr_terminated h]

theorem atoiField_decimal {w n : Nat} (hw : 0 < w) (h : n < 10 ^ w) (rest : List UInt8) :
    atoiField (decimal w n ++ rest) = withLeftover n rest := by
  have hzero : 0 ∉ decimal w n := notMem_decimal (by decide)
  rw [atoiField, cstr_append hzero, atoi_decimal hw h, readDigits_cstr]
  rfl

/-- A number that no digit follows is read as it is. -/
theorem withLeftover_stop {n : Nat} (h : n < 65536) {rest : List UInt8}
    (hrest : ∀ x ∈ rest.head?, isDigit x = false) : withLeftover n rest = n := by
  have hread : readDigits n rest = n := by
    cases rest with
    | nil => rfl
    | cons x rest => exact readDigits_stop (hrest x rfl) _ _
  rw [withLeftover, hread, clampInt_of_lt (by omega), toU16_natCast, u16_of_lt h]

/-- Two digits of the value are read together with what the buffer holds behind them. -/
theorem fieldAt_decimal {v rest : List UInt8} {n i : Nat} (before : List UInt8) (hn : n < 100)
    (hcopied : b.copied v = before ++ (decimal 2 n ++ rest)) (hi : before.length = i) :
    b.fieldAt v i = withLeftover n b.leftover := by
  have hlength : (decimal 2 n).length = 2 := length_decimal hn
  obtain ⟨x, y, hdigits⟩ := List.length_eq_two.mp hlength
  have hx : (b.copied v).getD i 0 = x := by
    rw [hcopied, hdigits, ← hi]
    simp [List.getD_eq_getElem?_getD]
  have hy : (b.copied v).getD (i + 1) 0 = y := by
    rw [hcopied, hdigits, ← hi]
    simp [List.getD_eq_getElem?_getD]
  have hlist : x :: y :: b.leftover = decimal 2 n ++ b.leftover := by
    rw [hdigits]
    rfl
  rw [Board.fieldAt, hx, hy, hlist, atoiField_decimal (by decide) hn]

theorem dateText_isValue (y m d : Nat) : IsValue (dateText y m d) := by
  have hnot : ∀ x : UInt8, isDigit x = false → x ≠ 45 → x ∉ dateText y m d := by
    intro x hx hne
    simp [dateText, notMem_decimal hx, hne]
  exact ⟨hnot 0 (by decide) (by decide), hnot 32 (by decide) (by decide),
    hnot 38 (by decide) (by decide)⟩

theorem IsValue.colon : IsValue (chars ":") := ⟨by decide, by decide, by decide⟩

theorem IsValue.escapedColon : IsValue (chars "%3A") := ⟨by decide, by decide, by decide⟩

theorem timeText_isValue {colon : List UInt8} (hcolon : IsValue colon) (h m : Nat) :
    IsValue (timeText colon h m) := by
  have hnot : ∀ x : UInt8, isDigit x = false → x ∉ colon → x ∉ timeText colon h m := by
    intro x hx hne
    simp [timeText, notMem_decimal hx, hne]
  exact ⟨hnot 0 (by decide) hcolon.1, hnot 32 (by decide) hcolon.2.1,
    hnot 38 (by decide) hcolon.2.2⟩

theorem dataDate_dateText {y m d : Nat} (hy : y < 10000) (hm : m < 100) (hd : d < 100) :
    b.dataDate (dateText y m d) =
      b.now.withDate y (withLeftover m b.leftover) (withLeftover d b.leftover) := by
  have hzero := (dateText_isValue y m d).1
  have hlength : (decimal 4 y).length = 4 := length_decimal hy
  have hlength' : (decimal 2 m).length = 2 := length_decimal hm
  have hyear : atoiField (b.copied (dateText y m d)) = y := by
    rw [copied_eq b hzero, dateText, List.append_assoc, atoiField_decimal (by decide) hy]
    apply withLeftover_stop (by omega)
    rintro x hx
    obtain rfl : 45 = x := by simpa using hx
    decide
  have hmonth : b.fieldAt (dateText y m d) 5 = withLeftover m b.leftover := by
    apply fieldAt_decimal b (decimal 4 y ++ [45]) hm
    · rw [copied_eq b hzero, dateText]
      simp
      rfl
    · simp [hlength]
  have hday : b.fieldAt (dateText y m d) 8 = withLeftover d b.leftover := by
    apply fieldAt_decimal b (decimal 4 y ++ 45 :: (decimal 2 m ++ [45])) hd
    · rw [copied_eq b hzero, dateText]
      simp
      rfl
    · simp [hlength, hlength']
  rw [Board.dataDate, hyear, hmonth, hday]

theorem atoiField_timeText {colon : List UInt8} {h m : Nat} (hzero : 0 ∉ timeText colon h m)
    (hh : h < 100) (hcolon : ∃ x t, colon = x :: t ∧ isDigit x = false) :
    atoiField (b.copied (timeText colon h m)) = h := by
  obtain ⟨x, t, rfl, hx⟩ := hcolon
  rw [copied_eq b hzero, timeText, List.append_assoc, atoiField_decimal (by decide) hh]
  apply withLeftover_stop (by omega)
  rintro y hy
  obtain rfl : x = y := by simpa using hy
  exact hx

theorem horaDate_escaped {h m : Nat} (hh : h < 100) (hm : m < 100) :
    b.horaDate (timeText (chars "%3A") h m) =
      b.now.withTime h (withLeftover m b.leftover) := by
  have hzero : 0 ∉ timeText (chars "%3A") h m :=
    (timeText_isValue IsValue.escapedColon h m).1
  have hlength : (decimal 2 h).length = 2 := length_decimal hh
  have hminute : b.fieldAt (timeText (chars "%3A") h m) 5 = withLeftover m b.leftover := by
    apply fieldAt_decimal b (decimal 2 h ++ chars "%3A") hm
    · rw [copied_eq b hzero, timeText]
      simp
      rfl
    · rw [List.length_append, hlength]
      decide
  rw [Board.horaDate, atoiField_timeText b hzero hh ⟨37, _, rfl, by decide⟩, hminute]

/-- Without an escape the minutes are one byte further to the front, and the terminator is
read in their place. -/
theorem horaDate_plain {h m : Nat} (hh : h < 100) (hm : m < 100) :
    b.horaDate (timeText (chars ":") h m) = b.now.withTime h 0 := by
  have hzero : 0 ∉ timeText (chars ":") h m :=
    (timeText_isValue IsValue.colon h m).1
  have hlength : (timeText (chars ":") h m).length = 5 := by
    have hh' : (decimal 2 h).length = 2 := length_decimal hh
    have hm' : (decimal 2 m).length = 2 := length_decimal hm
    rw [timeText, List.length_append, List.length_append, hh', hm']
    decide
  have hend : (b.copied (timeText (chars ":") h m)).getD 5 0 = 0 := by
    rw [copied_eq b hzero, ← hlength]
    simp [List.getD_eq_getElem?_getD]
  have hminute : b.fieldAt (timeText (chars ":") h m) 5 = 0 := by
    rw [Board.fieldAt, hend]
    rfl
  rw [Board.horaDate, atoiField_timeText b hzero hh ⟨58, _, rfl, by decide⟩, hminute]

end Reading

section Leftover

/-- The days of the year in front of a month, as the driver counts them: the leap day is in
front of every month, and taken away again up to February. -/
def monthOffset (leap : Bool) (m : Nat) : Int :=
  (monthDays.getD m 0 : Int) - if leap && m ≤ 2 then 1 else 0

/-- The inverses of `10 ^ k - 1` modulo 2 ^ 16, which is odd. -/
def inverses : List Int := [0, 36409, 33099, 24535, 59375, 5471, 44479, 10623, 7935, 13823]

theorem inverses_spec :
    ∀ k ∈ List.range' 1 9, inverses.getD k 0 * (10 ^ k - 1) % 65536 = 1 := by
  decide +kernel

/-- Two months with `k` digits behind them put no day of a month on the same day of the year. -/
theorem months_apart :
    ∀ leap ∈ [false, true], ∀ k ∈ List.range' 2 8, ∀ m ∈ List.range' 1 12, ∀ m' ∈ List.range 13,
      m' ≠ m →
        31 < (inverses.getD k 0 * (monthOffset leap m - monthOffset leap m' + m * 10 ^ k - m')) %
          65536 ∨
        (inverses.getD k 0 * (monthOffset leap m - monthOffset leap m' + m * 10 ^ k - m')) %
          65536 = 0 := by
  decide +kernel

theorem withLeftover_eq (n : Nat) (rest : List UInt8) :
    withLeftover n rest =
      if n * 10 ^ (rest.takeWhile isDigit).length + readDigits 0 rest < 2147483648 then
        (n * 10 ^ (rest.takeWhile isDigit).length + readDigits 0 rest) % 65536
      else 65535 := by
  rw [withLeftover, readDigits_eq]
  split
  next hlt => rw [clampInt_of_lt hlt, toU16_natCast, u16]
  next hge =>
    rw [clampInt_of_le (Nat.le_of_not_lt hge)]
    rfl

theorem withLeftover_lt (n : Nat) (rest : List UInt8) : withLeftover n rest < 65536 := by
  rw [withLeftover_eq]
  split
  · exact Nat.mod_lt _ (by decide)
  · decide

theorem monthOffset_bounds (leap : Bool) (m : Nat) :
    -1 ≤ monthOffset leap m ∧ monthOffset leap m ≤ 334 := by
  have htable : monthDays.getD m 0 ≤ 334 := by
    by_cases hm : m < 13
    · interval_cases m <;> decide
    · rw [List.getD_eq_getElem?_getD, List.getElem?_eq_none (Nat.le_of_not_lt hm)]
      decide
  unfold monthOffset
  split <;> omega

/-- Two digits or more behind a month and a day cannot leave the day of the year alone and
change the month. -/
theorem month_unchanged {leap : Bool} {k r m d m' d' : Nat} (hk : 2 ≤ k) (hk' : k ≤ 9)
    (hm : 1 ≤ m ∧ m ≤ 12) (hd : 1 ≤ d ∧ d ≤ 31) (hmonth : m' = (m * 10 ^ k + r) % 65536)
    (hday : d' = (d * 10 ^ k + r) % 65536) (hle : m' ≤ 12)
    (heq : monthOffset leap m' + d' = monthOffset leap m + d) : m' = m := by
  by_contra hne
  have hapart := months_apart leap (by cases leap <;> simp) k (by simp; omega) m (by simp; omega)
    m' (by simp; omega) hne
  have hinverse : inverses.getD k 0 * (10 ^ k - 1) ≡ 1 [ZMOD 65536] :=
    inverses_spec k (by simp; omega)
  generalize hx : monthOffset leap m - monthOffset leap m' + m * 10 ^ k - m' = x at hapart
  -- the leftover digits cancel in the difference of day and month
  have hdiff : (d' : Int) - m' ≡ d * 10 ^ k - m * 10 ^ k [ZMOD 65536] := by
    have hm' : (m' : Int) ≡ m * 10 ^ k + r [ZMOD 65536] := by
      rw [hmonth]
      push_cast
      exact Int.mod_modEq _ _
    have hd' : (d' : Int) ≡ d * 10 ^ k + r [ZMOD 65536] := by
      rw [hday]
      push_cast
      exact Int.mod_modEq _ _
    have hsub := hd'.sub hm'
    rwa [add_sub_add_right_eq_sub] at hsub
  have hproduct : x ≡ d * (10 ^ k - 1) [ZMOD 65536] := by
    have hsub := hdiff.add (Int.ModEq.refl ((m : Int) * 10 ^ k - d))
    have hleft : (d' : Int) - m' + (m * 10 ^ k - d) = x := by
      rw [← hx]
      linarith
    have hright : (d : Int) * 10 ^ k - m * 10 ^ k + (m * 10 ^ k - d) = d * (10 ^ k - 1) := by
      ring
    rwa [hleft, hright] at hsub
  -- the factor is odd, and the table holds its inverse
  have hsolved : inverses.getD k 0 * x ≡ d [ZMOD 65536] := by
    calc
      inverses.getD k 0 * x ≡ inverses.getD k 0 * (d * (10 ^ k - 1)) [ZMOD 65536] :=
        hproduct.mul_left _
      _ = d * (inverses.getD k 0 * (10 ^ k - 1)) := by ring
      _ ≡ d * 1 [ZMOD 65536] := Int.ModEq.mul_left _ hinverse
      _ = d := mul_one _
  have hvalue : inverses.getD k 0 * x % 65536 = d := by
    rw [hsolved]
    omega
  omega

/-- Leftover digits that leave the day of the year alone leave month and day alone. -/
theorem leftover_unique (leap : Bool) {m d : Nat} {rest : List UInt8} (hm : 1 ≤ m ∧ m ≤ 12)
    (hd : 1 ≤ d ∧ d ≤ 31) (hle : withLeftover m rest ≤ 12)
    (heq : monthOffset leap (withLeftover m rest) + withLeftover d rest =
      monthOffset leap m + d) :
    withLeftover m rest = m ∧ withLeftover d rest = d := by
  suffices hmonth : withLeftover m rest = m by
    rw [hmonth] at heq
    exact ⟨hmonth, by omega⟩
  have hlt := readDigits_zero_lt rest
  have hmonth := withLeftover_eq m rest
  have hday := withLeftover_eq d rest
  generalize (rest.takeWhile isDigit).length = k at hlt hmonth hday
  generalize readDigits 0 rest = r at hlt hmonth hday
  have hoffset := monthOffset_bounds leap (withLeftover m rest)
  have hoffset' := monthOffset_bounds leap m
  have hfits : m * 10 ^ k + r < 2147483648 := by
    by_contra hge
    rw [if_neg hge] at hmonth
    omega
  have hfits' : d * 10 ^ k + r < 2147483648 := by
    by_contra hge
    rw [if_neg hge] at hday
    omega
  rw [if_pos hfits] at hmonth
  rw [if_pos hfits'] at hday
  have hk : k ≤ 9 := by
    by_contra hgt
    have hpow : 10 ^ 10 ≤ 10 ^ k := Nat.pow_le_pow_right (by decide) (by omega)
    have hmul := Nat.mul_le_mul_right (10 ^ k) hm.1
    omega
  match k, hlt, hk with
  | 0, hlt, _ => omega
  | 1, hlt, _ =>
      -- one digit leaves October to December only, and those are too late in the year
      rw [pow_one] at hlt hmonth hday
      rw [Nat.mod_eq_of_lt (by omega)] at hmonth hday
      have hm' : m = 1 := by omega
      have hlate : 273 ≤ monthDays.getD (withLeftover m rest) 0 := by
        have hrange : withLeftover m rest = 10 ∨ withLeftover m rest = 11 ∨
            withLeftover m rest = 12 := by omega
        rcases hrange with h | h | h <;> rw [h] <;> decide
      have hfirst : monthOffset leap m ≤ 0 := by
        rw [hm']
        cases leap <;> decide
      have hstart : (273 : Int) - 1 ≤ monthOffset leap (withLeftover m rest) := by
        unfold monthOffset
        split <;> omega
      omega
  | k + 2, _, hk => exact month_unchanged (by omega) hk hm hd hmonth hday hle heq

end Leftover

end Meu1oARM
