import Mathlib.Order.Monotone.Basic
import Mathlib.Tactic.Common

/-! # Calendars with leap years

A calendar is given by its leap years. Days are counted from the first day of a
start year, which has the number one. Two days with one number are the same day.
-/

namespace Calendar

/-- The rule of the Gregorian calendar. -/
def gregorian (y : Nat) : Bool := y % 4 == 0 && (y % 100 != 0 || y % 400 == 0)

/-- Every fourth year is a leap year. -/
def everyFourth (y : Nat) : Bool := y % 4 == 0

section Counting

variable (leap : Nat → Bool)

def monthLength (y m : Nat) : Nat :=
  match m with
  | 2 => if leap y then 29 else 28
  | 1 | 3 | 5 | 7 | 8 | 10 | 12 => 31
  | 4 | 6 | 9 | 11 => 30
  | _ => 0

def yearLength (y : Nat) : Nat := if leap y then 366 else 365

/-- The days of a year in front of a month. -/
def monthStart (y : Nat) : Nat → Nat
  | 0 => 0
  | m + 1 => monthStart y m + monthLength leap y m

/-- The days from the start year on in front of the year that comes `n` years later. -/
def yearStart (start : Nat) : Nat → Nat
  | 0 => 0
  | n + 1 => yearStart start n + yearLength leap (start + n)

structure IsDate (y m d : Nat) : Prop where
  month_pos : 1 ≤ m
  month_le : m ≤ 12
  day_pos : 1 ≤ d
  day_le : d ≤ monthLength leap y m

/-- The number of a day, counted from the start year. -/
def dayNumber (start y m d : Nat) : Nat :=
  yearStart leap start (y - start) + monthStart leap y m + d

end Counting

section Order

/-- The steps of a monotone sequence do not overlap. -/
theorem index_unique {f : Nat → Nat} (hf : Monotone f) {i j x : Nat} (hi : f i < x)
    (hi' : x ≤ f (i + 1)) (hj : f j < x) (hj' : x ≤ f (j + 1)) : i = j := by
  rcases Nat.lt_trichotomy i j with hlt | heq | hgt
  · have hle : f (i + 1) ≤ f j := hf hlt
    omega
  · exact heq
  · have hle : f (j + 1) ≤ f i := hf hgt
    omega

end Order

section Days

variable {leap : Nat → Bool} {start y m d : Nat}

theorem monthLength_le (y m : Nat) : monthLength leap y m ≤ 31 := by
  unfold monthLength
  split
  · split <;> decide
  all_goals decide

theorem monthStart_monotone : Monotone (monthStart leap y) :=
  monotone_nat_of_le_succ fun _ => Nat.le_add_right _ _

theorem yearStart_monotone : Monotone (yearStart leap start) :=
  monotone_nat_of_le_succ fun _ => Nat.le_add_right _ _

/-- The months make up the year. -/
theorem monthStart_thirteen : monthStart leap y 13 = yearLength leap y := by
  cases h : leap y <;> simp [monthStart, monthLength, yearLength, h]

theorem IsDate.in_month (h : IsDate leap y m d) :
    monthStart leap y m < monthStart leap y m + d ∧
      monthStart leap y m + d ≤ monthStart leap y (m + 1) :=
  ⟨Nat.lt_add_of_pos_right h.day_pos, Nat.add_le_add_left h.day_le _⟩

theorem IsDate.in_year (h : IsDate leap y m d) :
    monthStart leap y m + d ≤ yearLength leap y := by
  have hle : monthStart leap y (m + 1) ≤ monthStart leap y 13 :=
    monthStart_monotone (Nat.succ_le_succ h.month_le)
  rw [monthStart_thirteen] at hle
  exact h.in_month.2.trans hle

/-- Two dates with the same day number are the same date. -/
theorem dayNumber_injective {y' m' d' : Nat} (h : IsDate leap y m d) (h' : IsDate leap y' m' d')
    (hy : start ≤ y) (hy' : start ≤ y')
    (heq : dayNumber leap start y m d = dayNumber leap start y' m' d') :
    y = y' ∧ m = m' ∧ d = d' := by
  obtain ⟨n, rfl⟩ := Nat.exists_eq_add_of_le hy
  obtain ⟨n', rfl⟩ := Nat.exists_eq_add_of_le hy'
  simp only [dayNumber, Nat.add_sub_cancel_left] at heq
  have hd := h.day_pos
  have hd' := h'.day_pos
  have hyear := h.in_year
  have hyear' := h'.in_year
  obtain rfl : n = n' := by
    apply index_unique (yearStart_monotone : Monotone (yearStart leap start))
      (x := yearStart leap start n + monthStart leap (start + n) m + d)
    · omega
    · simp only [yearStart]
      omega
    · omega
    · simp only [yearStart]
      omega
  have hday : monthStart leap (start + n) m + d = monthStart leap (start + n) m' + d' := by
    omega
  obtain rfl : m = m' :=
    index_unique monthStart_monotone h.in_month.1 h.in_month.2 (hday ▸ h'.in_month.1)
      (hday ▸ h'.in_month.2)
  exact ⟨rfl, rfl, by omega⟩

/-- Calendars with the same leap years have the same dates. -/
theorem IsDate.congr {leap' : Nat → Bool} (hleap : leap y = leap' y) :
    IsDate leap y m d ↔ IsDate leap' y m d := by
  have hlength : monthLength leap y m = monthLength leap' y m := by
    simp only [monthLength, hleap]
  constructor
  · exact fun h => ⟨h.month_pos, h.month_le, h.day_pos, hlength ▸ h.day_le⟩
  · exact fun h => ⟨h.month_pos, h.month_le, h.day_pos, hlength ▸ h.day_le⟩

/-- From 1901 to 2099 no year divides the two rules. -/
theorem gregorian_eq_everyFourth (hfirst : 1901 ≤ y) (hlast : y ≤ 2099) :
    gregorian y = everyFourth y := by
  have hor : y % 100 ≠ 0 ∨ y % 400 = 0 := by omega
  rcases hor with h | h <;> simp [gregorian, everyFourth, h]

end Days

end Calendar
