import Mathlib.Algebra.BigOperators.Group.List.Basic
import Mathlib.Tactic.Ring

/-!
# The Gregorian calendar

Seconds since the beginning of 1970 as a date and a time of day, in the calendar that runs
without end in both directions. `civil` finds the year from an estimate that is off by one at
most and the month by walking along the lengths of the months; `seconds` counts back.
-/

set_option autoImplicit false

namespace Phoenixcoin.Lib

/-! ## Years -/

variable (year : ℤ)

def isLeap : Bool := (year % 4 = 0 ∧ year % 100 ≠ 0) ∨ year % 400 = 0

def yearLength : ℤ := if isLeap year then 366 else 365

/-- The days from the beginning of year 1 to the beginning of a year. -/
def daysBeforeYear : ℤ :=
  365 * (year - 1) + (year - 1) / 4 - (year - 1) / 100 + (year - 1) / 400

theorem daysBeforeYear_succ :
    daysBeforeYear (year + 1) = daysBeforeYear year + yearLength year := by
  unfold daysBeforeYear yearLength isLeap
  by_cases h4 : year % 4 = 0
  · by_cases h100 : year % 100 = 0
    · by_cases h400 : year % 400 = 0
      · simp only [h400, or_true, decide_true, if_true]
        omega
      · simp only [h100, h400, ne_eq, not_true_eq_false, and_false, or_false, decide_false,
          Bool.false_eq_true, if_false]
        omega
    · simp only [h4, h100, ne_eq, not_false_eq_true, and_self, true_or, decide_true, if_true]
      omega
  · have h400 : ¬year % 400 = 0 := by omega
    simp only [h4, h400, false_and, or_false, decide_false, Bool.false_eq_true, if_false]
    omega

/-- The year of a day, counted from the beginning of year 1. -/
def yearOfDay (day : ℤ) : ℤ :=
  let year := day * 400 / 146097 + 1
  if day < daysBeforeYear year then year - 1
  else if daysBeforeYear (year + 1) ≤ day then year + 1
  else year

theorem yearOfDay_spec (day : ℤ) :
    daysBeforeYear (yearOfDay day) ≤ day ∧ day < daysBeforeYear (yearOfDay day + 1) := by
  unfold yearOfDay
  simp only
  split
  · next hlow =>
    unfold daysBeforeYear at hlow ⊢
    omega
  · next hlow =>
    split
    · next hhigh =>
      unfold daysBeforeYear at hlow hhigh ⊢
      omega
    · next hhigh => exact ⟨by omega, by omega⟩

/-! ## Consecutive blocks -/

/-- The block in which a position falls and the position inside it, for blocks of the given
lengths. -/
def locate : List ℕ → ℕ → ℕ × ℕ
  | [], position => (0, position)
  | length :: lengths, position =>
    if position < length then (0, position)
    else
      let inner := locate lengths (position - length)
      (inner.1 + 1, inner.2)

theorem locate_spec (lengths : List ℕ) {position : ℕ} (h : position < lengths.sum) :
    ∃ length, lengths[(locate lengths position).1]? = some length ∧
      (locate lengths position).2 < length ∧
      position = (lengths.take (locate lengths position).1).sum + (locate lengths position).2 := by
  induction lengths generalizing position with
  | nil => simp at h
  | cons length lengths ih =>
    rw [List.sum_cons] at h
    unfold locate
    by_cases hlt : position < length
    · rw [if_pos hlt]
      exact ⟨length, by simp, hlt, by simp⟩
    · obtain ⟨found, hfound, hinner, hposition⟩ := @ih (position - length) (by omega)
      rw [if_neg hlt]
      refine ⟨found, hfound, hinner, ?_⟩
      simp only [List.take_succ_cons, List.sum_cons]
      omega

/-! ## Dates -/

def monthLengths : List ℕ :=
  [31, if isLeap year then 29 else 28, 31, 30, 31, 30, 31, 31, 30, 31, 30, 31]

theorem sum_monthLengths : ((monthLengths year).sum : ℤ) = yearLength year := by
  unfold monthLengths yearLength
  cases isLeap year with
  | false => rfl
  | true => rfl

/-- A date and a time of day; months and days are counted from 1. -/
structure CivilTime where
  year : ℤ
  month : ℤ
  day : ℤ
  hour : ℤ
  min : ℤ
  sec : ℤ
deriving DecidableEq, Repr

namespace CivilTime

/-- The month is one of the year, the day one of the month, and the time one of the day. -/
structure Valid (c : CivilTime) : Prop where
  month : 1 ≤ c.month ∧ c.month ≤ 12
  day : ∃ length, (monthLengths c.year)[(c.month - 1).toNat]? = some length ∧
    1 ≤ c.day ∧ c.day ≤ length
  hour : 0 ≤ c.hour ∧ c.hour < 24
  min : 0 ≤ c.min ∧ c.min < 60
  sec : 0 ≤ c.sec ∧ c.sec < 60

/-- The seconds since the beginning of 1970. -/
def seconds (c : CivilTime) : ℤ :=
  let days := daysBeforeYear c.year + ((monthLengths c.year).take (c.month - 1).toNat).sum +
    (c.day - 1) - daysBeforeYear 1970
  days * 86400 + c.hour * 3600 + c.min * 60 + c.sec

end CivilTime

/-- The date and time of a number of seconds since the beginning of 1970. -/
def civil (t : ℤ) : CivilTime :=
  let day := t / 86400 + daysBeforeYear 1970
  let year := yearOfDay day
  let monthDay := locate (monthLengths year) (day - daysBeforeYear year).toNat
  { year
    month := monthDay.1 + 1
    day := monthDay.2 + 1
    hour := t % 86400 / 3600
    min := t % 3600 / 60
    sec := t % 60 }

theorem locate_civil (t : ℤ) :
    ∃ length, (monthLengths (civil t).year)[((civil t).month - 1).toNat]? = some length ∧
      1 ≤ (civil t).day ∧ (civil t).day ≤ length ∧
      t / 86400 + daysBeforeYear 1970 - daysBeforeYear (civil t).year =
        ((monthLengths (civil t).year).take ((civil t).month - 1).toNat).sum +
          ((civil t).day - 1) := by
  obtain ⟨hlow, hhigh⟩ := yearOfDay_spec (t / 86400 + daysBeforeYear 1970)
  rw [daysBeforeYear_succ, ← sum_monthLengths] at hhigh
  generalize hdate : civil t = c
  unfold civil at hdate
  simp only at hdate
  generalize t / 86400 + daysBeforeYear 1970 = day at hdate hlow hhigh ⊢
  generalize yearOfDay day = year at hdate hlow hhigh
  obtain ⟨length, hlength, hlt, hposition⟩ :=
    @locate_spec (monthLengths year) (day - daysBeforeYear year).toNat (by omega)
  rw [← hdate]
  simp only [add_sub_cancel_right, Int.toNat_natCast]
  refine ⟨length, hlength, ?_, ?_, ?_⟩
  · omega
  · omega
  · omega

theorem civil_valid (t : ℤ) : (civil t).Valid := by
  obtain ⟨length, hlength, hlow, hhigh, -⟩ := locate_civil t
  have hmonths : ((civil t).month - 1).toNat < (monthLengths (civil t).year).length :=
    (List.getElem?_eq_some_iff.mp hlength).1
  have hcount : (monthLengths (civil t).year).length = 12 := rfl
  have hmonth : 1 ≤ (civil t).month := by
    unfold civil
    simp only
    omega
  constructor
  · exact ⟨hmonth, by omega⟩
  · exact ⟨length, hlength, hlow, hhigh⟩
  · unfold civil
    simp only
    omega
  · unfold civil
    simp only
    omega
  · unfold civil
    simp only
    omega

theorem le_year_civil {t : ℤ} (ht : 0 ≤ t) : 1970 ≤ (civil t).year := by
  have hday : daysBeforeYear 1970 ≤ t / 86400 + daysBeforeYear 1970 := by omega
  obtain ⟨-, hhigh⟩ := yearOfDay_spec (t / 86400 + daysBeforeYear 1970)
  have hyear : (civil t).year = yearOfDay (t / 86400 + daysBeforeYear 1970) := rfl
  rw [hyear]
  generalize t / 86400 + daysBeforeYear 1970 = day at hday hhigh
  unfold daysBeforeYear at hday hhigh
  omega

/-- Counting back gives the seconds again. -/
theorem seconds_civil (t : ℤ) : (civil t).seconds = t := by
  obtain ⟨-, -, -, -, hday⟩ := locate_civil t
  have hclock : (civil t).hour * 3600 + (civil t).min * 60 + (civil t).sec = t % 86400 := by
    unfold civil
    simp only
    omega
  unfold CivilTime.seconds
  simp only
  omega

end Phoenixcoin.Lib
