import Overdue.Text.Digit

/-! Calendar dates of the years 1 to 9999 in the Gregorian calendar, as day numbers counted from 0001-01-01, a Monday. -/
namespace Overdue

/-- The days of the years 1 to 9999. -/
def dayEnd : Nat := 3652059

structure Date where
  day : Nat
  inRange : day < dayEnd
deriving DecidableEq

namespace Date

def isLeap (year : Nat) : Bool := year % 4 == 0 && (year % 100 != 0 || year % 400 == 0)

def daysBeforeYear (year : Nat) : Nat := 365 * (year - 1) + (year - 1) / 4 - (year - 1) / 100 + (year - 1) / 400

def monthLengths (leap : Bool) : List Nat := [31, if leap then 29 else 28, 31, 30, 31, 30, 31, 31, 30, 31, 30, 31]

def daysInMonth (year month : Nat) : Nat := (monthLengths (isLeap year)).getD (month - 1) 0

/-- The days before a month, by its place in the year. -/
def daysBefore (leap : Bool) (index : Nat) : Nat := ((monthLengths leap).take index).foldr (· + ·) 0

def daysBeforeMonth (year month : Nat) : Nat := daysBefore (isLeap year) (month - 1)

def Exists (year month day : Nat) : Prop :=
  1 ≤ year ∧ year ≤ 9999 ∧ 1 ≤ month ∧ month ≤ 12 ∧ 1 ≤ day ∧ day ≤ daysInMonth year month

instance (year month day : Nat) : Decidable (Exists year month day) := inferInstanceAs (Decidable (_ ∧ _))

theorem month_within_year (leap : Bool) (index : Fin 12) :
    daysBefore leap index + (monthLengths leap).getD index 0 ≤ if leap then 366 else 365 := by
  revert leap index
  decide

theorem day_lt {year month day : Nat} (named : Exists year month day) :
    daysBeforeYear year + daysBeforeMonth year month + (day - 1) < dayEnd := by
  obtain ⟨first, last, january, december, low, high⟩ := named
  have within := month_within_year (isLeap year) ⟨month - 1, by omega⟩
  simp only [daysInMonth, daysBeforeMonth, daysBeforeYear, dayEnd] at *
  by_cases end9999 : year = 9999
  · subst end9999
    have common : isLeap 9999 = false := rfl
    simp only [common, Bool.false_eq_true, if_false] at within high ⊢
    omega
  · have atMost : (if isLeap year then 366 else 365) ≤ 366 := by split <;> omega
    omega

def ofCivil? (year month day : Nat) : Option Date :=
  if named : Exists year month day then
    some ⟨daysBeforeYear year + daysBeforeMonth year month + (day - 1), day_lt named⟩
  else none

/-- The year in which a day falls: an estimate from the mean year, put right by one. -/
def yearOf (day : Nat) : Nat :=
  let estimate := day * 400 / 146097 + 1
  if daysBeforeYear (estimate + 1) ≤ day then estimate + 1
  else if day < daysBeforeYear estimate then estimate - 1
  else estimate

/-- The month and the day of the month of a day of the year, counted on from a month. -/
def monthFrom (month : Nat) : List Nat → Nat → Nat × Nat
  | [], day => (month, day + 1)
  | length :: rest, day => if day < length then (month, day + 1) else monthFrom (month + 1) rest (day - length)

def year (date : Date) : Nat := yearOf date.day

def monthAndDay (date : Date) : Nat × Nat :=
  monthFrom 1 (monthLengths (isLeap date.year)) (date.day - daysBeforeYear date.year)

def month (date : Date) : Nat := date.monthAndDay.1

def dayOfMonth (date : Date) : Nat := date.monthAndDay.2

/-- Days since Monday. -/
def weekday (date : Date) : Nat := date.day % 7

def isWeekend (date : Date) : Bool := 5 ≤ date.weekday

def iso (date : Date) : List Char :=
  Text.padded 4 date.year ++ '-' :: Text.padded 2 date.month ++ '-' :: Text.padded 2 date.dayOfMonth

def weekdayNames : List String := ["Monday", "Tuesday", "Wednesday", "Thursday", "Friday", "Saturday", "Sunday"]

def monthNames : List String :=
  ["January", "February", "March", "April", "May", "June", "July", "August", "September", "October", "November", "December"]

def weekdayName (date : Date) : String := weekdayNames.getD date.weekday ""

def monthName (date : Date) : String := monthNames.getD (date.month - 1) ""

end Date
end Overdue
