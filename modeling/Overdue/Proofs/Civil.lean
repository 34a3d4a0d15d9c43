import Overdue.Proofs.LocalDay

/-! Dates by their year, month and day of the month. Each day that exists in the Gregorian calendar of the years 1 to 9999 is
one date, and each date is such a day. -/
namespace Overdue
namespace Date

theorem daysBeforeYear_next {year : Nat} (first : 1 ≤ year) :
    daysBeforeYear (year + 1) = daysBeforeYear year + if isLeap year then 366 else 365 := by
  obtain ⟨past, rfl⟩ := Nat.exists_eq_add_of_le' first
  have each (cycle : Nat) :
      (past + 1) / cycle = past / cycle + if (past + 1) % cycle = 0 then 1 else 0 := by
    simp only [Nat.succ_div, Nat.dvd_iff_mod_eq_zero]
  have order : past / 100 ≤ past / 4 := by omega
  have hundred : (past + 1) % 100 = 0 → (past + 1) % 4 = 0 := by omega
  have cycle : (past + 1) % 400 = 0 → (past + 1) % 100 = 0 := by omega
  unfold daysBeforeYear
  rw [Nat.add_sub_cancel, Nat.add_sub_cancel, each 4, each 100, each 400]
  generalize past / 4 = fourths at *
  generalize past / 100 = centuries at *
  generalize past / 400 = cycles at *
  by_cases leap : (past + 1) % 4 = 0 <;> by_cases century : (past + 1) % 100 = 0 <;>
    by_cases turn : (past + 1) % 400 = 0 <;> simp [isLeap, leap, century, turn] at * <;> omega

theorem yearOf_eq {year day : Nat} (low : daysBeforeYear year ≤ day) (high : day < daysBeforeYear (year + 1)) :
    yearOf day = year := by
  obtain ⟨_, lowToo, highToo⟩ := yearOf_spec day
  rcases Nat.lt_trichotomy (yearOf day) year with less | same | more
  · have passed := daysBeforeYear_mono (show yearOf day + 1 ≤ year from less)
    omega
  · exact same
  · have passed := daysBeforeYear_mono (show year + 1 ≤ yearOf day from more)
    omega

/-- The days of the months before the month at an index. -/
def lead (lengths : List Nat) (index : Nat) : Nat := (lengths.take index).foldr (· + ·) 0

theorem monthFrom_lead {lengths : List Nat} {index day : Nat} (inside : index < lengths.length) (within : day < lengths[index])
    (start : Nat) : monthFrom start lengths (lead lengths index + day) = (start + index, day + 1) := by
  induction lengths generalizing index start with
  | nil => cases inside
  | cons length rest ih =>
    cases index with
    | zero =>
      have here : day < length := within
      simp [lead, monthFrom, here]
    | succ index =>
      have further : ¬length + lead rest index + day < length := by omega
      have split : lead (length :: rest) (index + 1) = length + lead rest index := rfl
      have left : length + lead rest index + day - length = lead rest index + day := by omega
      rw [split, monthFrom, if_neg further, left, ih (Nat.lt_of_succ_lt_succ inside) within]
      congr 1
      omega

/-- Each day of a year is in one of its months. -/
theorem exists_lead {lengths : List Nat} {day : Nat} (within : day < lead lengths lengths.length) :
    ∃ index, ∃ inside : index < lengths.length, ∃ rest, rest < lengths[index] ∧ day = lead lengths index + rest := by
  induction lengths generalizing day with
  | nil => cases within
  | cons length others ih =>
    by_cases here : day < length
    · exact ⟨0, Nat.succ_pos _, day, here, (Nat.zero_add day).symm⟩
    · have split : lead (length :: others) (others.length + 1) = length + lead others others.length := rfl
      rw [List.length_cons, split] at within
      obtain ⟨index, inside, rest, bound, same⟩ := ih (by omega : day - length < lead others others.length)
      refine ⟨index + 1, Nat.succ_lt_succ inside, rest, bound, ?_⟩
      have next : lead (length :: others) (index + 1) = length + lead others index := rfl
      omega

theorem length_monthLengths (leap : Bool) : (monthLengths leap).length = 12 := rfl

theorem lead_year (leap : Bool) : lead (monthLengths leap) 12 = if leap then 366 else 365 := by
  cases leap <;> rfl

theorem lead_month (leap : Bool) (index : Fin 12) :
    lead (monthLengths leap) index + (monthLengths leap)[index.val] ≤ lead (monthLengths leap) 12 := by
  revert leap index
  decide

variable {y m d : Nat} {date : Date}

/-- The place of a day: in its year the day after those of the months before, in its month the day after those before. -/
def Placed (y m d : Nat) (date : Date) : Prop := date.day = daysBeforeYear y + daysBeforeMonth y m + (d - 1)

theorem Placed.civil (placed : Placed y m d date) (real : Exists y m d) :
    date.year = y ∧ date.month = m ∧ date.dayOfMonth = d := by
  obtain ⟨first, _, january, december, low, high⟩ := real
  have inside : m - 1 < (monthLengths (isLeap y)).length := by
    rw [length_monthLengths]
    omega
  have within : d - 1 < (monthLengths (isLeap y))[m - 1] := by
    have length : daysInMonth y m = (monthLengths (isLeap y))[m - 1] := by simp [daysInMonth, inside]
    omega
  have next := daysBeforeYear_next first
  have most : lead (monthLengths (isLeap y)) (m - 1) + (monthLengths (isLeap y))[m - 1] ≤ lead (monthLengths (isLeap y)) 12 :=
    lead_month (isLeap y) ⟨m - 1, by omega⟩
  rw [lead_year] at most
  have months : daysBeforeMonth y m = lead (monthLengths (isLeap y)) (m - 1) := rfl
  rw [Placed, months] at placed
  have year : date.year = y := by
    apply yearOf_eq <;> omega
  have left : date.day - daysBeforeYear date.year = lead (monthLengths (isLeap y)) (m - 1) + (d - 1) := by
    rw [year]
    omega
  have found : date.monthAndDay = (m, d) := by
    rw [monthAndDay, left, year, monthFrom_lead inside within]
    congr 1 <;> omega
  exact ⟨year, congrArg Prod.fst found, congrArg Prod.snd found⟩

theorem exists_placed (date : Date) : Exists date.year date.month date.dayOfMonth ∧ Placed date.year date.month date.dayOfMonth date := by
  obtain ⟨first, low, high⟩ := yearOf_spec date.day
  change 1 ≤ date.year at first
  change daysBeforeYear date.year ≤ date.day at low
  change date.day < daysBeforeYear (date.year + 1) at high
  have next := daysBeforeYear_next first
  have some : date.day - daysBeforeYear date.year < lead (monthLengths (isLeap date.year)) 12 := by
    rw [lead_year]
    omega
  obtain ⟨index, inside, rest, bound, same⟩ := exists_lead some
  have found : date.monthAndDay = (1 + index, rest + 1) := by
    rw [monthAndDay, same, monthFrom_lead inside bound]
  have month : date.month = 1 + index := congrArg Prod.fst found
  have day : date.dayOfMonth = rest + 1 := congrArg Prod.snd found
  have last : date.year ≤ 9999 := by
    by_contra later
    have passed := daysBeforeYear_mono (show 10000 ≤ date.year by omega)
    have ends : daysBeforeYear 10000 = dayEnd := rfl
    have inRange := date.inRange
    omega
  have placed : lead (monthLengths (isLeap date.year)) index = daysBeforeMonth date.year (1 + index) := by
    rw [daysBeforeMonth, Nat.add_sub_cancel_left]
    rfl
  have length : daysInMonth date.year (1 + index) = (monthLengths (isLeap date.year))[index] := by
    simp [daysInMonth, inside]
  rw [length_monthLengths] at inside
  rw [Placed, month, day]
  refine ⟨⟨first, last, by omega, by omega, by omega, by omega⟩, ?_⟩
  rw [← placed]
  omega

theorem ofCivil?_eq_some : ofCivil? y m d = some date ↔ date.year = y ∧ date.month = m ∧ date.dayOfMonth = d := by
  constructor
  · intro named
    unfold ofCivil? at named
    split at named
    next real =>
      cases named
      exact Placed.civil rfl real
    next => cases named
  · rintro ⟨rfl, rfl, rfl⟩
    obtain ⟨real, placed⟩ := exists_placed date
    rw [ofCivil?, dif_pos real]
    cases date
    rw [Option.some.injEq, mk.injEq]
    exact placed.symm

/-- The days that exist are those of the dates. -/
theorem exists_iff : Exists y m d ↔ ∃ date : Date, date.year = y ∧ date.month = m ∧ date.dayOfMonth = d := by
  constructor
  · intro real
    have placed : Placed y m d ⟨_, day_lt real⟩ := rfl
    exact ⟨_, placed.civil real⟩
  · rintro ⟨date, rfl, rfl, rfl⟩
    exact (exists_placed date).1

end Date
end Overdue
