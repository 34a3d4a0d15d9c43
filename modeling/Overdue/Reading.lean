import Overdue.Date
import Overdue.Failure

/-! Readings of a clock that shows the date and the time of day: microseconds since the start of the year 1,
up to the end of the year 9999. Moving a reading out of these years fails. -/
namespace Overdue

def secondMicros : Nat := 1000000
def minuteMicros : Nat := 60 * secondMicros
def dayMicros : Nat := 86400 * secondMicros

def readingEnd : Nat := dayEnd * dayMicros

structure Reading where
  micros : Nat
  inRange : micros < readingEnd
deriving DecidableEq

namespace Reading

def lt (a b : Reading) : Bool := a.micros < b.micros

def le (a b : Reading) : Bool := a.micros ≤ b.micros

def shift (reading : Reading) (micros : Int) : Except Failure Reading :=
  let moved := reading.micros + micros
  if within : 0 ≤ moved ∧ moved < readingEnd then .ok ⟨moved.toNat, by omega⟩ else .error .outOfRange

theorem shift_eq_ok {reading moved : Reading} {micros : Int} :
    reading.shift micros = .ok moved ↔ (moved.micros : Int) = reading.micros + micros := by
  unfold shift
  have bound := moved.inRange
  dsimp only
  split
  next within =>
    rw [Except.ok.injEq]
    constructor
    · rintro rfl
      exact Int.toNat_of_nonneg within.1
    · intro equal
      cases moved
      simp only [mk.injEq]
      simp only at equal
      omega
  next outside =>
    simp only [reduceCtorEq, false_iff]
    intro equal
    omega

def date (reading : Reading) : Date :=
  ⟨reading.micros / dayMicros, Nat.div_lt_of_lt_mul (by rw [Nat.mul_comm]; exact reading.inRange)⟩

def timeOfDay (reading : Reading) : Nat := reading.micros % dayMicros

def onDate (date : Date) (micros : Nat) (withinDay : micros < dayMicros) : Reading :=
  ⟨date.day * dayMicros + micros, by
    have := Nat.mul_le_mul_right dayMicros (show date.day + 1 ≤ dayEnd from date.inRange)
    simp only [readingEnd, Nat.add_mul] at *
    omega⟩

def hour (reading : Reading) : Nat := reading.timeOfDay / (60 * minuteMicros)
def minute (reading : Reading) : Nat := reading.timeOfDay / minuteMicros % 60
def second (reading : Reading) : Nat := reading.timeOfDay / secondMicros % 60
def fraction (reading : Reading) : Nat := reading.micros % secondMicros

def clockText (reading : Reading) : List Char :=
  Text.padded 2 reading.hour ++ ':' :: Text.padded 2 reading.minute ++ ':' :: Text.padded 2 reading.second

/-- The text `yyyy-mm-ddThh:mm:ss`, with six decimals where the second is not whole. -/
def iso (reading : Reading) : List Char :=
  reading.date.iso ++ 'T' :: reading.clockText ++
    if reading.fraction = 0 then [] else '.' :: Text.padded 6 reading.fraction

/-- The text `yyyy-mm-dd hh:mm:ss.ffffff` of a table cell. -/
def cellText (reading : Reading) : List Char :=
  reading.date.iso ++ ' ' :: reading.clockText ++ '.' :: Text.padded 6 reading.fraction

/-- The text used in notes to students, such as `Monday, 28 November 2022, 23:59`. -/
def longText (reading : Reading) : String :=
  reading.date.weekdayName ++ ", " ++ String.ofList (Text.padded 2 reading.date.dayOfMonth) ++ " " ++
    reading.date.monthName ++ " " ++ toString reading.date.year ++ ", " ++
    String.ofList (Text.padded 2 reading.hour ++ ':' :: Text.padded 2 reading.minute)

def takeDate? (text : List Char) : Option (Date × List Char) := do
  let (year, text) ← Text.takeNumber? 4 text
  let '-' :: text := text | none
  let (month, text) ← Text.takeNumber? 2 text
  let '-' :: text := text | none
  let (day, text) ← Text.takeNumber? 2 text
  return (← Date.ofCivil? year month day, text)

def fractionMicros (digits : List Char) : Nat :=
  let kept := digits.take 6
  Text.ofDigits kept * Nat.pow 10 (6 - kept.length)

/-- The decimals after a point or a comma; there must be one at least. -/
def takeFraction? : List Char → Option (Nat × List Char)
  | mark :: text =>
    if mark = '.' ∨ mark = ',' then
      let digits := text.takeWhile Text.isAsciiDigit
      if digits = [] then none else some (fractionMicros digits, text.dropWhile Text.isAsciiDigit)
    else some (0, mark :: text)
  | [] => some (0, [])

/-- The seconds after a colon, which may be left out. -/
def takeSeconds? : List Char → Option (Nat × List Char)
  | ':' :: text => do
    let (second, text) ← Text.takeNumber? 2 text
    guard (second < 60)
    let (fraction, text) ← takeFraction? text
    return (second * secondMicros + fraction, text)
  | text => some (0, text)

def takeTime? (text : List Char) : Option (Nat × List Char) := do
  let (hour, text) ← Text.takeNumber? 2 text
  let ':' :: text := text | none
  let (minute, text) ← Text.takeNumber? 2 text
  guard (hour < 24 ∧ minute < 60)
  let (micros, text) ← takeSeconds? text
  return ((hour * 60 + minute) * minuteMicros + micros, text)

def isSeparator (c : Char) : Bool := c == 'T' || c == 't' || c == ' ' || c == '_'

def take? (text : List Char) : Option (Reading × List Char) := do
  let (date, text) ← takeDate? text
  let separator :: text := text | none
  guard (isSeparator separator)
  let (micros, text) ← takeTime? text
  if within : micros < dayMicros then some (.onDate date micros within, text) else none

end Reading
end Overdue
