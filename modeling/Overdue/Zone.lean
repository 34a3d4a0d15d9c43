import Overdue.Timestamp

/-! Time zones: UTC, a fixed offset, or a named region with its rule for summer time. The regions are those listed here. The
rule of a region is that of the years 2008 to 2037 and is taken to hold for every year. -/
namespace Overdue

inductive Sunday where
  | first
  | second
  | last
deriving DecidableEq, Repr

/-- A yearly change of the clocks: seconds of UTC after (or before) the start of a Sunday. -/
structure Switch where
  month : Nat
  sunday : Sunday
  seconds : Int
deriving DecidableEq, Repr

namespace Switch

def day (switch : Switch) (year : Nat) : Nat :=
  let first := Date.daysBeforeYear year + Date.daysBeforeMonth year switch.month
  let last := first + Date.daysInMonth year switch.month - 1
  match switch.sunday with
  | .first => first + (6 - first % 7)
  | .second => first + (6 - first % 7) + 7
  | .last => last - (last + 1) % 7

def micros (switch : Switch) (year : Nat) : Int := switch.day year * dayMicros + switch.seconds * secondMicros

end Switch

/-- Clocks are an hour ahead from one change of a year to the other, over the turn of the year in the south. -/
structure SummerTime where
  begins : Switch
  ends : Switch
deriving DecidableEq, Repr

def SummerTime.covers (summer : SummerTime) (utc : Reading) : Bool :=
  let year := utc.date.year
  let begins := summer.begins.micros year
  let ends := summer.ends.micros year
  if begins < ends then decide (begins ≤ utc.micros ∧ (utc.micros : Int) < ends)
  else decide (begins ≤ utc.micros ∨ (utc.micros : Int) < ends)

inductive Region where
  | london
  | newYork
  | auckland
  | kolkata
  | kathmandu
  | tokyo
  | kiritimati
  | fiveWest
  | fourteenEast
  | twelveWest
deriving DecidableEq, Repr

namespace Region

def all : List Region :=
  [london, newYork, auckland, kolkata, kathmandu, tokyo, kiritimati, fiveWest, fourteenEast, twelveWest]

def name : Region → String
  | london => "Europe/London"
  | newYork => "America/New_York"
  | auckland => "Pacific/Auckland"
  | kolkata => "Asia/Kolkata"
  | kathmandu => "Asia/Kathmandu"
  | tokyo => "Asia/Tokyo"
  | kiritimati => "Pacific/Kiritimati"
  | fiveWest => "Etc/GMT+5"
  | fourteenEast => "Etc/GMT-14"
  | twelveWest => "Etc/GMT+12"

/-- Minutes east of UTC outside summer time. -/
def standardMinutes : Region → Int
  | london => 0
  | newYork => -300
  | auckland => 720
  | kolkata => 330
  | kathmandu => 345
  | tokyo => 540
  | kiritimati => 840
  | fiveWest => -300
  | fourteenEast => 840
  | twelveWest => -720

def summerTime? : Region → Option SummerTime
  | london => some ⟨⟨3, .last, 3600⟩, ⟨10, .last, 3600⟩⟩
  | newYork => some ⟨⟨3, .second, 25200⟩, ⟨11, .first, 21600⟩⟩
  | auckland => some ⟨⟨9, .last, -36000⟩, ⟨4, .first, -36000⟩⟩
  | _ => none

/-- Seconds east of UTC at an instant. -/
def seconds (region : Region) (utc : Reading) : Int :=
  let standard := region.standardMinutes * 60
  match region.summerTime? with
  | none => standard
  | some summer => if summer.covers utc then standard + 3600 else standard

end Region

inductive Zone where
  | utc
  | east (offset : Offset)
  | region (place : Region)
deriving DecidableEq

namespace Zone

def seconds (zone : Zone) (utc : Reading) : Int :=
  match zone with
  | .utc => 0
  | .east offset => offset.seconds
  | .region place => place.seconds utc

def wall (zone : Zone) (utc : Reading) : Except Failure Reading := utc.shift (zone.seconds utc * secondMicros)

def name : Zone → String
  | .utc => "UTC"
  | .east offset => if offset.seconds = 0 then "UTC" else "UTC" ++ String.ofList offset.text
  | .region place => place.name

/-- A zone by its name: UTC in any case, a region by its exact name. -/
def ofName? (name : String) : Option Zone :=
  if name.toUpper = "UTC" then some .utc
  else (Region.all.find? fun place => place.name = name).map .region

end Zone
end Overdue
