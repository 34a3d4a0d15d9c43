/-! Failures of a computation, one constructor for each cause, with the text that is reported. -/
namespace Overdue

inductive Failure where
  /-- A date or a time of day would leave the years 1 to 9999. -/
  | outOfRange
  /-- The quotient of two integers has no finite binary64 value. -/
  | quotientTooLarge
  /-- An integer has no finite binary64 value. -/
  | integerTooLarge
  | cellTooWide
  /-- A column of a row, or a part of a value, was asked for where there is none. -/
  | absent (part : String)
  | notFinished (submission : Int)
  /-- A row would break a constraint of its table. -/
  | constraint
  | commitFailed
deriving DecidableEq, Repr, Inhabited

namespace Failure

def message : Failure → String
  | outOfRange => "date value out of range"
  | quotientTooLarge => "integer division result too large for a float"
  | integerTooLarge => "int too large to convert to float"
  | cellTooWide => "Python int too large to convert to SQLite INTEGER"
  | absent part => "'NoneType' object has no attribute '" ++ part ++ "'"
  | notFinished submission => "Submission " ++ toString submission ++ " is not finished"
  | constraint => "constraint failed"
  | commitFailed => "commit failed"

end Failure
end Overdue
