import Overdue.Double
import Overdue.Failure

/-! Adjusted scores: the raw score times what a percentage leaves of it, never below zero, to two decimals. -/
namespace Overdue
namespace Score

def kept (percentage : Int) : Except Failure Double :=
  (Double.quotient? percentage 100).elim (.error .quotientTooLarge) fun quotient => .ok (Double.one.sub quotient)

/-- A product that is not above zero counts as zero. -/
def scaled (raw kept : Double) : Double :=
  let product := raw.mul kept
  (if Double.zero.lt product then product else Double.zero).roundHundredths

def adjust (raw : Double) (percentage : Int) : Except Failure Double := (kept percentage).map (scaled raw)

/-- An integer score is converted after the percentage has been. -/
def adjustInt (raw : Int) (percentage : Int) : Except Failure Double := do
  let kept ← kept percentage
  match Double.quotient? raw 1 with
  | none => .error .integerTooLarge
  | some raw => return scaled raw kept

end Score
end Overdue
