import Overdue.Double

/-! Decimal text of binary64 numbers. A decimal is read to the nearest value, and a value is written with the
fewest digits that read back, the nearest such decimal winning. -/
namespace Overdue.Double

/-- The value nearest to `digits * 10 ^ exponent`. Exponents far outside the format are decided without the power. -/
def ofDecimal (negative : Bool) (digits : Nat) (exponent : Int) : Double :=
  if digits = 0 ∨ exponent < -(400 + digits.log2) then ofRatio negative 0 1
  else if 400 < exponent then infinite negative
  else if 0 ≤ exponent then ofRatio negative (digits * Nat.pow 10 exponent.toNat) 1
  else ofRatio negative digits (Nat.pow 10 (-exponent).toNat)

structure Decimal where
  digits : Nat
  exponent : Int
deriving DecidableEq, Repr

def inSteps (units : Nat) (exponent : Int) : Nat × Nat :=
  if 0 ≤ exponent then (units, unitsPerOne * Nat.pow 10 exponent.toNat)
  else (units * Nat.pow 10 (-exponent).toNat, unitsPerOne)

def readsBack (units digits : Nat) (exponent : Int) : Bool :=
  match ofDecimal false digits exponent with
  | finite _ read _ => read == units
  | _ => false

/-- The multiple of `10 ^ exponent` next to a magnitude that reads back as it, the nearer one if both do. -/
def onGrid? (units : Nat) (exponent : Int) : Option Nat :=
  let steps := inSteps units exponent
  let below := steps.1 / steps.2
  match readsBack units below exponent, readsBack units (below + 1) exponent with
  | true, true => some (roundHalfEven steps.1 steps.2)
  | true, false => some below
  | false, true => some (below + 1)
  | false, false => none

/-- The `point` with `10 ^ (point - 1) ≤ magnitude < 10 ^ point`, for a positive magnitude. -/
def decimalPoint (units : Nat) : Int := (Nat.toDigits 10 (units * Nat.pow 10 400 / unitsPerOne)).length - 400

def shortestWithin (units : Nat) (precision : Nat) : Option Decimal :=
  let exponent := decimalPoint units - precision
  (onGrid? units exponent).map fun digits => ⟨digits, exponent⟩

/-- The decimal of the least precision that reads back; seventeen digits always do. -/
def shortest (units : Nat) : Decimal :=
  ((List.range' 1 17).findSome? (shortestWithin units)).getD ⟨0, 0⟩

def dropTrailingZeros (digits : List Char) : List Char := (digits.reverse.dropWhile (· == '0')).reverse

/-- Positional from `0.0001` up to sixteen digits before the point, else with an exponent of two digits or more. -/
def layout (digits : List Char) (point : Int) : List Char :=
  if -4 < point ∧ point ≤ 0 then '0' :: '.' :: List.replicate (-point).toNat '0' ++ digits
  else if 0 < point ∧ point ≤ 16 then
    if digits.length ≤ point.toNat then
      digits ++ List.replicate (point.toNat - digits.length) '0' ++ ['.', '0']
    else digits.take point.toNat ++ '.' :: digits.drop point.toNat
  else
    let fraction := if digits.length ≤ 1 then [] else '.' :: digits.drop 1
    let exponent := Nat.toDigits 10 (point - 1).natAbs
    digits.take 1 ++ fraction ++ 'e' :: (if point ≤ 0 then '-' else '+') ::
      List.replicate (2 - exponent.length) '0' ++ exponent

def magnitudeText (units : Nat) : List Char :=
  if units = 0 then ['0', '.', '0']
  else
    let decimal := shortest units
    let digits := Nat.toDigits 10 decimal.digits
    layout (dropTrailingZeros digits) (digits.length + decimal.exponent)

def text : Double → String
  | nan => "nan"
  | infinite negative => if negative then "-inf" else "inf"
  | finite negative units _ => (if negative then "-" else "") ++ String.ofList (magnitudeText units)

end Overdue.Double
