import Overdue.Form.Problem
import Overdue.Json
import Overdue.Text.Blank
import Overdue.Double.Decimal
import Overdue.Timestamp
import Overdue.Word

/-! Fields of a payload. Each reader takes a JSON value as leniently as the service does: integers, numbers, booleans
and instants are also read from text, and booleans count as numbers. -/
namespace Overdue
namespace Field

abbrev Reader (α : Type) := Json → Except ProblemType α

def text : Reader String
  | .str value => .ok value
  | .unpaired => .error .unpairedText
  | _ => .error .notText

def sign : List Char → Bool × List Char
  | '-' :: rest => (true, rest)
  | '+' :: rest => (false, rest)
  | rest => (false, rest)

/-- Digits with single underscores between digits, without the underscores. -/
def grouped? : List Char → Option (List Char)
  | [] => none
  | [c] => if Text.isAsciiDigit c then some [c] else none
  | c :: '_' :: rest => if Text.isAsciiDigit c then (grouped? rest).map (c :: ·) else none
  | c :: rest => if Text.isAsciiDigit c then (grouped? rest).map (c :: ·) else none

def isDigitOrUnderscore (c : Char) : Bool := Text.isAsciiDigit c || c == '_'

def integerOfText? (text : List Char) : Option Int := do
  let (negative, body) := sign (Text.trim Text.isWhite text)
  let digits ← grouped? (body.takeWhile isDigitOrUnderscore)
  match body.dropWhile isDigitOrUnderscore with
  | [] => pure ()
  | mark :: zeros => guard (mark = '.' ∧ zeros ≠ [] ∧ zeros.all (· == '0'))
  let size : Int := Text.ofDigits digits
  return if negative then -size else size

/-- Longer texts are not read as integers. -/
def integerTextLimit : Nat := 4300

/-- An integer from a number: it must be whole and lie strictly within 64 bits. -/
def integerOfDouble : Double → Except ProblemType Int
  | .finite negative units _ =>
    let whole := Double.signed negative (units / unitsPerOne)
    if units % unitsPerOne ≠ 0 then .error .fractional
    else if -(wordEnd : Int) < whole ∧ whole < wordEnd then .ok whole
    else .error .integerSize
  | _ => .error .notFinite

def integerOfText (text : String) : Except ProblemType Int :=
  if integerTextLimit < text.utf8ByteSize then .error .integerSize
  else match integerOfText? text.toList with
    | some n => .ok n
    | none => .error .integerText

def integer : Reader Int
  | .int n => .ok n
  | .bool value => .ok (if value then 1 else 0)
  | .double value => integerOfDouble value
  | .str text => integerOfText text
  | .unpaired => .error .unpairedText
  | _ => .error .notInteger

def percentage : Reader Int := fun json => do
  let n ← integer json
  if 100 < n then throw .above
  if n < 0 then throw .below
  return n

def exponentOfText? : List Char → Option Int
  | [] => some 0
  | mark :: rest => do
    guard (mark = 'e' ∨ mark = 'E')
    let (negative, digits) := sign rest
    let digits ← grouped? digits
    let size : Int := Text.ofDigits digits
    return if negative then -size else size

def groupedOrNone? (text : List Char) : Option (List Char) := if text = [] then some [] else grouped? text

/-- A decimal without its sign; a digit must stand before or after the point. -/
def decimalOfText? (negative : Bool) (text : List Char) : Option Double := do
  let whole ← groupedOrNone? (text.takeWhile isDigitOrUnderscore)
  let rest := text.dropWhile isDigitOrUnderscore
  let (fraction, rest) ← match rest with
    | '.' :: rest =>
      (groupedOrNone? (rest.takeWhile isDigitOrUnderscore)).map fun fraction =>
        (fraction, rest.dropWhile isDigitOrUnderscore)
    | rest => some ([], rest)
  guard (whole ++ fraction ≠ [])
  let exponent ← exponentOfText? rest
  return .ofDecimal negative (Text.ofDigits (whole ++ fraction)) (exponent - fraction.length)

def numberOfText? (text : List Char) : Option Double :=
  let (negative, body) := sign (Text.trim Text.isWhite text)
  let word := String.ofList (body.map Char.toLower)
  if word = "nan" then some .nan
  else if word = "inf" ∨ word = "infinity" then some (.infinite negative)
  else decimalOfText? negative body

def number : Reader Double
  | .double value => .ok value
  | .int n => match Double.quotient? n 1 with
    | some value => .ok value
    | none => .error .notNumber
  | .bool value => .ok (if value then .one else .zero)
  | .str text => match numberOfText? text.toList with
    | some value => .ok value
    | none => .error .numberText
  | .unpaired => .error .unpairedText
  | _ => .error .notNumber

def positive : Reader Double := fun json => do
  let value ← number json
  if Double.zero.lt value then return value else throw .notAbove

def truths : List String := ["1", "on", "t", "true", "y", "yes"]

def falsehoods : List String := ["0", "off", "f", "false", "n", "no"]

def boolOfInt (n : Int) : Except ProblemType Bool :=
  if n = 0 then .ok false else if n = 1 then .ok true else .error .boolText

def boolean : Reader Bool
  | .bool value => .ok value
  | .int n => if fitsWord n then boolOfInt n else .error .notBool
  | .double value => match integerOfDouble value with
    | .ok n => boolOfInt n
    | .error _ => .error .notBool
  | .str text =>
    let word := String.ofList (text.toList.map Char.toLower)
    if word ∈ truths then .ok true else if word ∈ falsehoods then .ok false else .error .boolText
  | .unpaired => .error .unpairedText
  | _ => .error .notBool

/-- Numbers up to this size count seconds, larger ones milliseconds. -/
def secondsLimit : Nat := 20000000000

/-- The UTC instant of a number of seconds or milliseconds since 1970, and microseconds. -/
def instantOfNumber (n : Int) (micros : Nat) : Except ProblemType Timestamp :=
  let sinceEpoch : Int :=
    if n.natAbs ≤ secondsLimit then n * secondMicros + micros else n * 1000 + micros
  let moved := 719162 * (dayMicros : Int) + sinceEpoch
  if within : 0 ≤ moved ∧ moved < readingEnd then .ok (.ofUtc ⟨moved.toNat, by omega⟩)
  else .error .instantRange

/-- The fraction is rounded to microseconds and added to the whole number below. -/
def instantOfDouble (value : Double) : Except ProblemType Timestamp :=
  match value, value.fractionPart.mul (.ofInt 1000000) with
  | .finite negative units _, .finite _ micros _ =>
    instantOfNumber (Double.floorSigned negative units) (Double.roundUnits micros)
  | _, _ => .error .instantRange

/-- The offset that may end an instant: `Z`, `+hh:mm` or `+hhmm`, with a hyphen or a minus sign for the west. -/
def offset? : List Char → Option (Option Offset)
  | [] => some none
  | mark :: text =>
    if mark = 'Z' ∨ mark = 'z' then if text = [] then some (some .utc) else none
    else do
      guard (mark = '+' ∨ mark = '-' ∨ mark = '\u2212')
      let (hours, text) ← Text.takeNumber? 2 text
      let (minutes, text) ← match text with
        | ':' :: text => Text.takeNumber? 2 text
        | text => Text.takeNumber? 2 text
      guard (minutes < 60 ∧ text = [])
      let size : Int := hours * 3600 + minutes * 60
      return some (← Offset.ofSeconds? (if mark = '+' then size else -size))

/-- A date, or a date with a time of day; a date alone stands for its midnight. -/
def instantOfDate? (text : List Char) : Option Timestamp := do
  let (date, rest) ← Reading.takeDate? text
  if rest = [] then return ⟨.onDate date 0 (by decide), none⟩
  let (reading, rest) ← Reading.take? text
  return ⟨reading, ← offset? rest⟩

/-- A sum of decimal places, each place rounded as it is added. -/
def sumPlaces (whole : Double) (place : Nat) : List Char → Double
  | [] => whole
  | c :: rest => sumPlaces (whole.add (.ofRatio false (c.toNat - '0'.toNat) (Nat.pow 10 place))) (place + 1) rest

def placesOfText? : List Char → Option (List Char)
  | [] => some []
  | mark :: places => if mark = '.' ∧ places.all Text.isAsciiDigit then some places else none

def instantOfDigits? (text : List Char) : Option Timestamp := do
  let (negative, body) := sign text
  let whole := body.takeWhile Text.isAsciiDigit
  guard (whole ≠ [])
  let rest := body.dropWhile Text.isAsciiDigit
  let places ← placesOfText? rest
  let size : Int := Text.ofDigits whole
  if rest = [] then (instantOfNumber (if negative then -size else size) 0).toOption
  else
    let value := sumPlaces (.ofInt size) 1 places
    (instantOfDouble (if negative then value.neg else value)).toOption

def instant : Reader Timestamp
  | .str text => match (instantOfDate? text.toList).or (instantOfDigits? text.toList) with
    | some timestamp => .ok timestamp
    | none => .error .instantText
  | .int n => match Double.quotient? n 1 with
    | some _ => instantOfNumber n 0
    | none => .error .notInstant
  | .double value => instantOfDouble value
  | .unpaired => .error .unpairedText
  | _ => .error .notInstant

def nullable (read : Reader α) : Reader (Option α)
  | .null => .ok none
  | json => (read json).map some

def read (members : List (String × Json)) (name : String) (reader : Reader α) (absent : Except ProblemType α) :
    Checked α :=
  match (match Json.lookup? members name with | none => absent | some json => reader json) with
  | .ok value => .accepted value
  | .error type => .rejected [⟨[name], type⟩]

end Field
end Overdue
