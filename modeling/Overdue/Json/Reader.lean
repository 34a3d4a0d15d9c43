import Overdue.Double.Decimal
import Overdue.Json
import Overdue.Text.Digit

/-! Reading JSON text. The literals `NaN`, `Infinity` and `-Infinity` are numbers; control characters do not stand
in strings; nothing but white space follows the value. -/
namespace Overdue.Json

def isSpace (c : Char) : Bool := c == ' ' || c == '\t' || c == '\n' || c == '\r'

def skip (text : List Char) : List Char := text.dropWhile isSpace

def hexUnit? (a b c d : Char) : Option Nat := do
  return ((← Text.hexDigit? a) * 16 + (← Text.hexDigit? b)) * 256 + (← Text.hexDigit? c) * 16 + (← Text.hexDigit? d)

def escaped? : Char → Option Nat
  | '"' => some 0x22
  | '\\' => some 0x5c
  | '/' => some 0x2f
  | 'b' => some 0x08
  | 'f' => some 0x0c
  | 'n' => some 0x0a
  | 'r' => some 0x0d
  | 't' => some 0x09
  | _ => none

/-- The code units up to the closing quote; an escape may write half of a surrogate pair. -/
def units? : List Char → Option (List Nat × List Char)
  | [] => none
  | '"' :: rest => some ([], rest)
  | '\\' :: 'u' :: a :: b :: c :: d :: rest => do
    let unit ← hexUnit? a b c d
    let (units, rest) ← units? rest
    return (unit :: units, rest)
  | '\\' :: c :: rest => do
    let unit ← escaped? c
    let (units, rest) ← units? rest
    return (unit :: units, rest)
  | c :: rest => do
    guard (0x20 ≤ c.toNat)
    let (units, rest) ← units? rest
    return (c.toNat :: units, rest)

def isHighSurrogate (unit : Nat) : Bool := 0xd800 ≤ unit && unit < 0xdc00

def isLowSurrogate (unit : Nat) : Bool := 0xdc00 ≤ unit && unit < 0xe000

/-- Joins surrogate pairs; an unpaired surrogate leaves no text. -/
def joined? : List Nat → Option (List Char)
  | [] => some []
  | unit :: rest =>
    if isHighSurrogate unit then
      match rest with
      | low :: rest =>
        if isLowSurrogate low then
          (joined? rest).map (Char.ofNat (0x10000 + (unit - 0xd800) * 0x400 + (low - 0xdc00)) :: ·)
        else none
      | [] => none
    else if isLowSurrogate unit then none
    else (joined? rest).map (Char.ofNat unit :: ·)

def digits? (text : List Char) : Option (List Char × List Char) :=
  let digits := text.takeWhile Text.isAsciiDigit
  if digits = [] then none else some (digits, text.dropWhile Text.isAsciiDigit)

/-- The integer part of a number: no zero stands before another digit. -/
def whole? : List Char → Option (List Char × List Char)
  | '0' :: rest => some (['0'], rest)
  | text => digits? text

def fraction? : List Char → Option (List Char × List Char)
  | '.' :: rest => digits? rest
  | _ => none

def exponentMark (c : Char) : Bool := c == 'e' || c == 'E'

def exponent? : List Char → Option (Int × List Char)
  | mark :: rest =>
    if exponentMark mark then
      match rest with
      | '-' :: rest => (digits? rest).map fun (digits, rest) => (-(Text.ofDigits digits : Int), rest)
      | '+' :: rest => (digits? rest).map fun (digits, rest) => ((Text.ofDigits digits : Int), rest)
      | rest => (digits? rest).map fun (digits, rest) => ((Text.ofDigits digits : Int), rest)
    else none
  | [] => none

def unsigned? (negative : Bool) (text : List Char) : Option (Json × List Char) := do
  let (whole, rest) ← whole? text
  match fraction? rest, exponent? rest with
  | none, none =>
    let size : Int := Text.ofDigits whole
    return (int (if negative then -size else size), rest)
  | none, some (exponent, rest) => return (double (.ofDecimal negative (Text.ofDigits whole) exponent), rest)
  | some (fraction, rest), _ =>
    let (exponent, rest) := (exponent? rest).getD (0, rest)
    return (double (.ofDecimal negative (Text.ofDigits (whole ++ fraction)) (exponent - fraction.length)), rest)

def literals : List (List Char × Json) :=
  [("null".toList, null), ("true".toList, bool true), ("false".toList, bool false), ("NaN".toList, double .nan),
    ("Infinity".toList, double (.infinite false)), ("-Infinity".toList, double (.infinite true))]

def literal? (text : List Char) : Option (Json × List Char) :=
  literals.findSome? fun (word, value) =>
    if word.isPrefixOf text then some (value, text.drop word.length) else none

def scalar? (text : List Char) : Option (Json × List Char) :=
  match literal? text with
  | some read => some read
  | none => match text with
    | '"' :: rest => (units? rest).map fun (units, rest) =>
      match joined? units with
      | some chars => (str (String.ofList chars), rest)
      | none => (unpaired, rest)
    | '-' :: rest => unsigned? true rest
    | text => unsigned? false text

mutual

/-- A value at the front of a text. Every step takes a character, so fuel above the length never runs out. -/
def value? : Nat → List Char → Option (Json × List Char)
  | 0, _ => none
  | fuel + 1, '[' :: rest => match skip rest with
    | ']' :: rest => some (arr [], rest)
    | rest => (elements? fuel rest).map fun (elements, rest) => (arr elements, rest)
  | fuel + 1, '{' :: rest => match skip rest with
    | '}' :: rest => some (obj [], rest)
    | rest => (members? fuel rest).map fun (members, rest) => (obj members, rest)
  | _ + 1, text => scalar? text

def elements? : Nat → List Char → Option (List Json × List Char)
  | 0, _ => none
  | fuel + 1, text => do
    let (value, rest) ← value? fuel text
    match skip rest with
    | ']' :: rest => return ([value], rest)
    | ',' :: rest =>
      let (others, rest) ← elements? fuel (skip rest)
      return (value :: others, rest)
    | _ => none

/-- A member whose name has no text is left out. -/
def members? : Nat → List Char → Option (List (String × Json) × List Char)
  | 0, _ => none
  | fuel + 1, text => do
    let '"' :: rest := text | none
    let (units, rest) ← units? rest
    let ':' :: rest := skip rest | none
    let (value, rest) ← value? fuel (skip rest)
    let named := (joined? units).toList.map fun name => (String.ofList name, value)
    match skip rest with
    | '}' :: rest => return (named, rest)
    | ',' :: rest =>
      let (others, rest) ← members? fuel (skip rest)
      return (named ++ others, rest)
    | _ => none

end

def read? (text : String) : Option Json := do
  let chars := text.toList
  let (value, rest) ← value? (2 * chars.length + 1) (skip chars)
  guard (skip rest = [])
  return value

end Overdue.Json
