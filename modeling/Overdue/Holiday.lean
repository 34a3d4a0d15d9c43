import Overdue.Date
import Overdue.Text.Blank
import Overdue.Text.Lines
import Overdue.Text.Quoted

/-! Holiday entries. A text holds one entry a line or between commas; an entry is `dd/mm/yyyy` with blanks around it,
the day and the month with or without a leading zero. Blank entries are left out, and the first entry that names no
date rejects the whole list. -/
namespace Overdue

inductive ConfigError where
  | holiday (entry : List Char)
  | zone (name : String)
deriving DecidableEq, Repr

def ConfigError.message : ConfigError → String
  | holiday entry => "Invalid holiday date: " ++ String.ofList (Text.quoted entry) ++ " (expected dd/mm/yyyy)"
  | zone name => "Unknown time zone: " ++ String.ofList (Text.quoted name.toList)

inductive HolidayList where
  | text (content : String)
  | entries (list : List String)
deriving Repr

namespace Holiday

/-- The ways to read the front of a text, in order of preference, each with the rest. -/
abbrev Choices := List Char → List (Nat × List Char)

def between (low high c : Char) : Option Nat :=
  if low ≤ c ∧ c ≤ high then some (c.toNat - '0'.toNat) else none

def one (units : Char → Option Nat) : Choices
  | c :: rest => match units c with
    | some value => [(value, rest)]
    | none => []
  | [] => []

def two (tens units : Char → Option Nat) : Choices
  | t :: rest => match tens t with
    | some ten => (one units rest).map fun (value, rest) => (10 * ten + value, rest)
    | none => []
  | [] => []

/-- Any script may write the second digit of the days 10 to 29; all other digits of a day are ASCII. -/
def day : Choices := fun text =>
  two (between '3' '3') (between '0' '1') text ++ two (between '1' '2') Text.digit? text ++
    two (between '0' '0') (between '1' '9') text ++ one (between '1' '9') text ++
    match text with
    | ' ' :: rest => one (between '1' '9') rest
    | _ => []

def month : Choices := fun text =>
  two (between '1' '1') (between '0' '2') text ++ two (between '0' '0') (between '1' '9') text ++
    one (between '1' '9') text

/-- Four digits of any script. -/
def year : Choices := fun text =>
  (two Text.digit? Text.digit? text).flatMap fun (century, rest) =>
    (two Text.digit? Text.digit? rest).map fun (value, rest) => (100 * century + value, rest)

def afterSlash (choices : Choices) : Choices
  | '/' :: rest => choices rest
  | _ => []

/-- The date that an entry names; nothing may follow it. -/
def entry? (text : List Char) : Option Date :=
  let readings := (day text).flatMap fun (d, rest) =>
    (afterSlash month rest).flatMap fun (m, rest) =>
      (afterSlash year rest).map fun (y, rest) => (d, m, y, rest)
  match readings with
  | (d, m, y, []) :: _ => Date.ofCivil? y m d
  | _ => none

def dates : List (List Char) → Except ConfigError (List Date)
  | [] => .ok []
  | entry :: others =>
    if Text.strip entry = [] then dates others
    else match entry? (Text.strip entry) with
      | none => .error (.holiday (Text.strip entry))
      | some date => (dates others).map (date :: ·)

def insert (date : Date) : List Date → List Date
  | [] => [date]
  | first :: others =>
    if date.day < first.day then date :: first :: others
    else if date = first then first :: others
    else first :: insert date others

/-- The entries of a text: commas count as line breaks. -/
def entriesOf (content : List Char) : List (List Char) :=
  Text.lines (content.map fun c => if c = ',' then '\n' else c)

def setOf (dates : List Date) : List Date := dates.foldr insert []

end Holiday

namespace HolidayList

def entryTexts : HolidayList → List (List Char)
  | text content => Holiday.entriesOf content.toList
  | entries list => list.map String.toList

/-- The holidays of a list: its dates in increasing order, each once. -/
def parse (list : HolidayList) : Except ConfigError (List Date) := (Holiday.dates list.entryTexts).map Holiday.setOf

end HolidayList
end Overdue
